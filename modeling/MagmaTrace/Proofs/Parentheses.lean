import MagmaTrace.Proofs.Diamond

/-! # Parentheses that a script may leave out or add

A printed term has a pair of parentheses for every operation. The operation associates to the
left, so a term reads back also without those around all of it or around a left operand, with
more of them than needed, and with any white space between its parts (`Term.ofLean_loose`).
-/

namespace MagmaTrace

open Text

namespace Term

/-- Where a term stands in a text: by itself, or as an operand of an operation. -/
inductive Place where
  | whole
  | left
  | right
  deriving DecidableEq

/-- Loose spellings of a term. An operation needs parentheses only as a right operand; any part
    may stand in parentheses, its own or further ones; white space may stand around the signs
    and within the parentheses. -/
inductive Loose : Place → Term → Text → Prop where
  | name {place : Place} (name : Text) : Loose place (.var name) name
  | bare {place : Place} {left right : Term} {a toSign toRight b : Text} (free : place ≠ .right)
      (hl : Loose .left left a) (blankSign : IsBlank toSign) (blankRight : IsBlank toRight)
      (hr : Loose .right right b) :
      Loose place (.op left right) (a ++ (toSign ++ diamond :: (toRight ++ b)))
  | enclosed {place : Place} {t : Term} {toTerm text toClose : Text} (blankTerm : IsBlank toTerm)
      (h : Loose .whole t text) (blankClose : IsBlank toClose) :
      Loose place t (openMark :: (toTerm ++ (text ++ (toClose ++ [closeMark]))))

theorem loose_lean (t : Term) (place : Place) : Loose place t t.lean := by
  induction t generalizing place with
  | var name => exact .name name
  | op left right ihl ihr =>
      have space : IsBlank [0x20] := by decide
      have notRight : Place.whole ≠ .right := by decide
      have inside := Loose.bare notRight (ihl .left) space space (ihr .right)
      have whole : Loose place (.op left right) _ := .enclosed isBlank_nil inside isBlank_nil
      simpa [lean_op] using whole

end Term

namespace Token

/-- White space starts no token. -/
theorem tokensFrom_gap {gap : Text} (h : IsBlank gap) (position : Nat) (rest : Text) :
    tokensFrom position (gap ++ rest) = tokensFrom (position + gap.length) rest := by
  induction gap generalizing position with
  | nil => rfl
  | cons u gap ih =>
      obtain ⟨blank, others⟩ := List.forall_mem_cons.mp h
      rw [List.cons_append, tokensFrom_blank blank, ih others, List.length_cons]
      congr 1
      omega

theorem tokensFrom_gap_mark {gap : Text} (blank : IsBlank gap) {mark : CodeUnit} {kind : TokenKind}
    (isMark : TokenKind.ofMark? mark = some kind) (solid : isBlank mark = false) (position : Nat)
    (rest : Text) : tokensFrom position (gap ++ mark :: rest) =
      (⟨kind, [mark], position + gap.length⟩ :: ·) <$>
        tokensFrom (position + gap.length + 1) rest := by
  rw [tokensFrom_gap blank, tokensFrom_mark isMark solid]

/-- A loose spelling has the tokens of its term, and as a right operand those of an operand,
    whatever the text goes on with. -/
theorem tokensFrom_loose {t : Term} {place : Term.Place} {text : Text} (named : t.IsNamed)
    (h : t.Loose place text) (position : Nat) :
    ∃ ts, IsTerm t ts ∧ (place = .right → IsAtom t ts) ∧
      ∀ rest, (∀ u ∈ rest.head?, isWord u = false) →
        tokensFrom position (text ++ rest) =
          (ts ++ ·) <$> tokensFrom (position + text.length) rest := by
  -- By the spelling; the tokens depend on where it stands.
  induction h generalizing position with
  | name name =>
      have isName : IsName name := named name (List.mem_singleton_self name)
      let token : Token := ⟨.name, name, position⟩
      have operand : IsAtom (.var token.value) [token] := .name rfl
      refine ⟨_, .atom operand, fun _ => operand, ?_⟩
      intro rest stop
      exact tokensFrom_name isName stop
  | @bare place left right a toSign toRight b free hl blankSign blankRight hr ihl ihr =>
      let signAt := position + a.length + toSign.length
      obtain ⟨ts, grammarLeft, -, lexLeft⟩ := ihl named.left position
      obtain ⟨us, -, operand, lexRight⟩ := ihr named.right (signAt + 1 + toRight.length)
      have grammarRight := operand rfl
      let sign : Token := ⟨.operation, [Term.diamond], signAt⟩
      refine ⟨ts ++ sign :: us, .op grammarLeft rfl grammarRight,
        fun isRight => absurd isRight free, ?_⟩
      intro rest stop
      have isSign : TokenKind.ofMark? Term.diamond = some .operation := by decide
      have ended : ∀ u ∈ (toSign ++ Term.diamond :: (toRight ++ (b ++ rest))).head?,
          isWord u = false :=
        head?_gap blankSign (fun _ => not_isWord_of_isBlank) (by decide) _
      have place : signAt + 1 + toRight.length + b.length =
          position + (a ++ (toSign ++ Term.diamond :: (toRight ++ b))).length := by
        simp only [List.length_append, List.length_cons, signAt]
        omega
      calc tokensFrom position (a ++ (toSign ++ Term.diamond :: (toRight ++ b)) ++ rest)
        _ = tokensFrom position (a ++ (toSign ++ Term.diamond :: (toRight ++ (b ++ rest)))) := by
          simp only [List.append_assoc, List.cons_append]
        _ = _ := by
          rw [lexLeft _ ended, tokensFrom_gap_mark blankSign isSign (by decide),
            tokensFrom_gap blankRight, lexRight rest stop, place]
          simp only [Functor.map_map, List.append_assoc, List.cons_append]
          rfl
  | @enclosed place t toTerm text toClose blankTerm h blankClose ih =>
      let termAt := position + 1 + toTerm.length
      let closeAt := termAt + text.length + toClose.length
      obtain ⟨ts, grammar, -, lexed⟩ := ih named termAt
      let opening : Token := ⟨.opening, [Term.openMark], position⟩
      let closing : Token := ⟨.closing, [Term.closeMark], closeAt⟩
      have operand : IsAtom t (opening :: (ts ++ [closing])) := .enclosed rfl grammar rfl
      refine ⟨_, .atom operand, fun _ => operand, ?_⟩
      intro rest _
      have isOpening : TokenKind.ofMark? Term.openMark = some .opening := by decide
      have isClosing : TokenKind.ofMark? Term.closeMark = some .closing := by decide
      have ended : ∀ u ∈ (toClose ++ Term.closeMark :: rest).head?, isWord u = false :=
        head?_gap blankClose (fun _ => not_isWord_of_isBlank) (by decide) rest
      have place : closeAt + 1 = position +
          (Term.openMark :: (toTerm ++ (text ++ (toClose ++ [Term.closeMark])))).length := by
        simp only [List.length_append, List.length_cons, List.length_nil, closeAt, termAt]
        omega
      calc tokensFrom position
            (Term.openMark :: (toTerm ++ (text ++ (toClose ++ [Term.closeMark]))) ++ rest)
        _ = tokensFrom position
            (Term.openMark :: (toTerm ++ (text ++ (toClose ++ Term.closeMark :: rest)))) := by
          simp only [List.append_assoc, List.cons_append, List.nil_append]
        _ = _ := by
          rw [tokensFrom_mark isOpening (by decide), tokensFrom_gap blankTerm, lexed _ ended,
            tokensFrom_gap_mark blankClose isClosing (by decide), place]
          simp only [Functor.map_map, List.append_assoc, List.cons_append, List.nil_append]
          rfl

end Token

namespace Term

/-- A text with the tokens of a term is read as that term, whatever white space is around it. -/
theorem ofLean_of_tokens {t : Term} {ts : List Token} {lead text tail : Text}
    (grammar : Token.IsTerm t ts) (before : IsBlank lead) (after : IsBlank tail)
    (lexed : ∀ rest, (∀ u ∈ rest.head?, isWord u = false) →
      Token.tokensFrom (0 + lead.length) (text ++ rest) =
        (ts ++ ·) <$> Token.tokensFrom (0 + lead.length + text.length) rest) :
    ofLean (lead ++ text ++ tail) = .ok t := by
  have stops : ∀ u ∈ tail.head?, isWord u = false := by
    intro u first
    exact not_isWord_of_isBlank (after u (List.mem_of_mem_head? first))
  have ended := Token.tokensFrom_gap after (0 + lead.length + text.length) []
  rw [List.append_nil] at ended
  refine ofLean_ok_iff.mpr ⟨ts, 0 + lead.length + text.length + tail.length, ?_, grammar⟩
  rw [List.append_assoc, Token.tokensFrom_gap before, lexed tail stops, ended,
    Token.tokensFrom.eq_def]
  rfl

/-- However loosely a term is spelled, it reads back. -/
theorem ofLean_loose {t : Term} {text lead tail : Text} (named : t.IsNamed)
    (h : t.Loose .whole text) (before : IsBlank lead) (after : IsBlank tail) :
    ofLean (lead ++ text ++ tail) = .ok t := by
  obtain ⟨ts, grammar, -, lexed⟩ := Token.tokensFrom_loose named h (0 + lead.length)
  exact ofLean_of_tokens grammar before after lexed

/-- A term with an operation on each side. -/
def grouped : Term :=
  .op (.op (.var (lit "x")) (.op (.var (lit "op")) (.var (lit "_y1"))))
    (.op (.var (lit "x")) (.var (lit "z")))

/-- It is read without the parentheses around it and around its left operand, with further ones
    around a variable, and with white space in some places only. -/
theorem ofLean_loose_grouped :
    grouped.IsNamed ∧ grouped.Loose .whole (lit "x◇ ( op ◇_y1 )◇((x)◇ z )") ∧
      IsBlank (lit "\t") ∧ IsBlank (lit " \n") ∧
      ofLean (lit "\tx◇ ( op ◇_y1 )◇((x)◇ z ) \n") = .ok grouped := by
  have named : grouped.IsNamed := by decide
  have tab : IsBlank (lit "\t") := by decide
  have ending : IsBlank (lit " \n") := by decide
  have byItself : Place.whole ≠ .right := by decide
  have onLeft : Place.left ≠ .right := by decide
  have inner := Loose.bare byItself (.name (lit "op")) isBlank_space isBlank_nil
    (.name (lit "_y1"))
  have first := Loose.bare onLeft (.name (lit "x")) isBlank_nil isBlank_space
    (.enclosed isBlank_space inner isBlank_space)
  have second := Loose.bare byItself (.enclosed isBlank_nil (.name (lit "x")) isBlank_nil)
    isBlank_nil isBlank_space (.name (lit "z"))
  have loose := Loose.bare byItself first isBlank_nil isBlank_nil
    (.enclosed isBlank_nil second isBlank_space)
  exact ⟨named, loose, tab, ending, ofLean_loose named loose tab ending⟩

/-- A printed term reads back with white space around it. -/
theorem ofLean_around {t : Term} (named : t.IsNamed) {lead tail : Text} (before : IsBlank lead)
    (after : IsBlank tail) : ofLean (lead ++ t.lean ++ tail) = .ok t := by
  obtain ⟨ts, grammar, -, lexed⟩ :=
    Token.tokensFrom_loose named (loose_lean t .whole) (0 + lead.length)
  exact ofLean_of_tokens grammar before after lexed

/-- A printed term reads back. -/
theorem ofLean_lean {t : Term} (named : t.IsNamed) : ofLean t.lean = .ok t := by
  have whole := ofLean_around named isBlank_nil isBlank_nil
  rwa [List.nil_append, List.append_nil] at whole

/-- Terms that a Lean script can name are told apart by their texts. -/
theorem eq_of_lean {a b : Term} (ha : a.IsNamed) (hb : b.IsNamed) (same : a.lean = b.lean) :
    a = b := by
  have read := ofLean_lean ha
  rw [same, ofLean_lean hb] at read
  exact (Except.ok.inj read).symm

end Term

end MagmaTrace
