import MagmaTrace.Proofs.Parentheses
import MagmaTrace.Proofs.Searching

/-! # Stray units

A text for a Lean term is read one token after another. What is read before the first stray unit is
laid out by its tokens, and so is a text without stray units as a whole
(`Token.readsAs_tokensFrom`). There is none in a text that is made of white space, parentheses,
operation signs and words that do not start with a digit (`Token.isLexical_iff`).
-/

namespace MagmaTrace

open Text

namespace Text

/-- A word unit starts a name, or it is a digit. -/
theorem isWord_iff_start {u : CodeUnit} :
    isWord u = true ↔ isWordStart u = true ∨ isDigit u = true := by
  simp only [isWord, isWordStart, Bool.or_eq_true]
  exact or_right_comm

theorem not_isWordStart_of_isDigit {u : CodeUnit} (digit : isDigit u = true) :
    isWordStart u = false := by
  rw [isDigit_iff] at digit
  simp only [Bool.eq_false_iff, isWordStart, ne_eq, Bool.or_eq_true, isLetter_iff, beq_iff_eq,
    ← UInt16.toNat_inj, UInt16.reduceToNat]
  omega

theorem startsWord_nil : StartsWord [] := by simp [StartsWord]

theorem startsWord_singleton {u : CodeUnit} (noWord : isWord u = false) : StartsWord [u] := by
  simpa [StartsWord] using noWord

end Text

namespace Token

/-- The offset just past a token. -/
def stop (token : Token) : Nat := token.position + token.value.length

/-- A token other than the end is a name or a mark. -/
theorem IsSpelled.name_or_mark {token : Token} (h : IsSpelled token)
    (proper : token.kind ≠ .finish) : (token.kind = .name ∧ IsName token.value) ∨
      ∃ mark, token.value = [mark] ∧ TokenKind.ofMark? mark = some token.kind ∧
        isBlank mark = false := by
  obtain ⟨kind, value, position⟩ := token
  cases kind with
  | name => exact .inl ⟨rfl, h⟩
  | operation => exact .inr ⟨Term.diamond, h, rfl, by decide⟩
  | opening => exact .inr ⟨Term.openMark, h, rfl, by decide⟩
  | closing => exact .inr ⟨Term.closeMark, h, rfl, by decide⟩
  | finish => exact absurd rfl proper

theorem IsSpelled.value_ne_nil {token : Token} (h : IsSpelled token)
    (proper : token.kind ≠ .finish) : token.value ≠ [] := by
  intro nothing
  rcases h.name_or_mark proper with ⟨-, isName⟩ | ⟨mark, single, -⟩
  · rw [nothing] at isName
    exact isName
  · rw [nothing] at single
    cases single

theorem not_isWord_of_ofMark? {u : CodeUnit} {kind : TokenKind}
    (mark : TokenKind.ofMark? u = some kind) : isWord u = false := by
  rw [Bool.eq_false_iff]
  intro word
  rw [ofMark?_of_isWord word] at mark
  cases mark

/-! ## Laying out a text -/

/-- A token that is read where a text goes on with it and then with a rest: it is not the end, and
    if it is a name, it is as long as can be. -/
structure IsNext (token : Token) (rest : Text) : Prop where
  spelled : IsSpelled token
  proper : token.kind ≠ .finish
  longest : token.kind = .name → ∀ u ∈ rest.head?, isWord u = false

/-- What comes after the rest does not matter. -/
theorem IsNext.of_append {token : Token} {rest more : Text} (h : IsNext token (rest ++ more)) :
    IsNext token rest := by
  refine { h with longest := fun name u first => h.longest name u ?_ }
  rw [List.head?_append, Option.mem_def.mp first]
  rfl

theorem isNext_mark {u : CodeUnit} {kind : TokenKind} (mark : TokenKind.ofMark? u = some kind)
    (position : Nat) (rest : Text) : IsNext ⟨kind, [u], position⟩ rest := by
  obtain ⟨spelled, proper⟩ := ofMark?_sound mark position
  refine ⟨spelled, proper, ?_⟩
  rintro rfl
  have word := isWord_of_isWordStart spelled.1
  rw [not_isWord_of_ofMark? mark] at word
  cases word

theorem tokensFrom_token {token : Token} {rest : Text} (next : IsNext token rest) :
    tokensFrom token.position (token.value ++ rest) =
      (token :: ·) <$> tokensFrom token.stop rest := by
  obtain ⟨kind, value, position⟩ := token
  rcases next.spelled.name_or_mark next.proper with ⟨rfl, isName⟩ | ⟨mark, rfl, isMark, solid⟩
  · exact tokensFrom_name isName (next.longest rfl)
  · exact tokensFrom_mark isMark solid

/-- Tokens that lay out a text which starts at an offset: each is spelled where it stands, and there
    is only white space between them and around them. -/
inductive Lays : Nat → Text → List Token → Prop where
  | finish {position : Nat} {gap : Text} (blank : IsBlank gap) :
      Lays position gap [⟨.finish, [], position + gap.length⟩]
  | token {position : Nat} {gap rest : Text} {token : Token} {tokens : List Token}
      (blank : IsBlank gap) (place : token.position = position + gap.length)
      (next : IsNext token rest) (further : Lays token.stop rest tokens) :
      Lays position (gap ++ (token.value ++ rest)) (token :: tokens)

/-- Tokens that lay out a text are its tokens. -/
theorem tokensFrom_of_lays {position : Nat} {text : Text} {tokens : List Token}
    (h : Lays position text tokens) : tokensFrom position text = .ok tokens := by
  induction h with
  | @finish position gap blank =>
      have skipped := tokensFrom_gap blank position []
      rw [List.append_nil] at skipped
      rw [skipped, tokensFrom.eq_def]
  | @token position gap rest token tokens blank place next further ih =>
      rw [tokensFrom_gap blank, ← place, tokensFrom_token next, ih]
      rfl

/-- White space may stand before the tokens. -/
theorem Lays.blank {position : Nat} {u : CodeUnit} {text : Text} {tokens : List Token}
    (h : Lays (position + 1) text tokens) (blank : isBlank u = true) :
    Lays position (u :: text) tokens := by
  generalize onward : position + 1 = start at h
  cases h with
  | finish more =>
      have whole : IsBlank (u :: text) := List.forall_mem_cons.mpr ⟨blank, more⟩
      have place : start + text.length = position + (u :: text).length := by
        rw [List.length_cons]
        omega
      rw [place]
      exact .finish whole
  | @token _ gap rest token tokens more place next further =>
      have whole : IsBlank (u :: gap) := List.forall_mem_cons.mpr ⟨blank, more⟩
      have place' : token.position = position + (u :: gap).length := by
        rw [List.length_cons]
        omega
      exact .token whole place' next further

theorem Lays.cons {token : Token} {rest : Text} {tokens : List Token} (next : IsNext token rest)
    (h : Lays token.stop rest tokens) :
    Lays token.position (token.value ++ rest) (token :: tokens) :=
  .token isBlank_nil rfl next h

/-! ## Units that no token takes up -/

/-- A unit is stray after some text when it is neither white space nor the start of a token, and no
    name at the end of the text goes on with it. -/
structure IsStray (before : Text) (u : CodeUnit) : Prop where
  solid : isBlank u = false
  noMark : TokenKind.ofMark? u = none
  noStart : isWordStart u = false
  outside : isWord u = true → StartsWord before

/-- A unit that is stray after some text is so after a longer one, unless a name goes on over the
    place where the two parts of that meet. -/
theorem IsStray.prepend {before : Text} {u : CodeUnit} (h : IsStray before u) {piece : Text}
    (joint : StartsWord piece ∨ ∀ v ∈ (before ++ [u]).head?, isWord v = false) :
    IsStray (piece ++ before) u := by
  refine { h with outside := fun word v last => ?_ }
  cases before using List.reverseRec with
  | nil =>
      rw [List.append_nil] at last
      rcases joint with starts | stop
      · exact starts v last
      · rw [stop u rfl] at word
        cases word
  | append_singleton before w =>
      rw [← List.append_assoc, List.getLast?_concat] at last
      cases last
      exact h.outside word v List.getLast?_concat

/-- No unit of a token is stray. -/
theorem IsSpelled.not_isStray {token : Token} (h : IsSpelled token) (proper : token.kind ≠ .finish)
    (before after : Text) :
    Throughout (fun before u _ => ¬ IsStray before u) before token.value after := by
  rcases h.name_or_mark proper with ⟨-, isName⟩ | ⟨mark, single, isMark, -⟩
  · -- The first unit starts the name; any other is a word unit after a word unit.
    rintro a u b split stray
    rw [split] at isName
    cases a using List.reverseRec with
    | nil =>
        have start := stray.noStart
        rw [isName.1] at start
        cases start
    | append_singleton a v =>
        have words := isName.isWord_of_mem
        have apart := stray.outside (words u (by simp)) v (by simp)
        rw [words v (by simp)] at apart
        cases apart
  · rw [single, throughout_cons]
    refine ⟨fun stray => ?_, by simp [Throughout]⟩
    have noMark := stray.noMark
    rw [isMark] at noMark
    cases noMark

/-- Nothing that tokens lay out is stray. -/
theorem not_isStray_of_lays {position : Nat} {text : Text} {tokens : List Token}
    (h : Lays position text tokens) (before after : Text) :
    Throughout (fun before u _ => ¬ IsStray before u) before text after := by
  have gaps (before gap after : Text) (blank : IsBlank gap) :
      Throughout (fun before u _ => ¬ IsStray before u) before gap after := by
    rintro a u b rfl stray
    have solid := stray.solid
    rw [blank u (List.mem_append_right a List.mem_cons_self)] at solid
    cases solid
  induction h generalizing before with
  | @finish position gap blank => exact gaps before gap after blank
  | @token position gap rest token tokens blank place next further ih =>
      refine throughout_append.mpr ⟨gaps before gap _ blank, throughout_append.mpr ⟨?_, ih _⟩⟩
      exact next.spelled.not_isStray next.proper _ _

/-! ## What reading comes to -/

/-- Reading a text ends with tokens that lay it out, or at a stray unit with tokens that lay out
    what is before it. -/
inductive ReadsAs (position : Nat) (text : Text) :
    Except (CodeUnit × Nat) (List Token) → Prop where
  | ok {tokens : List Token} (lays : Lays position text tokens) : ReadsAs position text (.ok tokens)
  | stray {before rest : Text} {u : CodeUnit} {tokens : List Token}
      (split : text = before ++ u :: rest) (lays : Lays position before tokens)
      (stray : IsStray before u) : ReadsAs position text (.error (u, position + before.length))

theorem ReadsAs.blank {position : Nat} {u : CodeUnit} {text : Text}
    {outcome : Except (CodeUnit × Nat) (List Token)} (blank : isBlank u = true)
    (h : ReadsAs (position + 1) text outcome) : ReadsAs position (u :: text) outcome := by
  cases h with
  | ok lays => exact .ok (lays.blank blank)
  | @stray before rest v tokens split lays stray =>
      have starts : StartsWord [u] := startsWord_singleton (not_isWord_of_isBlank blank)
      have place : position + 1 + before.length = position + (u :: before).length := by
        rw [List.length_cons]
        omega
      rw [place]
      exact .stray (congrArg (u :: ·) split) (lays.blank blank) (stray.prepend (.inl starts))

theorem ReadsAs.cons {token : Token} {text : Text}
    {outcome : Except (CodeUnit × Nat) (List Token)} (next : IsNext token text)
    (h : ReadsAs token.stop text outcome) :
    ReadsAs token.position (token.value ++ text) ((token :: ·) <$> outcome) := by
  cases h with
  | ok lays => exact .ok (.cons next lays)
  | @stray before rest u tokens split lays stray =>
      rw [split, List.append_cons] at next
      have upTo : IsNext token (before ++ [u]) := next.of_append
      have joint : StartsWord token.value ∨ ∀ v ∈ (before ++ [u]).head?, isWord v = false := by
        rcases next.spelled.name_or_mark next.proper with ⟨name, -⟩ | ⟨mark, single, isMark, -⟩
        · exact .inr (upTo.longest name)
        · rw [single]
          exact .inl (startsWord_singleton (not_isWord_of_ofMark? isMark))
      have place : token.stop + before.length =
          token.position + (token.value ++ before).length := by
        rw [List.length_append, stop]
        omega
      rw [split, place]
      exact .stray (List.append_assoc ..).symm (.cons upTo.of_append lays) (stray.prepend joint)

theorem readsAs_tokensFrom (position : Nat) (text : Text) :
    ReadsAs position text (tokensFrom position text) := by
  fun_induction tokensFrom position text with
  | case1 position => exact .ok (.finish isBlank_nil)
  | case2 position u rest blank ih => exact ih.blank blank
  | case3 position u rest solid kind mark ih => exact .cons (isNext_mark mark position rest) ih
  | case4 position u rest solid mark start word ih =>
      have isName : IsName word := ⟨start, fun v mem => List.mem_takeWhile_imp mem⟩
      have split : u :: rest = word ++ rest.dropWhile isWord := by simp [word]
      have proper : TokenKind.name ≠ .finish := by decide
      have next : IsNext ⟨.name, word, position⟩ (rest.dropWhile isWord) :=
        ⟨isName, proper, fun _ => head?_dropWhile isWord rest⟩
      rw [split]
      exact .cons next ih
  | case5 position u rest solid noMark noStart =>
      have stray : IsStray [] u :=
        ⟨by simpa using solid, noMark, by simpa using noStart, fun _ => startsWord_nil⟩
      exact .stray rfl (.finish isBlank_nil) stray

/-! ## Which texts have tokens -/

/-- A word of a text: a run of word units that is as long as can be. -/
structure IsWordRun (before run after : Text) : Prop where
  nonempty : run ≠ []
  words : ∀ u ∈ run, isWord u = true
  starts : StartsWord before
  ends : ∀ u ∈ after.head?, isWord u = false

/-- A text that is made of white space, parentheses, operation signs and words that do not start
    with a digit. -/
structure IsLexical (text : Text) : Prop where
  units : ∀ u ∈ text, isBlank u = true ∨ u = Term.openMark ∨ u = Term.closeMark ∨
    u = Term.diamond ∨ isWord u = true
  words : ∀ before run after, text = before ++ (run ++ after) → IsWordRun before run after →
    ∀ u ∈ run.head?, isDigit u = false

theorem ofMark?_eq_none_iff {u : CodeUnit} : TokenKind.ofMark? u = none ↔
    u ≠ Term.openMark ∧ u ≠ Term.closeMark ∧ u ≠ Term.diamond := by
  unfold TokenKind.ofMark?
  simp [Term.openMark, Term.closeMark, Term.diamond, ite_eq_iff]

/-- Texts of that kind are those in which no unit is stray. -/
theorem isLexical_iff {text : Text} : IsLexical text ↔
    ∀ before u rest, text = before ++ u :: rest → ¬ IsStray before u := by
  constructor
  · rintro ⟨units, words⟩ before u rest rfl ⟨solid, noMark, noStart, outside⟩
    rw [ofMark?_eq_none_iff] at noMark
    have word : isWord u = true := by
      have kinds := units u (by simp)
      simpa [solid, noMark] using kinds
    have run : IsWordRun before (u :: rest.takeWhile isWord) (rest.dropWhile isWord) := {
      nonempty := List.cons_ne_nil _ _
      words := List.forall_mem_cons.mpr ⟨word, fun v mem => List.mem_takeWhile_imp mem⟩
      starts := outside word
      ends := head?_dropWhile isWord rest }
    have noDigit := words before _ _ (by simp) run u rfl
    simp [isWord_iff_start, noStart, noDigit] at word
  · intro clear
    constructor
    · intro u mem
      obtain ⟨before, rest, rfl⟩ := List.append_of_mem mem
      by_contra other
      simp only [not_or, Bool.not_eq_true] at other
      obtain ⟨solid, noOpen, noClose, noSign, noWord⟩ := other
      have noStart : isWordStart u = false := by
        rw [Bool.eq_false_iff]
        intro start
        rw [isWord_of_isWordStart start] at noWord
        cases noWord
      exact clear before u rest rfl
        ⟨solid, ofMark?_eq_none_iff.mpr ⟨noOpen, noClose, noSign⟩, noStart, by simp [noWord]⟩
    · rintro before run after rfl ⟨nonempty, words, starts, -⟩ u first
      obtain ⟨more, rfl⟩ := List.head?_eq_some_iff.mp first
      have word := words u List.mem_cons_self
      rw [Bool.eq_false_iff]
      intro digit
      exact clear before u (more ++ after) rfl ⟨isBlank_of_isWord word, ofMark?_of_isWord word,
        not_isWordStart_of_isDigit digit, fun _ => starts⟩

end Token

end MagmaTrace
