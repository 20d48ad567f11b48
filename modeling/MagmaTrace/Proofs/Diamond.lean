import MagmaTrace.Proofs.Outcome
import MagmaTrace.Proofs.Searching
import MagmaTrace.Proofs.Solid
import MagmaTrace.Term.Diamond

/-! # The grammar of terms in a Lean script

The reader of tokens is compared with the grammar it implements, stated as a relation
between terms and lists of tokens. Main statements: a text reads as a term exactly when its
tokens spell that term (`Term.ofLean_ok_iff`), and it then has one operation sign for every
operation of the term (`Term.count_diamond_of_ofLean`).
-/

namespace MagmaTrace

open Text

/-- What a variable of a Lean script is called: a letter or the low line, then word units. -/
def IsName : Text → Prop
  | [] => False
  | u :: rest => isWordStart u = true ∧ ∀ v ∈ rest, isWord v = true

instance : DecidablePred IsName
  | [] => instDecidableFalse
  | _ :: rest => @instDecidableAnd _ _ _ (List.decidableBAll _ rest)

theorem IsName.isWord_of_mem {name : Text} (h : IsName name) : ∀ u ∈ name, isWord u = true := by
  cases name with
  | nil => exact h.elim
  | cons u rest =>
      intro v hv
      rcases List.mem_cons.mp hv with rfl | hv
      · exact isWord_of_isWordStart h.1
      · exact h.2 v hv

theorem IsName.isSolid {name : Text} (h : IsName name) : IsSolid name :=
  fun u hu => isBlank_of_isWord (h.isWord_of_mem u hu)

/-- A term whose leaves a Lean script can name. -/
def Term.IsNamed (t : Term) : Prop := ∀ name ∈ t.names, IsName name

instance (t : Term) : Decidable t.IsNamed := List.decidableBAll _ t.names

/-- The number of operations in a term. -/
def Term.operations : Term → Nat
  | .var _ => 0
  | .op left right => left.operations + right.operations + 1

namespace Term

/-- The parentheses around an operation. -/
def openMark : CodeUnit := '('

def closeMark : CodeUnit := ')'

theorem lean_op (left right : Term) : (op left right).lean =
    openMark :: (left.lean ++ 0x20 :: diamond :: 0x20 :: (right.lean ++ [closeMark])) := by
  have opens : lit "(" = [openMark] := rfl
  have sign : lit " ◇ " = [0x20, diamond, 0x20] := rfl
  have closes : lit ")" = [closeMark] := rfl
  simp only [lean, opens, sign, closes, List.append_assoc, List.cons_append, List.nil_append]

theorem IsNamed.left {left right : Term} (h : (op left right).IsNamed) : left.IsNamed :=
  fun name hn => h name (List.mem_append_left _ hn)

theorem IsNamed.right {left right : Term} (h : (op left right).IsNamed) : right.IsNamed :=
  fun name hn => h name (List.mem_append_right _ hn)

end Term

namespace Token

mutual

/-- Tokens that spell a term: operands with operation signs between them, from the left. -/
inductive IsTerm : Term → List Token → Prop where
  | atom {t ts} (h : IsAtom t ts) : IsTerm t ts
  | op {left right ts us sign} (hl : IsTerm left ts) (isSign : sign.kind = .operation)
      (hr : IsAtom right us) : IsTerm (.op left right) (ts ++ sign :: us)

/-- Tokens that spell an operand: a name, or a term in parentheses. -/
inductive IsAtom : Term → List Token → Prop where
  | name {token} (isName : token.kind = .name) : IsAtom (.var token.value) [token]
  | enclosed {t ts opening closing} (isOpening : opening.kind = .opening) (h : IsTerm t ts)
      (isClosing : closing.kind = .closing) : IsAtom t (opening :: (ts ++ [closing]))

end

/-! ## The reader follows the grammar -/

mutual

theorem readTerm_sound {tokens : List Token} {r : Reading Term tokens}
    (h : readTerm tokens = .ok r) : ∃ used, tokens = used ++ r.rest ∧ IsTerm r.value used := by
  rw [readTerm] at h
  split at h
  · cases h
  · next first hf =>
    have := first.shorter
    obtain ⟨used, split, grammar⟩ := readAtom_sound hf
    exact readMore_sound h split (.atom grammar)
termination_by 2 * tokens.length + 2

theorem readMore_sound {tokens : List Token} {left r : Reading Term tokens}
    (h : readMore left = .ok r) {used : List Token} (split : tokens = used ++ left.rest)
    (grammar : IsTerm left.value used) :
    ∃ used, tokens = used ++ r.rest ∧ IsTerm r.value used := by
  rw [readMore] at h
  split at h
  · cases h
    exact ⟨used, split, grammar⟩
  · next sign rest onward =>
    split at h
    · next isSign =>
      split at h
      · cases h
      · next right hr =>
        have onwardLength : left.rest.length = rest.length + 1 := by rw [onward, List.length_cons]
        have atRight := right.shorter
        obtain ⟨operand, splitRight, grammarRight⟩ := readAtom_sound hr
        have whole : tokens = used ++ sign :: operand ++ right.rest := calc
          tokens = used ++ left.rest := split
          _ = used ++ sign :: rest := by rw [onward]
          _ = used ++ sign :: (operand ++ right.rest) := congrArg (used ++ sign :: ·) splitRight
          _ = used ++ sign :: operand ++ right.rest := by simp
        exact readMore_sound h whole (.op grammar isSign grammarRight)
    · cases h
      exact ⟨used, split, grammar⟩
termination_by 2 * left.rest.length + 1

theorem readAtom_sound {tokens : List Token} {r : Reading Term tokens}
    (h : readAtom tokens = .ok r) : ∃ used, tokens = used ++ r.rest ∧ IsAtom r.value used := by
  rw [readAtom.eq_def] at h
  split at h
  · cases h
  · next token rest =>
    split at h
    · next isName =>
      cases h
      exact ⟨[token], rfl, .name isName⟩
    · next isOpening =>
      split at h
      · cases h
      · next inner hi =>
        obtain ⟨used, split, grammar⟩ := readTerm_sound hi
        split at h
        · cases h
        · next close outside after =>
          split at h
          · next isClosing =>
            cases h
            have whole : token :: rest = token :: (used ++ [close]) ++ outside := calc
              token :: rest = token :: (used ++ inner.rest) := congrArg (token :: ·) split
              _ = token :: (used ++ [close]) ++ outside := by simp [after]
            exact ⟨token :: (used ++ [close]), whole, .enclosed isOpening grammar isClosing⟩
          · cases h
    · cases h
termination_by 2 * tokens.length + 1

end

/-! ## The grammar is read -/

mutual

/-- Reading the tokens of a term leads to the point where further operands may follow. -/
theorem readTerm_complete {t : Term} {ts : List Token} (h : IsTerm t ts) (rest : List Token) :
    ∃ left : Reading Term (ts ++ rest),
      left.value = t ∧ left.rest = rest ∧ readTerm (ts ++ rest) = readMore left := by
  cases h with
  | atom h =>
      obtain ⟨first, value, after, read⟩ := readAtom_complete h rest
      exact ⟨first, value, after, by rw [readTerm, read]⟩
  | @op leftTerm rightTerm ts us sign hl isSign hr =>
      obtain ⟨left, value, after, read⟩ := readTerm_complete hl (sign :: (us ++ rest))
      obtain ⟨right, valueRight, afterRight, readRight⟩ := readAtom_complete hr rest
      have shorter : rest.length < (ts ++ sign :: (us ++ rest)).length := by simp; omega
      have regroup : ts ++ sign :: us ++ rest = ts ++ sign :: (us ++ rest) := by simp
      rw [regroup]
      refine ⟨⟨.op leftTerm rightTerm, rest, shorter⟩, rfl, rfl, ?_⟩
      rw [read, readMore]
      split
      · next ended => simp [after] at ended
      · next token more onward =>
        obtain ⟨rfl, rfl⟩ : sign = token ∧ us ++ rest = more := by simpa [after] using onward
        simp only [isSign, if_true, readRight, value, valueRight, afterRight]
termination_by 2 * ts.length + 1

theorem readAtom_complete {t : Term} {ts : List Token} (h : IsAtom t ts) (rest : List Token) :
    ∃ r : Reading Term (ts ++ rest),
      r.value = t ∧ r.rest = rest ∧ readAtom (ts ++ rest) = .ok r := by
  cases h with
  | @name token isName =>
      refine ⟨⟨.var token.value, rest, by simp⟩, rfl, rfl, ?_⟩
      show readAtom (token :: rest) = _
      rw [readAtom.eq_def]
      simp only [isName]
  | @enclosed _ inside opening closing isOpening h isClosing =>
      obtain ⟨inner, value, after, read⟩ := readTerm_complete h (closing :: rest)
      have stop : readMore inner = .ok inner := by
        rw [readMore]
        split
        · rfl
        · next token more onward =>
          obtain ⟨rfl, rfl⟩ : closing = token ∧ rest = more := by simpa [after] using onward
          simp [isClosing]
      have shorter : rest.length < (opening :: (inside ++ closing :: rest)).length := by simp; omega
      have regroup : opening :: (inside ++ [closing]) ++ rest =
          opening :: (inside ++ closing :: rest) := by simp
      rw [regroup]
      refine ⟨⟨t, rest, shorter⟩, rfl, rfl, ?_⟩
      rw [readAtom.eq_def]
      simp only [isOpening, read, stop]
      split
      · next ended => simp [after] at ended
      · next token more onward =>
        obtain ⟨rfl, rfl⟩ : closing = token ∧ rest = more := by simpa [after] using onward
        simp only [isClosing, if_true, value]
termination_by 2 * ts.length

end

/-- Tokens that spell a term are read as that term, whatever follows that is no operation. -/
theorem readTerm_spelled {t : Term} {ts rest : List Token} (h : IsTerm t ts)
    (stop : ∀ token ∈ rest.head?, token.kind ≠ .operation) :
    ∃ r : Reading Term (ts ++ rest),
      r.value = t ∧ r.rest = rest ∧ readTerm (ts ++ rest) = .ok r := by
  obtain ⟨left, value, after, read⟩ := readTerm_complete h rest
  refine ⟨left, value, after, ?_⟩
  rw [read, readMore]
  split
  · rfl
  · next token more onward =>
    have other : token.kind ≠ .operation := stop token (by simp [← after, onward])
    simp [other]

/-! ## From texts to tokens -/

/-- A token's text is of the token's kind. -/
def IsSpelled (token : Token) : Prop :=
  match token.kind with
  | .name => IsName token.value
  | .operation => token.value = [Term.diamond]
  | .opening => token.value = lit "("
  | .closing => token.value = lit ")"
  | .finish => token.value = []

theorem ofMark?_sound {u : CodeUnit} {kind : TokenKind} (h : TokenKind.ofMark? u = some kind)
    (position : Nat) : IsSpelled ⟨kind, [u], position⟩ ∧ kind ≠ .finish := by
  unfold TokenKind.ofMark? at h
  split at h
  · next same =>
    cases h
    exact ⟨congrArg (fun v => [v]) same, nofun⟩
  · split at h
    · next same =>
      cases h
      exact ⟨congrArg (fun v => [v]) same, nofun⟩
    · split at h
      · next same =>
        cases h
        exact ⟨congrArg (fun v => [v]) same, nofun⟩
      · cases h

/-- The tokens of a text spell it out without its white space; only the last ends it. -/
theorem tokensFrom_sound {position : Nat} {text : Text} {tokens : List Token}
    (h : tokensFrom position text = .ok tokens) :
    ∃ body stop, tokens = body ++ [⟨.finish, [], stop⟩] ∧
      (∀ token ∈ body, IsSpelled token ∧ token.kind ≠ .finish) ∧
      body.flatMap (·.value) = solid text := by
  fun_induction tokensFrom position text generalizing tokens with
  | case1 position =>
      cases h
      exact ⟨[], position, rfl, by simp, rfl⟩
  | case2 position u rest blank ih =>
      obtain ⟨body, stop, rfl, spelled, same⟩ := ih h
      exact ⟨body, stop, rfl, spelled, by simpa [solid, blank] using same⟩
  | case3 position u rest solidHead kind mark ih =>
      obtain ⟨more, hm, rfl⟩ := map_ok_iff.mp h
      obtain ⟨body, stop, rfl, spelled, same⟩ := ih hm
      refine ⟨⟨kind, [u], position⟩ :: body, stop, rfl, ?_, ?_⟩
      · exact List.forall_mem_cons.mpr ⟨ofMark?_sound mark position, spelled⟩
      · simpa [solid, solidHead] using same
  | case4 position u rest solidHead mark start word =>
      rename_i ih
      obtain ⟨more, hm, rfl⟩ := map_ok_iff.mp h
      obtain ⟨body, stop, rfl, spelled, same⟩ := ih hm
      have isName : IsName word := ⟨start, fun v hv => List.mem_takeWhile_imp hv⟩
      have split : u :: rest = word ++ rest.dropWhile isWord := by simp [word]
      refine ⟨⟨.name, word, position⟩ :: body, stop, rfl, ?_, ?_⟩
      · have notEnd : TokenKind.name ≠ .finish := by decide
        exact List.forall_mem_cons.mpr ⟨⟨isName, notEnd⟩, spelled⟩
      · rw [split, solid_append, solid_of_isSolid isName.isSolid, ← same]
        rfl
  | case5 => cases h

theorem tokensFrom_blank {position : Nat} {u : CodeUnit} {rest : Text} (h : isBlank u = true) :
    tokensFrom position (u :: rest) = tokensFrom (position + 1) rest := by
  rw [tokensFrom.eq_def]
  simp [h]

theorem tokensFrom_mark {position : Nat} {u : CodeUnit} {rest : Text} {kind : TokenKind}
    (h : TokenKind.ofMark? u = some kind) (solidHead : isBlank u = false) :
    tokensFrom position (u :: rest) =
      (⟨kind, [u], position⟩ :: ·) <$> tokensFrom (position + 1) rest := by
  rw [tokensFrom.eq_def]
  simp [h, solidHead]

theorem ofMark?_of_isWord {u : CodeUnit} (h : isWord u = true) : TokenKind.ofMark? u = none := by
  unfold TokenKind.ofMark?
  split
  · next same => subst same; contradiction
  · split
    · next same => subst same; contradiction
    · split
      · next same => subst same; contradiction
      · rfl

theorem tokensFrom_name {position : Nat} {name rest : Text} (h : IsName name)
    (stop : ∀ u ∈ rest.head?, isWord u = false) :
    tokensFrom position (name ++ rest) =
      (⟨.name, name, position⟩ :: ·) <$> tokensFrom (position + name.length) rest := by
  cases name with
  | nil => exact h.elim
  | cons u word =>
      obtain ⟨taken, dropped⟩ := cut_append h.2 stop
      have noMark : TokenKind.ofMark? u = none := ofMark?_of_isWord (isWord_of_isWordStart h.1)
      rw [List.cons_append, tokensFrom.eq_def]
      simp only [h.isSolid u List.mem_cons_self, noMark, h.1, taken, dropped]
      rfl

/-! ## Texts that are terms -/

mutual

theorem IsTerm.kind_ne_finish {t : Term} {ts : List Token} (h : IsTerm t ts) :
    ∀ token ∈ ts, token.kind ≠ .finish := by
  cases h with
  | atom h => exact h.kind_ne_finish
  | op hl isSign hr =>
      intro token member
      rcases List.mem_append.mp member with member | member
      · exact hl.kind_ne_finish token member
      · rcases List.mem_cons.mp member with rfl | member
        · simp [isSign]
        · exact hr.kind_ne_finish token member
termination_by 2 * ts.length + 1

theorem IsAtom.kind_ne_finish {t : Term} {ts : List Token} (h : IsAtom t ts) :
    ∀ token ∈ ts, token.kind ≠ .finish := by
  cases h with
  | name isName => simp [isName]
  | enclosed isOpening h isClosing =>
      intro token member
      rcases List.mem_cons.mp member with rfl | member
      · simp [isOpening]
      · rcases List.mem_append.mp member with member | member
        · exact h.kind_ne_finish token member
        · simp [List.mem_singleton.mp member, isClosing]
termination_by 2 * ts.length

end

/-- The tokens before the first end token. -/
def beforeFinish (tokens : List Token) : List Token := tokens.takeWhile (·.kind != .finish)

theorem beforeFinish_append {ts rest : List Token} (proper : ∀ token ∈ ts, token.kind ≠ .finish)
    (ended : ∀ token ∈ rest.head?, token.kind = .finish) : beforeFinish (ts ++ rest) = ts :=
  (cut_append (by simpa using proper) (by simpa using ended)).1

/-- The tokens of a term are read as that term when an end token or nothing follows. -/
theorem parse_spelled {t : Term} {ts rest : List Token} (h : IsTerm t ts)
    (ended : ∀ token ∈ rest.head?, token.kind = .finish) (text : Text) :
    parse (ts ++ rest) text = .ok t := by
  have stop : ∀ token ∈ rest.head?, token.kind ≠ .operation := by
    intro token first
    simp [ended token first]
  obtain ⟨r, value, after, isRead⟩ := readTerm_spelled h stop
  cases rest with
  | nil => simp [parse, isRead, after, value]
  | cons finish more => simp [parse, isRead, after, value, ended finish rfl]

/-- Tokens are read as a term exactly when those before the first end token spell it. -/
theorem parse_ok_iff {tokens : List Token} {text : Text} {t : Term} :
    parse tokens text = .ok t ↔ IsTerm t (beforeFinish tokens) := by
  constructor
  · intro h
    unfold parse at h
    split at h
    · cases h
    · next r isRead =>
        obtain ⟨used, split, grammar⟩ := readTerm_sound isRead
        have ended : (∀ token ∈ r.rest.head?, token.kind = .finish) ∧ r.value = t := by
          split at h
          · next nothing =>
              cases h
              simp [nothing]
          · next token more onward =>
              split at h
              · next finish =>
                  cases h
                  simp [onward, finish]
              · cases h
        rw [split, beforeFinish_append grammar.kind_ne_finish ended.1, ← ended.2]
        exact grammar
  · intro h
    have first : ∀ token ∈ (tokens.dropWhile (·.kind != .finish)).head?, token.kind = .finish := by
      intro token first
      simpa using head?_dropWhile _ tokens token first
    have whole := parse_spelled h first text
    rwa [beforeFinish, List.takeWhile_append_dropWhile] at whole

mutual

theorem IsTerm.countP_operation {t : Term} {ts : List Token} (h : IsTerm t ts) :
    ts.countP (·.kind = .operation) = t.operations := by
  cases h with
  | atom h => exact h.countP_operation
  | op hl isSign hr =>
      simp [List.countP_append, hl.countP_operation, hr.countP_operation,
        isSign, Term.operations, Nat.add_assoc]
termination_by 2 * ts.length + 1

theorem IsAtom.countP_operation {t : Term} {ts : List Token} (h : IsAtom t ts) :
    ts.countP (·.kind = .operation) = t.operations := by
  cases h with
  | name isName => simp [isName, Term.operations]
  | enclosed isOpening h isClosing =>
      simp [List.countP_append, h.countP_operation, isOpening, isClosing]
termination_by 2 * ts.length

end

/-- Among the tokens of a text only operations hold the operation's sign. -/
theorem count_flatMap_value {body : List Token}
    (spelled : ∀ token ∈ body, IsSpelled token ∧ token.kind ≠ .finish) :
    (body.flatMap (·.value)).count Term.diamond = body.countP (·.kind = .operation) := by
  induction body with
  | nil => rfl
  | cons token body ih =>
      obtain ⟨⟨shape, -⟩, more⟩ := List.forall_mem_cons.mp spelled
      have single : token.value.count Term.diamond =
          if token.kind = .operation then 1 else 0 := by
        unfold IsSpelled at shape
        split at shape
        · next isName =>
          rw [isName]
          exact List.count_eq_zero.mpr fun hm => absurd (shape.isWord_of_mem _ hm) (by decide)
        all_goals
          next kind =>
          rw [kind, shape]
          decide
      rw [List.flatMap_cons, List.count_append, single, ih more, List.countP_cons]
      simp only [decide_eq_true_eq]
      omega

end Token

/-- A text reads as a term when its tokens spell the term and nothing follows them. -/
theorem Term.ofLean_ok_iff {text : Text} {t : Term} : ofLean text = .ok t ↔
    ∃ body stop, Token.tokensFrom 0 text = .ok (body ++ [⟨.finish, [], stop⟩]) ∧
      Token.IsTerm t body := by
  constructor
  · intro h
    obtain ⟨tokens, ht, hp⟩ := bind_ok_iff.mp h
    have lexed : Token.tokensFrom 0 text = .ok tokens := by
      unfold Token.ofText at ht
      split at ht
      · cases ht
      · next found => cases ht; exact found
    obtain ⟨body, stop, rfl, kinds, -⟩ := Token.tokensFrom_sound lexed
    have first : Token.beforeFinish (body ++ [⟨.finish, [], stop⟩]) = body :=
      Token.beforeFinish_append (fun token mem => (kinds token mem).2) (by simp)
    rw [Token.parse_ok_iff, first] at hp
    exact ⟨body, stop, lexed, hp⟩
  · rintro ⟨body, stop, lexed, grammar⟩
    have tokens : Token.ofText text = .ok (body ++ [⟨.finish, [], stop⟩]) := by
      rw [Token.ofText, lexed]
    exact bind_ok_iff.mpr ⟨_, tokens, Token.parse_spelled grammar (by simp) text⟩

/-- A text that reads as a term has one sign for every operation. -/
theorem Term.count_diamond_of_ofLean {text : Text} {t : Term} (h : ofLean text = .ok t) :
    text.count diamond = t.operations := by
  obtain ⟨body, stop, lexed, grammar⟩ := ofLean_ok_iff.mp h
  obtain ⟨body', stop', split, kinds, spelled⟩ := Token.tokensFrom_sound lexed
  obtain ⟨rfl, -⟩ := List.append_inj' split rfl
  rw [← count_solid (by decide), ← spelled, ← grammar.countP_operation,
    Token.count_flatMap_value kinds]

end MagmaTrace
