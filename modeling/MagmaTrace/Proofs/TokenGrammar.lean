import MagmaTrace.Diagnostic.Kind
import MagmaTrace.Proofs.Diamond

/-! # The grammar of tokens

    term = atom { "◇" atom }
    atom = name  |  "(" term ")"

The operands of a term are joined from the left. Whatever the tokens are, those before the first
end token are read as a term exactly when the grammar derives it from them, and it derives no other
(`Token.parse_exactly`).
-/

namespace MagmaTrace

namespace Token

mutual

/-- What `atom { "◇" atom }` derives: the operands, joined from the left. -/
inductive DerivesTerm : List Token → Term → Prop where
  | intro {ts us : List Token} {first : Term} {operands : List Term} (h : DerivesAtom ts first)
      (further : DerivesOperands us operands) : DerivesTerm (ts ++ us) (operands.foldl .op first)

/-- What `{ "◇" atom }` derives: further operands. -/
inductive DerivesOperands : List Token → List Term → Prop where
  | nil : DerivesOperands [] []
  | cons {sign : Token} {ts us : List Token} {t : Term} {operands : List Term}
      (isSign : sign.kind = .operation) (h : DerivesAtom ts t)
      (further : DerivesOperands us operands) :
      DerivesOperands (sign :: (ts ++ us)) (t :: operands)

/-- What `name | "(" term ")"` derives. -/
inductive DerivesAtom : List Token → Term → Prop where
  | name {token : Token} (isName : token.kind = .name) : DerivesAtom [token] (.var token.value)
  | enclosed {opening closing : Token} {ts : List Token} {t : Term}
      (isOpening : opening.kind = .opening) (h : DerivesTerm ts t)
      (isClosing : closing.kind = .closing) : DerivesAtom (opening :: (ts ++ [closing])) t

end

/-! ## From the left, one operand at a time -/

theorem DerivesOperands.concat {us : List Token} {operands : List Term}
    (h : DerivesOperands us operands) {sign : Token} {ts : List Token} {t : Term}
    (isSign : sign.kind = .operation) (last : DerivesAtom ts t) :
    DerivesOperands (us ++ sign :: ts) (operands ++ [t]) := by
  cases h with
  | nil =>
      have one := DerivesOperands.cons isSign last .nil
      rwa [List.append_nil] at one
  | cons isFirst first further =>
      have more := further.concat isSign last
      rw [List.cons_append, List.append_assoc, List.cons_append]
      exact .cons isFirst first more
termination_by operands.length

mutual

theorem DerivesTerm.isTerm {ts : List Token} {t : Term} (h : DerivesTerm ts t) : IsTerm t ts := by
  cases h with
  | intro first further => exact further.isTerm_foldl (.atom first.isAtom)
termination_by 2 * ts.length + 1

theorem DerivesOperands.isTerm_foldl {us : List Token} {operands : List Term}
    (h : DerivesOperands us operands) {ts : List Token} {t : Term} (left : IsTerm t ts) :
    IsTerm (operands.foldl .op t) (ts ++ us) := by
  cases h with
  | nil => rwa [List.append_nil]
  | @cons sign vs us _ operands isSign next further =>
      have longer := further.isTerm_foldl (.op left isSign next.isAtom)
      rwa [List.append_assoc, List.cons_append] at longer
termination_by 2 * us.length

theorem DerivesAtom.isAtom {ts : List Token} {t : Term} (h : DerivesAtom ts t) : IsAtom t ts := by
  cases h with
  | name isName => exact .name isName
  | enclosed isOpening inside isClosing => exact .enclosed isOpening inside.isTerm isClosing
termination_by 2 * ts.length

end

mutual

theorem IsTerm.derives {t : Term} {ts : List Token} (h : IsTerm t ts) : DerivesTerm ts t := by
  cases h with
  | atom h =>
      have one := DerivesTerm.intro h.derives .nil
      rwa [List.append_nil] at one
  | op hl isSign hr =>
      obtain ⟨first, further⟩ := hl.derives
      have longer := DerivesTerm.intro first (further.concat isSign hr.derives)
      rwa [List.foldl_concat, ← List.append_assoc] at longer
termination_by 2 * ts.length + 1

theorem IsAtom.derives {t : Term} {ts : List Token} (h : IsAtom t ts) : DerivesAtom ts t := by
  cases h with
  | name isName => exact .name isName
  | enclosed isOpening h isClosing => exact .enclosed isOpening h.derives isClosing
termination_by 2 * ts.length

end

/-- The grammar derives a term from the tokens that spell it. -/
theorem derivesTerm_iff {ts : List Token} {t : Term} : DerivesTerm ts t ↔ IsTerm t ts :=
  ⟨DerivesTerm.isTerm, IsTerm.derives⟩

mutual

/-- The leaves of a term are what its names spell, in order. -/
theorem IsTerm.names_eq {t : Term} {ts : List Token} (h : IsTerm t ts) :
    t.names = (ts.filter (·.kind = .name)).map (·.value) := by
  cases h with
  | atom h => exact h.names_eq
  | op hl isSign hr =>
      simp [Term.names, hl.names_eq, hr.names_eq, isSign]
termination_by 2 * ts.length + 1

theorem IsAtom.names_eq {t : Term} {ts : List Token} (h : IsAtom t ts) :
    t.names = (ts.filter (·.kind = .name)).map (·.value) := by
  cases h with
  | name isName => simp [Term.names, isName]
  | enclosed isOpening h isClosing => simp [h.names_eq, isOpening, isClosing]
termination_by 2 * ts.length

end

/-! ## Where reading stops -/

mutual

theorem suffix_of_readTerm_error {tokens : List Token} {e : Stuck Token}
    (h : readTerm tokens = .error e) : e.rest <:+ tokens := by
  rw [readTerm] at h
  split at h
  · next failed =>
      cases h
      exact suffix_of_readAtom_error failed
  · next first isRead =>
      have := first.shorter
      obtain ⟨used, split, -⟩ := readAtom_sound isRead
      have onward : first.rest <:+ tokens := ⟨used, split.symm⟩
      exact (suffix_of_readMore_error h).trans onward
termination_by 2 * tokens.length + 2

theorem suffix_of_readMore_error {tokens : List Token} {left : Reading Term tokens}
    {e : Stuck Token} (h : readMore left = .error e) : e.rest <:+ left.rest := by
  rw [readMore] at h
  split at h
  · cases h
  · next sign rest onward =>
      have passed : rest <:+ left.rest := onward ▸ List.suffix_cons sign rest
      have onwardLength : left.rest.length = rest.length + 1 := by rw [onward, List.length_cons]
      split at h
      · split at h
        · next failed =>
            cases h
            exact (suffix_of_readAtom_error failed).trans passed
        · next right isRead =>
            have atRight := right.shorter
            obtain ⟨used, split, -⟩ := readAtom_sound isRead
            have further : right.rest <:+ rest := ⟨used, split.symm⟩
            exact ((suffix_of_readMore_error h).trans further).trans passed
      · cases h
termination_by 2 * left.rest.length + 1

theorem suffix_of_readAtom_error {tokens : List Token} {e : Stuck Token}
    (h : readAtom tokens = .error e) : e.rest <:+ tokens := by
  rw [readAtom.eq_def] at h
  split at h
  · cases h
    exact List.suffix_rfl
  · next token rest =>
      have passed : rest <:+ token :: rest := List.suffix_cons token rest
      split at h
      · cases h
      · split at h
        · next failed =>
            cases h
            exact (suffix_of_readTerm_error failed).trans passed
        · next inner isRead =>
            split at h
            · cases h
              exact List.nil_suffix
            · next close outside after =>
                split at h
                · cases h
                · cases h
                  obtain ⟨used, split, -⟩ := readTerm_sound isRead
                  have further : close :: outside <:+ rest := ⟨used, by rw [split, after]⟩
                  exact further.trans passed
      · cases h
        exact List.suffix_rfl
termination_by 2 * tokens.length + 1

end

/-- The position at the rest of some tokens is that of one of them, or the end of the text. -/
theorem positionOf_of_suffix {tokens rest : List Token} (h : rest <:+ tokens) (text : Text) :
    positionOf text rest ∈ tokens.map (·.position) ∨ positionOf text rest = text.length := by
  cases rest with
  | nil => exact .inr rfl
  | cons token more => exact .inl (List.mem_map_of_mem (h.subset List.mem_cons_self))

theorem exists_of_parse_error {tokens : List Token} {text : Text} {e : SyntaxError}
    (h : parse tokens text = .error e) :
    ∃ fault rest, rest <:+ tokens ∧ e = .located fault text (positionOf text rest) := by
  unfold parse at h
  split at h
  · next stuck failed =>
      cases h
      exact ⟨stuck.fault, stuck.rest, suffix_of_readTerm_error failed, rfl⟩
  · next r isRead =>
      obtain ⟨used, split, -⟩ := readTerm_sound isRead
      have passed : r.rest <:+ tokens := ⟨used, split.symm⟩
      split at h
      · cases h
      · next token rest onward =>
          split at h
          · cases h
          · cases h
            exact ⟨.strayToken token.value, token :: rest, onward ▸ passed, rfl⟩

/-- The tokens before the first end token are read as a term exactly when the grammar derives it
    from them. It derives no second term, and the leaves are what the names spell, in order. Where
    it derives none, there is a parse error at one of the tokens or at the end of the text. -/
theorem parse_exactly (tokens : List Token) (text : Text) :
    (∀ t, parse tokens text = .ok t ↔ DerivesTerm (beforeFinish tokens) t) ∧
    (∀ t, DerivesTerm (beforeFinish tokens) t →
      (∀ other, DerivesTerm (beforeFinish tokens) other → other = t) ∧
      t.names = ((beforeFinish tokens).filter (·.kind = .name)).map (·.value)) ∧
    ((¬∃ t, DerivesTerm (beforeFinish tokens) t) → ∃ e, parse tokens text = .error e ∧
      (e.diagnostic : Diagnostic Details).code = .parse ∧
      ∃ p, (e.diagnostic : Diagnostic Details).span.map (·.start) = some p ∧
        (p ∈ tokens.map (·.position) ∨ p = text.length)) := by
  have accepted (t : Term) : parse tokens text = .ok t ↔ DerivesTerm (beforeFinish tokens) t :=
    parse_ok_iff.trans derivesTerm_iff.symm
  refine ⟨accepted, fun t derived => ⟨fun other derived' => ?_, ?_⟩, fun none => ?_⟩
  · have read := (accepted t).mpr derived
    rw [(accepted other).mpr derived'] at read
    exact Except.ok.inj read
  · exact (derivesTerm_iff.mp derived).names_eq
  · rcases outcome : parse tokens text with e | t
    · obtain ⟨fault, rest, suffix, rfl⟩ := exists_of_parse_error outcome
      exact ⟨_, rfl, rfl, _, rfl, positionOf_of_suffix suffix text⟩
    · exact absurd ⟨t, (accepted t).mp outcome⟩ none

/-- An end token inside parentheses ends the tokens there. -/
example : parse [⟨.opening, [], 7⟩, ⟨.name, lit "x", 3⟩, ⟨.finish, [], 5⟩, ⟨.closing, [], 4⟩] [] =
    .error (.located (.unclosed .finish) [] 5) := by
  decide +kernel

end Token

end MagmaTrace
