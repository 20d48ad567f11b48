import MagmaTrace.Proofs.Language
import MagmaTrace.Proofs.Pieces
import MagmaTrace.Proofs.Ranks

/-! # Renaming a text without reading it

The variables of a text can be renamed before it is read or after. Both see the same variables,
although the text alone does not tell a leaf from the word `op` of an operation; and the renamed
text reads as the renamed expression (`Expression.read_normalize`).
-/

namespace MagmaTrace

open Text

/-! ## The names of a spelled expression -/

theorem namesIn_nil : namesIn [] = [] := by
  rw [namesIn, Piece.cut]
  rfl

theorem namesIn_skip {gap : Text} (h : ∀ u ∈ gap, isLetter u = false) (rest : Text) :
    namesIn (gap ++ rest) = namesIn rest := by
  simp [namesIn, Piece.cut_unlettered h, Function.comp_def, Piece.name?]

theorem namesIn_stopped (a : Text) {b : Text} (stop : ∀ u ∈ b.head?, isWord u = false) :
    namesIn (a ++ b) = namesIn a ++ namesIn b := by
  simp [namesIn, Piece.cut_stopped a stop]

theorem namesIn_mark {u : CodeUnit} (h : isLetter u = false) (rest : Text) :
    namesIn (u :: rest) = namesIn rest := by
  rw [namesIn, Piece.cut_cons_other h]
  rfl

theorem namesIn_identifier {name : Text} (h : IsIdentifier name) : namesIn name = [name] := by
  rw [namesIn, Piece.cut_identifier h]
  rfl

namespace Renaming

theorem forms_append (a b : List Text) : forms (a ++ b) = forms a ++ forms b := by
  simp [forms]

end Renaming

open Renaming

namespace Term

theorem Spells.forms_namesIn {t : Term} {spelling : Text} (h : Spells t spelling) :
    forms (namesIn spelling) = forms t.names := by
  induction h with
  | var blank isName =>
      rw [namesIn_skip (isLetter_of_isBlank blank), namesIn_identifier isName, names]
  | @op left right gap a toComma b toClose blank hl blankComma hr blankClose ihl ihr =>
      have word : namesIn (lit "op") = [lit "op"] := namesIn_identifier (by decide)
      have mark (rest : Text) : opening ++ rest = lit "op" ++ openMark :: rest := rfl
      have toRight : ∀ u ∈ (toComma ++ comma :: (b ++ (toClose ++ [closeMark]))).head?,
          isWord u = false :=
        head?_gap blankComma (fun _ => not_isWord_of_isBlank) (by decide) _
      have toEnd : ∀ u ∈ (toClose ++ [closeMark]).head?, isWord u = false :=
        head?_gap blankClose (fun _ => not_isWord_of_isBlank) (by decide) _
      have found : namesIn (opening ++ (a ++ (toComma ++ comma :: (b ++ (toClose ++
          [closeMark]))))) = [lit "op"] ++ (namesIn a ++ namesIn b) := by
        rw [mark, namesIn_stopped _ (forall_mem_head?_cons (by decide) _), word,
          namesIn_mark (by decide), namesIn_stopped a toRight,
          namesIn_skip (isLetter_of_isBlank blankComma), namesIn_mark (by decide),
          namesIn_stopped b toEnd, namesIn_skip (isLetter_of_isBlank blankClose),
          namesIn_mark (by decide), namesIn_nil, List.append_nil]
      have noForm : forms [lit "op"] = [] := by decide
      rw [namesIn_skip (isLetter_of_isBlank blank), found, forms_append, forms_append, noForm, ihl,
        ihr, List.nil_append, names, forms_append]

theorem not_isWord_of_isTrailing {u : CodeUnit} (h : isTrailing u = true) : isWord u = false := by
  by_contra word
  rw [isTrailing_of_isWord (by simpa using word)] at h
  cases h

section

variable {tail : Text} (trailing : ∀ u ∈ tail, isTrailing u = true)
include trailing

theorem isLetter_of_isTrailing : ∀ u ∈ tail, isLetter u = false :=
  fun u mem => isLetter_of_not_isWord (not_isWord_of_isTrailing (trailing u mem))

theorem head?_of_isTrailing : ∀ u ∈ tail.head?, isWord u = false :=
  fun u first => not_isWord_of_isTrailing (trailing u (List.mem_of_mem_head? first))

theorem namesIn_append_tail (text : Text) : namesIn (text ++ tail) = namesIn text := by
  rw [namesIn_stopped text (head?_of_isTrailing trailing), ← List.append_nil tail,
    namesIn_skip (isLetter_of_isTrailing trailing), namesIn_nil, List.append_nil]

end

theorem IsSide.forms_namesIn {t : Term} {text : Text} (h : IsSide t text) :
    forms (namesIn text) = forms t.names := by
  obtain ⟨spelling, tail, rfl, spells, trailing⟩ := h
  rw [namesIn_append_tail trailing, spells.forms_namesIn]

/-- Changing the names in the text of a side changes the leaves of its term. -/
theorem IsSide.changed {R : Text → Text → Prop}
    (keeps : ∀ old new, IsIdentifier old → R old new → IsIdentifier new)
    (fixed : ∀ new, R (lit "op") new → new = lit "op") {t : Term} {text c : Text}
    (h : IsSide t text) (changed : Text.Changed R text c) : ∃ t', Term.Changed R t t' ∧ IsSide t' c := by
  obtain ⟨spelling, tail, rfl, spells, trailing⟩ := h
  obtain ⟨spelling', _, rfl, ofTerm, ofTail⟩ := changed.split (head?_of_isTrailing trailing)
  obtain rfl := ofTail.eq_of_unlettered (isLetter_of_isTrailing trailing)
  obtain ⟨t', renamed, spells'⟩ := spells.changed keeps fixed ofTerm
  exact ⟨t', renamed, spelling', _, rfl, spells', trailing⟩

end Term

namespace Expression

open Term

theorem IsCore.forms_namesIn {e : Expression} {body : Text} (h : IsCore e body) :
    forms (namesIn body) = forms e.names := by
  cases h with
  | bare side => exact side.forms_namesIn
  | equation left right =>
      rw [namesIn_stopped _ (forall_mem_head?_cons (by decide) _), namesIn_mark (by decide),
        forms_append, left.forms_namesIn, right.forms_namesIn, names, forms_append]

/-- A text has the variables of the expression that it states. -/
theorem Spells.forms_namesIn {e : Expression} {text : Text} (h : Spells e text) :
    forms (namesIn text) = forms e.names := by
  cases h with
  | plain blank core trailing =>
      rw [namesIn_skip (isLetter_of_isBlank blank), namesIn_append_tail trailing,
        core.forms_namesIn]
  | enclosed blank core trailing =>
      have nothing := namesIn_append_tail trailing []
      rw [List.nil_append, namesIn_nil] at nothing
      rw [namesIn_skip (isLetter_of_isBlank blank), namesIn_mark (by decide),
        namesIn_stopped _ (forall_mem_head?_cons (by decide) _), namesIn_mark (by decide), nothing,
        List.append_nil, core.forms_namesIn]

/-! ## Changed expressions -/

/-- The second expression is the first with its leaves changed as a relation allows. -/
inductive Changed (R : Text → Text → Prop) : Expression → Expression → Prop where
  | bare {t t' : Term} (term : Term.Changed R t t') : Changed R (.bare t) (.bare t')
  | equation {l l' r r' : Term} (left : Term.Changed R l l') (right : Term.Changed R r r') :
      Changed R (.equation l r) (.equation l' r')

theorem Changed.rename_eq {R : Text → Text → Prop} {f g : Text → Text} {e e' : Expression}
    (h : Changed R e e') (agree : ∀ old ∈ e.names, ∀ new, R old new → f old = g new) :
    e.rename f = e'.rename g := by
  cases h with
  | bare term => rw [rename, term.rename_eq agree, rename]
  | equation left right =>
      rw [rename, left.rename_eq fun old mem => agree old (List.mem_append_left _ mem),
        right.rename_eq fun old mem => agree old (List.mem_append_right _ mem), rename]

theorem Changed.eq_rename {f : Text → Text} {e e' : Expression}
    (h : Changed (fun old new => new = f old) e e') : e' = e.rename f := by
  cases h with
  | bare term => rw [rename, term.eq_rename]
  | equation left right => rw [rename, left.eq_rename, right.eq_rename]

section

variable {R : Text → Text → Prop}
  (keeps : ∀ old new, IsIdentifier old → R old new → IsIdentifier new)
  (fixed : ∀ new, R (lit "op") new → new = lit "op")
include keeps fixed

theorem IsCore.changed {e : Expression} {body c : Text} (h : IsCore e body)
    (changed : Text.Changed R body c) : ∃ e', Changed R e e' ∧ IsCore e' c := by
  cases h with
  | bare side =>
      obtain ⟨t', renamed, side'⟩ := side.changed keeps fixed changed
      exact ⟨_, .bare renamed, .bare side'⟩
  | equation left right =>
      obtain ⟨a', _, rfl, ofLeft, fromMark⟩ :=
        changed.split (forall_mem_head?_cons (by decide) _)
      obtain ⟨b', rfl, ofRight⟩ := fromMark.skip_mark (by decide)
      obtain ⟨l', renamedLeft, left'⟩ := left.changed keeps fixed ofLeft
      obtain ⟨r', renamedRight, right'⟩ := right.changed keeps fixed ofRight
      exact ⟨_, .equation renamedLeft renamedRight, .equation left' right'⟩

/-- Changing the names in a text that states an expression changes the leaves of the expression. -/
theorem Spells.changed {e : Expression} {text c : Text} (h : Spells e text)
    (changed : Text.Changed R text c) : ∃ e', Changed R e e' ∧ Spells e' c := by
  cases h with
  | plain blank core trailing =>
      obtain ⟨_, rfl, fromBody⟩ := changed.skip (isLetter_of_isBlank blank)
      obtain ⟨body', _, rfl, ofBody, ofTail⟩ := fromBody.split (head?_of_isTrailing trailing)
      obtain rfl := ofTail.eq_of_unlettered (isLetter_of_isTrailing trailing)
      obtain ⟨e', renamed, core'⟩ := core.changed keeps fixed ofBody
      exact ⟨e', renamed, .plain blank core' trailing⟩
  | enclosed blank core trailing =>
      obtain ⟨_, rfl, fromMark⟩ := changed.skip (isLetter_of_isBlank blank)
      obtain ⟨_, rfl, fromBody⟩ := fromMark.skip_mark (by decide)
      obtain ⟨body', _, rfl, ofBody, fromClose⟩ :=
        fromBody.split (forall_mem_head?_cons (by decide) _)
      obtain ⟨_, rfl, ofTail⟩ := fromClose.skip_mark (by decide)
      obtain rfl := ofTail.eq_of_unlettered (isLetter_of_isTrailing trailing)
      obtain ⟨e', renamed, core'⟩ := core.changed keeps fixed ofBody
      exact ⟨e', renamed, .enclosed blank core' trailing⟩

end

end Expression

/-! ## Renaming before reading -/

theorem Renaming.changed_applyText (r : Renaming) (text : Text) :
    Text.Changed (fun old new => new = r.apply old) text (r.applyText text) := by
  unfold applyText Text.Changed
  induction Piece.cut text with
  | nil => exact ⟨[], .nil, rfl⟩
  | cons piece rest ih =>
      obtain ⟨pieces, changes, same⟩ := ih
      rw [List.flatMap_cons, same]
      cases piece with
      | name old => exact ⟨.name (r.apply old) :: pieces, .cons (.name rfl) changes, rfl⟩
      | other u => exact ⟨.other u :: pieces, .cons (.other u) changes, rfl⟩

/-- Renaming the variables of a text that states an expression gives a text that states the
    renamed expression, and the variables are those of the expression. -/
theorem Expression.read_normalize {text : Text} {e : Expression} (h : read text = .ok e) :
    read (Renaming.normalize text).1 = .ok (e.rename (scope e).apply) ∧
      (Renaming.normalize text).2 = (scope e).vars := by
  have spells := read_ok_iff.mp h
  have one : ofNames (namesIn text) = scope e := ofNames_eq_of_forms spells.forms_namesIn
  have whole : Renaming.normalize text = ((scope e).applyText text, (scope e).vars) := by
    rw [Renaming.normalize, one]
  have keeps : ∀ old new, IsIdentifier old → new = (scope e).apply old → IsIdentifier new := by
    rintro old _ isName rfl
    exact apply_of isIdentifier_rankName e.names isName
  have fixed : ∀ new, new = (scope e).apply (lit "op") → new = lit "op" := by
    rintro _ rfl
    exact apply_of_operation (by decide)
  obtain ⟨e', renamed, stated⟩ := spells.changed keeps fixed (changed_applyText (scope e) text)
  rw [whole]
  exact ⟨renamed.eq_rename ▸ read_ok_iff.mpr stated, rfl⟩

/-- An equation in which one variable is written in both cases and a leaf is written `op`. -/
def Expression.loose : Expression :=
  .equation (.op (.var (lit "Y")) (.op (.var (lit "op")) (.var (lit "y")))) (.var (lit "B"))

/-- With parentheses, periods and spaces around it, it is renamed in its text. -/
theorem Expression.read_normalize_loose :
    read (lit " (op(Y,op( op ,y)). = B.) .") = .ok loose ∧
      read (Renaming.normalize (lit " (op(Y,op( op ,y)). = B.) .")).1 =
        .ok (.equation (.op (.var (lit "x1")) (.op (.var (lit "op")) (.var (lit "x1"))))
          (.var (lit "x0"))) ∧
      (Renaming.normalize (lit " (op(Y,op( op ,y)). = B.) .")).2 = [lit "x0", lit "x1"] := by
  have isRead : read (lit " (op(Y,op( op ,y)). = B.) .") = .ok loose :=
    toOption_eq_some_iff.mp (by decide +kernel)
  have order : canonicalOrder loose.names = [lit "b", lit "y"] :=
    sort_eq_of_perm (by decide) (by decide)
  obtain ⟨text, vars⟩ := read_normalize isRead
  refine ⟨isRead, text.trans (congrArg Except.ok ?_), vars.trans ?_⟩ <;>
    simp only [scope, ofNames, order] <;> decide +kernel

end MagmaTrace
