import Mathlib.Data.List.Chain
import MagmaTrace.Proofs.Offsets
import MagmaTrace.Proofs.Parentheses
import MagmaTrace.Proofs.Ranks
import MagmaTrace.Proofs.Stages

/-! # Which chains hang together

A chain has one step for each line of its proof that justifies one, between the terms on the
lines directly before and after it. So the steps are joined exactly when the line after each
justification and the line before the next state the same term, up to the renaming
(`Translation.isChain_steps_iff`). When both are the same line, they do.
-/

namespace MagmaTrace

open Text

/-! ## The names in a chain -/

namespace Renaming

theorem isName_rankName (rank : Nat) : IsName (rankName rank) :=
  (isIdentifier_rankName rank).isName

theorem isName_apply {names : List Text} {name : Text} (h : IsName name) :
    IsName ((ofNames names).apply name) :=
  apply_of isName_rankName names h

theorem isNamed_rename {e : Expression} {t : Term} (h : t.IsNamed) :
    (t.rename (scope e).apply).IsNamed := by
  intro name mem
  rw [Term.names_rename] at mem
  obtain ⟨old, among, rfl⟩ := List.mem_map.mp mem
  exact isName_apply (h old among)

end Renaming

namespace CalcStep

/-! ## Where the sides of a step stand -/

/-- The term that a line of a proof begins with, if it can be a side of a step. -/
def side? (line : ProofLine) : Option Term :=
  if isSide line.text then (Term.readAt line.text 0).toOption.map (·.1) else none

/-- The term on the line at a given place of a proof. -/
def termAt? (lines : List ProofLine) (place : Nat) : Option Term := lines[place]?.bind side?

/-- The places of the lines that justify a step. -/
def places (lines : List ProofLine) : List Nat := lines.findIdxs (isJustification ·.text)

/-- A step is between the terms on the lines directly before and after a place. -/
def StandsAt (r : Renaming) (lines : List ProofLine) (place : Nat) (step : CalcStep) : Prop :=
  ∃ before left right, place = before + 1 ∧
    termAt? lines before = some left ∧ step.lhs = (left.rename r.apply).lean ∧
    termAt? lines (place + 1) = some right ∧ step.rhs = (right.rename r.apply).lean

/-- The line after a place and the line before another state the same term up to a renaming. -/
def Linked (r : Renaming) (lines : List ProofLine) (place next : Nat) : Prop :=
  ∃ left right, termAt? lines (place + 1) = some left ∧ termAt? lines (next - 1) = some right ∧
    left.rename r.apply = right.rename r.apply

theorem isNamed_of_side? {line : ProofLine} {t : Term} (h : side? line = some t) : t.IsNamed := by
  unfold side? at h
  split at h
  · obtain ⟨⟨found, stop⟩, first, rfl⟩ := Option.map_eq_some_iff.mp h
    obtain ⟨_, _, _, spells, -⟩ := Term.readAt_ok_iff.mp (toOption_eq_some_iff.mp first)
    exact fun name mem => (spells.isLettered name mem).isName
  · cases h

theorem readSide_ok_iff {r : Renaming} {side : Neighbour} {justification : ProofLine}
    {neighbour : Option ProofLine} {text : Text} :
    readSide r side justification neighbour = .ok text ↔
      ∃ t, neighbour.bind side? = some t ∧ text = (t.rename r.apply).lean := by
  cases neighbour with
  | none => simp [readSide, readSide.missing]
  | some line =>
      by_cases possible : isSide line.text = true
      · rcases isRead : Term.readAt line.text 0 with e | ⟨t, stop⟩
        · simp [readSide, side?, possible, isRead, Except.toOption]
        · have made : readSide r side justification (some line) = .ok (t.rename r.apply).lean := by
            simp [readSide, possible, isRead]
          have states : side? line = some t := by simp [side?, possible, isRead, Except.toOption]
          rw [made, Option.bind_some, states]
          constructor
          · rintro ⟨rfl⟩
            exact ⟨t, rfl, rfl⟩
          · rintro ⟨_, ⟨rfl⟩, rfl⟩
            rfl
      · simp [readSide, readSide.missing, side?, possible]

theorem standsAt_of_ofLines {r : Renaming} {n : Naming} {shown rest : List ProofLine}
    {line : ProofLine} {step : CalcStep}
    (h : ofLines r n shown.getLast? line rest.head? = .ok step) :
    StandsAt r (shown ++ line :: rest) shown.length step := by
  unfold ofLines at h
  rcases cited : citedToken? line.text with _ | token
  · simp only [cited] at h
    cases h
  · simp only [cited, bind_ok_iff, mapError_ok_iff, pure_ok_iff, readSide_ok_iff] at h
    obtain ⟨_, ⟨left, before, rfl⟩, _, ⟨right, after, rfl⟩, name, -, rfl⟩ := h
    have next : (shown ++ line :: rest)[shown.length + 1]? = rest.head? := by
      rw [List.getElem?_append_right (Nat.le_add_right _ 1), Nat.add_sub_cancel_left,
        List.getElem?_cons_succ, List.head?_eq_getElem?]
    rcases List.eq_nil_or_concat shown with rfl | ⟨earlier, previous, rfl⟩
    · cases before
    · refine ⟨earlier.length, left, right, by simp, ?_, rfl, ?_, rfl⟩
      · simpa [termAt?] using before
      · rw [termAt?, next]
        exact after

/-- The steps of a proof's lines stand at their justifications, in order. -/
theorem standsAt_of_ofLinesAfter {r : Renaming} {n : Naming} {shown lines : List ProofLine}
    {steps : List CalcStep} (h : ofLinesAfter r n shown.getLast? lines = .ok steps) :
    List.Forall₂ (StandsAt r (shown ++ lines))
      (lines.findIdxs (isJustification ·.text) shown.length) steps := by
  -- On the lines to come; those already passed fix the places, and the last of them is a side.
  induction lines generalizing shown steps with
  | nil =>
      cases h
      exact .nil
  | cons line rest ih =>
      have next : (shown ++ [line]).getLast? = some line := List.getLast?_concat
      have split : shown ++ line :: rest = shown ++ [line] ++ rest := by simp
      have place : (shown ++ [line]).length = shown.length + 1 := by simp
      unfold ofLinesAfter at h
      rw [List.findIdxs_cons]
      by_cases justifies : isJustification line.text = true
      · simp only [justifies, if_true, bind_ok_iff, pure_ok_iff] at h ⊢
        obtain ⟨step, made, later, rest_ok, rfl⟩ := h
        refine .cons (standsAt_of_ofLines made) ?_
        rw [← next] at rest_ok
        rw [split, ← place]
        exact ih rest_ok
      · simp only [justifies, if_false, Bool.false_eq_true] at h ⊢
        rw [← next] at h
        rw [split, ← place]
        exact ih h

theorem standsAt_of_ofBlock {r : Renaming} {n : Naming} {block : ProofBlock}
    {steps : List CalcStep} (h : ofBlock r n block = .ok steps) :
    List.Forall₂ (StandsAt r block.lines) (places block.lines) steps :=
  @standsAt_of_ofLinesAfter r n [] block.lines steps h

/-! ## Joined steps -/

theorem isNamed_of_termAt? {lines : List ProofLine} {place : Nat} {t : Term}
    (h : termAt? lines place = some t) : t.IsNamed := by
  obtain ⟨line, -, states⟩ := Option.bind_eq_some_iff.mp h
  exact isNamed_of_side? states

theorem linked_iff {e : Expression} {lines : List ProofLine} {i j : Nat} {step next : CalcStep}
    (here : StandsAt (Renaming.scope e) lines i step)
    (there : StandsAt (Renaming.scope e) lines j next) :
    Linked (Renaming.scope e) lines i j ↔ step.rhs = next.lhs := by
  obtain ⟨_, _, right, rfl, -, -, atRight, rhs⟩ := here
  obtain ⟨_, left, _, rfl, atLeft, lhs, -, -⟩ := there
  unfold Linked
  rw [rhs, lhs, atRight, Nat.add_sub_cancel, atLeft]
  constructor
  · rintro ⟨_, _, ⟨rfl⟩, ⟨rfl⟩, same⟩
    exact congrArg Term.lean same
  · intro same
    exact ⟨right, left, rfl, rfl, Term.eq_of_lean
      (Renaming.isNamed_rename (isNamed_of_termAt? atRight))
      (Renaming.isNamed_rename (isNamed_of_termAt? atLeft)) same⟩

theorem linked_of_shared_line {r : Renaming} {lines : List ProofLine} {i : Nat} {step : CalcStep}
    (here : StandsAt r lines i step) : Linked r lines i (i + 2) := by
  obtain ⟨_, _, right, -, -, -, atRight, -⟩ := here
  exact ⟨right, right, atRight, atRight, rfl⟩

/-- Lists whose members correspond are chains together, when corresponding pairs are related
    together. -/
theorem isChain_iff_of_forall₂ {α β : Type} {R : α → β → Prop} {S : α → α → Prop}
    {T : β → β → Prop} {xs : List α} {ys : List β} (h : List.Forall₂ R xs ys)
    (agree : ∀ a a' b b', R a b → R a' b' → (S a a' ↔ T b b')) : xs.IsChain S ↔ ys.IsChain T := by
  induction h with
  | nil => simp
  | cons here rest ih =>
      cases rest with
      | nil => simp
      | cons there _ =>
          rw [List.isChain_cons_cons, List.isChain_cons_cons, agree _ _ _ _ here there, ih]

end CalcStep

/-- When a translation succeeds, every chain in its script has one step for each justification in
    a lemma's proof, in order and between the terms beside it. Each step ends where the next one
    begins exactly when consecutive justifications are linked, as they are by a shared line. -/
theorem Translation.isChain_steps_iff {text : Text} {o : Options} {t : Translation}
    (h : (ofTranscript text o).2 = .ok t) : ∃ st : Stages text o, t.document = st.document ∧
      ∀ b ∈ st.script.blocks, ∀ steps, b.proof = .chain steps →
        ∃ l ∈ st.resolution.lemmas, ∃ block, Block.ofLemma st.naming l = .ok b ∧
          st.records.proofs.get? l.sourceName = some block ∧
          CalcStep.ofBlock (Renaming.scope l.expression) st.naming block = .ok steps ∧
          List.Forall₂ (CalcStep.StandsAt (Renaming.scope l.expression) block.lines)
            (CalcStep.places block.lines) steps ∧
          (steps.IsChain (·.rhs = ·.lhs) ↔
            (CalcStep.places block.lines).IsChain
              (CalcStep.Linked (Renaming.scope l.expression) block.lines)) ∧
          ((CalcStep.places block.lines).IsChain (fun i j => j = i + 2) →
            steps.IsChain (·.rhs = ·.lhs)) := by
  obtain ⟨st, document⟩ := Stages.exists_of_ofTranscript h
  refine ⟨st, document, ?_⟩
  intro b mem steps proved
  obtain ⟨l, among, made⟩ | ⟨vars, rfl⟩ := st.source_of_block mem
  · obtain ⟨proof, source, shape⟩ := Block.ofLemma_ok_iff.mp made
    have whole : b.proof = proof := by
      rw [← shape]
      split <;> rfl
    rw [proved] at whole
    subst whole
    obtain ⟨block, chained, stored, built, ⟨rfl⟩⟩ | ⟨-, citing⟩ := source
    · have stand := CalcStep.standsAt_of_ofBlock built
      have joined := (CalcStep.isChain_iff_of_forall₂ stand fun _ _ _ _ => CalcStep.linked_iff).symm
      rw [st.proof_eq among] at stored
      refine ⟨l, among, block, made, stored, built, stand, joined, fun shared => joined.mpr ?_⟩
      refine shared.imp_of_mem_imp fun i j place _ next => ?_
      obtain ⟨step, -, here⟩ := exists_of_forall₂_left stand place
      rw [next]
      exact CalcStep.linked_of_shared_line here
    · cases citing
  · cases proved

/-! ## Chains that do not hang together -/

/-- A transcript that proves a lemma by a line that justifies nothing, and the goal by two steps
    with different terms between them. -/
def Translation.unlinked : Text := joinLines
  [ lit "fof(h,axiom,X=X).",
    lit "fof(g,conjecture,X=X).",
    Event.proofMarker,
    lit "Lemma 1: X = X",
    lit "Proof:",
    lit "Goal 1: X = X",
    lit "X",
    lit "= \x7b by axiom 1 (a1) \x7d",
    lit "Y",
    lit "Z",
    lit "= \x7b by axiom 1 (a1) \x7d",
    lit "X" ]

/-- The sides of a chain's steps. -/
def CalcStep.sides (steps : List CalcStep) : List (Text × Text) :=
  steps.map fun step => (step.lhs, step.rhs)

theorem CalcStep.isChain_sides_iff {steps : List CalcStep} :
    (sides steps).IsChain (fun a b => a.2 = b.1) ↔ steps.IsChain (·.rhs = ·.lhs) :=
  List.isChain_map _

/-- The sides of the steps of a block that is proved by a chain. -/
def Block.sides? (b : Block) : Option (List (Text × Text)) :=
  match b.proof with
  | .chain steps => some (CalcStep.sides steps)
  | .citing _ => none

theorem Block.exists_chain_of_sides? {blocks : List Block} {found : List (Text × Text)}
    (h : some found ∈ blocks.map sides?) :
    ∃ b ∈ blocks, ∃ steps, b.proof = .chain steps ∧ CalcStep.sides steps = found := by
  obtain ⟨b, mem, sides⟩ := List.mem_map.mp h
  refine ⟨b, mem, ?_⟩
  unfold sides? at sides
  split at sides
  · next steps proved =>
      exact ⟨steps, proved, Option.some.inj sides⟩
  · cases sides

/-- The sides of the goal's steps in that transcript. -/
def Translation.unlinkedSides : List (Text × Text) :=
  [(lit "x0", lit "Y"), (lit "Z", lit "x0")]

theorem Translation.unlinked_evaluated :
    (ofTranscript unlinked Options.standard).2.isOk = true ∧
    (script? unlinked Options.standard).map (·.blocks.map Block.sides?) =
      some [some [], some unlinkedSides] := by
  decide +kernel

theorem Translation.Stages.sides_of_unlinked (st : Stages unlinked Options.standard) :
    st.script.blocks.map Block.sides? = [some [], some unlinkedSides] :=
  st.eq_of_evaluated Translation.unlinked_evaluated.2

/-- The goal's two justifications in that transcript are not linked. -/
theorem Translation.isChain_steps_iff_unlinked : ∃ st : Stages unlinked Options.standard,
    ∃ b ∈ st.script.blocks, ∃ steps, b.proof = .chain steps ∧
      CalcStep.sides steps = unlinkedSides ∧
      ∃ l ∈ st.resolution.lemmas, ∃ block,
        st.records.proofs.get? l.sourceName = some block ∧
        List.Forall₂ (CalcStep.StandsAt (Renaming.scope l.expression) block.lines)
          (CalcStep.places block.lines) steps ∧
        ¬ (CalcStep.places block.lines).IsChain
          (CalcStep.Linked (Renaming.scope l.expression) block.lines) := by
  obtain ⟨t, translated⟩ := isOk_iff.mp unlinked_evaluated.1
  obtain ⟨st, -, chains⟩ := isChain_steps_iff translated
  have goal : some unlinkedSides ∈ st.script.blocks.map Block.sides? := by
    rw [st.sides_of_unlinked]
    exact List.mem_cons_of_mem _ List.mem_cons_self
  obtain ⟨b, mem, steps, proved, sides⟩ := Block.exists_chain_of_sides? goal
  obtain ⟨l, among, block, -, stored, -, stand, joined, -⟩ := chains b mem steps proved
  refine ⟨st, b, mem, steps, proved, sides, l, among, block, stored, stand, ?_⟩
  rw [← joined, ← CalcStep.isChain_sides_iff, sides]
  decide

/-- A chain can be empty, and it can end a step elsewhere than it begins the next. -/
theorem Translation.chain_not_joined : ∃ t, (ofTranscript unlinked Options.standard).2 = .ok t ∧
    ∃ st : Stages unlinked Options.standard, t.document = st.document ∧
      (∃ b ∈ st.script.blocks, b.proof = .chain []) ∧
      ∃ b ∈ st.script.blocks, ∃ steps, b.proof = .chain steps ∧
        ¬ steps.IsChain (·.rhs = ·.lhs) := by
  obtain ⟨t, translated⟩ := isOk_iff.mp unlinked_evaluated.1
  obtain ⟨st, document⟩ := Stages.exists_of_ofTranscript translated
  have blocks := st.sides_of_unlinked
  have auxiliary : some [] ∈ st.script.blocks.map Block.sides? := by
    rw [blocks]
    exact List.mem_cons_self
  have goal : some unlinkedSides ∈ st.script.blocks.map Block.sides? := by
    rw [blocks]
    exact List.mem_cons_of_mem _ List.mem_cons_self
  obtain ⟨b, mem, steps, proved, sides⟩ := Block.exists_chain_of_sides? auxiliary
  obtain ⟨b', mem', steps', proved', sides'⟩ := Block.exists_chain_of_sides? goal
  refine ⟨t, translated, st, document, ⟨b, mem, ?_⟩, b', mem', steps', proved', ?_⟩
  · rw [proved, List.map_eq_nil_iff.mp sides]
  · rw [← CalcStep.isChain_sides_iff, sides']
    decide

end MagmaTrace
