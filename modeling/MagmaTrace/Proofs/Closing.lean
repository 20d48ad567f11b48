import MagmaTrace.Proofs.Stages

/-! # How a theorem is closed

The blocks of a theorem state its lemmas in the order of their discovery, and then prove its goal.
A lemma that goes by the name of the conjecture has a block that proves the goal instead of one
that states it, so the goal is proved once for each of them, and once if there is none: exactly
once when no two lemmas go by that name (`Translation.closed_once_iff`).
-/

namespace MagmaTrace

open Text

/-- Whether a block proves the goal. -/
def Block.isGoal : Block → Bool
  | auxiliary .. => false
  | goal .. => true

theorem Block.isGoal_of_ofLemma {n : Naming} {l : ResolvedLemma} {b : Block}
    (h : ofLemma n l = .ok b) : b.isGoal = l.isConjecture := by
  obtain ⟨proof, -, rfl⟩ := ofLemma_ok_iff.mp h
  cases l.isConjecture with
  | true => rfl
  | false => rfl

/-- All blocks but the last state lemmas, and the last proves the goal. -/
def Script.ClosedOnce (s : Script) : Prop :=
  ∃ haves last, s.blocks = haves ++ [last] ∧ last.isGoal = true ∧ ∀ b ∈ haves, b.isGoal = false

/-- The lemmas that prove the conjecture by their names, in the order of their discovery. -/
def Records.goals (r : Records) : List Text := r.lemmas.keys.filter r.isConjectureName

namespace Translation.Stages

variable {text : Text} {o : Options}

/-! ## Lemmas and their blocks -/

/-- Lemmas keep the order of their discovery. -/
theorem map_sourceName (st : Stages text o) :
    st.resolution.lemmas.map (·.sourceName) = st.records.lemmas.keys := by
  have filed : st.records.lemmas.Holds fun key record => record.name = key :=
    st.coherent.lemmas.imp fun _ _ onRecord => onRecord.name
  rw [← filed.map_values, eq_comm]
  refine map_eq_map_of_forall₂ (st.isFinal.resolved.imp fun record l resolved => ?_)
  obtain ⟨_, _, -, -, rfl⟩ := Naming.resolveLemma_ok_iff.mp resolved
  rfl

theorem isConjecture_eq (st : Stages text o) {l : ResolvedLemma} (mem : l ∈ st.resolution.lemmas) :
    l.isConjecture = st.records.isConjectureName l.sourceName := by
  obtain ⟨_, _, -, resolved⟩ := st.exists_source mem
  obtain ⟨_, _, -, -, rfl⟩ := Naming.resolveLemma_ok_iff.mp resolved
  rfl

theorem map_sourceName_goals (st : Stages text o) :
    (st.resolution.lemmas.filter (·.isConjecture)).map (·.sourceName) = st.records.goals := by
  rw [List.filter_congr fun l => st.isConjecture_eq, Records.goals, ← st.map_sourceName,
    List.filter_map]
  rfl

theorem map_isGoal_of_forall₂ {n : Naming} {lemmas : List ResolvedLemma} {blocks : List Block}
    (made : List.Forall₂ (fun l b => Block.ofLemma n l = .ok b) lemmas blocks) :
    blocks.map Block.isGoal = lemmas.map (·.isConjecture) :=
  map_eq_map_of_forall₂ (made.imp fun _ _ => Block.isGoal_of_ofLemma).flip

/-- The goal is proved once for each lemma that goes by the name of the conjecture, or else once
    by a block that closes the theorem. -/
theorem map_isGoal_shows (st : Stages text o) {shows closing : List Block}
    (proved : List.Forall₂ (fun l b => Block.ofLemma st.naming l = .ok b)
      (st.resolution.lemmas.filter (·.isConjecture)) shows)
    (closed : Script.closing st.conjecture st.resolution.lemmas = .ok closing) :
    (shows ++ closing).map Block.isGoal =
      List.replicate (max 1 st.records.goals.length) true := by
  have count := congrArg List.length st.map_sourceName_goals
  rw [List.length_map] at count
  have each : shows.map Block.isGoal = List.replicate st.records.goals.length true := by
    rw [map_isGoal_of_forall₂ proved, List.eq_replicate_iff, List.length_map, List.forall_mem_map]
    exact ⟨count, fun l mem => (List.mem_filter.mp mem).2⟩
  rw [List.map_append, each]
  obtain ⟨nonempty, rfl⟩ | ⟨empty, law, -, rfl⟩ := Script.closing_ok_iff.mp closed
  · have positive := List.length_pos_iff.mpr nonempty
    rw [List.map_nil, List.append_nil, max_eq_right (count ▸ positive)]
  · rw [empty] at count
    rw [← count]
    rfl

/-- Blocks that state lemmas come first, in the order of discovery, and blocks that prove the goal
    after them. -/
theorem exists_blocks (st : Stages text o) : ∃ haves shows, st.script.blocks = haves ++ shows ∧
    List.Forall₂ (fun l b => Block.ofLemma st.naming l = .ok b)
      (st.resolution.lemmas.filter (!·.isConjecture)) haves ∧
    shows.map Block.isGoal = List.replicate (max 1 st.records.goals.length) true := by
  obtain ⟨haves, shows, closing, blocks, stated, proved, closed⟩ := st.exists_parts
  exact ⟨haves, shows ++ closing, blocks, stated, st.map_isGoal_shows proved closed⟩

/-! ## The end of the theorem -/

/-- The lemmas are stated, and then the goal is proved for each lemma that goes by the name of
    the conjecture, at least once. -/
theorem map_isGoal (st : Stages text o) : st.script.blocks.map Block.isGoal =
    List.replicate (st.resolution.lemmas.filter (!·.isConjecture)).length false ++
      List.replicate (max 1 st.records.goals.length) true := by
  obtain ⟨haves, shows, blocks, stated, closes⟩ := st.exists_blocks
  have states : haves.map Block.isGoal =
      List.replicate (st.resolution.lemmas.filter (!·.isConjecture)).length false := by
    rw [map_isGoal_of_forall₂ stated, List.eq_replicate_iff, List.length_map, List.forall_mem_map]
    exact ⟨rfl, fun l mem => by simpa using (List.mem_filter.mp mem).2⟩
  rw [blocks, List.map_append, states, closes]

/-- A theorem is closed once unless two lemmas go by the name of the conjecture. -/
theorem closedOnce_iff (st : Stages text o) :
    st.script.ClosedOnce ↔ st.records.goals.length ≤ 1 := by
  have shape := st.map_isGoal
  constructor
  · rintro ⟨haves, last, blocks, closes, states⟩
    have none : (haves.map Block.isGoal).count true = 0 := by
      rw [List.count_eq_zero, List.mem_map]
      rintro ⟨b, mem, proves⟩
      rw [states b mem] at proves
      cases proves
    have counted := congrArg (List.count true) shape
    rw [blocks, List.map_append, List.count_append, none, List.count_append,
      List.count_replicate_self] at counted
    have one : max 1 st.records.goals.length = 1 := by
      simpa [closes, List.count_replicate] using counted.symm
    omega
  · intro few
    rw [max_eq_left few] at shape
    obtain ⟨haves, lasts, blocks, states, closes⟩ := List.map_eq_append_iff.mp shape
    obtain ⟨last, rfl, isGoal⟩ := List.map_eq_singleton_iff.mp closes
    refine ⟨haves, last, blocks, isGoal, fun b mem => ?_⟩
    exact (List.eq_replicate_iff.mp states).2 _ (List.mem_map_of_mem mem)

/-- The last block of a theorem proves its goal, and the text ends with it. -/
theorem exists_last (st : Stages text o) : ∃ earlier last before,
    st.script.blocks = earlier ++ [last] ∧ last.isGoal = true ∧
      st.document = before ++ last.write o := by
  have shape := st.map_isGoal
  obtain ⟨more, count⟩ := Nat.exists_eq_add_of_le' (Nat.le_max_left 1 st.records.goals.length)
  rw [count, List.replicate_succ', ← List.append_assoc] at shape
  obtain ⟨earlier, lasts, blocks, -, closes⟩ := List.map_eq_append_iff.mp shape
  obtain ⟨last, rfl, isGoal⟩ := List.map_eq_singleton_iff.mp closes
  obtain ⟨before, after, text⟩ := st.exists_around_schema blocks
  exact ⟨earlier, last, _, blocks, isGoal, text⟩

end Translation.Stages

/-- When a translation succeeds, the theorem states as many lemmas as are counted and then proves
    its goal: once for every lemma that goes by the name of the conjecture, or else once. It is
    closed exactly once when no two lemmas go by that name, and the text ends with the last of the
    blocks that close it. -/
theorem Translation.closed_once_iff {text : Text} {o : Options} {t : Translation}
    (h : (ofTranscript text o).2 = .ok t) : ∃ st : Stages text o, t = st.translation ∧
      st.script.blocks.map Block.isGoal = List.replicate t.lemmaCount false ++
        List.replicate (max 1 st.records.goals.length) true ∧
      (st.script.ClosedOnce ↔ st.records.goals.length ≤ 1) ∧
      ∃ earlier last before, st.script.blocks = earlier ++ [last] ∧ last.isGoal = true ∧
        t.document = before ++ last.write o := by
  obtain ⟨st, rfl⟩ := Stages.exists_eq_translation h
  exact ⟨st, rfl, st.map_isGoal, st.closedOnce_iff, st.exists_last⟩

namespace Translation

/-- A transcript whose goal is proved, and after it a lemma with a name like a conjecture's. -/
def conjectureNamed : Text := joinLines
  [ lit "fof(h,axiom,X=X).",
    lit "fof(g,conjecture,X=X).",
    Event.proofMarker,
    lit "Goal 1: X = X",
    lit "X",
    lit "= \x7b by axiom 1 (a1) \x7d",
    lit "X",
    lit "Lemma 2 (conjecture7): X = Y" ]

theorem conjectureNamed_evaluated :
    (ofTranscript conjectureNamed Options.standard).2.isOk = true ∧
    (Records.ofTranscript conjectureNamed).toOption.map (·.goals) =
      some [lit "g", lit "conjecture7"] ∧
    (script? conjectureNamed Options.standard).map
      (fun s => (s.blocks.map Block.isGoal, s.blocks.getLast?.map Block.proof)) =
      some ([true, true], some (.citing [])) := by
  decide +kernel

theorem Stages.goals_conjectureNamed (st : Stages conjectureNamed Options.standard) :
    st.records.goals = [lit "g", lit "conjecture7"] := by
  obtain ⟨-, goals, -⟩ := conjectureNamed_evaluated
  rw [st.scanned] at goals
  exact Option.some.inj goals

/-- The theorem is closed by the goal, and then by the lemma once more. -/
theorem closed_once_iff_conjectureNamed : ∃ st : Stages conjectureNamed Options.standard,
    st.records.goals = [lit "g", lit "conjecture7"] ∧
    st.script.blocks.map Block.isGoal = [true, true] ∧ ¬ st.script.ClosedOnce ∧
    ∃ vars before, st.document =
      before ++ Block.write Options.standard (.goal vars (.citing [])) := by
  obtain ⟨translates, -, blocks⟩ := conjectureNamed_evaluated
  obtain ⟨t, translated⟩ := isOk_iff.mp translates
  obtain ⟨st, rfl, -, once, earlier, last, before, ends, isGoal, text⟩ :=
    closed_once_iff translated
  have goals := st.goals_conjectureNamed
  have evaluated := st.eq_of_evaluated blocks
  obtain ⟨twice, proof⟩ := Prod.mk.inj evaluated
  rw [ends, List.getLast?_concat] at proof
  refine ⟨st, goals, twice, ?_, ?_⟩
  · rw [once, goals]
    decide
  · cases last with
    | auxiliary => cases isGoal
    | goal vars proved =>
        cases Option.some.inj proof
        exact ⟨vars, before, text⟩

/-- A theorem is not always closed once. -/
theorem not_always_closed_once : ¬ ∀ (text : Text) (o : Options) (t : Translation),
    (ofTranscript text o).2 = .ok t →
      ∃ st : Stages text o, t = st.translation ∧ st.script.ClosedOnce := by
  intro always
  obtain ⟨translates, -⟩ := conjectureNamed_evaluated
  obtain ⟨t, translated⟩ := isOk_iff.mp translates
  obtain ⟨st, -, once⟩ := always _ _ t translated
  have few := st.closedOnce_iff.mp once
  rw [st.goals_conjectureNamed] at few
  exact absurd few (by decide)

end Translation

end MagmaTrace
