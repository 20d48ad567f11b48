import MagmaTrace.Proofs.Contents

/-! # Which axioms are retained

A proof relies on the axioms that it refers to, and these are named in the order of their tokens.
The names are given one after another, up to the first token that no axiom is declared under; what
comes out is found token by token (`retainFrom_eq_mapM`), so that it depends on what is on record
and not on the order in which it was recorded (`Naming.retain_exact`).
-/

namespace MagmaTrace

open Text

namespace Records

/-- A token calls for an axiom when a proof refers to it and it is neither the hypothesis nor a
    lemma. -/
def CallsForAxiom (r : Records) (token : Text) : Prop :=
  token ∈ r.used ∧ token ≠ Dependency.hypothesisToken ∧ token ∉ r.lemmas.keys

/-- The same references, axioms and lemmas, recorded in another order. -/
structure Reordered (r r' : Records) : Prop where
  used : r'.used.Perm r.used
  axioms : r'.axioms.entries.Perm r.axioms.entries
  lemmas : r'.lemmas.entries.Perm r.lemmas.entries

end Records

namespace Naming

/-! ## Token by token -/

/-- The axiom that is retained for a token at a place. -/
def retainAt (axioms : Registry Text AxiomRecord) (place : Text × Nat) :
    Except MissingDependency RetainedAxiom :=
  match axioms.get? place.1 with
  | none => .error ⟨place.1, some (lit "referenced in a proof but never declared as an Axiom")⟩
  | some record => .ok ⟨place.1, axiomName place.2, record.expression⟩

theorem retainAt_ok_iff {axioms : Registry Text AxiomRecord} {place : Text × Nat} :
    (∃ a, retainAt axioms place = .ok a) ↔ place.1 ∈ axioms.keys := by
  rw [Registry.mem_keys_iff]
  unfold retainAt
  cases axioms.get? place.1 with
  | none => simp
  | some record => simp

theorem retainAt_error {axioms : Registry Text AxiomRecord} {place : Text × Nat}
    {e : MissingDependency} (h : retainAt axioms place = .error e) :
    e.token = place.1 ∧ place.1 ∉ axioms.keys := by
  rw [Registry.mem_keys_iff]
  unfold retainAt at h
  cases found : axioms.get? place.1 with
  | none =>
      rw [found] at h
      cases h
      simp
  | some record =>
      rw [found] at h
      cases h

/-- Whatever is named already, the axioms retained for some tokens are those for each of them. -/
theorem retainFrom_eq_mapM (n : Naming) (axioms : Registry Text AxiomRecord) (rank : Nat)
    (tokens : List Text) :
    (n.retainFrom axioms rank tokens).2 = (tokens.zipIdx rank).mapM (retainAt axioms) := by
  induction tokens generalizing n rank with
  | nil => rfl
  | cons token rest ih =>
      rw [List.zipIdx_cons, List.mapM_cons, retainFrom, retainAt]
      cases axioms.get? token with
      | none => rfl
      | some record =>
          dsimp only
          rw [← ih { n with axioms := n.axioms.insert token (axiomName rank) } (rank + 1)]
          split
          · next failed =>
              rw [failed]
              rfl
          · next done =>
              rw [done]
              rfl

/-! ## The order of recording -/

theorem candidates_of_reordered {r r' : Records} (h : r.Reordered r') :
    candidates r' = candidates r := by
  have sorted : sort r'.used = sort r.used :=
    sort_eq_of_perm (h.used.trans (List.mergeSort_perm r.used _).symm) (pairwise_sort r.used)
  have known (token : Text) : r'.lemmas.contains token = r.lemmas.contains token := by
    unfold Registry.contains
    rw [Registry.get?_of_perm h.lemmas]
  unfold candidates
  simp only [sorted, known]

theorem retainAt_of_reordered {r r' : Records} (h : r.Reordered r') :
    retainAt r'.axioms = retainAt r.axioms := by
  funext place
  unfold retainAt
  rw [Registry.get?_of_perm h.axioms]

/-! ## What comes out -/

section

variable {hypothesis : Text} {records : Records} {n : Naming}

theorem callsForAxiom_iff {token : Text} :
    records.CallsForAxiom token ↔ token ∈ candidates records :=
  mem_candidates.symm

theorem retain_eq_mapM (n : Naming) (records : Records) : (n.retain records).2 =
    ((candidates records).zipIdx 1).mapM (retainAt records.axioms) :=
  retainFrom_eq_mapM ..

theorem pairwise_candidates (distinct : records.used.Nodup) :
    (candidates records).Pairwise (· < ·) :=
  (pairwise_lt_sort distinct).filter _

theorem retain_ok_iff : (∃ retained, ((initial hypothesis).retain records).2 = .ok retained) ↔
    ∀ token, records.CallsForAxiom token → token ∈ records.axioms.keys := by
  rw [retain_eq_mapM, exists_mapM_ok_iff]
  simp only [retainAt_ok_iff, callsForAxiom_iff]
  rw [← List.forall_mem_map (f := Prod.fst) (P := (· ∈ records.axioms.keys)), List.zipIdx_map_fst]

/-- The first token that fails is the least, since the tokens are tried in order. -/
theorem least_of_retain_error (distinct : records.used.Nodup) {e : MissingDependency}
    (h : ((initial hypothesis).retain records).2 = .error e) :
    records.CallsForAxiom e.token ∧ e.token ∉ records.axioms.keys ∧
      ∀ token, records.CallsForAxiom token → token ∉ records.axioms.keys → e.token ≤ token := by
  rw [retain_eq_mapM] at h
  obtain ⟨earlier, place, later, split, succeed, fails⟩ := exists_first_of_mapM_error h
  obtain ⟨named, undeclared⟩ := retainAt_error fails
  have tokens : candidates records = earlier.map (·.1) ++ place.1 :: later.map (·.1) := by
    rw [← List.zipIdx_map_fst 1 (candidates records), split]
    simp
  have increasing := pairwise_candidates distinct
  rw [tokens, List.pairwise_append, List.pairwise_cons] at increasing
  rw [named]
  refine ⟨callsForAxiom_iff.mpr (by simp [tokens]), undeclared, fun token calls missing => ?_⟩
  rw [callsForAxiom_iff, tokens, List.mem_append, List.mem_cons] at calls
  rcases calls with before | rfl | after
  · obtain ⟨other, mem, rfl⟩ := List.mem_map.mp before
    exact absurd (retainAt_ok_iff.mp (succeed other mem)) missing
  · exact List.le_refl _
  · exact List.le_of_lt (increasing.2.1.1 token after)

variable {retained : List RetainedAxiom}

theorem map_sourceName_of_retainedAt {axioms : Registry Text AxiomRecord} {tokens : List Text}
    {rank : Nat} (h : List.Forall₂ (RetainedAt axioms) (tokens.zipIdx rank) retained) :
    retained.map (·.sourceName) = tokens := by
  rw [← List.zipIdx_map_fst rank tokens]
  refine (map_eq_map_of_forall₂ (h.imp ?_)).symm
  rintro place a ⟨record, -, rfl⟩
  rfl

theorem declares_of_retainedAt {axioms : Registry Text AxiomRecord} {tokens : List Text}
    {rank : Nat} (h : List.Forall₂ (RetainedAt axioms) (tokens.zipIdx rank) retained) :
    ∀ a ∈ retained, ∃ record, axioms.get? a.sourceName = some record ∧
      a.expression = record.expression := by
  intro a mem
  obtain ⟨place, -, record, declared, rfl⟩ := exists_of_forall₂_right h mem
  exact ⟨record, declared, rfl⟩

/-! ## What tokens stand for afterwards -/

/-- A naming that gives names to the retained axioms and to lemmas, and knows which axioms are
    declared. -/
structure Retains (n : Naming) (records : Records) (retained : List RetainedAxiom) : Prop where
  axioms : n.axioms.entries = retained.map fun a => (a.sourceName, a.name)
  lemmas : ∀ token ∉ records.lemmas.keys, n.lemmas.get? token = none
  declared : ∀ token, token ∈ n.declared ↔ token ∈ records.axioms.keys

theorem retains_of_retain (distinct : records.used.Nodup)
    (h : (initial hypothesis).retain records = (n, .ok retained)) :
    n.Retains records retained := by
  unfold retain at h
  obtain ⟨-, lemmas, declared⟩ := retainFrom_frame h
  refine ⟨?_, fun token _ => ?_, fun token => ?_⟩
  · rw [entries_retainFrom h (nodup_candidates distinct)]
    refine map_eq_map_of_forall₂ ((retainedAt_of_retainFrom h).imp ?_)
    rintro place a ⟨record, -, rfl⟩
    rfl
  · rw [lemmas]
    rfl
  · rw [declared, mem_foldl_addNew]
    simp [initial]

theorem Retains.renumber (h : n.Retains records retained) :
    (n.renumber records).Retains records retained := by
  obtain ⟨-, axioms, declared⟩ := renumberFrom_frame n records 1 records.lemmas.keys
  refine ⟨?_, fun token notLemma => ?_, fun token => ?_⟩
  · rw [Naming.renumber, axioms, h.axioms]
  · rw [get?_renumber, if_neg notLemma, h.lemmas token notLemma]
  · rw [Naming.renumber, declared, h.declared]

theorem Retains.resolve_retained (h : n.Retains records retained) {a : RetainedAxiom}
    (mem : a ∈ retained) (notLemma : a.sourceName ∉ records.lemmas.keys)
    (context : Option Text) : n.resolve a.sourceName context = .ok a.name := by
  have named : n.axioms.get? a.sourceName = some a.name := by
    rw [Registry.get?_eq_some_iff, h.axioms]
    exact List.mem_map_of_mem mem
  simp only [resolve, h.lemmas _ notLemma, named]

theorem Retains.resolve_unretained (h : n.Retains records retained) {token : Text}
    (declared : token ∈ records.axioms.keys) (unretained : token ∉ retained.map (·.sourceName))
    (notLemma : token ∉ records.lemmas.keys) (notHypothesis : token ≠ Dependency.hypothesisToken)
    (context : Option Text) : n.resolve token context = .ok token := by
  have unnamed : n.axioms.get? token = none := by
    rw [Option.eq_none_iff_forall_ne_some]
    intro name found
    rw [Registry.get?_eq_some_iff, h.axioms] at found
    obtain ⟨a, mem, same⟩ := List.mem_map.mp found
    exact unretained (List.mem_map.mpr ⟨a, mem, congrArg Prod.fst same⟩)
  simp only [resolve, h.lemmas _ notLemma, unnamed, notHypothesis, (h.declared token).mpr declared,
    if_false, if_true]

end

/-- Axioms can be retained exactly when one is declared for every token that calls for one. Each of
    these tokens then has one entry, in increasing order, under the names `axiom1`, `axiom2`, … and
    with what is declared for it, and stands for that name, while any other declared axiom keeps its
    token. Otherwise the error is about the least token that is not declared. The order in which
    anything was recorded does not matter. -/
theorem retain_exact (hypothesis : Text) {records : Records} (distinct : records.used.Nodup) :
    let outcome := (initial hypothesis).retain records
    ((∃ retained, outcome.2 = .ok retained) ↔
      ∀ token, records.CallsForAxiom token → token ∈ records.axioms.keys) ∧
    (∀ retained, outcome.2 = .ok retained →
      (retained.map (·.sourceName)).Pairwise (· < ·) ∧
      (∀ token, token ∈ retained.map (·.sourceName) ↔ records.CallsForAxiom token) ∧
      retained.map (·.name) = (List.range retained.length).map (fun k => axiomName (k + 1)) ∧
      (∀ a ∈ retained, ∃ record, records.axioms.get? a.sourceName = some record ∧
        a.expression = record.expression) ∧
      ∀ n, n = outcome.1 ∨ n = outcome.1.renumber records → ∀ context,
        (∀ a ∈ retained, n.resolve a.sourceName context = .ok a.name) ∧
        ∀ token ∈ records.axioms.keys, ¬ records.CallsForAxiom token →
          token ∉ records.lemmas.keys → token ≠ Dependency.hypothesisToken →
          n.resolve token context = .ok token) ∧
    (∀ e, outcome.2 = .error e → e.diagnostic.code = .missingDependency ∧
      e.diagnostic.details = some (.token e.token) ∧ records.CallsForAxiom e.token ∧
      e.token ∉ records.axioms.keys ∧
      ∀ token, records.CallsForAxiom token → token ∉ records.axioms.keys → e.token ≤ token) ∧
    ∀ records', records.Reordered records' →
      ((initial hypothesis).retain records').2 = outcome.2 := by
  intro outcome
  refine ⟨retain_ok_iff, fun retained done => ?_, fun e failed => ?_, fun records' reordered => ?_⟩
  · have retention : (initial hypothesis).retain records = (outcome.1, .ok retained) :=
      Prod.ext rfl done
    have entries := retainedAt_of_retainFrom retention
    have tokens := map_sourceName_of_retainedAt entries
    have members (token : Text) :
        token ∈ retained.map (·.sourceName) ↔ records.CallsForAxiom token := by
      rw [tokens, callsForAxiom_iff]
    refine ⟨tokens ▸ pairwise_candidates distinct, members, ?_, declares_of_retainedAt entries, ?_⟩
    · rw [names_of_retainedAt entries, List.length_map]
    · have retains := retains_of_retain distinct retention
      have goesOn {n : Naming} (names : n = outcome.1 ∨ n = outcome.1.renumber records) :
          n.Retains records retained := by
        rcases names with rfl | rfl
        · exact retains
        · exact retains.renumber
      intro n names context
      refine ⟨fun a mem => ?_, fun token declared other notLemma notHypothesis => ?_⟩
      · have calls := (members a.sourceName).mp (List.mem_map_of_mem mem)
        exact (goesOn names).resolve_retained mem calls.2.2 context
      · have unretained := fun mem => other ((members token).mp mem)
        exact (goesOn names).resolve_unretained declared unretained notLemma notHypothesis context
  · exact ⟨rfl, rfl, least_of_retain_error distinct failed⟩
  · rw [retain_eq_mapM, candidates_of_reordered reordered, retainAt_of_reordered reordered,
      ← retain_eq_mapM]

/-- References, axioms and lemmas of which one token is both an axiom and a lemma, and one axiom is
    not referred to. -/
def Records.mixed : Records :=
  let x : Expression := .bare (.var (lit "X"))
  let axioms := [lit "single_lemma_2", lit "history_lemma_10", lit "single_lemma_7",
    lit "history_lemma_9", lit "single_lemma_1"]
  { Records.empty with
    axioms := .ofList (axioms.map fun name => (name, ⟨name, x, 1⟩))
    lemmas := .ofList [(lit "single_lemma_1", ⟨lit "single_lemma_1", x, [], 2⟩)]
    used := [lit "single_lemma_2", Dependency.hypothesisToken, lit "history_lemma_10",
      lit "single_lemma_1", lit "history_lemma_9"] }

theorem retain_mixed_evaluated : (match ((initial (lit "h")).retain Records.mixed).2 with
      | .error _ => []
      | .ok retained => retained.map fun a => (a.sourceName, a.name)) =
    [(lit "history_lemma_10", lit "axiom1"), (lit "history_lemma_9", lit "axiom2"),
      (lit "single_lemma_2", lit "axiom3")] := by
  have sorted : sort Records.mixed.used = [Dependency.hypothesisToken, lit "history_lemma_10",
      lit "history_lemma_9", lit "single_lemma_1", lit "single_lemma_2"] :=
    sort_eq_of_perm (by decide +kernel) (by decide +kernel)
  simp only [retain, candidates, sorted]
  decide +kernel

/-- The tokens are in the order of their units, not in that of their numbers. -/
theorem retain_exact_mixed : Records.mixed.used.Nodup ∧ ∃ n retained,
    (initial (lit "h")).retain Records.mixed = (n, .ok retained) ∧
    retained.map (·.sourceName) =
      [lit "history_lemma_10", lit "history_lemma_9", lit "single_lemma_2"] ∧
    (retained.map (·.sourceName)).Pairwise (· < ·) ∧
    (∀ a ∈ retained, n.resolve a.sourceName none = .ok a.name) ∧
    n.resolve (lit "single_lemma_7") none = .ok (lit "single_lemma_7") := by
  have distinct : Records.mixed.used.Nodup := by decide +kernel
  have evaluated := retain_mixed_evaluated
  obtain ⟨-, retention, -, -⟩ := retain_exact (lit "h") distinct
  rcases retained : (initial (lit "h")).retain Records.mixed with ⟨n, e | axioms⟩
  · rw [retained] at evaluated
    cases evaluated
  · rw [retained] at evaluated retention
    have tokens := congrArg (List.map Prod.fst) evaluated
    simp only [List.map_map] at tokens
    obtain ⟨increasing, -, -, -, stand⟩ := retention axioms rfl
    obtain ⟨named, kept⟩ := stand n (.inl rfl) none
    have unused : ¬ Records.mixed.CallsForAxiom (lit "single_lemma_7") := fun calls =>
      absurd calls.1 (by decide +kernel)
    exact ⟨distinct, n, axioms, rfl, tokens, increasing, named,
      kept _ (by decide +kernel) unused (by decide +kernel) (by decide)⟩

end Naming

end MagmaTrace
