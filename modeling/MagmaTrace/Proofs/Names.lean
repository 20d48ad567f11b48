import MagmaTrace.Naming
import MagmaTrace.Proofs.Lookup
import MagmaTrace.Proofs.Outcome
import MagmaTrace.Proofs.Searching

/-! # What the names of a script stand for

A lemma that is not the conjecture is named by its rank among such lemmas in the order of
their discovery. Every reference that calls for an axiom has one, at the place that its name
tells. Whatever is found under a token does not depend on where it is cited.
-/

namespace MagmaTrace

open Text

namespace Records

/-- The lemmas that are numbered, in the order of their discovery. -/
def numbered (r : Records) : List Text := r.lemmas.keys.filter (!r.isConjectureName ·)

/-- The number of a lemma, counted from one. -/
def rank (r : Records) (name : Text) : Nat := r.numbered.idxOf name + 1

/-- The name of a lemma in the script: the conjecture keeps its own. -/
def canonicalName (r : Records) (name : Text) : Text :=
  if r.isConjectureName name then name else Naming.lemmaName (r.rank name)

theorem mem_numbered (r : Records) {name : Text} :
    name ∈ r.numbered ↔ name ∈ r.lemmas.keys ∧ r.isConjectureName name = false := by
  simp [numbered]

theorem nodup_numbered (r : Records) : r.numbered.Nodup := r.lemmas.keys_nodup.filter _

theorem canonicalName_of_numbered (r : Records) {name : Text} (h : name ∈ r.numbered) :
    r.canonicalName name = Naming.lemmaName (r.rank name) := by
  unfold canonicalName
  rw [(r.mem_numbered.mp h).2]
  rfl

end Records

namespace Naming

theorem decimal_injective : Function.Injective decimal := by
  intro m n same
  rw [← ofDigits_decimal m, same, ofDigits_decimal]

theorem lemmaName_injective : Function.Injective lemmaName := by
  intro m n same
  exact decimal_injective (List.append_cancel_left same)

/-! ## Lemmas -/

theorem renumberFrom_frame (n : Naming) (records : Records) (rank : Nat) (names : List Text) :
    (n.renumberFrom records rank names).hypothesis = n.hypothesis ∧
      (n.renumberFrom records rank names).axioms = n.axioms ∧
      (n.renumberFrom records rank names).declared = n.declared := by
  induction names generalizing n rank with
  | nil => exact ⟨rfl, rfl, rfl⟩
  | cons name rest ih =>
      unfold renumberFrom
      split
      · exact ih _ _
      · exact ih _ _

/-- Each name that is numbered gets the rank it starts from plus its place among the names
    that are not the conjecture's. -/
theorem get?_renumberFrom (n : Naming) (records : Records) (rank : Nat) {names : List Text}
    (distinct : names.Nodup) (token : Text) :
    (n.renumberFrom records rank names).lemmas.get? token =
      if token ∈ names then
        some (if records.isConjectureName token then token
          else lemmaName (rank + (names.filter (!records.isConjectureName ·)).idxOf token))
      else n.lemmas.get? token := by
  induction names generalizing n rank with
  | nil => rfl
  | cons name rest ih =>
      obtain ⟨fresh, rest_distinct⟩ := List.nodup_cons.mp distinct
      unfold renumberFrom
      by_cases same : token = name
      · -- No later name sets the entry again, since the names are distinct.
        subst same
        split
        · next conjecture =>
            rw [ih _ _ rest_distinct, if_neg fresh]
            simp [Registry.get?_insert_self]
        · next other =>
            rw [ih _ _ rest_distinct, if_neg fresh]
            simp [Registry.get?_insert_self, other]
      · split
        · next conjecture =>
            rw [ih _ _ rest_distinct]
            simp [same, conjecture, Registry.get?_insert_of_ne]
        · next other =>
            rw [ih _ _ rest_distinct]
            have place := List.idxOf_cons_ne (rest.filter (!records.isConjectureName ·)) (Ne.symm same)
            simp [same, other, Registry.get?_insert_of_ne, place, Nat.add_assoc, Nat.add_comm 1]

theorem get?_renumber (n : Naming) (records : Records) (token : Text) :
    (n.renumber records).lemmas.get? token =
      if token ∈ records.lemmas.keys then some (records.canonicalName token)
      else n.lemmas.get? token := by
  have distinct : records.lemmas.keys.Nodup := records.lemmas.keys_nodup
  unfold renumber Records.canonicalName Records.rank Records.numbered
  rw [get?_renumberFrom n records 1 distinct, Nat.add_comm 1]

/-! ## Axioms -/

/-- Retaining one axiom names it by the rank reached and goes on from there. -/
theorem retainFrom_cons_ok {n n' : Naming} {axioms : Registry Text AxiomRecord} {rank : Nat}
    {token : Text} {rest : List Text} {retained : List RetainedAxiom}
    (h : n.retainFrom axioms rank (token :: rest) = (n', .ok retained)) :
    ∃ record more, axioms.get? token = some record ∧
      retained = ⟨token, axiomName rank, record.expression⟩ :: more ∧
      retainFrom { n with axioms := n.axioms.insert token (axiomName rank) } axioms (rank + 1) rest =
        (n', .ok more) := by
  unfold retainFrom at h
  rcases found : axioms.get? token with _ | record
  · simp only [found] at h
    cases h
  · simp only [found] at h
    split at h
    · cases h
    · next later =>
        cases h
        exact ⟨record, _, rfl, rfl, later⟩

theorem retainFrom_frame {n n' : Naming} {axioms : Registry Text AxiomRecord} {rank : Nat}
    {tokens : List Text} {retained : List RetainedAxiom}
    (h : n.retainFrom axioms rank tokens = (n', .ok retained)) :
    n'.hypothesis = n.hypothesis ∧ n'.lemmas = n.lemmas ∧ n'.declared = n.declared := by
  induction tokens generalizing n rank retained with
  | nil =>
      cases h
      exact ⟨rfl, rfl, rfl⟩
  | cons token rest ih =>
      obtain ⟨record, more, -, -, later⟩ := retainFrom_cons_ok h
      have kept := ih later
      exact kept

theorem get?_retainFrom_of_not_mem {n n' : Naming} {axioms : Registry Text AxiomRecord} {rank : Nat}
    {tokens : List Text} {retained : List RetainedAxiom}
    (h : n.retainFrom axioms rank tokens = (n', .ok retained)) {token : Text}
    (absent : token ∉ tokens) : n'.axioms.get? token = n.axioms.get? token := by
  induction tokens generalizing n rank retained with
  | nil =>
      cases h
      rfl
  | cons first rest ih =>
      obtain ⟨record, more, -, -, later⟩ := retainFrom_cons_ok h
      obtain ⟨other, absent⟩ := not_or.mp (List.mem_cons.not.mp absent)
      rw [ih later absent, Registry.get?_insert_of_ne _ _ other]

/-- An axiom is retained for each token, under the name of its place. -/
theorem get?_retainFrom_of_mem {n n' : Naming} {axioms : Registry Text AxiomRecord} {rank : Nat}
    {tokens : List Text} {retained : List RetainedAxiom}
    (h : n.retainFrom axioms rank tokens = (n', .ok retained)) {token : Text}
    (mem : token ∈ tokens) : ∃ k record, axioms.get? token = some record ∧
      retained[k]? = some ⟨token, axiomName (rank + k), record.expression⟩ ∧
      n'.axioms.get? token = some (axiomName (rank + k)) := by
  induction tokens generalizing n rank retained with
  | nil => cases mem
  | cons first rest ih =>
      obtain ⟨record, more, declared, rfl, later⟩ := retainFrom_cons_ok h
      by_cases again : token ∈ rest
      · obtain ⟨k, record, declared, kept, named⟩ := ih later again
        refine ⟨k + 1, record, declared, ?_⟩
        rw [Nat.add_right_comm, Nat.add_assoc] at kept named
        exact ⟨kept, named⟩
      · have same : token = first := (List.mem_cons.mp mem).resolve_right again
        subst same
        refine ⟨0, record, declared, rfl, ?_⟩
        rw [get?_retainFrom_of_not_mem later again, Registry.get?_insert_self]
        rfl

/-! ## All names -/

theorem resolveLemma_ok_iff {n : Naming} {records : Records} {record : LemmaRecord}
    {l : ResolvedLemma} : n.resolveLemma records record = .ok l ↔ ∃ name dependencies,
      n.resolve record.name none = .ok name ∧
      List.Forall₂
        (fun d cited => n.resolveDependency d (some (dependencyContext record)) = .ok cited)
        record.dependencies dependencies ∧
      l = { sourceName := record.name
            name := name
            expression := record.expression
            dependencies := dependencies
            isConjecture := records.isConjectureName record.name
            proof := records.proofs.get? record.name } := by
  unfold resolveLemma
  simp only [bind_ok_iff, pure_ok_iff, mapM_ok_iff]
  constructor
  · rintro ⟨name, named, dependencies, cited, rfl⟩
    exact ⟨name, dependencies, named, cited, rfl⟩
  · rintro ⟨name, dependencies, named, cited, rfl⟩
    exact ⟨name, named, dependencies, cited, rfl⟩

theorem mem_candidates {records : Records} {token : Text} :
    token ∈ candidates records ↔ token ∈ records.used ∧
      token ≠ Dependency.hypothesisToken ∧ token ∉ records.lemmas.keys := by
  unfold candidates
  rw [List.mem_filter, mem_sort]
  simp [← Registry.contains_iff]

/-- The names given to everything recorded, and what they are given to. -/
structure IsFinal (n : Naming) (hypothesis : Text) (records : Records) (r : Resolution) : Prop where
  hypothesis : n.hypothesis = hypothesis
  lemmas : ∀ token, n.lemmas.get? token =
    if token ∈ records.lemmas.keys then some (records.canonicalName token) else none
  retained : ∀ token ∈ candidates records, ∃ k record, records.axioms.get? token = some record ∧
    r.axioms[k]? = some ⟨token, axiomName (k + 1), record.expression⟩ ∧
    n.axioms.get? token = some (axiomName (k + 1))
  unretained : ∀ token, token ∉ candidates records → n.axioms.get? token = none
  resolved : List.Forall₂ (fun record l => n.resolveLemma records record = .ok l)
    records.lemmas.values r.lemmas

/-- Naming everything retains the axioms, and then numbers and resolves the lemmas. -/
theorem parts_of_finalize {n n' : Naming} {records : Records} {r : Resolution}
    (h : n.finalize records = (n', .ok r)) : ∃ kept, n.retain records = (kept, .ok r.axioms) ∧
      n' = kept.renumber records ∧ r.mapping = n'.mapping ∧
      List.Forall₂ (fun record l => n'.resolveLemma records record = .ok l)
        records.lemmas.values r.lemmas := by
  rcases retention : n.retain records with ⟨kept, e | retained⟩
  · simp only [finalize, retention] at h
    cases h
  · simp only [finalize, retention] at h
    obtain ⟨rfl, outcome⟩ := Prod.mk.inj h
    obtain ⟨lemmas, resolved, done⟩ := bind_ok_iff.mp outcome
    cases done
    exact ⟨kept, rfl, rfl, rfl, mapM_ok_iff.mp resolved⟩

theorem isFinal_of_finalize {n : Naming} {hypothesis : Text} {records : Records} {r : Resolution}
    (h : (initial hypothesis).finalize records = (n, .ok r)) : n.IsFinal hypothesis records r := by
  obtain ⟨kept, retention, rfl, -, resolved⟩ := parts_of_finalize h
  unfold retain at retention
  obtain ⟨sameHypothesis, sameLemmas, -⟩ := retainFrom_frame retention
  obtain ⟨keptHypothesis, keptAxioms, -⟩ :=
    renumberFrom_frame kept records 1 records.lemmas.keys
  refine ⟨keptHypothesis.trans sameHypothesis, ?_, ?_, ?_, resolved⟩
  · intro token
    rw [get?_renumber, sameLemmas]
    rfl
  · intro token mem
    obtain ⟨k, record, declared, stated, named⟩ := get?_retainFrom_of_mem retention mem
    rw [Nat.add_comm 1] at stated named
    refine ⟨k, record, declared, stated, ?_⟩
    rw [renumber, keptAxioms]
    exact named
  · intro token absent
    rw [renumber, keptAxioms, get?_retainFrom_of_not_mem retention absent]
    rfl

/-! ## Resolving -/

theorem eq_hypothesisToken_of_kindOf {name : Text} (h : Dependency.kindOf name = .hypothesis) :
    name = Dependency.hypothesisToken := by
  by_contra other
  simp only [Dependency.kindOf, other, if_false] at h
  split_ifs at h

/-- What a token stands for is the same wherever it is cited. -/
theorem resolve_context {n : Naming} {token name : Text} {context : Option Text}
    (h : n.resolve token context = .ok name) (other : Option Text) :
    n.resolve token other = .ok name := by
  unfold resolve at h ⊢
  split
  · next found => rwa [found] at h
  · next none =>
      rw [none] at h
      dsimp only at h
      split
      · next found => rwa [found] at h
      · next unretained =>
          rw [unretained] at h
          dsimp only at h
          split_ifs at h ⊢
          · exact h
          · exact h

namespace IsFinal

variable {n : Naming} {hypothesis : Text} {records : Records} {r : Resolution}

theorem resolve_lemma (f : n.IsFinal hypothesis records r) {token : Text}
    (mem : token ∈ records.lemmas.keys) (context : Option Text) :
    n.resolve token context = .ok (records.canonicalName token) := by
  unfold resolve
  rw [f.lemmas, if_pos mem]

theorem resolve_hypothesis (f : n.IsFinal hypothesis records r)
    (notLemma : Dependency.hypothesisToken ∉ records.lemmas.keys) (context : Option Text) :
    n.resolve Dependency.hypothesisToken context = .ok hypothesis := by
  have notCandidate : Dependency.hypothesisToken ∉ candidates records :=
    fun mem => (mem_candidates.mp mem).2.1 rfl
  unfold resolve
  rw [f.lemmas, if_neg notLemma, f.unretained _ notCandidate, f.hypothesis]
  rfl

theorem resolve_axiom (f : n.IsFinal hypothesis records r) {token : Text}
    (mem : token ∈ candidates records) : ∃ k record, records.axioms.get? token = some record ∧
      r.axioms[k]? = some ⟨token, axiomName (k + 1), record.expression⟩ ∧
      ∀ context, n.resolve token context = .ok (axiomName (k + 1)) := by
  obtain ⟨k, record, declared, stated, named⟩ := f.retained token mem
  refine ⟨k, record, declared, stated, fun context => ?_⟩
  unfold resolve
  rw [f.lemmas, if_neg (mem_candidates.mp mem).2.2, named]

/-- A dependency whose kind fits its name stands for what its name stands for. -/
theorem resolve_of_resolveDependency (f : n.IsFinal hypothesis records r)
    (notLemma : Dependency.hypothesisToken ∉ records.lemmas.keys) {d : Dependency}
    (fits : d = Dependency.ofName d.name) {name : Text} {context : Option Text}
    (h : n.resolveDependency d context = .ok name) (other : Option Text) :
    n.resolveDependency d other = .ok name ∧ n.resolve d.name other = .ok name := by
  unfold resolveDependency at h ⊢
  rcases kind : d.kind with _ | _ | _ | _ | _
  case hypothesis =>
      have token : d.name = Dependency.hypothesisToken :=
        eq_hypothesisToken_of_kindOf ((congrArg Dependency.kind fits).symm.trans kind)
      rw [kind] at h
      cases h
      rw [token, f.resolve_hypothesis notLemma, f.hypothesis]
      exact ⟨rfl, rfl⟩
  case mentioned =>
      rw [kind] at h
      rcases found : n.lemmas.get? d.name with _ | named
      · simp only [found] at h
        cases h
      · simp only [found] at h
        cases h
        unfold resolve
        rw [found]
        exact ⟨rfl, rfl⟩
  all_goals
      rw [kind] at h
      exact ⟨resolve_context h other, resolve_context h other⟩

end IsFinal

end Naming

end MagmaTrace
