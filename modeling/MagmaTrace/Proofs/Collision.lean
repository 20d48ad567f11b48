import MagmaTrace.Proofs.Coherence
import MagmaTrace.Proofs.Names

/-! # When two tokens get one name

Most tokens are given a new name: the hypothesis its configured one, a lemma and a retained axiom
one with a number. The conjecture and the axioms that no proof refers to keep their spelling. No
two new names are equal and no two kept ones, so two tokens share a name exactly when one keeps
the spelling that the other is given (`Naming.resolve_eq_iff`).
-/

namespace MagmaTrace

open Text

namespace Records

/-- The tokens of all statements: of the lemmas, the inline axioms and the hypothesis. -/
def tokens (r : Records) : List Text :=
  r.lemmas.keys ++ r.axioms.keys ++ [Dependency.hypothesisToken]

/-- A token that is its own name: the conjecture's, or that of an inline axiom which no proof
    refers to and no lemma goes by. -/
def Keeps (r : Records) (token : Text) : Prop :=
  (token ∈ r.lemmas.keys ∧ r.isConjectureName token = true) ∨
    (token ∈ r.axioms.keys ∧ token ∉ r.lemmas.keys ∧ token ≠ Dependency.hypothesisToken ∧
      token ∉ r.used)

end Records

namespace Naming

theorem axiomName_injective : Function.Injective axiomName := by
  intro m n same
  exact decimal_injective (List.append_cancel_left same)

theorem lemmaName_ne_axiomName (m n : Nat) : lemmaName m ≠ axiomName n := by
  intro same
  cases (List.cons.inj same).1

/-- What a token is called by some names that are given to everything recorded. -/
inductive Calls (records : Records) (resolution : Resolution) (hypothesis : Text) :
    (token name : Text) → Prop where
  | hypothesis : Calls records resolution hypothesis Dependency.hypothesisToken hypothesis
  | numbered {token : Text} (mem : token ∈ records.numbered) :
      Calls records resolution hypothesis token (lemmaName (records.rank token))
  | retained {token : Text} {k : Nat} {a : RetainedAxiom} (mem : token ∈ candidates records)
      (place : resolution.axioms[k]? = some a) (source : a.sourceName = token) :
      Calls records resolution hypothesis token (axiomName (k + 1))
  | kept {token : Text} (keeps : records.Keeps token) :
      Calls records resolution hypothesis token token

theorem mem_declared_of_finalize {n : Naming} {hypothesis : Text} {records : Records}
    {resolution : Resolution}
    (h : (initial hypothesis).finalize records = (n, .ok resolution)) {token : Text}
    (mem : token ∈ records.axioms.keys) : token ∈ n.declared := by
  obtain ⟨kept, retention, rfl, -⟩ := parts_of_finalize h
  have declared := (renumberFrom_frame kept records 1 records.lemmas.keys).2.2
  rw [renumber, declared, (retainFrom_frame retention).2.2]
  exact mem_foldl_addNew.mpr (.inr mem)

/-- Every statement's token is found under what it is called. -/
theorem exists_calls {n : Naming} {hypothesis : Text} {records : Records} {resolution : Resolution}
    (h : (initial hypothesis).finalize records = (n, .ok resolution))
    (notLemma : Dependency.hypothesisToken ∉ records.lemmas.keys) {token : Text}
    (mem : token ∈ records.tokens) : ∃ name, Calls records resolution hypothesis token name ∧
      ∀ context, n.resolve token context = .ok name := by
  have final := isFinal_of_finalize h
  by_cases isLemma : token ∈ records.lemmas.keys
  · refine ⟨records.canonicalName token, ?_, final.resolve_lemma isLemma⟩
    unfold Records.canonicalName
    split
    · next conjecture => exact .kept (.inl ⟨isLemma, conjecture⟩)
    · next other => exact .numbered (records.mem_numbered.mpr ⟨isLemma, Bool.not_eq_true _ ▸ other⟩)
  by_cases isHypothesis : token = Dependency.hypothesisToken
  · rw [isHypothesis]
    exact ⟨hypothesis, .hypothesis, final.resolve_hypothesis notLemma⟩
  by_cases used : token ∈ records.used
  · have candidate := mem_candidates.mpr ⟨used, isHypothesis, isLemma⟩
    obtain ⟨k, record, -, place, resolved⟩ := final.resolve_axiom candidate
    exact ⟨axiomName (k + 1), .retained candidate place rfl, resolved⟩
  · have isAxiom : token ∈ records.axioms.keys := by
      simpa [Records.tokens, isLemma, isHypothesis] using mem
    refine ⟨token, .kept (.inr ⟨isAxiom, isLemma, isHypothesis, used⟩), fun context => ?_⟩
    have unretained := final.unretained token fun candidate => used (mem_candidates.mp candidate).1
    unfold resolve
    rw [final.lemmas, if_neg isLemma, unretained]
    simp only [isHypothesis, mem_declared_of_finalize h isAxiom, if_true, if_false]

section

variable {records : Records} {resolution : Resolution} {hypothesis : Text}

theorem Calls.eq_of_keeps (notLemma : Dependency.hypothesisToken ∉ records.lemmas.keys)
    {token name : Text} (h : Calls records resolution hypothesis token name)
    (keeps : records.Keeps token) : name = token := by
  cases h with
  | hypothesis =>
      rcases keeps with ⟨isLemma, -⟩ | ⟨-, -, other, -⟩
      · exact absurd isLemma notLemma
      · exact absurd rfl other
  | numbered mem =>
      obtain ⟨isLemma, notConjecture⟩ := records.mem_numbered.mp mem
      rcases keeps with ⟨-, conjecture⟩ | ⟨-, notLemma, -⟩
      · exact absurd (conjecture.symm.trans notConjecture) (by decide)
      · exact absurd isLemma notLemma
  | retained mem =>
      obtain ⟨used, -, notLemma⟩ := mem_candidates.mp mem
      rcases keeps with ⟨isLemma, -⟩ | ⟨-, -, -, unused⟩
      · exact absurd isLemma notLemma
      · exact absurd used unused
  | kept => rfl

/-- Names that are given differ from each other, provided that the hypothesis is not called like
    a lemma or an axiom. -/
theorem Calls.injective_of_given (apart : ∀ k, hypothesis ≠ lemmaName k ∧ hypothesis ≠ axiomName k)
    {a b name : Text} (ha : Calls records resolution hypothesis a name)
    (hb : Calls records resolution hypothesis b name) (givenA : ¬ records.Keeps a)
    (givenB : ¬ records.Keeps b) : a = b := by
  generalize second : name = name' at hb
  cases ha with
  | hypothesis =>
      cases hb with
      | hypothesis => rfl
      | numbered => exact absurd second (apart _).1
      | retained => exact absurd second (apart _).2
      | kept keeps => exact absurd keeps givenB
  | numbered memA =>
      cases hb with
      | hypothesis => exact absurd second.symm (apart _).1
      | numbered =>
          have rank := Nat.succ_injective (lemmaName_injective second)
          exact (List.idxOf_inj memA).mp rank
      | retained => exact absurd second (lemmaName_ne_axiomName _ _)
      | kept keeps => exact absurd keeps givenB
  | retained memA placeA sourceA =>
      cases hb with
      | hypothesis => exact absurd second.symm (apart _).2
      | numbered => exact absurd second.symm (lemmaName_ne_axiomName _ _)
      | retained memB placeB sourceB =>
          have place := Nat.succ_injective (axiomName_injective second)
          rw [place, placeB] at placeA
          cases placeA
          exact sourceA.symm.trans sourceB
      | kept keeps => exact absurd keeps givenB
  | kept keeps => exact absurd keeps givenA

/-- Two tokens share a name exactly when one of them keeps its spelling and the other is given
    that spelling as its name. -/
theorem Calls.eq_iff (notLemma : Dependency.hypothesisToken ∉ records.lemmas.keys)
    (apart : ∀ k, hypothesis ≠ lemmaName k ∧ hypothesis ≠ axiomName k) {a b x y : Text}
    (other : a ≠ b) (ha : Calls records resolution hypothesis a x)
    (hb : Calls records resolution hypothesis b y) :
    x = y ↔ (records.Keeps a ∧ ¬ records.Keeps b ∧ y = a) ∨
      (records.Keeps b ∧ ¬ records.Keeps a ∧ x = b) := by
  by_cases keepsA : records.Keeps a
  · have nameA := ha.eq_of_keeps notLemma keepsA
    by_cases keepsB : records.Keeps b
    · have nameB := hb.eq_of_keeps notLemma keepsB
      simp [keepsA, keepsB, nameA, nameB, other]
    · simp [keepsA, keepsB, nameA, eq_comm]
  · by_cases keepsB : records.Keeps b
    · have nameB := hb.eq_of_keeps notLemma keepsB
      simp [keepsA, keepsB, nameB]
    · simp only [keepsA, keepsB, false_and, or_self, iff_false]
      rintro rfl
      exact other (ha.injective_of_given apart hb keepsA keepsB)

end

theorem standard_hypothesisName_apart (k : Nat) :
    Options.standard.hypothesisName ≠ lemmaName k ∧
      Options.standard.hypothesisName ≠ axiomName k := by
  constructor
  · intro same
    cases (List.cons.inj same).1
  · intro same
    cases (List.cons.inj same).1

/-- When everything in a transcript's records is named, any two tokens are found, and they share a
    name exactly when one keeps its spelling and the other is given it: as the hypothesis, a
    numbered lemma or a retained axiom. -/
theorem resolve_eq_iff {text : Text} {records : Records}
    (scanned : Records.ofTranscript text = .ok records) {n : Naming} {resolution : Resolution}
    (named : (initial Options.standard.hypothesisName).finalize records = (n, .ok resolution))
    {a b : Text} (ha : a ∈ records.tokens) (hb : b ∈ records.tokens) (other : a ≠ b) :
    ∃ x y, Calls records resolution Options.standard.hypothesisName a x ∧
      Calls records resolution Options.standard.hypothesisName b y ∧
      (∀ context, n.resolve a context = .ok x) ∧ (∀ context, n.resolve b context = .ok y) ∧
      (x = y ↔ (records.Keeps a ∧ ¬ records.Keeps b ∧ y = a) ∨
        (records.Keeps b ∧ ¬ records.Keeps a ∧ x = b)) := by
  have notLemma := (Records.coherent_of_ofTranscript scanned).hypothesis_not_lemma
  obtain ⟨x, callsA, resolvedA⟩ := exists_calls named notLemma ha
  obtain ⟨y, callsB, resolvedB⟩ := exists_calls named notLemma hb
  exact ⟨x, y, callsA, callsB, resolvedA, resolvedB,
    Calls.eq_iff notLemma standard_hypothesisName_apart other callsA callsB⟩

/-! ## Shared names -/

/-- A transcript in which a lemma, a retained axiom and the hypothesis are given names that other
    statements keep. -/
def sharingNames : Text := joinLines
  [ lit "fof(h,axiom,X=X).",
    lit "fof(lemma_1,conjecture,X=X).",
    lit "Axiom 1 (op_law): X = X.",
    lit "Axiom 2 (axiom1): X = X.",
    lit "Axiom 3 (single_lemma_2): X = X.",
    Event.proofMarker,
    lit "Lemma 5: X = X",
    lit "= \x7b by axiom 3 (single_lemma_2) \x7d",
    lit "Goal 1: X = X" ]

/-- Its tokens in pairs, of which the first is given the name that the second keeps. -/
def sharedPairs : List (Text × Text) :=
  [(lit "Lemma_5", lit "lemma_1"), (Dependency.hypothesisToken, lit "op_law"),
    (lit "single_lemma_2", lit "axiom1")]

theorem sharingNames_evaluated : (Records.ofTranscript sharingNames).toOption.any (fun records =>
    let (n, resolved) := (initial Options.standard.hypothesisName).finalize records
    resolved.isOk && sharedPairs.all fun pair =>
      pair.1 ∈ records.tokens ∧ pair.2 ∈ records.tokens ∧ pair.1 ≠ pair.2 ∧
        (n.resolve pair.1 none).toOption = some pair.2 ∧
        (n.resolve pair.2 none).toOption = some pair.2) = true := by
  decide +kernel

theorem sharingNames_named : ∃ records n resolution,
    Records.ofTranscript sharingNames = .ok records ∧
      (initial Options.standard.hypothesisName).finalize records = (n, .ok resolution) ∧
      ∀ pair ∈ sharedPairs,
        pair.1 ∈ records.tokens ∧ pair.2 ∈ records.tokens ∧ pair.1 ≠ pair.2 ∧
          n.resolve pair.1 none = .ok pair.2 ∧ n.resolve pair.2 none = .ok pair.2 := by
  obtain ⟨records, scanned, evaluated⟩ := (Option.any_eq_true _ _).mp sharingNames_evaluated
  obtain ⟨isNamed, each⟩ := Bool.and_eq_true_iff.mp evaluated
  obtain ⟨resolution, named⟩ := isOk_iff.mp isNamed
  have pairs := List.all_eq_true.mp each
  simp only [decide_eq_true_eq, toOption_eq_some_iff] at pairs
  exact ⟨records, _, resolution, toOption_eq_some_iff.mp scanned, Prod.ext rfl named, pairs⟩

/-- An inline axiom that no proof refers to keeps the spelling that the hypothesis is given. -/
theorem resolve_eq_iff_sharingNames : ∃ records n resolution x y,
    Records.ofTranscript sharingNames = .ok records ∧
      (initial Options.standard.hypothesisName).finalize records = (n, .ok resolution) ∧
      lit "op_law" ∈ records.tokens ∧ Dependency.hypothesisToken ∈ records.tokens ∧
      (∀ context, n.resolve (lit "op_law") context = .ok x) ∧
      (∀ context, n.resolve Dependency.hypothesisToken context = .ok y) ∧
      (x = y ↔
        (records.Keeps (lit "op_law") ∧ ¬ records.Keeps Dependency.hypothesisToken ∧
          y = lit "op_law") ∨
        (records.Keeps Dependency.hypothesisToken ∧ ¬ records.Keeps (lit "op_law") ∧
          x = Dependency.hypothesisToken)) := by
  obtain ⟨records, n, resolution, scanned, named, shares⟩ := sharingNames_named
  have ha : lit "op_law" ∈ records.tokens :=
    (shares (Dependency.hypothesisToken, lit "op_law") (by decide)).2.1
  have hb : Dependency.hypothesisToken ∈ records.tokens :=
    List.mem_append_right _ (List.mem_singleton_self _)
  obtain ⟨x, y, -, -, resolvedA, resolvedB, shared⟩ :=
    resolve_eq_iff scanned named ha hb (by decide)
  exact ⟨records, n, resolution, x, y, scanned, named, ha, hb, resolvedA, resolvedB, shared⟩

/-- A numbered lemma can be given the name that the conjecture keeps, and the hypothesis and a
    retained axiom the names that other axioms keep. -/
theorem resolve_shared : ∃ records n resolution,
    Records.ofTranscript sharingNames = .ok records ∧
      (initial Options.standard.hypothesisName).finalize records = (n, .ok resolution) ∧
      ∀ pair ∈ [(lit "Lemma_5", lit "lemma_1"), (Dependency.hypothesisToken, lit "op_law"),
          (lit "single_lemma_2", lit "axiom1")],
        pair.1 ∈ records.tokens ∧ pair.2 ∈ records.tokens ∧ pair.1 ≠ pair.2 ∧
          n.resolve pair.1 none = .ok pair.2 ∧ n.resolve pair.2 none = .ok pair.2 := by
  exact sharingNames_named

end Naming

end MagmaTrace
