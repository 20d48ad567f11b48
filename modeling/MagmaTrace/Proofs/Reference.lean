import MagmaTrace.Proofs.Stages
import MagmaTrace.Proofs.Wording

/-! # What references stand for

A reference on a line of a stored proof always stands for a statement of the script: the
hypothesis, the lemma filed under it, or else an axiom that says what the transcript states
inline. No translation succeeds with a reference to nothing.
-/

namespace MagmaTrace

open Text

namespace Translation.Stages

variable {text : Text} {o : Options}

/-- A token stands for the hypothesis when it is the hypothesis's, else for the lemma filed
    under it, else for an axiom whose block in the text states what the transcript does. -/
inductive StandsFor (st : Stages text o) : (token name : Text) → Prop where
  | hypothesis : st.StandsFor Dependency.hypothesisToken o.hypothesisName
  | auxiliary {token : Text} {l : ResolvedLemma} (other : token ≠ Dependency.hypothesisToken)
      (mem : l ∈ st.resolution.lemmas) (source : l.sourceName = token)
      (canonical : l.name = st.records.canonicalName token) : st.StandsFor token l.name
  | retained {token : Text} {k : Nat} {a : RetainedAxiom} {record : AxiomRecord}
      (other : token ≠ Dependency.hypothesisToken) (notLemma : token ∉ st.records.lemmas.keys)
      (place : st.resolution.axioms[k]? = some a) (source : a.sourceName = token)
      (numbered : a.name = Naming.axiomName (k + 1))
      (stated : record.IsLastStated (lines text) token) (means : a.expression = record.expression)
      {block : Text} (states : record.expression.IsAxiom o a.name block)
      (written : block <:+: st.document) : st.StandsFor token a.name

/-- A used reference is found under the name of what it stands for. -/
theorem resolve_used (st : Stages text o) {token : Text} (used : token ∈ st.records.used) :
    ∃ name, st.StandsFor token name ∧ ∀ context, st.naming.resolve token context = .ok name := by
  by_cases isHypothesis : token = Dependency.hypothesisToken
  · rw [isHypothesis]
    exact ⟨_, .hypothesis, st.isFinal.resolve_hypothesis st.hypothesis_not_lemma⟩
  by_cases isLemma : token ∈ st.records.lemmas.keys
  · obtain ⟨record, found⟩ := Registry.mem_keys_iff.mp isLemma
    obtain ⟨l, mem, -, source, canonical⟩ := st.exists_resolved found
    refine ⟨l.name, .auxiliary isHypothesis mem source canonical, ?_⟩
    rw [canonical]
    exact st.isFinal.resolve_lemma isLemma
  · have candidate := Naming.mem_candidates.mpr ⟨used, isHypothesis, isLemma⟩
    obtain ⟨k, record, declared, place, resolved⟩ := st.isFinal.resolve_axiom candidate
    have stated := Records.axioms_of_ofTranscript st.scanned token record declared
    let retained : RetainedAxiom := ⟨token, Naming.axiomName (k + 1), record.expression⟩
    have law : retained.law ∈ st.script.axioms := by
      rw [st.axioms_eq]
      exact List.mem_map_of_mem (List.mem_of_getElem? place)
    have states : record.expression.IsAxiom o retained.name (retained.law.writeAxiom o) :=
      (Expression.isAxiom_iff retained).mpr rfl
    have stands : st.StandsFor token retained.name := .retained isHypothesis isLemma place rfl rfl
      stated rfl states (st.axiom_infix_document law)
    exact ⟨retained.name, stands, resolved⟩

/-- The kind of a recorded dependency and its name lead to the same statement. -/
theorem resolve_dependency (st : Stages text o) {key : Text} {record : LemmaRecord}
    (found : st.records.lemmas.get? key = some record) {d : Dependency}
    (mem : d ∈ record.dependencies) : ∃ name, ∀ context,
      st.naming.resolveDependency d context = .ok name ∧
      st.naming.resolve d.name context = .ok name := by
  obtain ⟨l, -, resolved, -⟩ := st.exists_resolved found
  obtain ⟨-, dependencies, -, cited, -⟩ := Naming.resolveLemma_ok_iff.mp resolved
  obtain ⟨name, -, named⟩ := exists_of_forall₂_left cited mem
  have fits := (st.coherent.lemmas key record found).kinds d mem
  exact ⟨name, st.isFinal.resolve_of_resolveDependency st.hypothesis_not_lemma fits named⟩

end Translation.Stages

/-- When a translation succeeds, every reference on every line of every stored proof is found
    under the name of what it stands for, and every dependency of every lemma is found by its
    kind where it is found by its name. -/
theorem Translation.references_resolve {text : Text} {o : Options} {t : Translation}
    (h : (ofTranscript text o).2 = .ok t) : ∃ st : Stages text o, t.document = st.document ∧
      (∀ block ∈ st.records.proofs.values, ∀ line ∈ block.lines,
        ∀ token ∈ Dependency.references line.text, ∃ name, st.StandsFor token name ∧
          ∀ context, st.naming.resolve token context = .ok name) ∧
      ∀ record ∈ st.records.lemmas.values, ∀ d ∈ record.dependencies, ∃ name, ∀ context,
        st.naming.resolveDependency d context = .ok name ∧
        st.naming.resolve d.name context = .ok name := by
  obtain ⟨st, document⟩ := Stages.exists_of_ofTranscript h
  refine ⟨st, document, ?_, ?_⟩
  · intro block stored line mem token cited
    obtain ⟨key, found⟩ := Registry.mem_values_iff.mp stored
    exact st.resolve_used (st.coherent.proofs key block found line mem token cited)
  · intro record filed d mem
    obtain ⟨key, found⟩ := Registry.mem_values_iff.mp filed
    exact st.resolve_dependency found mem

/-- A transcript in which the proof of one lemma refers to an inline axiom. -/
def Translation.axiomCited : Text := joinLines
  [ lit "fof(h,axiom,X=X).",
    lit "fof(g,conjecture,X=X).",
    lit "Axiom 1 (single_lemma_1): op(X,X) = X.",
    Event.proofMarker,
    lit "Lemma 1: X = X",
    lit "X",
    lit "= \x7b by axiom 1 (single_lemma_1) \x7d",
    lit "X" ]

theorem Translation.axiomCited_evaluated :
    (ofTranscript axiomCited Options.standard).2.isOk = true ∧
    (script? axiomCited Options.standard).map (·.axioms.map (Law.writeAxiom Options.standard)) =
      some [lit "axiom axiom1 (G : Type _) [Magma G] :\n  ∀ x0 : G, (x0 ◇ x0) = x0\n"] := by
  decide +kernel

/-- The reference stands for the only axiom of the script. -/
theorem Translation.references_resolve_axiomCited : ∃ st : Stages axiomCited Options.standard,
    ∃ block ∈ st.records.proofs.values, ∃ line ∈ block.lines,
      lit "single_lemma_1" ∈ Dependency.references line.text ∧
      lit "axiom axiom1 (G : Type _) [Magma G] :\n  ∀ x0 : G, (x0 ◇ x0) = x0\n" <:+:
        st.document ∧
      ∃ name, st.StandsFor (lit "single_lemma_1") name ∧
        ∀ context, st.naming.resolve (lit "single_lemma_1") context = .ok name := by
  obtain ⟨t, translated⟩ := isOk_iff.mp axiomCited_evaluated.1
  obtain ⟨st, -, references, -⟩ := references_resolve translated
  let line : ProofLine := ⟨lit "= \x7b by axiom 1 (single_lemma_1) \x7d", 7⟩
  let block : ProofBlock := ⟨lit "Lemma_1", [⟨lit "X", 6⟩, line, ⟨lit "X", 8⟩]⟩
  have proofs : (Records.ofTranscript axiomCited).toOption.map (·.proofs.values) = some [block] := by
    decide +kernel
  rw [st.scanned] at proofs
  have all : st.records.proofs.values = [block] := Option.some.inj proofs
  have stored : block ∈ st.records.proofs.values := by
    rw [all]
    exact List.mem_singleton_self block
  have mem : line ∈ block.lines := by decide
  have cited : lit "single_lemma_1" ∈ Dependency.references line.text := by decide
  obtain ⟨law, only, shown⟩ :=
    List.map_eq_singleton_iff.mp (st.eq_of_evaluated axiomCited_evaluated.2)
  have among : law ∈ st.script.axioms := by
    rw [only]
    exact List.mem_singleton_self law
  exact ⟨st, block, stored, line, mem, cited, shown ▸ st.axiom_infix_document among,
    references block stored line mem _ cited⟩

end MagmaTrace
