import MagmaTrace.Proofs.Discovery
import MagmaTrace.Proofs.Stages

/-! # Which lemmas precede their citations

A lemma's block cites other lemmas in the justifications of its chain, or else among what it
depends on. A cited lemma has its block earlier than the block that cites it exactly when an
earlier line put it on record: the line of the citation does not matter.
-/

namespace MagmaTrace

open Text

/-- The names that a proof cites. -/
def Proof.names : Proof → List Text
  | .chain steps => steps.map (·.justification)
  | .citing names => names

/-- The tokens that the justifications among some lines cite. -/
def CalcStep.citedTokens (lines : List ProofLine) : List Text :=
  (lines.filter (isJustification ·.text)).filterMap (citedToken? ·.text)

/-- The tokens that a lemma's block cites: those of its proof, or else those it depends on. -/
def Records.citations (r : Records) (record : LemmaRecord) : List Text :=
  match r.proofs.get? record.name with
  | some block => CalcStep.citedTokens block.lines
  | none => record.dependencies.map (·.name)

/-! ## Places among numbered lemmas -/

/-- Leaving members out keeps the order of the others. -/
theorem idxOf_filter_lt_iff {α : Type} [BEq α] [LawfulBEq α] (p : α → Bool) {a b : α} (ha : p a = true)
    (hb : p b = true) (xs : List α) :
    (xs.filter p).idxOf a < (xs.filter p).idxOf b ↔ xs.idxOf a < xs.idxOf b := by
  induction xs with
  | nil => rfl
  | cons x rest ih =>
      cases kept : p x with
      | true =>
          rw [List.filter_cons_of_pos kept]
          by_cases isA : x = a
          · subst isA
            by_cases isB : x = b
            · subst isB
              simp only [Nat.lt_irrefl]
            · simp only [List.idxOf_cons_self, List.idxOf_cons_ne _ isB, Nat.succ_pos]
          · by_cases isB : x = b
            · subst isB
              simp only [List.idxOf_cons_self, Nat.not_lt_zero]
            · simp only [List.idxOf_cons_ne _ isA, List.idxOf_cons_ne _ isB, Nat.succ_lt_succ_iff]
              exact ih
      | false =>
          have notA : x ≠ a := fun same => by simp [same, ha] at kept
          have notB : x ≠ b := fun same => by simp [same, hb] at kept
          rw [List.filter_cons_of_neg (by simp [kept]), List.idxOf_cons_ne _ notA,
            List.idxOf_cons_ne _ notB, ih]
          exact Nat.succ_lt_succ_iff.symm

/-- Lemmas are numbered in the order of the lines that first put them on record. -/
theorem Records.rank_lt_iff {text : Text} {r : Records} (h : Records.ofTranscript text = .ok r)
    {a b : Text} (ha : a ∈ r.numbered) (hb : b ∈ r.numbered) :
    ∃ m n, Scanner.firstLine? (lines text) a = some m ∧
      Scanner.firstLine? (lines text) b = some n ∧ (r.rank a < r.rank b ↔ m < n) := by
  obtain ⟨s, scanned, rfl⟩ := Records.ofTranscript_ok_iff.mp h
  obtain ⟨keyA, otherA⟩ := List.mem_filter.mp ha
  obtain ⟨keyB, otherB⟩ := List.mem_filter.mp hb
  have keys : s.finish.records.lemmas.keys = s.records.lemmas.keys := s.frame_closeBlock.keys
  rw [keys] at keyA keyB
  obtain ⟨m, firstA⟩ := Scanner.exists_firstLine? scanned keyA
  obtain ⟨n, firstB⟩ := Scanner.exists_firstLine? scanned keyB
  refine ⟨m, n, firstA, firstB, ?_⟩
  unfold rank numbered
  rw [Nat.succ_lt_succ_iff,
    idxOf_filter_lt_iff (!s.finish.records.isConjectureName ·) otherA otherB, keys]
  exact Scanner.idxOf_lt_iff scanned firstA firstB

/-! ## Chains -/

namespace CalcStep

theorem justification_of_ofLines {r : Renaming} {n : Naming} {before after : Option ProofLine}
    {line : ProofLine} {step : CalcStep} (h : ofLines r n before line after = .ok step) :
    ∃ token context, citedToken? line.text = some token ∧
      n.resolve token context = .ok step.justification := by
  unfold ofLines at h
  rcases cited : citedToken? line.text with _ | token
  · simp only [cited] at h
    cases h
  · simp only [cited, bind_ok_iff, mapError_ok_iff, pure_ok_iff] at h
    obtain ⟨lhs, -, rhs, -, name, resolved, rfl⟩ := h
    exact ⟨token, _, rfl, resolved⟩

theorem justifications_of_ofLinesAfter {r : Renaming} {n : Naming} {before : Option ProofLine}
    {lines : List ProofLine} {steps : List CalcStep}
    (h : ofLinesAfter r n before lines = .ok steps) :
    List.Forall₂ (fun token cited => ∃ context, n.resolve token context = .ok cited)
      (citedTokens lines) (steps.map (·.justification)) := by
  induction lines generalizing before steps with
  | nil =>
      cases h
      exact .nil
  | cons line rest ih =>
      unfold ofLinesAfter at h
      by_cases justifies : isJustification line.text = true
      · simp only [justifies, if_true, bind_ok_iff, pure_ok_iff] at h
        obtain ⟨step, made, later, rest_ok, rfl⟩ := h
        obtain ⟨token, context, cited, resolved⟩ := justification_of_ofLines made
        have tokens : citedTokens (line :: rest) = token :: citedTokens rest := by
          simp [citedTokens, justifies, cited]
        rw [tokens, List.map_cons]
        exact .cons ⟨context, resolved⟩ (ih rest_ok)
      · simp only [justifies, if_false, Bool.false_eq_true] at h
        have tokens : citedTokens (line :: rest) = citedTokens rest := by
          simp [citedTokens, justifies]
        rw [tokens]
        exact ih h

end CalcStep

/-! ## Blocks -/

/-- A lemma's block is proved by the chain of its proof, or else from what it depends on. -/
theorem Block.ofLemma_auxiliary {n : Naming} {l : ResolvedLemma} {name : Text}
    {statement : Statement} {proof : Proof}
    (h : Block.ofLemma n l = .ok (.auxiliary name statement proof)) :
    l.isConjecture = false ∧ name = l.name ∧
      ((∃ block steps, l.proof = some block ∧
        CalcStep.ofBlock (Renaming.scope l.expression) n block = .ok steps ∧ proof = .chain steps) ∨
      (l.proof = none ∧ proof = .citing l.dependencies)) := by
  obtain ⟨made, source, same⟩ := ofLemma_ok_iff.mp h
  split at same
  · cases same
  · next other =>
      cases same
      exact ⟨Bool.not_eq_true _ ▸ other, rfl, source⟩

namespace Translation.Stages

variable {text : Text} {o : Options}

/-- Every block that states a lemma is made from a resolved lemma. -/
theorem exists_lemma_of_block (st : Stages text o) {name : Text} {statement : Statement}
    {proof : Proof} (mem : .auxiliary name statement proof ∈ st.script.blocks) :
    ∃ l ∈ st.resolution.lemmas,
      Block.ofLemma st.naming l = .ok (.auxiliary name statement proof) := by
  rcases st.source_of_block mem with source | ⟨vars, closing⟩
  · exact source
  · cases closing

/-- The names that a lemma's block cites are those of its citations. -/
theorem names_of_block (st : Stages text o) {key : Text} {record : LemmaRecord}
    (found : st.records.lemmas.get? key = some record) {l : ResolvedLemma}
    (resolved : st.naming.resolveLemma st.records record = .ok l) {name : Text}
    {statement : Statement} {proof : Proof}
    (made : Block.ofLemma st.naming l = .ok (.auxiliary name statement proof)) :
    List.Forall₂ (fun token cited => ∀ context, st.naming.resolve token context = .ok cited)
      (st.records.citations record) proof.names := by
  obtain ⟨own, dependencies, -, cited, rfl⟩ := Naming.resolveLemma_ok_iff.mp resolved
  obtain ⟨-, -, chain | depending⟩ := Block.ofLemma_auxiliary made
  · obtain ⟨block, steps, stored, chained, rfl⟩ := chain
    have tokens : st.records.citations record = CalcStep.citedTokens block.lines := by
      unfold Records.citations
      dsimp only at stored
      rw [stored]
    rw [tokens]
    refine (CalcStep.justifications_of_ofLinesAfter chained).imp ?_
    rintro token cited ⟨context, resolved⟩
    exact Naming.resolve_context resolved
  · obtain ⟨unproved, rfl⟩ := depending
    have tokens : st.records.citations record = record.dependencies.map (·.name) := by
      unfold Records.citations
      dsimp only at unproved
      rw [unproved]
    rw [tokens]
    have kinds := (st.coherent.lemmas key record found).kinds
    refine List.forall₂_map_left_iff.mpr (((List.forall₂_and_left _ _).mpr ⟨kinds, cited⟩).imp ?_)
    rintro d name ⟨fits, named⟩ context
    exact (st.isFinal.resolve_of_resolveDependency st.hypothesis_not_lemma fits named context).2

end Translation.Stages

/-- When a translation succeeds, every block that states a lemma is named by the lemma's rank and
    cites what its citations stand for. A numbered lemma among these has the smaller rank exactly
    when an earlier line put it on record. -/
theorem Translation.cited_before_iff {text : Text} {o : Options} {t : Translation}
    (h : (ofTranscript text o).2 = .ok t) : ∃ st : Stages text o, t.document = st.document ∧
      ∀ name statement proof, .auxiliary name statement proof ∈ st.script.blocks →
        ∃ key record, st.records.lemmas.get? key = some record ∧ key ∈ st.records.numbered ∧
          name = Naming.lemmaName (st.records.rank key) ∧
          List.Forall₂
            (fun token cited => (∀ context, st.naming.resolve token context = .ok cited) ∧
              (token ∈ st.records.numbered →
                cited = Naming.lemmaName (st.records.rank token) ∧
                ∃ m n, Scanner.firstLine? (lines text) token = some m ∧
                  Scanner.firstLine? (lines text) key = some n ∧
                  (st.records.rank token < st.records.rank key ↔ m < n)))
            (st.records.citations record) proof.names := by
  obtain ⟨st, document⟩ := Stages.exists_of_ofTranscript h
  refine ⟨st, document, ?_⟩
  intro name statement proof mem
  obtain ⟨l, among, made⟩ := st.exists_lemma_of_block mem
  obtain ⟨key, record, found, resolved⟩ := st.exists_source among
  obtain ⟨other, named, -⟩ := Block.ofLemma_auxiliary made
  have cites := st.names_of_block found resolved made
  obtain ⟨own, dependencies, ownName, -, rfl⟩ := Naming.resolveLemma_ok_iff.mp resolved
  have filed := (st.coherent.lemmas key record found).name
  have isKey : key ∈ st.records.lemmas.keys := Registry.mem_keys_iff.mpr ⟨record, found⟩
  dsimp only at other named
  rw [filed] at other ownName
  have numbered : key ∈ st.records.numbered := st.records.mem_numbered.mpr ⟨isKey, other⟩
  refine ⟨key, record, found, numbered, ?_, cites.imp ?_⟩
  · rw [named, ← st.records.canonicalName_of_numbered numbered]
    exact Except.ok.inj (ownName.symm.trans (st.isFinal.resolve_lemma isKey none))
  · intro token cited stands
    refine ⟨stands, fun isNumbered => ⟨?_, Records.rank_lt_iff st.scanned isNumbered numbered⟩⟩
    rw [← st.records.canonicalName_of_numbered isNumbered]
    have isLemma := (st.records.mem_numbered.mp isNumbered).1
    exact Except.ok.inj ((stands none).symm.trans (st.isFinal.resolve_lemma isLemma none))

/-! ## A lemma that is proved from a later one -/

/-- A transcript that declares two lemmas and proves the first from the second. -/
def Translation.provedFromLater : Text := joinLines
  [ lit "fof(h,axiom,X=X).",
    lit "fof(g,conjecture,X=X).",
    lit "% single_lemma_1: X = X",
    lit "% single_lemma_2: X = X",
    Event.proofMarker,
    lit "Lemma 1 (single_lemma_1): X = X",
    lit "X",
    lit "= \x7b by axiom 1 (single_lemma_2) \x7d",
    lit "X" ]

/-- The name that a block states and the names that it cites. -/
def Block.stated? : Block → Option (Text × List Text)
  | .auxiliary name _ proof => some (name, proof.names)
  | .goal _ _ => none

theorem Block.exists_of_stated? {blocks : List Block} {name : Text} {cited : List Text}
    (h : (name, cited) ∈ blocks.filterMap stated?) :
    ∃ statement proof, .auxiliary name statement proof ∈ blocks ∧ proof.names = cited := by
  obtain ⟨block, mem, stated⟩ := List.mem_filterMap.mp h
  cases block with
  | auxiliary name statement proof =>
      cases stated
      exact ⟨statement, proof, mem, rfl⟩
  | goal vars proof => cases stated

theorem Translation.provedFromLater_evaluated :
    (ofTranscript provedFromLater Options.standard).2.isOk = true ∧
    (script? provedFromLater Options.standard).map (·.blocks.filterMap Block.stated?) =
      some [(Naming.lemmaName 1, [Naming.lemmaName 2]), (Naming.lemmaName 2, [])] := by
  decide +kernel

theorem Translation.block_of_provedFromLater (st : Stages provedFromLater Options.standard) :
    ∃ statement proof, .auxiliary (Naming.lemmaName 1) statement proof ∈ st.script.blocks ∧
      proof.names = [Naming.lemmaName 2] := by
  have all : st.script.blocks.filterMap Block.stated? =
      [(Naming.lemmaName 1, [Naming.lemmaName 2]), (Naming.lemmaName 2, [])] :=
    st.eq_of_evaluated provedFromLater_evaluated.2
  apply Block.exists_of_stated?
  rw [all]
  exact List.mem_cons_self

/-- In that transcript the rank of the cited lemma is the greater, as is its first line. -/
theorem Translation.cited_before_iff_provedFromLater :
    ∃ st : Stages provedFromLater Options.standard, ∃ statement proof,
      .auxiliary (Naming.lemmaName 1) statement proof ∈ st.script.blocks ∧
      proof.names = [Naming.lemmaName 2] ∧
      ∃ key record, st.records.lemmas.get? key = some record ∧ st.records.rank key = 1 ∧
        List.Forall₂
          (fun token cited => token ∈ st.records.numbered →
            cited = Naming.lemmaName (st.records.rank token) ∧
            ∃ m n, Scanner.firstLine? (lines provedFromLater) token = some m ∧
              Scanner.firstLine? (lines provedFromLater) key = some n ∧
              (st.records.rank token < st.records.rank key ↔ m < n))
          (st.records.citations record) [Naming.lemmaName 2] := by
  obtain ⟨t, translated⟩ := isOk_iff.mp provedFromLater_evaluated.1
  obtain ⟨st, -, ordered⟩ := cited_before_iff translated
  obtain ⟨statement, proof, mem, names⟩ := block_of_provedFromLater st
  obtain ⟨key, record, found, -, named, cites⟩ := ordered _ _ _ mem
  rw [names] at cites
  exact ⟨st, statement, proof, mem, names, key, record, found,
    (Naming.lemmaName_injective named).symm, cites.imp fun _ _ both => both.2⟩

/-- The tokens that a line cites in a proof, or hints at in a declaration. -/
def Event.citedOn (rawLine : Text) : List Text :=
  let hints := match lemmaLine? (trim rawLine) with
    | some (.lemmaStated _ _ hints) => hints
    | _ => []
  Dependency.references (trim rawLine) ++ Dependency.mentions (trim rawLine) ++ hints

/-- A lemma's block can cite a later one although every line cites only lemmas that earlier lines
    put on record. -/
theorem Translation.cited_later :
    ¬ ∀ (text : Text) (o : Options) (t : Translation), (ofTranscript text o).2 = .ok t →
      (∀ rawLine n, (rawLine, n) ∈ (lines text).zipIdx 1 → ∀ token ∈ Event.citedOn rawLine,
        ∀ m, Scanner.firstLine? (lines text) token = some m → m < n) →
      ∀ (st : Stages text o) (j k : Nat) (statement : Statement) (proof : Proof),
        .auxiliary (Naming.lemmaName j) statement proof ∈ st.script.blocks →
        Naming.lemmaName k ∈ proof.names → k < j := by
  intro claimed
  obtain ⟨t, translated⟩ := isOk_iff.mp provedFromLater_evaluated.1
  obtain ⟨st, -⟩ := Stages.exists_of_ofTranscript translated
  obtain ⟨statement, proof, mem, names⟩ := block_of_provedFromLater st
  have citing : ∀ entry ∈ (lines provedFromLater).zipIdx 1, ∀ token ∈ Event.citedOn entry.1,
      token ∈ Scanner.lemmasAfter ((lines provedFromLater).take 4) ∧ 4 < entry.2 := by
    decide +kernel
  have earlier : ∀ rawLine n, (rawLine, n) ∈ (lines provedFromLater).zipIdx 1 →
      ∀ token ∈ Event.citedOn rawLine, ∀ m,
      Scanner.firstLine? (lines provedFromLater) token = some m → m < n := by
    intro rawLine n line token cited m first
    obtain ⟨known, late⟩ := citing (rawLine, n) line token cited
    have clear := (Scanner.firstLine?_eq_some_iff.mp first).2.2 4
    have soon : ¬ 4 < m := fun later => clear later known
    exact Nat.lt_of_le_of_lt (Nat.not_lt.mp soon) late
  have less := claimed _ _ t translated earlier st 1 2 statement proof mem
    (by simp [names])
  exact absurd less (by decide)

end MagmaTrace
