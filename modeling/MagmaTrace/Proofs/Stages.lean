import MagmaTrace.Proofs.Coherence
import MagmaTrace.Proofs.InlineAxioms
import MagmaTrace.Proofs.Names
import MagmaTrace.Translation

/-! # The stages of a translation

A translation succeeds when every stage does, and then its text is the script that the last
stage put together. The records of the first stage are coherent and the names of the third
are given to them, so a lemma is cited under the name of its block.
-/

namespace MagmaTrace

open Text

/-! ## Blocks -/

def Block.proof : Block → Proof
  | auxiliary _ _ proof => proof
  | goal _ proof => proof

/-- A lemma's block is proved by the chain of its proof, or else from what it depends on. -/
theorem Block.ofLemma_ok_iff {n : Naming} {l : ResolvedLemma} {b : Block} :
    Block.ofLemma n l = .ok b ↔ ∃ proof,
      ((∃ block steps, l.proof = some block ∧
        CalcStep.ofBlock (Renaming.scope l.expression) n block = .ok steps ∧ proof = .chain steps) ∨
      (l.proof = none ∧ proof = .citing l.dependencies)) ∧
      (if l.isConjecture then .goal (Statement.ofExpression l.expression).vars proof
        else .auxiliary l.name (Statement.ofExpression l.expression) proof) = b := by
  rcases stored : l.proof with _ | block
  · simp only [Block.ofLemma, stored, bind_ok_iff, pure_ok_iff]
    constructor
    · rintro ⟨proof, rfl, same⟩
      exact ⟨_, .inr ⟨trivial, rfl⟩, same⟩
    · rintro ⟨proof, ⟨_, _, none, -⟩ | ⟨-, rfl⟩, same⟩
      · cases none
      · exact ⟨_, rfl, same⟩
  · simp only [Block.ofLemma, stored, bind_ok_iff, map_ok_iff, pure_ok_iff]
    constructor
    · rintro ⟨proof, ⟨steps, chained, rfl⟩, same⟩
      exact ⟨_, .inl ⟨block, steps, rfl, chained, rfl⟩, same⟩
    · rintro ⟨proof, ⟨_, steps, found, chained, rfl⟩ | ⟨none, -⟩, same⟩
      · cases found
        exact ⟨_, ⟨steps, chained, rfl⟩, same⟩
      · cases none

/-- A script is put together when every lemma has a block and both declarations state laws. -/
theorem Script.assemble_ok_iff {h c : Declaration} {n : Naming} {r : Resolution} {s : Script} :
    assemble h c n r = .ok s ↔ ∃ blocks last,
      List.Forall₂ (fun l b => Block.ofLemma n l = .ok b) (arrange r.lemmas) blocks ∧
      closing c r.lemmas = .ok last ∧
      ∃ hypothesis conjecture, Law.ofDeclaration h = .ok hypothesis ∧
        Law.ofDeclaration c = .ok conjecture ∧
        s = ⟨hypothesis, r.axioms.map (·.law), conjecture, blocks ++ last⟩ := by
  simp only [assemble, bind_ok_iff, pure_ok_iff, mapM_ok_iff, mapError_ok_iff]
  constructor
  · rintro ⟨blocks, made, last, closed, hypothesis, given, conjecture, concluded, rfl⟩
    exact ⟨blocks, last, made, closed, hypothesis, conjecture, given, concluded, rfl⟩
  · rintro ⟨blocks, last, made, closed, hypothesis, conjecture, given, concluded, rfl⟩
    exact ⟨blocks, made, last, closed, hypothesis, given, conjecture, concluded, rfl⟩

/-- A theorem is closed by a block of its own when no lemma proves its conjecture. -/
theorem Script.closing_ok_iff {c : Declaration} {lemmas : List ResolvedLemma} {last : List Block} :
    closing c lemmas = .ok last ↔
      (lemmas.filter (·.isConjecture) ≠ [] ∧ last = []) ∨
      lemmas.filter (·.isConjecture) = [] ∧
        ∃ law, Law.ofDeclaration c = .ok law ∧ last = [.goal law.statement.vars (.citing [])] := by
  unfold closing
  split
  · next proved =>
      have some : lemmas.filter (·.isConjecture) ≠ [] := by simpa using proved
      simp [some, eq_comm]
  · next unproved =>
      have none : lemmas.filter (·.isConjecture) = [] := by simpa using unproved
      simp only [none, bind_ok_iff, pure_ok_iff, ne_eq, not_true, false_and, false_or, true_and]
      simp only [eq_comm]

/-! ## Successful translations -/

namespace Translation

/-- What each stage of a successful translation produced. -/
structure Stages (text : Text) (o : Options) where
  records : Records
  hypothesis : Declaration
  conjecture : Declaration
  naming : Naming
  resolution : Resolution
  script : Script
  scanned : Records.ofTranscript text = .ok records
  declared : Translation.declared records = .ok (hypothesis, conjecture)
  resolved : (Naming.initial o.hypothesisName).finalize records = (naming, .ok resolution)
  assembled : Script.assemble hypothesis conjecture naming resolution = .ok script

/-- The script that a transcript is translated to, if it is. -/
def script? (text : Text) (o : Options) : Option Script := do
  let records ← (Records.ofTranscript text).toOption
  let (hypothesis, conjecture) ← (declared records).toOption
  let (naming, outcome) := (Naming.initial o.hypothesisName).finalize records
  (Script.assemble hypothesis conjecture naming (← outcome.toOption)).toOption

/-- The hypothesis and the conjecture that a transcript declares. -/
def declared? (text : Text) : Option (Declaration × Declaration) := do
  (declared (← (Records.ofTranscript text).toOption)).toOption

/-- The statements of a transcript with the names they are given, if every name is found. -/
def resolution? (text : Text) (o : Options) : Option Resolution := do
  let records ← (Records.ofTranscript text).toOption
  ((Naming.initial o.hypothesisName).finalize records).2.toOption

namespace Stages

variable {text : Text} {o : Options}

def document (st : Stages text o) : Text := st.script.write o

/-- The translation that the stages come to. -/
def translation (st : Stages text o) : Translation where
  document := st.document
  hypothesis := st.hypothesis.name
  conjecture := st.conjecture.name
  lemmaCount := (st.resolution.lemmas.filter (!·.isConjecture)).length
  retainedAxioms := st.resolution.axioms.map (·.name)
  mapping := st.resolution.mapping

theorem exists_eq_translation {t : Translation} (h : (ofTranscript text o).2 = .ok t) :
    ∃ st : Stages text o, t = st.translation := by
  unfold ofTranscript at h
  rcases scanned : Records.ofTranscript text with e | records
  · simp only [scanned] at h
    cases h
  simp only [scanned] at h
  rcases declared : Translation.declared records with e | ⟨hypothesis, conjecture⟩
  · simp only [declared] at h
    cases h
  simp only [declared] at h
  rcases resolved : (Naming.initial o.hypothesisName).finalize records with ⟨naming, e | resolution⟩
  · simp only [resolved] at h
    cases h
  simp only [resolved] at h
  rcases assembled : Script.assemble hypothesis conjecture naming resolution with e | script
  · simp only [assembled] at h
    cases h
  simp only [assembled] at h
  cases h
  exact ⟨⟨records, hypothesis, conjecture, naming, resolution, script, scanned, declared, resolved,
    assembled⟩, rfl⟩

theorem exists_of_ofTranscript {t : Translation} (h : (ofTranscript text o).2 = .ok t) :
    ∃ st : Stages text o, t.document = st.document := by
  obtain ⟨st, rfl⟩ := exists_eq_translation h
  exact ⟨st, rfl⟩

theorem script?_eq (st : Stages text o) : script? text o = some st.script := by
  simp [script?, Except.toOption, st.scanned, st.declared, st.resolved, st.assembled]

theorem declared?_eq (st : Stages text o) :
    declared? text = some (st.hypothesis, st.conjecture) := by
  simp [declared?, Except.toOption, st.scanned, st.declared]

theorem resolution?_eq (st : Stages text o) : resolution? text o = some st.resolution := by
  simp [resolution?, Except.toOption, st.scanned, st.resolved]

/-- What is computed from a transcript's script. -/
theorem eq_of_evaluated {α : Type} {f : Script → α} {a : α} (st : Stages text o)
    (evaluated : (script? text o).map f = some a) : f st.script = a := by
  rw [st.script?_eq] at evaluated
  exact Option.some.inj evaluated

theorem coherent (st : Stages text o) : st.records.Coherent :=
  Records.coherent_of_ofTranscript st.scanned

theorem isFinal (st : Stages text o) :
    st.naming.IsFinal o.hypothesisName st.records st.resolution :=
  Naming.isFinal_of_finalize st.resolved

theorem hypothesis_not_lemma (st : Stages text o) :
    Dependency.hypothesisToken ∉ st.records.lemmas.keys :=
  st.coherent.hypothesis_not_lemma

/-- Every recorded lemma is resolved, under the name by which it is cited. -/
theorem exists_resolved (st : Stages text o) {token : Text} {record : LemmaRecord}
    (found : st.records.lemmas.get? token = some record) : ∃ l ∈ st.resolution.lemmas,
      st.naming.resolveLemma st.records record = .ok l ∧ l.sourceName = token ∧
      l.name = st.records.canonicalName token := by
  have value : record ∈ st.records.lemmas.values := Registry.mem_values_iff.mpr ⟨token, found⟩
  obtain ⟨l, mem, resolved⟩ := exists_of_forall₂_left st.isFinal.resolved value
  have filed := (st.coherent.lemmas token record found).name
  have key : token ∈ st.records.lemmas.keys := Registry.mem_keys_iff.mpr ⟨record, found⟩
  obtain ⟨name, dependencies, named, -, rfl⟩ := Naming.resolveLemma_ok_iff.mp resolved
  rw [filed, st.isFinal.resolve_lemma key] at named
  cases named
  exact ⟨_, mem, resolved, filed, rfl⟩

/-- Every resolved lemma was on record. -/
theorem exists_source (st : Stages text o) {l : ResolvedLemma} (mem : l ∈ st.resolution.lemmas) :
    ∃ key record, st.records.lemmas.get? key = some record ∧
      st.naming.resolveLemma st.records record = .ok l := by
  obtain ⟨record, value, resolved⟩ := exists_of_forall₂_right st.isFinal.resolved mem
  obtain ⟨key, found⟩ := Registry.mem_values_iff.mp value
  exact ⟨key, record, found, resolved⟩

/-- A resolved lemma has the proof that is stored under its name. -/
theorem proof_eq (st : Stages text o) {l : ResolvedLemma} (mem : l ∈ st.resolution.lemmas) :
    l.proof = st.records.proofs.get? l.sourceName := by
  obtain ⟨_, _, -, resolved⟩ := st.exists_source mem
  obtain ⟨_, _, -, -, rfl⟩ := Naming.resolveLemma_ok_iff.mp resolved
  rfl

/-- The blocks of the lemmas that are stated come first, those of the lemmas that prove the
    conjecture after them, and a block that closes the theorem last. -/
theorem exists_parts (st : Stages text o) : ∃ haves shows closing,
    st.script.blocks = haves ++ (shows ++ closing) ∧
    List.Forall₂ (fun l b => Block.ofLemma st.naming l = .ok b)
      (st.resolution.lemmas.filter (!·.isConjecture)) haves ∧
    List.Forall₂ (fun l b => Block.ofLemma st.naming l = .ok b)
      (st.resolution.lemmas.filter (·.isConjecture)) shows ∧
    Script.closing st.conjecture st.resolution.lemmas = .ok closing := by
  obtain ⟨blocks, closing, made, closed, _, _, -, -, same⟩ :=
    Script.assemble_ok_iff.mp st.assembled
  obtain ⟨haves, shows, rfl, stated, proved⟩ := exists_append_of_forall₂ made
  exact ⟨haves, shows, closing, by rw [same, List.append_assoc], stated, proved, closed⟩

/-- Every block is made from a resolved lemma, or closes a theorem whose goal has no block of its
    own. -/
theorem source_of_block (st : Stages text o) {b : Block} (mem : b ∈ st.script.blocks) :
    (∃ l ∈ st.resolution.lemmas, Block.ofLemma st.naming l = .ok b) ∨
      ∃ vars, b = .goal vars (.citing []) := by
  obtain ⟨haves, shows, closing, blocks, stated, proved, closed⟩ := st.exists_parts
  rw [blocks, List.mem_append, List.mem_append] at mem
  rcases mem with states | proves | closes
  · obtain ⟨l, among, ofLemma⟩ := exists_of_forall₂_right stated states
    exact .inl ⟨l, (List.mem_filter.mp among).1, ofLemma⟩
  · obtain ⟨l, among, ofLemma⟩ := exists_of_forall₂_right proved proves
    exact .inl ⟨l, (List.mem_filter.mp among).1, ofLemma⟩
  · obtain ⟨-, rfl⟩ | ⟨-, law, -, rfl⟩ := Script.closing_ok_iff.mp closed
    · cases closes
    · exact .inr ⟨_, List.mem_singleton.mp closes⟩

/-- When one lemma proves the conjecture, its block is the last and the only one of a goal. -/
theorem exists_goal_block (st : Stages text o) {goal : ResolvedLemma}
    (only : st.resolution.lemmas.filter (·.isConjecture) = [goal]) : ∃ earlier proof,
      st.script.blocks =
        earlier ++ [.goal (Statement.ofExpression goal.expression).vars proof] ∧
      (∀ block, goal.proof = some block → ∃ steps, proof = .chain steps ∧
        CalcStep.ofBlock (Renaming.scope goal.expression) st.naming block = .ok steps) ∧
      ∀ b ∈ earlier, ∃ name statement how, b = .auxiliary name statement how := by
  obtain ⟨earlier, shows, closing, blocks, ofOthers, madeLast, closed⟩ := st.exists_parts
  have mem : goal ∈ st.resolution.lemmas.filter (·.isConjecture) := only ▸ List.mem_cons_self
  have proves := (List.mem_filter.mp mem).2
  have nothing : closing = [] := by
    obtain ⟨-, nothing⟩ | ⟨none, -⟩ := Script.closing_ok_iff.mp closed
    · exact nothing
    · rw [only] at none
      cases none
  rw [only] at madeLast
  obtain ⟨b, _, madeGoal, ⟨⟩, rfl⟩ := List.forall₂_cons_left_iff.mp madeLast
  obtain ⟨proof, source, shape⟩ := Block.ofLemma_ok_iff.mp madeGoal
  rw [if_pos proves] at shape
  refine ⟨earlier, proof, by rw [blocks, nothing, shape, List.append_nil], ?_, ?_⟩
  · intro block proved
    obtain ⟨_, steps, stored, built, chained⟩ | ⟨unproved, -⟩ := source
    · rw [proved] at stored
      cases stored
      exact ⟨steps, chained, built⟩
    · rw [proved] at unproved
      cases unproved
  · intro b mem
    obtain ⟨l, other, madeBlock⟩ := exists_of_forall₂_right ofOthers mem
    obtain ⟨how, -, rfl⟩ := Block.ofLemma_ok_iff.mp madeBlock
    have auxiliary : l.isConjecture = false := by simpa using (List.mem_filter.mp other).2
    rw [auxiliary]
    exact ⟨_, _, how, rfl⟩

theorem axioms_eq (st : Stages text o) : st.script.axioms = st.resolution.axioms.map (·.law) := by
  obtain ⟨_, _, -, -, _, _, -, -, same⟩ := Script.assemble_ok_iff.mp st.assembled
  rw [same]

/-- The text of a script ends with its last block, somewhere after the conjecture's law. -/
theorem exists_around_schema (st : Stages text o) {earlier : List Block} {b : Block}
    (blocks : st.script.blocks = earlier ++ [b]) : ∃ before after,
      st.document = before ++ st.script.conjecture.writeSchema ++ after ++ b.write o := by
  obtain ⟨gap, ends⟩ := suffix_join_concat [newline] (b.write o) (earlier.map (Block.write o))
  let front := [Template.preamble, st.script.hypothesis.writeSchema] ++
    st.script.axioms.map (Law.writeAxiom o)
  let header := Template.theoremHeader st.script.hypothesis.name st.script.conjecture.name
    o.hypothesisName
  have nonempty : front ≠ [] := List.append_ne_nil_of_left_ne_nil (List.cons_ne_nil _ _) _
  have parts : st.document = joinLines (front ++ [st.script.conjecture.writeSchema,
    header ++ joinLines (st.script.blocks.map (Block.write o))]) := rfl
  refine ⟨join [newline] front ++ [newline], [newline] ++ (header ++ gap), ?_⟩
  rw [parts, joinLines, join_append nonempty (List.cons_ne_nil _ _),
    join_cons (List.cons_ne_nil _ _), join_singleton, blocks, List.map_append, List.map_singleton,
    joinLines, ← ends]
  simp only [List.append_assoc]

/-- Every axiom of the script stands in its text. -/
theorem axiom_infix_document (st : Stages text o) {law : Law} (mem : law ∈ st.script.axioms) :
    law.writeAxiom o <:+: st.document := by
  unfold document Script.write
  apply infix_join_of_mem
  simp only [List.mem_append, List.mem_map]
  exact .inl (.inr ⟨law, mem, rfl⟩)

end Stages

end Translation

end MagmaTrace
