import MagmaTrace.Proofs.Closing
import MagmaTrace.Proofs.Stability
import MagmaTrace.Proofs.Wording

/-! # What a translation reports

Axioms and lemmas are named, written and reported in different passes over the same records. All
of them follow the same two sequences, the sorted tokens of the retained axioms and the lemmas in
the order of their discovery, so that what is reported is what the text says
(`Translation.describes_document`).
-/

namespace MagmaTrace

open Text

/-- Members that are all different are told with their places by their indices. -/
theorem zipIdx_of_nodup {α : Type} [BEq α] [LawfulBEq α] {xs : List α} (distinct : xs.Nodup)
    (start : Nat) : xs.zipIdx start = xs.map fun x => (x, start + xs.idxOf x) := by
  apply List.ext_getElem
  · simp
  · intro place _ within
    simp [distinct.idxOf_getElem]

namespace Naming

/-! ## Entries -/

/-- An axiom that is retained for a token at a place: it is named by the place, and says what is
    declared under the token. -/
def RetainedAt (axioms : Registry Text AxiomRecord) (place : Text × Nat) (a : RetainedAxiom) :
    Prop :=
  ∃ record, axioms.get? place.1 = some record ∧
    a = ⟨place.1, axiomName place.2, record.expression⟩

theorem retainedAt_of_retainFrom {n n' : Naming} {axioms : Registry Text AxiomRecord} {rank : Nat}
    {tokens : List Text} {retained : List RetainedAxiom}
    (h : n.retainFrom axioms rank tokens = (n', .ok retained)) :
    List.Forall₂ (RetainedAt axioms) (tokens.zipIdx rank) retained := by
  induction tokens generalizing n rank retained with
  | nil =>
      cases h
      exact .nil
  | cons token rest ih =>
      obtain ⟨record, more, declared, rfl, later⟩ := retainFrom_cons_ok h
      exact .cons ⟨record, declared, rfl⟩ (ih later)

/-- New tokens are entered in order, under the names of their places. -/
theorem entries_retainFrom {n n' : Naming} {axioms : Registry Text AxiomRecord} {rank : Nat}
    {tokens : List Text} {retained : List RetainedAxiom}
    (h : n.retainFrom axioms rank tokens = (n', .ok retained))
    (distinct : (n.axioms.keys ++ tokens).Nodup) : n'.axioms.entries =
      n.axioms.entries ++ (tokens.zipIdx rank).map fun place => (place.1, axiomName place.2) := by
  induction tokens generalizing n rank retained with
  | nil =>
      cases h
      exact (List.append_nil _).symm
  | cons token rest ih =>
      obtain ⟨record, more, declared, rfl, later⟩ := retainFrom_cons_ok h
      obtain ⟨keys, entries⟩ := n.axioms.insert_of_distinct distinct (axiomName rank)
      rw [ih later (by rw [keys]; simpa using distinct), entries, List.append_assoc]
      rfl

theorem keys_renumberFrom (n : Naming) (records : Records) (rank : Nat) {names : List Text}
    (distinct : (n.lemmas.keys ++ names).Nodup) :
    (n.renumberFrom records rank names).lemmas.keys = n.lemmas.keys ++ names := by
  induction names generalizing n rank with
  | nil => exact (List.append_nil _).symm
  | cons name rest ih =>
      have keys (value : Text) : (n.lemmas.insert name value).keys = n.lemmas.keys ++ [name] :=
        (n.lemmas.insert_of_distinct distinct value).1
      unfold renumberFrom
      split
      · rw [ih _ _ (by rw [keys]; simpa using distinct), keys, List.append_assoc]
        rfl
      · rw [ih _ _ (by rw [keys]; simpa using distinct), keys, List.append_assoc]
        rfl

/-- The axioms retained for some tokens are named one after the other. -/
theorem names_of_retainedAt {axioms : Registry Text AxiomRecord} {tokens : List Text}
    {retained : List RetainedAxiom}
    (h : List.Forall₂ (RetainedAt axioms) (tokens.zipIdx 1) retained) : retained.map (·.name) =
      (List.range (retained.map (·.name)).length).map fun place => axiomName (place + 1) := by
  have named : retained.map (·.name) = ((tokens.zipIdx 1).map (·.2)).map axiomName := by
    rw [List.map_map, eq_comm]
    refine map_eq_map_of_forall₂ (h.imp ?_)
    rintro place a ⟨record, -, rfl⟩
    rfl
  rw [named, List.zipIdx_map_snd, List.length_map, List.length_range', List.range'_eq_map_range,
    List.map_map]
  exact List.map_congr_left fun place _ => congrArg axiomName (Nat.add_comm 1 place)

section

variable {hypothesis : Text} {records : Records} {n : Naming} {r : Resolution}

theorem nodup_candidates (used : records.used.Nodup) : (candidates records).Nodup :=
  ((List.mergeSort_perm records.used _).nodup_iff.mpr used).filter _

/-- All lemmas are entered under their names in the script, and nothing else is. -/
theorem entries_renumber {kept : Naming} (records : Records) (none : kept.lemmas.keys = []) :
    (kept.renumber records).lemmas.entries =
      records.lemmas.keys.map fun key => (key, records.canonicalName key) := by
  have keys : (kept.renumber records).lemmas.keys = records.lemmas.keys := by
    have all : (kept.lemmas.keys ++ records.lemmas.keys).Nodup := by
      rw [none]
      exact records.lemmas.keys_nodup
    rw [renumber, keys_renumberFrom kept records 1 all, none, List.nil_append]
  rw [← keys]
  refine Registry.entries_eq_map_keys fun key mem => ?_
  rw [get?_renumber, if_pos (keys ▸ mem)]

/-- The retained axioms are those of the candidates, and the entries are those of the retained
    axioms and then those of the lemmas. -/
theorem entries_of_finalize (used : records.used.Nodup)
    (h : (initial hypothesis).finalize records = (n, .ok r)) :
    List.Forall₂ (RetainedAt records.axioms) ((candidates records).zipIdx 1) r.axioms ∧
    r.mapping.entries =
      ((candidates records).zipIdx 1).map (fun place => (place.1, axiomName place.2)) ++
        records.lemmas.keys.map fun key => (key, records.canonicalName key) := by
  obtain ⟨kept, retention, rfl, mapping, -⟩ := parts_of_finalize h
  refine ⟨retainedAt_of_retainFrom retention, ?_⟩
  have noLemmas : kept.lemmas.keys = [] := by
    rw [(retainFrom_frame retention).2.1]
    rfl
  have axioms : kept.axioms.entries =
      ((candidates records).zipIdx 1).map fun place => (place.1, axiomName place.2) :=
    entries_retainFrom retention (nodup_candidates used)
  have lemmas := entries_renumber records noLemmas
  have sameAxioms := (renumberFrom_frame kept records 1 records.lemmas.keys).2.1
  rw [mapping, Naming.mapping, renumber, sameAxioms, ← renumber, Registry.entries_insertAll,
    axioms, lemmas]
  have tokens : (((candidates records).zipIdx 1).map fun place =>
      (place.1, axiomName place.2)).map (·.1) = candidates records := by
    rw [List.map_map]
    exact List.zipIdx_map_fst 1 _
  have keys : (records.lemmas.keys.map fun key => (key, records.canonicalName key)).map (·.1) =
      records.lemmas.keys := by
    rw [List.map_map]
    exact List.map_id _
  rw [axioms, lemmas, tokens, keys, List.nodup_append]
  refine ⟨nodup_candidates used, records.lemmas.keys_nodup, ?_⟩
  rintro token mem key filed rfl
  exact (mem_candidates.mp mem).2.2 filed

end

end Naming

namespace Translation

namespace Stages

variable {text : Text} {o : Options}

/-! ## Blocks -/

/-- The text of a recorded lemma's proof: the chain of the proof that is stored under its name, if
    one is, and else a citation of what it depends on. -/
inductive ProvedBy (st : Stages text o) (record : LemmaRecord) : Text → Prop where
  | chained {block : ProofBlock} {steps : List CalcStep} {proof : Text}
      (stored : st.records.proofs.get? record.name = some block)
      (built : CalcStep.ofBlock (Renaming.scope record.expression) st.naming block = .ok steps)
      (written : IsCalc o steps proof) : ProvedBy st record proof
  | cited {names : List Text} {proof : Text}
      (unproved : st.records.proofs.get? record.name = none)
      (resolved : List.Forall₂
        (fun d name => st.naming.resolveDependency d
          (some (Naming.dependencyContext record)) = .ok name)
        record.dependencies names)
      (written : IsCitation o names proof) : ProvedBy st record proof

/-- A proof that is stored is used. -/
theorem ProvedBy.exists_calc {st : Stages text o} {record : LemmaRecord} {proof : Text}
    (h : st.ProvedBy record proof) (stored : record.name ∈ st.records.proofs.keys) :
    ∃ steps, IsCalc o steps proof := by
  cases h with
  | chained _ _ written => exact ⟨_, written⟩
  | cited unproved =>
      obtain ⟨block, found⟩ := Registry.mem_keys_iff.mp stored
      rw [found] at unproved
      cases unproved

theorem ProvedBy.exists_citation {st : Stages text o} {record : LemmaRecord} {proof : Text}
    (h : st.ProvedBy record proof) (none : record.name ∉ st.records.proofs.keys) :
    ∃ names, names.length = record.dependencies.length ∧ IsCitation o names proof := by
  cases h with
  | chained stored => exact absurd (Registry.mem_keys_iff.mpr ⟨_, stored⟩) none
  | cited _ resolved written => exact ⟨_, resolved.length_eq.symm, written⟩

/-- A block states a recorded lemma under the name of its place. -/
inductive States (st : Stages text o) : Text × Nat → Text → Prop where
  | intro {key : Text} {place : Nat} {record : LemmaRecord} {proof block : Text}
      (found : st.records.lemmas.get? key = some record) (proved : st.ProvedBy record proof)
      (written : record.expression.IsHave o (lit "lemma_" ++ decimal place) proof block) :
      States st (key, place) block

/-- A block proves the goal by a lemma that is recorded under the conjecture's name. -/
inductive Proves (st : Stages text o) : Text → Text → Prop where
  | intro {key : Text} {record : LemmaRecord} {proof block : Text}
      (found : st.records.lemmas.get? key = some record) (proved : st.ProvedBy record proof)
      (written : record.expression.IsShow proof block) : Proves st key block

/-- Each lemma that goes by the name of the conjecture proves the goal. If there is none, the goal
    is that of the declared formula, and is proved from everything at hand. -/
inductive Closes (st : Stages text o) : List Text → Prop where
  | byLemmas {shows : List Text} (some : st.records.goals ≠ [])
      (each : List.Forall₂ st.Proves st.records.goals shows) : Closes st shows
  | byAll {e : Expression} {proof block : Text} (none : st.records.goals = [])
      (declares : Expression.ofFormula st.conjecture.formula = .ok e)
      (cites : IsCitation o [] proof) (written : e.IsShow proof block) : Closes st [block]

/-- A resolved lemma is one that is recorded, and has the block of its kind. -/
theorem exists_record_of_ofLemma (st : Stages text o) {l : ResolvedLemma}
    (mem : l ∈ st.resolution.lemmas) {b : Block} (made : Block.ofLemma st.naming l = .ok b) :
    ∃ record proof, st.records.lemmas.get? l.sourceName = some record ∧
      st.ProvedBy record (proof.write o) ∧
      b = if l.isConjecture then .goal (Statement.ofExpression record.expression).vars proof
        else .auxiliary (st.records.canonicalName l.sourceName)
          (Statement.ofExpression record.expression) proof := by
  obtain ⟨key, record, found, resolved⟩ := st.exists_source mem
  have filed := (st.coherent.lemmas key record found).name
  have known : key ∈ st.records.lemmas.keys := Registry.mem_keys_iff.mpr ⟨record, found⟩
  obtain ⟨name, dependencies, named, cited, rfl⟩ := Naming.resolveLemma_ok_iff.mp resolved
  rw [filed, st.isFinal.resolve_lemma known] at named
  cases named
  obtain ⟨proof, source, rfl⟩ := Block.ofLemma_ok_iff.mp made
  refine ⟨record, proof, filed ▸ found, ?_, by simp only [filed]⟩
  obtain ⟨block, steps, stored, built, rfl⟩ | ⟨unproved, rfl⟩ := source
  · exact .chained stored built (isCalc_iff.mpr rfl)
  · exact .cited unproved cited (isCitation_iff.mpr rfl)

theorem map_sourceName_numbered (st : Stages text o) :
    (st.resolution.lemmas.filter (!·.isConjecture)).map (·.sourceName) = st.records.numbered := by
  rw [List.filter_congr fun l mem => congrArg Bool.not (st.isConjecture_eq mem), Records.numbered,
    ← st.map_sourceName, List.filter_map]
  rfl

theorem states_of_ofLemma (st : Stages text o) {l : ResolvedLemma}
    (mem : l ∈ st.resolution.lemmas.filter (!·.isConjecture)) {b : Block}
    (made : Block.ofLemma st.naming l = .ok b) :
    st.States (l.sourceName, st.records.rank l.sourceName) (b.write o) := by
  have numbered : l.sourceName ∈ st.records.numbered := by
    rw [← st.map_sourceName_numbered]
    exact List.mem_map_of_mem mem
  obtain ⟨among, stated⟩ := List.mem_filter.mp mem
  have auxiliary : l.isConjecture = false := by simpa using stated
  obtain ⟨record, proof, found, proved, rfl⟩ := st.exists_record_of_ofLemma among made
  rw [auxiliary, st.records.canonicalName_of_numbered numbered]
  exact .intro found proved (Expression.isHave_iff.mpr rfl)

theorem proves_of_ofLemma (st : Stages text o) {l : ResolvedLemma}
    (mem : l ∈ st.resolution.lemmas.filter (·.isConjecture)) {b : Block}
    (made : Block.ofLemma st.naming l = .ok b) : st.Proves l.sourceName (b.write o) := by
  obtain ⟨among, isGoal⟩ := List.mem_filter.mp mem
  obtain ⟨record, proof, found, proved, rfl⟩ := st.exists_record_of_ofLemma among made
  rw [isGoal]
  exact .intro found proved (Expression.isShow_iff.mpr rfl)

/-- The lemmas that are stated have the blocks of their places. -/
theorem states_haves (st : Stages text o) {haves : List Block}
    (stated : List.Forall₂ (fun l b => Block.ofLemma st.naming l = .ok b)
      (st.resolution.lemmas.filter (!·.isConjecture)) haves) :
    List.Forall₂ st.States (st.records.numbered.zipIdx 1) (haves.map (Block.write o)) := by
  have places : st.records.numbered.zipIdx 1 = (st.resolution.lemmas.filter (!·.isConjecture)).map
      fun l => (l.sourceName, st.records.rank l.sourceName) := by
    rw [zipIdx_of_nodup st.records.nodup_numbered]
    nth_rewrite 2 [← st.map_sourceName_numbered]
    rw [List.map_map]
    exact List.map_congr_left fun l _ => Prod.ext rfl (Nat.add_comm 1 _)
  rw [places, List.forall₂_map_left_iff, List.forall₂_map_right_iff]
  refine ((List.forall₂_and_left _ _).mpr ⟨fun l mem => mem, stated⟩).imp ?_
  rintro l b ⟨mem, made⟩
  exact st.states_of_ofLemma mem made

theorem closes_shows (st : Stages text o) {shows closing : List Block}
    (proved : List.Forall₂ (fun l b => Block.ofLemma st.naming l = .ok b)
      (st.resolution.lemmas.filter (·.isConjecture)) shows)
    (closed : Script.closing st.conjecture st.resolution.lemmas = .ok closing) :
    st.Closes ((shows ++ closing).map (Block.write o)) := by
  have goals := st.map_sourceName_goals
  obtain ⟨some, rfl⟩ | ⟨none, law, states, rfl⟩ := Script.closing_ok_iff.mp closed
  · refine .byLemmas (by rwa [← goals, Ne, List.map_eq_nil_iff]) ?_
    rw [← goals, List.append_nil, List.forall₂_map_left_iff, List.forall₂_map_right_iff]
    refine ((List.forall₂_and_left _ _).mpr ⟨fun l mem => mem, proved⟩).imp ?_
    rintro l b ⟨mem, made⟩
    exact st.proves_of_ofLemma mem made
  · obtain ⟨e, parsed, rfl⟩ := Law.ofDeclaration_ok_iff.mp states
    rw [none, List.forall₂_nil_left_iff] at proved
    subst proved
    exact .byAll (by rw [← goals, none]; rfl) parsed (isCitation_iff.mpr rfl)
      (Expression.isShow_iff.mpr rfl)

/-- A block states, as the axiom of a place, what is declared inline under a token. -/
inductive StatesAxiom (st : Stages text o) : Text × Nat → Text → Prop where
  | intro {token : Text} {place : Nat} {record : AxiomRecord} {block : Text}
      (declared : st.records.axioms.get? token = some record)
      (written : record.expression.IsAxiom o (lit "axiom" ++ decimal place) block) :
      StatesAxiom st (token, place) block

/-- A block defines the law that a formula declares. -/
def Defines (d : Declaration) (block : Text) : Prop :=
  ∃ e, Expression.ofFormula d.formula = .ok e ∧ e.IsLaw d.name block

/-! ## Text and report -/

/-- What a translation reports is what its text says, block by block. -/
structure Describes (st : Stages text o) (t : Translation) (axioms haves shows : List Text) :
    Prop where
  /-- Between the definitions of the two laws there are the axioms, and after them the theorem with
      its blocks. -/
  document : ∃ hypothesis conjecture, Defines st.hypothesis hypothesis ∧
    Defines st.conjecture conjecture ∧
    t.document = joinLines ([Template.preamble, hypothesis] ++ axioms ++ [conjecture,
      lit "theorem Equation_" ++ st.hypothesis.name ++ lit "_implies_Equation_" ++
        st.conjecture.name ++ lit " (G : Type _) [Magma G]\n    (" ++ o.hypothesisName ++
        lit " : Equation_" ++ st.hypothesis.name ++ lit " G) : Equation_" ++ st.conjecture.name ++
        lit " G :=\n" ++ joinLines (haves ++ shows)])
  retained : t.retainedAxioms =
    (List.range axioms.length).map fun place => lit "axiom" ++ decimal (place + 1)
  increasing : (Naming.candidates st.records).Pairwise (· < ·)
  axioms : List.Forall₂ st.StatesAxiom ((Naming.candidates st.records).zipIdx 1) axioms
  counted : haves.length = t.lemmaCount
  haves : List.Forall₂ st.States (st.records.numbered.zipIdx 1) haves
  shows : st.Closes shows
  /-- Each retained axiom has an entry, and then each lemma; the conjecture's are their own. -/
  mapping : t.mapping.entries =
    ((Naming.candidates st.records).zipIdx 1).map
        (fun place => (place.1, lit "axiom" ++ decimal place.2)) ++
      st.records.lemmas.keys.map fun key =>
        (key, if st.records.isConjectureName key then key
          else lit "lemma_" ++ decimal (st.records.rank key))
  apart : ∀ token ∈ Naming.candidates st.records, token ∉ st.records.lemmas.keys

/-- The text of a script, from the definitions of its laws. -/
theorem exists_document (st : Stages text o) : ∃ hypothesis conjecture,
    Defines st.hypothesis hypothesis ∧ Defines st.conjecture conjecture ∧
    st.document = joinLines ([Template.preamble, hypothesis] ++
      st.script.axioms.map (Law.writeAxiom o) ++ [conjecture,
        Template.theoremHeader st.hypothesis.name st.conjecture.name o.hypothesisName ++
          joinLines (st.script.blocks.map (Block.write o))]) := by
  obtain ⟨_, _, -, -, given, concluded, states, claims, script⟩ :=
    Script.assemble_ok_iff.mp st.assembled
  obtain ⟨e, parsed, rfl⟩ := Law.ofDeclaration_ok_iff.mp states
  obtain ⟨f, parsed', rfl⟩ := Law.ofDeclaration_ok_iff.mp claims
  refine ⟨_, _, ⟨e, parsed, Expression.isLaw_iff.mpr rfl⟩,
    ⟨f, parsed', Expression.isLaw_iff.mpr rfl⟩, ?_⟩
  rw [document, script]
  rfl

/-- The retained axioms are named one after the other. -/
theorem names_axioms (st : Stages text o) : st.resolution.axioms.map (·.name) =
    (List.range st.resolution.axioms.length).map fun place => Naming.axiomName (place + 1) := by
  have used := (Records.wellFiled_of_ofTranscript st.scanned).used
  have named := Naming.names_of_retainedAt (Naming.entries_of_finalize used st.resolved).1
  rwa [List.length_map] at named

theorem states_axioms (st : Stages text o) :
    List.Forall₂ st.StatesAxiom ((Naming.candidates st.records).zipIdx 1)
      (st.script.axioms.map (Law.writeAxiom o)) := by
  have used := (Records.wellFiled_of_ofTranscript st.scanned).used
  obtain ⟨retained, -⟩ := Naming.entries_of_finalize used st.resolved
  rw [st.axioms_eq, List.map_map, List.forall₂_map_right_iff]
  refine retained.imp ?_
  rintro ⟨token, place⟩ a ⟨record, declared, rfl⟩
  exact .intro declared ((Expression.isAxiom_iff ⟨_, _, _⟩).mpr rfl)

theorem exists_describes (st : Stages text o) :
    ∃ axioms haves shows, st.Describes st.translation axioms haves shows := by
  obtain ⟨haves, shows, closing, blocks, stated, proved, closed⟩ := st.exists_parts
  obtain ⟨hypothesis, conjecture, defines, defines', document⟩ := st.exists_document
  have used := (Records.wellFiled_of_ofTranscript st.scanned).used
  rw [blocks, List.map_append, Template.theoremHeader_eq] at document
  refine ⟨st.script.axioms.map (Law.writeAxiom o), haves.map (Block.write o),
    (shows ++ closing).map (Block.write o), ?_⟩
  exact
    { document := ⟨hypothesis, conjecture, defines, defines', document⟩
      retained := by
        rw [List.length_map, st.axioms_eq, List.length_map]
        exact st.names_axioms
      increasing := (pairwise_lt_sort used).filter _
      axioms := st.states_axioms
      counted := by
        rw [List.length_map]
        exact stated.length_eq.symm
      haves := st.states_haves stated
      shows := st.closes_shows proved closed
      mapping := (Naming.entries_of_finalize used st.resolved).2
      apart := fun token mem => (Naming.mem_candidates.mp mem).2.2 }

end Stages

/-- When a translation succeeds, its text and what it reports describe the same statements. -/
theorem describes_document {text : Text} {o : Options} {t : Translation}
    (h : (ofTranscript text o).2 = .ok t) :
    ∃ (st : Stages text o) (axioms haves shows : List Text), st.Describes t axioms haves shows := by
  obtain ⟨st, rfl⟩ := Stages.exists_eq_translation h
  exact ⟨st, st.exists_describes⟩

/-- A transcript with a lemma on each side of its goal, of which only the first is proved, from an
    axiom. -/
def goalBetween : Text := joinLines
  [ lit "fof(h,axiom,X=X).",
    lit "fof(g,conjecture,X=X).",
    lit "Axiom 1 (single_lemma_3): op(X,X) = X.",
    Event.proofMarker,
    lit "Lemma 1: X = X",
    lit "X",
    lit "= \x7b by axiom 1 (single_lemma_3) \x7d",
    lit "X",
    lit "Goal 1: X = X",
    lit "X",
    lit "= \x7b by lemma 1 \x7d",
    lit "X",
    lit "Lemma 2: X = X" ]

theorem goalBetween_evaluated :
    (ofTranscript goalBetween Options.standard).2.toOption.map (fun t =>
      (t.retainedAxioms, t.lemmaCount, t.mapping.entries)) =
      some ([lit "axiom1"], 2, [(lit "single_lemma_3", lit "axiom1"),
        (lit "Lemma_1", lit "lemma_1"), (lit "g", lit "g"), (lit "Lemma_2", lit "lemma_2")]) := by
  decide +kernel

/-- The equation of its lemmas and its goal. -/
def reflexivity : Expression := .equation (.var (lit "X")) (.var (lit "X"))

/-- Its axiom. -/
def idempotence : Expression :=
  .equation (.op (.var (lit "X")) (.var (lit "X"))) (.var (lit "X"))

theorem goalBetween_recorded : ∀ r ∈ (Records.ofTranscript goalBetween).toOption,
    (r.numbered = [lit "Lemma_1", lit "Lemma_2"] ∧ r.goals = [lit "g"] ∧
      Naming.candidates r = [lit "single_lemma_3"] ∧ r.proofs.keys = [lit "Lemma_1", lit "g"]) ∧
    r.axioms.values.map (·.expression) = [idempotence] ∧
    r.lemmas.values.map (·.expression) = [reflexivity, reflexivity, reflexivity] ∧
    (r.lemmas.get? (lit "Lemma_2")).map (·.dependencies) = some [] := by
  decide +kernel

theorem reflexivity_written : (Renaming.scope reflexivity).vars = [lit "x0"] ∧
    (Statement.ofExpression reflexivity).body Options.standard.maxLineLength = lit "x0 = x0" := by
  decide +kernel

theorem eq_of_isHave_reflexivity {name proof block : Text}
    (h : reflexivity.IsHave Options.standard name proof block) : block = lit "  have " ++ name ++
      lit " (x0 : G) :\n    x0 = x0 := by\n" ++ proof ++ lit "\n" := by
  obtain ⟨body, written, rfl⟩ := h
  obtain ⟨vars, line⟩ := reflexivity_written
  have same : body = lit "x0 = x0" :=
    ((Expression.isWritten_body_iff (s := .ofExpression reflexivity)).mp written).trans line
  have binder : lit " (x0 : G) :\n    x0 = x0 := by\n" =
      lit " (" ++ lit "x0" ++ lit " : G)" ++ lit " :\n    " ++ lit "x0 = x0" ++
        lit " := by\n" := by
    simp only [← lit_append, String.reduceAppend]
  simp [vars, same, binder, join]

theorem eq_of_isShow_reflexivity {proof block : Text} (h : reflexivity.IsShow proof block) :
    block = lit "  show _ by\n    intros x0\n" ++ proof ++ lit "\n" := by
  have opening : lit "  show _ by\n    intros x0\n" =
      lit "  show _ by\n" ++ (lit "    intros " ++ lit "x0" ++ lit "\n") := by
    simp only [← lit_append, String.reduceAppend]
  rw [h, reflexivity_written.1, opening]
  rfl

theorem goalBetween_first {steps : List CalcStep} {proof block : Text}
    (written : reflexivity.IsHave Options.standard (lit "lemma_" ++ decimal 1) proof block)
    (chained : IsCalc Options.standard steps proof) : ∃ chain, block =
      lit "  have lemma_1 (x0 : G) :\n    x0 = x0 := by\n    calc\n      " ++ chain ++ lit "\n" := by
  have one : decimal 1 = lit "1" := by rw [decimal]; rfl
  have opening : lit "  have lemma_1 (x0 : G) :\n    x0 = x0 := by\n    calc\n      " =
      lit "  have " ++ (lit "lemma_" ++ decimal 1) ++ lit " (x0 : G) :\n    x0 = x0 := by\n" ++
        lit "    calc\n      " := by
    simp only [one, ← lit_append, String.reduceAppend]
  obtain ⟨chain, -, rfl⟩ := chained
  refine ⟨join (lit "\n      ") chain, ?_⟩
  rw [eq_of_isHave_reflexivity written, opening]
  simp only [List.append_assoc]

theorem goalBetween_second {proof block : Text}
    (written : reflexivity.IsHave Options.standard (lit "lemma_" ++ decimal 2) proof block)
    (cited : IsCitation Options.standard [] proof) :
    block = lit "  have lemma_2 (x0 : G) :\n    x0 = x0 := by\n    duper [*]\n" := by
  have two : decimal 2 = lit "2" := by rw [decimal]; rfl
  rw [eq_of_isHave_reflexivity written, cited]
  simp only [two, Options.standard, ← lit_append, String.reduceAppend]
  rfl

theorem goalBetween_goal {steps : List CalcStep} {proof block : Text}
    (written : reflexivity.IsShow proof block) (chained : IsCalc Options.standard steps proof) :
    ∃ chain, block = lit "  show _ by\n    intros x0\n    calc\n      " ++ chain ++ lit "\n" := by
  have opening : lit "  show _ by\n    intros x0\n    calc\n      " =
      lit "  show _ by\n    intros x0\n" ++ lit "    calc\n      " := by
    simp only [← lit_append, String.reduceAppend]
  obtain ⟨chain, -, rfl⟩ := chained
  refine ⟨join (lit "\n      ") chain, ?_⟩
  rw [eq_of_isShow_reflexivity written, opening]
  simp only [List.append_assoc]

/-- One axiom and all three lemmas have names. The text has two lemmas, of which only the first is
    proved by a chain. -/
theorem describes_document_goalBetween :
    ∃ (t : Translation) (st : Stages goalBetween Options.standard)
      (axioms haves shows : List Text), st.Describes t axioms haves shows ∧
      t.retainedAxioms = [lit "axiom1"] ∧ t.lemmaCount = 2 ∧
      t.mapping.entries = [(lit "single_lemma_3", lit "axiom1"), (lit "Lemma_1", lit "lemma_1"),
        (lit "g", lit "g"), (lit "Lemma_2", lit "lemma_2")] ∧
      axioms = [lit "axiom axiom1 (G : Type _) [Magma G] :\n  ∀ x0 : G, (x0 ◇ x0) = x0\n"] ∧
      ∃ chain chain', haves =
        [ lit "  have lemma_1 (x0 : G) :\n    x0 = x0 := by\n    calc\n      " ++ chain ++ lit "\n",
          lit "  have lemma_2 (x0 : G) :\n    x0 = x0 := by\n    duper [*]\n" ] ∧
        shows = [lit "  show _ by\n    intros x0\n    calc\n      " ++ chain' ++ lit "\n"] := by
  obtain ⟨t, translated, report⟩ := Option.map_eq_some_iff.mp goalBetween_evaluated
  simp only [Prod.mk.injEq] at report
  obtain ⟨retained, count, mapping⟩ := report
  obtain ⟨st, axioms, haves, shows, describes⟩ :=
    describes_document (toOption_eq_some_iff.mp translated)
  obtain ⟨⟨numbered, goals, candidates, proofs⟩, ofAxioms, ofLemmas, independent⟩ :=
    goalBetween_recorded st.records (toOption_eq_some_iff.mpr st.scanned)
  have isIdempotence {key : Text} {record : AxiomRecord}
      (found : st.records.axioms.get? key = some record) : record.expression = idempotence := by
    have among := List.mem_map_of_mem (f := (·.expression)) (Registry.mem_values_iff.mpr ⟨key, found⟩)
    rw [ofAxioms] at among
    exact List.mem_singleton.mp among
  have isReflexivity {key : Text} {record : LemmaRecord}
      (found : st.records.lemmas.get? key = some record) : record.expression = reflexivity := by
    have among := List.mem_map_of_mem (f := (·.expression)) (Registry.mem_values_iff.mpr ⟨key, found⟩)
    rw [ofLemmas] at among
    simpa using among
  have filed {key : Text} {record : LemmaRecord}
      (found : st.records.lemmas.get? key = some record) : record.name = key :=
    (st.coherent.lemmas key record found).name
  refine ⟨t, st, axioms, haves, shows, describes, retained, count, mapping, ?_, ?_⟩
  · have stated := describes.axioms
    rw [candidates] at stated
    obtain ⟨block, _, ⟨declared, written⟩, ⟨⟩, rfl⟩ := List.forall₂_cons_left_iff.mp stated
    rw [isIdempotence declared] at written
    rw [(Expression.isAxiom_iff ⟨lit "single_lemma_3", lit "axiom" ++ decimal 1, idempotence⟩).mp
      written]
    decide +kernel
  · have stated := describes.haves
    rw [numbered] at stated
    obtain ⟨one, _, ⟨found, proved, written⟩, rest, rfl⟩ := List.forall₂_cons_left_iff.mp stated
    obtain ⟨two, _, ⟨found', proved', written'⟩, ⟨⟩, rfl⟩ := List.forall₂_cons_left_iff.mp rest
    rw [isReflexivity found] at written
    rw [isReflexivity found'] at written'
    obtain ⟨steps, chained⟩ := proved.exists_calc (by rw [filed found, proofs]; decide)
    obtain ⟨names, few, cited⟩ := proved'.exists_citation (by rw [filed found', proofs]; decide)
    rw [found', Option.map_some, Option.some_inj] at independent
    rw [independent, List.length_nil, List.length_eq_zero_iff] at few
    subst few
    obtain ⟨some, each⟩ | ⟨none⟩ := describes.shows
    · rw [goals] at each
      obtain ⟨last, _, ⟨foundGoal, provedGoal, writtenGoal⟩, ⟨⟩, rfl⟩ :=
        List.forall₂_cons_left_iff.mp each
      rw [isReflexivity foundGoal] at writtenGoal
      obtain ⟨steps', chained'⟩ :=
        provedGoal.exists_calc (by rw [filed foundGoal, proofs]; decide)
      obtain ⟨chain, rfl⟩ := goalBetween_first written chained
      obtain ⟨chain', rfl⟩ := goalBetween_goal writtenGoal chained'
      rw [goalBetween_second written' cited]
      exact ⟨chain, chain', rfl, rfl⟩
    · rw [goals] at none
      cases none

end Translation

end MagmaTrace
