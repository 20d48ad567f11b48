import MagmaTrace.Proofs.Chaining
import MagmaTrace.Proofs.Outline

/-! # Where inline axioms stand

A line that states an inline axiom may stand anywhere: between the lines of a declaration, or
within a proof. When such lines are moved, the scanner comes to the same outline, the axioms come
in another order, and all other lines get other numbers. Names are given by the outline and by
what each axiom says, and numbers are shown in errors only, so a transcript that is translated is
translated to the same script with the same reports (`Translation.ofTranscript_relocated`).
-/

namespace MagmaTrace

open Text

/-! ## Moved lines -/

/-- One transcript has the lines of another, of which those that state axioms may stand elsewhere,
    in any order; all others are in their order. -/
structure Relocates (transcript transcript' : List Text) : Prop where
  others : transcript'.filter (!Event.isAxiomLine ·) = transcript.filter (!Event.isAxiomLine ·)
  axioms : (transcript'.filter Event.isAxiomLine).Perm (transcript.filter Event.isAxiomLine)

/-- The axioms that some lines state. -/
def axiomsStated (transcript : List Text) : List (Text × Expression) :=
  transcript.filterMap Event.axiomStated?

theorem Event.axiomStated?_eq_none {rawLine : Text} (h : isAxiomLine rawLine = false) :
    axiomStated? rawLine = none := by
  have noAxiom : axiomLine? (trim rawLine) = none := by simpa [isAxiomLine] using h
  simp only [axiomStated?, noAxiom]

theorem axiomsStated_filter (transcript : List Text) :
    axiomsStated (transcript.filter Event.isAxiomLine) = axiomsStated transcript := by
  unfold axiomsStated
  rw [List.filterMap_filter]
  refine List.filterMap_congr fun rawLine _ => ?_
  cases isAxiom : Event.isAxiomLine rawLine with
  | true => rfl
  | false => exact (Event.axiomStated?_eq_none isAxiom).symm

theorem axiomsStated_append_singleton (transcript : List Text) (rawLine : Text) :
    axiomsStated (transcript ++ [rawLine]) =
      axiomsStated transcript ++ (Event.axiomStated? rawLine).toList := by
  unfold axiomsStated
  rw [List.filterMap_append]
  cases stated : Event.axiomStated? rawLine <;> simp [stated]

theorem Relocates.axiomsStated {transcript transcript' : List Text}
    (h : Relocates transcript transcript') :
    (axiomsStated transcript').Perm (axiomsStated transcript) := by
  rw [← axiomsStated_filter transcript', ← axiomsStated_filter transcript]
  exact h.axioms.filterMap _

/-! ## Moved axioms -/

/-- Axioms of distinct names are on record in the order in which they are stated. -/
theorem Scanner.axioms_of_after_distinct {transcript : List Text} {s : Scanner}
    (h : after transcript = .ok s) (distinct : ((axiomsStated transcript).map (·.1)).Nodup) :
    (s.records.axioms.mapValues (·.expression)).entries = axiomsStated transcript := by
  refine after_induction (P := fun transcript s => ((axiomsStated transcript).map (·.1)).Nodup →
    (s.records.axioms.mapValues (·.expression)).entries = axiomsStated transcript)
    (fun _ => rfl) (fun transcript rawLine s s' _ ih fed distinct => ?_) h distinct
  rw [axiomsStated_append_singleton] at distinct ⊢
  rcases reads : Event.axiomLine? (trim rawLine) with _ | event
  · have silent : Event.axiomStated? rawLine = none := by simp only [Event.axiomStated?, reads]
    rw [silent, Option.toList_none, List.append_nil] at distinct ⊢
    rw [axioms_of_feed reads fed]
    exact ih distinct
  · obtain ⟨name, statement, rfl⟩ := Event.eq_axiomStated_of_axiomLine? reads
    cases takes_of_axiomLine? reads fed with
    | @axiomStated _ _ expression means =>
        have stated : Event.axiomStated? rawLine = some (name, expression) := by
          simp [Event.axiomStated?, reads, means, Except.toOption]
        rw [stated, Option.toList_some, List.map_append] at distinct
        obtain ⟨earlier, -, apart⟩ := List.nodup_append.mp distinct
        have before := ih earlier
        have new : name ∉ (s.records.axioms.mapValues (·.expression)).entries.map (·.1) := by
          rw [before]
          exact fun mem => apart name mem name (by simp) rfl
        rw [stated, Option.toList_some, ← before]
        change ((s.records.axioms.insert name _).mapValues _).entries = _
        rw [Registry.insert_mapValues]
        exact Registry.setEntry_of_not_mem new

/-! ## Records of moved lines -/

/-- Two records differ in line numbers and in the order of the axioms at most. -/
structure Records.Alike (r r' : Records) : Prop where
  outline : r'.outline = r.outline
  axioms : (r'.axioms.mapValues (·.expression)).entries.Perm
    (r.axioms.mapValues (·.expression)).entries

theorem Records.exists_alike {text text' : Text} (moved : Relocates (lines text) (lines text'))
    (distinct : ((axiomsStated (lines text)).map (·.1)).Nodup) {r : Records}
    (h : ofTranscript text = .ok r) : ∃ r', ofTranscript text' = .ok r' ∧ r.Alike r' := by
  obtain ⟨s, scanned, rfl⟩ := ofTranscript_ok_iff.mp h
  obtain ⟨wellFormed, others⟩ := Scanner.feedAll_outline_iff.mp ⟨s, scanned, rfl⟩
  rw [← moved.others] at others
  have wellFormed' : ∀ rawLine ∈ (lines text').filter Event.isAxiomLine,
      (Event.axiomStated? rawLine).isSome = true :=
    fun rawLine mem => wellFormed rawLine (moved.axioms.mem_iff.mp mem)
  obtain ⟨s', scanned', same⟩ := Scanner.feedAll_outline_iff.mpr ⟨wellFormed', others⟩
  have distinct' : ((axiomsStated (lines text')).map (·.1)).Nodup :=
    (moved.axiomsStated.map _).nodup_iff.mpr distinct
  refine ⟨_, ofTranscript_ok_iff.mpr ⟨s', scanned', rfl⟩, ?_, ?_⟩
  · have finished : s'.finish.outline = s.finish.outline := by
      rw [Scanner.outline_finish, Scanner.outline_finish, same]
    exact congrArg (·.records) finished
  · change (s'.closeBlock.records.axioms.mapValues _).entries.Perm
      (s.closeBlock.records.axioms.mapValues _).entries
    rw [s.frame_closeBlock.axioms, s'.frame_closeBlock.axioms,
      Scanner.axioms_of_after_distinct scanned distinct,
      Scanner.axioms_of_after_distinct scanned' distinct']
    exact moved.axiomsStated

namespace Records.Alike

variable {r r' : Records} (h : r.Alike r')
include h

theorem get?_axioms (token : Text) :
    (r'.axioms.get? token).map (·.expression) = (r.axioms.get? token).map (·.expression) := by
  rw [← Registry.get?_mapValues, ← Registry.get?_mapValues]
  exact Registry.get?_of_perm h.axioms token

theorem keys_axioms : r'.axioms.keys.Perm r.axioms.keys := by
  rw [← Registry.keys_mapValues AxiomRecord.expression,
    ← Registry.keys_mapValues AxiomRecord.expression]
  exact h.axioms.map _

theorem lemmas :
    r'.lemmas.mapValues LemmaRecord.unplaced = r.lemmas.mapValues LemmaRecord.unplaced :=
  congrArg (·.lemmas) h.outline

theorem proofs : r'.proofs.mapValues ProofBlock.unplaced = r.proofs.mapValues ProofBlock.unplaced :=
  congrArg (·.proofs) h.outline

theorem used : r'.used = r.used := congrArg (·.used) h.outline

theorem keys_lemmas : r'.lemmas.keys = r.lemmas.keys := by
  rw [← Registry.keys_mapValues LemmaRecord.unplaced, h.lemmas, Registry.keys_mapValues]

theorem isConjectureName (name : Text) : r'.isConjectureName name = r.isConjectureName name := by
  rw [← r'.isConjectureName_outline, h.outline, r.isConjectureName_outline]

theorem get?_proofs (name : Text) :
    (r'.proofs.get? name).map ProofBlock.unplaced =
      (r.proofs.get? name).map ProofBlock.unplaced := by
  rw [← Registry.get?_mapValues, h.proofs, Registry.get?_mapValues]

theorem candidates : Naming.candidates r' = Naming.candidates r := by
  unfold Naming.candidates
  rw [h.used]
  simp only [← r'.contains_lemmas_outline, h.outline, r.contains_lemmas_outline]

theorem scannedReport : Translation.scannedReport r' = Translation.scannedReport r := by
  have axiomCount : r'.axioms.size = r.axioms.size := by
    rw [← Registry.size_mapValues AxiomRecord.expression,
      ← Registry.size_mapValues AxiomRecord.expression]
    exact h.axioms.length_eq
  have lemmaCount : r'.lemmas.size = r.lemmas.size := by
    rw [← Registry.size_mapValues LemmaRecord.unplaced, h.lemmas, Registry.size_mapValues]
  have proofCount : r'.proofs.size = r.proofs.size := by
    rw [← Registry.size_mapValues ProofBlock.unplaced, h.proofs, Registry.size_mapValues]
  unfold Translation.scannedReport
  rw [axiomCount, lemmaCount, proofCount]

end Records.Alike

/-! ## The same names -/

def ResolvedLemma.unplaced (l : ResolvedLemma) : ResolvedLemma :=
  { l with proof := l.proof.map .unplaced }

namespace Naming

/-- The same names, with other axioms declared. -/
def redeclare (n : Naming) (declared : List Text) : Naming := { n with declared := declared }

section

variable {n : Naming} {declared : List Text}
  (same : ∀ token, token ∈ declared ↔ token ∈ n.declared)
include same

/-- Of the declared axioms it matters only which they are. -/
theorem resolve_redeclare (token : Text) (context : Option Text) :
    (n.redeclare declared).resolve token context = n.resolve token context := by
  unfold resolve redeclare
  simp only [same]

theorem resolveDependency_redeclare (d : Dependency) (context : Option Text) :
    (n.redeclare declared).resolveDependency d context = n.resolveDependency d context := by
  unfold resolveDependency
  simp only [resolve_redeclare same]
  rfl

end

theorem resolveDependency_context {n : Naming} {d : Dependency} {name : Text}
    {context : Option Text} (h : n.resolveDependency d context = .ok name) (other : Option Text) :
    n.resolveDependency d other = .ok name := by
  unfold resolveDependency at h ⊢
  rcases kind : d.kind with _ | _ | _ | _ | _
  case hypothesis =>
      rw [kind] at h
      exact h
  case mentioned =>
      rw [kind] at h
      dsimp only at h ⊢
      rcases found : n.lemmas.get? d.name with _ | named
      · rw [found] at h
        cases h
      · rw [found] at h
        exact h
  all_goals
      rw [kind] at h
      exact resolve_context h other

/-- Axioms that say the same are retained under the same names, whatever else is declared. -/
theorem retainFrom_alike {axioms axioms' : Registry Text AxiomRecord}
    (same : ∀ token,
      (axioms'.get? token).map (·.expression) = (axioms.get? token).map (·.expression))
    {n n' : Naming} {rank : Nat} {tokens : List Text} {retained : List RetainedAxiom}
    (h : n.retainFrom axioms rank tokens = (n', .ok retained)) (declared : List Text) :
    (n.redeclare declared).retainFrom axioms' rank tokens =
      (n'.redeclare declared, .ok retained) := by
  induction tokens generalizing n rank retained with
  | nil =>
      cases h
      rfl
  | cons token rest ih =>
      obtain ⟨record, more, found, rfl, later⟩ := retainFrom_cons_ok h
      have alike := same token
      rw [found] at alike
      obtain ⟨record', found', states⟩ := Option.map_eq_some_iff.mp alike
      have others : retainFrom { n.redeclare declared with
          axioms := (n.redeclare declared).axioms.insert token (axiomName rank) } axioms' (rank + 1)
          rest = (n'.redeclare declared, .ok more) := ih later
      rw [retainFrom, found']
      dsimp only
      rw [others, states]

theorem renumberFrom_alike {r r' : Records}
    (same : ∀ name, r'.isConjectureName name = r.isConjectureName name) (n : Naming)
    (declared : List Text) (rank : Nat) (names : List Text) :
    (n.redeclare declared).renumberFrom r' rank names =
      (n.renumberFrom r rank names).redeclare declared := by
  induction names generalizing n rank with
  | nil => rfl
  | cons name rest ih =>
      rw [renumberFrom, renumberFrom, same]
      split
      · exact ih { n with lemmas := n.lemmas.insert name name } rank
      · exact ih { n with lemmas := n.lemmas.insert name (lemmaName rank) } (rank + 1)

theorem resolveLemma_alike {r r' : Records} (alike : r.Alike r') {n : Naming} {declared : List Text}
    (same : ∀ token, token ∈ declared ↔ token ∈ n.declared) (record record' : LemmaRecord)
    (l : ResolvedLemma) (sameRecord : record'.unplaced = record.unplaced)
    (h : n.resolveLemma r record = .ok l) :
    ∃ l', (n.redeclare declared).resolveLemma r' record' = .ok l' ∧ l'.unplaced = l.unplaced := by
  obtain ⟨name, dependencies, named, cited, rfl⟩ := resolveLemma_ok_iff.mp h
  obtain ⟨recordName, expression, recorded, line⟩ := record
  obtain ⟨recordName', expression', recorded', line'⟩ := record'
  cases sameRecord
  refine ⟨_, resolveLemma_ok_iff.mpr ⟨name, dependencies, ?_, ?_, rfl⟩, ?_⟩
  · rw [resolve_redeclare same]
    exact named
  · refine cited.imp fun d dependency stands => ?_
    rw [resolveDependency_redeclare same]
    exact resolveDependency_context stands _
  · simp only [ResolvedLemma.unplaced, alike.isConjectureName, alike.get?_proofs]

/-- Alike records are given the same names. -/
theorem finalize_alike {r r' : Records} (alike : r.Alike r') {hypothesis : Text} {n : Naming}
    {resolution : Resolution} (h : (initial hypothesis).finalize r = (n, .ok resolution)) :
    ∃ declared resolution',
      (initial hypothesis).finalize r' = (n.redeclare declared, .ok resolution') ∧
      (∀ token, token ∈ declared ↔ token ∈ n.declared) ∧
      resolution'.axioms = resolution.axioms ∧ resolution'.mapping = resolution.mapping ∧
      resolution'.lemmas.map ResolvedLemma.unplaced =
        resolution.lemmas.map ResolvedLemma.unplaced := by
  obtain ⟨kept, retention, rfl, mapping, resolved⟩ := parts_of_finalize h
  let declared := r'.axioms.keys.foldl addNew []
  have retention' : (initial hypothesis).retain r' =
      (kept.redeclare declared, .ok resolution.axioms) := by
    unfold retain at retention ⊢
    rw [alike.candidates]
    exact retainFrom_alike alike.get?_axioms retention declared
  have renumbered : (kept.redeclare declared).renumber r' =
      (kept.renumber r).redeclare declared := by
    unfold renumber
    rw [alike.keys_lemmas]
    exact renumberFrom_alike alike.isConjectureName ..
  have same : ∀ token, token ∈ declared ↔ token ∈ (kept.renumber r).declared := by
    intro token
    rw [renumber, (renumberFrom_frame kept r 1 r.lemmas.keys).2.2, (retainFrom_frame retention).2.2,
      mem_foldl_addNew, mem_foldl_addNew, alike.keys_axioms.mem_iff]
    rfl
  have values : r'.lemmas.values.map LemmaRecord.unplaced =
      r.lemmas.values.map LemmaRecord.unplaced := by
    rw [← Registry.values_mapValues, alike.lemmas, Registry.values_mapValues]
  obtain ⟨lemmas, resolved', unplaced⟩ :=
    exists_forall₂_of_alike (resolveLemma_alike alike same) resolved values
  refine ⟨declared, ⟨lemmas, resolution.axioms, resolution.mapping⟩, ?_, same, rfl, rfl, unplaced⟩
  simp only [finalize, retention', renumbered, mapM_ok_iff.mpr resolved', mapping]
  rfl

end Naming

/-! ## The same script -/

theorem ProofLine.text_eq {line line' : ProofLine} (h : line'.unplaced = line.unplaced) :
    line'.text = line.text :=
  congrArg (·.text) h

namespace CalcStep

theorem readSide_alike {r : Renaming} {side : Neighbour} {line line' : ProofLine}
    {neighbour neighbour' : Option ProofLine} {text : Text}
    (same : neighbour'.map ProofLine.unplaced = neighbour.map ProofLine.unplaced)
    (h : readSide r side line neighbour = .ok text) :
    readSide r side line' neighbour' = .ok text := by
  have sides : neighbour'.bind side? = neighbour.bind side? := by
    have unplaced (o : Option ProofLine) :
        (o.map ProofLine.unplaced).bind side? = o.bind side? := by
      cases o <;> rfl
    rw [← unplaced neighbour', same, unplaced neighbour]
  rw [readSide_ok_iff] at h ⊢
  rwa [sides]

section

variable {n : Naming} {declared : List Text}
  (same : ∀ token, token ∈ declared ↔ token ∈ n.declared) (o : Options) {r : Renaming}
include same

/-- The same lines with other numbers make the same step, which is not written with its number. -/
theorem ofLines_alike {before before' after after' : Option ProofLine} {line line' : ProofLine}
    {step : CalcStep} (sameBefore : before'.map ProofLine.unplaced = before.map ProofLine.unplaced)
    (sameLine : line'.unplaced = line.unplaced)
    (sameAfter : after'.map ProofLine.unplaced = after.map ProofLine.unplaced)
    (h : ofLines r n before line after = .ok step) :
    ∃ step', ofLines r (n.redeclare declared) before' line' after' = .ok step' ∧
      step'.write o = step.write o := by
  have text := ProofLine.text_eq sameLine
  unfold ofLines at h ⊢
  rw [text]
  rcases cited : citedToken? line.text with _ | token
  · simp only [cited] at h
    cases h
  · simp only [cited, bind_ok_iff, mapError_ok_iff, pure_ok_iff] at h ⊢
    obtain ⟨lhs, left, rhs, right, name, stands, rfl⟩ := h
    refine ⟨_, ⟨lhs, readSide_alike sameBefore left, rhs, readSide_alike sameAfter right, name, ?_,
      rfl⟩, rfl⟩
    rw [Naming.resolve_redeclare same]
    exact Naming.resolve_context stands _

theorem ofLinesAfter_alike {lines lines' : List ProofLine} {before before' : Option ProofLine}
    {steps : List CalcStep}
    (sameBefore : before'.map ProofLine.unplaced = before.map ProofLine.unplaced)
    (sameLines : lines'.map ProofLine.unplaced = lines.map ProofLine.unplaced)
    (h : ofLinesAfter r n before lines = .ok steps) :
    ∃ steps', ofLinesAfter r (n.redeclare declared) before' lines' = .ok steps' ∧
      steps'.map (write o) = steps.map (write o) := by
  induction lines generalizing before before' lines' steps with
  | nil =>
      rw [List.map_nil, List.map_eq_nil_iff] at sameLines
      cases h
      exact ⟨[], sameLines ▸ rfl, rfl⟩
  | cons line rest ih =>
      obtain ⟨line', rest', rfl, sameLine, sameRest⟩ := List.map_eq_cons_iff.mp sameLines
      have next : (some line').map ProofLine.unplaced = (some line).map ProofLine.unplaced :=
        congrArg some sameLine
      have heads : rest'.head?.map ProofLine.unplaced = rest.head?.map ProofLine.unplaced := by
        rw [← List.head?_map, sameRest, List.head?_map]
      rw [ofLinesAfter, ProofLine.text_eq sameLine]
      rw [ofLinesAfter] at h
      split at h
      · next justifies =>
          simp only [justifies, if_true, bind_ok_iff, pure_ok_iff] at h ⊢
          obtain ⟨step, made, more, later, rfl⟩ := h
          obtain ⟨step', made', written⟩ := ofLines_alike same o sameBefore sameLine heads made
          obtain ⟨more', later', writtenLater⟩ := ih next sameRest later
          exact ⟨_, ⟨step', made', more', later', rfl⟩, by
            rw [List.map_cons, List.map_cons, written, writtenLater]⟩
      · next passed =>
          simp only [passed, Bool.false_eq_true, if_false]
          exact ih next sameRest h

theorem ofBlock_alike {block block' : ProofBlock} {steps : List CalcStep}
    (sameLines : block'.lines.map ProofLine.unplaced = block.lines.map ProofLine.unplaced)
    (h : ofBlock r n block = .ok steps) :
    ∃ steps', ofBlock r (n.redeclare declared) block' = .ok steps' ∧
      steps'.map (write o) = steps.map (write o) :=
  ofLinesAfter_alike same o rfl sameLines h

end

end CalcStep

theorem Block.ofLemma_alike {n : Naming} {declared : List Text}
    (same : ∀ token, token ∈ declared ↔ token ∈ n.declared) (o : Options) (l l' : ResolvedLemma)
    (b : Block) (sameLemma : l'.unplaced = l.unplaced) (h : ofLemma n l = .ok b) :
    ∃ b', ofLemma (n.redeclare declared) l' = .ok b' ∧ b'.write o = b.write o := by
  obtain ⟨sourceName, name, expression, dependencies, isConjecture, proof⟩ := l
  obtain ⟨sourceName', name', expression', dependencies', isConjecture', proof'⟩ := l'
  simp only [ResolvedLemma.unplaced, ResolvedLemma.mk.injEq] at sameLemma
  obtain ⟨rfl, rfl, rfl, rfl, rfl, sameProof⟩ := sameLemma
  obtain ⟨how, source, rfl⟩ := ofLemma_ok_iff.mp h
  -- Blocks that are proved by the same text are written alike.
  suffices made : ∃ how' : Proof, ((∃ block steps, proof' = some block ∧
      CalcStep.ofBlock (Renaming.scope expression') (n.redeclare declared) block = .ok steps ∧
      how' = .chain steps) ∨ proof' = none ∧ how' = .citing dependencies') ∧
      how'.write o = how.write o by
    obtain ⟨how', source', written⟩ := made
    refine ⟨_, ofLemma_ok_iff.mpr ⟨how', source', rfl⟩, ?_⟩
    split <;> simp only [write, written]
  obtain ⟨block, steps, stored, chained, rfl⟩ | ⟨none, rfl⟩ := source
  · dsimp only at stored
    rw [stored, Option.map_some, Option.map_eq_some_iff] at sameProof
    obtain ⟨block', stored', sameBlock⟩ := sameProof
    have sameLines : block'.lines.map ProofLine.unplaced = block.lines.map ProofLine.unplaced :=
      congrArg (·.lines) sameBlock
    obtain ⟨steps', chained', written⟩ := CalcStep.ofBlock_alike same o sameLines chained
    refine ⟨.chain steps', .inl ⟨block', steps', stored', chained', rfl⟩, ?_⟩
    simp only [Proof.write, CalcStep.writeAll, written]
  · dsimp only at none
    rw [none, Option.map_none, Option.map_eq_none_iff] at sameProof
    exact ⟨_, .inr ⟨sameProof, rfl⟩, rfl⟩

theorem Law.ofDeclaration_alike {d d' : Declaration} (same : d'.unplaced = d.unplaced) {law : Law}
    (h : ofDeclaration d = .ok law) : ofDeclaration d' = .ok law := by
  have name : d'.name = d.name := congrArg (·.name) same
  have formula : d'.formula = d.formula := congrArg (·.formula) same
  unfold ofDeclaration at h ⊢
  rw [name, formula]
  cases read : Expression.ofFormula d.formula with
  | error e =>
      rw [read] at h
      cases h
  | ok expression =>
      rw [read] at h
      exact h

namespace Script

/-- A choice of lemmas that does not look at line numbers. -/
theorem map_filter_unplaced {p : ResolvedLemma → Bool} (blind : ∀ l, p l.unplaced = p l)
    {lemmas lemmas' : List ResolvedLemma}
    (same : lemmas'.map ResolvedLemma.unplaced = lemmas.map ResolvedLemma.unplaced) :
    (lemmas'.filter p).map ResolvedLemma.unplaced =
      (lemmas.filter p).map ResolvedLemma.unplaced := by
  have after (ls : List ResolvedLemma) :
      (ls.filter p).map ResolvedLemma.unplaced = (ls.map ResolvedLemma.unplaced).filter p := by
    rw [List.filter_map]
    exact congrArg (List.map _ <| List.filter · ls) (funext fun l => (blind l).symm)
  rw [after, after, same]

theorem assemble_alike {n : Naming} {declared : List Text}
    (same : ∀ token, token ∈ declared ↔ token ∈ n.declared) (o : Options)
    {hypothesis hypothesis' conjecture conjecture' : Declaration} {r r' : Resolution} {s : Script}
    (sameHypothesis : hypothesis'.unplaced = hypothesis.unplaced)
    (sameConjecture : conjecture'.unplaced = conjecture.unplaced)
    (sameAxioms : r'.axioms = r.axioms)
    (sameLemmas : r'.lemmas.map ResolvedLemma.unplaced = r.lemmas.map ResolvedLemma.unplaced)
    (h : assemble hypothesis conjecture n r = .ok s) :
    ∃ s', assemble hypothesis' conjecture' (n.redeclare declared) r' = .ok s' ∧
      s'.write o = s.write o := by
  obtain ⟨blocks, last, made, closed, given, concluded, states, claims, rfl⟩ := assemble_ok_iff.mp h
  have arranged : (arrange r'.lemmas).map ResolvedLemma.unplaced =
      (arrange r.lemmas).map ResolvedLemma.unplaced := by
    unfold arrange
    rw [List.map_append, List.map_append, map_filter_unplaced (fun _ => rfl) sameLemmas,
      map_filter_unplaced (fun _ => rfl) sameLemmas]
  obtain ⟨blocks', made', written⟩ :=
    exists_forall₂_of_alike (Block.ofLemma_alike same o) made arranged
  have goals : r'.lemmas.filter (·.isConjecture) = [] ↔ r.lemmas.filter (·.isConjecture) = [] := by
    have alike := map_filter_unplaced (p := (·.isConjecture)) (fun _ => rfl) sameLemmas
    rw [← List.map_eq_nil_iff, alike, List.map_eq_nil_iff]
  have closed' : closing conjecture' r'.lemmas = .ok last := by
    rw [closing_ok_iff, ne_eq, goals]
    refine (closing_ok_iff.mp closed).imp_right ?_
    rintro ⟨none, law, states, closes⟩
    exact ⟨none, law, Law.ofDeclaration_alike sameConjecture states, closes⟩
  refine ⟨_, assemble_ok_iff.mpr ⟨blocks', last, made', closed', given, concluded,
    Law.ofDeclaration_alike sameHypothesis states, Law.ofDeclaration_alike sameConjecture claims,
    rfl⟩, ?_⟩
  simp only [write, sameAxioms, List.map_append, written]

end Script

/-! ## The same translation -/

namespace Translation

theorem declared_alike {r r' : Records} (alike : r.Alike r') {hypothesis conjecture : Declaration}
    (h : declared r = .ok (hypothesis, conjecture)) : ∃ hypothesis' conjecture',
      declared r' = .ok (hypothesis', conjecture') ∧
      hypothesis'.unplaced = hypothesis.unplaced ∧ conjecture'.unplaced = conjecture.unplaced := by
  have first : r'.hypothesis.map Declaration.unplaced = r.hypothesis.map Declaration.unplaced :=
    congrArg (·.hypothesis) alike.outline
  have second : r'.conjecture.map Declaration.unplaced = r.conjecture.map Declaration.unplaced :=
    congrArg (·.conjecture) alike.outline
  unfold declared at h
  split at h
  · cases h
  · cases h
  · next given concluded =>
      cases h
      rw [given, Option.map_some, Option.map_eq_some_iff] at first
      rw [concluded, Option.map_some, Option.map_eq_some_iff] at second
      obtain ⟨hypothesis', given', sameHypothesis⟩ := first
      obtain ⟨conjecture', concluded', sameConjecture⟩ := second
      exact ⟨hypothesis', conjecture', by simp only [declared, given', concluded'],
        sameHypothesis, sameConjecture⟩

theorem Stages.ofTranscript_eq {text : Text} {o : Options} (st : Stages text o) :
    ofTranscript text o =
      ([Translation.scannedReport st.records, resolvedReport st.resolution,
        writtenReport st.document], .ok st.translation) := by
  simp only [ofTranscript, st.scanned, st.declared, st.resolved, st.assembled]
  rfl

/-- Where inline axioms stand does not matter. When the axioms that a transcript states have
    distinct names and the transcript is translated, every transcript that has the same lines, with
    those that state axioms put anywhere and in any order, is translated to the same script, with
    the same reports. -/
theorem ofTranscript_relocated {text text' : Text} {o : Options} {t : Translation}
    (moved : Relocates (lines text) (lines text'))
    (distinct : ((axiomsStated (lines text)).map (·.1)).Nodup)
    (translated : (ofTranscript text o).2 = .ok t) :
    ofTranscript text' o = ofTranscript text o := by
  obtain ⟨st, -⟩ := Stages.exists_eq_translation translated
  obtain ⟨r', scanned, alike⟩ := Records.exists_alike moved distinct st.scanned
  obtain ⟨hypothesis', conjecture', declared', sameHypothesis, sameConjecture⟩ :=
    declared_alike alike st.declared
  obtain ⟨names, resolution', resolved, sameNames, sameAxioms, sameMapping, sameLemmas⟩ :=
    Naming.finalize_alike alike st.resolved
  obtain ⟨script', assembled, written⟩ := Script.assemble_alike sameNames o sameHypothesis
    sameConjecture sameAxioms sameLemmas st.assembled
  let st' : Stages text' o := ⟨r', hypothesis', conjecture', _, resolution', script', scanned,
    declared', resolved, assembled⟩
  have sameDocument : st'.document = st.document := written
  have hypothesisName : hypothesis'.name = st.hypothesis.name := congrArg (·.name) sameHypothesis
  have conjectureName : conjecture'.name = st.conjecture.name := congrArg (·.name) sameConjecture
  have lemmaCount : (resolution'.lemmas.filter (!·.isConjecture)).length =
      (st.resolution.lemmas.filter (!·.isConjecture)).length := by
    have chosen := congrArg List.length
      (Script.map_filter_unplaced (p := (!·.isConjecture)) (fun _ => rfl) sameLemmas)
    rwa [List.length_map, List.length_map] at chosen
  have sameTranslation : st'.translation = st.translation := by
    simp only [Stages.translation, sameDocument]
    simp only [st', hypothesisName, conjectureName, lemmaCount, sameAxioms, sameMapping]
  have sameResolution : resolvedReport st'.resolution = resolvedReport st.resolution := by
    simp only [resolvedReport, st', sameAxioms, sameMapping]
  rw [st'.ofTranscript_eq, st.ofTranscript_eq, sameTranslation, sameDocument, sameResolution,
    alike.scannedReport]

/-- A transcript that starts with two axioms, the first of which is used. -/
def axiomsFirst : Text := joinLines
  [ lit "Axiom 1 (single_lemma_7): X = Y.",
    lit "Axiom 2 (b): Y = Y.",
    lit "fof(h,axiom,",
    lit "X=X).",
    lit "fof(g,conjecture,X=Y).",
    Event.proofMarker,
    lit "Goal 1: X = Y",
    lit "X",
    lit "= \x7b by axiom 1 (single_lemma_7) \x7d",
    lit "Y" ]

/-- The same with the second axiom in the declaration and the first at the end of the proof. -/
def axiomsWithin : Text := joinLines
  [ lit "fof(h,axiom,",
    lit "Axiom 2 (b): Y = Y.",
    lit "X=X).",
    lit "fof(g,conjecture,X=Y).",
    Event.proofMarker,
    lit "Goal 1: X = Y",
    lit "X",
    lit "= \x7b by axiom 1 (single_lemma_7) \x7d",
    lit "Axiom 1 (single_lemma_7): X = Y.",
    lit "Y" ]

theorem axiomsFirst_evaluated :
    (ofTranscript axiomsFirst Options.standard).2.toOption.map (·.retainedAxioms) =
      some [lit "axiom1"] := by
  decide +kernel

theorem ofTranscript_relocated_axiomsWithin :
    Relocates (lines axiomsFirst) (lines axiomsWithin) ∧
    ((axiomsStated (lines axiomsFirst)).map (·.1)).Nodup ∧
    ∃ t, ofTranscript axiomsWithin Options.standard = ofTranscript axiomsFirst Options.standard ∧
      (ofTranscript axiomsWithin Options.standard).2 = .ok t ∧
      t.retainedAxioms = [lit "axiom1"] := by
  have moved : Relocates (lines axiomsFirst) (lines axiomsWithin) :=
    ⟨by decide +kernel, by decide +kernel⟩
  have distinct : ((axiomsStated (lines axiomsFirst)).map (·.1)).Nodup := by decide +kernel
  obtain ⟨t, translated, retained⟩ := Option.map_eq_some_iff.mp axiomsFirst_evaluated
  have succeeds := toOption_eq_some_iff.mp translated
  have same := ofTranscript_relocated moved distinct succeeds
  exact ⟨moved, distinct, t, same, same ▸ succeeds, retained⟩

end Translation

end MagmaTrace
