import MagmaTrace.Command.Run
import MagmaTrace.Proofs.Schemas

/-! # What a run leaves on the disk

A command is carried out in two steps: its result is worked out, which writes nothing, and then
delivered. Only the file system can refuse a delivery, so a run that ends with any other error
leaves the tree of files as it was. The script of a transcript is delivered as one file with the
text that is shown instead when `--stdout` is among the arguments
(`Outcome.ofRun_all_or_nothing`).
-/

namespace MagmaTrace

open Text

/-! ## Deliveries -/

namespace FileTree

theorem makeFrom_files (t : FileTree) (path : Text) (place : Place) (names : List Text) :
    (t.makeFrom path place names).1.files = t.files := by
  fun_induction makeFrom t path place names
  case case1 | case4 | case5 => rfl
  case case2 ih | case3 ih | case6 ih | case7 ih => exact ih

/-- Directories are made without touching a file. -/
theorem makeDirectory_files (t : FileTree) (current : Place) (path : Text) :
    (t.makeDirectory current path).1.files = t.files := by
  unfold makeDirectory
  split
  · rfl
  · exact t.makeFrom_files ..

theorem write_files {t t' : FileTree} {current : Place} {path content : Text}
    (h : t.write current path content = (t', none)) :
    t'.files = t.files.insert (placeOf current path) content := by
  unfold write at h
  dsimp only at h
  split at h
  · cases h
  · split at h
    · cases h
    · cases h
      rfl

end FileTree

/-- A single file is delivered as the only change of the files. -/
theorem Delivery.perform_single {w : Workplace} {directory path content : Text} {tree : FileTree}
    (h : perform ⟨directory, [(path, content)]⟩ w = (tree, none)) :
    tree.files = w.tree.files.insert (FileTree.placeOf w.current path) content := by
  have kept := w.tree.makeDirectory_files w.current directory
  unfold perform at h
  dsimp only at h
  rcases made : w.tree.makeDirectory w.current directory with ⟨ready, _ | refused⟩
  · rw [made] at h kept
    dsimp only [writeFiles] at h
    rcases written : ready.write w.current path content with ⟨last, _ | refused⟩
    · rw [written] at h
      cases h
      rw [FileTree.write_files written, kept]
    · rw [written] at h
      cases h
  · rw [made] at h
    cases h

/-! ## Errors -/

/-- Whether an error is shown as a diagnostic, and not as a refusal of the file system. -/
def CommandError.isDiagnosed : CommandError → Bool
  | file _ => false
  | _ => true

/-- The error that ends a command, if one does. -/
def Command.error? (w : Workplace) (command : Command) :
    Except (List SettingIssue) Settings → Option CommandError
  | .error found => some (.settings found)
  | .ok s =>
    match (command.product w s).2 with
    | .error e => some e
    | .ok p => (p.delivery.bind fun d => (d.perform w).2).map .file

namespace Outcome

/-- A command fails exactly with its error, which is the last thing said. If it is no refusal of
    the file system, the tree is as before. -/
theorem ofCommand_error {w : Workplace} {command : Command}
    {loaded : Except (List SettingIssue) Settings} {e : CommandError}
    (h : command.error? w loaded = some e) :
    (ofCommand w command loaded).status = 1 ∧
      (∃ said, (ofCommand w command loaded).errors = said ++ Command.linesOut [e.message]) ∧
      (e.isDiagnosed = true → (ofCommand w command loaded).tree = w.tree) := by
  rcases loaded with found | s
  · cases h
    exact ⟨rfl, ⟨[], rfl⟩, fun _ => rfl⟩
  · rcases worked : command.product w s with ⟨said, e' | p⟩
    · simp only [Command.error?, worked] at h
      cases h
      simp only [ofCommand, worked]
      exact ⟨rfl, ⟨said, rfl⟩, fun _ => rfl⟩
    · simp only [Command.error?, worked, Option.map_eq_some_iff, Option.bind_eq_some_iff] at h
      obtain ⟨refused, ⟨d, delivered, refuses⟩, rfl⟩ := h
      rcases performed : d.perform w with ⟨tree, _ | e'⟩
      · rw [performed] at refuses
        cases refuses
      · rw [performed] at refuses
        cases refuses
        simp only [ofCommand, worked, success, delivered, Option.map_some, performed]
        exact ⟨rfl, ⟨said, rfl⟩, fun diagnosed => absurd diagnosed Bool.false_ne_true⟩

theorem ofCommand_no_error {w : Workplace} {command : Command}
    {loaded : Except (List SettingIssue) Settings} (h : command.error? w loaded = none) :
    (ofCommand w command loaded).status = 0 := by
  rcases loaded with found | s
  · cases h
  · rcases worked : command.product w s with ⟨said, e' | p⟩
    · simp only [Command.error?, worked] at h
      cases h
    · simp only [Command.error?, worked, Option.map_eq_none_iff] at h
      simp only [ofCommand, worked, success]
      rcases delivered : p.delivery with _ | d
      · rfl
      · rcases performed : d.perform w with ⟨tree, _ | e'⟩
        · simp [performed]
        · simp [delivered, performed] at h

/-- The error that ends a run on some libraries, if one does. -/
def error? (l : Libraries) (w : Workplace) (environment : Environment) (arguments : List Text) :
    Option CommandError :=
  let a := Arguments.ofList arguments
  match Request.ofArguments a with
  | .command command =>
    command.error? w
      (Settings.loadWith l.validator (l.environment w environment).setting (a.given command))
  | _ => none

end Outcome

/-! ## The flag that has a script shown -/

/-- The flag as it is written. -/
def stdoutFlag : Text := lit "--stdout"

namespace Arguments

variable {before after : List Text}

theorem has_insert_stdout {flag : Flag} (other : flag ≠ .stdout) :
    (ofList (before ++ stdoutFlag :: after)).has flag = (ofList (before ++ after)).has flag := by
  have unlike : ∀ word ∈ flag.words, word ≠ stdoutFlag := by
    cases flag with
    | stdout => exact absurd rfl other
    | help | version | quiet | verbose => decide
  rw [Bool.eq_iff_iff]
  simp only [has, ofList, List.any_eq_true, List.contains_iff_mem, List.mem_append, List.mem_cons]
  constructor
  · rintro ⟨word, isWord, among⟩
    exact ⟨word, isWord, among.imp_right fun later => later.resolve_left (unlike word isWord)⟩
  · rintro ⟨word, isWord, among⟩
    exact ⟨word, isWord, among.imp_right .inr⟩

theorem has_stdout_insert : (ofList (before ++ stdoutFlag :: after)).has .stdout = true := by
  simp [has, ofList, Flag.words, stdoutFlag]

theorem words_stdout_cons (arguments : List Text) :
    (ofList (stdoutFlag :: arguments)).words = (ofList arguments).words := by
  have noOption : ValueOption.ofArgument? stdoutFlag = none := by decide
  have hyphen : startsWith (lit "-") stdoutFlag = true := by decide
  simp [ofList, split, noOption, hyphen]

theorem verbosity?_insert_stdout : (ofList (before ++ stdoutFlag :: after)).verbosity? =
    (ofList (before ++ after)).verbosity? := by
  unfold verbosity?
  rw [has_insert_stdout (by decide), has_insert_stdout (by decide)]

/-- The flag changes the settings that are given in the output directory at most. -/
theorem given_insert_stdout {transcript : Text} {setting : Setting} (other : setting ≠ .outputDir) :
    (ofList (before ++ stdoutFlag :: after)).given (.translate transcript true) setting =
      (ofList (before ++ after)).given (.translate transcript false) setting := by
  cases setting with
  | outputDir => exact absurd rfl other
  | verbosity => simp only [given, verbosity?_insert_stdout]
  | maxLineLength | tactic | hypothesisName => rfl

end Arguments

namespace Request

theorem operand_eq_command {words : List Text} {make : Text → Command} {command : Command}
    (h : ofWords.operand words make = .command command) :
    ∃ file rest, words = file :: rest ∧ file ≠ [] ∧ make file = command := by
  unfold ofWords.operand at h
  split at h
  · cases h
  · next file rest =>
      split at h
      · cases h
      · next named => exact ⟨file, rest, rfl, named, Request.command.inj h⟩

/-- The words of a command line that asks for the translation of a transcript. -/
theorem ofArguments_eq_translate {a : Arguments} {transcript : Text} {shown : Bool} :
    ofArguments a = .command (.translate transcript shown) ↔
      a.has .help = false ∧ a.has .version = false ∧ a.has .stdout = shown ∧
      transcript ≠ [] ∧ a.words.head? = some transcript ∧
      transcript ≠ lit "generate" ∧ transcript ≠ lit "summarize" := by
  unfold ofArguments
  cases a.has .help with
  | true => simp
  | false =>
    cases a.has .version with
    | true => simp
    | false =>
      simp only [Bool.false_eq_true, if_false, true_and]
      unfold ofWords
      split
      · next none => simp [none]
      · next word rest words =>
          simp only [words, List.head?_cons, Option.some.injEq]
          constructor
          · intro asks
            split at asks
            · obtain ⟨_, _, -, -, same⟩ := operand_eq_command asks
              cases same
            · next notGenerate =>
              split at asks
              · obtain ⟨_, _, -, -, same⟩ := operand_eq_command asks
                cases same
              · next notSummarize =>
                  obtain ⟨file, _, same, named, made⟩ := operand_eq_command asks
                  cases same
                  cases made
                  exact ⟨rfl, named, rfl, notGenerate, notSummarize⟩
          · rintro ⟨rfl, named, rfl, notGenerate, notSummarize⟩
            rw [if_neg notGenerate, if_neg notSummarize, ofWords.operand]
            exact if_neg named

/-- With the flag the same transcript is translated and shown. -/
theorem ofArguments_insert_stdout {before after : List Text} {transcript : Text}
    (asks : ofArguments (.ofList (before ++ after)) = .command (.translate transcript false))
    (same : (Arguments.ofList (before ++ stdoutFlag :: after)).words =
      (Arguments.ofList (before ++ after)).words) :
    ofArguments (.ofList (before ++ stdoutFlag :: after)) =
      .command (.translate transcript true) := by
  rw [ofArguments_eq_translate] at asks ⊢
  rw [Arguments.has_insert_stdout (by decide), Arguments.has_insert_stdout (by decide), same]
  obtain ⟨noHelp, noVersion, -, rest⟩ := asks
  exact ⟨noHelp, noVersion, Arguments.has_stdout_insert, rest⟩

end Request

namespace Settings

/-- The value in force is not empty. -/
theorem effective_ne_empty {environment : Setting → Option Text}
    {given : Setting → Option SettingValue} {setting : Setting} :
    effective environment given setting ≠ some (.text []) := by
  intro empty
  rcases Option.or_eq_some_iff.mp empty with own | ⟨-, fromEnvironment⟩
  · simpa using (Option.filter_eq_some_iff.mp own).2
  · obtain ⟨text, found, ⟨⟩⟩ := Option.map_eq_some_iff.mp fromEnvironment
    simpa using (Option.filter_eq_some_iff.mp found).2

/-- Every text may name an output directory. -/
theorem checkedWith_outputDir {v : Validator} (documented : v.IsDocumented)
    {environment : Setting → Option Text} {given : Setting → Option SettingValue}
    (isText : ∀ x ∈ given .outputDir, ∃ text, x = .text text) :
    ∃ x, checkedWith v environment given .outputDir = .ok x := by
  have takes (text : Text) (nonempty : text ≠ []) :
      Setting.outputDir.valueType.Takes (.text text) (.text text) :=
    .text (by simpa [TextCheck.passes, Nat.one_le_iff_ne_zero] using nonempty)
  unfold checkedWith
  cases inForce : effective environment given .outputDir with
  | none => exact ⟨_, (documented.value_ok_iff _ _ _).mpr (takes _ (by decide))⟩
  | some x =>
    obtain ⟨text, rfl⟩ : ∃ text, x = .text text := by
      rcases Option.or_eq_some_iff.mp inForce with own | ⟨-, fromEnvironment⟩
      · exact isText x (Option.filter_eq_some_iff.mp own).1
      · obtain ⟨text, -, rfl⟩ := Option.map_eq_some_iff.mp fromEnvironment
        exact ⟨text, rfl⟩
    have nonempty : text ≠ [] := fun empty => effective_ne_empty (empty ▸ inForce)
    exact ⟨_, (documented.value_ok_iff _ _ _).mpr (takes text nonempty)⟩

/-- Whatever text is given for the output directory, the other settings are the same. -/
theorem loadWith_ok_of_given {v : Validator} (documented : v.IsDocumented)
    {environment : Setting → Option Text} {given given' : Setting → Option SettingValue}
    {s : Settings} (same : ∀ setting, setting ≠ .outputDir → given' setting = given setting)
    (isText : ∀ x ∈ given' .outputDir, ∃ text, x = .text text)
    (loaded : loadWith v environment given = .ok s) :
    ∃ directory, loadWith v environment given' = .ok { s with outputDir := directory } := by
  obtain ⟨data, accepted, rfl⟩ := (loadWith_ok_iff documented).mp loaded
  obtain ⟨x, acceptedDirectory⟩ : ∃ x, checkedWith v environment given' .outputDir = .ok x :=
    checkedWith_outputDir documented isText
  refine ⟨_, (loadWith_ok_iff documented).mpr
    ⟨Function.update data .outputDir x, fun k => ?_, rfl⟩⟩
  by_cases directory : k = .outputDir
  · subst directory
    rw [acceptedDirectory, Function.update_self]
  · rw [Function.update_of_ne directory, ← accepted k, checkedWith, checkedWith, effective,
      same k directory, ← effective]

end Settings

namespace Outcome

theorem ofRunWith_of_command {l : Libraries} {w : Workplace} {environment : Environment}
    {arguments : List Text} {command : Command}
    (asks : Request.ofArguments (.ofList arguments) = .command command) :
    ofRunWith l w environment arguments = ofCommand w command
      (Settings.loadWith l.validator (l.environment w environment).setting
        ((Arguments.ofList arguments).given command)) := by
  simp only [ofRunWith, asks]

/-- A success with one file to deliver leaves this file as the only change of the files. -/
theorem success_single {w : Workplace} {said : Text} {p : Product} {directory path content : Text}
    (delivers : p.delivery = some ⟨directory, [(path, content)]⟩)
    (done : (success w said p).status = 0) :
    (success w said p).tree.files =
      w.tree.files.insert (FileTree.placeOf w.current path) content := by
  unfold success at done ⊢
  rw [delivers, Option.map_some] at done ⊢
  rcases performed : Delivery.perform ⟨directory, [(path, content)]⟩ w with ⟨tree, _ | refused⟩
  · exact Delivery.perform_single performed
  · rw [performed] at done
    cases done

/-- A script is delivered as one file, or shown with the same text under any settings that agree
    on everything but the output directory. -/
theorem ofCommand_translate {w : Workplace} {s : Settings} {transcript : Text}
    (done : (ofCommand w (.translate transcript false) (.ok s)).status = 0) :
    ∃ place content,
      (ofCommand w (.translate transcript false) (.ok s)).tree.files =
        w.tree.files.insert place content ∧
      ∀ directory, ∃ said,
        ofCommand w (.translate transcript true) (.ok { s with outputDir := directory }) =
          ⟨0, content, said, w.tree⟩ := by
  simp only [ofCommand, Command.product, Command.translateProduct] at done ⊢
  rcases given : w.read .input transcript with e | text
  · simp only [given] at done
    cases done
  · rcases translated : Translation.ofTranscript text s.options with ⟨reports, e | t⟩
    · simp only [given, translated] at done
      cases done
    · simp only [given, translated, Bool.false_eq_true, if_false] at done ⊢
      refine ⟨_, t.document, success_single rfl done, fun directory => ?_⟩
      have sameOptions : Settings.options { s with outputDir := directory } = s.options := rfl
      simp only [sameOptions, translated, if_true]
      exact ⟨_, rfl⟩

/-- A run that ends with an error which is no refusal of the file system leaves all files and
    directories as they were. A run that translates a transcript without showing the script writes
    exactly one file, and the script is shown with the same text when the flag is put anywhere
    among the arguments where it leaves the words as they are. This holds on all libraries with a
    validator that does what it is documented to do. -/
theorem ofRun_all_or_nothing {l : Libraries} (documented : l.validator.IsDocumented)
    (w : Workplace) (environment : Environment) (arguments : List Text) :
    let outcome := ofRunWith l w environment arguments
    (∀ e, error? l w environment arguments = some e →
      outcome.status = 1 ∧ (∃ said, outcome.errors = said ++ Command.linesOut [e.message]) ∧
      (e.isDiagnosed = true → outcome.tree = w.tree)) ∧
    (∀ command, Request.ofArguments (.ofList arguments) = .command command →
      error? l w environment arguments = none → outcome.status = 0) ∧
    ∀ transcript, Request.ofArguments (.ofList arguments) = .command (.translate transcript false) →
      outcome.status = 0 →
      ∃ place content, outcome.tree.files = w.tree.files.insert place content ∧
        ∀ before after, arguments = before ++ after →
          (Arguments.ofList (before ++ stdoutFlag :: after)).words =
            (Arguments.ofList arguments).words →
          ∃ said, ofRunWith l w environment (before ++ stdoutFlag :: after) =
            ⟨0, content, said, w.tree⟩ := by
  intro outcome
  have runs {command : Command}
      (asks : Request.ofArguments (.ofList arguments) = .command command) :
      outcome = ofCommand w command
        (Settings.loadWith l.validator (l.environment w environment).setting
          ((Arguments.ofList arguments).given command)) :=
    ofRunWith_of_command asks
  refine ⟨fun e fails => ?_, fun command asks succeeds => ?_, fun transcript asks done => ?_⟩
  · unfold error? at fails
    dsimp only at fails
    split at fails
    · next asks =>
        rw [runs asks]
        exact ofCommand_error fails
    · cases fails
  · simp only [error?, asks] at succeeds
    rw [runs asks]
    exact ofCommand_no_error succeeds
  · rw [runs asks] at done ⊢
    rcases loaded : Settings.loadWith l.validator (l.environment w environment).setting
      ((Arguments.ofList arguments).given (.translate transcript false)) with found | s
    · rw [loaded] at done
      cases done
    · rw [loaded] at done
      obtain ⟨place, content, written, shown⟩ := ofCommand_translate done
      refine ⟨place, content, written, ?_⟩
      rintro before after rfl same
      let given := (Arguments.ofList (before ++ stdoutFlag :: after)).given
        (.translate transcript true)
      have isText : ∀ v ∈ given .outputDir, ∃ text, v = .text text := by
        intro v named
        obtain ⟨text, -, rfl⟩ := Option.map_eq_some_iff.mp named
        exact ⟨text, rfl⟩
      obtain ⟨directory, loaded'⟩ := Settings.loadWith_ok_of_given documented
        (fun setting => Arguments.given_insert_stdout) isText loaded
      rw [ofRunWith_of_command (Request.ofArguments_insert_stdout asks same), loaded']
      exact shown directory

/-- A directory with one transcript in it. -/
def transcriptPlace : Workplace :=
  { current := [lit "work"]
    tree :=
      { directories := []
        files := .ofList [([lit "work", lit "p.out"], joinLines
          [ lit "fof(h,axiom,X=X).",
            lit "fof(g,conjecture,X=X).",
            Event.proofMarker,
            lit "Goal 1: X = X",
            lit "X",
            lit "= \x7b by axiom 1 (a1) \x7d",
            lit "X" ])] } }

theorem transcriptPlace_evaluated :
    error? .builtIn transcriptPlace ∅ [lit "generate", lit "p.out"] =
      some (.absent .equations (lit "benchmarks/Equations")) ∧
    Request.ofArguments (.ofList [lit "--out-dir=out", lit "p.out"]) =
      .command (.translate (lit "p.out") false) ∧
    (ofRun transcriptPlace ∅ [lit "--out-dir=out", lit "p.out"]).status = 0 := by
  decide +kernel

/-- Problems cannot be generated without a database, which leaves everything as it is; the
    transcript can be translated, and shown with the flag before or after the directory. -/
theorem ofRun_all_or_nothing_transcriptPlace :
    let failed := ofRun transcriptPlace ∅ [lit "generate", lit "p.out"]
    let written := ofRun transcriptPlace ∅ [lit "--out-dir=out", lit "p.out"]
    failed.status = 1 ∧ failed.tree = transcriptPlace.tree ∧ written.status = 0 ∧
    ∃ place content, written.tree.files = transcriptPlace.tree.files.insert place content ∧
      (∃ said, ofRun transcriptPlace ∅ [stdoutFlag, lit "--out-dir=out", lit "p.out"] =
        ⟨0, content, said, transcriptPlace.tree⟩) ∧
      ∃ said, ofRun transcriptPlace ∅ [lit "--out-dir=out", stdoutFlag, lit "p.out"] =
        ⟨0, content, said, transcriptPlace.tree⟩ := by
  intro failed written
  obtain ⟨fails, asks, done⟩ := transcriptPlace_evaluated
  have documented : Libraries.builtIn.validator.IsDocumented := Validator.builtIn_isDocumented
  obtain ⟨status, -, unchanged⟩ := (ofRun_all_or_nothing documented _ _ _).1 _ fails
  obtain ⟨place, content, changes, shown⟩ := (ofRun_all_or_nothing documented _ _ _).2.2 _ asks done
  exact ⟨status, unchanged rfl, done, place, content, changes,
    shown [] _ rfl (Arguments.words_stdout_cons _), shown [lit "--out-dir=out"] _ rfl (by decide)⟩

end Outcome

end MagmaTrace
