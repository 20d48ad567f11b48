import Mathlib.Algebra.GroupWithZero.Nat
import MagmaTrace.Command.Basic
import MagmaTrace.Proofs.Formulas
import MagmaTrace.Proofs.Margins
import MagmaTrace.Proofs.Numbering
import MagmaTrace.Proofs.Ordering
import MagmaTrace.Proofs.Outcome
import MagmaTrace.Proofs.Lookup

/-! # Logs put together

A line of a log gives the same entry with or without white space at its end, so the entries of two
logs with a line feed between them are those of the first and then those of the second. The summary
of a whole directory is therefore the summary of one log, that of all logs in it in the order of
their names (`Workplace.report_of_joined`).
-/

namespace MagmaTrace

open Text

namespace LogEntry

/-! ## One entry -/

/-- The length that a run of digits gives. -/
def lengthOf (digits : Text) : Float := (Numeral.ofDigits digits).toFloat

/-- The part of an entry before its second length, with the digits of the first. -/
def IsLead (found lead : Text) : Prop :=
  ∃ gap gap' gap'', lead = lit "Vampire:" ++ (gap ++ (found ++ (gap' ++ (lit "Minimized:" ++ gap''))))
    ∧ (gap ≠ [] ∧ IsBlank gap) ∧ (found ≠ [] ∧ ∀ u ∈ found, isDigit u = true) ∧
    (gap' ≠ [] ∧ IsBlank gap') ∧ gap'' ≠ [] ∧ IsBlank gap''

/-- A text begins with an entry: with two lengths, or with `N/A` for the second. -/
inductive Begins : Text → LogEntry → Prop where
  | unminimized {found lead : Text} (isLead : IsLead found lead) (rest : Text) :
      Begins (lead ++ (lit "N/A" ++ rest)) ⟨lengthOf found, lengthOf found⟩
  | minimized {found lead digits rest : Text} (isLead : IsLead found lead) (nonempty : digits ≠ [])
      (all : ∀ u ∈ digits, isDigit u = true) (stop : ∀ u ∈ rest.head?, isDigit u = false) :
      Begins (lead ++ (digits ++ rest)) ⟨lengthOf found, lengthOf digits⟩

theorem not_isDigit_of_isBlank {u : CodeUnit} (h : isBlank u = true) : isDigit u = false := by
  cases digit : isDigit u with
  | false => rfl
  | true =>
      rw [isBlank_of_isDigit digit] at h
      cases h

/-- What an entry is when its second length stands at the start of a text. -/
def ofSecond? (found rest : Text) : Option LogEntry :=
  if startsWith (lit "N/A") rest then some ⟨lengthOf found, lengthOf found⟩
  else (run? isDigit rest).map fun run => ⟨lengthOf found, lengthOf run.1⟩

theorem here?_eq_some_iff_lead {text : Text} {e : LogEntry} : here? text = some e ↔
    ∃ found lead rest, IsLead found lead ∧ text = lead ++ rest ∧
      (∀ u ∈ rest.head?, isBlank u = false) ∧ ofSecond? found rest = some e := by
  have second (found rest : Text) : (if startsWith (lit "N/A") rest then
        (some ⟨lengthOf found, lengthOf found⟩ : Option LogEntry)
      else (run? isDigit rest).bind fun run => some ⟨lengthOf found, lengthOf run.1⟩) =
      ofSecond? found rest := by
    rw [ofSecond?]
    split
    · rfl
    · cases run? isDigit rest <;> rfl
  constructor
  · intro h
    simp only [here?, Option.bind_eq_bind, Option.bind_eq_some_iff, strip?_eq_some, Prod.exists,
      skipSomeBlanks?_eq_some, run?_eq_some] at h
    obtain ⟨_, rfl, _, ⟨gap, rfl, wide, blank, -⟩, found, _, ⟨rfl, nonempty, digits, -⟩,
      _, ⟨gap', rfl, wide', blank', -⟩, _, rfl, rest, ⟨gap'', rfl, wide'', blank'', first⟩, h⟩ := h
    have isLead : IsLead found _ := ⟨gap, gap', gap'', rfl, ⟨wide, blank⟩, ⟨nonempty, digits⟩,
      ⟨wide', blank'⟩, wide'', blank''⟩
    exact ⟨found, _, rest, isLead, by simp, first, (second found rest).symm.trans h⟩
  · rintro ⟨found, _, rest, ⟨gap, gap', gap'', rfl, ⟨wide, blank⟩, ⟨nonempty, digits⟩,
      ⟨wide', blank'⟩, wide'', blank''⟩, rfl, first, h⟩
    let later := lit "Minimized:" ++ (gap'' ++ rest)
    have stop : ∀ u ∈ (gap' ++ later).head?, isDigit u = false :=
      head?_gap blank' (p := (isDigit · = false)) (fun _ => not_isDigit_of_isBlank) (by decide) _
    have atWord : ∀ u ∈ later.head?, isBlank u = false := by
      rintro u ⟨⟩
      decide
    have lead : strip? (lit "Vampire:") (lit "Vampire:" ++ (gap ++ (found ++ (gap' ++
        (lit "Minimized:" ++ gap'')))) ++ rest) = some (gap ++ (found ++ (gap' ++ later))) :=
      strip?_eq_some.mpr (by simp [later])
    have word : strip? (lit "Minimized:") later = some (gap'' ++ rest) := strip?_eq_some.mpr rfl
    obtain ⟨skipped, ran⟩ := read_number wide blank nonempty digits stop
    rw [here?, lead]
    simp only [Option.bind_eq_bind, Option.bind_some, skipped, ran, word,
      skipSomeBlanks?_append wide' blank' atWord, skipSomeBlanks?_append wide'' blank'' first]
    exact (second found rest).trans h

theorem here?_eq_some {text : Text} {e : LogEntry} : here? text = some e ↔ Begins text e := by
  rw [here?_eq_some_iff_lead]
  constructor
  · rintro ⟨found, lead, rest, isLead, rfl, -, second⟩
    unfold ofSecond? startsWith at second
    split at second
    · next missing =>
        obtain ⟨after, stripped⟩ := Option.isSome_iff_exists.mp missing
        cases second
        rw [strip?_eq_some.mp stripped]
        exact .unminimized isLead after
    · obtain ⟨⟨digits, after⟩, ran, rfl⟩ := Option.map_eq_some_iff.mp second
      obtain ⟨rfl, nonempty, all, stop⟩ := run?_eq_some.mp ran
      exact .minimized isLead nonempty all stop
  · rintro (⟨isLead, rest⟩ | ⟨isLead, nonempty, all, stop⟩)
    · refine ⟨_, _, _, isLead, rfl, ?_, rfl⟩
      rintro u ⟨⟩
      decide
    · next found lead digits rest =>
        have first : ∀ u ∈ (digits ++ rest).head?, isDigit u = true := by
          intro u first
          rw [List.head?_append, Option.or_of_isSome (List.isSome_head?.mpr nonempty)] at first
          exact all u (List.mem_of_mem_head? first)
        have other : ∀ u ∈ (digits ++ rest).head?, u ≠ 'N' := by
          rintro u mem rfl
          exact absurd (first _ mem) (by decide)
        have given : startsWith (lit "N/A") (digits ++ rest) = false :=
          congrArg Option.isSome (strip?_of_head other (lit "/A"))
        refine ⟨found, lead, _, isLead, rfl, fun u mem => isBlank_of_isDigit (first u mem), ?_⟩
        rw [ofSecond?, given, run?_eq_some.mpr ⟨rfl, nonempty, all, stop⟩]
        rfl

/-! ## White space after an entry -/

/-- White space at the end of a text lies after whatever ends with a solid unit. -/
theorem exists_before_blank {text tail spelled rest : Text} (blank : IsBlank tail)
    (solid : ∀ u ∈ spelled.getLast?, isBlank u = false) (split : text ++ tail = spelled ++ rest) :
    ∃ between, text = spelled ++ between ∧ rest = between ++ tail := by
  rcases List.append_eq_append_iff.mp split with ⟨more, rfl, rfl⟩ | ⟨more, rfl, rfl⟩
  · cases more using List.reverseRecOn with
    | nil => exact ⟨[], by simp⟩
    | append_singleton more u =>
        have last := solid u (by simp)
        rw [blank u (by simp)] at last
        cases last
  · exact ⟨more, rfl, rfl⟩

/-- An entry ends with a solid unit, a digit or the last letter of `N/A`. -/
theorem begins_append_blank {text tail : Text} (blank : IsBlank tail) {e : LogEntry} :
    Begins (text ++ tail) e ↔ Begins text e := by
  constructor
  · intro begins
    generalize whole : text ++ tail = given at begins
    cases begins with
    | @unminimized found lead isLead rest =>
        rw [← List.append_assoc] at whole
        have solid : ∀ u ∈ (lead ++ lit "N/A").getLast?, isBlank u = false := by
          have ends : lit "N/A" ≠ [] := by decide
          rw [List.getLast?_append_of_ne_nil _ ends]
          rintro u ⟨⟩
          decide
        obtain ⟨between, rfl, -⟩ := exists_before_blank blank solid whole
        rw [List.append_assoc]
        exact .unminimized isLead between
    | @minimized found lead digits rest isLead nonempty all stop =>
        rw [← List.append_assoc] at whole
        have solid : ∀ u ∈ (lead ++ digits).getLast?, isBlank u = false := by
          rw [List.getLast?_append_of_ne_nil _ nonempty]
          exact fun u last => isBlank_of_isDigit (all u (List.mem_of_getLast? last))
        obtain ⟨between, rfl, rfl⟩ := exists_before_blank blank solid whole
        rw [List.append_assoc]
        refine .minimized isLead nonempty all fun u first => stop u ?_
        rw [Option.mem_def, List.head?_append, Option.mem_def.mp first, Option.some_or]
  · intro begins
    cases begins with
    | @unminimized found lead isLead rest =>
        rw [List.append_assoc, List.append_assoc]
        exact .unminimized isLead (rest ++ tail)
    | @minimized found lead digits rest isLead nonempty all stop =>
        rw [List.append_assoc, List.append_assoc]
        refine .minimized isLead nonempty all fun u first => ?_
        rw [List.head?_append, Option.mem_def, Option.or_eq_some_iff] at first
        rcases first with within | ⟨-, after⟩
        · exact stop u within
        · exact not_isDigit_of_isBlank (blank u (List.mem_of_mem_head? after))

theorem here?_append_blank {text tail : Text} (blank : IsBlank tail) :
    here? (text ++ tail) = here? text := by
  apply Option.ext
  intro e
  rw [here?_eq_some, here?_eq_some, begins_append_blank blank]

/-- White space at the end of a line does not matter to its entry. -/
theorem ofLine?_append_blank {tail : Text} (blank : IsBlank tail) (line : Text) :
    ofLine? (line ++ tail) = ofLine? line := by
  unfold ofLine?
  induction line with
  | nil =>
      have none : first? here? tail = none := by
        rw [first?_eq_none]
        rintro before rest rfl
        have later : IsBlank rest := fun u mem => blank u (List.mem_append_right _ mem)
        exact @here?_append_blank [] rest later
      exact none
  | cons u more ih =>
      rw [List.cons_append, first?, first?, ih, ← List.cons_append, here?_append_blank blank]

/-! ## The entries of a log -/

/-- Whether carriage returns stand before line feeds does not matter to the entries. -/
theorem ofLog_eq (log : Text) : ofLog log = (splitAt newline log).filterMap ofLine? := by
  have same : (lines log).map ofLine? = (splitAt newline log).map ofLine? := by
    refine map_eq_map_of_forall₂ ((mayReturn_lines log).imp ?_)
    rintro line _ (rfl | rfl)
    · rfl
    · exact (ofLine?_append_blank (by decide) line).symm
  have kept := congrArg (List.filterMap id) same
  rwa [List.filterMap_map, List.filterMap_map, Function.id_comp] at kept

theorem ofLog_append (a b : Text) : ofLog (a ++ newline :: b) = ofLog a ++ ofLog b := by
  rw [ofLog_eq, splitAt_append, List.filterMap_append, ← ofLog_eq, ← ofLog_eq]

theorem ofLog_joinLines (logs : List Text) : ofLog (joinLines logs) = logs.flatMap ofLog := by
  induction logs with
  | nil => rfl
  | cons log logs ih =>
      by_cases last : logs = []
      · subst logs
        simp [joinLines]
      · have joined : joinLines (log :: logs) = log ++ newline :: joinLines logs := by
          rw [joinLines, join_cons last, List.append_assoc]
          rfl
        rw [joined, ofLog_append, ih, List.flatMap_cons]

end LogEntry

/-! ## The logs in a directory -/

/-- The logs among some files, in the order of their names. -/
def LogReport.inOrder (files : Registry Text Text) : List (Text × Text) :=
  sortBy Prod.fst (files.entries.filter fun e => isLogName e.1)

theorem LogReport.mem_inOrder {files : Registry Text Text} {name log : Text} :
    (name, log) ∈ inOrder files ↔ files.get? name = some log ∧ isLogName name = true := by
  rw [inOrder, mem_sortBy, List.mem_filter, Registry.get?_eq_some_iff]

theorem LogReport.increasing_inOrder (files : Registry Text Text) :
    IncreasingBy Prod.fst (inOrder files) :=
  increasingBy_sortBy (files.keys_nodup.sublist (List.filter_sublist.map Prod.fst))

namespace Workplace

/-- The report on the logs in a directory. -/
def report (w : Workplace) (threshold : Float) (path : Text) : Except CommandError LogReport :=
  LogReport.ofLogs threshold <$> w.readAll .logs LogReport.isLogName path

theorem summarizeProduct_eq (w : Workplace) (logs : Text) : Command.summarizeProduct w logs =
    (fun r => ⟨none, Command.linesOut [r.write], []⟩) <$>
      w.report LogSummary.standardThreshold logs := by
  unfold Command.summarizeProduct report
  cases w.readAll .logs LogReport.isLogName logs <;> rfl

/-- A path leads to a directory with some files in it. Whatever else is there is no log. -/
def Holds (w : Workplace) (path : Text) (files : Registry Text Text) : Prop :=
  ∃ place, w.tree.find w.current path = .ok (.directory place) ∧
    (∀ name, w.tree.files.get? (place ++ [name]) = files.get? name) ∧
    ∀ name ∈ w.tree.namesIn place, LogReport.isLogName name = true → name ∈ files.keys

theorem mem_namesIn {t : FileTree} {place : Place} {name content : Text}
    (found : t.files.get? (place ++ [name]) = some content) : name ∈ t.namesIn place := by
  have key : place ++ [name] ∈ t.files.keys := Registry.mem_keys_iff.mpr ⟨content, found⟩
  rw [FileTree.namesIn, mem_firstMentions, List.mem_filterMap]
  exact ⟨place ++ [name], List.mem_append_left _ key, by simp⟩

theorem readIn_ok_iff {w : Workplace} {place : Place} {name : Text} {entry : Text × Text} :
    w.readIn place name = .ok entry ↔
      name = entry.1 ∧ w.tree.files.get? (place ++ [name]) = some entry.2 := by
  obtain ⟨other, content⟩ := entry
  unfold readIn
  cases w.tree.files.get? (place ++ [name]) with
  | none => simp
  | some found => simp

theorem readAll_logs {w : Workplace} {path : Text} {files : Registry Text Text}
    (h : w.Holds path files) :
    w.readAll .logs LogReport.isLogName path = .ok (LogReport.inOrder files) := by
  obtain ⟨place, leads, contents, known⟩ := h
  let names := sort ((w.tree.namesIn place).filter LogReport.isLogName)
  have mem_names {name : Text} : name ∈ names ↔
      name ∈ w.tree.namesIn place ∧ LogReport.isLogName name = true := by
    rw [mem_sort, List.mem_filter]
  obtain ⟨logs, read⟩ : ∃ logs, names.mapM (w.readIn place) = .ok logs := by
    refine exists_mapM_ok_iff.mpr fun name mem => ?_
    obtain ⟨there, isLog⟩ := mem_names.mp mem
    obtain ⟨content, found⟩ := Registry.mem_keys_iff.mp (known name there isLog)
    exact ⟨(name, content), readIn_ok_iff.mpr ⟨rfl, (contents name).trans found⟩⟩
  have each := mapM_ok_iff.mp read
  have increasing : IncreasingBy Prod.fst logs := by
    have named : names.map id = logs.map Prod.fst :=
      map_eq_map_of_forall₂ (each.imp fun _ _ here => (readIn_ok_iff.mp here).1)
    rw [increasingBy_iff, ← named, List.map_id]
    exact pairwise_lt_sort ((nodup_firstMentions _).filter _)
  have same : logs = LogReport.inOrder files := by
    refine increasing.eq_of_mem_iff (LogReport.increasing_inOrder files) ?_
    rintro ⟨name, log⟩
    rw [LogReport.mem_inOrder]
    constructor
    · intro mem
      obtain ⟨other, listed, here⟩ := exists_of_forall₂_right each mem
      obtain ⟨same, found⟩ := readIn_ok_iff.mp here
      subst same
      exact ⟨(contents _).symm.trans found, (mem_names.mp listed).2⟩
    · rintro ⟨found, isLog⟩
      rw [← contents] at found
      obtain ⟨⟨_, _⟩, mem, here⟩ :=
        exists_of_forall₂_left each (mem_names.mpr ⟨mem_namesIn found, isLog⟩)
      obtain ⟨rfl, there⟩ := readIn_ok_iff.mp here
      cases found.symm.trans there
      exact mem
  unfold readAll
  rw [leads, ← same]
  exact read

end Workplace

/-! ## Summaries -/

theorem LogStats.count_ofEntries (entries : List LogEntry) :
    (ofEntries entries).count = entries.length := by
  cases entries with
  | nil => rfl
  | cons e entries => rfl

theorem LogSummary.count_le (threshold : Float) (entries : List LogEntry) :
    (ofEntries threshold entries).aboveThreshold.count ≤
      (ofEntries threshold entries).all.count := by
  simp only [ofEntries, LogStats.count_ofEntries]
  exact List.length_filter_le _ entries

namespace LogReport

theorem overall_ofLogs (threshold : Float) (logs : List (Text × Text)) :
    (ofLogs threshold logs).overall =
      .ofEntries threshold (LogEntry.ofLog (joinLines (logs.map (·.2)))) := by
  rw [LogEntry.ofLog_joinLines, List.flatMap_map]
  rfl

theorem count_overall (threshold : Float) (logs : List (Text × Text)) :
    let report := ofLogs threshold logs
    report.overall.all.count = (report.logs.map (·.2.all.count)).sum ∧
    report.overall.aboveThreshold.count = (report.logs.map (·.2.aboveThreshold.count)).sum := by
  simp only [ofLogs, LogSummary.ofEntries, LogStats.count_ofEntries, List.map_map,
    List.filter_flatMap, List.length_flatMap, Function.comp_def, and_self]

theorem count_sections_le (threshold : Float) (logs : List (Text × Text)) :
    let report := ofLogs threshold logs
    ∀ s ∈ report.overall :: report.logs.map (·.2), s.aboveThreshold.count ≤ s.all.count := by
  intro report s mem
  rcases List.mem_cons.mp mem with rfl | inLogs
  · exact LogSummary.count_le threshold _
  · obtain ⟨_, inReport, rfl⟩ := List.mem_map.mp inLogs
    obtain ⟨log, -, rfl⟩ := List.mem_map.mp inReport
    exact LogSummary.count_le threshold _

end LogReport

namespace Workplace

/-- The entries of two logs with a line feed between them are those of each. So the overall summary
    of a directory is that of its logs joined in the order of their names, its counts are the sums of
    those of the logs, and at most as many entries are above the threshold as there are anywhere. No
    other file in the directory changes anything about the report. -/
theorem report_of_joined (threshold : Float) :
    (∀ a b, LogEntry.ofLog (a ++ newline :: b) = LogEntry.ofLog a ++ LogEntry.ofLog b) ∧
    ∀ (w : Workplace) (path : Text) (files : Registry Text Text), w.Holds path files →
      ∃ r, w.report threshold path = .ok r ∧
        r.logs = (LogReport.inOrder files).map (fun (name, log) =>
          (name, LogSummary.ofEntries threshold (LogEntry.ofLog log))) ∧
        r.overall = .ofEntries threshold
          (LogEntry.ofLog (joinLines ((LogReport.inOrder files).map (·.2)))) ∧
        r.overall.all.count = (r.logs.map (·.2.all.count)).sum ∧
        r.overall.aboveThreshold.count = (r.logs.map (·.2.aboveThreshold.count)).sum ∧
        (∀ s ∈ r.overall :: r.logs.map (·.2), s.aboveThreshold.count ≤ s.all.count) ∧
        ∀ (w' : Workplace) (path' : Text) (files' : Registry Text Text), w'.Holds path' files' →
          (∀ name, LogReport.isLogName name = true → files'.get? name = files.get? name) →
          w'.report threshold path' = .ok r := by
  refine ⟨LogEntry.ofLog_append, fun w path files holds => ?_⟩
  obtain ⟨counted, countedAbove⟩ := LogReport.count_overall threshold (LogReport.inOrder files)
  refine ⟨LogReport.ofLogs threshold (LogReport.inOrder files), ?_, rfl,
    LogReport.overall_ofLogs threshold _, counted, countedAbove,
    LogReport.count_sections_le threshold _, fun w' path' files' holds' same => ?_⟩
  · rw [report, readAll_logs holds]
    rfl
  · have logs : LogReport.inOrder files' = LogReport.inOrder files := by
      refine (LogReport.increasing_inOrder files').eq_of_mem_iff
        (LogReport.increasing_inOrder files) ?_
      rintro ⟨name, log⟩
      rw [LogReport.mem_inOrder, LogReport.mem_inOrder]
      exact and_congr_left fun isLog => by rw [same name isLog]
    rw [report, readAll_logs holds', logs]
    rfl

/-- Some files in the directory where a command works. -/
def containing (files : Registry Text Text) : Workplace where
  current := []
  tree :=
    { directories := []
      files :=
        { entries := files.entries.map fun e => ([e.1], e.2)
          keys_nodup := by
            have places := files.keys_nodup.map List.singleton_injective
            rwa [List.map_map] at places ⊢ } }

/-- Any files can stand in a directory. -/
theorem holds_containing (files : Registry Text Text) :
    (containing files).Holds Path.here files := by
  refine ⟨[], rfl, fun name => ?_, fun name mem _ => ?_⟩
  · apply Option.ext
    intro content
    rw [Registry.get?_eq_some_iff, Registry.get?_eq_some_iff, containing, List.mem_map]
    simp
  · rw [FileTree.namesIn, mem_firstMentions, List.mem_filterMap] at mem
    obtain ⟨place, filed, here⟩ := mem
    simp only [containing, Registry.keys, List.map_map, List.append_nil, List.mem_map,
      Function.comp_apply] at filed
    obtain ⟨e, stored, rfl⟩ := filed
    cases here
    exact List.mem_map_of_mem stored

/-- Logs of which one has carriage returns, one is empty and one does not end its last line, beside
    a file that is no log. -/
def mixedLogs : Registry Text Text := .ofList
  [ (lit "b.log", lit "Vampire: 20 Minimized: N/A\r\nVampire: Vampire: 9 Minimized: 7\r"),
    (lit "notes.txt", lit "Vampire: 50 Minimized: 40"),
    (lit "c.log", []),
    (lit "a.log", lit "Vampire: 3 Minimized: 3") ]

theorem inOrder_mixedLogs : LogReport.inOrder mixedLogs =
    [ (lit "a.log", lit "Vampire: 3 Minimized: 3"),
      (lit "b.log", lit "Vampire: 20 Minimized: N/A\r\nVampire: Vampire: 9 Minimized: 7\r"),
      (lit "c.log", []) ] :=
  sortBy_eq_of_perm (by decide +kernel) (by decide +kernel)

theorem report_of_joined_mixedLogs : (containing mixedLogs).Holds Path.here mixedLogs ∧
    ∃ r, (containing mixedLogs).report 15 Path.here = .ok r ∧
      r.logs.map (·.1) = [lit "a.log", lit "b.log", lit "c.log"] ∧
      r.overall.all.count = 3 ∧ r.overall.aboveThreshold.count ≤ 3 := by
  have holds := holds_containing mixedLogs
  obtain ⟨r, made, logs, -, counted, -, bounded, -⟩ := (report_of_joined 15).2 _ _ _ holds
  rw [inOrder_mixedLogs] at logs
  have count : r.overall.all.count = 3 := by
    rw [counted, logs]
    simp only [List.map_cons, List.map_nil, LogSummary.ofEntries, LogStats.count_ofEntries]
    decide +kernel
  have above := bounded r.overall List.mem_cons_self
  rw [count] at above
  exact ⟨holds, r, made, by rw [logs]; rfl, count, above⟩

end Workplace

end MagmaTrace
