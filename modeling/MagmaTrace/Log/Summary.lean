import MagmaTrace.Log.Entry
import MagmaTrace.Text.Order

/-! # Summaries of prover logs

The average lengths of the proofs of a log are given twice: over all entries, and over those
whose length as found is at or above a threshold. A directory of logs is summarized log by
log in the order of their names, and as a whole.
-/

namespace MagmaTrace

open Text

/-- The number of some entries and their average lengths; zero for no entries. -/
structure LogStats where
  count : Nat
  averageFound : Float
  averageMinimized : Float

namespace LogStats

/-- A sum from left to right, starting from zero. -/
def sum (f : LogEntry → Float) (entries : List LogEntry) : Float :=
  entries.foldl (fun total e => total + f e) 0

def ofEntries (entries : List LogEntry) : LogStats :=
  if entries.isEmpty then ⟨0, 0, 0⟩
  else
    let count := entries.length
    ⟨count, sum LogEntry.found entries / count.toFloat,
      sum LogEntry.minimized entries / count.toFloat⟩

/-- The statistics as text, under a label. -/
def write (label : Text) (s : LogStats) : List Text :=
  [ label ++ lit ":",
    lit "  Count: " ++ decimal s.count,
    lit "  Avg Vampire:   " ++ Binary64.twoPlaces s.averageFound,
    lit "  Avg Minimized: " ++ Binary64.twoPlaces s.averageMinimized ]

end LogStats

/-- The statistics of a log, with and without its short proofs. -/
structure LogSummary where
  all : LogStats
  aboveThreshold : LogStats

namespace LogSummary

/-- The threshold in force when none is given. -/
def standardThreshold : Float := 15

def ofEntries (threshold : Float) (entries : List LogEntry) : LogSummary :=
  ⟨.ofEntries entries, .ofEntries (entries.filter fun e => e.found ≥ threshold)⟩

/-- A summary as text, under a title. -/
def write (title : Text) (threshold : Float) (s : LogSummary) : Text :=
  joinLines ([lit "=== " ++ title ++ lit " ==="] ++ s.all.write (lit "ALL") ++
    s.aboveThreshold.write (lit "VAMPIRE >= " ++ Binary64.floatText threshold))

end LogSummary

/-- The summaries of the logs of a directory, and of all their entries together. -/
structure LogReport where
  threshold : Float
  logs : List (Text × LogSummary)
  overall : LogSummary

namespace LogReport

/-- Whether a file of this name is a log. -/
def isLogName (name : Text) : Bool := endsWith (lit ".log") name

/-- The report on some logs, given by name and content in the order to be reported. -/
def ofLogs (threshold : Float) (logs : List (Text × Text)) : LogReport :=
  { threshold := threshold
    logs := logs.map fun (name, log) => (name, .ofEntries threshold (LogEntry.ofLog log))
    overall := .ofEntries threshold (logs.flatMap fun (_, log) => LogEntry.ofLog log) }

/-- A report as text: a blank line stands before every section. -/
def write (r : LogReport) : Text :=
  let sections := r.logs.map fun (name, s) => s.write name r.threshold
  let overall := r.overall.write (lit "OVERALL SUMMARY (ALL FILES)") r.threshold
  joinLines ((sections ++ [overall]).map (newline :: ·))

end LogReport

end MagmaTrace
