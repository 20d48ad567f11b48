import MagmaTrace.Proofs.Scan
import MagmaTrace.Proofs.Solid
import MagmaTrace.Translation

/-! # Margins and line ends

The scanner looks at a line without the white space around it. How lines are indented, what is
left at their ends and whether a carriage return precedes a line feed is therefore lost on
everything that follows: translations, reports and errors are the same
(`Translation.ofTranscript_ignores_margins`).
-/

namespace MagmaTrace

open Text

namespace Text

/-- A line, and the same line with or without a carriage return at its end. -/
def MayReturn (line text : Text) : Prop := text = line ∨ text = line ++ [carriageReturn]

theorem MayReturn.cons {line text : Text} (h : MayReturn line text) (u : CodeUnit) :
    MayReturn (u :: line) (u :: text) := by
  rcases h with rfl | rfl
  · exact .inl rfl
  · exact .inr rfl

theorem MayReturn.trim_eq {line text : Text} (h : MayReturn line text) : trim text = trim line := by
  rcases h with rfl | rfl
  · rfl
  · exact trim_append_blank (by decide) line

theorem map_trim_of_mayReturn {xs ys : List Text} (h : List.Forall₂ MayReturn xs ys) :
    ys.map trim = xs.map trim :=
  (map_eq_map_of_forall₂ (h.imp fun _ _ head => head.trim_eq.symm)).symm

/-- One more unit at the start of the first piece. -/
theorem mayReturn_splitAt_cons {u : CodeUnit} (other : u ≠ newline) {a b : Text}
    (h : List.Forall₂ MayReturn (splitAt newline a) (splitAt newline b)) :
    List.Forall₂ MayReturn (splitAt newline (u :: a)) (splitAt newline (u :: b)) := by
  simp only [splitAt, other, if_false]
  generalize splitAt newline a = pieces, splitAt newline b = others at h ⊢
  cases h with
  | nil => exact .nil
  | cons head tail => exact .cons (head.cons u) tail

/-- Lines are what stands between line feeds, less a carriage return before the feed. -/
theorem mayReturn_lines (text : Text) :
    List.Forall₂ MayReturn (lines text) (splitAt newline text) := by
  fun_induction lines text with
  | case1 => exact .cons (.inl rfl) .nil
  | case2 rest ih => exact .cons (.inr rfl) ih
  | case3 rest ih => exact .cons (.inl rfl) ih
  | case4 u rest noReturn noFeed ih =>
      have other : u ≠ newline := fun same => noFeed same
      simp only [splitAt, other, if_false]
      generalize lines rest = found, splitAt newline rest = pieces at ih ⊢
      cases ih with
      | nil => exact .nil
      | cons head tail => exact .cons (head.cons u) tail

/-- A carriage return before every line feed. -/
def addReturns : Text → Text
  | [] => []
  | u :: rest =>
    if u = newline then carriageReturn :: newline :: addReturns rest else u :: addReturns rest

/-- No carriage return right before a line feed, unless there are two. -/
def dropReturns : Text → Text
  | [] => []
  | carriageReturn :: newline :: rest => newline :: dropReturns rest
  | u :: rest => u :: dropReturns rest

theorem mayReturn_addReturns (text : Text) :
    List.Forall₂ MayReturn (splitAt newline text) (splitAt newline (addReturns text)) := by
  induction text with
  | nil => exact .cons (.inl rfl) .nil
  | cons u rest ih =>
      by_cases feed : u = newline
      · subst feed
        exact .cons (.inr rfl) ih
      · simp only [addReturns, feed, if_false]
        exact mayReturn_splitAt_cons feed ih

theorem mayReturn_dropReturns (text : Text) :
    List.Forall₂ MayReturn (splitAt newline (dropReturns text)) (splitAt newline text) := by
  fun_induction dropReturns text with
  | case1 => exact .cons (.inl rfl) .nil
  | case2 rest ih => exact .cons (.inr rfl) ih
  | case3 u rest notBoth ih =>
      by_cases feed : u = newline
      · subst feed
        exact .cons (.inl rfl) ih
      · exact mayReturn_splitAt_cons feed ih

theorem map_trim_lines_addReturns (text : Text) :
    (lines (addReturns text)).map trim = (lines text).map trim := by
  rw [← map_trim_of_mayReturn (mayReturn_lines _), ← map_trim_of_mayReturn (mayReturn_lines _),
    map_trim_of_mayReturn (mayReturn_addReturns text)]

theorem map_trim_lines_dropReturns (text : Text) :
    (lines (dropReturns text)).map trim = (lines text).map trim := by
  rw [← map_trim_of_mayReturn (mayReturn_lines _), ← map_trim_of_mayReturn (mayReturn_lines _),
    map_trim_of_mayReturn (mayReturn_dropReturns text)]

end Text

/-! ## What depends on trimmed lines only -/

theorem Phase.step_congr_trim (phase : Phase) {a b : Text} (same : trim a = trim b) :
    phase.step a = phase.step b := by
  unfold step
  rw [same]

namespace Scanner

theorem feed_congr_trim (s : Scanner) (line : Nat) {a b : Text} (same : trim a = trim b) :
    s.feed a line = s.feed b line := by
  unfold feed
  rw [s.phase.step_congr_trim same, same]

/-- Errors included: they show trimmed lines, and places within these. -/
theorem feedAll_congr_trim {as bs : List Text} (same : as.map trim = bs.map trim) (s : Scanner)
    (line : Nat) : s.feedAll line as = s.feedAll line bs := by
  induction as generalizing s line bs with
  | nil =>
      rw [List.map_eq_nil_iff.mp same.symm]
  | cons a as ih =>
      cases bs with
      | nil => cases same
      | cons b bs =>
          obtain ⟨first, rest⟩ := List.cons.inj same
          rw [feedAll, feedAll, s.feed_congr_trim line first]
          rcases s.feed b line with ⟨next, _ | e⟩
          · exact ih rest next (line + 1)
          · rfl

end Scanner

theorem Records.ofTranscript_congr_trim {a b : Text}
    (same : (lines a).map trim = (lines b).map trim) :
    ofTranscript a = ofTranscript b := by
  unfold ofTranscript
  rw [Scanner.initial.feedAll_congr_trim same 1]

namespace Translation

theorem ofTranscript_of_records {a b : Text}
    (same : Records.ofTranscript a = Records.ofTranscript b) (o : Options) :
    ofTranscript a o = ofTranscript b o := by
  unfold ofTranscript
  rw [same]

/-- Line ends and indentation do not matter: transcripts whose lines differ in the white space
    around them only are translated alike, with the same reports, to the same script or the same
    error. A transcript may so be given carriage returns, or lose them. -/
theorem ofTranscript_ignores_margins {a b : Text}
    (same : List.Forall₂ (fun x y => trim x = trim y) (lines a) (lines b)) (o : Options) :
    ofTranscript a o = ofTranscript b o ∧
      ofTranscript (addReturns a) o = ofTranscript a o ∧
      ofTranscript (dropReturns a) o = ofTranscript a o := by
  have alike {a b : Text} (same : (lines a).map trim = (lines b).map trim) :
      ofTranscript a o = ofTranscript b o :=
    ofTranscript_of_records (Records.ofTranscript_congr_trim same) o
  exact ⟨alike (map_eq_map_of_forall₂ same), alike (map_trim_lines_addReturns a),
    alike (map_trim_lines_dropReturns a)⟩

/-- A transcript that declares a malformed hypothesis over two lines. -/
def flushLines : Text := joinLines
  [ lit "fof(g,conjecture,X=X).",
    lit "fof(h,axiom,",
    lit "X=op(X,))." ]

/-- The same with indented lines, one of which has two carriage returns at its end. -/
def indentedLines : Text := join [carriageReturn, newline]
  [ lit "fof(g,conjecture,X=X).",
    lit "  fof(h,axiom, \r",
    lit "\tX=op(X,))." ]

theorem flushLines_evaluated :
    (match (ofTranscript flushLines Options.standard).2 with
      | .error (.malformed e) => some (e.line, e.source)
      | _ => none) = some (2, lit "X=op(X,)") := by
  decide +kernel

/-- The fault is found on the same line, and shown with the same text. -/
theorem ofTranscript_ignores_margins_indentedLines :
    List.Forall₂ (fun x y => trim x = trim y) (lines flushLines) (lines indentedLines) ∧
    ofTranscript flushLines Options.standard = ofTranscript indentedLines Options.standard ∧
    (match (ofTranscript indentedLines Options.standard).2 with
      | .error (.malformed e) => some (e.line, e.source)
      | _ => none) = some (2, lit "X=op(X,)") := by
  have same :
      List.Forall₂ (fun x y => trim x = trim y) (lines flushLines) (lines indentedLines) := by
    decide +kernel
  obtain ⟨alike, -, -⟩ := ofTranscript_ignores_margins same Options.standard
  exact ⟨same, alike, alike ▸ flushLines_evaluated⟩

end Translation

end MagmaTrace
