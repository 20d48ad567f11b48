import MagmaTrace.Proofs.Recasing

/-! # Steps and justifications

A block's chain has one step for each of its justifications, whatever else the block holds. A
justification makes a step when a term stands directly before it and directly after it, and the
token it cites has a name. The first one for which this fails stops the chain, with an error of
its own (`CalcStep.ofBlock_by_sites`).
-/

namespace MagmaTrace

open Text

/-- A token without a name is reported with the place where it is cited. -/
theorem Naming.eq_of_resolve_error {n : Naming} {token : Text} {context : Option Text}
    {e : MissingDependency} (h : n.resolve token context = .error e) : e = ⟨token, context⟩ := by
  unfold resolve at h
  split at h
  · cases h
  · split at h
    · cases h
    · split_ifs at h
      cases h
      rfl

namespace CalcStep

/-! ## Usable lines -/

/-- A line that can stand beside a justification, and the term it begins with. -/
structure Usable (line : ProofLine) (t : Term) : Prop where
  nonempty : line.text ≠ []
  notHeading : lower line.text ≠ lit "proof:"
  notReason : isJustification line.text = false
  starts : ∃ stop, Term.readAt line.text 0 = .ok (t, stop)

theorem usable_iff {line : ProofLine} {t : Term} : Usable line t ↔ side? line = some t := by
  have possible : isSide line.text = true ↔
      line.text ≠ [] ∧ lower line.text ≠ lit "proof:" ∧ isJustification line.text = false := by
    simp [isSide, and_assoc]
  constructor
  · intro h
    obtain ⟨stop, isRead⟩ := h.starts
    rw [side?, if_pos (possible.mpr ⟨h.nonempty, h.notHeading, h.notReason⟩), isRead]
    rfl
  · intro h
    unfold side? at h
    split at h
    · next isPossible =>
        obtain ⟨nonempty, notHeading, notReason⟩ := possible.mp isPossible
        obtain ⟨⟨_, stop⟩, found, rfl⟩ := Option.map_eq_some_iff.mp h
        exact ⟨nonempty, notHeading, notReason, stop, toOption_eq_some_iff.mp found⟩
    · cases h

theorem not_isJustification_of_heading {text : Text} (h : lower text = lit "proof:") :
    isJustification text = false := by
  have noSign : ∀ u ∈ text.head?, u ≠ '=' := by
    rintro u first rfl
    have lowered : (lowerLetters text).head? = some (lowerLetter '=') := by
      rw [lowerLetters, List.head?_map, Option.mem_def.mp first, Option.map_some]
    rw [(lower_eq_iff (by decide) (by decide)).mp h] at lowered
    exact absurd lowered (by decide)
  have noStart : strip? (lit "=") text = none := strip?_of_head noSign []
  simp [isJustification, noStart]

/-- There is a line beside a justification, and it can be used. -/
def HasSide (beside : Option ProofLine) : Prop := ∃ line ∈ beside, ∃ t, Usable line t

/-- A term as the side of a step. -/
def written (r : Renaming) (t : Term) : Text := (t.rename r.apply).lean

/-- Why there is no side: no line can stand there, or the line there begins with no term. -/
inductive SideFails (side : Neighbour) (reason : ProofLine) :
    Option ProofLine → LineError → Prop where
  | missing {beside : Option ProofLine} (impossible : ∀ line ∈ beside, isSide line.text = false) :
      SideFails side reason beside
        ⟨reason.line, reason.text, .whole (.neighbour side) reason.text⟩
  | malformed {line : ProofLine} {fault : SyntaxError} (possible : isSide line.text = true)
      (stuck : Term.readAt line.text 0 = .error fault) :
      SideFails side reason (some line) ⟨line.line, line.text, fault⟩

theorem readSide_error_iff {r : Renaming} {side : Neighbour} {reason : ProofLine}
    {beside : Option ProofLine} {e : LineError} :
    readSide r side reason beside = .error e ↔ SideFails side reason beside e := by
  constructor
  · intro h
    unfold readSide at h
    split at h
    · cases h
      exact .missing (by simp)
    · next line =>
        split at h
        · next possible =>
            split at h
            · cases h
            · next stuck =>
                cases h
                exact .malformed possible stuck
        · next impossible =>
            cases h
            exact .missing (by simpa using impossible)
  · intro h
    cases h with
    | missing impossible =>
        cases beside with
        | none => rfl
        | some line => simp [readSide, readSide.missing, impossible line rfl]
    | malformed possible stuck => simp [readSide, possible, stuck]

theorem readSide_ok_iff_usable {r : Renaming} {side : Neighbour} {reason : ProofLine}
    {beside : Option ProofLine} {text : Text} : readSide r side reason beside = .ok text ↔
      ∃ line ∈ beside, ∃ t, Usable line t ∧ text = written r t := by
  rw [readSide_ok_iff]
  simp only [usable_iff, Option.bind_eq_some_iff, written]
  constructor
  · rintro ⟨t, ⟨line, found, states⟩, rfl⟩
    exact ⟨line, found, t, states, rfl⟩
  · rintro ⟨line, found, t, states, rfl⟩
    exact ⟨t, ⟨line, found, states⟩, rfl⟩

theorem hasSide_of_readSide {r : Renaming} {side : Neighbour} {reason : ProofLine}
    {beside : Option ProofLine} {text : Text} (h : readSide r side reason beside = .ok text) :
    HasSide beside := by
  obtain ⟨line, found, t, usable, -⟩ := readSide_ok_iff_usable.mp h
  exact ⟨line, found, t, usable⟩

/-! ## Sites -/

/-- A line with the lines directly before and after it. -/
structure Site where
  before : Option ProofLine
  line : ProofLine
  after : Option ProofLine

/-- The sites of the lines that come after some others. -/
def sitesAfter (shown lines : List ProofLine) : List Site :=
  lines.mapIdx fun i line => ⟨(shown ++ lines.take i).getLast?, line, lines[i + 1]?⟩

theorem sitesAfter_cons (shown : List ProofLine) (line : ProofLine) (rest : List ProofLine) :
    sitesAfter shown (line :: rest) =
      ⟨shown.getLast?, line, rest.head?⟩ :: sitesAfter (shown ++ [line]) rest := by
  simp [sitesAfter, List.mapIdx_cons, List.head?_eq_getElem?]

/-- The justifications of a block where they stand. -/
def reasons (lines : List ProofLine) : List Site :=
  (sitesAfter [] lines).filter (isJustification ·.line.text)

namespace Site

variable {r : Renaming} {n : Naming} {s : Site}

/-- The step that a justification makes. -/
def step (r : Renaming) (n : Naming) (s : Site) : Except TranslationError CalcStep :=
  ofLines r n s.before s.line s.after

/-- What a justification needs: a term on each side, and a token that has a name. -/
structure Sound (n : Naming) (s : Site) : Prop where
  left : HasSide s.before
  right : HasSide s.after
  resolves : ∃ token ∈ citedToken? s.line.text, ∃ name, n.resolve token none = .ok name

/-- A step is what a justification makes of the terms beside it and the token it cites. -/
structure Makes (r : Renaming) (n : Naming) (s : Site) (step : CalcStep) : Prop where
  left : ∃ line ∈ s.before, ∃ t, Usable line t ∧ step.lhs = written r t
  right : ∃ line ∈ s.after, ∃ t, Usable line t ∧ step.rhs = written r t
  resolves : ∃ token ∈ citedToken? s.line.text, n.resolve token none = .ok step.justification
  line : step.line = s.line.line

/-- Why a justification makes no step: what it needs is looked for in this order, and the first
    thing that it does not have is to blame. -/
inductive Fails (n : Naming) (s : Site) : TranslationError → Prop where
  | uncited (none : citedToken? s.line.text = none) :
      Fails n s (.missingDependency ⟨s.line.text, some (lit "line " ++ decimal s.line.line)⟩)
  | left {e : LineError} (cited : citedToken? s.line.text ≠ none)
      (fails : SideFails .left s.line s.before e) : Fails n s (.malformed e)
  | right {e : LineError} (cited : citedToken? s.line.text ≠ none) (left : HasSide s.before)
      (fails : SideFails .right s.line s.after e) : Fails n s (.malformed e)
  | unresolved {token : Text} (left : HasSide s.before) (right : HasSide s.after)
      (cited : token ∈ citedToken? s.line.text)
      (unknown : ∀ name, n.resolve token none ≠ .ok name) :
      Fails n s (.missingDependency
        ⟨token, some (lit "line " ++ decimal s.line.line ++ lit ": " ++ s.line.text)⟩)

theorem step_ok_iff {step : CalcStep} : s.step r n = .ok step ↔ s.Makes r n step := by
  unfold Site.step ofLines
  rcases cited : citedToken? s.line.text with _ | token
  · constructor
    · rintro ⟨⟩
    · intro makes
      obtain ⟨token, found, -⟩ := makes.resolves
      rw [cited] at found
      cases found
  · simp only [bind_ok_iff, mapError_ok_iff, pure_ok_iff, readSide_ok_iff_usable]
    constructor
    · rintro ⟨lhs, ⟨before, atLeft, left, usableLeft, rfl⟩, rhs,
        ⟨after, atRight, right, usableRight, rfl⟩, name, resolved, rfl⟩
      exact ⟨⟨before, atLeft, left, usableLeft, rfl⟩, ⟨after, atRight, right, usableRight, rfl⟩,
        ⟨token, cited, Naming.resolve_context resolved none⟩, rfl⟩
    · rintro ⟨⟨before, atLeft, left, usableLeft, lhs⟩, ⟨after, atRight, right, usableRight, rhs⟩,
        ⟨other, found, resolved⟩, line⟩
      obtain rfl : token = other := Option.some.inj (cited.symm.trans found)
      refine ⟨_, ⟨before, atLeft, left, usableLeft, rfl⟩, _,
        ⟨after, atRight, right, usableRight, rfl⟩, _, Naming.resolve_context resolved _, ?_⟩
      rw [← lhs, ← rhs, ← line]

theorem sound_iff : s.Sound n ↔ ∃ step, s.step r n = .ok step := by
  simp only [step_ok_iff]
  constructor
  · rintro ⟨⟨before, atLeft, left, usableLeft⟩, ⟨after, atRight, right, usableRight⟩,
      token, cited, name, resolved⟩
    exact ⟨⟨written r left, written r right, name, s.line.line⟩,
      ⟨before, atLeft, left, usableLeft, rfl⟩, ⟨after, atRight, right, usableRight, rfl⟩,
      ⟨token, cited, resolved⟩, rfl⟩
  · rintro ⟨step, ⟨before, atLeft, left, usableLeft, -⟩, ⟨after, atRight, right, usableRight, -⟩,
      ⟨token, cited, resolved⟩, -⟩
    exact ⟨⟨before, atLeft, left, usableLeft⟩, ⟨after, atRight, right, usableRight⟩,
      token, cited, _, resolved⟩

theorem step_error {e : TranslationError} (h : s.step r n = .error e) : s.Fails n e := by
  unfold Site.step ofLines at h
  rcases cited : citedToken? s.line.text with _ | token
  · rw [cited] at h
    cases h
    exact .uncited cited
  · have isCited : citedToken? s.line.text ≠ none := by simp [cited]
    simp only [cited, bind_error_iff, mapError_error_iff, mapError_ok_iff] at h
    rcases h with ⟨e, failed, rfl⟩ | ⟨lhs, left, ⟨e, failed, rfl⟩ |
      ⟨rhs, right, ⟨e, failed, rfl⟩ | ⟨name, -, ⟨⟩⟩⟩⟩
    · exact .left isCited (readSide_error_iff.mp failed)
    · exact .right isCited (hasSide_of_readSide left) (readSide_error_iff.mp failed)
    · have unknown (name : Text) : n.resolve token none ≠ .ok name := by
        intro resolved
        rw [Naming.resolve_context resolved] at failed
        cases failed
      rw [Naming.eq_of_resolve_error failed]
      exact .unresolved (hasSide_of_readSide left) (hasSide_of_readSide right) cited unknown

end Site

/-! ## The chain of a block -/

theorem ofLinesAfter_eq_mapM (r : Renaming) (n : Naming) (shown lines : List ProofLine) :
    ofLinesAfter r n shown.getLast? lines =
      ((sitesAfter shown lines).filter (isJustification ·.line.text)).mapM (Site.step r n) := by
  induction lines generalizing shown with
  | nil => rfl
  | cons line rest ih =>
      have later := ih (shown ++ [line])
      rw [List.getLast?_concat] at later
      rw [sitesAfter_cons, ofLinesAfter, later, List.filter_cons]
      by_cases justifies : isJustification line.text = true
      · simp only [justifies, if_true, List.mapM_cons]
        rfl
      · simp only [justifies, Bool.false_eq_true, if_false]

theorem ofBlock_eq_mapM (r : Renaming) (n : Naming) (block : ProofBlock) :
    ofBlock r n block = (reasons block.lines).mapM (Site.step r n) :=
  ofLinesAfter_eq_mapM r n [] block.lines

/-! ## Blocks of terms with a justification between each two -/

/-- A justification that cites a name, and the line after it with the term it begins with. -/
structure Round where
  reason : ProofLine
  name : Text
  line : ProofLine
  term : Term

namespace Round

structure Sound (n : Naming) (w : Round) : Prop where
  justifies : isJustification w.reason.text = true
  resolves : ∃ token ∈ citedToken? w.reason.text, n.resolve token none = .ok w.name
  usable : Usable w.line w.term

def lines (w : Round) : List ProofLine := [w.reason, w.line]

end Round

/-- The chain that starts from a term and goes on round by round. -/
def chain (r : Renaming) (t : Term) : List Round → List CalcStep
  | [] => []
  | w :: rest => ⟨written r t, written r w.term, w.name, w.reason.line⟩ :: chain r w.term rest

theorem length_chain (r : Renaming) (t : Term) (rounds : List Round) :
    (chain r t rounds).length = rounds.length := by
  induction rounds generalizing t with
  | nil => rfl
  | cons w rest ih => rw [chain, List.length_cons, List.length_cons, ih]

/-- A chain leads from its first term to its last, and each step starts where the one before it
    ends. -/
theorem sides_chain (r : Renaming) (t : Term) (rounds : List Round) :
    (chain r t rounds).map (·.lhs) ++ [written r ((rounds.map (·.term)).getLastD t)] =
      written r t :: (chain r t rounds).map (·.rhs) := by
  induction rounds generalizing t with
  | nil => rfl
  | cons w rest ih =>
      rw [chain, List.map_cons, List.map_cons, List.map_cons, List.getLastD_cons,
        List.cons_append, ih]

theorem ofLinesAfter_skip {r : Renaming} {n : Naming} {before : Option ProofLine}
    {line : ProofLine} (h : isJustification line.text = false) (rest : List ProofLine) :
    ofLinesAfter r n before (line :: rest) = ofLinesAfter r n (some line) rest := by
  rw [ofLinesAfter, h]
  rfl

theorem ofLinesAfter_rounds {r : Renaming} {n : Naming} {before : Option ProofLine}
    {first : ProofLine} {t : Term} {rounds : List Round} (usable : Usable first t)
    (sound : ∀ w ∈ rounds, w.Sound n) :
    ofLinesAfter r n before (first :: rounds.flatMap Round.lines) = .ok (chain r t rounds) := by
  induction rounds generalizing before first t with
  | nil => exact ofLinesAfter_skip usable.notReason []
  | cons w rest ih =>
      obtain ⟨here, later⟩ := List.forall_mem_cons.mp sound
      have made : ofLines r n (some first) w.reason (some w.line) =
          .ok ⟨written r t, written r w.term, w.name, w.reason.line⟩ :=
        Site.step_ok_iff (s := ⟨some first, w.reason, some w.line⟩).mpr
          ⟨⟨first, rfl, t, usable, rfl⟩, ⟨w.line, rfl, w.term, here.usable, rfl⟩,
            here.resolves, rfl⟩
      rw [ofLinesAfter_skip usable.notReason, List.flatMap_cons, Round.lines, List.cons_append,
        List.singleton_append, ofLinesAfter, if_pos here.justifies, List.head?_cons, made,
        ih here.usable later]
      rfl

/-- What a block makes of its justifications. It succeeds exactly when each has a term directly
    before and directly after it and cites a token that has a name; it then has one step for each,
    in order. So terms with a justification between each two, after a heading or not, make a chain
    from the first term to the last. A failure is that of the first justification that lacks
    something. -/
theorem ofBlock_by_sites (r : Renaming) (n : Naming) (block : ProofBlock) :
    ((∃ steps, ofBlock r n block = .ok steps) ↔ ∀ s ∈ reasons block.lines, s.Sound n) ∧
      (∀ steps, ofBlock r n block = .ok steps →
        List.Forall₂ (Site.Makes r n) (reasons block.lines) steps) ∧
      (∀ e, ofBlock r n block = .error e → ∃ earlier s later,
        reasons block.lines = earlier ++ s :: later ∧ (∀ other ∈ earlier, other.Sound n) ∧
          ¬ s.Sound n ∧ s.Fails n e) ∧
      ∀ opening first t rounds,
        (opening = [] ∨ ∃ heading : ProofLine, opening = [heading] ∧
          lower heading.text = lit "proof:") →
        Usable first t → (∀ w ∈ rounds, w.Sound n) →
        block.lines = opening ++ first :: rounds.flatMap Round.lines →
        ofBlock r n block = .ok (chain r t rounds) ∧
          (chain r t rounds).length = rounds.length ∧
          (chain r t rounds).map (·.lhs) ++ [written r ((rounds.map (·.term)).getLastD t)] =
            written r t :: (chain r t rounds).map (·.rhs) := by
  refine ⟨?_, ?_, ?_, ?_⟩
  · rw [ofBlock_eq_mapM, exists_mapM_ok_iff]
    exact forall₂_congr fun s _ => Site.sound_iff.symm
  · intro steps made
    rw [ofBlock_eq_mapM, mapM_ok_iff] at made
    exact made.imp fun s step => Site.step_ok_iff.mp
  · intro e failed
    rw [ofBlock_eq_mapM] at failed
    obtain ⟨earlier, s, later, split, succeed, fails⟩ := exists_first_of_mapM_error failed
    refine ⟨earlier, s, later, split, fun other mem => Site.sound_iff.mpr (succeed other mem), ?_,
      Site.step_error fails⟩
    intro sound
    obtain ⟨step, made⟩ := Site.sound_iff.mp sound
    rw [made] at fails
    cases fails
  · intro opening first t rounds opens usable sound split
    refine ⟨?_, length_chain r t rounds, sides_chain r t rounds⟩
    rw [ofBlock, split]
    obtain rfl | ⟨heading, rfl, isHeading⟩ := opens
    · exact ofLinesAfter_rounds usable sound
    · rw [List.singleton_append, ofLinesAfter_skip (not_isJustification_of_heading isHeading)]
      exact ofLinesAfter_rounds usable sound

/-- From a product to the product the other way round. -/
def forth : Round :=
  ⟨⟨lit "= \x7b by axiom 1 (a1) \x7d", 3⟩, lit "op_law", ⟨lit "op(b, a)", 4⟩,
    .op (.var (lit "b")) (.var (lit "a"))⟩

/-- And back. -/
def back : Round :=
  ⟨⟨lit "= \x7b by axiom 1 (a1) R->L \x7d", 5⟩, lit "op_law", ⟨lit "op(a, b)", 6⟩,
    .op (.var (lit "a")) (.var (lit "b"))⟩

def thereAndBack : ProofBlock :=
  ⟨lit "g", [⟨lit "Proof:", 1⟩, ⟨lit "op(a, b)", 2⟩] ++ forth.lines ++ back.lines⟩

theorem ofBlock_by_sites_thereAndBack :
    ofBlock ∅ (Naming.initial (lit "op_law")) thereAndBack = .ok
      [⟨lit "(a ◇ b)", lit "(b ◇ a)", lit "op_law", 3⟩,
        ⟨lit "(b ◇ a)", lit "(a ◇ b)", lit "op_law", 5⟩] := by
  have soundForth : forth.Sound (Naming.initial (lit "op_law")) :=
    ⟨by decide +kernel, ⟨lit "a1", by decide +kernel, rfl⟩, usable_iff.mpr (by decide +kernel)⟩
  have soundBack : back.Sound (Naming.initial (lit "op_law")) :=
    ⟨by decide +kernel, ⟨lit "a1", by decide +kernel, rfl⟩, usable_iff.mpr (by decide +kernel)⟩
  have usable : Usable ⟨lit "op(a, b)", 2⟩ back.term := usable_iff.mpr (by decide +kernel)
  obtain ⟨-, -, -, chains⟩ := ofBlock_by_sites ∅ (Naming.initial (lit "op_law")) thereAndBack
  obtain ⟨made, -⟩ := chains [⟨lit "Proof:", 1⟩] _ _ [forth, back]
    (.inr ⟨_, rfl, by decide +kernel⟩) usable
    (by simp [soundForth, soundBack]) rfl
  exact made

end CalcStep

end MagmaTrace
