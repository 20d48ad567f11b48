import Mathlib.Data.List.Infix
import Mathlib.Data.List.TakeWhile
import MagmaTrace.Proofs.Solid
import MagmaTrace.Text.Case
import MagmaTrace.Text.Cut
import MagmaTrace.Text.Order

/-! # What a search finds

A search over all positions of a text finds what its test answers on some end of the text;
the first answer is one with no answer before it.
-/

namespace MagmaTrace

namespace Text

/-! ## Tests made at every position -/

theorem mem_scan {α : Type} {test : Text → Option α} {text : Text} {x : α} :
    x ∈ scan test text ↔ ∃ before rest, text = before ++ rest ∧ test rest = some x := by
  induction text with
  | nil =>
      simp only [scan, Option.mem_toList]
      constructor
      · intro found
        exact ⟨[], [], rfl, found⟩
      · rintro ⟨before, rest, split, found⟩
        obtain ⟨-, rfl⟩ := List.append_eq_nil_iff.mp split.symm
        exact found
  | cons u more ih =>
      simp only [scan, List.mem_append, Option.mem_toList, ih]
      constructor
      · rintro (here | ⟨before, rest, rfl, found⟩)
        · exact ⟨[], u :: more, rfl, here⟩
        · exact ⟨u :: before, rest, rfl, found⟩
      · rintro ⟨before, rest, split, found⟩
        cases before with
        | nil =>
            rw [List.nil_append] at split
            exact .inl (split ▸ found)
        | cons v before =>
            obtain ⟨rfl, rfl⟩ := List.cons.inj split
            exact .inr ⟨before, rest, rfl, found⟩

/-- What has no answer at the positions of a beginning finds nothing there. -/
theorem scan_append_of_none {α : Type} {test : Text → Option α} {passed text : Text}
    (h : ∀ before rest, passed = before ++ rest → rest ≠ [] → test (rest ++ text) = none) :
    scan test (passed ++ text) = scan test text := by
  induction passed with
  | nil => rfl
  | cons u more ih =>
      have here : test (u :: (more ++ text)) = none := h [] (u :: more) rfl (by simp)
      rw [List.cons_append, scan, here, Option.toList_none, List.nil_append]
      refine ih fun before rest split nonempty => h (u :: before) rest ?_ nonempty
      rw [split, List.cons_append]

/-- The first answer is an answer, and the test has none at any earlier position. -/
theorem first?_eq_some {α : Type} {test : Text → Option α} {text : Text} {x : α}
    (h : first? test text = some x) : ∃ before rest, text = before ++ rest ∧ test rest = some x ∧
      ∀ earlier later, before = earlier ++ later → later ≠ [] → test (later ++ rest) = none := by
  induction text with
  | nil => exact ⟨[], [], rfl, h, by simp⟩
  | cons u more ih =>
      rw [first?, Option.or_eq_some_iff] at h
      rcases h with here | ⟨none, later⟩
      · exact ⟨[], u :: more, rfl, here, by simp⟩
      · obtain ⟨before, rest, rfl, found, clear⟩ := ih later
        refine ⟨u :: before, rest, rfl, found, ?_⟩
        intro earlier tail split nonempty
        cases earlier with
        | nil =>
            rw [List.nil_append] at split
            rw [← split]
            exact none
        | cons v earlier =>
            obtain ⟨-, rfl⟩ := List.cons.inj split
            exact clear earlier tail rfl nonempty

theorem first?_of_some {α : Type} {test : Text → Option α} {text : Text} {x : α}
    (h : test text = some x) : first? test text = some x := by
  cases text with
  | nil => exact h
  | cons u more => rw [first?, h, Option.some_or]

/-- A search passes over a beginning at whose positions the test has no answer. -/
theorem first?_append_of_none {α : Type} {test : Text → Option α} {passed text : Text}
    (h : ∀ before rest, passed = before ++ rest → rest ≠ [] → test (rest ++ text) = none) :
    first? test (passed ++ text) = first? test text := by
  induction passed with
  | nil => rfl
  | cons u more ih =>
      have here : test (u :: (more ++ text)) = none := h [] (u :: more) rfl (by simp)
      rw [List.cons_append, first?, here, Option.none_or]
      refine ih fun before rest split nonempty => h (u :: before) rest ?_ nonempty
      rw [split, List.cons_append]

theorem first?_eq_none {α : Type} {test : Text → Option α} {text : Text} :
    first? test text = none ↔ ∀ before rest, text = before ++ rest → test rest = none := by
  induction text with
  | nil => simp [first?]
  | cons u more ih =>
      rw [first?, Option.or_eq_none_iff, ih]
      constructor
      · rintro ⟨here, later⟩ before rest split
        cases before with
        | nil =>
            rw [List.nil_append] at split
            rw [← split]
            exact here
        | cons v before =>
            obtain ⟨-, rfl⟩ := List.cons.inj split
            exact later before rest rfl
      · intro clear
        exact ⟨clear [] _ rfl, fun before rest split => clear (u :: before) rest (by simp [split])⟩

/-- A test holds somewhere in a text when the text can be cut at a place where it does. -/
theorem holdsSomewhere_iff {test : Option CodeUnit → Text → Bool} {start : Option CodeUnit}
    {text : Text} : holdsSomewhere test start text = true ↔
      ∃ before rest, text = before ++ rest ∧ test (before.getLast?.or start) rest = true := by
  induction text generalizing start with
  | nil =>
      rw [holdsSomewhere]
      constructor
      · intro here
        exact ⟨[], [], rfl, here⟩
      · rintro ⟨before, rest, split, here⟩
        obtain ⟨rfl, rfl⟩ := List.append_eq_nil_iff.mp split.symm
        exact here
  | cons u more ih =>
      have passed (before : Text) :
          (u :: before).getLast?.or start = before.getLast?.or (some u) := by
        cases last : before.getLast? <;> simp [List.getLast?_cons, last]
      rw [holdsSomewhere, Bool.or_eq_true, ih]
      constructor
      · rintro (here | ⟨before, rest, rfl, later⟩)
        · exact ⟨[], u :: more, rfl, here⟩
        · exact ⟨u :: before, rest, rfl, by rwa [passed]⟩
      · rintro ⟨before, rest, split, found⟩
        cases before with
        | nil =>
            rw [List.nil_append] at split
            exact .inl (split ▸ found)
        | cons v before =>
            obtain ⟨rfl, rfl⟩ := List.cons.inj split
            exact .inr ⟨before, rest, rfl, by rwa [passed] at found⟩

theorem endsWith_iff {tail text : Text} : endsWith tail text = true ↔ tail <:+ text := by
  rw [endsWith, startsWith, Option.isSome_iff_exists]
  constructor
  · rintro ⟨rest, found⟩
    refine ⟨rest.reverse, ?_⟩
    rw [← List.reverse_inj, List.reverse_append, List.reverse_reverse]
    exact (strip?_eq_some.mp found).symm
  · rintro ⟨rest, rfl⟩
    exact ⟨rest.reverse, strip?_eq_some.mpr (List.reverse_append ..)⟩

theorem occurs_iff {mark text : Text} : occurs mark text = true ↔ mark <:+: text := by
  constructor
  · intro found
    obtain ⟨rest, found⟩ := Option.isSome_iff_exists.mp found
    obtain ⟨before, _, rfl, stripped, -⟩ := first?_eq_some found
    exact ⟨before, rest, by rw [strip?_eq_some.mp stripped, List.append_assoc]⟩
  · rintro ⟨before, rest, rfl⟩
    rw [occurs, Option.isSome_iff_ne_none]
    intro none
    have missed := first?_eq_none.mp none before (mark ++ rest) (List.append_assoc ..)
    rw [strip?_eq_some.mpr rfl] at missed
    cases missed

/-! ## What holds at every unit -/

/-- What holds at every unit of a part of a text, with what stands before and after the part. -/
def Throughout (P : Text → CodeUnit → Text → Prop) (before part after : Text) : Prop :=
  ∀ a u b, part = a ++ u :: b → P (before ++ a) u (b ++ after)

section

variable {P : Text → CodeUnit → Text → Prop} {before after : Text}

theorem throughout_cons {u : CodeUnit} {part : Text} : Throughout P before (u :: part) after ↔
    P before u (part ++ after) ∧ Throughout P (before ++ [u]) part after := by
  constructor
  · intro all
    refine ⟨?_, fun a v b split => ?_⟩
    · have here := all [] u part rfl
      rwa [List.append_nil] at here
    · have later := all (u :: a) v b (congrArg (u :: ·) split)
      rwa [List.append_cons] at later
  · rintro ⟨here, later⟩ a v b split
    cases a with
    | nil =>
        obtain ⟨rfl, rfl⟩ := List.cons.inj split
        rwa [List.append_nil]
    | cons w a =>
        obtain ⟨rfl, rfl⟩ := List.cons.inj split
        rw [List.append_cons]
        exact later a v b rfl

theorem throughout_append {a b : Text} : Throughout P before (a ++ b) after ↔
    Throughout P before a (b ++ after) ∧ Throughout P (before ++ a) b after := by
  induction a generalizing before with
  | nil => simp [Throughout]
  | cons u a ih =>
      rw [List.cons_append, throughout_cons, throughout_cons, ih, and_assoc, List.append_assoc,
        List.append_cons before u a]

end

/-! ## Runs and beginnings -/

theorem forall_mem_head?_cons {α : Type} {p : α → Prop} {x : α} (h : p x) (xs : List α) :
    ∀ y ∈ (x :: xs).head?, p y := by
  intro y first
  cases first
  exact h

/-- A place where a word can start: no word unit stands before it. -/
def StartsWord (before : Text) : Prop := ∀ u ∈ before.getLast?, isWord u = false

/-- A list is cut where its first part, all of a kind, meets a member of another kind. -/
theorem cut_append {α : Type} {p : α → Bool} {taken rest : List α} (all : ∀ x ∈ taken, p x = true)
    (stop : ∀ x ∈ rest.head?, p x = false) :
    (taken ++ rest).takeWhile p = taken ∧ (taken ++ rest).dropWhile p = rest := by
  rw [List.takeWhile_append_of_pos all, List.dropWhile_append_of_pos all]
  cases rest with
  | nil => simp
  | cons x rest => simp [stop x rfl]

/-- A text is cut where a mark first occurs. -/
theorem cut_mark {mark : CodeUnit} {taken : Text} (h : mark ∉ taken) (rest : Text) :
    (taken ++ mark :: rest).takeWhile (· != mark) = taken ∧
      (taken ++ mark :: rest).dropWhile (· != mark) = mark :: rest := by
  refine cut_append (fun u mem => bne_iff_ne.mpr ?_) (forall_mem_head?_cons (by simp) rest)
  rintro rfl
  exact h mem

/-- What is left when a run is dropped does not go on with it. -/
theorem head?_dropWhile {α : Type} (p : α → Bool) (xs : List α) :
    ∀ x ∈ (xs.dropWhile p).head?, p x = false := by
  intro x first
  have stopped := List.head?_dropWhile_not p xs
  rwa [Option.mem_def.mp first] at stopped

/-- What is left when a run is dropped starts with the first member of another kind. -/
theorem dropWhile_eq_cons_iff {α : Type} {p : α → Bool} {xs rest : List α} {x : α} :
    xs.dropWhile p = x :: rest ↔
      ∃ run, xs = run ++ x :: rest ∧ (∀ y ∈ run, p y = true) ∧ p x = false := by
  constructor
  · intro left
    have stop := head?_dropWhile p xs
    rw [left] at stop
    refine ⟨xs.takeWhile p, ?_, fun y mem => List.mem_takeWhile_imp mem, stop x rfl⟩
    rw [← left, List.takeWhile_append_dropWhile]
  · rintro ⟨run, rfl, all, stop⟩
    exact (cut_append all (forall_mem_head?_cons (p := (p · = false)) stop rest)).2

/-- A run holds a member when the members up to there are of the run's kind. -/
theorem mem_takeWhile_iff {α : Type} {p : α → Bool} {xs : List α} {x : α} (kind : p x = true) :
    x ∈ xs.takeWhile p ↔ ∃ run rest, xs = run ++ x :: rest ∧ ∀ y ∈ run, p y = true := by
  constructor
  · intro mem
    obtain ⟨run, more, split⟩ := List.append_of_mem mem
    refine ⟨run, more ++ xs.dropWhile p, ?_, fun y among => ?_⟩
    · rw [← List.cons_append, ← List.append_assoc, ← split, List.takeWhile_append_dropWhile]
    · exact List.mem_takeWhile_imp (split ▸ List.mem_append_left _ among)
  · rintro ⟨run, rest, rfl, all⟩
    rw [List.takeWhile_append_of_pos all, List.takeWhile_cons_of_pos kind]
    exact List.mem_append_right _ List.mem_cons_self

/-- After a run a list goes on in one way only. -/
theorem eq_of_runs {α : Type} {p : α → Bool} {run run' rest rest' : List α} {x x' : α}
    (same : run ++ x :: rest = run' ++ x' :: rest') (all : ∀ y ∈ run, p y = true)
    (all' : ∀ y ∈ run', p y = true) (stop : p x = false) (stop' : p x' = false) : x = x' := by
  have left : (run ++ x :: rest).dropWhile p = x :: rest :=
    dropWhile_eq_cons_iff.mpr ⟨run, rfl, all, stop⟩
  have left' : (run' ++ x' :: rest').dropWhile p = x' :: rest' :=
    dropWhile_eq_cons_iff.mpr ⟨run', rfl, all', stop'⟩
  rw [same, left'] at left
  exact (List.cons.inj left).1.symm

theorem eq_of_dropWhile_mark {mark u : CodeUnit} {text rest : Text}
    (h : text.dropWhile (· != mark) = u :: rest) : u = mark := by
  obtain ⟨-, -, -, stopped⟩ := dropWhile_eq_cons_iff.mp h
  simpa using stopped

theorem notMem_takeWhile_mark (mark : CodeUnit) (text : Text) :
    mark ∉ text.takeWhile (· != mark) :=
  fun mem => absurd (List.mem_takeWhile_imp mem) (by simp)

/-- A run is nonempty, of the right units, and as long as can be. -/
theorem run?_eq_some {p : CodeUnit → Bool} {text taken rest : Text} :
    run? p text = some (taken, rest) ↔ text = taken ++ rest ∧ taken ≠ [] ∧
      (∀ u ∈ taken, p u = true) ∧ ∀ u ∈ rest.head?, p u = false := by
  unfold run?
  constructor
  · intro h
    split at h
    · cases h
    · next u more run =>
      cases h
      refine ⟨?_, by simp, ?_, ?_⟩
      · rw [← run, List.takeWhile_append_dropWhile]
      · rw [← run]
        exact fun u hu => List.mem_takeWhile_imp hu
      · exact head?_dropWhile p text
  · rintro ⟨rfl, nonempty, all, stop⟩
    rw [(cut_append all stop).1, (cut_append all stop).2]
    cases taken with
    | nil => exact absurd rfl nonempty
    | cons u more => rfl

theorem skipSomeBlanks?_eq_some {text rest : Text} : skipSomeBlanks? text = some rest ↔
    ∃ gap, text = gap ++ rest ∧ gap ≠ [] ∧ IsBlank gap ∧ ∀ u ∈ rest.head?, isBlank u = false := by
  simp [skipSomeBlanks?, run?_eq_some, IsBlank]

/-- Stripping without regard to case takes off a beginning that is the given one but for the
    case of its letters. -/
theorem stripCaseless?_eq_some {lead text rest : Text} :
    stripCaseless? lead text = some rest ↔ ∃ word, text = word ++ rest ∧
      lowerLetters word = lead := by
  fun_induction stripCaseless? lead text with
  | case1 text =>
      constructor
      · rintro ⟨⟩
        exact ⟨[], rfl, rfl⟩
      · rintro ⟨word, rfl, blank⟩
        rw [lowerLetters, List.map_eq_nil_iff] at blank
        rw [blank, List.nil_append]
  | case2 a lead =>
      simp only [reduceCtorEq, false_iff]
      rintro ⟨word, split, spelled⟩
      rw [(List.append_eq_nil_iff.mp split.symm).1] at spelled
      cases spelled
  | case3 lead b text ih =>
      rw [ih]
      constructor
      · rintro ⟨word, rfl, rfl⟩
        exact ⟨b :: word, rfl, rfl⟩
      · rintro ⟨word, split, spelled⟩
        cases word with
        | nil => cases spelled
        | cons c word =>
            obtain ⟨-, rfl⟩ := List.cons.inj split
            obtain ⟨-, spelled⟩ := List.cons.inj spelled
            exact ⟨word, rfl, spelled⟩
  | case4 a lead b text other =>
      simp only [reduceCtorEq, false_iff]
      rintro ⟨word, split, spelled⟩
      cases word with
      | nil => cases spelled
      | cons c word =>
          obtain ⟨rfl, -⟩ := List.cons.inj split
          exact other (List.cons.inj spelled).1.symm

theorem mem_sort {texts : List Text} {text : Text} : text ∈ sort texts ↔ text ∈ texts :=
  (List.mergeSort_perm texts _).mem_iff

theorem pairwise_sort (texts : List Text) : (sort texts).Pairwise (· ≤ ·) := by
  have increasing : (sort texts).Pairwise fun a b => decide (a ≤ b) = true :=
    List.pairwise_mergeSort (fun a b c => by simpa using List.le_trans)
      (fun a b => by simpa using List.le_total a b) texts
  simpa using increasing

theorem sort_eq_of_perm {texts sorted : List Text} (perm : texts.Perm sorted)
    (ordered : sorted.Pairwise (· ≤ ·)) : sort texts = sorted :=
  List.Perm.eq_of_pairwise (fun _ _ _ _ => List.le_antisymm) (pairwise_sort texts) ordered
    ((List.mergeSort_perm texts _).trans perm)

/-- Texts that are all different are sorted in strictly increasing order. -/
theorem pairwise_lt_sort {texts : List Text} (distinct : texts.Nodup) :
    (sort texts).Pairwise (· < ·) := by
  have different : (sort texts).Nodup := (List.mergeSort_perm texts _).nodup_iff.mpr distinct
  exact ((pairwise_sort texts).and different).imp fun ⟨le, ne⟩ => Std.lt_of_le_of_ne le ne

end Text

/-! ## First mentions -/

section

variable {α : Type} [DecidableEq α]

theorem mem_foldl_addNew {xs ys : List α} {x : α} : x ∈ ys.foldl addNew xs ↔ x ∈ xs ∨ x ∈ ys := by
  induction ys generalizing xs with
  | nil => simp
  | cons y ys ih => rw [List.foldl_cons, ih, mem_addNew, List.mem_cons, or_assoc]

theorem mem_firstMentions {xs : List α} {x : α} : x ∈ firstMentions xs ↔ x ∈ xs := by
  simp [firstMentions, mem_foldl_addNew]

theorem nodup_foldl_addNew {xs : List α} (h : xs.Nodup) (ys : List α) :
    (ys.foldl addNew xs).Nodup := by
  induction ys generalizing xs with
  | nil => exact h
  | cons y ys ih => exact ih (nodup_addNew h y)

theorem nodup_firstMentions (xs : List α) : (firstMentions xs).Nodup :=
  nodup_foldl_addNew .nil xs

theorem firstMentions_append (xs ys : List α) :
    firstMentions (xs ++ ys) = ys.foldl addNew (firstMentions xs) :=
  List.foldl_append

/-- Members stand in the order in which they are first mentioned, each of them once. -/
theorem pairwise_idxOf_firstMentions [BEq α] [LawfulBEq α] (xs : List α) :
    (firstMentions xs).Pairwise fun a b => xs.idxOf a < xs.idxOf b := by
  induction xs using List.reverseRecOn with
  | nil => exact .nil
  | append_singleton xs x ih =>
      have kept : (firstMentions xs).Pairwise
          fun a b => (xs ++ [x]).idxOf a < (xs ++ [x]).idxOf b := by
        refine ih.imp_of_mem fun {a b} ha hb before => ?_
        rwa [List.idxOf_append_of_mem (mem_firstMentions.mp ha),
          List.idxOf_append_of_mem (mem_firstMentions.mp hb)]
      rw [firstMentions_append, List.foldl_cons, List.foldl_nil, addNew]
      split
      · exact kept
      · next new =>
          rw [mem_firstMentions] at new
          refine List.pairwise_append.mpr ⟨kept, List.pairwise_singleton _ _, fun a ha b hb => ?_⟩
          rw [List.mem_singleton.mp hb, List.idxOf_append_of_mem (mem_firstMentions.mp ha),
            List.idxOf_append_of_notMem new]
          exact Nat.lt_add_right _ (List.idxOf_lt_length_of_mem (mem_firstMentions.mp ha))

end

end MagmaTrace
