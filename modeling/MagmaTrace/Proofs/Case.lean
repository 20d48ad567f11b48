import MagmaTrace.Text.Case

/-! # Lower case

The full case conversion folds an ASCII text letter by letter (`Text.lower_of_isAscii`), and folding
the ASCII letters beforehand changes nothing (`Text.lower_lowerLetters`). A text beyond ASCII
lowers to an ASCII one only with a `k` in it (`Text.lower_eq_iff`): U+212A is the one point with such
a form.
-/

namespace MagmaTrace.Text

variable {text lead : Text} {before after : List Nat} {c : Nat}

/-- Every unit is ASCII. -/
def IsAscii (text : Text) : Prop := ∀ u ∈ text, u.toNat < 0x80

instance : DecidablePred IsAscii := fun text => decidable_of_iff (text.all (·.toNat < 0x80)) (by
  simp [IsAscii])

/-! ## Points -/

theorem isHighHalf_iff (u : CodeUnit) :
    isHighHalf u = true ↔ 0xD800 ≤ u.toNat ∧ u.toNat < 0xDC00 := by
  simp [isHighHalf, UInt16.le_iff_toNat_le, UInt16.lt_iff_toNat_lt]

theorem isLowHalf_iff (u : CodeUnit) :
    isLowHalf u = true ↔ 0xDC00 ≤ u.toNat ∧ u.toNat < 0xE000 := by
  simp [isLowHalf, UInt16.le_iff_toNat_le, UInt16.lt_iff_toNat_lt]

theorem toUInt16_toNat (u : CodeUnit) : u.toNat.toUInt16 = u := UInt16.ofNat_toNat

theorem ofPoint_toNat (u : CodeUnit) : ofPoint u.toNat = [u] := by
  rw [ofPoint, if_pos u.toNat_lt, toUInt16_toNat]

/-- Two matching halves are the units of their point. -/
theorem ofPoint_pair {u v : CodeUnit} (high : isHighHalf u = true) (low : isLowHalf v = true) :
    ofPoint (0x10000 + (u.toNat - 0xD800) * 0x400 + (v.toNat - 0xDC00)) = [u, v] := by
  rw [isHighHalf_iff] at high
  rw [isLowHalf_iff] at low
  have first : 0xD800 + (0x10000 + (u.toNat - 0xD800) * 0x400 + (v.toNat - 0xDC00) - 0x10000) /
      0x400 = u.toNat := by omega
  have second : 0xDC00 + (0x10000 + (u.toNat - 0xD800) * 0x400 + (v.toNat - 0xDC00) - 0x10000) %
      0x400 = v.toNat := by omega
  rw [ofPoint, if_neg (by omega), first, second, toUInt16_toNat, toUInt16_toNat]

/-- A text is made of the units of its points. -/
theorem flatMap_ofPoint_points (text : Text) : (points text).flatMap ofPoint = text := by
  fun_induction points text with
  | case1 => rfl
  | case2 u => rw [List.flatMap_singleton, ofPoint_toNat]
  | case3 u v rest pair ih =>
      rw [Bool.and_eq_true] at pair
      rw [List.flatMap_cons, ih, ofPoint_pair pair.1 pair.2]
      rfl
  | case4 u v rest _ ih =>
      rw [List.flatMap_cons, ih, ofPoint_toNat]
      rfl

theorem points_of_isAscii (ascii : IsAscii text) : points text = text.map (·.toNat) := by
  fun_induction points text with
  | case1 => rfl
  | case2 u => rfl
  | case3 u v rest pair =>
      rw [Bool.and_eq_true, isHighHalf_iff] at pair
      have := ascii u List.mem_cons_self
      omega
  | case4 u v rest _ ih =>
      rw [ih fun w mem => ascii w (List.mem_cons_of_mem u mem)]
      rfl

theorem isAscii_of_points (small : ∀ c ∈ points text, c < 0x80) : IsAscii text := by
  intro u mem
  rw [← flatMap_ofPoint_points text] at mem
  obtain ⟨c, among, written⟩ := List.mem_flatMap.mp mem
  have below := small c among
  rw [ofPoint, if_pos (by omega), List.mem_singleton] at written
  rw [written, Nat.toUInt16, UInt16.toNat_ofNat']
  omega

/-- A point beyond ASCII has a unit beyond ASCII. -/
theorem exists_mem_ofPoint (large : 0x80 ≤ c) : ∃ u ∈ ofPoint c, 0x80 ≤ u.toNat := by
  unfold ofPoint
  split
  · refine ⟨c.toUInt16, List.mem_singleton_self _, ?_⟩
    rw [Nat.toUInt16, UInt16.toNat_ofNat']
    omega
  · refine ⟨_, List.mem_cons_of_mem _ (List.mem_singleton_self _), ?_⟩
    rw [Nat.toUInt16, UInt16.toNat_ofNat']
    omega

/-! ## Letters -/

/-- A unit that is not left is an ASCII capital. -/
theorem lowerLetter_cases (u : CodeUnit) : lowerLetter u = u ∨
    (lowerLetter u).toNat = u.toNat + 32 ∧ 65 ≤ u.toNat ∧ u.toNat ≤ 90 := by
  unfold lowerLetter
  split
  · next capital =>
      simp only [Bool.and_eq_true, decide_eq_true_eq, UInt16.le_iff_toNat_le,
        UInt16.reduceToNat] at capital
      right
      simp only [UInt16.toNat_add, UInt16.reduceToNat]
      omega
  · exact .inl rfl

theorem lowerLetter_lowerLetter (u : CodeUnit) :
    lowerLetter (lowerLetter u) = lowerLetter u := by
  rcases lowerLetter_cases u with same | ⟨shifted, capital⟩
  · rw [same, same]
  · rcases lowerLetter_cases (lowerLetter u) with same | ⟨-, again⟩
    · exact same
    · omega

theorem lowerLetters_append (a b : Text) :
    lowerLetters (a ++ b) = lowerLetters a ++ lowerLetters b :=
  List.map_append

theorem isAscii_lowerLetters : IsAscii (lowerLetters text) ↔ IsAscii text := by
  have small (u : CodeUnit) : (lowerLetter u).toNat < 0x80 ↔ u.toNat < 0x80 := by
    rcases lowerLetter_cases u with same | ⟨shifted, capital⟩
    · rw [same]
    · omega
  simp only [IsAscii, lowerLetters, List.forall_mem_map, small]

/-! ## Lower case -/

theorem lowerPoints_of_isAscii (ascii : IsAscii text) (before : List Nat) :
    lowerPoints before (text.map (·.toNat)) = (lowerLetters text).map (·.toNat) := by
  induction text generalizing before with
  | nil => rfl
  | cons u text ih =>
      obtain ⟨small, others⟩ := List.forall_mem_cons.mp ascii
      rw [List.map_cons, lowerPoints, ih others, lowerPoint, if_pos small, toUInt16_toNat]
      rfl

theorem lower_of_isAscii (ascii : IsAscii text) : lower text = lowerLetters text := by
  rw [lower, points_of_isAscii ascii, lowerPoints_of_isAscii ascii, List.flatMap_map]
  simp only [ofPoint_toNat, List.flatMap_singleton']

/-- U+212A apart, no capital beyond ASCII lowers to an ASCII letter. -/
theorem target_of_mem_caseRuns : ∀ run ∈ caseRuns, 0x80 ≤ run.target ∨
    run.first = run.last ∧ run.target = 0x6B := by
  decide +kernel

theorem lowerPoint_of_large (large : 0x80 ≤ c) :
    ∃ d ∈ lowerPoint before after c, 0x80 ≤ d ∨ d = 0x6B := by
  rw [lowerPoint, if_neg (by omega)]
  split
  · refine ⟨_, List.mem_singleton_self _, .inl ?_⟩
    split <;> decide
  · split
    · exact ⟨0x307, by decide, .inl (by decide)⟩
    · refine ⟨_, List.mem_singleton_self _, ?_⟩
      cases found : caseRuns.findSome? (·.lower? c) with
      | none => exact .inl large
      | some d =>
          obtain ⟨run, among, lowers⟩ := List.exists_of_findSome?_eq_some found
          obtain ⟨inside, image⟩ := Option.ite_none_right_eq_some.mp lowers
          simp only [Bool.and_eq_true, decide_eq_true_eq] at inside
          rw [Option.some_inj] at image
          rw [Option.getD_some]
          rcases target_of_mem_caseRuns run among with beyond | ⟨single, isK⟩
          · left
            omega
          · right
            omega

theorem exists_of_mem_points (cs : List Nat) (before : List Nat) (mem : c ∈ cs) :
    ∃ near far, ∀ d ∈ lowerPoint near far c, d ∈ lowerPoints before cs := by
  induction cs generalizing before with
  | nil => cases mem
  | cons first rest ih =>
      rcases List.mem_cons.mp mem with rfl | later
      · exact ⟨before, rest, fun d => List.mem_append_left _⟩
      · obtain ⟨near, far, all⟩ := ih (first :: before) later
        exact ⟨near, far, fun d inside => List.mem_append_right _ (all d inside)⟩

/-- A text whose lower-case form is ASCII and has no `k` is ASCII itself. -/
theorem isAscii_of_lower (ascii : IsAscii (lower text)) (noK : ('k' : CodeUnit) ∉ lower text) :
    IsAscii text := by
  refine isAscii_of_points fun c mem => Nat.lt_of_not_le fun large => ?_
  obtain ⟨near, far, all⟩ := exists_of_mem_points (points text) [] mem
  obtain ⟨d, inside, beyond | rfl⟩ := lowerPoint_of_large large
  · obtain ⟨u, written, isLarge⟩ := exists_mem_ofPoint beyond
    have small := ascii u (List.mem_flatMap.mpr ⟨d, all d inside, written⟩)
    omega
  · exact noK (List.mem_flatMap.mpr ⟨0x6B, all _ inside, by decide⟩)

/-! ### Folding beforehand -/

/-- The point of an ASCII capital in lower case. -/
def foldPoint (c : Nat) : Nat := if c < 0x80 then (lowerLetter c.toUInt16).toNat else c

theorem foldPoint_toNat (u : CodeUnit) : foldPoint u.toNat = (lowerLetter u).toNat := by
  rw [foldPoint, toUInt16_toNat]
  rcases lowerLetter_cases u with same | ⟨-, capital⟩
  · rw [same, ite_self]
  · rw [if_pos (by omega)]

theorem foldPoint_cases (c : Nat) :
    foldPoint c = c ∨ foldPoint c = c + 32 ∧ 65 ≤ c ∧ c ≤ 90 := by
  unfold foldPoint
  split
  · next small =>
      have there : c.toUInt16.toNat = c := by
        rw [Nat.toUInt16, UInt16.toNat_ofNat']
        omega
      have cases := lowerLetter_cases c.toUInt16
      rw [there] at cases
      rcases cases with same | shifted
      · rw [same]
        exact .inl there
      · exact .inr shifted
  · exact .inl rfl

theorem inRanges_iff {ranges : List (Nat × Nat)} :
    inRanges ranges c = true ↔ ∃ range ∈ ranges, range.1 ≤ c ∧ c ≤ range.2 := by
  simp [inRanges]

theorem apart_of_mem_ignorableRanges : ∀ range ∈ ignorableRanges,
    range.2 < 65 ∨ (90 < range.1 ∧ range.2 < 97) ∨ 122 < range.1 := by
  decide +kernel

/-- An ASCII letter is cased, and is not passed over. -/
theorem inRanges_of_letter (letter : (65 ≤ c ∧ c ≤ 90) ∨ (97 ≤ c ∧ c ≤ 122)) :
    inRanges casedRanges c = true ∧ inRanges ignorableRanges c = false := by
  constructor
  · rw [inRanges_iff]
    rcases letter with capital | small
    · exact ⟨(65, 90), by decide, capital⟩
    · exact ⟨(97, 122), by decide, small⟩
  · rw [Bool.eq_false_iff, Ne, inRanges_iff]
    rintro ⟨range, among, inside⟩
    have := apart_of_mem_ignorableRanges range among
    omega

theorem inRanges_foldPoint (c : Nat) :
    inRanges casedRanges (foldPoint c) = inRanges casedRanges c ∧
      inRanges ignorableRanges (foldPoint c) = inRanges ignorableRanges c := by
  rcases foldPoint_cases c with same | ⟨shifted, capital⟩
  · rw [same]
    exact ⟨rfl, rfl⟩
  · have folded := inRanges_of_letter (c := foldPoint c) (.inr (by omega))
    have given := inRanges_of_letter (.inl capital)
    exact ⟨folded.1.trans given.1.symm, folded.2.trans given.2.symm⟩

theorem meetsCased_map_foldPoint (cs : List Nat) :
    meetsCased (cs.map foldPoint) = meetsCased cs := by
  have ignorable : inRanges ignorableRanges ∘ foldPoint = inRanges ignorableRanges :=
    funext fun c => (inRanges_foldPoint c).2
  rw [meetsCased, List.dropWhile_map, ignorable, List.head?_map, Option.any_map]
  simp only [inRanges_foldPoint]
  rfl

theorem lowerPoint_foldPoint (before after : List Nat) (c : Nat) :
    lowerPoint (before.map foldPoint) (after.map foldPoint) (foldPoint c) =
      lowerPoint before after c := by
  by_cases small : c < 0x80
  · have folded : foldPoint c = (lowerLetter c.toUInt16).toNat := if_pos small
    have stays : foldPoint c < 0x80 := by
      rcases foldPoint_cases c with same | shifted <;> omega
    rw [lowerPoint, if_pos stays, lowerPoint, if_pos small, folded, toUInt16_toNat,
      lowerLetter_lowerLetter]
  · rw [foldPoint, if_neg small, lowerPoint, lowerPoint, meetsCased_map_foldPoint,
      meetsCased_map_foldPoint]

theorem lowerPoints_map_foldPoint (before cs : List Nat) :
    lowerPoints (before.map foldPoint) (cs.map foldPoint) = lowerPoints before cs := by
  induction cs generalizing before with
  | nil => rfl
  | cons c cs ih =>
      rw [List.map_cons, lowerPoints, lowerPoint_foldPoint, ← List.map_cons, ih]
      rfl

theorem points_lowerLetters (text : Text) :
    points (lowerLetters text) = (points text).map foldPoint := by
  have high (u : CodeUnit) : isHighHalf (lowerLetter u) = isHighHalf u := by
    rw [Bool.eq_iff_iff, isHighHalf_iff, isHighHalf_iff]
    rcases lowerLetter_cases u with same | shifted
    · rw [same]
    · omega
  have low (u : CodeUnit) : isLowHalf (lowerLetter u) = isLowHalf u := by
    rw [Bool.eq_iff_iff, isLowHalf_iff, isLowHalf_iff]
    rcases lowerLetter_cases u with same | shifted
    · rw [same]
    · omega
  fun_induction points text with
  | case1 => rfl
  | case2 u => simp only [lowerLetters, List.map_cons, List.map_nil, points, foldPoint_toNat]
  | case3 u v rest pair ih =>
      have pair' : (isHighHalf (lowerLetter u) && isLowHalf (lowerLetter v)) = true := by
        rwa [high, low]
      rw [Bool.and_eq_true, isHighHalf_iff, isLowHalf_iff] at pair
      have sameU : lowerLetter u = u := (lowerLetter_cases u).resolve_right (by omega)
      have sameV : lowerLetter v = v := (lowerLetter_cases v).resolve_right (by omega)
      have here : points (lowerLetters (u :: v :: rest)) = (0x10000 +
          ((lowerLetter u).toNat - 0xD800) * 0x400 + ((lowerLetter v).toNat - 0xDC00)) ::
            points (lowerLetters rest) := if_pos pair'
      rw [here, ih, List.map_cons, sameU, sameV, foldPoint, if_neg (by omega)]
  | case4 u v rest single ih =>
      have apart : (isHighHalf (lowerLetter u) && isLowHalf (lowerLetter v)) ≠ true := by
        rwa [high, low]
      have here : points (lowerLetters (u :: v :: rest)) =
          (lowerLetter u).toNat :: points (lowerLetters (v :: rest)) := if_neg apart
      rw [here, ih, List.map_cons, foldPoint_toNat]

theorem lower_lowerLetters (text : Text) : lower (lowerLetters text) = lower text := by
  rw [lower, points_lowerLetters]
  exact congrArg (·.flatMap ofPoint) (lowerPoints_map_foldPoint [] (points text))

/-- Without a `k` an ASCII text is the lower-case form of the texts with its letters only. -/
theorem lower_eq_iff (ascii : IsAscii lead) (noK : ('k' : CodeUnit) ∉ lead) :
    lower text = lead ↔ lowerLetters text = lead := by
  constructor
  · rintro rfl
    exact (lower_of_isAscii (isAscii_of_lower ascii noK)).symm
  · rintro rfl
    exact lower_of_isAscii (isAscii_lowerLetters.mp ascii)

/-- A sigma at the end of a word, and U+212A. -/
example : lower [0x39F, 0x3A3] = [0x3BF, 0x3C2] ∧ lower [0x212A] = lit "k" := by decide +kernel

end MagmaTrace.Text
