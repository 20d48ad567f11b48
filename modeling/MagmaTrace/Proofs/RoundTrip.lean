import MagmaTrace.Proofs.Implications
import MagmaTrace.Proofs.Sources

/-! # Problems from a printed database

The index of a printed database has the numbers of its identities, and under each a text with the
words of the last identity of that number. So every theorem of a file of proofs whose two numbers
are defined gets the problem of their last identities, in the order of the file, and every other
theorem is skipped (`EquationIndex.problems_of_printed`).
-/

namespace MagmaTrace

open Text

/-! ## Numbers below 2^53 -/

namespace Binary64

theorem div_le_roundHalfEven (num den : Nat) : num / den ≤ roundHalfEven num den := by
  unfold roundHalfEven
  dsimp only
  split <;> omega

theorem floorLog2_one {n : Nat} (positive : n ≠ 0) : floorLog2 n 1 = n.log2 := by
  have one : (Nat.log2 1 : Int) = 0 := by decide
  have low : 1 * Nat.pow 2 n.log2 ≤ n := by
    rw [Nat.one_mul]
    exact Nat.log2_self_le positive
  simp only [floorLog2, one, Int.sub_zero, scale, Int.natCast_nonneg, if_true, Int.toNat_natCast,
    low]

/-- From a power of two on, rounding does not go below it. -/
theorem le_of_ofRatio {n significand : Nat} {exponent : Int} (large : Nat.pow 2 53 ≤ n)
    (h : ofRatio n 1 = .finite significand exponent) :
    Nat.pow 2 53 ≤ significand * Nat.pow 2 exponent.toNat := by
  have positive : n ≠ 0 := by
    rintro rfl
    exact absurd large (by decide)
  obtain ⟨k, bits⟩ : ∃ k, n.log2 = k + 53 :=
    ⟨n.log2 - 53, (Nat.sub_add_cancel ((Nat.le_log2 positive).mpr large)).symm⟩
  have unit : max (floorLog2 n 1 - 52) leastExponent = (k + 1 : Nat) := by
    rw [floorLog2_one positive, bits, leastExponent]
    omega
  have scaled : scale n 1 (k + 1 : Nat) = (n, Nat.pow 2 (k + 1)) := by
    simp only [scale, Int.natCast_nonneg, if_true, Int.toNat_natCast, Nat.one_mul]
  have rounded : Nat.pow 2 52 ≤ roundHalfEven n (Nat.pow 2 (k + 1)) := by
    have low : Nat.pow 2 52 * Nat.pow 2 (k + 1) ≤ n := by
      calc Nat.pow 2 52 * Nat.pow 2 (k + 1)
        _ = 2 ^ n.log2 := by
          rw [bits, Nat.pow_eq, Nat.pow_eq, ← Nat.pow_add]
          congr 1
          omega
        _ ≤ n := Nat.log2_self_le positive
    calc Nat.pow 2 52
      _ ≤ n / Nat.pow 2 (k + 1) := (Nat.le_div_iff_mul_le (Nat.two_pow_pos (k + 1))).mpr low
      _ ≤ _ := div_le_roundHalfEven _ _
  have wide {m e : Nat} (atLeast : Nat.pow 2 52 ≤ m) (above : 1 ≤ e) :
      Nat.pow 2 53 ≤ m * Nat.pow 2 e :=
    Nat.mul_le_mul atLeast (Nat.pow_le_pow_right (by decide) above : Nat.pow 2 1 ≤ Nat.pow 2 e)
  simp only [ofRatio, positive, if_false, unit, scaled] at h
  by_cases carry : roundHalfEven n (Nat.pow 2 (k + 1)) = Nat.pow 2 53
  · simp only [carry, if_true] at h
    split at h
    · cases h
      exact wide (Nat.le_refl _) (by omega)
    · cases h
  · simp only [carry, if_false] at h
    split at h
    · cases h
      exact wide rounded (by omega)
    · cases h

end Binary64

/-- Below 2^53 a numeral is that of one number only. -/
theorem Numeral.ofNat_eq_iff {m n : Nat} (small : n < Nat.pow 2 53) :
    ofNat m = .finite n ↔ m = n := by
  unfold ofNat
  constructor
  · intro h
    split at h
    · exact Numeral.finite.inj h
    · next large =>
        split at h
        · next significand exponent rounded =>
            have low := Binary64.le_of_ofRatio (Nat.not_lt.mp large) rounded
            rw [Numeral.finite.inj h] at low
            omega
        · cases h
  · rintro rfl
    rw [if_pos small]

/-! ## Looking up the last definition -/

theorem Registry.get?_ofList {κ α : Type} [DecidableEq κ] (entries : List (κ × α)) (key : κ) :
    (ofList entries).get? key = (entries.reverse.find? (·.1 = key)).map (·.2) := by
  induction entries using List.reverseRecOn with
  | nil => rfl
  | append_singleton entries e ih =>
      rw [ofList_append_singleton, get?_insert, List.reverse_append, List.reverse_singleton,
        List.singleton_append, List.find?_cons]
      by_cases same : e.1 = key
      · simp [same]
      · simp [same, ih, Ne.symm same]

namespace EquationIndex

variable {ds : List Identity} {entries : List (Numeral × Text)}

/-- The last of some identities with a number. -/
def last? (ds : List Identity) (number : Nat) : Option Identity :=
  ds.reverse.find? (·.number = number)

theorem find?_of_stores (stores : List.Forall₂ Stores ds entries) (number : Nat) :
    Option.Rel Stores (ds.find? (·.number = number))
      (entries.find? (·.1 = Numeral.ofNat number)) := by
  induction stores with
  | nil => exact .none
  | @cons d entry ds entries here _ ih =>
      have same : entry.1 = Numeral.ofNat number ↔ d.number = number := by
        rw [here.number, eq_comm, Numeral.ofNat_eq_iff d.small, eq_comm]
      by_cases isIt : d.number = number
      · simpa [isIt, same.mpr isIt] using Option.Rel.some here
      · simpa [isIt, mt same.mp isIt] using ih

/-- The text of a number has the words of its last identity; a number without one has no text. -/
theorem get?_of_stores (stores : List.Forall₂ Stores ds entries) (number : Nat) :
    Option.Rel (fun d text => spaced text = spaced d.body) (last? ds number)
      ((Registry.ofList entries).get? (Numeral.ofNat number)) := by
  have found := find?_of_stores (List.forall₂_reverse_iff.mpr stores) number
  rw [Registry.get?_ofList, last?]
  generalize ds.reverse.find? _ = d, entries.reverse.find? _ = entry at found ⊢
  cases found with
  | none => exact .none
  | some stored => exact .some stored.words

theorem mem_keys_of_stores (stores : List.Forall₂ Stores ds entries) {key : Numeral} :
    key ∈ (Registry.ofList entries).keys ↔ ∃ d ∈ ds, key = .finite d.number := by
  have kept : key ∈ (Registry.ofList entries).keys ↔ ∃ entry ∈ entries, entry.1 = key := by
    rw [Registry.mem_keys_iff, Registry.get?_ofList]
    constructor
    · rintro ⟨text, found⟩
      obtain ⟨entry, first, -⟩ := Option.map_eq_some_iff.mp found
      exact ⟨entry, List.mem_reverse.mp (List.mem_of_find?_eq_some first),
        by simpa using List.find?_some first⟩
    · rintro ⟨entry, mem, same⟩
      have some : (entries.reverse.find? (·.1 = key)).isSome = true :=
        List.find?_isSome.mpr ⟨entry, List.mem_reverse.mpr mem, by simpa using same⟩
      obtain ⟨found, first⟩ := Option.isSome_iff_exists.mp some
      exact ⟨found.2, by rw [first, Option.map_some]⟩
  rw [kept]
  constructor
  · rintro ⟨entry, mem, rfl⟩
    obtain ⟨d, among, stored⟩ := exists_of_forall₂_right stores mem
    exact ⟨d, among, stored.number⟩
  · rintro ⟨d, mem, rfl⟩
    obtain ⟨entry, among, stored⟩ := exists_of_forall₂_left stores mem
    exact ⟨entry, among, stored.number⟩

theorem Identity.ofLean_of_spaced (d : Identity) {text : Text} (same : spaced text = spaced d.body) :
    Clause.ofLean text = .ok d.clause :=
  Clause.ofLean_of_spaced d.lhsNamed d.rhsNamed same

/-! ## Problems -/

/-- The problem of a theorem, if both its numbers are defined. -/
def problem? (ds : List Identity) (i : Implication) : Option Problem := do
  let hypothesis ← last? ds (Text.ofDigits i.hypothesis)
  let conjecture ← last? ds (Text.ofDigits i.conjecture)
  return ⟨i.name ++ lit ".p", hypothesis.clause.problem conjecture.clause⟩

/-- What is made of some theorems: the problems of those that have one and the names of the
    others. -/
def generated (ds : List Identity) (found : List Implication) : Generation where
  problems := found.filterMap (problem? ds)
  skipped := (found.filter fun i => (problem? ds i).isNone).map Implication.name

/-- Both numbers of a theorem are defined and its problem is made, or one is not. -/
theorem problem?_of_stores (stores : List.Forall₂ Stores ds entries) (i : Implication) :
    (problem? ds i = none ∧ i.equations? (Registry.ofList entries) = none) ∨
      ∃ made hypothesis conjecture, problem? ds i = some made ∧
        i.equations? (Registry.ofList entries) = some (hypothesis, conjecture) ∧
        Generation.problemOf i hypothesis conjecture = .ok made := by
  have first := get?_of_stores stores (Text.ofDigits i.hypothesis)
  have second := get?_of_stores stores (Text.ofDigits i.conjecture)
  unfold problem? Implication.equations? Numeral.ofDigits
  generalize last? ds _ = d, Registry.get? _ (Numeral.ofNat (Text.ofDigits i.hypothesis)) = text
    at first ⊢
  generalize last? ds _ = d', Registry.get? _ (Numeral.ofNat (Text.ofDigits i.conjecture)) = text'
    at second ⊢
  cases first with
  | none => exact .inl ⟨rfl, rfl⟩
  | @some d text words =>
      cases second with
      | none => exact .inl ⟨rfl, rfl⟩
      | @some d' text' words' =>
          refine .inr ⟨_, text, text', rfl, rfl, ?_⟩
          rw [Generation.problemOf, d.ofLean_of_spaced words, d'.ofLean_of_spaced words']
          rfl

theorem ofImplications_of_stores (stores : List.Forall₂ Stores ds entries)
    (found : List Implication) :
    Generation.ofImplications (Registry.ofList entries) found = .ok (generated ds found) := by
  induction found with
  | nil => rfl
  | cons i found ih =>
      rw [Generation.ofImplications, ih]
      rcases problem?_of_stores stores i with ⟨undefined, unknown⟩ |
        ⟨made, hypothesis, conjecture, defined, known, problem⟩
      · rw [unknown]
        simp only [generated, List.filterMap_cons, List.filter_cons, undefined]
        rfl
      · rw [known]
        simp only [problem, generated, List.filterMap_cons, List.filter_cons, defined]
        rfl

/-- Every theorem is accounted for once. -/
theorem length_generated (ds : List Identity) (found : List Implication) :
    (generated ds found).problems.length + (generated ds found).skipped.length = found.length := by
  induction found with
  | nil => rfl
  | cons i found ih =>
      simp only [generated, List.filterMap_cons, List.filter_cons] at ih ⊢
      cases problem? ds i with
      | none =>
          simp only [Option.isNone_none, if_true, List.map_cons, List.length_cons]
          omega
      | some made =>
          simp only [Option.isNone_some, Bool.false_eq_true, if_false, List.length_cons]
          omega

end EquationIndex

namespace Implication

/-- The name of a theorem gives both its numbers. -/
theorem eq_of_name {i j : Implication} (hi : IsRun i.hypothesis) (hj : IsRun j.hypothesis)
    (same : i.name = j.name) : i = j := by
  let low : CodeUnit := '_'
  have clear {k : Implication} (run : IsRun k.hypothesis) : low ∉ k.hypothesis :=
    fun mem => absurd (run.allDigits low mem) (by decide)
  have parts (k : Implication) : k.name =
      lit "Equation" ++ (k.hypothesis ++ low :: (lit "implies_Equation" ++ k.conjecture)) := by
    simp only [name, List.append_assoc]
    rfl
  rw [parts, parts, List.append_cancel_left_eq] at same
  have cutI := cut_mark (clear hi) (lit "implies_Equation" ++ i.conjecture)
  have cutJ := cut_mark (clear hj) (lit "implies_Equation" ++ j.conjecture)
  rw [same, cutJ.1, cutJ.2] at cutI
  have conjecture := List.append_cancel_left (List.cons.inj cutI.2).2
  cases i
  cases j
  simp_all

theorem isRun_of_mem_all {text : Text} {i : Implication} (mem : i ∈ all text) :
    IsRun i.hypothesis := by
  obtain ⟨before, rest, -, found⟩ := mem_scan.mp mem
  obtain ⟨spelling, after, -, spells, -⟩ := here?_eq_some.mp found
  exact spells.hypothesis

end Implication

namespace EquationIndex

/-- No theorem is among the problems and among the skipped. -/
theorem problems_not_skipped (ds : List Identity) (proofs : Text) :
    ∀ p ∈ (generated ds (Implication.all proofs)).problems,
      ∀ skipped ∈ (generated ds (Implication.all proofs)).skipped,
        p.fileName ≠ skipped ++ lit ".p" := by
  intro p made skipped passed same
  obtain ⟨i, memI, defined⟩ := List.mem_filterMap.mp made
  obtain ⟨j, memJ, rfl⟩ := List.mem_map.mp passed
  obtain ⟨among, undefined⟩ := List.mem_filter.mp memJ
  have fileName : p.fileName = i.name ++ lit ".p" := by
    simp only [problem?, Option.bind_eq_bind, Option.bind_eq_some_iff, Option.pure_def,
      Option.some.injEq] at defined
    obtain ⟨_, -, _, -, rfl⟩ := defined
    rfl
  rw [fileName] at same
  obtain rfl := Implication.eq_of_name (Implication.isRun_of_mem_all memI)
    (Implication.isRun_of_mem_all among) (List.append_cancel_right same)
  rw [defined] at undefined
  cases undefined

/-- From sources in which identities are printed in order, the index has their numbers, and under
    each a text that states the same clause as the last identity with that number. For the
    theorems that a file of proofs states one after the other, the problems are those of the last
    identities, in order, when both are defined; the other theorems are skipped, in order too. No
    theorem is lost or counted twice. -/
theorem problems_of_printed {dss : List (List Identity)} {sources : List Text}
    (printed : List.Forall₂ Prints dss sources) :
    (∀ key, key ∈ (ofSources sources).keys ↔ ∃ d ∈ dss.flatten, key = .finite d.number) ∧
      (∀ d ∈ dss.flatten, ∃ l text, last? dss.flatten d.number = some l ∧
        (ofSources sources).get? (.finite d.number) = some text ∧
        Clause.ofLean text = Clause.ofLean l.body ∧ Clause.ofLean l.body = .ok l.clause) ∧
      ∀ proofs, ∃ found,
        (∀ others, Implication.Successive proofs others ↔ others = found) ∧
        Generation.ofProofs proofs (ofSources sources) = .ok (generated dss.flatten found) ∧
        (generated dss.flatten found).problems.length +
          (generated dss.flatten found).skipped.length = found.length ∧
        ∀ p ∈ (generated dss.flatten found).problems,
          ∀ skipped ∈ (generated dss.flatten found).skipped, p.fileName ≠ skipped ++ lit ".p" := by
  have stores : List.Forall₂ Stores dss.flatten (sources.flatMap definitionsIn) := by
    induction printed with
    | nil => exact .nil
    | cons here _ ih =>
        rw [List.flatten_cons, List.flatMap_cons]
        exact List.rel_append (definitionsIn_printed here) ih
  refine ⟨fun key => mem_keys_of_stores stores, ?_, ?_⟩
  · intro d mem
    have numeral : Numeral.ofNat d.number = .finite d.number := (Numeral.ofNat_eq_iff d.small).mpr rfl
    have defined : (last? dss.flatten d.number).isSome = true :=
      List.find?_isSome.mpr ⟨d, List.mem_reverse.mpr mem, by simp⟩
    obtain ⟨l, last⟩ := Option.isSome_iff_exists.mp defined
    have stored := get?_of_stores stores d.number
    rw [numeral, last, ← ofSources] at stored
    rcases found : (ofSources sources).get? (.finite d.number) with _ | text
    · rw [found] at stored
      cases stored
    · rw [found] at stored
      obtain ⟨words⟩ := stored
      have clause := l.ofLean_of_spaced rfl
      exact ⟨l, text, last, rfl, (l.ofLean_of_spaced words).trans clause.symm, clause⟩
  · intro proofs
    exact ⟨Implication.all proofs, fun others => Implication.successive_iff,
      ofImplications_of_stores stores _, length_generated _ _, problems_not_skipped _ proofs⟩

theorem isNamed_x : (Term.var (lit "x")).IsNamed := by decide

theorem isNamed_y : (Term.var (lit "y")).IsNamed := by decide

theorem small_two : 2 < Nat.pow 2 53 := by decide

/-- All elements are equal. -/
def singleton : Identity :=
  ⟨2, .var (lit "x"), .var (lit "y"), small_two, isNamed_x, isNamed_y⟩

/-- Every element is itself. -/
def trivially : Identity :=
  ⟨5, .var (lit "x"), .var (lit "x"), by decide, isNamed_x, isNamed_x⟩

/-- The operation is commutative. -/
def commutes : Identity :=
  ⟨5, .op (.var (lit "x")) (.var (lit "y")), .op (.var (lit "y")) (.var (lit "x")),
    by decide, by decide, by decide⟩

/-- Two sources with broken lines, of which the second defines a number again. -/
def redefining : List Text :=
  [lit "\nequation 2 :=\n\n  x\n  = y\r\n\n  equation 5 := x = x",
    lit "equation 5 := (x ◇ y)\r\n    = (y ◇\n\tx)\n"]

theorem Identity.isPrinted_of_squeezeAfter {d : Identity} {tail : Text}
    (same : squeezeAfter false tail = space :: d.body) : d.IsPrinted (d.head ++ tail) :=
  ⟨tail, same ▸ (spread_squeezeAfter tail).1, rfl⟩

theorem prints_redefining :
    List.Forall₂ Prints [[singleton, trivially], [commutes]] redefining := by
  have first : singleton.IsPrinted (singleton.head ++ lit "\n\n  x\n  = y") :=
    Identity.isPrinted_of_squeezeAfter (by decide +kernel)
  have second : trivially.IsPrinted (trivially.head ++ lit " x = x") :=
    Identity.isPrinted_of_squeezeAfter (by decide +kernel)
  have third : commutes.IsPrinted (commutes.head ++ lit " (x ◇ y)\r\n    = (y ◇\n\tx)") :=
    Identity.isPrinted_of_squeezeAfter (by decide +kernel)
  have one : Prints [singleton, trivially] (lit "\n" ++ (singleton.head ++
      lit "\n\n  x\n  = y" ++ lit "\r" ++ newline :: (lit "\n  " ++
        (trivially.head ++ lit " x = x" ++ [])))) :=
    .more (by decide) first (by decide) (.last (by decide) second (by decide))
  have two : Prints [commutes] ([] ++ (commutes.head ++ lit " (x ◇ y)\r\n    = (y ◇\n\tx)" ++ [] ++
      newline :: [])) :=
    .more (by decide) third (by decide) (.blank (by decide))
  refine .cons ?_ (.cons ?_ .nil)
  · convert one using 1
    decide +kernel
  · convert two using 1
    decide +kernel

/-- The second definition counts, and a number without one skips its theorem. -/
theorem problems_of_printed_redefining :
    Generation.ofProofs
        (lit "theorem Equation2_implies_Equation5 : by\ntheorem\n  Equation5_implies_Equation9\n")
        (ofSources redefining) =
      .ok ⟨[⟨lit "Equation2_implies_Equation5.p", singleton.clause.problem commutes.clause⟩],
        [lit "Equation5_implies_Equation9"]⟩ := by
  obtain ⟨-, -, generates⟩ := problems_of_printed prints_redefining
  obtain ⟨found, only, made, -⟩ := generates
    (lit "theorem Equation2_implies_Equation5 : by\ntheorem\n  Equation5_implies_Equation9\n")
  have all : found = [⟨lit "2", lit "5"⟩, ⟨lit "5", lit "9"⟩] := by
    rw [← (only _).mp (Implication.successive_all _)]
    decide +kernel
  rw [made, all]
  rfl

end EquationIndex

end MagmaTrace
