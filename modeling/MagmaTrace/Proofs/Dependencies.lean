import MagmaTrace.Proofs.Numbering
import MagmaTrace.Proofs.Ordering

/-! # The dependencies of some lines

What some lines depend on is a set, given in increasing order of name: each token in parentheses on
any of the lines, and each lemma mentioned there by its number. It depends on which lines there are
and not on their order, nor on how often a line is there, and the dependencies of more lines are
united and sorted again (`Dependency.ofLines_exact`).
-/

namespace MagmaTrace

open Text

namespace Dependency

/-- A line cites a dependency: one of the tokens in parentheses, or a lemma by its number. -/
inductive IsCitedOn (line : Text) : Dependency → Prop where
  | hypothesis (here : lit "(a1)" <:+: line) : IsCitedOn line ⟨.hypothesis, lit "a1"⟩
  | single {digits : Text} (nonempty : digits ≠ []) (all : ∀ u ∈ digits, isDigit u = true)
      (here : lit "(single_lemma_" ++ digits ++ lit ")" <:+: line) :
      IsCitedOn line ⟨.single, lit "single_lemma_" ++ digits⟩
  | history {digits : Text} (nonempty : digits ≠ []) (all : ∀ u ∈ digits, isDigit u = true)
      (here : lit "(history_lemma_" ++ digits ++ lit ")" <:+: line) :
      IsCitedOn line ⟨.history, lit "history_lemma_" ++ digits⟩
  | mentioned {digits : Text} (here : MentionsLemma digits line) :
      IsCitedOn line ⟨.mentioned, lit "Lemma_" ++ digits⟩

section

variable {digits line : Text} {d : Dependency}

/-! ## Names and kinds -/

theorem numbered?_self {lead : Text} (nonempty : digits ≠ [])
    (all : ∀ u ∈ digits, isDigit u = true) :
    numbered? lead (lead ++ digits) = some (lead ++ digits, []) :=
  numbered?_eq_some.mpr ⟨digits, rfl, by simp, nonempty, all, by simp⟩

theorem kindOf_single (nonempty : digits ≠ []) (all : ∀ u ∈ digits, isDigit u = true) :
    kindOf (lit "single_lemma_" ++ digits) = .single := by
  have other : lit "single_lemma_" ++ digits ≠ hypothesisToken := by
    intro same
    cases (List.cons.inj same).1
  unfold kindOf
  rw [if_neg other, single?, numbered?_self nonempty all]
  rfl

theorem kindOf_history (nonempty : digits ≠ []) (all : ∀ u ∈ digits, isDigit u = true) :
    kindOf (lit "history_lemma_" ++ digits) = .history := by
  have other : lit "history_lemma_" ++ digits ≠ hypothesisToken := by
    intro same
    cases (List.cons.inj same).1
  have noSingle : single? (lit "history_lemma_" ++ digits) = none := rfl
  unfold kindOf
  rw [if_neg other, noSingle, history?, numbered?_self nonempty all]
  rfl

/-- A line cites a dependency when it cites its name and the name is of its kind. -/
theorem isCitedOn_iff : IsCitedOn line d ↔ Cites d.name line ∧ d.kind = kindOf d.name := by
  constructor
  · intro cited
    cases cited with
    | hypothesis here => exact ⟨.inl ⟨.hypothesis, here⟩, rfl⟩
    | single nonempty all here =>
        exact ⟨.inl ⟨.numbered (.inl rfl) nonempty all, here⟩, (kindOf_single nonempty all).symm⟩
    | history nonempty all here =>
        exact ⟨.inl ⟨.numbered (.inr rfl) nonempty all, here⟩, (kindOf_history nonempty all).symm⟩
    | mentioned here =>
        obtain ⟨before, word, rest, split, spelled, nonempty, all, stop⟩ := here
        exact ⟨.inr ⟨_, rfl, before, word, rest, split, spelled, nonempty, all, stop⟩,
          (kindOf_lemmaName nonempty all).symm⟩
  · obtain ⟨kind, name⟩ := d
    rintro ⟨⟨known, here⟩ | ⟨digits, named, here⟩, fits⟩
    · cases known with
      | hypothesis =>
          cases fits
          exact .hypothesis here
      | @numbered lead digits known nonempty all =>
          rcases known with rfl | rfl
          · cases fits.trans (kindOf_single nonempty all)
            exact .single nonempty all here
          · cases fits.trans (kindOf_history nonempty all)
            exact .history nonempty all here
    · have mentions := here
      obtain ⟨-, -, -, -, -, nonempty, all, -⟩ := mentions
      cases named
      cases fits.trans (kindOf_lemmaName nonempty all)
      exact .mentioned here

theorem mem_ofLines {lines : List Text} :
    d ∈ ofLines lines ↔ ∃ line ∈ lines, IsCitedOn line d := by
  simp only [isCitedOn_iff, ofLines, List.mem_map, mem_sort, mem_cited]
  constructor
  · rintro ⟨name, ⟨line, mem, cites⟩, rfl⟩
    exact ⟨line, mem, cites, rfl⟩
  · rintro ⟨line, mem, cites, fits⟩
    exact ⟨d.name, ⟨line, mem, cites⟩, by rw [ofName, ← fits]⟩

end

theorem increasing_ofLines (lines : List Text) : IncreasingBy name (ofLines lines) := by
  rw [increasingBy_iff, names_ofLines]
  exact pairwise_lt_sort (nodup_firstMentions _)

/-- Different dependencies have different names where these tell their kinds. -/
theorem nodup_names {ds : List Dependency} (distinct : ds.Nodup)
    (kinds : ∀ d ∈ ds, d.kind = kindOf d.name) : (ds.map name).Nodup := by
  refine List.Nodup.map_on ?_ distinct
  rintro ⟨kind, name⟩ hd ⟨kind', name'⟩ he rfl
  rw [Dependency.mk.injEq]
  exact ⟨(kinds _ hd).trans (kinds _ he).symm, rfl⟩

/-- The dependencies of some lines are in increasing order of name, and they are those that any of
    the lines cites. So they are the same for the same lines in any order and any number, and those
    of two lists of lines are the union of those of each, sorted again. -/
theorem ofLines_exact (lines : List Text) :
    IncreasingBy name (ofLines lines) ∧
    (∀ d, d ∈ ofLines lines ↔ ∃ line ∈ lines, IsCitedOn line d) ∧
    (∀ others : List Text, (∀ line, line ∈ others ↔ line ∈ lines) →
      ofLines others = ofLines lines) ∧
    ∀ more, ofLines (lines ++ more) = sortBy name (ofLines lines ∪ ofLines more) := by
  refine ⟨increasing_ofLines lines, fun d => mem_ofLines, fun others same => ?_, fun more => ?_⟩
  · refine (increasing_ofLines others).eq_of_mem_iff (increasing_ofLines lines) fun d => ?_
    simp only [mem_ofLines, same]
  · have members (d : Dependency) : d ∈ ofLines lines ∪ ofLines more ↔
        ∃ line ∈ lines ++ more, IsCitedOn line d := by
      simp only [List.mem_union_iff, mem_ofLines, List.mem_append, or_and_right, exists_or]
    have distinct : (ofLines lines ∪ ofLines more).Nodup :=
      (increasing_ofLines more).nodup.union _
    have kinds : ∀ d ∈ ofLines lines ∪ ofLines more, d.kind = kindOf d.name := by
      intro d mem
      obtain ⟨line, -, cited⟩ := (members d).mp mem
      exact (isCitedOn_iff.mp cited).2
    have increasing := increasingBy_sortBy (nodup_names distinct kinds)
    refine (increasing_ofLines _).eq_of_mem_iff increasing fun d => ?_
    rw [mem_ofLines, mem_sortBy, members]

/-- Two lines in the other order, one of them twice. Digits are kept as they are written, and a
    capital comes before a small letter. -/
theorem ofLines_exact_repeated :
    let first := lit "(single_lemma_12) BY Lemma 07x"
    let second := lit "by lemma 7 (a1)(a1), single_lemma_3"
    (∀ line, line ∈ [second, first, second] ↔ line ∈ [first, second]) ∧
    ofLines [second, first, second] = ofLines [first, second] ∧
    (ofLines [first, second]).map (·.name) =
      [lit "Lemma_07", lit "Lemma_7", lit "a1", lit "single_lemma_12"] := by
  intro first second
  have same : ∀ line, line ∈ [second, first, second] ↔ line ∈ [first, second] := by
    intro line
    simp only [List.mem_cons, List.not_mem_nil, or_false]
    constructor
    · rintro (h | h | h)
      exacts [.inr h, .inl h, .inr h]
    · rintro (h | h)
      exacts [.inr (.inl h), .inl h]
  refine ⟨same, (ofLines_exact [first, second]).2.2.1 _ same, ?_⟩
  rw [names_ofLines]
  exact sort_eq_of_perm (by decide +kernel) (by decide +kernel)

end Dependency

end MagmaTrace
