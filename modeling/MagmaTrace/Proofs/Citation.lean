import MagmaTrace.Calc
import MagmaTrace.Proofs.Searching
import MagmaTrace.Proofs.Solid

/-! # Citations on the lines of a proof

Two readers look for citations on a line: one finds what a justification cites, the other
what a block depends on. The first takes a token wherever it stands and a lemma's number
after any white space; the second wants the token in parentheses and the number right after
`by lemma `. A justification's token is a dependency exactly where the block also writes it
in the second way (`CalcStep.cited_mem_dependencies_iff`).
-/

namespace MagmaTrace

open Text

namespace Dependency

/-- The tokens of declared statements. -/
inductive IsToken : Text → Prop where
  | hypothesis : IsToken hypothesisToken
  | numbered {lead digits : Text} (known : lead = lit "single_lemma_" ∨ lead = lit "history_lemma_")
      (nonempty : digits ≠ []) (all : ∀ u ∈ digits, isDigit u = true) : IsToken (lead ++ digits)

/-- A text has a whole number of some digits after `by lemma ` in any case. -/
def MentionsLemma (digits text : Text) : Prop :=
  ∃ before word rest, text = before ++ word ++ digits ++ rest ∧ lowerLetters word = lit "by lemma " ∧
    digits ≠ [] ∧ (∀ u ∈ digits, isDigit u = true) ∧ ∀ u ∈ rest.head?, isDigit u = false

/-- A text cites a name as a dependency: a token in parentheses, or a lemma by its number. -/
def Cites (name text : Text) : Prop :=
  (IsToken name ∧ lit "(" ++ name ++ lit ")" <:+: text) ∨
    ∃ digits, name = lemmaName digits ∧ MentionsLemma digits text

/-! ## Tokens -/

theorem numbered?_eq_some {lead text token rest : Text} :
    numbered? lead text = some (token, rest) ↔ ∃ digits, token = lead ++ digits ∧
      text = token ++ rest ∧ digits ≠ [] ∧ (∀ u ∈ digits, isDigit u = true) ∧
      ∀ u ∈ rest.head?, isDigit u = false := by
  unfold numbered?
  simp only [Option.bind_eq_bind, Option.bind_eq_some_iff, Prod.exists, strip?_eq_some,
    run?_eq_some, Option.pure_def, Option.some.injEq, Prod.mk.injEq]
  constructor
  · rintro ⟨_, rfl, digits, rest, ⟨rfl, nonempty, all, stop⟩, rfl, rfl⟩
    exact ⟨digits, rfl, by simp, nonempty, all, stop⟩
  · rintro ⟨digits, rfl, rfl, nonempty, all, stop⟩
    exact ⟨digits ++ rest, by simp, digits, rest, ⟨rfl, nonempty, all, stop⟩, rfl, rfl⟩

theorem IsToken.isWord_of_mem {token : Text} (h : IsToken token) :
    ∀ u ∈ token, isWord u = true := by
  cases h with
  | hypothesis => exact List.all_eq_true.mp (by decide)
  | @numbered lead digits known nonempty all =>
      have words : lead.all isWord = true := by rcases known with rfl | rfl <;> decide
      intro u mem
      rcases List.mem_append.mp mem with inLead | digit
      · exact List.all_eq_true.mp words u inLead
      · simp [isWord, all u digit]

theorem token?_sound {text token rest : Text} (h : token? text = some (token, rest)) :
    text = token ++ rest ∧ IsToken token := by
  unfold token? at h
  rw [Option.or_eq_some_iff, Option.or_eq_some_iff] at h
  rcases h with single | ⟨-, history | ⟨-, hypothesis⟩⟩
  · obtain ⟨digits, rfl, split, nonempty, all, -⟩ := numbered?_eq_some.mp single
    exact ⟨split, .numbered (.inl rfl) nonempty all⟩
  · obtain ⟨digits, rfl, split, nonempty, all, -⟩ := numbered?_eq_some.mp history
    exact ⟨split, .numbered (.inr rfl) nonempty all⟩
  · obtain ⟨after, stripped, same⟩ := Option.map_eq_some_iff.mp hypothesis
    cases same
    exact ⟨strip?_eq_some.mp stripped, .hypothesis⟩

theorem token?_complete {token rest : Text} (h : IsToken token)
    (stop : ∀ u ∈ rest.head?, isDigit u = false) : token? (token ++ rest) = some (token, rest) := by
  unfold token?
  cases h with
  | hypothesis =>
      have noSingle : single? (hypothesisToken ++ rest) = none := rfl
      have noHistory : history? (hypothesisToken ++ rest) = none := rfl
      have stripped : strip? hypothesisToken (hypothesisToken ++ rest) = some rest :=
        strip?_eq_some.mpr rfl
      rw [noSingle, noHistory, stripped]
      rfl
  | @numbered lead digits known nonempty all =>
      rcases known with rfl | rfl
      · have found : single? (lit "single_lemma_" ++ digits ++ rest) =
            some (lit "single_lemma_" ++ digits, rest) :=
          numbered?_eq_some.mpr ⟨digits, rfl, rfl, nonempty, all, stop⟩
        rw [found]
        rfl
      · have noSingle : single? (lit "history_lemma_" ++ digits ++ rest) = none := rfl
        have found : history? (lit "history_lemma_" ++ digits ++ rest) =
            some (lit "history_lemma_" ++ digits, rest) :=
          numbered?_eq_some.mpr ⟨digits, rfl, rfl, nonempty, all, stop⟩
        rw [noSingle, found]
        rfl

theorem token?_self_iff {text : Text} : token? text = some (text, []) ↔ IsToken text := by
  constructor
  · intro taken
    exact (token?_sound taken).2
  · intro known
    have taken : token? (text ++ []) = some (text, []) := token?_complete known (by simp)
    rwa [List.append_nil] at taken

instance : DecidablePred IsToken := fun _ => decidable_of_iff _ token?_self_iff

/-- Where a token of a declared statement stands, some token is found, if perhaps a longer one. -/
theorem token?_ne_none {token : Text} (h : IsToken token) (rest : Text) :
    token? (token ++ rest) ≠ none := by
  unfold token?
  cases h with
  | hypothesis =>
      have stripped : strip? hypothesisToken (hypothesisToken ++ rest) = some rest :=
        strip?_eq_some.mpr rfl
      simp [stripped]
  | @numbered lead digits known nonempty all =>
      have found : numbered? lead (lead ++ digits ++ rest) ≠ none := by
        have stripped : strip? lead (lead ++ digits ++ rest) = some (digits ++ rest) :=
          strip?_eq_some.mpr (List.append_assoc ..)
        have run : run? isDigit (digits ++ rest) ≠ none := by
          unfold run?
          rw [List.takeWhile_append_of_pos all]
          cases digits with
          | nil => exact absurd rfl nonempty
          | cons u more => simp
        obtain ⟨taken, run⟩ := Option.ne_none_iff_exists'.mp run
        unfold numbered?
        rw [stripped, Option.bind_eq_bind, Option.bind_some, run]
        exact Option.some_ne_none _
      rcases known with rfl | rfl
      · exact fun none => found (Option.or_eq_none_iff.mp none).1
      · exact fun none => found (Option.or_eq_none_iff.mp (Option.or_eq_none_iff.mp none).2).1

theorem mem_references {token text : Text} :
    token ∈ references text ↔ IsToken token ∧ lit "(" ++ token ++ lit ")" <:+: text := by
  unfold references
  rw [mem_scan]
  simp only [reference?, Option.bind_eq_bind, Option.bind_eq_some_iff, Prod.exists, strip?_eq_some,
    Option.pure_def, Option.some.injEq]
  constructor
  · rintro ⟨before, _, rfl, _, rfl, token, _, taken, after, rfl, rfl⟩
    obtain ⟨rfl, known⟩ := token?_sound taken
    exact ⟨known, before, after, by simp⟩
  · rintro ⟨known, before, after, rfl⟩
    refine ⟨before, lit "(" ++ token ++ lit ")" ++ after, by simp, _, by simp; rfl, token,
      lit ")" ++ after, ?_, after, rfl, rfl⟩
    exact token?_complete known (forall_mem_head?_cons (by decide) after)

/-! ## Mentions -/

theorem mention?_eq_some {text name : Text} :
    mention? text = some name ↔ ∃ word digits rest, name = lemmaName digits ∧
      text = word ++ digits ++ rest ∧ lowerLetters word = lit "by lemma " ∧ digits ≠ [] ∧
      (∀ u ∈ digits, isDigit u = true) ∧ ∀ u ∈ rest.head?, isDigit u = false := by
  unfold mention?
  simp only [Option.bind_eq_bind, Option.bind_eq_some_iff, Prod.exists, stripCaseless?_eq_some,
    run?_eq_some, Option.pure_def, Option.some.injEq]
  constructor
  · rintro ⟨_, ⟨word, rfl, spelled⟩, digits, rest, ⟨rfl, nonempty, all, stop⟩, rfl⟩
    exact ⟨word, digits, rest, rfl, by simp, spelled, nonempty, all, stop⟩
  · rintro ⟨word, digits, rest, rfl, rfl, spelled, nonempty, all, stop⟩
    exact ⟨digits ++ rest, ⟨word, by simp, spelled⟩, digits, rest, ⟨rfl, nonempty, all, stop⟩, rfl⟩

theorem mem_mentions {name text : Text} :
    name ∈ mentions text ↔ ∃ digits, name = lemmaName digits ∧ MentionsLemma digits text := by
  unfold mentions
  simp only [mem_scan, mention?_eq_some]
  constructor
  · rintro ⟨before, _, rfl, word, digits, rest, rfl, rfl, spelled, nonempty, all, stop⟩
    exact ⟨digits, rfl, before, word, rest, by simp, spelled, nonempty, all, stop⟩
  · rintro ⟨digits, rfl, before, word, rest, rfl, spelled, nonempty, all, stop⟩
    exact ⟨before, word ++ digits ++ rest, by simp, word, digits, rest, rfl, rfl, spelled,
      nonempty, all, stop⟩

/-! ## The dependencies of some lines -/

theorem mem_cited {name : Text} {lines : List Text} :
    name ∈ cited lines ↔ ∃ line ∈ lines, Cites name line := by
  unfold cited Cites
  rw [mem_firstMentions, List.mem_flatMap]
  simp only [List.mem_append, mem_references, mem_mentions]

theorem names_ofLines (lines : List Text) :
    (ofLines lines).map (·.name) = sort (cited lines) := by
  unfold ofLines
  rw [List.map_map]
  exact List.map_id _

theorem ofName_mem_ofLines {name : Text} {lines : List Text} (h : ∃ line ∈ lines, Cites name line) :
    ofName name ∈ ofLines lines :=
  List.mem_map_of_mem (mem_sort.mpr (mem_cited.mpr h))

theorem mem_names_ofLines {name : Text} {lines : List Text} :
    name ∈ (ofLines lines).map (·.name) ↔ ∃ line ∈ lines, Cites name line := by
  rw [names_ofLines, mem_sort, mem_cited]

end Dependency

namespace CalcStep

open Dependency

/-- A text has a whole number of some digits after the word `lemma` in any case and white
    space. -/
def NumbersLemma (digits text : Text) : Prop :=
  ∃ before word gap rest, text = before ++ word ++ gap ++ digits ++ rest ∧
    lowerLetters word = lit "lemma" ∧ gap ≠ [] ∧ IsBlank gap ∧ digits ≠ [] ∧
    (∀ u ∈ digits, isDigit u = true) ∧ ∀ u ∈ rest.head?, isDigit u = false

/-- A text cites a name as a justification: by a token anywhere, or without any token by a
    lemma's number. -/
def Justifies (name text : Text) : Prop :=
  (IsToken name ∧ name <:+: text) ∨
    (∃ digits, name = lemmaName digits ∧ NumbersLemma digits text) ∧
      ∀ token, IsToken token → ¬ token <:+: text

theorem numberedLemma?_sound {text name : Text} (h : numberedLemma? text = some name) :
    ∃ word gap digits rest, name = lemmaName digits ∧ text = word ++ gap ++ digits ++ rest ∧
      lowerLetters word = lit "lemma" ∧ gap ≠ [] ∧ IsBlank gap ∧ digits ≠ [] ∧
      (∀ u ∈ digits, isDigit u = true) ∧ ∀ u ∈ rest.head?, isDigit u = false := by
  unfold numberedLemma? skipSomeBlanks? at h
  simp only [Option.bind_eq_bind, Option.bind_eq_some_iff, Option.map_eq_some_iff, Prod.exists,
    stripCaseless?_eq_some, run?_eq_some, Option.pure_def, Option.some.injEq] at h
  obtain ⟨_, ⟨word, rfl, spelled⟩, _, ⟨gap, _, ⟨rfl, wide, blank, -⟩, rfl⟩, digits, rest,
    ⟨rfl, nonempty, all, stop⟩, rfl⟩ := h
  exact ⟨word, gap, digits, rest, rfl, by simp, spelled, wide, blank, nonempty, all, stop⟩

/-- No token stands in a text in which the search for one finds nothing. -/
theorem not_infix_of_first? {text token : Text} (none : first? token? text = none)
    (known : IsToken token) : ¬ token <:+: text := by
  rintro ⟨before, after, rfl⟩
  exact token?_ne_none known after (first?_eq_none.mp none before (token ++ after) (by simp))

theorem justifies_of_citedToken? {text name : Text} (h : citedToken? text = some name) :
    Justifies name text := by
  unfold citedToken? at h
  rw [Option.or_eq_some_iff] at h
  rcases h with declared | ⟨none, numbered⟩
  · obtain ⟨⟨token, rest⟩, found, rfl⟩ := Option.map_eq_some_iff.mp declared
    obtain ⟨before, after, rfl, taken, -⟩ := first?_eq_some found
    obtain ⟨rfl, known⟩ := token?_sound taken
    exact .inl ⟨known, before, rest, by simp⟩
  · obtain ⟨before, _, rfl, taken, -⟩ := first?_eq_some numbered
    obtain ⟨word, gap, digits, rest, rfl, rfl, spelled⟩ := numberedLemma?_sound taken
    refine .inr ⟨⟨digits, rfl, before, word, gap, rest, by simp, spelled⟩, ?_⟩
    intro token known
    exact not_infix_of_first? (Option.map_eq_none_iff.mp none) known

/-- A justification takes its token from its line in a looser form than the block takes its
    dependencies in. A token that the line cites in the stricter form is a dependency of the
    block, and in general it is one exactly when some line of the block cites it so. -/
theorem cited_mem_dependencies_iff {block : ProofBlock} {line : ProofLine} {token : Text}
    (mem : line ∈ block.lines) (cited : citedToken? line.text = some token) :
    Justifies token line.text ∧
      (Cites token line.text → token ∈ block.dependencies.map (·.name)) ∧
      (token ∈ block.dependencies.map (·.name) ↔
        ∃ other ∈ block.lines, Cites token other.text) := by
  have recorded : token ∈ block.dependencies.map (·.name) ↔
      ∃ other ∈ block.lines, Cites token other.text := by
    unfold ProofBlock.dependencies
    rw [mem_names_ofLines]
    simp only [List.mem_map, exists_exists_and_eq_and]
  exact ⟨justifies_of_citedToken? cited, fun cites => recorded.mpr ⟨line, mem, cites⟩, recorded⟩

/-- A token without parentheses is a dependency when another line has it in parentheses. -/
theorem cited_mem_dependencies_of_other_line :
    let line : ProofLine := ⟨lit "= \x7b by axiom 1 single_lemma_3 \x7d", 2⟩
    let other : ProofLine := ⟨lit "= \x7b by axiom 1 (single_lemma_3) \x7d", 4⟩
    let block : ProofBlock := ⟨lit "single_lemma_4",
      [⟨lit "op(a,b)", 1⟩, line, ⟨lit "op(b,a)", 3⟩, other, ⟨lit "op(a,a)", 5⟩]⟩
    citedToken? line.text = some (lit "single_lemma_3") ∧
      lit "single_lemma_3" ∈ block.dependencies.map (·.name) := by
  intro line other block
  have mem : line ∈ block.lines := by decide
  have cited : citedToken? line.text = some (lit "single_lemma_3") := by decide
  have parenthesized : Cites (lit "single_lemma_3") other.text :=
    .inl (mem_references.mp (by decide))
  exact ⟨cited, (cited_mem_dependencies_iff mem cited).2.2.mpr ⟨other, by decide, parenthesized⟩⟩

/-- A justification can cite what no line of its block depends on. -/
theorem cited_without_dependency :
    ¬ ∀ (block : ProofBlock) (line : ProofLine) (token : Text), line ∈ block.lines →
      isJustification line.text = true → citedToken? line.text = some token →
      token ∈ block.dependencies.map (·.name) := by
  intro claimed
  let line : ProofLine := ⟨lit "= \x7b by axiom 1 single_lemma_3 \x7d", 2⟩
  let block : ProofBlock := ⟨lit "single_lemma_4", [⟨lit "op(a,b)", 1⟩, line, ⟨lit "op(b,a)", 3⟩]⟩
  have reported := claimed block line (lit "single_lemma_3") (by decide) (by decide) (by decide)
  unfold ProofBlock.dependencies at reported
  rw [names_ofLines, mem_sort] at reported
  exact absurd reported (by decide)

end CalcStep

end MagmaTrace
