import Mathlib.Data.List.Chain
import MagmaTrace.Proofs.Strays

/-! # The tokens of a text and the text

The tokens of a text say where they stand, and what is between them is white space, so a text can be
told from its tokens but for the kind of white space. Which texts have tokens, which tokens these
are, and where any other text is refused is stated together (`Token.ofText_lossless`).
-/

namespace MagmaTrace

open Text

/-- The part of a text from an offset up to another. -/
def Text.slice (text : Text) (start stop : Nat) : Text := (text.drop start).take (stop - start)

namespace Text

variable {text part rest : Text} {start stop : Nat}

theorem slice_of_drop (h : text.drop start = part ++ rest) :
    text.slice start (start + part.length) = part := by
  rw [slice, h, Nat.add_sub_cancel_left, List.take_left]

theorem drop_of_drop (h : text.drop start = part ++ rest) :
    text.drop (start + part.length) = rest := by
  rw [← List.drop_drop, h, List.drop_left]

theorem length_slice (start : Nat) (h : stop ≤ text.length) :
    (text.slice start stop).length = stop - start := by
  rw [slice, List.length_take, List.length_drop]
  omega

theorem drop_eq_slice_append (h : start ≤ stop) (text : Text) :
    text.drop start = text.slice start stop ++ text.drop stop := by
  obtain ⟨more, rfl⟩ := Nat.exists_eq_add_of_le h
  rw [slice, Nat.add_sub_cancel_left, ← List.drop_drop, List.take_append_drop]

/-- What can be cut out stands within the text. -/
theorem length_le_of_drop (h : text.drop start = part ++ rest) (within : start ≤ text.length) :
    start + part.length ≤ text.length := by
  have whole := congrArg List.length h
  rw [List.length_drop, List.length_append] at whole
  omega

end Text

namespace Token

/-! ## What tokens say about a text -/

/-- A token stands after another in a text: it starts where that ends or later, with only white
    space in between, and with some if both are names. -/
structure Follows (text : Text) (a b : Token) : Prop where
  later : a.position < b.position
  disjoint : a.stop ≤ b.position
  gap : IsBlank (text.slice a.stop b.position)
  names : a.kind = .name → b.kind = .name → a.stop < b.position

/-- Tokens that account for a text from an offset on. Only the last of them is an end, where the
    text ends. What a token is spelled with stands in the text where the token says, and what does
    not belong to a token is white space. -/
structure Covers (text : Text) (start : Nat) (tokens : List Token) : Prop where
  finished : ∃ body, tokens = body ++ [⟨.finish, [], text.length⟩] ∧
    ∀ token ∈ body, token.kind ≠ .finish
  spelled : ∀ token ∈ tokens, IsSpelled token
  placed : ∀ token ∈ tokens, text.slice token.position token.stop = token.value
  lead : ∀ first ∈ tokens.head?, start ≤ first.position ∧ IsBlank (text.slice start first.position)
  apart : tokens.IsChain (Follows text)

section

variable {text : Text} {start : Nat} {token : Token} {tokens : List Token}

theorem not_covers_nil : ¬ Covers text start [] := by
  rintro ⟨⟨body, split, -⟩, -, -, -, -⟩
  simp at split

theorem covers_finish_iff (finish : token.kind = .finish) : Covers text start (token :: tokens) ↔
    (token = ⟨.finish, [], text.length⟩ ∧ tokens = []) ∧
      start ≤ text.length ∧ IsBlank (text.slice start text.length) := by
  constructor
  · intro covers
    obtain ⟨body, split, proper⟩ := covers.finished
    cases body with
    | nil =>
        obtain ⟨rfl, rfl⟩ := List.cons.inj split
        exact ⟨⟨rfl, rfl⟩, covers.lead _ rfl⟩
    | cons first body =>
        obtain ⟨rfl, -⟩ := List.cons.inj split
        exact absurd finish (proper token List.mem_cons_self)
  · rintro ⟨⟨rfl, rfl⟩, within, blank⟩
    exact {
      finished := ⟨[], rfl, by simp⟩
      spelled := by simp [IsSpelled]
      placed := by simp [slice, stop]
      lead := by rintro _ ⟨⟩; exact ⟨within, blank⟩
      apart := .singleton _ }

/-- What a first token that is no end adds to the tokens after it. -/
theorem covers_cons_iff (proper : token.kind ≠ .finish) : Covers text start (token :: tokens) ↔
    IsSpelled token ∧ text.slice token.position token.stop = token.value ∧
      (start ≤ token.position ∧ IsBlank (text.slice start token.position)) ∧
      (token.kind = .name → ∀ next ∈ tokens.head?, next.kind = .name →
        token.stop < next.position) ∧ Covers text token.stop tokens := by
  constructor
  · intro covers
    obtain ⟨chained, apart⟩ := List.isChain_cons.mp covers.apart
    obtain ⟨spelled, spelledMore⟩ := List.forall_mem_cons.mp covers.spelled
    obtain ⟨placed, placedMore⟩ := List.forall_mem_cons.mp covers.placed
    refine ⟨spelled, placed, covers.lead token rfl,
      fun name next first => (chained next first).names name, ?_⟩
    obtain ⟨body, split, propers⟩ := covers.finished
    cases body with
    | nil =>
        obtain ⟨rfl, -⟩ := List.cons.inj split
        exact absurd rfl proper
    | cons first body =>
        obtain ⟨rfl, rfl⟩ := List.cons.inj split
        exact {
          finished := ⟨body, rfl, (List.forall_mem_cons.mp propers).2⟩
          spelled := spelledMore
          placed := placedMore
          lead := fun next first => ⟨(chained next first).disjoint, (chained next first).gap⟩
          apart := apart }
  · rintro ⟨spelled, placed, lead, names, more⟩
    obtain ⟨body, rfl, propers⟩ := more.finished
    have nonempty := List.length_pos_iff.mpr (spelled.value_ne_nil proper)
    have follows : ∀ next ∈ (body ++ [(⟨.finish, [], text.length⟩ : Token)]).head?,
        Follows text token next := by
      intro next first
      obtain ⟨disjoint, gap⟩ := more.lead next first
      have later : token.position < next.position := by
        rw [stop] at disjoint
        omega
      exact ⟨later, disjoint, gap, fun name => names name next first⟩
    exact {
      finished := ⟨token :: body, rfl, List.forall_mem_cons.mpr ⟨proper, propers⟩⟩
      spelled := List.forall_mem_cons.mpr ⟨spelled, more.spelled⟩
      placed := List.forall_mem_cons.mpr ⟨placed, more.placed⟩
      lead := by rintro _ ⟨⟩; exact lead
      apart := List.isChain_cons.mpr ⟨follows, more.apart⟩ }

/-- Where a token stands, the text goes on with it. -/
theorem Covers.drop_position (h : Covers text start tokens) (mem : token ∈ tokens) :
    text.drop token.position = token.value ++ text.drop token.stop := by
  have within : token.position ≤ token.stop := Nat.le_add_right ..
  rw [drop_eq_slice_append within, h.placed token mem]

/-- Where a name stands, the text goes on with a word unit. -/
theorem Covers.isWord_head? (h : Covers text start tokens) (mem : token ∈ tokens)
    (name : token.kind = .name) : ∃ u ∈ (text.drop token.position).head?, isWord u = true := by
  have spelled := h.spelled token mem
  rw [IsSpelled, name] at spelled
  rw [h.drop_position mem]
  cases value : token.value with
  | nil =>
      rw [value] at spelled
      exact spelled.elim
  | cons u more =>
      rw [value] at spelled
      exact ⟨u, rfl, isWord_of_isWordStart spelled.1⟩

/-- Tokens stand within the text. -/
theorem Covers.stop_le (h : Covers text start tokens) (mem : token ∈ tokens) :
    token.stop ≤ text.length := by
  by_cases finish : token.kind = .finish
  · obtain ⟨body, rfl, proper⟩ := h.finished
    rcases List.mem_append.mp mem with mem | mem
    · exact absurd finish (proper token mem)
    · rw [List.mem_singleton.mp mem, stop]
      exact Nat.le_refl _
  · have nonempty := List.length_pos_iff.mpr ((h.spelled token mem).value_ne_nil finish)
    have lengths := congrArg List.length (h.placed token mem)
    rw [slice, List.length_take, List.length_drop, stop] at lengths
    rw [stop]
    omega

/-- A text goes on with a word unit only where a name stands. -/
theorem Covers.exists_name (h : Covers text start tokens) {u : CodeUnit}
    (first : u ∈ (text.drop start).head?) (word : isWord u = true) :
    ∃ next ∈ tokens.head?, next.kind = .name ∧ next.position = start := by
  cases tokens with
  | nil => exact absurd h not_covers_nil
  | cons next tokens =>
      obtain ⟨ahead, blank⟩ := h.lead next rfl
      have within := h.stop_le List.mem_cons_self
      have length := length_slice start (Nat.le_trans (Nat.le_add_right ..) within)
      rw [drop_eq_slice_append ahead, h.drop_position List.mem_cons_self] at first
      cases gap : text.slice start next.position with
      | cons v gap =>
          rw [gap] at first blank
          cases first
          rw [not_isWord_of_isBlank (blank u List.mem_cons_self)] at word
          cases word
      | nil =>
          rw [gap, List.length_nil] at length
          rw [gap, List.nil_append] at first
          by_cases finish : next.kind = .finish
          · obtain ⟨⟨rfl, -⟩, -⟩ := (covers_finish_iff finish).mp h
            simp [stop] at first
          · have spelled := h.spelled next List.mem_cons_self
            rcases spelled.name_or_mark finish with ⟨name, -⟩ | ⟨mark, single, isMark, -⟩
            · exact ⟨next, rfl, name, by omega⟩
            · rw [single] at first
              cases first
              rw [not_isWord_of_ofMark? isMark] at word
              cases word

/-- Tokens that lay out the rest of a text account for it. -/
theorem covers_of_lays {rest : Text} (h : Lays start rest tokens) (within : start ≤ text.length)
    (same : text.drop start = rest) : Covers text start tokens := by
  induction h with
  | @finish position gap blank =>
      have whole : text.length = position + gap.length := by
        rw [← same, List.length_drop]
        omega
      have placed := slice_of_drop (same.trans (List.append_nil gap).symm)
      rw [← whole] at placed ⊢
      exact (covers_finish_iff rfl).mpr ⟨⟨rfl, rfl⟩, within, by rwa [placed]⟩
  | @token position gap rest token tokens blank place onward further ih =>
      have before := slice_of_drop same
      have there := drop_of_drop same
      have within' := length_le_of_drop same within
      rw [← place] at before there within'
      have after := drop_of_drop there
      have covers := ih (length_le_of_drop there within') after
      refine (covers_cons_iff onward.proper).mpr
        ⟨onward.spelled, slice_of_drop there, ⟨by omega, by rwa [before]⟩, ?_, covers⟩
      -- A name right after this one would go on with it.
      intro name next first other
      refine lt_of_le_of_ne (covers.lead next first).1 fun touching => ?_
      obtain ⟨u, goesOn, word⟩ := covers.isWord_head? (List.mem_of_mem_head? first) other
      rw [← touching, stop, after] at goesOn
      rw [onward.longest name u goesOn] at word
      cases word

/-- Tokens that account for the rest of a text lay it out. -/
theorem Covers.lays (h : Covers text start tokens) (within : start ≤ text.length) :
    Lays start (text.drop start) tokens := by
  induction tokens generalizing start with
  | nil => exact absurd h not_covers_nil
  | cons token tokens ih =>
      by_cases finish : token.kind = .finish
      · obtain ⟨⟨rfl, rfl⟩, -, blank⟩ := (covers_finish_iff finish).mp h
        have rest := drop_eq_slice_append within text
        rw [List.drop_length, List.append_nil] at rest
        rw [← rest] at blank
        have laid : Lays start _ [_] := .finish blank
        rwa [List.length_drop, Nat.add_sub_of_le within] at laid
      · obtain ⟨spelled, placed, ⟨ahead, blank⟩, names, covers⟩ := (covers_cons_iff finish).mp h
        have within' := h.stop_le List.mem_cons_self
        have length := length_slice start (Nat.le_trans (Nat.le_add_right ..) within')
        rw [drop_eq_slice_append ahead, h.drop_position List.mem_cons_self]
        refine .token blank (by omega) ⟨spelled, finish, ?_⟩ (ih covers within')
        -- A word unit right after a name would start another name.
        intro name u first
        rw [Bool.eq_false_iff]
        intro word
        obtain ⟨next, follows, other, touching⟩ := covers.exists_name first word
        exact absurd touching (Nat.ne_of_gt (names name next follows other))

theorem lays_iff_covers : Lays 0 text tokens ↔ Covers text 0 tokens :=
  ⟨fun h => covers_of_lays h (Nat.zero_le _) rfl, fun h => h.lays (Nat.zero_le _)⟩

end

/-! ## Reading a whole text -/

/-- A text has the tokens that lay it out, or it is refused at a stray unit with tokens that lay
    out what is before it. -/
theorem ofText_cases (text : Text) : (∃ tokens, ofText text = .ok tokens ∧ Lays 0 text tokens) ∨
    ∃ before u rest tokens, ofText text = .error (.located (.strayUnit u) text before.length) ∧
      text = before ++ u :: rest ∧ IsStray before u ∧ Lays 0 before tokens := by
  have read := readsAs_tokensFrom 0 text
  unfold ofText
  cases outcome : tokensFrom 0 text with
  | ok tokens =>
      rw [outcome] at read
      obtain ⟨lays⟩ := read
      exact .inl ⟨tokens, rfl, lays⟩
  | error e =>
      rw [outcome] at read
      obtain - | @⟨before, rest, u, tokens, split, lays, stray⟩ := read
      refine .inr ⟨before, u, rest, tokens, ?_, split, stray, lays⟩
      rw [Nat.zero_add]

/-- The tokens of a text are those that account for it. -/
theorem ofText_ok_iff {text : Text} {tokens : List Token} :
    ofText text = .ok tokens ↔ Covers text 0 tokens := by
  rw [← lays_iff_covers]
  constructor
  · intro read
    rcases ofText_cases text with ⟨tokens', read', lays⟩ | ⟨_, _, _, _, read', -⟩
    · rw [read] at read'
      cases read'
      exact lays
    · rw [read] at read'
      cases read'
  · intro lays
    rw [ofText, tokensFrom_of_lays lays]

theorem exists_ofText_iff {text : Text} :
    (∃ tokens, ofText text = .ok tokens) ↔ IsLexical text := by
  rw [isLexical_iff]
  rcases ofText_cases text with ⟨tokens, read, lays⟩ | ⟨before, u, rest, _, read, split, stray, -⟩
  · exact ⟨fun _ => not_isStray_of_lays lays [] [], fun _ => ⟨tokens, read⟩⟩
  · simp only [read, reduceCtorEq, exists_false, false_iff]
    exact fun clear => clear before u rest split stray

theorem ofText_error {text : Text} {e : SyntaxError} (h : ofText text = .error e) :
    ∃ before u rest, text = before ++ u :: rest ∧
      e = .located (.strayUnit u) text before.length ∧ IsStray before u ∧
      (∃ tokens, Covers before 0 tokens) ∧ ∀ a v b, before = a ++ v :: b → ¬ IsStray a v := by
  rcases ofText_cases text with ⟨_, read, -⟩ | ⟨before, u, rest, tokens, read, split, stray, lays⟩
  · rw [read] at h
    cases h
  · rw [read] at h
    cases h
    have covers := lays_iff_covers.mp lays
    exact ⟨before, u, rest, split, rfl, stray, ⟨tokens, covers⟩, not_isStray_of_lays lays [] []⟩

/-- A digit goes on with a name, but it starts none. -/
example : ofText (lit "x2 ◇ 2y") =
    .error (.located (.strayUnit '2') (lit "x2 ◇ 2y") 5) := by
  decide +kernel

/-- A text has tokens when it is made of white space, parentheses, operation signs and words that do
    not start with a digit. Its tokens are the ones that account for all of it. A text that has
    none is refused at its first stray unit, after the tokens of what is before that. -/
theorem ofText_lossless (text : Text) :
    ((∃ tokens, ofText text = .ok tokens) ↔ IsLexical text) ∧
      (∀ tokens, ofText text = .ok tokens ↔ Covers text 0 tokens) ∧
      ∀ e, ofText text = .error e → ∃ before u rest, text = before ++ u :: rest ∧
        e = .located (.strayUnit u) text before.length ∧ IsStray before u ∧
        (∃ tokens, Covers before 0 tokens) ∧
        ∀ a v b, before = a ++ v :: b → ¬ IsStray a v :=
  ⟨exists_ofText_iff, fun _ => ofText_ok_iff, fun _ => ofText_error⟩

end Token

end MagmaTrace
