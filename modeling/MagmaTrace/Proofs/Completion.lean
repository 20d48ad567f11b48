import MagmaTrace.Proofs.Collecting
import MagmaTrace.Proofs.Recognition

/-! # Declarations on several lines

A declaration may be broken into lines wherever it has white space. Joined again, the lines have
its words and so declare what it declares. But a collector takes what it has joined for complete
when it ends with `).`, while a declaration may have white space before its period, and a name may
end with `).` as well. A collector gives a broken declaration at its last line exactly when neither
is in the way (`Collector.answers_of_broken`).
-/

namespace MagmaTrace

open Text

namespace Text

/-! ## Marks beside white space -/

section

variable {mark : Text} {u : CodeUnit} (apart : u ∉ mark)
include apart

/-- A mark stands before a unit that it does not hold, or after it. -/
theorem mark_before_or_after (nonempty : mark ≠ []) {a b c d : Text}
    (h : a ++ (mark ++ b) = c ++ u :: d) :
    (∃ between, c = a ++ (mark ++ between) ∧ b = between ++ u :: d) ∨
      ∃ between, a = c ++ u :: between ∧ d = between ++ (mark ++ b) := by
  rcases List.append_eq_append_iff.mp h with ⟨inside, rfl, same⟩ | ⟨inside, rfl, same⟩
  · rcases List.append_eq_append_iff.mp same with ⟨more, rfl, rfl⟩ | ⟨more, split, same⟩
    · exact .inl ⟨more, rfl, rfl⟩
    · cases more with
      | nil =>
          rw [List.append_nil] at split
          exact .inl ⟨[], by rw [split, List.append_nil], same.symm⟩
      | cons v more =>
          obtain ⟨rfl, -⟩ := List.cons.inj same
          exact absurd (split ▸ List.mem_append_right inside List.mem_cons_self) apart
  · cases inside with
    | nil =>
        obtain ⟨v, mark, rfl⟩ := List.exists_cons_of_ne_nil nonempty
        obtain ⟨rfl, -⟩ := List.cons.inj same
        exact absurd List.mem_cons_self apart
    | cons v more =>
        obtain ⟨rfl, rfl⟩ := List.cons.inj same
        exact .inr ⟨more, rfl, rfl⟩

theorem infix_append_iff (nonempty : mark ≠ []) {a b : Text} :
    mark <:+: a ++ u :: b ↔ mark <:+: a ∨ mark <:+: b := by
  constructor
  · rintro ⟨before, after, split⟩
    rw [List.append_assoc] at split
    rcases mark_before_or_after apart nonempty split with ⟨more, rfl, -⟩ | ⟨more, -, rfl⟩
    · exact .inl ⟨before, more, List.append_assoc ..⟩
    · exact .inr ⟨more, after, List.append_assoc ..⟩
  · rintro (inside | inside)
    · exact inside.trans (List.prefix_append a _).isInfix
    · exact inside.trans ⟨a ++ [u], [], by simp⟩

theorem suffix_append_iff {a b : Text} : mark <:+ a ++ u :: b ↔ mark <:+ b := by
  constructor
  · intro ends
    rcases List.suffix_or_suffix_of_suffix ends (List.suffix_append a (u :: b)) with within | beyond
    · rcases List.suffix_cons_iff.mp within with rfl | within
      · exact absurd List.mem_cons_self apart
      · exact within
    · exact absurd (beyond.subset List.mem_cons_self) apart
  · intro ends
    exact ends.trans ⟨a ++ [u], by simp⟩

end

theorem infix_join_iff {mark : Text} (solid : IsSolid mark) (nonempty : mark ≠ [])
    {pieces : List Text} : mark <:+: join (lit " ") pieces ↔ ∃ piece ∈ pieces, mark <:+: piece := by
  induction pieces with
  | nil => simp [join, nonempty]
  | cons piece pieces ih =>
      by_cases last : pieces = []
      · subst last
        simp
      · have apart : space ∉ mark := fun mem => absurd (solid space mem) (by decide)
        have between : piece ++ lit " " ++ join (lit " ") pieces =
            piece ++ space :: join (lit " ") pieces := List.append_assoc ..
        rw [join_cons last, between, infix_append_iff apart nonempty, ih]
        simp

/-! ## Lines of a text -/

/-- A text is broken into lines at white space, some of which is left out between two lines. -/
inductive IsBroken : Text → List Text → Prop where
  | last (line : Text) : IsBroken line [line]
  | cons {gap rest : Text} {lines : List Text} (line : Text) (wide : gap ≠ []) (blank : IsBlank gap)
      (more : IsBroken rest lines) : IsBroken (line ++ (gap ++ rest)) (line :: lines)

namespace IsBroken

variable {text : Text} {lines : List Text} (h : IsBroken text lines)
include h

theorem ne_nil : lines ≠ [] := by
  cases h <;> exact List.cons_ne_nil _ _

/-- The lines have the words of the text. -/
theorem spaced_eq : lines.flatMap spaced = spaced text := by
  induction h with
  | last line => rw [List.flatMap_singleton]
  | @cons gap rest lines line wide blank more ih =>
      obtain ⟨u, gap, rfl⟩ := List.exists_cons_of_ne_nil wide
      obtain ⟨isBlank, others⟩ := List.forall_mem_cons.mp blank
      rw [List.flatMap_cons, ih, List.cons_append, spaced_append isBlank, spaced_gap others]

theorem spaced_join_trim : spaced (join (lit " ") (lines.map trim)) = spaced text := by
  have isBlank : isBlank space = true := by decide
  rw [← h.spaced_eq, show lit " " = [space] from rfl, spaced_join isBlank, List.flatMap_map]
  exact List.flatMap_congr fun line _ => spaced_trim line

end IsBroken

/-- White space is passed over on the way to what a text ends with. -/
theorem suffix_gap_iff {tail gap a b : Text} (solid : IsSolid tail) (wide : gap ≠ [])
    (blank : IsBlank gap) : tail <:+ a ++ (gap ++ b) ↔ tail <:+ b := by
  obtain ⟨lead, u, rfl⟩ := (List.eq_nil_or_concat' gap).resolve_left wide
  have isBlank : isBlank u = true := blank u (by simp)
  have apart : u ∉ tail := fun mem => by
    rw [solid u mem] at isBlank
    cases isBlank
  rw [show a ++ (lead ++ [u] ++ b) = a ++ lead ++ u :: b by simp, suffix_append_iff apart]

theorem suffix_trim_iff {tail text : Text} {u : CodeUnit} (solid : IsSolid tail)
    (solidEnd : isBlank u = false) (ends : [u] <:+ text) : tail <:+ trim text ↔ tail <:+ text := by
  obtain ⟨lead, rest, before, after, split⟩ := exists_margins text
  have single : IsSolid [u] := fun v mem => List.mem_singleton.mp mem ▸ solidEnd
  obtain rfl : rest = [] := by
    by_contra wide
    rw [split, ← List.append_assoc, ← List.append_nil rest, suffix_gap_iff single wide after,
      List.suffix_nil] at ends
    cases ends
  rw [List.append_nil] at split
  by_cases indented : lead = []
  · rw [indented, List.nil_append] at split
    rw [← split]
  · have there := suffix_gap_iff (a := []) (b := trim text) solid indented before
    rw [List.nil_append, ← split] at there
    exact there.symm

/-- Trimmed and joined, the lines end as the text does. -/
theorem IsBroken.suffix_iff {text : Text} {lines : List Text} (h : IsBroken text lines)
    {tail : Text} {u : CodeUnit} (solid : IsSolid tail) (solidEnd : isBlank u = false)
    (ends : [u] <:+ text) : tail <:+ join (lit " ") (lines.map trim) ↔ tail <:+ text := by
  induction h with
  | last line =>
      rw [List.map_singleton, join_singleton]
      exact suffix_trim_iff solid solidEnd ends
  | @cons gap rest lines line wide blank more ih =>
      have single : IsSolid [u] := fun v mem => List.mem_singleton.mp mem ▸ solidEnd
      have later : lines.map trim ≠ [] := fun none => more.ne_nil (List.map_eq_nil_iff.mp none)
      rw [suffix_gap_iff solid wide blank, ← ih ((suffix_gap_iff single wide blank).mp ends),
        List.map_cons, join_cons later, List.append_assoc,
        suffix_gap_iff solid (by decide) isBlank_space]

end Text

namespace Declaration

open Term (openMark comma closeMark)

/-! ## What a declaration ends with -/

/-- A mark within the text around a field is in the text of the field. -/
theorem mem_of_fieldText? {field taken : Text} (found : fieldText? field = some taken)
    {u : CodeUnit} (solid : isBlank u = false) (mem : u ∈ field) : u ∈ taken := by
  rwa [← mem_spaced solid, (spaced_of_fieldText? found).2, mem_spaced solid]

/-- What a field with a single word ends with before white space, its word ends with. -/
theorem suffix_of_fieldText? {before after name : Text}
    (found : fieldText? (before ++ space :: after) = some name) (single : IsSolid name)
    (ends : ending <:+ before) : ending <:+ name := by
  obtain ⟨lead, rfl⟩ := ends
  obtain ⟨nonempty, same⟩ := spaced_of_fieldText? found
  have clear : space ∉ name := fun mem => absurd (single space mem) (by decide)
  have words : [] ++ (name ++ [space]) =
      squeezeAfter true lead ++ ending ++ space :: spaced after := by
    have gap : isBlank space = true := by decide
    have marks : isBlank period = false ∧ isBlank closeMark = false := by decide
    rw [List.nil_append, ← spaced_of_isSolid single nonempty, same, spaced_append gap, ending_eq,
      List.append_cons lead, spaced_concat marks.1, squeezeAfter_append_solid marks.2]
    simp [squeezeAfter]
  rcases mark_before_or_after clear nonempty words with ⟨more, split, last⟩ | ⟨_, none, -⟩
  · obtain ⟨rfl, -⟩ : more = [] ∧ _ := by simpa [List.singleton_eq_append_iff] using last
    exact ⟨squeezeAfter true lead, by simpa using split⟩
  · exact absurd none.symm (by simp)

/-- The fields of a declaration do not change when it goes on to another ending. -/
theorem Frames.append {text name role body rest lead gap : Text} (h : Frames text name role body)
    (blank : IsBlank gap) (whole : text ++ rest = lead ++ closeMark :: (gap ++ [period])) :
    ∃ body', Frames (text ++ rest) name role body' := by
  obtain ⟨isName, isRole, inner, -, rfl⟩ := h
  have clear : comma ∉ closeMark :: (gap ++ [period]) := by
    intro mem
    rcases List.mem_cons.mp mem with same | mem
    · exact absurd same (by decide)
    · rcases List.mem_append.mp mem with mem | mem
      · exact absurd (blank comma mem) (by decide)
      · exact absurd mem (by decide)
  have cut : lead ++ (closeMark :: (gap ++ [period]) ++ []) = opening ++ (name ++ comma :: role) ++
      comma :: (body ++ closeMark :: (inner ++ [period]) ++ rest) := by
    rw [List.append_nil, ← whole]
    simp
  rcases mark_before_or_after clear (List.cons_ne_nil _ _) cut with ⟨_, -, none⟩ | ⟨body', -, same⟩
  · exact absurd none.symm (by simp)
  · refine ⟨body', isName, isRole, gap, blank, ?_⟩
    rw [List.append_nil] at same
    rw [← same]
    simp

/-- Cut short where it seems to end, the leftmost declaration of a text is still the leftmost. -/
theorem first?_fields?_run {lead run rest name role body : Text} {fields : Text × Text × Text}
    (first : ∀ earlier later, lead = earlier ++ later → later ≠ [] →
      fields? (later ++ (run ++ rest)) = none)
    (framed : Frames (run ++ rest) name role body) (here : fields? run = some fields) :
    first? fields? (lead ++ run) = some fields := by
  obtain ⟨-, -, gap, blank, split⟩ := framed
  have passed : first? fields? (lead ++ run) = first? fields? run := by
    refine first?_append_of_none fun earlier later same nonempty => ?_
    refine fields?_eq_none.mpr fun name' role' body' other => ?_
    -- A declaration that begins earlier in the run would go on to the end of the text.
    have whole : later ++ run ++ rest = later ++ (opening ++ (name ++ comma :: (role ++ comma ::
        body))) ++ closeMark :: (gap ++ [period]) := by
      rw [List.append_assoc, split]
      simp
    obtain ⟨longer, framed⟩ := other.append blank whole
    rw [List.append_assoc] at framed
    exact fields?_eq_none.mp (first earlier later same nonempty) name' role' longer framed
  rw [passed, first?_of_some here]

/-- With both of its fields left, it is found with the same name and role. -/
theorem exists_found_of_run {lead rest nameField roleField body inBody name role : Text}
    (first : ∀ earlier later, lead = earlier ++ later → later ≠ [] → fields? (later ++
      (opening ++ (nameField ++ comma :: (roleField ++ comma :: inBody)) ++ rest)) = none)
    (framed : Frames (opening ++ (nameField ++ comma :: (roleField ++ comma :: inBody)) ++ rest)
      nameField roleField body)
    (ofName : fieldText? nameField = some name) (ofRole : fieldText? roleField = some role)
    (ends : ending <:+ inBody) : ∃ formula, first? fields? (lead ++
      (opening ++ (nameField ++ comma :: (roleField ++ comma :: inBody)))) =
        some (name, role, formula) := by
  obtain ⟨isName, isRole, -⟩ := id framed
  obtain ⟨body, rfl⟩ := ends
  have framedRun : Frames (opening ++ (nameField ++ comma :: (roleField ++ comma ::
      (body ++ ending)))) nameField roleField body :=
    ⟨isName, isRole, [], isBlank_nil, by rw [ending_eq, List.nil_append]⟩
  have taken := fields?_eq_some.mpr ⟨_, _, _, framedRun, ofName, ofRole, rfl⟩
  exact ⟨trim body, first?_fields?_run first framed taken⟩

/-- When a declaration is cut short where it seems to end, and does not read, it is cut after a
    name that ends so. -/
theorem suffix_name_of_run {run rest : Text} {line : Nat} {d : Declaration}
    (read : read? (run ++ space :: rest) line = some d) (single : IsSolid d.name)
    (clear : ¬ opening <:+: rest) (unread : read? run line = none) (ends : ending <:+ run) :
    ending <:+ d.name := by
  obtain ⟨found, known⟩ := read?_eq_some.mp read
  obtain ⟨lead, _, split, taken, first⟩ := first?_eq_some found
  obtain ⟨nameField, roleField, body, framed, ofName, ofRole, -⟩ := fields?_eq_some.mp taken
  obtain ⟨-, -, gap, blank, rfl⟩ := id framed
  have apart : space ∉ opening ∧ space ∉ [comma] := by decide
  have others : openMark ∉ ending ∧ comma ∉ ending := by decide
  rcases mark_before_or_after apart.1 (by decide) split.symm with
    ⟨named, rfl, inName⟩ | ⟨more, -, rfl⟩
  · rcases mark_before_or_after apart.2 (by decide) inName with
      ⟨inRun, rfl, inRole⟩ | ⟨after, rfl, -⟩
    · rcases mark_before_or_after apart.2 (by decide) inRole with
        ⟨inBody, rfl, -⟩ | ⟨after, rfl, -⟩
      · -- The run has both fields, and would have been read.
        have cut : lead ++ (opening ++ (nameField ++ comma :: (roleField ++ comma :: inBody))) =
            lead ++ (opening ++ (nameField ++ comma :: roleField)) ++ comma :: inBody := by simp
        have inEnd : ending <:+ inBody := (suffix_append_iff others.2).mp (cut ▸ ends)
        rw [inName, ← List.append_assoc opening] at framed first
        obtain ⟨formula, foundRun⟩ := exists_found_of_run first framed ofName ofRole inEnd
        have readRun : read? _ line = some { d with formula := formula } :=
          read?_eq_some.mpr ⟨foundRun, known⟩
        cases unread.symm.trans readRun
      · -- The run ends within the role, which has no period.
        have cut : lead ++ (opening ++ (nameField ++ ([comma] ++ inRun))) =
            lead ++ (opening ++ nameField) ++ comma :: inRun := by simp
        rw [cut, suffix_append_iff others.2] at ends
        have inEnding : period ∈ ending := by decide
        have inField := List.mem_append_left (space :: after) (ends.subset inEnding)
        have noPeriod : period ∉ d.role.word := by cases d.role <;> decide
        exact absurd (mem_of_fieldText? ofRole (by decide) inField) noPeriod
    · -- The run ends within the name.
      have cut : lead ++ (opening ++ named) = lead ++ lit "fof" ++ openMark :: named := by
        rw [List.append_assoc]
        rfl
      rw [cut, suffix_append_iff others.1] at ends
      exact suffix_of_fieldText? ofName single ends
  · exact absurd ⟨more, _, List.append_assoc ..⟩ clear

end Declaration

/-! ## What a collector gives of them -/

namespace Collector

open Declaration (opening ending period read?)

/-- A first line with its number and some more lines with theirs, all trimmed. -/
def fed (first : Text) (line : Nat) (more : List (Text × Nat)) : List (Text × Nat) :=
  (trim first, line) :: more.map fun entry => (trim entry.1, entry.2)

end Collector

/-- A declaration stands in a text that is broken into lines, of which no other than the first has
    a beginning, and is not read before the last of them. -/
structure Declaration.IsBrokenOver (d : Declaration) (text first : Text)
    (more : List (Text × Nat)) : Prop where
  read : read? text d.line = some d
  single : IsSolid d.name
  broken : IsBroken text (first :: more.map (·.1))
  goesOn : ∀ entry ∈ more, occurs opening entry.1 = false
  unread : ∀ stop < more.length,
    read? (Collector.joined (Collector.fed first d.line more) 0 stop) d.line = none

namespace Collector

open Declaration (opening ending period read?)

theorem joined_fed (first : Text) (line : Nat) (more : List (Text × Nat)) (stop : Nat) :
    joined (fed first line more) 0 stop =
      join (lit " ") (((first :: more.map (·.1)).map trim).take (stop + 1)) := by
  simp [joined, fed, List.map_take, Function.comp_def]

theorem joined_fed_all (first : Text) (line : Nat) (more : List (Text × Nat)) :
    joined (fed first line more) 0 more.length =
      join (lit " ") ((first :: more.map (·.1)).map trim) := by
  rw [joined_fed, List.take_of_length_le (by simp)]

/-- Some of the lines, and the lines after them. -/
theorem joined_fed_split (first : Text) (line : Nat) {more : List (Text × Nat)} {stop : Nat}
    (before : stop < more.length) : joined (fed first line more) 0 more.length =
      joined (fed first line more) 0 stop ++ space ::
        join (lit " ") ((more.map fun entry => trim entry.1).drop stop) := by
  have here : ((first :: more.map (·.1)).map trim).take (stop + 1) ≠ [] := by simp
  have later : ((first :: more.map (·.1)).map trim).drop (stop + 1) ≠ [] := by simpa using before
  rw [joined_fed_all, ← List.take_append_drop (stop + 1) ((first :: more.map (·.1)).map trim),
    join_append here later, ← joined_fed, List.append_assoc, List.map_cons, List.drop_succ_cons,
    List.map_map]
  rfl

section

variable {d : Declaration} {text first : Text} {more : List (Text × Nat)}
  (h : d.IsBrokenOver text first more)
include h

/-- Joined again, the lines declare the same. -/
theorem read?_joined : ∃ formula, spaced formula = spaced d.formula ∧
    read? (joined (fed first d.line more) 0 more.length) d.line =
      some { d with formula := formula } := by
  have ends := Declaration.suffix_of_read? h.read
  have solid : IsSolid [period] := by decide
  rw [joined_fed_all]
  exact Declaration.read?_of_spaced h.read h.single h.broken.spaced_join_trim
    ((h.broken.suffix_iff solid (by decide) ends).mpr ends)

theorem not_infix_of_mem {entry : Text × Nat} (mem : entry ∈ more) :
    ¬ opening <:+: trim entry.1 := by
  intro inside
  have begins := occurs_iff.mpr (inside.trans (infix_trim entry.1))
  rw [h.goesOn entry mem] at begins
  cases begins

/-- The first line begins the declaration. -/
theorem beginsAt_zero : beginsAt (fed first d.line more) 0 = true := by
  obtain ⟨formula, -, read⟩ := read?_joined h
  obtain ⟨lead, _, nameField, roleField, body, split, ⟨-, -, gap, -, rfl⟩, -⟩ :=
    Declaration.exists_frames (Declaration.read?_eq_some.mp read).1
  rw [joined_fed_all] at split
  have inside : opening <:+: join (lit " ") ((first :: more.map (·.1)).map trim) :=
    ⟨lead, _, by rw [split, List.append_assoc]⟩
  obtain ⟨piece, mem, inside⟩ := (infix_join_iff (by decide) (by decide)).mp inside
  rw [List.map_cons, List.map_map, List.mem_cons, List.mem_map] at mem
  rcases mem with rfl | ⟨entry, mem, rfl⟩
  · exact occurs_iff.mpr inside
  · exact absurd inside (not_infix_of_mem h mem)

theorem lastBeginning?_fed (place : Nat) :
    lastBeginning? (fed first d.line more) (place + 1) = some 0 := by
  refine lastBeginning?_eq_some_iff.mpr ⟨Nat.succ_pos place, beginsAt_zero h, ?_⟩
  rintro (_ | later) - after
  · exact absurd after (Nat.lt_irrefl 0)
  · cases found : more[later]? with
    | none => simp [beginsAt, fed, found]
    | some entry =>
        have none := not_infix_of_mem h (List.mem_of_getElem? found)
        rw [← occurs_iff, Bool.not_eq_true] at none
        simp [beginsAt, fed, found, none]

theorem due?_fed (place : Nat) : due? (fed first d.line more) place =
    if endsAt (fed first d.line more) 0 place = true ∧
        Unfinished (fed first d.line more) 0 place then
      read? (joined (fed first d.line more) 0 place) d.line
    else none := by
  have started : (fed first d.line more)[0]? = some (trim first, d.line) := rfl
  simp only [due?, lastBeginning?_fed h, started, Option.bind_eq_bind, Option.bind_some]

theorem endsAt_fed :
    endsAt (fed first d.line more) 0 more.length = endsWith ending text := by
  have ends := Declaration.suffix_of_read? h.read
  rw [Bool.eq_iff_iff, endsAt, endsWith_iff, endsWith_iff, joined_fed_all,
    h.broken.suffix_iff (by decide) (by decide) ends]

/-- Only a name can make the lines seem complete too early. -/
theorem unfinished_fed (other : endsWith ending d.name = false) :
    Unfinished (fed first d.line more) 0 more.length := by
  rintro stop before -
  rw [← Bool.not_eq_true]
  intro ends
  obtain ⟨formula, -, read⟩ := read?_joined h
  rw [joined_fed_split first d.line before] at read
  have clear :
      ¬ opening <:+: join (lit " ") ((more.map fun entry => trim entry.1).drop stop) := by
    rw [infix_join_iff (by decide) (by decide)]
    rintro ⟨_, mem, inside⟩
    obtain ⟨entry, among, rfl⟩ := List.mem_map.mp (List.mem_of_mem_drop mem)
    exact not_infix_of_mem h among inside
  have onName := Declaration.suffix_name_of_run read h.single clear (h.unread stop before)
    (endsWith_iff.mp ends)
  rw [← endsWith_iff, other] at onName
  cases onName

/-- A collector that is given the lines of a declaration gives it at the last of them, with the
    same name and role, the number of the first line, and a formula of the same words, exactly when
    the text ends with `).` and no fewer of the lines do. They only do where the name does. -/
theorem answers_of_broken : ∃ formula, spaced formula = spaced d.formula ∧
    read? (joined (fed first d.line more) 0 more.length) d.line =
      some { d with formula := formula } ∧
    answers none (fed first d.line more) = List.replicate more.length none ++
      [if endsWith ending text = true ∧ Unfinished (fed first d.line more) 0 more.length then
        some { d with formula := formula } else none] ∧
    (endsWith ending d.name = false → Unfinished (fed first d.line more) 0 more.length) := by
  obtain ⟨formula, same, read⟩ := read?_joined h
  refine ⟨formula, same, read, ?_, unfinished_fed h⟩
  have length : (fed first d.line more).length = more.length + 1 := by simp [fed]
  rw [answers_eq_due, length, List.range_succ, List.map_append, List.map_singleton, due?_fed h,
    endsAt_fed h, read]
  congr 1
  refine List.eq_replicate_iff.mpr ⟨by simp, fun answer mem => ?_⟩
  obtain ⟨place, before, rfl⟩ := List.mem_map.mp mem
  rw [due?_fed h, h.unread place (List.mem_range.mp before), ite_self]

end

theorem answers_of_broken_conjecture :
    (⟨lit "c", .conjecture, lit "! [X]: \t (X = X)", 1⟩ : Declaration).IsBrokenOver
      (lit "fof(c, conjecture,\n  ! [X]: \t (X = X)\n).") (lit "fof(c, conjecture,")
      [(lit " ! [X]:", 2), (lit "\t (X = X)", 3), (lit ").", 4)] ∧
    ∃ formula, spaced formula = spaced (lit "! [X]: (X = X)") ∧
      answers none (fed (lit "fof(c, conjecture,") 1
        [(lit " ! [X]:", 2), (lit "\t (X = X)", 3), (lit ").", 4)]) =
        [none, none, none, some ⟨lit "c", .conjecture, formula, 1⟩] := by
  have split : lit "fof(c, conjecture,\n  ! [X]: \t (X = X)\n)." =
      lit "fof(c, conjecture," ++ (lit "\n " ++ (lit " ! [X]:" ++ (lit " " ++
        (lit "\t (X = X)" ++ (lit "\n" ++ lit ")."))))) := by decide +kernel
  have broken : (⟨lit "c", .conjecture, lit "! [X]: \t (X = X)", 1⟩ : Declaration).IsBrokenOver
      (lit "fof(c, conjecture,\n  ! [X]: \t (X = X)\n).") (lit "fof(c, conjecture,")
      [(lit " ! [X]:", 2), (lit "\t (X = X)", 3), (lit ").", 4)] := by
    refine ⟨by decide +kernel, by decide, ?_, by decide +kernel, by decide +kernel⟩
    rw [split]
    exact .cons _ (by decide) (by decide) (.cons _ (by decide) (by decide)
      (.cons _ (by decide) (by decide) (.last _)))
  obtain ⟨formula, same, -, answered, -⟩ := answers_of_broken broken
  have complete : endsWith ending (lit "fof(c, conjecture,\n  ! [X]: \t (X = X)\n).") = true ∧
      Unfinished (fed (lit "fof(c, conjecture,") 1
        [(lit " ! [X]:", 2), (lit "\t (X = X)", 3), (lit ").", 4)]) 0 3 := by decide +kernel
  refine ⟨broken, formula, same.trans (by decide +kernel), answered.trans ?_⟩
  exact congrArg ([none, none, none] ++ [·]) (if_pos complete)

/-- White space before the period keeps a declaration from being given, and a name that ends with
    `).` gives it up too early. -/
theorem recognized_unanswered :
    (⟨lit "a", .hypothesis, lit "X = X", 1⟩ : Declaration).IsBrokenOver
      (lit "fof(a, axiom, X = X) .") (lit "fof(a, axiom, X = X) .") [] ∧
    answers none [(lit "fof(a, axiom, X = X) .", 1)] = [none] ∧
    (⟨lit "a).", .hypothesis, lit "X = X", 1⟩ : Declaration).IsBrokenOver
      (lit "fof(a). , axiom, X = X).") (lit "fof(a).") [(lit ", axiom, X = X).", 2)] ∧
    read? (joined (fed (lit "fof(a).") 1 [(lit ", axiom, X = X).", 2)]) 0 1) 1 =
      some ⟨lit "a).", .hypothesis, lit "X = X", 1⟩ ∧
    answers none [(lit "fof(a).", 1), (lit ", axiom, X = X).", 2)] = [none, none] := by
  have split : lit "fof(a). , axiom, X = X)." =
      lit "fof(a)." ++ (lit " " ++ lit ", axiom, X = X).") := by decide +kernel
  refine ⟨⟨by decide +kernel, by decide, .last _, by decide, by decide⟩, by decide +kernel,
    ⟨by decide +kernel, by decide, ?_, by decide +kernel, by decide +kernel⟩, by decide +kernel,
    by decide +kernel⟩
  rw [split]
  exact .cons _ (by decide) (by decide) (.last _)

end Collector

end MagmaTrace
