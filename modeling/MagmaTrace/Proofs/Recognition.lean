import MagmaTrace.Proofs.Formulas
import MagmaTrace.Proofs.Spread

/-! # How a declaration is recognized

A declaration is recognized by its frame: the opening, two fields with a comma after each, and a
body before the final parenthesis and period (`Declaration.fields?_eq_some`). No mark of the frame
holds white space. So two texts of the same words are recognized alike, with the same name and the
same role, and with bodies of the same words (`Declaration.read?_of_spaced`).
-/

namespace MagmaTrace

open Text

namespace Text

/-! ## Cutting a spread text -/

namespace Spread

variable {a b c lead : Text} {u : CodeUnit}

/-- A spread text can only be cut at a unit that is not white space where the text itself can. -/
theorem cut_solid (solid : Text.isBlank u = false) (h : Spread a (b ++ u :: c)) :
    ∃ b' c', a = b' ++ u :: c' ∧ Spread b' b ∧ Spread c' c := by
  generalize whole : b ++ u :: c = text at h
  induction h generalizing b with
  | nil => exact absurd whole (List.append_ne_nil_of_right_ne_nil b (List.cons_ne_nil u c))
  | @solid v a _ isSolid more ih =>
      rcases List.append_eq_cons_iff.mp whole with ⟨rfl, same⟩ | ⟨b, rfl, same⟩
      · obtain ⟨rfl, rfl⟩ := List.cons.inj same
        exact ⟨[], a, rfl, .nil, more⟩
      · obtain ⟨b', c', rfl, first, second⟩ := ih same.symm
        exact ⟨v :: b', c', rfl, .solid isSolid first, second⟩
  | @gap v gap a _ blank wide blankGap more ih =>
      rcases List.append_eq_append_iff.mp whole.symm with ⟨b, rfl, same⟩ | ⟨inside, split, same⟩
      · obtain ⟨b', c', rfl, first, second⟩ := ih same.symm
        exact ⟨v :: b', c', rfl, .gap blank wide blankGap first, second⟩
      · cases inside with
        | nil =>
            obtain ⟨b', c', rfl, first, second⟩ := ih (b := []) same
            rw [List.append_nil] at split
            subst split
            have here := Spread.gap blank wide blankGap first
            rw [List.append_nil] at here
            exact ⟨v :: b', c', rfl, here, second⟩
        | cons w inside =>
            obtain ⟨rfl, -⟩ := List.cons.inj same
            have mem : u ∈ gap := split ▸ List.mem_append_right b List.mem_cons_self
            rw [blankGap u mem] at solid
            cases solid

/-- A spread text begins solidly as the text itself does. -/
theorem cut_lead (solid : IsSolid lead) (h : Spread a (lead ++ b)) :
    ∃ b', a = lead ++ b' ∧ Spread b' b := by
  induction lead generalizing a with
  | nil => exact ⟨a, rfl, h⟩
  | cons u lead ih =>
      obtain ⟨here, others⟩ := List.forall_mem_cons.mp solid
      obtain ⟨before, rest, rfl, none, spread⟩ := h.cut_solid (b := []) here
      obtain ⟨b', rfl, more⟩ := ih others spread
      obtain rfl : before = [] := by_contra fun nonempty => none.ne_nil nonempty rfl
      exact ⟨b', rfl, more⟩

theorem mem_iff (solid : Text.isBlank u = false) (h : Spread a b) : u ∈ b ↔ u ∈ a := by
  rw [← mem_solid solid, h.solid_eq, mem_solid solid]

theorem isBlank_of (h : Spread a b) (blank : IsBlank b) : IsBlank a := by
  intro u mem
  by_contra other
  have solid : Text.isBlank u = false := Bool.not_eq_true _ ▸ other
  exact other (blank u ((h.mem_iff solid).mpr mem))

end Spread

/-! ## The words of a text -/

/-- A unit that is not white space stays where it is. -/
theorem squeezeAfter_append_solid {u : CodeUnit} (solid : isBlank u = false) (before : Bool)
    (a b : Text) : squeezeAfter before (a ++ u :: b) =
      squeezeAfter before a ++ u :: squeezeAfter false b := by
  induction a generalizing before with
  | nil => simp [squeezeAfter, solid]
  | cons v a ih =>
      rw [List.cons_append, squeezeAfter, squeezeAfter, ih, ih]
      split_ifs <;> rfl

theorem spaced_concat {u : CodeUnit} (solid : isBlank u = false) (text : Text) :
    spaced (text ++ [u]) = squeezeAfter true text ++ [u, space] := by
  rw [spaced, List.append_assoc, List.singleton_append, squeezeAfter_append_solid solid]
  rfl

theorem mem_spaced {u : CodeUnit} (solid : isBlank u = false) {text : Text} :
    u ∈ spaced text ↔ u ∈ text := by
  obtain ⟨-, gap, rest, blank, split, spread⟩ := spread_squeezeAfter (text ++ [space])
  have inRest : u ∈ text ++ [space] ↔ u ∈ rest := by
    rw [← mem_solid solid, split, solid_append, solid_of_isBlank blank, List.nil_append,
      mem_solid solid]
  have other : u ≠ space := by
    rintro rfl
    exact absurd solid (by decide)
  rw [spaced, ← spread.mem_iff solid, ← inRest, List.mem_append, List.mem_singleton]
  exact or_iff_left other

theorem spaced_of_isSolid {word : Text} (solid : IsSolid word) (nonempty : word ≠ []) :
    spaced word = word ++ [space] := by
  rw [spaced, squeezeAfter_solid solid nonempty]
  rfl

end Text

namespace Role

theorem ofWord?_eq_some {text : Text} {role : Role} :
    ofWord? text = some role ↔ text = role.word := by
  constructor
  · intro known
    unfold ofWord? at known
    split_ifs at known with isAxiom isConjecture
    · cases known
      exact isAxiom
    · cases known
      exact isConjecture
  · rintro rfl
    cases role <;> decide

end Role

namespace Declaration

open Term (comma closeMark)

/-! ## The frame of a declaration -/

/-- Some text without a comma. -/
structure IsField (field : Text) : Prop where
  nonempty : field ≠ []
  noComma : comma ∉ field

/-- A text declares a name field, a role field and a body, each with the white space around it. -/
def Frames (text name role body : Text) : Prop :=
  IsField name ∧ IsField role ∧ ∃ gap, IsBlank gap ∧
    text = opening ++ (name ++ comma :: (role ++ comma :: (body ++ closeMark :: (gap ++ [period]))))

section

variable {text field name role body rest : Text}

/-- A field is taken with the same words as it has. -/
theorem exists_fieldText? (nonempty : field ≠ []) :
    ∃ taken, fieldText? field = some taken ∧ taken ≠ [] ∧ spaced taken = spaced field := by
  unfold fieldText?
  cases trimmed : trim field with
  | nil =>
      obtain ⟨lead, tail, before, after, split⟩ := exists_margins field
      have blank : IsBlank field := by
        rw [split, trimmed]
        exact fun u mem => (List.mem_append.mp mem).elim (before u) (after u)
      have last : IsBlank [field.getLast nonempty] := fun u mem =>
        List.mem_singleton.mp mem ▸ blank _ (List.getLast_mem nonempty)
      refine ⟨[field.getLast nonempty], ?_, List.cons_ne_nil _ _, ?_⟩
      · rw [List.getLast?_eq_some_getLast nonempty, Option.map_some]
      · rw [← List.append_nil [_], spaced_gap last, ← List.append_nil field, spaced_gap blank]
  | cons u more =>
      exact ⟨u :: more, rfl, List.cons_ne_nil u more, trimmed ▸ spaced_trim field⟩

theorem fieldText?_ne_none : fieldText? field ≠ none ↔ field ≠ [] := by
  constructor
  · rintro some rfl
    exact some rfl
  · intro nonempty
    obtain ⟨taken, found, -, -⟩ := exists_fieldText? nonempty
    rw [found]
    exact Option.some_ne_none taken

theorem spaced_of_fieldText? {taken : Text} (found : fieldText? field = some taken) :
    taken ≠ [] ∧ spaced taken = spaced field := by
  have nonempty : field ≠ [] := fieldText?_ne_none.mp (found ▸ Option.some_ne_none taken)
  obtain ⟨_, found', isWord, same⟩ := exists_fieldText? nonempty
  cases found.symm.trans found'
  exact ⟨isWord, same⟩

/-- A text is a declaration where it has the frame of one. -/
theorem fields?_eq_some {formula : Text} : fields? text = some (name, role, formula) ↔
    ∃ nameField roleField body, Frames text nameField roleField body ∧
      fieldText? nameField = some name ∧ fieldText? roleField = some role ∧
      trim body = formula := by
  unfold fields?
  simp only [Option.bind_eq_bind, Option.bind_eq_some_iff, Option.pure_def, Option.some.injEq,
    Prod.exists, Prod.mk.injEq, strip?_eq_some, field?_eq_some, beforeEnding?_eq_some]
  constructor
  · rintro ⟨_, rfl, _, _, ⟨nameField, rfl, noComma, found⟩, _, _,
      ⟨roleField, rfl, noComma', found'⟩, body, ⟨gap, blank, rfl⟩, rfl, rfl, rfl⟩
    have nonempty := fieldText?_ne_none.mp (found ▸ Option.some_ne_none _)
    have nonempty' := fieldText?_ne_none.mp (found' ▸ Option.some_ne_none _)
    exact ⟨nameField, roleField, body,
      ⟨⟨nonempty, noComma⟩, ⟨nonempty', noComma'⟩, gap, blank, rfl⟩, found, found', rfl⟩
  · rintro ⟨nameField, roleField, body, ⟨isName, isRole, gap, blank, rfl⟩, found, found', rfl⟩
    exact ⟨_, rfl, name, _, ⟨nameField, rfl, isName.noComma, found⟩, role, _,
      ⟨roleField, rfl, isRole.noComma, found'⟩, body, ⟨gap, blank, rfl⟩, rfl, rfl, rfl⟩

/-- What a frame gives has the words of its fields and its body. -/
theorem Frames.exists_fields? (h : Frames text name role body) :
    ∃ takenName takenRole, fields? text = some (takenName, takenRole, trim body) ∧
      spaced takenName = spaced name ∧ spaced takenRole = spaced role := by
  obtain ⟨isName, isRole, -⟩ := id h
  obtain ⟨takenName, found, -, same⟩ := exists_fieldText? isName.nonempty
  obtain ⟨takenRole, found', -, same'⟩ := exists_fieldText? isRole.nonempty
  exact ⟨takenName, takenRole, fields?_eq_some.mpr ⟨name, role, body, h, found, found', rfl⟩,
    same, same'⟩

theorem fields?_eq_none :
    fields? text = none ↔ ∀ name role body, ¬ Frames text name role body := by
  constructor
  · intro none name role body framed
    obtain ⟨_, _, some, -⟩ := framed.exists_fields?
    rw [none] at some
    cases some
  · intro unframed
    rw [Option.eq_none_iff_forall_ne_some]
    rintro ⟨_, _, _⟩ some
    obtain ⟨name, role, body, framed, -⟩ := fields?_eq_some.mp some
    exact unframed name role body framed

end

/-! ## Frames and white space -/

section

variable {a b name role body : Text}

theorem IsField.spread (h : IsField a) (spread : Spread a b) : IsField b :=
  ⟨spread.ne_nil h.nonempty, fun mem => h.noComma ((spread.mem_iff (by decide)).mp mem)⟩

theorem IsField.of_spread (h : IsField b) (spread : Spread a b) : IsField a := by
  refine ⟨?_, fun mem => h.noComma ((spread.mem_iff (by decide)).mpr mem)⟩
  rintro rfl
  cases spread
  exact h.nonempty rfl

/-- Spreading a declaration spreads its fields and its body. -/
theorem Frames.spread (h : Frames a name role body) (spread : Spread a b) :
    ∃ name' role' body', Frames b name' role' body' ∧ Spread name name' ∧ Spread role role' ∧
      Spread body body' := by
  obtain ⟨isName, isRole, gap, blank, rfl⟩ := h
  have parts : opening ++ (name ++ comma :: (role ++ comma :: (body ++ closeMark ::
      (gap ++ [period])))) = opening ++ (name ++ ([comma] ++ (role ++ ([comma] ++ (body ++
        ([closeMark] ++ (gap ++ [period]))))))) := by simp
  rw [parts] at spread
  obtain ⟨_, _, rfl, opens, spread⟩ := spread.split
  obtain ⟨name', _, rfl, ofName, spread⟩ := spread.split
  obtain ⟨_, _, rfl, first, spread⟩ := spread.split
  obtain ⟨role', _, rfl, ofRole, spread⟩ := spread.split
  obtain ⟨_, _, rfl, second, spread⟩ := spread.split
  obtain ⟨body', _, rfl, ofBody, spread⟩ := spread.split
  obtain ⟨_, _, rfl, closes, spread⟩ := spread.split
  obtain ⟨gap', _, rfl, ofGap, ends⟩ := spread.split
  obtain rfl := opens.eq_of_isSolid (by decide)
  obtain rfl := first.eq_of_isSolid (by decide)
  obtain rfl := second.eq_of_isSolid (by decide)
  obtain rfl := closes.eq_of_isSolid (by decide)
  obtain rfl := ends.eq_of_isSolid (by decide)
  exact ⟨name', role', body', ⟨isName.spread ofName, isRole.spread ofRole, gap',
    ofGap.isBlank blank, by simp⟩, ofName, ofRole, ofBody⟩

/-- What is spread to a declaration is one. -/
theorem Frames.of_spread (h : Frames b name role body) (spread : Spread a b) :
    ∃ name' role' body', Frames a name' role' body' := by
  obtain ⟨isName, isRole, gap, blank, rfl⟩ := h
  obtain ⟨_, rfl, fromName⟩ := spread.cut_lead (by decide)
  obtain ⟨name', _, rfl, ofName, fromRole⟩ := fromName.cut_solid (by decide : isBlank comma = false)
  obtain ⟨role', _, rfl, ofRole, fromBody⟩ := fromRole.cut_solid (by decide : isBlank comma = false)
  obtain ⟨body', _, rfl, -, fromGap⟩ := fromBody.cut_solid (by decide : isBlank closeMark = false)
  obtain ⟨gap', _, rfl, ofGap, ends⟩ := fromGap.cut_solid (by decide : isBlank period = false)
  obtain rfl : _ = [] := by_contra fun nonempty => ends.ne_nil nonempty rfl
  exact ⟨name', role', body', isName.of_spread ofName, isRole.of_spread ofRole, gap',
    ofGap.isBlank_of blank, rfl⟩

/-- The words of a name, of a role and of a formula. -/
def words (fields : Text × Text × Text) : Text × Text × Text :=
  (spaced fields.1, spaced fields.2.1, spaced fields.2.2)

/-- However a declaration is spread, its fields have the same words. -/
theorem fields?_spread (spread : Spread a b) : (fields? b).map words = (fields? a).map words := by
  by_cases framed : ∃ name role body, Frames a name role body
  · obtain ⟨name, role, body, framed⟩ := framed
    obtain ⟨name', role', body', framed', ofName, ofRole, ofBody⟩ := framed.spread spread
    obtain ⟨takenName, takenRole, taken, sameName, sameRole⟩ := framed.exists_fields?
    obtain ⟨takenName', takenRole', taken', sameName', sameRole'⟩ := framed'.exists_fields?
    simp only [taken, taken', Option.map_some, words, spaced_trim, sameName, sameName', sameRole,
      sameRole', ofName.spaced_eq, ofRole.spaced_eq, ofBody.spaced_eq]
  · have unread : fields? a = none :=
      fields?_eq_none.mpr fun name role body other => framed ⟨name, role, body, other⟩
    have unread' : fields? b = none :=
      fields?_eq_none.mpr fun name role body other => framed (other.of_spread spread)
    rw [unread, unread']

/-- White space is passed over. -/
theorem first?_fields?_gap {gap : Text} (blank : IsBlank gap) (text : Text) :
    first? fields? (gap ++ text) = first? fields? text := by
  refine first?_append_of_none fun before rest split nonempty => fields?_eq_none.mpr ?_
  rintro name role body ⟨-, -, _, -, whole⟩
  cases rest with
  | nil => exact nonempty rfl
  | cons u rest =>
      have isBlank : isBlank u = true :=
        blank u (split ▸ List.mem_append_right before List.mem_cons_self)
      obtain ⟨rfl, -⟩ := List.cons.inj (whole : u :: (rest ++ text) = ('f' : CodeUnit) :: _)
      revert isBlank
      decide

theorem first?_fields?_spread (spread : Spread a b) :
    (first? fields? b).map words = (first? fields? a).map words := by
  induction spread with
  | nil => rfl
  | solid solid more ih =>
      rw [first?, first?, Option.map_or, Option.map_or, ih, fields?_spread (.solid solid more)]
  | @gap u gap a b blank wide blankGap more ih =>
      have single : IsBlank [u] := fun v mem => List.mem_singleton.mp mem ▸ blank
      rw [first?_fields?_gap blankGap, ih, ← first?_fields?_gap single a]
      rfl

end

/-! ## Declarations of the same words -/

theorem read?_eq_some {text : Text} {line : Nat} {d : Declaration} : read? text line = some d ↔
    first? fields? text = some (d.name, d.role.word, d.formula) ∧ d.line = line := by
  unfold read?
  simp only [Option.bind_eq_bind, Option.bind_eq_some_iff, Option.pure_def, Option.some.injEq,
    Prod.exists, Role.ofWord?_eq_some]
  constructor
  · rintro ⟨_, _, _, found, _, rfl, rfl⟩
    exact ⟨found, rfl⟩
  · rintro ⟨found, rfl⟩
    exact ⟨_, _, _, found, d.role, rfl, rfl⟩

/-- What is found stands where the text has the frame of a declaration. -/
theorem exists_frames {text name role formula : Text}
    (h : first? fields? text = some (name, role, formula)) :
    ∃ lead rest nameField roleField body, text = lead ++ rest ∧
      Frames rest nameField roleField body ∧ fieldText? nameField = some name ∧
      fieldText? roleField = some role := by
  obtain ⟨lead, rest, split, found, -⟩ := first?_eq_some h
  obtain ⟨nameField, roleField, body, framed, isName, isRole, -⟩ := fields?_eq_some.mp found
  exact ⟨lead, rest, nameField, roleField, body, split, framed, isName, isRole⟩

/-- A field with a single word has that word for its text. -/
theorem eq_of_fieldText? {field taken word : Text} (found : fieldText? field = some taken)
    (solid : IsSolid word) (nonempty : word ≠ []) (same : spaced taken = spaced word) :
    taken = word := by
  have single : spaced field = word ++ [space] :=
    ((spaced_of_fieldText? found).2.symm.trans same).trans (spaced_of_isSolid solid nonempty)
  obtain ⟨lead, middle, tail, split, before, spread, after⟩ := exists_spread_of_spaced single
  have whole : middle = word := spread.eq_of_isSolid solid
  have trimmed : trim field = word := by
    rw [split, whole]
    exact trim_around before solid after
  exact Option.some.inj (found.symm.trans (fieldText?_of_trim trimmed nonempty))

/-- What is found in a text is found in its words. -/
theorem first?_fields?_squeezeAfter (text : Text) : (first? fields? text).map words =
    (first? fields? (squeezeAfter true text)).map words := by
  obtain ⟨-, gap, rest, blank, split, spread⟩ := spread_squeezeAfter text
  rw [← first?_fields?_spread spread, ← first?_fields?_gap blank rest, ← split]

theorem suffix_of_read? {text : Text} {line : Nat} {d : Declaration}
    (read : read? text line = some d) : [period] <:+ text := by
  obtain ⟨lead, _, nameField, roleField, body, split, ⟨-, -, gap, -, rfl⟩, -⟩ :=
    exists_frames (read?_eq_some.mp read).1
  rw [split]
  exact ⟨lead ++ (opening ++ (nameField ++ comma :: (roleField ++ comma ::
    (body ++ closeMark :: gap)))), by simp⟩

/-- A text with the words of a declaration, of which the name is one, declares the same name in the
    same role, and a formula of the same words. -/
theorem read?_of_spaced {a b : Text} {line : Nat} {d : Declaration}
    (read : read? a line = some d) (solid : IsSolid d.name) (same : spaced b = spaced a)
    (ends : [period] <:+ b) : ∃ formula, spaced formula = spaced d.formula ∧
      read? b line = some { d with formula := formula } := by
  obtain ⟨found, rfl⟩ := read?_eq_some.mp read
  have sameWords : squeezeAfter true b = squeezeAfter true a := by
    obtain ⟨_, rfl⟩ := ends
    obtain ⟨_, rfl⟩ := suffix_of_read? read
    have notBlank : isBlank period = false := by decide
    rw [spaced_concat notBlank, spaced_concat notBlank] at same
    rw [squeezeAfter_append_solid notBlank, squeezeAfter_append_solid notBlank,
      List.append_cancel_right same]
  have there := (first?_fields?_squeezeAfter b).trans
    (sameWords ▸ (first?_fields?_squeezeAfter a).symm)
  rw [found, Option.map_some, Option.map_eq_some_iff] at there
  obtain ⟨⟨name, role, formula⟩, found', equal⟩ := there
  obtain ⟨sameName, sameRole, sameFormula⟩ :
    spaced name = spaced d.name ∧ spaced role = spaced d.role.word ∧
      spaced formula = spaced d.formula := by simpa [words] using equal
  obtain ⟨_, _, _, _, _, -, -, ofName, -⟩ := exists_frames found
  obtain ⟨_, _, _, _, _, -, -, ofName', ofRole'⟩ := exists_frames found'
  have word : IsSolid d.role.word ∧ d.role.word ≠ [] := by cases d.role <;> decide
  obtain rfl := eq_of_fieldText? ofName' solid (spaced_of_fieldText? ofName).1 sameName
  obtain rfl := eq_of_fieldText? ofRole' word.1 word.2 sameRole
  exact ⟨formula, sameFormula, read?_eq_some.mpr ⟨found', rfl⟩⟩

end Declaration

end MagmaTrace
