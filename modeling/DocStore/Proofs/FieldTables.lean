import DocStore.Field.Table
import DocStore.Field.TextForm
import DocStore.Proofs.Dictionaries
import Mathlib.Data.List.Induction
import Mathlib.Tactic.Lemma

/-!
# Field tables that serve every name

A field table leads from names to numbers and from numbers to fields, and whoever adds a name relies
on both ways.  They fit together as long as fields are only added.  A table that was loaded from a
text form is taken as it is, though, and its two parts need not fit: then a name can lead to no
field at all, or to that of another name.

`IsSound` says what of the fit matters.  It is kept by every addition, and whatever has happened to
a table, it serves every name just if it is sound.
-/

namespace DocStore

namespace FieldTable

/-! ### The next number -/

instance : Std.LawfulOrderMax UInt32 where
  max_le_iff a b c := by
    have hmax : max a b = if a ≤ b then b else a := rfl
    rw [hmax]
    split
    · rename_i hab
      exact ⟨fun h => ⟨UInt32.le_trans hab h, h⟩, And.right⟩
    · rename_i hab
      exact ⟨fun h => ⟨h, UInt32.le_trans (UInt32.le_of_lt (UInt32.not_le.1 hab)) h⟩, And.left⟩
  max_eq_or a b := by
    have hmax : max a b = if a ≤ b then b else a := rfl
    rw [hmax]
    split
    · exact .inr rfl
    · exact .inl rfl

/-- The largest of some numbers is one of them, and none is larger. -/
lemma foldl_max_spec (first : UInt32) (rest : List UInt32) :
    rest.foldl max first ∈ first :: rest ∧ ∀ used ∈ first :: rest, used ≤ rest.foldl max first :=
  List.max?_eq_some_iff.1 List.max?_cons'

lemma lt_add_one_of_lt_maxNumber {number : UInt32} (h : number < maxNumber) :
    number < number + 1 := by
  rw [UInt32.lt_iff_toNat_lt] at h ⊢
  have hmax : maxNumber.toNat = 4294967295 := rfl
  have hone : (1 : UInt32).toNat = 1 := rfl
  rw [UInt32.toNat_add]
  omega

/-- The next number is larger than all that are in use. -/
lemma lt_of_nextNumber? {t : FieldTable} {number : UInt32} (h : t.nextNumber? = some number) :
    ∀ used ∈ t.byNumber.keys, used < number := by
  unfold nextNumber? at h
  rcases hkeys : t.byNumber.keys with _ | ⟨first, rest⟩
  · exact fun _ hused => absurd hused List.not_mem_nil
  · rw [hkeys] at h
    dsimp only at h
    split at h
    · rename_i hsmall
      cases h
      intro used hused
      exact UInt32.lt_of_le_of_lt ((foldl_max_spec first rest).2 used hused)
        (lt_add_one_of_lt_maxNumber hsmall)
    · cases h

/-- There is a next number as long as the largest possible one is not in use. -/
lemma exists_nextNumber? {t : FieldTable} (h : ∀ used ∈ t.byNumber.keys, used < maxNumber) :
    ∃ number, t.nextNumber? = some number := by
  unfold nextNumber?
  rcases hkeys : t.byNumber.keys with _ | ⟨first, rest⟩
  · exact ⟨0, rfl⟩
  · dsimp only
    rw [hkeys] at h
    rw [if_pos (h _ (foldl_max_spec first rest).1)]
    exact ⟨_, rfl⟩

/-! ### Adding a name -/

/-- The table after a new name was added under a number. -/
def withField (t : FieldTable) (name : String) (number : UInt32) : FieldTable where
  byNumber := t.byNumber.insert number ⟨name, number⟩
  byName := t.byName.insert name number

variable {t : FieldTable} {name : String} {number : UInt32}

lemma ofNumber?_withField (t : FieldTable) (name : String) (number other : UInt32) :
    (t.withField name number).ofNumber? other =
      if number = other then some ⟨name, number⟩ else t.ofNumber? other :=
  Dictionary.find?_insert t.byNumber number other _

lemma byName_withField (t : FieldTable) (name other : String) (number : UInt32) :
    (t.withField name number).byName.find? other =
      if name = other then some number else t.byName.find? other :=
  Dictionary.find?_insert t.byName name other _

/-- Adding a name that has a number yields the field with this number, if there is one. -/
lemma add_of_known (h : t.byName.find? name = some number) :
    t.add name =
      match t.ofNumber? number with
      | some info => .ok (info, t)
      | none => .error .fieldEntry := by
  unfold add ofNumber?
  cases hinfo : t.byNumber.find? number <;> simp [h, hinfo]

/-- Adding a new name gives it the next number, if there is one. -/
lemma add_of_new (h : t.byName.find? name = none) :
    t.add name =
      match t.nextNumber? with
      | some number => .ok (⟨name, number⟩, t.withField name number)
      | none => .error .fieldNumbers := by
  unfold add withField
  cases t.nextNumber? <;> simp [h]

/-- A number that is next has no field. -/
lemma ofNumber?_ne_some_of_next (h : t.nextNumber? = some number) {info : FieldInfo} :
    t.ofNumber? number ≠ some info := by
  intro hinfo
  have hlt := lt_of_nextNumber? h number (Dictionary.mem_keys_of_find?_eq_some hinfo)
  exact UInt32.lt_irrefl number hlt

/-- A field that is there keeps its place when a name is added under the next number. -/
lemma ofNumber?_withField_of_some (hnext : t.nextNumber? = some number) {other : UInt32}
    {info : FieldInfo} (h : t.ofNumber? other = some info) :
    (t.withField name number).ofNumber? other = some info := by
  rw [ofNumber?_withField]
  split
  · rename_i hother
    subst hother
    exact absurd h (ofNumber?_ne_some_of_next hnext)
  · exact h

/-! ### Sound tables -/

/-- Each field is found under its own number, and each number of a name leads to a field of this
name. -/
structure IsSound (t : FieldTable) : Prop where
  number : ∀ number info, t.ofNumber? number = some info → t.ofNumber? info.number = some info
  name : ∀ name number, t.byName.find? name = some number →
    ∃ info, t.ofNumber? number = some info ∧ info.name = name

/-- Whether a table is sound, as its entries tell. -/
def hasSoundEntries (t : FieldTable) : Bool :=
  (t.byNumber.keys.all fun used =>
    (t.ofNumber? used).all fun info => t.ofNumber? info.number == some info) &&
  t.byName.keys.all fun known => (t.byName.find? known).all fun number =>
    (t.ofNumber? number).any fun info => info.name == known

lemma hasSoundEntries_iff : t.hasSoundEntries = true ↔ t.IsSound := by
  unfold hasSoundEntries
  rw [Bool.and_eq_true, List.all_eq_true, List.all_eq_true]
  constructor
  · rintro ⟨hnumbers, hnames⟩
    constructor
    · intro number info hinfo
      have hused := hnumbers number (Dictionary.mem_keys_of_find?_eq_some hinfo)
      rw [hinfo] at hused
      exact beq_iff_eq.1 hused
    · intro name number hnumber
      have hknown := hnames name (Dictionary.mem_keys_of_find?_eq_some hnumber)
      rw [hnumber] at hknown
      exact (Option.any_eq_true _ _).1 hknown |>.imp fun info h => ⟨h.1, beq_iff_eq.1 h.2⟩
  · intro h
    constructor
    · intro used _
      rcases hinfo : t.ofNumber? used with _ | info
      · rfl
      · exact beq_iff_eq.2 (h.number used info hinfo)
    · intro known _
      rcases hnumber : t.byName.find? known with _ | number
      · rfl
      · obtain ⟨info, hinfo, hname⟩ := h.name known number hnumber
        rw [Option.all_some, hinfo]
        exact beq_iff_eq.2 hname

instance (t : FieldTable) : Decidable t.IsSound :=
  decidable_of_iff _ hasSoundEntries_iff

/-- An empty table is sound. -/
lemma isSound_empty : IsSound {} where
  number _ _ h := by cases h
  name _ _ h := by cases h

/-- A new name leaves a table sound. -/
lemma IsSound.withField (h : t.IsSound) (hnext : t.nextNumber? = some number) :
    (t.withField name number).IsSound where
  number other info hinfo := by
    rw [ofNumber?_withField] at hinfo
    split at hinfo
    · cases hinfo
      rw [ofNumber?_withField, if_pos rfl]
    · exact ofNumber?_withField_of_some hnext (h.number other info hinfo)
  name other number' hnumber := by
    rw [byName_withField] at hnumber
    split at hnumber
    · rename_i hname
      cases hnumber
      exact ⟨_, by rw [ofNumber?_withField, if_pos rfl], hname⟩
    · obtain ⟨info, hinfo, hname⟩ := h.name other number' hnumber
      exact ⟨info, ofNumber?_withField_of_some hnext hinfo, hname⟩

/-- In a sound table a name leads to a field of this name, which has its place under its number. -/
lemma IsSound.of_ofName? (h : t.IsSound) {info : FieldInfo} (hname : t.ofName? name = some info) :
    info.name = name ∧ t.ofNumber? info.number = some info := by
  obtain ⟨number, hnumber, hinfo⟩ := Option.bind_eq_some_iff.1 hname
  obtain ⟨info', hinfo', hname'⟩ := h.name name number hnumber
  rw [hinfo] at hinfo'
  cases hinfo'
  exact ⟨hname', h.number number info hinfo⟩

/-! ### Serving a name -/

/-- The name is served with a field, and the table is another one afterwards: adding the name yields
the field, which has this name, the name and its number both lead to it then, adding it again
changes nothing, all fields that were there before are found under their numbers, and the field's
number is that of no other name. -/
structure ServesWith (t : FieldTable) (name : String) (info : FieldInfo) (t' : FieldTable) :
    Prop where
  added : t.add name = .ok (info, t')
  name_eq : info.name = name
  of_name : t'.ofName? name = some info
  of_number : t'.ofNumber? info.number = some info
  again : t'.add name = .ok (info, t')
  kept : ∀ number other, t.ofNumber? number = some other →
    t'.ofNumber? number = some other ∧ t'.ofNumber? other.number = some other
  distinct : ∀ other info', t'.ofName? other = some info' → info'.number = info.number →
    other = name

/-- The name can be added, and leads to its field then. -/
def Serves (t : FieldTable) (name : String) : Prop :=
  ∃ info t', t.ServesWith name info t'

/-- A sound table in which a name leads to a field serves the name with it. -/
lemma IsSound.servesWith {t' : FieldTable} (h' : t'.IsSound) {info : FieldInfo}
    (hadded : t.add name = .ok (info, t')) (hnumber : t'.byName.find? name = some number)
    (hinfo : t'.ofNumber? number = some info)
    (hkept : ∀ number other, t.ofNumber? number = some other → t'.ofNumber? number = some other) :
    t.ServesWith name info t' := by
  have hof : t'.ofName? name = some info := Option.bind_eq_some_iff.2 ⟨number, hnumber, hinfo⟩
  obtain ⟨hname, hplace⟩ := h'.of_ofName? hof
  refine ⟨hadded, hname, hof, hplace, ?_, fun number' other hother => ?_,
    fun other info' hother hsame => ?_⟩
  · rw [add_of_known hnumber, hinfo]
  · have hkept' := hkept number' other hother
    exact ⟨hkept', h'.number number' other hkept'⟩
  · -- two fields under one number are one field, and so their names are one name
    obtain ⟨hname', hplace'⟩ := h'.of_ofName? hother
    rw [hsame, hplace] at hplace'
    cases hplace'
    exact hname'.symm.trans hname

/-- A sound table serves every name, as long as there are numbers left. -/
lemma IsSound.serves (h : t.IsSound) (hnumbers : ∀ used ∈ t.byNumber.keys, used < maxNumber)
    (name : String) : t.Serves name := by
  rcases hknown : t.byName.find? name with _ | number
  · obtain ⟨number, hnext⟩ := exists_nextNumber? hnumbers
    have hadd := add_of_new hknown
    rw [hnext] at hadd
    have hnumber : (t.withField name number).byName.find? name = some number := by
      rw [byName_withField, if_pos rfl]
    refine ⟨_, _, (h.withField hnext).servesWith hadd hnumber ?_ ?_⟩
    · rw [ofNumber?_withField, if_pos rfl]
    · exact fun _ _ hother => ofNumber?_withField_of_some hnext hother
  · obtain ⟨info, hinfo, -⟩ := h.name name number hknown
    have hadd := add_of_known hknown
    rw [hinfo] at hadd
    exact ⟨_, _, h.servesWith hadd hknown hinfo fun _ _ hother => hother⟩

/-- An addition leaves the table as it is, or adds a field to it under the next number. -/
lemma eq_or_eq_of_add {info : FieldInfo} {t' : FieldTable} (h : t.add name = .ok (info, t')) :
    t' = t ∨ ∃ number, t.nextNumber? = some number ∧ t' = t.withField name number := by
  rcases hknown : t.byName.find? name with _ | number
  · rw [add_of_new hknown] at h
    split at h
    · rename_i number hnext
      cases h
      exact .inr ⟨number, hnext, rfl⟩
    · cases h
  · rw [add_of_known hknown] at h
    split at h
    · cases h
      exact .inl rfl
    · cases h

/-- A table that serves every name is sound. -/
lemma isSound_of_serves (h : ∀ name, t.Serves name) : t.IsSound where
  number number info hinfo := by
    -- another name than that of the field is added, so that it does not take the field's number
    obtain ⟨other, hother⟩ : ∃ other : String, other ≠ info.name := by
      by_cases hempty : info.name = ""
      · exact ⟨"a", by rw [hempty]; decide⟩
      · exact ⟨"", Ne.symm hempty⟩
    obtain ⟨added, t', hserves⟩ := h other
    obtain ⟨-, hkept⟩ := hserves.kept number info hinfo
    rcases eq_or_eq_of_add hserves.added with rfl | ⟨next, -, rfl⟩
    · exact hkept
    · rw [ofNumber?_withField] at hkept
      split at hkept
      · cases hkept
        exact absurd rfl hother
      · exact hkept
  name name number hnumber := by
    obtain ⟨info, t', hserves⟩ := h name
    have hadded := hserves.added
    rw [add_of_known hnumber] at hadded
    rcases hinfo : t.ofNumber? number with _ | info'
    · rw [hinfo] at hadded
      cases hadded
    · rw [hinfo] at hadded
      cases hadded
      exact ⟨_, rfl, hserves.name_eq⟩

/-! ### What happens to a table -/

/-- What can happen to a table: a name is added, or a table with a text form takes its place. -/
inductive Change where
  | add (name : String)
  | load (form : Json)

namespace Change

/-- The table after a change.  A name that cannot be added and a form that is none leave it as it
is. -/
def run : Change → FieldTable → FieldTable
  | add name, t =>
    match t.add name with
    | .ok (_, t') => t'
    | .error _ => t
  | load form, t => (ofJson? form).getD t

/-- The table is a sound one, if one is loaded. -/
def LoadsSound : Change → Prop
  | add _ => True
  | load form => ∀ t, ofJson? form = some t → t.IsSound

/-- A change leaves a table sound. -/
lemma isSound_run {change : Change} (hchange : change.LoadsSound) (h : t.IsSound) :
    (change.run t).IsSound := by
  cases change with
  | add name =>
    unfold run
    dsimp only
    rcases hadd : t.add name with e | ⟨info, t'⟩
    · exact h
    · rcases eq_or_eq_of_add hadd with rfl | ⟨next, hnext, rfl⟩
      · exact h
      · exact h.withField hnext
  | load form =>
    unfold run
    dsimp only
    rcases hform : ofJson? form with _ | t'
    · exact h
    · exact hchange t' hform

end Change

/-- The table that an empty one has become after some changes. -/
def after (changes : List Change) : FieldTable :=
  changes.foldl (fun t change => change.run t) {}

lemma isSound_after {changes : List Change} (h : ∀ change ∈ changes, change.LoadsSound) :
    (after changes).IsSound := by
  unfold after
  exact List.foldlRecOn changes _ isSound_empty fun t ht change hmem =>
    Change.isSound_run (h change hmem) ht

/-- Names are added to a table, and it is loaded from text forms again and again.  As long as
numbers are left, it serves every name just if it is sound, and it is sound if each form that was
loaded is that of a sound table. -/
theorem tables_that_serve_every_name (changes : List Change)
    (hnumbers : ∀ used ∈ (after changes).byNumber.keys, used < maxNumber) :
    ((∀ name, (after changes).Serves name) ↔ (after changes).IsSound) ∧
      ((∀ change ∈ changes, change.LoadsSound) → ∀ name, (after changes).Serves name) :=
  ⟨⟨isSound_of_serves, fun h => h.serves hnumbers⟩,
    fun h => (isSound_after h).serves hnumbers⟩

/-- The text form of a table with two fields and gaps between the numbers. -/
def sparseForm : Json :=
  .object [("by_number", .object [("7", .object [("name", .string "a"), ("number", .int 7)]),
      ("2", .object [("name", .string "b"), ("number", .int 2)])]),
    ("by_name", .object [("a", .int 7), ("b", .int 2)])]

/-- A table that was loaded and has grown serves a name that it knows and one that it does not. -/
theorem sparse_table_serves_every_name :
    (∀ used ∈ (after [.load sparseForm, .add "c"]).byNumber.keys, used < maxNumber) ∧
      (∀ change ∈ [Change.load sparseForm, .add "c"], change.LoadsSound) ∧
      (after [.load sparseForm, .add "c"]).Serves "a" ∧
      (after [.load sparseForm, .add "c"]).Serves "d" := by
  have hkeys : (after [.load sparseForm, .add "c"]).byNumber.keys = [7, 2, 8] := by
    decide +kernel
  have hnumbers : ∀ used ∈ (after [.load sparseForm, .add "c"]).byNumber.keys,
      used < maxNumber := by
    rw [hkeys]
    simp [maxNumber]
  have hloads : ∀ change ∈ [Change.load sparseForm, .add "c"], change.LoadsSound := by
    have hform : ∃ t, ofJson? sparseForm = some t ∧ t.IsSound :=
      ⟨⟨[(7, ⟨"a", 7⟩), (2, ⟨"b", 2⟩)], [("a", 7), ("b", 2)]⟩, by decide +kernel, by decide⟩
    obtain ⟨t, hform, hsound⟩ := hform
    intro change hchange
    rcases List.mem_cons.1 hchange with rfl | hchange
    · intro t' ht'
      rw [hform] at ht'
      cases ht'
      exact hsound
    · rw [List.mem_singleton.1 hchange]
      trivial
  have hserves := (tables_that_serve_every_name _ hnumbers).2 hloads
  exact ⟨hnumbers, hloads, hserves "a", hserves "d"⟩

/-- The text form of a table in which a name has the number of a field of another name. -/
def crossedForm : Json :=
  .object [("by_number", .object [("0", .object [("name", .string "b"), ("number", .int 0)])]),
    ("by_name", .object [("a", .int 0)])]

/-- Not every table that is loaded serves every name: a name that is added leads to another field.
-/
theorem adding_to_crossed_table_misleads :
    (ofJson? crossedForm).isSome ∧
      (∀ used ∈ (after [.load crossedForm]).byNumber.keys, used < maxNumber) ∧
      (after [.load crossedForm]).add "a" = .ok (⟨"b", 0⟩, after [.load crossedForm]) ∧
      ¬(after [.load crossedForm]).Serves "a" := by
  have htable : after [.load crossedForm] = ⟨[(0, ⟨"b", 0⟩)], [("a", 0)]⟩ := by decide +kernel
  have hadd : (after [.load crossedForm]).add "a" = .ok (⟨"b", 0⟩, after [.load crossedForm]) := by
    rw [htable]
    rfl
  refine ⟨by decide +kernel, ?_, hadd, ?_⟩
  · rw [htable]
    exact List.forall_mem_singleton.2 (by decide)
  · rintro ⟨info, t', hserves⟩
    have hadded := hserves.added
    rw [hadd] at hadded
    cases hadded
    exact absurd hserves.name_eq (by decide)

end FieldTable

end DocStore
