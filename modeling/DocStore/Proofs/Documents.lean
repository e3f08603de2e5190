import DocStore.Document
import DocStore.Proofs.Framing

/-!
# Documents round trip

Each type of value is read back from its form, so a field is read back from its key and its value,
and a document from its fields one after another.  The number of a field has to lead back to the
field in the table; nothing else is asked of the table.
-/

namespace DocStore

open Decoder

variable {resource name : String} {bytes rest : Bytes}

/-! ### Values -/

/-- The bytes that spell a text spell this text. -/
lemma decodeUtf8_utf8Bytes (text : String) : Text.decodeUtf8 (utf8Bytes text) = .ok text := by
  have hbytes : (⟨(utf8Bytes text).toArray⟩ : ByteArray) = text.toByteArray := rfl
  have hspells : String.fromUTF8? text.toByteArray = some text := by
    unfold String.fromUTF8?
    rw [dif_pos text.isValidUTF8]
    exact congrArg some (String.toByteArray_inj.1 rfl)
  unfold Text.decodeUtf8
  rw [hbytes, hspells]

/-- The form of a value is what its writes come to. -/
lemma encodeValue_eq_ok {value : FieldValue} :
    encodeValue value = .ok bytes ↔ ∃ pieces, valuePieces value = .ok pieces ∧
      pieces.flatten = bytes := by
  unfold encodeValue
  cases valuePieces value with
  | error fault => exact ⟨nofun, fun ⟨_, h, _⟩ => nomatch h⟩
  | ok pieces =>
    refine ⟨fun h => ⟨pieces, rfl, Except.ok.inj h⟩, ?_⟩
    rintro ⟨_, ⟨⟩, rfl⟩
    rfl

/-- A length that fits stands before the bytes of a value. -/
lemma flatten_valueLength {n : Nat} {pieces : Pieces}
    (h : (do let length ← valueLength n; pure (length ++ [rest])) = .ok pieces) :
    n < 2 ^ 32 ∧ pieces.flatten = VarInt.encode n ++ rest := by
  unfold valueLength at h
  split at h
  · rename_i hfits
    cases h
    refine ⟨hfits, ?_⟩
    rw [List.flatten_append, flatten_bytewise, List.flatten_singleton]
  · cases h

lemma reads_readSlice (hlength : bytes.length < 2 ^ 32) :
    Reads readSlice (VarInt.encode bytes.length ++ bytes) bytes := by
  refine (VarInt.reads_vint hlength).bind (reads_get_bind fun c rest _ hrest => ?_)
  have htaken : ¬(c.rest.take bytes.length).length < bytes.length := by
    rw [hrest, List.take_left]
    exact Nat.lt_irrefl _
  rw [if_neg htaken]
  exact reads_take rfl

/-- A value is read back from its form. -/
lemma reads_decodeValue {value : FieldValue} (h : encodeValue value = .ok bytes) :
    Reads (decodeValue resource name value.type) bytes value := by
  obtain ⟨pieces, hpieces, rfl⟩ := encodeValue_eq_ok.1 h
  cases value with
  | text value =>
    obtain ⟨hlength, hform⟩ := flatten_valueLength hpieces
    rw [← Framing.length_utf8Bytes] at hlength hform
    rw [hform]
    refine ((reads_readSlice hlength).mapError _).bind_pure ?_
    rw [decodeUtf8_utf8Bytes]
    exact reads_pure _
  | binary value =>
    obtain ⟨hlength, hform⟩ := flatten_valueLength hpieces
    rw [hform]
    exact ((reads_readSlice hlength).mapError _).bind_pure (reads_pure _)
  | int value =>
    cases hpieces
    rw [flatten_bytewise]
    refine ((VarInt.reads_zint ⟨value.le_toInt, value.toInt_lt⟩).mapError _).bind_pure ?_
    rw [Int32.ofInt_toInt]
    exact reads_pure _
  | float bits =>
    cases hpieces
    have hbits : ofBigEndian (bigEndian 4 bits.toNat) = bits.toNat :=
      ofBigEndian_bigEndian_of_lt bits.toNat_lt
    rw [List.flatten_singleton]
    refine ((reads_word (length_bigEndian 4 bits.toNat)).mapError _).bind_pure ?_
    rw [hbits, UInt32.ofNat_toNat]
    exact reads_pure _
  | long value =>
    cases hpieces
    rw [flatten_bytewise]
    refine ((VarInt.reads_zlong ⟨value.le_toInt, value.toInt_lt⟩).mapError _).bind_pure ?_
    rw [Int64.ofInt_toInt]
    exact reads_pure _
  | double bits =>
    cases hpieces
    have hbits : ofBigEndian (bigEndian 8 bits.toNat) = bits.toNat :=
      ofBigEndian_bigEndian_of_lt bits.toNat_lt
    rw [List.flatten_singleton]
    refine ((reads_word (length_bigEndian 8 bits.toNat)).mapError _).bind_pure ?_
    rw [hbits, UInt64.ofNat_toNat]
    exact reads_pure _

/-! ### Fields -/

/-- A tag is one of those that a key can tell apart, and stands for its type. -/
lemma FieldType.tag_lt (type : FieldType) : type.tag < tagRange := by
  cases type <;> decide

@[simp] lemma FieldType.ofTag?_tag (type : FieldType) : ofTag? type.tag = some type := by
  cases type <;> rfl

/-- A key holds the number and the type. -/
lemma splitKey_fieldKey (number : UInt32) (type : FieldType) :
    splitKey resource (fieldKey number type) = .ok (number, type) := by
  have htag := type.tag_lt
  have hnumber := number.toNat_lt
  have hmod : fieldKey number type % tagRange = type.tag := by
    unfold fieldKey tagRange at *
    omega
  have hdiv : fieldKey number type / tagRange = number.toNat := by
    unfold fieldKey tagRange at *
    omega
  unfold splitKey
  rw [hmod, FieldType.ofTag?_tag, hdiv]
  dsimp only
  rw [if_pos hnumber, UInt32.ofNat_toNat]

lemma fieldKey_lt (number : UInt32) (type : FieldType) : fieldKey number type < 2 ^ 64 := by
  have htag := type.tag_lt
  have hnumber := number.toNat_lt
  unfold fieldKey tagRange at *
  omega

variable {table : FieldTable} {info : FieldInfo} {value : FieldValue}

/-- A key is read back if its number leads to the field. -/
lemma reads_readKey (hinfo : table.ofNumber? info.number = some info) (type : FieldType) :
    Reads (readKey resource table) (encodeKey info type) (info, type) := by
  unfold readKey encodeKey
  refine ((VarInt.reads_vlong (fieldKey_lt _ _)).mapError _).bind_pure ?_
  refine (reads_ofExcept (splitKey_fieldKey info.number type)).bind_nil ?_
  dsimp only
  rw [hinfo]
  exact reads_pure _

/-- A visitor that wants every field. -/
def Visitor.WantsAll {σ : Type} (visitor : Visitor σ) : Prop :=
  ∀ info s, visitor.ask info s = (.yes, s)

lemma Visitor.wantsAll_collect : (collect none).WantsAll :=
  fun _ _ => rfl

variable {σ : Type} {visitor : Visitor σ}

/-- The form of a field is its key and the form of its value. -/
lemma encodeField_eq_ok :
    encodeField info value = .ok bytes ↔ ∃ form, encodeValue value = .ok form ∧
      encodeKey info value.type ++ form = bytes := by
  unfold encodeField
  rw [except_bind_eq_ok]
  exact exists_congr fun form => and_congr_right fun _ => ⟨Except.ok.inj, congrArg Except.ok⟩

/-- Each value takes a byte at least. -/
lemma length_pos_of_encodeValue {value : FieldValue} (h : encodeValue value = .ok bytes) :
    0 < bytes.length := by
  have hafter : ∀ n (rest : Bytes), 0 < (VarInt.encode n ++ rest).length := by
    intro n rest
    have hpos := VarInt.encodedLength_pos n
    rw [List.length_append, VarInt.length_encode]
    omega
  have hsigned : ∀ i, 0 < (bytewise (VarInt.encodeSigned i)).flatten.length := by
    intro i
    rw [flatten_bytewise]
    exact VarInt.length_encode _ ▸ VarInt.encodedLength_pos _
  have hword : ∀ width n, 0 < width → 0 < [bigEndian width n].flatten.length := by
    intro width n hwidth
    rw [List.flatten_singleton, length_bigEndian]
    exact hwidth
  obtain ⟨pieces, hpieces, rfl⟩ := encodeValue_eq_ok.1 h
  cases value with
  | text value =>
    rw [(flatten_valueLength hpieces).2]
    exact hafter ..
  | binary value =>
    rw [(flatten_valueLength hpieces).2]
    exact hafter ..
  | int value =>
    cases hpieces
    exact hsigned _
  | float bits =>
    cases hpieces
    exact hword 4 _ (by decide)
  | long value =>
    cases hpieces
    exact hsigned _
  | double bits =>
    cases hpieces
    exact hword 8 _ (by decide)

/-- Each field takes a byte for its key and one for its value at least. -/
lemma two_le_length_of_encodeField (h : encodeField info value = .ok bytes) : 2 ≤ bytes.length := by
  obtain ⟨form, hform, rfl⟩ := encodeField_eq_ok.1 h
  have hkey := VarInt.encodedLength_pos (fieldKey info.number value.type)
  have hvalue := length_pos_of_encodeValue hform
  rw [List.length_append, encodeKey, VarInt.length_encode]
  omega

/-- A field is read back, and shown to a visitor that wants it. -/
lemma readField_spec (hvisitor : visitor.WantsAll) (hinfo : table.ofNumber? info.number = some info)
    (h : encodeField info value = .ok bytes) {c : Cursor} (hc : c.IsWhole)
    (hrest : c.rest = bytes ++ rest) (s : σ) :
    readField resource table visitor (c, s) =
      (.ok true, (c.skip bytes.length, visitor.accept info value s)) := by
  obtain ⟨form, hform, rfl⟩ := encodeField_eq_ok.1 h
  rw [List.append_assoc] at hrest
  unfold readField
  dsimp only
  rw [reads_readKey hinfo value.type c _ hc hrest]
  dsimp only
  rw [hvisitor]
  dsimp only
  rw [reads_decodeValue hform _ rest (hc.skip_append hrest) (Cursor.rest_skip_append hrest)]
  dsimp only
  rw [Cursor.skip_skip, List.length_append]

/-! ### Fields one after another -/

/-- The form of a document: its fields one after another. -/
def encodeFields : List (FieldInfo × FieldValue) → Except Fault Bytes
  | [] => .ok []
  | (info, value) :: fields => do
    let bytes ← encodeField info value
    let more ← encodeFields fields
    pure (bytes ++ more)

variable {fields : List (FieldInfo × FieldValue)}

/-- The form of a document begins with that of its first field. -/
lemma encodeFields_cons_eq_ok :
    encodeFields ((info, value) :: fields) = .ok bytes ↔
      ∃ x, encodeField info value = .ok x ∧ ∃ y, encodeFields fields = .ok y ∧ x ++ y = bytes := by
  rw [encodeFields, except_bind_eq_ok]
  refine exists_congr fun x => and_congr_right fun _ => ?_
  rw [except_bind_eq_ok]
  exact exists_congr fun y => and_congr_right fun _ => ⟨Except.ok.inj, congrArg Except.ok⟩

lemma length_le_of_encodeFields (h : encodeFields fields = .ok bytes) :
    2 * fields.length ≤ bytes.length := by
  induction fields generalizing bytes with
  | nil => exact Nat.zero_le _
  | cons field fields ih =>
    obtain ⟨x, hx, y, hy, rfl⟩ := encodeFields_cons_eq_ok.1 h
    have hfield := two_le_length_of_encodeField hx
    have hmore := ih hy
    rw [List.length_cons, List.length_append]
    omega

/-- Only a document without fields has no bytes. -/
lemma eq_nil_of_encodeFields_iff (h : encodeFields fields = .ok bytes) :
    bytes = [] ↔ fields.length = 0 := by
  constructor
  · rintro rfl
    have hlength := length_le_of_encodeFields h
    rw [List.length_nil] at hlength
    omega
  · intro hzero
    rw [List.length_eq_zero_iff.1 hzero] at h
    cases h
    rfl

/-- What a visitor that wants every field has been shown after some fields. -/
def Visitor.acceptAll (visitor : Visitor σ) (fields : List (FieldInfo × FieldValue)) (s : σ) : σ :=
  fields.foldl (fun s (info, value) => visitor.accept info value s) s

/-- Every field has a number that leads to it. -/
def FieldTable.Knows (table : FieldTable) (fields : List (FieldInfo × FieldValue)) : Prop :=
  ∀ field ∈ fields, table.ofNumber? field.1.number = some field.1

/-- Fields are read back to the end of their bytes, and shown in order. -/
lemma readFields_spec (hvisitor : visitor.WantsAll) (htable : table.Knows fields)
    (h : encodeFields fields = .ok bytes) {c : Cursor} (hc : c.IsWhole) (hrest : c.rest = bytes)
    (s : σ) :
    readFields resource table visitor fields.length (c, s) =
      (.ok (), (c.skip bytes.length, visitor.acceptAll fields s)) := by
  induction fields generalizing bytes c s with
  | nil =>
    cases h
    rw [List.length_nil, readFields, hrest]
    rfl
  | cons field fields ih =>
    obtain ⟨info, value⟩ := field
    obtain ⟨x, hx, y, hy, rfl⟩ := encodeFields_cons_eq_ok.1 h
    have hmore := ih (fun field hfield => htable field (List.mem_cons_of_mem _ hfield)) hy
      (hc.skip_append hrest) (Cursor.rest_skip_append hrest) (visitor.accept info value s)
    rw [List.length_cons, readFields,
      readField_spec hvisitor (htable _ List.mem_cons_self) hx hc hrest]
    dsimp only
    rw [hmore, Cursor.skip_skip, List.length_append]
    rfl

/-- A document is read back. -/
lemma readDocument_spec (hvisitor : visitor.WantsAll) (htable : table.Knows fields)
    (h : encodeFields fields = .ok bytes) (s : σ) :
    readDocument resource table visitor bytes fields.length s =
      (.ok (), visitor.acceptAll fields s) := by
  unfold readDocument
  rw [readFields_spec hvisitor htable h (Cursor.isWhole_ofBytes bytes) rfl]

/-- The fields of a document as they are read. -/
def Document.ofFields (fields : List (FieldInfo × FieldValue)) : Document :=
  ⟨fields.map fun (info, value) => ⟨info.name, value⟩⟩

/-- Gathered fields come after those that are there. -/
lemma Visitor.acceptAll_collect (d : Document) :
    (collect none).acceptAll fields d = ⟨d.fields ++ (Document.ofFields fields).fields⟩ := by
  induction fields generalizing d with
  | nil => simp [acceptAll, Document.ofFields]
  | cons field fields ih =>
    have hstep : (collect none).acceptAll (field :: fields) d =
        (collect none).acceptAll fields ⟨d.fields ++ [⟨field.1.name, field.2⟩]⟩ := rfl
    rw [hstep, ih]
    simp [Document.ofFields]

end DocStore
