import DocStore.Proofs.Documents

/-!
# Selective reading

A visitor that does not want all fields of a document is shown a part of what a visitor is shown
that wants them all.  Two facts carry this.  A value that can be decoded is passed over to where
decoding it leads, so whoever passes over some values still finds the fields behind them.  And what
a visitor is asked and shown is a matter between it and the fields, `Visitor.offer`, in which the
bytes have no part.
-/

namespace DocStore

variable {σ : Type} {resource name : String} {table : FieldTable}

/-! ### Values that are passed over -/

/-- Passing over a value consumes what decoding it consumes. -/
lemma skipValue_of_decodeValue {type : FieldType} {c c' : Cursor} {value : FieldValue}
    (h : decodeValue resource name type c = (.ok value, c')) :
    skipValue type c = (.ok (), c') := by
  cases type with
  | text =>
    obtain ⟨bytes, c₁, hslice, hrest⟩ := Step.bind_eq_ok.1 h
    rcases hutf8 : Text.decodeUtf8 bytes with e | text
    · rw [hutf8] at hrest
      cases hrest
    · rw [hutf8] at hrest
      cases hrest
      exact Step.bind_of_ok (Step.mapError_eq_ok.1 hslice)
  | binary =>
    obtain ⟨bytes, c₁, hslice, hrest⟩ := Step.bind_eq_ok.1 h
    cases hrest
    exact Step.bind_of_ok (Step.mapError_eq_ok.1 hslice)
  | int =>
    -- the number is decoded with a check of its range, which consumes nothing
    obtain ⟨i, c₁, hzint, hrest⟩ := Step.bind_eq_ok.1 h
    obtain ⟨j, c₂, hzlong, hcheck⟩ := Step.bind_eq_ok.1 (Step.mapError_eq_ok.1 hzint)
    obtain ⟨n, c₃, hvlong, hend⟩ := Step.bind_eq_ok.1 hzlong
    cases hend
    split at hcheck
    · cases hcheck
      cases hrest
      exact Step.bind_of_ok hvlong
    · cases hcheck
  | float =>
    obtain ⟨bits, c₁, hword, hrest⟩ := Step.bind_eq_ok.1 h
    obtain ⟨bytes, c₂, htake, hend⟩ := Step.bind_eq_ok.1 (Step.mapError_eq_ok.1 hword)
    cases hend
    cases hrest
    exact Step.bind_of_ok htake
  | long =>
    obtain ⟨j, c₁, hzlong, hrest⟩ := Step.bind_eq_ok.1 h
    obtain ⟨n, c₂, hvlong, hend⟩ := Step.bind_eq_ok.1 (Step.mapError_eq_ok.1 hzlong)
    cases hend
    cases hrest
    exact Step.bind_of_ok hvlong
  | double =>
    obtain ⟨bits, c₁, hword, hrest⟩ := Step.bind_eq_ok.1 h
    obtain ⟨bytes, c₂, htake, hend⟩ := Step.bind_eq_ok.1 (Step.mapError_eq_ok.1 hword)
    cases hend
    cases hrest
    exact Step.bind_of_ok htake

/-! ### What a visitor is shown -/

/-- What a visitor answers when it is asked about fields in order, and what it remembers then.  It
is given the values of the fields that it wants, and asked nothing more when it has said to stop. -/
def Visitor.offer (v : Visitor σ) : List (FieldInfo × FieldValue) → σ → List Answer × σ
  | [], s => ([], s)
  | (info, value) :: fields, s =>
    match v.ask info s with
    | (.yes, s) => Prod.map (.yes :: ·) id (v.offer fields (v.accept info value s))
    | (.no, s) => Prod.map (.no :: ·) id (v.offer fields s)
    | (.stop, s) => ([.stop], s)

/-- From one place to another the bytes hold these fields. -/
inductive HoldFields (resource : String) (table : FieldTable) :
    Cursor → List (FieldInfo × FieldValue) → Cursor → Prop
  | nil (c : Cursor) : HoldFields resource table c [] c
  | cons {c c₁ c₂ c₃ : Cursor} {info : FieldInfo} {type : FieldType} {value : FieldValue}
      {fields : List (FieldInfo × FieldValue)}
      (hkey : readKey resource table c = (.ok (info, type), c₁))
      (hvalue : decodeValue resource info.name type c₁ = (.ok value, c₂))
      (hrest : HoldFields resource table c₂ fields c₃) :
      HoldFields resource table c ((info, value) :: fields) c₃

variable {fields : List (FieldInfo × FieldValue)} {c c' : Cursor}

/-- A visitor that says yes to every field, whatever it remembers. -/
def Visitor.SaysYes (v : Visitor σ) : Prop :=
  ∀ info s, (v.ask info s).1 = .yes

/-- A visitor that wants one field is given a value that can be decoded. -/
lemma readField_eq_ok_of_yes {v : Visitor σ} (hv : v.SaysYes) {s s' : σ} {more : Bool}
    (h : readField resource table v (c, s) = (.ok more, (c', s'))) :
    more = true ∧ ∃ info type c₁ value, readKey resource table c = (.ok (info, type), c₁) ∧
      decodeValue resource info.name type c₁ = (.ok value, c') := by
  unfold readField at h
  dsimp only at h
  rcases hkey : readKey resource table c with ⟨e | ⟨info, type⟩, c₁⟩
  · rw [hkey] at h
    cases h
  · rw [hkey] at h
    dsimp only at h
    have hyes := hv info s
    rcases hask : v.ask info s with ⟨answer, s₁⟩
    rw [hask] at h hyes
    obtain rfl : answer = .yes := hyes
    dsimp only at h
    rcases hvalue : decodeValue resource info.name type c₁ with ⟨e | value, c₂⟩
    · rw [hvalue] at h
      cases h
    · rw [hvalue] at h
      cases h
      exact ⟨rfl, info, type, c₁, value, rfl, hvalue⟩

/-- Bytes that can be read in full hold as many fields as were asked for, and no more. -/
lemma holdFields_of_readFields {v : Visitor σ} (hv : v.SaysYes) {count : Nat} {s s' : σ}
    (h : readFields resource table v count (c, s) = (.ok (), (c', s'))) :
    ∃ fields, HoldFields resource table c fields c' ∧ fields.length = count ∧ c'.rest = [] := by
  induction count generalizing c s with
  | zero =>
    rw [readFields] at h
    split at h
    · rename_i hempty
      cases h
      exact ⟨[], .nil _, rfl, List.isEmpty_iff.1 hempty⟩
    · cases h
  | succ count ih =>
    rw [readFields] at h
    rcases hfield : readField resource table v (c, s) with ⟨e | more, c₂, s₂⟩
    · rw [hfield] at h
      cases h
    · obtain ⟨rfl, info, type, c₁, value, hkey, hvalue⟩ := readField_eq_ok_of_yes hv hfield
      rw [hfield] at h
      obtain ⟨fields, hfields, hlength, hend⟩ := ih h
      exact ⟨_, .cons hkey hvalue hfields, congrArg (· + 1) hlength, hend⟩

/-- Whoever reads the fields is asked and shown what it is when the fields are offered to it. -/
lemma HoldFields.readFields_eq (h : HoldFields resource table c fields c') (hend : c'.rest = [])
    (v : Visitor σ) (s : σ) :
    ∃ c'', readFields resource table v fields.length (c, s) =
      (.ok (), (c'', (v.offer fields s).2)) := by
  induction h generalizing s with
  | nil =>
    rw [List.length_nil, readFields, hend]
    exact ⟨_, rfl⟩
  | @cons c c₁ c₂ c₃ info type value fields hkey hvalue hrest ih =>
    rw [List.length_cons, readFields]
    unfold readField Visitor.offer
    dsimp only
    rw [hkey]
    dsimp only
    rcases v.ask info s with ⟨_ | _ | _, s₁⟩
    · dsimp only
      rw [hvalue]
      exact ih hend _
    · dsimp only
      rw [skipValue_of_decodeValue hvalue]
      exact ih hend _
    · exact ⟨c₁, rfl⟩

/-- The form of a document holds its fields, and nothing behind them. -/
lemma holdFields_of_encodeFields (htable : table.Knows fields) {bytes : Bytes}
    (h : encodeFields fields = .ok bytes) (hc : c.IsWhole) (hrest : c.rest = bytes) :
    ∃ c', HoldFields resource table c fields c' ∧ c'.rest = [] := by
  induction fields generalizing bytes c with
  | nil =>
    cases h
    exact ⟨c, .nil c, hrest⟩
  | cons field fields ih =>
    obtain ⟨info, value⟩ := field
    obtain ⟨x, hx, y, hy, rfl⟩ := encodeFields_cons_eq_ok.1 h
    obtain ⟨form, hform, rfl⟩ := encodeField_eq_ok.1 hx
    rw [List.append_assoc] at hrest
    have hc' := hc.skip_append hrest
    have hrest' := Cursor.rest_skip_append hrest
    obtain ⟨c', hfields, hend⟩ := ih (fun field hfield => htable field (.tail _ hfield)) hy
      (hc'.skip_append hrest') (Cursor.rest_skip_append hrest')
    refine ⟨c', .cons ?_ (reads_decodeValue hform _ _ hc' hrest') hfields, hend⟩
    exact reads_readKey (htable _ List.mem_cons_self) value.type c _ hc hrest

/-- A document is read as its fields are offered to the visitor. -/
lemma readDocument_eq {bytes : Bytes} (h : HoldFields resource table (.ofBytes bytes) fields c')
    (hend : c'.rest = []) (v : Visitor σ) (s : σ) :
    readDocument resource table v bytes fields.length s = (.ok (), (v.offer fields s).2) := by
  obtain ⟨c'', hread⟩ := h.readFields_eq hend v s
  unfold readDocument
  rw [hread]

/-! ### The calls on a visitor -/

/-- A call on a visitor. -/
inductive VisitorCall where
  /-- It is asked about a field, and gives this answer. -/
  | ask (info : FieldInfo) (answer : Answer)
  /-- It is given the value of a field. -/
  | accept (info : FieldInfo) (value : FieldValue)
  deriving DecidableEq, Repr

/-- The visitor with a list of the calls on it. -/
def Visitor.logged (v : Visitor σ) : Visitor (σ × List VisitorCall) where
  ask info := fun (s, calls) =>
    ((v.ask info s).1, ((v.ask info s).2, calls ++ [.ask info (v.ask info s).1]))
  accept info value := fun (s, calls) => (v.accept info value s, calls ++ [.accept info value])

/-- The calls about fields for which these answers are given, to the first so many of them. -/
def callsAbout : List (FieldInfo × FieldValue) → List Answer → List VisitorCall
  | (info, value) :: fields, .yes :: answers =>
    .ask info .yes :: .accept info value :: callsAbout fields answers
  | (info, _) :: fields, answer :: answers => .ask info answer :: callsAbout fields answers
  | _, _ => []

/-- Only the last of the answers may be to stop, and there are fewer than `count` only if it is. -/
def AskedThrough (count : Nat) (answers : List Answer) : Prop :=
  (.stop ∉ answers ∧ answers.length = count) ∨
    ∃ before, answers = before ++ [.stop] ∧ .stop ∉ before ∧ answers.length ≤ count

/-- A visitor that does not stop at the first field is asked on. -/
lemma AskedThrough.cons {count : Nat} {answers : List Answer} (h : AskedThrough count answers)
    {answer : Answer} (hanswer : answer ≠ .stop) :
    AskedThrough (count + 1) (answer :: answers) := by
  rcases h with ⟨hnever, hlength⟩ | ⟨before, rfl, hbefore, hlength⟩
  · refine .inl ⟨?_, by rw [List.length_cons, hlength]⟩
    rw [List.mem_cons, not_or]
    exact ⟨hanswer.symm, hnever⟩
  · refine .inr ⟨answer :: before, rfl, ?_, Nat.succ_le_succ hlength⟩
    rw [List.mem_cons, not_or]
    exact ⟨hanswer.symm, hbefore⟩

namespace Visitor

section Steps

variable {v : Visitor σ} {info : FieldInfo} {s s' : σ}

/-- A field that is wanted is shown, and the rest is offered. -/
lemma offer_of_yes (h : v.ask info s = (.yes, s')) (value : FieldValue) :
    v.offer ((info, value) :: fields) s =
      (.yes :: (v.offer fields (v.accept info value s')).1,
        (v.offer fields (v.accept info value s')).2) := by
  rw [offer, h]
  rfl

/-- A field that is not wanted is passed over, and the rest is offered. -/
lemma offer_of_no (h : v.ask info s = (.no, s')) (value : FieldValue) :
    v.offer ((info, value) :: fields) s =
      (.no :: (v.offer fields s').1, (v.offer fields s').2) := by
  rw [offer, h]
  rfl

/-- After a stop no field is offered. -/
lemma offer_of_stop (h : v.ask info s = (.stop, s')) (value : FieldValue) :
    v.offer ((info, value) :: fields) s = ([.stop], s') := by
  rw [offer, h]

/-- What a visitor is asked is logged with its answer. -/
lemma ask_logged {answer : Answer} (h : v.ask info s = (answer, s')) (calls : List VisitorCall) :
    v.logged.ask info (s, calls) = (answer, (s', calls ++ [.ask info answer])) := by
  simp [logged, h]

/-- What a visitor is shown is logged. -/
lemma accept_logged (value : FieldValue) (calls : List VisitorCall) :
    v.logged.accept info value (s, calls) =
      (v.accept info value s, calls ++ [.accept info value]) := rfl

end Steps

/-- A visitor is asked about the fields in order, until it says to stop. -/
lemma askedThrough_offer (v : Visitor σ) (fields : List (FieldInfo × FieldValue)) (s : σ) :
    AskedThrough fields.length (v.offer fields s).1 := by
  induction fields generalizing s with
  | nil => exact .inl ⟨List.not_mem_nil, rfl⟩
  | cons field fields ih =>
    obtain ⟨info, value⟩ := field
    unfold offer
    rcases v.ask info s with ⟨_ | _ | _, s'⟩
    · exact (ih _).cons (by decide)
    · exact (ih _).cons (by decide)
    · refine .inr ⟨[], rfl, List.not_mem_nil, ?_⟩
      rw [List.length_cons]
      exact Nat.succ_le_succ (Nat.zero_le _)

/-- Who lists the calls answers as before and remembers as much, and the calls that it lists are
those that belong to the answers. -/
lemma offer_logged (v : Visitor σ) (fields : List (FieldInfo × FieldValue)) (s : σ)
    (calls : List VisitorCall) :
    v.logged.offer fields (s, calls) =
      ((v.offer fields s).1,
        ((v.offer fields s).2, calls ++ callsAbout fields (v.offer fields s).1)) := by
  induction fields generalizing s calls with
  | nil => simp [offer, callsAbout]
  | cons field fields ih =>
    obtain ⟨info, value⟩ := field
    rcases hask : v.ask info s with ⟨_ | _ | _, s'⟩
    · rw [offer_of_yes hask, offer_of_yes (ask_logged hask calls), accept_logged, ih]
      simp [callsAbout]
    · rw [offer_of_no hask, offer_of_no (ask_logged hask calls), ih]
      simp [callsAbout]
    · rw [offer_of_stop hask, offer_of_stop (ask_logged hask calls)]
      simp [callsAbout]

/-- A visitor that wants everything says so for each field. -/
lemma offer_of_saysYes {v : Visitor σ} (hv : v.SaysYes) (s : σ) :
    (v.offer fields s).1 = List.replicate fields.length .yes := by
  induction fields generalizing s with
  | nil => rfl
  | cons field fields ih =>
    obtain ⟨info, value⟩ := field
    have hyes := hv info s
    rcases hask : v.ask info s with ⟨answer, s'⟩
    rw [hask] at hyes
    obtain rfl : answer = .yes := hyes
    rw [offer_of_yes hask, ih, List.length_cons, List.replicate_succ]

/-- The fields with a wanted name are gathered, after those that are there. -/
lemma offer_collect_some (names : List String) (fields : List (FieldInfo × FieldValue))
    (d : Document) :
    ((collect (some names)).offer fields d).2 =
      ⟨d.fields ++ (Document.ofFields fields).fields.filter fun f => names.contains f.name⟩ := by
  induction fields generalizing d with
  | nil => simp [offer, Document.ofFields]
  | cons field fields ih =>
    obtain ⟨info, value⟩ := field
    by_cases hname : info.name ∈ names
    · have hask : (collect (some names)).ask info d = (.yes, d) := by simp [collect, hname]
      have haccept : (collect (some names)).accept info value d =
          ⟨d.fields ++ [⟨info.name, value⟩]⟩ := rfl
      rw [offer_of_yes hask, haccept]
      dsimp only
      rw [ih]
      simp [Document.ofFields, hname]
    · have hask : (collect (some names)).ask info d = (.no, d) := by simp [collect, hname]
      rw [offer_of_no hask]
      dsimp only
      rw [ih]
      simp [Document.ofFields, hname]

/-- All fields are gathered, after those that are there. -/
lemma offer_collect_none (fields : List (FieldInfo × FieldValue)) (d : Document) :
    ((collect none).offer fields d).2 = ⟨d.fields ++ (Document.ofFields fields).fields⟩ := by
  induction fields generalizing d with
  | nil => simp [offer, Document.ofFields]
  | cons field fields ih =>
    obtain ⟨info, value⟩ := field
    have hask : (collect none).ask info d = (.yes, d) := rfl
    have haccept : (collect none).accept info value d =
        ⟨d.fields ++ [⟨info.name, value⟩]⟩ := rfl
    rw [offer_of_yes hask, haccept]
    dsimp only
    rw [ih]
    simp [Document.ofFields]

end Visitor

/-- If a document can be read by a visitor that says yes to every field, any visitor can read it.
It is asked about the same fields in the same order until it says to stop, and given the same values
of those to which it says yes; and gathering the fields with certain names leaves out the others
from the whole document. -/
theorem selective_reading_filters_full_reading {τ : Type} {y : Visitor τ} (hy : y.SaysYes)
    {bytes : Bytes} {count : Nat} {t t' : τ} {calls : List VisitorCall}
    (hfull : readDocument resource table y.logged bytes count (t, []) = (.ok (), (t', calls))) :
    ∃ fields, fields.length = count ∧ calls = callsAbout fields (List.replicate count .yes) ∧
      (∀ {σ : Type} (v : Visitor σ) (s : σ), ∃ answers s', AskedThrough count answers ∧
        readDocument resource table v.logged bytes count (s, []) =
          (.ok (), (s', callsAbout fields answers)) ∧
        readDocument resource table v bytes count s = (.ok (), s')) ∧
      ∃ whole, readDocument resource table (.collect none) bytes count {} = (.ok (), whole) ∧
        ∀ names, readDocument resource table (.collect (some names)) bytes count {} =
          (.ok (), ⟨whole.fields.filter fun f => names.contains f.name⟩) := by
  have hlogged : y.logged.SaysYes := fun info s => hy info s.1
  unfold readDocument at hfull
  rcases hread : readFields resource table y.logged count (.ofBytes bytes, (t, [])) with
    ⟨result, c', t''⟩
  rw [hread] at hfull
  cases hfull
  obtain ⟨fields, hfields, rfl, hend⟩ := holdFields_of_readFields hlogged hread
  refine ⟨fields, rfl, ?_, fun v s => ?_, Document.ofFields fields, ?_, fun names => ?_⟩
  · obtain ⟨c'', hagain⟩ := hfields.readFields_eq hend y.logged (t, [])
    rw [hread, Visitor.offer_logged, Visitor.offer_of_saysYes hy] at hagain
    cases hagain
    rfl
  · refine ⟨(v.offer fields s).1, (v.offer fields s).2, v.askedThrough_offer fields s, ?_,
      readDocument_eq hfields hend v s⟩
    rw [readDocument_eq hfields hend, Visitor.offer_logged, List.nil_append]
  · rw [readDocument_eq hfields hend, Visitor.offer_collect_none, List.nil_append]
  · rw [readDocument_eq hfields hend, Visitor.offer_collect_some, List.nil_append]

/-- A table of three fields. -/
def threeFieldTable : FieldTable where
  byNumber := [(0, ⟨"a", 0⟩), (1, ⟨"b", 1⟩), (2, ⟨"c", 2⟩)]
  byName := [("a", 0), ("b", 1), ("c", 2)]

/-- A visitor that passes over the first field, takes the second one and stops at the third. -/
def secondOnly : Visitor Nat where
  ask _ n := (if n = 0 then .no else if n = 1 then .yes else .stop, n + 1)
  accept _ _ n := n

/-- A document of a text, an int and a long is read in full, by a visitor that takes one of the
fields, and for the fields with one name. -/
theorem three_fields_read_selectively :
    let bytes : Bytes := [0, 2, 104, 105, 10, 10, 20, 1]
    ∃ fields answers s' whole, fields.length = 3 ∧ AskedThrough 3 answers ∧
      readDocument "s" threeFieldTable secondOnly.logged bytes 3 (0, []) =
        (.ok (), (s', callsAbout fields answers)) ∧
      readDocument "s" threeFieldTable (.collect none) bytes 3 {} = (.ok (), whole) ∧
      readDocument "s" threeFieldTable (.collect (some ["b"])) bytes 3 {} =
        (.ok (), ⟨whole.fields.filter fun f => ["b"].contains f.name⟩) := by
  intro bytes
  have hread : readDocument "s" threeFieldTable (Visitor.collect none).logged bytes 3 ({}, []) =
      (.ok (), (⟨[⟨"a", .text "hi"⟩, ⟨"b", .int 5⟩, ⟨"c", .long (-1)⟩]⟩,
        [.ask ⟨"a", 0⟩ .yes, .accept ⟨"a", 0⟩ (.text "hi"),
          .ask ⟨"b", 1⟩ .yes, .accept ⟨"b", 1⟩ (.int 5),
          .ask ⟨"c", 2⟩ .yes, .accept ⟨"c", 2⟩ (.long (-1))])) := by
    decide +kernel
  obtain ⟨fields, hlength, -, hany, whole, hwhole, hnames⟩ :=
    selective_reading_filters_full_reading (fun _ _ => rfl) hread
  obtain ⟨answers, s', hasked, hlogged, -⟩ := hany secondOnly 0
  exact ⟨fields, answers, s', whole, hlength, hasked, hlogged, hwhole, hnames ["b"]⟩

end DocStore
