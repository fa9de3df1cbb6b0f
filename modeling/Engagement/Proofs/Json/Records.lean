import Mathlib.Data.List.Perm.Basic
import Mathlib.Data.List.Nodup
import Engagement.Json.Record

/-! # Reading records back

The fields of a record stand in an order of their own, but each is found under its name. So what is
decoded of a record are the values it was made of, and what is left of a union without its tag is
the record of the other fields.
-/

namespace Engagement

namespace Json

variable {α β : Type} {fields l : Fields} {name tag : String} {value : Json} {names : List String}

/-! ## Fields by name -/

/-- No name is used twice. -/
def Fields.Distinct (fields : Fields) : Prop := (fields.map Prod.fst).Nodup

@[simp] theorem Fields.distinct_iff : fields.Distinct ↔ (fields.map Prod.fst).Nodup := .rfl

theorem insert_perm (new : name ∉ fields.map Prod.fst) (value : Json) :
    (Fields.insert fields name value).Perm ((name, value) :: fields) := by
  induction fields with
  | nil => exact .refl _
  | cons field rest ih =>
    obtain ⟨k, v⟩ := field
    rw [List.map_cons, List.mem_cons, not_or] at new
    unfold Fields.insert
    split
    · exact .refl _
    · rw [if_neg new.1]
      exact ((ih new.2).cons _).trans (.swap ..)

theorem canonical_perm (distinct : fields.Distinct) : (Fields.canonical fields).Perm fields := by
  have step : ∀ (l acc : Fields), (acc ++ l).Distinct →
      (l.foldl (fun acc f => Fields.insert acc f.1 f.2) acc).Perm (acc ++ l) := by
    intro l
    induction l with
    | nil => simp
    | cons field rest ih =>
      intro acc distinct
      have inserted : (Fields.insert acc field.1 field.2).Perm (field :: acc) := by
        refine insert_perm (fun held => ?_) _
        rw [Fields.Distinct, List.map_append, List.nodup_append] at distinct
        exact distinct.2.2 _ held _ (by simp) rfl
      have moved : (Fields.insert acc field.1 field.2 ++ rest).Perm (acc ++ field :: rest) :=
        (inserted.append_right rest).trans List.perm_middle.symm
      refine (ih _ ?_).trans moved
      exact (moved.map Prod.fst).nodup_iff.mpr distinct
  exact step fields [] distinct

/-- What is found under a name. -/
def slotOf (name : String) : Fields → Slot
  | [] => .absent
  | (k, v) :: rest => if k = name then .given v else slotOf name rest

theorem get_map {slot : String → Slot} (declared : name ∈ names) :
    Slots.get (names.map fun name => (name, slot name)) name = slot name := by
  unfold Slots.get
  induction names with
  | nil => cases declared
  | cons first rest ih =>
    by_cases same : first = name
    · subst same
      simp
    · have later : name ∈ rest := (List.mem_cons.mp declared).resolve_left (Ne.symm same)
      rw [List.map_cons, List.find?_cons_of_neg (by simpa using same)]
      exact ih later

theorem filter_of_distinct (distinct : fields.Distinct) (name : String) :
    (slotOf name fields = .absent ∧ fields.filter (·.1 == name) = []) ∨
    ∃ value, slotOf name fields = .given value ∧
      fields.filter (·.1 == name) = [(name, value)] := by
  induction fields with
  | nil => exact .inl ⟨rfl, rfl⟩
  | cons field rest ih =>
    obtain ⟨k, v⟩ := field
    obtain ⟨new, distinct⟩ := List.nodup_cons.mp distinct
    by_cases same : k = name
    · subst same
      have none : rest.filter (·.1 == k) = [] := by
        rw [List.filter_eq_nil_iff]
        intro f hf he
        exact new (List.mem_map.mpr ⟨f, hf, beq_iff_eq.mp he⟩)
      exact .inr ⟨v, by simp [slotOf], by simp [none]⟩
    · simpa [slotOf, same] using ih distinct

theorem filter_perm (distinct : fields.Distinct) (perm : l.Perm fields) (name : String) :
    l.filter (·.1 == name) = fields.filter (·.1 == name) := by
  have filtered := perm.filter (·.1 == name)
  rcases filter_of_distinct distinct name with ⟨-, he⟩ | ⟨value, -, he⟩ <;> rw [he] at filtered ⊢
  · exact filtered.eq_nil
  · exact filtered.eq_singleton

/-! ## Records -/

/-- The value is the object of some fields, in an order of its own. -/
def Holds (j : Json) (fields : Fields) : Prop :=
  fields.Distinct ∧ ∃ l, j = .object l ∧ l.Perm fields

variable {j : Json} {text : String} {decode : Json → Option α} {encode : α → Json}

theorem record_holds (distinct : fields.Distinct) : (record fields).Holds fields :=
  ⟨distinct, _, rfl, canonical_perm distinct⟩

/-- Under each name the slots of the object have what is found there. -/
theorem Holds.slots? (held : j.Holds fields) (names : List String) :
    ∃ slots, j.slots? names = some slots ∧
      ∀ name ∈ names, slots.get name = slotOf name fields := by
  obtain ⟨distinct, l, rfl, perm⟩ := held
  refine ⟨names.map fun name => (name, slotOf name fields), ?_, fun _ => get_map⟩
  unfold Json.slots?
  dsimp only
  induction names with
  | nil => rfl
  | cons name rest ih =>
    rw [List.mapM_cons, ih, filter_perm distinct perm]
    rcases filter_of_distinct distinct name with ⟨hs, he⟩ | ⟨value, hs, he⟩ <;>
      simp [hs, he]

theorem slotOf_of_mem (distinct : fields.Distinct) (mem : (name, value) ∈ fields) :
    slotOf name fields = .given value := by
  induction fields with
  | nil => cases mem
  | cons field rest ih =>
    obtain ⟨new, distinct⟩ := List.nodup_cons.mp distinct
    rcases List.mem_cons.mp mem with rfl | mem
    · exact if_pos rfl
    · have other : field.1 ≠ name := fun same =>
        new (List.mem_map.mpr ⟨(name, value), mem, same.symm⟩)
      exact (if_neg other).trans (ih distinct mem)

/-- A record that declares just the fields of the object has all their values. -/
theorem Holds.all_slots? (held : j.Holds fields) :
    ∃ slots, j.slots? (fields.map Prod.fst) = some slots ∧
      ∀ field ∈ fields, slots.get field.1 = .given field.2 := by
  obtain ⟨slots, hs, found⟩ := held.slots? (fields.map Prod.fst)
  refine ⟨slots, hs, fun field mem => ?_⟩
  rw [found _ (List.mem_map_of_mem mem), slotOf_of_mem held.1 mem]

/-- A tag is taken off, and the other fields are left. -/
theorem Holds.tagged? (held : j.Holds ((tag, .string text) :: fields)) :
    ∃ rest, j.tagged? tag = some (text, rest) ∧ rest.Holds fields := by
  obtain ⟨distinct, l, rfl, perm⟩ := held
  have new : tag ∉ fields.map Prod.fst := (List.nodup_cons.mp distinct).1
  have single : l.filter (·.1 == tag) = [(tag, .string text)] := by
    rw [filter_perm distinct perm]
    rcases filter_of_distinct distinct tag with ⟨hs, -⟩ | ⟨value, hs, he⟩
    · simp [slotOf] at hs
    · rw [he]
      simp only [slotOf, if_true, Slot.given.injEq] at hs
      rw [hs]
  refine ⟨.object (l.filter (·.1 != tag)), ?_, (List.nodup_cons.mp distinct).2, _, rfl, ?_⟩
  · simp only [Json.tagged?, single]
  · refine (perm.filter _).trans (.of_eq ?_)
    rw [List.filter_cons_of_neg (by simp), List.filter_eq_self]
    intro f hf
    exact bne_iff_ne.mpr fun he => new (List.mem_map.mpr ⟨f, hf, he⟩)

/-- The fields of a union are found next to its tag. -/
theorem Holds.union? (held : j.Holds ((tag, .string text) :: fields)) (names : List String) :
    ∃ rest slots, j.tagged? tag = some (text, rest) ∧ rest.slots? names = some slots ∧
      ∀ name ∈ names, slots.get name = slotOf name fields := by
  obtain ⟨rest, he, held⟩ := held.tagged?
  obtain ⟨slots, hs, found⟩ := held.slots? names
  exact ⟨rest, slots, he, hs, found⟩

theorem record_union? (tag text : String) (fields : Fields) (names : List String)
    (distinct : Fields.Distinct ((tag, .string text) :: fields)) :
    ∃ rest slots, (record ((tag, .string text) :: fields)).tagged? tag = some (text, rest) ∧
      rest.slots? names = some slots ∧ ∀ name ∈ names, slots.get name = slotOf name fields :=
  (record_holds distinct).union? names

theorem record_unit? (tag text : String) (a : α) :
    ∃ rest, (record [(tag, .string text)]).tagged? tag = some (text, rest) ∧
      unit? a rest = some a := by
  have held : (record [(tag, .string text)]).Holds _ := record_holds (by simp)
  obtain ⟨rest, he, -, l, rfl, -⟩ := held.tagged?
  exact ⟨_, he, rfl⟩

/-! ## Nesting -/

theorem depth_le_of_mem_items {items : List Json} (h : j ∈ items) :
    depth j ≤ depthOfItems items := by
  induction items with
  | nil => cases h
  | cons item rest ih =>
    rcases List.mem_cons.mp h with rfl | h
    · exact Nat.le_max_left ..
    · exact Nat.le_trans (ih h) (Nat.le_max_right ..)

theorem depth_le_of_mem_fields (h : (name, j) ∈ fields) : depth j ≤ depthOfFields fields := by
  induction fields with
  | nil => cases h
  | cons field rest ih =>
    rcases List.mem_cons.mp h with rfl | h
    · exact Nat.le_max_left ..
    · exact Nat.le_trans (ih h) (Nat.le_max_right ..)

theorem depth_lt_record (distinct : fields.Distinct) {field : String × Json}
    (h : field ∈ fields) : depth field.2 < depth (record fields) :=
  Nat.lt_succ_of_le (depth_le_of_mem_fields ((canonical_perm distinct).mem_iff.mpr h))

/-! ## Values of fields -/

theorem asNat?_nat {bound n : Nat} (below : n < bound) : asNat? bound (.nat n) = some n := by
  simp [asNat?, asInt?, Json.nat, below]

theorem asWord32?_nat {n : Nat} (below : n < twoTo 32) : asWord32? (.nat n) = some n :=
  asNat?_nat below

theorem asWord64?_nat {n : Nat} (below : n < twoTo 64) : asWord64? (.nat n) = some n :=
  asNat?_nat below

theorem asInteger?_int {n : Int} (least : -(twoTo 63 : Int) ≤ n) (below : n < twoTo 63) :
    asInteger? (.int n) = some n := by
  have within : -(twoTo 63 : Int) ≤ n ∧ n < twoTo 63 := ⟨least, below⟩
  simp only [asInteger?, asInt?, Json.int, Option.bind_eq_bind, Option.bind_some, if_pos within]

theorem asOption?_ofOption {o : Option α}
    (reads : ∀ a ∈ o, encode a ≠ .null ∧ decode (encode a) = some a) :
    asOption? decode (ofOption encode o) = some o := by
  cases o with
  | none => rfl
  | some a =>
    obtain ⟨given, read⟩ := reads a rfl
    rw [ofOption, asOption?, read]
    · rfl
    · exact given

theorem asOption?_string (o : Option String) :
    asOption? asString? (ofOption .string o) = some o :=
  asOption?_ofOption fun _ _ => ⟨by simp, rfl⟩

theorem asOption?_word64 {o : Option Nat} (below : ∀ n ∈ o, n < twoTo 64) :
    asOption? asWord64? (ofOption .nat o) = some o :=
  asOption?_ofOption fun n hn => ⟨by simp [Json.nat], asWord64?_nat (below n hn)⟩

theorem asList?_map {l : List α} (reads : ∀ a ∈ l, decode (encode a) = some a) :
    asList? decode (.array (l.map encode)) = some l := by
  simp only [asList?, asItems?, Option.bind_some]
  induction l with
  | nil => rfl
  | cons a rest ih =>
    obtain ⟨first, reads⟩ := List.forall_mem_cons.mp reads
    simp [first, ih reads]

/-! ## Decoding field by field -/

theorem bind_of_some {b : β} {x : Option α} {a : α} {next : α → Option β} (found : x = some a)
    (goes_on : next a = some b) : (x >>= next) = some b :=
  Option.bind_eq_some_iff.mpr ⟨a, found, goes_on⟩

namespace Slots

variable {slots : Slots} {a : α} {o : Option α} {default : α}

theorem required_of (found : slots.get name = .given value) (reads : decode value = some a) :
    slots.required name decode = some a := by
  rw [required, found]
  exact reads

theorem withDefault_of (found : slots.get name = .given value) (reads : decode value = some a) :
    slots.withDefault name decode default = some a := by
  rw [withDefault, found]
  exact reads

theorem nullable_of (found : slots.get name = .given value)
    (reads : asOption? decode value = some o) : slots.nullable name decode = some o :=
  withDefault_of found reads

theorem optional_of (found : slots.get name = .given value)
    (reads : asOption? decode value = some o) : slots.optional name decode = some o := by
  rw [optional, found]
  exact reads

end Slots

/-! ## What is decoded -/

/-- Whatever is decoded has the property. -/
def Yields (decode : Json → Option α) (p : α → Prop) : Prop := ∀ j a, decode j = some a → p a

variable {p : α → Prop} {slots : Slots} {a : α}

theorem eq_of_unit? {b : α} (h : unit? a j = some b) : b = a := by
  simp only [unit?, Option.ite_none_right_eq_some] at h
  exact (Option.some.inj h.2).symm

theorem yields_nat (bound : Nat) : Yields (asNat? bound) (· < bound) := by
  intro j n h
  simp only [asNat?, Option.bind_eq_bind, Option.bind_eq_some_iff] at h
  obtain ⟨i, -, h⟩ := h
  split at h
  · cases h
    omega
  · cases h

theorem yields_word32 : Yields asWord32? (· < twoTo 32) := yields_nat _

theorem yields_word64 : Yields asWord64? (· < twoTo 64) := yields_nat _

theorem yields_integer : Yields asInteger? fun n => -(twoTo 63 : Int) ≤ n ∧ n < twoTo 63 := by
  intro j n h
  simp only [asInteger?, Option.bind_eq_bind, Option.bind_eq_some_iff] at h
  obtain ⟨i, -, h⟩ := h
  split at h
  · cases h
    assumption
  · cases h

namespace Yields

theorem list (yields : Yields decode p) : Yields (asList? decode) fun l => ∀ a ∈ l, p a := by
  intro j l h
  simp only [asList?, Option.bind_eq_some_iff] at h
  obtain ⟨items, -, h⟩ := h
  induction items generalizing l with
  | nil => cases h; simp
  | cons item rest ih =>
    simp only [List.mapM_cons, Option.bind_eq_bind, Option.bind_eq_some_iff] at h
    obtain ⟨a, ha, rest, hr, ⟨⟩⟩ := h
    exact List.forall_mem_cons.mpr ⟨yields _ _ ha, ih _ hr⟩

theorem option (yields : Yields decode p) : Yields (asOption? decode) fun o => ∀ a ∈ o, p a := by
  intro j o h
  unfold asOption? at h
  split at h
  · cases h
    simp
  · obtain ⟨a, ha, rfl⟩ := Option.map_eq_some_iff.mp h
    rintro _ ⟨⟩
    exact yields _ _ ha

theorem required (yields : Yields decode p) (h : slots.required name decode = some a) : p a := by
  unfold Slots.required at h
  split at h
  · exact yields _ _ h
  · cases h

theorem withDefault (yields : Yields decode p) {default : α}
    (h : slots.withDefault name decode default = some a) (usual : p default) : p a := by
  unfold Slots.withDefault at h
  split at h
  · exact yields _ _ h
  · cases h
    exact usual

theorem nullable (yields : Yields decode p) {o : Option α}
    (h : slots.nullable name decode = some o) : ∀ a ∈ o, p a :=
  yields.option.withDefault h (by simp)

theorem optional (yields : Yields decode p) {o : Option α}
    (h : slots.optional name decode = some o) : ∀ a ∈ o, p a := by
  unfold Slots.optional at h
  split at h
  · exact yields.option _ _ h
  · cases h
    simp
  · cases h

end Yields

end Json

end Engagement
