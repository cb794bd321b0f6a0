import IgnoreRules.Json.Record
import Mathlib.Data.List.Nodup
import Mathlib.Data.List.Perm.Basic

/-! # Fields of a record

What a record has for a field is what its document gives that field, as a member or in the place
that belongs to it.
-/

namespace IgnoreRules.Json

/-- The document gives the field this value: in an object as a member with its name, and in an array
in its place. -/
def Gives (json : Json) (names : List String) (name : String) (value : Json) : Prop :=
  match json with
  | .object members => (name, value) ∈ members
  | .array items => items[names.idxOf name]? = some value
  | _ => False

section

variable {α : Type*} {entries : List (String × α)} {name : String} {value : α}

theorem notMem_of_countP_eq_zero (h : entries.countP (·.1 = name) = 0) :
    (name, value) ∉ entries := by
  intro hmem
  have hnone := List.countP_eq_zero.mp h (name, value) hmem
  simp at hnone

/-- A name that is not repeated has the value of its only entry. -/
theorem lookup_eq_some_iff (h : entries.countP (·.1 = name) ≤ 1) :
    List.lookup name entries = some value ↔ (name, value) ∈ entries := by
  induction entries with
  | nil => simp
  | cons entry entries ih =>
    obtain ⟨other, first⟩ := entry
    rw [List.countP_cons] at h
    by_cases hname : other = name
    · have hnone : (name, value) ∉ entries :=
        notMem_of_countP_eq_zero (by simpa [hname] using h)
      subst hname
      simp [List.lookup_cons_self, hnone, eq_comm]
    · have hkey : (name == other) = false := by simpa using Ne.symm hname
      rw [List.lookup_cons, hkey, ih (by simpa [hname] using h)]
      simp [Ne.symm hname]

theorem nodup_iff_countP_le_one :
    (entries.map (·.1)).Nodup ↔ ∀ name, entries.countP (·.1 = name) ≤ 1 := by
  rw [List.nodup_iff_count_le_one]
  refine forall_congr' fun name => ?_
  rw [List.count, List.countP_map]
  rfl

end

variable {unknown : UnknownMembers} {names : List String} {name : String}
  {members : List (String × Json)} {json value : Json} {fields : List (Option Json)}
  {values : List Json}

/-- An object is a record exactly if no field is given twice and, where other names are refused, it
has none. -/
theorem fields?_object_eq_some_iff :
    fields? unknown names (.object members) = some fields ↔
      (∀ name ∈ names, occurrences members name ≤ 1) ∧
        (unknown = .refused → ∀ member ∈ members, member.1 ∈ names) ∧
        names.map (fun name => List.lookup name members) = fields := by
  have htwice : (names.any fun name => 1 < occurrences members name) = true ↔
      ¬ ∀ name ∈ names, occurrences members name ≤ 1 := by
    simp
  have hother : (decide (unknown = .refused) &&
      members.any fun member => !names.contains member.1) = true ↔
        ¬ (unknown = .refused → ∀ member ∈ members, member.1 ∈ names) := by
    simp
  simp only [fields?, htwice, hother]
  split
  · next hrepeated => exact iff_of_false (by simp) fun h => hrepeated h.1
  · next honce =>
    split
    · next hunknown => exact iff_of_false (by simp) fun h => hunknown h.2.1
    · next hknown =>
      rw [Option.some_inj, and_iff_right (not_not.mp honce), and_iff_right (not_not.mp hknown)]

def leading (names : List String) (values : List Json) : List (Option Json) :=
  values.map some ++ List.replicate (names.length - values.length) none

theorem getElem?_leading (h : values.length ≤ names.length) {i : ℕ} (hi : i < names.length) :
    (leading names values)[i]? = some values[i]? := by
  rw [leading, List.getElem?_append, List.getElem?_map, List.getElem?_replicate, List.length_map]
  split
  · next hvalue => simp [hvalue]
  · next hnone =>
    rw [if_pos (by omega), List.getElem?_eq_none (Nat.not_lt.mp hnone)]

theorem getElem?_fields?_eq_some_iff (hfields : json.fields? unknown names = some fields)
    (hname : name ∈ names) :
    fields[names.idxOf name]? = some (some value) ↔ json.Gives names name value := by
  cases json with
  | object members =>
    obtain ⟨honce, -, rfl⟩ := fields?_object_eq_some_iff.mp hfields
    rw [List.getElem?_map, List.getElem?_idxOf hname]
    simp [Gives, lookup_eq_some_iff (honce name hname)]
  | array items =>
    rw [fields?] at hfields
    split at hfields
    · cases hfields
    · next hlength =>
      obtain rfl := Option.some.inj hfields
      rw [← leading, getElem?_leading (Nat.not_lt.mp hlength) (List.idxOf_lt_length_iff.mpr hname),
        Option.some_inj, Gives]
  | _ => cases hfields

/-! ## Written records -/

/-- The document is a record with these values for the first fields and none for the others: it
lists the values, or it is an object with a member for each of them, in whatever order, among
members of other names. -/
inductive IsRecord (names : List String) (values : List Json) : Json → Prop
  | array : IsRecord names values (.array values)
  | object {members : List (String × Json)}
    (h : (members.filter (·.1 ∈ names)).Perm (names.zip values)) :
    IsRecord names values (.object members)

theorem mem_zip_iff_getElem? {α β : Type*} {as : List α} {bs : List β} {a : α} {b : β} :
    (a, b) ∈ as.zip bs ↔ ∃ i : ℕ, as[i]? = some a ∧ bs[i]? = some b := by
  simp only [List.mem_iff_getElem?, List.getElem?_zip_eq_some]

theorem nodup_map_fst_zip {α β : Type*} {as : List α} (h : as.Nodup) (bs : List β) :
    ((as.zip bs).map (·.1)).Nodup := by
  induction as generalizing bs with
  | nil => simp
  | cons a as ih =>
    cases bs with
    | nil => simp
    | cons b bs =>
      obtain ⟨ha, has⟩ := List.nodup_cons.mp h
      rw [List.zip_cons_cons, List.map_cons, List.nodup_cons]
      refine ⟨fun hmem => ha ?_, ih has bs⟩
      obtain ⟨pair, hpair, rfl⟩ := List.mem_map.mp hmem
      exact (List.of_mem_zip hpair).1

theorem countP_filter_mem (names : List String) (members : List (String × Json)) (name : String) :
    (members.filter (·.1 ∈ names)).countP (·.1 = name) =
      if name ∈ names then occurrences members name else 0 := by
  rw [List.countP_filter]
  split
  · next hname =>
    refine List.countP_congr fun member _ => ?_
    simp only [Bool.and_eq_true, decide_eq_true_eq]
    exact ⟨fun h => h.1, fun h => ⟨h, h ▸ hname⟩⟩
  · next hname =>
    refine List.countP_eq_zero.mpr fun member _ h => hname ?_
    simp only [Bool.and_eq_true, decide_eq_true_eq] at h
    exact h.1 ▸ h.2

theorem nodup_filter_mem_iff :
    ((members.filter (·.1 ∈ names)).map (·.1)).Nodup ↔
      ∀ name ∈ names, occurrences members name ≤ 1 := by
  rw [nodup_iff_countP_le_one]
  simp only [countP_filter_mem]
  refine forall_congr' fun name => ?_
  by_cases hname : name ∈ names <;> simp [hname]

theorem filterMap_leading (names : List String) (values : List Json) :
    (leading names values).filterMap id = values := by
  simp [leading, List.filterMap_append, List.filterMap_map]

theorem map_eq_leading_iff {read : String → Option Json} (h : values.length ≤ names.length) :
    names.map read = leading names values ↔
      ∀ (i : ℕ) (name : String), names[i]? = some name → read name = values[i]? := by
  have hbound : ∀ (i : ℕ) (name : String), names[i]? = some name → i < names.length :=
    fun i name hname => (List.getElem?_eq_some_iff.mp hname).1
  rw [List.ext_getElem?_iff]
  constructor
  · intro hsame i name hname
    have hi := hsame i
    rw [List.getElem?_map, hname, getElem?_leading h (hbound i name hname)] at hi
    exact Option.some.inj hi
  · intro hread i
    by_cases hi : i < names.length
    · rw [getElem?_leading h hi, List.getElem?_map, List.getElem?_eq_getElem hi, Option.map_some,
        hread i _ (List.getElem?_eq_getElem hi)]
    · have hlength : (leading names values).length = names.length := by
        simp [leading]
        omega
      rw [List.getElem?_eq_none (by simpa using hi), List.getElem?_eq_none (by omega)]

theorem fields?_object_eq_leading_iff (hnodup : names.Nodup)
    (hlength : values.length ≤ names.length) :
    fields? .ignored names (.object members) = some (leading names values) ↔
      (members.filter (·.1 ∈ names)).Perm (names.zip values) := by
  have hzip := nodup_map_fst_zip hnodup values
  have hsame : (∀ name ∈ names, occurrences members name ≤ 1) →
      (names.map (fun name => List.lookup name members) = leading names values ↔
        ∀ member, member ∈ members.filter (·.1 ∈ names) ↔ member ∈ names.zip values) := by
    intro honce
    simp only [map_eq_leading_iff hlength, Prod.forall, mem_zip_iff_getElem?, List.mem_filter,
      decide_eq_true_eq]
    constructor
    · intro h name value
      constructor
      · rintro ⟨hmember, hname⟩
        obtain ⟨i, hi⟩ := List.mem_iff_getElem?.mp hname
        exact ⟨i, hi, h i name hi ▸ (lookup_eq_some_iff (honce name hname)).mpr hmember⟩
      · rintro ⟨i, hi, hvalue⟩
        have hname := List.mem_of_getElem? hi
        exact ⟨(lookup_eq_some_iff (honce name hname)).mp (h i name hi ▸ hvalue), hname⟩
    · intro h i name hi
      have hname := List.mem_of_getElem? hi
      refine Option.ext fun value => ?_
      have hmember := h name value
      rw [and_iff_left hname] at hmember
      rw [lookup_eq_some_iff (honce name hname), hmember]
      constructor
      · rintro ⟨j, hj, hvalue⟩
        have hbound := (List.getElem?_eq_some_iff.mp hj).1
        have hij := (List.getElem?_inj hbound hnodup).mp (hj.trans hi.symm)
        exact hij ▸ hvalue
      · exact fun hvalue => ⟨i, hi, hvalue⟩
  rw [fields?_object_eq_some_iff]
  constructor
  · rintro ⟨honce, -, hlookup⟩
    exact (List.perm_ext_iff_of_nodup (nodup_filter_mem_iff.mpr honce).of_map hzip.of_map).mpr
      ((hsame honce).mp hlookup)
  · intro hperm
    have honce := nodup_filter_mem_iff.mp ((hperm.map (·.1)).nodup_iff.mpr hzip)
    exact ⟨honce, by simp, (hsame honce).mpr fun member => hperm.mem_iff⟩

/-- The fields of a record are read exactly from what is written as one. -/
theorem fields?_eq_leading_iff (hnodup : names.Nodup) (hlength : values.length ≤ names.length) :
    json.fields? .ignored names = some (leading names values) ↔ json.IsRecord names values := by
  cases json with
  | object members =>
    rw [fields?_object_eq_leading_iff hnodup hlength]
    exact ⟨.object, fun h => by cases h; assumption⟩
  | array items =>
    constructor
    · intro h
      have hitems : leading names items = leading names values := by
        simp only [fields?] at h
        split at h
        · cases h
        · exact Option.some.inj h
      rw [← filterMap_leading names values, ← hitems, filterMap_leading]
      exact .array
    · intro h
      cases h
      simp [fields?, leading, hlength]
  | _ => exact ⟨nofun, nofun⟩

/-! ## Choices -/

/-- The value names a choice: as a string, or as the only member of an object, with null for its
value. -/
inductive IsChoice (name : String) : Json → Prop
  | string : IsChoice name (.string name)
  | member : IsChoice name (.object [(name, .null)])

theorem label?_eq_some_iff : json.label? = some name ↔ json.IsChoice name := by
  constructor
  · intro h
    unfold label? at h
    split at h
    · obtain rfl := Option.some.inj h
      exact .string
    · obtain rfl := Option.some.inj h
      exact .member
    · cases h
  · rintro (_ | _) <;> rfl

end IgnoreRules.Json
