import IgnoreRules.ErrorReport.Basic
import IgnoreRules.Proofs.Json.Record
import Mathlib.Data.List.Perm.Basic

/-! # Details of an error report

Details are a finite map: what has been added under a name last is what the name has, and two maps
that give the same details to all names are the same, however they have come about.
-/

namespace IgnoreRules

namespace Metadata

variable {metadata metadata' : Metadata} {key value name : String}
  {details details' : List (String × String)}

theorem nodup_keys (metadata : Metadata) : (metadata.entries.map (·.1)).Nodup :=
  List.pairwise_map.mpr (metadata.ordered.imp fun h => Std.ne_of_lt h)

theorem get?_eq_some_iff : metadata.get? key = some value ↔ (key, value) ∈ metadata.entries :=
  Json.lookup_eq_some_iff (Json.nodup_iff_countP_le_one.mp metadata.nodup_keys key)

/-- Details are the same if all names have the same. -/
theorem ext_get? (h : ∀ key, metadata.get? key = metadata'.get? key) : metadata = metadata' := by
  have hmem : ∀ entry, entry ∈ metadata.entries ↔ entry ∈ metadata'.entries := fun entry => by
    rw [← get?_eq_some_iff, ← get?_eq_some_iff, h]
  have hperm : metadata.entries.Perm metadata'.entries :=
    (List.perm_ext_iff_of_nodup metadata.nodup_keys.of_map metadata'.nodup_keys.of_map).mpr hmem
  -- Two arrangements of the same entries by their names cannot differ.
  have hentries : metadata.entries = metadata'.entries := by
    refine hperm.eq_of_pairwise (fun a b _ _ hab hba => ?_) metadata.ordered metadata'.ordered
    exact absurd (String.lt_trans hab hba) (String.lt_irrefl _)
  cases metadata
  cases metadata'
  simp_all

theorem eq_empty_of_isEmpty (h : metadata.entries.isEmpty = true) : metadata = empty :=
  ext_get? fun key => by rw [get?, List.isEmpty_iff.mp h]; rfl

theorem lookup_cons (key value name : String) (entries : List (String × String)) :
    ((key, value) :: entries).lookup name =
      if name = key then some value else entries.lookup name := by
  by_cases h : name = key
  · simp [h]
  · simp [List.lookup_cons, beq_false_of_ne h, h]

theorem lookup_insertEntry (key value name : String) (entries : List (String × String)) :
    (insertEntry key value entries).lookup name =
      if name = key then some value else entries.lookup name := by
  induction entries with
  | nil => rw [insertEntry, lookup_cons]
  | cons entry entries ih =>
    obtain ⟨k, v⟩ := entry
    rw [insertEntry]
    split
    · rw [lookup_cons]
    split
    · next hsame =>
      subst hsame
      rw [lookup_cons, lookup_cons]
      split <;> rfl
    · next hother =>
      rw [lookup_cons, ih, lookup_cons]
      by_cases hname : name = k
      · rw [if_pos hname, if_neg fun hkey => hother (hkey.symm.trans hname), if_pos hname]
      · rw [if_neg hname, if_neg hname]

theorem get?_insert (metadata : Metadata) (key value name : String) :
    (metadata.insert key value).get? name =
      if name = key then some value else metadata.get? name :=
  lookup_insertEntry key value name metadata.entries

def insertAll (metadata : Metadata) (details : List (String × String)) : Metadata :=
  details.foldl (fun metadata detail => metadata.insert detail.1 detail.2) metadata

/-- The last of the details that are added under a name is what it has; other names keep theirs. -/
theorem get?_insertAll (metadata : Metadata) (details : List (String × String)) (name : String) :
    (metadata.insertAll details).get? name =
      (details.reverse.lookup name).or (metadata.get? name) := by
  induction details generalizing metadata with
  | nil => rfl
  | cons detail details ih =>
    rw [insertAll, List.foldl_cons, ← insertAll, ih, get?_insert, List.reverse_cons,
      List.lookup_append, Option.or_assoc, lookup_cons]
    split <;> rfl

/-- What has been added depends on the last detail of each name only. -/
theorem insertAll_congr
    (h : ∀ name, details.reverse.lookup name = details'.reverse.lookup name) :
    metadata.insertAll details = metadata.insertAll details' :=
  ext_get? fun name => by rw [get?_insertAll, get?_insertAll, h]

theorem lookup_eq_of_perm (hperm : details.Perm details') (hnodup : (details.map (·.1)).Nodup)
    (name : String) : details.lookup name = details'.lookup name := by
  have hnodup' := (hperm.map (·.1)).nodup_iff.mp hnodup
  refine Option.ext fun value => ?_
  rw [Json.lookup_eq_some_iff (Json.nodup_iff_countP_le_one.mp hnodup name),
    Json.lookup_eq_some_iff (Json.nodup_iff_countP_le_one.mp hnodup' name), hperm.mem_iff]

/-- The order in which details of different names are added does not matter. -/
theorem insertAll_perm (hperm : details.Perm details') (hnodup : (details.map (·.1)).Nodup) :
    metadata.insertAll details = metadata.insertAll details' := by
  refine insertAll_congr fun name => ?_
  have hreverse : details.reverse.Perm details'.reverse :=
    details.reverse_perm.trans (hperm.trans details'.reverse_perm.symm)
  exact lookup_eq_of_perm hreverse ((details.reverse_perm.map (·.1)).nodup_iff.mpr hnodup) name

/-- A map is rebuilt from its entries. -/
theorem insertAll_entries (metadata : Metadata) : empty.insertAll metadata.entries = metadata := by
  refine ext_get? fun name => ?_
  have hnone : empty.get? name = none := rfl
  rw [get?_insertAll, hnone, Option.or_none, get?,
    lookup_eq_of_perm metadata.entries.reverse_perm.symm metadata.nodup_keys]

end Metadata

end IgnoreRules
