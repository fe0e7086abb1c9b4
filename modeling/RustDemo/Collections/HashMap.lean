import Mathlib.Data.List.AList

/-!
# Hash maps and hash sets

A hash map is an association list without repeated keys, a hash set a hash map
to the unit type.  The list order stands for the unspecified iteration order;
no result below depends on it.
-/

namespace RustDemo.Collections

abbrev HashMap (κ α : Type) := AList fun _ : κ => α

abbrev HashSet (κ : Type) := HashMap κ Unit

namespace HashMap

variable {κ α β : Type} [DecidableEq κ]

theorem lookup_insert (map : HashMap κ α) (key other : κ) (value : α) :
    (map.insert key value).lookup other = if other = key then some value else map.lookup other := by
  split
  · rename_i same
    rw [same]
    exact AList.lookup_insert map
  · rename_i different
    exact AList.lookup_insert_ne different

theorem lookup_erase (map : HashMap κ α) (key other : κ) :
    (map.erase key).lookup other = if other = key then none else map.lookup other := by
  split
  · rename_i same
    rw [same]
    exact AList.lookup_erase key map
  · rename_i different
    exact AList.lookup_erase_ne different

theorem lookup_singleton (key other : κ) (value : α) :
    (AList.singleton key value : HashMap κ α).lookup other =
      if other = key then some value else none := by
  rw [← AList.insert_empty, lookup_insert, AList.lookup_empty]

theorem mem_iff_lookup (map : HashMap κ α) (key : κ) :
    key ∈ map ↔ ∃ value, map.lookup key = some value := by
  rw [← AList.lookup_isSome, Option.isSome_iff_exists]

theorem mem_entries_iff (map : HashMap κ α) (key : κ) (value : α) :
    (⟨key, value⟩ : Sigma fun _ : κ => α) ∈ map.entries ↔ map.lookup key = some value :=
  AList.mem_lookup_iff.symm.trans Option.mem_def

/-- Where every key is a function of its value, no value has two keys. -/
theorem values_nodup (key : α → κ) (map : HashMap κ α)
    (own : ∀ other value, map.lookup other = some value → key value = other) :
    (map.entries.map Sigma.snd).Nodup := by
  apply List.Nodup.map_on _ map.nodupKeys.nodup
  rintro ⟨first, value⟩ firstThere ⟨second, _⟩ secondThere ⟨⟩
  have firstOwn := own first value ((mem_entries_iff _ _ _).mp firstThere)
  have secondOwn := own second value ((mem_entries_iff _ _ _).mp secondThere)
  rw [← firstOwn, ← secondOwn]

def mapValues (f : κ → α → β) (map : HashMap κ α) : HashMap κ β where
  entries := map.entries.map fun entry => ⟨entry.1, f entry.1 entry.2⟩
  nodupKeys := by
    have keys : (map.entries.map fun entry => (⟨entry.1, f entry.1 entry.2⟩ :
        Sigma fun _ : κ => β)).keys = map.entries.keys := by
      simp [List.keys]
    unfold List.NodupKeys
    rw [keys]
    exact map.nodupKeys

omit [DecidableEq κ] in
theorem keys_mapValues (f : κ → α → β) (map : HashMap κ α) :
    AList.keys (mapValues f map) = map.keys := by
  simp [AList.keys, mapValues, List.keys]

theorem lookup_mapValues (f : κ → α → β) (map : HashMap κ α) (key : κ) :
    AList.lookup key (mapValues f map) = (map.lookup key).map (f key) := by
  cases found : map.lookup key with
  | none =>
      rw [AList.lookup_eq_none, AList.mem_keys] at found
      rw [Option.map_none, AList.lookup_eq_none, AList.mem_keys, keys_mapValues]
      exact found
  | some value =>
      rw [Option.map_some, ← mem_entries_iff]
      exact List.mem_map.mpr ⟨⟨key, value⟩, (mem_entries_iff map key value).mpr found, rfl⟩

def keysWhere (test : κ → α → Bool) (map : HashMap κ α) : List κ :=
  (map.entries.filter fun entry => test entry.1 entry.2).map Sigma.fst

theorem mem_keysWhere (test : κ → α → Bool) (map : HashMap κ α) (key : κ) :
    key ∈ keysWhere test map ↔ ∃ value, map.lookup key = some value ∧ test key value = true := by
  simp only [keysWhere, List.mem_map, List.mem_filter]
  constructor
  · rintro ⟨⟨found, value⟩, ⟨listed, passed⟩, rfl⟩
    exact ⟨value, (mem_entries_iff map found value).mp listed, passed⟩
  · rintro ⟨value, found, passed⟩
    exact ⟨⟨key, value⟩, ⟨(mem_entries_iff map key value).mpr found, passed⟩, rfl⟩

omit [DecidableEq κ] in
theorem keysWhere_nodup (test : κ → α → Bool) (map : HashMap κ α) :
    (keysWhere test map).Nodup :=
  map.keys_nodup.sublist (List.Sublist.map Sigma.fst List.filter_sublist)

end HashMap

end RustDemo.Collections
