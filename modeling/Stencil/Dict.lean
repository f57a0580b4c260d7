set_option autoImplicit false

/-!
# Dictionaries in insertion order

A write to a key that is present changes its value in place; a new key goes to the end.
The operations never introduce a second entry for a key.
-/
namespace Stencil

structure Dict (α : Type) where
  entries : List (String × α) := []
  deriving Repr, DecidableEq

namespace Dict
variable {α : Type}

def keys (d : Dict α) : List String := d.entries.map Prod.fst

def values (d : Dict α) : List α := d.entries.map Prod.snd

def size (d : Dict α) : Nat := d.entries.length

def isEmpty (d : Dict α) : Bool := d.entries.isEmpty

def firstEntry (key : String) : List (String × α) → Option α
  | [] => none
  | (k, v) :: rest => if k = key then some v else firstEntry key rest

def get? (d : Dict α) (key : String) : Option α := firstEntry key d.entries

def insertEntry (key : String) (value : α) : List (String × α) → List (String × α)
  | [] => [(key, value)]
  | (k, v) :: rest =>
    if k = key then (k, value) :: rest else (k, v) :: insertEntry key value rest

def insert (d : Dict α) (key : String) (value : α) : Dict α :=
  ⟨insertEntry key value d.entries⟩

def erase (d : Dict α) (key : String) : Dict α :=
  ⟨d.entries.filter (fun entry => entry.1 ≠ key)⟩

def extend (d : Dict α) (entries : List (String × α)) : Dict α :=
  entries.foldl (fun d entry => d.insert entry.1 entry.2) d

/-- Of two entries with one key the later value stays, at the place of the earlier. -/
def ofList (entries : List (String × α)) : Dict α := extend ⟨[]⟩ entries

def Distinct (d : Dict α) : Prop := d.keys.Nodup

theorem firstEntry_insertEntry (key other : String) (value : α) (entries : List (String × α)) :
    firstEntry other (insertEntry key value entries) =
      if key = other then some value else firstEntry other entries := by
  induction entries with
  | nil => rfl
  | cons entry rest ih =>
    obtain ⟨k, v⟩ := entry
    by_cases hk : k = key
    · subst hk
      by_cases h : k = other <;> simp [insertEntry, firstEntry, h]
    · by_cases h : k = other
      · subst h
        simp [insertEntry, firstEntry, hk, Ne.symm hk]
      · simp [insertEntry, firstEntry, hk, h, ih]

theorem get?_insert (d : Dict α) (key other : String) (value : α) :
    (d.insert key value).get? other = if key = other then some value else d.get? other :=
  firstEntry_insertEntry key other value d.entries

theorem mem_of_firstEntry {key : String} {v : α} {entries : List (String × α)}
    (h : firstEntry key entries = some v) : (key, v) ∈ entries := by
  induction entries with
  | nil => cases h
  | cons entry rest ih =>
    obtain ⟨k, w⟩ := entry
    rw [firstEntry] at h
    split at h
    · next hk =>
      cases h
      rw [hk]
      exact List.mem_cons_self
    · exact List.mem_cons_of_mem _ (ih h)

theorem firstEntry_of_mem {key : String} {v : α} {entries : List (String × α)}
    (h : (entries.map Prod.fst).Nodup) (hmem : (key, v) ∈ entries) :
    firstEntry key entries = some v := by
  induction entries with
  | nil => cases hmem
  | cons entry rest ih =>
    rw [List.map_cons, List.nodup_cons] at h
    rw [firstEntry]
    rcases List.mem_cons.1 hmem with rfl | hmem
    · rw [if_pos rfl]
    · rw [if_neg, ih h.2 hmem]
      rintro rfl
      exact h.1 (List.mem_map.2 ⟨_, hmem, rfl⟩)

theorem firstEntry_eq_none {key : String} {entries : List (String × α)}
    (h : key ∉ entries.map Prod.fst) : firstEntry key entries = none := by
  induction entries with
  | nil => rfl
  | cons entry rest ih =>
    rw [List.map_cons, List.mem_cons, not_or] at h
    rw [firstEntry, if_neg (Ne.symm h.1), ih h.2]

theorem mem_keys_of_get? {d : Dict α} {key : String} {v : α} (h : d.get? key = some v) :
    key ∈ d.keys :=
  List.mem_map.2 ⟨(key, v), mem_of_firstEntry h, rfl⟩

theorem Distinct.mem_keys_iff {d : Dict α} (h : d.Distinct) {key : String} :
    key ∈ d.keys ↔ (d.get? key).isSome = true := by
  constructor
  · intro hkey
    obtain ⟨⟨_, v⟩, hentry, rfl⟩ := List.mem_map.1 hkey
    exact Option.isSome_of_eq_some (firstEntry_of_mem h hentry)
  · intro hsome
    obtain ⟨v, hv⟩ := Option.isSome_iff_exists.1 hsome
    exact mem_keys_of_get? hv

/-- Where a key has its value does not depend on the order of the entries. -/
theorem Distinct.get?_perm {d d' : Dict α} (h : d.Distinct)
    (hperm : d.entries.Perm d'.entries) (key : String) : d.get? key = d'.get? key := by
  have hfound {d d' : Dict α} (h' : d'.Distinct) (hperm : d.entries.Perm d'.entries) (v : α)
      (hv : d.get? key = some v) : d'.get? key = some v :=
    firstEntry_of_mem h' (hperm.mem_iff.1 (mem_of_firstEntry hv))
  have h' : d'.Distinct := (hperm.map Prod.fst).nodup_iff.1 h
  exact Option.ext fun v => ⟨hfound h' hperm v, hfound h hperm.symm v⟩

theorem fst_mem_insertEntry {key other : String} {value : α} {entries : List (String × α)} :
    other ∈ (insertEntry key value entries).map Prod.fst ↔
      other = key ∨ other ∈ entries.map Prod.fst := by
  induction entries with
  | nil => simp [insertEntry]
  | cons entry rest ih =>
    obtain ⟨k, v⟩ := entry
    by_cases hk : k = key
    · subst hk; simp [insertEntry]
    · simp only [insertEntry, if_neg hk, List.map_cons, List.mem_cons, ih]
      exact or_left_comm

theorem nodup_insertEntry {key : String} {value : α} {entries : List (String × α)}
    (h : (entries.map Prod.fst).Nodup) :
    ((insertEntry key value entries).map Prod.fst).Nodup := by
  induction entries with
  | nil => simp [insertEntry]
  | cons entry rest ih =>
    obtain ⟨k, v⟩ := entry
    rw [List.map_cons, List.nodup_cons] at h
    by_cases hk : k = key
    · subst hk; simpa [insertEntry] using h
    · simp only [insertEntry, if_neg hk, List.map_cons, List.nodup_cons]
      refine ⟨fun hmem => ?_, ih h.2⟩
      rcases fst_mem_insertEntry.1 hmem with he | hmem
      · exact hk he
      · exact h.1 hmem

theorem Distinct.insert {d : Dict α} (h : d.Distinct) (key : String) (value : α) :
    (d.insert key value).Distinct :=
  nodup_insertEntry h

theorem Distinct.extend {d : Dict α} (h : d.Distinct) (entries : List (String × α)) :
    (d.extend entries).Distinct := by
  induction entries generalizing d with
  | nil => exact h
  | cons entry rest ih => exact ih (h.insert entry.1 entry.2)

theorem distinct_ofList (entries : List (String × α)) : (ofList entries).Distinct :=
  Distinct.extend (d := ⟨[]⟩) List.nodup_nil entries

theorem Distinct.erase {d : Dict α} (h : d.Distinct) (key : String) : (d.erase key).Distinct := by
  have hsub : (d.erase key).keys.Sublist d.keys := List.filter_sublist.map Prod.fst
  exact List.Nodup.sublist hsub h

theorem size_erase_lt {d : Dict α} {key : String} {value : α} (h : d.get? key = some value) :
    (d.erase key).size < d.size := by
  obtain ⟨entries⟩ := d
  change (entries.filter _).length < entries.length
  change firstEntry key entries = some value at h
  induction entries with
  | nil => cases h
  | cons entry rest ih =>
    obtain ⟨k, v⟩ := entry
    by_cases hk : k = key
    · have := List.length_filter_le (fun entry : String × α => decide (entry.1 ≠ key)) rest
      rw [List.filter_cons_of_neg (by simp [hk]), List.length_cons]
      omega
    · have := ih (by simpa [firstEntry, hk] using h)
      rw [List.filter_cons_of_pos (by simp [hk]), List.length_cons, List.length_cons]
      omega

end Dict
end Stencil
