import Mathlib.Data.List.Basic

/-!
# Sorted maps

A map from numbers whose entries are kept in the order of their keys.
-/

namespace Ezer.Lib

/-- A map from numbers with its entries in the order of their keys. -/
structure SortedMap (α : Type*) where
  /-- The entries. -/
  entries : List (ℕ × α)
  /-- The keys of the entries ascend. -/
  sorted : (entries.map Prod.fst).Pairwise (· < ·)

namespace SortedMap

variable {α : Type*}

/-- The map without entries. -/
def empty : SortedMap α := ⟨[], List.Pairwise.nil⟩

/-- Put a value at a key into entries in the order of their keys. -/
def insertEntry (key : ℕ) (value : α) : List (ℕ × α) → List (ℕ × α)
  | [] => [(key, value)]
  | entry :: rest =>
    if key < entry.1 then (key, value) :: entry :: rest
    else if key = entry.1 then (key, value) :: rest
    else entry :: insertEntry key value rest

theorem mem_keys_insertEntry {key k : ℕ} {value : α} {entries : List (ℕ × α)} :
    k ∈ (insertEntry key value entries).map Prod.fst ↔ k = key ∨ k ∈ entries.map Prod.fst := by
  induction entries with
  | nil => simp [insertEntry]
  | cons entry rest ih =>
    rw [insertEntry]
    split
    · rw [List.map_cons, List.mem_cons]
    · split
      · rename_i heq
        simp [heq]
      · rw [List.map_cons, List.mem_cons, ih, List.map_cons, List.mem_cons]
        exact or_left_comm

theorem sorted_insertEntry {key : ℕ} {value : α} {entries : List (ℕ × α)}
    (h : (entries.map Prod.fst).Pairwise (· < ·)) :
    ((insertEntry key value entries).map Prod.fst).Pairwise (· < ·) := by
  induction entries with
  | nil => exact List.pairwise_singleton _ _
  | cons entry rest ih =>
    obtain ⟨hall, hrest⟩ := List.pairwise_cons.mp h
    rw [insertEntry]
    split
    · rename_i hlt
      refine List.pairwise_cons.mpr ⟨?_, h⟩
      rintro k (_ | ⟨_, hk⟩)
      · exact hlt
      · exact Nat.lt_trans hlt (hall k hk)
    · split
      · rename_i heq
        rw [List.map_cons, heq]
        exact h
      · rename_i hlt hne
        refine List.pairwise_cons.mpr ⟨?_, ih hrest⟩
        intro k hk
        rcases mem_keys_insertEntry.mp hk with rfl | hk
        · omega
        · exact hall k hk

/-- Put a value at a key. -/
def insert (key : ℕ) (value : α) (m : SortedMap α) : SortedMap α :=
  ⟨insertEntry key value m.entries, sorted_insertEntry m.sorted⟩

/-- The value at a key. -/
def get? (m : SortedMap α) (key : ℕ) : Option α :=
  (m.entries.find? fun entry => entry.1 == key).map Prod.snd

/-- The keys in their order. -/
def keys (m : SortedMap α) : List ℕ := m.entries.map Prod.fst

/-- The values in the order of their keys. -/
def values (m : SortedMap α) : List α := m.entries.map Prod.snd

/-- The keys are those that have a value. -/
theorem mem_keys_iff (m : SortedMap α) (key : ℕ) : key ∈ m.keys ↔ m.get? key ≠ none := by
  rw [keys, get?, Ne, Option.map_eq_none_iff, List.find?_eq_none, List.mem_map]
  simp

/-- The values are those at the keys. -/
theorem map_get?_keys (m : SortedMap α) : m.keys.map m.get? = m.values.map some := by
  obtain ⟨entries, sorted⟩ := m
  change (entries.map Prod.fst).map (fun k =>
    (entries.find? fun entry => entry.1 == k).map Prod.snd) = (entries.map Prod.snd).map some
  induction entries with
  | nil => rfl
  | cons entry rest ih =>
    obtain ⟨hall, hrest⟩ := List.pairwise_cons.mp sorted
    rw [List.map_cons, List.map_cons, List.map_cons, List.map_cons, ← ih hrest]
    have hhead : ((entry :: rest).find? fun e => e.1 == entry.1).map Prod.snd =
        some entry.2 := by
      simp
    rw [hhead]
    congr 1
    apply List.map_congr_left
    intro k hk
    have hne : ¬ entry.1 = k := Nat.ne_of_lt (hall k hk)
    rw [List.find?_cons_of_neg (by simpa using hne)]

end SortedMap

end Ezer.Lib
