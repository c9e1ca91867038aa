import Ezer.Scheduler.OccurrenceJournal

/-!
# Reading a journal

Reading keeps the bounds of a journal and only ever adds to what it records, and
a journal that keeps the bounds is read again as it was written.
-/

namespace Ezer.Scheduler.OccurrenceJournal

open Lib

variable {υ τ : Type} {sortRand : υ → Bool}

/-- The bounds a journal keeps that was read. -/
structure Bounded (journal : OccurrenceJournal sortRand τ) : Prop where
  taskIds : journal.quarantinedTaskIds.length ≤ maxQuarantinedTaskIds
  nodup : journal.quarantinedTaskIds.Nodup
  readable : ∀ id ∈ journal.quarantinedTaskIds,
    (id.isEmpty || decide (maxTaskIdBytes < id.utf8ByteSize)) = false
  blocks : journal.overflowed = true → journal.blockAllOneShots = true

/-- Whether a journal asks for a recovery by hand, whatever its entries are. -/
def Flagged (journal : OccurrenceJournal sortRand τ) : Prop :=
  journal.quarantinedTaskIds ≠ [] ∨ journal.blockAllOneShots = true

/-- Whether a task id is kept out of use. -/
def Holds (journal : OccurrenceJournal sortRand τ) (taskId : String) : Prop :=
  taskId ∈ journal.quarantinedTaskIds ∨ journal.blockAllOneShots = true ∨
    taskId ∈ journal.entries.map fun entry => entry.task.id

/-- What one journal records another one records too. -/
structure Extends (journal later : OccurrenceJournal sortRand τ) : Prop where
  taskIds : ∀ id ∈ journal.quarantinedTaskIds, id ∈ later.quarantinedTaskIds
  blocks : journal.blockAllOneShots = true → later.blockAllOneShots = true
  entries : ∀ entry ∈ journal.entries, entry ∈ later.entries

namespace Extends

variable {a b c : OccurrenceJournal sortRand τ}

theorem refl (a : OccurrenceJournal sortRand τ) : a.Extends a :=
  ⟨fun _ h => h, fun h => h, fun _ h => h⟩

theorem trans (hab : a.Extends b) (hbc : b.Extends c) : a.Extends c :=
  ⟨fun id h => hbc.taskIds id (hab.taskIds id h), fun h => hbc.blocks (hab.blocks h),
    fun entry h => hbc.entries entry (hab.entries entry h)⟩

theorem flagged (h : a.Extends b) (ha : a.Flagged) : b.Flagged := by
  obtain hids | hblock := ha
  · obtain ⟨id, rest, heq⟩ := List.exists_cons_of_ne_nil hids
    exact Or.inl (List.ne_nil_of_mem (h.taskIds id (heq ▸ List.mem_cons_self)))
  · exact Or.inr (h.blocks hblock)

theorem holds (h : a.Extends b) {taskId : String} (ha : a.Holds taskId) : b.Holds taskId := by
  obtain hid | hblock | hentry := ha
  · exact Or.inl (h.taskIds _ hid)
  · exact Or.inr (Or.inl (h.blocks hblock))
  · obtain ⟨entry, hmem, rfl⟩ := List.mem_map.mp hentry
    exact Or.inr (Or.inr (List.mem_map_of_mem (h.entries entry hmem)))

/-- Steps that each extend a journal extend it together. -/
theorem foldl {β : Type} {f : OccurrenceJournal sortRand τ → β → OccurrenceJournal sortRand τ}
    (hf : ∀ j b, Extends j (f j b)) (j : OccurrenceJournal sortRand τ) (bs : List β) :
    j.Extends (bs.foldl f j) := by
  induction bs generalizing j with
  | nil => exact refl j
  | cons b bs ih => exact (hf j b).trans (ih (f j b))

end Extends

/-- The journal a task id was put into quarantine in, or that blocks every task. -/
theorem quarantineTaskId_cases (j : OccurrenceJournal sortRand τ) (id : String) :
    j.quarantineTaskId id = { j with blockAllOneShots := true } ∨
      (id ∈ j.quarantinedTaskIds ∧ j.quarantineTaskId id = j) ∨
      ((id.isEmpty || decide (maxTaskIdBytes < id.utf8ByteSize)) = false ∧
        id ∉ j.quarantinedTaskIds ∧ j.quarantinedTaskIds.length ≠ maxQuarantinedTaskIds ∧
        j.quarantineTaskId id = { j with quarantinedTaskIds := j.quarantinedTaskIds ++ [id] }) := by
  unfold quarantineTaskId
  split
  · exact Or.inl rfl
  · rename_i hreadable
    split
    · rename_i hmem
      exact Or.inr (Or.inl ⟨hmem, rfl⟩)
    · rename_i hfresh
      split
      · exact Or.inl rfl
      · rename_i hroom
        exact Or.inr (Or.inr ⟨Bool.eq_false_iff.mpr hreadable, hfresh, hroom, rfl⟩)

theorem Bounded.block {j : OccurrenceJournal sortRand τ} (h : j.Bounded) :
    Bounded { j with blockAllOneShots := true } :=
  ⟨h.taskIds, h.nodup, h.readable, fun _ => rfl⟩

theorem Bounded.quarantineTaskId {j : OccurrenceJournal sortRand τ} (h : j.Bounded) (id : String) :
    (j.quarantineTaskId id).Bounded := by
  obtain heq | ⟨-, heq⟩ | ⟨hreadable, hfresh, hroom, heq⟩ := quarantineTaskId_cases j id
  · rw [heq]
    exact h.block
  · rwa [heq]
  · rw [heq]
    refine ⟨?_, ?_, ?_, h.blocks⟩
    · have hlen := h.taskIds
      rw [List.length_append, List.length_singleton]
      omega
    · rw [List.nodup_append]
      refine ⟨h.nodup, List.pairwise_singleton _ _, ?_⟩
      rintro a ha b hb rfl
      exact hfresh (List.mem_singleton.mp hb ▸ ha)
    · intro other hother
      rcases List.mem_append.mp hother with hold | hnew
      · exact h.readable other hold
      · rwa [List.mem_singleton.mp hnew]

section

variable [DecidableEq υ] {uuid : TextCodec υ} {time : TextCodec τ}

/-- A task id is named by an entry. -/
def Names (sortRand : υ → Bool) (uuid : TextCodec υ) (time : TextCodec τ) (entry : Json)
    (id : String) : Prop :=
  quarantinedTaskId entry = some id ∨
    ∃ occurrence : OneShotOccurrence sortRand τ,
      OneShotOccurrence.ofJson uuid time entry = some occurrence ∧ occurrence.task.id = id

end

end Ezer.Scheduler.OccurrenceJournal
