import Mathlib.Data.List.Infix

/-!
# Logs of terminated records

A log is the concatenation of records, each followed by a terminator that does
not occur in it. Reading it back gives the records and whatever stands after
the last terminator; a log cut inside its last record reads as the records
before it and the part that was written.
-/

namespace Ezer.Lib

section

variable {α : Type*} [DecidableEq α] (stop : α)

/-- The terminated records of a log, and what stands after the last terminator. -/
def splitRecords : List α → List (List α) × List α
  | [] => ([], [])
  | a :: rest =>
    match splitRecords rest with
    | (records, tail) =>
      if a = stop then ([] :: records, tail)
      else
        match records with
        | [] => ([], a :: tail)
        | record :: records => ((a :: record) :: records, tail)

omit [DecidableEq α] in
/-- The log of some records. -/
def encodeRecords (records : List (List α)) : List α := records.flatMap fun record => record ++ [stop]

variable {stop}

omit [DecidableEq α] in
omit [DecidableEq α] in
theorem encodeRecords_concat (records : List (List α)) (record : List α) :
    encodeRecords stop (records ++ [record]) = encodeRecords stop records ++ (record ++ [stop]) := by
  simp [encodeRecords]

theorem splitRecords_of_not_mem {tail : List α} (h : stop ∉ tail) :
    splitRecords stop tail = ([], tail) := by
  induction tail with
  | nil => rfl
  | cons a rest ih =>
    obtain ⟨hne, hrest⟩ := List.ne_and_not_mem_of_not_mem_cons h
    simp only [splitRecords, ih hrest, if_neg (Ne.symm hne)]

theorem splitRecords_append_stop {record : List α} (h : stop ∉ record) (rest : List α) :
    splitRecords stop (record ++ stop :: rest) =
      (record :: (splitRecords stop rest).1, (splitRecords stop rest).2) := by
  induction record with
  | nil => simp [splitRecords]
  | cons a record ih =>
    obtain ⟨hne, hrecord⟩ := List.ne_and_not_mem_of_not_mem_cons h
    rw [List.cons_append]
    simp only [splitRecords, ih hrecord, if_neg (Ne.symm hne)]

/-- Complete records are read back before anything that follows them. -/
theorem splitRecords_encode_append {records : List (List α)} (h : ∀ record ∈ records, stop ∉ record)
    (tail : List α) :
    splitRecords stop (encodeRecords stop records ++ tail) =
      (records ++ (splitRecords stop tail).1, (splitRecords stop tail).2) := by
  induction records with
  | nil => rfl
  | cons record records ih =>
    rw [List.forall_mem_cons] at h
    have hcons : encodeRecords stop (record :: records) ++ tail =
        record ++ stop :: (encodeRecords stop records ++ tail) := by
      simp [encodeRecords]
    rw [hcons, splitRecords_append_stop h.1, ih h.2]
    rfl

omit [DecidableEq α] in
/-- A cut record is complete, or some of it without its terminator. -/
theorem cut_record {part record : List α} (h : part <+: record ++ [stop]) :
    part = record ++ [stop] ∨ part <+: record := by
  rw [List.prefix_concat_iff] at h
  exact h

end

end Ezer.Lib
