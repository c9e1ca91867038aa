import Mathlib.Logic.Function.Iterate
import Mathlib.Logic.Relation
import Mathlib.Data.List.Basic

/-!
# Timelines

A timeline is a value with what it was and what it may be again. Undo and redo move along
it, and a new value takes the place of what it may be again. While a group is open the
timeline stands still and the value changes beside it.
-/

namespace Ezer.Lib

/-- A value, what it was with the last first, and what it may be again with the next first. -/
@[ext]
structure Timeline (α : Type) where
  past : List α
  now : α
  future : List α

namespace Timeline

variable {α : Type}

/-- Go back by one value, if there is one. -/
def undo (t : Timeline α) : Timeline α :=
  match t.past with
  | [] => t
  | a :: past => ⟨past, a, t.now :: t.future⟩

/-- Go forward by one value, if there is one. -/
def redo (t : Timeline α) : Timeline α :=
  match t.future with
  | [] => t
  | a :: future => ⟨t.now :: t.past, a, future⟩

/-- Go on with a new value. -/
def record (t : Timeline α) (a : α) : Timeline α := ⟨t.now :: t.past, a, []⟩

/-- Put a new value in place of the present one. -/
def amend (t : Timeline α) (a : α) : Timeline α := ⟨t.past, a, []⟩

/-- All values, the first one first. -/
def all (t : Timeline α) : List α := t.past.reverse ++ t.now :: t.future

/-- The first value. -/
def origin (t : Timeline α) : α := t.past.getLast?.getD t.now

@[simp]
theorem all_undo (t : Timeline α) : t.undo.all = t.all := by
  rw [undo]
  split
  · rfl
  · rename_i a past hpast
    rw [all, all, hpast, List.reverse_cons, List.append_assoc, List.singleton_append]

@[simp]
theorem all_redo (t : Timeline α) : t.redo.all = t.all := by
  rw [redo]
  split
  · rfl
  · rename_i a future hfuture
    rw [all, all, hfuture, List.reverse_cons, List.append_assoc, List.singleton_append]

theorem length_past_undo (t : Timeline α) : t.undo.past.length = t.past.length - 1 := by
  rw [undo]
  split
  · rename_i hpast
    rw [hpast, List.length_nil]
  · rename_i a past hpast
    rw [hpast, List.length_cons, Nat.add_sub_cancel]

theorem length_future_redo (t : Timeline α) : t.redo.future.length = t.future.length - 1 := by
  rw [redo]
  split
  · rename_i hfuture
    rw [hfuture, List.length_nil]
  · rename_i a future hfuture
    rw [hfuture, List.length_cons, Nat.add_sub_cancel]

theorem origin_record (t : Timeline α) (a : α) : (t.record a).origin = t.origin := by
  rw [record, origin, origin, List.getLast?_cons, Option.getD_some]

theorem origin_amend {t : Timeline α} (h : t.past ≠ []) (a : α) :
    (t.amend a).origin = t.origin := by
  rw [amend, origin, origin, List.getLast?_eq_some_getLast h]
  rfl

/-- The first of all values is the origin. -/
theorem head?_all (t : Timeline α) : t.all.head? = some t.origin := by
  rw [all, origin, List.head?_append, List.head?_reverse, List.head?_cons]
  cases t.past.getLast? with
  | none => rfl
  | some a => rfl

section Iterate

variable (t : Timeline α) (n : ℕ)

theorem all_iterate_undo : (undo^[n] t).all = t.all := by
  induction n generalizing t with
  | zero => rfl
  | succ n ih => rw [Function.iterate_succ_apply, ih, all_undo]

theorem all_iterate_redo : (redo^[n] t).all = t.all := by
  induction n generalizing t with
  | zero => rfl
  | succ n ih => rw [Function.iterate_succ_apply, ih, all_redo]

theorem length_past_iterate_undo : (undo^[n] t).past.length = t.past.length - n := by
  induction n generalizing t with
  | zero => rfl
  | succ n ih =>
    rw [Function.iterate_succ_apply, ih, length_past_undo]
    omega

theorem length_future_iterate_redo : (redo^[n] t).future.length = t.future.length - n := by
  induction n generalizing t with
  | zero => rfl
  | succ n ih =>
    rw [Function.iterate_succ_apply, ih, length_future_redo]
    omega

end Iterate

/-- With nothing left to undo, the value is the origin. -/
theorem now_eq_origin {s t : Timeline α} (hall : s.all = t.all) (hpast : s.past = []) :
    s.now = t.origin := by
  have hhead := head?_all t
  rw [← hall, head?_all, origin, hpast] at hhead
  exact Option.some.inj hhead

/-- With nothing left to redo on either side, the timelines are the same. -/
theorem now_eq_now {s t : Timeline α} (hall : s.all = t.all) (hs : s.future = [])
    (ht : t.future = []) : s.now = t.now := by
  rw [all, all, hs, ht] at hall
  exact List.singleton_inj.mp (List.append_inj_right' hall rfl)

/-- Undoing everything leads to the origin. -/
theorem now_iterate_undo {t : Timeline α} {n : ℕ} (h : t.past.length ≤ n) :
    (undo^[n] t).now = t.origin := by
  apply now_eq_origin (all_iterate_undo t n)
  apply List.length_eq_zero_iff.mp
  rw [length_past_iterate_undo]
  omega

/-- Redoing everything leads back, where nothing could be redone before. -/
theorem now_iterate_redo {s t : Timeline α} {n : ℕ} (hall : s.all = t.all) (ht : t.future = [])
    (h : s.future.length ≤ n) : (redo^[n] s).now = t.now := by
  apply now_eq_now ((all_iterate_redo s n).trans hall) _ ht
  apply List.length_eq_zero_iff.mp
  rw [length_future_iterate_redo]
  omega

end Timeline

/-- A value with its timeline, and how many groups are open. -/
structure Grouped (α : Type) where
  timeline : Timeline α
  current : α
  depth : ℕ

namespace Grouped

variable {α : Type}

/-- What an edit does. Outside of groups the new value is recorded, or it continues an edit that
was recorded; inside of a group only the value changes. -/
inductive Edit : Grouped α → Grouped α → Prop where
  | record (t : Timeline α) (a : α) : Edit ⟨t, t.now, 0⟩ ⟨t.record a, a, 0⟩
  | amend (t : Timeline α) (a : α) (h : t.past ≠ []) : Edit ⟨t, t.now, 0⟩ ⟨t.amend a, a, 0⟩
  | inside (t : Timeline α) (a b : α) (depth : ℕ) : Edit ⟨t, a, depth + 1⟩ ⟨t, b, depth + 1⟩

/-- What a step does: an edit, or it opens a group, closes one, or takes all open groups back. The
last group that closes is recorded or continues an edit as an edit does, and leaves no trace where
it changed nothing. -/
inductive Step : Grouped α → Grouped α → Prop where
  | edit {g h : Grouped α} : Edit g h → Step g h
  | begin (t : Timeline α) (depth : ℕ) (a : α) : Step ⟨t, a, depth⟩ ⟨t, a, depth + 1⟩
  | inner (t : Timeline α) (depth : ℕ) (a : α) : Step ⟨t, a, depth + 2⟩ ⟨t, a, depth + 1⟩
  | close (t : Timeline α) (a : α) : Step ⟨t, a, 1⟩ ⟨t.record a, a, 0⟩
  | merge (t : Timeline α) (a : α) (h : t.past ≠ []) : Step ⟨t, a, 1⟩ ⟨t.amend a, a, 0⟩
  | leave (t : Timeline α) : Step ⟨t, t.now, 1⟩ ⟨t, t.now, 0⟩
  | cancel (t : Timeline α) (depth : ℕ) (a : α) : Step ⟨t, a, depth⟩ ⟨t, t.now, 0⟩

/-- The value is the present one of the timeline while no group is open. -/
def Settled (g : Grouped α) : Prop := g.depth = 0 → g.current = g.timeline.now

theorem Step.settled {g h : Grouped α} (hstep : Step g h) : h.Settled := by
  intro hdepth
  cases hstep with
  | edit hedit =>
    cases hedit with
    | record t a => rfl
    | amend t a hpast => rfl
    | inside t a b depth => cases hdepth
  | begin | inner => cases hdepth
  | close t a => rfl
  | merge t a hpast => rfl
  | cancel t depth a => rfl
  | leave t => rfl

theorem Step.origin {g h : Grouped α} (hstep : Step g h) :
    h.timeline.origin = g.timeline.origin := by
  cases hstep with
  | edit hedit =>
    cases hedit with
    | record t a => exact t.origin_record a
    | amend t a hpast => exact Timeline.origin_amend hpast a
    | inside t a b depth => rfl
  | begin t depth a => rfl
  | inner t depth a => rfl
  | cancel t depth a => rfl
  | close t a => exact t.origin_record a
  | merge t a hpast => exact Timeline.origin_amend hpast a
  | leave t => rfl

theorem Step.future {g h : Grouped α} (hstep : Step g h) (hfuture : g.timeline.future = []) :
    h.timeline.future = [] := by
  cases hstep with
  | edit hedit =>
    cases hedit with
    | record t a => rfl
    | amend t a hpast => rfl
    | inside t a b depth => exact hfuture
  | begin | inner | cancel => exact hfuture
  | close t a => rfl
  | merge t a hpast => rfl
  | leave t => exact hfuture

/-- What holds of a value behind some steps that began with nothing to undo or to redo. -/
structure Fresh (first : α) (g : Grouped α) : Prop where
  origin : g.timeline.origin = first
  future : g.timeline.future = []
  settled : g.Settled

theorem Fresh.steps {first : α} {g h : Grouped α} (hfresh : Fresh first g)
    (hsteps : Relation.ReflTransGen Step g h) : Fresh first h := by
  induction hsteps with
  | refl => exact hfresh
  | tail _ hstep ih => exact ⟨hstep.origin.trans ih.origin, hstep.future ih.future, hstep.settled⟩

end Grouped

end Ezer.Lib
