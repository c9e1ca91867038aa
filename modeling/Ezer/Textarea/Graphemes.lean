import Ezer.Lib.Ascii
import Mathlib.Data.Nat.Find

/-!
# Boundaries of graphemes

The segmentation of a text into graphemes is a predicate of the text and of a byte
offset. A position is moved to the boundary before it, behind it, or the nearer one.
-/

namespace Ezer.Textarea

open Lib

/-- A segmentation into graphemes. Both ends of a text are boundaries, a boundary lies between
characters, and a line break is a grapheme of its own. -/
structure Graphemes where
  isBoundary : Text → ℕ → Bool
  zero : ∀ t, isBoundary t 0 = true
  last : ∀ t, isBoundary t (byteLen t) = true
  char : ∀ t n, isBoundary t n = true → ∃ u v, splitBytes n t = some (u, v)
  behindLineFeed : ∀ u v, isBoundary (u ++ '\n' :: v) (byteLen u + 1) = true
  beforeLineFeed : ∀ u v, u.getLast? ≠ some '\r' → isBoundary (u ++ '\n' :: v) (byteLen u) = true
  beforeReturn : ∀ u v, isBoundary (u ++ '\r' :: '\n' :: v) (byteLen u) = true
  insideLineBreak : ∀ u v, isBoundary (u ++ '\r' :: '\n' :: v) (byteLen u + 1) = false

namespace Graphemes

variable (g : Graphemes)

theorem le_of_isBoundary {t : Text} {n : ℕ} (h : g.isBoundary t n = true) : n ≤ byteLen t := by
  obtain ⟨u, v, hsplit⟩ := g.char t n h
  obtain ⟨rfl, rfl⟩ := splitBytes_eq_some_iff.mp hsplit
  rw [byteLen_append]
  exact Nat.le_add_right _ _

/-- The last boundary up to an offset. -/
def lastUpTo (t : Text) : ℕ → ℕ
  | 0 => 0
  | n + 1 => if g.isBoundary t (n + 1) then n + 1 else lastUpTo t n

/-- The first boundary from an offset on, of which some are tried. -/
def firstFrom (t : Text) : ℕ → ℕ → ℕ
  | 0, n => n
  | fuel + 1, n => if g.isBoundary t n then n else firstFrom t fuel (n + 1)

/-- The boundary at an offset or before it. -/
def floorGraphemeBoundary (t : Text) (byte : ℕ) : ℕ := g.lastUpTo t (min byte (byteLen t))

/-- The boundary at an offset or behind it. -/
def ceilGraphemeBoundary (t : Text) (byte : ℕ) : ℕ :=
  g.firstFrom t (byteLen t - min byte (byteLen t)) (min byte (byteLen t))

/-- The boundary nearest to an offset, the one before it where both are as near. -/
def normalizeExternalCursor (t : Text) (byte : ℕ) : ℕ :=
  let byte := min byte (byteLen t)
  let before := g.floorGraphemeBoundary t byte
  let after := g.ceilGraphemeBoundary t byte
  if byte - before ≤ after - byte then before else after

/-- The boundary before an offset. -/
def previousGraphemeBoundary (t : Text) (byte : ℕ) : ℕ := g.lastUpTo t (min byte (byteLen t) - 1)

/-- The boundary behind an offset. -/
def nextGraphemeBoundary (t : Text) (byte : ℕ) : ℕ :=
  if byteLen t ≤ byte then byteLen t else g.firstFrom t (byteLen t - (byte + 1)) (byte + 1)

section LastUpTo

variable (t : Text) (n : ℕ)

theorem lastUpTo_le : g.lastUpTo t n ≤ n := by
  induction n with
  | zero => exact le_rfl
  | succ n ih =>
    rw [lastUpTo]
    split
    · exact le_rfl
    · exact Nat.le_succ_of_le ih

theorem isBoundary_lastUpTo : g.isBoundary t (g.lastUpTo t n) = true := by
  induction n with
  | zero => exact g.zero t
  | succ n ih =>
    rw [lastUpTo]
    split
    · assumption
    · exact ih

theorem le_lastUpTo {m : ℕ} (hm : g.isBoundary t m = true) (hle : m ≤ n) : m ≤ g.lastUpTo t n := by
  induction n with
  | zero => exact hle
  | succ n ih =>
    rw [lastUpTo]
    split
    · exact hle
    · rename_i hn
      rcases Nat.lt_or_eq_of_le hle with hlt | rfl
      · exact ih (Nat.le_of_lt_succ hlt)
      · exact (hn hm).elim

end LastUpTo

section FirstFrom

variable (t : Text)

theorem le_firstFrom (fuel n : ℕ) : n ≤ g.firstFrom t fuel n := by
  induction fuel generalizing n with
  | zero => exact le_rfl
  | succ fuel ih =>
    rw [firstFrom]
    split
    · exact le_rfl
    · exact Nat.le_of_succ_le (ih (n + 1))

theorem isBoundary_firstFrom {fuel n : ℕ} (hn : n + fuel = byteLen t) :
    g.isBoundary t (g.firstFrom t fuel n) = true := by
  induction fuel generalizing n with
  | zero =>
    rw [firstFrom, ← Nat.add_zero n, hn]
    exact g.last t
  | succ fuel ih =>
    rw [firstFrom]
    split
    · assumption
    · exact ih (by omega)

theorem firstFrom_le {fuel n m : ℕ} (hm : g.isBoundary t m = true) (hle : n ≤ m)
    (hn : n + fuel = byteLen t) : g.firstFrom t fuel n ≤ m := by
  induction fuel generalizing n with
  | zero => exact hle
  | succ fuel ih =>
    rw [firstFrom]
    split
    · exact hle
    · rename_i hboundary
      rcases Nat.lt_or_eq_of_le hle with hlt | rfl
      · exact ih hlt (by omega)
      · exact (hboundary hm).elim

end FirstFrom

section Snapping

variable (t : Text) (n : ℕ)

theorem floor_le : g.floorGraphemeBoundary t n ≤ n :=
  (g.lastUpTo_le t _).trans (Nat.min_le_left _ _)

theorem isBoundary_floor : g.isBoundary t (g.floorGraphemeBoundary t n) = true :=
  g.isBoundary_lastUpTo t _

theorem le_floor {m : ℕ} (hm : g.isBoundary t m = true) (hle : m ≤ n) :
    m ≤ g.floorGraphemeBoundary t n :=
  g.le_lastUpTo t _ hm (Nat.le_min.mpr ⟨hle, g.le_of_isBoundary hm⟩)

theorem min_le_ceil : min n (byteLen t) ≤ g.ceilGraphemeBoundary t n := g.le_firstFrom t _ _

theorem isBoundary_ceil : g.isBoundary t (g.ceilGraphemeBoundary t n) = true :=
  g.isBoundary_firstFrom t (by omega)

theorem ceil_le {m : ℕ} (hm : g.isBoundary t m = true) (hle : n ≤ m) :
    g.ceilGraphemeBoundary t n ≤ m :=
  g.firstFrom_le t hm ((Nat.min_le_left _ _).trans hle) (by omega)

theorem floor_eq_self {n : ℕ} (h : g.isBoundary t n = true) : g.floorGraphemeBoundary t n = n :=
  Nat.le_antisymm (g.floor_le t n) (g.le_floor t n h le_rfl)

theorem ceil_eq_self {n : ℕ} (h : g.isBoundary t n = true) : g.ceilGraphemeBoundary t n = n := by
  have hle := g.ceil_le t n h le_rfl
  have hge := g.min_le_ceil t n
  have hlen := g.le_of_isBoundary h
  omega

theorem isBoundary_normalize : g.isBoundary t (g.normalizeExternalCursor t n) = true := by
  rw [normalizeExternalCursor]
  split
  · exact g.isBoundary_floor t _
  · exact g.isBoundary_ceil t _

theorem normalize_eq_self {n : ℕ} (h : g.isBoundary t n = true) :
    g.normalizeExternalCursor t n = n := by
  have hlen := Nat.min_eq_left (g.le_of_isBoundary h)
  rw [normalizeExternalCursor]
  rw [hlen, g.floor_eq_self t h, g.ceil_eq_self t h, if_pos le_rfl]

theorem isBoundary_previous : g.isBoundary t (g.previousGraphemeBoundary t n) = true :=
  g.isBoundary_lastUpTo t _

theorem previous_lt {n : ℕ} (hn : 0 < n) : g.previousGraphemeBoundary t n < n := by
  have hle := g.lastUpTo_le t (min n (byteLen t) - 1)
  rw [previousGraphemeBoundary]
  omega

theorem isBoundary_next : g.isBoundary t (g.nextGraphemeBoundary t n) = true := by
  rw [nextGraphemeBoundary]
  split
  · exact g.last t
  · exact g.isBoundary_firstFrom t (by omega)

theorem lt_next {n : ℕ} (hn : n < byteLen t) : n < g.nextGraphemeBoundary t n := by
  rw [nextGraphemeBoundary, if_neg (Nat.not_le.mpr hn)]
  exact g.le_firstFrom t _ _

end Snapping

end Graphemes

end Ezer.Textarea
