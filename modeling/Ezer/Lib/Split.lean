import Ezer.Lib.Lines

/-!
# Splitting a text

A text before and after the first place where a pattern occurs, and the parts
of a text between separators.
-/

namespace Ezer.Lib

/-- The texts before and after the first occurrence of a pattern. -/
def splitOnce (pattern : Text) : Text → Option (Text × Text)
  | [] => if pattern.isEmpty then some ([], []) else none
  | c :: cs =>
    if pattern.isPrefixOf (c :: cs) then some ([], (c :: cs).drop pattern.length)
    else (splitOnce pattern cs).map fun (before, after) => (c :: before, after)

/-- At most so many parts of a text between separators, the last one with all the rest. -/
def splitN (separator : Char) : ℕ → Text → List Text
  | 0, _ => []
  | 1, t => [t]
  | n + 2, t =>
    match splitOnce [separator] t with
    | none => [t]
    | some (before, after) => before :: splitN separator (n + 1) after

theorem splitOnce_singleton_cons (c d : Char) (t : Text) :
    splitOnce [c] (d :: t) =
      if c = d then some ([], t)
      else (splitOnce [c] t).map fun (before, after) => (d :: before, after) := by
  by_cases h : c = d <;> simp [splitOnce, List.isPrefixOf, h]

theorem splitOnce_singleton_of_not_mem {c : Char} {t : Text} (h : c ∉ t) :
    splitOnce [c] t = none := by
  induction t with
  | nil => rfl
  | cons d t ih =>
    obtain ⟨hne, hrest⟩ := List.ne_and_not_mem_of_not_mem_cons h
    rw [splitOnce_singleton_cons, if_neg hne, ih hrest]
    rfl

theorem splitOnce_singleton_append {c : Char} {s : Text} (h : c ∉ s) (t : Text) :
    splitOnce [c] (s ++ c :: t) = some (s, t) := by
  induction s with
  | nil => simp [splitOnce_singleton_cons]
  | cons d s ih =>
    obtain ⟨hne, hrest⟩ := List.ne_and_not_mem_of_not_mem_cons h
    rw [List.cons_append, splitOnce_singleton_cons, if_neg hne, ih hrest]
    rfl

theorem eq_of_splitOnce {pattern t before after : Text}
    (h : splitOnce pattern t = some (before, after)) : t = before ++ pattern ++ after := by
  induction t generalizing before with
  | nil =>
    unfold splitOnce at h
    split at h
    · rename_i hempty
      cases h
      rw [List.isEmpty_iff.mp hempty]
      rfl
    · cases h
  | cons c cs ih =>
    unfold splitOnce at h
    split at h
    · rename_i hpre
      cases h
      obtain ⟨rest, hrest⟩ := List.isPrefixOf_iff_prefix.mp hpre
      rw [← hrest, List.drop_left]
      rfl
    · obtain ⟨⟨before', after'⟩, hsplit, heq⟩ := Option.map_eq_some_iff.mp h
      cases heq
      rw [ih hsplit]
      rfl

end Ezer.Lib
