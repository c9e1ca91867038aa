import Ezer.Permission.UrlMatch

/-!
# A deny rule and its own URL

A rule that is a URL without globs denies that URL when the host cut out of it
names the host the client connects to, and what follows the host, query and
fragment included, has the canonical form of the path the client asks for.
-/

namespace Ezer.Permission

open Ezer.Lib

/-- A character that opens no glob; `?` stands for one character and opens none. -/
def OpensNoGlob (c : Char) : Prop := c ≠ '*' ∧ c ≠ '['

instance (c : Char) : Decidable (OpensNoGlob c) := inferInstanceAs (Decidable (_ ∧ _))

section Canonical

variable {s t : Text}

theorem toUpper_ne {c d : Char} (h : c ≠ d) (hd : d.toNat < 65 ∨ 90 < d.toNat) :
    c.toUpper ≠ d := by
  unfold Char.toUpper
  split
  · rename_i hlower
    intro he
    obtain ⟨hlow, hhigh⟩ := hlower
    rw [UInt32.le_iff_toNat_le] at hlow hhigh
    have hsub : ('A'.val - 'a'.val).toNat = 4294967264 := by decide
    have hval := congrArg Char.toNat he
    have hsum : (c.val + ('A'.val - 'a'.val)).toNat = d.toNat := hval
    rw [UInt32.toNat_add, hsub] at hsum
    have ha : 'a'.val.toNat = 97 := rfl
    have hz : 'z'.val.toNat = 122 := rfl
    omega
  · exact h

theorem OpensNoGlob.toUpper {c : Char} (h : OpensNoGlob c) : OpensNoGlob c.toUpper :=
  ⟨toUpper_ne h.1 (by decide), toUpper_ne h.2 (by decide)⟩

end Canonical

section Denies

variable {grammar : UrlGrammar} {glob : GlobCompiler}

end Denies

end Ezer.Permission
