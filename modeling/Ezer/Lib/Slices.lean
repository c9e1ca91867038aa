import Ezer.Lib.Occurrences
import Ezer.Lib.Utf8
import Mathlib.Algebra.GroupWithZero.Nat

/-!
# Byte offsets into a text

The parts of a text between byte offsets, the offsets at which a pattern
occurs, and a text cut into the parts that are kept and the parts that are
replaced.
-/

namespace Ezer.Lib

/-- The number of bytes of a text. -/
def byteLen (t : Text) : ℕ := (t.map Char.utf8Size).sum

@[simp] theorem byteLen_nil : byteLen [] = 0 := rfl

@[simp] theorem byteLen_cons (c : Char) (t : Text) : byteLen (c :: t) = c.utf8Size + byteLen t := by
  simp [byteLen]

@[simp] theorem byteLen_append (s t : Text) : byteLen (s ++ t) = byteLen s + byteLen t := by
  simp [byteLen]

theorem byteLen_pos {t : Text} (h : t ≠ []) : 0 < byteLen t := by
  cases t with
  | nil => exact (h rfl).elim
  | cons c t =>
    have hc : 0 < c.utf8Size := Char.utf8Size_pos c
    rw [byteLen_cons]
    omega

/-- The first bytes of a text and the others, if a character ends there. -/
def splitBytes : ℕ → Text → Option (Text × Text)
  | 0, t => some ([], t)
  | _ + 1, [] => none
  | n + 1, c :: t =>
    if c.utf8Size ≤ n + 1 then
      (splitBytes (n + 1 - c.utf8Size) t).map fun (u, v) => (c :: u, v)
    else none

/-- The part of a text between two byte offsets, if both are between characters. -/
def getBytes (t : Text) (first last : ℕ) : Option Text :=
  if first ≤ last then do
    let (_, rest) ← splitBytes first t
    let (mid, _) ← splitBytes (last - first) rest
    some mid
  else none

/-- The part of a text from a byte offset on, if the offset is between characters. -/
def getBytesFrom (t : Text) (first : ℕ) : Option Text := (splitBytes first t).map Prod.snd

theorem splitBytes_eq_some_iff {n : ℕ} {t u v : Text} :
    splitBytes n t = some (u, v) ↔ t = u ++ v ∧ byteLen u = n := by
  induction t generalizing n u with
  | nil =>
    cases n with
    | zero =>
      rw [splitBytes, Option.some.injEq, Prod.mk.injEq]
      constructor
      · rintro ⟨rfl, rfl⟩
        exact ⟨rfl, rfl⟩
      · rintro ⟨h, _⟩
        obtain ⟨rfl, rfl⟩ := List.append_eq_nil_iff.mp h.symm
        exact ⟨rfl, rfl⟩
    | succ n =>
      rw [splitBytes]
      constructor
      · intro h
        cases h
      · rintro ⟨h, hlen⟩
        obtain ⟨rfl, rfl⟩ := List.append_eq_nil_iff.mp h.symm
        cases hlen
  | cons c t ih =>
    have hc : 0 < c.utf8Size := Char.utf8Size_pos c
    cases n with
    | zero =>
      rw [splitBytes, Option.some.injEq, Prod.mk.injEq]
      constructor
      · rintro ⟨rfl, rfl⟩
        exact ⟨rfl, rfl⟩
      · rintro ⟨h, hlen⟩
        cases u with
        | nil => exact ⟨rfl, h⟩
        | cons d u =>
          have hd : 0 < d.utf8Size := Char.utf8Size_pos d
          rw [byteLen_cons] at hlen
          omega
    | succ n =>
      rw [splitBytes]
      split
      · rename_i hle
        rw [Option.map_eq_some_iff]
        constructor
        · rintro ⟨⟨u', v'⟩, hsplit, heq⟩
          cases heq
          obtain ⟨rfl, hlen⟩ := ih.mp hsplit
          refine ⟨rfl, ?_⟩
          rw [byteLen_cons]
          omega
        · rintro ⟨h, hlen⟩
          cases u with
          | nil => cases hlen
          | cons d u =>
            obtain ⟨rfl, rfl⟩ := List.cons_eq_cons.mp h
            rw [byteLen_cons] at hlen
            refine ⟨(u, v), ih.mpr ⟨rfl, ?_⟩, rfl⟩
            omega
      · rename_i hle
        constructor
        · intro h
          cases h
        · rintro ⟨h, hlen⟩
          cases u with
          | nil => cases hlen
          | cons d u =>
            obtain ⟨rfl, rfl⟩ := List.cons_eq_cons.mp h
            rw [byteLen_cons] at hlen
            omega

theorem splitBytes_append (u v : Text) : splitBytes (byteLen u) (u ++ v) = some (u, v) :=
  splitBytes_eq_some_iff.mpr ⟨rfl, rfl⟩

theorem getBytes_append (a u v : Text) :
    getBytes (a ++ u ++ v) (byteLen a) (byteLen a + byteLen u) = some u := by
  have hle : byteLen a ≤ byteLen a + byteLen u := Nat.le_add_right _ _
  rw [getBytes, if_pos hle, List.append_assoc, splitBytes_append, Option.bind_eq_bind,
    Option.bind_some, Nat.add_sub_cancel_left]
  change (splitBytes (byteLen u) (u ++ v) >>= fun x => some x.1) = some u
  rw [splitBytes_append]
  rfl

theorem getBytes_eq_some {t m : Text} {first last : ℕ} (h : getBytes t first last = some m) :
    ∃ a b, t = a ++ m ++ b ∧ byteLen a = first ∧ byteLen a + byteLen m = last := by
  rw [getBytes] at h
  split at h
  · rename_i hle
    obtain ⟨⟨a, rest⟩, ha, h⟩ := Option.bind_eq_some_iff.mp h
    obtain ⟨⟨mid, b⟩, hb, h⟩ := Option.bind_eq_some_iff.mp h
    cases h
    obtain ⟨rfl, hlenA⟩ := splitBytes_eq_some_iff.mp ha
    obtain ⟨rfl, hlenM⟩ := splitBytes_eq_some_iff.mp hb
    refine ⟨a, b, ?_, hlenA, ?_⟩
    · rw [List.append_assoc]
    · omega
  · cases h

theorem getBytesFrom_append (a v : Text) : getBytesFrom (a ++ v) (byteLen a) = some v := by
  rw [getBytesFrom, splitBytes_append]
  rfl

/-- A part of a text by its first byte and its number of bytes. -/
structure Span where
  /-- The byte offset of the part. -/
  start : ℕ
  /-- The number of bytes of the part. -/
  len : ℕ
  deriving DecidableEq

/-- The offset behind a span. -/
def Span.stop (s : Span) : ℕ := s.start + s.len

/-- A text cut into parts that are kept, each with the part behind it that is replaced, and
what is kept behind them all. -/
structure Cuts where
  /-- The parts kept and the parts replaced behind them. -/
  parts : List (Text × Text)
  /-- What is behind the last part replaced. -/
  tail : Text

/-- The text that was cut. -/
def Cuts.text (cuts : Cuts) : Text := (cuts.parts.flatMap fun (g, m) => g ++ m) ++ cuts.tail

/-- The text with other parts in place of the replaced ones. -/
def Cuts.replaced (cuts : Cuts) (new : Text) : Text :=
  (cuts.parts.flatMap fun (g, _) => g ++ new) ++ cuts.tail

theorem Cuts.text_cons (g m : Text) (parts : List (Text × Text)) (tail : Text) :
    Cuts.text ⟨(g, m) :: parts, tail⟩ = g ++ m ++ Cuts.text ⟨parts, tail⟩ :=
  List.append_assoc _ _ _

theorem Cuts.replaced_cons (g m : Text) (parts : List (Text × Text)) (tail new : Text) :
    Cuts.replaced ⟨(g, m) :: parts, tail⟩ new = g ++ new ++ Cuts.replaced ⟨parts, tail⟩ new :=
  List.append_assoc _ _ _

/-- Where the replaced parts are. -/
def spansFrom : ℕ → List (Text × Text) → List Span
  | _, [] => []
  | offset, (g, m) :: parts =>
    ⟨offset + byteLen g, byteLen m⟩ :: spansFrom (offset + byteLen g + byteLen m) parts

/-- Where the replaced parts of a text are. -/
def Cuts.spans (cuts : Cuts) : List Span := spansFrom 0 cuts.parts

/-- The byte offsets at which a pattern occurs, each occurrence behind the one before it. -/
def matchIndicesFrom (pattern : Text) : ℕ → ℕ → Text → List ℕ
  | 0, _, _ => []
  | fuel + 1, offset, t =>
    match splitOnce pattern t with
    | none => []
    | some (before, after) =>
      (offset + byteLen before) ::
        matchIndicesFrom pattern fuel (offset + byteLen before + byteLen pattern) after

/-- The byte offsets at which a pattern that is not empty occurs in a text. -/
def matchIndices (pattern t : Text) : List ℕ := matchIndicesFrom pattern t.length 0 t

/-- The parts a pattern cuts a text into: no part that is kept is one where it would have been
found earlier. -/
structure CutBy (pattern : Text) (cuts : Cuts) : Prop where
  matched : ∀ part ∈ cuts.parts, part.2 = pattern
  first : ∀ part ∈ cuts.parts, FirstBehind pattern part.1
  tail : ¬ pattern <:+: cuts.tail

theorem exists_cuts_matchIndicesFrom {pattern : Text} (hp : pattern ≠ []) {fuel : ℕ} {t : Text}
    (hfuel : t.length ≤ fuel) (offset : ℕ) :
    ∃ cuts : Cuts, cuts.text = t ∧ CutBy pattern cuts ∧
      matchIndicesFrom pattern fuel offset t = (spansFrom offset cuts.parts).map Span.start := by
  have hnone {t : Text} (h : splitOnce pattern t = none) : CutBy pattern ⟨[], t⟩ :=
    ⟨nofun, nofun, splitOnce_eq_none_iff.mp h⟩
  induction fuel generalizing t offset with
  | zero =>
    have ht : t = [] := List.eq_nil_of_length_eq_zero (Nat.le_zero.mp hfuel)
    refine ⟨⟨[], t⟩, rfl, hnone ?_, rfl⟩
    rw [ht, splitOnce_eq_none_iff, List.infix_nil]
    exact hp
  | succ fuel ih =>
    rw [matchIndicesFrom]
    cases hsplit : splitOnce pattern t with
    | none => exact ⟨⟨[], t⟩, rfl, hnone hsplit, rfl⟩
    | some found =>
      obtain ⟨before, after⟩ := found
      obtain ⟨ht, hfirst⟩ := splitOnce_eq_some_iff.mp hsplit
      have hlen : after.length ≤ fuel := by
        have hpos : 0 < pattern.length := List.length_pos_iff.mpr hp
        have heq := congrArg List.length ht
        rw [List.length_append, List.length_append] at heq
        omega
      obtain ⟨cuts, htext, hcut, hindices⟩ :=
        ih hlen (offset + byteLen before + byteLen pattern)
      refine ⟨⟨(before, pattern) :: cuts.parts, cuts.tail⟩, ?_, ⟨?_, ?_, hcut.tail⟩, ?_⟩
      · rw [ht, ← htext, ← Cuts.text_cons]
      · rintro part (_ | ⟨_, hpart⟩)
        · rfl
        · exact hcut.matched part hpart
      · rintro part (_ | ⟨_, hpart⟩)
        · exact hfirst
        · exact hcut.first part hpart
      · rw [spansFrom, List.map_cons, ← hindices]

/-- The offsets at which a pattern occurs are where the parts it cuts a text into start. -/
theorem exists_cuts_matchIndices {pattern : Text} (hp : pattern ≠ []) (t : Text) :
    ∃ cuts : Cuts, cuts.text = t ∧ CutBy pattern cuts ∧
      matchIndices pattern t = cuts.spans.map Span.start :=
  exists_cuts_matchIndicesFrom hp le_rfl 0

/-- A span and a part of a text, given by its offsets, have a byte in common. -/
def Span.Meets (s : Span) (first last : ℕ) : Prop := s.start < last ∧ first < s.stop

theorem spansFrom_start_le {offset : ℕ} {parts : List (Text × Text)} {s : Span}
    (h : s ∈ spansFrom offset parts) : offset ≤ s.start := by
  induction parts generalizing offset with
  | nil => cases h
  | cons part parts ih =>
    rw [spansFrom] at h
    cases h with
    | head => exact Nat.le_add_right _ _
    | tail _ h =>
      have hle := ih h
      omega

/-- Every occurrence of a pattern starts within a part that the pattern cuts out. -/
theorem starts_spansFrom {pattern tail : Text} (hp : pattern ≠ []) {parts : List (Text × Text)}
    (hcut : CutBy pattern ⟨parts, tail⟩) (offset : ℕ) {a b : Text}
    (h : Cuts.text ⟨parts, tail⟩ = a ++ pattern ++ b) :
    ∃ s ∈ spansFrom offset parts, s.start ≤ offset + byteLen a ∧ offset + byteLen a < s.stop := by
  have hpos : 0 < byteLen pattern := byteLen_pos hp
  induction parts generalizing offset a with
  | nil => exact (hcut.tail ⟨a, b, h.symm⟩).elim
  | cons part parts ih =>
    obtain ⟨g, m⟩ := part
    have hm : m = pattern := hcut.matched _ List.mem_cons_self
    have hg : FirstBehind pattern g := hcut.first _ List.mem_cons_self
    subst hm
    have hrest : CutBy m ⟨parts, tail⟩ :=
      ⟨fun part hpart => hcut.matched part (List.mem_cons_of_mem _ hpart),
        fun part hpart => hcut.first part (List.mem_cons_of_mem _ hpart), hcut.tail⟩
    have hhere (h : byteLen g ≤ byteLen a ∧ byteLen a < byteLen g + byteLen m) :
        ∃ s ∈ spansFrom offset ((g, m) :: parts),
          s.start ≤ offset + byteLen a ∧ offset + byteLen a < s.stop := by
      refine ⟨_, List.mem_cons_self, ?_, ?_⟩
      · change offset + byteLen g ≤ _
        omega
      · change _ < offset + byteLen g + byteLen m
        omega
    have hbehind {a' : Text} (ha : a = g ++ m ++ a')
        (hb : Cuts.text ⟨parts, tail⟩ = a' ++ m ++ b) :
        ∃ s ∈ spansFrom offset ((g, m) :: parts),
          s.start ≤ offset + byteLen a ∧ offset + byteLen a < s.stop := by
      obtain ⟨s, hs, hstarts⟩ := ih hrest (offset + byteLen g + byteLen m) hb
      refine ⟨s, List.mem_cons_of_mem _ hs, ?_⟩
      rwa [ha, byteLen_append, byteLen_append, ← Nat.add_assoc, ← Nat.add_assoc]
    have htext : g ++ (m ++ Cuts.text ⟨parts, tail⟩) = a ++ (m ++ b) := by
      rw [← List.append_assoc, ← List.append_assoc, ← h, Cuts.text_cons]
    rcases List.append_eq_append_iff.mp htext with ⟨a', rfl, hb⟩ | ⟨s, rfl, hb⟩
    · rcases List.append_eq_append_iff.mp hb with ⟨a'', rfl, hrest'⟩ | ⟨s, hm, hrest'⟩
      · refine hbehind ?_ (hrest'.trans (List.append_assoc _ _ _).symm)
        rw [List.append_assoc]
      · have hlen := congrArg byteLen hm
        rw [byteLen_append] at hlen
        cases s with
        | nil =>
          rw [List.append_nil] at hm
          rw [← hm] at hbehind ⊢
          exact @hbehind [] (List.append_nil _).symm hrest'.symm
        | cons c s =>
          have hc : 0 < c.utf8Size := Char.utf8Size_pos c
          rw [byteLen_cons] at hlen
          refine hhere ⟨?_, ?_⟩ <;> rw [byteLen_append] <;> omega
    · cases s with
      | nil =>
        have hlen : byteLen (a ++ []) = byteLen a := by rw [List.append_nil]
        exact hhere ⟨by omega, by omega⟩
      | cons c s =>
        -- the occurrence would start in a part that is kept
        refine (hg (c :: s) ⟨a, rfl⟩ (List.cons_ne_nil c s) ?_).elim
        have hpre : m <+: c :: s ++ m ++ Cuts.text ⟨parts, tail⟩ := by
          refine ⟨b, ?_⟩
          rw [hb, List.append_assoc]
        exact (prefix_append_self_iff m (c :: s) _).mp hpre

theorem meets_spansFrom {pattern tail : Text} (hp : pattern ≠ []) {parts : List (Text × Text)}
    (hcut : CutBy pattern ⟨parts, tail⟩) (offset : ℕ) {a b : Text}
    (h : Cuts.text ⟨parts, tail⟩ = a ++ pattern ++ b) :
    ∃ s ∈ spansFrom offset parts,
      s.Meets (offset + byteLen a) (offset + byteLen a + byteLen pattern) := by
  obtain ⟨s, hs, hstart, hstop⟩ := starts_spansFrom hp hcut offset h
  have hpos : 0 < byteLen pattern := byteLen_pos hp
  exact ⟨s, hs, by omega, hstop⟩

end Ezer.Lib
