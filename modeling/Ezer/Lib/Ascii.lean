import Ezer.Lib.Slices

/-!
# ASCII bytes of a text

A byte below 128 in the encoding of a text is a character of its own, so a text
can be cut before and behind it.
-/

namespace Ezer.Lib

/-- A character is one ASCII byte, or bytes none of which is one. -/
theorem utf8EncodeChar_cases (c : Char) :
    (∃ b, b < 128 ∧ String.utf8EncodeChar c = [b]) ∨
      ∀ b ∈ String.utf8EncodeChar c, 128 ≤ b := by
  have hor : ∀ x y : UInt8, 128 ≤ y → 128 ≤ x ||| y := by
    intro x y hy
    rw [UInt8.le_iff_toNat_le] at hy ⊢
    rw [UInt8.toNat_or]
    exact Nat.le_trans hy Nat.right_le_or
  have hpos := c.utf8Size_pos
  have hle := c.utf8Size_le_four
  obtain hsize | hsize | hsize | hsize : c.utf8Size = 1 ∨ c.utf8Size = 2 ∨ c.utf8Size = 3 ∨
      c.utf8Size = 4 := by omega
  · refine Or.inl ⟨c.val.toUInt8, ?_, String.utf8EncodeChar_eq_singleton hsize⟩
    have hval := Char.utf8Size_eq_one_iff.mp hsize
    rw [UInt8.lt_iff_toNat_lt, UInt32.toNat_toUInt8]
    have hnat : c.val.toNat ≤ 127 := by simpa [UInt32.le_iff_toNat_le] using hval
    have h128 : (128 : UInt8).toNat = 128 := rfl
    omega
  · right
    rw [String.utf8EncodeChar_eq_cons_cons hsize]
    intro b hb
    simp only [List.mem_cons, List.not_mem_nil, or_false] at hb
    rcases hb with rfl | rfl
    · exact hor _ _ (by decide)
    · exact hor _ _ (by decide)
  · right
    rw [String.utf8EncodeChar_eq_cons_cons_cons hsize]
    intro b hb
    simp only [List.mem_cons, List.not_mem_nil, or_false] at hb
    rcases hb with rfl | rfl | rfl
    · exact hor _ _ (by decide)
    · exact hor _ _ (by decide)
    · exact hor _ _ (by decide)
  · right
    rw [String.utf8EncodeChar_eq_cons_cons_cons_cons hsize]
    intro b hb
    simp only [List.mem_cons, List.not_mem_nil, or_false] at hb
    rcases hb with rfl | rfl | rfl | rfl
    · exact hor _ _ (by decide)
    · exact hor _ _ (by decide)
    · exact hor _ _ (by decide)
    · exact hor _ _ (by decide)

/-- A character of one byte is known from the byte. -/
theorem char_eq_of_utf8EncodeChar {c d : Char} {b : UInt8} (hc : String.utf8EncodeChar c = [b])
    (hd : String.utf8EncodeChar d = [b]) : c = d := by
  have htoNat {c : Char} (hc : String.utf8EncodeChar c = [b]) : c.val.toNat = b.toNat := by
    have hlen := congrArg List.length hc
    rw [String.length_utf8EncodeChar, List.length_singleton] at hlen
    rw [String.utf8EncodeChar_eq_singleton hlen] at hc
    have hb : c.val.toUInt8 = b := (List.cons_eq_cons.mp hc).1
    have hval := Char.utf8Size_eq_one_iff.mp hlen
    have hnat : c.val.toNat ≤ 127 := by simpa [UInt32.le_iff_toNat_le] using hval
    rw [← hb, UInt32.toNat_toUInt8]
    omega
  apply Char.ext
  apply UInt32.toNat_inj.mp
  rw [htoNat hc, htoNat hd]

@[simp] theorem encodeUtf8_nil : encodeUtf8 [] = [] := rfl

@[simp] theorem encodeUtf8_cons (c : Char) (t : Text) :
    encodeUtf8 (c :: t) = String.utf8EncodeChar c ++ encodeUtf8 t := rfl

@[simp] theorem encodeUtf8_append (s t : Text) :
    encodeUtf8 (s ++ t) = encodeUtf8 s ++ encodeUtf8 t := List.flatMap_append

@[simp] theorem length_encodeUtf8 (t : Text) : (encodeUtf8 t).length = byteLen t := by
  induction t with
  | nil => rfl
  | cons c t ih => rw [encodeUtf8_cons, List.length_append, ih, String.length_utf8EncodeChar, byteLen_cons]

theorem encodeUtf8_eq_nil_iff {t : Text} : encodeUtf8 t = [] ↔ t = [] := by
  constructor
  · intro h
    by_contra hne
    have hpos := byteLen_pos hne
    rw [← length_encodeUtf8, h] at hpos
    exact Nat.lt_irrefl 0 hpos
  · rintro rfl
    rfl

/-- An ASCII byte is a character, with a text on either side. -/
theorem exists_char_of_ascii {t : Text} {xs ys : List UInt8} {b : UInt8}
    (h : encodeUtf8 t = xs ++ b :: ys) (hb : b < 128) :
    ∃ u c v, t = u ++ c :: v ∧ encodeUtf8 u = xs ∧ String.utf8EncodeChar c = [b] ∧
      encodeUtf8 v = ys := by
  induction t generalizing xs with
  | nil =>
    cases xs with
    | nil => cases h
    | cons x xs => cases h
  | cons c t ih =>
    rw [encodeUtf8_cons] at h
    rcases List.append_eq_append_iff.mp h with ⟨xs', rfl, htail⟩ | ⟨cs, hchar, htail⟩
    · obtain ⟨u, d, v, rfl, hu, hd, hv⟩ := ih htail
      exact ⟨c :: u, d, v, rfl, by rw [encodeUtf8_cons, hu], hd, hv⟩
    · cases cs with
      | nil =>
        rw [List.append_nil] at hchar
        obtain ⟨u, d, v, rfl, hu, hd, hv⟩ := @ih [] htail.symm
        obtain rfl := encodeUtf8_eq_nil_iff.mp hu
        exact ⟨[c], d, v, rfl, by rw [encodeUtf8_cons, hchar, encodeUtf8_nil, List.append_nil], hd, hv⟩
      | cons b' cs =>
        obtain ⟨rfl, htail⟩ := List.cons_eq_cons.mp htail
        obtain ⟨b'', -, hsingle⟩ | hhigh := utf8EncodeChar_cases c
        · rw [hsingle] at hchar
          obtain ⟨rfl, hrest⟩ | ⟨xs', rfl, hrest⟩ := List.cons_eq_append_iff.mp hchar
          · obtain ⟨rfl, rfl⟩ := List.cons_eq_cons.mp hrest
            exact ⟨[], c, t, rfl, rfl, hsingle, (List.cons_eq_cons.mp htail.symm).2⟩
          · have hlen := congrArg List.length hrest
            simp at hlen
        · have hmem : b ∈ String.utf8EncodeChar c := by
            rw [hchar]
            exact List.mem_append_right _ List.mem_cons_self
          exact absurd hb (UInt8.not_lt.mpr (hhigh b hmem))

/-- The character at an offset where a byte is that of an ASCII character. -/
theorem exists_of_getElem?_encodeUtf8 {t : Text} {i : ℕ} {c : Char} {b : UInt8}
    (hc : String.utf8EncodeChar c = [b]) (hb : b < 128) (h : (encodeUtf8 t)[i]? = some b) :
    ∃ u v, t = u ++ c :: v ∧ byteLen u = i := by
  obtain ⟨hi, hget⟩ := List.getElem?_eq_some_iff.mp h
  have hsplit : encodeUtf8 t = (encodeUtf8 t).take i ++ b :: (encodeUtf8 t).drop (i + 1) := by
    rw [← hget, List.cons_getElem_drop_succ, List.take_append_drop]
  obtain ⟨u, d, v, rfl, hu, hd, -⟩ := exists_char_of_ascii hsplit hb
  refine ⟨u, v, ?_, ?_⟩
  · rw [char_eq_of_utf8EncodeChar hc hd]
  · rw [← length_encodeUtf8, hu, List.length_take, Nat.min_eq_left hi.le]

theorem getElem?_encodeUtf8 {c : Char} {b : UInt8} (hc : String.utf8EncodeChar c = [b])
    (u v : Text) : (encodeUtf8 (u ++ c :: v))[byteLen u]? = some b := by
  rw [encodeUtf8_append, encodeUtf8_cons, hc, ← length_encodeUtf8,
    List.getElem?_append_right le_rfl, Nat.sub_self]
  rfl

/-- A text can be cut where the bytes behind start with an ASCII byte or end. -/
theorem exists_split_before {t : Text} {xs ys : List UInt8} (h : encodeUtf8 t = xs ++ ys)
    (hys : ∀ b ∈ ys.head?, b < 128) : ∃ u v, t = u ++ v ∧ encodeUtf8 u = xs ∧ encodeUtf8 v = ys := by
  cases ys with
  | nil =>
    rw [List.append_nil] at h
    exact ⟨t, [], (List.append_nil t).symm, h, rfl⟩
  | cons b ys =>
    obtain ⟨u, c, v, rfl, hu, hc, hv⟩ := exists_char_of_ascii h (hys b rfl)
    exact ⟨u, c :: v, rfl, hu, by rw [encodeUtf8_cons, hc, hv]; rfl⟩

/-- A text can be cut where the bytes before end with an ASCII byte or there are none. -/
theorem exists_split_behind {t : Text} {xs ys : List UInt8} (h : encodeUtf8 t = xs ++ ys)
    (hxs : ∀ b ∈ xs.getLast?, b < 128) :
    ∃ u v, t = u ++ v ∧ encodeUtf8 u = xs ∧ encodeUtf8 v = ys := by
  rcases List.eq_nil_or_concat xs with rfl | ⟨xs, b, rfl⟩
  · exact ⟨[], t, rfl, rfl, h⟩
  · rw [List.concat_eq_append] at h hxs ⊢
    rw [List.append_assoc] at h
    obtain ⟨u, c, v, rfl, hu, hc, hv⟩ := exists_char_of_ascii h (hxs b (by simp))
    exact ⟨u ++ [c], v, by simp, by simp [hu, hc], hv⟩

/-- An offset at which a text can be cut: the byte before it or the byte behind it is ASCII, or
there is none. -/
def CutAt (bytes : List UInt8) (n : ℕ) : Prop :=
  n ≤ bytes.length ∧
    ((∀ b ∈ (bytes.drop n).head?, b < 128) ∨ ∀ b ∈ (bytes.take n).getLast?, b < 128)

theorem cutAt_length (bytes : List UInt8) : CutAt bytes bytes.length := by
  refine ⟨le_rfl, Or.inl ?_⟩
  rw [List.drop_length]
  nofun

theorem cutAt_before {b : UInt8} (hb : b < 128) (xs ys : List UInt8) :
    CutAt (xs ++ b :: ys) xs.length := by
  refine ⟨by simp, Or.inl ?_⟩
  rw [List.drop_left]
  rintro _ ⟨⟩
  exact hb

theorem ascii_singleton {a : UInt8} (ha : a < 128) : ∀ b ∈ [a], b < 128 := by
  intro b hb
  rwa [List.mem_singleton.mp hb]

theorem ascii_pair {a c : UInt8} (ha : a < 128) (hc : c < 128) : ∀ b ∈ [a, c], b < 128 :=
  List.forall_mem_cons.mpr ⟨ha, ascii_singleton hc⟩

theorem cutAt_behind {xs : List UInt8} (hne : xs ≠ []) (hxs : ∀ b ∈ xs, b < 128)
    (ws ys : List UInt8) :
    CutAt (ws ++ xs ++ ys) (ws.length + xs.length) := by
  refine ⟨by simp, Or.inr ?_⟩
  rw [← List.length_append, List.take_left, List.getLast?_append_of_ne_nil _ hne]
  intro b hb
  exact hxs b (List.mem_of_getLast? hb)

theorem exists_splitBytes {t : Text} {n : ℕ} (h : CutAt (encodeUtf8 t) n) :
    ∃ u v, splitBytes n t = some (u, v) := by
  obtain ⟨hn, hascii⟩ := h
  have hbytes := (List.take_append_drop n (encodeUtf8 t)).symm
  obtain ⟨u, v, ht, hu, -⟩ := hascii.elim (exists_split_before hbytes) (exists_split_behind hbytes)
  refine ⟨u, v, splitBytes_eq_some_iff.mpr ⟨ht, ?_⟩⟩
  rw [← length_encodeUtf8, hu, List.length_take, Nat.min_eq_left hn]

theorem getBytes_of_splitBytes {t u v w x : Text} {first last : ℕ} (hle : first ≤ last)
    (hfirst : splitBytes first t = some (u, v)) (hlast : splitBytes last t = some (w, x)) :
    ∃ m, w = u ++ m ∧ v = m ++ x ∧ getBytes t first last = some m := by
  obtain ⟨ht, rfl⟩ := splitBytes_eq_some_iff.mp hfirst
  obtain ⟨ht', rfl⟩ := splitBytes_eq_some_iff.mp hlast
  rcases List.append_eq_append_iff.mp (ht.symm.trans ht') with ⟨m, rfl, rfl⟩ | ⟨m, rfl, rfl⟩
  · refine ⟨m, rfl, rfl, ?_⟩
    rw [ht', byteLen_append]
    exact getBytes_append u m x
  · have hm : m = [] := by
      by_contra hm
      have hpos := byteLen_pos hm
      rw [byteLen_append] at hle
      omega
    have hget := getBytes_append w [] v
    rw [List.append_nil, byteLen_nil, Nat.add_zero] at hget
    subst hm
    refine ⟨[], ?_, rfl, ?_⟩
    · rw [List.append_nil, List.append_nil]
    · rw [ht, List.append_nil]
      exact hget

theorem exists_getBytes {t : Text} {first last : ℕ} (hle : first ≤ last)
    (hfirst : CutAt (encodeUtf8 t) first) (hlast : CutAt (encodeUtf8 t) last) :
    ∃ m, getBytes t first last = some m := by
  obtain ⟨u, v, hu⟩ := exists_splitBytes hfirst
  obtain ⟨w, x, hw⟩ := exists_splitBytes hlast
  obtain ⟨m, -, -, hm⟩ := getBytes_of_splitBytes hle hu hw
  exact ⟨m, hm⟩

theorem splitBytes_append_right {n : ℕ} {t u v : Text} (h : splitBytes n t = some (u, v))
    (ext : Text) : splitBytes n (t ++ ext) = some (u, v ++ ext) := by
  obtain ⟨rfl, hlen⟩ := splitBytes_eq_some_iff.mp h
  exact splitBytes_eq_some_iff.mpr ⟨List.append_assoc u v ext, hlen⟩

theorem getBytes_append_right {t m : Text} {first last : ℕ} (h : getBytes t first last = some m)
    (ext : Text) : getBytes (t ++ ext) first last = some m := by
  obtain ⟨a, b, rfl, rfl, rfl⟩ := getBytes_eq_some h
  rw [List.append_assoc (a ++ m)]
  exact getBytes_append a m (b ++ ext)

theorem splitBytes_append_left (u t : Text) (n : ℕ) :
    splitBytes (byteLen u + n) (u ++ t) =
      (splitBytes n t).map fun (taken, rest) => (u ++ taken, rest) := by
  ext ⟨taken, rest⟩
  rw [splitBytes_eq_some_iff, Option.map_eq_some_iff]
  constructor
  · rintro ⟨heq, hlen⟩
    rcases List.append_eq_append_iff.mp heq with ⟨m, rfl, rfl⟩ | ⟨m, rfl, rfl⟩
    · refine ⟨(m, rest), splitBytes_eq_some_iff.mpr ⟨rfl, ?_⟩, rfl⟩
      rw [byteLen_append] at hlen
      omega
    · have hm : m = [] := by
        by_contra hm
        have hpos := byteLen_pos hm
        rw [byteLen_append] at hlen
        omega
      subst hm
      rw [byteLen_append, byteLen_nil] at hlen
      refine ⟨([], t), splitBytes_eq_some_iff.mpr ⟨rfl, ?_⟩, ?_⟩
      · rw [byteLen_nil]
        omega
      · exact congrArg (·, t) ((List.append_nil _).trans (List.append_nil _))
  · rintro ⟨⟨a, b⟩, hsplit, heq⟩
    obtain ⟨rfl, rfl⟩ := splitBytes_eq_some_iff.mp hsplit
    cases heq
    exact ⟨(List.append_assoc u a rest).symm, byteLen_append u a⟩

end Ezer.Lib
