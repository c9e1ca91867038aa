import Ezer.Lib.Slices
import Ezer.Lib.Trim

/-!
# Finding and replacing a pattern

The first and the last place of a pattern in a text, and the text with another
one put in place of every occurrence. A pattern that its first character only
begins has no place across a text and one that starts with that character.
-/

namespace Ezer.Lib

/-- The byte offset of the first place where a pattern occurs. -/
def find (pattern t : Text) : Option ℕ := (splitOnce pattern t).map fun cut => byteLen cut.1

/-- The texts before and after the last occurrence of a pattern. -/
def splitLast (pattern : Text) : Text → Option (Text × Text)
  | [] => if pattern.isEmpty then some ([], []) else none
  | c :: cs =>
    match splitLast pattern cs with
    | some (before, after) => some (c :: before, after)
    | none =>
      if pattern.isPrefixOf (c :: cs) then some ([], (c :: cs).drop pattern.length) else none

/-- The byte offset of the last place where a pattern occurs. -/
def rfind (pattern t : Text) : Option ℕ := (splitLast pattern t).map fun cut => byteLen cut.1

/-- A text with another one in place of the first occurrences of a pattern. -/
def replaceUpTo (pattern new : Text) : ℕ → Text → Text
  | 0, t => t
  | n + 1, t =>
    match splitOnce pattern t with
    | none => t
    | some (before, after) => before ++ new ++ replaceUpTo pattern new n after

/-- A text with another one in place of every occurrence of a pattern that is not empty. -/
def replaceAll (pattern new t : Text) : Text := replaceUpTo pattern new t.length t

variable {p t u v : Text}

theorem find_eq_some_iff {n : ℕ} :
    find p t = some n ↔ ∃ u v, t = u ++ p ++ v ∧ FirstBehind p u ∧ byteLen u = n := by
  rw [find, Option.map_eq_some_iff]
  constructor
  · rintro ⟨⟨u, v⟩, hsplit, hn⟩
    obtain ⟨ht, hfirst⟩ := splitOnce_eq_some_iff.mp hsplit
    exact ⟨u, v, ht, hfirst, hn⟩
  · rintro ⟨u, v, ht, hfirst, hn⟩
    exact ⟨(u, v), splitOnce_eq_some_iff.mpr ⟨ht, hfirst⟩, hn⟩

theorem find_eq_none_iff : find p t = none ↔ ¬ p <:+: t := by
  rw [find, Option.map_eq_none_iff, splitOnce_eq_none_iff]

/-- The first place of a pattern is no later than any other one. -/
theorem FirstBehind.exists_append {q k : Text} (h : FirstBehind p u)
    (heq : u ++ p ++ v = q ++ (p ++ k)) : ∃ r, q = u ++ r ∧ p ++ v = r ++ (p ++ k) := by
  rw [List.append_assoc] at heq
  rcases List.append_eq_append_iff.mp heq with ⟨r, hq, hr⟩ | ⟨r, hu, hr⟩
  · exact ⟨r, hq, hr⟩
  · by_cases hnil : r = []
    · subst hnil
      exact ⟨[], by rw [hu, List.append_nil, List.append_nil], hr.symm⟩
    · have hsuffix : r <:+ u := ⟨q, hu.symm⟩
      have hpre : p <+: r ++ p ++ v := ⟨k, by rw [hr, List.append_assoc]⟩
      exact (h r hsuffix hnil ((prefix_append_self_iff p r v).mp hpre)).elim

theorem eq_of_splitLast (h : splitLast p t = some (u, v)) :
    t = u ++ p ++ v := by
  induction t generalizing u with
  | nil =>
    unfold splitLast at h
    split at h
    · rename_i hempty
      cases h
      rw [List.isEmpty_iff.mp hempty]
      rfl
    · cases h
  | cons c cs ih =>
    unfold splitLast at h
    split at h
    · rename_i before after hsplit
      cases h
      rw [ih hsplit]
      rfl
    · split at h
      · rename_i hpre
        cases h
        obtain ⟨rest, hrest⟩ := List.isPrefixOf_iff_prefix.mp hpre
        rw [← hrest, List.drop_left]
        rfl
      · cases h

theorem splitLast_eq_none_iff : splitLast p t = none ↔ ¬ p <:+: t := by
  induction t with
  | nil =>
    unfold splitLast
    rw [List.infix_nil]
    cases p with
    | nil => simp
    | cons c p => simp
  | cons c t ih =>
    rw [List.infix_cons_iff, ← List.isPrefixOf_iff_prefix]
    unfold splitLast
    cases hsplit : splitLast p t with
    | some found =>
      have hmem : p <:+: t := by
        by_contra hno
        rw [ih.mpr hno] at hsplit
        cases hsplit
      simp [hmem]
    | none =>
      have hno := ih.mp hsplit
      simp [hno]

/-- The last place of a pattern has no other one behind its first character. -/
theorem splitLast_last (hp : p ≠ []) (h : splitLast p t = some (u, v)) :
    ¬ p <:+: (p ++ v).tail := by
  induction t generalizing u with
  | nil =>
    unfold splitLast at h
    rw [if_neg (by rwa [List.isEmpty_iff])] at h
    cases h
  | cons c cs ih =>
    unfold splitLast at h
    split at h
    · rename_i before after hsplit
      cases h
      exact ih hsplit
    · rename_i hnone
      split at h
      · rename_i hpre
        cases h
        obtain ⟨rest, hrest⟩ := List.isPrefixOf_iff_prefix.mp hpre
        rw [← hrest, List.drop_left, hrest]
        exact splitLast_eq_none_iff.mp hnone
      · cases h

theorem rfind_eq_some {n : ℕ} (hp : p ≠ []) (h : rfind p t = some n) :
    ∃ u v, t = u ++ p ++ v ∧ ¬ p <:+: (p ++ v).tail ∧ byteLen u = n := by
  obtain ⟨⟨u, v⟩, hsplit, hn⟩ := Option.map_eq_some_iff.mp h
  exact ⟨u, v, eq_of_splitLast hsplit, splitLast_last hp hsplit, hn⟩

theorem rfind_eq_none_iff : rfind p t = none ↔ ¬ p <:+: t := by
  rw [rfind, Option.map_eq_none_iff, splitLast_eq_none_iff]

/-- A pattern that occurs has a first place. -/
theorem exists_find (h : p <:+: t) : ∃ n, find p t = some n :=
  Option.ne_none_iff_exists'.mp fun hnone => find_eq_none_iff.mp hnone h

/-- A pattern that occurs has a last place. -/
theorem exists_rfind (h : p <:+: t) : ∃ n, rfind p t = some n :=
  Option.ne_none_iff_exists'.mp fun hnone => rfind_eq_none_iff.mp hnone h

section Headed

/-- A pattern that begins with the given character and has it nowhere else. -/
def Headed (c : Char) (p : Text) : Prop := p.head? = some c ∧ c ∉ p.tail

instance (c : Char) (p : Text) : Decidable (Headed c p) :=
  inferInstanceAs (Decidable (_ ∧ _))

variable {c : Char} {p : Text}

theorem Headed.ne_nil (h : Headed c p) : p ≠ [] := by
  rintro rfl
  cases h.1

theorem Headed.exists_cons (h : Headed c p) : ∃ q, p = c :: q ∧ c ∉ q := by
  cases p with
  | nil => exact (h.ne_nil rfl).elim
  | cons d q =>
    obtain rfl : d = c := Option.some.inj h.1
    exact ⟨q, rfl, h.2⟩

/-- A place of the pattern in two texts in a row, of which the second starts with the first
character of the pattern or is empty, is in one of them. -/
theorem Headed.cut (h : Headed c p) {u v x k : Text} (hk : ∀ d ∈ k.head?, d = c)
    (heq : u ++ p ++ v = x ++ k) :
    (∃ r, x = u ++ p ++ r ∧ v = r ++ k) ∨ ∃ r, u = x ++ r ∧ k = r ++ p ++ v := by
  rw [List.append_assoc] at heq
  rcases List.append_eq_append_iff.mp heq with ⟨r, hx, hr⟩ | ⟨r, hu, hr⟩
  · rcases List.append_eq_append_iff.mp hr with ⟨s, hr', hv⟩ | ⟨s, hp, hk'⟩
    · exact .inl ⟨s, by rw [hx, hr', List.append_assoc], hv⟩
    · cases s with
      | nil =>
        rw [List.append_nil] at hp
        exact .inl ⟨[], by rw [hx, hp, List.append_nil], hk'.symm⟩
      | cons d s =>
        rw [hk'] at hk
        obtain rfl : d = c := hk d rfl
        cases r with
        | nil =>
          exact .inr ⟨[], by rw [hx, List.append_nil, List.append_nil], by rw [hk', hp]; rfl⟩
        | cons e r =>
          -- The rest of the pattern would have its first character once more.
          refine (h.2 ?_).elim
          rw [hp]
          exact List.mem_append_right _ (List.mem_cons_self ..)
  · exact .inr ⟨r, hu, by rw [hr, List.append_assoc]⟩

theorem Headed.infix_append_iff (h : Headed c p) {x k : Text} (hk : ∀ d ∈ k.head?, d = c) :
    p <:+: x ++ k ↔ p <:+: x ∨ p <:+: k := by
  rw [List.infix_append_iff_ne_nil]
  constructor
  · rintro (hx | hk' | ⟨a, b, ha, hb, hp, -, hpre⟩)
    · exact .inl hx
    · exact .inr hk'
    · obtain ⟨e, a, rfl⟩ := List.exists_cons_of_ne_nil ha
      obtain ⟨d, b, rfl⟩ := List.exists_cons_of_ne_nil hb
      obtain ⟨r, rfl⟩ := hpre
      obtain rfl : d = c := hk d rfl
      refine (h.2 ?_).elim
      rw [hp]
      exact List.mem_append_right _ (List.mem_cons_self ..)
  · rintro (hx | hk')
    · exact .inl hx
    · exact .inr (.inl hk')

/-- A text without the first character of the pattern adds no place of the pattern. -/
theorem Headed.infix_append_left_iff (h : Headed c p) {x k : Text} (hx : c ∉ x) :
    p <:+: x ++ k ↔ p <:+: k := by
  induction x with
  | nil => rw [List.nil_append]
  | cons d x ih =>
    obtain ⟨hd, hx⟩ := List.ne_and_not_mem_of_not_mem_cons hx
    rw [List.cons_append, List.infix_cons_iff, ih hx]
    refine or_iff_right fun hpre => ?_
    obtain ⟨q, rfl, -⟩ := h.exists_cons
    exact hd (List.cons_prefix_cons.mp hpre).1

/-- A pattern is found last where its first character does not stand behind it. -/
theorem Headed.rfind_append (h : Headed c p) {v : Text} (hv : c ∉ v) (u : Text) :
    rfind p (u ++ p ++ v) = some (byteLen u) := by
  obtain ⟨n, hn⟩ := exists_rfind (List.infix_append u p v)
  obtain ⟨a, b, heq, hlast, rfl⟩ := rfind_eq_some h.ne_nil hn
  obtain ⟨q, rfl, hq⟩ := h.exists_cons
  have hk : ∀ d ∈ (c :: q ++ v).head?, d = c := fun d hd => (Option.some.inj hd).symm
  rw [List.append_assoc] at heq
  rcases h.cut hk heq.symm with ⟨r, -, hb⟩ | ⟨r, hr, hrest⟩
  · refine (hlast ?_).elim
    rw [hb]
    refine List.IsInfix.trans ?_ (List.suffix_append q _).isInfix
    rw [← List.append_assoc]
    exact List.infix_append r (c :: q) v
  · cases r with
    | nil =>
      rw [hn, hr, List.append_nil]
    | cons d r =>
      rw [List.append_assoc] at hrest
      have hqv : q ++ v = r ++ (c :: q ++ b) := (List.cons_eq_cons.mp hrest).2
      have hmem : c ∈ q ++ v := by
        rw [hqv]
        exact List.mem_append_right _ (List.mem_cons_self ..)
      exact ((List.mem_append.mp hmem).elim hq hv).elim

end Headed

section Replacing

variable {p new : Text}

theorem replaceUpTo_eq (hp : p ≠ []) {n m : ℕ} {t : Text} (hn : t.length ≤ n)
    (hm : t.length ≤ m) : replaceUpTo p new n t = replaceUpTo p new m t := by
  induction n generalizing m t with
  | zero =>
    have ht : t = [] := List.eq_nil_of_length_eq_zero (Nat.le_zero.mp hn)
    subst ht
    have hsplit : splitOnce p [] = none := splitOnce_eq_none_iff.mpr (by rwa [List.infix_nil])
    cases m with
    | zero => rfl
    | succ m => simp only [replaceUpTo, hsplit]
  | succ n ih =>
    cases hsplit : splitOnce p t with
    | none =>
      cases m with
      | zero | succ => simp only [replaceUpTo, hsplit]
    | some found =>
      obtain ⟨before, after⟩ := found
      have hpos : 0 < p.length := List.length_pos_iff.mpr hp
      have hlen := congrArg List.length (eq_of_splitOnce hsplit)
      rw [List.length_append, List.length_append] at hlen
      cases m with
      | zero => omega
      | succ m =>
        simp only [replaceUpTo, hsplit]
        rw [ih (m := m) (by omega) (by omega)]

theorem replaceAll_of_absent {t : Text} (h : ¬ p <:+: t) : replaceAll p new t = t := by
  unfold replaceAll
  cases t with
  | nil => rfl
  | cons c t =>
    rw [List.length_cons]
    simp only [replaceUpTo, splitOnce_eq_none_iff.mpr h]

theorem replaceAll_append_pattern (hp : p ≠ []) {u : Text} (hu : FirstBehind p u) (v : Text) :
    replaceAll p new (u ++ p ++ v) = u ++ new ++ replaceAll p new v := by
  have hpos : 0 < p.length := List.length_pos_iff.mpr hp
  obtain ⟨n, hn⟩ : ∃ n, (u ++ p ++ v).length = n + 1 := by
    refine ⟨(u ++ p ++ v).length - 1, ?_⟩
    rw [List.length_append, List.length_append]
    omega
  have hv : v.length ≤ n := by
    rw [List.length_append, List.length_append] at hn
    omega
  rw [replaceAll, hn]
  simp only [replaceUpTo, splitOnce_of_firstBehind hu]
  rw [replaceAll, replaceUpTo_eq hp hv le_rfl]

/-- A text has no place of the pattern, or is what is before the first place, the pattern and
what is behind it. -/
theorem replace_induction (hp : p ≠ []) {motive : Text → Prop}
    (none : ∀ t, ¬ p <:+: t → motive t)
    (some : ∀ u v, FirstBehind p u → motive v → motive (u ++ p ++ v)) (t : Text) : motive t := by
  induction hn : t.length using Nat.strong_induction_on generalizing t with
  | _ n ih =>
    subst hn
    cases hsplit : splitOnce p t with
    | none => exact none t (splitOnce_eq_none_iff.mp hsplit)
    | some found =>
      obtain ⟨u, v⟩ := found
      obtain ⟨rfl, hu⟩ := splitOnce_eq_some_iff.mp hsplit
      have hpos : 0 < p.length := List.length_pos_iff.mpr hp
      refine some u v hu (ih v.length ?_ v rfl)
      rw [List.length_append, List.length_append]
      omega

/-- Replacing a pattern where it occurs by a shorter text makes the text shorter. -/
theorem length_replaceAll_lt (hnew : new.length < p.length) {t : Text} (h : p <:+: t) :
    (replaceAll p new t).length < t.length := by
  have hp : p ≠ [] := List.ne_nil_of_length_pos (Nat.zero_lt_of_lt hnew)
  have hle : ∀ t, (replaceAll p new t).length ≤ t.length := by
    intro t
    induction t using replace_induction hp with
    | none t ht => rw [replaceAll_of_absent ht]
    | some u v hu ih =>
      rw [replaceAll_append_pattern hp hu]
      simp only [List.length_append]
      omega
  induction t using replace_induction hp with
  | none t ht => exact (ht h).elim
  | some u v hu _ =>
    have hv := hle v
    rw [replaceAll_append_pattern hp hu]
    simp only [List.length_append]
    omega

/-- Where no place of the pattern reaches from one text into the next one, the pattern is replaced
in each of them. -/
theorem replaceAll_append (hp : p ≠ []) {u v : Text}
    (hcut : ∀ s, s <:+ u → s ≠ [] → p <+: s ++ v → p <+: s) :
    replaceAll p new (u ++ v) = replaceAll p new u ++ replaceAll p new v := by
  induction u using replace_induction hp with
  | some a b ha ih =>
    have hb : ∀ s, s <:+ b → s ≠ [] → p <+: s ++ v → p <+: s :=
      fun s hs => hcut s (hs.trans (List.suffix_append _ b))
    rw [List.append_assoc, replaceAll_append_pattern hp ha, ih hb, replaceAll_append_pattern hp ha,
      ← List.append_assoc]
  | none u hu =>
    rw [replaceAll_of_absent hu]
    have hno : ∀ s, s <:+ u → s ≠ [] → ¬ p <+: s ++ v :=
      fun s hs hne hpre => hu ((hcut s hs hne hpre).isInfix.trans hs.isInfix)
    induction v using replace_induction hp with
    | none v hv =>
      rw [replaceAll_of_absent hv]
      refine replaceAll_of_absent fun hplace => ?_
      obtain ⟨s, r, heq⟩ := hplace
      rw [List.append_assoc] at heq
      rcases List.append_eq_append_iff.mp heq with ⟨w, hw, hr⟩ | ⟨w, -, hv'⟩
      · by_cases hnil : w = []
        · subst hnil
          exact hv ⟨[], r, hr⟩
        · exact hno w ⟨s, hw.symm⟩ hnil ⟨r, hr⟩
      · exact hv ⟨w, r, by rw [hv', List.append_assoc]⟩
    | some a b ha _ =>
      have hfirst : FirstBehind p (u ++ a) := by
        intro s hs hne hpre
        obtain ⟨x, hx⟩ := hs
        rcases List.append_eq_append_iff.mp hx with ⟨w, hw, rfl⟩ | ⟨w, -, haw⟩
        · by_cases hnil : w = []
          · subst hnil
            exact ha a List.suffix_rfl hne hpre
          · refine hno w ⟨x, hw.symm⟩ hnil ?_
            rw [← List.append_assoc, ← List.append_assoc]
            exact hpre.trans (List.prefix_append _ b)
        · exact ha s ⟨w, haw.symm⟩ hne hpre
      rw [← List.append_assoc, ← List.append_assoc, replaceAll_append_pattern hp hfirst,
        replaceAll_append_pattern hp ha]
      simp only [List.append_assoc]

/-- A text that ends as before keeps its last character. -/
theorem getLast?_replaceAll (hp : p ≠ []) (hnew : new ≠ []) (hlast : new.getLast? = p.getLast?)
    (t : Text) : (replaceAll p new t).getLast? = t.getLast? := by
  induction t using replace_induction hp with
  | none t ht => rw [replaceAll_of_absent ht]
  | some u v hu ih =>
    have hends : (u ++ new).getLast? = (u ++ p).getLast? := by
      rw [List.getLast?_append_of_ne_nil _ hnew, List.getLast?_append_of_ne_nil _ hp, hlast]
    rw [replaceAll_append_pattern hp hu, List.getLast?_append, List.getLast?_append (l := u ++ p),
      ih, hends]

/-- No place of a pattern reaches over a character the pattern has at most as its last one. -/
theorem replaceAll_append_of_getLast? (hp : p ≠ []) {u v : Text}
    (hu : ∀ x ∈ u.getLast?, x ∉ p.dropLast) :
    replaceAll p new (u ++ v) = replaceAll p new u ++ replaceAll p new v := by
  refine replaceAll_append hp fun s hs hne hpre => ?_
  rcases List.prefix_or_prefix_of_prefix hpre (List.prefix_append s v) with h | ⟨r, hr⟩
  · exact h
  · cases r with
    | nil =>
      rw [List.append_nil] at hr
      exact hr ▸ List.prefix_rfl
    | cons d r =>
      -- The last character of the part would stand inside the pattern.
      have hlast : s.getLast? = some (s.getLast hne) := List.getLast?_eq_some_getLast hne
      obtain ⟨x, rfl⟩ := hs
      refine (hu (s.getLast hne) ?_ ?_).elim
      · rw [List.getLast?_append_of_ne_nil _ hne, hlast]
        rfl
      · rw [← hr, List.dropLast_append_of_ne_nil (List.cons_ne_nil _ _)]
        exact List.mem_append_left _ (List.getLast_mem hne)

end Replacing

/-- A place of a pattern is on one side of a character the pattern does not have. -/
theorem infix_append_cons_iff {d : Char} (hd : d ∉ p) :
    p <:+: u ++ d :: v ↔ p <:+: u ∨ p <:+: v := by
  have hcons : p <:+: d :: v ↔ p <:+: v := by
    rw [List.infix_cons_iff]
    refine ⟨?_, .inr⟩
    rintro (hpre | hv)
    · cases p with
      | nil => exact List.nil_infix
      | cons e p =>
        obtain rfl := (List.cons_prefix_cons.mp hpre).1
        exact (hd (List.mem_cons_self ..)).elim
    · exact hv
  rw [List.infix_append_iff_ne_nil, hcons]
  refine or_congr_right (or_iff_left ?_)
  rintro ⟨a, b, -, hb, rfl, -, hpre⟩
  obtain ⟨e, b, rfl⟩ := List.exists_cons_of_ne_nil hb
  obtain rfl := (List.cons_prefix_cons.mp hpre).1
  exact hd (List.mem_append_right _ (List.mem_cons_self ..))

/-- No place of a pattern reaches over a character the pattern has at most as its last one. -/
theorem infix_append_iff_of_getLast? (hu : ∀ x ∈ u.getLast?, x ∉ p.dropLast) :
    p <:+: u ++ v ↔ p <:+: u ∨ p <:+: v := by
  rw [List.infix_append_iff_ne_nil]
  refine or_congr_right (or_iff_left ?_)
  rintro ⟨a, b, ha, hb, rfl, ⟨x, rfl⟩, -⟩
  refine hu (a.getLast ha) ?_ ?_
  · rw [List.getLast?_append_of_ne_nil _ ha, List.getLast?_eq_some_getLast ha]
    rfl
  · rw [List.dropLast_append_of_ne_nil hb]
    exact List.mem_append_left _ (List.getLast_mem ha)

/-- A pattern has no place in a run of a character it does not have. -/
theorem infix_replicate_append_iff {c : Char} (hc : c ∉ p) (m : ℕ) (v : Text) :
    p <:+: List.replicate m c ++ v ↔ p <:+: v := by
  induction m with
  | zero => rfl
  | succ m ih =>
    have hcons := infix_append_cons_iff (u := []) (v := List.replicate m c ++ v) hc
    rw [List.nil_append, ih] at hcons
    rw [List.replicate_succ, List.cons_append, hcons]
    refine or_iff_right_of_imp fun hnil => ?_
    rw [List.infix_nil.mp hnil]
    exact List.nil_infix

/-- Making runs of a character shorter adds no place of a pattern without the character. -/
theorem infix_of_replaceAll_replicate {c : Char} (hc : c ∉ p) {m n : ℕ}
    (h : p <:+: replaceAll (List.replicate (n + 1) c) (List.replicate (m + 1) c) t) : p <:+: t := by
  have hrun : List.replicate (n + 1) c ≠ [] := List.cons_ne_nil c _
  induction t using replace_induction hrun with
  | none t ht => rwa [replaceAll_of_absent ht] at h
  | some u v hu ih =>
    rw [replaceAll_append_pattern hrun hu, List.append_assoc, List.replicate_succ, List.cons_append,
      infix_append_cons_iff hc, infix_replicate_append_iff hc] at h
    rw [List.append_assoc, List.replicate_succ, List.cons_append, infix_append_cons_iff hc,
      infix_replicate_append_iff hc]
    exact h.imp_right ih

/-- A pattern does not reach over a character it does not have. -/
theorem prefix_append_cons_iff {d : Char} (hd : d ∉ p) :
    p <+: u ++ d :: v ↔ p <+: u := by
  refine ⟨fun h => ?_, fun h => h.trans (List.prefix_append u _)⟩
  rcases List.prefix_or_prefix_of_prefix h (List.prefix_append u _) with hu | ⟨r, rfl⟩
  · exact hu
  · have hr := (List.prefix_append_right_inj u).mp h
    cases r with
    | nil =>
      rw [List.append_nil]
    | cons e r =>
      obtain rfl := (List.cons_prefix_cons.mp hr).1
      exact (hd (List.mem_append_right _ (List.mem_cons_self ..))).elim

/-- A pattern is found before a character it does not have, or behind it. -/
theorem splitOnce_append_cons {d : Char} (hp : p ≠ []) (hd : d ∉ p) (u v : Text) :
    splitOnce p (u ++ d :: v) =
      match splitOnce p u with
      | some (before, after) => some (before, after ++ d :: v)
      | none => (splitOnce p v).map fun (before, after) => (u ++ d :: before, after) := by
  induction u with
  | nil =>
    have hnil : splitOnce p [] = none := splitOnce_eq_none_iff.mpr (by rwa [List.infix_nil])
    have hpre : p.isPrefixOf (d :: v) = false := by
      rw [Bool.eq_false_iff, ne_eq, List.isPrefixOf_iff_prefix]
      intro h
      exact hp (List.prefix_nil.mp ((prefix_append_cons_iff (u := []) hd).mp h))
    rw [List.nil_append, hnil, splitOnce, hpre]
    rfl
  | cons c u ih =>
    have hiff := prefix_append_cons_iff (u := c :: u) (v := v) hd
    rw [List.cons_append] at hiff
    rw [List.cons_append, splitOnce, splitOnce]
    by_cases hpre : p <+: c :: u
    · rw [if_pos (List.isPrefixOf_iff_prefix.mpr (hiff.mpr hpre)),
        if_pos (List.isPrefixOf_iff_prefix.mpr hpre), ← List.cons_append,
        List.drop_append_of_le_length hpre.length_le]
    · rw [if_neg fun h => hpre (hiff.mp (List.isPrefixOf_iff_prefix.mp h)),
        if_neg fun h => hpre (List.isPrefixOf_iff_prefix.mp h), ih]
      cases splitOnce p u with
      | some found => rfl
      | none =>
        cases splitOnce p v with
        | some found => rfl
        | none => rfl

section Defusing

variable {c z : Char} {q : Text}

/-- A pattern with a character put behind its first one has no place any more, and no other
pattern that begins like it has a new one. -/
theorem Headed.infix_replaceAll {p t : Text} (hp : Headed c p) (hone : p.tail ≠ [])
    (hz : z ∉ p) (hq : Headed c (c :: q))
    (h : p <:+: replaceAll (c :: q) (c :: z :: q) t) : p <:+: t ∧ p ≠ c :: q := by
  induction t using replace_induction hq.ne_nil with
  | none t ht =>
    rw [replaceAll_of_absent ht] at h
    exact ⟨h, fun heq => ht (heq ▸ h)⟩
  | some u v hu ih =>
    rw [replaceAll_append_pattern hq.ne_nil hu, List.append_assoc] at h
    have hhead : ∀ d ∈ (c :: z :: q ++ replaceAll (c :: q) (c :: z :: q) v).head?, d = c :=
      fun d hd => (Option.some.inj hd).symm
    rcases (hp.infix_append_iff hhead).mp h with h | h
    · refine ⟨h.trans ((List.prefix_append u _).trans (List.prefix_append _ v)).isInfix, ?_⟩
      rintro rfl
      obtain ⟨s, r, rfl⟩ := h
      have hsuffix : c :: q ++ r <:+ s ++ (c :: q) ++ r := ⟨s, (List.append_assoc ..).symm⟩
      refine hu _ hsuffix (List.cons_ne_nil _ _) ?_
      rw [List.append_assoc]
      exact List.prefix_append _ _
    · have hmark : p <:+: [c] ++ z :: (q ++ replaceAll (c :: q) (c :: z :: q) v) := h
      have hcq : c ∉ q := hq.2
      rw [infix_append_cons_iff hz, hp.infix_append_left_iff hcq] at hmark
      rcases hmark with hmark | hmark
      · obtain ⟨r, rfl, -⟩ := hp.exists_cons
        have hlen := hmark.length_le
        have hpos : 0 < r.length := List.length_pos_iff.mpr hone
        rw [List.length_cons, List.length_singleton] at hlen
        omega
      · obtain ⟨hv, hne⟩ := ih hmark
        exact ⟨hv.trans (List.suffix_append _ v).isInfix, hne⟩

end Defusing

section CutRuns

variable (c : Char) (limit : ℕ)

/-- A text with every run of a character cut to a limit, where so many of the first run stand
before it. -/
def cutRuns : ℕ → Text → Text
  | _, [] => []
  | n, d :: t =>
    if d = c then if n < limit then d :: cutRuns (n + 1) t else cutRuns n t
    else d :: cutRuns 0 t

/-- How many of a run stand at the end of a text, as far as they count. -/
def runAfter : ℕ → Text → ℕ
  | n, [] => n
  | n, d :: t => if d = c then if n < limit then runAfter (n + 1) t else runAfter n t else runAfter 0 t

theorem cutRuns_append (n : ℕ) (u v : Text) :
    cutRuns c limit n (u ++ v) = cutRuns c limit n u ++ cutRuns c limit (runAfter c limit n u) v := by
  induction u generalizing n with
  | nil => rfl
  | cons d u ih =>
    rw [List.cons_append, cutRuns, cutRuns, runAfter]
    split
    · split
      · rw [ih, List.cons_append]
      · exact ih n
    · rw [ih, List.cons_append]

variable {n : ℕ}

theorem runAfter_le (hn : n ≤ limit) (t : Text) : runAfter c limit n t ≤ limit := by
  induction t generalizing n with
  | nil => exact hn
  | cons d t ih =>
    unfold runAfter
    split
    · split
      · rename_i hlt
        exact ih hlt
      · exact ih hn
    · exact ih (Nat.zero_le limit)

theorem cutRuns_replicate_limit (m : ℕ) (t : Text) :
    cutRuns c limit limit (List.replicate m c ++ t) = cutRuns c limit limit t := by
  induction m with
  | zero => rfl
  | succ m ih =>
    rw [List.replicate_succ, List.cons_append, cutRuns, if_pos rfl, if_neg (lt_irrefl limit), ih]

/-- Of a run of more than the limit as much is kept as of a run of the limit. -/
theorem cutRuns_replicate {m : ℕ} (hn : n ≤ limit) (hm : limit ≤ n + m) (t : Text) :
    cutRuns c limit n (List.replicate m c ++ t) =
      List.replicate (limit - n) c ++ cutRuns c limit limit t := by
  induction m generalizing n with
  | zero =>
    obtain rfl : n = limit := by omega
    rw [Nat.sub_self]
    rfl
  | succ m ih =>
    by_cases hlt : n < limit
    · have hsub : limit - n = limit - (n + 1) + 1 := by omega
      rw [List.replicate_succ, List.cons_append, cutRuns, if_pos rfl, if_pos hlt,
        ih hlt (by omega), hsub, List.replicate_succ, List.cons_append]
    · obtain rfl : n = limit := by omega
      rw [cutRuns_replicate_limit, Nat.sub_self]
      rfl

/-- Taking one character out of runs that are too long changes nothing that is kept. -/
theorem cutRuns_replaceAll (hn : n ≤ limit) (t : Text) :
    cutRuns c limit n (replaceAll (List.replicate (limit + 1) c) (List.replicate limit c) t) =
      cutRuns c limit n t := by
  have hp : List.replicate (limit + 1) c ≠ [] := List.cons_ne_nil c _
  induction t using replace_induction hp generalizing n with
  | none t ht => rw [replaceAll_of_absent ht]
  | some u v hu ih =>
    have hle := runAfter_le c limit hn u
    have hnew := cutRuns_replicate c limit (m := limit) hle (by omega)
    have hold := cutRuns_replicate c limit (m := limit + 1) hle (by omega)
    rw [replaceAll_append_pattern hp hu, List.append_assoc, List.append_assoc, cutRuns_append,
      cutRuns_append c limit n u, hnew, hold, ih le_rfl]

/-- A text without longer runs is kept as it is. -/
theorem cutRuns_of_absent {t : Text}
    (h : ¬ List.replicate (limit + 1) c <:+: List.replicate n c ++ t) :
    cutRuns c limit n t = t := by
  induction t generalizing n with
  | nil => rfl
  | cons d t ih =>
    unfold cutRuns
    split
    · rename_i hd
      subst hd
      have hlt : n < limit := by
        by_contra hge
        refine h (List.IsPrefix.isInfix ⟨List.replicate (n - limit) d ++ t, ?_⟩)
        rw [← List.append_assoc, ← List.replicate_add, ← List.singleton_append,
          ← List.replicate_one, ← List.append_assoc, ← List.replicate_add]
        congr 2
        omega
      have hmore : List.replicate (n + 1) d ++ t = List.replicate n d ++ d :: t := by
        rw [List.replicate_succ', List.append_assoc, List.singleton_append]
      rw [if_pos hlt, ih (hmore ▸ h)]
    · rw [ih]
      intro ht
      refine h (ht.trans ?_)
      exact (List.suffix_cons d t).isInfix.trans (List.suffix_append _ _).isInfix

theorem cutRuns_cons_of_ne {d : Char} (hd : d ≠ c) (n : ℕ) (t : Text) :
    cutRuns c limit n (d :: t) = d :: cutRuns c limit 0 t := by
  rw [cutRuns, if_neg hd]

theorem cutRuns_concat_of_ne {d : Char} (hd : d ≠ c) (n : ℕ) (t : Text) :
    cutRuns c limit n (t ++ [d]) = cutRuns c limit n t ++ [d] := by
  rw [cutRuns_append, cutRuns_cons_of_ne c limit hd]
  rfl

end CutRuns

end Ezer.Lib
