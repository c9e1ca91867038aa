import Ezer.Lib.Ascii
import Ezer.Workflow.Journal

/-!
# What a request hash tells apart

The canonical form of a value forgets the order of the keys of its objects and
nothing else, and the byte between the kind and the payload stands in no kind. So
the bytes that are hashed are those of the recorded call alone.
-/

namespace Ezer.Workflow

open Ezer.Lib

/-- No object of a value has a key twice, as the maps of the crate guarantee. -/
inductive Value.UniqueKeys : Value → Prop
  | null : UniqueKeys .null
  | bool (b : Bool) : UniqueKeys (.bool b)
  | number (n : Number) : UniqueKeys (.number n)
  | string (s : String) : UniqueKeys (.string s)
  | array {items : List Value} (h : ∀ v ∈ items, UniqueKeys v) : UniqueKeys (.array items)
  | object {fields : List (String × Value)} (hkeys : (fields.map Prod.fst).Nodup)
      (h : ∀ f ∈ fields, UniqueKeys f.2) : UniqueKeys (.object fields)

/-- Two values are the same up to the order of the keys of their objects. -/
inductive Value.Same : Value → Value → Prop
  | refl (v : Value) : Same v v
  | array {items others : List Value} (hlength : items.length = others.length)
      (h : ∀ pair ∈ items.zip others, Same pair.1 pair.2) : Same (.array items) (.array others)
  | object {fields others : List (String × Value)}
      (hkeys : (fields.map Prod.fst).Perm (others.map Prod.fst))
      (h : ∀ f ∈ fields, ∀ g ∈ others, f.1 = g.1 → Same f.2 g.2) :
      Same (.object fields) (.object others)

theorem canonicalItems_eq_map (items : List Value) :
    canonicalItems items = items.map canonicalJson := by
  induction items with
  | nil => rfl
  | cons v vs ih => rw [canonicalItems, ih, List.map_cons]

theorem canonicalFields_eq_map (fields : List (String × Value)) :
    canonicalFields fields = fields.map fun f => (f.1, canonicalJson f.2) := by
  induction fields with
  | nil => rfl
  | cons f fs ih => rw [canonicalFields, ih, List.map_cons]

theorem keys_canonicalFields (fields : List (String × Value)) :
    (canonicalFields fields).map Prod.fst = fields.map Prod.fst := by
  rw [canonicalFields_eq_map, List.map_map]
  rfl

theorem mem_canonicalFields {fields : List (String × Value)} {key : String} {c : Value} :
    (key, c) ∈ canonicalFields fields ↔ ∃ v, (key, v) ∈ fields ∧ canonicalJson v = c := by
  simp [canonicalFields_eq_map]

/-- Fields with other keys each are sorted in one way. -/
theorem insertionSort_eq_iff {fields others : List (String × Value)}
    (hkeys : (fields.map Prod.fst).Nodup) :
    (fields.insertionSort fun a b => a.1 ≤ b.1) = (others.insertionSort fun a b => a.1 ≤ b.1) ↔
      fields.Perm others := by
  have hfields := List.perm_insertionSort (fun a b : String × Value => a.1 ≤ b.1) fields
  have hothers := List.perm_insertionSort (fun a b : String × Value => a.1 ≤ b.1) others
  constructor
  · intro h
    exact hfields.symm.trans (h ▸ hothers)
  · intro h
    have : Std.Total fun a b : String × Value => a.1 ≤ b.1 := ⟨fun a b => le_total a.1 b.1⟩
    have : IsTrans (String × Value) fun a b => a.1 ≤ b.1 := ⟨fun _ _ _ => le_trans⟩
    refine (hfields.trans (h.trans hothers.symm)).eq_of_pairwise ?_
      (List.pairwise_insertionSort _ _) (List.pairwise_insertionSort _ _)
    intro a b ha hb hab hba
    have hb' : b ∈ fields := (h.symm.trans .rfl).mem_iff.mp (hothers.mem_iff.mp hb)
    exact List.inj_on_of_nodup_map hkeys (hfields.mem_iff.mp ha) hb' (le_antisymm hab hba)

variable {v w : Value}

theorem Value.Same.canonicalJson_eq (h : v.Same w) (hv : v.UniqueKeys) (hw : w.UniqueKeys) :
    canonicalJson v = canonicalJson w := by
  induction h with
  | refl v => rfl
  | @array items others hlength _ ih =>
    cases hv with
    | array hitems =>
      cases hw with
      | array hothers =>
        rw [canonicalJson, canonicalJson, canonicalItems_eq_map, canonicalItems_eq_map]
        congr 1
        refine List.ext_getElem (by simpa using hlength) fun i hi hi' => ?_
        rw [List.length_map] at hi hi'
        rw [List.getElem_map, List.getElem_map]
        have hpair : (items[i], others[i]) ∈ items.zip others := by
          rw [← List.getElem_zip (h := by rw [List.length_zip]; omega)]
          exact List.getElem_mem _
        exact ih _ hpair (hitems _ (List.getElem_mem _)) (hothers _ (List.getElem_mem _))
  | @object fields others hperm _ ih =>
    cases hv with
    | object hkeys hfields =>
      cases hw with
      | object hkeys' hothers =>
        have hsub : canonicalFields fields ⊆ canonicalFields others := by
          rintro ⟨key, c⟩ hmem
          rw [mem_canonicalFields] at hmem ⊢
          obtain ⟨v, hmem, rfl⟩ := hmem
          obtain ⟨⟨_, w⟩, hother, rfl⟩ :=
            List.mem_map.mp (hperm.mem_iff.mp (List.mem_map_of_mem hmem))
          exact ⟨w, hother, (ih _ hmem _ hother rfl (hfields _ hmem) (hothers _ hother)).symm⟩
        have hlength := hperm.length_eq
        rw [← keys_canonicalFields, ← keys_canonicalFields others, List.length_map,
          List.length_map] at hlength
        rw [← keys_canonicalFields] at hkeys
        rw [canonicalJson, canonicalJson, (insertionSort_eq_iff hkeys).mpr]
        exact (List.subperm_of_subset hkeys.of_map hsub).perm_of_length_le hlength.ge

theorem Value.UniqueKeys.same_of_canonicalJson_eq (hv : v.UniqueKeys) (hw : w.UniqueKeys)
    (h : canonicalJson v = canonicalJson w) : v.Same w := by
  induction hv generalizing w with
  | @array items _ ih =>
    cases hw with
    | @array others hothers =>
      rw [canonicalJson, canonicalJson, canonicalItems_eq_map, canonicalItems_eq_map,
        Value.array.injEq] at h
      have hlength : items.length = others.length := by simpa using congrArg List.length h
      refine .array hlength fun pair hpair => ?_
      obtain ⟨hitem, hother⟩ := List.of_mem_zip hpair
      refine ih _ hitem (hothers _ hother) ?_
      obtain ⟨i, hi, rfl⟩ := List.getElem_of_mem hpair
      rw [List.length_zip] at hi
      have hget := congrArg (·[i]?) h
      simpa [show i < items.length by omega, show i < others.length by omega] using hget
    | _ => simp [canonicalJson] at h
  | @object fields hkeys _ ih =>
    cases hw with
    | @object others hkeys' hothers =>
      rw [canonicalJson, canonicalJson, Value.object.injEq,
        insertionSort_eq_iff (by rwa [keys_canonicalFields])] at h
      refine .object ?_ fun f hf g hg hkey => ih _ hf (hothers _ hg) ?_
      · rw [← keys_canonicalFields, ← keys_canonicalFields others]
        exact h.map _
      · have hf' := h.mem_iff.mp (mem_canonicalFields.mpr ⟨f.2, hf, rfl⟩)
        have hg' := mem_canonicalFields.mpr ⟨g.2, hg, rfl⟩
        have hsame := List.inj_on_of_nodup_map (by rwa [keys_canonicalFields]) hf' hg' hkey
        exact congrArg Prod.snd hsame
    | _ => simp [canonicalJson] at h
  | _ => cases hw <;> simp_all [canonicalJson, Value.Same.refl]

theorem canonicalJson_eq_iff (hv : v.UniqueKeys) (hw : w.UniqueKeys) :
    canonicalJson v = canonicalJson w ↔ v.Same w :=
  ⟨hv.same_of_canonicalJson_eq hw, fun h => h.canonicalJson_eq hv hw⟩

theorem utf8_injective : Function.Injective utf8 := by
  intro s t h
  rw [← String.toByteArray_inj, ← String.utf8Encode_toList, ← String.utf8Encode_toList]
  exact congrArg List.toByteArray h

/-- The separator is a byte of no kind without it. -/
theorem separator_not_mem {kind : String} (h : '\x00' ∉ kind.toList) : 0 ∉ utf8 kind := by
  intro hmem
  obtain ⟨xs, ys, hsplit⟩ := List.append_of_mem hmem
  obtain ⟨u, c, v, hkind, -, hc, -⟩ := exists_char_of_ascii hsplit (by decide)
  apply h
  rw [hkind, ← char_eq_of_utf8EncodeChar hc (d := '\x00') (by decide)]
  simp

theorem digitChar_inj : ∀ i < 16, ∀ j < 16, Nat.digitChar i = Nat.digitChar j → i = j := by
  decide

theorem hexByte_injective : Function.Injective hexByte := by
  intro a b h
  have ha := a.toNat_lt
  have hb := b.toNat_lt
  simp only [hexByte, List.cons.injEq, and_true] at h
  have hhigh := digitChar_inj _ (by omega) _ (by omega) h.1
  have hlow := digitChar_inj _ (by omega) _ (by omega) h.2
  apply UInt8.toNat_inj.mp
  omega

theorem flatMap_hexByte_injective :
    Function.Injective fun bytes : List UInt8 => bytes.flatMap hexByte := by
  intro xs ys h
  induction xs generalizing ys with
  | nil =>
    cases ys with
    | nil => rfl
    | cons y ys => cases h
  | cons x xs ih =>
    cases ys with
    | nil => cases h
    | cons y ys =>
      obtain ⟨hhead, htail⟩ := List.append_inj h rfl
      rw [hexByte_injective hhead, ih htail]

/-- The bytes of a request that are hashed. -/
def hashedBytes (crates : Crates) (kind : String) (payload : Value) : List UInt8 :=
  utf8 kind ++ [0] ++ utf8 (crates.jsonText (canonicalJson payload))

/-- Two inputs of the hash with one truncated digest. -/
def Collides (crates : Crates) (bytes others : List UInt8) : Prop :=
  bytes ≠ others ∧ (crates.sha256 bytes).take 16 = (crates.sha256 others).take 16

/-- The printer tells two values apart. -/
def Crates.TellsApart (crates : Crates) (v w : Value) : Prop :=
  crates.jsonText v = crates.jsonText w → v = w

variable {crates : Crates} {kind kind' : String} {payload payload' : Value}

theorem requestHash_eq_iff :
    requestHash crates kind payload = requestHash crates kind' payload' ↔
      hashedBytes crates kind payload = hashedBytes crates kind' payload' ∨
        Collides crates (hashedBytes crates kind payload) (hashedBytes crates kind' payload') := by
  have hdigest : requestHash crates kind payload = requestHash crates kind' payload' ↔
      (crates.sha256 (hashedBytes crates kind payload)).take 16 =
        (crates.sha256 (hashedBytes crates kind' payload')).take 16 :=
    String.ofList_inj.trans flatMap_hexByte_injective.eq_iff
  rw [hdigest]
  by_cases h : hashedBytes crates kind payload = hashedBytes crates kind' payload'
  · simp [h]
  · simp [h, Collides]

/-- Two requests are hashed from the same bytes exactly if their kinds are equal and their payloads
are the same up to the order of keys, and the result of the one is replayed for the other exactly
then, unless their digests collide. -/
theorem hashedBytes_exact (hkind : '\x00' ∉ kind.toList) (hkind' : '\x00' ∉ kind'.toList)
    (hkeys : payload.UniqueKeys) (hkeys' : payload'.UniqueKeys)
    (hprint : crates.TellsApart (canonicalJson payload) (canonicalJson payload')) :
    (hashedBytes crates kind payload = hashedBytes crates kind' payload' ↔
      kind = kind' ∧ payload.Same payload') ∧
    ∀ (journal : Journal) (seq : ℕ) (result : Value) (atMs : ℕ),
      journal.entries[seq]? = some ⟨seq, kind, requestHash crates kind payload, result, atMs⟩ →
      (journal.replay seq kind' (requestHash crates kind' payload') = .ok (some result) ↔
        kind = kind' ∧ (payload.Same payload' ∨ Collides crates (hashedBytes crates kind payload)
          (hashedBytes crates kind' payload'))) := by
  have hbytes : hashedBytes crates kind payload = hashedBytes crates kind' payload' ↔
      kind = kind' ∧ payload.Same payload' := by
    rw [← canonicalJson_eq_iff hkeys hkeys']
    constructor
    · intro h
      rw [hashedBytes, hashedBytes, List.append_assoc, List.append_assoc] at h
      -- the first separator ends the kind
      have hlength := congrArg (List.idxOf 0) h
      rw [List.idxOf_append_of_notMem (separator_not_mem hkind),
        List.idxOf_append_of_notMem (separator_not_mem hkind')] at hlength
      obtain ⟨hkinds, htext⟩ := List.append_inj h (by simpa using hlength)
      exact ⟨utf8_injective hkinds, hprint (utf8_injective (List.cons.inj htext).2)⟩
    · rintro ⟨rfl, hcanonical⟩
      rw [hashedBytes, hcanonical, hashedBytes]
  refine ⟨hbytes, fun journal seq result atMs hentry => ?_⟩
  have hreplay : journal.replay seq kind' (requestHash crates kind' payload') = .ok (some result) ↔
      kind = kind' ∧ requestHash crates kind payload = requestHash crates kind' payload' := by
    simp [Journal.replay, hentry]
  rw [hreplay, requestHash_eq_iff, hbytes]
  exact and_congr_right fun hkinds => or_congr_left (and_iff_right hkinds)

/-- The crates on two small integers under the keys `a` and `b`. -/
def sortedCrates : Crates where
  jsonText _ := "\x7b\"a\":1,\"b\":2\x7d"
  sha256 _ :=
    [100, 240, 236, 155, 182, 185, 23, 35, 219, 108, 33, 98, 205, 110, 89, 137,
      83, 240, 242, 194, 1, 65, 218, 121, 91, 66, 176, 183, 170, 79, 193, 68]
  printEntry entry := utf8 entry.reqHash
  parseEntry _ := .error "EOF while parsing a value at line 1 column 0"
  toDynamicError _ := none

theorem hashedBytes_exact_reordered :
    let payload := Value.object [("b", .ofNat 2), ("a", .ofNat 1)]
    let payload' := Value.object [("a", .ofNat 1), ("b", .ofNat 2)]
    let bytes := hashedBytes sortedCrates "k" payload
    let bytes' := hashedBytes sortedCrates "k" payload'
    let hash := requestHash sortedCrates "k" payload
    (bytes = bytes' ↔ "k" = "k" ∧ payload.Same payload') ∧
      (Journal.replay ⟨[⟨0, "k", hash, .null, 0⟩], false, 0, none⟩ 0 "k"
        (requestHash sortedCrates "k" payload') = .ok (some .null) ↔
          "k" = "k" ∧ (payload.Same payload' ∨ Collides sortedCrates bytes bytes')) := by
  intro payload payload' bytes bytes' hash
  have hkeys : payload.UniqueKeys :=
    .object (by decide) (by simp [Value.ofNat, Value.UniqueKeys.number])
  have hkeys' : payload'.UniqueKeys :=
    .object (by decide) (by simp [Value.ofNat, Value.UniqueKeys.number])
  obtain ⟨hbytes, hreplay⟩ := @hashedBytes_exact sortedCrates "k" "k" payload payload' (by decide)
    (by decide) hkeys hkeys' fun _ => rfl
  exact ⟨hbytes, hreplay _ 0 .null 0 rfl⟩

end Ezer.Workflow
