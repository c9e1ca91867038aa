import Ezer.HunkTracker.Loc
import Ezer.HunkTracker.Matching

/-!
# The totals of the recorded line counts

The records of a file add up to what the sink has accumulated for its hunks,
whatever the events are. So they add up to the live hunks as long as the sink
has accumulated the counts of each live hunk and nothing for the others, which
splits and merges of hunks break.
-/

namespace Ezer.HunkTracker

open LocSink

/-- The event counts hunks of one file with ids in a set. -/
def HunkEvent.Posts (path : Path) (ids : Finset HunkId) : HunkEvent → Prop
  | .hunkAdded _ hunk => hunk.path = path ∧ hunk.id ∈ ids
  | .hunkContentChanged _ hunk _ _ _ => hunk.path = path ∧ hunk.id ∈ ids
  | .hunkRemoved p id reason => p = path ∧ id ∈ ids ∧ reason ≠ .accepted
  | _ => True

theorem HunkEvent.posts_of_isNeutral {e : HunkEvent} (h : e.isNeutral = true) (path : Path)
    (ids : Finset HunkId) : e.Posts path ids := by
  cases e <;> first | cases h; done | trivial

namespace LocSink

/-- What is accumulated for a hunk was set, and the total of its file moved by
the same amount. -/
structure Booked (sink sink' : LocSink) (path : Path) (id : HunkId) (v : Option (ℤ × ℤ)) :
    Prop where
  acc : sink'.acc = Function.update sink.acc id v
  total : ∀ q, sink'.total q =
    sink.total q + if path = q then v.getD 0 - (sink.acc id).getD 0 else 0

/-- The total of a file and the balance of some hunks moved by the same amount,
and nothing else did. -/
structure Balanced (sink sink' : LocSink) (path : Path) (ids : Finset HunkId) : Prop where
  total_sub : sink'.total path - sink'.balance ids = sink.total path - sink.balance ids
  total_ne : ∀ q, q ≠ path → sink'.total q = sink.total q
  acc_ne : ∀ id, id ∉ ids → sink'.acc id = sink.acc id

section Balanced

variable {ctx : LocSinkContext} {sink sink' sink'' : LocSink} {path : Path} {ids : Finset HunkId}

theorem Balanced.refl (sink : LocSink) (path : Path) (ids : Finset HunkId) :
    sink.Balanced sink path ids := ⟨rfl, fun _ _ => rfl, fun _ _ => rfl⟩

theorem Balanced.trans (h : sink.Balanced sink' path ids) (h' : sink'.Balanced sink'' path ids) :
    sink.Balanced sink'' path ids :=
  ⟨h'.total_sub.trans h.total_sub, fun q hq => (h'.total_ne q hq).trans (h.total_ne q hq),
    fun id hid => (h'.acc_ne id hid).trans (h.acc_ne id hid)⟩

theorem Booked.balanced {id : HunkId} {v : Option (ℤ × ℤ)} (h : sink.Booked sink' path id v)
    (hid : id ∈ ids) : sink.Balanced sink' path ids := by
  refine ⟨?_, fun q hq => ?_, fun i hi => ?_⟩
  · rw [h.total, sink.balance_update hid h.acc, if_pos rfl]
    abel
  · rw [h.total, if_neg (Ne.symm hq), add_zero]
  · rw [h.acc, Function.update_of_ne]
    rintro rfl
    exact hi hid

variable (ctx sink) in
/-- An added hunk is recorded with its counts. -/
theorem booked_added (p : Path) (hunk : Hunk) :
    sink.Booked (sink.handleEvent ctx (.hunkAdded p hunk)) hunk.path hunk.id
      (some ((sink.acc hunk.id).getD 0 + hunk.counts)) := by
  constructor
  · unfold handleEvent
    rw [acc_writeRecord, acc_sendAggregate]
    rfl
  · intro q
    unfold handleEvent
    rw [total_writeRecord, total_sendAggregate, total_accumulate, Option.getD_some, add_sub_cancel_left]
    rfl

variable (ctx sink) in
/-- A changed hunk is recorded with the difference to its previous counts. -/
theorem booked_changed (p : Path) (hunk : Hunk) (trigger : HunkSource) (prevA prevR : ℕ) :
    sink.Booked (sink.handleEvent ctx (.hunkContentChanged p hunk trigger prevA prevR)) hunk.path
      hunk.id (some ((sink.acc hunk.id).getD 0 + (hunk.counts - ((prevA : ℤ), (prevR : ℤ))))) := by
  constructor
  · unfold handleEvent
    rw [acc_writeRecord, acc_sendAggregate]
    rfl
  · intro q
    unfold handleEvent
    rw [total_writeRecord, total_sendAggregate, total_accumulate, Option.getD_some, add_sub_cancel_left]
    rfl

variable (ctx sink) in
/-- A removed hunk is recorded with the opposite of what was accumulated. -/
theorem booked_removed (p : Path) (id : HunkId) {reason : HunkRemovalReason}
    (hreason : reason ≠ .accepted) :
    sink.Booked (sink.handleEvent ctx (.hunkRemoved p id reason)) p id none := by
  have hrevert : sink.handleEvent ctx (.hunkRemoved p id reason) =
      sink.revert ctx p id reason := by
    cases reason with
    | accepted => exact absurd rfl hreason
    | rejected => rfl
    | superseded => rfl
  have hcases : sink.revert ctx p id reason = sink.clear id ∧ (sink.acc id).getD 0 = 0 ∨
      ∃ a r, sink.revert ctx p id reason =
        ((sink.clear id).sendAggregate ctx a).writeRecord r ∧ r.filePath = p ∧
          r.lines = -(sink.acc id).getD 0 := by
    unfold revert
    cases hacc : sink.acc id with
    | none => exact Or.inl ⟨rfl, rfl⟩
    | some t =>
      obtain ⟨a, r⟩ := t
      by_cases hne : a ≠ 0 ∨ r ≠ 0
      · exact Or.inr ⟨_, _, if_pos hne, rfl, rfl⟩
      · refine Or.inl ⟨if_neg hne, ?_⟩
        obtain ⟨rfl, rfl⟩ : a = 0 ∧ r = 0 := by simpa [not_or] using hne
        rfl
  rw [hrevert]
  rcases hcases with ⟨heq, hzero⟩ | ⟨a, r, heq, hpath, hlines⟩
  · rw [heq]
    exact ⟨rfl, fun q => by simp [hzero]⟩
  · rw [heq]
    refine ⟨by rw [acc_writeRecord, acc_sendAggregate]; rfl, fun q => ?_⟩
    rw [total_writeRecord, total_sendAggregate, total_clear, hpath, hlines, Option.getD_none,
      zero_sub]

theorem balanced_handleEvent {e : HunkEvent} (h : e.Posts path ids) :
    sink.Balanced (sink.handleEvent ctx e) path ids := by
  cases e with
  | hunkAdded p hunk =>
    obtain ⟨rfl, hid⟩ := h
    exact (booked_added ctx sink p hunk).balanced hid
  | hunkContentChanged p hunk trigger prevA prevR =>
    obtain ⟨rfl, hid⟩ := h
    exact (booked_changed ctx sink p hunk trigger prevA prevR).balanced hid
  | hunkRemoved p id reason =>
    obtain ⟨rfl, hid, hreason⟩ := h
    exact (booked_removed ctx sink p id hreason).balanced hid
  | _ => exact Balanced.refl sink path ids

theorem balanced_handleEvents {es : List HunkEvent} (h : ∀ e ∈ es, e.Posts path ids) :
    sink.Balanced (sink.handleEvents ctx es) path ids := by
  induction es generalizing sink with
  | nil => exact Balanced.refl sink path ids
  | cons e es ih =>
    have hhead : e.Posts path ids := h e (by simp)
    exact (balanced_handleEvent hhead).trans (ih fun f hf => h f (by simp [hf]))

/-- The sink ignores moved hunks and whatever does not speak of hunks. -/
theorem handleEvents_neutral {es : List HunkEvent} (h : Neutral es) :
    sink.handleEvents ctx es = sink := by
  induction es generalizing sink with
  | nil => rfl
  | cons e es ih =>
    have hhead : sink.handleEvent ctx e = sink := by
      have he := h e (by simp)
      cases e <;> first | rfl | cases he
    have hstep : sink.handleEvents ctx (e :: es) = (sink.handleEvent ctx e).handleEvents ctx es := rfl
    rw [hstep, hhead, ih fun f hf => h f (by simp [hf])]

/-- Removal events clear what is accumulated for their hunks. -/
theorem acc_removedEvents (p : Path) (gone : List Hunk) {reason : HunkRemovalReason}
    (hreason : reason ≠ .accepted) (id : HunkId) :
    (sink.handleEvents ctx (HunkTrackerActor.removedEvents p gone reason)).acc id =
      if id ∈ gone.map Hunk.id then none else sink.acc id := by
  induction gone generalizing sink with
  | nil => rfl
  | cons g gone ih =>
    have hstep : sink.handleEvents ctx (HunkTrackerActor.removedEvents p (g :: gone) reason) =
        (sink.handleEvent ctx (.hunkRemoved p g.id reason)).handleEvents ctx
          (HunkTrackerActor.removedEvents p gone reason) := rfl
    rw [hstep, ih, (booked_removed ctx sink p g.id hreason).acc]
    by_cases hid : id = g.id
    · subst hid
      simp
    · simp [hid]

end Balanced

end LocSink

/-- The new hunks continue the old ones one by one: an old hunk that is overlapped
or repeated is the best match of a new one, no two new hunks share a best match,
and a repeated hunk has the same counts. -/
structure Telescopes (old new : List Hunk) : Prop where
  kept : ∀ o ∈ old, ∀ n ∈ new, related o n = true →
    ∃ m ∈ new, findMatchingOldHunk m old = some o
  apart : new.Pairwise fun m n => ∀ o, findMatchingOldHunk m old = some o →
    findMatchingOldHunk n old ≠ some o
  counts : ∀ n ∈ new, ∀ b, findMatchingOldHunk n old = some b →
    hunksMatchContent b n = true → b.counts = n.counts

theorem telescopes_nil (new : List Hunk) : Telescopes [] new := by
  refine ⟨by simp, ?_, fun n _ b hb => ?_⟩
  · rw [List.pairwise_iff_forall_sublist]
    intro m n _ o ho
    cases findMatchingOldHunk_mem ho
  · cases findMatchingOldHunk_mem hb

/-- Ids and sources do not matter. -/
theorem Telescopes.congr {old new new' : List Hunk} (h : Telescopes old new)
    (heq : new'.map Hunk.anonymous = new.map Hunk.anonymous) : Telescopes old new' := by
  have hmem : ∀ n ∈ new', ∃ m ∈ new, m.anonymous = n.anonymous := by
    intro n hn
    exact List.mem_map.mp (heq ▸ List.mem_map_of_mem hn)
  have hmem' : ∀ m ∈ new, ∃ n ∈ new', n.anonymous = m.anonymous := by
    intro m hm
    exact List.mem_map.mp (heq.symm ▸ List.mem_map_of_mem hm)
  refine ⟨fun o ho n hn hrel => ?_, ?_, fun n hn b hb hcontent => ?_⟩
  · obtain ⟨m, hm, hmn⟩ := hmem n hn
    have hrel' : related o m.anonymous = true := by
      rw [hmn]
      exact hrel
    obtain ⟨k, hk, hbest⟩ := h.kept o ho m hm hrel'
    obtain ⟨l, hl, hlk⟩ := hmem' k hk
    refine ⟨l, hl, ?_⟩
    have hbest' : findMatchingOldHunk l.anonymous old = some o := by
      rw [hlk]
      exact hbest
    exact hbest'
  · have hmap : (new.map Hunk.anonymous).Pairwise fun m n =>
        ∀ o, findMatchingOldHunk m old = some o → findMatchingOldHunk n old ≠ some o :=
      List.pairwise_map.mpr h.apart
    rw [← heq] at hmap
    exact List.pairwise_map.mp hmap
  · obtain ⟨m, hm, hmn⟩ := hmem n hn
    have hbest : findMatchingOldHunk m.anonymous old = some b := by
      rw [hmn]
      exact hb
    have hcontent' : hunksMatchContent b m.anonymous = true := by
      rw [hmn]
      exact hcontent
    have hcounts : m.anonymous.counts = n.anonymous.counts := by rw [hmn]
    exact (h.counts m hm b hbest hcontent').trans hcounts

/-- The event of a new hunk fits what was counted for its best match. -/
def EventFits (path : Path) (old : List Hunk) (trigger : HunkSource) (x : Hunk) : Prop :=
  match findMatchingOldHunk x old with
  | none => newHunkEvent path old trigger x = some (.hunkAdded path x)
  | some b => x.id = b.id ∧
      ((∀ e, newHunkEvent path old trigger x = some e → ∃ id info, e = .hunkMoved path id info) ∧
          b.counts = x.counts ∨
        newHunkEvent path old trigger x =
          some (.hunkContentChanged path x trigger b.lineInfo.newCount b.lineInfo.oldCount))

section Recompute

variable (ctx : LocSinkContext) {sink : LocSink} {path : Path} {trigger : HunkSource}
  {old new : List Hunk} {x : Hunk}

private theorem eventFits (h : Claimed old new) (ht : Telescopes old new) (hx : x ∈ new) :
    EventFits path old trigger x := by
  unfold EventFits
  cases hbest : findMatchingOldHunk x old with
  | none =>
    have hnone : ∀ o ∈ old, related o x = false := by
      intro o ho
      by_contra hrel
      have hsome := isSome_best_of_related ho (by simpa using hrel)
      rw [hbest] at hsome
      cases hsome
    have hcontent : old.find? (fun o => hunksMatchContent o x) = none := by
      rw [List.find?_eq_none]
      intro o ho hc
      have hrel := hnone o ho
      simp [related, hc] at hrel
    have hoverlap : (old.any fun o => hunksOverlap o x) = false := by
      rw [List.any_eq_false]
      intro o ho hc
      have hrel := hnone o ho
      simp [related, hc] at hrel
    unfold newHunkEvent
    rw [hcontent]
    simp [hoverlap]
  | some b =>
    have hb : b ∈ old := findMatchingOldHunk_mem hbest
    obtain ⟨pre, post, rfl⟩ := List.append_of_mem hx
    have hid : x.id = b.id := by
      rcases h.split pre x post rfl with ⟨c, -, hc, -, hid⟩ | ⟨hclaimed, -⟩
      · obtain rfl : c = b := by simpa [hbest] using hc.symm
        exact hid
      · obtain ⟨k, hk, hkb⟩ := hclaimed b hbest
        exact absurd hbest ((List.pairwise_append.mp ht.apart).2.2 k hk x (by simp) b hkb)
    refine ⟨hid, ?_⟩
    cases hfirst : firstMatch old x with
    | some o =>
      refine Or.inl ⟨fun e he => ?_, ?_⟩
      · unfold firstMatch at hfirst
        unfold newHunkEvent at he
        rw [hfirst] at he
        by_cases hm : hunkMoved o x = true
        · simp only [hm, if_true, Option.some.injEq] at he
          exact ⟨o.id, x.lineInfo, he.symm⟩
        · simp [hm] at he
      · obtain ⟨c, hc, -, hcontent, -⟩ := exists_best_of_firstMatch hfirst
        obtain rfl : c = b := by simpa [hbest] using hc.symm
        exact ht.counts x hx c hbest hcontent
    | none =>
      have hoverlap : hunksOverlap b x = true := by
        have hrel := related_of_best hbest
        have hcontent : hunksMatchContent b x = false := by
          simpa using List.find?_eq_none.mp hfirst b hb
        simpa [related, hcontent] using hrel
      have hany : (old.any fun o => hunksOverlap o x) = true :=
        List.any_eq_true.mpr ⟨b, hb, hoverlap⟩
      have hprev : old.find? (fun o => o.id = x.id) = some b := by
        obtain ⟨c, hc⟩ := Option.isSome_iff_exists.mp
          (List.find?_isSome (p := fun o : Hunk => decide (o.id = x.id)) |>.mpr
            ⟨b, hb, by simpa using hid.symm⟩)
        have hcid : c.id = x.id := by simpa using List.find?_some hc
        rw [hc, h.old_eq_of_id (List.mem_of_find?_eq_some hc) hb (hcid.trans hid)]
      refine Or.inr ?_
      unfold firstMatch at hfirst
      unfold newHunkEvent
      rw [hfirst]
      simp [hany, hprev]

private theorem acc_newHunkEvent (hfits : EventFits path old trigger x)
    (hacc : sink.acc x.id = (findMatchingOldHunk x old).map Hunk.counts) :
    (sink.handleEvents ctx (newHunkEvent path old trigger x).toList).acc =
      Function.update sink.acc x.id (some x.counts) := by
  unfold EventFits at hfits
  cases hbest : findMatchingOldHunk x old with
  | none =>
    rw [hbest] at hfits hacc
    rw [hfits]
    have hbooked := (booked_added ctx sink path x).acc
    rw [hacc, Option.map_none, Option.getD_none, zero_add] at hbooked
    exact hbooked
  | some b =>
    rw [hbest] at hfits hacc
    obtain ⟨hid, ⟨hmoved, hcounts⟩ | hchanged⟩ := hfits
    · have hsame : sink.handleEvents ctx (newHunkEvent path old trigger x).toList = sink := by
        cases he : newHunkEvent path old trigger x with
        | none => rfl
        | some e =>
          obtain ⟨id, info, rfl⟩ := hmoved e he
          rfl
      rw [hsame, ← hcounts]
      exact (Function.update_eq_self_iff.mpr hacc.symm).symm
    · rw [hchanged]
      have hbooked := (booked_changed ctx sink path x trigger b.lineInfo.newCount
        b.lineInfo.oldCount).acc
      have hsum : ((sink.acc x.id).getD 0 +
          (x.counts - ((b.lineInfo.newCount : ℤ), (b.lineInfo.oldCount : ℤ)))) = x.counts := by
        rw [hacc]
        exact add_sub_cancel b.counts x.counts
      rw [hsum] at hbooked
      exact hbooked

private theorem acc_newHunkEvents {l : List Hunk} (hnodup : (l.map Hunk.id).Nodup)
    (hfits : ∀ x ∈ l, EventFits path old trigger x)
    (hacc : ∀ x ∈ l, sink.acc x.id = (findMatchingOldHunk x old).map Hunk.counts) :
    (∀ x ∈ l, (sink.handleEvents ctx (l.filterMap (newHunkEvent path old trigger))).acc x.id =
        some x.counts) ∧
      ∀ id, id ∉ l.map Hunk.id →
        (sink.handleEvents ctx (l.filterMap (newHunkEvent path old trigger))).acc id =
          sink.acc id := by
  induction l generalizing sink with
  | nil => exact ⟨by simp, fun _ _ => rfl⟩
  | cons y l ih =>
    obtain ⟨hy, hnodup⟩ := List.nodup_cons.mp hnodup
    have hsplit : (y :: l).filterMap (newHunkEvent path old trigger) =
        (newHunkEvent path old trigger y).toList ++ l.filterMap (newHunkEvent path old trigger) := by
      cases he : newHunkEvent path old trigger y <;> simp [he]
    have hstep := acc_newHunkEvent ctx (hfits y (by simp)) (hacc y (by simp))
    rw [hsplit, handleEvents_append]
    obtain ⟨hin, hout⟩ := @ih (sink.handleEvents ctx (newHunkEvent path old trigger y).toList) hnodup
      (fun z hz => hfits z (by simp [hz])) (fun z hz => by
        have hne : z.id ≠ y.id := fun he => hy (he ▸ List.mem_map_of_mem hz)
        rw [hstep, Function.update_of_ne hne]
        exact hacc z (by simp [hz]))
    refine ⟨fun z hz => ?_, fun id hid => ?_⟩
    · rcases List.mem_cons.mp hz with rfl | hz
      · rw [hout z.id hy, hstep, Function.update_self]
      · exact hin z hz
    · obtain ⟨hne, hid⟩ := not_or.mp fun hmem => hid (List.mem_cons.mpr hmem)
      rw [hout id hid, hstep, Function.update_of_ne hne]

private theorem acc_hunkDiffEvents (h : Claimed old new) (ht : Telescopes old new)
    (hold : ∀ o ∈ old, sink.acc o.id = some o.counts)
    (hfresh : ∀ x ∈ new, (∀ o ∈ old, x.id ≠ o.id) → sink.acc x.id = none) :
    (∀ x ∈ new, (sink.handleEvents ctx (hunkDiffEvents path old new trigger)).acc x.id =
        some x.counts) ∧
      ∀ o ∈ old, (∀ x ∈ new, x.id ≠ o.id) →
        (sink.handleEvents ctx (hunkDiffEvents path old new trigger)).acc o.id = none := by
  set gone := old.filter fun o => !new.any fun n => hunksOverlap o n || hunksMatchContent o n
    with hgone
  have hkept : ∀ o ∈ old, ∀ n ∈ new, related o n = true → o.id ∉ gone.map Hunk.id := by
    intro o ho n hn hrel hmem
    obtain ⟨g, hg, hid⟩ := List.mem_map.mp hmem
    obtain ⟨hgold, hnot⟩ := List.mem_filter.mp hg
    obtain rfl := h.old_eq_of_id hgold ho hid
    have hany : (new.any fun n => hunksOverlap g n || hunksMatchContent g n) = true :=
      List.any_eq_true.mpr ⟨n, hn, hrel⟩
    simp [hany] at hnot
  set kept := sink.handleEvents ctx (HunkTrackerActor.removedEvents path gone .superseded) with hk
  have hacc : ∀ id, kept.acc id = if id ∈ gone.map Hunk.id then none else sink.acc id :=
    fun id => acc_removedEvents path gone (by simp) id
  have hstart : ∀ x ∈ new, kept.acc x.id = (findMatchingOldHunk x old).map Hunk.counts := by
    intro x hx
    have hfits : EventFits path old trigger x := eventFits h ht hx
    unfold EventFits at hfits
    rw [hacc]
    cases hbest : findMatchingOldHunk x old with
    | none =>
      have hnone : ∀ o ∈ old, x.id ≠ o.id := by
        intro o ho hid
        obtain ⟨pre, post, rfl⟩ := List.append_of_mem hx
        have hclaim := (h.best_of_id ho hid).1
        rw [hbest] at hclaim
        cases hclaim
      rw [if_neg, hfresh x hx hnone]
      · rfl
      · intro hmem
        obtain ⟨g, hg, hid⟩ := List.mem_map.mp hmem
        exact hnone g (List.mem_of_mem_filter hg) hid.symm
    | some b =>
      rw [hbest] at hfits
      have hb : b ∈ old := findMatchingOldHunk_mem hbest
      rw [hfits.1, if_neg (hkept b hb x hx (related_of_best hbest)), hold b hb]
      rfl
  obtain ⟨hin, hout⟩ := acc_newHunkEvents ctx h.nodup (fun x hx => eventFits h ht hx) hstart
  unfold hunkDiffEvents supersededEvents
  rw [handleEvents_append]
  refine ⟨hin, fun o ho hnot => ?_⟩
  have hid : o.id ∉ new.map Hunk.id := by
    intro hmem
    obtain ⟨x, hx, hxo⟩ := List.mem_map.mp hmem
    exact hnot x hx hxo
  rw [hout o.id hid, hacc, if_pos]
  refine List.mem_map.mpr ⟨o, List.mem_filter.mpr ⟨ho, ?_⟩, rfl⟩
  rw [Bool.not_eq_true', List.any_eq_false]
  intro n hn hrel
  obtain ⟨m, hm, hbest⟩ := ht.kept o ho n hn hrel
  obtain ⟨x, hx, hxo⟩ := h.exists_id_of_best hm hbest
  exact hnot x hx hxo

end Recompute

/-- The sink after all events of an actor. -/
def HunkTrackerActor.locSink (s : HunkTrackerActor) (ctx : LocSinkContext) : LocSink :=
  handleEvents ctx {} s.events

/-- The sink has accumulated the counts of the live hunks, and its records add up
to them. -/
structure LocInv (ctx : LocSinkContext) (s : HunkTrackerActor) : Prop where
  live : ∀ path, ∀ h ∈ s.getHunksForPath path, (s.locSink ctx).acc h.id = some h.counts
  fresh : ∀ id, s.uuid ≤ id → (s.locSink ctx).acc id = none
  total : ∀ path, (s.locSink ctx).total path = ((s.getHunksForPath path).map Hunk.counts).sum

section Preserve

variable {ctx : LocSinkContext} {s s' : HunkTrackerActor} {path : Path}

variable {es : List HunkEvent}

theorem locSink_append (h : s'.events = s.events ++ es) :
    s'.locSink ctx = (s.locSink ctx).handleEvents ctx es := by
  unfold HunkTrackerActor.locSink
  rw [h, handleEvents_append]

theorem mem_getHunksForPath {h : Hunk} : h ∈ s.getHunksForPath path ↔
    ∃ state, s.fileStates.lookup path = some state ∧ h ∈ state.hunks := by
  unfold HunkTrackerActor.getHunksForPath
  cases s.fileStates.lookup path <;> simp

variable {state : FileHunkState}

theorem getHunksForPath_of_lookup
    (h : s.fileStates.lookup path = some state) : s.getHunksForPath path = state.hunks := by
  unfold HunkTrackerActor.getHunksForPath
  rw [h]
  rfl

private theorem getHunksForPath_insert (hfiles : s'.fileStates = s.fileStates.insert path state) :
    s'.getHunksForPath path = state.hunks ∧
      ∀ q, q ≠ path → s'.getHunksForPath q = s.getHunksForPath q := by
  constructor
  · apply getHunksForPath_of_lookup
    rw [hfiles, AList.lookup_insert]
  · intro q hq
    unfold HunkTrackerActor.getHunksForPath
    rw [hfiles, AList.lookup_insert_ne hq]

/-- The balance of a set is the sum of the hunks that are accounted for in it. -/
private theorem balance_eq_sum {sink : LocSink} {hunks : List Hunk} {ids : Finset HunkId}
    (hnodup : (hunks.map Hunk.id).Nodup) (hsub : ∀ h ∈ hunks, h.id ∈ ids)
    (hacc : ∀ h ∈ hunks, sink.acc h.id = some h.counts)
    (hrest : ∀ id ∈ ids, (∀ h ∈ hunks, h.id ≠ id) → sink.acc id = none) :
    sink.balance ids = (hunks.map Hunk.counts).sum := by
  have hsubset : (hunks.map Hunk.id).toFinset ⊆ ids := by
    intro id hid
    obtain ⟨h, hh, rfl⟩ := List.mem_map.mp (List.mem_toFinset.mp hid)
    exact hsub h hh
  unfold balance
  rw [← Finset.sum_subset hsubset fun id hid hnot => ?_, List.sum_toFinset _ hnodup, List.map_map]
  · refine congrArg List.sum (List.map_congr_left fun h hh => ?_)
    rw [Function.comp_apply, hacc h hh]
    rfl
  · rw [hrest id hid fun h hh he => hnot ?_]
    · rfl
    · exact List.mem_toFinset.mpr (List.mem_map.mpr ⟨h, hh, he⟩)

/-- Neutral events and unchanged hunks keep the invariant. -/
private theorem LocInv.congr (h : LocInv ctx s)
    (hhunks : ∀ q, s'.getHunksForPath q = s.getHunksForPath q)
    (hes : Neutral es) (hevents : s'.events = s.events ++ es) (huuid : s.uuid ≤ s'.uuid) :
    LocInv ctx s' := by
  have hsink : s'.locSink ctx = s.locSink ctx := by
    rw [locSink_append hevents, handleEvents_neutral hes]
  refine ⟨fun q k hk => ?_, fun id hid => ?_, fun q => ?_⟩
  · rw [hhunks] at hk
    rw [hsink]
    exact h.live q k hk
  · rw [hsink]
    exact h.fresh id (huuid.trans hid)
  · rw [hsink, hhunks]
    exact h.total q

/-- Changing the hunks of one file keeps the invariant when the events leave the
counts of its new hunks, and nothing for the ids that are gone. -/
private theorem LocInv.change (hinv : HunkInv s) (h : LocInv ctx s)
    (ids : Finset HunkId) (hevents : s'.events = s.events ++ es)
    (hothers : ∀ q, q ≠ path → s'.getHunksForPath q = s.getHunksForPath q)
    (huuid : s.uuid ≤ s'.uuid) (hposts : ∀ e ∈ es, e.Posts path ids)
    (hids : ∀ id ∈ ids, (∃ o ∈ s.getHunksForPath path, o.id = id) ∨ s.uuid ≤ id ∧ id < s'.uuid)
    (hold : ∀ o ∈ s.getHunksForPath path, o.id ∈ ids)
    (hnew : ∀ x ∈ s'.getHunksForPath path, x.id ∈ ids)
    (hnodup : ((s'.getHunksForPath path).map Hunk.id).Nodup)
    (hacc : ∀ x ∈ s'.getHunksForPath path,
      ((s.locSink ctx).handleEvents ctx es).acc x.id = some x.counts)
    (hgone : ∀ id ∈ ids, (∀ x ∈ s'.getHunksForPath path, x.id ≠ id) →
      ((s.locSink ctx).handleEvents ctx es).acc id = none) : LocInv ctx s' := by
  have hbalanced : (s.locSink ctx).Balanced ((s.locSink ctx).handleEvents ctx es) path ids :=
    balanced_handleEvents hposts
  have holdNodup : ((s.getHunksForPath path).map Hunk.id).Nodup := by
    cases hl : s.fileStates.lookup path with
    | none => simp [HunkTrackerActor.getHunksForPath, hl]
    | some state =>
      rw [getHunksForPath_of_lookup hl]
      exact hinv.nodup hl
  have hbefore : (s.locSink ctx).balance ids = ((s.getHunksForPath path).map Hunk.counts).sum := by
    refine balance_eq_sum holdNodup hold (h.live path) fun id hid hnot => ?_
    rcases hids id hid with ⟨o, ho, he⟩ | ⟨hge, -⟩
    · exact absurd he (hnot o ho)
    · exact h.fresh id hge
  have hafter := balance_eq_sum hnodup hnew hacc hgone
  have houtside : ∀ q, q ≠ path → ∀ k ∈ s.getHunksForPath q, k.id ∉ ids := by
    intro q hq k hk hmem
    obtain ⟨stq, hlq, hkq⟩ := mem_getHunksForPath.mp hk
    rcases hids k.id hmem with ⟨o, ho, he⟩ | ⟨hge, -⟩
    · obtain ⟨stp, hlp, hop⟩ := mem_getHunksForPath.mp ho
      exact hinv.disjoint (Ne.symm hq) hlp hlq o hop k hkq he
    · exact absurd (hinv.drawn hlq k hkq) (not_lt_of_ge hge)
  rw [← locSink_append hevents] at hbalanced hacc hgone hafter
  refine ⟨fun q k hk => ?_, fun id hid => ?_, fun q => ?_⟩
  · by_cases hq : q = path
    · subst hq
      exact hacc k hk
    · rw [hothers q hq] at hk
      rw [hbalanced.acc_ne k.id (houtside q hq k hk)]
      exact h.live q k hk
  · rw [hbalanced.acc_ne id fun hmem => ?_]
    · exact h.fresh id (huuid.trans hid)
    · rcases hids id hmem with ⟨o, ho, he⟩ | ⟨-, hlt⟩
      · obtain ⟨st, hl, hmem'⟩ := mem_getHunksForPath.mp ho
        exact absurd (hinv.drawn hl o hmem') (not_lt_of_ge (he ▸ huuid.trans hid))
      · exact absurd hlt (not_lt_of_ge hid)
  · by_cases hq : q = path
    · subst hq
      have hsub := hbalanced.total_sub
      rw [hafter, hbefore, h.total, sub_self] at hsub
      exact sub_eq_zero.mp hsub
    · rw [hbalanced.total_ne q hq, hothers q hq, h.total]

/-- Removing hunks of a file with their events. -/
private theorem LocInv.remove (hinv : HunkInv s) (h : LocInv ctx s)
    (hl : s.fileStates.lookup path = some state) {gone : List Hunk} {reason : HunkRemovalReason}
    (hreason : reason ≠ .accepted) (hsub : gone ⊆ state.hunks)
    (hes : Neutral es) (hleft : s'.getHunksForPath path = withoutHunks state.hunks gone)
    (hothers : ∀ q, q ≠ path → s'.getHunksForPath q = s.getHunksForPath q)
    (hevents : s'.events =
      s.events ++ (HunkTrackerActor.removedEvents path gone reason ++ es))
    (huuid : s.uuid ≤ s'.uuid) : LocInv ctx s' := by
  have hold := getHunksForPath_of_lookup hl
  have hleftMem : ∀ {x}, x ∈ s'.getHunksForPath path ↔
      x ∈ state.hunks ∧ x.id ∉ gone.map Hunk.id := by
    intro x
    rw [hleft, withoutHunks, List.mem_filter, decide_eq_true_iff]
  have hacc : ∀ id, ((s.locSink ctx).handleEvents ctx
      (HunkTrackerActor.removedEvents path gone reason ++ es)).acc id =
        if id ∈ gone.map Hunk.id then none else (s.locSink ctx).acc id := by
    intro id
    rw [handleEvents_append, handleEvents_neutral hes, acc_removedEvents path gone hreason]
  refine h.change hinv ((state.hunks.map Hunk.id).toFinset) hevents hothers huuid ?_ ?_ ?_ ?_ ?_ ?_ ?_
  · intro e he
    rcases List.mem_append.mp he with he | he
    · obtain ⟨g, hg, rfl⟩ := List.mem_map.mp he
      exact ⟨rfl, List.mem_toFinset.mpr (List.mem_map_of_mem (hsub hg)), hreason⟩
    · exact HunkEvent.posts_of_isNeutral (hes e he) path _
  · intro id hid
    obtain ⟨o, ho, he⟩ := List.mem_map.mp (List.mem_toFinset.mp hid)
    exact Or.inl ⟨o, by rw [hold]; exact ho, he⟩
  · intro o ho
    rw [hold] at ho
    exact List.mem_toFinset.mpr (List.mem_map_of_mem ho)
  · exact fun x hx => List.mem_toFinset.mpr (List.mem_map_of_mem (hleftMem.mp hx).1)
  · rw [hleft]
    exact ((List.filter_sublist).map Hunk.id).nodup (hinv.nodup hl)
  · intro x hx
    obtain ⟨hmem, hnot⟩ := hleftMem.mp hx
    rw [hacc, if_neg hnot]
    exact h.live path x (by rw [hold]; exact hmem)
  · intro id hid hnot
    rw [hacc, if_pos]
    obtain ⟨o, ho, rfl⟩ := List.mem_map.mp (List.mem_toFinset.mp hid)
    by_contra hmem
    exact hnot o (hleftMem.mpr ⟨ho, hmem⟩) rfl

private theorem posts_hunkDiffEvents {old new : List Hunk} {trigger : HunkSource}
    {ids : Finset HunkId} (hold : ∀ o ∈ old, o.id ∈ ids)
    (hnew : ∀ x ∈ new, x.path = path ∧ x.id ∈ ids) :
    ∀ e ∈ hunkDiffEvents path old new trigger, e.Posts path ids := by
  intro e he
  rcases List.mem_append.mp he with he | he
  · obtain ⟨g, hg, rfl⟩ := List.mem_map.mp he
    exact ⟨rfl, hold g (List.mem_of_mem_filter hg), by simp⟩
  · obtain ⟨x, hx, hxe⟩ := List.mem_filterMap.mp he
    unfold newHunkEvent at hxe
    split at hxe
    · split at hxe
      · obtain rfl := Option.some.inj hxe
        trivial
      · cases hxe
    · split at hxe
      · obtain rfl := Option.some.inj hxe
        exact hnew x hx
      · obtain rfl := Option.some.inj hxe
        exact hnew x hx

/-- A recomputation that telescopes keeps the invariant. -/
private theorem LocInv.recompute (hinv : HunkInv s) (h : LocInv ctx s)
    (hl : s.fileStates.lookup path = some state) {source : HunkSource} {fresh new : List Hunk}
    (hfresh : FreshDiff path source s.uuid fresh) (hnew : new = claimIds state.hunks [] fresh)
    (ht : Telescopes state.hunks new) (hes : Neutral es)
    (hhunks : s'.getHunksForPath path = new)
    (hothers : ∀ q, q ≠ path → s'.getHunksForPath q = s.getHunksForPath q)
    (hevents : s'.events = s.events ++ (hunkDiffEvents path state.hunks new source ++ es))
    (huuid : s'.uuid = s.uuid + fresh.length) : LocInv ctx s' := by
  have hold := getHunksForPath_of_lookup hl
  have hclaimed : Claimed state.hunks new := hnew ▸ (hinv.rematch hl hfresh).claimed
  have hids : ∀ x ∈ new, x.path = path ∧
      ((∃ o ∈ state.hunks, o.id = x.id) ∨ s.uuid ≤ x.id ∧ x.id < s'.uuid) := by
    intro x hx
    obtain ⟨n, hn, rfl | ⟨best, hbest, -, -, rfl⟩⟩ := mem_claimIds (hnew ▸ hx)
    · exact ⟨hfresh.path_eq x hn, Or.inr ⟨hfresh.id_ge x hn, huuid ▸ hfresh.id_lt x hn⟩⟩
    · exact ⟨hfresh.path_eq n hn, Or.inl ⟨best, hbest, rfl⟩⟩
  have hacc : (∀ x ∈ new, ((s.locSink ctx).handleEvents ctx
        (hunkDiffEvents path state.hunks new source)).acc x.id = some x.counts) ∧
      ∀ o ∈ state.hunks, (∀ x ∈ new, x.id ≠ o.id) → ((s.locSink ctx).handleEvents ctx
        (hunkDiffEvents path state.hunks new source)).acc o.id = none := by
    refine acc_hunkDiffEvents ctx hclaimed ht (fun o ho => h.live path o (by rw [hold]; exact ho)) ?_
    intro x hx hnot
    rcases (hids x hx).2 with ⟨o, ho, he⟩ | ⟨hge, -⟩
    · exact absurd he.symm (hnot o ho)
    · exact h.fresh x.id hge
  obtain ⟨hin, hout⟩ := hacc
  set ids := (state.hunks.map Hunk.id).toFinset ∪ (new.map Hunk.id).toFinset with hidsDef
  have holdIn : ∀ o ∈ state.hunks, o.id ∈ ids := fun o ho =>
    Finset.mem_union_left _ (List.mem_toFinset.mpr (List.mem_map_of_mem ho))
  have hnewIn : ∀ x ∈ new, x.id ∈ ids := fun x hx =>
    Finset.mem_union_right _ (List.mem_toFinset.mpr (List.mem_map_of_mem hx))
  have hsplit : ∀ id ∈ ids, (∃ o ∈ state.hunks, o.id = id) ∨ ∃ x ∈ new, x.id = id := by
    intro id hid
    rcases Finset.mem_union.mp hid with hmem | hmem
    · exact Or.inl (List.mem_map.mp (List.mem_toFinset.mp hmem))
    · exact Or.inr (List.mem_map.mp (List.mem_toFinset.mp hmem))
  refine h.change hinv ids hevents hothers (huuid ▸ Nat.le_add_right _ _) ?_ ?_ ?_ ?_ ?_ ?_ ?_
  · intro e he
    rcases List.mem_append.mp he with he | he
    · exact posts_hunkDiffEvents holdIn (fun x hx => ⟨(hids x hx).1, hnewIn x hx⟩) e he
    · exact HunkEvent.posts_of_isNeutral (hes e he) path ids
  · intro id hid
    rw [hold]
    rcases hsplit id hid with ho | ⟨x, hx, rfl⟩
    · exact Or.inl ho
    · exact (hids x hx).2
  · rw [hold]
    exact holdIn
  · rw [hhunks]
    exact hnewIn
  · rw [hhunks]
    exact hclaimed.nodup
  · rw [hhunks, handleEvents_append, handleEvents_neutral hes]
    exact hin
  · rw [hhunks, handleEvents_append, handleEvents_neutral hes]
    intro id hid hnot
    rcases hsplit id hid with ⟨o, ho, rfl⟩ | ⟨x, hx, he⟩
    · exact hout o ho hnot
    · exact absurd he (hnot x hx)

/-- Steps of a run in which every recomputation telescopes and only files
without hunks are silently cleared. -/
def allowTelescoping : Allow where
  lost := fun hunks => hunks = []
  leaked := fun _ => True
  accept := False
  orphan := True
  recompute := fun diff path baseline current old =>
    Telescopes old (diffStates diff path baseline current .external 0)
  recompute_nil := fun _ _ _ _ => telescopes_nil _

/-- Every elementary step of such a run keeps the totals. -/
theorem LocInv.step {env : Env} (hstep : Step env allowTelescoping s s') (hinv : HunkInv s)
    (h : LocInv ctx s) : LocInv ctx s' := by
  have hsame : s'.fileStates = s.fileStates → ∀ q, s'.getHunksForPath q = s.getHunksForPath q := by
    intro hfiles q
    unfold HunkTrackerActor.getHunksForPath
    rw [hfiles]
  cases hstep with
  | frame es hes effect =>
    exact h.congr (hsame effect.files_eq) hes effect.events_eq (effect.uuid_eq ▸ le_rfl)
  | track path state es untracked empty notAccepted hes effect =>
    obtain ⟨hself, hothers⟩ := getHunksForPath_insert effect.files_eq
    refine h.congr (fun q => ?_) hes effect.events_eq (effect.uuid_eq ▸ le_rfl)
    by_cases hq : q = path
    · subst hq
      rw [hself, empty]
      simp [HunkTrackerActor.getHunksForPath, untracked]
    · exact hothers q hq
  | drop path state state' gone reason es tracked sub left keeps accepted hes effect =>
    obtain ⟨hself, hothers⟩ := getHunksForPath_insert effect.files_eq
    have hreason : reason ≠ .accepted := by
      intro hr
      rcases accepted (Or.inr hr) with ⟨-, hne⟩ | hfalse
      · exact hne hr
      · exact hfalse
    exact h.remove hinv tracked hreason sub hes (hself.trans left) hothers effect.events_eq
      (effect.uuid_eq ▸ le_rfl)
  | erase path state es tracked hes effect =>
    refine h.remove hinv tracked (by simp) (List.Subset.refl _) hes ?_ (fun q hq => ?_)
      effect.events_eq (effect.uuid_eq ▸ le_rfl)
    · unfold HunkTrackerActor.getHunksForPath
      rw [effect.files_eq, AList.lookup_erase]
      refine (List.filter_eq_nil_iff.mpr fun a ha => ?_).symm
      simpa using ⟨a, ha, rfl⟩
    · unfold HunkTrackerActor.getHunksForPath
      rw [effect.files_eq, AList.lookup_erase_ne hq]
  | forget path state state' tracked empty accepted lost effect =>
    obtain ⟨hself, hothers⟩ := getHunksForPath_insert effect.files_eq
    refine h.congr (fun q => ?_) neutral_nil effect.events_eq (effect.uuid_eq ▸ le_rfl)
    by_cases hq : q = path
    · subst hq
      rw [hself, empty, getHunksForPath_of_lookup tracked]
      exact lost.symm
    · exact hothers q hq
  | leak path state gone tracked sub leaked effect =>
    exact h.congr (hsame effect.files_eq) neutral_nil effect.events_eq (effect.uuid_eq ▸ le_rfl)
  | recompute path state state' current source fresh new es tracked same accepted allowed hfresh
      hnew hes effect =>
    obtain ⟨hself, hothers⟩ := getHunksForPath_insert effect.files_eq
    have ht : Telescopes state.hunks new := by
      refine Telescopes.congr allowed ?_
      rw [hnew, map_anonymous_claimIds, hfresh]
      exact map_anonymous_diffStates _ _ _ _ _ _ _ _
    exact h.recompute hinv tracked (hfresh ▸ freshDiff_diffStates _ _ _ _ _ _) hnew ht hes hself
      hothers effect.events_eq effect.uuid_eq

end Preserve

open HunkTrackerActor

/-- Recomputing a file for a content continues its hunks one by one. -/
def HunkTrackerActor.TelescopesAt (s : HunkTrackerActor) (env : Env) (path : Path)
    (current : FileContentState) : Prop :=
  ∀ state, s.fileStates.lookup path = some state →
    Telescopes state.hunks (diffStates env.diffLines path state.baseline current .external 0)

/-- The operations of a run without accepting, under the condition that keeps
the totals: an agent write that cannot be diffed meets no hunk, and whatever
recomputes a file continues its hunks one by one. -/
def KeepsTotals (env : Env) (s : HunkTrackerActor) : Op → Prop
  | .command (.recordAgentWrite path content _ _) =>
    ((classifyString content).isDiffable = false → s.getHunksForPath path = []) ∧
      ((classifyString content).isDiffable = true →
        s.TelescopesAt env path (classifyString content))
  | .command (.handleFileChange path) => s.TelescopesAt env path (s.disk path).readFileBounded
  | .command (.handleFileDeleted path) =>
    s.TelescopesAt env path
      (if (s.disk path).pathExists then (s.disk path).readFileBounded else .missing)
  | .command (.resetBaseline _) => True
  | .command .resetStats => True
  | .command (.query _) => True
  | .command cmd => cmd.action? = some .reject ∧
    ∀ f ∈ s.rejectedFiles env cmd, ∀ state, s.fileStates.lookup f.1 = some state →
      ∀ text, rejectAction state f.2 = .revertChange text →
        Telescopes (withoutHunks state.hunks f.2)
          (diffStates env.diffLines f.1 state.baseline (.full text) .external 0)
  | .fileChange path _ => s.TelescopesAt env path (s.disk path).readFileBounded
  | .preload _ => True
  | .refreshExcept _ => False

/-- What holds of every state of such a run. -/
private structure LocState (ctx : LocSinkContext) (s : HunkTrackerActor) : Prop where
  hunkInv : HunkInv s
  notAccepted : ∀ q, s.NotAccepted q
  locInv : LocInv ctx s

section Run

variable {ctx : LocSinkContext} {env : Env} {s s' : HunkTrackerActor}

private theorem LocState.steps (h : LocState ctx s) (hsteps : Steps env allowTelescoping s s') :
    LocState ctx s' :=
  hsteps.preserves (fun _ _ hstep ht => ⟨ht.hunkInv.step hstep,
    fun q => notAccepted_step not_false hstep (ht.notAccepted q),
    ht.locInv.step hstep ht.hunkInv⟩) h

/-- A file whose baseline was not accepted is never restored to HEAD. -/
private theorem changeAllowed_telescoping (hacc : ∀ q, s.NotAccepted q) {path : Path}
    {preloaded : Option FileContentState}
    (h : s.TelescopesAt env path (s.disk path).readFileBounded) :
    ChangeAllowed env allowTelescoping s path preloaded := by
  refine ⟨fun state hl hr => ?_, fun state hl _ => h state hl⟩
  unfold restoredToHead at hr
  rw [hl] at hr
  simp [hacc path state hl] at hr

private theorem actionAllowed_telescoping {cmd : HunkTrackerCommand} {action : HunkAction}
    (hcmd : cmd.action? = some action)
    (h : cmd.action? = some .reject ∧ ∀ f ∈ s.rejectedFiles env cmd, ∀ state,
      s.fileStates.lookup f.1 = some state → ∀ text,
        rejectAction state f.2 = .revertChange text →
          Telescopes (withoutHunks state.hunks f.2)
            (diffStates env.diffLines f.1 state.baseline (.full text) .external 0)) :
    ActionAllowed env allowTelescoping s cmd action := by
  obtain ⟨hreject, h⟩ := h
  obtain rfl : action = .reject := by simpa [hcmd] using hreject
  exact rejectsAllowed_of (fun _ _ _ _ _ => trivial) (fun _ _ _ _ _ => Or.inr trivial) h
    fun _ _ => trivial

private theorem LocState.allowed {op : Op} (hs : LocState ctx s) (h : KeepsTotals env s op) :
    op.Allowed env allowTelescoping s := by
  cases op with
  | fileChange path preloaded => exact changeAllowed_telescoping hs.notAccepted h
  | preload paths => trivial
  | refreshExcept skip => exact h.elim
  | command cmd =>
    cases cmd with
    | recordAgentWrite path content promptIndex previousContent =>
      refine ⟨fun state hl hd => ?_, fun state hl hd => h.2 hd state hl⟩
      have hempty := h.1 hd
      rwa [getHunksForPath_of_lookup hl] at hempty
    | handleFileChange path => exact changeAllowed_telescoping hs.notAccepted h
    | handleFileDeleted path =>
      refine ⟨fun he => changeAllowed_telescoping hs.notAccepted ?_, fun he state hl => ?_⟩
      · simpa only [KeepsTotals, he, if_true] using h
      · have hdeleted := h state hl
        simp only [he, Bool.false_eq_true, if_false] at hdeleted
        exact hdeleted
    | resetBaseline path => trivial
    | query q => trivial
    | hunkAction | fileAction | turnAction | allAction => exact actionAllowed_telescoping rfl h
    | resetStats => trivial
    | _ => exact absurd h.1 (by simp [HunkTrackerCommand.action?])

private theorem reachable_locState (ctx : LocSinkContext) (h : Reachable KeepsTotals false s) :
    LocState ctx s := by
  induction h with
  | new workingDir mode disk uuid =>
    refine ⟨hunkInv_new workingDir mode disk uuid, fun q state hl => ?_,
      ⟨fun path h hh => ?_, fun id hid => rfl, fun path => rfl⟩⟩
    · cases hl
    · cases hh
  | op env op _ hok ih => exact ih.steps (Op.run_steps (ih.allowed hok))
  | disk d _ ih =>
    refine ⟨ih.hunkInv.congr rfl le_rfl, ih.notAccepted, ?_⟩
    exact ih.locInv.congr (fun _ => rfl) neutral_nil (by simp) le_rfl
  | restore hrestores => cases hrestores

end Run

/-- The records of every file add up to the counts of its live hunks. -/
def TotalsExact (ctx : LocSinkContext) (s : HunkTrackerActor) : Prop :=
  ∀ path,
    (((s.locSink ctx).records.filter fun r => r.filePath = path).map HunkRecord.linesAdded).sum =
        ((s.getHunksForPath path).map fun h => (h.lineInfo.newCount : ℤ)).sum ∧
      (((s.locSink ctx).records.filter fun r => r.filePath = path).map
          HunkRecord.linesRemoved).sum =
        ((s.getHunksForPath path).map fun h => (h.lineInfo.oldCount : ℤ)).sum

/-- In every state of a run without accepting in which hunks neither split nor
merge, the records of each file add up to its live hunks. -/
theorem reachable_totalsExact {s : HunkTrackerActor} (h : Reachable KeepsTotals false s)
    (ctx : LocSinkContext) : TotalsExact ctx s := by
  intro path
  have htotal := (reachable_locState ctx h).locInv.total path
  unfold LocSink.total at htotal
  constructor
  · have hfst := congrArg (AddMonoidHom.fst ℤ ℤ) htotal
    rw [map_list_sum, map_list_sum, List.map_map, List.map_map] at hfst
    exact hfst
  · have hsnd := congrArg (AddMonoidHom.snd ℤ ℤ) htotal
    rw [map_list_sum, map_list_sum, List.map_map, List.map_map] at hsnd
    exact hsnd

/-- A session without a known user and without a consumer of aggregates. -/
def plainContext : LocSinkContext := ⟨['s'], ['g'], none, false⟩

/-- The record of a first agent write adds up to its hunk. -/
theorem wroteText_totalsExact : TotalsExact plainContext wroteText := by
  refine reachable_totalsExact (Reachable.command (.new _ _ _ _) _ _ ?_) _
  refine ⟨fun _ => rfl, fun _ state hl => ?_⟩
  cases hl

/-- An edit script that keeps the middle one of three lines for one of the texts. -/
def keepMiddle : DiffLines := fun old new =>
  if new = ['x', '\n', 'b', '\n', 'z', '\n'] then
    some [⟨.delete, ['a', '\n']⟩, ⟨.insert, ['x', '\n']⟩, ⟨.equal, ['b', '\n']⟩,
      ⟨.delete, ['c', '\n']⟩, ⟨.insert, ['z', '\n']⟩]
  else replaceLines old new

/-- An actor in `/a` after the agent wrote three lines to `/a/f`, its baseline was
reset, the agent replaced all lines, and then wrote the middle one again. -/
def splitHunk : HunkTrackerActor :=
  ((((HunkTrackerActor.new [.rootDir, .normal ['a']] .agentOnly (fun _ => .missing) 0).handleCommand
    (Env.plain keepMiddle) (.recordAgentWrite [.rootDir, .normal ['a'], .normal ['f']]
      ['a', '\n', 'b', '\n', 'c', '\n'] 0 none)).handleCommand
    (Env.plain keepMiddle) (.resetBaseline [.rootDir, .normal ['a'], .normal ['f']])).handleCommand
    (Env.plain keepMiddle) (.recordAgentWrite [.rootDir, .normal ['a'], .normal ['f']]
      ['x', '\n', 'y', '\n', 'z', '\n'] 1 none)).handleCommand
    (Env.plain keepMiddle) (.recordAgentWrite [.rootDir, .normal ['a'], .normal ['f']]
      ['x', '\n', 'b', '\n', 'z', '\n'] 2 none)

/-- The operations the totals are kept by in every run: agent writes, external
changes and deletions, rejections and resets of a baseline. -/
def WithoutAccept (_ : Env) (_ : HunkTrackerActor) : Op → Prop
  | .command (.recordAgentWrite _ _ _ _) => True
  | .command (.handleFileChange _) => True
  | .command (.handleFileDeleted _) => True
  | .command (.resetBaseline _) => True
  | .command cmd => cmd.action? = some .reject
  | _ => False

/-- After a hunk has split, both parts are recorded as differences to it. -/
theorem splitHunk_not_totalsExact :
    Reachable WithoutAccept false splitHunk ∧ ¬TotalsExact plainContext splitHunk := by
  refine ⟨((((Reachable.new _ _ _ _).command _ _ trivial).command _ _ trivial).command _ _
    trivial).command _ _ trivial, fun h => ?_⟩
  have hadded := (h [.rootDir, .normal ['a'], .normal ['f']]).1
  revert hadded
  decide

end Ezer.HunkTracker
