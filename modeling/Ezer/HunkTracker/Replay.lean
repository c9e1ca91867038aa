import Ezer.HunkTracker.Matching

/-!
# Replaying the diff events

A subscriber that keeps the hunks of a file by id and applies the events of a
recomputation should end with the new hunks. Ids follow the nearest content
match or the largest overlap, each old hunk going to the first new one that
asks for it; events follow the first content match or any overlap. The replay
is exact when the two rules agree.
-/

namespace Ezer.HunkTracker

open Ezer.Lib

/-- The hunks a subscriber knows, by id. -/
abbrev ClientView := HunkId → Option HunkView

namespace ClientView

/-- Apply one event to the view. -/
def apply (view : ClientView) : HunkEvent → ClientView
  | .hunkRemoved _ id _ => Function.update view id none
  | .hunkAdded _ hunk => Function.update view hunk.id (some hunk.view)
  | .hunkContentChanged _ hunk _ _ _ => Function.update view hunk.id (some hunk.view)
  | .hunkMoved _ id info =>
    Function.update view id ((view id).map fun v => { v with lineInfo := info })
  | _ => view

/-- Apply events in order. -/
def replay (view : ClientView) (es : List HunkEvent) : ClientView := es.foldl apply view

/-- The view of a list of hunks. -/
def ofHunks (hunks : List Hunk) : ClientView :=
  fun id => (hunks.find? fun h => h.id = id).map Hunk.view

theorem replay_append (view : ClientView) (es es' : List HunkEvent) :
    view.replay (es ++ es') = (view.replay es).replay es' := by
  unfold replay
  rw [List.foldl_append]

theorem ofHunks_of_mem {hunks : List Hunk} (hnodup : (hunks.map Hunk.id).Nodup) {h : Hunk}
    (hmem : h ∈ hunks) : ofHunks hunks h.id = some h.view := by
  unfold ofHunks
  obtain ⟨k, hk⟩ := Option.isSome_iff_exists.mp
    (List.find?_isSome (p := fun k : Hunk => decide (k.id = h.id)) |>.mpr ⟨h, hmem, by simp⟩)
  have hid : k.id = h.id := by simpa using List.find?_some hk
  rw [hk, List.inj_on_of_nodup_map hnodup (List.mem_of_find?_eq_some hk) hmem hid]
  rfl

theorem ofHunks_eq_none {hunks : List Hunk} {id : HunkId} (h : ∀ k ∈ hunks, k.id ≠ id) :
    ofHunks hunks id = none := by
  unfold ofHunks
  rw [Option.map_eq_none_iff, List.find?_eq_none]
  simpa using h

theorem exists_of_ofHunks_isSome {hunks : List Hunk} {id : HunkId}
    (h : (ofHunks hunks id).isSome = true) : ∃ k ∈ hunks, k.id = id := by
  by_contra hnone
  rw [ofHunks_eq_none fun k hk hid => hnone ⟨k, hk, hid⟩] at h
  cases h

/-- Removal events take the ids of their hunks out of the view. -/
theorem replay_removedEvents (view : ClientView) (path : Path) (gone : List Hunk)
    (reason : HunkRemovalReason) (id : HunkId) :
    view.replay (HunkTrackerActor.removedEvents path gone reason) id =
      if id ∈ gone.map Hunk.id then none else view id := by
  induction gone generalizing view with
  | nil => rfl
  | cons g gone ih =>
    have hstep : view.replay (HunkTrackerActor.removedEvents path (g :: gone) reason) =
        replay (Function.update view g.id none)
          (HunkTrackerActor.removedEvents path gone reason) := rfl
    rw [hstep, ih]
    by_cases hid : id = g.id
    · subst hid
      simp
    · simp [hid]

end ClientView

/-- The rule of the ids and the rule of the events agree on the new hunks. -/
structure RulesAgree (old new : List Hunk) : Prop where
  /-- An old hunk that is overlapped or repeated is the best match of a new one. -/
  kept : ∀ o ∈ old, ∀ n ∈ new, related o n = true →
    ∃ m ∈ new, findMatchingOldHunk m old = some o
  /-- No new hunk before one that repeats an old hunk has the same best match. -/
  claims : ∀ pre n post, new = pre ++ n :: post → (firstMatch old n).isSome = true →
    ∀ k ∈ pre, findMatchingOldHunk k old ≠ findMatchingOldHunk n old
  /-- The best match of a new hunk that repeats an old one is the first match, or
  stands at the same place and the first match goes to a later new hunk. -/
  first : ∀ pre n post o, new = pre ++ n :: post → firstMatch old n = some o →
    findMatchingOldHunk n old = some o ∨
      (∃ b, findMatchingOldHunk n old = some b ∧ b.lineInfo = n.lineInfo) ∧
        (∀ k ∈ pre, findMatchingOldHunk k old ≠ some o) ∧
        ∃ m, post.find? (fun k => findMatchingOldHunk k old = some o) = some m ∧
          ¬(hunksMatchContent o m = true ∧ o.lineInfo = m.lineInfo)

section Anonymous

variable {old fresh : List Hunk}

private theorem rulesAgree_anonymous {new : List Hunk} :
    RulesAgree old (new.map Hunk.anonymous) ↔ RulesAgree old new := by
  constructor
  · intro h
    refine ⟨fun o ho n hn hr => ?_, fun pre n post he hm k hk => ?_, fun pre n post o he hm => ?_⟩
    · obtain ⟨m, hm, hbest⟩ := h.kept o ho n.anonymous (List.mem_map_of_mem hn) hr
      obtain ⟨m', hm', rfl⟩ := List.mem_map.mp hm
      exact ⟨m', hm', hbest⟩
    · exact h.claims (pre.map Hunk.anonymous) n.anonymous (post.map Hunk.anonymous)
        (by rw [he, List.map_append, List.map_cons]) hm k.anonymous (List.mem_map_of_mem hk)
    · refine (h.first (pre.map Hunk.anonymous) n.anonymous (post.map Hunk.anonymous) o
        (by rw [he, List.map_append, List.map_cons]) hm).imp_right ?_
      rintro ⟨hb, hpre, m, hfind, hnot⟩
      refine ⟨hb, fun k hk => hpre k.anonymous (List.mem_map_of_mem hk), ?_⟩
      rw [List.find?_map] at hfind
      obtain ⟨m', hm', rfl⟩ := Option.map_eq_some_iff.mp hfind
      exact ⟨m', hm', hnot⟩
  · intro h
    refine ⟨fun o ho n hn hr => ?_, fun pre n post he hm k hk => ?_, fun pre n post o he hm => ?_⟩
    · obtain ⟨n', hn', rfl⟩ := List.mem_map.mp hn
      obtain ⟨m, hm, hbest⟩ := h.kept o ho n' hn' hr
      exact ⟨m.anonymous, List.mem_map_of_mem hm, hbest⟩
    · obtain ⟨pre, rest, rfl, rfl, hrest⟩ := List.map_eq_append_iff.mp he
      obtain ⟨n, post, rfl, rfl, rfl⟩ := List.map_eq_cons_iff.mp hrest
      obtain ⟨k', hk', rfl⟩ := List.mem_map.mp hk
      exact h.claims pre n post rfl hm k' hk'
    · obtain ⟨pre, rest, rfl, rfl, hrest⟩ := List.map_eq_append_iff.mp he
      obtain ⟨n, post, rfl, rfl, rfl⟩ := List.map_eq_cons_iff.mp hrest
      refine (h.first pre n post o rfl hm).imp_right ?_
      rintro ⟨hb, hpre, m, hfind, hnot⟩
      refine ⟨hb, fun k hk => ?_, m.anonymous, ?_, hnot⟩
      · obtain ⟨k', hk', rfl⟩ := List.mem_map.mp hk
        exact hpre k' hk'
      · rw [List.find?_map]
        exact Option.map_eq_some_iff.mpr ⟨m, hfind, rfl⟩

/-- The rules do not look at ids, so they agree on the fresh hunks when they
agree on the stored ones. -/
theorem rulesAgree_claimIds {claimed : List HunkId} :
    RulesAgree old (claimIds old claimed fresh) ↔ RulesAgree old fresh := by
  rw [← rulesAgree_anonymous, map_anonymous_claimIds, rulesAgree_anonymous]

end Anonymous

/-- The view after the event of one new hunk, if it has any. -/
def applyNew (path : Path) (old : List Hunk) (trigger : HunkSource) (view : ClientView)
    (n : Hunk) : ClientView :=
  match newHunkEvent path old trigger n with
  | some e => view.apply e
  | none => view

/-- The id that the event of a new hunk changes in the view. -/
def eventTarget (old : List Hunk) (n : Hunk) : Option HunkId :=
  match firstMatch old n with
  | some o => if hunkMoved o n then some o.id else none
  | none => some n.id

section Events

variable {path : Path} {old : List Hunk} {trigger : HunkSource} {view : ClientView} {n : Hunk}

private theorem applyNew_of_firstMatch {o : Hunk} (h : firstMatch old n = some o) :
    applyNew path old trigger view n =
      if hunkMoved o n then
        Function.update view o.id ((view o.id).map fun v => { v with lineInfo := n.lineInfo })
      else view := by
  unfold firstMatch at h
  unfold applyNew newHunkEvent
  rw [h]
  by_cases hm : hunkMoved o n = true
  · simp only [hm, if_true]
    rfl
  · simp only [hm]
    rfl

private theorem applyNew_of_noMatch (h : firstMatch old n = none) :
    applyNew path old trigger view n = Function.update view n.id (some n.view) := by
  unfold firstMatch at h
  unfold applyNew newHunkEvent
  rw [h]
  by_cases ho : (!old.any fun o => hunksOverlap o n) = true
  · simp only [ho, if_true]
    rfl
  · simp only [ho]
    rfl

private theorem applyNew_of_ne {id : HunkId} (h : eventTarget old n ≠ some id) :
    applyNew path old trigger view n id = view id := by
  unfold eventTarget at h
  cases hf : firstMatch old n with
  | none =>
    rw [hf] at h
    rw [applyNew_of_noMatch hf]
    refine Function.update_of_ne (fun he => h ?_) _ _
    rw [he]
  | some o =>
    rw [hf] at h
    rw [applyNew_of_firstMatch hf]
    split
    · rename_i hm
      simp only [hm, if_true] at h
      refine Function.update_of_ne (fun he => h ?_) _ _
      rw [he]
    · rfl

private theorem isSome_applyNew {id : HunkId} (h : (view id).isSome = true) :
    (applyNew path old trigger view n id).isSome = true := by
  cases hf : firstMatch old n with
  | none =>
    rw [applyNew_of_noMatch hf]
    by_cases hid : id = n.id
    · subst hid
      simp
    · rwa [Function.update_of_ne hid]
  | some o =>
    rw [applyNew_of_firstMatch hf]
    split
    · by_cases hid : id = o.id
      · subst hid
        simpa using h
      · rwa [Function.update_of_ne hid]
    · exact h

private theorem replay_newHunkEvents (new : List Hunk) :
    view.replay (new.filterMap (newHunkEvent path old trigger)) =
      new.foldl (applyNew path old trigger) view := by
  unfold ClientView.replay
  rw [List.foldl_filterMap]
  apply List.foldl_ext
  intro v k _
  unfold applyNew
  cases newHunkEvent path old trigger k <;> rfl

private theorem foldl_untouched {new : List Hunk} {id : HunkId}
    (h : ∀ k ∈ new, eventTarget old k ≠ some id) :
    new.foldl (applyNew path old trigger) view id = view id := by
  induction new generalizing view with
  | nil => rfl
  | cons k new ih =>
    rw [List.foldl_cons, ih fun m hm => h m (by simp [hm]), applyNew_of_ne (h k (by simp))]

private theorem isSome_foldl {id : HunkId} (h : (view id).isSome = true) (new : List Hunk) :
    (new.foldl (applyNew path old trigger) view id).isSome = true := by
  induction new generalizing view with
  | nil => exact h
  | cons k new ih => exact ih (isSome_applyNew h)

/-- Either no event of the new hunks changes an id, or there is a last one. -/
private theorem untouched_or_last (old new : List Hunk) (id : HunkId) :
    (∀ k ∈ new, eventTarget old k ≠ some id) ∨
      ∃ pre n post, new = pre ++ n :: post ∧ eventTarget old n = some id ∧
        ∀ k ∈ post, eventTarget old k ≠ some id := by
  induction new with
  | nil => simp
  | cons k new ih =>
    rcases ih with hnone | ⟨pre, n, post, rfl, hn, hpost⟩
    · by_cases hk : eventTarget old k = some id
      · exact Or.inr ⟨[], k, new, rfl, hk, hnone⟩
      · exact Or.inl (List.forall_mem_cons.mpr ⟨hk, hnone⟩)
    · exact Or.inr ⟨k :: pre, n, post, rfl, hn, hpost⟩

/-- The last event that changes an id decides what is there. -/
private theorem foldl_last {pre post : List Hunk} {id : HunkId}
    (hpost : ∀ k ∈ post, eventTarget old k ≠ some id) :
    (pre ++ n :: post).foldl (applyNew path old trigger) view id =
      applyNew path old trigger (pre.foldl (applyNew path old trigger) view) n id := by
  rw [List.foldl_append, List.foldl_cons, foldl_untouched hpost]

private theorem lineInfo_applyNew {id : HunkId} {v : HunkView} (h : eventTarget old n = some id)
    (hv : applyNew path old trigger view n id = some v) : v.lineInfo = n.lineInfo := by
  unfold eventTarget at h
  cases hf : firstMatch old n with
  | none =>
    rw [hf, Option.some.injEq] at h
    rw [applyNew_of_noMatch hf, ← h, Function.update_self, Option.some.injEq] at hv
    rw [← hv]
    rfl
  | some o =>
    rw [hf] at h
    by_cases hm : hunkMoved o n = true
    · simp only [hm, if_true, Option.some.injEq] at h
      rw [applyNew_of_firstMatch hf, if_pos hm, ← h, Function.update_self] at hv
      obtain ⟨w, -, rfl⟩ := Option.map_eq_some_iff.mp hv
      rfl
    · simp [hm] at h

end Events

section Agree

variable {path : Path} {trigger : HunkSource} {old new pre post : List Hunk} {x k o b : Hunk}

namespace Claimed

/-- The best match of a repeated old hunk is only touched by repetitions of it, so
not when the first match is another one. -/
private theorem untouched_best (h : Claimed old new) (hx : x ∈ new)
    (hfirst : firstMatch old x = some o) (hb : b ∈ old) (hcontent : hunksMatchContent b x = true)
    (hid : x.id = b.id) (hne : b ≠ o) : ∀ k ∈ new, eventTarget old k ≠ some b.id := by
  intro k hk htarget
  unfold eventTarget at htarget
  cases hf : firstMatch old k with
  | none =>
    rw [hf, Option.some.injEq] at htarget
    obtain rfl := h.eq_of_id hk hx (htarget.trans hid.symm)
    rw [hf] at hfirst
    cases hfirst
  | some c =>
    rw [hf] at htarget
    obtain ⟨hc, hck⟩ := firstMatch_mem hf
    by_cases hm : hunkMoved c k = true
    · simp only [hm, if_true, Option.some.injEq] at htarget
      obtain rfl := h.old_eq_of_id hc hb htarget
      have heq : firstMatch old x = firstMatch old k :=
        (firstMatch_congr hcontent).symm.trans (firstMatch_congr hck)
      rw [hfirst, hf, Option.some.injEq] at heq
      exact hne heq.symm
    · simp [hm] at htarget

end Claimed

/-- The view of the old hunks without those that are gone. -/
private def keptView (path : Path) (old new : List Hunk) : ClientView :=
  (ClientView.ofHunks old).replay (supersededEvents path old new)

private theorem keptView_of_related (hold : (old.map Hunk.id).Nodup) (ho : o ∈ old)
    (hk : k ∈ new) (hr : related o k = true) : keptView path old new o.id = some o.view := by
  unfold keptView supersededEvents
  rw [ClientView.replay_removedEvents, if_neg, ClientView.ofHunks_of_mem hold ho]
  intro hmem
  obtain ⟨g, hg, hid⟩ := List.mem_map.mp hmem
  obtain ⟨hgold, hgone⟩ := List.mem_filter.mp hg
  obtain rfl := List.inj_on_of_nodup_map hold hgold ho hid
  have hany : (new.any fun n => hunksOverlap g n || hunksMatchContent g n) = true :=
    List.any_eq_true.mpr ⟨k, hk, hr⟩
  simp [hany] at hgone

private theorem keptView_eq_none {id : HunkId}
    (h : ∀ o ∈ old, o.id = id → ∀ k ∈ new, related o k = false) :
    keptView path old new id = none := by
  unfold keptView supersededEvents
  rw [ClientView.replay_removedEvents]
  split
  · rfl
  · rename_i hmem
    refine ClientView.ofHunks_eq_none fun o ho hid => hmem (List.mem_map.mpr ⟨o, ?_, hid⟩)
    refine List.mem_filter.mpr ⟨ho, ?_⟩
    rw [Bool.not_eq_true', List.any_eq_false]
    intro k hk
    rw [Bool.not_eq_true]
    exact h o ho hid k hk

private theorem replay_hunkDiffEvents (path : Path) (old new : List Hunk) (trigger : HunkSource) :
    (ClientView.ofHunks old).replay (hunkDiffEvents path old new trigger) =
      new.foldl (applyNew path old trigger) (keptView path old new) := by
  unfold hunkDiffEvents keptView
  rw [ClientView.replay_append, replay_newHunkEvents]

/-- The replay reaches the new hunks. -/
private def Reaches (path : Path) (old new : List Hunk) (trigger : HunkSource) : Prop :=
  new.foldl (applyNew path old trigger) (keptView path old new) = ClientView.ofHunks new

namespace Reaches

private theorem at_new (hr : Reaches path old new trigger) (h : Claimed old new) (hx : x ∈ new) :
    new.foldl (applyNew path old trigger) (keptView path old new) x.id = some x.view :=
  (congrFun hr x.id).trans (ClientView.ofHunks_of_mem h.nodup hx)

/-- An old hunk that is related to a new one lives on in the new list. -/
private theorem exists_id (hr : Reaches path old new trigger) (h : Claimed old new) (ho : o ∈ old)
    (hk : k ∈ new) (hrel : related o k = true) : ∃ x ∈ new, x.id = o.id := by
  refine ClientView.exists_of_ofHunks_isSome ?_
  have hfinal := congrFun hr o.id
  rw [← hfinal]
  apply isSome_foldl
  rw [keptView_of_related h.old_nodup ho hk hrel]
  rfl

/-- The last event that changes an id is the one of its new hunk. -/
private theorem last (hr : Reaches path old new trigger) (h : Claimed old new) (hx : x ∈ new)
    (hk : k ∈ new) (htarget : eventTarget old k = some x.id) :
    ∃ pre post, new = pre ++ x :: post ∧ eventTarget old x = some x.id ∧
      ∀ m ∈ post, eventTarget old m ≠ some x.id := by
  rcases untouched_or_last old new x.id with hnone | ⟨pre, n, post, rfl, hn, hpost⟩
  · exact absurd htarget (hnone k hk)
  · have hfinal := hr.at_new h hx
    rw [foldl_last hpost] at hfinal
    have hinfo := lineInfo_applyNew hn hfinal
    obtain rfl := h.eq_of_lineInfo hx (by simp) hinfo
    exact ⟨pre, post, rfl, hn, hpost⟩

/-- A new hunk that repeats an old one takes the id of its best match. -/
private theorem id_of_firstMatch (hr : Reaches path old (pre ++ x :: post) trigger)
    (h : Claimed old (pre ++ x :: post)) (hfirst : firstMatch old x = some o) :
    ∃ b ∈ old, findMatchingOldHunk x old = some b ∧
      (∀ k ∈ pre, findMatchingOldHunk k old ≠ some b) ∧ x.id = b.id := by
  refine (h.split pre x post rfl).resolve_right ?_
  rintro ⟨-, hapart⟩
  have hx : x ∈ pre ++ x :: post := by simp
  have hfinal := hr.at_new h hx
  rw [foldl_untouched, keptView_eq_none fun o ho hid => absurd hid.symm (hapart o ho)] at hfinal
  · cases hfinal
  · intro k hk htarget
    unfold eventTarget at htarget
    cases hf : firstMatch old k with
    | none =>
      rw [hf, Option.some.injEq] at htarget
      obtain rfl := h.eq_of_id hk hx htarget
      rw [hf] at hfirst
      cases hfirst
    | some c =>
      rw [hf] at htarget
      by_cases hm : hunkMoved c k = true
      · simp only [hm, if_true, Option.some.injEq] at htarget
        exact hapart c (firstMatch_mem hf).1 htarget.symm
      · simp [hm] at htarget

private theorem first_goes_on (hr : Reaches path old (pre ++ x :: post) trigger)
    (h : Claimed old (pre ++ x :: post)) (hfirst : firstMatch old x = some o)
    (hbest : findMatchingOldHunk x old = some b) (hne : b ≠ o) :
    (∀ k ∈ pre, findMatchingOldHunk k old ≠ some o) ∧
      ∃ m, post.find? (fun k => findMatchingOldHunk k old = some o) = some m ∧
        ¬(hunksMatchContent o m = true ∧ o.lineInfo = m.lineInfo) := by
  have hx : x ∈ pre ++ x :: post := by simp
  obtain ⟨ho, hox⟩ := firstMatch_mem hfirst
  have hmoved : hunkMoved o x = true := by
    refine hunkMoved_of_ne hox fun hsame => hne ?_
    rw [best_of_unmoved hfirst hsame, Option.some.injEq] at hbest
    exact hbest.symm
  have htarget : eventTarget old x = some o.id := by
    unfold eventTarget
    rw [hfirst]
    exact if_pos hmoved
  obtain ⟨m, hm, hmid⟩ := hr.exists_id h ho hx (related_of_content hox)
  rw [← hmid] at htarget
  obtain ⟨p, q, hsplit, hmtarget, hq⟩ := hr.last h hm hx htarget
  have hmx : m ≠ x := by
    rintro rfl
    have hclaim := (h.best_of_id ho hmid).1
    rw [hbest, Option.some.injEq] at hclaim
    exact hne hclaim
  have hpost : m ∈ post := by
    rcases List.mem_append.mp hm with hpre | hmem
    · obtain ⟨p', q', rfl⟩ := List.append_of_mem hpre
      rw [List.append_assoc, List.cons_append] at hsplit h
      obtain ⟨hp', hq'⟩ := h.not_mem_split
      have hrest := ((List.append_cons_inj_of_notMem hp' hq').mp hsplit).2.2
      exact absurd htarget (hq x (by simp [← hrest]))
    · exact (List.mem_cons.mp hmem).resolve_left hmx
  obtain ⟨q₁, q₂, rfl⟩ := List.append_of_mem hpost
  have hassoc : pre ++ x :: (q₁ ++ m :: q₂) = (pre ++ x :: q₁) ++ m :: q₂ := by simp
  rw [hassoc] at h
  have hclaim := h.best_of_id ho hmid
  refine ⟨fun k hk => hclaim.2 k (by simp [hk]), m, ?_, ?_⟩
  · rw [List.find?_eq_some_iff_append]
    refine ⟨by simpa using hclaim.1, q₁, q₂, rfl, fun k hk => ?_⟩
    simpa using hclaim.2 k (by simp [hk])
  · rintro ⟨hcontent, hinfo⟩
    have hmfirst : firstMatch old m = some o :=
      (firstMatch_congr hcontent).symm.trans ((firstMatch_congr hox).trans hfirst)
    unfold eventTarget at hmtarget
    rw [hmfirst] at hmtarget
    simp [not_hunkMoved hinfo] at hmtarget

private theorem rulesAgree (hr : Reaches path old new trigger) (h : Claimed old new) :
    RulesAgree old new := by
  refine ⟨fun o ho n hn hrel => ?_, fun pre n post he hsome k hk heq => ?_,
    fun pre n post o he hfirst => ?_⟩
  · obtain ⟨x, hx, hid⟩ := hr.exists_id h ho hn hrel
    obtain ⟨pre, post, rfl⟩ := List.append_of_mem hx
    exact ⟨x, hx, (h.best_of_id ho hid).1⟩
  · subst he
    obtain ⟨o, hfirst⟩ := Option.isSome_iff_exists.mp hsome
    obtain ⟨b, -, hbest, hpre, -⟩ := hr.id_of_firstMatch h hfirst
    exact hpre k hk (heq.trans hbest)
  · subst he
    obtain ⟨b, hb, hbest, -, hid⟩ := hr.id_of_firstMatch h hfirst
    by_cases hbo : b = o
    · exact Or.inl (hbo ▸ hbest)
    · refine Or.inr ⟨⟨b, hbest, ?_⟩, hr.first_goes_on h hfirst hbest hbo⟩
      have hn : n ∈ pre ++ n :: post := by simp
      obtain ⟨b', hb', -, hcontent, -⟩ := exists_best_of_firstMatch hfirst
      obtain rfl : b' = b := by simpa [hbest] using hb'.symm
      have hfinal := hr.at_new h hn
      rw [hid, foldl_untouched (h.untouched_best hn hfirst hb hcontent hid hbo),
        keptView_of_related h.old_nodup hb hn (related_of_content hcontent),
        Option.some.injEq] at hfinal
      exact congrArg HunkView.lineInfo hfinal

end Reaches

namespace RulesAgree

/-- The old hunk that a new one repeats is not the match of a hunk before it. -/
private theorem not_claimed_before (hagree : RulesAgree old (pre ++ k :: post))
    (hfirst : firstMatch old k = some o) (hx : x ∈ pre)
    (hbest : findMatchingOldHunk x old = some o) : False := by
  rcases hagree.first pre k post o rfl hfirst with hk | ⟨-, hpre, -⟩
  · exact hagree.claims pre k post rfl (by simp [hfirst]) x hx (hbest.trans hk.symm)
  · exact hpre x hx hbest

/-- A new hunk without an equal among the old ones is shown as it is. -/
private theorem reaches_noMatch (hagree : RulesAgree old (pre ++ x :: post))
    (h : Claimed old (pre ++ x :: post)) (hfirst : firstMatch old x = none) (view : ClientView) :
    (pre ++ x :: post).foldl (applyNew path old trigger) view x.id = some x.view := by
  rw [foldl_last, applyNew_of_noMatch hfirst, Function.update_self]
  intro k hk htarget
  have hx : x ∈ pre ++ x :: post := by simp
  have hkmem : k ∈ pre ++ x :: post := by simp [hk]
  unfold eventTarget at htarget
  cases hf : firstMatch old k with
  | none =>
    rw [hf, Option.some.injEq] at htarget
    exact h.not_mem_split.2 (h.eq_of_id hkmem hx htarget ▸ hk)
  | some o =>
    rw [hf] at htarget
    by_cases hm : hunkMoved o k = true
    · simp only [hm, if_true, Option.some.injEq] at htarget
      have hbest := (h.best_of_id (firstMatch_mem hf).1 htarget.symm).1
      obtain ⟨q₁, q₂, rfl⟩ := List.append_of_mem hk
      have hassoc : pre ++ x :: (q₁ ++ k :: q₂) = (pre ++ x :: q₁) ++ k :: q₂ := by simp
      exact not_claimed_before (hassoc ▸ hagree) hf (by simp) hbest
    · simp [hm] at htarget

private theorem last_of_first (hagree : RulesAgree old new) (h : Claimed old new) (hx : x ∈ new)
    (hfirst : firstMatch old x = some o) (hbest : findMatchingOldHunk x old = some o)
    {p q : List Hunk} (hsplit : new = p ++ k :: q) (htarget : eventTarget old k = some o.id)
    (hq : ∀ m ∈ q, eventTarget old m ≠ some o.id) (hid : x.id = o.id) : k = x := by
  subst hsplit
  obtain ⟨ho, hox⟩ := firstMatch_mem hfirst
  unfold eventTarget at htarget
  cases hf : firstMatch old k with
  | none =>
    rw [hf, Option.some.injEq] at htarget
    exact h.eq_of_id (by simp) hx (htarget.trans hid.symm)
  | some c =>
    rw [hf] at htarget
    by_cases hm : hunkMoved c k = true
    · simp only [hm, if_true, Option.some.injEq] at htarget
      obtain rfl := h.old_eq_of_id (firstMatch_mem hf).1 ho htarget
      rcases List.mem_append.mp hx with hxp | hxk
      · exact (hagree.not_claimed_before hf hxp hbest).elim
      · rcases List.mem_cons.mp hxk with rfl | hxq
        · rfl
        · obtain ⟨q₁, q₂, rfl⟩ := List.append_of_mem hxq
          have hassoc : p ++ k :: (q₁ ++ x :: q₂) = (p ++ k :: q₁) ++ x :: q₂ := by simp
          have hbefore : ∀ m ∈ p ++ k :: q₁, findMatchingOldHunk m old ≠ some c := fun m hm' =>
            fun hmc => not_claimed_before (hassoc ▸ hagree) hfirst hm' hmc
          rcases hagree.first p k (q₁ ++ x :: q₂) c rfl hf with hk | ⟨-, -, m, hfind, hnot⟩
          · exact absurd hk (hbefore k (by simp))
          · have hxfind : (q₁ ++ x :: q₂).find?
                (fun k => findMatchingOldHunk k old = some c) = some x := by
              rw [List.find?_eq_some_iff_append]
              refine ⟨by simpa using hbest, q₁, q₂, rfl, fun m hm' => ?_⟩
              simpa using hbefore m (by simp [hm'])
            obtain rfl : x = m := by simpa [hxfind] using hfind
            have hmoved : hunkMoved c x = true :=
              hunkMoved_of_ne hox fun hsame => hnot ⟨hox, hsame⟩
            refine absurd ?_ (hq x (by simp))
            unfold eventTarget
            rw [hfirst]
            exact if_pos hmoved
    · simp [hm] at htarget

end RulesAgree

private theorem texts_foldl {id : HunkId} {view : ClientView} {v : HunkView} {l : List Hunk}
    (hl : ∀ k ∈ l, firstMatch old k = none → k.id ≠ id) (hv : view id = some v) :
    ∃ w, l.foldl (applyNew path old trigger) view id = some w ∧ w.oldText = v.oldText ∧
      w.newText = v.newText := by
  induction l generalizing view v with
  | nil => exact ⟨v, hv, rfl, rfl⟩
  | cons k l ih =>
    have hstep : ∃ w, applyNew path old trigger view k id = some w ∧ w.oldText = v.oldText ∧
        w.newText = v.newText := by
      cases hf : firstMatch old k with
      | none =>
        rw [applyNew_of_noMatch hf, Function.update_of_ne (hl k (by simp) hf).symm]
        exact ⟨v, hv, rfl, rfl⟩
      | some o =>
        rw [applyNew_of_firstMatch hf]
        split
        · by_cases hid : id = o.id
          · subst hid
            rw [Function.update_self, hv]
            exact ⟨_, rfl, rfl, rfl⟩
          · rw [Function.update_of_ne hid]
            exact ⟨v, hv, rfl, rfl⟩
        · exact ⟨v, hv, rfl, rfl⟩
    obtain ⟨w, hw, hold, hnew⟩ := hstep
    obtain ⟨u, hu, huold, hunew⟩ := ih (fun m hm => hl m (by simp [hm])) hw
    exact ⟨u, hu, huold.trans hold, hunew.trans hnew⟩

/-- A hunk is seen through its position and texts. -/
private theorem view_of_content (h : hunksMatchContent o x = true) {v : HunkView}
    (hinfo : v.lineInfo = x.lineInfo) (hold : v.oldText = o.oldText)
    (hnew : v.newText = o.newText) : v = x.view := by
  obtain ⟨-, hold', hnew'⟩ := hunksMatchContent_iff.mp h
  obtain ⟨info, vold, vnew⟩ := v
  simp only at hinfo hold hnew
  simp [Hunk.view, hinfo, hold, hnew, hold', hnew']

namespace RulesAgree

private theorem reaches_match (hagree : RulesAgree old new) (h : Claimed old new) (hx : x ∈ new)
    (hfirst : firstMatch old x = some o) :
    new.foldl (applyNew path old trigger) (keptView path old new) x.id = some x.view := by
  obtain ⟨b, hbest, hb, hcontent, -⟩ := exists_best_of_firstMatch hfirst
  obtain ⟨ho, hox⟩ := firstMatch_mem hfirst
  obtain ⟨pre, post, rfl⟩ := List.append_of_mem hx
  have hid : x.id = b.id := by
    rcases h.split pre x post rfl with ⟨b', -, hb', -, hid⟩ | ⟨hclaimed, -⟩
    · obtain rfl : b' = b := by simpa [hbest] using hb'.symm
      exact hid
    · obtain ⟨k, hk, hkb⟩ := hclaimed b hbest
      exact absurd (hkb.trans hbest.symm) (hagree.claims pre x post rfl (by simp [hfirst]) k hk)
  have hkept : keptView path old (pre ++ x :: post) b.id = some b.view :=
    keptView_of_related h.old_nodup hb hx (related_of_content hcontent)
  by_cases hbo : b = o
  · subst hbo
    rw [hid]
    rcases untouched_or_last old (pre ++ x :: post) b.id with hnone | ⟨p, k, q, hsplit, hk, hq⟩
    · rw [foldl_untouched hnone, hkept, Option.some.injEq]
      refine view_of_content hcontent ?_ rfl rfl
      by_contra hinfo
      refine hnone x hx ?_
      unfold eventTarget
      rw [hfirst]
      exact if_pos (hunkMoved_of_ne hcontent hinfo)
    · obtain rfl := hagree.last_of_first h hx hfirst hbest hsplit hk hq hid
      rw [hsplit, foldl_last hq]
      have hp : ∀ m ∈ p, firstMatch old m = none → m.id ≠ b.id := by
        intro m hm _ hmid
        rw [hsplit] at h
        exact h.not_mem_split.1 (h.eq_of_id (by simp [hm]) (by simp) (hmid.trans hid.symm) ▸ hm)
      rw [hsplit] at hkept
      obtain ⟨w, hw, hwold, hwnew⟩ := texts_foldl hp hkept
      have hmoved : hunkMoved b k = true := by
        unfold eventTarget at hk
        rw [hfirst] at hk
        by_contra hm
        simp [hm] at hk
      rw [applyNew_of_firstMatch hfirst, if_pos hmoved, Function.update_self, hw]
      exact congrArg some (view_of_content hcontent rfl hwold hwnew)
  · rw [hid, foldl_untouched (h.untouched_best hx hfirst hb hcontent hid hbo), hkept,
      Option.some.injEq]
    refine view_of_content hcontent ?_ rfl rfl
    rcases hagree.first pre x post o rfl hfirst with hfirstBest | ⟨⟨b', hb', hinfo⟩, -⟩
    · rw [hbest, Option.some.injEq] at hfirstBest
      exact absurd hfirstBest hbo
    · obtain rfl : b' = b := by simpa [hbest] using hb'.symm
      exact hinfo

private theorem reaches (hagree : RulesAgree old new) (h : Claimed old new) :
    Reaches path old new trigger := by
  unfold Reaches
  funext id
  by_cases hex : ∃ x ∈ new, x.id = id
  · obtain ⟨x, hx, rfl⟩ := hex
    rw [ClientView.ofHunks_of_mem h.nodup hx]
    cases hfirst : firstMatch old x with
    | none =>
      obtain ⟨pre, post, rfl⟩ := List.append_of_mem hx
      exact hagree.reaches_noMatch h hfirst _
    | some o => exact hagree.reaches_match h hx hfirst
  · have hgone : ∀ o ∈ old, o.id = id → ∀ k ∈ new, related o k = false := by
      intro o ho hid k hk
      by_contra hr
      obtain ⟨m, hm, hbest⟩ := hagree.kept o ho k hk (by simpa using hr)
      obtain ⟨x, hx, hxo⟩ := h.exists_id_of_best hm hbest
      exact hex ⟨x, hx, hxo.trans hid⟩
    rw [ClientView.ofHunks_eq_none fun k hk hid => hex ⟨k, hk, hid⟩, foldl_untouched,
      keptView_eq_none hgone]
    intro k hk htarget
    unfold eventTarget at htarget
    cases hf : firstMatch old k with
    | none =>
      rw [hf, Option.some.injEq] at htarget
      exact hex ⟨k, hk, htarget⟩
    | some o =>
      rw [hf] at htarget
      obtain ⟨ho, hok⟩ := firstMatch_mem hf
      by_cases hm : hunkMoved o k = true
      · simp only [hm, if_true, Option.some.injEq] at htarget
        have hrel := hgone o ho htarget k hk
        rw [related_of_content hok] at hrel
        cases hrel
      · simp [hm] at htarget

end RulesAgree

theorem Claimed.replay_iff (h : Claimed old new) (path : Path) (trigger : HunkSource) :
    (ClientView.ofHunks old).replay (hunkDiffEvents path old new trigger) =
      ClientView.ofHunks new ↔ RulesAgree old new := by
  rw [replay_hunkDiffEvents]
  exact ⟨fun hr => Reaches.rulesAgree hr h, fun hagree => hagree.reaches h⟩

/-- Hunks that are seen alike at one path have the same content. -/
private theorem content_of_view (hpath : o.path = k.path) (hview : o.view = k.view) :
    hunksMatchContent o k = true ∧ o.lineInfo = k.lineInfo := by
  obtain ⟨hinfo, hold, hnew⟩ := HunkView.mk.inj hview
  exact ⟨hunksMatchContent_iff.mpr ⟨hpath, hold, hnew⟩, hinfo⟩

private theorem RulesAgree.not_moved (hagree : RulesAgree old new)
    (hpaths : ∀ o ∈ old, ∀ k ∈ new, o.path = k.path)
    (hsync : old.map Hunk.view = new.map Hunk.view)
    (hsorted : new.Pairwise fun a b => a.lineInfo.newStart < b.lineInfo.newStart) (hx : x ∈ new)
    (hfirst : firstMatch old x = some o) : hunkMoved o x = false := by
  have hstart : ∀ y ∈ new, y.lineInfo.newStart = x.lineInfo.newStart → y = x := by
    have hnodup : (new.map fun k => k.lineInfo.newStart).Nodup := by
      rw [List.Nodup, List.pairwise_map]
      exact hsorted.imp ne_of_lt
    exact fun y hy he => List.inj_on_of_nodup_map hnodup hy hx he
  obtain ⟨ho, hox⟩ := firstMatch_mem hfirst
  obtain ⟨y, hy, hyo⟩ := List.mem_map.mp (hsync ▸ List.mem_map_of_mem (f := Hunk.view) ho)
  obtain ⟨hoy, hinfo⟩ := content_of_view (hpaths o ho y hy) hyo.symm
  by_contra hmoved
  have hyx : y ≠ x := by
    rintro rfl
    exact hmoved (not_hunkMoved hinfo)
  have hyfirst : firstMatch old y = some o :=
    (firstMatch_congr hoy).symm.trans ((firstMatch_congr hox).trans hfirst)
  have hybest := best_of_unmoved hyfirst hinfo
  obtain ⟨pre, post, rfl⟩ := List.append_of_mem hx
  rcases hagree.first pre x post o rfl hfirst with hbest | ⟨-, hpre, m, hfind, hnot⟩
  · obtain ⟨b, hb, -, -, hle⟩ := exists_best_of_firstMatch hfirst
    obtain rfl : b = o := by simpa [hbest] using hb.symm
    obtain ⟨c, hc, hcx⟩ := List.mem_map.mp (hsync.symm ▸ List.mem_map_of_mem (f := Hunk.view) hx)
    obtain ⟨hcontent, hcinfo⟩ := content_of_view (hpaths c hc x hx) hcx
    have hdist := hle c hc hcontent
    rw [hcinfo] at hdist
    refine hyx (hstart y hy ?_)
    rw [← hinfo]
    unfold absDiff at hdist
    omega
  · have hypost : y ∈ post := by
      rcases List.mem_append.mp hy with hypre | hmem
      · exact absurd hybest (hpre y hypre)
      · exact (List.mem_cons.mp hmem).resolve_left hyx
    obtain ⟨hm, q₁, q₂, rfl, hq₁⟩ := List.find?_eq_some_iff_append.mp hfind
    rcases List.mem_append.mp hypost with hyq | hmem
    · simpa [hybest] using hq₁ y hyq
    · rcases List.mem_cons.mp hmem with rfl | hyq
      · exact hnot ⟨hoy, hinfo⟩
      · obtain ⟨r₁, r₂, rfl⟩ := List.append_of_mem hyq
        have hassoc : pre ++ x :: (q₁ ++ m :: (r₁ ++ y :: r₂)) =
            (pre ++ x :: q₁ ++ m :: r₁) ++ y :: r₂ := by simp
        exact RulesAgree.not_claimed_before (hassoc ▸ hagree) hyfirst (by simp)
          (of_decide_eq_true hm)

/-- Where the rules agree, nothing is reported of hunks that did not change. -/
private theorem RulesAgree.quiet (hagree : RulesAgree old new)
    (hpaths : ∀ o ∈ old, ∀ k ∈ new, o.path = k.path)
    (hsync : old.map Hunk.view = new.map Hunk.view)
    (hsorted : new.Pairwise fun a b => a.lineInfo.newStart < b.lineInfo.newStart) :
    hunkDiffEvents path old new trigger = [] := by
  have hgone : supersededEvents path old new = [] := by
    unfold supersededEvents HunkTrackerActor.removedEvents
    rw [List.map_eq_nil_iff, List.filter_eq_nil_iff]
    intro o ho
    obtain ⟨y, hy, hyo⟩ := List.mem_map.mp (hsync ▸ List.mem_map_of_mem (f := Hunk.view) ho)
    have hcontent := (content_of_view (hpaths o ho y hy) hyo.symm).1
    have hany : (new.any fun n => hunksOverlap o n || hunksMatchContent o n) = true :=
      List.any_eq_true.mpr ⟨y, hy, related_of_content hcontent⟩
    simp [hany]
  unfold hunkDiffEvents
  rw [hgone, List.nil_append, List.filterMap_eq_nil_iff]
  intro x hx
  obtain ⟨c, hc, hcx⟩ := List.mem_map.mp (hsync.symm ▸ List.mem_map_of_mem (f := Hunk.view) hx)
  have hcontent := (content_of_view (hpaths c hc x hx) hcx).1
  obtain ⟨o, hfirst⟩ := Option.isSome_iff_exists.mp
    (List.find?_isSome (p := fun o => hunksMatchContent o x) |>.mpr ⟨c, hc, hcontent⟩)
  have hmoved := hagree.not_moved hpaths hsync hsorted hx hfirst
  unfold newHunkEvent
  rw [hfirst]
  simp [hmoved]

end Agree

namespace HunkTrackerActor

/-- The stored hunks of a file are what its baseline and a content give. -/
def InSync (s : HunkTrackerActor) (env : Env) (path : Path)
    (newCurrent : Option FileContentState) : Prop :=
  ∀ state, s.fileStates.lookup path = some state →
    state.hunks.map Hunk.view =
      (diffStates env.diffLines path state.baseline (newCurrent.getD .missing) .external 0).map
        Hunk.view

/-- After a recomputation the hunks of a file are in sync with its content. -/
theorem inSync_recomputeHunks (s : HunkTrackerActor) (env : Env) (path : Path)
    (newCurrent : Option FileContentState) (source : HunkSource) :
    (s.recomputeHunks env path newCurrent source).InSync env path newCurrent := by
  intro state hl
  cases h : s.fileStates.lookup path with
  | none =>
    rw [recomputeHunks_of_none h, h] at hl
    cases hl
  | some old =>
    rw [recomputeHunks_of_some h, AList.lookup_insert, Option.some.injEq] at hl
    subst hl
    rw [map_view_claimIds]
    exact map_view_diffStates _ _ _ _ _ _ _ _

/-- A subscriber that replays the events of a recomputation ends with the new
hunks, and hears nothing when neither the baseline nor the content changed. -/
structure ReplayExact (s : HunkTrackerActor) (env : Env) (path : Path)
    (newCurrent : Option FileContentState) (source : HunkSource) : Prop where
  replay : (ClientView.ofHunks (s.getHunksForPath path)).replay
      ((s.recomputeHunks env path newCurrent source).events.drop s.events.length) =
    ClientView.ofHunks ((s.recomputeHunks env path newCurrent source).getHunksForPath path)
  quiet : s.InSync env path newCurrent →
    (s.recomputeHunks env path newCurrent source).events = s.events

/-- In every reachable state, the events of a recomputation can be replayed
exactly when the rule of the ids and the rule of the events agree. -/
theorem replayExact_iff {s : HunkTrackerActor} (hs : Reachable OwnSnapshots true s) (env : Env)
    (path : Path) (newCurrent : Option FileContentState) (source : HunkSource) :
    s.ReplayExact env path newCurrent source ↔
      ∀ state, s.fileStates.lookup path = some state →
        RulesAgree state.hunks (s.freshHunks env path state newCurrent source) := by
  have hinv : HunkInv s := reachable_hunkInv (fun _ _ _ hop => hop) hs
  cases hl : s.fileStates.lookup path with
  | none =>
    refine iff_of_true ⟨?_, fun _ => ?_⟩ fun state hl' => by cases hl'
    · rw [recomputeHunks_of_none hl, List.drop_length]
      rfl
    · rw [recomputeHunks_of_none hl]
  | some state =>
    have hfresh : FreshDiff path source s.uuid (s.freshHunks env path state newCurrent source) :=
      freshDiff_diffStates _ _ _ _ _ _
    have hrematch := hinv.rematch hl hfresh
    set fresh := s.freshHunks env path state newCurrent source with hdef
    have hold : s.getHunksForPath path = state.hunks := by
      simp [getHunksForPath, hl]
    have hnew : (s.recomputeHunks env path newCurrent source).getHunksForPath path =
        claimIds state.hunks [] fresh := by
      rw [recomputeHunks_of_some hl]
      simp [getHunksForPath, hdef]
    have hevents : (s.recomputeHunks env path newCurrent source).events = s.events ++
        hunkDiffEvents path state.hunks (claimIds state.hunks [] fresh) source := by
      rw [recomputeHunks_of_some hl]
    have hiff := hrematch.claimed.replay_iff path source
    rw [rulesAgree_claimIds] at hiff
    constructor
    · rintro ⟨hreplay, -⟩ st hst
      obtain rfl : state = st := by simpa using hst
      rw [hevents, List.drop_left, hold, hnew] at hreplay
      exact hiff.mp hreplay
    · intro hagree
      refine ⟨?_, fun hsync => ?_⟩
      · rw [hevents, List.drop_left, hold, hnew]
        exact hiff.mpr (hagree state rfl)
      · rw [hevents, List.append_right_eq_self]
        have hview : state.hunks.map Hunk.view = fresh.map Hunk.view :=
          (hsync state hl).trans (map_view_diffStates _ _ _ _ _ _ _ _)
        have hpaths : ∀ o ∈ state.hunks, ∀ k ∈ claimIds state.hunks [] fresh, o.path = k.path := by
          intro o ho k hk
          rw [hinv.path_eq hl o ho]
          obtain ⟨n, hn, rfl | ⟨b, -, -, -, rfl⟩⟩ := mem_claimIds hk
          · exact (hfresh.path_eq k hn).symm
          · exact (hfresh.path_eq n hn).symm
        have hsorted := sorted_claimIds state.hunks [] hfresh.sorted
        refine RulesAgree.quiet (rulesAgree_claimIds.mpr (hagree state rfl)) hpaths ?_ hsorted
        rw [hview, map_view_claimIds]

end HunkTrackerActor

open HunkTrackerActor

private theorem wroteText_ownSnapshots : Reachable OwnSnapshots true wroteText :=
  (Reachable.new _ _ _ _).command _ _ trivial

/-- Rewriting a created file is one change of its only hunk. -/
theorem wroteText_replayExact :
    wroteText.ReplayExact (Env.plain replaceLines) [.rootDir, .normal ['a'], .normal ['f']]
      (some (.full ['y'])) .external := by
  refine (replayExact_iff wroteText_ownSnapshots _ _ _ _).mpr fun state hl => ?_
  have hstate : (wroteText.fileStates.lookup [.rootDir, .normal ['a'], .normal ['f']]).map
      (fun st => (st.hunks, wroteText.freshHunks (Env.plain replaceLines)
        [.rootDir, .normal ['a'], .normal ['f']] st (some (.full ['y'])) .external)) =
      some ([Hunk.fileCreated 0 [.rootDir, .normal ['a'], .normal ['f']] ['x'] (.agentEdit 0)],
        [Hunk.fileCreated 1 [.rootDir, .normal ['a'], .normal ['f']] ['y'] .external]) := by
    decide
  rw [hl, Option.map_some, Option.some.injEq, Prod.mk.injEq] at hstate
  have hnone : firstMatch [Hunk.fileCreated 0 [.rootDir, .normal ['a'], .normal ['f']] ['x']
      (.agentEdit 0)] (Hunk.fileCreated 1 [.rootDir, .normal ['a'], .normal ['f']] ['y']
      .external) = none := by decide
  have hsingle : ∀ {pre post : List Hunk} {n c : Hunk}, [c] = pre ++ n :: post → n = c := by
    intro pre post n c he
    have hmem : n ∈ [c] := by simp [he]
    simpa using hmem
  rw [hstate.1, hstate.2]
  refine ⟨fun o ho n hn _ => ⟨n, hn, ?_⟩, fun pre n post he hm => ?_,
    fun pre n post o he hm => ?_⟩
  · obtain rfl := List.mem_singleton.mp ho
    obtain rfl := List.mem_singleton.mp hn
    decide
  · rw [hsingle he, hnone] at hm
    cases hm
  · rw [hsingle he, hnone] at hm
    cases hm

/-- An edit script that replaces the lines around an equal one. -/
def twoEdits : DiffLines := fun _ _ =>
  some [⟨.delete, ['x', '\n']⟩, ⟨.insert, ['y', '\n']⟩, ⟨.equal, ['m', '\n']⟩,
    ⟨.delete, ['x', '\n']⟩, ⟨.insert, ['y', '\n']⟩]

/-- An actor in `/a` after the agent created `/a/f`, the user accepted it, and the
agent made the same edit on its first and its last line. -/
def editedTwice : HunkTrackerActor :=
  (((HunkTrackerActor.new [.rootDir, .normal ['a']] .agentOnly (fun _ => .missing) 0).handleCommand
    (Env.plain twoEdits) (.recordAgentWrite [.rootDir, .normal ['a'], .normal ['f']]
      ['x', '\n', 'm', '\n', 'x', '\n'] 0 none)).handleCommand
    (Env.plain twoEdits) (.allAction .accept)).handleCommand
    (Env.plain twoEdits) (.recordAgentWrite [.rootDir, .normal ['a'], .normal ['f']]
      ['y', '\n', 'm', '\n', 'y', '\n'] 1 none)

/-- Recomputing a file with the same edit on two lines, with nothing changed,
reports the first hunk as moved to the second one. -/
theorem editedTwice_not_replayExact :
    Reachable OwnSnapshots true editedTwice ∧
      ¬editedTwice.ReplayExact (Env.plain twoEdits) [.rootDir, .normal ['a'], .normal ['f']]
        (some (.full ['y', '\n', 'm', '\n', 'y', '\n'])) .external := by
  refine ⟨(((Reachable.new _ _ _ _).command _ _ trivial).command _ _ trivial).command _ _ trivial,
    fun h => ?_⟩
  have hlast := congrFun h.replay 1
  revert hlast
  decide

end Ezer.HunkTracker
