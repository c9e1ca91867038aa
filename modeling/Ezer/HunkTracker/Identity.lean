import Ezer.HunkTracker.Replay

/-!
# Identity of unchanged hunks

A new hunk that repeats an old one in content and position is the same change,
seen again. Matching runs once over the new hunks and never revises a choice,
so a repeated hunk keeps its id and attribution exactly when its best match is
the old hunk and no hunk before it has asked for that id.
-/

namespace Ezer.HunkTracker

open Ezer.Lib

/-- One hunk has the path, the texts and the position of another. -/
def Hunk.Repeats (n o : Hunk) : Prop :=
  n.path = o.path ∧ n.oldText = o.oldText ∧ n.newText = o.newText ∧ n.lineInfo = o.lineInfo

instance (n o : Hunk) : Decidable (n.Repeats o) :=
  inferInstanceAs (Decidable (_ ∧ _ ∧ _ ∧ _))

/-- The new hunks have distinct ids, and each one that repeats an old hunk has
its id and, after an external edit, its agent attribution. -/
structure KeepsIdentity (source : HunkSource) (old new : List Hunk) : Prop where
  distinct : (new.map Hunk.id).Nodup
  same_id : ∀ n ∈ new, ∀ o ∈ old, n.Repeats o → n.id = o.id
  same_source : ∀ n ∈ new, ∀ o ∈ old, n.Repeats o → source.isExternal = true →
    o.source.isAgentEdit = true → n.source = o.source

/-- The old ids that a list of new hunks asks for. -/
def askedIds (old : List Hunk) (new : List Hunk) : List HunkId :=
  new.filterMap fun n => (findMatchingOldHunk n old).map Hunk.id

theorem mem_askedIds {old new : List Hunk} {id : HunkId} :
    id ∈ askedIds old new ↔
      ∃ k ∈ new, ∃ b, findMatchingOldHunk k old = some b ∧ b.id = id := by
  simp [askedIds, List.mem_filterMap, Option.map_eq_some_iff]

/-- The best match of a repeated hunk stands for the old hunk, and no hunk
before it has asked for its id. -/
structure Unclaimed (source : HunkSource) (old before : List Hunk) (n o : Hunk) : Prop where
  best : ∃ b, findMatchingOldHunk n old = some b ∧ b.id = o.id ∧
    (source.isExternal = true → o.source.isAgentEdit = true → b.source = o.source)
  first : o.id ∉ askedIds old before

/-- Every repeated hunk of a fresh diff is the first to ask for its old one. -/
def AllUnclaimed (source : HunkSource) (old fresh : List Hunk) : Prop :=
  ∀ before n after, fresh = before ++ n :: after → ∀ o ∈ old, n.Repeats o →
    Unclaimed source old before n o

/-- A fresh hunk after matching, when some ids are claimed already. -/
def keptHunk (old : List Hunk) (claimed : List HunkId) (n : Hunk) : Hunk :=
  match findMatchingOldHunk n old with
  | some best => if best.id ∈ claimed then n else n.inherit best
  | none => n

theorem keptHunk_congr {old : List Hunk} {claimed claimed' : List HunkId}
    (h : ∀ id, id ∈ claimed ↔ id ∈ claimed') (n : Hunk) :
    keptHunk old claimed n = keptHunk old claimed' n := by
  unfold keptHunk
  cases findMatchingOldHunk n old with
  | none => rfl
  | some best => simp only [h best.id]

theorem claimIds_congr {old : List Hunk} {claimed claimed' : List HunkId}
    (h : ∀ id, id ∈ claimed ↔ id ∈ claimed') (fresh : List Hunk) :
    claimIds old claimed fresh = claimIds old claimed' fresh := by
  induction fresh generalizing claimed claimed' with
  | nil => rfl
  | cons n fresh ih =>
    rw [claimIds, claimIds]
    cases findMatchingOldHunk n old with
    | none => simp only [ih h]
    | some best =>
      have hcons : ∀ id, id ∈ best.id :: claimed ↔ id ∈ best.id :: claimed' := by
        simp [h]
      simp only [h best.id, ih h, ih hcons]

theorem claimIds_cons (old : List Hunk) (claimed : List HunkId) (n : Hunk) (fresh : List Hunk) :
    claimIds old claimed (n :: fresh) =
      keptHunk old claimed n :: claimIds old (askedIds old [n] ++ claimed) fresh := by
  rw [claimIds, keptHunk]
  cases hbest : findMatchingOldHunk n old with
  | none => simp [askedIds, hbest]
  | some best =>
    simp only [askedIds, List.filterMap_cons, List.filterMap_nil, hbest, Option.map_some]
    split
    · rename_i hclaimed
      have hsame : ∀ id, id ∈ claimed ↔ id ∈ best.id :: claimed := by
        intro id
        simp only [List.mem_cons, iff_or_self]
        rintro rfl
        exact hclaimed
      rw [claimIds_congr hsame fresh]
      rfl
    · rfl

/-- A hunk after matching is one of the fresh ones, settled against the ids
that those before it asked for. -/
theorem mem_claimIds_iff {old fresh : List Hunk} {claimed : List HunkId} {x : Hunk} :
    x ∈ claimIds old claimed fresh ↔
      ∃ before n after, fresh = before ++ n :: after ∧
        x = keptHunk old (askedIds old before ++ claimed) n := by
  induction fresh generalizing claimed with
  | nil => simp [claimIds]
  | cons m fresh ih =>
    have hasked : ∀ before n, keptHunk old (askedIds old before ++ (askedIds old [m] ++ claimed)) n
        = keptHunk old (askedIds old (m :: before) ++ claimed) n := by
      intro before n
      apply keptHunk_congr
      intro id
      simp only [List.mem_append, mem_askedIds, List.mem_cons, List.not_mem_nil, or_false,
        exists_eq_or_imp, exists_eq_left]
      exact or_left_comm.trans or_assoc.symm
    rw [claimIds_cons, List.mem_cons, ih]
    constructor
    · rintro (rfl | ⟨before, n, after, rfl, rfl⟩)
      · exact ⟨[], m, fresh, rfl, rfl⟩
      · exact ⟨m :: before, n, after, rfl, hasked before n⟩
    · rintro ⟨before, n, after, hsplit, rfl⟩
      cases before with
      | nil =>
        obtain ⟨rfl, rfl⟩ := List.cons.inj hsplit
        exact Or.inl rfl
      | cons k before =>
        obtain ⟨rfl, rfl⟩ := List.cons.inj hsplit
        exact Or.inr ⟨before, n, after, rfl, (hasked before n).symm⟩

section Settle

variable {old before : List Hunk} {n o : Hunk} {source : HunkSource}

theorem repeats_keptHunk (old : List Hunk) (claimed : List HunkId) (n o : Hunk) :
    (keptHunk old claimed n).Repeats o ↔ n.Repeats o := by
  unfold keptHunk
  cases findMatchingOldHunk n old with
  | none => rfl
  | some best =>
    dsimp only
    split <;> rfl

/-- A settled hunk has the identity of an old one exactly when nobody before it
asked for that id and its best match stands for the old hunk. -/
theorem keptHunk_keeps_iff (hsource : n.source = source) (hid : n.id ≠ o.id) :
    ((keptHunk old (askedIds old before) n).id = o.id ∧
        (source.isExternal = true → o.source.isAgentEdit = true →
          (keptHunk old (askedIds old before) n).source = o.source)) ↔
      Unclaimed source old before n o := by
  have hexternal : o.source.isAgentEdit = true → ∀ k : HunkSource, k.isExternal = true →
      k ≠ o.source := by
    intro hagent k hk heq
    rw [heq] at hk
    cases hs : o.source <;> simp [hs, HunkSource.isExternal, HunkSource.isAgentEdit] at hk hagent
  unfold keptHunk
  cases hbest : findMatchingOldHunk n old with
  | none =>
    constructor
    · rintro ⟨h, -⟩
      exact absurd h hid
    · rintro ⟨⟨b, hb, -⟩, -⟩
      simp [hbest] at hb
  | some best =>
    dsimp only
    by_cases hclaimed : best.id ∈ askedIds old before
    · rw [if_pos hclaimed]
      constructor
      · rintro ⟨h, -⟩
        exact absurd h hid
      · rintro ⟨⟨b, hb, hbid, -⟩, hfirst⟩
        obtain rfl : best = b := by simpa [hbest] using hb
        exact absurd (hbid ▸ hclaimed) hfirst
    · rw [if_neg hclaimed]
      have hsrc : source.isExternal = true → o.source.isAgentEdit = true →
          ((n.inherit best).source = o.source ↔ best.source = o.source) := by
        intro hext hagent
        simp only [Hunk.inherit, hsource, hext, Bool.true_and]
        cases hb : best.source.isAgentEdit with
        | true => simp
        | false =>
          simp only [Bool.false_eq_true, if_false]
          constructor
          · exact fun h => absurd h (hexternal hagent _ hext)
          · intro h
            simp [h, hagent] at hb
      constructor
      · rintro ⟨h, hs⟩
        have hbid : best.id = o.id := h
        refine ⟨⟨best, hbest, hbid, fun hext hagent => ?_⟩, hbid ▸ hclaimed⟩
        exact (hsrc hext hagent).mp (hs hext hagent)
      · rintro ⟨⟨b, hb, hbid, hbsource⟩, -⟩
        obtain rfl : best = b := by simpa [hbest] using hb
        exact ⟨hbid, fun hext hagent => (hsrc hext hagent).mpr (hbsource hext hagent)⟩

end Settle

theorem claimIds_keepsIdentity_iff {old fresh : List Hunk} {path : Path} {source : HunkSource}
    {uuid : ℕ} (hfresh : FreshDiff path source uuid fresh) (hdrawn : ∀ o ∈ old, o.id < uuid) :
    KeepsIdentity source old (claimIds old [] fresh) ↔ AllUnclaimed source old fresh := by
  have hapart : ∀ n ∈ fresh, ∀ o ∈ old, n.id ≠ o.id := fun n hn o ho =>
    (lt_of_lt_of_le (hdrawn o ho) (hfresh.id_ge n hn)).ne'
  constructor
  · rintro ⟨-, hid, hsource⟩ before n after rfl o ho hrepeats
    have hn : n ∈ before ++ n :: after := by simp
    have hmem : keptHunk old (askedIds old before) n ∈
        claimIds old [] (before ++ n :: after) :=
      mem_claimIds_iff.mpr ⟨before, n, after, rfl, by rw [List.append_nil]⟩
    have hrep := (repeats_keptHunk old (askedIds old before) n o).mpr hrepeats
    rw [← keptHunk_keeps_iff (hfresh.source_eq n hn) (hapart n hn o ho)]
    exact ⟨hid _ hmem o ho hrep, hsource _ hmem o ho hrep⟩
  · intro h
    have hsettled : ∀ x ∈ claimIds old [] fresh, ∀ o ∈ old, x.Repeats o →
        x.id = o.id ∧ (source.isExternal = true → o.source.isAgentEdit = true →
          x.source = o.source) := by
      intro x hx o ho hrep
      obtain ⟨before, n, after, rfl, rfl⟩ := mem_claimIds_iff.mp hx
      have hn : n ∈ before ++ n :: after := by simp
      rw [List.append_nil] at hrep ⊢
      rw [keptHunk_keeps_iff (hfresh.source_eq n hn) (hapart n hn o ho)]
      exact h before n after rfl o ho ((repeats_keptHunk _ _ _ _).mp hrep)
    refine ⟨nodup_claimIds hfresh.nodup hapart [], fun x hx o ho hrep => ?_,
      fun x hx o ho hrep => ?_⟩
    · exact (hsettled x hx o ho hrep).1
    · exact (hsettled x hx o ho hrep).2

theorem best_of_repeats {old : List Hunk} {n o : Hunk}
    (hold : (old.map fun k => k.lineInfo.newStart).Nodup) (ho : o ∈ old) (h : n.Repeats o) :
    findMatchingOldHunk n old = some o := by
  obtain ⟨hpath, hoText, hnText, hinfo⟩ := h
  have hmatch : hunksMatchContent o n = true :=
    hunksMatchContent_iff.mpr ⟨hpath.symm, hoText.symm, hnText.symm⟩
  cases hf : firstMatch old n with
  | none => simpa [hmatch] using List.find?_eq_none.mp hf o ho
  | some f =>
    obtain ⟨b, hb, hbmem, -, hmin⟩ := exists_best_of_firstMatch hf
    have hle := hmin o ho hmatch
    rw [hinfo] at hle
    have hstart : b.lineInfo.newStart = o.lineInfo.newStart := by
      unfold absDiff at hle
      omega
    rw [hb, List.inj_on_of_nodup_map hold hbmem ho hstart]

/-- In a file whose old hunks start at different lines, a repeated hunk is
unclaimed when no hunk before it has asked for its id. -/
theorem unclaimed_iff_first {source : HunkSource} {old before : List Hunk} {n o : Hunk}
    (hold : (old.map fun k => k.lineInfo.newStart).Nodup) (ho : o ∈ old) (h : n.Repeats o) :
    Unclaimed source old before n o ↔ o.id ∉ askedIds old before :=
  ⟨fun hu => hu.first, fun hf => ⟨⟨o, best_of_repeats hold ho h, rfl, fun _ _ => rfl⟩, hf⟩⟩

/-- A recomputation gives the new hunks distinct ids and lets every repeated
hunk keep its id and its agent attribution exactly when each of them is the
first to ask for its old hunk. -/
theorem recomputeHunks_keepsIdentity_iff {s : HunkTrackerActor} {path : Path}
    {state : FileHunkState} (hl : s.fileStates.lookup path = some state)
    (hdrawn : ∀ o ∈ state.hunks, o.id < s.uuid) (env : Env)
    (newCurrent : Option FileContentState) (source : HunkSource) :
    KeepsIdentity source state.hunks
        ((s.recomputeHunks env path newCurrent source).getHunksForPath path) ↔
      AllUnclaimed source state.hunks (s.freshHunks env path state newCurrent source) := by
  rw [HunkTrackerActor.recomputeHunks_of_some hl, HunkTrackerActor.getHunksForPath,
    AList.lookup_insert]
  exact claimIds_keepsIdentity_iff (freshDiff_diffStates _ _ _ _ _ _) hdrawn

/-- An edit script that replaces the last of three lines. -/
def lastEdit : DiffLines := fun _ _ =>
  some [⟨.equal, ['x', '\n']⟩, ⟨.equal, ['m', '\n']⟩, ⟨.delete, ['x', '\n']⟩,
    ⟨.insert, ['y', '\n']⟩]

/-- An actor in `/a` after the agent created `/a/f`, the user accepted it, and the
agent edited its last line. -/
def editedLast : HunkTrackerActor :=
  (((HunkTrackerActor.new [.rootDir, .normal ['a']] .agentOnly (fun _ => .missing) 0).handleCommand
    (Env.plain lastEdit) (.recordAgentWrite [.rootDir, .normal ['a'], .normal ['f']]
      ['x', '\n', 'm', '\n', 'x', '\n'] 0 none)).handleCommand
    (Env.plain lastEdit) (.allAction .accept)).handleCommand
    (Env.plain lastEdit) (.recordAgentWrite [.rootDir, .normal ['a'], .normal ['f']]
      ['x', '\n', 'm', '\n', 'y', '\n'] 1 none)

/-- What the actor stores of that file. -/
def editedLastState : FileHunkState where
  baseline := .full ['x', '\n', 'm', '\n', 'x', '\n']
  currentContent := .full ['x', '\n', 'm', '\n', 'y', '\n']
  hunks := [⟨1, [.rootDir, .normal ['a'], .normal ['f']], ⟨3, 1, 3, 1⟩, .agentEdit 1,
    some ['x', '\n'], ['y', '\n']⟩]
  isAgentFile := true
  baselineAccepted := true

/-- A recomputation without a change keeps the identity of the edit. -/
theorem editedLast_unchanged_keepsIdentity :
    KeepsIdentity .externalEditOnAgentFile editedLastState.hunks
      ((editedLast.recomputeHunks (Env.plain lastEdit) [.rootDir, .normal ['a'], .normal ['f']]
        (some (.full ['x', '\n', 'm', '\n', 'y', '\n']))
        .externalEditOnAgentFile).getHunksForPath [.rootDir, .normal ['a'], .normal ['f']]) := by
  have hl : editedLast.fileStates.lookup [.rootDir, .normal ['a'], .normal ['f']] =
      some editedLastState := by decide
  rw [recomputeHunks_keepsIdentity_iff hl (by decide)]
  intro before n after hfresh o ho hrepeats
  have hlen := congrArg List.length hfresh
  have hone : (editedLast.freshHunks (Env.plain lastEdit) [.rootDir, .normal ['a'], .normal ['f']]
      editedLastState (some (.full ['x', '\n', 'm', '\n', 'y', '\n']))
      .externalEditOnAgentFile).length = 1 := by decide
  rw [hone, List.length_append, List.length_cons] at hlen
  obtain rfl : before = [] := List.eq_nil_of_length_eq_zero (by omega)
  rw [unclaimed_iff_first (by decide) ho hrepeats]
  exact List.not_mem_nil

/-- When the user repeats the agent's edit further up, the new hunk takes the id
and the attribution of the unchanged one. -/
theorem editedLast_repeated_above_loses_identity :
    Reachable OwnSnapshots true editedLast ∧
      editedLast.fileStates.lookup [.rootDir, .normal ['a'], .normal ['f']] =
        some editedLastState ∧
      ¬KeepsIdentity .externalEditOnAgentFile editedLastState.hunks
        ((editedLast.recomputeHunks (Env.plain twoEdits) [.rootDir, .normal ['a'], .normal ['f']]
          (some (.full ['y', '\n', 'm', '\n', 'y', '\n']))
          .externalEditOnAgentFile).getHunksForPath [.rootDir, .normal ['a'], .normal ['f']]) := by
  refine ⟨(((Reachable.new _ _ _ _).command _ _ trivial).command _ _ trivial).command _ _ trivial,
    by decide, fun h => ?_⟩
  have hid := h.same_id
  revert hid
  decide

end Ezer.HunkTracker
