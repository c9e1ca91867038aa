import Ezer.HunkTracker.Runs

/-!
# The invariant of the stored hunks

Every hunk lies under its own path, no two live hunks share an id, and a file
has hunks only when its contents can be patched. Paths and ids are kept by every
operation. The last part is what the accept and reject handlers rely on; moving
the working directory can merge hunks into a file that cannot be patched, and
rejecting some of the hunks of a file merged into a created one deletes the file
under the rest.
-/

namespace Ezer.HunkTracker

open Ezer.Lib

/-- Every hunk lies under its own path, under an id of its own that was drawn
before. -/
structure HunkInv (s : HunkTrackerActor) : Prop where
  path_eq : ∀ {path state}, s.fileStates.lookup path = some state →
    ∀ h ∈ state.hunks, h.path = path
  nodup : ∀ {path state}, s.fileStates.lookup path = some state →
    (state.hunks.map Hunk.id).Nodup
  disjoint : ∀ {p q stp stq}, p ≠ q → s.fileStates.lookup p = some stp →
    s.fileStates.lookup q = some stq → ∀ h ∈ stp.hunks, ∀ k ∈ stq.hunks, h.id ≠ k.id
  drawn : ∀ {path state}, s.fileStates.lookup path = some state →
    ∀ h ∈ state.hunks, h.id < s.uuid

/-- A property of every tracked file. -/
def ForFiles (P : FileHunkState → Prop) (s : HunkTrackerActor) : Prop :=
  ∀ path state, s.fileStates.lookup path = some state → P state

/-- A file has hunks only when its contents can be patched. -/
def FileHunkState.HunksPatchable (state : FileHunkState) : Prop :=
  state.hunks ≠ [] → state.patchable = true

/-- A file without baseline has at most the one hunk of its creation. -/
def FileHunkState.CreatedOnce (state : FileHunkState) : Prop :=
  state.baseline = .missing → state.hunks.length ≤ 1

theorem hunkInv_new (workingDir : Path) (mode : TrackingMode) (disk : Path → DiskEntry) (uuid : ℕ) :
    HunkInv (.new workingDir mode disk uuid) := by
  constructor <;> simp [HunkTrackerActor.new]

section Preserve

variable {s s' : HunkTrackerActor}

/-- The invariant reads the file map and the supply of ids only. -/
theorem HunkInv.congr (h : HunkInv s) (hfiles : s'.fileStates = s.fileStates)
    (huuid : s.uuid ≤ s'.uuid) : HunkInv s' where
  path_eq := by
    intro path state hl
    exact h.path_eq (hfiles ▸ hl)
  nodup := by
    intro path state hl
    exact h.nodup (hfiles ▸ hl)
  disjoint := by
    intro p q stp stq hpq hp hq
    exact h.disjoint hpq (hfiles ▸ hp) (hfiles ▸ hq)
  drawn := by
    intro path state hl k hk
    exact lt_of_lt_of_le (h.drawn (hfiles ▸ hl) k hk) huuid

variable {path : Path} {state : FileHunkState}

/-- Storing a file whose hunks continue those of the same path or are new. -/
theorem HunkInv.insert (h : HunkInv s)
    (hfiles : s'.fileStates = s.fileStates.insert path state) (huuid : s.uuid ≤ s'.uuid)
    (hpath : ∀ k ∈ state.hunks, k.path = path) (hnodup : (state.hunks.map Hunk.id).Nodup)
    (hids : ∀ k ∈ state.hunks,
      (∃ old, s.fileStates.lookup path = some old ∧ ∃ o ∈ old.hunks, o.id = k.id) ∨
        s.uuid ≤ k.id ∧ k.id < s'.uuid) : HunkInv s' := by
  have hself : ∀ {st}, s'.fileStates.lookup path = some st → state = st := by
    intro st hl
    rw [hfiles, AList.lookup_insert, Option.some.injEq] at hl
    exact hl
  have hother : ∀ {q st}, q ≠ path → s'.fileStates.lookup q = some st →
      s.fileStates.lookup q = some st := by
    intro q st hq hl
    rwa [hfiles, AList.lookup_insert_ne hq] at hl
  have hapart : ∀ {q st}, q ≠ path → s'.fileStates.lookup q = some st →
      ∀ k ∈ state.hunks, ∀ m ∈ st.hunks, k.id ≠ m.id := by
    intro q st hq hl k hk m hm
    rcases hids k hk with ⟨old, hold, o, ho, hid⟩ | ⟨hge, -⟩
    · rw [← hid]
      exact h.disjoint (Ne.symm hq) hold (hother hq hl) o ho m hm
    · exact (lt_of_lt_of_le (h.drawn (hother hq hl) m hm) hge).ne'
  refine ⟨?_, ?_, ?_, ?_⟩
  · intro q st hl
    by_cases hq : q = path
    · subst hq
      exact hself hl ▸ hpath
    · exact h.path_eq (hother hq hl)
  · intro q st hl
    by_cases hq : q = path
    · subst hq
      exact hself hl ▸ hnodup
    · exact h.nodup (hother hq hl)
  · intro p q stp stq hpq hp hq k hk m hm
    by_cases hpp : p = path
    · subst hpp
      exact hapart (Ne.symm hpq) hq k (hself hp ▸ hk) m hm
    · by_cases hqp : q = path
      · subst hqp
        exact (hapart hpp hp m (hself hq ▸ hm) k hk).symm
      · exact h.disjoint hpq (hother hpp hp) (hother hqp hq) k hk m hm
  · intro q st hl k hk
    by_cases hq : q = path
    · subst hq
      have hk' : k ∈ state.hunks := hself hl ▸ hk
      rcases hids k hk' with ⟨old, hold, o, ho, hid⟩ | ⟨-, hlt⟩
      · exact hid ▸ lt_of_lt_of_le (h.drawn hold o ho) huuid
      · exact hlt
    · exact lt_of_lt_of_le (h.drawn (hother hq hl) k hk) huuid

/-- The hunks of a recomputation, as the invariant needs them. -/
theorem HunkInv.recompute {source : HunkSource}
    {fresh : List Hunk} (h : HunkInv s) (hl : s.fileStates.lookup path = some state)
    (hfresh : FreshDiff path source s.uuid fresh) (state' : FileHunkState)
    (hfiles : s'.fileStates = s.fileStates.insert path
      { state' with hunks := claimIds state.hunks [] fresh })
    (huuid : s'.uuid = s.uuid + fresh.length) : HunkInv s' := by
  refine h.insert hfiles (by omega) ?_ ?_ ?_
  · intro k hk
    obtain ⟨n, hn, rfl | ⟨best, -, -, -, rfl⟩⟩ := mem_claimIds hk
    · exact hfresh.path_eq k hn
    · exact hfresh.path_eq n hn
  · refine nodup_claimIds hfresh.nodup (fun n hn o ho => ?_) []
    exact (lt_of_lt_of_le (h.drawn hl o ho) (hfresh.id_ge n hn)).ne'
  · intro k hk
    obtain ⟨n, hn, rfl | ⟨best, hbest, -, -, rfl⟩⟩ := mem_claimIds hk
    · exact Or.inr ⟨hfresh.id_ge k hn, huuid ▸ hfresh.id_lt k hn⟩
    · exact Or.inl ⟨state, hl, best, hbest, rfl⟩

theorem HunkInv.erase (h : HunkInv s)
    (hfiles : s'.fileStates = s.fileStates.erase path) (huuid : s'.uuid = s.uuid) :
    HunkInv s' := by
  have hother : ∀ {q st}, s'.fileStates.lookup q = some st →
      s.fileStates.lookup q = some st := by
    intro q st hl
    rw [hfiles] at hl
    by_cases hq : q = path
    · subst hq
      rw [AList.lookup_erase] at hl
      cases hl
    · rwa [AList.lookup_erase_ne hq] at hl
  refine ⟨fun hl => h.path_eq (hother hl), fun hl => h.nodup (hother hl),
    fun hpq hp hq => h.disjoint hpq (hother hp) (hother hq), fun hl k hk => ?_⟩
  rw [huuid]
  exact h.drawn (hother hl) k hk

variable {env : Env} {allow : Allow}

/-- Every elementary step keeps paths and ids. -/
theorem HunkInv.step (hstep : Step env allow s s') (h : HunkInv s) :
    HunkInv s' := by
  cases hstep with
  | frame es hes effect => exact h.congr effect.files_eq (by rw [effect.uuid_eq]; omega)
  | track path state es untracked empty notAccepted hes effect
  | forget path state es untracked empty notAccepted hes effect =>
    refine h.insert effect.files_eq (by rw [effect.uuid_eq]; omega) ?_ ?_ ?_ <;> simp [empty]
  | drop path state state' gone reason es tracked sub left keeps accepted hes effect =>
    refine h.insert effect.files_eq (by rw [effect.uuid_eq]; omega) ?_ ?_ ?_
    · intro k hk
      exact h.path_eq tracked k (List.mem_of_mem_filter (left ▸ hk))
    · rw [left]
      exact (List.filter_sublist.map Hunk.id).nodup (h.nodup tracked)
    · intro k hk
      exact Or.inl ⟨state, tracked, k, List.mem_of_mem_filter (left ▸ hk), rfl⟩
  | erase path state es tracked hes effect => exact h.erase effect.files_eq effect.uuid_eq
  | leak path state gone tracked sub leaked effect =>
    exact h.congr effect.files_eq (by rw [effect.uuid_eq]; omega)
  | recompute path state state' current source fresh new es tracked same accepted allowed hfresh
      hnew hes effect =>
    subst hnew
    exact h.recompute tracked (hfresh ▸ freshDiff_diffStates _ _ _ _ _ _)
      { state' with currentContent := current } effect.files_eq effect.uuid_eq

variable {P : FileHunkState → Prop}

theorem ForFiles.congr (h : ForFiles P s) (hfiles : s'.fileStates = s.fileStates) : ForFiles P s' :=
  fun path state hl => h path state (hfiles ▸ hl)

theorem ForFiles.insert (h : ForFiles P s) (hfiles : s'.fileStates = s.fileStates.insert path state)
    (hnew : P state) : ForFiles P s' := by
  intro q st hl
  rw [hfiles] at hl
  by_cases hq : q = path
  · subst hq
    rw [AList.lookup_insert, Option.some.injEq] at hl
    exact hl ▸ hnew
  · rw [AList.lookup_insert_ne hq] at hl
    exact h q st hl

theorem ForFiles.erase (h : ForFiles P s)
    (hfiles : s'.fileStates = s.fileStates.erase path) : ForFiles P s' := by
  intro q st hl
  rw [hfiles] at hl
  by_cases hq : q = path
  · subst hq
    rw [AList.lookup_erase] at hl
    cases hl
  · rw [AList.lookup_erase_ne hq] at hl
    exact h q st hl

theorem patchable_of_diffStates (diff : DiffLines) (path : Path) (source : HunkSource) (uuid : ℕ)
    (h : diffStates diff path state.baseline state.currentContent source uuid ≠ []) :
    state.patchable = true := by
  cases hb : state.baseline <;> cases hc : state.currentContent <;>
    simp_all [diffStates, FileHunkState.patchable]

theorem length_diffStates_missing (diff : DiffLines) (path : Path) (current : FileContentState)
    (source : HunkSource) (uuid : ℕ) :
    (diffStates diff path .missing current source uuid).length ≤ 1 := by
  cases current with
  | full text => by_cases h : text = [] <;> simp [diffStates, h]
  | _ => simp [diffStates]

/-- A step keeps a property of files that holds without hunks, is inherited by
the rest of the hunks and holds of every fresh diff. -/
theorem ForFiles.step (hempty : ∀ state : FileHunkState, state.hunks = [] → P state)
    (hdrop : ∀ (state state' : FileHunkState) gone, P state → state.Keeps state' →
      state'.hunks = withoutHunks state.hunks gone → P state')
    (hdiff : ∀ (state : FileHunkState) path old source uuid,
      state.hunks = claimIds old []
        (diffStates env.diffLines path state.baseline state.currentContent source uuid) → P state)
    (horphan : ¬allow.orphan) (hstep : Step env allow s s') (h : ForFiles P s) :
    ForFiles P s' := by
  cases hstep with
  | frame es hes effect => exact h.congr effect.files_eq
  | track path state es untracked empty notAccepted hes effect =>
    exact h.insert effect.files_eq (hempty state empty)
  | drop path state state' gone reason es tracked sub left keeps accepted hes effect =>
    exact h.insert effect.files_eq (hdrop state state' gone (h path state tracked)
      (keeps.resolve_right horphan) left)
  | erase path state es tracked hes effect => exact h.erase effect.files_eq
  | forget path state state' tracked empty accepted lost effect =>
    exact h.insert effect.files_eq (hempty state' empty)
  | leak path state gone tracked sub leaked effect => exact h.congr effect.files_eq
  | recompute path state state' current source fresh new es tracked same accepted allowed hfresh
      hnew hes effect =>
    refine h.insert effect.files_eq (hdiff _ path state.hunks source s.uuid ?_)
    rw [hnew, hfresh]

theorem hunksPatchable_step (horphan : ¬allow.orphan)
    (hstep : Step env allow s s') (h : ForFiles FileHunkState.HunksPatchable s) :
    ForFiles FileHunkState.HunksPatchable s' := by
  refine ForFiles.step (fun state he hne => absurd he hne) ?_ ?_ horphan hstep h
  · intro state state' gone hstate hkeeps hleft hne
    rcases hkeeps with he | ⟨hp, -⟩
    · exact absurd he hne
    · refine hp (hstate fun he => hne ?_)
      simp [hleft, withoutHunks, he]
  · intro state path old source uuid heq hne
    refine patchable_of_diffStates env.diffLines path source uuid fun he => hne ?_
    rw [heq, he]
    rfl

theorem createdOnce_step (horphan : ¬allow.orphan)
    (hstep : Step env allow s s') (h : ForFiles FileHunkState.CreatedOnce s) :
    ForFiles FileHunkState.CreatedOnce s' := by
  refine ForFiles.step (fun state he _ => by simp [he]) ?_ ?_ horphan hstep h
  · intro state state' gone hstate hkeeps hleft hb
    rcases hkeeps with he | ⟨-, hm⟩
    · simp [he]
    · rw [hleft]
      exact (List.length_filter_le _ _).trans (hstate (hm hb))
  · intro state path old source uuid heq hb
    rw [heq, length_claimIds, hb]
    exact length_diffStates_missing _ _ _ _ _

end Preserve

section Rekey

variable {rewrite : Path → Path} {done : List (Path × FileHunkState)} {m m' : FileStates}

/-- The file map after rekeying some of the files: each new key holds the
contents of the first of them and the hunks of all. -/
private structure Rekeyed (rewrite : Path → Path) (done : List (Path × FileHunkState))
    (m : FileStates) : Prop where
  absent : ∀ r, m.lookup r = none → ∀ f ∈ done, rewrite f.1 ≠ r
  first : ∀ r state, m.lookup r = some state →
    ∃ d, done.find? (fun f => rewrite f.1 = r) = some d ∧
      state.baseline = d.2.baseline ∧ state.currentContent = d.2.currentContent
  hunks : ∀ r state, m.lookup r = some state → ∀ h ∈ state.hunks,
    h.path = r ∧ ∃ f ∈ done, rewrite f.1 = r ∧ ∃ k ∈ f.2.hunks, k.id = h.id
  nodup : ∀ r state, m.lookup r = some state → (state.hunks.map Hunk.id).Nodup

private theorem rekeyed_nil : Rekeyed rewrite [] ∅ := by
  constructor <;> simp

private theorem map_id_rekey (state : FileHunkState) (r : Path) :
    (state.rekey r).hunks.map Hunk.id = state.hunks.map Hunk.id := by
  simp [FileHunkState.rekey, Function.comp_def]

private theorem mem_rekey {state : FileHunkState} {r : Path} {h : Hunk}
    (hh : h ∈ (state.rekey r).hunks) : h.path = r ∧ ∃ k ∈ state.hunks, k.id = h.id := by
  obtain ⟨k, hk, rfl⟩ := List.mem_map.mp hh
  exact ⟨rfl, k, hk, rfl⟩

/-- Storing a rekeyed file under its new key. -/
private theorem Rekeyed.insert (h : Rekeyed rewrite done m) {g : Path × FileHunkState}
    {state : FileHunkState} (hm : m' = m.insert (rewrite g.1) state)
    (hfirst : ∃ d, (done ++ [g]).find? (fun f => rewrite f.1 = rewrite g.1) = some d ∧
      state.baseline = d.2.baseline ∧ state.currentContent = d.2.currentContent)
    (hhunks : ∀ k ∈ state.hunks, k.path = rewrite g.1 ∧
      ∃ f ∈ done ++ [g], rewrite f.1 = rewrite g.1 ∧ ∃ k' ∈ f.2.hunks, k'.id = k.id)
    (hnodup : (state.hunks.map Hunk.id).Nodup) : Rekeyed rewrite (done ++ [g]) m' := by
  subst hm
  have hself : ∀ {st}, (m.insert (rewrite g.1) state).lookup (rewrite g.1) = some st →
      state = st := by
    intro st hl
    rwa [AList.lookup_insert, Option.some.injEq] at hl
  refine ⟨?_, ?_, ?_, ?_⟩
  · intro r hr f hf
    by_cases he : r = rewrite g.1
    · subst he
      simp at hr
    · rw [AList.lookup_insert_ne he] at hr
      rcases List.mem_append.mp hf with hf | hf
      · exact h.absent r hr f hf
      · obtain rfl := List.mem_singleton.mp hf
        exact Ne.symm he
  · intro r st hl
    by_cases he : r = rewrite g.1
    · subst he
      exact hself hl ▸ hfirst
    · rw [AList.lookup_insert_ne he] at hl
      obtain ⟨d, hd, hcontents⟩ := h.first r st hl
      exact ⟨d, by rw [List.find?_append, hd]; rfl, hcontents⟩
  · intro r st hl k hk
    by_cases he : r = rewrite g.1
    · subst he
      exact hhunks k (hself hl ▸ hk)
    · rw [AList.lookup_insert_ne he] at hl
      obtain ⟨hpath, f, hf, hrest⟩ := h.hunks r st hl k hk
      exact ⟨hpath, f, by simp [hf], hrest⟩
  · intro r st hl
    by_cases he : r = rewrite g.1
    · subst he
      exact hself hl ▸ hnodup
    · rw [AList.lookup_insert_ne he] at hl
      exact h.nodup r st hl

/-- Rekeying a file to a key that is still free. -/
private theorem Rekeyed.insert_free (h : Rekeyed rewrite done m) {g : Path × FileHunkState}
    (hnodup : (g.2.hunks.map Hunk.id).Nodup) (hfree : m.lookup (rewrite g.1) = none) :
    Rekeyed rewrite (done ++ [g]) (m.insert (rewrite g.1) (g.2.rekey (rewrite g.1))) := by
  refine h.insert rfl ⟨g, ?_, rfl, rfl⟩ (fun k hk => ?_) (by rwa [map_id_rekey])
  · have hnone : done.find? (fun f => rewrite f.1 = rewrite g.1) = none := by
      simpa using h.absent _ hfree
    rw [List.find?_append, hnone]
    simp
  · obtain ⟨hpath, k', hk', hid⟩ := mem_rekey hk
    exact ⟨hpath, g, by simp, rfl, k', hk', hid⟩

/-- Rekeying one more file keeps the description. -/
private theorem Rekeyed.merge (h : Rekeyed rewrite done m) {g : Path × FileHunkState}
    (hnodup : (g.2.hunks.map Hunk.id).Nodup)
    (hapart : ∀ f ∈ done, ∀ k ∈ f.2.hunks, ∀ k' ∈ g.2.hunks, k.id ≠ k'.id) :
    Rekeyed rewrite (done ++ [g]) (mergeRekeyed m (rewrite g.1) (g.2.rekey (rewrite g.1))) := by
  unfold mergeRekeyed
  cases hl : m.lookup (rewrite g.1) with
  | none => exact h.insert_free hnodup hl
  | some dest =>
    obtain ⟨d, hd, hcontents⟩ := h.first _ dest hl
    refine h.insert rfl ⟨d, by rw [List.find?_append, hd]; rfl, hcontents⟩ (fun k hk => ?_) ?_
    · rcases List.mem_append.mp hk with hk | hk
      · obtain ⟨hpath, f, hf, hrest⟩ := h.hunks _ dest hl k hk
        exact ⟨hpath, f, by simp [hf], hrest⟩
      · obtain ⟨hpath, k', hk', hid⟩ := mem_rekey hk
        exact ⟨hpath, g, by simp, rfl, k', hk', hid⟩
    · rw [List.map_append, map_id_rekey, List.nodup_append]
      refine ⟨h.nodup _ dest hl, hnodup, fun a ha b hb => ?_⟩
      obtain ⟨k, hk, rfl⟩ := List.mem_map.mp ha
      obtain ⟨k', hk', rfl⟩ := List.mem_map.mp hb
      obtain ⟨-, f, hf, -, o, ho, hid⟩ := h.hunks _ dest hl k hk
      exact hid ▸ hapart f hf o ho k' hk'

/-- Files whose hunks have ids of their own. -/
private structure IdsApart (fs : List (Path × FileHunkState)) : Prop where
  nodup : ∀ f ∈ fs, (f.2.hunks.map Hunk.id).Nodup
  apart : fs.Pairwise fun f g => ∀ k ∈ f.2.hunks, ∀ k' ∈ g.2.hunks, k.id ≠ k'.id

private theorem rekeyed_foldl_merge (h : Rekeyed rewrite done m) {fs : List (Path × FileHunkState)}
    (hids : IdsApart (done ++ fs)) :
    Rekeyed rewrite (done ++ fs)
      (fs.foldl (fun m f => mergeRekeyed m (rewrite f.1) (f.2.rekey (rewrite f.1))) m) := by
  induction fs generalizing done m with
  | nil => simpa using h
  | cons g fs ih =>
    obtain ⟨-, -, hcross⟩ := List.pairwise_append.mp hids.apart
    have hstep := h.merge (g := g) (hids.nodup g (by simp)) fun f hf => hcross f hf g (by simp)
    simpa using ih hstep (by simpa using hids)

private theorem rekeyed_foldl_insert (h : Rekeyed rewrite done m) {fs : List (Path × FileHunkState)}
    (hids : ∀ f ∈ fs, (f.2.hunks.map Hunk.id).Nodup)
    (hkeys : ((done ++ fs).map fun f => rewrite f.1).Nodup) :
    Rekeyed rewrite (done ++ fs)
      (fs.foldl (fun (m : FileStates) f => m.insert (rewrite f.1) (f.2.rekey (rewrite f.1))) m) := by
  induction fs generalizing done m with
  | nil => simpa using h
  | cons g fs ih =>
    have hfree : m.lookup (rewrite g.1) = none := by
      by_contra hne
      obtain ⟨st, hl⟩ := Option.ne_none_iff_exists'.mp hne
      obtain ⟨d, hd, -⟩ := h.first _ st hl
      have hkey : rewrite d.1 = rewrite g.1 := by simpa using List.find?_some hd
      rw [List.map_append, List.nodup_append] at hkeys
      exact hkeys.2.2 _ (List.mem_map_of_mem (List.mem_of_find?_eq_some hd)) _
        (List.mem_map_of_mem (List.mem_cons_self ..)) hkey
    have hstep := h.insert_free (hids g (by simp)) hfree
    simpa using ih hstep (fun f hf => hids f (by simp [hf])) (by simpa using hkeys)

variable {s : HunkTrackerActor} {env : Env}

/-- The tracked files in the order in which a move of the working directory
stores them: those already below it first. -/
def HunkTrackerActor.rekeyOrder (s : HunkTrackerActor) (env : Env) (newCwd : Path) :
    List (Path × FileHunkState) :=
  (s.files env).filter (fun f => f.1.startsWith newCwd) ++
    (s.files env).filter fun f => !f.1.startsWith newCwd

variable {newCwd : Path}

private theorem mem_rekeyOrder {f : Path × FileHunkState}
    (hf : f ∈ s.rekeyOrder env newCwd) : s.fileStates.lookup f.1 = some f.2 := by
  rcases List.mem_append.mp hf with hf | hf
  · exact HunkTrackerActor.lookup_of_mem_files (List.mem_of_mem_filter hf)
  · exact HunkTrackerActor.lookup_of_mem_files (List.mem_of_mem_filter hf)

private theorem HunkInv.idsApart (h : HunkInv s) (env : Env) (newCwd : Path) :
    IdsApart (s.rekeyOrder env newCwd) := by
  refine ⟨fun f hf => h.nodup (mem_rekeyOrder hf), ?_⟩
  have hperm : (s.rekeyOrder env newCwd).Perm (s.files env) :=
    List.filter_append_perm (fun f : Path × FileHunkState => f.1.startsWith newCwd) (s.files env)
  refine (hperm.pairwise_iff fun {f g} hfg k hk k' hk' => (hfg k' hk' k hk).symm).mpr ?_
  have hnodup := HunkTrackerActor.nodup_files s env
  rw [List.Nodup, List.pairwise_map] at hnodup
  refine hnodup.imp_of_mem fun {f g} hf hg hne => ?_
  exact h.disjoint hne (HunkTrackerActor.lookup_of_mem_files hf)
    (HunkTrackerActor.lookup_of_mem_files hg)

private theorem HunkInv.rekeyed (h : HunkInv s) (env : Env) (hne : newCwd ≠ s.workingDir) :
    Rekeyed (rekeyPath s.workingDir newCwd) (s.rekeyOrder env newCwd)
      (s.rekeyPathsForWorkingDir env newCwd).fileStates := by
  have hids := h.idsApart env newCwd
  have halready : Rekeyed (rekeyPath s.workingDir newCwd)
      ([] ++ (s.files env).filter fun f => f.1.startsWith newCwd) _ :=
    rekeyed_foldl_insert rekeyed_nil (fun f hf => hids.nodup f (List.mem_append_left _ hf)) (by
      have hsame : ((s.files env).filter fun f => f.1.startsWith newCwd).map
          (fun f => rekeyPath s.workingDir newCwd f.1) =
          ((s.files env).filter fun f => f.1.startsWith newCwd).map Prod.fst := by
        refine List.map_congr_left fun f hf => ?_
        simp [rekeyPath, (List.mem_filter.mp hf).2]
      rw [List.nil_append, hsame]
      exact (List.filter_sublist.map Prod.fst).nodup (HunkTrackerActor.nodup_files s env))
  unfold HunkTrackerActor.rekeyPathsForWorkingDir
  rw [if_neg hne]
  exact rekeyed_foldl_merge halready hids

private theorem Rekeyed.hunkInv (s' : HunkTrackerActor) (h : HunkInv s)
    (hr : Rekeyed rewrite (s.rekeyOrder env newCwd) s'.fileStates) (huuid : s'.uuid = s.uuid) :
    HunkInv s' := by
  refine ⟨fun hl k hk => (hr.hunks _ _ hl k hk).1, fun hl => hr.nodup _ _ hl, ?_, ?_⟩
  · intro p q stp stq hpq hp hq k hk k' hk'
    obtain ⟨-, f, hf, hfp, o, ho, hid⟩ := hr.hunks _ _ hp k hk
    obtain ⟨-, g, hg, hgq, o', ho', hid'⟩ := hr.hunks _ _ hq k' hk'
    have hne : f.1 ≠ g.1 := fun he => hpq (by rw [← hfp, ← hgq, he])
    rw [← hid, ← hid']
    exact h.disjoint hne (mem_rekeyOrder hf) (mem_rekeyOrder hg) o ho o' ho'
  · intro path state hl k hk
    obtain ⟨-, f, hf, -, o, ho, hid⟩ := hr.hunks _ _ hl k hk
    rw [huuid, ← hid]
    exact h.drawn (mem_rekeyOrder hf) o ho

/-- Moving the working directory merges hunks only into files that can be
patched: for every file with hunks, the file that takes its new path first can
be patched. -/
def HunkTrackerActor.MergesPatchable (s : HunkTrackerActor) (env : Env) (newCwd : Path) : Prop :=
  ∀ f ∈ s.rekeyOrder env newCwd, f.2.hunks ≠ [] →
    ∀ d ∈ (s.rekeyOrder env newCwd).find?
      (fun g => rekeyPath s.workingDir newCwd g.1 = rekeyPath s.workingDir newCwd f.1),
      d.2.patchable = true

private theorem Rekeyed.hunksPatchable (s' : HunkTrackerActor)
    (hr : Rekeyed (rekeyPath s.workingDir newCwd) (s.rekeyOrder env newCwd) s'.fileStates)
    (hmerge : s.MergesPatchable env newCwd) : ForFiles FileHunkState.HunksPatchable s' := by
  intro r state hl hne
  obtain ⟨k, hk⟩ := List.exists_mem_of_ne_nil _ hne
  obtain ⟨-, f, hf, hfr, o, ho, -⟩ := hr.hunks r state hl k hk
  obtain ⟨d, hd, hb, hc⟩ := hr.first r state hl
  have hp := hmerge f hf (List.ne_nil_of_mem ho) d (by rw [hfr]; exact hd)
  rw [FileHunkState.patchable, hb, hc]
  exact hp

end Rekey

/-- Rejecting hunks of a file that can be patched does something. -/
theorem rejectAction_ne_noOp {state : FileHunkState} (h : state.patchable = true)
    (hunks : List Hunk) : rejectAction state hunks ≠ .noOp := by
  cases hb : state.baseline <;> cases hc : state.currentContent <;>
    simp_all [FileHunkState.patchable, rejectAction]

/-- Rejecting any hunk of a created file rejects all of them. -/
theorem withoutHunks_of_createdOnce {state : FileHunkState} (h : state.CreatedOnce)
    {hunks : List Hunk} (hsub : hunks ⊆ state.hunks) (hne : hunks ≠ [])
    (hr : rejectAction state hunks = .deleteCreated) : withoutHunks state.hunks hunks = [] := by
  have hb : state.baseline = .missing := by
    cases hb : state.baseline <;> cases hc : state.currentContent <;> simp_all [rejectAction]
  obtain ⟨k, hk⟩ := List.exists_mem_of_ne_nil _ hne
  have hone : state.hunks = [k] := by
    have hmem := hsub hk
    obtain ⟨m, hm⟩ := List.length_eq_one_iff.mp (le_antisymm (h hb) (List.length_pos_of_mem hmem))
    rw [hm] at hmem ⊢
    rw [List.mem_singleton.mp hmem]
  simp only [withoutHunks, hone, List.filter_cons, List.filter_nil]
  rw [if_neg]
  simpa using ⟨k, hk, rfl⟩

/-- The invariant of the stored hunks. -/
structure WellFormed (s : HunkTrackerActor) : Prop where
  path_eq : ∀ path state, s.fileStates.lookup path = some state → ∀ h ∈ state.hunks, h.path = path
  ids_nodup : ∀ path state, s.fileStates.lookup path = some state →
    (state.hunks.map Hunk.id).Nodup
  ids_disjoint : ∀ p q stp stq, p ≠ q → s.fileStates.lookup p = some stp →
    s.fileStates.lookup q = some stq → ∀ h ∈ stp.hunks, ∀ k ∈ stq.hunks, h.id ≠ k.id
  patchable : ∀ path state, s.fileStates.lookup path = some state → state.hunks ≠ [] →
    state.patchable = true

/-- Every lossy step is allowed, and leaving hunks on a deleted file where the
run permits it. -/
def allowAll (orphan : Prop) : Allow where
  lost := fun _ => True
  leaked := fun _ => True
  accept := True
  orphan := orphan
  recompute := fun _ _ _ _ _ => True
  recompute_nil := fun _ _ _ _ => trivial

theorem freeRecompute_allowAll (orphan : Prop) : (allowAll orphan).FreeRecompute :=
  fun _ _ _ _ _ => trivial

/-- A reject command that deletes a created file rejects all of its hunks. -/
def HunkTrackerActor.RejectsWholeCreated (s : HunkTrackerActor) (env : Env)
    (cmd : HunkTrackerCommand) : Prop :=
  ∀ f ∈ s.rejectedFiles env cmd, ∀ state, s.fileStates.lookup f.1 = some state →
    rejectAction state f.2 = .deleteCreated → withoutHunks state.hunks f.2 = []

/-- Any operation; restoring is a step of its own, of snapshots taken in a run. -/
def OwnSnapshots (_ : Env) (_ : HunkTrackerActor) : Op → Prop
  | .command (.restoreState _) => False
  | _ => True

/-- The condition under which an operation keeps the invariant. Restoring is a
step of its own, of snapshots taken in such a run. -/
def KeepsPatchable (env : Env) (s : HunkTrackerActor) : Op → Prop
  | .command (.setWorkingDir workingDir) => s.MergesPatchable env workingDir
  | .command (.restoreState _) => False
  | .command cmd => cmd.action? = some .reject → s.RejectsWholeCreated env cmd
  | _ => True

variable {env : Env} {s : HunkTrackerActor}

private theorem actionAllowed_all {cmd : HunkTrackerCommand}
    {action : HunkAction} {orphan : Prop} (hcmd : cmd.action? = some action)
    (h : cmd.action? = some .reject → s.RejectsWholeCreated env cmd ∨ orphan) :
    HunkTrackerActor.ActionAllowed env (allowAll orphan) s cmd action := by
  cases action with
  | accept => exact ⟨trivial, freeRecompute_allowAll orphan⟩
  | reject =>
    refine HunkTrackerActor.rejectsAllowed_of (fun _ _ _ _ _ => trivial) ?_
      (fun _ _ _ _ _ _ => trivial) fun _ _ => trivial
    intro f hf state hl hr
    rcases h hcmd with hwhole | horphan
    · exact Or.inl (hwhole f hf state hl hr)
    · exact Or.inr horphan

private theorem changeAllowed_all (env : Env) (s : HunkTrackerActor) (path : Path)
    (preloaded : Option FileContentState) (orphan : Prop) :
    HunkTrackerActor.ChangeAllowed env (allowAll orphan) s path preloaded :=
  ⟨fun _ _ _ => trivial, fun _ _ _ => trivial⟩

/-- Apart from moving the working directory, an operation is a sequence of
elementary steps. -/
private theorem OwnSnapshots.allowed {op : Op}
    (h : OwnSnapshots env s op) (orphan : Prop) (hwd : ∀ workingDir, op ≠ .command (.setWorkingDir workingDir))
    (hreject : ∀ cmd, op = .command cmd → cmd.action? = some .reject →
      s.RejectsWholeCreated env cmd ∨ orphan) : op.Allowed env (allowAll orphan) s := by
  cases op with
  | fileChange path preloaded => exact changeAllowed_all env s path preloaded orphan
  | preload paths => trivial
  | refreshExcept skip => exact freeRecompute_allowAll orphan
  | command cmd =>
    cases cmd with
    | recordAgentWrite path content promptIndex previousContent =>
      exact ⟨fun _ _ _ => trivial, fun _ _ _ => trivial⟩
    | handleFileChange path => exact changeAllowed_all env s path none orphan
    | handleFileDeleted path =>
      exact ⟨fun _ => changeAllowed_all env s path none orphan, fun _ _ _ => trivial⟩
    | refreshGitDirtyCache | refreshAllBaselines => exact freeRecompute_allowAll orphan
    | resetBaseline path => trivial
    | query q => trivial
    | setMode mode => exact freeRecompute_allowAll orphan
    | setWorkingDir workingDir => exact (hwd workingDir rfl).elim
    | hunkAction | fileAction | turnAction | allAction =>
      exact actionAllowed_all rfl (hreject _ rfl)
    | resetStats => trivial
    | restoreState snapshot => exact h.elim

private theorem KeepsPatchable.ownSnapshots {op : Op}
    (h : KeepsPatchable env s op) : OwnSnapshots env s op := by
  cases op with
  | command cmd =>
    cases cmd with
    | restoreState snapshot => exact h
    | _ => trivial
  | _ => trivial

private theorem KeepsPatchable.rejects
    {cmd : HunkTrackerCommand} (h : KeepsPatchable env s (.command cmd))
    (hcmd : cmd.action? = some .reject) : s.RejectsWholeCreated env cmd := by
  cases cmd with
  | setWorkingDir workingDir => simp [HunkTrackerCommand.action?] at hcmd
  | restoreState snapshot => exact h.elim
  | _ => exact h hcmd

section MoveWorkingDir

variable {env : Env} {s : HunkTrackerActor} {newCwd : Path}

private theorem uuid_setWorkingDir :
    (s.handleCommand env (.setWorkingDir newCwd)).uuid = s.uuid := by
  by_cases hne : newCwd = s.workingDir <;>
    simp [HunkTrackerActor.handleCommand, HunkTrackerActor.rekeyPathsForWorkingDir, hne]

private theorem files_setWorkingDir_self :
    (s.handleCommand env (.setWorkingDir s.workingDir)).fileStates = s.fileStates := by
  simp [HunkTrackerActor.handleCommand, HunkTrackerActor.rekeyPathsForWorkingDir]

private theorem HunkInv.setWorkingDir (h : HunkInv s) :
    HunkInv (s.handleCommand env (.setWorkingDir newCwd)) := by
  by_cases hne : newCwd = s.workingDir
  · subst hne
    exact h.congr files_setWorkingDir_self uuid_setWorkingDir.ge
  · exact Rekeyed.hunkInv _ h (h.rekeyed env hne) uuid_setWorkingDir

private theorem hunksPatchable_setWorkingDir (hinv : HunkInv s)
    (hmerge : s.MergesPatchable env newCwd) (h : ForFiles FileHunkState.HunksPatchable s) :
    ForFiles FileHunkState.HunksPatchable (s.handleCommand env (.setWorkingDir newCwd)) := by
  by_cases hne : newCwd = s.workingDir
  · subst hne
    exact h.congr files_setWorkingDir_self
  · exact Rekeyed.hunksPatchable _ (hinv.rekeyed env hne) hmerge

end MoveWorkingDir

/-- Paths and ids are right in every reachable state, whatever the operations. -/
theorem reachable_hunkInv {ok : Env → HunkTrackerActor → Op → Prop}
    {restores : Bool} (hok : ∀ env s op, ok env s op → OwnSnapshots env s op)
    (h : Reachable ok restores s) : HunkInv s := by
  induction h with
  | new workingDir mode disk uuid => exact hunkInv_new workingDir mode disk uuid
  | @op s env op _ hop ih =>
    by_cases hwd : ∃ workingDir, op = .command (.setWorkingDir workingDir)
    · obtain ⟨workingDir, rfl⟩ := hwd
      exact ih.setWorkingDir
    · have hsteps := Op.run_steps ((hok env s op hop).allowed True
        (fun workingDir he => hwd ⟨workingDir, he⟩) fun _ _ _ => Or.inr trivial)
      exact hsteps.preserves (fun _ _ => HunkInv.step) ih
  | disk d _ ih => exact ih.congr rfl le_rfl
  | restore hrestores _ _ drawn _ ih =>
    refine ⟨fun hl => ih.path_eq hl, fun hl => ih.nodup hl,
      fun hpq hp hq => ih.disjoint hpq hp hq, fun hl k hk => ?_⟩
    exact lt_of_lt_of_le (ih.drawn hl k hk) drawn

/-- Every reachable state of a run that merges hunks only into files that can be
patched, and rejects created files as a whole, is well formed. -/
theorem reachable_wellFormed {s : HunkTrackerActor} (h : Reachable KeepsPatchable true s) :
    WellFormed s := by
  have hown : ∀ env s op, KeepsPatchable env s op → OwnSnapshots env s op :=
    fun _ _ _ hop => hop.ownSnapshots
  have hinv := reachable_hunkInv hown h
  suffices hpatchable : ForFiles FileHunkState.HunksPatchable s from
    ⟨fun _ _ => hinv.path_eq, fun _ _ => hinv.nodup, fun _ _ _ _ => hinv.disjoint, hpatchable⟩
  clear hinv
  induction h with
  | new workingDir mode disk uuid => simp [ForFiles, HunkTrackerActor.new]
  | @op s env op hreached hop ih =>
    by_cases hwd : ∃ workingDir, op = .command (.setWorkingDir workingDir)
    · obtain ⟨workingDir, rfl⟩ := hwd
      exact hunksPatchable_setWorkingDir (reachable_hunkInv hown hreached) hop ih
    · have hsteps := Op.run_steps (hop.ownSnapshots.allowed False
        (fun workingDir he => hwd ⟨workingDir, he⟩)
        fun cmd he hcmd => Or.inl (KeepsPatchable.rejects (he ▸ hop) hcmd))
      exact hsteps.preserves (fun _ _ => hunksPatchable_step not_false) ih
  | disk d _ ih => exact ih.congr rfl
  | restore hrestores _ _ drawn _ ih => exact fun path state hl => ih path state hl

/-- An actor in `/a` after the agent wrote a text to `/a/f`. -/
def wroteText : HunkTrackerActor :=
  (HunkTrackerActor.new [.rootDir, .normal ['a']] .agentOnly (fun _ => .missing) 0).handleCommand
    (Env.plain replaceLines)
    (.recordAgentWrite [.rootDir, .normal ['a'], .normal ['f']] ['x'] 0 none)

/-- The same after the agent also wrote a null byte to `/b/f`. -/
def wroteBinary : HunkTrackerActor :=
  wroteText.handleCommand (Env.plain replaceLines)
    (.recordAgentWrite [.rootDir, .normal ['b'], .normal ['f']] ['\x00'] 0 none)

/-- Moving one file along with the working directory keeps the invariant. -/
theorem wroteText_moved_wellFormed :
    WellFormed (wroteText.handleCommand (Env.plain replaceLines)
      (.setWorkingDir [.rootDir, .normal ['b']])) := by
  refine reachable_wellFormed (.op (Env.plain replaceLines) (.command (.setWorkingDir _))
    (.op (Env.plain replaceLines) (.command (.recordAgentWrite _ _ _ _)) (.new _ _ _ _) ?_) ?_)
  · simp [KeepsPatchable, HunkTrackerCommand.action?]
  · show wroteText.MergesPatchable (Env.plain replaceLines) [.rootDir, .normal ['b']]
    unfold HunkTrackerActor.MergesPatchable
    decide

/-- Moving the working directory onto a file that cannot be patched leaves it
with the hunk of the file that moved. -/
theorem wroteBinary_moved_not_wellFormed :
    Reachable (fun _ _ _ => True) false (wroteBinary.handleCommand (Env.plain replaceLines)
        (.setWorkingDir [.rootDir, .normal ['b']])) ∧
      ¬WellFormed (wroteBinary.handleCommand (Env.plain replaceLines)
        (.setWorkingDir [.rootDir, .normal ['b']])) := by
  refine ⟨.op (Env.plain replaceLines) (.command (.setWorkingDir _))
    (.op (Env.plain replaceLines) (.command (.recordAgentWrite _ _ _ _))
      (.op (Env.plain replaceLines) (.command (.recordAgentWrite _ _ _ _)) (.new _ _ _ _) trivial)
      trivial) trivial, fun h => ?_⟩
  have hl : ((wroteBinary.handleCommand (Env.plain replaceLines)
      (.setWorkingDir [.rootDir, .normal ['b']])).fileStates.lookup
      [.rootDir, .normal ['b'], .normal ['f']]).map
        (fun st => (st.hunks.isEmpty, st.patchable)) = some (false, false) := by decide
  obtain ⟨st, hst, heq⟩ := Option.map_eq_some_iff.mp hl
  have hp := h.patchable _ st hst
  simp at heq
  simp [heq] at hp

end Ezer.HunkTracker
