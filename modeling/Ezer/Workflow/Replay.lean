import Ezer.Workflow.Engine

/-!
# What one call does to the journal

Every action of a script asks for a list of journal keys, one for each sequence
number it takes. An action whose keys the journal covers is replayed: its
result depends on these entries alone, and nothing but notices goes to the
host. Any other action leaves the entries in place and adds only entries for
its own keys.
-/

namespace Ezer.Workflow

/-- The kind and the payload under which a result is journaled. -/
abbrev Key := String × Value

/-- The key of an agent call. -/
def AgentOpts.key (opts : AgentOpts) : Key := ("spawn_agent", opts.toValue)

/-- The keys of an action, in the order of the sequence numbers it takes. -/
def Action.keys : Action → List Key
  | .agent prompt => [AgentOpts.key { prompt := prompt }]
  | .agentWith prompt opts =>
    match agentOptsFromMap (some prompt) opts with
    | .error _ => []
    | .ok opts => [opts.key]
  | .parallel items =>
    if items.length > maxParallel then []
    else
      match parallelOpts items with
      | .error _ => []
      | .ok requests => requests.map AgentOpts.key
  | .awaitUser kind message =>
    match PauseKind.parse kind with
    | .error _ => []
    | .ok _ => [("await_user", .object [("kind", .string kind), ("message", .string message)])]
  | .budget => [("budget", .null)]
  | .renderTemplate name vars =>
    match vars with
    | .error _ => []
    | .ok vars => [("render_template", .object [("name", .string name), ("vars", vars)])]
  | .writeScratchFile name content =>
    [("write_scratch_file", .object [("name", .string name), ("content", .string content)])]
  | .readScratchFile name => [("read_scratch_file", .object [("name", .string name)])]
  | .gitDiffSince commit => [("git_diff_since", .object [("commit", .string commit)])]
  | .phase _ | .log _ | .telemetryEvent _ _ | .pause _ _ | .complete _ | .fail _ => []

/-- The journaled result for a key. -/
def replayKey (crates : Crates) (journal : Journal) (seq : ℕ) (key : Key) :
    Except JournalError (Option Value) :=
  replayCall crates journal seq key.1 key.2 (requestHash crates key.1 key.2)

/-- The journal has an entry for every sequence number the keys take. -/
def Covered (journal : Journal) (seq : ℕ) (keys : List Key) : Prop :=
  seq + keys.length ≤ journal.entries.length

instance (journal : Journal) (seq : ℕ) (keys : List Key) : Decidable (Covered journal seq keys) :=
  inferInstanceAs (Decidable (_ ≤ _))

/-- The entry was recorded for the key. -/
structure EntryFor (crates : Crates) (seq : ℕ) (key : Key) (entry : JournalEntry) : Prop where
  seq_eq : entry.seq = seq
  kind_eq : entry.kind = key.1
  hash_eq : entry.reqHash = requestHash crates key.1 key.2

/-- No entry that the journal has for the keys is the entry of another call. -/
def Undiverged (crates : Crates) (journal : Journal) (seq : ℕ) (keys : List Key) : Prop :=
  ∀ i key, keys[i]? = some key → ∀ error, replayKey crates journal (seq + i) key ≠ .error error

/-- The later journal has the entries of the earlier one and after them only entries
for the keys. -/
structure Extends (crates : Crates) (seq : ℕ) (keys : List Key) (journal journal' : Journal) :
    Prop where
  grows : journal.entries <+: journal'.entries
  entryFor : ∀ j entry, journal.entries.length ≤ j → journal'.entries[j]? = some entry →
    seq ≤ j ∧ ∃ key, keys[j - seq]? = some key ∧ EntryFor crates j key entry

section Keys

variable {crates : Crates} {journal journal' journal'' : Journal} {seq i : ℕ} {key : Key}
  {keys : List Key}

theorem replay_congr {kind hash : String}
    (h : journal'.entries[seq]? = journal.entries[seq]?) :
    journal'.replay seq kind hash = journal.replay seq kind hash := by
  unfold Journal.replay
  rw [h]

theorem replayKey_congr (h : journal'.entries[seq]? = journal.entries[seq]?) :
    replayKey crates journal' seq key = replayKey crates journal seq key := by
  unfold replayKey replayCall replaySpawnAgent
  simp only [replay_congr h]

theorem replay_of_uncovered {kind hash : String} (h : journal.entries.length ≤ seq) :
    journal.replay seq kind hash = .ok none := by
  unfold Journal.replay
  rw [List.getElem?_eq_none h]

/-- A key beyond the journal is not replayed. -/
theorem replayKey_of_uncovered (h : journal.entries.length ≤ seq) :
    replayKey crates journal seq key = .ok none := by
  unfold replayKey replayCall replaySpawnAgent
  simp only [replay_of_uncovered h]
  split
  · split <;> simp
  · rfl

theorem replay_ne_none {kind hash : String} (h : seq < journal.entries.length) :
    journal.replay seq kind hash ≠ .ok none := by
  unfold Journal.replay
  rw [List.getElem?_eq_getElem h]
  simp only
  split <;> simp

/-- A key within the journal is replayed or diverges. -/
theorem replayKey_ne_none (h : seq < journal.entries.length) :
    replayKey crates journal seq key ≠ .ok none := by
  unfold replayKey replayCall replaySpawnAgent
  have hne : ∀ kind hash, journal.replay seq kind hash ≠ .ok none := fun _ _ => replay_ne_none h
  split
  · dsimp only
    split
    · exact hne _ _
    · split
      · exact hne _ _
      · split <;> exact hne _ _
    · split
      · exact hne _ _
      · split <;> exact hne _ _
    · exact hne _ _
  · exact hne _ _

theorem replay_error {kind hash : String} {error : JournalError}
    (h : journal.replay seq kind hash = .error error) : error = .divergence seq kind := by
  unfold Journal.replay at h
  split at h
  · cases h
  · split at h
    · cases h
      rfl
    · cases h

theorem replayKey_error {error : JournalError} (h : replayKey crates journal seq key = .error error) :
    error = .divergence seq key.1 := by
  unfold replayKey replayCall replaySpawnAgent at h
  split at h
  · rename_i hkind
    rw [hkind]
    dsimp only at h
    split at h
    · exact replay_error h
    · split at h
      · exact replay_error h
      · split at h <;> exact replay_error h
    · split at h
      · exact replay_error h
      · split at h <;> exact replay_error h
    · exact replay_error h
  · exact replay_error h

/-- The entry recorded for a key is replayed for it. -/
theorem replayKey_of_entryFor {entry : JournalEntry} (hget : journal.entries[seq]? = some entry)
    (h : EntryFor crates seq key entry) :
    replayKey crates journal seq key = .ok (some entry.result) := by
  have hreplay : journal.replay seq key.1 (requestHash crates key.1 key.2) =
      .ok (some entry.result) := by
    unfold Journal.replay
    rw [hget]
    simp [h.seq_eq, h.kind_eq, h.hash_eq]
  unfold replayKey replayCall
  split
  · rename_i hkind
    rw [hkind] at hreplay
    unfold replaySpawnAgent
    rw [hkind]
    simp only [hreplay]
  · exact hreplay

/-- Beyond the journal nothing can diverge. -/
theorem undiverged_of_uncovered (h : journal.entries.length ≤ seq) :
    Undiverged crates journal seq keys := by
  intro i key _ error herror
  rw [replayKey_of_uncovered (by omega)] at herror
  cases herror

theorem Extends.refl : Extends crates seq keys journal journal := by
  refine ⟨List.prefix_rfl, fun j entry hj hget => ?_⟩
  rw [List.getElem?_eq_none hj] at hget
  cases hget

theorem Extends.get (h : Extends crates seq keys journal journal')
    (hi : i < journal.entries.length) : journal'.entries[i]? = journal.entries[i]? := by
  obtain ⟨new, hnew⟩ := h.grows
  rw [← hnew, List.getElem?_append_left hi]

theorem Extends.trans (h : Extends crates seq keys journal journal')
    (h' : Extends crates seq keys journal' journal'') :
    Extends crates seq keys journal journal'' := by
  refine ⟨h.grows.trans h'.grows, fun j entry hj hget => ?_⟩
  by_cases hlt : j < journal'.entries.length
  · rw [h'.get hlt] at hget
    exact h.entryFor j entry hj hget
  · exact h'.entryFor j entry (by omega) hget

/-- Recording the next entry for one of the keys. -/
theorem Extends.concat {entry : JournalEntry} (hlen : journal.entries.length = seq + i)
    (hkey : keys[i]? = some key) (hentry : EntryFor crates (seq + i) key entry)
    (h : journal'.entries = journal.entries ++ [entry]) :
    Extends crates seq keys journal journal' := by
  refine ⟨h ▸ List.prefix_append _ _, fun j e hj hget => ?_⟩
  rw [h, List.getElem?_append_right hj, List.getElem?_singleton] at hget
  split at hget
  · cases hget
    obtain rfl : j = seq + i := by omega
    refine ⟨by omega, key, ?_, hentry⟩
    rwa [Nat.add_sub_cancel_left]
  · cases hget

/-- A journal only grows up to the last of the keys, and only once it has reached the
first of them. -/
theorem Extends.bounds (h : Extends crates seq keys journal journal')
    (hlt : journal.entries.length < journal'.entries.length) :
    seq ≤ journal.entries.length ∧ journal'.entries.length ≤ seq + keys.length := by
  constructor
  · exact (h.entryFor _ _ le_rfl (List.getElem?_eq_getElem hlt)).1
  · have hlast : journal'.entries.length - 1 < journal'.entries.length := by omega
    obtain ⟨hle, key, hkey, -⟩ :=
      h.entryFor _ _ (by omega) (List.getElem?_eq_getElem hlast)
    have hbound := (List.getElem?_eq_some_iff.mp hkey).1
    omega

theorem Extends.length_le (h : Extends crates seq keys journal journal') :
    journal.entries.length ≤ journal'.entries.length := h.grows.length_le

/-- A journal that does not grow is the same. -/
theorem Extends.eq_of_length (h : Extends crates seq keys journal journal')
    (hle : journal'.entries.length ≤ journal.entries.length) :
    journal'.entries = journal.entries :=
  (h.grows.eq_of_length_le hle).symm

/-- The new entries do not diverge from the keys. -/
theorem Undiverged.extends (h : Undiverged crates journal seq keys)
    (hext : Extends crates seq keys journal journal') :
    Undiverged crates journal' seq keys := by
  intro i key hkey error herror
  by_cases hlt : seq + i < journal.entries.length
  · rw [replayKey_congr (hext.get hlt)] at herror
    exact h i key hkey error herror
  · cases hget : journal'.entries[seq + i]? with
    | none =>
      rw [replayKey_of_uncovered (List.getElem?_eq_none_iff.mp hget)] at herror
      cases herror
    | some entry =>
      obtain ⟨-, key', hkey', hentry⟩ := hext.entryFor _ _ (by omega) hget
      rw [Nat.add_sub_cancel_left, hkey] at hkey'
      cases hkey'
      rw [replayKey_of_entryFor hget hentry] at herror
      cases herror

end Keys

/-- The journaled results for consecutive keys. -/
def replayKeys (crates : Crates) (journal : Journal) : ℕ → List Key → Except JournalError (List Value)
  | _, [] => .ok []
  | seq, key :: keys =>
    match replayKey crates journal seq key with
    | .error error => .error error
    | .ok recorded =>
      match replayKeys crates journal (seq + 1) keys with
      | .error error => .error error
      | .ok values => .ok (recorded.getD .null :: values)

/-- The script goes on after the result. -/
def GoesOn {α : Type} (result : Except ScriptError α) : Prop :=
  ∀ token, result ≠ .error (.terminated token)

/-- The journal does not fit the run: another call was recorded in the place of this
one, or the entries of the journal and the calls of the run are out of step. -/
def ScriptError.isReplayError : ScriptError → Bool
  | .terminated (.fatal (.journal (.divergence _ _))) => true
  | .terminated (.fatal (.journal (.sequence _ _ _))) => true
  | _ => false

/-- The host answers a reservation with an error that the script can catch. -/
def Delivery.refuses {α : Type} : Delivery α → Bool
  | .answered (.error (.unsupported _)) => true
  | .answered (.error (.failed _)) => true
  | _ => false

/-- A reservation was the last request, and the host refused it. -/
def Refused (world : World) (ctx ctx' : Ctx) : Prop :=
  ∃ count, ctx'.requests = ctx.requests ++ [.reserveAgentCalls count] ∧
    (world.host.agentCalls ctx.requests.length).refuses = true

/-- A call whose results all come from the journal. -/
structure ReplayedCall {α : Type} (crates : Crates) (keys : List Key)
    (replayOf : List Value → Except ScriptError α) (ctx : Ctx)
    (r : Except ScriptError α × Ctx) : Prop where
  result : r.1 = match replayKeys crates ctx.journal ctx.seq keys with
    | .error error => .error (journalFatal error)
    | .ok values => replayOf values
  journal : r.2.journal = ctx.journal
  silent : ∃ notices, r.2.requests = ctx.requests ++ notices ∧ ∀ n ∈ notices, n.isNotice = true
  seq : GoesOn r.1 → r.2.seq = ctx.seq + keys.length

/-- A call that the journal does not cover. -/
structure LiveCall {α : Type} (crates : Crates) (world : World) (keys : List Key)
    (replayOf : List Value → Except ScriptError α) (ctx : Ctx)
    (r : Except ScriptError α × Ctx) : Prop where
  grows : Extends crates ctx.seq keys ctx.journal r.2.journal
  bounded : ctx.journal.entries.length < r.2.journal.entries.length →
    r.2.journal.entries.length ≤ maxHostCalls
  goesOn : GoesOn r.1 → (Refused world ctx r.2 ∧ r.2.seq = ctx.seq ∧ r.2.journal = ctx.journal) ∨
    r.2.seq = ctx.seq + keys.length
  safe : ctx.seq ≤ ctx.journal.entries.length → Undiverged crates ctx.journal ctx.seq keys →
    ∀ error, r.1 = .error error → error.isReplayError = false
  undiverged : (∀ error, r.1 = .error error → error.isReplayError = false) →
    Undiverged crates ctx.journal ctx.seq keys
  replays : GoesOn r.1 → Covered r.2.journal ctx.seq keys →
    ∃ values, replayKeys crates r.2.journal ctx.seq keys = .ok values ∧ r.1 = replayOf values

/-- What a host function does, given its keys and the result it has for journaled
values. -/
structure CallSpec {α : Type} (crates : Crates) (keys : List Key)
    (replayOf : List Value → Except ScriptError α)
    (f : World → Ctx → Except ScriptError α × Ctx) : Prop where
  safe : ∀ values error, replayOf values = .error error → error.isReplayError = false
  covered : ∀ world ctx, Covered ctx.journal ctx.seq keys →
    ctx.journal.entries.length ≤ maxHostCalls →
    ReplayedCall crates keys replayOf ctx (f world ctx)
  live : ∀ world ctx, ¬Covered ctx.journal ctx.seq keys →
    LiveCall crates world keys replayOf ctx (f world ctx)

section Calls

variable {crates : Crates} {world : World} {journal journal' : Journal} {seq : ℕ} {key : Key}
  {keys : List Key} {ctx : Ctx} {α β : Type}

theorem replayKeys_cons : replayKeys crates journal seq (key :: keys) =
    match replayKey crates journal seq key with
    | .error error => .error error
    | .ok recorded =>
      match replayKeys crates journal (seq + 1) keys with
      | .error error => .error error
      | .ok values => .ok (recorded.getD .null :: values) := rfl

theorem replayKeys_congr
    (h : ∀ i < keys.length, journal'.entries[seq + i]? = journal.entries[seq + i]?) :
    replayKeys crates journal' seq keys = replayKeys crates journal seq keys := by
  induction keys generalizing seq with
  | nil => rfl
  | cons key keys ih =>
    have hhead : journal'.entries[seq]? = journal.entries[seq]? := h 0 (by simp)
    have htail : replayKeys crates journal' (seq + 1) keys =
        replayKeys crates journal (seq + 1) keys := by
      refine ih fun i hi => ?_
      have hget := h (i + 1) (by simpa using hi)
      rwa [show seq + (i + 1) = seq + 1 + i by omega] at hget
    rw [replayKeys_cons, replayKeys_cons, replayKey_congr hhead, htail]

theorem replayKeys_ok_iff : (∃ values, replayKeys crates journal seq keys = .ok values) ↔
    Undiverged crates journal seq keys := by
  induction keys generalizing seq with
  | nil => simp [replayKeys, Undiverged]
  | cons key keys ih =>
    have hcons : Undiverged crates journal seq (key :: keys) ↔
        (∀ error, replayKey crates journal seq key ≠ .error error) ∧
          Undiverged crates journal (seq + 1) keys := by
      constructor
      · intro h
        refine ⟨h 0 key rfl, fun i k hk error herror => h (i + 1) k hk error ?_⟩
        rwa [show seq + (i + 1) = seq + 1 + i by omega]
      · rintro ⟨hhead, htail⟩ i k hk error herror
        cases i with
        | zero =>
          cases hk
          exact hhead error herror
        | succ i =>
          refine htail i k hk error ?_
          rwa [show seq + 1 + i = seq + (i + 1) by omega]
    rw [hcons, ← ih, replayKeys_cons]
    cases hkey : replayKey crates journal seq key with
    | error error => simp
    | ok recorded => cases replayKeys crates journal (seq + 1) keys <;> simp

theorem Undiverged.congr (h : Undiverged crates journal seq keys)
    (hget : ∀ i < keys.length, journal'.entries[seq + i]? = journal.entries[seq + i]?) :
    Undiverged crates journal' seq keys := by
  rw [← replayKeys_ok_iff] at h ⊢
  rwa [replayKeys_congr hget]

theorem isReplayError_of_replayKeys {error : JournalError}
    (h : replayKeys crates journal seq keys = .error error) :
    (journalFatal error).isReplayError = true := by
  induction keys generalizing seq with
  | nil => cases h
  | cons key keys ih =>
    rw [replayKeys_cons] at h
    split at h
    · rename_i herror
      cases h
      rw [replayKey_error herror]
      rfl
    · split at h
      · rename_i herror
        cases h
        exact ih herror
      · cases h

/-- A replayed call fails only by divergence. -/
theorem ReplayedCall.safe {replayOf : List Value → Except ScriptError α}
    {r : Except ScriptError α × Ctx} (h : ReplayedCall crates keys replayOf ctx r)
    (hsafe : ∀ values error, replayOf values = .error error → error.isReplayError = false) :
    (∀ error, r.1 = .error error → error.isReplayError = false) ↔
      Undiverged crates ctx.journal ctx.seq keys := by
  rw [← replayKeys_ok_iff, h.result]
  cases hkeys : replayKeys crates ctx.journal ctx.seq keys with
  | error error =>
    constructor
    · intro hnone
      have hfalse := hnone _ rfl
      rw [isReplayError_of_replayKeys hkeys] at hfalse
      cases hfalse
    · rintro ⟨values, hvalues⟩
      cases hvalues
  | ok values => exact ⟨fun _ => ⟨values, rfl⟩, fun _ error => hsafe values error⟩

end Calls

/-- How a call with one key that the journal does not cover comes out: its reservation
is refused, it ends without an entry, or its entry is recorded. -/
inductive SingleLive {α : Type} (crates : Crates) (world : World) (key : Key)
    (replayOf : Value → Except ScriptError α) (ctx : Ctx) : Except ScriptError α × Ctx → Prop where
  | refused (message : String) (ctx' : Ctx) (refused : Refused world ctx ctx')
      (seq : ctx'.seq = ctx.seq) (journal : ctx'.journal = ctx.journal) :
      SingleLive crates world key replayOf ctx (.error (.runtime message), ctx')
  | unrecorded (error : ScriptError) (ctx' : Ctx) (journal : ctx'.journal = ctx.journal)
      (goesOn : ∀ message, error = .runtime message → ctx'.seq = ctx.seq + 1)
      (safe : ctx.seq = ctx.journal.entries.length → error.isReplayError = false) :
      SingleLive crates world key replayOf ctx (.error error, ctx')
  | recorded (result : Except ScriptError α) (ctx' : Ctx) (entry : JournalEntry)
      (dense : ctx.journal.entries.length = ctx.seq) (bounded : ctx.seq < maxHostCalls)
      (entryFor : EntryFor crates ctx.seq key entry)
      (journal : ctx'.journal.entries = ctx.journal.entries ++ [entry])
      (seq : ctx'.seq = ctx.seq + 1) (replays : GoesOn result → result = replayOf entry.result)
      (safe : ∀ error, result = .error error → error.isReplayError = false) :
      SingleLive crates world key replayOf ctx (result, ctx')

section Single

variable {crates : Crates} {world : World} {key : Key} {ctx : Ctx} {α β : Type}

theorem goesOn_runtime (message : String) :
    GoesOn (.error (.runtime message) : Except ScriptError α) := by
  intro token h
  cases h

theorem not_goesOn_terminated (token : ControlToken) :
    ¬GoesOn (.error (.terminated token) : Except ScriptError α) :=
  fun h => h token rfl

theorem SingleLive.liveCall {replayOf : Value → Except ScriptError α}
    {r : Except ScriptError α × Ctx} (h : SingleLive crates world key replayOf ctx r)
    (hlive : ctx.journal.entries.length ≤ ctx.seq) :
    LiveCall crates world [key] (fun values => replayOf (values.headD .null)) ctx r := by
  have hundiverged : Undiverged crates ctx.journal ctx.seq [key] := undiverged_of_uncovered hlive
  have hsame : ∀ journal : Journal, journal = ctx.journal → ¬Covered journal ctx.seq [key] := by
    rintro _ rfl hcovered
    unfold Covered at hcovered
    simp only [List.length_singleton] at hcovered
    omega
  cases h with
  | refused message ctx' refused seq journal =>
    refine ⟨journal ▸ .refl, fun hlt => ?_, fun _ => .inl ⟨refused, seq, journal⟩, ?_,
      fun _ => hundiverged, fun _ hcovered => (hsame _ journal hcovered).elim⟩
    · rw [journal] at hlt
      omega
    · rintro - - error ⟨⟩
      rfl
  | unrecorded error ctx' journal goesOn safe =>
    refine ⟨journal ▸ .refl, fun hlt => ?_, fun hgoes => ?_, ?_,
      fun _ => hundiverged, fun _ hcovered => (hsame _ journal hcovered).elim⟩
    · rw [journal] at hlt
      omega
    · cases error with
      | runtime message => exact .inr (goesOn message rfl)
      | terminated token => exact (not_goesOn_terminated token hgoes).elim
    · rintro hle - error ⟨⟩
      exact safe (by omega)
  | recorded result ctx' entry dense bounded entryFor journal seq replays safe =>
    have hget : ctx'.journal.entries[ctx.seq]? = some entry := by
      rw [journal, ← dense, List.getElem?_concat_length]
    refine ⟨.concat (i := 0) dense rfl entryFor journal, fun _ => ?_, fun _ => .inr seq,
      fun _ _ => safe, fun _ => hundiverged, fun hgoes _ => ⟨[entry.result], ?_, replays hgoes⟩⟩
    · rw [journal, List.length_append, dense]
      exact bounded
    · rw [replayKeys_cons, replayKey_of_entryFor hget entryFor]
      rfl

/-- A call with one key: replayed when the journal covers it, and as described
otherwise. -/
theorem callSpec_single {replayOf : Value → Except ScriptError α}
    {f : World → Ctx → Except ScriptError α × Ctx}
    (hsafe : ∀ value error, replayOf value = .error error → error.isReplayError = false)
    (hcovered : ∀ world (ctx : Ctx), ctx.seq < ctx.journal.entries.length → ctx.seq < maxHostCalls →
      (f world ctx).1 = (match replayKey crates ctx.journal ctx.seq key with
        | .error error => .error (journalFatal error)
        | .ok recorded => replayOf (recorded.getD .null)) ∧
      (f world ctx).2.journal = ctx.journal ∧ (f world ctx).2.requests = ctx.requests ∧
      (GoesOn (f world ctx).1 → (f world ctx).2.seq = ctx.seq + 1))
    (hlive : ∀ world (ctx : Ctx), ctx.journal.entries.length ≤ ctx.seq →
      SingleLive crates world key replayOf ctx (f world ctx)) :
    CallSpec crates [key] (fun values => replayOf (values.headD .null)) f := by
  refine ⟨fun values => hsafe _, fun world ctx hcov hmax => ?_, fun world ctx hnot => ?_⟩
  · unfold Covered at hcov
    simp only [List.length_singleton] at hcov
    obtain ⟨hresult, hjournal, hrequests, hseq⟩ := hcovered world ctx (by omega) (by omega)
    refine ⟨?_, hjournal, ⟨[], by rw [hrequests, List.append_nil], by simp⟩, hseq⟩
    rw [hresult, replayKeys_cons]
    cases replayKey crates ctx.journal ctx.seq key <;> rfl
  · unfold Covered at hnot
    simp only [List.length_singleton] at hnot
    have hle : ctx.journal.entries.length ≤ ctx.seq := by omega
    exact (hlive world ctx hle).liveCall hle

end Single

end Ezer.Workflow
