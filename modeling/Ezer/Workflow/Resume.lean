import Ezer.Workflow.ReplayBatch

/-!
# Resuming a run

A run that is resumed from the journal of an earlier one repeats its calls as
long as the journal covers them, sees what the earlier run has seen and asks
the host for nothing. This holds of every run in which nothing is journaled
after the host has refused a reservation: a refused reservation is an error
that the script can catch, and takes neither a sequence number nor an entry.
-/

namespace Ezer.Workflow

/-- The host has refused one of the reservations. -/
def ReservationRefused (world : World) (requests : List WorkflowHostRequest) : Prop :=
  ∃ k count, requests[k]? = some (.reserveAgentCalls count) ∧
    (world.host.agentCalls k).refuses = true

/-- Once a reservation was refused, the first calls of the run journal nothing more. -/
def NothingJournaledOnceRefused (crates : Crates) (world : World) (script : Script)
    (journal : Journal) (n : ℕ) : Prop :=
  ∀ m ≤ n, ReservationRefused world (runWorkflow crates world script journal m).ctx.requests →
    (runWorkflow crates world script journal n).ctx.journal.entries =
      (runWorkflow crates world script journal m).ctx.journal.entries

/-- The journals that runs of a script leave: a new run starts with an empty journal,
and every other one with the entries that an earlier one has left. -/
inductive Left (crates : Crates) (script : Script) : Journal → Prop where
  | new (fileBacked : Bool) : Left crates script (Journal.new fileBacked)
  | stopped {journal : Journal} (world : World) (n : ℕ) (left : Left crates script journal)
      (quiet : NothingJournaledOnceRefused crates world script journal n) :
      Left crates script (runWorkflow crates world script journal n).ctx.journal
  | loaded {journal journal' : Journal} (left : Left crates script journal)
      (entries : journal'.entries = journal.entries) : Left crates script journal'

/-- The first calls of a run are made and the journal covers all of them. -/
def CoveredUntil (crates : Crates) (world : World) (script : Script) (journal : Journal)
    (t : ℕ) : Prop :=
  ∀ i < t, (runWorkflow crates world script journal i).ended = none ∧
    Covered (runWorkflow crates world script journal i).ctx.journal
      (runWorkflow crates world script journal i).ctx.seq
      (script (runWorkflow crates world script journal i).seen).keys

/-- No call of a replay meets the entry of another call. -/
def Faithful (crates : Crates) (script : Script) (journal : Journal) : Prop :=
  ∀ world journal', journal'.entries = journal.entries →
    ∀ t, CoveredUntil crates world script journal' t →
      (runWorkflow crates world script journal' t).ended = none →
      Undiverged crates journal' (runWorkflow crates world script journal' t).ctx.seq
        (script (runWorkflow crates world script journal' t).seen).keys

section Steps

variable {crates : Crates} {world : World} {script : Script} {journal : Journal}

/-- How a run goes on after a call: it has seen the result, or it has ended. -/
theorem step_cases (run : Run) (h : run.ended = none) :
    (GoesOn (call crates world run.ctx (script run.seen)).1 ∧
      ∃ o, run.step crates world script =
        ⟨(call crates world run.ctx (script run.seen)).2, run.seen ++ [o], none⟩) ∨
    ∃ error, run.step crates world script =
        ⟨(call crates world run.ctx (script run.seen)).2, run.seen, some error⟩ ∧
      (error.isReplayError = true →
        (call crates world run.ctx (script run.seen)).1 = .error error) := by
  unfold Run.step
  rw [h]
  dsimp only
  obtain ⟨result, ctx'⟩ := call crates world run.ctx (script run.seen)
  cases result with
  | ok reply =>
    refine .inl ⟨fun token h => ?_, .ok reply, rfl⟩
    cases h
  | error error =>
    cases error with
    | terminated token => exact .inr ⟨_, rfl, fun _ => rfl⟩
    | runtime message =>
      unfold Run.after
      dsimp only
      split
      · refine .inr ⟨_, rfl, fun h => ?_⟩
        cases h
      · exact .inl ⟨goesOn_runtime message, .error message, rfl⟩

theorem step_congr {world' : World} {run run' : Run} (h : run.ended = none)
    (h' : run'.ended = none) (hseen : run'.seen = run.seen)
    (hresult : (call crates world' run'.ctx (script run.seen)).1 =
      (call crates world run.ctx (script run.seen)).1) :
    (run'.step crates world' script).seen = (run.step crates world script).seen ∧
      (run'.step crates world' script).ended = (run.step crates world script).ended := by
  unfold Run.step
  rw [h, h', hseen]
  dsimp only
  revert hresult
  obtain ⟨result, ctx⟩ := call crates world run.ctx (script run.seen)
  obtain ⟨result', ctx'⟩ := call crates world' run'.ctx (script run.seen)
  dsimp only
  rintro rfl
  unfold Run.after
  cases result' with
  | ok reply => simp [hseen]
  | error error =>
    cases error with
    | terminated token => simp [hseen]
    | runtime message =>
      dsimp only
      split <;> simp [hseen]

theorem runWorkflow_succ (n : ℕ) : runWorkflow crates world script journal (n + 1) =
    (runWorkflow crates world script journal n).step crates world script := rfl

theorem runWorkflow_ended {n m : ℕ} {error : ScriptError} (hle : n ≤ m)
    (h : (runWorkflow crates world script journal n).ended = some error) :
    runWorkflow crates world script journal m = runWorkflow crates world script journal n := by
  induction m, hle using Nat.le_induction with
  | base => rfl
  | succ m _ ih =>
    rw [runWorkflow_succ, ih]
    unfold Run.step
    rw [h]

theorem ended_none_of_le {n m : ℕ} (hle : n ≤ m)
    (h : (runWorkflow crates world script journal m).ended = none) :
    (runWorkflow crates world script journal n).ended = none := by
  cases hended : (runWorkflow crates world script journal n).ended with
  | none => rfl
  | some error =>
    rw [runWorkflow_ended hle hended, hended] at h
    cases h

theorem seen_grows_succ (n : ℕ) : (runWorkflow crates world script journal n).seen <+:
    (runWorkflow crates world script journal (n + 1)).seen := by
  rw [runWorkflow_succ]
  cases hended : (runWorkflow crates world script journal n).ended with
  | some error =>
    refine ⟨[], ?_⟩
    unfold Run.step
    rw [hended, List.append_nil]
  | none =>
    rcases @step_cases crates world script _ hended with ⟨-, o, hstep⟩ | ⟨error, hstep, -⟩
    · rw [hstep]
      exact List.prefix_append _ _
    · exact ⟨[], by rw [hstep, List.append_nil]⟩

theorem seen_grows {n m : ℕ} (hle : n ≤ m) : (runWorkflow crates world script journal n).seen <+:
    (runWorkflow crates world script journal m).seen := by
  induction m, hle using Nat.le_induction with
  | base => exact List.prefix_rfl
  | succ m _ ih => exact ih.trans (seen_grows_succ m)

theorem length_seen {n : ℕ} (h : (runWorkflow crates world script journal n).ended = none) :
    (runWorkflow crates world script journal n).seen.length = n := by
  induction n with
  | zero => rfl
  | succ n ih =>
    have hended := ended_none_of_le (Nat.le_succ n) h
    rw [runWorkflow_succ] at h ⊢
    rcases @step_cases crates world script _ hended with ⟨-, o, hstep⟩ | ⟨error, hstep, -⟩
    · rw [hstep, List.length_append, ih hended]
      rfl
    · rw [hstep] at h
      cases h

/-- A run that has ended did so in the call after the last one it has seen a result
of. -/
theorem ended_at (n : ℕ) : (runWorkflow crates world script journal n).ended = none ∨
    ∃ k < n, (runWorkflow crates world script journal k).ended = none ∧
      (runWorkflow crates world script journal n).seen.length = k ∧
      runWorkflow crates world script journal n = runWorkflow crates world script journal (k + 1) ∧
      (runWorkflow crates world script journal (k + 1)).ended ≠ none := by
  induction n with
  | zero => exact .inl rfl
  | succ n ih =>
    rcases ih with hended | ⟨k, hk, hended, hlength, heq, hne⟩
    · cases hnext : (runWorkflow crates world script journal (n + 1)).ended with
      | none => exact .inl rfl
      | some error =>
        refine .inr ⟨n, Nat.lt_succ_self n, hended, ?_, rfl, by simp [hnext]⟩
        rcases @step_cases crates world script _ hended with ⟨-, o, hstep⟩ | ⟨error', hstep, -⟩
        · rw [runWorkflow_succ, hstep] at hnext
          cases hnext
        · rw [runWorkflow_succ, hstep]
          exact length_seen hended
    · refine .inr ⟨k, by omega, hended, ?_, ?_, hne⟩
      · obtain ⟨error, herror⟩ := Option.ne_none_iff_exists'.mp (heq ▸ hne)
        rw [runWorkflow_ended (Nat.le_succ n) herror]
        exact hlength
      · obtain ⟨error, herror⟩ := Option.ne_none_iff_exists'.mp hne
        exact runWorkflow_ended (by omega) herror

/-- The context after a call. -/
theorem ctx_succ {n : ℕ} (h : (runWorkflow crates world script journal n).ended = none) :
    (runWorkflow crates world script journal (n + 1)).ctx =
      (call crates world (runWorkflow crates world script journal n).ctx
        (script (runWorkflow crates world script journal n).seen)).2 := by
  rw [runWorkflow_succ]
  rcases @step_cases crates world script _ h with ⟨-, o, hstep⟩ | ⟨error, hstep, -⟩ <;> rw [hstep]

theorem goesOn_of_succ {n : ℕ}
    (h : (runWorkflow crates world script journal (n + 1)).ended = none) :
    GoesOn (call crates world (runWorkflow crates world script journal n).ctx
      (script (runWorkflow crates world script journal n).seen)).1 := by
  have hended := ended_none_of_le (Nat.le_succ n) h
  rw [runWorkflow_succ] at h
  rcases @step_cases crates world script _ hended with ⟨hgoes, -⟩ | ⟨error, hstep, -⟩
  · exact hgoes
  · rw [hstep] at h
    cases h

/-- One call keeps the entries of the journal within the bound on host calls, and adds
entries for its own keys only. -/
theorem extends_succ {n : ℕ} (h : (runWorkflow crates world script journal n).ended = none)
    (hmax : (runWorkflow crates world script journal n).ctx.journal.entries.length ≤ maxHostCalls) :
    Extends crates (runWorkflow crates world script journal n).ctx.seq
        (script (runWorkflow crates world script journal n).seen).keys
        (runWorkflow crates world script journal n).ctx.journal
        (runWorkflow crates world script journal (n + 1)).ctx.journal ∧
      (runWorkflow crates world script journal (n + 1)).ctx.journal.entries.length ≤
        maxHostCalls := by
  rw [ctx_succ h]
  generalize runWorkflow crates world script journal n = run at hmax h ⊢
  obtain ⟨replayOf, hspec⟩ := callSpec_call crates (script run.seen)
  by_cases hcovered : Covered run.ctx.journal run.ctx.seq (script run.seen).keys
  · have hjournal := (hspec.covered world run.ctx hcovered hmax).journal
    rw [hjournal]
    exact ⟨.refl, hmax⟩
  · have hlive := hspec.live world run.ctx hcovered
    refine ⟨hlive.grows, ?_⟩
    by_cases hlt : run.ctx.journal.entries.length <
        (call crates world run.ctx (script run.seen)).2.journal.entries.length
    · exact hlive.bounded hlt
    · omega

theorem length_entries_le (hmax : journal.entries.length ≤ maxHostCalls) (n : ℕ) :
    (runWorkflow crates world script journal n).ctx.journal.entries.length ≤ maxHostCalls := by
  induction n with
  | zero => exact hmax
  | succ n ih =>
    cases hended : (runWorkflow crates world script journal n).ended with
    | none => exact (extends_succ hended ih).2
    | some error =>
      rw [runWorkflow_ended (Nat.le_succ n) hended]
      exact ih

theorem entries_grow (hmax : journal.entries.length ≤ maxHostCalls) {n m : ℕ} (hle : n ≤ m) :
    (runWorkflow crates world script journal n).ctx.journal.entries <+:
      (runWorkflow crates world script journal m).ctx.journal.entries := by
  induction m, hle using Nat.le_induction with
  | base => exact List.prefix_rfl
  | succ m _ ih =>
    cases hended : (runWorkflow crates world script journal m).ended with
    | none => exact ih.trans (extends_succ hended (length_entries_le hmax m)).1.grows
    | some error => rwa [runWorkflow_ended (Nat.le_succ m) hended]

theorem entries_of_stuck (hmax : journal.entries.length ≤ maxHostCalls) {n m : ℕ} (hle : n ≤ m)
    (h : (runWorkflow crates world script journal n).ctx.journal.entries.length <
      (runWorkflow crates world script journal n).ctx.seq) :
    (runWorkflow crates world script journal m).ctx.journal.entries =
      (runWorkflow crates world script journal n).ctx.journal.entries := by
  have hstuck : (runWorkflow crates world script journal m).ctx.journal.entries =
      (runWorkflow crates world script journal n).ctx.journal.entries ∧
      ((runWorkflow crates world script journal m).ended = none →
        (runWorkflow crates world script journal m).ctx.journal.entries.length <
          (runWorkflow crates world script journal m).ctx.seq) := by
    induction m, hle using Nat.le_induction with
    | base => exact ⟨rfl, fun _ => h⟩
    | succ m _ ih =>
      obtain ⟨hentries, hless⟩ := ih
      cases hended : (runWorkflow crates world script journal m).ended with
      | some error =>
        rw [runWorkflow_ended (Nat.le_succ m) hended]
        exact ⟨hentries, hless⟩
      | none =>
        have hlt := hless hended
        have hext := (extends_succ hended (length_entries_le hmax m)).1
        have hsame : (runWorkflow crates world script journal (m + 1)).ctx.journal.entries =
            (runWorkflow crates world script journal m).ctx.journal.entries := by
          apply hext.eq_of_length
          by_contra hgrown
          have hbound := (hext.bounds (by omega)).1
          omega
        refine ⟨hsame.trans hentries, fun hnext => ?_⟩
        obtain ⟨replayOf, hspec⟩ := callSpec_call crates
          (script (runWorkflow crates world script journal m).seen)
        have hnot : ¬Covered (runWorkflow crates world script journal m).ctx.journal
            (runWorkflow crates world script journal m).ctx.seq
            (script (runWorkflow crates world script journal m).seen).keys := by
          unfold Covered
          omega
        have hseq := (hspec.live world _ hnot).goesOn (goesOn_of_succ hnext)
        rw [← ctx_succ hended] at hseq
        rw [hsame]
        rcases hseq with ⟨-, hseq, -⟩ | hseq <;> omega
  exact hstuck.1

theorem reservationRefused_of_refused {n : ℕ}
    (h : Refused world (runWorkflow crates world script journal n).ctx
      (runWorkflow crates world script journal (n + 1)).ctx) :
    ReservationRefused world (runWorkflow crates world script journal (n + 1)).ctx.requests := by
  obtain ⟨count, hrequests, hrefuses⟩ := h
  refine ⟨_, count, ?_, hrefuses⟩
  rw [hrequests, List.getElem?_concat_length]

/-- A call that the journal does not cover and after which the script goes on was
refused its reservation, or has taken its sequence numbers. -/
theorem goesOn_cases {n : ℕ}
    (h : (runWorkflow crates world script journal (n + 1)).ended = none)
    (hnot : ¬Covered (runWorkflow crates world script journal n).ctx.journal
      (runWorkflow crates world script journal n).ctx.seq
      (script (runWorkflow crates world script journal n).seen).keys) :
    (ReservationRefused world (runWorkflow crates world script journal (n + 1)).ctx.requests ∧
      (runWorkflow crates world script journal (n + 1)).ctx.seq =
        (runWorkflow crates world script journal n).ctx.seq ∧
      (runWorkflow crates world script journal (n + 1)).ctx.journal =
        (runWorkflow crates world script journal n).ctx.journal) ∨
    (runWorkflow crates world script journal (n + 1)).ctx.seq =
      (runWorkflow crates world script journal n).ctx.seq +
        (script (runWorkflow crates world script journal n).seen).keys.length := by
  have hended := ended_none_of_le (Nat.le_succ n) h
  obtain ⟨replayOf, hspec⟩ := callSpec_call crates
    (script (runWorkflow crates world script journal n).seen)
  have hgoes := (hspec.live world _ hnot).goesOn (goesOn_of_succ h)
  rw [← ctx_succ hended] at hgoes
  rcases hgoes with ⟨hrefused, hseq, hjournal⟩ | hseq
  · exact .inl ⟨reservationRefused_of_refused hrefused, hseq, hjournal⟩
  · exact .inr hseq

/-- A replay leaves the journal alone, sends nothing but notices and stays within the
journal. -/
theorem coveredUntil_run (hmax : journal.entries.length ≤ maxHostCalls) {t : ℕ}
    (h : CoveredUntil crates world script journal t) :
    (runWorkflow crates world script journal t).ctx.journal = journal ∧
      (∀ r ∈ (runWorkflow crates world script journal t).ctx.requests, r.isNotice = true) ∧
      ((runWorkflow crates world script journal t).ended = none →
        (runWorkflow crates world script journal t).ctx.seq ≤ journal.entries.length) := by
  induction t with
  | zero => exact ⟨rfl, by simp [runWorkflow, Run.start], fun _ => Nat.zero_le _⟩
  | succ t ih =>
    obtain ⟨hjournal, hsilent, -⟩ := ih fun i hi => h i (by omega)
    obtain ⟨hended, hcovered⟩ := h t (Nat.lt_succ_self t)
    obtain ⟨replayOf, hspec⟩ := callSpec_call crates
      (script (runWorkflow crates world script journal t).seen)
    have hreplayed := hspec.covered world _ hcovered (by rwa [hjournal])
    obtain ⟨notices, hrequests, hnotices⟩ := hreplayed.silent
    rw [ctx_succ hended]
    refine ⟨hreplayed.journal.trans hjournal, fun r hr => ?_, fun hnext => ?_⟩
    · rw [hrequests] at hr
      rcases List.mem_append.mp hr with hr | hr
      · exact hsilent r hr
      · exact hnotices r hr
    · rw [hreplayed.seq (goesOn_of_succ hnext)]
      unfold Covered at hcovered
      rwa [hjournal] at hcovered

/-- The sequence number never goes back in a replay. -/
theorem coveredUntil_seq (hmax : journal.entries.length ≤ maxHostCalls) {n t : ℕ}
    (h : CoveredUntil crates world script journal t) (hle : n ≤ t)
    (hended : (runWorkflow crates world script journal t).ended = none) :
    (runWorkflow crates world script journal n).ctx.seq ≤
      (runWorkflow crates world script journal t).ctx.seq := by
  induction t, hle using Nat.le_induction with
  | base => exact le_rfl
  | succ t _ ih =>
    have huntil : CoveredUntil crates world script journal t := fun i hi => h i (by omega)
    obtain ⟨hended', hcovered⟩ := h t (Nat.lt_succ_self t)
    have hle := ih huntil hended'
    obtain ⟨replayOf, hspec⟩ := callSpec_call crates
      (script (runWorkflow crates world script journal t).seen)
    have hjournal := (coveredUntil_run hmax huntil).1
    have hseq := (hspec.covered world _ hcovered (by rwa [hjournal])).seq (goesOn_of_succ hended)
    rw [← ctx_succ hended'] at hseq
    omega

end Steps

section Resuming

variable {crates : Crates} {world world' : World} {script : Script} {journal journal' : Journal}
  {n : ℕ}

/-- Either the entries of a call are in the journal right after it, or the journal
does not grow any more. -/
theorem journaled_or_last (hmax : journal.entries.length ≤ maxHostCalls)
    (hquiet : NothingJournaledOnceRefused crates world script journal n) {i : ℕ} (hi : i < n)
    (hended : (runWorkflow crates world script journal i).ended = none) :
    Covered (runWorkflow crates world script journal (i + 1)).ctx.journal
        (runWorkflow crates world script journal i).ctx.seq
        (script (runWorkflow crates world script journal i).seen).keys ∨
      (runWorkflow crates world script journal n).ctx.journal.entries =
        (runWorkflow crates world script journal (i + 1)).ctx.journal.entries := by
  cases hnext : (runWorkflow crates world script journal (i + 1)).ended with
  | some error => exact .inr (by rw [runWorkflow_ended hi hnext])
  | none =>
    have hlength := (extends_succ hended (length_entries_le hmax i)).1.length_le
    by_cases hcovered : Covered (runWorkflow crates world script journal i).ctx.journal
        (runWorkflow crates world script journal i).ctx.seq
        (script (runWorkflow crates world script journal i).seen).keys
    · left
      unfold Covered at hcovered ⊢
      omega
    · rcases goesOn_cases hnext hcovered with ⟨hrefused, -, -⟩ | hseq
      · exact .inr (hquiet (i + 1) hi hrefused)
      · by_cases hjournaled : Covered (runWorkflow crates world script journal (i + 1)).ctx.journal
            (runWorkflow crates world script journal i).ctx.seq
            (script (runWorkflow crates world script journal i).seen).keys
        · exact .inl hjournaled
        · right
          apply entries_of_stuck hmax (show i + 1 ≤ n from hi)
          unfold Covered at hjournaled
          omega

theorem replay_result (world' : World) (hmax : journal.entries.length ≤ maxHostCalls)
    (hmax' : journal'.entries.length ≤ maxHostCalls) {i : ℕ}
    (hnext : (runWorkflow crates world script journal (i + 1)).ended = none)
    (hjournaled : Covered (runWorkflow crates world script journal (i + 1)).ctx.journal
      (runWorkflow crates world script journal i).ctx.seq
      (script (runWorkflow crates world script journal i).seen).keys)
    (hgrows : (runWorkflow crates world script journal (i + 1)).ctx.journal.entries <+:
      journal'.entries) {ctx : Ctx} (hctx : ctx.journal = journal')
    (hseq : ctx.seq = (runWorkflow crates world script journal i).ctx.seq) :
    (call crates world' ctx (script (runWorkflow crates world script journal i).seen)).1 =
      (call crates world (runWorkflow crates world script journal i).ctx
        (script (runWorkflow crates world script journal i).seen)).1 ∧
    (call crates world' ctx (script (runWorkflow crates world script journal i).seen)).2.seq =
      (runWorkflow crates world script journal (i + 1)).ctx.seq := by
  have hended := ended_none_of_le (Nat.le_succ i) hnext
  have hgoes := goesOn_of_succ hnext
  have hmax₁ : (runWorkflow crates world script journal i).ctx.journal.entries.length ≤
      maxHostCalls := length_entries_le hmax i
  obtain ⟨replayOf, hspec⟩ := callSpec_call crates
    (script (runWorkflow crates world script journal i).seen)
  rw [ctx_succ hended] at hgrows hjournaled ⊢
  generalize runWorkflow crates world script journal i = run at *
  have hget : ∀ j < (script run.seen).keys.length, ctx.journal.entries[run.ctx.seq + j]? =
      (call crates world run.ctx (script run.seen)).2.journal.entries[run.ctx.seq + j]? := by
    intro j hj
    obtain ⟨more, hmore⟩ := hgrows
    unfold Covered at hjournaled
    rw [hctx, ← hmore, List.getElem?_append_left (by omega)]
  have hcovered : Covered ctx.journal ctx.seq (script run.seen).keys := by
    have hle := hgrows.length_le
    unfold Covered at hjournaled ⊢
    rw [hctx, hseq]
    omega
  have hreplayed := hspec.covered world' ctx hcovered (by rwa [hctx])
  have hresult := hreplayed.result
  rw [hseq, replayKeys_congr hget] at hresult
  have hsame : (call crates world' ctx (script run.seen)).1 =
        (call crates world run.ctx (script run.seen)).1 ∧
      (call crates world run.ctx (script run.seen)).2.seq =
        run.ctx.seq + (script run.seen).keys.length := by
    by_cases hbefore : Covered run.ctx.journal run.ctx.seq (script run.seen).keys
    · have hfirst := hspec.covered world run.ctx hbefore hmax₁
      rw [hresult, hfirst.result, hfirst.journal]
      exact ⟨rfl, hfirst.seq hgoes⟩
    · have hlive := hspec.live world run.ctx hbefore
      obtain ⟨values, hvalues, heq⟩ := hlive.replays hgoes hjournaled
      rw [hvalues] at hresult
      refine ⟨hresult.trans heq.symm, ?_⟩
      rcases hlive.goesOn hgoes with ⟨-, -, hjournal⟩ | hseq
      · rw [hjournal] at hjournaled
        exact (hbefore hjournaled).elim
      · exact hseq
  refine ⟨hsame.1, ?_⟩
  rw [hreplayed.seq (hsame.1 ▸ hgoes), hseq, hsame.2]

/-- A replay follows the run that has left the journal, call by call. -/
theorem replay_follows (hmax : journal.entries.length ≤ maxHostCalls)
    (hquiet : NothingJournaledOnceRefused crates world script journal n)
    (hload : journal'.entries = (runWorkflow crates world script journal n).ctx.journal.entries)
    {t : ℕ} (hcovered : CoveredUntil crates world' script journal' t) (i : ℕ) (hit : i ≤ t)
    (hin : i ≤ (runWorkflow crates world script journal n).seen.length) :
    (runWorkflow crates world' script journal' i).ended = none ∧
      (runWorkflow crates world' script journal' i).seen =
        (runWorkflow crates world script journal i).seen ∧
      (runWorkflow crates world' script journal' i).ctx.seq =
        (runWorkflow crates world script journal i).ctx.seq := by
  have hmax' : journal'.entries.length ≤ maxHostCalls := by
    rw [hload]
    exact length_entries_le hmax n
  have hrunning : ∀ i ≤ (runWorkflow crates world script journal n).seen.length,
      i ≤ n ∧ (runWorkflow crates world script journal i).ended = none := by
    intro i hi
    rcases @ended_at crates world script journal n with hended | ⟨k, hk, hended, hlength, -⟩
    · rw [length_seen hended] at hi
      exact ⟨hi, ended_none_of_le hi hended⟩
    · rw [hlength] at hi
      exact ⟨by omega, ended_none_of_le hi hended⟩
  induction i with
  | zero => exact ⟨rfl, rfl, rfl⟩
  | succ i ih =>
    obtain ⟨hended', hseen, hseq⟩ := ih (by omega) (by omega)
    obtain ⟨hle, hnext⟩ := hrunning (i + 1) hin
    have hended := ended_none_of_le (Nat.le_succ i) hnext
    have huntil : CoveredUntil crates world' script journal' i := fun j hj => hcovered j (by omega)
    have hjournal := (coveredUntil_run hmax' huntil).1
    have hcov := (hcovered i (by omega)).2
    rw [hseen, hseq, hjournal] at hcov
    have hjournaled : Covered (runWorkflow crates world script journal (i + 1)).ctx.journal
        (runWorkflow crates world script journal i).ctx.seq
        (script (runWorkflow crates world script journal i).seen).keys := by
      rcases journaled_or_last hmax hquiet hle hended with hjournaled | hlast
      · exact hjournaled
      · unfold Covered at hcov ⊢
        rwa [hload, hlast] at hcov
    have hgrows : (runWorkflow crates world script journal (i + 1)).ctx.journal.entries <+:
        journal'.entries := by
      rw [hload]
      exact entries_grow hmax hle
    obtain ⟨hresult, hseq'⟩ := replay_result world' hmax hmax' hnext hjournaled hgrows hjournal hseq
    obtain ⟨hseen', hended''⟩ := step_congr hended hended' hseen hresult
    refine ⟨?_, hseen', ?_⟩
    · rw [runWorkflow_succ, hended'', ← runWorkflow_succ]
      exact hnext
    · rw [ctx_succ hended', hseen]
      exact hseq'

/-- In a run that has added to a faithful journal, every call before the first new
entry was replayed, and from there on the journal is behind the calls. -/
theorem replayed_or_live (hmax : journal.entries.length ≤ maxHostCalls)
    (hquiet : NothingJournaledOnceRefused crates world script journal n)
    (hnew : (runWorkflow crates world script journal n).ctx.journal.entries ≠ journal.entries)
    (i : ℕ) (hi : i ≤ n) (hended : (runWorkflow crates world script journal i).ended = none) :
    CoveredUntil crates world script journal i ∨
      (runWorkflow crates world script journal i).ctx.journal.entries.length ≤
        (runWorkflow crates world script journal i).ctx.seq := by
  induction i with
  | zero => exact .inl fun j hj => (Nat.not_lt_zero j hj).elim
  | succ i ih =>
    have hended' := ended_none_of_le (Nat.le_succ i) hended
    have hext := (extends_succ hended' (length_entries_le hmax i)).1
    have hlive : ¬Covered (runWorkflow crates world script journal i).ctx.journal
          (runWorkflow crates world script journal i).ctx.seq
          (script (runWorkflow crates world script journal i).seen).keys →
        (runWorkflow crates world script journal (i + 1)).ctx.seq =
          (runWorkflow crates world script journal i).ctx.seq +
            (script (runWorkflow crates world script journal i).seen).keys.length →
        (runWorkflow crates world script journal (i + 1)).ctx.journal.entries.length ≤
          (runWorkflow crates world script journal (i + 1)).ctx.seq := by
      intro hnot hseq
      unfold Covered at hnot
      by_cases hlt : (runWorkflow crates world script journal i).ctx.journal.entries.length <
          (runWorkflow crates world script journal (i + 1)).ctx.journal.entries.length
      · have hbound := (hext.bounds hlt).2
        omega
      · omega
    rcases ih (by omega) hended' with huntil | hbehind
    · by_cases hcovered : Covered (runWorkflow crates world script journal i).ctx.journal
          (runWorkflow crates world script journal i).ctx.seq
          (script (runWorkflow crates world script journal i).seen).keys
      · left
        intro j hj
        rcases Nat.lt_succ_iff_lt_or_eq.mp hj with hj | rfl
        · exact huntil j hj
        · exact ⟨hended', hcovered⟩
      · right
        rcases goesOn_cases hended hcovered with ⟨hrefused, -, hjournal⟩ | hseq
        · refine (hnew ?_).elim
          rw [hquiet (i + 1) hi hrefused, hjournal, (coveredUntil_run hmax huntil).1]
        · exact hlive hcovered hseq
    · right
      by_cases hcovered : Covered (runWorkflow crates world script journal i).ctx.journal
          (runWorkflow crates world script journal i).ctx.seq
          (script (runWorkflow crates world script journal i).seen).keys
      · obtain ⟨replayOf, hspec⟩ := callSpec_call crates
          (script (runWorkflow crates world script journal i).seen)
        have hreplayed := hspec.covered world _ hcovered (length_entries_le hmax i)
        rw [ctx_succ hended', hreplayed.journal, hreplayed.seq (goesOn_of_succ hended)]
        omega
      · rcases goesOn_cases hended hcovered with ⟨-, hseq, hjournal⟩ | hseq
        · rw [hseq, hjournal]
          exact hbehind
        · exact hlive hcovered hseq

/-- A call of a run does not meet the entry of another call. -/
theorem undiverged_first (hmax : journal.entries.length ≤ maxHostCalls)
    (hfaithful : Faithful crates script journal)
    (hquiet : NothingJournaledOnceRefused crates world script journal n)
    (hnew : (runWorkflow crates world script journal n).ctx.journal.entries ≠ journal.entries)
    {i : ℕ} (hi : i ≤ n) (hended : (runWorkflow crates world script journal i).ended = none) :
    Undiverged crates (runWorkflow crates world script journal n).ctx.journal
      (runWorkflow crates world script journal i).ctx.seq
      (script (runWorkflow crates world script journal i).seen).keys := by
  have hbefore : Undiverged crates (runWorkflow crates world script journal i).ctx.journal
      (runWorkflow crates world script journal i).ctx.seq
      (script (runWorkflow crates world script journal i).seen).keys := by
    rcases replayed_or_live hmax hquiet hnew i hi hended with huntil | hbehind
    · rw [(coveredUntil_run hmax huntil).1]
      exact hfaithful world journal rfl i huntil hended
    · exact undiverged_of_uncovered hbehind
  rcases Nat.lt_or_eq_of_le hi with hlt | rfl
  · have hafter := hbefore.extends (extends_succ hended (length_entries_le hmax i)).1
    refine hafter.congr fun j hj => ?_
    have hgrows : (runWorkflow crates world script journal (i + 1)).ctx.journal.entries <+:
        (runWorkflow crates world script journal n).ctx.journal.entries := entries_grow hmax hlt
    rcases journaled_or_last hmax hquiet hlt hended with hjournaled | hlast
    · obtain ⟨more, hmore⟩ := hgrows
      unfold Covered at hjournaled
      rw [← hmore, List.getElem?_append_left (by omega)]
    · rw [hlast]
  · exact hbefore

/-- What a run adds to a faithful journal keeps it faithful. -/
theorem Faithful.run (hmax : journal.entries.length ≤ maxHostCalls)
    (hfaithful : Faithful crates script journal)
    (hquiet : NothingJournaledOnceRefused crates world script journal n) :
    Faithful crates script (runWorkflow crates world script journal n).ctx.journal := by
  by_cases hnew : (runWorkflow crates world script journal n).ctx.journal.entries = journal.entries
  · intro world' journal' hload
    exact hfaithful world' journal' (hload.trans hnew)
  intro world' journal' hload t hcovered hended'
  have hmax' : journal'.entries.length ≤ maxHostCalls := by
    rw [hload]
    exact length_entries_le hmax n
  have hsame : ∀ {seq : ℕ} {keys : List Key},
      Undiverged crates (runWorkflow crates world script journal n).ctx.journal seq keys →
      Undiverged crates journal' seq keys := by
    intro seq keys hun
    exact hun.congr fun j _ => by rw [hload]
  have hwithin := (coveredUntil_run hmax' hcovered).2.2 hended'
  -- A replay that has reached the end of the journal cannot meet any entry.
  have hbeyond : ∀ i ≤ t, journal'.entries.length ≤
        (runWorkflow crates world' script journal' i).ctx.seq →
      Undiverged crates journal' (runWorkflow crates world' script journal' t).ctx.seq
        (script (runWorkflow crates world' script journal' t).seen).keys := by
    intro i hi hle
    have hmono := coveredUntil_seq hmax' hcovered hi hended'
    exact undiverged_of_uncovered (by omega)
  rcases le_or_gt t (runWorkflow crates world script journal n).seen.length with hle | hlt
  · obtain ⟨-, hseen, hseq⟩ := replay_follows hmax hquiet hload hcovered t le_rfl hle
    rw [hseen, hseq]
    rcases @ended_at crates world script journal n with hended | ⟨k, hk, hended, hlength, -⟩
    · rw [length_seen hended] at hle
      exact hsame (undiverged_first hmax hfaithful hquiet hnew hle (ended_none_of_le hle hended))
    · rw [hlength] at hle
      exact hsame (undiverged_first hmax hfaithful hquiet hnew (by omega)
        (ended_none_of_le hle hended))
  · rcases @ended_at crates world script journal n with hended | ⟨k, hk, hended, hlength, heq, -⟩
    · rw [length_seen hended] at hlt
      refine hbeyond n (by omega) ?_
      obtain ⟨-, -, hseq⟩ := replay_follows hmax hquiet hload hcovered n (by omega)
        (length_seen hended).ge
      rw [hseq, hload]
      rcases replayed_or_live hmax hquiet hnew n le_rfl hended with huntil | hbehind
      · refine (hnew ?_).elim
        rw [(coveredUntil_run hmax huntil).1]
      · exact hbehind
    · rw [hlength] at hlt
      refine hbeyond (k + 1) hlt ?_
      obtain ⟨hended₁, hseen, hseq⟩ := replay_follows hmax hquiet hload hcovered k (by omega)
        hlength.ge
      have huntil : CoveredUntil crates world' script journal' k := fun j hj => hcovered j (by omega)
      have hjournal := (coveredUntil_run hmax' huntil).1
      have hcov := (hcovered k hlt).2
      have hgoes : GoesOn (call crates world' (runWorkflow crates world' script journal' k).ctx
          (script (runWorkflow crates world' script journal' k).seen)).1 :=
        goesOn_of_succ (ended_none_of_le hlt hended')
      obtain ⟨replayOf, hspec⟩ := callSpec_call crates
        (script (runWorkflow crates world' script journal' k).seen)
      have hnext := (hspec.covered world' _ hcov (by rwa [hjournal])).seq hgoes
      have hext := (extends_succ hended (length_entries_le hmax k)).1
      rw [ctx_succ hended₁, hnext, hload, heq]
      rw [hjournal] at hcov
      unfold Covered at hcov
      rw [hload, heq] at hcov
      rw [hseen, hseq] at hcov ⊢
      by_cases hgrown : (runWorkflow crates world script journal k).ctx.journal.entries.length <
          (runWorkflow crates world script journal (k + 1)).ctx.journal.entries.length
      · exact (hext.bounds hgrown).2
      · rcases replayed_or_live hmax hquiet hnew k (by omega) hended with huntil | hbehind
        · refine (hnew ?_).elim
          rw [heq, hext.eq_of_length (by omega), (coveredUntil_run hmax huntil).1]
        · omega

theorem Left.faithful (h : Left crates script journal) :
    journal.entries.length ≤ maxHostCalls ∧ Faithful crates script journal := by
  induction h with
  | new fileBacked =>
    refine ⟨Nat.zero_le _, fun world journal' hentries t _ _ => undiverged_of_uncovered ?_⟩
    rw [hentries]
    exact Nat.zero_le _
  | stopped world n left quiet ih =>
    exact ⟨length_entries_le ih.1 n, ih.2.run ih.1 quiet⟩
  | loaded left entries ih =>
    refine ⟨by rw [entries]; exact ih.1, fun world journal' hentries => ?_⟩
    exact ih.2 world journal' (hentries.trans entries)

end Resuming

/-- A resumed run after some calls that the journal covers: it has seen what the first
run has seen, and its next call is the next call of the first run; it has sent only
notices and has not touched the journal; and whether or not its next call is covered,
the journal fits it. -/
structure Resumes (script : Script) (first again : ℕ → Run) (n : ℕ) (journal : Journal) (t : ℕ) :
    Prop where
  seen : t ≤ (first n).seen.length →
    (again t).ended = none ∧ (again t).seen = (first n).seen.take t
  next : t ≤ (first n).seen.length →
    script (again t).seen = script (first t).seen ∧ (again t).ctx.seq = (first t).ctx.seq
  allSeen : (first n).seen.length ≤ t → (first n).seen <+: (again t).seen
  silent : ∀ r ∈ (again t).ctx.requests, r.isNotice = true
  journal_eq : (again t).ctx.journal = journal
  within : (again t).ended = none → (again t).ctx.seq ≤ journal.entries.length
  fits : ∀ error, (again (t + 1)).ended = some error → error.isReplayError = false

/-- A run that is resumed from the journal of an earlier one repeats it up to the first
call that is not journaled, provided that no run has journaled anything after a
refused reservation. -/
theorem left_resumes {crates : Crates} {world world' : World} {script : Script}
    {journal journal' : Journal} {n t : ℕ} (hleft : Left crates script journal)
    (hquiet : NothingJournaledOnceRefused crates world script journal n)
    (hload : journal'.entries = (runWorkflow crates world script journal n).ctx.journal.entries)
    (hcovered : CoveredUntil crates world' script journal' t) :
    Resumes script (runWorkflow crates world script journal)
      (runWorkflow crates world' script journal') n journal' t := by
  obtain ⟨hmax, hfaithful⟩ := hleft.faithful
  obtain ⟨hmax', hfaithful'⟩ := (hleft.stopped world n hquiet).loaded hload |>.faithful
  obtain ⟨hjournal, hsilent, hwithin⟩ := coveredUntil_run hmax' hcovered
  have hfollows := replay_follows hmax hquiet hload hcovered
  refine ⟨fun hle => ?_, fun hle => ?_, fun hle => ?_, hsilent, hjournal, hwithin, ?_⟩
  · obtain ⟨hended, hseen, -⟩ := hfollows t le_rfl hle
    refine ⟨hended, ?_⟩
    have hlength := length_seen hended
    have hgrows : (runWorkflow crates world script journal t).seen <+:
        (runWorkflow crates world script journal n).seen := by
      rcases @ended_at crates world script journal n with hnone | ⟨k, hk, -, hseenlength, -⟩
      · exact seen_grows (by rwa [length_seen hnone] at hle)
      · exact seen_grows (by omega)
    have htake := List.prefix_iff_eq_take.mp hgrows
    rw [hseen] at hlength ⊢
    rwa [hlength] at htake
  · obtain ⟨-, hseen, hseq⟩ := hfollows t le_rfl hle
    exact ⟨by rw [hseen], hseq⟩
  · obtain ⟨-, hseen, -⟩ := hfollows _ hle le_rfl
    have hsame : (runWorkflow crates world script journal n).seen =
        (runWorkflow crates world script journal
          (runWorkflow crates world script journal n).seen.length).seen := by
      rcases @ended_at crates world script journal n with hnone | ⟨k, -, hended, hlength, heq, hne⟩
      · rw [length_seen hnone]
      · rw [hlength]
        rcases @step_cases crates world script _ hended with ⟨-, o, hstep⟩ | ⟨error, hstep, -⟩
        · rw [runWorkflow_succ, hstep] at hne
          exact (hne rfl).elim
        · rw [heq, runWorkflow_succ, hstep]
    rw [hsame, ← hseen]
    exact seen_grows hle
  · -- The journal fits every call, so neither a replayed nor a live one can fail by it.
    have hfits : ∀ i ≤ t, (runWorkflow crates world' script journal' i).ended = none →
        ∀ error, (runWorkflow crates world' script journal' (i + 1)).ended = some error →
          error.isReplayError = false := by
      intro i hi hended error herror
      have huntil : CoveredUntil crates world' script journal' i := fun j hj => hcovered j (by omega)
      obtain ⟨hjournal, -, hwithin⟩ := coveredUntil_run hmax' huntil
      have hundiverged := hfaithful' world' journal' rfl i huntil hended
      have hle := hwithin hended
      rw [runWorkflow_succ] at herror
      rcases @step_cases crates world' script _ hended with ⟨-, o, hstep⟩ | ⟨error', hstep, hcall⟩
      · rw [hstep] at herror
        cases herror
      · rw [hstep] at herror
        cases herror
        by_contra htrue
        obtain ⟨replayOf, hspec⟩ := callSpec_call crates
          (script (runWorkflow crates world' script journal' i).seen)
        have hresult := hcall (by simpa using htrue)
        have hundiverged₁ : Undiverged crates
            (runWorkflow crates world' script journal' i).ctx.journal
            (runWorkflow crates world' script journal' i).ctx.seq
            (script (runWorkflow crates world' script journal' i).seen).keys := by
          rw [hjournal]
          exact hundiverged
        by_cases hcov : Covered (runWorkflow crates world' script journal' i).ctx.journal
            (runWorkflow crates world' script journal' i).ctx.seq
            (script (runWorkflow crates world' script journal' i).seen).keys
        · have hreplayed := hspec.covered world' _ hcov (by rwa [hjournal])
          exact htrue ((hreplayed.safe hspec.safe).mpr hundiverged₁ _ hresult)
        · exact htrue ((hspec.live world' _ hcov).safe (by rw [hjournal]; exact hle) hundiverged₁ _
            hresult)
    intro error herror
    cases hended : (runWorkflow crates world' script journal' t).ended with
    | none => exact hfits t le_rfl hended error herror
    | some error' =>
      rw [runWorkflow_ended (Nat.le_succ t) hended, hended] at herror
      cases herror
      cases t with
      | zero => cases hended
      | succ t => exact hfits t (Nat.le_succ t) (hcovered t (Nat.lt_succ_self t)).1 _ hended

/-- The canonical JSON text of an agent call with a prompt and no options. -/
def promptText (prompt : String) : String :=
  "\x7b\"agent_type\":null,\"capability_mode\":null,\"fork_context\":false," ++
    "\"isolation_worktree\":false,\"label\":null,\"max_output_tokens\":null," ++
    "\"model\":null,\"output_schema\":null,\"phase\":null,\"prompt\":\"" ++ prompt ++
    "\",\"resume_from\":null\x7d"

/-- The crates on agent calls with the prompts `p` and `o` and on the query of the
budget. -/
def sampleCrates : Crates where
  jsonText value :=
    match (value.get "prompt").bind Value.asStr with
    | some prompt => promptText prompt
    | none => "null"
  sha256 bytes :=
    if bytes = utf8 "budget" ++ [0] ++ utf8 "null" then
      [94, 11, 103, 244, 107, 148, 207, 184, 210, 32, 147, 114, 121, 11, 141, 142,
      117, 24, 150, 212, 130, 82, 87, 239, 182, 113, 117, 79, 0, 132, 254, 99]
    else if bytes = utf8 "spawn_agent" ++ [0] ++ utf8 (promptText "p") then
      [237, 100, 103, 197, 98, 232, 126, 79, 122, 251, 214, 243, 28, 146, 19, 248,
      172, 246, 55, 98, 95, 42, 86, 75, 0, 188, 67, 209, 188, 53, 3, 7]
    else
      [98, 46, 150, 26, 239, 27, 131, 193, 82, 84, 1, 78, 239, 50, 172, 122,
      1, 151, 115, 241, 248, 12, 85, 105, 101, 208, 38, 99, 220, 89, 240, 248]
  printEntry entry := utf8 entry.reqHash
  parseEntry _ := .error "EOF while parsing a value at line 1 column 0"
  toDynamicError _ := none

/-- A script that asks for the budget when its agent call fails. -/
def retrying : Script := fun seen =>
  match seen.length with
  | 0 => .agent "p"
  | 1 => .budget
  | _ => .complete .null

/-- A host that answers reservations as given, and everything else with success. -/
def answering (reservations : Delivery Unit) : World where
  host := {
    agentCalls := fun _ => reservations
    agent := fun _ => .answered (.ok ⟨"a", true, .null, false, 0, 0⟩)
    budget := fun _ => .answered (.ok ⟨none, 0, 0, none⟩)
    text := fun _ => .answered (.ok "") }
  appendError := fun _ => none
  now := fun _ => 0

/-- A completed run whose journal has the agent call and the query of the budget is
repeated from it. -/
theorem retrying_resumes :
    Resumes retrying
      (runWorkflow sampleCrates (answering (.answered (.ok ()))) retrying (Journal.new false))
      (runWorkflow sampleCrates (answering .closed) retrying
        (runWorkflow sampleCrates (answering (.answered (.ok ()))) retrying (Journal.new false)
          3).ctx.journal) 3
      (runWorkflow sampleCrates (answering (.answered (.ok ()))) retrying (Journal.new false)
        3).ctx.journal 2 := by
  refine left_resumes (.new false) ?_ rfl ?_
  · rintro m - ⟨k, count, -, hrefuses⟩
    cases hrefuses
  · unfold CoveredUntil
    decide +kernel

/-- A script that goes on after its reservation was refused cannot be resumed: its next
call is journaled in the place of the agent call. -/
theorem retrying_refused_not_resumes :
    (runWorkflow sampleCrates (answering (.answered (.error (.failed "disk full")))) retrying
        (Journal.new false) 3).outcome = some (.completed .null) ∧
      ¬Resumes retrying
        (runWorkflow sampleCrates (answering (.answered (.error (.failed "disk full")))) retrying
          (Journal.new false))
        (runWorkflow sampleCrates (answering (.answered (.ok ()))) retrying
          (runWorkflow sampleCrates (answering (.answered (.error (.failed "disk full"))))
            retrying (Journal.new false) 3).ctx.journal) 3
        (runWorkflow sampleCrates (answering (.answered (.error (.failed "disk full")))) retrying
          (Journal.new false) 3).ctx.journal 0 := by
  refine ⟨rfl, fun h => ?_⟩
  have hfits := h.fits (journalFatal (.divergence 0 "spawn_agent")) rfl
  cases hfits

end Ezer.Workflow
