import Ezer.Sampling.Events

/-!
# Streams of raw events

A raw stream is read event by event until it ends, fails or stalls. Each raw
event changes the state of a transform and makes it send events; the end of the
stream makes it send the response.
-/

namespace Ezer.Sampling

/-- What reading the raw stream gives: nothing in time, an error, or an event, with whether the
last event of meaning is by then too long ago. -/
inductive RawItem (ε : Type*) where
  | idle
  | error (err : SamplingError)
  | event (event : ε) (stalled : Bool)

/-- What a transform does with a raw event. -/
inductive StepResult (σ : Type*) where
  | next (state : σ) (out : List SamplingEvent)
  | failed (out : List SamplingEvent) (err : SamplingError)

section Run

variable {σ ε : Type*}

/-- Read one item: an event may be handled or fail, and one without meaning fails a stalled
stream. -/
def readItem (idleSecs : ℕ) (handle : σ → ε → Except SamplingError (σ × List SamplingEvent))
    (meaningful : ε → Bool) (s : σ) : RawItem ε → StepResult σ
  | .idle => .failed [] (.idleTimeout idleSecs)
  | .error err => .failed [] err
  | .event e stalled =>
    match handle s e with
    | .error err => .failed [] err
    | .ok (s', out) =>
      if !meaningful e && stalled then .failed out (.idleTimeout idleSecs) else .next s' out

/-- Read a raw stream. -/
def runStream (idleSecs : ℕ) (handle : σ → ε → Except SamplingError (σ × List SamplingEvent))
    (meaningful : ε → Bool) (finish : σ → ConversationResponse) :
    σ → List (RawItem ε) → List SamplingEvent
  | s, [] => [.completed (finish s)]
  | s, item :: rest =>
    match readItem idleSecs handle meaningful s item with
    | .next s' out => out ++ runStream idleSecs handle meaningful finish s' rest
    | .failed out err => out ++ [.failed (.of err)]

variable {idleSecs : ℕ} {handle : σ → ε → Except SamplingError (σ × List SamplingEvent)}
  {meaningful : ε → Bool} {finish : σ → ConversationResponse}
  {R : σ → List (RawItem ε) → List SamplingEvent → Prop}

end Run

/-- The events before a raw stream is read. -/
def openingEvents (metadata : Option ResponseModelMetadata) : List SamplingEvent :=
  .streamStarted :: (metadata.map .modelMetadata).toList

/-- A change of a state that sends events. -/
abbrev Transform (σ : Type*) := σ → σ × List SamplingEvent

namespace Transform

variable {σ α : Type*}

/-- Change nothing. -/
def skip : Transform σ := fun s => (s, [])

/-- Change the state only. -/
def update (f : σ → σ) : Transform σ := fun s => (f s, [])

/-- Send an event. -/
def send (e : σ → SamplingEvent) : Transform σ := fun s => (s, [e s])

/-- One change behind another. -/
def andThen (f g : Transform σ) : Transform σ := fun s =>
  ((g (f s).1).1, (f s).2 ++ (g (f s).1).2)

/-- One change for each value of a list. -/
def forEach (f : α → Transform σ) : List α → Transform σ
  | [] => skip
  | a :: as => (f a).andThen (forEach f as)

/-- A change keeps what holds of the state and the events so far. -/
def Keeps (Inv : σ → List SamplingEvent → Prop) (f : Transform σ) : Prop :=
  ∀ s trace, Inv s trace → Inv (f s).1 (trace ++ (f s).2)

variable {Inv : σ → List SamplingEvent → Prop}

theorem Keeps.skip : Keeps Inv (@skip σ) := by
  intro s trace h
  rw [Transform.skip, List.append_nil]
  exact h

theorem Keeps.update {f : σ → σ} (h : ∀ s trace, Inv s trace → Inv (f s) trace) :
    Keeps Inv (update f) := by
  intro s trace hs
  rw [Transform.update, List.append_nil]
  exact h s trace hs

theorem Keeps.andThen {f g : Transform σ} (hf : Keeps Inv f) (hg : Keeps Inv g) :
    Keeps Inv (f.andThen g) := by
  intro s trace hs
  have h := hg _ _ (hf s trace hs)
  rw [List.append_assoc] at h
  exact h

theorem Keeps.forEach {f : α → Transform σ} (hf : ∀ a, Keeps Inv (f a)) (as : List α) :
    Keeps Inv (forEach f as) := by
  induction as with
  | nil => exact Keeps.skip
  | cons a as ih => exact (hf a).andThen ih

end Transform

end Ezer.Sampling
