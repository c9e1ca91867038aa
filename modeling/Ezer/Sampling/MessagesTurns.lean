import Ezer.Sampling.MessagesOrder
import Mathlib.Data.List.Chain

/-!
# Turns of the assistant in a request

Two messages of the assistant stand next to each other exactly when a system
item stands between two things it says and nothing is answered in between.
-/

namespace Ezer.Sampling

open Ezer.ChatState

/-- Whether an item puts something into a message of the assistant. -/
def speaks : ConversationItem → Bool
  | .assistant a => !a.content.isEmpty || !a.toolCalls.isEmpty
  | .backendToolCall _ => true
  | .reasoning r => !(reasoningItemText r).isEmpty || !(r.encryptedContent.getD "").isEmpty
  | _ => false

/-- Whether an item is a system item. -/
def isSystem : ConversationItem → Bool
  | .system _ => true
  | _ => false

/-- Whether an item puts something into a message of the user. -/
def answers : ConversationItem → Bool
  | .user _ => true
  | .toolResult _ => true
  | _ => false

/-- Between two things the assistant says there is an answer or no system item. -/
def Uninterrupted (items : List ConversationItem) : Prop :=
  ∀ before x mid y after, items = before ++ x :: (mid ++ y :: after) →
    speaks x = true → speaks y = true → (∀ m ∈ mid, answers m = false) →
    ∀ m ∈ mid, isSystem m = false

/-- Where the assistant is after some items: it has said nothing since the last answer, it is
speaking, a system item interrupted it, or it went on after an interruption. -/
inductive Phase where
  | quiet
  | speaking
  | interrupted
  | split
  deriving DecidableEq

/-- The phase after one more item. -/
def Phase.next (p : Phase) (item : ConversationItem) : Phase :=
  match p with
  | .split => .split
  | .quiet => if speaks item then .speaking else .quiet
  | .speaking => if isSystem item then .interrupted else if answers item then .quiet else .speaking
  | .interrupted => if answers item then .quiet else if speaks item then .split else .interrupted

/-- The phase after some items. -/
def phaseOf (items : List ConversationItem) : Phase := items.foldl Phase.next .quiet

theorem phaseOf_concat (items : List ConversationItem) (item : ConversationItem) :
    phaseOf (items ++ [item]) = (phaseOf items).next item := by
  rw [phaseOf, List.foldl_append]
  rfl

theorem answers_of_speaks {item : ConversationItem} (h : speaks item = true) :
    answers item = false ∧ isSystem item = false := by
  cases item with
  | system | user | toolResult => cases h
  | _ => exact ⟨rfl, rfl⟩

/-- While nothing is answered, an assistant that has spoken stays so, and is interrupted by a
system item. -/
theorem foldl_next_of_no_answer {p : Phase} (hp : p ≠ .quiet) {mid : List ConversationItem}
    (h : ∀ m ∈ mid, answers m = false) :
    mid.foldl Phase.next p ≠ .quiet ∧
      (mid.foldl Phase.next p = .speaking → p = .speaking ∧ ∀ m ∈ mid, isSystem m = false) := by
  induction mid generalizing p with
  | nil => exact ⟨hp, fun heq => ⟨heq, fun m hm => (List.not_mem_nil hm).elim⟩⟩
  | cons m mid ih =>
    obtain ⟨hm, hmid⟩ := List.forall_mem_cons.mp h
    have hnext : p.next m ≠ .quiet ∧
        (p.next m = .speaking → p = .speaking ∧ isSystem m = false) := by
      cases p with
      | quiet => exact (hp rfl).elim
      | speaking =>
        unfold Phase.next
        dsimp only
        rw [hm]
        by_cases hs : isSystem m = true
        · simp [hs]
        · simp [hs]
      | interrupted =>
        unfold Phase.next
        dsimp only
        rw [hm]
        by_cases hs : speaks m = true
        · simp [hs]
        · simp [hs]
      | split => exact ⟨nofun, nofun⟩
    obtain ⟨hne, hspeaking⟩ := ih hnext.1 hmid
    refine ⟨hne, fun heq => ?_⟩
    obtain ⟨hfirst, hrest⟩ := hspeaking heq
    obtain ⟨rfl, hsystem⟩ := hnext.2 hfirst
    exact ⟨rfl, List.forall_mem_cons.mpr ⟨hsystem, hrest⟩⟩

theorem foldl_next_split (items : List ConversationItem) :
    items.foldl Phase.next .split = .split := by
  induction items with
  | nil => rfl
  | cons item items ih => exact ih

theorem phase_spec (items : List ConversationItem) :
    (phaseOf items = .speaking → ∃ before x mid, items = before ++ x :: mid ∧ speaks x = true ∧
      ∀ m ∈ mid, answers m = false) ∧
    (phaseOf items = .interrupted → ∃ before x mid, items = before ++ x :: mid ∧
      speaks x = true ∧ (∀ m ∈ mid, answers m = false) ∧ ∃ m ∈ mid, isSystem m = true) ∧
    (phaseOf items = .split → ¬ Uninterrupted items) := by
  induction items using List.reverseRecOn with
  | nil => exact ⟨nofun, nofun, nofun⟩
  | append_singleton items item ih =>
    obtain ⟨hspeaking, hinterrupted, hsplit⟩ := ih
    have hgrow : ¬ Uninterrupted items → ¬ Uninterrupted (items ++ [item]) := by
      intro hnot hgood
      apply hnot
      intro before x mid y after heq
      exact hgood before x mid y (after ++ [item]) (by rw [heq]; simp)
    rw [phaseOf_concat]
    cases hp : phaseOf items with
    | quiet =>
      unfold Phase.next
      dsimp only
      by_cases hs : speaks item = true
      · rw [if_pos hs]
        refine ⟨fun _ => ?_, nofun, nofun⟩
        exact ⟨items, item, [], rfl, hs, fun m hm => (List.not_mem_nil hm).elim⟩
      · rw [if_neg hs]
        exact ⟨nofun, nofun, nofun⟩
    | speaking =>
      obtain ⟨before, x, mid, rfl, hx, hmid⟩ := hspeaking hp
      unfold Phase.next
      dsimp only
      by_cases hsystem : isSystem item = true
      · rw [if_pos hsystem]
        refine ⟨nofun, fun _ => ⟨before, x, mid ++ [item], by simp, hx, ?_, ?_⟩, nofun⟩
        · intro m hm
          rcases List.mem_append.mp hm with hm | hm
          · exact hmid m hm
          · rw [List.mem_singleton.mp hm]
            cases item with
            | system s => rfl
            | _ => cases hsystem
        · exact ⟨item, by simp, hsystem⟩
      · rw [if_neg hsystem]
        by_cases hanswer : answers item = true
        · rw [if_pos hanswer]
          exact ⟨nofun, nofun, nofun⟩
        · rw [if_neg hanswer]
          refine ⟨fun _ => ⟨before, x, mid ++ [item], by simp, hx, ?_⟩, nofun, nofun⟩
          intro m hm
          rcases List.mem_append.mp hm with hm | hm
          · exact hmid m hm
          · rw [List.mem_singleton.mp hm]
            exact Bool.eq_false_iff.mpr hanswer
    | interrupted =>
      obtain ⟨before, x, mid, rfl, hx, hmid, s, hs, hsystem⟩ := hinterrupted hp
      unfold Phase.next
      dsimp only
      by_cases hanswer : answers item = true
      · rw [if_pos hanswer]
        exact ⟨nofun, nofun, nofun⟩
      · rw [if_neg hanswer]
        by_cases hspeaks : speaks item = true
        · rw [if_pos hspeaks]
          refine ⟨nofun, nofun, fun _ hgood => ?_⟩
          have hno := hgood before x mid item [] (by simp) hx hspeaks hmid s hs
          rw [hsystem] at hno
          cases hno
        · rw [if_neg hspeaks]
          refine ⟨nofun, fun _ => ⟨before, x, mid ++ [item], by simp, hx, ?_, s, by simp [hs],
            hsystem⟩, nofun⟩
          intro m hm
          rcases List.mem_append.mp hm with hm | hm
          · exact hmid m hm
          · rw [List.mem_singleton.mp hm]
            exact Bool.eq_false_iff.mpr hanswer
    | split => exact ⟨nofun, nofun, fun _ => hgrow (hsplit hp)⟩

/-- The assistant goes on after an interruption exactly if a system item stands between two
things it says. -/
theorem uninterrupted_iff (items : List ConversationItem) :
    Uninterrupted items ↔ phaseOf items ≠ .split := by
  constructor
  · exact fun hgood hsplit => (phase_spec items).2.2 hsplit hgood
  · rintro hphase before x mid y after rfl hx hy hmid
    have hfirst : (phaseOf before).next x ≠ .quiet := by
      obtain ⟨hanswer, hsystem⟩ := answers_of_speaks hx
      cases phaseOf before with
      | split => exact nofun
      | _ => simp [Phase.next, hx, hanswer, hsystem]
    have hwhole : phaseOf (before ++ x :: (mid ++ y :: after)) =
        after.foldl Phase.next
          ((mid.foldl Phase.next ((phaseOf before).next x)).next y) := by
      rw [phaseOf, List.foldl_append, List.foldl_cons, List.foldl_append, List.foldl_cons]
      rfl
    obtain ⟨hne, hspeaking⟩ := foldl_next_of_no_answer hfirst hmid
    cases hp : mid.foldl Phase.next ((phaseOf before).next x) with
    | quiet => exact (hne hp).elim
    | speaking => exact (hspeaking hp).2
    | interrupted =>
      rw [hwhole, hp] at hphase
      obtain ⟨hanswer, -⟩ := answers_of_speaks hy
      simp [Phase.next, hanswer, hy, foldl_next_split] at hphase
    | split =>
      rw [hwhole, hp] at hphase
      exact (hphase (foldl_next_split after)).elim

section

variable {J : Type*} (codec : Codec J)

/-- Of two neighbouring messages at most one is of the assistant. -/
def Apart (a b : MessageRole) : Prop := a ≠ .assistant ∨ b ≠ .assistant

/-- No two messages of the assistant stand next to each other. -/
def Alternating (messages : List (Message J)) : Prop := (messages.map Message.role).IsChain Apart

/-- The last message is of the assistant. -/
def EndsAssistant (messages : List (Message J)) : Prop :=
  (messages.map Message.role).getLast? = some .assistant

theorem endsAssistant_concat (messages : List (Message J)) (m : Message J) :
    EndsAssistant (messages ++ [m]) ↔ m.role = .assistant := by
  simp [EndsAssistant]

theorem alternating_concat (messages : List (Message J)) (m : Message J) :
    Alternating (messages ++ [m]) ↔
      Alternating messages ∧ (EndsAssistant messages → m.role ≠ .assistant) := by
  unfold Alternating EndsAssistant
  rw [List.map_append, List.isChain_append]
  simp only [List.map_cons, List.map_nil, List.IsChain.singleton, true_and,
    List.head?_cons, Option.mem_def, Option.some.injEq, forall_eq']
  constructor
  · rintro ⟨hchain, hlast⟩
    refine ⟨hchain, fun hends => ?_⟩
    exact (hlast _ hends).resolve_left fun hne => hne rfl
  · rintro ⟨hchain, hlast⟩
    refine ⟨hchain, fun role hrole => ?_⟩
    by_cases hassistant : role = .assistant
    · subst hassistant
      exact .inr (hlast hrole)
    · exact .inl hassistant

variable {b : Building J}

theorem flushToolResults_of_nil (h : b.pendingToolResults = []) :
    b.flushToolResults = b := by
  simp [Building.flushToolResults, h]

theorem flushAssistant_of_nil (h : b.pendingAssistant = []) :
    b.flushAssistant = b := by
  simp [Building.flushAssistant, h]

theorem flushToolResults_of_ne_nil (h : b.pendingToolResults ≠ []) :
    b.flushToolResults =
      { b with
        messages := b.messages ++ [⟨.user, .blocks b.pendingToolResults⟩]
        pendingToolResults := [] } := by
  simp [Building.flushToolResults, h]

theorem flushAssistant_of_ne_nil (h : b.pendingAssistant ≠ []) :
    b.flushAssistant =
      { b with
        messages := b.messages ++ [⟨.assistant, .blocks b.pendingAssistant⟩]
        pendingAssistant := [] } := by
  simp [Building.flushAssistant, h]

/-- Sending tool results puts at most a user message behind the others. -/
theorem flushToolResults_cases (b : Building J) :
    (b.pendingToolResults = [] ∧ b.flushToolResults = b) ∨
      ∃ m, m.role = .user ∧ b.flushToolResults.messages = b.messages ++ [m] := by
  by_cases h : b.pendingToolResults = []
  · exact .inl ⟨h, flushToolResults_of_nil h⟩
  · rw [flushToolResults_of_ne_nil h]
    exact .inr ⟨_, rfl, rfl⟩

theorem flushAssistant_cases (b : Building J) :
    (b.pendingAssistant = [] ∧ b.flushAssistant = b) ∨
      (b.pendingAssistant ≠ [] ∧ ∃ m, m.role = .assistant ∧
        b.flushAssistant.messages = b.messages ++ [m]) := by
  by_cases h : b.pendingAssistant = []
  · exact .inl ⟨h, flushAssistant_of_nil h⟩
  · rw [flushAssistant_of_ne_nil h]
    exact .inr ⟨h, _, rfl, rfl⟩

theorem alternating_flushToolResults (b : Building J) :
    Alternating b.flushToolResults.messages ↔ Alternating b.messages := by
  rcases flushToolResults_cases b with ⟨-, h⟩ | ⟨m, hrole, h⟩
  · rw [h]
  · rw [h, alternating_concat, hrole]
    exact ⟨And.left, fun halt => ⟨halt, fun _ => nofun⟩⟩

/-- What a phase says about the messages so far. -/
def Phase.Describes (b : Building J) : Phase → Prop
  | .quiet => b.pendingAssistant = [] ∧ Alternating b.messages ∧
      ¬ EndsAssistant b.flushToolResults.messages
  | .speaking => b.pendingAssistant ≠ [] ∧ b.pendingToolResults = [] ∧ Alternating b.messages ∧
      ¬ EndsAssistant b.messages
  | .interrupted => b.pendingAssistant = [] ∧ b.pendingToolResults = [] ∧
      Alternating b.messages ∧ EndsAssistant b.messages
  | .split => b.OneSide ∧ (Alternating b.messages →
      b.pendingAssistant ≠ [] ∧ EndsAssistant b.messages)

variable {p : Phase}

/-- What has been sent by the time everything is sent. -/
theorem Phase.Describes.flushed (h : p.Describes b) :
    (Alternating b.flushed.messages ↔ p ≠ .split) ∧
      (p ≠ .split → (EndsAssistant b.flushed.messages ↔ p ≠ .quiet)) := by
  unfold Building.flushed
  cases p with
  | quiet =>
    obtain ⟨hpending, halt, hends⟩ := h
    have hself : b.flushAssistant = b := flushAssistant_of_nil hpending
    rw [hself, alternating_flushToolResults]
    simp [halt, hends]
  | speaking =>
    obtain ⟨hpending, hresults, halt, hends⟩ := h
    rcases flushAssistant_cases b with ⟨hnil, -⟩ | ⟨-, m, hrole, hmessages⟩
    · exact (hpending hnil).elim
    · have hself : b.flushAssistant.flushToolResults = b.flushAssistant := by
        simp [Building.flushToolResults, hresults]
      rw [hself, hmessages, alternating_concat, endsAssistant_concat]
      simp [halt, hends, hrole]
  | interrupted =>
    obtain ⟨hpending, hresults, halt, hends⟩ := h
    have hself : b.flushAssistant = b := flushAssistant_of_nil hpending
    have hself' : b.flushToolResults = b := flushToolResults_of_nil hresults
    rw [hself, hself']
    simp [halt, hends]
  | split =>
    obtain ⟨-, hsplit⟩ := h
    refine ⟨iff_of_false ?_ fun hne => hne rfl, fun hne => (hne rfl).elim⟩
    rw [alternating_flushToolResults]
    intro halt
    rcases flushAssistant_cases b with ⟨hnil, hself⟩ | ⟨-, m, hrole, hmessages⟩
    · rw [hself] at halt
      exact (hsplit halt).1 hnil
    · rw [hmessages, alternating_concat] at halt
      exact halt.2 (hsplit halt.1).2 hrole

theorem assistantBlocks_eq_nil_iff {item : ConversationItem} (h : ofAssistant item = true) :
    assistantBlocks codec item = [] ↔ speaks item = false := by
  cases item with
  | system | user | toolResult => cases h
  | assistant a =>
    unfold assistantBlocks speaks
    by_cases hcontent : a.content.isEmpty = true
    · simp [hcontent]
    · simp [hcontent]
  | backendToolCall kind => exact iff_of_false nofun nofun
  | reasoning r =>
    unfold assistantBlocks speaks
    dsimp only
    by_cases hthinking : (reasoningItemText r).isEmpty = true
    · by_cases hsignature : (r.encryptedContent.getD "").isEmpty = true
      · simp [hthinking, hsignature]
      · simp [hthinking, hsignature]
    · simp [hthinking]

/-- An item of the assistant changes what is described as the phase does. -/
theorem Phase.Describes.speak (h : p.Describes b)
    {item : ConversationItem} (hitem : ofAssistant item = true) :
    (p.next item).Describes (b.push codec item) := by
  have hquiet : answers item = false ∧ isSystem item = false := by
    cases item with
    | system | user | toolResult => cases hitem
    | _ => exact ⟨rfl, rfl⟩
  have hblocks := assistantBlocks_eq_nil_iff codec hitem
  rw [push_of_assistant codec hitem]
  cases p with
  | quiet =>
    obtain ⟨hpending, halt, hends⟩ := h
    have hflush : b.flushToolResults.pendingAssistant = [] := by simpa using hpending
    by_cases hs : speaks item = true
    · rw [show Phase.quiet.next item = .speaking by simp [Phase.next, hs]]
      refine ⟨?_, pendingToolResults_flushToolResults b, ?_, hends⟩
      · rw [hflush, List.nil_append]
        exact fun hnil => by simp [hblocks.mp hnil] at hs
      · exact (alternating_flushToolResults b).mpr halt
    · rw [show Phase.quiet.next item = .quiet by simp [Phase.next, hs]]
      have hnil := hblocks.mpr (Bool.eq_false_iff.mpr hs)
      refine ⟨by rw [hflush, hnil]; rfl, (alternating_flushToolResults b).mpr halt, ?_⟩
      rw [flushToolResults_of_nil]
      · exact hends
      · exact pendingToolResults_flushToolResults b
  | speaking =>
    obtain ⟨hpending, hresults, halt, hends⟩ := h
    rw [show Phase.speaking.next item = .speaking by simp [Phase.next, hquiet]]
    have hself : b.flushToolResults = b := flushToolResults_of_nil hresults
    rw [hself]
    exact ⟨by simp [hpending], hresults, halt, hends⟩
  | interrupted =>
    obtain ⟨hpending, hresults, halt, hends⟩ := h
    have hself : b.flushToolResults = b := flushToolResults_of_nil hresults
    rw [hself]
    by_cases hs : speaks item = true
    · rw [show Phase.interrupted.next item = .split by simp [Phase.next, hquiet, hs]]
      refine ⟨.inr hresults, fun _ => ⟨?_, hends⟩⟩
      rw [hpending, List.nil_append]
      exact fun hnil => by simp [hblocks.mp hnil] at hs
    · rw [show Phase.interrupted.next item = .interrupted by simp [Phase.next, hquiet, hs]]
      have hnil := hblocks.mpr (Bool.eq_false_iff.mpr hs)
      exact ⟨by simp [hpending, hnil], hresults, halt, hends⟩
  | split =>
    obtain ⟨hside, hsplit⟩ := h
    refine ⟨.inr (pendingToolResults_flushToolResults b), fun halt => ?_⟩
    obtain ⟨hpending, hends⟩ := hsplit ((alternating_flushToolResults b).mp halt)
    have hresults := hside.resolve_left hpending
    have hself : b.flushToolResults = b := flushToolResults_of_nil hresults
    rw [hself]
    exact ⟨by simp [hpending], hends⟩

/-- One item changes what is described as the phase does. -/
theorem Phase.Describes.push (h : p.Describes b)
    (item : ConversationItem) : (p.next item).Describes (b.push codec item) := by
  obtain ⟨halt, hends⟩ := h.flushed
  have hpending : b.flushed.pendingAssistant = [] := by simp [Building.flushed]
  have hresults : b.flushed.pendingToolResults = [] := by simp [Building.flushed]
  have hsend : ∀ m : Message J, m.role = .user →
      (Alternating (b.flushed.messages ++ [m]) ↔ p ≠ .split) ∧
        ¬ EndsAssistant (b.flushed.messages ++ [m]) := by
    intro m hm
    rw [alternating_concat, endsAssistant_concat, halt, hm]
    exact ⟨⟨And.left, fun hne => ⟨hne, fun _ => by simp⟩⟩, by simp⟩
  cases item with
  | system s =>
    have hpush : b.push codec (.system s) =
        { b.flushed with systemBlocks := b.flushed.systemBlocks ++ [⟨s.content, none⟩] } := rfl
    rw [hpush]
    cases p with
    | quiet =>
      refine ⟨hpending, halt.mpr (by simp), ?_⟩
      rw [flushToolResults_of_nil]
      · exact fun he => (hends (by simp)).mp he rfl
      · exact hresults
    | speaking | interrupted =>
      exact ⟨hpending, hresults, halt.mpr (by simp), (hends (by simp)).mpr (by simp)⟩
    | split => exact ⟨.inl hpending, fun hbad => (halt.mp hbad rfl).elim⟩
  | user u =>
    have hpush : b.push codec (.user u) =
        { b.flushed with
          messages := b.flushed.messages ++
            [⟨.user, .blocks (contentPartsToAnthropicBlocks u.content)⟩] } := rfl
    obtain ⟨hsendAlt, hsendEnds⟩ := hsend ⟨.user, .blocks (contentPartsToAnthropicBlocks u.content)⟩
      rfl
    rw [hpush]
    have hquiet : p ≠ .split → Phase.quiet.Describes { b.flushed with
          messages := b.flushed.messages ++
            [⟨.user, .blocks (contentPartsToAnthropicBlocks u.content)⟩] } := by
      intro hne
      refine ⟨hpending, hsendAlt.mpr hne, ?_⟩
      rw [flushToolResults_of_nil]
      · exact hsendEnds
      · exact hresults
    cases p with
    | quiet | speaking | interrupted => exact hquiet (by simp)
    | split => exact ⟨.inl hpending, fun hbad => (hsendAlt.mp hbad rfl).elim⟩
  | toolResult t =>
    have halt' : Alternating b.flushAssistant.messages ↔ p ≠ .split := by
      rw [← alternating_flushToolResults]
      exact halt
    have hquiet : p ≠ .split → Phase.quiet.Describes (b.push codec (.toolResult t)) := by
      intro hne
      refine ⟨pendingAssistant_flushAssistant b, halt'.mpr hne, ?_⟩
      rcases flushToolResults_cases (b.push codec (.toolResult t)) with ⟨hnil, -⟩ | ⟨m, hm, hms⟩
      · simp [Building.push] at hnil
      · rw [hms, endsAssistant_concat, hm]
        simp
    cases p with
    | quiet | speaking | interrupted => exact hquiet (by simp)
    | split => exact ⟨.inl (pendingAssistant_flushAssistant b), fun hbad => (halt'.mp hbad rfl).elim⟩
  | assistant | backendToolCall | reasoning => exact h.speak codec rfl

theorem describes_foldl (h : p.Describes b) (items : List ConversationItem) :
    (items.foldl Phase.next p).Describes (items.foldl (Building.push codec) b) := by
  induction items generalizing b p with
  | nil => exact h
  | cons item items ih => exact ih (h.push codec item)

/-- Messages of the assistant are kept apart exactly if no system item interrupts it. -/
theorem alternating_iff (items : List ConversationItem) :
    Alternating (items.foldl (Building.push codec) ⟨[], [], [], []⟩).flushed.messages ↔
      Uninterrupted items := by
  have hstart : Phase.quiet.Describes (⟨[], [], [], []⟩ : Building J) := by
    refine ⟨rfl, List.IsChain.nil, ?_⟩
    simp [Building.flushToolResults, EndsAssistant]
  rw [((describes_foldl codec hstart items).flushed).1, uninterrupted_iff]
  rfl

end

end Ezer.Sampling
