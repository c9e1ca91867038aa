import Mathlib.Data.List.Basic

/-!
# Lists cut into heads and the followers behind them

Some elements of a list follow the element before them. Cutting a list at its
other elements gives the leading followers and one run for each head; joining
the runs gives the list back, so a list and its cut are the same data.
-/

namespace Ezer.Lib

/-- The elements of a list that follow others, read as values of their own type. -/
structure Follower (α β : Type*) where
  /-- A follower as an element. -/
  embed : β → α
  /-- The follower an element is, if it is one. -/
  read : α → Option β
  read_embed : ∀ b, read (embed b) = some b
  embed_of_read : ∀ {a b}, read a = some b → embed b = a

section

variable {α β : Type*} (F : Follower α β)

/-- A head and the followers right behind it. -/
structure Run where
  /-- The element that starts the run. -/
  head : α
  head_read : F.read head = none
  /-- The followers behind the head, in order. -/
  followers : List β

/-- A list cut at its heads. -/
structure Cut where
  /-- The followers before the first head. -/
  lead : List β
  /-- The heads with their followers, in order. -/
  runs : List (Run F)

/-- The followers that open a list. -/
def leading : List α → List β
  | [] => []
  | a :: rest =>
    match F.read a with
    | some b => b :: leading rest
    | none => []

/-- What stands behind the followers that open a list. -/
def behind : List α → List α
  | [] => []
  | a :: rest =>
    match F.read a with
    | some _ => behind rest
    | none => a :: rest

theorem length_behind_le (items : List α) : (behind F items).length ≤ items.length := by
  induction items with
  | nil => exact Nat.le_refl _
  | cons a rest ih =>
    rw [behind]
    cases F.read a with
    | some b => exact Nat.le_trans ih (Nat.le_succ _)
    | none => exact Nat.le_refl _

@[simp] theorem leading_embed (b : β) (rest : List α) :
    leading F (F.embed b :: rest) = b :: leading F rest := by
  rw [leading, F.read_embed]

@[simp] theorem behind_embed (b : β) (rest : List α) :
    behind F (F.embed b :: rest) = behind F rest := by
  rw [behind, F.read_embed]

variable {F}

theorem leading_cons {a : α} (h : F.read a = none) (rest : List α) :
    leading F (a :: rest) = [] := by
  rw [leading, h]

theorem behind_cons {a : α} (h : F.read a = none) (rest : List α) :
    behind F (a :: rest) = a :: rest := by
  rw [behind, h]

/-- An element is a follower or a head. -/
theorem Follower.cases (a : α) : (∃ b, a = F.embed b) ∨ F.read a = none := by
  cases h : F.read a with
  | none => exact Or.inr rfl
  | some b => exact Or.inl ⟨b, (F.embed_of_read h).symm⟩

variable (F)

/-- The leading followers and what stands behind them make up the list. -/
theorem leading_append_behind (items : List α) :
    (leading F items).map F.embed ++ behind F items = items := by
  induction items with
  | nil => rfl
  | cons a rest ih =>
    obtain ⟨b, rfl⟩ | h := F.cases a
    · rw [leading_embed, behind_embed, List.map_cons, List.cons_append, ih]
    · rw [leading_cons h, behind_cons h, List.map_nil, List.nil_append]

theorem leading_map_append (followers : List β) (items : List α) :
    leading F (followers.map F.embed ++ items) = followers ++ leading F items := by
  induction followers with
  | nil => rfl
  | cons b rest ih => rw [List.map_cons, List.cons_append, leading_embed, ih, List.cons_append]

/-- Cut a list at its heads. -/
def cut : List α → Cut F
  | [] => ⟨[], []⟩
  | a :: rest =>
    match h : F.read a with
    | some b => ⟨b :: (cut rest).lead, (cut rest).runs⟩
    | none => ⟨[], ⟨a, h, (cut rest).lead⟩ :: (cut rest).runs⟩

variable {F}

/-- A head followed by its run. -/
def Run.items (r : Run F) : List α := r.head :: r.followers.map F.embed

/-- The list a cut comes from. -/
def Cut.join (c : Cut F) : List α := c.lead.map F.embed ++ c.runs.flatMap Run.items

@[simp] theorem cut_embed (b : β) (rest : List α) :
    cut F (F.embed b :: rest) = ⟨b :: (cut F rest).lead, (cut F rest).runs⟩ := by
  rw [cut]
  split
  · rename_i b' h
    rw [F.read_embed] at h
    cases h
    rfl
  · rename_i h
    rw [F.read_embed] at h
    cases h

theorem cut_cons {a : α} (h : F.read a = none) (rest : List α) :
    cut F (a :: rest) = ⟨[], ⟨a, h, (cut F rest).lead⟩ :: (cut F rest).runs⟩ := by
  rw [cut]
  split
  · rename_i b' h'
    rw [h] at h'
    cases h'
  · rfl

/-- Joining a cut gives the list back. -/
@[simp] theorem join_cut (items : List α) : (cut F items).join = items := by
  induction items with
  | nil => rfl
  | cons a rest ih =>
    obtain ⟨b, rfl⟩ | h := F.cases a
    · rw [cut_embed]
      exact congrArg (F.embed b :: ·) ih
    · rw [cut_cons h]
      exact congrArg (a :: ·) ih

theorem cut_map_append (followers : List β) (items : List α) :
    cut F (followers.map F.embed ++ items) =
      ⟨followers ++ (cut F items).lead, (cut F items).runs⟩ := by
  induction followers with
  | nil => rfl
  | cons b rest ih => rw [List.map_cons, List.cons_append, cut_embed, ih, List.cons_append]

theorem cut_flatMap_items (runs : List (Run F)) : cut F (runs.flatMap Run.items) = ⟨[], runs⟩ := by
  induction runs with
  | nil => rfl
  | cons r rest ih =>
    rw [List.flatMap_cons, Run.items, List.cons_append, cut_cons r.head_read, cut_map_append, ih,
      List.append_nil]

@[simp] theorem cut_join (c : Cut F) : cut F c.join = c := by
  rw [Cut.join, cut_map_append, cut_flatMap_items, List.append_nil]

theorem cut_injective {a b : List α} (h : cut F a = cut F b) : a = b := by
  rw [← join_cut (F := F) a, h, join_cut]

/-- The lead of a cut is what opens the list. -/
theorem cut_lead (items : List α) : (cut F items).lead = leading F items := by
  induction items with
  | nil => rfl
  | cons a rest ih =>
    obtain ⟨b, rfl⟩ | h := F.cases a
    · rw [cut_embed, leading_embed, ih]
    · rw [cut_cons h, leading_cons h]

/-- The runs of a cut are those of what stands behind its lead. -/
theorem cut_behind (items : List α) : cut F (behind F items) = ⟨[], (cut F items).runs⟩ := by
  have h := cut_map_append (F := F) (leading F items) (behind F items)
  rw [leading_append_behind] at h
  have hlead : (cut F (behind F items)).lead = [] := by
    have h' := congrArg Cut.lead h
    rw [cut_lead] at h'
    exact List.append_cancel_left (h'.symm.trans (List.append_nil _).symm)
  rw [h]
  exact congrArg₂ Cut.mk hlead rfl

/-- A head with the followers behind it, split off from what stands behind these. -/
theorem cut_cons_behind {a : α} (h : F.read a = none) (rest : List α) :
    cut F (a :: rest) = ⟨[], ⟨a, h, leading F rest⟩ :: (cut F (behind F rest)).runs⟩ := by
  rw [cut_cons h, cut_lead, cut_behind]

/-- A head inside a list starts a run of its cut. -/
theorem cut_append_cons {a : α} (h : F.read a = none) (before after : List α) :
    cut F (before ++ a :: after) =
      ⟨(cut F before).lead,
        (cut F before).runs ++ ⟨a, h, leading F after⟩ :: (cut F (behind F after)).runs⟩ := by
  induction before with
  | nil => exact cut_cons_behind h after
  | cons b rest ih =>
    obtain ⟨f, rfl⟩ | hb := F.cases b
    · rw [List.cons_append, cut_embed, cut_embed, ih]
    · rw [List.cons_append, cut_cons hb, cut_cons hb, ih]
      rfl

/-- Every run of a cut stands somewhere in the list. -/
theorem exists_of_runs {items : List α} {early late : List (Run F)} {r : Run F}
    (h : (cut F items).runs = early ++ r :: late) :
    ∃ before after, items = before ++ r.head :: after ∧ leading F after = r.followers ∧
      (cut F before).runs = early := by
  refine ⟨Cut.join ⟨(cut F items).lead, early⟩, r.followers.map F.embed ++ late.flatMap Run.items,
    ?_, ?_, ?_⟩
  · have hjoin := join_cut (F := F) items
    rw [Cut.join, h, List.flatMap_append, List.flatMap_cons, ← List.append_assoc] at hjoin
    exact hjoin.symm
  · rw [leading_map_append, ← cut_lead, cut_flatMap_items, List.append_nil]
  · rw [cut_join]

/-- A list consists of followers, or ends in a head with the followers behind it. -/
theorem exists_last_head (items : List α) :
    (∃ followers : List β, items = followers.map F.embed) ∨
      ∃ before a, ∃ followers : List β, F.read a = none ∧
        items = before ++ a :: followers.map F.embed := by
  induction items with
  | nil => exact Or.inl ⟨[], rfl⟩
  | cons b rest ih =>
    obtain ⟨followers, rfl⟩ | ⟨before, a, followers, ha, rfl⟩ := ih
    · obtain ⟨f, rfl⟩ | hb := F.cases b
      · exact Or.inl ⟨f :: followers, rfl⟩
      · exact Or.inr ⟨[], b, followers, hb, rfl⟩
    · exact Or.inr ⟨b :: before, a, followers, ha, rfl⟩

/-- The heads of a cut are the elements that follow no other. -/
theorem heads_cut (items : List α) :
    (cut F items).runs.map Run.head = items.filter fun a => (F.read a).isNone := by
  induction items with
  | nil => rfl
  | cons a rest ih =>
    obtain ⟨b, rfl⟩ | h := F.cases a
    · rw [cut_embed, List.filter_cons_of_neg (by simp [F.read_embed]), ih]
    · rw [cut_cons h, List.filter_cons_of_pos (by simp [h]), List.map_cons, ih]

/-- Rewrite the followers of every run. -/
def Cut.mapRuns (f : α → List β → List β) (c : Cut F) : Cut F :=
  { c with runs := c.runs.map fun r => { r with followers := f r.head r.followers } }

/-- Rewriting followers leaves the heads in place. -/
theorem heads_mapRuns (f : α → List β → List β) (c : Cut F) :
    (c.mapRuns f).runs.map Run.head = c.runs.map Run.head := by
  rw [Cut.mapRuns, List.map_map]
  rfl

theorem mapRuns_mapRuns (f g : α → List β → List β) (c : Cut F) :
    (c.mapRuns f).mapRuns g = c.mapRuns fun a run => g a (f a run) := by
  rw [Cut.mapRuns, Cut.mapRuns, Cut.mapRuns, List.map_map]
  rfl

end

end Ezer.Lib
