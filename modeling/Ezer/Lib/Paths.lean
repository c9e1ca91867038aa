import Ezer.Lib.Lines
import Mathlib.Data.List.DropRight

/-!
# Unix path text

A path is text, read as components between its separators. Joining, collecting
and stripping work on the text; the lemmas say what they do to the components.
The lexical normal form settles `.` and `..` without looking at any file.
-/

namespace Ezer.Lib.UnixPath

/-- What one part of a path stands for. -/
inductive Component where
  | rootDir
  | curDir
  | parentDir
  | normal (name : Text)
  deriving DecidableEq

/-- The text of a component by itself. -/
def Component.text : Component → Text
  | .rootDir => ['/']
  | .curDir => ['.']
  | .parentDir => ['.', '.']
  | .normal name => name

/-- The component a segment between separators stands for, if it stands for one. -/
def segmentComponent (segment : Text) : Option Component :=
  if segment = [] ∨ segment = ['.'] then none
  else if segment = ['.', '.'] then some .parentDir
  else some (.normal segment)

/-- The components behind the root and behind a leading `.`. -/
def bodyComponents (path : Text) : List Component :=
  (path.splitOn '/').filterMap segmentComponent

/-- A path is absolute when it starts at the root. -/
def isAbsolute (path : Text) : Bool := path.head? == some '/'

/-- The root of an absolute path, or the `.` that a relative one spells out in front. -/
def headComponent (path : Text) : Option Component :=
  if isAbsolute path then some .rootDir
  else if (path.splitOn '/').head? = some ['.'] then some .curDir
  else none

/-- All components of a path, in order. -/
def components (path : Text) : List Component :=
  (headComponent path).toList ++ bodyComponents path

/-- A path appended to another; an absolute one replaces it. -/
def join (base path : Text) : Text :=
  if isAbsolute path then path
  else if base = [] ∨ base.getLast? = some '/' then base ++ path
  else base ++ '/' :: path

/-- The path that components spell, one joined behind the other. -/
def collect (parts : List Component) : Text :=
  parts.foldl (fun path part => join path part.text) []

/-- One component settled against those in front of it. -/
def normalizeStep (settled : List Component) : Component → List Component
  | .curDir => settled
  | .parentDir =>
    match settled.getLast? with
    | some (.normal _) => settled.dropLast
    | some .rootDir => settled
    | _ => settled ++ [.parentDir]
  | part => settled ++ [part]

/-- The components of a path with every `.` and every `..` that can be settled gone. -/
def normalizeComponents (path : Text) : List Component :=
  (components path).foldl normalizeStep []

/-- The lexical normal form of a path; the empty one is spelled `.`. -/
def normalizeLexically (path : Text) : Text :=
  if normalizeComponents path = [] then ['.'] else collect (normalizeComponents path)

/-- The segments left behind the first `count` that stand for components. -/
def dropParts : ℕ → List Text → List Text
  | 0, segments => segments
  | _ + 1, [] => []
  | count + 1, segment :: rest =>
    if (segmentComponent segment).isNone then dropParts (count + 1) rest
    else dropParts count rest

/-- The path behind a base that has a component, when the path starts with the
components of that base. What stands for no component is cut off at both ends. -/
def stripPrefix (path base : Text) : Option Text :=
  if components base <+: components path then
    let left := dropParts (bodyComponents base).length (path.splitOn '/')
    let started := left.dropWhile fun segment => (segmentComponent segment).isNone
    some (['/'].intercalate (started.rdropWhile fun segment => (segmentComponent segment).isNone))
  else none

/-- A component that may stand anywhere behind the root of a settled path. -/
inductive Component.InBody : Component → Prop
  | parentDir : InBody .parentDir
  | normal {name : Text} (hne : name ≠ []) (hcur : name ≠ ['.']) (hparent : name ≠ ['.', '.'])
      (hslash : '/' ∉ name) : InBody (.normal name)

/-- A component is a name. -/
def Component.IsNormal : Component → Prop
  | .normal _ => True
  | _ => False

section Components

variable {a b path : Text} {part : Component}

theorem inBody_of_segmentComponent {segment : Text} (hslash : '/' ∉ segment)
    (h : segmentComponent segment = some part) : part.InBody := by
  unfold segmentComponent at h
  split at h
  · exact absurd h (by simp)
  · rename_i hblank
    rw [not_or] at hblank
    split at h
    · cases h
      exact .parentDir
    · rename_i hparent
      cases h
      exact .normal hblank.1 hblank.2 hparent hslash

theorem not_mem_of_mem_splitOn {segment : Text} (h : segment ∈ path.splitOn '/') :
    '/' ∉ segment := by
  induction path generalizing segment with
  | nil =>
    rw [List.splitOn_nil, List.mem_singleton] at h
    simp [h]
  | cons c path ih =>
    rw [List.splitOn_cons_eq_if_modifyHead] at h
    split at h
    · rcases List.mem_cons.mp h with rfl | h
      · exact List.not_mem_nil
      · exact ih h
    · rename_i hc
      cases hsplit : path.splitOn '/' with
      | nil => exact absurd hsplit (List.splitOn_ne_nil _ _)
      | cons first rest =>
        rw [hsplit] at h ih
        rcases List.mem_cons.mp h with rfl | h
        · rw [List.mem_cons, not_or]
          exact ⟨fun he => hc (by simp [← he]), ih List.mem_cons_self⟩
        · exact ih (List.mem_cons_of_mem _ h)

theorem mem_of_mem_splitOn {segment : Text} {c : Char} (h : segment ∈ path.splitOn '/')
    (hc : c ∈ segment) : c ∈ path := by
  induction path generalizing segment with
  | nil =>
    rw [List.splitOn_nil, List.mem_singleton] at h
    rwa [h] at hc
  | cons d path ih =>
    rw [List.splitOn_cons_eq_if_modifyHead] at h
    split at h
    · rcases List.mem_cons.mp h with rfl | h
      · exact absurd hc List.not_mem_nil
      · exact List.mem_cons_of_mem _ (ih h hc)
    · cases hsplit : path.splitOn '/' with
      | nil => exact absurd hsplit (List.splitOn_ne_nil _ _)
      | cons first rest =>
        rw [hsplit] at h ih
        rcases List.mem_cons.mp h with rfl | h
        · rcases List.mem_cons.mp hc with rfl | hc
          · exact List.mem_cons_self
          · exact List.mem_cons_of_mem _ (ih List.mem_cons_self hc)
        · exact List.mem_cons_of_mem _ (ih (List.mem_cons_of_mem _ h) hc)

theorem inBody_of_mem_bodyComponents (h : part ∈ bodyComponents path) : part.InBody := by
  obtain ⟨segment, hsegment, hpart⟩ := List.mem_filterMap.mp h
  exact inBody_of_segmentComponent (not_mem_of_mem_splitOn hsegment) hpart

/-- The names in a path are made of its characters. -/
theorem mem_of_normal_mem_bodyComponents {name : Text} {c : Char}
    (h : .normal name ∈ bodyComponents path) (hc : c ∈ name) : c ∈ path := by
  obtain ⟨segment, hsegment, hpart⟩ := List.mem_filterMap.mp h
  unfold segmentComponent at hpart
  split at hpart
  · exact absurd hpart (by simp)
  · split at hpart
    · exact absurd hpart (by simp)
    · rw [Option.some.injEq, Component.normal.injEq] at hpart
      exact mem_of_mem_splitOn hsegment (hpart ▸ hc)

@[simp] theorem bodyComponents_nil : bodyComponents [] = [] := by
  simp [bodyComponents, segmentComponent]

@[simp] theorem bodyComponents_dot : bodyComponents ['.'] = [] := by
  decide

/-- A separator splits the components of a path. -/
theorem bodyComponents_append_cons (a b : Text) :
    bodyComponents (a ++ '/' :: b) = bodyComponents a ++ bodyComponents b := by
  rw [bodyComponents, List.splitOn_append_cons_self, List.filterMap_append]
  rfl

theorem bodyComponents_dot_slash (path : Text) :
    bodyComponents ('.' :: '/' :: path) = bodyComponents path := by
  have happend : '.' :: '/' :: path = ['.'] ++ '/' :: path := rfl
  rw [happend, bodyComponents_append_cons, bodyComponents_dot, List.nil_append]

theorem join_of_not_isAbsolute (hb : isAbsolute b = false) :
    (a = [] ∧ join a b = b) ∨ (∃ front, a = front ++ ['/'] ∧ join a b = front ++ '/' :: b) ∨
      (a ≠ [] ∧ join a b = a ++ '/' :: b) := by
  unfold join
  rw [hb, if_neg Bool.false_ne_true]
  by_cases hnil : a = []
  · exact .inl ⟨hnil, by simp [hnil]⟩
  · by_cases hlast : a.getLast? = some '/'
    · obtain ⟨front, rfl⟩ := List.getLast?_eq_some_iff.mp hlast
      exact .inr (.inl ⟨front, rfl, by simp⟩)
    · exact .inr (.inr ⟨hnil, by simp [hnil, hlast]⟩)

/-- Joining a relative path puts its components behind those in front. -/
theorem bodyComponents_join (hb : isAbsolute b = false) :
    bodyComponents (join a b) = bodyComponents a ++ bodyComponents b := by
  rcases join_of_not_isAbsolute (a := a) hb with ⟨rfl, h⟩ | ⟨front, rfl, h⟩ | ⟨-, h⟩
  · rw [h, bodyComponents_nil, List.nil_append]
  · rw [h, bodyComponents_append_cons, bodyComponents_append_cons, bodyComponents_nil,
      List.append_nil]
  · rw [h, bodyComponents_append_cons]

theorem headComponent_append_cons (ha : a ≠ []) (b : Text) :
    headComponent (a ++ '/' :: b) = headComponent a := by
  have habsolute : isAbsolute (a ++ '/' :: b) = isAbsolute a := by
    cases a with
    | nil => exact absurd rfl ha
    | cons c a => rfl
  rw [headComponent, headComponent, habsolute, List.splitOn_append_cons_self,
    List.head?_append_of_ne_nil _ (List.splitOn_ne_nil _ _)]

theorem components_dot_slash (path : Text) :
    components ('.' :: '/' :: path) = .curDir :: bodyComponents path := by
  have happend : '.' :: '/' :: path = ['.'] ++ '/' :: path := rfl
  rw [components, bodyComponents_dot_slash, happend,
    headComponent_append_cons (List.cons_ne_nil _ _)]
  rfl

theorem headComponent_join (ha : a ≠ []) (hb : isAbsolute b = false) :
    headComponent (join a b) = headComponent a := by
  rcases join_of_not_isAbsolute (a := a) hb with ⟨hnil, -⟩ | ⟨front, rfl, h⟩ | ⟨-, h⟩
  · exact absurd hnil ha
  · rw [h]
    cases front with
    | nil => rfl
    | cons c front =>
      rw [headComponent_append_cons (List.cons_ne_nil _ _),
        headComponent_append_cons (List.cons_ne_nil _ _)]
  · rw [h, headComponent_append_cons ha]

theorem headComponent_of_not_isAbsolute (hb : isAbsolute b = false) :
    headComponent b = none ∨ headComponent b = some .curDir := by
  unfold headComponent
  rw [hb, if_neg Bool.false_ne_true]
  split
  · exact .inr rfl
  · exact .inl rfl

theorem isAbsolute_join (ha : isAbsolute a = true) (b : Text) : isAbsolute (join a b) = true := by
  cases hb : isAbsolute b with
  | true =>
    rw [join, if_pos hb]
    exact hb
  | false =>
    rcases join_of_not_isAbsolute (a := a) hb with ⟨rfl, -⟩ | ⟨front, rfl, h⟩ | ⟨hne, h⟩
    · exact absurd ha Bool.false_ne_true
    · rw [h]
      cases front <;> exact ha
    · rw [h]
      cases a with
      | nil => exact absurd rfl hne
      | cons c a => exact ha

theorem isAbsolute_of_components {parts : List Component}
    (h : components path = .rootDir :: parts) : isAbsolute path = true := by
  by_contra habsolute
  rw [Bool.not_eq_true] at habsolute
  rw [components] at h
  rcases headComponent_of_not_isAbsolute habsolute with hhead | hhead
  · rw [hhead, Option.toList_none, List.nil_append] at h
    cases inBody_of_mem_bodyComponents (h ▸ List.mem_cons_self)
  · rw [hhead, Option.toList_some, List.singleton_append, List.cons.injEq] at h
    exact Component.noConfusion h.1

/-- A component of a body, written by itself, is read back as itself. -/
theorem Component.InBody.components_text (h : part.InBody) :
    isAbsolute part.text = false ∧ bodyComponents part.text = [part] ∧
      components part.text = [part] := by
  cases h with
  | parentDir => decide
  | @normal name hne hcur hparent hslash =>
    have habsolute : isAbsolute name = false := by
      cases name with
      | nil => rfl
      | cons c name =>
        rw [List.mem_cons, not_or] at hslash
        simpa [isAbsolute] using Ne.symm hslash.1
    have hbody : bodyComponents name = [.normal name] := by
      simp [bodyComponents, List.splitOn_eq_singleton hslash, segmentComponent, hne, hcur,
        hparent]
    refine ⟨habsolute, hbody, ?_⟩
    rw [components, Component.text, hbody, headComponent, habsolute,
      List.splitOn_eq_singleton hslash]
    simp [hcur]

end Components

/-- A settled list of components: the root, if there is one, in front of a body. -/
def Settled (parts : List Component) : Prop :=
  (∀ part ∈ parts, part.InBody) ∨ ∃ body, parts = .rootDir :: body ∧ ∀ part ∈ body, part.InBody

section Normalize

variable {a b p q path : Text} {part : Component} {parts rest : List Component}

theorem Settled.dropLast (h : Settled parts) (hlast : parts.getLast? ≠ some .rootDir) :
    Settled parts.dropLast := by
  rcases h with h | ⟨body, rfl, h⟩
  · exact .inl fun part hpart => h part (List.dropLast_subset _ hpart)
  · cases body with
    | nil => exact absurd rfl hlast
    | cons part body =>
      exact .inr ⟨_, List.dropLast_cons_cons, fun c hc => h c (List.dropLast_subset _ hc)⟩

theorem Settled.concat (h : Settled parts) (hpart : part.InBody) : Settled (parts ++ [part]) := by
  rcases h with h | ⟨body, rfl, h⟩
  · refine .inl fun c hc => ?_
    rcases List.mem_append.mp hc with hc | hc
    · exact h c hc
    · rwa [List.mem_singleton.mp hc]
  · refine .inr ⟨body ++ [part], rfl, fun c hc => ?_⟩
    rcases List.mem_append.mp hc with hc | hc
    · exact h c hc
    · rwa [List.mem_singleton.mp hc]

theorem Settled.normalizeStep (h : Settled parts) (hpart : part.InBody) :
    Settled (normalizeStep parts part) := by
  cases hpart with
  | parentDir =>
    rw [UnixPath.normalizeStep]
    split
    · rename_i hlast
      exact h.dropLast (by rw [hlast]; simp)
    · exact h
    · exact h.concat .parentDir
  | normal hne hcur hparent hslash => exact h.concat (.normal hne hcur hparent hslash)

theorem Settled.foldl_normalizeStep (h : Settled parts) (hrest : ∀ part ∈ rest, part.InBody) :
    Settled (rest.foldl UnixPath.normalizeStep parts) := by
  induction rest generalizing parts with
  | nil => exact h
  | cons part rest ih =>
    rw [List.forall_mem_cons] at hrest
    exact ih (h.normalizeStep hrest.1) hrest.2

theorem settled_normalizeComponents (path : Text) : Settled (normalizeComponents path) := by
  rw [normalizeComponents, components, List.foldl_append]
  refine Settled.foldl_normalizeStep ?_ fun part hpart => inBody_of_mem_bodyComponents hpart
  unfold headComponent
  split
  · exact .inr ⟨[], rfl, fun _ h => absurd h List.not_mem_nil⟩
  · split
    · exact .inl fun _ h => absurd h List.not_mem_nil
    · exact .inl fun _ h => absurd h List.not_mem_nil

theorem components_join_text (hpart : part.InBody) :
    components (join a part.text) = components a ++ [part] := by
  obtain ⟨habsolute, hbody, hparts⟩ := hpart.components_text
  by_cases ha : a = []
  · subst ha
    rw [join, if_neg (by simp [habsolute]), if_pos (.inl rfl), List.nil_append, hparts]
    rfl
  · rw [components, components, headComponent_join ha habsolute, bodyComponents_join habsolute,
      hbody, List.append_assoc]

theorem collect_concat (parts : List Component) (part : Component) :
    collect (parts ++ [part]) = join (collect parts) part.text := by
  rw [collect, collect, List.foldl_append]
  rfl

theorem components_collect_body (hparts : components (collect parts) = parts)
    (hrest : ∀ part ∈ rest, part.InBody) :
    components (collect (parts ++ rest)) = parts ++ rest := by
  induction rest using List.reverseRecOn with
  | nil => rwa [List.append_nil]
  | append_singleton rest part ih =>
    rw [← List.append_assoc, collect_concat,
      components_join_text (hrest part (by simp)),
      ih fun c hc => hrest c (List.mem_append_left _ hc)]

theorem Settled.components_collect (h : Settled parts) : components (collect parts) = parts := by
  rcases h with h | ⟨body, rfl, h⟩
  · exact @components_collect_body [] parts (by decide) h
  · exact @components_collect_body [.rootDir] body (by decide) h

/-- What a normal form reads as. -/
theorem components_normalizeLexically (path : Text) :
    components (normalizeLexically path) =
      if normalizeComponents path = [] then [.curDir] else normalizeComponents path := by
  unfold normalizeLexically
  split
  · decide
  · exact (settled_normalizeComponents path).components_collect

theorem Settled.not_mem_curDir (h : Settled parts) : Component.curDir ∉ parts := by
  rcases h with h | ⟨body, rfl, h⟩
  · intro hmem
    cases h _ hmem
  · intro hmem
    rcases List.mem_cons.mp hmem with he | hmem
    · cases he
    · cases h _ hmem

/-- A normal form never begins with a spelled out `.` and a separator. -/
theorem not_dot_slash_prefix_normalizeLexically (path : Text) :
    ¬ ['.', '/'] <+: normalizeLexically path := by
  intro h
  obtain ⟨tail, htail⟩ := h
  have hhead : components (normalizeLexically path) = .curDir :: bodyComponents tail := by
    rw [← htail]
    exact components_dot_slash tail
  rw [components_normalizeLexically] at hhead
  split at hhead
  · rename_i hnil
    rw [normalizeLexically, if_pos hnil] at htail
    exact absurd (congrArg List.length htail) (by simp)
  · have := (settled_normalizeComponents path).not_mem_curDir
    rw [hhead] at this
    exact this List.mem_cons_self

/-- A normal form that goes on where another ends settles to the same components and more. -/
theorem normalizeComponents_of_append
    (h : components (normalizeLexically p) = components (normalizeLexically q) ++ rest) :
    normalizeComponents p = normalizeComponents q ++ rest := by
  have hp := (settled_normalizeComponents p).not_mem_curDir
  have hq := (settled_normalizeComponents q).not_mem_curDir
  rw [components_normalizeLexically, components_normalizeLexically] at h
  split at h
  · rename_i hpnil
    split at h
    · rename_i hqnil
      rw [hpnil, hqnil]
      exact (List.cons.inj h).2
    · rename_i hqnil
      obtain ⟨first, tail, hq'⟩ := List.exists_cons_of_ne_nil hqnil
      rw [hq', List.cons_append, List.cons.injEq] at h
      exact absurd (by rw [hq', ← h.1]; exact List.mem_cons_self) hq
  · split at h
    · rw [h] at hp
      exact absurd List.mem_cons_self hp
    · exact h

/-- Two paths that settle to the same components have one normal form. -/
theorem normalizeLexically_congr (h : normalizeComponents p = normalizeComponents q) :
    normalizeLexically p = normalizeLexically q := by
  rw [normalizeLexically, normalizeLexically, h]

/-- A relative path settles its components against those of the path it is joined to. -/
theorem normalizeComponents_join (hb : isAbsolute b = false) :
    normalizeComponents (join a b) =
      (bodyComponents b).foldl UnixPath.normalizeStep (normalizeComponents a) := by
  by_cases ha : a = []
  · subst ha
    have hjoin : join [] b = b := by
      rw [join, if_neg (by simp [hb]), if_pos (.inl rfl), List.nil_append]
    rw [hjoin, normalizeComponents, components, List.foldl_append]
    rcases headComponent_of_not_isAbsolute hb with hhead | hhead
    · rw [hhead]
      rfl
    · rw [hhead]
      rfl
  · rw [normalizeComponents, normalizeComponents, components, components,
      headComponent_join ha hb, bodyComponents_join hb, ← List.append_assoc, List.foldl_append]

/-- Names settle where they stand. -/
theorem foldl_normalizeStep_of_isNormal (hrest : ∀ part ∈ rest, part.IsNormal) :
    rest.foldl UnixPath.normalizeStep parts = parts ++ rest := by
  induction rest generalizing parts with
  | nil => simp
  | cons part rest ih =>
    rw [List.forall_mem_cons] at hrest
    cases part with
    | normal name =>
      rw [List.foldl_cons, ih hrest.2]
      simp [UnixPath.normalizeStep]
    | rootDir | curDir | parentDir => exact absurd hrest.1 id

theorem exists_foldl_normalizeStep_rootDir {names : List Component}
    (hnames : ∀ part ∈ names, part.IsNormal) (hrest : ∀ part ∈ rest, part.InBody) :
    ∃ settled, rest.foldl UnixPath.normalizeStep (.rootDir :: names) = .rootDir :: settled ∧
      ∀ part ∈ settled, part.IsNormal := by
  induction rest generalizing names with
  | nil => exact ⟨names, rfl, hnames⟩
  | cons part rest ih =>
    rw [List.forall_mem_cons] at hrest
    rw [List.foldl_cons]
    cases hrest.1 with
    | @normal name hne hcur hparent hslash =>
      refine @ih (names ++ [.normal name]) (fun c hc => ?_) hrest.2
      rcases List.mem_append.mp hc with hc | hc
      · exact hnames c hc
      · rw [List.mem_singleton.mp hc]
        trivial
    | parentDir =>
      cases hlast : names.getLast? with
      | none =>
        rw [List.getLast?_eq_none_iff.mp hlast]
        exact ih (fun _ h => absurd h List.not_mem_nil) hrest.2
      | some last =>
        obtain ⟨front, rfl⟩ := List.getLast?_eq_some_iff.mp hlast
        have hfront : ∀ part ∈ front, part.IsNormal :=
          fun c hc => hnames c (List.mem_append_left _ hc)
        have hnormal : last.IsNormal := hnames last (List.mem_append_right _ List.mem_cons_self)
        cases last with
        | normal name =>
          have hstep : UnixPath.normalizeStep (.rootDir :: (front ++ [.normal name])) .parentDir =
              .rootDir :: front := by
            rw [← List.cons_append, UnixPath.normalizeStep, List.getLast?_concat]
            exact List.dropLast_concat
          rw [hstep]
          exact ih hfront hrest.2
        | rootDir | curDir | parentDir => exact absurd hnormal id

theorem exists_normalizeComponents_of_isAbsolute (h : isAbsolute path = true) :
    ∃ names, normalizeComponents path = .rootDir :: names ∧ ∀ part ∈ names, part.IsNormal := by
  rw [normalizeComponents, components, List.foldl_append, headComponent, if_pos h]
  exact @exists_foldl_normalizeStep_rootDir _ []
    (fun _ h => absurd h List.not_mem_nil) fun part hpart => inBody_of_mem_bodyComponents hpart

theorem exists_components_normalizeLexically_of_isAbsolute (h : isAbsolute path = true) :
    ∃ names, components (normalizeLexically path) = .rootDir :: names ∧
      ∀ part ∈ names, part.IsNormal := by
  obtain ⟨names, hparts, hnames⟩ := exists_normalizeComponents_of_isAbsolute h
  refine ⟨names, ?_, hnames⟩
  rw [components_normalizeLexically, hparts, if_neg (List.cons_ne_nil _ _)]

/-- Behind a given place, settling leaves no component that was neither there nor added. -/
theorem mem_drop_foldl_normalizeStep {n : ℕ}
    (h : part ∈ (rest.foldl UnixPath.normalizeStep parts).drop n) :
    part ∈ parts.drop n ∨ part ∈ rest := by
  induction rest generalizing parts with
  | nil => exact .inl h
  | cons next rest ih =>
    rcases ih h with hmem | hmem
    · have hpush : part ∈ (parts ++ [next]).drop n → part ∈ parts.drop n ∨ part ∈ next :: rest := by
        intro hmem
        rw [List.drop_append, List.mem_append] at hmem
        rcases hmem with hmem | hmem
        · exact .inl hmem
        · have := List.mem_singleton.mp (List.mem_of_mem_drop hmem)
          exact .inr (this ▸ List.mem_cons_self)
      cases next with
      | curDir => exact .inl hmem
      | rootDir | normal => exact hpush hmem
      | parentDir =>
        rw [UnixPath.normalizeStep] at hmem
        split at hmem
        · rw [List.dropLast_eq_take, List.drop_take] at hmem
          exact .inl (List.mem_of_mem_take hmem)
        · exact .inl hmem
        · exact hpush hmem
    · exact .inr (List.mem_cons_of_mem _ hmem)

end Normalize

section StripPrefix

variable {base path relative segment : Text} {rest : List Component} {segments : List Text}

theorem filterMap_dropParts (count : ℕ) (segments : List Text) :
    (dropParts count segments).filterMap segmentComponent =
      (segments.filterMap segmentComponent).drop count := by
  induction segments generalizing count with
  | nil => cases count <;> simp [dropParts]
  | cons segment segments ih =>
    cases count with
    | zero => simp [dropParts]
    | succ count =>
      rw [dropParts]
      cases hpart : segmentComponent segment with
      | none =>
        rw [if_pos (by simp), ih]
        simp [hpart]
      | some part =>
        rw [if_neg (by simp), ih]
        simp [hpart]

theorem dropParts_subset (count : ℕ) (segments : List Text) :
    dropParts count segments ⊆ segments := by
  induction segments generalizing count with
  | nil => cases count <;> simp [dropParts]
  | cons segment segments ih =>
    cases count with
    | zero => exact List.Subset.refl _
    | succ count =>
      rw [dropParts]
      split
      · exact List.subset_cons_of_subset _ (ih _)
      · exact List.subset_cons_of_subset _ (ih _)

theorem filterMap_dropWhile_isNone (segments : List Text) :
    (segments.dropWhile fun segment => (segmentComponent segment).isNone).filterMap
      segmentComponent = segments.filterMap segmentComponent := by
  induction segments with
  | nil => rfl
  | cons segment segments ih =>
    cases hpart : segmentComponent segment with
    | none =>
      rw [List.dropWhile_cons_of_pos (by simp [hpart]), ih, List.filterMap_cons_none hpart]
    | some part => rw [List.dropWhile_cons_of_neg (by simp [hpart])]

theorem filterMap_rdropWhile_isNone (segments : List Text) :
    (segments.rdropWhile fun segment => (segmentComponent segment).isNone).filterMap
      segmentComponent = segments.filterMap segmentComponent := by
  rw [List.rdropWhile, List.filterMap_reverse, filterMap_dropWhile_isNone,
    List.filterMap_reverse, List.reverse_reverse]

/-- The segments that stay of a path behind a base, with nothing blank at either end. -/
def segmentsBehind (path base : Text) : List Text :=
  ((dropParts (bodyComponents base).length (path.splitOn '/')).dropWhile
    fun segment => (segmentComponent segment).isNone).rdropWhile
      fun segment => (segmentComponent segment).isNone

theorem stripPrefix_eq_some_iff :
    stripPrefix path base = some relative ↔
      components base <+: components path ∧
        relative = ['/'].intercalate (segmentsBehind path base) := by
  unfold stripPrefix
  by_cases h : components base <+: components path
  · rw [if_pos h]
    simp only [Option.some.injEq, h, true_and, segmentsBehind]
    exact eq_comm
  · rw [if_neg h]
    simp [h]

theorem stripPrefix_eq_none_iff :
    stripPrefix path base = none ↔ ¬ components base <+: components path := by
  unfold stripPrefix
  by_cases h : components base <+: components path <;> simp [h]

theorem segmentsBehind_subset (path base : Text) :
    segmentsBehind path base ⊆ path.splitOn '/' := by
  intro segment hsegment
  have hstarted := (List.rdropWhile_prefix _ _).subset hsegment
  exact dropParts_subset _ _ ((List.dropWhile_suffix _).subset hstarted)

theorem filterMap_segmentsBehind (path base : Text) :
    (segmentsBehind path base).filterMap segmentComponent =
      (bodyComponents path).drop (bodyComponents base).length := by
  rw [segmentsBehind, filterMap_rdropWhile_isNone, filterMap_dropWhile_isNone,
    filterMap_dropParts]
  rfl

theorem bodyComponents_of_components_append (hbase : components base ≠ [])
    (h : components path = components base ++ rest) :
    bodyComponents path = bodyComponents base ++ rest := by
  have hbody : ∀ {t : Text} {part : Component} {parts : List Component},
      bodyComponents t = part :: parts → part ≠ .rootDir ∧ part ≠ .curDir := by
    intro t part parts ht
    have hpart : part.InBody := inBody_of_mem_bodyComponents (by rw [ht]; exact List.mem_cons_self)
    constructor
    · rintro rfl
      cases hpart
    · rintro rfl
      cases hpart
  have hhead : ∀ t : Text, headComponent t = none ∨ headComponent t = some .rootDir ∨
      headComponent t = some .curDir := by
    intro t
    unfold headComponent
    split
    · exact .inr (.inl rfl)
    · split
      · exact .inr (.inr rfl)
      · exact .inl rfl
  rw [components, components] at h
  rw [components] at hbase
  rcases hhead base with hb | hb | hb <;> rcases hhead path with hp | hp | hp <;>
    rw [hb, hp] at h <;> simp only [Option.toList_none, Option.toList_some, List.nil_append,
      List.cons_append, List.cons.injEq, true_and, reduceCtorEq, false_and] at h
  · exact h
  · cases hparts : bodyComponents base with
    | nil => simp [hb, hparts] at hbase
    | cons part parts =>
      rw [hparts, List.cons_append, List.cons.injEq] at h
      exact absurd h.1.symm (hbody hparts).1
  · cases hparts : bodyComponents base with
    | nil => simp [hb, hparts] at hbase
    | cons part parts =>
      rw [hparts, List.cons_append, List.cons.injEq] at h
      exact absurd h.1.symm (hbody hparts).2
  · exact absurd rfl (hbody h).1
  · exact h
  · exact absurd rfl (hbody h).2
  · exact h

theorem mem_intercalate_singleton {separator c : Char} {ts : List Text}
    (h : c ∈ [separator].intercalate ts) : c = separator ∨ ∃ t ∈ ts, c ∈ t := by
  induction ts with
  | nil => exact absurd h List.not_mem_nil
  | cons t ts ih =>
    cases ts with
    | nil =>
      rw [List.intercalate_singleton] at h
      exact .inr ⟨t, List.mem_cons_self, h⟩
    | cons u us =>
      rw [List.intercalate_cons_cons, List.mem_append, List.mem_append] at h
      rcases h with (h | h) | h
      · exact .inr ⟨t, List.mem_cons_self, h⟩
      · exact .inl (List.mem_singleton.mp h)
      · rcases ih h with h | ⟨v, hv, hc⟩
        · exact .inl h
        · exact .inr ⟨v, List.mem_cons_of_mem _ hv, hc⟩

theorem segmentComponent_head_segmentsBehind {first : Text} {more : List Text}
    (h : segmentsBehind path base = first :: more) : segmentComponent first ≠ none := by
  obtain ⟨tail, htail⟩ := List.rdropWhile_prefix
    (fun segment => (segmentComponent segment).isNone)
    ((dropParts (bodyComponents base).length (path.splitOn '/')).dropWhile
      fun segment => (segmentComponent segment).isNone)
  rw [segmentsBehind] at h
  rw [h, List.cons_append] at htail
  have hhead := List.head?_dropWhile_not (fun segment => (segmentComponent segment).isNone)
    (dropParts (bodyComponents base).length (path.splitOn '/'))
  rw [← htail] at hhead
  intro hnone
  simp [hnone] at hhead

/-- What is left behind a base is a relative path. -/
theorem not_isAbsolute_stripPrefix (hstrip : stripPrefix path base = some relative) :
    isAbsolute relative = false := by
  rw [(stripPrefix_eq_some_iff.mp hstrip).2]
  cases hsegments : segmentsBehind path base with
  | nil => rfl
  | cons first more =>
    have hblank := segmentComponent_head_segmentsBehind hsegments
    have hslash : '/' ∉ first := not_mem_of_mem_splitOn
      (segmentsBehind_subset path base (by rw [hsegments]; exact List.mem_cons_self))
    cases first with
    | nil => exact absurd rfl hblank
    | cons c first =>
      rw [List.mem_cons, not_or] at hslash
      cases more with
      | nil =>
        rw [List.intercalate_singleton]
        simpa [isAbsolute] using Ne.symm hslash.1
      | cons second more =>
        rw [List.intercalate_cons_cons]
        simpa [isAbsolute] using Ne.symm hslash.1

variable (hbase : components base ≠ []) (hparts : components path = components base ++ rest)
  (hstrip : stripPrefix path base = some relative)

include hbase hparts in
theorem filterMap_segmentsBehind_eq :
    (segmentsBehind path base).filterMap segmentComponent = rest := by
  rw [filterMap_segmentsBehind, bodyComponents_of_components_append hbase hparts,
    List.drop_left]

include hbase hparts hstrip

/-- What is left behind a base has the components that follow those of the base. -/
theorem bodyComponents_stripPrefix : bodyComponents relative = rest := by
  rw [(stripPrefix_eq_some_iff.mp hstrip).2, ← filterMap_segmentsBehind_eq hbase hparts]
  by_cases hnil : segmentsBehind path base = []
  · rw [hnil]
    decide
  · rw [bodyComponents, List.splitOn_intercalate '/' (fun segment hsegment =>
      not_mem_of_mem_splitOn (segmentsBehind_subset path base hsegment)) hnil]

/-- A character of what is left, other than a separator or a dot, stands in a name that follows
the base. -/
theorem exists_normal_of_mem_stripPrefix {c : Char} (hc : c ∈ relative) (hslash : c ≠ '/')
    (hdot : c ≠ '.') : ∃ name, .normal name ∈ rest ∧ c ∈ name := by
  rw [(stripPrefix_eq_some_iff.mp hstrip).2] at hc
  rcases mem_intercalate_singleton hc with hc | ⟨segment, hsegment, hc⟩
  · exact absurd hc hslash
  · refine ⟨segment, ?_, hc⟩
    rw [← filterMap_segmentsBehind_eq hbase hparts]
    refine List.mem_filterMap.mpr ⟨segment, hsegment, ?_⟩
    rw [segmentComponent, if_neg, if_neg]
    · rintro rfl
      simp [hdot] at hc
    · rintro (rfl | rfl)
      · simp at hc
      · simp [hdot] at hc

end StripPrefix

end Ezer.Lib.UnixPath
