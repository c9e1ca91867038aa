import Ezer.Lib.Paths

/-!
# The spellings a path rule is matched against

A rule for files is matched against the normalized absolute form of a path and,
when the path lies under the working directory, against its relative spellings.
These stay under the working directory and name the same path as long as no
name below it holds a backslash, which the match text turns into a separator.
-/

namespace Ezer.Permission

open Ezer.Lib Ezer.Lib.UnixPath

/-- A path whose first part the tools expand to the home directory. -/
def isTildePath (path : Text) : Bool :=
  match (components path).head? with
  | some (.normal first) => ['~'].isPrefixOf first
  | _ => false

/-- The text a path is matched by: every backslash is a separator. -/
def pathMatchString (path : Text) : Text :=
  path.map fun c => if c = '\\' then '/' else c

/-- A path with a parent component. -/
def pathHasParentDir (path : Text) : Bool :=
  (components path).any (· == .parentDir)

/-- A path joined to the working directory and normalized; a tilde path is kept as it is. -/
def absoluteNormalizedPath (path : Text) (cwd : Option Text) : Text :=
  if isTildePath path then path
  else
    let joined := match cwd with
      | some cwd => if isAbsolute path then path else join cwd path
      | none => path
    normalizeLexically joined

/-- The two spellings of what is left of a path behind the working directory. -/
def relativeForms (relative : Text) : List Text :=
  let relS := pathMatchString relative
  if relS = [] ∨ relS = ['.'] then [['.'], ['.', '/']]
  else ['.' :: '/' :: relS, relS]

/-- The spellings of a path that a path rule is matched against. -/
def pathMatchForms (path : Text) (cwd : Option Text) : List Text :=
  let abs := absoluteNormalizedPath path cwd
  pathMatchString abs ::
    match cwd with
    | some cwd =>
      match stripPrefix abs (normalizeLexically cwd) with
      | some relative => relativeForms relative
      | none => []
    | none =>
      if !isAbsolute abs && !pathHasParentDir abs && !isTildePath abs then
        let lexS := pathMatchString abs
        if lexS ≠ ['.'] ∧ lexS ≠ [] then ['.' :: '/' :: lexS] else []
      else []

/-- A compiled pattern matches a text; a pattern that did not compile matches none. -/
def globMatches (text : Text) : Option (Text → Bool) → Bool
  | some pattern => pattern text
  | none => false

/-- A path rule matches a path when its pattern matches one of the spellings. -/
def pathContextMatches (path : Text) (matcher : Option (Text → Bool)) (cwd : Option Text) : Bool :=
  (pathMatchForms path cwd).any fun text => globMatches text matcher

/-- The spellings of a path relative to a working directory. -/
def relativeSpellings (path cwd : Text) : List Text := (pathMatchForms path (some cwd)).tail

/-- A path, joined to a working directory and normalized, goes on by names where the
normalized working directory ends. -/
def LiesUnder (path cwd : Text) : Prop :=
  ∃ names, components (normalizeLexically (join cwd path)) =
    components (normalizeLexically cwd) ++ names ∧ ∀ part ∈ names, part.IsNormal

/-- A pattern that matches only texts that begin with `./`. -/
def IsRooted (pattern : Text → Bool) : Prop := ∀ text, pattern text = true → ['.', '/'] <+: text

/-- What the relative spellings of a path are relied on for. -/
structure SpellingsStayUnder (path cwd : Text) : Prop where
  /-- A relative spelling is given only for a path under the working directory. -/
  liesUnder : relativeSpellings path cwd ≠ [] → LiesUnder path cwd
  /-- A tilde path has no relative spelling. -/
  notTilde : isTildePath path = true → relativeSpellings path cwd = []
  /-- Every relative spelling names the path it was made from. -/
  samePath : ∀ form ∈ relativeSpellings path cwd,
    normalizeLexically (join cwd form) = normalizeLexically (join cwd path)
  /-- A rooted rule matches only paths under the working directory. -/
  rooted : ∀ pattern, IsRooted pattern →
    pathContextMatches path (some pattern) (some cwd) = true → LiesUnder path cwd

/-- A name without a backslash. -/
def IsPlain (part : Component) : Prop := ∃ name, part = .normal name ∧ '\\' ∉ name

/-- The paths whose spellings can be relied on. A tilde path must not start with the
components of the working directory; of another path, everything below the working directory
must be names without a backslash, and outside of it the path must not begin with `.\`. -/
def SpellsPlainly (path cwd : Text) : Prop :=
  if isTildePath path then ¬ components (normalizeLexically cwd) <+: components path
  else
    (∀ rest, components (normalizeLexically (join cwd path)) =
      components (normalizeLexically cwd) ++ rest → ∀ part ∈ rest, IsPlain part) ∧
    (¬ components (normalizeLexically cwd) <+: components (normalizeLexically (join cwd path)) →
      ¬ ['.', '\\'] <+: normalizeLexically (join cwd path))

section Spellings

variable {path cwd text relative : Text} {rest : List Component}

theorem mem_pathMatchString {c : Char} (h : c ∈ pathMatchString text) :
    c ≠ '\\' ∧ (c = '/' ∨ c ∈ text) := by
  obtain ⟨d, hd, rfl⟩ := List.mem_map.mp h
  by_cases hback : d = '\\'
  · rw [if_pos hback]
    exact ⟨by decide, .inl rfl⟩
  · rw [if_neg hback]
    exact ⟨hback, .inr hd⟩

theorem pathMatchString_of_not_mem (h : '\\' ∉ text) : pathMatchString text = text := by
  rw [pathMatchString]
  refine List.map_congr_left (g := id) (fun c hc => if_neg ?_) |>.trans (List.map_id _)
  rintro rfl
  exact h hc

theorem absoluteNormalizedPath_some (htilde : isTildePath path = false) :
    absoluteNormalizedPath path (some cwd) = normalizeLexically (join cwd path) := by
  rw [absoluteNormalizedPath, htilde, if_neg Bool.false_ne_true]
  by_cases habsolute : isAbsolute path
  · simp [habsolute, join]
  · simp [habsolute]

theorem absoluteNormalizedPath_of_isTildePath (htilde : isTildePath path = true) :
    absoluteNormalizedPath path (some cwd) = path := by
  rw [absoluteNormalizedPath, if_pos htilde]

theorem relativeSpellings_eq :
    relativeSpellings path cwd =
      match stripPrefix (absoluteNormalizedPath path (some cwd)) (normalizeLexically cwd) with
      | some relative => relativeForms relative
      | none => [] := rfl

theorem relativeForms_ne_nil (relative : Text) : relativeForms relative ≠ [] := by
  unfold relativeForms
  dsimp only
  split <;> simp

/-- There are relative spellings exactly when the components of the working directory come
first. -/
theorem relativeSpellings_eq_nil_iff :
    relativeSpellings path cwd = [] ↔
      ¬ components (normalizeLexically cwd) <+:
        components (absoluteNormalizedPath path (some cwd)) := by
  rw [← stripPrefix_eq_none_iff, relativeSpellings_eq]
  cases stripPrefix (absoluteNormalizedPath path (some cwd)) (normalizeLexically cwd) with
  | none => simp
  | some relative => simp [relativeForms_ne_nil]

theorem components_normalizeLexically_ne_nil (cwd : Text) :
    components (normalizeLexically cwd) ≠ [] := by
  rw [components_normalizeLexically]
  split
  · exact List.cons_ne_nil _ _
  · assumption

theorem dot_prefix_pathMatchString (h : ['.', '/'] <+: pathMatchString text) :
    ['.', '/'] <+: text ∨ ['.', '\\'] <+: text := by
  match text with
  | [] => simp [pathMatchString] at h
  | [c] => simpa [pathMatchString] using h.length_le
  | c :: d :: text =>
    rw [pathMatchString, List.map_cons, List.map_cons, List.cons_prefix_cons,
      List.cons_prefix_cons] at h
    obtain ⟨hc, hd, -⟩ := h
    have hdot : c = '.' := by
      by_cases hback : c = '\\'
      · rw [if_pos hback] at hc
        exact absurd hc (by decide)
      · rw [if_neg hback] at hc
        exact hc.symm
    by_cases hback : d = '\\'
    · rw [hdot, hback]
      exact .inr ⟨text, rfl⟩
    · rw [if_neg hback] at hd
      rw [hdot, ← hd]
      exact .inl ⟨text, rfl⟩

theorem dotSlash_pathMatchString (h : ['.', '\\'] <+: text) :
    ['.', '/'] <+: pathMatchString text := by
  obtain ⟨tail, rfl⟩ := h
  exact ⟨pathMatchString tail, by simp [pathMatchString]⟩

theorem not_dot_prefix_of_isTildePath (h : isTildePath path = true) :
    ¬ ['.', '/'] <+: pathMatchString path := by
  intro hdot
  rcases dot_prefix_pathMatchString hdot with ⟨tail, rfl⟩ | ⟨tail, rfl⟩
  · have hhead := components_dot_slash tail
    rw [isTildePath, List.cons_append, List.cons_append, List.nil_append, hhead] at h
    exact absurd h Bool.false_ne_true
  · have hname : ∃ first rest, components ('.' :: '\\' :: tail) =
        .normal ('.' :: '\\' :: first) :: rest := by
      cases hsplit : tail.splitOn '/' with
      | nil => exact absurd hsplit (List.splitOn_ne_nil _ _)
      | cons first more =>
        refine ⟨first, more.filterMap segmentComponent, ?_⟩
        simp [components, headComponent, bodyComponents, isAbsolute,
          List.splitOn_cons_eq_if_modifyHead, hsplit, segmentComponent]
    obtain ⟨first, rest, hname⟩ := hname
    rw [isTildePath, List.cons_append, List.cons_append, List.nil_append, hname] at h
    exact absurd h (by simp)

theorem normalizeLexically_join_of_names {form : Text} (habsolute : isAbsolute form = false)
    (hform : bodyComponents form = rest) (hnames : ∀ part ∈ rest, part.IsNormal)
    (hparts : components (normalizeLexically (join cwd path)) =
      components (normalizeLexically cwd) ++ rest) :
    normalizeLexically (join cwd form) = normalizeLexically (join cwd path) := by
  refine normalizeLexically_congr ?_
  rw [normalizeComponents_join habsolute, hform, foldl_normalizeStep_of_isNormal hnames,
    normalizeComponents_of_append hparts]

/-- Without a backslash among the names, a form is relative and has just these names. -/
theorem bodyComponents_of_mem_relativeForms {abs form : Text}
    (hparts : components abs = components (normalizeLexically cwd) ++ rest)
    (hstrip : stripPrefix abs (normalizeLexically cwd) = some relative)
    (hplain : ∀ part ∈ rest, IsPlain part) (hform : form ∈ relativeForms relative) :
    isAbsolute form = false ∧ bodyComponents form = rest := by
  have hbase := components_normalizeLexically_ne_nil cwd
  have hbody := bodyComponents_stripPrefix hbase hparts hstrip
  have hback : '\\' ∉ relative := by
    intro hmem
    obtain ⟨name, hname, hc⟩ := exists_normal_of_mem_stripPrefix hbase hparts hstrip hmem
      (by decide) (by decide)
    obtain ⟨plain, he, hnot⟩ := hplain _ hname
    cases he
    exact hnot hc
  rw [relativeForms, pathMatchString_of_not_mem hback] at hform
  split at hform
  · rename_i hdot
    have hrest : rest = [] := by
      rw [← hbody]
      rcases hdot with rfl | rfl
      · exact bodyComponents_nil
      · exact bodyComponents_dot
    rw [hrest]
    rcases List.mem_pair.mp hform with rfl | rfl
    · decide
    · decide
  · rcases List.mem_pair.mp hform with rfl | rfl
    · exact ⟨rfl, by rw [bodyComponents_dot_slash, hbody]⟩
    · exact ⟨not_isAbsolute_stripPrefix hstrip, hbody⟩

theorem exists_mem_relativeForms (relative : Text) :
    ∃ form ∈ relativeForms relative, isAbsolute form = false ∧ '\\' ∉ form := by
  unfold relativeForms
  dsimp only
  split
  · exact ⟨['.'], List.mem_cons_self, by decide⟩
  · refine ⟨_, List.mem_cons_self, rfl, fun hmem => ?_⟩
    rcases List.mem_cons.mp hmem with he | hmem
    · exact absurd he (by decide)
    · rcases List.mem_cons.mp hmem with he | hmem
      · exact absurd he (by decide)
      · exact (mem_pathMatchString hmem).1 rfl

theorem isPlain_of_samePath {form : Text} (habsolute : isAbsolute form = false)
    (hback : '\\' ∉ form)
    (hsame : normalizeLexically (join cwd form) = normalizeLexically (join cwd path))
    (hparts : components (normalizeLexically (join cwd path)) =
      components (normalizeLexically cwd) ++ rest) (hnames : ∀ part ∈ rest, part.IsNormal) :
    ∀ part ∈ rest, IsPlain part := by
  intro part hpart
  rw [← hsame] at hparts
  have hsettled := normalizeComponents_of_append hparts
  rw [normalizeComponents_join habsolute] at hsettled
  have hmem : part ∈ ((bodyComponents form).foldl normalizeStep (normalizeComponents cwd)).drop
      (normalizeComponents cwd).length := by
    rw [hsettled, List.drop_left]
    exact hpart
  rcases mem_drop_foldl_normalizeStep hmem with hmem | hmem
  · rw [List.drop_length] at hmem
    exact absurd hmem List.not_mem_nil
  · cases part with
    | normal name =>
      exact ⟨name, rfl, fun hc => hback (mem_of_normal_mem_bodyComponents hmem hc)⟩
    | rootDir | curDir | parentDir => exact absurd (hnames _ hpart) id

theorem liesUnder_of_isPlain (hparts : components (normalizeLexically (join cwd path)) =
      components (normalizeLexically cwd) ++ rest) (hplain : ∀ part ∈ rest, IsPlain part) :
    LiesUnder path cwd := by
  refine ⟨rest, hparts, fun part hpart => ?_⟩
  obtain ⟨name, rfl, -⟩ := hplain part hpart
  trivial

/-- A rooted rule that matches goes through a relative spelling, or the absolute form itself
begins with `./`. -/
theorem pathContextMatches_rooted {pattern : Text → Bool} (hrooted : IsRooted pattern)
    (h : pathContextMatches path (some pattern) (some cwd) = true) :
    ['.', '/'] <+: pathMatchString (absoluteNormalizedPath path (some cwd)) ∨
      relativeSpellings path cwd ≠ [] := by
  rw [pathContextMatches, List.any_eq_true] at h
  obtain ⟨form, hform, hmatch⟩ := h
  rcases List.mem_cons.mp hform with rfl | hform
  · exact .inl (hrooted _ hmatch)
  · exact .inr (List.ne_nil_of_mem hform)

theorem spellingsStayUnder_of_isTildePath (htilde : isTildePath path = true)
    (h : ¬ components (normalizeLexically cwd) <+: components path) :
    SpellingsStayUnder path cwd := by
  have hnil : relativeSpellings path cwd = [] := by
    rw [relativeSpellings_eq_nil_iff, absoluteNormalizedPath_of_isTildePath htilde]
    exact h
  refine ⟨fun hne => absurd hnil hne, fun _ => hnil, ?_, fun pattern hrooted hmatch => ?_⟩
  · rw [hnil]
    exact fun form hform => absurd hform List.not_mem_nil
  · rcases pathContextMatches_rooted hrooted hmatch with hdot | hne
    · rw [absoluteNormalizedPath_of_isTildePath htilde] at hdot
      exact absurd hdot (not_dot_prefix_of_isTildePath htilde)
    · exact absurd hnil hne

theorem spellingsStayUnder_of_isPlain (htilde : isTildePath path = false)
    (hplain : ∀ rest, components (normalizeLexically (join cwd path)) =
      components (normalizeLexically cwd) ++ rest → ∀ part ∈ rest, IsPlain part)
    (hdot : ¬ components (normalizeLexically cwd) <+:
      components (normalizeLexically (join cwd path)) →
        ¬ ['.', '\\'] <+: normalizeLexically (join cwd path)) :
    SpellingsStayUnder path cwd := by
  have habs := @absoluteNormalizedPath_some path cwd htilde
  have hunder : components (normalizeLexically cwd) <+:
      components (normalizeLexically (join cwd path)) → LiesUnder path cwd := by
    rintro ⟨rest, hrest⟩
    exact liesUnder_of_isPlain hrest.symm (hplain rest hrest.symm)
  have hspelled : relativeSpellings path cwd ≠ [] → LiesUnder path cwd := by
    intro hne
    rw [ne_eq, relativeSpellings_eq_nil_iff, not_not, habs] at hne
    exact hunder hne
  refine ⟨hspelled, fun h => absurd h (by simp [htilde]), fun form hform => ?_,
    fun pattern hrooted hmatch => ?_⟩
  · rw [relativeSpellings_eq, habs] at hform
    cases hstrip : stripPrefix (normalizeLexically (join cwd path)) (normalizeLexically cwd) with
    | none =>
      rw [hstrip] at hform
      exact absurd hform List.not_mem_nil
    | some relative =>
      rw [hstrip] at hform
      obtain ⟨rest, hrest⟩ := (stripPrefix_eq_some_iff.mp hstrip).1
      have hnames := hplain rest hrest.symm
      obtain ⟨habsolute, hbody⟩ := bodyComponents_of_mem_relativeForms hrest.symm hstrip hnames hform
      refine normalizeLexically_join_of_names habsolute hbody (fun part hpart => ?_) hrest.symm
      obtain ⟨name, rfl, -⟩ := hnames part hpart
      trivial
  · rcases pathContextMatches_rooted hrooted hmatch with hform | hne
    · rw [habs] at hform
      by_contra hnot
      rcases dot_prefix_pathMatchString hform with hslash | hback
      · exact not_dot_slash_prefix_normalizeLexically _ hslash
      · exact hdot (fun hprefixed => hnot (hunder hprefixed)) hback
    · exact hspelled hne

theorem SpellingsStayUnder.isPlain (h : SpellingsStayUnder path cwd)
    (htilde : isTildePath path = false)
    (hparts : components (normalizeLexically (join cwd path)) =
      components (normalizeLexically cwd) ++ rest) : ∀ part ∈ rest, IsPlain part := by
  have habs := @absoluteNormalizedPath_some path cwd htilde
  have hsome : ∃ relative, stripPrefix (normalizeLexically (join cwd path))
      (normalizeLexically cwd) = some relative :=
    ⟨_, stripPrefix_eq_some_iff.mpr ⟨⟨rest, hparts.symm⟩, rfl⟩⟩
  obtain ⟨relative, hstrip⟩ := hsome
  have hspellings : relativeSpellings path cwd = relativeForms relative := by
    rw [relativeSpellings_eq, habs, hstrip]
  have hnames : ∀ part ∈ rest, part.IsNormal := by
    obtain ⟨names, hsame, hnames⟩ := h.liesUnder (by
      rw [hspellings]
      exact relativeForms_ne_nil relative)
    rw [hparts, List.append_cancel_left_eq] at hsame
    rwa [hsame]
  obtain ⟨form, hform, habsolute, hback⟩ := exists_mem_relativeForms relative
  exact isPlain_of_samePath habsolute hback
    (h.samePath form (by rwa [hspellings])) hparts hnames

theorem SpellingsStayUnder.not_dot_backslash (h : SpellingsStayUnder path cwd)
    (htilde : isTildePath path = false)
    (hnot : ¬ components (normalizeLexically cwd) <+:
      components (normalizeLexically (join cwd path))) :
    ¬ ['.', '\\'] <+: normalizeLexically (join cwd path) := by
  intro hdot
  have hrooted : IsRooted ['.', '/'].isPrefixOf := fun _ h => List.isPrefixOf_iff_prefix.mp h
  obtain ⟨names, hparts, -⟩ := h.rooted _ hrooted (by
    rw [pathContextMatches, List.any_eq_true]
    refine ⟨_, List.mem_cons_self, ?_⟩
    rw [absoluteNormalizedPath_some htilde]
    exact List.isPrefixOf_iff_prefix.mpr (dotSlash_pathMatchString hdot))
  exact hnot ⟨names, hparts.symm⟩

/-- The relative spellings of a path stay under the working directory and name the same path
exactly when the path spells plainly. -/
theorem spellingsStayUnder_iff (path cwd : Text) :
    SpellingsStayUnder path cwd ↔ SpellsPlainly path cwd := by
  unfold SpellsPlainly
  by_cases htilde : isTildePath path = true
  · rw [if_pos htilde]
    refine ⟨fun h => ?_, spellingsStayUnder_of_isTildePath htilde⟩
    have hnil := h.notTilde htilde
    rwa [relativeSpellings_eq_nil_iff, absoluteNormalizedPath_of_isTildePath htilde] at hnil
  · rw [if_neg htilde]
    rw [Bool.not_eq_true] at htilde
    constructor
    · intro h
      exact ⟨fun rest hparts => h.isPlain htilde hparts, h.not_dot_backslash htilde⟩
    · rintro ⟨hplain, hdot⟩
      exact spellingsStayUnder_of_isPlain htilde hplain hdot

/-- A file below `/w` whose one name is `a\..\..\etc` is spelled as a way out of `/w`. -/
theorem backslashName_spelled_outside :
    ¬ SpellingsStayUnder "a\\..\\..\\etc".toList "/w".toList := by
  intro h
  have hsame := h.samePath "a/../../etc".toList (by decide +kernel)
  exact absurd hsame (by decide +kernel)

/-- Under an absolute working directory only a backslash in a name below it misleads. -/
theorem spellsPlainly_iff_of_isAbsolute (hcwd : isAbsolute cwd = true) :
    SpellsPlainly path cwd ↔ isTildePath path = true ∨
      ∀ rest, components (normalizeLexically (join cwd path)) =
        components (normalizeLexically cwd) ++ rest →
          ∀ name, .normal name ∈ rest → '\\' ∉ name := by
  obtain ⟨above, hcwdParts, -⟩ := exists_components_normalizeLexically_of_isAbsolute hcwd
  unfold SpellsPlainly
  by_cases htilde : isTildePath path = true
  · rw [if_pos htilde]
    refine ⟨fun _ => .inl htilde, fun _ hcwdFirst => ?_⟩
    obtain ⟨rest, hrest⟩ := hcwdFirst
    rw [isTildePath, ← hrest, hcwdParts] at htilde
    exact absurd htilde Bool.false_ne_true
  · rw [if_neg htilde, or_iff_right htilde]
    obtain ⟨names, hparts, hnames⟩ :=
      exists_components_normalizeLexically_of_isAbsolute (isAbsolute_join hcwd path)
    constructor
    · rintro ⟨hplain, -⟩ rest hrest name hname
      obtain ⟨plain, he, hback⟩ := hplain rest hrest _ hname
      cases he
      exact hback
    · intro hback
      refine ⟨fun rest hrest part hpart => ?_, fun _ hdot => ?_⟩
      · have hnormal : part.IsNormal := by
          refine hnames part ?_
          rw [hparts, hcwdParts, List.cons_append, List.cons.injEq] at hrest
          rw [hrest.2]
          exact List.mem_append_right _ hpart
        cases part with
        | normal name => exact ⟨name, rfl, hback rest hrest name hpart⟩
        | rootDir | curDir | parentDir => exact absurd hnormal id
      · obtain ⟨tail, htail⟩ := hdot
        have habsolute := isAbsolute_of_components hparts
        rw [← htail] at habsolute
        exact absurd habsolute Bool.false_ne_true

end Spellings

end Ezer.Permission
