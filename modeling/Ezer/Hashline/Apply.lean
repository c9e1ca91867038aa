import Ezer.Hashline.Types
import Mathlib.Data.List.Sort

/-!
# Applying edits to a content

All anchors of a request are validated against the lines of the content before
an edit is made. Edits must not overlap, and they are made from the last line to
the first. The result shows the edited regions with fresh anchors.
-/

namespace Ezer.Hashline

open Ezer.Lib

/-- The lines of a content, an empty one after a final line feed included. -/
def splitLines (content : Text) : List Text :=
  if content.isEmpty then [[]]
  else lines content ++ (if endsWithNewline content then [[]] else [])

/-- The hashes of an anchor. -/
def anchorSuffix (a : Anchor) : Text :=
  match a.context with
  | some ctx => a.localHash ++ ':' :: ctx
  | none => a.localHash

/-- The separator of an anchor and the text of its line. -/
def arrow : Char := Char.ofNat 0x2192

/-- A line after its number and hashes. -/
def anchoredLine (lineNum : ℕ) (suffix content : Text) : Text :=
  digits lineNum ++ ':' :: suffix ++ arrow :: content

/-- A line after its anchor. -/
def renderAnchoredLine (a : Anchor) (content : Text) : Text :=
  anchoredLine a.line (anchorSuffix a) content

/-- The lines from an offset on, at most so many of them, with their indices. -/
def selectLines (ls : List Text) (offset limit : Option ℕ) : List (Text × ℕ) :=
  let rest := ls.zipIdx.drop (offset.getD 1 - 1)
  match limit with
  | none => rest
  | some n => rest.take n

/-- Selected lines after their anchors, and without them. -/
def formatHashlineContent (fileContent : Text) (offset limit : Option ℕ)
    (scheme : AnchorScheme) : Text × Text :=
  let allLines := splitLines fileContent
  let anchors := generateAnchors scheme allLines
  let selected := selectLines allLines offset limit
  (joinLines (selected.map fun (line, i) =>
      match anchors[i]? with
      | none => []
      | some anchor => anchoredLine (i + 1) (anchorSuffix anchor) line),
    joinLines (selected.map fun (line, i) =>
      match anchors[i]? with
      | none => []
      | some _ => line))

/-- A label and an example of the anchors of a scheme. -/
def anchorFormatHint (scheme : AnchorScheme) : Text × Text :=
  let len := max 1 (min scheme.hashLen 4)
  let hash := ['a', 'b', 'c', 'd'].take len
  if (generateAnchors scheme [['x']]).head?.any fun a => a.context.isSome then
    ("LINE:HASH1:HASH2".toList, "22:".toList ++ hash ++ ':' :: ['r', 's', 't', 'u'].take len)
  else ("LINE:HASH".toList, "22:".toList ++ hash)

/-- Whether a text starts like an anchor before a separator. -/
def anchorBefore (separator s : Text) : Bool :=
  match splitOnce separator s with
  | none => false
  | some (before, _) =>
    (encodeUtf8 before).length ≤ 25 && before.contains ':' && !before.contains ' '

/-- Whether a line starts with an anchor. -/
def hasAnchorPrefix (line : Text) : Bool :=
  let s := trimStart line
  anchorBefore [arrow] s || anchorBefore ['-', '>'] s

/-- The number of the first line that starts with an anchor. -/
def detectAnchorPrefixInContent (content : Text) : Option ℕ :=
  ((lines content).findIdx? hasAnchorPrefix).map (· + 1)

/-- The error of a content that has anchors in it. -/
def anchorContentError (opLabel content : Text) (lineNum : ℕ) : HashlineEditError :=
  let ls := lines content
  let ctxStart := lineNum - 1 - 1
  let ctxEnd := min (lineNum + 1) ls.length
  let context := (List.range' ctxStart (ctxEnd - ctxStart)).map fun i =>
    (if i + 1 = lineNum then ">>>".toList else "   ".toList) ++ " line ".toList ++
      digits (i + 1) ++ ": ".toList ++ ls.getD i []
  { error := .invalidInput
    message := opLabel ++ " content contains anchor prefixes (e.g. \"22:abc:rst".toList ++
      arrow :: "\") copied from hashline_read output. The first offending line is line ".toList ++
      digits lineNum ++ ". Strip the anchor prefixes and the ".toList ++ arrow ::
      (" separator from every line, keeping only the actual file content, " ++
        "then retry.").toList
    current := some (ls.getD (lineNum - 1) [])
    context := some (joinLines context)
    contextStartLine := some (ctxStart + 1) }

/-- The only anchor with the given hashes. -/
def recoverAnchorBySuffix (suffix : Text) (ls : List Text) (scheme : AnchorScheme) :
    Option ParsedAnchor :=
  let found := (generateAnchors scheme ls).filter fun a =>
    match a.context, splitOnce [':'] suffix with
    | some ctx, some (localHash, sfxCtx) => a.localHash = localHash && ctx = sfxCtx
    | none, none => a.localHash = suffix
    | _, _ => false
  match found with
  | [a] => some ⟨a.line, a.localHash, a.context⟩
  | _ => none

/-- An anchor without the arrow and the text that may follow it. -/
def stripArrow (anchorStr : Text) : Text :=
  match (splitOnce [arrow] anchorStr).or (splitOnce ['-', '>'] anchorStr) with
  | some (before, _) => before
  | none => anchorStr

/-- The error of an anchor that cannot be read. -/
def malformedAnchorError (scheme : AnchorScheme) (anchorStr : Text) : HashlineEditError :=
  let (fmt, ex) := anchorFormatHint scheme
  { error := .invalidInput
    message := "Malformed anchor: \"".toList ++ anchorStr ++ "\". Expected format: \"".toList ++
      fmt ++ "\" (e.g. \"".toList ++ ex ++ "\").".toList
    requestedAnchor := some anchorStr }

/-- The lines around a stale anchor, after their anchors. -/
def staleContext (anchors : List Anchor) (ls : List Text) (line : ℕ) : List Text :=
  let ctxStart := line - 1 - 5
  let ctxEnd := min (line + 5) ls.length
  (List.range' ctxStart (ctxEnd - ctxStart)).filterMap fun i =>
    match anchors[i]?, ls[i]? with
    | some a, some l => some (renderAnchoredLine a l)
    | _, _ => none

/-- Decimal numbers in brackets. -/
def showLines (ns : List ℕ) : Text :=
  '[' :: [',', ' '].intercalate (ns.map digits) ++ [']']

/-- The error of a stale anchor. -/
def staleAnchorError (scheme : AnchorScheme) (anchorStr : Text) (parsed : ParsedAnchor)
    (ls : List Text) : HashlineEditError :=
  let anchors := generateAnchors scheme ls
  let idx := parsed.line - 1
  let current :=
    match anchors[idx]?, ls[idx]? with
    | some a, some l => some (renderAnchoredLine a l)
    | _, _ => none
  let context := some (joinLines (staleContext anchors ls parsed.line))
  let contextStartLine := some (parsed.line - 1 - 5 + 1)
  let stale := "Anchor stale at line ".toList ++ digits parsed.line
  match findShifted scheme parsed ls defaultSearchRadius with
  | .found newLine =>
    let fresh :=
      match (if newLine = 0 then none else anchors[newLine - 1]?).map anchorSuffix with
      | some suffix => digits newLine ++ ':' :: suffix
      | none => digits newLine
    { error := .anchorStale
      message := stale ++ ". Content appears to have shifted to line ".toList ++
        digits newLine ++ ". Retry with anchor \"".toList ++ fresh ++ "\".".toList
      requestedAnchor := some anchorStr
      current, context, contextStartLine
      shiftedTo := some newLine
      shiftedAnchor := some fresh }
  | .ambiguous candidates =>
    { error := .ambiguousAnchor
      message := stale ++ ". Multiple candidates at lines ".toList ++ showLines candidates ++
        ". Use the fresh anchors from the context below to retry your edit.".toList
      requestedAnchor := some anchorStr
      current, context, contextStartLine
      ambiguousCandidates := candidates }
  | .notFound =>
    { error := .anchorStale
      message := stale ++
        ". Use the fresh anchors from the context below to retry your edit.".toList
      requestedAnchor := some anchorStr
      current, context, contextStartLine }

/-- The index of the line of an anchor. -/
def validateAnchor (anchorStr : Text) (ls : List Text) (scheme : AnchorScheme) :
    Except HashlineEditError ℕ :=
  let anchorStr := stripArrow anchorStr
  match (ParsedAnchor.parse anchorStr).or (recoverAnchorBySuffix anchorStr ls scheme) with
  | none => .error (malformedAnchorError scheme anchorStr)
  | some parsed =>
    match validate scheme parsed ls with
    | .valid => .ok (parsed.line - 1)
    | .outOfRange =>
      .error
        { error := .anchorNotFound
          message := "Line ".toList ++ digits parsed.line ++
            " is out of range (file has ".toList ++ digits ls.length ++ " lines).".toList
          requestedAnchor := some anchorStr }
    | .stale => .error (staleAnchorError scheme anchorStr parsed ls)

/-- The index after the last line of a replaced range. -/
def resolveEnd (endAnchor : Option Text) (start : ℕ) (ls : List Text) (scheme : AnchorScheme) :
    Except HashlineEditError ℕ :=
  match endAnchor with
  | none => .ok (start + 1)
  | some ea =>
    match validateAnchor ea ls scheme with
    | .error e => .error e
    | .ok e =>
      if e < start then
        .error
          { error := .invalidInput
            message := "end_anchor line ".toList ++ digits (e + 1) ++
              " is before start anchor line ".toList ++ digits (start + 1) ++ ".".toList
            requestedAnchor := some ea }
      else .ok (e + 1)

/-- The index at which lines are inserted after an anchor. -/
def resolveInsertAt (anchor : Text) (ls : List Text) (scheme : AnchorScheme) :
    Except HashlineEditError ℕ :=
  if anchor = ['0', ':'] then .ok 0
  else if anchor = ['E', 'O', 'F'] then
    .ok (if 1 < ls.length ∧ ls.getLast?.any List.isEmpty then ls.length - 1 else ls.length)
  else (validateAnchor anchor ls scheme).map (· + 1)

/-- The lines that an operation replaces, and by which lines. -/
def resolveOp (op : HashlineOp) (originalIdx : ℕ) (ls : List Text) (scheme : AnchorScheme) :
    Except HashlineEditError ResolvedOp :=
  match op with
  | .replace anchor endAnchor content =>
    match validateAnchor anchor ls scheme with
    | .error e => .error e
    | .ok start =>
      match resolveEnd endAnchor start ls scheme with
      | .error e => .error e
      | .ok stop =>
        match detectAnchorPrefixInContent content with
        | some lineNum => .error (anchorContentError op.label content lineNum)
        | none => .ok ⟨originalIdx, start, stop, lines content⟩
  | .insertAfter anchor content =>
    match resolveInsertAt anchor ls scheme with
    | .error e => .error e
    | .ok insertAt =>
      match detectAnchorPrefixInContent content with
      | some lineNum => .error (anchorContentError op.label content lineNum)
      | none =>
        .ok ⟨originalIdx, insertAt, insertAt, if content.isEmpty then [[]] else lines content⟩
  | .write _ =>
    .error
      { error := .invalidInput
        message := ("Write op must be the only operation in a batch. Either use write alone " ++
          "(to replace the entire file) or use replace/insert_after ops without write.").toList }

end Ezer.Hashline
