import Ezer.Hashline.Hash
import Ezer.Lib.Decimal
import Ezer.Lib.Split

/-!
# Anchor schemes

An anchor names a line of a file by its number and a hash of its text. Two of
the three schemes add a hash of the lines around it: of the chunk that contains
the line, or of the lines from the last checkpoint to the line.
-/

namespace Ezer.Hashline

open Ezer.Lib

/-- The anchor of a line. -/
structure Anchor where
  line : ℕ
  localHash : Text
  context : Option Text

/-- An anchor read from a text. -/
structure ParsedAnchor where
  line : ℕ
  localHash : Text
  context : Option Text

/-- The outcome of validating an anchor. -/
inductive ValidationResult where
  | valid
  | stale
  | outOfRange
  deriving DecidableEq

/-- The outcome of a search for the line of a stale anchor. -/
inductive ShiftResult where
  | found (newLine : ℕ)
  | ambiguous (candidates : List ℕ)
  | notFound

/-- The admitted lengths of a hash. -/
structure HashLen where
  len : ℕ
  pos : 0 < len
  le_four : len ≤ 4

/-- The schemes with their admitted parameters. -/
inductive AnchorScheme where
  | contentOnly (hashLen : HashLen)
  | chunkFingerprint (hashLen : HashLen) (chunkSize : ℕ) (pos : 0 < chunkSize)
  | checkpointChain (hashLen : HashLen) (checkpointInterval : ℕ) (pos : 0 < checkpointInterval)

/-- The name of a scheme. -/
def AnchorScheme.name : AnchorScheme → Text
  | .contentOnly _ => "content_only_v1".toList
  | .chunkFingerprint _ _ _ => "chunk_v1".toList
  | .checkpointChain _ _ _ => "checkpoint_v1".toList

/-- The number of letters of a hash. -/
def AnchorScheme.hashLen : AnchorScheme → ℕ
  | .contentOnly h => h.len
  | .chunkFingerprint h _ _ => h.len
  | .checkpointChain h _ _ => h.len

/-- Read an anchor. -/
def ParsedAnchor.parse (s : Text) : Option ParsedAnchor :=
  match splitN ':' 3 s with
  | lineStr :: localHash :: rest =>
    if lineStr.isEmpty || localHash.isEmpty then none
    else
      match parseUsize lineStr with
      | none => none
      | some line =>
        if line = 0 then none
        else if !localHash.all isAsciiLowercase then none
        else
          match rest.head? with
          | none => some ⟨line, localHash, none⟩
          | some ctx =>
            if ctx.isEmpty || !ctx.all isAsciiLowercase then none
            else some ⟨line, localHash, some ctx⟩
  | _ => none

/-- The lines of a range, if there are that many. -/
def getRange (ls : List Text) (start stop : ℕ) : Option (List Text) :=
  if start ≤ stop ∧ stop ≤ ls.length then some ((ls.drop start).take (stop - start)) else none

/-- Hash the lines of a range one after another. -/
def mixLines (seed : UInt32) (ls : List Text) : UInt32 :=
  ls.foldl (fun h line => fnvStep h (lineHash line)) seed

/-- The hash from which that of a chunk starts. -/
def chunkSeed : UInt32 := fnv1a32 [99, 104, 117, 110, 107]

/-- The hash from which that of a chain starts. -/
def ckptSeed : UInt32 := fnv1a32 [99, 107, 112, 116]

/-- The fingerprint of the chunk with a line. -/
def chunkFingerprint (hashLen chunkSize : ℕ) (ls : List Text) (lineIdx : ℕ) : Text :=
  let chunkStart := lineIdx / chunkSize * chunkSize
  let chunkEnd := min (chunkStart + chunkSize) ls.length
  encodeHash (mixLines chunkSeed ((getRange ls chunkStart chunkEnd).getD [])) hashLen

/-- The fingerprint of the lines from the last checkpoint to a line. -/
def checkpointFingerprint (hashLen interval : ℕ) (ls : List Text) (lineIdx : ℕ) : Text :=
  let checkpointStart := lineIdx / interval * interval
  encodeHash (mixLines ckptSeed ((getRange ls checkpointStart (lineIdx + 1)).getD [])) hashLen

/-- The fingerprints of all chunks. -/
def chunkFingerprints (hashLen chunkSize : ℕ) (ls : List Text) : List Text :=
  (List.range ((ls.length + chunkSize - 1) / chunkSize)).map fun chunkIdx =>
    let start := chunkIdx * chunkSize
    let stop := min (start + chunkSize) ls.length
    encodeHash (mixLines chunkSeed ((getRange ls start stop).getD [])) hashLen

/-- The anchors of some lines from an index on, after a chain. -/
def chainAnchors (hashLen interval : ℕ) : ℕ → UInt32 → List Text → List Anchor
  | _, _, [] => []
  | i, chain, line :: ls =>
    let chain := if i % interval = 0 then ckptSeed else chain
    let lh := lineHash line
    let chain := fnvStep chain lh
    ⟨i + 1, encodeHash lh hashLen, some (encodeHash chain hashLen)⟩ ::
      chainAnchors hashLen interval (i + 1) chain ls

/-- The anchors of all lines. -/
def generateAnchors : AnchorScheme → List Text → List Anchor
  | .contentOnly h, ls =>
    ls.mapIdx fun i line => ⟨i + 1, encodeHash (lineHash line) h.len, none⟩
  | .chunkFingerprint h chunkSize _, ls =>
    let chunkFps := chunkFingerprints h.len chunkSize ls
    ls.mapIdx fun i line =>
      ⟨i + 1, encodeHash (lineHash line) h.len, chunkFps[i / chunkSize]?⟩
  | .checkpointChain h interval _, ls => chainAnchors h.len interval 0 ckptSeed ls

/-- Validate an anchor whose context is the given fingerprint of its line. -/
def validateWithContext (fingerprint : ℕ → Text) (hashLen : ℕ) (anchor : ParsedAnchor)
    (ls : List Text) : ValidationResult :=
  if anchor.line = 0 then .outOfRange
  else
    match ls[anchor.line - 1]? with
    | none => .outOfRange
    | some line =>
      if anchor.localHash ≠ encodeHash (lineHash line) hashLen then .stale
      else
        match anchor.context with
        | none => .stale
        | some expectedCtx =>
          if expectedCtx ≠ fingerprint (anchor.line - 1) then .stale else .valid

/-- Validate an anchor against the lines of a file. -/
def validate : AnchorScheme → ParsedAnchor → List Text → ValidationResult
  | .contentOnly h, anchor, ls =>
    if anchor.line = 0 then .outOfRange
    else
      match ls[anchor.line - 1]? with
      | none => .outOfRange
      | some line =>
        if anchor.localHash = encodeHash (lineHash line) h.len then .valid else .stale
  | .chunkFingerprint h chunkSize _, anchor, ls =>
    validateWithContext (chunkFingerprint h.len chunkSize ls) h.len anchor ls
  | .checkpointChain h interval _, anchor, ls =>
    validateWithContext (checkpointFingerprint h.len interval ls) h.len anchor ls

/-- Whether a stale anchor may have moved to the line of an index. -/
def isCandidate (scheme : AnchorScheme) (anchor : ParsedAnchor) (ls : List Text)
    (idx : ℕ) : Bool :=
  if idx = anchor.line - 1 then false
  else
    match ls[idx]? with
    | none => false
    | some line =>
      let localHash := encodeHash (lineHash line) scheme.hashLen
      if localHash ≠ anchor.localHash then false
      else
        match anchor.context with
        | none => true
        | some ctx => validate scheme ⟨idx + 1, localHash, some ctx⟩ ls = .valid

/-- Look for the line of a stale anchor near its line. -/
def findShifted (scheme : AnchorScheme) (anchor : ParsedAnchor) (ls : List Text)
    (searchRadius : ℕ) : ShiftResult :=
  let origIdx := anchor.line - 1
  let start := origIdx - searchRadius
  let stop := min (origIdx + searchRadius + 1) ls.length
  let candidates :=
    ((List.range' start (stop - start)).filter (isCandidate scheme anchor ls)).map (· + 1)
  match candidates with
  | [] => .notFound
  | [newLine] => .found newLine
  | _ => .ambiguous candidates

/-- How far a stale anchor is looked for. -/
def defaultSearchRadius : ℕ := 15

end Ezer.Hashline
