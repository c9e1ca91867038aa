import Ezer.HunkTracker.Diff

/-!
# Reading and classifying file content

A file's bytes are either the encoding of a text or no UTF-8 at all, and a
path on disk holds nothing, a symbolic link, a directory or a file. The
classifiers check the size first, then the Git LFS pointer prefix, then the
null byte in the first 8000 bytes.
-/

namespace Ezer.HunkTracker

open Ezer.Lib

/-- The bytes of a file: the encoding of a text, or bytes that are no UTF-8. -/
inductive FileBytes where
  | utf8 (text : Text)
  | raw (bytes : List UInt8)
  deriving DecidableEq

/-- The UTF-8 encoding of a text. -/
def encode (t : Text) : List UInt8 := t.flatMap String.utf8EncodeChar

def FileBytes.bytes : FileBytes → List UInt8
  | utf8 text => encode text
  | raw bytes => bytes

/-- `version https://git-lfs.github.com/spec/v1` and a line feed. -/
def lfsPointerPrefix : List UInt8 :=
  [118, 101, 114, 115, 105, 111, 110, 32, 104, 116, 116, 112, 115, 58, 47, 47, 103, 105, 116, 45,
    108, 102, 115, 46, 103, 105, 116, 104, 117, 98, 46, 99, 111, 109, 47, 115, 112, 101, 99, 47,
    118, 49, 10]

def isLfsPointer (bytes : List UInt8) : Bool :=
  bytes.length < 1024 && lfsPointerPrefix.isPrefixOf bytes

/-- A null byte in the first 8000 bytes marks binary content. -/
def isBinary (content : List UInt8) : Bool := (content.take 8000).contains 0

/-- Classify the bytes of a blob. -/
def classifyBytes (content : FileBytes) : FileContentState :=
  let byteLen := content.bytes.length
  if byteLen > maxTrackedTextBytes then .tooLarge byteLen
  else if isLfsPointer content.bytes then .lfsPointer byteLen
  else if isBinary content.bytes then .binary (some byteLen)
  else
    match content with
    | .utf8 text => .full text
    | .raw _ => .binary (some byteLen)

/-- Classify a string, which is UTF-8 already. -/
def classifyString (s : Text) : FileContentState := classifyBytes (.utf8 s)

/-- What a path holds on disk. -/
inductive DiskEntry where
  | missing
  | symlink (targetExists targetIsDir : Bool)
  | directory (byteLen : ℕ)
  | file (content : FileBytes) (readable : Bool)
  deriving DecidableEq

namespace DiskEntry

/-- `Path::exists`, which follows links. -/
def pathExists : DiskEntry → Bool
  | missing => false
  | symlink targetExists _ => targetExists
  | directory _ => true
  | file _ _ => true

/-- `Path::is_dir`, which follows links. -/
def isDir : DiskEntry → Bool
  | symlink _ targetIsDir => targetIsDir
  | directory _ => true
  | _ => false

/-- Read a path under the size limit: a link is reported as such, an unreadable
file and a directory as missing. -/
def readFileBounded : DiskEntry → FileContentState
  | missing => .missing
  | symlink _ _ => .symlink
  | directory byteLen => if byteLen > maxTrackedTextBytes then .tooLarge byteLen else .missing
  | file content readable =>
    if content.bytes.length > maxTrackedTextBytes then .tooLarge content.bytes.length
    else if readable then classifyBytes content
    else .missing

/-- `fs::write` of a text; a link is followed and stays. -/
def write (text : Text) : DiskEntry → DiskEntry
  | symlink _ targetIsDir => symlink true targetIsDir
  | _ => file (.utf8 text) true

end DiskEntry

end Ezer.HunkTracker
