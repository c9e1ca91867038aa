import Ezer.Hashline.Tool

/-!
# Rejected requests

A request that is rejected leaves the files as they were, with one exception:
the content of a new file is written before it is checked for anchors.
-/

namespace Ezer.Hashline

open Ezer.Lib

variable {Path : Type}

section ApplyEdits

variable {content filePath oldContent path : Text} {ops : List HashlineOp}
  {scheme : AnchorScheme}

end ApplyEdits

section Runs

variable {host : Host Path} {fs : FileSystem Path} {input : HashlineEditInput}
  {joinedPath path : Path} {scheme : AnchorScheme}

end Runs

/-- Files named by their paths, without memory files. -/
def plainHost : Host Text where
  resolveModelPath := id
  display := id
  formatNotFoundError path _ := path
  tryCanonicalize fs path := (fs path).map fun _ => path
  tryResolveUnicodeFilename _ _ := none
  canonicalizeWithTimeout _ path := path
  readFile fs path := (fs path).elim (.error ⟨true, []⟩) .ok
  writeFile fs path bytes := (.ok (), Function.update fs path (some bytes))
  writeMemoryV2File fs _ _ := (.ok false, fs)
  unresolved _ _ h := Option.map_eq_none_iff.mp h
  written _ _ _ _ := Function.update_self ..
  memoryWritten _ _ _ h := by cases h

end Ezer.Hashline
