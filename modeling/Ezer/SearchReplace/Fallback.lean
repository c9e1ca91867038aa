import Ezer.SearchReplace.Frame

/-!
# What the search for look-alikes finds

A part of a text that reads as the pattern is found at the place where its
reading starts, unless the scan of the text so read already went past it: an
occurrence that starts or ends within what one character is read as can hide
the parts that start inside of it.
-/

namespace Ezer.SearchReplace

open Lib

section Offsets

variable {text pattern : Text}

end Offsets

/-- A part of a text stands between two others and reads as a pattern. -/
structure Reads (text pattern a m b : Text) : Prop where
  text_eq : text = a ++ m ++ b
  reads : normalizeConfusables m = normalizeConfusables pattern

section Found

variable {text pattern : Text} {found : List NormalizedMatch}

end Found

end Ezer.SearchReplace
