import Ezer.Lib.Slices

/-!
# The characters of a file and their bytes

Each character of a text with the bytes it was read from, so that what an edit
writes can be compared with the file it was made on. A line end of two bytes may
be read as one character.
-/

namespace Ezer.Lib

/-- A character and the bytes it was read from. -/
structure Piece where
  /-- The character. -/
  char : Char
  /-- The bytes it was read from. -/
  bytes : List UInt8

/-- The text of some pieces. -/
def pieceText (ps : List Piece) : Text := ps.map Piece.char

/-- The bytes of some pieces. -/
def pieceBytes (ps : List Piece) : List UInt8 := ps.flatMap Piece.bytes

@[simp] theorem pieceText_nil : pieceText [] = [] := rfl

@[simp] theorem pieceText_cons (p : Piece) (ps : List Piece) :
    pieceText (p :: ps) = p.char :: pieceText ps := rfl

@[simp] theorem pieceText_append (ps qs : List Piece) :
    pieceText (ps ++ qs) = pieceText ps ++ pieceText qs := List.map_append

/-- Read some bytes, at most as many characters as there are bytes. -/
def utf8PiecesFrom : ℕ → List UInt8 → List Piece
  | 0, _ => []
  | _ + 1, [] => []
  | fuel + 1, b :: rest =>
    let (c, after) := utf8Next b rest
    ⟨c, (b :: rest).take ((b :: rest).length - after.length)⟩ :: utf8PiecesFrom fuel after

/-- The characters read from bytes that may not be UTF-8. -/
def utf8Pieces (bytes : List UInt8) : List Piece := utf8PiecesFrom bytes.length bytes

/-- A text as pieces, each the encoding of its character. -/
def textPieces (t : Text) : List Piece := t.map fun c => ⟨c, String.utf8EncodeChar c⟩

theorem pieceText_textPieces (t : Text) : pieceText (textPieces t) = t := by
  rw [pieceText, textPieces, List.map_map]
  exact List.map_id t

theorem pieceText_utf8PiecesFrom (fuel : ℕ) (bytes : List UInt8) :
    pieceText (utf8PiecesFrom fuel bytes) = utf8Chars fuel bytes := by
  induction fuel generalizing bytes with
  | zero => rfl
  | succ fuel ih =>
    cases bytes with
    | nil => rfl
    | cons b rest =>
      rw [utf8PiecesFrom, utf8Chars, pieceText_cons]
      dsimp only
      rw [ih]

/-- The pieces of a file are the characters it is read as. -/
theorem pieceText_utf8Pieces (bytes : List UInt8) :
    pieceText (utf8Pieces bytes) = fromUtf8Lossy bytes :=
  pieceText_utf8PiecesFrom bytes.length bytes

/-- A text with every CR LF as a line feed. -/
def crlfToLf : Text → Text
  | [] => []
  | [c] => [c]
  | c :: d :: t => if c = '\r' ∧ d = '\n' then '\n' :: crlfToLf t else c :: crlfToLf (d :: t)

/-- A text with every line feed as CR LF. -/
def lfToCrlf (t : Text) : Text := t.flatMap fun c => if c = '\n' then ['\r', '\n'] else [c]

/-- Pieces with every CR LF as one line feed. -/
def foldCrlf : List Piece → List Piece
  | [] => []
  | [p] => [p]
  | p :: q :: ps =>
    if p.char = '\r' ∧ q.char = '\n' then ⟨'\n', p.bytes ++ q.bytes⟩ :: foldCrlf ps
    else p :: foldCrlf (q :: ps)

theorem pieceText_foldCrlf (ps : List Piece) : pieceText (foldCrlf ps) = crlfToLf (pieceText ps) := by
  induction ps using foldCrlf.induct with
  | case1 => rfl
  | case2 p => rfl
  | case3 p q ps h ih =>
    rw [foldCrlf, if_pos h, pieceText_cons, ih, pieceText_cons, pieceText_cons, crlfToLf, if_pos h]
  | case4 p q ps h ih =>
    rw [foldCrlf, if_neg h, pieceText_cons, ih]
    simp only [pieceText_cons]
    rw [crlfToLf, if_neg h]

/-- The bytes of a character written with CR LF line ends behind another. -/
def crlfChar (before : Option Char) (c : Char) : List UInt8 :=
  if c = '\n' then if before = some '\r' then [10] else [13, 10] else String.utf8EncodeChar c

/-- The bytes of a text written with CR LF line ends behind a character. -/
def crlfBytes : Option Char → Text → List UInt8
  | _, [] => []
  | before, c :: t => crlfChar before c ++ crlfBytes (some c) t

theorem encodeUtf8_lfToCrlf_cons (c : Char) (t : Text) :
    encodeUtf8 (lfToCrlf (c :: t)) =
      (if c = '\n' then [13, 10] else String.utf8EncodeChar c) ++ encodeUtf8 (lfToCrlf t) := by
  rw [lfToCrlf, List.flatMap_cons, encodeUtf8, List.flatMap_append]
  split
  · rfl
  · rw [List.flatMap_cons, List.flatMap_nil, List.append_nil]
    rfl

/-- Every line end written as CR LF, a carriage return in front of a line feed being part of the
line end. -/
theorem encodeUtf8_lfToCrlf_crlfToLf (t : Text) {before : Option Char}
    (h : before = some '\r' → t.head? ≠ some '\n') :
    encodeUtf8 (lfToCrlf (crlfToLf t)) = crlfBytes before t := by
  have hchar {c : Char} {before : Option Char} (h : before = some '\r' → c ≠ '\n') :
      (if c = '\n' then [13, 10] else String.utf8EncodeChar c) = crlfChar before c := by
    rw [crlfChar]
    split
    · rename_i hc
      rw [if_neg fun hb => h hb hc]
    · rfl
  induction t using crlfToLf.induct generalizing before with
  | case1 => rfl
  | case2 c =>
    have hc : before = some '\r' → c ≠ '\n' := fun hb hc => h hb (congrArg some hc)
    rw [crlfToLf, encodeUtf8_lfToCrlf_cons, crlfBytes, hchar hc]
    rfl
  | case3 c d t hcd ih =>
    obtain ⟨rfl, rfl⟩ := hcd
    have hrest := @ih (some '\n') (fun hb => absurd hb (by decide))
    rw [crlfToLf, if_pos ⟨rfl, rfl⟩, encodeUtf8_lfToCrlf_cons, hrest, crlfBytes, crlfBytes]
    rfl
  | case4 c d t hcd ih =>
    have hc : before = some '\r' → c ≠ '\n' := fun hb hc => h hb (congrArg some hc)
    have hd : some c = some '\r' → (d :: t).head? ≠ some '\n' :=
      fun hc hd => hcd ⟨Option.some.inj hc, Option.some.inj hd⟩
    rw [crlfToLf, if_neg hcd, encodeUtf8_lfToCrlf_cons, ih hd, hchar hc]
    rfl

end Ezer.Lib
