import Ezer.ChatState.Items
import Ezer.Lib.JsonText

/-!
# The image budget

A request whose body is too large gives up its images, the oldest ones first.
What the body takes is measured once; from there on the size is kept up with
what every image that goes is said to save.
-/

namespace Ezer.ChatState

open Ezer.Lib

/-- What stands in the place of an image of the user. -/
def imageCompactPlaceholder : String :=
  "[An earlier image was removed to keep the request within its size limit and is no longer visible. Do not describe or reason about its contents from memory; ask the user to re-share it if you need to see it again.]"

/-- What is said behind a tool result that lost images. -/
def toolImageCompactNote : String :=
  "[One or more images from this tool result were removed to keep the request within its size limit and are no longer visible. Do not describe or reason about their contents from memory.]"

/-- The largest body that the proxy takes. -/
def maxRequestBytes : ℕ := 50 * 1024 * 1024

/-- The size of a body from which on images go. -/
def imageCompactTriggerBytes : ℕ := maxRequestBytes - 3 * 1024 * 1024

/-- The size of a body down to which images go. -/
def imageCompactReclaimTargetBytes : ℕ := maxRequestBytes / 2

/-- What the trigger leaves for the rest of the request. -/
def triggerHeadroomBytes : ℕ := maxRequestBytes - imageCompactTriggerBytes

/-- The least cap on a request. -/
def minRequestBytes : ℕ := 4 * triggerHeadroomBytes

/-- The trigger and the target for a cap on a request. -/
def imageBudgetLimits : Option ℕ → ℕ × ℕ
  | none => (imageCompactTriggerBytes, imageCompactReclaimTargetBytes)
  | some maxRequestBytes =>
    let cap := max maxRequestBytes minRequestBytes
    (cap - triggerHeadroomBytes, cap / 2)

/-- The target is below the trigger. -/
theorem imageBudgetLimits_lt (maxRequestBytes : Option ℕ) :
    (imageBudgetLimits maxRequestBytes).2 < (imageBudgetLimits maxRequestBytes).1 := by
  cases maxRequestBytes with
  | none => decide
  | some bytes =>
    have hmin : minRequestBytes = 4 * triggerHeadroomBytes := rfl
    have hpos : 0 < triggerHeadroomBytes := by decide
    dsimp only [imageBudgetLimits]
    omega

/-- How the other parts of a conversation are written. -/
structure ItemWriter where
  /-- The fields of a user message behind its content. -/
  userFields : SyntheticReason → Option Nat → Option PriorTurnInterrupt → Option Nat → Text
  /-- An item that has no content parts. -/
  other : ConversationItem → Text

/-- A piece of a message as it is written. -/
def writePart : ContentPart → Text
  | .text text => "\x7b\"type\":\"text\",\"text\":".toList ++ writeString text.toList ++ ['\x7d']
  | .image url => "\x7b\"type\":\"image\",\"url\":".toList ++ writeString url.toList ++ ['\x7d']

/-- The images of a tool result as they are written: not at all when there are none. -/
def writeImages (images : List ContentPart) : Text :=
  if images.isEmpty then [] else ",\"images\":".toList ++ writeArray (images.map writePart)

/-- An item as it is written. -/
def writeItem (w : ItemWriter) : ConversationItem → Text
  | .user u =>
    "\x7b\"type\":\"user\",\"content\":".toList ++ writeArray (u.content.map writePart) ++
      w.userFields u.syntheticReason u.cwdGeneration u.priorTurnInterrupt u.promptIndex ++ ['\x7d']
  | .toolResult r =>
    "\x7b\"type\":\"tool_result\",\"tool_call_id\":".toList ++ writeString r.toolCallId.toList ++
      ",\"content\":".toList ++ writeString r.content.toList ++ writeImages r.images ++ ['\x7d']
  | item => w.other item

/-- The bytes of a written conversation. -/
def serializedJsonBytes (w : ItemWriter) (conversation : List ConversationItem) : ℕ :=
  byteLen (writeArray (conversation.map (writeItem w)))

/-- Whether a piece is an image. -/
def ContentPart.isImage : ContentPart → Bool
  | .image _ => true
  | .text _ => false

/-- The number of images of an item. -/
def ConversationItem.imageCount : ConversationItem → ℕ
  | .user u => u.content.countP ContentPart.isImage
  | .toolResult r => r.images.countP ContentPart.isImage
  | _ => 0

/-- The number of images of a conversation. -/
def inlineImageCount (conversation : List ConversationItem) : ℕ :=
  (conversation.map ConversationItem.imageCount).sum

/-- The bytes of an address in a written string; the data of an image is not looked at. -/
def encodedUrlBytes (url : Text) : ℕ :=
  match splitOnce [','] url with
  | none => byteLen (writeString url) - 2
  | some (header, base64Tail) =>
    if "data:".toList.isPrefixOf header && ";base64".toList.isSuffixOf header then
      byteLen (writeString header) - 2 + 1 + byteLen base64Tail
    else byteLen (writeString url) - 2

/-- The bytes around the address of an image. -/
def imagePartFrameBytes : ℕ := byteLen "\x7b\"type\":\"image\",\"url\":\"\"\x7d".toList

/-- The bytes of an image; nothing else is asked for. -/
def imagePartBytes : ContentPart → ℕ
  | .image url => imagePartFrameBytes + encodedUrlBytes url.toList
  | .text _ => 0

/-- Pieces with the addresses of their images taken out, and the bytes of those. -/
def blankImageUrls : List ContentPart → List ContentPart × ℕ
  | [] => ([], 0)
  | .image url :: parts =>
    let (blanked, bytes) := blankImageUrls parts
    (.image "" :: blanked, encodedUrlBytes url.toList + bytes)
  | .text text :: parts =>
    let (blanked, bytes) := blankImageUrls parts
    (.text text :: blanked, bytes)

/-- An item with the addresses of its images taken out, and the bytes of those. -/
def blankItem : ConversationItem → ConversationItem × ℕ
  | .user u =>
    let (content, bytes) := blankImageUrls u.content
    (.user { u with content := content }, bytes)
  | .toolResult r =>
    let (images, bytes) := blankImageUrls r.images
    (.toolResult { r with images := images }, bytes)
  | item => (item, 0)

/-- The bytes of a conversation, without a look at the data of its images. -/
def conversationBodyBytes (w : ItemWriter) (conversation : List ConversationItem) : ℕ :=
  let blanked := conversation.map blankItem
  serializedJsonBytes w (blanked.map Prod.fst) + (blanked.map Prod.snd).sum

/-- Where an image is. -/
inductive ImageLocation where
  | user (item part : ℕ)
  | toolResult (item : ℕ)

/-- The images of a user message, with their bytes. -/
def locateUser (item : ℕ) : ℕ → List ContentPart → List (ImageLocation × ℕ)
  | _, [] => []
  | part, .image url :: parts =>
    (.user item part, imagePartBytes (.image url)) :: locateUser item (part + 1) parts
  | part, .text _ :: parts => locateUser item (part + 1) parts

/-- The images of a tool result, with their bytes. -/
def locateTool (item : ℕ) : List ContentPart → List (ImageLocation × ℕ)
  | [] => []
  | .image url :: parts => (.toolResult item, imagePartBytes (.image url)) :: locateTool item parts
  | .text _ :: parts => locateTool item parts

/-- The images of an item, with their bytes. -/
def locateItem (item : ℕ) : ConversationItem → List (ImageLocation × ℕ)
  | .user u => locateUser item 0 u.content
  | .toolResult r => locateTool item r.images
  | _ => []

/-- The images of a conversation in their order, with their bytes. -/
def locateImages : ℕ → List ConversationItem → List (ImageLocation × ℕ)
  | _, [] => []
  | item, conversationItem :: rest =>
    locateItem item conversationItem ++ locateImages (item + 1) rest

/-- The piece in the place of an image. -/
def placeholder : ContentPart := .text imageCompactPlaceholder

/-- The bytes of the piece in the place of an image. -/
def placeholderBytes : ℕ := byteLen (writePart placeholder)

/-- The bytes that a note adds to a tool result. -/
def toolNoteBytes : ℕ := byteLen (writeString ("\n\n" ++ toolImageCompactNote).toList) - 2

/-- Evict the image at a place, and keep up the size of the body. -/
def evictAt (location : ImageLocation) (imageBytes : ℕ) (conversation : List ConversationItem)
    (running : ℕ) : Option (List ConversationItem × ℕ) :=
  match location with
  | .user item part =>
    match conversation[item]? with
    | some (.user u) =>
      match u.content[part]? with
      | some _ =>
        some (conversation.set item (.user { u with content := u.content.set part placeholder }),
          running - (imageBytes - placeholderBytes))
      | none => none
    | _ => none
  | .toolResult item =>
    match conversation[item]? with
    | some (.toolResult r) =>
      let images := r.images.eraseIdx (r.images.findIdx ContentPart.isImage)
      let running := running - (imageBytes + if images.isEmpty then 0 else 1)
      if toolImageCompactNote.toList <:+: r.content.toList then
        some (conversation.set item (.toolResult { r with images := images }), running)
      else
        some (conversation.set item
            (.toolResult { r with
              images := images
              content := r.content ++ "\n\n" ++ toolImageCompactNote }),
          running + toolNoteBytes)
    | _ => none

/-- Evict images until the size that is kept up is at the target. -/
def evictLoop (targetBytes : ℕ) :
    List (ImageLocation × ℕ) → List ConversationItem → ℕ → ℕ → List ConversationItem × ℕ
  | [], conversation, _, evicted => (conversation, evicted)
  | (location, imageBytes) :: images, conversation, running, evicted =>
    if running ≤ targetBytes then (conversation, evicted)
    else
      match evictAt location imageBytes conversation running with
      | some (conversation', running') =>
        evictLoop targetBytes images conversation' running' (evicted + 1)
      | none => evictLoop targetBytes images conversation running evicted

/-- Evict the oldest images of a conversation. -/
def evictImagesToBudget (conversation : List ConversationItem) (currentBytes targetBytes : ℕ) :
    List ConversationItem × ℕ :=
  evictLoop targetBytes (locateImages 0 conversation) conversation currentBytes 0

/-- What was done about the images of a request. -/
structure ImageBudgetOutcome where
  bodyBytes : ℕ
  bodyBytesAfter : ℕ
  inlineImages : ℕ
  needsImageCompaction : Bool
  evicted : ℕ

/-- A conversation for a request, and what was done about its images. -/
structure BudgetedConversation where
  items : List ConversationItem
  outcome : ImageBudgetOutcome

/-- Evict images when the body of a request has reached the trigger. -/
def applyImageBudgetWithLimits (w : ItemWriter) (items : List ConversationItem)
    (triggerBytes reclaimTargetBytes : ℕ) : BudgetedConversation :=
  let bodyBytes := conversationBodyBytes w items
  let needsImageCompaction := decide (triggerBytes ≤ bodyBytes)
  let (items', evicted) :=
    if needsImageCompaction && decide (reclaimTargetBytes < bodyBytes) then
      evictImagesToBudget items bodyBytes reclaimTargetBytes
    else (items, 0)
  let bodyBytesAfter := if evicted = 0 then bodyBytes else conversationBodyBytes w items'
  ⟨items', ⟨bodyBytes, bodyBytesAfter, inlineImageCount items, needsImageCompaction, evicted⟩⟩

/-- Evict images as the cap on a request says. -/
def applyImageBudget (w : ItemWriter) (items : List ConversationItem)
    (maxRequestBytes : Option ℕ) : BudgetedConversation :=
  applyImageBudgetWithLimits w items (imageBudgetLimits maxRequestBytes).1
    (imageBudgetLimits maxRequestBytes).2

end Ezer.ChatState
