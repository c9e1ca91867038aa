import Ezer.ChatState.ImageBudget

/-!
# Which images a budget evicts

The images that go are the first ones, and everything else stays. The size that
is kept up is the size of the body, but for two things: an image of the user
that takes less than what stands in its place is counted as if nothing had
changed, and the field of a tool result that has lost its last image is counted
as if it were still written.
-/

namespace Ezer.ChatState

open Lib

/-- A character of Base64 data. -/
def isBase64 (c : Char) : Bool := c.isAlphanum || c = '+' || c = '/' || c = '='

/-- The data of an image that is inlined as Base64 is over its alphabet. -/
def Base64Part (part : ContentPart) : Prop :=
  ∀ url header base64Tail, part = .image url →
    splitOnce [','] url.toList = some (header, base64Tail) →
      "data:".toList <+: header → ";base64".toList <:+ header → ∀ c ∈ base64Tail, isBase64 c = true

/-- The pieces of an item that may be images. -/
def ConversationItem.parts : ConversationItem → List ContentPart
  | .user u => u.content
  | .toolResult r => r.images
  | _ => []

/-- The data of all images is over its alphabet. -/
def Base64Tails (conversation : List ConversationItem) : Prop :=
  ∀ item ∈ conversation, ∀ part ∈ item.parts, Base64Part part

section Sizes

theorem escapeChar_of_isBase64 {c : Char} (h : isBase64 c = true) : escapeChar c = [c] := by
  have hcode : c = '+' ∨ c = '/' ∨ c = '=' ∨ c.isAlphanum = true := by
    simp only [isBase64, Bool.or_eq_true, decide_eq_true_eq] at h
    tauto
  rcases hcode with rfl | rfl | rfl | halnum
  · rfl
  · rfl
  · rfl
  · have hquote : c ≠ '"' := by rintro rfl; revert halnum; decide
    have hslash : c ≠ '\\' := by rintro rfl; revert halnum; decide
    have hlarge : 32 ≤ c.toNat := by
      by_contra hlt
      delta Char.isAlphanum Char.isAlpha Char.isUpper Char.isLower Char.isDigit at halnum
      simp only [Bool.or_eq_true, Bool.and_eq_true, decide_eq_true_eq, ge_iff_le,
        UInt32.le_iff_toNat_le] at halnum
      have hcode : c.toNat = c.val.toNat := rfl
      have hnine : '9'.val.toNat = 57 := rfl
      have hzero : '0'.val.toNat = 48 := rfl
      have hupper : 'A'.val.toNat = 65 := rfl
      have hlower : 'a'.val.toNat = 97 := rfl
      omega
    unfold escapeChar
    rw [if_neg hquote, if_neg hslash, if_neg (by omega), if_neg (by omega), if_neg (by omega),
      if_neg (by omega), if_neg (by omega), if_neg (by omega)]

/-- The bytes of an address are what it takes in a written string. -/
theorem encodedUrlBytes_eq {url : String} (h : Base64Part (.image url)) :
    encodedUrlBytes url.toList = escapedBytes url.toList := by
  unfold encodedUrlBytes
  cases hsplit : splitOnce [','] url.toList with
  | none =>
    dsimp only
    rw [byteLen_writeString, Nat.add_sub_cancel]
  | some split =>
    obtain ⟨header, base64Tail⟩ := split
    dsimp only
    split
    · rename_i hdata
      rw [Bool.and_eq_true, List.isPrefixOf_iff_prefix, List.isSuffixOf_iff_suffix] at hdata
      have hplain := h url header base64Tail rfl hsplit hdata.1 hdata.2
      have hcomma : escapedBytes [','] = 1 := rfl
      rw [eq_of_splitOnce hsplit, escapedBytes_append, escapedBytes_append, hcomma,
        byteLen_writeString, Nat.add_sub_cancel,
        escapedBytes_of_plain fun c hc => escapeChar_of_isBase64 (hplain c hc)]
    · rw [byteLen_writeString, Nat.add_sub_cancel]

theorem imagePartFrameBytes_eq :
    imagePartFrameBytes = byteLen "\x7b\"type\":\"image\",\"url\":".toList + 3 := by
  decide +kernel

theorem byteLen_writePart_image (url : String) :
    byteLen (writePart (.image url)) = imagePartFrameBytes + escapedBytes url.toList := by
  have hframe := imagePartFrameBytes_eq
  have hclose : byteLen ['\x7d'] = 1 := rfl
  unfold writePart
  generalize "\x7b\"type\":\"image\",\"url\":".toList = front at hframe ⊢
  rw [byteLen_append, byteLen_append, byteLen_writeString, hframe, hclose]
  omega

theorem imagePartBytes_eq {url : String} (h : Base64Part (.image url)) :
    imagePartBytes (.image url) = byteLen (writePart (.image url)) := by
  rw [imagePartBytes, encodedUrlBytes_eq h, byteLen_writePart_image]

theorem byteLen_imagesField : byteLen ",\"images\":".toList = 10 := by
  decide +kernel

theorem byteLen_writeImages (images : List ContentPart) :
    byteLen (writeImages images) =
      if images.isEmpty then 0 else byteLen (writeArray (images.map writePart)) + 10 := by
  have hfield := byteLen_imagesField
  unfold writeImages
  generalize ",\"images\":".toList = field at hfield ⊢
  split
  · rfl
  · rw [byteLen_append, hfield, Nat.add_comm]

/-- A user message is written in the bytes of its content, besides others. -/
theorem byteLen_writeItem_user (w : ItemWriter) (u : UserItem) :
    ∃ others, ∀ content, byteLen (writeItem w (.user { u with content := content })) =
      others + byteLen (writeArray (content.map writePart)) := by
  refine ⟨byteLen "\x7b\"type\":\"user\",\"content\":".toList + byteLen (w.userFields
    u.syntheticReason u.cwdGeneration u.priorTurnInterrupt u.promptIndex) + byteLen ['\x7d'],
    fun content => ?_⟩
  unfold writeItem
  generalize "\x7b\"type\":\"user\",\"content\":".toList = front
  generalize ['\x7d'] = back
  dsimp only
  rw [byteLen_append, byteLen_append, byteLen_append]
  omega

/-- A tool result is written in the bytes of its text and its images, besides others. -/
theorem byteLen_writeItem_tool (w : ItemWriter) (r : ToolResultItem) :
    ∃ others, ∀ content images,
      byteLen (writeItem w (.toolResult { r with content := content, images := images })) =
        others + escapedBytes content.toList + byteLen (writeImages images) := by
  refine ⟨byteLen "\x7b\"type\":\"tool_result\",\"tool_call_id\":".toList +
    byteLen (writeString r.toolCallId.toList) + byteLen ",\"content\":".toList + 2 +
    byteLen ['\x7d'], fun content images => ?_⟩
  unfold writeItem
  generalize "\x7b\"type\":\"tool_result\",\"tool_call_id\":".toList = front
  generalize ",\"content\":".toList = mid
  generalize ['\x7d'] = back
  dsimp only
  rw [byteLen_append, byteLen_append, byteLen_append, byteLen_append, byteLen_append,
    byteLen_writeString content.toList]
  omega

/-- The bytes that are taken out with the addresses are the bytes of these. -/
theorem blankImageUrls_bytes {parts : List ContentPart} (h : ∀ part ∈ parts, Base64Part part) :
    byteLen (writeArray ((blankImageUrls parts).1.map writePart)) + (blankImageUrls parts).2 =
        byteLen (writeArray (parts.map writePart)) ∧
      (blankImageUrls parts).1.length = parts.length := by
  simp only [byteLen_writeArray, List.length_map]
  induction parts with
  | nil => exact ⟨rfl, rfl⟩
  | cons part parts ih =>
    rw [List.forall_mem_cons] at h
    obtain ⟨hbytes, hlength⟩ := ih h.2
    rw [hlength] at hbytes
    cases part with
    | text text =>
      simp only [blankImageUrls, List.map_cons, List.sum_cons, List.length_cons, hlength,
        and_true]
      omega
    | image url =>
      have hempty : escapedBytes "".toList = 0 := rfl
      simp only [blankImageUrls, List.map_cons, List.sum_cons, List.length_cons, hlength,
        and_true, byteLen_writePart_image, encodedUrlBytes_eq h.1, hempty]
      omega

theorem blankItem_bytes (w : ItemWriter) {item : ConversationItem}
    (h : ∀ part ∈ item.parts, Base64Part part) :
    byteLen (writeItem w (blankItem item).1) + (blankItem item).2 =
      byteLen (writeItem w item) := by
  cases item with
  | user u =>
    obtain ⟨others, hothers⟩ := byteLen_writeItem_user w u
    have hblank := (blankImageUrls_bytes h).1
    change byteLen (writeItem w (.user { u with content := (blankImageUrls u.content).1 })) +
      (blankImageUrls u.content).2 = byteLen (writeItem w (.user { u with content := u.content }))
    rw [hothers, hothers, Nat.add_assoc]
    exact congrArg (others + ·) hblank
  | toolResult r =>
    obtain ⟨others, hothers⟩ := byteLen_writeItem_tool w r
    change ∀ part ∈ r.images, Base64Part part at h
    obtain ⟨hblank, hlength⟩ := blankImageUrls_bytes h
    have hempty : (blankImageUrls r.images).1.isEmpty = r.images.isEmpty := by
      rw [Bool.eq_iff_iff, List.isEmpty_iff_length_eq_zero, List.isEmpty_iff_length_eq_zero]
      exact Eq.congr hlength rfl
    change byteLen (writeItem w (.toolResult { r with
        content := r.content, images := (blankImageUrls r.images).1 })) +
      (blankImageUrls r.images).2 =
      byteLen (writeItem w (.toolResult { r with content := r.content, images := r.images }))
    rw [hothers, hothers, byteLen_writeImages, byteLen_writeImages, hempty]
    cases himages : r.images with
    | nil => rfl
    | cons image images =>
      rw [himages] at hblank
      simp only [List.isEmpty_cons, Bool.false_eq_true, if_false]
      omega
  | _ => rfl

/-- The size of a body is the size of what is written. -/
theorem conversationBodyBytes_eq (w : ItemWriter) {conversation : List ConversationItem}
    (h : Base64Tails conversation) :
    conversationBodyBytes w conversation = serializedJsonBytes w conversation := by
  unfold conversationBodyBytes serializedJsonBytes
  simp only [byteLen_writeArray, List.length_map, List.map_map]
  suffices hsum : ((conversation.map blankItem).map Prod.fst |>.map (byteLen ∘ writeItem w)).sum +
      ((conversation.map blankItem).map Prod.snd).sum =
        (conversation.map (byteLen ∘ writeItem w)).sum by
    simp only [List.map_map] at hsum
    simp only [Function.comp_assoc] at hsum ⊢
    omega
  induction conversation with
  | nil => rfl
  | cons item conversation ih =>
    rw [Base64Tails, List.forall_mem_cons] at h
    have hitem := blankItem_bytes w h.1
    have hrest := ih h.2
    simp only [List.map_cons, List.sum_cons, Function.comp_apply]
    omega

end Sizes

/-- The first pieces of a user message that are images, with something else in their place. -/
def evictParts : ℕ → List ContentPart → List ContentPart
  | 0, parts => parts
  | _ + 1, [] => []
  | k + 1, .image _ :: parts => placeholder :: evictParts k parts
  | k + 1, .text text :: parts => .text text :: evictParts (k + 1) parts

/-- The pieces of a tool result without the first images. -/
def dropImages : ℕ → List ContentPart → List ContentPart
  | 0, parts => parts
  | _ + 1, [] => []
  | k + 1, .image _ :: parts => dropImages k parts
  | k + 1, .text text :: parts => .text text :: dropImages (k + 1) parts

/-- A text of a tool result with the note, which is there once. -/
def withNote (content : String) : String :=
  if toolImageCompactNote.toList <:+: content.toList then content
  else content ++ "\n\n" ++ toolImageCompactNote

/-- An item without its first images. -/
def evictItem (k : ℕ) : ConversationItem → ConversationItem
  | .user u => .user { u with content := evictParts k u.content }
  | .toolResult r =>
    if k = 0 then .toolResult r
    else .toolResult { r with
      content := withNote r.content
      images := dropImages k r.images }
  | item => item

/-- A conversation without its first images. -/
def evictFirst : ℕ → List ConversationItem → List ConversationItem
  | _, [] => []
  | k, item :: rest =>
    evictItem (min k item.imageCount) item :: evictFirst (k - item.imageCount) rest

/-- The bytes of the field of a tool result that is not written any more. -/
def emptiedItem (k : ℕ) : ConversationItem → ℕ
  | .toolResult r =>
    if (dropImages k r.images).isEmpty && !r.images.isEmpty then byteLen ",\"images\":[]".toList
    else 0
  | _ => 0

/-- The bytes of the fields that are not written any more without the first images. -/
def emptiedFields : ℕ → List ConversationItem → ℕ
  | _, [] => 0
  | k, item :: rest =>
    emptiedItem (min k item.imageCount) item + emptiedFields (k - item.imageCount) rest

/-- What an image grows by when it goes: an image of the user that is shorter than what stands in
its place. -/
def growth : ImageLocation × ℕ → ℕ
  | (.user _ _, imageBytes) => placeholderBytes - imageBytes
  | (.toolResult _, _) => 0

/-- What the first images grow by when they go. -/
def grown (k : ℕ) (conversation : List ConversationItem) : ℕ :=
  (((locateImages 0 conversation).take k).map growth).sum

section Steps

variable {done rest : List ConversationItem} {location : ImageLocation}
  {i j k bytes running : ℕ}

variable {x : ImageLocation × ℕ}

theorem getElem?_locateUser {part : ℕ} {parts : List ContentPart}
    (h : (locateUser i part parts)[j]? = some x) :
    ∃ before url after, parts = before ++ .image url :: after ∧
      before.countP ContentPart.isImage = j ∧
      x = (.user i (part + before.length), imagePartBytes (.image url)) := by
  induction parts generalizing part j with
  | nil => cases h
  | cons p parts ih =>
    cases p with
    | text text =>
      obtain ⟨before, url, after, rfl, hcount, rfl⟩ := ih h
      refine ⟨.text text :: before, url, after, rfl, hcount, ?_⟩
      rw [List.length_cons, Nat.add_right_comm]
      rfl
    | image url =>
      cases j with
      | zero => exact ⟨[], url, parts, rfl, rfl, (Option.some.inj h).symm⟩
      | succ j =>
        obtain ⟨before, url', after, rfl, hcount, rfl⟩ := ih h
        refine ⟨.image url :: before, url', after, rfl, ?_, ?_⟩
        · rw [List.countP_cons_of_pos rfl, hcount]
        · rw [List.length_cons, Nat.add_right_comm]
          rfl

/-- The images of a tool result are those of a user item in its place. -/
theorem locateTool_eq (i part : ℕ) (parts : List ContentPart) :
    locateTool i parts = (locateUser i part parts).map fun x => (.toolResult i, x.2) := by
  induction parts generalizing part with
  | nil => rfl
  | cons p parts ih =>
    cases p with
    | text text => exact ih (part + 1)
    | image url => exact congrArg ((.toolResult i, imagePartBytes (.image url)) :: ·) (ih (part + 1))

theorem getElem?_locateTool {parts : List ContentPart} (h : (locateTool i parts)[j]? = some x) :
    ∃ before url after, parts = before ++ .image url :: after ∧
      before.countP ContentPart.isImage = j ∧
      x = (.toolResult i, imagePartBytes (.image url)) := by
  rw [locateTool_eq i 0, List.getElem?_map, Option.map_eq_some_iff] at h
  obtain ⟨y, hy, rfl⟩ := h
  obtain ⟨before, url, after, hparts, hcount, rfl⟩ := getElem?_locateUser hy
  exact ⟨before, url, after, hparts, hcount, rfl⟩

theorem evictParts_text (k : ℕ) (text : String) (parts : List ContentPart) :
    evictParts k (.text text :: parts) = .text text :: evictParts k parts := by
  cases k with
  | zero => rw [evictParts, evictParts]
  | succ k => rfl

theorem dropImages_text (k : ℕ) (text : String) (parts : List ContentPart) :
    dropImages k (.text text :: parts) = .text text :: dropImages k parts := by
  cases k with
  | zero => rw [dropImages, dropImages]
  | succ k => rfl

/-- The images in front of a place go before those behind it. -/
theorem evictParts_append (k : ℕ) (before after : List ContentPart) :
    evictParts (before.countP ContentPart.isImage + k) (before ++ after) =
      evictParts (before.countP ContentPart.isImage) before ++ evictParts k after := by
  induction before with
  | nil =>
    rw [List.countP_nil, Nat.zero_add]
    rfl
  | cons part before ih =>
    cases part with
    | text text =>
      rw [List.countP_cons_of_neg Bool.false_ne_true, List.cons_append, evictParts_text,
        evictParts_text, ih]
      rfl
    | image url =>
      rw [List.countP_cons_of_pos rfl, Nat.add_right_comm, List.cons_append, evictParts,
        evictParts, ih]
      rfl

theorem length_evictParts (k : ℕ) (parts : List ContentPart) :
    (evictParts k parts).length = parts.length := by
  induction parts generalizing k with
  | nil => cases k <;> rfl
  | cons part parts ih =>
    cases part with
    | text text => rw [evictParts_text, List.length_cons, ih, List.length_cons]
    | image url =>
      cases k with
      | zero => rfl
      | succ k => rw [evictParts, List.length_cons, ih, List.length_cons]

/-- The images in front of a place are gone before those behind it. -/
theorem dropImages_append (k : ℕ) (before after : List ContentPart) :
    dropImages (before.countP ContentPart.isImage + k) (before ++ after) =
      (before.filter fun part => !part.isImage) ++ dropImages k after := by
  induction before with
  | nil =>
    rw [List.countP_nil, Nat.zero_add]
    rfl
  | cons part before ih =>
    cases part with
    | text text =>
      rw [List.countP_cons_of_neg Bool.false_ne_true, List.cons_append, dropImages_text, ih]
      rfl
    | image url =>
      rw [List.countP_cons_of_pos rfl, Nat.add_right_comm, List.cons_append, dropImages, ih]
      rfl

theorem findIdx_isImage {texts : List ContentPart} (url : String) (after : List ContentPart)
    (h : ∀ part ∈ texts, part.isImage = false) :
    (texts ++ .image url :: after).findIdx ContentPart.isImage = texts.length := by
  rw [List.findIdx_append, List.findIdx_eq_length_of_false h, if_neg (lt_irrefl _),
    List.findIdx_cons]
  exact Nat.zero_add _

theorem noted_withNote (content : String) :
    toolImageCompactNote.toList <:+: (withNote content).toList := by
  unfold withNote
  split
  · assumption
  · rw [String.toList_append]
    exact (List.suffix_append _ _).isInfix

theorem withNote_withNote (content : String) : withNote (withNote content) = withNote content :=
  if_pos (noted_withNote content)

theorem escapedBytes_withNote (content : String) :
    escapedBytes (withNote content).toList = escapedBytes content.toList +
      if toolImageCompactNote.toList <:+: content.toList then 0 else toolNoteBytes := by
  have hnote : toolNoteBytes = escapedBytes ("\n\n" ++ toolImageCompactNote).toList := by
    rw [toolNoteBytes, byteLen_writeString, Nat.add_sub_cancel]
  unfold withNote
  split
  · rfl
  · rw [hnote, String.toList_append, String.toList_append, String.toList_append,
      escapedBytes_append, escapedBytes_append, escapedBytes_append, Nat.add_assoc]

theorem getElem?_done (item : ConversationItem) :
    (done ++ item :: rest)[done.length]? = some item := by
  rw [List.getElem?_append_right le_rfl, Nat.sub_self, List.getElem?_cons_zero]

theorem set_done (item item' : ConversationItem) :
    (done ++ item :: rest).set done.length item' = done ++ item' :: rest := by
  rw [List.set_append_right _ _ le_rfl, Nat.sub_self, List.set_cons_zero]

/-- The size that is kept up follows the size of the item in the bytes of which an image is. -/
structure Evicts (w : ItemWriter) (item item' : ConversationItem) (emptied emptied' : ℕ)
    (x : ImageLocation × ℕ) (running running' : ℕ) : Prop where
  bytes : running' + growth x + byteLen (writeItem w item) + emptied =
    running + byteLen (writeItem w item') + emptied'
  running_le : running ≤ running' + x.2 + 1

theorem evictAt_user (w : ItemWriter) {u : UserItem} (hparts : ∀ part ∈ u.content, Base64Part part)
    (hx : (locateItem done.length (.user u))[j]? = some x) (hrunning : x.2 + 1 ≤ running) :
    ∃ running', evictAt x.1 x.2 (done ++ evictItem j (.user u) :: rest) running =
        some (done ++ evictItem (j + 1) (.user u) :: rest, running') ∧
      Evicts w (evictItem j (.user u)) (evictItem (j + 1) (.user u)) 0 0 x running running' := by
  obtain ⟨before, url, after, hcontent, rfl, rfl⟩ := getElem?_locateUser hx
  have hmem : ContentPart.image url ∈ u.content := by
    rw [hcontent]
    exact List.mem_append_right _ (List.mem_cons_self ..)
  have hbefore := evictParts_append 0 before (.image url :: after)
  have hafter := evictParts_append 1 before (.image url :: after)
  have hlength := length_evictParts (before.countP ContentPart.isImage) before
  generalize evictParts (before.countP ContentPart.isImage) before = gone at *
  rw [Nat.add_zero, ← hcontent, evictParts] at hbefore
  rw [← hcontent, evictParts, evictParts] at hafter
  obtain ⟨others, hothers⟩ := byteLen_writeItem_user w u
  have hbytes := byteLen_writeArray_replace (gone.map writePart) (after.map writePart)
    (writePart (.image url)) (writePart placeholder)
  refine ⟨running - (imagePartBytes (.image url) - placeholderBytes), ?_, ?_, ?_⟩
  · have hget : (gone ++ .image url :: after)[before.length]? = some (.image url) := by
      rw [← hlength, List.getElem?_append_right le_rfl, Nat.sub_self, List.getElem?_cons_zero]
    have hset : (gone ++ .image url :: after).set before.length placeholder =
        gone ++ placeholder :: after := by
      rw [← hlength, List.set_append_right _ _ le_rfl, Nat.sub_self, List.set_cons_zero]
    simp only [evictAt, evictItem, getElem?_done, hbefore, hafter, Nat.zero_add, hget, hset,
      set_done]
  · simp only [evictItem, hothers, hbefore, hafter, List.map_append, List.map_cons, growth]
    rw [imagePartBytes_eq (hparts _ hmem)] at hrunning ⊢
    rw [← placeholderBytes] at hbytes
    omega
  · dsimp only
    omega

theorem evictItem_tool (r : ToolResultItem) :
    evictItem j (.toolResult r) = .toolResult { r with
      content := if j = 0 then r.content else withNote r.content
      images := dropImages j r.images } := by
  cases j with
  | zero =>
    have hzero : dropImages 0 r.images = r.images := by
      cases r.images <;> rw [dropImages]
    rw [evictItem, if_pos rfl, if_pos rfl, hzero]
  | succ j => rw [evictItem, if_neg (Nat.succ_ne_zero j), if_neg (Nat.succ_ne_zero j)]

theorem byteLen_emptyImagesField : byteLen ",\"images\":[]".toList = 12 := by
  decide +kernel

/-- An image that goes from a tool result takes a comma or the whole field along. -/
theorem byteLen_writeImages_remove (texts after : List ContentPart) (url : String) :
    byteLen (writeImages (texts ++ .image url :: after)) +
        (if (texts ++ after).isEmpty then 0 else 12) =
      byteLen (writeImages (texts ++ after)) + byteLen (writePart (.image url)) +
        (if (texts ++ after).isEmpty then 0 else 1) + 12 := by
  have hsome : (texts ++ .image url :: after).isEmpty = false := by
    cases texts <;> rfl
  have hremove := byteLen_writeArray_remove (texts.map writePart) (after.map writePart)
    (writePart (.image url))
  rw [byteLen_writeImages, byteLen_writeImages, hsome]
  rw [← List.map_append, List.isEmpty_map] at hremove
  simp only [List.map_append, List.map_cons, Bool.false_eq_true, if_false] at hremove ⊢
  rw [hremove]
  cases hempty : texts ++ after with
  | nil =>
    obtain ⟨rfl, rfl⟩ := List.append_eq_nil_iff.mp hempty
    have hnone : byteLen (writeArray []) = 2 := rfl
    simp only [List.isEmpty_nil, if_true, List.map_nil, List.append_nil, hnone]
    omega
  | cons part parts =>
    simp only [List.isEmpty_cons, Bool.false_eq_true, if_false]
    omega

theorem evictAt_tool (w : ItemWriter) {r : ToolResultItem}
    (hparts : ∀ part ∈ r.images, Base64Part part)
    (hx : (locateItem done.length (.toolResult r))[j]? = some x) (hrunning : x.2 + 1 ≤ running) :
    ∃ running', evictAt x.1 x.2 (done ++ evictItem j (.toolResult r) :: rest) running =
        some (done ++ evictItem (j + 1) (.toolResult r) :: rest, running') ∧
      Evicts w (evictItem j (.toolResult r)) (evictItem (j + 1) (.toolResult r))
        (emptiedItem j (.toolResult r)) (emptiedItem (j + 1) (.toolResult r)) x running
        running' := by
  obtain ⟨before, url, after, himages, rfl, rfl⟩ := getElem?_locateTool hx
  have hmem : ContentPart.image url ∈ r.images := by
    rw [himages]
    exact List.mem_append_right _ (List.mem_cons_self ..)
  have hsome : r.images.isEmpty = false := by
    rw [himages]
    cases before <;> rfl
  have hbefore := dropImages_append 0 before (.image url :: after)
  have hafter := dropImages_append 1 before (.image url :: after)
  rw [Nat.add_zero, ← himages, dropImages] at hbefore
  rw [← himages, dropImages, show dropImages 0 after = after by cases after <;> rw [dropImages]]
    at hafter
  have htexts : ∀ part ∈ before.filter fun part => !part.isImage, part.isImage = false := by
    intro part hpart
    simpa using (List.mem_filter.mp hpart).2
  generalize (before.filter fun part => !part.isImage) = texts at hbefore hafter htexts
  generalize before.countP ContentPart.isImage = j at hbefore hafter ⊢
  obtain ⟨others, hothers⟩ := byteLen_writeItem_tool w r
  have hbytes := byteLen_writeImages_remove texts after url
  have hnote : withNote (if j = 0 then r.content else withNote r.content) = withNote r.content := by
    split
    · rfl
    · exact withNote_withNote r.content
  have hold : evictItem j (.toolResult r) = .toolResult { r with
      content := if j = 0 then r.content else withNote r.content
      images := texts ++ .image url :: after } := by
    rw [evictItem_tool, hbefore]
  have hnew : evictItem (j + 1) (.toolResult r) = .toolResult { r with
      content := withNote (if j = 0 then r.content else withNote r.content)
      images := texts ++ after } := by
    rw [evictItem_tool, hafter, if_neg (Nat.succ_ne_zero j), hnote]
  have hemptied : emptiedItem j (.toolResult r) = 0 := by
    rw [emptiedItem, hbefore, hsome]
    cases texts <;> rfl
  have hemptied' : emptiedItem (j + 1) (.toolResult r) =
      if (texts ++ after).isEmpty then 12 else 0 := by
    rw [emptiedItem, hafter, hsome, byteLen_emptyImagesField, Bool.not_false, Bool.and_true]
  rw [hold, hnew, hemptied, hemptied']
  generalize (if j = 0 then r.content else withNote r.content) = content
  have herase : (texts ++ .image url :: after).eraseIdx
      ((texts ++ .image url :: after).findIdx ContentPart.isImage) = texts ++ after := by
    rw [findIdx_isImage url after htexts, List.eraseIdx_append_of_length_le le_rfl, Nat.sub_self,
      List.eraseIdx_cons_zero]
  have hcontent := escapedBytes_withNote content
  refine ⟨running - (imagePartBytes (.image url) + if (texts ++ after).isEmpty then 0 else 1) +
    if toolImageCompactNote.toList <:+: content.toList then 0 else toolNoteBytes, ?_, ?_, ?_⟩
  · simp only [evictAt, getElem?_done, herase, set_done]
    split
    · rename_i hnoted
      rw [withNote, if_pos hnoted, Nat.add_zero]
    · rename_i hnoted
      rw [withNote, if_neg hnoted]
  · rw [hothers, hothers, hcontent, growth]
    rw [imagePartBytes_eq (hparts _ hmem)] at hrunning ⊢
    dsimp only at hrunning
    by_cases hempty : (texts ++ after).isEmpty = true
    · simp only [hempty, if_true] at hbytes ⊢
      omega
    · simp only [hempty, Bool.false_eq_true, if_false] at hbytes ⊢
      omega
  · dsimp only
    split <;> omega

/-- An image that goes takes its item from one state of it to the next. -/
theorem evictAt_item (w : ItemWriter) {item : ConversationItem} {x : ImageLocation × ℕ}
    (hparts : ∀ part ∈ item.parts, Base64Part part)
    (hx : (locateItem done.length item)[j]? = some x) (hrunning : x.2 + 1 ≤ running) :
    ∃ running', evictAt x.1 x.2 (done ++ evictItem j item :: rest) running =
        some (done ++ evictItem (j + 1) item :: rest, running') ∧
      Evicts w (evictItem j item) (evictItem (j + 1) item) (emptiedItem j item)
        (emptiedItem (j + 1) item) x running running' := by
  cases item with
  | user u => exact evictAt_user w hparts hx hrunning
  | toolResult r => exact evictAt_tool w hparts hx hrunning
  | _ => cases hx

theorem length_locateUser (part : ℕ) (parts : List ContentPart) :
    (locateUser i part parts).length = parts.countP ContentPart.isImage := by
  induction parts generalizing part with
  | nil => rfl
  | cons p parts ih =>
    cases p with
    | text text => rw [locateUser, ih, List.countP_cons_of_neg Bool.false_ne_true]
    | image url => rw [locateUser, List.length_cons, ih, List.countP_cons_of_pos rfl]

theorem length_locateTool (parts : List ContentPart) :
    (locateTool i parts).length = parts.countP ContentPart.isImage := by
  rw [locateTool_eq i 0, List.length_map, length_locateUser]

theorem length_locateItem (item : ConversationItem) :
    (locateItem i item).length = item.imageCount := by
  cases item with
  | user u => exact length_locateUser 0 u.content
  | toolResult r => exact length_locateTool r.images
  | _ => rfl

theorem length_locateImages (i : ℕ) (conversation : List ConversationItem) :
    (locateImages i conversation).length = inlineImageCount conversation := by
  induction conversation generalizing i with
  | nil => rfl
  | cons item rest ih =>
    rw [locateImages, List.length_append, length_locateItem, ih]
    rfl

theorem inlineImageCount_cons (item : ConversationItem) (rest : List ConversationItem) :
    inlineImageCount (item :: rest) = item.imageCount + inlineImageCount rest := rfl

theorem getElem?_locateImages {conversation : List ConversationItem}
    (h : (locateImages i conversation)[k]? = some x) :
    ∃ before item after j, conversation = before ++ item :: after ∧
      k = inlineImageCount before + j ∧ j < item.imageCount ∧
      (locateItem (i + before.length) item)[j]? = some x := by
  induction conversation generalizing i k with
  | nil => cases h
  | cons item rest ih =>
    rw [locateImages] at h
    by_cases hlt : k < (locateItem i item).length
    · rw [List.getElem?_append_left hlt] at h
      rw [length_locateItem] at hlt
      exact ⟨[], item, rest, k, rfl, (Nat.zero_add k).symm, hlt, h⟩
    · rw [not_lt] at hlt
      rw [List.getElem?_append_right hlt] at h
      rw [length_locateItem] at hlt h
      obtain ⟨before, item', after, j, rfl, hk, hj, hx⟩ := ih h
      refine ⟨item :: before, item', after, j, rfl, ?_, hj, ?_⟩
      · rw [inlineImageCount_cons]
        omega
      · rw [List.length_cons, Nat.add_comm before.length 1, ← Nat.add_assoc]
        exact hx

theorem evictItem_zero (item : ConversationItem) : evictItem 0 item = item := by
  cases item with
  | user u =>
    have hzero : evictParts 0 u.content = u.content := by
      cases u.content <;> rw [evictParts]
    rw [evictItem, hzero]
  | toolResult r => rfl
  | _ => rfl

theorem emptiedItem_zero (item : ConversationItem) : emptiedItem 0 item = 0 := by
  cases item with
  | toolResult r =>
    have hzero : dropImages 0 r.images = r.images := by
      cases r.images <;> rw [dropImages]
    rw [emptiedItem, hzero, Bool.and_not_self]
    rfl
  | _ => rfl

theorem evictFirst_zero (conversation : List ConversationItem) :
    evictFirst 0 conversation = conversation := by
  induction conversation with
  | nil => rfl
  | cons item rest ih => rw [evictFirst, Nat.zero_min, Nat.zero_sub, evictItem_zero, ih]

theorem emptiedFields_zero (conversation : List ConversationItem) :
    emptiedFields 0 conversation = 0 := by
  induction conversation with
  | nil => rfl
  | cons item rest ih => rw [emptiedFields, Nat.zero_min, Nat.zero_sub, emptiedItem_zero, ih]

/-- The images of the items in front go before those of an item. -/
theorem evictFirst_append {before after : List ConversationItem} {item : ConversationItem}
    (hj : j ≤ item.imageCount) :
    evictFirst (inlineImageCount before + j) (before ++ item :: after) =
        evictFirst (inlineImageCount before) before ++ evictItem j item :: after ∧
      emptiedFields (inlineImageCount before + j) (before ++ item :: after) =
        emptiedFields (inlineImageCount before) before + emptiedItem j item := by
  induction before with
  | nil =>
    have hzero : inlineImageCount [] = 0 := rfl
    constructor
    · rw [hzero, evictFirst_zero, List.nil_append, List.nil_append, Nat.zero_add, evictFirst,
        Nat.min_eq_left hj, Nat.sub_eq_zero_of_le hj, evictFirst_zero]
    · rw [hzero, emptiedFields_zero, List.nil_append, Nat.zero_add, Nat.zero_add, emptiedFields,
        Nat.min_eq_left hj, Nat.sub_eq_zero_of_le hj, emptiedFields_zero, Nat.add_zero]
  | cons item' before ih =>
    have hmin : min (item'.imageCount + inlineImageCount before + j) item'.imageCount =
        min (item'.imageCount + inlineImageCount before) item'.imageCount := by omega
    have hsub : item'.imageCount + inlineImageCount before + j - item'.imageCount =
        inlineImageCount before + j := by omega
    have hsub' : item'.imageCount + inlineImageCount before - item'.imageCount =
        inlineImageCount before := by omega
    constructor
    · rw [List.cons_append, inlineImageCount_cons, evictFirst, evictFirst, hmin, hsub, hsub', ih.1,
        List.cons_append]
    · rw [List.cons_append, inlineImageCount_cons, emptiedFields, emptiedFields, hmin, hsub, hsub',
        ih.2, Nat.add_assoc]

theorem length_evictFirst (k : ℕ) (conversation : List ConversationItem) :
    (evictFirst k conversation).length = conversation.length := by
  induction conversation generalizing k with
  | nil => rfl
  | cons item rest ih => rw [evictFirst, List.length_cons, ih, List.length_cons]

/-- The size that is kept up, with what the images in front have grown by, is the size of the
conversation without them, with the fields that are not written any more; and it is enough for the
images behind. -/
structure Tracks (w : ItemWriter) (conversation : List ConversationItem) (k running : ℕ) :
    Prop where
  bytes : running + grown k conversation =
    serializedJsonBytes w (evictFirst k conversation) + emptiedFields k conversation
  le_running : (((locateImages 0 conversation).drop k).map fun x => x.2 + 1).sum ≤ running

/-- An image that goes takes the conversation from one state of it to the next. -/
theorem evictAt_tracks (w : ItemWriter) {conversation : List ConversationItem}
    (htails : Base64Tails conversation)
    (hx : (locateImages 0 conversation)[k]? = some x) (htracks : Tracks w conversation k running) :
    ∃ running', evictAt x.1 x.2 (evictFirst k conversation) running =
        some (evictFirst (k + 1) conversation, running') ∧
      Tracks w conversation (k + 1) running' := by
  have hget := List.getElem?_eq_some_iff.mp hx
  have hdrop : (locateImages 0 conversation).drop k =
      x :: (locateImages 0 conversation).drop (k + 1) := by
    rw [List.drop_eq_getElem_cons hget.1, hget.2]
  have hle := htracks.le_running
  rw [hdrop, List.map_cons, List.sum_cons] at hle
  have hgrown : grown (k + 1) conversation = grown k conversation + growth x := by
    rw [grown, grown, List.take_add_one, hx, List.map_append, List.sum_append]
    rfl
  obtain ⟨before, item, after, j, rfl, rfl, hj, hitem⟩ := getElem?_locateImages hx
  obtain ⟨hevict, hemptied⟩ := @evictFirst_append j before after item hj.le
  obtain ⟨hevict', hemptied'⟩ := @evictFirst_append (j + 1) before after item hj
  rw [← Nat.add_assoc] at hevict' hemptied'
  rw [Nat.zero_add, ← length_evictFirst (inlineImageCount before) before] at hitem
  have hparts := htails item (List.mem_append_right _ (List.mem_cons_self ..))
  obtain ⟨running', hat, hevicts⟩ := @evictAt_item _ after j running w item x hparts hitem
    (by omega)
  have hreplace := byteLen_writeArray_replace
    ((evictFirst (inlineImageCount before) before).map (writeItem w)) (after.map (writeItem w))
    (writeItem w (evictItem j item)) (writeItem w (evictItem (j + 1) item))
  refine ⟨running', ?_, ?_, ?_⟩
  · rw [hevict, hevict', hat]
  · have hbytes := htracks.bytes
    have hstep := hevicts.bytes
    rw [hevict, hemptied, serializedJsonBytes, List.map_append, List.map_cons] at hbytes
    rw [hevict', hemptied', hgrown, serializedJsonBytes, List.map_append, List.map_cons]
    omega
  · have hstep := hevicts.running_le
    omega

/-- The images that go are those in front of the first number of images at which the size that is
kept up is at the target. -/
theorem evictLoop_eq (w : ItemWriter) {conversation : List ConversationItem} {target : ℕ}
    (htails : Base64Tails conversation) (hk : k ≤ inlineImageCount conversation)
    (htracks : Tracks w conversation k running) :
    ∃ n, k ≤ n ∧ n ≤ inlineImageCount conversation ∧
      evictLoop target ((locateImages 0 conversation).drop k) (evictFirst k conversation) running
        k = (evictFirst n conversation, n) ∧
      (∀ m, k ≤ m → m < n → target + grown m conversation <
        serializedJsonBytes w (evictFirst m conversation) + emptiedFields m conversation) ∧
      (n = inlineImageCount conversation ∨
        serializedJsonBytes w (evictFirst n conversation) + emptiedFields n conversation ≤
          target + grown n conversation) := by
  induction hleft : inlineImageCount conversation - k generalizing k running with
  | zero =>
    have hlast : k = inlineImageCount conversation := by omega
    have hnil : (locateImages 0 conversation).drop k = [] :=
      List.drop_eq_nil_of_le (by rw [length_locateImages, hlast])
    exact ⟨k, le_rfl, hk, by rw [hnil, evictLoop], fun m hm hlt => absurd hlt (not_lt.mpr hm),
      Or.inl hlast⟩
  | succ left ih =>
    have hlt : k < (locateImages 0 conversation).length := by
      rw [length_locateImages]
      omega
    have hx := List.getElem?_eq_getElem hlt
    have hbytes := htracks.bytes
    rw [List.drop_eq_getElem_cons hlt, evictLoop]
    by_cases hstop : running ≤ target
    · rw [if_pos hstop]
      exact ⟨k, le_rfl, hk, rfl, fun m hm hlt => absurd hlt (not_lt.mpr hm), Or.inr (by omega)⟩
    · obtain ⟨running', hat, htracks'⟩ := evictAt_tracks w htails hx htracks
      obtain ⟨n, hkn, hn, hloop, hbefore, hend⟩ := ih (by omega) htracks' (by omega)
      refine ⟨n, by omega, hn, ?_, ?_, hend⟩
      · rw [if_neg hstop, hat]
        exact hloop
      · intro m hm hmn
        by_cases heq : m = k
        · subst heq
          omega
        · exact hbefore m (by omega) hmn

theorem sum_locateUser_le {part : ℕ} {parts : List ContentPart}
    (h : ∀ part ∈ parts, Base64Part part) :
    ((locateUser i part parts).map fun x => x.2 + 1).sum ≤
      ((parts.map writePart).map fun t => byteLen t + 1).sum := by
  induction parts generalizing part with
  | nil => exact le_rfl
  | cons p parts ih =>
    rw [List.forall_mem_cons] at h
    have hrest := @ih (part + 1) h.2
    have hrest' := @ih part h.2
    cases p with
    | text text =>
      simp only [locateUser, List.map_cons, List.sum_cons] at hrest ⊢
      omega
    | image url =>
      simp only [locateUser, List.map_cons, List.sum_cons, imagePartBytes_eq h.1] at hrest ⊢
      omega

theorem sum_locateTool_le {parts : List ContentPart} (h : ∀ part ∈ parts, Base64Part part) :
    ((locateTool i parts).map fun x => x.2 + 1).sum ≤
      ((parts.map writePart).map fun t => byteLen t + 1).sum := by
  rw [locateTool_eq i 0, List.map_map]
  exact sum_locateUser_le h

theorem sum_locateItem_le (w : ItemWriter) {item : ConversationItem}
    (h : ∀ part ∈ item.parts, Base64Part part) :
    ((locateItem i item).map fun x => x.2 + 1).sum ≤ byteLen (writeItem w item) := by
  cases item with
  | user u =>
    obtain ⟨others, hothers⟩ := byteLen_writeItem_user w u
    have hsum := @sum_locateUser_le i 0 u.content h
    have harray := sum_le_byteLen_writeArray (u.content.map writePart)
    change _ ≤ byteLen (writeItem w (.user { u with content := u.content }))
    rw [hothers]
    exact hsum.trans (harray.trans (Nat.le_add_left _ _))
  | toolResult r =>
    obtain ⟨others, hothers⟩ := byteLen_writeItem_tool w r
    have hsum := @sum_locateTool_le i r.images h
    have harray := sum_le_byteLen_writeArray (r.images.map writePart)
    change _ ≤ byteLen (writeItem w (.toolResult { r with
      content := r.content, images := r.images }))
    rw [hothers, byteLen_writeImages]
    cases himages : r.images with
    | nil =>
      rw [locateItem, himages]
      exact Nat.zero_le _
    | cons image images =>
      rw [himages] at hsum harray
      rw [locateItem, himages]
      simp only [List.isEmpty_cons, Bool.false_eq_true, if_false]
      omega
  | _ => exact Nat.zero_le _

theorem tracks_zero (w : ItemWriter) {conversation : List ConversationItem}
    (htails : Base64Tails conversation) :
    Tracks w conversation 0 (serializedJsonBytes w conversation) := by
  refine ⟨?_, ?_⟩
  · rw [evictFirst_zero, emptiedFields_zero]
    rfl
  · have hsum : ∀ i, ((locateImages i conversation).map fun x => x.2 + 1).sum ≤
        ((conversation.map (writeItem w)).map byteLen).sum := by
      intro i
      induction conversation generalizing i with
      | nil => exact le_rfl
      | cons item rest ih =>
        rw [Base64Tails, List.forall_mem_cons] at htails
        have hitem := @sum_locateItem_le i w item htails.1
        have hrest := ih htails.2 (i + 1)
        rw [locateImages, List.map_append, List.sum_append, List.map_cons, List.map_cons,
          List.sum_cons]
        omega
    rw [List.drop_zero, serializedJsonBytes, byteLen_writeArray]
    have hsum := hsum 0
    omega

theorem countP_evictParts (k : ℕ) (parts : List ContentPart) :
    (evictParts k parts).countP ContentPart.isImage = parts.countP ContentPart.isImage - k := by
  induction parts generalizing k with
  | nil =>
    rw [List.countP_nil, Nat.zero_sub]
    cases k <;> rfl
  | cons part parts ih =>
    cases part with
    | text text =>
      rw [evictParts_text, List.countP_cons_of_neg Bool.false_ne_true, ih,
        List.countP_cons_of_neg Bool.false_ne_true]
    | image url =>
      cases k with
      | zero => rfl
      | succ k =>
        rw [evictParts, placeholder, List.countP_cons_of_neg Bool.false_ne_true, ih,
          List.countP_cons_of_pos rfl, Nat.add_sub_add_right]

theorem countP_dropImages (k : ℕ) (parts : List ContentPart) :
    (dropImages k parts).countP ContentPart.isImage = parts.countP ContentPart.isImage - k := by
  induction parts generalizing k with
  | nil =>
    rw [List.countP_nil, Nat.zero_sub]
    cases k <;> rfl
  | cons part parts ih =>
    cases part with
    | text text =>
      rw [dropImages_text, List.countP_cons_of_neg Bool.false_ne_true, ih,
        List.countP_cons_of_neg Bool.false_ne_true]
    | image url =>
      cases k with
      | zero => rfl
      | succ k => rw [dropImages, ih, List.countP_cons_of_pos rfl, Nat.add_sub_add_right]

theorem imageCount_evictItem (k : ℕ) (item : ConversationItem) :
    (evictItem k item).imageCount = item.imageCount - k := by
  cases item with
  | user u => exact countP_evictParts k u.content
  | toolResult r =>
    rw [evictItem_tool]
    exact countP_dropImages k r.images
  | _ => exact (Nat.zero_sub k).symm

/-- So many images are left. -/
theorem inlineImageCount_evictFirst (k : ℕ) (conversation : List ConversationItem) :
    inlineImageCount (evictFirst k conversation) = inlineImageCount conversation - k := by
  induction conversation generalizing k with
  | nil => exact (Nat.zero_sub k).symm
  | cons item rest ih =>
    rw [evictFirst, inlineImageCount_cons, inlineImageCount_cons, imageCount_evictItem, ih]
    omega

end Steps

section Budget

variable (w : ItemWriter) (conversation : List ConversationItem) (trigger target : ℕ)

/-- The first images of a conversation that is too large go, until it is at the target or none is
left, and nothing else changes. -/
structure Reclaims : Prop where
  bodyBytes : conversationBodyBytes w conversation = serializedJsonBytes w conversation
  below : serializedJsonBytes w conversation < trigger →
    (applyImageBudgetWithLimits w conversation trigger target).items = conversation
  evicts : trigger ≤ serializedJsonBytes w conversation → ∃ k ≤ inlineImageCount conversation,
    (applyImageBudgetWithLimits w conversation trigger target).items = evictFirst k conversation ∧
      (applyImageBudgetWithLimits w conversation trigger target).outcome.evicted = k
  reclaimed : trigger ≤ serializedJsonBytes w conversation →
    serializedJsonBytes w (applyImageBudgetWithLimits w conversation trigger target).items ≤
        target ∨
      inlineImageCount (applyImageBudgetWithLimits w conversation trigger target).items = 0

/-- At the first number of images without which the conversation takes no more than the target but
for what these images have grown by, with the fields that are not written any more, it takes no
more than the target. -/
def FirstFits : Prop :=
  ∀ n < inlineImageCount conversation,
    (∀ m < n, target + grown m conversation <
      serializedJsonBytes w (evictFirst m conversation) + emptiedFields m conversation) →
    serializedJsonBytes w (evictFirst n conversation) + emptiedFields n conversation ≤
      target + grown n conversation →
    serializedJsonBytes w (evictFirst n conversation) ≤ target

variable {w conversation trigger target} in
/-- A conversation that has reached the trigger loses the images in front of the first number of
them at which the size that is kept up is at the target. -/
theorem applyImageBudgetWithLimits_reached (htails : Base64Tails conversation)
    (hlimits : target < trigger) (hreached : trigger ≤ serializedJsonBytes w conversation) :
    ∃ n ≤ inlineImageCount conversation,
      (applyImageBudgetWithLimits w conversation trigger target).items =
          evictFirst n conversation ∧
        (applyImageBudgetWithLimits w conversation trigger target).outcome.evicted = n ∧
        (∀ m < n, target + grown m conversation <
          serializedJsonBytes w (evictFirst m conversation) + emptiedFields m conversation) ∧
        (n = inlineImageCount conversation ∨
          serializedJsonBytes w (evictFirst n conversation) + emptiedFields n conversation ≤
            target + grown n conversation) := by
  obtain ⟨n, -, hn, hloop, hbefore, hend⟩ := @evictLoop_eq 0 _ w conversation target htails
    (Nat.zero_le _) (tracks_zero w htails)
  have hbody := conversationBodyBytes_eq w htails
  have habove : target < serializedJsonBytes w conversation := hlimits.trans_le hreached
  have hgo : evictImagesToBudget conversation (serializedJsonBytes w conversation) target =
      (evictFirst n conversation, n) := by
    rw [evictFirst_zero, List.drop_zero] at hloop
    exact hloop
  refine ⟨n, hn, ?_, ?_, fun m hm => hbefore m (Nat.zero_le m) hm, hend⟩
  · simp only [applyImageBudgetWithLimits, hbody, hreached, habove, decide_true, Bool.and_self,
      if_true, hgo]
  · simp only [applyImageBudgetWithLimits, hbody, hreached, habove, decide_true, Bool.and_self,
      if_true, hgo]

/-- The images are reclaimed exactly when images of the user that are shorter than what stands in
their place do not hide that the body is still above the target. -/
theorem reclaims_iff (htails : Base64Tails conversation) (hlimits : target < trigger) :
    Reclaims w conversation trigger target ↔
      (trigger ≤ serializedJsonBytes w conversation → FirstFits w conversation target) := by
  have hbody := conversationBodyBytes_eq w htails
  by_cases hreached : trigger ≤ serializedJsonBytes w conversation
  · obtain ⟨n, hn, hitems, hevicted, hbefore, hend⟩ :=
      applyImageBudgetWithLimits_reached htails hlimits hreached
    have hreclaimed : Reclaims w conversation trigger target ↔
        serializedJsonBytes w (evictFirst n conversation) ≤ target ∨
          n = inlineImageCount conversation := by
      have hleft : inlineImageCount (evictFirst n conversation) = 0 ↔
          n = inlineImageCount conversation := by
        rw [inlineImageCount_evictFirst]
        omega
      rw [← hleft, ← hitems]
      constructor
      · intro h
        exact h.reclaimed hreached
      · intro h
        exact ⟨hbody, fun hlt => absurd hreached (not_le.mpr hlt),
          fun _ => ⟨n, hn, hitems, hevicted⟩, fun _ => h⟩
    rw [hreclaimed]
    constructor
    · intro h _ n' hn' hbefore' hfits
      have heq : n' = n := by
        rcases lt_trichotomy n' n with hlt | heq | hlt
        · have habove := hbefore n' hlt
          omega
        · exact heq
        · have habove := hbefore' n hlt
          rcases hend with hlast | hfits'
          · omega
          · omega
      subst heq
      exact h.resolve_right (Nat.ne_of_lt hn')
    · intro h
      by_cases hlast : n = inlineImageCount conversation
      · exact Or.inr hlast
      · exact Or.inl (h hreached n (by omega) hbefore (hend.resolve_left hlast))
  · have hitems : (applyImageBudgetWithLimits w conversation trigger target).items =
        conversation := by
      simp only [applyImageBudgetWithLimits, hbody, hreached, decide_false, Bool.false_and,
        Bool.false_eq_true, if_false]
    refine iff_of_true ?_ fun h => absurd h hreached
    exact ⟨hbody, fun _ => hitems, fun h => absurd h hreached, fun h => absurd h hreached⟩

end Budget

section Runs

theorem base64Part_of_all {url : String}
    (h : (splitOnce [','] url.toList).all (fun split => split.2.all isBase64) = true) :
    Base64Part (.image url) := by
  intro url' header base64Tail hurl hsplit _ _
  cases hurl
  rw [hsplit, Option.all_some, List.all_eq_true] at h
  exact h

/-- A writer for messages without other fields. -/
def plainWriter : ItemWriter := ⟨fun _ _ _ _ => [], fun _ => []⟩

/-- A message of the user. -/
def userMessage (content : List ContentPart) : ConversationItem :=
  .user ⟨content, .human, none, none, none⟩

theorem base64Tails_userMessage {urls : List String}
    (h : ∀ url ∈ urls,
      (splitOnce [','] url.toList).all (fun split => split.2.all isBase64) = true) :
    Base64Tails [userMessage (urls.map ContentPart.image)] := by
  intro item hitem part hpart
  obtain rfl := List.mem_singleton.mp hitem
  obtain ⟨url, hurl, rfl⟩ := List.mem_map.mp hpart
  exact base64Part_of_all (h url hurl)

theorem serializedJsonBytes_userMessage (content : List ContentPart) :
    serializedJsonBytes plainWriter [userMessage content] =
      byteLen (writeArray (content.map writePart)) + 28 := by
  have hfront : byteLen "\x7b\"type\":\"user\",\"content\":".toList = 25 := by decide +kernel
  have hclose : byteLen ['\x7d'] = 1 := rfl
  rw [serializedJsonBytes, byteLen_writeArray, List.map_singleton, List.map_singleton,
    List.sum_singleton, List.length_singleton, userMessage]
  unfold writeItem
  generalize "\x7b\"type\":\"user\",\"content\":".toList = front at hfront ⊢
  dsimp only [plainWriter]
  rw [List.append_nil, byteLen_append, byteLen_append, hfront, hclose]
  omega

set_option maxRecDepth 4000 in
theorem placeholderBytes_eq : placeholderBytes = 238 := by
  have htext : ∃ text, imageCompactPlaceholder = String.ofList text ∧ escapedBytes text = 213 :=
    ⟨_, rfl, by decide +kernel⟩
  have hfront : byteLen "\x7b\"type\":\"text\",\"text\":".toList = 22 := by decide +kernel
  have hclose : byteLen ['\x7d'] = 1 := rfl
  obtain ⟨text, htext, hbytes⟩ := htext
  unfold placeholderBytes placeholder writePart
  generalize "\x7b\"type\":\"text\",\"text\":".toList = front at hfront ⊢
  have hlist : (String.ofList text).toList = text := String.toList_ofList
  rw [htext, byteLen_append, byteLen_append, byteLen_writeString, hfront, hclose, hlist, hbytes]

/-- A single inlined image. -/
theorem reclaims_single :
    Reclaims plainWriter [userMessage [.image "data:image/png;base64,AAAA"]] 60 50 ↔
      (60 ≤ serializedJsonBytes plainWriter [userMessage [.image "data:image/png;base64,AAAA"]] →
        FirstFits plainWriter [userMessage [.image "data:image/png;base64,AAAA"]] 50) :=
  reclaims_iff plainWriter [userMessage [.image "data:image/png;base64,AAAA"]] 60 50
    (@base64Tails_userMessage ["data:image/png;base64,AAAA"] (by decide +kernel)) (by decide)

/-- An address of three hundred characters. -/
def longUrl : String := String.ofList (List.replicate 300 'a')

/-- Three images, the first of which is shorter than what stands in its place. -/
def threeImages : List ContentPart := [.image "https://e.io/a.png", .image longUrl, .image longUrl]

theorem toList_longUrl : longUrl.toList = List.replicate 300 'a' := by
  unfold longUrl
  exact String.toList_ofList

theorem base64Tails_threeImages : Base64Tails [userMessage threeImages] := by
  have hnone : splitOnce [','] longUrl.toList = none := by
    rw [toList_longUrl]
    exact splitOnce_singleton_of_not_mem (by decide +kernel)
  refine @base64Tails_userMessage ["https://e.io/a.png", longUrl, longUrl] fun url hurl => ?_
  rcases List.mem_cons.mp hurl with rfl | hurl
  · decide +kernel
  · have hurl : url = longUrl := by simpa using hurl
    rw [hurl, hnone]
    rfl

theorem byteLen_threeImages :
    byteLen (writePart (.image "https://e.io/a.png")) = 43 ∧
      byteLen (writePart (.image longUrl)) = 325 := by
  have hplain : escapedBytes (List.replicate 300 'a') = 300 := by decide +kernel
  have hframe : imagePartFrameBytes = 25 := by decide +kernel
  refine ⟨by decide +kernel, ?_⟩
  rw [byteLen_writePart_image, toList_longUrl, hplain, hframe]

/-- The first of three images is shorter than what stands in its place, so that the body is said to
be at the target when the second one is gone, and the third one stays. -/
theorem not_reclaims :
    ¬∀ (w : ItemWriter) (conversation : List ConversationItem) (trigger target : ℕ),
      Base64Tails conversation → target < trigger → Reclaims w conversation trigger target := by
  intro h
  have hreclaims := h plainWriter [userMessage threeImages] 720 650 base64Tails_threeImages
    (by decide)
  obtain ⟨hshort, hlong⟩ := byteLen_threeImages
  have hplaceholder := placeholderBytes_eq
  unfold placeholderBytes at hplaceholder
  have hparts := base64Tails_threeImages (userMessage threeImages) (List.mem_singleton_self _)
  have hgrown : grown 1 [userMessage threeImages] = 195 ∧
      grown 2 [userMessage threeImages] = 195 := by
    have hfirst : growth (.user 0 0, imagePartBytes (.image "https://e.io/a.png")) = 195 := by
      rw [growth, imagePartBytes_eq (hparts _ (List.mem_cons_self ..)), hshort,
        placeholderBytes_eq]
    have hsecond : growth (.user 0 1, imagePartBytes (.image longUrl)) = 0 := by
      rw [growth, imagePartBytes_eq (hparts _ (List.mem_cons_of_mem _ (List.mem_cons_self ..))),
        hlong, placeholderBytes_eq]
    have hlocate : locateImages 0 [userMessage threeImages] =
        [(.user 0 0, imagePartBytes (.image "https://e.io/a.png")),
          (.user 0 1, imagePartBytes (.image longUrl)),
          (.user 0 2, imagePartBytes (.image longUrl))] := rfl
    rw [grown, grown, hlocate]
    simp only [List.take_succ_cons, List.take_zero, List.map_cons, List.map_nil, List.sum_cons,
      List.sum_nil, hfirst, hsecond]
    omega
  have hsize : ∀ a b c, serializedJsonBytes plainWriter [userMessage [a, b, c]] =
      byteLen (writePart a) + byteLen (writePart b) + byteLen (writePart c) + 32 := by
    intro a b c
    rw [serializedJsonBytes_userMessage, byteLen_writeArray]
    simp only [List.map_cons, List.map_nil, List.sum_cons, List.sum_nil, List.length_cons,
      List.length_nil]
    omega
  have hzero : serializedJsonBytes plainWriter [userMessage threeImages] = 725 := by
    rw [threeImages, hsize, hshort, hlong]
  have hone : serializedJsonBytes plainWriter (evictFirst 1 [userMessage threeImages]) = 920 := by
    have hitems : evictFirst 1 [userMessage threeImages] =
        [userMessage [placeholder, .image longUrl, .image longUrl]] := rfl
    rw [hitems, hsize, hplaceholder, hlong]
  have htwo : serializedJsonBytes plainWriter (evictFirst 2 [userMessage threeImages]) = 833 := by
    have hitems : evictFirst 2 [userMessage threeImages] =
        [userMessage [placeholder, placeholder, .image longUrl]] := rfl
    rw [hitems, hsize, hplaceholder, hlong]
  have hreached : 720 ≤ serializedJsonBytes plainWriter [userMessage threeImages] := by omega
  obtain ⟨n, hn, hitems, -, hbefore, hend⟩ :=
    applyImageBudgetWithLimits_reached base64Tails_threeImages (by decide : 650 < 720) hreached
  have hcount : inlineImageCount [userMessage threeImages] = 3 := rfl
  have hemptied : ∀ m, emptiedFields m [userMessage threeImages] = 0 := fun m => rfl
  rw [hcount] at hn hend
  have hvalue : n = 2 := by
    rcases (by omega : n = 0 ∨ n = 1 ∨ n = 2 ∨ n = 3) with rfl | rfl | rfl | rfl
    · rw [evictFirst_zero, hzero, hemptied, show grown 0 [userMessage threeImages] = 0 from rfl]
        at hend
      omega
    · rw [hone, hemptied, hgrown.1] at hend
      omega
    · rfl
    · have habove := hbefore 2 (by decide)
      rw [htwo, hemptied, hgrown.2] at habove
      omega
  subst hvalue
  have hreclaimed := hreclaims.reclaimed hreached
  rw [hitems, htwo, inlineImageCount_evictFirst, hcount] at hreclaimed
  omega

end Runs

end Ezer.ChatState
