import AgentBridge.Acp.Context
import AgentBridge.Context.Resolution

/-!
# The size of a prompt is exact

The early estimate of the images and the limit on the envelope never refuse a prompt whose blocks
fit: what they count is nested in what is counted at the end.
-/

namespace AgentBridge

open Reasoning Context

namespace Acp

/-- What the libraries are documented to do. -/
structure Libraries.Lawful (L : Libraries) : Prop where
  /-- Base64 with padding: four characters for three bytes or what is left of them. -/
  base64_bytes : ∀ bytes, (L.base64 bytes).utf8ByteSize = (bytes.size + 2) / 3 * 4
  /-- A block is an object, a text in its member `text`, an image in its member `data`. -/
  text_member : ∀ text, ∃ members, L.block (.text text) = .obj members ∧
    ("text", .str text) ∈ members
  image_member : ∀ data mimeType, ∃ members, L.block (.image data mimeType) = .obj members ∧
    ("data", .str data) ∈ members
  pieces_join : ∀ value, String.join (L.pieces value) = print value

variable {L : Libraries} {maxBytes : Nat} {imagesAllowed imageCapability : Bool}

/-! ## Writers -/

def pieceBytes (pieces : List String) : Nat := (pieces.map String.utf8ByteSize).sum

theorem utf8ByteSize_foldl (pieces : List String) (s : String) :
    (pieces.foldl (fun r s => r ++ s) s).utf8ByteSize = s.utf8ByteSize + pieceBytes pieces := by
  induction pieces generalizing s with
  | nil => rfl
  | cons piece pieces ih =>
    rw [List.foldl_cons, ih, String.utf8ByteSize_append]
    unfold pieceBytes
    rw [List.map_cons, List.sum_cons]
    omega

theorem pieceBytes_pieces (hL : L.Lawful) (value : Value) :
    pieceBytes (L.pieces value) = (print value).utf8ByteSize := by
  rw [← hL.pieces_join]
  have := utf8ByteSize_foldl (L.pieces value) ""
  rw [String.utf8ByteSize_empty, Nat.zero_add] at this
  exact this.symm

theorem limitedWriter_toWriter (pieces : List String) (writer : LimitedWriter)
    (h : writer.bytes.utf8ByteSize ≤ writer.limit) :
    toWriter LimitedWriter.write pieces writer =
      if writer.bytes.utf8ByteSize + pieceBytes pieces ≤ writer.limit then
        some { writer with bytes := pieces.foldl (fun r s => r ++ s) writer.bytes }
      else none := by
  induction pieces generalizing writer with
  | nil => exact (if_pos h).symm
  | cons piece pieces ih =>
    have hsum : pieceBytes (piece :: pieces) = piece.utf8ByteSize + pieceBytes pieces := rfl
    by_cases hfits : piece.utf8ByteSize > writer.limit - writer.bytes.utf8ByteSize
    · have hwrite : writer.write piece = none := if_pos hfits
      rw [toWriter, hwrite, Option.bind_none, if_neg (by omega)]
    · have hwrite : writer.write piece = some { writer with bytes := writer.bytes ++ piece } :=
        if_neg hfits
      have hnext : (writer.bytes ++ piece).utf8ByteSize ≤ writer.limit := by
        rw [String.utf8ByteSize_append]
        omega
      rw [toWriter, hwrite, Option.bind_some, ih _ hnext, String.utf8ByteSize_append, hsum,
        Nat.add_assoc]
      rfl

theorem counter_toWriter (pieces : List String) (counter : Counter)
    (h : counter.used ≤ counter.limit) (hlimit : counter.limit ≤ usizeMax) :
    toWriter Counter.write pieces counter =
      if counter.used + pieceBytes pieces ≤ counter.limit then
        some { counter with used := counter.used + pieceBytes pieces }
      else none := by
  induction pieces generalizing counter with
  | nil => exact (if_pos h).symm
  | cons piece pieces ih =>
    have hsum : pieceBytes (piece :: pieces) = piece.utf8ByteSize + pieceBytes pieces := rfl
    have hwrite : counter.write piece =
        (if counter.used + piece.utf8ByteSize ≤ counter.limit then
          some (counter.used + piece.utf8ByteSize) else none).map fun used =>
            { counter with used } := by
      rw [Counter.write, checkedAdd_filter hlimit]
    by_cases hfits : counter.used + piece.utf8ByteSize ≤ counter.limit
    · rw [if_pos hfits, Option.map_some] at hwrite
      rw [toWriter, hwrite, Option.bind_some, ih { counter with used := _ } hfits hlimit, hsum]
      simp only [Nat.add_assoc]
    · rw [if_neg hfits, Option.map_none] at hwrite
      rw [toWriter, hwrite, Option.bind_none, if_neg (by omega)]

/-- The envelope is written if and only if it fits, however it is cut in pieces. -/
theorem toWriter_limited (hL : L.Lawful) (value : Value) :
    toWriter LimitedWriter.write (L.pieces value) ⟨"", maxBytes⟩ =
      if (print value).utf8ByteSize ≤ maxBytes then some ⟨print value, maxBytes⟩ else none := by
  have h := limitedWriter_toWriter (L.pieces value) ⟨"", maxBytes⟩ (Nat.zero_le _)
  rw [pieceBytes_pieces hL] at h
  have hstart : ("" : String).utf8ByteSize + (print value).utf8ByteSize =
      (print value).utf8ByteSize := Nat.zero_add _
  have hjoin : (L.pieces value).foldl (fun r s => r ++ s) "" = print value := hL.pieces_join value
  simp only [hstart, hjoin] at h
  exact h

theorem toWriter_counter (hL : L.Lawful) (hmax : maxBytes ≤ usizeMax) (value : Value) :
    toWriter Counter.write (L.pieces value) ⟨0, maxBytes⟩ =
      if (print value).utf8ByteSize ≤ maxBytes then
        some ⟨(print value).utf8ByteSize, maxBytes⟩
      else none := by
  have h := counter_toWriter (L.pieces value) ⟨0, maxBytes⟩ (Nat.zero_le _) hmax
  simpa only [pieceBytes_pieces hL, Nat.zero_add] using h

/-! ## The bytes of blocks -/

def numberBytes (n : Int) : Nat := JsonTree.utf8Bytes (numberText n)

theorem print_bytes (value : Value) :
    (print value).utf8ByteSize = value.textBytes numberBytes := by
  unfold print
  rw [JsonTree.utf8ByteSize_ofList]
  exact JsonTree.utf8Bytes_text (fun _ => rfl) value

theorem str_bytes_le {key s : String} {members : List (String × Value)}
    (h : (key, .str s) ∈ members) :
    s.utf8ByteSize ≤ (JsonTree.obj members : Value).textBytes numberBytes := by
  have hmember := @JsonTree.textBytes_le_of_mem_members _ numberBytes _ _ _ h
  have hs := JsonTree.utf8ByteSize_le_stringBytes s
  simp only [JsonTree.textBytes] at hmember ⊢
  omega

theorem text_bytes_le (hL : L.Lawful) (text : String) :
    text.utf8ByteSize ≤ (L.block (.text text)).textBytes numberBytes := by
  obtain ⟨members, hblock, hmem⟩ := hL.text_member text
  rw [hblock]
  exact str_bytes_le hmem

theorem image_bytes_le (hL : L.Lawful) (resource : Resource) :
    (resource.bytes.size + 2) / 3 * 4 ≤
      (L.block (imageBlock L resource)).textBytes numberBytes := by
  obtain ⟨members, hblock, hmem⟩ := hL.image_member (L.base64 resource.bytes) resource.mediaType
  have := str_bytes_le hmem
  rw [hL.base64_bytes] at this
  unfold imageBlock
  rw [hblock]
  exact this

/-- The bytes of these images in base64. -/
def base64Bytes (resources : List Resource) : Nat :=
  (resources.map fun r => (r.bytes.size + 2) / 3 * 4).sum

theorem base64Bytes_le (hL : L.Lawful) (images : List Resource) :
    base64Bytes images ≤
      (((images.map (imageBlock L)).map L.block).map (JsonTree.textBytes numberBytes)).sum := by
  induction images with
  | nil => exact Nat.le_refl 0
  | cons image images ih =>
    have himage := image_bytes_le hL image
    unfold base64Bytes at ih ⊢
    simp only [List.map_cons, List.sum_cons]
    omega

/-- The text and the images in base64 are all in the blocks. -/
theorem blocks_bytes_ge (hL : L.Lawful) (wire : String) (images : List Resource) :
    wire.utf8ByteSize + base64Bytes images ≤
      (print (.arr ((.text wire :: images.map (imageBlock L)).map L.block))).utf8ByteSize := by
  have hwire := text_bytes_le hL wire
  have himages := base64Bytes_le hL images
  have hall := JsonTree.sum_textBytes_le numberBytes
    ((.text wire :: images.map (imageBlock L)).map L.block)
  simp only [List.map_cons, List.sum_cons] at hall
  rw [print_bytes, List.map_cons, JsonTree.textBytes]
  omega

/-! ## What a context encodes to -/

/-- A record of the history; only messages are encoded. -/
def historyValue (snapshot : Snapshot) : Value :=
  match snapshot.record.payload with
  | .message .user message => messageValue snapshot "user" message
  | .message .agent message => messageValue snapshot "agent" message
  | _ => .null

def instructionValue (instruction : PreparedInstruction) : Value :=
  .obj [("resource", reference instruction.reference.resource),
    ("role", .str "supplemental_user_text")]

/-- The resources of the envelope, after this many images. -/
def resourceValues (L : Libraries) : Nat → List Resource → List Value
  | _, [] => []
  | k, resource :: resources =>
      if isImage resource then
        descriptor L resource (k + 1) :: resourceValues L (k + 1) resources
      else
        textValue resource ((String.fromUTF8? resource.bytes).getD "") ::
          resourceValues L k resources

def images (resources : List Resource) : List Resource := resources.filter isImage

/-- The images with the positions of their blocks. -/
def imageDescriptors (L : Libraries) : Nat → List Resource → List Value
  | _, [] => []
  | k, image :: rest => descriptor L image (k + 1) :: imageDescriptors L (k + 1) rest

/-- A message of the user or of the agent. -/
def IsConversation (payload : Payload) : Prop :=
  ∃ kind message, payload = .message kind message ∧ (kind = .user ∨ kind = .agent)

/-- Valid text, or an image that is allowed and has the signature of its type. -/
def Deliverable (imagesAllowed imageCapability : Bool) (resource : Resource) : Prop :=
  if isImage resource then
    imagesAllowed = true ∧ imageCapability = true ∧ validSignature resource = true
  else resource.isText = true

/-- What the driver can send without a downgrade. -/
structure Encodable (context : PreparedContext) (imagesAllowed imageCapability : Bool) : Prop where
  skills : ∀ skill ∈ context.policy.skills, skill.delivery ≠ .requireNative
  instructions : ∀ x ∈ context.instructions, x.reference.role = .supplemental
  records : ∀ s ∈ context.records, IsConversation s.record.payload
  resources : ∀ r ∈ context.resources, Deliverable imagesAllowed imageCapability r

theorem encodeInstructions_cases (instructions : List PreparedInstruction) :
    ((∀ x ∈ instructions, x.reference.role = .supplemental) ∧
        encodeInstructions instructions = .ok (instructions.map instructionValue)) ∨
      (¬ (∀ x ∈ instructions, x.reference.role = .supplemental) ∧
        ∃ e, encodeInstructions instructions = .error e) := by
  induction instructions with
  | nil => exact .inl ⟨by simp, rfl⟩
  | cons instruction instructions ih =>
    unfold encodeInstructions
    cases hrole : instruction.reference.role with
    | base =>
      refine .inr ⟨?_, _, if_pos rfl⟩
      intro hall
      have := hall instruction (by simp)
      rw [hrole] at this
      cases this
    | supplemental =>
      rw [if_neg (by decide)]
      rcases ih with ⟨hall, hok⟩ | ⟨hnot, e, he⟩
      · refine .inl ⟨?_, by rw [hok]; rfl⟩
        intro x hx
        rcases List.mem_cons.mp hx with rfl | hx
        · exact hrole
        · exact hall x hx
      · refine .inr ⟨fun hall => hnot fun x hx => hall x (by simp [hx]), e, by rw [he]; rfl⟩

theorem encodeRecords_cases (snapshots : List Snapshot) :
    ((∀ s ∈ snapshots, IsConversation s.record.payload) ∧
        encodeRecords snapshots = .ok (snapshots.map historyValue)) ∨
      (¬ (∀ s ∈ snapshots, IsConversation s.record.payload) ∧
        ∃ e, encodeRecords snapshots = .error e) := by
  induction snapshots with
  | nil => exact .inl ⟨by simp, rfl⟩
  | cons snapshot snapshots ih =>
    by_cases hhead : IsConversation snapshot.record.payload
    · have hcons : encodeRecords (snapshot :: snapshots) = (do
          let rest ← encodeRecords snapshots
          .ok (historyValue snapshot :: rest)) := by
        obtain ⟨kind, message, hpayload, rfl | rfl⟩ := hhead
        · simp only [encodeRecords, historyValue, hpayload]
        · simp only [encodeRecords, historyValue, hpayload]
      rcases ih with ⟨hall, hok⟩ | ⟨hnot, e, he⟩
      · refine .inl ⟨?_, by rw [hcons, hok]; rfl⟩
        intro s hs
        rcases List.mem_cons.mp hs with rfl | hs
        · exact hhead
        · exact hall s hs
      · exact .inr ⟨fun hall => hnot fun s hs => hall s (by simp [hs]), e, by rw [hcons, he]; rfl⟩
    · refine .inr ⟨fun hall => hhead (hall snapshot (by simp)), ?_⟩
      unfold encodeRecords
      cases hpayload : snapshot.record.payload with
      | message kind message =>
        cases kind with
        | user => exact absurd ⟨_, _, hpayload, .inl rfl⟩ hhead
        | agent => exact absurd ⟨_, _, hpayload, .inr rfl⟩ hhead
        | reasoning => exact ⟨_, rfl⟩
      | _ => exact ⟨_, rfl⟩

/-! ## Resources -/

theorem resourceText_of_isText {resource : Resource} (h : resource.isText = true) :
    resourceText resource = .ok ((String.fromUTF8? resource.bytes).getD "") := by
  unfold Resource.isText at h
  rw [Bool.and_eq_true, Bool.or_eq_true, beq_iff_eq, beq_iff_eq] at h
  unfold resourceText
  rw [if_pos h.1]
  cases htext : String.fromUTF8? resource.bytes with
  | some text => rfl
  | none =>
    unfold String.fromUTF8? at htext
    have hvalid := ByteArray.validateUTF8_eq_true_iff.mp h.2
    simp [hvalid] at htext

theorem resourceText_of_not_isText {resource : Resource} (h : ¬ resource.isText = true) :
    ∃ e, resourceText resource = .error e := by
  unfold resourceText
  split
  · next htype =>
    cases htext : String.fromUTF8? resource.bytes with
    | none => exact ⟨_, rfl⟩
    | some text =>
      exfalso
      apply h
      unfold String.fromUTF8? at htext
      unfold Resource.isText
      rw [Bool.and_eq_true, Bool.or_eq_true, beq_iff_eq, beq_iff_eq]
      refine ⟨htype, ?_⟩
      by_contra hvalid
      rw [ByteArray.validateUTF8_eq_true_iff] at hvalid
      simp [hvalid] at htext
  · exact ⟨_, rfl⟩

/-- The estimate counts what base64 will take, and fails if and only if that is too much. -/
theorem addImageBytes_eq (hmax : maxBytes ≤ usizeMax) (imageBytes size : Nat) :
    addImageBytes maxBytes imageBytes size =
      if imageBytes + (size + 2) / 3 * 4 ≤ maxBytes then some (imageBytes + (size + 2) / 3 * 4)
      else none := by
  unfold addImageBytes
  by_cases hsize : size + 2 ≤ usizeMax
  · have hadd : checkedAdd size 2 = some (size + 2) := if_pos hsize
    rw [hadd, Option.bind_some]
    by_cases hmul : (size + 2) / 3 * 4 ≤ usizeMax
    · have hmul' : checkedMul ((size + 2) / 3) 4 = some ((size + 2) / 3 * 4) := if_pos hmul
      rw [hmul', Option.bind_some, checkedAdd_filter hmax]
    · have hmul' : checkedMul ((size + 2) / 3) 4 = none := if_neg hmul
      -- the product is larger than any limit
      rw [hmul', Option.bind_none, Option.filter_none, if_neg (by omega)]
  · have hadd : checkedAdd size 2 = none := if_neg hsize
    have hvalue : usizeMax = 18446744073709551615 := rfl
    rw [hadd, Option.bind_none, Option.bind_none, Option.filter_none, if_neg (by omega)]

/-- The media after these resources. -/
def withResources (L : Libraries) (media : Media) (resources : List Resource) : Media where
  resources := media.resources ++ resourceValues L media.images.length resources
  images := media.images ++ (images resources).map (imageBlock L)
  imageRefs := media.imageRefs ++ imageDescriptors L media.images.length (images resources)
  imageBytes := media.imageBytes + base64Bytes (images resources)

theorem encodeResources_ok {resources : List Resource} {media media' : Media}
    (hok : encodeResources L maxBytes imagesAllowed imageCapability resources media =
      .ok media') : ∀ r ∈ resources, Deliverable imagesAllowed imageCapability r := by
  induction resources generalizing media with
  | nil => simp
  | cons resource resources ih =>
    obtain ⟨next, hhead, hrest⟩ := bind_eq_ok.mp hok
    intro r hr
    rcases List.mem_cons.mp hr with rfl | hr
    · unfold encodeResource at hhead
      unfold Deliverable
      by_cases himage : isImage r = true
      · simp only [if_pos himage, unsupported, ite_error_eq_ok, Bool.or_eq_true,
          Bool.not_eq_true', not_or, Bool.not_eq_false] at hhead
        rw [if_pos himage]
        exact ⟨hhead.1.1, hhead.1.2, hhead.2.1⟩
      · rw [if_neg himage] at hhead ⊢
        by_contra htext
        obtain ⟨e, he⟩ := resourceText_of_not_isText htext
        rw [he] at hhead
        cases hhead
    · exact ih hrest r hr

theorem encodeResources_eq (hmax : maxBytes ≤ usizeMax) {resources : List Resource}
    {media : Media} (hbytes : media.imageBytes ≤ maxBytes)
    (hall : ∀ r ∈ resources, Deliverable imagesAllowed imageCapability r) :
    encodeResources L maxBytes imagesAllowed imageCapability resources media =
      if media.imageBytes + base64Bytes (images resources) ≤ maxBytes then
        .ok (withResources L media resources)
      else unsupported "encoded prompt exceeds byte limit" := by
  induction resources generalizing media with
  | nil =>
    have hnil : withResources L media [] = media := by
      simp [withResources, resourceValues, images, imageDescriptors, base64Bytes]
    rw [hnil]
    exact (if_pos hbytes).symm
  | cons resource resources ih =>
    have hhead := hall resource (by simp)
    have hrest := fun r hr => hall r (List.mem_cons_of_mem resource hr)
    unfold Deliverable at hhead
    by_cases himage : isImage resource = true
    · rw [if_pos himage] at hhead
      obtain ⟨hallowed, hcapability, hvalid⟩ := hhead
      have himages : images (resource :: resources) = resource :: images resources := by
        simp [images, himage]
      have hsum : base64Bytes (resource :: images resources) =
          (resource.bytes.size + 2) / 3 * 4 + base64Bytes (images resources) := rfl
      by_cases hfits : media.imageBytes + (resource.bytes.size + 2) / 3 * 4 ≤ maxBytes
      · have hencode : encodeResource L maxBytes imagesAllowed imageCapability resource media =
            .ok {
              resources := media.resources ++ [descriptor L resource (media.images.length + 1)]
              imageRefs := media.imageRefs ++ [descriptor L resource (media.images.length + 1)]
              images := media.images ++ [imageBlock L resource]
              imageBytes := media.imageBytes + (resource.bytes.size + 2) / 3 * 4 } := by
          simp [encodeResource, himage, hallowed, hcapability, hvalid, addImageBytes_eq hmax, hfits]
        rw [encodeResources, hencode, himages, hsum, ok_bind, @ih _ hfits hrest]
        simp only [← Nat.add_assoc]
        congr 2
        simp [withResources, resourceValues, imageDescriptors, himages, himage, hsum,
          Nat.add_assoc]
      · have hencode : encodeResource L maxBytes imagesAllowed imageCapability resource media =
            unsupported "encoded prompt exceeds byte limit" := by
          simp [encodeResource, himage, hallowed, hcapability, hvalid, addImageBytes_eq hmax, hfits]
        rw [encodeResources, hencode, himages, hsum, if_neg (by omega)]
        rfl
    · rw [if_neg himage] at hhead
      have himages : images (resource :: resources) = images resources := by
        simp [images, himage]
      have hencode : encodeResource L maxBytes imagesAllowed imageCapability resource media =
          .ok { media with resources := media.resources ++
            [textValue resource ((String.fromUTF8? resource.bytes).getD "")] } := by
        rw [encodeResource, if_neg himage, resourceText_of_isText hhead]
        rfl
      have hnext := @ih { media with resources := media.resources ++
        [textValue resource ((String.fromUTF8? resource.bytes).getD "")] } hbytes hrest
      rw [encodeResources, hencode, himages, ok_bind, hnext]
      congr 2
      simp [withResources, resourceValues, himages, himage]

/-! ## A whole prompt -/

section Prompt

variable (L) (context : PreparedContext) (prompt : String)

def contextEncoding : String :=
  if images context.resources = [] then textEncoding else mediaEncoding

/-- The envelope of a context that can be encoded. -/
def contextEnvelope : Value :=
  envelope (contextEncoding context) (context.records.map historyValue)
    (context.instructions.map instructionValue) (resourceValues L 0 context.resources) prompt

def wireText : String := print (contextEnvelope L context prompt)

def promptBlocks : List ContentBlock :=
  .text (wireText L context prompt) :: (images context.resources).map (imageBlock L)

/-- What is measured: the envelope alone, or the array of all blocks if there are images. -/
def promptBytes : Nat :=
  if images context.resources = [] then (wireText L context prompt).utf8ByteSize
  else (print (.arr ((promptBlocks L context prompt).map L.block))).utf8ByteSize

def promptReceipt : List (String × Value) :=
  policyReceipt context
    (if images context.resources = [] then
      textReceipt (contextEncoding context) (wireText L context prompt)
    else
      imageReceipt (textReceipt (contextEncoding context) (wireText L context prompt))
        (promptBytes L context prompt) (imageDescriptors L 0 (images context.resources)))

end Prompt

variable {context : PreparedContext} {prompt : String}

/-- The bounds checked on the way are below the one that is measured. -/
theorem bounds_le_promptBytes (hL : L.Lawful) :
    (wireText L context prompt).utf8ByteSize ≤ promptBytes L context prompt ∧
      base64Bytes (images context.resources) ≤ promptBytes L context prompt := by
  have hblocks := blocks_bytes_ge hL (wireText L context prompt) (images context.resources)
  unfold promptBytes promptBlocks
  by_cases himages : images context.resources = []
  · have hempty : base64Bytes (images context.resources) = 0 := by
      rw [himages]
      rfl
    rw [if_pos himages]
    omega
  · rw [if_neg himages]
    omega

theorem imageDescriptors_eq_nil {k : Nat} {rest : List Resource} :
    imageDescriptors L k rest = [] ↔ rest = [] := by
  cases rest with
  | nil => simp [imageDescriptors]
  | cons image rest => simp [imageDescriptors]

/-- The media of a whole context. -/
def contextMedia (L : Libraries) (context : PreparedContext) : Media :=
  ⟨resourceValues L 0 context.resources, (images context.resources).map (imageBlock L),
    imageDescriptors L 0 (images context.resources), base64Bytes (images context.resources)⟩

theorem encodeBlocks_eq (hL : L.Lawful) (hmax : maxBytes ≤ usizeMax) :
    encodeBlocks L context prompt maxBytes (context.instructions.map instructionValue)
        (context.records.map historyValue) (contextMedia L context) =
      if promptBytes L context prompt ≤ maxBytes then
        .ok (wireText L context prompt, promptBlocks L context prompt,
          .obj (promptReceipt L context prompt))
      else unsupported "encoded prompt exceeds byte limit" := by
  obtain ⟨hwire, -⟩ := @bounds_le_promptBytes L context prompt hL
  have hencoding : (if (contextMedia L context).images.isEmpty then textEncoding
      else mediaEncoding) = contextEncoding context := by
    simp [contextMedia, contextEncoding]
  have henvelope : envelope (contextEncoding context) (context.records.map historyValue)
      (context.instructions.map instructionValue) (contextMedia L context).resources prompt =
      contextEnvelope L context prompt := rfl
  have hblocks : .text (print (contextEnvelope L context prompt)) ::
      (contextMedia L context).images = promptBlocks L context prompt := rfl
  unfold encodeBlocks
  simp only [hencoding, henvelope, toWriter_limited hL]
  by_cases hfits : (wireText L context prompt).utf8ByteSize ≤ maxBytes
  case neg =>
    have hlimited : ¬ (print (contextEnvelope L context prompt)).utf8ByteSize ≤ maxBytes := hfits
    rw [if_neg hlimited, if_neg (by omega)]
  have hlimited : (print (contextEnvelope L context prompt)).utf8ByteSize ≤ maxBytes := hfits
  simp only [if_pos hlimited, hblocks, toWriter_counter hL hmax]
  by_cases himage : images context.resources = []
  · have hrefs : (contextMedia L context).imageRefs.isEmpty = true := by
      simp [contextMedia, imageDescriptors_eq_nil, himage]
    have hbytes : promptBytes L context prompt ≤ maxBytes := by
      unfold promptBytes
      rw [if_pos himage]
      exact hfits
    rw [if_pos hrefs, if_pos hbytes, promptReceipt, if_pos himage]
    rfl
  · have hrefs : ¬ (contextMedia L context).imageRefs.isEmpty = true := by
      simp [contextMedia, imageDescriptors_eq_nil, himage]
    have hbytes : promptBytes L context prompt =
        (print (.arr ((promptBlocks L context prompt).map L.block))).utf8ByteSize :=
      if_neg himage
    rw [if_neg hrefs, ← hbytes, promptReceipt, if_neg himage]
    by_cases hcount : promptBytes L context prompt ≤ maxBytes
    · simp only [if_pos hcount]
      rfl
    · simp only [if_neg hcount]

theorem encode_of_encodable (hL : L.Lawful) (hmax : maxBytes ≤ usizeMax)
    (h : Encodable context imagesAllowed imageCapability) :
    encode L context prompt maxBytes imagesAllowed imageCapability =
      if promptBytes L context prompt ≤ maxBytes then
        .ok (wireText L context prompt, promptBlocks L context prompt,
          .obj (promptReceipt L context prompt))
      else unsupported "encoded prompt exceeds byte limit" := by
  have hskills : (context.policy.skills.any fun skill => skill.delivery = .requireNative) =
      false := by
    rw [List.any_eq_false]
    intro skill hskill
    simpa using h.skills skill hskill
  have hinstructions : encodeInstructions context.instructions =
      .ok (context.instructions.map instructionValue) := by
    rcases encodeInstructions_cases context.instructions with ⟨-, hok⟩ | ⟨hnot, -⟩
    · exact hok
    · exact absurd h.instructions hnot
  have hrecords : encodeRecords context.records = .ok (context.records.map historyValue) := by
    rcases encodeRecords_cases context.records with ⟨-, hok⟩ | ⟨hnot, -⟩
    · exact hok
    · exact absurd h.records hnot
  have hresources := @encodeResources_eq L maxBytes imagesAllowed imageCapability hmax
    context.resources ⟨[], [], [], 0⟩ (Nat.zero_le _) h.resources
  have hmedia : withResources L ⟨[], [], [], 0⟩ context.resources = contextMedia L context := by
    simp [withResources, contextMedia]
  rw [hmedia, Nat.zero_add] at hresources
  obtain ⟨-, hbase64⟩ := @bounds_le_promptBytes L context prompt hL
  unfold encode
  rw [hskills, hinstructions, hrecords, hresources]
  simp only [Bool.false_eq_true, if_false, ok_bind]
  -- the estimate never refuses what the last count accepts
  by_cases hfits : base64Bytes (images context.resources) ≤ maxBytes
  · rw [if_pos hfits, ok_bind, encodeBlocks_eq hL hmax]
  · rw [if_neg hfits, if_neg (by omega)]
    rfl

theorem encodable_of_encode {out : String × List ContentBlock × Value}
    (hok : encode L context prompt maxBytes imagesAllowed imageCapability = .ok out) :
    Encodable context imagesAllowed imageCapability := by
  unfold encode at hok
  rw [unsupported, ite_error_eq_ok, List.any_eq_true] at hok
  obtain ⟨hskills, hok⟩ := hok
  obtain ⟨instructions, hinstructions, hok⟩ := bind_eq_ok.mp hok
  obtain ⟨records, hrecords, hok⟩ := bind_eq_ok.mp hok
  obtain ⟨media, hmedia, -⟩ := bind_eq_ok.mp hok
  refine ⟨?_, ?_, ?_, encodeResources_ok hmedia⟩
  · intro skill hskill hdelivery
    apply hskills
    exact ⟨skill, hskill, decide_eq_true hdelivery⟩
  · rcases encodeInstructions_cases context.instructions with ⟨hall, -⟩ | ⟨-, e, he⟩
    · exact hall
    · rw [he] at hinstructions
      cases hinstructions
  · rcases encodeRecords_cases context.records with ⟨hall, -⟩ | ⟨-, e, he⟩
    · exact hall
    · rw [he] at hrecords
      cases hrecords

/-! ## Positions -/

/-- An image is described with the position of its block: one more than the images before it. -/
theorem resourceValues_image (k : Nat) {resources : List Resource} {i : Nat} {r : Resource}
    (hr : resources[i]? = some r) (himage : isImage r = true) :
    (resourceValues L k resources)[i]? =
        some (descriptor L r (k + (images (resources.take i)).length + 1)) ∧
      (images resources)[(images (resources.take i)).length]? = some r := by
  induction resources generalizing k i with
  | nil => cases hr
  | cons first resources ih =>
    cases i with
    | zero =>
      rw [List.getElem?_cons_zero, Option.some.injEq] at hr
      subst hr
      simp [resourceValues, images, himage]
    | succ i =>
      rw [List.getElem?_cons_succ] at hr
      by_cases hfirst : isImage first = true
      · obtain ⟨hvalue, hindex⟩ := ih (k + 1) hr
        have htake : images ((first :: resources).take (i + 1)) =
            first :: images (resources.take i) := by
          simp [images, hfirst]
        have hcons : images (first :: resources) = first :: images resources := by
          simp [images, hfirst]
        rw [htake, hcons, List.length_cons, List.getElem?_cons_succ, resourceValues, if_pos hfirst,
          List.getElem?_cons_succ, hvalue, Nat.add_right_comm k 1, Nat.add_assoc k _ 1]
        exact ⟨rfl, hindex⟩
      · obtain ⟨hvalue, hindex⟩ := ih k hr
        have htake : images ((first :: resources).take (i + 1)) =
            images (resources.take i) := by
          simp [images, hfirst]
        have hcons : images (first :: resources) = images resources := by
          simp [images, hfirst]
        rw [htake, hcons, resourceValues, if_neg hfirst, List.getElem?_cons_succ]
        exact ⟨hvalue, hindex⟩

theorem imageDescriptors_getElem? (k : Nat) (rest : List Resource) (i : Nat) :
    (imageDescriptors L k rest)[i]? = rest[i]?.map fun r => descriptor L r (k + i + 1) := by
  induction rest generalizing k i with
  | nil => rfl
  | cons image rest ih =>
    cases i with
    | zero => rfl
    | succ i =>
      rw [imageDescriptors, List.getElem?_cons_succ, List.getElem?_cons_succ, ih]
      congr 2
      funext r
      congr 1
      omega

/-! ## The receipt -/

theorem lookup_policyReceipt (context : PreparedContext) (receipt : List (String × Value))
    {key : String} (hkey : key ∉ ["version", "omissions", "instruction_authority",
      "requested_context", "skills"]) :
    (policyReceipt context receipt).lookup key = receipt.lookup key := by
  simp only [List.mem_cons, List.not_mem_nil, or_false, not_or] at hkey
  obtain ⟨hversion, homissions, hauthority, hrequested, hskills⟩ := hkey
  unfold policyReceipt
  split
  · split
    · simp only [List.foldl, JsonTree.lookup_setMember, hversion, homissions, hauthority,
        hrequested, hskills, if_false]
    · simp only [List.foldl, JsonTree.lookup_setMember, hversion, homissions, hauthority,
        hrequested, if_false]
  · split
    · simp only [JsonTree.lookup_setMember, hversion, hskills, if_false]
    · rfl

theorem receipt_wire (L : Libraries) (context : PreparedContext) (prompt : String) :
    (promptReceipt L context prompt).lookup "wire_text" =
        some (.str (wireText L context prompt)) ∧
      (promptReceipt L context prompt).lookup "wire_bytes" =
        some (.num (promptBytes L context prompt)) := by
  unfold promptReceipt
  rw [lookup_policyReceipt context _ (by decide), lookup_policyReceipt context _ (by decide)]
  by_cases himage : images context.resources = []
  · have hbytes : promptBytes L context prompt = (wireText L context prompt).utf8ByteSize :=
      if_pos himage
    rw [if_pos himage, hbytes]
    exact ⟨rfl, rfl⟩
  · rw [if_neg himage]
    unfold imageReceipt
    simp only [JsonTree.lookup_setMember]
    exact ⟨rfl, rfl⟩

theorem receipt_images (L : Libraries) (context : PreparedContext) (prompt : String)
    (himages : images context.resources ≠ []) :
    (promptReceipt L context prompt).lookup "images" =
      some (.arr (imageDescriptors L 0 (images context.resources))) := by
  unfold promptReceipt
  rw [lookup_policyReceipt context _ (by decide), if_neg himages]
  unfold imageReceipt
  simp only [JsonTree.lookup_setMember]
  rfl

/-- A prompt is encoded only if nothing in its context would be downgraded, then if and only if
what is measured is within the limit; and its blocks and receipt are those of the context. -/
theorem prompt_encoding_is_exact {L : Libraries} (hL : L.Lawful) {maxBytes : Nat}
    (hmax : maxBytes ≤ usizeMax) (context : PreparedContext) (prompt : String)
    (imagesAllowed imageCapability : Bool) :
    (∀ out, encode L context prompt maxBytes imagesAllowed imageCapability = .ok out →
      Encodable context imagesAllowed imageCapability) ∧
    (Encodable context imagesAllowed imageCapability →
      ((∃ out, encode L context prompt maxBytes imagesAllowed imageCapability = .ok out) ↔
        promptBytes L context prompt ≤ maxBytes)) ∧
    ∀ wire blocks receipt,
      encode L context prompt maxBytes imagesAllowed imageCapability =
        .ok (wire, blocks, receipt) →
      wire = print (contextEnvelope L context prompt) ∧
      blocks = .text wire :: (images context.resources).map (imageBlock L) ∧
      (∀ (i : Nat) r, context.resources[i]? = some r → isImage r = true →
        ∃ (k : Nat) (refs : List Value),
          blocks[k + 1]? = some (imageBlock L r) ∧
          (resourceValues L 0 context.resources)[i]? = some (descriptor L r (k + 1)) ∧
          receipt.get "images" = some (.arr refs) ∧ refs[k]? = some (descriptor L r (k + 1)) ∧
          (descriptor L r (k + 1)).get "prompt_block" = some (.num (k + 1 : Nat))) ∧
      receipt.get "wire_text" = some (.str wire) ∧
      receipt.get "wire_bytes" = some (.num (promptBytes L context prompt)) := by
  refine ⟨fun out => encodable_of_encode, ?_, ?_⟩
  · intro h
    rw [encode_of_encodable hL hmax h]
    by_cases hfits : promptBytes L context prompt ≤ maxBytes
    · rw [if_pos hfits]
      exact ⟨fun _ => hfits, fun _ => ⟨_, rfl⟩⟩
    · rw [if_neg hfits]
      constructor
      · rintro ⟨out, hout⟩
        cases hout
      · exact fun h => absurd h hfits
  · intro wire blocks receipt hok
    have h := encodable_of_encode hok
    rw [encode_of_encodable hL hmax h] at hok
    by_cases hfits : promptBytes L context prompt ≤ maxBytes
    case neg =>
      rw [if_neg hfits] at hok
      cases hok
    rw [if_pos hfits, Except.ok.injEq, Prod.mk.injEq, Prod.mk.injEq] at hok
    obtain ⟨rfl, rfl, rfl⟩ := hok
    obtain ⟨htext, hbytes⟩ := receipt_wire L context prompt
    refine ⟨rfl, rfl, ?_, htext, hbytes⟩
    intro i r hr himage
    obtain ⟨hvalue, hindex⟩ := @resourceValues_image L 0 _ _ _ hr himage
    have hne : images context.resources ≠ [] := by
      intro hnil
      rw [hnil] at hindex
      cases hindex
    refine ⟨(images (context.resources.take i)).length, _, ?_, ?_,
      receipt_images L context prompt hne, ?_, rfl⟩
    · rw [promptBlocks, List.getElem?_cons_succ, List.getElem?_map, hindex, Option.map_some]
    · rw [hvalue, Nat.zero_add]
    · rw [imageDescriptors_getElem?, hindex, Option.map_some, Nat.zero_add]

namespace Sample

def sextet (n : Nat) : Char :=
  if n < 26 then Char.ofNat (n + 65)
  else if n < 52 then Char.ofNat (n + 71)
  else if n < 62 then Char.ofNat (n - 4)
  else if n = 62 then '+'
  else '/'

/-- Base64 with padding. -/
def base64 : List UInt8 → List Char
  | [] => []
  | [a] => [sextet (a.toNat / 4), sextet (a.toNat % 4 * 16), '=', '=']
  | [a, b] => [sextet (a.toNat / 4), sextet (a.toNat % 4 * 16 + b.toNat / 16),
      sextet (b.toNat % 16 * 4), '=']
  | a :: b :: c :: bytes =>
      [sextet (a.toNat / 4), sextet (a.toNat % 4 * 16 + b.toNat / 16),
        sextet (b.toNat % 16 * 4 + c.toNat / 64), sextet (c.toNat % 64)] ++ base64 bytes

theorem sextet_utf8Size (n : Nat) : (sextet n).utf8Size = 1 := by
  by_cases h : n < 63
  · have hall : ∀ k : Fin 63, (sextet k.val).utf8Size = 1 := by decide +kernel
    exact hall ⟨n, h⟩
  · have hlast : sextet n = '/' := by
      unfold sextet
      rw [if_neg (by omega), if_neg (by omega), if_neg (by omega), if_neg (by omega)]
    rw [hlast]
    rfl

theorem base64_bytes (bytes : List UInt8) :
    JsonTree.utf8Bytes (base64 bytes) = (bytes.length + 2) / 3 * 4 := by
  have hpad : '='.utf8Size = 1 := rfl
  induction bytes using base64.induct with
  | case1 => rfl
  | case2 a => simp [base64, sextet_utf8Size, hpad]
  | case3 a b => simp [base64, sextet_utf8Size, hpad]
  | case4 a b c bytes ih =>
    simp only [base64, JsonTree.utf8Bytes_append, JsonTree.utf8Bytes_cons, sextet_utf8Size,
      JsonTree.utf8Bytes_nil, List.length_cons, ih]
    omega

def block : ContentBlock → Value
  | .text text => .obj [("type", .str "text"), ("text", .str text)]
  | .image data mimeType =>
      .obj [("type", .str "image"), ("data", .str data), ("mimeType", .str mimeType)]

/-- The first bytes of a picture. -/
def picture : Resource where
  reference := ⟨⟨"picture", by decide⟩, "1"⟩
  mediaType := "image/jpeg"
  bytes := ⟨#[0xff, 0xd8, 0xff]⟩

/-- The digest of the picture, which is all that is hashed here. -/
def libraries : Libraries where
  sha256 := fun bytes => if bytes = picture.bytes then
      "6e568e1f67fba258184c78181539e5e8fdee447e49bb706fc0ea34fbf12336a5"
    else ""
  base64 := fun bytes => String.ofList (base64 bytes.data.toList)
  block := block
  pieces := fun value => [print value]

theorem libraries_lawful : libraries.Lawful where
  base64_bytes bytes := by
    show (String.ofList (base64 bytes.data.toList)).utf8ByteSize = _
    rw [JsonTree.utf8ByteSize_ofList, base64_bytes]
    rfl
  text_member text := ⟨_, rfl, by simp⟩
  image_member data mimeType := ⟨_, rfl, by simp⟩
  pieces_join value := by
    show "" ++ print value = print value
    exact String.empty_append

def pictured : PreparedContext where
  requestedManifest := .default
  policy := .default
  manifest := .default
  records := []
  instructions := []
  resources := [picture]
  resourceBytes := 3

theorem pictured_encodable : Encodable pictured true true where
  skills skill hskill := by cases hskill
  instructions x hx := by cases hx
  records s hs := by cases hs
  resources r hr := by
    rw [List.mem_singleton.mp hr]
    have himage : isImage picture = true := by decide
    unfold Deliverable
    rw [if_pos himage]
    exact ⟨rfl, rfl, by decide⟩

end Sample

theorem picture_is_block_one : ∃ out,
    encode Sample.libraries Sample.pictured "look" 1000 true true = .ok out ∧
      out.2.1[1]? = some (.image "/9j/" "image/jpeg") := by
  obtain ⟨-, hiff, hparts⟩ := prompt_encoding_is_exact Sample.libraries_lawful
    (by decide : 1000 ≤ usizeMax) Sample.pictured "look" true true
  obtain ⟨⟨wire, blocks, receipt⟩, hok⟩ := (hiff Sample.pictured_encodable).mpr (by decide +kernel)
  obtain ⟨-, hblocks, -⟩ := hparts wire blocks receipt hok
  refine ⟨_, hok, ?_⟩
  rw [hblocks]
  rfl

end Acp

end AgentBridge
