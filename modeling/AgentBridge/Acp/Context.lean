import AgentBridge.Acp.Error
import AgentBridge.Reasoning.JsonText

/-!
# The prompt of a context

A prepared context becomes one text block, a JSON envelope, followed by its images.  What is sent
is limited in bytes three times: while the images are encoded, while the envelope is written, and,
if there are images, while all blocks are counted.
-/

namespace AgentBridge

open Reasoning Context

namespace Acp

/-- A value of `serde_json` with the members of its objects in the order they were given; the
numbers written here are integers. -/
abbrev Value := JsonTree Int

def numberText (n : Int) : List Char := (toString n).toList

/-- The text that `serde_json` prints. -/
def print (value : Value) : String := String.ofList (value.text numberText)

/-- The content blocks that a prompt uses. -/
inductive ContentBlock where
  | text (text : String)
  | image (data mimeType : String)
deriving DecidableEq

/-- What the driver uses of other libraries: a digest in hexadecimal, an encoding of bytes, what a
content block serializes to, and the pieces in which a value is written. -/
structure Libraries where
  sha256 : ByteArray → String
  base64 : ByteArray → String
  block : ContentBlock → Value
  pieces : Value → List String

/-! ## Evidence -/

def reference (reference : ResourceRef) : Value :=
  .obj [("id", .str reference.id.asStr), ("revision", .str reference.revision)]

def instructionRole : InstructionRole → String
  | .base => "base"
  | .supplemental => "supplemental"

def instruction (instruction : InstructionRef) : Value :=
  .obj [("resource", reference instruction.resource),
    ("role", .str (instructionRole instruction.role))]

def omissionItem : ContextItem → Value
  | .record id => .obj [("type", .str "record"), ("id", .str id.asStr)]
  | .instruction value => .obj [("type", .str "instruction"), ("instruction", instruction value)]
  | .resource value => .obj [("type", .str "resource"), ("resource", reference value)]

def skillEvidence (skill : SkillRequest) : Value :=
  let (delivery, availability, reason) : String × String × Value :=
    match skill.delivery with
    | .requireNative => ("require_native", "resolved", .null)
    | .supplementalText => ("supplemental_text", "resolved", .null)
    | .omitted reason => ("omitted", "not_checked", .str reason)
  .obj [("resource", reference skill.resource), ("planned_delivery", .str delivery),
    ("local_availability", .str availability), ("native_availability", .str "unknown"),
    ("native_activation", .str "not_observed"), ("reason", reason)]

def authorityEvidence (authorization : InstructionAuthorization) : Value :=
  .obj [("issuer", .str authorization.grant.issuer.asStr),
    ("requester", .str authorization.requester.asStr),
    ("subject", .str authorization.grant.subject.asStr),
    ("granted_instructions", .arr (authorization.grant.instructions.map instruction))]

def policyEvidence (context : PreparedContext) : Value :=
  .obj [("skills", .arr (context.policy.skills.map skillEvidence)),
    ("omissions", .arr (context.policy.omissions.map fun omission =>
      .obj [("item", omissionItem omission.item), ("reason", .str omission.reason)])),
    ("instruction_authority",
      (context.policy.instructionAuthorization.map authorityEvidence).getD .null),
    ("requested_context", .obj [
      ("records", .arr (context.requestedManifest.records.map fun id => .str id.asStr)),
      ("instructions", .arr (context.requestedManifest.instructions.map instruction)),
      ("resources", .arr (context.requestedManifest.resources.map reference))])]

/-! ## History and instructions -/

def unsupported {α : Type} (message : String) : Except RecordingError α :=
  .error (.unsupportedContext message)

def encodeInstructions : List PreparedInstruction → Except RecordingError (List Value)
  | [] => .ok []
  | instruction :: instructions =>
      if instruction.reference.role = .base then
        unsupported "ACP text delivery cannot replace base instructions"
      else do
        let rest ← encodeInstructions instructions
        .ok (.obj [("resource", reference instruction.reference.resource),
          ("role", .str "supplemental_user_text")] :: rest)

def contentValue : Content → Value
  | .text text => .obj [("text", .str text)]
  | .resource resource => .obj [("resource", reference resource)]

def stateName : RecordState → String
  | .opened => "open"
  | .complete => "complete"
  | .interrupted => "interrupted"

/-- A selected message, as the history of the envelope shows it. -/
def messageValue (snapshot : Snapshot) (kind : String) (message : Message) : Value :=
  .obj [("id", .str snapshot.record.id.asStr), ("revision", .num snapshot.revision),
    ("actor", .str snapshot.record.actor.asStr), ("kind", .str kind),
    ("state", .str (stateName snapshot.state)),
    ("content", .arr (message.content.map contentValue))]

def encodeRecords : List Snapshot → Except RecordingError (List Value)
  | [] => .ok []
  | snapshot :: snapshots =>
      match snapshot.record.payload with
      | .message .user message => do
          let rest ← encodeRecords snapshots
          .ok (messageValue snapshot "user" message :: rest)
      | .message .agent message => do
          let rest ← encodeRecords snapshots
          .ok (messageValue snapshot "agent" message :: rest)
      | .message .reasoning _ =>
          unsupported "reasoning records require an explicit future delivery policy"
      | _ => unsupported "selected record is not a conversation message"

/-! ## Resources -/

/-- `usize::checked_mul`. -/
def checkedMul (a b : Nat) : Option Nat := if a * b ≤ usizeMax then some (a * b) else none

/-- `text`: the text of a resource. -/
def resourceText (resource : Resource) : Except RecordingError String :=
  if mediaTypeName resource.mediaType = "text/plain" ∨
      mediaTypeName resource.mediaType = "text/markdown" then
    match String.fromUTF8? resource.bytes with
    | some text => .ok text
    | none => unsupported "resource is not UTF-8"
  else unsupported "only plain-text and Markdown resources are supported"

def isImage (resource : Resource) : Bool := "image/".toList.isPrefixOf resource.mediaType.toList

/-- The first bytes are those of the media type. -/
def validSignature (resource : Resource) : Bool :=
  let bytes := resource.bytes.data.toList
  if resource.mediaType = "image/png" then
    [0x89, 0x50, 0x4e, 0x47, 0x0d, 0x0a, 0x1a, 0x0a].isPrefixOf bytes
  else if resource.mediaType = "image/jpeg" then [0xff, 0xd8, 0xff].isPrefixOf bytes
  else if resource.mediaType = "image/gif" then
    "GIF87a".toUTF8.data.toList.isPrefixOf bytes || "GIF89a".toUTF8.data.toList.isPrefixOf bytes
  else if resource.mediaType = "image/webp" then
    "RIFF".toUTF8.data.toList.isPrefixOf bytes &&
      (bytes.drop 8).take 4 == "WEBP".toUTF8.data.toList
  else false

/-- The resources encoded so far; an image has a descriptor and a block. -/
structure Media where
  resources : List Value
  images : List ContentBlock
  imageRefs : List Value
  imageBytes : Nat

section Resources

variable (L : Libraries) (maxBytes : Nat) (imagesAllowed imageCapability : Bool)

def descriptor (resource : Resource) (promptBlock : Nat) : Value :=
  .obj [("reference", reference resource.reference), ("media_type", .str resource.mediaType),
    ("sha256", .str (L.sha256 resource.bytes)), ("bytes", .num resource.bytes.size),
    ("prompt_block", .num promptBlock)]

def textValue (resource : Resource) (text : String) : Value :=
  .obj [("reference", reference resource.reference), ("media_type", .str resource.mediaType),
    ("text", .str text)]

def imageBlock (resource : Resource) : ContentBlock :=
  .image (L.base64 resource.bytes) resource.mediaType

/-- The bytes of the images so far, with those of one more in base64. -/
def addImageBytes (imageBytes size : Nat) : Option Nat :=
  (((checkedAdd size 2).bind fun n => checkedMul (n / 3) 4).bind (checkedAdd imageBytes)).filter
    (· ≤ maxBytes)

def encodeResource (resource : Resource) (media : Media) : Except RecordingError Media :=
  if isImage resource then
    if !imagesAllowed || !imageCapability then
      unsupported "image delivery requires explicit mode and advertised image support"
    else if validSignature resource = false then
      unsupported "unsupported image type or invalid signature"
    else
      match addImageBytes maxBytes media.imageBytes resource.bytes.size with
      | none => unsupported "encoded prompt exceeds byte limit"
      | some imageBytes =>
          .ok {
            resources := media.resources ++ [descriptor L resource (media.images.length + 1)]
            imageRefs := media.imageRefs ++ [descriptor L resource (media.images.length + 1)]
            images := media.images ++ [imageBlock L resource]
            imageBytes }
  else do
    let text ← resourceText resource
    .ok { media with resources := media.resources ++ [textValue resource text] }

def encodeResources : List Resource → Media → Except RecordingError Media
  | [], media => .ok media
  | resource :: resources, media => do
      let media ← encodeResource L maxBytes imagesAllowed imageCapability resource media
      encodeResources resources media

end Resources

/-! ## Writers -/

structure LimitedWriter where
  bytes : String
  limit : Nat

def LimitedWriter.write (writer : LimitedWriter) (bytes : String) : Option LimitedWriter :=
  if bytes.utf8ByteSize > writer.limit - writer.bytes.utf8ByteSize then none
  else some { writer with bytes := writer.bytes ++ bytes }

/-- Counts what is written without keeping it. -/
structure Counter where
  used : Nat
  limit : Nat

def Counter.write (counter : Counter) (bytes : String) : Option Counter :=
  ((checkedAdd counter.used bytes.utf8ByteSize).filter (· ≤ counter.limit)).map fun used =>
    { counter with used }

/-- `serde_json::to_writer`: the pieces one after the other, up to the first error. -/
def toWriter {W : Type} (write : W → String → Option W) : List String → W → Option W
  | [], writer => some writer
  | piece :: pieces, writer => (write writer piece).bind (toWriter write pieces)

/-! ## The prompt -/

def envelope (encoding : String) (records instructions resources : List Value)
    (prompt : String) : Value :=
  .obj [("encoding", .str encoding), ("context_mode", .str "append_to_native"),
    ("history", .arr records), ("supplemental_instructions", .arr instructions),
    ("resources", .arr resources), ("task", .str prompt)]

def textEncoding : String := "agent_bridge.text_context.v1"

def mediaEncoding : String := "agent_bridge.media_context.v1"

/-- The receipt before images and policies are added to it. -/
def textReceipt (encoding wire : String) : List (String × Value) :=
  [("version", .num 1), ("state", .str "prepared"), ("encoding", .str encoding),
    ("context_mode", .str "append_to_native"), ("omissions", .arr []), ("wire_text", .str wire),
    ("wire_bytes", .num wire.utf8ByteSize)]

def imageReceipt (receipt : List (String × Value)) (used : Nat) (imageRefs : List Value) :
    List (String × Value) :=
  let receipt := JsonTree.setMember receipt "version" (.num 2)
  let receipt := JsonTree.setMember receipt "wire_bytes" (.num used)
  let receipt := JsonTree.setMember receipt "images" (.arr imageRefs)
  JsonTree.setMember receipt "resource_retention" (.str "supplied_resource_store")

def policyReceipt (context : PreparedContext) (receipt : List (String × Value)) :
    List (String × Value) :=
  let evidence := policyEvidence context
  let receipt :=
    if context.policy.omissions ≠ [] ∨ context.policy.instructionAuthorization.isSome then
      ["omissions", "instruction_authority", "requested_context"].foldl
        (fun receipt key => JsonTree.setMember receipt key (evidence.index key))
        (JsonTree.setMember receipt "version" (.num 3))
    else receipt
  if context.policy.skills ≠ [] then
    JsonTree.setMember (JsonTree.setMember receipt "version" (.num 4)) "skills"
      (evidence.index "skills")
  else receipt

/-- `encode` from the encoded parts on. -/
def encodeBlocks (L : Libraries) (context : PreparedContext) (prompt : String) (maxBytes : Nat)
    (instructions records : List Value) (media : Media) :
    Except RecordingError (String × List ContentBlock × Value) :=
  let encoding := if media.images.isEmpty then textEncoding else mediaEncoding
  let envelope := envelope encoding records instructions media.resources prompt
  match toWriter LimitedWriter.write (L.pieces envelope) ⟨"", maxBytes⟩ with
  | none => unsupported "encoded prompt exceeds byte limit"
  | some writer =>
  let wire := writer.bytes
  let blocks := .text wire :: media.images
  let receipt := textReceipt encoding wire
  if media.imageRefs.isEmpty then .ok (wire, blocks, .obj (policyReceipt context receipt))
  else
    match toWriter Counter.write (L.pieces (.arr (blocks.map L.block))) ⟨0, maxBytes⟩ with
    | none => unsupported "encoded prompt exceeds byte limit"
    | some counter =>
        .ok (wire, blocks,
          .obj (policyReceipt context (imageReceipt receipt counter.used media.imageRefs)))

def encode (L : Libraries) (context : PreparedContext) (prompt : String) (maxBytes : Nat)
    (imagesAllowed imageCapability : Bool) :
    Except RecordingError (String × List ContentBlock × Value) :=
  if context.policy.skills.any fun skill => skill.delivery = .requireNative then
    unsupported "this ACP driver cannot guarantee native skill registration or activation"
  else do
    let instructions ← encodeInstructions context.instructions
    let records ← encodeRecords context.records
    let media ← encodeResources L maxBytes imagesAllowed imageCapability context.resources
      ⟨[], [], [], 0⟩
    encodeBlocks L context prompt maxBytes instructions records media

end Acp

end AgentBridge
