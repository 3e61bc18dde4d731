import AgentBridge.Model
import AgentBridge.Records.Error
import AgentBridge.Records.Payload
import AgentBridge.Reasoning.HashMap
import Mathlib

/-!
# Preparing a context

Explicit inputs are resolved within a budget of items and of resource bytes.  The stores belong to
the application: a store is asked once for each record selected and once for each resource not
resolved yet, and the answer to a call may depend on how many calls came before it.
-/

namespace AgentBridge

open Reasoning

namespace Context

def usizeMax : Nat := 2 ^ 64 - 1

/-- `usize::checked_add`. -/
def checkedAdd (a b : Nat) : Option Nat := if a + b ≤ usizeMax then some (a + b) else none

/-! ## Policy -/

structure InstructionGrant where
  issuer : ActorId
  subject : ActorId
  instructions : List InstructionRef
deriving DecidableEq

structure InstructionAuthorization where
  requester : ActorId
  grant : InstructionGrant
deriving DecidableEq

inductive ContextItem where
  | record (id : RecordId)
  | instruction (instruction : InstructionRef)
  | resource (reference : ResourceRef)
deriving DecidableEq

structure ContextOmission where
  item : ContextItem
  reason : String
deriving DecidableEq

inductive SkillDelivery where
  | requireNative
  | supplementalText
  | omitted (reason : String)
deriving DecidableEq

structure SkillRequest where
  resource : ResourceRef
  delivery : SkillDelivery
deriving DecidableEq

structure ContextPolicy where
  skills : List SkillRequest
  omissions : List ContextOmission
  instructionAuthorization : Option InstructionAuthorization
deriving DecidableEq

def ContextPolicy.default : ContextPolicy := ⟨[], [], none⟩

/-! ## Resources and limits -/

/-- Immutable bytes at an application-assigned revision. -/
structure Resource where
  reference : ResourceRef
  mediaType : String
  bytes : ByteArray
deriving DecidableEq

inductive ResourceError where
  | store (e : StoreError)
  | missing
  | invalid
  | revisionConflict
  | poisoned
deriving DecidableEq

/-- Both bounds are a `usize`. -/
structure ContextLimits where
  maxItems : Nat
  maxResourceBytes : Nat
  maxItems_le : maxItems ≤ usizeMax
  maxResourceBytes_le : maxResourceBytes ≤ usizeMax

structure PreparedInstruction where
  reference : InstructionRef
  resource : Resource
deriving DecidableEq

structure PreparedContext where
  requestedManifest : ContextManifest
  policy : ContextPolicy
  manifest : ContextManifest
  records : List Snapshot
  instructions : List PreparedInstruction
  /-- Unique resources in first-reference order, including message attachments. -/
  resources : List Resource
  resourceBytes : Nat
deriving DecidableEq

inductive ContextError where
  | invalidSkillRequest
  | instructionUnauthorized
  | invalidOmission
  | referencedOmission (reference : ResourceRef)
  | store (e : StoreError)
  | resource (reference : ResourceRef) (error : ResourceError)
  | recordOutsideScope (id : RecordId)
  | openRecord (id : RecordId)
  | invalidInstruction (reference : ResourceRef)
  | itemLimit
  | resourceByteLimit
deriving DecidableEq

/-- `RecordStore::get` and `ResourceStore::get` of the application: the answer to the `n`-th call
of a preparation. -/
structure Stores where
  record : Nat → RecordId → Except StoreError Snapshot
  resource : Nat → ResourceRef → Except ResourceError Resource

/-! ## Text resources -/

/-- `str::trim` of the part before the first `;`. -/
def mediaTypeName (mediaType : String) : String :=
  String.ofList
    ((((mediaType.toList.takeWhile (· != ';')).dropWhile isWhitespace).reverse.dropWhile
      isWhitespace).reverse)

/-- Plain text or Markdown, in UTF-8. -/
def Resource.isText (resource : Resource) : Bool :=
  (mediaTypeName resource.mediaType == "text/plain" ||
    mediaTypeName resource.mediaType == "text/markdown") && resource.bytes.validateUTF8

/-! ## Resolution -/

/-- `check_count`. -/
def checkCount (manifest : ContextManifest) (limits : ContextLimits) : Except ContextError Unit :=
  match ((checkedAdd manifest.records.length manifest.instructions.length).bind fun count =>
      checkedAdd count manifest.resources.length).filter (· ≤ limits.maxItems) with
  | some _ => .ok ()
  | none => .error .itemLimit

/-- What `prepare_inner` has consumed and resolved so far, with the cache of its `resolve`. -/
structure Preparation where
  remaining : Nat
  records : List Snapshot
  instructions : List PreparedInstruction
  resources : List Resource
  resourceBytes : Nat
  resolved : HashMap (ResourceId × String) Resource

def Preparation.start (limits : ContextLimits) : Preparation := ⟨limits.maxItems, [], [], [], 0, ∅⟩

section Inner

variable (stores : Stores) (allowedSessions : List SessionId) (limits : ContextLimits)
  (forbidden : List ResourceRef)

def consume (p : Preparation) : Except ContextError Preparation :=
  if 1 ≤ p.remaining then .ok { p with remaining := p.remaining - 1 } else .error .itemLimit

def resolve (reference : ResourceRef) (p : Preparation) :
    Except ContextError (Resource × Preparation) :=
  if reference ∈ forbidden then .error (.referencedOmission reference)
  else
  match p.resolved.lookup (reference.id, reference.revision) with
  | some resource => .ok (resource, p)
  | none =>
  match stores.resource p.resources.length reference with
  | .error error => .error (.resource reference error)
  | .ok resource =>
      if resource.reference ≠ reference then .error (.resource reference .revisionConflict)
      else
        match (checkedAdd p.resourceBytes resource.bytes.size).filter
            (· ≤ limits.maxResourceBytes) with
        | none => .error .resourceByteLimit
        | some size => .ok (resource, { p with
            resourceBytes := size
            resources := p.resources ++ [resource]
            resolved := p.resolved.insert (reference.id, reference.revision) resource })

/-- The loop over the content of a selected message. -/
def resolveContent : List Content → Preparation → Except ContextError Preparation
  | [], p => .ok p
  | .text _ :: content, p => resolveContent content p
  | .resource reference :: content, p => do
      let p ← consume p
      let (_, p) ← resolve stores limits forbidden reference p
      resolveContent content p

def attachments : Payload → List Content
  | .message _ message => message.content
  | _ => []

def resolveRecords : List RecordId → Preparation → Except ContextError Preparation
  | [], p => .ok p
  | id :: ids, p => do
      let p ← consume p
      match stores.record p.records.length id with
      | .error e => .error (.store e)
      | .ok snapshot =>
          if snapshot.record.sessionId ∉ allowedSessions then .error (.recordOutsideScope id)
          else if snapshot.state.isFinal = false then .error (.openRecord id)
          else do
            let p ← resolveContent stores limits forbidden (attachments snapshot.record.payload) p
            resolveRecords ids { p with records := p.records ++ [snapshot] }

def resolveInstructions : List InstructionRef → Preparation → Except ContextError Preparation
  | [], p => .ok p
  | instruction :: instructions, p => do
      let p ← consume p
      let (resource, p) ← resolve stores limits forbidden instruction.resource p
      if resource.isText then
        resolveInstructions instructions
          { p with instructions := p.instructions ++ [⟨instruction, resource⟩] }
      else .error (.invalidInstruction instruction.resource)

def resolveResources : List ResourceRef → Preparation → Except ContextError Preparation
  | [], p => .ok p
  | reference :: references, p => do
      let p ← consume p
      let (_, p) ← resolve stores limits forbidden reference p
      resolveResources references p

def prepareInner (manifest : ContextManifest) : Except ContextError PreparedContext := do
  checkCount manifest limits
  let p ← resolveRecords stores allowedSessions limits forbidden manifest.records (.start limits)
  let p ← resolveInstructions stores limits forbidden manifest.instructions p
  let p ← resolveResources stores limits forbidden manifest.resources p
  .ok {
    requestedManifest := manifest
    policy := .default
    manifest
    records := p.records
    instructions := p.instructions
    resources := p.resources
    resourceBytes := p.resourceBytes }

end Inner

def prepare (manifest : ContextManifest) (stores : Stores) (allowedSessions : List SessionId)
    (limits : ContextLimits) : Except ContextError PreparedContext :=
  prepareInner stores allowedSessions limits [] manifest

/-! ## Policies applied -/

/-- The text role in which a skill is granted and delivered. -/
def SkillRequest.instruction (skill : SkillRequest) : InstructionRef :=
  ⟨skill.resource, .supplemental⟩

/-- The loop that checks the skills and authorizes their documents. -/
def authorizeSkills : List SkillRequest → List ResourceRef → List InstructionRef →
    Except ContextError (List InstructionRef)
  | [], _, instructions => .ok instructions
  | skill :: skills, skillRefs, instructions =>
      if isBlank skill.resource.revision || skillRefs.contains skill.resource then
        .error .invalidSkillRequest
      else if (match skill.delivery with | .omitted reason => isBlank reason | _ => false) then
        .error .invalidSkillRequest
      else authorizeSkills skills (skillRefs ++ [skill.resource])
        (instructions ++ [skill.instruction])

def checkAuthorization (authorization : Option InstructionAuthorization)
    (instructions : List InstructionRef) : Except ContextError Unit :=
  match authorization with
  | some authorization =>
      if authorization.requester ≠ authorization.grant.subject ∨
          (instructions.any fun instruction =>
            !authorization.grant.instructions.contains instruction) then
        .error .instructionUnauthorized
      else .ok ()
  | none => if instructions ≠ [] then .error .instructionUnauthorized else .ok ()

/-- What the loop over the omissions holds: the manifest without the items omitted so far. -/
structure Selection where
  manifest : ContextManifest
  omitted : List ContextItem
  forbidden : List ResourceRef

/-- One omission: the manifest without its item, and whether the item was in it. -/
def Selection.remove (selection : Selection) : ContextItem → Selection × Bool
  | .record id =>
      ({ selection with
          manifest.records := selection.manifest.records.filter (· ≠ id) },
        selection.manifest.records.contains id)
  | .instruction instruction =>
      ({ selection with
          manifest.instructions := selection.manifest.instructions.filter (· ≠ instruction) },
        selection.manifest.instructions.contains instruction)
  | .resource reference =>
      ({ selection with
          manifest.resources := selection.manifest.resources.filter (· ≠ reference)
          forbidden := selection.forbidden ++ [reference] },
        selection.manifest.resources.contains reference)

def omitItems : List ContextOmission → Selection → Except ContextError Selection
  | [], selection => .ok selection
  | omission :: omissions, selection =>
      if isBlank omission.reason || selection.omitted.contains omission.item then
        .error .invalidOmission
      else if (selection.remove omission.item).2 = false then .error .invalidOmission
      else
        let selection := (selection.remove omission.item).1
        omitItems omissions { selection with omitted := selection.omitted ++ [omission.item] }

def selectSkills : List SkillRequest → Selection → Except ContextError Selection
  | [], selection => .ok selection
  | skill :: skills, selection =>
      match skill.delivery with
      | .supplementalText =>
          if selection.omitted.contains (.instruction skill.instruction) then
            .error .invalidSkillRequest
          else if selection.manifest.instructions.contains skill.instruction then
            selectSkills skills selection
          else selectSkills skills { selection with
            manifest.instructions := selection.manifest.instructions ++ [skill.instruction] }
      | .requireNative =>
          if selection.manifest.resources.contains skill.resource then
            selectSkills skills selection
          else selectSkills skills { selection with
            manifest.resources := selection.manifest.resources ++ [skill.resource] }
      | .omitted _ => selectSkills skills { selection with
          forbidden := selection.forbidden ++ [skill.resource] }

/-- The last loop: each skill that is not omitted is a text document. -/
def checkSkills (resources : List Resource) : List SkillRequest → Except ContextError Unit
  | [] => .ok ()
  | skill :: skills =>
      match skill.delivery with
      | .omitted _ => checkSkills resources skills
      | _ =>
          match resources.find? fun r => r.reference == skill.resource with
          | none => .error .invalidSkillRequest
          | some resource =>
              if resource.isText then checkSkills resources skills
              else .error .invalidSkillRequest

def prepareWithPolicy (manifest : ContextManifest) (stores : Stores)
    (allowedSessions : List SessionId) (limits : ContextLimits) (policy : ContextPolicy) :
    Except ContextError PreparedContext := do
  checkCount manifest limits
  if policy.skills.length > limits.maxItems then .error .itemLimit
  let instructions ← authorizeSkills policy.skills [] manifest.instructions
  checkCount { manifest with instructions } limits
  if policy.omissions.length > limits.maxItems then .error .itemLimit
  if policy.instructionAuthorization.any fun authorization =>
      authorization.grant.instructions.length > limits.maxItems then .error .itemLimit
  checkAuthorization policy.instructionAuthorization instructions
  let selection ← omitItems policy.omissions ⟨manifest, [], []⟩
  let selection ← selectSkills policy.skills selection
  let prepared ← prepareInner stores allowedSessions limits selection.forbidden selection.manifest
  checkSkills prepared.resources policy.skills
  .ok { prepared with requestedManifest := manifest, policy }

end Context

end AgentBridge
