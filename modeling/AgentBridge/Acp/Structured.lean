import AgentBridge.Acp.RecordedRun

/-!
# Recorded runs with a JSON result

When the recording of such a run has ended, or failed, the text of its answer is checked against a
contract, and a receipt says what came of it.
-/

namespace AgentBridge

open Reasoning

namespace Acp

/-! ## The contract -/

inductive JsonRejection where
  | missingOutput
  | ambiguousOutput
  | nonTextOutput
  | outputTooLarge
  | invalidJson (message : String)
  | invalidShape (message : String)
  | invalidValue (message : String)
  | incomplete (message : String)
deriving DecidableEq

/-- An error of `serde_json::from_str`, by its category. -/
inductive ReadError where
  | data (message : String)
  | other (message : String)

/-- What `new` lets through. -/
structure JsonContract (V : Type) where
  name : String
  revision : String
  instructions : String
  maxValidationBytes : UInt64
  check : Option (V → Except String Unit)
  named : isBlank name = false
  revised : isBlank revision = false
  instructed : isBlank instructions = false
  bounded : 0 < maxValidationBytes

namespace JsonContract

variable {V : Type}

/-- Exactly one JSON value, read by `read`. -/
def validate (read : String → Except ReadError V) (c : JsonContract V) (text : String) :
    Except JsonRejection V :=
  if text.utf8ByteSize > c.maxValidationBytes.toNat then .error .outputTooLarge
  else if isBlank text then .error .missingOutput
  else
    match read text with
    | .error (.data e) => .error (.invalidShape e)
    | .error (.other e) => .error (.invalidJson e)
    | .ok value =>
        match c.check with
        | none => .ok value
        | some check =>
            match check value with
            | .error e => .error (.invalidValue e)
            | .ok () => .ok value

end JsonContract

/-! ## The receipts -/

/-- What a start records of the contract. -/
def contractMembers {V : Type} (c : JsonContract V) (wire : String) : List (String × Json) :=
  [("application_validation", .bool c.check.isSome),
    ("max_validation_bytes", Serde.toJson c.maxValidationBytes),
    ("mode", .str "validate_returned_text"), ("name", .str c.name),
    ("native_enforcement", .bool false), ("revision", .str c.revision),
    ("validator", .str "serde_deserialize"), ("version", .num 1), ("wire_text", .str wire)]

def contractEvidence {V : Type} (c : JsonContract V) (wire : String) : JsonValue :=
  ⟨.obj (contractMembers c wire), by
    refine Json.canonical_obj ["application_validation", "max_validation_bytes", "mode", "name",
      "native_enforcement", "revision", "validator", "version", "wire_text"] rfl (by decide) ?_
    simp only [contractMembers, Json.canonicalMembers, LawfulSerde.canonical_toJson]
    rfl⟩

def JsonRejection.toJson : JsonRejection → Json
  | .missingOutput => .obj [("kind", .str "missing_output")]
  | .ambiguousOutput => .obj [("kind", .str "ambiguous_output")]
  | .nonTextOutput => .obj [("kind", .str "non_text_output")]
  | .outputTooLarge => .obj [("kind", .str "output_too_large")]
  | .invalidJson e => .obj [("detail", .str e), ("kind", .str "invalid_json")]
  | .invalidShape e => .obj [("detail", .str e), ("kind", .str "invalid_shape")]
  | .invalidValue e => .obj [("detail", .str e), ("kind", .str "invalid_value")]
  | .incomplete e => .obj [("detail", .str e), ("kind", .str "incomplete")]

theorem JsonRejection.canonical_toJson (e : JsonRejection) : e.toJson.canonical = true := by
  cases e with
  | missingOutput => rfl
  | ambiguousOutput => rfl
  | nonTextOutput => rfl
  | outputTooLarge => rfl
  | invalidJson e => exact Json.canonical_obj ["detail", "kind"] rfl (by decide) rfl
  | invalidShape e => exact Json.canonical_obj ["detail", "kind"] rfl (by decide) rfl
  | invalidValue e => exact Json.canonical_obj ["detail", "kind"] rfl (by decide) rfl
  | incomplete e => exact Json.canonical_obj ["detail", "kind"] rfl (by decide) rfl

/-- A record with the revision that it has in the store. -/
structure RecordRevision where
  id : RecordId
  revision : UInt64

def RecordRevision.toJson (source : RecordRevision) : Json :=
  .obj [("id", Serde.toJson source.id), ("revision", Serde.toJson source.revision)]

def validationJson {V : Type} : Except JsonRejection V → Json
  | .ok _ => .obj [("status", .str "valid")]
  | .error e => .obj [("rejection", e.toJson), ("status", .str "rejected")]

def validationMembers {V : Type} (c : JsonContract V) (sources : List RecordRevision)
    (result : Except JsonRejection V) : List (String × Json) :=
  [("contract", .obj [("name", .str c.name), ("revision", .str c.revision)]),
    ("mode", .str "validate_returned_text"), ("native_enforcement", .bool false),
    ("sources", .arr (sources.map RecordRevision.toJson)), ("validation", validationJson result),
    ("version", .num 1)]

theorem canonical_validationJson {V : Type} (result : Except JsonRejection V) :
    (validationJson result).canonical = true := by
  cases result with
  | ok value => rfl
  | error e =>
    refine Json.canonical_obj ["rejection", "status"] rfl (by decide) ?_
    simp only [Json.canonicalMembers, e.canonical_toJson, Json.canonical, Bool.and_true]

theorem canonical_sources (sources : List RecordRevision) :
    (Json.arr (sources.map RecordRevision.toJson)).canonical = true := by
  refine Json.canonicalItems_map _ _ fun source _ => ?_
  refine Json.canonical_obj ["id", "revision"] rfl (by decide) ?_
  simp only [Json.canonicalMembers, LawfulSerde.canonical_toJson, Bool.and_true]

def validationEvidence {V : Type} (c : JsonContract V) (sources : List RecordRevision)
    (result : Except JsonRejection V) : JsonValue :=
  ⟨.obj (validationMembers c sources result), by
    refine Json.canonical_obj
      ["contract", "mode", "native_enforcement", "sources", "validation", "version"] rfl
      (by decide) ?_
    have hcontract : (Json.obj [("name", .str c.name), ("revision", .str c.revision)]).canonical =
        true := Json.canonical_obj ["name", "revision"] rfl (by decide) rfl
    simp only [validationMembers, Json.canonicalMembers, hcontract, canonical_sources,
      canonical_validationJson, Bool.true_and]
    rfl⟩

/-! ## The candidate -/

def isAgentMessage : Payload → Bool
  | .message .agent _ => true
  | _ => false

def isMessageContent : Payload → Bool
  | .extension "acp" "message_content" _ => true
  | _ => false

namespace Recorder

variable {D : Type}

def agentMessages (r : Recorder D) : List Working :=
  r.records.filter fun w => isAgentMessage w.payload

/-- The text of a message record that is one text. -/
def textOf : Payload → Except JsonRejection String
  | .message _ ⟨[.text text]⟩ => .ok text
  | _ => .error .nonTextOutput

/-- `json_candidate`: the records that the text comes from, and the text. -/
def jsonCandidate (r : Recorder D) : List RecordRevision × Except JsonRejection String :=
  let sources := r.agentMessages.map fun w => ⟨w.stored.record.id, .ofNat w.stored.revision⟩
  let candidate :=
    if r.records.any fun w => isMessageContent w.payload then .error .nonTextOutput
    else
      match r.agentMessages with
      | [] => .error .missingOutput
      | [w] =>
          if w.stored.state = .complete then textOf w.payload
          else .error (.incomplete "output record is not complete")
      | _ => .error .ambiguousOutput
  (sources, candidate)

end Recorder

/-- What a run with a JSON result uses of the libraries: the reader of its type, and the `Debug` text
of a stop reason. -/
structure ResultLibrary (V : Type) where
  read : String → Except ReadError V
  debug : StopReason → String

section

variable {D F σ V : Type} (m : StoreMachine σ) (library : ResultLibrary V)

/-- `settle`, which writes the receipt. -/
def settleResult (c : JsonContract V) (reason : Option StopReason) :
    Recording D σ (Except JsonRejection V) := do
  let r ← recorder
  let (sources, candidate) := r.jsonCandidate
  let result : Except JsonRejection V :=
    match reason with
    | some .endTurn => candidate.bind (c.validate library.read)
    | some reason => .error (.incomplete ("provider stopped: " ++ library.debug reason))
    | none => .error (.incomplete "recording or provider error")
  resultEvidence m "result_validation" (validationEvidence c sources result)
  return result

end

/-! ## The run -/

structure RecordedJsonRun (D F σ V : Type) where
  inner : RecordedRun D F σ
  contract : JsonContract V
  result : Option (Except JsonRejection V)
  failed : Bool
  returned : List (Returned D F)

namespace RecordedJsonRun

variable {D F σ V : Type}

def return_ (result : Returned D F) (s : RecordedJsonRun D F σ V) : RecordedJsonRun D F σ V :=
  { s with returned := s.returned ++ [result] }

variable (m : StoreMachine σ) (protocol : Protocol D F) (text : Fault → String)
  (library : ResultLibrary V)

def settle (reason : Option StopReason) (s : RecordedJsonRun D F σ V) :
    Except RecordingFault Unit × RecordedJsonRun D F σ V :=
  match s.inner.recording (settleResult m library s.contract reason) with
  | (.ok result, inner) => (.ok (), { s with inner, result := some result })
  | (.error f, inner) => (.error f, { s with inner })

/-- `next` once the inner call has returned; a panic leaves it at once. -/
def settleNext (result : Except RecordingFault (Option (RecordedEvent D F)))
    (s : RecordedJsonRun D F σ V) : RecordedJsonRun D F σ V :=
  match result with
  | .error .panic => s.return_ (.next result)
  | .error (.error e) =>
      match { s with failed := true }.settle m library none with
      | (.ok (), s) => s.return_ (.next (.error (.error e)))
      | (.error f, s) => s.return_ (.next (.error f))
  | .ok (some (.finished reason)) =>
      if s.result.isSome then s.return_ (.next result)
      else
        match s.settle m library (some reason) with
        | (.ok (), s) => s.return_ (.next result)
        | (.error .panic, s) => s.return_ (.next (.error .panic))
        | (.error (.error e), s) => { s with failed := true }.return_ (.next (.error (.error e)))
  | .ok event => s.return_ (.next (.ok event))

/-- The inner run went on to `inner`, and returned from a call or did not. -/
def proceed (s : RecordedJsonRun D F σ V) (inner : RecordedRun D F σ) :
    RecordedJsonRun D F σ V :=
  match inner.returned[s.inner.returned.length]? with
  | some (.next result) => { s with inner }.settleNext m library result
  | some result => { s with inner }.return_ result
  | none => { s with inner }

def isNext : RecordedRun.Event D F → Bool
  | .next _ => true
  | _ => false

def step : Next (RecordedRun.Event D F) (RecordedJsonRun D F σ V)
  | s, e =>
      if s.failed && isNext e then
        (s.inner.whenIdle s.inner).map fun inner =>
          { s with inner }.return_ (.next (.error (.error .closed)))
      else (s.inner.step m protocol text e).map (s.proceed m library)

end RecordedJsonRun

/-- `HostedRun`. -/
inductive HostedRun (D F σ V : Type) where
  | plain (run : RecordedRun D F σ)
  | json (run : RecordedJsonRun D F σ V)

namespace HostedRun

variable {D F σ V : Type}

def recorded : HostedRun D F σ V → RecordedRun D F σ
  | .plain run => run
  | .json run => run.inner

/-- What its calls have returned. -/
def returned : HostedRun D F σ V → List (Returned D F)
  | .plain run => run.returned
  | .json run => run.returned

/-- The handle of the agent's run, with the flags of the session. -/
def turn (s : HostedRun D F σ V) : Turn (SessionUpdate D F) (ToolCallUpdate F) := s.recorded.inner

/-- The store as others left it. -/
def setStore (store : σ) : HostedRun D F σ V → HostedRun D F σ V
  | .plain run => .plain { run with store }
  | .json run => .json { run with inner := { run.inner with store } }

variable (m : StoreMachine σ) (protocol : Protocol D F) (text : Fault → String)
  (library : ResultLibrary V)

def step : Next (RecordedRun.Event D F) (HostedRun D F σ V)
  | .plain run, e => (run.step m protocol text e).map .plain
  | .json run, e => (run.step m protocol text library e).map .json

/-- A run whose prompt is being sent, with a contract for its result or without. -/
def dispatched (contract : Option (JsonContract V)) (closed : Bool) (wire : String)
    (r : Recorder D) (store : σ) : HostedRun D F σ V :=
  match contract with
  | none => .plain (.dispatched closed wire r store)
  | some contract => .json ⟨.dispatched closed wire r store, contract, none, false, []⟩

end HostedRun

end Acp

end AgentBridge
