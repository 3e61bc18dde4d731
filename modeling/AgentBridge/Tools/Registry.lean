import AgentBridge.Model
import AgentBridge.Reasoning.JsonTree

/-!
# Application tools

The registry of the tools of an application, what a grant shows of it, and an invocation through it.
A future is what its polls yield.  The schema libraries are parameters: the schema of a type and the
codecs of its values, and the validator that is built from a schema.
-/

namespace AgentBridge

open Reasoning

namespace Tools

variable {ν : Type}

/-! ## Data -/

inductive ToolError where
  | invalidDefinition
  | invalidSchema (message : String)
  | duplicateDefinition
  | notGranted
  | unknownTool
  | invalidArguments (message : String)
  | handler (message : String)
  | invalidResult (message : String)
  | cancelled
deriving DecidableEq

structure ToolDefinition (ν : Type) where
  reference : ToolRef
  description : String
  inputSchema : JsonTree ν

structure ToolInvocation where
  host : ActorId
  actor : ActorId
  scope : ToolScope
  /-- Whether the token is cancelled when it is looked at for the n-th time. -/
  cancellation : Nat → Bool

/-- What the n-th poll of a future yields. -/
def Future (α : Type) : Type := Nat → Option α

/-- The future of an entry's handler: the arguments that it calls the application with, unless it
refuses them, and its polls. -/
structure HandlerFuture (ν : Type) where
  ran : Option (JsonTree ν)
  polls : Future (Except ToolError (JsonTree ν))

structure Entry (ν : Type) where
  definition : ToolDefinition ν
  handler : ToolInvocation → JsonTree ν → HandlerFuture ν

/-- Each entry is kept under its own name. -/
structure ToolRegistry (ν : Type) where
  entries : SortedMap (Entry ν)
  keyed : ∀ name entry, (name, entry) ∈ entries.entries → entry.definition.reference.name = name

/-! ## Schemas -/

/-- The keywords of a schema that are left to the validator. -/
def assertionKeywords : List String :=
  ["type", "title", "description", "enum", "const", "required", "minLength", "maxLength", "minimum",
    "maximum", "exclusiveMinimum", "exclusiveMaximum", "minItems", "maxItems", "uniqueItems",
    "minProperties", "maxProperties"]

def dialect : String := "https://json-schema.org/draft/2020-12/schema"

mutual

/-- `check_schema`, which counts the nodes that it visits. -/
def checkSchema (schema : JsonTree ν) (depth nodes : Nat) : Except ToolError Nat :=
  if depth > 16 ∨ nodes + 1 > 256 then .error (.invalidSchema "schema exceeds node/depth limits")
  else
    match schema with
    | .bool _ => .ok (nodes + 1)
    | .obj object => checkKeywords object depth (nodes + 1)
    | _ => .error .invalidDefinition

def checkKeywords (object : List (String × JsonTree ν)) (depth nodes : Nat) :
    Except ToolError Nat :=
  match object with
  | [] => .ok nodes
  | (key, value) :: object =>
      if key = "$schema" ∧ value.asStr = some dialect then checkKeywords object depth nodes
      else if key ∈ assertionKeywords then checkKeywords object depth nodes
      else if key = "properties" then do
        let nodes ← checkProperties value (depth + 1) nodes
        checkKeywords object depth nodes
      else if key = "items" ∨ key = "additionalProperties" then do
        let nodes ← checkSchema value (depth + 1) nodes
        checkKeywords object depth nodes
      else .error (.invalidSchema ("unsupported schema keyword: " ++ key))

def checkProperties (value : JsonTree ν) (depth nodes : Nat) : Except ToolError Nat :=
  match value with
  | .obj schemas => checkSchemas schemas depth nodes
  | _ => .error .invalidDefinition

def checkSchemas (schemas : List (String × JsonTree ν)) (depth nodes : Nat) :
    Except ToolError Nat :=
  match schemas with
  | [] => .ok nodes
  | (_, schema) :: schemas => do
      let nodes ← checkSchema schema depth nodes
      checkSchemas schemas depth nodes

end

/-- What is not in the sources: the bytes of a printed number, and the validator of a schema. -/
structure SchemaLibrary (ν : Type) where
  numberBytes : ν → Nat
  build : JsonTree ν → Except String (JsonTree ν → Bool)

/-- Bytes of a schema, and of the arguments of a dynamic tool. -/
def byteLimit : Nat := 65536

def compileSchema (library : SchemaLibrary ν) (schema : JsonTree ν) :
    Except ToolError (JsonTree ν → Bool) :=
  if schema.textBytes library.numberBytes > byteLimit then
    .error (.invalidSchema "schema exceeds byte limit")
  else do
    let _ ← checkSchema schema 0 0
    match library.build schema with
    | .ok validator => .ok validator
    | .error message => .error (.invalidSchema message)

/-! ## Registration -/

def nameChar (c : Char) : Bool := c.isAlphanum || c == '_' || c == '-' || c == '.'

/-- What both kinds of registration check before the schema. -/
def wellNamed (reference : ToolRef) (description : String) : Bool :=
  !reference.name.isEmpty && reference.name.utf8ByteSize ≤ 128 &&
    reference.name.toList.all nameChar && !isBlank reference.revision && !isBlank description

/-- `schema["type"] == "object"` -/
def isObjectSchema (schema : JsonTree ν) : Bool := (schema.index "type").asStr = some "object"

/-- What is derived for the types of a typed tool. -/
structure Codec (ν I O : Type) where
  schema : Option (JsonTree ν)
  decode : JsonTree ν → Except String I
  encode : O → Except String (JsonTree ν)

/-- The future that refuses its arguments. -/
def refuse (message : String) : HandlerFuture ν :=
  ⟨none, fun _ => some (.error (.invalidArguments message))⟩

def typedHandler {I O : Type} (codec : Codec ν I O)
    (handler : ToolInvocation → I → Future (Except ToolError O)) (context : ToolInvocation)
    (arguments : JsonTree ν) : HandlerFuture ν :=
  match arguments with
  | .obj _ =>
      match codec.decode arguments with
      | .error message => refuse message
      | .ok input =>
          ⟨some arguments, fun n => (handler context input n).map fun result =>
            match result with
            | .error error => .error error
            | .ok output => (codec.encode output).mapError .invalidResult⟩
  | _ => refuse "arguments must be an object"

def dynamicHandler (library : SchemaLibrary ν) (validator : JsonTree ν → Bool)
    (handler : ToolInvocation → JsonTree ν → Future (Except ToolError (JsonTree ν)))
    (context : ToolInvocation) (input : JsonTree ν) : HandlerFuture ν :=
  if input.textBytes library.numberBytes > byteLimit then refuse "arguments exceed byte limit"
  else if !validator input then refuse "arguments do not match the registered schema"
  else ⟨some input, handler context input⟩

namespace ToolRegistry

def default : ToolRegistry ν := ⟨SortedMap.empty, nofun⟩

/-- `self.entries.insert`, under the name of the entry. -/
def insert (r : ToolRegistry ν) (entry : Entry ν) : ToolRegistry ν where
  entries := r.entries.insert entry.definition.reference.name entry
  keyed name other h := by
    rcases mem_setKey h with hnew | hold
    · cases hnew
      rfl
    · exact r.keyed name other hold

/-- `register`; a call that fails leaves the registry as it was. -/
def register {I O : Type} (codec : Codec ν I O) (reference : ToolRef) (description : String)
    (handler : ToolInvocation → I → Future (Except ToolError O)) (r : ToolRegistry ν) :
    Except ToolError (ToolRegistry ν) :=
  if !wellNamed reference description then .error .invalidDefinition
  else if (r.entries.get reference.name).isSome then .error .duplicateDefinition
  else
    match codec.schema with
    | none => .error .invalidDefinition
    | some inputSchema =>
        if !isObjectSchema inputSchema then .error .invalidDefinition
        else .ok (r.insert ⟨⟨reference, description, inputSchema⟩, typedHandler codec handler⟩)

/-- `register_dynamic`; a call that fails leaves the registry as it was. -/
def registerDynamic (library : SchemaLibrary ν) (definition : ToolDefinition ν)
    (handler : ToolInvocation → JsonTree ν → Future (Except ToolError (JsonTree ν)))
    (r : ToolRegistry ν) : Except ToolError (ToolRegistry ν) :=
  if !wellNamed definition.reference definition.description ||
      !isObjectSchema definition.inputSchema ||
      definition.inputSchema.textBytes library.numberBytes > byteLimit then
    .error .invalidDefinition
  else if (r.entries.get definition.reference.name).isSome then .error .duplicateDefinition
  else do
    let validator ← compileSchema library definition.inputSchema
    .ok (r.insert ⟨definition, dynamicHandler library validator handler⟩)

/-! ## Discovery and invocation -/

def authorizeScope (grant : ToolGrant) (invocation : ToolInvocation) : Except ToolError Unit :=
  if grant.issuer ≠ invocation.host ∨ grant.subject ≠ invocation.actor ∨
      grant.scope ≠ invocation.scope then
    .error .notGranted
  else .ok ()

def catalog (r : ToolRegistry ν) (grant : ToolGrant) (invocation : ToolInvocation) :
    Except ToolError (List (ToolDefinition ν)) := do
  authorizeScope grant invocation
  .ok (((r.entries.entries.map (·.2)).filter
    fun entry => grant.tools.contains entry.definition.reference).map (·.definition))

/-- What an invocation came to after some polls of it. -/
structure Outcome (ν : Type) where
  /-- The entry whose handler was polled. -/
  reached : Option (ToolDefinition ν)
  /-- The arguments that the application was called with. -/
  ran : Option (JsonTree ν)
  result : Option (Except ToolError (JsonTree ν))

/-- `tokio::select!`, which looks at the token before each poll of the handler. -/
def select (cancellation : Nat → Bool) (entry : Entry ν) (future : HandlerFuture ν) :
    Nat → Outcome ν
  | 0 => ⟨none, none, none⟩
  | n + 1 =>
      let before := select cancellation entry future n
      if before.result.isSome then before
      else if cancellation (n + 1) then { before with result := some (.error .cancelled) }
      else ⟨some entry.definition, future.ran, future.polls n⟩

/-- The entry of an invocation that is authorized. -/
def authorize (r : ToolRegistry ν) (name : String) (grant : ToolGrant)
    (invocation : ToolInvocation) : Except ToolError (Entry ν) := do
  authorizeScope grant invocation
  if !grant.tools.any fun tool => tool.name == name then .error .notGranted
  else
    match r.entries.get name with
    | none => .error .unknownTool
    | some entry =>
        if !grant.tools.contains entry.definition.reference then .error .notGranted
        else .ok entry

/-- `invoke`, after some polls of it. -/
def invoke (r : ToolRegistry ν) (name : String) (arguments : JsonTree ν) (grant : ToolGrant)
    (invocation : ToolInvocation) (polls : Nat) : Outcome ν :=
  match r.authorize name grant invocation with
  | .error error => ⟨none, none, some (.error error)⟩
  | .ok entry =>
      if invocation.cancellation 0 then ⟨none, none, some (.error .cancelled)⟩
      else select invocation.cancellation entry (entry.handler invocation arguments) polls

end ToolRegistry

end Tools

end AgentBridge
