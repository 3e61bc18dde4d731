import AgentBridge.Client.Value
import AgentBridge.Host.Replies

/-!
# Tool results of the client

A tool call of the host runs a handler of the application.  What the handler returns or throws goes
back to the host in one request, which reads it and hands it to the pending call.
-/

namespace AgentBridge

open Reasoning

namespace Client

variable {ν μ : Type}

/-! ## The client -/

/-- What a handler does: it returns, or throws an error that `String` makes a text of, or none when
`String` throws itself. -/
inductive Execution (ν : Type) where
  | returns (value : JsValue ν)
  | throws (text : Option (List UInt16))

/-- `new Error(message)` as a text. -/
def errorText (message : String) : List UInt16 := Utf16.encode ("Error: " ++ message)

/-- `invoke` of a tool made by `defineTool`, from its handler on. -/
def invoke (doubles : Doubles ν) (execution : Execution ν) :
    Except (Option (List UInt16)) (JsValue ν) :=
  match execution with
  | .throws text => .error text
  | .returns value =>
      match check doubles value 0 with
      | .error message => .error (some (errorText message))
      | .ok () =>
          if value.textBytes doubles.bytes > 60000 then
            .error (some (errorText "tool result exceeds byte limit"))
          else .ok value

def success (value : JsValue ν) : JsValue ν :=
  .obj [(Utf16.encode "kind", .str (Utf16.encode "success")), (Utf16.encode "value", value)]

def failure (message : List UInt16) : JsValue ν :=
  .obj [(Utf16.encode "kind", .str (Utf16.encode "error")), (Utf16.encode "message", .str message)]

/-- The outcome that `accept` responds with, if it does. -/
def outcome (doubles : Doubles ν) (execution : Execution ν) : Option (JsValue ν) :=
  match invoke doubles execution with
  | .ok value => some (success value)
  | .error (some text) => some (failure (text.take 2000))
  | .error none => none

/-- The request that carries an outcome, the `n`-th of the client. -/
structure ToolResultFrame (ν : Type) where
  n : Nat
  call : String
  binding : String
  session : String
  slot : String
  outcome : JsValue ν

namespace ToolResultFrame

def id (frame : ToolResultFrame ν) : String := "request-" ++ toString frame.n

/-- The ids are those of the host's own `tool_call`. -/
def params (frame : ToolResultFrame ν) : JsValue ν :=
  .obj [(Utf16.encode "call_id", .str (Utf16.encode frame.call)),
    (Utf16.encode "binding_id", .str (Utf16.encode frame.binding)),
    (Utf16.encode "session_id", .str (Utf16.encode frame.session)),
    (Utf16.encode "slot_id", .str (Utf16.encode frame.slot)),
    (Utf16.encode "outcome", frame.outcome)]

/-- The line that `send` writes: `"version":1,` and the line end beside the other members. -/
def lineBytes (doubles : Doubles ν) (frame : ToolResultFrame ν) : Nat :=
  JsValue.textBytes doubles.bytes (.obj [(Utf16.encode "id", .str (Utf16.encode frame.id)),
    (Utf16.encode "method", .str (Utf16.encode "tool_result")),
    (Utf16.encode "params", frame.params)]) + 12 + 1

end ToolResultFrame

/-! ## The host -/

/-- What the host does with the line: `frame_too_large`, `invalid_request`, or the answer of the
hub. -/
def receive (doubles : Doubles ν) (numbers : Host.Numbers μ) (readNumber : ν → μ)
    (h : Host.Tools.Hub μ) (frame : ToolResultFrame ν) : Except String (Host.Tools.Hub μ) :=
  if frame.lineBytes doubles > Host.maxLine then .error "frame_too_large"
  else
    match frame.params.read readNumber with
    | none => .error "invalid_request"
    | some params =>
        match Host.Tools.reply numbers h params with
        | (.ok (), h) => .ok h
        | (.error message, _) => .error message

end Client

end AgentBridge
