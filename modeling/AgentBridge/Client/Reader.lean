import AgentBridge.Host.Value
import AgentBridge.Reasoning.JsonText
import AgentBridge.Reasoning.Lines
import AgentBridge.Reasoning.Prog
import AgentBridge.Reasoning.Utf16

/-!
# The frames of the host

The host writes each frame as a line of JSON.  The client reads the bytes as they come, decodes them
as a stream and dispatches every line that is complete.
-/

namespace AgentBridge

open Reasoning

/-! ## The writer -/

namespace Host

variable {ν : Type}

/-- The lines of `write_frames`; a frame that is too large ends it. -/
def frameLines (numberText : ν → List Char) : List (JsonTree ν) → Except String (List Char)
  | [] => .ok []
  | value :: frames => do
      let line := value.text numberText
      if JsonTree.utf8Bytes line > maxLine then .error "output frame too large"
      else .ok (line ++ '\n' :: (← frameLines numberText frames))

end Host

namespace Client

namespace Reader

/-! ## One frame -/

/-- What the engine knows of a number. -/
structure Engine (ν : Type) where
  isOne : ν → Bool
  isZero : ν → Bool

def truthy {ν : Type} (engine : Engine ν) : JsonTree ν → Bool
  | .null => false
  | .bool b => b
  | .num n => !engine.isZero n
  | .str s => !s.isEmpty
  | _ => true

/-- What a frame is passed on to, and the parser of the engine. -/
structure Receivers (ν S : Type) where
  parse : List UInt16 → Except String (JsonTree ν)
  respond : String → JsonTree ν → Prog String S Unit
  ready : Prog String S Unit
  toolCall : JsonTree ν → Prog String S Unit
  toolCancel : JsonTree ν → Prog String S Unit
  questionOpened : JsonTree ν → Prog String S Unit
  questionClosed : JsonTree ν → Prog String S Unit
  runEvent : JsonTree ν → Prog String S Unit

section Dispatch

variable {ν S : Type} (engine : Engine ν) (receivers : Receivers ν S)

/-- The dispatch on the kind of a frame. -/
def dispatch (frame : JsonTree ν) : Prog String S Unit :=
  let isVersion := match frame.index "version" with | .num n => engine.isOne n | _ => false
  if !isVersion then throw "unsupported host protocol"
  else
    match (frame.index "id").asStr with
    | some id => receivers.respond id frame
    | none =>
        match (frame.index "event").asStr with
        | some "ready" => receivers.ready
        | some "tool_call" => receivers.toolCall frame
        | some "tool_cancel" => receivers.toolCancel frame
        | some "question_opened" => receivers.questionOpened frame
        | some "question_closed" => receivers.questionClosed frame
        | event =>
            if truthy engine (frame.index "stream") then receivers.runEvent frame
            else if event = some "protocol_error" then
              throw ((frame.index "code").asStr.getD "undefined")
            else if event ≠ some "session_error" then throw "unknown host event"
            else pure ()

/-- A line of the host: `JSON.parse`, and the dispatch of what it returns. -/
def receive (line : List UInt16) : Prog String S Unit :=
  match receivers.parse line with
  | .ok frame => dispatch engine receivers frame
  | .error e => throw e

end Dispatch

/-! ## The loop over the stream -/

/-- A `TextDecoder` of the engine that is fed a stream. -/
structure TextDecoder where
  State : Type
  start : State
  decode : State → List UInt8 → Except String (List UInt16 × State)

inductive ReadError where
  | oversized
  | truncated
  /-- The decoder refuses the bytes. -/
  | encoding (message : String)
  /-- The frame is invalid. -/
  | frame (message : String)
deriving DecidableEq

def newline : UInt16 := 10

/-- Code units that may wait for the end of their line. -/
def bufferLimit : Nat := 2 * 1024 * 1024

/-- The white space that `trim` removes. -/
def isSpace (u : UInt16) : Bool :=
  (9 ≤ u.toNat && u.toNat ≤ 13) || u.toNat == 32 || u.toNat == 0xA0 || u.toNat == 0x1680 ||
    (0x2000 ≤ u.toNat && u.toNat ≤ 0x200A) || u.toNat == 0x2028 || u.toNat == 0x2029 ||
    u.toNat == 0x202F || u.toNat == 0x205F || u.toNat == 0x3000 || u.toNat == 0xFEFF

section Loop

variable {S : Type} (receive : List UInt16 → Prog String S Unit)

/-- A call that throws in the middle of `read`. -/
def asFrame (x : Prog String S Unit) : Prog ReadError S Unit :=
  .call fun s =>
    match x.exec s with
    | (.ok a, t) => (.ok a, t)
    | (.error e, t) => (.error (.frame e), t)

/-- The inner loop: dispatches the lines that are complete, and leaves the rest. -/
def drain (buffer : List UInt16) : Prog ReadError S (List UInt16) :=
  match _hfirst : Lines.first newline buffer with
  | none => pure buffer
  | some (line, after) => do
      asFrame (receive line)
      drain after
termination_by buffer.length
decreasing_by exact Lines.length_first _hfirst

/-- The loop of `read` over the chunks that the reader returns. -/
def readLoop (decoder : TextDecoder) :
    List (List UInt8) → List UInt16 → decoder.State → Prog ReadError S Unit
  | [], buffer, _ => if buffer.all isSpace then pure () else throw .truncated
  | chunk :: chunks, buffer, state =>
      match decoder.decode state chunk with
      | .error e => throw (.encoding e)
      | .ok (piece, state) =>
          if (buffer ++ piece).length > bufferLimit then throw .oversized
          else do
            let buffer ← drain receive (buffer ++ piece)
            readLoop decoder chunks buffer state

def read (decoder : TextDecoder) (chunks : List (List UInt8)) : Prog ReadError S Unit :=
  readLoop receive decoder chunks [] decoder.start

end Loop

end Reader

end Client

end AgentBridge
