import AgentBridge.Reasoning.JsonTree

/-! # JSON that crosses into the application -/

namespace AgentBridge

open Reasoning

namespace Host

/-- What `serde_json` knows of a number: the bytes it prints, and whether an `f64` holds it without
loss, as `valid_json` asks. -/
structure Numbers (ν : Type) where
  bytes : ν → Nat
  safe : ν → Bool

variable {ν : Type}

mutual

/-- JSON crossing into JS must not silently round an integer or grow without bound. -/
def validJson (numbers : Numbers ν) (value : JsonTree ν) (depth : Nat) : Bool :=
  if depth > 16 then false
  else
    match value with
    | .arr items => validItems numbers items (depth + 1)
    | .obj fields => validFields numbers fields (depth + 1)
    | .num n => numbers.safe n
    | _ => true

def validItems (numbers : Numbers ν) (items : List (JsonTree ν)) (depth : Nat) : Bool :=
  match items with
  | [] => true
  | item :: items => validJson numbers item depth && validItems numbers items depth

def validFields (numbers : Numbers ν) (fields : List (String × JsonTree ν)) (depth : Nat) : Bool :=
  match fields with
  | [] => true
  | (_, item) :: fields => validJson numbers item depth && validFields numbers fields depth

end

/-- Bytes of a line, in and out. -/
def maxLine : Nat := 1024 * 1024

/-- Bytes of JSON that may cross. -/
def crossingLimit : Nat := 65536

/-- `value.to_string().len()`. -/
def textLength (numbers : Numbers ν) (value : JsonTree ν) : Nat := value.textBytes numbers.bytes

/-- `string`: a parameter that has to be a string and not empty. -/
def stringParam (params : JsonTree ν) (key : String) : Except String String :=
  match (params.index key).asStr with
  | some s => if s.isEmpty then .error "missing or empty string parameter" else .ok s
  | none => .error "missing or empty string parameter"

end Host

end AgentBridge
