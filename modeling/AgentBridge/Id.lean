import AgentBridge.Reasoning.SortedMap

/-! # Caller-assigned identifiers -/

namespace AgentBridge

/-- The Unicode `White_Space` property, which `str::trim` removes. -/
def isWhitespace (c : Char) : Bool :=
  (9 ≤ c.toNat && c.toNat ≤ 13) || c.toNat == 32 || c.toNat == 0x85 || c.toNat == 0xA0 ||
    c.toNat == 0x1680 || (0x2000 ≤ c.toNat && c.toNat ≤ 0x200A) || c.toNat == 0x2028 ||
    c.toNat == 0x2029 || c.toNat == 0x202F || c.toNat == 0x205F || c.toNat == 0x3000

/-- `value.trim().is_empty()`. -/
def isBlank (value : String) : Bool := value.toList.all isWhitespace

inductive IdKind where
  | slot | session | run | continuation | record | resource | actor
deriving DecidableEq

/-- An identifier of one of the kinds that the `identifier!` macro declares. -/
structure Identifier (kind : IdKind) where
  asStr : String
  notBlank : isBlank asStr = false
deriving DecidableEq

inductive InvalidId where
  | invalidId
deriving DecidableEq

def InvalidId.toString : InvalidId → String
  | .invalidId => "an identifier cannot be empty or whitespace-only"

namespace Identifier

variable {kind : IdKind}

def new (value : String) : Except InvalidId (Identifier kind) :=
  if h : isBlank value = false then .ok ⟨value, h⟩ else .error .invalidId

@[simp] theorem new_asStr (id : Identifier kind) : new id.asStr = .ok id := by
  simp only [new, id.notBlank, ↓reduceDIte]

theorem asStr_inj {a b : Identifier kind} : a.asStr = b.asStr ↔ a = b := by
  constructor
  · intro h
    cases a
    cases b
    simpa using h
  · exact congrArg asStr

end Identifier

abbrev SlotId := Identifier .slot
abbrev SessionId := Identifier .session
abbrev RunId := Identifier .run
abbrev ContinuationId := Identifier .continuation
abbrev RecordId := Identifier .record
abbrev ResourceId := Identifier .resource
abbrev ActorId := Identifier .actor

example : (Identifier.new "\n\t" : Except InvalidId SessionId) = .error .invalidId := by decide

end AgentBridge
