import AgentBridge.Id

/-! # Sessions, context manifests, authority and run specifications -/

namespace AgentBridge

open Reasoning

structure ResourceRef where
  id : ResourceId
  revision : String
deriving DecidableEq

inductive InstructionRole where
  | base
  | supplemental
deriving DecidableEq

structure InstructionRef where
  resource : ResourceRef
  role : InstructionRole
deriving DecidableEq

structure ContextManifest where
  records : List RecordId
  instructions : List InstructionRef
  resources : List ResourceRef
deriving DecidableEq

def ContextManifest.default : ContextManifest := ⟨[], [], []⟩

inductive Content where
  | text (s : String)
  | resource (reference : ResourceRef)
deriving DecidableEq

structure Message where
  content : List Content
deriving DecidableEq

structure ToolRef where
  name : String
  revision : String
deriving DecidableEq

structure ToolScope where
  session : SessionId
  slot : SlotId
deriving DecidableEq

structure ToolGrant where
  issuer : ActorId
  subject : ActorId
  scope : ToolScope
  tools : List ToolRef
deriving DecidableEq

inductive ConfigValue where
  | select (value : String)
  | boolean (value : Bool)
deriving DecidableEq

abbrev ConfigValues := SortedMap ConfigValue

structure RunConfiguration where
  requested : ConfigValues
  confirmed : Option ConfigValues
deriving DecidableEq

def RunConfiguration.default : RunConfiguration := ⟨.empty, none⟩

structure RunSpec where
  id : RunId
  sessionId : SessionId
  slotId : SlotId
  context : ContextManifest
  config : RunConfiguration
  /-- The claimed continuation from which this native session was resumed. -/
  continuation : Option ContinuationId
deriving DecidableEq

end AgentBridge
