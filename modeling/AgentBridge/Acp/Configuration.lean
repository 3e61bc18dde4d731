import AgentBridge.Acp.Error

/-!
# The configuration of a native session

The options that an agent reports, and `normalize`, which refuses a report that it cannot show
without loss.
-/

namespace AgentBridge

open Reasoning

namespace Acp

structure SelectOption where
  value : String
  name : String
  description : Option String
deriving DecidableEq

inductive SelectOptions where
  | ungrouped (options : List SelectOption)
  | grouped (groups : List (String × List SelectOption))
  /-- One that a later version of the protocol adds. -/
  | other
deriving DecidableEq

inductive ConfigKind where
  | boolean (currentValue : Bool)
  | select (currentValue : String) (options : SelectOptions)
  | other
deriving DecidableEq

/-- The category is the text that it serializes to. -/
structure SessionConfigOption where
  id : String
  name : String
  description : Option String
  category : Option String
  kind : ConfigKind
deriving DecidableEq

structure ConfigChoice where
  value : String
  label : String
  description : Option String
  group : Option String
deriving DecidableEq

structure ConfigOption where
  id : String
  label : String
  description : Option String
  category : Option String
  current : ConfigValue
  choices : List ConfigChoice
deriving DecidableEq

/-- The closure `add`. -/
def addChoices (options : List SelectOption) (group : Option String) : List ConfigChoice :=
  options.map fun o => ⟨o.value, o.name, o.description, group⟩

def selectChoices : SelectOptions → Except AcpError (List ConfigChoice)
  | .ungrouped options => .ok (addChoices options none)
  | .grouped groups => .ok (groups.flatMap fun group => addChoices group.2 (some group.1))
  | .other => .error .invalidConfiguration

/-- The `any` over the choices; `values` holds the values inserted so far. -/
def anyInvalidChoice : List ConfigChoice → List String → Bool
  | [], _ => false
  | choice :: choices, values =>
      isBlank choice.value || values.contains choice.value ||
        anyInvalidChoice choices (choice.value :: values)

/-- The `match` on the kind of an option: its current value and its choices. -/
def currentAndChoices : ConfigKind → Except AcpError (ConfigValue × List ConfigChoice)
  | .boolean value => .ok (.boolean value, [])
  | .select value options => do
      let choices ← selectChoices options
      if anyInvalidChoice choices [] then .error .invalidConfiguration
      else .ok (.select value, choices)
  | .other => .error .invalidConfiguration

/-- The `map` of `normalize`; `ids` holds the ids inserted so far. -/
def normalizeOptions : List SessionConfigOption → List String →
    Except AcpError (List ConfigOption)
  | [], _ => .ok []
  | option :: options, ids =>
      if isBlank option.id || ids.contains option.id then .error .invalidConfiguration
      else do
        let (current, choices) ← currentAndChoices option.kind
        let rest ← normalizeOptions options (option.id :: ids)
        .ok (⟨option.id, option.name, option.description, option.category, current, choices⟩ ::
          rest)

def normalize (options : List SessionConfigOption) : Except AcpError (List ConfigOption) :=
  normalizeOptions options []

/-- The current values of normalized options, as a run records them. -/
def currentValues (options : List ConfigOption) : ConfigValues :=
  .collect (options.map fun option => (option.id, option.current))

end Acp

end AgentBridge
