import AgentBridge.Reasoning.Serde
import AgentBridge.Records.Continuation
import AgentBridge.Records.Execution

/-!
# JSON encodings of the stored data

What the `Serialize` and `Deserialize` derivations of the source give.  An encoding without
arbitrary JSON in it reads back; a payload reads back as `Payload.readBack` says.
-/

namespace AgentBridge

open Reasoning
open Reasoning.Serde (structMembers field optionField readTagged tagged unitTagged contentOf contentMembers
  unitOf unitEnum readTagged_tagged readTagged_unitTagged canonical_tagged canonical_unitTagged
  depth_tagged)

/-! ## Identifiers, enumerations and structures -/

instance {kind : IdKind} : Serde (Identifier kind) where
  toJson id := .str id.asStr
  fromJson
    | .str s =>
        match Identifier.new s with
        | .ok id => .ok id
        | .error e => .error e.toString
    | _ => .error "invalid type"

instance {kind : IdKind} : LawfulSerde (Identifier kind) where
  fromJson_toJson id := by simp only [Serde.toJson, Serde.fromJson, Identifier.new_asStr]
  canonical_toJson _ := rfl

instance {kind : IdKind} : NonNullSerde (Identifier kind) := ⟨fun _ h => by cases h⟩

instance {kind : IdKind} : ShallowSerde (Identifier kind) := ⟨0, fun _ => Nat.le_refl 0⟩

def ResourceRef.toJson (a : ResourceRef) : Json :=
  .obj [("id", Serde.toJson a.id), ("revision", Serde.toJson a.revision)]

def ResourceRef.fromJson (j : Json) : Except String ResourceRef := do
  let members ← structMembers ["id", "revision"] j
  .ok {
    id := ← field members "id",
    revision := ← field members "revision" }

instance : Serde ResourceRef := ⟨ResourceRef.toJson, ResourceRef.fromJson⟩

instance : LawfulSerde ResourceRef where
  fromJson_toJson a := by
    show ResourceRef.fromJson a.toJson = .ok a
    simp [ResourceRef.toJson, ResourceRef.fromJson, structMembers, field, List.lookup_cons,
      bind, Except.bind]
  canonical_toJson a := by
    refine Json.canonical_obj ["id", "revision"] rfl (by decide) ?_
    simp only [Json.canonicalMembers, LawfulSerde.canonical_toJson, Bool.and_true]

instance : NonNullSerde ResourceRef := ⟨fun _ h => by cases h⟩

theorem ResourceRef.depth_toJson (a : ResourceRef) : a.toJson.depth ≤ 1 := by
  have h0 := ShallowSerde.depth_toJson_le a.id
  have h1 := ShallowSerde.depth_toJson_le a.revision
  simp only [ShallowSerde.bound] at h0 h1
  simp only [ResourceRef.toJson, Json.depth_obj, Json.depthMembers_cons,
      Json.depthMembers_nil]
  omega

instance : ShallowSerde ResourceRef := ⟨1, ResourceRef.depth_toJson⟩

def InstructionRole.name : InstructionRole → String
  | .base => "base"
  | .supplemental => "supplemental"

instance : Serde InstructionRole where
  toJson a := .str a.name
  fromJson := unitEnum [("base", .base), ("supplemental", .supplemental)]

instance : LawfulSerde InstructionRole where
  fromJson_toJson a := by cases a <;> rfl
  canonical_toJson _ := rfl

instance : ShallowSerde InstructionRole := ⟨0, fun _ => Nat.le_refl 0⟩

def InstructionRef.toJson (a : InstructionRef) : Json :=
  .obj [("resource", Serde.toJson a.resource), ("role", Serde.toJson a.role)]

def InstructionRef.fromJson (j : Json) : Except String InstructionRef := do
  let members ← structMembers ["resource", "role"] j
  .ok {
    resource := ← field members "resource",
    role := ← field members "role" }

instance : Serde InstructionRef := ⟨InstructionRef.toJson, InstructionRef.fromJson⟩

instance : LawfulSerde InstructionRef where
  fromJson_toJson a := by
    show InstructionRef.fromJson a.toJson = .ok a
    simp [InstructionRef.toJson, InstructionRef.fromJson, structMembers, field, List.lookup_cons,
      bind, Except.bind]
  canonical_toJson a := by
    refine Json.canonical_obj ["resource", "role"] rfl (by decide) ?_
    simp only [Json.canonicalMembers, LawfulSerde.canonical_toJson, Bool.and_true]

instance : NonNullSerde InstructionRef := ⟨fun _ h => by cases h⟩

instance : ShallowSerde InstructionRef where
  bound := 2
  depth_toJson_le a := by
    show a.toJson.depth ≤ 2
    have h0 := ShallowSerde.depth_toJson_le a.resource
    have h1 := ShallowSerde.depth_toJson_le a.role
    simp only [ShallowSerde.bound] at h0 h1
    simp only [InstructionRef.toJson, Json.depth_obj, Json.depthMembers_cons,
      Json.depthMembers_nil]
    omega

def ContextManifest.toJson (a : ContextManifest) : Json :=
  .obj [
    ("instructions", Serde.toJson a.instructions),
    ("records", Serde.toJson a.records),
    ("resources", Serde.toJson a.resources)]

def ContextManifest.fromJson (j : Json) : Except String ContextManifest := do
  let members ← structMembers ["instructions", "records", "resources"] j
  .ok {
    records := ← field members "records",
    instructions := ← field members "instructions",
    resources := ← field members "resources" }

instance : Serde ContextManifest := ⟨ContextManifest.toJson, ContextManifest.fromJson⟩

instance : LawfulSerde ContextManifest where
  fromJson_toJson a := by
    show ContextManifest.fromJson a.toJson = .ok a
    simp [ContextManifest.toJson, ContextManifest.fromJson, structMembers, field, List.lookup_cons,
      bind, Except.bind]
  canonical_toJson a := by
    refine Json.canonical_obj ["instructions", "records", "resources"] rfl (by decide) ?_
    simp only [Json.canonicalMembers, LawfulSerde.canonical_toJson, Bool.and_true]

instance : NonNullSerde ContextManifest := ⟨fun _ h => by cases h⟩

instance : ShallowSerde ContextManifest where
  bound := 4
  depth_toJson_le a := by
    show a.toJson.depth ≤ 4
    have h0 := ShallowSerde.depth_toJson_le a.instructions
    have h1 := ShallowSerde.depth_toJson_le a.records
    have h2 := ShallowSerde.depth_toJson_le a.resources
    simp only [ShallowSerde.bound] at h0 h1 h2
    simp only [ContextManifest.toJson, Json.depth_obj, Json.depthMembers_cons,
      Json.depthMembers_nil]
    omega

def Content.toJson : Content → Json
  | .text a => tagged "data" "text" (Serde.toJson a)
  | .resource a => tagged "data" "resource" (Serde.toJson a)

def Content.fromJson (j : Json) : Except String Content := do
  let (tag, data) ← readTagged "data" j
  match tag with
  | "text" => (contentOf data).map .text
  | "resource" => (contentOf data).map .resource
  | _ => .error "unknown variant"

instance : Serde Content := ⟨Content.toJson, Content.fromJson⟩

instance : LawfulSerde Content where
  fromJson_toJson a := by
    show Content.fromJson a.toJson = .ok a
    cases a <;>
      simp [Content.toJson, Content.fromJson, readTagged_tagged, contentOf, Except.map, bind, Except.bind]
  canonical_toJson a := by
    show a.toJson.canonical = true
    cases a with
    | text a => exact (canonical_tagged _ _).trans (LawfulSerde.canonical_toJson a)
    | resource a => exact (canonical_tagged _ _).trans (LawfulSerde.canonical_toJson a)

instance : NonNullSerde Content := ⟨fun a h => by cases a <;> cases h⟩

instance : ShallowSerde Content where
  bound := 2
  depth_toJson_le a := by
    show a.toJson.depth ≤ 2
    cases a with
    | text a =>
      have h := ShallowSerde.depth_toJson_le a
      simp only [ShallowSerde.bound] at h
      simp only [Content.toJson, depth_tagged]
      omega
    | resource a =>
      have h := ShallowSerde.depth_toJson_le a
      simp only [ShallowSerde.bound] at h
      simp only [Content.toJson, depth_tagged]
      omega

def Message.toJson (a : Message) : Json :=
  .obj [("content", Serde.toJson a.content)]

def Message.fromJson (j : Json) : Except String Message := do
  let members ← structMembers ["content"] j
  .ok {
    content := ← field members "content" }

instance : Serde Message := ⟨Message.toJson, Message.fromJson⟩

instance : LawfulSerde Message where
  fromJson_toJson a := by
    show Message.fromJson a.toJson = .ok a
    simp [Message.toJson, Message.fromJson, structMembers, field, bind, Except.bind]
  canonical_toJson a := by
    refine Json.canonical_obj ["content"] rfl (by decide) ?_
    simp only [Json.canonicalMembers, LawfulSerde.canonical_toJson, Bool.and_true]

instance : NonNullSerde Message := ⟨fun _ h => by cases h⟩

instance : ShallowSerde Message where
  bound := 4
  depth_toJson_le a := by
    show a.toJson.depth ≤ 4
    have h0 := ShallowSerde.depth_toJson_le a.content
    simp only [ShallowSerde.bound] at h0
    simp only [Message.toJson, Json.depth_obj, Json.depthMembers_cons,
      Json.depthMembers_nil]
    omega

def ToolRef.toJson (a : ToolRef) : Json :=
  .obj [("name", Serde.toJson a.name), ("revision", Serde.toJson a.revision)]

def ToolRef.fromJson (j : Json) : Except String ToolRef := do
  let members ← structMembers ["name", "revision"] j
  .ok {
    name := ← field members "name",
    revision := ← field members "revision" }

instance : Serde ToolRef := ⟨ToolRef.toJson, ToolRef.fromJson⟩

instance : LawfulSerde ToolRef where
  fromJson_toJson a := by
    show ToolRef.fromJson a.toJson = .ok a
    simp [ToolRef.toJson, ToolRef.fromJson, structMembers, field, List.lookup_cons, bind, Except.bind]
  canonical_toJson a := by
    refine Json.canonical_obj ["name", "revision"] rfl (by decide) ?_
    simp only [Json.canonicalMembers, LawfulSerde.canonical_toJson, Bool.and_true]

instance : NonNullSerde ToolRef := ⟨fun _ h => by cases h⟩

instance : ShallowSerde ToolRef where
  bound := 1
  depth_toJson_le a := by
    show a.toJson.depth ≤ 1
    have h0 := ShallowSerde.depth_toJson_le a.name
    have h1 := ShallowSerde.depth_toJson_le a.revision
    simp only [ShallowSerde.bound] at h0 h1
    simp only [ToolRef.toJson, Json.depth_obj, Json.depthMembers_cons,
      Json.depthMembers_nil]
    omega

def ToolScope.toJson (a : ToolScope) : Json :=
  .obj [("session", Serde.toJson a.session), ("slot", Serde.toJson a.slot)]

def ToolScope.fromJson (j : Json) : Except String ToolScope := do
  let members ← structMembers ["session", "slot"] j
  .ok {
    session := ← field members "session",
    slot := ← field members "slot" }

instance : Serde ToolScope := ⟨ToolScope.toJson, ToolScope.fromJson⟩

instance : LawfulSerde ToolScope where
  fromJson_toJson a := by
    show ToolScope.fromJson a.toJson = .ok a
    simp [ToolScope.toJson, ToolScope.fromJson, structMembers, field, List.lookup_cons,
      bind, Except.bind]
  canonical_toJson a := by
    refine Json.canonical_obj ["session", "slot"] rfl (by decide) ?_
    simp only [Json.canonicalMembers, LawfulSerde.canonical_toJson, Bool.and_true]

instance : NonNullSerde ToolScope := ⟨fun _ h => by cases h⟩

instance : ShallowSerde ToolScope where
  bound := 1
  depth_toJson_le a := by
    show a.toJson.depth ≤ 1
    have h0 := ShallowSerde.depth_toJson_le a.session
    have h1 := ShallowSerde.depth_toJson_le a.slot
    simp only [ShallowSerde.bound] at h0 h1
    simp only [ToolScope.toJson, Json.depth_obj, Json.depthMembers_cons,
      Json.depthMembers_nil]
    omega

def ToolGrant.toJson (a : ToolGrant) : Json :=
  .obj [
    ("issuer", Serde.toJson a.issuer),
    ("scope", Serde.toJson a.scope),
    ("subject", Serde.toJson a.subject),
    ("tools", Serde.toJson a.tools)]

def ToolGrant.fromJson (j : Json) : Except String ToolGrant := do
  let members ← structMembers ["issuer", "scope", "subject", "tools"] j
  .ok {
    issuer := ← field members "issuer",
    subject := ← field members "subject",
    scope := ← field members "scope",
    tools := ← field members "tools" }

instance : Serde ToolGrant := ⟨ToolGrant.toJson, ToolGrant.fromJson⟩

instance : LawfulSerde ToolGrant where
  fromJson_toJson a := by
    show ToolGrant.fromJson a.toJson = .ok a
    simp [ToolGrant.toJson, ToolGrant.fromJson, structMembers, field, List.lookup_cons,
      bind, Except.bind]
  canonical_toJson a := by
    refine Json.canonical_obj ["issuer", "scope", "subject", "tools"] rfl (by decide) ?_
    simp only [Json.canonicalMembers, LawfulSerde.canonical_toJson, Bool.and_true]

instance : NonNullSerde ToolGrant := ⟨fun _ h => by cases h⟩

instance : ShallowSerde ToolGrant where
  bound := 3
  depth_toJson_le a := by
    show a.toJson.depth ≤ 3
    have h0 := ShallowSerde.depth_toJson_le a.issuer
    have h1 := ShallowSerde.depth_toJson_le a.scope
    have h2 := ShallowSerde.depth_toJson_le a.subject
    have h3 := ShallowSerde.depth_toJson_le a.tools
    simp only [ShallowSerde.bound] at h0 h1 h2 h3
    simp only [ToolGrant.toJson, Json.depth_obj, Json.depthMembers_cons,
      Json.depthMembers_nil]
    omega

/-- The content of a configuration value is its `value` member. -/
def ConfigValue.toJson : ConfigValue → Json
  | .select value => .obj [("type", .str "select"), ("value", Serde.toJson value)]
  | .boolean value => .obj [("type", .str "boolean"), ("value", Serde.toJson value)]

def ConfigValue.fromJson (j : Json) : Except String ConfigValue := do
  let (tag, data) ← readTagged "value" j
  match tag with
  | "select" => (contentOf data).map .select
  | "boolean" => (contentOf data).map .boolean
  | _ => .error "unknown variant"

instance : Serde ConfigValue := ⟨ConfigValue.toJson, ConfigValue.fromJson⟩

instance : LawfulSerde ConfigValue where
  fromJson_toJson a := by
    show ConfigValue.fromJson a.toJson = .ok a
    cases a <;>
      simp [ConfigValue.toJson, ConfigValue.fromJson, readTagged, structMembers, List.lookup_cons,
        contentOf, Except.map, bind, Except.bind]
  canonical_toJson a := by
    cases a <;> exact Json.canonical_obj ["type", "value"] rfl (by decide) rfl

instance : ShallowSerde ConfigValue where
  bound := 1
  depth_toJson_le a := by cases a <;> exact Nat.le_refl 1

def RunConfiguration.toJson (a : RunConfiguration) : Json :=
  .obj [("confirmed", Serde.toJson a.confirmed), ("requested", Serde.toJson a.requested)]

def RunConfiguration.fromJson (j : Json) : Except String RunConfiguration := do
  let members ← structMembers ["confirmed", "requested"] j
  .ok {
    requested := ← field members "requested",
    confirmed := ← optionField members "confirmed" }

instance : Serde RunConfiguration := ⟨RunConfiguration.toJson, RunConfiguration.fromJson⟩

instance : LawfulSerde RunConfiguration where
  fromJson_toJson a := by
    show RunConfiguration.fromJson a.toJson = .ok a
    simp [RunConfiguration.toJson, RunConfiguration.fromJson, structMembers, field, optionField, List.lookup_cons,
      bind, Except.bind]
  canonical_toJson a := by
    refine Json.canonical_obj ["confirmed", "requested"] rfl (by decide) ?_
    simp only [Json.canonicalMembers, LawfulSerde.canonical_toJson, Bool.and_true]

instance : NonNullSerde RunConfiguration := ⟨fun _ h => by cases h⟩

instance : ShallowSerde RunConfiguration where
  bound := 3
  depth_toJson_le a := by
    show a.toJson.depth ≤ 3
    have h0 := ShallowSerde.depth_toJson_le a.confirmed
    have h1 := ShallowSerde.depth_toJson_le a.requested
    simp only [ShallowSerde.bound] at h0 h1
    simp only [RunConfiguration.toJson, Json.depth_obj, Json.depthMembers_cons,
      Json.depthMembers_nil]
    omega

/-! ## Questions and payloads -/

def QuestionOption.toJson (a : QuestionOption) : Json :=
  .obj [("id", Serde.toJson a.id), ("label", Serde.toJson a.label)]

def QuestionOption.fromJson (j : Json) : Except String QuestionOption := do
  let members ← structMembers ["id", "label"] j
  .ok {
    id := ← field members "id",
    label := ← field members "label" }

instance : Serde QuestionOption := ⟨QuestionOption.toJson, QuestionOption.fromJson⟩

instance : LawfulSerde QuestionOption where
  fromJson_toJson a := by
    show QuestionOption.fromJson a.toJson = .ok a
    simp [QuestionOption.toJson, QuestionOption.fromJson, structMembers, field, List.lookup_cons,
      bind, Except.bind]
  canonical_toJson a := by
    refine Json.canonical_obj ["id", "label"] rfl (by decide) ?_
    simp only [Json.canonicalMembers, LawfulSerde.canonical_toJson, Bool.and_true]

instance : NonNullSerde QuestionOption := ⟨fun _ h => by cases h⟩

instance : ShallowSerde QuestionOption where
  bound := 1
  depth_toJson_le a := by
    show a.toJson.depth ≤ 1
    have h0 := ShallowSerde.depth_toJson_le a.id
    have h1 := ShallowSerde.depth_toJson_le a.label
    simp only [ShallowSerde.bound] at h0 h1
    simp only [QuestionOption.toJson, Json.depth_obj, Json.depthMembers_cons,
      Json.depthMembers_nil]
    omega

def QuestionFieldKind.toJson : QuestionFieldKind → Json
  | .text maxBytes =>
      tagged "data" "text" (.obj [("max_bytes", Serde.toJson maxBytes)])
  | .boolean => unitTagged "boolean"
  | .integer min max =>
      tagged "data" "integer" (.obj [("max", Serde.toJson max), ("min", Serde.toJson min)])
  | .select options =>
      tagged "data" "select" (.obj [("options", Serde.toJson options)])

def QuestionFieldKind.fromJson (j : Json) : Except String QuestionFieldKind := do
  let (tag, data) ← readTagged "data" j
  match tag with
  | "text" => do
      let members ← contentMembers ["max_bytes"] data
      .ok (.text (← field members "max_bytes"))
  | "boolean" => unitOf .boolean data
  | "integer" => do
      let members ← contentMembers ["max", "min"] data
      .ok (.integer (← field members "min") (← field members "max"))
  | "select" => do
      let members ← contentMembers ["options"] data
      .ok (.select (← field members "options"))
  | _ => .error "unknown variant"

instance : Serde QuestionFieldKind := ⟨QuestionFieldKind.toJson, QuestionFieldKind.fromJson⟩

instance : LawfulSerde QuestionFieldKind where
  fromJson_toJson a := by
    show QuestionFieldKind.fromJson a.toJson = .ok a
    cases a <;>
      simp [QuestionFieldKind.toJson, QuestionFieldKind.fromJson, readTagged_tagged, readTagged_unitTagged, unitOf, contentMembers, structMembers, field, List.lookup_cons, bind, Except.bind]
  canonical_toJson a := by
    show a.toJson.canonical = true
    cases a with
    | text maxBytes =>
      refine (canonical_tagged _ _).trans (Json.canonical_obj ["max_bytes"] rfl (by decide) ?_)
      simp only [Json.canonicalMembers, LawfulSerde.canonical_toJson, Bool.and_true]
    | boolean => exact canonical_unitTagged _
    | integer min max =>
      refine (canonical_tagged _ _).trans (Json.canonical_obj ["max", "min"] rfl (by decide) ?_)
      simp only [Json.canonicalMembers, LawfulSerde.canonical_toJson, Bool.and_true]
    | select options =>
      refine (canonical_tagged _ _).trans (Json.canonical_obj ["options"] rfl (by decide) ?_)
      simp only [Json.canonicalMembers, LawfulSerde.canonical_toJson, Bool.and_true]

instance : NonNullSerde QuestionFieldKind := ⟨fun a h => by cases a <;> cases h⟩

instance : ShallowSerde QuestionFieldKind where
  bound := 4
  depth_toJson_le a := by
    show a.toJson.depth ≤ 4
    cases a with
    | text maxBytes =>
      have h0 := ShallowSerde.depth_toJson_le maxBytes
      simp only [ShallowSerde.bound] at h0
      simp only [QuestionFieldKind.toJson, depth_tagged, Json.depth_obj, Json.depthMembers_cons,
      Json.depthMembers_nil]
      omega
    | boolean => exact Nat.le_of_ble_eq_true rfl
    | integer min max =>
      have h0 := ShallowSerde.depth_toJson_le max
      have h1 := ShallowSerde.depth_toJson_le min
      simp only [ShallowSerde.bound] at h0 h1
      simp only [QuestionFieldKind.toJson, depth_tagged, Json.depth_obj, Json.depthMembers_cons,
      Json.depthMembers_nil]
      omega
    | select options =>
      have h0 := ShallowSerde.depth_toJson_le options
      simp only [ShallowSerde.bound] at h0
      simp only [QuestionFieldKind.toJson, depth_tagged, Json.depth_obj, Json.depthMembers_cons,
      Json.depthMembers_nil]
      omega

def QuestionField.toJson (a : QuestionField) : Json :=
  .obj [
    ("id", Serde.toJson a.id),
    ("kind", Serde.toJson a.kind),
    ("label", Serde.toJson a.label),
    ("required", Serde.toJson a.required)]

def QuestionField.fromJson (j : Json) : Except String QuestionField := do
  let members ← structMembers ["id", "kind", "label", "required"] j
  .ok {
    id := ← field members "id",
    label := ← field members "label",
    required := ← field members "required",
    kind := ← field members "kind" }

instance : Serde QuestionField := ⟨QuestionField.toJson, QuestionField.fromJson⟩

instance : LawfulSerde QuestionField where
  fromJson_toJson a := by
    show QuestionField.fromJson a.toJson = .ok a
    simp [QuestionField.toJson, QuestionField.fromJson, structMembers, field, List.lookup_cons,
      bind, Except.bind]
  canonical_toJson a := by
    refine Json.canonical_obj ["id", "kind", "label", "required"] rfl (by decide) ?_
    simp only [Json.canonicalMembers, LawfulSerde.canonical_toJson, Bool.and_true]

instance : NonNullSerde QuestionField := ⟨fun _ h => by cases h⟩

instance : ShallowSerde QuestionField where
  bound := 5
  depth_toJson_le a := by
    show a.toJson.depth ≤ 5
    have h0 := ShallowSerde.depth_toJson_le a.id
    have h1 := ShallowSerde.depth_toJson_le a.kind
    have h2 := ShallowSerde.depth_toJson_le a.label
    have h3 := ShallowSerde.depth_toJson_le a.required
    simp only [ShallowSerde.bound] at h0 h1 h2 h3
    simp only [QuestionField.toJson, Json.depth_obj, Json.depthMembers_cons,
      Json.depthMembers_nil]
    omega

def Question.toJson (a : Question) : Json :=
  .obj [("fields", Serde.toJson a.fields), ("title", Serde.toJson a.title)]

def Question.fromJson (j : Json) : Except String Question := do
  let members ← structMembers ["fields", "title"] j
  .ok {
    title := ← field members "title",
    fields := ← field members "fields" }

instance : Serde Question := ⟨Question.toJson, Question.fromJson⟩

instance : LawfulSerde Question where
  fromJson_toJson a := by
    show Question.fromJson a.toJson = .ok a
    simp [Question.toJson, Question.fromJson, structMembers, field, List.lookup_cons, bind, Except.bind]
  canonical_toJson a := by
    refine Json.canonical_obj ["fields", "title"] rfl (by decide) ?_
    simp only [Json.canonicalMembers, LawfulSerde.canonical_toJson, Bool.and_true]

instance : NonNullSerde Question := ⟨fun _ h => by cases h⟩

instance : ShallowSerde Question where
  bound := 7
  depth_toJson_le a := by
    show a.toJson.depth ≤ 7
    have h0 := ShallowSerde.depth_toJson_le a.fields
    have h1 := ShallowSerde.depth_toJson_le a.title
    simp only [ShallowSerde.bound] at h0 h1
    simp only [Question.toJson, Json.depth_obj, Json.depthMembers_cons,
      Json.depthMembers_nil]
    omega

def AnswerValue.toJson : AnswerValue → Json
  | .text a => tagged "data" "text" (Serde.toJson a)
  | .boolean a => tagged "data" "boolean" (Serde.toJson a)
  | .integer a => tagged "data" "integer" (Serde.toJson a)
  | .selected a => tagged "data" "selected" (Serde.toJson a)

def AnswerValue.fromJson (j : Json) : Except String AnswerValue := do
  let (tag, data) ← readTagged "data" j
  match tag with
  | "text" => (contentOf data).map .text
  | "boolean" => (contentOf data).map .boolean
  | "integer" => (contentOf data).map .integer
  | "selected" => (contentOf data).map .selected
  | _ => .error "unknown variant"

instance : Serde AnswerValue := ⟨AnswerValue.toJson, AnswerValue.fromJson⟩

instance : LawfulSerde AnswerValue where
  fromJson_toJson a := by
    show AnswerValue.fromJson a.toJson = .ok a
    cases a <;>
      simp [AnswerValue.toJson, AnswerValue.fromJson, readTagged_tagged, contentOf, Except.map, bind, Except.bind]
  canonical_toJson a := by
    show a.toJson.canonical = true
    cases a with
    | text a => exact (canonical_tagged _ _).trans (LawfulSerde.canonical_toJson a)
    | boolean a => exact (canonical_tagged _ _).trans (LawfulSerde.canonical_toJson a)
    | integer a => exact (canonical_tagged _ _).trans (LawfulSerde.canonical_toJson a)
    | selected a => exact (canonical_tagged _ _).trans (LawfulSerde.canonical_toJson a)

instance : NonNullSerde AnswerValue := ⟨fun a h => by cases a <;> cases h⟩

instance : ShallowSerde AnswerValue where
  bound := 1
  depth_toJson_le a := by
    show a.toJson.depth ≤ 1
    cases a with
    | text a =>
      have h := ShallowSerde.depth_toJson_le a
      simp only [ShallowSerde.bound] at h
      simp only [AnswerValue.toJson, depth_tagged]
      omega
    | boolean a =>
      have h := ShallowSerde.depth_toJson_le a
      simp only [ShallowSerde.bound] at h
      simp only [AnswerValue.toJson, depth_tagged]
      omega
    | integer a =>
      have h := ShallowSerde.depth_toJson_le a
      simp only [ShallowSerde.bound] at h
      simp only [AnswerValue.toJson, depth_tagged]
      omega
    | selected a =>
      have h := ShallowSerde.depth_toJson_le a
      simp only [ShallowSerde.bound] at h
      simp only [AnswerValue.toJson, depth_tagged]
      omega

def AnswerOutcome.toJson : AnswerOutcome → Json
  | .submitted a => tagged "data" "submitted" (Serde.toJson a)
  | .declined => unitTagged "declined"
  | .cancelled => unitTagged "cancelled"

def AnswerOutcome.fromJson (j : Json) : Except String AnswerOutcome := do
  let (tag, data) ← readTagged "data" j
  match tag with
  | "submitted" => (contentOf data).map .submitted
  | "declined" => unitOf .declined data
  | "cancelled" => unitOf .cancelled data
  | _ => .error "unknown variant"

instance : Serde AnswerOutcome := ⟨AnswerOutcome.toJson, AnswerOutcome.fromJson⟩

instance : LawfulSerde AnswerOutcome where
  fromJson_toJson a := by
    show AnswerOutcome.fromJson a.toJson = .ok a
    cases a <;>
      simp [AnswerOutcome.toJson, AnswerOutcome.fromJson, readTagged_tagged, readTagged_unitTagged, unitOf, contentOf, Except.map, bind, Except.bind]
  canonical_toJson a := by
    show a.toJson.canonical = true
    cases a with
    | submitted a => exact (canonical_tagged _ _).trans (LawfulSerde.canonical_toJson a)
    | declined => exact canonical_unitTagged _
    | cancelled => exact canonical_unitTagged _

instance : NonNullSerde AnswerOutcome := ⟨fun a h => by cases a <;> cases h⟩

instance : ShallowSerde AnswerOutcome where
  bound := 3
  depth_toJson_le a := by
    show a.toJson.depth ≤ 3
    cases a with
    | submitted a =>
      have h := ShallowSerde.depth_toJson_le a
      simp only [ShallowSerde.bound] at h
      simp only [AnswerOutcome.toJson, depth_tagged]
      omega
    | declined => exact Nat.le_of_ble_eq_true rfl
    | cancelled => exact Nat.le_of_ble_eq_true rfl

def AnswerDelivery.name : AnswerDelivery → String
  | .stored => "stored"
  | .queued => "queued"
  | .unknown => "unknown"

instance : Serde AnswerDelivery where
  toJson a := .str a.name
  fromJson := unitEnum [("stored", .stored), ("queued", .queued), ("unknown", .unknown)]

instance : LawfulSerde AnswerDelivery where
  fromJson_toJson a := by cases a <;> rfl
  canonical_toJson _ := rfl

instance : ShallowSerde AnswerDelivery := ⟨0, fun _ => Nat.le_refl 0⟩

def MessageKind.name : MessageKind → String
  | .user => "user"
  | .agent => "agent"
  | .reasoning => "reasoning"

instance : Serde MessageKind where
  toJson a := .str a.name
  fromJson := unitEnum [("user", .user), ("agent", .agent), ("reasoning", .reasoning)]

instance : LawfulSerde MessageKind where
  fromJson_toJson a := by cases a <;> rfl
  canonical_toJson _ := rfl

instance : ShallowSerde MessageKind := ⟨0, fun _ => Nat.le_refl 0⟩

def ToolStatus.name : ToolStatus → String
  | .pending => "pending"
  | .running => "running"
  | .completed => "completed"
  | .failed => "failed"
  | .unknown => "unknown"

instance : Serde ToolStatus where
  toJson a := .str a.name
  fromJson := unitEnum [("pending", .pending), ("running", .running), ("completed", .completed),
    ("failed", .failed), ("unknown", .unknown)]

instance : LawfulSerde ToolStatus where
  fromJson_toJson a := by cases a <;> rfl
  canonical_toJson _ := rfl

instance : ShallowSerde ToolStatus := ⟨0, fun _ => Nat.le_refl 0⟩

def PermissionOption.toJson (a : PermissionOption) : Json :=
  .obj [
    ("effect", Serde.toJson a.effect),
    ("id", Serde.toJson a.id),
    ("label", Serde.toJson a.label)]

def PermissionOption.fromJson (j : Json) : Except String PermissionOption := do
  let members ← structMembers ["effect", "id", "label"] j
  .ok {
    id := ← field members "id",
    label := ← field members "label",
    effect := ← field members "effect" }

instance : Serde PermissionOption := ⟨PermissionOption.toJson, PermissionOption.fromJson⟩

instance : LawfulSerde PermissionOption where
  fromJson_toJson a := by
    show PermissionOption.fromJson a.toJson = .ok a
    simp [PermissionOption.toJson, PermissionOption.fromJson, structMembers, field, List.lookup_cons,
      bind, Except.bind]
  canonical_toJson a := by
    refine Json.canonical_obj ["effect", "id", "label"] rfl (by decide) ?_
    simp only [Json.canonicalMembers, LawfulSerde.canonical_toJson, Bool.and_true]

instance : NonNullSerde PermissionOption := ⟨fun _ h => by cases h⟩

instance : ShallowSerde PermissionOption where
  bound := 1
  depth_toJson_le a := by
    show a.toJson.depth ≤ 1
    have h0 := ShallowSerde.depth_toJson_le a.effect
    have h1 := ShallowSerde.depth_toJson_le a.id
    have h2 := ShallowSerde.depth_toJson_le a.label
    simp only [ShallowSerde.bound] at h0 h1 h2
    simp only [PermissionOption.toJson, Json.depth_obj, Json.depthMembers_cons,
      Json.depthMembers_nil]
    omega

def PermissionOutcome.toJson : PermissionOutcome → Json
  | .selected a => tagged "data" "selected" (Serde.toJson a)
  | .cancelled => unitTagged "cancelled"

def PermissionOutcome.fromJson (j : Json) : Except String PermissionOutcome := do
  let (tag, data) ← readTagged "data" j
  match tag with
  | "selected" => (contentOf data).map .selected
  | "cancelled" => unitOf .cancelled data
  | _ => .error "unknown variant"

instance : Serde PermissionOutcome := ⟨PermissionOutcome.toJson, PermissionOutcome.fromJson⟩

instance : LawfulSerde PermissionOutcome where
  fromJson_toJson a := by
    show PermissionOutcome.fromJson a.toJson = .ok a
    cases a <;>
      simp [PermissionOutcome.toJson, PermissionOutcome.fromJson, readTagged_tagged, readTagged_unitTagged, unitOf, contentOf, Except.map, bind, Except.bind]
  canonical_toJson a := by
    show a.toJson.canonical = true
    cases a with
    | selected a => exact (canonical_tagged _ _).trans (LawfulSerde.canonical_toJson a)
    | cancelled => exact canonical_unitTagged _

instance : NonNullSerde PermissionOutcome := ⟨fun a h => by cases a <;> cases h⟩

instance : ShallowSerde PermissionOutcome where
  bound := 1
  depth_toJson_le a := by
    show a.toJson.depth ≤ 1
    cases a with
    | selected a =>
      have h := ShallowSerde.depth_toJson_le a
      simp only [ShallowSerde.bound] at h
      simp only [PermissionOutcome.toJson, depth_tagged]
      omega
    | cancelled => exact Nat.le_of_ble_eq_true rfl

def DecisionDelivery.name : DecisionDelivery → String
  | .queued => "queued"
  | .unknown => "unknown"

instance : Serde DecisionDelivery where
  toJson a := .str a.name
  fromJson := unitEnum [("queued", .queued), ("unknown", .unknown)]

instance : LawfulSerde DecisionDelivery where
  fromJson_toJson a := by cases a <;> rfl
  canonical_toJson _ := rfl

instance : ShallowSerde DecisionDelivery := ⟨0, fun _ => Nat.le_refl 0⟩

def CompletionReason.toJson : CompletionReason → Json
  | .completed => unitTagged "completed"
  | .refused => unitTagged "refused"
  | .tokenLimit => unitTagged "token_limit"
  | .stepLimit => unitTagged "step_limit"
  | .cancelled => unitTagged "cancelled"
  | .other a => tagged "data" "other" (Serde.toJson a)

def CompletionReason.fromJson (j : Json) : Except String CompletionReason := do
  let (tag, data) ← readTagged "data" j
  match tag with
  | "completed" => unitOf .completed data
  | "refused" => unitOf .refused data
  | "token_limit" => unitOf .tokenLimit data
  | "step_limit" => unitOf .stepLimit data
  | "cancelled" => unitOf .cancelled data
  | "other" => (contentOf data).map .other
  | _ => .error "unknown variant"

instance : Serde CompletionReason := ⟨CompletionReason.toJson, CompletionReason.fromJson⟩

instance : LawfulSerde CompletionReason where
  fromJson_toJson a := by
    show CompletionReason.fromJson a.toJson = .ok a
    cases a <;>
      simp [CompletionReason.toJson, CompletionReason.fromJson, readTagged_tagged, readTagged_unitTagged, unitOf, contentOf, Except.map, bind, Except.bind]
  canonical_toJson a := by
    show a.toJson.canonical = true
    cases a with
    | completed => exact canonical_unitTagged _
    | refused => exact canonical_unitTagged _
    | tokenLimit => exact canonical_unitTagged _
    | stepLimit => exact canonical_unitTagged _
    | cancelled => exact canonical_unitTagged _
    | other a => exact (canonical_tagged _ _).trans (LawfulSerde.canonical_toJson a)

instance : NonNullSerde CompletionReason := ⟨fun a h => by cases a <;> cases h⟩

instance : ShallowSerde CompletionReason where
  bound := 1
  depth_toJson_le a := by
    show a.toJson.depth ≤ 1
    cases a with
    | completed => exact Nat.le_of_ble_eq_true rfl
    | refused => exact Nat.le_of_ble_eq_true rfl
    | tokenLimit => exact Nat.le_of_ble_eq_true rfl
    | stepLimit => exact Nat.le_of_ble_eq_true rfl
    | cancelled => exact Nat.le_of_ble_eq_true rfl
    | other a =>
      have h := ShallowSerde.depth_toJson_le a
      simp only [ShallowSerde.bound] at h
      simp only [CompletionReason.toJson, depth_tagged]
      omega

def RecordState.name : RecordState → String
  | .opened => "open"
  | .complete => "complete"
  | .interrupted => "interrupted"

instance : Serde RecordState where
  toJson a := .str a.name
  fromJson := unitEnum [("open", .opened), ("complete", .complete), ("interrupted", .interrupted)]

instance : LawfulSerde RecordState where
  fromJson_toJson a := by cases a <;> rfl
  canonical_toJson _ := rfl

instance : ShallowSerde RecordState := ⟨0, fun _ => Nat.le_refl 0⟩

def SourceRef.toJson (a : SourceRef) : Json :=
  .obj [("id", Serde.toJson a.id), ("namespace", Serde.toJson a.namespaceName)]

def SourceRef.fromJson (j : Json) : Except String SourceRef := do
  let members ← structMembers ["id", "namespace"] j
  .ok {
    namespaceName := ← field members "namespace",
    id := ← field members "id" }

instance : Serde SourceRef := ⟨SourceRef.toJson, SourceRef.fromJson⟩

instance : LawfulSerde SourceRef where
  fromJson_toJson a := by
    show SourceRef.fromJson a.toJson = .ok a
    simp [SourceRef.toJson, SourceRef.fromJson, structMembers, field, List.lookup_cons,
      bind, Except.bind]
  canonical_toJson a := by
    refine Json.canonical_obj ["id", "namespace"] rfl (by decide) ?_
    simp only [Json.canonicalMembers, LawfulSerde.canonical_toJson, Bool.and_true]

instance : NonNullSerde SourceRef := ⟨fun _ h => by cases h⟩

instance : ShallowSerde SourceRef where
  bound := 1
  depth_toJson_le a := by
    show a.toJson.depth ≤ 1
    have h0 := ShallowSerde.depth_toJson_le a.id
    have h1 := ShallowSerde.depth_toJson_le a.namespaceName
    simp only [ShallowSerde.bound] at h0 h1
    simp only [SourceRef.toJson, Json.depth_obj, Json.depthMembers_cons,
      Json.depthMembers_nil]
    omega

def DelegationGrant.toJson (a : DelegationGrant) : Json :=
  .obj [
    ("context", Serde.toJson a.context),
    ("issuer", Serde.toJson a.issuer),
    ("parent", Serde.toJson a.parent),
    ("subject", Serde.toJson a.subject),
    ("tools", Serde.toJson a.tools)]

def DelegationGrant.fromJson (j : Json) : Except String DelegationGrant := do
  let members ← structMembers ["context", "issuer", "parent", "subject", "tools"] j
  .ok {
    issuer := ← field members "issuer",
    subject := ← field members "subject",
    parent := ← field members "parent",
    context := ← field members "context",
    tools := ← field members "tools" }

instance : Serde DelegationGrant := ⟨DelegationGrant.toJson, DelegationGrant.fromJson⟩

instance : LawfulSerde DelegationGrant where
  fromJson_toJson a := by
    show DelegationGrant.fromJson a.toJson = .ok a
    simp [DelegationGrant.toJson, DelegationGrant.fromJson, structMembers, field, List.lookup_cons,
      bind, Except.bind]
  canonical_toJson a := by
    refine Json.canonical_obj ["context", "issuer", "parent", "subject", "tools"] rfl (by decide) ?_
    simp only [Json.canonicalMembers, LawfulSerde.canonical_toJson, Bool.and_true]

instance : NonNullSerde DelegationGrant := ⟨fun _ h => by cases h⟩

instance : ShallowSerde DelegationGrant where
  bound := 5
  depth_toJson_le a := by
    show a.toJson.depth ≤ 5
    have h0 := ShallowSerde.depth_toJson_le a.context
    have h1 := ShallowSerde.depth_toJson_le a.issuer
    have h2 := ShallowSerde.depth_toJson_le a.parent
    have h3 := ShallowSerde.depth_toJson_le a.subject
    have h4 := ShallowSerde.depth_toJson_le a.tools
    simp only [ShallowSerde.bound] at h0 h1 h2 h3 h4
    simp only [DelegationGrant.toJson, Json.depth_obj, Json.depthMembers_cons,
      Json.depthMembers_nil]
    omega

def ExecutionRelation.toJson (a : ExecutionRelation) : Json :=
  .obj [
    ("child", Serde.toJson a.child),
    ("child_authority", Serde.toJson a.childAuthority),
    ("delegation", Serde.toJson a.delegation),
    ("parent", Serde.toJson a.parent),
    ("parent_authority", Serde.toJson a.parentAuthority)]

def ExecutionRelation.fromJson (j : Json) : Except String ExecutionRelation := do
  let members ← structMembers ["child", "child_authority",
    "delegation", "parent", "parent_authority"] j
  .ok {
    parent := ← field members "parent",
    child := ← field members "child",
    parentAuthority := ← field members "parent_authority",
    delegation := ← field members "delegation",
    childAuthority := ← field members "child_authority" }

instance : Serde ExecutionRelation := ⟨ExecutionRelation.toJson, ExecutionRelation.fromJson⟩

instance : LawfulSerde ExecutionRelation where
  fromJson_toJson a := by
    show ExecutionRelation.fromJson a.toJson = .ok a
    simp [ExecutionRelation.toJson, ExecutionRelation.fromJson, structMembers, field, List.lookup_cons,
      bind, Except.bind]
  canonical_toJson a := by
    refine Json.canonical_obj ["child", "child_authority",
      "delegation", "parent", "parent_authority"] rfl (by decide) ?_
    simp only [Json.canonicalMembers, LawfulSerde.canonical_toJson, Bool.and_true]

instance : NonNullSerde ExecutionRelation := ⟨fun _ h => by cases h⟩

instance : ShallowSerde ExecutionRelation where
  bound := 6
  depth_toJson_le a := by
    show a.toJson.depth ≤ 6
    have h0 := ShallowSerde.depth_toJson_le a.child
    have h1 := ShallowSerde.depth_toJson_le a.childAuthority
    have h2 := ShallowSerde.depth_toJson_le a.delegation
    have h3 := ShallowSerde.depth_toJson_le a.parent
    have h4 := ShallowSerde.depth_toJson_le a.parentAuthority
    simp only [ShallowSerde.bound] at h0 h1 h2 h3 h4
    simp only [ExecutionRelation.toJson, Json.depth_obj, Json.depthMembers_cons,
      Json.depthMembers_nil]
    omega

def Continuation.toJson (a : Continuation) : Json :=
  .obj [
    ("adapter", Serde.toJson a.adapter),
    ("data", Serde.toJson a.data),
    ("id", Serde.toJson a.id),
    ("native_key", Serde.toJson a.nativeKey),
    ("predecessor", Serde.toJson a.predecessor),
    ("scope", Serde.toJson a.scope),
    ("session_id", Serde.toJson a.sessionId),
    ("slot_id", Serde.toJson a.slotId)]

def Continuation.fromJson (j : Json) : Except String Continuation := do
  let members ← structMembers ["adapter", "data", "id", "native_key",
    "predecessor", "scope", "session_id", "slot_id"] j
  .ok {
    id := ← field members "id",
    sessionId := ← field members "session_id",
    slotId := ← field members "slot_id",
    adapter := ← field members "adapter",
    scope := ← field members "scope",
    nativeKey := ← field members "native_key",
    predecessor := ← optionField members "predecessor",
    data := ← field members "data" }

instance : Serde Continuation := ⟨Continuation.toJson, Continuation.fromJson⟩

instance : LawfulSerde Continuation where
  fromJson_toJson a := by
    show Continuation.fromJson a.toJson = .ok a
    simp [Continuation.toJson, Continuation.fromJson, structMembers, field, optionField, List.lookup_cons,
      bind, Except.bind]
  canonical_toJson a := by
    refine Json.canonical_obj ["adapter", "data", "id", "native_key",
      "predecessor", "scope", "session_id", "slot_id"] rfl (by decide) ?_
    simp only [Json.canonicalMembers, LawfulSerde.canonical_toJson, Bool.and_true]

instance : NonNullSerde Continuation := ⟨fun _ h => by cases h⟩

theorem Continuation.depth_toJson (a : Continuation) : a.toJson.depth = a.data.val.depth + 1 := by
  have hdata : (Serde.toJson a.data).depth = a.data.val.depth := rfl
  have hpredecessor : (Serde.toJson a.predecessor).depth = 0 := by cases a.predecessor <;> rfl
  have htext : ∀ text : String, (Serde.toJson text).depth = 0 := fun _ => rfl
  have hid : ∀ {kind : IdKind} (id : Identifier kind), (Serde.toJson id).depth = 0 := fun _ => rfl
  simp only [Continuation.toJson, Json.depth, Json.depthMembers, hdata, hpredecessor, htext, hid]
  omega

/-! ## Payloads: what reads back -/

def ToolActivity.toJson (a : ToolActivity) : Json :=
  .obj [
    ("extensions", Serde.toJson a.extensions),
    ("input", Serde.toJson a.input),
    ("output", Serde.toJson a.output),
    ("status", Serde.toJson a.status),
    ("title", Serde.toJson a.title)]

def ToolActivity.fromJson (j : Json) : Except String ToolActivity := do
  let members ← structMembers ["extensions", "input", "output", "status", "title"] j
  .ok {
    title := ← field members "title",
    status := ← field members "status",
    input := ← optionField members "input",
    output := ← optionField members "output",
    extensions := ← field members "extensions" }

instance : Serde ToolActivity := ⟨ToolActivity.toJson, ToolActivity.fromJson⟩

/-- A JSON `null` is the encoding of an absent value. -/
def unlessNull : Option JsonValue → Option JsonValue
  | some ⟨.null, _⟩ => none
  | value => value

def ToolActivity.readBack (a : ToolActivity) : ToolActivity :=
  { a with input := unlessNull a.input, output := unlessNull a.output }

theorem fromJson_toJson_option (value : Option JsonValue) :
    (Serde.fromJson (Serde.toJson value) : Except String (Option JsonValue)) =
      .ok (unlessNull value) := by
  match value with
  | none => rfl
  | some ⟨.null, _⟩ => rfl
  | some ⟨.bool b, h⟩ => rfl
  | some ⟨.num n, h⟩ => simp [Serde.toJson, Serde.fromJson, unlessNull, h, Except.map]
  | some ⟨.str s, h⟩ => rfl
  | some ⟨.arr l, h⟩ => simp [Serde.toJson, Serde.fromJson, unlessNull, h, Except.map]
  | some ⟨.obj l, h⟩ => simp [Serde.toJson, Serde.fromJson, unlessNull, h, Except.map]

theorem canonical_toJson_option (value : Option JsonValue) :
    (Serde.toJson value).canonical = true := by
  cases value with
  | none => rfl
  | some j => exact j.property

theorem ToolActivity.fromJson_toJson (a : ToolActivity) :
    ToolActivity.fromJson a.toJson = .ok a.readBack := by
  simp [ToolActivity.toJson, ToolActivity.fromJson, ToolActivity.readBack, structMembers, field,
    optionField, List.lookup_cons, fromJson_toJson_option, bind, Except.bind]

theorem ToolActivity.canonical_toJson (a : ToolActivity) : a.toJson.canonical = true := by
  refine Json.canonical_obj ["extensions", "input", "output", "status", "title"] rfl (by decide) ?_
  simp only [Json.canonicalMembers, LawfulSerde.canonical_toJson, canonical_toJson_option,
    Bool.and_true]

def Payload.toJson : Payload → Json
  | .question a => tagged "data" "question" (Serde.toJson a)
  | .answer outcome delivery =>
      tagged "data" "answer"
        (.obj [("delivery", Serde.toJson delivery), ("outcome", Serde.toJson outcome)])
  | .message kind body =>
      tagged "data" "message" (.obj [("kind", Serde.toJson kind), ("message", Serde.toJson body)])
  | .tool a => tagged "data" "tool" (Serde.toJson a)
  | .permission title options =>
      tagged "data" "permission"
        (.obj [("options", Serde.toJson options), ("title", Serde.toJson title)])
  | .decision outcome delivery =>
      tagged "data" "decision"
        (.obj [("delivery", Serde.toJson delivery), ("outcome", Serde.toJson outcome)])
  | .failure text => tagged "data" "failure" (.obj [("message", Serde.toJson text)])
  | .runFinished reason => tagged "data" "run_finished" (.obj [("reason", Serde.toJson reason)])
  | .extension namespaceName name data =>
      tagged "data" "extension"
        (.obj [
          ("data", Serde.toJson data),
          ("name", Serde.toJson name),
          ("namespace", Serde.toJson namespaceName)])

def Payload.fromJson (j : Json) : Except String Payload := do
  let (tag, data) ← readTagged "data" j
  match tag with
  | "question" => (contentOf data).map .question
  | "answer" => do
      let members ← contentMembers ["delivery", "outcome"] data
      .ok (.answer (← field members "outcome") (← field members "delivery"))
  | "message" => do
      let members ← contentMembers ["kind", "message"] data
      .ok (.message (← field members "kind") (← field members "message"))
  | "tool" => (contentOf data).map .tool
  | "permission" => do
      let members ← contentMembers ["options", "title"] data
      .ok (.permission (← field members "title") (← field members "options"))
  | "decision" => do
      let members ← contentMembers ["delivery", "outcome"] data
      .ok (.decision (← field members "outcome") (← field members "delivery"))
  | "failure" => do
      let members ← contentMembers ["message"] data
      .ok (.failure (← field members "message"))
  | "run_finished" => do
      let members ← contentMembers ["reason"] data
      .ok (.runFinished (← field members "reason"))
  | "extension" => do
      let members ← contentMembers ["data", "name", "namespace"] data
      .ok (.extension (← field members "namespace") (← field members "name")
        (← field members "data"))
  | _ => .error "unknown variant"

instance : Serde Payload := ⟨Payload.toJson, Payload.fromJson⟩

/-- What the encoding of a payload reads back as. -/
def Payload.readBack : Payload → Payload
  | .tool a => .tool a.readBack
  | payload => payload

theorem Payload.fromJson_toJson (payload : Payload) :
    Payload.fromJson payload.toJson = .ok payload.readBack := by
  cases payload with
  | tool a =>
    have h : (Serde.fromJson (Serde.toJson a) : Except String ToolActivity) = .ok a.readBack :=
      a.fromJson_toJson
    simp [Payload.toJson, Payload.fromJson, Payload.readBack, readTagged_tagged, contentOf,
      Except.map, h, bind, Except.bind]
  | _ =>
    simp [Payload.toJson, Payload.fromJson, Payload.readBack, readTagged_tagged, contentOf,
      contentMembers, structMembers, field, List.lookup_cons, Except.map, bind, Except.bind]

theorem Payload.canonical_toJson (payload : Payload) : payload.toJson.canonical = true := by
  have hmembers {members : List (String × Json)} {tag : String} (names : List String)
      (hnames : members.map (·.1) = names) (hsorted : sortedNames names = true)
      (h : Json.canonicalMembers members = true) :
      (tagged "data" tag (.obj members)).canonical = true :=
    (canonical_tagged _ _).trans (Json.canonical_obj names hnames hsorted h)
  cases payload with
  | question a => exact (canonical_tagged _ _).trans (LawfulSerde.canonical_toJson a)
  | answer outcome delivery =>
    refine hmembers ["delivery", "outcome"] rfl (by decide) ?_
    simp only [Json.canonicalMembers, LawfulSerde.canonical_toJson, Bool.and_true]
  | message kind body =>
    refine hmembers ["kind", "message"] rfl (by decide) ?_
    simp only [Json.canonicalMembers, LawfulSerde.canonical_toJson, Bool.and_true]
  | tool a => exact (canonical_tagged _ _).trans a.canonical_toJson
  | permission title options =>
    refine hmembers ["options", "title"] rfl (by decide) ?_
    simp only [Json.canonicalMembers, LawfulSerde.canonical_toJson, Bool.and_true]
  | decision outcome delivery =>
    refine hmembers ["delivery", "outcome"] rfl (by decide) ?_
    simp only [Json.canonicalMembers, LawfulSerde.canonical_toJson, Bool.and_true]
  | failure text =>
    refine hmembers ["message"] rfl (by decide) ?_
    simp only [Json.canonicalMembers, LawfulSerde.canonical_toJson, Bool.and_true]
  | runFinished reason =>
    refine hmembers ["reason"] rfl (by decide) ?_
    simp only [Json.canonicalMembers, LawfulSerde.canonical_toJson, Bool.and_true]
  | extension namespaceName name data =>
    refine hmembers ["data", "name", "namespace"] rfl (by decide) ?_
    simp only [Json.canonicalMembers, LawfulSerde.canonical_toJson, Bool.and_true]

/-! ## The nesting of arbitrary JSON in a payload -/

/-- The nesting of a value that may be absent. -/
def optionNesting (value : Option JsonValue) : Nat :=
  match value with
  | none => 0
  | some j => j.val.depth

/-- The nesting of the JSON of a tool activity, its map of extensions included. -/
def ToolActivity.nesting (a : ToolActivity) : Nat :=
  max (a.extensions.entries.foldr (fun e d => max e.2.val.depth d) 0 + 1)
    (max (optionNesting a.input) (optionNesting a.output))

def Payload.nesting : Payload → Nat
  | .tool a => a.nesting
  | .extension _ _ data => data.val.depth
  | _ => 0

/-- A tool activity whose input or output is present and `null`. -/
def Payload.holdsNull : Payload → Bool
  | .tool a => a.input.any (fun j => j.val == .null) || a.output.any fun j => j.val == .null
  | _ => false

/-- Requests and responses hold no arbitrary JSON. -/
theorem Payload.noJson_of_isRequest {payload : Payload} (h : payload.isRequest = true) :
    payload.holdsNull = false ∧ payload.nesting = 0 := by
  cases payload <;> simp_all [isRequest, holdsNull, nesting]

theorem Payload.noJson_of_isResponse {payload : Payload} (h : payload.isResponse = true) :
    payload.holdsNull = false ∧ payload.nesting = 0 := by
  cases payload <;> simp_all [isResponse, holdsNull, nesting]

theorem depth_toJson_option (value : Option JsonValue) :
    (Serde.toJson value).depth = optionNesting value := by
  cases value <;> rfl

theorem depth_toJson_extensions (m : SortedMap JsonValue) :
    (Serde.toJson m).depth = m.entries.foldr (fun e d => max e.2.val.depth d) 0 + 1 := by
  have hmembers : ∀ l : List (String × JsonValue),
      Json.depthMembers (l.map fun e => (e.1, Serde.toJson e.2)) =
        l.foldr (fun e d => max e.2.val.depth d) 0 := by
    intro l
    induction l with
    | nil => rfl
    | cons e l ih =>
      simp only [List.map_cons, Json.depthMembers, List.foldr_cons, ih]
      rfl
  show Json.depthMembers _ + 1 = _
  rw [hmembers]

theorem ToolActivity.depth_toJson (a : ToolActivity) : a.toJson.depth = a.nesting + 1 := by
  have hs : (Serde.toJson a.status).depth = 0 := by cases a.status <;> rfl
  have ht : (Serde.toJson a.title).depth = 0 := rfl
  simp only [ToolActivity.toJson, Json.depth, Json.depthMembers, depth_toJson_extensions,
    depth_toJson_option, hs, ht, ToolActivity.nesting]
  omega

/-- Other payloads hold no arbitrary JSON, so their nesting is bounded. -/
theorem Payload.depth_toJson_le {payload : Payload} (htool : payload.discriminant ≠ .tool)
    (hextension : payload.discriminant ≠ .extension) : payload.toJson.depth ≤ 8 := by
  cases payload with
  | question a =>
    have ha := ShallowSerde.depth_toJson_le a
    simp only [ShallowSerde.bound] at ha
    simp only [Payload.toJson, depth_tagged]
    omega
  | answer outcome delivery =>
    have ho := ShallowSerde.depth_toJson_le outcome
    have hd := ShallowSerde.depth_toJson_le delivery
    simp only [ShallowSerde.bound] at ho hd
    simp only [Payload.toJson, depth_tagged, Json.depth_obj, Json.depthMembers_cons,
      Json.depthMembers_nil]
    omega
  | message kind body =>
    have hk := ShallowSerde.depth_toJson_le kind
    have hb := ShallowSerde.depth_toJson_le body
    simp only [ShallowSerde.bound] at hk hb
    simp only [Payload.toJson, depth_tagged, Json.depth_obj, Json.depthMembers_cons,
      Json.depthMembers_nil]
    omega
  | permission title options =>
    have ht := ShallowSerde.depth_toJson_le title
    have ho := ShallowSerde.depth_toJson_le options
    simp only [ShallowSerde.bound] at ht ho
    simp only [Payload.toJson, depth_tagged, Json.depth_obj, Json.depthMembers_cons,
      Json.depthMembers_nil]
    omega
  | decision outcome delivery =>
    have ho := ShallowSerde.depth_toJson_le outcome
    have hd := ShallowSerde.depth_toJson_le delivery
    simp only [ShallowSerde.bound] at ho hd
    simp only [Payload.toJson, depth_tagged, Json.depth_obj, Json.depthMembers_cons,
      Json.depthMembers_nil]
    omega
  | failure text =>
    have ht := ShallowSerde.depth_toJson_le text
    simp only [ShallowSerde.bound] at ht
    simp only [Payload.toJson, depth_tagged, Json.depth_obj, Json.depthMembers_cons,
      Json.depthMembers_nil]
    omega
  | runFinished reason =>
    have hr := ShallowSerde.depth_toJson_le reason
    simp only [ShallowSerde.bound] at hr
    simp only [Payload.toJson, depth_tagged, Json.depth_obj, Json.depthMembers_cons,
      Json.depthMembers_nil]
    omega
  | tool a => exact absurd rfl htool
  | extension namespaceName name data => exact absurd rfl hextension

/-- Up to the nesting that every payload has, a bound on a payload's encoding is a bound on the
arbitrary JSON in it. -/
theorem Payload.depth_toJson_lt_iff {payload : Payload} {limit : Nat} (h : 8 < limit) :
    payload.toJson.depth < limit ↔ payload.nesting + 2 < limit := by
  cases payload with
  | tool a =>
    have ha : (Serde.toJson a).depth = a.nesting + 1 := a.depth_toJson
    simp only [Payload.toJson, depth_tagged, ha, Payload.nesting]
  | extension namespaceName name data =>
    have hd : (Serde.toJson data).depth = data.val.depth := rfl
    have hn : (Serde.toJson name).depth = 0 := rfl
    have hs : (Serde.toJson namespaceName).depth = 0 := rfl
    simp only [Payload.toJson, depth_tagged, Json.depth, Json.depthMembers, hd, hn, hs,
      Payload.nesting, Nat.max_zero]
  | _ =>
    simp only [Payload.nesting]
    refine iff_of_true (Nat.lt_of_le_of_lt (Payload.depth_toJson_le ?_ ?_) h) (by omega)
    · simp [Payload.discriminant]
    · simp [Payload.discriminant]

theorem unlessNull_eq_self {value : Option JsonValue} :
    unlessNull value = value ↔ (value.any fun j => j.val == .null) = false := by
  match value with
  | none => simp [unlessNull]
  | some ⟨.null, _⟩ => simp [unlessNull]
  | some ⟨.bool b, h⟩ => simp [unlessNull]
  | some ⟨.num n, h⟩ => simp [unlessNull]
  | some ⟨.str s, h⟩ => simp [unlessNull]
  | some ⟨.arr l, h⟩ => simp [unlessNull]
  | some ⟨.obj l, h⟩ => simp [unlessNull]

theorem Payload.readBack_eq_self {payload : Payload} :
    payload.readBack = payload ↔ payload.holdsNull = false := by
  cases payload with
  | tool a =>
    simp only [readBack, tool.injEq, holdsNull, Bool.or_eq_false_iff, ← unlessNull_eq_self]
    cases a
    simp [ToolActivity.readBack]
  | _ => simp [readBack, holdsNull]

@[simp] theorem Payload.discriminant_readBack (payload : Payload) :
    payload.readBack.discriminant = payload.discriminant := by
  cases payload <;> rfl

theorem Payload.readBack_of_isRequest {payload : Payload} (h : payload.isRequest = true) :
    payload.readBack = payload := by
  cases payload <;> simp_all [isRequest, readBack]

end AgentBridge
