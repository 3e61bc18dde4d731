import AgentBridge.Records.Encoding
import AgentBridge.Records.Rules

/-!
# The versioned documents of the JSON columns

`encode` wraps a value in a document with a version; `decode` accepts the versions 1 and 2.  A
document nests one level deeper than its value, and reads back exactly when it stays below the
recursion limit of the text format and its value reads back.
-/

namespace AgentBridge

open Reasoning
open Reasoning.Serde (structMembers field)

variable {Text α : Type}

/-- The content of `initial_json`. -/
structure InitialContent where
  payload : Payload
  state : RecordState
deriving DecidableEq

def InitialContent.toJson (a : InitialContent) : Json :=
  .obj [("payload", Serde.toJson a.payload), ("state", Serde.toJson a.state)]

def InitialContent.fromJson (j : Json) : Except String InitialContent := do
  let members ← structMembers ["payload", "state"] j
  .ok { payload := ← field members "payload", state := ← field members "state" }

instance : Serde InitialContent := ⟨InitialContent.toJson, InitialContent.fromJson⟩

def InitialContent.readBack (a : InitialContent) : InitialContent :=
  { a with payload := a.payload.readBack }

theorem InitialContent.fromJson_toJson (a : InitialContent) :
    InitialContent.fromJson a.toJson = .ok a.readBack := by
  have h : (Serde.fromJson (Serde.toJson a.payload) : Except String Payload) =
      .ok a.payload.readBack := a.payload.fromJson_toJson
  simp [InitialContent.toJson, InitialContent.fromJson, readBack, structMembers, field,
    List.lookup_cons, h, bind, Except.bind]

theorem InitialContent.canonical_toJson (a : InitialContent) : a.toJson.canonical = true := by
  have h : (Serde.toJson a.payload).canonical = true := a.payload.canonical_toJson
  refine Json.canonical_obj ["payload", "state"] rfl (by decide) ?_
  simp only [Json.canonicalMembers, LawfulSerde.canonical_toJson, h, Bool.and_true]

theorem InitialContent.depth_toJson (a : InitialContent) :
    a.toJson.depth = a.payload.toJson.depth + 1 := by
  have h : (Serde.toJson a.state).depth = 0 := rfl
  simp only [InitialContent.toJson, Json.depth, Json.depthMembers, h, Nat.max_zero]
  rfl

namespace Codec

def dataVersion : Nat := 2

/-- `Document<T>` with the current version. -/
def documentJson [Serde α] (data : α) : Json :=
  .obj [("data", Serde.toJson data), ("version", .num dataVersion)]

def documentText [Serde α] (J : SerdeJson Text) (data : α) : Text :=
  J.toString (documentJson data)

def encode [Serde α] (J : SerdeJson Text) (data : α) : Except StoreError Text :=
  .ok (documentText J data)

/-- `Document<Value>`: the version, a `u32`, and the data. -/
def readDocument (j : Json) : Except String (Nat × Json) := do
  let members ← structMembers ["data", "version"] j
  let version ← match members.lookup "version" with
    | some (.num n) => if 0 ≤ n ∧ n.toNat < 2 ^ 32 then .ok n.toNat else .error "invalid value"
    | some _ => .error "invalid type"
    | none => .error "missing field"
  match members.lookup "data" with
  | some data => .ok (version, data)
  | none => .error "missing field"

def decode [Serde α] (J : SerdeJson Text) (text : Text) : Except StoreError α :=
  match J.fromStr text with
  | .error e => .error (.corruptData e)
  | .ok j =>
  match readDocument j with
  | .error e => .error (.corruptData e)
  | .ok (version, data) =>
      if version ≠ 1 ∧ version ≠ dataVersion then .error (.unsupportedDataVersion version)
      else
        match Serde.fromJson data with
        | .error e => .error (.corruptData e)
        | .ok a => .ok a

/-- A value whose document decodes to the value itself. -/
def ReadsBack [Serde α] (J : SerdeJson Text) (a : α) : Prop :=
  decode J (documentText J a) = .ok a

/-! ## When a document reads back -/

theorem readDocument_documentJson [Serde α] (a : α) :
    readDocument (documentJson a) = .ok (dataVersion, Serde.toJson a) := by
  simp [readDocument, documentJson, structMembers, List.lookup_cons, dataVersion, bind, Except.bind]

theorem depth_documentJson [Serde α] (a : α) :
    (documentJson a).depth = (Serde.toJson a).depth + 1 := by
  simp [documentJson, Json.depth, Json.depthMembers]

theorem canonical_documentJson [Serde α] {a : α} (h : (Serde.toJson a).canonical = true) :
    (documentJson a).canonical = true := by
  refine Json.canonical_obj ["data", "version"] rfl (by decide) ?_
  have hversion : (Json.num dataVersion).canonical = true := by decide
  simp only [Json.canonicalMembers, h, hversion, Bool.and_true]

section Lawful

variable {J : SerdeJson Text} (hJ : J.Lawful)

include hJ

theorem decode_shallow [Serde α] {a b : α} (hcanonical : (Serde.toJson a).canonical = true)
    (hread : Serde.fromJson (Serde.toJson a) = .ok b)
    (hdepth : (Serde.toJson a).depth + 1 < recursionLimit) :
    decode J (documentText J a) = .ok b := by
  have htext : J.fromStr (documentText J a) = .ok (documentJson a) :=
    hJ.read_shallow _ (canonical_documentJson hcanonical) (by rw [depth_documentJson]; exact hdepth)
  simp [decode, htext, readDocument_documentJson, hread]

theorem decode_deep [Serde α] {a : α} (hcanonical : (Serde.toJson a).canonical = true)
    (hdepth : recursionLimit ≤ (Serde.toJson a).depth + 1) :
    ∃ e, (decode J (documentText J a) : Except StoreError α) = .error (.corruptData e) := by
  obtain ⟨e, he⟩ := hJ.read_deep _ (canonical_documentJson hcanonical)
    (by rw [depth_documentJson]; exact hdepth)
  exact ⟨e, by simp only [decode, documentText, he]⟩

theorem readsBack_of_shallow [Serde α] [LawfulSerde α] [ShallowSerde α] (a : α)
    (h : ShallowSerde.bound α + 1 < recursionLimit) : ReadsBack J a := by
  have hdepth := ShallowSerde.depth_toJson_le a
  exact decode_shallow hJ (LawfulSerde.canonical_toJson a) (LawfulSerde.fromJson_toJson a)
    (by omega)

theorem readsBack_iff [Serde α] {a b : α} (hcanonical : (Serde.toJson a).canonical = true)
    (hread : Serde.fromJson (Serde.toJson a) = .ok b) :
    ReadsBack J a ↔ b = a ∧ (Serde.toJson a).depth + 1 < recursionLimit := by
  constructor
  · intro h
    by_cases hdepth : (Serde.toJson a).depth + 1 < recursionLimit
    · have hb := decode_shallow hJ hcanonical hread hdepth
      rw [ReadsBack, hb, Except.ok.injEq] at h
      exact ⟨h, hdepth⟩
    · obtain ⟨e, he⟩ := decode_deep hJ hcanonical (Nat.not_lt.mp hdepth)
      rw [ReadsBack, he] at h
      cases h
  · rintro ⟨rfl, hdepth⟩
    exact decode_shallow hJ hcanonical hread hdepth

theorem readsBack_sourceRef (a : SourceRef) : ReadsBack J a :=
  readsBack_of_shallow hJ a (by decide)

theorem readsBack_contextManifest (a : ContextManifest) : ReadsBack J a :=
  readsBack_of_shallow hJ a (by decide)

theorem readsBack_runConfiguration (a : RunConfiguration) : ReadsBack J a :=
  readsBack_of_shallow hJ a (by decide)

theorem readsBack_executionRelation (a : ExecutionRelation) : ReadsBack J a :=
  readsBack_of_shallow hJ a (by decide)

theorem readsBack_continuation_iff (a : Continuation) :
    ReadsBack J a ↔ a.data.val.depth + 2 < recursionLimit := by
  rw [readsBack_iff hJ (LawfulSerde.canonical_toJson a) (LawfulSerde.fromJson_toJson a)]
  have hdepth : (Serde.toJson a).depth = a.data.val.depth + 1 := a.depth_toJson
  rw [hdepth]
  exact and_iff_right rfl

theorem readsBack_payload_iff (a : Payload) :
    ReadsBack J a ↔ a.holdsNull = false ∧ a.nesting + 3 < recursionLimit := by
  rw [readsBack_iff hJ a.canonical_toJson a.fromJson_toJson, Payload.readBack_eq_self]
  have hdepth : a.toJson.depth < recursionLimit - 1 ↔ a.nesting + 2 < recursionLimit - 1 :=
    Payload.depth_toJson_lt_iff (by decide)
  have hlimit : recursionLimit = 128 := rfl
  have hjson : (Serde.toJson a).depth = a.toJson.depth := rfl
  refine and_congr_right' ?_
  omega

theorem readsBack_initial_iff (a : InitialContent) :
    ReadsBack J a ↔ a.payload.holdsNull = false ∧ a.payload.nesting + 4 < recursionLimit := by
  have hjson : (Serde.toJson a).depth = a.payload.toJson.depth + 1 := a.depth_toJson
  have hback : a.readBack = a ↔ a.payload.readBack = a.payload := by
    cases a
    simp [InitialContent.readBack]
  rw [readsBack_iff hJ a.canonical_toJson a.fromJson_toJson, hback, Payload.readBack_eq_self]
  have hdepth : a.payload.toJson.depth < recursionLimit - 2 ↔
      a.payload.nesting + 2 < recursionLimit - 2 := Payload.depth_toJson_lt_iff (by decide)
  have hlimit : recursionLimit = 128 := rfl
  refine and_congr_right' ?_
  omega

/-- A payload's document decodes to what its encoding reads back as, or not at all. -/
theorem decode_payload (a : Payload) :
    decode J (documentText J a) = .ok a.readBack ∨
      ∃ e, (decode J (documentText J a) : Except StoreError Payload) = .error (.corruptData e) := by
  by_cases hdepth : a.toJson.depth + 1 < recursionLimit
  · exact .inl (decode_shallow hJ a.canonical_toJson a.fromJson_toJson hdepth)
  · exact .inr (decode_deep hJ a.canonical_toJson (Nat.not_lt.mp hdepth))

theorem decode_initial (a : InitialContent) :
    decode J (documentText J a) = .ok a.readBack ∨
      ∃ e, (decode J (documentText J a) : Except StoreError InitialContent) =
        .error (.corruptData e) := by
  by_cases hdepth : a.toJson.depth + 1 < recursionLimit
  · exact .inl (decode_shallow hJ a.canonical_toJson a.fromJson_toJson hdepth)
  · exact .inr (decode_deep hJ a.canonical_toJson (Nat.not_lt.mp hdepth))

/-- A continuation's document decodes to the continuation, or not at all. -/
theorem decode_continuation (a : Continuation) :
    decode J (documentText J a) = .ok a ∨
      ∃ e, (decode J (documentText J a) : Except StoreError Continuation) =
        .error (.corruptData e) := by
  have hread : Serde.fromJson (Serde.toJson a) = .ok a := LawfulSerde.fromJson_toJson a
  by_cases hdepth : (Serde.toJson a).depth + 1 < recursionLimit
  · exact .inl (decode_shallow hJ (LawfulSerde.canonical_toJson a) hread hdepth)
  · exact .inr (decode_deep hJ (LawfulSerde.canonical_toJson a) (Nat.not_lt.mp hdepth))

/-- Requests and responses always read back. -/
theorem readsBack_of_isRequest {a : Payload} (h : a.isRequest = true) : ReadsBack J a := by
  obtain ⟨hnull, hnesting⟩ := Payload.noJson_of_isRequest h
  rw [readsBack_payload_iff hJ, hnesting]
  exact ⟨hnull, by decide⟩

theorem readsBack_of_isResponse {a : Payload} (h : a.isResponse = true) : ReadsBack J a := by
  obtain ⟨hnull, hnesting⟩ := Payload.noJson_of_isResponse h
  rw [readsBack_payload_iff hJ, hnesting]
  exact ⟨hnull, by decide⟩

theorem readsBack_initial_of_isRequest {a : Payload} (h : a.isRequest = true)
    (state : RecordState) : ReadsBack J (⟨a, state⟩ : InitialContent) := by
  obtain ⟨hnull, hnesting⟩ := Payload.noJson_of_isRequest h
  rw [readsBack_initial_iff hJ, hnesting]
  exact ⟨hnull, by decide⟩

end Lawful

end Codec

/-! ## The documents of the tables -/

/-- A value as a JSON column stores it. -/
inductive Document where
  | payload (value : Payload)
  | initial (value : InitialContent)
  | source (value : SourceRef)
  | context (value : ContextManifest)
  | config (value : RunConfiguration)
  | continuation (value : Continuation)
  | relation (value : ExecutionRelation)

def Document.ReadsBack (J : SerdeJson Text) : Document → Prop
  | .payload value => Codec.ReadsBack J value
  | .initial value => Codec.ReadsBack J value
  | .source value => Codec.ReadsBack J value
  | .context value => Codec.ReadsBack J value
  | .config value => Codec.ReadsBack J value
  | .continuation value => Codec.ReadsBack J value
  | .relation value => Codec.ReadsBack J value

end AgentBridge
