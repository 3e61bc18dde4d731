import AgentBridge.Reasoning.Json
import Mathlib.Order.Lattice

/-!
# Encodings of data types as JSON values

The encodings a serialization framework derives: structures as objects without unknown fields, unit
enumerations as strings, other enumerations with a tag and a content member.  Members are listed by
increasing key, the order of an object read back.
-/

namespace Reasoning

class Serde (α : Type) where
  toJson : α → Json
  fromJson : Json → Except String α

/-- Values read back as they were written. -/
class LawfulSerde (α : Type) [Serde α] : Prop where
  fromJson_toJson : ∀ a : α, Serde.fromJson (Serde.toJson a) = .ok a
  canonical_toJson : ∀ a : α, (Serde.toJson a).canonical = true

/-- Values are never written as `null`, which an optional field reads as absent. -/
class NonNullSerde (α : Type) [Serde α] : Prop where
  toJson_ne_null : ∀ a : α, Serde.toJson a ≠ .null

/-- Values nest no deeper than a bound. -/
class ShallowSerde (α : Type) [Serde α] where
  bound : Nat
  depth_toJson_le : ∀ a : α, (Serde.toJson a).depth ≤ bound

namespace Serde

attribute [simp] LawfulSerde.fromJson_toJson LawfulSerde.canonical_toJson
  NonNullSerde.toJson_ne_null

variable {α : Type}

instance [Serde α] : Serde (Option α) where
  toJson
    | none => .null
    | some a => toJson a
  fromJson
    | .null => .ok none
    | j => (fromJson j).map some

/-! ## Structures and enumerations -/

/-- The members of an object, all of them known: `deny_unknown_fields`. -/
def structMembers (fields : List String) : Json → Except String (List (String × Json))
  | .obj members =>
      if members.all fun m => fields.contains m.1 then .ok members else .error "unknown field"
  | _ => .error "invalid type"

def field [Serde α] (members : List (String × Json)) (key : String) : Except String α :=
  match members.lookup key with
  | some j => fromJson j
  | none => .error "missing field"

/-- A field of an `Option` type may be missing. -/
def optionField [Serde α] (members : List (String × Json)) (key : String) :
    Except String (Option α) :=
  match members.lookup key with
  | none => .ok none
  | some j => fromJson j
/-- An enumeration of variants without data, by name. -/
def unitEnum (names : List (String × α)) : Json → Except String α
  | .str name =>
      match names.lookup name with
      | some a => .ok a
      | none => .error "unknown variant"
  | _ => .error "invalid type"

/-- An adjacently tagged value: its tag, and its content when there is one. -/
def readTagged (content : String) (j : Json) : Except String (String × Option Json) :=
  match structMembers [content, "type"] j with
  | .error e => .error e
  | .ok members =>
      match members.lookup "type" with
      | some (.str tag) => .ok (tag, members.lookup content)
      | _ => .error "missing field `type`"

def tagged (content tag : String) (data : Json) : Json :=
  .obj [(content, data), ("type", .str tag)]

def unitTagged (tag : String) : Json := .obj [("type", .str tag)]

/-- The content of a variant with data. -/
def contentOf [Serde α] : Option Json → Except String α
  | some j => fromJson j
  | none => .error "missing content"

/-- The members of the content of a variant with named fields. -/
def contentMembers (fields : List String) : Option Json → Except String (List (String × Json))
  | some j => structMembers fields j
  | none => .error "missing content"

/-- A variant without data. -/
def unitOf (a : α) : Option Json → Except String α
  | none => .ok a
  | some .null => .ok a
  | some _ => .error "invalid type"

theorem readTagged_tagged (tag : String) (data : Json) :
    readTagged "data" (tagged "data" tag data) = .ok (tag, some data) := by
  simp [readTagged, tagged, structMembers, List.lookup_cons]

theorem readTagged_unitTagged (tag : String) :
    readTagged "data" (unitTagged tag) = .ok (tag, none) := by
  simp [readTagged, unitTagged, structMembers, List.lookup_cons]

theorem depth_tagged (content tag : String) (data : Json) :
    (tagged content tag data).depth = data.depth + 1 := by
  simp [tagged, Json.depth, Json.depthMembers]

theorem canonical_tagged (tag : String) (data : Json) :
    (tagged "data" tag data).canonical = data.canonical := by
  have hsorted : sortedKeys [("data", data), ("type", Json.str tag)] = true := by
    rw [sortedKeys_eq_sortedNames]
    exact (by decide : sortedNames ["data", "type"] = true)
  simp only [tagged, Json.canonical, Json.canonicalMembers, hsorted, Bool.true_and, Bool.and_true]

theorem canonical_unitTagged (tag : String) : (unitTagged tag).canonical = true := by
  simp [unitTagged, Json.canonical, Json.canonicalMembers, sortedKeys]

/-! ## Standard types -/

instance : Serde String where
  toJson s := .str s
  fromJson
    | .str s => .ok s
    | _ => .error "invalid type"

instance : Serde Bool where
  toJson b := .bool b
  fromJson
    | .bool b => .ok b
    | _ => .error "invalid type"

instance : Serde UInt64 where
  toJson n := .num n.toNat
  fromJson
    | .num n =>
        if 0 ≤ n ∧ n.toNat < 2 ^ 64 then .ok (UInt64.ofNat n.toNat) else .error "invalid value"
    | _ => .error "invalid type"

instance : Serde UInt32 where
  toJson n := .num n.toNat
  fromJson
    | .num n =>
        if 0 ≤ n ∧ n.toNat < 2 ^ 32 then .ok (UInt32.ofNat n.toNat) else .error "invalid value"
    | _ => .error "invalid type"

instance : Serde Int64 where
  toJson n := .num n.toInt
  fromJson
    | .num n =>
        if -2 ^ 63 ≤ n ∧ n < 2 ^ 63 then .ok (Int64.ofInt n) else .error "invalid value"
    | _ => .error "invalid type"

instance : Serde JsonValue where
  toJson j := j.val
  fromJson j := if h : j.canonical = true then .ok ⟨j, h⟩ else .error "invalid value"

def readItems [Serde α] : List Json → Except String (List α)
  | [] => .ok []
  | j :: js =>
      match fromJson j, readItems js with
      | .ok a, .ok as => .ok (a :: as)
      | .error e, _ => .error e
      | _, .error e => .error e

instance [Serde α] : Serde (List α) where
  toJson l := .arr (l.map toJson)
  fromJson
    | .arr items => readItems items
    | _ => .error "invalid type"

def readMembers [Serde α] : List (String × Json) → Except String (List (String × α))
  | [] => .ok []
  | (k, j) :: ms =>
      match fromJson j, readMembers ms with
      | .ok a, .ok as => .ok ((k, a) :: as)
      | .error e, _ => .error e
      | _, .error e => .error e

instance [Serde α] : Serde (SortedMap α) where
  toJson m := .obj (m.entries.map fun e => (e.1, toJson e.2))
  fromJson
    | .obj members =>
        match readMembers members with
        | .error e => .error e
        | .ok entries =>
            match SortedMap.ofMembers? entries with
            | some m => .ok m
            | none => .error "invalid map"
    | _ => .error "invalid type"

/-! ## Their laws -/

@[simp] theorem toJson_string (s : String) : toJson s = .str s := rfl

@[simp] theorem fromJson_str (s : String) : fromJson (.str s) = .ok s := rfl

instance : LawfulSerde String := ⟨fun _ => rfl, fun _ => rfl⟩

instance : NonNullSerde String := ⟨fun _ h => by cases h⟩

instance : ShallowSerde String := ⟨0, fun _ => Nat.le_refl 0⟩

instance : LawfulSerde Bool := ⟨fun _ => rfl, fun _ => rfl⟩

instance : ShallowSerde Bool := ⟨0, fun _ => Nat.le_refl 0⟩

instance : LawfulSerde UInt64 where
  fromJson_toJson n := by
    have hlt : n.toNat < 2 ^ 64 := n.toNat_lt
    have hnonneg : (0 : Int) ≤ n.toNat := Int.natCast_nonneg _
    simp only [toJson, fromJson, hnonneg, hlt, and_self, ↓reduceIte, Int.toNat_natCast,
      UInt64.ofNat_toNat]
  canonical_toJson n := by
    have hlt : n.toNat < 2 ^ 64 := n.toNat_lt
    simp only [toJson, Json.canonical, Json.numberInRange, Bool.and_eq_true, decide_eq_true_eq]
    omega

instance : ShallowSerde UInt64 := ⟨0, fun _ => Nat.le_refl 0⟩

instance : LawfulSerde UInt32 where
  fromJson_toJson n := by
    have hlt : n.toNat < 2 ^ 32 := n.toNat_lt
    have hnonneg : (0 : Int) ≤ n.toNat := Int.natCast_nonneg _
    simp only [toJson, fromJson, hnonneg, hlt, and_self, ↓reduceIte, Int.toNat_natCast,
      UInt32.ofNat_toNat]
  canonical_toJson n := by
    have hlt : n.toNat < 2 ^ 32 := n.toNat_lt
    simp only [toJson, Json.canonical, Json.numberInRange, Bool.and_eq_true, decide_eq_true_eq]
    omega

instance : LawfulSerde Int64 where
  fromJson_toJson n := by
    have hle : -2 ^ 63 ≤ n.toInt := n.le_toInt
    have hlt : n.toInt < 2 ^ 63 := n.toInt_lt
    simp only [toJson, fromJson, hle, hlt, and_self, ↓reduceIte, Int64.ofInt_toInt]
  canonical_toJson n := by
    have hle : -2 ^ 63 ≤ n.toInt := n.le_toInt
    have hlt : n.toInt < 2 ^ 63 := n.toInt_lt
    simp only [toJson, Json.canonical, Json.numberInRange, Bool.and_eq_true, decide_eq_true_eq]
    omega

instance : ShallowSerde Int64 := ⟨0, fun _ => Nat.le_refl 0⟩

instance : LawfulSerde JsonValue where
  fromJson_toJson j := by simp only [toJson, fromJson, j.property, ↓reduceDIte]
  canonical_toJson j := j.property

theorem readItems_map [Serde α] [LawfulSerde α] (l : List α) :
    readItems (l.map toJson) = .ok l := by
  induction l with
  | nil => rfl
  | cons a l ih => simp only [List.map_cons, readItems, LawfulSerde.fromJson_toJson, ih]

instance [Serde α] [LawfulSerde α] : LawfulSerde (List α) where
  fromJson_toJson l := readItems_map l
  canonical_toJson l := by
    simp only [toJson, Json.canonical]
    exact Json.canonicalItems_map toJson l fun a _ => LawfulSerde.canonical_toJson a

instance [Serde α] : NonNullSerde (List α) := ⟨fun _ h => by cases h⟩

instance [Serde α] [ShallowSerde α] : ShallowSerde (List α) where
  bound := ShallowSerde.bound α + 1
  depth_toJson_le l := by
    simp only [toJson, Json.depth]
    exact Nat.succ_le_succ
      (Json.depthItems_map_le toJson l _ fun a _ => ShallowSerde.depth_toJson_le a)

@[simp] theorem toJson_none [Serde α] : toJson (none : Option α) = .null := rfl

@[simp] theorem toJson_some [Serde α] (a : α) : toJson (some a) = toJson a := rfl

theorem fromJson_option [Serde α] (j : Json) (h : j ≠ .null) :
    (fromJson j : Except String (Option α)) = (fromJson j).map some := by
  cases j <;> simp_all [fromJson]

instance [Serde α] [LawfulSerde α] [NonNullSerde α] : LawfulSerde (Option α) where
  fromJson_toJson a := by
    cases a with
    | none => rfl
    | some a =>
      rw [toJson_some, fromJson_option _ (NonNullSerde.toJson_ne_null a),
        LawfulSerde.fromJson_toJson]
      rfl
  canonical_toJson a := by
    cases a with
    | none => rfl
    | some a => exact LawfulSerde.canonical_toJson a

instance [Serde α] [ShallowSerde α] : ShallowSerde (Option α) where
  bound := ShallowSerde.bound α
  depth_toJson_le a := by
    cases a with
    | none => exact Nat.zero_le _
    | some a => exact ShallowSerde.depth_toJson_le a

theorem readMembers_map [Serde α] [LawfulSerde α] (l : List (String × α)) :
    readMembers (l.map fun e => (e.1, toJson e.2)) = .ok l := by
  induction l with
  | nil => rfl
  | cons a l ih => simp only [List.map_cons, readMembers, LawfulSerde.fromJson_toJson, ih]

instance [Serde α] [LawfulSerde α] : LawfulSerde (SortedMap α) where
  fromJson_toJson m := by
    simp only [toJson, fromJson, readMembers_map, SortedMap.ofMembers?_entries]
  canonical_toJson m := by
    simp only [toJson, Json.canonical, Bool.and_eq_true]
    refine ⟨?_, Json.canonicalMembers_map _ m.entries fun e _ =>
      LawfulSerde.canonical_toJson e.2⟩
    rw [sortedKeys_map toJson m.entries]
    exact m.sorted

instance [Serde α] : NonNullSerde (SortedMap α) := ⟨fun _ h => by cases h⟩

instance [Serde α] [ShallowSerde α] : ShallowSerde (SortedMap α) where
  bound := ShallowSerde.bound α + 1
  depth_toJson_le m := by
    simp only [toJson, Json.depth]
    exact Nat.succ_le_succ
      (Json.depthMembers_map_le _ m.entries _ fun e _ => ShallowSerde.depth_toJson_le e.2)

end Serde

/-- A JSON text format: how a value is written, and what reading a text gives. -/
structure SerdeJson (Text : Type) where
  toString : Json → Text
  fromStr : Text → Except String Json

/-- The nesting a text may have is below this limit. -/
def recursionLimit : Nat := 128

/-- Values below the recursion limit read back as written, others do not read back. -/
structure SerdeJson.Lawful {Text : Type} (J : SerdeJson Text) : Prop where
  read_shallow : ∀ j : Json, j.canonical = true → j.depth < recursionLimit →
    J.fromStr (J.toString j) = .ok j
  read_deep : ∀ j : Json, j.canonical = true → recursionLimit ≤ j.depth →
    ∃ e, J.fromStr (J.toString j) = .error e

/-- The text format whose texts are the trees themselves. -/
def SerdeJson.tree : SerdeJson Json where
  toString j := j
  fromStr j := if j.depth < recursionLimit then .ok j else .error "recursion limit exceeded"

theorem SerdeJson.tree_lawful : SerdeJson.tree.Lawful where
  read_shallow j _ h := by simp only [tree, h, ↓reduceIte]
  read_deep j _ h := ⟨"recursion limit exceeded", by
    simp only [tree, Nat.not_lt.mpr h, ↓reduceIte]⟩

end Reasoning
