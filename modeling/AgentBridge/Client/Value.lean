import AgentBridge.Host.Value
import AgentBridge.Reasoning.Except
import AgentBridge.Reasoning.Utf16

/-!
# Values of the script side

What a tool handler can return, the check that the client makes of it, and what the host reads of the
text that the client writes for it.
-/

namespace AgentBridge

open Reasoning

namespace Client

/-- What the engine knows of a number, and the bytes that `JSON.stringify` prints for it. -/
structure Doubles (ν : Type) where
  bytes : ν → Nat
  isFinite : ν → Bool
  isInteger : ν → Bool
  isSafeInteger : ν → Bool

/-- The numbers that `check` lets pass. -/
def Doubles.accepts {ν : Type} (doubles : Doubles ν) (n : ν) : Bool :=
  doubles.isFinite n && (!doubles.isInteger n || doubles.isSafeInteger n)

/-- The host takes every number that the client lets pass: it reads a fraction near the printed one,
and a safe integer exactly. -/
def Doubles.SafeIn {ν μ : Type} (doubles : Doubles ν) (numbers : Host.Numbers μ)
    (readNumber : ν → μ) : Prop :=
  ∀ n, doubles.accepts n = true → numbers.safe (readNumber n) = true

/-- Why a value is no JSON data: neither data nor an object, or an object that is on the path already;
an object of a class; an array with holes or extra properties; an object with symbol keys. -/
inductive Refusal where
  | notData
  | notPlain
  | holes
  | symbols

def Refusal.message : Refusal → String
  | .notData => "value is not safe JSON"
  | .notPlain => "value must be plain JSON"
  | .holes => "JSON arrays must not have holes or extra properties"
  | .symbols => "JSON has symbol keys"

/-- A value of the engine, with strings of code units and own properties in their order. -/
inductive JsValue (ν : Type) where
  | null
  | bool (b : Bool)
  | num (n : ν)
  | str (s : List UInt16)
  | arr (items : List (JsValue ν))
  | obj (members : List (List UInt16 × JsValue ν))
  | other (refusal : Refusal)

variable {ν μ : Type}

mutual

def check (doubles : Doubles ν) (value : JsValue ν) (depth : Nat) : Except String Unit :=
  if depth > 16 then .error "JSON exceeds depth limit"
  else
    match value with
    | .num n => if doubles.accepts n then .ok () else .error Refusal.notData.message
    | .arr items => checkItems doubles items (depth + 1)
    | .obj members => checkMembers doubles members (depth + 1)
    | .other refusal => .error refusal.message
    | _ => .ok ()

def checkItems (doubles : Doubles ν) (items : List (JsValue ν)) (depth : Nat) : Except String Unit :=
  match items with
  | [] => .ok ()
  | item :: items => do
      check doubles item depth
      checkItems doubles items depth

def checkMembers (doubles : Doubles ν) (members : List (List UInt16 × JsValue ν)) (depth : Nat) :
    Except String Unit :=
  match members with
  | [] => .ok ()
  | (_, item) :: members => do
      check doubles item depth
      checkMembers doubles members depth

end

namespace JsValue

mutual

/-- The bytes of `JSON.stringify`; what is no data has no text. -/
def textBytes (numberBytes : ν → Nat) : JsValue ν → Nat
  | .null => 4
  | .bool b => if b then 4 else 5
  | .num n => numberBytes n
  | .str s => Utf16.stringBytes s
  | .arr items => itemsBytes numberBytes items + 2
  | .obj members => membersBytes numberBytes members + 2
  | .other _ => 0

def itemsBytes (numberBytes : ν → Nat) : List (JsValue ν) → Nat
  | [] => 0
  | [item] => item.textBytes numberBytes
  | item :: items => item.textBytes numberBytes + 1 + itemsBytes numberBytes items

def membersBytes (numberBytes : ν → Nat) : List (List UInt16 × JsValue ν) → Nat
  | [] => 0
  | [(key, item)] => Utf16.stringBytes key + 1 + item.textBytes numberBytes
  | (key, item) :: members =>
      Utf16.stringBytes key + 1 + item.textBytes numberBytes + 1 + membersBytes numberBytes members

end

mutual

/-- What `serde_json` reads of the text: it refuses lone surrogates, and takes the number nearest to
the printed one as well as it can. -/
def read (readNumber : ν → μ) : JsValue ν → Option (JsonTree μ)
  | .null => some .null
  | .bool b => some (.bool b)
  | .num n => some (.num (readNumber n))
  | .str s => (Utf16.read s).map .str
  | .arr items => (readItems readNumber items).map .arr
  | .obj members => (readMembers readNumber members).map .obj
  | .other _ => none

def readItems (readNumber : ν → μ) : List (JsValue ν) → Option (List (JsonTree μ))
  | [] => some []
  | item :: items => do
      let item ← item.read readNumber
      let items ← readItems readNumber items
      some (item :: items)

def readMembers (readNumber : ν → μ) : List (List UInt16 × JsValue ν) →
    Option (List (String × JsonTree μ))
  | [] => some []
  | (key, item) :: members => do
      let key ← Utf16.read key
      let item ← item.read readNumber
      let members ← readMembers readNumber members
      some ((key, item) :: members)

end

mutual

/-- Nested arrays and objects around the innermost value. -/
def depth : JsValue ν → Nat
  | .arr items => depthItems items
  | .obj members => depthMembers members
  | _ => 0

def depthItems : List (JsValue ν) → Nat
  | [] => 0
  | item :: items => max (item.depth + 1) (depthItems items)

def depthMembers : List (List UInt16 × JsValue ν) → Nat
  | [] => 0
  | (_, item) :: members => max (item.depth + 1) (depthMembers members)

end

mutual

/-- No string and no key has a surrogate alone. -/
def isWellFormed : JsValue ν → Bool
  | .str s => (Utf16.decode s).isSome
  | .arr items => areWellFormed items
  | .obj members => haveWellFormed members
  | _ => true

def areWellFormed : List (JsValue ν) → Bool
  | [] => true
  | item :: items => item.isWellFormed && areWellFormed items

def haveWellFormed : List (List UInt16 × JsValue ν) → Bool
  | [] => true
  | (key, item) :: members =>
      (Utf16.decode key).isSome && item.isWellFormed && haveWellFormed members

end

end JsValue

/-! ## What passes the check -/

section Check

variable {doubles : Doubles ν} {numbers : Host.Numbers μ} {readNumber : ν → μ}

theorem accepts_of_check {n : ν} {d : Nat} (h : check doubles (.num n) d = .ok ()) :
    doubles.accepts n = true := by
  unfold check at h
  split at h
  · cases h
  · simp only at h
    split at h
    · next haccepts => exact haccepts
    · cases h

mutual

theorem depth_of_check (value : JsValue ν) {d : Nat} (h : check doubles value d = .ok ()) :
    value.depth + d ≤ 16 := by
  unfold check at h
  split at h
  · cases h
  · next hd =>
    cases value with
    | arr items => exact depth_of_checkItems items (by omega) h
    | obj members => exact depth_of_checkMembers members (by omega) h
    | other refusal => cases h
    | _ =>
      simp only [JsValue.depth]
      omega

theorem depth_of_checkItems (items : List (JsValue ν)) {d : Nat} (hd : d ≤ 16)
    (h : checkItems doubles items (d + 1) = .ok ()) : JsValue.depthItems items + d ≤ 16 := by
  cases items with
  | nil =>
    simp only [JsValue.depthItems]
    omega
  | cons item items =>
    unfold checkItems at h
    obtain ⟨_, hitem, hitems⟩ := bind_eq_ok.mp h
    have hfirst := depth_of_check item hitem
    have hrest := depth_of_checkItems items hd hitems
    simp only [JsValue.depthItems]
    omega

theorem depth_of_checkMembers (members : List (List UInt16 × JsValue ν)) {d : Nat} (hd : d ≤ 16)
    (h : checkMembers doubles members (d + 1) = .ok ()) :
    JsValue.depthMembers members + d ≤ 16 := by
  cases members with
  | nil =>
    simp only [JsValue.depthMembers]
    omega
  | cons member members =>
    unfold checkMembers at h
    obtain ⟨_, hitem, hmembers⟩ := bind_eq_ok.mp h
    have hfirst := depth_of_check member.2 hitem
    have hrest := depth_of_checkMembers members hd hmembers
    simp only [JsValue.depthMembers]
    omega

end

mutual

theorem depth_of_read (value : JsValue ν) {t : JsonTree μ} (h : value.read readNumber = some t) :
    t.depth = value.depth := by
  cases value with
  | str s =>
    obtain ⟨text, -, rfl⟩ := Option.map_eq_some_iff.mp h
    rfl
  | arr items =>
    obtain ⟨ts, hts, rfl⟩ := Option.map_eq_some_iff.mp h
    exact depth_of_readItems items hts
  | obj members =>
    obtain ⟨ts, hts, rfl⟩ := Option.map_eq_some_iff.mp h
    exact depth_of_readMembers members hts
  | other refusal => cases h
  | _ =>
    obtain rfl := Option.some.inj h
    rfl

theorem depth_of_readItems (items : List (JsValue ν)) {ts : List (JsonTree μ)}
    (h : JsValue.readItems readNumber items = some ts) :
    JsonTree.depthItems ts = JsValue.depthItems items := by
  cases items with
  | nil =>
    obtain rfl := Option.some.inj h
    rfl
  | cons item items =>
    obtain ⟨t, ht, h⟩ := Option.bind_eq_some_iff.mp h
    obtain ⟨ts', hts, h⟩ := Option.bind_eq_some_iff.mp h
    obtain rfl := Option.some.inj h
    simp only [JsonTree.depthItems, JsValue.depthItems, depth_of_read item ht,
      depth_of_readItems items hts]

theorem depth_of_readMembers (members : List (List UInt16 × JsValue ν))
    {ts : List (String × JsonTree μ)} (h : JsValue.readMembers readNumber members = some ts) :
    JsonTree.depthMembers ts = JsValue.depthMembers members := by
  cases members with
  | nil =>
    obtain rfl := Option.some.inj h
    rfl
  | cons member members =>
    obtain ⟨key, -, h⟩ := Option.bind_eq_some_iff.mp h
    obtain ⟨t, ht, h⟩ := Option.bind_eq_some_iff.mp h
    obtain ⟨ts', hts, h⟩ := Option.bind_eq_some_iff.mp h
    obtain rfl := Option.some.inj h
    simp only [JsonTree.depthMembers, JsValue.depthMembers, depth_of_read member.2 ht,
      depth_of_readMembers members hts]

end

mutual

/-- The host prints what it read with its own numbers. -/
theorem textBytes_of_read (numberBytes : μ → Nat) (value : JsValue ν) {t : JsonTree μ}
    (h : value.read readNumber = some t) :
    t.textBytes numberBytes = value.textBytes fun n => numberBytes (readNumber n) := by
  cases value with
  | str s =>
    obtain ⟨text, htext, rfl⟩ := Option.map_eq_some_iff.mp h
    exact (Utf16.stringBytes_eq htext).symm
  | arr items =>
    obtain ⟨ts, hts, rfl⟩ := Option.map_eq_some_iff.mp h
    simp only [JsonTree.textBytes, JsValue.textBytes, itemsBytes_of_read numberBytes items hts]
  | obj members =>
    obtain ⟨ts, hts, rfl⟩ := Option.map_eq_some_iff.mp h
    simp only [JsonTree.textBytes, JsValue.textBytes, membersBytes_of_read numberBytes members hts]
  | other refusal => cases h
  | _ =>
    obtain rfl := Option.some.inj h
    rfl

theorem itemsBytes_of_read (numberBytes : μ → Nat) (items : List (JsValue ν))
    {ts : List (JsonTree μ)} (h : JsValue.readItems readNumber items = some ts) :
    JsonTree.itemsBytes numberBytes ts =
      JsValue.itemsBytes (fun n => numberBytes (readNumber n)) items := by
  cases items with
  | nil =>
    obtain rfl := Option.some.inj h
    rfl
  | cons item items =>
    obtain ⟨t, ht, h⟩ := Option.bind_eq_some_iff.mp h
    obtain ⟨ts', hts, h⟩ := Option.bind_eq_some_iff.mp h
    obtain rfl := Option.some.inj h
    have hitem := textBytes_of_read numberBytes item ht
    have hitems := itemsBytes_of_read numberBytes items hts
    cases items with
    | nil =>
      obtain rfl := Option.some.inj hts
      simp only [JsonTree.itemsBytes, JsValue.itemsBytes, hitem]
    | cons second rest =>
      obtain ⟨t', -, hts⟩ := Option.bind_eq_some_iff.mp hts
      obtain ⟨ts'', -, hts⟩ := Option.bind_eq_some_iff.mp hts
      obtain rfl := Option.some.inj hts
      simp only [JsonTree.itemsBytes, JsValue.itemsBytes, hitem] at hitems ⊢
      rw [hitems]

theorem membersBytes_of_read (numberBytes : μ → Nat) (members : List (List UInt16 × JsValue ν))
    {ts : List (String × JsonTree μ)} (h : JsValue.readMembers readNumber members = some ts) :
    JsonTree.membersBytes numberBytes ts =
      JsValue.membersBytes (fun n => numberBytes (readNumber n)) members := by
  cases members with
  | nil =>
    obtain rfl := Option.some.inj h
    rfl
  | cons member members =>
    obtain ⟨key, hkey, h⟩ := Option.bind_eq_some_iff.mp h
    obtain ⟨t, ht, h⟩ := Option.bind_eq_some_iff.mp h
    obtain ⟨ts', hts, h⟩ := Option.bind_eq_some_iff.mp h
    obtain rfl := Option.some.inj h
    have hkeyBytes := Utf16.stringBytes_eq hkey
    have hitem := textBytes_of_read numberBytes member.2 ht
    have hmembers := membersBytes_of_read numberBytes members hts
    cases members with
    | nil =>
      obtain rfl := Option.some.inj hts
      simp only [JsonTree.membersBytes, JsValue.membersBytes, hitem, hkeyBytes]
    | cons second rest =>
      obtain ⟨key', -, hts⟩ := Option.bind_eq_some_iff.mp hts
      obtain ⟨t', -, hts⟩ := Option.bind_eq_some_iff.mp hts
      obtain ⟨ts'', -, hts⟩ := Option.bind_eq_some_iff.mp hts
      obtain rfl := Option.some.inj hts
      simp only [JsonTree.membersBytes, JsValue.membersBytes, hitem, hkeyBytes] at hmembers ⊢
      rw [hmembers]

end

mutual

/-- Behind the client's check only the depth is left to the host's. -/
theorem validJson_of_check (hnumbers : doubles.SafeIn numbers readNumber) (value : JsValue ν)
    {t : JsonTree μ} {d e : Nat}
    (hcheck : check doubles value d = .ok ()) (h : value.read readNumber = some t) :
    Host.validJson numbers t e = true ↔ t.depth + e ≤ 16 := by
  have hchecked := hcheck
  unfold check at hcheck
  split at hcheck
  · cases hcheck
  · unfold Host.validJson
    by_cases he : e > 16
    · rw [if_pos he]
      constructor
      · intro h'
        cases h'
      · omega
    · rw [if_neg he]
      cases value with
      | num n =>
        obtain rfl := Option.some.inj h
        have hsafe := hnumbers n (accepts_of_check hchecked)
        simp only [JsonTree.depth, hsafe, true_iff]
        omega
      | str s =>
        obtain ⟨text, -, rfl⟩ := Option.map_eq_some_iff.mp h
        simp only [JsonTree.depth, true_iff]
        omega
      | arr items =>
        obtain ⟨ts, hts, rfl⟩ := Option.map_eq_some_iff.mp h
        exact validItems_of_check hnumbers items (by omega) hcheck hts
      | obj members =>
        obtain ⟨ts, hts, rfl⟩ := Option.map_eq_some_iff.mp h
        exact validFields_of_check hnumbers members (by omega) hcheck hts
      | other refusal => cases h
      | _ =>
        obtain rfl := Option.some.inj h
        simp only [JsonTree.depth, true_iff]
        omega

theorem validItems_of_check (hnumbers : doubles.SafeIn numbers readNumber)
    (items : List (JsValue ν)) {ts : List (JsonTree μ)} {d e : Nat}
    (he : e ≤ 16) (hcheck : checkItems doubles items d = .ok ())
    (h : JsValue.readItems readNumber items = some ts) :
    Host.validItems numbers ts (e + 1) = true ↔ JsonTree.depthItems ts + e ≤ 16 := by
  cases items with
  | nil =>
    obtain rfl := Option.some.inj h
    simp only [JsonTree.depthItems, Host.validItems, true_iff]
    omega
  | cons item items =>
    unfold checkItems at hcheck
    obtain ⟨_, hfirst, hrest⟩ := bind_eq_ok.mp hcheck
    obtain ⟨t, ht, h⟩ := Option.bind_eq_some_iff.mp h
    obtain ⟨ts', hts, h⟩ := Option.bind_eq_some_iff.mp h
    obtain rfl := Option.some.inj h
    have hitem : Host.validJson numbers t (e + 1) = true ↔ t.depth + (e + 1) ≤ 16 :=
      validJson_of_check hnumbers item hfirst ht
    have hitems := validItems_of_check hnumbers items he hrest hts
    simp only [Host.validItems, Bool.and_eq_true, JsonTree.depthItems, hitem, hitems]
    omega

theorem validFields_of_check (hnumbers : doubles.SafeIn numbers readNumber)
    (members : List (List UInt16 × JsValue ν))
    {ts : List (String × JsonTree μ)} {d e : Nat} (he : e ≤ 16)
    (hcheck : checkMembers doubles members d = .ok ())
    (h : JsValue.readMembers readNumber members = some ts) :
    Host.validFields numbers ts (e + 1) = true ↔ JsonTree.depthMembers ts + e ≤ 16 := by
  cases members with
  | nil =>
    obtain rfl := Option.some.inj h
    simp only [JsonTree.depthMembers, Host.validFields, true_iff]
    omega
  | cons member members =>
    unfold checkMembers at hcheck
    obtain ⟨_, hfirst, hrest⟩ := bind_eq_ok.mp hcheck
    obtain ⟨key, -, h⟩ := Option.bind_eq_some_iff.mp h
    obtain ⟨t, ht, h⟩ := Option.bind_eq_some_iff.mp h
    obtain ⟨ts', hts, h⟩ := Option.bind_eq_some_iff.mp h
    obtain rfl := Option.some.inj h
    have hitem : Host.validJson numbers t (e + 1) = true ↔ t.depth + (e + 1) ≤ 16 :=
      validJson_of_check hnumbers member.2 hfirst ht
    have hmembers := validFields_of_check hnumbers members he hrest hts
    simp only [Host.validFields, Bool.and_eq_true, JsonTree.depthMembers, hitem, hmembers]
    omega

end

mutual

/-- Behind the check only the strings are left to the host's reader. -/
theorem read_isSome (readNumber : ν → μ) (value : JsValue ν) {d : Nat} (hcheck : check doubles value d = .ok ()) :
    (value.read readNumber).isSome = value.isWellFormed := by
  unfold check at hcheck
  split at hcheck
  · cases hcheck
  · cases value with
    | str s => simp only [JsValue.read, JsValue.isWellFormed, Utf16.read, Option.isSome_map]
    | arr items =>
      simp only [JsValue.read, JsValue.isWellFormed, Option.isSome_map]
      exact readItems_isSome readNumber items hcheck
    | obj members =>
      simp only [JsValue.read, JsValue.isWellFormed, Option.isSome_map]
      exact readMembers_isSome readNumber members hcheck
    | other refusal => cases hcheck
    | _ => rfl

theorem readItems_isSome (readNumber : ν → μ) (items : List (JsValue ν)) {d : Nat}
    (hcheck : checkItems doubles items d = .ok ()) :
    (JsValue.readItems readNumber items).isSome = JsValue.areWellFormed items := by
  cases items with
  | nil => rfl
  | cons item items =>
    unfold checkItems at hcheck
    obtain ⟨_, hfirst, hrest⟩ := bind_eq_ok.mp hcheck
    have hitem := read_isSome readNumber item hfirst
    have hitems := readItems_isSome readNumber items hrest
    simp only [JsValue.readItems, JsValue.areWellFormed, ← hitem, ← hitems]
    cases item.read readNumber <;> cases JsValue.readItems readNumber items <;> rfl

theorem readMembers_isSome (readNumber : ν → μ) (members : List (List UInt16 × JsValue ν)) {d : Nat}
    (hcheck : checkMembers doubles members d = .ok ()) :
    (JsValue.readMembers readNumber members).isSome = JsValue.haveWellFormed members := by
  cases members with
  | nil => rfl
  | cons member members =>
    unfold checkMembers at hcheck
    obtain ⟨_, hfirst, hrest⟩ := bind_eq_ok.mp hcheck
    have hitem := read_isSome readNumber member.2 hfirst
    have hmembers := readMembers_isSome readNumber members hrest
    simp only [JsValue.readMembers, JsValue.haveWellFormed, ← hitem, ← hmembers, Utf16.read]
    cases Utf16.decode member.1 <;> cases member.2.read readNumber <;>
      cases JsValue.readMembers readNumber members <;> rfl

end

end Check

end Client

end AgentBridge
