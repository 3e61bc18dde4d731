import AgentBridge.Reasoning.SortedMap
import Mathlib.Order.Basic
import Mathlib.Algebra.Group.Int.Defs

/-!
# JSON values

Values as a JSON library holds them after parsing: integers in the range of a 64-bit number and
objects as sets of members.  Members are kept sorted by key, so equality of values is equality of
maps.  `depth` is the nesting that a parser with a recursion limit counts.
-/

namespace Reasoning

inductive Json where
  | null
  | bool (b : Bool)
  | num (n : Int)
  | str (s : String)
  | arr (items : List Json)
  | obj (members : List (String × Json))

namespace Json

mutual

def beq : Json → Json → Bool
  | .null, .null => true
  | .bool a, .bool b => a == b
  | .num a, .num b => a == b
  | .str a, .str b => a == b
  | .arr a, .arr b => beqItems a b
  | .obj a, .obj b => beqMembers a b
  | _, _ => false

def beqItems : List Json → List Json → Bool
  | [], [] => true
  | a :: as, b :: bs => beq a b && beqItems as bs
  | _, _ => false

def beqMembers : List (String × Json) → List (String × Json) → Bool
  | [], [] => true
  | (k, a) :: as, (l, b) :: bs => k == l && beq a b && beqMembers as bs
  | _, _ => false

end

mutual

theorem beq_iff : ∀ a b : Json, beq a b = true ↔ a = b
  | .null, b => by cases b <;> simp [beq]
  | .bool x, b => by cases b <;> simp [beq]
  | .num x, b => by cases b <;> simp [beq]
  | .str x, b => by cases b <;> simp [beq]
  | .arr x, b => by
      cases b with
      | arr y => simpa [beq] using beqItems_iff x y
      | _ => simp [beq]
  | .obj x, b => by
      cases b with
      | obj y => simpa [beq] using beqMembers_iff x y
      | _ => simp [beq]

theorem beqItems_iff : ∀ a b : List Json, beqItems a b = true ↔ a = b
  | [], b => by cases b <;> simp [beqItems]
  | x :: xs, b => by
      cases b with
      | nil => simp [beqItems]
      | cons y ys => simp [beqItems, beq_iff x y, beqItems_iff xs ys]

theorem beqMembers_iff : ∀ a b : List (String × Json), beqMembers a b = true ↔ a = b
  | [], b => by cases b <;> simp [beqMembers]
  | (k, x) :: xs, b => by
      cases b with
      | nil => simp [beqMembers]
      | cons y ys =>
        obtain ⟨l, y⟩ := y
        simp [beqMembers, beq_iff x y, beqMembers_iff xs ys]

end

instance : DecidableEq Json := fun a b => decidable_of_iff _ (beq_iff a b)

mutual

/-- Nested arrays and objects, the outermost included. -/
def depth : Json → Nat
  | .arr items => depthItems items + 1
  | .obj members => depthMembers members + 1
  | _ => 0

def depthItems : List Json → Nat
  | [] => 0
  | j :: js => max j.depth (depthItems js)

def depthMembers : List (String × Json) → Nat
  | [] => 0
  | (_, j) :: ms => max j.depth (depthMembers ms)

end

/-- Numbers a 64-bit JSON number holds without loss: `i64` and `u64`. -/
def numberInRange (n : Int) : Bool := decide (-2 ^ 63 ≤ n) && decide (n < 2 ^ 64)

mutual

/-- A tree that is a value: every number in range and every object a map. -/
def canonical : Json → Bool
  | .num n => numberInRange n
  | .arr items => canonicalItems items
  | .obj members => sortedKeys members && canonicalMembers members
  | _ => true

def canonicalItems : List Json → Bool
  | [] => true
  | j :: js => j.canonical && canonicalItems js

def canonicalMembers : List (String × Json) → Bool
  | [] => true
  | (_, j) :: ms => j.canonical && canonicalMembers ms

end

/-- The member of an object, `null` when there is none: indexing by key. -/
def get (j : Json) (key : String) : Json :=
  match j with
  | .obj members => (members.lookup key).getD .null
  | _ => .null

def asStr : Json → Option String
  | .str s => some s
  | _ => none

theorem depth_obj (members : List (String × Json)) : (obj members).depth = depthMembers members + 1 :=
  rfl

theorem depthMembers_nil : depthMembers [] = 0 := rfl

theorem depthMembers_cons (member : String × Json) (members : List (String × Json)) :
    depthMembers (member :: members) = max member.2.depth (depthMembers members) := rfl

theorem depthItems_map_le {α : Type} (f : α → Json) (l : List α) (d : Nat)
    (h : ∀ a ∈ l, (f a).depth ≤ d) : depthItems (l.map f) ≤ d := by
  induction l with
  | nil => exact Nat.zero_le d
  | cons a l ih =>
    simp only [List.map_cons, depthItems]
    exact Nat.max_le.mpr ⟨h a (by simp), ih fun b hb => h b (by simp [hb])⟩

theorem depthMembers_map_le {α : Type} (f : α → String × Json) (l : List α) (d : Nat)
    (h : ∀ a ∈ l, (f a).2.depth ≤ d) : depthMembers (l.map f) ≤ d := by
  induction l with
  | nil => exact Nat.zero_le d
  | cons a l ih =>
    simp only [List.map_cons, depthMembers]
    exact Nat.max_le.mpr ⟨h a (by simp), ih fun b hb => h b (by simp [hb])⟩

theorem canonicalItems_map {α : Type} (f : α → Json) (l : List α)
    (h : ∀ a ∈ l, (f a).canonical = true) : canonicalItems (l.map f) = true := by
  induction l with
  | nil => rfl
  | cons a l ih =>
    simp only [List.map_cons, canonicalItems, Bool.and_eq_true]
    exact ⟨h a (by simp), ih fun b hb => h b (by simp [hb])⟩

theorem canonicalMembers_map {α : Type} (f : α → String × Json) (l : List α)
    (h : ∀ a ∈ l, (f a).2.canonical = true) : canonicalMembers (l.map f) = true := by
  induction l with
  | nil => rfl
  | cons a l ih =>
    simp only [List.map_cons, canonicalMembers, Bool.and_eq_true]
    exact ⟨h a (by simp), ih fun b hb => h b (by simp [hb])⟩

/-- An object with the members `names`, in increasing order. -/
theorem canonical_obj (names : List String) {members : List (String × Json)}
    (hnames : members.map (·.1) = names) (hsorted : sortedNames names = true)
    (h : canonicalMembers members = true) : (obj members).canonical = true := by
  rw [canonical, sortedKeys_eq_sortedNames, hnames, hsorted, h]
  rfl

/-- An object without the members that have these keys. -/
def without (keys : List String) : Json → Json
  | .obj members => .obj (members.filter fun m => !keys.contains m.1)
  | j => j

theorem canonicalMembers_filter (p : String × Json → Bool) {members : List (String × Json)}
    (h : canonicalMembers members = true) : canonicalMembers (members.filter p) = true := by
  induction members with
  | nil => rfl
  | cons m members ih =>
    simp only [canonicalMembers, Bool.and_eq_true] at h
    rw [List.filter_cons]
    split
    · simp only [canonicalMembers, h.1, ih h.2, Bool.and_self]
    · exact ih h.2

theorem canonical_without (keys : List String) {j : Json} (h : j.canonical = true) :
    (j.without keys).canonical = true := by
  cases j with
  | obj members =>
    simp only [canonical, Bool.and_eq_true] at h
    simp only [without, canonical, sortedKeys_filter _ h.1, canonicalMembers_filter _ h.2,
      Bool.and_self]
  | _ => exact h

end Json

/-- A JSON value: a canonical tree. -/
abbrev JsonValue := { j : Json // j.canonical = true }

end Reasoning
