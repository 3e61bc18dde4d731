import Mathlib.Data.List.Basic
import Mathlib.Algebra.GroupWithZero.Nat

/-!
# JSON trees over any type of numbers

Values as a JSON library holds them, with the numbers left to a parameter, and the bytes of the
compact text that the library prints for them.  Objects are lists of members; a lookup finds the
first one.
-/

namespace Reasoning

inductive JsonTree (ν : Type) where
  | null
  | bool (b : Bool)
  | num (n : ν)
  | str (s : String)
  | arr (items : List (JsonTree ν))
  | obj (members : List (String × JsonTree ν))

namespace JsonTree

variable {ν : Type}

/-- The member of an object. -/
def get (value : JsonTree ν) (key : String) : Option (JsonTree ν) :=
  match value with
  | .obj members => members.lookup key
  | _ => none

/-- Indexing by a key that may be missing. -/
def index (value : JsonTree ν) (key : String) : JsonTree ν := (value.get key).getD .null

/-- Assigning to an indexed member: in its place if it exists, at the end otherwise. -/
def setMember (members : List (String × JsonTree ν)) (key : String) (value : JsonTree ν) :
    List (String × JsonTree ν) :=
  match members with
  | [] => [(key, value)]
  | (k, v) :: members =>
      if k = key then (key, value) :: members else (k, v) :: setMember members key value

theorem lookup_setMember (members : List (String × JsonTree ν)) (key other : String)
    (value : JsonTree ν) :
    (setMember members key value).lookup other =
      if other = key then some value else members.lookup other := by
  induction members with
  | nil =>
    by_cases hother : other = key
    · simp [setMember, hother]
    · simp [setMember, hother, List.lookup_cons, beq_false_of_ne hother]
  | cons member members ih =>
    obtain ⟨k, v⟩ := member
    unfold setMember
    by_cases hk : k = key
    · rw [if_pos hk, hk]
      by_cases hother : other = key
      · simp [hother]
      · simp [hother, List.lookup_cons, beq_false_of_ne hother]
    · rw [if_neg hk, List.lookup_cons, List.lookup_cons, ih]
      by_cases hother : other = k
      · have hne : ¬ other = key := fun h => hk (hother.symm.trans h)
        simp [hother, hk]
      · simp [beq_false_of_ne hother]

def asStr : JsonTree ν → Option String
  | .str s => some s
  | _ => none

mutual

/-- Nested arrays and objects around the innermost value. -/
def depth : JsonTree ν → Nat
  | .arr items => depthItems items
  | .obj members => depthMembers members
  | _ => 0

def depthItems : List (JsonTree ν) → Nat
  | [] => 0
  | item :: items => max (item.depth + 1) (depthItems items)

def depthMembers : List (String × JsonTree ν) → Nat
  | [] => 0
  | (_, item) :: members => max (item.depth + 1) (depthMembers members)

end

/-! ## Compact text -/

/-- The bytes of a character in a JSON string. -/
def charBytes (c : Char) : Nat :=
  if c = '"' ∨ c = '\\' then 2
  else if c = '\x08' ∨ c = '\x0c' ∨ c = '\n' ∨ c = '\r' ∨ c = '\t' then 2
  else if c.toNat < 32 then 6
  else c.utf8Size

/-- The bytes of a string with its quotes. -/
def stringBytes (s : String) : Nat := (s.toList.map charBytes).sum + 2

mutual

/-- The bytes of the compact text, with the bytes of its numbers given. -/
def textBytes (numberBytes : ν → Nat) : JsonTree ν → Nat
  | .null => 4
  | .bool b => if b then 4 else 5
  | .num n => numberBytes n
  | .str s => stringBytes s
  | .arr items => itemsBytes numberBytes items + 2
  | .obj members => membersBytes numberBytes members + 2

/-- The items with a comma between two of them. -/
def itemsBytes (numberBytes : ν → Nat) : List (JsonTree ν) → Nat
  | [] => 0
  | [item] => item.textBytes numberBytes
  | item :: items => item.textBytes numberBytes + 1 + itemsBytes numberBytes items

/-- The members with a comma between two of them. -/
def membersBytes (numberBytes : ν → Nat) : List (String × JsonTree ν) → Nat
  | [] => 0
  | [(key, item)] => stringBytes key + 1 + item.textBytes numberBytes
  | (key, item) :: members =>
      stringBytes key + 1 + item.textBytes numberBytes + 1 + membersBytes numberBytes members

end

end JsonTree

end Reasoning
