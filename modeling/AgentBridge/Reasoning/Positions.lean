import Mathlib.Data.Set.Card

/-!
# Positions in a tree

A tree is given by the children of its nodes.  A position is a way down from the root: the place of
the child that is taken at each level.  The rules: what holds at every position holds at the root and
at every position below a child, and the positions are counted child by child.
-/

namespace Reasoning

universe u

variable {α : Type u} (children : α → List α)

/-- The node that a way down leads to. -/
def descend : α → List Nat → Option α
  | a, [] => some a
  | a, i :: path => (children a)[i]?.bind fun c => descend c path

def positions (a : α) : Set (List Nat) := {path | (descend children a path).isSome = true}

/-- The positions below one of some nodes. -/
def positionsBelow (nodes : List α) : Set (List Nat) :=
  {path | ∃ i rest c, path = i :: rest ∧ nodes[i]? = some c ∧ rest ∈ positions children c}

theorem forall_descend_iff {P : List Nat → α → Prop} {a : α} :
    (∀ path b, descend children a path = some b → P path b) ↔
      P [] a ∧ ∀ i c, (children a)[i]? = some c → ∀ path b, descend children c path = some b →
        P (i :: path) b := by
  constructor
  · intro h
    refine ⟨h [] a rfl, fun i c hc path b hb => h (i :: path) b ?_⟩
    rw [descend, hc]
    exact hb
  · rintro ⟨hroot, hbelow⟩ path b hb
    cases path with
    | nil => exact Option.some.inj hb ▸ hroot
    | cons i path =>
      obtain ⟨c, hc, hrest⟩ := Option.bind_eq_some_iff.mp hb
      exact hbelow i c hc path b hrest

theorem positions_eq (a : α) :
    positions children a = insert [] (positionsBelow children (children a)) := by
  ext path
  cases path with
  | nil => simp [positions, descend]
  | cons i path =>
    rw [Set.mem_insert_iff]
    constructor
    · intro h
      obtain ⟨b, hb⟩ := Option.isSome_iff_exists.mp h
      obtain ⟨c, hc, hrest⟩ := Option.bind_eq_some_iff.mp hb
      exact Or.inr ⟨i, path, c, rfl, hc, Option.isSome_iff_exists.mpr ⟨b, hrest⟩⟩
    · rintro (h | ⟨j, rest, c, heq, hc, hrest⟩)
      · cases h
      · obtain ⟨rfl, rfl⟩ := List.cons.inj heq
        show (descend children a (i :: path)).isSome = true
        rw [descend, hc]
        exact hrest

/-- A way down that takes the next child instead. -/
def shift : List Nat → List Nat
  | [] => []
  | i :: path => (i + 1) :: path

theorem shift_injective : Function.Injective shift := by
  intro path path' h
  cases path with
  | nil =>
    cases path' with
    | nil => rfl
    | cons j path' => cases h
  | cons i path =>
    cases path' with
    | nil => cases h
    | cons j path' =>
      obtain ⟨hij, rfl⟩ := List.cons.inj h
      rw [Nat.succ.inj hij]

theorem positionsBelow_cons (c : α) (nodes : List α) :
    positionsBelow children (c :: nodes) =
      Set.image (List.cons 0) (positions children c) ∪
        Set.image shift (positionsBelow children nodes) := by
  ext path
  constructor
  · rintro ⟨i, rest, b, rfl, hb, hrest⟩
    cases i with
    | zero => exact Or.inl ⟨rest, Option.some.inj hb ▸ hrest, rfl⟩
    | succ i => exact Or.inr ⟨i :: rest, ⟨i, rest, b, rfl, hb, hrest⟩, rfl⟩
  · rintro (⟨rest, hrest, rfl⟩ | ⟨_, ⟨i, rest, b, rfl, hb, hrest⟩, rfl⟩)
    · exact ⟨0, rest, c, rfl, rfl, hrest⟩
    · exact ⟨i + 1, rest, b, rfl, hb, hrest⟩

theorem encard_positionsBelow (nodes : List α) :
    (positionsBelow children nodes).encard =
      (nodes.map fun c => (positions children c).encard).sum := by
  induction nodes with
  | nil =>
    have hempty : positionsBelow children [] = ∅ := by
      ext path
      simp [positionsBelow]
    rw [hempty, Set.encard_empty, List.map_nil, List.sum_nil]
  | cons c nodes ih =>
    have hdisjoint : Disjoint (Set.image (List.cons 0) (positions children c))
        (Set.image shift (positionsBelow children nodes)) := by
      rw [Set.disjoint_left]
      rintro _ ⟨rest, -, rfl⟩ ⟨_, ⟨i, rest', b, rfl, -, -⟩, heq⟩
      cases heq
    rw [positionsBelow_cons, Set.encard_union_eq hdisjoint,
      (List.cons_injective).encard_image, shift_injective.encard_image, ih, List.map_cons,
      List.sum_cons]

/-- A tree has the position of its root, and those below its children. -/
theorem encard_positions (a : α) :
    (positions children a).encard =
      ((children a).map fun c => (positions children c).encard).sum + 1 := by
  have hroot : [] ∉ positionsBelow children (children a) := by
    rintro ⟨i, rest, c, heq, -⟩
    cases heq
  rw [positions_eq, Set.encard_insert_of_notMem hroot, encard_positionsBelow]

end Reasoning
