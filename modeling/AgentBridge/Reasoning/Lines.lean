import Mathlib.Data.List.Basic

/-!
# Lines of a stream

A stream that a separator ends line by line, cut into pieces at any place.  What is complete of a
piece, and what is left of it, are those of the stream.
-/

namespace Reasoning

namespace Lines

variable {α : Type} [DecidableEq α] (sep : α)

/-- The complete lines, and what follows the last separator. -/
def split : List α → List (List α) × List α
  | [] => ([], [])
  | c :: cs =>
      if c = sep then ([] :: (split cs).1, (split cs).2)
      else
        match split cs with
        | ([], rest) => ([], c :: rest)
        | (line :: lines, rest) => ((c :: line) :: lines, rest)

def complete (l : List α) : List (List α) := (split sep l).1

def rest (l : List α) : List α := (split sep l).2

/-- The first complete line, with what follows it. -/
def first (l : List α) : Option (List α × List α) :=
  (l.idxOf? sep).map fun i => (l.take i, l.drop (i + 1))

variable {sep}

theorem split_of_not_mem {l : List α} (h : sep ∉ l) : split sep l = ([], l) := by
  induction l with
  | nil => rfl
  | cons c cs ih =>
    simp only [List.mem_cons, not_or] at h
    rw [split, if_neg (Ne.symm h.1), ih h.2]

theorem split_line {line : List α} (h : sep ∉ line) (l : List α) :
    split sep (line ++ sep :: l) = (line :: complete sep l, rest sep l) := by
  induction line with
  | nil =>
    rw [List.nil_append, split, if_pos rfl]
    rfl
  | cons c cs ih =>
    simp only [List.mem_cons, not_or] at h
    rw [List.cons_append, split, if_neg (Ne.symm h.1), ih h.2]

theorem first_eq_none {l : List α} : first sep l = none ↔ sep ∉ l := by
  unfold first
  rw [Option.map_eq_none_iff, List.idxOf?_eq_none_iff]

theorem first_eq_some {l line after : List α} (h : first sep l = some (line, after)) :
    sep ∉ line ∧ l = line ++ sep :: after := by
  obtain ⟨i, hi, heq⟩ := Option.map_eq_some_iff.mp h
  obtain ⟨rfl, rfl⟩ := Prod.mk.inj heq
  obtain ⟨hlt, hget, hbefore⟩ := List.idxOf?_eq_some_iff.mp hi
  constructor
  · intro hmem
    obtain ⟨j, hj, hsep⟩ := List.getElem_of_mem hmem
    rw [List.getElem_take] at hsep
    exact hbefore j (by simp at hj; omega) hsep
  · rw [← hget, ← List.drop_eq_getElem_cons hlt, List.take_append_drop]

theorem split_first {l line after : List α} (h : first sep l = some (line, after)) :
    split sep l = (line :: complete sep after, rest sep after) := by
  obtain ⟨hline, rfl⟩ := first_eq_some h
  exact split_line hline after

theorem complete_first {l line after : List α} (h : first sep l = some (line, after)) :
    complete sep l = line :: complete sep after := by
  show (split sep l).1 = _
  rw [split_first h]

theorem rest_first {l line after : List α} (h : first sep l = some (line, after)) :
    rest sep l = rest sep after := by
  show (split sep l).2 = _
  rw [split_first h]

theorem length_first {l line after : List α} (h : first sep l = some (line, after)) :
    after.length < l.length := by
  obtain ⟨-, rfl⟩ := first_eq_some h
  simp only [List.length_append, List.length_cons]
  omega

theorem split_append (a b : List α) : split sep (a ++ b) =
    (complete sep a ++ complete sep (rest sep a ++ b), rest sep (rest sep a ++ b)) := by
  induction a with
  | nil => rfl
  | cons c cs ih =>
    unfold complete rest at ih ⊢
    by_cases hc : c = sep
    · rw [List.cons_append, split, if_pos hc, split, if_pos hc, ih]
      rfl
    · rw [List.cons_append, split, if_neg hc, ih, split, if_neg hc]
      rcases hsplit : split sep cs with ⟨_ | ⟨line, lines⟩, left⟩
      · show _ = ([] ++ (split sep (c :: left ++ b)).1, (split sep (c :: left ++ b)).2)
        rw [List.cons_append, split, if_neg hc]
        rfl
      · rfl

theorem complete_append (a b : List α) :
    complete sep (a ++ b) = complete sep a ++ complete sep (rest sep a ++ b) := by
  show (split sep (a ++ b)).1 = _
  rw [split_append]

theorem rest_append (a b : List α) : rest sep (a ++ b) = rest sep (rest sep a ++ b) := by
  show (split sep (a ++ b)).2 = _
  rw [split_append]

theorem not_mem_rest (l : List α) : sep ∉ rest sep l := by
  induction l with
  | nil => exact List.not_mem_nil
  | cons c cs ih =>
    unfold rest at ih ⊢
    rw [split]
    split
    · exact ih
    · next hc =>
      rcases hsplit : split sep cs with ⟨_ | ⟨line, lines⟩, left⟩
      · rw [hsplit] at ih
        simp only [List.mem_cons, not_or]
        exact ⟨Ne.symm hc, ih⟩
      · rw [hsplit] at ih
        exact ih

theorem length_rest_le (l : List α) : (rest sep l).length ≤ l.length := by
  induction l with
  | nil => exact Nat.le_refl _
  | cons c cs ih =>
    unfold rest at ih ⊢
    rw [split]
    split
    · exact Nat.le_succ_of_le ih
    · rcases hsplit : split sep cs with ⟨_ | ⟨line, lines⟩, left⟩
      · rw [hsplit] at ih
        exact Nat.succ_le_succ ih
      · rw [hsplit] at ih
        exact Nat.le_succ_of_le ih

/-- Lines that each end with the separator. -/
theorem split_flatMap {lines : List (List α)} (h : ∀ line ∈ lines, sep ∉ line) :
    split sep (lines.flatMap (· ++ [sep])) = (lines, []) := by
  induction lines with
  | nil => rfl
  | cons line lines ih =>
    have hlines := ih fun l hl => h l (List.mem_cons_of_mem _ hl)
    rw [List.flatMap_cons, List.append_assoc, List.singleton_append,
      split_line (h line List.mem_cons_self)]
    unfold complete rest
    rw [hlines]

end Lines

end Reasoning
