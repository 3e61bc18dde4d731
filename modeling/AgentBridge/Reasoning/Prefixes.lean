import Mathlib.Data.List.Basic

/-!
# What precedes an element of a list

A list that grows at its end keeps the order of what it holds.  The rules: a property of every element
and of what precedes it is kept by an append that has it, and it holds at every position.
-/

namespace Reasoning

universe u

variable {α : Type u} {P : List α → α → Prop} {l : List α} {a : α}

/-- Every element has the property of what precedes it. -/
def EachAfter (P : List α → α → Prop) (l : List α) : Prop :=
  ∀ before a rest, l = before ++ a :: rest → P before a

theorem EachAfter.nil : EachAfter P [] := fun before a rest h => by simp at h

theorem eachAfter_concat : EachAfter P (l ++ [a]) ↔ EachAfter P l ∧ P l a := by
  constructor
  · intro h
    exact ⟨fun before b rest hl => h before b (rest ++ [a]) (by rw [hl]; simp), h l a [] rfl⟩
  · rintro ⟨h, ha⟩ before b rest hl
    rcases List.eq_nil_or_concat rest with rfl | ⟨init, last, rfl⟩
    · obtain ⟨rfl, hb⟩ := List.append_inj' hl rfl
      rw [List.singleton_inj] at hb
      exact hb ▸ ha
    · have hsplit : l ++ [a] = (before ++ b :: init) ++ [last] := by rw [hl]; simp
      exact h before b init (List.append_inj' hsplit rfl).1

theorem EachAfter.concat (h : EachAfter P l) (ha : P l a) : EachAfter P (l ++ [a]) :=
  eachAfter_concat.mpr ⟨h, ha⟩

theorem EachAfter.take (h : EachAfter P l) (n : Nat) : EachAfter P (l.take n) := by
  intro before a rest hl
  refine h before a (rest ++ l.drop n) ?_
  rw [← List.cons_append, ← List.append_assoc, ← hl, List.take_append_drop]

/-- The property at a position, with what is taken before it. -/
theorem EachAfter.at_position (h : EachAfter P l) {n : Nat} (hget : l[n]? = some a) :
    P (l.take n) a := by
  obtain ⟨hlt, rfl⟩ := List.getElem?_eq_some_iff.mp hget
  refine h (l.take n) l[n] (l.drop (n + 1)) ?_
  rw [List.getElem_cons_drop, List.take_append_drop]

end Reasoning
