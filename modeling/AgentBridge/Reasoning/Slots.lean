import Mathlib.Data.List.Basic

/-!
# Lists of slots

A list in which one slot changes at a time: what the other slots hold, how many slots have a
property, and what the slots give together.
-/

namespace Reasoning

universe u

variable {α : Type u} {l : List α} {i j : Nat} {a b : α}

/-- A changed slot holds the new value, and the others hold what they held. -/
theorem getElem?_set_slot (h : l[i]? = some a) :
    (l.set i b)[j]? = if i = j then some b else l[j]? := by
  have hlt : i < l.length := (List.getElem?_eq_some_iff.mp h).1
  rw [List.getElem?_set]
  simp [hlt]

theorem getElem?_set_slot_self (h : l[i]? = some a) : (l.set i b)[i]? = some b := by
  rw [getElem?_set_slot h, if_pos rfl]

/-- A changed slot is counted for its new value and no longer for the old one. -/
theorem countP_set_slot {p : α → Bool} (h : l[i]? = some a) :
    (l.set i b).countP p + (p a).toNat = l.countP p + (p b).toNat := by
  obtain ⟨hlt, hget⟩ := List.getElem?_eq_some_iff.mp h
  have hle : (p a).toNat ≤ l.countP p := by
    have := List.boole_getElem_le_countP (p := p) hlt
    rw [hget] at this
    cases hp : p a with
    | false => simp
    | true => simpa [hp] using this
  rw [List.countP_set hlt, hget]
  cases hp : p a with
  | false => cases hq : p b with
    | false => simp
    | true => simp
  | true =>
    rw [hp] at hle
    simp only [Bool.toNat_true] at hle ⊢
    cases hq : p b with
    | false => simp; omega
    | true => simp; omega

/-- The lists that the slots give, after one slot has changed. -/
theorem count_flatMap_set_slot {β : Type} [DecidableEq β] {f : α → List β}
    (h : l[i]? = some a) (x : β) :
    ((l.set i b).flatMap f).count x + (f a).count x =
      (l.flatMap f).count x + (f b).count x := by
  induction l generalizing i with
  | nil => cases h
  | cons c l ih =>
    cases i with
    | zero =>
      obtain rfl := Option.some.inj h
      simp only [List.set_cons_zero, List.flatMap_cons, List.count_append]
      omega
    | succ i =>
      have hrest := ih h
      simp only [List.set_cons_succ, List.flatMap_cons, List.count_append]
      omega

theorem getElem?_append_slot : (l ++ [a])[j]? = if j = l.length then some a else l[j]? := by
  rw [List.getElem?_append]
  by_cases hlt : j < l.length
  · rw [if_pos hlt, if_neg (by omega)]
  · rw [if_neg hlt]
    by_cases hj : j = l.length
    · simp [hj]
    · rw [if_neg hj, List.getElem?_eq_none (by simp; omega), List.getElem?_eq_none (by omega)]

end Reasoning
