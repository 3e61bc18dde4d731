import Mathlib.Data.List.Forall2
import Mathlib.Data.List.Perm.Subperm

/-!
# Counting what lists hold

Elements that lose a property are counted less, and a list whose elements fall into few classes, each
of them small, is short.
-/

namespace Reasoning

universe u v

variable {α : Type u} {β : Type v}

theorem forall₂_set {R : α → α → Prop} {l : List α} {i : Nat} {a b : α} (hrefl : ∀ c, R c c)
    (hget : l[i]? = some a) (h : R a b) : List.Forall₂ R l (l.set i b) := by
  induction l generalizing i with
  | nil => cases hget
  | cons c l ih =>
    cases i with
    | zero =>
      obtain rfl := Option.some.inj hget
      exact .cons h (List.forall₂_same.mpr fun d _ => hrefl d)
    | succ i => exact .cons (hrefl c) (ih hget)

/-- Elements that keep their place and gain no property are counted at most as often. -/
theorem countP_le_of_forall₂ {R : α → β → Prop} {p : α → Bool} {q : β → Bool}
    (hpq : ∀ a b, R a b → q b = true → p a = true) {l : List α} {l' : List β}
    (h : List.Forall₂ R l l') : l'.countP q ≤ l.countP p := by
  induction h with
  | nil => exact Nat.le_refl _
  | @cons a b l l' hab _ ih =>
    rw [List.countP_cons, List.countP_cons]
    by_cases hq : q b = true
    · rw [if_pos hq, if_pos (hpq a b hab hq)]
      exact Nat.add_le_add_right ih 1
    · rw [if_neg hq]
      exact Nat.le_add_right_of_le ih

/-- Classes of at most `m` elements, and as many classes as `bs` is long. -/
theorem length_le_mul_of_classes [DecidableEq β] {f : α → β} {bs : List β} {m : Nat} {l : List α}
    (hmem : ∀ a ∈ l, f a ∈ bs) (hclass : ∀ b ∈ bs, l.countP (fun a => f a = b) ≤ m) :
    l.length ≤ m * bs.length := by
  induction bs generalizing l with
  | nil =>
    cases l with
    | nil => exact Nat.le_refl _
    | cons a l => cases hmem a List.mem_cons_self
  | cons b bs ih =>
    rw [List.forall_mem_cons] at hclass
    have hsplit := List.length_eq_countP_add_countP (fun a => decide (f a = b)) (l := l)
    have hrest : (l.filter fun a => !decide (f a = b)).length ≤ m * bs.length := by
      refine ih (fun a ha => ?_) fun c hc => ?_
      · obtain ⟨ha, hne⟩ := List.mem_filter.mp ha
        exact (List.mem_cons.mp (hmem a ha)).resolve_left (by simpa using hne)
      · exact Nat.le_trans (List.filter_sublist.countP_le) (hclass.2 c hc)
    rw [← List.countP_eq_length_filter] at hrest
    rw [List.length_cons, Nat.mul_succ]
    have hnot : l.countP (fun a => decide ¬decide (f a = b) = true) =
        l.countP fun a => !decide (f a = b) := List.countP_congr fun a _ => by simp
    omega

/-- Distinct elements of another list are counted at most as often as there. -/
theorem countP_le_of_nodup_subset {l l' : List α} (hnodup : l.Nodup) (hsub : ∀ a ∈ l, a ∈ l')
    (p : α → Bool) : l.countP p ≤ l'.countP p :=
  (hnodup.subperm hsub).countP_le p

end Reasoning
