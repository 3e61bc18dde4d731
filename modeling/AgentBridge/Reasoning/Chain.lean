import Mathlib.Logic.Relation

/-!
# Chains of versions

A register holds one version at a time.  A step keeps it, or commits the next one on top of it: its
revision is one greater, and its content is another.  A compare-and-swap asks for a content at an
expected revision; it repeats a version that has this content already, commits, or fails.
-/

namespace Reasoning

structure Numbering (V C : Type) where
  revision : V → Nat
  content : V → C

namespace Numbering

variable {V C : Type} (num : Numbering V C)

/-- The version `b` is committed on top of `a`. -/
structure Commits (a b : V) : Prop where
  revision : num.revision b = num.revision a + 1
  changed : num.content b ≠ num.content a

def Step (a b : V) : Prop := b = a ∨ num.Commits a b

def Reaches : V → V → Prop := Relation.ReflTransGen num.Step

/-- The version asked for is there. -/
def Repeats (a : V) (expected : Nat) (c : C) : Prop :=
  num.content a = c ∧ (num.revision a = expected ∨ num.revision a = expected + 1)

/-- What a compare-and-swap on the version `a` answers, and the version after it. -/
inductive Swaps (a : V) (expected : Nat) (c : C) : Option V → V → Prop where
  | repeated (h : num.Repeats a expected c) : Swaps a expected c (some a) a
  | committed {b : V} (hrevision : num.revision a = expected) (h : num.Commits a b)
      (hcontent : num.content b = c) : Swaps a expected c (some b) b
  | failed (h : ¬ num.Repeats a expected c) : Swaps a expected c none a

variable {num} {a b v : V} {r : Nat} {c : C} {o : Option V}

/-- The version is the same, the next one, or further along the chain. -/
theorem Reaches.cases (h : num.Reaches a b) :
    b = a ∨ num.Commits a b ∨ num.revision a + 2 ≤ num.revision b := by
  induction h with
  | refl => exact .inl rfl
  | tail _ hstep ih =>
    rcases hstep with rfl | hcommit
    · exact ih
    right
    rcases ih with rfl | hfirst | hfar
    · exact .inl hcommit
    · right
      have hlast := hcommit.revision
      have hprevious := hfirst.revision
      omega
    · right
      rw [hcommit.revision]
      omega

theorem Reaches.revision_le (h : num.Reaches a b) : num.revision a ≤ num.revision b := by
  rcases h.cases with rfl | hcommit | hfar
  · exact Nat.le_refl _
  · rw [hcommit.revision]
    omega
  · omega

/-- A revision belongs to one version. -/
theorem Reaches.eq_of_revision (h : num.Reaches a b) (hrev : num.revision b = num.revision a) :
    b = a := by
  rcases h.cases with rfl | hcommit | hfar
  · rfl
  · have := hcommit.revision
    omega
  · omega

namespace Swaps

theorem step (h : num.Swaps a r c o b) : num.Step a b := by
  cases h with
  | repeated h => exact .inl rfl
  | committed hrevision h hcontent => exact .inr h
  | failed h => exact .inl rfl

/-- A version answered is the current one, with the content asked for. -/
theorem answer (h : num.Swaps a r c (some v) b) : num.content v = c ∧ b = v := by
  cases h with
  | repeated h => exact ⟨h.1, rfl⟩
  | committed hrevision h hcontent => exact ⟨hcontent, rfl⟩

/-- Once a version is committed at an expected revision, no other one is. -/
theorem once {a' b' : V} {c' : C} {o' : Option V} (h : num.Swaps a r c o b) (hne : b ≠ a)
    (hreach : num.Reaches b a') (h' : num.Swaps a' r c' o' b') : b' = a' := by
  cases h' with
  | repeated h' => rfl
  | failed h' => rfl
  | committed hrevision' hcommit' hcontent' =>
    cases h with
    | repeated h => exact absurd rfl hne
    | failed h => exact absurd rfl hne
    | committed hrevision hcommit hcontent =>
      have hle := hreach.revision_le
      have hnext := hcommit.revision
      omega

/-- A successful swap can be repeated. -/
theorem again (h : num.Swaps a r c (some v) b) {o' : Option V} {b' : V}
    (h' : num.Swaps v r c o' b') : o' = some v ∧ b' = v := by
  have hrepeats : num.Repeats v r c := by
    cases h with
    | repeated h => exact h
    | committed hrevision h hcontent => exact ⟨hcontent, .inr (by rw [h.revision, hrevision])⟩
  cases h' with
  | repeated h' => exact ⟨rfl, rfl⟩
  | failed h' => exact absurd hrepeats h'
  | committed hrevision h' hcontent => exact absurd (hcontent.trans hrepeats.1.symm) h'.changed

end Swaps

end Numbering

end Reasoning
