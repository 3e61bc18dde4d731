import Mathlib.Data.List.Nodup
import Mathlib.Logic.Relation

/-!
# Forests

Each node has at most one parent.  A lineage is a node with its ancestors up to a root; where every
node has one there is no cycle, and a link from a root to a node outside its own tree keeps it so.
-/

namespace Reasoning

variable {V : Type} {parent : V → Option V} {v p a c : V} {l : List V}

/-- A node, its parent and so on up to a root. -/
inductive Lineage (parent : V → Option V) : V → List V → Prop where
  | root {v : V} (h : parent v = none) : Lineage parent v [v]
  | child {v p : V} {l : List V} (h : parent v = some p) (rest : Lineage parent p l) :
      Lineage parent v (v :: l)

/-- Every node has a lineage. -/
def Rooted (parent : V → Option V) : Prop := ∀ v, ∃ l, Lineage parent v l

/-- One node is above another. -/
def Ancestor (parent : V → Option V) : V → V → Prop :=
  Relation.TransGen fun a c => parent c = some a

namespace Lineage

theorem unique {l' : List V} (h : Lineage parent v l) (h' : Lineage parent v l') : l = l' := by
  induction h generalizing l' with
  | root hroot =>
    cases h' with
    | root _ => rfl
    | child hparent _ =>
      rw [hroot] at hparent
      cases hparent
  | child hparent _ ih =>
    cases h' with
    | root hroot =>
      rw [hroot] at hparent
      cases hparent
    | child hparent' hrest =>
      rw [hparent, Option.some.injEq] at hparent'
      subst hparent'
      rw [ih hrest]

theorem self_mem (h : Lineage parent v l) : v ∈ l := by
  cases h <;> exact List.mem_cons_self

/-- What stands in a lineage has the rest of it. -/
theorem of_mem (h : Lineage parent v l) (ha : a ∈ l) :
    ∃ l', Lineage parent a l' ∧ l'.length ≤ l.length := by
  induction h with
  | root hroot =>
    obtain rfl := List.mem_singleton.mp ha
    exact ⟨_, .root hroot, Nat.le_refl _⟩
  | @child v p l hparent hrest ih =>
    rcases List.mem_cons.mp ha with rfl | hmem
    · exact ⟨_, .child hparent hrest, Nat.le_refl _⟩
    · obtain ⟨l', hl', hle⟩ := ih hmem
      exact ⟨l', hl', Nat.le_succ_of_le hle⟩

theorem nodup (h : Lineage parent v l) : l.Nodup := by
  induction h with
  | root _ => exact List.nodup_singleton _
  | @child v p l hparent hrest ih =>
    refine List.nodup_cons.mpr ⟨?_, ih⟩
    intro hmem
    -- a node below itself would have a lineage longer than itself
    obtain ⟨l', hl', hle⟩ := hrest.of_mem hmem
    have hsame : l' = v :: l := hl'.unique (.child hparent hrest)
    rw [hsame, List.length_cons] at hle
    omega

theorem mem_of_ancestor (h : Lineage parent v l) (ha : Ancestor parent a v) : a ∈ l := by
  induction ha generalizing l with
  | single hedge =>
    cases h with
    | root hroot =>
      rw [hroot] at hedge
      cases hedge
    | child hparent hrest =>
      rw [hparent, Option.some.injEq] at hedge
      subst hedge
      exact List.mem_cons_of_mem _ hrest.self_mem
  | tail _ hedge ih =>
    cases h with
    | root hroot =>
      rw [hroot] at hedge
      cases hedge
    | child hparent hrest =>
      rw [hparent, Option.some.injEq] at hedge
      subst hedge
      exact List.mem_cons_of_mem _ (ih hrest)

end Lineage

namespace Rooted

theorem irreflexive (h : Rooted parent) (v : V) : ¬ Ancestor parent v v := by
  intro hself
  obtain ⟨l, hl⟩ := h v
  -- the ancestor just above is in the lineage twice
  obtain ⟨p, habove, hedge⟩ := Relation.TransGen.tail'_iff.mp hself
  have hnodup := hl.nodup
  cases hl with
  | root hroot =>
    rw [hroot] at hedge
    cases hedge
  | child hparent hrest =>
    rw [hparent, Option.some.injEq] at hedge
    subst hedge
    refine (List.nodup_cons.mp hnodup).1 ?_
    rcases Relation.reflTransGen_iff_eq_or_transGen.mp habove with heq | habove
    · rw [← heq]
      exact hrest.self_mem
    · exact hrest.mem_of_ancestor habove

variable [DecidableEq V]

/-- The lineages that do not pass through a node stay when it gets a parent. -/
theorem lineage_of_notMem (h : Lineage parent v l) (hc : c ∉ l) (p : V) :
    Lineage (fun x => if x = c then some p else parent x) v l := by
  induction h with
  | root hroot =>
    refine .root ?_
    rw [if_neg, hroot]
    exact fun heq => hc (heq ▸ List.mem_cons_self)
  | child hparent _ ih =>
    refine .child ?_ (ih fun hmem => hc (List.mem_cons_of_mem _ hmem))
    rw [if_neg, hparent]
    exact fun heq => hc (heq ▸ List.mem_cons_self)

/-- A root is linked to a node whose lineage it is not in. -/
theorem link (h : Rooted parent) (hroot : parent c = none)
    (hout : ∀ l, Lineage parent p l → c ∉ l) :
    Rooted fun x => if x = c then some p else parent x := by
  obtain ⟨lp, hlp⟩ := h p
  have hnew : Lineage (fun x => if x = c then some p else parent x) c (c :: lp) :=
    .child (if_pos rfl) (lineage_of_notMem hlp (hout lp hlp) p)
  intro v
  obtain ⟨l, hl⟩ := h v
  induction hl with
  | @root v hv =>
    by_cases heq : v = c
    · rw [heq]
      exact ⟨_, hnew⟩
    · exact ⟨_, .root (by rw [if_neg heq, hv])⟩
  | @child v q l hparent hrest ih =>
    obtain ⟨l', hl'⟩ := ih
    have hne : v ≠ c := by
      intro heq
      rw [heq, hroot] at hparent
      cases hparent
    exact ⟨_, .child (by rw [if_neg hne, hparent]) hl'⟩

end Rooted

end Reasoning
