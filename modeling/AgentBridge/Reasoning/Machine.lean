import Mathlib.Data.List.Basic

/-!
# Machines that answer calls

A machine executes calls one after the other, each with an answer of the call's own type.  The
rules: what every call preserves every run preserves, and a simulation between two machines gives
equal answers.
-/

namespace Reasoning

structure Machine (Call Answer : Type → Type) (σ : Type) where
  exec : {β : Type} → Call β → σ → Answer β × σ

/-- A call of any answer type. -/
structure Op (Call : Type → Type) where
  {β : Type}
  call : Call β

namespace Machine

variable {Call Answer : Type → Type} {σ τ : Type}

/-- The state after the calls of `ops`. -/
def after (m : Machine Call Answer σ) : List (Op Call) → σ → σ
  | [], state => state
  | op :: ops, state => after m ops (m.exec op.call state).2

/-- The answers of the calls of `ops`. -/
def outcomes (m : Machine Call Answer σ) : List (Op Call) → σ → List ((β : Type) × Answer β)
  | [], _ => []
  | op :: ops, state => ⟨op.β, (m.exec op.call state).1⟩ :: outcomes m ops (m.exec op.call state).2

theorem after_append (m : Machine Call Answer σ) (ops more : List (Op Call)) (state : σ) :
    m.after (ops ++ more) state = m.after more (m.after ops state) := by
  induction ops generalizing state with
  | nil => rfl
  | cons op ops ih => exact ih _

theorem outcomes_append (m : Machine Call Answer σ) (ops more : List (Op Call)) (state : σ) :
    m.outcomes (ops ++ more) state = m.outcomes ops state ++ m.outcomes more (m.after ops state) := by
  induction ops generalizing state with
  | nil => rfl
  | cons op ops ih => simp only [List.cons_append, outcomes, ih, after]

/-- What every call preserves, every run preserves. -/
theorem after_invariant (m : Machine Call Answer σ) {P : σ → Prop}
    (hstep : ∀ {β : Type} (call : Call β) (state : σ), P state → P (m.exec call state).2)
    (ops : List (Op Call)) {state : σ} (h : P state) : P (m.after ops state) := by
  induction ops generalizing state with
  | nil => exact h
  | cons op ops ih => exact ih (hstep op.call state h)

/-- Every call of a run meets a condition, in the state it is made in. -/
def Each (m : Machine Call Answer σ) (C : {β : Type} → Call β → σ → Prop) :
    List (Op Call) → σ → Prop
  | [], _ => True
  | op :: ops, state => C op.call state ∧ Each m C ops (m.exec op.call state).2

/-- What every call that meets a condition preserves, a run of such calls preserves. -/
theorem Each.invariant {m : Machine Call Answer σ} {C : {β : Type} → Call β → σ → Prop}
    {P : σ → Prop}
    (hstep : ∀ {β : Type} (call : Call β) (state : σ), P state → C call state →
      P (m.exec call state).2)
    {ops : List (Op Call)} {state : σ} (heach : m.Each C ops state) (h : P state) :
    P (m.after ops state) := by
  induction ops generalizing state with
  | nil => exact h
  | cons op ops ih => exact ih heach.2 (hstep op.call state h heach.1)

/-- A reflexive and transitive relation that every call keeps to, every run keeps to. -/
theorem after_relation (m : Machine Call Answer σ) {R : σ → σ → Prop} {P : σ → Prop}
    (hrefl : ∀ state, R state state) (htrans : ∀ {a b c}, R a b → R b c → R a c)
    (hinv : ∀ {β : Type} (call : Call β) (state : σ), P state → P (m.exec call state).2)
    (hstep : ∀ {β : Type} (call : Call β) (state : σ), P state → R state (m.exec call state).2)
    (ops : List (Op Call)) {state : σ} (h : P state) : R state (m.after ops state) := by
  induction ops generalizing state with
  | nil => exact hrefl state
  | cons op ops ih => exact htrans (hstep op.call state h) (ih (hinv op.call state h))

/-- Two machines whose calls answer alike from related states, as long as the second one stays
within `good`, answer every run alike from related states. -/
theorem outcomes_eq_of_simulation (m : Machine Call Answer σ) (n : Machine Call Answer τ)
    {R : σ → τ → Prop} {good : τ → Prop}
    (hstep : ∀ {β : Type} (call : Call β) (s : σ) (t : τ), R s t → good t →
      good (n.exec call t).2 →
        (m.exec call s).1 = (n.exec call t).1 ∧ R (m.exec call s).2 (n.exec call t).2)
    (ops : List (Op Call)) {s : σ} {t : τ} (hR : R s t)
    (hgood : ∀ pre, pre <+: ops → good (n.after pre t)) :
    m.outcomes ops s = n.outcomes ops t ∧ R (m.after ops s) (n.after ops t) := by
  induction ops generalizing s t with
  | nil => exact ⟨rfl, hR⟩
  | cons op ops ih =>
    have hfirst : good (n.exec op.call t).2 := hgood [op] ⟨ops, rfl⟩
    obtain ⟨heq, hR'⟩ := hstep op.call s t hR (hgood [] (List.nil_prefix)) hfirst
    have hrest : ∀ pre, pre <+: ops → good (n.after pre (n.exec op.call t).2) :=
      fun pre hpre => hgood (op :: pre) (List.cons_prefix_cons.mpr ⟨rfl, hpre⟩)
    obtain ⟨htail, hR''⟩ := ih hR' hrest
    exact ⟨by simp only [outcomes, heq, htail], hR''⟩

end Machine

end Reasoning
