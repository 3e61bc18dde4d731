import Mathlib.Data.List.Induction

/-!
# Systems that move by events

A system answers an event with its next state, or with none when the event cannot happen there.  A
run is a list of events that all happen.  The rules: what every event preserves every run preserves,
and a run of two parts passes through the state between them.
-/

namespace Reasoning

universe u v

/-- The next state of a system after an event, if the event can happen. -/
abbrev Next (Event : Type u) (σ : Type v) := σ → Event → Option σ

namespace Next

variable {Event : Type u} {σ : Type v} {next : Next Event σ}

/-- The state after the events of a run. -/
def run (next : Next Event σ) : List Event → σ → Option σ
  | [], s => some s
  | e :: es, s => (next s e).bind (run next es)

@[simp] theorem run_nil (s : σ) : run next [] s = some s := rfl

theorem run_cons {e : Event} {es : List Event} {s t : σ} :
    run next (e :: es) s = some t ↔ ∃ mid, next s e = some mid ∧ run next es mid = some t :=
  Option.bind_eq_some_iff

theorem run_append {es more : List Event} {s t : σ} :
    run next (es ++ more) s = some t ↔ ∃ mid, run next es s = some mid ∧ run next more mid = some t := by
  induction es generalizing s with
  | nil => simp
  | cons e es ih =>
    simp only [List.cons_append, run_cons, ih]
    constructor
    · rintro ⟨first, hfirst, mid, hes, hmore⟩
      exact ⟨mid, ⟨first, hfirst, hes⟩, hmore⟩
    · rintro ⟨mid, ⟨first, hfirst, hes⟩, hmore⟩
      exact ⟨first, hfirst, mid, hes, hmore⟩

/-- A run whose events all happen, with the state it leads to. -/
theorem run_getD {es : List Event} {s : σ} (h : (run next es s).isSome = true) (default : σ) :
    run next es s = some ((run next es s).getD default) := by
  cases hrun : run next es s with
  | none =>
    rw [hrun] at h
    cases h
  | some t => rfl

/-- What every event preserves, every run preserves. -/
theorem run_invariant {P : σ → Prop} (hstep : ∀ s e t, P s → next s e = some t → P t)
    {es : List Event} {s t : σ} (h : P s) (hrun : run next es s = some t) : P t := by
  induction es generalizing s with
  | nil => exact Option.some.inj hrun ▸ h
  | cons e es ih =>
    obtain ⟨mid, hmid, hrest⟩ := run_cons.mp hrun
    exact ih (hstep s e mid h hmid) hrest

/-- A reflexive and transitive relation that every event keeps to, every run keeps to. -/
theorem run_relation {R : σ → σ → Prop} {P : σ → Prop} (hrefl : ∀ s, R s s)
    (htrans : ∀ {a b c}, R a b → R b c → R a c)
    (hinv : ∀ s e t, P s → next s e = some t → P t)
    (hstep : ∀ s e t, P s → next s e = some t → R s t)
    {es : List Event} {s t : σ} (h : P s) (hrun : run next es s = some t) : R s t := by
  induction es generalizing s with
  | nil => exact Option.some.inj hrun ▸ hrefl s
  | cons e es ih =>
    obtain ⟨mid, hmid, hrest⟩ := run_cons.mp hrun
    exact htrans (hstep s e mid h hmid) (ih (hinv s e mid h hmid) hrest)

/-- A state that a run passes through. -/
def Visited (next : Next Event σ) (events : List Event) (start s : σ) : Prop :=
  ∃ before after, events = before ++ after ∧ run next before start = some s

/-- What every event preserves in the states of a run, the run preserves. -/
theorem run_visited {P : σ → Prop} {events : List Event} {start t : σ}
    (hstep : ∀ s e t, Visited next events start s → P s → next s e = some t → P t) (h : P start)
    (hrun : run next events start = some t) : P t := by
  have hrest : ∀ (after before : List Event) (s : σ), events = before ++ after →
      run next before start = some s → P s → run next after s = some t → P t := by
    intro after
    induction after with
    | nil => exact fun _ _ _ _ hs ht => Option.some.inj ht ▸ hs
    | cons e after ih =>
      intro before s hsplit hbefore hs ht
      obtain ⟨mid, hmid, hafter⟩ := run_cons.mp ht
      refine ih (before ++ [e]) mid (by rw [hsplit, List.append_assoc, List.singleton_append]) ?_
        (hstep s e mid ⟨before, e :: after, hsplit, hbefore⟩ hs hmid) hafter
      exact run_append.mpr ⟨s, hbefore, run_cons.mpr ⟨mid, hmid, rfl⟩⟩
  exact hrest events [] start rfl rfl h hrun

/-- An invariant that speaks of the events so far. -/
theorem run_history {P : List Event → σ → Prop} {start : σ} (h : P [] start)
    (hstep : ∀ es s e t, run next es start = some s → P es s → next s e = some t → P (es ++ [e]) t)
    {es : List Event} {s : σ} (hrun : run next es start = some s) : P es s := by
  induction es using List.reverseRecOn generalizing s with
  | nil => exact Option.some.inj hrun ▸ h
  | append_singleton es e ih =>
    obtain ⟨mid, hmid, hlast⟩ := run_append.mp hrun
    obtain ⟨t, ht, hend⟩ := run_cons.mp hlast
    obtain rfl := Option.some.inj hend
    exact hstep es mid e t hmid (ih hmid) ht

/-- Every event of a run meets a condition, in the state it happens in. -/
def Each (next : Next Event σ) (C : σ → Event → Prop) : List Event → σ → Prop
  | [], _ => True
  | e :: es, s => C s e ∧ ∀ t, next s e = some t → Each next C es t

/-- What every event that meets the condition preserves, a run of such events preserves. -/
theorem Each.invariant {C : σ → Event → Prop} {P : σ → Prop}
    (hstep : ∀ s e t, P s → C s e → next s e = some t → P t) {es : List Event} {s t : σ}
    (heach : Each next C es s) (h : P s) (hrun : run next es s = some t) : P t := by
  induction es generalizing s with
  | nil => exact Option.some.inj hrun ▸ h
  | cons e es ih =>
    obtain ⟨mid, hmid, hrest⟩ := run_cons.mp hrun
    exact ih (heach.2 mid hmid) (hstep s e mid h heach.1 hmid) hrest

theorem Each.split {C : σ → Event → Prop} {es more : List Event} {s mid : σ}
    (heach : Each next C (es ++ more) s) (hrun : run next es s = some mid) :
    Each next C es s ∧ Each next C more mid := by
  induction es generalizing s with
  | nil => exact ⟨trivial, Option.some.inj hrun ▸ heach⟩
  | cons e es ih =>
    obtain ⟨first, hfirst, hrest⟩ := run_cons.mp hrun
    refine ⟨⟨heach.1, fun t ht => ?_⟩, (ih (heach.2 first hfirst) hrest).2⟩
    obtain rfl := Option.some.inj (hfirst.symm.trans ht)
    exact (ih (heach.2 first hfirst) hrest).1

/-- The condition is checked along the run. -/
def check (next : Next Event σ) (c : σ → Event → Bool) : List Event → σ → Bool
  | [], _ => true
  | e :: es, s => c s e && (next s e).all (check next c es)

theorem Each.of_check {c : σ → Event → Bool} {C : σ → Event → Prop}
    (hc : ∀ s e, c s e = true → C s e) {es : List Event} {s : σ} (h : check next c es s = true) :
    Each next C es s := by
  induction es generalizing s with
  | nil => trivial
  | cons e es ih =>
    rw [check, Bool.and_eq_true] at h
    refine ⟨hc s e h.1, fun t ht => ih ?_⟩
    rw [ht] at h
    exact h.2

theorem Each.append {C : σ → Event → Prop} {es more : List Event} {s : σ} (h : Each next C es s)
    (hmore : ∀ mid, run next es s = some mid → Each next C more mid) :
    Each next C (es ++ more) s := by
  induction es generalizing s with
  | nil => exact hmore s rfl
  | cons e es ih =>
    exact ⟨h.1, fun t ht => ih (h.2 t ht) fun mid hmid => hmore mid (run_cons.mpr ⟨t, ht, hmid⟩)⟩

end Next

end Reasoning
