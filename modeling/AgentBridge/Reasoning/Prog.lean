import Mathlib.Data.List.Basic

/-!
# Programs that can fail

A program over a state, which it leaves behind also when it fails.  `wp x Q E s` says that `x`, run
from `s`, ends in `Q` when it returns and in `E` when it fails.  The rules unfold it along a program.
-/

namespace Reasoning

abbrev Prog (ε σ α : Type) := ExceptT ε (StateM σ) α

namespace Prog

variable {ε σ α β : Type}

def exec (x : Prog ε σ α) (s : σ) : Except ε α × σ := x.run s

/-- A call that takes the state and leaves one. -/
def call (f : σ → Except ε α × σ) : Prog ε σ α := ExceptT.mk (StateT.mk fun s => f s)

@[simp] theorem exec_call (f : σ → Except ε α × σ) (s : σ) : (call f).exec s = f s := rfl

def wp (x : Prog ε σ α) (Q : α → σ → Prop) (E : ε → σ → Prop) (s : σ) : Prop :=
  match x.exec s with
  | (.ok a, t) => Q a t
  | (.error e, t) => E e t

variable {x : Prog ε σ α} {Q Q' : α → σ → Prop} {E E' : ε → σ → Prop} {s t : σ}

@[simp] theorem wp_pure (a : α) : wp (pure a : Prog ε σ α) Q E s = Q a s := rfl

@[simp] theorem wp_throw (e : ε) : wp (throw e : Prog ε σ α) Q E s = E e s := rfl

@[simp] theorem wp_get {Q : σ → σ → Prop} : wp (get : Prog ε σ σ) Q E s = Q s s := rfl

@[simp] theorem wp_set {Q : PUnit → σ → Prop} (new : σ) :
    wp (set new : Prog ε σ PUnit) Q E s = Q ⟨⟩ new := rfl

@[simp] theorem wp_modify {Q : PUnit → σ → Prop} (f : σ → σ) :
    wp (modify f : Prog ε σ PUnit) Q E s = Q ⟨⟩ (f s) := rfl

theorem exec_bind (x : Prog ε σ α) (f : α → Prog ε σ β) (s : σ) : (x >>= f).exec s =
    match x.exec s with
    | (.ok a, t) => (f a).exec t
    | (.error e, t) => (.error e, t) := by
  show (ExceptT.bindCont f (x.exec s).1) (x.exec s).2 = _
  match x.exec s with
  | (.ok a, t) => rfl
  | (.error e, t) => rfl

theorem exec_bind_ok {f : α → Prog ε σ β} {a : α} (h : x.exec s = (.ok a, t)) :
    (x >>= f).exec s = (f a).exec t := by
  rw [exec_bind, h]

theorem exec_bind_error {f : α → Prog ε σ β} {e : ε} (h : x.exec s = (.error e, t)) :
    (x >>= f).exec s = (.error e, t) := by
  rw [exec_bind, h]

/-- A program of two parts returns when both do. -/
theorem isOk_bind {f : α → Prog ε σ β} (h : ((x >>= f).exec s).1.isOk = true) :
    ∃ a t, x.exec s = (.ok a, t) ∧ ((f a).exec t).1.isOk = true := by
  rw [exec_bind] at h
  rcases hx : x.exec s with ⟨a | a, t⟩
  · rw [hx] at h
    cases h
  · rw [hx] at h
    exact ⟨a, t, rfl, h⟩

@[simp] theorem wp_bind (f : α → Prog ε σ β) {Q : β → σ → Prop} :
    wp (x >>= f) Q E s = wp x (fun a t => wp (f a) Q E t) E s := by
  unfold wp
  rw [exec_bind]
  match x.exec s with
  | (.ok a, t) => rfl
  | (.error e, t) => rfl

theorem wp_call {f : σ → Except ε α × σ} (hok : ∀ a t, f s = (.ok a, t) → Q a t)
    (herror : ∀ e t, f s = (.error e, t) → E e t) : wp (call f) Q E s := by
  show match f s with
    | (.ok a, t) => Q a t
    | (.error e, t) => E e t
  match h : f s with
  | (.ok a, t) => exact hok a t h
  | (.error e, t) => exact herror e t h

theorem wp.mono (h : wp x Q E s) (hQ : ∀ a t, Q a t → Q' a t) (hE : ∀ e t, E e t → E' e t) :
    wp x Q' E' s := by
  unfold wp at h ⊢
  rcases hx : x.exec s with ⟨a | a, t⟩
  · exact hE a t (by rwa [hx] at h)
  · exact hQ a t (by rwa [hx] at h)

theorem wp_iff : wp x Q E s ↔
    (∀ a t, x.exec s = (.ok a, t) → Q a t) ∧ ∀ e t, x.exec s = (.error e, t) → E e t := by
  unfold wp
  match x.exec s with
  | (.ok a, t) => simp
  | (.error e, t) => simp

theorem wp.ok {a : α} (h : wp x Q E s) (hx : x.exec s = (.ok a, t)) : Q a t := (wp_iff.mp h).1 a t hx

theorem wp.error {e : ε} (h : wp x Q E s) (hx : x.exec s = (.error e, t)) : E e t :=
  (wp_iff.mp h).2 e t hx

/-- Only the last step matters for what a program leaves when it returns. -/
theorem wp_last {f : α → Prog ε σ β} {Q : β → σ → Prop}
    (h : ∀ a t, wp (f a) Q (fun _ _ => True) t) : wp (x >>= f) Q (fun _ _ => True) s := by
  rw [wp_bind]
  exact wp_iff.mpr ⟨fun a t _ => h a t, fun _ _ _ => trivial⟩

/-- A loop: each round takes the invariant of what is left to the one of the rest. -/
theorem wp_forM {ι : Type} {f : ι → Prog ε σ PUnit} (I : List ι → σ → Prop) {l : List ι}
    (hstep : ∀ i rest s, I (i :: rest) s → wp (f i) (fun _ t => I rest t) E s) (h : I l s) :
    wp (l.forM f) (fun _ t => I [] t) E s := by
  induction l generalizing s with
  | nil => exact h
  | cons i rest ih =>
    show wp (f i >>= fun _ => rest.forM f) _ E s
    rw [wp_bind]
    exact (hstep i rest s h).mono (fun _ t ht => ih ht) fun _ _ he => he

end Prog

end Reasoning
