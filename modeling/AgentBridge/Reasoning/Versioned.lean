import Mathlib.Order.Basic

/-!
# Tables of versioned values

A value has an identity that never changes, a revision that never decreases, and may be final:
then it never changes again.  A table evolves when it keeps every value it holds, or a later
version of it.
-/

namespace Reasoning

structure Versioning (V I R : Type) where
  identity : V → I
  revision : V → R
  final : V → Prop

namespace Versioning

variable {K V I R : Type} [Preorder R] (ver : Versioning V I R)

/-- The value `b` is a later version of the value `a`, or `a` itself. -/
structure Evolves (a b : V) : Prop where
  identity : ver.identity b = ver.identity a
  revision : ver.revision a ≤ ver.revision b
  final : ver.final a → b = a

variable {ver}

theorem Evolves.refl (a : V) : ver.Evolves a a := ⟨rfl, le_refl _, fun _ => rfl⟩

theorem Evolves.trans {a b c : V} (h : ver.Evolves a b) (h' : ver.Evolves b c) :
    ver.Evolves a c where
  identity := h'.identity.trans h.identity
  revision := le_trans h.revision h'.revision
  final hfinal := by
    have hb : b = a := h.final hfinal
    subst hb
    exact h'.final hfinal

variable (ver)

def TableEvolves (m m' : K → Option V) : Prop :=
  ∀ k a, m k = some a → ∃ b, m' k = some b ∧ ver.Evolves a b

variable {ver}

namespace TableEvolves

theorem of_eq {m m' : K → Option V} (h : ∀ k, m' k = m k) : ver.TableEvolves m m' :=
  fun k a ha => ⟨a, by rw [h, ha], .refl a⟩

theorem trans {m m' m'' : K → Option V} (h : ver.TableEvolves m m')
    (h' : ver.TableEvolves m' m'') : ver.TableEvolves m m'' := by
  intro k a ha
  obtain ⟨b, hb, hab⟩ := h k a ha
  obtain ⟨c, hc, hbc⟩ := h' k b hb
  exact ⟨c, hc, hab.trans hbc⟩

/-- Storing a value under a key: there is none there yet, or an earlier version. -/
theorem store [DecidableEq K] {m m' : K → Option V} {key : K} {b : V}
    (hm' : ∀ k, m' k = if k = key then some b else m k)
    (hb : ∀ a, m key = some a → ver.Evolves a b) : ver.TableEvolves m m' := by
  intro k a ha
  by_cases hk : k = key
  · rw [hk] at ha
    exact ⟨b, by rw [hm', if_pos hk], hb a ha⟩
  · exact ⟨a, by rw [hm', if_neg hk, ha], .refl a⟩

/-- A final value stays. -/
theorem frozen {m m' : K → Option V} (h : ver.TableEvolves m m') {k : K} {a : V}
    (ha : m k = some a) (hfinal : ver.final a) : m' k = some a := by
  obtain ⟨b, hb, hab⟩ := h k a ha
  rw [hb, hab.final hfinal]

end TableEvolves

end Versioning

end Reasoning
