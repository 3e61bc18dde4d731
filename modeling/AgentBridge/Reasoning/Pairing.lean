import Mathlib.Order.Basic

/-!
# Requests and their responses

A ledger holds values by identifier, and the response of each request that has one.  Values are
unlinked when they are neither responses nor answered requests.  If all that happens to a ledger is
that an unlinked value is written where none or an unlinked one was, or that an open request is
answered by a new response, then requests and responses stay paired.
-/

namespace Reasoning

structure Ledger (I V : Type) where
  entry : I → Option V
  response : I → Option I

structure PairingRules (I V : Type) where
  isRequest : V → Prop
  isResponse : V → Prop
  isAnswered : V → Prop
  /-- The second value is a response to the first, under this identifier. -/
  answers : I → V → V → Prop

namespace PairingRules

variable {I V : Type} (rules : PairingRules I V)

structure Unlinked (v : V) : Prop where
  notResponse : ¬ rules.isResponse v
  open_ : rules.isRequest v → ¬ rules.isAnswered v

structure Paired (l : Ledger I V) : Prop where
  answered_iff : ∀ q u, l.entry q = some u → rules.isRequest u →
    (rules.isAnswered u ↔ ∃ a, l.response q = some a)
  linked : ∀ q a, l.response q = some a → ∃ u v, l.entry q = some u ∧ l.entry a = some v ∧
    rules.isRequest u ∧ rules.isResponse v ∧ rules.answers q u v
  injective : ∀ q q' a, l.response q = some a → l.response q' = some a → q = q'
  covered : ∀ a v, l.entry a = some v → rules.isResponse v → ∃ q, l.response q = some a

variable {rules} {l l' : Ledger I V}

namespace Paired

theorem empty (hentry : ∀ i, l.entry i = none) (hresponse : ∀ q, l.response q = none) :
    rules.Paired l where
  answered_iff q u hu := by rw [hentry] at hu; cases hu
  linked q a ha := by rw [hresponse] at ha; cases ha
  injective q q' a ha := by rw [hresponse] at ha; cases ha
  covered a v hv := by rw [hentry] at hv; cases hv

theorem congr (h : rules.Paired l) (hentry : ∀ i, l'.entry i = l.entry i)
    (hresponse : ∀ q, l'.response q = l.response q) : rules.Paired l' where
  answered_iff q u hu hr := by
    rw [hresponse]
    exact h.answered_iff q u (by rw [← hentry, hu]) hr
  linked q a ha := by
    rw [hresponse] at ha
    simp only [hentry]
    exact h.linked q a ha
  injective q q' a ha ha' := by
    rw [hresponse] at ha ha'
    exact h.injective q q' a ha ha'
  covered a v hv hr := by
    simp only [hresponse]
    exact h.covered a v (by rw [← hentry, hv]) hr

/-- Nothing that is linked is unlinked. -/
theorem ne_of_linked (h : rules.Paired l) {q a i : I} (ha : l.response q = some a)
    (hi : ∀ u, l.entry i = some u → rules.Unlinked u) : q ≠ i ∧ a ≠ i := by
  obtain ⟨u, v, hu, hv, hrequest, hresponse, -⟩ := h.linked q a ha
  constructor
  · intro heq
    rw [heq] at hu
    have hanswered := (h.answered_iff q u (by rw [heq, hu]) hrequest).mpr ⟨a, ha⟩
    exact (hi u hu).open_ hrequest hanswered
  · intro heq
    rw [heq] at hv
    exact (hi v hv).notResponse hresponse

variable [DecidableEq I]

/-- An unlinked value, or none, is written over an unlinked one, or none. -/
theorem write (h : rules.Paired l) {i : I} {v : Option V}
    (hold : ∀ u, l.entry i = some u → rules.Unlinked u) (hnew : ∀ w, v = some w → rules.Unlinked w)
    (hentry : ∀ j, l'.entry j = if j = i then v else l.entry j)
    (hresponse : ∀ q, l'.response q = l.response q) : rules.Paired l' where
  answered_iff q u hu hr := by
    rw [hentry] at hu
    rw [hresponse]
    split at hu
    · next heq =>
      -- the new value is open, and nothing answers the old one
      refine iff_of_false ((hnew u hu).open_ hr) ?_
      rintro ⟨a, ha⟩
      exact (h.ne_of_linked ha hold).1 heq
    · exact h.answered_iff q u hu hr
  linked q a ha := by
    rw [hresponse] at ha
    obtain ⟨hq, ha'⟩ := h.ne_of_linked ha hold
    simp only [hentry, if_neg hq, if_neg ha']
    exact h.linked q a ha
  injective q q' a ha ha' := by
    rw [hresponse] at ha ha'
    exact h.injective q q' a ha ha'
  covered a w hw hr := by
    simp only [hresponse]
    rw [hentry] at hw
    split at hw
    · exact absurd hr (hnew w hw).notResponse
    · exact h.covered a w hw hr

/-- An open request is answered by a new response. -/
theorem answer (h : rules.Paired l) {q a : I} {u u' v : V} (hu : l.entry q = some u)
    (hopen : rules.Unlinked u) (ha : l.entry a = none) (hrequest : rules.isRequest u')
    (hanswered : rules.isAnswered u') (hresponse : rules.isResponse v)
    (hnot : ¬ rules.isResponse u') (hnot' : ¬ rules.isRequest v) (hanswers : rules.answers q u' v)
    (hentry : ∀ j, l'.entry j =
      if j = a then some v else if j = q then some u' else l.entry j)
    (hresponses : ∀ j, l'.response j = if j = q then some a else l.response j) :
    rules.Paired l' := by
  have hne : q ≠ a := by
    intro heq
    rw [heq, ha] at hu
    cases hu
  have hold : ∀ w, l.entry q = some w → rules.Unlinked w := by
    intro w hw
    rw [hu, Option.some.injEq] at hw
    exact hw ▸ hopen
  have hfresh : ∀ w, l.entry a = some w → rules.Unlinked w := by
    intro w hw
    rw [ha] at hw
    cases hw
  constructor
  case answered_iff =>
    intro p w hw hr
    rw [hentry] at hw
    rw [hresponses]
    split at hw
    · obtain rfl := Option.some.inj hw
      exact absurd hr hnot'
    split at hw
    · next heq =>
      obtain rfl := Option.some.inj hw
      exact iff_of_true hanswered ⟨a, if_pos heq⟩
    · next hp =>
      rw [if_neg hp]
      exact h.answered_iff p w hw hr
  case linked =>
    intro p b hb
    rw [hresponses] at hb
    split at hb
    · next heq =>
      obtain rfl := Option.some.inj hb
      refine ⟨u', v, ?_, ?_, hrequest, hresponse, by rw [heq]; exact hanswers⟩
      · rw [hentry, heq, if_neg hne, if_pos rfl]
      · rw [hentry, if_pos rfl]
    · next hp =>
      obtain ⟨hpa, hba⟩ := h.ne_of_linked hb hfresh
      obtain ⟨-, hbq⟩ := h.ne_of_linked hb hold
      rw [hentry, hentry, if_neg hpa, if_neg hp, if_neg hba, if_neg hbq]
      exact h.linked p b hb
  case injective =>
    intro p p' b hb hb'
    rw [hresponses] at hb hb'
    split at hb
    · next heq =>
      obtain rfl := Option.some.inj hb
      split at hb'
      · next heq' => rw [heq, heq']
      · exact absurd rfl (h.ne_of_linked hb' hfresh).2
    · split at hb'
      · obtain rfl := Option.some.inj hb'
        exact absurd rfl (h.ne_of_linked hb hfresh).2
      · exact h.injective p p' b hb hb'
  case covered =>
    intro b w hw hr
    rw [hentry] at hw
    split at hw
    · next heq => exact ⟨q, by rw [hresponses, if_pos rfl, heq]⟩
    split at hw
    · obtain rfl := Option.some.inj hw
      exact absurd hr hnot
    · obtain ⟨p, hp⟩ := h.covered b w hw hr
      have hpq := (h.ne_of_linked hp hold).1
      exact ⟨p, by rw [hresponses, if_neg hpq, hp]⟩

end Paired

end PairingRules

end Reasoning
