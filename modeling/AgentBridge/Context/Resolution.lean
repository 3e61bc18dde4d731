import AgentBridge.Context.Prepare
import AgentBridge.Reasoning.Except
import Mathlib.Data.List.Basic

/-!
# What a preparation resolves

At every point of a preparation the resources are those of the references met so far, each once and
in the order of their first references, and the bytes charged are theirs.  So a preparation can only
run into a limit that all of its inputs together exceed.
-/

namespace AgentBridge

open Reasoning

namespace Context

variable {stores : Stores} {allowedSessions : List SessionId} {limits : ContextLimits}
  {forbidden : List ResourceRef}

theorem checkedAdd_eq_some {a b c : Nat} : checkedAdd a b = some c ↔ a + b ≤ usizeMax ∧ c = a + b := by
  unfold checkedAdd
  by_cases h : a + b ≤ usizeMax
  · simp [h, eq_comm]
  · simp [h]

/-- A sum below a `usize` bound does not overflow. -/
theorem checkedAdd_filter {a b limit : Nat} (hlimit : limit ≤ usizeMax) :
    (checkedAdd a b).filter (· ≤ limit) = if a + b ≤ limit then some (a + b) else none := by
  unfold checkedAdd
  by_cases h : a + b ≤ limit
  · have hmax : a + b ≤ usizeMax := h.trans hlimit
    simp [hmax, h]
  · rw [if_neg h]
    by_cases hmax : a + b ≤ usizeMax
    · rw [if_pos hmax, Option.filter_some_neg (by simpa using h)]
    · rw [if_neg hmax, Option.filter_none]

/-! ## First references -/

theorem eraseDups_concat {α : Type} [DecidableEq α] (l : List α) (x : α) :
    (l ++ [x]).eraseDups = l.eraseDups ++ if x ∈ l then [] else [x] := by
  rw [List.eraseDups_append]
  by_cases hx : x ∈ l
  · simp [List.removeAll, hx]
  · simp [List.removeAll, hx, List.eraseDups_cons]

theorem eraseDups_prefix {α : Type} [DecidableEq α] {l l' : List α} (h : l <+: l') :
    l.eraseDups <+: l'.eraseDups := by
  obtain ⟨rest, rfl⟩ := h
  rw [List.eraseDups_append]
  exact List.prefix_append _ _

/-! ## The invariant -/

/-- The resources of these references, fetched in the order of their first references. -/
structure Resolves (stores : Stores) (references : List ResourceRef) (resources : List Resource) :
    Prop where
  references : resources.map (·.reference) = references.eraseDups
  fetched : ∀ i r, resources[i]? = some r → stores.resource i r.reference = .ok r

def totalBytes (resources : List Resource) : Nat := (resources.map (·.bytes.size)).sum

/-- A preparation that has met these references and consumed so many items. -/
structure Preparation.At (stores : Stores) (limits : ContextLimits) (forbidden : List ResourceRef)
    (references : List ResourceRef) (used : Nat) (p : Preparation) : Prop where
  remaining : p.remaining + used = limits.maxItems
  resolves : Resolves stores references p.resources
  bytes : p.resourceBytes = totalBytes p.resources
  bound : p.resourceBytes ≤ limits.maxResourceBytes
  cache : ∀ (reference : ResourceRef) r,
    p.resolved.lookup (reference.id, reference.revision) = some r ↔
      r ∈ p.resources ∧ r.reference = reference
  allowed : ∀ reference ∈ references, reference ∉ forbidden

theorem Preparation.At.start : (Preparation.start limits).At stores limits forbidden [] 0 := by
  refine ⟨rfl, ⟨rfl, ?_⟩, rfl, Nat.zero_le _, ?_, ?_⟩
  · intro i r hr
    cases hr
  · intro reference r
    simp [Preparation.start]
  · intro reference hr
    cases hr

theorem Resolves.mem {references : List ResourceRef} {resources : List Resource}
    (h : Resolves stores references resources) {reference : ResourceRef} :
    reference ∈ references ↔ ∃ r ∈ resources, r.reference = reference := by
  rw [← List.mem_eraseDups, ← h.references, List.mem_map]

/-- The answers of the stores determine the resources. -/
theorem Resolves.prefix_of_prefix {references others : List ResourceRef}
    {resources resources' : List Resource} (h : Resolves stores references resources)
    (h' : Resolves stores others resources') (hfront : references <+: others) :
    resources <+: resources' := by
  have hmap : resources.map (·.reference) <+: resources'.map (·.reference) := by
    rw [h.references, h'.references]
    exact eraseDups_prefix hfront
  have hlength : resources.length ≤ resources'.length := by
    simpa using hmap.length_le
  rw [List.prefix_iff_eq_take]
  apply List.ext_getElem?
  intro i
  by_cases hi : i < resources.length
  · have hi' : i < resources'.length := by omega
    have hsame : resources[i].reference = resources'[i].reference := by
      have := hmap.getElem (by simpa using hi)
      simpa using this
    have hfirst := h.fetched i resources[i] (List.getElem?_eq_getElem hi)
    have hsecond := h'.fetched i resources'[i] (List.getElem?_eq_getElem hi')
    rw [← hsame, hfirst] at hsecond
    rw [List.getElem?_eq_getElem hi, List.getElem?_take_of_lt hi, List.getElem?_eq_getElem hi',
      Except.ok.inj hsecond]
  · rw [List.getElem?_eq_none (by omega), List.getElem?_eq_none (by simp; omega)]

theorem totalBytes_le_of_front {resources resources' : List Resource}
    (h : resources <+: resources') : totalBytes resources ≤ totalBytes resources' := by
  obtain ⟨rest, rfl⟩ := h
  unfold totalBytes
  rw [List.map_append, List.sum_append]
  omega

/-! ## One reference -/

theorem consume_cases (p : Preparation) :
    (1 ≤ p.remaining ∧ consume p = .ok { p with remaining := p.remaining - 1 }) ∨
      (p.remaining = 0 ∧ consume p = .error .itemLimit) := by
  unfold consume
  by_cases h : 1 ≤ p.remaining
  · exact .inl ⟨h, if_pos h⟩
  · exact .inr ⟨by omega, if_neg h⟩

theorem Preparation.At.consume {references : List ResourceRef} {used : Nat} {p p' : Preparation}
    (h : p.At stores limits forbidden references used) (hok : consume p = .ok p') :
    p'.At stores limits forbidden references (used + 1) ∧ p'.records = p.records ∧
      p'.instructions = p.instructions ∧ p'.resources = p.resources := by
  rcases consume_cases p with ⟨hle, he⟩ | ⟨-, he⟩
  · rw [he] at hok
    obtain rfl := Except.ok.inj hok
    refine ⟨{ h with remaining := ?_ }, rfl, rfl, rfl⟩
    have := h.remaining
    show p.remaining - 1 + (used + 1) = limits.maxItems
    omega
  · rw [he] at hok
    cases hok

/-- Why a reference is not resolved. -/
inductive Unresolved (stores : Stores) (limits : ContextLimits)
    (forbidden references : List ResourceRef) (reference : ResourceRef) (p : Preparation) : ContextError → Prop where
  | omission (h : reference ∈ forbidden) :
      Unresolved stores limits forbidden references reference p (.referencedOmission reference)
  | resource (error : ResourceError) (hnew : reference ∉ references)
      (h : ∀ r, stores.resource p.resources.length reference = .ok r → r.reference ≠ reference) :
      Unresolved stores limits forbidden references reference p (.resource reference error)
  | bytes (r : Resource) (hnew : reference ∉ references)
      (hfetched : stores.resource p.resources.length reference = .ok r)
      (hreference : r.reference = reference)
      (hbytes : limits.maxResourceBytes < p.resourceBytes + r.bytes.size) :
      Unresolved stores limits forbidden references reference p .resourceByteLimit

/-- The resource of the reference is among those of the preparation after it. -/
structure ResolvedTo (stores : Stores) (limits : ContextLimits) (forbidden : List ResourceRef)
    (references : List ResourceRef) (used : Nat) (reference : ResourceRef) (p : Preparation)
    (r : Resource) (p' : Preparation) : Prop where
  prepared : p'.At stores limits forbidden (references ++ [reference]) used
  mem : r ∈ p'.resources
  reference : r.reference = reference
  grows : p.resources <+: p'.resources
  records : p'.records = p.records
  instructions : p'.instructions = p.instructions

theorem resolve_cases {references : List ResourceRef} {used : Nat} {p : Preparation}
    (h : p.At stores limits forbidden references used) (reference : ResourceRef) :
    (∃ r p', resolve stores limits forbidden reference p = .ok (r, p') ∧
      ResolvedTo stores limits forbidden references used reference p r p') ∨
    ∃ e, resolve stores limits forbidden reference p = .error e ∧
      Unresolved stores limits forbidden references reference p e := by
  by_cases hforbidden : reference ∈ forbidden
  · exact .inr ⟨_, by simp [resolve, hforbidden], .omission hforbidden⟩
  have hallowed : ∀ other ∈ references ++ [reference], other ∉ forbidden := by
    intro other hother
    rcases List.mem_append.mp hother with hother | hother
    · exact h.allowed other hother
    · rw [List.mem_singleton.mp hother]
      exact hforbidden
  cases hcache : p.resolved.lookup (reference.id, reference.revision) with
  | some r =>
    obtain ⟨hmem, href⟩ := (h.cache reference r).mp hcache
    have hold : reference ∈ references := h.resolves.mem.mpr ⟨r, hmem, href⟩
    have hresolves : Resolves stores (references ++ [reference]) p.resources := by
      refine ⟨?_, h.resolves.fetched⟩
      rw [eraseDups_concat, if_pos hold, List.append_nil, h.resolves.references]
    exact .inl ⟨r, p, by simp [resolve, hforbidden, hcache],
      { h with resolves := hresolves, allowed := hallowed }, hmem, href, List.prefix_refl _, rfl, rfl⟩
  | none =>
  -- the cache holds the resource of every reference met, so this one is new
  have hnew : reference ∉ references := by
    intro hold
    obtain ⟨old, hold, heq⟩ := h.resolves.mem.mp hold
    have := (h.cache reference old).mpr ⟨hold, heq⟩
    rw [hcache] at this
    cases this
  cases hfetched : stores.resource p.resources.length reference with
  | error error =>
    refine .inr ⟨_, by simp [resolve, hforbidden, hcache, hfetched], .resource error hnew ?_⟩
    intro r hr
    rw [hfetched] at hr
    cases hr
  | ok r =>
  by_cases href : r.reference = reference
  case neg =>
    refine .inr ⟨_, by simp [resolve, hforbidden, hcache, hfetched, href],
      .resource .revisionConflict hnew ?_⟩
    intro r' hr'
    rw [hfetched] at hr'
    exact Except.ok.inj hr' ▸ href
  have hfilter := checkedAdd_filter (a := p.resourceBytes) (b := r.bytes.size)
    limits.maxResourceBytes_le
  by_cases hbytes : p.resourceBytes + r.bytes.size ≤ limits.maxResourceBytes
  · rw [if_pos hbytes] at hfilter
    have hok : resolve stores limits forbidden reference p = .ok (r, { p with
        resourceBytes := p.resourceBytes + r.bytes.size
        resources := p.resources ++ [r]
        resolved := p.resolved.insert (reference.id, reference.revision) r }) := by
      simp only [resolve, hforbidden, hcache, hfetched, href, hfilter, ↓reduceIte, ne_eq,
        not_true_eq_false]
    refine .inl ⟨r, _, hok, ?_, ?_, href, List.prefix_append _ _, rfl, rfl⟩
    · refine ⟨h.remaining, ⟨?_, ?_⟩, ?_, hbytes, ?_, hallowed⟩
      · rw [eraseDups_concat, if_neg hnew, List.map_append, h.resolves.references,
          List.map_singleton, href]
      · intro i r' hr'
        rw [List.getElem?_append] at hr'
        split at hr'
        · exact h.resolves.fetched i r' hr'
        · next hi =>
          have hlt := (List.getElem?_eq_some_iff.mp hr').1
          rw [List.length_singleton] at hlt
          have hindex : i = p.resources.length := by omega
          rw [hindex, Nat.sub_self, List.getElem?_cons_zero, Option.some.injEq] at hr'
          rw [← hr', href, hindex, hfetched]
      · simp only [totalBytes, List.map_append, List.sum_append, List.map_singleton,
          List.sum_singleton, h.bytes]
      · intro other r'
        rw [HashMap.lookup_insert_eq]
        by_cases hother : other = reference
        · rw [hother, if_pos rfl, Option.some.injEq]
          constructor
          · rintro rfl
            exact ⟨by simp, href⟩
          · rintro ⟨hmem, heq⟩
            rcases List.mem_append.mp hmem with hmem | hmem
            · exact absurd (h.resolves.mem.mpr ⟨r', hmem, heq⟩) hnew
            · exact (List.mem_singleton.mp hmem).symm
        · have hkey : ¬ (other.id, other.revision) = (reference.id, reference.revision) := by
            intro hkey
            apply hother
            cases other
            cases reference
            simpa using hkey
          rw [if_neg hkey, h.cache, List.mem_append, List.mem_singleton]
          constructor
          · exact fun hr => ⟨.inl hr.1, hr.2⟩
          · rintro ⟨hmem | rfl, heq⟩
            · exact ⟨hmem, heq⟩
            · exact absurd (heq.symm.trans href) hother
    · simp
  · rw [if_neg hbytes] at hfilter
    exact .inr ⟨_, by simp only [resolve, hforbidden, hcache, hfetched, href, hfilter,
      ↓reduceIte, ne_eq, not_true_eq_false], .bytes r hnew hfetched href (by omega)⟩

/-! ## Limits that are exceeded -/

/-- The error is that of a limit, and this many items or these resources exceed it. -/
def Exceeds (limits : ContextLimits) (count : Nat) (resources : List Resource)
    (e : ContextError) : Prop :=
  e = .itemLimit ∧ limits.maxItems < count ∨
    e = .resourceByteLimit ∧ limits.maxResourceBytes < totalBytes resources

section Charge

variable {references total : List ResourceRef} {used count : Nat} {p : Preparation}
  {resources : List Resource} {reference : ResourceRef}

/-- The next of all references is answered as it will be. -/
theorem Resolves.next (h : Resolves stores references p.resources)
    (htotal : Resolves stores total resources) (hfront : references ++ [reference] <+: total)
    (hnew : reference ∉ references) :
    ∃ r, stores.resource p.resources.length reference = .ok r ∧ r.reference = reference ∧
      p.resources ++ [r] <+: resources := by
  have hmap : p.resources.map (·.reference) ++ [reference] <+: resources.map (·.reference) := by
    have := eraseDups_prefix hfront
    rwa [eraseDups_concat, if_neg hnew, ← h.references, ← htotal.references] at this
  have hlt : p.resources.length < resources.length := by
    have := hmap.length_le
    simp only [List.length_append, List.length_map, List.length_singleton] at this
    omega
  have hreference : resources[p.resources.length].reference = reference := by
    have := hmap.getElem (i := p.resources.length) (by simp)
    simpa using this.symm
  have hfetched := htotal.fetched _ _ (List.getElem?_eq_getElem hlt)
  rw [hreference] at hfetched
  refine ⟨_, hfetched, hreference, ?_⟩
  have hold := h.prefix_of_prefix htotal ((List.prefix_append _ _).trans hfront)
  rw [List.prefix_iff_eq_take] at hold ⊢
  rw [List.length_append, List.length_singleton, List.take_succ_eq_append_getElem hlt, ← hold]

theorem Preparation.At.unresolved_exceeds (h : p.At stores limits forbidden references used)
    (htotal : Resolves stores total resources) (hallowed : ∀ r ∈ total, r ∉ forbidden)
    (hfront : references ++ [reference] <+: total) {e : ContextError}
    (he : Unresolved stores limits forbidden references reference p e) :
    Exceeds limits count resources e := by
  cases he with
  | omission hforbidden =>
    have hmem : reference ∈ total := hfront.subset (by simp)
    exact absurd hforbidden (hallowed reference hmem)
  | resource error hnew hnone =>
    obtain ⟨r, hfetched, hreference, -⟩ := h.resolves.next htotal hfront hnew
    exact absurd hreference (hnone r hfetched)
  | bytes r hnew hfetched hreference hbytes =>
    obtain ⟨r', hfetched', -, hgrown⟩ := h.resolves.next htotal hfront hnew
    rw [hfetched, Except.ok.injEq] at hfetched'
    subst hfetched'
    have hle := totalBytes_le_of_front hgrown
    have hsum : totalBytes (p.resources ++ [r]) = p.resourceBytes + r.bytes.size := by
      simp only [totalBytes, List.map_append, List.sum_append, List.map_singleton,
        List.sum_singleton, h.bytes]
    exact .inr ⟨rfl, by omega⟩

theorem Preparation.At.consume_exceeds (h : p.At stores limits forbidden references used)
    (hcount : used + 1 ≤ count) {e : ContextError} (he : Context.consume p = .error e) :
    Exceeds limits count resources e := by
  rcases consume_cases p with ⟨-, hok⟩ | ⟨hzero, herr⟩
  · rw [hok] at he
    cases he
  · rw [herr] at he
    obtain rfl := Except.error.inj he
    have := h.remaining
    exact .inl ⟨rfl, by omega⟩

end Charge

end Context

end AgentBridge
