import AgentBridge.Acp.Route
import Mathlib.Data.List.Count

/-!
# What a route holds to

Every request that came is answered once or still waits; the queue opens a permission before it
resolves it, resolves all of them before the run finishes, and goes no further then.
-/

namespace AgentBridge

namespace Acp

variable {U T : Type}

namespace Delivery

def permissionId : Delivery U T → Option PermissionId
  | .event (.permission id _) => some id
  | _ => none

def resolvedId : Delivery U T → Option PermissionId
  | .event (.permissionResolved id _ _) => some id
  | _ => none

def isFinished : Delivery U T → Bool
  | .finished _ => true
  | _ => false

end Delivery

/-- The permissions that a queue asks for. -/
def asked (queue : List (Delivery U T)) : List PermissionId := queue.filterMap Delivery.permissionId

/-- The permissions that a queue resolves. -/
def decided (queue : List (Delivery U T)) : List PermissionId := queue.filterMap Delivery.resolvedId

section Queue

variable {q : List (Delivery U T)} {id : PermissionId}

theorem asked_append (m : Delivery U T) : asked (q ++ [m]) = asked q ++ m.permissionId.toList := by
  cases h : m.permissionId <;> simp [asked, List.filterMap_append, h]

theorem decided_append (m : Delivery U T) :
    decided (q ++ [m]) = decided q ++ m.resolvedId.toList := by
  cases h : m.resolvedId <;> simp [decided, List.filterMap_append, h]

/-- Where a queue with one more delivery has a given one. -/
theorem split_append {m x : Delivery U T} {front back : List (Delivery U T)}
    (h : q ++ [m] = front ++ x :: back) : (back = [] ∧ front = q ∧ x = m) ∨ x ∈ q := by
  rcases List.eq_nil_or_concat back with hback | ⟨before, y, hback⟩
  · rw [hback] at h
    have hinj := List.append_inj' h rfl
    exact .inl ⟨hback, hinj.1.symm, (List.cons.inj hinj.2).1.symm⟩
  · rw [hback, List.concat_eq_append, ← List.cons_append, ← List.append_assoc] at h
    have hq : q = front ++ x :: before := (List.append_inj' h rfl).1
    exact .inr (hq ▸ List.mem_append_right front (List.mem_cons_self ..))

end Queue

/-- A queue that opens each permission at most once and resolves it at most once, later. -/
def Ordered (queue : List (Delivery U T)) : Prop :=
  ∀ front, front <+: queue → ∀ id,
    (decided front).count id ≤ (asked front).count id ∧ (asked front).count id ≤ 1

theorem Ordered.append {queue : List (Delivery U T)} {m : Delivery U T} (h : Ordered queue)
    (hm : ∀ id, (decided (queue ++ [m])).count id ≤ (asked (queue ++ [m])).count id ∧
      (asked (queue ++ [m])).count id ≤ 1) : Ordered (queue ++ [m]) := by
  intro front hfront
  rcases List.prefix_concat_iff.mp hfront with hall | hfront
  · rw [hall]
    exact hm
  · exact h front hfront

namespace Route

variable {r : Route U T} {waiting : List (PermissionId × PendingPermission)}
  {id : PermissionId} {p : PendingPermission}

/-- Every request that came was answered once, or one of the waiting permissions has its
responder. -/
def Accounted (waiting : List (PermissionId × PendingPermission)) (r : Route U T) : Prop :=
  ∀ n, (r.responses.map Prod.fst).count n + (waiting.map (·.2.responder)).count n =
    if n < r.requests then 1 else 0

theorem Accounted.perm {other : List (PermissionId × PendingPermission)} (h : Accounted waiting r)
    (hperm : waiting.Perm other) : Accounted other r := by
  intro n
  rw [← (hperm.map (·.2.responder)).count_eq n]
  exact h n

theorem Accounted.answer (h : Accounted ((id, p) :: waiting) r) (outcome : PermissionOutcome) :
    Accounted waiting (r.answer p.responder outcome) := by
  intro n
  have hn := h n
  simp only [List.map_cons, List.count_cons] at hn
  have hanswer : ((r.answer p.responder outcome).responses.map Prod.fst).count n =
      (r.responses.map Prod.fst).count n + if p.responder == n then 1 else 0 := by
    rw [Route.answer, List.map_append, List.count_append]
    exact congrArg _ (List.count_singleton ..)
  rw [hanswer, show (r.answer p.responder outcome).requests = r.requests from rfl]
  omega

/-- A request gets the next responder. -/
theorem Accounted.request (h : Accounted waiting r) (options : List String) :
    Accounted ((id, ⟨options, r.requests⟩) :: waiting) { r with requests := r.requests + 1 } := by
  intro n
  have hn := h n
  simp only [List.map_cons, List.count_cons, beq_iff_eq]
  by_cases hnew : r.requests = n
  · rw [if_neg (by omega)] at hn
    rw [if_pos hnew, if_pos (by omega)]
    omega
  · rw [if_neg hnew]
    by_cases hold : n < r.requests
    · rw [if_pos hold] at hn
      rw [if_pos (by omega)]
      omega
    · rw [if_neg hold] at hn
      rw [if_neg (by omega)]
      omega

/-- What the queue of a route says, with the permissions that wait for a decision given apart from
it: in the middle of a drain they are those that are still to come. -/
structure Holds (waiting : List (PermissionId × PendingPermission)) (r : Route U T) : Prop where
  unresolved : r.accepting = true → ∀ id,
    (asked r.queued).count id = (decided r.queued).count id + (waiting.map Prod.fst).count id
  numbered : ∀ id, id ∈ asked r.queued ∨ id ∈ waiting.map Prod.fst →
    id.runId = r.runId ∧ id.sequence < r.nextPermission
  ordered : Ordered r.queued
  last : ∀ front m back, r.queued = front ++ m :: back → m.isFinished = true →
    back = [] ∧ ∀ id, (asked front).count id = (decided front).count id
  stopped : ∀ m ∈ r.queued, m.isFinished = true → r.accepting = false ∧ r.overflow = false
  plain : ∀ reason, .event (.finished reason) ∉ r.queued
  kept : r.overflow = false → r.offered = r.queued
  overflowed : r.overflow = true → r.accepting = false

namespace Holds

theorem perm {other : List (PermissionId × PendingPermission)} (h : Holds waiting r)
    (hperm : waiting.Perm other) : Holds other r where
  unresolved hacc id := by
    rw [← (hperm.map Prod.fst).count_eq id]
    exact h.unresolved hacc id
  numbered id hid := h.numbered id (hid.imp_right (hperm.map Prod.fst).mem_iff.mpr)
  ordered := h.ordered
  last := h.last
  stopped := h.stopped
  plain := h.plain
  kept := h.kept
  overflowed := h.overflowed

/-- The fields that say nothing about the queue. -/
theorem frame (h : Holds waiting r) (cancelling fault : Bool) (taken requests : Nat)
    (pending : List (PermissionId × PendingPermission)) (responses : List (Nat × PermissionOutcome)) :
    Holds waiting { r with cancelling, fault, taken, requests, pending, responses } :=
  ⟨h.unresolved, h.numbered, h.ordered, h.last, h.stopped, h.plain, h.kept, h.overflowed⟩

theorem shut (h : Holds waiting r) : Holds waiting { r with accepting := false } where
  unresolved hacc := by cases hacc
  numbered := h.numbered
  ordered := h.ordered
  last := h.last
  stopped m hm hfin := ⟨rfl, (h.stopped m hm hfin).2⟩
  plain := h.plain
  kept := h.kept
  overflowed _ := rfl

/-- Once a route is closed its queue says nothing about the permissions that still wait. -/
theorem drop (h : Holds ((id, p) :: waiting) r) (hacc : r.accepting = false) : Holds waiting r where
  unresolved hopen := by
    rw [hacc] at hopen
    cases hopen
  numbered id hid := h.numbered id (hid.imp_right (List.mem_cons_of_mem _))
  ordered := h.ordered
  last := h.last
  stopped := h.stopped
  plain := h.plain
  kept := h.kept
  overflowed := h.overflowed

/-- It says nothing about one more of them either. -/
theorem wait (h : Holds waiting r) (hacc : r.accepting = false) :
    Holds ((⟨r.runId, r.nextPermission⟩, p) :: waiting)
      { r with nextPermission := r.nextPermission + 1 } where
  unresolved hopen := by
    rw [show r.accepting = true from hopen] at hacc
    cases hacc
  numbered id hid := by
    have hcases : id = ⟨r.runId, r.nextPermission⟩ ∨
        (id ∈ asked r.queued ∨ id ∈ waiting.map Prod.fst) := by
      rw [List.map_cons, List.mem_cons] at hid
      tauto
    rcases hcases with rfl | hold
    · exact ⟨rfl, Nat.lt_succ_self _⟩
    · have hnumber := h.numbered id hold
      exact ⟨hnumber.1, Nat.lt_succ_of_lt hnumber.2⟩
  ordered := h.ordered
  last := h.last
  stopped := h.stopped
  plain := h.plain
  kept := h.kept
  overflowed := h.overflowed

/-- While a route accepts, its queue has no end yet. -/
theorem not_finished (h : Holds waiting r) (hacc : r.accepting = true) {m : Delivery U T}
    (hm : m ∈ r.queued) : m.isFinished = false := by
  by_contra hfin
  have hstop := (h.stopped m hm (by simpa using hfin)).1
  rw [hacc] at hstop
  cases hstop

theorem not_overflowed (h : Holds waiting r) (hacc : r.accepting = true) : r.overflow = false := by
  by_contra hover
  have hstop := h.overflowed (by simpa using hover)
  rw [hacc] at hstop
  cases hstop

/-- A delivery that finds no room closes the route. -/
theorem full (h : Holds waiting r) (hacc : r.accepting = true) (lost : List (Delivery U T)) :
    Holds waiting { r with
      offered := r.offered ++ lost, overflow := true, accepting := false } where
  unresolved hopen := by cases hopen
  numbered := h.numbered
  ordered := h.ordered
  last := h.last
  stopped m hm hfin := by
    rw [h.not_finished hacc hm] at hfin
    cases hfin
  plain := h.plain
  kept hover := by cases hover
  overflowed _ := rfl

end Holds

/-- A delivery that there is room for. -/
def push (m : Delivery U T) (r : Route U T) : Route U T :=
  { r with offered := r.offered ++ [m], queued := r.queued ++ [m] }

namespace Holds

/-- What one more delivery asks, while a route accepts, of the counts alone. -/
theorem push {after : List (PermissionId × PendingPermission)} {m : Delivery U T} {sequence : Nat}
    (h : Holds waiting r) (hacc : r.accepting = true) (hm : m.isFinished = false)
    (hplain : ∀ reason, m ≠ .event (.finished reason))
    (hopen : ∀ id, (asked (r.queued ++ [m])).count id =
      (decided (r.queued ++ [m])).count id + (after.map Prod.fst).count id)
    (hone : ∀ id, (asked (r.queued ++ [m])).count id ≤ 1)
    (hnumbered : ∀ id, id ∈ asked (r.queued ++ [m]) ∨ id ∈ after.map Prod.fst →
      id.runId = r.runId ∧ id.sequence < sequence) :
    Holds after ({ r with nextPermission := sequence }.push m) := by
  have hfin : ∀ x ∈ r.queued ++ [m], x.isFinished = false := by
    intro x hx
    rcases List.mem_append.mp hx with hx | hx
    · exact h.not_finished hacc hx
    · rwa [List.mem_singleton.mp hx]
  exact {
    unresolved := fun _ => hopen
    numbered := hnumbered
    ordered := h.ordered.append fun id => ⟨by rw [hopen id]; omega, hone id⟩
    last := by
      intro front x back hsplit hx
      have hmem : x ∈ r.queued ++ [m] := by
        rw [show r.queued ++ [m] = front ++ x :: back from hsplit]
        exact List.mem_append_right front (List.mem_cons_self ..)
      rw [hfin x hmem] at hx
      cases hx
    stopped := by
      intro x hmem hx
      rw [hfin x hmem] at hx
      cases hx
    plain := by
      intro reason hmem
      rcases List.mem_append.mp hmem with hmem | hmem
      · exact h.plain reason hmem
      · exact hplain reason (List.mem_singleton.mp hmem).symm
    kept := fun hover => congrArg (· ++ [m]) (h.kept hover)
    overflowed := h.overflowed }

theorem push_update (h : Holds waiting r) (hacc : r.accepting = true) (update : U) :
    Holds waiting (r.push (.event (.update update))) := by
  have hasked : asked (r.queued ++ [.event (.update update)]) = asked r.queued :=
    (asked_append _).trans (List.append_nil _)
  have hdecided : decided (r.queued ++ [.event (.update update)]) = decided r.queued :=
    (decided_append _).trans (List.append_nil _)
  refine h.push hacc rfl (fun _ => by simp) ?_ ?_ ?_
  · rw [hasked, hdecided]
    exact h.unresolved hacc
  · rw [hasked]
    exact fun id => (h.ordered _ (List.prefix_refl _) id).2
  · rw [hasked]
    exact h.numbered

/-- The resolution of a permission that waits. -/
theorem push_resolved (h : Holds ((id, p) :: waiting) r) (hacc : r.accepting = true)
    (outcome : PermissionOutcome) (delivery : DecisionDelivery) :
    Holds waiting (r.push (.event (.permissionResolved id outcome delivery))) := by
  have hasked : asked (r.queued ++ [.event (.permissionResolved id outcome delivery)]) =
      asked r.queued := (asked_append _).trans (List.append_nil _)
  refine h.push hacc rfl (fun _ => by simp) ?_ ?_ ?_
  · intro other
    have hother := h.unresolved hacc other
    rw [List.map_cons, List.count_cons] at hother
    rw [hasked, decided_append, List.count_append, hother]
    simp only [Delivery.resolvedId, Option.toList_some, List.count_singleton]
    omega
  · rw [hasked]
    exact fun id => (h.ordered _ (List.prefix_refl _) id).2
  · rw [hasked]
    exact fun other hid => h.numbered other (hid.imp_right (List.mem_cons_of_mem _))

/-- A permission that is asked for gets the next number, and waits. -/
theorem push_permission (h : Holds waiting r) (hacc : r.accepting = true)
    (request : RequestPermissionRequest T) :
    Holds ((⟨r.runId, r.nextPermission⟩, p) :: waiting)
      ({ r with nextPermission := r.nextPermission + 1 }.push
        (.event (.permission ⟨r.runId, r.nextPermission⟩ request))) := by
  have hnew : ⟨r.runId, r.nextPermission⟩ ∉ asked r.queued := by
    intro hmem
    exact absurd (h.numbered _ (.inl hmem)).2 (Nat.lt_irrefl _)
  have hasked : ∀ other, (asked (r.queued ++
      [.event (.permission ⟨r.runId, r.nextPermission⟩ request)])).count other =
      (asked r.queued).count other + if ⟨r.runId, r.nextPermission⟩ == other then 1 else 0 := by
    intro other
    rw [asked_append, List.count_append]
    simp only [Delivery.permissionId, Option.toList_some, List.count_singleton]
  have hdecided : decided (r.queued ++
      [.event (.permission ⟨r.runId, r.nextPermission⟩ request)]) = decided r.queued :=
    (decided_append _).trans (List.append_nil _)
  refine h.push hacc rfl (fun _ => by simp) ?_ ?_ ?_
  · intro other
    have hother := h.unresolved hacc other
    simp only [hasked, hdecided, List.map_cons, List.count_cons]
    omega
  · intro other
    rw [hasked]
    by_cases hsame : (⟨r.runId, r.nextPermission⟩ : PermissionId) = other
    · rw [← hsame, List.count_eq_zero.mpr hnew]
      simp
    · have hone := (h.ordered _ (List.prefix_refl _) other).2
      simpa [hsame] using hone
  · intro other hid
    rw [asked_append, List.mem_append, List.map_cons, List.mem_cons] at hid
    have hcases : other = ⟨r.runId, r.nextPermission⟩ ∨
        (other ∈ asked r.queued ∨ other ∈ waiting.map Prod.fst) := by
      simp only [Delivery.permissionId, Option.toList_some, List.mem_singleton] at hid
      tauto
    rcases hcases with rfl | hold
    · exact ⟨rfl, Nat.lt_succ_self _⟩
    · have hnumber := h.numbered other hold
      exact ⟨hnumber.1, by omega⟩

/-- The end of a run that no permission waits in any more. -/
theorem push_finished (h : Holds [] r) (hacc : r.accepting = true)
    (result : Except String StopReason) :
    Holds [] { r.push (.finished result) with accepting := false } where
  unresolved hopen := by cases hopen
  numbered id hid := by
    rw [show asked (r.push (.finished result)).queued = asked r.queued from
      (asked_append _).trans (List.append_nil _)] at hid
    exact h.numbered id hid
  ordered := by
    have hasked : asked (r.queued ++ [.finished result]) = asked r.queued :=
      (asked_append _).trans (List.append_nil _)
    have hdecided : decided (r.queued ++ [.finished result]) = decided r.queued :=
      (decided_append _).trans (List.append_nil _)
    refine h.ordered.append fun id => ?_
    rw [hasked, hdecided]
    exact h.ordered _ (List.prefix_refl _) id
  last front m back hsplit hm := by
    rcases split_append hsplit with ⟨hback, hfront, -⟩ | hmem
    · refine ⟨hback, fun id => ?_⟩
      rw [hfront]
      exact h.unresolved hacc id
    · rw [h.not_finished hacc hmem] at hm
      cases hm
  stopped m hm hfin := ⟨rfl, h.not_overflowed hacc⟩
  plain reason hmem := by
    rcases List.mem_append.mp hmem with hmem | hmem
    · exact h.plain reason hmem
    · simp at hmem
  kept hover := by
    show r.offered ++ [.finished result] = r.queued ++ [.finished result]
    rw [h.kept hover]
  overflowed _ := rfl

end Holds

/-! ## The operations -/

/-- The invariant between two operations. -/
structure Sound (r : Route U T) : Prop where
  accounted : Accounted r.pending r
  holds : Holds r.pending r
  idle : r.accepting = false → r.pending = []

theorem start_sound (runId : RunId) : (start runId : Route U T).Sound where
  accounted n := rfl
  holds := {
    unresolved := fun _ _ => rfl
    numbered := fun id h => by simp [asked, start] at h
    ordered := by
      intro front hfront id
      rw [List.prefix_nil.mp hfront]
      exact ⟨Nat.le_refl _, Nat.zero_le _⟩
    last := fun front m back h _ => by simp [start] at h
    stopped := fun m hm _ => by cases hm
    plain := fun _ h => by cases h
    kept := fun _ => rfl
    overflowed := fun h => by cases h }
  idle h := by cases h

/-- How a route moves on: its queue only grows, and neither reopens nor grows once it is closed. -/
structure Grows (r r' : Route U T) : Prop where
  taken : r'.taken = r.taken
  queued : r.queued <+: r'.queued
  closed : r.accepting = false → r'.accepting = false ∧ r'.queued = r.queued
  overflow : r.overflow = true → r'.overflow = true

theorem Grows.refl (r : Route U T) : Grows r r :=
  ⟨rfl, List.prefix_refl _, fun h => ⟨h, rfl⟩, id⟩

theorem Grows.trans {a b c : Route U T} (h : Grows a b) (h' : Grows b c) : Grows a c where
  taken := h'.taken.trans h.taken
  queued := h.queued.trans h'.queued
  closed hacc := by
    have hb := h.closed hacc
    have hc := h'.closed hb.1
    exact ⟨hc.1, hc.2.trans hb.2⟩
  overflow := h'.overflow ∘ h.overflow

theorem Grows.push {r' : Route U T} {m : Delivery U T} (hacc : r.accepting = true)
    (htaken : r'.taken = r.taken) (hqueued : r'.queued = r.queued ++ [m])
    (hover : r'.overflow = r.overflow) : Grows r r' where
  taken := htaken
  queued := hqueued ▸ List.prefix_append _ _
  closed hclosed := by
    rw [hacc] at hclosed
    cases hclosed
  overflow := hover.trans

/-- What a route that is closed at once keeps of its queue. -/
theorem Grows.shut {r' : Route U T} (htaken : r'.taken = r.taken) (hqueued : r'.queued = r.queued)
    (hacc : r'.accepting = false) (hover : r.overflow = true → r'.overflow = true) : Grows r r' where
  taken := htaken
  queued := hqueued ▸ List.prefix_refl _
  closed _ := ⟨hacc, hqueued⟩
  overflow := hover

/-- What the loop does with one permission. -/
theorem cancelPermission_spec (sent : Bool) (ha : Accounted ((id, p) :: waiting) r)
    (h : Holds ((id, p) :: waiting) r) :
    Accounted waiting (cancelPermission sent id p r) ∧
      Holds waiting (cancelPermission sent id p r) ∧ Grows r (cancelPermission sent id p r) ∧
        (cancelPermission sent id p r).pending = r.pending := by
  have hanswer := ha.answer .cancelled
  cases hacc : r.accepting with
  | false =>
    rw [show cancelPermission sent id p r = r.answer p.responder .cancelled by
      simp [cancelPermission, Route.answer, hacc]]
    refine ⟨hanswer, (h.drop hacc).frame .., .shut rfl rfl hacc (fun hover => hover), rfl⟩
  | true =>
    by_cases hroom : r.queued.length < r.taken + eventCapacity
    · rw [show cancelPermission sent id p r = (r.answer p.responder .cancelled).push
          (.event (.permissionResolved id .cancelled (deliveryOf sent))) by
        simp [cancelPermission, Route.answer, offer, trySend, Route.push, hacc, hroom]]
      exact ⟨hanswer, (h.push_resolved hacc .cancelled (deliveryOf sent)).frame ..,
        .push hacc rfl rfl rfl, rfl⟩
    · rw [show cancelPermission sent id p r =
          { (r.answer p.responder .cancelled).offer
              (.event (.permissionResolved id .cancelled (deliveryOf sent))) with
            overflow := true, accepting := false, fault := true } by
        simp [cancelPermission, Route.answer, offer, trySend, hacc, hroom]]
      refine ⟨hanswer, ((h.full hacc _).drop rfl).frame .., .shut rfl rfl rfl (fun _ => rfl), rfl⟩

theorem drain_spec (sent : PermissionId → Bool) (entries : List (PermissionId × PendingPermission))
    (ha : Accounted entries r) (h : Holds entries r) :
    let drained := entries.foldl (fun r (id, p) => cancelPermission (sent id) id p r) r
    Accounted [] drained ∧ Holds [] drained ∧ Grows r drained ∧ drained.pending = r.pending := by
  induction entries generalizing r with
  | nil => exact ⟨ha, h, .refl r, rfl⟩
  | cons entry entries ih =>
    obtain ⟨hone, hholds, hgrows, hpending⟩ := cancelPermission_spec (sent entry.1) ha h
    obtain ⟨hall, hrest, hlater, hlast⟩ := ih hone hholds
    exact ⟨hall, hrest, hgrows.trans hlater, hlast.trans hpending⟩

theorem cancelPermissions_spec (d : Drain) (ha : Accounted r.pending r) (h : Holds r.pending r) :
    Sound (cancelPermissions d r) ∧ (cancelPermissions d r).pending = [] ∧
      Grows r (cancelPermissions d r) := by
  have hperm := (d.perm r.pending).symm
  obtain ⟨hall, hrest, hgrows, hempty⟩ := drain_spec (r := { r with pending := [] }) d.sent
    (d.order r.pending) (ha.perm hperm) ((h.perm hperm).frame ..)
  have hpending : (cancelPermissions d r).pending = [] := hempty
  refine ⟨⟨?_, ?_, fun _ => hpending⟩, hpending,
    hgrows.taken, hgrows.queued, hgrows.closed, hgrows.overflow⟩
  · rw [hpending]
    exact hall
  · rw [hpending]
    exact hrest

/-- What closing a route leaves, whatever its permissions. -/
theorem close_spec (d : Drain) (ha : Accounted r.pending r) (h : Holds r.pending r) :
    Sound (close d r) ∧ (close d r).accepting = false ∧ Grows r (close d r) := by
  obtain ⟨hsound, -, hgrows⟩ :=
    cancelPermissions_spec (r := { r with accepting := false }) d ha h.shut
  have hshut : Grows r { r with accepting := false } := .shut rfl rfl rfl id
  exact ⟨hsound, (hgrows.closed rfl).1, hshut.trans hgrows⟩

/-- A route that cannot take what came for it. -/
theorem overflow_spec (d : Drain) (lost : List (Delivery U T)) (fault : Bool)
    (ha : Accounted r.pending r) (h : Holds r.pending { r with
      offered := r.offered ++ lost, overflow := true, accepting := false }) :
    let ended := { close d { r with
      offered := r.offered ++ lost, overflow := true } with fault := fault }
    Sound ended ∧ ended.accepting = false ∧ Grows r ended := by
  intro ended
  obtain ⟨hsound, -, hgrows⟩ := cancelPermissions_spec
    (r := { r with offered := r.offered ++ lost, overflow := true, accepting := false }) d ha h
  have hfull : Grows r { r with
      offered := r.offered ++ lost, overflow := true, accepting := false } :=
    .shut rfl rfl rfl fun _ => rfl
  have hall := hfull.trans hgrows
  exact ⟨⟨hsound.accounted, hsound.holds.frame .., hsound.idle⟩, (hgrows.closed rfl).1,
    hall.taken, hall.queued, hall.closed, hall.overflow⟩

/-- A delivery is queued, or it closes the route, unless nothing is accepted any more. -/
theorem deliver_cases (d : Drain) (m : Delivery U T) (r : Route U T) :
    (r.accepting = false ∧ deliver d m r = (.ok (), r)) ∨
      (r.accepting = true ∧ deliver d m r = (.ok (), r.push m)) ∨
      (r.accepting = true ∧ deliver d m r = (.error internalError,
        { close d { r with offered := r.offered ++ [m], overflow := true } with fault := true })) := by
  cases hacc : r.accepting with
  | false => exact .inl ⟨rfl, by simp [deliver, hacc]⟩
  | true =>
    by_cases hroom : r.queued.length < r.taken + eventCapacity
    · exact .inr (.inl ⟨rfl, by simp [deliver, offer, trySend, push, hacc, hroom]⟩)
    · exact .inr (.inr ⟨rfl, by simp [deliver, offer, trySend, hacc, hroom]⟩)

theorem routeUpdate_spec (d : Drain) (update : U) (h : Sound r) :
    Sound (routeUpdate d update r).2 ∧ Grows r (routeUpdate d update r).2 := by
  rw [routeUpdate]
  rcases deliver_cases d (.event (.update update)) r with ⟨-, heq⟩ | ⟨hacc, heq⟩ | ⟨hacc, heq⟩
  · rw [heq]
    exact ⟨h, .refl r⟩
  · rw [heq]
    refine ⟨⟨h.accounted, h.holds.push_update hacc update, ?_⟩, .push hacc rfl rfl rfl⟩
    intro hclosed
    rw [show (r.push _).accepting = r.accepting from rfl, hacc] at hclosed
    cases hclosed
  · rw [heq]
    obtain ⟨hsound, -, hgrows⟩ := overflow_spec d _ true h.accounted (h.holds.full hacc _)
    exact ⟨hsound, hgrows⟩

theorem refuse_spec (h : Sound r) : Sound r.refuse ∧ Grows r r.refuse := by
  have hanswer := (@Accounted.request _ _ _ _ ⟨r.runId, 0⟩ h.accounted []).answer .cancelled
  exact ⟨⟨hanswer, h.holds.frame .., h.idle⟩, rfl, List.prefix_refl _, fun hacc => ⟨hacc, rfl⟩, id⟩

/-- A request that waits, once its event is queued. -/
theorem enlist_spec (options : List String) (request : RequestPermissionRequest T) (h : Sound r)
    (hacc : r.accepting = true) :
    Sound ((r.enlist options).push (.event (.permission ⟨r.runId, r.nextPermission⟩ request))) ∧
      Grows r ((r.enlist options).push
        (.event (.permission ⟨r.runId, r.nextPermission⟩ request))) := by
  refine ⟨⟨h.accounted.request options, (h.holds.push_permission hacc request).frame .., ?_⟩,
    .push hacc rfl rfl rfl⟩
  intro hclosed
  rw [show ((r.enlist options).push _).accepting = r.accepting from rfl, hacc] at hclosed
  cases hclosed

theorem routePermission_spec (d : Drain) (found : Bool) (request : RequestPermissionRequest T)
    (reply : Except String Unit) (h : Sound r) :
    Sound (routePermission d found request reply r).2 ∧
      Grows r (routePermission d found request reply r).2 := by
  obtain ⟨hrefuse, hrefused⟩ := refuse_spec h
  rw [routePermission]
  by_cases hno : (!found || !r.accepting) = true
  · rw [if_pos hno]
    exact ⟨hrefuse, hrefused⟩
  rw [if_neg hno]
  have hacc : r.accepting = true := by
    simp only [Bool.or_eq_true, Bool.not_eq_true', not_or, Bool.not_eq_false] at hno
    exact hno.2
  by_cases hroom : permissionCapacity ≤ r.pending.length
  · rw [if_pos hroom]
    have hover := overflow_spec d [] true hrefuse.accounted (hrefuse.holds.full hacc [])
    rw [List.append_nil] at hover
    exact ⟨hover.1, hrefused.trans hover.2.2⟩
  rw [if_neg hroom]
  generalize request.options.map (·.optionId) = options
  have hasked := @Accounted.request _ _ _ _ ⟨r.runId, r.nextPermission⟩ h.accounted options
  rcases deliver_cases d (.event (.permission ⟨r.runId, r.nextPermission⟩ request))
      (r.enlist options) with ⟨hclosed, -⟩ | ⟨-, heq⟩ | ⟨-, heq⟩
  · rw [show r.accepting = false from hclosed] at hacc
    cases hacc
  · simp only [heq]
    obtain ⟨hsound, hgrows⟩ := enlist_spec options request h hacc
    -- the run is being cancelled: the permission is resolved as it is opened
    by_cases hcancel : r.cancelling = true
    · rw [if_pos (show ((r.enlist _).push _).cancelling = true from hcancel)]
      obtain ⟨hdone, -, hmore⟩ := cancelPermissions_spec d hsound.accounted hsound.holds
      exact ⟨hdone, hgrows.trans hmore⟩
    · rw [if_neg (show ¬ ((r.enlist _).push _).cancelling = true from hcancel)]
      exact ⟨hsound, hgrows⟩
  · simp only [heq]
    have hwaits := (h.holds.full hacc
      [.event (.permission ⟨r.runId, r.nextPermission⟩ request)]).wait
        (p := ⟨options, r.requests⟩) rfl
    have hover := overflow_spec (r := r.enlist options) d
      [.event (.permission ⟨r.runId, r.nextPermission⟩ request)] true hasked
      (hwaits.frame r.cancelling r.fault r.taken (r.requests + 1) (r.enlist options).pending
        r.responses)
    have hnew : Grows r (r.enlist options) :=
      ⟨rfl, List.prefix_refl _, fun hacc => ⟨hacc, rfl⟩, id⟩
    exact ⟨hover.1, hnew.trans hover.2.2⟩

/-- The end of a run, whether its response was taken or not, leaves the route closed. -/
theorem complete_spec (d : Drain) (result : Except String StopReason) (h : Sound r) :
    Sound (complete d result r).2 ∧ (complete d result r).2.accepting = false ∧
      Grows r (complete d result r).2 := by
  obtain ⟨hdrained, hnone, hgrows⟩ := cancelPermissions_spec d h.accounted h.holds
  rw [complete]
  rcases deliver_cases d (.finished result) (cancelPermissions d r) with
    ⟨-, heq⟩ | ⟨hacc, heq⟩ | ⟨hacc, heq⟩
  · rw [heq]
    obtain ⟨hsound, hclosed, hmore⟩ := close_spec d hdrained.accounted hdrained.holds
    exact ⟨hsound, hclosed, hgrows.trans hmore⟩
  · rw [heq]
    have hholds := hdrained.holds
    rw [hnone] at hholds
    obtain ⟨hsound, -, hmore⟩ := cancelPermissions_spec d
      (r := { (cancelPermissions d r).push (.finished result) with accepting := false })
      hdrained.accounted (by
        show Holds (cancelPermissions d r).pending _
        rw [hnone]
        exact hholds.push_finished hacc result)
    have hpush : Grows (cancelPermissions d r)
        { (cancelPermissions d r).push (.finished result) with accepting := false } :=
      .push hacc rfl rfl rfl
    exact ⟨hsound, (hmore.closed rfl).1, hgrows.trans (hpush.trans hmore)⟩
  · rw [heq]
    have hover := overflow_spec d [.finished result] true hdrained.accounted
      (hdrained.holds.full hacc _)
    exact ⟨hover.1, hover.2.1, hgrows.trans hover.2.2⟩

/-- An entry that a lookup finds stands apart from the others. -/
theorem perm_of_lookup {entries : List (PermissionId × PendingPermission)}
    (hnodup : (entries.map Prod.fst).Nodup) (h : entries.lookup id = some p) :
    entries.Perm ((id, p) :: entries.filter (·.1 ≠ id)) := by
  induction entries with
  | nil => cases h
  | cons entry entries ih =>
    obtain ⟨other, q⟩ := entry
    rw [List.map_cons, List.nodup_cons] at hnodup
    by_cases hid : other = id
    · have hsome : q = p := by simpa [List.lookup_cons, hid] using h
      have hrest : entries.filter (·.1 ≠ id) = entries := by
        rw [List.filter_eq_self]
        intro later hlater
        have hne : later.1 ≠ id := by
          intro heq
          have hmem := List.mem_map_of_mem (f := Prod.fst) hlater
          rw [heq, ← hid] at hmem
          exact hnodup.1 hmem
        simpa using hne
      rw [List.filter_cons_of_neg (by simpa using hid), hrest, hid, hsome]
    · have hlater : entries.lookup id = some p := by
        simpa [List.lookup_cons, beq_false_of_ne (Ne.symm hid)] using h
      rw [List.filter_cons_of_pos (by simpa using hid)]
      exact ((ih hnodup.2 hlater).cons (other, q)).trans (.swap ..)

/-- The permissions that wait have different ids. -/
theorem Sound.nodup (h : Sound r) : (r.pending.map Prod.fst).Nodup := by
  cases hacc : r.accepting with
  | false =>
    rw [h.idle hacc]
    exact List.nodup_nil
  | true =>
    rw [List.nodup_iff_count_le_one]
    intro id
    have hone := (h.holds.ordered _ (List.prefix_refl _) id).2
    have hsame := h.holds.unresolved hacc id
    omega

theorem respond_spec (d : Drain) (id : PermissionId) (option : Option String)
    (sent : Except String Unit) (h : Sound r) :
    Sound (respond d id option sent r).2 ∧ Grows r (respond d id option sent r).2 := by
  unfold respond
  cases hlookup : r.pending.lookup id with
  | none => exact ⟨h, .refl r⟩
  | some p =>
    dsimp only
    by_cases hbad : option.any (fun option => !p.options.contains option) = true
    · rw [if_pos hbad]
      exact ⟨h, .refl r⟩
    rw [if_neg hbad]
    have hperm := perm_of_lookup h.nodup hlookup
    have hacc : r.accepting = true := by
      by_contra hclosed
      rw [h.idle (by simpa using hclosed)] at hlookup
      cases hlookup
    generalize outcomeOf option = outcome
    have haccounted := (h.accounted.perm hperm).answer outcome
    have hholds := h.holds.perm hperm
    have hremoved : Grows r ({ r with pending := r.pending.filter (·.1 ≠ id) }.answer p.responder
        outcome) := ⟨rfl, List.prefix_refl _, fun hacc => ⟨hacc, rfl⟩, fun hover => hover⟩
    rcases deliver_cases d (.event (.permissionResolved id outcome (deliveryOf sent.isOk)))
        ({ r with pending := r.pending.filter (·.1 ≠ id) }.answer p.responder outcome) with
      ⟨hclosed, -⟩ | ⟨-, heq⟩ | ⟨-, heq⟩
    · rw [show r.accepting = false from hclosed] at hacc
      cases hacc
    · simp only [heq]
      refine ⟨⟨haccounted, (hholds.push_resolved hacc outcome _).frame .., ?_⟩,
        hremoved.trans (.push hacc rfl rfl rfl)⟩
      intro hclosed
      rw [show r.accepting = false from hclosed] at hacc
      cases hacc
    · simp only [heq]
      have hover := overflow_spec d [.event (.permissionResolved id outcome (deliveryOf sent.isOk))]
        (r := { r with pending := r.pending.filter (·.1 ≠ id) }.answer p.responder outcome) true
        haccounted (((hholds.full hacc _).drop rfl).frame ..)
      exact ⟨hover.1, hremoved.trans hover.2.2⟩

/-! ## How many requests came -/

theorem requests_trySend {m : Delivery U T} {r' : Route U T} (h : r.trySend m = some r') :
    r'.requests = r.requests := by
  unfold trySend at h
  split at h
  · obtain rfl := Option.some.inj h
    rfl
  · cases h

theorem requests_cancelPermission (sent : Bool) :
    (cancelPermission sent id p r).requests = r.requests := by
  unfold cancelPermission
  dsimp only
  split
  · split
    · next heq => exact (requests_trySend heq).trans rfl
    · rfl
  · rfl

theorem requests_cancelPermissions (d : Drain) : (r.cancelPermissions d).requests = r.requests := by
  have hdrain : ∀ (entries : List (PermissionId × PendingPermission)) (r : Route U T),
      (entries.foldl (fun r (id, p) => cancelPermission (d.sent id) id p r) r).requests =
        r.requests := by
    intro entries
    induction entries with
    | nil => exact fun r => rfl
    | cons entry entries ih => exact fun r => (ih _).trans (requests_cancelPermission _)
  exact hdrain _ _

theorem requests_close (d : Drain) : (r.close d).requests = r.requests :=
  requests_cancelPermissions d

theorem requests_deliver (d : Drain) (m : Delivery U T) :
    (deliver d m r).2.requests = r.requests := by
  rcases deliver_cases d m r with ⟨-, heq⟩ | ⟨-, heq⟩ | ⟨-, heq⟩
  · rw [heq]
  · rw [heq]
    rfl
  · rw [heq]
    exact requests_close d

theorem requests_complete (d : Drain) (result : Except String StopReason) :
    (complete d result r).2.requests = r.requests := by
  have hdeliver : (deliver d (.finished result) (cancelPermissions d r)).2.requests = r.requests :=
    (requests_deliver d _).trans (requests_cancelPermissions d)
  rw [complete]
  split
  · next heq =>
    rw [heq] at hdeliver
    exact hdeliver
  · next heq =>
    rw [heq] at hdeliver
    exact (requests_close d).trans hdeliver

theorem requests_respond (d : Drain) (option : Option String) (sent : Except String Unit) :
    (respond d id option sent r).2.requests = r.requests := by
  unfold respond
  cases r.pending.lookup id with
  | none => rfl
  | some p =>
    dsimp only
    split
    · rfl
    · generalize hr : ({ r with pending := r.pending.filter (·.1 ≠ id) } : Route U T).answer
        p.responder (outcomeOf option) = answered
      have hanswered : answered.requests = r.requests := by
        rw [← hr]
        rfl
      have hdeliver := (requests_deliver (r := answered) d
        (.event (.permissionResolved id (outcomeOf option) (deliveryOf sent.isOk)))).trans hanswered
      split
      · next heq =>
        rw [heq] at hdeliver
        exact hdeliver
      · next heq =>
        rw [heq] at hdeliver
        exact hdeliver

/-- One more came, whatever becomes of it. -/
theorem requests_routePermission (d : Drain) (found : Bool) (request : RequestPermissionRequest T)
    (reply : Except String Unit) :
    (routePermission d found request reply r).2.requests = r.requests + 1 := by
  rw [routePermission]
  split
  · rfl
  split
  · exact requests_close d
  · have hdeliver := requests_deliver (r := r.enlist (request.options.map (·.optionId))) d
      (.event (.permission ⟨r.runId, r.nextPermission⟩ request))
    dsimp only
    split
    · next heq =>
      rw [heq] at hdeliver
      exact hdeliver
    · next heq =>
      rw [heq] at hdeliver
      split
      · exact (requests_cancelPermissions d).trans hdeliver
      · exact hdeliver

end Route

end Acp

end AgentBridge
