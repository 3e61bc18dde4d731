import AgentBridge.Acp.Lifecycle

/-!
# Permissions of a run

Over every run of the events that a route can see, each permission request is answered once, and the
consumer either gets everything up to the end of the run or an error.
-/

namespace AgentBridge

open Reasoning

namespace Acp

variable {U T : Type}

/-- The turn that a dispatch begins. -/
def Turn.dispatched (closed : Bool) (spec : RunSpec) (input : String) : Turn U T :=
  ⟨⟨false, false, false⟩, closed, AcpRun.start spec input⟩

theorem Turn.requests_dispatched (closed : Bool) (spec : RunSpec) (input : String) :
    (Turn.dispatched closed spec input : Turn U T).acp.route.requests = 0 := by
  rw [Turn.dispatched, AcpRun.start, Turn.apply_route]
  rfl

namespace AcpRun

/-- How a run deals with the permissions that it is asked for. -/
structure Routed (a : AcpRun U T) : Prop where
  /-- A request was answered once, or nobody did yet and it waits. -/
  answered : ∀ n < a.route.requests, (a.route.responses.map Prod.fst).count n +
    (a.route.pending.map (·.2.responder)).count n = 1
  closed : a.settled = true ∨ a.Over → a.route.accepting = false
  /-- None waits once the route is closed, so that each was answered once. -/
  drained : a.route.accepting = false → a.route.pending = [] ∧
    ∀ n < a.route.requests, (a.route.responses.map Prod.fst).count n = 1
  once : ∀ id, (asked a.route.queued).count id ≤ 1 ∧ (decided a.route.queued).count id ≤ 1
  after : ∀ front id outcome delivery back,
    a.route.queued = front ++ .event (.permissionResolved id outcome delivery) :: back →
      id ∈ asked front
  last : ∀ front m back, a.route.queued = front ++ m :: back → m.isFinished = true →
    back = [] ∧ (∀ x ∈ front, x.isFinished = false) ∧ ∀ id ∈ asked front, id ∈ decided front
  /-- Whoever got the end got everything before it, in order. -/
  complete : ∀ reason, .ok (some (.finished reason)) ∈ a.returned → a.route.overflow = false ∧
    ∃ k, a.returned = a.route.offered.map Delivery.result ++ List.replicate k (.ok none)
  /-- Nothing is lost but with an overflow, after which no end comes. -/
  kept : a.route.offered ≠ a.route.queued →
    a.route.overflow = true ∧ ∀ m ∈ a.route.queued, m.isFinished = false
  ended : a.settled = true → (∃ reason, .ok (some (.finished reason)) ∈ a.returned) ∨
    ∃ e, .error e ∈ a.returned

variable {a : AcpRun U T}

theorem Sound.drained (h : a.Sound) (hclosed : a.route.accepting = false) {n : Nat}
    (hn : n < a.route.requests) : (a.route.responses.map Prod.fst).count n = 1 := by
  have hcount := h.route.accounted n
  rw [h.route.idle hclosed, if_pos hn] at hcount
  exact hcount

theorem Sound.after (h : a.Sound) {front back : List (Delivery U T)} {id : PermissionId}
    {outcome : PermissionOutcome} {delivery : DecisionDelivery}
    (hsplit : a.route.queued = front ++ .event (.permissionResolved id outcome delivery) :: back) :
    id ∈ asked front := by
  have hfront : front ++ [.event (.permissionResolved id outcome delivery)] <+: a.route.queued := by
    rw [hsplit]
    exact ⟨back, by simp⟩
  have hcount := (h.route.holds.ordered _ hfront id).1
  have hasked : asked (front ++ [.event (.permissionResolved id outcome delivery)]) = asked front :=
    (asked_append _).trans (List.append_nil _)
  rw [hasked, decided_append, List.count_append] at hcount
  have hone : [id].count id = 1 := List.count_singleton_self
  refine List.count_pos_iff.mp (Nat.lt_of_lt_of_le ?_ hcount)
  rw [show (Delivery.event (.permissionResolved id outcome delivery) : Delivery U T).resolvedId.toList =
    [id] from rfl, hone]
  omega

/-- The end that was taken is the last that was queued. -/
theorem Sound.all_taken (h : a.Sound) {m : Delivery U T}
    (hm : m ∈ a.route.queued.take a.route.taken) (hfin : m.isFinished = true) :
    a.route.queued.take a.route.taken = a.route.queued := by
  obtain ⟨before, later, hsplit⟩ := List.append_of_mem hm
  have hqueued : a.route.queued = before ++ m :: (later ++ a.route.queued.drop a.route.taken) := by
    rw [← List.cons_append, ← List.append_assoc, ← hsplit, List.take_append_drop]
  have hnone := (h.route.holds.last _ _ _ hqueued hfin).1
  rw [hsplit, hqueued, hnone, (List.append_eq_nil_iff.mp hnone).1]

theorem Sound.complete (h : a.Sound) {reason : StopReason}
    (hreason : .ok (some (.finished reason)) ∈ a.returned) : a.route.overflow = false ∧
      ∃ k, a.returned = a.route.offered.map Delivery.result ++ List.replicate k (.ok none) := by
  obtain ⟨made, hmade, hkinds, -⟩ := h.returned
  have htaken : ∃ m ∈ a.route.queued.take a.route.taken, m.isFinished = true := by
    rw [hmade] at hreason
    rcases List.mem_append.mp hreason with htook | hcall
    · obtain ⟨m, hm, hresult⟩ := List.mem_map.mp htook
      refine ⟨m, hm, ?_⟩
      cases m with
      | event shown =>
        -- an end is only ever queued as such, not as an event
        rw [Option.some.inj (Except.ok.inj hresult)] at hm
        exact absurd (List.mem_of_mem_take hm) (h.route.holds.plain reason)
      | finished result => rfl
    · rcases hkinds _ hcall with hnone | ⟨⟨e, he⟩, -⟩
      · cases hnone
      · cases he
  obtain ⟨m, hm, hfin⟩ := htaken
  have hover := (h.route.holds.stopped m (List.mem_of_mem_take hm) hfin).2
  refine ⟨hover, made.length, ?_⟩
  have hnone : made = List.replicate made.length (.ok none) := by
    rw [List.eq_replicate_iff]
    refine ⟨rfl, fun x hx => ?_⟩
    rcases hkinds x hx with hx | ⟨-, hopen⟩
    · exact hx
    · rw [hopen m hm] at hfin
      cases hfin
  rw [← hnone, hmade, h.all_taken hm hfin, h.route.holds.kept hover]

theorem Sound.routed (h : a.Sound) : a.Routed where
  answered n hn := by
    have hcount := h.route.accounted n
    rwa [if_pos hn] at hcount
  closed := h.shut
  drained hclosed := ⟨h.route.idle hclosed, fun n hn => h.drained hclosed hn⟩
  once id := by
    have hone := h.route.holds.ordered _ (List.prefix_refl _) id
    exact ⟨hone.2, hone.1.trans hone.2⟩
  after _ _ _ _ _ := h.after
  last front m back hsplit hfin := by
    obtain ⟨hback, hsame⟩ := h.route.holds.last front m back hsplit hfin
    refine ⟨hback, fun x hx => ?_, fun id hid => ?_⟩
    · by_contra hend
      obtain ⟨before, later, hfront⟩ := List.append_of_mem hx
      have hearly : a.route.queued = before ++ x :: (later ++ m :: back) := by
        rw [hsplit, hfront, List.append_assoc, List.cons_append]
      have hnone := (h.route.holds.last _ _ _ hearly (by simpa using hend)).1
      exact absurd (List.append_eq_nil_iff.mp hnone).2 (List.cons_ne_nil _ _)
    · rw [← List.count_pos_iff, ← hsame id]
      exact List.count_pos_iff.mpr hid
  complete _ := h.complete
  kept hlost := by
    have hover : a.route.overflow = true := by
      by_contra hover
      exact hlost (h.route.holds.kept (by simpa using hover))
    refine ⟨hover, fun m hm => ?_⟩
    by_contra hfin
    have hstop := (h.route.holds.stopped m hm (by simpa using hfin)).2
    rw [hover] at hstop
    cases hstop
  ended := h.failed

end AcpRun

/-- In every order of updates, permission requests, the response to the prompt, the end of the
connection, and the consumer's calls and drop; the requests are those that came. -/
theorem permissions_are_answered_once (closed : Bool) (spec : RunSpec) (input : String)
    (es : List (Turn.Event U T)) (t : Turn U T)
    (hrun : Next.run Turn.step es (Turn.dispatched closed spec input) = some t) :
    t.acp.Routed ∧ t.acp.route.requests = es.countP Turn.Event.isRequest :=
  ⟨(Turn.run_sound (AcpRun.start_sound spec input) hrun).routed,
    (Turn.requests_run hrun).trans (by rw [Turn.requests_dispatched, Nat.zero_add])⟩

/-! A run that asks for a permission, gets a decision, and is consumed to its end. -/

namespace Sample

def spec : RunSpec where
  id := ⟨"run-1", by decide⟩
  sessionId := ⟨"session-1", by decide⟩
  slotId := ⟨"slot-1", by decide⟩
  context := .default
  config := .default
  continuation := none

def inOrder : Drain := ⟨id, fun _ => .refl _, fun _ => true⟩

def allowing : List (Turn.Event Nat Unit) :=
  [.sent inOrder (.ok ()), .permission inOrder true ⟨(), [⟨"allow", "Allow", "allow_once"⟩]⟩ (.ok ()),
    .next inOrder, .receive, .respond inOrder ⟨spec.id, 0⟩ (some "allow") (.ok ()),
    .complete inOrder (.ok .endTurn), .next inOrder, .receive, .next inOrder, .receive,
    .drop inOrder (.ok ()), .release inOrder]

def allowed : Turn Nat Unit :=
  (Next.run Turn.step allowing (Turn.dispatched false spec "hello")).getD
    (Turn.dispatched false spec "hello")

end Sample

theorem sample_permission_is_answered :
    Sample.allowed.acp.Routed ∧ Sample.allowed.acp.route.requests = 1 :=
  permissions_are_answered_once false Sample.spec "hello" Sample.allowing Sample.allowed
    (Next.run_getD (by decide +kernel) _)

end Acp

end AgentBridge
