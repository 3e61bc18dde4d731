import AgentBridge.Client.Events

/-!
# No observer misses an event unnoticed

What a consumer receives are the events of its queue in their order, from the first one on.  When it
misses one of them, every later promise is rejected, unless it closed the queue itself.
-/

namespace AgentBridge

open Reasoning

namespace Client

namespace Events

variable {V E : Type} {q : Events V E} {given : List V} {closed : Bool}

/-! ## The history of a queue -/

def pushed : List (Step V E) → List V
  | [] => []
  | .push value _ :: steps => value :: pushed steps
  | _ :: steps => pushed steps

/-- What a step offers to a queue that has not ended. -/
def offer (q : Events V E) : Step V E → List V
  | .push value _ => if q.done then [] else [value]
  | _ => []

/-- The values that are pushed before the queue ends. -/
def offered (q : Events V E) : List (Step V E) → List V
  | [] => []
  | step :: steps => q.offer step ++ (q.step step).offered steps

/-- The consumer closes a queue that has not failed. -/
def closesBy (q : Events V E) : Step V E → Bool
  | .close => q.error.isNone
  | _ => false

def closes (q : Events V E) : List (Step V E) → Bool
  | [] => false
  | step :: steps => q.closesBy step || (q.step step).closes steps

def nexts (steps : List (Step V E)) : Nat :=
  steps.countP fun | .next => true | _ => false

/-- The queue after it was offered these values, and closed by its consumer or not. -/
structure Sound (given : List V) (closed : Bool) (q : Events V E) : Prop where
  bytes : q.bytes = (q.items.map (·.2)).sum
  events : q.items.length ≤ q.maxEvents
  room : q.bytes ≤ q.maxBytes
  waiting : q.waiter = true → q.items = [] ∧ q.done = false
  failed : ∀ e, q.error = some e → q.items = [] ∧ q.done = true
  running : q.done = false → q.error = none ∧ closed = false
  inOrder : q.received ++ q.items.map (·.1) <+: given
  whole : q.error = none → closed = false → q.received ++ q.items.map (·.1) = given
  finished : IterResult.finished ∈ q.results → q.done = true ∧ q.error = none ∧ q.items = []

theorem received_append (q : Events V E) (results : List (IterResult V E)) :
    ({ q with results := q.results ++ results } : Events V E).received =
      q.received ++ results.filterMap IterResult.value? :=
  List.filterMap_append

theorem new_sound {options : SubscriptionOptions} (h : Events.new options = some q) :
    q.Sound [] false := by
  simp only [Events.new, Option.bind_eq_bind, Option.bind_eq_some_iff] at h
  obtain ⟨maxEvents, -, maxBytes, -, h⟩ := h
  rw [← Option.some.inj h]
  exact ⟨rfl, Nat.zero_le _, Nat.zero_le _, nofun, nofun, fun _ => ⟨rfl, rfl⟩, List.prefix_rfl,
    fun _ _ => rfl, nofun⟩

/-! ## One step -/

theorem ended_of_done (h : q.done = true) (error : Option (EventsError E)) :
    q.ended error = q := if_pos h

/-- What the waiting promise comes to when the queue ends. -/
def settled (q : Events V E) (result : IterResult V E) : List (IterResult V E) :=
  if q.waiter then [result] else []

theorem ended_none (h : q.done = false) :
    q.ended none =
      { q with done := true, error := none, waiter := false,
               results := q.results ++ q.settled .finished } := by
  unfold Events.ended settled
  rw [h]
  rfl

theorem ended_some (h : q.done = false) (e : EventsError E) :
    q.ended (some e) =
      { q with items := [], bytes := 0, done := true, error := some e, waiter := false,
               results := q.results ++ q.settled (.rejected e) } := by
  unfold Events.ended settled
  rw [h]
  rfl

theorem values_settled (q : Events V E) {result : IterResult V E} (h : result.value? = none) :
    (q.results ++ q.settled result).filterMap IterResult.value? = q.received := by
  rw [List.filterMap_append]
  cases hwaiter : q.waiter <;> simp [settled, hwaiter, h, Events.received]

theorem mem_settled {result other : IterResult V E} (h : other ∈ q.settled result) :
    other = result ∧ q.waiter = true := by
  cases hwaiter : q.waiter <;> simp_all [settled]

/-- A queue that has not ended yielded no end. -/
theorem Sound.not_finished (h : q.Sound given closed) (hdone : q.done = false) :
    IterResult.finished ∉ q.results := by
  intro hmem
  rw [(h.finished hmem).1] at hdone
  cases hdone

/-- Ending a queue yields no value. -/
theorem Sound.ended (h : q.Sound given closed) (error : Option (EventsError E)) :
    (q.ended error).Sound given closed := by
  cases hdone : q.done with
  | true =>
    rw [ended_of_done hdone]
    exact h
  | false =>
    obtain ⟨hnone, hopen⟩ := h.running hdone
    have hwhole := h.whole hnone hopen
    cases error with
    | none =>
      have hvalues : (q.results ++ q.settled .finished).filterMap IterResult.value? = q.received :=
        values_settled q rfl
      rw [ended_none hdone]
      refine ⟨h.bytes, h.events, h.room, nofun, nofun, nofun, ?_, fun _ _ => ?_, fun hmem => ?_⟩
      · show List.filterMap _ _ ++ _ <+: _
        rw [hvalues]
        exact h.inOrder
      · show List.filterMap _ _ ++ _ = _
        rw [hvalues]
        exact hwhole
      · rcases List.mem_append.mp hmem with hmem | hmem
        · exact absurd hmem (h.not_finished hdone)
        · exact ⟨rfl, rfl, (h.waiting (mem_settled hmem).2).1⟩
    | some e =>
      have hvalues : (q.results ++ q.settled (.rejected e)).filterMap IterResult.value? =
          q.received := values_settled q rfl
      rw [ended_some hdone]
      refine ⟨rfl, Nat.zero_le _, Nat.zero_le _, nofun, fun _ _ => ⟨rfl, rfl⟩, nofun, ?_, nofun,
        fun hmem => ?_⟩
      · show List.filterMap _ _ ++ [] <+: _
        rw [hvalues, List.append_nil, ← hwhole]
        exact List.prefix_append _ _
      · rcases List.mem_append.mp hmem with hmem | hmem
        · exact absurd hmem (h.not_finished hdone)
        · exact nomatch (mem_settled hmem).1

theorem push_waiting (hdone : q.done = false) (hwaiter : q.waiter = true) (value : V) (bytes : Nat) :
    q.push value bytes = { q with waiter := false, results := q.results ++ [.value value] } := by
  unfold Events.push
  rw [hdone, hwaiter]
  rfl

theorem push_idle (hdone : q.done = false) (hwaiter : q.waiter = false) (value : V) (bytes : Nat) :
    q.push value bytes =
      if q.items.length ≥ q.maxEvents ∨ q.bytes + bytes > q.maxBytes then q.ended (some .lagged)
      else { q with items := q.items ++ [(value, bytes)], bytes := q.bytes + bytes } := by
  unfold Events.push
  rw [hdone, hwaiter]
  rfl

theorem Sound.push (h : q.Sound given closed) (value : V) (bytes : Nat) :
    (q.push value bytes).Sound (given ++ q.offer (.push value bytes : Step V E)) closed := by
  cases hdone : q.done with
  | true =>
    have hsame : q.push value bytes = q := if_pos hdone
    have hoffer : q.offer (.push value bytes : Step V E) = [] := if_pos hdone
    rw [hsame, hoffer, List.append_nil]
    exact h
  | false =>
    obtain ⟨hnone, hopen⟩ := h.running hdone
    have hwhole := h.whole hnone hopen
    have hoffer : q.offer (.push value bytes : Step V E) = [value] := by simp [offer, hdone]
    rw [hoffer]
    cases hwaiter : q.waiter with
    | true =>
      have hitems := (h.waiting hwaiter).1
      have hreceived := received_append q [.value value]
      rw [hitems, List.map_nil, List.append_nil] at hwhole
      have hnow : q.received ++ [value] ++ q.items.map (·.1) = given ++ [value] := by
        rw [hitems, List.map_nil, List.append_nil, hwhole]
      have hvalues : ({ q with results := q.results ++ [.value value] } : Events V E).received ++
          q.items.map (·.1) = given ++ [value] := by
        rw [hreceived]
        exact hnow
      rw [push_waiting hdone hwaiter]
      refine ⟨h.bytes, h.events, h.room, nofun, h.failed, h.running, ?_, fun _ _ => hvalues, ?_⟩
      · exact ⟨[], (List.append_nil _).trans hvalues⟩
      · intro hmem
        exact h.finished (by simpa using hmem)
    | false =>
      rw [push_idle hdone hwaiter]
      by_cases hfull : q.items.length ≥ q.maxEvents ∨ q.bytes + bytes > q.maxBytes
      · -- The queue fails without this value.
        have hended := h.ended (some .lagged)
        rw [if_pos hfull]
        rw [ended_some hdone] at hended ⊢
        exact ⟨hended.bytes, hended.events, hended.room, hended.waiting, hended.failed, nofun,
          hended.inOrder.trans (List.prefix_append _ _), nofun, hended.finished⟩
      · have hnow : q.received ++ (q.items ++ [(value, bytes)]).map (·.1) = given ++ [value] := by
          rw [List.map_append, ← List.append_assoc, hwhole]
          rfl
        have hbytes : q.bytes + bytes = ((q.items ++ [(value, bytes)]).map (·.2)).sum := by
          simp [h.bytes]
        rw [if_neg hfull]
        refine ⟨hbytes, ?_, ?_, ?_, ?_, h.running, ⟨[], (List.append_nil _).trans hnow⟩,
          fun _ _ => hnow, ?_⟩
        · show (q.items ++ [(value, bytes)]).length ≤ q.maxEvents
          rw [List.length_append, List.length_singleton]
          omega
        · show q.bytes + bytes ≤ q.maxBytes
          omega
        · intro hw
          exact nomatch hwaiter.symm.trans hw
        · intro e he
          exact nomatch hnone.symm.trans he
        · intro hmem
          exact absurd hmem (h.not_finished hdone)

theorem Sound.close (h : q.Sound given closed) :
    q.close.Sound given (closed || q.error.isNone) := by
  have hfront : q.received ++ [] <+: given := by
    rw [List.append_nil]
    exact (List.prefix_append _ _).trans h.inOrder
  cases hdone : q.done with
  | true =>
    have hended : q.close = { q with items := [], bytes := 0 } :=
      ended_of_done (q := { q with items := [], bytes := 0 }) hdone none
    rw [hended]
    refine ⟨rfl, Nat.zero_le _, Nat.zero_le _, fun hw => ⟨rfl, (h.waiting hw).2⟩,
      fun e he => ⟨rfl, hdone⟩, fun hd => ?_, hfront, fun hn hc => ?_, fun hmem => ?_⟩
    · exact nomatch hdone.symm.trans hd
    · have hn : q.error = none := hn
      simp [hn] at hc
    · exact ⟨hdone, (h.finished hmem).2.1, rfl⟩
  | false =>
    obtain ⟨hnone, -⟩ := h.running hdone
    have hended : q.close =
        { q with items := [], bytes := 0, done := true, error := none, waiter := false,
                 results := q.results ++ q.settled .finished } :=
      ended_none (q := { q with items := [], bytes := 0 }) hdone
    rw [hended, hnone, Option.isNone_none, Bool.or_true]
    refine ⟨rfl, Nat.zero_le _, Nat.zero_le _, nofun, nofun, nofun, ?_, nofun,
      fun _ => ⟨rfl, rfl, rfl⟩⟩
    show List.filterMap _ _ ++ [] <+: _
    rw [values_settled q rfl]
    exact hfront

/-- A promise that settles with no value. -/
theorem Sound.settle (h : q.Sound given closed) {result : IterResult V E}
    (hvalue : result.value? = none)
    (hresult : result = .finished → q.done = true ∧ q.error = none ∧ q.items = []) :
    ({ q with results := q.results ++ [result] } : Events V E).Sound given closed := by
  have hreceived : ({ q with results := q.results ++ [result] } : Events V E).received =
      q.received := by
    rw [received_append]
    simp [hvalue]
  refine ⟨h.bytes, h.events, h.room, h.waiting, h.failed, h.running, ?_, fun hn hc => ?_, ?_⟩
  · rw [hreceived]
    exact h.inOrder
  · rw [hreceived]
    exact h.whole hn hc
  · intro hmem
    rcases List.mem_append.mp hmem with hmem | hmem
    · exact h.finished hmem
    · exact hresult (List.mem_singleton.mp hmem).symm

theorem Sound.next (h : q.Sound given closed) : q.next.Sound given closed := by
  unfold Events.next
  cases herror : q.error with
  | some e =>
    simp only
    rw [← herror]
    exact h.settle rfl nofun
  | none =>
    cases hitems : q.items with
    | cons item items =>
      have hreceived := received_append q [.value item.1]
      have hnow : (q.received ++ [item.1]) ++ items.map (·.1) = q.received ++ q.items.map (·.1) := by
        rw [hitems, List.append_assoc]
        rfl
      have hbytes := h.bytes
      have hevents := h.events
      have hroom := h.room
      simp only [hitems, List.map_cons, List.sum_cons, List.length_cons] at hbytes hevents
      refine ⟨?_, ?_, ?_, ?_, nofun, ?_, ?_, ?_, ?_⟩
      · show q.bytes - item.2 = (items.map (·.2)).sum
        omega
      · show items.length ≤ q.maxEvents
        omega
      · show q.bytes - item.2 ≤ q.maxBytes
        omega
      · intro hw
        have hempty := (h.waiting hw).1
        rw [hitems] at hempty
        cases hempty
      · intro hd
        exact ⟨rfl, (h.running hd).2⟩
      · show List.filterMap _ (q.results ++ [.value item.1]) ++ items.map (·.1) <+: _
        rw [List.filterMap_append]
        show q.received ++ [item.1] ++ _ <+: _
        rw [hnow]
        exact h.inOrder
      · intro _ hc
        show List.filterMap _ (q.results ++ [.value item.1]) ++ items.map (·.1) = _
        rw [List.filterMap_append]
        show q.received ++ [item.1] ++ _ = _
        rw [hnow]
        exact h.whole herror hc
      · intro hmem
        have hfinished := h.finished (by simpa using hmem)
        rw [hitems] at hfinished
        cases hfinished.2.2
    | nil =>
      simp only
      rw [← herror, ← hitems]
      cases hdone : q.done with
      | true =>
        rw [if_pos rfl, ← hdone]
        exact h.settle rfl fun _ => ⟨hdone, herror, hitems⟩
      | false =>
        rw [if_neg nofun]
        cases hwaiter : q.waiter with
        | true =>
          rw [if_pos rfl, ← hdone, ← hwaiter]
          exact h.settle rfl nofun
        | false =>
          rw [if_neg nofun, ← hdone]
          refine ⟨h.bytes, h.events, h.room, fun _ => ⟨hitems, hdone⟩, h.failed, h.running,
            h.inOrder, h.whole, fun hmem => ?_⟩
          exact absurd hmem (h.not_finished hdone)

/-! ## A whole run -/

@[simp]
theorem run_append (q : Events V E) (steps more : List (Step V E)) :
    q.run (steps ++ more) = (q.run steps).run more := List.foldl_append

theorem Sound.step (h : q.Sound given closed) (step : Step V E) :
    (q.step step).Sound (given ++ q.offer step) (closed || q.closesBy step) := by
  cases step with
  | push value bytes =>
    rw [show q.closesBy (.push value bytes : Step V E) = false from rfl, Bool.or_false]
    exact h.push value bytes
  | ended error =>
    rw [show q.offer (.ended error : Step V E) = [] from rfl, List.append_nil,
      show q.closesBy (.ended error : Step V E) = false from rfl, Bool.or_false]
    exact h.ended error
  | close =>
    rw [show q.offer (.close : Step V E) = [] from rfl, List.append_nil]
    exact h.close
  | next =>
    rw [show q.offer (.next : Step V E) = [] from rfl, List.append_nil,
      show q.closesBy (.next : Step V E) = false from rfl, Bool.or_false]
    exact h.next

theorem Sound.run (h : q.Sound given closed) (steps : List (Step V E)) :
    (q.run steps).Sound (given ++ q.offered steps) (closed || q.closes steps) := by
  induction steps generalizing q given closed with
  | nil =>
    rw [show q.offered ([] : List (Step V E)) = [] from rfl, List.append_nil,
      show q.closes ([] : List (Step V E)) = false from rfl, Bool.or_false]
    exact h
  | cons step steps ih =>
    have hrun := ih (h.step step)
    rw [List.append_assoc, Bool.or_assoc] at hrun
    exact hrun

theorem offered_append (q : Events V E) (steps more : List (Step V E)) :
    q.offered (steps ++ more) = q.offered steps ++ (q.run steps).offered more := by
  induction steps generalizing q with
  | nil => rfl
  | cons step steps ih =>
    rw [List.cons_append, offered, offered, ih, List.append_assoc]
    rfl

theorem closes_append (q : Events V E) (steps more : List (Step V E)) :
    q.closes (steps ++ more) = (q.closes steps || (q.run steps).closes more) := by
  induction steps generalizing q with
  | nil => rfl
  | cons step steps ih =>
    rw [List.cons_append, closes, closes, ih, Bool.or_assoc]
    rfl

theorem ended_limits (q : Events V E) (error : Option (EventsError E)) :
    (q.ended error).maxEvents = q.maxEvents ∧ (q.ended error).maxBytes = q.maxBytes := by
  unfold Events.ended
  split <;> exact ⟨rfl, rfl⟩

theorem step_limits (q : Events V E) (step : Step V E) :
    (q.step step).maxEvents = q.maxEvents ∧ (q.step step).maxBytes = q.maxBytes := by
  cases step with
  | push value bytes =>
    show (q.push value bytes).maxEvents = _ ∧ (q.push value bytes).maxBytes = _
    unfold Events.push
    split
    · exact ⟨rfl, rfl⟩
    · split
      · exact ⟨rfl, rfl⟩
      · split
        · exact ended_limits q _
        · exact ⟨rfl, rfl⟩
  | ended error => exact ended_limits q error
  | close => exact ended_limits _ none
  | next =>
    show q.next.maxEvents = _ ∧ q.next.maxBytes = _
    unfold Events.next
    repeat' split
    all_goals exact ⟨rfl, rfl⟩

theorem run_limits (q : Events V E) (steps : List (Step V E)) :
    (q.run steps).maxEvents = q.maxEvents ∧ (q.run steps).maxBytes = q.maxBytes := by
  induction steps generalizing q with
  | nil => exact ⟨rfl, rfl⟩
  | cons step steps ih =>
    exact ⟨(ih _).1.trans (step_limits q step).1, (ih _).2.trans (step_limits q step).2⟩

theorem ended_done (q : Events V E) (error : Option (EventsError E)) :
    (q.ended error).done = true := by
  cases hdone : q.done with
  | true => rw [ended_of_done hdone, hdone]
  | false => simp [Events.ended, hdone]

@[simp]
theorem next_done (q : Events V E) : q.next.done = q.done := by
  unfold Events.next
  repeat' split
  all_goals rfl

/-- A queue that has ended keeps how it did. -/
theorem step_of_done (hdone : q.done = true) (step : Step V E) :
    (q.step step).done = true ∧ (q.step step).error = q.error := by
  cases step with
  | push value bytes =>
    rw [show q.step (.push value bytes) = q from if_pos hdone]
    exact ⟨hdone, rfl⟩
  | ended error =>
    rw [show q.step (.ended error) = q from if_pos hdone]
    exact ⟨hdone, rfl⟩
  | close =>
    rw [show q.step .close = { q with items := [], bytes := 0 } from if_pos hdone]
    exact ⟨hdone, rfl⟩
  | next =>
    show q.next.done = true ∧ q.next.error = q.error
    unfold Events.next
    cases herror : q.error with
    | some e => exact ⟨hdone, rfl⟩
    | none =>
      cases q.items with
      | cons item items => exact ⟨hdone, rfl⟩
      | nil =>
        rw [hdone]
        exact ⟨rfl, rfl⟩

theorem run_of_done (hdone : q.done = true) (steps : List (Step V E)) :
    (q.run steps).done = true ∧ (q.run steps).error = q.error := by
  induction steps generalizing q with
  | nil => exact ⟨hdone, rfl⟩
  | cons step steps ih =>
    obtain ⟨hdone', herror⟩ := step_of_done hdone step
    exact ⟨(ih hdone').1, (ih hdone').2.trans herror⟩

theorem offered_of_done (hdone : q.done = true) (steps : List (Step V E)) :
    q.offered steps = [] := by
  induction steps generalizing q with
  | nil => rfl
  | cons step steps ih =>
    have hoffer : q.offer step = [] := by
      cases step <;> simp [offer, hdone]
    rw [offered, hoffer, ih (step_of_done hdone step).1]
    rfl

theorem offered_prefix_pushed (q : Events V E) (steps : List (Step V E)) :
    q.offered steps <+: pushed steps := by
  induction steps generalizing q with
  | nil => exact List.prefix_rfl
  | cons step steps ih =>
    cases hdone : q.done with
    | true =>
      rw [offered_of_done hdone]
      exact List.nil_prefix
    | false =>
      cases step with
      | push value bytes =>
        have hoffer : q.offer (.push value bytes : Step V E) = [value] := by simp [offer, hdone]
        rw [offered, hoffer]
        exact List.prefix_append_right_inj [value] |>.mpr (ih _)
      | ended error => exact ih _
      | close => exact ih _
      | next => exact ih _

/-- From a failure on, every promise is rejected with it. -/
theorem run_of_error (hdone : q.done = true) {e : EventsError E} (herror : q.error = some e)
    (steps : List (Step V E)) :
    (q.run steps).results = q.results ++ List.replicate (nexts steps) (.rejected e) := by
  induction steps generalizing q with
  | nil => exact (List.append_nil _).symm
  | cons step steps ih =>
    have hnow := step_of_done hdone step
    have hrun := ih hnow.1 (hnow.2.trans herror)
    have hstep : (q.step step).results ++ List.replicate (nexts steps) (.rejected e) =
        q.results ++ List.replicate (nexts (step :: steps)) (.rejected e) := by
      cases step with
      | push value bytes =>
        rw [show q.step (.push value bytes) = q from if_pos hdone]
        rfl
      | ended error =>
        rw [show q.step (.ended error) = q from if_pos hdone]
        rfl
      | close =>
        rw [show q.step .close = { q with items := [], bytes := 0 } from if_pos hdone]
        rfl
      | next =>
        have hnext : (q.step .next).results = q.results ++ [.rejected e] := by
          show q.next.results = _
          unfold Events.next
          rw [herror]
        have hcount : nexts ((.next : Step V E) :: steps) = nexts steps + 1 := by
          simp [nexts]
        rw [hnext, hcount, List.append_assoc, List.replicate_succ]
        rfl
    exact hrun.trans hstep

/-- What a consumer can tell of the events that were pushed. -/
structure Gapless (q : Events V E) (steps : List (Step V E)) : Prop where
  inOrder : (q.run steps).received <+: pushed steps
  bounded : (q.run steps).items.length ≤ q.maxEvents ∧ (q.run steps).bytes ≤ q.maxBytes ∧
    (q.run steps).bytes = ((q.run steps).items.map (·.2)).sum
  whole : IterResult.finished ∈ (q.run steps).results → q.closes steps = false →
    (q.run steps).received = q.offered steps
  noticed : q.closes steps = false →
    (q.run steps).received ++ (q.run steps).items.map (·.1) ≠ q.offered steps →
      ∃ e, ∀ more, ((q.run steps).run more).results =
        (q.run steps).results ++ List.replicate (nexts more) (.rejected e)

theorem new_gapless {options : SubscriptionOptions} (hnew : Events.new options = some q)
    (steps : List (Step V E)) : q.Gapless steps := by
  have hsound := (new_sound hnew).run steps
  rw [List.nil_append, Bool.false_or] at hsound
  obtain ⟨hevents, hbytes⟩ := run_limits q steps
  have hreceived : (q.run steps).received <+: q.offered steps :=
    (List.prefix_append _ _).trans hsound.inOrder
  refine ⟨hreceived.trans (offered_prefix_pushed q steps), ⟨?_, ?_, hsound.bytes⟩,
    fun hfinished hopen => ?_, fun hopen hgap => ?_⟩
  · rw [← hevents]
    exact hsound.events
  · rw [← hbytes]
    exact hsound.room
  · obtain ⟨-, hnone, hitems⟩ := hsound.finished hfinished
    have hwhole := hsound.whole hnone hopen
    rwa [hitems, List.map_nil, List.append_nil] at hwhole
  · cases herror : (q.run steps).error with
    | none => exact absurd (hsound.whole herror hopen) hgap
    | some e => exact ⟨e, run_of_error (hsound.failed e herror).2 herror⟩

/-- A consumer that closes its queue does not learn of the event that this drops. -/
theorem closing_drops_silently :
    ∃ q : Events Nat Unit, Events.new ⟨none, none⟩ = some q ∧
      Events.pushed [Step.push 1 1, .close, .next (V := Nat) (E := Unit)] = [1] ∧
      (q.run [.push 1 1, .close, .next]).received = [] ∧
      (q.run [.push 1 1, .close, .next]).results = [.finished] :=
  ⟨_, rfl, rfl, rfl, rfl⟩

end Events

end Client

end AgentBridge
