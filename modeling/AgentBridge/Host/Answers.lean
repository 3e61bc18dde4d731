import AgentBridge.Host.Main
import AgentBridge.Reasoning.Slots

/-!
# What becomes of a request

A request that the main loop has read is answered, or a thread still has it, or it was left in the
queue of a worker that closed it.  Every step keeps each request in one of these places.
-/

namespace AgentBridge

open Reasoning

namespace Host

variable {ν : Type}

/-! ## Where a request is -/

namespace Worker

/-- The request that the worker is at. -/
def hand (w : Worker ν) : List String :=
  match w.phase with
  | .connecting => [w.create]
  | .preparing => [w.create]
  | .configuring request _ => [request]
  | .releasing request _ => [request]
  | _ => []

def queued (w : Worker ν) : List String := w.queue.map (·.id)

/-- The requests that the worker is still to answer. -/
def waiting (w : Worker ν) : List String :=
  match w.phase with
  | .closed => []
  | _ => w.hand ++ w.queued

/-- The requests that nobody takes out of the queue any more. -/
def lost (w : Worker ν) : List String :=
  match w.phase with
  | .closed => w.queued
  | _ => []

end Worker

def Operation.waiting (operation : Operation) : List String :=
  if operation.stage = .answered then [] else [operation.request]

def Read.waiting (read : Read) : List String :=
  if read.answered then [] else [read.request]

/-- The request that an event brings. -/
def Event.requests : Event ν → List String
  | .receive (.request request) _ => [request.id]
  | _ => []

/-- The requests that the main loop has read. -/
def received (events : List (Event ν)) : List String := events.flatMap Event.requests

namespace Main

/-- How often a request was answered. -/
def answers (s : Main ν) (id : String) : Nat := (s.responses.map Response.id).count id

/-- The requests that a thread still has. -/
def waiting (s : Main ν) : List String :=
  s.workers.flatMap Worker.waiting ++ s.operations.flatMap Operation.waiting ++
    s.reads.flatMap Read.waiting

/-- The requests left in queues that are closed. -/
def lost (s : Main ν) : List String := s.workers.flatMap Worker.lost

def total (s : Main ν) (id : String) : Nat :=
  s.answers id + s.waiting.count id + s.lost.count id

end Main

/-! ## The worker -/

namespace Worker

theorem count_waiting_add_lost (w : Worker ν) (id : String) :
    w.waiting.count id + w.lost.count id = w.hand.count id + w.queued.count id := by
  cases hphase : w.phase with
  | closed => simp [waiting, lost, hand, hphase]
  | _ => simp [waiting, lost, hphase]

/-- A run was started with its context dispatched. -/
def Sound (w : Worker ν) : Prop :=
  ∀ run session, w.phase = .running run session → session.intoActive = .ok .active

theorem intoActive_started (session : Session) : session.started.intoActive = .ok .active := by
  cases session <;> rfl

/-- The command that a worker takes is answered or kept in hand; the queue and the soundness stay. -/
structure Served (request : Request ν) (w w' : Worker ν) (responses : List Response) : Prop where
  queue : w'.queue = w.queue
  hand : ∀ id, (responses.map Response.id).count id + w'.hand.count id = [request.id].count id
  sound : w'.Sound
  lost : w'.lost = []

theorem served_of_answered {w : Worker ν} {session : Session} (hphase : w.phase = .idle session)
    {request : Request ν} {response : Response} (hid : response.id = request.id) :
    Served request w w [response] where
  queue := rfl
  hand id := by simp [hand, hphase, hid]
  sound run session' hrun := by
    rw [hphase] at hrun
    cases hrun
  lost := by simp [lost, hphase]

theorem start_served {w : Worker ν} {session : Session} (hphase : w.phase = .idle session)
    (request : Request ν) (said : Said) :
    Served request w (w.start session request said).1 (w.start session request said).2 := by
  unfold start
  split
  · exact served_of_answered hphase rfl
  · split
    · exact served_of_answered hphase rfl
    · split
      · exact served_of_answered hphase rfl
      · split
        · exact served_of_answered hphase rfl
        · refine ⟨rfl, fun id => by simp [hand, Response.id], fun run session' hrun => ?_, rfl⟩
          obtain ⟨-, rfl⟩ := Phase.running.inj hrun
          exact intoActive_started session

theorem serve_served {w : Worker ν} {session : Session} (hphase : w.phase = .idle session)
    (request : Request ν) (said : Said) :
    Served request w (w.serve session request said).1 (w.serve session request said).2 := by
  unfold serve
  split
  · -- handoff
    split
    · exact served_of_answered hphase rfl
    · exact ⟨rfl, fun id => by simp [hand], (fun _ _ hrun => by cases hrun), rfl⟩
  · exact served_of_answered hphase rfl
  · exact ⟨rfl, fun id => by simp [hand], (fun _ _ hrun => by cases hrun), rfl⟩
  · exact ⟨rfl, fun id => by simp [hand], (fun _ _ hrun => by cases hrun), rfl⟩
  · exact start_served hphase request said
  · exact start_served hphase request said
  · exact served_of_answered hphase rfl

theorem respond_id (id code : String) (outcome : Except String Unit) :
    (respond id code outcome).id = id := by
  cases outcome <;> rfl

theorem interrupt_id (run : String) (request : Request ν) (said : Said) :
    (interrupt run request said).id = request.id := by
  unfold interrupt
  split
  · rfl
  · split
    · rfl
    · split
      · rfl
      · exact respond_id _ _ _
      · exact respond_id _ _ _
      · rfl

/-- The worker closes its queue in this step. -/
def closes : Phase → WorkerEvent → Bool
  | .connecting, .setup (.error _) => true
  | .preparing, .prepare (.error _) => true
  | .releasing _ _, .release => true
  | _, _ => false

/-- What a step of a worker does to the requests that it has. -/
structure Steps (event : WorkerEvent) (w w' : Worker ν) (responses : List Response) : Prop where
  conserved : ∀ id, (responses.map Response.id).count id + w'.hand.count id + w'.queued.count id =
    w.hand.count id + w.queued.count id
  sound : w'.Sound
  before : w.lost = []
  after : w'.lost = [] ↔ (closes w.phase event = true → w.queue = [])

/-- A step that takes no command and leaves the queue open. -/
theorem steps_of_phase {w : Worker ν} {event : WorkerEvent} {phase : Phase}
    {responses : List Response} (hbefore : w.lost = []) (hafter : { w with phase }.lost = [])
    (hcloses : closes w.phase event = false) (hsound : { w with phase }.Sound)
    (hhand : ∀ id, (responses.map Response.id).count id + { w with phase }.hand.count id =
      w.hand.count id) :
    Steps event w { w with phase } responses where
  conserved id := by
    have hid := hhand id
    show _ + _ + w.queued.count id = _
    omega
  sound := hsound
  before := hbefore
  after := iff_of_true hafter fun h => absurd h (ne_true_of_eq_false hcloses)

/-- A step that closes the queue answers the request in hand. -/
theorem steps_of_close {w : Worker ν} {event : WorkerEvent} {response : Response}
    (hbefore : w.lost = []) (hcloses : closes w.phase event = true) (hhand : w.hand = [response.id]) :
    Steps event w (w.close response).1 (w.close response).2 where
  conserved id := by
    show [response.id].count id + [].count id + w.queued.count id = _
    rw [hhand]
    simp
  sound _ _ hrun := by cases hrun
  before := hbefore
  after := by
    show w.queue.map (·.id) = [] ↔ _
    rw [List.map_eq_nil_iff]
    exact ⟨fun h _ => h, fun h => h hcloses⟩

/-- A step that takes a command. -/
theorem steps_of_served {w w' : Worker ν} {said : Said} {request : Request ν}
    {queue : List (Request ν)} {responses : List Response} (hqueue : w.queue = request :: queue)
    (hhand : w.hand = []) (hbefore : w.lost = []) (hcloses : closes w.phase (.take said) = false)
    (h : Served request { w with queue } w' responses) : Steps (.take said) w w' responses where
  conserved id := by
    have hid := h.hand id
    have hqueued : w'.queued = queue.map (·.id) := congrArg (List.map Request.id) h.queue
    have htaken : w.queued = [request.id] ++ queue.map (·.id) := congrArg (List.map Request.id) hqueue
    rw [hqueued, htaken, hhand, List.count_append]
    simp only [List.count_nil]
    omega
  sound := h.sound
  before := hbefore
  after := iff_of_true h.lost fun h => absurd h (ne_true_of_eq_false hcloses)

theorem lost_eq_nil {w : Worker ν} (h : w.phase ≠ .closed) : w.lost = [] := by
  unfold lost
  split
  · next hclosed => exact absurd hclosed h
  · rfl

theorem next_steps {w w' : Worker ν} {event : WorkerEvent} {responses : List Response}
    (hsound : w.Sound) (h : w.next event = some (w', responses)) : Steps event w w' responses := by
  unfold next at h
  split at h
  · next hphase =>
    obtain ⟨rfl, rfl⟩ := Prod.mk.inj (Option.some.inj h)
    exact steps_of_phase (lost_eq_nil (by simp [hphase])) rfl (by simp [hphase, closes])
      (fun _ _ hrun => by cases hrun) fun id => by simp [hand, hphase]
  · next hphase =>
    obtain ⟨rfl, rfl⟩ := Prod.mk.inj (Option.some.inj h)
    exact steps_of_close (lost_eq_nil (by simp [hphase])) (by simp [hphase, closes])
      (by simp [hand, hphase, Response.id])
  · next hphase =>
    obtain ⟨rfl, rfl⟩ := Prod.mk.inj (Option.some.inj h)
    exact steps_of_phase (lost_eq_nil (by simp [hphase])) rfl (by simp [hphase, closes])
      (fun _ _ hrun => by cases hrun) fun id => by simp [hand, hphase, Response.id]
  · next hphase =>
    obtain ⟨rfl, rfl⟩ := Prod.mk.inj (Option.some.inj h)
    exact steps_of_close (lost_eq_nil (by simp [hphase])) (by simp [hphase, closes])
      (by simp [hand, hphase, Response.id])
  · next session said hphase =>
    split at h
    · cases h
    · next request queue hqueue =>
      obtain ⟨rfl, rfl⟩ := Prod.mk.inj (Option.some.inj h)
      exact steps_of_served hqueue (by simp [hand, hphase]) (lost_eq_nil (by simp [hphase]))
        (by simp [hphase, closes]) (serve_served (w := { w with queue }) hphase request said)
  · next hphase =>
    obtain ⟨rfl, rfl⟩ := Prod.mk.inj (Option.some.inj h)
    exact steps_of_phase (lost_eq_nil (by simp [hphase])) rfl (by simp [hphase, closes])
      (fun _ _ hrun => by cases hrun) fun id => by simp [hand, hphase, respond_id]
  · next hphase =>
    obtain ⟨rfl, rfl⟩ := Prod.mk.inj (Option.some.inj h)
    exact steps_of_close (lost_eq_nil (by simp [hphase])) (by simp [hphase, closes])
      (by simp [hand, hphase, respond_id])
  · next run session said hphase =>
    split at h
    · cases h
    · next request queue hqueue =>
      obtain ⟨rfl, rfl⟩ := Prod.mk.inj (Option.some.inj h)
      refine steps_of_served hqueue (by simp [hand, hphase]) (lost_eq_nil (by simp [hphase]))
        (by simp [hphase, closes]) ⟨rfl, fun id => ?_, hsound, lost_eq_nil (by simp [hphase])⟩
      simp [hand, hphase, interrupt_id]
  · next run session hphase =>
    rw [hsound run session hphase] at h
    obtain ⟨rfl, rfl⟩ := Prod.mk.inj (Option.some.inj h)
    exact steps_of_phase (lost_eq_nil (by simp [hphase])) rfl (by simp [hphase, closes])
      (fun _ _ hrun => by cases hrun) fun id => by simp [hand, hphase]
  · cases h

end Worker

/-! ## Questions and reads -/

theorem Operation.next_conserved {operation operation' : Operation} {outcome : Except String Unit}
    {responses : List Response} (h : operation.next outcome = some (operation', responses))
    (id : String) : (responses.map Response.id).count id + operation'.waiting.count id =
      operation.waiting.count id := by
  unfold Operation.next at h
  split at h
  · next hstage _ =>
    obtain ⟨rfl, rfl⟩ := Prod.mk.inj (Option.some.inj h)
    simp [waiting, hstage]
  · next hstage _ =>
    obtain ⟨rfl, rfl⟩ := Prod.mk.inj (Option.some.inj h)
    simp [waiting, hstage, Response.id]
  · next hstage _ =>
    obtain ⟨rfl, rfl⟩ := Prod.mk.inj (Option.some.inj h)
    simp [waiting, hstage, Worker.respond_id]
  · next hstage =>
    obtain ⟨rfl, rfl⟩ := Prod.mk.inj (Option.some.inj h)
    simp [waiting, hstage, Worker.respond_id]
  · cases h

/-! ## The main loop -/

namespace Main

def Sound (s : Main ν) : Prop := ∀ w ∈ s.workers, w.Sound

/-- The main loop takes on a request, which is answered or left to a thread. -/
structure Takes (id : String) (s t : Main ν) : Prop where
  conserved : ∀ x, t.total x = s.total x + [id].count x
  sound : s.Sound → t.Sound
  lost : t.lost = [] ↔ s.lost = []

theorem total_send (s : Main ν) (responses : List Response) (x : String) :
    (s.send responses).total x = s.total x + (responses.map Response.id).count x := by
  show ((s.responses ++ responses).map Response.id).count x + s.waiting.count x + s.lost.count x = _
  rw [List.map_append, List.count_append]
  unfold total answers
  omega

theorem takes_send (s : Main ν) {id : String} {response : Response} (h : response.id = id) :
    Takes id s (s.send [response]) where
  conserved x := by rw [total_send, List.map_singleton, h]
  sound hsound := hsound
  lost := Iff.rfl

theorem configureTools_takes (s : Main ν) (id : String) (consulted : Consulted) :
    Takes id s (s.configureTools id consulted) := by
  unfold configureTools
  split
  · exact s.takes_send rfl
  · split
    · exact s.takes_send rfl
    · split
      · exact s.takes_send rfl
      · split
        · exact s.takes_send rfl
        · split
          · have h : Takes id s (s.send [.ok id]) := s.takes_send rfl
            exact ⟨h.conserved, h.sound, h.lost⟩
          · exact s.takes_send rfl

theorem dispatch_takes (s : Main ν) (id : String) (asks : Bool) : Takes id s (s.dispatch id asks) := by
  unfold dispatch
  split
  · exact s.takes_send rfl
  · refine ⟨fun x => ?_, fun hsound => hsound, Iff.rfl⟩
    unfold total answers waiting lost
    simp only [List.flatMap_append, List.count_append]
    simp [Operation.waiting]
    omega

theorem question_takes (s : Main ν) (id : String) (asks : Bool) (consulted : Consulted) :
    Takes id s (s.question id asks consulted) := by
  unfold question
  split
  · exact s.takes_send rfl
  · split
    · split
      · exact s.takes_send rfl
      · exact s.dispatch_takes id asks
    · exact s.dispatch_takes id asks

theorem takes_worker (s t : Main ν) (id : String) (options : Open)
    (hworkers : t.workers = s.workers ++ [⟨id, options, [], .connecting⟩])
    (hoperations : t.operations = s.operations) (hreads : t.reads = s.reads)
    (hresponses : t.responses = s.responses) : Takes id s t where
  conserved x := by
    unfold total answers waiting lost
    rw [hworkers, hoperations, hreads, hresponses]
    simp only [List.flatMap_append, List.count_append]
    simp [Worker.waiting, Worker.lost, Worker.hand, Worker.queued]
    omega
  sound hsound w hw := by
    rw [hworkers, List.mem_append, List.mem_singleton] at hw
    cases hw with
    | inl hw => exact hsound w hw
    | inr hw =>
      intro run session hrun
      rw [hw] at hrun
      cases hrun
  lost := by
    unfold lost
    rw [hworkers, List.flatMap_append, List.append_eq_nil_iff]
    exact and_iff_left rfl

theorem openSession_takes (s : Main ν) (id : String) (restores : Bool) (consulted : Consulted) :
    Takes id s (s.openSession id restores consulted) := by
  unfold openSession
  split
  · exact s.takes_send rfl
  · split
    · exact s.takes_send rfl
    · split
      · exact s.takes_send rfl
      · dsimp only
        split
        · exact s.takes_send rfl
        · split
          · exact s.takes_send rfl
          · exact s.takes_worker _ id _ rfl rfl rfl rfl

theorem readDatabase_takes (s : Main ν) (id : String) : Takes id s (s.readDatabase id) := by
  unfold readDatabase
  split
  · exact s.takes_send rfl
  · refine ⟨fun x => ?_, fun hsound => hsound, Iff.rfl⟩
    unfold total answers waiting lost
    simp only [List.flatMap_append, List.count_append]
    simp [Read.waiting]
    omega

/-- What a change of one worker does to the requests. -/
theorem total_setWorker {s : Main ν} {i : Nat} {w : Worker ν} (hw : s.workers[i]? = some w)
    (w' : Worker ν) (x : String) :
    ({ s with workers := s.workers.set i w' } : Main ν).total x + w.hand.count x +
        w.queued.count x =
      s.total x + w'.hand.count x + w'.queued.count x := by
  have hwaiting := count_flatMap_set_slot (f := Worker.waiting) (b := w') hw x
  have hlost := count_flatMap_set_slot (f := Worker.lost) (b := w') hw x
  have hbefore := w.count_waiting_add_lost x
  have hafter := w'.count_waiting_add_lost x
  unfold total answers waiting lost
  simp only [List.count_append]
  omega

theorem sound_setWorker {s : Main ν} {i : Nat} {w' : Worker ν} (hsound : s.Sound)
    (hw' : w'.Sound) : ({ s with workers := s.workers.set i w' } : Main ν).Sound := by
  intro w hw
  cases List.mem_or_eq_of_mem_set hw with
  | inl hw => exact hsound w hw
  | inr hw => exact hw ▸ hw'

theorem lost_eq_nil_iff {s : Main ν} :
    s.lost = [] ↔ ∀ (i : Nat) (w : Worker ν), s.workers[i]? = some w → w.lost = [] := by
  unfold lost
  rw [List.flatMap_eq_nil_iff]
  constructor
  · intro h i w hw
    exact h w (List.mem_of_getElem? hw)
  · intro h w hw
    obtain ⟨i, hi⟩ := List.getElem?_of_mem hw
    exact h i w hi

/-- A change of one worker, which had lost nothing. -/
theorem lost_setWorker_iff {s : Main ν} {i : Nat} {w : Worker ν} (hw : s.workers[i]? = some w)
    (hbefore : w.lost = []) (w' : Worker ν) :
    ({ s with workers := s.workers.set i w' } : Main ν).lost = [] ↔
      s.lost = [] ∧ w'.lost = [] := by
  rw [lost_eq_nil_iff, lost_eq_nil_iff]
  constructor
  · intro h
    refine ⟨fun j v hv => ?_, h i w' (getElem?_set_slot_self hw)⟩
    by_cases hij : i = j
    · subst hij
      rw [Option.some.inj (hv.symm.trans hw)]
      exact hbefore
    · refine h j v ?_
      show (s.workers.set i w')[j]? = _
      rw [getElem?_set_slot hw, if_neg hij]
      exact hv
  · intro ⟨hs, hw'⟩ j v hv
    replace hv : (s.workers.set i w')[j]? = some v := hv
    rw [getElem?_set_slot hw] at hv
    split at hv
    · rw [← Option.some.inj hv]
      exact hw'
    · exact hs j v hv

theorem command_takes (s : Main ν) (request : Request ν) : Takes request.id s (s.command request) := by
  unfold command
  split
  · exact s.takes_send rfl
  · split
    · exact s.takes_send rfl
    · next i _ =>
      split
      · exact s.takes_send rfl
      · next w hw =>
        split
        · exact s.takes_send rfl
        · next hopen =>
          have hphase : w.phase ≠ .closed := by
            intro hclosed
            apply hopen
            simp [isClosed, hw, hclosed]
          have hlost : ({ w with queue := w.queue ++ [request] } : Worker ν).lost = [] :=
            Worker.lost_eq_nil hphase
          refine ⟨fun x => ?_, fun hsound => ?_, ?_⟩
          · have htotal := total_setWorker hw { w with queue := w.queue ++ [request] } x
            have hqueued : ({ w with queue := w.queue ++ [request] } : Worker ν).queued =
                w.queued ++ [request.id] := List.map_append
            have hhand : ({ w with queue := w.queue ++ [request] } : Worker ν).hand = w.hand := rfl
            rw [hqueued, hhand, List.count_append] at htotal
            omega
          · exact sound_setWorker hsound (hsound w (List.mem_of_getElem? hw))
          · rw [lost_setWorker_iff hw (Worker.lost_eq_nil hphase)]
            exact and_iff_left hlost

theorem handle_takes (s : Main ν) (request : Request ν) (consulted : Consulted) :
    Takes request.id s (s.handle request consulted) := by
  have hopen (restores : Bool) :
      Takes request.id s (s.retain.openSession request.id restores consulted) :=
    let h := s.retain.openSession_takes request.id restores consulted
    ⟨h.conserved, h.sound, h.lost⟩
  unfold handle
  split
  · exact s.configureTools_takes _ _
  · exact s.takes_send (Worker.respond_id _ _ _)
  · exact s.question_takes _ _ _
  · exact s.question_takes _ _ _
  · exact s.question_takes _ _ _
  · exact s.takes_send rfl
  · have h : Takes request.id s (s.send [.ok request.id]) := s.takes_send rfl
    exact ⟨h.conserved, h.sound, h.lost⟩
  · exact hopen false
  · exact hopen true
  · exact s.readDatabase_takes _
  · exact s.readDatabase_takes _
  · exact s.readDatabase_takes _
  · exact s.readDatabase_takes _
  · exact s.takes_send rfl
  · exact s.command_takes _

/-! ## Steps and runs -/

/-- A worker that closes its queue in this step has no command left in it. -/
def closesEmpty (s : Main ν) : Event ν → Bool
  | .worker i event => (s.workers[i]?).all fun w => !Worker.closes w.phase event || w.queue.isEmpty
  | _ => true

/-- What a step does to the requests. -/
structure Steps (s : Main ν) (event : Event ν) (t : Main ν) : Prop where
  conserved : ∀ x, t.total x = s.total x + event.requests.count x
  sound : t.Sound
  lost : t.lost = [] ↔ s.lost = [] ∧ s.closesEmpty event = true

theorem Takes.steps {s t : Main ν} {event : Event ν} {id : String} (h : Takes id s t)
    (hsound : s.Sound) (hrequests : event.requests = [id]) (hcloses : s.closesEmpty event = true) :
    Steps s event t where
  conserved x := by rw [hrequests, h.conserved]
  sound := h.sound hsound
  lost := h.lost.trans (and_iff_left hcloses).symm

/-- A step that answers nobody and keeps the workers. -/
theorem steps_of_total {s t : Main ν} {event : Event ν} (hsound : s.Sound)
    (hworkers : t.workers = s.workers) (hrequests : event.requests = [])
    (htotal : ∀ x, t.total x = s.total x) (hcloses : s.closesEmpty event = true) : Steps s event t where
  conserved x := by rw [hrequests, htotal, List.count_nil, Nat.add_zero]
  sound w hw := hsound w (hworkers ▸ hw)
  lost := by
    unfold lost
    rw [hworkers]
    exact (and_iff_left hcloses).symm

theorem receive_steps (s : Main ν) (hsound : s.Sound) (line : Line ν) (consulted : Consulted) :
    Steps s (.receive line consulted) (s.receive line consulted) := by
  unfold receive
  cases line with
  | oversized => exact steps_of_total hsound rfl rfl (fun _ => rfl) rfl
  | malformed => exact steps_of_total hsound rfl rfl (fun _ => rfl) rfl
  | request request =>
    dsimp only
    split
    · exact (s.takes_send rfl).steps hsound rfl rfl
    · exact (s.handle_takes request consulted).steps hsound rfl rfl

theorem worker_steps {s : Main ν} (hsound : s.Sound) {i : Nat} {event : WorkerEvent}
    {w w' : Worker ν} {responses : List Response} (hw : s.workers[i]? = some w)
    (h : w.next event = some (w', responses)) :
    Steps s (.worker i event) ({ s with workers := s.workers.set i w' }.send responses) := by
  have hsteps := Worker.next_steps (hsound w (List.mem_of_getElem? hw)) h
  refine ⟨fun x => ?_, sound_setWorker hsound hsteps.sound, ?_⟩
  · have htotal := total_setWorker hw w' x
    have hconserved := hsteps.conserved x
    rw [total_send]
    show _ = _ + [].count x
    rw [List.count_nil]
    omega
  · refine (lost_setWorker_iff hw hsteps.before w').trans (and_congr_right fun _ => ?_)
    rw [hsteps.after, closesEmpty, hw, Option.all_some, Bool.or_eq_true, Bool.not_eq_true',
      List.isEmpty_iff, ← Bool.not_eq_true]
    exact imp_iff_not_or

theorem next_steps {s t : Main ν} {event : Event ν} (hsound : s.Sound)
    (h : s.next event = some t) : Steps s event t := by
  unfold next at h
  split at h
  · cases h
  · split at h
    · obtain rfl := Option.some.inj h
      exact steps_of_total hsound rfl rfl (fun _ => rfl) rfl
    · obtain rfl := Option.some.inj h
      exact s.receive_steps hsound _ _
    · next i event =>
      obtain ⟨w, hw, h⟩ := Option.bind_eq_some_iff.mp h
      obtain ⟨⟨w', responses⟩, hnext, h⟩ := Option.bind_eq_some_iff.mp h
      obtain rfl := Option.some.inj h
      exact worker_steps hsound hw hnext
    · next k outcome =>
      obtain ⟨operation, hk, h⟩ := Option.bind_eq_some_iff.mp h
      obtain ⟨⟨operation', responses⟩, hnext, h⟩ := Option.bind_eq_some_iff.mp h
      obtain rfl := Option.some.inj h
      refine steps_of_total hsound rfl rfl (fun x => ?_) rfl
      have hset := count_flatMap_set_slot (f := Operation.waiting) (b := operation') hk x
      have hconserved := Operation.next_conserved hnext x
      rw [total_send]
      unfold total answers waiting lost
      simp only [List.count_append]
      omega
    · next k outcome =>
      obtain ⟨read, hk, h⟩ := Option.bind_eq_some_iff.mp h
      split at h
      · cases h
      · next hanswered =>
        obtain rfl := Option.some.inj h
        refine steps_of_total hsound rfl rfl (fun x => ?_) rfl
        have hset := count_flatMap_set_slot (f := Read.waiting) (b := { read with answered := true })
          hk x
        rw [total_send]
        unfold total answers waiting lost
        simp only [List.count_append, List.map_singleton, Worker.respond_id]
        simp only [Read.waiting, hanswered] at hset
        simp at hset
        omega
    · next k =>
      obtain ⟨read, hk, h⟩ := Option.bind_eq_some_iff.mp h
      obtain rfl := Option.some.inj h
      refine steps_of_total hsound rfl rfl (fun x => ?_) rfl
      have hset := count_flatMap_set_slot (f := Read.waiting) (b := { read with permit := false })
        hk x
      unfold total answers waiting lost
      simp only [List.count_append]
      simp only [Read.waiting] at hset
      omega
    · obtain rfl := Option.some.inj h
      exact steps_of_total hsound rfl rfl (fun _ => rfl) rfl

theorem run_conserved {events : List (Event ν)} {s t : Main ν} (hsound : s.Sound)
    (hrun : Next.run next events s = some t) :
    (∀ x, t.total x = s.total x + (received events).count x) ∧
      (t.lost = [] ↔ s.lost = [] ∧ Next.Each next (fun s event => s.closesEmpty event) events s) := by
  induction events generalizing s with
  | nil =>
    obtain rfl := Option.some.inj hrun
    exact ⟨fun _ => rfl, (and_iff_left trivial).symm⟩
  | cons event events ih =>
    obtain ⟨mid, hmid, hrest⟩ := Next.run_cons.mp hrun
    have hstep := next_steps hsound hmid
    obtain ⟨htotal, hlost⟩ := ih hstep.sound hrest
    constructor
    · intro x
      show _ = _ + (event.requests ++ received events).count x
      rw [htotal, hstep.conserved, List.count_append, Nat.add_assoc]
    · rw [hlost, hstep.lost, and_assoc]
      refine and_congr_right fun _ => and_congr_right fun _ => ?_
      constructor
      · intro heach u hu
        obtain rfl := Option.some.inj (hmid.symm.trans hu)
        exact heach
      · intro heach
        exact heach mid hmid

/-- A request that no thread has any more was answered, none was answered twice, and one that a
thread still has was not. -/
structure AnsweredOnce (ids : List String) (s : Main ν) : Prop where
  atMostOnce : ∀ id, s.answers id ≤ 1
  answered : ∀ id ∈ ids, id ∉ s.waiting → s.answers id = 1
  unanswered : ∀ id ∈ s.waiting, s.answers id = 0

/-- Distinct requests are answered once, unless one is lost. -/
theorem answeredOnce_iff {ids : List String} {s : Main ν} (hnodup : ids.Nodup)
    (htotal : ∀ x, s.total x = ids.count x) : AnsweredOnce ids s ↔ s.lost = [] := by
  have hcount (x : String) : s.answers x + s.waiting.count x + s.lost.count x ≤ 1 := by
    have h := htotal x
    have hle := List.nodup_iff_count_le_one.mp hnodup x
    unfold total at h
    omega
  constructor
  · intro h
    rw [List.eq_nil_iff_forall_not_mem]
    intro id hid
    have hlost := List.count_pos_iff.mpr hid
    have hsum := hcount id
    have hmem : id ∈ ids := by
      apply List.count_pos_iff.mp
      rw [← htotal]
      unfold total
      omega
    have hwaiting : id ∉ s.waiting := by
      apply List.count_eq_zero.mp
      omega
    have hanswered := h.answered id hmem hwaiting
    omega
  · intro hlost
    refine ⟨fun id => ?_, fun id hid hwaiting => ?_, fun id hwaiting => ?_⟩
    · have hsum := hcount id
      omega
    · have h := htotal id
      unfold total at h
      rw [hlost, List.count_nil, List.count_eq_zero.mpr hwaiting,
        List.count_eq_one_of_mem hnodup hid] at h
      omega
    · have hsum := hcount id
      have hpos := List.count_pos_iff.mpr hwaiting
      omega

/-- Distinct requests are answered once exactly when no worker closes its queue with commands in
it. -/
theorem requests_are_answered_once (events : List (Event ν)) (s : Main ν)
    (hrun : Next.run next events start = some s) (hnodup : (received events).Nodup) :
    AnsweredOnce (received events) s ↔ Next.Each next (fun s event => s.closesEmpty event) events start := by
  have hsound : (start : Main ν).Sound := fun w hw => absurd hw List.not_mem_nil
  obtain ⟨htotal, hlost⟩ := run_conserved hsound hrun
  have htotal' (x : String) : s.total x = (received events).count x :=
    (htotal x).trans (Nat.zero_add _)
  rw [answeredOnce_iff hnodup htotal', hlost]
  exact and_iff_right rfl

namespace Sample

def request (id : String) (method : Method) : Line Nat :=
  .request ⟨1, id, method, .obj [("session_id", .str "session-1"), ("run_id", .str "run-1"),
    ("prompt", .str "go on")]⟩

def consulted (restore : Option Restore) : Consulted :=
  ⟨.error "", .ok (), .ok (), .ok (), some ⟨false, restore⟩, .ok (), "session-1"⟩

def said : Said := ⟨.ok false, .ok (), .ok (), "run-1", .ok (), .ok (), .ok ()⟩

def created : List (Event Nat) :=
  [.receive (request "request-1" .createSession) (consulted none), .worker 0 (.setup (.ok ())),
    .worker 0 (.prepare (.ok ()))]

/-- A command that comes while the session is handed off. -/
def handedOff : List (Event Nat) :=
  created ++ [.receive (request "request-2" .handoff) (consulted none), .worker 0 (.take said),
    .receive (request "request-3" .configuration) (consulted none), .worker 0 .release]

/-- A run with commands, a session that cannot be restored, a handoff after the last command, and a
read that is not over. -/
def visited : List (Event Nat) :=
  created ++ [.receive (request "request-2" .run) (consulted none), .worker 0 (.take said),
    .receive (request "request-3" .configuration) (consulted none),
    .receive (request "request-4" .cancel) (consulted none), .worker 0 (.take said),
    .receive (request "request-5" .restoreSession) (consulted (some (.native "session-2"))),
    .worker 1 (.setup (.error "no such file")), .worker 0 (.take said), .worker 0 .finish,
    .receive (request "request-6" .setOption) (consulted none), .worker 0 (.take said),
    .receive (request "request-7" .handoff) (consulted none), .worker 0 (.configured (.ok ())),
    .worker 0 (.take said), .worker 0 .release,
    .receive (request "request-8" .run) (consulted none), .iterate,
    .receive (request "request-9" .run) (consulted none),
    .receive (request "request-10" .history) (consulted none)]

end Sample

theorem handoff_loses_a_command :
    ∃ s, Next.run next Sample.handedOff start = some s ∧ (received Sample.handedOff).Nodup ∧
      ¬ AnsweredOnce (received Sample.handedOff) s := by
  refine ⟨_, Next.run_getD (by decide) start, by decide, fun h => ?_⟩
  have hanswered := h.answered "request-3" (by decide) (by decide)
  exact absurd hanswered (by decide)

theorem visit_is_answered :
    ∃ s, Next.run next Sample.visited start = some s ∧ AnsweredOnce (received Sample.visited) s ∧
      s.waiting = ["request-10"] := by
  have hrun : Next.run next Sample.visited start = some _ := Next.run_getD (by decide) start
  refine ⟨_, hrun, ?_, by decide⟩
  exact (requests_are_answered_once Sample.visited _ hrun (by decide)).mpr
    (Next.Each.of_check (fun _ _ h => h) (by decide))

end Main

end Host

end AgentBridge
