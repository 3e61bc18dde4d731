import AgentBridge.Questions.Announcements
import AgentBridge.Questions.Handles

/-!
# Hosted questions

The host and the client of one connection.  The frames of the host reach the client in their order, in
chunks of any size; promises run between the frames, and everything else happens at any time.
-/

namespace AgentBridge

open Reasoning
open Host.Questions
open Client

namespace Questions

variable {ν : Type}

structure HostedQuestions (ν : Type) where
  host : Service ν
  client : QuestionClient
  /-- The number of frames that the client has processed. -/
  read : Nat
  /-- The loop of `BridgeHost.read` has not ended. -/
  reading : Bool

namespace HostedQuestions

inductive Event (ν : Type) where
  | host (e : Host.Questions.Event ν)
  /-- The next frame; `valid` says whether the client knows the binding and the tool of a call. -/
  | read (valid : Bool)
  /-- A promise goes on. -/
  | resume (k : Nat)
  | callbackDone
  /-- The handler of a call comes back. -/
  | handlerDone (call : String)
  | fail

/-- The frames that the client has processed. -/
def processed (s : HostedQuestions ν) : List Frame := s.host.emitted.take s.read

/-- The application has seen the call that a request names. -/
def knowsCall (s : HostedQuestions ν) (params : JsonTree ν) : Bool :=
  s.processed.any fun
    | .toolCall owner => (params.index "call_id").asStr == some owner.call
    | _ => false

/-- What the application can make the host do: it asks only for calls that it has seen. -/
def permits (s : HostedQuestions ν) : Host.Questions.Event ν → Bool
  | .ask params => s.knowsCall params
  | _ => true

def next (readers : Readers ν) : Next (Event ν) (HostedQuestions ν)
  | s, .host e =>
      if s.permits e then (Service.next readers s.host e).map fun host => { s with host } else none
  | s, .read valid => do
      let frame ← s.host.emitted[s.read]?
      if s.reading then
        match s.client.process valid frame with
        | (true, client) => some { s with client, reading := false }
        | (false, client) => some { s with client, read := s.read + 1 }
      else none
  | s, .resume k => (s.client.runContinuation k).map fun client => { s with client }
  | s, .callbackDone => s.client.callbackDone.map fun client => { s with client }
  | s, .handlerDone call => some { s with client := s.client.handlerDone call }
  | s, .fail => some { s with client := s.client.fail }

def start : HostedQuestions ν := ⟨.start, .start, 0, true⟩

/-! ## Both sides -/

structure Coherent (s : HostedQuestions ν) : Prop where
  host : s.host.Sound
  read : s.read ≤ s.host.emitted.length
  client : s.client.Knows s.processed s.processed

variable {readers : Readers ν} {s t : HostedQuestions ν} {e : Event ν}

theorem coherent_start : (start : HostedQuestions ν).Coherent :=
  ⟨Service.Sound.start, Nat.le_refl 0, QuestionClient.knows_start⟩

theorem Coherent.lawful (h : s.Coherent) : Lawful s.processed := h.host.announced.lawful.take s.read

theorem mem_emitted_of_mem_processed {f : Frame} (hf : f ∈ s.processed) : f ∈ s.host.emitted :=
  List.mem_of_mem_take hf

/-- What the client processed is not affected by what follows. -/
theorem take_of_front {before after : List Frame} {n : Nat} (hfront : before <+: after)
    (hn : n ≤ before.length) : after.take n = before.take n := by
  obtain ⟨rest, rfl⟩ := hfront
  rw [List.take_append_of_le_length hn]

theorem processed_succ {f : Frame} (hget : s.host.emitted[s.read]? = some f) :
    s.host.emitted.take (s.read + 1) = s.processed ++ [f] := by
  rw [List.take_add_one, hget]
  rfl

/-- A step of the connection, by the side that moves. -/
inductive Stepped (readers : Readers ν) (s : HostedQuestions ν) :
    Event ν → HostedQuestions ν → Prop
  | host (e : Host.Questions.Event ν) (host : Service ν) : s.permits e = true →
      Service.next readers s.host e = some host → Stepped readers s (.host e) { s with host }
  | threw (valid : Bool) (f : Frame) (client : QuestionClient) :
      s.host.emitted[s.read]? = some f → s.client.process valid f = (true, client) →
      Stepped readers s (.read valid) { s with client, reading := false }
  | read (valid : Bool) (f : Frame) (client : QuestionClient) :
      s.host.emitted[s.read]? = some f → s.client.process valid f = (false, client) →
      Stepped readers s (.read valid) { s with client, read := s.read + 1 }
  | resume (k : Nat) (client : QuestionClient) : s.client.runContinuation k = some client →
      Stepped readers s (.resume k) { s with client }
  | callbackDone (client : QuestionClient) : s.client.callbackDone = some client →
      Stepped readers s .callbackDone { s with client }
  | handlerDone (call : String) :
      Stepped readers s (.handlerDone call) { s with client := s.client.handlerDone call }
  | fail : Stepped readers s .fail { s with client := s.client.fail }

theorem next_stepped (hnext : next readers s e = some t) : Stepped readers s e t := by
  cases e with
  | host e =>
    simp only [next] at hnext
    split at hnext
    · rename_i hpermits
      obtain ⟨host, hhost, rfl⟩ := Option.map_eq_some_iff.mp hnext
      exact .host e host hpermits hhost
    · cases hnext
  | read valid =>
    obtain ⟨f, hf, hnext⟩ := Option.bind_eq_some_iff.mp hnext
    split at hnext
    · split at hnext
      · rename_i client hclient
        exact Option.some.inj hnext ▸ .threw valid f client hf hclient
      · rename_i client hclient
        exact Option.some.inj hnext ▸ .read valid f client hf hclient
    · cases hnext
  | resume k =>
    obtain ⟨client, hclient, rfl⟩ := Option.map_eq_some_iff.mp hnext
    exact .resume k client hclient
  | callbackDone =>
    obtain ⟨client, hclient, rfl⟩ := Option.map_eq_some_iff.mp hnext
    exact .callbackDone client hclient
  | handlerDone call => exact Option.some.inj hnext ▸ .handlerDone call
  | fail => exact Option.some.inj hnext ▸ .fail

/-- Only announced calls ask. -/
theorem Coherent.asked (h : s.Coherent) {e : Host.Questions.Event ν} (hpermits : s.permits e = true)
    (params : JsonTree ν) (owner : QuestionOwner) (he : e = .ask params)
    (howner : s.host.questionOwner params = some owner) : .toolCall owner ∈ s.host.emitted := by
  subst he
  obtain ⟨f, hf, hknown⟩ := List.any_eq_true.mp hpermits
  split at hknown
  · exact h.host.toolCall_of_questionOwner howner (mem_emitted_of_mem_processed hf)
      (beq_iff_eq.mp hknown)
  · cases hknown

theorem Coherent.stepped (h : s.Coherent) (hstep : Stepped readers s e t) : t.Coherent := by
  cases hstep with
  | host e host hpermits hhost =>
    have hfront := (Service.next_stepped hhost).emitted_grows
    refine ⟨h.host.next (h.asked hpermits) hhost, Nat.le_trans h.read hfront.length_le, ?_⟩
    have hprocessed : host.emitted.take s.read = s.processed := take_of_front hfront h.read
    show s.client.Knows (host.emitted.take s.read) (host.emitted.take s.read)
    rw [hprocessed]
    exact h.client
  | threw valid f client hf hclient =>
    have hlaw : Lawful (s.processed ++ [f]) :=
      processed_succ hf ▸ h.host.announced.lawful.take (s.read + 1)
    have hknows := h.client.process hlaw hclient
    rw [if_pos rfl] at hknows
    exact ⟨h.host, h.read, hknows⟩
  | read valid f client hf hclient =>
    have hlaw : Lawful (s.processed ++ [f]) :=
      processed_succ hf ▸ h.host.announced.lawful.take (s.read + 1)
    have hknows := h.client.process hlaw hclient
    rw [if_neg (by simp), ← processed_succ hf] at hknows
    exact ⟨h.host, (List.getElem?_eq_some_iff.mp hf).1, hknows⟩
  | resume k client hclient => exact ⟨h.host, h.read, h.client.runContinuation h.lawful hclient⟩
  | callbackDone client hclient =>
    refine ⟨h.host, h.read, ?_⟩
    unfold QuestionClient.callbackDone at hclient
    split at hclient
    · cases hclient
    · obtain rfl := Option.some.inj hclient
      exact h.client.history rfl rfl rfl fun _ ht => ht
  | handlerDone call => exact ⟨h.host, h.read, h.client.handlerDone call⟩
  | fail => exact ⟨h.host, h.read, h.client.fail⟩

theorem Coherent.next (h : s.Coherent) (hnext : HostedQuestions.next readers s e = some t) :
    t.Coherent := h.stepped (next_stepped hnext)

theorem Coherent.run {events : List (Event ν)} (h : s.Coherent)
    (hrun : Next.run (HostedQuestions.next readers) events s = some t) : t.Coherent :=
  Next.run_invariant (fun _ _ _ h hnext => Coherent.next h hnext) h hrun

/-- The frames that the client processed stay processed. -/
theorem Coherent.processed_prefix (h : s.Coherent) (hstep : Stepped readers s e t) :
    s.processed <+: t.processed := by
  cases hstep with
  | host e host _ hhost =>
    show s.processed <+: host.emitted.take s.read
    rw [take_of_front (Service.next_stepped hhost).emitted_grows h.read]
    exact List.prefix_rfl
  | read valid f client hf _ =>
    show s.processed <+: s.host.emitted.take (s.read + 1)
    rw [processed_succ hf]
    exact List.prefix_append _ _
  | _ => exact List.prefix_rfl

end HostedQuestions

end Questions

end AgentBridge
