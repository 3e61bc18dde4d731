import AgentBridge.Acp.Session

/-!
# Sessions of a connection and their dispatches

A connection hands out one handle for each native session that it has reserved.  The handle
dispatches runs one after the other, each with a route of its own; the provider can still reach the
routes of the earlier ones.
-/

namespace AgentBridge

open Reasoning

namespace Acp

variable {U T : Type}

/-- What `dispatch_blocks` is called with, and what it finds: whether the task of the connection has
finished, and the configuration that is reported now. -/
structure Dispatch where
  spec : RunSpec
  text : String
  isClosed : Bool
  forRun : Except AcpError RunConfiguration

/-- A handle of a native session, with every run that it dispatched. -/
structure NativeSession (U T : Type) where
  native : String
  flags : SessionFlags
  runs : List (AcpRun U T)
  /-- Neither handed off nor dropped. -/
  live : Bool

namespace NativeSession

def new (native : String) (fresh : Bool) : NativeSession U T :=
  ⟨native, ⟨false, true, fresh⟩, [], true⟩

/-- No run borrows the handle. -/
def Free (s : NativeSession U T) : Prop := s.live = true ∧ ∀ a ∈ s.runs, a.Over

instance (s : NativeSession U T) : Decidable s.Free := inferInstanceAs (Decidable (_ ∧ _))

/-- `dispatch_blocks` up to the prompt that it sends. -/
def dispatchBlocks (x : Dispatch) (s : NativeSession U T) : Except AcpError Unit × NativeSession U T :=
  if isBlank x.text then (.error .emptyPrompt, s)
  else if s.flags.retired || !s.flags.quiescent then (.error .sessionUnavailable, s)
  else if x.isClosed then (.error .closed, s)
  else
    match x.forRun with
    | .error e => (.error e, s)
    | .ok config =>
        if config ≠ x.spec.config then (.error .configurationChanged, s)
        else (.ok (), { s with
          flags := { s.flags with quiescent := false, fresh := false }
          runs := s.runs ++ [AcpRun.start x.spec x.text] })

/-- One event of the run with an index. -/
def turn (closed : Bool) (j : Nat) (e : Turn.Event U T) (s : NativeSession U T) :
    Option (NativeSession U T) :=
  match s.runs[j]? with
  | none => none
  | some a =>
      match Turn.step ⟨s.flags, closed, a⟩ e with
      | none => none
      | some t => some { s with flags := t.session, runs := s.runs.set j t.acp }

end NativeSession

/-- A connection with its `routes.sessions`, the resumptions that wait for their setup, and the
handles that it gave out. -/
structure Connection (U T : Type) where
  closed : Bool
  reserved : List String
  settingUp : List String
  sessions : List (NativeSession U T)

namespace Connection

def start : Connection U T := ⟨false, [], [], []⟩

inductive Event (U T : Type) where
  | close
  /-- The response of `session/new`. -/
  | newSession (native : String)
  /-- `resume_saved` reserves the session that it is about to claim. -/
  | reserve (native : String)
  | claimFailed (native : String)
  /-- Its setup ended; an uncertain one leaves a tombstone. -/
  | resumed (native : String) (done : Bool)
  | dispatch (session : Nat) (x : Dispatch)
  | turn (session run : Nat) (e : Turn.Event U T)
  /-- `handoff`; `saved` when every call of the store went through. -/
  | handoff (session : Nat) (saved : Bool)
  /-- The handle is dropped, or used up by `delete`. -/
  | discard (session : Nat)

def setSession (c : Connection U T) (i : Nat) (s : NativeSession U T) : Connection U T :=
  { c with sessions := c.sessions.set i s }

def addSession (c : Connection U T) (s : NativeSession U T) : Connection U T :=
  { c with sessions := c.sessions ++ [s] }

def step : Next (Event U T) (Connection U T)
  | c, .close => some { c with closed := true }
  | c, .newSession native =>
      if native ∈ c.reserved then some c
      else some ({ c with reserved := native :: c.reserved }.addSession (.new native true))
  | c, .reserve native =>
      if native ∈ c.reserved then some c
      else some { c with
        reserved := native :: c.reserved, settingUp := native :: c.settingUp }
  | c, .claimFailed native =>
      if native ∈ c.settingUp then some { c with
        reserved := c.reserved.filter (· ≠ native)
        settingUp := c.settingUp.filter (· ≠ native) }
      else none
  | c, .resumed native done =>
      if native ∈ c.settingUp then
        let c := { c with settingUp := c.settingUp.filter (· ≠ native) }
        some (if done then c.addSession (.new native false) else c)
      else none
  | c, .dispatch i x =>
      match c.sessions[i]? with
      | none => none
      | some s => if s.Free then some (c.setSession i (s.dispatchBlocks x).2) else none
  | c, .turn i j e =>
      match c.sessions[i]? with
      | none => none
      | some s => (s.turn c.closed j e).map (c.setSession i)
  | c, .handoff i saved =>
      match c.sessions[i]? with
      | none => none
      | some s =>
          if s.Free then
            let c := c.setSession i { s with live := false }
            if (s.flags.retired || !s.flags.quiescent) || !saved then some c
            else some { c with reserved := c.reserved.filter (· ≠ s.native) }
          else none
  | c, .discard i =>
      match c.sessions[i]? with
      | none => none
      | some s => if s.Free then some (c.setSession i { s with live := false }) else none

end Connection

end Acp

end AgentBridge
