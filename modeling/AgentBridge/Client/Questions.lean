import AgentBridge.Host.Questions

/-!
# Questions of tool calls, on the client

The client owns the calls whose handlers run, and makes a handle of every question of theirs that a
frame or a reply brings.  Frames are processed one by one; what they leave to promises runs later, in
any order.  The client keeps what it told the application.
-/

namespace AgentBridge

open Reasoning
open Host.Questions

namespace Client

/-- An invocation whose handler has not returned, with its signal. -/
structure ActiveCall where
  owner : QuestionOwner
  aborted : Bool
deriving DecidableEq

structure QuestionHandle where
  view : QuestionView
  aborted : Bool
  /-- It is in the map of the client. -/
  kept : Bool
deriving DecidableEq

/-- What a promise goes on with. -/
inductive Continuation where
  /-- The call of `onQuestion` for the handle at a place, with the id of its question. -/
  | notify (handle : Nat) (id : String)
  /-- The views that answer a `pendingQuestions`. -/
  | pending (views : List QuestionView)
deriving DecidableEq

structure QuestionClient where
  active : List ActiveCall
  stopped : Bool
  /-- The handles made so far. -/
  handles : List QuestionHandle
  callbacks : Nat
  /-- The calls of `onQuestion` that have not come back. -/
  running : Nat
  continuations : List Continuation
  /-- The `question_opened` frames accepted for an owned call, with a callback left for it. -/
  accepted : List QuestionView
  /-- The ids that `onQuestion` was called with. -/
  notified : List String
  /-- The ids of the handles that `pendingQuestions` returned. -/
  returned : List String
  /-- A `question_opened` frame made `opened` throw. -/
  openedThrew : Bool

namespace QuestionClient

/-! ## Calls -/

/-- `ToolClient.owns`, or none when it throws. -/
def owns (active : List ActiveCall) (owner : QuestionOwner) : Option Bool :=
  match active.find? fun a => a.owner.call == owner.call with
  | none => some false
  | some a =>
      if a.aborted then some false
      else if a.owner = owner then some true
      else none

/-- `ToolClient.accept`, or none when it throws; `valid` says that the client knows the binding and
its tools. -/
def accept (c : QuestionClient) (owner : QuestionOwner) (valid : Bool) : Option QuestionClient :=
  if c.stopped then some c
  else if !valid || c.active.any (·.owner.call == owner.call) then none
  else if c.active.length ≥ 16 then some c
  else some { c with active := c.active ++ [⟨owner, false⟩] }

def abort (call : String) (a : ActiveCall) : ActiveCall :=
  if a.owner.call = call then { a with aborted := true } else a

/-- `ToolClient.cancel`, or none when it throws. -/
def cancel (c : QuestionClient) (owner : QuestionOwner) : Option QuestionClient :=
  match c.active.find? fun a => a.owner.call == owner.call with
  | none => some c
  | some a =>
      if a.owner = owner then some { c with active := c.active.map (abort owner.call) } else none

/-! ## Handles -/

/-- A handle is closed if it is in the map and has the property. -/
def closeIf (p : QuestionHandle → Bool) (h : QuestionHandle) : QuestionHandle :=
  if h.kept && p h then { h with aborted := true } else h

def cancelOwner (c : QuestionClient) (call : String) : QuestionClient :=
  { c with handles := c.handles.map (closeIf fun h => h.view.owner.call == call) }

/-- `QuestionClient.closed`, or none when it throws. -/
def closed (c : QuestionClient) (id : String) (owner : QuestionOwner) : Option QuestionClient :=
  match c.handles.find? fun h => h.kept && h.view.questionId == id with
  | none => some c
  | some h =>
      if h.view.owner = owner then
        some { c with handles := c.handles.map (closeIf fun h => h.view.questionId == id) }
      else none

/-- `QuestionClient.stop`: every handle of the map is closed and leaves it. -/
def drop (h : QuestionHandle) : QuestionHandle :=
  if h.kept then { h with aborted := true, kept := false } else h

/-- The loop of `opened` over the map, up to where `owns` throws, if it does. -/
def prune (active : List ActiveCall) : List QuestionHandle → List QuestionHandle × Bool
  | [] => ([], false)
  | h :: hs =>
      if h.kept then
        match owns active h.view.owner with
        | none => (h :: hs, true)
        | some true => (h :: (prune active hs).1, (prune active hs).2)
        | some false => (drop h :: (prune active hs).1, (prune active hs).2)
      else (h :: (prune active hs).1, (prune active hs).2)

/-- The handle of a question in the map. -/
def existing (handles : List QuestionHandle) (id : String) : Option Nat :=
  handles.findIdx? fun h => h.kept && h.view.questionId == id

/-- The map has no room for another handle. -/
def isFull (handles : List QuestionHandle) : Bool :=
  let kept := handles.filter (·.kept)
  kept.length ≥ 128 || (kept.filter fun h => !h.aborted).length ≥ 16

/-- What `opened` comes to: it throws, or returns no handle, or the one at a place. -/
inductive Opened where
  | threw
  | ignored
  | handle (i : Nat)
deriving DecidableEq

/-- A new handle, and the call of `onQuestion` if it is asked for and a callback is left. -/
def make (c : QuestionClient) (view : QuestionView) (notify : Bool) : QuestionClient :=
  let i := c.handles.length
  let handles := c.handles ++ [⟨view, false, true⟩]
  if notify && c.callbacks < 16 then
    { c with
      handles
      callbacks := c.callbacks + 1
      continuations := c.continuations ++ [.notify i view.questionId] }
  else { c with handles }

/-- `opened`, from the end of its loop on. -/
def lookup (c : QuestionClient) (view : QuestionView) (notify : Bool) : Opened × QuestionClient :=
  if c.stopped then (.ignored, c)
  else
    match owns c.active view.owner with
    | none => (.threw, c)
    | some false => (.ignored, c)
    | some true =>
        match existing c.handles view.questionId with
        | some i => (.handle i, c)
        | none =>
            if isFull c.handles then (.threw, c)
            else (.handle c.handles.length, c.make view notify)

def opened (c : QuestionClient) (view : QuestionView) (notify : Bool) : Opened × QuestionClient :=
  let pruned := prune c.active c.handles
  let c := { c with handles := pruned.1 }
  if pruned.2 then (.threw, c) else c.lookup view notify

/-- `BridgeHost.fail`; frames go on being read. -/
def fail (c : QuestionClient) : QuestionClient :=
  { c with
    stopped := true
    active := c.active.map fun a => { a with aborted := true }
    handles := c.handles.map drop }

/-! ## Frames and promises -/

/-- A frame in `BridgeHost.read`, with whether it threw. -/
def process (c : QuestionClient) (valid : Bool) : Frame → Bool × QuestionClient
  | .toolCall owner =>
      match c.accept owner valid with
      | some c => (false, c)
      | none => (true, c)
  | .toolCancel owner =>
      match c.cancel owner with
      | some c => (false, c.cancelOwner owner.call)
      | none => (true, c)
  | .questionOpened view =>
      match c.opened view true with
      | (.threw, c) => (true, { c with openedThrew := true })
      | (.ignored, c) => (false, c)
      | (.handle _, after) =>
          if c.callbacks < 16 then (false, { after with accepted := after.accepted ++ [view] })
          else (false, after)
  | .questionClosed id owner =>
      match c.closed id owner with
      | some c => (false, c)
      | none => (true, c)
  | .pendingReply views => (false, { c with continuations := c.continuations ++ [.pending views] })

/-- The `map` of `pending`, with the places of the handles it got, or none when `opened` throws. -/
def openAll (c : QuestionClient) : List QuestionView → Option (List Nat) × QuestionClient
  | [] => (some [], c)
  | view :: views =>
      match c.opened view false with
      | (.threw, c) => (none, c)
      | (.ignored, c) => openAll c views
      | (.handle i, c) =>
          match openAll c views with
          | (none, c) => (none, c)
          | (some is, c) => (some (i :: is), c)

/-- The `filter` of `pending`: what it returns, by the ids of the questions. -/
def unaborted (c : QuestionClient) (is : List Nat) : List String :=
  is.filterMap fun i =>
    match c.handles[i]? with
    | some h => if h.aborted then none else some h.view.questionId
    | none => none

/-- What a promise goes on with, once it runs. -/
def resume (c : QuestionClient) : Continuation → QuestionClient
  | .notify i id =>
      match c.handles[i]? with
      | none => c
      | some h =>
          if h.aborted then { c with running := c.running + 1 }
          else { c with running := c.running + 1, notified := c.notified ++ [id] }
  | .pending views =>
      match c.openAll views with
      | (none, c) => c
      | (some is, c) => { c with returned := c.returned ++ c.unaborted is }

/-- The continuation at a place runs. -/
def runContinuation (c : QuestionClient) (k : Nat) : Option QuestionClient := do
  let continuation ← c.continuations[k]?
  some ({ c with continuations := c.continuations.eraseIdx k }.resume continuation)

/-- A promise of `onQuestion`, or of a closed handle, settles. -/
def callbackDone (c : QuestionClient) : Option QuestionClient :=
  if c.running = 0 then none
  else some { c with running := c.running - 1, callbacks := c.callbacks - 1 }

/-- The handler of a call comes back. -/
def handlerDone (c : QuestionClient) (call : String) : QuestionClient :=
  { c with active := c.active.filter fun a => a.owner.call ≠ call }

def start : QuestionClient := ⟨[], false, [], 0, 0, [], [], [], [], false⟩

end QuestionClient

end Client

end AgentBridge
