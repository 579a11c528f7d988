import Persatrix.System
import Persatrix.Tasks

/-!
# The event loop of an agent

One queue of wakes and a supervisor that handles them one by one. What runs between two points at
which a task waits is one step. The log is not part of the program, and neither are the numbers of
the calls of `enqueue`.
-/
namespace Persatrix.Wakes

/-- Only an inbound wake can carry a handle. -/
inductive WakeEvent where
  | inbound (handle : Option ℕ)
  | scheduled
  | salience
deriving DecidableEq

def WakeEvent.handle : WakeEvent → Option ℕ
  | .inbound handle => handle
  | .scheduled => none
  | .salience => none

/-- How a future is settled, and how a handler ends. -/
inductive Outcome (α ε : Type) where
  | resolved (actions : List α)
  | rejected (exc : ε)
  | cancelled

def Outcome.isCancelled {α ε : Type} : Outcome α ε → Bool
  | .cancelled => true
  | _ => false

/-- The futures of the handles. -/
abbrev Handles (α ε : Type) := ℕ → Option (Outcome α ε)

namespace Handles
variable {α ε : Type}

/-- Settling a future that is done changes nothing. -/
def set (h : ℕ) (o : Outcome α ε) (hs : Handles α ε) : Handles α ε :=
  if (hs h).isSome then hs else Function.update hs h (some o)

def settle (wake : WakeEvent) (o : Outcome α ε) (hs : Handles α ε) : Handles α ε :=
  match wake.handle with
  | none => hs
  | some h => hs.set h o

end Handles

/-- A wake with the number of the call that enqueued it. -/
structure Arrival where
  number : ℕ
  wake : WakeEvent
deriving DecidableEq

inductive Item where
  | wake (a : Arrival)
  | stopSentinel
deriving DecidableEq

/-- Where a supervisor waits. -/
inductive Point where
  | queue
  | handler (a : Arrival)
deriving DecidableEq

/-- What a call of `stop` waits for. -/
inductive Wait where
  | resolvers (snapshot : List ℕ)
  | supervisor (t : ℕ)
  | cancelled (t : ℕ)
  | over
deriving DecidableEq

inductive Note where
  | accepted (a : Arrival) (detached : Bool)
  | refusedStopped (a : Arrival)
  | refusedFull (a : Arrival)
  | handled (a : Arrival) (detached : Bool)
  | stopped
  | returned
deriving DecidableEq

structure EventLoop (α ε : Type) where
  queue : List Item
  stopped : Bool
  task : Option ℕ
  droppedCount : ℕ
  reentrantTasks : List ℕ
  supervisors : Tasks Unit Point
  resolvers : Tasks Arrival Unit
  handles : Handles α ε
  stops : List Wait
  enqueued : ℕ
  log : List Note

namespace EventLoop
variable {α ε : Type}

def new : EventLoop α ε where
  queue := []
  stopped := false
  task := none
  droppedCount := 0
  reentrantTasks := []
  supervisors := []
  resolvers := []
  handles := fun _ => none
  stops := []
  enqueued := 0
  log := []

def isRunning (s : EventLoop α ε) : Prop := ∃ t ∈ s.task, s.supervisors.Running t

instance (s : EventLoop α ε) : Decidable s.isRunning := by
  unfold isRunning
  infer_instance

/-- The wake that a supervisor is handling. -/
def handling (t : ℕ) (s : EventLoop α ε) : Option Arrival :=
  match s.supervisors[t]? with
  | some ⟨_, .suspended (.handler a), _⟩ => some a
  | _ => none

/-- A queue of size 0 has no bound. -/
def putNowait (size : ℕ) (item : Item) (s : EventLoop α ε) : Option (EventLoop α ε) :=
  if 0 < size ∧ size ≤ s.queue.length then none else some { s with queue := s.queue ++ [item] }

/-- The caller is a supervisor, by its handler, or another task. -/
def inSupervisor (caller : Option ℕ) (s : EventLoop α ε) : Bool :=
  match caller with
  | none => false
  | some t => s.task = some t

def spawnReentrant (a : Arrival) (s : EventLoop α ε) : EventLoop α ε :=
  { s with
    resolvers := s.resolvers.spawn a
    reentrantTasks := s.reentrantTasks ++ [s.resolvers.length]
    log := s.log ++ [.accepted a true] }

def enqueue (size : ℕ) (caller : Option ℕ) (wake : WakeEvent) (s : EventLoop α ε) :
    EventLoop α ε × Bool :=
  let a : Arrival := ⟨s.enqueued, wake⟩
  let s := { s with enqueued := s.enqueued + 1 }
  if s.stopped then
    ({ s with handles := s.handles.settle wake (.resolved [])
              log := s.log ++ [.refusedStopped a] }, false)
  else if wake.handle.isSome && s.inSupervisor caller then
    (s.spawnReentrant a, true)
  else
    match s.putNowait size (.wake a) with
    | none => ({ s with droppedCount := s.droppedCount + 1
                        log := s.log ++ [.refusedFull a] }, false)
    | some s => ({ s with log := s.log ++ [.accepted a false] }, true)

def start (s : EventLoop α ε) : EventLoop α ε :=
  if s.isRunning then s
  else { s with
    stopped := false
    task := some s.supervisors.length
    supervisors := s.supervisors.spawn () }

/-! ### The supervisor -/

/-- The queue is read without waiting when there is something in it. -/
def get (t : ℕ) (s : EventLoop α ε) : EventLoop α ε :=
  match s.queue with
  | [] => { s with supervisors := s.supervisors.moveTo t (.suspended .queue) }
  | .stopSentinel :: rest =>
    { s with queue := rest, supervisors := s.supervisors.moveTo t .done }
  | .wake a :: rest =>
    { s with
      queue := rest
      supervisors := s.supervisors.moveTo t (.suspended (.handler a))
      log := s.log ++ [.handled a false] }

/-- The head of the loop. -/
def loopHead (t : ℕ) (s : EventLoop α ε) : EventLoop α ε :=
  if s.stopped then { s with supervisors := s.supervisors.moveTo t .done } else s.get t

/-- The supervisor is resumed at its start, or where it waits for the queue. -/
def run (t : ℕ) (s : EventLoop α ε) : Option (EventLoop α ε) :=
  match s.supervisors[t]? with
  | some ⟨_, .created, false⟩ => some (s.loopHead t)
  | some ⟨_, .suspended .queue, false⟩ => some (s.get t)
  | some ⟨_, .created, true⟩ | some ⟨_, .suspended .queue, true⟩ =>
    some { s with supervisors := s.supervisors.moveTo t .done }
  | _ => none

/-- A cancelled handler is given the empty result. -/
def answer (o : Outcome α ε) : Outcome α ε :=
  match o with
  | .cancelled => .resolved []
  | o => o

/-- The handler of a supervisor ends. It does not swallow a cancellation. -/
def handleWakeSupervised (t : ℕ) (o : Outcome α ε) (s : EventLoop α ε) :
    Option (EventLoop α ε) :=
  match s.supervisors[t]? with
  | some ⟨_, .suspended (.handler a), cancelling⟩ =>
    if cancelling && !o.isCancelled then none
    else
      let s := { s with handles := s.handles.settle a.wake (answer o) }
      if o.isCancelled then some { s with supervisors := s.supervisors.moveTo t .done }
      else some (s.loopHead t)
  | _ => none

/-! ### The detached resolvers -/

/-- The resolver takes its first step. -/
def beginResolver (r : ℕ) (s : EventLoop α ε) : Option (EventLoop α ε) :=
  match s.resolvers[r]? with
  | some ⟨_, .created, true⟩ => some { s with resolvers := s.resolvers.moveTo r .done }
  | some ⟨a, .created, false⟩ =>
    some { s with
      resolvers := s.resolvers.moveTo r (.suspended ())
      log := s.log ++ [.handled a true] }
  | _ => none

def endResolver (r : ℕ) (o : Outcome α ε) (s : EventLoop α ε) : Option (EventLoop α ε) :=
  match s.resolvers[r]? with
  | some ⟨a, .suspended (), cancelling⟩ =>
    if cancelling && !o.isCancelled then none
    else
      some { s with
        handles := s.handles.settle a.wake (answer o)
        resolvers := s.resolvers.moveTo r .done }
  | _ => none

/-- The callback of a resolver that is done. -/
def discard (r : ℕ) (s : EventLoop α ε) : Option (EventLoop α ε) :=
  if s.resolvers.Running r then none
  else some { s with reentrantTasks := s.reentrantTasks.erase r }

/-! ### Stopping -/

def drainPendingHandles (queue : List Item) (hs : Handles α ε) : Handles α ε :=
  match queue with
  | [] => hs
  | .stopSentinel :: rest => drainPendingHandles rest hs
  | .wake a :: rest => drainPendingHandles rest (hs.settle a.wake (.resolved []))

def finishStop (k : ℕ) (s : EventLoop α ε) : EventLoop α ε :=
  { s with
    queue := []
    handles := drainPendingHandles s.queue s.handles
    task := none
    stops := s.stops.set k .over
    log := s.log ++ [.returned] }

/-- The queue is poisoned, or the supervisor cancelled when it is full. -/
def poison (size : ℕ) (k : ℕ) (s : EventLoop α ε) : EventLoop α ε :=
  match s.task with
  | none => s.finishStop k
  | some t =>
    if s.supervisors.Running t then
      match s.putNowait size .stopSentinel with
      | none => { s with supervisors := s.supervisors.cancelAll [t]
                         stops := s.stops.set k (.supervisor t) }
      | some s => { s with stops := s.stops.set k (.supervisor t) }
    else s.finishStop k

def stop (size : ℕ) (s : EventLoop α ε) : EventLoop α ε :=
  let k := s.stops.length
  let snapshot := s.reentrantTasks
  let s := { s with
    stopped := true
    resolvers := s.resolvers.cancelAll snapshot
    stops := s.stops ++ [.resolvers snapshot]
    log := s.log ++ [.stopped] }
  if snapshot = [] then s.poison size k else s

/-- What a call of `stop` waits for is done. -/
def resumeStop (size : ℕ) (k : ℕ) (s : EventLoop α ε) : Option (EventLoop α ε) :=
  match s.stops[k]? with
  | some (.resolvers snapshot) =>
    if ∀ r ∈ snapshot, ¬ s.resolvers.Running r then some (s.poison size k) else none
  | some (.supervisor t) | some (.cancelled t) =>
    if s.supervisors.Running t then none else some (s.finishStop k)
  | _ => none

/-- A call of `stop` has waited long enough. It goes on waiting for resolvers, cancelled again, and
for a supervisor it cancels. It fails when another call has made the task `None`. -/
def timeoutStop (k : ℕ) (s : EventLoop α ε) : Option (EventLoop α ε) :=
  match s.stops[k]? with
  | some (.resolvers snapshot) => some { s with resolvers := s.resolvers.cancelAll snapshot }
  | some (.supervisor _) =>
    match s.task with
    | none => some { s with stops := s.stops.set k .over }
    | some t =>
      if s.supervisors.Running t then
        some { s with supervisors := s.supervisors.cancelAll [t]
                      stops := s.stops.set k (.cancelled t) }
      else some (s.finishStop k)
  | _ => none

end EventLoop

inductive Event (α ε : Type) where
  | enqueue (caller : Option ℕ) (wake : WakeEvent)
  | start
  | stop
  | resumeStop (k : ℕ)
  | timeoutStop (k : ℕ)
  | run (t : ℕ)
  | handlerEnds (t : ℕ) (o : Outcome α ε)
  | beginResolver (r : ℕ)
  | endResolver (r : ℕ) (o : Outcome α ε)
  | discard (r : ℕ)
  /-- Whoever awaits a handle gives it up. -/
  | cancelHandle (h : ℕ)

def step {α ε : Type} (size : ℕ) (s : EventLoop α ε) : Event α ε → Option (EventLoop α ε)
  | .enqueue none wake => some (s.enqueue size none wake).1
  | .enqueue (some t) wake => (s.handling t).map fun _ => (s.enqueue size (some t) wake).1
  | .start => some s.start
  | .stop => some (s.stop size)
  | .resumeStop k => s.resumeStop size k
  | .timeoutStop k => s.timeoutStop k
  | .run t => s.run t
  | .handlerEnds t o => s.handleWakeSupervised t o
  | .beginResolver r => s.beginResolver r
  | .endResolver r o => s.endResolver r o
  | .discard r => s.discard r
  | .cancelHandle h => some { s with handles := s.handles.set h .cancelled }

def eventLoop (α ε : Type) (size : ℕ) : System (EventLoop α ε) (Event α ε) := ⟨.new, step size⟩

end Persatrix.Wakes
