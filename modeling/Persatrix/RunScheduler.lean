import Persatrix.GoValues
import Persatrix.System
import Mathlib.Data.List.Perm.Basic
import Mathlib.Logic.Function.Basic

/-!
# In-memory run store

The records of workflow runs. Every operation holds the store's lock from its first
to its last line, and every record that goes in or out is copied, so an operation is
one function of the map. The zero value of a timestamp is `none`. The metadata of a
step and its remaining context budget are left out.
-/
namespace Persatrix.Runs

inductive RunStatus where
  | pending | running | completed | failed | cancelled | retrying
  deriving DecidableEq

/-- The sentinel errors. -/
inductive StoreError where
  | runAlreadyExists | runNotFound
  deriving DecidableEq

def StoreError.text : StoreError → String
  | .runAlreadyExists => "run already exists"
  | .runNotFound => "run not found"

structure StepState where
  stepID : String
  status : RunStatus
  output : String := ""
  error : String := ""
  startedAt : Option ℤ := none
  finishedAt : Option ℤ := none
  deriving DecidableEq

structure WorkflowRun where
  id : String := ""
  workflowID : String
  status : RunStatus
  steps : GoMap String StepState := ∅
  error : String := ""
  startedAt : Option ℤ := none
  finishedAt : Option ℤ := none
  inputs : GoMap String String := ∅

abbrev InMemoryStore := GoMap String WorkflowRun

namespace InMemoryStore

/-- A run without an id is given `newID`. -/
def createRun (store : InMemoryStore) (newID : String) (run : WorkflowRun) :
    Except StoreError InMemoryStore :=
  let id := if run.id = "" then newID else run.id
  match store.lookup id with
  | some _ => .error .runAlreadyExists
  | none => .ok (AList.insert id { run with id := id } store)

def getRun (store : InMemoryStore) (runID : String) : Except StoreError WorkflowRun :=
  match store.lookup runID with
  | none => .error .runNotFound
  | some run => .ok run

/-- The runs in the order in which the range loop meets them. -/
def listRuns (store : InMemoryStore) (order : List String) : List WorkflowRun :=
  order.filterMap store.lookup

/-- What the operations on an existing run have in common. -/
def modify (store : InMemoryStore) (runID : String) (change : WorkflowRun → WorkflowRun) :
    Except StoreError InMemoryStore :=
  match store.lookup runID with
  | none => .error .runNotFound
  | some run => .ok (AList.insert runID (change run) store)

def updateRunStatus (store : InMemoryStore) (runID : String) (status : RunStatus) :
    Except StoreError InMemoryStore :=
  store.modify runID fun run => { run with status := status }

def updateStepState (store : InMemoryStore) (runID : String) (step : StepState) :
    Except StoreError InMemoryStore :=
  store.modify runID fun run => { run with steps := AList.insert step.stepID step run.steps }

def deleteRun (store : InMemoryStore) (runID : String) : Except StoreError InMemoryStore :=
  match store.lookup runID with
  | none => .error .runNotFound
  | some _ => .ok (store.erase runID)

/-- A time that is not given leaves the field as it is. -/
def setRunTimestamps (store : InMemoryStore) (runID : String) (startedAt finishedAt : Option ℤ) :
    Except StoreError InMemoryStore :=
  store.modify runID fun run => { run with
    startedAt := startedAt.orElse fun _ => run.startedAt
    finishedAt := finishedAt.orElse fun _ => run.finishedAt }

def setRunError (store : InMemoryStore) (runID message : String) :
    Except StoreError InMemoryStore :=
  store.modify runID fun run => { run with error := message }

/-- The store after a call whose error is only logged. -/
def orLog (store : InMemoryStore) : Except StoreError InMemoryStore → InMemoryStore
  | .ok changed => changed
  | .error _ => store

variable {store : InMemoryStore}

theorem getRun_eq_ok {runID : String} {run : WorkflowRun} :
    store.getRun runID = .ok run ↔ store.lookup runID = some run := by
  unfold getRun
  cases store.lookup runID with
  | none => simp
  | some stored => simp

theorem mem_listRuns {order : List String} {run : WorkflowRun} :
    run ∈ store.listRuns order ↔ ∃ runID ∈ order, store.lookup runID = some run :=
  List.mem_filterMap

theorem lookup_createRun (store : InMemoryStore) (newID : String) (run : WorkflowRun)
    (hrun : run.id = "") (id : String) :
    AList.lookup id (store.orLog (store.createRun newID run)) =
      if id = newID ∧ store.lookup newID = none then some { run with id := newID }
      else store.lookup id := by
  unfold createRun
  generalize hid : (if run.id = "" then newID else run.id) = key
  obtain rfl : key = newID := hid.symm.trans (if_pos hrun)
  cases hold : store.lookup key with
  | some old => simp [orLog, hold]
  | none => simp [orLog, hold, GoMap.lookup_insert]

/-- A logged call changes the record it is about, if there is one, and no other. -/
theorem lookup_modify (store : InMemoryStore) (runID : String)
    (change : WorkflowRun → WorkflowRun) (id : String) :
    AList.lookup id (store.orLog (store.modify runID change)) =
      if id = runID then (store.lookup id).map change else store.lookup id := by
  unfold modify
  cases hold : store.lookup runID with
  | none =>
    simp only [orLog]
    split_ifs with heq
    · rw [heq, hold, Option.map_none]
    · rfl
  | some old =>
    simp only [orLog, GoMap.lookup_insert]
    split_ifs with heq
    · rw [heq, hold, Option.map_some]
    · rfl

theorem lookup_deleteRun (store : InMemoryStore) (runID id : String) :
    AList.lookup id (store.orLog (store.deleteRun runID)) =
      if id = runID then none else store.lookup id := by
  unfold deleteRun
  cases hold : store.lookup runID with
  | none =>
    simp only [orLog]
    split_ifs with heq
    · rw [heq, hold]
    · rfl
  | some old =>
    simp only [orLog]
    exact GoMap.lookup_erase store runID id

end InMemoryStore
end Persatrix.Runs

/-!
## Polls, runs and delete requests

Submissions, the poll loop, the goroutines that execute runs and the handlers of
delete requests work on one store, in any interleaving of their store calls. The poll
loop is one goroutine; it goes through the list it read while the others go on.

What is not in the store answers arbitrarily: the workflow file and its plan, the
goroutines of the steps, the clocks. Submissions that are refused change nothing and
are left out, and no context is cancelled.
-/
namespace Persatrix.Runs

/-- The UUID package and the configured bound on concurrent runs. A new UUID is one that
was not returned before. -/
structure Deployment where
  newUUID : ℕ → String
  newUUID_injective : Function.Injective newUUID
  parsesUUID : String → Bool
  maxConcurrent : ℕ

/-- How an execution ends. `failRun` is called before or after the run is set to running. -/
inductive Outcome where
  | completed
  | failed (running : Bool) (message : String)
  deriving DecidableEq

def Outcome.status : Outcome → RunStatus
  | .completed => .completed
  | .failed _ _ => .failed

/-- Where the goroutine of a run is: what it does next. -/
inductive Phase where
  | queued
  | loading
  | preparing
  | starting
  | started
  | executing
  | stamping (outcome : Outcome)
  | reporting (running : Bool) (message : String)
  | closing (outcome : Outcome)
  | releasing
  | forgetting
  deriving DecidableEq

/-- What a goroutine is given when it goes on. A missing message is success. -/
inductive Answer where
  | proceed
  | planned (failure : Option String)
  | clock (now : ℤ)
  | step (step : StepState)
  | stages (failure : Option String)

/-- One store call, or one answer, of `executeRun`. The ends of `executeRun` and `failRun`
stamp the time before they set the final status. -/
def executeRun (runID : String) (store : InMemoryStore) :
    Phase → Answer → Option (InMemoryStore × Phase)
  | .loading, .proceed =>
    match store.getRun runID with
    | .error _ => some (store, .releasing)
    | .ok run => some (store, if run.status ≠ .pending then .releasing else .preparing)
  | .preparing, .planned failure =>
    match failure with
    | some message => some (store, .stamping (.failed false message))
    | none => some (store, .starting)
  | .starting, .proceed =>
    match store.updateRunStatus runID .running with
    | .error _ => some (store, .releasing)
    | .ok changed => some (changed, .started)
  | .started, .clock now =>
    some (store.orLog (store.setRunTimestamps runID (some now) none), .executing)
  | .executing, .step step => some (store.orLog (store.updateStepState runID step), .executing)
  | .executing, .stages failure =>
    match failure with
    | some message => some (store, .stamping (.failed true message))
    | none => some (store, .stamping .completed)
  | .stamping outcome, .clock now =>
    some (store.orLog (store.setRunTimestamps runID none (some now)),
      match outcome with
      | .completed => .closing .completed
      | .failed running message => .reporting running message)
  | .reporting running message, .proceed =>
    some (store.orLog (store.setRunError runID message), .closing (.failed running message))
  | .closing outcome, .proceed =>
    some (store.orLog (store.updateRunStatus runID outcome.status), .releasing)
  | _, _ => none

structure Goroutine where
  runID : String
  phase : Phase
  deriving DecidableEq

/-- Delete handlers are listed by the run they have found not running. -/
structure Orchestrator where
  store : InMemoryStore := ∅
  generated : ℕ := 0
  poll : Option (List WorkflowRun) := none
  inFlight : String → Bool := fun _ => false
  holders : ℕ := 0
  goroutine : ℕ → Option Goroutine := fun _ => none
  spawned : ℕ := 0
  deleting : List String := []

inductive Event where
  | submit (workflowID : String) (inputs : GoMap String String) (now : ℤ)
  | listRuns (order : List String)
  | pollNext
  | acquire (k : ℕ)
  | run (k : ℕ) (answer : Answer)
  | release (k : ℕ)
  | forget (k : ℕ)
  | checkDelete (runID : String)
  | delete (runID : String)

namespace Orchestrator

def setGoroutine (s : Orchestrator) (k : ℕ) (runID : String) (phase : Phase) : Orchestrator :=
  { s with goroutine := Function.update s.goroutine k (some ⟨runID, phase⟩) }

/-- One turn of the loop over the listed runs. -/
def pollNext (s : Orchestrator) : List WorkflowRun → Orchestrator
  | [] => { s with poll := none }
  | run :: later =>
    if run.status ≠ .pending then { s with poll := some later }
    else if s.inFlight run.id then { s with poll := some later }
    else
      { s.setGoroutine s.spawned run.id .queued with
        poll := some later
        inFlight := Function.update s.inFlight run.id true
        spawned := s.spawned + 1 }

end Orchestrator

variable (d : Deployment)

def next (s : Orchestrator) : Event → Option Orchestrator
  | .submit workflowID inputs now =>
    let run : WorkflowRun :=
      { workflowID := workflowID, status := .pending, startedAt := some now, inputs := inputs }
    some { s with
      store := s.store.orLog (s.store.createRun (d.newUUID s.generated) run)
      generated := s.generated + 1 }
  | .listRuns order =>
    if s.poll.isNone ∧ order.Perm s.store.keys then
      some { s with poll := some (s.store.listRuns order) }
    else none
  | .pollNext => s.poll.map s.pollNext
  | .acquire k =>
    match s.goroutine k with
    | some ⟨runID, .queued⟩ =>
      if s.holders < d.maxConcurrent then
        some { s.setGoroutine k runID .loading with holders := s.holders + 1 }
      else none
    | _ => none
  | .run k answer =>
    match s.goroutine k with
    | some ⟨runID, phase⟩ =>
      (executeRun runID s.store phase answer).map fun r =>
        { s.setGoroutine k runID r.2 with store := r.1 }
    | none => none
  | .release k =>
    match s.goroutine k with
    | some ⟨runID, .releasing⟩ =>
      some { s.setGoroutine k runID .forgetting with holders := s.holders - 1 }
    | _ => none
  | .forget k =>
    match s.goroutine k with
    | some ⟨runID, .forgetting⟩ =>
      some { s with
        inFlight := Function.update s.inFlight runID false
        goroutine := Function.update s.goroutine k none }
    | _ => none
  | .checkDelete runID =>
    if d.parsesUUID runID then
      match s.store.getRun runID with
      | .error _ => some s
      | .ok run =>
        if run.status = .running then some s else some { s with deleting := runID :: s.deleting }
    else some s
  | .delete runID =>
    if runID ∈ s.deleting then
      some { s with
        store := s.store.orLog (s.store.deleteRun runID)
        deleting := s.deleting.erase runID }
    else none

def system : System Orchestrator Event := ⟨{}, next d⟩

variable {d} {s t : Orchestrator}

/-- Everything an event can do to the runs and their goroutines. -/
inductive Moves (d : Deployment) (s : Orchestrator) : Event → Orchestrator → Prop
  | submit {workflowID : String} {inputs : GoMap String String} {now : ℤ} {run : WorkflowRun} :
      run.id = "" → run.status = .pending →
      Moves d s (.submit workflowID inputs now)
        { s with
          store := s.store.orLog (s.store.createRun (d.newUUID s.generated) run)
          generated := s.generated + 1 }
  | poll {e : Event} {poll : Option (List WorkflowRun)} :
      (∀ k answer, e ≠ .run k answer) → Moves d s e { s with poll := poll }
  | spawn {runID : String} {poll : Option (List WorkflowRun)} : s.inFlight runID = false →
      Moves d s .pollNext
        { s.setGoroutine s.spawned runID .queued with
          poll := poll
          inFlight := Function.update s.inFlight runID true
          spawned := s.spawned + 1 }
  | acquire {k : ℕ} {runID : String} {holders : ℕ} :
      s.goroutine k = some ⟨runID, .queued⟩ →
      Moves d s (.acquire k) { s.setGoroutine k runID .loading with holders := holders }
  | run {k : ℕ} {answer : Answer} {runID : String} {phase after : Phase} {store : InMemoryStore} :
      s.goroutine k = some ⟨runID, phase⟩ →
      executeRun runID s.store phase answer = some (store, after) →
      Moves d s (.run k answer) { s.setGoroutine k runID after with store := store }
  | release {k : ℕ} {runID : String} {holders : ℕ} :
      s.goroutine k = some ⟨runID, .releasing⟩ →
      Moves d s (.release k) { s.setGoroutine k runID .forgetting with holders := holders }
  | forget {k : ℕ} {runID : String} : s.goroutine k = some ⟨runID, .forgetting⟩ →
      Moves d s (.forget k)
        { s with
          inFlight := Function.update s.inFlight runID false
          goroutine := Function.update s.goroutine k none }
  | refuse {runID : String} : Moves d s (.checkDelete runID) s
  | accept {runID : String} {run : WorkflowRun} : s.store.lookup runID = some run →
      run.status ≠ .running →
      Moves d s (.checkDelete runID) { s with deleting := runID :: s.deleting }
  | delete {runID : String} : runID ∈ s.deleting →
      Moves d s (.delete runID)
        { s with
          store := s.store.orLog (s.store.deleteRun runID)
          deleting := s.deleting.erase runID }

theorem moves_of_next {e : Event} (h : next d s e = some t) : Moves d s e t := by
  unfold next at h
  cases e with
  | submit workflowID inputs now =>
    cases h
    exact .submit rfl rfl
  | listRuns order =>
    dsimp only at h
    split_ifs at h
    cases h
    exact .poll (by simp)
  | pollNext =>
    obtain ⟨runs, -, rfl⟩ := Option.map_eq_some_iff.mp h
    cases runs with
    | nil => exact .poll (by simp)
    | cons run later =>
      simp only [Orchestrator.pollNext]
      split_ifs with hpending hflight
      · exact .poll (by simp)
      · exact .poll (by simp)
      · exact .spawn (Bool.eq_false_iff.mpr hflight)
  | acquire k =>
    dsimp only at h
    split at h
    next runID hk =>
      split_ifs at h
      cases h
      exact .acquire hk
    next => cases h
  | run k answer =>
    dsimp only at h
    split at h
    next runID phase hk =>
      obtain ⟨⟨store, after⟩, hrun, rfl⟩ := Option.map_eq_some_iff.mp h
      exact .run hk hrun
    next => cases h
  | release k =>
    dsimp only at h
    split at h
    next runID hk =>
      cases h
      exact .release hk
    next => cases h
  | forget k =>
    dsimp only at h
    split at h
    next runID hk =>
      cases h
      exact .forget hk
    next => cases h
  | checkDelete runID =>
    dsimp only at h
    split_ifs at h
    · cases hget : s.store.getRun runID with
      | error e =>
        rw [hget] at h
        cases h
        exact .refuse
      | ok run =>
        rw [hget] at h
        dsimp only at h
        split_ifs at h with hrunning
        · cases h
          exact .refuse
        · cases h
          exact .accept (InMemoryStore.getRun_eq_ok.mp hget) hrunning
    · cases h
      exact .refuse
  | delete runID =>
    dsimp only at h
    split_ifs at h with hmem
    cases h
    exact .delete hmem

/-- What one call of `executeRun` writes into the record of its run. -/
def written : Phase → Answer → WorkflowRun → WorkflowRun
  | .starting, .proceed, run => { run with status := .running }
  | .started, .clock now, run => { run with startedAt := some now }
  | .executing, .step step, run => { run with steps := AList.insert step.stepID step run.steps }
  | .stamping _, .clock now, run => { run with finishedAt := some now }
  | .reporting _ message, .proceed, run => { run with error := message }
  | .closing outcome, .proceed, run => { run with status := outcome.status }
  | _, _, run => run

/-- `executeRun` writes into the record of its run, if the store has it, and into no other. -/
theorem lookup_executeRun {runID : String} {store after : InMemoryStore} {phase later : Phase}
    {answer : Answer} (h : executeRun runID store phase answer = some (after, later))
    (id : String) : after.lookup id =
      if id = runID then (store.lookup id).map (written phase answer) else store.lookup id := by
  have hkeep : store.lookup id = if id = runID then (store.lookup id).map (fun run => run)
      else store.lookup id := by simp
  unfold executeRun at h
  split at h
  · split at h
    · cases h
      exact hkeep
    · cases h
      exact hkeep
  · split at h
    · cases h
      exact hkeep
    · cases h
      exact hkeep
  · have hmodify := InMemoryStore.lookup_modify store runID
      (written .starting .proceed) id
    split at h
    next e herror =>
      cases h
      rw [← hmodify]
      change _ = AList.lookup id (store.orLog (store.updateRunStatus runID .running))
      rw [herror]
      rfl
    next changed hok =>
      cases h
      rw [← hmodify]
      change _ = AList.lookup id (store.orLog (store.updateRunStatus runID .running))
      rw [hok]
      rfl
  · cases h
    exact InMemoryStore.lookup_modify store runID (written .started (.clock _)) id
  · cases h
    exact InMemoryStore.lookup_modify store runID (written .executing (.step _)) id
  · split at h
    · cases h
      exact hkeep
    · cases h
      exact hkeep
  · cases h
    exact InMemoryStore.lookup_modify store runID (written (.stamping _) (.clock _)) id
  · cases h
    exact InMemoryStore.lookup_modify store runID (written (.reporting _ _) .proceed) id
  · cases h
    exact InMemoryStore.lookup_modify store runID (written (.closing _) .proceed) id
  · cases h

theorem written_id (phase : Phase) (answer : Answer) (run : WorkflowRun) :
    (written phase answer run).id = run.id := by
  unfold written
  split
  all_goals rfl

/-- Every record is stored under its id. -/
theorem stored_under_id (h : (system d).Reachable s) :
    ∀ id run, s.store.lookup id = some run → run.id = id := by
  refine h.invariant (I := fun s => ∀ id run, s.store.lookup id = some run → run.id = id) ?_ ?_
  · intro id run hrun
    simp [system] at hrun
  · intro s e t hs hnext id run hrun
    cases moves_of_next hnext with
    | submit hid _ =>
      dsimp only at hrun
      rw [InMemoryStore.lookup_createRun _ _ _ hid] at hrun
      split_ifs at hrun with hnew
      · cases hrun
        exact hnew.1.symm
      · exact hs id run hrun
    | run _ hturn =>
      dsimp only at hrun
      rw [lookup_executeRun hturn] at hrun
      split_ifs at hrun
      · obtain ⟨old, hold, rfl⟩ := Option.map_eq_some_iff.mp hrun
        rw [written_id]
        exact hs id old hold
      · exact hs id run hrun
    | delete _ =>
      dsimp only at hrun
      rw [InMemoryStore.lookup_deleteRun] at hrun
      split_ifs at hrun
      exact hs id run hrun
    | poll _ | spawn _ | acquire _ | release _ | forget _ | refuse | accept _ _ =>
      exact hs id run hrun

end Persatrix.Runs
