import Persatrix.PlannerLevels
import Persatrix.PlannerTemplate
import Persatrix.System
import Mathlib.Data.List.Pairwise
import Mathlib.Logic.Function.Basic

/-!
# Stage runner

The execution of one run from its first stage on. The steps of a stage run in one
goroutine each, in any order, and share the map of outputs: a goroutine copies the
map under the lock, resolves the input of its step against the copy, has the
request executed, and stores the output under the lock. The next stage begins when
all goroutines have ended. Between two stages the context may be found cancelled.

The executor and the pre-dispatch budget check answer arbitrarily. The packager is a
parameter: a function of what `attachContextPackage` passes it. The maps of outputs
and variables are given by their lookup functions. Step limits come from the agent
registry and are left out of the request.
-/
namespace Persatrix.Scheduler
open Planner

/-- The budget of every step, keyed by step; empty when packaging is disabled. -/
def allocateContextBudgets (workflowTotal : ℤ) (steps : List Step) : GoMap String ℤ :=
  if workflowTotal ≤ 0 ∨ steps = [] then ∅
  else
    let overridden := steps.filter fun step => 0 < step.contextBudget
    let overrideSum := overridden.foldl (fun sum step => int64 (sum + step.contextBudget)) 0
    let remaining := max 0 (int64 (workflowTotal - overrideSum))
    let nonOverridden := steps.length - overridden.length
    let perStep := if 0 < nonOverridden then remaining / nonOverridden else 0
    steps.foldl (fun out step => AList.insert step.id
      (if 0 < step.contextBudget then step.contextBudget else perStep) out) ∅

/-- `errors.Join`: one error a line. -/
def joinErrors (errs : List String) : String := String.intercalate "\n" errs

def contextPackageKey : String := "_context_package"

structure ExecuteRequest where
  executionID : String
  stepID : String
  workflowID : String
  agentID : String
  payload : String
  context : String → Option String
  cacheable : Bool

/-- A run whose workflow file was parsed, found acyclic and planned. -/
structure PlannedRun where
  executionID : String
  file : WorkflowFile
  plan : ExecutionPlan
  vars : String → Option String
  packageContext : Step → (String → Option String) → String → ℤ → Except String String
  valid : validate file = .ok ()
  acyclic : validateDAG file.workflow = some (.ok ())
  planned : Planner.plan file.workflow = some (.ok plan)

/-- Where a step failed. -/
inductive FailedAt where
  | resolve | budget | package | execute
  deriving DecidableEq

/-- How far the goroutine of a step has come. -/
inductive Phase where
  | waiting
  | copied (outputsCopy : String → Option String)
  | dispatched (request : ExecuteRequest)
  | returned (request : ExecuteRequest) (output : String)
  | finished (request : ExecuteRequest) (output : String)
  | failed (place : FailedAt) (error : String)

def Phase.request : Phase → Option ExecuteRequest
  | .dispatched request | .returned request _ | .finished request _ => some request
  | _ => none

def Phase.output : Phase → Option String
  | .finished _ output => some output
  | _ => none

/-- The goroutine has ended. -/
def Phase.ended : Phase → Bool
  | .finished _ _ | .failed _ _ => true
  | _ => false

structure RunState where
  stage : ℕ := 0
  outputs : String → Option String := fun _ => none
  phase : String → Phase := fun _ => .waiting
  errs : List String := []
  failed : Option String := none

inductive Event where
  | snapshot (stepID : String)
  | prepare (stepID : String) (rejection : Option String)
  | respond (stepID : String) (result : Except String String)
  | store (stepID : String)
  | barrier
  | cancel

namespace RunState

def setPhase (s : RunState) (stepID : String) (phase : Phase) : RunState :=
  { s with phase := Function.update s.phase stepID phase }

/-- Marks the step failed and sends its error to the stage. -/
def fail (s : RunState) (stepID : String) (place : FailedAt) (error : String) : RunState :=
  { s.setPhase stepID (.failed place error) with
    errs := s.errs ++ [s!"step {stepID.quote}: {error}"] }

end RunState

namespace PlannedRun
variable (run : PlannedRun)

def workflow : Workflow := run.file.workflow

def stageSteps (k : ℕ) : List Step := (run.plan.stages[k]?).getD []

def current (s : RunState) (stepID : String) : Option Step :=
  (run.stageSteps s.stage).find? fun step => step.id = stepID

/-- The context of the request: the copy, with the package where the step has a budget.
A step runs once, so its allocation has not been reduced by an earlier attempt. -/
def attachContextPackage (step : Step) (outputsCopy : String → Option String)
    (resolved : String) : Except String (String → Option String) :=
  let budgets := allocateContextBudgets run.workflow.contextBudgetTotal run.workflow.steps
  let budget := (budgets.lookup step.id).getD 0
  if 0 < budget then
    match run.packageContext step outputsCopy resolved budget with
    | .error e => .error s!"context packaging failed: {e}"
    | .ok encoded => .ok (Function.update outputsCopy contextPackageKey (some encoded))
  else .ok outputsCopy

def makeRequest (step : Step) (payload : String) (context : String → Option String) :
    ExecuteRequest where
  executionID := run.executionID
  stepID := step.id
  workflowID := run.workflow.id
  agentID := step.agentID
  payload := payload
  context := context
  cacheable := step.cacheable

/-- The goroutine from its copy of the outputs to the dispatch. -/
def prepare (s : RunState) (step : Step) (outputsCopy : String → Option String)
    (rejection : Option String) : RunState :=
  match resolveInputs step ⟨outputsCopy, run.vars⟩ with
  | .error e => s.fail step.id .resolve e
  | .ok resolved =>
    match rejection with
    | some e => s.fail step.id .budget s!"budget exceeded: {e}"
    | none =>
      match run.attachContextPackage step outputsCopy resolved with
      | .error e => s.fail step.id .package e
      | .ok context => s.setPhase step.id (.dispatched (run.makeRequest step resolved context))

def next (s : RunState) (event : Event) : Option RunState :=
  if s.failed.isSome then none
  else
    match event with
    | .snapshot stepID =>
      match run.current s stepID, s.phase stepID with
      | some _, .waiting => some (s.setPhase stepID (.copied s.outputs))
      | _, _ => none
    | .prepare stepID rejection =>
      match run.current s stepID, s.phase stepID with
      | some step, .copied outputsCopy => some (run.prepare s step outputsCopy rejection)
      | _, _ => none
    | .respond stepID result =>
      match run.current s stepID, s.phase stepID with
      | some _, .dispatched request =>
        match result with
        | .error e => some (s.fail stepID .execute e)
        | .ok output => some (s.setPhase stepID (.returned request output))
      | _, _ => none
    | .store stepID =>
      match run.current s stepID, s.phase stepID with
      | some step, .returned request output =>
        let stored := if step.outputKey ≠ "" then
          Function.update s.outputs step.outputKey (some output) else s.outputs
        some { s.setPhase stepID (.finished request output) with outputs := stored }
      | _, _ => none
    | .barrier =>
      if s.stage < run.plan.stages.length ∧
          (run.stageSteps s.stage).all fun step => (s.phase step.id).ended then
        if s.errs ≠ [] then
          some { s with failed := some s!"stage {s.stage}: {joinErrors s.errs}" }
        else some { s with stage := s.stage + 1 }
      else none
    | .cancel =>
      if s.stage < run.plan.stages.length ∧
          (run.stageSteps s.stage).all fun step =>
            match s.phase step.id with | .waiting => true | _ => false then
        some { s with failed := some "context cancelled" }
      else none

/-- All interleavings of the goroutines of the run. -/
def system : System RunState Event := ⟨{}, run.next⟩

theorem wellFormed : WellFormed run.workflow := validate_wellFormed run.valid

theorem plan_stages : run.plan.stages.flatten.Perm run.workflow.steps ∧
    ∀ k stage, run.plan.stages[k]? = some stage → stage ≠ [] ∧
      ∀ step ∈ stage, LongestChain (DependsOn run.workflow) k step.id := by
  rcases plan_cases run.wellFormed with ⟨p, hplan, hperm, hstage, -⟩ | ⟨⟨_, herror⟩, -⟩
  · obtain rfl : p = run.plan := by
      have heq := hplan.symm.trans run.planned
      simpa using heq
    exact ⟨hperm, hstage⟩
  · have heq := herror.symm.trans run.planned
    simp at heq

variable {run}

theorem mem_stageSteps {k : ℕ} {step : Step} (h : step ∈ run.stageSteps k) :
    step ∈ run.workflow.steps ∧ LongestChain (DependsOn run.workflow) k step.id := by
  unfold stageSteps at h
  cases hstage : run.plan.stages[k]? with
  | none => simp [hstage] at h
  | some stage =>
    rw [hstage, Option.getD_some] at h
    refine ⟨run.plan_stages.1.mem_iff.mp ?_, (run.plan_stages.2 k stage hstage).2 step h⟩
    exact List.mem_flatten.mpr ⟨stage, List.mem_of_getElem? hstage, h⟩

/-- A step that depends on another is in a later stage. -/
theorem stage_lt_of_dependsOn {j k : ℕ} {a b : String}
    (ha : LongestChain (DependsOn run.workflow) k a)
    (hb : LongestChain (DependsOn run.workflow) j b)
    (h : Relation.TransGen (DependsOn run.workflow) a b) : j < k := by
  have hgrow : ∀ n c d, Relation.TransGen (DependsOn run.workflow) c d →
      Chain (DependsOn run.workflow) n d → Chain (DependsOn run.workflow) (n + 1) c := by
    intro n c d hcd hd
    induction hcd using Relation.TransGen.head_induction_on with
    | single hdep => exact .cons hdep hd
    | head hdep _ ih => exact .cons hdep (ih.mono (Nat.le_succ n))
  exact ha.longest _ (hgrow j a b h hb.chain)

theorem step_eq {a b : Step} (ha : a ∈ run.workflow.steps) (hb : b ∈ run.workflow.steps)
    (hid : a.id = b.id) : a = b := step_unique run.wellFormed ha hb hid

theorem key_eq {a b : Step} (ha : a ∈ run.workflow.steps) (hb : b ∈ run.workflow.steps)
    (hkey : a.outputKey = b.outputKey) (hne : a.outputKey ≠ "") : a = b := by
  by_contra hab
  have : Std.Symm fun a b : Step => a.outputKey ≠ "" → a.outputKey ≠ b.outputKey :=
    ⟨fun a b hdiff hb heq => hdiff (heq ▸ hb) heq.symm⟩
  exact run.wellFormed.distinctKeys.forall ha hb hab hne hkey

theorem current_eq_some {s : RunState} {stepID : String} {step : Step}
    (h : run.current s stepID = some step) : step ∈ run.stageSteps s.stage ∧ step.id = stepID :=
  ⟨List.mem_of_find?_eq_some h, by simpa using List.find?_some h⟩

end PlannedRun
end Persatrix.Scheduler
