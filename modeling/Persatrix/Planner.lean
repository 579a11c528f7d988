import Persatrix.Countdown

/-!
# Workflow planner

What the planner does with a decoded workflow file: structural validation, the
cycle check by depth-first search with three colours, and the levelling of the
steps into stages. Opening and decoding the file come before all of this and are
left out, as are the fields nothing here reads.

The search and the two loops that follow a map (the trace of a cycle, the levels
of the queue) take a bound on their iterations. `none` stands for a call that
does not return within it.
-/
namespace Persatrix.Planner

/-- A step of a workflow; absent fields hold Go's zero values. -/
structure Step where
  id : String := ""
  agentID : String := ""
  input : String := ""
  outputKey : String := ""
  dependsOn : List String := []
  timeoutSeconds : ℤ := 0
  maxLLMCalls : ℤ := 0
  maxTokens : ℤ := 0
  contextBudget : ℤ := 0
  cacheable : Bool := false
  deriving DecidableEq

structure Workflow where
  id : String := ""
  name : String := ""
  contextBudgetTotal : ℤ := 0
  steps : List Step := []

structure WorkflowFile where
  schemaVersion : String
  workflow : Workflow

structure ExecutionPlan where
  workflowID : String
  stages : List (List Step)

/-- The class `[a-z0-9]`. -/
def isLowerAlnum (c : Char) : Bool := ('a' ≤ c && c ≤ 'z') || ('0' ≤ c && c ≤ '9')

/-- The rest of an identifier after its first character: inner characters, then a last
one that is a letter or a digit. -/
def matchesIDTail (inner : Char → Bool) (tail : List Char) : Bool :=
  tail.all inner && tail.getLast?.any isLowerAlnum

def resourceIDPattern : String := "^[a-z0-9][a-z0-9-]*[a-z0-9]$"

def matchesResourceID (s : String) : Bool :=
  match s.toList with
  | [] => false
  | c :: tail => isLowerAlnum c && matchesIDTail (fun c => isLowerAlnum c || c == '-') tail

def stepIDPattern : String := "[a-z0-9](?:[a-z0-9_-]*[a-z0-9])?"

/-- The class `[a-z0-9_-]`. -/
def isStepIDChar (c : Char) : Bool := isLowerAlnum c || c == '_' || c == '-'

def matchesStepIDChars : List Char → Bool
  | [] => false
  | c :: tail => isLowerAlnum c && (tail.isEmpty || matchesIDTail isStepIDChar tail)

def matchesStepID (s : String) : Bool := matchesStepIDChars s.toList

def require (holds : Bool) (message : String) : Except String Unit :=
  if holds then .ok () else .error message

/-- The checks on the step's output key; returns the keys seen so far with this one. -/
def validateOutputKey (outputKeys : GoMap String String) (step : Step) :
    Except String (GoMap String String) :=
  if step.outputKey = "" then .ok outputKeys
  else do
    require (matchesStepID step.outputKey)
      s!"step {step.id.quote}: invalid output_key {step.outputKey.quote}: must match ^{stepIDPattern}$"
    match outputKeys.lookup step.outputKey with
    | some existing =>
      .error s!"step {step.id.quote}: duplicate output_key {step.outputKey.quote} (already used by step {existing.quote})"
    | none => .ok (AList.insert step.outputKey step.id outputKeys)

/-- One iteration of the first loop of `validate`. -/
def validateStep (i : ℕ) (stepIDs : List String) (outputKeys : GoMap String String)
    (step : Step) : Except String (GoMap String String) := do
  require (step.id ≠ "") s!"step {i}: id is required"
  require (matchesStepID step.id)
    s!"step {i}: invalid step id {step.id.quote}: must match ^{stepIDPattern}$"
  require (step.id ∉ stepIDs) s!"step {i}: duplicate step id {step.id.quote}"
  require (step.agentID ≠ "") s!"step {step.id.quote}: agent is required"
  require (matchesResourceID step.agentID)
    s!"step {step.id.quote}: invalid agent id {step.agentID.quote}: must match {resourceIDPattern}"
  require (step.input ≠ "") s!"step {step.id.quote}: input is required"
  let outputKeys ← validateOutputKey outputKeys step
  require (0 ≤ step.timeoutSeconds)
    s!"step {step.id.quote}: timeout_seconds must not be negative"
  require (0 ≤ step.maxLLMCalls) s!"step {step.id.quote}: max_llm_calls must not be negative"
  require (0 ≤ step.maxTokens) s!"step {step.id.quote}: max_tokens must not be negative"
  require (0 ≤ step.contextBudget) s!"step {step.id.quote}: context_budget must not be negative"
  return outputKeys

def validateSteps : ℕ → List String → GoMap String String → List Step → Except String (List String)
  | _, stepIDs, _, [] => return stepIDs
  | i, stepIDs, outputKeys, step :: steps => do
    let outputKeys ← validateStep i stepIDs outputKeys step
    validateSteps (i + 1) (step.id :: stepIDs) outputKeys steps

def validateDependsOn (stepIDs : List String) (step : Step) : Except String Unit :=
  step.dependsOn.forM fun dep => do
    require (dep ≠ step.id) s!"step {step.id.quote}: depends_on references itself"
    require (dep ∈ stepIDs)
      s!"step {step.id.quote}: depends_on references nonexistent step {dep.quote}"

/-- The sum of the positive overrides and the number of the other steps, as `int` sums. -/
def contextBudgetSums (steps : List Step) : ℤ × ℤ :=
  steps.foldl (fun acc step =>
    if 0 < step.contextBudget then (int64 (acc.1 + step.contextBudget), acc.2)
    else (acc.1, int64 (acc.2 + 1))) (0, 0)

def validateContextBudget (w : Workflow) : Except String Unit := do
  require (0 ≤ w.contextBudgetTotal)
    s!"workflow {w.id.quote}: context_budget_total must not be negative"
  if 0 < w.contextBudgetTotal then
    let (overrideSum, nonOverriddenCount) := contextBudgetSums w.steps
    require (overrideSum ≤ w.contextBudgetTotal)
      s!"workflow {w.id.quote}: sum of per-step context_budget overrides ({overrideSum}) exceeds context_budget_total ({w.contextBudgetTotal})"
    let required := int64 (overrideSum + nonOverriddenCount)
    require (required ≤ w.contextBudgetTotal)
      s!"workflow {w.id.quote}: per-step context_budget overrides ({overrideSum}) plus {nonOverriddenCount} non-overridden step(s) requires at least {required} tokens but context_budget_total is {w.contextBudgetTotal} (each non-overridden step needs >= 1 token)"
  else
    w.steps.forM fun step =>
      require (step.contextBudget ≤ 0)
        s!"step {step.id.quote}: context_budget set ({step.contextBudget}) but workflow.context_budget_total is unset; either set the workflow total or remove the per-step override"

/-- Required fields, formats and references of a decoded file. -/
def validate (wf : WorkflowFile) : Except String Unit := do
  require (wf.schemaVersion = "0.1")
    s!"unsupported schema version: {wf.schemaVersion.quote} (expected \"0.1\")"
  let w := wf.workflow
  require (w.id ≠ "") "workflow id is required"
  require (matchesResourceID w.id)
    s!"invalid workflow id {w.id.quote}: must match {resourceIDPattern}"
  require (w.name ≠ "") "workflow name is required"
  require (w.steps ≠ []) "workflow must have at least one step"
  let stepIDs ← validateSteps 0 [] ∅ w.steps
  w.steps.forM (validateDependsOn stepIDs)
  validateContextBudget w

inductive Color where
  | white | gray | black
  deriving DecidableEq

/-- The maps the search writes. -/
structure Search where
  color : GoMap String Color := ∅
  parent : GoMap String String := ∅

namespace Search

def colorOf (s : Search) (id : String) : Color := (s.color.lookup id).getD .white

def paint (s : Search) (id : String) (c : Color) : Search :=
  { s with color := AList.insert id c s.color }

def setParent (s : Search) (child id : String) : Search :=
  { s with parent := AList.insert child id s.parent }

/-- The steps the loop appends while it follows the parents from `cur` to `dep`. -/
def trace (s : Search) (dep : String) : ℕ → String → Option (List String)
  | bound, cur =>
    if cur = dep then some []
    else
      match bound with
      | 0 => none
      | bound + 1 =>
        let up := (s.parent.lookup cur).getD ""
        (s.trace dep bound up).map (up :: ·)

end Search

def cycleMessage (cycle : List String) : String :=
  "cycle detected: " ++ String.intercalate " → " cycle.reverse

/-- Goes on after a call that returned without an error. -/
def andThen (call : Option (Except String Search))
    (next : Search → Option (Except String Search)) : Option (Except String Search) :=
  match call with
  | some (.ok s) => next s
  | stop => stop

/-- The loop over the dependencies of `id`; `dfs` explores a white one. -/
def visit (dfs : String → Search → Option (Except String Search)) (bound : ℕ) (id : String) :
    List String → Search → Option (Except String Search)
  | [], s => some (.ok s)
  | dep :: deps, s =>
    match s.colorOf dep with
    | .gray => (s.trace dep bound id).map fun path => .error (cycleMessage (dep :: id :: path))
    | .white => andThen (dfs dep (s.setParent dep id)) (visit dfs bound id deps)
    | .black => visit dfs bound id deps s

/-- The recursion, at most `depth` calls deep. -/
def dfs (adj : GoMap String (List String)) (bound : ℕ) :
    ℕ → String → Search → Option (Except String Search)
  | 0, _, _ => none
  | depth + 1, id, s =>
    andThen (visit (dfs adj bound depth) bound id ((adj.lookup id).getD []) (s.paint id .gray))
      fun s => some (.ok (s.paint id .black))

def exploreSteps (adj : GoMap String (List String)) (bound : ℕ) :
    List Step → Search → Option (Except String Search)
  | [], s => some (.ok s)
  | step :: steps, s =>
    if s.colorOf step.id = .white then
      andThen (dfs adj bound bound step.id s) (exploreSteps adj bound steps)
    else exploreSteps adj bound steps s

def adjacency (steps : List Step) : GoMap String (List String) :=
  steps.foldl (fun adj step => AList.insert step.id step.dependsOn adj) ∅

/-- Everything the search can meet: the steps and what they depend on. -/
def mentioned (steps : List Step) : List String :=
  steps.flatMap fun step => step.id :: step.dependsOn

/-- The search over the whole workflow; no path is longer than what is mentioned. -/
def validateDAG (w : Workflow) : Option (Except String Unit) :=
  (exploreSteps (adjacency w.steps) (mentioned w.steps).length w.steps {}).map fun r =>
    r.map fun _ => ()

def stepMap (steps : List Step) : GoMap String Step :=
  steps.foldl (fun m step => AList.insert step.id step m) ∅

def initialInDegree (steps : List Step) : GoMap String ℤ :=
  steps.foldl (fun m step => AList.insert step.id (step.dependsOn.length : ℤ) m) ∅

/-- Appends the step to the dependents of everything it depends on. -/
def addDependents (dependents : GoMap String (List String)) (step : Step) :
    GoMap String (List String) :=
  step.dependsOn.foldl (fun m dep => AList.insert dep ((m.lookup dep).getD [] ++ [step.id]) m)
    dependents

def dependentsMap (steps : List Step) : GoMap String (List String) :=
  steps.foldl addDependents ∅

structure Levelling where
  inDegree : GoMap String ℤ
  queue : List String
  stages : List (List Step)
  emitted : ℕ

/-- One iteration of the level loop: the queue becomes a stage, and the steps whose
last dependency was in it become the next queue. -/
def Levelling.round (steps : GoMap String Step) (dependents : GoMap String (List String))
    (p : Levelling) : Levelling :=
  let (inDegree, next) := p.queue.foldl (fun acc id =>
    ((dependents.lookup id).getD []).foldl GoMap.countDown acc) (p.inDegree, [])
  { inDegree := inDegree
    queue := next
    stages := p.stages ++ [p.queue.map fun id => (steps.lookup id).getD {}]
    emitted := p.emitted + p.queue.length }

def Levelling.loop (steps : GoMap String Step) (dependents : GoMap String (List String)) :
    ℕ → Levelling → Option Levelling
  | bound, p =>
    if p.queue = [] then some p
    else
      match bound with
      | 0 => none
      | bound + 1 => Levelling.loop steps dependents bound (p.round steps dependents)

def initialLevelling (steps : List Step) : Levelling where
  inDegree := initialInDegree steps
  queue := (steps.map (·.id)).filter fun id => (initialInDegree steps).get id = 0
  stages := []
  emitted := 0

/-- Every iteration of the level loop emits a step, so there are no more than steps. -/
def plan (w : Workflow) : Option (Except String ExecutionPlan) :=
  ((initialLevelling w.steps).loop (stepMap w.steps) (dependentsMap w.steps)
    w.steps.length).map fun p =>
      if p.emitted ≠ w.steps.length then
        .error s!"plan produced {p.emitted} steps but workflow has {w.steps.length} (possible cycle)"
      else .ok ⟨w.id, p.stages⟩

end Persatrix.Planner

/-!
## What structural validation guarantees

A workflow that passes validation has steps with distinct identifiers, output keys
that no two steps share, and dependencies that are other steps of the workflow.
-/
namespace Persatrix.Planner

structure WellFormed (w : Workflow) : Prop where
  nonempty : w.steps ≠ []
  nodup : (w.steps.map (·.id)).Nodup
  stepID : ∀ step ∈ w.steps, matchesStepID step.id = true
  outputKey : ∀ step ∈ w.steps, step.outputKey ≠ "" → matchesStepID step.outputKey = true
  distinctKeys : w.steps.Pairwise fun a b => a.outputKey ≠ "" → a.outputKey ≠ b.outputKey
  dependsOn : ∀ step ∈ w.steps, ∀ dep ∈ step.dependsOn,
    dep ≠ step.id ∧ dep ∈ w.steps.map (·.id)

theorem bind_eq_ok {α β : Type} {x : Except String α} {f : α → Except String β} {r : β} :
    (x >>= f) = .ok r ↔ ∃ a, x = .ok a ∧ f a = .ok r := by
  cases x with
  | error e => simp [bind, Except.bind]
  | ok a => simp [bind, Except.bind]

@[simp] theorem require_eq_ok {holds : Bool} {message : String} {u : Unit} :
    require holds message = .ok u ↔ holds = true := by
  cases holds <;> simp [require]

theorem forM_eq_ok {α : Type} {f : α → Except String Unit} {l : List α} {u : Unit} :
    l.forM f = .ok u ↔ ∀ x ∈ l, f x = .ok () := by
  induction l with
  | nil => simp [pure, Except.pure]
  | cons x l ih =>
    change (f x >>= fun _ => l.forM f) = .ok u ↔ _
    rw [bind_eq_ok, List.forall_mem_cons]
    constructor
    · intro ⟨_, hx, htail⟩
      exact ⟨hx, ih.mp htail⟩
    · intro ⟨hx, htail⟩
      exact ⟨(), hx, ih.mpr htail⟩

theorem validateOutputKey_ok {outputKeys outputKeys' : GoMap String String} {step : Step}
    (h : validateOutputKey outputKeys step = .ok outputKeys') :
    (step.outputKey = "" ∧ outputKeys' = outputKeys) ∨
    (step.outputKey ≠ "" ∧ matchesStepID step.outputKey = true ∧
      outputKeys.lookup step.outputKey = none ∧
      outputKeys' = AList.insert step.outputKey step.id outputKeys) := by
  unfold validateOutputKey at h
  split_ifs at h with hempty
  · exact .inl ⟨hempty, by simpa using h.symm⟩
  · right
    obtain ⟨_, hmatch, h⟩ := bind_eq_ok.mp h
    cases hseen : outputKeys.lookup step.outputKey with
    | some existing => simp [hseen] at h
    | none => exact ⟨hempty, by simpa using hmatch, rfl, by simpa [hseen] using h.symm⟩

/-- An accepted step is well formed by itself and new among the steps before it. -/
theorem validateStep_ok {i : ℕ} {stepIDs : List String} {outputKeys keys : GoMap String String}
    {step : Step} (h : validateStep i stepIDs outputKeys step = .ok keys) :
    matchesStepID step.id = true ∧ step.id ∉ stepIDs ∧
      validateOutputKey outputKeys step = .ok keys := by
  simp only [validateStep, bind_eq_ok, require_eq_ok, decide_eq_true_eq, exists_and_left,
    exists_const, pure, Except.pure, Except.ok.injEq] at h
  obtain ⟨-, hmatch, hnew, -, -, -, _, hkeys, -, -, -, -, rfl⟩ := h
  exact ⟨hmatch, hnew, hkeys⟩

/-- What the first loop has established when it ends, relative to what it had seen
before the given steps. -/
structure StepsAccepted (stepIDs : List String) (outputKeys : GoMap String String)
    (steps : List Step) (seen : List String) : Prop where
  seen : ∀ id, id ∈ seen ↔ id ∈ stepIDs ∨ id ∈ steps.map (·.id)
  nodup : (steps.map (·.id)).Nodup
  fresh : ∀ step ∈ steps, step.id ∉ stepIDs
  stepID : ∀ step ∈ steps, matchesStepID step.id = true
  outputKey : ∀ step ∈ steps, step.outputKey ≠ "" → matchesStepID step.outputKey = true
  freshKey : ∀ step ∈ steps, step.outputKey ≠ "" → outputKeys.lookup step.outputKey = none
  distinctKeys : steps.Pairwise fun a b => a.outputKey ≠ "" → a.outputKey ≠ b.outputKey

theorem validateSteps_ok {i : ℕ} {stepIDs seen : List String}
    {outputKeys : GoMap String String} {steps : List Step}
    (h : validateSteps i stepIDs outputKeys steps = .ok seen) :
    StepsAccepted stepIDs outputKeys steps seen := by
  induction steps generalizing i stepIDs outputKeys with
  | nil =>
    obtain rfl : stepIDs = seen := by simpa [validateSteps, pure, Except.pure] using h
    exact ⟨by simp, .nil, by simp, by simp, by simp, by simp, .nil⟩
  | cons step steps ih =>
    obtain ⟨keys, hstep, htail⟩ := bind_eq_ok.mp h
    obtain ⟨hmatch, hnew, hkey⟩ := validateStep_ok hstep
    have hrest := ih htail
    have hkeys : ∀ key, keys.lookup key = none → outputKeys.lookup key = none := by
      intro key hnone
      rcases validateOutputKey_ok hkey with ⟨-, rfl⟩ | ⟨-, -, -, rfl⟩
      · exact hnone
      · rw [GoMap.lookup_insert] at hnone
        split_ifs at hnone
        exact hnone
    refine ⟨?_, ?_, ?_, ?_, ?_, ?_, ?_⟩
    · intro id
      rw [hrest.seen, List.map_cons, List.mem_cons, List.mem_cons]
      tauto
    · refine List.nodup_cons.mpr ⟨fun hmem => ?_, hrest.nodup⟩
      obtain ⟨other, hother, hid⟩ := List.mem_map.mp hmem
      exact hrest.fresh other hother (by simp [hid])
    · intro other hother hmem
      rcases List.mem_cons.mp hother with rfl | hother
      · exact hnew hmem
      · exact hrest.fresh other hother (List.mem_cons_of_mem _ hmem)
    · exact List.forall_mem_cons.mpr ⟨hmatch, hrest.stepID⟩
    · refine List.forall_mem_cons.mpr ⟨fun hne => ?_, hrest.outputKey⟩
      rcases validateOutputKey_ok hkey with ⟨hempty, -⟩ | ⟨-, hkeymatch, -, -⟩
      · exact absurd hempty hne
      · exact hkeymatch
    · refine List.forall_mem_cons.mpr ⟨fun hne => ?_, fun other hother hne => ?_⟩
      · rcases validateOutputKey_ok hkey with ⟨hempty, -⟩ | ⟨-, -, hnone, -⟩
        · exact absurd hempty hne
        · exact hnone
      · exact hkeys _ (hrest.freshKey other hother hne)
    · refine List.pairwise_cons.mpr ⟨fun other hother hne heq => ?_, hrest.distinctKeys⟩
      have hfree := hrest.freshKey other hother (heq ▸ hne)
      rcases validateOutputKey_ok hkey with ⟨hempty, -⟩ | ⟨-, -, -, rfl⟩
      · exact hne hempty
      · rw [GoMap.lookup_insert, if_pos heq.symm] at hfree
        cases hfree

theorem validateDependsOn_ok {stepIDs : List String} {step : Step}
    (h : validateDependsOn stepIDs step = .ok ()) :
    ∀ dep ∈ step.dependsOn, dep ≠ step.id ∧ dep ∈ stepIDs := by
  intro dep hdep
  have hcheck := forM_eq_ok.mp h dep hdep
  simpa [bind_eq_ok] using hcheck

/-- Structural validation accepts well-formed workflows only. -/
theorem validate_wellFormed {wf : WorkflowFile} (h : validate wf = .ok ()) :
    WellFormed wf.workflow := by
  simp only [validate, bind_eq_ok, require_eq_ok, decide_eq_true_eq, exists_and_left,
    exists_const] at h
  obtain ⟨-, -, -, -, hne, seen, hsteps, _, hdeps, -⟩ := h
  have haccepted := validateSteps_ok hsteps
  refine ⟨hne, haccepted.nodup, haccepted.stepID, haccepted.outputKey,
    haccepted.distinctKeys, ?_⟩
  intro step hstep dep hdep
  obtain ⟨hself, hseen⟩ := validateDependsOn_ok (forM_eq_ok.mp hdeps step hstep) dep hdep
  refine ⟨hself, ?_⟩
  simpa using (haccepted.seen dep).mp hseen

end Persatrix.Planner
