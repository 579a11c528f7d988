import Persatrix.StageProgress

/-!
# What the steps of a stage see of one another

A goroutine copies the shared map when it starts, so the copy may already hold
outputs of its own stage. It holds exactly the outputs of earlier stages when no
step of the stage has stored one under a key; otherwise the order of the goroutines
decides what a step is given, and whether its references resolve at all.
-/
namespace Persatrix.Scheduler
open Planner
namespace PlannedRun
variable {run : PlannedRun} {s t : RunState}

theorem mem_stages_take {k : ℕ} {step : Step} :
    step ∈ (run.plan.stages.take k).flatten ↔ ∃ j < k, step ∈ run.stageSteps j := by
  rw [List.mem_flatten]
  constructor
  · rintro ⟨stage, hstage, hstep⟩
    obtain ⟨j, hj⟩ := List.mem_iff_getElem?.mp hstage
    rw [List.getElem?_take] at hj
    split_ifs at hj with hlt
    exact ⟨j, hlt, by rw [stageSteps, hj]; exact hstep⟩
  · rintro ⟨j, hlt, hstep⟩
    unfold stageSteps at hstep
    cases hj : run.plan.stages[j]? with
    | none => simp [hj] at hstep
    | some stage =>
      rw [hj] at hstep
      refine ⟨stage, List.mem_iff_getElem?.mpr ⟨j, ?_⟩, hstep⟩
      rw [List.getElem?_take, if_pos hlt, hj]

/-- The outputs of earlier stages: every key has at most one step that writes it. -/
theorem outputsBefore_eq_some {k : ℕ} {results : String → Option String} {key output : String} :
    run.outputsBefore k results key = some output ↔ ∃ j < k, ∃ step ∈ run.stageSteps j,
      step.outputKey = key ∧ key ≠ "" ∧ results step.id = some output := by
  unfold outputsBefore
  rw [Option.bind_eq_some_iff]
  constructor
  · rintro ⟨step, hfind, hout⟩
    obtain ⟨j, hlt, hstep⟩ := mem_stages_take.mp (List.mem_of_find?_eq_some hfind)
    have hkey : step.outputKey = key ∧ key ≠ "" := by simpa using List.find?_some hfind
    exact ⟨j, hlt, step, hstep, hkey.1, hkey.2, hout⟩
  · rintro ⟨j, hlt, step, hstep, hkey, hne, hout⟩
    have hmem := mem_stages_take.mpr ⟨j, hlt, hstep⟩
    cases hfind : (run.plan.stages.take k).flatten.find?
        fun step => step.outputKey = key ∧ key ≠ "" with
    | none => simpa [hkey, hne] using List.find?_eq_none.mp hfind step hmem
    | some found =>
      have hfound : found.outputKey = key ∧ key ≠ "" := by simpa using List.find?_some hfind
      obtain ⟨i, -, hi⟩ := mem_stages_take.mp (List.mem_of_find?_eq_some hfind)
      have heq : found = step :=
        key_eq (mem_stageSteps hi).1 (mem_stageSteps hstep).1 (hfound.1.trans hkey.symm)
          (hfound.1 ▸ hne)
      exact ⟨found, rfl, heq ▸ hout⟩

/-- Only results of strictly earlier stages are read. -/
theorem outputsBefore_congr {k : ℕ} {results results' : String → Option String}
    (h : ∀ j < k, ∀ step ∈ run.stageSteps j, results step.id = results' step.id) :
    run.outputsBefore k results = run.outputsBefore k results' := by
  funext key
  apply Option.ext
  intro output
  rw [outputsBefore_eq_some, outputsBefore_eq_some]
  constructor
  · rintro ⟨j, hlt, step, hstep, hkey, hne, hout⟩
    exact ⟨j, hlt, step, hstep, hkey, hne, h j hlt step hstep ▸ hout⟩
  · rintro ⟨j, hlt, step, hstep, hkey, hne, hout⟩
    exact ⟨j, hlt, step, hstep, hkey, hne, (h j hlt step hstep).symm ▸ hout⟩

/-- An event leaves the steps of all stages but the current one alone. -/
theorem phase_next {event : Event} (h : run.next s event = some t) {k : ℕ} {step : Step}
    (hstep : step ∈ run.stageSteps k) (hk : k ≠ s.stage) :
    t.phase step.id = s.phase step.id := by
  have hother : ∀ {other : Step} (phase : Phase), other ∈ run.stageSteps s.stage →
      (s.setPhase other.id phase).phase step.id = s.phase step.id := by
    intro other phase hmem
    rw [phase_setPhase hmem hstep, if_neg]
    intro hsame
    subst hsame
    exact hk (stage_unique hstep hmem)
  cases moves_of_next h with
  | snapshot hmem _ | output hmem _ | error hmem _ | store hmem _ => exact hother _ hmem
  | @prepare other outputsCopy rejection hmem _ =>
    rcases prepare_cases s other outputsCopy rejection with
      ⟨request, -, hprep⟩ | ⟨place, e, -, hprep⟩
    · rw [hprep]
      exact hother _ hmem
    · rw [hprep]
      exact hother _ hmem
  | abort | advance _ _ | cancel => rfl

/-- A request carries the resolved input and the context made for it. -/
theorem request_eq_ok {step : Step} {outputsCopy : String → Option String}
    {request : ExecuteRequest} (h : run.request step outputsCopy = .ok request) :
    resolveInputs step ⟨outputsCopy, run.vars⟩ = .ok request.payload ∧
      run.attachContextPackage step outputsCopy request.payload = .ok request.context := by
  unfold PlannedRun.request at h
  cases hresolve : resolveInputs step ⟨outputsCopy, run.vars⟩ with
  | error e => simp [hresolve] at h
  | ok resolved =>
    cases hcontext : run.attachContextPackage step outputsCopy resolved with
    | error e => simp [hresolve, hcontext, Except.map] at h
    | ok context =>
      simp only [hresolve, hcontext, Except.map, Except.ok.injEq] at h
      subst h
      exact ⟨rfl, hcontext⟩

/-- One event keeps what the records of the current stage say about their copies, if a
new copy is good. -/
theorem prepared_next {good : (String → Option String) → Prop} {event : Event}
    (h : run.next s event = some t)
    (hs : ∀ step ∈ run.stageSteps s.stage, run.Prepared good step (s.phase step.id))
    (hcopy : ∀ stepID, event = .snapshot stepID → good s.outputs) :
    ∀ step ∈ run.stageSteps s.stage, run.Prepared good step (t.phase step.id) := by
  intro step hstep
  have hset : ∀ {other : Step} {phase : Phase}, other ∈ run.stageSteps s.stage →
      run.Prepared good other phase →
      run.Prepared good step ((s.setPhase other.id phase).phase step.id) := by
    intro other phase hmem hphase
    rw [phase_setPhase hmem hstep]
    split_ifs with heq
    · exact heq ▸ hphase
    · exact hs step hstep
  cases moves_of_next h with
  | snapshot hmem _ => exact hset hmem (hcopy _ rfl)
  | @prepare other outputsCopy rejection hmem hphase =>
    have hgood : good outputsCopy := by simpa [hphase, Prepared] using hs other hmem
    rcases prepare_cases s other outputsCopy rejection with
      ⟨request, hrequest, hprep⟩ | ⟨place, e, hfailed, hprep⟩
    · rw [hprep]
      exact hset hmem ⟨outputsCopy, hgood, hrequest⟩
    · rw [hprep]
      exact hset hmem (hfailed good hgood)
  | @error other request e hmem hphase =>
    have hgood := hs other hmem
    rw [hphase] at hgood
    obtain ⟨outputsCopy, hcopied, hrequest⟩ := hgood
    exact hset hmem ⟨outputsCopy, request.payload, hcopied, (request_eq_ok hrequest).1⟩
  | output hmem hphase =>
    have hgood := hs _ hmem
    rw [hphase] at hgood
    exact hset hmem hgood
  | store hmem hphase =>
    have hgood := hs _ hmem
    rw [hphase] at hgood
    exact hset hmem hgood
  | abort | advance _ _ | cancel => exact hs step hstep

/-- Every record in the run goes back to a copy of which `good` holds, together with the
outputs of the stages before the step's own. -/
def Recorded (run : PlannedRun)
    (good : (String → Option String) → (String → Option String) → Prop) (s : RunState) : Prop :=
  ∀ k, ∀ step ∈ run.stageSteps k,
    run.Prepared (good (run.outputsBefore k s.results)) step (s.phase step.id)

theorem Recorded.next {good : (String → Option String) → (String → Option String) → Prop}
    {event : Event} (hs : Progress run s) (h : Recorded run good s)
    (hnext : run.next s event = some t)
    (hcopy : ∀ stepID, event = .snapshot stepID →
      good (run.outputsBefore s.stage s.results) s.outputs) : Recorded run good t := by
  have hbefore : ∀ k ≤ s.stage, run.outputsBefore k t.results = run.outputsBefore k s.results := by
    intro k hk
    apply outputsBefore_congr
    intro j hj step hstep
    exact congrArg Phase.output (phase_next hnext hstep (by omega))
  intro k step hstep
  rcases lt_trichotomy k s.stage with hlt | rfl | hlt
  · rw [hbefore k hlt.le, phase_next hnext hstep hlt.ne]
    exact h k step hstep
  · rw [hbefore s.stage le_rfl]
    exact prepared_next hnext (h s.stage) hcopy step hstep
  · rw [phase_next hnext hstep hlt.ne', hs.later k step hstep hlt]
    trivial

/-- A step that was handed to the executor was prepared from a copy of the map. -/
theorem Prepared.request {good : (String → Option String) → Prop} {step : Step} {phase : Phase}
    (h : run.Prepared good step phase) {request : ExecuteRequest}
    (hrequest : phase.request = some request) :
    ∃ outputsCopy, good outputsCopy ∧ run.request step outputsCopy = .ok request := by
  cases phase with
  | waiting | copied _ | failed _ _ => simp [Phase.request] at hrequest
  | dispatched _ | returned _ _ | finished _ _ =>
    cases hrequest
    exact h

/-- A step whose goroutine has begun goes back to one copy of the map. -/
theorem Prepared.exists_copy {good : (String → Option String) → Prop} {step : Step}
    {phase : Phase} (h : run.Prepared good step phase) (hbegun : phase ≠ .waiting) :
    ∃ outputsCopy, good outputsCopy ∧ run.Prepared (Eq outputsCopy) step phase := by
  cases phase with
  | waiting => exact absurd rfl hbegun
  | copied outputsCopy => exact ⟨outputsCopy, h, rfl⟩
  | dispatched _ | returned _ _ | finished _ _ =>
    obtain ⟨outputsCopy, hgood, hrequest⟩ := h
    exact ⟨outputsCopy, hgood, outputsCopy, rfl, hrequest⟩
  | failed place e =>
    cases place with
    | resolve =>
      obtain ⟨outputsCopy, hgood, herror⟩ := h
      exact ⟨outputsCopy, hgood, outputsCopy, rfl, herror⟩
    | budget | package | execute =>
      obtain ⟨outputsCopy, payload, hgood, hok⟩ := h
      exact ⟨outputsCopy, hgood, outputsCopy, payload, rfl, hok⟩

/-- The shared map holds the outputs of earlier stages only while no step of the current
stage has stored one. -/
theorem Progress.outputs_eq_before_iff (h : Progress run s) :
    s.outputs = run.outputsBefore s.stage s.results ↔
      ∀ step ∈ run.stageSteps s.stage, step.outputKey ≠ "" → s.results step.id = none := by
  constructor
  · intro heq step hstep hne
    apply Option.eq_none_iff_forall_ne_some.mpr
    intro output hout
    have hsome := (h.outputs _ _).mpr ⟨step, (mem_stageSteps hstep).1, rfl, hne, hout⟩
    rw [heq, outputsBefore_eq_some] at hsome
    obtain ⟨j, hlt, other, hother, hkey, -, -⟩ := hsome
    obtain rfl := key_eq (mem_stageSteps hother).1 (mem_stageSteps hstep).1 hkey (hkey ▸ hne)
    have heq := stage_unique hother hstep
    omega
  · intro hnone
    funext key
    apply Option.ext
    intro output
    rw [h.outputs, outputsBefore_eq_some]
    constructor
    · rintro ⟨step, hmem, hkey, hne, hout⟩
      obtain ⟨k, hstep⟩ := exists_stage hmem
      rcases lt_trichotomy k s.stage with hlt | rfl | hlt
      · exact ⟨k, hlt, step, hstep, hkey, hne, hout⟩
      · rw [hnone step hstep (hkey ▸ hne)] at hout
        cases hout
      · rw [RunState.results, h.later k step hstep hlt] at hout
        cases hout
    · intro hfound
      obtain ⟨j, -, step, hstep, hkey, hne, hout⟩ := hfound
      exact ⟨step, (mem_stageSteps hstep).1, hkey, hne, hout⟩

/-- What a step is given, and whether its input resolves, is computed from the run's
variables and the outputs of strictly earlier stages. -/
def Isolated (run : PlannedRun) (s : RunState) : Prop :=
  ∀ k, ∀ step ∈ run.stageSteps k, let prior := run.outputsBefore k s.results
    (∀ request, (s.phase step.id).request = some request →
      resolveInputs step ⟨prior, run.vars⟩ = .ok request.payload ∧
        run.attachContextPackage step prior request.payload = .ok request.context) ∧
    (∀ e, s.phase step.id = .failed .resolve e →
      resolveInputs step ⟨prior, run.vars⟩ = .error e) ∧
    ∀ place e, s.phase step.id = .failed place e → place ≠ .resolve →
      ∃ payload, resolveInputs step ⟨prior, run.vars⟩ = .ok payload

theorem Recorded.isolated (h : Recorded run Eq s) : Isolated run s := by
  intro k step hstep prior
  have hrecord := h k step hstep
  refine ⟨fun request hrequest => ?_, fun e hphase => ?_, fun place e hphase hne => ?_⟩
  · obtain ⟨outputsCopy, rfl, hok⟩ := Prepared.request hrecord hrequest
    exact request_eq_ok hok
  · rw [hphase] at hrecord
    obtain ⟨outputsCopy, rfl, herror⟩ := hrecord
    exact herror
  · rw [hphase] at hrecord
    cases place with
    | resolve => exact absurd rfl hne
    | budget | package | execute =>
      obtain ⟨outputsCopy, payload, rfl, hok⟩ := hrecord
      exact ⟨payload, hok⟩

/-- No goroutine copies the shared map after a step of its own stage has stored an output
in it. -/
def CopiesFirst (run : PlannedRun) (s : RunState) (event : Event) : Prop :=
  ∀ stepID, event = .snapshot stepID →
    ∀ step ∈ run.stageSteps s.stage, step.outputKey ≠ "" → s.results step.id = none

theorem isolated_of_copiesFirst (h : run.system.Reaches run.CopiesFirst s) :
    Isolated run s := by
  have hboth : Progress run s ∧ Recorded run Eq s := by
    refine h.invariant (I := fun s => Progress run s ∧ Recorded run Eq s) ?_ ?_
    · exact ⟨progress_init, fun _ _ _ => trivial⟩
    · rintro s event t ⟨hs, hrecorded⟩ hfirst hnext
      refine ⟨hs.next hnext, hrecorded.next hs hnext fun stepID hevent => ?_⟩
      exact (hs.outputs_eq_before_iff.mpr (hfirst stepID hevent)).symm
  exact hboth.2.isolated

/-- Two steps of one stage; the second refers to the output of the first without naming
it as a dependency. -/
def siblings : PlannedRun where
  executionID := "run"
  file := {
    schemaVersion := "0.1"
    workflow := {
      id := "siblings", name := "Siblings"
      steps := [
        { id := "draft", agentID := "writer", input := "go", outputKey := "text" },
        { id := "check", agentID := "reader", input := "{{ steps.text.output }}" }] } }
  plan := {
    workflowID := "siblings"
    stages := [[
      { id := "draft", agentID := "writer", input := "go", outputKey := "text" },
      { id := "check", agentID := "reader", input := "{{ steps.text.output }}" }]] }
  vars := fun _ => none
  packageContext := fun _ _ resolved _ => .ok resolved
  valid := rfl
  acyclic := rfl
  planned := rfl

/-- The draft is stored before the goroutine of the check copies the map. -/
def draftFirst : List Event := [
  .snapshot "draft", .prepare "draft" none, .respond "draft" (.ok "7"), .store "draft",
  .snapshot "check", .prepare "check" none]

def checkFirst : List Event := [.snapshot "check", .prepare "check" none]

/-- The order of the two goroutines decides whether the input of the check resolves,
although no stage precedes theirs. -/
theorem sibling_order_decides_input : ∃ s t check e,
    siblings.system.exec draftFirst = some s ∧ siblings.system.exec checkFirst = some t ∧
    check ∈ siblings.stageSteps 0 ∧
    siblings.outputsBefore 0 s.results = siblings.outputsBefore 0 t.results ∧
    (s.phase check.id).request.map (·.payload) = some "7" ∧
    t.phase check.id = .failed .resolve e ∧ ¬ Isolated siblings s := by
  refine ⟨_, _, _, _, rfl, rfl, List.mem_cons_of_mem _ (List.mem_singleton_self _), rfl, rfl, rfl,
    fun hisolated => ?_⟩
  have hresolved := (hisolated 0 _ (List.mem_cons_of_mem _ (List.mem_singleton_self _))).1 _ rfl
  exact absurd hresolved.1 (by decide)

/-- Both goroutines of the stage copy the map before the draft is stored. -/
theorem siblings_isolated : ∃ s, siblings.system.exec
    [.snapshot "check", .snapshot "draft", .prepare "draft" none,
      .respond "draft" (.ok "7"), .store "draft"] = some s ∧ Isolated siblings s := by
  refine ⟨_, rfl, isolated_of_copiesFirst ?_⟩
  have hquiet : ∀ s event, (∀ stepID, event ≠ .snapshot stepID) → CopiesFirst siblings s event :=
    fun s event hne stepID hevent => absurd hevent (hne stepID)
  have hcopied : siblings.system.Reaches siblings.CopiesFirst
      (((({} : RunState).setPhase "check" (.copied fun _ => none)).setPhase "draft"
        (.copied fun _ => none))) := by
    refine .step (e := .snapshot "draft") (.step (e := .snapshot "check") .init ?_ rfl) ?_ rfl
    · intro stepID _
      decide
    · intro stepID _
      decide
  exact .step (e := .store "draft") (.step (e := .respond "draft" (.ok "7"))
    (.step (e := .prepare "draft" none) hcopied (hquiet _ _ (by simp)) rfl)
    (hquiet _ _ (by simp)) rfl) (hquiet _ _ (by simp)) rfl

end PlannedRun
end Persatrix.Scheduler

/-!
## References to the steps a step depends on

The dependencies of a step are in earlier stages, so their outputs are in every copy
its goroutine can take, whatever else the copy holds, and no other step writes under
their keys.
-/
namespace Persatrix.Scheduler
open Planner
namespace PlannedRun
variable {run : PlannedRun} {s : RunState}

/-- The copy holds what the earlier stages stored. -/
def Covers (prior outputsCopy : String → Option String) : Prop :=
  ∀ key output, prior key = some output → outputsCopy key = some output

theorem recorded_covers (h : run.system.Reachable s) : Recorded run Covers s := by
  have hboth : Progress run s ∧ Recorded run Covers s := by
    refine h.invariant (I := fun s => Progress run s ∧ Recorded run Covers s) ?_ ?_
    · exact ⟨progress_init, fun _ _ _ => trivial⟩
    · rintro s event t ⟨hs, hrecorded⟩ hnext
      refine ⟨hs.next hnext, hrecorded.next hs hnext fun _ _ key output hprior => ?_⟩
      obtain ⟨j, -, step, hstep, hkey, hne, hout⟩ := outputsBefore_eq_some.mp hprior
      exact (hs.outputs _ _).mpr ⟨step, (mem_stageSteps hstep).1, hkey, hne, hout⟩
  exact hboth.2

/-- When a step is handed to the executor, the steps it depends on have their outputs. -/
theorem dependency_finished (h : Progress run s) {a b : Step} {k : ℕ}
    (ha : a ∈ run.stageSteps k) (hb : b ∈ run.workflow.steps)
    (hdep : Relation.TransGen (DependsOn run.workflow) a.id b.id)
    (hbegun : s.phase a.id ≠ .waiting) :
    ∃ j < k, b ∈ run.stageSteps j ∧ ∃ output, s.results b.id = some output := by
  obtain ⟨j, hj⟩ := exists_stage hb
  have hlt := stage_lt_of_dependsOn (mem_stageSteps ha).2 (mem_stageSteps hj).2 hdep
  have hk : k ≤ s.stage := by
    by_contra hlater
    exact hbegun (h.later k a ha (by omega))
  exact ⟨j, hlt, hj, h.earlier j b hj (by omega)⟩

/-- The input of a step is resolved, for its request or to a failure, from one copy of the
outputs: a reference to the key of a step it depends on stands for that step's output, and
text between references is as in the input. -/
theorem references_resolved (h : run.system.Reachable s) {consumer producer : Step}
    (hconsumer : consumer ∈ run.workflow.steps) (hproducer : producer ∈ run.workflow.steps)
    (hdep : Relation.TransGen (DependsOn run.workflow) consumer.id producer.id)
    (hbegun : s.phase consumer.id ≠ .waiting) :
    ∃ outputsCopy output, s.results producer.id = some output ∧
      run.Prepared (Eq outputsCopy) consumer (s.phase consumer.id) ∧
      (∀ request, (s.phase consumer.id).request = some request →
        resolveInputs consumer ⟨outputsCopy, run.vars⟩ = .ok request.payload) ∧
      (∀ a text b, consumer.input.toList = a ++ text ++ b →
        Template text (.step producer.outputKey) →
        resolveInputs consumer ⟨outputsCopy, run.vars⟩ =
          renderAround ⟨outputsCopy, run.vars⟩ consumer.id a output b) ∧
      ∀ a literal b, consumer.input.toList = a ++ literal ++ b →
        EndsReference a → NoReference literal → StartsReference b →
        resolveInputs consumer ⟨outputsCopy, run.vars⟩ =
          renderAround ⟨outputsCopy, run.vars⟩ consumer.id a (String.ofList literal) b := by
  obtain ⟨k, hk⟩ := exists_stage hconsumer
  obtain ⟨j, hlt, hj, output, hout⟩ :=
    dependency_finished (progress_of_reachable h) hk hproducer hdep hbegun
  obtain ⟨outputsCopy, hcovers, hprepared⟩ :=
    Prepared.exists_copy (recorded_covers h k consumer hk) hbegun
  refine ⟨outputsCopy, output, hout, hprepared, ?_, ?_, ?_⟩
  · intro request hrequest
    obtain ⟨copied, hcopied, hmade⟩ := Prepared.request hprepared hrequest
    rw [hcopied]
    exact (request_eq_ok hmade).1
  · intro a text b hinput htext
    have hcopied : outputsCopy producer.outputKey = some output := by
      apply hcovers
      exact outputsBefore_eq_some.mpr ⟨j, hlt, producer, hj, rfl, htext.step_ne_empty, hout⟩
    apply resolveInputs_template htext hinput
    simp only [Piece.text, hcopied]
  · intro a literal b hinput ha hliteral hb
    exact resolveInputs_literal ha hliteral hb hinput

/-- A report on a page; the page looks like a reference. -/
def pageReport : PlannedRun where
  executionID := "run"
  file := {
    schemaVersion := "0.1"
    workflow := {
      id := "page-report", name := "Report"
      steps := [
        { id := "report", agentID := "writer", input := "got {{ steps.page.output }}!",
          dependsOn := ["fetch"] },
        { id := "fetch", agentID := "reader", input := "go", outputKey := "page" }] } }
  plan := {
    workflowID := "page-report"
    stages := [
      [{ id := "fetch", agentID := "reader", input := "go", outputKey := "page" }],
      [{ id := "report", agentID := "writer", input := "got {{ steps.page.output }}!",
         dependsOn := ["fetch"] }]] }
  vars := fun _ => none
  packageContext := fun _ _ resolved _ => .ok resolved
  valid := rfl
  acyclic := rfl
  planned := rfl

/-- The page is fetched and the report is handed to the executor. -/
def fetchThenReport : List Event := [
  .snapshot "fetch", .prepare "fetch" none, .respond "fetch" (.ok "{{ x }}"), .store "fetch",
  .barrier, .snapshot "report", .prepare "report" none]

theorem pageReport_quotes_page : ∃ s request, pageReport.system.exec fetchThenReport = some s ∧
    (s.phase "report").request = some request ∧ request.payload = "got {{ x }}!" ∧
    ∃ output before after, s.results "fetch" = some output ∧
      request.payload = before ++ output ++ after := by
  obtain ⟨s, hexec⟩ : ∃ s, pageReport.system.exec fetchThenReport = some s := ⟨_, rfl⟩
  have hpayload : (pageReport.system.exec fetchThenReport).bind
      (fun s => (s.phase "report").request.map (·.payload)) = some "got {{ x }}!" := by
    decide
  rw [hexec, Option.bind_some, Option.map_eq_some_iff] at hpayload
  obtain ⟨request, hrequest, hpayload⟩ := hpayload
  have hbegun : s.phase "report" ≠ .waiting := by
    intro hwaiting
    simp [hwaiting, Phase.request] at hrequest
  have htext : Template (openBraces ++ [' '] ++ stepsPrefix ++ ['p', 'a', 'g', 'e'] ++
      outputSuffix ++ [' '] ++ closeBraces) (.step "page") := .step rfl rfl rfl
  have hdep : DependsOn pageReport.workflow "report" "fetch" :=
    ⟨_, List.mem_cons_self .., rfl, List.mem_singleton_self _⟩
  obtain ⟨outputsCopy, output, hout, -, hresolved, hreferences, -⟩ :=
    references_resolved (System.reachable_exec hexec) (List.mem_cons_self ..)
      (List.mem_cons_of_mem _ (List.mem_singleton_self _)) (.single hdep) hbegun
  have hsplit := hreferences ['g', 'o', 't', ' '] _ ['!'] (by decide) htext
  obtain ⟨before, after, heq⟩ := renderAround_eq_ok (hsplit.symm.trans (hresolved request hrequest))
  exact ⟨s, request, hexec, hrequest, hpayload, output, before, after, hout, heq⟩

end PlannedRun
end Persatrix.Scheduler
