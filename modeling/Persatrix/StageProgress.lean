import Persatrix.StageRunner

/-!
# Invariants of a run in progress

The steps of earlier stages have outputs, those of later stages have not begun, and
the shared map holds the keyed outputs stored so far. What a goroutine has done is
recorded together with the copy it worked on; a property of copies that holds when
they are taken holds of every record, because the outputs of earlier stages no
longer change.
-/
namespace Persatrix.Scheduler
open Planner

/-- The executor's outputs stored so far, by step. -/
def RunState.results (s : RunState) (stepID : String) : Option String := (s.phase stepID).output

namespace PlannedRun
variable (run : PlannedRun)

/-- The map of outputs a stage starts from, as a function of the results of the steps in
strictly earlier stages. -/
def outputsBefore (k : ℕ) (results : String → Option String) (key : String) : Option String :=
  ((run.plan.stages.take k).flatten.find? fun step => step.outputKey = key ∧ key ≠ "").bind
    fun step => results step.id

/-- The request made from a copy when the budget check admits the step. -/
def request (step : Step) (outputsCopy : String → Option String) : Except String ExecuteRequest :=
  match resolveInputs step ⟨outputsCopy, run.vars⟩ with
  | .error e => .error e
  | .ok resolved =>
    (run.attachContextPackage step outputsCopy resolved).map (run.makeRequest step resolved)

/-- What a phase says about the copy it goes back to. -/
def Prepared (good : (String → Option String) → Prop) (step : Step) : Phase → Prop
  | .waiting => True
  | .copied outputsCopy => good outputsCopy
  | .dispatched request | .returned request _ | .finished request _ =>
    ∃ outputsCopy, good outputsCopy ∧ run.request step outputsCopy = .ok request
  | .failed .resolve e =>
    ∃ outputsCopy, good outputsCopy ∧ resolveInputs step ⟨outputsCopy, run.vars⟩ = .error e
  | .failed _ _ =>
    ∃ outputsCopy payload, good outputsCopy ∧
      resolveInputs step ⟨outputsCopy, run.vars⟩ = .ok payload

/-- Everything an event can do. -/
inductive Moves (s : RunState) : Event → RunState → Prop
  | snapshot {step : Step} : step ∈ run.stageSteps s.stage → s.phase step.id = .waiting →
      Moves s (.snapshot step.id) (s.setPhase step.id (.copied s.outputs))
  | prepare {step : Step} {outputsCopy : String → Option String} {rejection : Option String} :
      step ∈ run.stageSteps s.stage → s.phase step.id = .copied outputsCopy →
      Moves s (.prepare step.id rejection) (run.prepare s step outputsCopy rejection)
  | error {step : Step} {request : ExecuteRequest} {e : String} :
      step ∈ run.stageSteps s.stage → s.phase step.id = .dispatched request →
      Moves s (.respond step.id (.error e)) (s.fail step.id .execute e)
  | output {step : Step} {request : ExecuteRequest} {output : String} :
      step ∈ run.stageSteps s.stage → s.phase step.id = .dispatched request →
      Moves s (.respond step.id (.ok output)) (s.setPhase step.id (.returned request output))
  | store {step : Step} {request : ExecuteRequest} {output : String} :
      step ∈ run.stageSteps s.stage → s.phase step.id = .returned request output →
      Moves s (.store step.id)
        { s.setPhase step.id (.finished request output) with
          outputs := if step.outputKey ≠ "" then
            Function.update s.outputs step.outputKey (some output) else s.outputs }
  | abort {message : String} : Moves s .barrier { s with failed := some message }
  | advance : (∀ step ∈ run.stageSteps s.stage, (s.phase step.id).ended = true) → s.errs = [] →
      Moves s .barrier { s with stage := s.stage + 1 }
  | cancel {message : String} : Moves s .cancel { s with failed := some message }

variable {run} {s t : RunState}

theorem moves_of_next {event : Event} (h : run.next s event = some t) : run.Moves s event t := by
  unfold next at h
  split at h
  · cases h
  cases event with
  | snapshot stepID =>
    dsimp only at h
    split at h
    next step hcur hphase =>
      obtain ⟨hmem, rfl⟩ := current_eq_some hcur
      cases h
      exact .snapshot hmem hphase
    next => cases h
  | prepare stepID rejection =>
    dsimp only at h
    split at h
    next step outputsCopy hcur hphase =>
      obtain ⟨hmem, rfl⟩ := current_eq_some hcur
      cases h
      exact .prepare hmem hphase
    next => cases h
  | respond stepID result =>
    dsimp only at h
    split at h
    next step request hcur hphase =>
      obtain ⟨hmem, rfl⟩ := current_eq_some hcur
      cases result with
      | error e =>
        cases h
        exact .error hmem hphase
      | ok output =>
        cases h
        exact .output hmem hphase
    next => cases h
  | store stepID =>
    dsimp only at h
    split at h
    next step request output hcur hphase =>
      obtain ⟨hmem, rfl⟩ := current_eq_some hcur
      cases h
      exact .store hmem hphase
    next => cases h
  | barrier =>
    dsimp only at h
    split_ifs at h with hended herrs
    · cases h
      exact .abort
    · cases h
      exact .advance (List.all_eq_true.mp hended.2) (not_not.mp herrs)
  | cancel =>
    dsimp only at h
    split_ifs at h
    cases h
    exact .cancel

/-- Preparing fails the step or dispatches the request made from the copy. -/
theorem prepare_cases (s : RunState) (step : Step) (outputsCopy : String → Option String)
    (rejection : Option String) :
    (∃ request, run.request step outputsCopy = .ok request ∧
      run.prepare s step outputsCopy rejection = s.setPhase step.id (.dispatched request)) ∨
    ∃ place e, (∀ good : (String → Option String) → Prop, good outputsCopy →
        run.Prepared good step (.failed place e)) ∧
      run.prepare s step outputsCopy rejection = s.fail step.id place e := by
  unfold prepare request
  cases hresolve : resolveInputs step ⟨outputsCopy, run.vars⟩ with
  | error e => exact .inr ⟨.resolve, e, fun _ hgood => ⟨_, hgood, hresolve⟩, rfl⟩
  | ok resolved =>
    cases rejection with
    | some e => exact .inr ⟨.budget, _, fun _ hgood => ⟨_, _, hgood, hresolve⟩, rfl⟩
    | none =>
      dsimp only
      cases run.attachContextPackage step outputsCopy resolved with
      | error e => exact .inr ⟨.package, e, fun _ hgood => ⟨_, _, hgood, hresolve⟩, rfl⟩
      | ok context => exact .inl ⟨_, rfl, rfl⟩

/-- Where the run stands, apart from what the goroutines work on. -/
structure Progress (run : PlannedRun) (s : RunState) : Prop where
  later : ∀ k step, step ∈ run.stageSteps k → s.stage < k → s.phase step.id = .waiting
  earlier : ∀ k step, step ∈ run.stageSteps k → k < s.stage →
    ∃ output, s.results step.id = some output
  errs : ∀ step ∈ run.stageSteps s.stage, ∀ place e, s.phase step.id = .failed place e →
    s.errs ≠ []
  outputs : ∀ key output, s.outputs key = some output ↔ ∃ step ∈ run.workflow.steps,
    step.outputKey = key ∧ key ≠ "" ∧ s.results step.id = some output

theorem progress_init : Progress run {} where
  later _ _ _ _ := rfl
  earlier _ _ _ hlt := by cases hlt
  errs _ _ _ _ h := by cases h
  outputs key output := by simp [RunState.results, Phase.output]

/-- Only the step's own phase changes; steps of other stages keep theirs. -/
theorem phase_setPhase {step other : Step} {j k : ℕ} (hstep : step ∈ run.stageSteps j)
    (hother : other ∈ run.stageSteps k) (phase : Phase) :
    (s.setPhase step.id phase).phase other.id =
      if other = step then phase else s.phase other.id := by
  unfold RunState.setPhase
  dsimp only
  rw [Function.update_apply]
  have hiff : other.id = step.id ↔ other = step := by
    refine ⟨fun hid => ?_, fun heq => heq ▸ rfl⟩
    exact step_eq (mem_stageSteps hother).1 (mem_stageSteps hstep).1 hid
  simp only [hiff]

theorem stage_unique {step : Step} {j k : ℕ} (hj : step ∈ run.stageSteps j)
    (hk : step ∈ run.stageSteps k) : j = k :=
  (mem_stageSteps hj).2.unique (mem_stageSteps hk).2

theorem exists_stage {step : Step} (h : step ∈ run.workflow.steps) :
    ∃ k, step ∈ run.stageSteps k := by
  obtain ⟨stage, hstage, hin⟩ := List.mem_flatten.mp (run.plan_stages.1.mem_iff.mpr h)
  obtain ⟨k, hk⟩ := List.mem_iff_getElem?.mp hstage
  exact ⟨k, by rw [stageSteps, hk]; exact hin⟩

/-- A step that had no result yet changes its phase, and its result is stored. -/
theorem Progress.update (h : Progress run s) {step : Step} (hstep : step ∈ run.stageSteps s.stage)
    {phase : Phase} {outputs : String → Option String} {errs : List String}
    (hold : s.results step.id = none) (herrs : s.errs ≠ [] → errs ≠ [])
    (hfailed : ∀ place e, phase = .failed place e → errs ≠ [])
    (houtputs : ∀ key output, outputs key = some output ↔ s.outputs key = some output ∨
      step.outputKey = key ∧ key ≠ "" ∧ phase.output = some output) :
    Progress run { s.setPhase step.id phase with outputs := outputs, errs := errs } where
  later k other hother hlt := by
    apply (phase_setPhase hstep hother phase).trans
    rw [if_neg ?_]
    · exact h.later k other hother hlt
    · intro hsame
      subst hsame
      have heq := stage_unique hstep hother
      have hlt' : s.stage < k := hlt
      omega
  earlier k other hother hlt := by
    obtain ⟨output, hout⟩ := h.earlier k other hother hlt
    refine ⟨output, (congrArg Phase.output (phase_setPhase hstep hother phase)).trans ?_⟩
    rw [if_neg ?_]
    · exact hout
    · intro hsame
      subst hsame
      rw [hold] at hout
      cases hout
  errs other hother place e hphase := by
    rw [phase_setPhase hstep hother] at hphase
    split_ifs at hphase
    · exact hfailed place e hphase
    · exact herrs (h.errs other hother place e hphase)
  outputs key output := by
    have hresults : ∀ other ∈ run.workflow.steps, (s.setPhase step.id phase).results other.id =
        if other = step then phase.output else s.results other.id := by
      intro other hother
      obtain ⟨k, hk⟩ := exists_stage hother
      rw [RunState.results, phase_setPhase hstep hk]
      split_ifs <;> rfl
    apply (houtputs key output).trans
    rw [h.outputs]
    constructor
    · intro hcases
      rcases hcases with ⟨other, hother, hkey, hne, hout⟩ | ⟨hkey, hne, hout⟩
      · refine ⟨other, hother, hkey, hne, (hresults other hother).trans ?_⟩
        rw [if_neg ?_]
        · exact hout
        · intro hsame
          subst hsame
          rw [hold] at hout
          cases hout
      · have hmem := (mem_stageSteps hstep).1
        refine ⟨step, hmem, hkey, hne, (hresults step hmem).trans ?_⟩
        rw [if_pos rfl]
        exact hout
    · intro ⟨other, hother, hkey, hne, hout⟩
      have hout' := (hresults other hother).symm.trans hout
      split_ifs at hout' with heq
      · subst heq
        exact .inr ⟨hkey, hne, hout'⟩
      · exact .inl ⟨other, hother, hkey, hne, hout'⟩

/-- A goroutine that stores nothing leaves the outputs as they are. -/
theorem Progress.setPhase (h : Progress run s) {step : Step}
    (hstep : step ∈ run.stageSteps s.stage) {phase : Phase} (hold : s.results step.id = none)
    (hnew : phase.output = none) (hfailed : ∀ place e, phase ≠ .failed place e) :
    Progress run (s.setPhase step.id phase) :=
  h.update hstep hold (fun herrs => herrs) (fun place e heq => absurd heq (hfailed place e))
    (by simp [hnew])

theorem Progress.fail (h : Progress run s) {step : Step} (hstep : step ∈ run.stageSteps s.stage)
    (hold : s.results step.id = none) (place : FailedAt) (e : String) :
    Progress run (s.fail step.id place e) :=
  h.update hstep hold (fun _ => by simp) (fun _ _ _ => by simp)
    (fun _ _ => by simp [Phase.output, RunState.setPhase])

/-- Storing an output adds it under a key no other step writes. -/
theorem Progress.store (h : Progress run s) {step : Step} (hstep : step ∈ run.stageSteps s.stage)
    {request : ExecuteRequest} {output : String} (hold : s.results step.id = none) :
    Progress run { s.setPhase step.id (.finished request output) with
      outputs := if step.outputKey ≠ "" then
        Function.update s.outputs step.outputKey (some output) else s.outputs } := by
  refine h.update hstep hold (fun herrs => herrs) (fun _ _ heq => by cases heq) ?_
  intro key out
  have hfree : step.outputKey ≠ "" → s.outputs step.outputKey = none := by
    intro hne
    apply Option.eq_none_iff_forall_ne_some.mpr
    intro old hold'
    obtain ⟨other, hother, hkey, -, hout⟩ := (h.outputs _ _).mp hold'
    obtain rfl := key_eq hother (mem_stageSteps hstep).1 hkey (hkey ▸ hne)
    rw [hold] at hout
    cases hout
  simp only [Phase.output, Option.some.injEq]
  split_ifs with hkey
  · rw [Function.update_apply]
    split_ifs with heq
    · subst heq
      simp [hfree hkey, hkey]
    · simp [Ne.symm heq]
  · have hempty : step.outputKey = "" := not_not.mp hkey
    refine ⟨.inl, ?_⟩
    intro hcases
    rcases hcases with hout | ⟨rfl, hne, -⟩
    · exact hout
    · exact absurd hempty hne

theorem Progress.next (h : Progress run s) {event : Event} (hnext : run.next s event = some t) :
    Progress run t := by
  have hresult : ∀ {step : Step} {phase : Phase}, s.phase step.id = phase → phase.output = none →
      s.results step.id = none := by
    intro step phase hphase hnone
    rw [RunState.results, hphase, hnone]
  cases moves_of_next hnext with
  | snapshot hstep hphase => exact h.setPhase hstep (hresult hphase rfl) rfl (by simp)
  | @prepare step outputsCopy rejection hstep hphase =>
    rcases prepare_cases s step outputsCopy rejection with
      ⟨request, -, hprep⟩ | ⟨place, e, -, hprep⟩
    · rw [hprep]
      exact h.setPhase hstep (hresult hphase rfl) rfl (by simp)
    · rw [hprep]
      exact h.fail hstep (hresult hphase rfl) place e
  | error hstep hphase => exact h.fail hstep (hresult hphase rfl) _ _
  | output hstep hphase => exact h.setPhase hstep (hresult hphase rfl) rfl (by simp)
  | store hstep hphase => exact h.store hstep (hresult hphase rfl)
  | abort => exact ⟨h.later, h.earlier, h.errs, h.outputs⟩
  | cancel => exact ⟨h.later, h.earlier, h.errs, h.outputs⟩
  | advance hended herrs =>
    refine ⟨fun k step hstep hlt => ?_, fun k step hstep hlt => ?_, ?_, h.outputs⟩
    · have hlt' : s.stage + 1 < k := hlt
      exact h.later k step hstep (by omega)
    · have hlt' : k < s.stage + 1 := hlt
      rcases Nat.lt_succ_iff_lt_or_eq.mp hlt' with hk | rfl
      · exact h.earlier k step hstep hk
      · have hend := hended step hstep
        change ∃ output, (s.phase step.id).output = some output
        cases hphase : s.phase step.id with
        | finished request output => exact ⟨output, rfl⟩
        | failed place e => exact absurd herrs (h.errs step hstep place e hphase)
        | waiting | copied _ | dispatched _ | returned _ _ => simp [hphase, Phase.ended] at hend
    · intro step hstep place e hphase
      have hwaiting := h.later (s.stage + 1) step hstep (by omega)
      rw [show s.phase step.id = .failed place e from hphase] at hwaiting
      cases hwaiting

theorem progress_of_reachable (h : run.system.Reachable s) : Progress run s :=
  System.Reachable.invariant progress_init (fun _ _ _ hs hnext => hs.next hnext) h

end PlannedRun
end Persatrix.Scheduler
