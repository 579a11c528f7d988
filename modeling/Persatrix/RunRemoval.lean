import Persatrix.RunLifecycle

/-!
# Deleting runs while they execute

A delete handler reads the status of the run in one store call and removes the run in
another. A run that the handler found pending can be set to running in between; it is
then removed while its steps are dispatched, and what they write is lost. While no run
is set to running under a handler that is about to remove it, running runs stay.
-/
namespace Persatrix.Runs

/-- A run in the store is set to running while a handler that found it not running is
about to remove it. -/
def startsUnderDelete (s : Orchestrator) : Event → Bool
  | .run k _ =>
    match s.goroutine k with
    | some ⟨runID, .starting⟩ => (s.store.lookup runID).isSome && decide (runID ∈ s.deleting)
    | _ => false
  | _ => false

def StartsUndeleted (s : Orchestrator) (e : Event) : Prop := startsUnderDelete s e = false

instance (s : Orchestrator) (e : Event) : Decidable (StartsUndeleted s e) :=
  inferInstanceAs (Decidable (startsUnderDelete s e = false))

/-- No removal that is about to happen hits a running run, and what `executeRun` writes for
a run it has set to running lands in the store. -/
structure Kept (s : Orchestrator) : Prop where
  removal : ∀ runID ∈ s.deleting, ∀ run, s.store.getRun runID = .ok run → run.status ≠ .running
  writes : ∀ k runID phase, s.goroutine k = some ⟨runID, phase⟩ → phase.status = some .running →
    ∀ answer after later, executeRun runID s.store phase answer = some (after, later) →
      ∃ run, s.store.getRun runID = .ok run ∧
        after.getRun runID = .ok (written phase answer run)

variable {d : Deployment} {s t : Orchestrator}

/-- The store shows the status that belongs to the phase of a begun run. -/
theorem shown_status (h : (system d).Reachable s) {k : ℕ} {runID : String} {phase : Phase}
    (hk : s.goroutine k = some ⟨runID, phase⟩) {status : RunStatus}
    (hstatus : phase.status = some status) {run : WorkflowRun}
    (hrun : s.store.lookup runID = some run) : run.status = status := by
  obtain ⟨log, hlog⟩ := h.exists_log (note runID)
  obtain ⟨current, hcurrent, -, hstanding⟩ := (tracked_of_reachable hlog).driver
  rw [hcurrent.own hk] at hstanding
  simp only [Option.map_some, Standing, hstatus] at hstanding
  exact hstanding.shown run hrun

theorem written_running {phase : Phase} {answer : Answer} {run : WorkflowRun}
    (h : (written phase answer run).status = .running) :
    run.status = .running ∨ phase = .starting := by
  unfold written at h
  split at h
  · exact .inr rfl
  · exact .inl h
  · exact .inl h
  · exact .inl h
  · exact .inl h
  next outcome =>
    exfalso
    rcases outcome.status_final with hfinal | hfinal
    · rw [hfinal] at h
      cases h
    · rw [hfinal] at h
      cases h
  · exact .inl h

/-- A goroutine comes to a phase of a running run only with the run in the store. -/
theorem executeRun_running {runID : String} {store after : InMemoryStore} {phase later : Phase}
    {answer : Answer} (h : executeRun runID store phase answer = some (after, later))
    (hlater : later.status = some .running) :
    phase.status = some .running ∨ (store.lookup runID).isSome := by
  cases hstored : store.lookup runID with
  | some run => exact .inr rfl
  | none =>
    left
    unfold executeRun at h
    split at h
    · simp only [InMemoryStore.getRun, hstored] at h
      cases h
      cases hlater
    · split at h
      · cases h
        cases hlater
      · cases h
        cases hlater
    · simp only [InMemoryStore.updateRunStatus, InMemoryStore.modify, hstored] at h
      cases h
      cases hlater
    · rfl
    · rfl
    · rfl
    next outcome now =>
      cases outcome with
      | completed => rfl
      | failed running message =>
        cases h
        exact hlater
    · cases h
      exact hlater
    · cases h
      cases hlater
    · cases h

/-- What makes the writes land: the runs set to running are in the store. -/
structure Retained (d : Deployment) (s : Orchestrator) : Prop where
  reachable : (system d).Reachable s
  removal : ∀ runID ∈ s.deleting, ∀ run, s.store.lookup runID = some run → run.status ≠ .running
  present : ∀ k runID phase, s.goroutine k = some ⟨runID, phase⟩ →
    phase.status = some .running → (s.store.lookup runID).isSome

theorem Retained.kept (h : Retained d s) : Kept s where
  removal runID hmem run hget := h.removal runID hmem run (InMemoryStore.getRun_eq_ok.mp hget)
  writes k runID phase hk hstatus answer after later hrun := by
    obtain ⟨run, hstored⟩ := Option.isSome_iff_exists.mp (h.present k runID phase hk hstatus)
    refine ⟨run, InMemoryStore.getRun_eq_ok.mpr hstored, InMemoryStore.getRun_eq_ok.mpr ?_⟩
    rw [lookup_executeRun hrun, if_pos rfl, hstored, Option.map_some]

/-- A goroutine that is set to a phase before or after the execution. -/
theorem Retained.idle (h : Retained d s) {k : ℕ} {runID : String} {phase : Phase}
    (hphase : phase.status ≠ some .running) :
    ∀ j id p, Function.update s.goroutine k (some ⟨runID, phase⟩) j = some ⟨id, p⟩ →
      p.status = some .running → (s.store.lookup id).isSome := by
  intro j id p hj hp
  by_cases hjk : j = k
  · rw [hjk, Function.update_self] at hj
    cases hj
    exact absurd hp hphase
  · rw [Function.update_of_ne hjk] at hj
    exact h.present j id p hj hp

theorem Retained.next {e : Event} (h : Retained d s) (hstart : StartsUndeleted s e)
    (hnext : next d s e = some t) : Retained d t := by
  have hreachable : (system d).Reachable t := h.reachable.next hnext
  cases moves_of_next hnext with
  | @submit workflowID inputs now run hid hpending =>
    have hlookup := InMemoryStore.lookup_createRun s.store
      (d.newUUID s.generated) run hid
    constructor
    · exact hreachable
    · intro runID hmem found hfound
      dsimp only at hfound
      rw [hlookup] at hfound
      split_ifs at hfound
      · cases hfound
        simp [hpending]
      · exact h.removal runID hmem found hfound
    · intro k runID phase hk hphase
      have hold := h.present k runID phase hk hphase
      dsimp only
      rw [hlookup]
      split_ifs
      · rfl
      · exact hold
  | poll _ => exact ⟨hreachable, h.removal, h.present⟩
  | spawn _ => exact ⟨hreachable, h.removal, h.idle (by simp [Phase.status])⟩
  | acquire _ => exact ⟨hreachable, h.removal, h.idle (by simp [Phase.status])⟩
  | @run k answer runID phase later store hk hrun =>
    have hlookup := lookup_executeRun hrun
    constructor
    · exact hreachable
    · intro id hmem found hfound
      dsimp only at hfound
      rw [hlookup] at hfound
      split_ifs at hfound with hid
      · subst hid
        obtain ⟨old, hold, rfl⟩ := Option.map_eq_some_iff.mp hfound
        intro hrunning
        rcases written_running hrunning with hbefore | hphase
        · exact h.removal id hmem old hold hbefore
        · subst hphase
          have hpending : id ∈ s.deleting := hmem
          simp [StartsUndeleted, startsUnderDelete, hk, hold, hpending] at hstart
      · exact h.removal id hmem found hfound
    · intro j id p hj hp
      have hsome : (s.store.lookup id).isSome := by
        by_cases hjk : j = k
        · subst hjk
          simp only [Orchestrator.setGoroutine, Function.update_self] at hj
          cases hj
          rcases executeRun_running hrun hp with hphase | hsome
          · exact h.present j _ phase hk hphase
          · exact hsome
        · simp only [Orchestrator.setGoroutine, Function.update_of_ne hjk] at hj
          exact h.present j id p hj hp
      dsimp only
      rw [hlookup]
      split_ifs
      · rw [Option.isSome_map]
        exact hsome
      · exact hsome
  | release _ => exact ⟨hreachable, h.removal, h.idle (by simp [Phase.status])⟩
  | @forget k runID hk =>
    refine ⟨hreachable, h.removal, fun j id p hj hp => ?_⟩
    dsimp only at hj
    by_cases hjk : j = k
    · rw [hjk, Function.update_self] at hj
      cases hj
    · rw [Function.update_of_ne hjk] at hj
      exact h.present j id p hj hp
  | refuse => exact h
  | @accept runID run hrun hstatus =>
    refine ⟨hreachable, fun id hmem found hfound => ?_, h.present⟩
    rcases List.mem_cons.mp hmem with rfl | hold
    · rw [hrun] at hfound
      cases hfound
      exact hstatus
    · exact h.removal id hold found hfound
  | @delete runID hmem =>
    have hlookup := InMemoryStore.lookup_deleteRun s.store runID
    constructor
    · exact hreachable
    · intro id hid found hfound
      dsimp only at hfound
      rw [hlookup] at hfound
      split_ifs at hfound
      exact h.removal id (List.mem_of_mem_erase hid) found hfound
    · intro k id phase hk hphase
      have hsome := h.present k id phase hk hphase
      obtain ⟨run, hrun⟩ := Option.isSome_iff_exists.mp hsome
      have hrunning := shown_status h.reachable hk hphase hrun
      have hne : id ≠ runID := by
        intro heq
        exact h.removal runID hmem run (heq ▸ hrun) hrunning
      dsimp only
      rw [hlookup, if_neg hne]
      exact hsome

/-- Running runs are kept in every run of the system in which no run is set to running
under a delete handler. -/
theorem running_kept (h : (system d).Reaches StartsUndeleted s) : Kept s := by
  have hretained : Retained d s := by
    refine h.invariant (I := Retained d) ?_ fun s e t hs hstart hnext => hs.next hstart hnext
    refine ⟨.init, fun _ hmem => ?_, fun k runID phase hk => ?_⟩
    · cases hmem
    · cases hk
  exact hretained.kept

/-- The condition is exact: a start under a delete handler leaves a removal that is about to
hit a running run. -/
theorem not_kept_of_startsUnderDelete {e : Event} (h : startsUnderDelete s e = true)
    (hnext : next d s e = some t) : ¬ Kept t := by
  cases moves_of_next hnext with
  | @run k answer runID phase later store hk hrun =>
    unfold startsUnderDelete at h
    simp only [hk] at h
    split at h
    next heq =>
      cases heq
      rw [Bool.and_eq_true, decide_eq_true_eq] at h
      obtain ⟨run, hstored⟩ := Option.isSome_iff_exists.mp h.1
      intro hkept
      have hlookup := lookup_executeRun hrun runID
      cases answer with
      | proceed =>
        rw [if_pos rfl, hstored, Option.map_some] at hlookup
        exact hkept.removal runID h.2 _ (InMemoryStore.getRun_eq_ok.mpr hlookup) rfl
      | planned _ | clock _ | step _ | stages _ => cases hrun
    next => cases h
  | poll hne =>
    unfold startsUnderDelete at h
    split at h
    · exact absurd rfl (hne _ _)
    · cases h
  | submit _ _ | spawn _ | acquire _ | release _ | forget _ | refuse | accept _ _ | delete _ =>
    cases h

/-- A delete request finds the run pending; the run is set to running and then removed. -/
def racingDelete : List Event := [
  .submit "demo-flow" ∅ 1, .listRuns [demoID], .pollNext, .acquire 0, .run 0 .proceed,
  .checkDelete demoID, .run 0 (.planned none), .run 0 .proceed]

theorem racingDelete_not_kept : ∃ s t, (system demoDeployment).exec racingDelete.dropLast = some s ∧
    next demoDeployment s (.run 0 .proceed) = some t ∧ ¬ Kept t := by
  obtain ⟨s, t, hexec, hnext, hstarts⟩ : ∃ s t,
      (system demoDeployment).exec racingDelete.dropLast = some s ∧
      next demoDeployment s (.run 0 .proceed) = some t ∧
      startsUnderDelete s (.run 0 .proceed) = true := ⟨_, _, rfl, rfl, rfl⟩
  exact ⟨s, t, hexec, hnext, not_kept_of_startsUnderDelete hstarts hnext⟩

/-- The rest of the execution; nothing of it lands. -/
def restOfRun : List Event := [
  .run 0 (.clock 2), .run 0 (.step ⟨"draft", .completed, "7", "", some 2, some 3⟩),
  .run 0 (.stages none), .run 0 (.clock 4), .run 0 .proceed]

theorem delete_removes_running : ∃ s t u run, (system demoDeployment).exec racingDelete = some s ∧
    s.store.getRun demoID = .ok run ∧ run.status = .running ∧
    next demoDeployment s (.delete demoID) = some t ∧
    t.store.getRun demoID = .error .runNotFound ∧
    (system demoDeployment).execFrom t restOfRun = some u ∧
    u.goroutine 0 = some ⟨demoID, .releasing⟩ ∧ u.store.getRun demoID = .error .runNotFound :=
  ⟨_, _, _, _, rfl, rfl, rfl, rfl, rfl, rfl, rfl, rfl⟩

/-- A delete request that waits for the run to end. -/
theorem patientDelete_kept : ∃ s t, ((system demoDeployment).guarded StartsUndeleted).exec
      (emptyRun ++ [.checkDelete demoID]) = some s ∧ demoID ∈ s.deleting ∧ Kept s ∧
    next demoDeployment s (.delete demoID) = some t ∧
    t.store.getRun demoID = .error .runNotFound := by
  obtain ⟨s, hexec⟩ : ∃ s, ((system demoDeployment).guarded StartsUndeleted).exec
      (emptyRun ++ [.checkDelete demoID]) = some s := ⟨_, rfl⟩
  have hseen : (((system demoDeployment).guarded StartsUndeleted).exec
      (emptyRun ++ [.checkDelete demoID])).map (·.deleting) = some [demoID] := by
    decide
  rw [hexec, Option.map_some, Option.some.injEq] at hseen
  have hmem : demoID ∈ s.deleting := by
    rw [hseen]
    exact List.mem_singleton_self _
  have hkept := running_kept (System.Reachable.of_guarded (System.reachable_exec hexec))
  refine ⟨s, _, hexec, hmem, hkept, if_pos hmem, ?_⟩
  rw [InMemoryStore.getRun, InMemoryStore.lookup_deleteRun, if_pos rfl]

end Persatrix.Runs
