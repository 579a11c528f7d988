import Persatrix.RunScheduler

/-!
# The life of one run

What can be seen of a run is logged: that `executeRun` found it pending and began it, the
statuses the store comes to hold for it, and the finish times the scheduler stamps.
The goroutine of a run, while it is in flight, is the only one, and its phase says what
has been logged and which status the store shows, unless the run was deleted. A run
without a goroutine past the guard is not yet begun or over.
-/
namespace Persatrix.Runs

inductive Observation where
  | began
  | held (status : RunStatus)
  | finished (now : ℤ)
  deriving DecidableEq

/-- What a turn of the goroutine shows apart from the store. -/
def turnMarks : Phase → Answer → Phase → List Observation
  | .loading, _, .preparing => [.began]
  | .stamping _, .clock now, _ => [.finished now]
  | _, _, _ => []

def marks (id : String) (s t : Orchestrator) : Event → List Observation
  | .run k answer =>
    match s.goroutine k, t.goroutine k with
    | some before, some after =>
      if before.runID = id then turnMarks before.phase answer after.phase else []
    | _, _ => []
  | _ => []

/-- The status the store comes to hold, if it is another one. -/
def change (before after : Option WorkflowRun) : List Observation :=
  if after.map (·.status) = before.map (·.status) then []
  else (after.map fun run => .held run.status).toList

def note (id : String) (s : Orchestrator) (e : Event) (t : Orchestrator) : List Observation :=
  marks id s t e ++ change (s.store.lookup id) (t.store.lookup id)

/-- How often the run passed the guard of `executeRun`. -/
def began (log : List Observation) : ℕ := log.count .began

def held (log : List Observation) : List RunStatus :=
  log.filterMap fun o => match o with | .held status => some status | _ => none

@[simp] theorem began_append (log delta : List Observation) :
    began (log ++ delta) = began log + began delta := List.count_append

@[simp] theorem held_append (log delta : List Observation) :
    held (log ++ delta) = held log ++ held delta := List.filterMap_append

@[simp] theorem change_self (stored : Option WorkflowRun) : change stored stored = [] := if_pos rfl

/-- A change of the record that leaves its status alone shows nothing. -/
theorem change_map {stored : Option WorkflowRun} {f : WorkflowRun → WorkflowRun}
    (h : ∀ run, (f run).status = run.status) : change stored (stored.map f) = [] := by
  unfold change
  rw [if_pos]
  rw [Option.map_map]
  exact congrArg (fun g => stored.map g) (funext h)

/-- The status of the run when the end of its execution is prepared. -/
def Outcome.source : Outcome → RunStatus
  | .completed | .failed true _ => .running
  | .failed false _ => .pending

/-- The status the store shows for a run that has begun. -/
def Phase.status : Phase → Option RunStatus
  | .preparing | .starting => some .pending
  | .started | .executing => some .running
  | .stamping outcome | .closing outcome => some outcome.source
  | .reporting running message => some (Outcome.failed running message).source
  | .queued | .loading | .releasing | .forgetting => none

theorem Phase.status_open {phase : Phase} {status : RunStatus} (h : phase.status = some status) :
    status = .pending ∨ status = .running := by
  have hsource : ∀ outcome : Outcome, outcome.source = .pending ∨ outcome.source = .running := by
    intro outcome
    cases outcome with
    | completed => exact .inr rfl
    | failed running message =>
      cases running with
      | false => exact .inl rfl
      | true => exact .inr rfl
  cases phase with
  | preparing | starting =>
    cases h
    exact .inl rfl
  | started | executing =>
    cases h
    exact .inr rfl
  | stamping outcome | closing outcome =>
    cases h
    exact hsource outcome
  | reporting running message =>
    cases h
    exact hsource _
  | queued | loading | releasing | forgetting => cases h

def Phase.stamped : Phase → Bool
  | .reporting _ _ | .closing _ => true
  | _ => false

/-- The statuses up to the given one. -/
def upTo : RunStatus → List RunStatus
  | .running => [.pending, .running]
  | _ => [.pending]

def Lifecycle (statuses : List RunStatus) : Prop :=
  statuses <+: [.pending, .running, .completed] ∨ statuses <+: [.pending, .running, .failed] ∨
    statuses <+: [.pending, .failed]

/-- The finish time of the record is one the scheduler stamped. -/
def Stamped (run : WorkflowRun) (log : List Observation) : Prop :=
  ∃ now, run.finishedAt = some now ∧ .finished now ∈ log

/-- The run has begun and its goroutine has not yet set a final status. -/
structure Begun (phase : Phase) (status : RunStatus) (stored : Option WorkflowRun)
    (log : List Observation) : Prop where
  once : began log = 1
  statuses : held log = upTo status
  shown : ∀ run, stored = some run → run.status = status
  stamped : phase.stamped = true → ∀ run, stored = some run → Stamped run log

/-- The run is unknown, waits to begin, or is over; it may have been deleted. -/
inductive Settled (stored : Option WorkflowRun) (log : List Observation) : Prop
  | unknown : stored = none → log = [] → Settled stored log
  | waiting : log = [.held .pending] → (∀ run, stored = some run → run.status = .pending) →
      Settled stored log
  | ended : began log = 1 → Lifecycle (held log) →
      (∀ run, stored = some run →
        (run.status = .completed ∨ run.status = .failed) ∧ Stamped run log) → Settled stored log

def Standing (phase : Option Phase) (stored : Option WorkflowRun) (log : List Observation) :
    Prop :=
  match phase with
  | none => Settled stored log
  | some phase =>
    match phase.status with
    | none => Settled stored log
    | some status => Begun phase status stored log

/-- A turn that leaves the status alone and shows at most a finish time. -/
theorem Begun.turn {phase later : Phase} {status : RunStatus} {stored : Option WorkflowRun}
    {log shown : List Observation} (h : Begun phase status stored log)
    {f : WorkflowRun → WorkflowRun} (hf : ∀ run, (f run).status = run.status)
    (hbegan : began shown = 0) (hheld : held shown = [])
    (hstamped : later.stamped = true → ∀ run, stored = some run → Stamped (f run) (log ++ shown)) :
    Begun later status (stored.map f) (log ++ (shown ++ change stored (stored.map f))) := by
  rw [change_map hf, List.append_nil]
  constructor
  · rw [began_append, h.once, hbegan]
  · rw [held_append, h.statuses, hheld, List.append_nil]
  · intro run hrun
    obtain ⟨old, hold, rfl⟩ := Option.map_eq_some_iff.mp hrun
    rw [hf, h.shown old hold]
  · intro hlater run hrun
    obtain ⟨old, hold, rfl⟩ := Option.map_eq_some_iff.mp hrun
    exact hstamped hlater old hold

theorem Outcome.lifecycle (outcome : Outcome) :
    Lifecycle (upTo outcome.source) ∧ Lifecycle (upTo outcome.source ++ [outcome.status]) := by
  unfold Lifecycle
  cases outcome with
  | completed => simp [upTo, Outcome.source, Outcome.status]
  | failed running message =>
    cases running with
    | false => simp [upTo, Outcome.source, Outcome.status]
    | true => simp [upTo, Outcome.source, Outcome.status]

/-- A run found pending has not begun. -/
theorem Settled.begin {stored : Option WorkflowRun} {log : List Observation}
    (h : Settled stored log) {run : WorkflowRun} (hrun : stored = some run)
    (hpending : run.status = .pending) : log = [.held .pending] := by
  cases h with
  | unknown hnone _ =>
    rw [hnone] at hrun
    cases hrun
  | waiting hlog _ => exact hlog
  | ended _ _ hterminal =>
    have hover := (hterminal run hrun).1
    simp [hpending] at hover

theorem Outcome.status_ne_source (outcome : Outcome) : outcome.status ≠ outcome.source := by
  cases outcome with
  | completed => decide
  | failed running message =>
    cases running with
    | false => simp [Outcome.status, Outcome.source]
    | true => simp [Outcome.status, Outcome.source]

theorem Outcome.status_final (outcome : Outcome) :
    outcome.status = .completed ∨ outcome.status = .failed := by
  cases outcome with
  | completed => exact .inl rfl
  | failed running message => exact .inr rfl

/-- A begun run whose status becomes another one. -/
theorem Begun.change_status {phase : Phase} {status next : RunStatus} {run : WorkflowRun}
    {log : List Observation} (h : Begun phase status (some run) log) (hne : next ≠ status) :
    change (some run) (some { run with status := next }) = [.held next] := by
  have hdiff : next ≠ run.status := h.shown run rfl ▸ hne
  simp [change, hdiff]

/-- The final status is set, unless the run was deleted. -/
theorem Begun.close {outcome : Outcome} {stored : Option WorkflowRun} {log : List Observation}
    (h : Begun (.closing outcome) outcome.source stored log) :
    Settled (stored.map fun run => { run with status := outcome.status })
      (log ++ change stored (stored.map fun run => { run with status := outcome.status })) := by
  have hlife := outcome.lifecycle
  cases stored with
  | none =>
    rw [Option.map_none, change_self, List.append_nil]
    apply Settled.ended
    · exact h.once
    · rw [h.statuses]
      exact hlife.1
    · intro run hrun
      cases hrun
  | some run =>
    rw [Option.map_some, h.change_status outcome.status_ne_source]
    apply Settled.ended
    · rw [began_append, h.once]
      rfl
    · rw [held_append, h.statuses]
      exact hlife.2
    · intro final hfinal
      cases hfinal
      obtain ⟨now, hfinished, hmem⟩ := h.stamped rfl run rfl
      exact ⟨outcome.status_final, now, hfinished, List.mem_append_left _ hmem⟩

/-- A begun run that is set to running, unless it was deleted. -/
theorem Begun.start {run : WorkflowRun} {log : List Observation}
    (h : Begun .starting .pending (some run) log) :
    Begun .started .running (some { run with status := .running })
      (log ++ change (some run) (some { run with status := .running })) := by
  rw [h.change_status (by decide)]
  constructor
  · rw [began_append, h.once]
    rfl
  · rw [held_append, h.statuses]
    rfl
  · intro started hstarted
    cases hstarted
    rfl
  · intro hstamped
    cases hstamped

/-- A begun run that was deleted before it was set to running is over. -/
theorem Begun.lost {log : List Observation} (h : Begun .starting .pending none log) :
    Settled none log := by
  apply Settled.ended
  · exact h.once
  · rw [h.statuses]
    exact .inl (by decide)
  · intro run hrun
    cases hrun

/-- The run passed the guard at most once, showed its statuses in order and, when it is over,
carries a finish time the scheduler stamped. -/
def Orderly (stored : Option WorkflowRun) (log : List Observation) : Prop :=
  began log ≤ 1 ∧ Lifecycle (held log) ∧
    ∀ run, stored = some run → run.status = .completed ∨ run.status = .failed → Stamped run log

theorem Begun.orderly {phase : Phase} {status : RunStatus} {stored : Option WorkflowRun}
    {log : List Observation} (h : Begun phase status stored log)
    (hopen : status = .pending ∨ status = .running) : Orderly stored log := by
  constructor
  · exact Nat.le_of_eq h.once
  constructor
  · rw [h.statuses]
    rcases hopen with rfl | rfl
    · exact .inl (by decide)
    · exact .inl (by decide)
  · intro run hrun hfinal
    rw [h.shown run hrun] at hfinal
    rcases hopen with rfl | rfl
    · simp at hfinal
    · simp at hfinal

theorem Settled.orderly {stored : Option WorkflowRun} {log : List Observation}
    (h : Settled stored log) : Orderly stored log := by
  cases h with
  | unknown hnone hlog =>
    subst hlog
    exact ⟨Nat.zero_le _, .inl List.nil_prefix, by simp [hnone]⟩
  | waiting hlog hpending =>
    subst hlog
    constructor
    · exact Nat.zero_le _
    constructor
    · exact .inl (by decide)
    · intro run hrun hfinal
      simp [hpending run hrun] at hfinal
  | ended honce hlife hfinal =>
    exact ⟨Nat.le_of_eq honce, hlife, fun run hrun _ => (hfinal run hrun).2⟩

theorem Standing.orderly {phase : Option Phase} {stored : Option WorkflowRun}
    {log : List Observation} (h : Standing phase stored log) : Orderly stored log := by
  cases phase with
  | none => exact Settled.orderly h
  | some phase =>
    unfold Standing at h
    dsimp only at h
    split at h
    next => exact h.orderly
    next status hstatus => exact h.orderly (Phase.status_open hstatus)

/-- One turn of `executeRun`, as the log and the store see it. -/
theorem Standing.run {id : String} {store after : InMemoryStore} {phase later : Phase}
    {answer : Answer} {log : List Observation} (h : Standing (some phase) (store.lookup id) log)
    (hrun : executeRun id store phase answer = some (after, later)) :
    Standing (some later) (after.lookup id)
      (log ++ (turnMarks phase answer later ++ change (store.lookup id) (after.lookup id))) := by
  rw [lookup_executeRun hrun, if_pos rfl]
  unfold executeRun at hrun
  split at hrun
  · -- the guard
    have hsame : (store.lookup id).map (written .loading .proceed) = store.lookup id :=
      Option.map_id' ..
    rw [hsame, change_self, List.append_nil]
    have hsettled : Settled (store.lookup id) (log ++ []) := (List.append_nil log).symm ▸ h
    split at hrun
    next e herror =>
      cases hrun
      exact hsettled
    next run hget =>
      cases hrun
      split_ifs with hpending
      · exact hsettled
      · have hstored := InMemoryStore.getRun_eq_ok.mp hget
        have hlog := Settled.begin h hstored (not_not.mp hpending)
        subst hlog
        constructor
        · rfl
        · rfl
        · intro found hfound
          rw [hstored] at hfound
          cases hfound
          exact not_not.mp hpending
        · intro hstamped
          cases hstamped
  · -- the plan, or the reason why there is none
    have hbegun : Begun .preparing .pending (store.lookup id) log := h
    split at hrun
    · cases hrun
      exact hbegun.turn (fun _ => rfl) rfl rfl (by simp [Phase.stamped])
    · cases hrun
      exact hbegun.turn (fun _ => rfl) rfl rfl (by simp [Phase.stamped])
  · have hbegun : Begun .starting .pending (store.lookup id) log := h
    unfold InMemoryStore.updateRunStatus InMemoryStore.modify at hrun
    cases hstored : store.lookup id with
    | none =>
      simp only [hstored] at hrun
      cases hrun
      rw [hstored] at hbegun
      rw [Option.map_none, change_self]
      exact (List.append_nil log).symm ▸ hbegun.lost
    | some run =>
      simp only [hstored] at hrun
      cases hrun
      rw [hstored] at hbegun
      exact hbegun.start
  · cases hrun
    exact Begun.turn h (fun _ => rfl) rfl rfl (by simp [Phase.stamped])
  · cases hrun
    exact Begun.turn h (fun _ => rfl) rfl rfl (by simp [Phase.stamped])
  · -- the stages end
    have hbegun : Begun .executing .running (store.lookup id) log := h
    split at hrun
    · cases hrun
      exact hbegun.turn (fun _ => rfl) rfl rfl (by simp [Phase.stamped])
    · cases hrun
      exact hbegun.turn (fun _ => rfl) rfl rfl (by simp [Phase.stamped])
  · -- the finish time comes before the final status
    next outcome now =>
    have hstamped : ∀ run, store.lookup id = some run →
        Stamped (written (.stamping outcome) (.clock now) run) (log ++ [.finished now]) :=
      fun run _ => ⟨now, rfl, List.mem_append_right log (List.mem_singleton_self _)⟩
    cases hrun
    cases outcome with
    | completed => exact Begun.turn h (fun _ => rfl) rfl rfl fun _ => hstamped
    | failed running message => exact Begun.turn h (fun _ => rfl) rfl rfl fun _ => hstamped
  · next running message =>
    have hbegun : Begun (.reporting running message) (Outcome.failed running message).source
        (store.lookup id) log := h
    cases hrun
    refine hbegun.turn (fun _ => rfl) rfl rfl fun _ run hstored => ?_
    obtain ⟨now, hfinished, hmem⟩ := hbegun.stamped rfl run hstored
    exact ⟨now, hfinished, List.mem_append_left _ hmem⟩
  · cases hrun
    exact Begun.close h
  · cases hrun

/-- The goroutine with the given run, or that there is none. -/
def Drives (goroutine : ℕ → Option Goroutine) (id : String) : Option (ℕ × Phase) → Prop
  | none => ∀ k g, goroutine k = some g → g.runID ≠ id
  | some (k, phase) => goroutine k = some ⟨id, phase⟩ ∧
      ∀ j g, goroutine j = some g → g.runID = id → j = k

section Drives
variable {goroutine : ℕ → Option Goroutine} {id : String} {current : Option (ℕ × Phase)} {k : ℕ}

theorem Drives.own {phase : Phase} (h : Drives goroutine id current)
    (hk : goroutine k = some ⟨id, phase⟩) : current = some (k, phase) := by
  cases current with
  | none => exact absurd rfl (h k _ hk)
  | some found =>
    obtain ⟨hfound, hunique⟩ := h
    have hkey := hunique k _ hk rfl
    subst hkey
    rw [hk] at hfound
    cases hfound
    rfl

theorem drives_set {phase : Phase}
    (hk : ∀ j ≠ k, ∀ g, goroutine j = some g → g.runID ≠ id) :
    Drives (Function.update goroutine k (some ⟨id, phase⟩)) id (some (k, phase)) := by
  constructor
  · exact Function.update_self ..
  · intro j g hj hid
    by_contra hne
    rw [Function.update_of_ne hne] at hj
    exact hk j hne g hj hid

/-- Goroutines of other runs do not matter. -/
theorem Drives.other {g : Option Goroutine} (h : Drives goroutine id current)
    (hold : ∀ old, goroutine k = some old → old.runID ≠ id)
    (hnew : ∀ new, g = some new → new.runID ≠ id) :
    Drives (Function.update goroutine k g) id current := by
  have hsame : ∀ j new, Function.update goroutine k g j = some new → new.runID = id →
      goroutine j = some new := by
    intro j new hj hid
    by_cases hjk : j = k
    · subst hjk
      rw [Function.update_self] at hj
      exact absurd hid (hnew new hj)
    · rwa [Function.update_of_ne hjk] at hj
  cases current with
  | none => exact fun j new hj hid => h j new (hsame j new hj hid) hid
  | some found =>
    obtain ⟨hfound, hunique⟩ := h
    constructor
    · rw [Function.update_of_ne]
      · exact hfound
      · intro hkey
        subst hkey
        exact hold _ hfound rfl
    · exact fun j new hj hid => hunique j new (hsame j new hj hid) hid

theorem Drives.unique {phase : Phase} (h : Drives goroutine id current)
    (hk : goroutine k = some ⟨id, phase⟩) :
    ∀ j ≠ k, ∀ g, goroutine j = some g → g.runID ≠ id := by
  intro j hne g hj hid
  rw [h.own hk] at h
  exact hne (h.2 j g hj hid)

end Drives

/-- A run is seen only once its id has been given out, its goroutine is in flight, and the
phase of the goroutine agrees with the store and the log. -/
structure Tracked (d : Deployment) (id : String) (s : Orchestrator) (log : List Observation) :
    Prop where
  known : log ≠ [] → ∃ n < s.generated, d.newUUID n = id
  unused : ∀ k, s.spawned ≤ k → s.goroutine k = none
  driver : ∃ current, Drives s.goroutine id current ∧ s.inFlight id = current.isSome ∧
    Standing (current.map Prod.snd) (s.store.lookup id) log

variable {d : Deployment} {id : String} {s t : Orchestrator} {log : List Observation}

theorem tracked_init : Tracked d id {} [] where
  known h := absurd rfl h
  unused _ _ := rfl
  driver := by
    refine ⟨none, fun k g hk => ?_, rfl, ?_⟩
    · cases hk
    · exact Settled.unknown rfl rfl

/-- Removing the record shows nothing. -/
theorem Standing.remove {phase : Option Phase} {stored : Option WorkflowRun}
    (h : Standing phase stored log) : Standing phase none log := by
  have hsettled : Settled stored log → Settled none log := by
    intro hold
    cases hold with
    | unknown _ hlog => exact .unknown rfl hlog
    | waiting hlog _ => exact .waiting hlog (by simp)
    | ended honce hlife _ => exact .ended honce hlife (by simp)
  cases phase with
  | none => exact hsettled h
  | some phase =>
    unfold Standing at h ⊢
    cases hstatus : phase.status with
    | none =>
      simp only [hstatus] at h ⊢
      exact hsettled h
    | some status =>
      simp only [hstatus] at h ⊢
      exact ⟨h.once, h.statuses, by simp, by simp⟩

/-- A run that was never seen is not stored and waits once it is submitted. -/
theorem Standing.submit {phase : Option Phase} {stored : Option WorkflowRun}
    (h : Standing phase stored []) : stored = none ∧
      ∀ run : WorkflowRun, run.status = .pending → Standing phase (some run) [.held .pending] := by
  have hsettled : Settled stored [] → stored = none := by
    intro hold
    cases hold with
    | unknown hnone _ => exact hnone
    | waiting hlog _ => cases hlog
    | ended honce _ _ => cases honce
  have hwaiting : ∀ run : WorkflowRun, run.status = .pending →
      Settled (some run) [.held .pending] := by
    intro run hrun
    apply Settled.waiting rfl
    intro found hfound
    cases hfound
    exact hrun
  cases phase with
  | none => exact ⟨hsettled h, hwaiting⟩
  | some phase =>
    unfold Standing at h ⊢
    cases hstatus : phase.status with
    | none =>
      simp only [hstatus] at h ⊢
      exact ⟨hsettled h, hwaiting⟩
    | some status =>
      simp only [hstatus] at h
      have honce := h.once
      cases honce

theorem marks_eq_nil {e : Event} (h : ∀ k answer, e ≠ .run k answer) : marks id s t e = [] := by
  unfold marks
  split
  · exact absurd rfl (h _ _)
  · rfl

theorem note_eq_nil {e : Event} (hmarks : marks id s t e = [])
    (hstore : t.store.lookup id = s.store.lookup id) : note id s e t = [] := by
  rw [note, hmarks, hstore, change_self, List.append_nil]

theorem Standing.quiet {e : Event} {phase : Option Phase} (hmarks : marks id s t e = [])
    (hstore : t.store.lookup id = s.store.lookup id)
    (h : Standing phase (s.store.lookup id) log) :
    Standing phase (t.store.lookup id) (log ++ note id s e t) := by
  rw [note_eq_nil hmarks hstore, List.append_nil, hstore]
  exact h

theorem Tracked.quiet {e : Event} (hmarks : marks id s t e = [])
    (hstore : t.store.lookup id = s.store.lookup id) (h : Tracked d id t log) :
    Tracked d id t (log ++ note id s e t) := by
  rw [note_eq_nil hmarks hstore, List.append_nil]
  exact h

/-- An event by which the record, the goroutine and the log of the run stay as they are. -/
theorem Tracked.frame {e : Event} (h : Tracked d id s log) (hmarks : marks id s t e = [])
    (hstore : t.store.lookup id = s.store.lookup id) (hgenerated : s.generated ≤ t.generated)
    (hunused : ∀ k, t.spawned ≤ k → t.goroutine k = none)
    (hflight : t.inFlight id = s.inFlight id)
    (hdrives : ∀ current, Drives s.goroutine id current → Drives t.goroutine id current) :
    Tracked d id t (log ++ note id s e t) := by
  apply Tracked.quiet hmarks hstore
  constructor
  · intro hlog
    obtain ⟨n, hn, hid⟩ := h.known hlog
    exact ⟨n, Nat.lt_of_lt_of_le hn hgenerated, hid⟩
  · exact hunused
  · obtain ⟨current, hcurrent, hsome, hstanding⟩ := h.driver
    exact ⟨current, hdrives current hcurrent, hflight.trans hsome, hstore ▸ hstanding⟩

/-- A goroutine goes on: its run is tracked through it, other runs do not see it. -/
theorem Tracked.turn {e : Event} {k : ℕ} {runID : String} {phase later : Phase}
    (h : Tracked d id s log) (hk : s.goroutine k = some ⟨runID, phase⟩)
    (hgoroutine : t.goroutine = Function.update s.goroutine k (some ⟨runID, later⟩))
    (hspawned : t.spawned = s.spawned) (hgenerated : t.generated = s.generated)
    (hflight : t.inFlight = s.inFlight)
    (hother : id ≠ runID → marks id s t e = [] ∧ t.store.lookup id = s.store.lookup id)
    (hown : id = runID → Standing (some phase) (s.store.lookup id) log →
      Standing (some later) (t.store.lookup id) (log ++ note id s e t))
    (hseen : log = [] → id = runID → note id s e t = []) :
    Tracked d id t (log ++ note id s e t) := by
  have hunused : ∀ j, t.spawned ≤ j → t.goroutine j = none := by
    intro j hj
    rw [hgoroutine, Function.update_of_ne]
    · exact h.unused j (hspawned ▸ hj)
    · intro hjk
      subst hjk
      rw [h.unused j (hspawned ▸ hj)] at hk
      cases hk
  by_cases hid : id = runID
  · subst hid
    obtain ⟨current, hcurrent, hsome, hstanding⟩ := h.driver
    have heq := hcurrent.own hk
    subst heq
    constructor
    · intro hlog
      rw [hgenerated]
      apply h.known
      intro hnil
      rw [hnil, hseen hnil rfl] at hlog
      exact hlog rfl
    · exact hunused
    · refine ⟨some (k, later), ?_, ?_, hown rfl hstanding⟩
      · rw [hgoroutine]
        exact drives_set (hcurrent.unique hk)
      · rw [hflight]
        exact hsome
  · obtain ⟨hmarks, hstore⟩ := hother hid
    apply h.frame hmarks hstore (Nat.le_of_eq hgenerated.symm) hunused (by rw [hflight])
    intro current hcurrent
    rw [hgoroutine]
    apply hcurrent.other
    · intro old hold
      rw [hk] at hold
      cases hold
      exact Ne.symm hid
    · intro new hnew
      cases hnew
      exact Ne.symm hid

/-- The goroutine of a run that was never submitted finds nothing. -/
theorem Standing.silent {store after : InMemoryStore} {phase later : Phase} {answer : Answer}
    (h : Standing (some phase) (store.lookup id) [])
    (hrun : executeRun id store phase answer = some (after, later)) :
    turnMarks phase answer later ++ change (store.lookup id) (after.lookup id) = [] := by
  have hnone := h.submit.1
  have hbegun : ∀ status, ¬ Begun phase status (store.lookup id) [] := by
    intro status hbegun
    have honce := hbegun.once
    cases honce
  rw [lookup_executeRun hrun, if_pos rfl, hnone, Option.map_none, change_self, List.append_nil]
  cases phase with
  | loading =>
    unfold executeRun at hrun
    split at hrun
    next hphase =>
      simp only [InMemoryStore.getRun, hnone] at hrun
      cases hrun
      rfl
    all_goals simp_all
  | stamping outcome => exact absurd h (hbegun _)
  | _ => rfl

/-- What a turn of its goroutine shows of the run. -/
theorem note_run {k : ℕ} {answer : Answer} {phase later : Phase} {store : InMemoryStore}
    (hk : s.goroutine k = some ⟨id, phase⟩) :
    note id s (.run k answer) { s.setGoroutine k id later with store := store } =
      turnMarks phase answer later ++ change (s.store.lookup id) (store.lookup id) := by
  simp [note, marks, hk, Orchestrator.setGoroutine]

theorem Tracked.next {e : Event} (h : Tracked d id s log) (hnext : next d s e = some t) :
    Tracked d id t (log ++ note id s e t) := by
  cases moves_of_next hnext with
  | @submit workflowID inputs now run hid hpending =>
    have hlookup := InMemoryStore.lookup_createRun s.store
      (d.newUUID s.generated) run hid id
    by_cases hnew : id = d.newUUID s.generated
    · have hlog : log = [] := by
        by_contra hne
        obtain ⟨n, hn, heq⟩ := h.known hne
        have hsame := d.newUUID_injective (heq.trans hnew)
        omega
      subst hlog
      obtain ⟨current, hcurrent, hsome, hstanding⟩ := h.driver
      obtain ⟨hnone, hwaiting⟩ := hstanding.submit
      rw [if_pos ⟨hnew, hnew ▸ hnone⟩] at hlookup
      have hnote : change (s.store.lookup id) (some { run with id := d.newUUID s.generated }) =
          [.held .pending] := by
        simp [change, hnone, hpending]
      constructor
      · intro _
        exact ⟨s.generated, Nat.lt_succ_self _, hnew.symm⟩
      · exact h.unused
      · refine ⟨current, hcurrent, hsome, ?_⟩
        dsimp only
        rw [note, marks_eq_nil (by simp), hlookup, hnote]
        exact hwaiting _ hpending
    · rw [if_neg (fun hand => hnew hand.1)] at hlookup
      exact h.frame rfl hlookup (Nat.le_succ _) h.unused rfl fun _ hcurrent => hcurrent
  | poll hne => exact h.frame (marks_eq_nil hne) rfl le_rfl h.unused rfl fun _ hcurrent => hcurrent
  | @spawn runID poll hfree =>
    have hunused : ∀ k, s.spawned + 1 ≤ k →
        Function.update s.goroutine s.spawned (some ⟨runID, .queued⟩) k = none := by
      intro k hk
      rw [Function.update_of_ne (by omega)]
      exact h.unused k (by omega)
    have hslot := h.unused s.spawned le_rfl
    by_cases hid : id = runID
    · subst hid
      obtain ⟨current, hcurrent, hsome, hstanding⟩ := h.driver
      rw [hfree] at hsome
      cases current with
      | some found => cases hsome
      | none =>
        refine Tracked.quiet rfl rfl
          ⟨h.known, hunused, some (s.spawned, .queued), ?_, ?_, hstanding⟩
        · exact drives_set fun j _ g hj => hcurrent j g hj
        · exact Function.update_self ..
    · refine h.frame rfl rfl le_rfl hunused (Function.update_of_ne hid ..) ?_
      intro current hcurrent
      apply hcurrent.other
      · intro old hold
        rw [hslot] at hold
        cases hold
      · intro new hnew
        cases hnew
        exact Ne.symm hid
  | @acquire k runID holders hk =>
    refine h.turn hk rfl rfl rfl rfl (fun _ => ⟨rfl, rfl⟩) (fun _ hstanding => ?_)
      fun _ _ => note_eq_nil rfl rfl
    exact Standing.quiet rfl rfl hstanding
  | @run k answer runID phase later store hk hrun =>
    refine h.turn hk rfl rfl rfl rfl (fun hid => ⟨?_, ?_⟩) (fun hid hstanding => ?_)
      fun hlog hid => ?_
    · simp [marks, hk, Orchestrator.setGoroutine, Ne.symm hid]
    · exact (lookup_executeRun hrun id).trans (if_neg hid)
    · subst hid
      rw [note_run hk]
      exact hstanding.run hrun
    · subst hid hlog
      rw [note_run hk]
      obtain ⟨current, hcurrent, -, hstanding⟩ := h.driver
      rw [hcurrent.own hk] at hstanding
      exact hstanding.silent hrun
  | @release k runID holders hk =>
    refine h.turn hk rfl rfl rfl rfl (fun _ => ⟨rfl, rfl⟩) (fun _ hstanding => ?_)
      fun _ _ => note_eq_nil rfl rfl
    exact Standing.quiet rfl rfl hstanding
  | @forget k runID hk =>
    have hunused : ∀ j, s.spawned ≤ j → Function.update s.goroutine k none j = none := by
      intro j hj
      by_cases hjk : j = k
      · rw [hjk, Function.update_self]
      · rw [Function.update_of_ne hjk]
        exact h.unused j hj
    by_cases hid : id = runID
    · subst hid
      obtain ⟨current, hcurrent, -, hstanding⟩ := h.driver
      have hunique := hcurrent.unique hk
      rw [hcurrent.own hk] at hstanding
      refine Tracked.quiet rfl rfl
        ⟨h.known, hunused, none, fun j g hj => ?_, Function.update_self .., hstanding⟩
      dsimp only at hj
      by_cases hjk : j = k
      · rw [hjk, Function.update_self] at hj
        cases hj
      · rw [Function.update_of_ne hjk] at hj
        exact hunique j hjk g hj
    · refine h.frame rfl rfl le_rfl hunused (Function.update_of_ne hid ..) ?_
      intro current hcurrent
      apply hcurrent.other
      · intro old hold
        rw [hk] at hold
        cases hold
        exact Ne.symm hid
      · intro new hnew
        cases hnew
  | refuse => exact h.frame rfl rfl le_rfl h.unused rfl fun _ hcurrent => hcurrent
  | accept _ _ => exact h.frame rfl rfl le_rfl h.unused rfl fun _ hcurrent => hcurrent
  | @delete runID hmem =>
    have hlookup := InMemoryStore.lookup_deleteRun s.store runID id
    by_cases hid : id = runID
    · rw [if_pos hid] at hlookup
      have hnote : change (s.store.lookup id) none = [] := by
        simp [change]
      obtain ⟨current, hcurrent, hsome, hstanding⟩ := h.driver
      rw [note, marks_eq_nil (by simp), hlookup, hnote, List.append_nil, List.append_nil]
      exact ⟨h.known, h.unused, current, hcurrent, hsome, hlookup ▸ hstanding.remove⟩
    · rw [if_neg hid] at hlookup
      exact h.frame rfl hlookup le_rfl h.unused rfl fun _ hcurrent => hcurrent

theorem tracked_of_reachable (h : ((system d).logged (note id)).Reachable (s, log)) :
    Tracked d id s log := by
  refine h.invariant (I := fun p => Tracked d id p.1 p.2) tracked_init ?_
  intro p e q hp hstep
  obtain ⟨hnext, hlog⟩ := System.logged_step hstep
  rw [hlog]
  exact hp.next hnext

/-- A run passes the guard at most once, shows its statuses in order, and a reader of the
run, or of a list of runs, who finds it completed or failed finds the finish time that the
scheduler stamped. -/
theorem run_lifecycle (h : ((system d).logged (note id)).Reachable (s, log)) :
    began log ≤ 1 ∧ Lifecycle (held log) ∧
      ∀ run, (s.store.getRun id = .ok run ∨ ∃ order, run ∈ s.store.listRuns order ∧ run.id = id) →
        run.status = .completed ∨ run.status = .failed → Stamped run log := by
  have hread : ∀ run,
      (s.store.getRun id = .ok run ∨ ∃ order, run ∈ s.store.listRuns order ∧ run.id = id) →
      s.store.lookup id = some run := by
    intro run hrun
    rcases hrun with hget | ⟨order, hlist, hid⟩
    · exact InMemoryStore.getRun_eq_ok.mp hget
    · obtain ⟨key, -, hlookup⟩ := InMemoryStore.mem_listRuns.mp hlist
      have hkey := stored_under_id h.of_logged key run hlookup
      rwa [← hid, hkey]
  obtain ⟨current, -, -, hstanding⟩ := (tracked_of_reachable h).driver
  obtain ⟨honce, hlife, hfinal⟩ := hstanding.orderly
  exact ⟨honce, hlife, fun run hrun => hfinal run (hread run hrun)⟩

def demoID : String := "6f9619ff-8b86-4d11-b42d-00c04fc964ff"

def demoUUID (n : ℕ) : String := demoID ++ String.ofList (List.replicate n '0')

def demoDeployment : Deployment where
  newUUID := demoUUID
  newUUID_injective := by
    intro m n h
    have hlength := congrArg String.length h
    simpa [demoUUID] using hlength
  parsesUUID := fun id => id.length = 36
  maxConcurrent := 10

/-- A run without steps from its submission to its end. -/
def emptyRun : List Event := [
  .submit "demo-flow" ∅ 1, .listRuns [demoID], .pollNext, .acquire 0, .run 0 .proceed,
  .run 0 (.planned none), .run 0 .proceed, .run 0 (.clock 2), .run 0 (.stages none),
  .run 0 (.clock 3), .run 0 .proceed]

theorem emptyRun_lifecycle : ∃ s run log,
    ((system demoDeployment).logged (note demoID)).exec emptyRun = some (s, log) ∧
    log = [.held .pending, .began, .held .running, .finished 3, .held .completed] ∧
    began log ≤ 1 ∧ Lifecycle (held log) ∧ s.store.getRun demoID = .ok run ∧ Stamped run log := by
  obtain ⟨⟨s, log⟩, hexec⟩ : ∃ p,
      ((system demoDeployment).logged (note demoID)).exec emptyRun = some p := ⟨_, rfl⟩
  have hseen : (((system demoDeployment).logged (note demoID)).exec emptyRun).map
      (fun p => (p.2, (p.1.store.lookup demoID).map (·.status))) =
      some ([.held .pending, .began, .held .running, .finished 3, .held .completed],
        some .completed) := by
    decide
  rw [hexec, Option.map_some, Option.some.injEq, Prod.mk.injEq] at hseen
  obtain ⟨run, hrun, hstatus⟩ := Option.map_eq_some_iff.mp hseen.2
  obtain ⟨honce, hlife, hstamped⟩ := run_lifecycle (System.reachable_exec hexec)
  have hget := InMemoryStore.getRun_eq_ok.mpr hrun
  exact ⟨s, run, log, hexec, hseen.1, honce, hlife, hget, hstamped run (.inl hget) (.inl hstatus)⟩

end Persatrix.Runs
