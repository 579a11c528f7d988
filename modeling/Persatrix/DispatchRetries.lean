import Persatrix.FloatRounding
import Persatrix.GoValues

/-!
# The dispatch of a task and its retries

`ExecuteTask` of the executor: a cached answer or an agent that is not ready ends it before
anything is dispatched, and after that the attempts share the deadline of the step. An `int` and a
`time.Duration` are 64 bits wide and wrap. What the agents answer, the clock and the draws for the
pauses are given by a world.
-/
namespace Persatrix.Executor
open Float64

/-! ### Errors -/

/-- The errors that a dispatch is given, and `%w` around one. -/
inductive GoError where
  | taskFailed
  | unexpectedStatus
  | agentNotFound
  | agentNotReady
  | status (code : UInt32) (message : GoString)
  | plain (message : GoString)
  | wrap (before : GoString) (cause : GoError) (after : GoString)
deriving DecidableEq

def resourceExhausted : UInt32 := 8
def aborted : UInt32 := 10
def unavailable : UInt32 := 14

namespace GoError

/-- `errors.Is` -/
def isError (target : GoError) : GoError → Bool
  | wrap before cause after => wrap before cause after = target || isError target cause
  | e => e = target

/-- The code of `status.FromError`, if there is a status. -/
def statusCode : GoError → Option UInt32
  | status code _ => some code
  | wrap _ cause _ => statusCode cause
  | _ => none

/-- One error is another one or is around it. -/
inductive Wraps : GoError → GoError → Prop
  | refl (e : GoError) : Wraps e e
  | wrap (before : GoString) {cause e : GoError} (after : GoString) (h : Wraps cause e) :
      Wraps (wrap before cause after) e

end GoError

def isTransient (err : GoError) : Bool :=
  if err.isError .taskFailed || err.isError .unexpectedStatus then false
  else match err.statusCode with
    | none => true
    | some code => code = unavailable || code = resourceExhausted || code = aborted

/-! ### The executor and what it is asked -/

inductive DeadlineMode where
  | derived
  | static
deriving DecidableEq

inductive AgentStatus where
  | unknown
  | healthy
  | degraded
  | offline
  | other (n : Int64)
deriving DecidableEq

/-- `%d` -/
def formatInt (n : ℤ) : GoString := (if n < 0 then ascii "-" else []) ++ decimal n.natAbs

def AgentStatus.text : AgentStatus → GoString
  | unknown => ascii "Unknown"
  | healthy => ascii "Healthy"
  | degraded => ascii "Degraded"
  | offline => ascii "Offline"
  | other n => ascii "AgentStatus(" ++ formatInt n.toInt ++ ascii ")"

structure StepLimits where
  maxLLMCalls : Int64
  maxTokens : Int64
  timeoutSeconds : Int64

structure ExecuteRequest where
  taskId : GoString
  workflowId : GoString
  agentId : GoString
  payload : GoString
  context : List (GoString × GoString)
  limits : StepLimits
  cacheable : Bool

structure ExecuteResult where
  taskId : GoString
  output : GoString
  metadata : List (GoString × GoString)
  retryCount : ℕ
  cacheHit : Bool
deriving DecidableEq

structure GRPCExecutor where
  timeout : Int64
  maxRetries : Int64
  deadlineMode : DeadlineMode
  caches : Bool

def withMaxRetries (n : Int64) (e : GRPCExecutor) : GRPCExecutor :=
  { e with maxRetries := if n < 0 then 0 else n }

structure TaskConfig where
  maxLlmCalls : ℤ
  maxTokens : ℤ
  timeoutSeconds : ℤ

structure TaskRequest where
  taskId : GoString
  workflowId : GoString
  agentId : GoString
  payload : GoString
  context : List (GoString × GoString)
  config : TaskConfig

/-- What a dispatch gives back: a result, or an error, perhaps with what an agent reported, and the
tokens that the parser reads from the error. -/
inductive Outcome where
  | completed (result : ExecuteResult)
  | failed (partial? : Option ExecuteResult) (err : GoError) (tokens : Int64)

inductive Lookup where
  | notFound
  | failed (err : GoError)
  | agent (status : AgentStatus) (address : GoString)

/-- What a run of `ExecuteTask` meets: the answers of the cache and of the registry, a new task id,
the outcome of each attempt, the nanoseconds from the start to each reading of the clock, what
`rand.Float64` returns, and the value of a conversion that does not fit. -/
structure World where
  cached : Option (GoString × List (GoString × GoString))
  lookup : Lookup
  newId : GoString
  outcome : ℕ → Outcome
  elapsed : ℕ → ℕ
  draw : ℕ → ℚ
  misfit : ℚ → ℤ

/-! ### Durations -/

def millisecond : ℤ := 1000000
def second : ℤ := 1000000000
def maxDuration : ℤ := 2 ^ 63 - 1
def defaultTransportMargin : ℤ := 5
def minRetryBudgetFraction : ℚ := 1 / 4

/-- `int64(f)`: toward zero, and some value of the type where it does not fit. -/
def toInt64 (misfit : ℚ → ℤ) (q : ℚ) : ℤ :=
  if -2 ^ 63 ≤ truncate q ∧ truncate q < 2 ^ 63 then truncate q else int64 (misfit q)

/-- `time.Since`, which is at most the longest duration. -/
def since (elapsed : ℕ) : ℤ := min elapsed maxDuration

def stepDeadline (e : GRPCExecutor) (limits : StepLimits) : ℤ :=
  if e.deadlineMode = .derived ∧ 0 < limits.timeoutSeconds then
    int64 (limits.timeoutSeconds.toInt * second)
  else e.timeout.toInt

def dispatchTimeout (e : GRPCExecutor) (limits : StepLimits) : ℤ :=
  if e.deadlineMode = .derived ∧ 0 < limits.timeoutSeconds then
    int64 (stepDeadline e limits + defaultTransportMargin * second)
  else e.timeout.toInt

/-- The least part of a budget that lets a retry begin. -/
def minimum (misfit : ℚ → ℤ) (budget : ℤ) : ℤ :=
  toInt64 misfit (rounded (rounded budget * minRetryBudgetFraction))

def base (attempt : ℕ) : ℤ := int64 (100 * millisecond * int64 (2 ^ attempt))

def jitter (draw : ℚ) : ℚ := rounded (3 / 4 + rounded (draw * (1 / 2)))

def delay (misfit : ℚ → ℤ) (draw : ℚ) (attempt : ℕ) : ℤ :=
  toInt64 misfit (rounded (rounded (base attempt) * jitter draw))

/-! ### The loop -/

structure LoopState where
  dispatchTimeout : ℤ
  cumulativeTokens : ℤ
  lastErr : Option GoError
  lastResult : Option ExecuteResult

/-- One dispatch: its timeout, how long after the start it begins, and what it gives back. -/
structure Dispatch where
  timeout : ℤ
  elapsed : ℕ
  outcome : Outcome

inductive Answer where
  | result (result : ExecuteResult)
  | error (partial? : Option ExecuteResult) (err : GoError)

structure Run where
  dispatches : List Dispatch
  pauses : List ℤ
  answer : Answer

section
variable (e : GRPCExecutor) (req : ExecuteRequest) (w : World)

/-- Whether an attempt has the time for a retry, and its timeout. -/
def timeBudget (attempt : ℕ) (timeout : ℤ) : Option ℤ :=
  if e.deadlineMode = .derived ∧ 0 < attempt ∧ 0 < req.limits.timeoutSeconds then
    let remaining := int64 (stepDeadline e req.limits - since (w.elapsed attempt))
    if remaining < minimum w.misfit (stepDeadline e req.limits) then none
    else some (int64 (remaining + defaultTransportMargin * second))
  else some timeout

def tokenBudget (attempt : ℕ) (cumulativeTokens : ℤ) : Bool :=
  !(e.deadlineMode = .derived && 0 < attempt && 0 < req.limits.maxTokens &&
    int64 (req.limits.maxTokens.toInt - cumulativeTokens) <
      minimum w.misfit req.limits.maxTokens.toInt)

def permanent (err : GoError) : GoError :=
  .wrap (ascii "permanent failure dispatching to agent " ++ req.agentId ++ ascii ": ") err []

/-- Without an error nothing is wrapped. -/
def exhausted (s : LoopState) : Answer :=
  let before := ascii "retries exhausted (" ++ formatInt (int64 (e.maxRetries.toInt + 1)) ++
    ascii " attempts) for agent " ++ req.agentId ++ ascii ": "
  .error s.lastResult (match s.lastErr with
    | some err => .wrap before err []
    | none => .plain (before ++ ascii "%!w(<nil>)"))

/-- The state after an attempt that failed. -/
def LoopState.failed (s : LoopState) (timeout : ℤ) (result : Option ExecuteResult) (err : GoError)
    (tokens : Int64) : LoopState where
  dispatchTimeout := timeout
  cumulativeTokens :=
    if e.deadlineMode = .derived then int64 (s.cumulativeTokens + tokens.toInt)
    else s.cumulativeTokens
  lastErr := some err
  lastResult := result

def loop : ℕ → ℕ → LoopState → Run
  | 0, _, s => ⟨[], [], exhausted e req s⟩
  | turns + 1, attempt, s =>
    match timeBudget e req w attempt s.dispatchTimeout with
    | none => ⟨[], [], exhausted e req s⟩
    | some timeout =>
      if tokenBudget e req w attempt s.cumulativeTokens then
        let dispatch : Dispatch := ⟨timeout, w.elapsed attempt, w.outcome attempt⟩
        match w.outcome attempt with
        | .completed result => ⟨[dispatch], [], .result { result with retryCount := attempt }⟩
        | .failed partial? err tokens =>
          let s' := s.failed e timeout partial? err tokens
          if !isTransient err then ⟨[dispatch], [], .error partial? (permanent req err)⟩
          else if attempt = e.maxRetries.toInt then ⟨[dispatch], [], exhausted e req s'⟩
          else
            let run := loop turns (attempt + 1) s'
            { run with
              dispatches := dispatch :: run.dispatches
              pauses := delay w.misfit (w.draw attempt) attempt :: run.pauses }
      else ⟨[], [], exhausted e req s⟩

def start (e : GRPCExecutor) (limits : StepLimits) : LoopState :=
  ⟨dispatchTimeout e limits, 0, none, none⟩

/-- A limit on the wire, which is at most the largest `int32`. -/
def clamp (n : Int64) : ℤ := (min n.toInt (2 ^ 31 - 1)).bmod (2 ^ 32)

/-- What each attempt of a task sends. -/
def taskRequest : TaskRequest where
  taskId := if req.taskId = [] then w.newId else req.taskId
  workflowId := req.workflowId
  agentId := req.agentId
  payload := req.payload
  context := req.context
  config := ⟨clamp req.limits.maxLLMCalls, clamp req.limits.maxTokens,
    clamp req.limits.timeoutSeconds⟩

def refused (err : GoError) : Run := ⟨[], [], .error none err⟩

/-- The registry has the agent, and it is healthy. -/
def dispatchHealthy : Run :=
  match w.lookup with
  | .notFound => refused (.wrap [] .agentNotFound (ascii ": " ++ req.agentId))
  | .failed err => refused (.wrap (ascii "registry lookup: ") err [])
  | .agent status _ =>
    if status = .healthy then
      loop e req w (int64 (e.maxRetries.toInt + 1)).toNat 0 (start e req.limits)
    else refused (.wrap [] .agentNotReady (ascii ": agent " ++ req.agentId ++
      ascii " status is " ++ status.text))

def executeTask : Run :=
  if req.cacheable && e.caches then
    match w.cached with
    | some (output, metadata) =>
      ⟨[], [], .result { taskId := req.taskId, output, metadata, retryCount := 0, cacheHit := true }⟩
    | none => dispatchHealthy e req w
  else dispatchHealthy e req w

end

/-! ### What a turn of the loop does -/

section
variable (e : GRPCExecutor) (req : ExecuteRequest) (w : World)

/-- The outcomes of one turn, given what the turns after it do. -/
inductive Turn (attempt : ℕ) (s : LoopState)
    (rest : LoopState → Run) : Run → Prop
  | stopped (h : timeBudget e req w attempt s.dispatchTimeout = none ∨
      tokenBudget e req w attempt s.cumulativeTokens = false) :
      Turn attempt s rest ⟨[], [], exhausted e req s⟩
  | completed (timeout : ℤ) (result : ExecuteResult)
      (htime : timeBudget e req w attempt s.dispatchTimeout = some timeout)
      (houtcome : w.outcome attempt = .completed result) :
      Turn attempt s rest
        ⟨[⟨timeout, w.elapsed attempt, .completed result⟩], [],
          .result { result with retryCount := attempt }⟩
  | permanent (timeout : ℤ) (partial? : Option ExecuteResult) (err : GoError) (tokens : Int64)
      (htime : timeBudget e req w attempt s.dispatchTimeout = some timeout)
      (houtcome : w.outcome attempt = .failed partial? err tokens)
      (hpermanent : isTransient err = false) :
      Turn attempt s rest
        ⟨[⟨timeout, w.elapsed attempt, .failed partial? err tokens⟩], [],
          .error partial? (permanent req err)⟩
  | last (timeout : ℤ) (partial? : Option ExecuteResult) (err : GoError) (tokens : Int64)
      (htime : timeBudget e req w attempt s.dispatchTimeout = some timeout)
      (houtcome : w.outcome attempt = .failed partial? err tokens)
      (htransient : isTransient err = true) (hlast : attempt = e.maxRetries.toInt) :
      Turn attempt s rest
        ⟨[⟨timeout, w.elapsed attempt, .failed partial? err tokens⟩], [],
          exhausted e req (s.failed e timeout partial? err tokens)⟩
  | retried (timeout : ℤ) (partial? : Option ExecuteResult) (err : GoError) (tokens : Int64)
      (htime : timeBudget e req w attempt s.dispatchTimeout = some timeout)
      (houtcome : w.outcome attempt = .failed partial? err tokens)
      (htransient : isTransient err = true) (hmore : attempt ≠ e.maxRetries.toInt) :
      Turn attempt s rest
        { rest (s.failed e timeout partial? err tokens) with
          dispatches := ⟨timeout, w.elapsed attempt, .failed partial? err tokens⟩ ::
            (rest (s.failed e timeout partial? err tokens)).dispatches
          pauses := delay w.misfit (w.draw attempt) attempt ::
            (rest (s.failed e timeout partial? err tokens)).pauses }

theorem loop_turn (turns attempt : ℕ) (s : LoopState) :
    Turn e req w attempt s (loop e req w turns (attempt + 1))
      (loop e req w (turns + 1) attempt s) := by
  rw [loop]
  cases htime : timeBudget e req w attempt s.dispatchTimeout with
  | none => exact .stopped (.inl htime)
  | some timeout =>
    dsimp only
    cases htokens : tokenBudget e req w attempt s.cumulativeTokens with
    | false => exact .stopped (.inr htokens)
    | true =>
      rw [if_pos rfl]
      cases houtcome : w.outcome attempt with
      | completed result =>
        exact .completed timeout result htime houtcome
      | failed partial? err tokens =>
        dsimp only
        cases htransient : isTransient err with
        | false => exact .permanent timeout partial? err tokens htime houtcome htransient
        | true =>
          rw [Bool.not_true, if_neg Bool.false_ne_true]
          split_ifs with hlast
          · exact .last timeout partial? err tokens htime houtcome htransient hlast
          · exact .retried timeout partial? err tokens htime houtcome htransient hlast

theorem length_loop (turns attempt : ℕ) (s : LoopState) :
    (loop e req w turns attempt s).dispatches.length ≤ turns := by
  induction turns generalizing attempt s with
  | zero => exact le_rfl
  | succ turns ih =>
    have hturn := loop_turn e req w turns attempt s
    generalize loop e req w (turns + 1) attempt s = run at hturn ⊢
    cases hturn with
    | stopped => exact Nat.zero_le _
    | completed => exact Nat.succ_le_succ (Nat.zero_le _)
    | permanent => exact Nat.succ_le_succ (Nat.zero_le _)
    | last => exact Nat.succ_le_succ (Nat.zero_le _)
    | retried => exact Nat.succ_le_succ (ih _ _)

/-- The first attempt is made in any case. -/
theorem loop_dispatches (turns : ℕ) (s : LoopState) :
    ∃ rest, (loop e req w (turns + 1) 0 s).dispatches =
      ⟨s.dispatchTimeout, w.elapsed 0, w.outcome 0⟩ :: rest := by
  have htime : timeBudget e req w 0 s.dispatchTimeout = some s.dispatchTimeout := by
    simp [timeBudget]
  have htokens : tokenBudget e req w 0 s.cumulativeTokens = true := by simp [tokenBudget]
  have hturn := loop_turn e req w turns 0 s
  generalize loop e req w (turns + 1) 0 s = run at hturn ⊢
  cases hturn with
  | stopped h => simp [htime, htokens] at h
  | completed timeout _ h houtcome =>
    exact ⟨[], by rw [houtcome, Option.some.inj (h.symm.trans htime)]⟩
  | permanent timeout _ _ _ h houtcome =>
    exact ⟨[], by rw [houtcome, Option.some.inj (h.symm.trans htime)]⟩
  | last timeout _ _ _ h houtcome =>
    exact ⟨[], by rw [houtcome, Option.some.inj (h.symm.trans htime)]⟩
  | retried timeout _ _ _ h houtcome =>
    exact ⟨_, by rw [houtcome, Option.some.inj (h.symm.trans htime)]⟩

def Dispatch.Transient (d : Dispatch) : Prop :=
  ∃ partial? err tokens, d.outcome = .failed partial? err tokens ∧ isTransient err = true

/-- What is dispatched again failed in a way that may pass. -/
theorem transient_loop (turns attempt : ℕ) (s : LoopState) :
    ∀ d ∈ (loop e req w turns attempt s).dispatches.dropLast, d.Transient := by
  induction turns generalizing attempt s with
  | zero => exact fun d hd => (List.not_mem_nil hd).elim
  | succ turns ih =>
    have hturn := loop_turn e req w turns attempt s
    generalize loop e req w (turns + 1) attempt s = run at hturn ⊢
    cases hturn with
    | stopped => exact fun d hd => (List.not_mem_nil hd).elim
    | completed => exact fun d hd => (List.not_mem_nil hd).elim
    | permanent => exact fun d hd => (List.not_mem_nil hd).elim
    | last => exact fun d hd => (List.not_mem_nil hd).elim
    | retried timeout partial? err tokens _ houtcome htransient =>
      intro d hd
      generalize hrest : (loop e req w turns (attempt + 1)
        (s.failed e timeout partial? err tokens)).dispatches = rest at hd
      cases rest with
      | nil => exact (List.not_mem_nil hd).elim
      | cons d' rest =>
        rw [List.dropLast_cons_of_ne_nil (List.cons_ne_nil _ _), List.mem_cons] at hd
        cases hd with
        | inl heq =>
          rw [heq]
          exact ⟨partial?, err, tokens, rfl, htransient⟩
        | inr hmem => exact ih (attempt + 1) _ d (hrest ▸ hmem)

/-- How the last dispatch is answered. -/
def Dispatch.Answered (d : Dispatch) : Answer → Prop
  | .result result => ∃ given, d.outcome = .completed given ∧
      ∃ k, result = { given with retryCount := k }
  | .error _ err => ∃ partial? cause tokens, d.outcome = .failed partial? cause tokens ∧
      err.Wraps cause

/-- A run is answered as its last dispatch is, and without one by what came before it. -/
theorem answer_loop (turns attempt : ℕ) (s : LoopState) :
    match (loop e req w turns attempt s).dispatches.getLast? with
    | none => (loop e req w turns attempt s).answer = exhausted e req s
    | some d => d.Answered (loop e req w turns attempt s).answer := by
  induction turns generalizing attempt s with
  | zero => rfl
  | succ turns ih =>
    have hturn := loop_turn e req w turns attempt s
    generalize loop e req w (turns + 1) attempt s = run at hturn ⊢
    cases hturn with
    | stopped => rfl
    | completed _ result => exact ⟨result, rfl, attempt, rfl⟩
    | permanent _ partial? err tokens =>
      exact ⟨partial?, err, tokens, rfl, .wrap _ _ (.refl err)⟩
    | last _ partial? err tokens => exact ⟨partial?, err, tokens, rfl, .wrap _ _ (.refl err)⟩
    | retried timeout partial? err tokens =>
      have hrest := ih (attempt + 1) (s.failed e timeout partial? err tokens)
      rw [List.getLast?_cons]
      generalize loop e req w turns (attempt + 1) (s.failed e timeout partial? err tokens) = run
        at hrest ⊢
      cases hlast : run.dispatches.getLast? with
      | none =>
        rw [hlast] at hrest
        dsimp only [Option.getD_none]
        rw [hrest]
        exact ⟨partial?, err, tokens, rfl, .wrap _ _ (.refl err)⟩
      | some d =>
        rw [hlast] at hrest
        exact hrest

end
end Persatrix.Executor
