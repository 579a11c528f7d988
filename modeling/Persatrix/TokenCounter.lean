import Persatrix.GoValues
import Mathlib.Algebra.Order.Ring.Rat
import Mathlib.Tactic.Linarith
import Mathlib.Tactic.Positivity
import Mathlib.Tactic.Ring

/-!
# Pricing table and budget thresholds

`optimization.yaml` after decoding, the checks `LoadCostConfig` makes on it, and
the price of a call. Prices and dollar amounts are exact rationals. Reading the
file and decoding the YAML are supplied by the caller; alert percentages are
left out because no modelled function reads them.
-/
namespace Persatrix.Cost

/-- Prices in USD per million tokens. -/
structure ModelPricing where
  inputPer1MTokens : ℚ
  outputPer1MTokens : ℚ
  deriving DecidableEq

structure GlobalBudget where
  maxDailyUSD : ℚ := 0
  onExceed : String := ""
  deriving DecidableEq

structure PerWorkflowBudget where
  defaultMaxUSD : ℚ := 0
  deriving DecidableEq

structure PerAgentBudget where
  defaultMaxUSD : ℚ := 0
  deriving DecidableEq

structure BudgetThresholds where
  global : GlobalBudget := {}
  perWorkflow : PerWorkflowBudget := {}
  perAgent : PerAgentBudget := {}
  deriving DecidableEq

/-- The `cost:` section as decoded; an absent `models` key decodes to `none`. -/
structure RawCostSection where
  models : Option (GoMap String ModelPricing)
  budgets : BudgetThresholds

structure CostConfig where
  pricing : GoMap String ModelPricing
  budgets : BudgetThresholds

def validOnExceedValues : List String := ["fail", "pause_and_alert", ""]

/-- `%f`: six decimals, rounded half to even. -/
def formatF (q : ℚ) : String :=
  let scaled := |q| * 1000000
  let down := scaled.floor.toNat
  let rest := scaled - down
  let n := if 1 / 2 < rest ∨ rest = 1 / 2 ∧ down % 2 = 1 then down + 1 else down
  let digits := toString (n % 1000000)
  (if q < 0 then "-" else "") ++ toString (n / 1000000) ++ "." ++
    String.ofList (List.replicate (6 - digits.length) '0') ++ digits

/-- `readFile` and `unmarshal` are the outcomes of `os.ReadFile` and `yaml.Unmarshal`. -/
def loadCostConfig (readFile : Except String String)
    (unmarshal : String → Except String RawCostSection) : Except String CostConfig :=
  match readFile with
  | .error e => .error ("read optimization config: " ++ e)
  | .ok data =>
    match unmarshal data with
    | .error e => .error ("parse optimization config: " ++ e)
    | .ok raw =>
      let cfg : CostConfig := ⟨raw.models.getD ∅, raw.budgets⟩
      if cfg.budgets.global.maxDailyUSD < 0 then
        .error ("validate cost config: global max_daily_usd must be >= 0, got " ++
          formatF cfg.budgets.global.maxDailyUSD)
      else if cfg.budgets.perWorkflow.defaultMaxUSD < 0 then
        .error ("validate cost config: per_workflow default_max_usd must be >= 0, got " ++
          formatF cfg.budgets.perWorkflow.defaultMaxUSD)
      else if cfg.budgets.perAgent.defaultMaxUSD < 0 then
        .error ("validate cost config: per_agent default_max_usd must be >= 0, got " ++
          formatF cfg.budgets.perAgent.defaultMaxUSD)
      else if cfg.budgets.global.onExceed ∉ validOnExceedValues then
        .error ("validate cost config: on_exceed must be \"fail\" or \"pause_and_alert\", got " ++
          cfg.budgets.global.onExceed.quote)
      else .ok cfg

/-- A model missing from the table costs nothing. -/
def CostConfig.estimateCost (c : CostConfig) (model : String)
    (inputTokens outputTokens : ℤ) : ℚ :=
  match c.pricing.lookup model with
  | none => 0
  | some pricing =>
    inputTokens / 1000000 * pricing.inputPer1MTokens +
      outputTokens / 1000000 * pricing.outputPer1MTokens

variable {c : CostConfig} {model : String}

theorem estimateCost_unpriced (h : c.pricing.lookup model = none) (i o : ℤ) :
    c.estimateCost model i o = 0 := by
  simp [CostConfig.estimateCost, h]

theorem estimateCost_priced {p : ModelPricing} (h : c.pricing.lookup model = some p) (i o : ℤ) :
    c.estimateCost model i o =
      i / 1000000 * p.inputPer1MTokens + o / 1000000 * p.outputPer1MTokens := by
  simp [CostConfig.estimateCost, h]

/-- Pricing every token at the output rate covers a split of the same tokens exactly
when the input tokens are not dearer than output tokens. -/
theorem estimateCost_le_output_iff {p : ModelPricing} (h : c.pricing.lookup model = some p)
    {i : ℤ} (hi : 0 ≤ i) (o : ℤ) :
    c.estimateCost model i o ≤ c.estimateCost model 0 (i + o) ↔
      i = 0 ∨ p.inputPer1MTokens ≤ p.outputPer1MTokens := by
  rw [estimateCost_priced h, estimateCost_priced h]
  rcases hi.eq_or_lt with rfl | hpos
  · simp
  · have hq : (0 : ℚ) < i / 1000000 := by positivity
    have hsplit : ((i + o : ℤ) : ℚ) / 1000000 = i / 1000000 + o / 1000000 := by
      push_cast
      ring
    rw [hsplit]
    constructor
    · intro hle
      right
      by_contra hlt
      have := mul_lt_mul_of_pos_left (not_le.mp hlt) hq
      push_cast at hle
      linarith
    · intro hcases
      rcases hcases with h0 | hle
      · omega
      · have := mul_le_mul_of_nonneg_left hle hq.le
        push_cast
        linarith

end Persatrix.Cost

/-!
## Token counter and budget enforcer

Running totals for every workflow, every agent and the day as a whole, the
provisional charges held for open leases, and the pre-dispatch budget check.
Token totals are 64-bit integers and wrap; dollar totals are exact rationals.
Every method holds the counter's mutex, so each one is a single step.
-/
namespace Persatrix.Cost

structure UsageRecord where
  workflowID : String
  agentID : String
  model : String
  inputTokens : ℤ
  outputTokens : ℤ
  deriving DecidableEq

structure UsageTotals where
  inputTokens : ℤ := 0
  outputTokens : ℤ := 0
  estimatedUSD : ℚ := 0
  deriving DecidableEq

def UsageTotals.add (t : UsageTotals) (dInput dOutput : ℤ) (dUSD : ℚ) : UsageTotals :=
  ⟨int64 (t.inputTokens + dInput), int64 (t.outputTokens + dOutput), t.estimatedUSD + dUSD⟩

structure ProvisionalCharge where
  workflowID : String
  agentID : String
  model : String
  inputTokens : ℤ
  outputTokens : ℤ
  estimatedUSD : ℚ
  deriving DecidableEq

structure TokenCounter where
  perWorkflow : GoMap String UsageTotals
  perAgent : GoMap String UsageTotals
  global : UsageTotals
  provisional : GoMap String ProvisionalCharge
  config : CostConfig

def newTokenCounter (config : CostConfig) : TokenCounter := ⟨∅, ∅, {}, ∅, config⟩

/-- One of the totals the counter keeps. -/
inductive Scope where
  | workflow (id : String)
  | agent (id : String)
  | global
  deriving DecidableEq

/-- Whether usage of this workflow and agent is booked under the scope. -/
def Scope.covers : Scope → String → String → Bool
  | .workflow id, workflowID, _ => id = workflowID
  | .agent id, _, agentID => id = agentID
  | .global, _, _ => true

structure UsageSnapshot where
  globalUSD : ℚ
  workflowUSD : ℚ
  agentUSD : ℚ

namespace TokenCounter

def touch (m : GoMap String UsageTotals) (id : String) (dInput dOutput : ℤ) (dUSD : ℚ) :
    GoMap String UsageTotals :=
  AList.insert id (((m.lookup id).getD {}).add dInput dOutput dUSD) m

def addToScopesLocked (tc : TokenCounter) (workflowID agentID : String)
    (dInput dOutput : ℤ) (dUSD : ℚ) : TokenCounter :=
  { tc with
    perWorkflow := touch tc.perWorkflow workflowID dInput dOutput dUSD
    perAgent := touch tc.perAgent agentID dInput dOutput dUSD
    global := tc.global.add dInput dOutput dUSD }

def recordUsage (tc : TokenCounter) (record : UsageRecord) : TokenCounter :=
  tc.addToScopesLocked record.workflowID record.agentID record.inputTokens record.outputTokens
    (tc.config.estimateCost record.model record.inputTokens record.outputTokens)

def recordProvisional (tc : TokenCounter) (leaseID : String) (record : UsageRecord) :
    TokenCounter :=
  let cost := tc.config.estimateCost record.model record.inputTokens record.outputTokens
  let added := tc.addToScopesLocked record.workflowID record.agentID
    record.inputTokens record.outputTokens cost
  { added with
    provisional := AList.insert leaseID
      ⟨record.workflowID, record.agentID, record.model, record.inputTokens,
        record.outputTokens, cost⟩ added.provisional }

/-- The counter after the charge `pc` held under `leaseID` is replaced by actual usage. -/
def replaceCharge (tc : TokenCounter) (leaseID : String) (pc : ProvisionalCharge)
    (actualInputTokens actualOutputTokens : ℤ) : TokenCounter :=
  let actualUSD := tc.config.estimateCost pc.model actualInputTokens actualOutputTokens
  let adjusted := tc.addToScopesLocked pc.workflowID pc.agentID
    (int64 (actualInputTokens - pc.inputTokens)) (int64 (actualOutputTokens - pc.outputTokens))
    (actualUSD - pc.estimatedUSD)
  { adjusted with provisional := adjusted.provisional.erase leaseID }

def reconcile (tc : TokenCounter) (leaseID : String) (actualInputTokens actualOutputTokens : ℤ) :
    Except String TokenCounter :=
  match tc.provisional.lookup leaseID with
  | none =>
    .error ("reconcile: no outstanding provisional charge for lease " ++ leaseID.quote)
  | some pc => .ok (tc.replaceCharge leaseID pc actualInputTokens actualOutputTokens)

def resetDaily (tc : TokenCounter) : TokenCounter :=
  { tc with perWorkflow := ∅, perAgent := ∅, global := {}, provisional := ∅ }

def workflowUsage (tc : TokenCounter) (workflowID : String) : UsageTotals :=
  (tc.perWorkflow.lookup workflowID).getD {}

def agentUsage (tc : TokenCounter) (agentID : String) : UsageTotals :=
  (tc.perAgent.lookup agentID).getD {}

def globalUsage (tc : TokenCounter) : UsageTotals := tc.global

def totals (tc : TokenCounter) : Scope → UsageTotals
  | .workflow id => tc.workflowUsage id
  | .agent id => tc.agentUsage id
  | .global => tc.globalUsage

/-- Three dollar totals read under one lock acquisition. -/
def usageSnapshot (tc : TokenCounter) (workflowID agentID : String) : UsageSnapshot :=
  ⟨tc.global.estimatedUSD, (tc.workflowUsage workflowID).estimatedUSD,
    (tc.agentUsage agentID).estimatedUSD⟩

end TokenCounter

structure BudgetError where
  scope : String
  spent : ℚ
  limit : ℚ
  estimated : ℚ
  deriving DecidableEq

def BudgetError.error (e : BudgetError) : String :=
  e.scope ++ " budget exceeded: spent=" ++ formatF e.spent ++ ", limit=" ++ formatF e.limit ++
    ", estimated=" ++ formatF e.estimated

/-- A rejection always carries its error. -/
inductive BudgetCheckResult where
  | allow
  | reject (error : BudgetError)
  deriving DecidableEq

/-- The enforcer reads its counter's totals and the same configuration. -/
def checkBudget (tc : TokenCounter) (workflowID agentID model : String)
    (estimatedMaxTokens : ℤ) : BudgetCheckResult :=
  let estimatedCost := tc.config.estimateCost model 0 estimatedMaxTokens
  let spent := tc.usageSnapshot workflowID agentID
  let globalLimit := tc.config.budgets.global.maxDailyUSD
  let wfLimit := tc.config.budgets.perWorkflow.defaultMaxUSD
  let agLimit := tc.config.budgets.perAgent.defaultMaxUSD
  if 0 < globalLimit ∧ globalLimit < spent.globalUSD + estimatedCost then
    .reject ⟨"global", spent.globalUSD, globalLimit, estimatedCost⟩
  else if 0 < wfLimit ∧ wfLimit < spent.workflowUSD + estimatedCost then
    .reject ⟨"per_workflow", spent.workflowUSD, wfLimit, estimatedCost⟩
  else if 0 < agLimit ∧ agLimit < spent.agentUSD + estimatedCost then
    .reject ⟨"per_agent", spent.agentUSD, agLimit, estimatedCost⟩
  else .allow

/-- The dollar limit configured for a scope; zero means unlimited. -/
def CostConfig.limit (c : CostConfig) : Scope → ℚ
  | .workflow _ => c.budgets.perWorkflow.defaultMaxUSD
  | .agent _ => c.budgets.perAgent.defaultMaxUSD
  | .global => c.budgets.global.maxDailyUSD

namespace TokenCounter
variable (tc : TokenCounter)

theorem getD_touch (m : GoMap String UsageTotals) (id other : String) (dInput dOutput : ℤ)
    (dUSD : ℚ) : ((touch m id dInput dOutput dUSD).lookup other).getD {} =
      if other = id then ((m.lookup other).getD {}).add dInput dOutput dUSD
      else (m.lookup other).getD {} := by
  rw [touch, GoMap.lookup_insert]
  split_ifs with h
  · rw [h, Option.getD_some]
  · rfl

/-- One booking changes exactly the scopes that cover its workflow and agent. -/
theorem totals_addToScopesLocked (workflowID agentID : String) (dInput dOutput : ℤ) (dUSD : ℚ)
    (scope : Scope) :
    (tc.addToScopesLocked workflowID agentID dInput dOutput dUSD).totals scope =
      if scope.covers workflowID agentID then (tc.totals scope).add dInput dOutput dUSD
      else tc.totals scope := by
  cases scope with
  | workflow id =>
    simp only [totals, workflowUsage, addToScopesLocked, getD_touch, Scope.covers,
      decide_eq_true_eq]
  | agent id =>
    simp only [totals, agentUsage, addToScopesLocked, getD_touch, Scope.covers,
      decide_eq_true_eq]
  | global => rfl

theorem totals_recordProvisional (leaseID : String) (record : UsageRecord) (scope : Scope) :
    (tc.recordProvisional leaseID record).totals scope = (tc.recordUsage record).totals scope := by
  cases scope <;> rfl

theorem provisional_recordProvisional (leaseID other : String) (record : UsageRecord) :
    (tc.recordProvisional leaseID record).provisional.lookup other =
      if other = leaseID then
        some ⟨record.workflowID, record.agentID, record.model, record.inputTokens,
          record.outputTokens,
          tc.config.estimateCost record.model record.inputTokens record.outputTokens⟩
      else tc.provisional.lookup other :=
  GoMap.lookup_insert _ _ _ _

@[simp] theorem config_recordUsage (record : UsageRecord) :
    (tc.recordUsage record).config = tc.config := rfl

@[simp] theorem provisional_recordUsage (record : UsageRecord) :
    (tc.recordUsage record).provisional = tc.provisional := rfl

@[simp] theorem config_recordProvisional (leaseID : String) (record : UsageRecord) :
    (tc.recordProvisional leaseID record).config = tc.config := rfl

@[simp] theorem config_resetDaily : tc.resetDaily.config = tc.config := rfl

@[simp] theorem provisional_resetDaily : tc.resetDaily.provisional = ∅ := rfl

@[simp] theorem totals_resetDaily (scope : Scope) : tc.resetDaily.totals scope = {} := by
  cases scope <;> rfl

@[simp] theorem totals_newTokenCounter (config : CostConfig) (scope : Scope) :
    (newTokenCounter config).totals scope = {} := by
  cases scope <;> rfl

variable {tc}

theorem reconcile_miss {leaseID : String} (h : tc.provisional.lookup leaseID = none)
    (i o : ℤ) : tc.reconcile leaseID i o =
      .error ("reconcile: no outstanding provisional charge for lease " ++ leaseID.quote) := by
  simp only [reconcile, h]

theorem reconcile_hit {leaseID : String} {pc : ProvisionalCharge}
    (h : tc.provisional.lookup leaseID = some pc) (i o : ℤ) :
    tc.reconcile leaseID i o = .ok (tc.replaceCharge leaseID pc i o) := by
  simp only [reconcile, h]

@[simp] theorem config_replaceCharge (leaseID : String) (pc : ProvisionalCharge) (i o : ℤ) :
    (tc.replaceCharge leaseID pc i o).config = tc.config := rfl

theorem provisional_replaceCharge (leaseID other : String) (pc : ProvisionalCharge) (i o : ℤ) :
    (tc.replaceCharge leaseID pc i o).provisional.lookup other =
      if other = leaseID then none else tc.provisional.lookup other :=
  GoMap.lookup_erase _ _ _

theorem totals_replaceCharge (leaseID : String) (pc : ProvisionalCharge) (i o : ℤ)
    (scope : Scope) : (tc.replaceCharge leaseID pc i o).totals scope =
      if scope.covers pc.workflowID pc.agentID then
        (tc.totals scope).add (int64 (i - pc.inputTokens)) (int64 (o - pc.outputTokens))
          (tc.config.estimateCost pc.model i o - pc.estimatedUSD)
      else tc.totals scope := by
  rw [← totals_addToScopesLocked]
  cases scope <;> rfl

/-- A check allows exactly when every limited scope has room for its estimate. -/
theorem checkBudget_eq_allow_iff {workflowID agentID model : String} {tokens : ℤ} :
    checkBudget tc workflowID agentID model tokens = .allow ↔
      ∀ scope : Scope, scope.covers workflowID agentID = true → 0 < tc.config.limit scope →
        (tc.totals scope).estimatedUSD + tc.config.estimateCost model 0 tokens ≤
          tc.config.limit scope := by
  unfold checkBudget
  dsimp only
  constructor
  · intro h scope hcover hlimit
    split_ifs at h with hglobal hworkflow hagent
    cases scope with
    | workflow id =>
      obtain rfl : id = workflowID := by simpa [Scope.covers] using hcover
      exact not_lt.mp fun hlt => hworkflow ⟨hlimit, hlt⟩
    | agent id =>
      obtain rfl : id = agentID := by simpa [Scope.covers] using hcover
      exact not_lt.mp fun hlt => hagent ⟨hlimit, hlt⟩
    | global => exact not_lt.mp fun hlt => hglobal ⟨hlimit, hlt⟩
  · intro h
    rw [if_neg, if_neg, if_neg]
    · intro ⟨hlimit, hlt⟩
      exact absurd (h (.agent agentID) (by simp [Scope.covers]) hlimit) (not_le.mpr hlt)
    · intro ⟨hlimit, hlt⟩
      exact absurd (h (.workflow workflowID) (by simp [Scope.covers]) hlimit) (not_le.mpr hlt)
    · intro ⟨hlimit, hlt⟩
      exact absurd (h .global rfl hlimit) (not_le.mpr hlt)

end TokenCounter
end Persatrix.Cost
