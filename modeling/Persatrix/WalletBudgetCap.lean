import Persatrix.WalletLedger

/-!
# The budget cap at the moment of a grant

The check before a grant prices every estimated token at the model's output rate;
the provisional charge booked by the grant prices input tokens at the input rate.
The cap is therefore kept, after any history and under any budgets, exactly for
the requests whose input tokens are not dearer than output tokens.
-/
namespace Persatrix.Wallet
open Cost

/-- `LoadCostConfig` returns this configuration for some file. -/
def Loadable (pricing : CostConfig) : Prop :=
  ∃ readFile unmarshal, loadCostConfig readFile unmarshal = .ok pricing

/-- Every limited scope of a request stands at or below its limit. -/
def WithinLimits (w : WalletService) (req : LeaseRequest) : Prop :=
  ∀ scope : Scope, scope.covers req.workflowID req.agentID = true →
    0 < w.counter.config.limit scope →
    (w.counter.totals scope).estimatedUSD ≤ w.counter.config.limit scope

/-- After any run, a grant of this request leaves its scopes within their limits. -/
def CapKept (pricing : CostConfig) (cfg : Config) (req : LeaseRequest) : Prop :=
  ∀ (calls : List Call) (resolver : Option (String → Option ℤ)) (newID : String) (now : ℤ)
    (grant : LeaseGrant),
    ((run pricing cfg calls).wallet.acquireLease resolver newID now req).2 = .ok (.grant grant) →
    WithinLimits ((run pricing cfg calls).wallet.acquireLease resolver newID now req).1 req

/-- The check's estimate covers the charge booked for this request. -/
def EstimateCovers (models : GoMap String ModelPricing) (req : LeaseRequest) : Prop :=
  ∀ p, models.lookup req.model = some p →
    req.estimatedInputTokens = 0 ∨ p.inputPer1MTokens ≤ p.outputPer1MTokens

theorem estimateCost_le_of_covers {pricing : CostConfig} {req : LeaseRequest}
    (h : EstimateCovers pricing.pricing req) (hi : 0 ≤ req.estimatedInputTokens) :
    pricing.estimateCost req.model req.estimatedInputTokens req.estimatedMaxOutputTokens ≤
      pricing.estimateCost req.model 0
        (req.estimatedInputTokens + req.estimatedMaxOutputTokens) := by
  cases hp : pricing.pricing.lookup req.model with
  | none => rw [estimateCost_unpriced hp, estimateCost_unpriced hp]
  | some p => exact (estimateCost_le_output_iff hp hi _).mpr (h p hp)

/-- One grant from any wallet: what the check left free is enough for the charge. -/
theorem withinLimits_grantLease {w : WalletService} {resolver : Option (String → Option ℤ)}
    {newID : String} {now : ℤ} {req : LeaseRequest} (hadmits : w.Admits resolver newID req)
    (h : EstimateCovers w.counter.config.pricing req) :
    WithinLimits (w.grantLease resolver newID now req) req := by
  intro scope hcover hlimit
  have hroom := TokenCounter.checkBudget_eq_allow_iff.mp hadmits.budget scope hcover hlimit
  have hcharge := estimateCost_le_of_covers h hadmits.input.1
  simp only [WalletService.grantLease, TokenCounter.totals_recordProvisional,
    TokenCounter.recordUsage, TokenCounter.totals_addToScopesLocked, hcover, if_true,
    UsageTotals.add, TokenCounter.config_recordProvisional]
  linarith

theorem capKept_of_covers {pricing : CostConfig} {req : LeaseRequest} (cfg : Config)
    (h : EstimateCovers pricing.pricing req) : CapKept pricing cfg req := by
  intro calls resolver newID now grant hgrant
  have hconfig := (conserved_run pricing cfg calls).config
  rcases (run pricing cfg calls).wallet.acquireLease_cases resolver newID now req with
    ⟨-, hno⟩ | ⟨hadmits, heq⟩
  · exact absurd hgrant (hno grant)
  · rw [heq]
    exact withinLimits_grantLease hadmits (by rwa [hconfig])

/-- A budget between the estimate and the charge, spent by the first grant. -/
theorem not_capKept_of_dearer {models : GoMap String ModelPricing} (cfg : Config)
    {req : LeaseRequest} (hi : 0 < req.estimatedInputTokens)
    (himax : req.estimatedInputTokens ≤ maxTokenCount)
    (ho : 0 ≤ req.estimatedMaxOutputTokens ∧ req.estimatedMaxOutputTokens ≤ maxTokenCount)
    {p : ModelPricing} (hp : models.lookup req.model = some p) (hpos : 0 ≤ p.outputPer1MTokens)
    (hdear : p.outputPer1MTokens < p.inputPer1MTokens) :
    ∃ budgets : BudgetThresholds, Loadable ⟨models, budgets⟩ ∧
      ¬ CapKept ⟨models, budgets⟩ cfg req := by
  set base : CostConfig := ⟨models, {}⟩ with hbase
  set estimate := base.estimateCost req.model 0
    (req.estimatedInputTokens + req.estimatedMaxOutputTokens) with hestimate
  set charge := base.estimateCost req.model req.estimatedInputTokens
    req.estimatedMaxOutputTokens with hcharge
  have hlt : estimate < charge := by
    apply not_le.mp
    intro hle
    rcases (estimateCost_le_output_iff hp hi.le _).mp hle with h0 | h0
    · omega
    · exact absurd h0 (not_le.mpr hdear)
  have hnonneg : 0 ≤ estimate := by
    have htokens : (0 : ℚ) ≤
        ((req.estimatedInputTokens + req.estimatedMaxOutputTokens : ℤ) : ℚ) := by
      exact_mod_cast add_nonneg hi.le ho.1
    rw [hestimate, estimateCost_priced hp]
    have := mul_nonneg (div_nonneg htokens (by norm_num : (0 : ℚ) ≤ 1000000)) hpos
    simpa using this
  have hlimit : 0 < (estimate + charge) / 2 := by linarith
  let budgets : BudgetThresholds := { global := { maxDailyUSD := (estimate + charge) / 2 } }
  refine ⟨budgets, ?_, ?_⟩
  · refine ⟨.ok "", fun _ => .ok ⟨some models, budgets⟩, ?_⟩
    have hneg : ¬ (estimate + charge) / 2 < 0 := not_lt.mpr hlimit.le
    simp [loadCostConfig, budgets, validOnExceedValues, hneg]
  · intro hkept
    have hadmits : (run ⟨models, budgets⟩ cfg []).wallet.Admits (some fun _ => none) "" req := by
      refine ⟨⟨hi.le, himax⟩, ho, ?_, ?_, ?_, rfl⟩
      · exact cfg.maxActiveLeases_pos
      · simp [WalletService.interactionCeilingDenialLocked, resolveInteractionBudget]
      · apply TokenCounter.checkBudget_eq_allow_iff.mpr
        intro scope _ hpositive
        change ((newTokenCounter _).totals scope).estimatedUSD + estimate ≤ _
        rw [TokenCounter.totals_newTokenCounter]
        cases scope with
        | workflow id => exact absurd hpositive (lt_irrefl 0)
        | agent id => exact absurd hpositive (lt_irrefl 0)
        | global =>
          change (0 : ℚ) + estimate ≤ (estimate + charge) / 2
          linarith
    have h := hkept [] (some fun _ => none) "" 0 _ (by rw [hadmits.acquireLease])
    rw [hadmits.acquireLease] at h
    have hglobal : (0 : ℚ) + charge ≤ (estimate + charge) / 2 := h .global rfl hlimit
    linarith

/-- The cap holds after every run, under all budgets, exactly for the requests whose
charge the check's estimate covers. -/
theorem capKept_iff_estimateCovers (models : GoMap String ModelPricing) (cfg : Config)
    (req : LeaseRequest)
    (hprices : ∀ model p, models.lookup model = some p →
      0 ≤ p.inputPer1MTokens ∧ 0 ≤ p.outputPer1MTokens)
    (hi : 0 ≤ req.estimatedInputTokens ∧ req.estimatedInputTokens ≤ maxTokenCount)
    (ho : 0 ≤ req.estimatedMaxOutputTokens ∧ req.estimatedMaxOutputTokens ≤ maxTokenCount) :
    (∀ budgets : BudgetThresholds, Loadable ⟨models, budgets⟩ →
      CapKept ⟨models, budgets⟩ cfg req) ↔ EstimateCovers models req := by
  constructor
  · intro h p hp
    by_contra hdear
    obtain ⟨hne, hlt⟩ := not_or.mp hdear
    obtain ⟨budgets, hload, hnot⟩ := not_capKept_of_dearer cfg
      (lt_of_le_of_ne hi.1 (Ne.symm hne)) hi.2 ho hp (hprices _ p hp).2 (not_le.mp hlt)
    exact hnot (h budgets hload)
  · intro h budgets _
    exact capKept_of_covers cfg h

def usualPrices : GoMap String ModelPricing := AList.insert "sonnet" ⟨3, 15⟩ ∅

def usualRequest : LeaseRequest :=
  { workflowID := "w", agentID := "a", model := "sonnet",
    estimatedInputTokens := 1000000, estimatedMaxOutputTokens := 8192 }

theorem usualPrices_lookup {model : String} {p : ModelPricing}
    (h : usualPrices.lookup model = some p) : p = ⟨3, 15⟩ := by
  rw [usualPrices, GoMap.lookup_insert] at h
  split_ifs at h
  · exact (Option.some.inj h).symm
  · simp at h

theorem usualRequest_keeps_cap : EstimateCovers usualPrices usualRequest ∧
    ∀ budgets : BudgetThresholds, Loadable ⟨usualPrices, budgets⟩ →
      CapKept ⟨usualPrices, budgets⟩ defaultConfig usualRequest := by
  have hcovers : EstimateCovers usualPrices usualRequest := by
    intro p hp
    rw [usualPrices_lookup hp]
    exact .inr (by norm_num)
  refine ⟨hcovers, (capKept_iff_estimateCovers usualPrices defaultConfig usualRequest ?_
    (by decide) (by decide)).mpr hcovers⟩
  intro model p hp
  rw [usualPrices_lookup hp]
  norm_num

/-- Input tokens at ten dollars a million, output tokens at one, five dollars a day. -/
def dearInput : CostConfig :=
  ⟨AList.insert "embedder" ⟨10, 1⟩ ∅, { global := { maxDailyUSD := 5, onExceed := "fail" } }⟩

def dearRequest : LeaseRequest :=
  { workflowID := "w", agentID := "a", model := "embedder",
    estimatedInputTokens := 1000000, estimatedMaxOutputTokens := 0 }

/-- The check estimates one dollar, the grant books ten, and the limit is five. -/
theorem dearRequest_exceeds_cap :
    Loadable dearInput ∧
    ((run dearInput defaultConfig []).wallet.acquireLease none "l" 0 dearRequest).2 =
      .ok (.grant ⟨"l", 1000000, 0, 60⟩) ∧
    ¬ WithinLimits
      ((run dearInput defaultConfig []).wallet.acquireLease none "l" 0 dearRequest).1
      dearRequest := by
  refine ⟨⟨.ok "", fun _ => .ok ⟨some dearInput.pricing, dearInput.budgets⟩, ?_⟩, ?_, ?_⟩
  · rfl
  · decide +kernel
  · intro h
    exact absurd (h .global rfl (by decide +kernel)) (by decide +kernel)

end Persatrix.Wallet
