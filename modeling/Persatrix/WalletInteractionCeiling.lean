import Persatrix.WalletInteraction

/-!
# The ceiling of an interaction

Under a fixed ceiling the running total stays within the ceiling plus the tokens
used beyond their grants. The total is charged at the granted size and later
corrected, and every open lease is covered by it, so a correction can bring it to
zero but never below: the branch that drops an entry discards no negative total.
-/
namespace Persatrix.Wallet
open Cost

/-- The lease's interaction and the delta with which `finalize` adjusts its total. -/
def WalletService.finalizeAdjustment (w : WalletService) (leaseID : String)
    (actualInput actualOutput : ℤ) : Option (String × ℤ) :=
  match w.active.lookup leaseID with
  | none => none
  | some ls =>
    if ls.settled then none
    else
      match w.counter.reconcile leaseID actualInput actualOutput with
      | .error _ => none
      | .ok _ => some (ls.interactionID,
          (actualInput + actualOutput) - (ls.grantedInput + ls.grantedOutput))

/-- The adjustment a call makes, if it makes one. -/
def Call.adjustment (w : WalletService) : Call → Option (String × ℤ)
  | .settleLease leaseID i o =>
    match w.settleLease leaseID i o with
    | (_, .error _) => none
    | (_, .ok _) => w.finalizeAdjustment leaseID i o
  | .releaseLease leaseID => w.finalizeAdjustment leaseID 0 0
  | _ => none

/-- The last branch of `adjustInteractionTokensLocked`: the entry is dropped. -/
def dropsEntry (tokens : GoMap String ℤ) (interactionID : String) (delta : ℤ) : Bool :=
  !(decide (interactionID = "") || decide (delta = 0)) &&
    !decide (0 < (tokens.lookup interactionID).getD 0 + delta)

/-- Every acquisition of the run for the interaction meets the same budget. -/
def FixedBudget (x : String) (budget : ℤ) (calls : List Call) : Prop :=
  ∀ resolver newID now req, Call.acquireLease resolver newID now req ∈ calls →
    req.interactionID = x → resolveInteractionBudget resolver req = budget

variable {pricing : CostConfig} {x : String} {s : Traced} {budget : ℤ}

theorem account_overuse_nonneg (x : String) (s : Traced) : 0 ≤ (account x s).overuse :=
  sumFor_nonneg x _ fun g _ => overuse_nonneg g

/-- A lease admitted under the ceiling fits below it with what is already spent. -/
theorem spend_add_le_budget {w : WalletService} (hx : x ≠ "")
    {resolver : Option (String → Option ℤ)} {newID : String} {req : LeaseRequest}
    (hadmits : w.Admits resolver newID req)
    (htracked : WalletService.trackedInteractionID resolver req = x) :
    req.interactionID = x ∧ w.interactionSpend x +
      (req.estimatedInputTokens + req.estimatedMaxOutputTokens) ≤
        resolveInteractionBudget resolver req := by
  unfold WalletService.trackedInteractionID at htracked
  split_ifs at htracked with hpos
  · subst htracked
    refine ⟨rfl, ?_⟩
    have hceiling := hadmits.ceiling
    simp only [WalletService.interactionCeilingDenialLocked, hx, not_le.mpr hpos, or_self,
      if_false] at hceiling
    split_ifs at hceiling with hle
    simpa [WalletService.interactionSpend, hx] using hle
  · exact absurd htracked.symm hx

theorem ceiling_next (h : Spend pricing x s) (hx : x ≠ "") {call : Call}
    (hcall : call.evicts x = false) (hbudget : FixedBudget x budget [call])
    (hle : (account x s).spend ≤ budget + (account x s).overuse) :
    (account x (s.next call)).spend ≤ budget + (account x (s.next call)).overuse := by
  rw [account_next h hx hcall]
  unfold Call.effect
  split
  case h_1 resolver newID now req =>
    split_ifs with hgrant
    · obtain ⟨htracked, hfailed⟩ := hgrant
      rcases s.next_acquireLease_cases resolver newID now req with
        ⟨-, hfailed'⟩ | ⟨hadmits, -, -⟩
      · rw [hfailed] at hfailed'
        cases hfailed'
      · obtain ⟨hid, hfits⟩ := spend_add_le_budget hx hadmits htracked
        rw [hbudget resolver newID now req (by simp) hid] at hfits
        have hover := account_overuse_nonneg x s
        simp only [Account.grant]
        exact hfits.trans (by omega)
    · exact hle
  case h_2 call _ =>
    split
    · exact hle
    · split
      · exact hle
      · split_ifs
        · simp only [Account.settle]
          split_ifs <;> omega
        · exact hle

theorem ceiling_run (pricing : CostConfig) (cfg : Config) (hx : x ≠ "") (hpos : 0 < budget)
    {calls : List Call} (hretained : Retained x calls) (hbudget : FixedBudget x budget calls) :
    (account x (run pricing cfg calls)).spend ≤
      budget + (account x (run pricing cfg calls)).overuse := by
  induction calls using List.reverseRecOn with
  | nil =>
    have hspend : (account x (run pricing cfg [])).spend = 0 := by
      simp [account, run, start, newWalletService, WalletService.interactionSpend]
    have hover := account_overuse_nonneg x (run pricing cfg [])
    omega
  | append_singleton calls call ih =>
    have hinit : Retained x calls := fun c hc => hretained c (by simp [hc])
    rw [run_concat]
    refine ceiling_next (spend_run pricing cfg hx hinit) hx (hretained call (by simp)) ?_
      (ih hinit fun resolver newID now req hc => hbudget resolver newID now req (by simp [hc]))
    intro resolver newID now req hc
    exact hbudget resolver newID now req (by simp_all)

/-- An adjustment is that of an unsettled lease whose charge is still held. -/
theorem finalizeAdjustment_cases (h : Conserved pricing s) {leaseID : String} {i o delta : ℤ}
    {interactionID : String}
    (hadjust : s.wallet.finalizeAdjustment leaseID i o = some (interactionID, delta)) :
    ∃ ls g, Unsettled pricing s leaseID ls g ∧ g.interactionID = interactionID ∧
      delta = (i + o) - g.grantedTokens := by
  unfold WalletService.finalizeAdjustment at hadjust
  rcases h.lease_cases leaseID with hl | ⟨ls, hl, hs⟩ | ⟨ls, g, hu⟩
  · simp [hl] at hadjust
  · simp [hl, hs] at hadjust
  · refine ⟨ls, g, hu, ?_⟩
    simp only [hu.active, hu.settled, Bool.false_eq_true, if_false] at hadjust
    split at hadjust
    · cases hadjust
    · cases hadjust
      refine ⟨hu.describes.interactionID.symm, ?_⟩
      rw [Granted.grantedTokens, hu.describes.grantedInput, hu.describes.grantedOutput]

/-- An adjustment never brings the total of its interaction below zero. -/
theorem adjustment_nonneg (h : Spend pricing x s) {call : Call} {delta : ℤ}
    (hadjust : call.adjustment s.wallet = some (x, delta)) :
    0 ≤ s.wallet.interactionSpend x + delta := by
  have hfinalize : ∀ leaseID i o, 0 ≤ i + o →
      s.wallet.finalizeAdjustment leaseID i o = some (x, delta) →
      0 ≤ s.wallet.interactionSpend x + delta := by
    intro leaseID i o hpos hadjust
    obtain ⟨ls, g, hu, hg, rfl⟩ := finalizeAdjustment_cases h.conserved hadjust
    have hcovered : g.grantedTokens ≤ s.wallet.interactionSpend x := grantedTokens_le_spend h hu hg
    omega
  cases call with
  | settleLease leaseID i o =>
    rcases s.wallet.settleLease_cases leaseID i o with ⟨err, he⟩ | ⟨hi, ho, hf⟩
    · simp [Call.adjustment, he] at hadjust
    · simp only [Call.adjustment, hf] at hadjust
      exact hfinalize leaseID i o (add_nonneg hi.1 ho.1) hadjust
  | releaseLease leaseID => exact hfinalize leaseID 0 0 le_rfl hadjust
  | acquireLease _ _ _ _ => cases hadjust
  | reapExpired _ _ => cases hadjust
  | resetDaily => cases hadjust
  | recordUsage _ => cases hadjust
  | evictInteraction _ => cases hadjust

/-- Under a fixed ceiling the total exceeds it at most by the use beyond grants, and an
entry is dropped only when the adjusted total is exactly zero. -/
theorem interaction_ceiling (pricing : CostConfig) (cfg : Config) {x : String} (hx : x ≠ "")
    {budget : ℤ} (hpos : 0 < budget) {calls : List Call} (hretained : Retained x calls)
    (hbudget : FixedBudget x budget calls) :
    (run pricing cfg calls).wallet.interactionSpend x ≤
      budget + sumFor x Granted.overuse (run pricing cfg calls).history.grants ∧
    ∀ (call : Call) (delta : ℤ), call.adjustment (run pricing cfg calls).wallet = some (x, delta) →
      dropsEntry (run pricing cfg calls).wallet.interactionTokens x delta = true →
      (run pricing cfg calls).wallet.interactionSpend x + delta = 0 := by
  refine ⟨ceiling_run pricing cfg hx hpos hretained hbudget, ?_⟩
  intro call delta hadjust hdrop
  have hnonneg := adjustment_nonneg (spend_run pricing cfg hx hretained) hadjust
  simp only [WalletService.interactionSpend, hx, if_false] at hnonneg ⊢
  simp only [dropsEntry, Bool.and_eq_true, Bool.not_eq_true', decide_eq_false_iff_not] at hdrop
  omega

/-- One lease under a ceiling of a hundred tokens. -/
def cappedLease : List Call := [.acquireLease none "l" 0 cappedRequest]

theorem cappedLease_retained : Retained "i" cappedLease := by
  unfold Retained cappedLease
  simp [Call.evicts]

theorem cappedLease_fixedBudget : FixedBudget "i" 100 cappedLease := by
  intro resolver newID now req hcall _
  simp only [cappedLease, List.mem_singleton] at hcall
  cases hcall
  rfl

theorem cappedLease_within_ceiling :
    (run unpriced defaultConfig cappedLease).wallet.interactionSpend "i" = 30 ∧
    ((run unpriced defaultConfig cappedLease).wallet.interactionSpend "i" ≤
      100 + sumFor "i" Granted.overuse (run unpriced defaultConfig cappedLease).history.grants ∧
    ∀ (call : Call) (delta : ℤ),
      call.adjustment (run unpriced defaultConfig cappedLease).wallet = some ("i", delta) →
      dropsEntry (run unpriced defaultConfig cappedLease).wallet.interactionTokens "i" delta =
        true →
      (run unpriced defaultConfig cappedLease).wallet.interactionSpend "i" + delta = 0) := by
  refine ⟨by decide, ?_⟩
  exact interaction_ceiling unpriced defaultConfig (by decide) (by decide)
    cappedLease_retained cappedLease_fixedBudget

/-- No reset falls between grant and release, and the release takes the dropping branch. -/
theorem release_drops_entry :
    Retained "i" cappedLease ∧ FixedBudget "i" 100 cappedLease ∧
    Call.resetDaily ∉ cappedLease ∧
    (Call.releaseLease "l").adjustment (run unpriced defaultConfig cappedLease).wallet =
      some ("i", -30) ∧
    dropsEntry (run unpriced defaultConfig cappedLease).wallet.interactionTokens "i" (-30) =
      true := by
  refine ⟨cappedLease_retained, cappedLease_fixedBudget, by simp [cappedLease], ?_, ?_⟩
  · decide
  · decide

end Persatrix.Wallet
