import Persatrix.StageRunner
import Mathlib.Algebra.BigOperators.Group.List.Basic
import Mathlib.Tactic.Linarith

/-!
# The context budgets of a workflow

The validator and the allocator sum the explicit budgets each for itself, in machine integers. Where
the sum with one token for every other step fits, both sums are exact, and what the validator
accepted the allocator can split.
-/
namespace Persatrix.Scheduler
open Planner

/-- The steps without an explicit budget. -/
def defaultSteps (steps : List Step) : List Step :=
  steps.filter fun step => !decide (0 < step.contextBudget)

/-- The explicit budgets, summed without a bound. -/
def explicitSum (steps : List Step) : ℤ :=
  ((steps.filter fun step => 0 < step.contextBudget).map (·.contextBudget)).sum

/-- What the steps are given together. -/
def allocated (budgets : GoMap String ℤ) (steps : List Step) : ℤ :=
  (steps.map fun step => (budgets.lookup step.id).getD 0).sum

/-- A split of the total. What no step is given is less than a token for each default step. -/
structure Splits (total : ℤ) (steps : List Step) (budgets : GoMap String ℤ) : Prop where
  positive : ∀ step ∈ steps, ∃ b, budgets.lookup step.id = some b ∧ 1 ≤ b
  explicit : ∀ step ∈ steps, 0 < step.contextBudget →
    budgets.lookup step.id = some step.contextBudget
  bounded : allocated budgets steps ≤ total
  remainder : defaultSteps steps ≠ [] →
    total - allocated budgets steps < (defaultSteps steps).length

/-- The explicit budgets and a token for each default step fit in an `int`. -/
def Fits (steps : List Step) : Prop := explicitSum steps + (defaultSteps steps).length < 2 ^ 63

instance (steps : List Step) : Decidable (Fits steps) :=
  inferInstanceAs (Decidable (explicitSum steps + (defaultSteps steps).length < 2 ^ 63))

section
variable {step : Step} {steps : List Step}

theorem explicitSum_cons_of_pos (h : 0 < step.contextBudget) :
    explicitSum (step :: steps) = step.contextBudget + explicitSum steps := by
  simp [explicitSum, h]

theorem explicitSum_cons_of_not_pos (h : ¬0 < step.contextBudget) :
    explicitSum (step :: steps) = explicitSum steps := by
  simp [explicitSum, h]

theorem defaultSteps_cons_of_pos (h : 0 < step.contextBudget) :
    defaultSteps (step :: steps) = defaultSteps steps := by
  simp [defaultSteps, h]

theorem defaultSteps_cons_of_not_pos (h : ¬0 < step.contextBudget) :
    defaultSteps (step :: steps) = step :: defaultSteps steps := by
  simp [defaultSteps, h]

end

theorem explicitSum_nonneg (steps : List Step) : 0 ≤ explicitSum steps := by
  induction steps with
  | nil => exact le_rfl
  | cons step steps ih =>
    by_cases h : 0 < step.contextBudget
    · rw [explicitSum_cons_of_pos h]
      omega
    · rw [explicitSum_cons_of_not_pos h]
      exact ih

theorem length_filter_add (steps : List Step) :
    (steps.filter fun step => 0 < step.contextBudget).length + (defaultSteps steps).length =
      steps.length := by
  induction steps with
  | nil => rfl
  | cons step steps ih =>
    by_cases h : 0 < step.contextBudget
    · rw [defaultSteps_cons_of_pos h, List.filter_cons_of_pos (by simpa using h)]
      simp only [List.length_cons]
      omega
    · rw [defaultSteps_cons_of_not_pos h, List.filter_cons_of_neg (by simpa using h)]
      simp only [List.length_cons]
      omega

/-- The sums of the validator are the exact ones, wrapped. -/
theorem contextBudgetSums_eq (steps : List Step) :
    contextBudgetSums steps =
      (int64 (explicitSum steps), int64 (defaultSteps steps).length) := by
  have hfrom : ∀ a b : ℤ, steps.foldl (fun acc step =>
      if 0 < step.contextBudget then (int64 (acc.1 + step.contextBudget), acc.2)
      else (acc.1, int64 (acc.2 + 1))) (int64 a, int64 b) =
        (int64 (a + explicitSum steps), int64 (b + (defaultSteps steps).length)) := by
    induction steps with
    | nil => simp [explicitSum, defaultSteps]
    | cons step steps ih =>
      intro a b
      rw [List.foldl_cons]
      by_cases h : 0 < step.contextBudget
      · rw [if_pos h, int64_add, ih, explicitSum_cons_of_pos h, defaultSteps_cons_of_pos h]
        simp only [add_assoc]
      · rw [if_neg h, int64_add, ih, explicitSum_cons_of_not_pos h,
          defaultSteps_cons_of_not_pos h]
        simp only [List.length_cons]
        push_cast
        simp only [add_assoc, add_comm]
  have h := hfrom 0 0
  simpa [contextBudgetSums, int64] using h

/-- The sum of the allocator is the exact one, wrapped. -/
theorem overrideSum_eq (steps : List Step) :
    (steps.filter fun step => 0 < step.contextBudget).foldl
      (fun sum step => int64 (sum + step.contextBudget)) 0 = int64 (explicitSum steps) := by
  have hfrom : ∀ (l : List Step) (a : ℤ),
      l.foldl (fun sum step => int64 (sum + step.contextBudget)) (int64 a) =
        int64 (a + (l.map (·.contextBudget)).sum) := by
    intro l
    induction l with
    | nil => simp
    | cons step l ih =>
      intro a
      rw [List.foldl_cons, int64_add, ih, List.map_cons, List.sum_cons, add_assoc]
  have h := hfrom (steps.filter fun step => 0 < step.contextBudget) 0
  simpa [explicitSum, int64] using h

/-- An accepted workflow has a token of its total for every default step. -/
theorem total_covers {wf : WorkflowFile} (hvalid : validate wf = .ok ())
    (htotal : 0 < wf.workflow.contextBudgetTotal) (hfits : Fits wf.workflow.steps) :
    explicitSum wf.workflow.steps + (defaultSteps wf.workflow.steps).length ≤
      wf.workflow.contextBudgetTotal := by
  simp only [validate, validateContextBudget, bind_eq_ok, require_eq_ok, decide_eq_true_eq,
    exists_and_left, exists_const, if_pos htotal] at hvalid
  obtain ⟨-, -, -, -, -, seen, -, _, -, -, hsums⟩ := hvalid
  have hexplicit := explicitSum_nonneg wf.workflow.steps
  unfold Fits at hfits
  rw [contextBudgetSums_eq, int64_of_fits (by omega) (by omega),
    int64_of_fits (by omega) (by omega)] at hsums
  rw [int64_of_fits (by omega) (by omega)] at hsums
  exact hsums.2

/-- Explicit budgets are taken as they are; every other step is given `perStep`. -/
theorem allocated_eq {budgets : GoMap String ℤ} {perStep : ℤ} {steps : List Step}
    (h : ∀ step ∈ steps, budgets.lookup step.id =
      some (if 0 < step.contextBudget then step.contextBudget else perStep)) :
    allocated budgets steps = explicitSum steps + perStep * (defaultSteps steps).length := by
  induction steps with
  | nil => simp [allocated, explicitSum, defaultSteps]
  | cons step steps ih =>
    obtain ⟨hhead, htail⟩ := List.forall_mem_cons.mp h
    have hcons : allocated budgets (step :: steps) =
        (if 0 < step.contextBudget then step.contextBudget else perStep) +
          allocated budgets steps := by
      simp [allocated, hhead]
    rw [hcons, ih htail]
    by_cases hpos : 0 < step.contextBudget
    · rw [if_pos hpos, explicitSum_cons_of_pos hpos, defaultSteps_cons_of_pos hpos, add_assoc]
    · rw [if_neg hpos, explicitSum_cons_of_not_pos hpos, defaultSteps_cons_of_not_pos hpos]
      simp only [List.length_cons]
      push_cast
      rw [mul_add, mul_one, add_left_comm, add_comm perStep]

/-- A total that covers the explicit budgets and the default steps is split. -/
theorem splits_of_covers {total : ℤ} {steps : List Step} (hne : steps ≠ [])
    (hnodup : (steps.map (·.id)).Nodup) (htotal : 0 < total) (hint : total < 2 ^ 63)
    (hcovers : explicitSum steps + (defaultSteps steps).length ≤ total) :
    Splits total steps (allocateContextBudgets total steps) := by
  have hexplicit := explicitSum_nonneg steps
  have hcount := length_filter_add steps
  have hlookup : ∀ step ∈ steps, (allocateContextBudgets total steps).lookup step.id =
      some (if 0 < step.contextBudget then step.contextBudget
        else (total - explicitSum steps) / (defaultSteps steps).length) := by
    intro step hstep
    have hsum : int64 (explicitSum steps) = explicitSum steps :=
      int64_of_fits (by omega) (by omega)
    have hremaining : max 0 (int64 (total - explicitSum steps)) = total - explicitSum steps := by
      rw [int64_of_fits (by omega) (by omega)]
      exact max_eq_right (by omega)
    unfold allocateContextBudgets
    rw [if_neg (fun h => h.elim (by omega) hne)]
    dsimp only
    rw [GoMap.lookup_foldl_insert_of_mem _ _ hnodup hstep, overrideSum_eq, hsum, hremaining,
      Nat.sub_eq_of_eq_add' hcount.symm]
    by_cases hpos : 0 < step.contextBudget
    · rw [if_pos hpos, if_pos hpos]
    · have hmem : step ∈ defaultSteps steps := List.mem_filter.mpr ⟨hstep, by simpa using hpos⟩
      rw [if_neg hpos, if_neg hpos, if_pos (List.length_pos_of_mem hmem)]
  have hallocated := allocated_eq hlookup
  have hsplit := Int.emod_add_mul_ediv (total - explicitSum steps) (defaultSteps steps).length
  have hmod : 0 ≤ (total - explicitSum steps) % ((defaultSteps steps).length : ℤ) := by
    by_cases hdefault : (defaultSteps steps).length = 0
    · rw [hdefault, Nat.cast_zero, Int.emod_zero]
      omega
    · exact Int.emod_nonneg _ (by omega)
  have hleft : total - allocated (allocateContextBudgets total steps) steps =
      (total - explicitSum steps) % ((defaultSteps steps).length : ℤ) := by
    rw [hallocated]
    linarith
  refine ⟨?_, ?_, by omega, ?_⟩
  · intro step hstep
    refine ⟨_, hlookup step hstep, ?_⟩
    by_cases hpos : 0 < step.contextBudget
    · rw [if_pos hpos]
      omega
    · have hmem : step ∈ defaultSteps steps := List.mem_filter.mpr ⟨hstep, by simpa using hpos⟩
      have hlength := List.length_pos_of_mem hmem
      rw [if_neg hpos, Int.le_ediv_iff_mul_le (by omega)]
      omega
  · intro step hstep hpos
    rw [hlookup step hstep, if_pos hpos]
  · intro hdefault
    have hlength := List.length_pos_of_ne_nil hdefault
    rw [hleft]
    exact Int.emod_lt_of_pos _ (by omega)

/-- The total of an accepted workflow is split among its steps; when every step names its own
budget, what is left of the total is dropped. -/
theorem allocateContextBudgets_splits {wf : WorkflowFile} (hvalid : validate wf = .ok ())
    (htotal : 0 < wf.workflow.contextBudgetTotal)
    (hint : wf.workflow.contextBudgetTotal < 2 ^ 63) (hfits : Fits wf.workflow.steps) :
    Splits wf.workflow.contextBudgetTotal wf.workflow.steps
      (allocateContextBudgets wf.workflow.contextBudgetTotal wf.workflow.steps) := by
  have hwf := validate_wellFormed hvalid
  exact splits_of_covers hwf.nonempty hwf.nodup htotal hint (total_covers hvalid htotal hfits)

/-- Two steps under a total of ten, one with a budget of its own. -/
def splitFlow : WorkflowFile where
  schemaVersion := "0.1"
  workflow :=
    { id := "split-flow", name := "Split", contextBudgetTotal := 10
      steps := [
        { id := "read", agentID := "reader", input := "x", contextBudget := 3 },
        { id := "write", agentID := "writer", input := "x" }] }

theorem splitFlow_splits : Splits 10 splitFlow.workflow.steps
    (allocateContextBudgets 10 splitFlow.workflow.steps) :=
  @allocateContextBudgets_splits splitFlow rfl (by decide) (by decide) (by decide)

/-- One step with a budget of its own, below the total. -/
def explicitFlow : WorkflowFile where
  schemaVersion := "0.1"
  workflow :=
    { id := "explicit-flow", name := "Explicit", contextBudgetTotal := 10
      steps := [{ id := "read", agentID := "reader", input := "x", contextBudget := 5 }] }

theorem explicitFlow_drops : validate explicitFlow = .ok () ∧
    0 < explicitFlow.workflow.contextBudgetTotal ∧
    ¬explicitFlow.workflow.contextBudgetTotal -
        allocated (allocateContextBudgets explicitFlow.workflow.contextBudgetTotal
          explicitFlow.workflow.steps) explicitFlow.workflow.steps <
      (defaultSteps explicitFlow.workflow.steps).length :=
  ⟨rfl, by decide, by decide⟩

/-- Where a total in the range of an `int` is split, the budgets fit. -/
theorem fits_of_splits {total : ℤ} {steps : List Step} {budgets : GoMap String ℤ}
    (h : Splits total steps budgets) (hint : total < 2 ^ 63) : Fits steps := by
  have hle : explicitSum steps + (defaultSteps steps).length ≤ allocated budgets steps := by
    have hpositive := h.positive
    have hexplicit := h.explicit
    clear h
    induction steps with
    | nil => exact le_rfl
    | cons step steps ih =>
      obtain ⟨⟨b, hb, hone⟩, hpositive⟩ := List.forall_mem_cons.mp hpositive
      obtain ⟨hown, hexplicit⟩ := List.forall_mem_cons.mp hexplicit
      have hrest := ih hpositive hexplicit
      have hcons : allocated budgets (step :: steps) = b + allocated budgets steps := by
        simp [allocated, hb]
      by_cases hpos : 0 < step.contextBudget
      · obtain rfl : b = step.contextBudget := Option.some.inj (hb.symm.trans (hown hpos))
        rw [hcons, explicitSum_cons_of_pos hpos, defaultSteps_cons_of_pos hpos]
        omega
      · rw [hcons, explicitSum_cons_of_not_pos hpos, defaultSteps_cons_of_not_pos hpos,
          List.length_cons]
        push_cast
        omega
  have hbounded := h.bounded
  unfold Fits
  omega

theorem explicitFlow_fits : Fits explicitFlow.workflow.steps := by
  refine @fits_of_splits 10 _ (allocateContextBudgets 10 explicitFlow.workflow.steps)
    ⟨?_, by decide, by decide, by decide⟩ (by decide)
  intro step hstep
  rw [List.mem_singleton.mp hstep]
  exact ⟨5, rfl, by decide⟩

end Persatrix.Scheduler
