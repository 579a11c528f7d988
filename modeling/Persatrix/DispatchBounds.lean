import Persatrix.DispatchRetries
import Mathlib.Tactic.Linarith

/-!
# Bounds of the dispatch loop

How many attempts `ExecuteTask` makes, what ends them, how long it pauses and which timeouts it
sets, for all outcomes, clocks and draws, and for which limits this holds on 64 bits.
-/
namespace Persatrix.Executor
open Float64

/-! ### Conversions -/

@[simp] theorem truncate_intCast (n : ℤ) : truncate n = n := by
  unfold truncate
  split_ifs
  · exact Int.ceil_intCast n
  · exact Int.floor_intCast n

theorem truncate_of_nonneg {q : ℚ} (h : 0 ≤ q) : truncate q = ⌊q⌋ := if_neg (not_lt.mpr h)

theorem toInt64_of_fits {misfit : ℚ → ℤ} {q : ℚ} (hlow : -2 ^ 63 ≤ truncate q)
    (hhigh : truncate q < 2 ^ 63) : toInt64 misfit q = truncate q := if_pos ⟨hlow, hhigh⟩

theorem toInt64_lt (misfit : ℚ → ℤ) (q : ℚ) : toInt64 misfit q < 2 ^ 63 := by
  unfold toInt64
  split_ifs with h
  · exact h.2
  · exact (int64_range _).2

/-- The least part of a budget with 53 bits above its quarter. -/
theorem minimum_of_rounded {misfit : ℚ → ℤ} {budget : ℤ} {m e : ℕ} (hm : m < 2 ^ 53)
    (h : rounded budget = m * 2 ^ (e + 2)) (hfits : (m * 2 ^ e : ℤ) < 2 ^ 63) :
    minimum misfit budget = m * 2 ^ e := by
  have hquarter : rounded budget * minRetryBudgetFraction = m * 2 ^ (e : ℤ) := by
    rw [h, minRetryBudgetFraction, zpow_natCast]
    ring
  have hvalue : (m : ℚ) * 2 ^ (e : ℤ) = ((m * 2 ^ e : ℤ) : ℚ) := by
    rw [zpow_natCast]
    push_cast
    ring
  have hpos : (0 : ℤ) ≤ m * 2 ^ e := by positivity
  rw [minimum, hquarter, rounded_of_fits hm (by omega), hvalue, toInt64_of_fits] <;>
    rw [truncate_intCast]
  · omega
  · exact hfits

/-! ### The deadline -/

/-- The least time for a retry, for a deadline of some seconds. -/
theorem minimum_deadline {misfit : ℚ → ℤ} {T : ℕ} (hT : T * second < 2 ^ 63 - 5 * second) :
    minimum misfit (T * second) = if T ≤ 4611686018 then (T : ℤ) * 250000000
      else ((if T % 2 = 0 then T * 1953125 / 2 else 2 * ((T * 1953125 + 1) / 4) : ℕ) : ℤ) * 256 := by
  unfold second at hT ⊢
  have hvalue : (((T : ℤ) * 1000000000 : ℤ) : ℚ) = ((T * 1953125 : ℕ) : ℚ) * 2 ^ (9 : ℤ) := by
    push_cast
    ring
  by_cases hsmall : T ≤ 4611686018
  · have hround : rounded (((T : ℤ) * 1000000000 : ℤ) : ℚ) = ((T * 1953125 : ℕ) : ℚ) * 2 ^ (7 + 2) := by
      rw [hvalue, rounded_of_fits (by omega) (by norm_num)]
      norm_num
    rw [if_pos hsmall, minimum_of_rounded (by omega) hround (by push_cast; omega)]
    push_cast
    ring
  · have hhigh : T * 1953125 < 2 ^ 54 := by omega
    have hscale : scale (((T : ℤ) * 1000000000 : ℤ) : ℚ) = 10 := by
      apply scale_eq (by norm_num)
      · push_cast
        have hcast : (4611686019 : ℚ) ≤ T := by exact_mod_cast (by omega : 4611686019 ≤ T)
        linarith
      · push_cast
        have hcast : (T : ℚ) * 1953125 < 2 ^ 54 := by exact_mod_cast hhigh
        linarith
    have hhalf : (((T : ℤ) * 1000000000 : ℤ) : ℚ) / 2 ^ (10 : ℤ) = ((T * 1953125 : ℕ) : ℚ) / 2 := by
      push_cast
      ring
    have hpos : (0 : ℚ) < (((T : ℤ) * 1000000000 : ℤ) : ℚ) := by
      exact_mod_cast (by omega : 0 < (T : ℤ) * 1000000000)
    have hround : rounded (((T : ℤ) * 1000000000 : ℤ) : ℚ) =
        ((if T % 2 = 0 then T * 1953125 / 2 else 2 * ((T * 1953125 + 1) / 4) : ℕ) : ℚ) *
          2 ^ (8 + 2) := by
      rw [rounded_of_nonneg hpos.le, roundedAbs, if_neg hpos.ne', hscale, hhalf, roundEven_half]
      have hparity : T * 1953125 % 2 = T % 2 := by omega
      rw [hparity]
      norm_num
    rw [if_neg hsmall, minimum_of_rounded (by split_ifs <;> omega) hround
      (by split_ifs <;> push_cast <;> omega)]
    norm_num only

/-! ### Pauses -/

theorem jitter_le {draw : ℚ} (hdraw : 0 ≤ draw) (h : jitter draw < 5 / 4) :
    jitter draw ≤ 5 / 4 - 1 / 2 ^ 52 := by
  have hhalf : 0 ≤ rounded (draw * (1 / 2)) := by
    rw [rounded_of_nonneg (by positivity)]
    exact roundedAbs_nonneg _
  unfold jitter at h ⊢
  rw [rounded_of_nonneg (by positivity)] at h ⊢
  have hlt := roundedAbs_lt (q := 3 / 4 + rounded (draw * (1 / 2))) (by positivity)
    (n := 5 * 2 ^ 50) (k := -52) (by norm_num) (by push_cast; norm_num; exact h)
  refine hlt.trans_eq ?_
  push_cast
  norm_num

theorem base_eq {k : ℕ} (hk : k ≤ 36) : base k = 100 * millisecond * 2 ^ k := by
  have hpow : (2 : ℤ) ^ k ≤ 2 ^ 36 := pow_le_pow_right₀ (by norm_num) hk
  have hpos : (0 : ℤ) < 2 ^ k := by positivity
  unfold base millisecond
  rw [int64_of_fits (n := 2 ^ k) (by omega) (by omega), int64_of_fits (by omega) (by omega)]

theorem delay_bounds {misfit : ℚ → ℤ} {draw : ℚ} {k : ℕ} (hk : k ≤ 36) (hdraw : 0 ≤ draw)
    (hlow : 3 / 4 ≤ jitter draw) (hhigh : jitter draw < 5 / 4) :
    75 * millisecond * 2 ^ k ≤ delay misfit draw k ∧
      delay misfit draw k < 125 * millisecond * 2 ^ k := by
  have hbase : rounded (base k) = 100000000 * 2 ^ k := by
    have hsplit : ((base k : ℤ) : ℚ) = ((390625 : ℕ) : ℚ) * 2 ^ ((k : ℤ) + 8) := by
      rw [base_eq hk, millisecond, zpow_add₀ two_ne_zero, zpow_natCast]
      push_cast
      ring
    rw [hsplit, rounded_of_fits (by norm_num) (by omega), ← hsplit, base_eq hk, millisecond]
    push_cast
    ring
  have hjitter := jitter_le hdraw hhigh
  have htwo : (0 : ℚ) < 2 ^ k := by positivity
  set v : ℚ := 100000000 * 2 ^ k * jitter draw with hv
  have hvlow : 75000000 * 2 ^ k ≤ v := by nlinarith
  have hvhigh : v ≤ (125000000 - 100000000 / 2 ^ 52) * 2 ^ k := by
    have hmul := mul_le_mul_of_nonneg_left hjitter htwo.le
    rw [hv]
    linarith
  have hsplit : (2 : ℚ) ^ ((k : ℤ) - 26) = 2 ^ k / 2 ^ 26 := by
    rw [zpow_sub₀ two_ne_zero, zpow_natCast]
    norm_num
  have hscale : scale v = (k : ℤ) - 26 := by
    apply scale_eq (by omega)
    · rw [zpow_add₀ two_ne_zero, hsplit]
      norm_num
      linarith
    · rw [zpow_add₀ two_ne_zero, hsplit]
      norm_num
      linarith
  have hround := roundedAbs_bounds (q := v) (by linarith) (n := 75000000 * 2 ^ 26)
    (m := 125000000 * 2 ^ 26 - 1) (by rw [hscale, hsplit]; norm_num; linarith)
    (by rw [hscale, hsplit]; norm_num; linarith)
  rw [hscale, hsplit] at hround
  have hleast : ((75 * millisecond * 2 ^ k : ℤ) : ℚ) ≤ rounded v := by
    rw [rounded_of_nonneg (by linarith)]
    refine le_trans (le_of_eq ?_) hround.1
    rw [millisecond]
    push_cast
    field_simp
    norm_num
  have hmost : rounded v < ((125 * millisecond * 2 ^ k : ℤ) : ℚ) := by
    rw [rounded_of_nonneg (by linarith)]
    refine lt_of_le_of_lt hround.2 ?_
    rw [millisecond]
    push_cast
    norm_num
    linarith
  have hnonneg : 0 ≤ rounded v := le_trans (by rw [millisecond]; positivity) hleast
  have hbounds : 75 * millisecond * 2 ^ k ≤ ⌊rounded v⌋ ∧
      ⌊rounded v⌋ < 125 * millisecond * 2 ^ k :=
    ⟨Int.le_floor.mpr hleast, Int.floor_lt.mpr hmost⟩
  have hpow : (2 : ℤ) ^ k ≤ 2 ^ 36 := pow_le_pow_right₀ (by norm_num) hk
  have hdelay : delay misfit draw k = ⌊rounded v⌋ := by
    rw [delay, hbase, toInt64_of_fits] <;> rw [truncate_of_nonneg hnonneg]
    · have hfloor : 0 ≤ ⌊rounded v⌋ := Int.floor_nonneg.mpr hnonneg
      omega
    · unfold millisecond at hbounds
      omega
  rw [hdelay]
  exact hbounds

/-! ### What the loop promises -/

def StepLimits.seconds (limits : StepLimits) : ℤ := limits.timeoutSeconds.toInt

/-- The step has a deadline of its own. -/
def Derived (e : GRPCExecutor) (limits : StepLimits) : Prop :=
  e.deadlineMode = .derived ∧ 0 < limits.timeoutSeconds

/-- The clock does not go back, and what is drawn makes the pauses shorter or longer by less than a
quarter. -/
structure World.Valid (w : World) : Prop where
  clock : Monotone w.elapsed
  draws : ∀ k, 0 ≤ w.draw k
  jitters : ∀ k, 3 / 4 ≤ jitter (w.draw k) ∧ jitter (w.draw k) < 5 / 4

/-- Nothing is cached for the request, and its agent is healthy. -/
structure World.Passes (w : World) (e : GRPCExecutor) (req : ExecuteRequest) : Prop where
  cached : (req.cacheable && e.caches) = true → w.cached = none
  agent : ∃ address, w.lookup = .agent .healthy address

structure Respects (e : GRPCExecutor) (limits : StepLimits) (run : Run) : Prop where
  dispatched : run.dispatches ≠ []
  retries : run.dispatches.length ≤ e.maxRetries.toInt + 1
  transient : ∀ d ∈ run.dispatches.dropLast, d.Transient
  answer : ∀ d, run.dispatches.getLast? = some d → d.Answered run.answer
  pauses : ∀ k pause, run.pauses[k]? = some pause →
    75 * millisecond * 2 ^ k ≤ pause ∧ pause < 125 * millisecond * 2 ^ k
  timeouts : Derived e limits → ∀ d ∈ run.dispatches,
    0 < d.timeout ∧ limits.seconds * second - d.elapsed < d.timeout
  budget : Derived e limits → ∀ d ∈ run.dispatches.tail,
    minRetryBudgetFraction * (limits.seconds * second : ℤ) ≤
      (limits.seconds * second - d.elapsed : ℤ)

/-- The limits for which durations neither wrap nor are rounded down. -/
structure Sound (e : GRPCExecutor) (limits : StepLimits) : Prop where
  retries : e.maxRetries.toInt ≤ 37
  margin : Derived e limits → (limits.seconds + defaultTransportMargin) * second < 2 ^ 63
  fraction : Derived e limits → 0 < e.maxRetries.toInt →
    limits.seconds ≤ 4611686018 ∨ limits.seconds % 4 ≠ 1

section
variable (e : GRPCExecutor) (req : ExecuteRequest) (w : World)

theorem pauses_loop {turns attempt : ℕ} (s : LoopState)
    (h : (turns + attempt : ℤ) = e.maxRetries.toInt + 1) {k : ℕ} {pause : ℤ}
    (hpause : (loop e req w turns attempt s).pauses[k]? = some pause) :
    pause = delay w.misfit (w.draw (attempt + k)) (attempt + k) ∧
      (attempt + k : ℤ) < e.maxRetries.toInt := by
  induction turns generalizing attempt s k with
  | zero => cases hpause
  | succ turns ih =>
    have hturn := loop_turn e req w turns attempt s
    generalize loop e req w (turns + 1) attempt s = run at hturn hpause
    cases hturn with
    | stopped => cases hpause
    | completed => cases hpause
    | permanent => cases hpause
    | last => cases hpause
    | retried timeout partial? err tokens _ _ _ hmore =>
      cases k with
      | zero =>
        cases hpause
        exact ⟨rfl, by omega⟩
      | succ k =>
        have hrest := ih (s.failed e timeout partial? err tokens) (by push_cast; omega) hpause
        rw [Nat.add_right_comm, Nat.add_assoc] at hrest
        exact ⟨hrest.1, by push_cast at hrest ⊢; omega⟩

/-- A turn dispatches with what its budget gives, and then the turns after it do. -/
theorem Turn.dispatches {e : GRPCExecutor} {req : ExecuteRequest} {w : World} {attempt : ℕ}
    {s : LoopState} {rest : LoopState → Run} {run : Run} (h : Turn e req w attempt s rest run) :
    run.dispatches = [] ∨ ∃ d tail, run.dispatches = d :: tail ∧ d.elapsed = w.elapsed attempt ∧
      timeBudget e req w attempt s.dispatchTimeout = some d.timeout ∧
      (tail = [] ∨ ∃ s', tail = (rest s').dispatches) := by
  cases h with
  | stopped => exact .inl rfl
  | completed _ _ htime => exact .inr ⟨_, _, rfl, rfl, htime, .inl rfl⟩
  | permanent _ _ _ _ htime => exact .inr ⟨_, _, rfl, rfl, htime, .inl rfl⟩
  | last _ _ _ _ htime => exact .inr ⟨_, _, rfl, rfl, htime, .inl rfl⟩
  | retried _ _ _ _ htime => exact .inr ⟨_, _, rfl, rfl, htime, .inr ⟨_, rfl⟩⟩

theorem timeouts_loop {turns attempt : ℕ} (s : LoopState) {k : ℕ} {d : Dispatch}
    (hd : (loop e req w turns attempt s).dispatches[k]? = some d) :
    d.elapsed = w.elapsed (attempt + k) ∧
      ∃ timeout, (k = 0 → timeout = s.dispatchTimeout) ∧
        timeBudget e req w (attempt + k) timeout = some d.timeout := by
  induction turns generalizing attempt s k with
  | zero => cases hd
  | succ turns ih =>
    cases (loop_turn e req w turns attempt s).dispatches with
    | inl hnone =>
      rw [hnone] at hd
      cases hd
    | inr hsome =>
      obtain ⟨d₀, tail, heq, helapsed, htime, htail⟩ := hsome
      rw [heq] at hd
      cases k with
      | zero =>
        cases hd
        exact ⟨helapsed, s.dispatchTimeout, fun _ => rfl, htime⟩
      | succ k =>
        rw [List.getElem?_cons_succ] at hd
        cases htail with
        | inl hnil =>
          rw [hnil] at hd
          cases hd
        | inr hrest =>
          obtain ⟨s', hs'⟩ := hrest
          rw [hs'] at hd
          obtain ⟨hclock, timeout, -, hbudget⟩ := ih s' hd
          rw [Nat.add_right_comm, Nat.add_assoc] at hclock hbudget
          exact ⟨hclock, timeout, fun h => (Nat.succ_ne_zero k h).elim, hbudget⟩

/-! ### The deadline of a step -/

variable {e req}

theorem Derived.seconds_pos {limits : StepLimits} (h : Derived e limits) : 0 < limits.seconds :=
  Int64.lt_iff_toInt_lt.mp h.2

theorem stepDeadline_eq {limits : StepLimits} (h : Derived e limits)
    (hfits : limits.seconds * second < 2 ^ 63) :
    stepDeadline e limits = limits.seconds * second := by
  have hpos := h.seconds_pos
  have hnonneg : 0 ≤ limits.seconds * second := mul_nonneg hpos.le (by decide)
  rw [stepDeadline, if_pos ⟨h.1, h.2⟩]
  exact int64_of_fits (by unfold StepLimits.seconds at hnonneg; omega) hfits

theorem dispatchTimeout_eq {limits : StepLimits} (h : Derived e limits)
    (hfits : (limits.seconds + defaultTransportMargin) * second < 2 ^ 63) :
    dispatchTimeout e limits = (limits.seconds + defaultTransportMargin) * second := by
  have hpos := h.seconds_pos
  unfold second defaultTransportMargin at hfits
  rw [dispatchTimeout, if_pos ⟨h.1, h.2⟩, stepDeadline_eq h (by unfold second; omega), ← add_mul]
  exact int64_of_fits (by unfold second defaultTransportMargin; omega) hfits

/-- The least part of a deadline that lets a retry begin is more than nothing, and a quarter of it
unless the deadline is rounded down. -/
theorem minimum_stepDeadline (misfit : ℚ → ℤ) {limits : StepLimits} (h : Derived e limits)
    (hfits : (limits.seconds + defaultTransportMargin) * second < 2 ^ 63) :
    0 < minimum misfit (stepDeadline e limits) ∧
      minimum misfit (stepDeadline e limits) ≤ limits.seconds * second ∧
      (limits.seconds * second ≤ 4 * minimum misfit (stepDeadline e limits) ↔
        limits.seconds ≤ 4611686018 ∨ limits.seconds % 4 ≠ 1) := by
  have hpos := h.seconds_pos
  unfold defaultTransportMargin second at hfits
  rw [stepDeadline_eq h (by unfold second; omega)]
  obtain ⟨T, hT⟩ := Int.eq_ofNat_of_zero_le hpos.le
  rw [hT] at hpos hfits ⊢
  rw [minimum_deadline (by unfold second; omega)]
  unfold second
  by_cases hsmall : T ≤ 4611686018
  · rw [if_pos hsmall]
    omega
  · rw [if_neg hsmall]
    by_cases hparity : T % 2 = 0
    · rw [if_pos hparity]
      omega
    · rw [if_neg hparity]
      omega

/-- What a retry is given in time. -/
theorem timeBudget_some {attempt : ℕ} {timeout given : ℤ} (h : Derived e req.limits)
    (hfits : (req.limits.seconds + defaultTransportMargin) * second < 2 ^ 63) (hretry : 0 < attempt)
    (hbudget : timeBudget e req w attempt timeout = some given) :
    minimum w.misfit (stepDeadline e req.limits) ≤
        req.limits.seconds * second - w.elapsed attempt ∧
      given = req.limits.seconds * second - w.elapsed attempt + defaultTransportMargin * second := by
  have hpos := h.seconds_pos
  have hleast := (minimum_stepDeadline w.misfit h hfits).1
  have hdeadline := stepDeadline_eq h
    (by unfold defaultTransportMargin second at hfits; unfold second; omega)
  rw [timeBudget, if_pos ⟨h.1, hretry, h.2⟩] at hbudget
  dsimp only at hbudget
  split_ifs at hbudget with hless
  rw [hdeadline] at hbudget hless hleast ⊢
  unfold since maxDuration defaultTransportMargin second at *
  have hremaining : int64 (req.limits.seconds * 1000000000 - min (w.elapsed attempt : ℤ) (2 ^ 63 - 1)) =
      req.limits.seconds * 1000000000 - min (w.elapsed attempt : ℤ) (2 ^ 63 - 1) :=
    int64_of_fits (by omega) (by omega)
  rw [hremaining] at hbudget hless
  have hshort : (w.elapsed attempt : ℤ) < 2 ^ 63 - 1 := by omega
  rw [min_eq_left hshort.le] at hbudget hless
  refine ⟨not_lt.mp hless, ?_⟩
  rw [← Option.some.inj hbudget]
  exact int64_of_fits (by omega) (by omega)

theorem executeTask_passes (h : w.Passes e req) : executeTask e req w =
    loop e req w (int64 (e.maxRetries.toInt + 1)).toNat 0 (start e req.limits) := by
  obtain ⟨address, hagent⟩ := h.agent
  have hhealthy : dispatchHealthy e req w =
      loop e req w (int64 (e.maxRetries.toInt + 1)).toNat 0 (start e req.limits) := by
    rw [dispatchHealthy, hagent]
    exact if_pos rfl
  unfold executeTask
  split_ifs with hcache
  · rw [h.cached hcache]
    exact hhealthy
  · exact hhealthy

theorem respects_of_sound (hretries : 0 ≤ e.maxRetries.toInt) (hsound : Sound e req.limits)
    (hvalid : w.Valid) (hpasses : w.Passes e req) :
    Respects e req.limits (executeTask e req w) := by
  obtain ⟨n, hn⟩ := Int.eq_ofNat_of_zero_le hretries
  have hlimit := hsound.retries
  have hturns : (int64 (e.maxRetries.toInt + 1)).toNat = n + 1 := by
    rw [int64_of_fits (by omega) (by omega)]
    omega
  rw [executeTask_passes w hpasses, hturns]
  obtain ⟨rest, hfirst⟩ := loop_dispatches e req w n (start e req.limits)
  refine ⟨?_, ?_, transient_loop e req w _ _ _, ?_, ?_, ?_, ?_⟩
  · rw [hfirst]
    exact List.cons_ne_nil _ _
  · have hlength := length_loop e req w (n + 1) 0 (start e req.limits)
    omega
  · intro d hlast
    have hanswer := answer_loop e req w (n + 1) 0 (start e req.limits)
    rwa [hlast] at hanswer
  · intro k pause hpause
    obtain ⟨rfl, hk⟩ := pauses_loop e req w (start e req.limits) (by push_cast; omega) hpause
    rw [Nat.zero_add]
    exact delay_bounds (by omega) (hvalid.draws k) (hvalid.jitters k).1 (hvalid.jitters k).2
  · intro hderived d hd
    have hfits := hsound.margin hderived
    have hpos := hderived.seconds_pos
    obtain ⟨k, hk⟩ := List.mem_iff_getElem?.mp hd
    obtain ⟨helapsed, timeout, hzero, hbudget⟩ := timeouts_loop e req w (start e req.limits) hk
    rw [Nat.zero_add] at helapsed hbudget
    have hleast := (minimum_stepDeadline w.misfit hderived hfits).1
    cases k with
    | zero =>
      have hgiven : d.timeout = (req.limits.seconds + defaultTransportMargin) * second := by
        have hsame : timeBudget e req w 0 timeout = some timeout := by simp [timeBudget]
        rw [← Option.some.inj (hsame.symm.trans hbudget), hzero rfl]
        exact dispatchTimeout_eq hderived hfits
      rw [hgiven]
      unfold defaultTransportMargin second
      omega
    | succ k =>
      have hgiven := timeBudget_some w hderived hfits (by omega) hbudget
      rw [helapsed, hgiven.2]
      unfold defaultTransportMargin second at *
      omega
  · intro hderived d hd
    have hfits := hsound.margin hderived
    obtain ⟨k, hk⟩ := List.mem_iff_getElem?.mp hd
    rw [List.getElem?_tail] at hk
    obtain ⟨helapsed, timeout, -, hbudget⟩ := timeouts_loop e req w (start e req.limits) hk
    rw [Nat.zero_add] at helapsed hbudget
    have hmany : 0 < e.maxRetries.toInt := by
      have hlength := length_loop e req w (n + 1) 0 (start e req.limits)
      have hindex := (List.getElem?_eq_some_iff.mp hk).1
      omega
    have hquarter := (minimum_stepDeadline w.misfit hderived hfits).2.2.mpr
      (hsound.fraction hderived hmany)
    have hgiven := (timeBudget_some w hderived hfits (by omega) hbudget).1
    have hfour : req.limits.seconds * second ≤
        4 * (req.limits.seconds * second - d.elapsed) := by
      rw [helapsed]
      omega
    have hcast : ((req.limits.seconds * second : ℤ) : ℚ) ≤
        4 * ((req.limits.seconds * second - d.elapsed : ℤ) : ℚ) := by exact_mod_cast hfour
    rw [minRetryBudgetFraction]
    linarith

/-! ### Runs that show the limits -/

/-- The least part of a positive budget is no more than the budget. -/
theorem minimum_le (misfit : ℚ → ℤ) {budget : ℤ} (hpos : 0 < budget) (hfits : budget < 2 ^ 63) :
    minimum misfit budget ≤ budget := by
  have hcast : (1 : ℚ) ≤ budget := by exact_mod_cast hpos
  have hround := roundedAbs_near (q := budget) (by linarith)
  have hbudget : rounded budget = roundedAbs budget := rounded_of_nonneg (by linarith)
  set quarter : ℚ := roundedAbs budget * (1 / 4) with hquarter
  have hnear := roundedAbs_near (q := quarter) (by linarith)
  have hrounded : rounded quarter = roundedAbs quarter := rounded_of_nonneg (by linarith)
  have hnonneg : 0 ≤ rounded quarter := by linarith
  have hfloor : ⌊rounded quarter⌋ ≤ budget := by
    have hle : ((⌊rounded quarter⌋ : ℤ) : ℚ) ≤ budget := (Int.floor_le _).trans (by linarith)
    exact_mod_cast hle
  have hfloor' : 0 ≤ ⌊rounded quarter⌋ := Int.floor_nonneg.mpr hnonneg
  rw [minimum, hbudget, minRetryBudgetFraction, ← hquarter, toInt64_of_fits] <;>
    rw [truncate_of_nonneg hnonneg]
  · exact hfloor
  · omega
  · omega

/-- Each attempt is answered that the agent is busy. -/
def World.busy (elapsed : ℕ → ℕ) : World where
  cached := none
  lookup := .agent .healthy []
  newId := []
  outcome _ := .failed none (.status unavailable []) 0
  elapsed := elapsed
  draw _ := 0
  misfit _ := 0

theorem jitter_zero : jitter 0 = 3 / 4 := by
  have hzero : rounded (0 * (1 / 2)) = 0 := by simp [rounded, roundedAbs]
  have hfits := rounded_of_fits (m := 3) (e := -2) (by norm_num) (by norm_num)
  rw [jitter, hzero]
  norm_num at hfits ⊢
  exact hfits

theorem World.busy_valid {elapsed : ℕ → ℕ} (h : Monotone elapsed) : (busy elapsed).Valid where
  clock := h
  draws _ := le_rfl
  jitters _ := by
    change 3 / 4 ≤ jitter 0 ∧ jitter 0 < 5 / 4
    rw [jitter_zero]
    norm_num

theorem World.busy_passes {elapsed : ℕ → ℕ} : (busy elapsed).Passes e req :=
  ⟨fun _ => rfl, [], rfl⟩

theorem tokenBudget_zero (w : World) (attempt : ℕ) : tokenBudget e req w attempt 0 = true := by
  rw [tokenBudget, sub_zero]
  by_cases hpos : 0 < req.limits.maxTokens
  · have hvalue : int64 req.limits.maxTokens.toInt = req.limits.maxTokens.toInt :=
      int64_of_fits (Int64.le_toInt _) (Int64.toInt_lt _)
    have hle := minimum_le w.misfit (Int64.lt_iff_toInt_lt.mp hpos) (Int64.toInt_lt _)
    rw [hvalue, decide_eq_false (not_lt.mpr hle), Bool.and_false]
    rfl
  · rw [decide_eq_false hpos, Bool.and_false, Bool.false_and]
    rfl

/-- An attempt for which there is time is made. -/
theorem loop_admitted (turns : ℕ) {attempt : ℕ} {s : LoopState} {timeout : ℤ}
    (htokens : s.cumulativeTokens = 0)
    (htime : timeBudget e req w attempt s.dispatchTimeout = some timeout) :
    ∃ d tail, (loop e req w (turns + 1) attempt s).dispatches = d :: tail ∧
      d.elapsed = w.elapsed attempt := by
  have hturn := loop_turn e req w turns attempt s
  generalize loop e req w (turns + 1) attempt s = run at hturn ⊢
  cases hturn with
  | stopped h => simp [htime, htokens, tokenBudget_zero] at h
  | completed => exact ⟨_, _, rfl, rfl⟩
  | permanent => exact ⟨_, _, rfl, rfl⟩
  | last => exact ⟨_, _, rfl, rfl⟩
  | retried => exact ⟨_, _, rfl, rfl⟩

/-- As long as there is time, a busy agent is asked again. -/
theorem loop_busy {elapsed : ℕ → ℕ} (turns : ℕ) {attempt : ℕ} {s : LoopState} {timeout : ℤ}
    (htokens : s.cumulativeTokens = 0) (hmore : (attempt : ℤ) ≠ e.maxRetries.toInt)
    (htime : timeBudget e req (.busy elapsed) attempt s.dispatchTimeout = some timeout) :
    ∃ s', s'.cumulativeTokens = 0 ∧ loop e req (.busy elapsed) (turns + 1) attempt s =
      { loop e req (.busy elapsed) turns (attempt + 1) s' with
        dispatches := ⟨timeout, elapsed attempt, .failed none (.status unavailable []) 0⟩ ::
          (loop e req (.busy elapsed) turns (attempt + 1) s').dispatches
        pauses := delay (fun _ => 0) 0 attempt ::
          (loop e req (.busy elapsed) turns (attempt + 1) s').pauses } := by
  refine ⟨s.failed e timeout none (.status unavailable []) 0, ?_, ?_⟩
  · unfold LoopState.failed
    dsimp only
    rw [htokens]
    split_ifs <;> rfl
  · rw [loop, htime]
    dsimp only
    rw [htokens, tokenBudget_zero, if_pos rfl]
    dsimp only [World.busy]
    rw [if_neg (by decide), if_neg hmore]

/-- With the least time left there is time for an attempt. -/
theorem timeBudget_isSome (attempt : ℕ) (timeout : ℤ)
    (hfits : Derived e req.limits →
      (req.limits.seconds + defaultTransportMargin) * second < 2 ^ 63)
    (htime : Derived e req.limits → minimum w.misfit (stepDeadline e req.limits) ≤
      req.limits.seconds * second - w.elapsed attempt) :
    ∃ given, timeBudget e req w attempt timeout = some given := by
  unfold timeBudget
  split_ifs with hretry
  · have hderived : Derived e req.limits := ⟨hretry.1, hretry.2.2⟩
    have hpos := hderived.seconds_pos
    have hfits := hfits hderived
    have htime := htime hderived
    have hleast := (minimum_stepDeadline w.misfit hderived hfits).1
    have hdeadline := stepDeadline_eq hderived
      (by unfold defaultTransportMargin second at hfits; unfold second; omega)
    unfold since maxDuration defaultTransportMargin second at *
    have hshort : (w.elapsed attempt : ℤ) ≤ 2 ^ 63 - 1 := by omega
    dsimp only
    rw [hdeadline, min_eq_left hshort, int64_of_fits (by omega) (by omega), ← hdeadline,
      if_neg (not_lt.mpr (by omega))]
    exact ⟨_, rfl⟩
  · exact ⟨_, rfl⟩

theorem pauses_busy (hfits : Derived e req.limits →
      (req.limits.seconds + defaultTransportMargin) * second < 2 ^ 63) {j : ℕ} {turns attempt : ℕ}
    {s : LoopState} (htokens : s.cumulativeTokens = 0)
    (hturns : (turns + attempt : ℤ) = e.maxRetries.toInt + 1)
    (hj : (attempt + j : ℤ) < e.maxRetries.toInt) :
    (loop e req (.busy fun _ => 0) turns attempt s).pauses[j]? =
      some (delay (fun _ => 0) 0 (attempt + j)) := by
  induction turns generalizing attempt s j with
  | zero => omega
  | succ turns ih =>
    obtain ⟨timeout, htime⟩ := timeBudget_isSome (e := e) (.busy fun _ => 0) attempt
      s.dispatchTimeout hfits fun hderived => by
        have hle := (minimum_stepDeadline (World.busy fun _ => 0).misfit hderived
          (hfits hderived)).2.1
        simpa [World.busy] using hle
    obtain ⟨s', hs', hloop⟩ := loop_busy turns htokens (by omega) htime
    rw [hloop]
    cases j with
    | zero => rfl
    | succ j =>
      have hrest : (loop e req (.busy fun _ => 0) turns (attempt + 1) s').pauses[j]? =
          some (delay (fun _ => 0) 0 (attempt + 1 + j)) :=
        ih hs' (by push_cast at hturns ⊢; omega) (by push_cast at hj ⊢; omega)
      rw [List.getElem?_cons_succ, hrest, Nat.add_right_comm, Nat.add_assoc]

theorem margin_of_respects
    (h : ∀ w : World, w.Valid → w.Passes e req → Respects e req.limits (executeTask e req w))
    (hderived : Derived e req.limits) :
    (req.limits.seconds + defaultTransportMargin) * second < 2 ^ 63 := by
  have hrespects := h (.busy fun _ => 0) (World.busy_valid monotone_const) World.busy_passes
  rw [executeTask_passes _ World.busy_passes] at hrespects
  cases hturns : (int64 (e.maxRetries.toInt + 1)).toNat with
  | zero =>
    rw [hturns] at hrespects
    exact (hrespects.dispatched rfl).elim
  | succ n =>
    rw [hturns] at hrespects
    obtain ⟨rest, hfirst⟩ := loop_dispatches e req (.busy fun _ => 0) n (start e req.limits)
    have htimeout := hrespects.timeouts hderived _ (hfirst ▸ List.mem_cons_self)
    have hpos := hderived.seconds_pos
    have hvalue : (start e req.limits).dispatchTimeout =
        int64 ((req.limits.seconds + defaultTransportMargin) * second) := by
      change dispatchTimeout e req.limits = _
      rw [dispatchTimeout, if_pos ⟨hderived.1, hderived.2⟩, stepDeadline,
        if_pos ⟨hderived.1, hderived.2⟩, int64_add, add_mul]
      rfl
    have hrange := int64_range ((req.limits.seconds + defaultTransportMargin) * second)
    dsimp only [World.busy] at htimeout
    rw [hvalue] at htimeout
    by_contra hbig
    unfold defaultTransportMargin second at *
    have hwrapped : int64 ((req.limits.seconds + 5) * 1000000000) =
        (req.limits.seconds + 5) * 1000000000 - 2 ^ 64 := by
      have hturned : int64 ((req.limits.seconds + 5) * 1000000000 - 2 ^ 64) =
          int64 ((req.limits.seconds + 5) * 1000000000) := Int.sub_bmod_right _ (2 ^ 64)
      rw [← hturned]
      exact int64_of_fits (by omega) (by omega)
    omega

theorem retries_of_respects (hretries : 0 ≤ e.maxRetries.toInt)
    (h : ∀ w : World, w.Valid → w.Passes e req → Respects e req.limits (executeTask e req w)) :
    e.maxRetries.toInt ≤ 37 := by
  have hrespects := h (.busy fun _ => 0) (World.busy_valid monotone_const) World.busy_passes
  rw [executeTask_passes _ World.busy_passes] at hrespects
  have hrange := Int64.toInt_lt e.maxRetries
  by_contra hmany
  by_cases hwrap : e.maxRetries.toInt = 2 ^ 63 - 1
  · rw [hwrap] at hrespects
    exact hrespects.dispatched rfl
  · have hturns : int64 (e.maxRetries.toInt + 1) = e.maxRetries.toInt + 1 :=
      int64_of_fits (by omega) (by omega)
    have hpause : (loop e req (.busy fun _ => 0) (int64 (e.maxRetries.toInt + 1)).toNat 0
        (start e req.limits)).pauses[37]? = some (delay (fun _ => 0) 0 (0 + 37)) :=
      pauses_busy (margin_of_respects h) rfl (by rw [hturns]; omega) (by omega)
    have hlow := (hrespects.pauses 37 _ hpause).1
    have hhigh := toInt64_lt (fun _ => 0) (rounded (rounded (base (0 + 37)) * jitter 0))
    unfold delay millisecond at hlow
    omega

theorem fraction_of_respects (hretries : 0 ≤ e.maxRetries.toInt)
    (h : ∀ w : World, w.Valid → w.Passes e req → Respects e req.limits (executeTask e req w))
    (hderived : Derived e req.limits) (hmany : 0 < e.maxRetries.toInt) :
    req.limits.seconds ≤ 4611686018 ∨ req.limits.seconds % 4 ≠ 1 := by
  have hfits := margin_of_respects h hderived
  have hfew := retries_of_respects hretries h
  have hleast := minimum_stepDeadline (fun _ => 0) hderived hfits
  rw [← hleast.2.2]
  set least := minimum (fun _ => 0) (stepDeadline e req.limits) with hleast'
  let elapsed : ℕ → ℕ := fun k => if k = 0 then 0 else (req.limits.seconds * second - least).toNat
  have hclock : Monotone elapsed := by
    intro i j hij
    dsimp only [elapsed]
    split_ifs <;> omega
  have hrespects := h (.busy elapsed) (World.busy_valid hclock) World.busy_passes
  have hturns : (int64 (e.maxRetries.toInt + 1)).toNat = (e.maxRetries.toInt - 1).toNat + 1 + 1 := by
    rw [int64_of_fits (by omega) (by omega)]
    omega
  rw [executeTask_passes _ World.busy_passes, hturns] at hrespects
  obtain ⟨timeout, htime⟩ := timeBudget_isSome (e := e) (.busy elapsed) 0
    (start e req.limits).dispatchTimeout (fun _ => hfits) fun _ => by
      simpa [World.busy, elapsed] using hleast.2.1
  obtain ⟨s', hs', hloop⟩ := loop_busy ((e.maxRetries.toInt - 1).toNat + 1)
    (s := start e req.limits) rfl (by omega) htime
  obtain ⟨timeout', htime'⟩ := timeBudget_isSome (e := e) (.busy elapsed) 1 s'.dispatchTimeout
    (fun _ => hfits) fun _ => by
      have hshort : (((req.limits.seconds * second - least).toNat : ℕ) : ℤ) =
          req.limits.seconds * second - least := Int.toNat_of_nonneg (by omega)
      change least ≤ _ - ((req.limits.seconds * second - least).toNat : ℤ)
      omega
  obtain ⟨d, tail, htail, helapsed⟩ := loop_admitted (.busy elapsed)
    (e.maxRetries.toInt - 1).toNat hs' htime'
  have hbudget := hrespects.budget hderived d (by
    rw [hloop]
    dsimp only [List.tail_cons]
    rw [Nat.zero_add, htail]
    exact List.mem_cons_self)
  rw [helapsed, minRetryBudgetFraction] at hbudget
  have hquarter : (1 / 4 : ℚ) * ((req.limits.seconds * second : ℤ) : ℚ) ≤ (least : ℤ) := by
    refine hbudget.trans ?_
    have hleft : req.limits.seconds * second - ((World.busy elapsed).elapsed 1 : ℤ) ≤ least := by
      change _ - ((req.limits.seconds * second - least).toNat : ℤ) ≤ least
      omega
    exact_mod_cast hleft
  have hfour : ((req.limits.seconds * second : ℤ) : ℚ) ≤ ((4 * least : ℤ) : ℚ) := by
    push_cast at hquarter ⊢
    linarith
  exact_mod_cast hfour

theorem executeTask_respects_iff (e : GRPCExecutor) (n : Int64) (req : ExecuteRequest) :
    (∀ w : World, w.Valid → w.Passes (withMaxRetries n e) req →
      Respects (withMaxRetries n e) req.limits (executeTask (withMaxRetries n e) req w)) ↔
      Sound (withMaxRetries n e) req.limits := by
  have hretries : 0 ≤ (withMaxRetries n e).maxRetries.toInt := by
    unfold withMaxRetries
    dsimp only
    split_ifs with hneg
    · exact le_rfl
    · exact not_lt.mp fun hlt => hneg (Int64.lt_iff_toInt_lt.mpr hlt)
  constructor
  · intro h
    exact ⟨retries_of_respects hretries h, margin_of_respects h,
      fraction_of_respects hretries h⟩
  · intro hsound w hvalid hpasses
    exact respects_of_sound w hretries hsound hvalid hpasses

end

/-- What `NewGRPCExecutor` makes without options. -/
def newGRPCExecutor : GRPCExecutor where
  timeout := 30000000000
  maxRetries := 3
  deadlineMode := .static
  caches := false

/-- One retry more than the largest `int` is none. -/
theorem executeTask_undispatched :
    ∃ (req : ExecuteRequest) (w : World), w.Valid ∧
      w.Passes (withMaxRetries Int64.maxValue newGRPCExecutor) req ∧
      (executeTask (withMaxRetries Int64.maxValue newGRPCExecutor) req w).dispatches = [] := by
  refine ⟨⟨[], [], [], [], [], ⟨5, 8192, 60⟩, false⟩, .busy fun _ => 0,
    World.busy_valid monotone_const, World.busy_passes, ?_⟩
  rw [executeTask_passes _ World.busy_passes]
  rfl

end Persatrix.Executor
