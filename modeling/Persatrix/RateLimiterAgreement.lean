import Persatrix.RateLimiterRefinement

/-!
# When the rate limiter agrees with its reference

The limiter answers every sequence of calls as the reference does for the window that
its arithmetic makes of the configured number of seconds. That is the configured window
as long as it fits the nanoseconds of a duration; a longer one wraps, and the limiter
forgets admissions that are still inside the configured window.
-/
namespace Persatrix.Security

namespace AgentTable
variable {capacity : ℕ}

theorem history_put (hpos : 0 < capacity) (r : AgentTable capacity) (agent : String)
    (history : List ℤ) : AgentTable.history (r.put hpos agent history ()) agent = history := by
  obtain ⟨rest, hput⟩ := r.put_entries hpos agent
  have hfind : (r.put hpos agent history ()).find agent = some ⟨agent, history, (), r.uses⟩ := by
    rw [Recency.find, hput]
    exact List.find?_cons_of_pos (decide_eq_true rfl)
  rw [AgentTable.history, hfind]

/-- One call of the reference. -/
def call (hpos : 0 < capacity) (cfg : RateLimitConfig) (window : ℤ) (r : AgentTable capacity) :
    LimiterCall → AgentTable capacity × LimiterAnswer
  | .allow agentID now =>
    let agent := if agentID = "" then cfg.unauthenticatedID else agentID
    let (r, allowed, evicted) := r.allow hpos cfg.callsPerWindow window agent now
    (r, .decision allowed evicted)
  | .reset agentID _ _ =>
    let agent := if agentID = "" then cfg.unauthenticatedID else agentID
    let (r, tracked) := r.reset agent
    (r, .reset tracked)

def run (hpos : 0 < capacity) (cfg : RateLimitConfig) (window : ℤ) (calls : List LimiterCall) :
    AgentTable capacity × List LimiterAnswer :=
  calls.foldl (fun (r, answers) c =>
    let (r, a) := r.call hpos cfg window c
    (r, answers ++ [a])) (Recency.empty, [])

theorem run_concat (hpos : 0 < capacity) (cfg : RateLimitConfig) (window : ℤ)
    (calls : List LimiterCall) (c : LimiterCall) :
    run hpos cfg window (calls ++ [c]) =
      (((run hpos cfg window calls).1.call hpos cfg window c).1,
        (run hpos cfg window calls).2 ++ [((run hpos cfg window calls).1.call hpos cfg window c).2]) := by
  rw [run, List.foldl_concat]
  rfl

end AgentTable

namespace RateLimiter

def capacity (rl : RateLimiter) : ℕ := rl.cfg.maxTrackedAgents.toNat

theorem capacity_pos (rl : RateLimiter) : 0 < rl.capacity := Int.pos_iff_toNat_pos.mp rl.tracked

theorem capacity_eq (rl : RateLimiter) : rl.cfg.maxTrackedAgents = rl.capacity :=
  (Int.toNat_of_nonneg rl.tracked.le).symm

/-- The reference for the given window, with the limiter's limits. -/
def reference (rl : RateLimiter) (window : ℤ) (calls : List LimiterCall) :
    AgentTable rl.capacity × List LimiterAnswer :=
  AgentTable.run rl.capacity_pos rl.cfg window calls

/-- Once the expired times are dropped, the ring that a call of the agent uses holds the
times in the window, and the slot that is written next is none of theirs. -/
def RingExact (rl : RateLimiter) (window now : ℤ) (agent : String) (history : List ℤ) : Prop :=
  ∀ (h : 0 < rl.cfg.callsPerWindow) after elem evicted,
    rl.touchRingLocked h agent = some (after, elem, evicted) →
    let ring := ((after.element elem).evictOlderThan (rl.cutoff now)).calls
    ring.live = inWindow window now history ∧
      (ring.count < rl.cfg.callsPerWindow → ∀ i < ring.count, ring.slot i ≠ ring.head)

/-- Every sequence of calls on a clock that never goes back is answered as the reference
answers it, and leaves exact rings. -/
def Agrees (rl : RateLimiter) (window : ℤ) : Prop :=
  ∀ calls : List LimiterCall, calls.Pairwise (fun a b => a.now ≤ b.now) →
    ∃ after, rl.run calls = some (after, (rl.reference window calls).2) ∧
      ∀ agentID now, (∀ c ∈ calls, c.now ≤ now) →
        after.RingExact window now (rl.resolveAgentID agentID).1
          ((rl.reference window calls).1.history (rl.resolveAgentID agentID).1)

end RateLimiter

namespace Represents
variable {limit capacity : ℕ} {window now : ℤ} {rl : RateLimiter} {r : AgentTable capacity}

theorem call (h : Represents limit window now rl r.entries) (hpos : 0 < capacity)
    (hcap : rl.cfg.maxTrackedAgents = capacity) (henabled : rl.cfg.enabled)
    (hcutoff : rl.cutoff now = now - window) {c : LimiterCall} (hnow : c.now = now) :
    ∃ after, rl.call c = some (after, (r.call hpos rl.cfg window c).2) ∧ after.cfg = rl.cfg ∧
      Represents limit window now after (r.call hpos rl.cfg window c).1.entries := by
  have hname : ∀ id, (rl.resolveAgentID id).1 =
      if id = "" then rl.cfg.unauthenticatedID else id := by
    intro id
    unfold RateLimiter.resolveAgentID
    split_ifs <;> rfl
  cases c with
  | allow agentID t =>
    subst hnow
    obtain ⟨after, events, hallow, hevicted, hcfg, hafter⟩ :=
      h.allow hpos hcap henabled hcutoff agentID
    rw [hname] at hallow hevicted hafter
    refine ⟨after, ?_, hcfg, hafter⟩
    change (rl.allow agentID t).map _ = _
    rw [show (LimiterCall.allow agentID t).now = t from rfl] at hallow
    rw [hallow, Option.map_some]
    dsimp only
    rw [hevicted]
    rfl
  | reset agentID actor t =>
    subst hnow
    obtain ⟨htracked, hcfg, hafter⟩ := h.reset agentID actor
    rw [hname] at htracked hafter
    refine ⟨_, ?_, hcfg, hafter⟩
    change some ((rl.reset agentID actor t).1, LimiterAnswer.reset (rl.reset agentID actor t).2.1) = _
    rw [show (rl.reset agentID actor t).2.1 = _ from htracked]
    rfl

theorem ringExact (h : Represents limit window now rl r.entries) (hpos : 0 < capacity)
    (hcap : rl.cfg.maxTrackedAgents = capacity) (hcutoff : rl.cutoff now = now - window)
    {agent : String} (hagent : agent ≠ "") : rl.RingExact window now agent (r.history agent) := by
  intro hcalls after elem evicted htouch
  obtain ⟨touched, elem', heq, hcfg, helem, hname, htouched⟩ := h.touch hpos hcap hcalls hagent
  rw [htouch] at heq
  cases heq
  obtain ⟨rest, hput⟩ := r.put_entries hpos agent
  rw [hput] at htouched
  have htracks := htouched.tracks elem helem _ List.mem_cons_self hname.symm
  rw [hcutoff]
  refine ⟨htracks.evict.1, ?_⟩
  intro hroom i hi
  apply RingBuffer.slot_ne_head _ hi
  rw [htracks.evict.2.capacity]
  rw [h.limit_eq] at hroom
  exact_mod_cast hroom

end Represents

namespace RateLimiter
variable {rl : RateLimiter} {window : ℤ}

theorem run_concat (calls : List LimiterCall) (c : LimiterCall) :
    rl.run (calls ++ [c]) = (rl.run calls).bind fun (rl, answers) =>
      (rl.call c).map fun (rl, a) => (rl, answers ++ [a]) := by
  simp [run]

theorem reference_concat (calls : List LimiterCall) (c : LimiterCall) :
    rl.reference window (calls ++ [c]) =
      let answered := (rl.reference window calls).1.call rl.capacity_pos rl.cfg window c
      (answered.1, (rl.reference window calls).2 ++ [answered.2]) :=
  AgentTable.run_concat rl.capacity_pos rl.cfg window calls c

/-- The whole sequence of calls, by induction on its last call. -/
theorem represents_run (hempty : rl.rings = ∅ ∧ rl.lru = []) (henabled : rl.cfg.enabled)
    (hcutoff : ∀ now, rl.cutoff now = now - window) (calls : List LimiterCall)
    (hclock : calls.Pairwise fun a b => a.now ≤ b.now) :
    ∃ after, rl.run calls = some (after, (rl.reference window calls).2) ∧ after.cfg = rl.cfg ∧
      ∀ now, (∀ c ∈ calls, c.now ≤ now) →
        Represents rl.cfg.callsPerWindow.toNat window now after
          (rl.reference window calls).1.entries := by
  induction calls using List.reverseRecOn with
  | nil =>
    refine ⟨rl, rfl, rfl, ?_⟩
    intro now _
    constructor
    · rw [hempty.1, hempty.2]
      exact Indexed.empty _ _
    · rw [hempty.2]
      rfl
    · rw [hempty.2]
      intro a ha
      cases ha
    · intro e he
      cases he
    · exact (Int.toNat_of_nonneg (rl.limits henabled).1.le).symm
  | append_singleton calls c ih =>
    obtain ⟨hbefore, -, hlast⟩ := List.pairwise_append.mp hclock
    obtain ⟨before, hrun, hcfg, hrepresents⟩ := ih hbefore
    have hnow := hrepresents c.now fun d hd => hlast d hd c (List.mem_singleton_self c)
    have hcut : before.cutoff c.now = c.now - window := by
      rw [← hcutoff, cutoff, cutoff, hcfg]
    have hcap : before.cfg.maxTrackedAgents = rl.capacity := by rw [hcfg, capacity_eq]
    have hon : before.cfg.enabled := by rwa [hcfg]
    obtain ⟨after, hcall, hcfg', hafter⟩ := hnow.call rl.capacity_pos hcap hon hcut rfl
    rw [hcfg] at hcall hafter
    refine ⟨after, ?_, hcfg'.trans hcfg, ?_⟩
    · rw [run_concat, hrun, reference_concat, Option.bind_some]
      dsimp only
      rw [hcall]
      rfl
    · intro now hall
      rw [reference_concat]
      exact hafter.mono (hall c (by simp))

/-- The limiter agrees with the reference for the window its arithmetic makes. -/
theorem agrees_of_cutoff (hempty : rl.rings = ∅ ∧ rl.lru = []) (henabled : rl.cfg.enabled)
    (hcutoff : ∀ now, rl.cutoff now = now - window) : rl.Agrees window := by
  intro calls hclock
  obtain ⟨after, hrun, hcfg, hrepresents⟩ := represents_run hempty henabled hcutoff calls hclock
  refine ⟨after, hrun, ?_⟩
  intro agentID now hnow
  have hagent : (rl.resolveAgentID agentID).1 ≠ "" := by
    unfold resolveAgentID
    split_ifs with hname
    · exact rl.bucket
    · exact hname
  apply (hrepresents now hnow).ringExact rl.capacity_pos (by rw [hcfg, capacity_eq]) _ hagent
  rw [← hcutoff, cutoff, cutoff, hcfg]

/-- As many calls as a window admits, at one moment, are all in the history. -/
theorem reference_burst (rl : RateLimiter) (window : ℤ) {k : ℕ}
    (hk : k ≤ rl.cfg.callsPerWindow) :
    (rl.reference window (List.replicate k (.allow "a" 0))).1.history "a" =
      List.replicate k 0 := by
  induction k with
  | zero => rfl
  | succ k ih =>
    have hroom : (k : ℤ) < rl.cfg.callsPerWindow := by
      push_cast at hk
      omega
    have hhistory := ih hroom.le
    rw [List.replicate_succ', reference_concat, List.replicate_succ']
    generalize rl.reference window (List.replicate k (.allow "a" 0)) = before at hhistory
    have hcount : ((inWindow window 0 (List.replicate k 0)).length : ℤ) <
        rl.cfg.callsPerWindow := by
      have hlength := List.length_filter_le (fun t => 0 - window < t) (List.replicate k 0)
      rw [List.length_replicate] at hlength
      unfold inWindow
      omega
    change AgentTable.history (before.1.put rl.capacity_pos "a" (if decide ((inWindow window 0
      (before.1.history "a")).length < rl.cfg.callsPerWindow) then before.1.history "a" ++ [0]
      else before.1.history "a") ()) "a" = _
    rw [AgentTable.history_put, hhistory, decide_eq_true hcount]
    rfl

/-- The answer to one more call after the burst. -/
theorem reference_after_burst (window : ℤ) (henabled : rl.cfg.enabled) (now : ℤ) :
    ∃ evicted, (rl.reference window (List.replicate rl.cfg.callsPerWindow.toNat (.allow "a" 0) ++
      [.allow "a" now])).2.getLast? = some (.decision (decide (now - window ≥ 0)) evicted) := by
  have hpos := (rl.limits henabled).1
  have hnat : (rl.cfg.callsPerWindow.toNat : ℤ) = rl.cfg.callsPerWindow :=
    Int.toNat_of_nonneg hpos.le
  have hhistory := rl.reference_burst window hnat.le
  rw [reference_concat]
  dsimp only
  rw [List.getLast?_concat]
  generalize rl.reference window (List.replicate rl.cfg.callsPerWindow.toNat (.allow "a" 0)) =
    before at hhistory
  refine ⟨before.1.evicted "a", ?_⟩
  change some (LimiterAnswer.decision (decide ((inWindow window now
    (before.1.history "a")).length < rl.cfg.callsPerWindow)) _) = _
  rw [hhistory]
  congr 3
  apply propext
  by_cases hold : now - window < 0
  · have hall : inWindow window now (List.replicate rl.cfg.callsPerWindow.toNat 0) =
        List.replicate rl.cfg.callsPerWindow.toNat 0 := by
      apply List.filter_eq_self.mpr
      intro t ht
      rw [List.eq_of_mem_replicate ht]
      exact decide_eq_true hold
    rw [hall, List.length_replicate]
    omega
  · have hnone : inWindow window now (List.replicate rl.cfg.callsPerWindow.toNat 0) = [] := by
      apply List.filter_eq_nil_iff.mpr
      intro t ht
      rw [List.eq_of_mem_replicate ht]
      simpa using hold
    rw [hnone]
    simp
    omega

/-- What the arithmetic of the code makes of the window. -/
def wrappedWindow (rl : RateLimiter) : ℤ := -int64 (int64 (-rl.cfg.windowSeconds) * second)

theorem cutoff_eq (rl : RateLimiter) (now : ℤ) : rl.cutoff now = now - rl.wrappedWindow := by
  unfold cutoff wrappedWindow
  omega

/-- A window that fits a duration is what the configuration says. -/
theorem wrappedWindow_of_fits (hpos : 0 < rl.cfg.windowSeconds)
    (hfits : rl.cfg.windowSeconds * second < 2 ^ 63) :
    rl.wrappedWindow = rl.cfg.windowSeconds * second := by
  unfold wrappedWindow second at *
  rw [int64_of_fits (n := -rl.cfg.windowSeconds) (by omega) (by omega), int64_of_fits (by omega)
    (by omega)]
  omega

/-- When the window does not fit, the limiter admits a call that the reference denies. -/
theorem not_agrees_of_wraps (hempty : rl.rings = ∅ ∧ rl.lru = []) (henabled : rl.cfg.enabled)
    (hwraps : 2 ^ 63 ≤ rl.cfg.windowSeconds * second) :
    ¬ rl.Agrees (rl.cfg.windowSeconds * second) := by
  intro hagrees
  let now := max 0 rl.wrappedWindow
  let calls := List.replicate rl.cfg.callsPerWindow.toNat (LimiterCall.allow "a" 0) ++
    [.allow "a" now]
  have hclock : calls.Pairwise fun a b => a.now ≤ b.now := by
    apply List.pairwise_append.mpr
    refine ⟨List.pairwise_replicate.mpr (.inr le_rfl), List.pairwise_singleton _ _, ?_⟩
    intro a ha b hb
    rw [List.eq_of_mem_replicate ha, List.mem_singleton.mp hb]
    exact le_max_left 0 _
  obtain ⟨_, hrun, -⟩ := hagrees calls hclock
  obtain ⟨_, hrun', -⟩ := agrees_of_cutoff hempty henabled rl.cutoff_eq calls hclock
  rw [hrun] at hrun'
  have hanswers := congrArg List.getLast? (congrArg Prod.snd (Option.some.inj hrun'))
  obtain ⟨evicted, hdenied⟩ :=
    reference_after_burst (rl.cfg.windowSeconds * second) henabled now
  obtain ⟨evicted', hadmitted⟩ := reference_after_burst rl.wrappedWindow henabled now
  dsimp only at hanswers
  rw [hdenied, hadmitted, decide_eq_true (p := now - rl.wrappedWindow ≥ 0)
    (by have := le_max_right 0 rl.wrappedWindow; omega)] at hanswers
  have hreached : now - rl.cfg.windowSeconds * second ≥ 0 := by
    injection Option.some.inj hanswers with hallowed
    exact of_decide_eq_true hallowed
  have hrange := int64_range (int64 (-rl.cfg.windowSeconds) * second)
  have hbound : now ≤ 2 ^ 63 := by
    apply max_le (by decide)
    unfold wrappedWindow
    omega
  unfold second at hwraps hreached
  omega

/-- On every clock that never goes back the limiter answers as the reference of complete
histories does, with exact rings, if and only if the window fits the nanoseconds of a
duration. -/
theorem agrees_iff_window_fits {cfg : RateLimitConfig} (hnew : newRateLimiter cfg = .ok rl)
    (henabled : cfg.enabled) :
    rl.Agrees (cfg.windowSeconds * second) ↔ cfg.windowSeconds * second < 2 ^ 63 := by
  have hcfg : rl.cfg = cfg.withDefaults ∧ rl.rings = ∅ ∧ rl.lru = [] := by
    unfold newRateLimiter at hnew
    split_ifs at hnew
    cases hnew
    exact ⟨rfl, rfl, rfl⟩
  have hseconds : rl.cfg.windowSeconds = cfg.windowSeconds := by rw [hcfg.1]; rfl
  have hon : rl.cfg.enabled := by rw [hcfg.1]; exact henabled
  rw [← hseconds]
  constructor
  · intro hagrees
    by_contra hwraps
    exact not_agrees_of_wraps hcfg.2 hon (not_lt.mp hwraps) hagrees
  · intro hfits
    apply agrees_of_cutoff hcfg.2 hon
    intro now
    rw [cutoff_eq, wrappedWindow_of_fits (rl.limits hon).2 hfits]

end RateLimiter

def hourlyConfig : RateLimitConfig where
  callsPerWindow := 100
  windowSeconds := 3600
  maxTrackedAgents := 2
  enabled := true
  unauthenticatedID := ""

theorem hourlyLimiter_agrees : ∃ rl, newRateLimiter hourlyConfig = .ok rl ∧
    rl.Agrees (hourlyConfig.windowSeconds * second) := by
  refine ⟨_, rfl, ?_⟩
  apply (RateLimiter.agrees_iff_window_fits (show newRateLimiter hourlyConfig = _ from rfl) rfl).mpr
  decide

def centuriesConfig : RateLimitConfig where
  callsPerWindow := 1
  windowSeconds := 9223372037
  maxTrackedAgents := 2
  enabled := true
  unauthenticatedID := ""

/-- A window of three centuries: the second call at one moment is admitted, although one
call is the limit. -/
theorem centuriesLimiter_admits_second : ∃ rl, newRateLimiter centuriesConfig = .ok rl ∧
    (rl.run [.allow "a" 0, .allow "a" 0]).map Prod.snd =
      some [.decision true [], .decision true []] ∧
    (rl.reference (centuriesConfig.windowSeconds * second) [.allow "a" 0, .allow "a" 0]).2 =
      [.decision true [], .decision false []] ∧
    ¬ rl.Agrees (centuriesConfig.windowSeconds * second) := by
  obtain ⟨rl, hnew, hcode, hreference⟩ : ∃ rl, newRateLimiter centuriesConfig = .ok rl ∧
      (rl.run [.allow "a" 0, .allow "a" 0]).map Prod.snd =
        some [.decision true [], .decision true []] ∧
      (rl.reference (centuriesConfig.windowSeconds * second)
        [.allow "a" 0, .allow "a" 0]).2 = [.decision true [], .decision false []] :=
    ⟨_, rfl, by decide, by decide⟩
  refine ⟨rl, hnew, hcode, hreference, ?_⟩
  intro hagrees
  obtain ⟨after, hrun, -⟩ := hagrees [.allow "a" 0, .allow "a" 0] (by simp [LimiterCall.now])
  rw [hrun, Option.map_some, hreference] at hcode
  cases hcode

end Persatrix.Security
