import Persatrix.CircuitBreaker
import Mathlib.Data.Finset.Order

/-!
# The breaker follows its sliding windows

The recordings of a type are trimmed only when the next one comes in, all types of an agent share
one flag, and nothing is kept while it is set. What is kept is still enough to decide every
recording as the whole history since the last release decides it.
-/
namespace Persatrix.Breaker

/-! ### The windows of a history -/

theorem timesOf_append (vt : ViolationType) (history more : List (ViolationType × ℤ)) :
    timesOf vt (history ++ more) = timesOf vt history ++ timesOf vt more := by
  simp [timesOf]

theorem timesOf_singleton (vt vt' : ViolationType) (now : ℤ) :
    timesOf vt' [(vt, now)] = if vt = vt' then [now] else [] := by
  by_cases h : vt = vt' <;> simp [timesOf, h]

theorem timesOf_concat_self (vt : ViolationType) (history : List (ViolationType × ℤ)) (now : ℤ) :
    timesOf vt (history ++ [(vt, now)]) = timesOf vt history ++ [now] := by
  rw [timesOf_append, timesOf_singleton, if_pos rfl]

theorem timesOf_concat_of_ne {vt vt' : ViolationType} (h : vt ≠ vt')
    (history : List (ViolationType × ℤ)) (now : ℤ) :
    timesOf vt' (history ++ [(vt, now)]) = timesOf vt' history := by
  rw [timesOf_append, timesOf_singleton, if_neg h, List.append_nil]

theorem not_trips_nil (rule : ThresholdRule) : ¬Trips rule [] := by
  rintro ⟨earlier, now, later, heq, -⟩
  simp at heq

theorem trips_concat {rule : ThresholdRule} {times : List ℤ} {now : ℤ} :
    Trips rule (times ++ [now]) ↔
      Trips rule times ∨ rule.count ≤ (inWindow rule now (times ++ [now])).length := by
  constructor
  · rintro ⟨earlier, at', later, heq, hcount⟩
    rcases List.eq_nil_or_concat later with rfl | ⟨later, last, rfl⟩
    · obtain ⟨rfl, hlast⟩ := List.append_inj' heq rfl
      cases hlast
      exact .inr hcount
    · rw [List.concat_eq_append, ← List.cons_append, ← List.append_assoc] at heq
      obtain ⟨rfl, -⟩ := List.append_inj' heq rfl
      exact .inl ⟨earlier, at', later, rfl, hcount⟩
  · rintro (⟨earlier, at', later, rfl, hcount⟩ | hcount)
    · exact ⟨earlier, at', later ++ [now], by simp, hcount⟩
    · exact ⟨times, now, [], rfl, hcount⟩

/-- One more recording opens the breaker only through the window that it ends. -/
theorem tripped_concat {thresholds : GoMap ViolationType ThresholdRule}
    {history : List (ViolationType × ℤ)} {vt : ViolationType} {now : ℤ} :
    Tripped thresholds (history ++ [(vt, now)]) ↔ Tripped thresholds history ∨
      ∃ rule, thresholds.lookup vt = some rule ∧ rule.disabled = false ∧
        rule.count ≤ (inWindow rule now (timesOf vt history ++ [now])).length := by
  constructor
  · rintro ⟨vt', rule, hrule, henabled, htrips⟩
    by_cases hvt : vt = vt'
    · subst hvt
      rw [timesOf_concat_self, trips_concat] at htrips
      rcases htrips with htrips | hcount
      · exact .inl ⟨vt, rule, hrule, henabled, htrips⟩
      · exact .inr ⟨rule, hrule, henabled, hcount⟩
    · rw [timesOf_concat_of_ne hvt] at htrips
      exact .inl ⟨vt', rule, hrule, henabled, htrips⟩
  · rintro (⟨vt', rule, hrule, henabled, htrips⟩ | ⟨rule, hrule, henabled, hcount⟩)
    · refine ⟨vt', rule, hrule, henabled, ?_⟩
      by_cases hvt : vt = vt'
      · subst hvt
        rw [timesOf_concat_self]
        exact trips_concat.mpr (.inl htrips)
      · rwa [timesOf_concat_of_ne hvt]
    · refine ⟨vt, rule, hrule, henabled, ?_⟩
      rw [timesOf_concat_self]
      exact trips_concat.mpr (.inr hcount)

/-- A recording whose window does not reach the count of an enabled rule decides nothing. -/
theorem tripped_concat_of_not {thresholds : GoMap ViolationType ThresholdRule}
    {history : List (ViolationType × ℤ)} {vt : ViolationType} {now : ℤ}
    (h : ∀ rule, thresholds.lookup vt = some rule → rule.disabled = false →
      ¬rule.count ≤ (inWindow rule now (timesOf vt history ++ [now])).length) :
    Tripped thresholds (history ++ [(vt, now)]) ↔ Tripped thresholds history := by
  rw [tripped_concat]
  refine ⟨fun htripped => htripped.resolve_right ?_, .inl⟩
  rintro ⟨rule, hrule, henabled, hcount⟩
  exact h rule hrule henabled hcount

theorem not_tripped_nil (thresholds : GoMap ViolationType ThresholdRule) :
    ¬Tripped thresholds [] := by
  rintro ⟨vt, rule, -, -, htrips⟩
  exact not_trips_nil rule htrips

namespace CircuitBreaker
variable {cb : CircuitBreaker} {agentID a : String} {vt : ViolationType} {now : ℤ}

/-! ### What each call keeps -/

theorem kept_setKept (cb : CircuitBreaker) (agentID : String) (vt : ViolationType)
    (times : List ℤ) (a : String) (vt' : ViolationType) :
    (cb.setKept agentID vt times).kept a vt' =
      if a = agentID ∧ vt' = vt then times else cb.kept a vt' := by
  unfold kept setKept
  rw [GoMap.lookup_insert]
  by_cases ha : a = agentID
  · subst ha
    rw [if_pos rfl, Option.getD_some, GoMap.lookup_insert]
    by_cases hvt : vt' = vt
    · simp [hvt]
    · simp [hvt]
  · simp [ha]

@[simp] theorem isQuarantined_setKept (cb : CircuitBreaker) (agentID : String)
    (vt : ViolationType) (times : List ℤ) (a : String) :
    (cb.setKept agentID vt times).isQuarantined a = cb.isQuarantined a := rfl

@[simp] theorem isQuarantined_insert {entry : QuarantineEntry}
    {violations : GoMap String (GoMap ViolationType (List ℤ))} (a : String) :
    isQuarantined { cb with
      quarantined := AList.insert agentID entry cb.quarantined, violations } a =
      (decide (a = agentID) || cb.isQuarantined a) := by
  unfold isQuarantined
  rw [GoMap.lookup_insert]
  by_cases h : a = agentID <;> simp [h]

@[simp] theorem isQuarantined_erase
    {violations : GoMap String (GoMap ViolationType (List ℤ))} (a : String) :
    isQuarantined { cb with quarantined := cb.quarantined.erase agentID, violations } a =
      (decide (a ≠ agentID) && cb.isQuarantined a) := by
  unfold isQuarantined
  rw [GoMap.lookup_erase]
  by_cases h : a = agentID <;> simp [h]

theorem kept_erase {quarantined : GoMap String QuarantineEntry} (a : String)
    (vt : ViolationType) :
    kept { cb with violations := cb.violations.erase agentID, quarantined } a vt =
      if a = agentID then [] else cb.kept a vt := by
  unfold kept
  rw [GoMap.lookup_erase]
  by_cases h : a = agentID <;> simp [h]

/-- What the window of an enabled rule holds once a recording is added. -/
def windowed (cb : CircuitBreaker) (agentID : String) (vt : ViolationType) (rule : ThresholdRule)
    (now : ℤ) : List ℤ := inWindow rule now (cb.kept agentID vt) ++ [now]

/-- What a recording does: nothing, or one more entry, or the quarantine of its agent. -/
inductive Recorded (cb : CircuitBreaker) (agentID : String) (vt : ViolationType) (now : ℤ) :
    CircuitBreaker × List BreakerEvent → Prop
  | ignored (h : agentID = "" ∨ agentID ∈ cb.exempt ∨
      (∃ rule, cb.thresholds.lookup vt = some rule ∧ rule.disabled = true) ∨
      cb.isQuarantined agentID = true) : Recorded cb agentID vt now (cb, [])
  | unruled (hnamed : agentID ≠ "") (hsubject : agentID ∉ cb.exempt)
      (hopen : cb.isQuarantined agentID = false) (hrule : cb.thresholds.lookup vt = none) :
      Recorded cb agentID vt now (cb.setKept agentID vt (cb.kept agentID vt ++ [now]), [])
  | counted {rule : ThresholdRule} (hnamed : agentID ≠ "") (hsubject : agentID ∉ cb.exempt)
      (hopen : cb.isQuarantined agentID = false) (hrule : cb.thresholds.lookup vt = some rule)
      (henabled : rule.disabled = false)
      (hcount : ¬rule.count ≤ (cb.windowed agentID vt rule now).length) :
      Recorded cb agentID vt now (cb.setKept agentID vt (cb.windowed agentID vt rule now), [])
  | opened {rule : ThresholdRule} (hnamed : agentID ≠ "") (hsubject : agentID ∉ cb.exempt)
      (hopen : cb.isQuarantined agentID = false) (hrule : cb.thresholds.lookup vt = some rule)
      (henabled : rule.disabled = false)
      (hcount : rule.count ≤ (cb.windowed agentID vt rule now).length) :
      Recorded cb agentID vt now
        ({ cb with
            quarantined := AList.insert agentID ⟨now, vt⟩ cb.quarantined
            violations := (cb.setKept agentID vt
              (cb.windowed agentID vt rule now)).violations.erase agentID },
          [quarantineEvent agentID vt now (cb.windowed agentID vt rule now).length rule])

theorem recorded (cb : CircuitBreaker) (agentID : String) (vt : ViolationType) (now : ℤ) :
    Recorded cb agentID vt now (cb.recordViolation agentID vt now) := by
  unfold recordViolation
  by_cases hnamed : agentID = ""
  · rw [if_pos hnamed]
    exact .ignored (.inl hnamed)
  by_cases hsubject : agentID ∈ cb.exempt
  · rw [if_neg hnamed, if_pos hsubject]
    exact .ignored (.inr (.inl hsubject))
  rw [if_neg hnamed, if_neg hsubject]
  cases hopen : cb.isQuarantined agentID with
  | true =>
    have hnothing : Recorded cb agentID vt now (cb, []) := .ignored (.inr (.inr (.inr hopen)))
    cases cb.thresholds.lookup vt with
    | none => exact hnothing
    | some rule =>
      dsimp only
      rw [if_pos (rfl : true = true), ite_self]
      exact hnothing
  | false =>
    cases hrule : cb.thresholds.lookup vt with
    | none => exact .unruled hnamed hsubject hopen hrule
    | some rule =>
      dsimp only
      cases henabled : rule.disabled with
      | true => exact .ignored (.inr (.inr (.inl ⟨rule, hrule, henabled⟩)))
      | false =>
        rw [if_neg Bool.false_ne_true, if_neg Bool.false_ne_true]
        by_cases hcount : rule.count ≤ (cb.windowed agentID vt rule now).length
        · have hstep : cb.observe agentID vt rule now = _ := if_pos hcount
          rw [hstep]
          exact .opened hnamed hsubject hopen hrule henabled hcount
        · have hstep : cb.observe agentID vt rule now = _ := if_neg hcount
          rw [hstep]
          exact .counted hnamed hsubject hopen hrule henabled hcount

/-! ### One agent -/

/-- What is kept for an agent decides its recordings as its history since the release does, at
any later time. -/
structure Tracks (cb : CircuitBreaker) (agentID : String) (history : List (ViolationType × ℤ))
    (latest : ℤ) : Prop where
  past : ∀ r ∈ history, r.2 ≤ latest
  decided : cb.isQuarantined agentID = true ↔ Tripped cb.thresholds history
  window : cb.isQuarantined agentID = false → ∀ vt rule, cb.thresholds.lookup vt = some rule →
    rule.disabled = false → ∃ bound ≤ latest - rule.window,
      cb.kept agentID vt = (timesOf vt history).filter fun t => bound < t

theorem Tracks.start (latest : ℤ) (hopen : cb.isQuarantined agentID = false)
    (hkept : ∀ vt, cb.kept agentID vt = []) : cb.Tracks agentID [] latest where
  past := by simp
  decided := by simp [hopen, not_tripped_nil]
  window := fun _ vt rule _ _ => ⟨latest - rule.window, le_rfl, by simp [hkept, timesOf]⟩

theorem Tracks.later {history : List (ViolationType × ℤ)} {latest latest' : ℤ}
    (h : cb.Tracks agentID history latest) (hle : latest ≤ latest') :
    cb.Tracks agentID history latest' where
  past := fun r hr => (h.past r hr).trans hle
  decided := h.decided
  window := by
    intro hopen vt rule hrule henabled
    obtain ⟨bound, hbound, hkept⟩ := h.window hopen vt rule hrule henabled
    exact ⟨bound, by omega, hkept⟩

/-- The window that a recording ends holds what it holds of the whole history. -/
theorem Tracks.windowed_eq {history : List (ViolationType × ℤ)}
    (h : cb.Tracks agentID history now) (hopen : cb.isQuarantined agentID = false)
    {rule : ThresholdRule} (hrule : cb.thresholds.lookup vt = some rule)
    (henabled : rule.disabled = false) :
    cb.windowed agentID vt rule now = inWindow rule now (timesOf vt history ++ [now]) := by
  obtain ⟨bound, hbound, hkept⟩ := h.window hopen vt rule hrule henabled
  have hpositive : 0 < rule.window := by
    have hchecked := cb.checked vt rule hrule
    unfold ThresholdRule.check at hchecked
    rw [henabled, if_neg Bool.false_ne_true] at hchecked
    split_ifs at hchecked with hwindow
    omega
  have htrim : ∀ t : ℤ, (decide (now - rule.window < t) && decide (bound < t)) =
      decide (now - rule.window < t) := by
    intro t
    by_cases ht : now - rule.window < t
    · have hlater : bound < t := by omega
      simp [ht, hlater]
    · simp [ht]
  unfold windowed inWindow
  have hlast : [now].filter (fun t => now - rule.window < t) = [now] := by simp [hpositive]
  rw [hkept, List.filter_filter, List.filter_append, hlast]
  simp only [htrim]

theorem Tracks.past_concat {history : List (ViolationType × ℤ)}
    (h : cb.Tracks agentID history now) (vt : ViolationType) :
    ∀ r ∈ history ++ [(vt, now)], r.2 ≤ now := by
  intro r hr
  rcases List.mem_append.mp hr with hr | hr
  · exact h.past r hr
  · rw [List.mem_singleton.mp hr]

/-- A recording of a type that no enabled rule is about. -/
theorem Tracks.skip {history : List (ViolationType × ℤ)} (h : cb.Tracks agentID history now)
    (hskip : ∀ rule, cb.thresholds.lookup vt = some rule → rule.disabled = true)
    {after : CircuitBreaker} (hrules : after.thresholds = cb.thresholds)
    (hquarantined : after.isQuarantined agentID = cb.isQuarantined agentID)
    (hkept : ∀ vt', vt ≠ vt' → after.kept agentID vt' = cb.kept agentID vt') :
    after.Tracks agentID (history ++ [(vt, now)]) now where
  past := h.past_concat vt
  decided := by
    rw [hquarantined, hrules, h.decided]
    refine (tripped_concat_of_not fun rule hrule henabled => ?_).symm
    rw [hskip rule hrule] at henabled
    cases henabled
  window := by
    intro hopen vt' rule hrule henabled
    rw [hquarantined] at hopen
    rw [hrules] at hrule
    have hne : vt ≠ vt' := by
      rintro rfl
      rw [hskip rule hrule] at henabled
      cases henabled
    rw [timesOf_concat_of_ne hne, hkept vt' hne]
    exact h.window hopen vt' rule hrule henabled

/-- A recording for an agent that is in quarantine. -/
theorem Tracks.stays {history : List (ViolationType × ℤ)} (h : cb.Tracks agentID history now)
    (hquarantined : cb.isQuarantined agentID = true) (vt : ViolationType) :
    cb.Tracks agentID (history ++ [(vt, now)]) now where
  past := h.past_concat vt
  decided := by
    rw [hquarantined, tripped_concat]
    exact ⟨fun _ => .inl (h.decided.mp hquarantined), fun _ => rfl⟩
  window := by
    intro hopen
    rw [hquarantined] at hopen
    cases hopen

/-- A recording that its rule counts, and that leaves the agent out of quarantine. -/
theorem Tracks.counts {history : List (ViolationType × ℤ)} (h : cb.Tracks agentID history now)
    (hopen : cb.isQuarantined agentID = false) {rule : ThresholdRule}
    (hrule : cb.thresholds.lookup vt = some rule) (henabled : rule.disabled = false)
    (hcount : ¬rule.count ≤ (cb.windowed agentID vt rule now).length) :
    (cb.setKept agentID vt (cb.windowed agentID vt rule now)).Tracks agentID
      (history ++ [(vt, now)]) now := by
  rw [h.windowed_eq hopen hrule henabled] at hcount ⊢
  have hsame : ∀ {rule'}, cb.thresholds.lookup vt = some rule' → rule = rule' := by
    intro rule' hrule'
    rwa [hrule, Option.some_inj] at hrule'
  refine ⟨h.past_concat vt, ?_, fun _ vt' rule' hrule' henabled' => ?_⟩
  · rw [isQuarantined_setKept, h.decided]
    refine (tripped_concat_of_not fun rule' hrule' _ => ?_).symm
    exact hsame hrule' ▸ hcount
  · rw [kept_setKept]
    by_cases hvt : vt = vt'
    · subst hvt
      rw [if_pos ⟨rfl, rfl⟩, timesOf_concat_self, ← hsame hrule']
      exact ⟨now - rule.window, le_rfl, rfl⟩
    · rw [timesOf_concat_of_ne hvt, if_neg fun heq => hvt heq.2.symm]
      exact h.window hopen vt' rule' hrule' henabled'

/-- A recording that puts the agent into quarantine. -/
theorem Tracks.opens {history : List (ViolationType × ℤ)} (h : cb.Tracks agentID history now)
    (hopen : cb.isQuarantined agentID = false) {rule : ThresholdRule}
    (hrule : cb.thresholds.lookup vt = some rule) (henabled : rule.disabled = false)
    (hcount : rule.count ≤ (cb.windowed agentID vt rule now).length) {entry : QuarantineEntry}
    {violations : GoMap String (GoMap ViolationType (List ℤ))} :
    Tracks { cb with quarantined := AList.insert agentID entry cb.quarantined, violations }
      agentID (history ++ [(vt, now)]) now := by
  rw [h.windowed_eq hopen hrule henabled] at hcount
  refine ⟨h.past_concat vt, ?_, fun hclosed => ?_⟩
  · rw [isQuarantined_insert]
    have htripped := tripped_concat.mpr (.inr ⟨rule, hrule, henabled, hcount⟩)
    simp [htripped]
  · rw [isQuarantined_insert] at hclosed
    simp at hclosed

theorem Tracks.record {history : List (ViolationType × ℤ)} (h : cb.Tracks agentID history now)
    (hnamed : agentID ≠ "") (hsubject : agentID ∉ cb.exempt) (vt : ViolationType) :
    (cb.recordViolation agentID vt now).1.Tracks agentID (history ++ [(vt, now)]) now := by
  have hrecorded := recorded cb agentID vt now
  generalize cb.recordViolation agentID vt now = r at hrecorded ⊢
  cases hrecorded with
  | ignored hignored =>
    rcases hignored with hempty | hexempt | ⟨rule, hrule, hdisabled⟩ | hquarantined
    · exact absurd hempty hnamed
    · exact absurd hexempt hsubject
    · refine h.skip (fun rule' hrule' => ?_) rfl rfl fun _ _ => rfl
      rw [hrule, Option.some_inj] at hrule'
      rw [← hrule', hdisabled]
    · exact h.stays hquarantined vt
  | unruled _ _ hopen hrule =>
    refine h.skip (fun rule' hrule' => ?_) rfl rfl fun vt' hne => ?_
    · rw [hrule] at hrule'
      cases hrule'
    · rw [kept_setKept, if_neg fun heq => hne heq.2.symm]
  | counted _ _ hopen hrule henabled hcount => exact h.counts hopen hrule henabled hcount
  | opened _ _ hopen hrule henabled hcount => exact h.opens hopen hrule henabled hcount

/-! ### Two breakers that are alike for an agent -/

/-- The two breakers have the same rules, and hold the same of the agent. -/
structure Alike (a : String) (cb cb' : CircuitBreaker) : Prop where
  thresholds : cb.thresholds = cb'.thresholds
  exempt : cb.exempt = cb'.exempt
  quarantined : cb.isQuarantined a = cb'.isQuarantined a
  kept : ∀ vt, cb.kept a vt = cb'.kept a vt

variable {cb' : CircuitBreaker}

theorem Alike.refl (a : String) (cb : CircuitBreaker) : Alike a cb cb := ⟨rfl, rfl, rfl, fun _ => rfl⟩

theorem Alike.symm (h : Alike a cb cb') : Alike a cb' cb :=
  ⟨h.thresholds.symm, h.exempt.symm, h.quarantined.symm, fun vt => (h.kept vt).symm⟩

theorem Alike.trans {cb'' : CircuitBreaker} (h : Alike a cb cb') (h' : Alike a cb' cb'') :
    Alike a cb cb'' :=
  ⟨h.thresholds.trans h'.thresholds, h.exempt.trans h'.exempt, h.quarantined.trans h'.quarantined,
    fun vt => (h.kept vt).trans (h'.kept vt)⟩

theorem Alike.setKept (h : Alike a cb cb') (agentID : String) (vt : ViolationType)
    (times : List ℤ) : Alike a (cb.setKept agentID vt times) (cb'.setKept agentID vt times) where
  thresholds := h.thresholds
  exempt := h.exempt
  quarantined := h.quarantined
  kept := fun vt' => by rw [kept_setKept, kept_setKept, h.kept]

theorem Alike.insert (h : Alike a cb cb') (agentID : String) (entry : QuarantineEntry) :
    Alike a
      { cb with
        quarantined := AList.insert agentID entry cb.quarantined
        violations := cb.violations.erase agentID }
      { cb' with
        quarantined := AList.insert agentID entry cb'.quarantined
        violations := cb'.violations.erase agentID } where
  thresholds := h.thresholds
  exempt := h.exempt
  quarantined := by rw [isQuarantined_insert, isQuarantined_insert, h.quarantined]
  kept := fun vt => by rw [kept_erase, kept_erase, h.kept]

theorem Alike.erase (h : Alike a cb cb') (agentID : String) :
    Alike a
      { cb with
        quarantined := cb.quarantined.erase agentID
        violations := cb.violations.erase agentID }
      { cb' with
        quarantined := cb'.quarantined.erase agentID
        violations := cb'.violations.erase agentID } where
  thresholds := h.thresholds
  exempt := h.exempt
  quarantined := by rw [isQuarantined_erase, isQuarantined_erase, h.quarantined]
  kept := fun vt => by rw [kept_erase, kept_erase, h.kept]

theorem Alike.record (h : Alike a cb cb') (vt : ViolationType) (now : ℤ) :
    Alike a (cb.recordViolation a vt now).1 (cb'.recordViolation a vt now).1 ∧
      (cb.recordViolation a vt now).2 = (cb'.recordViolation a vt now).2 := by
  unfold recordViolation
  rw [h.thresholds, h.exempt, h.quarantined, h.kept]
  by_cases hnamed : a = ""
  · rw [if_pos hnamed, if_pos hnamed]
    exact ⟨h, rfl⟩
  rw [if_neg hnamed, if_neg hnamed]
  by_cases hsubject : a ∈ cb'.exempt
  · rw [if_pos hsubject, if_pos hsubject]
    exact ⟨h, rfl⟩
  rw [if_neg hsubject, if_neg hsubject]
  cases cb'.thresholds.lookup vt with
  | none =>
    dsimp only
    by_cases hopen : cb'.isQuarantined a = true
    · rw [if_pos hopen, if_pos hopen]
      exact ⟨h, rfl⟩
    · rw [if_neg hopen, if_neg hopen]
      exact ⟨h.setKept a vt _, rfl⟩
  | some rule =>
    dsimp only
    by_cases hdisabled : rule.disabled = true
    · rw [if_pos hdisabled, if_pos hdisabled]
      exact ⟨h, rfl⟩
    rw [if_neg hdisabled, if_neg hdisabled]
    by_cases hopen : cb'.isQuarantined a = true
    · rw [if_pos hopen, if_pos hopen]
      exact ⟨h, rfl⟩
    rw [if_neg hopen, if_neg hopen]
    unfold observe
    rw [h.kept]
    dsimp only
    have hset := h.setKept a vt ((cb'.kept a vt).filter (fun t => now - rule.window < t) ++ [now])
    by_cases hcount : rule.count ≤
        ((cb'.kept a vt).filter (fun t => now - rule.window < t) ++ [now]).length
    · rw [if_pos hcount, if_pos hcount]
      exact ⟨hset.insert a _, rfl⟩
    · rw [if_neg hcount, if_neg hcount]
      exact ⟨hset, rfl⟩

theorem Alike.release (h : Alike a cb cb') (actor : String) (now : ℤ) :
    Alike a (cb.unquarantine a actor now).1 (cb'.unquarantine a actor now).1 ∧
      (cb.unquarantine a actor now).2 = (cb'.unquarantine a actor now).2 := by
  unfold unquarantine
  rw [h.quarantined]
  by_cases hopen : cb'.isQuarantined a = true
  · rw [if_pos hopen, if_pos hopen]
    exact ⟨h.erase a, rfl⟩
  · rw [if_neg hopen, if_neg hopen]
    exact ⟨h, rfl⟩

/-- A recording of another agent. -/
theorem alike_record (h : a ≠ agentID) (vt : ViolationType) (now : ℤ) :
    Alike a cb (cb.recordViolation agentID vt now).1 ∧
      ∀ e ∈ (cb.recordViolation agentID vt now).2, e.agentID = agentID := by
  have hkeep : ∀ times, Alike a cb (cb.setKept agentID vt times) := fun times =>
    ⟨rfl, rfl, rfl, fun vt' => by rw [kept_setKept, if_neg fun heq => h heq.1]⟩
  have hrecorded := recorded cb agentID vt now
  generalize cb.recordViolation agentID vt now = r at hrecorded ⊢
  cases hrecorded with
  | ignored => exact ⟨.refl a cb, by simp⟩
  | unruled => exact ⟨hkeep _, by simp⟩
  | counted => exact ⟨hkeep _, by simp⟩
  | @opened rule =>
    refine ⟨⟨rfl, rfl, ?_, fun vt' => ?_⟩, by simp [quarantineEvent]⟩
    · rw [isQuarantined_insert]
      simp [h]
    · have hkept := kept_setKept cb agentID vt (cb.windowed agentID vt rule now) a vt'
      rw [if_neg fun heq => h heq.1] at hkept
      rw [← hkept]
      exact ((kept_erase a vt').trans (if_neg h)).symm

/-- A release of another agent. -/
theorem alike_release (h : a ≠ agentID) (actor : String) (now : ℤ) :
    Alike a cb (cb.unquarantine agentID actor now).1 ∧
      ∀ e ∈ (cb.unquarantine agentID actor now).2.2, e.agentID = agentID := by
  unfold unquarantine
  by_cases hopen : cb.isQuarantined agentID = true
  · rw [if_pos hopen]
    refine ⟨⟨rfl, rfl, ?_, fun vt => ?_⟩, by simp [releaseEvent]⟩
    · rw [isQuarantined_erase]
      simp [h]
    · rw [kept_erase, if_neg h]
  · rw [if_neg hopen]
    exact ⟨.refl a cb, by simp⟩

end CircuitBreaker

/-! ### Runs -/

def BreakerCall.agentID : BreakerCall → String
  | .recordViolation agentID _ _ => agentID
  | .isQuarantined agentID => agentID
  | .unquarantine agentID _ _ => agentID

/-- The reading of the clock that a call makes. -/
def BreakerCall.reading : BreakerCall → Option ℤ
  | .recordViolation _ _ now => some now
  | .isQuarantined _ => none
  | .unquarantine _ _ now => some now

/-- What a call decides about an agent: its answer, and the events that name the agent. -/
def decision (a : String) (n : BreakerNote) : Option Bool × List BreakerEvent :=
  (if n.call.agentID = a then some n.answer else none, n.events.filter fun e => e.agentID = a)

/-- The events of a call that announce the quarantine of an agent. -/
def openings (a : String) (n : BreakerNote) : List BreakerEvent :=
  n.events.filter fun e => e.eventType = .agentQuarantined ∧ e.agentID = a

namespace CircuitBreaker
variable {cb cb' : CircuitBreaker} {a : String}

theorem run_concat (cb : CircuitBreaker) (calls : List BreakerCall) (c : BreakerCall) :
    cb.run (calls ++ [c]) = (((cb.run calls).1.call c).1,
      (cb.run calls).2 ++ [((cb.run calls).1.call c).2]) := by
  rw [run, List.foldl_concat]
  rfl

@[simp] theorem call_note (cb : CircuitBreaker) (c : BreakerCall) : (cb.call c).2.call = c := by
  cases c <;> rfl

theorem filter_none {events : List BreakerEvent} {agentID : String} (h : a ≠ agentID)
    (hevents : ∀ e ∈ events, e.agentID = agentID) : events.filter (fun e => e.agentID = a) = [] := by
  rw [List.filter_eq_nil_iff]
  intro e he
  rw [hevents e he]
  simpa using h.symm

/-- A call about another agent. -/
theorem alike_call {c : BreakerCall} (h : a ≠ c.agentID) :
    Alike a cb (cb.call c).1 ∧ decision a (cb.call c).2 = (none, []) := by
  unfold decision
  rw [call_note, if_neg h.symm]
  cases c with
  | recordViolation agentID vt now =>
    have hother : Alike a cb (cb.recordViolation agentID vt now).1 := (alike_record h vt now).1
    exact ⟨hother, Prod.ext rfl (filter_none h (alike_record h vt now).2)⟩
  | isQuarantined agentID => exact ⟨.refl a cb, rfl⟩
  | unquarantine agentID actor now =>
    have hother : Alike a cb (cb.unquarantine agentID actor now).1 :=
      (alike_release h actor now).1
    exact ⟨hother, Prod.ext rfl (filter_none h (alike_release h actor now).2)⟩

/-- Breakers that are alike for an agent decide alike about it, and stay alike. -/
theorem Alike.call (h : Alike a cb cb') (c : BreakerCall) :
    Alike a (cb.call c).1 (cb'.call c).1 ∧
      decision a (cb.call c).2 = decision a (cb'.call c).2 := by
  by_cases ha : a = c.agentID
  · subst ha
    cases c with
    | recordViolation agentID vt now =>
      have hstep := h.record vt now
      refine ⟨hstep.1, ?_⟩
      unfold decision
      exact Prod.ext rfl (congrArg (List.filter fun e => e.agentID = agentID) hstep.2)
    | isQuarantined agentID =>
      refine ⟨h, ?_⟩
      unfold decision
      exact Prod.ext (congrArg (fun b => if agentID = agentID then some b else none)
        h.quarantined) rfl
    | unquarantine agentID actor now =>
      have hstep := h.release actor now
      refine ⟨hstep.1, ?_⟩
      unfold decision
      exact Prod.ext
        (congrArg (fun r : Bool × List BreakerEvent =>
          if agentID = agentID then some r.1 else none) hstep.2)
        (congrArg (fun r : Bool × List BreakerEvent =>
          r.2.filter fun e => e.agentID = agentID) hstep.2)
  · have hcall : Alike a cb (cb.call c).1 ∧ decision a (cb.call c).2 = (none, []) := alike_call ha
    have hcall' : Alike a cb' (cb'.call c).1 ∧ decision a (cb'.call c).2 = (none, []) :=
      alike_call ha
    exact ⟨hcall.1.symm.trans (h.trans hcall'.1), hcall.2.trans hcall'.2.symm⟩

theorem Alike.run (h : Alike a cb cb') (calls : List BreakerCall) :
    Alike a (cb.run calls).1 (cb'.run calls).1 ∧
      (cb.run calls).2.map (decision a) = (cb'.run calls).2.map (decision a) := by
  induction calls using List.reverseRecOn with
  | nil => exact ⟨h, rfl⟩
  | append_singleton calls c ih =>
    rw [run_concat, run_concat]
    have hstep := ih.1.call c
    refine ⟨hstep.1, ?_⟩
    rw [List.map_append, List.map_append, ih.2, List.map_singleton, List.map_singleton, hstep.2]

theorem sinceRelease_concat (agentID : String) (notes : List BreakerNote) (n : BreakerNote) :
    sinceRelease agentID (notes ++ [n]) =
      (match n.call with
      | .recordViolation a vt now =>
        if a = agentID then sinceRelease agentID notes ++ [(vt, now)]
        else sinceRelease agentID notes
      | .isQuarantined _ => sinceRelease agentID notes
      | .unquarantine a _ _ =>
        if a = agentID ∧ n.answer = true then [] else sinceRelease agentID notes) := by
  rw [sinceRelease, List.foldl_concat]
  rfl

theorem sinceRelease_record {agentID : String} {notes : List BreakerNote} {n : BreakerNote}
    {vt : ViolationType} {now : ℤ} (h : n.call = .recordViolation agentID vt now) :
    sinceRelease agentID (notes ++ [n]) = sinceRelease agentID notes ++ [(vt, now)] := by
  rw [sinceRelease_concat, h]
  exact if_pos rfl

theorem sinceRelease_release {agentID actor : String} {notes : List BreakerNote}
    {n : BreakerNote} {now : ℤ} (h : n.call = .unquarantine agentID actor now) :
    sinceRelease agentID (notes ++ [n]) =
      if n.answer = true then [] else sinceRelease agentID notes := by
  rw [sinceRelease_concat, h]
  dsimp only
  cases n.answer with
  | true => exact if_pos ⟨rfl, rfl⟩
  | false => exact if_neg fun heq => Bool.false_ne_true heq.2

/-- A call about another agent leaves the history of this one. -/
theorem sinceRelease_other {agentID : String} {notes : List BreakerNote} {n : BreakerNote}
    (h : agentID ≠ n.call.agentID) : sinceRelease agentID (notes ++ [n]) =
      sinceRelease agentID notes := by
  rw [sinceRelease_concat]
  obtain ⟨c, answer, events⟩ := n
  cases c with
  | recordViolation a vt now => exact if_neg h.symm
  | isQuarantined a => rfl
  | unquarantine a actor now => exact if_neg fun heq => h heq.1.symm

theorem Tracks.alike {history : List (ViolationType × ℤ)} {latest : ℤ}
    (h : cb.Tracks a history latest) (halike : Alike a cb cb') : cb'.Tracks a history latest where
  past := h.past
  decided := by
    rw [← halike.quarantined, ← halike.thresholds]
    exact h.decided
  window := by
    rw [← halike.quarantined, ← halike.thresholds]
    intro hopen vt rule hrule henabled
    rw [← halike.kept]
    exact h.window hopen vt rule hrule henabled

theorem Tracks.release {history : List (ViolationType × ℤ)} {latest : ℤ}
    (h : cb.Tracks a history latest) (actor : String) (now : ℤ) :
    (cb.unquarantine a actor now).1.Tracks a
      (if (cb.unquarantine a actor now).2.1 = true then [] else history) latest := by
  unfold unquarantine
  by_cases hopen : cb.isQuarantined a = true
  · rw [if_pos hopen, if_pos rfl]
    refine Tracks.start latest ?_ fun vt => ?_
    · rw [isQuarantined_erase]
      simp
    · rw [kept_erase, if_pos rfl]
  · rw [if_neg hopen, if_neg Bool.false_ne_true]
    exact h

/-- The step of a run: the clock reads no earlier than before. -/
theorem Tracks.call {notes : List BreakerNote} {c : BreakerCall} {latest : ℤ} (hnamed : a ≠ "")
    (hsubject : a ∉ cb.exempt) (hclock : ∀ now ∈ c.reading, now ≤ latest)
    (h : ∀ now ∈ c.reading, cb.Tracks a (sinceRelease a notes) now)
    (hlatest : cb.Tracks a (sinceRelease a notes) latest) :
    (cb.call c).1.Tracks a (sinceRelease a (notes ++ [(cb.call c).2])) latest := by
  by_cases ha : a = c.agentID
  · subst ha
    cases c with
    | recordViolation agentID vt now =>
      change Tracks _ agentID (sinceRelease agentID _) latest
      rw [sinceRelease_record (call_note cb _)]
      exact ((h now rfl).record hnamed hsubject vt).later (hclock now rfl)
    | isQuarantined agentID =>
      rw [sinceRelease_concat]
      exact hlatest
    | unquarantine agentID actor now =>
      change Tracks _ agentID (sinceRelease agentID _) latest
      rw [sinceRelease_release (call_note cb _)]
      exact hlatest.release actor now
  · rw [sinceRelease_other (by rwa [call_note])]
    exact hlatest.alike (alike_call ha).1

theorem call_config (cb : CircuitBreaker) (c : BreakerCall) :
    (cb.call c).1.thresholds = cb.thresholds ∧ (cb.call c).1.exempt = cb.exempt := by
  have hother : c.agentID ++ "'" ≠ c.agentID := by simp
  have halike : Alike (c.agentID ++ "'") cb (cb.call c).1 := (alike_call hother).1
  exact ⟨halike.thresholds.symm, halike.exempt.symm⟩

theorem run_config (cb : CircuitBreaker) (calls : List BreakerCall) :
    (cb.run calls).1.thresholds = cb.thresholds ∧ (cb.run calls).1.exempt = cb.exempt := by
  induction calls using List.reverseRecOn with
  | nil => exact ⟨rfl, rfl⟩
  | append_singleton calls c ih =>
    rw [run_concat]
    have hstep := call_config (cb.run calls).1 c
    exact ⟨hstep.1.trans ih.1, hstep.2.trans ih.2⟩

/-- A breaker as it is constructed. -/
structure Fresh (cb : CircuitBreaker) : Prop where
  violations : cb.violations = ∅
  quarantined : cb.quarantined = ∅

theorem Fresh.isQuarantined (h : cb.Fresh) (a : String) : cb.isQuarantined a = false := by
  rw [CircuitBreaker.isQuarantined, h.quarantined, GoMap.lookup_empty]
  rfl

theorem Fresh.kept (h : cb.Fresh) (a : String) (vt : ViolationType) : cb.kept a vt = [] := by
  rw [CircuitBreaker.kept, h.violations, GoMap.lookup_empty]
  rfl

theorem run_tracks (hfresh : cb.Fresh) (hnamed : a ≠ "") (hsubject : a ∉ cb.exempt)
    {calls : List BreakerCall} (hclock : (calls.filterMap BreakerCall.reading).Pairwise (· ≤ ·))
    {latest : ℤ} (hlatest : ∀ now ∈ calls.filterMap BreakerCall.reading, now ≤ latest) :
    (cb.run calls).1.Tracks a (sinceRelease a (cb.run calls).2) latest := by
  induction calls using List.reverseRecOn generalizing latest with
  | nil => exact Tracks.start latest (hfresh.isQuarantined a) (hfresh.kept a)
  | append_singleton calls c ih =>
    rw [List.filterMap_append, List.pairwise_append] at hclock
    rw [List.filterMap_append] at hlatest
    obtain ⟨hclock, -, hlast⟩ := hclock
    have hreading : ∀ now ∈ c.reading, now ∈ [c].filterMap BreakerCall.reading := by
      intro now hnow
      rw [List.mem_filterMap]
      exact ⟨c, List.mem_singleton_self c, hnow⟩
    rw [run_concat]
    refine Tracks.call hnamed ?_ ?_ ?_ ?_
    · rwa [(run_config cb calls).2]
    · exact fun now hnow => hlatest now (List.mem_append_right _ (hreading now hnow))
    · exact fun now hnow => ih hclock fun t ht => hlast t ht now (hreading now hnow)
    · exact ih hclock fun t ht => hlatest t (List.mem_append_left _ ht)

/-- Nothing is recorded of an agent that is exempt or has no name. -/
theorem call_spared (hspared : a = "" ∨ a ∈ cb.exempt) (hopen : cb.isQuarantined a = false)
    (c : BreakerCall) : (cb.call c).1.isQuarantined a = false := by
  by_cases ha : a = c.agentID
  · subst ha
    cases c with
    | recordViolation agentID vt now =>
      have hrecorded := recorded cb agentID vt now
      change (cb.recordViolation agentID vt now).1.isQuarantined agentID = false
      generalize cb.recordViolation agentID vt now = r at hrecorded ⊢
      cases hrecorded with
      | ignored => exact hopen
      | unruled => exact hopen
      | counted => exact hopen
      | opened hnamed hsubject => exact absurd hspared (not_or.mpr ⟨hnamed, hsubject⟩)
    | isQuarantined agentID => exact hopen
    | unquarantine agentID actor now =>
      have hskip : cb.unquarantine agentID actor now = (cb, false, []) :=
        if_neg fun h => Bool.false_ne_true (hopen.symm.trans h)
      change (cb.unquarantine agentID actor now).1.isQuarantined agentID = false
      rwa [hskip]
  · have halike : Alike a cb (cb.call c).1 := (alike_call ha).1
    rw [← halike.quarantined]
    exact hopen

theorem run_spared (hfresh : cb.Fresh) (hspared : a = "" ∨ a ∈ cb.exempt)
    (calls : List BreakerCall) : (cb.run calls).1.isQuarantined a = false := by
  induction calls using List.reverseRecOn with
  | nil => exact hfresh.isQuarantined a
  | append_singleton calls c ih =>
    rw [run_concat]
    refine call_spared ?_ ih c
    rwa [(run_config cb calls).2]

/-- A call announces the quarantine of an agent when it quarantines the agent, once. -/
theorem openings_length (cb : CircuitBreaker) (a : String) (c : BreakerCall) :
    (openings a (cb.call c).2).length =
      if cb.isQuarantined a = false ∧ (cb.call c).1.isQuarantined a = true then 1 else 0 := by
  by_cases ha : a = c.agentID
  · subst ha
    cases c with
    | recordViolation agentID vt now =>
      have hrecorded := recorded cb agentID vt now
      change (List.filter _ (cb.recordViolation agentID vt now).2).length =
        if cb.isQuarantined agentID = false ∧
          (cb.recordViolation agentID vt now).1.isQuarantined agentID = true then 1 else 0
      generalize cb.recordViolation agentID vt now = r at hrecorded ⊢
      cases hrecorded with
      | ignored => simp
      | unruled => simp
      | counted => simp
      | opened _ _ hopen =>
        rw [isQuarantined_insert]
        simp [hopen, quarantineEvent, BreakerCall.agentID]
    | isQuarantined agentID => simp [openings, CircuitBreaker.call]
    | unquarantine agentID actor now =>
      change (List.filter _ (cb.unquarantine agentID actor now).2.2).length =
        if cb.isQuarantined agentID = false ∧
          (cb.unquarantine agentID actor now).1.isQuarantined agentID = true then 1 else 0
      unfold unquarantine
      cases hopen : cb.isQuarantined agentID with
      | true => simp [releaseEvent]
      | false => simp [hopen]
  · obtain ⟨halike, hdecision⟩ :
        Alike a cb (cb.call c).1 ∧ decision a (cb.call c).2 = (none, []) := alike_call ha
    have hnone : openings a (cb.call c).2 = [] := by
      have hevents : (cb.call c).2.events.filter (fun e => e.agentID = a) = [] :=
        congrArg Prod.snd hdecision
      rw [List.filter_eq_nil_iff] at hevents
      unfold openings
      rw [List.filter_eq_nil_iff]
      intro e he hopening
      simp only [decide_eq_true_eq] at hopening
      exact hevents e he (decide_eq_true hopening.2)
    rw [hnone, ← halike.quarantined]
    simp

/-- The call that releases an agent leaves of it what a fresh breaker holds. -/
theorem alike_released {fresh : CircuitBreaker} (hfresh : fresh.Fresh)
    (hthresholds : cb.thresholds = fresh.thresholds) (hexempt : cb.exempt = fresh.exempt)
    (hopen : cb.isQuarantined a = true) (actor : String) (now : ℤ) :
    Alike a (cb.call (.unquarantine a actor now)).1 fresh := by
  have hrelease : cb.unquarantine a actor now = _ := if_pos hopen
  change Alike a (cb.unquarantine a actor now).1 fresh
  rw [hrelease]
  refine ⟨hthresholds, hexempt, ?_, fun vt => ?_⟩
  · rw [isQuarantined_erase, hfresh.isQuarantined]
    simp
  · rw [kept_erase, if_pos rfl, hfresh.kept]

end CircuitBreaker

/-- What a breaker with this configuration decides after the calls is what its sliding windows
define. -/
structure FollowsWindows (cfg : CircuitBreakerConfig) (cb : CircuitBreaker)
    (calls : List BreakerCall) : Prop where
  decided : ∀ a, a ≠ "" → a ∉ cfg.exemptAgentIDs →
    ((cb.run calls).1.isQuarantined a = true ↔
      Tripped (cfg.thresholds.getD ∅) (sinceRelease a (cb.run calls).2))
  spared : ∀ a, a = "" ∨ a ∈ cfg.exemptAgentIDs → (cb.run calls).1.isQuarantined a = false
  announced : ∀ a c, (openings a ((cb.run calls).1.call c).2).length =
    if (cb.run calls).1.isQuarantined a = false ∧
      (cb.run (calls ++ [c])).1.isQuarantined a = true then 1 else 0
  forgets : ∀ a actor now later, (cb.run calls).1.isQuarantined a = true →
    let released := ((cb.run calls).1.call (.unquarantine a actor now)).1
    (released.run later).1.isQuarantined a = (cb.run later).1.isQuarantined a ∧
      (released.run later).2.map (decision a) = (cb.run later).2.map (decision a)

theorem newCircuitBreaker_ok {cfg : CircuitBreakerConfig} {cb : CircuitBreaker}
    (h : newCircuitBreaker cfg = .ok cb) : cfg.thresholds = some cb.thresholds ∧
      cb.exempt = cfg.exemptAgentIDs.filter (fun id => id ≠ "") ∧ cb.Fresh := by
  unfold newCircuitBreaker at h
  split at h
  · cases h
  · next thresholds hthresholds =>
      split at h
      · cases h
      · cases h
        exact ⟨hthresholds, rfl, rfl, rfl⟩

/-- On a clock that never goes back, every breaker follows the windows of its rules. -/
theorem follows_windows {cfg : CircuitBreakerConfig} {cb : CircuitBreaker}
    (hnew : newCircuitBreaker cfg = .ok cb) {calls : List BreakerCall}
    (hclock : (calls.filterMap BreakerCall.reading).Pairwise (· ≤ ·)) :
    FollowsWindows cfg cb calls := by
  obtain ⟨hcfg, hexempt, hfresh⟩ := newCircuitBreaker_ok hnew
  obtain ⟨hthresholds, hsame⟩ := CircuitBreaker.run_config cb calls
  refine ⟨fun a hnamed hsubject => ?_, fun a hspared => ?_, fun a c => ?_,
    fun a actor now later hopen => ?_⟩
  · obtain ⟨latest, hlatest⟩ := (calls.filterMap BreakerCall.reading).toFinset.exists_le
    have hmember : a ∉ cb.exempt := by
      rw [hexempt]
      exact fun h => hsubject (List.mem_of_mem_filter h)
    have htracks := CircuitBreaker.run_tracks hfresh hnamed hmember hclock
      fun now hnow => hlatest now (List.mem_toFinset.mpr hnow)
    rw [htracks.decided, hthresholds, hcfg, Option.getD_some]
  · refine CircuitBreaker.run_spared hfresh ?_ calls
    by_cases hnamed : a = ""
    · exact .inl hnamed
    · rw [hexempt]
      exact .inr (List.mem_filter.mpr ⟨hspared.resolve_left hnamed, decide_eq_true hnamed⟩)
  · rw [CircuitBreaker.run_concat]
    exact CircuitBreaker.openings_length _ a c
  · have hrun := (CircuitBreaker.alike_released hfresh hthresholds hsame hopen actor now).run later
    exact ⟨hrun.1.quarantined, hrun.2⟩

/-- Two tools denied in ten seconds. -/
def toolRules : CircuitBreakerConfig where
  thresholds := some (AList.insert "tool_denied" ⟨2, 10, false⟩ ∅)
  exemptAgentIDs := ["console", ""]

/-- Quarantined, released, and late enough after the release not to be quarantined again. -/
def deniedTools : List BreakerCall :=
  [.recordViolation "ada" "tool_denied" 0, .recordViolation "ada" "tool_denied" 9,
    .unquarantine "ada" "operator" 9, .recordViolation "ada" "tool_denied" 9,
    .recordViolation "console" "tool_denied" 12, .isQuarantined "ada",
    .recordViolation "ada" "tool_denied" 19]

theorem follows_windows_denied : ∃ cb, newCircuitBreaker toolRules = .ok cb ∧
    FollowsWindows toolRules cb deniedTools :=
  ⟨_, rfl, follows_windows rfl (by decide)⟩

end Persatrix.Breaker
