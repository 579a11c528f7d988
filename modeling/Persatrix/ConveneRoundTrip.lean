import Persatrix.ConveneTimers

/-!
# From a schedule to a persona and back

The writer arms exactly the timers of the schedule beside the others, and does so once. With
nothing to arm and nothing to drop it still orders the timers that are there.
-/
namespace Persatrix.Convene
open Standing
variable {ρ : Type} {b : Autonomy ρ} {schedule : List ConveneTimerSpec}

/-- The heartbeat of the block runs, and writing timers would silence it. -/
def silenced (b : Autonomy ρ) (specs : List ConveneSpec) : Bool :=
  !specs.isEmpty && b.wasScheduling && !b.hadTimersBlock

/-- What the schedule makes of a block. -/
structure Reconciled (b : Autonomy ρ) (schedule : List ConveneTimerSpec) (out : Autonomy ρ) :
    Prop where
  armed : (out.timerList.filter isConvene).map
      (fun t => (t.id, parseStandingConveneTimerID t.id, t.intervalSeconds)) =
    schedule.map fun t => (t.timerID, some t.channelID, (t.intervalSeconds : ℚ))
  others : (out.timerList.filter fun t => !isConvene t).Perm
    ((b.timerList.filter fun t => !isConvene t) ++
      if silenced b (schedule.map specOf) then [b.legacyTick] else [])
  level : out.level = if schedule ≠ [] ∧ b.wasScheduling = false then .value minSchedulerLevel
    else b.level
  runs : schedule ≠ [] → out.wasScheduling = true
  rest : out.tickIntervalSeconds = b.tickIntervalSeconds ∧ out.rest = b.rest
  again : mergeConveneTimers out (schedule.map specOf) = .ok out

/-- What the claim asks of a block and a schedule. -/
def Survives (b : Autonomy ρ) (schedule : List ConveneTimerSpec) : Prop :=
  (∃ out, mergeConveneTimers b (schedule.map specOf) = .ok out ∧ Reconciled b schedule out) ∧
    ((∀ t ∈ b.timerList, isConvene t = false) → mergeConveneTimers b [] = .ok b)

/-- The timers of the block are in the order of their ids. -/
def Ordered (b : Autonomy ρ) : Prop :=
  b.timerList.Pairwise fun t u => byteOrder t.id ≤ byteOrder u.id

/-! ### What survives -/

theorem preserved_eq (specs : List ConveneSpec) :
    preserved b specs = (b.timerList.filter fun t => !isConvene t) ++
      if silenced b specs then [b.legacyTick] else [] := by
  rw [preserved, silenced]
  split
  · next hsilenced =>
      -- the heartbeat is silenced only where there was no list of timers
      simp only [Bool.and_eq_true, Bool.not_eq_true'] at hsilenced
      have hempty : b.timerList = [] := Entry.getD_of_not_value hsilenced.2 []
      rw [hempty]
      rfl
  · rw [List.append_nil]

theorem isConvene_timerOf (t : ConveneTimerSpec) : isConvene (timerOf t) = true := by
  simp [isConvene, timerOf, conveneTimer]

theorem isConvene_legacyTick : isConvene b.legacyTick = false := by
  have hkinds : legacyTickKind ≠ standingConveneKind := by decide
  exact decide_eq_false hkinds

theorem preserved_not_convene {specs : List ConveneSpec} :
    ∀ t ∈ preserved b specs, isConvene t = false := by
  intro t ht
  rw [preserved_eq] at ht
  rcases List.mem_append.mp ht with ht | ht
  · simpa using (List.mem_filter.mp ht).2
  · split at ht
    · rw [List.mem_singleton.mp ht]
      exact isConvene_legacyTick
    · cases ht

/-- The block after the timers of a schedule have been armed. -/
def reconcile (b : Autonomy ρ) (schedule : List ConveneTimerSpec) : Autonomy ρ :=
  { b with
    timers :=
      if !schedule.isEmpty || b.hadTimersBlock then
        .value (sortByID (preserved b (schedule.map specOf) ++ schedule.map timerOf))
      else b.timers
    level :=
      if !schedule.isEmpty && !b.wasScheduling then .value minSchedulerLevel else b.level }

theorem merge_schedule (h : Armable (preserved b (schedule.map specOf)) schedule) :
    mergeConveneTimers b (schedule.map specOf) = .ok (reconcile b schedule) := by
  have hreserved : ∀ t ∈ schedule, t.timerID ∉ (preserved b (schedule.map specOf)).map Timer.id := by
    intro t ht hmem
    obtain ⟨u, hu, hid⟩ := List.mem_map.mp hmem
    exact h.free t ht u hu hid
  unfold mergeConveneTimers reconcile
  dsimp only
  rw [arm_schedule h hreserved]
  simp [Except.map]

/-! ### The block that is written -/

theorem timers_reconcile : (reconcile b schedule).timers =
    if !schedule.isEmpty || b.hadTimersBlock then
      .value (sortByID (preserved b (schedule.map specOf) ++ schedule.map timerOf))
    else b.timers := rfl

theorem timerList_reconcile : (reconcile b schedule).timerList =
    sortByID (preserved b (schedule.map specOf) ++ schedule.map timerOf) := by
  cases hwrite : !schedule.isEmpty || b.hadTimersBlock with
  | true =>
    rw [Autonomy.timerList, timers_reconcile, if_pos hwrite]
    rfl
  | false =>
    -- nothing is armed and there was no list of timers
    have htimers : (reconcile b schedule).timers = b.timers := by
      rw [timers_reconcile, hwrite]
      rfl
    simp only [Bool.or_eq_false_iff, Bool.not_eq_false', List.isEmpty_iff] at hwrite
    obtain ⟨rfl, hblock⟩ := hwrite
    have hempty : b.timerList = [] := Entry.getD_of_not_value hblock []
    rw [Autonomy.timerList, htimers, ← Autonomy.timerList, preserved_eq, hempty]
    rfl

theorem convene_of_preserved : (preserved b (schedule.map specOf) ++ schedule.map timerOf).filter
    isConvene = schedule.map timerOf := by
  rw [List.filter_append, List.filter_eq_nil_iff.mpr, List.nil_append,
    List.filter_eq_self.mpr]
  · intro t ht
    obtain ⟨u, -, rfl⟩ := List.mem_map.mp ht
    exact isConvene_timerOf u
  · intro t ht
    rw [preserved_not_convene t ht]
    exact Bool.false_ne_true

theorem others_of_preserved : (preserved b (schedule.map specOf) ++ schedule.map timerOf).filter
    (fun t => !isConvene t) = preserved b (schedule.map specOf) := by
  rw [List.filter_append, List.filter_eq_self.mpr, List.filter_eq_nil_iff.mpr, List.append_nil]
  · intro t ht
    obtain ⟨u, -, rfl⟩ := List.mem_map.mp ht
    rw [isConvene_timerOf]
    exact Bool.false_ne_true
  · intro t ht
    rw [preserved_not_convene t ht]
    rfl

/-- The convene timers of the block that is written are those of the schedule, in its order. -/
theorem convene_reconcile (hids : (schedule.map ConveneTimerSpec.timerID).Nodup)
    (hsorted : schedule.Pairwise fun t u => byteOrder t.timerID ≤ byteOrder u.timerID) :
    (reconcile b schedule).timerList.filter isConvene = schedule.map timerOf := by
  have hnodup : ((schedule.map timerOf).map fun t => byteOrder t.id).Nodup := by
    rw [List.map_map]
    have hmap : (fun t : Timer => byteOrder t.id) ∘ timerOf =
        byteOrder ∘ ConveneTimerSpec.timerID := rfl
    rw [hmap, ← List.map_map]
    exact hids.map byteOrder_injective
  have hpairwise : (schedule.map timerOf).Pairwise fun t u => byteOrder t.id ≤ byteOrder u.id := by
    rw [List.pairwise_map]
    exact hsorted
  have hfilter : (preserved b (schedule.map specOf) ++ schedule.map timerOf).filter isConvene =
      schedule.map timerOf := convene_of_preserved
  have hordered : (sortByID (preserved b (schedule.map specOf) ++ schedule.map timerOf)).filter
      isConvene = sortByID (schedule.map timerOf) := by
    have hfiltered : ((List.filter isConvene (preserved b (schedule.map specOf) ++
        schedule.map timerOf)).map fun t => byteOrder t.id).Nodup := by
      rw [hfilter]
      exact hnodup
    have hsame := filter_orderBy hfiltered fun _ _ _ _ (hle : byteOrder _ ≤ byteOrder _) => hle
    rw [hfilter] at hsame
    exact hsame
  rw [timerList_reconcile, hordered]
  exact orderBy_of_pairwise hpairwise

theorem others_reconcile : ((reconcile b schedule).timerList.filter fun t => !isConvene t).Perm
    (preserved b (schedule.map specOf)) := by
  rw [timerList_reconcile]
  have hperm := (perm_orderBy (fun t : Timer => byteOrder t.id)
    (preserved b (schedule.map specOf) ++ schedule.map timerOf)).filter fun t => !isConvene t
  rw [others_of_preserved] at hperm
  exact hperm

theorem wasScheduling_reconcile (h : schedule ≠ []) :
    (reconcile b schedule).wasScheduling = true := by
  have hlevel : (reconcile b schedule).level =
      if !b.wasScheduling then .value minSchedulerLevel else b.level := by
    rw [reconcile, List.isEmpty_eq_false_iff.mpr h]
    rfl
  rw [Autonomy.wasScheduling, hlevel]
  split
  · decide
  · next hwas => simpa [Autonomy.wasScheduling] using hwas

theorem hadTimersBlock_reconcile : (reconcile b schedule).hadTimersBlock =
    (!schedule.isEmpty || b.hadTimersBlock) := by
  rw [Autonomy.hadTimersBlock, timers_reconcile]
  split
  · next hwrite =>
      rw [hwrite]
      rfl
  · next hwrite =>
      rw [Bool.not_eq_true] at hwrite
      rw [hwrite]
      exact (Bool.or_eq_false_iff.mp hwrite).2

/-- A second application preserves what the first one preserved. -/
theorem preserved_reconcile : preserved (reconcile b schedule) (schedule.map specOf) =
    (reconcile b schedule).timerList.filter fun t => !isConvene t := by
  rw [preserved_eq, silenced, hadTimersBlock_reconcile]
  cases hschedule : schedule.isEmpty with
  | true => simp [hschedule]
  | false => simp

theorem reconcile_again : reconcile (reconcile b schedule) schedule = reconcile b schedule := by
  have hlist : sortByID (preserved (reconcile b schedule) (schedule.map specOf) ++
      schedule.map timerOf) = (reconcile b schedule).timerList := by
    rw [preserved_reconcile, timerList_reconcile]
    refine orderBy_eq_of_filter_key fun k => ?_
    -- ordering keeps the rows of one id as they were
    rw [List.filter_append, List.filter_append, List.filter_comm, sortByID, filter_key_orderBy,
      List.filter_comm, others_of_preserved]
  have hlevel : (if !schedule.isEmpty && !(reconcile b schedule).wasScheduling then
      .value minSchedulerLevel else (reconcile b schedule).level) = (reconcile b schedule).level := by
    rw [if_neg]
    simp only [Bool.and_eq_true, Bool.not_eq_true', not_and, List.isEmpty_eq_false_iff]
    intro hne
    rw [wasScheduling_reconcile hne]
    exact Bool.false_ne_true.symm
  have htimers : (if !schedule.isEmpty || (reconcile b schedule).hadTimersBlock then
      .value (reconcile b schedule).timerList else (reconcile b schedule).timers) =
      (reconcile b schedule).timers := by
    rw [hadTimersBlock_reconcile, ← Bool.or_assoc, Bool.or_self]
    split
    · next hwrite => rw [timerList_reconcile, timers_reconcile, if_pos hwrite]
    · rfl
  conv_lhs => rw [reconcile, hlist, hlevel, htimers]

/-! ### With nothing to arm -/

theorem merge_nil : mergeConveneTimers b [] = .ok (reconcile b []) :=
  @merge_schedule _ b [] ⟨by simp, by simp, by simp, List.nodup_nil, by simp⟩

/-- A block without convene timers comes back as it is if its timers are in order, else not. -/
theorem merge_nil_iff (hnone : ∀ t ∈ b.timerList, isConvene t = false) :
    mergeConveneTimers b [] = .ok b ↔ Ordered b := by
  have hkept : preserved b (List.map specOf []) = b.timerList := by
    rw [preserved_eq, List.filter_eq_self.mpr fun t ht => by rw [hnone t ht]; rfl]
    simp [silenced]
  have hlist : (reconcile b []).timerList = sortByID b.timerList := by
    rw [timerList_reconcile, hkept]
    simp
  rw [merge_nil, Except.ok.injEq]
  constructor
  · intro hsame
    have hsorted := pairwise_orderBy (fun t : Timer => byteOrder t.id) b.timerList
    change (sortByID b.timerList).Pairwise _ at hsorted
    rw [← hlist, hsame] at hsorted
    exact hsorted
  · intro hordered
    have htimers : (reconcile b []).timers = b.timers := by
      rw [timers_reconcile, hkept]
      split
      · next hwrite =>
          have hvalue : b.timers = .value b.timerList := by
            unfold Autonomy.hadTimersBlock at hwrite
            unfold Autonomy.timerList
            cases htimers : b.timers with
            | value timers => rfl
            | absent => simp [htimers, Entry.isValue] at hwrite
            | null => simp [htimers, Entry.isValue] at hwrite
          have hsorted : sortByID (b.timerList ++ List.map timerOf []) = b.timerList := by
            rw [List.map_nil, List.append_nil]
            exact orderBy_of_pairwise hordered
          rw [hsorted, hvalue]
      · rfl
    cases b with
    | mk level tick timers rest =>
      change (reconcile ⟨level, tick, timers, rest⟩ []).timers = timers at htimers
      change Autonomy.mk level tick (reconcile ⟨level, tick, timers, rest⟩ []).timers rest = _
      rw [htimers]

/-! ### Every schedule of a router -/

/-- The timers that the router lists for a convener. -/
def scheduleOf (autonomous : GoMap GoString AutonomousConfig) (convener : GoString) :
    List ConveneTimerSpec :=
  (standingConveneTimers autonomous).filter fun t => t.convenerID = convener

theorem reconciled (h : Armable (preserved b (schedule.map specOf)) schedule)
    (hsorted : schedule.Pairwise fun t u => byteOrder t.timerID ≤ byteOrder u.timerID) :
    Reconciled b schedule (reconcile b schedule) where
  armed := by
    rw [convene_reconcile h.nodup hsorted, List.map_map]
    refine List.map_congr_left fun t ht => ?_
    have hcodes := codes_agree (h.named t ht) (h.coded t ht)
    change (t.timerID, parseStandingConveneTimerID t.timerID, _) = _
    rw [hcodes.2.1]
    rfl
  others := by
    rw [← preserved_eq]
    exact others_reconcile
  level := by
    have hlevel : (reconcile b schedule).level =
        if !schedule.isEmpty && !b.wasScheduling then .value minSchedulerLevel else b.level := rfl
    rw [hlevel]
    simp [List.isEmpty_eq_false_iff]
  runs := wasScheduling_reconcile
  rest := ⟨rfl, rfl⟩
  again := by
    refine (merge_schedule ?_).trans (congrArg _ reconcile_again)
    refine ⟨h.named, h.coded, h.floor, h.nodup, fun t ht u hu => ?_⟩
    rw [preserved_reconcile] at hu
    exact h.free t ht u (others_reconcile.mem_iff.mp hu)

/-- A schedule survives the trip to a block and back, if and only if a block without convene
timers has its timers in the order of their ids. -/
theorem schedule_survives_iff (autonomous : GoMap GoString AutonomousConfig) (convener : GoString)
    (b : Autonomy ρ) (hnamed : ∀ t ∈ scheduleOf autonomous convener, named t.channelID = true)
    (hfree : ∀ u ∈ b.timerList, isConvene u = false →
      ∀ t ∈ scheduleOf autonomous convener, u.id ≠ t.timerID) :
    Survives b (scheduleOf autonomous convener) ↔
      ((∀ t ∈ b.timerList, isConvene t = false) → Ordered b) := by
  have hspec : ∀ t ∈ scheduleOf autonomous convener,
      Standing.standingConveneTimerID t.channelID = some t.timerID ∧ 1 ≤ t.intervalSeconds :=
    fun t ht => mem_standingConveneTimers (List.mem_of_mem_filter ht)
  have harm : Armable (preserved b ((scheduleOf autonomous convener).map specOf))
      (scheduleOf autonomous convener) := by
    refine ⟨hnamed, fun t ht => (hspec t ht).1, fun t ht => (hspec t ht).2, ?_, fun t ht u hu => ?_⟩
    · exact (nodup_timerIDs autonomous).sublist (List.filter_sublist.map _)
    · rw [preserved_eq] at hu
      rcases List.mem_append.mp hu with hu | hu
      · obtain ⟨hmem, hkind⟩ := List.mem_filter.mp hu
        exact hfree u hmem (by simpa using hkind) t ht
      · split at hu
        · rw [List.mem_singleton.mp hu]
          exact legacyTickID_ne (hspec t ht).1
        · cases hu
  have hsorted := (pairwise_timerIDs autonomous).filter fun t => t.convenerID = convener
  constructor
  · intro hsurvives hnone
    exact (merge_nil_iff hnone).mp (hsurvives.2 hnone)
  · intro hordered
    refine ⟨⟨_, merge_schedule harm, reconciled harm hsorted⟩, fun hnone => ?_⟩
    exact (merge_nil_iff hnone).mpr (hordered hnone)

/-- One armed standing channel. -/
def planningRegistry : GoMap GoString AutonomousConfig :=
  (∅ : GoMap GoString AutonomousConfig).insert (ascii "group:planning")
    ⟨true, ascii "ada", 3600, 5, 0⟩

def reactiveBlock : Autonomy Unit := ⟨.value (ascii "reactive"), some 30, .absent, ()⟩

theorem schedule_survives_planning : scheduleOf planningRegistry (ascii "ada") ≠ [] ∧
    Survives reactiveBlock (scheduleOf planningRegistry (ascii "ada")) := by
  refine ⟨by decide, ?_⟩
  refine (schedule_survives_iff planningRegistry (ascii "ada") reactiveBlock (by decide)
    (fun u hu => by cases hu)).mpr fun _ => ?_
  exact List.Pairwise.nil

/-- A persona that convenes nothing, whose timers are not in the order of their ids. -/
def unorderedBlock : Autonomy Unit :=
  ⟨.value (ascii "autonomous"), none,
    .value [⟨ascii "reflection", 60, ascii "reflection", none⟩,
      ⟨ascii "memory", 60, ascii "memory_consolidation", none⟩], ()⟩

theorem unordered_block_changed : ¬∀ (autonomous : GoMap GoString AutonomousConfig)
    (convener : GoString) (b : Autonomy Unit),
    (∀ t ∈ scheduleOf autonomous convener, named t.channelID = true) →
    (∀ u ∈ b.timerList, isConvene u = false →
      ∀ t ∈ scheduleOf autonomous convener, u.id ≠ t.timerID) →
    Survives b (scheduleOf autonomous convener) := by
  intro hall
  have hsurvives := hall ∅ [] unorderedBlock (fun t ht => by cases ht)
    (fun _ _ _ t ht => by cases ht)
  have hsame := hsurvives.2 (by decide)
  have hchanged : (mergeConveneTimers unorderedBlock []).toOption ≠ some unorderedBlock := by
    decide
  rw [hsame] at hchanged
  exact hchanged rfl

end Persatrix.Convene
