import Persatrix.Bytes
import Persatrix.GoValues
import Persatrix.OrderedRows
import Persatrix.Regex
import Mathlib.Data.List.Lex
import Mathlib.Data.Rat.Cast.Defs
import Mathlib.Algebra.Order.Ring.Rat

/-!
# Standing schedules

The timers that the armed standing channels of a router imply, and the two directions of the code
between a group channel and the id of its timer. Ids are compared byte by byte.
-/
namespace Persatrix.Standing

def groupPrefix : GoString := ascii "group:"
def standingConveneTimerPrefix : GoString := ascii "convene-"
def standingConveneKind : GoString := ascii "convene"

def alnum (b : UInt8) : Bool := 97 ≤ b && b ≤ 122 || 48 ≤ b && b ≤ 57

/-- `^[a-z0-9][a-z0-9-]*[a-z0-9]$` -/
def channelNamePattern : Regex UInt8 :=
  .seq (.cls alnum) (.seq (.star true (.cls fun b => alnum b || b = 45))
    (.seq (.cls alnum) .endOfText))

def matchesName (name : GoString) : Bool := (channelNamePattern.run name some).isSome

def cutPrefix (pre s : GoString) : Option GoString :=
  if pre.isPrefixOf s then some (s.drop pre.length) else none

@[simp] theorem cutPrefix_append (pre s : GoString) : cutPrefix pre (pre ++ s) = some s := by
  rw [cutPrefix, if_pos (List.isPrefixOf_iff_prefix.mpr (List.prefix_append _ _)),
    List.drop_left]

theorem eq_append_of_cutPrefix {pre s t : GoString} (h : cutPrefix pre s = some t) :
    s = pre ++ t := by
  unfold cutPrefix at h
  split at h
  · next hpre =>
      obtain ⟨u, rfl⟩ := List.isPrefixOf_iff_prefix.mp hpre
      rw [List.drop_left] at h
      rw [Option.some.inj h]
  · cases h

/-! ### The ids -/

def standingConveneTimerID (channelID : GoString) : Option GoString :=
  match cutPrefix groupPrefix channelID with
  | none => none
  | some name => if name = [] then none else some (standingConveneTimerPrefix ++ name)

def parseStandingConveneTimerID (timerID : GoString) : Option GoString :=
  match cutPrefix standingConveneTimerPrefix timerID with
  | none => none
  | some name => if matchesName name then some (groupPrefix ++ name) else none

theorem standingConveneTimerID_inj {a b id : GoString}
    (ha : standingConveneTimerID a = some id) (hb : standingConveneTimerID b = some id) :
    a = b := by
  unfold standingConveneTimerID at ha hb
  split at ha
  · cases ha
  · next name hname =>
      split at ha
      · cases ha
      · split at hb
        · cases hb
        · next name' hname' =>
            split at hb
            · cases hb
            · have hsame := (Option.some.inj ha).trans (Option.some.inj hb).symm
              rw [eq_append_of_cutPrefix hname, eq_append_of_cutPrefix hname',
                List.append_cancel_left hsame]

/-! ### The registry -/

/-- What the schedule reads of a channel's autonomous block. -/
structure AutonomousConfig where
  enabled : Bool
  convener : GoString
  scheduleIntervalSeconds : ℤ
  maxConvenings : ℤ
  standingBudgetTokens : ℤ
deriving DecidableEq

structure ConveneTimerSpec where
  channelID : GoString
  convenerID : GoString
  timerID : GoString
  kind : GoString
  intervalSeconds : ℤ
deriving DecidableEq

def deriveConveneTimer (channelID : GoString) (a : AutonomousConfig) : Option ConveneTimerSpec :=
  if !a.enabled || a.scheduleIntervalSeconds ≤ 0 || a.convener = [] then none
  else if a.maxConvenings ≤ 0 && a.standingBudgetTokens ≤ 0 then none
  else
    (standingConveneTimerID channelID).map fun timerID =>
      ⟨channelID, a.convener, timerID, standingConveneKind, a.scheduleIntervalSeconds⟩

/-- The order of ids. -/
def byteOrder (id : GoString) : List ℕ := id.map UInt8.toNat

theorem byteOrder_injective : Function.Injective byteOrder :=
  List.map_injective_iff.mpr fun _ _ => UInt8.toNat_inj.mp

def standingConveneTimers (autonomous : GoMap GoString AutonomousConfig) :
    List ConveneTimerSpec :=
  orderBy (fun t => byteOrder t.timerID)
    (autonomous.entries.filterMap fun e => deriveConveneTimer e.1 e.2)

theorem deriveConveneTimer_spec {channelID : GoString} {a : AutonomousConfig}
    {t : ConveneTimerSpec} (h : deriveConveneTimer channelID a = some t) :
    t.channelID = channelID ∧ standingConveneTimerID t.channelID = some t.timerID ∧
      1 ≤ t.intervalSeconds := by
  unfold deriveConveneTimer at h
  split at h
  · cases h
  · next harmed =>
      split at h
      · cases h
      · obtain ⟨id, hid, rfl⟩ := Option.map_eq_some_iff.mp h
        refine ⟨rfl, hid, ?_⟩
        simp only [Bool.or_eq_true, decide_eq_true_eq, not_or] at harmed
        change 1 ≤ a.scheduleIntervalSeconds
        omega

theorem mem_standingConveneTimers {autonomous : GoMap GoString AutonomousConfig}
    {t : ConveneTimerSpec} (h : t ∈ standingConveneTimers autonomous) :
    standingConveneTimerID t.channelID = some t.timerID ∧ 1 ≤ t.intervalSeconds := by
  obtain ⟨e, -, he⟩ := List.mem_filterMap.mp (mem_orderBy.mp h)
  exact (deriveConveneTimer_spec he).2

/-- Each channel has one timer at most, and no two channels share an id. -/
theorem nodup_timerIDs (autonomous : GoMap GoString AutonomousConfig) :
    ((standingConveneTimers autonomous).map ConveneTimerSpec.timerID).Nodup := by
  refine ((perm_orderBy _ _).map _).nodup_iff.mpr ?_
  have hchannels : (autonomous.entries.map Sigma.fst).Nodup := autonomous.nodupKeys
  generalize autonomous.entries = entries at hchannels
  induction entries with
  | nil => exact List.nodup_nil
  | cons e entries ih =>
    rw [List.map_cons, List.nodup_cons] at hchannels
    rw [List.filterMap_cons]
    split
    · exact ih hchannels.2
    · next t ht =>
        rw [List.map_cons, List.nodup_cons]
        refine ⟨fun hmem => hchannels.1 ?_, ih hchannels.2⟩
        obtain ⟨u, hu, hid⟩ := List.mem_map.mp hmem
        obtain ⟨e', he', hu'⟩ := List.mem_filterMap.mp hu
        obtain ⟨hchannel, htimer, -⟩ := deriveConveneTimer_spec ht
        obtain ⟨hchannel', htimer', -⟩ := deriveConveneTimer_spec hu'
        rw [hid] at htimer'
        have hsame := standingConveneTimerID_inj htimer htimer'
        rw [← hchannel, hsame, hchannel']
        exact List.mem_map_of_mem he'

theorem pairwise_timerIDs (autonomous : GoMap GoString AutonomousConfig) :
    (standingConveneTimers autonomous).Pairwise fun t u =>
      byteOrder t.timerID ≤ byteOrder u.timerID := pairwise_orderBy _ _

end Persatrix.Standing

/-!
## The convene timers of a persona

The writer makes the convene timers of an autonomy block those of the standing channels that the
persona convenes. A key of the block is absent, null or has a value; only a list of timers turns
the legacy heartbeat off.
-/
namespace Persatrix.Convene
open Standing

def standingConveneTimerID (channelID : GoString) : Option GoString :=
  match cutPrefix groupPrefix channelID with
  | none => none
  | some name => if matchesName name then some (standingConveneTimerPrefix ++ name) else none

def parseStandingConveneTimerID (timerID : GoString) : Option GoString :=
  match cutPrefix standingConveneTimerPrefix timerID with
  | none => none
  | some name => if matchesName name then some (groupPrefix ++ name) else none

structure Timer where
  id : GoString
  intervalSeconds : ℚ
  kind : GoString
  jitterMaxSeconds : Option ℚ
deriving DecidableEq

/-- What a block has under a key. -/
inductive Entry (α : Type) where
  | absent
  | null
  | value (a : α)
deriving DecidableEq

namespace Entry
variable {α : Type}

def isValue : Entry α → Bool
  | .value _ => true
  | .absent | .null => false

def getD : Entry α → α → α
  | .value a, _ => a
  | .absent, default | .null, default => default

theorem getD_of_not_value {e : Entry α} (h : e.isValue = false) (default : α) :
    e.getD default = default := by
  cases e with
  | value a => cases h
  | absent => rfl
  | null => rfl

end Entry

/-- An autonomy block; `ρ` is the type of its other keys. -/
structure Autonomy (ρ : Type) where
  level : Entry GoString
  tickIntervalSeconds : Option ℤ
  timers : Entry (List Timer)
  rest : ρ
deriving DecidableEq

structure ConveneSpec where
  channelID : GoString
  intervalSeconds : ℤ
deriving DecidableEq

inductive ConveneError where
  | nonGroup (channelID : GoString)
  | belowFloor (channelID : GoString) (intervalSeconds : ℤ)
  | collides (timerID channelID : GoString)
deriving DecidableEq

def schedulerLevels : List GoString := [ascii "semi-autonomous", ascii "autonomous"]
def minSchedulerLevel : GoString := ascii "semi-autonomous"
def legacyTickID : GoString := ascii "legacy_tick"
def legacyTickKind : GoString := ascii "tick"
def defaultTickIntervalSeconds : ℤ := 60
def minIntervalSeconds : ℤ := 1

/-- Whether the level is one that runs a scheduler; an absent level is `reactive`. -/
def runsScheduler : Entry GoString → Bool
  | .value level => schedulerLevels.contains level
  | .absent | .null => false

namespace Autonomy
variable {ρ : Type}

def wasScheduling (b : Autonomy ρ) : Bool := runsScheduler b.level
def hadTimersBlock (b : Autonomy ρ) : Bool := b.timers.isValue
def timerList (b : Autonomy ρ) : List Timer := b.timers.getD []

def legacyTick (b : Autonomy ρ) : Timer :=
  ⟨legacyTickID, b.tickIntervalSeconds.getD defaultTickIntervalSeconds, legacyTickKind, none⟩

end Autonomy

def isConvene (t : Timer) : Bool := t.kind = standingConveneKind

def upsertByID (entry : Timer) : List Timer → List Timer
  | [] => [entry]
  | t :: timers => if t.id = entry.id then entry :: timers else t :: upsertByID entry timers

def conveneTimer (timerID : GoString) (intervalSeconds : ℤ) : Timer :=
  ⟨timerID, intervalSeconds, standingConveneKind, none⟩

def arm (reserved : List GoString) (timers : List Timer) (spec : ConveneSpec) :
    Except ConveneError (List Timer) :=
  match standingConveneTimerID spec.channelID with
  | none => .error (.nonGroup spec.channelID)
  | some timerID =>
    if spec.intervalSeconds < minIntervalSeconds then
      .error (.belowFloor spec.channelID spec.intervalSeconds)
    else if reserved.contains timerID then .error (.collides timerID spec.channelID)
    else .ok (upsertByID (conveneTimer timerID spec.intervalSeconds) timers)

def sortByID (timers : List Timer) : List Timer := orderBy (fun t => byteOrder t.id) timers

section Merge
variable {ρ : Type}

/-- The timers that survive, with the heartbeat that a list of timers would silence. -/
def preserved (b : Autonomy ρ) (specs : List ConveneSpec) : List Timer :=
  let kept := b.timerList.filter fun t => !isConvene t
  if !specs.isEmpty && b.wasScheduling && !b.hadTimersBlock then upsertByID b.legacyTick kept
  else kept

def mergeConveneTimers (b : Autonomy ρ) (specs : List ConveneSpec) :
    Except ConveneError (Autonomy ρ) :=
  let base := preserved b specs
  (specs.foldlM (arm (base.map Timer.id)) base).map fun timers =>
    { b with
      timers :=
        if !specs.isEmpty || b.hadTimersBlock then .value (sortByID timers) else b.timers
      level :=
        if !specs.isEmpty && !b.wasScheduling then .value minSchedulerLevel else b.level }

end Merge

/-! ### The two codes -/

/-- The name of a group channel is one that the pattern accepts. -/
def named (channelID : GoString) : Bool := (cutPrefix groupPrefix channelID).any matchesName

/-- Where the name is accepted the two encoders agree, and both decoders read the id back. -/
theorem codes_agree {channelID timerID : GoString} (hnamed : named channelID = true)
    (h : Standing.standingConveneTimerID channelID = some timerID) :
    standingConveneTimerID channelID = some timerID ∧
      parseStandingConveneTimerID timerID = some channelID ∧
      Standing.parseStandingConveneTimerID timerID = some channelID := by
  unfold named at hnamed
  unfold Standing.standingConveneTimerID at h
  split at h
  · cases h
  · next name hname =>
      rw [hname, Option.any_some] at hnamed
      split at h
      · cases h
      · cases h
        rw [eq_append_of_cutPrefix hname]
        simp [standingConveneTimerID, parseStandingConveneTimerID,
          Standing.parseStandingConveneTimerID, hnamed]

theorem legacyTickID_ne {channelID timerID : GoString}
    (h : Standing.standingConveneTimerID channelID = some timerID) : legacyTickID ≠ timerID := by
  unfold Standing.standingConveneTimerID at h
  split at h
  · cases h
  · split at h
    · cases h
    · cases h
      intro hsame
      have hhead := congrArg (List.take 1) hsame
      rw [List.take_append_of_le_length (by decide)] at hhead
      exact absurd hhead (by decide)

/-! ### The loop over the specs -/

theorem upsertByID_of_fresh {entry : Timer} {timers : List Timer}
    (h : ∀ t ∈ timers, t.id ≠ entry.id) : upsertByID entry timers = timers ++ [entry] := by
  induction timers with
  | nil => rfl
  | cons t timers ih =>
    rw [List.forall_mem_cons] at h
    rw [upsertByID, if_neg h.1, ih h.2]
    rfl

def specOf (t : ConveneTimerSpec) : ConveneSpec := ⟨t.channelID, t.intervalSeconds⟩

def timerOf (t : ConveneTimerSpec) : Timer := conveneTimer t.timerID t.intervalSeconds

/-- The timers of a schedule can be armed beside those that are there. -/
structure Armable (timers : List Timer) (schedule : List ConveneTimerSpec) : Prop where
  named : ∀ t ∈ schedule, named t.channelID = true
  coded : ∀ t ∈ schedule, Standing.standingConveneTimerID t.channelID = some t.timerID
  floor : ∀ t ∈ schedule, 1 ≤ t.intervalSeconds
  nodup : (schedule.map ConveneTimerSpec.timerID).Nodup
  free : ∀ t ∈ schedule, ∀ u ∈ timers, u.id ≠ t.timerID

theorem arm_schedule {reserved : List GoString} {timers : List Timer}
    {schedule : List ConveneTimerSpec} (h : Armable timers schedule)
    (hreserved : ∀ t ∈ schedule, t.timerID ∉ reserved) :
    (schedule.map specOf).foldlM (arm reserved) timers =
      .ok (timers ++ schedule.map timerOf) := by
  induction schedule generalizing timers with
  | nil => simp [pure, Except.pure]
  | cons t schedule ih =>
    have hcode := (codes_agree (h.named t List.mem_cons_self) (h.coded t List.mem_cons_self)).1
    have hfloor := h.floor t List.mem_cons_self
    have hfree := hreserved t List.mem_cons_self
    have hfirst : arm reserved timers (specOf t) = .ok (timers ++ [timerOf t]) := by
      unfold arm specOf
      rw [hcode]
      dsimp only
      rw [if_neg (by simp only [minIntervalSeconds]; omega), if_neg (by simpa using hfree),
        upsertByID_of_fresh fun u hu => h.free t List.mem_cons_self u hu]
      rfl
    have hnodup := List.nodup_cons.mp h.nodup
    have hrest : Armable (timers ++ [timerOf t]) schedule := by
      refine ⟨fun u hu => h.named u (List.mem_cons_of_mem _ hu),
        fun u hu => h.coded u (List.mem_cons_of_mem _ hu),
        fun u hu => h.floor u (List.mem_cons_of_mem _ hu), hnodup.2, fun u hu v hv => ?_⟩
      rcases List.mem_append.mp hv with hv | hv
      · exact h.free u (List.mem_cons_of_mem _ hu) v hv
      · rw [List.mem_singleton] at hv
        subst hv
        exact fun hsame => hnodup.1 (List.mem_map.mpr ⟨u, hu, hsame.symm⟩)
    rw [List.map_cons, List.foldlM_cons, hfirst]
    change (schedule.map specOf).foldlM (arm reserved) (timers ++ [timerOf t]) = _
    rw [ih hrest fun u hu => hreserved u (List.mem_cons_of_mem _ hu)]
    simp

end Persatrix.Convene
