import Persatrix.ConveneTimers
import Persatrix.MembershipStore
import Persatrix.NetAddress

/-!
# The governance of a channel, declared and edited

A channel is declared by a block of the config, which is checked when the config is loaded. An
operator edits it through a set of overrides, which is checked against the store. A name and the
items of an agenda are read byte by byte.
-/
namespace Persatrix.ChannelConfigs
open Channels Memberships

/-! ### Errors -/

/-- A `float64`. -/
inductive Threshold where
  | nan
  | inf (neg : Bool)
  | finite (q : ℚ)
deriving DecidableEq

/-- `math.IsNaN(t) || t < 0.0 || t > 1.0`. -/
def Threshold.outOfRange : Threshold → Bool
  | nan => true
  | inf _ => true
  | finite q => q < 0 || 1 < q

/-- Why a member cannot fill a role. -/
inductive RoleFault where
  | empty
  | isChair
  | notMember
  | observer
  | floorControlOff
deriving DecidableEq

inductive ConfigError where
  | maxCascadeDepth (n : ℤ)
  | aboveFleetCap (n fleet : ℤ)
  | interactionBudgetTokens (n : ℤ)
  | interactionIdleTimeout (n : ℤ)
  | maxRepliesPerParticipant (n : ℤ)
  | classification (level : String)
  | channelCapExceeded (declared : ℕ) (cap : ℤ)
  | nameRequired
  | name (name : GoString)
  | duplicateName (name : GoString)
  | configRevision (n : ℤ)
  | floorTurnTimeout (n : ℤ)
  | salienceMaxChannelMembers (n : ℤ)
  | escalationChair (id : String) (fault : RoleFault)
  | endVoteThreshold (n : ℤ)
  | endVoteWindow (n : ℤ)
  | reasoningMode (mode : String)
  | reasoningUngoverned (mode : String)
  | reasoningModel (model : String)
  | reasoningDepth (depth : String)
  | reasoningRevise (n : ℤ)
  | reviseWithoutPlan (n : ℤ)
  | autonomousMaxRounds (n : ℤ)
  | autonomousSchedule (n : ℤ)
  | autonomousMaxConvenings (n : ℤ)
  | autonomousStandingBudget (n : ℤ)
  | autonomousAgenda (items : ℕ)
  | blankAgendaItem (i : ℕ)
  | autonomousCapRequired
  | autonomousConvener (id : String) (fault : RoleFault)
  | autonomousChairRequired
  | autonomousStandingBoundRequired
  | autonomousNotGroup (type : ChannelType)
  | memberRequired
  | participantID (id : String)
  | duplicateMember (id : String)
  | respondPolicy (policy : String)
  | threshold (t : Threshold)
  | thresholdNotApplicable (policy : String) (t : Threshold)
  | store (e : StoreError)
  /-- The place of an error in the config, or the call that it is wrapped by. -/
  | inChannel (i : ℕ) (name : GoString) (e : ConfigError)
  | inMember (j : ℕ) (id : Option String) (e : ConfigError)
  | applyConfig (channelID : GoString) (e : ConfigError)

abbrev Check := Except ConfigError Unit

/-- `if c { return e }`. -/
def reject (c : Prop) [Decidable c] (e : ConfigError) : Check := if c then .error e else .ok ()

/-! ### Blocks of the config -/

structure MemberConfig where
  id : String
  respondPolicy : String
  threshold : Option Threshold
  salienceGated : Bool
deriving DecidableEq

structure ReasoningConfig where
  mode : String
  model : String
  depth : String
  revise : ℤ
deriving DecidableEq

structure AutonomousConfig where
  enabled : Bool
  topic : String
  agenda : List GoString
  convener : String
  goal : String
  maxRounds : ℤ
  scheduleIntervalSeconds : ℤ
  maxConvenings : ℤ
  standingBudgetTokens : ℤ
deriving DecidableEq

structure ChannelConfig where
  name : GoString
  members : List MemberConfig
  revision : ℤ
  floorControl : Option Bool
  floorTurnTimeoutSeconds : ℤ
  salienceMaxChannelMembers : ℤ
  maxCascadeDepth : ℤ
  interactionBudgetTokens : ℤ
  maxRepliesPerParticipantPerInteraction : ℤ
  endVoteThreshold : ℤ
  endVoteWindow : ℤ
  escalationChairID : String
  interactionIdleTimeoutSeconds : Option ℤ
  reasoning : ReasoningConfig
  autonomous : AutonomousConfig
  classification : String

structure Config where
  maxChannels : ℤ
  channels : List ChannelConfig
  maxCascadeDepth : ℤ
  defaultInteractionBudgetTokens : ℤ
  defaultMaxRepliesPerParticipant : ℤ
  defaultInteractionIdleTimeoutSeconds : Option ℤ
  dmDefaultClassification : String

/-! ### Defaults -/

def defaultMaxChannels : ℤ := 50
def defaultMaxCascadeDepth : ℤ := 5
def defaultInteractionIdleTimeoutSeconds : ℤ := 600
def defaultFloorTurnTimeoutSeconds : ℤ := 45
def defaultSalienceMaxChannelMembers : ℤ := 20
def defaultEndVoteThreshold : ℤ := 2
def defaultEndVoteWindow : ℤ := 3
def defaultClassification : String := "internal"

def reasoningModeOff : String := "off"
def reasoningModeBid : String := "bid"
def reasoningModePlan : String := "plan"
def reasoningModelFast : String := "fast"
def reasoningModelQuality : String := "quality"
def reasoningDepthShallow : String := "shallow"
def maxReasoningRevise : ℤ := 2

def defaultAutonomousMaxRounds : ℤ := 8
def maxAutonomousAgendaItems : ℕ := 64

def governedDefaultMode (governed : Bool) : String :=
  if governed then reasoningModeBid else reasoningModeOff

def governedReasoningBase (governed : Bool) : ReasoningConfig :=
  ⟨governedDefaultMode governed, reasoningModelFast, reasoningDepthShallow, 0⟩

def defaultAutonomousConfig : AutonomousConfig where
  enabled := false
  topic := ""
  agenda := []
  convener := ""
  goal := ""
  maxRounds := defaultAutonomousMaxRounds
  scheduleIntervalSeconds := 0
  maxConvenings := 0
  standingBudgetTokens := 0

/-- The zero value of a field stands for its default. -/
def fill {α : Type} [DecidableEq α] (zero value x : α) : α := if x = zero then value else x

def ReasoningConfig.normalizedForGovernance (governed : Bool) (rc : ReasoningConfig) :
    ReasoningConfig :=
  { rc with
    mode := fill "" (governedDefaultMode governed) rc.mode
    model := fill "" reasoningModelFast rc.model
    depth := fill "" reasoningDepthShallow rc.depth }

def AutonomousConfig.normalized (a : AutonomousConfig) : AutonomousConfig :=
  { a with maxRounds := fill 0 defaultAutonomousMaxRounds a.maxRounds }

namespace ChannelConfig
variable (c : ChannelConfig)

def canonicalID : GoString := Standing.groupPrefix ++ c.name

def governed : Bool := c.members.any MemberConfig.salienceGated

def floorControlEnabled : Bool := c.floorControl.getD true

def resolveMaxRepliesPerParticipant (fleetDefault : ℤ) : ℤ :=
  if 0 < c.maxRepliesPerParticipantPerInteraction then c.maxRepliesPerParticipantPerInteraction
  else fleetDefault

def resolveInteractionBudgetTokens (fleetDefault : ℤ) : ℤ :=
  if 0 < c.interactionBudgetTokens then c.interactionBudgetTokens else fleetDefault

def resolveInteractionIdleTimeoutSeconds (fleetDefault : Option ℤ) : ℤ :=
  match c.interactionIdleTimeoutSeconds, fleetDefault with
  | some n, _ => n
  | none, some n => n
  | none, none => defaultInteractionIdleTimeoutSeconds

/-- What `LoadConfig` fills in. -/
def filled : ChannelConfig :=
  { c with
    floorTurnTimeoutSeconds := fill 0 defaultFloorTurnTimeoutSeconds c.floorTurnTimeoutSeconds
    salienceMaxChannelMembers :=
      fill 0 defaultSalienceMaxChannelMembers c.salienceMaxChannelMembers
    endVoteThreshold := fill 0 defaultEndVoteThreshold c.endVoteThreshold
    endVoteWindow := fill 0 defaultEndVoteWindow c.endVoteWindow
    reasoning := c.reasoning.normalizedForGovernance c.governed
    autonomous := c.autonomous.normalized
    classification := fill "" defaultClassification c.classification }

end ChannelConfig

def Config.resolvedMaxCascadeDepth (c : Config) : ℤ :=
  if 0 < c.maxCascadeDepth then c.maxCascadeDepth else defaultMaxCascadeDepth

def validClassification (level : String) : Bool :=
  level ∈ ["public", "internal", "restricted", "secret"]

/-! ### The checks of a load -/

/-- The vocabularies, the range of `revise` and what needs the other fields or the members. -/
def ReasoningConfig.validate (governed : Bool) (rc : ReasoningConfig) : Check := do
  reject (rc.mode ∉ [reasoningModeOff, reasoningModeBid, reasoningModePlan])
    (.reasoningMode rc.mode)
  reject (rc.mode ≠ reasoningModeOff ∧ governed = false) (.reasoningUngoverned rc.mode)
  reject (rc.model ∉ [reasoningModelFast, reasoningModelQuality]) (.reasoningModel rc.model)
  reject (rc.depth ≠ reasoningDepthShallow) (.reasoningDepth rc.depth)
  reject (rc.revise < 0 ∨ maxReasoningRevise < rc.revise) (.reasoningRevise rc.revise)
  reject (1 ≤ rc.revise ∧ rc.mode ≠ reasoningModePlan) (.reviseWithoutPlan rc.revise)

/-- The items from the index `i` on. -/
def validateAgendaItems : ℕ → List GoString → Check
  | _, [] => .ok ()
  | i, item :: rest => do
    reject (Net.trimSpace item = []) (.blankAgendaItem i)
    validateAgendaItems (i + 1) rest

def validateAgenda (agenda : List GoString) : Check := do
  reject (maxAutonomousAgendaItems < agenda.length) (.autonomousAgenda agenda.length)
  validateAgendaItems 0 agenda

def AutonomousConfig.validateFields (a : AutonomousConfig) : Check := do
  reject (a.maxRounds < 0) (.autonomousMaxRounds a.maxRounds)
  reject (a.scheduleIntervalSeconds < 0) (.autonomousSchedule a.scheduleIntervalSeconds)
  reject (a.maxConvenings < 0) (.autonomousMaxConvenings a.maxConvenings)
  reject (a.standingBudgetTokens < 0) (.autonomousStandingBudget a.standingBudgetTokens)
  validateAgenda a.agenda

def standingBoundMissing (scheduleIntervalSeconds maxConvenings standingBudgetTokens : ℤ) : Bool :=
  0 < scheduleIntervalSeconds && maxConvenings ≤ 0 && standingBudgetTokens ≤ 0

def validateConvenerMembership (ch : ChannelConfig) : Check :=
  let convener := ch.autonomous.convener
  if convener = "" then .error (.autonomousConvener convener .empty)
  else if convener = ch.escalationChairID then .error (.autonomousConvener convener .isChair)
  else
    match ch.members.find? fun m => m.id = convener with
    | none => .error (.autonomousConvener convener .notMember)
    | some m => reject (normalize m.respondPolicy = respondNever)
        (.autonomousConvener convener .observer)

/-- The chair of a block, where it has one. -/
def validateChair (ch : ChannelConfig) : Check :=
  let chairID := ch.escalationChairID
  if chairID = "" then .ok ()
  else
    match ch.members.find? fun m => m.id = chairID with
    | none => .error (.escalationChair chairID .notMember)
    | some m => do
      reject (normalize m.respondPolicy = respondNever) (.escalationChair chairID .observer)
      reject (ch.floorControlEnabled = false) (.escalationChair chairID .floorControlOff)

/-- The rules for a block that is armed. -/
def validateArmed (c : Config) (ch : ChannelConfig) : Check :=
  if ch.autonomous.enabled then do
    reject (ch.resolveInteractionBudgetTokens c.defaultInteractionBudgetTokens ≤ 0)
      .autonomousCapRequired
    validateConvenerMembership ch
    reject (ch.escalationChairID = "") .autonomousChairRequired
    reject (standingBoundMissing ch.autonomous.scheduleIntervalSeconds ch.autonomous.maxConvenings
      ch.autonomous.standingBudgetTokens = true) .autonomousStandingBoundRequired
  else .ok ()

def MemberConfig.validate (j : ℕ) (seen : List String) (m : MemberConfig) : Check := do
  reject (validateParticipantID m.id = false) (.inMember j none (.participantID m.id))
  reject (m.id ∈ seen) (.inMember j none (.duplicateMember m.id))
  reject (valid m.respondPolicy = false) (.inMember j m.id (.respondPolicy m.respondPolicy))
  match m.threshold with
  | none => .ok ()
  | some t => do
    reject (t.outOfRange = true) (.inMember j m.id (.threshold t))
    reject (m.respondPolicy ≠ respondAlways)
      (.inMember j m.id (.thresholdNotApplicable m.respondPolicy t))

/-- The members from the index `j` on, after those that are seen. -/
def validateMembers : ℕ → List String → List MemberConfig → Check
  | _, _, [] => .ok ()
  | j, seen, m :: rest => do
    m.validate j seen
    validateMembers (j + 1) (m.id :: seen) rest

/-- The ranges that are checked before the chair. -/
def validateRanges (c : Config) (ch : ChannelConfig) : Check := do
  reject (ch.classification ≠ "" ∧ validClassification ch.classification = false)
    (.classification ch.classification)
  reject (ch.revision < 0) (.configRevision ch.revision)
  reject (ch.floorTurnTimeoutSeconds < 0) (.floorTurnTimeout ch.floorTurnTimeoutSeconds)
  reject (ch.salienceMaxChannelMembers < 0)
    (.salienceMaxChannelMembers ch.salienceMaxChannelMembers)
  reject (ch.maxCascadeDepth < 0) (.maxCascadeDepth ch.maxCascadeDepth)
  reject (c.resolvedMaxCascadeDepth < ch.maxCascadeDepth)
    (.aboveFleetCap ch.maxCascadeDepth c.resolvedMaxCascadeDepth)
  reject (ch.interactionBudgetTokens < 0) (.interactionBudgetTokens ch.interactionBudgetTokens)

/-- The ranges that are checked after it. -/
def validateWindows (ch : ChannelConfig) : Check := do
  reject (∃ n ∈ ch.interactionIdleTimeoutSeconds, n < 0)
    (.interactionIdleTimeout (ch.interactionIdleTimeoutSeconds.getD 0))
  reject (ch.maxRepliesPerParticipantPerInteraction < 0)
    (.maxRepliesPerParticipant ch.maxRepliesPerParticipantPerInteraction)
  reject (ch.endVoteThreshold < 0) (.endVoteThreshold ch.endVoteThreshold)
  reject (ch.endVoteWindow < 0) (.endVoteWindow ch.endVoteWindow)

def validateChannel (c : Config) (i : ℕ) (seen : List GoString) (ch : ChannelConfig) : Check := do
  reject (ch.name = []) (.inChannel i [] .nameRequired)
  reject (Standing.matchesName ch.name = false) (.inChannel i [] (.name ch.name))
  reject (ch.name ∈ seen) (.inChannel i [] (.duplicateName ch.name))
  Except.mapError (.inChannel i ch.name) do
    validateRanges c ch
    validateChair ch
    validateWindows ch
    (ch.reasoning.normalizedForGovernance ch.governed).validate ch.governed
    ch.autonomous.normalized.validateFields
    validateArmed c ch
    reject (ch.members = []) .memberRequired
    validateMembers 0 [] ch.members

/-- The channels from the index `i` on, after those that are seen. -/
def validateChannels (c : Config) : ℕ → List GoString → List ChannelConfig → Check
  | _, _, [] => .ok ()
  | i, seen, ch :: rest => do
    validateChannel c i seen ch
    validateChannels c (i + 1) (ch.name :: seen) rest

def Config.validate (c : Config) : Check := do
  reject (c.maxCascadeDepth < 0) (.maxCascadeDepth c.maxCascadeDepth)
  reject (c.defaultInteractionBudgetTokens < 0)
    (.interactionBudgetTokens c.defaultInteractionBudgetTokens)
  reject (∃ n ∈ c.defaultInteractionIdleTimeoutSeconds, n < 0)
    (.interactionIdleTimeout (c.defaultInteractionIdleTimeoutSeconds.getD 0))
  reject (c.defaultMaxRepliesPerParticipant < 0)
    (.maxRepliesPerParticipant c.defaultMaxRepliesPerParticipant)
  reject (c.dmDefaultClassification ≠ "" ∧ validClassification c.dmDefaultClassification = false)
    (.classification c.dmDefaultClassification)
  reject (c.maxChannels < c.channels.length) (.channelCapExceeded c.channels.length c.maxChannels)
  validateChannels c 0 [] c.channels

/-- What `LoadConfig` makes of a parsed file before it is checked. -/
def Config.filled (c : Config) : Config :=
  { c with
    maxChannels := if c.maxChannels ≤ 0 then defaultMaxChannels else c.maxChannels
    channels := c.channels.map ChannelConfig.filled
    dmDefaultClassification := fill "" defaultClassification c.dmDefaultClassification }

def loadConfig (c : Config) : Except ConfigError Config := do
  c.filled.validate
  return c.filled

/-! ### Overrides -/

/-- A knob that is not set is inherited. -/
structure ReasoningOverrides where
  mode : Option String := none
  model : Option String := none
  depth : Option String := none
  revise : Option ℤ := none
deriving DecidableEq

structure AutonomousOverrides where
  enabled : Option Bool := none
  topic : Option String := none
  agenda : Option (List GoString) := none
  convener : Option String := none
  goal : Option String := none
  maxRounds : Option ℤ := none
  scheduleIntervalSeconds : Option ℤ := none
  maxConvenings : Option ℤ := none
  standingBudgetTokens : Option ℤ := none
deriving DecidableEq

structure ChannelConfigOverrides where
  floorControl : Option Bool := none
  salienceMaxChannelMembers : Option ℤ := none
  maxCascadeDepth : Option ℤ := none
  interactionBudgetTokens : Option ℤ := none
  maxRepliesPerParticipantPerInteraction : Option ℤ := none
  endVoteThreshold : Option ℤ := none
  endVoteWindow : Option ℤ := none
  escalationChairID : Option String := none
  interactionIdleTimeoutSeconds : Option ℤ := none
  reasoning : Option ReasoningOverrides := none
  autonomous : Option AutonomousOverrides := none

/-- A value that is not the default. -/
def keep {α : Type} [DecidableEq α] (default x : α) : Option α :=
  if x = default then none else some x

def ReasoningConfig.freezeOverrides (governed : Bool) (rc : ReasoningConfig) :
    Option ReasoningOverrides :=
  keep {}
    { mode := keep (governedDefaultMode governed) rc.mode
      model := keep reasoningModelFast rc.model
      depth := keep reasoningDepthShallow rc.depth
      revise := keep 0 rc.revise }

def AutonomousConfig.freezeOverrides (a : AutonomousConfig) : Option AutonomousOverrides :=
  keep {}
    { enabled := keep false a.enabled
      topic := keep "" a.topic
      agenda := keep [] a.agenda
      convener := keep "" a.convener
      goal := keep "" a.goal
      maxRounds := keep defaultAutonomousMaxRounds a.maxRounds
      scheduleIntervalSeconds := keep 0 a.scheduleIntervalSeconds
      maxConvenings := keep 0 a.maxConvenings
      standingBudgetTokens := keep 0 a.standingBudgetTokens }

def ChannelConfig.toConfigOverrides (cfg : Config) (c : ChannelConfig) :
    ChannelConfigOverrides where
  floorControl := some c.floorControlEnabled
  salienceMaxChannelMembers := some c.salienceMaxChannelMembers
  maxCascadeDepth := if 0 < c.maxCascadeDepth then some c.maxCascadeDepth else none
  interactionBudgetTokens :=
    some (c.resolveInteractionBudgetTokens cfg.defaultInteractionBudgetTokens)
  maxRepliesPerParticipantPerInteraction :=
    some (c.resolveMaxRepliesPerParticipant cfg.defaultMaxRepliesPerParticipant)
  endVoteThreshold := some c.endVoteThreshold
  endVoteWindow := some c.endVoteWindow
  escalationChairID := keep "" c.escalationChairID
  interactionIdleTimeoutSeconds :=
    some (c.resolveInteractionIdleTimeoutSeconds cfg.defaultInteractionIdleTimeoutSeconds)
  reasoning := c.reasoning.freezeOverrides c.governed
  autonomous := c.autonomous.freezeOverrides

def ReasoningOverrides.resolve (o : Option ReasoningOverrides) (base : ReasoningConfig) :
    ReasoningConfig :=
  match o with
  | none => base
  | some o => ⟨o.mode.getD base.mode, o.model.getD base.model, o.depth.getD base.depth,
      o.revise.getD base.revise⟩

def AutonomousOverrides.resolve (o : Option AutonomousOverrides) (base : AutonomousConfig) :
    AutonomousConfig :=
  match o with
  | none => base
  | some o =>
    { enabled := o.enabled.getD base.enabled
      topic := o.topic.getD base.topic
      agenda := o.agenda.getD base.agenda
      convener := o.convener.getD base.convener
      goal := o.goal.getD base.goal
      maxRounds := o.maxRounds.getD base.maxRounds
      scheduleIntervalSeconds := o.scheduleIntervalSeconds.getD base.scheduleIntervalSeconds
      maxConvenings := o.maxConvenings.getD base.maxConvenings
      standingBudgetTokens := o.standingBudgetTokens.getD base.standingBudgetTokens }

/-- `o != nil && o.Field != nil`, and else the default. -/
def effective {ο α : Type} (o : Option ο) (field : ο → Option α) (default : α) : α :=
  (o.bind field).getD default

def effectiveMode (o : Option ReasoningOverrides) : String :=
  effective o ReasoningOverrides.mode reasoningModeOff

def effectiveRevise (o : Option ReasoningOverrides) : ℤ :=
  effective o ReasoningOverrides.revise 0

def effectiveEnabled (o : Option AutonomousOverrides) : Bool :=
  effective o AutonomousOverrides.enabled false

def effectiveConvener (o : Option AutonomousOverrides) : String :=
  effective o AutonomousOverrides.convener ""

def effectiveScheduleInterval (o : Option AutonomousOverrides) : ℤ :=
  effective o AutonomousOverrides.scheduleIntervalSeconds 0

def effectiveMaxConvenings (o : Option AutonomousOverrides) : ℤ :=
  effective o AutonomousOverrides.maxConvenings 0

def effectiveStandingBudgetTokens (o : Option AutonomousOverrides) : ℤ :=
  effective o AutonomousOverrides.standingBudgetTokens 0

/-! ### The checks of an edit -/

/-- A set value is checked. -/
def checkSet {α : Type} (o : Option α) (f : α → Check) : Check :=
  match o with
  | none => .ok ()
  | some x => f x

def rejectSet {α : Type} (o : Option α) (bad : α → Prop) [DecidablePred bad]
    (e : α → ConfigError) : Check :=
  checkSet o fun x => reject (bad x) (e x)

def ReasoningOverrides.validate (o : ReasoningOverrides) : Check := do
  rejectSet o.mode (· ∉ [reasoningModeOff, reasoningModeBid, reasoningModePlan]) .reasoningMode
  rejectSet o.model (· ∉ [reasoningModelFast, reasoningModelQuality]) .reasoningModel
  rejectSet o.depth (· ≠ reasoningDepthShallow) .reasoningDepth
  rejectSet o.revise (fun n => n < 0 ∨ maxReasoningRevise < n) .reasoningRevise

def AutonomousOverrides.validateFields (o : AutonomousOverrides) : Check := do
  rejectSet o.maxRounds (· < 0) .autonomousMaxRounds
  rejectSet o.scheduleIntervalSeconds (· < 0) .autonomousSchedule
  rejectSet o.maxConvenings (· < 0) .autonomousMaxConvenings
  rejectSet o.standingBudgetTokens (· < 0) .autonomousStandingBudget
  checkSet o.agenda validateAgenda

namespace ChannelConfigOverrides
variable (o : ChannelConfigOverrides)

def validateAutonomous : Check := do
  checkSet o.autonomous AutonomousOverrides.validateFields
  if effectiveEnabled o.autonomous then do
    reject (¬ ∃ n ∈ o.interactionBudgetTokens, 0 < n) .autonomousCapRequired
    let convener := effectiveConvener o.autonomous
    reject (convener = "") (.autonomousConvener convener .empty)
    reject (o.escalationChairID.getD "" = "") .autonomousChairRequired
    reject (o.escalationChairID.getD "" = convener) (.autonomousConvener convener .isChair)
    reject (standingBoundMissing (effectiveScheduleInterval o.autonomous)
      (effectiveMaxConvenings o.autonomous) (effectiveStandingBudgetTokens o.autonomous) = true)
      .autonomousStandingBoundRequired
  else .ok ()

def validate : Check := do
  rejectSet o.salienceMaxChannelMembers (· < 1) .salienceMaxChannelMembers
  rejectSet o.maxCascadeDepth (· < 1) .maxCascadeDepth
  rejectSet o.interactionBudgetTokens (· < 0) .interactionBudgetTokens
  rejectSet o.maxRepliesPerParticipantPerInteraction (· < 0) .maxRepliesPerParticipant
  rejectSet o.endVoteThreshold (· < 0) .endVoteThreshold
  rejectSet o.endVoteWindow (· < 0) .endVoteWindow
  rejectSet o.interactionIdleTimeoutSeconds (· < 0) .interactionIdleTimeout
  checkSet o.reasoning ReasoningOverrides.validate
  o.validateAutonomous

end ChannelConfigOverrides

/-- What the checks read of a member of the store. -/
structure Member where
  participantID : String
  respondPolicy : String
  threshold : Option Threshold
  salienceGated : Bool

/-- What the checks read of the store; either read may fail. -/
structure ChannelStore where
  getMembers : GoString → Except StoreError (List Member)
  getChannelType : GoString → Except StoreError ChannelType

def memberByID (members : List Member) (id : String) : Option Member :=
  members.find? fun m => m.participantID = id

def anySalienceGated (members : List Member) : Bool := members.any Member.salienceGated

def classifyConvenerMember (members : List Member) (convener : String) : Check :=
  match memberByID members convener with
  | none => .error (.autonomousConvener convener .notMember)
  | some m => reject (normalize m.respondPolicy = respondNever)
      (.autonomousConvener convener .observer)

section Store
variable (store : ChannelStore) (channelID : GoString) (patch : ChannelConfigOverrides)

/-- `store.GetMembers`, with what is made of the members. -/
def ChannelStore.withMembers (f : List Member → Check) : Check :=
  match store.getMembers channelID with
  | .error e => .error (.store e)
  | .ok members => f members

def validateEscalationChair : Check :=
  let chairID := patch.escalationChairID.getD ""
  if chairID = "" then .ok ()
  else
    store.withMembers channelID fun members =>
      match memberByID members chairID with
      | none => .error (.escalationChair chairID .notMember)
      | some chair => do
        reject (normalize chair.respondPolicy = respondNever)
          (.escalationChair chairID .observer)
        reject (patch.floorControl.getD true = false) (.escalationChair chairID .floorControlOff)

def validateReasoningGoverned : Check := do
  let mode := effectiveMode patch.reasoning
  reject (1 ≤ effectiveRevise patch.reasoning ∧ mode ≠ reasoningModePlan)
    (.reviseWithoutPlan (effectiveRevise patch.reasoning))
  if mode = reasoningModeOff then .ok ()
  else
    store.withMembers channelID fun members =>
      reject (anySalienceGated members = false) (.reasoningUngoverned mode)

def validateAutonomousChannelType : Check :=
  if effectiveEnabled patch.autonomous then
    match store.getChannelType channelID with
    | .error e => .error (.store e)
    | .ok type => reject (type ≠ .group) (.autonomousNotGroup type)
  else .ok ()

def validateAutonomousConvener : Check :=
  let convener := effectiveConvener patch.autonomous
  if effectiveEnabled patch.autonomous ∧ convener ≠ "" then
    store.withMembers channelID fun members => classifyConvenerMember members convener
  else .ok ()

/-- The checks of `ApplyChannelConfig`, before anything is written. -/
def applyChannelConfigChecks : Check :=
  Except.mapError (.applyConfig channelID) do
    patch.validate
    validateEscalationChair store channelID patch
    validateReasoningGoverned store channelID patch
    validateAutonomousChannelType store channelID patch
    validateAutonomousConvener store channelID patch

end Store

end Persatrix.ChannelConfigs
