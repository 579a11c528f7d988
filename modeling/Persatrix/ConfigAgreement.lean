import Persatrix.ChannelConfig
import Persatrix.Keyed

/-!
# A load and an edit check the same rules

What governs a channel once the defaults are filled in is a rung, and the rules for it are stated
once. The checks of a load and those of an edit accept exactly the lawful rungs, and the snapshot
of a block has its rung.
-/
namespace Persatrix.ChannelConfigs
open Channels Memberships

/-! ### The rules -/

structure ReasoningConfig.Lawful (governed : Bool) (rc : ReasoningConfig) : Prop where
  mode : rc.mode ∈ [reasoningModeOff, reasoningModeBid, reasoningModePlan]
  armed : rc.mode ≠ reasoningModeOff → governed = true
  model : rc.model ∈ [reasoningModelFast, reasoningModelQuality]
  depth : rc.depth = reasoningDepthShallow
  revise : 0 ≤ rc.revise ∧ rc.revise ≤ maxReasoningRevise
  plan : 1 ≤ rc.revise → rc.mode = reasoningModePlan

structure AutonomousConfig.InRange (a : AutonomousConfig) : Prop where
  rounds : 0 ≤ a.maxRounds
  schedule : 0 ≤ a.scheduleIntervalSeconds
  convenings : 0 ≤ a.maxConvenings
  budget : 0 ≤ a.standingBudgetTokens
  agenda : a.agenda.length ≤ maxAutonomousAgendaItems
  items : ∀ item ∈ a.agenda, Net.trimSpace item ≠ []

/-- What governs a channel. -/
structure Rung where
  floorControl : Bool
  salienceMaxChannelMembers : ℤ
  maxCascadeDepth : Option ℤ
  interactionBudgetTokens : ℤ
  maxReplies : ℤ
  endVoteThreshold : ℤ
  endVoteWindow : ℤ
  escalationChairID : String
  interactionIdleTimeoutSeconds : ℤ
  reasoning : ReasoningConfig
  autonomous : AutonomousConfig

/-- An armed channel costs no more than its cap, a standing one ends, and two members open it and
close it. -/
structure Rung.Bounded (r : Rung) : Prop where
  capped : 0 < r.interactionBudgetTokens
  convener : r.autonomous.convener ≠ ""
  chair : r.escalationChairID ≠ ""
  distinct : r.autonomous.convener ≠ r.escalationChairID
  bounded : standingBoundMissing r.autonomous.scheduleIntervalSeconds r.autonomous.maxConvenings
    r.autonomous.standingBudgetTokens = false

/-- What is judged without the members, but for whether one of them is salience-gated. -/
structure Rung.Sound (governed : Bool) (r : Rung) : Prop where
  salience : 1 ≤ r.salienceMaxChannelMembers
  depth : ∀ d ∈ r.maxCascadeDepth, 1 ≤ d
  budget : 0 ≤ r.interactionBudgetTokens
  replies : 0 ≤ r.maxReplies
  threshold : 0 ≤ r.endVoteThreshold
  window : 0 ≤ r.endVoteWindow
  idle : 0 ≤ r.interactionIdleTimeoutSeconds
  reasoning : r.reasoning.Lawful governed
  autonomous : r.autonomous.InRange
  armed : r.autonomous.enabled = true → r.Bounded

structure Rung.Lawful (governed : Bool) (speaks : String → Prop) (r : Rung) : Prop extends
    r.Sound governed where
  chair : r.escalationChairID ≠ "" → speaks r.escalationChairID ∧ r.floorControl = true
  convener : r.autonomous.enabled = true → speaks r.autonomous.convener

/-- The rung of a block, with the defaults of the fleet. -/
def ChannelConfig.rung (cfg : Config) (c : ChannelConfig) : Rung where
  floorControl := c.floorControlEnabled
  salienceMaxChannelMembers := c.salienceMaxChannelMembers
  maxCascadeDepth := if 0 < c.maxCascadeDepth then some c.maxCascadeDepth else none
  interactionBudgetTokens := c.resolveInteractionBudgetTokens cfg.defaultInteractionBudgetTokens
  maxReplies := c.resolveMaxRepliesPerParticipant cfg.defaultMaxRepliesPerParticipant
  endVoteThreshold := c.endVoteThreshold
  endVoteWindow := c.endVoteWindow
  escalationChairID := c.escalationChairID
  interactionIdleTimeoutSeconds :=
    c.resolveInteractionIdleTimeoutSeconds cfg.defaultInteractionIdleTimeoutSeconds
  reasoning := c.reasoning
  autonomous := c.autonomous

/-- The rung of a set of overrides as an edit judges it: a budget that is inherited is none. -/
def ChannelConfigOverrides.rung (governed : Bool) (o : ChannelConfigOverrides) : Rung where
  floorControl := o.floorControl.getD true
  salienceMaxChannelMembers := o.salienceMaxChannelMembers.getD defaultSalienceMaxChannelMembers
  maxCascadeDepth := o.maxCascadeDepth
  interactionBudgetTokens := o.interactionBudgetTokens.getD 0
  maxReplies := o.maxRepliesPerParticipantPerInteraction.getD 0
  endVoteThreshold := o.endVoteThreshold.getD defaultEndVoteThreshold
  endVoteWindow := o.endVoteWindow.getD defaultEndVoteWindow
  escalationChairID := o.escalationChairID.getD ""
  interactionIdleTimeoutSeconds :=
    o.interactionIdleTimeoutSeconds.getD defaultInteractionIdleTimeoutSeconds
  reasoning := ReasoningOverrides.resolve o.reasoning (governedReasoningBase governed)
  autonomous := AutonomousOverrides.resolve o.autonomous defaultAutonomousConfig

/-- A member of the id that is no observer. -/
def Speaks {α : Type} (key policy : α → String) (l : List α) (id : String) : Prop :=
  ∃ m ∈ l, key m = id ∧ normalize (policy m) ≠ respondNever

abbrev MembersSpeak (members : List Member) : String → Prop :=
  Speaks Member.participantID Member.respondPolicy members

abbrev ChannelConfig.Speaks (ch : ChannelConfig) : String → Prop :=
  ChannelConfigs.Speaks MemberConfig.id MemberConfig.respondPolicy ch.members

/-! ### Checks -/

@[simp] theorem reject_ok {c : Prop} [Decidable c] {e : ConfigError} :
    reject c e = .ok () ↔ ¬ c := by
  unfold reject
  by_cases hc : c
  · simp [hc]
  · simp [hc]

@[simp] theorem check_bind_ok {x : Check} {f : Unit → Check} :
    (x >>= f) = .ok () ↔ x = .ok () ∧ f () = .ok () := by
  cases x with
  | error e => simp [bind, Except.bind]
  | ok u => simp [bind, Except.bind]

@[simp] theorem mapError_ok {f : ConfigError → ConfigError} {x : Check} :
    x.mapError f = .ok () ↔ x = .ok () := by
  cases x with
  | error e => simp [Except.mapError]
  | ok u => simp [Except.mapError]

/-- A knob that is not set passes as its default does. -/
theorem checkSet_ok {α : Type} {o : Option α} {f : α → Check} (d : α) (h : f d = .ok ()) :
    checkSet o f = .ok () ↔ f (o.getD d) = .ok () := by
  cases o with
  | none => exact ⟨fun _ => h, fun _ => rfl⟩
  | some x => exact Iff.rfl

theorem rejectSet_ok {α : Type} {o : Option α} {bad : α → Prop} [DecidablePred bad]
    {e : α → ConfigError} (d : α) (h : ¬ bad d) :
    rejectSet o bad e = .ok () ↔ ¬ bad (o.getD d) := by
  rw [rejectSet, checkSet_ok d (reject_ok.mpr h), reject_ok]

theorem validateAgendaItems_ok {i : ℕ} {agenda : List GoString} :
    validateAgendaItems i agenda = .ok () ↔ ∀ item ∈ agenda, Net.trimSpace item ≠ [] := by
  induction agenda generalizing i with
  | nil => simp [validateAgendaItems]
  | cons item rest ih => simp [validateAgendaItems, ih]

theorem validateAgenda_ok {agenda : List GoString} : validateAgenda agenda = .ok () ↔
    agenda.length ≤ maxAutonomousAgendaItems ∧ ∀ item ∈ agenda, Net.trimSpace item ≠ [] := by
  simp [validateAgenda, validateAgendaItems_ok]

theorem ReasoningConfig.validate_ok {governed : Bool} {rc : ReasoningConfig} :
    rc.validate governed = .ok () ↔ rc.Lawful governed := by
  simp only [ReasoningConfig.validate, check_bind_ok, reject_ok, not_not, not_and, not_or, not_lt,
    ne_eq, Bool.not_eq_false]
  constructor
  · rintro ⟨hmode, harmed, hmodel, hdepth, hrevise, hplan⟩
    exact ⟨hmode, harmed, hmodel, hdepth, hrevise, hplan⟩
  · intro h
    exact ⟨h.mode, h.armed, h.model, h.depth, h.revise, h.plan⟩

theorem AutonomousConfig.validateFields_ok {a : AutonomousConfig} :
    a.validateFields = .ok () ↔ a.InRange := by
  simp only [AutonomousConfig.validateFields, check_bind_ok, reject_ok, validateAgenda_ok, not_lt]
  constructor
  · rintro ⟨hrounds, hschedule, hconvenings, hbudget, hagenda, hitems⟩
    exact ⟨hrounds, hschedule, hconvenings, hbudget, hagenda, hitems⟩
  · intro h
    exact ⟨h.rounds, h.schedule, h.convenings, h.budget, h.agenda, h.items⟩

/-! ### An edit -/

section Edit
variable {o : ChannelConfigOverrides}

theorem AutonomousOverrides.validateFields_ok {a : Option AutonomousOverrides} :
    checkSet a AutonomousOverrides.validateFields = .ok () ↔
      (AutonomousOverrides.resolve a defaultAutonomousConfig).InRange := by
  rw [← AutonomousConfig.validateFields_ok]
  cases a with
  | none => exact ⟨fun _ => rfl, fun _ => rfl⟩
  | some a =>
    rw [checkSet]
    simp only [AutonomousOverrides.validateFields, AutonomousConfig.validateFields,
      check_bind_ok, reject_ok]
    rw [rejectSet_ok defaultAutonomousMaxRounds (by decide), rejectSet_ok 0 (by decide),
      rejectSet_ok 0 (by decide), rejectSet_ok 0 (by decide), checkSet_ok [] rfl]
    rfl

/-- The mode of an edit counts as off where it is not set, which is as good as the default. -/
theorem ReasoningOverrides.validate_ok {r : Option ReasoningOverrides} {governed : Bool} :
    checkSet r ReasoningOverrides.validate = .ok () ∧
        (1 ≤ effectiveRevise r → effectiveMode r = reasoningModePlan) ∧
        (effectiveMode r ≠ reasoningModeOff → governed = true) ↔
      (ReasoningOverrides.resolve r (governedReasoningBase governed)).Lawful governed := by
  cases r with
  | none =>
    refine ⟨fun _ => ?_, fun _ => ⟨rfl, by decide, fun hmode => absurd rfl hmode⟩⟩
    rw [← ReasoningConfig.validate_ok]
    cases governed with
    | false => rfl
    | true => rfl
  | some r =>
    rw [checkSet]
    simp only [ReasoningOverrides.validate, check_bind_ok]
    rw [rejectSet_ok (governedDefaultMode governed) (by cases governed <;> decide),
      rejectSet_ok reasoningModelFast (by decide), rejectSet_ok reasoningDepthShallow (by decide),
      rejectSet_ok 0 (by decide)]
    simp only [not_not, not_or, not_lt, ne_eq]
    have hrevise : effectiveRevise (some r) = r.revise.getD 0 := rfl
    have hmode : effectiveMode (some r) = r.mode.getD reasoningModeOff := rfl
    rw [hrevise, hmode]
    have hresolve : ReasoningOverrides.resolve (some r) (governedReasoningBase governed) =
        ⟨r.mode.getD (governedDefaultMode governed), r.model.getD reasoningModelFast,
          r.depth.getD reasoningDepthShallow, r.revise.getD 0⟩ := rfl
    rw [hresolve]
    cases r.mode with
    | none =>
      have hplan : governedDefaultMode governed ≠ reasoningModePlan := by
        cases governed <;> decide
      have harmed : governedDefaultMode governed ≠ reasoningModeOff → governed = true := by
        cases governed <;> decide
      constructor
      · rintro ⟨⟨h₁, h₂, h₃, h₄⟩, h₅, -⟩
        exact ⟨h₁, harmed, h₂, h₃, h₄, fun hone => absurd (h₅ hone) (by decide)⟩
      · intro h
        exact ⟨⟨h.mode, h.model, h.depth, h.revise⟩, fun hone => absurd (h.plan hone) hplan,
          fun hmode => absurd rfl hmode⟩
    | some mode =>
      constructor
      · rintro ⟨⟨h₁, h₂, h₃, h₄⟩, h₅, h₆⟩
        exact ⟨h₁, h₆, h₂, h₃, h₄, h₅⟩
      · intro h
        exact ⟨⟨h.mode, h.model, h.depth, h.revise⟩, h.plan, h.armed⟩

theorem effective_resolve {a : Option AutonomousOverrides} :
    effectiveEnabled a = (AutonomousOverrides.resolve a defaultAutonomousConfig).enabled ∧
      effectiveConvener a = (AutonomousOverrides.resolve a defaultAutonomousConfig).convener ∧
      effectiveScheduleInterval a =
        (AutonomousOverrides.resolve a defaultAutonomousConfig).scheduleIntervalSeconds ∧
      effectiveMaxConvenings a =
        (AutonomousOverrides.resolve a defaultAutonomousConfig).maxConvenings ∧
      effectiveStandingBudgetTokens a =
        (AutonomousOverrides.resolve a defaultAutonomousConfig).standingBudgetTokens := by
  cases a with
  | none => exact ⟨rfl, rfl, rfl, rfl, rfl⟩
  | some a => exact ⟨rfl, rfl, rfl, rfl, rfl⟩

theorem validateAutonomous_ok {governed : Bool} : o.validateAutonomous = .ok () ↔
    (o.rung governed).autonomous.InRange ∧
      ((o.rung governed).autonomous.enabled = true → (o.rung governed).Bounded) := by
  obtain ⟨henabled, hconvener, hinterval, hconvenings, hbudget⟩ := @effective_resolve o.autonomous
  unfold ChannelConfigOverrides.validateAutonomous
  rw [check_bind_ok, AutonomousOverrides.validateFields_ok, henabled, hconvener, hinterval,
    hconvenings, hbudget]
  refine and_congr_right fun _ => ?_
  have hcapped : (∃ n ∈ o.interactionBudgetTokens, 0 < n) ↔
      0 < (o.rung governed).interactionBudgetTokens := by
    unfold ChannelConfigOverrides.rung
    cases o.interactionBudgetTokens with
    | none => simp
    | some n => simp
  split
  · next harmed =>
      simp only [check_bind_ok, reject_ok, not_not, hcapped, Bool.not_eq_true]
      constructor
      · rintro ⟨h₁, h₂, h₃, h₄, h₅⟩ -
        exact ⟨h₁, h₂, h₃, fun h => h₄ h.symm, h₅⟩
      · intro h
        have hbounded := h harmed
        exact ⟨hbounded.capped, hbounded.convener, hbounded.chair,
          fun h => hbounded.distinct h.symm, hbounded.bounded⟩
  · next harmed => exact ⟨fun _ h => absurd h harmed, fun _ => rfl⟩

/-- What an edit judges without the store. -/
theorem validate_ok {governed : Bool} : o.validate = .ok () ∧
      (1 ≤ effectiveRevise o.reasoning → effectiveMode o.reasoning = reasoningModePlan) ∧
      (effectiveMode o.reasoning ≠ reasoningModeOff → governed = true) ↔
    (o.rung governed).Sound governed := by
  have hdepth : rejectSet o.maxCascadeDepth (· < 1) .maxCascadeDepth = .ok () ↔
      ∀ d ∈ (o.rung governed).maxCascadeDepth, 1 ≤ d := by
    unfold ChannelConfigOverrides.rung
    cases o.maxCascadeDepth with
    | none => simp [rejectSet, checkSet]
    | some d => simp [rejectSet, checkSet]
  have hreasoning := @ReasoningOverrides.validate_ok o.reasoning governed
  simp only [ChannelConfigOverrides.validate, check_bind_ok]
  rw [rejectSet_ok defaultSalienceMaxChannelMembers (by decide), hdepth,
    rejectSet_ok 0 (by decide), rejectSet_ok 0 (by decide),
    rejectSet_ok defaultEndVoteThreshold (by decide),
    rejectSet_ok defaultEndVoteWindow (by decide),
    rejectSet_ok defaultInteractionIdleTimeoutSeconds (by decide),
    @validateAutonomous_ok o governed]
  simp only [not_lt]
  constructor
  · rintro ⟨⟨h₁, h₂, h₃, h₄, h₅, h₆, h₇, h₈, h₉, h₁₀⟩, hrest⟩
    exact ⟨h₁, h₂, h₃, h₄, h₅, h₆, h₇, hreasoning.mp ⟨h₈, hrest⟩, h₉, h₁₀⟩
  · intro h
    obtain ⟨hset, hrest⟩ := hreasoning.mpr h.reasoning
    exact ⟨⟨h.salience, h.depth, h.budget, h.replies, h.threshold, h.window, h.idle, hset,
      h.autonomous, h.armed⟩, hrest⟩

end Edit

section Roles
variable {α : Type} {key policy : α → String} {l : List α} {id : String}

/-- No two members have one id, and the one that is found is the one there is. -/
theorem find_speaks (hnodup : (l.map key).Nodup) :
    (∃ m, l.find? (fun m => key m = id) = some m ∧ normalize (policy m) ≠ respondNever) ↔
      Speaks key policy l id := by
  have hget : ∀ m, l.find? (fun m => key m = id) = some m ↔ m ∈ l ∧ key m = id :=
    fun m => @Keyed.get_eq_some _ _ key _ ⟨l, hnodup⟩ m id
  constructor
  · rintro ⟨m, hfind, hpolicy⟩
    obtain ⟨hm, hid⟩ := (hget m).mp hfind
    exact ⟨m, hm, hid, hpolicy⟩
  · rintro ⟨m, hm, hid, hpolicy⟩
    exact ⟨m, (hget m).mpr ⟨hm, hid⟩, hpolicy⟩

end Roles

section Store
variable {o : ChannelConfigOverrides} {store : ChannelStore} {channelID : GoString}
  {members : List Member}

theorem validateEscalationChair_ok {governed : Bool}
    (hmembers : store.getMembers channelID = .ok members)
    (hnodup : (members.map Member.participantID).Nodup) :
    validateEscalationChair store channelID o = .ok () ↔
      ((o.rung governed).escalationChairID ≠ "" →
        MembersSpeak members (o.rung governed).escalationChairID ∧
          (o.rung governed).floorControl = true) := by
  have hchair : (o.rung governed).escalationChairID = o.escalationChairID.getD "" := rfl
  have hfloor : (o.rung governed).floorControl = o.floorControl.getD true := rfl
  unfold validateEscalationChair ChannelStore.withMembers
  rw [hmembers, hchair, hfloor]
  dsimp only
  split
  · next hempty => exact ⟨fun _ h => absurd hempty h, fun _ => rfl⟩
  · next hset =>
      unfold MembersSpeak memberByID
      rw [← find_speaks hnodup]
      cases members.find? fun m => m.participantID = o.escalationChairID.getD "" with
      | none => simp [hset]
      | some m => simp [hset]

theorem validateReasoningGoverned_ok (hmembers : store.getMembers channelID = .ok members) :
    validateReasoningGoverned store channelID o = .ok () ↔
      (1 ≤ effectiveRevise o.reasoning → effectiveMode o.reasoning = reasoningModePlan) ∧
        (effectiveMode o.reasoning ≠ reasoningModeOff → anySalienceGated members = true) := by
  unfold validateReasoningGoverned ChannelStore.withMembers
  rw [hmembers]
  simp only [check_bind_ok, reject_ok, not_and, not_not, ne_eq]
  refine and_congr_right fun _ => ?_
  split
  · next hoff => exact ⟨fun _ h => absurd hoff h, fun _ => rfl⟩
  · next hon => simp [hon]

theorem validateAutonomousConvener_ok {governed : Bool}
    (hmembers : store.getMembers channelID = .ok members)
    (hnodup : (members.map Member.participantID).Nodup) :
    validateAutonomousConvener store channelID o = .ok () ↔
      ((o.rung governed).autonomous.enabled = true → (o.rung governed).autonomous.convener ≠ "" →
        MembersSpeak members (o.rung governed).autonomous.convener) := by
  obtain ⟨henabled, hconvener, -⟩ := @effective_resolve o.autonomous
  have hauto : (o.rung governed).autonomous =
      AutonomousOverrides.resolve o.autonomous defaultAutonomousConfig := rfl
  unfold validateAutonomousConvener ChannelStore.withMembers classifyConvenerMember
  rw [hmembers, henabled, hconvener, hauto]
  dsimp only
  split
  · next harmed =>
      unfold MembersSpeak memberByID
      rw [← find_speaks hnodup]
      cases members.find? fun m => m.participantID =
          (AutonomousOverrides.resolve o.autonomous defaultAutonomousConfig).convener with
      | none => simp [harmed.1, harmed.2]
      | some m => simp [harmed.1, harmed.2]
  · next hnot => exact ⟨fun _ h h' => absurd ⟨h, h'⟩ hnot, fun _ => rfl⟩

/-- An edit accepts the lawful rungs of a group. -/
theorem applyChannelConfigChecks_ok (htype : store.getChannelType channelID = .ok .group)
    (hmembers : store.getMembers channelID = .ok members)
    (hnodup : (members.map Member.participantID).Nodup) :
    applyChannelConfigChecks store channelID o = .ok () ↔
      (o.rung (anySalienceGated members)).Lawful (anySalienceGated members)
        (MembersSpeak members) := by
  have hgroup : validateAutonomousChannelType store channelID o = .ok () := by
    unfold validateAutonomousChannelType
    rw [htype]
    split
    · exact reject_ok.mpr fun h => h rfl
    · rfl
  have hvalidate := @validate_ok o (anySalienceGated members)
  unfold applyChannelConfigChecks
  simp only [mapError_ok, check_bind_ok]
  rw [@validateEscalationChair_ok o _ _ _ (anySalienceGated members) hmembers hnodup,
    validateReasoningGoverned_ok hmembers,
    @validateAutonomousConvener_ok o _ _ _ (anySalienceGated members) hmembers hnodup]
  constructor
  · rintro ⟨hset, hchair, hreasoning, -, hconvener⟩
    have hsound := hvalidate.mp ⟨hset, hreasoning⟩
    exact ⟨hsound, hchair, fun harmed => hconvener harmed (hsound.armed harmed).convener⟩
  · intro h
    obtain ⟨hset, hreasoning⟩ := hvalidate.mpr h.toSound
    exact ⟨hset, h.chair, hreasoning, hgroup, fun harmed _ => h.convener harmed⟩

end Store

/-! ### A load -/

/-- The defaults of the fleet, as a load checks them. -/
structure Config.Fleet (c : Config) : Prop where
  budget : 0 ≤ c.defaultInteractionBudgetTokens
  idle : ∀ n ∈ c.defaultInteractionIdleTimeoutSeconds, 0 ≤ n
  replies : 0 ≤ c.defaultMaxRepliesPerParticipant

/-- What a load checks of a block beside its rung. -/
structure ChannelConfig.Declared (seen : List GoString) (ch : ChannelConfig) : Prop where
  named : ch.name ≠ []
  pattern : Standing.matchesName ch.name = true
  fresh : ch.name ∉ seen
  classification : ch.classification ≠ "" → validClassification ch.classification = true
  revision : 0 ≤ ch.revision
  timeout : 0 ≤ ch.floorTurnTimeoutSeconds
  depth : 0 ≤ ch.maxCascadeDepth
  budget : 0 ≤ ch.interactionBudgetTokens
  replies : 0 ≤ ch.maxRepliesPerParticipantPerInteraction
  inhabited : ch.members ≠ []
  members : validateMembers 0 [] ch.members = .ok ()

/-- The fields in which a load leaves no zero value. -/
structure ChannelConfig.Filled (ch : ChannelConfig) : Prop where
  salience : ch.salienceMaxChannelMembers ≠ 0
  reasoning : ch.reasoning.normalizedForGovernance ch.governed = ch.reasoning
  autonomous : ch.autonomous.normalized = ch.autonomous

theorem fill_fill {α : Type} [DecidableEq α] {zero value x : α} :
    fill zero value (fill zero value x) = fill zero value x := by
  unfold fill
  by_cases hx : x = zero
  · rw [if_pos hx, ite_self]
  · rw [if_neg hx, if_neg hx]

theorem fill_ne {α : Type} [DecidableEq α] {zero value x : α} (h : value ≠ zero) :
    fill zero value x ≠ zero := by
  unfold fill
  split
  · exact h
  · next hx => exact hx

theorem filled_filled (ch : ChannelConfig) : ch.filled.Filled where
  salience := fill_ne (by decide)
  reasoning := by
    have hgoverned : ch.filled.governed = ch.governed := rfl
    rw [hgoverned]
    simp only [ChannelConfig.filled, ReasoningConfig.normalizedForGovernance, fill_fill]
  autonomous := by simp only [ChannelConfig.filled, AutonomousConfig.normalized, fill_fill]

theorem nodup_of_validateMembers {j : ℕ} {seen : List String} {l : List MemberConfig}
    (h : validateMembers j seen l = .ok ()) :
    (l.map MemberConfig.id).Nodup ∧ ∀ id ∈ seen, id ∉ l.map MemberConfig.id := by
  induction l generalizing j seen with
  | nil => exact ⟨List.nodup_nil, fun _ _ => List.not_mem_nil⟩
  | cons m rest ih =>
    simp only [validateMembers, MemberConfig.validate, check_bind_ok, reject_ok] at h
    obtain ⟨⟨-, hnew, -⟩, hrest⟩ := h
    obtain ⟨hnodup, hseen⟩ := ih hrest
    refine ⟨List.nodup_cons.mpr ⟨hseen _ List.mem_cons_self, hnodup⟩, fun id hid hmem => ?_⟩
    rcases List.mem_cons.mp hmem with rfl | hmem
    · exact hnew hid
    · exact hseen id (List.mem_cons_of_mem _ hid) hmem

section Load
variable {c : Config} {ch : ChannelConfig}

theorem validateChair_ok (hnodup : (ch.members.map MemberConfig.id).Nodup) :
    validateChair ch = .ok () ↔
      (ch.escalationChairID ≠ "" →
        ch.Speaks ch.escalationChairID ∧ ch.floorControlEnabled = true) := by
  unfold validateChair
  dsimp only
  split
  · next hempty => exact ⟨fun _ h => absurd hempty h, fun _ => rfl⟩
  · next hset =>
      unfold ChannelConfig.Speaks
      rw [← find_speaks hnodup]
      cases ch.members.find? fun m => m.id = ch.escalationChairID with
      | none => simp [hset]
      | some m => simp [hset]

theorem validateConvenerMembership_ok (hnodup : (ch.members.map MemberConfig.id).Nodup) :
    validateConvenerMembership ch = .ok () ↔
      ch.autonomous.convener ≠ "" ∧ ch.autonomous.convener ≠ ch.escalationChairID ∧
        ch.Speaks ch.autonomous.convener := by
  unfold validateConvenerMembership
  dsimp only
  split
  · next hempty => simp [hempty]
  · next hset =>
      split
      · next hsame => simp [hsame]
      · next hdistinct =>
          unfold ChannelConfig.Speaks
          rw [← find_speaks hnodup]
          cases ch.members.find? fun m => m.id = ch.autonomous.convener with
          | none => simp
          | some m => simp [hset, hdistinct]

theorem validateArmed_ok (hnodup : (ch.members.map MemberConfig.id).Nodup) :
    validateArmed c ch = .ok () ↔
      (ch.autonomous.enabled = true →
        (ch.rung c).Bounded ∧ ch.Speaks ch.autonomous.convener) := by
  unfold validateArmed
  split
  · next harmed =>
      simp only [check_bind_ok, reject_ok, validateConvenerMembership_ok hnodup, not_le,
        Bool.not_eq_true]
      constructor
      · rintro ⟨hcapped, ⟨hset, hdistinct, hspeaks⟩, hchair, hbounded⟩ -
        exact ⟨⟨hcapped, hset, hchair, hdistinct, hbounded⟩, hspeaks⟩
      · intro h
        obtain ⟨hbounded, hspeaks⟩ := h harmed
        exact ⟨hbounded.capped, ⟨hbounded.convener, hbounded.distinct, hspeaks⟩, hbounded.chair,
          hbounded.bounded⟩
  · next harmed => exact ⟨fun _ h => absurd h harmed, fun _ => rfl⟩

theorem idle_resolved (hfleet : c.Fleet) : (¬ ∃ n ∈ ch.interactionIdleTimeoutSeconds, n < 0) ↔
    0 ≤ (ch.rung c).interactionIdleTimeoutSeconds := by
  unfold ChannelConfig.rung ChannelConfig.resolveInteractionIdleTimeoutSeconds
  dsimp only
  cases ch.interactionIdleTimeoutSeconds with
  | some n => simp
  | none =>
    cases hdefault : c.defaultInteractionIdleTimeoutSeconds with
    | some n => simpa using hfleet.idle n hdefault
    | none => simp [defaultInteractionIdleTimeoutSeconds]

theorem resolved_nonneg {n d : ℤ} (hd : 0 ≤ d) : 0 ≤ if 0 < n then n else d := by
  split
  · next hn => exact hn.le
  · exact hd

theorem depth_resolved : ∀ d ∈ (ch.rung c).maxCascadeDepth, 1 ≤ d := by
  intro d hd
  unfold ChannelConfig.rung at hd
  dsimp only at hd
  split at hd
  · next hpos =>
      cases hd
      exact hpos
  · cases hd

/-- A load accepts the lawful rungs of the blocks that are declared well. -/
theorem validateChannel_ok {i : ℕ} {seen : List GoString} (hfleet : c.Fleet) (hfilled : ch.Filled) :
    validateChannel c i seen ch = .ok () ↔
      ch.Declared seen ∧ ch.maxCascadeDepth ≤ c.resolvedMaxCascadeDepth ∧
        (ch.rung c).Lawful ch.governed ch.Speaks := by
  have hidle := @idle_resolved c ch hfleet
  simp only [validateChannel, validateRanges, validateWindows, check_bind_ok, mapError_ok,
    reject_ok, hidle, hfilled.reasoning, hfilled.autonomous, ReasoningConfig.validate_ok,
    AutonomousConfig.validateFields_ok, not_and, not_lt, Bool.not_eq_false, ne_eq]
  constructor
  · rintro ⟨hnamed, hpattern, hfresh,
      ⟨hclass, hrevision, htimeout, hsalience, hdepth, hcap, hbudget⟩, hchair,
      ⟨hwindow, hreplies, hthreshold, hvotes⟩, hreasoning, hautonomous, harmed, hinhabited,
      hmembers⟩
    have hnodup := (nodup_of_validateMembers hmembers).1
    rw [validateChair_ok hnodup] at hchair
    rw [validateArmed_ok hnodup] at harmed
    refine ⟨⟨hnamed, hpattern, hfresh, hclass, hrevision, htimeout, hdepth, hbudget, hreplies,
      hinhabited, hmembers⟩, hcap, ⟨⟨?_, depth_resolved, resolved_nonneg hfleet.budget,
      resolved_nonneg hfleet.replies, hthreshold, hvotes, hwindow, hreasoning, hautonomous,
      fun h => (harmed h).1⟩, hchair, fun h => (harmed h).2⟩⟩
    have hne := hfilled.salience
    have hrung : (ch.rung c).salienceMaxChannelMembers = ch.salienceMaxChannelMembers := rfl
    omega
  · rintro ⟨hdeclared, hcap, h⟩
    have hnodup := (nodup_of_validateMembers hdeclared.members).1
    refine ⟨hdeclared.named, hdeclared.pattern, hdeclared.fresh, ⟨hdeclared.classification,
      hdeclared.revision, hdeclared.timeout, zero_le_one.trans h.salience, hdeclared.depth, hcap,
      hdeclared.budget⟩, (validateChair_ok hnodup).mpr h.chair, ⟨h.idle, hdeclared.replies,
      h.threshold, h.window⟩, h.reasoning, h.autonomous, (validateArmed_ok hnodup).mpr ?_,
      hdeclared.inhabited, hdeclared.members⟩
    exact fun harmed => ⟨h.armed harmed, h.convener harmed⟩

end Load

/-! ### The snapshot of a block -/

theorem keep_getD {α : Type} [DecidableEq α] (d x : α) : (keep d x).getD d = x := by
  unfold keep
  split
  · next h => exact h.symm
  · rfl

theorem resolve_freezeOverrides (governed : Bool) (rc : ReasoningConfig) :
    ReasoningOverrides.resolve (rc.freezeOverrides governed) (governedReasoningBase governed) =
      rc := by
  have hkeep : ∀ (o : ReasoningOverrides) (base : ReasoningConfig),
      ReasoningOverrides.resolve (keep {} o) base = ReasoningOverrides.resolve (some o) base := by
    intro o base
    unfold keep
    split
    · next h =>
        subst h
        rfl
    · rfl
  unfold ReasoningConfig.freezeOverrides
  rw [hkeep]
  simp only [ReasoningOverrides.resolve, governedReasoningBase, keep_getD]

theorem AutonomousConfig.resolve_freezeOverrides (a : AutonomousConfig) :
    AutonomousOverrides.resolve a.freezeOverrides defaultAutonomousConfig = a := by
  have hkeep : ∀ (o : AutonomousOverrides) (base : AutonomousConfig),
      AutonomousOverrides.resolve (keep {} o) base =
        AutonomousOverrides.resolve (some o) base := by
    intro o base
    unfold keep
    split
    · next h =>
        subst h
        rfl
    · rfl
  unfold AutonomousConfig.freezeOverrides
  rw [hkeep]
  simp only [AutonomousOverrides.resolve, defaultAutonomousConfig, keep_getD]

/-- The snapshot of a block has its rung. -/
theorem rung_toConfigOverrides (cfg : Config) (ch : ChannelConfig) :
    (ch.toConfigOverrides cfg).rung ch.governed = ch.rung cfg := by
  unfold ChannelConfigOverrides.rung ChannelConfig.toConfigOverrides ChannelConfig.rung
  simp only [Option.getD_some, keep_getD, resolve_freezeOverrides,
    AutonomousConfig.resolve_freezeOverrides]

/-! ### The members of the store -/

/-- The row of a declared member. -/
def MemberConfig.stored (m : MemberConfig) : Member :=
  ⟨m.id, normalize m.respondPolicy, m.threshold, m.salienceGated⟩

/-- The store has the channel of a block as a group, with the members that are declared. -/
structure ChannelStore.Holds (store : ChannelStore) (ch : ChannelConfig) : Prop where
  type : store.getChannelType ch.canonicalID = .ok .group
  members : ∃ members, store.getMembers ch.canonicalID = .ok members ∧
    members.Perm (ch.members.map MemberConfig.stored)

theorem normalize_normalize (p : String) : normalize (normalize p) = normalize p := by
  unfold Channels.normalize
  by_cases halways : p = respondParticipant ∨ p = respondChair
  · rw [if_pos halways]
    rfl
  · by_cases haddressed : p = respondAddressed
    · rw [if_neg halways, if_pos haddressed]
      rfl
    · by_cases hobserver : p = respondObserver
      · rw [if_neg halways, if_neg haddressed, if_pos hobserver]
        rfl
      · rw [if_neg halways, if_neg haddressed, if_neg hobserver, if_neg halways,
          if_neg haddressed, if_neg hobserver]

section Members
variable {ch : ChannelConfig} {members : List Member}

theorem membersSpeak_stored (hperm : members.Perm (ch.members.map MemberConfig.stored)) :
    MembersSpeak members = ch.Speaks := by
  funext id
  simp only [MembersSpeak, ChannelConfig.Speaks, ChannelConfigs.Speaks, eq_iff_iff]
  constructor
  · rintro ⟨m, hm, hid, hpolicy⟩
    obtain ⟨m', hm', rfl⟩ := List.mem_map.mp (hperm.mem_iff.mp hm)
    exact ⟨m', hm', hid, by simpa only [MemberConfig.stored, normalize_normalize] using hpolicy⟩
  · rintro ⟨m, hm, hid, hpolicy⟩
    exact ⟨m.stored, hperm.mem_iff.mpr (List.mem_map_of_mem hm), hid,
      by simpa only [MemberConfig.stored, normalize_normalize] using hpolicy⟩

theorem anySalienceGated_stored (hperm : members.Perm (ch.members.map MemberConfig.stored)) :
    anySalienceGated members = ch.governed := by
  unfold anySalienceGated ChannelConfig.governed
  rw [hperm.any_eq, List.any_map]
  rfl

theorem nodup_stored (hperm : members.Perm (ch.members.map MemberConfig.stored))
    (hnodup : (ch.members.map MemberConfig.id).Nodup) :
    (members.map Member.participantID).Nodup := by
  rw [(hperm.map Member.participantID).nodup_iff, List.map_map]
  exact hnodup

end Members

/-! ### A set that is written back -/

/-- The block with the knobs of a set: one that is not set is left out of the file. -/
def ChannelConfig.writeBack (ch : ChannelConfig) (o : ChannelConfigOverrides) : ChannelConfig :=
  { ch with
    floorControl := o.floorControl
    salienceMaxChannelMembers := o.salienceMaxChannelMembers.getD 0
    maxCascadeDepth := o.maxCascadeDepth.getD 0
    interactionBudgetTokens := o.interactionBudgetTokens.getD 0
    maxRepliesPerParticipantPerInteraction := o.maxRepliesPerParticipantPerInteraction.getD 0
    endVoteThreshold := o.endVoteThreshold.getD 0
    endVoteWindow := o.endVoteWindow.getD 0
    escalationChairID := o.escalationChairID.getD ""
    interactionIdleTimeoutSeconds := o.interactionIdleTimeoutSeconds
    reasoning := ReasoningOverrides.resolve o.reasoning ⟨"", "", "", 0⟩
    autonomous :=
      AutonomousOverrides.resolve o.autonomous ⟨false, "", [], "", "", 0, 0, 0, 0⟩ }

theorem fill_getD {α : Type} [DecidableEq α] {zero d : α} {o : Option α} (h : o ≠ some zero) :
    fill zero d (o.getD zero) = o.getD d := by
  cases o with
  | none => exact if_pos rfl
  | some x => exact if_neg fun hx => h (congrArg some hx)

/-- What is left out or zero is the default. -/
theorem fill_getD_or (o : Option ℤ) (d : ℤ) :
    fill 0 d (o.getD 0) = o.getD d ∨ fill 0 d (o.getD 0) = d := by
  by_cases h : o = some 0
  · subst h
    exact .inr rfl
  · exact .inl (fill_getD h)

theorem le_fill_getD {n d : ℤ} {o : Option ℤ} (h : n ≤ o.getD d) (hd : n ≤ d) :
    n ≤ fill 0 d (o.getD 0) := by
  rcases fill_getD_or o d with heq | heq
  · rw [heq]
    exact h
  · rw [heq]
    exact hd

section WriteBack
variable {c : Config} {ch : ChannelConfig} {o : ChannelConfigOverrides} {governed : Bool}
  {speaks : String → Prop}

theorem reasoning_writeBack {r : Option ReasoningOverrides}
    (h : (ReasoningOverrides.resolve r (governedReasoningBase governed)).Lawful governed) :
    (ReasoningOverrides.resolve r ⟨"", "", "", 0⟩).normalizedForGovernance governed =
      ReasoningOverrides.resolve r (governedReasoningBase governed) := by
  cases r with
  | none => rfl
  | some r =>
    have hmode : r.mode ≠ some "" := by
      intro hm
      have hin := h.mode
      simp only [ReasoningOverrides.resolve, hm, Option.getD_some] at hin
      exact absurd hin (by decide)
    have hmodel : r.model ≠ some "" := by
      intro hm
      have hin := h.model
      simp only [ReasoningOverrides.resolve, hm, Option.getD_some] at hin
      exact absurd hin (by decide)
    have hdepth : r.depth ≠ some "" := by
      intro hd
      have hin := h.depth
      simp only [ReasoningOverrides.resolve, hd, Option.getD_some] at hin
      exact absurd hin (by decide)
    simp only [ReasoningOverrides.resolve, ReasoningConfig.normalizedForGovernance,
      governedReasoningBase, fill_getD hmode, fill_getD hmodel, fill_getD hdepth]

/-- Only the rounds are filled in. -/
theorem autonomous_writeBack (a : Option AutonomousOverrides) :
    (AutonomousOverrides.resolve a ⟨false, "", [], "", "", 0, 0, 0, 0⟩).normalized =
      { AutonomousOverrides.resolve a defaultAutonomousConfig with
        maxRounds := fill 0 defaultAutonomousMaxRounds
          (effective a AutonomousOverrides.maxRounds 0) } := by
  cases a with
  | none => rfl
  | some a => rfl

theorem inRange_writeBack {a : Option AutonomousOverrides}
    (h : (AutonomousOverrides.resolve a defaultAutonomousConfig).InRange) :
    (AutonomousOverrides.resolve a ⟨false, "", [], "", "", 0, 0, 0, 0⟩).normalized.InRange := by
  rw [autonomous_writeBack]
  refine ⟨le_fill_getD ?_ (by decide), h.schedule, h.convenings, h.budget, h.agenda, h.items⟩
  cases a with
  | none => decide
  | some a => exact h.rounds

/-- A lawful set is a lawful block. -/
theorem lawful_writeBack (hfleet : c.Fleet)
    (h : (o.rung ch.governed).Lawful ch.governed speaks) :
    ((ch.writeBack o).filled.rung c).Lawful ch.governed speaks := by
  have hautonomous : ((ch.writeBack o).filled.rung c).autonomous =
      { AutonomousOverrides.resolve o.autonomous defaultAutonomousConfig with
        maxRounds := fill 0 defaultAutonomousMaxRounds
          (effective o.autonomous AutonomousOverrides.maxRounds 0) } :=
    autonomous_writeBack o.autonomous
  have hreasoning : ((ch.writeBack o).filled.rung c).reasoning = (o.rung ch.governed).reasoning :=
    reasoning_writeBack h.reasoning
  have hidle : ¬ ∃ n ∈ o.interactionIdleTimeoutSeconds, n < 0 := by
    rintro ⟨n, hn, hneg⟩
    have hlow := h.idle
    unfold ChannelConfigOverrides.rung at hlow
    rw [Option.mem_def.mp hn] at hlow
    exact absurd hlow (not_le.mpr hneg)
  have henabled : ((ch.writeBack o).filled.rung c).autonomous.enabled = true →
      (o.rung ch.governed).autonomous.enabled = true := by
    rw [hautonomous]
    exact id
  refine ⟨⟨le_fill_getD h.salience (by decide), depth_resolved, resolved_nonneg hfleet.budget,
    resolved_nonneg hfleet.replies, le_fill_getD h.threshold (by decide),
    le_fill_getD h.window (by decide), (idle_resolved hfleet).mp hidle, ?_,
    inRange_writeBack h.autonomous, fun harmed => ?_⟩, h.chair, fun harmed => ?_⟩
  · rw [hreasoning]
    exact h.reasoning
  · have hbounded := h.armed (henabled harmed)
    have hcapped : 0 < o.interactionBudgetTokens.getD 0 := hbounded.capped
    have hbudget : ((ch.writeBack o).filled.rung c).interactionBudgetTokens =
        o.interactionBudgetTokens.getD 0 := if_pos hcapped
    constructor
    · rw [hbudget]
      exact hcapped
    · rw [hautonomous]
      exact hbounded.convener
    · exact hbounded.chair
    · rw [hautonomous]
      exact hbounded.distinct
    · rw [hautonomous]
      exact hbounded.bounded
  · rw [hautonomous]
    exact h.convener (henabled harmed)

/-- What a load checks of the block beside its rung is what it checks with no knob set, and the
signs of three knobs. -/
theorem declared_writeBack {seen : List GoString} (hblank : (ch.writeBack {}).filled.Declared seen)
    (h : (o.rung ch.governed).Lawful ch.governed speaks) :
    (ch.writeBack o).filled.Declared seen := by
  refine ⟨hblank.named, hblank.pattern, hblank.fresh, hblank.classification, hblank.revision,
    hblank.timeout, ?_, h.budget, h.replies, hblank.inhabited, hblank.members⟩
  have hdepth := h.depth
  unfold ChannelConfigOverrides.rung at hdepth
  unfold ChannelConfig.filled ChannelConfig.writeBack
  dsimp only at hdepth ⊢
  cases hd : o.maxCascadeDepth with
  | none => exact le_refl _
  | some d => exact zero_le_one.trans (hdepth d hd)

end WriteBack

/-! ### A file -/

/-- A file that declares a block between others. -/
def Config.declaring (cfg : Config) (before after : List ChannelConfig) (ch : ChannelConfig) :
    Config :=
  { cfg with channels := before ++ ch :: after }

theorem loadConfig_ok {c loaded : Config} :
    loadConfig c = .ok loaded ↔ c.filled.validate = .ok () ∧ c.filled = loaded := by
  unfold loadConfig
  cases c.filled.validate with
  | error e => simp [bind, Except.bind]
  | ok u => simp [bind, Except.bind, pure, Except.pure]

theorem validateChannels_append {c : Config} {i : ℕ} {seen : List GoString}
    {before rest : List ChannelConfig} :
    validateChannels c i seen (before ++ rest) = .ok () ↔
      validateChannels c i seen before = .ok () ∧
        validateChannels c (i + before.length)
          ((before.map ChannelConfig.name).reverse ++ seen) rest = .ok () := by
  induction before generalizing i seen with
  | nil => simp [validateChannels]
  | cons ch before ih =>
    simp only [List.cons_append, validateChannels, check_bind_ok, ih, List.length_cons,
      List.map_cons, List.reverse_cons, List.append_assoc, List.nil_append, and_assoc]
    rw [Nat.add_right_comm, Nat.add_assoc i]

/-- The checks of a block read two fields of the fleet. -/
theorem validateChannel_congr {c c' : Config} (hdepth : c.maxCascadeDepth = c'.maxCascadeDepth)
    (hbudget : c.defaultInteractionBudgetTokens = c'.defaultInteractionBudgetTokens) (i : ℕ)
    (seen : List GoString) (ch : ChannelConfig) :
    validateChannel c i seen ch = validateChannel c' i seen ch := by
  cases c
  cases c'
  dsimp only at hdepth hbudget
  subst hdepth hbudget
  rfl

theorem validateChannels_congr {c c' : Config} (hdepth : c.maxCascadeDepth = c'.maxCascadeDepth)
    (hbudget : c.defaultInteractionBudgetTokens = c'.defaultInteractionBudgetTokens) (i : ℕ)
    (seen : List GoString) (l : List ChannelConfig) :
    validateChannels c i seen l = validateChannels c' i seen l := by
  induction l generalizing i seen with
  | nil => rfl
  | cons ch rest ih => rw [validateChannels, validateChannels, ih,
      validateChannel_congr hdepth hbudget]

theorem resolvedMaxCascadeDepth_nonneg (c : Config) : 0 ≤ c.resolvedMaxCascadeDepth :=
  resolved_nonneg (by decide)

/-- What a load checks of the fleet. -/
structure Config.Accepted (c : Config) : Prop extends c.Fleet where
  depth : 0 ≤ c.maxCascadeDepth
  classification : c.dmDefaultClassification ≠ "" →
    validClassification c.dmDefaultClassification = true
  cap : (c.channels.length : ℤ) ≤ c.maxChannels

theorem Config.validate_ok {c : Config} :
    c.validate = .ok () ↔ c.Accepted ∧ validateChannels c 0 [] c.channels = .ok () := by
  simp only [Config.validate, check_bind_ok, reject_ok, not_lt, not_exists, not_and,
    Bool.not_eq_false, ne_eq]
  constructor
  · rintro ⟨hdepth, hbudget, hidle, hreplies, hclass, hcap, hchannels⟩
    exact ⟨⟨⟨hbudget, hidle, hreplies⟩, hdepth, hclass, hcap⟩, hchannels⟩
  · rintro ⟨h, hchannels⟩
    exact ⟨h.depth, h.budget, h.idle, h.replies, h.classification, h.cap, hchannels⟩

section File
variable {cfg : Config} {before after : List ChannelConfig} {ch : ChannelConfig}

/-- The names of the channels before a block, the last one first. -/
abbrev namesBefore (before : List ChannelConfig) : List GoString :=
  ((before.map ChannelConfig.filled).map ChannelConfig.name).reverse

theorem validate_declaring :
    (cfg.declaring before after ch).filled.validate = .ok () ↔
      (cfg.declaring before after ch).filled.Accepted ∧
        validateChannels cfg 0 [] (before.map ChannelConfig.filled) = .ok () ∧
        validateChannel cfg before.length (namesBefore before) ch.filled = .ok () ∧
        validateChannels cfg (before.length + 1) (ch.name :: namesBefore before)
          (after.map ChannelConfig.filled) = .ok () := by
  have hchannels : (cfg.declaring before after ch).filled.channels =
      before.map ChannelConfig.filled ++ ch.filled :: after.map ChannelConfig.filled :=
    List.map_append
  have hcongr : ∀ i seen l, validateChannels (cfg.declaring before after ch).filled i seen l =
      validateChannels cfg i seen l :=
    fun i seen l => @validateChannels_congr (cfg.declaring before after ch).filled cfg rfl rfl
      i seen l
  rw [Config.validate_ok, hcongr, hchannels, validateChannels_append, List.length_map,
    Nat.zero_add, List.append_nil]
  simp only [validateChannels, check_bind_ok]
  exact Iff.rfl

theorem apply_iff_lawful {store : ChannelStore} (hstore : store.Holds ch)
    (o : ChannelConfigOverrides) (hnodup : (ch.members.map MemberConfig.id).Nodup) :
    applyChannelConfigChecks store ch.canonicalID o = .ok () ↔
      (o.rung ch.governed).Lawful ch.governed ch.Speaks := by
  obtain ⟨members, hmembers, hperm⟩ := hstore.members
  rw [applyChannelConfigChecks_ok hstore.type hmembers (nodup_stored hperm hnodup),
    anySalienceGated_stored hperm, membersSpeak_stored hperm]

theorem snapshot_accepted {store : ChannelStore} (hstore : store.Holds ch) {loaded : Config}
    (hload : loadConfig (cfg.declaring before after ch) = .ok loaded) :
    applyChannelConfigChecks store ch.canonicalID (ch.filled.toConfigOverrides loaded) =
      .ok () := by
  obtain ⟨hvalid, rfl⟩ := loadConfig_ok.mp hload
  obtain ⟨haccepted, -, hchannel, -⟩ := validate_declaring.mp hvalid
  rw [@validateChannel_congr cfg (cfg.declaring before after ch).filled rfl rfl] at hchannel
  obtain ⟨hdeclared, -, hlawful⟩ :=
    (validateChannel_ok haccepted.toFleet (filled_filled ch)).mp hchannel
  refine (apply_iff_lawful hstore _ (nodup_of_validateMembers hdeclared.members).1).mpr ?_
  have hrung := rung_toConfigOverrides (cfg.declaring before after ch).filled ch.filled
  exact hrung.symm ▸ hlawful

/-- The depth of a block that is written back. -/
theorem depth_writeBack {o : ChannelConfigOverrides} :
    (ch.writeBack o).filled.maxCascadeDepth ≤ cfg.resolvedMaxCascadeDepth ↔
      ∀ d ∈ o.maxCascadeDepth, d ≤ cfg.resolvedMaxCascadeDepth := by
  have hwritten : (ch.writeBack o).filled.maxCascadeDepth = o.maxCascadeDepth.getD 0 := rfl
  rw [hwritten]
  cases o.maxCascadeDepth with
  | none => simpa using resolvedMaxCascadeDepth_nonneg cfg
  | some d => simp

theorem writeBack_loaded {o : ChannelConfigOverrides} {loaded : Config}
    (hload : loadConfig (cfg.declaring before after (ch.writeBack {})) = .ok loaded)
    (hlawful : (o.rung ch.governed).Lawful ch.governed ch.Speaks) :
    (∃ loaded, loadConfig (cfg.declaring before after (ch.writeBack o)) = .ok loaded) ↔
      ∀ d ∈ o.maxCascadeDepth, d ≤ cfg.resolvedMaxCascadeDepth := by
  obtain ⟨hvalid, -⟩ := loadConfig_ok.mp hload
  obtain ⟨haccepted, hbefore, hblank, hafter⟩ := validate_declaring.mp hvalid
  have hfleet : cfg.Fleet := ⟨haccepted.budget, haccepted.idle, haccepted.replies⟩
  have hdeclared := ((validateChannel_ok hfleet (filled_filled _)).mp hblank).1
  rw [← @depth_writeBack cfg ch o]
  constructor
  · rintro ⟨loaded', hload'⟩
    obtain ⟨hvalid', -⟩ := loadConfig_ok.mp hload'
    obtain ⟨-, -, hchannel, -⟩ := validate_declaring.mp hvalid'
    exact ((validateChannel_ok hfleet (filled_filled _)).mp hchannel).2.1
  · intro hdepth
    have hlength : (cfg.declaring before after (ch.writeBack o)).filled.channels.length =
        (cfg.declaring before after (ch.writeBack {})).filled.channels.length := by
      simp [Config.filled, Config.declaring]
    have haccepted' : (cfg.declaring before after (ch.writeBack o)).filled.Accepted :=
      ⟨⟨haccepted.budget, haccepted.idle, haccepted.replies⟩, haccepted.depth,
        haccepted.classification, hlength ▸ haccepted.cap⟩
    have hchannel : validateChannel cfg before.length (namesBefore before)
        (ch.writeBack o).filled = .ok () :=
      (validateChannel_ok hfleet (filled_filled _)).mpr
        ⟨declared_writeBack hdeclared hlawful, hdepth, lawful_writeBack hfleet hlawful⟩
    exact ⟨_, loadConfig_ok.mpr
      ⟨validate_declaring.mpr ⟨haccepted', hbefore, hchannel, hafter⟩, rfl⟩⟩

/-- A load and an edit agree: the snapshot of a block that is loaded is accepted as an edit, and a
set that is accepted as an edit is loaded when it is written back, but for a depth over the cap
of the fleet. -/
theorem validation_agrees (cfg : Config) (before after : List ChannelConfig) (ch : ChannelConfig)
    {store : ChannelStore} (hstore : store.Holds ch) :
    (∀ loaded, loadConfig (cfg.declaring before after ch) = .ok loaded →
      applyChannelConfigChecks store ch.canonicalID (ch.filled.toConfigOverrides loaded) =
        .ok ()) ∧
      ∀ o, (∃ loaded, loadConfig (cfg.declaring before after (ch.writeBack {})) = .ok loaded) →
        applyChannelConfigChecks store ch.canonicalID o = .ok () →
          ((∃ loaded, loadConfig (cfg.declaring before after (ch.writeBack o)) = .ok loaded) ↔
            ∀ d ∈ o.maxCascadeDepth, d ≤ cfg.resolvedMaxCascadeDepth) := by
  constructor
  · intro loaded hload
    exact snapshot_accepted hstore hload
  · rintro o ⟨loaded, hload⟩ hedit
    obtain ⟨hvalid, -⟩ := loadConfig_ok.mp hload
    obtain ⟨haccepted, -, hblank, -⟩ := validate_declaring.mp hvalid
    have hfleet : cfg.Fleet := ⟨haccepted.budget, haccepted.idle, haccepted.replies⟩
    have hdeclared := ((validateChannel_ok hfleet (filled_filled _)).mp hblank).1
    have hnodup := (nodup_of_validateMembers hdeclared.members).1
    exact writeBack_loaded hload ((apply_iff_lawful hstore o hnodup).mp hedit)

end File

/-! ### A planning channel that runs itself -/

def fleet : Config where
  maxChannels := 0
  channels := []
  maxCascadeDepth := 0
  defaultInteractionBudgetTokens := 1000
  defaultMaxRepliesPerParticipant := 0
  defaultInteractionIdleTimeoutSeconds := none
  dmDefaultClassification := ""

def planning : ChannelConfig where
  name := ascii "planning"
  members := [⟨"ann", respondAlways, none, true⟩, ⟨"bob", respondAlways, none, true⟩]
  revision := 1
  floorControl := none
  floorTurnTimeoutSeconds := 0
  salienceMaxChannelMembers := 0
  maxCascadeDepth := 3
  interactionBudgetTokens := 0
  maxRepliesPerParticipantPerInteraction := 0
  endVoteThreshold := 0
  endVoteWindow := 0
  escalationChairID := "bob"
  interactionIdleTimeoutSeconds := none
  reasoning := ⟨"plan", "", "", 1⟩
  autonomous := { defaultAutonomousConfig with enabled := true, convener := "ann" }
  classification := ""

def planningStore : ChannelStore where
  getMembers := fun _ => .ok (planning.members.map MemberConfig.stored)
  getChannelType := fun _ => .ok .group

theorem planningStore_holds : planningStore.Holds planning where
  type := rfl
  members := ⟨_, rfl, .refl _⟩

/-- The block is loaded, and its snapshot, which has the budget of the fleet, is accepted. -/
theorem validation_agrees_planning : ∃ loaded,
    loadConfig (fleet.declaring [] [] planning) = .ok loaded ∧
      applyChannelConfigChecks planningStore planning.canonicalID
        (planning.filled.toConfigOverrides loaded) = .ok () := by
  have hload : loadConfig (fleet.declaring [] [] planning) =
      .ok (fleet.declaring [] [] planning).filled := loadConfig_ok.mpr ⟨by rfl, rfl⟩
  exact ⟨_, hload, (validation_agrees fleet [] [] planning planningStore_holds).1 _ hload⟩

end Persatrix.ChannelConfigs
