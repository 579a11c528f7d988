import Persatrix.GoValues
import Mathlib.Data.Finset.Basic
import Mathlib.Data.Finset.Insert
import Mathlib.Data.List.MinMax

/-!
# The gate at memory injection

An entry is injected when its protection level is at most the acting one and the acting room
adds nobody to the room it came from. An episode that is withheld can be replaced by a stored
projection of it. A label that is no level is any other text, or absent. An empty text counts
as absent where the source asks whether a value is present.
-/
namespace Persatrix.Agents

/-! ### Classification -/

def classificationPublic : String := "public"

def classificationRanks : List (String × ℕ) :=
  [(classificationPublic, 0), ("internal", 1), ("restricted", 2), ("secret", 3)]

def classificationRank (level : Option String) : Option ℕ :=
  level.bind fun level => classificationRanks.lookup level

def actingRank (level : Option String) : ℕ := (classificationRank level).getD 0

def entryRankOrWithhold (level : Option String) : Option ℕ := classificationRank level

def injectableLevels (acting : Option String) : List String :=
  (classificationRanks.filter fun l => l.2 ≤ actingRank acting).map Prod.fst

/-- The value, if it is neither absent nor empty. -/
def present (s : Option String) : Option String := s.filter fun s => s ≠ ""

/-! ### Audience -/

inductive AudienceMode where
  | off | shadow | live
deriving DecidableEq

inductive AudienceVerdict where
  | admitted | withholdDisjoint | withholdUnknownFetchFailed | withholdUnknownNoProvenance
deriving DecidableEq

def enforcedVerdicts : List AudienceVerdict := [.withholdDisjoint]

def audienceTiers : List String := ["channel_history", "facts", "episodic"]

structure AudienceRecord where
  tier : String
  entryID : String
  protectionLevel : String
  sourceChannelID : Option String
  verdict : AudienceVerdict
deriving DecidableEq

/-- The members of each room; the members of a room whose fetch missed are not known. -/
abbrev RoomTable := GoMap String (Option (Finset String))

def RoomTable.members (rooms : RoomTable) (channelID : Option String) : Option (Finset String) :=
  (present channelID).bind fun id => (rooms.lookup id).join

structure TurnAudience where
  mode : AudienceMode
  actingChannelID : Option String
  rooms : RoomTable

namespace TurnAudience

def enforcing (a : TurnAudience) : Bool := a.mode = .live

def verdict (a : TurnAudience) (tier protectionLevel : String) (sourceChannelID : Option String) :
    Option AudienceVerdict :=
  if tier ∉ audienceTiers then none
  else if protectionLevel = classificationPublic then none
  else if present sourceChannelID = none then some .withholdUnknownNoProvenance
  else
    match a.rooms.members sourceChannelID, a.rooms.members a.actingChannelID with
    | some source, some acting => some (if acting ⊆ source then .admitted else .withholdDisjoint)
    | _, _ => some .withholdUnknownFetchFailed

end TurnAudience

/-- The audience of a turn, with the room table that was fetched for it. -/
def resolveTurnAudience (mode : AudienceMode) (actingChannelID acting : Option String)
    (rooms : RoomTable) : Option TurnAudience :=
  if mode = .off then none
  else if actingRank acting ≤ 0 then none
  else some ⟨mode, actingChannelID, rooms⟩

/-! ### The gate -/

/-- A candidate for injection, of any tier. -/
structure Episode where
  id : String
  summary : String
  interactionID : Option String
  protectionLevel : Option String
  sourceChannelID : Option String
deriving DecidableEq

structure TurnInjectionGate where
  acting : Option String
  audience : Option TurnAudience
  audienceRecords : List AudienceRecord
  audienceTerminal : Finset (String × String)
  withheld : ℕ
  unknown : List (String × String × Option String × Option String)
  passedLevels : GoMap (String × String) String
  decisions : GoMap String (List (Episode × Bool))

namespace TurnInjectionGate

def new (acting : Option String) (audience : Option TurnAudience) : TurnInjectionGate :=
  ⟨acting, audience, [], ∅, 0, [], ∅, ∅⟩

def judgeAudience (g : TurnInjectionGate) (tier entryID protectionLevel : String)
    (sourceChannelID : Option String) : Bool × TurnInjectionGate :=
  match g.audience with
  | none => (true, g)
  | some a =>
    match a.verdict tier protectionLevel sourceChannelID with
    | none => (true, g)
    | some verdict =>
      let g := { g with
        audienceRecords := g.audienceRecords ++
          [⟨tier, entryID, protectionLevel, sourceChannelID, verdict⟩] }
      if a.enforcing ∧ verdict ∈ enforcedVerdicts then
        (false, { g with audienceTerminal := insert (tier, entryID) g.audienceTerminal })
      else (true, g)

def admitEntry (g : TurnInjectionGate) (tier : String) (entry : Episode) :
    Bool × TurnInjectionGate :=
  match entry.protectionLevel, entryRankOrWithhold entry.protectionLevel with
  | some level, some rank =>
    if actingRank g.acting < rank then (false, { g with withheld := g.withheld + 1 })
    else
      match g.judgeAudience tier entry.id level entry.sourceChannelID with
      | (false, g) => (false, g)
      | (true, g) => (true, { g with passedLevels := g.passedLevels.insert (tier, entry.id) level })
  | level, _ =>
    (false, { g with unknown := g.unknown ++ [(tier, entry.id, level, entry.sourceChannelID)] })

/-- The decisions for a tier, in candidate order. -/
def decisionsOf (g : TurnInjectionGate) (tier : String) : List (Episode × Bool) :=
  (g.decisions.lookup tier).getD []

def recordDecision (g : TurnInjectionGate) (tier : String) (entry : Episode) (admitted : Bool) :
    TurnInjectionGate :=
  { g with decisions := g.decisions.insert tier (g.decisionsOf tier ++ [(entry, admitted)]) }

/-- The entries of a tier that are admitted. -/
def filterEntries (tier : String) : TurnInjectionGate → List Episode →
    List Episode × TurnInjectionGate
  | g, [] => ([], g)
  | g, entry :: entries =>
    match g.admitEntry tier entry with
    | (admitted, g) =>
      match filterEntries tier (g.recordDecision tier entry admitted) entries with
      | (rest, g) => (if admitted then entry :: rest else rest, g)

def recordProjection (g : TurnInjectionGate) (tier entryID level : String) : TurnInjectionGate :=
  { g with passedLevels := g.passedLevels.insert (tier, entryID) level }

/-- A sequence of calls, and the lists they return. -/
def filterAll : TurnInjectionGate → List (String × List Episode) →
    List (List Episode) × TurnInjectionGate
  | g, [] => ([], g)
  | g, (tier, entries) :: calls =>
    match filterEntries tier g entries with
    | (admitted, g) =>
      match filterAll g calls with
      | (rest, g) => (admitted :: rest, g)

end TurnInjectionGate

/-! ### Projections -/

structure ProjectionRow where
  agentID : String
  entryID : String
  entryTier : String
  level : String
  text : String
deriving DecidableEq

def entryTierEpisode : String := "episode"

/-- The stored projections of one entry at the levels, as pairs of a level and a text. -/
def projectionsOf (rows : List ProjectionRow) (agentID entryTier entryID : String)
    (levels : List String) : List (String × String) :=
  ((rows.filter fun r => r.agentID = agentID ∧ r.entryTier = entryTier ∧ r.entryID = entryID ∧
    r.level ∈ levels).mergeSort fun r s => decide (r.level ≤ s.level)).map fun r => (r.level, r.text)

/-- The entries for which there are projections, with these; a storage that fails has none. -/
def projectionsFor (storage : Option (List ProjectionRow)) (agentID entryTier : String)
    (entryIDs levels : List String) : Option (List (String × List (String × String))) :=
  if entryIDs = [] ∨ levels = [] then some []
  else
    storage.map fun rows =>
      (entryIDs.map fun id => (id, projectionsOf rows agentID entryTier id levels)).filter
        fun e => e.2 ≠ []

def levelRank (level : String) : ℤ :=
  match entryRankOrWithhold (some level) with
  | none => -1
  | some rank => rank

/-- The projection at the highest level, the first one of these. -/
def highest (projections : List (String × String)) : Option (String × String) :=
  @List.argmax _ ℤ Int.instLinearOrder.toPreorder _ (fun lt => levelRank lt.1) projections

def episodeTiers : List String := ["channel_history", "episodic"]

/-- The interactions of the episodes that a projection may stand in for. -/
def withheldIDs (g : TurnInjectionGate) : List String :=
  (episodeTiers.flatMap fun tier =>
    (g.decisionsOf tier).filterMap fun d =>
      if d.2 = false ∧ (tier, d.1.id) ∉ g.audienceTerminal then present d.1.interactionID
      else none).dedup

/-- The projection that is served for an interaction. -/
def best (available : List (String × List (String × String))) (interactionID : Option String) :
    Option (String × String) :=
  highest ((available.lookup (interactionID.getD "")).getD [])

/-- One tier with its projections in place, whether there are any, and the gate. -/
def rebuildTier (pick : Option String → Option (String × String)) (tier : String) :
    TurnInjectionGate → List (Episode × Bool) → (List Episode × Bool) × TurnInjectionGate
  | g, [] => (([], false), g)
  | g, (episode, true) :: rest =>
    match rebuildTier pick tier g rest with
    | ((out, served), g) => ((episode :: out, served), g)
  | g, (episode, false) :: rest =>
    if (tier, episode.id) ∈ g.audienceTerminal then rebuildTier pick tier g rest
    else
      match pick episode.interactionID with
      | none => rebuildTier pick tier g rest
      | some (level, text) =>
        match g.judgeAudience tier episode.id level episode.sourceChannelID with
        | (false, g) => rebuildTier pick tier g rest
        | (true, g) =>
          match rebuildTier pick tier (g.recordProjection tier episode.id level) rest with
          | ((out, _), g) =>
            (({ episode with summary := text, protectionLevel := some level } :: out, true), g)

def rebuild (pick : Option String → Option (String × String)) (tier : String)
    (admittedNow : List Episode) (g : TurnInjectionGate) : List Episode × TurnInjectionGate :=
  match rebuildTier pick tier g (g.decisionsOf tier) with
  | ((out, true), g) => (out, g)
  | ((_, false), g) => (admittedNow, g)

def applyEpisodeProjections (g : TurnInjectionGate) (storage : Option (List ProjectionRow))
    (agentID : String) (channelHistory episodicEntries : List Episode) :
    (List Episode × List Episode) × TurnInjectionGate :=
  if withheldIDs g = [] then ((channelHistory, episodicEntries), g)
  else
    match projectionsFor storage agentID entryTierEpisode (withheldIDs g)
        (injectableLevels g.acting) with
    | none | some [] => ((channelHistory, episodicEntries), g)
    | some available =>
      match rebuild (best available) "channel_history" channelHistory g with
      | (history, g) =>
        match rebuild (best available) "episodic" episodicEntries g with
        | (episodic, g) => ((history, episodic), g)

end Persatrix.Agents
