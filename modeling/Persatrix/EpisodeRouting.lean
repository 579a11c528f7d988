import Persatrix.InteractionTracker

/-!
# The handling of a multi-turn event

An event first closes the records that it makes stale: every record of a conversation that has
been rotated away, and the record under its own key if the one was replayed and the other was
not. Then its turn is appended, and an event that ends the session closes the room.
-/
namespace Persatrix.Interactions

def wireCloseTriggerIdle : String := "idle"

/-- The conversation of the record has ended: the event belongs to another one, which is not the
known predecessor of the record's. -/
def wireRotationCloses (r : Interaction) (wireID : String) : Bool :=
  r.isOpen && wireID ≠ "" && r.wireInteractionID ≠ "" && r.wireInteractionID ≠ wireID &&
    r.predecessorWireID ≠ wireID

def wireRotationCloseReason (r : Interaction) (m : Metadata) : CloseReason :=
  if m.previousInteractionID ≠ "" ∧ m.previousInteractionID = r.wireInteractionID ∧
      m.previousInteractionCloseTrigger = wireCloseTriggerIdle then .idleGap
  else .structural

def staleCloseReason (r : Interaction) (event : AgentEvent) (wireID : String)
    (isTargetRecord : Bool) : Option CloseReason :=
  if !r.isOpen then none
  else if isTargetRecord && (r.replayed, r.replayAttributed) ≠ replayMarkers event then
    some .catchupComplete
  else if wireRotationCloses r wireID then some (wireRotationCloseReason r event.metadata)
  else none

/-- A record without a stamp is always admitted, and a stamped one on a match. -/
def wireAdmitsRecord (r : Interaction) (anchor : String) (tolerateBlankAnchor : Bool) : Bool :=
  if r.wireInteractionID = "" then true
  else if anchor = "" then tolerateBlankAnchor
  else r.wireInteractionID = anchor

/-- The key under which the turn of the arrival will be filed. -/
def targetKey (cfg : Config) (scope : String) (a : Arrival) : RecordKey :=
  resolveRecordKey cfg.envPrincipal a.principal scope none a.event.senderID

/-- The segment that the close leaves behind is a whole conversation: one replayed row has
rotated away another, in a window that nothing has cut. -/
def segmentComplete (t : Tracker) (r : Interaction) (event : AgentEvent) (reason : CloseReason) :
    Bool :=
  r.replayed && (replayMarkers event).1 && reason ≠ .catchupComplete &&
    r.sourceChannelID.getD "" ≠ "" &&
    !t.replayRecordCompromised (r.sourceChannelID.getD "") r.speakerID

/-- One record of the fan. -/
def closeIfStale (cfg : Config) (scope : String) (a : Arrival) (t : Tracker) (r : Interaction) :
    Tracker :=
  match staleCloseReason r a.event (scopeWireAnchor scope a.event)
      (r.key = targetKey cfg scope a) with
  | none => t
  | some reason =>
    (t.closeRecord r reason
      (if segmentComplete t r a.event reason then some true else none)).2

/-- The records that were open when the event came are judged one after the other. -/
def closeStaleRecords (cfg : Config) (scope : String) (a : Arrival) (t : Tracker) : Tracker :=
  (t.recordsForScope scope).foldl (closeIfStale cfg scope a) t

def scopeForMultiTurnEvent (cfg : Config) (event : AgentEvent) : Option String :=
  scopeForChannelEvent cfg.agentID event.channelID event.senderID event.threadID event.channelType

/-- The first turn that carries an id stamps the record with it, if the record is still open. -/
def stampRecord (wireID : String) (event : AgentEvent) (r : Interaction) (t : Tracker) : Tracker :=
  if wireID ≠ "" ∧ r.isOpen ∧ r.wireInteractionID = "" then
    { t with opened := t.opened.put (r.stamp wireID event.metadata.previousInteractionID) }
  else t

/-- An event that belongs to no scope is stored elsewhere. -/
def handleMultiTurnEvent (cfg : Config) (t : Tracker) (a : Arrival) : Tracker :=
  match scopeForMultiTurnEvent cfg a.event with
  | none => t
  | some scope =>
    let observed := t.observeWireMessage (a.event.messageID.getD "") a.event.metadata.replayMode
    let payload := buildTurnPayload a.event a.summary observed.1
    let wireID := scopeWireAnchor scope a.event
    let t := closeStaleRecords cfg scope a observed.2
    let landed := t.addTurn cfg scope a payload (frozenOpenCapture a.event)
    let t := stampRecord wireID a.event landed.1 landed.2
    if isSessionEndEvent a.event then
      t.closeScope scope .structural fun r => wireAdmitsRecord r wireID true
    else t

/-- The events come one at a time; between them a catch-up pass may note a row that was lost, or
end. -/
inductive Op where
  | event (a : Arrival)
  | replayGap (channelID speakerID : String)
  | endOfPass

def apply (cfg : Config) (t : Tracker) : Op → Tracker
  | .event a => handleMultiTurnEvent cfg t a
  | .replayGap channelID speakerID => t.noteReplayGap channelID speakerID
  | .endOfPass => t.clearReplayPassState

def run (cfg : Config) (ops : List Op) : Tracker := ops.foldl (apply cfg) .init

@[simp] theorem run_nil (cfg : Config) : run cfg [] = .init := rfl

@[simp] theorem run_append (cfg : Config) (ops : List Op) (op : Op) :
    run cfg (ops ++ [op]) = apply cfg (run cfg ops) op := by
  rw [run, List.foldl_append]
  rfl

end Persatrix.Interactions
