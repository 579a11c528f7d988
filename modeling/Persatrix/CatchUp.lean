import Persatrix.EpisodeRouting
import Persatrix.System

/-!
# A catch-up pass

At boot the window of each channel is replayed row by row. A row whose handling raises is noted as a
gap of its sender; a window that was replayed to its end is complete. When the pass is over, or its time
is up, a sweep closes what the replay has opened, and marks as whole what belongs to a complete window
that nothing has cut.

The handling of an event holds the lock of the agent, and the sweep does not: a live event is three
steps, between which the sweep may close a record.
-/
namespace Persatrix.Interactions

/-- The rows of a channel that pass the validation, the oldest first, as the events that they are
replayed as. -/
structure Window where
  channelID : String
  rows : List Arrival

/-- The windows of a pass. A row is stored under the id of its message. -/
structure History where
  windows : List Window
  channels : (windows.map Window.channelID).Nodup
  named : ∀ w ∈ windows, w.channelID ≠ ""
  replayed : ∀ w ∈ windows, ∀ a ∈ w.rows,
    a.event.metadata.replayMode = true ∧ a.event.channelID = some w.channelID
  ids : ((windows.flatMap Window.rows).map fun a => present a.event.messageID).Nodup

def History.rows (h : History) : List Arrival := h.windows.flatMap Window.rows

/-- A multi-turn event up to the fan over the records that it makes stale. -/
def receive (cfg : Config) (t : Tracker) (a : Arrival) : Tracker :=
  match scopeForMultiTurnEvent cfg a.event with
  | none => t
  | some scope =>
    closeStaleRecords cfg scope a
      (t.observeWireMessage (a.event.messageID.getD "") a.event.metadata.replayMode).2

/-- The turn of a live event. -/
def file (cfg : Config) (t : Tracker) (a : Arrival) : Tracker :=
  match scopeForMultiTurnEvent cfg a.event with
  | none => t
  | some scope =>
    let landed := t.addTurn cfg scope a (buildTurnPayload a.event a.summary false)
      (frozenOpenCapture a.event)
    stampRecord (scopeWireAnchor scope a.event) a.event landed.1 landed.2

def finish (cfg : Config) (t : Tracker) (a : Arrival) : Tracker :=
  match scopeForMultiTurnEvent cfg a.event with
  | none => t
  | some scope =>
    if isSessionEndEvent a.event then
      t.closeScope scope .structural fun r =>
        wireAdmitsRecord r (scopeWireAnchor scope a.event) true
    else t

/-- The three steps are the handling of a live event. -/
theorem handleMultiTurnEvent_live {cfg : Config} {a : Arrival} (t : Tracker)
    (h : a.event.metadata.replayMode = false) :
    handleMultiTurnEvent cfg t a = finish cfg (file cfg (receive cfg t a) a) a := by
  have hobserved : ∀ m, (t.observeWireMessage m false).1 = false := by
    intro m
    unfold Tracker.observeWireMessage
    split
    · rfl
    · rw [if_pos (by rfl)]
  unfold handleMultiTurnEvent finish file receive
  rw [h]
  cases scopeForMultiTurnEvent cfg a.event with
  | none => rfl
  | some scope =>
    dsimp only
    rw [hobserved]

/-- The sweep at the end of a pass, for one of the records that were open when it began. -/
def sweepRecord (completed : List String) (speakerGaps : List (String × String)) (t : Tracker)
    (r : Interaction) : Tracker :=
  if r.replayed then
    let channel := r.sourceChannelID.getD ""
    let derivable := channel ≠ "" && completed.contains channel &&
      !t.replayRecordCompromised channel r.speakerID && !speakerGaps.contains (channel, r.speakerID)
    (t.closeRecord r .catchupComplete (some derivable)).2
  else t

inductive Stage where
  /-- The windows that are left, of the first one the rest, and whether it has no hole so far. -/
  | replaying (channelComplete : Bool) (windows : List Window)
  | stopped
  | sweeping (rest : List Interaction)
  | over

/-- How far the live event is whose handling holds the lock. -/
inductive Handling where
  | none
  | received (a : Arrival)
  | filed (a : Arrival)

structure CatchUp where
  tracker : Tracker := .init
  handling : Handling := .none
  completed : List String := []
  speakerGaps : List (String × String) := []
  stage : Stage

inductive CatchUpEvent where
  | row
  | rowRaises
  | nextChannel
  /-- The pass ends, in the handling of a row after its fan, or between two rows. -/
  | stop (received : Bool)
  | beginSweep
  | sweep
  | endSweep
  | receive (a : Arrival)
  | file
  | finish
  | idleCheck (expired : List (Interaction × CloseReason))

namespace CatchUp

def step (cfg : Config) (s : CatchUp) : CatchUpEvent → Option CatchUp
  | .row =>
    match s.stage, s.handling with
    | .replaying whole (⟨channelID, a :: rows⟩ :: later), .none =>
      some { s with
        tracker := handleMultiTurnEvent cfg s.tracker a
        stage := .replaying whole (⟨channelID, rows⟩ :: later) }
    | _, _ => none
  | .rowRaises =>
    match s.stage with
    | .replaying whole (⟨channelID, a :: rows⟩ :: later) =>
      let sender := a.event.senderID.getD ""
      some { s with
        tracker := s.tracker.noteReplayGap channelID sender
        speakerGaps := if sender ≠ "" then (channelID, sender) :: s.speakerGaps else s.speakerGaps
        stage := .replaying (whole && sender ≠ "") (⟨channelID, rows⟩ :: later) }
    | _ => none
  | .nextChannel =>
    match s.stage with
    | .replaying whole (⟨channelID, []⟩ :: later) =>
      some { s with
        completed := if whole then channelID :: s.completed else s.completed
        stage := .replaying true later }
    | _ => none
  | .stop false =>
    match s.stage with
    | .replaying _ _ => some { s with stage := .stopped }
    | _ => none
  | .stop true =>
    match s.stage, s.handling with
    | .replaying _ (⟨_, a :: _⟩ :: _), .none =>
      some { s with tracker := Interactions.receive cfg s.tracker a, stage := .stopped }
    | _, _ => none
  | .beginSweep =>
    match s.stage with
    | .stopped => some { s with stage := .sweeping s.tracker.opened.values }
    | _ => none
  | .sweep =>
    match s.stage with
    | .sweeping (r :: rest) =>
      some { s with
        tracker := sweepRecord s.completed s.speakerGaps s.tracker r
        stage := .sweeping rest }
    | _ => none
  | .endSweep =>
    match s.stage with
    | .sweeping [] => some { s with tracker := s.tracker.clearReplayPassState, stage := .over }
    | _ => none
  | .receive a =>
    match s.handling with
    | .none =>
      if a.event.metadata.replayMode then none
      else some { s with
        tracker := Interactions.receive cfg s.tracker a
        handling := .received a }
    | _ => none
  | .file =>
    match s.handling with
    | .received a => some { s with
        tracker := Interactions.file cfg s.tracker a
        handling := .filed a }
    | _ => none
  | .finish =>
    match s.handling with
    | .filed a => some { s with
        tracker := Interactions.finish cfg s.tracker a
        handling := .none }
    | _ => none
  | .idleCheck expired =>
    some { s with tracker := expired.foldl (fun t p => (t.closeRecord p.1 p.2 none).2) s.tracker }

end CatchUp

def catchUpSystem (cfg : Config) (h : History) : System CatchUp CatchUpEvent where
  init := { stage := .replaying true h.windows }
  step := CatchUp.step cfg

/-- Each event with where the pass and the live event are that let it come, and what it leaves. -/
inductive CatchUp.Steps (cfg : Config) (s : CatchUp) : CatchUpEvent → CatchUp → Prop
  | row {whole : Bool} {channelID : String} {a : Arrival} {rows : List Arrival}
      {later : List Window}
      (hstage : s.stage = .replaying whole (⟨channelID, a :: rows⟩ :: later))
      (hhandling : s.handling = .none) : Steps cfg s .row { s with
        tracker := handleMultiTurnEvent cfg s.tracker a
        stage := .replaying whole (⟨channelID, rows⟩ :: later) }
  | rowRaises {whole : Bool} {channelID : String} {a : Arrival} {rows : List Arrival}
      {later : List Window} {gaps : List (String × String)}
      (hstage : s.stage = .replaying whole (⟨channelID, a :: rows⟩ :: later)) :
      Steps cfg s .rowRaises { s with
        tracker := s.tracker.noteReplayGap channelID (a.event.senderID.getD "")
        speakerGaps := gaps
        stage := .replaying (whole && a.event.senderID.getD "" ≠ "") (⟨channelID, rows⟩ :: later) }
  | nextChannel {whole : Bool} {channelID : String} {later : List Window} {completed : List String}
      (hstage : s.stage = .replaying whole (⟨channelID, []⟩ :: later))
      (hcompleted : completed = if whole then channelID :: s.completed else s.completed) :
      Steps cfg s .nextChannel { s with completed, stage := .replaying true later }
  | stop {whole : Bool} {windows : List Window} (hstage : s.stage = .replaying whole windows) :
      Steps cfg s (.stop false) { s with stage := .stopped }
  | stopReceived {whole : Bool} {channelID : String} {a : Arrival} {rows : List Arrival}
      {later : List Window} (hstage : s.stage = .replaying whole (⟨channelID, a :: rows⟩ :: later))
      (hhandling : s.handling = .none) : Steps cfg s (.stop true) { s with
        tracker := Interactions.receive cfg s.tracker a
        stage := .stopped }
  | beginSweep (hstage : s.stage = .stopped) :
      Steps cfg s .beginSweep { s with stage := .sweeping s.tracker.opened.values }
  | sweep {r : Interaction} {rest : List Interaction} (hstage : s.stage = .sweeping (r :: rest)) :
      Steps cfg s .sweep { s with
        tracker := sweepRecord s.completed s.speakerGaps s.tracker r
        stage := .sweeping rest }
  | endSweep (hstage : s.stage = .sweeping []) : Steps cfg s .endSweep { s with
      tracker := s.tracker.clearReplayPassState
      stage := .over }
  | receive {a : Arrival} (hhandling : s.handling = .none)
      (hlive : a.event.metadata.replayMode = false) : Steps cfg s (.receive a) { s with
        tracker := Interactions.receive cfg s.tracker a
        handling := .received a }
  | file {a : Arrival} (hhandling : s.handling = .received a) : Steps cfg s .file { s with
      tracker := Interactions.file cfg s.tracker a
      handling := .filed a }
  | finish {a : Arrival} (hhandling : s.handling = .filed a) : Steps cfg s .finish { s with
      tracker := Interactions.finish cfg s.tracker a
      handling := .none }
  | idleCheck (expired : List (Interaction × CloseReason)) : Steps cfg s (.idleCheck expired) { s with
      tracker := expired.foldl (fun t p => (t.closeRecord p.1 p.2 none).2) s.tracker }

theorem CatchUp.steps_of_step {cfg : Config} {s u : CatchUp} {e : CatchUpEvent}
    (hstep : s.step cfg e = some u) : s.Steps cfg e u := by
  cases e with
  | row =>
    unfold CatchUp.step at hstep
    dsimp only at hstep
    split at hstep
    · next hstage hhandling =>
        cases hstep
        exact .row hstage hhandling
    · cases hstep
  | rowRaises =>
    unfold CatchUp.step at hstep
    dsimp only at hstep
    split at hstep
    · next hstage =>
        cases hstep
        exact .rowRaises hstage
    · cases hstep
  | nextChannel =>
    unfold CatchUp.step at hstep
    dsimp only at hstep
    split at hstep
    · next hstage =>
        cases hstep
        exact .nextChannel hstage rfl
    · cases hstep
  | stop received =>
    cases received with
    | false =>
      unfold CatchUp.step at hstep
      dsimp only at hstep
      split at hstep
      · next hstage =>
          cases hstep
          exact .stop hstage
      · cases hstep
    | true =>
      unfold CatchUp.step at hstep
      dsimp only at hstep
      split at hstep
      · next hstage hhandling =>
          cases hstep
          exact .stopReceived hstage hhandling
      · cases hstep
  | beginSweep =>
    unfold CatchUp.step at hstep
    dsimp only at hstep
    split at hstep
    · next hstage =>
        cases hstep
        exact .beginSweep hstage
    · cases hstep
  | sweep =>
    unfold CatchUp.step at hstep
    dsimp only at hstep
    split at hstep
    · next hstage =>
        cases hstep
        exact .sweep hstage
    · cases hstep
  | endSweep =>
    unfold CatchUp.step at hstep
    dsimp only at hstep
    split at hstep
    · next hstage =>
        cases hstep
        exact .endSweep hstage
    · cases hstep
  | receive a =>
    unfold CatchUp.step at hstep
    dsimp only at hstep
    split at hstep
    · next hhandling =>
        split_ifs at hstep with hreplay
        cases hstep
        exact .receive hhandling (Bool.not_eq_true _ ▸ hreplay)
    · cases hstep
  | file =>
    unfold CatchUp.step at hstep
    dsimp only at hstep
    split at hstep
    · next hhandling =>
        cases hstep
        exact .file hhandling
    · cases hstep
  | finish =>
    unfold CatchUp.step at hstep
    dsimp only at hstep
    split at hstep
    · next hhandling =>
        cases hstep
        exact .finish hhandling
    · cases hstep
  | idleCheck expired =>
    cases hstep
    exact .idleCheck expired

/-- The pass over the windows with nothing in between, no gap and no end before its time. -/
def cleanPass (cfg : Config) (h : History) : Tracker :=
  let t := h.rows.foldl (handleMultiTurnEvent cfg) .init
  (t.opened.values.foldl (sweepRecord (h.windows.map Window.channelID) []) t).clearReplayPassState

/-- The replayed records that have reached the close path marked as whole. -/
def derivedRecords (t : Tracker) : List Interaction :=
  t.closed.filter fun r => r.replayed && r.replayWindowComplete

namespace Interaction

def messageIDs (r : Interaction) : List (Option String) := r.turns.map fun turn => turn.payload.messageID

end Interaction

end Persatrix.Interactions
