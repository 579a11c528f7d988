import Persatrix.ChannelMessage

/-!
# End-of-interaction votes

What `endVoteMu` guards: the vote accumulators, the tombstones of closed interactions
and the quorum and window of each channel. An accumulator is created by the first vote
of its interaction. Whether the channel is autonomous is read after the mutex has been
released, so the outcome of the locked section says all that the rest of the hook uses.
-/
namespace Persatrix.Channels

def defaultEndVoteThreshold : ℤ := 2
def defaultEndVoteWindow : ℤ := 3

structure InteractionEndVotes where
  turn : ℤ := 0
  votes : GoMap String ℤ := ∅

structure EndVoteLayer where
  endVotes : GoMap String InteractionEndVotes := ∅
  closedInteractions : GoMap String Unit := ∅
  endVoteThresholds : GoMap String ℤ := ∅
  endVoteWindows : GoMap String ℤ := ∅

namespace InteractionEndVotes

/-- The turn and the votes after one more tracked publish, and whether it repeats a live vote. -/
def countPublish (state : InteractionEndVotes) (w : ℤ) (senderID : String) (isVote : Bool) :
    InteractionEndVotes × Bool :=
  let turn := state.turn + 1
  if isVote then
    let spam := (state.votes.lookup senderID).any fun prev => decide (turn - prev < w)
    ({ turn := turn, votes := state.votes.insert senderID turn }, spam)
  else ({ state with turn := turn }, false)

/-- The number of participants with a live vote. -/
def recentVotes (state : InteractionEndVotes) (w : ℤ) : ℕ :=
  state.votes.count fun voteTurn => decide (state.turn - voteTurn < w)

end InteractionEndVotes

inductive EndVoteOutcome where
  | untracked
  | postClose
  | counted (closed spam : Bool)
deriving DecidableEq

namespace EndVoteOutcome

def closes : EndVoteOutcome → Bool
  | .counted closed _ => closed
  | _ => false

/-- Whether fanout is suppressed. -/
def suppresses (autonomous : Bool) : EndVoteOutcome → Bool
  | .untracked => false
  | .postClose => true
  | .counted closed spam => closed || (spam && !autonomous)

end EndVoteOutcome

namespace EndVoteLayer

def setEndVoteParams (l : EndVoteLayer) (channelID : String) (k w : ℤ) : EndVoteLayer :=
  { l with
    endVoteThresholds :=
      l.endVoteThresholds.insert channelID (if k ≤ 0 then defaultEndVoteThreshold else k)
    endVoteWindows :=
      l.endVoteWindows.insert channelID (if w ≤ 0 then defaultEndVoteWindow else w) }

/-- An absent entry reads as zero. -/
def resolvedEndVoteParamsLocked (l : EndVoteLayer) (channelID : String) : ℤ × ℤ :=
  let k := (l.endVoteThresholds.lookup channelID).getD 0
  let w := (l.endVoteWindows.lookup channelID).getD 0
  (if k ≤ 0 then defaultEndVoteThreshold else k, if w ≤ 0 then defaultEndVoteWindow else w)

def tombstoneInteractionLocked (l : EndVoteLayer) (interactionID : String) :
    EndVoteLayer × Bool :=
  if (l.closedInteractions.lookup interactionID).isSome then (l, false)
  else
    ({ l with
        closedInteractions := l.closedInteractions.insert interactionID ()
        endVotes := l.endVotes.erase interactionID }, true)

def discardInteractionEndVotes (l : EndVoteLayer) (interactionID : String) : EndVoteLayer :=
  if interactionID = "" then l
  else
    { l with
      endVotes := l.endVotes.erase interactionID
      closedInteractions := l.closedInteractions.erase interactionID }

/-- The part of the hook that counts, once the accumulator is at hand. -/
def countVoteLocked (l : EndVoteLayer) (msg : ChannelMessage) (state : InteractionEndVotes) :
    EndVoteLayer × EndVoteOutcome :=
  let interactionID := msg.interactionID
  let (k, w) := l.resolvedEndVoteParamsLocked msg.channelID
  let (state, spam) := state.countPublish w msg.senderID msg.isVote
  let l := { l with endVotes := l.endVotes.insert interactionID state }
  let closed := msg.isVote && decide (k ≤ state.recentVotes w)
  (if closed then (l.tombstoneInteractionLocked interactionID).1 else l, .counted closed spam)

def processEndVoteLocked (l : EndVoteLayer) (msg : ChannelMessage) :
    EndVoteLayer × EndVoteOutcome :=
  let interactionID := msg.interactionID
  if interactionID = "" then (l, .untracked)
  else if (l.closedInteractions.lookup interactionID).isSome then (l, .postClose)
  else
    match l.endVotes.lookup interactionID with
    | some state => l.countVoteLocked msg state
    | none => if msg.isVote then l.countVoteLocked msg {} else (l, .untracked)

/-- The hook without the teardown that follows a close. -/
def processEndVote (l : EndVoteLayer) (msg : ChannelMessage) (autonomous : Bool) :
    EndVoteLayer × Bool :=
  let (l, outcome) := l.processEndVoteLocked msg
  (l, outcome.suppresses autonomous)

end EndVoteLayer
end Persatrix.Channels
