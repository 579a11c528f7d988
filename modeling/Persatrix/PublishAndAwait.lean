import Persatrix.GoValues
import Persatrix.System
import Mathlib.Logic.Function.Basic

/-!
# Publishing a question and awaiting its answer

A chat call installs a waiter for the agent's next message on the channel, publishes its own message,
and waits for a reply, its timer or the end of its context; before it returns it removes the waiter
if that is still its own. Whoever publishes notifies the waiter for the channel and the sender: the
waiter is taken out of the table under the lock, and the message is sent afterwards into a buffer of
one message.

A message is named by its place in the store, a call and its buffer by the place of the call. Every
lock section of the table, store commit and channel operation is a step of its own. The fields
`taken` and `provokedBy` are read by no step: the one notes which message was taken for a call, the
other which message the sender answers.
-/
namespace Persatrix.Channels

structure WaiterKey where
  channelID : String
  senderID : String
deriving DecidableEq

/-- The table of waiters, each with the buffer of its call. -/
abbrev ReplyWaiter := GoMap WaiterKey ℕ

namespace ReplyWaiter

/-- Installs a waiter unless there is one. -/
def register (w : ReplyWaiter) (key : WaiterKey) (ch : ℕ) : Option ReplyWaiter :=
  match w.lookup key with
  | some _ => none
  | none => some (AList.insert key ch w)

/-- Removes the waiter if it is the one of this buffer. -/
def cancel (w : ReplyWaiter) (key : WaiterKey) (ch : ℕ) : ReplyWaiter :=
  if w.lookup key = some ch then w.erase key else w

end ReplyWaiter

structure StoredMessage where
  channelID : String
  senderID : String
  provokedBy : Option ℕ

def StoredMessage.key (m : StoredMessage) : WaiterKey := ⟨m.channelID, m.senderID⟩

inductive ChatResult where
  | reply (message : ℕ)
  | chatTimeout
  | contextErr
  | publishErr
  | alreadyRegistered
  | invalidParticipantID
deriving DecidableEq

inductive ChatStage where
  | registered
  | published
  | awaiting
  | leaving (result : ChatResult)
  | returned (result : ChatResult)
deriving DecidableEq

/-- A call of PublishAndAwait; `question` is its message once that is stored. -/
structure ChatCall where
  channelID : String
  senderID : String
  awaitFromAgentID : String
  stage : ChatStage
  question : Option ℕ := none
  timerFired : Bool := false
  contextEnded : Bool := false

def ChatCall.key (call : ChatCall) : WaiterKey := ⟨call.channelID, call.awaitFromAgentID⟩

def ChatCall.result (call : ChatCall) : Option ChatResult :=
  match call.stage with
  | .leaving result => some result
  | .returned result => some result
  | _ => none

def ChatCall.hasReturned (call : ChatCall) : Bool :=
  match call.stage with
  | .returned _ => true
  | _ => false

structure ChatState where
  stored : List StoredMessage := []
  delivered : List (ℕ × String) := []
  unnotified : List ℕ := []
  sending : List (ℕ × ℕ) := []
  buffer : ℕ → Option ℕ := fun _ => none
  waiters : ReplyWaiter := ∅
  calls : List ChatCall := []
  taken : ℕ → Option ℕ := fun _ => none

namespace ChatState

/-- A message is provoked by one that was delivered to its sender on its channel, or by none. -/
def mayProvoke (s : ChatState) (channelID senderID : String) (provokedBy : Option ℕ) : Bool :=
  provokedBy.all fun k =>
    (k, senderID) ∈ s.delivered && (s.stored[k]?).any fun m => m.channelID = channelID

/-- Commits a message, whose Notify is still to be run. -/
def commit (s : ChatState) (m : StoredMessage) : ChatState :=
  { s with stored := s.stored ++ [m], unnotified := s.unnotified ++ [s.stored.length] }

def setCall (s : ChatState) (c : ℕ) (call : ChatCall) : ChatState :=
  { s with calls := s.calls.set c call }

end ChatState

/-- The next step of a call, or what happens to its timer or its context. -/
inductive ChatAction where
  | publishFails
  | commit (provokedBy : Option ℕ)
  | publishReturns
  | timerFires
  | contextEnds
  | receive
  | timeOut
  | contextDone
  | cancel

inductive ChatEvent where
  | enter (channelID senderID awaitFromAgentID : String)
  | act (c : ℕ) (action : ChatAction)
  | publish (channelID senderID : String) (provokedBy : Option ℕ)
  | deliver (k : ℕ) (participantID : String)
  | notify (k : ℕ)
  | send (c k : ℕ)

namespace ChatState

/-- The entry of a call and the lock section of its Register. -/
def enter (s : ChatState) (channelID senderID awaitFromAgentID : String) : ChatState :=
  if senderID = awaitFromAgentID then
    { s with calls := s.calls ++
        [{ channelID, senderID, awaitFromAgentID, stage := .returned .invalidParticipantID }] }
  else
    match s.waiters.register ⟨channelID, awaitFromAgentID⟩ s.calls.length with
    | none =>
      { s with calls := s.calls ++
          [{ channelID, senderID, awaitFromAgentID, stage := .returned .alreadyRegistered }] }
    | some waiters =>
      { s with
        calls := s.calls ++ [{ channelID, senderID, awaitFromAgentID, stage := .registered }]
        waiters := waiters }

def act (s : ChatState) (c : ℕ) (call : ChatCall) : ChatAction → Option ChatState
  | .publishFails =>
    if call.stage = .registered then
      some (s.setCall c { call with stage := .leaving .publishErr })
    else none
  | .commit provokedBy =>
    if call.stage = .registered && s.mayProvoke call.channelID call.senderID provokedBy then
      some ((s.commit ⟨call.channelID, call.senderID, provokedBy⟩).setCall c
        { call with stage := .published, question := some s.stored.length })
    else none
  | .publishReturns =>
    if call.stage = .published then some (s.setCall c { call with stage := .awaiting }) else none
  | .timerFires =>
    if call.stage = .awaiting then some (s.setCall c { call with timerFired := true }) else none
  | .contextEnds => some (s.setCall c { call with contextEnded := true })
  | .receive =>
    match s.buffer c with
    | none => none
    | some k =>
      if call.stage = .awaiting then
        some { s.setCall c { call with stage := .leaving (.reply k) } with
          buffer := Function.update s.buffer c none }
      else none
  | .timeOut =>
    if call.stage = .awaiting && call.timerFired then
      some (s.setCall c { call with stage := .leaving .chatTimeout })
    else none
  | .contextDone =>
    if call.stage = .awaiting && call.contextEnded then
      some (s.setCall c { call with stage := .leaving .contextErr })
    else none
  | .cancel =>
    match call.stage with
    | .leaving result =>
      some { s.setCall c { call with stage := .returned result } with
        waiters := s.waiters.cancel call.key c }
    | _ => none

/-- The lock section of Notify for a message. -/
def notify (s : ChatState) (k : ℕ) (m : StoredMessage) : ChatState :=
  match s.waiters.lookup m.key with
  | none => { s with unnotified := s.unnotified.erase k }
  | some c =>
    { s with
      unnotified := s.unnotified.erase k
      waiters := s.waiters.erase m.key
      sending := s.sending ++ [(c, k)]
      taken := Function.update s.taken c (some k) }

def step (s : ChatState) : ChatEvent → Option ChatState
  | .enter channelID senderID awaitFromAgentID => some (s.enter channelID senderID awaitFromAgentID)
  | .act c action => (s.calls[c]?).bind fun call => s.act c call action
  | .publish channelID senderID provokedBy =>
    if s.mayProvoke channelID senderID provokedBy then
      some (s.commit ⟨channelID, senderID, provokedBy⟩)
    else none
  | .deliver k participantID =>
    (s.stored[k]?).bind fun m =>
      if m.senderID = participantID then none
      else some { s with delivered := s.delivered ++ [(k, participantID)] }
  | .notify k =>
    (s.stored[k]?).bind fun m => if k ∈ s.unnotified then some (s.notify k m) else none
  | .send c k =>
    if (c, k) ∈ s.sending && (s.buffer c).isNone then
      some { s with
        sending := s.sending.erase (c, k), buffer := Function.update s.buffer c (some k) }
    else none

end ChatState

def chatSystem : System ChatState ChatEvent where
  init := {}
  step := ChatState.step

/-! ### What an action does -/

/-- The timer has fired, or the context has ended, where the call says so. -/
structure ChatCall.Timely (call : ChatCall) : Prop where
  timer : call.result = some .chatTimeout → call.timerFired = true
  context : call.result = some .contextErr → call.contextEnded = true

/-- The call goes on without a reply. -/
structure ChatCall.Onward (call next : ChatCall) : Prop where
  key : next.key = call.key
  question : next.question = call.question
  returned : next.hasReturned = call.hasReturned
  reply : ∀ k, next.result = some (.reply k) → call.result = some (.reply k)
  timely : call.Timely → next.Timely
  registered : next.stage = .registered → call.stage = .registered

inductive ChatActs (s : ChatState) (c : ℕ) (call : ChatCall) : ChatState → Prop where
  | onward (next : ChatCall) (hnext : call.Onward next) : ChatActs s c call (s.setCall c next)
  | commit (provokedBy : Option ℕ) (hstage : call.stage = .registered) :
      ChatActs s c call ((s.commit ⟨call.channelID, call.senderID, provokedBy⟩).setCall c
        { call with stage := .published, question := some s.stored.length })
  | receive (k : ℕ) (hstage : call.stage = .awaiting) (hbuffer : s.buffer c = some k) :
      ChatActs s c call { s.setCall c { call with stage := .leaving (.reply k) } with
        buffer := Function.update s.buffer c none }
  | cancel (result : ChatResult) (hstage : call.stage = .leaving result) :
      ChatActs s c call { s.setCall c { call with stage := .returned result } with
        waiters := s.waiters.cancel call.key c }

theorem ChatState.acts_of_act {s t : ChatState} {c : ℕ} {call : ChatCall} {action : ChatAction}
    (h : s.act c call action = some t) : ChatActs s c call t := by
  cases action with
  | publishFails =>
    unfold ChatState.act at h
    dsimp only at h
    split_ifs at h with hstage
    cases h
    refine .onward _ ⟨rfl, rfl, ?_, nofun, fun _ => ⟨nofun, nofun⟩, nofun⟩
    simp [ChatCall.hasReturned, hstage]
  | commit provokedBy =>
    unfold ChatState.act at h
    dsimp only at h
    split_ifs at h with hguard
    cases h
    rw [Bool.and_eq_true, decide_eq_true_eq] at hguard
    exact .commit provokedBy hguard.1
  | publishReturns =>
    unfold ChatState.act at h
    dsimp only at h
    split_ifs at h with hstage
    cases h
    refine .onward _ ⟨rfl, rfl, ?_, nofun, fun _ => ⟨nofun, nofun⟩, nofun⟩
    simp [ChatCall.hasReturned, hstage]
  | timerFires =>
    unfold ChatState.act at h
    dsimp only at h
    split_ifs at h with hstage
    cases h
    exact .onward _ ⟨rfl, rfl, rfl, fun _ hk => hk, fun ht => ⟨fun _ => rfl, ht.context⟩,
      fun hr => hr⟩
  | contextEnds =>
    cases h
    exact .onward _ ⟨rfl, rfl, rfl, fun _ hk => hk, fun ht => ⟨ht.timer, fun _ => rfl⟩,
      fun hr => hr⟩
  | receive =>
    unfold ChatState.act at h
    dsimp only at h
    cases hbuffer : s.buffer c with
    | none =>
      rw [hbuffer] at h
      cases h
    | some k =>
      rw [hbuffer] at h
      dsimp only at h
      split_ifs at h with hstage
      cases h
      exact .receive k hstage hbuffer
  | timeOut =>
    unfold ChatState.act at h
    dsimp only at h
    split_ifs at h with hguard
    cases h
    rw [Bool.and_eq_true, decide_eq_true_eq] at hguard
    refine .onward _ ⟨rfl, rfl, ?_, nofun, fun _ => ⟨fun _ => hguard.2, nofun⟩, nofun⟩
    simp [ChatCall.hasReturned, hguard.1]
  | contextDone =>
    unfold ChatState.act at h
    dsimp only at h
    split_ifs at h with hguard
    cases h
    rw [Bool.and_eq_true, decide_eq_true_eq] at hguard
    refine .onward _ ⟨rfl, rfl, ?_, nofun, fun _ => ⟨nofun, fun _ => hguard.2⟩, nofun⟩
    simp [ChatCall.hasReturned, hguard.1]
  | cancel =>
    unfold ChatState.act at h
    dsimp only at h
    cases hstage : call.stage with
    | leaving result =>
      rw [hstage] at h
      cases h
      exact .cancel result hstage
    | _ =>
      rw [hstage] at h
      cases h

end Persatrix.Channels
