import Persatrix.MembershipTables
import Persatrix.Transactions
import Persatrix.System

/-!
# The store of channels and members

Every operation is one transaction, but for the deletion of a channel, which is one statement, and
for the lookup of a DM, which comes before its transaction.
-/
namespace Persatrix.Memberships
open Channels

structure Channel where
  id : String
  name : String
  type : ChannelType

/-- A member of a list; a joining time that is zero is `none`. -/
structure NewMember where
  participantID : String
  respondPolicy : String
  joinedAt : Option ℤ
  threshold : Option ℚ
  salienceGated : Bool

inductive StoreError where
  | invalidChannelType
  | idRequired
  | channelCapExceeded (cap : ℕ)
  | channelExists (id : String)
  | invalidParticipantID (id : String)
  | invalidRespondPolicy (p : String)
  | channelNotFound (id : String)
  | notMember (channelID participantID : String)
  | ledgerDivergence (channelID participantID : String)
  /-- A statement that failed, by the text the error is wrapped with. -/
  | failed (statement : String)
deriving DecidableEq

abbrev Action := Tx Tables StoreError

/-! ### Policies -/

def valid (p : String) : Bool :=
  p ∈ [respondWhenMentioned, respondAlways, respondNever, respondParticipant, respondChair,
    respondAddressed, respondObserver]

def canonicalRespondPolicy (p : String) : Except StoreError String :=
  if valid (normalize p) then .ok (normalize p) else .error (.invalidRespondPolicy (normalize p))

def defaultChairThreshold : ℚ := 15 / 100

def resolveSalienceSignal (p : String) (explicit : Option ℚ) : Bool × Option ℚ :=
  (p = respondParticipant || p = respondChair ||
    (explicit.isSome && normalize p = respondAlways),
    if p = respondChair ∧ explicit = none then some defaultChairThreshold else explicit)

def resolveMemberPolicy (declared : String) : Except StoreError Tables.MemberPolicy :=
  match canonicalRespondPolicy declared with
  | .error e => .error e
  | .ok canonical =>
    .ok ⟨canonical, (resolveSalienceSignal declared none).1,
      (resolveSalienceSignal declared none).2⟩

/-! ### Statements -/

def run (label : String) {A : Type} (f : Tables → A × Tables) : Action A :=
  Tx.statement (.failed label) fun t => .ok (f t)

/-- A statement that a constraint may refuse. -/
def write (label : String) {A : Type} (refused : Constraint → StoreError)
    (f : Tables → Except Constraint (A × Tables)) : Action A :=
  Tx.statement (.failed label) fun t => (f t).mapError refused

def begin : Action Unit := run "begin" fun t => ((), t)

def commit : Action Unit := run "commit" fun t => ((), t)

def present (label id : String) : Action Bool := run label fun t => (t.hasChannel id, t)

def openMembershipInterval (channelID participantID : String) (now : ℤ) : Action Unit :=
  write "channels: open membership interval"
    (fun _ => .failed "channels: open membership interval") fun t =>
      (t.insertInterval ⟨channelID, participantID, now, none⟩).map fun t' => ((), t')

/-- The interval of a row that an insertion has affected. -/
def openInserted (n : ℕ) (channelID participantID : String) (now : ℤ) : Action Unit :=
  if n = 1 then openMembershipInterval channelID participantID now else pure ()

def closeOpenMembershipInterval (channelID participantID : String) (now : ℤ) : Action ℕ :=
  write "channels: close membership interval"
    (fun _ => .failed "channels: close membership interval") fun t =>
      t.closeOpen (channelID, participantID) now

/-! ### Creating -/

def isLowerAlphanumeric (c : Char) : Bool :=
  ('a' ≤ c && c ≤ 'z') || ('0' ≤ c && c ≤ '9')

/-- `^[a-z0-9][a-z0-9-]*[a-z0-9]$`. -/
def channelName (name : String) : Bool :=
  match name.toList with
  | [] => false
  | c :: rest =>
    isLowerAlphanumeric c && rest.dropLast.all (fun c => isLowerAlphanumeric c || c = '-') &&
      rest.getLast?.any isLowerAlphanumeric

def validateChannel (ch : Channel) : Except StoreError Unit :=
  if ¬ch.type.Valid then .error .invalidChannelType
  else if ch.id = "" then .error .idRequired
  else if ch.type = .group ∧ ch.name = "" then .error .invalidChannelType
  else if ch.type = .group ∧ !channelName ch.name then .error .invalidChannelType
  else if ch.type = .group ∧ ch.id ≠ "group:" ++ ch.name then .error .invalidChannelType
  else .ok ()

def insertChannel (ch : Channel) : Action Unit :=
  write "channels: insert channel"
    (fun constraint =>
      if constraint = .unique then .channelExists ch.id else .failed "channels: insert channel")
    fun t =>
      (t.insertChannel ⟨ch.id, if ch.type = .group then some ch.name else none, ch.type⟩).map
        fun t' => ((), t')

/-- The statements by which both ways of creating a channel begin. -/
def createRow (maxChannels : ℕ) (ch : Channel) : Action Unit := do
  begin
  if ch.type = .group then
    let groupCount ← run "channels: count groups" fun t => (t.countGroups, t)
    if maxChannels ≤ groupCount then Tx.fail (.channelCapExceeded maxChannels) else insertChannel ch
  else insertChannel ch

def createChannel (maxChannels : ℕ) (fault : Option ℕ) (ch : Channel) (t : Tables) :
    Tables × Except StoreError Unit :=
  match validateChannel ch with
  | .error e => (t, .error e)
  | .ok () =>
    Tx.transaction fault (do
      createRow maxChannels ch
      commit) t

/-- One round of the loop over the members. -/
def addInitial (channelID : String) (now : ℤ) (m : NewMember) : Action Unit :=
  if !validateParticipantID m.participantID then Tx.fail (.invalidParticipantID m.participantID)
  else
    match canonicalRespondPolicy
      (if m.respondPolicy = "" then respondWhenMentioned else m.respondPolicy) with
    | .error e => Tx.fail e
    | .ok policy => do
      let joinedAt := m.joinedAt.getD now
      let n ← write "channels: add member"
        (fun constraint =>
          if constraint = .foreignKey then .channelNotFound channelID
          else .failed "channels: add member")
        fun t => t.insertOrIgnore
          ⟨channelID, m.participantID, policy, joinedAt, m.threshold, m.salienceGated⟩
      openInserted n channelID m.participantID joinedAt

def createChannelWithMembers (maxChannels : ℕ) (fault : Option ℕ) (now : ℤ) (ch : Channel)
    (members : List NewMember) (t : Tables) : Tables × Except StoreError Unit :=
  match validateChannel ch with
  | .error e => (t, .error e)
  | .ok () =>
    Tx.transaction fault (do
      createRow maxChannels ch
      Tx.each (addInitial ch.id now) members
      commit) t

def canonicalDMID (a b : String) : Except StoreError String :=
  if !validateParticipantID a then .error (.invalidParticipantID a)
  else if !validateParticipantID b then .error (.invalidParticipantID b)
  else if a = b then .error (.invalidParticipantID a)
  else .ok (if b < a then "dm:" ++ b ++ ":" ++ a else "dm:" ++ a ++ ":" ++ b)

/-- One round of the loop over the two participants. -/
def addToDM (id : String) (now : ℤ) (p : String) : Action Unit := do
  write "channels: add dm member" (fun _ => .failed "channels: add dm member") fun t =>
    (t.insertMembership ⟨id, p, respondAlways, now, none, false⟩).map fun t' => ((), t')
  openMembershipInterval id p now

/-- What `GetChannel` answers. -/
inductive Lookup where
  | found (ch : ChannelRow)
  | notFound
  | failed

/-- The answer of `GetChannel` and the time are from before the transaction began. -/
def getOrCreateDM (fault : Option ℕ) (lookup : Lookup) (now : ℤ) (a b : String) (t : Tables) :
    Tables × Except StoreError ChannelRow :=
  match canonicalDMID a b with
  | .error e => (t, .error e)
  | .ok id =>
    match lookup with
    | .found ch => (t, .ok ch)
    | .failed => (t, .error (.failed "channels: scan channel"))
    | .notFound =>
      Tx.transaction fault (do
        begin
        write "channels: create dm" (fun _ => .failed "channels: create dm") fun t =>
          (t.insertChannel ⟨id, none, .dm⟩).map fun t' => ((), t')
        Tx.each (addToDM id now) (if b < a then [b, a] else [a, b])
        commit
        pure ⟨id, none, .dm⟩) t

/-! ### Members -/

def addMember (fault : Option ℕ) (now : ℤ) (channelID participantID policy : String) (t : Tables) :
    Tables × Except StoreError Unit :=
  if !validateParticipantID participantID then (t, .error (.invalidParticipantID participantID))
  else
    match resolveMemberPolicy policy with
    | .error e => (t, .error e)
    | .ok mp =>
      Tx.transaction fault (do
        begin
        let n ← write "channels: add member"
          (fun constraint =>
            if constraint = .foreignKey then .channelNotFound channelID
            else .failed "channels: add member")
          fun t => t.insertOrIgnore
            ⟨channelID, participantID, mp.policy, now, mp.threshold, mp.salienceGated⟩
        openInserted n channelID participantID now
        commit) t

/-- Which of the two is missing. -/
def missing (label channelID participantID : String) : Action Unit := do
  let present ← present label channelID
  if present then Tx.fail (.notMember channelID participantID)
  else Tx.fail (.channelNotFound channelID)

def removeMember (fault : Option ℕ) (now : ℤ) (channelID participantID : String) (t : Tables) :
    Tables × Except StoreError Unit :=
  Tx.transaction fault (do
    begin
    let n ← run "channels: remove member" fun t => t.deleteMembership (channelID, participantID)
    if n = 0 then missing "channels: remove member existence check" channelID participantID
    else
      let closed ← closeOpenMembershipInterval channelID participantID now
      if closed = 0 then Tx.fail (.ledgerDivergence channelID participantID) else commit) t

def setMemberPolicy (fault : Option ℕ) (channelID participantID policy : String) (t : Tables) :
    Tables × Except StoreError Unit :=
  match resolveMemberPolicy policy with
  | .error e => (t, .error e)
  | .ok mp =>
    Tx.transaction fault (do
      begin
      let n ← write "channels: set member policy" (fun _ => .failed "channels: set member policy")
        fun t => t.updatePolicy (channelID, participantID) mp
      if n = 0 then missing "channels: set member policy existence check" channelID participantID
      else commit) t

/-- One statement that commits by itself. -/
def deleteChannel (fault : Option ℕ) (id : String) (t : Tables) : Tables × Except StoreError Unit :=
  match fault with
  | some 0 => (t, .error (.failed "channels: delete"))
  | _ =>
    match t.deleteChannel id with
    | (0, t') => (t', .error (.channelNotFound id))
    | (_, t') => (t', .ok ())

/-! ### Runs -/

inductive Op where
  | createChannel (ch : Channel)
  | createChannelWithMembers (ch : Channel) (members : List NewMember)
  | addMember (channelID participantID policy : String)
  | removeMember (channelID participantID : String)
  | getOrCreateDM (a b : String) (lookup : Lookup) (read : ℤ)
  | setMemberPolicy (channelID participantID policy : String)
  | deleteChannel (id : String)

/-- A DM is created at the time that was read for it, the others at the operation's. -/
def Op.apply (maxChannels : ℕ) (fault : Option ℕ) (now : ℤ) (t : Tables) :
    Op → Tables × Except StoreError Unit
  | .createChannel ch => Memberships.createChannel maxChannels fault ch t
  | .createChannelWithMembers ch members =>
    Memberships.createChannelWithMembers maxChannels fault now ch members t
  | .addMember c p policy => Memberships.addMember fault now c p policy t
  | .removeMember c p => Memberships.removeMember fault now c p t
  | .getOrCreateDM a b lookup read =>
    ((Memberships.getOrCreateDM fault lookup read a b t).1,
      (Memberships.getOrCreateDM fault lookup read a b t).2.map fun _ => ())
  | .setMemberPolicy c p policy => Memberships.setMemberPolicy fault c p policy t
  | .deleteChannel id => Memberships.deleteChannel fault id t

/-- The time of a DM is read before the operation's. -/
def Op.Timely (now : ℤ) : Op → Prop
  | .getOrCreateDM _ _ _ read => read ≤ now
  | _ => True

instance (now : ℤ) (op : Op) : Decidable (op.Timely now) := by
  cases op <;> (unfold Op.Timely; infer_instance)

structure Store where
  tables : Tables
  clock : ℤ

structure Call where
  op : Op
  fault : Option ℕ
  now : ℤ

def Call.apply (maxChannels : ℕ) (c : Call) (t : Tables) : Tables × Except StoreError Unit :=
  c.op.apply maxChannels c.fault c.now t

/-- The clock does not run backwards. -/
def step (maxChannels : ℕ) (s : Store) (c : Call) : Option Store :=
  if s.clock ≤ c.now ∧ c.op.Timely c.now then some ⟨(c.apply maxChannels s.tables).1, c.now⟩
  else none

def store (maxChannels : ℕ) (epoch : ℤ) : System Store Call := ⟨⟨.empty, epoch⟩, step maxChannels⟩

end Persatrix.Memberships
