import Persatrix.AgentTokenRuns

/-!
# Agent enrollment

Enroll registers an agent and issues its token; Deregister removes an agent and revokes its tokens.
Both hold one lock from their first step to their last, so at most one call is on its way and any
others wait. Checks of tokens and sweeps of expired rows do not take that lock.
-/
namespace Persatrix.Registry

inductive AgentStatus where
  | unknown | healthy | degraded | offline
deriving DecidableEq

structure AgentInfo where
  id : GoString
  name : GoString := []
  role : GoString := []
  type : GoString := []
  capabilities : List GoString := []
  address : GoString := []
  nodeID : GoString := []
  status : AgentStatus := .unknown
  model : GoString := []
  maxLLMCalls : ℤ := 0
  maxTokens : ℤ := 0
  timeoutSeconds : ℤ := 0
deriving DecidableEq

def errAgentNotFound : String := "agent not found"

abbrev InMemoryRegistry := GoMap GoString AgentInfo

namespace InMemoryRegistry

/-- The row replaces one of the same identifier. -/
def register (r : InMemoryRegistry) (agent : AgentInfo) : InMemoryRegistry :=
  AList.insert agent.id agent r

def unregister (r : InMemoryRegistry) (agentID : GoString) : Except String InMemoryRegistry :=
  match r.lookup agentID with
  | none => .error errAgentNotFound
  | some _ => .ok (r.erase agentID)

end InMemoryRegistry
end Persatrix.Registry

namespace Persatrix.Security
open Registry

/-- What the calls change. -/
structure EnrollmentStore where
  registry : InMemoryRegistry := ∅
  issuer : AgentTokenIssuer := {}
  sources : GoMap GoString GoString := ∅

structure AgentEnrolled where
  token : GoString
  claims : AgentTokenClaims
  previous : Option AgentInfo
  previousSource : GoString

inductive EnrollmentCall where
  | enroll (info : AgentInfo) (source : GoString)
  | deregister (id : GoString)

/-- How far a call has come since it took the lock. -/
inductive EnrollmentStage where
  | entered
  | read (previous : Option AgentInfo)
  | registered (previous : Option AgentInfo)
  | refused (previous : Option AgentInfo) (err : String)
  | issued (previous : Option AgentInfo) (token : GoString) (claims : AgentTokenClaims)
  | unregistered
  | revoked

/-- What a call returns. -/
inductive EnrollmentOutcome where
  | enrolled (info : AgentInfo) (source : GoString) (result : AgentEnrolled)
  | deregistered (id : GoString)
  | failed (err : String)

/-- Readings of the clocks, which are `int64` values. -/
structure ClockReading where
  wall : ℤ
  running : ℤ
  wallFits : int64 wall = wall
  runningFits : int64 running = running

/-- The next statement of a call. A call of the registry or of the issuer may be given an error, with
which it fails before it changes anything. -/
inductive EnrollmentAction where
  | get (failure : Option String)
  | register (failure : Option String)
  | issue (failure : Option String) (now : ClockReading)
  | undo
  | remember
  | unregister (failure : Option String)
  | revoke
  | forget

/-- What is noted of a run: tokens that are issued and revoked, readings of the running clock that
the table may be swept by, and what calls return. -/
inductive EnrollmentNote where
  | deed (d : Deed)
  | reading (running : ℤ)
  | outcome (o : EnrollmentOutcome)

/-- What an action leaves: the stage that is reached, or what the call returns. -/
structure Performed where
  store : EnrollmentStore
  next : EnrollmentStage ⊕ EnrollmentOutcome
  notes : List EnrollmentNote := []

namespace EnrollmentStore

/-- Puts the registry back as it was before a registration of the identifier. -/
def undo (store : EnrollmentStore) (id : GoString) : Option AgentInfo → EnrollmentStore
  | some previous => { store with registry := store.registry.register previous }
  | none => { store with registry := store.registry.erase id }

def issue (mac : Mac) (store : EnrollmentStore) (id : GoString) (previous : Option AgentInfo)
    (now : ClockReading) : Performed :=
  match store.issuer.issue mac id now.wall now.running with
  | (issuer, .ok (token, claims)) =>
    { store := { store with issuer := issuer }
      next := .inl (.issued previous token claims)
      notes := [.reading now.running, .deed (.issued id
        ⟨store.issuer.nextPayload id now.wall now.running, token, claims, now.wall, now.running⟩)] }
  | (_, .error err) => { store := store, next := .inl (.refused previous err) }

/-- The source is remembered, and the earlier one is reported with the earlier row. -/
def remember (store : EnrollmentStore) (info : AgentInfo) (source : GoString)
    (previous : Option AgentInfo) (token : GoString) (claims : AgentTokenClaims) : Performed :=
  let previousSource :=
    if previous.isSome then (store.sources.lookup info.id).getD [] else []
  { store := { store with sources := AList.insert info.id source store.sources }
    next := .inr (.enrolled info source ⟨token, claims, previous, previousSource⟩) }

def enroll (mac : Mac) (store : EnrollmentStore) (info : AgentInfo) (source : GoString) :
    EnrollmentStage → EnrollmentAction → Option Performed
  | .entered, .get none =>
    some { store := store, next := .inl (.read (store.registry.lookup info.id)) }
  | .entered, .get (some err) => some { store := store, next := .inr (.failed err) }
  | .read previous, .register none =>
    some { store := { store with registry := store.registry.register info }
           next := .inl (.registered previous) }
  | .read _, .register (some err) => some { store := store, next := .inr (.failed err) }
  | .registered previous, .issue none now => some (store.issue mac info.id previous now)
  | .registered previous, .issue (some err) _ =>
    some { store := store, next := .inl (.refused previous err) }
  | .refused previous err, .undo =>
    some { store := store.undo info.id previous, next := .inr (.failed err) }
  | .issued previous token claims, .remember =>
    some (store.remember info source previous token claims)
  | _, _ => none

def deregister (store : EnrollmentStore) (id : GoString) :
    EnrollmentStage → EnrollmentAction → Option Performed
  | .entered, .unregister none =>
    match store.registry.unregister id with
    | .ok registry => some { store := { store with registry := registry }, next := .inl .unregistered }
    | .error err => some { store := store, next := .inr (.failed err) }
  | .entered, .unregister (some err) => some { store := store, next := .inr (.failed err) }
  | .unregistered, .revoke =>
    some { store := { store with issuer := store.issuer.revoke id }
           next := .inl .revoked
           notes := [.deed (.revoked id)] }
  | .revoked, .forget =>
    some { store := { store with sources := store.sources.erase id }
           next := .inr (.deregistered id) }
  | _, _ => none

def perform (mac : Mac) (store : EnrollmentStore) (call : EnrollmentCall)
    (stage : EnrollmentStage) (action : EnrollmentAction) : Option Performed :=
  match call with
  | .enroll info source => store.enroll mac info source stage action
  | .deregister id => store.deregister id stage action

def sweep (store : EnrollmentStore) (running : ℤ) : EnrollmentStore :=
  { store with issuer := store.issuer.forgetExpired running }

end EnrollmentStore

/-- What the actions of a call do, one case each. -/
inductive Acts (mac : Mac) (store : EnrollmentStore) :
    EnrollmentCall → EnrollmentStage → Performed → Prop where
  | failed (call : EnrollmentCall) (stage : EnrollmentStage) (err : String)
      (hstage : stage = .entered ∨ ∃ previous, stage = .read previous) :
      Acts mac store call stage { store := store, next := .inr (.failed err) }
  | read (info : AgentInfo) (source : GoString) :
      Acts mac store (.enroll info source) .entered
        { store := store, next := .inl (.read (store.registry.lookup info.id)) }
  | registered (info : AgentInfo) (source : GoString) (previous : Option AgentInfo) :
      Acts mac store (.enroll info source) (.read previous)
        { store := { store with registry := store.registry.register info }
          next := .inl (.registered previous) }
  | refused (info : AgentInfo) (source : GoString) (previous : Option AgentInfo) (err : String) :
      Acts mac store (.enroll info source) (.registered previous)
        { store := store, next := .inl (.refused previous err) }
  | issued (info : AgentInfo) (source : GoString) (previous : Option AgentInfo)
      (now : ClockReading) (issuer : AgentTokenIssuer) (token : GoString) (claims : AgentTokenClaims)
      (hissue : store.issuer.issue mac info.id now.wall now.running = (issuer, .ok (token, claims))) :
      Acts mac store (.enroll info source) (.registered previous)
        { store := { store with issuer := issuer }
          next := .inl (.issued previous token claims)
          notes := [.reading now.running, .deed (.issued info.id
            ⟨store.issuer.nextPayload info.id now.wall now.running, token, claims, now.wall,
              now.running⟩)] }
  | undone (info : AgentInfo) (source : GoString) (previous : Option AgentInfo) (err : String) :
      Acts mac store (.enroll info source) (.refused previous err)
        { store := store.undo info.id previous, next := .inr (.failed err) }
  | remembered (info : AgentInfo) (source : GoString) (previous : Option AgentInfo)
      (token : GoString) (claims : AgentTokenClaims) :
      Acts mac store (.enroll info source) (.issued previous token claims)
        (store.remember info source previous token claims)
  | unregistered (id : GoString) (row : AgentInfo) (hrow : store.registry.lookup id = some row) :
      Acts mac store (.deregister id) .entered
        { store := { store with registry := store.registry.erase id }, next := .inl .unregistered }
  | revoked (id : GoString) :
      Acts mac store (.deregister id) .unregistered
        { store := { store with issuer := store.issuer.revoke id }
          next := .inl .revoked
          notes := [.deed (.revoked id)] }
  | forgotten (id : GoString) :
      Acts mac store (.deregister id) .revoked
        { store := { store with sources := store.sources.erase id }
          next := .inr (.deregistered id) }

theorem EnrollmentStore.acts_of_enroll {mac : Mac} {store : EnrollmentStore} {info : AgentInfo}
    {source : GoString} {stage : EnrollmentStage} {action : EnrollmentAction} {p : Performed}
    (h : store.enroll mac info source stage action = some p) :
    Acts mac store (.enroll info source) stage p := by
  unfold EnrollmentStore.enroll at h
  split at h
  · cases h
    exact .read info source
  · cases h
    exact .failed _ _ _ (.inl rfl)
  · cases h
    exact .registered info source _
  · cases h
    exact .failed _ _ _ (.inr ⟨_, rfl⟩)
  · cases h
    unfold EnrollmentStore.issue
    split
    · exact .issued info source _ _ _ _ _ ‹_›
    · exact .refused info source _ _
  · cases h
    exact .refused info source _ _
  · cases h
    exact .undone info source _ _
  · cases h
    exact .remembered info source _ _ _
  · cases h

theorem EnrollmentStore.acts_of_deregister {mac : Mac} {store : EnrollmentStore} {id : GoString}
    {stage : EnrollmentStage} {action : EnrollmentAction} {p : Performed}
    (h : store.deregister id stage action = some p) : Acts mac store (.deregister id) stage p := by
  unfold EnrollmentStore.deregister at h
  split at h
  · unfold InMemoryRegistry.unregister at h
    cases hrow : store.registry.lookup id with
    | none =>
      rw [hrow] at h
      cases h
      exact .failed _ _ _ (.inl rfl)
    | some row =>
      rw [hrow] at h
      cases h
      exact .unregistered id row hrow
  · cases h
    exact .failed _ _ _ (.inl rfl)
  · cases h
    exact .revoked id
  · cases h
    exact .forgotten id
  · cases h

theorem EnrollmentStore.acts_of_perform {mac : Mac} {store : EnrollmentStore} {call : EnrollmentCall}
    {stage : EnrollmentStage} {action : EnrollmentAction} {p : Performed}
    (h : store.perform mac call stage action = some p) : Acts mac store call stage p := by
  cases call with
  | enroll info source => exact acts_of_enroll h
  | deregister id => exact acts_of_deregister h

/-- The call that holds the lock; `before` is the store without the call, on which only sweeps have
an effect. -/
structure CallInProgress where
  call : EnrollmentCall
  stage : EnrollmentStage
  before : EnrollmentStore

structure EnrollmentState where
  store : EnrollmentStore
  current : Option CallInProgress

inductive EnrollmentEvent where
  | enter (call : EnrollmentCall)
  | act (action : EnrollmentAction)
  | check (token : GoString) (now : ClockReading)
  | sweep (running : ℤ)

/-- The store and the call after an action. -/
def Performed.state (p : Performed) (c : CallInProgress) : EnrollmentState where
  store := p.store
  current :=
    match p.next with
    | .inl stage => some { c with stage := stage }
    | .inr _ => none

def Performed.noted (p : Performed) : List EnrollmentNote :=
  p.notes ++
    match p.next with
    | .inl _ => []
    | .inr o => [.outcome o]

def enrollmentSystem (mac : Mac) : System EnrollmentState EnrollmentEvent where
  init := ⟨{}, none⟩
  step s
    | .enter call =>
      match s.current with
      | none => some { s with current := some ⟨call, .entered, s.store⟩ }
      | some _ => none
    | .act action =>
      match s.current with
      | none => none
      | some c => (s.store.perform mac c.call c.stage action).map fun p => p.state c
    | .check _ _ => some s
    | .sweep running =>
      some { store := s.store.sweep running
             current := s.current.map fun c => { c with before := c.before.sweep running } }

def enrollmentNotes (mac : Mac) (s : EnrollmentState) (e : EnrollmentEvent)
    (_ : EnrollmentState) : List EnrollmentNote :=
  match e with
  | .act action =>
    match s.current with
    | none => []
    | some c => ((s.store.perform mac c.call c.stage action).map Performed.noted).getD []
  | .sweep running => [.reading running]
  | _ => []

end Persatrix.Security
