import Persatrix.AgentToken
import Persatrix.System

/-!
# The renewal of an agent's token

An agent process registers when it starts, when its channel comes back and when a call is refused
for the token it shows. Each registration that the orchestrator works off issues a token and retires
the earlier ones, also when nobody reads its answer. A token is of the issuer, which a restart
replaces, that signed it.
-/
namespace Persatrix.TokenRenewal
open Security

deriving instance DecidableEq for AgentTokenPayload

structure Token where
  issuer : ℕ
  payload : AgentTokenPayload
deriving DecidableEq

/-- What was done to the agent's tokens. -/
inductive Deed where
  | issue (token : Token)
  | deregister
  /-- The agent deregisters itself as it stops. -/
  | leave
deriving DecidableEq

/-- A registration: whether it may still be worked off, the token that was issued for it, and
whether an answer to it was taken. -/
structure Registration where
  pending : Bool
  issued : Option Token
  answered : Bool
deriving DecidableEq

/-- A call of the REST API that shows a token. -/
inductive Phase where
  | sent
  | refused (revoked : Bool)
  /-- It waits for the end of a registration. -/
  | waiting (k : ℕ)
  | resent
  | ended
deriving DecidableEq

structure Call where
  used : Token
  newer : Option Token
  sends : ℕ
  phase : Phase
deriving DecidableEq

/-- `_registering` and the tasks that are running are kept apart. `_revoked` is the token that was
held when it was set. -/
structure AgentTokenKeeper where
  token : Option Token
  registering : Option ℕ
  tasks : List ℕ
  answered : Bool
  revoked : Option Token
  closed : Bool

structure State where
  keeper : AgentTokenKeeper
  /-- The registration of the startup, while it runs. -/
  starting : Option ℕ
  started : Bool
  registrations : List Registration
  calls : List Call
  epoch : ℕ
  issuer : AgentTokenIssuer
  registered : Bool
  log : List Deed

/-! ### The keeper -/

/-- An answer below 500 that was read: a success with the token or without one, or a refusal. -/
inductive Answer where
  | token
  | bare
  | refusal
deriving DecidableEq

/-- The token after `keep_from`. -/
def keepFrom (held issued : Option Token) : Answer → Option Token
  | .token => issued
  | .bare => none
  | .refusal => held

/-- A registration is started unless one runs, or none is owed. -/
def register (s : State) : State :=
  if s.keeper.closed ∨ s.keeper.revoked.isSome then s
  else
    match s.keeper.registering with
    | some _ => s
    | none =>
      let k := s.registrations.length
      { s with
        registrations := s.registrations ++ [⟨true, none, false⟩]
        keeper := { s.keeper with
          answered := false
          registering := some k
          tasks := s.keeper.tasks ++ [k] } }

def stopRegistering (s : State) : State :=
  if s.keeper.closed ∨ s.keeper.revoked.isSome then s
  else { s with keeper := { s.keeper with revoked := s.keeper.token } }

/-- The call goes out once more, if a newer token is held. -/
def Call.resend (c : Call) (held : Option Token) : Call :=
  match held with
  | some token =>
    if token = c.used then { c with phase := .ended }
    else { c with newer := some token, sends := c.sends + 1, phase := .resent }
  | none => { c with phase := .ended }

/-- `after_refusal`, up to the registration that it waits for. -/
def afterRefusal (s : State) (i : ℕ) (c : Call) (revoked : Bool) : State :=
  if s.keeper.token = some c.used then
    let s := if revoked ∧ s.keeper.answered then stopRegistering s else s
    let s := register s
    let c := if s.keeper.closed ∨ s.keeper.revoked.isSome then c.resend s.keeper.token
      else
        match s.keeper.registering with
        | some k => { c with phase := .waiting k }
        | none => c.resend s.keeper.token
    { s with calls := s.calls.set i c }
  else { s with calls := s.calls.set i (c.resend s.keeper.token) }

/-! ### The orchestrator -/

/-- Which refusal a token gets, and whether it is for a revocation. -/
def refusalOf (s : State) (token : Token) (wall running : ℤ) : Option Bool :=
  if token.issuer ≠ s.epoch then some false
  else
    match s.issuer.judge token.payload wall running with
    | .ok _ => none
    | .error e => some (e = errAgentTokenRevoked)

/-- The registration is worked off. -/
def enroll (mac : Mac) (agentID : GoString) (s : State) (k : ℕ) (r : Registration)
    (wall running : ℤ) : State :=
  match s.issuer.issue mac agentID wall running with
  | (issuer, .ok _) =>
    let token : Token := ⟨s.epoch, s.issuer.nextPayload agentID wall running⟩
    { s with
      issuer
      registered := true
      registrations := s.registrations.set k { r with pending := false, issued := some token }
      log := s.log ++ [.issue token] }
  | (_, .error _) =>
    { s with registrations := s.registrations.set k { r with pending := false } }

def deregister (agentID : GoString) (s : State) (deed : Deed) : State :=
  if s.registered then
    { s with issuer := s.issuer.revoke agentID, registered := false, log := s.log ++ [deed] }
  else s

/-! ### The system -/

inductive Event where
  | start
  /-- The startup is over. -/
  | started
  /-- The watcher, after a reconnect. -/
  | reconnect
  | call
  /-- The orchestrator checks the token of a call. -/
  | check (i : ℕ) (wall running : ℤ)
  /-- The call gets any other answer, or none. -/
  | drop (i : ℕ)
  | settle (i : ℕ)
  | resume (i : ℕ)
  | close
  /-- A registration reaches the orchestrator. -/
  | enroll (k : ℕ) (wall running : ℤ)
  /-- A registration is lost, or refused. -/
  | lose (k : ℕ)
  | answer (k : ℕ) (a : Answer)
  /-- The task of a registration ends, answered or not. -/
  | finish (k : ℕ)
  | deregister
  | leave
  | restart
  /-- Another agent registers or is deregistered. -/
  | enrollOther (id : GoString) (wall running : ℤ)
  | deregisterOther (id : GoString)

/-- The client waits for the answer to the registration. -/
def Awaited (s : State) (k : ℕ) : Prop := k ∈ s.keeper.tasks ∨ s.starting = some k

instance (s : State) (k : ℕ) : Decidable (Awaited s k) := inferInstanceAs (Decidable (_ ∨ _))

def step (mac : Mac) (agentID : GoString) (s : State) : Event → Option State
  | .start =>
    if s.started ∨ s.starting.isSome then none
    else
      some { s with
        registrations := s.registrations ++ [⟨true, none, false⟩]
        starting := some s.registrations.length }
  | .started => s.starting.map fun _ => { s with starting := none, started := true }
  | .reconnect => if s.started then some (register s) else none
  | .call =>
    s.keeper.token.map fun token => { s with calls := s.calls ++ [⟨token, none, 1, .sent⟩] }
  | .check i wall running =>
    s.calls[i]?.bind fun c =>
      if c.phase = .sent then
        some { s with
          calls := s.calls.set i { c with
            phase := (refusalOf s c.used wall running).elim .ended fun revoked => .refused revoked } }
      else none
  | .drop i => s.calls[i]?.map fun c => { s with calls := s.calls.set i { c with phase := .ended } }
  | .settle i =>
    s.calls[i]?.bind fun c =>
      match c.phase with
      | .refused revoked => some (afterRefusal s i c revoked)
      | _ => none
  | .resume i =>
    s.calls[i]?.bind fun c =>
      match c.phase with
      | .waiting k =>
        if k ∈ s.keeper.tasks then none
        else some { s with calls := s.calls.set i (c.resend s.keeper.token) }
      | _ => none
  | .close => some { s with keeper := { s.keeper with closed := true } }
  | .enroll k wall running =>
    s.registrations[k]?.bind fun r =>
      if r.pending then some (enroll mac agentID s k r wall running) else none
  | .lose k =>
    s.registrations[k]?.map fun r =>
      { s with registrations := s.registrations.set k { r with pending := false } }
  | .answer k a =>
    s.registrations[k]?.bind fun r =>
      if Awaited s k ∧ r.answered = false ∧ (a = .token → r.issued.isSome) then
        some { s with
          registrations := s.registrations.set k { r with answered := true }
          keeper := { s.keeper with
            token := keepFrom s.keeper.token r.issued a
            answered := true } }
      else none
  | .finish k =>
    if k ∈ s.keeper.tasks then
      some { s with
        keeper := { s.keeper with
          tasks := s.keeper.tasks.erase k
          registering := none } }
    else none
  | .deregister => some (deregister agentID s .deregister)
  | .leave =>
    if s.keeper.closed ∧ s.keeper.registering = none then some (deregister agentID s .leave)
    else none
  | .restart => some { s with epoch := s.epoch + 1, issuer := {}, registered := false }
  | .enrollOther id wall running =>
    if id = agentID then none
    else some { s with issuer := (s.issuer.issue mac id wall running).1 }
  | .deregisterOther id =>
    if id = agentID then none else some { s with issuer := s.issuer.revoke id }

def system (mac : Mac) (agentID : GoString) : System State Event where
  init := ⟨⟨none, none, [], true, none, false⟩, none, false, [], [], 0, {}, false, []⟩
  step := step mac agentID

end Persatrix.TokenRenewal
