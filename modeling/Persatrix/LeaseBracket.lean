import Persatrix.System
import Persatrix.WalletLedger

/-!
# The lease bracket

Tasks of the agents bracket their model calls with leases of the wallet. A request is an attempt in
flight: the wallet may answer it at any time or never, and its sender may give it up at any time.
-/
namespace Persatrix.WalletClient
open Wallet

/-- A lease as its holder has it. The source keeps of the first settlement only that it was made. -/
structure Lease where
  leaseID : String
  grantedInputTokens : ℤ
  grantedOutputTokens : ℤ
  callStarted : Bool
  actual : Option (ℤ × ℤ)
deriving DecidableEq

def Lease.settled (l : Lease) : Bool := l.actual.isSome

inductive Request where
  | acquireLease (req : LeaseRequest)
  | settleLease (leaseID : String) (input output : ℤ)
  | releaseLease (leaseID : String)

/-- An attempt, with the task that made it. -/
structure Flight where
  owner : ℕ
  request : Request
  answer : Option Response

inductive StatusCode where
  | unavailable | deadlineExceeded | resourceExhausted | other
deriving DecidableEq

/-- Where a task stands; the lease is there from its grant on. -/
inductive Phase where
  | idle
  | acquiring (req : LeaseRequest) (attempt flight : ℕ)
  | acquireBackoff (req : LeaseRequest) (attempt : ℕ)
  | body (lease : Lease)
  | settling (lease : Lease) (exiting : Bool) (input output : ℤ) (attempt flight : ℕ)
  | settleBackoff (lease : Lease) (exiting : Bool) (input output : ℤ) (attempt : ℕ)
  | releasing (lease : Lease) (flight : ℕ)
  | over (lease : Option Lease)

/-- The constructor of the client takes at least one attempt of each. -/
structure Client where
  acquireMaxAttempts : ℕ
  settleMaxAttempts : ℕ
  acquire_pos : 1 ≤ acquireMaxAttempts
  settle_pos : 1 ≤ settleMaxAttempts

structure State where
  server : Traced
  flights : ℕ → Option Flight
  sent : ℕ
  phase : ℕ → Phase

inductive Event where
  /-- A task asks for a lease. -/
  | enter (b : ℕ) (req : LeaseRequest)
  /-- The wallet answers an attempt. -/
  | deliver (flight : ℕ) (resolver : Option (String → Option ℤ)) (newID : String) (now : ℤ)
  /-- The answer to the attempt that a task waits for arrives. -/
  | reply (b : ℕ)
  /-- The attempt fails for the task that waits for it. -/
  | fail (b : ℕ) (code : StatusCode)
  /-- A cancellation, or an error that is not the channel's, is raised where the task waits. -/
  | interrupt (b : ℕ)
  /-- The backoff is over. -/
  | wake (b : ℕ)
  | markCallStarted (b : ℕ)
  | settle (b : ℕ) (input output : ℤ)
  /-- The body ends, by raising or not. -/
  | exit (b : ℕ) (raised : Bool)
  | reapExpired (now : ℤ) (order : List String)
  | recordUsage (record : Cost.UsageRecord)
  | evictInteraction (interactionID : String)

namespace State

def goto (s : State) (b : ℕ) (p : Phase) : State := { s with phase := Function.update s.phase b p }

/-- A request goes out and its task goes on to wait for it. -/
def send (s : State) (b : ℕ) (r : Request) (p : ℕ → Phase) : State :=
  { s with
    flights := Function.update s.flights s.sent (some ⟨b, r, none⟩)
    sent := s.sent + 1
    phase := Function.update s.phase b (p s.sent) }

def serve (s : State) (call : Call) : State := { s with server := s.server.next call }

/-! ### Acquiring -/

/-- A negative estimate or ceiling counts as zero. -/
def clamp (req : LeaseRequest) : LeaseRequest :=
  { req with
    estimatedInputTokens := max 0 req.estimatedInputTokens
    estimatedMaxOutputTokens := max 0 req.estimatedMaxOutputTokens
    interactionBudgetTokens := max 0 req.interactionBudgetTokens }

def acquire (s : State) (b : ℕ) (req : LeaseRequest) (attempt : ℕ) : State :=
  s.send b (.acquireLease req) (.acquiring req attempt)

def acquireFailed (client : Client) (s : State) (b : ℕ) (req : LeaseRequest) (attempt : ℕ)
    (code : StatusCode) : State :=
  if code = .resourceExhausted ∧ attempt < client.acquireMaxAttempts then
    s.goto b (.acquireBackoff req attempt)
  else s.goto b (.over none)

def statusCode (status : Status) : StatusCode :=
  match status.code with
  | .resourceExhausted => .resourceExhausted
  | .invalidArgument => .other
  | .internal => .other

def acquireAnswered (client : Client) (s : State) (b : ℕ) (req : LeaseRequest) (attempt : ℕ) :
    Response → State
  | .lease (.ok (.grant grant)) =>
    s.goto b (.body ⟨grant.leaseID, grant.grantedInputTokens, grant.grantedOutputTokens, false,
      none⟩)
  | .lease (.ok (.denied _)) => s.goto b (.over none)
  | .lease (.error status) => s.acquireFailed client b req attempt (statusCode status)
  | _ => s.goto b (.over none)

/-! ### Settling and releasing -/

def settleAttempt (s : State) (b : ℕ) (lease : Lease) (exiting : Bool) (input output : ℤ)
    (attempt : ℕ) : State :=
  s.send b (.settleLease lease.leaseID input output)
    (.settling lease exiting input output attempt)

/-- A negative count is settled as zero. -/
def startSettle (s : State) (b : ℕ) (lease : Lease) (exiting : Bool) (input output : ℤ) : State :=
  s.settleAttempt b lease exiting (max 0 input) (max 0 output) 1

/-- The settlement returns, to the body or out of the bracket. -/
def settleReturns (s : State) (b : ℕ) (lease : Lease) (exiting : Bool) : State :=
  s.goto b (if exiting then .over (some lease) else .body lease)

def settleFailed (client : Client) (s : State) (b : ℕ) (lease : Lease) (exiting : Bool)
    (input output : ℤ) (attempt : ℕ) : State :=
  if attempt < client.settleMaxAttempts then
    s.goto b (.settleBackoff lease exiting input output attempt)
  else s.settleReturns b lease exiting

def settleAnswered (client : Client) (s : State) (b : ℕ) (lease : Lease) (exiting : Bool)
    (input output : ℤ) (attempt : ℕ) : Response → State
  | .ack (.ok _) => s.settleReturns b lease exiting
  | _ => s.settleFailed client b lease exiting input output attempt

/-- The hold is reversed in one attempt. -/
def release (s : State) (b : ℕ) (lease : Lease) : State :=
  s.send b (.releaseLease lease.leaseID) (.releasing lease)

def settleAtGranted (s : State) (b : ℕ) (lease : Lease) : State :=
  s.startSettle b lease true lease.grantedInputTokens lease.grantedOutputTokens

/-- The body has raised. -/
def exitRaised (s : State) (b : ℕ) (lease : Lease) : State :=
  if !lease.callStarted then s.release b lease
  else if !lease.settled then s.settleAtGranted b lease
  else s.goto b (.over (some lease))

/-- The body has returned. -/
def exitClean (s : State) (b : ℕ) (lease : Lease) : State :=
  if !lease.settled then
    if !lease.callStarted then s.release b lease else s.settleAtGranted b lease
  else s.goto b (.over (some lease))

/-! ### Steps -/

def enter (s : State) (b : ℕ) (req : LeaseRequest) : Option State :=
  match s.phase b with
  | .idle => some (s.acquire b (clamp req) 1)
  | _ => none

def Request.call (resolver : Option (String → Option ℤ)) (newID : String) (now : ℤ) :
    Request → Call
  | .acquireLease req => .acquireLease resolver newID now req
  | .settleLease leaseID input output => .settleLease leaseID input output
  | .releaseLease leaseID => .releaseLease leaseID

/-- The generator never makes an identifier twice. -/
def Request.fresh (newID : String) (grants : List Granted) : Request → Bool
  | .acquireLease _ => (newest newID grants).isNone
  | _ => true

def deliver (s : State) (flight : ℕ) (resolver : Option (String → Option ℤ)) (newID : String)
    (now : ℤ) : Option State :=
  match s.flights flight with
  | some ⟨owner, request, none⟩ =>
    if Request.fresh newID s.server.history.grants request then
      let call := Request.call resolver newID now request
      some { s.serve call with
        flights := Function.update s.flights flight
          (some ⟨owner, request, some (s.server.wallet.call call).2⟩) }
    else none
  | _ => none

/-- The answer to an attempt, if there is one yet. -/
def answer (s : State) (flight : ℕ) : Option Response := (s.flights flight).bind Flight.answer

def reply (client : Client) (s : State) (b : ℕ) : Option State :=
  match s.phase b with
  | .acquiring req attempt flight =>
    (s.answer flight).map (s.acquireAnswered client b req attempt)
  | .settling lease exiting input output attempt flight =>
    (s.answer flight).map (s.settleAnswered client b lease exiting input output attempt)
  | .releasing lease flight => (s.answer flight).map fun _ => s.goto b (.over (some lease))
  | _ => none

def fail (client : Client) (s : State) (b : ℕ) (code : StatusCode) : Option State :=
  match s.phase b with
  | .acquiring req attempt _ => some (s.acquireFailed client b req attempt code)
  | .settling lease exiting input output attempt _ =>
    some (s.settleFailed client b lease exiting input output attempt)
  | .releasing lease _ => some (s.goto b (.over (some lease)))
  | _ => none

def interrupt (s : State) (b : ℕ) : Option State :=
  match s.phase b with
  | .acquiring _ _ _ => some (s.goto b (.over none))
  | .acquireBackoff _ _ => some (s.goto b (.over none))
  | .settling lease exiting _ _ _ _ => some (s.settleReturns b lease exiting)
  | .settleBackoff lease exiting _ _ _ => some (s.settleReturns b lease exiting)
  | .releasing lease _ => some (s.goto b (.over (some lease)))
  | _ => none

def wake (s : State) (b : ℕ) : Option State :=
  match s.phase b with
  | .acquireBackoff req attempt => some (s.acquire b req (attempt + 1))
  | .settleBackoff lease exiting input output attempt =>
    some (s.settleAttempt b lease exiting input output (attempt + 1))
  | _ => none

/-- What the body does with its lease. -/
def body (s : State) (b : ℕ) (f : Lease → State) : Option State :=
  match s.phase b with
  | .body lease => some (f lease)
  | _ => none

def settle (s : State) (b : ℕ) (input output : ℤ) (lease : Lease) : State :=
  if lease.settled then s
  else s.startSettle b { lease with actual := some (input, output) } false input output

def step (client : Client) (s : State) : Event → Option State
  | .enter b req => s.enter b req
  | .deliver flight resolver newID now => s.deliver flight resolver newID now
  | .reply b => s.reply client b
  | .fail b code => s.fail client b code
  | .interrupt b => s.interrupt b
  | .wake b => s.wake b
  | .markCallStarted b => s.body b fun lease => s.goto b (.body { lease with callStarted := true })
  | .settle b input output => s.body b (s.settle b input output)
  | .exit b raised =>
    s.body b fun lease => if raised then s.exitRaised b lease else s.exitClean b lease
  | .reapExpired now order => some (s.serve (.reapExpired now order))
  | .recordUsage record => some (s.serve (.recordUsage record))
  | .evictInteraction interactionID => some (s.serve (.evictInteraction interactionID))

end State

def initial (pricing : Cost.CostConfig) (cfg : Config) : State :=
  ⟨start pricing cfg, fun _ => none, 0, fun _ => .idle⟩

def brackets (client : Client) (pricing : Cost.CostConfig) (cfg : Config) : System State Event :=
  ⟨initial pricing cfg, State.step client⟩

end Persatrix.WalletClient
