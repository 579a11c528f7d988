import Persatrix.LogDisk
import Persatrix.LogRing
import Persatrix.System

/-!
# Appends, seals and evictions

A buffer with the calls that run on it, cut at the sections of its mutexes. A ring is found by
its address, so that a call may hold one that the table has dropped. What the holder of a ring's
`flushMu` has taken is kept with the ring. Each append is numbered, so that the entries can be
told apart, and entries that were loaded at start have the number zero. The logs of what was
appended, taken, written and lost are not part of the program.
-/
namespace Persatrix.LogBuffer

structure Stamped where
  stamp : ℕ
  entry : Entry

/-- What the holder of `flushMu` has taken from the ring. -/
inductive Flight where
  | taken (entries : List Stamped) (count : ℤ)
  | reserved (entries : List Stamped) (count : ℤ) (seq : ℕ)
  | written (count : ℤ)

structure RingCell where
  executionID : GoString
  ring : ExecutionRing Stamped
  flight : Option Flight
  /-- The entries it had at start, and those that were appended. -/
  loaded : List Stamped
  history : List Stamped
  /-- The number of the first append after it was created. -/
  born : ℕ
  /-- `SealAfterGrace` has found the ring, or one of the execution before this was created. -/
  claimed : Bool

namespace RingCell

def touch (c : RingCell) (stamp : ℕ) : RingCell :=
  { c with ring := { c.ring with lastTouch := stamp } }

def append (c : RingCell) (e : Stamped) : RingCell :=
  { c with ring := (c.ring.append e).1, history := c.history ++ [e] }

def markFound (c : RingCell) : RingCell := { c with ring := c.ring.markSealed, claimed := true }

def take (c : RingCell) (entries : List Stamped) (count : ℤ) : RingCell :=
  { c with
    ring := c.ring.sealRing.2
    flight := some (if entries.isEmpty then .written count else .taken entries count) }

def reserve (c : RingCell) (entries : List Stamped) (count : ℤ) (seq : ℕ) : RingCell :=
  { c with flight := some (.reserved entries count seq) }

def write (c : RingCell) (count : ℤ) : RingCell := { c with flight := some (.written count) }

def fail (c : RingCell) : RingCell := { c with flight := none }

def mark (c : RingCell) (count : ℤ) : RingCell :=
  { c with ring := c.ring.markFlushed count, flight := none }

def clear (c : RingCell) : RingCell := { c with ring := { c.ring with unflushed := 0 } }

end RingCell

inductive DropReason where
  | belowLevel | rateLimit | closed | noExecID | invalidID
deriving DecidableEq

/-- Where a call stands. -/
inductive CallPC where
  | lookup (entry : Entry)
  | create (entry : Entry)
  | allow (entry : Entry) (addr : ℕ)
  | append (entry : Entry) (addr : ℕ)
  | sealAfterGrace (executionID : GoString)
  | schedule (executionID : GoString)
  | sealLookup (executionID : GoString) (warn : Bool)
  | take (executionID : GoString) (addr : ℕ) (warn : Bool)
  | flush (executionID : GoString) (addr : ℕ) (warn : Bool)
  | resetLookup (executionID : GoString)
  | reset (executionID : GoString) (addr : ℕ)
  | drain
  | dropped (reason : DropReason)
  | done

structure Call where
  next : CallPC
  /-- The entry that an `Append` has put into a ring. -/
  appended : Option Stamped

structure SequenceFile where
  executionID : GoString
  seq : ℕ
  entries : List Stamped
  addr : ℕ

/-- A call of `SealAfterGrace` that found a ring. -/
structure Found where
  executionID : GoString
  addr : ℕ
  /-- The number of the first append after it. -/
  since : ℕ

structure LiveBuffer where
  heap : List RingCell
  rings : GoMap GoString ℕ
  lru : List GoString
  lruCounter : ℕ
  closed : Bool
  pending : List GoString
  nextSeq : GoMap GoString ℕ
  calls : List Call
  appends : ℕ
  files : List SequenceFile
  taken : List ℕ
  failed : List ℕ
  found : List Found

structure Config where
  perExecution : ℕ
  perExecution_pos : 0 < perExecution
  maxExecutions : ℕ
  dropLevel : GoString
  toUpper : GoString → GoString

/-! ### Levels -/

def levelRank : List (GoString × ℕ) :=
  [(ascii "DEBUG", 10), (ascii "INFO", 20), (ascii "WARN", 30), (ascii "ERROR", 40),
    (ascii "FATAL", 50)]

def levelGE (c : Config) (actual threshold : GoString) : Bool :=
  (levelRank.lookup (c.toUpper threshold)).getD 10 ≤ (levelRank.lookup (c.toUpper actual)).getD 20

namespace LiveBuffer

def setCell (s : LiveBuffer) (addr : ℕ) (f : RingCell → RingCell) : LiveBuffer :=
  { s with heap := s.heap.modify addr f }

/-! ### The table of rings -/

def touch (s : LiveBuffer) (addr : ℕ) : LiveBuffer :=
  { s.setCell addr (·.touch (s.lruCounter + 1)) with lruCounter := s.lruCounter + 1 }

/-- The first one with the least stamp. -/
def oldest : List (GoString × ℕ) → Option (GoString × ℕ)
  | [] => none
  | (id, touch) :: rest =>
    match oldest rest with
    | none => some (id, touch)
    | some (id', touch') => if touch' < touch then some (id', touch') else some (id, touch)

/-- The executions whose rings may be evicted, with the stamps of these. -/
def candidates (s : LiveBuffer) : List (GoString × ℕ) :=
  s.lru.filterMap fun id =>
    ((s.rings.lookup id).bind fun addr => s.heap[addr]?).bind fun cell =>
      if cell.ring.hasUnflushed then none else some (id, cell.ring.lastTouch)

/-- `evictLocked`; each round takes a ring out of the table, so there are at most as many. -/
def evictRounds (c : Config) : ℕ → LiveBuffer → LiveBuffer
  | 0, s => s
  | rounds + 1, s =>
    if s.rings.keys.length ≤ c.maxExecutions then s
    else
      match oldest s.candidates with
      | none => s
      | some (id, _) =>
        evictRounds c rounds { s with rings := s.rings.erase id, lru := s.lru.erase id }

def evictLocked (c : Config) (s : LiveBuffer) : LiveBuffer :=
  evictRounds c s.rings.keys.length s

def newCell (c : Config) (s : LiveBuffer) (executionID : GoString) : RingCell where
  executionID := executionID
  ring := { ExecutionRing.new c.perExecution c.perExecution_pos with lastTouch := s.lruCounter + 1 }
  flight := none
  loaded := []
  history := []
  born := s.appends
  claimed := s.found.any fun f => f.executionID = executionID

/-- The ring of an execution is created. -/
def insertRing (c : Config) (s : LiveBuffer) (executionID : GoString) : LiveBuffer :=
  evictLocked c { s with
    heap := s.heap ++ [s.newCell c executionID]
    rings := s.rings.insert executionID s.heap.length
    lru := s.lru ++ [executionID]
    lruCounter := s.lruCounter + 1 }

/-! ### The sections of a call -/

def stamped (s : LiveBuffer) (entry : Entry) : Stamped := ⟨s.appends, entry⟩

def appendTo (s : LiveBuffer) (entry : Entry) (addr : ℕ) : LiveBuffer :=
  { s.setCell addr (·.append (s.stamped entry)) with appends := s.appends + 1 }

def markFound (s : LiveBuffer) (executionID : GoString) (addr : ℕ) : LiveBuffer :=
  { s.setCell addr RingCell.markFound with found := ⟨executionID, addr, s.appends⟩ :: s.found }

/-- The entries that were taken are not written. -/
def fail (s : LiveBuffer) (addr : ℕ) (entries : List Stamped) : LiveBuffer :=
  { s.setCell addr RingCell.fail with failed := s.failed ++ entries.map Stamped.stamp }

def takeFrom (s : LiveBuffer) (addr : ℕ) (entries : List Stamped) (count : ℤ) : LiveBuffer :=
  { s.setCell addr (·.take entries count) with taken := s.taken ++ entries.map Stamped.stamp }

def reserveSeq (s : LiveBuffer) (executionID : GoString) : ℕ :=
  let seq := (s.nextSeq.lookup executionID).getD 0
  if seq = 0 then 1 else seq

def reserve (s : LiveBuffer) (executionID : GoString) (addr : ℕ) (entries : List Stamped)
    (count : ℤ) : LiveBuffer :=
  { s.setCell addr (·.reserve entries count (s.reserveSeq executionID)) with
    nextSeq := s.nextSeq.insert executionID (s.reserveSeq executionID + 1) }

def write (s : LiveBuffer) (executionID : GoString) (addr : ℕ) (entries : List Stamped)
    (count : ℤ) (seq : ℕ) : LiveBuffer :=
  { s.setCell addr (·.write count) with
    files := s.files ++ [⟨executionID, seq, entries, addr⟩] }

def mark (s : LiveBuffer) (addr : ℕ) (count : ℤ) : LiveBuffer := s.setCell addr (·.mark count)

def clear (s : LiveBuffer) (addr : ℕ) : LiveBuffer := s.setCell addr RingCell.clear

/-- `drainSeals`: a seal for each execution that waits. -/
def drain (s : LiveBuffer) : LiveBuffer :=
  { s with calls := s.calls ++ s.pending.map fun id => ⟨.sealLookup id true, none⟩, pending := [] }

/-- After a write that failed: a seal that is waited for returns the error, the others count the
entries no longer. -/
def afterFailure (executionID : GoString) (warn : Bool) : CallPC :=
  if warn then .resetLookup executionID else .done

/-- The holder of `flushMu` goes on: the choice is whether the step on the disk succeeds. -/
def executeFlush (s : LiveBuffer) (id : GoString) (addr : ℕ) (warn : Bool) (choice : Bool) :
    Flight → LiveBuffer × CallPC
  | .taken entries count =>
    if choice then (s.reserve id addr entries count, .flush id addr warn)
    else (s.fail addr entries, afterFailure id warn)
  | .reserved entries count seq =>
    if choice then (s.write id addr entries count seq, .flush id addr warn)
    else (s.fail addr entries, afterFailure id warn)
  | .written count => (s.mark addr count, .done)

/-- One section of a call; the choice is the answer of the token bucket, or of the disk. -/
def execute (c : Config) (s : LiveBuffer) (choice : Bool) : CallPC → Option (LiveBuffer × CallPC)
  | .lookup entry =>
    match s.rings.lookup entry.executionID with
    | some addr => some (s.touch addr, .allow entry addr)
    | none => some (s, .create entry)
  | .create entry =>
    match s.rings.lookup entry.executionID with
    | some addr => some (s.touch addr, .allow entry addr)
    | none => some (s.insertRing c entry.executionID, .allow entry s.heap.length)
  | .allow entry addr =>
    if levelGE c entry.level (ascii "WARN") || choice then some (s, .append entry addr)
    else some (s, .dropped .rateLimit)
  | .append entry addr =>
    s.heap[addr]?.map fun cell =>
      (s.appendTo entry addr,
        if (cell.ring.append (s.stamped entry)).2 then .schedule entry.executionID else .done)
  | .sealAfterGrace id =>
    match s.rings.lookup id with
    | none => some (s, .done)
    | some addr => some (s.markFound id addr, .schedule id)
  | .schedule id =>
    if s.closed then some (s, .sealLookup id true)
    else if id ∈ s.pending then some (s, .done)
    else some ({ s with pending := s.pending ++ [id] }, .done)
  | .sealLookup id warn =>
    match s.rings.lookup id with
    | none => some (s, .done)
    | some addr => some (s, .take id addr warn)
  | .take id addr warn =>
    s.heap[addr]?.bind fun cell =>
      match cell.flight with
      | some _ => none
      | none =>
        some (s.takeFrom addr cell.ring.sealRing.1.1 cell.ring.sealRing.1.2, .flush id addr warn)
  | .flush id addr warn =>
    (s.heap[addr]?.bind RingCell.flight).map (s.executeFlush id addr warn choice)
  | .resetLookup id =>
    match s.rings.lookup id with
    | none => some (s, .done)
    | some addr => some (s, .reset id addr)
  | .reset _ addr =>
    s.heap[addr]?.bind fun cell =>
      match cell.flight with
      | some _ => none
      | none => some (s.clear addr, .done)
  | .drain => some (s.drain, .done)
  | .dropped _ | .done => none

/-- What an `Append` has put into a ring, once it has. -/
def appendedBy (s : LiveBuffer) (call : Call) : Option Stamped :=
  match call.next with
  | .append entry _ => some (s.stamped entry)
  | _ => call.appended

def begin (s : LiveBuffer) (next : CallPC) : LiveBuffer :=
  { s with calls := s.calls ++ [⟨next, none⟩] }

/-- What `Append` checks before it looks for a ring. -/
def admission (c : Config) (s : LiveBuffer) (entry : Entry) : CallPC :=
  if s.closed then .dropped .closed
  else if entry.executionID = [] then .dropped .noExecID
  else if !validExecutionID entry.executionID then .dropped .invalidID
  else if !levelGE c entry.level c.dropLevel then .dropped .belowLevel
  else .lookup entry

end LiveBuffer

inductive LogEvent where
  | append (entry : Entry)
  | sealAfterGrace (executionID : GoString)
  | seal (executionID : GoString)
  | close
  /-- The grace timer of an execution fires. -/
  | fire (executionID : GoString)
  | run (k : ℕ) (choice : Bool)

namespace LiveBuffer

def step (c : Config) (s : LiveBuffer) : LogEvent → Option LiveBuffer
  | .append entry => some (s.begin (s.admission c entry))
  | .sealAfterGrace id =>
    some (s.begin (if validExecutionID id then .sealAfterGrace id else .done))
  | .seal id => some (s.begin (if validExecutionID id then .sealLookup id false else .done))
  | .close => some (if s.closed then s else { s with closed := true }.begin .drain)
  | .fire id =>
    if id ∈ s.pending then
      some ({ s with pending := s.pending.filter fun x => x ≠ id }.begin (.sealLookup id true))
    else some s
  | .run k choice =>
    s.calls[k]?.bind fun call =>
      (s.execute c choice call.next).map fun r =>
        { r.1 with calls := r.1.calls.set k ⟨r.2, s.appendedBy call⟩ }

end LiveBuffer

/-- A ring that was loaded at start: it is sealed, and counts nothing. -/
structure WarmRing where
  executionID : GoString
  ring : ExecutionRing Stamped
  sealed_eq : ring.sealed = true
  unflushed_eq : ring.unflushed = 0
  stamps : ∀ e ∈ ring.snapshotLocked, e.stamp = 0

namespace LiveBuffer

/-- The buffer after `New`. -/
def start (warm : List WarmRing) (nextSeq : GoMap GoString ℕ) : LiveBuffer where
  heap := warm.map fun w => ⟨w.executionID, w.ring, none, w.ring.snapshotLocked, [], 1, false⟩
  rings := warm.zipIdx.foldl (fun m w => m.insert w.1.executionID w.2) ∅
  lru := warm.map WarmRing.executionID
  lruCounter := warm.length
  closed := false
  pending := []
  nextSeq := nextSeq
  calls := []
  appends := 1
  files := []
  taken := []
  failed := []
  found := []

def system (c : Config) (warm : List WarmRing) (nextSeq : GoMap GoString ℕ) :
    System LiveBuffer LogEvent := ⟨start warm nextSeq, step c⟩

end LiveBuffer
end Persatrix.LogBuffer
