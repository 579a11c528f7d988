import Persatrix.InteractionTracker

/-!
# The calls of an interaction tracker

A tracker keeps the open record of each key in a dictionary. A record is an object: the calls
that are given one know it by its identity, which is its position in the list of all records
that the tracker ever opened. Every call takes effect as a whole, at a time that it is given or
that it reads from the clock.
-/
namespace Persatrix.Tracking
open Interactions (RecordKey CloseReason resolveRecordKey normalizePrincipalID_normalize
  normalizePrincipalID_resolve)

structure Turn (T P : Type) where
  turnAt : T
  payload : P
deriving DecidableEq

structure Interaction (T P : Type) where
  scope : String
  startedAt : T
  turns : List (Turn T P) := []
  closedAt : Option T := none
  /-- The texts `close_reason` and `structural_close_reason` are empty where these are `none`. -/
  closeReason : Option CloseReason := none
  structuralCloseReason : Option CloseReason := none
  sessionID : String
  principalID : String
  speakerID : String
  epochID : String
  replayed : Bool
  replayAttributed : Bool
  replayWindowComplete : Bool := false
  classification : Option String
  sourceChannelID : Option String
deriving DecidableEq

variable {T P : Type}

namespace Interaction

def turnCount (r : Interaction T P) : ℕ := r.turns.length

def lastTurnAt (r : Interaction T P) : Option T := r.turns.getLast?.map Turn.turnAt

def isOpen (r : Interaction T P) : Bool := r.closedAt.isNone

def key (r : Interaction T P) : RecordKey := ⟨r.principalID, r.speakerID, r.scope⟩

def append (turn : Turn T P) (r : Interaction T P) : Interaction T P :=
  { r with turns := r.turns ++ [turn] }

def close (reason : CloseReason) (ts : T) (complete : Option Bool) (r : Interaction T P) :
    Interaction T P :=
  { r with
    closedAt := some ts
    closeReason := some reason
    replayWindowComplete := complete.getD r.replayWindowComplete }

def mark (reason : Option CloseReason) (r : Interaction T P) : Interaction T P :=
  { r with structuralCloseReason := reason }

end Interaction

/-! ### When a record is to be closed -/

inductive Detector (T : Type) where
  | structuralClose
  | idleGap (idleTimeoutSec : T)
  | maxTurns (maxTurns : ℤ)
  | topicShift

def defaultDetectors (idleTimeoutSec : T) (maxTurns : ℤ) : List (Detector T) :=
  [.structuralClose, .idleGap idleTimeoutSec, .maxTurns maxTurns, .topicShift]

def Detector.turnCap : Detector T → Option ℤ
  | maxTurns n => some n
  | _ => none

section Evaluate
variable [Sub T] [LE T] [DecidableLE T]

def Detector.evaluate (d : Detector T) (r : Interaction T P) (now : T) : Option CloseReason :=
  match d with
  | structuralClose => r.structuralCloseReason
  | idleGap idleTimeoutSec =>
    match r.lastTurnAt with
    | none => none
    | some last => if idleTimeoutSec ≤ now - last then some .idleGap else none
  | maxTurns n => if n ≤ (r.turnCount : ℤ) then some .maxTurns else none
  | topicShift => none

end Evaluate

/-! ### The tracker -/

structure Tracker (T P : Type) where
  /-- Every record opened so far: the position is the identity, and stands for the random id. -/
  records : List (Interaction T P)
  opened : Keyed (Prod.fst : RecordKey × ℕ → RecordKey)
  compromisedRecords : List (String × String)

/-- What a turn freezes on the record it opens, and what is bound around its handling. -/
structure Opening where
  sessionID : Option String
  classification : Option String
  sourceChannelID : Option String
  replayed : Bool
  replayAttributed : Bool
  principalID : Option String
  speakerID : Option String
  envPrincipal : String
  boundPrincipal : Option String
  epochID : String

def Opening.key (o : Opening) (scope : String) : RecordKey :=
  resolveRecordKey o.envPrincipal o.boundPrincipal scope o.principalID o.speakerID

namespace Tracker

def init : Tracker T P := ⟨[], .empty _, []⟩

variable (t : Tracker T P)

def object (id : ℕ) : Option (Interaction T P) := t.records[id]?

def isOpen (id : ℕ) : Bool := (t.object id).any Interaction.isOpen

def revise (id : ℕ) (f : Interaction T P → Interaction T P) : Tracker T P :=
  { t with records := t.records.modify id f }

/-- The open record that is filed under the key. -/
def lookup (key : RecordKey) : Option ℕ := ((t.opened.get key).map Prod.snd).filter t.isOpen

/-- `self._open[key] = interaction`, with a record that was not there before. -/
def register (fresh : Interaction T P) : Tracker T P :=
  { t with
    records := t.records ++ [fresh]
    opened := t.opened.put (fresh.key, t.records.length) }

def noteReplayedClose (channelID speakerID : String) : Tracker T P :=
  { t with compromisedRecords := (channelID, speakerID) :: t.compromisedRecords }

/-- The open record under the key, or a fresh one. -/
def start (scope : String) (ts : T) (o : Opening) : ℕ × Tracker T P :=
  let key := o.key scope
  match t.lookup key with
  | some id => (id, t)
  | none =>
    let fresh : Interaction T P :=
      { scope := scope
        startedAt := ts
        sessionID := if o.sessionID.getD "" = "" then "legacy" else o.sessionID.getD ""
        principalID := key.principalID
        speakerID := key.speakerID
        epochID := o.epochID
        replayed := o.replayed
        replayAttributed := o.replayAttributed
        classification := o.classification
        sourceChannelID := o.sourceChannelID }
    (t.records.length, t.register fresh)

/-- Nothing is closed unless the dictionary holds this very record under its key. -/
def closeRecord (id : ℕ) (reason : CloseReason) (ts : T) (complete : Option Bool) :
    Option ℕ × Tracker T P :=
  match t.object id with
  | none => (none, t)
  | some r =>
    if (t.opened.get r.key).map Prod.snd = some id then
      let done := r.close reason ts complete
      let t := { t.revise id (Interaction.close reason ts complete) with
        opened := t.opened.erase r.key }
      (some id,
        if done.replayed && !done.replayWindowComplete then
          t.noteReplayedClose (done.sourceChannelID.getD "") done.speakerID
        else t)
    else (none, t)

/-- The open record that a turn goes to, opened if there is none. -/
def recordFor (scope : String) (ts : T) (o : Opening) : ℕ × Tracker T P :=
  let key := o.key scope
  match t.lookup key with
  | some id => (id, t)
  | none => t.start scope ts
      { o with principalID := some key.principalID, speakerID := some key.speakerID }

/-- The turn is appended to its record; at the cap the record is closed. -/
def addTurn (cap : Option ℤ) (scope : String) (payload : P) (ts : T) (o : Opening) :
    ℕ × Tracker T P :=
  let found := t.recordFor scope ts o
  let t := found.2.revise found.1 (Interaction.append ⟨ts, payload⟩)
  let count := ((t.object found.1).map Interaction.turnCount).getD 0
  if cap.any fun n => n ≤ (count : ℤ) then
    (found.1, (t.closeRecord found.1 .maxTurns ts none).2)
  else (found.1, t)

/-- A record that is closed takes no turn. -/
def appendTurn (id : ℕ) (payload : P) (ts : T) : Tracker T P :=
  if t.isOpen id then t.revise id (Interaction.append ⟨ts, payload⟩) else t

/-- The records of the scope, or of all, that an event of the room may close. -/
def admittedRecords (scope : Option String) (admits : Option (Interaction T P → Bool)) : List ℕ :=
  (t.opened.values.map Prod.snd).filter fun id => (t.object id).any fun r =>
    scope.all (fun s => r.scope = s) && !r.replayed && admits.all fun f => f r

/-- Each record in turn is closed if it is due; those that were closed are returned. -/
def closeEach (due : Interaction T P → Option CloseReason) (ts : T) :
    List ℕ → Tracker T P → List ℕ × Tracker T P
  | [], t => ([], t)
  | id :: ids, t =>
    match (t.object id).bind due with
    | none => closeEach due ts ids t
    | some reason =>
      let done := t.closeRecord id reason ts none
      let rest := closeEach due ts ids done.2
      (done.1.toList ++ rest.1, rest.2)

def closeScope (scope : Option String) (reason : CloseReason) (ts : T)
    (admits : Option (Interaction T P → Bool)) : List ℕ × Tracker T P :=
  closeEach (fun _ => some reason) ts (t.admittedRecords scope admits) t

variable [Sub T] [LE T] [DecidableLE T]

/-- The first detector that fires names the reason. -/
def idleCheck (detectors : List (Detector T)) (ts : T) (records : Option (List ℕ)) :
    List ℕ × Tracker T P :=
  closeEach (fun r => detectors.findSome? fun d => d.evaluate r ts) ts
    (records.getD (t.opened.values.map Prod.snd)) t

end Tracker

/-! ### The calls -/

inductive Op (T P : Type) where
  | start (scope : String) (o : Opening)
  | addTurn (scope : String) (payload : Option P) (o : Opening)
  | appendTurn (id : ℕ) (payload : Option P)
  | closeRecord (id : ℕ) (reason : CloseReason) (complete : Option Bool)
  | closeScope (scope : Option String) (reason : CloseReason)
      (admits : Option (Interaction T P → Bool))
  | idleCheck (records : Option (List ℕ))
  /-- A call site that cannot close marks the record for the next check. -/
  | markStructural (id : ℕ) (reason : Option CloseReason)

structure Call (T P : Type) where
  op : Op T P
  now : Option T
  /-- What the clock says if it is read. -/
  clock : T

def Call.ts (c : Call T P) : T := c.now.getD c.clock

section Perform
variable [EmptyCollection P] [Sub T] [LE T] [DecidableLE T]

/-- The records that a call returns, and what it leaves. -/
def perform (detectors : List (Detector T)) (t : Tracker T P) (c : Call T P) :
    List ℕ × Tracker T P :=
  match c.op with
  | .start scope o => ([(t.start scope c.ts o).1], (t.start scope c.ts o).2)
  | .addTurn scope payload o =>
    let res := t.addTurn (detectors.findSome? Detector.turnCap) scope (payload.getD ∅) c.ts o
    ([res.1], res.2)
  | .appendTurn id payload => ([], t.appendTurn id (payload.getD ∅) c.ts)
  | .closeRecord id reason complete =>
    let res := t.closeRecord id reason c.ts complete
    (res.1.toList, res.2)
  | .closeScope scope reason admits => t.closeScope scope reason c.ts admits
  | .idleCheck records => t.idleCheck detectors c.ts records
  | .markStructural id reason => ([], t.revise id (Interaction.mark reason))

/-- A call, with what it finds, what it returns and what it leaves. -/
structure Event (T P : Type) where
  before : Tracker T P
  call : Call T P
  returned : List ℕ
  after : Tracker T P

def record (detectors : List (Detector T)) (s : Tracker T P × List (Event T P)) (c : Call T P) :
    Tracker T P × List (Event T P) :=
  let res := perform detectors s.1 c
  (res.2, s.2 ++ [⟨s.1, c, res.1, res.2⟩])

/-- What is left by a sequence of calls on a new tracker, and what happened in each. -/
def run (detectors : List (Detector T)) (calls : List (Call T P)) :
    Tracker T P × List (Event T P) :=
  calls.foldl (record detectors) (.init, [])

end Perform

/-! ### What a sequence of calls keeps -/

/-- The records of the call that it returns as closed. -/
def Event.closed (e : Event T P) : List ℕ := e.returned.filter fun id => !e.after.isOpen id

/-- The turn that the call was given for a record, with the record: of a turn that is added, the
record is the one returned. -/
def Event.passed [EmptyCollection P] (e : Event T P) : Option (ℕ × Turn T P) :=
  match e.call.op with
  | .addTurn _ payload _ => e.returned.head?.map fun id => (id, ⟨e.call.ts, payload.getD ∅⟩)
  | .appendTurn id payload =>
    if e.before.isOpen id then some (id, ⟨e.call.ts, payload.getD ∅⟩) else none
  | _ => none

def turnsOf (passed : List (ℕ × Turn T P)) (id : ℕ) : List (Turn T P) :=
  (passed.filter fun p => p.1 = id).map Prod.snd

/-- The record was opened and is no longer in the dictionary. -/
def Tracker.Left (t : Tracker T P) (id : ℕ) : Prop :=
  id < t.records.length ∧ ∀ key, (key, id) ∉ t.opened.values

/-- What a tracker with this cap has kept after these calls. -/
structure Kept [EmptyCollection P] (maxTurns : ℤ) (t : Tracker T P) (events : List (Event T P)) :
    Prop where
  one_per_key : (t.opened.values.map Prod.fst).Nodup
  own_key : ∀ key id, (key, id) ∈ t.opened.values →
    ∃ r, t.object id = some r ∧ r.isOpen = true ∧ r.key = key
  turns : ∀ id r, t.object id = some r →
    r.turns = turnsOf (events.filterMap Event.passed) id
  passed_known : ∀ p ∈ events.filterMap Event.passed, p.1 < t.records.length
  capped : ∀ e ∈ events, ∀ scope payload o, e.call.op = .addTurn scope payload o →
    ∃ id r, e.returned = [id] ∧ e.after.object id = some r ∧ r.key = o.key scope ∧
      (maxTurns ≤ (r.turnCount : ℤ) →
        r.isOpen = false ∧ r.closeReason = some .maxTurns ∧ id ∈ e.closed)
  closed_iff_left : ∀ id r, t.object id = some r → (r.isOpen = false ↔ t.Left id)
  returned_once : (events.flatMap Event.closed).Nodup
  left_iff_returned : ∀ id, t.Left id ↔ id ∈ events.flatMap Event.closed
  returned_iff_leaves : ∀ e ∈ events, ∀ id,
    id ∈ e.closed ↔ ¬ e.before.Left id ∧ e.after.Left id
  stays_out : ∀ e ∈ events, ∀ id, e.after.Left id → t.Left id
  settled : ∀ e ∈ events, ∀ id r, e.after.object id = some r → r.isOpen = false →
    ∃ r', t.object id = some r' ∧ r'.closedAt = r.closedAt ∧ r'.closeReason = r.closeReason

/-! ### The invariant -/

/-- The tracker has taken the turns `passed`, each for a record, and closed the records
`closed`. -/
structure Inv (t : Tracker T P) (passed : List (ℕ × Turn T P)) (closed : List ℕ) : Prop where
  own : ∀ key id, (key, id) ∈ t.opened.values →
    ∃ r, t.object id = some r ∧ r.isOpen = true ∧ r.key = key
  filed : ∀ id r, t.object id = some r → r.isOpen = true → (r.key, id) ∈ t.opened.values
  turns : ∀ id r, t.object id = some r → r.turns = turnsOf passed id
  known : ∀ p ∈ passed, p.1 < t.records.length
  nodup : closed.Nodup
  closed_iff : ∀ id, id ∈ closed ↔ ∃ r, t.object id = some r ∧ r.isOpen = false

/-- No record is lost, moved to another key or, once closed, closed again. -/
def Evolves (t u : Tracker T P) : Prop :=
  ∀ id r, t.object id = some r → ∃ r', u.object id = some r' ∧ r'.key = r.key ∧
    (r.isOpen = false → r'.closedAt = r.closedAt ∧ r'.closeReason = r.closeReason)

theorem Evolves.refl (t : Tracker T P) : Evolves t t :=
  fun _ r hr => ⟨r, hr, rfl, fun _ => ⟨rfl, rfl⟩⟩

theorem Evolves.trans {t u v : Tracker T P} (h : Evolves t u) (h' : Evolves u v) :
    Evolves t v := by
  intro id r hr
  obtain ⟨r', hr', hkey, hclosed⟩ := h id r hr
  obtain ⟨r'', hr'', hkey', hclosed'⟩ := h' id r' hr'
  refine ⟨r'', hr'', hkey'.trans hkey, fun hopen => ?_⟩
  obtain ⟨hat, hreason⟩ := hclosed hopen
  have hopen' : r'.isOpen = false := by
    unfold Interaction.isOpen at hopen ⊢
    rw [hat]
    exact hopen
  obtain ⟨hat', hreason'⟩ := hclosed' hopen'
  exact ⟨hat'.trans hat, hreason'.trans hreason⟩

variable {t : Tracker T P} {passed : List (ℕ × Turn T P)} {closed : List ℕ}

theorem turnsOf_append (passed more : List (ℕ × Turn T P)) (id : ℕ) :
    turnsOf (passed ++ more) id = turnsOf passed id ++ turnsOf more id := by
  simp only [turnsOf, List.filter_append, List.map_append]

theorem turnsOf_eq_nil {id : ℕ} (h : ∀ p ∈ passed, p.1 < id) : turnsOf passed id = [] := by
  have hnone : passed.filter (fun p => p.1 = id) = [] := by
    refine List.filter_eq_nil_iff.mpr fun p hp => ?_
    simpa only [decide_eq_true_eq] using (h p hp).ne
  rw [turnsOf, hnone, List.map_nil]

theorem isOpen_iff {id : ℕ} :
    t.isOpen id = true ↔ ∃ r, t.object id = some r ∧ r.isOpen = true := by
  unfold Tracker.isOpen
  rw [Option.any_eq_true]

theorem revise_some {id j : ℕ} {f : Interaction T P → Interaction T P} {r' : Interaction T P} :
    (t.revise id f).object j = some r' ↔
      ∃ r, t.object j = some r ∧ r' = if id = j then f r else r := by
  unfold Tracker.revise Tracker.object
  rw [List.getElem?_modify, Option.map_eq_map, Option.map_eq_some_iff]
  simp only [eq_comm]

theorem lookup_some {key : RecordKey} {id : ℕ} (h : t.lookup key = some id) :
    (key, id) ∈ t.opened.values ∧ t.isOpen id = true := by
  obtain ⟨hget, hopen⟩ := Option.filter_eq_some_iff.mp h
  obtain ⟨⟨k, j⟩, hentry, rfl⟩ := Option.map_eq_some_iff.mp hget
  obtain ⟨hmem, rfl⟩ := Keyed.get_eq_some.mp hentry
  exact ⟨hmem, hopen⟩

theorem object_lt {id : ℕ} {r : Interaction T P} (h : t.object id = some r) :
    id < t.records.length := (List.getElem?_eq_some_iff.mp h).choose

theorem register_some {id : ℕ} {fresh r : Interaction T P} :
    (t.register fresh).object id = some r ↔
      t.object id = some r ∨ id = t.records.length ∧ r = fresh := by
  unfold Tracker.register Tracker.object
  rcases Nat.lt_trichotomy id t.records.length with hlt | rfl | hgt
  · rw [List.getElem?_append_left hlt]
    exact ⟨.inl, fun h => h.resolve_right fun hid => hlt.ne hid.1⟩
  · rw [List.getElem?_concat_length, List.getElem?_eq_none (Nat.le_refl _)]
    simp only [Option.some.injEq, reduceCtorEq, false_or, true_and, eq_comm]
  · rw [List.getElem?_eq_none (by simpa using Nat.succ_le_of_lt hgt), List.getElem?_eq_none hgt.le]
    simp only [reduceCtorEq, false_or, false_iff, not_and]
    exact fun hid => absurd hid hgt.ne'

namespace Inv

theorem init : Inv (Tracker.init : Tracker T P) [] [] where
  own := fun _ _ h => absurd h List.not_mem_nil
  filed := fun _ _ h => absurd h (Option.some_ne_none _).symm
  turns := fun _ _ h => absurd h (Option.some_ne_none _).symm
  known := fun _ h => absurd h List.not_mem_nil
  nodup := List.nodup_nil
  closed_iff := by
    intro id
    constructor
    · exact fun h => absurd h List.not_mem_nil
    · rintro ⟨_, h, -⟩
      exact absurd h (Option.some_ne_none _).symm

/-- Under a key that is looked up in vain, nothing is filed. -/
theorem get_of_lookup (h : Inv t passed closed) {key : RecordKey} (hnone : t.lookup key = none) :
    t.opened.get key = none := by
  refine Option.eq_none_iff_forall_ne_some.mpr fun entry hentry => ?_
  obtain ⟨hmem, rfl⟩ := Keyed.get_eq_some.mp hentry
  obtain ⟨r, hr, hopen, -⟩ := h.own entry.1 entry.2 hmem
  unfold Tracker.lookup at hnone
  rw [hentry, Option.map_some, Option.filter_some_pos (isOpen_iff.mpr ⟨r, hr, hopen⟩)] at hnone
  cases hnone

/-- The dictionary holds an open record under its key. -/
theorem get_key (h : Inv t passed closed) {id : ℕ} {r : Interaction T P}
    (hr : t.object id = some r) (hopen : r.isOpen = true) :
    t.opened.get r.key = some (r.key, id) :=
  Keyed.get_eq_some.mpr ⟨h.filed id r hr hopen, rfl⟩

/-- The entry of a record that was opened is its own: nothing else is filed under its key. -/
theorem id_eq_of_get (h : Inv t passed closed) {id j : ℕ} {r r' : Interaction T P}
    (hr : t.object id = some r) (hr' : t.object j = some r') (hopen : r.isOpen = true)
    (hopen' : r'.isOpen = true) (hkey : r.key = r'.key) : id = j := by
  have hget := h.get_key hr hopen
  rw [hkey, h.get_key hr' hopen'] at hget
  exact (Prod.mk.inj (Option.some.inj hget)).2.symm

theorem not_mem_closed (h : Inv t passed closed) {id : ℕ} {r : Interaction T P}
    (hr : t.object id = some r) (hopen : r.isOpen = true) : id ∉ closed := by
  intro hmem
  obtain ⟨r', hr', hclosed⟩ := (h.closed_iff id).mp hmem
  rw [hr] at hr'
  cases hr'
  rw [hopen] at hclosed
  cases hclosed

/-- A change of a record that keeps its key and whether it is open. -/
theorem revise (h : Inv t passed closed) {id : ℕ} {f : Interaction T P → Interaction T P}
    {passed' : List (ℕ × Turn T P)} (hkey : ∀ r, (f r).key = r.key)
    (hopen : ∀ r, (f r).isOpen = r.isOpen)
    (hturns : ∀ j r, t.object j = some r → (if id = j then f r else r).turns = turnsOf passed' j)
    (hknown : ∀ p ∈ passed', p.1 < t.records.length) : Inv (t.revise id f) passed' closed := by
  have hkey' : ∀ j r, (if id = j then f r else r).key = r.key := by
    intro j r
    split
    · exact hkey r
    · rfl
  have hopen' : ∀ j r, (if id = j then f r else r).isOpen = r.isOpen := by
    intro j r
    split
    · exact hopen r
    · rfl
  constructor
  · intro key j hmem
    obtain ⟨r, hr, hropen, hrkey⟩ := h.own key j hmem
    exact ⟨_, revise_some.mpr ⟨r, hr, rfl⟩, (hopen' j r).trans hropen, (hkey' j r).trans hrkey⟩
  · intro j r' hr' hropen
    obtain ⟨r, hr, rfl⟩ := revise_some.mp hr'
    rw [hopen'] at hropen
    rw [hkey']
    exact h.filed j r hr hropen
  · intro j r' hr'
    obtain ⟨r, hr, rfl⟩ := revise_some.mp hr'
    exact hturns j r hr
  · simpa only [Tracker.revise, List.length_modify] using hknown
  · exact h.nodup
  · intro j
    rw [h.closed_iff]
    constructor
    · rintro ⟨r, hr, hclosed⟩
      exact ⟨_, revise_some.mpr ⟨r, hr, rfl⟩, (hopen' j r).trans hclosed⟩
    · rintro ⟨r', hr', hclosed⟩
      obtain ⟨r, hr, rfl⟩ := revise_some.mp hr'
      exact ⟨r, hr, (hopen' j r).symm.trans hclosed⟩

theorem append (h : Inv t passed closed) {id : ℕ} {r : Interaction T P}
    (hr : t.object id = some r) (turn : Turn T P) :
    Inv (t.revise id (Interaction.append turn)) (passed ++ [(id, turn)]) closed := by
  refine h.revise (fun _ => rfl) (fun _ => rfl) ?_ ?_
  · intro j r' hr'
    rw [turnsOf_append, ← h.turns j r' hr']
    by_cases hj : id = j
    · subst hj
      rw [if_pos rfl]
      simp [Interaction.append, turnsOf]
    · rw [if_neg hj]
      simp [turnsOf, hj]
  · intro p hp
    rcases List.mem_append.mp hp with hp | hp
    · exact h.known p hp
    · rw [List.mem_singleton.mp hp]
      exact object_lt hr

theorem mark (h : Inv t passed closed) (id : ℕ) (reason : Option CloseReason) :
    Inv (t.revise id (Interaction.mark reason)) passed closed := by
  refine h.revise (fun _ => rfl) (fun _ => rfl) ?_ h.known
  intro j r hr
  rw [← h.turns j r hr]
  split
  · rfl
  · rfl

/-- A fresh record under a key that was looked up in vain. -/
theorem opened (h : Inv t passed closed) {fresh : Interaction T P} (hopen : fresh.isOpen = true)
    (hturns : fresh.turns = []) (hnone : t.opened.get fresh.key = none) :
    Inv (t.register fresh) passed closed := by
  constructor
  · intro key id hmem
    rcases Keyed.mem_put.mp hmem with heq | ⟨hmem, -⟩
    · cases heq
      exact ⟨fresh, register_some.mpr (.inr ⟨rfl, rfl⟩), hopen, rfl⟩
    · obtain ⟨r, hr, hrest⟩ := h.own key id hmem
      exact ⟨r, register_some.mpr (.inl hr), hrest⟩
  · intro id r hr hropen
    rcases register_some.mp hr with hr | ⟨rfl, rfl⟩
    · refine Keyed.mem_put.mpr (.inr ⟨h.filed id r hr hropen, fun hkey => ?_⟩)
      have hget := h.get_key hr hropen
      rw [show r.key = fresh.key from hkey, hnone] at hget
      cases hget
    · exact Keyed.mem_put.mpr (.inl rfl)
  · intro id r hr
    rcases register_some.mp hr with hr | ⟨rfl, rfl⟩
    · exact h.turns id r hr
    · rw [hturns, turnsOf_eq_nil h.known]
  · intro p hp
    simp only [Tracker.register, List.length_append, List.length_singleton]
    exact Nat.lt_succ_of_lt (h.known p hp)
  · exact h.nodup
  · intro id
    rw [h.closed_iff]
    constructor
    · rintro ⟨r, hr, hclosed⟩
      exact ⟨r, register_some.mpr (.inl hr), hclosed⟩
    · rintro ⟨r, hr, hclosed⟩
      rcases register_some.mp hr with hr | ⟨rfl, rfl⟩
      · exact ⟨r, hr, hclosed⟩
      · rw [hopen] at hclosed
        cases hclosed

/-- An open record is closed and its key is taken from the dictionary. -/
theorem close (h : Inv t passed closed) {id : ℕ} {r : Interaction T P}
    (hr : t.object id = some r) (hopen : r.isOpen = true) (reason : CloseReason) (ts : T)
    (complete : Option Bool) :
    Inv { t.revise id (Interaction.close reason ts complete) with
      opened := t.opened.erase r.key } passed (closed ++ [id]) := by
  constructor
  · intro key j hmem
    obtain ⟨hmem, hne⟩ := Keyed.mem_erase.mp hmem
    obtain ⟨r', hr', hropen, hrkey⟩ := h.own key j hmem
    refine ⟨_, revise_some.mpr ⟨r', hr', rfl⟩, ?_⟩
    have hj : id ≠ j := by
      rintro rfl
      rw [hr] at hr'
      cases hr'
      exact hne hrkey.symm
    rw [if_neg hj]
    exact ⟨hropen, hrkey⟩
  · intro j r' hr' hropen
    obtain ⟨r₀, hr₀, rfl⟩ := revise_some.mp hr'
    by_cases hj : id = j
    · rw [if_pos hj] at hropen
      cases hropen
    · rw [if_neg hj] at hropen ⊢
      refine Keyed.mem_erase.mpr ⟨h.filed j r₀ hr₀ hropen, fun hkey => hj ?_⟩
      exact h.id_eq_of_get hr hr₀ hopen hropen hkey.symm
  · intro j r' hr'
    obtain ⟨r₀, hr₀, rfl⟩ := revise_some.mp hr'
    rw [← h.turns j r₀ hr₀]
    split
    · rfl
    · rfl
  · simpa only [Tracker.revise, List.length_modify] using h.known
  · refine List.nodup_append.mpr ⟨h.nodup, List.nodup_singleton _, ?_⟩
    rintro j hj _ hid rfl
    rw [List.mem_singleton.mp hid] at hj
    exact h.not_mem_closed hr hopen hj
  · intro j
    rw [List.mem_append, List.mem_singleton, h.closed_iff]
    constructor
    · rintro (⟨r', hr', hclosed⟩ | rfl)
      · refine ⟨_, revise_some.mpr ⟨r', hr', rfl⟩, ?_⟩
        split
        · rfl
        · exact hclosed
      · exact ⟨_, revise_some.mpr ⟨r, hr, rfl⟩, by rw [if_pos rfl]; rfl⟩
    · rintro ⟨r', hr', hclosed⟩
      obtain ⟨r₀, hr₀, rfl⟩ := revise_some.mp hr'
      by_cases hj : id = j
      · exact .inr hj.symm
      · rw [if_neg hj] at hclosed
        exact .inl ⟨r₀, hr₀, hclosed⟩

theorem noted (h : Inv t passed closed) (channelID speakerID : String) :
    Inv (t.noteReplayedClose channelID speakerID) passed closed :=
  ⟨h.own, h.filed, h.turns, h.known, h.nodup, h.closed_iff⟩

end Inv

/-! ### What the operations do -/

theorem Inv.isOpen_of_mem (h : Inv t passed closed) {id : ℕ} (hid : id ∈ closed) :
    t.isOpen id = false := by
  obtain ⟨r, hr, hclosed⟩ := (h.closed_iff id).mp hid
  rw [Tracker.isOpen, hr, Option.any_some, hclosed]

/-- The records of a list that were all closed in the call are all returned as closed. -/
theorem Inv.filter_closed {ids : List ℕ} (h : Inv t passed (closed ++ ids)) :
    ids.filter (fun id => !t.isOpen id) = ids := by
  refine List.filter_eq_self.mpr fun id hid => ?_
  rw [h.isOpen_of_mem (List.mem_append_right _ hid)]
  rfl

theorem filter_open {id : ℕ} {r : Interaction T P} (hr : t.object id = some r)
    (hopen : r.isOpen = true) : [id].filter (fun id => !t.isOpen id) = [] := by
  refine List.filter_eq_nil_iff.mpr fun j hj => ?_
  rw [List.mem_singleton.mp hj, isOpen_iff.mpr ⟨r, hr, hopen⟩]
  exact Bool.false_ne_true

theorem evolves_revise {id : ℕ} {f : Interaction T P → Interaction T P}
    (hf : ∀ r, t.object id = some r → (f r).key = r.key ∧
      (r.isOpen = false → (f r).closedAt = r.closedAt ∧ (f r).closeReason = r.closeReason)) :
    Evolves t (t.revise id f) := by
  intro j r hr
  refine ⟨_, revise_some.mpr ⟨r, hr, rfl⟩, ?_⟩
  by_cases hj : id = j
  · subst hj
    rw [if_pos rfl]
    exact hf r hr
  · rw [if_neg hj]
    exact ⟨rfl, fun _ => ⟨rfl, rfl⟩⟩

theorem key_resolve (o : Opening) (scope : String) :
    Opening.key { o with
      principalID := some (o.key scope).principalID
      speakerID := some (o.key scope).speakerID } scope = o.key scope := by
  simp only [Opening.key, resolveRecordKey, Option.getD_some, Interactions.strip_strip]
  cases o.principalID with
  | none => simp only [normalizePrincipalID_resolve]
  | some p => simp only [normalizePrincipalID_normalize]

theorem start_spec (h : Inv t passed closed) (scope : String) (ts : T) (o : Opening) :
    Inv (t.start scope ts o).2 passed closed ∧ Evolves t (t.start scope ts o).2 ∧
      ∃ r, (t.start scope ts o).2.object (t.start scope ts o).1 = some r ∧ r.isOpen = true ∧
        r.key = o.key scope := by
  unfold Tracker.start
  dsimp only
  cases hlookup : t.lookup (o.key scope) with
  | some id =>
    obtain ⟨hmem, -⟩ := lookup_some hlookup
    exact ⟨h, .refl t, h.own _ _ hmem⟩
  | none =>
    have hnone := h.get_of_lookup hlookup
    exact ⟨h.opened rfl rfl hnone, fun id r hr =>
        ⟨r, register_some.mpr (.inl hr), rfl, fun _ => ⟨rfl, rfl⟩⟩,
      _, register_some.mpr (.inr ⟨rfl, rfl⟩), rfl, rfl⟩

/-- The record that a turn goes to is open and filed under the key of the turn. -/
theorem recordFor_spec (h : Inv t passed closed) (scope : String) (ts : T) (o : Opening) :
    Inv (t.recordFor scope ts o).2 passed closed ∧ Evolves t (t.recordFor scope ts o).2 ∧
      ∃ r, (t.recordFor scope ts o).2.object (t.recordFor scope ts o).1 = some r ∧
        r.isOpen = true ∧ r.key = o.key scope := by
  unfold Tracker.recordFor
  dsimp only
  cases hlookup : t.lookup (o.key scope) with
  | some id =>
    obtain ⟨hmem, -⟩ := lookup_some hlookup
    exact ⟨h, .refl t, h.own _ _ hmem⟩
  | none =>
    have hstart := start_spec h scope ts { o with
      principalID := some (o.key scope).principalID
      speakerID := some (o.key scope).speakerID }
    rwa [key_resolve] at hstart

theorem closeRecord_of_closed (h : Inv t passed closed) {id : ℕ}
    (hid : ∀ r, t.object id = some r → r.isOpen = false) (reason : CloseReason) (ts : T)
    (complete : Option Bool) : t.closeRecord id reason ts complete = (none, t) := by
  unfold Tracker.closeRecord
  cases hr : t.object id with
  | none => rfl
  | some r =>
    dsimp only
    refine if_neg fun hentry => ?_
    obtain ⟨⟨key, j⟩, hget, rfl⟩ := Option.map_eq_some_iff.mp hentry
    obtain ⟨r', hr', hopen, -⟩ := h.own _ _ (Keyed.get_eq_some.mp hget).1
    rw [hid r' hr'] at hopen
    cases hopen

theorem closeRecord_of_open (h : Inv t passed closed) {id : ℕ} {r : Interaction T P}
    (hr : t.object id = some r) (hopen : r.isOpen = true) (reason : CloseReason) (ts : T)
    (complete : Option Bool) :
    (t.closeRecord id reason ts complete).1 = some id ∧
      Inv (t.closeRecord id reason ts complete).2 passed (closed ++ [id]) ∧
      Evolves t (t.closeRecord id reason ts complete).2 ∧
      (t.closeRecord id reason ts complete).2.object id = some (r.close reason ts complete) := by
  have hget : (t.opened.get r.key).map Prod.snd = some id := by rw [h.get_key hr hopen]; rfl
  have hclose := h.close hr hopen reason ts complete
  have hevolves : Evolves t (t.revise id (Interaction.close reason ts complete)) := by
    refine evolves_revise fun r' hr' => ⟨rfl, fun hclosed => ?_⟩
    rw [hr] at hr'
    cases hr'
    rw [hopen] at hclosed
    cases hclosed
  have hobject : (t.revise id (Interaction.close reason ts complete)).object id =
      some (r.close reason ts complete) := revise_some.mpr ⟨r, hr, by rw [if_pos rfl]⟩
  unfold Tracker.closeRecord
  rw [hr]
  dsimp only
  rw [if_pos hget]
  dsimp only
  split
  · exact ⟨rfl, hclose.noted _ _, hevolves, hobject⟩
  · exact ⟨rfl, hclose, hevolves, hobject⟩

theorem closeRecord_spec (h : Inv t passed closed) (id : ℕ) (reason : CloseReason) (ts : T)
    (complete : Option Bool) :
    Inv (t.closeRecord id reason ts complete).2 passed
        (closed ++ (t.closeRecord id reason ts complete).1.toList) ∧
      Evolves t (t.closeRecord id reason ts complete).2 := by
  by_cases hopen : t.isOpen id = true
  · obtain ⟨r, hr, hropen⟩ := isOpen_iff.mp hopen
    obtain ⟨hfst, hinv, hevolves, -⟩ := closeRecord_of_open h hr hropen reason ts complete
    rw [hfst]
    exact ⟨hinv, hevolves⟩
  · have hclosed : ∀ r, t.object id = some r → r.isOpen = false := fun r hr =>
      eq_false_of_ne_true fun hropen => hopen (isOpen_iff.mpr ⟨r, hr, hropen⟩)
    rw [closeRecord_of_closed h hclosed, Option.toList_none, List.append_nil]
    exact ⟨h, .refl t⟩

theorem closeEach_spec (due : Interaction T P → Option CloseReason) (ts : T) (ids : List ℕ)
    (h : Inv t passed closed) :
    Inv (Tracker.closeEach due ts ids t).2 passed
        (closed ++ (Tracker.closeEach due ts ids t).1) ∧
      Evolves t (Tracker.closeEach due ts ids t).2 := by
  induction ids generalizing t closed with
  | nil =>
    rw [Tracker.closeEach, List.append_nil]
    exact ⟨h, .refl t⟩
  | cons id ids ih =>
    rw [Tracker.closeEach]
    cases (t.object id).bind due with
    | none => exact ih h
    | some reason =>
      obtain ⟨hdone, hevolves⟩ := closeRecord_spec h id reason ts none
      obtain ⟨hrest, hevolves'⟩ := ih hdone
      rw [List.append_assoc] at hrest
      exact ⟨hrest, hevolves.trans hevolves'⟩

/-- At the cap the record is closed in the call. -/
theorem addTurn_spec (h : Inv t passed closed) (cap : Option ℤ) (scope : String) (payload : P)
    (ts : T) (o : Opening) {id : ℕ} {t' : Tracker T P}
    (hres : t.addTurn cap scope payload ts o = (id, t')) :
    Inv t' (passed ++ [(id, ⟨ts, payload⟩)])
        (closed ++ [id].filter fun id => !t'.isOpen id) ∧ Evolves t t' ∧
      ∃ r, t'.object id = some r ∧ r.key = o.key scope ∧
        ((cap.any fun n => n ≤ (r.turnCount : ℤ)) = true →
          r.isOpen = false ∧ r.closeReason = some .maxTurns) := by
  obtain ⟨hfound, hevolves, r, hr, hopen, hkey⟩ := recordFor_spec h scope ts o
  unfold Tracker.addTurn at hres
  dsimp only at hres
  generalize t.recordFor scope ts o = found at hfound hevolves hr hres
  have happend := hfound.append hr ⟨ts, payload⟩
  have hr' : (found.2.revise found.1 (Interaction.append ⟨ts, payload⟩)).object found.1 =
      some (r.append ⟨ts, payload⟩) := revise_some.mpr ⟨r, hr, by rw [if_pos rfl]⟩
  have hevolves' : Evolves t (found.2.revise found.1 (Interaction.append ⟨ts, payload⟩)) :=
    hevolves.trans (evolves_revise fun _ _ => ⟨rfl, fun _ => ⟨rfl, rfl⟩⟩)
  rw [hr', Option.map_some, Option.getD_some] at hres
  cases hcap : cap.any fun n => n ≤ ((r.append ⟨ts, payload⟩).turnCount : ℤ) with
  | true =>
    obtain ⟨-, hinv, hclose, hobject⟩ :=
      closeRecord_of_open happend hr' hopen .maxTurns ts none
    rw [if_pos hcap] at hres
    cases hres
    rw [hinv.filter_closed]
    exact ⟨hinv, hevolves'.trans hclose, _, hobject, hkey, fun _ => ⟨rfl, rfl⟩⟩
  | false =>
    rw [if_neg (by rw [hcap]; exact Bool.false_ne_true)] at hres
    cases hres
    rw [filter_open hr' hopen, List.append_nil]
    exact ⟨happend, hevolves', _, hr', hkey,
      fun hyes => absurd (hcap.symm.trans hyes) Bool.false_ne_true⟩

/-! ### What a call does -/

/-- The records that left the dictionary are those that were closed. -/
theorem Inv.left_iff (h : Inv t passed closed) (id : ℕ) : t.Left id ↔ id ∈ closed := by
  rw [h.closed_iff]
  constructor
  · rintro ⟨hlt, hout⟩
    have hr : t.object id = some t.records[id] := List.getElem?_eq_getElem hlt
    refine ⟨_, hr, eq_false_of_ne_true fun hopen => ?_⟩
    exact hout _ (h.filed id _ hr hopen)
  · rintro ⟨r, hr, hclosed⟩
    refine ⟨object_lt hr, fun key hmem => ?_⟩
    obtain ⟨r', hr', hopen, -⟩ := h.own key id hmem
    rw [hr] at hr'
    cases hr'
    rw [hclosed] at hopen
    cases hopen

variable [EmptyCollection P]

/-- What a single call does to a tracker that satisfies the invariant. -/
structure Event.Sound (cap : Option ℤ) (passed : List (ℕ × Turn T P)) (closed : List ℕ)
    (e : Event T P) : Prop where
  inv : Inv e.after (passed ++ e.passed.toList) (closed ++ e.closed)
  evolves : Evolves e.before e.after
  capped : ∀ scope payload o, e.call.op = .addTurn scope payload o →
    ∃ id r, e.returned = [id] ∧ e.after.object id = some r ∧ r.key = o.key scope ∧
      ((cap.any fun n => n ≤ (r.turnCount : ℤ)) = true →
        r.isOpen = false ∧ r.closeReason = some .maxTurns ∧ id ∈ e.closed)

variable [Sub T] [LE T] [DecidableLE T]

omit [Sub T] [LE T] [DecidableLE T] in
/-- A call that takes no turn and returns the records that it closed. -/
theorem Event.Sound.of_closing {cap : Option ℤ} {e : Event T P} (hpassed : e.passed = none)
    (hcall : ∀ scope payload o, e.call.op ≠ .addTurn scope payload o)
    (h : Inv e.after passed (closed ++ e.returned) ∧ Evolves e.before e.after) :
    e.Sound cap passed closed := by
  refine ⟨?_, h.2, fun scope payload o hop => absurd hop (hcall scope payload o)⟩
  rw [hpassed, Option.toList_none, List.append_nil, Event.closed, h.1.filter_closed]
  exact h.1

theorem perform_sound (detectors : List (Detector T)) (c : Call T P) (h : Inv t passed closed) :
    Event.Sound (detectors.findSome? Detector.turnCap) passed closed
      ⟨t, c, (perform detectors t c).1, (perform detectors t c).2⟩ := by
  obtain ⟨op, now, clock⟩ := c
  cases op with
  | start scope o =>
    obtain ⟨hinv, hevolves, r, hr, hopen, -⟩ :=
      start_spec h scope (Call.ts ⟨.start scope o, now, clock⟩) o
    refine ⟨?_, hevolves, fun _ _ _ hop => by cases hop⟩
    simp only [perform, Event.closed, filter_open hr hopen, Event.passed, Option.toList_none,
      List.append_nil]
    exact hinv
  | addTurn scope payload o =>
    rcases hres : t.addTurn (detectors.findSome? Detector.turnCap) scope (payload.getD ∅)
      (Call.ts ⟨.addTurn scope payload o, now, clock⟩) o with ⟨id, t'⟩
    obtain ⟨hinv, hevolves, r, hr, hkey, hcapped⟩ := addTurn_spec h _ scope _ _ o hres
    simp only [perform, hres]
    refine ⟨hinv, hevolves, ?_⟩
    intro scope' payload' o' hop
    cases hop
    refine ⟨_, r, rfl, hr, hkey, fun hfull => ?_⟩
    obtain ⟨hclosed, hreason⟩ := hcapped hfull
    refine ⟨hclosed, hreason, List.mem_filter.mpr ⟨List.mem_singleton.mpr rfl, ?_⟩⟩
    rw [Tracker.isOpen, hr, Option.any_some, hclosed]
    rfl
  | appendTurn id payload =>
    by_cases hopen : t.isOpen id = true
    · obtain ⟨r, hr, -⟩ := isOpen_iff.mp hopen
      refine ⟨?_, ?_, fun _ _ _ hop => by cases hop⟩
      · simp only [perform, Tracker.appendTurn, if_pos hopen, Event.passed, Event.closed,
          List.filter_nil, List.append_nil, Option.toList_some]
        exact h.append hr _
      · simp only [perform, Tracker.appendTurn, if_pos hopen]
        exact evolves_revise fun _ _ => ⟨rfl, fun _ => ⟨rfl, rfl⟩⟩
    · refine .of_closing ?_ (fun _ _ _ hop => by cases hop) ?_
      · simp only [Event.passed, if_neg hopen]
      · simp only [perform, Tracker.appendTurn, if_neg hopen, List.append_nil]
        exact ⟨h, .refl t⟩
  | closeRecord id reason complete =>
    exact .of_closing rfl (fun _ _ _ hop => by cases hop) (closeRecord_spec h id reason _ complete)
  | closeScope scope reason admits =>
    exact .of_closing rfl (fun _ _ _ hop => by cases hop) (closeEach_spec _ _ _ h)
  | idleCheck records =>
    exact .of_closing rfl (fun _ _ _ hop => by cases hop) (closeEach_spec _ _ _ h)
  | markStructural id reason =>
    refine .of_closing rfl (fun _ _ _ hop => by cases hop) ?_
    rw [perform, List.append_nil]
    exact ⟨h.mark id reason, evolves_revise fun _ _ => ⟨rfl, fun _ => ⟨rfl, rfl⟩⟩⟩

/-! ### What every sequence of calls keeps -/

omit [Sub T] [LE T] [DecidableLE T] in
/-- What the events of a run have in common with its last state. -/
structure Traced (maxTurns : ℤ) (t : Tracker T P) (events : List (Event T P)) : Prop where
  inv : Inv t (events.filterMap Event.passed) (events.flatMap Event.closed)
  evolves : ∀ e ∈ events, Evolves e.after t
  stays : ∀ e ∈ events, ∀ id, e.after.Left id → t.Left id
  leaves : ∀ e ∈ events, ∀ id, id ∈ e.closed ↔ ¬ e.before.Left id ∧ e.after.Left id
  capped : ∀ e ∈ events, ∀ scope payload o, e.call.op = .addTurn scope payload o →
    ∃ id r, e.returned = [id] ∧ e.after.object id = some r ∧ r.key = o.key scope ∧
      (maxTurns ≤ (r.turnCount : ℤ) →
        r.isOpen = false ∧ r.closeReason = some .maxTurns ∧ id ∈ e.closed)

omit [Sub T] [LE T] [DecidableLE T] in
theorem Traced.step {maxTurns : ℤ} {events : List (Event T P)} {e : Event T P}
    (h : Traced maxTurns e.before events)
    (hsound : e.Sound (some maxTurns) (events.filterMap Event.passed)
      (events.flatMap Event.closed)) : Traced maxTurns e.after (events ++ [e]) := by
  have hinv : Inv e.after ((events ++ [e]).filterMap Event.passed)
      ((events ++ [e]).flatMap Event.closed) := by
    rw [List.filterMap_append, List.flatMap_append, List.flatMap_singleton]
    have hpassed : [e].filterMap Event.passed = e.passed.toList := by
      cases hp : e.passed with
      | none => rw [List.filterMap_cons_none hp]; rfl
      | some p => rw [List.filterMap_cons_some hp]; rfl
    rw [hpassed]
    exact hsound.inv
  refine ⟨hinv, ?_, ?_, ?_, ?_⟩
  · intro e' he'
    rcases List.mem_append.mp he' with he' | he'
    · exact (h.evolves e' he').trans hsound.evolves
    · rw [List.mem_singleton.mp he']
      exact .refl _
  · intro e' he' id hleft
    rcases List.mem_append.mp he' with he' | he'
    · have hbefore := (h.inv.left_iff id).mp (h.stays e' he' id hleft)
      exact (hsound.inv.left_iff id).mpr (List.mem_append_left _ hbefore)
    · rw [List.mem_singleton.mp he'] at hleft
      exact hleft
  · intro e' he'
    rcases List.mem_append.mp he' with he' | he'
    · exact h.leaves e' he'
    · rw [List.mem_singleton.mp he']
      intro id
      rw [h.inv.left_iff, hsound.inv.left_iff, List.mem_append]
      have hdisjoint := (List.nodup_append.mp hsound.inv.nodup).2.2
      constructor
      · exact fun hid => ⟨fun hbefore => hdisjoint id hbefore id hid rfl, .inr hid⟩
      · rintro ⟨hbefore, hid | hid⟩
        · exact absurd hid hbefore
        · exact hid
  · intro e' he'
    rcases List.mem_append.mp he' with he' | he'
    · exact h.capped e' he'
    · rw [List.mem_singleton.mp he']
      intro scope payload o hop
      obtain ⟨id, r, hreturned, hr, hkey, hcap⟩ := hsound.capped scope payload o hop
      refine ⟨id, r, hreturned, hr, hkey, fun hfull => hcap ?_⟩
      rw [Option.any_some, decide_eq_true hfull]

theorem run_traced (detectors : List (Detector T)) {maxTurns : ℤ}
    (hcap : detectors.findSome? Detector.turnCap = some maxTurns) (calls : List (Call T P)) :
    Traced maxTurns (run detectors calls).1 (run detectors calls).2 := by
  induction calls using List.reverseRecOn with
  | nil =>
    exact ⟨.init, fun _ he => absurd he List.not_mem_nil, fun _ he => absurd he List.not_mem_nil,
      fun _ he => absurd he List.not_mem_nil, fun _ he => absurd he List.not_mem_nil⟩
  | append_singleton calls c ih =>
    rw [run, List.foldl_append, List.foldl_cons, List.foldl_nil]
    have hsound := perform_sound detectors c ih.inv
    rw [hcap] at hsound
    exact ih.step hsound

omit [Sub T] [LE T] [DecidableLE T] in
theorem Traced.kept {maxTurns : ℤ} {t : Tracker T P} {events : List (Event T P)}
    (h : Traced maxTurns t events) : Kept maxTurns t events where
  one_per_key := t.opened.distinct
  own_key := h.inv.own
  turns := h.inv.turns
  passed_known := h.inv.known
  capped := h.capped
  closed_iff_left := by
    intro id r hr
    rw [h.inv.left_iff, h.inv.closed_iff]
    constructor
    · exact fun hclosed => ⟨r, hr, hclosed⟩
    · rintro ⟨r', hr', hclosed⟩
      rw [hr] at hr'
      cases hr'
      exact hclosed
  returned_once := h.inv.nodup
  left_iff_returned := h.inv.left_iff
  returned_iff_leaves := h.leaves
  stays_out := h.stays
  settled := by
    intro e he id r hr hclosed
    obtain ⟨r', hr', -, hsame⟩ := h.evolves e he id r hr
    exact ⟨r', hr', hsame hclosed⟩

/-- Whatever the calls on a tracker with the default detectors and whatever its clock says, no
turn and no record is lost, and none is there twice. -/
theorem tracker_kept (idleTimeoutSec : T) (maxTurns : ℤ) (calls : List (Call T P)) :
    Kept maxTurns (run (defaultDetectors idleTimeoutSec maxTurns) calls).1
      (run (defaultDetectors idleTimeoutSec maxTurns) calls).2 :=
  (run_traced _ rfl calls).kept

end Persatrix.Tracking
