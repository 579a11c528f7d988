import Persatrix.FactTable
import Persatrix.System
import Mathlib.Data.List.Nodup

/-!
# Commitments

A commitment is made open and closed once. Calls overlap: each of them reads the clock, and waits
for one statement after the other. The cap is in the statement that inserts, so that no two calls
can pass it at once; it counts the open rows of an agent in an epoch that were not due when the
call read the clock.
-/
namespace Persatrix.Commitments
open Agents (strip blank legacySessionID)

inductive CommitmentState where
  | open
  | fulfilled
  | missed
  | cancelled
deriving DecidableEq

/-- A row of the table is a commitment or someone's directive. -/
inductive Kind where
  | commitment
  | directive
deriving DecidableEq

structure Commitment (T : Type) where
  id : String
  agentID : String
  kind : Kind
  description : String
  dueAt : T
  targetParty : Option String
  createdAt : T
  state : CommitmentState
  fulfilledAt : Option T
  sourceInteractionID : Option String
  tags : List String
  sessionID : String
  principalID : String
  epochID : String
  protectionLevel : String
deriving DecidableEq

inductive CommitmentError where
  | typeError (message : String)
  | valueError (message : String)
  | integrityError
  | capError (message : String)
  | notFound (id : String)
  | closed (id : String) (state : CommitmentState)
deriving DecidableEq

def maxDescriptionChars : ℕ := 1000

def maxOpenCommitments : ℕ := 500

/-! ### The scope of a call -/

def normalizeSessionID (value : String) : String :=
  if strip value = "" then legacySessionID else strip value

/-- What the turn has bound: a session is bound in its normal form. -/
structure Scope where
  agentID : String
  sessionID : String
  principalID : String
  epochID : String
  normalized : normalizeSessionID sessionID = sessionID

def resolveSessionList (sessionID : String) : List String :=
  if sessionID = legacySessionID then [sessionID] else [sessionID, legacySessionID]

variable {T : Type}

def Scope.sees (σ : Scope) (r : Commitment T) : Bool :=
  r.agentID = σ.agentID && r.kind = .commitment && r.sessionID ∈ resolveSessionList σ.sessionID &&
    r.principalID = σ.principalID && r.epochID = σ.epochID

/-! ### What a call is given -/

/-- An argument of the type that is asked for, or of one with another name. -/
inductive Argument (α : Type) where
  | value (a : α)
  | other (typeName : String)

/-- A number of seconds as a float: a time, or what it is shown as where it is not finite. -/
inductive Seconds (T : Type) where
  | finite (t : T)
  | nonfinite (shown : String)

inductive Tags where
  | text
  | notIterable (typeName : String)
  | items (tags : List (Argument String))

structure CreateArgs (T : Type) where
  description : Argument String
  dueAt : Argument (Seconds T)
  targetParty : Option (Argument String)
  sourceInteractionID : Option String
  tags : Tags
  protectionLevel : String

def checkText (value : Argument String) (field : String) : Except CommitmentError String :=
  match value with
  | .other typeName => .error (.typeError (field ++ " must be text; got " ++ typeName))
  | .value s =>
    if maxDescriptionChars < (strip s).length then
      .error (.valueError (field ++ " is " ++ toString (strip s).length ++
        " characters; a commitment's is at most " ++ toString maxDescriptionChars ++ " characters"))
    else .ok (strip s)

def checkDescription (description : Argument String) : Except CommitmentError String :=
  match description with
  | .other _ => .error (.valueError "description must be non-empty text")
  | .value s =>
    if blank s then .error (.valueError "description must be non-empty text")
    else checkText (.value s) "description"

def checkDueAt (dueAt : Argument (Seconds T)) : Except CommitmentError T :=
  match dueAt with
  | .other typeName => .error (.typeError ("due_at must be epoch seconds; got " ++ typeName))
  | .value (.nonfinite shown) =>
    .error (.valueError ("due_at must be a finite time; got " ++ shown))
  | .value (.finite t) => .ok t

def Argument.get : Argument String → Option String
  | .value s => some s
  | .other _ => none

def checkTags (tags : Tags) : Except CommitmentError (List String) :=
  match tags with
  | .text => .error (.typeError "tags must be a list of strings, not one string")
  | .notIterable typeName => .error (.typeError ("'" ++ typeName ++ "' object is not iterable"))
  | .items tags =>
    match tags.mapM Argument.get with
    | none => .error (.typeError "tags must all be strings")
    | some checked => .ok checked

def checkTarget (target : Option (Argument String)) : Except CommitmentError (Option String) :=
  match target with
  | none => .ok none
  | some target => do
    let text ← checkText target "target_party"
    pure (if text = "" then none else some text)

/-- The row of a commitment that is made now. -/
def newRow (σ : Scope) (args : CreateArgs T) (id : String) (now : T) :
    Except CommitmentError (Commitment T) := do
  let text ← checkDescription args.description
  let due ← checkDueAt args.dueAt
  let tags ← checkTags args.tags
  let target ← checkTarget args.targetParty
  pure {
    id := id
    agentID := σ.agentID
    kind := .commitment
    description := text
    dueAt := due
    targetParty := target
    createdAt := now
    state := .open
    fulfilledAt := none
    sourceInteractionID := args.sourceInteractionID
    tags := tags
    sessionID := normalizeSessionID σ.sessionID
    principalID := σ.principalID
    epochID := σ.epochID
    protectionLevel := args.protectionLevel }

/-! ### The statements -/

section
variable [LinearOrder T]

/-- The open rows of an agent in an epoch that are not due before a time. -/
def openCount (db : List (Commitment T)) (agentID epochID : String) (now : T) : ℕ :=
  db.countP fun r => r.agentID = agentID && r.kind = .commitment && r.state = .open &&
    decide (now ≤ r.dueAt) && r.epochID = epochID

/-- The table and the number of rows that were inserted. An id that is taken breaks the primary key,
and to SQLite a text ends at its first NUL, so that a description that begins with one is empty. -/
def insertUnderCap (db : List (Commitment T)) (row : Commitment T) (now : T) :
    Except CommitmentError (List (Commitment T) × ℕ) :=
  if maxOpenCommitments ≤ openCount db row.agentID row.epochID now then .ok (db, 0)
  else if row.id ∈ db.map Commitment.id ∨ row.description.toList.head? = some (Char.ofNat 0) then
    .error .integrityError
  else .ok (db ++ [row], 1)

end

/-- Whether the statement that closes meets the row. -/
def Scope.closes (σ : Scope) (id : String) (r : Commitment T) : Bool :=
  r.id = id && r.state = .open && σ.sees r

inductive Closing where
  | fulfill
  | cancel
deriving DecidableEq

def Closing.state : Closing → CommitmentState
  | .fulfill => .fulfilled
  | .cancel => .cancelled

def closeRow (σ : Scope) (id : String) (closing : Closing) (fulfilledAt : Option T)
    (r : Commitment T) : Commitment T :=
  if σ.closes id r then { r with state := closing.state, fulfilledAt := fulfilledAt } else r

/-- The table and the number of rows that were closed. -/
def closeRows (db : List (Commitment T)) (σ : Scope) (id : String) (closing : Closing)
    (fulfilledAt : Option T) : List (Commitment T) × ℕ :=
  (db.map (closeRow σ id closing fulfilledAt), db.countP (σ.closes id))

def selectOne (db : List (Commitment T)) (σ : Scope) (id : String) : Option (Commitment T) :=
  db.find? fun r => r.id = id && σ.sees r

/-! ### Calls in flight -/

inductive Call (T : Type) where
  | create (σ : Scope) (args : CreateArgs T) (id : String)
  | close (σ : Scope) (id : String) (closing : Closing)

def Call.scope : Call T → Scope
  | .create σ _ _ => σ
  | .close σ _ _ => σ

inductive Outcome (T : Type) where
  | created (id : String)
  | returned (r : Commitment T)
  | failed (e : CommitmentError)
deriving DecidableEq

/-- The statement that a call awaits, with what it has read. -/
inductive Waiting (T : Type) where
  | insert (row : Commitment T) (now : T)
  | commitInsert (id : String) (rowcount : ℕ)
  | update (σ : Scope) (id : String) (closing : Closing) (fulfilledAt : Option T)
  | commitUpdate (σ : Scope) (id : String) (rowcount : ℕ)
  | get (σ : Scope) (id : String) (rowcount : ℕ)
  | finished (o : Outcome T)

/-- A call up to its first statement. -/
def beginCall (now : T) : Call T → Waiting T
  | .create σ args id =>
    match newRow σ args id now with
    | .error e => .finished (.failed e)
    | .ok row => .insert row now
  | .close σ id closing =>
    .update σ id closing (if closing = .fulfill then some now else none)

def capMessage : String :=
  "already " ++ toString maxOpenCommitments ++ " open commitments not yet due, counted across " ++
    "every person and room; another can be made once one falls due, or is fulfilled or cancelled " ++
    "where it was made"

/-- What a call returns or raises once it has read its commitment. -/
def afterGet (id : String) (rowcount : ℕ) : Option (Commitment T) → Outcome T
  | none => .failed (.notFound id)
  | some r => if rowcount ≠ 1 then .failed (.closed id r.state) else .returned r

/-- A statement, and the call up to its next one. -/
def execute [LinearOrder T] (db : List (Commitment T)) :
    Waiting T → Option (List (Commitment T) × Waiting T)
  | .insert row now =>
    match insertUnderCap db row now with
    | .error e => some (db, .finished (.failed e))
    | .ok (db', rowcount) => some (db', .commitInsert row.id rowcount)
  | .commitInsert id rowcount =>
    some (db, .finished (if rowcount ≠ 1 then .failed (.capError capMessage) else .created id))
  | .update σ id closing fulfilledAt =>
    some ((closeRows db σ id closing fulfilledAt).1,
      .commitUpdate σ id (closeRows db σ id closing fulfilledAt).2)
  | .commitUpdate σ id rowcount => some (db, .get σ id rowcount)
  | .get σ id rowcount => some (db, .finished (afterGet id rowcount (selectOne db σ id)))
  | .finished _ => none

structure CallTask (T : Type) where
  call : Call T
  waiting : Waiting T

/-- The clock, the table, the calls, and which of them have changed the table. -/
structure State (T : Type) where
  clock : T
  db : List (Commitment T)
  tasks : List (CallTask T)
  writes : List ℕ

inductive Event (T : Type) where
  | tick (now : T)
  | call (call : Call T)
  | run (k : ℕ)

def store [LinearOrder T] (start : T) : System (State T) (Event T) where
  init := ⟨start, [], [], []⟩
  step := fun s e =>
    match e with
    | .tick now => if s.clock ≤ now then some { s with clock := now } else none
    | .call call => some { s with tasks := s.tasks ++ [⟨call, beginCall s.clock call⟩] }
    | .run k =>
      s.tasks[k]?.bind fun task =>
        (execute s.db task.waiting).map fun p => { s with
          db := p.1
          tasks := s.tasks.set k { task with waiting := p.2 }
          writes := if p.1 = s.db then s.writes else k :: s.writes }

/-! ### What is promised -/

/-- A row stays as it is, or is open and closed. -/
def Evolves (r r' : Commitment T) : Prop :=
  r' = r ∨ r.state = .open ∧ ∃ (closing : Closing) (fulfilledAt : Option T),
    r' = { r with state := closing.state, fulfilledAt := fulfilledAt }

/-- What a call tells of the table is about a row that it sees. -/
def Reveals (db : List (Commitment T)) (σ : Scope) : Outcome T → Prop
  | .returned r => r ∈ db ∧ σ.sees r
  | .failed (.closed id state) => ∃ r ∈ db, σ.sees r ∧ r.id = id ∧ r.state = state
  | _ => True

section
variable [LinearOrder T]

structure Kept (s : State T) : Prop where
  ids : (s.db.map Commitment.id).Nodup
  fulfilled : ∀ r ∈ s.db, r.fulfilledAt.isSome = true ↔ r.state = .fulfilled
  cap : ∀ agentID epochID, openCount s.db agentID epochID s.clock ≤ maxOpenCommitments
  failed : ∀ k call e, s.tasks[k]? = some ⟨call, .finished (.failed e)⟩ → k ∉ s.writes

/-- What one step does to the table. -/
structure Steps (s : State T) (e : Event T) (t : State T) : Prop where
  evolves : ∀ r ∈ s.db, ∃ r' ∈ t.db, Evolves r r'
  made : ∀ r' ∈ t.db, (∃ r ∈ s.db, r.id = r'.id) ∨ r'.state = .open
  idle : (∀ k, e ≠ .run k) → t.db = s.db
  unseen : ∀ k task, e = .run k → s.tasks[k]? = some task →
    t.db.filter (!task.call.scope.sees ·) = s.db.filter (!task.call.scope.sees ·)
  reveals : ∀ k call o, e = .run k → t.tasks[k]? = some ⟨call, .finished o⟩ →
    Reveals s.db call.scope o

/-- A call that closes goes on in the same way whatever is in the rows that it does not see. -/
def Blind (s : State T) : Prop :=
  ∀ (k : ℕ) (σ : Scope) (id : String) (closing : Closing) (waiting : Waiting T),
    s.tasks[k]? = some ⟨.close σ id closing, waiting⟩ → ∀ db, db.filter σ.sees = s.db.filter σ.sees →
      (execute db waiting).map Prod.snd = (execute s.db waiting).map Prod.snd

end

/-! ### Rows -/

section
variable {r r' r'' : Commitment T} {db : List (Commitment T)} {σ : Scope} {id : String}
  {closing : Closing} {fulfilledAt : Option T}

theorem Closing.state_ne_open (closing : Closing) : closing.state ≠ .open := by
  cases closing with
  | fulfill => exact CommitmentState.noConfusion
  | cancel => exact CommitmentState.noConfusion

theorem Evolves.trans (h : Evolves r r') (h' : Evolves r' r'') : Evolves r r'' := by
  rcases h with rfl | ⟨hopen, closing, fulfilledAt, rfl⟩
  · exact h'
  · rcases h' with rfl | ⟨hstill, -⟩
    · exact .inr ⟨hopen, closing, fulfilledAt, rfl⟩
    · exact absurd hstill closing.state_ne_open

theorem Evolves.id_eq (h : Evolves r r') : r'.id = r.id := by
  rcases h with rfl | ⟨-, closing, fulfilledAt, rfl⟩
  · rfl
  · rfl

theorem Evolves.sees (h : Evolves r r') (σ : Scope) : σ.sees r' = σ.sees r := by
  rcases h with rfl | ⟨-, closing, fulfilledAt, rfl⟩
  · rfl
  · rfl

theorem evolves_closeRow (r : Commitment T) : Evolves r (closeRow σ id closing fulfilledAt r) := by
  unfold closeRow
  split_ifs with hcloses
  · have hopen : r.state = .open := by
      unfold Scope.closes at hcloses
      simp only [Bool.and_eq_true, decide_eq_true_eq] at hcloses
      exact hcloses.1.2
    exact .inr ⟨hopen, closing, fulfilledAt, rfl⟩
  · exact .inl rfl

theorem closeRow_id (r : Commitment T) : (closeRow σ id closing fulfilledAt r).id = r.id :=
  (evolves_closeRow r).id_eq

theorem sees_of_closes (h : σ.closes id r = true) : r.id = id ∧ σ.sees r = true := by
  unfold Scope.closes at h
  simp only [Bool.and_eq_true, decide_eq_true_eq] at h
  exact ⟨h.1.1, h.2⟩

theorem closeRows_unseen :
    (closeRows db σ id closing fulfilledAt).1.filter (!σ.sees ·) = db.filter (!σ.sees ·) := by
  unfold closeRows
  dsimp only
  rw [List.filter_map]
  have hsame : db.filter ((!σ.sees ·) ∘ closeRow σ id closing fulfilledAt) =
      db.filter (!σ.sees ·) := by
    apply List.filter_congr
    intro r _
    rw [Function.comp_apply, (evolves_closeRow r).sees]
  rw [hsame]
  refine (List.map_congr_left fun r hr => ?_).trans (List.map_id _)
  have hunseen := (List.mem_filter.mp hr).2
  rw [closeRow, if_neg]
  · rfl
  · intro hcloses
    rw [(sees_of_closes hcloses).2] at hunseen
    cases hunseen

/-- No row is closed, and the table stays as it is, or one is. -/
theorem closeRows_cases (hids : (db.map Commitment.id).Nodup) :
    (closeRows db σ id closing fulfilledAt = (db, 0)) ∨
      ∃ r ∈ db, r.id = id ∧ σ.sees r = true ∧ (closeRows db σ id closing fulfilledAt).2 = 1 := by
  by_cases hnone : ∀ r ∈ db, σ.closes id r = false
  · left
    unfold closeRows
    rw [List.countP_eq_zero.mpr (fun r hr => by rw [hnone r hr]; exact Bool.false_ne_true)]
    refine Prod.ext ((List.map_congr_left fun r hr => ?_).trans (List.map_id _)) rfl
    rw [closeRow, hnone r hr]
    rfl
  · right
    push Not at hnone
    obtain ⟨r, hr, hcloses⟩ := hnone
    rw [ne_eq, Bool.not_eq_false] at hcloses
    obtain ⟨hid, hsees⟩ := sees_of_closes hcloses
    refine ⟨r, hr, hid, hsees, ?_⟩
    change db.countP (σ.closes id) = 1
    have hle : db.countP (σ.closes id) ≤ (db.map Commitment.id).count id := by
      rw [List.count, List.countP_map]
      refine List.countP_mono_left fun a _ ha => ?_
      rw [Function.comp_apply, (sees_of_closes ha).1]
      exact beq_self_eq_true id
    have hone := List.nodup_iff_count_le_one.mp hids id
    have hpos := List.countP_pos_iff.mpr ⟨r, hr, hcloses⟩
    omega

theorem selectOne_filter (db : List (Commitment T)) (σ : Scope) (id : String) :
    selectOne (db.filter σ.sees) σ id = selectOne db σ id := by
  unfold selectOne
  rw [List.find?_filter]
  congr 1
  funext r
  cases σ.sees r with
  | false => simp
  | true => simp

theorem countP_closes_filter (db : List (Commitment T)) (σ : Scope) (id : String) :
    (db.filter σ.sees).countP (σ.closes id) = db.countP (σ.closes id) := by
  rw [List.countP_filter]
  congr 1
  funext r
  cases hcloses : σ.closes id r with
  | false => rfl
  | true => rw [(sees_of_closes hcloses).2]; rfl

theorem selectOne_eq_some {db : List (Commitment T)} (h : selectOne db σ id = some r) :
    r ∈ db ∧ r.id = id ∧ σ.sees r = true := by
  have hfound := List.find?_some h
  simp only [Bool.and_eq_true, decide_eq_true_eq] at hfound
  exact ⟨List.mem_of_find?_eq_some h, hfound.1, hfound.2⟩

theorem sees_newRow {args : CreateArgs T} {id : String} {now : T} {row : Commitment T}
    (h : newRow σ args id now = .ok row) :
    row.state = .open ∧ row.fulfilledAt = none ∧ σ.sees row = true := by
  unfold newRow at h
  cases htext : checkDescription args.description with
  | error e => rw [htext] at h; cases h
  | ok text =>
    cases hdue : checkDueAt args.dueAt with
    | error e => rw [htext, hdue] at h; cases h
    | ok due =>
      cases htags : checkTags args.tags with
      | error e => rw [htext, hdue, htags] at h; cases h
      | ok tags =>
        cases htarget : checkTarget args.targetParty with
        | error e => rw [htext, hdue, htags, htarget] at h; cases h
        | ok target =>
          rw [htext, hdue, htags, htarget] at h
          cases h
          refine ⟨rfl, rfl, ?_⟩
          have hsession : σ.sessionID ∈ resolveSessionList σ.sessionID := by
            unfold resolveSessionList
            split_ifs
            · exact List.mem_singleton.mpr rfl
            · exact List.mem_cons_self
          simp [Scope.sees, σ.normalized, hsession]

theorem steps_of_idle {s t : State T} {e : Event T} (hidle : ∀ k, e ≠ .run k) (hdb : t.db = s.db) :
    Steps s e t := by
  refine ⟨fun r hr => ⟨r, hdb ▸ hr, .inl rfl⟩, fun r hr => .inl ⟨r, hdb ▸ hr, rfl⟩, fun _ => hdb,
    fun k task hrun => absurd hrun (hidle k), fun k call o hrun => absurd hrun (hidle k)⟩

end

/-! ### What one statement does -/

section
variable [LinearOrder T] {db db' : List (Commitment T)} {waiting waiting' : Waiting T}

theorem openCount_closeRows (db : List (Commitment T)) (σ : Scope) (id : String)
    (closing : Closing) (fulfilledAt : Option T) (agentID epochID : String) (now : T) :
    openCount (closeRows db σ id closing fulfilledAt).1 agentID epochID now ≤
      openCount db agentID epochID now := by
  unfold openCount closeRows
  rw [List.countP_map]
  refine List.countP_mono_left fun r _ hr => ?_
  rw [Function.comp_apply] at hr
  have hrow : Evolves r (closeRow σ id closing fulfilledAt r) := evolves_closeRow r
  rcases hrow with heq | ⟨-, closing', fulfilledAt', heq⟩
  · rw [heq] at hr
    exact hr
  · rw [heq] at hr
    simp only [Bool.and_eq_true, decide_eq_true_eq] at hr
    exact absurd hr.1.1.2 closing'.state_ne_open

theorem openCount_anti (db : List (Commitment T)) (agentID epochID : String) {now later : T}
    (h : now ≤ later) : openCount db agentID epochID later ≤ openCount db agentID epochID now := by
  unfold openCount
  refine List.countP_mono_left fun r _ hr => ?_
  simp only [Bool.and_eq_true, decide_eq_true_eq] at hr ⊢
  exact ⟨⟨hr.1.1, h.trans hr.1.2⟩, hr.2⟩

/-- A statement leaves the table as it is, inserts a row under the cap or closes rows. -/
inductive Changes (db : List (Commitment T)) : Waiting T → List (Commitment T) → Waiting T → Prop
  | same {waiting waiting' : Waiting T} : Changes db waiting db waiting'
  | inserted {row : Commitment T} {now : T}
      (below : openCount db row.agentID row.epochID now < maxOpenCommitments)
      (fresh : row.id ∉ db.map Commitment.id) :
      Changes db (.insert row now) (db ++ [row]) (.commitInsert row.id 1)
  | closed (σ : Scope) (id : String) (closing : Closing) (fulfilledAt : Option T) :
      Changes db (.update σ id closing fulfilledAt) (closeRows db σ id closing fulfilledAt).1
        (.commitUpdate σ id (closeRows db σ id closing fulfilledAt).2)

theorem insertUnderCap_cases (db : List (Commitment T)) (row : Commitment T) (now : T) :
    insertUnderCap db row now = .ok (db, 0) ∨ insertUnderCap db row now = .error .integrityError ∨
      openCount db row.agentID row.epochID now < maxOpenCommitments ∧
        row.id ∉ db.map Commitment.id ∧ insertUnderCap db row now = .ok (db ++ [row], 1) := by
  unfold insertUnderCap
  split_ifs with hfull htaken
  · exact .inl rfl
  · exact .inr (.inl rfl)
  · exact .inr (.inr ⟨not_le.mp hfull, fun hmem => htaken (.inl hmem), rfl⟩)

theorem changes_of_execute (h : execute db waiting = some (db', waiting')) :
    Changes db waiting db' waiting' := by
  cases waiting with
  | insert row now =>
    rcases insertUnderCap_cases db row now with hfull | herror | ⟨hbelow, hfresh, hinserted⟩
    · rw [execute, hfull] at h
      cases h
      exact .same
    · rw [execute, herror] at h
      cases h
      exact .same
    · rw [execute, hinserted] at h
      cases h
      exact .inserted hbelow hfresh
  | commitInsert id rowcount =>
    cases h
    exact .same
  | update σ id closing fulfilledAt =>
    cases h
    exact .closed σ id closing fulfilledAt
  | commitUpdate σ id rowcount =>
    cases h
    exact .same
  | get σ id rowcount =>
    cases h
    exact .same
  | finished o => cases h

theorem Changes.evolves (h : Changes db waiting db' waiting') :
    ∀ r ∈ db, ∃ r' ∈ db', Evolves r r' := by
  intro r hr
  cases h with
  | same => exact ⟨r, hr, .inl rfl⟩
  | inserted => exact ⟨r, List.mem_append_left _ hr, .inl rfl⟩
  | closed σ id closing fulfilledAt =>
    exact ⟨_, List.mem_map_of_mem hr, evolves_closeRow r⟩

/-! ### The invariant -/

/-- What a waiting call has read still holds of the table, and until its statement has met a row it
has not changed it. -/
def Grounded (clock : T) (db : List (Commitment T)) (writes : List ℕ) (k : ℕ) (σ : Scope) :
    Waiting T → Prop
  | .insert row now => k ∉ writes ∧ row.state = .open ∧ row.fulfilledAt = none ∧
      σ.sees row = true ∧ now ≤ clock
  | .commitInsert _ rowcount => rowcount ≠ 1 → k ∉ writes
  | .update σ' _ closing fulfilledAt =>
    k ∉ writes ∧ σ' = σ ∧ (fulfilledAt.isSome = true ↔ closing = .fulfill)
  | .commitUpdate σ' id rowcount => σ' = σ ∧ (rowcount ≠ 1 → k ∉ writes) ∧
      (rowcount = 1 → ∃ r ∈ db, r.id = id ∧ σ.sees r = true)
  | .get σ' id rowcount => σ' = σ ∧ (rowcount ≠ 1 → k ∉ writes) ∧
      (rowcount = 1 → ∃ r ∈ db, r.id = id ∧ σ.sees r = true)
  | .finished (.failed _) => k ∉ writes
  | .finished _ => True

/-- A call that closes waits for no insertion. -/
def Waiting.closing : Waiting T → Bool
  | .insert _ _ => false
  | .commitInsert _ _ => false
  | _ => true

structure Inv (s : State T) : Prop where
  ids : (s.db.map Commitment.id).Nodup
  fulfilled : ∀ r ∈ s.db, r.fulfilledAt.isSome = true ↔ r.state = .fulfilled
  cap : ∀ agentID epochID, openCount s.db agentID epochID s.clock ≤ maxOpenCommitments
  known : ∀ k ∈ s.writes, k < s.tasks.length
  grounded : ∀ (k : ℕ) (task : CallTask T), s.tasks[k]? = some task →
    Grounded s.clock s.db s.writes k task.call.scope task.waiting
  closing : ∀ (k : ℕ) (σ : Scope) (id : String) (closing : Closing) (waiting : Waiting T),
    s.tasks[k]? = some ⟨.close σ id closing, waiting⟩ → waiting.closing = true

variable {clock clock' : T} {writes writes' : List ℕ} {k : ℕ} {σ : Scope}

/-- What another call does leaves it so. -/
theorem Grounded.mono (h : Grounded clock db writes k σ waiting) (hclock : clock ≤ clock')
    (hevolves : ∀ r ∈ db, ∃ r' ∈ db', Evolves r r') (hwrites : k ∈ writes' → k ∈ writes) :
    Grounded clock' db' writes' k σ waiting := by
  have hthere : ∀ {id : String}, (∃ r ∈ db, r.id = id ∧ σ.sees r = true) →
      ∃ r ∈ db', r.id = id ∧ σ.sees r = true := by
    rintro id ⟨r, hr, hid, hsees⟩
    obtain ⟨r', hr', hr⟩ := hevolves r hr
    exact ⟨r', hr', hr.id_eq.trans hid, (hr.sees σ).trans hsees⟩
  cases waiting with
  | insert row now =>
    exact ⟨fun hk => h.1 (hwrites hk), h.2.1, h.2.2.1, h.2.2.2.1, h.2.2.2.2.trans hclock⟩
  | commitInsert id rowcount => exact fun hrows hk => h hrows (hwrites hk)
  | update σ' id closing fulfilledAt => exact ⟨fun hk => h.1 (hwrites hk), h.2⟩
  | commitUpdate σ' id rowcount =>
    exact ⟨h.1, fun hrows hk => h.2.1 hrows (hwrites hk), fun hone => hthere (h.2.2 hone)⟩
  | get σ' id rowcount =>
    exact ⟨h.1, fun hrows hk => h.2.1 hrows (hwrites hk), fun hone => hthere (h.2.2 hone)⟩
  | finished o =>
    cases o with
    | created id => trivial
    | returned r => trivial
    | failed e => exact fun hk => h (hwrites hk)

theorem grounded_beginCall (call : Call T) (hk : k ∉ writes) :
    Grounded clock db writes k call.scope (beginCall clock call) := by
  cases call with
  | create σ args id =>
    cases hrow : newRow σ args id clock with
    | error e =>
      have hbegin : beginCall clock (.create σ args id) = .finished (.failed e) := by
        rw [beginCall, hrow]
      rw [hbegin]
      exact hk
    | ok row =>
      have hbegin : beginCall clock (.create σ args id) = .insert row clock := by
        rw [beginCall, hrow]
      obtain ⟨hopen, hfulfilled, hsees⟩ := sees_newRow hrow
      rw [hbegin]
      exact ⟨hk, hopen, hfulfilled, hsees, le_rfl⟩
  | close σ id closing =>
    refine ⟨hk, rfl, ?_⟩
    cases closing with
    | fulfill => simp
    | cancel => simp

theorem grounded_execute (h : Grounded clock db writes k σ waiting)
    (hids : (db.map Commitment.id).Nodup) (hrun : execute db waiting = some (db', waiting')) :
    Grounded clock db' (if db' = db then writes else k :: writes) k σ waiting' := by
  cases waiting with
  | insert row now =>
    rcases insertUnderCap_cases db row now with hfull | herror | ⟨-, -, hinserted⟩
    · rw [execute, hfull] at hrun
      cases hrun
      rw [if_pos rfl]
      exact fun _ => h.1
    · rw [execute, herror] at hrun
      cases hrun
      rw [if_pos rfl]
      exact h.1
    · rw [execute, hinserted] at hrun
      cases hrun
      exact fun hone => absurd rfl hone
  | commitInsert id rowcount =>
    cases hrun
    rw [if_pos rfl]
    by_cases hone : rowcount ≠ 1
    · rw [if_pos hone]
      exact h hone
    · rw [if_neg hone]
      trivial
  | update σ' id closing fulfilledAt =>
    cases hrun
    obtain ⟨hk, rfl, -⟩ := h
    have hcases : closeRows db σ' id closing fulfilledAt = (db, 0) ∨
        ∃ r ∈ db, r.id = id ∧ σ'.sees r = true ∧
          (closeRows db σ' id closing fulfilledAt).2 = 1 := closeRows_cases hids
    rcases hcases with hnone | ⟨r, hr, hid, hsees, hone⟩
    · rw [hnone, if_pos rfl]
      exact ⟨rfl, fun _ => hk, fun hzero => absurd hzero Nat.zero_ne_one⟩
    · refine ⟨rfl, fun hrows => absurd hone hrows, fun _ => ?_⟩
      exact ⟨_, List.mem_map_of_mem hr, (closeRow_id r).trans hid,
        ((evolves_closeRow r).sees σ').trans hsees⟩
  | commitUpdate σ' id rowcount =>
    cases hrun
    rw [if_pos rfl]
    exact h
  | get σ' id rowcount =>
    cases hrun
    obtain ⟨rfl, hfailed, hthere⟩ := h
    rw [if_pos rfl]
    by_cases hone : rowcount = 1
    · cases hfound : selectOne db σ' id with
      | none =>
        obtain ⟨r, hr, hid, hsees⟩ := hthere hone
        have hnone := List.find?_eq_none.mp hfound r hr
        simp [hid, hsees] at hnone
      | some r =>
        rw [afterGet, if_neg (not_not.mpr hone)]
        trivial
    · cases hfound : selectOne db σ' id with
      | none => exact hfailed hone
      | some r =>
        rw [afterGet, if_pos hone]
        exact hfailed hone
  | finished o => cases hrun

theorem closing_execute (h : waiting.closing = true)
    (hrun : execute db waiting = some (db', waiting')) : waiting'.closing = true := by
  cases waiting with
  | insert row now => cases h
  | commitInsert id rowcount => cases h
  | update σ id closing fulfilledAt =>
    cases hrun
    rfl
  | commitUpdate σ id rowcount =>
    cases hrun
    rfl
  | get σ id rowcount =>
    cases hrun
    rfl
  | finished o => cases hrun

/-! ### What a step preserves -/

theorem Changes.ids (h : Changes db waiting db' waiting') (hids : (db.map Commitment.id).Nodup) :
    (db'.map Commitment.id).Nodup := by
  cases h with
  | same => exact hids
  | inserted _ hfresh =>
    rw [List.map_append, List.map_singleton, List.nodup_append]
    refine ⟨hids, List.nodup_singleton _, fun a ha b hb heq => ?_⟩
    rw [List.mem_singleton.mp hb] at heq
    exact hfresh (heq ▸ ha)
  | closed σ id closing fulfilledAt =>
    unfold closeRows
    rw [List.map_map]
    have hsame : Commitment.id ∘ closeRow σ id closing fulfilledAt = Commitment.id := by
      funext r
      exact closeRow_id r
    rw [hsame]
    exact hids

theorem Changes.fulfilled (h : Changes db waiting db' waiting')
    (hgrounded : Grounded clock db writes k σ waiting)
    (hfulfilled : ∀ r ∈ db, r.fulfilledAt.isSome = true ↔ r.state = .fulfilled) :
    ∀ r ∈ db', r.fulfilledAt.isSome = true ↔ r.state = .fulfilled := by
  cases h with
  | same => exact hfulfilled
  | inserted =>
    intro r hr
    rcases List.mem_append.mp hr with hr | hr
    · exact hfulfilled r hr
    · obtain ⟨-, hopen, hnone, -⟩ := hgrounded
      rw [List.mem_singleton.mp hr, hopen, hnone]
      simp
  | closed σ' id closing fulfilledAt =>
    intro r' hr'
    obtain ⟨r, hr, rfl⟩ := List.mem_map.mp hr'
    unfold closeRow
    split_ifs with hcloses
    · obtain ⟨-, -, hset⟩ := hgrounded
      dsimp only
      rw [hset]
      cases closing with
      | fulfill => simp [Closing.state]
      | cancel => simp [Closing.state]
    · exact hfulfilled r hr

/-- A row is inserted where there is room for it at the time that the call read, and no more rows
count later. -/
theorem Changes.cap (h : Changes db waiting db' waiting')
    (hgrounded : Grounded clock db writes k σ waiting)
    (hcap : ∀ agentID epochID, openCount db agentID epochID clock ≤ maxOpenCommitments)
    (agentID epochID : String) : openCount db' agentID epochID clock ≤ maxOpenCommitments := by
  cases h with
  | same => exact hcap agentID epochID
  | @inserted row now hbelow _ =>
    have hlater := openCount_anti db row.agentID row.epochID hgrounded.2.2.2.2
    by_cases hrow : row.agentID = agentID ∧ row.epochID = epochID
    · obtain ⟨rfl, rfl⟩ := hrow
      have hone : openCount (db ++ [row]) row.agentID row.epochID clock ≤
          openCount db row.agentID row.epochID clock + 1 := by
        unfold openCount
        rw [List.countP_append]
        exact Nat.add_le_add_left List.countP_le_length _
      omega
    · have hsame : openCount (db ++ [row]) agentID epochID clock =
          openCount db agentID epochID clock := by
        unfold openCount
        rw [List.countP_append, Nat.add_eq_left, List.countP_eq_zero]
        intro r hr hcounts
        simp only [Bool.and_eq_true, decide_eq_true_eq] at hcounts
        rw [List.mem_singleton.mp hr] at hcounts
        exact hrow ⟨hcounts.1.1.1.1, hcounts.2⟩
      rw [hsame]
      exact hcap agentID epochID
  | closed σ' id closing fulfilledAt =>
    exact (openCount_closeRows db σ' id closing fulfilledAt agentID epochID clock).trans
      (hcap agentID epochID)

variable {start : T} {s t : State T}

theorem Inv.tick (h : Inv s) {now : T} (hnow : s.clock ≤ now) : Inv { s with clock := now } := by
  refine ⟨h.ids, h.fulfilled, fun agentID epochID => ?_, h.known, fun k task htask => ?_, h.closing⟩
  · exact (openCount_anti s.db agentID epochID hnow).trans (h.cap agentID epochID)
  · exact (h.grounded k task htask).mono hnow (fun r hr => ⟨r, hr, .inl rfl⟩) id

theorem Inv.call (h : Inv s) (call : Call T) :
    Inv { s with tasks := s.tasks ++ [⟨call, beginCall s.clock call⟩] } := by
  refine ⟨h.ids, h.fulfilled, h.cap, fun k hk => ?_, fun k task htask => ?_,
    fun k σ id closing waiting htask => ?_⟩
  · rw [List.length_append]
    exact Nat.lt_add_right _ (h.known k hk)
  · rw [List.getElem?_append] at htask
    split_ifs at htask with hk
    · exact h.grounded k task htask
    · obtain ⟨hlt, rfl⟩ := List.getElem?_eq_some_iff.mp htask
      have hnew : [(⟨call, beginCall s.clock call⟩ : CallTask T)][k - s.tasks.length] =
          ⟨call, beginCall s.clock call⟩ := List.getElem_singleton _
      rw [hnew]
      exact grounded_beginCall call fun hmem => hk (h.known k hmem)
  · rw [List.getElem?_append] at htask
    split_ifs at htask with hk
    · exact h.closing k σ id closing waiting htask
    · rw [List.getElem?_singleton] at htask
      split_ifs at htask
      cases htask
      rfl

theorem Inv.run (h : Inv s) {k : ℕ} {task : CallTask T} (htask : s.tasks[k]? = some task)
    (hrun : execute s.db task.waiting = some (db', waiting')) :
    Inv { s with
      db := db'
      tasks := s.tasks.set k { task with waiting := waiting' }
      writes := if db' = s.db then s.writes else k :: s.writes } := by
  have hchanges := changes_of_execute hrun
  have hgrounded := h.grounded k task htask
  obtain ⟨hlt, -⟩ := List.getElem?_eq_some_iff.mp htask
  refine ⟨hchanges.ids h.ids, hchanges.fulfilled hgrounded h.fulfilled, hchanges.cap hgrounded h.cap,
    fun i hi => ?_, fun i other hother => ?_, fun i σ id closing waiting hi => ?_⟩
  · rw [List.length_set]
    dsimp only at hi
    split_ifs at hi with hsame
    · exact h.known i hi
    · rcases List.mem_cons.mp hi with rfl | hi
      · exact hlt
      · exact h.known i hi
  · rw [List.getElem?_set] at hother
    split_ifs at hother with hi
    · subst hi
      cases hother
      exact grounded_execute hgrounded h.ids hrun
    · refine (h.grounded i other hother).mono le_rfl hchanges.evolves fun hmem => ?_
      dsimp only at hmem
      split_ifs at hmem with hsame
      · exact hmem
      · rcases List.mem_cons.mp hmem with rfl | hmem
        · exact absurd rfl hi
        · exact hmem
  · rw [List.getElem?_set] at hi
    split_ifs at hi with hik
    · obtain ⟨hcall, hwaiting⟩ := CallTask.mk.inj (Option.some.inj hi)
      have hclose : s.tasks[k]? = some ⟨.close σ id closing, task.waiting⟩ := by
        rw [htask, ← hcall]
      rw [← hwaiting]
      exact closing_execute (h.closing k σ id closing task.waiting hclose) hrun
    · exact h.closing i σ id closing waiting hi

/-- What a step is: the clock, a call or a statement. -/
theorem step_cases {e : Event T} (h : (store start).step s e = some t) :
    (∃ now, e = .tick now ∧ s.clock ≤ now ∧ t = { s with clock := now }) ∨
    (∃ call, e = .call call ∧
      t = { s with tasks := s.tasks ++ [⟨call, beginCall s.clock call⟩] }) ∨
    ∃ k task db' waiting', e = .run k ∧ s.tasks[k]? = some task ∧
      execute s.db task.waiting = some (db', waiting') ∧ t = { s with
        db := db'
        tasks := s.tasks.set k { task with waiting := waiting' }
        writes := if db' = s.db then s.writes else k :: s.writes } := by
  cases e with
  | tick now =>
    dsimp only [store] at h
    split_ifs at h with hnow
    cases h
    exact .inl ⟨now, rfl, hnow, rfl⟩
  | call call =>
    cases h
    exact .inr (.inl ⟨call, rfl, rfl⟩)
  | run k =>
    obtain ⟨task, htask, h⟩ := Option.bind_eq_some_iff.mp h
    obtain ⟨p, hp, rfl⟩ := Option.map_eq_some_iff.mp h
    exact .inr (.inr ⟨k, task, p.1, p.2, rfl, htask, hp, rfl⟩)

theorem Inv.step {e : Event T} (h : Inv s) (hstep : (store start).step s e = some t) : Inv t := by
  rcases step_cases hstep with ⟨now, -, hnow, rfl⟩ | ⟨call, -, rfl⟩ |
    ⟨k, task, db', waiting', -, htask, hrun, rfl⟩
  · exact h.tick hnow
  · exact h.call call
  · exact h.run htask hrun

theorem inv_init : Inv (store start).init := by
  refine ⟨List.nodup_nil, fun r hr => absurd hr List.not_mem_nil, fun _ _ => Nat.zero_le _,
    fun k hk => absurd hk List.not_mem_nil, fun k task htask => ?_,
    fun k σ id closing waiting htask => ?_⟩
  · cases htask
  · cases htask

theorem inv (h : (store start).Reachable s) : Inv s :=
  h.invariant inv_init fun _ _ _ hs hstep => Inv.step hs hstep

/-! ### The theorem -/

theorem Inv.kept (h : Inv s) : Kept s :=
  ⟨h.ids, h.fulfilled, h.cap, fun k call _ htask => h.grounded k ⟨call, _⟩ htask⟩

theorem Changes.made (h : Changes db waiting db' waiting')
    (hgrounded : Grounded clock db writes k σ waiting) :
    ∀ r' ∈ db', (∃ r ∈ db, r.id = r'.id) ∨ r'.state = .open := by
  intro r' hr'
  cases h with
  | same => exact .inl ⟨r', hr', rfl⟩
  | inserted =>
    rcases List.mem_append.mp hr' with hr' | hr'
    · exact .inl ⟨r', hr', rfl⟩
    · rw [List.mem_singleton.mp hr']
      exact .inr hgrounded.2.1
  | closed σ' id closing fulfilledAt =>
    obtain ⟨r, hr, rfl⟩ := List.mem_map.mp hr'
    exact .inl ⟨r, hr, (closeRow_id r).symm⟩

theorem Changes.unseen (h : Changes db waiting db' waiting')
    (hgrounded : Grounded clock db writes k σ waiting) :
    db'.filter (!σ.sees ·) = db.filter (!σ.sees ·) := by
  cases h with
  | same => rfl
  | inserted =>
    rw [List.filter_append, List.filter_cons_of_neg, List.filter_nil, List.append_nil]
    rw [hgrounded.2.2.2.1]
    exact Bool.false_ne_true
  | closed σ' id closing fulfilledAt =>
    rw [← hgrounded.2.1]
    exact closeRows_unseen

theorem reveals_execute (hgrounded : Grounded clock db writes k σ waiting) {o : Outcome T}
    (hrun : execute db waiting = some (db', .finished o)) : Reveals db σ o := by
  cases waiting with
  | insert row now =>
    rcases insertUnderCap_cases db row now with hfull | herror | ⟨-, -, hinserted⟩
    · rw [execute, hfull] at hrun
      cases hrun
    · rw [execute, herror] at hrun
      cases hrun
      trivial
    · rw [execute, hinserted] at hrun
      cases hrun
  | commitInsert id rowcount =>
    cases hrun
    split_ifs
    · trivial
    · trivial
  | update σ' id closing fulfilledAt => cases hrun
  | commitUpdate σ' id rowcount => cases hrun
  | get σ' id rowcount =>
    cases hrun
    rw [← hgrounded.1]
    cases hfound : selectOne db σ' id with
    | none => trivial
    | some r =>
      obtain ⟨hr, hid, hsees⟩ := selectOne_eq_some hfound
      rw [afterGet]
      split_ifs
      · exact ⟨r, hr, hsees, hid, rfl⟩
      · exact ⟨hr, hsees⟩
  | finished o => cases hrun

theorem Inv.steps (h : Inv s) {e : Event T} (hstep : (store start).step s e = some t) :
    Steps s e t := by
  rcases step_cases hstep with ⟨now, rfl, -, rfl⟩ | ⟨call, rfl, rfl⟩ |
    ⟨k, task, db', waiting', rfl, htask, hrun, rfl⟩
  · exact steps_of_idle (fun k hrun => by cases hrun) rfl
  · exact steps_of_idle (fun k hrun => by cases hrun) rfl
  · have hchanges := changes_of_execute hrun
    have hgrounded := h.grounded k task htask
    refine ⟨hchanges.evolves, hchanges.made hgrounded, fun hidle => absurd rfl (hidle k),
      fun i other hi hother => ?_, fun i call o hi hother => ?_⟩
    · cases hi
      rw [htask] at hother
      cases hother
      exact hchanges.unseen hgrounded
    · cases hi
      obtain ⟨hlt, -⟩ := List.getElem?_eq_some_iff.mp htask
      rw [List.getElem?_set_self hlt] at hother
      cases hother
      exact reveals_execute hgrounded hrun

/-- What a call that closes does next depends on the rows that it sees. -/
theorem execute_congr (hclosing : waiting.closing = true)
    (hgrounded : Grounded clock db writes k σ waiting) (hsame : db'.filter σ.sees = db.filter σ.sees) :
    (execute db' waiting).map Prod.snd = (execute db waiting).map Prod.snd := by
  cases waiting with
  | insert row now => cases hclosing
  | commitInsert id rowcount => cases hclosing
  | update σ' id closing fulfilledAt =>
    obtain ⟨-, rfl, -⟩ := hgrounded
    have hcount : (closeRows db' σ' id closing fulfilledAt).2 =
        (closeRows db σ' id closing fulfilledAt).2 := by
      unfold closeRows
      dsimp only
      rw [← countP_closes_filter db', hsame, countP_closes_filter]
    rw [execute, execute, Option.map_some, Option.map_some, hcount]
  | commitUpdate σ' id rowcount => rfl
  | get σ' id rowcount =>
    obtain ⟨rfl, -⟩ := hgrounded
    rw [execute, execute, Option.map_some, Option.map_some, ← selectOne_filter db', hsame,
      selectOne_filter]
  | finished o => rfl

theorem Inv.blind (h : Inv s) : Blind s := by
  intro k σ id closing waiting htask db hsame
  exact execute_congr (h.closing k σ id closing waiting htask) (h.grounded k _ htask) hsame

theorem evolves_execFrom {run : List (Event T)} (h : Inv s)
    (hrun : (store start).execFrom s run = some t) : ∀ r ∈ s.db, ∃ r' ∈ t.db, Evolves r r' := by
  induction run generalizing s with
  | nil =>
    cases hrun
    exact fun r hr => ⟨r, hr, .inl rfl⟩
  | cons e run ih =>
    rw [System.execFrom_cons] at hrun
    obtain ⟨u, hu, hrun⟩ := Option.bind_eq_some_iff.mp hrun
    intro r hr
    obtain ⟨r', hr', hfirst⟩ := (h.steps hu).evolves r hr
    obtain ⟨r'', hr'', hrest⟩ := ih (h.step hu) hrun r' hr'
    exact ⟨r'', hr'', hfirst.trans hrest⟩

/-- In every state that the calls can reach: rows are fulfilled exactly where they have a time for
it, the cap is kept and a failed call has changed nothing. Every step changes a row only from open
to closed and in the scope of its call, and so does every run. -/
theorem commitments_kept (h : (store start).Reachable s) : Kept s ∧ Blind s ∧
    (∀ e t, (store start).step s e = some t → Steps s e t) ∧
    ∀ run t, (store start).execFrom s run = some t → ∀ r ∈ s.db, ∃ r' ∈ t.db, Evolves r r' := by
  have hinv := inv h
  exact ⟨hinv.kept, hinv.blind, fun e t hstep => hinv.steps hstep,
    fun run t hrun => evolves_execFrom hinv hrun⟩

end

theorem normalizeSessionID_legacy : normalizeSessionID legacySessionID = legacySessionID := by
  decide

def legacyScope : Scope := ⟨"a", legacySessionID, "p", "live", normalizeSessionID_legacy⟩

def notesOnFriday : CreateArgs ℕ :=
  ⟨.value "send the notes", .value (.finite 5), none, none, .items [], "internal"⟩

/-- Two calls close one commitment, and the second one fails. -/
def closedTwice : List (Event ℕ) :=
  [.call (.create legacyScope notesOnFriday "x"), .run 0, .run 0, .tick 3,
    .call (.close legacyScope "x" .fulfill), .call (.close legacyScope "x" .cancel),
    .run 1, .run 2, .run 1, .run 2, .run 2, .run 1]

theorem commitments_kept_closedTwice : ∃ s, (store (0 : ℕ)).Reachable s ∧
    s.db.map (fun r => (r.state, r.fulfilledAt)) = [(.fulfilled, some 3)] ∧ s.writes = [1, 0] ∧
    Kept s := by
  obtain ⟨s, hexec, hstate⟩ := @System.exists_of_exec _ _ (store (0 : ℕ)) closedTwice
    (fun s => s.db.map (fun r => (r.state, r.fulfilledAt)) = [(.fulfilled, some 3)] ∧
      s.writes = [1, 0]) _ (by decide)
  have hreachable := System.reachable_exec hexec
  exact ⟨s, hreachable, hstate.1, hstate.2, (commitments_kept hreachable).1⟩

end Persatrix.Commitments
