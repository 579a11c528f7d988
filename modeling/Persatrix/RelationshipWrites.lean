import Persatrix.Commitments
import Persatrix.Keyed
import Persatrix.System
import Mathlib.Algebra.Order.Ring.Rat
import Mathlib.Tactic.Linarith

/-!
# What is written about the others

An agent keeps a row for each participant that it knows: the trust in it, the note on the last
change of the trust, its identity, and how often they interacted. Five calls write to the rows.
Their tasks share one connection and one transaction: a task goes on from one statement to the
next, and what it wrote stays if a later statement fails.
-/
namespace Persatrix.Relationships
open Agents
open Commitments (normalizeSessionID)

/-! ### Numbers and arguments -/

/-- A float, over exact rationals. -/
inductive Num where
  | nan
  | inf (neg : Bool)
  | fin (q : ℚ)
deriving DecidableEq

/-- `max(lo, min(hi, x))`: a comparison with NaN is false, so that `min` keeps its first
argument. -/
def Num.clamp (lo hi : ℚ) : Num → ℚ
  | nan => hi
  | inf neg => if neg then lo else hi
  | fin q => max lo (min hi q)

def Num.finite : Num → Option ℚ
  | fin q => some q
  | _ => none

def maxTrustDelta : ℚ := 1 / 5

def defaultTrust : ℚ := 1 / 2

def clampTrust (q : ℚ) : ℚ := max 0 (min 1 q)

def validOther (otherID : String) : Bool := strip otherID ≠ ""

def validType (participantType : String) : Bool :=
  participantType = "agent" || participantType = "user"

def truncateField (value : String) : String :=
  if 1024 < value.length then String.ofList (value.toList.take 1021) ++ "..." else value

/-! ### The tables -/

structure Key where
  agentID : String
  participantType : String
  otherID : String
  otherType : String
  principalID : String
  epochID : String
deriving DecidableEq

/-- The rows that a decay takes. -/
structure Scope where
  agentID : String
  participantType : String
  principalID : String
  epochID : String
deriving DecidableEq

def Scope.covers (σ : Scope) (k : Key) : Bool :=
  k.agentID = σ.agentID && k.participantType = σ.participantType &&
    k.principalID = σ.principalID && k.epochID = σ.epochID

structure Relationship (I : Type) where
  key : Key
  trust : ℚ
  interactionCount : ℕ
  lastInteractionAt : Option ℚ
  notes : Option String
  identity : Option I
  sessionID : String

structure Interaction where
  key : Key
  interactionType : String
  outcome : Option String
  sentiment : ℚ
  createdAt : ℚ
  sessionID : String
deriving DecidableEq

structure Db (I : Type) where
  relationships : Keyed (Relationship.key : Relationship I → Key)
  interactions : List Interaction

variable {I F : Type}

/-- A row as it is first written; the session is the default of the column. -/
def Relationship.new (k : Key) : Relationship I where
  key := k
  trust := defaultTrust
  interactionCount := 0
  lastInteractionAt := none
  notes := none
  identity := none
  sessionID := legacySessionID

namespace Db
variable (d : Db I)

/-- `INSERT … ON CONFLICT … DO UPDATE`. -/
def upsert (fresh : Relationship I) (update : Relationship I → Relationship I) : Db I :=
  { d with
    relationships :=
      match d.relationships.get fresh.key with
      | none => d.relationships.put fresh
      | some r => d.relationships.put (update r) }

def known (k : Key) : Bool := (d.relationships.get k).isSome

def decayTrust (rate trust : ℚ) : ℚ := trust + rate * (1 / 2 - trust)

/-- Whether the trust is far enough from neutral. -/
def decays (trust : ℚ) : Bool := 1 / 1000 < |trust - 1 / 2|

def decayRow (σ : Scope) (rate : ℚ) (r : Relationship I) : Relationship I :=
  if σ.covers r.key && decays r.trust then { r with trust := decayTrust rate r.trust } else r

theorem decayRow_key (σ : Scope) (rate : ℚ) (r : Relationship I) :
    (decayRow σ rate r).key = r.key := by
  unfold decayRow
  split <;> rfl

def decay (σ : Scope) (rate : ℚ) : Db I :=
  { d with
    relationships := d.relationships.select (fun _ => true) (decayRow σ rate)
      (decayRow_key σ rate) }

def decayedRows (σ : Scope) : ℕ :=
  (d.relationships.values.filter fun r => σ.covers r.key && decays r.trust).length

def countOf (k : Key) : ℕ := ((d.relationships.get k).map Relationship.interactionCount).getD 0

def rowsOf (k : Key) : ℕ := (d.interactions.filter fun row => row.key = k).length

end Db

/-! ### The calls and their statements -/

/-- The level of an entry of the configuration, after `float`. -/
inductive Level where
  | absent
  | invalid
  | num (x : Num)
deriving DecidableEq

structure Seed where
  agentID : Option String
  trustLevel : Level
deriving DecidableEq

inductive Call (F : Type) where
  | updateTrust (k : Key) (delta : Num) (reason : String)
  | upsertIdentity (k : Key) (fields : F)
  | applyDecay (σ : Scope) (rate : Num)
  | recordInteraction (k : Key) (interactionType : String) (outcome : Option String)
      (sentiment : Num) (sessionID : String) (now : ℚ)
  | seedTrust (agentID principalID epochID : String) (entries : List Seed) (sessionID : String)

inductive Statement (I F : Type) where
  /-- To enter the section under `_identity_write_lock`. -/
  | lock (k : Key) (fields : F)
  | updateTrust (k : Key) (delta : ℚ) (reason : String)
  | readIdentity (k : Key) (fields : F)
  | writeIdentity (k : Key) (merged : I)
  | applyDecay (σ : Scope) (rate : ℚ)
  | insertInteraction (row : Interaction)
  | countInteraction (row : Interaction)
  | seed (k : Key) (level : ℚ) (sessionID : String) (rest : List (Key × ℚ))
  | commit

/-- The rows that the entries seed; the types are fixed. -/
def seedRows (agentID principalID epochID : String) (entries : List Seed) : List (Key × ℚ) :=
  entries.filterMap fun entry =>
    match entry.agentID, entry.trustLevel with
    | some otherID, .num x => some (⟨agentID, "agent", otherID, "agent", principalID, epochID⟩,
        x.clamp 0 1)
    | _, _ => none

def seedNext (sessionID : String) : List (Key × ℚ) → Statement I F
  | [] => .commit
  | (k, level) :: rest => .seed k level sessionID rest

def validKey (k : Key) : Bool :=
  validOther k.otherID && validType k.participantType && validType k.otherType

/-- The first statement of a call, or `none` for one with an argument that raises. -/
def Call.first : Call F → Option (Statement I F)
  | .updateTrust k delta reason =>
    if validKey k then
      delta.finite.map fun q =>
        .updateTrust k (max (-maxTrustDelta) (min maxTrustDelta q)) (truncateField reason)
    else none
  | .upsertIdentity k fields => if validKey k then some (.lock k fields) else none
  | .applyDecay σ rate =>
    match rate.finite with
    | none => none
    | some q => if 0 < q ∧ q ≤ 1 then some (.applyDecay σ q) else none
  | .recordInteraction k interactionType outcome sentiment sessionID now =>
    if validKey k && strip interactionType ≠ "" then
      sentiment.finite.map fun q => .insertInteraction
        { key := k
          interactionType := interactionType
          outcome := outcome.map truncateField
          sentiment := max (-1) (min 1 q)
          createdAt := now
          sessionID := normalizeSessionID sessionID }
    else none
  | .seedTrust agentID principalID epochID entries sessionID =>
    some (seedNext sessionID (seedRows agentID principalID epochID entries))

def Statement.isCommit : Statement I F → Bool
  | commit => true
  | _ => false

def Statement.isLock : Statement I F → Bool
  | lock _ _ => true
  | _ => false

/-- What a statement does to the score, the note or the identity of a row. -/
inductive Effect (I : Type) where
  | created (k : Key) (trust : ℚ)
  | moved (k : Key) (delta : ℚ) (reason : String)
  | decayed (σ : Scope) (rate : ℚ)
  | identified (k : Key) (merged : I)
deriving DecidableEq

def creation (d : Db I) (k : Key) (trust : ℚ) : List (Effect I) :=
  if d.known k then [] else [.created k trust]

structure Outcome (I F : Type) where
  db : Db I
  effects : List (Effect I)
  /-- The next statement of the call, or `none` where it returns. -/
  next : Option (Statement I F)

/-- What a statement does that does not fail. `merge` stands for `merge_identity` on the stored
identity and the new fields: `none` where the merge is empty. -/
def Statement.run (merge : Option I → F → Option I) (d : Db I) : Statement I F → Outcome I F
  | .lock k fields => ⟨d, [], some (.readIdentity k fields)⟩
  | .updateTrust k delta reason =>
    ⟨d.upsert
        { (Relationship.new k : Relationship I) with
          trust := clampTrust (defaultTrust + delta), notes := some reason }
        fun r => { r with trust := clampTrust (r.trust + delta), notes := some reason },
      creation d k defaultTrust ++ [.moved k delta reason], some .commit⟩
  | .readIdentity k fields =>
    ⟨d, [], (merge ((d.relationships.get k).bind Relationship.identity) fields).map
      (.writeIdentity k)⟩
  | .writeIdentity k merged =>
    ⟨d.upsert { (Relationship.new k : Relationship I) with identity := some merged }
        fun r => { r with identity := some merged },
      creation d k defaultTrust ++ [.identified k merged], some .commit⟩
  | .applyDecay σ rate =>
    ⟨d.decay σ rate, [.decayed σ rate], if d.decayedRows σ = 0 then none else some .commit⟩
  | .insertInteraction row =>
    ⟨{ d with interactions := d.interactions ++ [row] }, [], some (.countInteraction row)⟩
  | .countInteraction row =>
    ⟨d.upsert
        { (Relationship.new row.key : Relationship I) with
          interactionCount := 1
          lastInteractionAt := some row.createdAt
          sessionID := row.sessionID }
        fun r => { r with
          interactionCount := r.interactionCount + 1
          lastInteractionAt := some row.createdAt },
      creation d row.key defaultTrust, some .commit⟩
  | .seed k level sessionID rest =>
    ⟨d.upsert
        { (Relationship.new k : Relationship I) with trust := level, sessionID := sessionID }
        fun r => r,
      creation d k level, some (seedNext sessionID rest)⟩
  | .commit => ⟨d, [], none⟩

/-! ### The tasks of a connection -/

inductive Progress (I F : Type) where
  | running (st : Statement I F)
  | succeeded
  | failed

structure Task (I F : Type) where
  call : Call F
  progress : Progress I F

structure Connection (I F : Type) where
  /-- The tables with what is not committed. -/
  view : Db I
  committed : Db I
  tasks : List (Task I F)
  /-- The task that holds the lock for the identities. -/
  lockedBy : Option ℕ
  /-- What the statements did, each with its task; nothing reads it. -/
  log : List (ℕ × Effect I)

inductive Event (F : Type) where
  | call (c : Call F)
  /-- The next statement of a task, or its commit, which may fail. -/
  | advance (i : ℕ) (fails : Bool)

namespace Connection
variable (s : Connection I F)

def release (i : ℕ) : Option ℕ := if s.lockedBy = some i then none else s.lockedBy

def finish (i : ℕ) (t : Task I F) (p : Progress I F) : Connection I F :=
  { s with tasks := s.tasks.set i { t with progress := p }, lockedBy := s.release i }

/-- The statement takes effect, and the task goes on to the next one or returns. -/
def execute (merge : Option I → F → Option I) (i : ℕ) (t : Task I F) (st : Statement I F) :
    Connection I F :=
  let out := st.run merge s.view
  let s' := { s with
    view := out.db
    committed := if st.isCommit then s.view else s.committed
    log := s.log ++ out.effects.map fun e => (i, e) }
  match out.next with
  | none => s'.finish i t .succeeded
  | some st' =>
    { s' with
      tasks := s.tasks.set i { t with progress := .running st' }
      lockedBy := if st.isLock then some i else s.lockedBy }

def step (merge : Option I → F → Option I) : Event F → Option (Connection I F)
  | .call c =>
    let progress : Progress I F :=
      match (c.first : Option (Statement I F)) with
      | none => .failed
      | some st => .running st
    some { s with tasks := s.tasks ++ [⟨c, progress⟩] }
  | .advance i fails =>
    match s.tasks[i]? with
    | none => none
    | some t =>
      match t.progress with
      | .running st =>
        if st.isLock then
          if s.lockedBy = none ∧ fails = false then some (s.execute merge i t st) else none
        else if fails then some (s.finish i t .failed)
        else some (s.execute merge i t st)
      | _ => none

end Connection

def system (merge : Option I → F → Option I) (d : Db I) : System (Connection I F) (Event F) where
  init := ⟨d, d, [], none, []⟩
  step := fun s e => s.step merge e

/-! ### What the rows are to say -/

/-- What a row says of a participant, beside the count. -/
structure Told (I : Type) where
  trust : ℚ
  notes : Option String
  identity : Option I

def Relationship.told (r : Relationship I) : Told I := ⟨r.trust, r.notes, r.identity⟩

/-- What an effect makes of the row under a key: the score is clamped or decayed, the note is
the reason of an update, the identity that of an upsert. -/
def Effect.apply (k : Key) (x : Option (Told I)) : Effect I → Option (Told I)
  | created k' trust => if k' = k then some ⟨trust, none, none⟩ else x
  | moved k' delta reason =>
    if k' = k then x.map fun told =>
      { told with trust := clampTrust (told.trust + delta), notes := some reason }
    else x
  | decayed σ rate =>
    if σ.covers k then x.map fun told =>
      if Db.decays told.trust then { told with trust := Db.decayTrust rate told.trust } else told
    else x
  | identified k' merged =>
    if k' = k then x.map fun told => { told with identity := some merged } else x

def replay (k : Key) (x : Option (Told I)) (effects : List (Effect I)) : Option (Told I) :=
  effects.foldl (Effect.apply k) x

/-- A clamped delta, or a decay. -/
inductive Score where
  | moved (k : Key) (delta : ℚ)
  | decayed (σ : Scope) (rate : ℚ)
deriving DecidableEq

def Effect.score : Effect I → Option Score
  | moved k delta _ => some (.moved k delta)
  | decayed σ rate => some (.decayed σ rate)
  | _ => none

/-- What a call that succeeds does to the scores. -/
def Call.score : Call F → List Score
  | updateTrust k delta _ =>
    (delta.finite.map fun q => .moved k (max (-maxTrustDelta) (min maxTrustDelta q))).toList
  | applyDecay σ rate => (rate.finite.map (.decayed σ)).toList
  | _ => []

def scoresOf (i : ℕ) (log : List (ℕ × Effect I)) : List Score :=
  (log.filter fun p => p.1 = i).filterMap fun p => p.2.score

/-- The rows that a call is about. -/
def Call.covers (k : Key) : Call F → Bool
  | updateTrust k' _ _ => k = k'
  | upsertIdentity k' _ => k = k'
  | applyDecay σ _ => σ.covers k
  | recordInteraction k' _ _ _ _ _ => k = k'
  | seedTrust agentID principalID epochID _ _ =>
    Scope.covers ⟨agentID, "agent", principalID, epochID⟩ k && k.otherType = "agent"

def Progress.isRunning : Progress I F → Bool
  | running _ => true
  | _ => false

def Progress.isSuccess : Progress I F → Bool
  | succeeded => true
  | _ => false

def Connection.Quiet (s : Connection I F) : Prop := ∀ t ∈ s.tasks, t.progress.isRunning = false

instance (s : Connection I F) : Decidable s.Quiet := by
  unfold Connection.Quiet
  infer_instance

/-- The rows are those of the calls that succeeded. -/
structure Connection.Consistent (d : Db I) (s : Connection I F) : Prop where
  range : ∀ r ∈ s.view.relationships.values, 0 ≤ r.trust ∧ r.trust ≤ 1
  told : ∀ k, (s.view.relationships.get k).map Relationship.told =
    replay k ((d.relationships.get k).map Relationship.told) (s.log.map Prod.snd)
  scores : ∀ i t, s.tasks[i]? = some t →
    scoresOf i s.log = if t.progress.isSuccess then t.call.score else []
  logged : ∀ p ∈ s.log, p.1 < s.tasks.length
  identified : ∀ i k merged, (i, .identified k merged) ∈ s.log →
    ∃ t fields, s.tasks[i]? = some t ∧ t.call = .upsertIdentity k fields
  counted : ∀ k, s.view.countOf k = s.view.rowsOf k

/-! ### Which failures leave something behind -/

def Call.isScore : Call F → Bool
  | updateTrust _ _ _ => true
  | applyDecay _ _ => true
  | _ => false

/-- The next statement of the task may fail: it is not the count of an interaction that is
inserted, nor the commit of a change of a score. -/
def Task.mayFail (t : Task I F) : Bool :=
  match t.progress with
  | .running (.countInteraction _) => false
  | .running .commit => !t.call.isScore
  | _ => true

def Harmless (s : Connection I F) : Event F → Prop
  | .call _ => True
  | .advance i fails => fails = true → ∀ t ∈ s.tasks[i]?, t.mayFail = true

instance (s : Connection I F) : ∀ e, Decidable (Harmless s e)
  | .call _ => .isTrue trivial
  | .advance i fails => by
    unfold Harmless
    infer_instance

/-- A store whose scores are in range and whose counts are right. -/
structure Db.Sound (d : Db I) : Prop where
  range : ∀ r ∈ d.relationships.values, 0 ≤ r.trust ∧ r.trust ≤ 1
  counted : ∀ k, d.countOf k = d.rowsOf k

/-! ### What a statement does -/

namespace Db
variable {d : Db I} {k : Key} {fresh : Relationship I}
  {update : Relationship I → Relationship I}

theorem get_upsert (hupdate : ∀ r, (update r).key = r.key) :
    (d.upsert fresh update).relationships.get k =
      if fresh.key = k then some (((d.relationships.get k).map update).getD fresh)
      else d.relationships.get k := by
  unfold upsert
  cases hget : d.relationships.get fresh.key with
  | none =>
    dsimp only
    by_cases hk : fresh.key = k
    · subst hk
      rw [if_pos rfl, hget, Keyed.get_put]
      rfl
    · rw [if_neg hk, Keyed.get_put_of_ne hk]
  | some r =>
    dsimp only
    have hr := (Keyed.get_eq_some.mp hget).2
    by_cases hk : fresh.key = k
    · subst hk
      have hkey : (update r).key = fresh.key := (hupdate r).trans hr
      rw [if_pos rfl, hget, ← hkey, Keyed.get_put]
      rfl
    · rw [if_neg hk, Keyed.get_put_of_ne]
      rw [hupdate, hr]
      exact hk

theorem get_decay (σ : Scope) (rate : ℚ) :
    (d.decay σ rate).relationships.get k = (d.relationships.get k).map (decayRow σ rate) := by
  unfold decay
  cases hget : d.relationships.get k with
  | none =>
    refine @Keyed.get_select_none _ _ _ _ _ _ _ _ _ _ (decayRow_key σ rate) fun a ha => ?_
    rw [hget] at ha
    cases ha
  | some r =>
    exact @Keyed.get_select _ _ _ _ _ _ _ _ _ _ _ (decayRow_key σ rate) hget rfl

theorem mem_upsert {P : Relationship I → Prop}
    (hall : ∀ r ∈ d.relationships.values, P r) (hfresh : P fresh)
    (hkeep : ∀ r ∈ d.relationships.values, P (update r)) :
    ∀ r ∈ (d.upsert fresh update).relationships.values, P r := by
  intro r hr
  unfold upsert at hr
  cases hget : d.relationships.get fresh.key with
  | none =>
    rw [hget] at hr
    rcases Keyed.mem_put.mp hr with rfl | ⟨hmem, -⟩
    · exact hfresh
    · exact hall r hmem
  | some r₀ =>
    rw [hget] at hr
    rcases Keyed.mem_put.mp hr with rfl | ⟨hmem, -⟩
    · exact hkeep r₀ (Keyed.get_eq_some.mp hget).1
    · exact hall r hmem

end Db

/-- The statement is one of the call. -/
def Statement.Serves (c : Call F) : Statement I F → Prop
  | lock k fields => c = .upsertIdentity k fields
  | readIdentity k fields => c = .upsertIdentity k fields
  | writeIdentity k _ => ∃ fields, c = .upsertIdentity k fields
  | updateTrust k delta _ => ∃ q reason, c = .updateTrust k (.fin q) reason ∧
      delta = max (-maxTrustDelta) (min maxTrustDelta q)
  | applyDecay σ rate => c = .applyDecay σ (.fin rate) ∧ 0 < rate ∧ rate ≤ 1
  | insertInteraction row => ∃ interactionType outcome sentiment sessionID now,
      c = .recordInteraction row.key interactionType outcome sentiment sessionID now
  | countInteraction row => ∃ interactionType outcome sentiment sessionID now,
      c = .recordInteraction row.key interactionType outcome sentiment sessionID now
  | seed k level _ rest => c.score = [] ∧
      ∀ p ∈ (k, level) :: rest, c.covers p.1 = true ∧ 0 ≤ p.2 ∧ p.2 ≤ 1
  | commit => True

theorem clampTrust_range (q : ℚ) : 0 ≤ clampTrust q ∧ clampTrust q ≤ 1 :=
  ⟨le_max_left _ _, max_le zero_le_one (min_le_left _ _)⟩

theorem Num.clamp_range (x : Num) : 0 ≤ x.clamp 0 1 ∧ x.clamp 0 1 ≤ 1 := by
  cases x with
  | nan => exact ⟨zero_le_one, le_refl _⟩
  | inf neg =>
    cases neg with
    | false => exact ⟨zero_le_one, le_refl _⟩
    | true => exact ⟨le_refl _, zero_le_one⟩
  | fin q => exact clampTrust_range q

theorem Num.eq_fin {x : Num} {q : ℚ} (h : x.finite = some q) : x = .fin q := by
  cases x with
  | nan => cases h
  | inf neg => cases h
  | fin q' => exact congrArg Num.fin (Option.some.inj h)

theorem decay_range {rate trust : ℚ} (hpos : 0 < rate) (hle : rate ≤ 1) (hlow : 0 ≤ trust)
    (hhigh : trust ≤ 1) : 0 ≤ Db.decayTrust rate trust ∧ Db.decayTrust rate trust ≤ 1 := by
  unfold Db.decayTrust
  constructor
  · nlinarith [mul_nonneg (sub_nonneg.mpr hle) hlow]
  · nlinarith [mul_nonneg (sub_nonneg.mpr hle) (sub_nonneg.mpr hhigh)]

theorem seedRows_spec {agentID principalID epochID : String} {entries : List Seed} {p : Key × ℚ}
    {sessionID : String} (h : p ∈ seedRows agentID principalID epochID entries) :
    (Call.seedTrust agentID principalID epochID entries sessionID : Call F).covers p.1 = true ∧
      0 ≤ p.2 ∧ p.2 ≤ 1 := by
  obtain ⟨entry, -, hentry⟩ := List.mem_filterMap.mp h
  cases hid : entry.agentID with
  | none =>
    rw [hid] at hentry
    cases hentry
  | some otherID =>
    cases hlevel : entry.trustLevel with
    | absent =>
      rw [hid, hlevel] at hentry
      cases hentry
    | invalid =>
      rw [hid, hlevel] at hentry
      cases hentry
    | num x =>
      rw [hid, hlevel] at hentry
      cases hentry
      exact ⟨by simp [Call.covers, Scope.covers], x.clamp_range⟩

theorem serves_seedNext {c : Call F} {sessionID : String} {rows : List (Key × ℚ)}
    (hscore : c.score = []) (hrows : ∀ p ∈ rows, c.covers p.1 = true ∧ 0 ≤ p.2 ∧ p.2 ≤ 1) :
    (seedNext sessionID rows : Statement I F).Serves c := by
  cases rows with
  | nil => trivial
  | cons p rest => exact ⟨hscore, hrows⟩

theorem serves_first {c : Call F} {st : Statement I F} (h : c.first = some st) : st.Serves c := by
  cases c with
  | updateTrust k delta reason =>
    simp only [Call.first] at h
    split at h
    · obtain ⟨q, hq, rfl⟩ := Option.map_eq_some_iff.mp h
      exact ⟨q, reason, by rw [Num.eq_fin hq], rfl⟩
    · cases h
  | upsertIdentity k fields =>
    simp only [Call.first] at h
    split at h
    · cases h
      rfl
    · cases h
  | applyDecay σ rate =>
    simp only [Call.first] at h
    cases hrate : rate.finite with
    | none =>
      rw [hrate] at h
      cases h
    | some q =>
      rw [hrate] at h
      dsimp only at h
      split at h
      · next hq =>
          cases h
          exact ⟨by rw [Num.eq_fin hrate], hq⟩
      · cases h
  | recordInteraction k interactionType outcome sentiment sessionID now =>
    simp only [Call.first] at h
    split at h
    · obtain ⟨q, -, rfl⟩ := Option.map_eq_some_iff.mp h
      exact ⟨_, _, _, _, _, rfl⟩
    · cases h
  | seedTrust agentID principalID epochID entries sessionID =>
    cases h
    exact serves_seedNext rfl fun p hp => seedRows_spec hp

section Run
variable {merge : Option I → F → Option I} {d : Db I} {c : Call F} {st st' : Statement I F}

theorem serves_next (h : st.Serves c) (hnext : (st.run merge d).next = some st') :
    st'.Serves c := by
  cases st with
  | lock k fields =>
    cases hnext
    exact h
  | updateTrust k delta reason =>
    cases hnext
    trivial
  | readIdentity k fields =>
    obtain ⟨merged, -, rfl⟩ := Option.map_eq_some_iff.mp hnext
    exact ⟨fields, h⟩
  | writeIdentity k merged =>
    cases hnext
    trivial
  | applyDecay σ rate =>
    simp only [Statement.run] at hnext
    split at hnext
    · cases hnext
    · cases hnext
      trivial
  | insertInteraction row =>
    cases hnext
    exact h
  | countInteraction row =>
    cases hnext
    trivial
  | seed k level sessionID rest =>
    cases hnext
    exact serves_seedNext h.1 fun p hp => h.2 p (List.mem_cons_of_mem _ hp)
  | commit => cases hnext

/-- The task has done to the scores what its call does: it is at its commit, or has returned. -/
def appliedAt : Option (Statement I F) → Bool
  | none => true
  | some st => st.isCommit

/-- The clamped deltas and the decays are those of the call. -/
theorem run_scores (h : st.Serves c) :
    (if st.isCommit then c.score else []) ++ (st.run merge d).effects.filterMap Effect.score =
      if appliedAt (st.run merge d).next then c.score else [] := by
  have hcreation : ∀ k trust, (creation d k trust).filterMap Effect.score = [] := by
    intro k trust
    unfold creation
    split <;> rfl
  cases st with
  | lock k fields => rfl
  | updateTrust k delta reason =>
    obtain ⟨q, reason', rfl, rfl⟩ := h
    rw [Statement.run, List.filterMap_append, hcreation]
    rfl
  | readIdentity k fields =>
    have hc : c = .upsertIdentity k fields := h
    rw [hc]
    simp only [Call.score, ite_self]
    rfl
  | writeIdentity k merged =>
    obtain ⟨fields, rfl⟩ := h
    rw [Statement.run, List.filterMap_append, hcreation]
    rfl
  | applyDecay σ rate =>
    obtain ⟨rfl, -⟩ := h
    have hnext : appliedAt (Statement.run merge d (.applyDecay σ rate)).next = true := by
      simp only [Statement.run]
      split <;> rfl
    rw [hnext, if_pos rfl]
    rfl
  | insertInteraction row => rfl
  | countInteraction row =>
    obtain ⟨_, _, _, _, _, rfl⟩ := h
    rw [Statement.run, hcreation]
    rfl
  | seed k level sessionID rest =>
    rw [Statement.run, hcreation, h.1]
    simp
  | commit => simp [Statement.run, Statement.isCommit, appliedAt]

theorem replay_creation_of_ne {k k' : Key} (hk : k' ≠ k) (trust : ℚ) (x : Option (Told I)) :
    replay k x (creation d k' trust) = x := by
  unfold creation
  split
  · rfl
  · exact if_neg hk

/-- A row that is created or updated, as what its effects make of it. -/
theorem told_upsert (fresh : Relationship I) (update : Relationship I → Relationship I)
    (trust : ℚ) (g : Told I → Told I) (effects : List (Effect I))
    (hkeep : ∀ r, (update r).key = r.key) (hfresh : fresh.told = g ⟨trust, none, none⟩)
    (hupdate : ∀ r, (update r).told = g r.told)
    (heffects : ∀ k x, replay k x effects = if fresh.key = k then x.map g else x) (k : Key) :
    ((d.upsert fresh update).relationships.get k).map Relationship.told =
      replay k ((d.relationships.get k).map Relationship.told)
        (creation d fresh.key trust ++ effects) := by
  have happend : ∀ x : Option (Told I), replay k x (creation d fresh.key trust ++ effects) =
      replay k (replay k x (creation d fresh.key trust)) effects :=
    fun _ => List.foldl_append
  rw [happend, heffects, Db.get_upsert hkeep]
  by_cases hk : fresh.key = k
  · subst hk
    rw [if_pos rfl, if_pos rfl, Option.map_some]
    cases hget : d.relationships.get fresh.key with
    | none =>
      have hnew : creation d fresh.key trust = [.created fresh.key trust] :=
        if_neg (by rw [Db.known, hget]; exact Bool.false_ne_true)
      rw [hnew, Option.map_none, Option.getD_none, hfresh]
      simp [replay, Effect.apply]
    | some r =>
      have hold : creation d fresh.key trust = ([] : List (Effect I)) :=
        if_pos (by rw [Db.known, hget]; rfl)
      rw [hold, Option.map_some, Option.getD_some, hupdate]
      rfl
  · rw [if_neg hk, if_neg hk, replay_creation_of_ne hk]

theorem told_decay (σ : Scope) (rate : ℚ) (k : Key) :
    ((d.decay σ rate).relationships.get k).map Relationship.told =
      replay k ((d.relationships.get k).map Relationship.told) [.decayed σ rate] := by
  rw [Db.get_decay, replay, List.foldl_cons, List.foldl_nil, Effect.apply]
  cases hget : d.relationships.get k with
  | none => simp
  | some r =>
    have hr := (Keyed.get_eq_some.mp hget).2
    by_cases hcovers : σ.covers k = true
    · rw [if_pos hcovers]
      simp only [Option.map_some, Db.decayRow, hr, hcovers, Bool.true_and]
      by_cases hdecays : Db.decays r.trust = true
      · simp [hdecays, Relationship.told]
      · simp [hdecays, Relationship.told]
    · rw [if_neg hcovers]
      simp [Db.decayRow, hr, hcovers]

theorem run_told (st : Statement I F) (k : Key) :
    ((st.run merge d).db.relationships.get k).map Relationship.told =
      replay k ((d.relationships.get k).map Relationship.told) (st.run merge d).effects := by
  have hnone : ∀ k' k (x : Option (Told I)),
      replay k x [] = if k' = k then x.map (fun told => told) else x := by
    intro k' k x
    simp [replay]
  cases st with
  | lock k' fields => rfl
  | updateTrust k' delta reason =>
    exact told_upsert _ (fun r => { r with
        trust := clampTrust (r.trust + delta), notes := some reason }) defaultTrust
      (fun told => { told with trust := clampTrust (told.trust + delta), notes := some reason })
      [.moved k' delta reason] (fun _ => rfl) rfl (fun _ => rfl) (fun _ _ => rfl) k
  | readIdentity k' fields => rfl
  | writeIdentity k' merged =>
    exact told_upsert _ (fun r => { r with identity := some merged }) defaultTrust
      (fun told => { told with identity := some merged }) [.identified k' merged]
      (fun _ => rfl) rfl (fun _ => rfl) (fun _ _ => rfl) k
  | applyDecay σ rate => exact told_decay σ rate k
  | insertInteraction row => rfl
  | countInteraction row =>
    rw [Statement.run, ← List.append_nil (creation d row.key defaultTrust)]
    exact told_upsert _ (fun r => { r with
        interactionCount := r.interactionCount + 1
        lastInteractionAt := some row.createdAt }) defaultTrust (fun told => told) []
      (fun _ => rfl) rfl (fun _ => rfl) (hnone row.key) k
  | seed k' level sessionID rest =>
    rw [Statement.run, ← List.append_nil (creation d k' level)]
    exact told_upsert _ (fun r => r) level (fun told => told) [] (fun _ => rfl) rfl
      (fun _ => rfl) (hnone k') k
  | commit => rfl

theorem run_range (h : st.Serves c)
    (hrange : ∀ r ∈ d.relationships.values, 0 ≤ r.trust ∧ r.trust ≤ 1) :
    ∀ r ∈ (st.run merge d).db.relationships.values, 0 ≤ r.trust ∧ r.trust ≤ 1 := by
  cases st with
  | lock k fields => exact hrange
  | updateTrust k delta reason =>
    exact Db.mem_upsert hrange (clampTrust_range _) fun _ _ => clampTrust_range _
  | readIdentity k fields => exact hrange
  | writeIdentity k merged =>
    exact Db.mem_upsert hrange (by norm_num [Relationship.new, defaultTrust]) hrange
  | applyDecay σ rate =>
    obtain ⟨-, hpos, hle⟩ := h
    intro r hr
    simp only [Statement.run, Db.decay] at hr
    obtain ⟨r₀, hr₀, -, rfl⟩ := Keyed.mem_select.mp hr
    obtain ⟨hlow, hhigh⟩ := hrange r₀ hr₀
    unfold Db.decayRow
    split
    · exact decay_range hpos hle hlow hhigh
    · exact ⟨hlow, hhigh⟩
  | insertInteraction row => exact hrange
  | countInteraction row =>
    exact Db.mem_upsert hrange (by norm_num [Relationship.new, defaultTrust]) hrange
  | seed k level sessionID rest =>
    exact Db.mem_upsert hrange (h.2 _ List.mem_cons_self).2 hrange
  | commit => exact hrange

/-- The statement is the count of an interaction of the key. -/
def Statement.counts (k : Key) : Statement I F → ℕ
  | countInteraction row => if row.key = k then 1 else 0
  | _ => 0

def countsAt (k : Key) : Option (Statement I F) → ℕ
  | none => 0
  | some st => st.counts k

/-- An upsert that adds `n` to the count of a row, which starts from zero. -/
theorem countOf_upsert (fresh : Relationship I) (update : Relationship I → Relationship I) (n : ℕ)
    (hkeep : ∀ r, (update r).key = r.key) (hfresh : fresh.interactionCount = n)
    (hupdate : ∀ r, (update r).interactionCount = r.interactionCount + n) (k : Key) :
    (d.upsert fresh update).countOf k = d.countOf k + if fresh.key = k then n else 0 := by
  unfold Db.countOf
  rw [Db.get_upsert hkeep]
  by_cases hk : fresh.key = k
  · rw [if_pos hk, if_pos hk, Option.map_some, Option.getD_some]
    cases d.relationships.get k with
    | none =>
      rw [Option.map_none, Option.getD_none, Option.map_none, Option.getD_none, Nat.zero_add]
      exact hfresh
    | some r => exact hupdate r
  · rw [if_neg hk, if_neg hk, Nat.add_zero]

theorem countOf_keep (fresh : Relationship I) (update : Relationship I → Relationship I)
    (hkeep : ∀ r, (update r).key = r.key) (hfresh : fresh.interactionCount = 0)
    (hupdate : ∀ r, (update r).interactionCount = r.interactionCount) (k : Key) :
    (d.upsert fresh update).countOf k = d.countOf k := by
  rw [countOf_upsert fresh update 0 hkeep hfresh hupdate, ite_self, Nat.add_zero]

theorem countOf_decay (σ : Scope) (rate : ℚ) (k : Key) :
    (d.decay σ rate).countOf k = d.countOf k := by
  unfold Db.countOf
  rw [Db.get_decay, Option.map_map]
  have hcount : ∀ r : Relationship I,
      (Db.decayRow σ rate r).interactionCount = r.interactionCount := by
    intro r
    unfold Db.decayRow
    split <;> rfl
  exact congrArg (fun o => Option.getD o 0) (Option.map_congr fun r _ => hcount r)

theorem rowsOf_insert (row : Interaction) (k : Key) :
    Db.rowsOf { d with interactions := d.interactions ++ [row] } k =
      d.rowsOf k + if row.key = k then 1 else 0 := by
  unfold Db.rowsOf
  rw [List.filter_append, List.length_append]
  by_cases hk : row.key = k
  · rw [if_pos hk, List.filter_cons_of_pos (by simpa using hk)]
    rfl
  · rw [if_neg hk, List.filter_cons_of_neg (by simpa using hk)]
    rfl

/-- Of an interaction that is inserted the count follows. -/
theorem run_counted (st : Statement I F) (k : Key) :
    (st.run merge d).db.rowsOf k + d.countOf k + st.counts k =
      d.rowsOf k + (st.run merge d).db.countOf k + countsAt k (st.run merge d).next := by
  cases st with
  | lock k' fields => rfl
  | updateTrust k' delta reason =>
    have hcount : (Statement.run merge d (.updateTrust k' delta reason)).db.countOf k =
        d.countOf k :=
      countOf_keep _ (fun r => { r with
        trust := clampTrust (r.trust + delta), notes := some reason }) (fun _ => rfl) rfl
        (fun _ => rfl) k
    rw [hcount]
    rfl
  | readIdentity k' fields =>
    cases hmerge : merge ((d.relationships.get k').bind Relationship.identity) fields with
    | none => simp [Statement.run, hmerge, Statement.counts, countsAt]
    | some merged => simp [Statement.run, hmerge, Statement.counts, countsAt]
  | writeIdentity k' merged =>
    have hcount : (Statement.run merge d (.writeIdentity k' merged)).db.countOf k =
        d.countOf k :=
      countOf_keep _ (fun r => { r with identity := some merged }) (fun _ => rfl) rfl
        (fun _ => rfl) k
    rw [hcount]
    rfl
  | applyDecay σ rate =>
    have hcount : (Statement.run merge d (.applyDecay σ rate)).db.countOf k = d.countOf k :=
      countOf_decay σ rate k
    have hnext : countsAt k (Statement.run merge d (.applyDecay σ rate)).next = 0 := by
      simp only [Statement.run]
      split <;> rfl
    rw [hcount, hnext]
    rfl
  | insertInteraction row =>
    have hrows : (Statement.run merge d (.insertInteraction row)).db.rowsOf k =
        d.rowsOf k + if row.key = k then 1 else 0 := rowsOf_insert row k
    have hcount : (Statement.run merge d (.insertInteraction row)).db.countOf k =
        d.countOf k := rfl
    have hnext : countsAt k (Statement.run merge d (.insertInteraction row)).next =
        if row.key = k then 1 else 0 := rfl
    have hnow : Statement.counts k (.insertInteraction row : Statement I F) = 0 := rfl
    rw [hrows, hcount, hnext, hnow]
    omega
  | countInteraction row =>
    have hcount : (Statement.run merge d (.countInteraction row)).db.countOf k =
        d.countOf k + if row.key = k then 1 else 0 :=
      countOf_upsert _ (fun r => { r with
        interactionCount := r.interactionCount + 1
        lastInteractionAt := some row.createdAt }) 1 (fun _ => rfl) rfl (fun _ => rfl) k
    have hrows : (Statement.run merge d (.countInteraction row)).db.rowsOf k =
        d.rowsOf k := rfl
    rw [hcount, hrows, Nat.add_assoc]
    rfl
  | seed k' level sessionID rest =>
    have hcount : (Statement.run merge d (.seed k' level sessionID rest)).db.countOf k =
        d.countOf k := countOf_keep _ (fun r => r) (fun _ => rfl) rfl (fun _ => rfl) k
    have hnext : countsAt k (Statement.run merge d (.seed k' level sessionID rest)).next = 0 := by
      cases rest <;> rfl
    rw [hcount, hnext]
    rfl
  | commit => rfl

/-- A statement leaves alone what its call is not about. -/
theorem run_frame (h : st.Serves c) {k : Key} (hcovers : c.covers k = false) :
    (st.run merge d).db.relationships.get k = d.relationships.get k ∧
      ((st.run merge d).db.interactions.filter fun row => row.key = k) =
        d.interactions.filter fun row => row.key = k := by
  have hupsert : ∀ (fresh : Relationship I) (update : Relationship I → Relationship I),
      (∀ r, (update r).key = r.key) → fresh.key ≠ k →
        (d.upsert fresh update).relationships.get k = d.relationships.get k :=
    fun fresh update hkeep hne => (Db.get_upsert hkeep).trans (if_neg hne)
  cases st with
  | lock k' fields => exact ⟨rfl, rfl⟩
  | updateTrust k' delta reason =>
    obtain ⟨q, reason', rfl, -⟩ := h
    exact ⟨hupsert _ _ (fun _ => rfl) fun hk => of_decide_eq_false hcovers hk.symm, rfl⟩
  | readIdentity k' fields => exact ⟨rfl, rfl⟩
  | writeIdentity k' merged =>
    obtain ⟨fields, rfl⟩ := h
    exact ⟨hupsert _ _ (fun _ => rfl) fun hk => of_decide_eq_false hcovers hk.symm, rfl⟩
  | applyDecay σ rate =>
    obtain ⟨rfl, -⟩ := h
    refine ⟨?_, rfl⟩
    rw [Statement.run, Db.get_decay]
    cases hget : d.relationships.get k with
    | none => rfl
    | some r =>
      have hout : σ.covers r.key = false := (Keyed.get_eq_some.mp hget).2.symm ▸ hcovers
      rw [Option.map_some, Db.decayRow, hout]
      rfl
  | insertInteraction row =>
    obtain ⟨_, _, _, _, _, rfl⟩ := h
    have hne : row.key ≠ k := fun hk => of_decide_eq_false hcovers hk.symm
    refine ⟨rfl, ?_⟩
    rw [Statement.run, List.filter_append, List.filter_cons_of_neg (by simpa using hne),
      List.filter_nil, List.append_nil]
  | countInteraction row =>
    obtain ⟨_, _, _, _, _, rfl⟩ := h
    exact ⟨hupsert _ _ (fun _ => rfl) fun hk => of_decide_eq_false hcovers hk.symm, rfl⟩
  | seed k' level sessionID rest =>
    refine ⟨hupsert _ _ (fun _ => rfl) fun hk => ?_, rfl⟩
    have hin := (h.2 _ List.mem_cons_self).1
    rw [show k' = k from hk, hcovers] at hin
    cases hin
  | commit => exact ⟨rfl, rfl⟩

theorem run_identified (h : st.Serves c) {k : Key} {merged : I}
    (hmem : .identified k merged ∈ (st.run merge d).effects) :
    ∃ fields, c = .upsertIdentity k fields := by
  have hcreation : ∀ k' trust, Effect.identified k merged ∉ creation d k' trust := by
    intro k' trust
    unfold creation
    split <;> simp
  cases st with
  | lock k' fields => exact absurd hmem List.not_mem_nil
  | updateTrust k' delta reason =>
    rcases List.mem_append.mp hmem with hnew | hmoved
    · exact absurd hnew (hcreation _ _)
    · cases List.mem_singleton.mp hmoved
  | readIdentity k' fields => exact absurd hmem List.not_mem_nil
  | writeIdentity k' merged' =>
    rcases List.mem_append.mp hmem with hnew | hsame
    · exact absurd hnew (hcreation _ _)
    · cases List.mem_singleton.mp hsame
      exact h
  | applyDecay σ rate => cases List.mem_singleton.mp hmem
  | insertInteraction row => exact absurd hmem List.not_mem_nil
  | countInteraction row => exact absurd hmem (hcreation _ _)
  | seed k' level sessionID rest => exact absurd hmem (hcreation _ _)
  | commit => exact absurd hmem List.not_mem_nil

end Run

/-! ### Every run -/

namespace Task

/-- The scores are as the call leaves them. -/
def applied (t : Task I F) : Bool :=
  match t.progress with
  | .running st => st.isCommit
  | .succeeded => true
  | .failed => false

def counts (k : Key) (t : Task I F) : ℕ :=
  match t.progress with
  | .running st => st.counts k
  | _ => 0

end Task

/-- Where a task is when its next statement is known. -/
def Progress.ofNext : Option (Statement I F) → Progress I F
  | none => succeeded
  | some st => running st

theorem applied_ofNext (t : Task I F) (next : Option (Statement I F)) :
    Task.applied { t with progress := .ofNext next } = appliedAt next := by
  cases next with
  | none => rfl
  | some st => rfl

theorem counts_ofNext (k : Key) (t : Task I F) (next : Option (Statement I F)) :
    Task.counts k { t with progress := .ofNext next } = countsAt k next := by
  cases next with
  | none => rfl
  | some st => rfl

/-- An interaction that is inserted is counted, or its task is about to count it. -/
structure Inv (d : Db I) (s : Connection I F) : Prop where
  range : ∀ r ∈ s.view.relationships.values, 0 ≤ r.trust ∧ r.trust ≤ 1
  told : ∀ k, (s.view.relationships.get k).map Relationship.told =
    replay k ((d.relationships.get k).map Relationship.told) (s.log.map Prod.snd)
  serves : ∀ (i : ℕ) (t : Task I F) (st : Statement I F), s.tasks[i]? = some t →
    t.progress = .running st → st.Serves t.call
  scores : ∀ (i : ℕ) (t : Task I F), s.tasks[i]? = some t →
    scoresOf i s.log = if t.applied then t.call.score else []
  logged : ∀ p ∈ s.log, p.1 < s.tasks.length
  identified : ∀ (i : ℕ) k merged, (i, .identified k merged) ∈ s.log →
    ∃ (t : Task I F) (fields : F), s.tasks[i]? = some t ∧ t.call = .upsertIdentity k fields
  counted : ∀ k, s.view.rowsOf k = s.view.countOf k + tally (Task.counts k) s.tasks

theorem scoresOf_append (i j : ℕ) (log : List (ℕ × Effect I)) (effects : List (Effect I)) :
    scoresOf j (log ++ effects.map fun e => (i, e)) =
      scoresOf j log ++ if i = j then effects.filterMap Effect.score else [] := by
  unfold scoresOf
  rw [List.filter_append, List.filterMap_append]
  congr 1
  by_cases hij : i = j
  · subst hij
    have hall : (effects.map fun e => (i, e)).filter (fun p => p.1 = i) =
        effects.map fun e => (i, e) := by
      refine List.filter_eq_self.mpr fun p hp => ?_
      obtain ⟨e, -, rfl⟩ := List.mem_map.mp hp
      exact decide_eq_true rfl
    rw [if_pos rfl, hall, List.filterMap_map]
    rfl
  · have hnone : (effects.map fun e => (i, e)).filter (fun p => p.1 = j) = [] := by
      refine List.filter_eq_nil_iff.mpr fun p hp => ?_
      obtain ⟨e, -, rfl⟩ := List.mem_map.mp hp
      simpa using hij
    rw [if_neg hij, hnone]
    rfl

theorem scoresOf_fresh {i : ℕ} {log : List (ℕ × Effect I)} (h : ∀ p ∈ log, p.1 < i) :
    scoresOf i log = [] := by
  have hnone : log.filter (fun p => p.1 = i) = [] := by
    refine List.filter_eq_nil_iff.mpr fun p hp => ?_
    simpa using (h p hp).ne
  rw [scoresOf, hnone]
  rfl

section Steps
variable {merge : Option I → F → Option I} {d : Db I} {s s' : Connection I F} {i : ℕ}
  {t : Task I F} {st : Statement I F}

theorem get_set_task {p : Progress I F} {j : ℕ} {u : Task I F}
    (ht : s.tasks[i]? = some t) (hu : (s.tasks.set i { t with progress := p })[j]? = some u) :
    j = i ∧ u = { t with progress := p } ∨ j ≠ i ∧ s.tasks[j]? = some u := by
  by_cases hj : i = j
  · subst hj
    have hlt := (List.getElem?_eq_some_iff.mp ht).choose
    rw [List.getElem?_set_self hlt] at hu
    exact .inl ⟨rfl, (Option.some.inj hu).symm⟩
  · rw [List.getElem?_set_ne hj] at hu
    exact .inr ⟨Ne.symm hj, hu⟩

/-- The calls of the tasks stay as they are. -/
theorem call_set_task {p : Progress I F} {j : ℕ} {u : Task I F} (ht : s.tasks[i]? = some t)
    (hu : s.tasks[j]? = some u) :
    ∃ u', (s.tasks.set i { t with progress := p })[j]? = some u' ∧ u'.call = u.call := by
  by_cases hj : i = j
  · subst hj
    have hlt := (List.getElem?_eq_some_iff.mp ht).choose
    rw [ht] at hu
    cases hu
    exact ⟨_, List.getElem?_set_self hlt, rfl⟩
  · exact ⟨u, by rw [List.getElem?_set_ne hj]; exact hu, rfl⟩

theorem execute_spec (s : Connection I F) (i : ℕ) (t : Task I F) (st : Statement I F) :
    (s.execute merge i t st).view = (st.run merge s.view).db ∧
      (s.execute merge i t st).log =
        s.log ++ (st.run merge s.view).effects.map (fun e => (i, e)) ∧
      (s.execute merge i t st).tasks =
        s.tasks.set i { t with progress := .ofNext (st.run merge s.view).next } := by
  unfold Connection.execute
  dsimp only
  cases (st.run merge s.view).next with
  | none => exact ⟨rfl, rfl, rfl⟩
  | some st' => exact ⟨rfl, rfl, rfl⟩

theorem Inv.execute (h : Inv d s) (ht : s.tasks[i]? = some t) (hst : t.progress = .running st) :
    Inv d (s.execute merge i t st) := by
  obtain ⟨hview, hlog, htasks⟩ := @execute_spec I F merge s i t st
  have hserves := h.serves i t st ht hst
  constructor
  · rw [hview]
    exact run_range hserves h.range
  · intro k
    rw [hview, hlog, run_told, h.told k, List.map_append, List.map_map]
    unfold replay
    rw [List.foldl_append]
    congr 1
    exact (List.map_id _).symm
  · intro j u st' hu hrunning
    rw [htasks] at hu
    rcases get_set_task ht hu with ⟨rfl, rfl⟩ | ⟨-, hold⟩
    · dsimp only at hrunning ⊢
      cases hnext : (st.run merge s.view).next with
      | none =>
        rw [hnext] at hrunning
        cases hrunning
      | some st'' =>
        rw [hnext] at hrunning
        cases hrunning
        exact serves_next hserves hnext
    · exact h.serves j u st' hold hrunning
  · intro j u hu
    rw [htasks] at hu
    rw [hlog, scoresOf_append]
    rcases get_set_task ht hu with ⟨rfl, rfl⟩ | ⟨hne, hold⟩
    · have happlied : t.applied = st.isCommit := by rw [Task.applied, hst]
      rw [if_pos rfl, h.scores _ t ht, happlied, applied_ofNext]
      exact run_scores hserves
    · rw [if_neg hne.symm, List.append_nil]
      exact h.scores j u hold
  · intro p hp
    rw [htasks, List.length_set]
    rw [hlog] at hp
    rcases List.mem_append.mp hp with hp | hp
    · exact h.logged p hp
    · obtain ⟨e, -, rfl⟩ := List.mem_map.mp hp
      exact (List.getElem?_eq_some_iff.mp ht).choose
  · intro j k merged hmem
    rw [hlog] at hmem
    rw [htasks]
    rcases List.mem_append.mp hmem with hold | hnew
    · obtain ⟨u, fields, hu, hcall⟩ := h.identified j k merged hold
      obtain ⟨u', hu', hcall'⟩ := call_set_task ht hu
      exact ⟨u', fields, hu', hcall'.trans hcall⟩
    · obtain ⟨e, he, heq⟩ := List.mem_map.mp hnew
      cases heq
      obtain ⟨fields, hcall⟩ := run_identified hserves he
      obtain ⟨u', hu', hcall'⟩ := call_set_task ht ht
      exact ⟨u', fields, hu', hcall'.trans hcall⟩
  · intro k
    have hrun := @run_counted I F merge s.view st k
    have hset := tally_set (w := Task.counts k) ht
      { t with progress := .ofNext (st.run merge s.view).next }
    have hnow : t.counts k = st.counts k := by rw [Task.counts, hst]
    have hcounted := h.counted k
    rw [hview, htasks]
    rw [hnow, counts_ofNext] at hset
    omega

theorem Statement.eq_commit (st : Statement I F) (h : st.isCommit = true) : st = .commit := by
  cases st with
  | commit => rfl
  | _ => cases h

theorem score_eq_nil {c : Call F} (h : c.isScore = false) : c.score = [] := by
  cases c with
  | updateTrust k delta reason => cases h
  | upsertIdentity k fields => rfl
  | applyDecay σ rate => cases h
  | recordInteraction k interactionType outcome sentiment sessionID now => rfl
  | seedTrust agentID principalID epochID entries sessionID => rfl

/-- A task that may fail has done nothing that its call would have to finish. -/
theorem mayFail_spec (hst : t.progress = .running st) (hmay : t.mayFail = true) :
    (t.applied = true → t.call.score = []) ∧ ∀ k, t.counts k = 0 := by
  simp only [Task.mayFail, Task.applied, Task.counts, hst] at hmay ⊢
  constructor
  · intro hcommit
    rw [st.eq_commit hcommit] at hmay
    exact score_eq_nil (by simpa using hmay)
  · intro k
    cases st with
    | countInteraction row => cases hmay
    | _ => rfl

theorem Inv.fail (h : Inv d s) (ht : s.tasks[i]? = some t) (hst : t.progress = .running st)
    (hmay : t.mayFail = true) : Inv d (s.finish i t .failed) := by
  obtain ⟨hscore, hcounts⟩ := mayFail_spec hst hmay
  constructor
  · exact h.range
  · exact h.told
  · intro j u st' hu hrunning
    rcases get_set_task ht hu with ⟨rfl, rfl⟩ | ⟨-, hold⟩
    · cases hrunning
    · exact h.serves j u st' hold hrunning
  · intro j u hu
    rcases get_set_task ht hu with ⟨rfl, rfl⟩ | ⟨-, hold⟩
    · refine (h.scores j t ht).trans ?_
      by_cases happlied : t.applied = true
      · rw [if_pos happlied]
        exact hscore happlied
      · rw [if_neg happlied]
        rfl
    · exact h.scores j u hold
  · intro p hp
    rw [Connection.finish, List.length_set]
    exact h.logged p hp
  · intro j k merged hmem
    obtain ⟨u, fields, hu, hcall⟩ := h.identified j k merged hmem
    obtain ⟨u', hu', hcall'⟩ := call_set_task ht hu
    exact ⟨u', fields, hu', hcall'.trans hcall⟩
  · intro k
    have hset := tally_set (w := Task.counts k) ht { t with progress := .failed }
    have hfailed : Task.counts k ({ t with progress := .failed } : Task I F) = 0 := rfl
    have hcounted := h.counted k
    rw [hcounts, hfailed] at hset
    rw [Connection.finish]
    dsimp only
    omega

/-- A call that begins has done nothing to the scores, and counts nothing. -/
theorem first_spec {c : Call F} (h : c.first = some st) :
    (st.isCommit = true → c.score = []) ∧ ∀ k, st.counts k = 0 := by
  cases c with
  | updateTrust k delta reason =>
    simp only [Call.first] at h
    split at h
    · obtain ⟨q, -, rfl⟩ := Option.map_eq_some_iff.mp h
      exact ⟨fun hcommit => absurd hcommit Bool.false_ne_true, fun _ => rfl⟩
    · cases h
  | upsertIdentity k fields =>
    simp only [Call.first] at h
    split at h
    · cases h
      exact ⟨fun _ => rfl, fun _ => rfl⟩
    · cases h
  | applyDecay σ rate =>
    simp only [Call.first] at h
    cases hrate : rate.finite with
    | none =>
      rw [hrate] at h
      cases h
    | some q =>
      rw [hrate] at h
      dsimp only at h
      split at h
      · cases h
        exact ⟨fun hcommit => absurd hcommit Bool.false_ne_true, fun _ => rfl⟩
      · cases h
  | recordInteraction k interactionType outcome sentiment sessionID now =>
    simp only [Call.first] at h
    split at h
    · obtain ⟨q, -, rfl⟩ := Option.map_eq_some_iff.mp h
      exact ⟨fun _ => rfl, fun _ => rfl⟩
    · cases h
  | seedTrust agentID principalID epochID entries sessionID =>
    cases h
    refine ⟨fun _ => rfl, fun k => ?_⟩
    cases seedRows agentID principalID epochID entries with
    | nil => rfl
    | cons p rest => rfl

theorem get_append_task {u v : Task I F} {j : ℕ} (hv : (s.tasks ++ [u])[j]? = some v) :
    s.tasks[j]? = some v ∨ j = s.tasks.length ∧ v = u := by
  rcases lt_or_ge j s.tasks.length with hj | hj
  · rw [List.getElem?_append_left hj] at hv
    exact .inl hv
  · rw [List.getElem?_append_right hj] at hv
    obtain ⟨hlt, rfl⟩ := List.getElem?_eq_some_iff.mp hv
    rw [List.length_singleton] at hlt
    exact .inr ⟨by omega, by simp⟩

theorem Inv.append (h : Inv d s) {u : Task I F} (hserves : ∀ st, u.progress = .running st →
    st.Serves u.call) (hscore : u.applied = true → u.call.score = [])
    (hcounts : ∀ k, u.counts k = 0) : Inv d { s with tasks := s.tasks ++ [u] } := by
  constructor
  · exact h.range
  · exact h.told
  · intro j v st' hv hrunning
    rcases get_append_task hv with hold | ⟨-, rfl⟩
    · exact h.serves j v st' hold hrunning
    · exact hserves st' hrunning
  · intro j v hv
    rcases get_append_task hv with hold | ⟨rfl, rfl⟩
    · exact h.scores j v hold
    · rw [scoresOf_fresh h.logged]
      by_cases happlied : v.applied = true
      · rw [if_pos happlied, hscore happlied]
      · rw [if_neg happlied]
  · intro p hp
    rw [List.length_append]
    exact Nat.lt_add_right _ (h.logged p hp)
  · intro j k merged hmem
    obtain ⟨v, fields, hv, hcall⟩ := h.identified j k merged hmem
    have hlt := (List.getElem?_eq_some_iff.mp hv).choose
    exact ⟨v, fields, (List.getElem?_append_left hlt).trans hv, hcall⟩
  · intro k
    rw [tally_concat, hcounts, Nat.add_zero]
    exact h.counted k

theorem Inv.call (h : Inv d s) {c : Call F} (hs : s.step merge (.call c) = some s') :
    Inv d s' := by
  simp only [Connection.step, Option.some.injEq] at hs
  subst hs
  cases hfirst : (c.first : Option (Statement I F)) with
  | none =>
    exact h.append (fun st hst => by cases hst) (fun happlied => by cases happlied) fun _ => rfl
  | some st =>
    obtain ⟨hscore, hcounts⟩ := first_spec hfirst
    refine h.append (fun st' hst => ?_) hscore hcounts
    cases hst
    exact serves_first hfirst

/-- What a task does when it goes on. -/
theorem advance_cases {fails : Bool} (hs : s.step merge (.advance i fails) = some s') :
    ∃ t st, s.tasks[i]? = some t ∧ t.progress = .running st ∧
      (s' = s.execute merge i t st ∨ fails = true ∧ s' = s.finish i t .failed) := by
  unfold Connection.step at hs
  dsimp only at hs
  cases ht : s.tasks[i]? with
  | none =>
    rw [ht] at hs
    cases hs
  | some t =>
    rw [ht] at hs
    dsimp only at hs
    cases hst : t.progress with
    | succeeded =>
      rw [hst] at hs
      cases hs
    | failed =>
      rw [hst] at hs
      cases hs
    | running st =>
      rw [hst] at hs
      dsimp only at hs
      refine ⟨t, st, rfl, hst, ?_⟩
      split at hs
      · split at hs
        · cases hs
          exact .inl rfl
        · cases hs
      · split at hs
        · next hfails =>
            cases hs
            exact .inr ⟨hfails, rfl⟩
        · cases hs
          exact .inl rfl

theorem Inv.step (h : Inv d s) {e : Event F} (he : Harmless s e) (hs : s.step merge e = some s') :
    Inv d s' := by
  cases e with
  | call c => exact h.call hs
  | advance i fails =>
    obtain ⟨t, st, ht, hst, rfl | ⟨hfails, rfl⟩⟩ := advance_cases hs
    · exact h.execute ht hst
    · exact h.fail ht hst (he hfails t ht)

theorem Inv.init (hd : d.Sound) : Inv d (system merge d : System (Connection I F) _).init := by
  constructor
  · exact hd.range
  · intro k
    rfl
  · intro i t st ht
    cases ht
  · intro i t ht
    cases ht
  · intro p hp
    cases hp
  · intro i k merged hmem
    cases hmem
  · intro k
    exact (hd.counted k).symm

theorem Inv.quiet (h : Inv d s) (hquiet : s.Quiet) : s.Consistent d := by
  constructor
  · exact h.range
  · exact h.told
  · intro i t ht
    have hrunning := hquiet t (List.mem_of_getElem? ht)
    rw [h.scores i t ht]
    cases hp : t.progress with
    | running st =>
      rw [hp] at hrunning
      cases hrunning
    | succeeded => simp [Task.applied, hp, Progress.isSuccess]
    | failed => simp [Task.applied, hp, Progress.isSuccess]
  · exact h.logged
  · exact h.identified
  · intro k
    have hzero : tally (Task.counts k) s.tasks = 0 := by
      refine tally_eq_zero.mpr fun t ht => ?_
      have hrunning := hquiet t ht
      cases hp : t.progress with
      | running st =>
        rw [hp] at hrunning
        cases hrunning
      | succeeded => simp only [Task.counts, hp]
      | failed => simp only [Task.counts, hp]
    rw [h.counted k, hzero, Nat.add_zero]

/-- A task that goes on leaves alone what its call is not about. -/
theorem Inv.frame (h : Inv d s) {fails : Bool}
    (hs : s.step merge (.advance i fails) = some s') (ht : s.tasks[i]? = some t) {k : Key}
    (hk : t.call.covers k = false) :
    s'.view.relationships.get k = s.view.relationships.get k ∧
      s'.view.interactions.filter (fun row => row.key = k) =
        s.view.interactions.filter fun row => row.key = k := by
  obtain ⟨u, st, hu, hst, rfl | ⟨-, rfl⟩⟩ := advance_cases hs
  · rw [ht] at hu
    cases hu
    rw [(@execute_spec I F merge s i t st).1]
    exact run_frame (h.serves i t st ht hst) hk
  · exact ⟨rfl, rfl⟩

theorem relationships_consistent {d : Db I} (hd : d.Sound) {s : Connection I F}
    (h : (system merge d).Reaches Harmless s) :
    (s.Quiet → s.Consistent d) ∧
      ∀ i fails s', s.step merge (.advance i fails) = some s' → ∀ t ∈ s.tasks[i]?, ∀ k,
        t.call.covers k = false →
          s'.view.relationships.get k = s.view.relationships.get k ∧
            s'.view.interactions.filter (fun row => row.key = k) =
              s.view.interactions.filter fun row => row.key = k := by
  have hinv : Inv d s :=
    System.Reaches.invariant (Inv.init hd) (fun _ _ _ hs he hstep => hs.step he hstep) h
  exact ⟨hinv.quiet, fun _ _ _ hstep _ ht _ hk => hinv.frame hstep ht hk⟩

end Steps

/-! ### Two agents that meet -/

/-- `merge_identity` on an identity of one name. -/
def mergeName (existing : Option String) (name : String) : Option String :=
  if name = "" then existing else some name

def unknown : Db String := ⟨.empty _, []⟩

def peer : Key := ⟨"ann", "agent", "bob", "agent", "local", "live"⟩

def meeting : Call String := .recordInteraction peer "chat" none (.fin 0) "run" 0

def thanks : Call String := .updateTrust peer (.fin 1) "helped"

theorem unknown_sound : unknown.Sound := by
  constructor
  · intro r hr
    cases hr
  · intro k
    rfl

/-- The trust is stored between the two statements of the meeting, whose row the commit of the
update stores with it. -/
theorem relationships_consistent_meeting :
    ∃ s, (system mergeName unknown).Reaches Harmless s ∧ s.Quiet ∧ s.view.countOf peer = 1 ∧
      s.Consistent unknown := by
  have hrun : ∃ s, ((system mergeName unknown).guarded Harmless).exec
      [.call meeting, .call thanks, .advance 0 false, .advance 1 false, .advance 1 false,
        .advance 0 false, .advance 0 false] = some s ∧ s.Quiet ∧ s.view.countOf peer = 1 :=
    System.exists_of_exec (by decide)
  obtain ⟨s, hexec, hquiet, hcount⟩ := hrun
  have hreaches := (System.reachable_exec hexec).of_guarded
  exact ⟨s, hreaches, hquiet, hcount, (relationships_consistent unknown_sound hreaches).1 hquiet⟩

/-- The count of the meeting fails, and the commit of the update stores its row. -/
theorem relationships_drift :
    ∃ s, (system mergeName unknown).Reachable s ∧ s.Quiet ∧ s.committed.countOf peer = 0 ∧
      s.committed.rowsOf peer = 1 ∧ s.view.countOf peer = 0 ∧ s.view.rowsOf peer = 1 := by
  have hrun : ∃ s, (system mergeName unknown).exec
      [.call meeting, .advance 0 false, .advance 0 true, .call thanks, .advance 1 false,
        .advance 1 false] = some s ∧ s.Quiet ∧ s.committed.countOf peer = 0 ∧
      s.committed.rowsOf peer = 1 ∧ s.view.countOf peer = 0 ∧ s.view.rowsOf peer = 1 :=
    System.exists_of_exec (by decide)
  obtain ⟨s, hexec, hs⟩ := hrun
  exact ⟨s, System.reachable_exec hexec, hs⟩

end Persatrix.Relationships
