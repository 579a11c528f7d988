import Mathlib.Data.Rat.Defs
import Mathlib.Data.List.Nodup
import Mathlib.Data.Nat.Notation
import Mathlib.Algebra.Order.Field.Rat
import Mathlib.Data.List.MinMax

/-!
# The episodes table

The columns that the statements below read or write, the rows in the order of their insertion,
and the statements: the insert of a closed interaction, the summary that its second phase writes,
the sweep of the janitor, the read and the write of the retention, and the deletions. The id of a
new row is given; the insert fails when it is taken. Times are in seconds.
-/
namespace Persatrix.Episodes

def summaryPendingText : String := "[summary pending]"
def summaryUnavailableText : String := "[interaction summary unavailable]"

structure Episode where
  id : String
  agentID : String
  interactionID : Option String
  summary : String
  importance : ℚ
  accessCount : ℕ
  /-- Whether `tags_json` holds a tag that begins with `procedure:`. -/
  procedure : Bool
  createdAt : ℚ
  closedAt : Option ℚ
  compressedAt : Option ℚ
  compressionLevel : ℕ
  confidence : ℚ
  lastValidatedAt : Option ℚ
deriving DecidableEq

/-- The arguments of an insert that differ from one row to another. -/
structure EpisodeArgs where
  id : String
  agentID : String
  interactionID : Option String
  summary : String
  importance : ℚ
  procedure : Bool
  closedAt : Option ℚ
deriving DecidableEq

def EpisodeArgs.row (a : EpisodeArgs) (now : ℚ) : Episode :=
  ⟨a.id, a.agentID, a.interactionID, a.summary, a.importance, 0, a.procedure, now, a.closedAt,
    none, 0, 1, none⟩

def insertEpisode (a : EpisodeArgs) (now : ℚ) (rows : List Episode) : Option (List Episode) :=
  if a.id ∈ rows.map Episode.id then none else some (rows ++ [a.row now])

/-! ### Updates -/

/-- `UPDATE episodes SET … WHERE …`. -/
def update (hits : Episode → Bool) (f : Episode → Episode) (rows : List Episode) :
    List Episode :=
  rows.map fun e => if hits e then f e else e

/-- A row whose summary a statement wrote. -/
structure Change where
  rowID : String
  before : String
  after : String
deriving DecidableEq

/-- The rows that an update of the summaries hits. -/
def changes (hits : Episode → Bool) (text : String) (rows : List Episode) : List Change :=
  (rows.filter hits).map fun e => ⟨e.id, e.summary, text⟩

def pendingOf (agentID interactionID : String) (e : Episode) : Bool :=
  e.agentID = agentID && e.interactionID = some interactionID && e.summary = summaryPendingText

/-- The rows after the update, and whether it hit one. -/
def updateEpisodeSummary (agentID interactionID summary : String) (rows : List Episode) :
    List Episode × Bool :=
  (update (pendingOf agentID interactionID) (fun e => { e with summary }) rows,
    0 < rows.countP (pendingOf agentID interactionID))

def stuck (agentID : String) (cutoff : ℚ) (e : Episode) : Bool :=
  e.agentID = agentID && e.summary = summaryPendingText &&
    e.closedAt.any fun closed => closed < cutoff

def cleanupClosingInteractions (agentID : String) (graceSec now : ℚ) (rows : List Episode) :
    List Episode :=
  update (stuck agentID (now - graceSec)) (fun e => { e with summary := summaryUnavailableText })
    rows

/-! ### Retention -/

def daySeconds : ℚ := 86400

/-- The rows that a run of the retention reads, the oldest first. -/
def oldEpisodes (agentID : String) (cutoff : ℚ) (batchSize : ℕ) (rows : List Episode) :
    List Episode :=
  ((rows.filter fun e =>
    e.agentID = agentID && e.compressionLevel < 1 && e.createdAt < cutoff).mergeSort
      fun e f => e.createdAt ≤ f.createdAt).take batchSize

def compress (agentID : String) (read : Episode) (summary : String) (now : ℚ)
    (rows : List Episode) : List Episode :=
  update (fun e => e.id = read.id && e.agentID = agentID)
    (fun e => { e with
      summary, compressionLevel := read.compressionLevel + 1, compressedAt := some now }) rows

/-! ### Deletions -/

def ttlImportanceThreshold : ℚ := 3 / 10

/-- The statements that delete episodes: by id, what is compressed and old, the tombstones of an
interaction, and the three of the eviction. -/
inductive Deletion where
  | episode (id : String)
  | oldEpisodes (cutoff : ℚ)
  | failedEpisode (interactionID : String)
  | ttl (cutoff : ℚ)
  | sizeCap (ids : List String)
  | procedural (ids : List String) (now : ℚ)
deriving DecidableEq

def Deletion.hits (agentID : String) (e : Episode) : Deletion → Bool
  | .episode id => e.id = id && e.agentID = agentID
  | .oldEpisodes cutoff => e.agentID = agentID && 1 ≤ e.compressionLevel && e.createdAt < cutoff
  | .failedEpisode interactionID =>
    e.agentID = agentID && e.interactionID = some interactionID &&
      e.summary = summaryUnavailableText
  | .ttl cutoff =>
    e.agentID = agentID && e.importance < ttlImportanceThreshold && e.createdAt < cutoff &&
      !e.procedure
  | .sizeCap ids => e.agentID = agentID && ids.contains e.id
  | .procedural ids now =>
    e.agentID = agentID && ids.contains e.id && e.lastValidatedAt.all fun at' => at' < now

def delete (agentID : String) (d : Deletion) (rows : List Episode) : List Episode :=
  rows.filter fun e => !d.hits agentID e

/-! ### What the statements keep -/

variable {rows : List Episode} {hits : Episode → Bool} {f : Episode → Episode}

@[simp] theorem mem_update {r : Episode} :
    r ∈ update hits f rows ↔ ∃ e ∈ rows, (if hits e then f e else e) = r := List.mem_map

theorem update_ids (hf : ∀ e, (f e).id = e.id) :
    (update hits f rows).map Episode.id = rows.map Episode.id := by
  rw [update, List.map_map]
  refine List.map_congr_left fun e _ => ?_
  simp only [Function.comp_apply]
  split
  · exact hf e
  · rfl

@[simp] theorem mem_changes {text : String} {c : Change} :
    c ∈ changes hits text rows ↔ ∃ e ∈ rows, hits e = true ∧ ⟨e.id, e.summary, text⟩ = c := by
  simp [changes, and_assoc]

theorem mem_delete {agentID : String} {d : Deletion} {e : Episode} :
    e ∈ delete agentID d rows ↔ e ∈ rows ∧ d.hits agentID e = false := by
  simp [delete]

theorem mem_of_mem_oldEpisodes {agentID : String} {cutoff : ℚ} {batchSize : ℕ} {e : Episode}
    (h : e ∈ oldEpisodes agentID cutoff batchSize rows) : e ∈ rows := by
  have hsorted := List.mem_of_mem_take h
  rw [List.mem_mergeSort] at hsorted
  exact List.mem_of_mem_filter hsorted

/-- Two rows with one id are the same row. -/
theorem eq_of_id {e r : Episode} (hids : (rows.map Episode.id).Nodup) (he : e ∈ rows)
    (hr : r ∈ rows) (h : e.id = r.id) : e = r := List.inj_on_of_nodup_map hids he hr h

theorem nodup_delete {agentID : String} {d : Deletion} (hids : (rows.map Episode.id).Nodup) :
    ((delete agentID d rows).map Episode.id).Nodup :=
  hids.sublist (List.filter_sublist.map _)

theorem nodup_oldEpisodes {agentID : String} {cutoff : ℚ} {batchSize : ℕ}
    (hids : (rows.map Episode.id).Nodup) :
    ((oldEpisodes agentID cutoff batchSize rows).map Episode.id).Nodup := by
  refine List.Nodup.sublist ((List.take_sublist _ _).map _) ?_
  refine (((List.mergeSort_perm _ _).map Episode.id).nodup_iff).mpr ?_
  exact hids.sublist (List.filter_sublist.map _)

end Persatrix.Episodes

/-!
## The eviction of episodes

One pass deletes what is unimportant and old, then the excess with the lowest scores, then the
procedures whose confidence has decayed. Each statement is a step of its own: what a pass deletes
was chosen from rows that it read before.
-/
namespace Persatrix.Episodes

def wImportance : ℚ := 6 / 10
def wRecency : ℚ := 3 / 10
def wAccess : ℚ := 1 / 10

/-- `(value - least) / span`, or 1 where all the values are the same. -/
def recencyNorm (createdAts : List ℚ) (createdAt : ℚ) : ℚ :=
  let least := createdAts.foldl min createdAt
  let span := createdAts.foldl max createdAt - least
  if 0 < span then (createdAt - least) / span else 1

def accessNorm (accessCounts : List ℕ) (accessCount : ℕ) : ℚ :=
  let most := accessCounts.foldl max accessCount
  if 0 < most then accessCount / most else 0

def score (rows : List Episode) (e : Episode) : ℚ :=
  e.importance * wImportance
    + recencyNorm (rows.map Episode.createdAt) e.createdAt * wRecency
    + accessNorm (rows.map Episode.accessCount) e.accessCount * wAccess

/-- By the score, and by the time of creation where the scores are equal. -/
def scoreLE (rows : List Episode) (e f : Episode) : Bool :=
  score rows e < score rows f || score rows e = score rows f && e.createdAt ≤ f.createdAt

def resolveBaseConfidence (e : Episode) : ℚ :=
  if e.confidence = 1 ∧ e.lastValidatedAt = none ∧ e.importance ≠ 1 then e.importance
  else e.confidence

/-- The arguments of a pass, as the constructor accepts them; `exp` is the exponential function. -/
structure EvictionPass where
  agentID : String
  episodicCap : ℕ
  ttlLowImportanceDays : ℕ
  lambdaPerDay : ℚ
  cMin : ℚ
  exp : ℚ → ℚ
  cap_pos : 1 ≤ episodicCap
  days_pos : 1 ≤ ttlLowImportanceDays

namespace EvictionPass

def ttlSeconds (p : EvictionPass) : ℚ := p.ttlLowImportanceDays * daySeconds

def computeDecayedConfidence (p : EvictionPass) (c0 ageSeconds : ℚ) : ℚ :=
  max 0 (min 1 c0) * p.exp (-p.lambdaPerDay * (max 0 ageSeconds / daySeconds))

def evictable (p : EvictionPass) (rows : List Episode) : List Episode :=
  rows.filter fun e => e.agentID = p.agentID && !e.procedure

def procedures (p : EvictionPass) (rows : List Episode) : List Episode :=
  rows.filter fun e => e.agentID = p.agentID && e.procedure

/-- The ids of the excess rows, those with the lowest scores. -/
def victims (p : EvictionPass) (excess : ℕ) (rows : List Episode) : List String :=
  let candidates := p.evictable rows
  ((candidates.mergeSort (scoreLE candidates)).take excess).map Episode.id

def decayed (p : EvictionPass) (now : ℚ) (e : Episode) : Bool :=
  p.computeDecayedConfidence (resolveBaseConfidence e)
    (max 0 (now - e.lastValidatedAt.getD e.createdAt)) < p.cMin

end EvictionPass

/-- The statement that a pass takes next. -/
inductive EvictionStage where
  | evictTTL
  | count
  | select (excess : ℕ)
  | evictSizeCap (ids : List String)
  | selectProcedures
  | evictProceduralDecay (ids : List String) (now : ℚ)
  | countAfter
  | done
deriving DecidableEq

structure Eviction where
  pass : EvictionPass
  stage : EvictionStage

namespace Eviction

/-- The deletion that the next statement is, if it is one. -/
def deletion (v : Eviction) (now : ℚ) : Option Deletion :=
  match v.stage with
  | .evictTTL => some (.ttl (now - v.pass.ttlSeconds))
  | .evictSizeCap ids => some (.sizeCap ids)
  | .evictProceduralDecay ids at' => some (.procedural ids at')
  | _ => none

/-- The stage after the next statement. -/
def next (v : Eviction) (now : ℚ) (rows : List Episode) : EvictionStage :=
  match v.stage with
  | .evictTTL => .count
  | .count =>
    let total := (v.pass.evictable rows).length
    if total ≤ v.pass.episodicCap then .selectProcedures else .select (total - v.pass.episodicCap)
  | .select excess =>
    match v.pass.victims excess rows with
    | [] => .selectProcedures
    | ids => .evictSizeCap ids
  | .evictSizeCap _ => .selectProcedures
  | .selectProcedures =>
    match ((v.pass.procedures rows).filter (v.pass.decayed now)).map Episode.id with
    | [] => .countAfter
    | ids => .evictProceduralDecay ids now
  | .evictProceduralDecay _ _ => .countAfter
  | .countAfter | .done => .done

/-- One statement of the pass. -/
def run (v : Eviction) (now : ℚ) (rows : List Episode) : Eviction × List Episode :=
  ({ v with stage := v.next now rows },
    match v.deletion now with
    | some d => delete v.pass.agentID d rows
    | none => rows)

end Eviction
end Persatrix.Episodes
