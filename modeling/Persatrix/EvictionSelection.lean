import Persatrix.EpisodeTable
import Mathlib.Data.List.Perm.Basic

/-!
# What an eviction pass deletes

The three steps of a pass run on one table, and refreshes of procedures land between their
statements. Each step is given by what it leaves of the rows that the first two policies govern,
of the agent's procedures, and of the rows of the other agents.
-/
namespace Persatrix.Episodes
open scoped List

/-! ### Refreshes -/

/-- The rows of an agent that carry the tag of a procedure are validated. -/
structure Refresh where
  agentID : String
  tagged : Episode → Bool
  now : ℚ

namespace Refresh

def hits (r : Refresh) (e : Episode) : Bool := e.agentID = r.agentID && e.procedure && r.tagged e

def validate (r : Refresh) (e : Episode) : Episode :=
  { e with confidence := 1, lastValidatedAt := some r.now }

end Refresh

def refreshConfidence (rows : List Episode) (r : Refresh) : List Episode :=
  update r.hits r.validate rows

/-- The refreshes land one after another. -/
def land (rs : List Refresh) (rows : List Episode) : List Episode := rs.foldl refreshConfidence rows

/-- A row after the refreshes. -/
def validated (rs : List Refresh) (e : Episode) : Episode :=
  rs.foldl (fun e r => if r.hits e then r.validate e else e) e

/-! ### A pass -/

structure EvictionStats where
  ttlEvicted : ℕ
  capEvicted : ℕ
  totalAfter : ℕ
  proceduralEvicted : ℕ
deriving DecidableEq

/-- The refreshes that land before each statement of a pass, and the times that it takes. When a
step ends early, those before its other statements land after it. -/
structure Interleaving where
  evictTTL : List Refresh
  count : List Refresh
  select : List Refresh
  evictSizeCap : List Refresh
  selectProcedures : List Refresh
  evictProceduralDecay : List Refresh
  countAfter : List Refresh
  ttlNow : ℚ
  proceduralNow : ℚ

namespace Interleaving

/-- What lands until the second step is over. -/
def untilSizeCap (x : Interleaving) : List Refresh :=
  x.evictTTL ++ (x.count ++ (x.select ++ x.evictSizeCap))

/-- What lands before the procedures are read. -/
def untilSelect (x : Interleaving) : List Refresh := x.untilSizeCap ++ x.selectProcedures

/-- What lands before the decayed procedures are deleted. -/
def untilDelete (x : Interleaving) : List Refresh := x.untilSelect ++ x.evictProceduralDecay

def all (x : Interleaving) : List Refresh := x.untilDelete ++ x.countAfter

end Interleaving

namespace EvictionPass

def count (p : EvictionPass) (rows : List Episode) : ℕ := (p.evictable rows).length

/-- The number of rows that a deletion hits, and the table after it. -/
def execute (p : EvictionPass) (d : Deletion) (rows : List Episode) : ℕ × List Episode :=
  (rows.countP (d.hits p.agentID), delete p.agentID d rows)

def evictTTL (p : EvictionPass) (x : Interleaving) (rows : List Episode) : ℕ × List Episode :=
  p.execute (.ttl (x.ttlNow - p.ttlSeconds)) (land x.evictTTL rows)

def evictSizeCap (p : EvictionPass) (x : Interleaving) (rows : List Episode) :
    ℕ × List Episode :=
  let rows := land x.count rows
  let total := p.count rows
  if total ≤ p.episodicCap then (0, land (x.select ++ x.evictSizeCap) rows)
  else
    let rows := land x.select rows
    match p.victims (total - p.episodicCap) rows with
    | [] => (0, land x.evictSizeCap rows)
    | ids => (ids.length, delete p.agentID (.sizeCap ids) (land x.evictSizeCap rows))

def evictProceduralDecay (p : EvictionPass) (x : Interleaving) (rows : List Episode) :
    ℕ × List Episode :=
  let rows := land x.selectProcedures rows
  match ((p.procedures rows).filter (p.decayed x.proceduralNow)).map Episode.id with
  | [] => (0, land x.evictProceduralDecay rows)
  | ids => p.execute (.procedural ids x.proceduralNow) (land x.evictProceduralDecay rows)

def run (p : EvictionPass) (x : Interleaving) (rows : List Episode) :
    EvictionStats × List Episode :=
  let ttl := p.evictTTL x rows
  let cap := p.evictSizeCap x ttl.2
  let decay := p.evictProceduralDecay x cap.2
  let rows := land x.countAfter decay.2
  (⟨ttl.1, cap.1, p.count rows, decay.1⟩, rows)

/-- The row is of no importance and older than the time to live. -/
def expired (p : EvictionPass) (x : Interleaving) (e : Episode) : Bool :=
  e.importance < ttlImportanceThreshold && e.createdAt < x.ttlNow - p.ttlSeconds

/-- The rows of the other agents. -/
def others (p : EvictionPass) (rows : List Episode) : List Episode :=
  rows.filter fun e => e.agentID ≠ p.agentID

end EvictionPass

/-- So many of the rows, whose scores (and times of creation, where these are equal) are no
greater than those of the remaining rows. -/
structure Lowest (rows : List Episode) (n : ℕ) (gone : List Episode) : Prop where
  nodup : gone.Nodup
  subset : gone ⊆ rows
  length : gone.length = n
  le : ∀ e ∈ gone, ∀ f ∈ rows, f ∉ gone → scoreLE rows e f = true

/-! ### What a refresh keeps -/

theorem land_eq_map (rs : List Refresh) (rows : List Episode) :
    land rs rows = rows.map (validated rs) := by
  induction rs generalizing rows with
  | nil => exact (List.map_id' rows).symm
  | cons r rs ih =>
    have hcons : land (r :: rs) rows = land rs (refreshConfidence rows r) := rfl
    rw [hcons, ih, refreshConfidence, update, List.map_map]
    rfl

theorem land_append (rs rs' : List Refresh) (rows : List Episode) :
    land (rs ++ rs') rows = land rs' (land rs rows) := List.foldl_append

/-- What does not depend on the validation of a row stays as it is. -/
theorem validated_frame {α : Type} {g : Episode → α}
    (hg : ∀ (r : Refresh) (e : Episode), g (r.validate e) = g e) (rs : List Refresh)
    (e : Episode) : g (validated rs e) = g e := by
  induction rs generalizing e with
  | nil => rfl
  | cons r rs ih =>
    have hcons : validated (r :: rs) e =
        validated rs (if r.hits e then r.validate e else e) := rfl
    rw [hcons, ih]
    split_ifs
    · exact hg r e
    · rfl

@[simp] theorem validated_id (rs : List Refresh) (e : Episode) : (validated rs e).id = e.id :=
  validated_frame (fun _ _ => rfl) rs e

@[simp] theorem validated_agentID (rs : List Refresh) (e : Episode) :
    (validated rs e).agentID = e.agentID := validated_frame (fun _ _ => rfl) rs e

@[simp] theorem validated_procedure (rs : List Refresh) (e : Episode) :
    (validated rs e).procedure = e.procedure := validated_frame (fun _ _ => rfl) rs e

/-- A row that is no procedure is not refreshed. -/
theorem validated_of_not_procedure {e : Episode} (h : e.procedure = false) (rs : List Refresh) :
    validated rs e = e := by
  induction rs with
  | nil => rfl
  | cons r rs ih =>
    have hmiss : r.hits e = false := by simp [Refresh.hits, h]
    have hcons : validated (r :: rs) e =
        validated rs (if r.hits e then r.validate e else e) := rfl
    rw [hcons, hmiss]
    exact ih

theorem filter_land {q : Episode → Bool} (hq : ∀ rs e, q (validated rs e) = q e)
    (rs : List Refresh) (rows : List Episode) :
    (land rs rows).filter q = land rs (rows.filter q) := by
  rw [land_eq_map, land_eq_map, List.filter_map]
  congr 1
  exact List.filter_congr fun e _ => hq rs e

@[simp] theorem land_ids (rs : List Refresh) (rows : List Episode) :
    (land rs rows).map Episode.id = rows.map Episode.id := by
  rw [land_eq_map, List.map_map]
  exact List.map_congr_left fun e _ => validated_id rs e

theorem filter_delete (agentID : String) (d : Deletion) (q : Episode → Bool)
    (rows : List Episode) :
    (delete agentID d rows).filter q = delete agentID d (rows.filter q) := by
  rw [delete, delete, List.filter_filter, List.filter_filter]
  exact List.filter_congr fun e _ => Bool.and_comm _ _

theorem delete_eq_self {agentID : String} {d : Deletion} {rows : List Episode}
    (h : ∀ e ∈ rows, d.hits agentID e = false) : delete agentID d rows = rows :=
  List.filter_eq_self.mpr fun e he => by simp [h e he]

namespace EvictionPass
variable {p : EvictionPass} {x : Interleaving} {rows : List Episode}

theorem mem_evictable {e : Episode} :
    e ∈ p.evictable rows ↔ e ∈ rows ∧ e.agentID = p.agentID ∧ e.procedure = false := by
  simp [evictable]

theorem mem_procedures {e : Episode} :
    e ∈ p.procedures rows ↔ e ∈ rows ∧ e.agentID = p.agentID ∧ e.procedure = true := by
  simp [procedures]

theorem mem_others {e : Episode} : e ∈ p.others rows ↔ e ∈ rows ∧ e.agentID ≠ p.agentID := by
  simp [others]

@[simp] theorem evictable_land (rs : List Refresh) :
    p.evictable (land rs rows) = p.evictable rows := by
  unfold evictable
  rw [filter_land (fun _ _ => by simp), land_eq_map]
  refine (List.map_congr_left fun e he => ?_).trans (List.map_id' _)
  have hprocedure : e.procedure = false := (mem_evictable.mp he).2.2
  exact validated_of_not_procedure hprocedure rs

theorem procedures_land (rs : List Refresh) :
    p.procedures (land rs rows) = land rs (p.procedures rows) :=
  filter_land (fun _ _ => by simp) rs rows

theorem others_land (rs : List Refresh) : p.others (land rs rows) = land rs (p.others rows) :=
  filter_land (fun _ _ => by simp) rs rows

/-! ### The steps -/

/-- A deletion leaves the rows that it does not hit. -/
theorem filter_execute {d : Deletion} {q : Episode → Bool}
    (h : ∀ e ∈ rows, q e = true → d.hits p.agentID e = false) :
    (p.execute d rows).2.filter q = rows.filter q := by
  rw [execute, filter_delete]
  refine delete_eq_self fun e he => ?_
  obtain ⟨hmem, hq⟩ := List.mem_filter.mp he
  exact h e hmem hq

theorem evictable_evictTTL :
    p.evictable (p.evictTTL x rows).2 = (p.evictable rows).filter fun e => !p.expired x e := by
  have hstep : p.evictable (p.evictTTL x rows).2 =
      delete p.agentID (.ttl (x.ttlNow - p.ttlSeconds)) (p.evictable (land x.evictTTL rows)) :=
    filter_delete _ _ _ _
  rw [hstep, evictable_land, delete]
  refine List.filter_congr fun e he => ?_
  obtain ⟨-, hagent, hprocedure⟩ := mem_evictable.mp he
  simp [Deletion.hits, expired, hagent, hprocedure]

theorem procedures_evictTTL :
    p.procedures (p.evictTTL x rows).2 = land x.evictTTL (p.procedures rows) := by
  rw [← procedures_land]
  refine filter_execute fun e _ he => ?_
  have hprocedure : e.procedure = true := by simpa using (Bool.and_eq_true _ _ ▸ he).2
  simp [Deletion.hits, hprocedure]

theorem others_evictTTL : p.others (p.evictTTL x rows).2 = land x.evictTTL (p.others rows) := by
  rw [← others_land]
  refine filter_execute fun e _ he => ?_
  simp [Deletion.hits, of_decide_eq_true he]

theorem evictSizeCap_eq :
    p.evictSizeCap x rows =
      ((p.victims (p.count rows - p.episodicCap) rows).length,
        delete p.agentID (.sizeCap (p.victims (p.count rows - p.episodicCap) rows))
          (land (x.count ++ (x.select ++ x.evictSizeCap)) rows)) := by
  have hnone (rows : List Episode) : delete p.agentID (.sizeCap []) rows = rows :=
    delete_eq_self fun e _ => by simp [Deletion.hits]
  have hcount (rs : List Refresh) : p.count (land rs rows) = p.count rows := by
    rw [count, count, evictable_land]
  have hvictims (n : ℕ) : p.victims n (land x.select (land x.count rows)) = p.victims n rows := by
    rw [victims, victims, evictable_land, evictable_land]
  unfold evictSizeCap
  dsimp only
  rw [hcount, hvictims, land_append x.count, land_append x.select]
  split_ifs with htotal
  · have hexcess : p.count rows - p.episodicCap = 0 := Nat.sub_eq_zero_of_le htotal
    have hempty : p.victims 0 rows = [] := rfl
    rw [hexcess, hempty, hnone]
    rfl
  · cases p.victims (p.count rows - p.episodicCap) rows with
    | nil =>
      rw [hnone]
      rfl
    | cons id ids => rfl

theorem evictProceduralDecay_eq :
    p.evictProceduralDecay x rows =
      p.execute (.procedural (((p.procedures (land x.selectProcedures rows)).filter
        (p.decayed x.proceduralNow)).map Episode.id) x.proceduralNow)
          (land (x.selectProcedures ++ x.evictProceduralDecay) rows) := by
  have hnone (rows : List Episode) :
      p.execute (.procedural [] x.proceduralNow) rows = (0, rows) := by
    have hmiss : ∀ e ∈ rows, (Deletion.procedural [] x.proceduralNow).hits p.agentID e = false :=
      fun e _ => by simp [Deletion.hits]
    rw [execute, delete_eq_self hmiss, List.countP_eq_zero.mpr fun e he => by simp [hmiss e he]]
  unfold evictProceduralDecay
  dsimp only
  rw [land_append]
  cases ((p.procedures (land x.selectProcedures rows)).filter
      (p.decayed x.proceduralNow)).map Episode.id with
  | nil => exact (hnone _).symm
  | cons id ids => rfl

/-! ### The lowest rows -/

theorem scoreLE_iff {candidates : List Episode} {e f : Episode} :
    scoreLE candidates e f = true ↔
      score candidates e < score candidates f ∨
        score candidates e = score candidates f ∧ e.createdAt ≤ f.createdAt := by
  simp [scoreLE]

theorem scoreLE_trans (candidates : List Episode) (e f g : Episode)
    (hef : scoreLE candidates e f = true) (hfg : scoreLE candidates f g = true) :
    scoreLE candidates e g = true := by
  rw [scoreLE_iff] at hef hfg ⊢
  rcases hef with hef | ⟨hef, hcreated⟩
  · rcases hfg with hfg | ⟨hfg, -⟩
    · exact .inl (hef.trans hfg)
    · exact .inl (hfg ▸ hef)
  · rcases hfg with hfg | ⟨hfg, hcreated'⟩
    · exact .inl (hef ▸ hfg)
    · exact .inr ⟨hef.trans hfg, hcreated.trans hcreated'⟩

theorem scoreLE_total (candidates : List Episode) (e f : Episode) :
    (scoreLE candidates e f || scoreLE candidates f e) = true := by
  rw [Bool.or_eq_true, scoreLE_iff, scoreLE_iff]
  rcases lt_trichotomy (score candidates e) (score candidates f) with h | h | h
  · exact .inl (.inl h)
  · rcases le_total e.createdAt f.createdAt with hcreated | hcreated
    · exact .inl (.inr ⟨h, hcreated⟩)
    · exact .inr (.inr ⟨h.symm, hcreated⟩)
  · exact .inr (.inl h)

/-- The rows whose ids are `victims`. -/
def lowest (candidates : List Episode) (n : ℕ) : List Episode :=
  (candidates.mergeSort (scoreLE candidates)).take n

theorem lowest_perm (candidates : List Episode) (n : ℕ) :
    (lowest candidates n ++ (candidates.mergeSort (scoreLE candidates)).drop n) ~ candidates := by
  rw [lowest, List.take_append_drop]
  exact List.mergeSort_perm _ _

theorem lowest_spec {candidates : List Episode} {n : ℕ} (hnodup : candidates.Nodup)
    (hn : n ≤ candidates.length) : Lowest candidates n (lowest candidates n) := by
  have hperm := lowest_perm candidates n
  have hsorted := List.pairwise_mergeSort (scoreLE_trans candidates) (scoreLE_total candidates)
    candidates
  rw [← List.take_append_drop n (candidates.mergeSort _), List.pairwise_append] at hsorted
  refine ⟨?_, ?_, ?_, ?_⟩
  · exact (hperm.nodup_iff.mpr hnodup).of_append_left
  · exact fun e he => hperm.subset (List.mem_append_left _ he)
  · rw [lowest, List.length_take, List.length_mergeSort, Nat.min_eq_left hn]
  · intro e he f hf hkept
    rcases List.mem_append.mp (hperm.mem_iff.mpr hf) with hgone | hdrop
    · exact absurd hgone hkept
    · exact hsorted.2.2 e he f hdrop

theorem nodup_of_ids {rows : List Episode} (hids : (rows.map Episode.id).Nodup) : rows.Nodup :=
  List.Nodup.of_map _ hids

theorem nodup_filter_ids {q : Episode → Bool} (hids : (rows.map Episode.id).Nodup) :
    ((rows.filter q).map Episode.id).Nodup :=
  hids.sublist (List.filter_sublist.map _)

/-- A row of the table that has the id of one that is deleted. -/
theorem of_mem_ids {rs : List Refresh} {gone : List Episode} {e : Episode}
    (hids : (rows.map Episode.id).Nodup) (hgone : gone ⊆ rows) (he : e ∈ land rs rows)
    (hid : (gone.map Episode.id).contains e.id = true) :
    ∃ r ∈ gone, e = validated rs r := by
  rw [List.contains_iff_mem] at hid
  obtain ⟨r, hr, hrid⟩ := List.mem_map.mp hid
  rw [land_eq_map] at he
  obtain ⟨e₀, he₀, rfl⟩ := List.mem_map.mp he
  rw [validated_id] at hrid
  exact ⟨r, hr, by rw [eq_of_id hids (hgone hr) he₀ hrid]⟩

/-- The rows that the size cap deletes. -/
def excess (p : EvictionPass) (rows : List Episode) : List Episode :=
  lowest (p.evictable rows) (p.count rows - p.episodicCap)

theorem excess_spec (hids : (rows.map Episode.id).Nodup) :
    Lowest (p.evictable rows) (p.count rows - p.episodicCap) (p.excess rows) :=
  lowest_spec (nodup_of_ids (nodup_filter_ids hids)) (Nat.sub_le _ _)

theorem excess_subset (hids : (rows.map Episode.id).Nodup) : p.excess rows ⊆ rows :=
  fun _ he => (mem_evictable.mp ((excess_spec hids).subset he)).1

theorem evictable_evictSizeCap :
    p.evictable (p.evictSizeCap x rows).2 =
      (p.evictable rows).filter fun e => !((p.excess rows).map Episode.id).contains e.id := by
  rw [evictSizeCap_eq]
  have hstep (rs : List Refresh) (ids : List String) :
      p.evictable (delete p.agentID (.sizeCap ids) (land rs rows)) =
        delete p.agentID (.sizeCap ids) (p.evictable (land rs rows)) := filter_delete _ _ _ _
  rw [hstep, evictable_land, delete]
  refine List.filter_congr fun e he => ?_
  have hagent : e.agentID = p.agentID := (mem_evictable.mp he).2.1
  simp [Deletion.hits, hagent, victims, excess, lowest]

theorem procedures_evictSizeCap (hids : (rows.map Episode.id).Nodup) :
    p.procedures (p.evictSizeCap x rows).2 =
      land (x.count ++ (x.select ++ x.evictSizeCap)) (p.procedures rows) := by
  rw [evictSizeCap_eq, ← procedures_land, procedures, filter_delete]
  refine delete_eq_self fun e he => ?_
  obtain ⟨hmem, hprocedure⟩ := List.mem_filter.mp he
  rw [← Bool.not_eq_true, Deletion.hits, Bool.and_eq_true]
  rintro ⟨-, hid⟩
  obtain ⟨r, hr, rfl⟩ := of_mem_ids hids (excess_subset hids) hmem hid
  have hnot : r.procedure = false := (mem_evictable.mp ((excess_spec hids).subset hr)).2.2
  simp [hnot] at hprocedure

theorem others_evictSizeCap :
    p.others (p.evictSizeCap x rows).2 =
      land (x.count ++ (x.select ++ x.evictSizeCap)) (p.others rows) := by
  rw [evictSizeCap_eq, ← others_land, others, filter_delete]
  refine delete_eq_self fun e he => ?_
  have hagent : e.agentID ≠ p.agentID := (mem_others.mp he).2
  simp [Deletion.hits, hagent]

/-- The procedures that are deleted, as they are read. -/
def forgotten (p : EvictionPass) (x : Interleaving) (rows : List Episode) : List Episode :=
  (p.procedures (land x.selectProcedures rows)).filter (p.decayed x.proceduralNow)

theorem mem_forgotten {e : Episode} :
    e ∈ p.forgotten x rows ↔ e ∈ land x.selectProcedures rows ∧ e.agentID = p.agentID ∧
      e.procedure = true ∧ p.decayed x.proceduralNow e = true := by
  rw [forgotten, List.mem_filter, mem_procedures, and_assoc, and_assoc]

/-- Only procedures of the agent are deleted. -/
theorem procedure_of_hits (hids : (rows.map Episode.id).Nodup) {e : Episode}
    (he : e ∈ land (x.selectProcedures ++ x.evictProceduralDecay) rows)
    (hhit : (Deletion.procedural ((p.forgotten x rows).map Episode.id) x.proceduralNow).hits
      p.agentID e = true) : e.agentID = p.agentID ∧ e.procedure = true := by
  rw [Deletion.hits, Bool.and_eq_true, Bool.and_eq_true] at hhit
  rw [land_append] at he
  have hids' : ((land x.selectProcedures rows).map Episode.id).Nodup := by rwa [land_ids]
  obtain ⟨r, hr, rfl⟩ := of_mem_ids hids' (fun r hr => (mem_forgotten.mp hr).1) he hhit.1.2
  obtain ⟨-, hagent, hprocedure, -⟩ := mem_forgotten.mp hr
  exact ⟨by rw [validated_agentID, hagent], by rw [validated_procedure, hprocedure]⟩

theorem evictable_evictProceduralDecay (hids : (rows.map Episode.id).Nodup) :
    p.evictable (p.evictProceduralDecay x rows).2 = p.evictable rows := by
  have hrows : p.evictable (land (x.selectProcedures ++ x.evictProceduralDecay) rows) =
      p.evictable rows := evictable_land _
  rw [evictProceduralDecay_eq, ← hrows]
  refine filter_execute fun e he hevictable => ?_
  rw [← Bool.not_eq_true]
  intro hhit
  simp [(procedure_of_hits hids he hhit).2] at hevictable

theorem others_evictProceduralDecay :
    p.others (p.evictProceduralDecay x rows).2 =
      land (x.selectProcedures ++ x.evictProceduralDecay) (p.others rows) := by
  rw [evictProceduralDecay_eq, ← others_land]
  refine filter_execute fun e _ hother => ?_
  simp [Deletion.hits, of_decide_eq_true hother]

theorem procedures_evictProceduralDecay :
    p.procedures (p.evictProceduralDecay x rows).2 =
      delete p.agentID (.procedural ((p.forgotten x rows).map Episode.id) x.proceduralNow)
        (land (x.selectProcedures ++ x.evictProceduralDecay) (p.procedures rows)) := by
  rw [evictProceduralDecay_eq, ← procedures_land]
  exact filter_delete _ _ _ _

/-- Statements of the pass and refreshes lead from one state to another. -/
inductive Leads : Eviction × List Episode → Eviction × List Episode → Prop
  | refl (s : Eviction × List Episode) : Leads s s
  | statement {v : Eviction} {rows : List Episode} {s : Eviction × List Episode} (now : ℚ) :
      Leads (v.run now rows) s → Leads (v, rows) s
  | refresh {v : Eviction} {rows : List Episode} {s : Eviction × List Episode} (r : Refresh) :
      Leads (v, refreshConfidence rows r) s → Leads (v, rows) s

theorem Leads.land {v : Eviction} {s : Eviction × List Episode} (rs : List Refresh)
    (h : Leads (v, Episodes.land rs rows) s) : Leads (v, rows) s := by
  induction rs generalizing rows with
  | nil => exact h
  | cons r rs ih => exact .refresh r (ih h)

theorem leads_evictSizeCap {s : Eviction × List Episode}
    (h : Leads (⟨p, .selectProcedures⟩, (p.evictSizeCap x rows).2) s) :
    Leads (⟨p, .count⟩, rows) s := by
  refine .land x.count (.statement 0 ?_)
  unfold evictSizeCap at h
  unfold Eviction.run Eviction.next Eviction.deletion
  dsimp only at h ⊢
  unfold count at h
  split_ifs at h ⊢ with htotal
  · exact .land _ h
  · refine .land x.select (.statement 0 ?_)
    unfold Eviction.run Eviction.next Eviction.deletion
    dsimp only
    generalize p.victims ((p.evictable (land x.count rows)).length - p.episodicCap)
      (land x.select (land x.count rows)) = ids at h ⊢
    cases ids with
    | nil => exact .land x.evictSizeCap h
    | cons id ids => exact .land x.evictSizeCap (.statement 0 h)

theorem leads_evictProceduralDecay {s : Eviction × List Episode}
    (h : Leads (⟨p, .countAfter⟩, (p.evictProceduralDecay x rows).2) s) :
    Leads (⟨p, .selectProcedures⟩, rows) s := by
  refine .land x.selectProcedures (.statement x.proceduralNow ?_)
  unfold evictProceduralDecay at h
  unfold Eviction.run Eviction.next Eviction.deletion
  dsimp only at h ⊢
  generalize ((p.procedures (land x.selectProcedures rows)).filter
    (p.decayed x.proceduralNow)).map Episode.id = ids at h ⊢
  cases ids with
  | nil => exact .land x.evictProceduralDecay h
  | cons id ids => exact .land x.evictProceduralDecay (.statement x.proceduralNow h)

/-- The pass is one that goes from statement to statement. -/
theorem leads_run (p : EvictionPass) (x : Interleaving) (rows : List Episode) :
    Leads (⟨p, .evictTTL⟩, rows) (⟨p, .done⟩, (p.run x rows).2) := by
  refine .land x.evictTTL (.statement x.ttlNow (leads_evictSizeCap (x := x) ?_))
  refine leads_evictProceduralDecay (x := x) (.land x.countAfter (.statement 0 ?_))
  exact .refl _

end EvictionPass
end Persatrix.Episodes
