import Persatrix.EvictionSelection

/-!
# A whole eviction pass

The three steps together: which rows a pass deletes, whatever refreshes land between its
statements, and what it reports.
-/
namespace Persatrix.Episodes
namespace EvictionPass
variable {p : EvictionPass} {x : Interleaving} {rows : List Episode}

theorem nodup_evictTTL (hids : (rows.map Episode.id).Nodup) :
    ((p.evictTTL x rows).2.map Episode.id).Nodup :=
  nodup_delete (by rwa [land_ids])

theorem nodup_evictSizeCap (hids : (rows.map Episode.id).Nodup) :
    ((p.evictSizeCap x rows).2.map Episode.id).Nodup := by
  rw [evictSizeCap_eq]
  exact nodup_delete (by rwa [land_ids])

/-- The rows that the size cap is for. -/
def rest (p : EvictionPass) (x : Interleaving) (rows : List Episode) : List Episode :=
  (p.evictable rows).filter fun e => !p.expired x e

/-- The table after the first two steps. -/
def capped (p : EvictionPass) (x : Interleaving) (rows : List Episode) : List Episode :=
  (p.evictSizeCap x (p.evictTTL x rows).2).2

theorem count_evictTTL : p.count (p.evictTTL x rows).2 = (p.rest x rows).length :=
  congrArg List.length evictable_evictTTL

theorem excess_evictTTL :
    p.excess (p.evictTTL x rows).2 =
      lowest (p.rest x rows) ((p.rest x rows).length - p.episodicCap) := by
  rw [excess, count_evictTTL, evictable_evictTTL, rest]

theorem procedures_capped (hids : (rows.map Episode.id).Nodup) :
    p.procedures (p.capped x rows) = land x.untilSizeCap (p.procedures rows) := by
  rw [capped, procedures_evictSizeCap (nodup_evictTTL hids), procedures_evictTTL, ← land_append]
  rfl

theorem others_capped : p.others (p.capped x rows) = land x.untilSizeCap (p.others rows) := by
  rw [capped, others_evictSizeCap, others_evictTTL, ← land_append]
  rfl

theorem evictable_run (hids : (rows.map Episode.id).Nodup) :
    p.evictable (p.run x rows).2 = (p.rest x rows).filter fun e =>
      !((lowest (p.rest x rows) ((p.rest x rows).length - p.episodicCap)).map Episode.id).contains
        e.id := by
  have hout : p.evictable (p.run x rows).2 = p.evictable (p.capped x rows) :=
    (evictable_land _).trans
      (evictable_evictProceduralDecay (nodup_evictSizeCap (nodup_evictTTL hids)))
  rw [hout, capped, evictable_evictSizeCap, excess_evictTTL, evictable_evictTTL]
  rfl

theorem others_run : p.others (p.run x rows).2 = land x.all (p.others rows) := by
  have hout : p.others (p.run x rows).2 =
      land x.countAfter (p.others (p.evictProceduralDecay x (p.capped x rows)).2) := others_land _
  rw [hout, others_evictProceduralDecay, others_capped, ← land_append, ← land_append,
    Interleaving.all, Interleaving.untilDelete, Interleaving.untilSelect]
  simp only [List.append_assoc]

theorem forgotten_capped (hids : (rows.map Episode.id).Nodup) :
    p.forgotten x (p.capped x rows) =
      (land x.untilSelect (p.procedures rows)).filter (p.decayed x.proceduralNow) := by
  rw [forgotten, procedures_land, procedures_capped hids, ← land_append]
  rfl

theorem procedures_run (hids : (rows.map Episode.id).Nodup) :
    p.procedures (p.run x rows).2 = land x.countAfter
      (delete p.agentID (.procedural (((land x.untilSelect (p.procedures rows)).filter
        (p.decayed x.proceduralNow)).map Episode.id) x.proceduralNow)
          (land x.untilDelete (p.procedures rows))) := by
  have hout : p.procedures (p.run x rows).2 =
      land x.countAfter (p.procedures (p.evictProceduralDecay x (p.capped x rows)).2) :=
    procedures_land _
  rw [hout, procedures_evictProceduralDecay, procedures_capped hids, forgotten_capped hids,
    ← land_append, Interleaving.untilDelete, Interleaving.untilSelect]
  simp only [List.append_assoc]

/-- What is left was there, with the same agent and tags. -/
theorem origin (hids : (rows.map Episode.id).Nodup) {r : Episode}
    (hr : r ∈ (p.run x rows).2) :
    ∃ e ∈ rows, e.id = r.id ∧ e.agentID = r.agentID ∧ e.procedure = r.procedure := by
  by_cases hagent : r.agentID = p.agentID
  · cases hprocedure : r.procedure with
    | false =>
      have hleft := mem_evictable.mpr ⟨hr, hagent, hprocedure⟩
      rw [evictable_run hids] at hleft
      have hrow := (mem_evictable.mp (List.mem_of_mem_filter (List.mem_of_mem_filter hleft))).1
      exact ⟨r, hrow, rfl, rfl, hprocedure⟩
    | true =>
      have hleft := mem_procedures.mpr ⟨hr, hagent, hprocedure⟩
      rw [procedures_run hids, land_eq_map] at hleft
      obtain ⟨r', hr', rfl⟩ := List.mem_map.mp hleft
      have hr'' := (mem_delete.mp hr').1
      rw [land_eq_map] at hr''
      obtain ⟨e, he, rfl⟩ := List.mem_map.mp hr''
      exact ⟨e, (mem_procedures.mp he).1, by simp, by simp, by simpa using hprocedure⟩
  · have hleft := mem_others.mpr ⟨hr, hagent⟩
    rw [others_run, land_eq_map] at hleft
    obtain ⟨e, he, rfl⟩ := List.mem_map.mp hleft
    exact ⟨e, (mem_others.mp he).1, by simp, by simp, by simp⟩

end EvictionPass

/-! ### A sample pass -/

end Persatrix.Episodes
