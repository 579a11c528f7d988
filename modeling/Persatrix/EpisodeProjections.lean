import Persatrix.EpisodeTable
import Persatrix.FactPredicates
import Persatrix.System

/-!
# Declassified restatements

The second phase of a close writes the summary of its row and then, one statement at a time, the
projections of the interaction. The table of the projections has no foreign key: its rows stay
where they are when the episode is deleted. The agents share the tables.
-/
namespace Persatrix.Episodes
open Agents (blank)

def entryTierEpisode : String := "episode"

structure Projection where
  agentID : String
  entryID : String
  entryTier : String
  level : String
  text : String
  createdAt : ℚ
deriving DecidableEq

def clearProjections (agentID entryID entryTier : String) (table : List Projection) :
    List Projection :=
  table.filter fun p => !(p.agentID = agentID && p.entryID = entryID && p.entryTier = entryTier)

/-- The insert of a row; it fails when `(entry_id, entry_tier, level)` is taken. -/
def insertProjection (p : Projection) (table : List Projection) : Option (List Projection) :=
  if table.any fun q => q.entryID = p.entryID && q.entryTier = p.entryTier && q.level = p.level
  then none else some (table ++ [p])

/-- Where the second phase of a close is, with the projections it has still to write. -/
inductive Phase2Stage where
  | summarizing
  | replacing (projections : List (String × String))
  | inserting (projections : List (String × String))
  | done
deriving DecidableEq

structure Phase2 where
  agentID : String
  interactionID : String
  createdAt : ℚ
  stage : Phase2Stage
deriving DecidableEq

/-- The second phase has a text to write. -/
def Phase2.owes (t : Phase2) : Bool :=
  match t.stage with
  | .replacing projections => projections.any fun p => !blank p.2
  | .inserting projections => !projections.isEmpty
  | .summarizing | .done => false

structure Tiers where
  rows : List Episode
  projections : List Projection
  interactions : List String
  tasks : List Phase2
  evictions : List Eviction

inductive TiersEvent where
  | storeEpisode (agentID interactionID : String) (a : EpisodeArgs) (now : ℚ)
  | updateEpisodeSummary (i : ℕ) (summary : String) (projections : List (String × String))
  | replaceEntryProjections (i : ℕ)
  | insertProjection (i : ℕ)
  | fails (i : ℕ)
  | evictionPass (p : EvictionPass)
  | evict (j : ℕ) (now : ℚ)
  | evictionFails (j : ℕ)
  | delete (agentID : String) (d : Deletion)
  | cleanupClosingInteractions (agentID : String) (graceSec now : ℚ)
  | compress (agentID : String) (read : Episode) (summary : String) (now : ℚ)

/-- The second phase `i` goes on. -/
def Tiers.move (s : Tiers) (i : ℕ) (t : Phase2) (stage : Phase2Stage) : Tiers :=
  { s with tasks := s.tasks.set i { t with stage } }

def Tiers.step (s : Tiers) : TiersEvent → Option Tiers
  | .storeEpisode agentID interactionID a now =>
    if interactionID ∈ s.interactions then none
    else
      let args := { a with
        agentID, interactionID := some interactionID, summary := summaryPendingText }
      (insertEpisode args now s.rows).map fun rows =>
        { s with
          rows
          interactions := interactionID :: s.interactions
          tasks := s.tasks ++ [⟨agentID, interactionID, args.closedAt.getD now, .summarizing⟩] }
  | .updateEpisodeSummary i summary projections =>
    match s.tasks[i]? with
    | some t =>
      if t.stage ≠ .summarizing ∨ ¬(projections.map Prod.fst).Nodup then none
      else
        let updated := updateEpisodeSummary t.agentID t.interactionID summary s.rows
        let stage := if updated.2 ∧ projections ≠ [] then .replacing projections else .done
        some { s.move i t stage with rows := updated.1 }
    | none => none
  | .replaceEntryProjections i =>
    match s.tasks[i]? with
    | some t =>
      match t.stage with
      | .replacing projections =>
        some { s.move i t (.inserting (projections.filter fun p => !blank p.2)) with
          projections := clearProjections t.agentID t.interactionID entryTierEpisode s.projections }
      | _ => none
    | none => none
  | .insertProjection i =>
    match s.tasks[i]? with
    | some t =>
      match t.stage with
      | .inserting [] => some (s.move i t .done)
      | .inserting ((level, text) :: rest) =>
        match Episodes.insertProjection
            ⟨t.agentID, t.interactionID, entryTierEpisode, level, text, t.createdAt⟩
            s.projections with
        | some projections => some { s.move i t (.inserting rest) with projections }
        | none => some (s.move i t .done)
      | _ => none
    | none => none
  | .fails i => (s.tasks[i]?).map fun t => s.move i t .done
  | .evictionPass p => some { s with evictions := s.evictions ++ [⟨p, .evictTTL⟩] }
  | .evict j now =>
    (s.evictions[j]?).map fun v =>
      let (v', rows) := v.run now s.rows
      { s with rows, evictions := s.evictions.set j v' }
  | .evictionFails j =>
    (s.evictions[j]?).map fun v =>
      { s with evictions := s.evictions.set j { v with stage := .done } }
  | .delete agentID d => some { s with rows := delete agentID d s.rows }
  | .cleanupClosingInteractions agentID graceSec now =>
    some { s with rows := cleanupClosingInteractions agentID graceSec now s.rows }
  | .compress agentID read summary now =>
    some { s with rows := compress agentID read summary now s.rows }

def tiers : System Tiers TiersEvent := ⟨⟨[], [], [], [], []⟩, Tiers.step⟩

/-- No operation is in progress. -/
def Tiers.Idle (s : Tiers) : Prop :=
  (∀ t ∈ s.tasks, t.stage = .done) ∧ ∀ v ∈ s.evictions, v.stage = .done

instance (s : Tiers) : Decidable s.Idle := inferInstanceAs (Decidable (_ ∧ _))

/-- An episode of the agent with this interaction id is stored. -/
def Stored (rows : List Episode) (agentID interactionID : String) : Prop :=
  ∃ e ∈ rows, e.agentID = agentID ∧ e.interactionID = some interactionID

instance (rows : List Episode) (agentID interactionID : String) :
    Decidable (Stored rows agentID interactionID) :=
  inferInstanceAs
    (Decidable (∃ e ∈ rows, e.agentID = agentID ∧ e.interactionID = some interactionID))

def Tiers.Owned (s : Tiers) : Prop :=
  ∀ p ∈ s.projections, p.entryTier = entryTierEpisode → Stored s.rows p.agentID p.entryID

instance (s : Tiers) : Decidable s.Owned :=
  inferInstanceAs (Decidable (∀ p ∈ s.projections, p.entryTier = entryTierEpisode →
    Stored s.rows p.agentID p.entryID))

/-- The episode has a restatement, or its second phase has one to write. -/
def Tiers.Restated (s : Tiers) (e : Episode) : Prop :=
  (∃ p ∈ s.projections, p.entryTier = entryTierEpisode ∧ p.agentID = e.agentID ∧
      e.interactionID = some p.entryID) ∨
    ∃ t ∈ s.tasks, t.owes = true ∧ t.agentID = e.agentID ∧ e.interactionID = some t.interactionID

instance (s : Tiers) (e : Episode) : Decidable (s.Restated e) :=
  inferInstanceAs (Decidable (_ ∨ _))

/-- The deletion that a step makes, and of whose episodes. -/
def Tiers.deletion (s : Tiers) : TiersEvent → Option (String × Deletion)
  | .delete agentID d => some (agentID, d)
  | .evict j now => (s.evictions[j]?).bind fun v => (v.deletion now).map fun d => (v.pass.agentID, d)
  | _ => none

/-- No step deletes an episode that is restated. -/
def Spares (s : Tiers) (e : TiersEvent) : Prop :=
  ∀ x ∈ s.deletion e, ∀ r ∈ s.rows, x.2.hits x.1 r = true → ¬s.Restated r

instance (s : Tiers) (e : TiersEvent) : Decidable (Spares s e) :=
  inferInstanceAs
    (Decidable (∀ x ∈ s.deletion e, ∀ r ∈ s.rows, x.2.hits x.1 r = true → ¬s.Restated r))

/-! ### What the statements keep -/

section Stored
variable {rows : List Episode} {agentID interactionID : String}

theorem Stored.append (h : Stored rows agentID interactionID) (more : List Episode) :
    Stored (rows ++ more) agentID interactionID := by
  obtain ⟨e, he, hagent, hid⟩ := h
  exact ⟨e, List.mem_append_left _ he, hagent, hid⟩

theorem Stored.update {hits : Episode → Bool} {f : Episode → Episode}
    (h : Stored rows agentID interactionID) (hagent : ∀ e, (f e).agentID = e.agentID)
    (hinteraction : ∀ e, (f e).interactionID = e.interactionID) :
    Stored (update hits f rows) agentID interactionID := by
  obtain ⟨e, he, rfl, hid⟩ := h
  refine ⟨_, mem_update.mpr ⟨e, he, rfl⟩, ?_, ?_⟩
  · split
    · exact hagent e
    · rfl
  · split
    · rw [hinteraction, hid]
    · exact hid

theorem Stored.delete {agent : String} {d : Deletion} (h : Stored rows agentID interactionID)
    (hspared : ∀ e ∈ rows, d.hits agent e = true → e.agentID = agentID →
      e.interactionID ≠ some interactionID) :
    Stored (delete agent d rows) agentID interactionID := by
  obtain ⟨e, he, hagent, hid⟩ := h
  refine ⟨e, mem_delete.mpr ⟨he, ?_⟩, hagent, hid⟩
  cases hhit : d.hits agent e with
  | false => rfl
  | true => exact absurd hid (hspared e he hhit hagent)

/-- A summary that was written was written to a stored episode. -/
theorem stored_of_updated {summary : String}
    (h : (updateEpisodeSummary agentID interactionID summary rows).2 = true) :
    Stored rows agentID interactionID := by
  simp only [updateEpisodeSummary, decide_eq_true_eq, List.countP_pos_iff] at h
  obtain ⟨e, he, hpending⟩ := h
  simp only [pendingOf, Bool.and_eq_true, decide_eq_true_eq] at hpending
  exact ⟨e, he, hpending.1.1, hpending.1.2⟩

end Stored

/-- The rows of the table, and what is still to be written, belong to stored episodes. -/
structure Backed (s : Tiers) : Prop where
  projections : ∀ p ∈ s.projections, p.entryTier = entryTierEpisode →
    Stored s.rows p.agentID p.entryID
  tasks : ∀ t ∈ s.tasks, t.owes = true → Stored s.rows t.agentID t.interactionID

namespace Backed
variable {s : Tiers}

theorem rows (h : Backed s) {rows : List Episode} {evictions : List Eviction}
    (hrows : ∀ agentID interactionID, Stored s.rows agentID interactionID →
      Stored rows agentID interactionID) : Backed { s with rows, evictions } where
  projections p hp htier := hrows _ _ (h.projections p hp htier)
  tasks t ht howes := hrows _ _ (h.tasks t ht howes)

theorem delete (h : Backed s) {agentID : String} {d : Deletion} {evictions : List Eviction}
    (hspared : ∀ r ∈ s.rows, d.hits agentID r = true → ¬s.Restated r) :
    Backed { s with rows := Episodes.delete agentID d s.rows, evictions } where
  projections p hp htier :=
    (h.projections p hp htier).delete fun e he hhit hagent hid =>
      hspared e he hhit (.inl ⟨p, hp, htier, hagent.symm, hid⟩)
  tasks t ht howes :=
    (h.tasks t ht howes).delete fun e he hhit hagent hid =>
      hspared e he hhit (.inr ⟨t, ht, howes, hagent.symm, hid⟩)

/-- The second phase goes on to a stage where it owes no more than is stored. -/
theorem move (h : Backed s) {i : ℕ} {t : Phase2} {stage : Phase2Stage}
    (howes : { t with stage : Phase2 }.owes = true →
      Stored s.rows t.agentID t.interactionID) : Backed (s.move i t stage) where
  projections := h.projections
  tasks u hu hu' := by
    rcases List.mem_or_eq_of_mem_set hu with hu | rfl
    · exact h.tasks u hu hu'
    · exact howes hu'

end Backed

theorem backed_step {s t : Tiers} {e : TiersEvent} (h : Backed s) (hspares : Spares s e)
    (hstep : s.step e = some t) : Backed t := by
  cases e with
  | storeEpisode agentID interactionID a now =>
    simp only [Tiers.step] at hstep
    split at hstep
    · cases hstep
    · obtain ⟨rows, hrows, rfl⟩ := Option.map_eq_some_iff.mp hstep
      unfold insertEpisode at hrows
      split at hrows
      · cases hrows
      · cases hrows
        refine ⟨fun p hp htier => (h.projections p hp htier).append _, fun u hu howes => ?_⟩
        rcases List.mem_append.mp hu with hu | hu
        · exact (h.tasks u hu howes).append _
        · rw [List.mem_singleton] at hu
          subst hu
          cases howes
  | updateEpisodeSummary i summary projections =>
    simp only [Tiers.step] at hstep
    split at hstep
    · next t ht =>
        split at hstep
        · cases hstep
        · cases hstep
          have hkeep : ∀ agentID interactionID, Stored s.rows agentID interactionID →
              Stored (updateEpisodeSummary t.agentID t.interactionID summary s.rows).1
                agentID interactionID :=
            fun _ _ hstored => hstored.update (fun _ => rfl) fun _ => rfl
          refine (h.move fun howes => ?_).rows hkeep
          split at howes
          · next hupdated => exact stored_of_updated hupdated.1
          · cases howes
    · cases hstep
  | replaceEntryProjections i =>
    simp only [Tiers.step] at hstep
    split at hstep
    · next t ht =>
        split at hstep
        · next projections hstage =>
            cases hstep
            refine ⟨fun p hp => h.projections p (List.mem_of_mem_filter hp),
              (h.move fun howes => ?_).tasks⟩
            refine h.tasks t (List.mem_of_getElem? ht) ?_
            simp only [Phase2.owes, hstage]
            simpa [Phase2.owes, List.filter_eq_nil_iff] using howes
        · cases hstep
    · cases hstep
  | insertProjection i =>
    simp only [Tiers.step] at hstep
    split at hstep
    · next t ht =>
        split at hstep
        · cases hstep
          exact h.move fun howes => by cases howes
        · next level text rest hstage =>
            have hstored : Stored s.rows t.agentID t.interactionID :=
              h.tasks t (List.mem_of_getElem? ht) (by simp [Phase2.owes, hstage])
            split at hstep
            · next projections hinsert =>
                cases hstep
                refine ⟨?_, (h.move fun _ => hstored).tasks⟩
                unfold Episodes.insertProjection at hinsert
                split at hinsert
                · cases hinsert
                · cases hinsert
                  refine List.forall_mem_append.mpr ⟨h.projections, ?_⟩
                  rw [List.forall_mem_singleton]
                  exact fun _ => hstored
            · cases hstep
              exact h.move fun howes => by cases howes
        · cases hstep
    · cases hstep
  | fails i =>
    obtain ⟨t, -, rfl⟩ := Option.map_eq_some_iff.mp hstep
    exact h.move fun howes => by cases howes
  | evictionPass p =>
    cases hstep
    exact h.rows fun _ _ => id
  | evict j now =>
    obtain ⟨v, hv, rfl⟩ := Option.map_eq_some_iff.mp hstep
    simp only [Eviction.run]
    cases hd : v.deletion now with
    | none => exact h.rows fun _ _ => id
    | some d =>
      refine h.delete fun r hr hhit => hspares (v.pass.agentID, d) ?_ r hr hhit
      simp [Tiers.deletion, hv, hd]
  | evictionFails j =>
    obtain ⟨v, -, rfl⟩ := Option.map_eq_some_iff.mp hstep
    exact h.rows fun _ _ => id
  | delete agentID d =>
    cases hstep
    exact h.delete (hspares (agentID, d) rfl)
  | cleanupClosingInteractions agentID graceSec now =>
    cases hstep
    exact h.rows fun _ _ hstored => hstored.update (fun _ => rfl) fun _ => rfl
  | compress agentID read summary now =>
    cases hstep
    exact h.rows fun _ _ hstored => hstored.update (fun _ => rfl) fun _ => rfl

theorem backed_run {s : Tiers} (h : tiers.Reaches Spares s) : Backed s :=
  System.Reaches.invariant (I := Backed) ⟨by simp [tiers], by simp [tiers]⟩
    (fun _ _ _ hs hspares => backed_step hs hspares) h

/-- While no step deletes a restated episode, every restatement has its episode. -/
theorem projections_owned {s : Tiers} (h : tiers.Reaches Spares s) : s.Owned :=
  (backed_run h).projections

def oneClose (id : String) : EpisodeArgs := ⟨id, "ada", none, "", 1 / 2, false, some 0⟩

/-- One restatement is written; the episode that has none is deleted. -/
def sparingRun : List TiersEvent :=
  [.storeEpisode "ada" "i1" (oneClose "e1") 0, .storeEpisode "ada" "i2" (oneClose "e2") 0,
    .updateEpisodeSummary 0 "the plan" [("public", "a talk"), ("internal", " ")],
    .updateEpisodeSummary 1 "a joke" [], .replaceEntryProjections 0, .insertProjection 0,
    .delete "ada" (.episode "e2"), .insertProjection 0]

theorem projections_owned_sparing : ∃ s, (tiers.guarded Spares).exec sparingRun = some s ∧
    s.projections.length = 1 ∧ s.rows.length = 1 ∧ s.Idle ∧ s.Owned := by
  obtain ⟨s, hexec, hlengths, hidle⟩ :
      ∃ s, (tiers.guarded Spares).exec sparingRun = some s ∧
        (s.projections.length = 1 ∧ s.rows.length = 1) ∧ s.Idle :=
    System.exists_of_exec (by decide)
  exact ⟨s, hexec, hlengths.1, hlengths.2, hidle,
    projections_owned (System.Reachable.of_guarded (System.reachable_exec hexec))⟩

/-- An episode is restated and then deleted. -/
def deletingRun : List TiersEvent :=
  [.storeEpisode "ada" "i1" (oneClose "e1") 0,
    .updateEpisodeSummary 0 "the plan" [("public", "a talk")], .replaceEntryProjections 0,
    .insertProjection 0, .insertProjection 0, .delete "ada" (.episode "e1")]

theorem projection_orphaned : ¬∀ s, tiers.Reachable s → s.Idle → s.Owned := by
  intro hall
  obtain ⟨s, hexec, hidle, horphan⟩ : ∃ s, tiers.exec deletingRun = some s ∧ s.Idle ∧ ¬s.Owned :=
    System.exists_of_exec (by decide)
  exact horphan (hall s (System.reachable_exec hexec) hidle)

end Persatrix.Episodes
