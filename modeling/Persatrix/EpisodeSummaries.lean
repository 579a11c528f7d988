import Persatrix.EpisodeTable
import Persatrix.FactPredicates
import Persatrix.System

/-!
# The four writers of a summary

The second phase of a close, the janitor and the retention write the column `summary` of one
agent's episodes, each statement and each answer of the model at a time of its own. The retention
reads a batch and writes by id what the model made of each row, so a row that it reads before the
row is settled may change in between.
-/
namespace Persatrix.Episodes
open Agents (strip blank)

inductive Writer where
  | phase2
  | janitor
  | retention (read : String)
deriving DecidableEq

/-- A statement that wrote summaries: the rows it hit, and whether its caller was told so. -/
structure Write where
  writer : Writer
  changes : List Change
  returned : Bool
deriving DecidableEq

/-- What a run of the retention awaits for the first of its episodes. -/
inductive Awaits where
  | model
  | update (text : String)
deriving DecidableEq

structure Retention where
  episodes : List Episode
  awaits : Awaits
deriving DecidableEq

/-- The rows, the ids that were given to rows, the run of the retention, and what was written. -/
structure Lifecycle where
  rows : List Episode
  minted : List String
  run : Option Retention
  log : List Write
deriving DecidableEq

inductive LifecycleEvent where
  | storeEpisode (a : EpisodeArgs) (now : ℚ)
  | updateEpisodeSummary (interactionID summary : String)
  | cleanupClosingInteractions (graceSec now : ℚ)
  | delete (d : Deletion)
  | summarizeOldEpisodes (olderThanDays : ℚ) (batchSize : ℤ) (resolves : Bool) (now : ℚ)
  | answer (text : Option String)
  | compress (now : ℚ)
  | fails

/-- The summary that an answer of the model gives, if it has one. -/
def summaryOf (text : Option String) : Option String :=
  text.bind fun t => if blank t then none else some (strip t)

def goOn : List Episode → Option Retention
  | [] => none
  | e :: es => some ⟨e :: es, .model⟩

/-- The rows that `summarize_old_episodes` reads. -/
def batch (agentID : String) (olderThanDays : ℚ) (batchSize : ℤ) (now : ℚ)
    (rows : List Episode) : List Episode :=
  oldEpisodes agentID (now - olderThanDays * daySeconds) batchSize.toNat rows

def Lifecycle.step (agentID : String) (s : Lifecycle) : LifecycleEvent → Option Lifecycle
  | .storeEpisode a now =>
    if a.id ∈ s.minted then none
    else
      (insertEpisode { a with agentID, summary := summaryPendingText } now s.rows).map fun rows =>
        { s with rows, minted := a.id :: s.minted }
  | .updateEpisodeSummary interactionID summary =>
    let updated := updateEpisodeSummary agentID interactionID summary s.rows
    some { s with
      rows := updated.1
      log := s.log ++
        [⟨.phase2, changes (pendingOf agentID interactionID) summary s.rows, updated.2⟩] }
  | .cleanupClosingInteractions graceSec now =>
    let hits := stuck agentID (now - graceSec)
    some { s with
      rows := cleanupClosingInteractions agentID graceSec now s.rows
      log := s.log ++
        [⟨.janitor, changes hits summaryUnavailableText s.rows, 0 < s.rows.countP hits⟩] }
  | .delete d => some { s with rows := delete agentID d s.rows }
  | .summarizeOldEpisodes olderThanDays batchSize resolves now =>
    if s.run.isSome ∨ batchSize < 1 ∨ olderThanDays < 0 then none
    else
      some { s with
        run := if resolves then goOn (batch agentID olderThanDays batchSize now s.rows) else none }
  | .answer text =>
    match s.run with
    | some ⟨e :: rest, .model⟩ =>
      match summaryOf text with
      | none => some { s with run := goOn rest }
      | some summary => some { s with run := some ⟨e :: rest, .update summary⟩ }
    | _ => none
  | .compress now =>
    match s.run with
    | some ⟨e :: rest, .update text⟩ =>
      let hits := fun r : Episode => r.id = e.id && r.agentID = agentID
      some { s with
        rows := compress agentID e text now s.rows
        run := goOn rest
        log := s.log ++
          [⟨.retention e.summary, changes hits text s.rows, 0 < s.rows.countP hits⟩] }
    | _ => none
  | .fails =>
    match s.run with
    | some ⟨_ :: rest, _⟩ => some { s with run := goOn rest }
    | _ => none

def lifecycle (agentID : String) : System Lifecycle LifecycleEvent :=
  ⟨⟨[], [], none, []⟩, Lifecycle.step agentID⟩

/-- The writers that took a row out of the pending text. -/
def leavings (log : List Write) (id : String) : List Writer :=
  log.flatMap fun w =>
    (w.changes.filter fun c =>
      c.rowID = id && c.before = summaryPendingText && !(c.after = summaryPendingText)).map
        fun _ => w.writer

def Finalised (log : List Write) (id : String) : Prop :=
  ∃ w ∈ log, w.writer = .janitor ∧ ∃ c ∈ w.changes, c.rowID = id

instance (log : List Write) (id : String) : Decidable (Finalised log id) :=
  inferInstanceAs (Decidable (∃ w ∈ log, w.writer = .janitor ∧ ∃ c ∈ w.changes, c.rowID = id))

structure Respected (s : Lifecycle) : Prop where
  once : ∀ id, (leavings s.log id).length ≤ 1
  writers : ∀ id, ∀ w ∈ leavings s.log id, w = .phase2 ∨ w = .janitor
  final : ∀ e ∈ s.rows, Finalised s.log e.id → e.summary = summaryUnavailableText
  returned : ∀ w ∈ s.log, w.writer = .phase2 →
    (w.returned = true ↔
      ∃ c ∈ w.changes, c.before = summaryPendingText ∧ c.after ≠ summaryPendingText)
  current : ∀ w ∈ s.log, ∀ read, w.writer = .retention read → ∀ c ∈ w.changes, c.before = read

/-- The summary of a row is no longer pending, and is not the verdict of the janitor. -/
def Settled (s : Lifecycle) (e : Episode) : Prop :=
  e.summary ≠ summaryPendingText ∧ ¬Finalised s.log e.id

instance (s : Lifecycle) (e : Episode) : Decidable (Settled s e) :=
  inferInstanceAs (Decidable (_ ∧ _))

/-- No batch holds a row that is not settled, and the pending text is nobody's summary. -/
def Sound (agentID : String) (s : Lifecycle) : LifecycleEvent → Prop
  | .updateEpisodeSummary _ summary => summary ≠ summaryPendingText
  | .summarizeOldEpisodes olderThanDays batchSize _ now =>
    ∀ e ∈ batch agentID olderThanDays batchSize now s.rows, Settled s e
  | .answer text => summaryOf text ≠ some summaryPendingText
  | _ => True

instance (agentID : String) (s : Lifecycle) (e : LifecycleEvent) :
    Decidable (Sound agentID s e) :=
  match e with
  | .updateEpisodeSummary _ summary => inferInstanceAs (Decidable (summary ≠ summaryPendingText))
  | .summarizeOldEpisodes olderThanDays batchSize _ now =>
    inferInstanceAs
      (Decidable (∀ e ∈ batch agentID olderThanDays batchSize now s.rows, Settled s e))
  | .answer text => inferInstanceAs (Decidable (summaryOf text ≠ some summaryPendingText))
  | .storeEpisode _ _ | .cleanupClosingInteractions _ _ | .delete _ | .compress _ | .fails =>
    inferInstanceAs (Decidable True)

end Persatrix.Episodes

/-!
## A summary is settled once

While every batch that the retention reads holds settled rows only, the row it writes to still has
the summary that it read, no row leaves the pending text twice, and the verdict of the janitor
stands.
-/
namespace Persatrix.Episodes
open Agents (strip blank)
variable {agentID : String} {s : Lifecycle} {w : Write}

/-! ### The log -/

theorem leavings_append (log : List Write) (w : Write) (id : String) :
    leavings (log ++ [w]) id = leavings log id ++ leavings [w] id := by
  simp [leavings]

theorem mem_leavings {log : List Write} {id : String} {x : Writer} :
    x ∈ leavings log id ↔ ∃ w ∈ log, (∃ c ∈ w.changes, c.rowID = id ∧
      c.before = summaryPendingText ∧ c.after ≠ summaryPendingText) ∧ w.writer = x := by
  simp only [leavings, List.mem_flatMap, List.mem_map, List.mem_filter, Bool.and_eq_true,
    decide_eq_true_eq, Bool.not_eq_true', decide_eq_false_iff_not]
  constructor
  · rintro ⟨w, hw, c, ⟨hc, ⟨hid, hbefore⟩, hafter⟩, hx⟩
    exact ⟨w, hw, ⟨c, hc, hid, hbefore, hafter⟩, hx⟩
  · rintro ⟨w, hw, ⟨c, hc, hid, hbefore, hafter⟩, hx⟩
    exact ⟨w, hw, c, ⟨hc, ⟨hid, hbefore⟩, hafter⟩, hx⟩

theorem finalised_append {log : List Write} {id : String} :
    Finalised (log ++ [w]) id ↔
      Finalised log id ∨ w.writer = .janitor ∧ ∃ c ∈ w.changes, c.rowID = id := by
  simp [Finalised, or_and_right, exists_or]

/-- At most one element of a list without repeated keys has a given key. -/
theorem length_filter_le_one {α : Type} {key : α → String} {k : String} {p : α → Bool} {l : List α}
    (hkeys : (l.map key).Nodup) (hp : ∀ a ∈ l, p a = true → key a = k) :
    (l.filter p).length ≤ 1 := by
  induction l with
  | nil => simp
  | cons a l ih =>
    simp only [List.map_cons, List.nodup_cons] at hkeys
    have hrest := ih hkeys.2 fun b hb => hp b (List.mem_cons_of_mem _ hb)
    rw [List.filter_cons]
    split
    · next ha =>
        have hnone : l.filter p = [] := by
          refine List.filter_eq_nil_iff.mpr fun b hb hpb => hkeys.1 ?_
          rw [hp a List.mem_cons_self ha, ← hp b (List.mem_cons_of_mem _ hb) hpb]
          exact List.mem_map_of_mem hb
        simp [hnone]
    · exact hrest

/-- A statement hits a row once. -/
theorem length_leavings_changes {writer : Writer} {hits : Episode → Bool} {text : String}
    {rows : List Episode} {returned : Bool} (hids : (rows.map Episode.id).Nodup) (id : String) :
    (leavings [⟨writer, changes hits text rows, returned⟩] id).length ≤ 1 := by
  have hkeys : ((changes hits text rows).map Change.rowID).Nodup := by
    rw [changes, List.map_map]
    exact hids.sublist (List.filter_sublist.map _)
  simp only [leavings, List.flatMap_cons, List.flatMap_nil, List.append_nil, List.length_map]
  refine length_filter_le_one (k := id) hkeys fun c _ hc => ?_
  simp only [Bool.and_eq_true, decide_eq_true_eq] at hc
  exact hc.1.1

/-! ### The invariant -/

/-- What a run of the retention has read is what the rows still hold. -/
structure Reads (s : Lifecycle) (es : List Episode) : Prop where
  ids : (es.map Episode.id).Nodup
  minted : ∀ e ∈ es, e.id ∈ s.minted
  settled : ∀ e ∈ es, Settled s e
  current : ∀ e ∈ es, ∀ r ∈ s.rows, r.id = e.id → r.summary = e.summary

structure Kept (s : Lifecycle) : Prop extends Respected s where
  ids : (s.rows.map Episode.id).Nodup
  minted : ∀ e ∈ s.rows, e.id ∈ s.minted
  logged : ∀ w ∈ s.log, ∀ c ∈ w.changes, c.rowID ∈ s.minted
  left : ∀ e ∈ s.rows, leavings s.log e.id ≠ [] → e.summary ≠ summaryPendingText
  reads : ∀ r, s.run = some r → Reads s r.episodes
  asked : ∀ r text, s.run = some r → r.awaits = .update text → text ≠ summaryPendingText

/-- What a statement may do to the rows it hits, by the writer it belongs to. -/
def Allowed (s : Lifecycle) (text : String) (e : Episode) : Writer → Prop
  | .phase2 => e.summary = summaryPendingText ∧ text ≠ summaryPendingText
  | .janitor => e.summary = summaryPendingText ∧ text = summaryUnavailableText
  | .retention read => e.summary = read ∧ Settled s e ∧ text ≠ summaryPendingText

theorem Allowed.text {text : String} {e : Episode} {writer : Writer}
    (h : Allowed s text e writer) : text ≠ summaryPendingText := by
  cases writer with
  | phase2 => exact h.2
  | janitor =>
    rw [h.2]
    decide
  | retention read => exact h.2.2

/-! ### A statement that writes summaries -/

section Written
variable {hits : Episode → Bool} {f : Episode → Episode} {text : String} {writer : Writer}

theorem hits_of_change {rows : List Episode} {e : Episode} {c : Change}
    (hids : (rows.map Episode.id).Nodup) (he : e ∈ rows) (hc : c ∈ changes hits text rows)
    (hid : c.rowID = e.id) : hits e = true := by
  obtain ⟨r, hr, hhit, rfl⟩ := mem_changes.mp hc
  rw [← eq_of_id hids hr he hid]
  exact hhit

theorem summary_update {r : Episode} (hf : ∀ e, (f e).id = e.id)
    (hr : r ∈ update hits f s.rows) :
    ∃ e ∈ s.rows, e.id = r.id ∧ (hits e = true ∧ r = f e ∨ hits e = false ∧ r = e) := by
  obtain ⟨e, he, rfl⟩ := mem_update.mp hr
  refine ⟨e, he, ?_⟩
  cases hhit : hits e with
  | true => exact ⟨(hf e).symm, .inl ⟨rfl, rfl⟩⟩
  | false => exact ⟨rfl, .inr ⟨rfl, rfl⟩⟩

/-- The state after a statement that gives the summary `text` to the rows it hits. -/
def Lifecycle.written (s : Lifecycle) (hits : Episode → Bool) (f : Episode → Episode)
    (text : String) (writer : Writer) (run : Option Retention) : Lifecycle :=
  { s with
    rows := update hits f s.rows
    run
    log := s.log ++ [⟨writer, changes hits text s.rows, 0 < s.rows.countP hits⟩] }

theorem Kept.respected_written (h : Kept s) (hid : ∀ e, (f e).id = e.id)
    (hsummary : ∀ e, (f e).summary = text)
    (hallowed : ∀ e ∈ s.rows, hits e = true → Allowed s text e writer)
    (run : Option Retention) : Respected (s.written hits f text writer run) where
  once id := by
    rw [Lifecycle.written, leavings_append, List.length_append]
    cases hnew : leavings [⟨writer, changes hits text s.rows, _⟩] id with
    | nil => simpa using h.once id
    | cons x xs =>
      have hx := mem_leavings.mp (hnew ▸ List.mem_cons_self : x ∈ leavings _ id)
      obtain ⟨w, hw, ⟨c, hc, hcid, hbefore, -⟩, -⟩ := hx
      rw [List.mem_singleton] at hw
      subst hw
      obtain ⟨e, he, -, rfl⟩ := mem_changes.mp hc
      change e.id = id at hcid
      subst hcid
      have hold : leavings s.log e.id = [] := by
        by_contra hne
        exact h.left e he hne hbefore
      rw [hold, ← hnew]
      simpa using length_leavings_changes h.ids e.id
  writers id x hx := by
    rw [Lifecycle.written, leavings_append, List.mem_append] at hx
    rcases hx with hx | hx
    · exact h.writers id x hx
    · obtain ⟨w, hw, ⟨c, hc, -, hbefore, -⟩, rfl⟩ := mem_leavings.mp hx
      rw [List.mem_singleton] at hw
      subst hw
      obtain ⟨e, he, hhit, rfl⟩ := mem_changes.mp hc
      have hallow := hallowed e he hhit
      cases writer with
      | phase2 => exact .inl rfl
      | janitor => exact .inr rfl
      | retention read => exact absurd hbefore hallow.2.1.1
  final r hr hfinal := by
    obtain ⟨e, he, heid, hcase⟩ := summary_update hid hr
    rw [← heid] at hfinal
    rcases finalised_append.mp hfinal with hold | ⟨hjanitor, c, hc, hcid⟩
    · have hfinished := h.final e he hold
      rcases hcase with ⟨hhit, -⟩ | ⟨-, rfl⟩
      · have hallow := hallowed e he hhit
        cases writer with
        | phase2 => exact absurd (hallow.1.symm.trans hfinished) (by decide)
        | janitor => exact absurd (hallow.1.symm.trans hfinished) (by decide)
        | retention read => exact absurd hold hallow.2.1.2
      · exact hfinished
    · have hhit := hits_of_change h.ids he hc hcid
      have hallow := hallowed e he hhit
      rcases hcase with ⟨-, rfl⟩ | ⟨hno, -⟩
      · rw [hsummary]
        dsimp only at hjanitor
        subst hjanitor
        exact hallow.2
      · rw [hhit] at hno
        cases hno
  returned w hw hphase := by
    rcases List.mem_append.mp hw with hw | hw
    · exact h.returned w hw hphase
    · rw [List.mem_singleton] at hw
      subst hw
      dsimp only at hphase
      subst hphase
      simp only [decide_eq_true_eq, List.countP_pos_iff]
      constructor
      · rintro ⟨e, he, hhit⟩
        have hallow := hallowed e he hhit
        exact ⟨_, mem_changes.mpr ⟨e, he, hhit, rfl⟩, hallow.1, hallow.2⟩
      · rintro ⟨c, hc, -, -⟩
        obtain ⟨e, he, hhit, -⟩ := mem_changes.mp hc
        exact ⟨e, he, hhit⟩
  current w hw read hread c hc := by
    rcases List.mem_append.mp hw with hw | hw
    · exact h.current w hw read hread c hc
    · rw [List.mem_singleton] at hw
      subst hw
      dsimp only at hread
      subst hread
      obtain ⟨e, he, hhit, rfl⟩ := mem_changes.mp hc
      exact (hallowed e he hhit).1

/-- The rows and the log stay right; what is left to show is what the run has read. -/
theorem Kept.written (h : Kept s) (hid : ∀ e, (f e).id = e.id)
    (hsummary : ∀ e, (f e).summary = text)
    (hallowed : ∀ e ∈ s.rows, hits e = true → Allowed s text e writer) {run : Option Retention}
    (hreads : ∀ r, run = some r → Reads (s.written hits f text writer run) r.episodes)
    (hasked : ∀ r t, run = some r → r.awaits = .update t → t ≠ summaryPendingText) :
    Kept (s.written hits f text writer run) where
  toRespected := h.respected_written hid hsummary hallowed run
  ids := by
    change ((update hits f s.rows).map Episode.id).Nodup
    rw [update_ids hid]
    exact h.ids
  minted r hr := by
    obtain ⟨e, he, heid, -⟩ := summary_update hid hr
    exact heid ▸ h.minted e he
  logged w hw c hc := by
    rcases List.mem_append.mp hw with hw | hw
    · exact h.logged w hw c hc
    · rw [List.mem_singleton] at hw
      subst hw
      obtain ⟨e, he, -, rfl⟩ := mem_changes.mp hc
      exact h.minted e he
  left r hr hleft := by
    obtain ⟨e, he, heid, hcase⟩ := summary_update hid hr
    rcases hcase with ⟨hhit, rfl⟩ | ⟨hno, rfl⟩
    · rw [hsummary]
      exact (hallowed e he hhit).text
    · refine h.left r he fun hnil => hleft ?_
      rw [Lifecycle.written, leavings_append, hnil, List.nil_append]
      refine List.eq_nil_iff_forall_not_mem.mpr fun x hx => ?_
      obtain ⟨w, hw, ⟨c, hc, hcid, -, -⟩, -⟩ := mem_leavings.mp hx
      rw [List.mem_singleton] at hw
      subst hw
      rw [hits_of_change h.ids he hc hcid] at hno
      cases hno
  reads := hreads
  asked := hasked

/-- A statement that hits none of the rows a run has read leaves what it has read as it is. -/
theorem Reads.written {es : List Episode} (h : Reads s es) (hid : ∀ e, (f e).id = e.id)
    (hmiss : ∀ e ∈ es, ∀ r ∈ s.rows, r.id = e.id → hits r = false) (run : Option Retention) :
    Reads (s.written hits f text writer run) es where
  ids := h.ids
  minted := h.minted
  settled e he := by
    refine ⟨(h.settled e he).1, fun hfinal => ?_⟩
    rcases finalised_append.mp hfinal with hold | ⟨-, c, hc, hcid⟩
    · exact (h.settled e he).2 hold
    · obtain ⟨r, hr, hhit, rfl⟩ := mem_changes.mp hc
      rw [hmiss e he r hr hcid] at hhit
      cases hhit
  current e he r hr hrid := by
    obtain ⟨r', hr', hid', hcase⟩ := summary_update hid hr
    rcases hcase with ⟨hhit, -⟩ | ⟨-, rfl⟩
    · rw [hmiss e he r' hr' (hid'.trans hrid)] at hhit
      cases hhit
    · exact h.current e he r hr' hrid

end Written

/-! ### Runs -/

/-- A step that leaves the log and every summary as they are. -/
theorem Reads.shrink {es : List Episode} {t : Lifecycle} (h : Reads s es)
    (hlog : t.log = s.log) (hminted : ∀ id ∈ s.minted, id ∈ t.minted)
    (hrows : ∀ r ∈ t.rows, r ∈ s.rows ∨ r.id ∉ s.minted) : Reads t es where
  ids := h.ids
  minted e he := hminted _ (h.minted e he)
  settled e he := by
    unfold Settled
    rw [hlog]
    exact h.settled e he
  current e he r hr hid := by
    rcases hrows r hr with hold | hnew
    · exact h.current e he r hold hid
    · exact absurd (hid ▸ h.minted e he) hnew

theorem Reads.tail {e : Episode} {es : List Episode} (h : Reads s (e :: es)) : Reads s es where
  ids := (List.nodup_cons.mp h.ids).2
  minted r hr := h.minted r (List.mem_cons_of_mem _ hr)
  settled r hr := h.settled r (List.mem_cons_of_mem _ hr)
  current r hr := h.current r (List.mem_cons_of_mem _ hr)

theorem goOn_eq_some {es : List Episode} {r : Retention} (h : goOn es = some r) :
    r.episodes = es ∧ r.awaits = .model := by
  cases es with
  | nil => cases h
  | cons e es =>
    cases h
    exact ⟨rfl, rfl⟩

/-- The run goes on with the rows that are left. -/
theorem Kept.goOn (h : Kept s) {es : List Episode} (hes : Reads s es) :
    Kept { s with run := goOn es } where
  toRespected := ⟨h.once, h.writers, h.final, h.returned, h.current⟩
  ids := h.ids
  minted := h.minted
  logged := h.logged
  left := h.left
  reads r hr := by
    rw [(goOn_eq_some hr).1]
    exact ⟨hes.ids, hes.minted, hes.settled, hes.current⟩
  asked r text hr hawaits := by
    rw [(goOn_eq_some hr).2] at hawaits
    cases hawaits

theorem Kept.storeEpisode (h : Kept s) {a : EpisodeArgs} {now : ℚ} {rows : List Episode}
    (hfresh : a.id ∉ s.minted)
    (hrows : insertEpisode { a with agentID, summary := summaryPendingText } now s.rows =
      some rows) : Kept { s with rows, minted := a.id :: s.minted } := by
  have hnew : ∀ id, id ∉ s.minted → leavings s.log id = [] := by
    refine fun id hid => List.eq_nil_iff_forall_not_mem.mpr fun x hx => ?_
    obtain ⟨w, hw, ⟨c, hc, hcid, -, -⟩, -⟩ := mem_leavings.mp hx
    exact hid (hcid ▸ h.logged w hw c hc)
  unfold insertEpisode at hrows
  split at hrows
  · cases hrows
  · next hfree =>
      cases hrows
      constructor
      case toRespected =>
        refine ⟨h.once, h.writers, fun e he hfinal => ?_, h.returned, h.current⟩
        rcases List.mem_append.mp he with he | he
        · exact h.final e he hfinal
        · rw [List.mem_singleton] at he
          subst he
          obtain ⟨w, hw, -, c, hc, hcid⟩ := hfinal
          change c.rowID = a.id at hcid
          exact absurd (hcid ▸ h.logged w hw c hc) hfresh
      case ids =>
        rw [List.map_append, List.nodup_append]
        refine ⟨h.ids, List.nodup_singleton _, ?_⟩
        rintro id hid _ hsame rfl
        have hid' : id = a.id := List.mem_singleton.mp hsame
        exact hfree (hid' ▸ hid)
      case minted =>
        refine List.forall_mem_append.mpr ⟨fun e he => List.mem_cons_of_mem _ (h.minted e he), ?_⟩
        simp [EpisodeArgs.row]
      case logged => exact fun w hw c hc => List.mem_cons_of_mem _ (h.logged w hw c hc)
      case left =>
        refine List.forall_mem_append.mpr ⟨h.left, ?_⟩
        rw [List.forall_mem_singleton]
        exact fun hleft => absurd (hnew _ hfresh) hleft
      case reads =>
        refine fun r hr => (h.reads r hr).shrink rfl (fun id => List.mem_cons_of_mem _) ?_
        refine List.forall_mem_append.mpr ⟨fun e he => .inl he, ?_⟩
        rw [List.forall_mem_singleton]
        exact .inr hfresh
      case asked => exact h.asked

theorem Kept.delete (h : Kept s) (d : Deletion) :
    Kept { s with rows := delete agentID d s.rows } where
  toRespected := ⟨h.once, h.writers, fun e he => h.final e (mem_delete.mp he).1, h.returned,
    h.current⟩
  ids := nodup_delete h.ids
  minted e he := h.minted e (mem_delete.mp he).1
  logged := h.logged
  left e he := h.left e (mem_delete.mp he).1
  reads r hr := (h.reads r hr).shrink rfl (fun _ => id) fun _ he => .inl (mem_delete.mp he).1
  asked := h.asked

/-- A batch that holds settled rows only. -/
theorem Kept.reads_batch (h : Kept s) {days now : ℚ} {size : ℤ}
    (hsettled : ∀ e ∈ batch agentID days size now s.rows, Settled s e) :
    Reads s (batch agentID days size now s.rows) where
  ids := nodup_oldEpisodes h.ids
  minted e he := h.minted e (mem_of_mem_oldEpisodes he)
  settled := hsettled
  current e he r hr hid := by rw [eq_of_id h.ids hr (mem_of_mem_oldEpisodes he) hid]

/-- The second phase and the janitor hit pending rows only, which no run has read. -/
theorem Kept.pending_written (h : Kept s) {hits : Episode → Bool} {text : String}
    {writer : Writer} (hpending : ∀ e, hits e = true → e.summary = summaryPendingText)
    (hallowed : ∀ e ∈ s.rows, hits e = true → Allowed s text e writer) :
    Kept (s.written hits (fun e => { e with summary := text }) text writer s.run) := by
  refine h.written (f := fun e => { e with summary := text }) (fun _ => rfl) (fun _ => rfl)
    hallowed (fun r hr => ?_) h.asked
  refine (h.reads r hr).written (f := fun e => { e with summary := text }) (fun _ => rfl)
    (fun e he e' he' hid => ?_) _
  cases hhit : hits e' with
  | false => rfl
  | true =>
    have hsame := (h.reads r hr).current e he e' he' hid
    exact absurd (hsame.symm.trans (hpending e' hhit)) ((h.reads r hr).settled e he).1

theorem kept_step {e : LifecycleEvent} {t : Lifecycle} (h : Kept s) (hsound : Sound agentID s e)
    (hstep : s.step agentID e = some t) : Kept t := by
  cases e with
  | storeEpisode a now =>
    simp only [Lifecycle.step] at hstep
    split at hstep
    · cases hstep
    · next hfresh =>
        obtain ⟨rows, hrows, rfl⟩ := Option.map_eq_some_iff.mp hstep
        exact h.storeEpisode hfresh hrows
  | updateEpisodeSummary interactionID summary =>
    cases hstep
    have hpending : ∀ e : Episode, pendingOf agentID interactionID e = true →
        e.summary = summaryPendingText := fun e he => by
      simp only [pendingOf, Bool.and_eq_true, decide_eq_true_eq] at he
      exact he.2
    have hallowed : ∀ e ∈ s.rows, pendingOf agentID interactionID e = true →
        Allowed s summary e .phase2 := fun e _ he => ⟨hpending e he, hsound⟩
    exact h.pending_written hpending hallowed
  | cleanupClosingInteractions graceSec now =>
    cases hstep
    have hpending : ∀ e : Episode, stuck agentID (now - graceSec) e = true →
        e.summary = summaryPendingText := fun e he => by
      simp only [stuck, Bool.and_eq_true, decide_eq_true_eq] at he
      exact he.1.2
    have hallowed : ∀ e ∈ s.rows, stuck agentID (now - graceSec) e = true →
        Allowed s summaryUnavailableText e .janitor := fun e _ he => ⟨hpending e he, rfl⟩
    exact h.pending_written hpending hallowed
  | delete d =>
    cases hstep
    exact h.delete d
  | summarizeOldEpisodes days size resolves now =>
    simp only [Lifecycle.step] at hstep
    split at hstep
    · cases hstep
    · cases hstep
      cases resolves with
      | true => exact h.goOn (h.reads_batch hsound)
      | false =>
        have hnothing : Reads s [] := ⟨List.nodup_nil, by simp, by simp, by simp⟩
        exact h.goOn hnothing
  | answer text =>
    simp only [Lifecycle.step] at hstep
    split at hstep
    · next e rest hrun =>
        have hreads := h.reads _ hrun
        split at hstep
        · cases hstep
          exact h.goOn hreads.tail
        · next summary hsummary =>
            cases hstep
            refine ⟨⟨h.once, h.writers, h.final, h.returned, h.current⟩, h.ids, h.minted,
              h.logged, h.left, fun r hr => ?_, fun r text' hr hawaits => ?_⟩
            · cases hr
              exact ⟨hreads.ids, hreads.minted, hreads.settled, hreads.current⟩
            · cases hr
              cases hawaits
              exact fun hpending => hsound (hsummary.trans (congrArg some hpending))
    · cases hstep
  | compress now =>
    simp only [Lifecycle.step] at hstep
    split at hstep
    · next e rest text hrun =>
        cases hstep
        have hreads := h.reads _ hrun
        have htext := h.asked _ text hrun rfl
        have hallowed : ∀ r ∈ s.rows, (r.id = e.id && r.agentID = agentID : Bool) = true →
            Allowed s text r (.retention e.summary) := by
          intro r hr hhit
          simp only [Bool.and_eq_true, decide_eq_true_eq] at hhit
          have hsame := hreads.current e List.mem_cons_self r hr hhit.1
          have hsettled := hreads.settled e List.mem_cons_self
          refine ⟨hsame, ⟨hsame ▸ hsettled.1, ?_⟩, htext⟩
          rw [hhit.1]
          exact hsettled.2
        refine h.written (f := fun r => { r with
          summary := text, compressionLevel := e.compressionLevel + 1,
          compressedAt := some now })
          (fun _ => rfl) (fun _ => rfl) hallowed (fun r hr => ?_) fun r t hr hawaits => ?_
        · rw [(goOn_eq_some hr).1]
          refine hreads.tail.written (f := fun r => { r with
            summary := text, compressionLevel := e.compressionLevel + 1,
            compressedAt := some now }) (fun _ => rfl) (fun e' he' r' _ hid => ?_) _
          have hne : e'.id ≠ e.id := fun heq =>
            (List.nodup_cons.mp hreads.ids).1 (heq ▸ List.mem_map_of_mem he')
          simp [hid, hne]
        · rw [(goOn_eq_some hr).2] at hawaits
          cases hawaits
    · cases hstep
  | fails =>
    simp only [Lifecycle.step] at hstep
    split at hstep
    · next e rest awaits hrun =>
        cases hstep
        exact h.goOn (h.reads _ hrun).tail
    · cases hstep

theorem kept_run (h : (lifecycle agentID).Reaches (Sound agentID) s) : Kept s := by
  refine System.Reaches.invariant (I := Kept) ?_ (fun s e t hs hsound => kept_step hs hsound) h
  refine ⟨⟨fun _ => Nat.zero_le _, ?_, ?_, ?_, ?_⟩, List.nodup_nil, ?_, ?_, ?_, ?_, ?_⟩ <;>
    simp [lifecycle, leavings]

theorem lifecycle_respected (h : (lifecycle agentID).Reaches (Sound agentID) s) : Respected s :=
  (kept_run h).toRespected

/-- An interaction that closes. -/
def closedArgs (id interactionID : String) : EpisodeArgs :=
  ⟨id, "ada", some interactionID, summaryPendingText, 1 / 2, false, some 0⟩

/-- Two interactions close; one is summarised and later compressed, the janitor ends the other. -/
def settledRun : List LifecycleEvent :=
  [.storeEpisode (closedArgs "e1" "i1") 0, .storeEpisode (closedArgs "e2" "i2") 20,
    .updateEpisodeSummary "i1" "they met", .summarizeOldEpisodes 0 1 true 10,
    .cleanupClosingInteractions 5 30, .answer (some "met"), .compress 31,
    .updateEpisodeSummary "i2" "too late"]

theorem lifecycle_respected_settled : ∃ s, ((lifecycle "ada").guarded (Sound "ada")).exec settledRun
      = some s ∧ s.rows.map Episode.summary = ["met", summaryUnavailableText] ∧ Respected s := by
  obtain ⟨s, hexec, hsummaries⟩ :
      ∃ s, ((lifecycle "ada").guarded (Sound "ada")).exec settledRun = some s ∧
        s.rows.map Episode.summary = ["met", summaryUnavailableText] :=
    System.exists_of_exec (by decide +kernel)
  exact ⟨s, hexec, hsummaries,
    lifecycle_respected (System.Reachable.of_guarded (System.reachable_exec hexec))⟩

/-- The retention reads a pending row, the janitor ends it, and the answer of the model replaces
the verdict. -/
def pendingRun : List LifecycleEvent :=
  [.storeEpisode (closedArgs "e1" "i1") 0, .summarizeOldEpisodes 0 1 true 10,
    .cleanupClosingInteractions 5 10, .answer (some "no summary yet"), .compress 11]

theorem verdict_replaced : ¬∀ s, (lifecycle "ada").Reachable s → Respected s := by
  intro hall
  obtain ⟨s, hexec, e, he, hfinal, hsummary⟩ :
      ∃ s, (lifecycle "ada").exec pendingRun = some s ∧
        ∃ e ∈ s.rows, Finalised s.log e.id ∧ e.summary ≠ summaryUnavailableText :=
    System.exists_of_exec (by decide +kernel)
  exact hsummary ((hall s (System.reachable_exec hexec)).final e he hfinal)

end Persatrix.Episodes
