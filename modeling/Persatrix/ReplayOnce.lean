import Persatrix.ReplayBoots

/-!
# A replayed span is derived once

All that is said of the span is said of the rows that carry its id. An update by a second phase or
by the janitor hits pending rows only, and the close of the span inserts a row only after it saw
that none counts as a derivation.
-/
namespace Persatrix.Episodes
variable {sha256 : GoString → String} {x : ReplayedSpan} {id : String} {s : Boots}

def live (e : Episode) : Bool := e.summary ≠ summaryUnavailableText

/-! ### The rows of the span -/

theorem filter_derivation (rows : List Episode) :
    rows.filter (derivation x.agentID id) = (rows.filter (spanRow x.agentID id)).filter live := by
  rw [List.filter_filter]
  refine List.filter_congr fun e _ => ?_
  rw [derivation, live, Bool.and_comm]

theorem filter_update {p hits : Episode → Bool} {f : Episode → Episode}
    (hp : ∀ e, p (f e) = p e) (rows : List Episode) :
    (update hits f rows).filter p = update hits f (rows.filter p) := by
  induction rows with
  | nil => rfl
  | cons e rows ih =>
    have hsame : p (if hits e then f e else e) = p e := by
      split
      · exact hp e
      · rfl
    rw [update, List.map_cons, List.filter_cons, hsame, List.filter_cons]
    split
    · rw [update, List.map_cons]
      exact congrArg _ ih
    · exact ih

/-- An update that hits live rows only makes no row live. -/
theorem length_live_update {hits : Episode → Bool} {f : Episode → Episode} {l : List Episode}
    (hhits : ∀ e, hits e = true → live e = true) :
    ((update hits f l).filter live).length ≤ (l.filter live).length := by
  induction l with
  | nil => exact Nat.le_refl _
  | cons e l ih =>
    have hcount : (update hits f (e :: l)).filter live =
        [if hits e then f e else e].filter live ++ (update hits f l).filter live := by
      rw [← List.filter_append]
      rfl
    have hcount' : (e :: l).filter live = [e].filter live ++ l.filter live := by
      rw [← List.filter_append]
      rfl
    rw [hcount, hcount', List.length_append, List.length_append]
    refine Nat.add_le_add ?_ ih
    cases hhit : hits e with
    | false => exact Nat.le_refl _
    | true =>
      simp only [List.filter_cons, hhits e hhit, if_true, List.filter_nil]
      split
      · exact Nat.le_refl _
      · exact Nat.zero_le _

/-- An update of pending rows leaves a row with a summary as it is. -/
theorem summaries_update {hits : Episode → Bool} {f : Episode → Episode} {l : List Episode}
    {text : String} (hhits : ∀ e, hits e = true → e.summary = summaryPendingText)
    (hreal : real text = true) (hl : l.map Episode.summary = [text]) :
    (update hits f l).map Episode.summary = [text] := by
  obtain ⟨e, rfl, rfl⟩ := List.map_eq_singleton_iff.mp hl
  cases hhit : hits e with
  | false => simp [update, hhit]
  | true => simp [real, hhits e hhit] at hreal

theorem live_of_pending {e : Episode} (h : e.summary = summaryPendingText) : live e = true := by
  rw [live, h]
  decide

theorem pendingOf_pending {agentID interactionID : String} {e : Episode}
    (h : pendingOf agentID interactionID e = true) : e.summary = summaryPendingText := by
  simp only [pendingOf, Bool.and_eq_true, decide_eq_true_eq] at h
  exact h.2

theorem stuck_pending {agentID : String} {cutoff : ℚ} {e : Episode}
    (h : stuck agentID cutoff e = true) : e.summary = summaryPendingText := by
  simp only [stuck, Bool.and_eq_true, decide_eq_true_eq] at h
  exact h.1.2

theorem spanRows_insert {a : EpisodeArgs} {now : ℚ} {rows : List Episode}
    (h : insertEpisode a now s.rows = some rows) :
    rows.filter (spanRow x.agentID id) =
      s.spanRows x id ++ [a.row now].filter (spanRow x.agentID id) := by
  unfold insertEpisode at h
  split at h
  · cases h
  · cases h
    exact List.filter_append _ _

theorem spanRows_delete {d : Deletion} {agentID : String} :
    (delete agentID d s.rows).filter (spanRow x.agentID id) =
      (s.spanRows x id).filter fun e => !d.hits agentID e := by
  rw [delete, Boots.spanRows, List.filter_filter, List.filter_filter]
  refine List.filter_congr fun e _ => Bool.and_comm _ _

/-! ### The invariant -/

def BootNote.boot : BootNote → ℕ
  | .looked boot _ | .cleared boot | .inserted boot _ | .called boot | .updated boot _ _ => boot

/-- The close has not inserted yet. -/
def SpanClose.early : SpanClose → Bool
  | .waiting | .looking _ | .clearing => true
  | _ => false

/-- The id under which the close inserts or has inserted. -/
def SpanClose.writes : SpanClose → Option String
  | .inserting id | .spawned id | .summarizing id | .updating id _ => some id
  | _ => none

structure Steady (x : ReplayedSpan) (id : String) (s : Boots) : Prop extends s.Once x id where
  free : s.close = .clearing ∨ s.close = .inserting id → (s.spanRows x id).filter live = []
  tidy : .cleared s.boot ∈ s.log →
    (s.spanRows x id).length ≤ 1 ∧ (s.close = .inserting id → s.spanRows x id = [])
  writes : .cleared s.boot ∈ s.log → ∀ i, s.close.writes = some i → i = id
  past : ∀ n ∈ s.log, n.boot ≤ s.boot
  early : s.close.early = true →
    ∀ n ∈ s.log, n.boot = s.boot → s.close = .clearing ∧ ∃ derived, n = .looked s.boot derived
  uuid : ∀ u, s.close = .looking u → u ≠ id

theorem steady_init : Steady x id (boots sha256 x).init where
  derived := Nat.zero_le _
  finished := by simp [boots]
  free := by simp [boots]
  tidy := by simp [boots]
  writes := by simp [boots]
  past := by simp [boots]
  early := by simp [boots]
  uuid := by simp [boots]

namespace Steady

theorem live_le (h : Steady x id s) : ((s.spanRows x id).filter live).length ≤ 1 := by
  rw [Boots.spanRows, ← filter_derivation]
  exact h.derived

/-- An update of pending rows, by whomever. -/
theorem update (h : Steady x id s) {hits : Episode → Bool} {f : Episode → Episode}
    (hspan : ∀ e, spanRow x.agentID id (f e) = spanRow x.agentID id e)
    (hhits : ∀ e, hits e = true → e.summary = summaryPendingText) :
    Steady x id { s with rows := Episodes.update hits f s.rows } := by
  have hrows : ({ s with rows := Episodes.update hits f s.rows } : Boots).spanRows x id =
      Episodes.update hits f (s.spanRows x id) := filter_update hspan _
  have hlive := length_live_update (f := f) (l := s.spanRows x id)
    fun e he => live_of_pending (hhits e he)
  refine ⟨⟨?_, fun boot text hcleared hupdated hreal => ?_⟩, fun hclose => ?_, fun hcleared => ?_,
    h.writes, h.past, h.early, h.uuid⟩
  · rw [filter_derivation]
    exact (congrArg (fun l => (l.filter live).length) hrows).le.trans (hlive.trans h.live_le)
  · rw [hrows]
    exact summaries_update hhits hreal (h.finished boot text hcleared hupdated hreal)
  · rw [hrows]
    rw [h.free hclose] at hlive
    exact List.length_eq_zero_iff.mp (Nat.le_zero.mp hlive)
  · obtain ⟨hone, hnone⟩ := h.tidy hcleared
    rw [hrows, Episodes.update, List.length_map]
    exact ⟨hone, fun hclose => by rw [hnone hclose]; rfl⟩

/-- A summary that a second phase writes, for whichever interaction. -/
theorem summarised (h : Steady x id s) (agentID i text : String) :
    Steady x id { s with rows := (updateEpisodeSummary agentID i text s.rows).1 } :=
  h.update (f := fun e => { e with summary := text }) (fun _ => rfl) fun _ => pendingOf_pending

/-- A change of rows that carry other ids. -/
theorem others (h : Steady x id s) {rows : List Episode}
    (hrows : rows.filter (spanRow x.agentID id) = s.spanRows x id) :
    Steady x id { s with rows } := by
  have hsame : ({ s with rows } : Boots).spanRows x id = s.spanRows x id := hrows
  refine ⟨⟨?_, ?_⟩, ?_, ?_, h.writes, h.past, h.early, h.uuid⟩
  · rw [filter_derivation, hrows]
    exact h.live_le
  · rw [hsame]
    exact h.finished
  · rw [hsame]
    exact h.free
  · rw [hsame]
    exact h.tidy

/-- The close goes on to a point where it neither inserts under the id nor has yet to begin. -/
theorem move (h : Steady x id s) {close : SpanClose} (hearly : close.early = false)
    (hwrites : ∀ i, close.writes = some i → close ≠ .inserting id ∧
      (.cleared s.boot ∈ s.log → i = id)) : Steady x id (s.move close) where
  derived := h.derived
  finished := h.finished
  free hclose := by
    rcases hclose with hclose | hclose
    · change close = _ at hclose
      rw [hclose] at hearly
      cases hearly
    · change close = _ at hclose
      exact absurd hclose (hwrites id (by rw [hclose]; rfl)).1
  tidy hcleared := by
    refine ⟨(h.tidy hcleared).1, fun hclose => ?_⟩
    change close = _ at hclose
    exact absurd hclose (hwrites id (by rw [hclose]; rfl)).1
  writes hcleared i hi := (hwrites i hi).2 hcleared
  past := h.past
  early he := by
    change close.early = true at he
    rw [hearly] at he
    cases he
  uuid u hu := by
    change close = _ at hu
    rw [hu] at hearly
    cases hearly

/-- The close is over. -/
theorem quiet (h : Steady x id s) {close : SpanClose} (hclose : close = .ended ∨ close = .down) :
    Steady x id (s.move close) := by
  refine h.move ?_ fun i hi => ?_
  · rcases hclose with rfl | rfl <;> rfl
  · rcases hclose with rfl | rfl <;> cases hi

/-- A note that is neither that the id is cleared nor that its row is updated. -/
theorem note (h : Steady x id s) {n : BootNote} (hboot : n.boot = s.boot)
    (hcleared : ∀ b, n ≠ .cleared b) (hupdated : ∀ b text, n ≠ .updated b id text)
    (hearly : s.close.early = false) : Steady x id (s.note n) where
  derived := h.derived
  finished boot text hc hu hreal := by
    have hc' := (List.mem_append.mp hc).resolve_right fun hn =>
      hcleared boot (List.mem_singleton.mp hn).symm
    have hu' := (List.mem_append.mp hu).resolve_right fun hn =>
      hupdated boot text (List.mem_singleton.mp hn).symm
    exact h.finished boot text hc' hu' hreal
  free := h.free
  tidy hc := h.tidy ((List.mem_append.mp hc).resolve_right fun hn =>
    hcleared _ (List.mem_singleton.mp hn).symm)
  writes hc := h.writes ((List.mem_append.mp hc).resolve_right fun hn =>
    hcleared _ (List.mem_singleton.mp hn).symm)
  past := List.forall_mem_append.mpr ⟨h.past, by simp [hboot, Boots.note]⟩
  early he := by
    change s.close.early = true at he
    rw [hearly] at he
    cases he
  uuid := h.uuid

/-- A new boot, of which nothing is noted. -/
theorem boot (h : Steady x id s) :
    Steady x id { s with boot := s.boot + 1, close := .waiting } where
  derived := h.derived
  finished := h.finished
  free hclose := by rcases hclose with hclose | hclose <;> cases hclose
  tidy hcleared := absurd (h.past _ hcleared) (Nat.not_succ_le_self _)
  writes _ i hi := by cases hi
  past n hn := (h.past n hn).trans (Nat.le_succ _)
  early _ n hn hboot := absurd (h.past n hn) (by
    rw [hboot]
    exact Nat.not_succ_le_self _)
  uuid u hu := by cases hu

/-- Before the tombstones are deleted nothing is noted but the lookup. -/
theorem not_noted (h : Steady x id s) (hearly : s.close.early = true) {n : BootNote}
    (hboot : n.boot = s.boot) (hlooked : ∀ derived, n ≠ .looked s.boot derived) : n ∉ s.log :=
  fun hn => (h.early hearly n hn hboot).2.elim hlooked

theorem looks (h : Steady x id s) {uuid : String} (hclose : s.close = .waiting)
    (huuid : uuid ≠ id) : Steady x id (s.move (.looking uuid)) where
  derived := h.derived
  finished := h.finished
  free hclose := by rcases hclose with hclose | hclose <;> cases hclose
  tidy hcleared :=
    absurd hcleared (h.not_noted (by rw [hclose]; rfl) rfl fun _ hsame => by cases hsame)
  writes _ i hi := by cases hi
  past := h.past
  early _ n hn hboot := by
    have hclearing := (h.early (by rw [hclose]; rfl) n hn hboot).1
    rw [hclose] at hclearing
    cases hclearing
  uuid u hu := by
    cases hu
    exact huuid

/-- The lookup found no derivation. -/
theorem clears (h : Steady x id s) {uuid : String} (hclose : s.close = .looking uuid)
    (hnone : (s.spanRows x id).filter live = []) :
    Steady x id ((s.note (.looked s.boot false)).move .clearing) := by
  have hearly : s.close.early = true := by rw [hclose]; rfl
  have hold : ∀ n ∈ s.log ++ [.looked s.boot false], n.boot = s.boot → n = .looked s.boot false := by
    intro n hn hboot
    rcases List.mem_append.mp hn with hn | hn
    · have hclearing := (h.early hearly n hn hboot).1
      rw [hclose] at hclearing
      cases hclearing
    · exact List.mem_singleton.mp hn
  refine ⟨⟨h.derived, fun boot text hcleared hupdated hreal => ?_⟩, fun _ => hnone,
    fun hcleared => ?_, (fun _ i hi => by cases hi), ?_, fun _ n hn hboot => ?_,
    (fun u hu => by cases hu)⟩
  · refine h.finished boot text ?_ ?_ hreal
    · exact (List.mem_append.mp hcleared).resolve_right fun hn => by simp at hn
    · exact (List.mem_append.mp hupdated).resolve_right fun hn => by simp at hn
  · have hsame := hold _ hcleared rfl
    cases hsame
  · exact List.forall_mem_append.mpr ⟨h.past, by simp [BootNote.boot, Boots.move, Boots.note]⟩
  · exact ⟨rfl, false, hold n hn hboot⟩

/-- The lookup found a derivation. -/
theorem declines (h : Steady x id s) :
    Steady x id ((s.note (.looked s.boot true)).move .ended) := by
  have hdone : Steady x id (s.move .ended) := h.quiet (.inl rfl)
  exact hdone.note (n := .looked s.boot true) rfl (by simp) (by simp) rfl

/-- The tombstones are deleted, or they are left. -/
theorem inserts (h : Steady x id s) (hclose : s.close = .clearing) {rows : List Episode}
    {log : List BootNote} (hlog : log = s.log ∨ log = s.log ++ [.cleared s.boot] ∧
      rows.filter (spanRow x.agentID id) = [])
    (hrows : (rows.filter (spanRow x.agentID id)).filter live = []) :
    Steady x id { s with rows, log, close := .inserting id } := by
  have hearly : s.close.early = true := by rw [hclose]; rfl
  have hnone := h.free (.inl hclose)
  have hupdated : ∀ b text, .updated b id text ∈ log → .updated b id text ∈ s.log := by
    intro b text hn
    rcases hlog with rfl | ⟨rfl, -⟩
    · exact hn
    · exact (List.mem_append.mp hn).resolve_right fun hn => by simp at hn
  have hcleared : ∀ b, .cleared b ∈ log → .cleared b ∈ s.log ∨
      b = s.boot ∧ rows.filter (spanRow x.agentID id) = [] := by
    intro b hn
    rcases hlog with rfl | ⟨rfl, hempty⟩
    · exact .inl hn
    · rcases List.mem_append.mp hn with hn | hn
      · exact .inl hn
      · cases List.mem_singleton.mp hn
        exact .inr ⟨rfl, hempty⟩
  refine ⟨⟨?_, fun boot text hc hu hreal => ?_⟩, fun _ => hrows, fun hc => ?_,
    fun _ i hi => ?_, ?_, (fun he => by cases he), (fun u hu => by cases hu)⟩
  · rw [filter_derivation, hrows]
    exact Nat.zero_le _
  · exfalso
    rcases hcleared boot hc with hold | ⟨rfl, -⟩
    · obtain ⟨e, hone, rfl⟩ :=
        List.map_eq_singleton_iff.mp (h.finished boot text hold (hupdated _ _ hu) hreal)
      rw [hone] at hnone
      simp only [real, Bool.and_eq_true, decide_eq_true_eq] at hreal
      simp [live, hreal.2] at hnone
    · exact h.not_noted hearly rfl (fun _ hsame => by cases hsame) (hupdated _ _ hu)
  · rcases hcleared _ hc with hold | ⟨-, hempty⟩
    · exact absurd hold (h.not_noted hearly rfl fun _ hsame => by cases hsame)
    · refine ⟨?_, fun _ => hempty⟩
      change (rows.filter (spanRow x.agentID id)).length ≤ 1
      rw [hempty]
      exact Nat.zero_le _
  · cases hi
    rfl
  · rcases hlog with rfl | ⟨rfl, -⟩
    · exact h.past
    · exact List.forall_mem_append.mpr ⟨h.past, by simp [BootNote.boot]⟩

/-- The insert under the id of the span, where no row counts as a derivation. -/
theorem inserted (h : Steady x id s) (hclose : s.close = .inserting id) {rows : List Episode}
    {e : Episode} {close : SpanClose}
    (hrows : rows.filter (spanRow x.agentID id) = s.spanRows x id ++ [e])
    (hnext : close = .spawned id ∨ close = .ended) :
    Steady x id (({ s with rows }.note (.inserted s.boot id)).move close) := by
  have hnone := h.free (.inr hclose)
  have hspan : ({ s with rows } : Boots).spanRows x id = s.spanRows x id ++ [e] := hrows
  have hrest : Steady x id { s with rows, close := .ended } := by
    refine ⟨⟨?_, fun boot text hc hu hreal => ?_⟩, ?_, fun hc => ?_, (fun _ i hi => by cases hi),
      h.past, (fun he => by cases he), (fun u hu => by cases hu)⟩
    · rw [filter_derivation, hrows, List.filter_append, hnone, List.nil_append]
      exact List.length_filter_le _ _
    · exfalso
      obtain ⟨r, hone, rfl⟩ := List.map_eq_singleton_iff.mp (h.finished boot text hc hu hreal)
      rw [hone] at hnone
      simp only [real, Bool.and_eq_true, decide_eq_true_eq] at hreal
      simp [live, hreal.2] at hnone
    · rintro (hcl | hcl) <;> cases hcl
    · refine ⟨?_, fun hcl => by cases hcl⟩
      change (rows.filter (spanRow x.agentID id)).length ≤ 1
      rw [hrows, (h.tidy hc).2 hclose]
      exact Nat.le_refl _
  have hnoted := hrest.note (n := .inserted s.boot id) rfl (by simp) (by simp) rfl
  refine hnoted.move ?_ fun i hi => ?_
  · rcases hnext with rfl | rfl <;> rfl
  · rcases hnext with rfl | rfl
    · cases hi
      exact ⟨by simp, fun _ => rfl⟩
    · cases hi

/-- A row that the second phase updated was pending. -/
theorem updates (h : Steady x id s) {i text : String} (hclose : s.close = .updating i text)
    (hupdated : (updateEpisodeSummary x.agentID i text s.rows).2 = true) :
    Steady x id (({ s with
      rows := (updateEpisodeSummary x.agentID i text s.rows).1 }.move .ended).note
        (.updated s.boot i text)) := by
  have hrest : Steady x id { s with
      rows := (updateEpisodeSummary x.agentID i text s.rows).1, close := .ended } :=
    (h.summarised x.agentID i text).quiet (.inl rfl)
  by_cases hi : i = id
  · subst hi
    obtain ⟨e, he, hpending⟩ : ∃ e ∈ s.rows, pendingOf x.agentID i e = true := by
      simpa [updateEpisodeSummary, List.countP_pos_iff] using hupdated
    have hspan : e ∈ s.spanRows x i := by
      refine List.mem_filter.mpr ⟨he, ?_⟩
      simp only [pendingOf, Bool.and_eq_true] at hpending
      simp only [spanRow, Bool.and_eq_true]
      exact hpending.1
    refine ⟨⟨hrest.derived, fun boot text' hc hu hreal => ?_⟩, hrest.free, fun hc => ?_,
      fun hc => ?_, ?_, (fun hearly => by cases hearly), hrest.uuid⟩
    · have hc' := (List.mem_append.mp hc).resolve_right fun hn => by simp at hn
      rcases List.mem_append.mp hu with hu | hu
      · have hone := h.finished boot text' hc' hu hreal
        obtain ⟨r, hsingle, rfl⟩ := List.map_eq_singleton_iff.mp hone
        rw [hsingle, List.mem_singleton] at hspan
        rw [← hspan] at hreal
        simp [real, pendingOf_pending hpending] at hreal
      · obtain ⟨rfl, -, rfl⟩ : boot = s.boot ∧ i = i ∧ text' = text := by simpa using hu
        have hone : s.spanRows x i = [e] := by
          obtain ⟨r, hr⟩ := List.length_eq_one_iff.mp
            (Nat.le_antisymm (h.tidy hc').1 (List.length_pos_of_mem hspan))
          rw [hr, List.mem_singleton] at hspan
          rw [hr, hspan]
        have hrows : (updateEpisodeSummary x.agentID i text' s.rows).1.filter (spanRow x.agentID i)
            = Episodes.update (pendingOf x.agentID i) (fun e => { e with summary := text' })
              (s.spanRows x i) :=
          filter_update (f := fun e => { e with summary := text' }) (fun _ => rfl) s.rows
        change (List.filter _ (updateEpisodeSummary x.agentID i text' s.rows).1).map _ = _
        rw [hrows, hone]
        simp [Episodes.update, hpending]
    · exact hrest.tidy ((List.mem_append.mp hc).resolve_right fun hn => by simp at hn)
    · exact hrest.writes ((List.mem_append.mp hc).resolve_right fun hn => by simp at hn)
    · exact List.forall_mem_append.mpr
        ⟨hrest.past, by simp [BootNote.boot, Boots.move, Boots.note]⟩
  · refine hrest.note rfl (by simp) (fun b t hsame => ?_) rfl
    cases hsame
    exact hi rfl

end Steady

/-! ### Runs -/

/-- The tombstones of the span are all that its close deletes, and none of its rows is live. -/
theorem Steady.tombstones (h : Steady x id s) (hclose : s.close = .clearing) :
    (delete x.agentID (.failedEpisode id) s.rows).filter (spanRow x.agentID id) = [] := by
  rw [spanRows_delete, ← h.free (.inl hclose)]
  refine List.filter_congr fun e he => ?_
  have hspan := (List.mem_filter.mp he).2
  simp only [spanRow, Bool.and_eq_true, decide_eq_true_eq] at hspan
  simp [Deletion.hits, live, hspan.1, hspan.2]

theorem Steady.tombstones_live (h : Steady x id s) (hclose : s.close = .clearing) :
    ((delete x.agentID (.failedEpisode id) s.rows).filter (spanRow x.agentID id)).filter live =
      [] := by
  rw [h.tombstones hclose]
  rfl

/-- The insert of the close, under the id of the span or another. -/
theorem Steady.insert (h : Steady x id s) {i : String} (hinserting : s.close = .inserting i)
    {a : EpisodeArgs} {now : ℚ} {rows : List Episode}
    (hinsert : insertEpisode (a.closing x i) now s.rows = some rows) {close : SpanClose}
    (hnext : close = .spawned i ∨ close = .ended) :
    Steady x id (({ s with rows }.note (.inserted s.boot i)).move close) := by
  have hrows : rows.filter (spanRow x.agentID id) = s.spanRows x id ++ _ := spanRows_insert hinsert
  by_cases hi : i = id
  · subst hi
    refine h.inserted hinserting (e := (a.closing x i).row now) ?_ hnext
    rw [hrows]
    simp [spanRow, EpisodeArgs.row, EpisodeArgs.closing]
  · have hother : rows.filter (spanRow x.agentID id) = s.spanRows x id := by
      rw [hrows]
      simp [spanRow, EpisodeArgs.row, EpisodeArgs.closing, hi]
    have hnoted := (h.others hother).note (n := .inserted s.boot i) rfl (by simp) (by simp)
      (by rw [hinserting]; rfl)
    rcases hnext with rfl | rfl
    · refine hnoted.move rfl fun j hj => ?_
      cases hj
      refine ⟨by simp, fun hcleared => hnoted.writes hcleared i ?_⟩
      change s.close.writes = some i
      rw [hinserting]
      rfl
    · exact hnoted.quiet (.inl rfl)

theorem boots_step {t : Boots} {e : BootEvent} (hid : x.replaySpanIdentity sha256 = some id)
    (h : Steady x id s) (hstep : s.step sha256 x e = some t) : Steady x id t := by
  cases Boots.change_of_step hid hstep with
  | boots => exact h.boot
  | stops hstop => exact h.quiet hstop
  | looks hwaiting hne => exact h.looks hwaiting hne
  | @unsure uuid hlooking =>
    refine h.move rfl fun i hi => ?_
    cases hi
    refine ⟨fun hsame => h.uuid uuid hlooking (by cases hsame; rfl), fun hcleared => ?_⟩
    exact absurd hcleared
      (h.not_noted (by rw [hlooking]; rfl) rfl fun _ hn => by cases hn)
  | declines => exact h.declines
  | clears hlooking hderived =>
    refine h.clears hlooking ?_
    rw [Boots.spanRows, ← filter_derivation]
    simpa [episodeExistsForInteraction, List.filter_eq_nil_iff] using hderived
  | cleared hclearing =>
    exact h.inserts hclearing (.inr ⟨rfl, h.tombstones hclearing⟩) (h.tombstones_live hclearing)
  | unsureCleared hclearing => exact h.inserts hclearing (.inl rfl) (h.tombstones_live hclearing)
  | uncleared hclearing => exact h.inserts hclearing (.inl rfl) (h.free (.inl hclearing))
  | inserts hinserting hinsert hnext => exact h.insert hinserting hinsert hnext
  | @calls i hspawned =>
    have hnoted := h.note (n := .called s.boot) rfl (by simp) (by simp) (by rw [hspawned]; rfl)
    refine hnoted.move rfl fun j hj => ?_
    cases hj
    refine ⟨by simp, fun hcleared => hnoted.writes hcleared i ?_⟩
    change s.close.writes = some i
    rw [hspawned]
    rfl
  | @answered i text hsummarizing =>
    refine h.move rfl fun j hj => ?_
    cases hj
    exact ⟨by simp, fun hcleared => h.writes hcleared i (by rw [hsummarizing]; rfl)⟩
  | updates hupdating hupdated => exact h.updates hupdating hupdated
  | @unsureUpdated i text => exact (h.summarised x.agentID i text).quiet (.inl rfl)
  | swept => exact h.update (fun _ => rfl) fun _ => stuck_pending
  | storedOther hother hinsert =>
    refine h.others ?_
    have hrows : _ = s.spanRows x id ++ _ := spanRows_insert hinsert
    rw [hrows, List.filter_eq_nil_iff.mpr, List.append_nil]
    simpa [spanRow, EpisodeArgs.row] using hother
  | clearedOther hother =>
    refine h.others ?_
    rw [spanRows_delete]
    refine List.filter_eq_self.mpr fun e he => ?_
    have hspan := (List.mem_filter.mp he).2
    simp only [spanRow, Bool.and_eq_true, decide_eq_true_eq] at hspan
    simp only [Deletion.hits, hspan.1, hspan.2, Bool.not_eq_true', Bool.and_eq_false_iff,
      decide_eq_false_iff_not]
    left
    by_contra hsame
    simp only [not_or, not_not] at hsame
    exact hother ⟨hsame.1.symm, Option.some.inj hsame.2.symm⟩
  | updatedOther agentID i text => exact h.summarised agentID i text

theorem boots_steady (hid : x.replaySpanIdentity sha256 = some id)
    (h : (boots sha256 x).Reachable s) : Steady x id s :=
  System.Reachable.invariant (I := Steady x id) steady_init (fun _ _ _ => boots_step hid) h

end Persatrix.Episodes

/-!
## A derived span stays derived

No statement takes a summary away from the row of the span, so every later boot whose lookup
succeeds finds it and stops there.
-/
namespace Persatrix.Episodes
variable {sha256 : GoString → String} {x : ReplayedSpan} {id : String} {s : Boots}

/-! ### The row stays -/

theorem real_ne {text : String} (h : real text = true) :
    text ≠ summaryPendingText ∧ text ≠ summaryUnavailableText := by
  simpa [real] using h

theorem derived_update {hits : Episode → Bool} {f : Episode → Episode}
    (hhits : ∀ e, hits e = true → e.summary = summaryPendingText) (h : s.Derived x id) :
    ({ s with rows := update hits f s.rows } : Boots).Derived x id := by
  obtain ⟨e, he, hspan, hreal⟩ := h
  refine ⟨e, mem_update.mpr ⟨e, he, ?_⟩, hspan, hreal⟩
  rw [if_neg]
  exact fun hhit => (real_ne hreal).1 (hhits e hhit)

theorem derived_tombstones {agentID interactionID : String} (h : s.Derived x id) :
    ({ s with rows := delete agentID (.failedEpisode interactionID) s.rows } : Boots).Derived
      x id := by
  obtain ⟨e, he, hspan, hreal⟩ := h
  refine ⟨e, mem_delete.mpr ⟨he, ?_⟩, hspan, hreal⟩
  simp [Deletion.hits, (real_ne hreal).2]

theorem derived_insert {a : EpisodeArgs} {now : ℚ} {rows : List Episode}
    (hrows : insertEpisode a now s.rows = some rows) (h : s.Derived x id) :
    ({ s with rows } : Boots).Derived x id := by
  obtain ⟨e, he, hspan, hreal⟩ := h
  unfold insertEpisode at hrows
  split at hrows
  · cases hrows
  · cases hrows
    exact ⟨e, List.mem_append_left _ he, hspan, hreal⟩

/-- A lookup sees the row. -/
theorem exists_of_derived (h : s.Derived x id) :
    episodeExistsForInteraction x.agentID id s.rows = true := by
  obtain ⟨e, he, hspan, hreal⟩ := h
  refine List.any_eq_true.mpr ⟨e, he, ?_⟩
  simp [derivation, hspan, (real_ne hreal).2]

/-! ### Later boots -/

def SpanClose.over : SpanClose → Bool
  | .ended | .down => true
  | _ => false

/-- The span was derived by the boot `n`, and boots after it have not derived it again. -/
structure Later (x : ReplayedSpan) (id : String) (n : ℕ) (s : Boots) : Prop where
  derived : s.Derived x id
  declined : ∀ b, n < b → s.Declined b
  ended : n < s.boot → ∀ d, .looked s.boot d ∈ s.log → s.close.over = true

namespace Later
variable {n : ℕ}

/-- The rows change and nothing else does. -/
theorem rows (h : Later x id n s) {rows : List Episode}
    (hderived : ({ s with rows } : Boots).Derived x id) : Later x id n { s with rows } :=
  ⟨hderived, h.declined, h.ended⟩

theorem move (h : Later x id n s) {close : SpanClose}
    (hover : s.close.over = true → close.over = true) : Later x id n (s.move close) :=
  ⟨h.derived, h.declined, fun hn d hd => hover (h.ended hn d hd)⟩

/-- A note of this boot that is no lookup, by a close that is not over. -/
theorem note (h : Later x id n s) {m : BootNote} (hclose : s.close.over = false)
    (hlooked : ∀ b d, m ≠ .looked b d) (hboot : m.boot = s.boot) : Later x id n (s.note m) where
  derived := h.derived
  declined b hb d hd := by
    have hold := (List.mem_append.mp hd).resolve_right fun hn =>
      hlooked b d (List.mem_singleton.mp hn).symm
    have hnone := h.declined b hb d hold
    have hfresh : m.boot ≠ b := by
      intro hsame
      obtain rfl : s.boot = b := hboot.symm.trans hsame
      rw [h.ended hb d hold] at hclose
      cases hclose
    refine ⟨fun i hi => ?_, fun hi => ?_⟩
    · rcases List.mem_append.mp hi with hi | hi
      · exact hnone.1 i hi
      · exact hfresh (by rw [← List.mem_singleton.mp hi]; rfl)
    · rcases List.mem_append.mp hi with hi | hi
      · exact hnone.2 hi
      · exact hfresh (by rw [← List.mem_singleton.mp hi]; rfl)
  ended hn d hd := by
    have hold := (List.mem_append.mp hd).resolve_right fun hn =>
      hlooked _ d (List.mem_singleton.mp hn).symm
    exact h.ended hn d hold

theorem next (h : Later x id n s) (hs : Steady x id s) :
    Later x id n { s with boot := s.boot + 1, close := .waiting } where
  derived := h.derived
  declined := h.declined
  ended _ _ hd := absurd (hs.past _ hd) (Nat.not_succ_le_self _)

/-- A lookup finds the row. -/
theorem looks (h : Later x id n s) (hs : Steady x id s) {uuid : String}
    (hclose : s.close = .looking uuid) :
    Later x id n ((s.note (.looked s.boot true)).move .ended) where
  derived := h.derived
  declined b hb d hd := by
    have hnew : ∀ m : BootNote, m.boot = s.boot → (∀ d, m ≠ .looked s.boot d) →
        m ∉ s.log ++ [.looked s.boot true] := by
      intro m hboot hm hmem
      rcases List.mem_append.mp hmem with hmem | hmem
      · exact hs.not_noted (by rw [hclose]; rfl) hboot hm hmem
      · exact hm true (List.mem_singleton.mp hmem)
    rcases List.mem_append.mp hd with hd | hd
    · have hnone := h.declined b hb d hd
      refine ⟨fun i hi => ?_, fun hi => ?_⟩
      · exact hnone.1 i ((List.mem_append.mp hi).resolve_right fun hn => by simp at hn)
      · exact hnone.2 ((List.mem_append.mp hi).resolve_right fun hn => by simp at hn)
    · cases List.mem_singleton.mp hd
      exact ⟨fun i => hnew (.inserted s.boot i) rfl (by simp), hnew (.called s.boot) rfl (by simp)⟩
  ended _ _ _ := rfl

end Later

/-- A step of a close that is not over, which notes no lookup. -/
theorem Later.goes (h : Later x id n s) {rows : List Episode} {m : BootNote} {close : SpanClose}
    (hclose : s.close.over = false) (hderived : ({ s with rows } : Boots).Derived x id)
    (hlooked : ∀ b d, m ≠ .looked b d) (hboot : m.boot = s.boot) :
    Later x id n (({ s with rows }.note m).move close) := by
  refine ((h.rows hderived).note hclose hlooked hboot).move fun hover => ?_
  change s.close.over = true at hover
  rw [hclose] at hover
  cases hover

theorem Later.turns (h : Later x id n s) {close : SpanClose} (hclose : s.close.over = false) :
    Later x id n (s.move close) := by
  refine h.move fun hover => ?_
  rw [hclose] at hover
  cases hover

theorem later_step {n : ℕ} {t : Boots} {e : BootEvent}
    (hid : x.replaySpanIdentity sha256 = some id) (hs : Steady x id s) (h : Later x id n s)
    (hstep : s.step sha256 x e = some t) : Later x id n t := by
  have hseen := exists_of_derived h.derived
  -- no row of the span counts as a derivation where the tombstones are deleted
  have hclearing : s.close ≠ .clearing := by
    intro hclearing
    have hnone := hs.free (.inl hclearing)
    rw [Boots.spanRows, ← filter_derivation] at hnone
    obtain ⟨e, he, hd⟩ := List.any_eq_true.mp hseen
    exact List.filter_eq_nil_iff.mp hnone e he hd
  have hsummarised : ∀ agentID i text, ({ s with rows :=
      (updateEpisodeSummary agentID i text s.rows).1 } : Boots).Derived x id :=
    fun _ _ _ => derived_update (fun _ => pendingOf_pending) h.derived
  cases Boots.change_of_step hid hstep with
  | boots => exact h.next hs
  | stops hstop =>
    refine h.move fun _ => ?_
    rcases hstop with rfl | rfl <;> rfl
  | looks hwaiting => exact h.turns (by rw [hwaiting]; rfl)
  | unsure hlooking => exact h.turns (by rw [hlooking]; rfl)
  | declines hlooking => exact h.looks hs hlooking
  | clears _ hnone =>
    rw [hseen] at hnone
    cases hnone
  | cleared hclose => exact absurd hclose hclearing
  | unsureCleared hclose => exact absurd hclose hclearing
  | uncleared hclose => exact absurd hclose hclearing
  | inserts hinserting hinsert =>
    exact h.goes (by rw [hinserting]; rfl) (derived_insert hinsert h.derived) (by simp) rfl
  | calls hspawned => exact h.goes (by rw [hspawned]; rfl) h.derived (by simp) rfl
  | answered hsummarizing => exact h.turns (by rw [hsummarizing]; rfl)
  | updates hupdating =>
    exact h.goes (by rw [hupdating]; rfl) (hsummarised ..) (by simp) rfl
  | unsureUpdated => exact (h.rows (hsummarised ..)).move fun _ => rfl
  | swept => exact h.rows (derived_update (fun _ => stuck_pending) h.derived)
  | storedOther _ hinsert => exact h.rows (derived_insert hinsert h.derived)
  | clearedOther => exact h.rows (derived_tombstones h.derived)
  | updatedOther => exact h.rows (hsummarised ..)

/-! ### Runs -/

/-- What follows a state in which the span is derived. -/
theorem later_run {run : List BootEvent} {n : ℕ} {t : Boots}
    (hid : x.replaySpanIdentity sha256 = some id) (hs : Steady x id s) (h : Later x id n s)
    (hexec : (boots sha256 x).execFrom s run = some t) : Later x id n t := by
  induction run generalizing s with
  | nil =>
    cases hexec
    exact h
  | cons e run ih =>
    rw [System.execFrom_cons] at hexec
    obtain ⟨u, hu, ht⟩ := Option.bind_eq_some_iff.mp hexec
    exact ih (boots_step hid hs hu) (later_step hid hs h hu) ht

theorem later_self (hs : Steady x id s) (h : s.Derived x id) : Later x id s.boot s where
  derived := h
  declined _ hb _ hd := absurd (hs.past _ hd) (Nat.not_le.mpr hb)
  ended hlt := absurd hlt (Nat.lt_irrefl _)

/-- At most one row counts as a derivation of the span in any state, a boot that ran through has
left its summary in the one row of the span, and once a summary is there no later boot whose
lookup succeeds derives the span again. -/
theorem replay_derived_once (hid : x.replaySpanIdentity sha256 = some id)
    (hs : (boots sha256 x).Reachable s) :
    s.Once x id ∧ (s.Derived x id → ∀ run t, (boots sha256 x).execFrom s run = some t →
      t.Derived x id ∧ ∀ b, s.boot < b → t.Declined b) := by
  have hsteady := boots_steady hid hs
  refine ⟨hsteady.toOnce, fun hderived run t hexec => ?_⟩
  have hlater := later_run hid hsteady (later_self hsteady hderived) hexec
  exact ⟨hlater.derived, hlater.declined⟩

def oneSpan : ReplayedSpan :=
  ⟨"ada", "earth", "s0", "internal", "local", "bob", "group:g1", ["m1", "m2"], true, true, 2⟩

/-- The digest of the components of `oneSpan`. -/
def oneDigest : GoString → String := fun _ =>
  "cf743f6dd1b89450630458276d3ae9f131c69a6f43779242d040ceea7f38f5f4"

def oneID : String :=
  "replay-cf743f6dd1b89450630458276d3ae9f131c69a6f43779242d040ceea7f38f5f4"

theorem oneID_eq : oneSpan.replaySpanIdentity oneDigest = some oneID := by decide

def oneRow : EpisodeArgs := ⟨"r1", "ada", none, "", 1 / 2, false, some 0⟩

/-- The first boot is lost in its second phase, the second one derives the span. -/
def twoBoots : List BootEvent :=
  [.boot, .persistClosedInteraction "u1", .hasEpisodeForInteraction true,
    .clearFailedEpisode .returns, .storeEpisode oneRow 0 .returns, .summarize, .crash, .boot,
    .cleanupClosingInteractions "ada" 60 100, .persistClosedInteraction "u2",
    .hasEpisodeForInteraction true, .clearFailedEpisode .returns,
    .storeEpisode { oneRow with id := "r2" } 100 .returns, .summarize, .answer (some "they met"),
    .updateEpisodeSummary .returns]

theorem replay_derived_once_two : ∃ s, (boots oneDigest oneSpan).exec twoBoots = some s ∧
    s.Derived oneSpan oneID ∧ s.Once oneSpan oneID ∧
    ∀ run t, (boots oneDigest oneSpan).execFrom s run = some t →
      t.Derived oneSpan oneID ∧ ∀ b, s.boot < b → t.Declined b := by
  obtain ⟨s, hexec, hderived⟩ :
      ∃ s, (boots oneDigest oneSpan).exec twoBoots = some s ∧ s.Derived oneSpan oneID :=
    System.exists_of_exec (by decide +kernel)
  have honce := replay_derived_once (x := oneSpan) oneID_eq (System.reachable_exec hexec)
  exact ⟨s, hexec, hderived, honce.1, honce.2 hderived⟩

end Persatrix.Episodes
