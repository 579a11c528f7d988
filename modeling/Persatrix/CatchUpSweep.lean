import Persatrix.CatchUpRows

/-!
# What comes between the rows

A live event and an idle check leave a window as it is, or cut it; neither derives.
-/
namespace Persatrix.Interactions

/-- The window is left as it is, or it is cut and has derived nothing. -/
structure View.CutTo (v v' : View) : Prop where
  derived : v'.derived = v.derived
  kept : v'.cut = false → v' = v

namespace View
variable {v v' v'' u : View}

theorem CutTo.refl (v : View) : v.CutTo v := ⟨rfl, fun _ => rfl⟩

theorem CutTo.trans (h : v.CutTo v') (h' : v'.CutTo v'') : v.CutTo v'' where
  derived := h'.derived.trans h.derived
  kept hcut := by
    have hsame := h'.kept hcut
    rw [hsame] at hcut ⊢
    exact h.kept hcut

theorem CutTo.follows (h : v.CutTo v') (hfollows : v.Follows u) : v'.Follows u where
  derived s hs := hfollows.derived s (h.derived ▸ hs)
  opened hcut := by
    have hsame := h.kept hcut
    rw [hsame] at hcut ⊢
    exact hfollows.opened hcut

end View

variable {cfg : Config} {h : History} {a : Arrival} {t : Tracker} {scope : String}
  {w : String × String}

/-- The close of a record is that of an open record with its key and its number, or nothing. -/
theorem closeRecord_cases (t : Tracker) (r : Interaction) (reason : CloseReason)
    (c : Option Bool) : (t.closeRecord r reason c).2 = t ∨
      ∃ s ∈ t.opened.values, s.key = r.key ∧ s.interactionID = r.interactionID ∧
        (t.closeRecord r reason c).2 = (t.closeRecord s reason c).2 := by
  cases hget : t.opened.get r.key with
  | none =>
    left
    unfold Tracker.closeRecord
    rw [hget]
  | some s =>
    obtain ⟨hs, hkey⟩ := Keyed.get_eq_some.mp hget
    by_cases hid : s.interactionID = r.interactionID
    · refine .inr ⟨s, hs, hkey, hid, ?_⟩
      unfold Tracker.closeRecord
      rw [hget, Keyed.get_key hs, hkey]
      dsimp only
      rw [if_neg (not_not.mpr hid), if_neg (not_not.mpr rfl)]
    · left
      unfold Tracker.closeRecord
      rw [hget]
      dsimp only
      rw [if_pos hid]

theorem cutTo_closeRecord (hhealthy : Healthy t) (r : Interaction) (reason : CloseReason) :
    (view w t).CutTo (view w (t.closeRecord r reason none).2) := by
  rcases closeRecord_cases t r reason none with hsame | ⟨s, hs, -, -, hsame⟩
  · rw [hsame]
    exact .refl _
  · rw [hsame]
    by_cases hw : s.inWindow w = true
    · rw [view_closeRecord hhealthy hs hw]
      obtain ⟨hcut, hderived⟩ := @View.close_false (view w t) s.span
      refine ⟨hderived, fun hnot => ?_⟩
      rw [Option.getD_none, hcut] at hnot
      cases hnot
    · rw [view_closeRecord_other hs (Bool.not_eq_true _ ▸ hw)]
      exact .refl _

theorem cutTo_foldl_closeRecord {β : Type} (record : β → Interaction) (reason : β → CloseReason)
    (l : List β) (hhealthy : Healthy t) :
    (view w t).CutTo
      (view w (l.foldl (fun t b => (t.closeRecord (record b) (reason b) none).2) t)) := by
  induction l generalizing t with
  | nil => exact .refl _
  | cons b l ih =>
    exact (cutTo_closeRecord hhealthy (record b) (reason b)).trans
      (ih (hhealthy.closeRecord (record b) (reason b) none))

/-- A live event derives nothing. -/
theorem closeIfStale_live (hlive : a.event.metadata.replayMode = false) (r : Interaction) :
    closeIfStale cfg scope a t r = t ∨
      ∃ reason, closeIfStale cfg scope a t r = (t.closeRecord r reason none).2 := by
  unfold closeIfStale
  split
  · exact .inl rfl
  · next reason hreason =>
      have hincomplete : segmentComplete t r a.event reason = false := by
        have hmarker : (replayMarkers a.event).1 = false := hlive
        unfold segmentComplete
        rw [hmarker, Bool.and_false, Bool.false_and, Bool.false_and, Bool.false_and]
      rw [hincomplete]
      exact .inr ⟨reason, rfl⟩

theorem cutTo_closeStaleRecords (hlive : a.event.metadata.replayMode = false)
    (hhealthy : Healthy t) : (view w t).CutTo (view w (closeStaleRecords cfg scope a t)) := by
  unfold closeStaleRecords
  generalize t.recordsForScope scope = l
  induction l generalizing t with
  | nil => exact .refl _
  | cons r l ih =>
    rw [List.foldl_cons]
    refine View.CutTo.trans ?_ (ih (hhealthy.closeIfStale r))
    rcases @closeIfStale_live cfg a t scope hlive r with hsame | ⟨reason, hclose⟩
    · rw [hsame]
      exact .refl _
    · rw [hclose]
      exact cutTo_closeRecord hhealthy r reason

/-- No replayed record is left under the key of the live event. -/
def Vacated (cfg : Config) (t : Tracker) (a : Arrival) : Prop :=
  ∀ scope, scopeForMultiTurnEvent cfg a.event = some scope →
    ∀ r ∈ t.opened.values, r.key = targetKey cfg scope a → r.replayed = false

theorem Vacated.of_subset {u : Tracker} (hvacated : Vacated cfg t a)
    (hsub : ∀ r ∈ u.opened.values, r ∈ t.opened.values) : Vacated cfg u a :=
  fun scope hscope r hr => hvacated scope hscope r (hsub r hr)

/-- A change that opens no record. -/
structure Shrinks (t u : Tracker) : Prop where
  opened : ∀ r ∈ u.opened.values, r ∈ t.opened.values
  nextID : u.nextID = t.nextID

theorem Shrinks.trans {u v : Tracker} (h : Shrinks t u) (h' : Shrinks u v) : Shrinks t v :=
  ⟨fun r hr => h.opened r (h'.opened r hr), h'.nextID.trans h.nextID⟩

theorem Steady.shrinks {u : Tracker} (hsteady : Steady cfg h t) (hshrinks : Shrinks t u) :
    Steady cfg h u := hsteady.of_subset hshrinks.opened hshrinks.nextID.ge

theorem shrinks_closeRecord (t : Tracker) (r : Interaction) (reason : CloseReason)
    (c : Option Bool) : Shrinks t (t.closeRecord r reason c).2 :=
  ⟨opened_sub_closeRecord t r reason c, nextID_closeRecord t r reason c⟩

theorem shrinks_foldl {β : Type} {f : Tracker → β → Tracker} (hf : ∀ t b, Shrinks t (f t b))
    (l : List β) (t : Tracker) : Shrinks t (l.foldl f t) := by
  induction l generalizing t with
  | nil => exact ⟨fun r hr => hr, rfl⟩
  | cons b l ih => exact (hf t b).trans (ih (f t b))

theorem shrinks_receive (cfg : Config) (t : Tracker) (a : Arrival) :
    Shrinks t (receive cfg t a) := by
  unfold receive
  split
  · exact ⟨fun r hr => hr, rfl⟩
  · next scope hscope =>
      obtain ⟨hopened, -, hnext⟩ := opened_observe t (a.event.messageID.getD "")
        a.event.metadata.replayMode
      refine ⟨fun r hr => ?_, nextID_closeStaleRecords.trans hnext⟩
      have hr' := opened_sub_closeStaleRecords _ r hr
      rwa [hopened] at hr'

theorem shrinks_finish (cfg : Config) (t : Tracker) (a : Arrival) : Shrinks t (finish cfg t a) := by
  unfold finish
  split
  · exact ⟨fun r hr => hr, rfl⟩
  · split
    · exact ⟨opened_sub_closeScope _ _ _ _, nextID_foldl_closeRecord _ _ _⟩
    · exact ⟨fun r hr => hr, rfl⟩

theorem cutTo_receive (hlive : a.event.metadata.replayMode = false) (hhealthy : Healthy t) :
    (view w t).CutTo (view w (receive cfg t a)) := by
  unfold receive
  split
  · exact .refl _
  · next scope hscope =>
      have hcut := @cutTo_closeStaleRecords cfg a
        (t.observeWireMessage (a.event.messageID.getD "") a.event.metadata.replayMode).2 scope w
        hlive (hhealthy.observe _ _)
      rwa [view_observe] at hcut

theorem vacated_receive (hlive : a.event.metadata.replayMode = false) (hhealthy : Healthy t) :
    Vacated cfg (receive cfg t a) a := by
  intro scope hscope r hr hkey
  have hr' := (shrinks_receive cfg t a).opened r hr
  unfold receive at hr
  rw [hscope] at hr
  have hin : r.scope = scope := congrArg RecordKey.scope hkey
  have hreceives := receives_of_left (hhealthy.isOpen r hr') (hhealthy.incomplete r hr') hkey
    (staleCloseReason_of_left hr hin)
  have hmarker := congrArg Prod.fst hreceives.markers
  exact hmarker.symm.trans hlive

theorem view_finish (cfg : Config) (t : Tracker) (a : Arrival) (w : String × String) :
    view w (finish cfg t a) = view w t := by
  unfold finish
  split
  · rfl
  · split
    · exact view_closeScope w _ _ _
    · rfl

/-- What the turn of a live event does. -/
structure FiledLive (cfg : Config) (h : History) (t u : Tracker) (a : Arrival) : Prop where
  steady : Steady cfg h u
  view : ∀ w, view w u = view w t
  nextID : t.nextID ≤ u.nextID
  /-- A record is of before, or live, and new or with the number of a live one of before. -/
  opened : ∀ r ∈ u.opened.values, r ∈ t.opened.values ∨ r.replayed = false ∧
    (t.nextID ≤ r.interactionID ∨ ∃ s ∈ t.opened.values, s.key = r.key ∧ s.replayed = false ∧
      s.interactionID = r.interactionID)

theorem filedLive (hlive : a.event.metadata.replayMode = false) (hsteady : Steady cfg h t)
    (hvacated : Vacated cfg t a) : FiledLive cfg h t (file cfg t a) a := by
  unfold file
  cases hscope : scopeForMultiTurnEvent cfg a.event with
  | none => exact ⟨hsteady, fun _ => rfl, le_rfl, fun r hr => .inl hr⟩
  | some scope =>
    dsimp only
    obtain ⟨r, hbase, hfiled, hnext, hnumber⟩ := @filed cfg scope a t hsteady.healthy
      (buildTurnPayload a.event a.summary false)
    generalize stampRecord _ _ _ _ = u at hfiled hnext hnumber ⊢
    have hnot : r.replayed = false := by
      rcases hbase with hget | ⟨-, hfresh⟩
      · obtain ⟨hr, hkey⟩ := Keyed.get_eq_some.mp hget
        exact hvacated scope hscope r hr hkey
      · exact hfresh.replayed.trans hlive
    obtain ⟨-, -, hnumber', hreplayed', -⟩ := isOpen_stamped (scopeWireAnchor scope a.event)
      a.event.metadata.previousInteractionID
      (r.append ⟨buildTurnPayload a.event a.summary false, a⟩)
    refine ⟨⟨hsteady.healthy.filed hbase hfiled hnext hnumber, fun s hs hs' => ?_⟩, fun w => ?_,
      hnext, fun s hs => ?_⟩
    · rcases hfiled.opened_cases hs with hold | rfl
      · exact hsteady.owned s hold hs'
      · rw [hreplayed'.trans hnot] at hs'
        cases hs'
    · refine view_filed_other hbase hfiled ?_
      unfold Interaction.inWindow
      rw [hnot]
      rfl
    · rcases hfiled.opened_cases hs with hold | rfl
      · exact .inl hold
      · refine .inr ⟨hreplayed'.trans hnot, ?_⟩
        rcases hbase with hget | ⟨-, hfresh⟩
        · obtain ⟨hr, -⟩ := Keyed.get_eq_some.mp hget
          have hkept := key_stamped (scopeWireAnchor scope a.event)
            a.event.metadata.previousInteractionID
            (r.append ⟨buildTurnPayload a.event a.summary false, a⟩)
          exact .inr ⟨r, hr, hkept.symm, hnot, hnumber'.symm⟩
        · exact .inl (hfresh.number.symm.le.trans hnumber'.symm.le)

end Persatrix.Interactions

/-!
## The clean pass, and the sweep

A window that a pass has not cut when its channel is complete is the window of the clean pass before its
sweep: the rows that are left belong to other channels. The sweep derives of it what the sweep of the
clean pass derives.
-/
namespace Persatrix.Interactions
open Agents

variable {cfg : Config} {h : History} {a : Arrival} {t : Tracker} {w : String × String}

/-- The tracker after rows with nothing in between. -/
def replayed (cfg : Config) (rows : List Arrival) : Tracker :=
  rows.foldl (handleMultiTurnEvent cfg) .init

theorem replayed_append (cfg : Config) (rows : List Arrival) (a : Arrival) :
    replayed cfg (rows ++ [a]) = handleMultiTurnEvent cfg (replayed cfg rows) a := by
  unfold replayed
  rw [List.foldl_append]
  rfl

theorem steady_init : Steady cfg h .init := by
  have hnone : ∀ r, r ∉ Tracker.init.opened.values := fun r => List.not_mem_nil
  exact ⟨⟨fun r hr => absurd hr (hnone r), fun r hr => absurd hr (hnone r),
    fun r hr => absurd hr (hnone r)⟩, fun r hr => absurd hr (hnone r)⟩

theorem mem_rows : a ∈ h.rows ↔ ∃ x ∈ h.windows, a ∈ x.rows := List.mem_flatMap

theorem steady_foldl (hsep : h.SeparateScopes cfg) {rows : List Arrival}
    (hrows : ∀ a ∈ rows, a ∈ h.rows) (hsteady : Steady cfg h t) :
    Steady cfg h (rows.foldl (handleMultiTurnEvent cfg) t) := by
  induction rows generalizing t with
  | nil => exact hsteady
  | cons a rows ih =>
    obtain ⟨x, hx, ha⟩ := mem_rows.mp (hrows a List.mem_cons_self)
    exact ih (fun b hb => hrows b (List.mem_cons_of_mem _ hb)) (view_row hsep hx ha hsteady).1

theorem steady_replayed (hsep : h.SeparateScopes cfg) {rows : List Arrival}
    (hrows : ∀ a ∈ rows, a ∈ h.rows) : Steady cfg h (replayed cfg rows) :=
  steady_foldl hsep hrows steady_init

/-- What a window has derived stays. -/
theorem derived_foldl (hsep : h.SeparateScopes cfg) {rows : List Arrival}
    (hrows : ∀ a ∈ rows, a ∈ h.rows) (hsteady : Steady cfg h t) :
    ∀ s ∈ (view w t).derived,
      s ∈ (view w (rows.foldl (handleMultiTurnEvent cfg) t)).derived := by
  induction rows generalizing t with
  | nil => exact fun s hs => hs
  | cons a rows ih =>
    obtain ⟨x, hx, ha⟩ := mem_rows.mp (hrows a List.mem_cons_self)
    obtain ⟨hsteady', hview⟩ := view_row hsep hx ha hsteady
    intro s hs
    refine ih (fun b hb => hrows b (List.mem_cons_of_mem _ hb)) hsteady' s ?_
    rw [hview]
    exact View.derived_row w s hs

/-- A record in the scope of a row names the channel of the row. -/
theorem channel_of_scope (hsep : h.SeparateScopes cfg) (hsteady : Steady cfg h t) {x : Window}
    (hx : x ∈ h.windows) (ha : a ∈ x.rows) {s : Span} (hs : s ∈ (view w t).opened.values)
    (hscope : scopeForMultiTurnEvent cfg a.event = some s.key.scope) : w.1 = x.channelID := by
  obtain ⟨r, hr, hw, rfl⟩ := openSpans_mem.mp hs
  obtain ⟨hreplayed, rfl⟩ := inWindow_iff.mp hw
  obtain ⟨y, hy, hsource, b, hb, hb'⟩ := hsteady.owned r hr hreplayed
  dsimp only
  rw [hsource, Option.getD_some]
  exact hsep y hy b hb x hx a ha r.scope hb' hscope

/-- A row of another channel is not seen. -/
theorem row_eq_self_of_channel (hsep : h.SeparateScopes cfg) (hsteady : Steady cfg h t) {x : Window}
    (hx : x ∈ h.windows) (ha : a ∈ x.rows) (hne : x.channelID ≠ w.1) :
    (view w t).row cfg a w = view w t := by
  refine View.row_eq_self (fun heq => hne ?_) fun s hs hscope =>
    hne (channel_of_scope hsep hsteady hx ha hs hscope).symm
  rw [heq]
  unfold rowWindow
  rw [(h.replayed x hx a ha).2]
  rfl

theorem view_foldl_other (hsep : h.SeparateScopes cfg) {rows : List Arrival}
    (hrows : ∀ a ∈ rows, a ∈ h.rows) (hother : ∀ a ∈ rows, a.event.channelID ≠ some w.1)
    (hsteady : Steady cfg h t) :
    view w (rows.foldl (handleMultiTurnEvent cfg) t) = view w t := by
  induction rows generalizing t with
  | nil => rfl
  | cons a rows ih =>
    obtain ⟨x, hx, ha⟩ := mem_rows.mp (hrows a List.mem_cons_self)
    obtain ⟨hsteady', hview⟩ := view_row hsep hx ha hsteady
    have hne : x.channelID ≠ w.1 := by
      intro heq
      refine hother a List.mem_cons_self ?_
      rw [(h.replayed x hx a ha).2, heq]
    rw [List.foldl_cons, ih (fun b hb => hrows b (List.mem_cons_of_mem _ hb))
      (fun b hb => hother b (List.mem_cons_of_mem _ hb)) hsteady', hview,
      row_eq_self_of_channel hsep hsteady hx ha hne]

/-! ### The sweep -/

/-- The window of a record that a sweep closes. -/
def Interaction.window (r : Interaction) : String × String :=
  (r.sourceChannelID.getD "", r.speakerID)

/-- The sweep of a record that is open, seen in its window: it is derived only if its channel is
complete and its window not cut. -/
theorem view_sweepRecord {completed : List String} {gaps : List (String × String)}
    (hhealthy : Healthy t) {r : Interaction} (hr : r ∈ t.opened.values)
    (hreplayed : r.replayed = true) :
    ∃ derivable, view r.window (sweepRecord completed gaps t r) =
        (view r.window t).close r.span derivable ∧
      (derivable = true → r.window.1 ∈ completed ∧ (view r.window t).cut = false) ∧
      (r.window.1 ≠ "" → r.window.1 ∈ completed → (view r.window t).cut = false →
        r.window ∉ gaps → derivable = true) := by
  have hin : r.inWindow r.window = true := inWindow_iff.mpr ⟨hreplayed, rfl⟩
  unfold sweepRecord
  rw [hreplayed, if_pos rfl]
  dsimp only
  rw [view_closeRecord hhealthy hr hin]
  refine ⟨_, rfl, fun hderivable => ?_, fun hchannel hcompleted hcut hgap => ?_⟩
  · rw [Option.getD_some] at hderivable
    simp only [Bool.and_eq_true, Bool.not_eq_true', List.contains_iff_mem] at hderivable
    exact ⟨hderivable.1.1.2, hderivable.1.2⟩
  · rw [Option.getD_some]
    simp only [Bool.and_eq_true, Bool.not_eq_true', List.contains_iff_mem, decide_eq_true_eq]
    refine ⟨⟨⟨hchannel, hcompleted⟩, hcut⟩, ?_⟩
    refine Bool.not_eq_true _ ▸ fun hmem => hgap ?_
    exact List.contains_iff_mem.mp hmem

theorem view_sweepRecord_other {completed : List String} {gaps : List (String × String)}
    {r : Interaction} (hr : r ∈ t.opened.values) (hw : r.inWindow w = false) :
    view w (sweepRecord completed gaps t r) = view w t := by
  unfold sweepRecord
  split
  · exact view_closeRecord_other hr hw _ _
  · rfl

theorem shrinks_sweepRecord (completed : List String) (gaps : List (String × String)) (t : Tracker)
    (r : Interaction) : Shrinks t (sweepRecord completed gaps t r) := by
  unfold sweepRecord
  split
  · exact shrinks_closeRecord t r _ _
  · exact ⟨fun _ hs => hs, rfl⟩

/-- The records of another key are left by the sweep of a record. -/
theorem opened_sweepRecord {completed : List String} {gaps : List (String × String)}
    {r s : Interaction} (hr : r ∈ t.opened.values) (hs : s ∈ t.opened.values)
    (hne : s.key ≠ r.key) : s ∈ (sweepRecord completed gaps t r).opened.values := by
  unfold sweepRecord
  split
  · exact (opened_closeRecord hr _ _).mpr ⟨hs, hne⟩
  · exact hs

/-- A sweep over open records loses nothing that a window has derived, and derives the open records
of a window that is not cut. -/
theorem view_sweep {completed : List String} {l : List Interaction}
    (hhealthy : Healthy t) (hall : ∀ r ∈ l, r ∈ t.opened.values)
    (hkeys : (l.map Interaction.key).Nodup) :
    (∀ s ∈ (view w t).derived, s ∈ (view w (l.foldl (sweepRecord completed []) t)).derived) ∧
      (w.1 ≠ "" → w.1 ∈ completed → (view w t).cut = false → ∀ r ∈ l, r.inWindow w = true →
        r.span ∈ (view w (l.foldl (sweepRecord completed []) t)).derived) := by
  induction l generalizing t with
  | nil => exact ⟨fun s hs => hs, fun _ _ _ r hr => by cases hr⟩
  | cons r l ih =>
    obtain ⟨hr, hl⟩ := List.forall_mem_cons.mp hall
    rw [List.map_cons, List.nodup_cons] at hkeys
    have hrest : ∀ s ∈ l, s ∈ (sweepRecord completed [] t r).opened.values := by
      intro s hs
      refine opened_sweepRecord hr (hl s hs) fun hkey => hkeys.1 ?_
      rw [← hkey]
      exact List.mem_map_of_mem hs
    have hshrinks := shrinks_sweepRecord completed [] t r
    obtain ⟨hkept, hderives⟩ := ih (hhealthy.of_subset hshrinks.opened hshrinks.nextID.ge) hrest
      hkeys.2
    rw [List.foldl_cons]
    by_cases hw : r.inWindow w = true
    · obtain ⟨hreplayed, rfl⟩ := inWindow_iff.mp hw
      obtain ⟨derivable, hview, -, hsure⟩ := @view_sweepRecord t completed [] hhealthy r hr
        hreplayed
      have hview' : view (r.sourceChannelID.getD "", r.speakerID)
          (sweepRecord completed [] t r) =
            (view (r.sourceChannelID.getD "", r.speakerID) t).close r.span derivable := hview
      rw [hview'] at hkept hderives
      constructor
      · exact fun s hs => hkept s (View.derived_close _ _ s hs)
      · intro hchannel hcompleted hcut s hs hsw
        have hyes : derivable = true := hsure hchannel hcompleted hcut List.not_mem_nil
        rw [hyes] at hkept hderives
        rcases List.mem_cons.mp hs with rfl | hs
        · refine hkept _ (List.mem_append_right _ ?_)
          exact List.mem_singleton.mpr rfl
        · refine hderives hchannel hcompleted ?_ s hs hsw
          unfold View.close
          rw [hcut]
          rfl
    · have hview := @view_sweepRecord_other t w completed [] r hr (Bool.not_eq_true _ ▸ hw)
      rw [hview] at hkept hderives
      refine ⟨hkept, fun hchannel hcompleted hcut s hs hsw => ?_⟩
      rcases List.mem_cons.mp hs with rfl | hs
      · exact absurd hsw hw
      · exact hderives hchannel hcompleted hcut s hs hsw

/-- What the clean pass derives of a window. -/
structure CleanWindow (cfg : Config) (h : History) (w : String × String) : Prop where
  kept : ∀ s ∈ (view w (replayed cfg h.rows)).derived, s ∈ (view w (cleanPass cfg h)).derived
  swept : w.1 ∈ h.windows.map Window.channelID → (view w (replayed cfg h.rows)).cut = false →
    ∀ s ∈ (view w (replayed cfg h.rows)).opened.values, s ∈ (view w (cleanPass cfg h)).derived

theorem cleanWindow (hsep : h.SeparateScopes cfg) (w : String × String) : CleanWindow cfg h w := by
  have hsteady : Steady cfg h (replayed cfg h.rows) := steady_replayed hsep fun a ha => ha
  obtain ⟨hkept, hswept⟩ := @view_sweep (replayed cfg h.rows) w (h.windows.map Window.channelID)
    (replayed cfg h.rows).opened.values hsteady.healthy (fun r hr => hr)
    (replayed cfg h.rows).opened.distinct
  refine ⟨hkept, fun hchannel hcut s hs => ?_⟩
  obtain ⟨r, hr, hw, rfl⟩ := openSpans_mem.mp hs
  obtain ⟨x, hx, hname⟩ := List.mem_map.mp hchannel
  exact hswept (hname ▸ h.named x hx) hchannel hcut r hr hw

end Persatrix.Interactions
