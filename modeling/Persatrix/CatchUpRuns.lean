import Persatrix.CatchUpSweep

/-!
# An interrupted pass against the clean one

While a pass replays, it follows the clean pass over the rows it has come to, in each window that it has
not cut. A row that raises is skipped, and this is harmless as long as the row would have rotated no
record of another speaker away.
-/
namespace Persatrix.Interactions
open Agents

/-- The row names its sender as its records do, and rotates away no replayed record of another speaker
whose window is not cut. -/
def GapContained (cfg : Config) (t : Tracker) (a : Arrival) : Prop :=
  a.event.senderID.getD "" ≠ "" →
    strip (a.event.senderID.getD "") = a.event.senderID.getD "" ∧
      ∀ r ∈ t.opened.values, r.replayed = true →
        scopeForMultiTurnEvent cfg a.event = some r.scope →
          r.speakerID ≠ a.event.senderID.getD "" →
            t.replayRecordCompromised (r.sourceChannelID.getD "") r.speakerID = false →
              wireRotationCloses r (scopeWireAnchor r.scope a.event) = false

instance (cfg : Config) (t : Tracker) (a : Arrival) : Decidable (GapContained cfg t a) :=
  inferInstanceAs (Decidable (_ → _ ∧ ∀ r ∈ t.opened.values, _))

def Stage.nextRow : Stage → Option Arrival
  | .replaying _ (⟨_, a :: _⟩ :: _) => some a
  | _ => none

/-- A row whose handling raises leaves no gap but that of its sender. -/
def Contained (cfg : Config) (s : CatchUp) : CatchUpEvent → Prop
  | .rowRaises => ∀ a ∈ s.stage.nextRow, GapContained cfg s.tracker a
  | _ => True

instance (cfg : Config) (s : CatchUp) : (e : CatchUpEvent) → Decidable (Contained cfg s e)
  | .rowRaises =>
    inferInstanceAs (Decidable (∀ a ∈ s.stage.nextRow, GapContained cfg s.tracker a))
  | .row | .nextChannel | .stop _ | .beginSweep | .sweep | .endSweep | .receive _ | .file | .finish
  | .idleCheck _ => isTrue trivial

variable {cfg : Config} {h : History} {a : Arrival} {t : Tracker} {w : String × String}

/-- The rows that are left, after those in `done`, and the channels that are complete. -/
structure Progress (h : History) (windows : List Window) (completed : List String)
    (done : List Arrival) : Prop where
  rows : h.rows = done ++ windows.flatMap Window.rows
  named : ∀ x ∈ windows, ∀ a ∈ x.rows, a.event.channelID = some x.channelID
  distinct : (windows.map Window.channelID).Nodup
  left : ∀ c ∈ completed, ∀ x ∈ windows, x.channelID ≠ c
  completed : ∀ c ∈ completed, c ∈ h.windows.map Window.channelID
  windows : ∀ x ∈ windows, x.channelID ∈ h.windows.map Window.channelID

theorem progress_init : Progress h h.windows [] [] where
  rows := rfl
  named x hx a ha := (h.replayed x hx a ha).2
  distinct := h.channels
  left := nofun
  completed := nofun
  windows _ hx := List.mem_map_of_mem hx

section Progress
variable {channelID : String} {rows : List Arrival} {later : List Window} {completed : List String}
  {done : List Arrival}

theorem Progress.next (hp : Progress h (⟨channelID, a :: rows⟩ :: later) completed done) :
    Progress h (⟨channelID, rows⟩ :: later) completed (done ++ [a]) where
  rows := by
    rw [hp.rows, List.flatMap_cons, List.flatMap_cons, List.append_assoc]
    rfl
  named x hx b hb := by
    rcases List.mem_cons.mp hx with rfl | hx
    · exact hp.named _ List.mem_cons_self b (List.mem_cons_of_mem _ hb)
    · exact hp.named x (List.mem_cons_of_mem _ hx) b hb
  distinct := hp.distinct
  left c hc x hx := by
    rcases List.mem_cons.mp hx with rfl | hx
    · exact hp.left c hc ⟨channelID, a :: rows⟩ List.mem_cons_self
    · exact hp.left c hc x (List.mem_cons_of_mem _ hx)
  completed := hp.completed
  windows x hx := by
    rcases List.mem_cons.mp hx with rfl | hx
    · exact hp.windows ⟨channelID, a :: rows⟩ List.mem_cons_self
    · exact hp.windows x (List.mem_cons_of_mem _ hx)

theorem Progress.channel (hp : Progress h (⟨channelID, []⟩ :: later) completed done)
    (whole : Bool) :
    Progress h later (if whole then channelID :: completed else completed) done := by
  have hmem : ∀ c ∈ (if whole then channelID :: completed else completed),
      c = channelID ∨ c ∈ completed := by
    intro c hc
    split at hc
    · exact List.mem_cons.mp hc
    · exact .inr hc
  obtain ⟨hnew, hdistinct⟩ := List.nodup_cons.mp hp.distinct
  refine ⟨hp.rows, fun x hx => hp.named x (List.mem_cons_of_mem _ hx), hdistinct,
    fun c hc x hx => ?_, fun c hc => ?_, fun x hx => hp.windows x (List.mem_cons_of_mem _ hx)⟩
  · rcases hmem c hc with rfl | hold
    · intro heq
      have hmem : x.channelID ∈ later.map Window.channelID := List.mem_map_of_mem hx
      rw [heq] at hmem
      exact hnew hmem
    · exact hp.left c hold x (List.mem_cons_of_mem _ hx)
  · rcases hmem c hc with rfl | hold
    · exact hp.windows _ List.mem_cons_self
    · exact hp.completed c hold

theorem Progress.window (hp : Progress h (⟨channelID, a :: rows⟩ :: later) completed done) :
    ∃ x ∈ h.windows, a ∈ x.rows ∧ x.channelID = channelID := by
  have hmem : a ∈ h.rows := by
    rw [hp.rows]
    exact List.mem_append_right _ (List.mem_append_left _ List.mem_cons_self)
  obtain ⟨x, hx, ha⟩ := mem_rows.mp hmem
  have hname := hp.named _ List.mem_cons_self a List.mem_cons_self
  rw [(h.replayed x hx a ha).2] at hname
  exact ⟨x, hx, ha, Option.some.inj hname⟩

theorem Progress.done_sub (hp : Progress h later completed done) : ∀ a ∈ done, a ∈ h.rows := by
  intro a ha
  rw [hp.rows]
  exact List.mem_append_left _ ha

theorem Progress.left_sub (hp : Progress h later completed done) :
    ∀ a ∈ later.flatMap Window.rows, a ∈ h.rows := by
  intro a ha
  rw [hp.rows]
  exact List.mem_append_right _ ha

/-- The rows that are left are of no complete channel. -/
theorem Progress.other (hp : Progress h later completed done) (hw : w.1 ∈ completed) :
    ∀ a ∈ later.flatMap Window.rows, a.event.channelID ≠ some w.1 := by
  intro a ha heq
  obtain ⟨x, hx, hax⟩ := List.mem_flatMap.mp ha
  rw [hp.named x hx a hax] at heq
  exact hp.left w.1 hw x hx (Option.some.inj heq)

theorem Progress.replayed (hp : Progress h later completed done) :
    replayed cfg h.rows =
      (later.flatMap Window.rows).foldl (handleMultiTurnEvent cfg) (replayed cfg done) := by
  unfold Interactions.replayed
  rw [hp.rows, List.foldl_append]

end Progress

/-! ### A row that raises -/

theorem view_noteReplayGap (t : Tracker) (channelID speakerID : String) :
    (view w (t.noteReplayGap channelID speakerID)).opened = (view w t).opened ∧
      (view w (t.noteReplayGap channelID speakerID)).derived = (view w t).derived ∧
      (view w (t.noteReplayGap channelID speakerID)).cut = ((view w t).cut ||
        if speakerID ≠ "" then w == (channelID, speakerID) else w.1 == channelID) := by
  unfold Tracker.noteReplayGap
  split_ifs
  · exact ⟨rfl, rfl, compromised_note channelID speakerID⟩
  · refine ⟨rfl, rfl, ?_⟩
    unfold view Tracker.replayRecordCompromised
    dsimp only
    rw [List.contains_cons, Bool.or_comm (_ == _), Bool.or_assoc, Bool.or_assoc,
      Bool.or_comm (_ == _)]

/-- The clean pass takes the row, the other one notes the gap. -/
theorem follows_gap (hsep : h.SeparateScopes cfg) {x : Window} (hx : x ∈ h.windows)
    (ha : a ∈ x.rows) {c : Tracker} (hsteady : Steady cfg h t)
    (hfollows : (view w t).Follows (view w c))
    (hcontained : GapContained cfg t a) :
    (view w (t.noteReplayGap x.channelID (a.event.senderID.getD ""))).Follows
      ((view w c).row cfg a w) := by
  obtain ⟨hopened, hderived, hcut⟩ := @view_noteReplayGap w t x.channelID
    (a.event.senderID.getD "")
  cases hgap : (view w (t.noteReplayGap x.channelID (a.event.senderID.getD ""))).cut with
  | true => exact hfollows.of_cut hgap hderived (View.derived_row w)
  | false =>
    rw [hgap] at hcut
    obtain ⟨hwhole, hother⟩ := Bool.or_eq_false_iff.mp hcut.symm
    obtain ⟨hsame, hclean⟩ := hfollows.opened hwhole
    -- a record of the window in the scope of the row is of another speaker
    have hrecords : ∀ s ∈ (view w c).opened.values,
        scopeForMultiTurnEvent cfg a.event = some s.key.scope →
          a.event.senderID.getD "" ≠ "" ∧ w.2 ≠ a.event.senderID.getD "" ∧
            ∃ r ∈ t.opened.values, r.inWindow w = true ∧ r.span = s := by
      intro s hs hscope
      rw [← hsame] at hs
      have hchannel := channel_of_scope hsep hsteady hx ha hs hscope
      by_cases hsender : a.event.senderID.getD "" = ""
      · rw [if_neg (not_not.mpr hsender), hchannel, beq_self_eq_true] at hother
        cases hother
      · rw [if_pos hsender] at hother
        refine ⟨hsender, fun heq => ?_, openSpans_mem.mp hs⟩
        have hw : w = (x.channelID, a.event.senderID.getD "") := Prod.ext hchannel heq
        rw [hw, beq_self_eq_true] at hother
        cases hother
    have hnot : w ≠ rowWindow a := by
      intro heq
      have hname : rowWindow a = (x.channelID, strip (a.event.senderID.getD "")) := by
        unfold rowWindow
        rw [(h.replayed x hx a ha).2]
        rfl
      rw [heq, hname] at hother
      by_cases hsender : a.event.senderID.getD "" = ""
      · rw [if_neg (not_not.mpr hsender), beq_self_eq_true] at hother
        cases hother
      · rw [if_pos hsender, (hcontained hsender).1, beq_self_eq_true] at hother
        cases hother
    have hrow : (view w c).row cfg a w = view w c := by
      unfold View.row
      split
      · rfl
      · next scope hscope =>
          dsimp only
          rw [if_neg hnot]
          refine View.fan_eq_self fun s hs hin => ?_
          obtain ⟨hsender, hspeaker, r, hr, hw, rfl⟩ := hrecords s hs (by rw [hscope, hin])
          obtain ⟨hreplayed, hrw⟩ := inWindow_iff.mp hw
          have hrspeaker : r.speakerID = w.2 := congrArg Prod.snd hrw
          have hrscope : r.scope = scope := hin
          constructor
          · unfold View.splits
            refine Bool.and_eq_false_imp.mpr fun hkey => absurd ?_ hspeaker
            have htarget : r.key = targetKey cfg scope a := of_decide_eq_true hkey
            rw [← hrspeaker, ← (hcontained hsender).1]
            exact congrArg RecordKey.speakerID htarget
          · have hrotation := (hcontained hsender).2 r hr hreplayed (by rw [hscope, hrscope])
              (hrspeaker ▸ hspeaker) (by rw [← hwhole, ← hrw]; rfl)
            unfold wireRotationCloses at hrotation
            rw [hsteady.healthy.isOpen r hr, Bool.true_and, hrscope] at hrotation
            exact hrotation
    rw [hrow]
    refine ⟨fun s hs => hfollows.derived s (hderived ▸ hs), fun _ => ?_⟩
    rw [hopened]
    exact ⟨hsame, hclean⟩

/-! ### What holds at each stage -/

/-- After the replay: what is derived is derived by the clean pass, and what is left open in a window of
a complete channel that is not cut is left open there. -/
structure Bounded (cfg : Config) (h : History) (completed : List String) (t : Tracker) : Prop where
  known : ∀ c ∈ completed, c ∈ h.windows.map Window.channelID
  derived : ∀ w, ∀ s ∈ (view w t).derived, s ∈ (view w (cleanPass cfg h)).derived
  opened : ∀ w : String × String, w.1 ∈ completed → (view w t).cut = false →
    (∀ s ∈ (view w t).opened.values, s ∈ (view w (replayed cfg h.rows)).opened.values) ∧
      (view w (replayed cfg h.rows)).cut = false

/-- A replayed record of the snapshot is still the one under its key, unless it is gone. -/
def Snapshot (t : Tracker) (rest : List Interaction) : Prop :=
  ∀ r ∈ rest, r.replayed = true → r.interactionID < t.nextID ∧
    ∀ s ∈ t.opened.values, s.key = r.key →
      s = r ∨ s.replayed = false ∧ s.interactionID ≠ r.interactionID

def StageKept (cfg : Config) (h : History) (completed : List String) (t : Tracker) : Stage → Prop
  | .replaying _ windows => ∃ done, Progress h windows completed done ∧
      ∀ w, (view w t).Follows (view w (replayed cfg done))
  | .stopped => Bounded cfg h completed t
  | .sweeping rest => Bounded cfg h completed t ∧ Snapshot t rest
  | .over => ∀ w, ∀ s ∈ (view w t).derived, s ∈ (view w (cleanPass cfg h)).derived

structure Kept (cfg : Config) (h : History) (s : CatchUp) : Prop where
  steady : Steady cfg h s.tracker
  received : ∀ a, s.handling = .received a →
    a.event.metadata.replayMode = false ∧ Vacated cfg s.tracker a
  stage : StageKept cfg h s.completed s.tracker s.stage

/-- A change that is not of the pass: it cuts windows at most, and what it opens is live. -/
structure Disturbs (cfg : Config) (h : History) (t u : Tracker) : Prop where
  steady : Steady cfg h u
  view : ∀ w, (view w t).CutTo (view w u)
  nextID : t.nextID ≤ u.nextID
  opened : ∀ r ∈ u.opened.values, r ∈ t.opened.values ∨ r.replayed = false ∧
    (t.nextID ≤ r.interactionID ∨ ∃ s ∈ t.opened.values, s.key = r.key ∧ s.replayed = false ∧
      s.interactionID = r.interactionID)

theorem Disturbs.of_shrinks {u : Tracker} (hsteady : Steady cfg h t) (hshrinks : Shrinks t u)
    (hview : ∀ w, (Interactions.view w t).CutTo (Interactions.view w u)) : Disturbs cfg h t u :=
  ⟨hsteady.shrinks hshrinks, hview, hshrinks.nextID.ge, fun r hr => .inl (hshrinks.opened r hr)⟩

theorem Bounded.disturbed {completed : List String} {u : Tracker}
    (hbounded : Bounded cfg h completed t) (hdisturbs : Disturbs cfg h t u) :
    Bounded cfg h completed u where
  known := hbounded.known
  derived w s hs := hbounded.derived w s ((hdisturbs.view w).derived ▸ hs)
  opened w hw hcut := by
    have hsame := (hdisturbs.view w).kept hcut
    rw [hsame] at hcut ⊢
    exact hbounded.opened w hw hcut

theorem Snapshot.disturbed {rest : List Interaction} {u : Tracker} (hsnapshot : Snapshot t rest)
    (hdisturbs : Disturbs cfg h t u) : Snapshot u rest := by
  intro r hr hreplayed
  obtain ⟨hnumber, honly⟩ := hsnapshot r hr hreplayed
  refine ⟨hnumber.trans_le hdisturbs.nextID, fun s hs hkey => ?_⟩
  rcases hdisturbs.opened s hs with hold | ⟨hlive, hnew | ⟨x, hx, hxkey, hxlive, hxid⟩⟩
  · exact honly s hold hkey
  · exact .inr ⟨hlive, (hnumber.trans_le hnew).ne'⟩
  · rcases honly x hx (hxkey.trans hkey) with rfl | ⟨-, hne⟩
    · rw [hreplayed] at hxlive
      cases hxlive
    · exact .inr ⟨hlive, hxid ▸ hne⟩

theorem StageKept.disturbed {completed : List String} {u : Tracker} {stage : Stage}
    (hstage : StageKept cfg h completed t stage) (hdisturbs : Disturbs cfg h t u) :
    StageKept cfg h completed u stage := by
  cases stage with
  | replaying whole windows =>
    obtain ⟨done, hprogress, hfollows⟩ := hstage
    exact ⟨done, hprogress, fun w => (hdisturbs.view w).follows (hfollows w)⟩
  | stopped => exact Bounded.disturbed hstage hdisturbs
  | sweeping rest => exact ⟨hstage.1.disturbed hdisturbs, hstage.2.disturbed hdisturbs⟩
  | _ => exact fun w s hs => hstage w s ((hdisturbs.view w).derived ▸ hs)

/-! ### The end of the replay -/

/-- What the pass has derived when it stops, the clean pass derives, and in a complete channel it
follows the clean pass to its end. -/
theorem bounded_of_progress (hsep : h.SeparateScopes cfg) {windows : List Window}
    {completed : List String} {done : List Arrival} (hp : Progress h windows completed done)
    (hfollows : ∀ w, (view w t).Follows (view w (replayed cfg done))) :
    Bounded cfg h completed t := by
  have hsteady : Steady cfg h (replayed cfg done) := steady_replayed hsep hp.done_sub
  constructor
  · exact hp.completed
  · intro w s hs
    refine (cleanWindow hsep w).kept s ?_
    rw [hp.replayed]
    exact derived_foldl hsep hp.left_sub hsteady s ((hfollows w).derived s hs)
  · intro w hw hcut
    rw [hp.replayed, view_foldl_other hsep hp.left_sub (hp.other hw) hsteady]
    obtain ⟨hopened, hclean⟩ := (hfollows w).opened hcut
    rw [hopened]
    exact ⟨fun s hs => hs, hclean⟩

theorem view_receive {scope : String} (hscope : scopeForMultiTurnEvent cfg a.event = some scope)
    (hhealthy : Healthy t) : view w (receive cfg t a) = (view w t).fan cfg scope a w.1 := by
  unfold receive
  rw [hscope]
  dsimp only
  rw [view_closeStaleRecords w (hhealthy.observe _ _), view_observe]

theorem receive_of_none (hscope : scopeForMultiTurnEvent cfg a.event = none) :
    receive cfg t a = t := by
  unfold receive
  rw [hscope]

/-- The pass is stopped in the handling of a row. -/
theorem bounded_received (hsep : h.SeparateScopes cfg) {channelID : String} {rows : List Arrival}
    {later : List Window} {completed : List String} {done : List Arrival}
    (hp : Progress h (⟨channelID, a :: rows⟩ :: later) completed done) (hsteady : Steady cfg h t)
    (hfollows : ∀ w, (view w t).Follows (view w (replayed cfg done))) :
    Bounded cfg h completed (receive cfg t a) := by
  obtain ⟨x, hx, ha, hname⟩ := hp.window
  have hclean : Steady cfg h (replayed cfg done) := steady_replayed hsep hp.done_sub
  have hbounded := bounded_of_progress hsep hp hfollows
  have hnext : Steady cfg h (replayed cfg (done ++ [a])) := by
    rw [replayed_append]
    exact (view_row hsep hx ha hclean).1
  constructor
  · exact hbounded.known
  · intro w s hs
    refine (cleanWindow hsep w).kept s ?_
    rw [hp.next.replayed]
    refine derived_foldl hsep hp.next.left_sub hnext s ?_
    rw [replayed_append, (view_row hsep hx ha hclean).2]
    unfold View.row
    cases hscope : scopeForMultiTurnEvent cfg a.event with
    | none =>
      rw [receive_of_none hscope] at hs
      exact (hfollows w).derived s hs
    | some scope =>
      rw [view_receive hscope hsteady.healthy] at hs
      have hfan := (hfollows w).fan.derived s hs
      dsimp only
      split
      · rwa [View.derived_turn]
      · exact hfan
  · intro w hw hcut
    have hne : x.channelID ≠ w.1 := hname ▸ hp.left w.1 hw _ List.mem_cons_self
    have hsame : view w (receive cfg t a) = view w t := by
      cases hscope : scopeForMultiTurnEvent cfg a.event with
      | none => rw [receive_of_none hscope]
      | some scope =>
        rw [view_receive hscope hsteady.healthy]
        refine View.fan_eq_self fun s hs hin => absurd ?_ hne
        exact (channel_of_scope hsep hsteady hx ha hs (by rw [hscope, hin])).symm
    rw [hsame] at hcut ⊢
    exact hbounded.opened w hw hcut

/-! ### A step of the sweep -/

theorem Bounded.sweep (hsep : h.SeparateScopes cfg) {completed : List String}
    {gaps : List (String × String)} {r : Interaction} (hbounded : Bounded cfg h completed t)
    (hsteady : Steady cfg h t)
    (honly : r.replayed = true → ∀ s ∈ t.opened.values, s.key = r.key →
      s.interactionID = r.interactionID → s = r) :
    Bounded cfg h completed (sweepRecord completed gaps t r) := by
  have hcases : sweepRecord completed gaps t r = t ∨ r.replayed = true ∧ r ∈ t.opened.values := by
    cases hreplayed : r.replayed with
    | false =>
      left
      unfold sweepRecord
      rw [hreplayed]
      rfl
    | true =>
      unfold sweepRecord
      rw [hreplayed, if_pos rfl]
      dsimp only
      rcases closeRecord_cases t r .catchupComplete (some (r.sourceChannelID.getD "" ≠ "" &&
        completed.contains (r.sourceChannelID.getD "") &&
          !t.replayRecordCompromised (r.sourceChannelID.getD "") r.speakerID &&
            !gaps.contains (r.sourceChannelID.getD "", r.speakerID))) with
        hsame | ⟨s, hs, hkey, hid, -⟩
      · exact .inl hsame
      · exact .inr ⟨rfl, honly hreplayed s hs hkey hid ▸ hs⟩
  rcases hcases with hsame | ⟨hreplayed, hr⟩
  · rw [hsame]
    exact hbounded
  obtain ⟨derivable, hview, hsure, -⟩ := @view_sweepRecord t completed gaps hsteady.healthy r hr
    hreplayed
  have hin : r.inWindow r.window = true := inWindow_iff.mpr ⟨hreplayed, rfl⟩
  constructor
  · exact hbounded.known
  · intro w s hs
    by_cases hw : r.inWindow w = true
    · obtain rfl : r.window = w := (inWindow_iff.mp hw).2
      rw [hview] at hs
      rcases List.mem_append.mp hs with hold | hnew
      · exact hbounded.derived _ s hold
      · cases derivable with
        | false => cases hnew
        | true =>
          obtain ⟨hcompleted, hcut⟩ := hsure rfl
          obtain ⟨hsub, hclean⟩ := hbounded.opened _ hcompleted hcut
          rw [List.mem_singleton.mp hnew]
          exact (cleanWindow hsep r.window).swept (hbounded.known _ hcompleted) hclean _
            (hsub _ (openSpans_mem.mpr ⟨r, hr, hin, rfl⟩))
    · rw [view_sweepRecord_other hr (Bool.not_eq_true _ ▸ hw)] at hs
      exact hbounded.derived w s hs
  · intro w hw hcut
    by_cases hwindow : r.inWindow w = true
    · obtain rfl : r.window = w := (inWindow_iff.mp hwindow).2
      rw [hview] at hcut ⊢
      obtain ⟨hsub, hclean⟩ := hbounded.opened _ hw (Bool.or_eq_false_iff.mp hcut).1
      exact ⟨fun s hs => hsub s (Keyed.mem_erase.mp hs).1, hclean⟩
    · rw [view_sweepRecord_other hr (Bool.not_eq_true _ ▸ hwindow)] at hcut ⊢
      exact hbounded.opened w hw hcut

/-! ### Every step -/

theorem opened_noteReplayGap (t : Tracker) (channelID speakerID : String) :
    (t.noteReplayGap channelID speakerID).opened = t.opened ∧
      (t.noteReplayGap channelID speakerID).closed = t.closed ∧
      (t.noteReplayGap channelID speakerID).nextID = t.nextID := by
  unfold Tracker.noteReplayGap
  split
  · exact ⟨rfl, rfl, rfl⟩
  · exact ⟨rfl, rfl, rfl⟩

theorem shrinks_noteReplayGap (t : Tracker) (channelID speakerID : String) :
    Shrinks t (t.noteReplayGap channelID speakerID) := by
  obtain ⟨hopened, -, hnext⟩ := opened_noteReplayGap t channelID speakerID
  refine ⟨fun r hr => ?_, hnext⟩
  rwa [hopened] at hr

theorem kept_init : Kept cfg h (catchUpSystem cfg h).init where
  steady := steady_init
  received _ hhandling := by cases hhandling
  stage := ⟨[], progress_init, fun _ => ⟨fun _ hs => hs, fun hcut => ⟨rfl, hcut⟩⟩⟩

section Step
variable {s u : CatchUp}

theorem kept_row (hsep : h.SeparateScopes cfg) (hkept : Kept cfg h s) {whole : Bool}
    (hstage : s.stage = .replaying whole (⟨channelID, a :: rows⟩ :: later))
    (hhandling : s.handling = .none) :
    Kept cfg h { s with
      tracker := handleMultiTurnEvent cfg s.tracker a
      stage := .replaying whole (⟨channelID, rows⟩ :: later) } := by
  have hstageKept := hkept.stage
  rw [hstage] at hstageKept
  obtain ⟨done, hprogress, hfollows⟩ := hstageKept
  obtain ⟨x, hx, ha, -⟩ := hprogress.window
  obtain ⟨hsteady, hview⟩ := view_row hsep hx ha hkept.steady
  have hclean := view_row hsep hx ha (steady_replayed hsep hprogress.done_sub)
  refine ⟨hsteady, fun b hb => ?_, done ++ [a], hprogress.next, fun w => ?_⟩
  · rw [hhandling] at hb
    cases hb
  · rw [replayed_append, hview, hclean.2]
    exact (hfollows w).row

theorem kept_rowRaises (hsep : h.SeparateScopes cfg) (hkept : Kept cfg h s)
    (hcontained : Contained cfg s .rowRaises) {whole : Bool} {gaps : List (String × String)}
    (hstage : s.stage = .replaying whole (⟨channelID, a :: rows⟩ :: later)) :
    Kept cfg h { s with
      tracker := s.tracker.noteReplayGap channelID (a.event.senderID.getD "")
      speakerGaps := gaps
      stage := .replaying (whole && a.event.senderID.getD "" ≠ "")
        (⟨channelID, rows⟩ :: later) } := by
  have hstageKept := hkept.stage
  rw [hstage] at hstageKept
  obtain ⟨done, hprogress, hfollows⟩ := hstageKept
  obtain ⟨x, hx, ha, rfl⟩ := hprogress.window
  have hgap : GapContained cfg s.tracker a := by
    refine hcontained a ?_
    rw [hstage]
    rfl
  have hshrinks := shrinks_noteReplayGap s.tracker x.channelID (a.event.senderID.getD "")
  refine ⟨hkept.steady.shrinks hshrinks, fun b hb => ?_, done ++ [a], hprogress.next,
    fun w => ?_⟩
  · obtain ⟨hlive, hvacated⟩ := hkept.received b hb
    exact ⟨hlive, hvacated.of_subset hshrinks.opened⟩
  · have hclean := view_row hsep hx ha (steady_replayed hsep hprogress.done_sub)
    rw [replayed_append, hclean.2]
    exact follows_gap hsep hx ha hkept.steady (hfollows w) hgap

theorem kept_sweep (hsep : h.SeparateScopes cfg) (hkept : Kept cfg h s) {r : Interaction}
    {rest : List Interaction} (hstage : s.stage = .sweeping (r :: rest)) :
    Kept cfg h { s with
      tracker := sweepRecord s.completed s.speakerGaps s.tracker r
      stage := .sweeping rest } := by
  have hstageKept := hkept.stage
  rw [hstage] at hstageKept
  obtain ⟨hbounded, hsnapshot⟩ := hstageKept
  have hshrinks := shrinks_sweepRecord s.completed s.speakerGaps s.tracker r
  refine ⟨hkept.steady.shrinks hshrinks, fun b hb => ?_,
    hbounded.sweep hsep hkept.steady fun hreplayed x hx hkey hid => ?_, fun y hy hreplayed => ?_⟩
  · obtain ⟨hlive, hvacated⟩ := hkept.received b hb
    exact ⟨hlive, hvacated.of_subset hshrinks.opened⟩
  · obtain ⟨-, honly⟩ := hsnapshot r List.mem_cons_self hreplayed
    exact (honly x hx hkey).resolve_right fun hother => hother.2 hid
  · obtain ⟨hnumber, honly⟩ := hsnapshot y (List.mem_cons_of_mem _ hy) hreplayed
    exact ⟨hnumber.trans_le hshrinks.nextID.ge,
      fun x hx hkey => honly x (hshrinks.opened x hx) hkey⟩

/-- A step that is not of the pass. -/
theorem kept_disturbed (hkept : Kept cfg h s) {tracker : Tracker} {handling : Handling}
    (hdisturbs : Disturbs cfg h s.tracker tracker)
    (hreceived : ∀ a, handling = .received a →
      a.event.metadata.replayMode = false ∧ Vacated cfg tracker a) :
    Kept cfg h { s with tracker := tracker, handling := handling } :=
  ⟨hdisturbs.steady, hreceived, hkept.stage.disturbed hdisturbs⟩

theorem kept_idleCheck (hkept : Kept cfg h s) (expired : List (Interaction × CloseReason)) :
    Kept cfg h { s with
      tracker := expired.foldl (fun t p => (t.closeRecord p.1 p.2 none).2) s.tracker } := by
  have hshrinks : Shrinks s.tracker
      (expired.foldl (fun t p => (t.closeRecord p.1 p.2 none).2) s.tracker) :=
    shrinks_foldl (fun t p => shrinks_closeRecord t p.1 p.2 none) expired s.tracker
  refine kept_disturbed hkept (.of_shrinks hkept.steady hshrinks fun w =>
    cutTo_foldl_closeRecord Prod.fst Prod.snd expired hkept.steady.healthy) fun b hb => ?_
  obtain ⟨hlive, hvacated⟩ := hkept.received b hb
  exact ⟨hlive, hvacated.of_subset hshrinks.opened⟩

theorem kept_step (hsep : h.SeparateScopes cfg) {e : CatchUpEvent} (hkept : Kept cfg h s)
    (hcontained : Contained cfg s e) (hstep : (catchUpSystem cfg h).step s e = some u) :
    Kept cfg h u := by
  have hstageKept := hkept.stage
  cases CatchUp.steps_of_step hstep with
  | row hstage hhandling => exact kept_row hsep hkept hstage hhandling
  | rowRaises hstage => exact kept_rowRaises hsep hkept hcontained hstage
  | @nextChannel whole _ _ _ hstage hcompleted =>
    rw [hstage] at hstageKept
    obtain ⟨done, hprogress, hfollows⟩ := hstageKept
    rw [hcompleted]
    exact ⟨hkept.steady, hkept.received, done, hprogress.channel whole, hfollows⟩
  | stop hstage =>
    rw [hstage] at hstageKept
    obtain ⟨done, hprogress, hfollows⟩ := hstageKept
    exact ⟨hkept.steady, hkept.received, bounded_of_progress hsep hprogress hfollows⟩
  | @stopReceived _ _ a _ _ hstage hhandling =>
    rw [hstage] at hstageKept
    obtain ⟨done, hprogress, hfollows⟩ := hstageKept
    refine ⟨hkept.steady.shrinks (shrinks_receive cfg s.tracker a), fun b hb => ?_,
      bounded_received hsep hprogress hkept.steady hfollows⟩
    rw [hhandling] at hb
    cases hb
  | beginSweep hstage =>
    rw [hstage] at hstageKept
    refine ⟨hkept.steady, hkept.received, hstageKept, fun r hr _ => ?_⟩
    exact ⟨hkept.steady.healthy.numbered r hr,
      fun x hx hkey => .inl (Keyed.eq_of_key hx hr hkey)⟩
  | sweep hstage => exact kept_sweep hsep hkept hstage
  | endSweep hstage =>
    rw [hstage] at hstageKept
    have hshrinks : Shrinks s.tracker s.tracker.clearReplayPassState := ⟨fun r hr => hr, rfl⟩
    refine ⟨hkept.steady.shrinks hshrinks, hkept.received, fun w x hx => ?_⟩
    exact hstageKept.1.derived w x hx
  | @receive a _ hlive =>
    refine kept_disturbed hkept (.of_shrinks hkept.steady (shrinks_receive cfg s.tracker a)
      fun w => cutTo_receive hlive hkept.steady.healthy) fun b hb => ?_
    cases hb
    exact ⟨hlive, vacated_receive hlive hkept.steady.healthy⟩
  | file hhandling =>
    obtain ⟨hlive, hvacated⟩ := hkept.received _ hhandling
    have hfiled := filedLive hlive hkept.steady hvacated
    refine kept_disturbed hkept ⟨hfiled.steady, fun w => ?_, hfiled.nextID, hfiled.opened⟩
      fun c hc => by cases hc
    rw [hfiled.view w]
    exact .refl _
  | @finish a _ =>
    refine kept_disturbed hkept (.of_shrinks hkept.steady (shrinks_finish cfg s.tracker a)
      fun w => ?_) fun c hc => by cases hc
    rw [view_finish]
    exact .refl _
  | idleCheck expired => exact kept_idleCheck hkept expired

end Step

theorem derived_of_kept (hsep : h.SeparateScopes cfg) {s : CatchUp} (hkept : Kept cfg h s) :
    ∀ w, ∀ x ∈ (view w s.tracker).derived, x ∈ (view w (cleanPass cfg h)).derived := by
  have hstage := hkept.stage
  cases hs : s.stage with
  | replaying whole windows =>
    rw [hs] at hstage
    obtain ⟨done, hprogress, hfollows⟩ := hstage
    exact (bounded_of_progress hsep hprogress hfollows).derived
  | stopped =>
    rw [hs] at hstage
    exact Bounded.derived hstage
  | sweeping rest =>
    rw [hs] at hstage
    exact hstage.1.derived
  | _ =>
    rw [hs] at hstage
    exact hstage

end Persatrix.Interactions
