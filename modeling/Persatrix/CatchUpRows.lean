import Persatrix.WindowTurns

/-!
# A row, seen in the windows

Where no two channels share a scope, the records of a window change with a row as the row decides alone.
What a pass sees of a window that it has cut derives no more; of one that it has not cut, it sees what
the clean pass sees.
-/
namespace Persatrix.Interactions
open Agents

/-- The channel and the speaker of a row. -/
def rowWindow (a : Arrival) : String × String :=
  (a.event.channelID.getD "", strip (a.event.senderID.getD ""))

/-- A row, for what is seen of a window. -/
def View.row (cfg : Config) (a : Arrival) (w : String × String) (v : View) : View :=
  match scopeForMultiTurnEvent cfg a.event with
  | none => v
  | some scope =>
    let fanned := v.fan cfg scope a w.1
    if w = rowWindow a then fanned.turn cfg scope a else fanned

/-! ### What one pass sees and the other -/

/-- One pass has derived no more than the other, and sees the same of a window that it has not cut. -/
structure View.Follows (v u : View) : Prop where
  derived : ∀ s ∈ v.derived, s ∈ u.derived
  opened : v.cut = false → v.opened = u.opened ∧ u.cut = false

namespace View
variable {cfg : Config} {scope : String} {a : Arrival} {channelID : String} {v u : View}

theorem derived_close (s : Span) (complete : Bool) :
    ∀ x ∈ v.derived, x ∈ (v.close s complete).derived := fun _ hx => List.mem_append_left _ hx

theorem derived_judge (s : Span) : ∀ x ∈ v.derived, x ∈ (v.judge cfg scope a channelID s).derived := by
  intro x hx
  unfold judge
  split_ifs
  · exact derived_close s _ x hx
  · exact derived_close s _ x hx
  · exact hx

theorem derived_foldl_judge (l : List Span) :
    ∀ x ∈ v.derived, x ∈ (l.foldl (judge cfg scope a channelID) v).derived := by
  induction l generalizing v with
  | nil => exact fun x hx => hx
  | cons s l ih => exact fun x hx => ih x (derived_judge s x hx)

theorem close_false (s : Span) :
    (v.close s false).cut = true ∧ (v.close s false).derived = v.derived :=
  ⟨Bool.or_true _, List.append_nil _⟩

/-- A window that is cut derives no more. -/
theorem judge_of_cut (s : Span) (h : v.cut = true) :
    (v.judge cfg scope a channelID s).cut = true ∧
      (v.judge cfg scope a channelID s).derived = v.derived := by
  unfold judge
  rw [h, Bool.not_true, Bool.and_false]
  split_ifs
  · exact close_false s
  · exact close_false s
  · exact ⟨h, rfl⟩

theorem foldl_judge_of_cut (l : List Span) (h : v.cut = true) :
    (l.foldl (judge cfg scope a channelID) v).cut = true ∧
      (l.foldl (judge cfg scope a channelID) v).derived = v.derived := by
  induction l generalizing v with
  | nil => exact ⟨h, rfl⟩
  | cons s l ih =>
    obtain ⟨hcut, hderived⟩ := judge_of_cut s h
    obtain ⟨hcut', hderived'⟩ := ih hcut
    exact ⟨hcut', hderived'.trans hderived⟩

theorem Follows.close {s : Span} {c d : Bool} (h : v.Follows u) (hcd : v.cut = false → c = d)
    (hcut : v.cut = true → c = false) : (v.close s c).Follows (u.close s d) := by
  unfold View.close
  constructor
  · intro x hx
    rcases List.mem_append.mp hx with hold | hnew
    · exact List.mem_append_left _ (h.derived x hold)
    · refine List.mem_append_right _ ?_
      cases hv : v.cut with
      | false => rwa [hcd hv] at hnew
      | true =>
        rw [hcut hv] at hnew
        cases hnew
  · intro hnone
    obtain ⟨hv, hc⟩ := Bool.or_eq_false_iff.mp hnone
    obtain ⟨hopened, hu⟩ := h.opened hv
    dsimp only
    rw [hopened, hu, ← hcd hv, hc]
    exact ⟨rfl, rfl⟩

theorem Follows.judge (h : v.Follows u) (s : Span) :
    (v.judge cfg scope a channelID s).Follows (u.judge cfg scope a channelID s) := by
  unfold View.judge
  split_ifs
  · exact h.close (fun _ => rfl) fun _ => rfl
  · refine h.close (fun hv => ?_) fun hv => ?_
    · rw [hv, (h.opened hv).2]
    · rw [hv, Bool.not_true, Bool.and_false]
  · exact h

theorem Follows.foldl_judge (l : List Span) (h : v.Follows u) :
    (l.foldl (View.judge cfg scope a channelID) v).Follows
      (l.foldl (View.judge cfg scope a channelID) u) := by
  induction l generalizing v u with
  | nil => exact h
  | cons s l ih => exact ih (h.judge s)

theorem Follows.of_cut {v' u' : View} (h : v.Follows u) (hcut : v'.cut = true)
    (hderived : v'.derived = v.derived) (hgrown : ∀ s ∈ u.derived, s ∈ u'.derived) :
    v'.Follows u' where
  derived s hs := hgrown s (h.derived s (hderived ▸ hs))
  opened hnot := by
    rw [hcut] at hnot
    cases hnot

theorem Follows.fan (h : v.Follows u) :
    (v.fan cfg scope a channelID).Follows (u.fan cfg scope a channelID) := by
  cases hv : v.cut with
  | true =>
    obtain ⟨hcut, hderived⟩ := @foldl_judge_of_cut cfg scope a channelID v
      (v.opened.values.filter fun s => s.key.scope = scope) hv
    exact h.of_cut hcut hderived (derived_foldl_judge _)
  | false =>
    unfold View.fan
    rw [(h.opened hv).1]
    exact h.foldl_judge _

theorem derived_turn : (v.turn cfg scope a).derived = v.derived := by
  unfold turn
  dsimp only
  split
  · rfl
  · rfl

theorem turn_of_cut (h : v.cut = true) : (v.turn cfg scope a).cut = true := by
  unfold turn
  dsimp only
  split
  · rfl
  · exact h

theorem Follows.turn (h : v.Follows u) : (v.turn cfg scope a).Follows (u.turn cfg scope a) := by
  cases hv : v.cut with
  | true =>
    refine h.of_cut (turn_of_cut hv) derived_turn ?_
    rw [derived_turn]
    exact fun s hs => hs
  | false =>
    obtain ⟨hopened, hu⟩ := h.opened hv
    constructor
    · rw [derived_turn, derived_turn]
      exact h.derived
    · intro hnot
      have hgrown : v.grown cfg scope a = u.grown cfg scope a := by
        unfold grown
        rw [hopened]
      unfold View.turn at hnot ⊢
      dsimp only at hnot ⊢
      rw [hgrown, hopened] at hnot ⊢
      split_ifs at hnot with hcap
      rw [if_neg hcap, if_neg hcap]
      exact ⟨rfl, hu⟩

theorem Follows.row {w : String × String} (h : v.Follows u) :
    (v.row cfg a w).Follows (u.row cfg a w) := by
  unfold View.row
  split
  · exact h
  · dsimp only
    split
    · exact h.fan.turn
    · exact h.fan

theorem derived_row (w : String × String) : ∀ s ∈ v.derived, s ∈ (v.row cfg a w).derived := by
  intro s hs
  unfold row
  split
  · exact hs
  · dsimp only
    split
    · rw [derived_turn]
      exact derived_foldl_judge _ s hs
    · exact derived_foldl_judge _ s hs

/-- A fan that makes no record stale leaves the window as it is. -/
theorem fan_eq_self (h : ∀ s ∈ v.opened.values, s.key.scope = scope →
    splits cfg scope a s = false ∧ rotates (scopeWireAnchor scope a.event) s = false) :
    v.fan cfg scope a channelID = v := by
  have hall : ∀ s ∈ v.opened.values.filter fun s => s.key.scope = scope,
      v.judge cfg scope a channelID s = v := by
    intro s hs
    obtain ⟨hmem, hscope⟩ := List.mem_filter.mp hs
    obtain ⟨hsplit, hrotate⟩ := h s hmem (of_decide_eq_true hscope)
    unfold judge
    rw [hsplit, hrotate]
    rfl
  unfold fan
  generalize v.opened.values.filter (fun s => s.key.scope = scope) = l at hall ⊢
  induction l with
  | nil => rfl
  | cons s l ih =>
    rw [List.foldl_cons, hall s List.mem_cons_self]
    exact ih fun x hx => hall x (List.mem_cons_of_mem _ hx)

/-- A row of another scope leaves the window as it is. -/
theorem row_eq_self {w : String × String} (hw : w ≠ rowWindow a)
    (h : ∀ s ∈ v.opened.values, scopeForMultiTurnEvent cfg a.event ≠ some s.key.scope) :
    v.row cfg a w = v := by
  unfold row
  split
  · rfl
  · next scope hscope =>
      dsimp only
      rw [if_neg hw]
      refine fan_eq_self fun s hs hsame => absurd ?_ (h s hs)
      rw [hscope, hsame]

end View

/-! ### A row in the tracker -/

/-- No two channels have rows in one scope. -/
def History.SeparateScopes (cfg : Config) (h : History) : Prop :=
  ∀ w ∈ h.windows, ∀ a ∈ w.rows, ∀ x ∈ h.windows, ∀ b ∈ x.rows, ∀ scope,
    scopeForMultiTurnEvent cfg a.event = some scope →
      scopeForMultiTurnEvent cfg b.event = some scope → w.channelID = x.channelID

/-- The record names the channel of a row of its scope. -/
def Owner (cfg : Config) (h : History) (r : Interaction) : Prop :=
  ∃ w ∈ h.windows, r.sourceChannelID = some w.channelID ∧
    ∃ b ∈ w.rows, scopeForMultiTurnEvent cfg b.event = some r.scope

def Owned (cfg : Config) (h : History) (t : Tracker) : Prop :=
  ∀ r ∈ t.opened.values, r.replayed = true → Owner cfg h r

theorem Owned.of_subset {cfg : Config} {h : History} {t u : Tracker} (howned : Owned cfg h t)
    (hsub : ∀ r ∈ u.opened.values, r ∈ t.opened.values) : Owned cfg h u :=
  fun r hr => howned r (hsub r hr)

theorem opened_sub_closeStaleRecords {cfg : Config} {scope : String} {a : Arrival} (t : Tracker) :
    ∀ r ∈ (closeStaleRecords cfg scope a t).opened.values, r ∈ t.opened.values :=
  closes_closeStaleRecords.opened

theorem opened_sub_closeScope (t : Tracker) (scope : String) (reason : CloseReason)
    (admits : Interaction → Bool) :
    ∀ r ∈ (t.closeScope scope reason admits).opened.values, r ∈ t.opened.values :=
  (closes_closeScope t scope reason admits).opened

theorem nextID_foldl_closeRecord (l : List Interaction) (t : Tracker) (reason : CloseReason) :
    (l.foldl (fun t r => (t.closeRecord r reason none).2) t).nextID = t.nextID := by
  induction l generalizing t with
  | nil => rfl
  | cons r l ih => exact (ih _).trans (nextID_closeRecord t r reason none)

/-- The end of a session closes live records alone. -/
theorem view_closeScope {t : Tracker} (w : String × String) (scope : String) (reason : CloseReason)
    (admits : Interaction → Bool) : view w (t.closeScope scope reason admits) = view w t := by
  have hmem : ∀ r ∈ t.admittedRecords scope admits, r ∈ t.opened.values ∧ r.inWindow w = false := by
    intro r hr
    obtain ⟨hopen, hadmits⟩ := List.mem_filter.mp hr
    simp only [Bool.and_eq_true, Bool.not_eq_true'] at hadmits
    refine ⟨hopen, ?_⟩
    unfold Interaction.inWindow
    rw [hadmits.1.2]
    rfl
  have hkeys : ((t.admittedRecords scope admits).map Interaction.key).Nodup :=
    t.opened.distinct.sublist (List.filter_sublist.map Interaction.key)
  unfold Tracker.closeScope
  generalize t.admittedRecords scope admits = l at hmem hkeys
  induction l generalizing t with
  | nil => rfl
  | cons r l ih =>
    rw [List.map_cons, List.nodup_cons] at hkeys
    obtain ⟨hr, hout⟩ := hmem r List.mem_cons_self
    have hrest : ∀ s ∈ l, s ∈ (t.closeRecord r reason none).2.opened.values ∧
        s.inWindow w = false := by
      intro s hs
      obtain ⟨hopen, hw⟩ := hmem s (List.mem_cons_of_mem _ hs)
      refine ⟨(opened_closeRecord hr reason none).mpr ⟨hopen, fun hkey => hkeys.1 ?_⟩, hw⟩
      rw [← hkey]
      exact List.mem_map_of_mem hs
    rw [List.foldl_cons, ih hrest hkeys.2]
    exact view_closeRecord_other hr hout reason none

/-- The record that is filed is healthy, and the others are those of before. -/
theorem Filed.opened_cases {cfg : Config} {scope : String} {a : Arrival} {t u : Tracker}
    {r : Interaction} {turn : Turn} (h : Filed cfg scope a t u r turn) {s : Interaction}
    (hs : s ∈ u.opened.values) : s ∈ t.opened.values ∨
      s = (r.append turn).stamped (scopeWireAnchor scope a.event)
        a.event.metadata.previousInteractionID := by
  cases h with
  | capped cap opened closed cut =>
    rw [opened] at hs
    exact .inl (Keyed.mem_erase.mp hs).1
  | «open» cap opened closed cut =>
    rw [opened] at hs
    rcases Keyed.mem_put.mp hs with hnew | ⟨hold, -⟩
    · exact .inr hnew
    · exact .inl hold

theorem isOpen_stamped (wireID previousID : String) (r : Interaction) :
    (r.stamped wireID previousID).isOpen = r.isOpen ∧
      (r.stamped wireID previousID).replayWindowComplete = r.replayWindowComplete ∧
      (r.stamped wireID previousID).interactionID = r.interactionID ∧
      (r.stamped wireID previousID).replayed = r.replayed ∧
      (r.stamped wireID previousID).sourceChannelID = r.sourceChannelID ∧
      (r.stamped wireID previousID).messageIDs = r.messageIDs := by
  unfold Interaction.stamped
  split
  · exact ⟨rfl, rfl, rfl, rfl, rfl, rfl⟩
  · exact ⟨rfl, rfl, rfl, rfl, rfl, rfl⟩

theorem Healthy.filed {cfg : Config} {scope : String} {a : Arrival} {t u : Tracker}
    {r : Interaction} {turn : Turn} (h : Healthy t) (hbase : IsBase cfg scope a t r)
    (hfiled : Filed cfg scope a t u r turn) (hnext : t.nextID ≤ u.nextID)
    (hnumber : r.interactionID < u.nextID) : Healthy u := by
  obtain ⟨hopen, hincomplete⟩ := hbase.isOpen h
  obtain ⟨hopen', hincomplete', hnumber', -⟩ := isOpen_stamped (scopeWireAnchor scope a.event)
    a.event.metadata.previousInteractionID (r.append turn)
  constructor
  · intro s hs
    rcases hfiled.opened_cases hs with hold | rfl
    · exact h.isOpen s hold
    · exact hopen'.trans hopen
  · intro s hs
    rcases hfiled.opened_cases hs with hold | rfl
    · exact h.incomplete s hold
    · exact hincomplete'.trans hincomplete
  · intro s hs
    rcases hfiled.opened_cases hs with hold | rfl
    · exact (h.numbered s hold).trans_le hnext
    · exact hnumber'.trans_lt hnumber

/-- What is noted of the messages of a pass is not seen. -/
theorem view_observe {t : Tracker} (w : String × String) (messageID : String) (replayed : Bool) :
    view w (t.observeWireMessage messageID replayed).2 = view w t := by
  unfold Tracker.observeWireMessage
  split_ifs
  · rfl
  · rfl
  · rfl
  · rfl

theorem opened_observe (t : Tracker) (messageID : String) (replayed : Bool) :
    (t.observeWireMessage messageID replayed).2.opened = t.opened ∧
      (t.observeWireMessage messageID replayed).2.closed = t.closed ∧
      (t.observeWireMessage messageID replayed).2.nextID = t.nextID := by
  unfold Tracker.observeWireMessage
  split_ifs
  · exact ⟨rfl, rfl, rfl⟩
  · exact ⟨rfl, rfl, rfl⟩
  · exact ⟨rfl, rfl, rfl⟩
  · exact ⟨rfl, rfl, rfl⟩

theorem Healthy.observe {t : Tracker} (h : Healthy t) (messageID : String) (replayed : Bool) :
    Healthy (t.observeWireMessage messageID replayed).2 := by
  obtain ⟨hopened, -, hnext⟩ := opened_observe t messageID replayed
  refine h.of_subset (fun r hr => ?_) hnext.ge
  rwa [hopened] at hr

section Row
variable {cfg : Config} {h : History} {x : Window} {a : Arrival} {t : Tracker} {scope : String}

/-- The turn of a row goes to a record of its window. -/
theorem base_inWindow (hsep : h.SeparateScopes cfg) (hx : x ∈ h.windows) (ha : a ∈ x.rows)
    (hscope : scopeForMultiTurnEvent cfg a.event = some scope) (hhealthy : Healthy t)
    (howned : Owned cfg h t) {r : Interaction}
    (hbase : IsBase cfg scope a (closeStaleRecords cfg scope a t) r) :
    r.inWindow (rowWindow a) = true ∧ r.sourceChannelID = some x.channelID ∧ r.scope = scope := by
  obtain ⟨hreplay, hchannel⟩ := h.replayed x hx a ha
  have hkey := hbase.key
  have hspeaker : r.speakerID = strip (a.event.senderID.getD "") :=
    congrArg RecordKey.speakerID hkey
  have hin : r.scope = scope := congrArg RecordKey.scope hkey
  have hboth : r.replayed = true ∧ r.sourceChannelID = some x.channelID := by
    rcases hbase with hget | ⟨-, hfresh⟩
    · have hr := (Keyed.get_eq_some.mp hget).1
      have hr' := opened_sub_closeStaleRecords t r hr
      have hreceives := receives_of_left (hhealthy.isOpen r hr') (hhealthy.incomplete r hr') hkey
        (staleCloseReason_of_left hr hin)
      have hreplayed : r.replayed = true := by
        have hmarker := congrArg Prod.fst hreceives.markers
        exact hmarker.symm.trans hreplay
      obtain ⟨y, hy, hsource, b, hb, hb'⟩ := howned r hr' hreplayed
      rw [hin] at hb'
      exact ⟨hreplayed, hsource.trans (congrArg some (hsep y hy b hb x hx a ha scope hb' hscope))⟩
    · refine ⟨hfresh.replayed.trans hreplay, ?_⟩
      rw [hfresh.source, hchannel]
      exact Option.filter_some_pos (decide_eq_true (h.named x hx))
  refine ⟨inWindow_iff.mpr ⟨hboth.1, ?_⟩, hboth.2, hin⟩
  unfold rowWindow
  rw [hboth.2, hchannel, hspeaker]

/-- What holds of the tracker between two steps of a pass. -/
structure Steady (cfg : Config) (h : History) (t : Tracker) : Prop where
  healthy : Healthy t
  owned : Owned cfg h t

theorem Steady.of_subset {u : Tracker} (hsteady : Steady cfg h t)
    (hsub : ∀ r ∈ u.opened.values, r ∈ t.opened.values) (hnext : t.nextID ≤ u.nextID) :
    Steady cfg h u :=
  ⟨hsteady.healthy.of_subset hsub hnext, hsteady.owned.of_subset hsub⟩

theorem nextID_closeIfStale (r : Interaction) :
    (closeIfStale cfg scope a t r).nextID = t.nextID := by
  unfold closeIfStale
  split
  · rfl
  · exact nextID_closeRecord t r _ _

theorem nextID_closeStaleRecords : (closeStaleRecords cfg scope a t).nextID = t.nextID := by
  unfold closeStaleRecords
  generalize t.recordsForScope scope = l
  induction l generalizing t with
  | nil => rfl
  | cons r l ih => exact ih.trans (nextID_closeIfStale r)

theorem Steady.closeStaleRecords (hsteady : Steady cfg h t) :
    Steady cfg h (closeStaleRecords cfg scope a t) :=
  hsteady.of_subset (opened_sub_closeStaleRecords t) nextID_closeStaleRecords.ge

theorem Steady.observe (hsteady : Steady cfg h t) (messageID : String) (replayed : Bool) :
    Steady cfg h (t.observeWireMessage messageID replayed).2 := by
  obtain ⟨hopened, -, hnext⟩ := opened_observe t messageID replayed
  refine hsteady.of_subset (fun r hr => ?_) hnext.ge
  rwa [hopened] at hr

/-- A row is seen in each window as the row decides. -/
theorem view_row (hsep : h.SeparateScopes cfg) (hx : x ∈ h.windows) (ha : a ∈ x.rows)
    (hsteady : Steady cfg h t) :
    Steady cfg h (handleMultiTurnEvent cfg t a) ∧
      ∀ w, view w (handleMultiTurnEvent cfg t a) = (view w t).row cfg a w := by
  unfold handleMultiTurnEvent View.row
  cases hscope : scopeForMultiTurnEvent cfg a.event with
  | none => exact ⟨hsteady, fun w => rfl⟩
  | some scope =>
    dsimp only
    have hobserved := hsteady.observe (a.event.messageID.getD "") a.event.metadata.replayMode
    have hobserve := fun w => @view_observe t w (a.event.messageID.getD "")
      a.event.metadata.replayMode
    generalize t.observeWireMessage (a.event.messageID.getD "") a.event.metadata.replayMode =
      observed at hobserved hobserve
    obtain ⟨duplicate, u⟩ := observed
    dsimp only at hobserved hobserve ⊢
    have hfanned : Steady cfg h (closeStaleRecords cfg scope a u) := hobserved.closeStaleRecords
    have hfan : ∀ w, view w (closeStaleRecords cfg scope a u) =
        (view w t).fan cfg scope a w.1 := by
      intro w
      rw [view_closeStaleRecords w hobserved.healthy, hobserve]
    obtain ⟨r, hbase, hfiled, hnext, hnumber⟩ :=
      @filed cfg scope a (closeStaleRecords cfg scope a u) hfanned.healthy
        (buildTurnPayload a.event a.summary duplicate)
    obtain ⟨hin, hsource, hrscope⟩ := base_inWindow hsep hx ha hscope hobserved.healthy
      hobserved.owned hbase
    set landed := (closeStaleRecords cfg scope a u).addTurn cfg scope a
      (buildTurnPayload a.event a.summary duplicate) (frozenOpenCapture a.event) with hlanded
    set v := stampRecord (scopeWireAnchor scope a.event) a.event landed.1 landed.2 with hv
    have hturned : Steady cfg h v := by
      refine ⟨hfanned.healthy.filed hbase hfiled hnext hnumber, fun s hs hreplayed => ?_⟩
      rcases hfiled.opened_cases hs with hold | rfl
      · exact hfanned.owned s hold hreplayed
      · obtain ⟨-, -, -, -, hsource', -⟩ := isOpen_stamped (scopeWireAnchor scope a.event)
          a.event.metadata.previousInteractionID
          (r.append ⟨buildTurnPayload a.event a.summary duplicate, a⟩)
        refine ⟨x, hx, hsource'.trans hsource, a, ha, ?_⟩
        have hkept := congrArg RecordKey.scope (key_stamped (scopeWireAnchor scope a.event)
          a.event.metadata.previousInteractionID
          (r.append ⟨buildTurnPayload a.event a.summary duplicate, a⟩))
        rw [hscope]
        exact congrArg some (hrscope.symm.trans hkept.symm)
    have hturn : ∀ w, view w v =
        if w = rowWindow a then ((view w t).fan cfg scope a w.1).turn cfg scope a
        else (view w t).fan cfg scope a w.1 := by
      intro w
      by_cases hw : w = rowWindow a
      · rw [if_pos hw, ← hfan w]
        exact view_filed hfanned.healthy hbase hfiled (hw ▸ hin) rfl
      · rw [if_neg hw, ← hfan w]
        refine view_filed_other hbase hfiled (Bool.not_eq_true _ ▸ fun hin' => hw ?_)
        exact (inWindow_iff.mp hin').2.symm.trans (inWindow_iff.mp hin).2
    split
    · refine ⟨hturned.of_subset (opened_sub_closeScope _ _ _ _)
        (nextID_foldl_closeRecord _ _ _).ge, fun w => ?_⟩
      rw [view_closeScope, hturn]
    · exact ⟨hturned, hturn⟩

end Row

end Persatrix.Interactions
