import Persatrix.CatchUp
import Persatrix.InteractionCloses

/-!
# What the rows of a window do to its records

The replayed records of a channel and a speaker, and whether their window is cut, change with a row in
a way that depends on nothing else. Here they are seen apart from the rest of the tracker, and the close
of a record and the fan of an event are stated for what is seen.
-/
namespace Persatrix.Interactions

/-- What rows decide of a replayed record. -/
structure Span where
  key : RecordKey
  wireInteractionID : String
  predecessorWireID : String
  attributed : Bool
  messageIDs : List (Option String)
deriving DecidableEq

def Interaction.span (r : Interaction) : Span :=
  ⟨r.key, r.wireInteractionID, r.predecessorWireID, r.replayAttributed, r.messageIDs⟩

/-- The record was replayed, and belongs to the channel and the speaker. -/
def Interaction.inWindow (w : String × String) (r : Interaction) : Bool :=
  r.replayed && r.sourceChannelID.getD "" = w.1 && r.speakerID = w.2

/-- What is seen of the windows of a channel and a speaker. -/
structure View where
  opened : Keyed Span.key
  cut : Bool
  derived : List Span

theorem key_span (r : Interaction) : r.span.key = r.key := rfl

def openSpans (w : String × String) (d : Keyed Interaction.key) : Keyed Span.key :=
  d.select (Interaction.inWindow w) Interaction.span key_span

def derivedSpans (w : String × String) (closed : List Interaction) : List Span :=
  (closed.filter fun r => r.inWindow w && r.replayWindowComplete).map Interaction.span

def view (w : String × String) (t : Tracker) : View where
  opened := openSpans w t.opened
  cut := t.replayRecordCompromised w.1 w.2
  derived := derivedSpans w t.closed

/-- The records of a tracker between two closes. -/
structure Healthy (t : Tracker) : Prop where
  isOpen : ∀ r ∈ t.opened.values, r.isOpen = true
  incomplete : ∀ r ∈ t.opened.values, r.replayWindowComplete = false
  numbered : ∀ r ∈ t.opened.values, r.interactionID < t.nextID

namespace View

def close (v : View) (s : Span) (complete : Bool) : View where
  opened := v.opened.erase s.key
  cut := v.cut || !complete
  derived := v.derived ++ if complete then [s] else []

/-- The wire id rotates the record away. -/
def rotates (wireID : String) (s : Span) : Bool :=
  wireID ≠ "" && s.wireInteractionID ≠ "" && s.wireInteractionID ≠ wireID &&
    s.predecessorWireID ≠ wireID

/-- The record is split off under the key of the arrival. -/
def splits (cfg : Config) (scope : String) (a : Arrival) (s : Span) : Bool :=
  s.key = targetKey cfg scope a && (true, s.attributed) ≠ replayMarkers a.event

/-- One record of the fan. -/
def judge (cfg : Config) (scope : String) (a : Arrival) (channelID : String) (v : View) (s : Span) :
    View :=
  if splits cfg scope a s then v.close s false
  else if rotates (scopeWireAnchor scope a.event) s then
    v.close s ((replayMarkers a.event).1 && channelID ≠ "" && !v.cut)
  else v

def fan (cfg : Config) (scope : String) (a : Arrival) (channelID : String) (v : View) : View :=
  (v.opened.values.filter fun s => s.key.scope = scope).foldl (judge cfg scope a channelID) v

end View

/-! ### The close of a record -/

/-- The close of a record that is open. -/
theorem closeRecord_of_mem {t : Tracker} {r : Interaction} (hr : r ∈ t.opened.values)
    (reason : CloseReason) (c : Option Bool) :
    (t.closeRecord r reason c).2 =
      let done := r.close reason c
      let u := { t with opened := t.opened.erase r.key, closed := t.closed ++ [done] }
      if done.replayed && !done.replayWindowComplete then
        u.noteReplayedClose (r.sourceChannelID.getD "") r.speakerID
      else u := by
  unfold Tracker.closeRecord
  rw [Keyed.get_key hr]
  dsimp only
  rw [if_neg (not_not.mpr rfl)]
  rfl

theorem compromised_note {t : Tracker} {w : String × String} (channelID speakerID : String) :
    (t.noteReplayedClose channelID speakerID).replayRecordCompromised w.1 w.2 =
      (t.replayRecordCompromised w.1 w.2 || w == (channelID, speakerID)) := by
  unfold Tracker.replayRecordCompromised Tracker.noteReplayedClose
  dsimp only
  rw [List.contains_cons, Bool.or_assoc, Bool.or_comm (_ == _) (List.contains _ _)]

theorem inWindow_iff {w : String × String} {r : Interaction} :
    r.inWindow w = true ↔ r.replayed = true ∧ (r.sourceChannelID.getD "", r.speakerID) = w := by
  unfold Interaction.inWindow
  rw [Bool.and_eq_true, Bool.and_eq_true, decide_eq_true_eq, decide_eq_true_eq, Prod.ext_iff,
    and_assoc]

theorem derivedSpans_append (w : String × String) (closed : List Interaction) (r : Interaction) :
    derivedSpans w (closed ++ [r]) =
      derivedSpans w closed ++ if r.inWindow w && r.replayWindowComplete then [r.span] else [] := by
  unfold derivedSpans
  rw [List.filter_append, List.map_append, List.filter_singleton]
  cases r.inWindow w && r.replayWindowComplete with
  | true => rfl
  | false => rfl

/-- A close is seen in the window of its record. -/
theorem view_closeRecord {t : Tracker} {w : String × String} {r : Interaction} (h : Healthy t)
    (hr : r ∈ t.opened.values) (hw : r.inWindow w = true) (reason : CloseReason)
    (c : Option Bool) :
    view w (t.closeRecord r reason c).2 = (view w t).close r.span (c.getD false) := by
  obtain ⟨hreplayed, rfl⟩ := inWindow_iff.mp hw
  have hcomplete : (r.close reason c).replayWindowComplete = c.getD false := by
    unfold Interaction.close
    dsimp only
    rw [h.incomplete r hr]
  have hseen : (r.close reason c).inWindow (r.sourceChannelID.getD "", r.speakerID) = true := hw
  have hdone : (r.close reason c).replayed = true := hreplayed
  have hopened : openSpans (r.sourceChannelID.getD "", r.speakerID) (t.opened.erase r.key) =
      (openSpans (r.sourceChannelID.getD "", r.speakerID) t.opened).erase r.key :=
    Keyed.select_erase
  have hclosed := derivedSpans_append (r.sourceChannelID.getD "", r.speakerID) t.closed
    (r.close reason c)
  rw [hseen, hcomplete, Bool.true_and] at hclosed
  rw [closeRecord_of_mem hr]
  dsimp only
  rw [hcomplete, hdone, Bool.true_and]
  cases hc : c.getD false with
  | true =>
    rw [hc] at hclosed
    change View.mk (openSpans _ (t.opened.erase r.key)) (t.replayRecordCompromised _ _)
      (derivedSpans _ (t.closed ++ [r.close reason c])) = _
    rw [hopened, hclosed]
    unfold View.close
    rw [Bool.not_true, Bool.or_false]
    rfl
  | false =>
    rw [hc] at hclosed
    have hnoted := @compromised_note t (r.sourceChannelID.getD "", r.speakerID)
      (r.sourceChannelID.getD "") r.speakerID
    rw [beq_self_eq_true] at hnoted
    change View.mk (openSpans _ (t.opened.erase r.key))
      ((t.noteReplayedClose _ _).replayRecordCompromised _ _)
      (derivedSpans _ (t.closed ++ [r.close reason c])) = _
    rw [hopened, hclosed, hnoted]
    rfl

/-- A close is not seen in another window. -/
theorem view_closeRecord_other {t : Tracker} {w : String × String} {r : Interaction}
    (hr : r ∈ t.opened.values) (hw : r.inWindow w = false) (reason : CloseReason)
    (c : Option Bool) : view w (t.closeRecord r reason c).2 = view w t := by
  have hseen : (r.close reason c).inWindow w = false := hw
  have hopened : openSpans w (t.opened.erase r.key) = openSpans w t.opened := by
    unfold openSpans
    rw [Keyed.select_erase]
    refine Keyed.erase_of_get_none (Keyed.get_select_none fun s hs => ?_)
    rw [Keyed.get_key hr] at hs
    cases hs
    exact hw
  have hclosed := derivedSpans_append w t.closed (r.close reason c)
  rw [hseen, Bool.false_and, if_neg Bool.false_ne_true, List.append_nil] at hclosed
  rw [closeRecord_of_mem hr]
  dsimp only
  split
  · next hnote =>
      have hother : (w == (r.sourceChannelID.getD "", r.speakerID)) = false := by
        refine beq_eq_false_iff_ne.mpr fun heq => ?_
        have hin : r.inWindow w = true :=
          inWindow_iff.mpr ⟨(Bool.and_eq_true_iff.mp hnote).1, heq.symm⟩
        rw [hw] at hin
        cases hin
      have hnoted := @compromised_note t w (r.sourceChannelID.getD "") r.speakerID
      rw [hother, Bool.or_false] at hnoted
      change View.mk (openSpans w (t.opened.erase r.key))
        ((t.noteReplayedClose _ _).replayRecordCompromised _ _)
        (derivedSpans w (t.closed ++ [r.close reason c])) = _
      rw [hopened, hclosed, hnoted]
      rfl
  · change View.mk (openSpans w (t.opened.erase r.key)) (t.replayRecordCompromised _ _)
      (derivedSpans w (t.closed ++ [r.close reason c])) = _
    rw [hopened, hclosed]
    rfl

/-! ### The fan of an event -/

theorem openSpans_mem {w : String × String} {t : Tracker} {s : Span} :
    s ∈ (view w t).opened.values ↔
      ∃ r ∈ t.opened.values, r.inWindow w = true ∧ r.span = s :=
  @Keyed.mem_select _ _ _ _ _ _ _ key_span _ _

/-- A close leaves the other records as they are. -/
theorem opened_closeRecord {t : Tracker} {r s : Interaction} (hr : r ∈ t.opened.values)
    (reason : CloseReason) (c : Option Bool) :
    s ∈ (t.closeRecord r reason c).2.opened.values ↔ s ∈ t.opened.values ∧ s.key ≠ r.key := by
  have hopened : (t.closeRecord r reason c).2.opened = t.opened.erase r.key := by
    rw [closeRecord_of_mem hr]
    dsimp only
    split
    · rfl
    · rfl
  rw [hopened, Keyed.mem_erase]

theorem nextID_closeRecord (t : Tracker) (r : Interaction) (reason : CloseReason)
    (c : Option Bool) : (t.closeRecord r reason c).2.nextID = t.nextID := by
  unfold Tracker.closeRecord
  split
  · rfl
  · dsimp only
    split
    · rfl
    · dsimp only
      split
      · rfl
      · rfl

theorem Healthy.of_subset {t u : Tracker} (h : Healthy t)
    (hsub : ∀ r ∈ u.opened.values, r ∈ t.opened.values) (hnext : t.nextID ≤ u.nextID) :
    Healthy u where
  isOpen r hr := h.isOpen r (hsub r hr)
  incomplete r hr := h.incomplete r (hsub r hr)
  numbered r hr := (h.numbered r (hsub r hr)).trans_le hnext

theorem opened_sub_closeRecord (t : Tracker) (r : Interaction) (reason : CloseReason)
    (c : Option Bool) : ∀ s ∈ (t.closeRecord r reason c).2.opened.values, s ∈ t.opened.values := by
  intro s hs
  unfold Tracker.closeRecord at hs
  split at hs
  · exact hs
  · dsimp only at hs
    split at hs
    · exact hs
    · dsimp only at hs
      split at hs
      · exact (Keyed.mem_erase.mp hs).1
      · exact (Keyed.mem_erase.mp hs).1

theorem Healthy.closeRecord {t : Tracker} (h : Healthy t) (r : Interaction) (reason : CloseReason)
    (c : Option Bool) : Healthy (t.closeRecord r reason c).2 :=
  h.of_subset (opened_sub_closeRecord t r reason c) (nextID_closeRecord t r reason c).ge

/-- Why the fan closes a replayed record, as far as its span tells. -/
theorem staleCloseReason_span {cfg : Config} {scope : String} {a : Arrival} {r : Interaction}
    (hopen : r.isOpen = true) (hreplayed : r.replayed = true) :
    staleCloseReason r a.event (scopeWireAnchor scope a.event) (r.key = targetKey cfg scope a) =
      if View.splits cfg scope a r.span then some .catchupComplete
      else if View.rotates (scopeWireAnchor scope a.event) r.span then
        some (wireRotationCloseReason r a.event.metadata)
      else none := by
  unfold staleCloseReason View.splits View.rotates wireRotationCloses
  rw [hopen, hreplayed]
  simp only [Bool.not_true, Bool.false_eq_true, if_false, Bool.true_and]
  rfl

theorem rotation_not_catchup (r : Interaction) (m : Metadata) :
    wireRotationCloseReason r m ≠ .catchupComplete := by
  unfold wireRotationCloseReason
  split
  · exact nofun
  · exact nofun

theorem view_closeIfStale {cfg : Config} {scope : String} {a : Arrival} {t : Tracker}
    {w : String × String} {r : Interaction} (h : Healthy t) (hr : r ∈ t.opened.values) :
    view w (closeIfStale cfg scope a t r) =
      if r.inWindow w then View.judge cfg scope a w.1 (view w t) r.span else view w t := by
  unfold closeIfStale
  by_cases hw : r.inWindow w = true
  · obtain ⟨hreplayed, rfl⟩ := inWindow_iff.mp hw
    rw [if_pos hw, staleCloseReason_span (h.isOpen r hr) hreplayed]
    unfold View.judge
    split_ifs with hsplit hrotate
    · dsimp only
      rw [view_closeRecord h hr hw]
      unfold segmentComplete
      simp only [ne_eq, not_true_eq_false, decide_false, Bool.and_false, Bool.false_and,
        Bool.false_eq_true, if_false, Option.getD_none]
    · dsimp only
      rw [view_closeRecord h hr hw]
      unfold segmentComplete
      rw [hreplayed, decide_eq_true (rotation_not_catchup r a.event.metadata), Bool.true_and,
        Bool.and_true]
      refine congrArg _ ?_
      change _ = ((replayMarkers a.event).1 && decide (r.sourceChannelID.getD "" ≠ "") &&
        !t.replayRecordCompromised (r.sourceChannelID.getD "") r.speakerID)
      cases (replayMarkers a.event).1 && decide (r.sourceChannelID.getD "" ≠ "") &&
        !t.replayRecordCompromised (r.sourceChannelID.getD "") r.speakerID with
      | true => rfl
      | false => rfl
    · rfl
  · rw [if_neg hw]
    split
    · rfl
    · exact view_closeRecord_other hr (Bool.not_eq_true _ ▸ hw) _ _

theorem closeIfStale_other {cfg : Config} {scope : String} {a : Arrival} {t : Tracker}
    {r s : Interaction} (hs : s ∈ t.opened.values) (hne : s.key ≠ r.key)
    (hr : r ∈ t.opened.values) : s ∈ (closeIfStale cfg scope a t r).opened.values := by
  unfold closeIfStale
  split
  · exact hs
  · exact (opened_closeRecord hr _ _).mpr ⟨hs, hne⟩

theorem Healthy.closeIfStale {cfg : Config} {scope : String} {a : Arrival} {t : Tracker}
    (h : Healthy t) (r : Interaction) : Healthy (closeIfStale cfg scope a t r) := by
  unfold Interactions.closeIfStale
  split
  · exact h
  · exact h.closeRecord r _ _

/-- The fan over records with keys of their own is seen in a window as the fan over its spans. -/
theorem view_foldl_closeIfStale {cfg : Config} {scope : String} {a : Arrival}
    (w : String × String) {l : List Interaction} {t : Tracker} (h : Healthy t)
    (hall : ∀ r ∈ l, r ∈ t.opened.values) (hkeys : (l.map Interaction.key).Nodup) :
    view w (l.foldl (closeIfStale cfg scope a) t) =
      ((l.filter (Interaction.inWindow w)).map Interaction.span).foldl
        (View.judge cfg scope a w.1) (view w t) := by
  induction l generalizing t with
  | nil => rfl
  | cons r l ih =>
    obtain ⟨hr, hl⟩ := List.forall_mem_cons.mp hall
    rw [List.map_cons, List.nodup_cons] at hkeys
    have hrest : ∀ s ∈ l, s ∈ (closeIfStale cfg scope a t r).opened.values := by
      intro s hs
      refine closeIfStale_other (hl s hs) (fun hkey => hkeys.1 ?_) hr
      rw [← hkey]
      exact List.mem_map_of_mem hs
    rw [List.foldl_cons, ih (h.closeIfStale r) hrest hkeys.2, view_closeIfStale h hr]
    by_cases hw : r.inWindow w = true
    · rw [if_pos hw, List.filter_cons_of_pos hw, List.map_cons, List.foldl_cons]
    · rw [if_neg hw, List.filter_cons_of_neg hw]

theorem view_closeStaleRecords {cfg : Config} {scope : String} {a : Arrival} {t : Tracker}
    (w : String × String) (h : Healthy t) :
    view w (closeStaleRecords cfg scope a t) = (view w t).fan cfg scope a w.1 := by
  have hspans : ((t.recordsForScope scope).filter (Interaction.inWindow w)).map Interaction.span =
      (view w t).opened.values.filter fun s => s.key.scope = scope := by
    change _ = ((t.opened.values.filter _).map Interaction.span).filter _
    unfold Tracker.recordsForScope
    rw [List.filter_map, List.filter_filter, List.filter_filter]
    refine congrArg _ (List.filter_congr fun r _ => ?_)
    exact Bool.and_comm _ _
  have hmem : ∀ r ∈ t.recordsForScope scope, r ∈ t.opened.values :=
    fun r hr => List.mem_of_mem_filter hr
  have hkeys : ((t.recordsForScope scope).map Interaction.key).Nodup :=
    t.opened.distinct.sublist (List.filter_sublist.map Interaction.key)
  unfold closeStaleRecords View.fan
  rw [view_foldl_closeIfStale w h hmem hkeys, hspans]

end Persatrix.Interactions
