import Persatrix.WindowViews
import Persatrix.EpisodeRoutingRuns

/-!
# The turn of a row in its window
-/
namespace Persatrix.Interactions

/-- A record that is opened for the arrival. -/
structure FreshFor (cfg : Config) (scope : String) (a : Arrival) (t : Tracker) (r : Interaction) :
    Prop where
  isOpen : r.isOpen = true
  incomplete : r.replayWindowComplete = false
  number : r.interactionID = t.nextID
  replayed : r.replayed = (replayMarkers a.event).1
  source : r.sourceChannelID = present a.event.channelID
  span : r.span = ⟨targetKey cfg scope a, "", "", (replayMarkers a.event).2, []⟩

/-- The record that the turn of the arrival goes to. -/
def IsBase (cfg : Config) (scope : String) (a : Arrival) (t : Tracker) (r : Interaction) : Prop :=
  t.opened.get (targetKey cfg scope a) = some r ∨
    t.opened.get (targetKey cfg scope a) = none ∧ FreshFor cfg scope a t r

theorem recordFor_base {cfg : Config} {scope : String} {a : Arrival} {t : Tracker}
    (h : Healthy t) :
    let found := t.recordFor cfg scope a (frozenOpenCapture a.event)
    IsBase cfg scope a t found.1 ∧ (∀ r, found.2.opened.put r = t.opened.put r ∨
        r.key ≠ targetKey cfg scope a) ∧
      found.2.closed = t.closed ∧ t.nextID ≤ found.2.nextID ∧
      found.1.interactionID < found.2.nextID ∧
      ∀ w : String × String, found.2.replayRecordCompromised w.1 w.2 =
        t.replayRecordCompromised w.1 w.2 := by
  have hcapture : resolveRecordKey cfg.envPrincipal a.principal scope none
      (frozenOpenCapture a.event).speakerID = targetKey cfg scope a := rfl
  have hkey := resolveRecordKey_resolve cfg.envPrincipal a.principal scope a.event.senderID
  unfold Tracker.recordFor IsBase
  rw [hcapture]
  dsimp only
  cases hget : t.opened.get (targetKey cfg scope a) with
  | some r =>
    have hr := (Keyed.get_eq_some.mp hget).1
    rw [Option.filter_some, if_pos (h.isOpen r hr)]
    exact ⟨.inl rfl, fun _ => .inl rfl, rfl, le_rfl, h.numbered r hr, fun _ => rfl⟩
  | none =>
    dsimp only [Option.filter_none]
    unfold Tracker.start
    dsimp only [targetKey] at hkey hget ⊢
    rw [hkey, hget]
    dsimp only [Option.filter_none]
    refine ⟨.inr ⟨rfl, rfl, rfl, rfl, rfl, rfl, rfl⟩, fun r => ?_, rfl, Nat.le_succ _,
      Nat.lt_succ_self _, fun _ => rfl⟩
    by_cases hr : r.key = targetKey cfg scope a
    · exact .inl (Keyed.put_put hr.symm)
    · exact .inr hr

/-- The record with the stamp of the event, if it has none. -/
def Interaction.stamped (wireID previousID : String) (r : Interaction) : Interaction :=
  if wireID ≠ "" ∧ r.wireInteractionID = "" then r.stamp wireID previousID else r

/-- What the turn of an arrival does: its record is closed at the cap, or left open. -/
inductive Filed (cfg : Config) (scope : String) (a : Arrival) (t u : Tracker) (r : Interaction)
    (turn : Turn) : Prop
  | capped (cap : cfg.maxTurns.any (fun n => n ≤ ((r.append turn).turns.length : ℤ)) = true)
      (opened : u.opened = t.opened.erase (targetKey cfg scope a))
      (closed : u.closed = t.closed ++ [(r.append turn).close .maxTurns none])
      (cut : ∀ w : String × String, u.replayRecordCompromised w.1 w.2 =
        (t.replayRecordCompromised w.1 w.2 ||
          r.replayed && w == (r.sourceChannelID.getD "", r.speakerID)))
  | open (cap : cfg.maxTurns.any (fun n => n ≤ ((r.append turn).turns.length : ℤ)) = false)
      (opened : u.opened = t.opened.put ((r.append turn).stamped (scopeWireAnchor scope a.event)
        a.event.metadata.previousInteractionID))
      (closed : u.closed = t.closed)
      (cut : ∀ w : String × String, u.replayRecordCompromised w.1 w.2 =
        t.replayRecordCompromised w.1 w.2)

theorem IsBase.key {cfg : Config} {scope : String} {a : Arrival} {t : Tracker} {r : Interaction}
    (h : IsBase cfg scope a t r) : r.key = targetKey cfg scope a := by
  rcases h with hget | ⟨-, hfresh⟩
  · exact (Keyed.get_eq_some.mp hget).2
  · exact congrArg Span.key hfresh.span

theorem IsBase.isOpen {cfg : Config} {scope : String} {a : Arrival} {t : Tracker}
    {r : Interaction} (hbase : IsBase cfg scope a t r) (h : Healthy t) :
    r.isOpen = true ∧ r.replayWindowComplete = false := by
  rcases hbase with hget | ⟨-, hfresh⟩
  · have hr := (Keyed.get_eq_some.mp hget).1
    exact ⟨h.isOpen r hr, h.incomplete r hr⟩
  · exact ⟨hfresh.isOpen, hfresh.incomplete⟩

theorem filed {cfg : Config} {scope : String} {a : Arrival} {t : Tracker} (h : Healthy t)
    (payload : Payload) :
    let landed := t.addTurn cfg scope a payload (frozenOpenCapture a.event)
    let u := stampRecord (scopeWireAnchor scope a.event) a.event landed.1 landed.2
    ∃ r, IsBase cfg scope a t r ∧ Filed cfg scope a t u r ⟨payload, a⟩ ∧ t.nextID ≤ u.nextID ∧
      r.interactionID < u.nextID := by
  obtain ⟨hbase, hput, hclosed, hnext, hnumber, hcut⟩ := @recordFor_base cfg scope a t h
  unfold Tracker.addTurn
  dsimp only
  generalize t.recordFor cfg scope a (frozenOpenCapture a.event) = found at *
  obtain ⟨r, v⟩ := found
  dsimp only at *
  obtain ⟨hopen, hincomplete⟩ := hbase.isOpen h
  have hkey : (r.append ⟨payload, a⟩).key = targetKey cfg scope a := hbase.key
  have hsame : v.opened.put (r.append ⟨payload, a⟩) = t.opened.put (r.append ⟨payload, a⟩) :=
    (hput _).resolve_right (not_not.mpr hkey)
  refine ⟨r, hbase, ?_⟩
  rw [hsame]
  split
  · next hcap =>
      set w : Tracker := { v with opened := t.opened.put (r.append ⟨payload, a⟩) } with hw
      have hmem : r.append ⟨payload, a⟩ ∈ w.opened.values := Keyed.mem_put.mpr (.inl rfl)
      have honly : ∀ s ∈ w.opened.values, s.key = (r.append ⟨payload, a⟩).key →
          s = r.append ⟨payload, a⟩ := fun s hs hs' => Keyed.eq_of_key hs hmem hs'
      rcases closeRecord_eq w (r.append ⟨payload, a⟩) .maxTurns none honly with
        ⟨hnot, -⟩ | ⟨-, hone, hopened, hdone⟩
      · exact absurd hmem hnot
      · have hnext' := nextID_closeRecord w (r.append ⟨payload, a⟩) .maxTurns none
        have hcut' : ∀ x : String × String,
            (w.closeRecord (r.append ⟨payload, a⟩) .maxTurns none).2.replayRecordCompromised
              x.1 x.2 = (t.replayRecordCompromised x.1 x.2 ||
                r.replayed && x == (r.sourceChannelID.getD "", r.speakerID)) := by
          intro x
          have hcomplete : ((r.append ⟨payload, a⟩).close .maxTurns none).replayWindowComplete =
              false := hincomplete
          have hreplayed : ((r.append ⟨payload, a⟩).close .maxTurns none).replayed = r.replayed :=
            rfl
          rw [closeRecord_of_mem hmem]
          dsimp only
          rw [hcomplete, hreplayed, ← hcut x]
          cases r.replayed with
          | true =>
            rw [Bool.not_false, Bool.and_true, if_pos rfl, compromised_note, Bool.true_and]
            rfl
          | false =>
            rw [Bool.false_and, if_neg Bool.false_ne_true, Bool.false_and, Bool.or_false]
            rfl
        unfold stampRecord
        rw [hone, Option.getD_some, if_neg (by rintro ⟨-, hdead, -⟩; cases hdead)]
        refine ⟨.capped hcap ?_ ?_ hcut', ?_, ?_⟩
        · rw [hopened, hkey]
          exact Keyed.erase_put hkey
        · rw [hdone]
          exact congrArg (· ++ _) hclosed
        · rw [hnext']
          exact hnext
        · rw [hnext']
          exact hnumber
  · next hcap =>
      have hcap' := Bool.not_eq_true _ ▸ hcap
      unfold stampRecord
      split
      · next hstamp =>
          refine ⟨.open hcap' ?_ hclosed hcut, hnext, hnumber⟩
          unfold Interaction.stamped
          rw [if_pos ⟨hstamp.1, hstamp.2.2⟩]
          exact Keyed.put_put rfl
      · next hstamp =>
          refine ⟨.open hcap' ?_ hclosed hcut, hnext, hnumber⟩
          unfold Interaction.stamped
          rw [if_neg fun hboth => hstamp ⟨hboth.1, hopen, hboth.2⟩]

def Span.stamped (wireID previousID : String) (s : Span) : Span :=
  if wireID ≠ "" ∧ s.wireInteractionID = "" then
    { s with wireInteractionID := wireID, predecessorWireID := previousID }
  else s

/-- The span that the turn of the arrival goes to, with the turn. -/
def View.grown (cfg : Config) (scope : String) (a : Arrival) (v : View) : Span :=
  let base := (v.opened.get (targetKey cfg scope a)).getD
    ⟨targetKey cfg scope a, "", "", (replayMarkers a.event).2, []⟩
  { base with messageIDs := base.messageIDs ++ [present a.event.messageID] }

/-- The turn of a row in its window. -/
def View.turn (cfg : Config) (scope : String) (a : Arrival) (v : View) : View :=
  let s := v.grown cfg scope a
  if cfg.maxTurns.any fun n => n ≤ (s.messageIDs.length : ℤ) then
    { v with opened := v.opened.erase (targetKey cfg scope a), cut := true }
  else
    { v with
      opened := v.opened.put (s.stamped (scopeWireAnchor scope a.event)
        a.event.metadata.previousInteractionID) }

theorem span_stamped (wireID previousID : String) (r : Interaction) :
    (r.stamped wireID previousID).span = r.span.stamped wireID previousID := by
  have hwire : r.span.wireInteractionID = r.wireInteractionID := rfl
  unfold Interaction.stamped Span.stamped
  rw [hwire]
  by_cases h : wireID ≠ "" ∧ r.wireInteractionID = ""
  · rw [if_pos h, if_pos h]
    rfl
  · rw [if_neg h, if_neg h]

theorem inWindow_stamped (w : String × String) (wireID previousID : String) (r : Interaction) :
    (r.stamped wireID previousID).inWindow w = r.inWindow w := by
  unfold Interaction.stamped
  split
  · rfl
  · rfl

/-- The key and the marks of a record do not change with a turn. -/
theorem key_stamped (wireID previousID : String) (r : Interaction) :
    (r.stamped wireID previousID).key = r.key := by
  unfold Interaction.stamped
  split
  · rfl
  · rfl

theorem view_filed {cfg : Config} {scope : String} {a : Arrival} {t u : Tracker} {w : String × String}
    {r : Interaction} {turn : Turn} (h : Healthy t) (hbase : IsBase cfg scope a t r)
    (hfiled : Filed cfg scope a t u r turn) (hw : r.inWindow w = true)
    (hmessage : turn.payload.messageID = present a.event.messageID) :
    view w u = (view w t).turn cfg scope a := by
  have hget : (view w t).opened.get (targetKey cfg scope a) =
      if t.opened.get (targetKey cfg scope a) = none then none else some r.span := by
    rcases hbase with hget | ⟨hnone, -⟩
    · rw [hget, if_neg (Option.some_ne_none r)]
      exact @Keyed.get_select _ _ _ _ _ _ _ _ _ _ _ key_span hget hw
    · rw [hnone, if_pos rfl]
      refine @Keyed.get_select_none _ _ _ _ _ _ _ _ _ _ key_span fun b hb => ?_
      rw [hnone] at hb
      cases hb
  have hgrown : (view w t).grown cfg scope a = (r.append turn).span := by
    have hspan : (r.append turn).span =
        { r.span with messageIDs := r.span.messageIDs ++ [present a.event.messageID] } := by
      unfold Interaction.span Interaction.messageIDs Interaction.append
      dsimp only
      rw [List.map_append, List.map_singleton, hmessage]
      rfl
    unfold View.grown
    rw [hget, hspan]
    rcases hbase with hget' | ⟨hnone, hfresh⟩
    · rw [hget', if_neg (Option.some_ne_none r)]
      rfl
    · rw [hnone, if_pos rfl, hfresh.span]
      rfl
  have hlength : ((view w t).grown cfg scope a).messageIDs.length = (r.append turn).turns.length := by
    rw [hgrown]
    exact List.length_map _
  have hincomplete := (hbase.isOpen h).2
  unfold View.turn
  dsimp only
  rw [hlength]
  cases hfiled with
  | capped cap opened closed cut =>
    have hlost : ((r.append turn).close .maxTurns none).replayWindowComplete = false := hincomplete
    have hclosed := derivedSpans_append w t.closed ((r.append turn).close .maxTurns none)
    rw [hlost, Bool.and_false, if_neg Bool.false_ne_true, List.append_nil] at hclosed
    obtain ⟨hreplayed, rfl⟩ := inWindow_iff.mp hw
    have hopened : openSpans (r.sourceChannelID.getD "", r.speakerID)
        (t.opened.erase (targetKey cfg scope a)) =
          (openSpans (r.sourceChannelID.getD "", r.speakerID) t.opened).erase
            (targetKey cfg scope a) := Keyed.select_erase
    rw [if_pos cap]
    unfold view
    rw [opened, closed, cut, hclosed, hopened, hreplayed, beq_self_eq_true, Bool.true_and,
      Bool.or_true]
  | «open» cap opened closed cut =>
    have hin : ((r.append turn).stamped (scopeWireAnchor scope a.event)
        a.event.metadata.previousInteractionID).inWindow w = true := by
      rw [inWindow_stamped]
      exact hw
    rw [if_neg (by rw [cap]; exact Bool.false_ne_true), hgrown, ← span_stamped]
    unfold view
    rw [opened, closed, cut]
    refine congrArg (View.mk · _ _) (@Keyed.select_put _ _ _ _ _ _ _ _ _ _ key_span hin ?_)
    intro b hb
    rw [key_stamped] at hb
    rcases hbase with hget' | ⟨hnone, hfresh⟩
    · have hkey : (r.append turn).key = targetKey cfg scope a := (Keyed.get_eq_some.mp hget').2
      rw [hkey, hget'] at hb
      cases hb
      exact hw
    · have hkey : (r.append turn).key = targetKey cfg scope a := congrArg Span.key hfresh.span
      rw [hkey, hnone] at hb
      cases hb

/-- The turn is not seen in another window. -/
theorem view_filed_other {cfg : Config} {scope : String} {a : Arrival} {t u : Tracker}
    {w : String × String} {r : Interaction} {turn : Turn} (hbase : IsBase cfg scope a t r)
    (hfiled : Filed cfg scope a t u r turn) (hw : r.inWindow w = false) : view w u = view w t := by
  have hkey : (r.append turn).key = targetKey cfg scope a := hbase.key
  have hgone : ∀ b, t.opened.get (targetKey cfg scope a) = some b → b.inWindow w = false := by
    intro b hb
    rcases hbase with hget | ⟨hnone, -⟩
    · rw [hget] at hb
      cases hb
      exact hw
    · rw [hnone] at hb
      cases hb
  cases hfiled with
  | capped cap opened closed cut =>
    have hseen : ((r.append turn).close .maxTurns none).inWindow w = false := hw
    have hclosed := derivedSpans_append w t.closed ((r.append turn).close .maxTurns none)
    rw [hseen, Bool.false_and, if_neg Bool.false_ne_true, List.append_nil] at hclosed
    have hopened : openSpans w (t.opened.erase (targetKey cfg scope a)) = openSpans w t.opened := by
      unfold openSpans
      rw [Keyed.select_erase]
      exact Keyed.erase_of_get_none (Keyed.get_select_none hgone)
    have hcut : (r.replayed && w == (r.sourceChannelID.getD "", r.speakerID)) = false := by
      refine Bool.not_eq_true _ ▸ fun hboth => ?_
      obtain ⟨hreplayed, heq⟩ := Bool.and_eq_true_iff.mp hboth
      have hin : r.inWindow w = true := inWindow_iff.mpr ⟨hreplayed, (eq_of_beq heq).symm⟩
      rw [hw] at hin
      cases hin
    unfold view
    rw [opened, closed, cut, hclosed, hopened, hcut, Bool.or_false]
  | «open» cap opened closed cut =>
    have hin : ((r.append turn).stamped (scopeWireAnchor scope a.event)
        a.event.metadata.previousInteractionID).inWindow w = false := by
      rw [inWindow_stamped]
      exact hw
    unfold view
    rw [opened, closed, cut]
    refine congrArg (View.mk · _ _) (@Keyed.select_put_of_not _ _ _ _ _ _ _ _ _ _ key_span hin ?_)
    intro b hb
    rw [key_stamped, hkey] at hb
    exact hgone b hb

end Persatrix.Interactions
