import Persatrix.EpisodeRoutingRuns

/-!
# No record mixes sources

One event keeps what is known of every record: the fan closes what the event makes stale, the
turn joins a record that may take it, and the end of a session closes what is left.
-/
namespace Persatrix.Interactions
variable {cfg : Config} {ops : List Op} {scope : String} {a : Arrival} {t u : Tracker}
  {r s : Interaction}

/-- An open record of which everything is known. -/
structure Live (cfg : Config) (ops : List Op) (r : Interaction) : Prop where
  isOpen : r.isOpen
  incomplete : r.replayWindowComplete = false
  sound : Sound cfg ops r

theorem Live.later {op : Op} (h : Live cfg ops r) : Live cfg (ops ++ [op]) r :=
  ⟨h.isOpen, h.incomplete, h.sound.later⟩

structure Invariant (cfg : Config) (ops : List Op) (t : Tracker) : Prop where
  opened : ∀ r ∈ t.opened.values, Live cfg ops r
  closed : ∀ r ∈ t.closed, Sound cfg ops r ∧ Explained cfg ops r

/-- What the turn of an arrival does to a tracker in which no record is stale for it. -/
structure Landed (cfg : Config) (ops : List Op) (u v : Tracker) : Prop where
  opened : ∀ r ∈ v.opened.values, r ∈ u.opened.values ∨ Live cfg ops r
  kept : ∀ r ∈ u.closed, r ∈ v.closed
  closed : ∀ r ∈ v.closed, r ∈ u.closed ∨
    Sound cfg ops r ∧ r.closeReason = some .maxTurns ∧ r.replayWindowComplete = false

/-- The record of an arrival: it may take the turn, and everything is known of it. -/
theorem recordFor_receives (hlive : ∀ r ∈ u.opened.values, Live cfg ops r)
    (hleft : ∀ r ∈ u.opened.values, r.scope = scope →
      staleCloseReason r a.event (scopeWireAnchor scope a.event)
        (r.key = targetKey cfg scope a) = none) :
    let found := u.recordFor cfg scope a (frozenOpenCapture a.event)
    Receives cfg scope a found.1 ∧ Sound cfg ops found.1 := by
  obtain ⟨hfound, -, -⟩ := @recordFor_spec cfg scope a u
    fun r hr => (hlive r hr).isOpen
  rcases hfound with ⟨hmem, hkey⟩ | hfresh
  · have hr := hlive _ hmem
    exact ⟨receives_of_left hr.isOpen hr.incomplete hkey
      (hleft _ hmem (congrArg RecordKey.scope hkey)), hr.sound⟩
  · exact ⟨hfresh.receives, hfresh.sound⟩

theorem landed (payload : Payload) (hscope : scopeForMultiTurnEvent cfg a.event = some scope)
    (hlive : ∀ r ∈ u.opened.values, Live cfg ops r)
    (hleft : ∀ r ∈ u.opened.values, r.scope = scope →
      staleCloseReason r a.event (scopeWireAnchor scope a.event)
        (r.key = targetKey cfg scope a) = none) :
    let turned := u.addTurn cfg scope a payload (frozenOpenCapture a.event)
    Landed cfg (ops ++ [.event a]) u
      (stampRecord (scopeWireAnchor scope a.event) a.event turned.1 turned.2) := by
  obtain ⟨hr, hsound⟩ := recordFor_receives hlive hleft
  obtain ⟨-, hclosed, hothers⟩ := @recordFor_spec cfg scope a u
    fun r hr => (hlive r hr).isOpen
  unfold Tracker.addTurn
  dsimp only
  generalize u.recordFor cfg scope a (frozenOpenCapture a.event) = found at *
  obtain ⟨base, v⟩ := found
  dsimp only at *
  have hkey : (base.append ⟨payload, a⟩).key = targetKey cfg scope a := hr.key
  have hput : ∀ r ∈ (v.opened.put (base.append ⟨payload, a⟩)).values,
      r = base.append ⟨payload, a⟩ ∨ r ∈ u.opened.values := by
    intro r hr'
    rcases Keyed.mem_put.mp hr' with hnew | ⟨hold, hne⟩
    · exact .inl hnew
    · exact .inr ((hothers r (hkey ▸ hne)).mp hold)
  split
  · -- the turn reaches the cap
    have honly : ∀ s ∈ (v.opened.put (base.append ⟨payload, a⟩)).values,
        s.key = (base.append ⟨payload, a⟩).key → s = base.append ⟨payload, a⟩ := by
      intro s hs hs'
      rcases Keyed.mem_put.mp hs with hnew | ⟨-, hne⟩
      · exact hnew
      · exact absurd hs' hne
    rcases closeRecord_eq { v with opened := v.opened.put (base.append ⟨payload, a⟩) }
        (base.append ⟨payload, a⟩) .maxTurns none honly with
      ⟨hnot, -⟩ | ⟨-, hone, hopened', hclosed'⟩
    · exact absurd (Keyed.mem_put.mpr (.inl rfl)) hnot
    · rw [hone, Option.getD_some]
      unfold stampRecord
      rw [if_neg (by rintro ⟨-, hopen, -⟩; cases hopen)]
      constructor
      · intro s hs
        rw [hopened'] at hs
        obtain ⟨hs, hne⟩ := Keyed.mem_erase.mp hs
        rcases hput s hs with rfl | hold
        · exact absurd rfl hne
        · exact .inl hold
      · intro s hs
        rw [hclosed', ← hclosed] at *
        exact List.mem_append_left _ hs
      · intro s hs
        rw [hclosed'] at hs
        rcases List.mem_append.mp hs with hold | hnew
        · exact .inl (hclosed ▸ hold)
        · rw [List.mem_singleton.mp hnew]
          exact .inr ⟨sound_capped hr hsound rfl hscope, rfl, hr.incomplete⟩
  · unfold stampRecord
    split
    · next hstamp =>
        obtain ⟨hne, -, hblank⟩ := hstamp
        constructor
        · intro s hs
          rcases Keyed.mem_put.mp hs with rfl | ⟨hs, hkey'⟩
          · exact .inr ⟨hr.isOpen, hr.incomplete, sound_stamped hr hsound rfl hscope hblank hne _⟩
          · rcases hput s hs with rfl | hold
            · exact absurd rfl hkey'
            · exact .inl hold
        · intro s hs
          exact hclosed.symm ▸ hs
        · intro s hs
          exact .inl (hclosed ▸ hs)
    · next hstamp =>
        have hskip : base.wireInteractionID ≠ "" ∨ scopeWireAnchor scope a.event = "" := by
          by_contra hneither
          obtain ⟨hblank, hne⟩ := not_or.mp hneither
          exact hstamp ⟨hne, hr.isOpen, not_not.mp hblank⟩
        constructor
        · intro s hs
          rcases hput s hs with rfl | hold
          · exact .inr ⟨hr.isOpen, hr.incomplete, sound_unstamped hr hsound rfl hscope hskip⟩
          · exact .inl hold
        · intro s hs
          exact hclosed.symm ▸ hs
        · intro s hs
          exact .inl (hclosed ▸ hs)

theorem key_eq_of_catchup {wireID : String} {target : Bool}
    (h : staleCloseReason r a.event wireID target = some .catchupComplete) : target = true := by
  unfold staleCloseReason at h
  split at h
  · cases h
  · split at h
    · next htarget =>
        exact (Bool.and_eq_true_iff.mp htarget).1
    · split at h
      · unfold wireRotationCloseReason at h
        split at h <;> cases h
      · cases h

theorem rotates_of_staleCloseReason {wireID : String} {target : Bool} {reason : CloseReason}
    (h : staleCloseReason r a.event wireID target = some reason) (hne : reason ≠ .catchupComplete) :
    wireRotationCloses r wireID = true := by
  unfold staleCloseReason at h
  split at h
  · cases h
  · split at h
    · cases h
      exact absurd rfl hne
    · split at h
      · next hrotates => exact hrotates
      · cases h

/-- A record that the fan of the last event has closed. -/
theorem explained_of_staleClose (hscope : scopeForMultiTurnEvent cfg a.event = some scope)
    (hs : s ∈ (run cfg ops).opened.values) (hlive : Live cfg ops s)
    (hclosed : r ∈ (run cfg (ops ++ [.event a])).closed)
    (h : StaleClose cfg scope a (atArrival cfg ops a)
      ((atArrival cfg ops a).recordsForScope scope) s r) :
    Explained cfg (ops ++ [.event a]) r := by
  obtain ⟨before, after, reason, hsplit, hstale, rfl⟩ := h
  have hreopened := reopened_close hlive.isOpen hlive.incomplete reason
  have hmem : s ∈ (atArrival cfg ops a).recordsForScope scope := by
    rw [hsplit]
    exact List.mem_append_right _ (List.mem_cons_self ..)
  have hsscope : s.scope = scope := of_decide_eq_true (List.mem_filter.mp hmem).2
  subst hsscope
  have hat : ClosedAt cfg ops a (s.close reason _) :=
    ⟨(hreopened _).symm ▸ hs, hclosed, hscope⟩
  constructor
  · intro hreason
    obtain rfl : reason = .catchupComplete := Option.some.inj hreason
    exact ⟨ops, a, [], rfl, hat, (of_decide_eq_true (key_eq_of_catchup hstale)).symm⟩
  · intro hcomplete
    by_cases hsegment : segmentComplete
        (before.foldl (closeIfStale cfg s.scope a) (atArrival cfg ops a)) s a.event reason = true
    · have hparts := hsegment
      simp only [segmentComplete, Bool.and_eq_true, decide_eq_true_eq, Bool.not_eq_true'] at hparts
      obtain ⟨⟨⟨⟨hreplayed, hmarkers⟩, hreason⟩, -⟩, hwindow⟩ := hparts
      refine ⟨ops, a, [], rfl, hat, ⟨hreplayed, hmarkers⟩, ?_, before, after, ?_, hwindow⟩
      · rw [hreopened]
        exact rotates_of_staleCloseReason hstale hreason
      · rw [hreopened]
        exact hsplit
    · rw [if_neg hsegment] at hcomplete
      change s.replayWindowComplete = true at hcomplete
      rw [hlive.incomplete] at hcomplete
      cases hcomplete

theorem explained_of_other (hreason : r.closeReason ≠ some .catchupComplete)
    (hincomplete : r.replayWindowComplete = false) : Explained cfg ops r where
  catchup h := absurd h hreason
  complete h := by
    rw [hincomplete] at h
    cases h

theorem opened_atArrival : (atArrival cfg ops a).opened = (run cfg ops).opened ∧
    (atArrival cfg ops a).closed = (run cfg ops).closed := by
  unfold atArrival Tracker.observeWireMessage
  split
  · exact ⟨rfl, rfl⟩
  · split
    · dsimp only
      split <;> exact ⟨rfl, rfl⟩
    · exact ⟨rfl, rfl⟩

/-- The last phase: the records that the end of the session closes are sound, and neither caught
up nor complete. -/
theorem invariant_closeScope (admits : Interaction → Bool) (h : Invariant cfg ops t) :
    Invariant cfg ops (t.closeScope scope .structural admits) := by
  have hcloses := closes_closeScope t scope .structural admits
  constructor
  · intro r hr
    exact h.opened r (hcloses.opened r hr)
  · intro r hr
    rcases hcloses.closed r hr with hold | ⟨s, hs, rfl⟩
    · exact h.closed r hold
    · have hlive := h.opened s hs
      exact ⟨hlive.sound.close hlive.isOpen _ _,
        explained_of_other (by rintro ⟨⟩) hlive.incomplete⟩

theorem invariant_event (h : Invariant cfg ops (run cfg ops)) :
    Invariant cfg (ops ++ [.event a]) (run cfg (ops ++ [.event a])) := by
  have hlater : Invariant cfg (ops ++ [.event a]) (run cfg ops) :=
    ⟨fun r hr => (h.opened r hr).later,
      fun r hr => ⟨(h.closed r hr).1.later, (h.closed r hr).2.later⟩⟩
  cases hscope : scopeForMultiTurnEvent cfg a.event with
  | none =>
    have hsame : run cfg (ops ++ [.event a]) = run cfg ops := by
      rw [run_append]
      simp only [apply, handleMultiTurnEvent, hscope]
    rw [hsame]
    exact hlater
  | some scope =>
    obtain ⟨hopened, hclosed⟩ := @opened_atArrival cfg ops a
    have hstale := @closes_closeStaleRecords cfg scope a (atArrival cfg ops a)
    have hlive : ∀ r ∈ (closeStaleRecords cfg scope a (atArrival cfg ops a)).opened.values,
        Live cfg ops r := fun r hr => h.opened r (hopened ▸ hstale.opened r hr)
    have hlanded := landed (buildTurnPayload a.event a.summary
      ((run cfg ops).observeWireMessage (a.event.messageID.getD "")
        a.event.metadata.replayMode).1) hscope hlive fun r => staleCloseReason_of_left
    have hrun : run cfg (ops ++ [.event a]) = handleMultiTurnEvent cfg (run cfg ops) a :=
      run_append cfg ops (.event a)
    simp only [handleMultiTurnEvent, hscope] at hrun
    dsimp only [atArrival] at hlanded
    generalize hv : stampRecord _ _ _ _ = v at hlanded hrun
    have hkept : ∀ r ∈ v.closed, r ∈ (run cfg (ops ++ [.event a])).closed := by
      intro r hr
      rw [hrun]
      split
      · exact (closes_closeScope v scope .structural _).kept r hr
      · exact hr
    -- what is closed by the end of the event tells how it came to be closed
    have hexplained : ∀ r ∈ (closeStaleRecords cfg scope a (atArrival cfg ops a)).closed,
        r ∈ (run cfg (ops ++ [.event a])).closed →
          Sound cfg (ops ++ [.event a]) r ∧ Explained cfg (ops ++ [.event a]) r := by
      intro r hr hrun
      rcases hstale.closed r hr with hold | ⟨s, hs, hclose⟩
      · exact hlater.closed r (hclosed ▸ hold)
      · rw [hopened] at hs
        have hs' := h.opened s hs
        refine ⟨?_, explained_of_staleClose hscope hs hs' hrun hclose⟩
        obtain ⟨-, -, reason, -, -, rfl⟩ := hclose
        exact (hs'.sound.close hs'.isOpen _ _).later
    have hinvariant : Invariant cfg (ops ++ [.event a]) v := by
      constructor
      · intro r hr
        rcases hlanded.opened r hr with hold | hnew
        · exact (hlive r hold).later
        · exact hnew
      · intro r hr
        rcases hlanded.closed r hr with hold | ⟨hsound, hreason, hincomplete⟩
        · exact hexplained r hold (hkept r hr)
        · refine ⟨hsound, explained_of_other ?_ hincomplete⟩
          rw [hreason]
          rintro ⟨⟩
    rw [hrun]
    split
    · exact invariant_closeScope _ hinvariant
    · exact hinvariant

/-- The notes of a catch-up pass touch no record. -/
theorem records_noteReplayGap (t : Tracker) (channelID speakerID : String) :
    (t.noteReplayGap channelID speakerID).opened = t.opened ∧
      (t.noteReplayGap channelID speakerID).closed = t.closed := by
  unfold Tracker.noteReplayGap
  split <;> exact ⟨rfl, rfl⟩

theorem invariant_run (cfg : Config) (ops : List Op) : Invariant cfg ops (run cfg ops) := by
  induction ops using List.reverseRecOn with
  | nil =>
    constructor
    · intro r hr
      cases hr
    · intro r hr
      cases hr
  | append_singleton ops op ih =>
    have hlater : ∀ t : Tracker, t.opened = (run cfg ops).opened →
        t.closed = (run cfg ops).closed → Invariant cfg (ops ++ [op]) t := by
      intro t hopened hclosed
      constructor
      · intro r hr
        exact (ih.opened r (hopened ▸ hr)).later
      · intro r hr
        have hold := ih.closed r (hclosed ▸ hr)
        exact ⟨hold.1.later, hold.2.later⟩
    cases op with
    | event a => exact invariant_event ih
    | replayGap channelID speakerID =>
      rw [run_append]
      obtain ⟨hopened, hclosed⟩ := records_noteReplayGap (run cfg ops) channelID speakerID
      exact hlater _ hopened hclosed
    | endOfPass =>
      rw [run_append]
      exact hlater _ rfl rfl

def Tracker.records (t : Tracker) : List Interaction := t.opened.values ++ t.closed

/-- A record without a stamp carries an id only in its last turn, and then the cap has closed
it. -/
structure NeverMixed (cfg : Config) (ops : List Op) (r : Interaction) : Prop
    extends Explained cfg ops r where
  turns : ∀ turn ∈ r.turns, .event turn.origin ∈ ops ∧ Belongs cfg r turn
  stamped : isThreadScope r.scope = false → r.wireInteractionID ≠ "" → ∀ turn ∈ r.turns,
    wireInteractionID turn.origin.event ≠ "" →
      wireInteractionID turn.origin.event ≠ r.wireInteractionID →
        wireInteractionID turn.origin.event = r.predecessorWireID
  unstamped : isThreadScope r.scope = false → r.wireInteractionID = "" →
    (∀ turn ∈ r.turns.dropLast, wireInteractionID turn.origin.event = "") ∧
      ∀ turn ∈ r.turns, wireInteractionID turn.origin.event ≠ "" → r.closeReason = some .maxTurns

theorem anchorOf_eq (h : isThreadScope r.scope = false) (turn : Turn) :
    anchorOf r turn = wireInteractionID turn.origin.event := by
  unfold anchorOf scopeWireAnchor
  rw [h]
  exact if_neg Bool.false_ne_true

theorem neverMixed_of_sound (hsound : Sound cfg ops r) (hexplained : Explained cfg ops r) :
    NeverMixed cfg ops r where
  toExplained := hexplained
  turns := hsound.turns
  stamped hthread hstamp turn hturn := by
    rw [← anchorOf_eq hthread]
    exact hsound.stamped.followed hstamp turn hturn
  unstamped hthread hblank := by
    simp only [← anchorOf_eq hthread]
    exact ⟨hsound.stamped.blank hblank, hsound.stamped.capped hblank⟩

theorem records_never_mix (cfg : Config) (ops : List Op) :
    ∀ r ∈ (run cfg ops).records, NeverMixed cfg ops r := by
  intro r hr
  have hinvariant := invariant_run cfg ops
  rcases List.mem_append.mp hr with hopen | hclosed
  · have hlive := hinvariant.opened r hopen
    refine neverMixed_of_sound hlive.sound (explained_of_other ?_ hlive.incomplete)
    rw [closeReason_of_isOpen hlive.isOpen]
    rintro ⟨⟩
  · obtain ⟨hsound, hexplained⟩ := hinvariant.closed r hclosed
    exact neverMixed_of_sound hsound hexplained

/-- A message in a room, live or replayed for a known tenant, with the id of its conversation. -/
def roomMessage (sender : String) (replayed : Bool) (wireID previousID : String) : Arrival where
  event :=
    { eventType := "channel_message"
      channelID := some "group:planning"
      senderID := some sender
      messageID := none
      threadID := none
      timestamp := 0
      channelType := some "group"
      content := some "hello"
      metadata :=
        { replayMode := replayed
          principalID := some "acme"
          interactionID := present (some wireID)
          previousInteractionID := previousID
          previousInteractionCloseTrigger := ""
          classification := none
          senderParticipantType := none
          chatEnd := none
          sessionEnd := none } }
  summary := ""
  principal := some "acme"
  sessionID := ""
  epochID := "world"

def roomConfig : Config := ⟨"bo", "", some 2⟩

/-- A second replayed conversation closes the record of the first as a whole. -/
theorem records_never_mix_rotated :
    let ops := [.event (roomMessage "ada" true "w1" ""), .event (roomMessage "cy" true "w2" "w1")]
    ∃ r ∈ (run roomConfig ops).records, r.replayWindowComplete = true ∧
      NeverMixed roomConfig ops r := by
  intro ops
  obtain ⟨r, hr, hcomplete⟩ : ∃ r ∈ (run roomConfig ops).records,
      r.replayWindowComplete = true := by decide
  exact ⟨r, hr, hcomplete, records_never_mix roomConfig ops r hr⟩

/-- The second turn reaches the cap, and is the first to carry an id: the record is closed before
it is stamped, and has no predecessor. -/
theorem capped_record_unstamped : ¬ ∀ (cfg : Config) (ops : List Op),
    ∀ r ∈ (run cfg ops).records, isThreadScope r.scope = false → ∀ turn ∈ r.turns,
      wireInteractionID turn.origin.event ≠ "" →
        wireInteractionID turn.origin.event ≠ r.wireInteractionID →
          wireInteractionID turn.origin.event = r.predecessorWireID := by
  intro h
  have hrun := h roomConfig
    [.event (roomMessage "ada" false "" ""), .event (roomMessage "ada" false "w1" "")]
  revert hrun
  decide

end Persatrix.Interactions
