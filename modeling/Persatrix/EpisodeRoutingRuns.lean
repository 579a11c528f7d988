import Persatrix.InteractionCloses

/-!
# Every run of the tracker

Whatever the order of the events, a record holds the turns of its own speaker, tenant and scope,
all replayed or all live, and of one conversation of the wire with the stragglers of the one
before.
-/
namespace Persatrix.Interactions
variable {cfg : Config} {ops : List Op} {scope : String} {a : Arrival} {t u : Tracker}
  {r : Interaction} {turn : Turn}

/-- The turn comes from an event of the record's scope, speaker and principal, replayed or live
as the record is. -/
structure Belongs (cfg : Config) (r : Interaction) (turn : Turn) : Prop where
  scope : scopeForMultiTurnEvent cfg turn.origin.event = some r.scope
  key : targetKey cfg r.scope turn.origin = r.key
  markers : replayMarkers turn.origin.event = (r.replayed, r.replayAttributed)

/-- The wire id of a turn of the record, as the record sees it. -/
def anchorOf (r : Interaction) (turn : Turn) : String := scopeWireAnchor r.scope turn.origin.event

structure Stamped (r : Interaction) : Prop where
  followed : r.wireInteractionID ≠ "" → ∀ turn ∈ r.turns, anchorOf r turn ≠ "" →
    anchorOf r turn ≠ r.wireInteractionID → anchorOf r turn = r.predecessorWireID
  blank : r.wireInteractionID = "" → ∀ turn ∈ r.turns.dropLast, anchorOf r turn = ""
  capped : r.wireInteractionID = "" → ∀ turn ∈ r.turns, anchorOf r turn ≠ "" →
    r.closeReason = some .maxTurns

structure Sound (cfg : Config) (ops : List Op) (r : Interaction) : Prop where
  turns : ∀ turn ∈ r.turns, .event turn.origin ∈ ops ∧ Belongs cfg r turn
  stamped : Stamped r

theorem Sound.later {op : Op} (h : Sound cfg ops r) : Sound cfg (ops ++ [op]) r where
  turns turn hturn := ⟨List.mem_append_left _ (h.turns turn hturn).1, (h.turns turn hturn).2⟩
  stamped := h.stamped

theorem closeReason_of_isOpen (h : r.isOpen) : r.closeReason = none := Option.isNone_iff_eq_none.mp h

/-- No turn of an open record without a stamp carries an id. -/
theorem Stamped.blank_of_isOpen (h : Stamped r) (hopen : r.isOpen) (hblank : r.wireInteractionID = "")
    (hturn : turn ∈ r.turns) : anchorOf r turn = "" := by
  by_contra hne
  have hcapped := h.capped hblank turn hturn hne
  rw [closeReason_of_isOpen hopen] at hcapped
  cases hcapped

theorem Sound.close (h : Sound cfg ops r) (hopen : r.isOpen) (reason : CloseReason)
    (c : Option Bool) : Sound cfg ops (r.close reason c) where
  turns turn hturn :=
    have hold := h.turns turn hturn
    ⟨hold.1, ⟨hold.2.scope, hold.2.key, hold.2.markers⟩⟩
  stamped :=
    { followed := h.stamped.followed
      blank := h.stamped.blank
      capped := fun hblank _ hturn hne =>
        absurd (h.stamped.blank_of_isOpen hopen hblank hturn) hne }

/-- An open record that the turn of the arrival may join. -/
structure Receives (cfg : Config) (scope : String) (a : Arrival) (r : Interaction) : Prop where
  isOpen : r.isOpen
  incomplete : r.replayWindowComplete = false
  key : r.key = targetKey cfg scope a
  markers : replayMarkers a.event = (r.replayed, r.replayAttributed)
  unrotated : wireRotationCloses r (scopeWireAnchor scope a.event) = false

theorem Receives.scope_eq (h : Receives cfg scope a r) : r.scope = scope :=
  congrArg RecordKey.scope h.key

/-- The record without the marks of its close. -/
def Interaction.reopened (r : Interaction) : Interaction :=
  { r with closeReason := none, replayWindowComplete := false }

theorem reopened_close (hopen : r.isOpen) (hincomplete : r.replayWindowComplete = false)
    (reason : CloseReason) (c : Option Bool) : (r.close reason c).reopened = r := by
  have hreason := closeReason_of_isOpen hopen
  cases r
  simp only [Interaction.reopened, Interaction.close] at hreason hincomplete ⊢
  rw [hreason, hincomplete]

/-- What the fan of the arrival starts from. -/
def atArrival (cfg : Config) (ops : List Op) (a : Arrival) : Tracker :=
  ((run cfg ops).observeWireMessage (a.event.messageID.getD "") a.event.metadata.replayMode).2

/-- The record was open before the arrival and closed after it. -/
structure ClosedAt (cfg : Config) (ops : List Op) (a : Arrival) (r : Interaction) : Prop where
  before : r.reopened ∈ (run cfg ops).opened.values
  after : r ∈ (run cfg (ops ++ [.event a])).closed
  scope : scopeForMultiTurnEvent cfg a.event = some r.scope

/-- The arrival, replayed like the record, has rotated the record away, and nothing had marked
the window of its channel and speaker when the record was closed. -/
structure Rotated (cfg : Config) (ops : List Op) (a : Arrival) (r : Interaction) : Prop
    extends ClosedAt cfg ops a r where
  replayed : r.replayed ∧ (replayMarkers a.event).1
  rotation : wireRotationCloses r.reopened (scopeWireAnchor r.scope a.event)
  window : ∃ before after : List Interaction,
    (atArrival cfg ops a).recordsForScope r.scope = before ++ r.reopened :: after ∧
      (before.foldl (closeIfStale cfg r.scope a) (atArrival cfg ops a)).replayRecordCompromised
        (r.sourceChannelID.getD "") r.speakerID = false

/-- How a closed record came to be closed. -/
structure Explained (cfg : Config) (ops : List Op) (r : Interaction) : Prop where
  catchup : r.closeReason = some .catchupComplete → ∃ (before : List Op) (a : Arrival)
    (after : List Op), ops = before ++ .event a :: after ∧ ClosedAt cfg before a r ∧
      targetKey cfg r.scope a = r.key
  complete : r.replayWindowComplete → ∃ (before : List Op) (a : Arrival)
    (after : List Op), ops = before ++ .event a :: after ∧ Rotated cfg before a r

theorem Explained.later {op : Op} (h : Explained cfg ops r) : Explained cfg (ops ++ [op]) r where
  catchup hreason := by
    obtain ⟨before, a, after, rfl, hclosed⟩ := h.catchup hreason
    exact ⟨before, a, after ++ [op], by simp, hclosed⟩
  complete hcomplete := by
    obtain ⟨before, a, after, rfl, hrotated⟩ := h.complete hcomplete
    exact ⟨before, a, after ++ [op], by simp, hrotated⟩

/-- A record that has just been opened for the arrival. -/
structure Fresh (cfg : Config) (scope : String) (a : Arrival) (r : Interaction) : Prop where
  isOpen : r.isOpen
  empty : r.turns = []
  incomplete : r.replayWindowComplete = false
  key : r.key = targetKey cfg scope a
  markers : replayMarkers a.event = (r.replayed, r.replayAttributed)
  unstamped : r.wireInteractionID = ""

theorem start_spec (hnone : u.opened.get (targetKey cfg scope a) = none) :
    let key := targetKey cfg scope a
    let started := u.start cfg scope a (frozenOpenCapture a.event) (some key.principalID)
      (some key.speakerID)
    Fresh cfg scope a started.1 ∧ started.2.closed = u.closed ∧
      started.2.opened = u.opened.put started.1 := by
  have hkey := resolveRecordKey_resolve cfg.envPrincipal a.principal scope a.event.senderID
  dsimp only [Tracker.start, targetKey] at hkey hnone ⊢
  rw [hkey, hnone]
  exact ⟨⟨rfl, rfl, rfl, rfl, rfl, rfl⟩, rfl, rfl⟩

/-- The turn goes to the open record under the key of the arrival, or to a fresh one. -/
theorem recordFor_spec (hopen : ∀ r ∈ u.opened.values, r.isOpen) :
    let found := u.recordFor cfg scope a (frozenOpenCapture a.event)
    (found.1 ∈ u.opened.values ∧ found.1.key = targetKey cfg scope a ∨
        Fresh cfg scope a found.1) ∧
      found.2.closed = u.closed ∧
      ∀ r, r.key ≠ targetKey cfg scope a →
        (r ∈ found.2.opened.values ↔ r ∈ u.opened.values) := by
  have hcapture : resolveRecordKey cfg.envPrincipal a.principal scope none
      (frozenOpenCapture a.event).speakerID = targetKey cfg scope a := rfl
  unfold Tracker.recordFor
  rw [hcapture]
  dsimp only
  cases hget : u.opened.get (targetKey cfg scope a) with
  | none =>
    obtain ⟨hfresh, hclosed, hopened⟩ := start_spec hget
    refine ⟨.inr hfresh, hclosed, fun r hr => ?_⟩
    change r ∈ (u.start cfg scope a _ _ _).2.opened.values ↔ _
    rw [hopened, Keyed.mem_put, hfresh.key]
    constructor
    · rintro (rfl | ⟨hold, -⟩)
      · exact absurd hfresh.key hr
      · exact hold
    · intro hold
      exact .inr ⟨hold, hr⟩
  | some s =>
    obtain ⟨hs, hkey⟩ := Keyed.get_eq_some.mp hget
    rw [Option.filter_some, if_pos (hopen s hs)]
    exact ⟨.inl ⟨hs, hkey⟩, rfl, fun r _ => Iff.rfl⟩

/-- What may take the turn of an arrival: an open record that the arrival does not make stale, or
a fresh one. -/
theorem receives_of_left (hopen : r.isOpen) (hincomplete : r.replayWindowComplete = false)
    (hkey : r.key = targetKey cfg scope a)
    (hleft : staleCloseReason r a.event (scopeWireAnchor scope a.event)
      (r.key = targetKey cfg scope a) = none) : Receives cfg scope a r := by
  unfold staleCloseReason at hleft
  rw [hopen, hkey] at hleft
  simp only [Bool.not_true, Bool.false_eq_true, if_false, decide_true, Bool.true_and] at hleft
  refine ⟨hopen, hincomplete, hkey, ?_, ?_⟩
  · by_contra hne
    rw [if_pos (decide_eq_true (Ne.symm hne))] at hleft
    cases hleft
  · by_contra hne
    split at hleft
    · cases hleft
    · rw [if_pos (Bool.not_eq_false _ ▸ hne)] at hleft
      cases hleft

theorem Fresh.receives (h : Fresh cfg scope a r) : Receives cfg scope a r where
  isOpen := h.isOpen
  incomplete := h.incomplete
  key := h.key
  markers := h.markers
  unrotated := by
    unfold wireRotationCloses
    rw [h.unstamped]
    simp only [ne_eq, not_true_eq_false, decide_false, Bool.and_false, Bool.false_and]

theorem Fresh.sound (h : Fresh cfg scope a r) : Sound cfg ops r where
  turns turn hturn := by
    rw [h.empty] at hturn
    cases hturn
  stamped :=
    { followed := fun hne => absurd h.unstamped hne
      blank := fun _ turn hturn => by
        rw [h.empty] at hturn
        cases hturn
      capped := fun _ turn hturn => by
        rw [h.empty] at hturn
        cases hturn }

/-- An id that does not rotate the record away is its stamp or that of its predecessor. -/
theorem Receives.followed (h : Receives cfg scope a r) (hstamp : r.wireInteractionID ≠ "")
    (hne : scopeWireAnchor scope a.event ≠ "")
    (hother : scopeWireAnchor scope a.event ≠ r.wireInteractionID) :
    scopeWireAnchor scope a.event = r.predecessorWireID := by
  by_contra hpred
  have hrotates : wireRotationCloses r (scopeWireAnchor scope a.event) = true := by
    unfold wireRotationCloses
    rw [h.isOpen, decide_eq_true hne, decide_eq_true hstamp, decide_eq_true (Ne.symm hother),
      decide_eq_true (Ne.symm hpred)]
    rfl
  rw [h.unrotated] at hrotates
  cases hrotates

section Append
variable (hr : Receives cfg scope a r) (hsound : Sound cfg ops r) (horigin : turn.origin = a)
  (hscope : scopeForMultiTurnEvent cfg a.event = some scope)
include hr hsound

theorem blank_append (hblank : r.wireInteractionID = "") :
    ∀ other ∈ (r.append turn).turns.dropLast, anchorOf r other = "" := by
  intro other hother
  rw [show (r.append turn).turns = r.turns ++ [turn] from rfl, List.dropLast_concat] at hother
  exact hsound.stamped.blank_of_isOpen hr.isOpen hblank hother

include horigin

theorem followed_append (hstamp : r.wireInteractionID ≠ "") : ∀ other ∈ (r.append turn).turns,
    anchorOf r other ≠ "" → anchorOf r other ≠ r.wireInteractionID →
      anchorOf r other = r.predecessorWireID := by
  intro other hother hne hdiff
  rcases List.mem_append.mp hother with hold | hnew
  · exact hsound.stamped.followed hstamp other hold hne hdiff
  · rw [List.mem_singleton.mp hnew] at hne hdiff ⊢
    unfold anchorOf at hne hdiff ⊢
    rw [horigin, hr.scope_eq] at hne hdiff ⊢
    exact hr.followed hstamp hne hdiff

include hscope

theorem belongs_append : ∀ other ∈ (r.append turn).turns,
    .event other.origin ∈ ops ++ [.event a] ∧ Belongs cfg (r.append turn) other := by
  intro other hother
  rcases List.mem_append.mp hother with hold | hnew
  · obtain ⟨hmem, hbelongs⟩ := hsound.turns other hold
    exact ⟨List.mem_append_left _ hmem, ⟨hbelongs.scope, hbelongs.key, hbelongs.markers⟩⟩
  · rw [List.mem_singleton.mp hnew, horigin]
    refine ⟨List.mem_append_right _ (List.mem_singleton.mpr rfl), ?_, ?_, ?_⟩
    · rw [horigin, hscope]
      exact congrArg some hr.scope_eq.symm
    · rw [horigin]
      change targetKey cfg r.scope a = r.key
      rw [hr.scope_eq, hr.key]
    · rw [horigin]
      exact hr.markers

/-- The record is closed at the cap with the turn. -/
theorem sound_capped :
    Sound cfg (ops ++ [.event a]) ((r.append turn).close .maxTurns none) where
  turns other hother :=
    have hbelongs := belongs_append hr hsound horigin hscope other hother
    ⟨hbelongs.1, ⟨hbelongs.2.scope, hbelongs.2.key, hbelongs.2.markers⟩⟩
  stamped :=
    { followed := followed_append hr hsound horigin
      blank := blank_append hr hsound
      capped := fun _ _ _ _ => rfl }

/-- The record is left without a stamp because it has one, or because no turn carries an id. -/
theorem sound_unstamped
    (hskip : r.wireInteractionID ≠ "" ∨ scopeWireAnchor scope a.event = "") :
    Sound cfg (ops ++ [.event a]) (r.append turn) where
  turns := belongs_append hr hsound horigin hscope
  stamped :=
    { followed := followed_append hr hsound horigin
      blank := blank_append hr hsound
      capped := by
        intro hblank other hother hne
        have hanchor : scopeWireAnchor scope a.event = "" := hskip.resolve_left fun h => h hblank
        rcases List.mem_append.mp hother with hold | hnew
        · exact absurd (hsound.stamped.blank_of_isOpen hr.isOpen hblank hold) hne
        · refine absurd ?_ hne
          change scopeWireAnchor r.scope other.origin.event = ""
          rw [List.mem_singleton.mp hnew, horigin, hr.scope_eq, hanchor] }

/-- The record is stamped with the id of the turn: those before it carried none. -/
theorem sound_stamped (hblank : r.wireInteractionID = "")
    (hne : scopeWireAnchor scope a.event ≠ "") (predecessorID : String) :
    Sound cfg (ops ++ [.event a])
      ((r.append turn).stamp (scopeWireAnchor scope a.event) predecessorID) where
  turns other hother :=
    have hbelongs := belongs_append hr hsound horigin hscope other hother
    ⟨hbelongs.1, ⟨hbelongs.2.scope, hbelongs.2.key, hbelongs.2.markers⟩⟩
  stamped :=
    { followed := by
        intro _ other hother hcarries hdiff
        rcases List.mem_append.mp hother with hold | hnew
        · exact absurd (hsound.stamped.blank_of_isOpen hr.isOpen hblank hold) hcarries
        · refine absurd ?_ hdiff
          change scopeWireAnchor r.scope other.origin.event = scopeWireAnchor scope a.event
          rw [List.mem_singleton.mp hnew, horigin, hr.scope_eq]
      blank := fun h => absurd h hne
      capped := fun h => absurd h hne }

end Append

end Persatrix.Interactions
