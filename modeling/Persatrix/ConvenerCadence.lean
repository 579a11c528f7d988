import Mathlib.Data.List.Count
import Mathlib.Data.List.Sort
import Persatrix.GoValues
import Persatrix.System

/-!
# The convener cadence

On a stall of an autonomous discussion the convener poses the current agenda item
once more or moves on to the next one. Cursor and flags ride the resolver entry of
the channel, and every call holds the interaction mutex for its whole body. Of an
entry only the fields that the cadence reads are kept.
-/
namespace Persatrix.Cadence

structure OpenInteraction where
  id : String
  idCommitted : Bool := false
  agendaCursor : ℕ := 0
  agendaItemDiscussed : Bool := false
  agendaItemReinvited : Bool := false
  deriving DecidableEq

inductive ConvenerCadenceAction where
  | cadenceReinvite | cadenceAdvance
  deriving DecidableEq, Repr

structure CadenceClaim where
  interactionID : String
  item : ℕ
  action : ConvenerCadenceAction
  deriving DecidableEq

abbrev OpenInteractions := GoMap String OpenInteraction

namespace OpenInteraction

def openCommitted (entry : OpenInteraction) : Bool := entry.id ≠ "" && entry.idCommitted

/-- The entry after the resolver minted a fresh id into it. -/
def mint (entry : OpenInteraction) (id : String) : OpenInteraction :=
  { entry with
    id := id
    idCommitted := false
    agendaCursor := 0
    agendaItemDiscussed := false
    agendaItemReinvited := false }

/-- `claimConvenerCadence` on the entry of the stalled interaction. -/
def claim (entry : OpenInteraction) (agendaLen : ℕ) : Option (OpenInteraction × CadenceClaim) :=
  if agendaLen = 0 then none
  -- the agenda may have shrunk below the cursor since the last round
  else if agendaLen ≤ entry.agendaCursor then none
  else if !entry.agendaItemDiscussed && !entry.agendaItemReinvited then
    some ({ entry with agendaItemReinvited := true },
      ⟨entry.id, entry.agendaCursor, .cadenceReinvite⟩)
  else if entry.agendaCursor + 1 < agendaLen then
    some ({ entry with
        agendaCursor := entry.agendaCursor + 1
        agendaItemDiscussed := false
        agendaItemReinvited := false },
      ⟨entry.id, entry.agendaCursor + 1, .cadenceAdvance⟩)
  else none

end OpenInteraction

/-- The entry a call with this stamp acts on: committed, and not another interaction's. -/
def stamped (entries : OpenInteractions) (channelID stampedID : String) : Option OpenInteraction :=
  (entries.lookup channelID).filter fun entry =>
    entry.openCommitted && (stampedID = "" || stampedID = entry.id)

def recordAgendaProgress (entries : OpenInteractions) (channelID stampedID : String) :
    OpenInteractions :=
  match stamped entries channelID stampedID with
  | none => entries
  | some entry => AList.insert channelID { entry with agendaItemDiscussed := true } entries

def claimConvenerCadence (entries : OpenInteractions) (channelID stampedID : String)
    (agendaLen : ℕ) : OpenInteractions × Option CadenceClaim :=
  match (stamped entries channelID stampedID).bind fun entry => entry.claim agendaLen with
  | none => (entries, none)
  | some (entry, claim) => (AList.insert channelID entry entries, some claim)

/-- `settleInteraction` after a publish was persisted. -/
def settleInteraction (entries : OpenInteractions) (channelID resolved : String) :
    OpenInteractions :=
  match entries.lookup channelID with
  | none => AList.insert channelID { id := resolved, idCommitted := true } entries
  | some entry =>
    if entry.id = resolved then AList.insert channelID { entry with idCommitted := true } entries
    else entries

/-! ## One interaction

Within one interaction no fresh id is minted into the entry of its channel. The
other channels are arbitrary.
-/

inductive Event where
  | progress (channelID stampedID : String)
  | claim (channelID stampedID : String) (agendaLen : ℕ)
  | settle (channelID resolved : String)

structure Note where
  channelID : String
  agendaLen : ℕ
  claim : CadenceClaim
  deriving DecidableEq

def cadence (start : OpenInteractions) : System OpenInteractions Event where
  init := start
  step := fun entries e => match e with
    | .progress channelID stampedID => some (recordAgendaProgress entries channelID stampedID)
    | .claim channelID stampedID agendaLen =>
      some (claimConvenerCadence entries channelID stampedID agendaLen).1
    | .settle channelID resolved => some (settleInteraction entries channelID resolved)

/-- The claim that a step makes, with the agenda length it was called with. -/
def claimed (entries : OpenInteractions) (e : Event) (_ : OpenInteractions) : List Note :=
  match e with
  | .claim channelID stampedID agendaLen =>
    (claimConvenerCadence entries channelID stampedID agendaLen).2.toList.map
      (Note.mk channelID agendaLen)
  | _ => []

/-- The agenda lengths passed for a channel stay within `L`. -/
def Event.Within (channelID : String) (L : ℕ) : Event → Prop
  | .claim channel _ agendaLen => channel = channelID → agendaLen ≤ L
  | _ => True

instance (channelID : String) (L : ℕ) (e : Event) : Decidable (e.Within channelID L) := by
  cases e <;> unfold Event.Within <;> infer_instance

def notesOf (channelID : String) (log : List Note) : List Note :=
  log.filter fun n => n.channelID = channelID

def items (notes : List Note) : List ℕ := notes.map fun n => n.claim.item

/-- What the ration of an entry allows of the items posed so far. -/
structure Rationed (L : ℕ) (entry : OpenInteraction) (posed : List ℕ) : Prop where
  cursor : entry.agendaCursor + 1 ≤ L
  sorted : posed.Pairwise (· ≤ ·)
  reached : ∀ i ∈ posed, i ≤ entry.agendaCursor
  twice : ∀ i, posed.count i ≤ 2
  current : posed.count entry.agendaCursor ≤ 1 + entry.agendaItemReinvited.toNat
  total : posed.length ≤ 2 * entry.agendaCursor + entry.agendaItemReinvited.toNat

namespace Rationed
variable {L : ℕ} {entry : OpenInteraction} {posed : List ℕ}

theorem mint (hL : 1 ≤ L) (id : String) : Rationed L (entry.mint id) [] where
  cursor := hL
  sorted := List.Pairwise.nil
  reached := by simp
  twice := by simp
  current := by simp
  total := by simp

theorem length_le (h : Rationed L entry posed) : posed.length ≤ 2 * L - 1 := by
  have hcursor := h.cursor
  have htotal := h.total
  have hflag : entry.agendaItemReinvited.toNat ≤ 1 := Bool.toNat_le _
  omega

theorem sorted_append (h : Rationed L entry posed) {i : ℕ} (hi : entry.agendaCursor ≤ i) :
    (posed ++ [i]).Pairwise (· ≤ ·) := by
  rw [List.pairwise_append]
  refine ⟨h.sorted, List.pairwise_singleton _ _, fun j hj k hk => ?_⟩
  rw [List.mem_singleton.mp hk]
  exact (h.reached j hj).trans hi

theorem reinvite (h : Rationed L entry posed) (hspent : entry.agendaItemReinvited = false) :
    Rationed L { entry with agendaItemReinvited := true } (posed ++ [entry.agendaCursor]) where
  cursor := h.cursor
  sorted := h.sorted_append le_rfl
  reached := by
    intro i hi
    rcases List.mem_append.mp hi with hi | hi
    · exact h.reached i hi
    · exact (List.mem_singleton.mp hi).le
  twice := by
    intro i
    rw [List.count_append, List.count_singleton]
    by_cases hcursor : entry.agendaCursor = i
    · have hcurrent := h.current
      rw [hspent] at hcurrent
      rw [← hcursor]
      simpa using hcurrent
    · simpa [hcursor] using h.twice i
  current := by
    have hcurrent := h.current
    rw [hspent] at hcurrent
    simpa using hcurrent
  total := by
    have htotal := h.total
    rw [hspent] at htotal
    simpa using htotal

theorem advance (h : Rationed L entry posed) (hnext : entry.agendaCursor + 1 < L) :
    Rationed L { entry with
        agendaCursor := entry.agendaCursor + 1
        agendaItemDiscussed := false
        agendaItemReinvited := false } (posed ++ [entry.agendaCursor + 1]) := by
  have hfresh : posed.count (entry.agendaCursor + 1) = 0 :=
    List.count_eq_zero.mpr fun hmem => absurd (h.reached _ hmem) (by omega)
  exact
    { cursor := hnext
      sorted := h.sorted_append (Nat.le_succ _)
      reached := by
        intro i hi
        rcases List.mem_append.mp hi with hi | hi
        · exact (h.reached i hi).trans (Nat.le_succ _)
        · exact (List.mem_singleton.mp hi).le
      twice := by
        intro i
        rw [List.count_append, List.count_singleton]
        by_cases hcursor : entry.agendaCursor + 1 = i
        · rw [← hcursor, hfresh]
          simp
        · simpa [hcursor] using h.twice i
      current := by
        rw [List.count_append, hfresh]
        simp
      total := by
        have htotal := h.total
        have hflag : entry.agendaItemReinvited.toNat ≤ 1 := Bool.toNat_le _
        rw [List.length_append, List.length_singleton]
        simp only [Bool.toNat_false]
        omega }

/-- A claim poses an item of the agenda it was called with, and the ration goes on. -/
theorem claim (h : Rationed L entry posed) {agendaLen : ℕ} (hlen : agendaLen ≤ L)
    {after : OpenInteraction} {c : CadenceClaim} (hclaim : entry.claim agendaLen = some (after, c)) :
    Rationed L after (posed ++ [c.item]) ∧ after.id = entry.id ∧ c.interactionID = entry.id ∧
      c.item < agendaLen := by
  unfold OpenInteraction.claim at hclaim
  split_ifs at hclaim with hempty hshrunk hquiet hnext
  · cases hclaim
    rw [Bool.and_eq_true, Bool.not_eq_true', Bool.not_eq_true'] at hquiet
    exact ⟨h.reinvite hquiet.2, rfl, rfl, not_le.mp hshrunk⟩
  · cases hclaim
    exact ⟨h.advance (by omega), rfl, rfl, hnext⟩

end Rationed

/-- A call acts on the entry that its channel has. -/
theorem lookup_of_stamped {entries : OpenInteractions} {channelID stampedID : String}
    {entry : OpenInteraction} (h : stamped entries channelID stampedID = some entry) :
    entries.lookup channelID = some entry := (Option.filter_eq_some_iff.mp h).1

/-- What a claim did: nothing, or one step of the ration of its channel's entry. -/
theorem claimConvenerCadence_cases (entries : OpenInteractions) (channelID stampedID : String)
    (agendaLen : ℕ) :
    claimConvenerCadence entries channelID stampedID agendaLen = (entries, none) ∨
    ∃ entry after c, entries.lookup channelID = some entry ∧
      entry.claim agendaLen = some (after, c) ∧
      claimConvenerCadence entries channelID stampedID agendaLen =
        (AList.insert channelID after entries, some c) := by
  unfold claimConvenerCadence
  cases hbind : (stamped entries channelID stampedID).bind fun entry => entry.claim agendaLen with
  | none => exact .inl rfl
  | some r =>
    obtain ⟨entry, hentry, hclaim⟩ := Option.bind_eq_some_iff.mp hbind
    exact .inr ⟨entry, r.1, r.2, lookup_of_stamped hentry, hclaim, rfl⟩

/-- The interaction that is open in the channel since its id was minted, and its claims. -/
structure Ongoing (channelID id : String) (L : ℕ) (p : OpenInteractions × List Note) : Prop where
  entry : ∃ entry, p.1.lookup channelID = some entry ∧ entry.id = id ∧
    Rationed L entry (items (notesOf channelID p.2))
  indices : ∀ n ∈ notesOf channelID p.2,
    n.claim.interactionID = id ∧ n.claim.item < n.agendaLen

theorem notesOf_append (channelID : String) (log notes : List Note) :
    notesOf channelID (log ++ notes) = notesOf channelID log ++ notesOf channelID notes :=
  List.filter_append ..

theorem notesOf_other {channelID channel : String} (h : channel ≠ channelID)
    {agendaLen : ℕ} (c : Option CadenceClaim) :
    notesOf channelID (c.toList.map (Note.mk channel agendaLen)) = [] := by
  cases c with
  | none => rfl
  | some c => simp [notesOf, h]

section
variable {channelID id : String} {L : ℕ} {entries : OpenInteractions} {log : List Note}

/-- A write to the entry of the channel that leaves its cursor, its re-invite and its id. -/
theorem Ongoing.write (h : Ongoing channelID id L (entries, log)) {channel : String}
    {before after : OpenInteraction} (hbefore : entries.lookup channel = some before)
    (hid : after.id = before.id) (hcursor : after.agendaCursor = before.agendaCursor)
    (hflag : after.agendaItemReinvited = before.agendaItemReinvited) :
    Ongoing channelID id L (AList.insert channel after entries, log) := by
  refine ⟨?_, h.indices⟩
  obtain ⟨entry, hlookup, hentry, hration⟩ := h.entry
  dsimp only at hlookup hration ⊢
  rw [GoMap.lookup_insert]
  by_cases hchannel : channelID = channel
  · subst hchannel
    rw [hlookup, Option.some_inj] at hbefore
    subst hbefore
    refine ⟨after, if_pos rfl, hid.trans hentry, ?_⟩
    obtain ⟨hlimit, hsorted, hreached, htwice, hcurrent, htotal⟩ := hration
    rw [← hcursor] at hlimit hreached hcurrent htotal
    rw [← hflag] at hcurrent htotal
    exact ⟨hlimit, hsorted, hreached, htwice, hcurrent, htotal⟩
  · exact ⟨entry, (if_neg hchannel).trans hlookup, hentry, hration⟩

theorem Ongoing.progress (h : Ongoing channelID id L (entries, log)) (channel stampedID : String) :
    Ongoing channelID id L (recordAgendaProgress entries channel stampedID, log) := by
  unfold recordAgendaProgress
  cases hentry : stamped entries channel stampedID with
  | none => exact h
  | some entry => exact h.write (lookup_of_stamped hentry) rfl rfl rfl

theorem Ongoing.settle (h : Ongoing channelID id L (entries, log)) (channel resolved : String) :
    Ongoing channelID id L (settleInteraction entries channel resolved, log) := by
  unfold settleInteraction
  cases hentry : entries.lookup channel with
  | none =>
    obtain ⟨entry, hlookup, hid, hration⟩ := h.entry
    dsimp only at hlookup
    have hne : channelID ≠ channel := by
      intro heq
      rw [heq, hentry] at hlookup
      cases hlookup
    exact ⟨⟨entry, by rwa [GoMap.lookup_insert, if_neg hne], hid, hration⟩, h.indices⟩
  | some entry =>
    dsimp only
    by_cases hid : entry.id = resolved
    · rw [if_pos hid]
      exact h.write hentry rfl rfl rfl
    · rwa [if_neg hid]

theorem Ongoing.claim (h : Ongoing channelID id L (entries, log)) (channel stampedID : String)
    {agendaLen : ℕ} (hlen : channel = channelID → agendaLen ≤ L) :
    Ongoing channelID id L ((claimConvenerCadence entries channel stampedID agendaLen).1,
      log ++ (claimConvenerCadence entries channel stampedID agendaLen).2.toList.map
        (Note.mk channel agendaLen)) := by
  obtain ⟨entry, hlookup, hid, hration⟩ := h.entry
  dsimp only at hlookup hration
  rcases claimConvenerCadence_cases entries channel stampedID agendaLen with
    hnone | ⟨before, after, c, hbefore, hclaim, hstep⟩
  · rw [hnone]
    simpa using h
  rw [hstep]
  by_cases hchannel : channel = channelID
  · subst hchannel
    rw [hlookup, Option.some_inj] at hbefore
    subst hbefore
    obtain ⟨hnext, hafter, hinteraction, hitem⟩ := hration.claim (hlen rfl) hclaim
    have hnotes : notesOf channel (log ++ [⟨channel, agendaLen, c⟩]) =
        notesOf channel log ++ [⟨channel, agendaLen, c⟩] := by
      rw [notesOf_append]
      simp [notesOf]
    refine ⟨⟨after, AList.lookup_insert _, hafter.trans hid, ?_⟩, ?_⟩
    · change Rationed L after (items (notesOf channel (log ++ [⟨channel, agendaLen, c⟩])))
      rw [hnotes, items, List.map_append]
      exact hnext
    · intro n hn
      change n ∈ notesOf channel (log ++ [⟨channel, agendaLen, c⟩]) at hn
      rw [hnotes] at hn
      rcases List.mem_append.mp hn with hn | hn
      · exact h.indices n hn
      · rw [List.mem_singleton.mp hn]
        exact ⟨hinteraction.trans hid, hitem⟩
  · have hnotes : notesOf channelID (log ++ (some c).toList.map (Note.mk channel agendaLen)) =
        notesOf channelID log := by
      rw [notesOf_append, notesOf_other hchannel, List.append_nil]
    refine ⟨⟨entry, ?_, hid, ?_⟩, ?_⟩
    · exact (GoMap.lookup_insert ..).trans ((if_neg (Ne.symm hchannel)).trans hlookup)
    · dsimp only
      rwa [hnotes]
    · dsimp only
      rw [hnotes]
      exact h.indices

end

/-- What the claims of one interaction come to when its agenda never exceeds `L` items. -/
structure Bounded (id : String) (L : ℕ) (notes : List Note) : Prop where
  claims : notes.length ≤ 2 * L - 1
  sorted : (items notes).Pairwise (· ≤ ·)
  twice : ∀ i, (items notes).count i ≤ 2
  posed : ∀ n ∈ notes, n.claim.interactionID = id ∧ n.claim.item < n.agendaLen

theorem Ongoing.bounded {channelID id : String} {L : ℕ} {p : OpenInteractions × List Note}
    (h : Ongoing channelID id L p) : Bounded id L (notesOf channelID p.2) := by
  obtain ⟨current, _, _, hration⟩ := h.entry
  have hlength : (items (notesOf channelID p.2)).length ≤ 2 * L - 1 := hration.length_le
  rw [items, List.length_map] at hlength
  exact ⟨hlength, hration.sorted, hration.twice, h.indices⟩

/-- The claims of an interaction are bounded by its longest agenda, however the agenda shrinks
and grows between them and whatever happens in the other channels. -/
theorem cadence_bounded {L : ℕ} (hL : 1 ≤ L) {start : OpenInteractions} {channelID id : String}
    {entry : OpenInteraction} (hstart : start.lookup channelID = some (entry.mint id))
    {p : OpenInteractions × List Note}
    (hrun : ((cadence start).logged claimed).Reaches (fun _ e => e.Within channelID L) p) :
    Bounded id L (notesOf channelID p.2) := by
  have hongoing : Ongoing channelID id L p := by
    refine System.Reaches.invariant ?_ (fun q e r hq hwithin hstep => ?_) hrun
    · exact ⟨⟨entry.mint id, hstart, rfl, Rationed.mint hL id⟩, by simp [System.logged, notesOf]⟩
    · obtain ⟨hnext, hlog⟩ := System.logged_step hstep
      obtain ⟨entries, log⟩ := q
      obtain ⟨entries', log'⟩ := r
      dsimp only at hnext hlog hwithin
      subst hlog
      cases e with
      | progress channel stampedID =>
        cases hnext
        simpa [claimed] using hq.progress channel stampedID
      | claim channel stampedID agendaLen =>
        cases hnext
        exact hq.claim channel stampedID hwithin
      | settle channel resolved =>
        cases hnext
        simpa [claimed] using hq.settle channel resolved
  exact hongoing.bounded

/-- The agenda of the room shrinks to one item and grows again; in another room it is longer. -/
def stalledRooms : List Event :=
  [.settle "room" "talk", .settle "hall" "other", .claim "room" "talk" 2, .claim "hall" "" 9,
    .claim "room" "" 1, .claim "room" "talk" 2, .claim "room" "talk" 1, .progress "hall" "",
    .claim "room" "talk" 2, .claim "room" "talk" 2]

def openedRoom : OpenInteraction := OpenInteraction.mint ⟨"", true, 7, true, true⟩ "talk"

/-- The bound is attained. -/
theorem cadence_bounded_attained :
    ∃ p : OpenInteractions × List Note, (notesOf "room" p.2).length = 2 * 2 - 1 ∧
      Bounded "talk" 2 (notesOf "room" p.2) := by
  obtain ⟨p, hexec, hlength⟩ : ∃ p,
      (((cadence (AList.insert "room" openedRoom ∅)).logged claimed).guarded
        fun _ e => e.Within "room" 2).exec stalledRooms = some p ∧
        (notesOf "room" p.2).length = 2 * 2 - 1 := System.exists_of_exec (by decide)
  exact ⟨p, hlength, cadence_bounded (by decide) (AList.lookup_insert ∅)
    (System.reachable_exec hexec).of_guarded⟩

end Persatrix.Cadence
