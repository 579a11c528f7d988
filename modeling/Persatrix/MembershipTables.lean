import Mathlib.Data.List.Nodup
import Mathlib.Data.Rat.Defs
import Persatrix.FloorControl

/-!
# Channels, members and membership intervals

The three tables under the constraints of their schema: tables that break one cannot be built. A
time is the number of nanoseconds since the epoch, and a threshold the number it stands for.
-/
namespace Persatrix.Memberships
open Channels

inductive ChannelType where
  | group | dm | thread
  | unknown (name : String)
deriving DecidableEq

def ChannelType.Valid (t : ChannelType) : Prop := t = .group ∨ t = .dm ∨ t = .thread

instance (t : ChannelType) : Decidable t.Valid := by
  unfold ChannelType.Valid
  infer_instance

structure ChannelRow where
  id : String
  /-- Groups have a name, the others NULL. -/
  name : Option String
  channelType : ChannelType
deriving DecidableEq

structure MembershipRow where
  channelID : String
  participantID : String
  respondPolicy : String
  joinedAt : ℤ
  threshold : Option ℚ
  salienceGated : Bool
deriving DecidableEq

def MembershipRow.pair (m : MembershipRow) : String × String := (m.channelID, m.participantID)

structure IntervalRow where
  channelID : String
  participantID : String
  joinedAt : ℤ
  leftAt : Option ℤ
deriving DecidableEq

namespace IntervalRow

def pair (i : IntervalRow) : String × String := (i.channelID, i.participantID)

def isOpen (i : IntervalRow) : Bool := i.leftAt.isNone

/-- The interval is half-open. -/
def Contains (i : IntervalRow) (t : ℤ) : Prop := i.joinedAt ≤ t ∧ ∀ l ∈ i.leftAt, t < l

end IntervalRow

/-- The tables, each in the order of its rowids. -/
structure Rows where
  channels : List ChannelRow
  memberships : List MembershipRow
  intervals : List IntervalRow
deriving DecidableEq

namespace Rows

def ids (r : Rows) : List String := r.channels.map ChannelRow.id

/-- The names in the index of the groups. -/
def groupNames (r : Rows) : List String :=
  r.channels.filterMap fun c => if c.channelType = .group then c.name else none

def openPairs (r : Rows) : List (String × String) :=
  (r.intervals.filter IntervalRow.isOpen).map IntervalRow.pair

/-- What the schema demands. -/
structure Consistent (r : Rows) : Prop where
  channelTypes : ∀ c ∈ r.channels, c.channelType.Valid
  policies : ∀ m ∈ r.memberships,
    m.respondPolicy = respondWhenMentioned ∨ m.respondPolicy = respondAlways ∨
      m.respondPolicy = respondNever
  ids : r.ids.Nodup
  groupNames : r.groupNames.Nodup
  pairs : (r.memberships.map MembershipRow.pair).Nodup
  openPairs : r.openPairs.Nodup
  members : ∀ m ∈ r.memberships, m.channelID ∈ r.ids
  intervals : ∀ i ∈ r.intervals, i.channelID ∈ r.ids

instance (r : Rows) : Decidable r.Consistent :=
  decidable_of_iff
    ((∀ c ∈ r.channels, c.channelType.Valid) ∧
      (∀ m ∈ r.memberships, m.respondPolicy = respondWhenMentioned ∨
        m.respondPolicy = respondAlways ∨ m.respondPolicy = respondNever) ∧
      r.ids.Nodup ∧ r.groupNames.Nodup ∧ (r.memberships.map MembershipRow.pair).Nodup ∧
      r.openPairs.Nodup ∧ (∀ m ∈ r.memberships, m.channelID ∈ r.ids) ∧
      ∀ i ∈ r.intervals, i.channelID ∈ r.ids)
    ⟨fun ⟨htypes, hpolicies, hids, hnames, hpairs, hopen, hmembers, hintervals⟩ =>
      ⟨htypes, hpolicies, hids, hnames, hpairs, hopen, hmembers, hintervals⟩,
    fun h => ⟨h.channelTypes, h.policies, h.ids, h.groupNames, h.pairs, h.openPairs, h.members,
      h.intervals⟩⟩

end Rows

structure Tables where
  rows : Rows
  consistent : rows.Consistent
deriving DecidableEq

/-- The constraint that refuses a statement, as the driver's code tells it. -/
inductive Constraint where
  | check
  | unique
  | primaryKey
  | foreignKey
deriving DecidableEq

namespace Tables

def empty : Tables := ⟨⟨[], [], []⟩, by decide⟩

/-- The index of the group names is looked up before that of the primary key. -/
def broken (r : Rows) : Constraint :=
  if ¬((∀ c ∈ r.channels, c.channelType.Valid) ∧
      ∀ m ∈ r.memberships, m.respondPolicy = respondWhenMentioned ∨
        m.respondPolicy = respondAlways ∨ m.respondPolicy = respondNever) then .check
  else if ¬(r.groupNames.Nodup ∧ r.openPairs.Nodup) then .unique
  else if ¬(r.ids.Nodup ∧ (r.memberships.map MembershipRow.pair).Nodup) then .primaryKey
  else .foreignKey

/-- A statement writes rows, or fails and leaves them. -/
def write (r : Rows) : Except Constraint Tables :=
  if h : r.Consistent then .ok ⟨r, h⟩ else .error (broken r)

/-! ### The statements -/

def insertChannel (c : ChannelRow) (t : Tables) : Except Constraint Tables :=
  write { t.rows with channels := t.rows.channels ++ [c] }

def insertMembership (m : MembershipRow) (t : Tables) : Except Constraint Tables :=
  write { t.rows with memberships := t.rows.memberships ++ [m] }

/-- `ON CONFLICT(channel_id, participant_id) DO NOTHING`, with the rows affected. -/
def insertOrIgnore (m : MembershipRow) (t : Tables) : Except Constraint (ℕ × Tables) :=
  if m.pair ∈ t.rows.memberships.map MembershipRow.pair then .ok (0, t)
  else (t.insertMembership m).map fun t' => (1, t')

def insertInterval (i : IntervalRow) (t : Tables) : Except Constraint Tables :=
  write { t.rows with intervals := t.rows.intervals ++ [i] }

def countGroups (t : Tables) : ℕ :=
  t.rows.channels.countP fun c => c.channelType = .group

def hasChannel (id : String) (t : Tables) : Bool := id ∈ t.rows.ids

theorem consistent_delete {r r' : Rows} (h : r.Consistent)
    (hchannels : r'.channels.Sublist r.channels)
    (hmemberships : r'.memberships.Sublist r.memberships)
    (hintervals : r'.intervals.Sublist r.intervals)
    (hmembers : ∀ m ∈ r'.memberships, m.channelID ∈ r'.ids)
    (hintervals' : ∀ i ∈ r'.intervals, i.channelID ∈ r'.ids) : r'.Consistent where
  channelTypes c hc := h.channelTypes c (hchannels.subset hc)
  policies m hm := h.policies m (hmemberships.subset hm)
  ids := h.ids.sublist (hchannels.map _)
  groupNames := h.groupNames.sublist (hchannels.filterMap _)
  pairs := h.pairs.sublist (hmemberships.map _)
  openPairs := h.openPairs.sublist ((hintervals.filter _).map _)
  members := hmembers
  intervals := hintervals'

/-- The rows without a membership. -/
def withoutMember (pair : String × String) (r : Rows) : Rows :=
  { r with memberships := r.memberships.filter fun m => m.pair ≠ pair }

def deleteMembership (pair : String × String) (t : Tables) : ℕ × Tables :=
  (t.rows.memberships.countP fun m => m.pair = pair,
    ⟨withoutMember pair t.rows, consistent_delete t.consistent (.refl _) List.filter_sublist (.refl _)
      (fun m hm => t.consistent.members m (List.mem_filter.mp hm).1) t.consistent.intervals⟩)

/-- The rows without a channel: the other tables cascade. -/
def withoutChannel (id : String) (r : Rows) : Rows where
  channels := r.channels.filter fun c => c.id ≠ id
  memberships := r.memberships.filter fun m => m.channelID ≠ id
  intervals := r.intervals.filter fun i => i.channelID ≠ id

theorem mem_ids_withoutChannel {id id' : String} {r : Rows} (h : id' ∈ r.ids) (hne : id' ≠ id) :
    id' ∈ (withoutChannel id r).ids := by
  obtain ⟨c, hc, rfl⟩ := List.mem_map.mp h
  exact List.mem_map_of_mem (List.mem_filter.mpr ⟨hc, decide_eq_true hne⟩)

def deleteChannel (id : String) (t : Tables) : ℕ × Tables :=
  (t.rows.channels.countP fun c => c.id = id,
    ⟨withoutChannel id t.rows, consistent_delete t.consistent List.filter_sublist
      List.filter_sublist List.filter_sublist
      (fun m hm => mem_ids_withoutChannel (t.consistent.members m (List.mem_filter.mp hm).1)
        (of_decide_eq_true (List.mem_filter.mp hm).2))
      fun i hi => mem_ids_withoutChannel (t.consistent.intervals i (List.mem_filter.mp hi).1)
        (of_decide_eq_true (List.mem_filter.mp hi).2)⟩)

def closing (pair : String × String) (now : ℤ) (i : IntervalRow) : IntervalRow :=
  if i.pair = pair ∧ i.isOpen then { i with leftAt := some now } else i

/-- The open intervals of a pair are closed. -/
def closeOpen (pair : String × String) (now : ℤ) (t : Tables) : Except Constraint (ℕ × Tables) :=
  (write { t.rows with intervals := t.rows.intervals.map (closing pair now) }).map fun t' =>
    (t.rows.intervals.countP fun i => i.pair = pair ∧ i.isOpen, t')

structure MemberPolicy where
  policy : String
  salienceGated : Bool
  threshold : Option ℚ

def withPolicy (pair : String × String) (mp : MemberPolicy) (m : MembershipRow) : MembershipRow :=
  if m.pair = pair then
    { m with
      respondPolicy := mp.policy
      threshold := mp.threshold
      salienceGated := mp.salienceGated }
  else m

def updatePolicy (pair : String × String) (mp : MemberPolicy) (t : Tables) :
    Except Constraint (ℕ × Tables) :=
  (write { t.rows with memberships := t.rows.memberships.map (withPolicy pair mp) }).map fun t' =>
    (t.rows.memberships.countP fun m => m.pair = pair, t')

end Tables
end Persatrix.Memberships
