import Persatrix.MembershipStore

/-!
# The membership ledger

A transaction takes the ledger from one agreement with the member table to another. Between its two
statements they disagree on one pair only.
-/
namespace Persatrix.Memberships
open Channels Tables

abbrev Pair := String × String

def openOf (pair : Pair) (r : Rows) : List IntervalRow :=
  r.intervals.filter fun i => i.pair = pair ∧ i.isOpen

def rowsOf (pair : Pair) (r : Rows) : List MembershipRow :=
  r.memberships.filter fun m => m.pair = pair

/-- One stint of a pair is over when the next begins. -/
def IntervalRow.Before (i j : IntervalRow) : Prop :=
  i.pair = j.pair → ∃ l ∈ i.leftAt, l ≤ j.joinedAt

/-- The tables agree, but for a pair that is skipped. -/
structure Ledger (clock : ℤ) (skip : Option Pair) (r : Rows) : Prop where
  agree : ∀ pair, some pair ≠ skip →
    (openOf pair r).map IntervalRow.joinedAt = (rowsOf pair r).map MembershipRow.joinedAt
  closed : ∀ i ∈ r.intervals, ∀ l ∈ i.leftAt, i.joinedAt ≤ l
  before : r.intervals.Pairwise IntervalRow.Before
  joined : ∀ i ∈ r.intervals, i.joinedAt ≤ clock
  left : ∀ i ∈ r.intervals, ∀ l ∈ i.leftAt, l ≤ clock

/-- A pair that has its row and not yet its interval. -/
structure Joined (clock : ℤ) (pair : Pair) (now : ℤ) (r : Rows) : Prop where
  ledger : Ledger clock (some pair) r
  row : (rowsOf pair r).map MembershipRow.joinedAt = [now]
  noneOpen : openOf pair r = []
  last : ∀ i ∈ r.intervals, i.pair = pair → ∀ l ∈ i.leftAt, l ≤ now
  past : now ≤ clock

/-- A pair that has lost its row and not yet its interval. -/
structure Left (clock : ℤ) (pair : Pair) (r : Rows) : Prop where
  ledger : Ledger clock (some pair) r
  noRow : rowsOf pair r = []
  isOpen : openOf pair r ≠ []

theorem Ledger.later {clock now : ℤ} {skip : Option Pair} {r : Rows} (h : Ledger clock skip r)
    (hnow : clock ≤ now) : Ledger now skip r where
  agree := h.agree
  closed := h.closed
  before := h.before
  joined i hi := (h.joined i hi).trans hnow
  left i hi l hl := (h.left i hi l hl).trans hnow

/-! ### What each statement does -/

variable {t t' : Tables}

theorem rows_of_write {r : Rows} (h : Tables.write r = .ok t) : t.rows = r := by
  unfold Tables.write at h
  split_ifs at h
  cases h
  rfl

theorem ledger_insertChannel {clock : ℤ} {c : ChannelRow} (h : Ledger clock none t.rows)
    (hinsert : t.insertChannel c = .ok t') : Ledger clock none t'.rows := by
  rw [rows_of_write hinsert]
  exact ⟨h.agree, h.closed, h.before, h.joined, h.left⟩

theorem rowsOf_length (pair : Pair) (t : Tables) : (rowsOf pair t.rows).length ≤ 1 := by
  have hnodup : ((rowsOf pair t.rows).map MembershipRow.pair).Nodup :=
    t.consistent.pairs.sublist (List.filter_sublist.map _)
  have hsame : ∀ m ∈ rowsOf pair t.rows, m.pair = pair := fun m hm =>
    of_decide_eq_true (List.mem_filter.mp hm).2
  match hrows : rowsOf pair t.rows with
  | [] => exact Nat.zero_le 1
  | [m] => exact le_rfl
  | m :: m' :: rest =>
    rw [hrows] at hnodup hsame
    have heq : m.pair = m'.pair := (hsame m List.mem_cons_self).trans
      (hsame m' (List.mem_cons_of_mem _ List.mem_cons_self)).symm
    simp [heq] at hnodup

theorem rowsOf_eq_nil {pair : Pair} {r : Rows} :
    rowsOf pair r = [] ↔ pair ∉ r.memberships.map MembershipRow.pair := by
  rw [rowsOf, List.filter_eq_nil_iff]
  constructor
  · intro h hmem
    obtain ⟨m, hm, hpair⟩ := List.mem_map.mp hmem
    exact h m hm (decide_eq_true hpair)
  · intro h m hm hpair
    exact h (of_decide_eq_true hpair ▸ List.mem_map_of_mem hm)

theorem openOf_append (pair : Pair) (r : Rows) (i : IntervalRow) :
    openOf pair { r with intervals := r.intervals ++ [i] } =
      openOf pair r ++ if i.pair = pair ∧ i.isOpen then [i] else [] := by
  unfold openOf
  rw [List.filter_append]
  congr 1
  by_cases h : i.pair = pair ∧ i.isOpen
  · rw [if_pos h, List.filter_cons, if_pos (decide_eq_true h), List.filter_nil]
  · rw [if_neg h, List.filter_cons, if_neg (by simpa using h), List.filter_nil]

theorem rowsOf_append (pair : Pair) (r : Rows) (m : MembershipRow) :
    rowsOf pair { r with memberships := r.memberships ++ [m] } =
      rowsOf pair r ++ if m.pair = pair then [m] else [] := by
  unfold rowsOf
  rw [List.filter_append]
  congr 1
  by_cases h : m.pair = pair
  · rw [if_pos h, List.filter_cons, if_pos (decide_eq_true h), List.filter_nil]
  · rw [if_neg h, List.filter_cons, if_neg (by simpa using h), List.filter_nil]

/-- A row is inserted whose pair has none. -/
theorem joined_insert {clock now : ℤ} {m : MembershipRow} (h : Ledger clock none t.rows)
    (hnone : m.pair ∉ t.rows.memberships.map MembershipRow.pair)
    (hinsert : t.insertMembership m = .ok t') (hjoined : m.joinedAt = now) (hpast : now ≤ clock)
    (hlast : ∀ i ∈ t.rows.intervals, i.pair = m.pair → ∀ l ∈ i.leftAt, l ≤ now) :
    Joined clock m.pair now t'.rows := by
  have hrows := rows_of_write hinsert
  have hempty := rowsOf_eq_nil.mpr hnone
  rw [hrows]
  refine ⟨⟨fun pair hskip => ?_, h.closed, h.before, h.joined, h.left⟩, ?_, ?_, hlast, hpast⟩
  · rw [rowsOf_append, if_neg fun hsame => hskip (congrArg some hsame.symm), List.append_nil]
    exact h.agree pair (by simp)
  · rw [rowsOf_append, if_pos rfl, hempty, List.nil_append, List.map_singleton, hjoined]
  · have hagree := h.agree m.pair (by simp)
    rw [hempty, List.map_nil, List.map_eq_nil_iff] at hagree
    exact hagree

/-- The interval of the row is opened. -/
theorem ledger_open {clock now : ℤ} {c p : String} (h : Joined clock (c, p) now t.rows)
    (hinsert : t.insertInterval ⟨c, p, now, none⟩ = .ok t') : Ledger clock none t'.rows := by
  have hrows := rows_of_write hinsert
  have hpair : (IntervalRow.mk c p now none).pair = (c, p) := rfl
  rw [hrows]
  refine ⟨fun pair _ => ?_, ?_, ?_, ?_, ?_⟩
  · rw [openOf_append]
    by_cases hsame : (c, p) = pair
    · subst hsame
      rw [if_pos ⟨rfl, rfl⟩, h.noneOpen]
      exact h.row.symm
    · rw [if_neg fun hboth => hsame hboth.1, List.append_nil]
      exact h.ledger.agree pair fun hskip => hsame (Option.some.inj hskip).symm
  · intro i hi l hl
    rcases List.mem_append.mp hi with hold | hnew
    · exact h.ledger.closed i hold l hl
    · rw [List.mem_singleton.mp hnew] at hl
      cases hl
  · refine List.pairwise_append.mpr ⟨h.ledger.before, List.pairwise_singleton _ _, ?_⟩
    intro i hi j hj hsame
    obtain rfl := List.mem_singleton.mp hj
    rw [hpair] at hsame
    -- an open stint of the pair would be among those that there are none of
    cases hleft : i.leftAt with
    | none =>
      have hopen : i ∈ openOf (c, p) t.rows := by
        refine List.mem_filter.mpr ⟨hi, decide_eq_true ⟨hsame, ?_⟩⟩
        rw [IntervalRow.isOpen, hleft]
        rfl
      rw [h.noneOpen] at hopen
      cases hopen
    | some l => exact ⟨l, rfl, h.last i hi hsame l hleft⟩
  · intro i hi
    rcases List.mem_append.mp hi with hold | hnew
    · exact h.ledger.joined i hold
    · rw [List.mem_singleton.mp hnew]
      exact h.past
  · intro i hi l hl
    rcases List.mem_append.mp hi with hold | hnew
    · exact h.ledger.left i hold l hl
    · rw [List.mem_singleton.mp hnew] at hl
      cases hl

/-- A row is deleted. -/
theorem left_delete {clock : ℤ} {pair : Pair} (h : Ledger clock none t.rows)
    (hsome : rowsOf pair t.rows ≠ []) : Left clock pair (t.deleteMembership pair).2.rows := by
  refine ⟨⟨fun pair' hskip => ?_, h.closed, h.before, h.joined, h.left⟩, ?_, fun hnone => hsome ?_⟩
  · have hne : pair' ≠ pair := fun hsame => hskip (congrArg some hsame)
    have hkept : rowsOf pair' (withoutMember pair t.rows) = rowsOf pair' t.rows := by
      unfold rowsOf withoutMember
      rw [List.filter_filter]
      refine List.filter_congr fun m _ => ?_
      by_cases hm : m.pair = pair'
      · simp [hm, hne]
      · simp [hm]
    change _ = (rowsOf pair' (withoutMember pair t.rows)).map _
    rw [hkept]
    exact h.agree pair' (by simp)
  · change rowsOf pair (withoutMember pair t.rows) = []
    unfold rowsOf withoutMember
    rw [List.filter_filter]
    exact List.filter_eq_nil_iff.mpr fun m _ => by simp
  · have hagree := h.agree pair (by simp)
    rw [show openOf pair t.rows = [] from hnone, List.map_nil] at hagree
    exact List.map_eq_nil_iff.mp hagree.symm

@[simp] theorem closing_pair (pair : Pair) (now : ℤ) (i : IntervalRow) :
    (closing pair now i).pair = i.pair := by
  unfold closing
  split <;> rfl

@[simp] theorem closing_joinedAt (pair : Pair) (now : ℤ) (i : IntervalRow) :
    (closing pair now i).joinedAt = i.joinedAt := by
  unfold closing
  split <;> rfl

theorem closing_leftAt {pair : Pair} {now : ℤ} {i : IntervalRow} {l : ℤ}
    (h : l ∈ (closing pair now i).leftAt) : l ∈ i.leftAt ∨ l = now := by
  unfold closing at h
  split at h
  · exact .inr (Option.some.inj h).symm
  · exact .inl h

theorem closing_of_left {pair : Pair} {now : ℤ} {i : IntervalRow} {l : ℤ} (h : l ∈ i.leftAt) :
    closing pair now i = i := by
  unfold closing
  refine if_neg fun hopen => ?_
  have hsome := hopen.2
  rw [IntervalRow.isOpen, Option.mem_def.mp h] at hsome
  cases hsome

theorem openOf_closing (pair pair' : Pair) (now : ℤ) (r : Rows) :
    (openOf pair' { r with intervals := r.intervals.map (closing pair now) }).map
        IntervalRow.joinedAt =
      if pair' = pair then [] else (openOf pair' r).map IntervalRow.joinedAt := by
  unfold openOf
  rw [List.filter_map, List.map_map]
  have hjoined : IntervalRow.joinedAt ∘ closing pair now = IntervalRow.joinedAt :=
    funext (closing_joinedAt pair now)
  rw [hjoined]
  by_cases hsame : pair' = pair
  · rw [if_pos hsame]
    subst hsame
    have hnone : r.intervals.filter ((fun i => decide (i.pair = pair' ∧ i.isOpen = true)) ∘
        closing pair' now) = [] := by
      refine List.filter_eq_nil_iff.mpr fun i _ hi => ?_
      obtain ⟨hpair, hopen⟩ := of_decide_eq_true hi
      rw [closing_pair] at hpair
      unfold closing at hopen
      split at hopen
      · cases hopen
      · next hnot => exact hnot ⟨hpair, hopen⟩
    rw [hnone, List.map_nil]
  · rw [if_neg hsame]
    refine congrArg _ (List.filter_congr fun i _ => ?_)
    have hkept : i.pair = pair' → closing pair now i = i := by
      intro hpair
      exact if_neg fun hboth => hsame (hpair.symm.trans hboth.1)
    by_cases hpair : i.pair = pair'
    · rw [Function.comp_apply, hkept hpair]
    · simp [hpair]

/-- The open interval of a pair without a row is closed, and there is one. -/
theorem ledger_close {now : ℤ} {pair : Pair} {n : ℕ} (h : Left now pair t.rows)
    (hclose : t.closeOpen pair now = .ok (n, t')) : n ≠ 0 ∧ Ledger now none t'.rows := by
  unfold Tables.closeOpen at hclose
  cases hwrite : Tables.write { t.rows with intervals := t.rows.intervals.map (closing pair now) }
    with
  | error => rw [hwrite] at hclose; cases hclose
  | ok u =>
    rw [hwrite] at hclose
    obtain ⟨rfl, rfl⟩ := Prod.mk.inj (Except.ok.inj hclose)
    have hrows := rows_of_write hwrite
    constructor
    · rw [List.countP_eq_length_filter]
      exact fun hzero => h.isOpen (List.eq_nil_of_length_eq_zero hzero)
    · rw [hrows]
      refine ⟨fun pair' _ => ?_, ?_, ?_, ?_, ?_⟩
      · rw [openOf_closing]
        by_cases hsame : pair' = pair
        · subst hsame
          rw [if_pos rfl]
          exact (congrArg (List.map MembershipRow.joinedAt) h.noRow).symm
        · rw [if_neg hsame]
          exact h.ledger.agree pair' fun hskip => hsame (Option.some.inj hskip)
      · intro i hi l hl
        obtain ⟨j, hj, rfl⟩ := List.mem_map.mp hi
        rw [closing_joinedAt]
        rcases closing_leftAt hl with hold | rfl
        · exact h.ledger.closed j hj l hold
        · exact h.ledger.joined j hj
      · refine List.pairwise_map.mpr (h.ledger.before.imp fun {i j} hbefore hpair => ?_)
        rw [closing_pair, closing_pair] at hpair
        obtain ⟨l, hl, hle⟩ := hbefore hpair
        rw [closing_of_left hl, closing_joinedAt]
        exact ⟨l, hl, hle⟩
      · intro i hi
        obtain ⟨j, hj, rfl⟩ := List.mem_map.mp hi
        rw [closing_joinedAt]
        exact h.ledger.joined j hj
      · intro i hi l hl
        obtain ⟨j, hj, rfl⟩ := List.mem_map.mp hi
        rcases closing_leftAt hl with hold | rfl
        · exact h.ledger.left j hj l hold
        · exact le_rfl

theorem ledger_policy {clock : ℤ} {pair : Pair} {mp : MemberPolicy} {n : ℕ}
    (h : Ledger clock none t.rows) (hupdate : t.updatePolicy pair mp = .ok (n, t')) :
    Ledger clock none t'.rows := by
  unfold Tables.updatePolicy at hupdate
  cases hwrite : Tables.write
    { t.rows with memberships := t.rows.memberships.map (withPolicy pair mp) } with
  | error => rw [hwrite] at hupdate; cases hupdate
  | ok u =>
    rw [hwrite] at hupdate
    obtain ⟨-, rfl⟩ := Prod.mk.inj (Except.ok.inj hupdate)
    rw [rows_of_write hwrite]
    refine ⟨fun pair' hskip => ?_, h.closed, h.before, h.joined, h.left⟩
    rw [show openOf pair' { t.rows with memberships := t.rows.memberships.map (withPolicy pair mp) }
      = openOf pair' t.rows from rfl, h.agree pair' hskip]
    unfold rowsOf
    rw [List.filter_map, List.map_map]
    have hpair : ∀ m : MembershipRow, (withPolicy pair mp m).pair = m.pair := by
      intro m
      unfold withPolicy
      split <;> rfl
    have hjoined : MembershipRow.joinedAt ∘ withPolicy pair mp = MembershipRow.joinedAt := by
      funext m
      unfold withPolicy
      rw [Function.comp_apply]
      split <;> rfl
    rw [hjoined]
    refine congrArg _ (List.filter_congr fun m _ => ?_)
    rw [Function.comp_apply, hpair]

theorem ledger_deleteChannel {clock : ℤ} (h : Ledger clock none t.rows) (id : String) :
    Ledger clock none (t.deleteChannel id).2.rows := by
  change Ledger clock none (withoutChannel id t.rows)
  have hsub : (withoutChannel id t.rows).intervals.Sublist t.rows.intervals := List.filter_sublist
  refine ⟨fun pair _ => ?_, fun i hi => h.closed i (hsub.subset hi), h.before.sublist hsub,
    fun i hi => h.joined i (hsub.subset hi), fun i hi => h.left i (hsub.subset hi)⟩
  unfold openOf rowsOf withoutChannel
  rw [List.filter_filter, List.filter_filter]
  by_cases hid : pair.1 = id
  · have hintervals : t.rows.intervals.filter (fun i =>
        decide (i.pair = pair ∧ i.isOpen = true) && decide (i.channelID ≠ id)) = [] := by
      refine List.filter_eq_nil_iff.mpr fun i _ hi => ?_
      rw [Bool.and_eq_true, decide_eq_true_eq, decide_eq_true_eq] at hi
      exact hi.2 ((congrArg Prod.fst hi.1.1).trans hid)
    have hmemberships : t.rows.memberships.filter (fun m =>
        decide (m.pair = pair) && decide (m.channelID ≠ id)) = [] := by
      refine List.filter_eq_nil_iff.mpr fun m _ hm => ?_
      rw [Bool.and_eq_true, decide_eq_true_eq, decide_eq_true_eq] at hm
      exact hm.2 ((congrArg Prod.fst hm.1).trans hid)
    rw [hintervals, hmemberships, List.map_nil, List.map_nil]
  · have hintervals : t.rows.intervals.filter (fun i =>
        decide (i.pair = pair ∧ i.isOpen = true) && decide (i.channelID ≠ id)) =
        openOf pair t.rows := by
      refine List.filter_congr fun i _ => ?_
      by_cases hi : i.pair = pair
      · have hne : i.channelID ≠ id := fun hsame => hid ((congrArg Prod.fst hi).symm.trans hsame)
        simp [hne]
      · simp [hi]
    have hmemberships : t.rows.memberships.filter (fun m =>
        decide (m.pair = pair) && decide (m.channelID ≠ id)) = rowsOf pair t.rows := by
      refine List.filter_congr fun m _ => ?_
      by_cases hm : m.pair = pair
      · have hne : m.channelID ≠ id := fun hsame => hid ((congrArg Prod.fst hm).symm.trans hsame)
        simp [hne]
      · simp [hm]
    rw [hintervals, hmemberships]
    exact h.agree pair (by simp)

end Persatrix.Memberships
