import Persatrix.MembershipLedger

/-!
# Every run of the store keeps the ledger
-/
namespace Persatrix.Memberships
open Channels Tables Tx

/-- No transaction fails for a reason that only a broken ledger gives. -/
def Sane (e : StoreError) : Prop := ∀ c p, e ≠ .ledgerDivergence c p

abbrev Kept (clock : ℤ) (t : Tables) : Prop := Ledger clock none t.rows

abbrev Keeps (clock : ℤ) {A : Type} (body : Action A) : Prop :=
  Triple (Kept clock) body (fun _ => Kept clock) Sane

/-! ### Rules for the statements -/

section
variable {P : Tables → Prop} {A : Type} {Q : A → Tables → Prop} {label : String}

theorem sane_failed (statement : String) : Sane (.failed statement) := fun _ _ h => by cases h

theorem triple_run {f : Tables → A × Tables} (h : ∀ t, P t → Q (f t).1 (f t).2) :
    Triple P (run label f) Q Sane :=
  Triple.statement (sane_failed _) h

theorem triple_write {refused : Constraint → StoreError}
    {f : Tables → Except Constraint (A × Tables)} (hrefused : ∀ constraint, Sane (refused constraint))
    (h : ∀ t a t', P t → f t = .ok (a, t') → Q a t') : Triple P (write label refused f) Q Sane := by
  refine Triple.statement (sane_failed _) fun t ht => ?_
  cases hresult : f t with
  | error constraint => exact hrefused constraint
  | ok r => exact h t r.1 r.2 ht hresult

theorem triple_begin : Triple P begin (fun _ => P) Sane := triple_run fun _ h => h

theorem triple_commit : Triple P commit (fun _ => P) Sane := triple_run fun _ h => h

theorem triple_missing (label c p : String) (Q : Unit → Tables → Prop) :
    Triple P (missing label c p) Q Sane :=
  Triple.bind (Q := fun _ => P) (triple_run fun _ ht => ht) fun _ =>
    Triple.ite (fun _ => Triple.fail fun _ _ h => by cases h)
      fun _ => Triple.fail fun _ _ h => by cases h

end

theorem ok_of_map {f : Except Constraint Tables} {t : Tables} {u : Unit}
    (h : f.map (fun t' => ((), t')) = .ok (u, t)) : f = .ok t := by
  cases f with
  | error => cases h
  | ok t' =>
    cases h
    rfl

theorem triple_open {clock now : ℤ} {c p : String} :
    Triple (fun t => Joined clock (c, p) now t.rows) (openMembershipInterval c p now)
      (fun _ => Kept clock) Sane :=
  triple_write (fun _ => sane_failed _) fun _ _ _ ht hinsert => ledger_open ht (ok_of_map hinsert)

/-- There was a row, or there is one without its interval. -/
def Inserted (clock : ℤ) (pair : Pair) (n : ℕ) (t : Tables) : Prop :=
  n = 0 ∧ Kept clock t ∨ n = 1 ∧ Joined clock pair clock t.rows

theorem triple_insertOrIgnore {clock : ℤ} {m : MembershipRow} {label : String}
    {refused : Constraint → StoreError} (hrefused : ∀ constraint, Sane (refused constraint))
    (hnow : m.joinedAt = clock) :
    Triple (Kept clock) (write label refused fun t => t.insertOrIgnore m) (Inserted clock m.pair)
      Sane := by
  refine triple_write hrefused fun t n t' ht hinsert => ?_
  unfold Tables.insertOrIgnore at hinsert
  split_ifs at hinsert with hmem
  · cases hinsert
    exact .inl ⟨rfl, ht⟩
  · cases hrow : t.insertMembership m with
    | error =>
      rw [hrow] at hinsert
      cases hinsert
    | ok u =>
      rw [hrow] at hinsert
      cases hinsert
      exact .inr ⟨rfl, joined_insert ht hmem hrow hnow le_rfl fun i hi _ => ht.left i hi⟩

theorem triple_openInserted (clock : ℤ) (c p : String) (n : ℕ) :
    Triple (Inserted clock (c, p) n) (openInserted n c p clock) (fun _ => Kept clock) Sane := by
  refine Triple.ite (fun hone => ?_) fun hnot => ?_
  · subst hone
    exact triple_open.weaken fun t ht => (ht.resolve_left fun h => absurd h.1 one_ne_zero).2
  · exact Triple.pure fun t ht => (ht.resolve_right fun h => hnot h.1).2

/-! ### The operations -/

theorem keeps_insertChannel (clock : ℤ) (ch : Channel) : Keeps clock (insertChannel ch) := by
  refine triple_write (fun constraint => ?_) fun t _ t' ht hinsert => ?_
  · split
    · exact fun _ _ h => by cases h
    · exact sane_failed _
  · exact ledger_insertChannel ht (ok_of_map hinsert)

theorem keeps_createRow (clock : ℤ) (maxChannels : ℕ) (ch : Channel) :
    Keeps clock (createRow maxChannels ch) := by
  refine Triple.bind triple_begin fun _ => Triple.ite (fun _ => ?_) fun _ =>
    keeps_insertChannel clock ch
  exact Triple.bind (triple_run fun _ ht => ht) fun _ =>
    Triple.ite (fun _ => Triple.fail fun _ _ h => by cases h) fun _ => keeps_insertChannel clock ch

theorem sane_canonical {p : String} {e : StoreError} (h : canonicalRespondPolicy p = .error e) :
    Sane e := by
  unfold canonicalRespondPolicy at h
  split_ifs at h
  cases h
  exact fun _ _ h => by cases h

theorem sane_policy {p : String} {e : StoreError} (h : resolveMemberPolicy p = .error e) :
    Sane e := by
  unfold resolveMemberPolicy at h
  split at h
  · next hcanonical =>
      cases h
      exact sane_canonical hcanonical
  · cases h

theorem keeps_addInitial (clock : ℤ) (c : String) {m : NewMember} (hm : m.joinedAt = none) :
    Keeps clock (addInitial c clock m) := by
  refine Triple.ite (fun _ => Triple.fail fun _ _ h => by cases h) fun _ => ?_
  split
  · next e hpolicy => exact Triple.fail (sane_canonical hpolicy)
  · next policy _ =>
      have hjoined : m.joinedAt.getD clock = clock := by rw [hm, Option.getD_none]
      rw [hjoined]
      refine Triple.bind (triple_insertOrIgnore (fun constraint => ?_) rfl) fun n =>
        triple_openInserted clock c m.participantID n
      split
      · exact fun _ _ h => by cases h
      · exact sane_failed _

/-- What a transaction keeps is kept, whether it commits or not. -/
theorem kept_transaction {clock : ℤ} {A : Type} {body : Action A} (h : Keeps clock body)
    (fault : Option ℕ) {t : Tables} (ht : Kept clock t) :
    Kept clock (transaction fault body t).1 ∧
    ∀ e, (transaction fault body t).2 = .error e → Sane e := by
  obtain ⟨hok, herror⟩ := h.transaction fault ht
  refine ⟨?_, herror⟩
  cases hresult : (transaction fault body t).2 with
  | ok a => exact hok a hresult
  | error e =>
    rw [transaction_error hresult]
    exact ht

theorem sane_validate {ch : Channel} {e : StoreError} (h : validateChannel ch = .error e) :
    Sane e := by
  unfold validateChannel at h
  split_ifs at h <;> cases h <;> exact fun _ _ h => by cases h

/-- One more member of a DM: what the loop keeps beside the ledger is that no stint in the channel
is over. -/
theorem keeps_addToDM {clock now : ℤ} (hnow : now ≤ clock) (id p : String) :
    Triple (fun t => Kept clock t ∧ ∀ i ∈ t.rows.intervals, i.channelID = id → i.leftAt = none)
      (addToDM id now p)
      (fun _ t => Kept clock t ∧ ∀ i ∈ t.rows.intervals, i.channelID = id → i.leftAt = none)
      Sane := by
  refine Triple.bind (Q := fun _ t => Joined clock (id, p) now t.rows ∧
      ∀ i ∈ t.rows.intervals, i.channelID = id → i.leftAt = none)
    (triple_write (fun _ => sane_failed _) fun t _ t' ht hinsert => ?_) fun _ =>
      triple_write (fun _ => sane_failed _) fun t _ t' ht hinsert => ?_
  · have hinsert := ok_of_map hinsert
    have hrows := rows_of_write hinsert
    refine ⟨joined_insert ht.1 (fun hmem => ?_) hinsert rfl hnow fun i hi hpair l hl => ?_, ?_⟩
    · have hpairs := t'.consistent.pairs
      rw [hrows, List.map_append] at hpairs
      exact (List.nodup_append.mp hpairs).2.2 _ hmem _ (List.mem_singleton.mpr rfl) rfl
    · rw [ht.2 i hi (congrArg Prod.fst hpair)] at hl
      cases hl
    · rw [hrows]
      exact ht.2
  · have hinsert := ok_of_map hinsert
    refine ⟨ledger_open ht.1 hinsert, fun i hi hid => ?_⟩
    rw [rows_of_write hinsert] at hi
    rcases List.mem_append.mp hi with hold | hnew
    · exact ht.2 i hold hid
    · rw [List.mem_singleton.mp hnew]

theorem keeps_createDM {clock now : ℤ} (hnow : now ≤ clock) (id : String) (l : List String)
    (ch : ChannelRow) :
    Keeps clock (do
      begin
      write "channels: create dm" (fun _ => .failed "channels: create dm") fun t =>
        (t.insertChannel ⟨id, none, .dm⟩).map fun t' => ((), t')
      Tx.each (addToDM id now) l
      commit
      pure ch) := by
  refine Triple.bind triple_begin fun _ => Triple.bind
    (Q := fun _ t => Kept clock t ∧ ∀ i ∈ t.rows.intervals, i.channelID = id → i.leftAt = none)
    (triple_write (fun _ => sane_failed _) fun t _ t' ht hinsert => ?_) fun _ =>
      Triple.bind (Triple.each fun p _ => keeps_addToDM hnow id p) fun _ =>
        Triple.bind triple_commit fun _ => Triple.pure fun t ht => ht.1
  have hrows := rows_of_write (ok_of_map hinsert)
  refine ⟨ledger_insertChannel ht (ok_of_map hinsert), fun i hi hid => ?_⟩
  -- the channel is new, so that no row refers to it
  have hids := t'.consistent.ids
  rw [hrows] at hi hids
  have hmem := t.consistent.intervals i hi
  rw [Rows.ids, List.map_append] at hids
  exact absurd rfl ((List.nodup_append.mp hids).2.2 _ hmem _ (List.mem_singleton.mpr hid))

theorem keeps_addMember (now : ℤ) (c p : String) (mp : MemberPolicy) :
    Keeps now (do
      begin
      let n ← write "channels: add member"
        (fun constraint =>
          if constraint = .foreignKey then .channelNotFound c
          else .failed "channels: add member")
        fun t => t.insertOrIgnore ⟨c, p, mp.policy, now, mp.threshold, mp.salienceGated⟩
      openInserted n c p now
      commit) := by
  refine Triple.bind triple_begin fun _ =>
    Triple.bind (triple_insertOrIgnore (fun constraint => ?_) rfl) fun n =>
      Triple.bind (triple_openInserted now c p n) fun _ => triple_commit
  split
  · exact fun _ _ h => by cases h
  · exact sane_failed _

theorem keeps_removeMember (now : ℤ) (c p : String) :
    Keeps now (do
      begin
      let n ← run "channels: remove member" fun t => t.deleteMembership (c, p)
      if n = 0 then missing "channels: remove member existence check" c p
      else
        let closed ← closeOpenMembershipInterval c p now
        if closed = 0 then Tx.fail (.ledgerDivergence c p) else commit) := by
  refine Triple.bind triple_begin fun _ => Triple.bind
    (Q := fun n t => n = 0 ∨ Left now (c, p) t.rows) (triple_run fun t ht => ?_) fun n =>
      Triple.ite (fun _ => triple_missing _ c p _) fun hn => ?_
  · by_cases hnone : rowsOf (c, p) t.rows = []
    · refine .inl ?_
      change t.rows.memberships.countP (fun m => m.pair = (c, p)) = 0
      rw [List.countP_eq_length_filter]
      exact congrArg List.length hnone
    · exact .inr (left_delete ht hnone)
  · refine Triple.bind (Q := fun closed t => closed ≠ 0 ∧ Kept now t)
      (triple_write (fun _ => sane_failed _) fun t closed t' ht hclose =>
        ledger_close (ht.resolve_left hn) hclose) fun closed => ?_
    by_cases hzero : closed = 0
    · rw [if_pos hzero]
      exact fun fault s hs => absurd hzero hs.1
    · rw [if_neg hzero]
      exact triple_commit.weaken fun t ht => ht.2

theorem keeps_setMemberPolicy (clock : ℤ) (c p : String) (mp : MemberPolicy) :
    Keeps clock (do
      begin
      let n ← write "channels: set member policy" (fun _ => .failed "channels: set member policy")
        fun t => t.updatePolicy (c, p) mp
      if n = 0 then missing "channels: set member policy existence check" c p else commit) :=
  Triple.bind triple_begin fun _ => Triple.bind
    (triple_write (fun _ => sane_failed _) fun _ _ _ ht hupdate => ledger_policy ht hupdate)
    fun _ => Triple.ite (fun _ => triple_missing _ c p _) fun _ => triple_commit

theorem kept_getOrCreateDM {clock read : ℤ} (hread : read ≤ clock) (fault : Option ℕ)
    (lookup : Lookup) (a b : String) {t : Tables} (ht : Kept clock t) :
    Kept clock (getOrCreateDM fault lookup read a b t).1 ∧
    ∀ e, (getOrCreateDM fault lookup read a b t).2 = .error e → Sane e := by
  unfold getOrCreateDM
  split
  · next e hid =>
      refine ⟨ht, fun e' he' => ?_⟩
      unfold canonicalDMID at hid
      cases he'
      split_ifs at hid <;> cases hid <;> exact fun _ _ h => by cases h
  · next id _ =>
      cases lookup with
      | found ch => exact ⟨ht, fun e he => by cases he⟩
      | failed =>
        refine ⟨ht, fun e he => ?_⟩
        cases he
        exact sane_failed _
      | notFound => exact kept_transaction (keeps_createDM hread id _ _) fault ht

theorem withoutChannel_self {id : String} {t : Tables} (h : id ∉ t.rows.ids) :
    (t.deleteChannel id).2 = t := by
  have hchannels : t.rows.channels.filter (fun c => c.id ≠ id) = t.rows.channels :=
    List.filter_eq_self.mpr fun c hc =>
      decide_eq_true fun hsame => h (hsame ▸ List.mem_map_of_mem hc)
  have hmemberships : t.rows.memberships.filter (fun m => m.channelID ≠ id) = t.rows.memberships :=
    List.filter_eq_self.mpr fun m hm =>
      decide_eq_true fun hsame => h (hsame ▸ t.consistent.members m hm)
  have hintervals : t.rows.intervals.filter (fun i => i.channelID ≠ id) = t.rows.intervals :=
    List.filter_eq_self.mpr fun i hi =>
      decide_eq_true fun hsame => h (hsame ▸ t.consistent.intervals i hi)
  have hrows : withoutChannel id t.rows = t.rows := by
    unfold withoutChannel
    rw [hchannels, hmemberships, hintervals]
  obtain ⟨rows, hconsistent⟩ := t
  unfold Tables.deleteChannel
  dsimp only at hrows ⊢
  congr 1

theorem deleteChannel_cases (fault : Option ℕ) (id : String) (t : Tables) :
    ((deleteChannel fault id t).1 = t ∧
      ∃ e, (deleteChannel fault id t).2 = .error e ∧ Sane e) ∨
    (deleteChannel fault id t).1 = (t.deleteChannel id).2 ∧ (deleteChannel fault id t).2 = .ok () := by
  have hrun : (deleteChannel fault id t = (t, .error (.failed "channels: delete"))) ∨
      deleteChannel fault id t = ((t.deleteChannel id).2,
        if (t.deleteChannel id).1 = 0 then .error (.channelNotFound id) else .ok ()) := by
    unfold deleteChannel
    split
    · exact .inl rfl
    · refine .inr ?_
      split
      · next hpair => rw [hpair, if_pos rfl]
      · next hzero hpair => rw [hpair, if_neg hzero]
  rcases hrun with hrun | hrun
  · rw [hrun]
    exact .inl ⟨rfl, _, rfl, sane_failed _⟩
  · rw [hrun]
    cases hcount : (t.deleteChannel id).1 with
    | zero =>
      have hnone : id ∉ t.rows.ids := by
        intro hmem
        obtain ⟨c, hc, hid⟩ := List.mem_map.mp hmem
        have hzero := List.countP_eq_zero.mp hcount c hc
        exact hzero (decide_eq_true hid)
      have hpair : t.deleteChannel id = (0, t) := Prod.ext hcount (withoutChannel_self hnone)
      rw [hpair]
      exact .inl ⟨rfl, _, rfl, fun _ _ h => by cases h⟩
    | succ n =>
      have hpair : t.deleteChannel id = (n + 1, (t.deleteChannel id).2) := Prod.ext hcount rfl
      rw [hpair]
      exact .inr ⟨rfl, rfl⟩

/-! ### Runs -/

/-- The members of a list come with a joining time that is zero. -/
def ZeroJoined (_ : Store) (c : Call) : Prop :=
  match c.op with
  | .createChannelWithMembers _ members => ∀ m ∈ members, m.joinedAt = none
  | _ => True

instance (s : Store) (c : Call) : Decidable (ZeroJoined s c) := by
  unfold ZeroJoined
  split <;> infer_instance

theorem kept_op {maxChannels : ℕ} {s s' : Store} {c : Call} (hs : Kept s.clock s.tables)
    (hzero : ZeroJoined s c) (hstep : step maxChannels s c = some s') :
    Kept c.now (c.apply maxChannels s.tables).1 ∧
    ∀ e, (c.apply maxChannels s.tables).2 = .error e → Sane e := by
  unfold step at hstep
  split_ifs at hstep with hguard
  have ht : Kept c.now s.tables := hs.later hguard.1
  obtain ⟨op, fault, now⟩ := c
  obtain ⟨-, htimely⟩ := hguard
  have herror : ∀ {e : StoreError}, Sane e → Kept now s.tables ∧
      ∀ e', (Except.error e : Except StoreError Unit) = .error e' → Sane e' := by
    intro e he
    refine ⟨ht, fun e' he' => ?_⟩
    cases he'
    exact he
  cases op with
  | createChannel ch =>
    change Kept now (createChannel maxChannels fault ch s.tables).1 ∧
      ∀ e, (createChannel maxChannels fault ch s.tables).2 = .error e → Sane e
    unfold createChannel
    split
    · next hinvalid => exact herror (sane_validate hinvalid)
    · exact kept_transaction
        ((keeps_createRow now maxChannels ch).bind fun _ => triple_commit) fault ht
  | createChannelWithMembers ch members =>
    change Kept now (createChannelWithMembers maxChannels fault now ch members s.tables).1 ∧
      ∀ e, (createChannelWithMembers maxChannels fault now ch members s.tables).2 = .error e →
        Sane e
    unfold createChannelWithMembers
    split
    · next hinvalid => exact herror (sane_validate hinvalid)
    · exact kept_transaction ((keeps_createRow now maxChannels ch).bind fun _ =>
        Triple.bind (Triple.each fun m hm => keeps_addInitial now ch.id (hzero m hm)) fun _ =>
          triple_commit) fault ht
  | addMember c p policy =>
    change Kept now (addMember fault now c p policy s.tables).1 ∧
      ∀ e, (addMember fault now c p policy s.tables).2 = .error e → Sane e
    unfold addMember
    split
    · exact herror fun _ _ h => by cases h
    · split
      · next hpolicy => exact herror (sane_policy hpolicy)
      · exact kept_transaction (keeps_addMember now c p _) fault ht
  | removeMember c p => exact kept_transaction (keeps_removeMember now c p) fault ht
  | getOrCreateDM a b lookup read =>
    have hDM := kept_getOrCreateDM htimely fault lookup a b ht
    refine ⟨hDM.1, fun e he => ?_⟩
    change (getOrCreateDM fault lookup read a b s.tables).2.map _ = .error e at he
    cases hresult : (getOrCreateDM fault lookup read a b s.tables).2 with
    | ok ch =>
      rw [hresult] at he
      cases he
    | error e' =>
      rw [hresult] at he
      cases he
      exact hDM.2 e hresult
  | setMemberPolicy c p policy =>
    change Kept now (setMemberPolicy fault c p policy s.tables).1 ∧
      ∀ e, (setMemberPolicy fault c p policy s.tables).2 = .error e → Sane e
    unfold setMemberPolicy
    split
    · next hpolicy => exact herror (sane_policy hpolicy)
    · exact kept_transaction (keeps_setMemberPolicy now c p _) fault ht
  | deleteChannel id =>
    change Kept now (deleteChannel fault id s.tables).1 ∧
      ∀ e, (deleteChannel fault id s.tables).2 = .error e → Sane e
    rcases deleteChannel_cases fault id s.tables with ⟨htables, e, he, hsane⟩ | ⟨htables, hok⟩
    · rw [htables, he]
      exact herror hsane
    · rw [htables, hok]
      exact ⟨ledger_deleteChannel ht id, fun e he => by cases he⟩

/-! ### The ledger and the member table -/

structure Agrees (t : Tables) : Prop where
  member : ∀ m ∈ t.rows.memberships,
    (openOf m.pair t.rows).map IntervalRow.joinedAt = [m.joinedAt]
  stranger : ∀ pair, pair ∉ t.rows.memberships.map MembershipRow.pair → openOf pair t.rows = []
  closed : ∀ i ∈ t.rows.intervals, ∀ l ∈ i.leftAt, i.joinedAt ≤ l
  disjoint : t.rows.intervals.Pairwise fun i j =>
    i.pair = j.pair → ∀ time, ¬(i.Contains time ∧ j.Contains time)
  channels : ∀ i ∈ t.rows.intervals, i.channelID ∈ t.rows.ids

theorem agrees_of_kept {clock : ℤ} {t : Tables} (h : Kept clock t) : Agrees t where
  member m hm := by
    rw [h.agree m.pair (by simp)]
    have hmem : m ∈ rowsOf m.pair t.rows := List.mem_filter.mpr ⟨hm, decide_eq_true rfl⟩
    have hlength := rowsOf_length m.pair t
    match hrows : rowsOf m.pair t.rows with
    | [] =>
      rw [hrows] at hmem
      cases hmem
    | [m'] =>
      rw [hrows] at hmem
      rw [List.mem_singleton.mp hmem, List.map_singleton]
    | _ :: _ :: _ =>
      rw [hrows] at hlength
      simp at hlength
  stranger pair hpair := by
    have hagree := h.agree pair (by simp)
    rw [rowsOf_eq_nil.mpr hpair, List.map_nil] at hagree
    exact List.map_eq_nil_iff.mp hagree
  closed := h.closed
  disjoint := h.before.imp fun {i j} hbefore hpair time hboth => by
    obtain ⟨l, hl, hle⟩ := hbefore hpair
    have hlt := hboth.1.2 l hl
    have hge := hboth.2.1
    omega
  channels := t.consistent.intervals

theorem kept_run {maxChannels : ℕ} {epoch : ℤ} {s : Store}
    (h : (store maxChannels epoch).Reaches ZeroJoined s) : Kept s.clock s.tables := by
  refine System.Reaches.invariant (I := fun s => Kept s.clock s.tables) ?_
    (fun s c s' hs hzero hstep => ?_) h
  · refine ⟨fun pair _ => rfl, ?_, List.Pairwise.nil, ?_, ?_⟩ <;>
      · intro i hi
        cases hi
  · have hkept := (@kept_op maxChannels _ _ _ hs hzero hstep).1
    have hstep : step maxChannels s c = some s' := hstep
    unfold step at hstep
    split_ifs at hstep
    cases hstep
    exact hkept

theorem apply_error (maxChannels : ℕ) (c : Call) (t : Tables) {e : StoreError}
    (h : (c.apply maxChannels t).2 = .error e) : (c.apply maxChannels t).1 = t := by
  obtain ⟨op, fault, now⟩ := c
  cases op with
  | createChannel ch =>
    change (createChannel maxChannels fault ch t).2 = .error e at h
    change (createChannel maxChannels fault ch t).1 = t
    unfold createChannel at h ⊢
    split
    · rfl
    · next hvalid =>
        rw [hvalid] at h
        exact transaction_error h
  | createChannelWithMembers ch members =>
    change (createChannelWithMembers maxChannels fault now ch members t).2 = .error e at h
    change (createChannelWithMembers maxChannels fault now ch members t).1 = t
    unfold createChannelWithMembers at h ⊢
    split
    · rfl
    · next hvalid =>
        rw [hvalid] at h
        exact transaction_error h
  | addMember c p policy =>
    change (addMember fault now c p policy t).2 = .error e at h
    change (addMember fault now c p policy t).1 = t
    unfold addMember at h ⊢
    split
    · rfl
    · next hid =>
        rw [if_neg hid] at h
        split
        · rfl
        · next hpolicy =>
            rw [hpolicy] at h
            exact transaction_error h
  | removeMember c p => exact transaction_error h
  | getOrCreateDM a b lookup read =>
    change (getOrCreateDM fault lookup read a b t).2.map _ = .error e at h
    change (getOrCreateDM fault lookup read a b t).1 = t
    cases hresult : (getOrCreateDM fault lookup read a b t).2 with
    | ok ch =>
      rw [hresult] at h
      cases h
    | error e' =>
      unfold getOrCreateDM at hresult ⊢
      split
      · rfl
      · next hid =>
          rw [hid] at hresult
          cases lookup with
          | found ch => rfl
          | failed => rfl
          | notFound => exact transaction_error hresult
  | setMemberPolicy c p policy =>
    change (setMemberPolicy fault c p policy t).2 = .error e at h
    change (setMemberPolicy fault c p policy t).1 = t
    unfold setMemberPolicy at h ⊢
    split
    · rfl
    · next hpolicy =>
        rw [hpolicy] at h
        exact transaction_error h
  | deleteChannel id =>
    change (deleteChannel fault id t).2 = .error e at h
    change (deleteChannel fault id t).1 = t
    rcases deleteChannel_cases fault id t with ⟨htables, -⟩ | ⟨-, hok⟩
    · exact htables
    · rw [hok] at h
      cases h

theorem ledger_agrees {maxChannels : ℕ} {epoch : ℤ} {s : Store}
    (h : (store maxChannels epoch).Reaches ZeroJoined s) :
    Agrees s.tables ∧ ∀ c s', ZeroJoined s c → step maxChannels s c = some s' →
      ∀ e, (c.apply maxChannels s.tables).2 = .error e →
        (c.apply maxChannels s.tables).1 = s.tables ∧ ∀ ch p, e ≠ .ledgerDivergence ch p :=
  ⟨agrees_of_kept (kept_run h), fun c _ hzero hstep e he =>
    ⟨apply_error maxChannels c s.tables he, (kept_op (kept_run h) hzero hstep).2 e he⟩⟩

/-- A member is listed twice, leaves and joins again in the same instant; an admission fails
between its statements. -/
def rejoinRun : List Call :=
  [⟨.createChannelWithMembers ⟨"group:ab", "ab", .group⟩
      [⟨"x", "", none, none, false⟩, ⟨"x", "always", none, none, false⟩], none, 1⟩,
    ⟨.removeMember "group:ab" "x", none, 2⟩,
    ⟨.addMember "group:ab" "x" "chair", none, 2⟩,
    ⟨.addMember "group:ab" "x" "always", none, 3⟩,
    ⟨.addMember "group:ab" "y" "always", some 2, 3⟩]

theorem ledger_agrees_rejoined : ∃ s : Store,
    s.tables.rows.intervals = [⟨"group:ab", "x", 1, some 2⟩, ⟨"group:ab", "x", 2, none⟩] ∧
    Agrees s.tables := by
  have hrun : (((store 50 0).guarded ZeroJoined).exec rejoinRun).map
      (fun s => decide (s.tables.rows.intervals =
        [⟨"group:ab", "x", 1, some 2⟩, ⟨"group:ab", "x", 2, none⟩])) = some true := by
    decide +kernel
  obtain ⟨s, hexec, hs⟩ := System.exists_of_exec hrun
  exact ⟨s, hs,
    (ledger_agrees (System.Reachable.of_guarded (System.reachable_exec hexec))).1⟩

end Persatrix.Memberships
