import Persatrix.ApprovalQueue

/-!
# What every run of the approval queue keeps

The log tells of every row how it came to its state and who is recorded in it. A settled row has
nowhere to go, so its nonce is spent once.
-/
namespace Persatrix.Society
open Transactions

/-- The moves lead from a state to a state, each along the lifecycle. -/
def Leads : State → List Change → State → Prop
  | a, [], b => a = b
  | a, c :: cs, b => c.source = a ∧ c.target ∈ moves a ∧ Leads c.target cs b

/-- The person that the last of the moves to name one names. -/
def decided (cs : List Change) : Option GoString := cs.foldl (fun d c => c.carried.or d) none

def history (log : List Change) (id : GoString) : List Change := log.filter fun c => c.id = id

theorem leads_append {a b : State} {cs : List Change} {c : Change} (h : Leads a cs b)
    (hsource : c.source = b) (htarget : c.target ∈ moves b) : Leads a (cs ++ [c]) c.target := by
  induction cs generalizing a with
  | nil =>
    obtain rfl : a = b := h
    exact ⟨hsource, htarget, rfl⟩
  | cons d ds ih => exact ⟨h.1, h.2.1, ih h.2.2⟩

/-- Nothing comes after a move to a settled state. -/
theorem leads_settled {a b : State} {cs : List Change} {c : Change} (h : Leads a cs b)
    (hc : c ∈ cs) (hsettled : moves c.target = []) : b = c.target := by
  induction cs generalizing a with
  | nil => cases hc
  | cons d ds ih =>
    rcases List.mem_cons.mp hc with rfl | hc
    · cases ds with
      | nil => exact h.2.2.symm
      | cons e es =>
        have htarget : e.target ∈ moves c.target := h.2.2.2.1
        rw [hsettled] at htarget
        cases htarget
    · exact ih h.2.2 hc

theorem mem_moves_of_leads {a b : State} {cs : List Change} (h : Leads a cs b) :
    ∀ c ∈ cs, c.target ∈ moves c.source := by
  induction cs generalizing a with
  | nil =>
    intro c hc
    cases hc
  | cons d ds ih =>
    intro c hc
    rcases List.mem_cons.mp hc with rfl | hc
    · rw [h.1]
      exact h.2.1
    · exact ih h.2.2 c hc

theorem eq_approved {a : State} (h : .spent ∈ moves a) : a = .approved := by
  unfold moves at h
  split at h
  · exact absurd h (by decide)
  · rfl
  · cases h

/-- A row is spent by two moves. -/
theorem leads_spent {cs : List Change} (h : Leads .pending cs .spent) : ∃ c d, cs = [c, d] ∧
    c.target = .approved ∧ d.source = .approved ∧ d.target = .spent := by
  match cs with
  | [] => cases h
  | c :: cs =>
    have hc : c.target ∈ [State.approved, .denied, .expired, .withdrawn] := h.2.1
    have hrest := h.2.2
    by_cases happroved : c.target = .approved
    · rw [happroved] at hrest
      match cs with
      | [] => cases hrest
      | d :: ds =>
        have hd : d.target ∈ [State.spent, .expired, .withdrawn] := hrest.2.1
        have hsettled : moves d.target = [] := by
          simp only [List.mem_cons, List.not_mem_nil, or_false] at hd
          rcases hd with hd | hd | hd <;> rw [hd] <;> rfl
        have hspent := leads_settled hrest List.mem_cons_self hsettled
        cases ds with
        | nil => exact ⟨c, d, rfl, happroved, hrest.1, hspent.symm⟩
        | cons e es =>
          have he : e.target ∈ moves d.target := hrest.2.2.2.1
          rw [hsettled] at he
          cases he
    · have hsettled : moves c.target = [] := by
        simp only [List.mem_cons, List.not_mem_nil, or_false] at hc
        rcases hc with hc | hc | hc | hc
        · exact absurd hc happroved
        all_goals rw [hc]; rfl
      have hspent := leads_settled h List.mem_cons_self hsettled
      rw [← hspent] at hc
      exact absurd hc (by decide)

theorem decided_append (cs : List Change) (c : Change) :
    decided (cs ++ [c]) = c.carried.or (decided cs) := by
  unfold decided
  rw [List.foldl_append, List.foldl_cons, List.foldl_nil]

theorem filter_id {rows : List Row} (hids : (rows.map Row.id).Nodup) {r : Row} (hr : r ∈ rows) :
    (rows.filter fun d => d.id = r.id) = [r] := by
  induction rows with
  | nil => cases hr
  | cons d rows ih =>
    rw [List.map_cons, List.nodup_cons] at hids
    rcases List.mem_cons.mp hr with rfl | hmem
    · have hrest : (rows.filter fun d => d.id = r.id) = [] := by
        refine List.filter_eq_nil_iff.mpr fun d hd hid => hids.1 ?_
        rw [← of_decide_eq_true hid]
        exact List.mem_map_of_mem hd
      rw [List.filter_cons, if_pos (decide_eq_true rfl), hrest]
    · have hne : ¬decide (d.id = r.id) = true := by
        intro hid
        apply hids.1
        rw [of_decide_eq_true hid]
        exact List.mem_map_of_mem hmem
      rw [List.filter_cons, if_neg hne]
      exact ih hids.2 hmem

/-- Of the moves of a call a row's history takes the one of that row. -/
theorem history_append {rows : List Row} (hids : (rows.map Row.id).Nodup) {r : Row} (hr : r ∈ rows)
    (log : List Change) (select : Row → Bool) (clock : Option ℤ) (target : State)
    (carried : Option GoString) :
    history (log ++ (rows.filter select).map (change clock target carried)) r.id =
      history log r.id ++ if select r then [change clock target carried r] else [] := by
  have hrow : (rows.filter select).filter (fun d => d.id = r.id) =
      if select r then [r] else [] := by
    rw [List.filter_comm, filter_id hids hr]
    split_ifs with hselect
    · exact List.filter_cons_of_pos hselect
    · exact List.filter_cons_of_neg hselect
  have hkey : ((fun c : Change => decide (c.id = r.id)) ∘ change clock target carried) =
      fun d : Row => decide (d.id = r.id) := rfl
  unfold history
  rw [List.filter_append, List.filter_map, hkey, hrow]
  split_ifs <;> rfl

/-! ### The log of a queue -/

/-- What the log tells of the rows. -/
structure Told (q : Queue) : Prop where
  row : ∀ c ∈ q.log, ∃ r ∈ q.table.rows, r.id = c.id ∧ r.nonce = c.nonce ∧ r.expiresAt = c.expiresAt
  state : ∀ r ∈ q.table.rows, Leads .pending (history q.log r.id) r.state
  decidedBy : ∀ r ∈ q.table.rows, r.decidedBy = decided (history q.log r.id)
  live : ∀ c ∈ q.log, needsLive c.target = true → ∃ n, c.clock = some n ∧ n < c.expiresAt
  named : ∀ c ∈ q.log, c.target = .approved → c.carried.isSome = true
  redeemed : ((q.log.filter fun c => c.target = .spent).map Change.nonce).Nodup

variable {q : Queue}

theorem mem_history {log : List Change} {c : Change} (hc : c ∈ log) : c ∈ history log c.id :=
  List.mem_filter.mpr ⟨hc, decide_eq_true rfl⟩

theorem told_empty : Told ⟨Table.empty, []⟩ where
  row c hc := by cases hc
  state r hr := by cases hr
  decidedBy r hr := by cases hr
  live c hc := by cases hc
  named c hc := by cases hc
  redeemed := List.nodup_nil

/-- The log has nothing of a row that is new. -/
theorem told_opened (h : Told q) {t : Table} {now : Time} {raw : GoString} {a : Approval}
    (hrows : t.rows = q.table.rows ++ [newRow now raw a]) : Told ⟨t, q.log⟩ := by
  have hnew : history q.log (newRow now raw a).id = [] := by
    refine List.filter_eq_nil_iff.mpr fun c hc hid => ?_
    obtain ⟨r, hr, hrow, -, -⟩ := h.row c hc
    have hids := t.consistent.ids
    rw [hrows, List.map_append, List.map_cons, List.map_nil, List.nodup_append] at hids
    refine hids.2.2 r.id (List.mem_map_of_mem hr) _ List.mem_cons_self ?_
    rw [hrow]
    exact of_decide_eq_true hid
  refine ⟨?_, ?_, ?_, h.live, h.named, h.redeemed⟩
  · intro c hc
    obtain ⟨r, hr, hrow⟩ := h.row c hc
    refine ⟨r, ?_, hrow⟩
    rw [hrows]
    exact List.mem_append_left _ hr
  · intro r hr
    rw [hrows] at hr
    rcases List.mem_append.mp hr with hold | hlast
    · exact h.state r hold
    · obtain rfl := List.mem_singleton.mp hlast
      rw [hnew]
      rfl
  · intro r hr
    rw [hrows] at hr
    rcases List.mem_append.mp hr with hold | hlast
    · exact h.decidedBy r hold
    · obtain rfl := List.mem_singleton.mp hlast
      rw [hnew]
      rfl

/-- A row whose nonce is spent is not moved. -/
theorem told_redeemed (h : Told q) {select : Row → Bool} {f : Row → Row} {target : State}
    {clock : Option ℤ} {carried : Option GoString} (hspec : Moves select f target clock carried) :
    ((((q.log ++ (q.table.rows.filter select).map (change clock target carried))).filter
      fun c => c.target = .spent).map Change.nonce).Nodup := by
  rw [List.filter_append, List.map_append]
  refine List.nodup_append.mpr ⟨h.redeemed, ?_, ?_⟩
  · have hsub : ((((q.table.rows.filter select).map (change clock target carried)).filter
        fun c => c.target = .spent).map Change.nonce).Sublist (q.table.rows.map Row.nonce) := by
      refine (List.filter_sublist.map _).trans ?_
      rw [List.map_map]
      exact List.filter_sublist.map _
    exact q.table.consistent.nonces.sublist hsub
  · intro m hm n hn hmn
    obtain ⟨c, hc, rfl⟩ := List.mem_map.mp hm
    obtain ⟨d, hd, rfl⟩ := List.mem_map.mp hn
    obtain ⟨hclog, hcspent⟩ := List.mem_filter.mp hc
    obtain ⟨hdnew, hdspent⟩ := List.mem_filter.mp hd
    obtain ⟨r, hr, rfl⟩ := List.mem_map.mp hdnew
    obtain ⟨hr, hselect⟩ := List.mem_filter.mp hr
    obtain ⟨r', hr', hid, hnonce, -⟩ := h.row c hclog
    have hsame : r' = r :=
      List.inj_on_of_nodup_map q.table.consistent.nonces hr' hr (hnonce.trans hmn)
    have hcspent : c.target = .spent := of_decide_eq_true hcspent
    have hstate := leads_settled (h.state r' hr') (hid ▸ mem_history hclog) (by rw [hcspent]; rfl)
    have halong := hspec.along r hselect
    rw [← hsame, hstate, hcspent] at halong
    cases halong

theorem told_moved (h : Told q) {select : Row → Bool} {f : Row → Row} {target : State}
    {clock : Option ℤ} {carried : Option GoString} (hspec : Moves select f target clock carried)
    {t : Table} (hrows : t.rows = q.table.rows.map fun r => if select r then f r else r) :
    Told ⟨t, q.log ++ (q.table.rows.filter select).map (change clock target carried)⟩ := by
  have hmem : ∀ r ∈ q.table.rows, (if select r then f r else r) ∈ t.rows := by
    intro r hr
    rw [hrows]
    exact List.mem_map_of_mem hr
  have hkeep : ∀ r ∈ q.table.rows, ∃ r' ∈ t.rows,
      r'.id = r.id ∧ r'.nonce = r.nonce ∧ r'.expiresAt = r.expiresAt := by
    intro r hr
    refine ⟨_, hmem r hr, ?_⟩
    split_ifs
    · exact ⟨hspec.id r, hspec.nonce r, hspec.expiresAt r⟩
    · exact ⟨rfl, rfl, rfl⟩
  refine ⟨?_, ?_, ?_, ?_, ?_, told_redeemed h hspec⟩
  · intro c hc
    rcases List.mem_append.mp hc with hold | hnew
    · obtain ⟨r, hr, hid, hnonce, hexpires⟩ := h.row c hold
      obtain ⟨r', hr', hid', hnonce', hexpires'⟩ := hkeep r hr
      exact ⟨r', hr', hid'.trans hid, hnonce'.trans hnonce, hexpires'.trans hexpires⟩
    · obtain ⟨r, hr, rfl⟩ := List.mem_map.mp hnew
      exact hkeep r (List.mem_of_mem_filter hr)
  · intro r' hr'
    rw [hrows] at hr'
    obtain ⟨r, hr, rfl⟩ := List.mem_map.mp hr'
    by_cases hselect : select r = true
    · rw [if_pos hselect, hspec.id, hspec.state, history_append q.table.consistent.ids hr,
        if_pos hselect]
      exact leads_append (h.state r hr) rfl (hspec.along r hselect)
    · rw [if_neg hselect, history_append q.table.consistent.ids hr, if_neg hselect,
        List.append_nil]
      exact h.state r hr
  · intro r' hr'
    rw [hrows] at hr'
    obtain ⟨r, hr, rfl⟩ := List.mem_map.mp hr'
    by_cases hselect : select r = true
    · rw [if_pos hselect, hspec.id, hspec.decidedBy, history_append q.table.consistent.ids hr,
        if_pos hselect, decided_append, h.decidedBy r hr]
      rfl
    · rw [if_neg hselect, history_append q.table.consistent.ids hr, if_neg hselect,
        List.append_nil]
      exact h.decidedBy r hr
  · intro c hc hlive
    rcases List.mem_append.mp hc with hold | hnew
    · exact h.live c hold hlive
    · obtain ⟨r, hr, rfl⟩ := List.mem_map.mp hnew
      exact hspec.live r (List.mem_filter.mp hr).2 hlive
  · intro c hc happroved
    rcases List.mem_append.mp hc with hold | hnew
    · exact h.named c hold happroved
    · obtain ⟨r, hr, rfl⟩ := List.mem_map.mp hnew
      exact hspec.named happroved

theorem told_run (jsonValid : GoString → Bool) (call : Call) (h : Told q) :
    Told (run jsonValid call q).1 := by
  have hdoes := run_does jsonValid call q
  generalize (run jsonValid call q).2 = result at hdoes
  generalize (run jsonValid call q).1 = q' at hdoes ⊢
  cases hdoes with
  | refused e => exact h
  | opened hrows => exact told_opened h hrows
  | moved hspec hrows => exact told_moved h hspec hrows

/-! ### What is kept -/

structure Lifecycle (q : Queue) : Prop where
  opens : ((q.table.rows.filter Row.isOpen).map Row.action).Nodup
  payload : ∀ r ∈ q.table.rows, r.payload.isSome = true → r.isOpen = true
  decision : ∀ r ∈ q.table.rows, r.decidedBy.isSome = r.decidedAt.isSome
  state : ∀ r ∈ q.table.rows, Leads .pending (history q.log r.id) r.state
  live : ∀ c ∈ q.log, c.target = .approved ∨ c.target = .denied ∨ c.target = .spent →
    ∃ n, c.clock = some n ∧ n < c.expiresAt
  redeemed : ((q.log.filter fun c => c.target = .spent).map Change.nonce).Nodup
  fromApproved : ∀ c ∈ q.log, c.target = .spent → c.source = .approved
  /-- Of a spent row the person that its spend names, if it names one, or else the one that
  approved it. -/
  approver : ∀ r ∈ q.table.rows, r.state = .spent → ∃ c d, history q.log r.id = [c, d] ∧
    c.target = .approved ∧ d.target = .spent ∧ c.carried.isSome = true ∧
    r.decidedBy = d.carried.or c.carried

theorem lifecycle_of_told (h : Told q) : Lifecycle q where
  opens := q.table.consistent.opens
  payload r hr hpayload := by
    rcases (q.table.consistent.checked r hr).payload with hopen | hnone
    · exact hopen
    · rw [hnone] at hpayload
      cases hpayload
  decision r hr := (q.table.consistent.checked r hr).decision
  state := h.state
  live c hc htarget := by
    apply h.live c hc
    rcases htarget with htarget | htarget | htarget <;> rw [htarget] <;> rfl
  redeemed := h.redeemed
  fromApproved c hc htarget := by
    obtain ⟨r, hr, hid, -, -⟩ := h.row c hc
    have hmoves := mem_moves_of_leads (h.state r hr) c (hid ▸ mem_history hc)
    rw [htarget] at hmoves
    exact eq_approved hmoves
  approver r hr hspent := by
    have hleads := h.state r hr
    rw [hspent] at hleads
    obtain ⟨c, d, hhistory, hc, -, hd⟩ := leads_spent hleads
    have hmem : c ∈ q.log := by
      apply List.mem_of_mem_filter (p := fun c => c.id = r.id)
      change c ∈ history q.log r.id
      rw [hhistory]
      exact List.mem_cons_self
    have hperson := h.decidedBy r hr
    rw [hhistory] at hperson
    refine ⟨c, d, hhistory, hc, hd, h.named c hmem hc, ?_⟩
    rw [hperson]
    unfold decided
    rw [List.foldl_cons, List.foldl_cons, List.foldl_nil, Option.or_none]

/-- A later queue: each row is where moves lead it, and a settled one as it was. -/
structure Continues (q q' : Queue) : Prop where
  log : q.log <+: q'.log
  row : ∀ r ∈ q.table.rows, ∃ r' ∈ q'.table.rows, r'.id = r.id ∧ r'.nonce = r.nonce ∧
    Relation.ReflTransGen (fun a b => b ∈ moves a) r.state r'.state
  settled : ∀ r ∈ q.table.rows, moves r.state = [] → r ∈ q'.table.rows

theorem Continues.refl (q : Queue) : Continues q q where
  log := List.prefix_refl _
  row r hr := ⟨r, hr, rfl, rfl, .refl⟩
  settled _ hr _ := hr

theorem Continues.trans {q₁ q₂ q₃ : Queue} (h : Continues q₁ q₂) (h' : Continues q₂ q₃) :
    Continues q₁ q₃ where
  log := h.log.trans h'.log
  row r hr := by
    obtain ⟨r', hr', hid, hnonce, hpath⟩ := h.row r hr
    obtain ⟨r'', hr'', hid', hnonce', hpath'⟩ := h'.row r' hr'
    exact ⟨r'', hr'', hid'.trans hid, hnonce'.trans hnonce, hpath.trans hpath'⟩
  settled r hr hnone := h'.settled r (h.settled r hr hnone) hnone

/-- One call leaves a row as it is, or takes one move of it. -/
structure Moved (q q' : Queue) : Prop where
  log : q.log <+: q'.log
  row : ∀ r ∈ q.table.rows, r ∈ q'.table.rows ∨ ∃ r' ∈ q'.table.rows, r'.id = r.id ∧
    r'.nonce = r.nonce ∧ r'.state ∈ moves r.state

theorem Moved.settled {q q' : Queue} (h : Moved q q') {r : Row} (hr : r ∈ q.table.rows)
    (hnone : moves r.state = []) : r ∈ q'.table.rows := by
  rcases h.row r hr with hsame | ⟨r', -, -, -, hmove⟩
  · exact hsame
  · rw [hnone] at hmove
    cases hmove

theorem Moved.continues {q q' : Queue} (h : Moved q q') : Continues q q' where
  log := h.log
  row r hr := by
    rcases h.row r hr with hsame | ⟨r', hr', hid, hnonce, hmove⟩
    · exact ⟨r, hsame, rfl, rfl, .refl⟩
    · exact ⟨r', hr', hid, hnonce, .single hmove⟩
  settled _ hr hnone := h.settled hr hnone

theorem moved_run (jsonValid : GoString → Bool) (call : Call) (q : Queue) :
    Moved q (run jsonValid call q).1 := by
  have hdoes := run_does jsonValid call q
  generalize (run jsonValid call q).2 = result at hdoes
  generalize (run jsonValid call q).1 = q' at hdoes ⊢
  cases hdoes with
  | refused e => exact ⟨List.prefix_refl _, fun r hr => .inl hr⟩
  | opened hrows =>
    refine ⟨List.prefix_refl _, fun r hr => .inl ?_⟩
    rw [hrows]
    exact List.mem_append_left _ hr
  | @moved select f _ _ _ t _ hspec hrows =>
    refine ⟨List.prefix_append _ _, fun r hr => ?_⟩
    have hmem : (if select r then f r else r) ∈ t.rows := by
      rw [hrows]
      exact List.mem_map_of_mem hr
    by_cases hselect : select r = true
    · rw [if_pos hselect] at hmem
      refine .inr ⟨_, hmem, hspec.id r, hspec.nonce r, ?_⟩
      rw [hspec.state]
      exact hspec.along r hselect
    · rw [if_neg hselect] at hmem
      exact .inl hmem

theorem run_error {jsonValid : GoString → Bool} {call : Call} {e : Error}
    (h : (run jsonValid call q).2 = .error e) : (run jsonValid call q).1 = q := by
  have hdoes := run_does jsonValid call q
  rw [h] at hdoes
  generalize (run jsonValid call q).1 = q' at hdoes ⊢
  cases hdoes with
  | refused => rfl

/-- A bulk move changes the rows that its query selects. -/
theorem run_moveApprovals {jsonValid : GoString → Bool} {query : ApprovalQuery} {target : State}
    {l : List Approval} (h : (run jsonValid (.moveApprovals query target) q).2 = .ok l) :
    (run jsonValid (.moveApprovals query target) q).1.table.rows =
      q.table.rows.map fun r => if query.selects r then settle target r else r := by
  cases hbulk : checkBulk query target with
  | error why =>
    rw [run_of_error (e := .invalid why)
      (by simp only [execute, moveApprovals, hbulk])] at h
    cases h
  | ok =>
    cases hwhere : approvalWhere query.openByDefault with
    | error why =>
      rw [run_of_error (e := .invalid why)
        (by simp only [execute, moveApprovals, hbulk, hwhere])] at h
      cases h
    | ok conditions =>
      obtain ⟨t', result, hmoved, hrows⟩ := moveApprovals_rows hbulk hwhere q.table
      have hexecute : execute jsonValid q.table (.moveApprovals query target) =
          (t', .ok result) := hmoved
      rw [run_of_ok hexecute]
      exact hrows

/-- What a call does to what it sees. -/
structure Called (jsonValid : GoString → Bool) (call : Call) (s t : Store Queue) : Prop where
  moved : Moved s.view t.view
  error : ∀ e, (run jsonValid call s.view).2 = .error e → t = s
  bulk : ∀ query target l, call = .moveApprovals query target →
    (run jsonValid call s.view).2 = .ok l → t.view.table.rows =
      s.view.table.rows.map fun r => if query.selects r then settle target r else r

theorem called {jsonValid : GoString → Bool} {call : Call} {s t : Store Queue}
    (h : step (run jsonValid) s (.call call) = some t) : Called jsonValid call s t where
  moved := by
    rcases view_call h with hview | ⟨-, hview⟩
    · rw [hview]
      exact moved_run jsonValid call s.view
    · rw [hview]
      exact ⟨List.prefix_refl _, fun r hr => .inl hr⟩
  error e herror := by
    have hsame := run_error herror
    obtain ⟨committed, opened⟩ := s
    cases opened with
    | none =>
      have herror : (run jsonValid call committed).2 = .error e := herror
      have h : some (Store.mk (alone committed (run jsonValid call committed)) none) = some t := h
      obtain rfl := Option.some.inj h
      unfold alone
      rw [herror]
    | some u =>
      have hsame : (run jsonValid call u).1 = u := hsame
      have h : some (Store.mk committed (some (run jsonValid call u).1)) = some t := h
      obtain rfl := Option.some.inj h
      rw [hsame]
  bulk query target l hcall hok := by
    rw [view_call_of_ok hok h]
    subst hcall
    exact run_moveApprovals hok

/-- In every state of a run the queue keeps its lifecycle, in what is committed and in what an open
transaction sees. -/
theorem lifecycle_kept {jsonValid : GoString → Bool} {s : Store Queue}
    (h : (queues jsonValid).Reachable s) :
    (∀ q, Sees s q → Lifecycle q) ∧
      (∀ call t, step (run jsonValid) s (.call call) = some t → Called jsonValid call s t) ∧
      ∀ e t, step (run jsonValid) s e = some t → Continues s.committed t.committed := by
  have hreaches : (queues jsonValid).Reaches (Calls fun _ _ => True) s :=
    h.mono fun _ e _ => calls_true e
  have hkeeps : ∀ call q, Told q → (True ∨ ∃ a, (run jsonValid call q).2 = .ok a) →
      Told (run jsonValid call q).1 := fun call q hq _ => told_run jsonValid call hq
  refine ⟨fun q hq => ?_, fun call t hstep => called hstep, fun e t hstep => ?_⟩
  · exact lifecycle_of_told (invariant_sees told_empty hkeeps hreaches hq)
  · exact related_committed told_empty hkeeps Continues.refl (fun _ _ _ => Continues.trans)
      (fun call q _ _ => (moved_run jsonValid call q).continues) hreaches hstep

/-! ### A spend that names a person -/

def heldAction : Approval where
  id := ascii "a1"
  kind := .action
  actorID := ascii "agent"
  actionHash := ascii "hash"
  nonce := []
  state := .unset
  expiresAt := fromUnix (some 200)
  held := none
  tieGroup := []
  payload := []
  decidedBy := []
  decidedAt := Time.zero
  deliveredAt := Time.zero
  createdAt := Time.zero

def approvedThenSpent (spender : GoString) (spentAt : Time) : List (Event Call) :=
  [.call (.openApproval (fromUnix (some 100)) (some [1]) heldAction),
    .call (.moveApproval (fromUnix (some 110)) (ascii "a1")
      ⟨.pending, .approved, ascii "alice", fromUnix (some 110)⟩),
    .call (.moveApproval (fromUnix (some 120)) (ascii "a1")
      ⟨.approved, .spent, spender, spentAt⟩)]

theorem approver_overwritten : ∃ s, (queues fun _ => true).Reachable s ∧
    ∃ r ∈ s.committed.table.rows, r.state = .spent ∧ ∃ c ∈ s.committed.log, c.id = r.id ∧
      c.target = .approved ∧ r.decidedBy ≠ c.carried := by
  have hrun : ((queues fun _ => true).exec
      (approvedThenSpent (ascii "mallory") (fromUnix (some 120)))).map
      (fun s => decide (∃ r ∈ s.committed.table.rows, r.state = .spent ∧ ∃ c ∈ s.committed.log,
        c.id = r.id ∧ c.target = .approved ∧ r.decidedBy ≠ c.carried)) = some true := by
    decide
  obtain ⟨s, hexec, hs⟩ := System.exists_of_exec hrun
  exact ⟨s, System.reachable_exec hexec, hs⟩

theorem lifecycle_kept_spent : ∃ s, (∃ r ∈ s.committed.table.rows, r.state = .spent) ∧
    ∀ q, Sees s q → Lifecycle q := by
  have hrun : ((queues fun _ => true).exec (approvedThenSpent [] Time.zero)).map
      (fun s => decide (∃ r ∈ s.committed.table.rows, r.state = .spent)) = some true := by
    decide
  obtain ⟨s, hexec, hs⟩ := System.exists_of_exec hrun
  exact ⟨s, hs, (lifecycle_kept (System.reachable_exec hexec)).1⟩

end Persatrix.Society
