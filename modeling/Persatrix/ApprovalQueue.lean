import Persatrix.Approvals
import Persatrix.Transactions

/-!
# The lifecycle of the approval queue

The calls on the queue, each in a transaction of its own or several in one. Beside the table a log
is kept of the moves that were made, which is not part of the program.
-/
namespace Persatrix.Society
open Transactions

/-- A row has changed its state. -/
structure Change where
  id : GoString
  nonce : GoString
  source : State
  target : State
  /-- The clock that the call read. -/
  clock : Option ℤ
  expiresAt : ℤ
  /-- The person the call names. -/
  carried : Option GoString

structure Queue where
  table : Table
  log : List Change

inductive Call where
  | openApproval (now : Time) (raw : Option GoString) (a : Approval)
  | moveApproval (now : Time) (id : GoString) (m : Move)
  | moveApprovals (q : ApprovalQuery) (target : State)

def change (clock : Option ℤ) (target : State) (carried : Option GoString) (r : Row) : Change :=
  ⟨r.id, r.nonce, r.state, target, clock, r.expiresAt, carried⟩

/-- The rows that a query for open ones selects. -/
def ApprovalQuery.selects (q : ApprovalQuery) (r : Row) : Bool :=
  r.isOpen && (q.state = .unset || r.state = q.state) && (q.actorID = [] || r.actorID = q.actorID) &&
    (q.actionHash = [] || r.actionHash = q.actionHash) &&
    (q.tieGroup = [] || r.tieGroup = some q.tieGroup) &&
    (q.expiredBy.isZero || decide (r.expiresAt ≤ unix q.expiredBy))

/-- What a call that succeeds notes of the rows it moves. -/
def noted (rows : List Row) : Call → List Change
  | .openApproval _ _ _ => []
  | .moveApproval now id m =>
    (rows.filter (m.selects now id)).map (change (some (unix now)) m.target (text m.decidedBy))
  | .moveApprovals q target => (rows.filter q.selects).map (change none target none)

def execute (jsonValid : GoString → Bool) (t : Table) : Call → Table × Except Error (List Approval)
  | .openApproval now raw a => openApproval jsonValid now raw a t
  | .moveApproval now id m => moveApproval now id m t
  | .moveApprovals q target => moveApprovals q target t

def run (jsonValid : GoString → Bool) (call : Call) (q : Queue) :
    Queue × Except Error (List Approval) :=
  match execute jsonValid q.table call with
  | (t, .ok result) => (⟨t, q.log ++ noted q.table.rows call⟩, .ok result)
  | (t, .error e) => (⟨t, q.log⟩, .error e)

def queues (jsonValid : GoString → Bool) : System (Store Queue) (Event Call) :=
  system (run jsonValid) ⟨Table.empty, []⟩

/-! ### What a call does -/

section
variable {jsonValid : GoString → Bool} {call : Call} {q : Queue}

theorem run_of_ok {t : Table} {l : List Approval}
    (h : execute jsonValid q.table call = (t, .ok l)) :
    run jsonValid call q = (⟨t, q.log ++ noted q.table.rows call⟩, .ok l) := by
  unfold run
  rw [h]

theorem run_of_error {e : Error} (h : execute jsonValid q.table call = (q.table, .error e)) :
    run jsonValid call q = (q, .error e) := by
  unfold run
  rw [h]

end

/-- The rows that a call moves, and what it makes of them. -/
structure Moves (select : Row → Bool) (f : Row → Row) (target : State) (clock : Option ℤ)
    (carried : Option GoString) : Prop where
  id : ∀ r, (f r).id = r.id
  nonce : ∀ r, (f r).nonce = r.nonce
  action : ∀ r, (f r).action = r.action
  expiresAt : ∀ r, (f r).expiresAt = r.expiresAt
  state : ∀ r, (f r).state = target
  decidedBy : ∀ r, (f r).decidedBy = carried.or r.decidedBy
  along : ∀ r, select r = true → target ∈ moves r.state
  live : ∀ r, select r = true → needsLive target = true →
    ∃ n, clock = some n ∧ n < r.expiresAt
  named : target = .approved → carried.isSome = true

/-- What a call may do: nothing, when it fails, or add a row, or move some. -/
inductive Does (jsonValid : GoString → Bool) (q : Queue) :
    Queue → Except Error (List Approval) → Prop
  | refused (e : Error) : Does jsonValid q q (.error e)
  | opened {now raw a t result} : t.rows = q.table.rows ++ [newRow now raw a] →
      Does jsonValid q ⟨t, q.log⟩ (.ok result)
  | moved {select f target clock carried t result} :
      Moves select f target clock carried →
      t.rows = (q.table.rows.map fun r => if select r then f r else r) →
      Does jsonValid q
        ⟨t, q.log ++ (q.table.rows.filter select).map (change clock target carried)⟩ (.ok result)

theorem isOpen_of_moves {r : Row} {target : State} (h : target ∈ moves r.state) :
    r.isOpen = true := by
  unfold moves at h
  unfold Row.isOpen
  cases hstate : r.state <;> rw [hstate] at h <;> first | rfl | cases h

theorem mem_moves_of_isOpen {r : Row} {target : State} (h : r.isOpen = true)
    (htarget : target = .expired ∨ target = .withdrawn) : target ∈ moves r.state := by
  unfold Row.isOpen at h
  rw [Bool.or_eq_true, decide_eq_true_iff, decide_eq_true_iff] at h
  rcases h with hstate | hstate <;> rw [hstate] <;> rcases htarget with rfl | rfl <;> decide

/-! ### The moves of one row -/

section
variable {m : Move}

theorem checkMove_ok (h : checkMove m = .ok ()) : m.target ∈ moves m.source ∧
    decide (m.decidedBy = []) = m.decidedAt.isZero ∧
    (decision m.target = true → m.decidedBy ≠ []) := by
  unfold checkMove at h
  split_ifs at h with hmoves hhalf hnamed
  exact ⟨hmoves, not_ne_iff.mp hhalf, fun hdecision hnone => hnamed ⟨hdecision, hnone⟩⟩

theorem selects_iff {now : Time} {id : GoString} {r : Row} : m.selects now id r = true ↔
    r.id = id ∧ r.state = m.source ∧ (needsLive m.target = true → unix now < r.expiresAt) := by
  unfold Move.selects
  rw [Bool.and_eq_true, Bool.and_eq_true, decide_eq_true_iff, decide_eq_true_iff, Bool.or_eq_true,
    decide_eq_true_iff, and_assoc]
  cases needsLive m.target <;> simp

theorem isSome_text (s : GoString) : (text s).isSome = !decide (s = []) := by
  unfold text
  split_ifs with h <;> simp [h]

theorem isSome_unixOrNull (t : Time) : (unixOrNull t).isSome = !t.isZero := by
  unfold unixOrNull
  split_ifs with h <;> simp [h]

theorem moves_apply (h : checkMove m = .ok ()) (now : Time) (id : GoString) :
    Moves (m.selects now id) m.apply m.target (some (unix now)) (text m.decidedBy) where
  id _ := rfl
  nonce _ := rfl
  action _ := rfl
  expiresAt _ := rfl
  state _ := rfl
  decidedBy _ := rfl
  along r hselects := by
    rw [(selects_iff.mp hselects).2.1]
    exact (checkMove_ok h).1
  live r hselects hlive := ⟨unix now, rfl, (selects_iff.mp hselects).2.2 hlive⟩
  named htarget := by
    have hnamed := (checkMove_ok h).2.2 (by rw [htarget]; rfl)
    rw [isSome_text, decide_eq_false hnamed]
    rfl

theorem mem_states_of_moves {source target : State} (h : target ∈ moves source) :
    target ∈ [State.pending, .approved, .denied, .expired, .withdrawn, .spent] := by
  unfold moves at h
  split at h
  · simp only [List.mem_cons, List.not_mem_nil, or_false] at h ⊢
    tauto
  · simp only [List.mem_cons, List.not_mem_nil, or_false] at h ⊢
    tauto
  · cases h

theorem checked_apply (h : checkMove m = .ok ()) {now : Time} {id : GoString} {r : Row}
    (hr : r.Checked) (hselects : m.selects now id r = true) : (m.apply r).Checked := by
  have hmoves := (moves_apply h now id).along r hselects
  refine ⟨hr.kind, mem_states_of_moves hmoves, hr.held, hr.depth, hr.tie, ?_, ?_⟩
  · have hhalf := (checkMove_ok h).2.1
    change ((text m.decidedBy).or r.decidedBy).isSome = ((unixOrNull m.decidedAt).or r.decidedAt).isSome
    rw [Option.isSome_or, Option.isSome_or, isSome_text, isSome_unixOrNull, hhalf, hr.decision]
  · by_cases htarget : m.target = .approved
    · have hopen : (m.apply r).isOpen = true := by
        change (decide (m.target = .pending) || decide (m.target = .approved)) = true
        rw [htarget]
        rfl
      exact .inl hopen
    · exact .inr (if_pos htarget)

theorem moveApproval_does (jsonValid : GoString → Bool) (now : Time) (id : GoString) (m : Move)
    (q : Queue) : Does jsonValid q (run jsonValid (.moveApproval now id m) q).1
      (run jsonValid (.moveApproval now id m) q).2 := by
  cases hcheck : checkMove m with
  | error why =>
    rw [run_of_error (e := .invalid why) (by simp only [execute, moveApproval, hcheck])]
    exact .refused _
  | ok =>
    have hspec := moves_apply hcheck now id
    obtain ⟨t', hupdate, hrows⟩ := q.table.update_ok
      (fun r hr hselects => checked_apply hcheck (q.table.consistent.checked r hr) hselects)
      hspec.id hspec.nonce hspec.action
      (fun r _ hselects _ => isOpen_of_moves (hspec.along r hselects))
    cases hfind : q.table.rows.find? (m.selects now id) with
    | none =>
      rw [run_of_error (e := whyNot id m q.table)
        (by simp only [execute, moveApproval, hcheck, hupdate, hfind])]
      exact .refused _
    | some r =>
      rw [run_of_ok (t := t') (l := [(m.apply r).scan])
        (by simp only [execute, moveApproval, hcheck, hupdate, hfind])]
      exact .moved hspec hrows

end

/-! ### The moves of many -/

theorem all_ite {condition : Prop} [Decidable condition] (f : Row → Bool) (r : Row) :
    (if condition then [f] else []).all (fun g => g r) = (!decide condition || f r) := by
  split_ifs with h
  · simp [h]
  · simp [h]

theorem checkBulk_ok {q : ApprovalQuery} {target : State} (h : checkBulk q target = .ok ()) :
    (target = .expired ∨ target = .withdrawn) ∧ (q.state ≠ .unset → moves q.state ≠ []) := by
  unfold checkBulk at h
  split_ifs at h with htarget hlimit hsettled
  refine ⟨?_, fun hstate hnone => hsettled ⟨hstate, hnone⟩⟩
  by_contra hne
  exact htarget ⟨fun he => hne (.inl he), fun hw => hne (.inr hw)⟩

/-- The statement selects the open rows that the query selects. -/
theorem all_approvalWhere {q : ApprovalQuery} {target : State} {conditions : List (Row → Bool)}
    (hbulk : checkBulk q target = .ok ()) (h : approvalWhere q.openByDefault = .ok conditions)
    (r : Row) : (conditions.all fun condition => condition r) = q.selects r := by
  unfold approvalWhere at h
  by_cases hboth : q.openByDefault.state ≠ .unset ∧ q.openByDefault.isOpen = true
  · rw [if_pos hboth] at h
    cases h
  rw [if_neg hboth] at h
  cases h
  rw [List.all_append, List.all_append, List.all_append, List.all_append, List.all_append, all_ite,
    all_ite, all_ite, all_ite, all_ite, all_ite]
  unfold ApprovalQuery.selects ApprovalQuery.openByDefault at *
  by_cases hstate : q.state = .unset
  · rw [if_pos hstate]
    simp [hstate]
  · rw [if_neg hstate] at hboth ⊢
    have hopen : q.isOpen = false := by
      cases hq : q.isOpen with
      | true => exact absurd ⟨hstate, hq⟩ hboth
      | false => rfl
    have himplies : r.state = q.state → r.isOpen = true := by
      intro hr
      obtain ⟨target', htarget'⟩ := List.exists_mem_of_ne_nil _ ((checkBulk_ok hbulk).2 hstate)
      exact isOpen_of_moves (hr ▸ htarget')
    by_cases hr : r.state = q.state
    · simp [hstate, hopen, hr, himplies hr]
    · simp [hstate, hopen, hr]

theorem moves_settle {q : ApprovalQuery} {target : State} (hbulk : checkBulk q target = .ok ()) :
    Moves q.selects (settle target) target none none where
  id _ := rfl
  nonce _ := rfl
  action _ := rfl
  expiresAt _ := rfl
  state _ := rfl
  decidedBy _ := rfl
  along r hselects := by
    unfold ApprovalQuery.selects at hselects
    simp only [Bool.and_eq_true] at hselects
    exact mem_moves_of_isOpen hselects.1.1.1.1.1 (checkBulk_ok hbulk).1
  live r _ hlive := by
    rcases (checkBulk_ok hbulk).1 with rfl | rfl <;> cases hlive
  named htarget := by
    rcases (checkBulk_ok hbulk).1 with rfl | rfl <;> cases htarget

theorem checked_settle {q : ApprovalQuery} {target : State} (hbulk : checkBulk q target = .ok ())
    {r : Row} (hr : r.Checked) (hselects : q.selects r = true) : (settle target r).Checked :=
  ⟨hr.kind, mem_states_of_moves ((moves_settle hbulk).along r hselects), hr.held, hr.depth, hr.tie,
    hr.decision, .inr rfl⟩

theorem moveApprovals_rows {q : ApprovalQuery} {target : State} {conditions : List (Row → Bool)}
    (hbulk : checkBulk q target = .ok ()) (h : approvalWhere q.openByDefault = .ok conditions)
    (t : Table) : ∃ t' result, moveApprovals q target t = (t', .ok result) ∧
      t'.rows = t.rows.map fun r => if q.selects r then settle target r else r := by
  have hselects : (fun r => conditions.all fun condition => condition r) = q.selects :=
    funext fun r => all_approvalWhere hbulk h r
  have hspec := moves_settle hbulk
  obtain ⟨t', hupdate, hrows⟩ := t.update_ok
    (fun r hr hselected => checked_settle hbulk (t.consistent.checked r hr) hselected)
    hspec.id hspec.nonce hspec.action
    (fun r _ hselected _ => isOpen_of_moves (hspec.along r hselected))
  refine ⟨t', (t.rows.filter q.selects).map fun r => (settle target r).scan, ?_, hrows⟩
  simp only [moveApprovals, hbulk, h, hselects, hupdate]

theorem moveApprovals_does (jsonValid : GoString → Bool) (query : ApprovalQuery) (target : State)
    (q : Queue) : Does jsonValid q (run jsonValid (.moveApprovals query target) q).1
      (run jsonValid (.moveApprovals query target) q).2 := by
  cases hbulk : checkBulk query target with
  | error why =>
    rw [run_of_error (e := .invalid why) (by simp only [execute, moveApprovals, hbulk])]
    exact .refused _
  | ok =>
    cases hwhere : approvalWhere query.openByDefault with
    | error why =>
      rw [run_of_error (e := .invalid why)
        (by simp only [execute, moveApprovals, hbulk, hwhere])]
      exact .refused _
    | ok conditions =>
      obtain ⟨t', result, hmoved, hrows⟩ := moveApprovals_rows hbulk hwhere q.table
      have hexecute : execute jsonValid q.table (.moveApprovals query target) =
          (t', .ok result) := hmoved
      rw [run_of_ok hexecute]
      exact .moved (moves_settle hbulk) hrows

/-! ### A row is opened -/

theorem openApproval_does (jsonValid : GoString → Bool) (now : Time) (raw : Option GoString)
    (a : Approval) (q : Queue) : Does jsonValid q (run jsonValid (.openApproval now raw a) q).1
      (run jsonValid (.openApproval now raw a) q).2 := by
  cases hcheck : checkNew jsonValid a with
  | error why =>
    rw [run_of_error (e := .invalid why) (by simp only [execute, openApproval, hcheck])]
    exact .refused _
  | ok =>
    cases raw with
    | none =>
      rw [run_of_error (e := .makeNonce) (by simp only [execute, openApproval, hcheck])]
      exact .refused _
    | some raw =>
      cases hinsert : q.table.insert (newRow now raw a) with
      | ok t' =>
        rw [run_of_ok (t := t') (l := [(newRow now raw a).scan])
          (by simp only [execute, openApproval, hcheck, hinsert]), noted, List.append_nil]
        exact .opened (Table.rows_of_write hinsert)
      | error constraint =>
        cases htaken : openRowTaken q.table constraint a with
        | true =>
          rw [run_of_error (e := .openApprovalExists a.actorID a.actionHash)
            (by simp only [execute, openApproval, hcheck, hinsert, htaken, if_true])]
          exact .refused _
        | false =>
          rw [run_of_error (e := .openApproval a.id constraint)
            (by simp only [execute, openApproval, hcheck, hinsert, htaken,
              Bool.false_eq_true, if_false])]
          exact .refused _

theorem run_does (jsonValid : GoString → Bool) (call : Call) (q : Queue) :
    Does jsonValid q (run jsonValid call q).1 (run jsonValid call q).2 := by
  cases call with
  | openApproval now raw a => exact openApproval_does jsonValid now raw a q
  | moveApproval now id m => exact moveApproval_does jsonValid now id m q
  | moveApprovals query target => exact moveApprovals_does jsonValid query target q

end Persatrix.Society
