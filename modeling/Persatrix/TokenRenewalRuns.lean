import Persatrix.TokenRenewal

/-!
# The runs of a token's renewal

The keeper runs one registration of its own at most, and none after it gave up or was closed. A call
goes out twice at most, the second time with the token of a registration that was answered.
-/
namespace Persatrix.TokenRenewal
open Security

/-! ### The steps of the keeper -/

section Steps
variable {mac : Mac} {agentID : GoString} {s t : State} {e : Event}

theorem register_cases (s : State) :
    register s = s ∨
    s.keeper.closed = false ∧ s.keeper.revoked = none ∧ s.keeper.registering = none ∧
      register s = { s with
        registrations := s.registrations ++ [⟨true, none, false⟩]
        keeper := { s.keeper with
          answered := false
          registering := some s.registrations.length
          tasks := s.keeper.tasks ++ [s.registrations.length] } } := by
  unfold register
  split_ifs with h
  · exact .inl rfl
  · rw [not_or, Bool.not_eq_true, Bool.not_eq_true, Option.isSome_eq_false_iff,
      Option.isNone_iff_eq_none] at h
    cases hregistering : s.keeper.registering with
    | some k => exact .inl rfl
    | none => exact .inr ⟨h.1, h.2, rfl, rfl⟩

theorem register_of_over (h : s.keeper.closed = true ∨ s.keeper.revoked.isSome = true) :
    register s = s := if_pos h

@[simp] theorem register_token (s : State) : (register s).keeper.token = s.keeper.token := by
  rcases register_cases s with h | ⟨_, _, _, h⟩ <;> rw [h]

@[simp] theorem register_calls (s : State) : (register s).calls = s.calls := by
  rcases register_cases s with h | ⟨_, _, _, h⟩ <;> rw [h]

/-- A call that was refused or waits goes on. -/
def Phase.refusal : Phase → Bool
  | .refused _ => true
  | .waiting _ => true
  | _ => false

/-- What becomes of one call. -/
inductive CallStep (s : State) (c : Call) : Call → Prop
  | checked (wall running : ℤ) : c.phase = .sent → CallStep s c { c with
      phase := (refusalOf s c.used wall running).elim .ended fun revoked => .refused revoked }
  | dropped : CallStep s c { c with phase := .ended }
  | waits (k : ℕ) : c.phase.refusal = true → CallStep s c { c with phase := .waiting k }
  | resends : c.phase.refusal = true → CallStep s c (c.resend s.keeper.token)

/-- A refused call leaves the keeper alone, starts a registration, or makes the keeper give up. -/
theorem afterRefusal_cases (s : State) (i : ℕ) (c : Call) (revoked : Bool)
    (hphase : c.phase.refusal = true) :
    ∃ u c', afterRefusal s i c revoked = { u with calls := s.calls.set i c' } ∧ CallStep s c c' ∧
      (u = s ∨ u = register s ∨
        s.keeper.token = some c.used ∧ revoked = true ∧ s.keeper.answered = true ∧
          s.keeper.closed = false ∧
          u = { s with keeper := { s.keeper with revoked := s.keeper.token } }) := by
  unfold afterRefusal
  by_cases htoken : s.keeper.token = some c.used
  · rw [if_pos htoken]
    dsimp only
    by_cases hstop : revoked = true ∧ s.keeper.answered = true
    · rw [if_pos hstop]
      by_cases hover : s.keeper.closed = true ∨ s.keeper.revoked.isSome = true
      · have hsame : stopRegistering s = s := if_pos hover
        rw [hsame, register_of_over hover, if_pos hover]
        exact ⟨s, _, rfl, .resends hphase, .inl rfl⟩
      · have hstopped : stopRegistering s =
            { s with keeper := { s.keeper with revoked := s.keeper.token } } := if_neg hover
        have hgone : (stopRegistering s).keeper.closed = true ∨
            (stopRegistering s).keeper.revoked.isSome = true := by
          rw [hstopped, htoken]
          exact .inr rfl
        rw [register_of_over hgone, if_pos hgone, hstopped]
        refine ⟨_, _, rfl, .resends hphase, .inr (.inr ⟨htoken, hstop.1, hstop.2, ?_, rfl⟩)⟩
        rw [not_or, Bool.not_eq_true] at hover
        exact hover.1
    · rw [if_neg hstop, register_token, register_calls]
      split_ifs
      · exact ⟨_, _, rfl, .resends hphase, .inr (.inl rfl)⟩
      · split
        · next k _ => exact ⟨_, _, rfl, .waits k hphase, .inr (.inl rfl)⟩
        · exact ⟨_, _, rfl, .resends hphase, .inr (.inl rfl)⟩
  · rw [if_neg htoken]
    exact ⟨s, _, rfl, .resends hphase, .inl rfl⟩

/-- What is issued or revoked for others leaves the agent's entry, or drops it. -/
theorem lookup_issue_other {t : AgentTokenIssuer} {id : GoString} {wall running : ℤ}
    (hid : id ≠ agentID) {state : AgentTokenState}
    (h : (t.issue mac id wall running).1.agents.lookup agentID = some state) :
    t.agents.lookup agentID = some state := by
  unfold AgentTokenIssuer.issue at h
  split_ifs at h with hissuable
  · exact h
  · dsimp only at h
    rw [GoMap.lookup_insert, if_neg hid.symm] at h
    split_ifs at h
    · dsimp only [AgentTokenIssuer.forgetExpired] at h
      rw [GoMap.lookup_deleteIf] at h
      exact (Option.filter_eq_some_iff.mp h).1
    · exact h

theorem lookup_revoke_other {t : AgentTokenIssuer} {id : GoString} (hid : id ≠ agentID) :
    (t.revoke id).agents.lookup agentID = t.agents.lookup agentID := by
  unfold AgentTokenIssuer.revoke
  split
  · rw [GoMap.lookup_insert, if_neg hid.symm]
  · rfl

/-- What a step can do. -/
inductive Move (mac : Mac) (agentID : GoString) (s : State) : Event → State → Prop
  | start : Move mac agentID s .start { s with
      registrations := s.registrations ++ [⟨true, none, false⟩]
      starting := some s.registrations.length }
  | started : Move mac agentID s .started { s with starting := none, started := true }
  | reconnect : Move mac agentID s .reconnect (register s)
  | call (token : Token) : s.keeper.token = some token →
      Move mac agentID s .call { s with calls := s.calls ++ [⟨token, none, 1, .sent⟩] }
  | calls (e : Event) (i : ℕ) (c c' : Call) : e ≠ .start → s.calls[i]? = some c →
      CallStep s c c' → Move mac agentID s e { s with calls := s.calls.set i c' }
  | registers (i : ℕ) (c c' : Call) : s.calls[i]? = some c → CallStep s c c' →
      Move mac agentID s (.settle i) { register s with calls := s.calls.set i c' }
  | stops (i : ℕ) (c c' : Call) : s.calls[i]? = some c → CallStep s c c' →
      c.phase = .refused true → s.keeper.token = some c.used → s.keeper.answered = true →
      s.keeper.closed = false → Move mac agentID s (.settle i) { s with
        keeper := { s.keeper with revoked := s.keeper.token }
        calls := s.calls.set i c' }
  | close : Move mac agentID s .close { s with keeper := { s.keeper with closed := true } }
  | enroll (k : ℕ) (r : Registration) (wall running : ℤ) : s.registrations[k]? = some r →
      r.pending = true →
      Move mac agentID s (.enroll k wall running) (enroll mac agentID s k r wall running)
  | lose (k : ℕ) (r : Registration) : s.registrations[k]? = some r →
      Move mac agentID s (.lose k) { s with
        registrations := s.registrations.set k { r with pending := false } }
  | answer (k : ℕ) (a : Answer) (r : Registration) : s.registrations[k]? = some r →
      Move mac agentID s (.answer k a) { s with
        registrations := s.registrations.set k { r with answered := true }
        keeper := { s.keeper with
          token := keepFrom s.keeper.token r.issued a
          answered := true } }
  | finish (k : ℕ) : k ∈ s.keeper.tasks → Move mac agentID s (.finish k) { s with
      keeper := { s.keeper with
        tasks := s.keeper.tasks.erase k
        registering := none } }
  | deregister (e : Event) (deed : Deed) : e ≠ .start →
      deed = .deregister ∨ deed = .leave ∧ s.keeper.closed = true →
      Move mac agentID s e (deregister agentID s deed)
  | restart : Move mac agentID s .restart
      { s with epoch := s.epoch + 1, issuer := {}, registered := false }
  | others (e : Event) (issuer : AgentTokenIssuer) : e ≠ .start →
      (∀ state, issuer.agents.lookup agentID = some state →
        s.issuer.agents.lookup agentID = some state) →
      Move mac agentID s e { s with issuer }

theorem step_move (h : step mac agentID s e = some t) : Move mac agentID s e t := by
  cases e with
  | start =>
    dsimp only [step] at h
    split_ifs at h
    cases h
    exact .start
  | started =>
    obtain ⟨_, _, rfl⟩ := Option.map_eq_some_iff.mp h
    exact .started
  | reconnect =>
    dsimp only [step] at h
    split_ifs at h
    cases h
    exact .reconnect
  | call =>
    obtain ⟨token, htoken, rfl⟩ := Option.map_eq_some_iff.mp h
    exact .call token htoken
  | check i wall running =>
    obtain ⟨c, hc, h⟩ := Option.bind_eq_some_iff.mp h
    split_ifs at h with hphase
    cases h
    exact .calls _ i c _ nofun hc (.checked wall running hphase)
  | drop i =>
    obtain ⟨c, hc, rfl⟩ := Option.map_eq_some_iff.mp h
    exact .calls _ i c _ nofun hc .dropped
  | settle i =>
    obtain ⟨c, hc, h⟩ := Option.bind_eq_some_iff.mp h
    split at h
    · next revoked hphase =>
        cases h
        have hrefusal : c.phase.refusal = true := by rw [hphase]; rfl
        obtain ⟨u, c', heq, hstep, rfl | rfl | ⟨htoken, rfl, hanswered, hclosed, rfl⟩⟩ :=
          afterRefusal_cases s i c revoked hrefusal
        · rw [heq]
          exact .calls _ i c c' nofun hc hstep
        · rw [heq]
          exact .registers i c c' hc hstep
        · rw [heq]
          exact .stops i c c' hc hstep hphase htoken hanswered hclosed
    · cases h
  | resume i =>
    obtain ⟨c, hc, h⟩ := Option.bind_eq_some_iff.mp h
    split at h
    · next k hphase =>
        split_ifs at h
        cases h
        refine .calls _ i c _ nofun hc (.resends ?_)
        rw [hphase]
        rfl
    · cases h
  | close =>
    cases h
    exact .close
  | enroll k wall running =>
    obtain ⟨r, hr, h⟩ := Option.bind_eq_some_iff.mp h
    split_ifs at h with hpending
    cases h
    exact .enroll k r wall running hr hpending
  | lose k =>
    obtain ⟨r, hr, rfl⟩ := Option.map_eq_some_iff.mp h
    exact .lose k r hr
  | answer k a =>
    obtain ⟨r, hr, h⟩ := Option.bind_eq_some_iff.mp h
    split_ifs at h
    cases h
    exact .answer k a r hr
  | finish k =>
    dsimp only [step] at h
    split_ifs at h with hk
    cases h
    exact .finish k hk
  | deregister =>
    cases h
    exact .deregister _ _ nofun (.inl rfl)
  | leave =>
    dsimp only [step] at h
    split_ifs at h with hclosed
    cases h
    exact .deregister _ _ nofun (.inr ⟨rfl, hclosed.1⟩)
  | restart =>
    cases h
    exact .restart
  | enrollOther id wall running =>
    dsimp only [step] at h
    split_ifs at h with hid
    cases h
    exact .others _ _ nofun fun _ => lookup_issue_other hid
  | deregisterOther id =>
    dsimp only [step] at h
    split_ifs at h with hid
    cases h
    refine .others _ _ nofun fun _ hlookup => ?_
    rwa [lookup_revoke_other hid] at hlookup

@[simp] theorem enroll_keeper (s : State) (k : ℕ) (r : Registration) (wall running : ℤ) :
    (enroll mac agentID s k r wall running).keeper = s.keeper := by
  unfold enroll
  split <;> rfl

@[simp] theorem enroll_calls (s : State) (k : ℕ) (r : Registration) (wall running : ℤ) :
    (enroll mac agentID s k r wall running).calls = s.calls := by
  unfold enroll
  split <;> rfl

/-- The registration that is worked off is no longer pending, and may have a token. -/
theorem enroll_registrations (s : State) (k : ℕ) (r : Registration) (wall running : ℤ) :
    ∃ issued, (enroll mac agentID s k r wall running).registrations =
      s.registrations.set k { r with pending := false, issued } := by
  unfold enroll
  split
  · exact ⟨_, rfl⟩
  · exact ⟨r.issued, rfl⟩

theorem deregister_eq (s : State) (deed : Deed) : deregister agentID s deed = s ∨
    deregister agentID s deed = { s with
      issuer := s.issuer.revoke agentID
      registered := false
      log := s.log ++ [deed] } := by
  unfold deregister
  split_ifs
  · exact .inr rfl
  · exact .inl rfl

@[simp] theorem deregister_keeper (s : State) (deed : Deed) :
    (deregister agentID s deed).keeper = s.keeper := by
  rcases deregister_eq s deed with h | h <;> rw [h]

@[simp] theorem deregister_registrations (s : State) (deed : Deed) :
    (deregister agentID s deed).registrations = s.registrations := by
  rcases deregister_eq s deed with h | h <;> rw [h]

@[simp] theorem deregister_calls (s : State) (deed : Deed) :
    (deregister agentID s deed).calls = s.calls := by
  rcases deregister_eq s deed with h | h <;> rw [h]

/-! ### One registration at a time -/

/-- The registration that `_registering` names is the only one that runs. -/
def Alone (keeper : AgentTokenKeeper) : Prop := keeper.tasks = keeper.registering.toList

theorem Alone.move (hs : Alone s.keeper) (h : Move mac agentID s e t) : Alone t.keeper := by
  have hregister : Alone (register s).keeper := by
    rcases register_cases s with h | ⟨_, _, hnone, h⟩
    · rw [h]
      exact hs
    · unfold Alone at hs ⊢
      rw [h, hs, hnone]
      rfl
  cases h with
  | reconnect => exact hregister
  | registers => exact hregister
  | enroll k r wall running =>
    rw [enroll_keeper]
    exact hs
  | deregister =>
    rw [deregister_keeper]
    exact hs
  | finish k hk =>
    unfold Alone at hs ⊢
    dsimp only
    rw [hs, Option.mem_toList] at hk
    rw [hs, hk]
    exact List.erase_cons_head k []
  | _ => exact hs

theorem Alone.length_le {keeper : AgentTokenKeeper} (h : Alone keeper) :
    keeper.tasks.length ≤ 1 := by
  rw [show keeper.tasks = _ from h]
  cases keeper.registering with
  | none => exact Nat.zero_le 1
  | some k => exact le_refl 1

/-! ### No registration after the end -/

/-- The keeper gave up, or is closed. -/
def Ended (keeper : AgentTokenKeeper) : Prop :=
  keeper.closed = true ∨ keeper.revoked.isSome = true

theorem Ended.move (hs : Ended s.keeper) (h : Move mac agentID s e t) :
    Ended t.keeper ∧ t.keeper.tasks ⊆ s.keeper.tasks ∧
      (e ≠ .start → t.registrations.length = s.registrations.length) := by
  have hsame : register s = s := register_of_over hs
  cases h with
  | start => exact ⟨hs, List.Subset.refl _, fun hne => absurd rfl hne⟩
  | reconnect =>
    rw [hsame]
    exact ⟨hs, List.Subset.refl _, fun _ => rfl⟩
  | registers i c c' =>
    rw [hsame]
    exact ⟨hs, List.Subset.refl _, fun _ => rfl⟩
  | stops i c c' hc hstep hphase htoken =>
    refine ⟨.inr ?_, List.Subset.refl _, fun _ => rfl⟩
    rw [htoken]
    rfl
  | close => exact ⟨.inl rfl, List.Subset.refl _, fun _ => rfl⟩
  | enroll k r wall running =>
    obtain ⟨issued, hregistrations⟩ :=
      @enroll_registrations mac agentID s k r wall running
    rw [enroll_keeper, hregistrations]
    exact ⟨hs, List.Subset.refl _, fun _ => List.length_set⟩
  | lose k r => exact ⟨hs, List.Subset.refl _, fun _ => List.length_set⟩
  | answer k a r => exact ⟨hs, List.Subset.refl _, fun _ => List.length_set⟩
  | finish k => exact ⟨hs, List.erase_subset, fun _ => rfl⟩
  | deregister =>
    rw [deregister_keeper, deregister_registrations]
    exact ⟨hs, List.Subset.refl _, fun _ => rfl⟩
  | _ => exact ⟨hs, List.Subset.refl _, fun _ => rfl⟩

theorem Ended.run (hs : Ended s.keeper) {run : List Event}
    (h : (system mac agentID).execFrom s run = some t) :
    t.keeper.tasks ⊆ s.keeper.tasks ∧
      (.start ∉ run → t.registrations.length = s.registrations.length) := by
  induction run generalizing s with
  | nil =>
    cases h
    exact ⟨List.Subset.refl _, fun _ => rfl⟩
  | cons e run ih =>
    obtain ⟨u, hu, ht⟩ := Option.bind_eq_some_iff.mp h
    obtain ⟨hended, htasks, hlength⟩ := hs.move (step_move hu)
    obtain ⟨htasks', hlength'⟩ := ih hended ht
    refine ⟨fun k hk => htasks (htasks' hk), fun hstart => ?_⟩
    rw [List.mem_cons, not_or] at hstart
    rw [hlength' hstart.2, hlength (Ne.symm hstart.1)]

/-! ### A call goes out twice at most -/

/-- The token is of a registration whose answer was taken. -/
def Answered (registrations : List Registration) (token : Token) : Prop :=
  ∃ r ∈ registrations, r.issued = some token ∧ r.answered = true

/-- The call was sent once, or again with a token that is newer. -/
def Once (registrations : List Registration) (c : Call) : Prop :=
  c.sends = 1 ∧ c.phase ≠ .resent ∨
    c.sends = 2 ∧ (c.phase = .resent ∨ c.phase = .ended) ∧
      ∃ token, c.newer = some token ∧ token ≠ c.used ∧ Answered registrations token

structure Shown (s : State) : Prop where
  issued : ∀ r ∈ s.registrations, r.issued.isSome = true → r.pending = false
  held : ∀ token, s.keeper.token = some token → Answered s.registrations token
  once : ∀ c ∈ s.calls, Once s.registrations c

/-- A registration keeps the token that was issued for it, and that an answer was taken. -/
structure Continues (r r' : Registration) : Prop where
  issued : ∀ token, r.issued = some token → r'.issued = some token
  answered : r.answered = true → r'.answered = true

theorem Answered.append {registrations : List Registration} {token : Token}
    (h : Answered registrations token) (l : List Registration) :
    Answered (registrations ++ l) token := by
  obtain ⟨r, hr, hissued⟩ := h
  exact ⟨r, List.mem_append_left _ hr, hissued⟩

theorem Answered.set {registrations : List Registration} {token : Token} {k : ℕ}
    {r r' : Registration} (h : Answered registrations token) (hr : registrations[k]? = some r)
    (hnext : Continues r r') : Answered (registrations.set k r') token := by
  obtain ⟨q, hq, hissued, hanswered⟩ := h
  obtain ⟨j, hj⟩ := List.mem_iff_getElem?.mp hq
  by_cases hjk : k = j
  · subst hjk
    rw [hr] at hj
    cases hj
    exact ⟨r', List.mem_set (List.getElem?_eq_some_iff.mp hr).1 r', hnext.issued _ hissued,
      hnext.answered hanswered⟩
  · refine ⟨q, List.mem_iff_getElem?.mpr ⟨j, ?_⟩, hissued, hanswered⟩
    rw [List.getElem?_set_ne hjk]
    exact hj

theorem Once.mono {registrations registrations' : List Registration} {c : Call}
    (h : Once registrations c)
    (hmono : ∀ token, Answered registrations token → Answered registrations' token) :
    Once registrations' c := by
  rcases h with hfirst | ⟨hsends, hphase, token, hnewer, hne, hanswered⟩
  · exact .inl hfirst
  · exact .inr ⟨hsends, hphase, token, hnewer, hne, hmono token hanswered⟩

theorem Once.first {registrations : List Registration} {c : Call} (h : Once registrations c)
    (hresent : c.phase ≠ .resent) (hended : c.phase ≠ .ended) : c.sends = 1 := by
  rcases h with hfirst | ⟨_, hphase, _⟩
  · exact hfirst.1
  · rcases hphase with hphase | hphase
    · exact absurd hphase hresent
    · exact absurd hphase hended

/-- A call goes out again only from a refusal, with the token that is held. -/
theorem Shown.callStep (hs : Shown s) {c c' : Call} (hc : c ∈ s.calls) (h : CallStep s c c') :
    Once s.registrations c' := by
  have honce := hs.once c hc
  have hrefused (hrefusal : c.phase.refusal = true) : c.sends = 1 := by
    apply honce.first <;> intro hphase <;> rw [hphase] at hrefusal <;> cases hrefusal
  cases h with
  | checked wall running hphase =>
    refine .inl ⟨honce.first (by rw [hphase]; nofun) (by rw [hphase]; nofun), ?_⟩
    dsimp only
    cases refusalOf s c.used wall running with
    | none => nofun
    | some revoked => nofun
  | dropped =>
    rcases honce with ⟨hsends, _⟩ | ⟨hsends, _, hnewer⟩
    · exact .inl ⟨hsends, nofun⟩
    · exact .inr ⟨hsends, .inr rfl, hnewer⟩
  | waits k hrefusal => exact .inl ⟨hrefused hrefusal, nofun⟩
  | resends hrefusal =>
    have hsends := hrefused hrefusal
    unfold Call.resend
    split
    · next token htoken =>
        split_ifs with hsame
        · exact .inl ⟨hsends, nofun⟩
        · refine .inr ⟨?_, .inl rfl, token, rfl, hsame, hs.held token htoken⟩
          dsimp only
          rw [hsends]
    · exact .inl ⟨hsends, nofun⟩

theorem forall_mem_set {α : Type} {l : List α} {P : α → Prop} (h : ∀ x ∈ l, P x) {i : ℕ} {y : α}
    (hy : P y) : ∀ x ∈ l.set i y, P x := by
  intro x hx
  rcases List.mem_or_eq_of_mem_set hx with hx | rfl
  · exact h x hx
  · exact hy

theorem Shown.setCall (hs : Shown s) {i : ℕ} {c c' : Call} (hc : s.calls[i]? = some c)
    (h : CallStep s c c') : ∀ x ∈ s.calls.set i c', Once s.registrations x :=
  forall_mem_set hs.once (hs.callStep (List.mem_of_getElem? hc) h)

/-- One more registration starts. -/
theorem Shown.fresh (hs : Shown s) (keeper : AgentTokenKeeper) (starting : Option ℕ)
    (htoken : keeper.token = s.keeper.token) : Shown { s with
      registrations := s.registrations ++ [⟨true, none, false⟩]
      keeper
      starting } where
  issued r hr hissued := by
    rcases List.mem_append.mp hr with hr | hr
    · exact hs.issued r hr hissued
    · cases List.mem_singleton.mp hr
      cases hissued
  held token htoken' := (hs.held token (htoken.symm.trans htoken')).append _
  once c hc := (hs.once c hc).mono fun _ h => h.append _

theorem Shown.register (hs : Shown s) : Shown (register s) := by
  rcases register_cases s with h | ⟨_, _, _, h⟩
  · rw [h]
    exact hs
  · rw [h]
    exact hs.fresh _ _ rfl

/-- What is known of one registration changes. -/
theorem Shown.setRegistration (hs : Shown s) {k : ℕ} {r r' : Registration}
    (hr : s.registrations[k]? = some r) (hnext : Continues r r')
    (hissued : r'.issued.isSome = true → r'.pending = false)
    (hregistrations : t.registrations = s.registrations.set k r')
    (htoken : t.keeper.token = s.keeper.token) (hcalls : t.calls = s.calls) : Shown t where
  issued := by
    rw [hregistrations]
    exact forall_mem_set hs.issued hissued
  held token := by
    rw [htoken, hregistrations]
    exact fun h => (hs.held token h).set hr hnext
  once := by
    rw [hcalls, hregistrations]
    exact fun c hc => (hs.once c hc).mono fun _ h => h.set hr hnext

theorem register_setCalls (s : State) (calls : List Call) :
    register { s with calls } = { register s with calls } := by
  unfold register
  split_ifs
  · rfl
  · dsimp only
    cases s.keeper.registering <;> rfl

theorem Shown.move (hs : Shown s) (h : Move mac agentID s e t) : Shown t := by
  cases h with
  | start => exact hs.fresh _ _ rfl
  | started => exact ⟨hs.issued, hs.held, hs.once⟩
  | reconnect => exact hs.register
  | call token =>
    refine ⟨hs.issued, hs.held, fun c hc => ?_⟩
    rcases List.mem_append.mp hc with hc | hc
    · exact hs.once c hc
    · cases List.mem_singleton.mp hc
      exact .inl ⟨rfl, nofun⟩
  | calls _ i c c' _ hc hstep => exact ⟨hs.issued, hs.held, hs.setCall hc hstep⟩
  | registers i c c' hc hstep =>
    rw [← register_setCalls]
    exact Shown.register ⟨hs.issued, hs.held, hs.setCall hc hstep⟩
  | stops i c c' hc hstep => exact ⟨hs.issued, hs.held, hs.setCall hc hstep⟩
  | close => exact ⟨hs.issued, hs.held, hs.once⟩
  | enroll k r wall running hr hpending =>
    obtain ⟨issued, hregistrations⟩ :=
      @enroll_registrations mac agentID s k r wall running
    have hnext : Continues r { r with pending := false, issued } := by
      refine ⟨fun token hissued => ?_, fun h => h⟩
      have hold := hs.issued r (List.mem_of_getElem? hr) (by rw [hissued]; rfl)
      rw [hpending] at hold
      cases hold
    exact hs.setRegistration hr hnext (fun _ => rfl) hregistrations (by rw [enroll_keeper])
      (enroll_calls s k r wall running)
  | lose k r hr =>
    have hnext : Continues r { r with pending := false } := ⟨fun _ h => h, fun h => h⟩
    exact hs.setRegistration hr hnext (fun _ => rfl) rfl rfl rfl
  | answer k a r hr =>
    have hnext : Continues r { r with answered := true } := ⟨fun _ h => h, fun _ => rfl⟩
    have hissued := hs.issued r (List.mem_of_getElem? hr)
    have hshown : Shown { s with registrations := s.registrations.set k { r with answered := true } } :=
      hs.setRegistration hr hnext hissued rfl rfl rfl
    refine ⟨hshown.issued, fun token htoken => ?_, hshown.once⟩
    cases a with
    | token =>
      exact ⟨_, List.mem_set (List.getElem?_eq_some_iff.mp hr).1 _, htoken, rfl⟩
    | bare => cases htoken
    | refusal => exact hshown.held token htoken
  | finish k => exact ⟨hs.issued, hs.held, hs.once⟩
  | deregister _ deed =>
    rcases @deregister_eq agentID s deed with h | h <;> rw [h]
    · exact hs
    · exact ⟨hs.issued, hs.held, hs.once⟩
  | restart => exact ⟨hs.issued, hs.held, hs.once⟩
  | others => exact ⟨hs.issued, hs.held, hs.once⟩

theorem alone_of_reachable (h : (system mac agentID).Reachable s) : Alone s.keeper := by
  refine h.invariant (I := fun s => Alone s.keeper) ?_ fun _ _ _ hs hstep => ?_
  · rfl
  · exact Alone.move hs (step_move hstep)

theorem shown_of_reachable (h : (system mac agentID).Reachable s) : Shown s := by
  refine h.invariant ⟨?_, ?_, ?_⟩ fun _ _ _ hs hstep => hs.move (step_move hstep)
  · exact fun _ hr => absurd hr List.not_mem_nil
  · exact fun _ htoken => by cases htoken
  · exact fun _ hc => absurd hc List.not_mem_nil

end Steps

end Persatrix.TokenRenewal
