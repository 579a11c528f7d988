import Persatrix.AgentTokenRuns
import Persatrix.TokenRenewalRuns

/-!
# What makes a keeper give up

A keeper gives up when a call is refused for a revoked token while it believes that every
registration was answered. An operator deregistered the agent then, unless a registration was worked
off that the keeper had given up on.
-/
namespace Persatrix.TokenRenewal
open Security

/-! ### What was done after a token was issued -/

/-- What was done to the agent's tokens after this one was issued. -/
def after (token : Token) : List Deed → List Deed
  | [] => []
  | d :: log => if d = .issue token then log else after token log

/-- The deed retires the earlier tokens of the issuer. -/
def Deed.retires (issuer : ℕ) : Deed → Bool
  | .issue token => token.issuer = issuer
  | _ => false

/-- A later token of the same issuer was issued. -/
def retired (log : List Deed) (token : Token) : Bool :=
  (after token log).any fun d => d.retires token.issuer

/-- The token is refused as revoked: it is retired, or the agent was deregistered. -/
def Withdrawn (log : List Deed) (token : Token) : Prop :=
  retired log token = true ∨ .deregister ∈ after token log ∨ .leave ∈ after token log

section After
variable {token : Token} {log : List Deed}

theorem after_append (h : .issue token ∈ log) (l : List Deed) :
    after token (log ++ l) = after token log ++ l := by
  induction log with
  | nil => cases h
  | cons d log ih =>
    rw [List.cons_append]
    unfold after
    split_ifs with hd
    · rfl
    · rcases List.mem_cons.mp h with heq | h
      · exact absurd heq.symm hd
      · exact ih h

theorem exists_eq_after (h : .issue token ∈ log) :
    ∃ a, log = a ++ .issue token :: after token log := by
  induction log with
  | nil => cases h
  | cons d log ih =>
    unfold after
    split_ifs with hd
    · exact ⟨[], by rw [hd]; rfl⟩
    · rcases List.mem_cons.mp h with heq | h
      · exact absurd heq.symm hd
      · obtain ⟨a, ha⟩ := ih h
        exact ⟨d :: a, congrArg (d :: ·) ha⟩

theorem retired_append (h : .issue token ∈ log) (l : List Deed) :
    retired (log ++ l) token = (retired log token || l.any fun d => d.retires token.issuer) := by
  unfold retired
  rw [after_append h, List.any_append]

theorem Withdrawn.append (hw : Withdrawn log token) (h : .issue token ∈ log) (l : List Deed) :
    Withdrawn (log ++ l) token := by
  unfold Withdrawn
  rw [retired_append h, after_append h]
  rcases hw with hretired | hgone | hleft
  · exact .inl (by rw [hretired]; rfl)
  · exact .inr (.inl (List.mem_append_left _ hgone))
  · exact .inr (.inr (List.mem_append_left _ hleft))

end After

/-! ### The runs whose registrations are not worked off late -/

/-- A serial is left for the registration that is worked off, and the keeper does not hold a token
that it retires while it believes that every registration was answered. An answer does not leave the
keeper with a token that was retired. -/
def inTurn (s : State) : Event → Bool
  | .enroll _ _ _ =>
    (s.issuer.serial + 1) % 2 ^ 64 ≠ 0 &&
      !(s.keeper.answered && s.keeper.token.any fun token => token.issuer = s.epoch)
  | .answer k a =>
    s.registrations[k]?.all fun r => (keepFrom s.keeper.token r.issued a).all fun token =>
      !retired s.log token
  | _ => true

/-- What the orchestrator refuses as revoked was withdrawn, and what the keeper believes is so. -/
structure Sound (agentID : GoString) (s : State) : Prop where
  named : ∀ token, .issue token ∈ s.log → token.payload.agentID = agentID
  revoked : ∀ token, .issue token ∈ s.log → token.issuer = s.epoch →
    ∀ state, s.issuer.agents.lookup agentID = some state →
      token.payload.serial ≤ state.revokedThrough → Withdrawn s.log token
  left : .leave ∈ s.log → s.keeper.closed = true
  issued : ∀ r ∈ s.registrations, ∀ token, r.issued = some token → .issue token ∈ s.log
  held : ∀ token, s.keeper.token = some token → .issue token ∈ s.log ∧
    (s.keeper.answered = true → retired s.log token = false)
  used : ∀ c ∈ s.calls, .issue c.used ∈ s.log ∧
    (c.phase = .refused true → Withdrawn s.log c.used)
  gaveUp : ∀ token, s.keeper.revoked = some token →
    .issue token ∈ s.log ∧ .deregister ∈ after token s.log

section Sound
variable {mac : Mac} {agentID : GoString} {s t : State} {e : Event}

theorem Sound.init : Sound agentID (system mac agentID).init where
  named _ h := by cases h
  revoked _ h := by cases h
  left h := by cases h
  issued _ h := by cases h
  held _ h := by cases h
  used _ h := by cases h
  gaveUp _ h := by cases h

/-- The check of a token tells of a revocation only when the token was withdrawn. -/
theorem Sound.withdrawn (hs : Sound agentID s) {token : Token} (hissue : .issue token ∈ s.log)
    (wall running : ℤ) (h : refusalOf s token wall running = some true) :
    Withdrawn s.log token := by
  unfold refusalOf at h
  split_ifs at h with hissuer
  · cases h
  · unfold AgentTokenIssuer.judge at h
    rw [hs.named token hissue] at h
    have hexpired : errAgentTokenExpired ≠ errAgentTokenRevoked := by decide
    have hinvalid : errAgentTokenInvalid ≠ errAgentTokenRevoked := by decide
    split at h
    · cases h
    · next error hrefusal =>
        have hrevoked : error = errAgentTokenRevoked := of_decide_eq_true (Option.some.inj h)
        cases hlookup : s.issuer.agents.lookup agentID with
        | none =>
          rw [hlookup] at hrefusal
          dsimp only at hrefusal
          split_ifs at hrefusal
          · exact absurd ((Except.error.inj hrefusal).trans hrevoked) hexpired
          · exact absurd ((Except.error.inj hrefusal).trans hrevoked) hinvalid
        | some state =>
          rw [hlookup] at hrefusal
          dsimp only at hrefusal
          split_ifs at hrefusal with hserial
          · exact hs.revoked token hissue (not_not.mp hissuer) state hlookup hserial
          · exact absurd ((Except.error.inj hrefusal).trans hrevoked) hexpired

/-- A call that was refused as revoked shows a token that was withdrawn. -/
theorem Sound.callStep (hs : Sound agentID s) {c c' : Call} (hc : c ∈ s.calls)
    (h : CallStep s c c') : .issue c'.used ∈ s.log ∧
      (c'.phase = .refused true → Withdrawn s.log c'.used) := by
  obtain ⟨hissue, hwithdrawn⟩ := hs.used c hc
  cases h with
  | checked wall running _ =>
    refine ⟨hissue, fun hphase => hs.withdrawn hissue wall running ?_⟩
    dsimp only at hphase
    cases hrefusal : refusalOf s c.used wall running with
    | none =>
      rw [hrefusal] at hphase
      cases hphase
    | some revoked =>
      rw [hrefusal] at hphase
      cases hphase
      rfl
  | dropped => exact ⟨hissue, nofun⟩
  | waits k _ => exact ⟨hissue, nofun⟩
  | resends _ =>
    unfold Call.resend
    split
    · split_ifs
      · exact ⟨hissue, nofun⟩
      · exact ⟨hissue, nofun⟩
    · exact ⟨hissue, nofun⟩

theorem Sound.setCall (hs : Sound agentID s) {i : ℕ} {c c' : Call} (hc : s.calls[i]? = some c)
    (h : CallStep s c c') : Sound agentID { s with calls := s.calls.set i c' } :=
  { hs with used := forall_mem_set hs.used (hs.callStep (List.mem_of_getElem? hc) h) }

theorem Sound.fresh (hs : Sound agentID s) (keeper : AgentTokenKeeper) (starting : Option ℕ)
    (htoken : keeper.token = s.keeper.token) (hanswered : keeper.answered = true → s.keeper.answered = true)
    (hclosed : keeper.closed = s.keeper.closed) (hrevoked : keeper.revoked = s.keeper.revoked) :
    Sound agentID { s with
      registrations := s.registrations ++ [⟨true, none, false⟩]
      keeper
      starting } where
  named := hs.named
  revoked := hs.revoked
  left h := hclosed.trans (hs.left h)
  issued r hr token hissued := by
    rcases List.mem_append.mp hr with hr | hr
    · exact hs.issued r hr token hissued
    · cases List.mem_singleton.mp hr
      cases hissued
  held token h := by
    obtain ⟨hissue, hretired⟩ := hs.held token (htoken.symm.trans h)
    exact ⟨hissue, fun hnow => hretired (hanswered hnow)⟩
  used := hs.used
  gaveUp token h := hs.gaveUp token (hrevoked.symm.trans h)

theorem Sound.register (hs : Sound agentID s) : Sound agentID (register s) := by
  rcases register_cases s with h | ⟨_, _, _, h⟩
  · rw [h]
    exact hs
  · rw [h]
    exact hs.fresh _ _ rfl nofun rfl rfl

theorem Sound.deregister (hs : Sound agentID s) {deed : Deed}
    (hdeed : deed = .deregister ∨ deed = .leave ∧ s.keeper.closed = true) :
    Sound agentID (deregister agentID s deed) := by
  have hissued : ∀ token, .issue token ∈ s.log ++ [deed] → .issue token ∈ s.log := by
    intro token h
    rcases List.mem_append.mp h with h | h
    · exact h
    · rcases hdeed with rfl | ⟨rfl, _⟩ <;> cases List.mem_singleton.mp h
  have hretires : ∀ issuer, [deed].any (fun d => d.retires issuer) = false := by
    rcases hdeed with rfl | ⟨rfl, _⟩ <;> exact fun _ => rfl
  rcases @deregister_eq agentID s deed with h | h <;> rw [h]
  · exact hs
  · exact {
      named := fun token h => hs.named token (hissued token h)
      revoked := by
        intro token h _ _ _ _
        unfold Withdrawn
        rw [after_append (hissued token h)]
        rcases hdeed with rfl | ⟨rfl, _⟩
        · exact .inr (.inl (List.mem_append_right _ (List.mem_singleton_self _)))
        · exact .inr (.inr (List.mem_append_right _ (List.mem_singleton_self _)))
      left := by
        intro h
        rcases List.mem_append.mp h with h | h
        · exact hs.left h
        · rcases hdeed with rfl | ⟨_, hclosed⟩
          · cases List.mem_singleton.mp h
          · exact hclosed
      issued := fun r hr token h => List.mem_append_left _ (hs.issued r hr token h)
      held := by
        intro token h
        obtain ⟨hissue, hretired⟩ := hs.held token h
        refine ⟨List.mem_append_left _ hissue, fun hanswered => ?_⟩
        rw [retired_append hissue, hretired hanswered, hretires]
        rfl
      used := fun c hc => ⟨List.mem_append_left _ (hs.used c hc).1,
        fun hphase => ((hs.used c hc).2 hphase).append (hs.used c hc).1 _⟩
      gaveUp := by
        intro token h
        obtain ⟨hissue, hgone⟩ := hs.gaveUp token h
        rw [after_append hissue]
        exact ⟨List.mem_append_left _ hissue, List.mem_append_left _ hgone⟩ }

/-- Who registers has a new token, and the earlier ones are refused. -/
theorem lookup_of_issue {t issuer : AgentTokenIssuer} {wall running : ℤ}
    {result : GoString × AgentTokenClaims}
    (h : t.issue mac agentID wall running = (issuer, .ok result)) :
    (issuer.agents.lookup agentID).map AgentTokenState.revokedThrough =
      some (uint64 ((t.nextPayload agentID wall running).serial - 1)) := by
  unfold AgentTokenIssuer.issue at h
  split_ifs at h
  · cases h
  · have hissuer := (Prod.ext_iff.mp h).1
    dsimp only at hissuer
    rw [← hissuer, GoMap.lookup_insert, if_pos rfl]
    rfl

theorem uint64_pred {n : ℕ} (hpos : n ≠ 0) (hfits : n < 2 ^ 64) :
    uint64 ((n : ℤ) - 1) = n - 1 := by
  unfold uint64
  omega

theorem Sound.issue (hs : Sound agentID s) {k : ℕ} {r : Registration} {token : Token}
    {issuer : AgentTokenIssuer} (hagent : token.payload.agentID = agentID)
    (hepoch : token.issuer = s.epoch)
    (hheld : s.keeper.answered = true → ∀ held, s.keeper.token = some held →
      held.issuer ≠ s.epoch)
    (hlookup : ∀ state, issuer.agents.lookup agentID = some state →
      state.revokedThrough < token.payload.serial) :
    Sound agentID { s with
      issuer
      registered := true
      registrations := s.registrations.set k { r with pending := false, issued := some token }
      log := s.log ++ [.issue token] } where
  named held h := by
    rcases List.mem_append.mp h with h | h
    · exact hs.named held h
    · cases List.mem_singleton.mp h
      exact hagent
  revoked held h hissuer state hstate hserial := by
    dsimp only at h
    by_cases hold : .issue held ∈ s.log
    · refine .inl ?_
      rw [retired_append hold, Bool.or_eq_true]
      refine .inr (List.any_eq_true.mpr ⟨_, List.mem_singleton_self _, ?_⟩)
      exact decide_eq_true (hepoch.trans hissuer.symm)
    · have hsame : held = token := by
        rcases List.mem_append.mp h with h | h
        · exact absurd h hold
        · cases List.mem_singleton.mp h
          rfl
      subst hsame
      exact absurd hserial (not_le.mpr (hlookup state hstate))
  left h := by
    rcases List.mem_append.mp h with h | h
    · exact hs.left h
    · cases List.mem_singleton.mp h
  issued := by
    refine forall_mem_set (fun q hq held h => List.mem_append_left _ (hs.issued q hq held h)) ?_
    intro held h
    cases h
    exact List.mem_append_right _ (List.mem_singleton_self _)
  held held h := by
    obtain ⟨hissue, hretired⟩ := hs.held held h
    refine ⟨List.mem_append_left _ hissue, fun hanswered => ?_⟩
    have hother : decide (token.issuer = held.issuer) = false := by
      rw [hepoch]
      exact decide_eq_false (Ne.symm (hheld hanswered held h))
    rw [retired_append hissue, hretired hanswered, Bool.false_or, List.any_cons, List.any_nil,
      Bool.or_false]
    exact hother
  used c hc := by
    obtain ⟨hissue, hwithdrawn⟩ := hs.used c hc
    exact ⟨List.mem_append_left _ hissue, fun hphase => (hwithdrawn hphase).append hissue _⟩
  gaveUp held h := by
    obtain ⟨hissue, hgone⟩ := hs.gaveUp held h
    dsimp only
    rw [after_append hissue]
    exact ⟨List.mem_append_left _ hissue, List.mem_append_left _ hgone⟩

theorem Sound.enroll (hs : Sound agentID s) {k : ℕ} {r : Registration} {wall running : ℤ}
    (hr : s.registrations[k]? = some r) (hturn : inTurn s (.enroll k wall running) = true) :
    Sound agentID (enroll mac agentID s k r wall running) := by
  obtain ⟨hserial, hheld⟩ := Bool.and_eq_true_iff.mp hturn
  replace hserial : (s.issuer.serial + 1) % 2 ^ 64 ≠ 0 := of_decide_eq_true hserial
  unfold TokenRenewal.enroll
  split
  · next issuer result hissue =>
      refine hs.issue rfl rfl (fun hanswered held htoken hissuer => ?_) (fun state hstate => ?_)
      · rw [hanswered, htoken, Option.any_some, hissuer] at hheld
        simp at hheld
      · have hthrough := lookup_of_issue hissue
        rw [hstate, Option.map_some, Option.some.injEq] at hthrough
        have hnext : (s.issuer.nextPayload agentID wall running).serial =
          (s.issuer.serial + 1) % 2 ^ 64 := rfl
        rw [hnext, uint64_pred hserial (Nat.mod_lt _ (by decide))] at hthrough
        rw [hnext]
        omega
  · next issuer error hissue =>
      refine { hs with issued := forall_mem_set hs.issued ?_ }
      exact hs.issued r (List.mem_of_getElem? hr)

/-- A step in turn keeps what is believed true. -/
theorem Sound.move (hs : Sound agentID s) (hturn : inTurn s e = true)
    (h : Move mac agentID s e t) : Sound agentID t := by
  cases h with
  | start => exact hs.fresh _ _ rfl (fun h => h) rfl rfl
  | started => exact { hs with }
  | reconnect => exact hs.register
  | call token htoken =>
    refine { hs with used := fun c hc => ?_ }
    rcases List.mem_append.mp hc with hc | hc
    · exact hs.used c hc
    · cases List.mem_singleton.mp hc
      exact ⟨(hs.held token htoken).1, nofun⟩
  | calls _ i c c' _ hc hstep => exact hs.setCall hc hstep
  | registers i c c' hc hstep =>
    rw [← register_setCalls]
    exact (hs.setCall hc hstep).register
  | stops i c c' hc hstep hphase htoken hanswered hclosed =>
    have hcall := hs.setCall hc hstep
    refine { hcall with gaveUp := fun token h => ?_ }
    cases htoken.symm.trans h
    obtain ⟨hissue, hwithdrawn⟩ := hs.used c (List.mem_of_getElem? hc)
    refine ⟨hissue, ?_⟩
    -- the token that is held was not retired, and an open keeper's agent did not leave
    rcases hwithdrawn hphase with hretired | hgone | hleft
    · rw [(hs.held _ htoken).2 hanswered] at hretired
      cases hretired
    · exact hgone
    · obtain ⟨a, ha⟩ := exists_eq_after hissue
      have hleave : Deed.leave ∈ s.log := by
        rw [ha]
        exact List.mem_append_right _ (List.mem_cons_of_mem _ hleft)
      rw [hs.left hleave] at hclosed
      cases hclosed
  | close => exact { hs with left := fun _ => rfl }
  | enroll k r wall running hr hpending => exact hs.enroll hr hturn
  | lose k r hr =>
    exact { hs with
      issued := forall_mem_set hs.issued (hs.issued r (List.mem_of_getElem? hr)) }
  | answer k a r hr =>
    have hissued := hs.issued r (List.mem_of_getElem? hr)
    refine { hs with issued := forall_mem_set hs.issued hissued, held := fun token h => ?_ }
    unfold inTurn at hturn
    dsimp only at hturn h
    rw [hr, Option.all_some, h, Option.all_some, Bool.not_eq_true'] at hturn
    refine ⟨?_, fun _ => hturn⟩
    cases a with
    | token => exact hissued token h
    | bare => cases h
    | refusal => exact (hs.held token h).1
  | finish k => exact { hs with }
  | deregister _ deed _ hdeed => exact hs.deregister hdeed
  | restart => exact { hs with revoked := fun _ _ _ _ h => by cases h }
  | others _ issuer _ hissuer =>
    refine { hs with revoked := fun token h hepoch state hstate => ?_ }
    exact hs.revoked token h hepoch state (hissuer state hstate)

theorem sound_of_reaches (h : (system mac agentID).Reaches (fun s e => inTurn s e = true) s) :
    Sound agentID s :=
  h.invariant Sound.init fun _ _ _ hs hturn hstep => hs.move hturn (step_move hstep)

end Sound

/-- In every run the keeper runs one registration at most, a call goes out twice at most, and nothing
is registered after the end. A keeper that gives up in a run whose registrations are in turn was
deregistered after its token was issued. -/
theorem renewal_holds (mac : Mac) (agentID : GoString) :
    (∀ s, (system mac agentID).Reachable s →
      s.keeper.tasks.length ≤ 1 ∧
      (∀ c ∈ s.calls, c.sends ≤ 2 ∧ (c.sends = 2 → ∃ token, c.newer = some token ∧
        token ≠ c.used ∧ ∃ r ∈ s.registrations, r.issued = some token ∧ r.answered = true)) ∧
      (s.keeper.closed = true ∨ s.keeper.revoked.isSome = true →
        ∀ run t, (system mac agentID).execFrom s run = some t →
          t.keeper.tasks ⊆ s.keeper.tasks ∧
          (.start ∉ run → t.registrations.length = s.registrations.length))) ∧
    ∀ s, (system mac agentID).Reaches (fun s e => inTurn s e = true) s →
      ∀ token, s.keeper.revoked = some token →
        ∃ before between later,
          s.log = before ++ .issue token :: (between ++ .deregister :: later) := by
  refine ⟨fun s hs => ⟨(alone_of_reachable hs).length_le, fun c hc => ?_, fun hended run t h => ?_⟩,
    fun s hs token htoken => ?_⟩
  · rcases (shown_of_reachable hs).once c hc with ⟨hsends, _⟩ | ⟨hsends, _, hnewer⟩
    · rw [hsends]
      exact ⟨by decide, nofun⟩
    · exact ⟨hsends.le, fun _ => hnewer⟩
  · exact Ended.run hended h
  · obtain ⟨hissue, hgone⟩ := (sound_of_reaches hs).gaveUp token htoken
    obtain ⟨before, hbefore⟩ := exists_eq_after hissue
    obtain ⟨between, later, hlater⟩ := List.append_of_mem hgone
    exact ⟨before, between, later, by rw [hbefore, hlater]⟩

/-- The agent starts, and an operator deregisters it. Its call is refused, and it gives up. -/
def deregisteredRun : List Event :=
  [.start, .enroll 0 0 0, .answer 0 .token, .started, .call, .deregister, .check 0 1 1, .settle 0]

theorem deregisteredRun_givesUp : ∃ s,
    ((system blankMac (ascii "a1")).guarded fun s e => inTurn s e = true).exec deregisteredRun =
      some s ∧ s.keeper.revoked.isSome = true :=
  System.exists_of_exec (by decide)

theorem deregistered_givesUp : ∃ (s : State) (token : Token), s.keeper.revoked = some token ∧
    ∃ before between later,
      s.log = before ++ Deed.issue token :: (between ++ .deregister :: later) := by
  obtain ⟨s, hexec, hrevoked⟩ := deregisteredRun_givesUp
  obtain ⟨token, htoken⟩ := Option.isSome_iff_exists.mp hrevoked
  exact ⟨s, token, htoken, (renewal_holds blankMac (ascii "a1")).2 s
    (System.Reachable.of_guarded (System.reachable_exec hexec)) token htoken⟩

/-- The request of the first registration is worked off after the second was answered: nobody reads
the token, and it retires the one that is held. No operator deregistered the agent that gives up. -/
theorem lateRegistration_givesUp : ∃ s,
    (system blankMac (ascii "a1")).exec [.start, .started, .reconnect, .enroll 1 0 0,
      .answer 1 .token, .finish 1, .enroll 0 1 1, .call, .check 0 2 2, .settle 0] = some s ∧
    s.keeper.revoked.isSome = true ∧ ¬ ∃ before later, s.log = before ++ Deed.deregister :: later := by
  obtain ⟨s, hexec, hrevoked, hlog⟩ : ∃ s,
      (system blankMac (ascii "a1")).exec [.start, .started, .reconnect, .enroll 1 0 0,
        .answer 1 .token, .finish 1, .enroll 0 1 1, .call, .check 0 2 2, .settle 0] = some s ∧
      s.keeper.revoked.isSome = true ∧ Deed.deregister ∉ s.log :=
    System.exists_of_exec (by decide)
  refine ⟨s, hexec, hrevoked, ?_⟩
  rintro ⟨before, later, h⟩
  rw [h] at hlog
  exact hlog (List.mem_append_right _ List.mem_cons_self)

end Persatrix.TokenRenewal
