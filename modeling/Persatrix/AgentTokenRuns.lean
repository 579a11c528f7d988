import Persatrix.AgentToken
import Persatrix.System

/-!
# Which agent tokens are accepted

A run issues, revokes and checks tokens on a wall clock that may jump and a running clock
that never goes back. Its log says what was issued and revoked; the grant an agent holds
is the latest one issued to it, unless the agent was revoked since. The issuer may forget
an agent, but only once every token of the agent has expired on the running clock, so
that what it forgets it does not need.
-/
namespace Persatrix.Security

/-- What Issue returned, with the fields of the token and the readings of the clocks. -/
structure Grant where
  payload : AgentTokenPayload
  token : GoString
  claims : AgentTokenClaims
  wall : ℤ
  running : ℤ

inductive Deed where
  | issued (agentID : GoString) (g : Grant)
  | revoked (agentID : GoString)

/-- The grant the agent holds after the log. -/
def heldBy (agentID : GoString) (log : List Deed) : Option Grant :=
  log.foldl (fun held d =>
    match d with
    | .issued id g => if id = agentID then some g else held
    | .revoked id => if id = agentID then none else held) none

@[simp] theorem heldBy_issued (agentID id : GoString) (log : List Deed) (g : Grant) :
    heldBy agentID (log ++ [.issued id g]) = if id = agentID then some g else heldBy agentID log := by
  rw [heldBy, List.foldl_concat]
  rfl

@[simp] theorem heldBy_revoked (agentID id : GoString) (log : List Deed) :
    heldBy agentID (log ++ [.revoked id]) = if id = agentID then none else heldBy agentID log := by
  rw [heldBy, List.foldl_concat]
  rfl

inductive TokenEvent where
  | issue (agentID : GoString) (wall running : ℤ)
  | revoke (agentID : GoString)
  | check (token : GoString) (wall running : ℤ)

structure TokenState where
  issuer : AgentTokenIssuer := {}
  running : ℤ

/-- The issuer and the latest reading of the running clock. -/
def tokenSystem (mac : Mac) (start : ℤ) : System TokenState TokenEvent where
  init := { running := start }
  step s
    | .issue agentID wall running =>
      if s.running ≤ running then
        some ⟨(s.issuer.issue mac agentID wall running).1, running⟩
      else none
    | .revoke agentID => some { s with issuer := s.issuer.revoke agentID }
    | .check _ _ running => if s.running ≤ running then some { s with running := running } else none

/-- What a step adds to the log. -/
def deeds (mac : Mac) (s : TokenState) (e : TokenEvent) (_ : TokenState) : List Deed :=
  match e with
  | .issue agentID wall running =>
    match (s.issuer.issue mac agentID wall running).2 with
    | .ok (token, claims) =>
      [.issued agentID ⟨s.issuer.nextPayload agentID wall running, token, claims, wall, running⟩]
    | .error _ => []
  | .revoke agentID => [.revoked agentID]
  | .check _ _ _ => []

/-- The readings of an issue are `int64` values from which the lifetime can be counted, and
a serial number is left. -/
def ClockFits (s : TokenState) : TokenEvent → Prop
  | .issue _ wall running =>
    -2 ^ 63 ≤ wall ∧ wall + agentTokenTTL < 2 ^ 63 ∧
      -2 ^ 63 ≤ running ∧ running + agentTokenTTL < 2 ^ 63 ∧ s.issuer.serial + 1 < 2 ^ 64
  | _ => True

/-- A signature that matches is on a text that was signed. -/
def Unforged (mac : Mac) (log : List Deed) (token : GoString) : Prop :=
  ∀ signed signature, cutLast dot token = some (signed, signature) →
    Base64.decode signature = some (mac signed).1 →
    ∃ id g, Deed.issued id g ∈ log ∧ (cutLast dot g.token).map Prod.fst = some signed

/-- The token, the claims and the expiries are those of the fields and of the readings. -/
structure Grant.Sound (mac : Mac) (id : GoString) (g : Grant) : Prop where
  issuable : issuableAgentID id = true
  fits : g.payload.Fits
  agentID : g.payload.agentID = id
  token : g.token = sign mac g.payload
  claims : g.claims = g.payload.claims
  expires : g.payload.expires = g.wall + agentTokenTTL
  runningExpires : g.payload.runningExpires = g.running + agentTokenTTL

/-- What was issued can be told from the log, and the table refuses what is not held. -/
structure Accounted (mac : Mac) (s : TokenState) (log : List Deed) : Prop where
  sound : ∀ id g, Deed.issued id g ∈ log → g.Sound mac id
  past : ∀ id g, Deed.issued id g ∈ log →
    g.payload.serial ≤ s.issuer.serial ∧ g.running ≤ s.running
  issued : ∀ id g, heldBy id log = some g → Deed.issued id g ∈ log
  known : ∀ id state, s.issuer.agents.lookup id = some state →
    ∀ g, Deed.issued id g ∈ log → g.payload.runningExpires ≤ state.expires ∧
      (g.payload.serial ≤ state.revokedThrough ∨ heldBy id log = some g)
  held : ∀ id state, s.issuer.agents.lookup id = some state →
    ∀ g, heldBy id log = some g → state.revokedThrough < g.payload.serial
  forgotten : ∀ id, s.issuer.agents.lookup id = none →
    ∀ g, Deed.issued id g ∈ log → g.payload.runningExpires ≤ s.running

namespace Accounted
variable {mac : Mac} {s : TokenState} {log : List Deed}

theorem init (mac : Mac) (start : ℤ) : Accounted mac (tokenSystem mac start).init [] where
  sound id g h := by cases h
  past id g h := by cases h
  issued id g h := by cases h
  known id state h := by cases h
  held id state h := by cases h
  forgotten id h g hg := by cases hg

/-- Time passes on the running clock. -/
theorem wait (h : Accounted mac s log) {running : ℤ} (hclock : s.running ≤ running) :
    Accounted mac { s with running := running } log where
  sound := h.sound
  past id g hg := ⟨(h.past id g hg).1, (h.past id g hg).2.trans hclock⟩
  issued := h.issued
  known := h.known
  held := h.held
  forgotten id hid g hg := (h.forgotten id hid g hg).trans hclock

/-- The sweep drops agents all of whose tokens have expired. -/
theorem forgetExpired (h : Accounted mac s log) :
    Accounted mac { s with issuer := s.issuer.forgetExpired s.running } log where
  sound := h.sound
  past := h.past
  issued := h.issued
  known id state hid := by
    unfold AgentTokenIssuer.forgetExpired at hid
    rw [GoMap.lookup_deleteIf, Option.filter_eq_some_iff] at hid
    exact h.known id state hid.1
  held id state hid := by
    unfold AgentTokenIssuer.forgetExpired at hid
    rw [GoMap.lookup_deleteIf, Option.filter_eq_some_iff] at hid
    exact h.held id state hid.1
  forgotten id hid g hg := by
    unfold AgentTokenIssuer.forgetExpired at hid
    rw [GoMap.lookup_deleteIf] at hid
    cases hlookup : s.issuer.agents.lookup id with
    | none => exact h.forgotten id hlookup g hg
    | some state =>
      have hexpires := (h.known id state hlookup g hg).1
      rw [hlookup] at hid
      have hexpired : state.expires ≤ s.running := by simpa using hid
      exact hexpires.trans hexpired

/-- A new token supersedes the agent's earlier ones. -/
theorem grant (h : Accounted mac s log) {id : GoString} {g : Grant} (hsound : g.Sound mac id)
    (hserial : g.payload.serial = s.issuer.serial + 1) (hrunning : g.running = s.running) :
    Accounted mac
      { s with issuer := { s.issuer with
          serial := g.payload.serial
          agents := AList.insert id ⟨uint64 (g.payload.serial - 1), g.payload.runningExpires⟩
            s.issuer.agents } }
      (log ++ [.issued id g]) := by
  have hmem : ∀ other g', Deed.issued other g' ∈ log ++ [.issued id g] ↔
      Deed.issued other g' ∈ log ∨ other = id ∧ g' = g := by
    intro other g'
    simp
  have hrefused : uint64 (g.payload.serial - 1) = s.issuer.serial := by
    have hlt := hsound.fits.serial
    unfold uint64
    omega
  rw [hrefused]
  constructor
  · intro other g' hg
    rcases (hmem other g').mp hg with hold | ⟨rfl, rfl⟩
    · exact h.sound other g' hold
    · exact hsound
  · intro other g' hg
    dsimp only
    rcases (hmem other g').mp hg with hold | ⟨rfl, rfl⟩
    · have hpast := h.past other g' hold
      exact ⟨by omega, hpast.2⟩
    · exact ⟨le_rfl, hrunning.le⟩
  · intro other g' hheld
    rw [heldBy_issued] at hheld
    split_ifs at hheld with hid
    · cases hheld
      exact (hmem other g).mpr (.inr ⟨hid.symm, rfl⟩)
    · exact (hmem other g').mpr (.inl (h.issued other g' hheld))
  · intro other state hlookup g' hg
    dsimp only at hlookup
    rw [GoMap.lookup_insert] at hlookup
    rw [heldBy_issued]
    split_ifs at hlookup with hid
    · cases hlookup
      subst hid
      rcases (hmem other g').mp hg with hold | ⟨-, rfl⟩
      · have hpast := h.past other g' hold
        have hexpires := (h.sound other g' hold).runningExpires
        have hlater := hsound.runningExpires
        exact ⟨by dsimp only; omega, .inl hpast.1⟩
      · exact ⟨le_rfl, .inr (if_pos rfl)⟩
    · rcases (hmem other g').mp hg with hold | ⟨rfl, -⟩
      · rw [if_neg (Ne.symm hid)]
        exact h.known other state hlookup g' hold
      · exact absurd rfl hid
  · intro other state hlookup g' hheld
    dsimp only at hlookup
    rw [GoMap.lookup_insert] at hlookup
    rw [heldBy_issued] at hheld
    split_ifs at hlookup with hid
    · cases hlookup
      rw [if_pos hid.symm] at hheld
      cases hheld
      dsimp only
      omega
    · rw [if_neg (Ne.symm hid)] at hheld
      exact h.held other state hlookup g' hheld
  · intro other hlookup g' hg
    dsimp only at hlookup
    rw [GoMap.lookup_insert] at hlookup
    split_ifs at hlookup with hid
    rcases (hmem other g').mp hg with hold | ⟨rfl, -⟩
    · exact h.forgotten other hlookup g' hold
    · exact absurd rfl hid

/-- Revoking refuses every token issued so far. -/
theorem revoke (h : Accounted mac s log) (agentID : GoString) :
    Accounted mac { s with issuer := s.issuer.revoke agentID } (log ++ [.revoked agentID]) := by
  have hserial : (s.issuer.revoke agentID).serial = s.issuer.serial := by
    unfold AgentTokenIssuer.revoke
    split <;> rfl
  have hmem : ∀ id g, Deed.issued id g ∈ log ++ [.revoked agentID] ↔ Deed.issued id g ∈ log := by
    intro id g
    simp
  have hlookup : ∀ id, (s.issuer.revoke agentID).agents.lookup id =
      if id = agentID then (s.issuer.agents.lookup id).map fun state =>
        { state with revokedThrough := s.issuer.serial }
      else s.issuer.agents.lookup id := by
    intro id
    unfold AgentTokenIssuer.revoke
    cases hagent : s.issuer.agents.lookup agentID with
    | none =>
      dsimp only
      split_ifs with hid
      · rw [hid, hagent]
        rfl
      · rfl
    | some state =>
      dsimp only
      rw [GoMap.lookup_insert]
      split_ifs with hid
      · rw [hid, hagent]
        rfl
      · rfl
  constructor
  · intro id g hg
    exact h.sound id g ((hmem id g).mp hg)
  · intro id g hg
    dsimp only
    rw [hserial]
    exact h.past id g ((hmem id g).mp hg)
  · intro id g hheld
    rw [heldBy_revoked] at hheld
    split_ifs at hheld
    exact (hmem id g).mpr (h.issued id g hheld)
  · intro id state hstate g hg
    dsimp only at hstate
    rw [hlookup] at hstate
    rw [hmem] at hg
    rw [heldBy_revoked]
    split_ifs at hstate with hid
    · obtain ⟨old, hold, rfl⟩ := Option.map_eq_some_iff.mp hstate
      exact ⟨(h.known id old hold g hg).1, .inl (h.past id g hg).1⟩
    · rw [if_neg (Ne.symm hid)]
      exact h.known id state hstate g hg
  · intro id state hstate g hheld
    dsimp only at hstate
    rw [hlookup] at hstate
    rw [heldBy_revoked] at hheld
    split_ifs at hheld with hid
    rw [if_neg (Ne.symm hid)] at hstate
    exact h.held id state hstate g hheld
  · intro id hnone g hg
    dsimp only at hnone
    rw [hlookup] at hnone
    rw [hmem] at hg
    split_ifs at hnone
    · exact h.forgotten id (Option.map_eq_none_iff.mp hnone) g hg
    · exact h.forgotten id hnone g hg

theorem issue (h : Accounted mac s log) {agentID : GoString} {wall running : ℤ}
    (hclock : s.running ≤ running) (hfits : ClockFits s (.issue agentID wall running))
    (t : TokenState) :
    Accounted mac ⟨(s.issuer.issue mac agentID wall running).1, running⟩
      (log ++ deeds mac s (.issue agentID wall running) t) := by
  have hwait := h.wait hclock
  cases hissuable : issuableAgentID agentID with
  | false =>
    unfold deeds AgentTokenIssuer.issue
    simp only [hissuable, Bool.not_false, if_true, List.append_nil]
    exact hwait
  | true =>
    obtain ⟨hlow, hhigh, hrlow, hrhigh, hserial⟩ := hfits
    have hlifetime : 0 ≤ agentTokenTTL := by decide
    have hexpires : int64 (wall + agentTokenTTL) = wall + agentTokenTTL :=
      int64_of_fits (by omega) hhigh
    have hrunning : int64 (running + agentTokenTTL) = running + agentTokenTTL :=
      int64_of_fits (by omega) hrhigh
    let p := s.issuer.nextPayload agentID wall running
    have hp : p = ⟨agentID, wall, wall + agentTokenTTL, running + agentTokenTTL,
        s.issuer.serial + 1⟩ := by
      unfold p AgentTokenIssuer.nextPayload
      rw [hexpires, hrunning, Nat.mod_eq_of_lt hserial]
    have hsound : Grant.Sound mac agentID ⟨p, sign mac p, p.claims, wall, running⟩ := by
      rw [hp]
      refine ⟨hissuable, ⟨(issuable_length hissuable).1, ?_, ?_, ?_, hserial⟩, rfl, rfl, rfl, rfl, rfl⟩
      · exact ⟨hlow, by dsimp only; omega⟩
      · exact ⟨by dsimp only; omega, hhigh⟩
      · exact ⟨by dsimp only; omega, hrhigh⟩
    have hnext : p.serial = s.issuer.serial + 1 := by rw [hp]
    unfold deeds AgentTokenIssuer.issue
    simp only [hissuable, Bool.not_true, Bool.false_eq_true, if_false]
    by_cases hsweep : s.issuer.sweepAt ≤ s.issuer.agents.keys.length
    · rw [if_pos hsweep]
      exact hwait.forgetExpired.grant hsound hnext rfl
    · rw [if_neg hsweep]
      exact hwait.grant hsound hnext rfl

end Accounted

/-- The account is kept by every step. -/
theorem accounted_of_reaches {mac : Mac} {start : ℤ} {p : TokenState × List Deed}
    (h : ((tokenSystem mac start).logged (deeds mac)).Reaches (fun q e => ClockFits q.1 e) p) :
    Accounted mac p.1 p.2 := by
  induction h with
  | init => exact Accounted.init mac start
  | @step q r e _ hfits hstep ih =>
    obtain ⟨hnext, hlog⟩ := System.logged_step hstep
    rw [hlog]
    cases e with
    | issue agentID wall running =>
      unfold tokenSystem at hnext
      dsimp only at hnext
      split_ifs at hnext with hclock
      rw [← Option.some.inj hnext]
      exact ih.issue hclock hfits _
    | revoke agentID =>
      rw [← Option.some.inj hnext]
      exact ih.revoke agentID
    | check token wall running =>
      unfold tokenSystem at hnext
      dsimp only at hnext
      split_ifs at hnext with hclock
      rw [← Option.some.inj hnext]
      simpa [deeds] using ih.wait hclock

namespace Accounted
variable {mac : Mac} {s : TokenState} {log : List Deed}

/-- A token of the log is accepted when it is held and neither clock has reached its
expiry. -/
theorem judge_iff (h : Accounted mac s log) {id : GoString} {g : Grant}
    (hg : Deed.issued id g ∈ log) {wall running : ℤ} (hclock : s.running ≤ running)
    (claims : AgentTokenClaims) :
    s.issuer.judge g.payload wall running = .ok claims ↔
      heldBy id log = some g ∧ wall - g.wall < agentTokenTTL ∧
        running - g.running < agentTokenTTL ∧ g.claims = claims := by
  have hsound := h.sound id g hg
  unfold AgentTokenIssuer.judge
  rw [hsound.agentID, hsound.expires, hsound.runningExpires, hsound.claims]
  cases hlookup : s.issuer.agents.lookup id with
  | none =>
    have hforgotten := h.forgotten id hlookup g hg
    have hexpires := hsound.runningExpires
    have hexpired : g.running + agentTokenTTL ≤ running := by omega
    dsimp only
    rw [if_pos (.inr hexpired)]
    constructor
    · intro herror
      cases herror
    · intro ⟨_, _, hage, _⟩
      omega
  | some state =>
    dsimp only
    constructor
    · intro hok
      split_ifs at hok with hrefused hexpired
      cases hok
      have hheld := ((h.known id state hlookup g hg).2).resolve_left hrefused
      exact ⟨hheld, by omega, by omega, rfl⟩
    · intro ⟨hheld, hwall, hrunning, hclaims⟩
      have hserial := h.held id state hlookup g hheld
      rw [if_neg (by omega), if_neg (by omega), hclaims]

end Accounted

/-- In every run whose issues fit the clocks, a token that is not forged is accepted exactly
when it is the one its agent holds and neither clock has counted its lifetime; the claims
are those that Issue returned. -/
theorem check_accepts_iff {mac : Mac} {start : ℤ} {s : TokenState} {log : List Deed}
    (h : ((tokenSystem mac start).logged (deeds mac)).Reaches (fun q e => ClockFits q.1 e) (s, log))
    {token : GoString} (hunforged : Unforged mac log token) {running : ℤ}
    (hclock : s.running ≤ running) (wall : ℤ) (claims : AgentTokenClaims) :
    s.issuer.check mac token wall running = .ok claims ↔
      ∃ id g, heldBy id log = some g ∧ g.token = token ∧ wall - g.wall < agentTokenTTL ∧
        running - g.running < agentTokenTTL ∧ g.claims = claims ∧ claims.agentID = id := by
  have haccounted := accounted_of_reaches h
  dsimp only at haccounted
  constructor
  · intro hok
    obtain ⟨signed, signature, p, hcut, hdecode, htoken, hverify, hjudge⟩ := eq_of_check hok
    obtain ⟨id, g, hg, hsigned⟩ := hunforged signed signature hcut hdecode
    have hsound := haccounted.sound id g hg
    rw [hsound.token, cutLast_sign, Option.map_some] at hsigned
    cases hsigned
    rw [verify_signedText mac hsound.fits] at hverify
    cases hverify
    obtain ⟨hheld, hwall, hrunning, hclaims⟩ := (haccounted.judge_iff hg hclock claims).mp hjudge
    refine ⟨id, g, hheld, ?_, hwall, hrunning, hclaims, ?_⟩
    · rw [htoken, hsound.token]
      rfl
    · rw [← hclaims, hsound.claims]
      exact hsound.agentID
  · intro ⟨id, g, hheld, htoken, hwall, hrunning, hclaims, _⟩
    have hg := haccounted.issued id g hheld
    have hsound := haccounted.sound id g hg
    have hlong : g.payload.agentID.length ≤ maxAgentIDLen := by
      rw [hsound.agentID]
      exact (issuable_length hsound.issuable).2
    rw [← htoken, hsound.token, check_sign mac s.issuer hsound.fits hlong]
    exact (haccounted.judge_iff hg hclock claims).mpr ⟨hheld, hwall, hrunning, hclaims⟩

/-- A code that tells no texts apart, for the two runs below. -/
def blankMac : Mac := fun _ => ⟨List.replicate 32 0, rfl⟩

/-- One token for `a1`, issued at the given time of day. -/
def afterIssue (wall : ℤ) : TokenState × List Deed :=
  let t : AgentTokenIssuer := {}
  let p := t.nextPayload (ascii "a1") wall 0
  (⟨(t.issue blankMac (ascii "a1") wall 0).1, 0⟩,
    [.issued (ascii "a1") ⟨p, sign blankMac p, p.claims, wall, 0⟩])

theorem afterIssue_reaches {C : TokenState × List Deed → TokenEvent → Prop} {wall : ℤ}
    (h : C ((tokenSystem blankMac 0).logged (deeds blankMac)).init (.issue (ascii "a1") wall 0)) :
    ((tokenSystem blankMac 0).logged (deeds blankMac)).Reaches C (afterIssue wall) :=
  .step .init h rfl

theorem afterIssue_unforged (wall : ℤ) (token : GoString)
    (htoken : token = sign blankMac (AgentTokenIssuer.nextPayload {} (ascii "a1") wall 0)) :
    Unforged blankMac (afterIssue wall).2 token := by
  intro signed signature hcut _
  refine ⟨_, _, List.mem_singleton_self _, ?_⟩
  rw [← htoken, hcut]
  rfl

/-- An hour after it is issued a token is accepted. -/
theorem hourOldToken_accepted : ∃ token claims,
    (afterIssue 0).1.issuer.check blankMac token (3600 * 10 ^ 9) (3600 * 10 ^ 9) = .ok claims := by
  refine ⟨_, _, (check_accepts_iff (afterIssue_reaches ?_) (afterIssue_unforged 0 _ rfl)
    (by decide) _ _).mpr ⟨ascii "a1", _, rfl, rfl, ?_, ?_, rfl, rfl⟩⟩
  · exact ⟨by decide, by decide, by decide, by decide, by decide⟩
  · decide
  · decide

/-- At the end of the range of the wall clock the expiry wraps, and a token is refused at
the moment it is issued. -/
theorem lastMomentToken_refused : ∃ g,
    ((tokenSystem blankMac 0).logged (deeds blankMac)).Reachable (afterIssue (2 ^ 63 - 1)) ∧
      heldBy (ascii "a1") (afterIssue (2 ^ 63 - 1)).2 = some g ∧
      Unforged blankMac (afterIssue (2 ^ 63 - 1)).2 g.token ∧
      g.wall = 2 ^ 63 - 1 ∧ g.running = 0 ∧
      (afterIssue (2 ^ 63 - 1)).1.issuer.check blankMac g.token (2 ^ 63 - 1) 0 =
        .error errAgentTokenExpired := by
  refine ⟨_, afterIssue_reaches trivial, rfl, afterIssue_unforged _ _ rfl, rfl, rfl, ?_⟩
  rw [check_sign]
  · decide
  · constructor <;> decide
  · decide

end Persatrix.Security
