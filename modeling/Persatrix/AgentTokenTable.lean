import Persatrix.AgentTokenRuns

/-!
# The table of an issuer under any clocks

Which tokens the issuer refuses depends on serial numbers alone. Whatever the clocks read, the token
an agent holds is the only one of the agent that may be accepted; it is refused before its time only
if the running clock has gone back past a sweep.
-/
namespace Persatrix.Security

/-- The token and the claims are those of fields that fit a token. -/
structure Grant.Signed (mac : Mac) (id : GoString) (g : Grant) : Prop where
  issuable : issuableAgentID id = true
  fits : g.payload.Fits
  agentID : g.payload.agentID = id
  token : g.token = sign mac g.payload
  claims : g.claims = g.payload.claims

/-- The table after the deeds, with the readings of the running clock it was swept by. -/
structure Tabled (mac : Mac) (t : AgentTokenIssuer) (deeds : List Deed) (readings : List ℤ) :
    Prop where
  signed : ∀ id g, Deed.issued id g ∈ deeds → g.Signed mac id
  serial : ∀ id g, Deed.issued id g ∈ deeds → g.payload.serial ≤ t.serial
  issued : ∀ id g, heldBy id deeds = some g → Deed.issued id g ∈ deeds
  known : ∀ id state, t.agents.lookup id = some state → ∀ g, Deed.issued id g ∈ deeds →
    g.payload.serial ≤ state.revokedThrough ∨ heldBy id deeds = some g
  held : ∀ id state, t.agents.lookup id = some state → ∀ g, heldBy id deeds = some g →
    state.revokedThrough < g.payload.serial ∧ state.expires = g.payload.runningExpires
  forgotten : ∀ id, t.agents.lookup id = none → ∀ g, heldBy id deeds = some g →
    ∃ r ∈ readings, g.payload.runningExpires ≤ r

theorem lookup_revoke (t : AgentTokenIssuer) (agentID id : GoString) :
    (t.revoke agentID).agents.lookup id =
      if id = agentID then (t.agents.lookup id).map fun state =>
        { state with revokedThrough := t.serial }
      else t.agents.lookup id := by
  unfold AgentTokenIssuer.revoke
  cases hagent : t.agents.lookup agentID with
  | none =>
    dsimp only
    split_ifs with hid
    · rw [hid, hagent]
      rfl
    · rfl
  | some state =>
    dsimp only
    rw [GoMap.lookup_insert]
    split_ifs with hid
    · rw [hid, hagent]
      rfl
    · rfl

theorem serial_revoke (t : AgentTokenIssuer) (agentID : GoString) :
    (t.revoke agentID).serial = t.serial := by
  unfold AgentTokenIssuer.revoke
  split <;> rfl

namespace Tabled
variable {mac : Mac} {t : AgentTokenIssuer} {deeds : List Deed} {readings : List ℤ}

theorem init (mac : Mac) : Tabled mac {} [] [] where
  signed id g h := by cases h
  serial id g h := by cases h
  issued id g h := by cases h
  known id state h := by cases h
  held id state h := by cases h
  forgotten id h g hg := by cases hg

theorem read (h : Tabled mac t deeds readings) (running : ℤ) :
    Tabled mac t deeds (readings ++ [running]) where
  signed := h.signed
  serial := h.serial
  issued := h.issued
  known := h.known
  held := h.held
  forgotten id hid g hg := by
    obtain ⟨r, hr, hle⟩ := h.forgotten id hid g hg
    exact ⟨r, List.mem_append_left _ hr, hle⟩

/-- A sweep forgets an agent only when its token has expired by the reading. -/
theorem sweep (h : Tabled mac t deeds readings) (running : ℤ) :
    Tabled mac (t.forgetExpired running) deeds (readings ++ [running]) where
  signed := h.signed
  serial := h.serial
  issued := h.issued
  known id state hid := by
    unfold AgentTokenIssuer.forgetExpired at hid
    rw [GoMap.lookup_deleteIf, Option.filter_eq_some_iff] at hid
    exact h.known id state hid.1
  held id state hid := by
    unfold AgentTokenIssuer.forgetExpired at hid
    rw [GoMap.lookup_deleteIf, Option.filter_eq_some_iff] at hid
    exact h.held id state hid.1
  forgotten id hid g hg := by
    unfold AgentTokenIssuer.forgetExpired at hid
    rw [GoMap.lookup_deleteIf] at hid
    cases hlookup : t.agents.lookup id with
    | none =>
      obtain ⟨r, hr, hle⟩ := h.forgotten id hlookup g hg
      exact ⟨r, List.mem_append_left _ hr, hle⟩
    | some state =>
      rw [hlookup] at hid
      have hexpired : state.expires ≤ running := by simpa using hid
      rw [(h.held id state hlookup g hg).2] at hexpired
      exact ⟨running, by simp, hexpired⟩

/-- A new token supersedes the agent's earlier ones. -/
theorem grant (h : Tabled mac t deeds readings) {id : GoString} {g : Grant}
    (hsigned : g.Signed mac id) (hserial : g.payload.serial = t.serial + 1) :
    Tabled mac
      { t with
        serial := g.payload.serial
        agents := AList.insert id ⟨uint64 (g.payload.serial - 1), g.payload.runningExpires⟩ t.agents }
      (deeds ++ [.issued id g]) readings := by
  have hmem : ∀ other g', Deed.issued other g' ∈ deeds ++ [.issued id g] ↔
      Deed.issued other g' ∈ deeds ∨ other = id ∧ g' = g := by
    intro other g'
    simp
  have hrefused : uint64 (g.payload.serial - 1) = t.serial := by
    have hlt := hsigned.fits.serial
    unfold uint64
    omega
  rw [hrefused]
  constructor
  · intro other g' hg
    rcases (hmem other g').mp hg with hold | ⟨rfl, rfl⟩
    · exact h.signed other g' hold
    · exact hsigned
  · intro other g' hg
    rcases (hmem other g').mp hg with hold | ⟨rfl, rfl⟩
    · have hpast := h.serial other g' hold
      exact hpast.trans (by dsimp only; omega)
    · exact le_rfl
  · intro other g' hheld
    rw [heldBy_issued] at hheld
    split_ifs at hheld with hid
    · cases hheld
      exact (hmem other g).mpr (.inr ⟨hid.symm, rfl⟩)
    · exact (hmem other g').mpr (.inl (h.issued other g' hheld))
  · intro other state hlookup g' hg
    dsimp only at hlookup
    rw [GoMap.lookup_insert] at hlookup
    rw [heldBy_issued]
    split_ifs at hlookup with hid
    · cases hlookup
      subst hid
      rcases (hmem other g').mp hg with hold | ⟨-, rfl⟩
      · exact .inl (h.serial other g' hold)
      · exact .inr (if_pos rfl)
    · rcases (hmem other g').mp hg with hold | ⟨rfl, -⟩
      · rw [if_neg (Ne.symm hid)]
        exact h.known other state hlookup g' hold
      · exact absurd rfl hid
  · intro other state hlookup g' hheld
    dsimp only at hlookup
    rw [GoMap.lookup_insert] at hlookup
    rw [heldBy_issued] at hheld
    split_ifs at hlookup with hid
    · cases hlookup
      rw [if_pos hid.symm] at hheld
      cases hheld
      exact ⟨by dsimp only; omega, rfl⟩
    · rw [if_neg (Ne.symm hid)] at hheld
      exact h.held other state hlookup g' hheld
  · intro other hlookup g' hheld
    dsimp only at hlookup
    rw [GoMap.lookup_insert] at hlookup
    split_ifs at hlookup with hid
    rw [heldBy_issued, if_neg (Ne.symm hid)] at hheld
    exact h.forgotten other hlookup g' hheld

/-- Revoking refuses every token issued so far. -/
theorem revoke (h : Tabled mac t deeds readings) (agentID : GoString) :
    Tabled mac (t.revoke agentID) (deeds ++ [.revoked agentID]) readings := by
  have hmem : ∀ id g, Deed.issued id g ∈ deeds ++ [.revoked agentID] ↔ Deed.issued id g ∈ deeds := by
    intro id g
    simp
  constructor
  · intro id g hg
    exact h.signed id g ((hmem id g).mp hg)
  · intro id g hg
    rw [serial_revoke]
    exact h.serial id g ((hmem id g).mp hg)
  · intro id g hheld
    rw [heldBy_revoked] at hheld
    split_ifs at hheld
    exact (hmem id g).mpr (h.issued id g hheld)
  · intro id state hstate g hg
    rw [lookup_revoke] at hstate
    rw [hmem] at hg
    rw [heldBy_revoked]
    split_ifs at hstate with hid
    · obtain ⟨old, hold, rfl⟩ := Option.map_eq_some_iff.mp hstate
      exact .inl (h.serial id g hg)
    · rw [if_neg (Ne.symm hid)]
      exact h.known id state hstate g hg
  · intro id state hstate g hheld
    rw [lookup_revoke] at hstate
    rw [heldBy_revoked] at hheld
    split_ifs at hheld with hid
    rw [if_neg (Ne.symm hid)] at hstate
    exact h.held id state hstate g hheld
  · intro id hnone g hheld
    rw [lookup_revoke] at hnone
    rw [heldBy_revoked] at hheld
    split_ifs at hheld with hid
    rw [if_neg (Ne.symm hid)] at hnone
    exact h.forgotten id hnone g hheld

/-- An issue with a serial number left; both clocks may read anything. -/
theorem issue (h : Tabled mac t deeds readings) {id token : GoString} {wall running : ℤ}
    {issuer : AgentTokenIssuer} {claims : AgentTokenClaims} (hwall : int64 wall = wall)
    (hserial : t.serial + 1 < 2 ^ 64)
    (hissue : t.issue mac id wall running = (issuer, .ok (token, claims))) :
    Tabled mac issuer
      (deeds ++ [.issued id ⟨t.nextPayload id wall running, token, claims, wall, running⟩])
      (readings ++ [running]) := by
  unfold AgentTokenIssuer.issue at hissue
  split_ifs at hissue with hissuable
  · cases hissue
  have hnext : (t.nextPayload id wall running).serial = t.serial + 1 := Nat.mod_eq_of_lt hserial
  have hissuable : issuableAgentID id = true := by simpa using hissuable
  have hsigned : Grant.Signed mac id ⟨t.nextPayload id wall running,
      sign mac (t.nextPayload id wall running), (t.nextPayload id wall running).claims,
      wall, running⟩ := by
    refine ⟨hissuable, ⟨(issuable_length hissuable).1, ?_, int64_range _, int64_range _, ?_⟩,
      rfl, rfl, rfl⟩
    · have hrange := int64_range wall
      rwa [hwall] at hrange
    · rw [hnext]
      exact hserial
  dsimp only at hissue
  by_cases hsweep : t.sweepAt ≤ t.agents.keys.length
  · rw [if_pos hsweep] at hissue
    cases hissue
    exact (h.sweep running).grant hsigned hnext
  · rw [if_neg hsweep] at hissue
    cases hissue
    exact (h.read running).grant hsigned hnext

/-- A token that was issued is accepted only while the agent holds it, until it expires. -/
theorem judge_ok (h : Tabled mac t deeds readings) {id : GoString} {g : Grant}
    (hg : Deed.issued id g ∈ deeds) {wall running : ℤ} {claims : AgentTokenClaims}
    (hok : t.judge g.payload wall running = .ok claims) :
    heldBy id deeds = some g ∧ wall < g.payload.expires ∧ running < g.payload.runningExpires ∧
      g.claims = claims := by
  have hsigned := h.signed id g hg
  unfold AgentTokenIssuer.judge at hok
  rw [hsigned.agentID] at hok
  cases hlookup : t.agents.lookup id with
  | none =>
    rw [hlookup] at hok
    dsimp only at hok
    split_ifs at hok
  | some state =>
    rw [hlookup] at hok
    dsimp only at hok
    split_ifs at hok with hrefused hexpired
    cases hok
    have hheld := ((h.known id state hlookup g hg)).resolve_left hrefused
    exact ⟨hheld, by omega, by omega, hsigned.claims⟩

/-- An accepted token is the one its agent holds, and has not expired. -/
theorem check_live (h : Tabled mac t deeds readings) {token : GoString} {wall running : ℤ}
    {claims : AgentTokenClaims} (hunforged : Unforged mac deeds token)
    (hok : t.check mac token wall running = .ok claims) :
    ∃ g, heldBy claims.agentID deeds = some g ∧ g.token = token ∧ g.claims = claims ∧
      wall < g.payload.expires ∧ running < g.payload.runningExpires := by
  obtain ⟨signed, signature, p, hcut, hdecode, htoken, hverify, hjudge⟩ := eq_of_check hok
  obtain ⟨id, g, hg, htext⟩ := hunforged signed signature hcut hdecode
  have hsigned := h.signed id g hg
  rw [hsigned.token, cutLast_sign, Option.map_some] at htext
  cases htext
  rw [verify_signedText mac hsigned.fits] at hverify
  cases hverify
  obtain ⟨hheld, hwall, hrunning, hclaims⟩ := h.judge_ok hg hjudge
  have hid : claims.agentID = id := by
    rw [← hclaims, hsigned.claims]
    exact hsigned.agentID
  refine ⟨g, hid ▸ hheld, ?_, hclaims, hwall, hrunning⟩
  rw [htoken, hsigned.token]
  rfl

theorem check_ok (h : Tabled mac t deeds readings) {token : GoString} {wall running : ℤ}
    {claims : AgentTokenClaims} (hunforged : Unforged mac deeds token)
    (hok : t.check mac token wall running = .ok claims) :
    ∃ g, heldBy claims.agentID deeds = some g ∧ g.token = token ∧ g.claims = claims := by
  obtain ⟨g, hheld, htoken, hclaims, -, -⟩ := h.check_live hunforged hok
  exact ⟨g, hheld, htoken, hclaims⟩

/-- The token an agent holds is accepted until it expires, by a running clock that has not gone back
past a sweep. -/
theorem check_held_iff (h : Tabled mac t deeds readings) {id : GoString} {g : Grant}
    (hheld : heldBy id deeds = some g) {wall running : ℤ} (hclock : ∀ r ∈ readings, r ≤ running) :
    t.check mac g.token wall running = .ok g.claims ↔
      wall < g.payload.expires ∧ running < g.payload.runningExpires := by
  have hg := h.issued id g hheld
  have hsigned := h.signed id g hg
  have hlong : g.payload.agentID.length ≤ maxAgentIDLen := by
    rw [hsigned.agentID]
    exact (issuable_length hsigned.issuable).2
  rw [hsigned.token, check_sign mac t hsigned.fits hlong]
  constructor
  · intro hok
    obtain ⟨-, hwall, hrunning, -⟩ := h.judge_ok hg hok
    exact ⟨hwall, hrunning⟩
  · intro hlive
    unfold AgentTokenIssuer.judge
    rw [hsigned.agentID, hsigned.claims]
    cases hlookup : t.agents.lookup id with
    | none =>
      obtain ⟨r, hr, hexpired⟩ := h.forgotten id hlookup g hheld
      have hle := hclock r hr
      omega
    | some state =>
      dsimp only
      have hserial := (h.held id state hlookup g hheld).1
      rw [if_neg (by omega), if_neg (by omega)]

end Tabled
end Persatrix.Security
