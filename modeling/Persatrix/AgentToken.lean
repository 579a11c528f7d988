import Persatrix.Base64
import Persatrix.GoValues

/-!
# Agent tokens

A token is the text of its fields and a signature over that text. The issuer keeps, for
each agent whose latest token may still work, the serial numbers that are refused and
when the latest token expires on the running clock. Times and durations are in
nanoseconds; the wall clock and the running clock are read once in a call, under the
lock. The code `mac` of a text under the issuer's key has 32 bytes.
-/
namespace Persatrix.Security

def agentTokenTTL : ℤ := 24 * 3600 * 10 ^ 9

def agentTokenPrefix : GoString := ascii "agt1."

def agentTokenFixedSize : ℕ := 4 * 8

def maxAgentIDLen : ℕ := 256

def agentTokenSweepFloor : ℕ := 64

def agentTokenSignatureLen : ℕ := Base64.encodedLen 32

def maxAgentTokenLen : ℕ :=
  agentTokenPrefix.length + Base64.encodedLen (agentTokenFixedSize + maxAgentIDLen) + 1 +
    agentTokenSignatureLen

def errAgentTokenInvalid : String := "security: agent token is not valid"

def errAgentTokenExpired : String := "security: agent token has expired"

def errAgentTokenRevoked : String := "security: agent token has been revoked"

def errAgentTokenAgentID : String := "security: no agent token can be issued for this agent ID"

def isAlphanumeric (b : UInt8) : Bool := (97 ≤ b && b ≤ 122) || (48 ≤ b && b ≤ 57)

/-- Whether the whole of the identifier matches `[a-z0-9][a-z0-9-]*[a-z0-9]`. -/
def agentIDRegex (id : GoString) : Bool :=
  2 ≤ id.length && id.head?.all isAlphanumeric && id.getLast?.all isAlphanumeric &&
    id.all fun b => isAlphanumeric b || b = 45

def validAgentID (id : GoString) : Bool :=
  if id = [] then true
  else if maxAgentIDLen < id.length then false
  else agentIDRegex id

def issuableAgentID (id : GoString) : Bool :=
  id ≠ [] && validAgentID id && id ≠ ascii "web-console" && id ≠ ascii "anonymous" &&
    id ≠ ascii "local"

structure AgentTokenClaims where
  agentID : GoString
  issuedAt : ℤ
  expiresAt : ℤ
deriving DecidableEq

structure AgentTokenPayload where
  agentID : GoString
  issued : ℤ
  expires : ℤ
  runningExpires : ℤ
  serial : ℕ

def uint64 (n : ℤ) : ℕ := (n % 2 ^ 64).toNat

namespace AgentTokenPayload

def marshal (p : AgentTokenPayload) : GoString :=
  bigEndian 8 (uint64 p.issued) ++ (bigEndian 8 (uint64 p.expires) ++
    (bigEndian 8 (uint64 p.runningExpires) ++ (bigEndian 8 p.serial ++ p.agentID)))

def unmarshal (b : GoString) : Option AgentTokenPayload :=
  if b.length ≤ agentTokenFixedSize then none
  else some {
    agentID := b.drop agentTokenFixedSize
    issued := int64 (bigEndianValue (b.take 8))
    expires := int64 (bigEndianValue ((b.drop 8).take 8))
    runningExpires := int64 (bigEndianValue ((b.drop 16).take 8))
    serial := bigEndianValue ((b.drop 24).take 8) }

def claims (p : AgentTokenPayload) : AgentTokenClaims := ⟨p.agentID, p.issued, p.expires⟩

end AgentTokenPayload

abbrev Mac := GoString → {sum : GoString // sum.length = 32}

/-- The byte between the text of the fields and the signature. -/
def dot : UInt8 := 46

/-- The text that a signature covers. -/
def signedText (p : AgentTokenPayload) : GoString := agentTokenPrefix ++ Base64.encode p.marshal

def sign (mac : Mac) (p : AgentTokenPayload) : GoString :=
  signedText p ++ dot :: Base64.encode (mac (signedText p)).1

/-- Reads the fields when the signature is the one for the text before it. -/
def verify (mac : Mac) (signed signature : GoString) : Option AgentTokenPayload :=
  match Base64.decode signature with
  | none => none
  | some sig =>
    if (mac signed).1 ≠ sig then none
    else
      match Base64.decode (signed.drop agentTokenPrefix.length) with
      | none => none
      | some fields => AgentTokenPayload.unmarshal fields

/-- Fields that fit the integers a token carries, for an agent with a name. -/
structure AgentTokenPayload.Fits (p : AgentTokenPayload) : Prop where
  agentID : p.agentID ≠ []
  issued : -2 ^ 63 ≤ p.issued ∧ p.issued < 2 ^ 63
  expires : -2 ^ 63 ≤ p.expires ∧ p.expires < 2 ^ 63
  runningExpires : -2 ^ 63 ≤ p.runningExpires ∧ p.runningExpires < 2 ^ 63
  serial : p.serial < 2 ^ 64

theorem int64_read {n : ℤ} (h : -2 ^ 63 ≤ n ∧ n < 2 ^ 63) :
    int64 (bigEndianValue (bigEndian 8 (uint64 n))) = n := by
  have hmod : (256 : ℕ) ^ 8 = 2 ^ 64 := by norm_num
  have hvalue : ((uint64 n % 2 ^ 64 : ℕ) : ℤ) = n % 2 ^ 64 := by
    unfold uint64
    omega
  rw [bigEndianValue_bigEndian, hmod, hvalue]
  unfold int64
  rw [show ((2 : ℤ) ^ 64) = ((2 ^ 64 : ℕ) : ℤ) by norm_num, Int.emod_bmod]
  exact int64_of_fits h.1 h.2

theorem unmarshal_marshal {p : AgentTokenPayload} (h : p.Fits) :
    AgentTokenPayload.unmarshal p.marshal = some p := by
  have hid : 0 < p.agentID.length := List.length_pos_iff.mpr h.agentID
  have hlong : ¬ p.marshal.length ≤ agentTokenFixedSize := by
    simp [AgentTokenPayload.marshal, agentTokenFixedSize]
    omega
  have hnext : ∀ (n : ℕ) (s : GoString), (bigEndian 8 n ++ s).drop 8 = s :=
    fun n s => List.drop_left' (bigEndian_length 8 n)
  have hfirst : ∀ (n : ℕ) (s : GoString), (bigEndian 8 n ++ s).take 8 = bigEndian 8 n :=
    fun n s => List.take_left' (bigEndian_length 8 n)
  have hexpires : p.marshal.drop 8 = bigEndian 8 (uint64 p.expires) ++
      (bigEndian 8 (uint64 p.runningExpires) ++ (bigEndian 8 p.serial ++ p.agentID)) :=
    hnext _ _
  have hrunning : p.marshal.drop 16 = bigEndian 8 (uint64 p.runningExpires) ++
      (bigEndian 8 p.serial ++ p.agentID) := by
    rw [show 16 = 8 + 8 from rfl, ← List.drop_drop, hexpires, hnext]
  have hserial : p.marshal.drop 24 = bigEndian 8 p.serial ++ p.agentID := by
    rw [show 24 = 16 + 8 from rfl, ← List.drop_drop, hrunning, hnext]
  have hagent : p.marshal.drop 32 = p.agentID := by
    rw [show 32 = 24 + 8 from rfl, ← List.drop_drop, hserial, hnext]
  have hcount : bigEndianValue (bigEndian 8 p.serial) = p.serial := by
    rw [bigEndianValue_bigEndian]
    exact Nat.mod_eq_of_lt h.serial
  unfold AgentTokenPayload.unmarshal
  rw [if_neg hlong, hexpires, hrunning, hserial, show agentTokenFixedSize = 32 from rfl, hagent,
    hfirst, hfirst, hfirst, int64_read h.expires, int64_read h.runningExpires, hcount,
    AgentTokenPayload.marshal, hfirst, int64_read h.issued]

/-- The signature of a token is over its text, and covers the fields. -/
theorem verify_signedText (mac : Mac) {p : AgentTokenPayload} (h : p.Fits) :
    verify mac (signedText p) (Base64.encode (mac (signedText p)).1) = some p := by
  unfold verify
  rw [Base64.decode_encode]
  dsimp only
  rw [if_neg (fun hne => hne rfl), signedText, List.drop_left, Base64.decode_encode]
  exact unmarshal_marshal h

theorem dot_not_mem_encode (bytes : GoString) : dot ∉ Base64.encode bytes :=
  Base64.not_mem_encode (by decide) bytes

theorem cutLast_sign (mac : Mac) (p : AgentTokenPayload) :
    cutLast dot (sign mac p) = some (signedText p, Base64.encode (mac (signedText p)).1) :=
  cutLast_append _ (dot_not_mem_encode _)

/-- What verifies is a token's text with the one spelling of its signature. -/
theorem eq_of_verify {mac : Mac} {signed signature : GoString} {p : AgentTokenPayload}
    (h : verify mac signed signature = some p) (hlength : signature.length = agentTokenSignatureLen) :
    Base64.decode signature = some (mac signed).1 ∧ signature = Base64.encode (mac signed).1 := by
  unfold verify at h
  cases hdecode : Base64.decode signature with
  | none =>
    rw [hdecode] at h
    cases h
  | some sig =>
    rw [hdecode] at h
    dsimp only at h
    by_cases hsig : (mac signed).1 = sig
    · subst hsig
      refine ⟨rfl, Base64.eq_encode_of_decode hdecode ?_⟩
      rw [(mac signed).2]
      exact hlength
    · rw [if_pos hsig] at h
      cases h

structure AgentTokenState where
  revokedThrough : ℕ
  expires : ℤ

structure AgentTokenIssuer where
  serial : ℕ := 0
  agents : GoMap GoString AgentTokenState := ∅
  sweepAt : ℕ := agentTokenSweepFloor

namespace AgentTokenIssuer

def forgetExpired (t : AgentTokenIssuer) (running : ℤ) : AgentTokenIssuer :=
  let agents := t.agents.deleteIf fun _ state => state.expires ≤ running
  { t with agents := agents, sweepAt := max agentTokenSweepFloor (2 * agents.keys.length) }

/-- The fields of the next token. -/
def nextPayload (t : AgentTokenIssuer) (agentID : GoString) (wall running : ℤ) :
    AgentTokenPayload where
  agentID := agentID
  issued := wall
  expires := int64 (wall + agentTokenTTL)
  runningExpires := int64 (running + agentTokenTTL)
  serial := (t.serial + 1) % 2 ^ 64

def issue (mac : Mac) (t : AgentTokenIssuer) (agentID : GoString) (wall running : ℤ) :
    AgentTokenIssuer × Except String (GoString × AgentTokenClaims) :=
  if !issuableAgentID agentID then (t, .error errAgentTokenAgentID)
  else
    let p := t.nextPayload agentID wall running
    let t := { t with serial := p.serial }
    let t := if t.sweepAt ≤ t.agents.keys.length then t.forgetExpired running else t
    let state := { revokedThrough := uint64 (p.serial - 1), expires := p.runningExpires }
    ({ t with agents := AList.insert agentID state t.agents }, .ok (sign mac p, p.claims))

/-- Whether a token with these fields still works; the agent's state and the clocks are
read together. -/
def judge (t : AgentTokenIssuer) (p : AgentTokenPayload) (wall running : ℤ) :
    Except String AgentTokenClaims :=
  match t.agents.lookup p.agentID with
  | some state =>
    if p.serial ≤ state.revokedThrough then .error errAgentTokenRevoked
    else if p.expires ≤ wall ∨ p.runningExpires ≤ running then .error errAgentTokenExpired
    else .ok p.claims
  | none =>
    if p.expires ≤ wall ∨ p.runningExpires ≤ running then .error errAgentTokenExpired
    else .error errAgentTokenInvalid

def check (mac : Mac) (t : AgentTokenIssuer) (token : GoString) (wall running : ℤ) :
    Except String AgentTokenClaims :=
  if maxAgentTokenLen < token.length || !agentTokenPrefix.isPrefixOf token then
    .error errAgentTokenInvalid
  else
    match cutLast dot token with
    | none => .error errAgentTokenInvalid
    | some (signed, signature) =>
      if signed.length < agentTokenPrefix.length || signature.length ≠ agentTokenSignatureLen then
        .error errAgentTokenInvalid
      else
        match verify mac signed signature with
        | none => .error errAgentTokenInvalid
        | some p => t.judge p wall running

def revoke (t : AgentTokenIssuer) (agentID : GoString) : AgentTokenIssuer :=
  match t.agents.lookup agentID with
  | some state =>
    { t with agents := AList.insert agentID { state with revokedThrough := t.serial } t.agents }
  | none => t

end AgentTokenIssuer

theorem issuable_length {id : GoString} (h : issuableAgentID id = true) :
    id ≠ [] ∧ id.length ≤ maxAgentIDLen := by
  unfold issuableAgentID validAgentID at h
  by_cases hempty : id = []
  · simp [hempty] at h
  · refine ⟨hempty, ?_⟩
    by_contra hlong
    simp [hempty, not_le.mp hlong] at h

/-- No token that is issued is too long. -/
theorem sign_length (mac : Mac) {p : AgentTokenPayload} (h : p.agentID.length ≤ maxAgentIDLen) :
    (sign mac p).length ≤ maxAgentTokenLen := by
  have hfields : p.marshal.length = 32 + p.agentID.length := by
    simp [AgentTokenPayload.marshal]
    omega
  simp only [sign, signedText, List.length_append, List.length_cons, Base64.encode_length, hfields,
    (mac _).2]
  unfold maxAgentTokenLen agentTokenSignatureLen agentTokenFixedSize Base64.encodedLen
  unfold maxAgentIDLen at *
  omega

/-- The check of an issued token comes down to the agent's state and the clocks. -/
theorem check_sign (mac : Mac) (t : AgentTokenIssuer) {p : AgentTokenPayload} (h : p.Fits)
    (hlong : p.agentID.length ≤ maxAgentIDLen) (wall running : ℤ) :
    t.check mac (sign mac p) wall running = t.judge p wall running := by
  have hlength := sign_length mac hlong
  have hstart : agentTokenPrefix.isPrefixOf (sign mac p) = true := by
    apply List.isPrefixOf_iff_prefix.mpr
    unfold sign signedText
    rw [List.append_assoc]
    exact List.prefix_append _ _
  have hsignature : (Base64.encode (mac (signedText p)).1).length = agentTokenSignatureLen := by
    rw [Base64.encode_length, (mac _).2]
    rfl
  have hsigned : ¬ (signedText p).length < agentTokenPrefix.length := by
    unfold signedText
    rw [List.length_append]
    omega
  unfold AgentTokenIssuer.check
  rw [hstart, cutLast_sign]
  simp only [not_lt.mpr hlength, hsignature, hsigned, decide_false, Bool.not_true, Bool.or_self,
    ne_eq, not_true_eq_false, Bool.false_eq_true, if_false, verify_signedText mac h]

/-- An accepted token is its text with the signature of the text. -/
theorem eq_of_check {mac : Mac} {t : AgentTokenIssuer} {token : GoString} {wall running : ℤ}
    {claims : AgentTokenClaims} (h : t.check mac token wall running = .ok claims) :
    ∃ signed signature p, cutLast dot token = some (signed, signature) ∧
      Base64.decode signature = some (mac signed).1 ∧
      token = signed ++ dot :: Base64.encode (mac signed).1 ∧
      verify mac signed (Base64.encode (mac signed).1) = some p ∧
      t.judge p wall running = .ok claims := by
  unfold AgentTokenIssuer.check at h
  split_ifs at h with hform
  cases hcut : cutLast dot token with
  | none =>
    rw [hcut] at h
    cases h
  | some parts =>
    obtain ⟨signed, signature⟩ := parts
    rw [hcut] at h
    dsimp only at h
    split_ifs at h with hlength
    cases hverify : verify mac signed signature with
    | none =>
      rw [hverify] at h
      cases h
    | some p =>
      rw [hverify] at h
      simp only [Bool.or_eq_true, decide_eq_true_eq, not_or, not_not] at hlength
      obtain ⟨hdecode, heq⟩ := eq_of_verify hverify hlength.2
      refine ⟨signed, signature, p, rfl, hdecode, ?_, ?_, h⟩
      · rw [← heq]
        exact eq_of_cutLast hcut
      · rw [← heq]
        exact hverify

end Persatrix.Security
