import Persatrix.AccountHistory
import Persatrix.AgentTokenTable

/-!
# The evidence of a POST

Each stage of a POST is reached with evidence in the log: the check of its token, or the reads of
its session and account. What comes later in the log does not take the evidence away, so that it is
there when the message is stored.
-/
namespace Persatrix.Server
open Accounts Channels Registry Security

section
variable {log : List PostNote} {i : ℕ} {r : PostRequest}

theorem ProvedAgent.later {agent : GoString} (h : ProvedAgent log i r agent)
    (notes : List PostNote) : ProvedAgent (log ++ notes) i r agent where
  checked := by
    obtain ⟨earlier, now, later, g, rfl, hheld⟩ := h.checked
    refine ⟨earlier, now, later ++ notes, g, ?_, hheld⟩
    rw [List.append_assoc, List.cons_append]
  alone := h.alone
  named := h.named

theorem ProvedAccount.later {a : Account} (h : ProvedAccount log i r a) (notes : List PostNote) :
    ProvedAccount (log ++ notes) i r a := by
  obtain ⟨token, earlier, now, between, later, expiresAt, rfl, hrest⟩ := h
  refine ⟨token, earlier, now, between, later ++ notes, expiresAt, ?_, hrest⟩
  simp only [List.append_assoc, List.cons_append]

theorem BoundTo.later {msg : ChannelMessage} (h : BoundTo log i r msg) (notes : List PostNote) :
    BoundTo (log ++ notes) i r msg := by
  cases h with
  | agent hproved => exact .agent (hproved.later notes)
  | account a hsender hproved htype =>
    exact .account a hsender (hproved.later notes) fun htyped =>
      List.mem_append_left _ (htype htyped)

/-- The first half of the proof of an account. -/
def ProvedSession (log : List PostNote) (post : ℕ) (r : PostRequest) (session : Session) : Prop :=
  ∃ token earlier now later, log = earlier ++ .sessionRead post now :: later ∧ Shows r token ∧
    sessionOf token earlier = some ⟨session.accountID, session.expiresAt⟩ ∧ now < session.expiresAt

theorem ProvedSession.later {session : Session} (h : ProvedSession log i r session)
    (notes : List PostNote) : ProvedSession (log ++ notes) i r session := by
  obtain ⟨token, earlier, now, later, rfl, hrest⟩ := h
  refine ⟨token, earlier, now, later ++ notes, ?_, hrest⟩
  rw [List.append_assoc, List.cons_append]

/-- What is known of the caller that the middleware has found. -/
inductive Identified (log : List PostNote) (post : ℕ) (r : PostRequest) (ident : AuthIdentity) :
    Prop
  | nobody (hagent : ident.agentID = []) (hauth : ident.authenticated = false)
  | agent (hagent : ident.agentID ≠ []) (hauth : ident.authenticated = false)
      (hproved : ProvedAgent log post r ident.agentID)
  | account (a : Account) (hagent : ident.agentID = []) (hauth : ident.authenticated = true)
      (hparticipant : ident.participantID = a.participantID) (hproved : ProvedAccount log post r a)

theorem Identified.later {ident : AuthIdentity} (h : Identified log i r ident)
    (notes : List PostNote) : Identified (log ++ notes) i r ident := by
  cases h with
  | nobody hagent hauth => exact .nobody hagent hauth
  | agent hagent hauth hproved => exact .agent hagent hauth (hproved.later notes)
  | account a hagent hauth hparticipant hproved =>
    exact .account a hagent hauth hparticipant (hproved.later notes)

/-- What the log holds of a POST at a stage. -/
inductive Evidence (log : List PostNote) (post : ℕ) (r : PostRequest) : PostStage → Prop
  | arrived : Evidence log post r .arrived
  | tokenChecked : Evidence log post r (.tokenChecked [])
  | sessionRead (session : Session) (transport : Transport) (now : ℤ)
      (hproved : ProvedSession log post r session) :
      Evidence log post r (.sessionRead [] session transport now)
  | identified (ident : AuthIdentity) (hident : Identified log post r ident)
      (hpolicy : policyForRequest r ≠ .everyone → ident.authenticated = true) :
      Evidence log post r (.identified ident)
  | composed (msg : ChannelMessage) (hbound : BoundTo log post r msg) :
      Evidence log post r (.composed msg)
  | refused (refusal : Refusal) : Evidence log post r (.refused refusal)
  | stored (msg : ChannelMessage) (hbound : BoundTo log post r msg) :
      Evidence log post r (.stored msg)

theorem Evidence.later {stage : PostStage} (h : Evidence log i r stage) (notes : List PostNote) :
    Evidence (log ++ notes) i r stage := by
  cases h with
  | arrived => exact .arrived
  | tokenChecked => exact .tokenChecked
  | sessionRead session transport now hproved =>
    exact .sessionRead session transport now (hproved.later notes)
  | identified ident hident hpolicy => exact .identified ident (hident.later notes) hpolicy
  | composed msg hbound => exact .composed msg (hbound.later notes)
  | refused refusal => exact .refused refusal
  | stored msg hbound => exact .stored msg (hbound.later notes)

/-! ### The middleware -/

theorem enforcePolicy_ok {ident admitted : AuthIdentity}
    (h : enforcePolicy r ident = .ok admitted) :
    admitted = ident ∧ (policyForRequest r ≠ .everyone → ident.authenticated = true) := by
  unfold enforcePolicy at h
  dsimp only at h
  split_ifs at h with heveryone hanonymous hrole
  · cases h
    exact ⟨rfl, fun hne => absurd heveryone hne⟩
  · cases h
    exact ⟨rfl, fun _ => by simpa using hanonymous⟩

theorem Evidence.settled {ident : AuthIdentity} (h : Identified log i r ident) :
    Evidence log i r (settled (enforcePolicy r ident)) := by
  cases henforce : enforcePolicy r ident with
  | error refusal => exact .refused refusal
  | ok admitted =>
    obtain ⟨rfl, hpolicy⟩ := enforcePolicy_ok henforce
    exact .identified _ h hpolicy

theorem Evidence.nobody : Evidence log i r (withoutAccount r []) :=
  Evidence.settled (.nobody rfl rfl)

/-- A session token that is presented is shown. -/
theorem shows_of_presentedToken {token : GoString} {transport : Transport}
    (h : presentedToken r = some (token, transport)) : Shows r token := by
  unfold presentedToken at h
  dsimp only at h
  split_ifs at h with hheader hbearer
  · cases h
    rw [Bool.and_eq_true, decide_eq_true_eq] at hbearer
    obtain ⟨hstart, hlength⟩ := hbearer
    obtain ⟨rest, hrest⟩ := List.isPrefixOf_iff_prefix.mp hstart
    rw [← hrest, List.drop_left]
    refine ⟨?_, .inl hrest.symm⟩
    rintro rfl
    rw [← hrest, List.append_nil] at hlength
    exact lt_irrefl _ hlength
  · rw [not_not] at hheader
    cases hcookie : r.cookie sessionCookieName with
    | none =>
      rw [hcookie] at h
      cases h
    | some value =>
      rw [hcookie] at h
      dsimp only at h
      split_ifs at h with hempty
      cases h
      exact ⟨hempty, .inr ⟨hheader, hcookie⟩⟩

theorem not_shows {token : GoString} (hnone : presentedToken r = none)
    (hheader : r.header "Authorization" = []) : ¬Shows r token := by
  intro hshows
  obtain ⟨hne, hbearer | ⟨-, hcookie⟩⟩ := hshows
  · rw [hheader] at hbearer
    exact hne (List.append_eq_nil_iff.mp hbearer.symm).2
  · unfold presentedToken at hnone
    rw [hheader, hcookie] at hnone
    simp [hne] at hnone

/-- What an agent token that passes the check proves. -/
theorem checkAgentToken_ok {mac : Mac} {t : AgentTokenIssuer} {readings : List ℤ}
    {now : ClockReading} {allowed : Bool} {agentID : GoString}
    (htabled : Tabled mac t (agentDeeds log) readings)
    (hunforged : Unforged mac (agentDeeds log) (r.header agentTokenHeader))
    (h : checkAgentToken mac t r now allowed = .ok agentID) :
    agentID = [] ∨ presentedToken r = none ∧
      ProvedAgent (log ++ [.tokenChecked i now]) i r agentID := by
  unfold checkAgentToken at h
  dsimp only at h
  split_ifs at h with hempty haccount
  · cases h
    exact .inl rfl
  · rw [Bool.or_eq_true, not_or] at haccount
    have hnone : presentedToken r = none := by simpa using haccount.1
    have hheader : r.header "Authorization" = [] := by simpa using haccount.2
    cases hcheck : t.check mac (r.header agentTokenHeader) now.wall now.running with
    | error err =>
      rw [hcheck] at h
      cases h
    | ok claims =>
      rw [hcheck] at h
      dsimp only at h
      split_ifs at h with hnamed
      cases h
      obtain ⟨g, hheld, htoken, -, hwall, hrunning⟩ := htabled.check_live hunforged hcheck
      refine .inr ⟨hnone, ?_, ⟨hheader, fun _ => not_shows hnone hheader⟩, ?_⟩
      · exact ⟨log, now, [], g, rfl, hheld, htoken.symm, hwall, hrunning⟩
      · by_contra hother
        rw [not_or] at hother
        exact hnamed (by simpa using hother)

theorem Evidence.checkToken {mac : Mac} {t : AgentTokenIssuer} {readings : List ℤ}
    {now : ClockReading} (allowed : Bool) (htabled : Tabled mac t (agentDeeds log) readings)
    (hunforged : Unforged mac (agentDeeds log) (r.header agentTokenHeader)) :
    Evidence (log ++ [.tokenChecked i now]) i r (checkTokenStage mac t r now allowed) := by
  unfold checkTokenStage
  cases hcheck : checkAgentToken mac t r now allowed with
  | error refusal => exact .refused refusal
  | ok agentID =>
    dsimp only
    rcases checkAgentToken_ok htabled hunforged hcheck with rfl | ⟨hnone, hproved⟩
    · cases presentedToken r with
      | none => exact .nobody
      | some shown => exact .tokenChecked
    · rw [hnone]
      dsimp only
      by_cases hagent : agentID = []
      · rw [hagent]
        exact .nobody
      · exact .settled (.agent hagent rfl hproved)

theorem Evidence.readSession {hash : GoString → GoString} {store : Accounts.Store} {now : ℤ}
    (fault : Bool) (hhistory : History hash store log)
    (hdistinct : ∀ token transport, presentedToken r = some (token, transport) →
      ∀ other accountID expiresAt, .issued other accountID expiresAt ∈ log →
        hash other = hash token → other = token) :
    Evidence (log ++ [.sessionRead i now]) i r (readSessionStage hash store r [] fault now) := by
  unfold readSessionStage
  cases hshown : presentedToken r with
  | none => exact .nobody
  | some shown =>
    obtain ⟨token, transport⟩ := shown
    dsimp only
    split_ifs
    · exact .nobody
    · cases hopen : store.openSession (hash token) now with
      | error err => exact .nobody
      | ok session =>
        obtain ⟨other, hhash, hlive, hgrant⟩ := hhistory.openSession hopen
        obtain ⟨accountID, expiresAt, hissued⟩ := issued_of_sessionOf hgrant
        have heq := hdistinct token transport hshown other accountID expiresAt hissued hhash
        subst heq
        exact .sessionRead session transport now
          ⟨other, log, now, [], rfl, shows_of_presentedToken hshown, hgrant, hlive⟩

theorem Evidence.readAccount {hash : GoString → GoString} {store : Accounts.Store}
    {urlHost : GoString → Option GoString} {session : Session} {transport : Transport}
    (fault : Bool) (hhistory : History hash store log) (hproved : ProvedSession log i r session) :
    Evidence (log ++ [.accountRead i]) i r
      (readAccountStage urlHost store r [] session transport fault) := by
  unfold readAccountStage
  split_ifs
  · exact .nobody
  · cases hbound : store.boundAccount session with
    | error err => exact .nobody
    | ok a =>
      obtain ⟨haccount, hid, hactive⟩ := hhistory.boundAccount hbound
      obtain ⟨token, earlier, now, later, rfl, hshows, hgrant, hlive⟩ := hproved
      dsimp only
      unfold admitAccount
      split_ifs
      · exact .refused _
      · refine .settled (.account a rfl rfl rfl ?_)
        refine ⟨token, earlier, now, later, [], session.expiresAt, ?_, hshows, ?_, hlive,
          haccount, hactive⟩
        · rw [List.append_assoc, List.cons_append]
        · rw [hid]
          exact hgrant

/-! ### The handlers -/

theorem readParticipantType_insert (metadata : Metadata) (t : String) :
    readParticipantType (AList.insert participantTypeMetadataKey (.str t) metadata) = t := by
  unfold readParticipantType
  rw [GoMap.lookup_insert, if_pos rfl]

theorem readParticipantType_stamp (metadata : Metadata) (t : String) :
    readParticipantType (stampParticipantType metadata t) =
      if t = "" then readParticipantType metadata else t := by
  unfold stampParticipantType
  split_ifs
  · rfl
  · exact readParticipantType_insert metadata t

/-- The stamps of the router leave the type of the sender. -/
theorem lookup_stamp (s : Stamps) (metadata : Metadata) :
    (s.stamp metadata).lookup participantTypeMetadataKey =
      metadata.lookup participantTypeMetadataKey := by
  have hdepth : participantTypeMetadataKey ≠ cascadeDepthMetadataKey := by decide
  have hinteraction : participantTypeMetadataKey ≠ interactionIDMetadataKey := by decide
  have hprevious : participantTypeMetadataKey ≠ previousInteractionIDMetadataKey := by decide
  have htrigger : participantTypeMetadataKey ≠ previousInteractionTriggerMetadataKey := by decide
  unfold Stamps.stamp
  cases s.depth <;> split_ifs <;>
    simp only [GoMap.lookup_insert, GoMap.lookup_erase, hdepth, hinteraction, hprevious, htrigger,
      if_false]

theorem readParticipantType_commit (stamps : Option Stamps) (msg : ChannelMessage) :
    readParticipantType (commitMessage stamps msg).metadata = readParticipantType msg.metadata := by
  cases stamps with
  | none => rfl
  | some s =>
    unfold readParticipantType commitMessage
    dsimp only
    rw [lookup_stamp]

theorem senderID_commit (stamps : Option Stamps) (msg : ChannelMessage) :
    (commitMessage stamps msg).senderID = msg.senderID := by
  cases stamps <;> rfl

theorem BoundTo.commit {msg : ChannelMessage} (h : BoundTo log i r msg) (stamps : Option Stamps) :
    BoundTo log i r (commitMessage stamps msg) := by
  cases h with
  | agent hproved =>
    apply BoundTo.agent
    rw [senderID_commit]
    exact hproved
  | account a hsender hproved htype =>
    refine .account a ?_ hproved ?_
    · rw [senderID_commit]
      exact hsender
    · rw [readParticipantType_commit]
      exact htype

/-- What a publish that is let through names. -/
theorem handlePublishMessage_ok {registry : InMemoryRegistry} {ident : AuthIdentity}
    {channelID : String} {req : PublishMessageRequest} {fault : Bool} {lifted : List String}
    {msg : ChannelMessage}
    (h : handlePublishMessage registry ident channelID req fault lifted = .ok msg) :
    msg.senderID = req.senderID ∧ publishSenderRefused ident req.senderID req.metadata = false ∧
      (readParticipantType msg.metadata = readParticipantType req.metadata ∨
        readParticipantType msg.metadata =
          resolveSenderParticipantType registry fault req.senderID) := by
  unfold handlePublishMessage at h
  dsimp only at h
  split_ifs at h with hsender hcontent hmentions hclaimed hrefused hstamp
  · cases h
    refine ⟨rfl, by simpa using hrefused, ?_⟩
    dsimp only
    rw [readParticipantType_stamp]
    split_ifs
    · exact .inl rfl
    · exact .inr rfl
  · cases h
    exact ⟨rfl, by simpa using hrefused, .inl rfl⟩

theorem resolveSenderParticipantType_agent {registry : InMemoryRegistry} {fault : Bool}
    {sender : String}
    (h : resolveSenderParticipantType registry fault sender = participantTypeAgent) :
    (registry.lookup (utf8 sender)).isSome = true := by
  unfold resolveSenderParticipantType at h
  split_ifs at h with hfault
  · exact absurd h (by decide)
  · cases hrow : registry.lookup (utf8 sender) with
    | some row => rfl
    | none =>
      rw [hrow] at h
      exact absurd h (by decide)

/-- What a chat that is let through names. -/
theorem handleChat_ok {registry : InMemoryRegistry} {ident : AuthIdentity} {agentID : String}
    {req : ChatRequest} {sessionID : String} {msg : ChannelMessage}
    (h : handleChat registry ident agentID req sessionID = .ok msg) :
    msg.senderID = ident.participantID ∧ readParticipantType msg.metadata =
      if req.participantType = "" then participantTypeUser else req.participantType := by
  unfold handleChat at h
  dsimp only at h
  cases hrow : registry.lookup (utf8 agentID) with
  | none =>
    rw [hrow] at h
    split_ifs at h
  | some agent =>
    rw [hrow] at h
    dsimp only at h
    split_ifs at h
    cases hdm : Memberships.canonicalDMID ident.participantID agentID with
    | error err =>
      rw [hdm] at h
      cases h
    | ok dm =>
      rw [hdm] at h
      cases h
      have htyped : (if req.participantType = "" then participantTypeUser
          else req.participantType) ≠ "" := by
        split_ifs with hempty
        · decide
        · exact hempty
      refine ⟨rfl, ?_⟩
      unfold chatMessage
      dsimp only
      rw [readParticipantType_stamp, if_neg htyped]

theorem Evidence.handle {registry : InMemoryRegistry} {ident : AuthIdentity} {fault : Bool}
    {lifted : List String} {sessionID : String} (hident : Identified log i r ident)
    (hpolicy : policyForRequest r ≠ .everyone → ident.authenticated = true)
    (hproper : ∀ agentID req, r.call = .chat agentID req →
      req.participantType = participantTypeAgent →
        (registry.lookup (utf8 ident.participantID)).isSome = true) :
    Evidence
      (log ++ noteAction registry i (.handle fault lifted sessionID)
        (handleStage registry r ident fault lifted sessionID))
      i r (handleStage registry r ident fault lifted sessionID) := by
  unfold handleStage
  cases hpost : handlePost registry ident r.call fault lifted sessionID with
  | error refusal => exact .refused refusal
  | ok msg =>
    apply Evidence.composed
    unfold noteAction
    dsimp only
    unfold handlePost at hpost
    cases hcall : r.call with
    | publish channelID req =>
      rw [hcall] at hpost
      obtain ⟨hsender, hrefused, htype⟩ := handlePublishMessage_ok hpost
      unfold publishSenderRefused at hrefused
      cases hident with
      | nobody hagent hauth =>
        rw [if_neg (not_not.mpr hagent), if_neg (by simp [hauth])] at hrefused
        cases hrefused
      | agent hagent hauth hproved =>
        rw [if_pos hagent] at hrefused
        have hspeaks : utf8 req.senderID = ident.agentID := by simpa using hrefused
        apply BoundTo.agent
        rw [hsender, hspeaks]
        exact hproved.later _
      | account a hagent hauth hparticipant hproved =>
        rw [if_neg (not_not.mpr hagent), if_pos hauth] at hrefused
        simp only [Bool.not_eq_false', Bool.and_eq_true, Bool.or_eq_true,
          decide_eq_true_eq] at hrefused
        obtain ⟨hspeaks, hclaimed⟩ := hrefused
        refine .account a ?_ (hproved.later _) ?_
        · rw [hsender, hspeaks, hparticipant]
        · intro hagentType
          rcases htype with hkept | hresolved
          · rw [hkept] at hagentType
            rw [hagentType] at hclaimed
            exact absurd hclaimed (by decide)
          · rw [hresolved] at hagentType
            rw [hsender, resolveSenderParticipantType_agent hagentType]
            simp
    | chat agentID req =>
      rw [hcall] at hpost
      obtain ⟨hsender, htype⟩ := handleChat_ok hpost
      have hauth : ident.authenticated = true := by
        apply hpolicy
        unfold policyForRequest
        rw [hcall]
        dsimp only
        decide
      cases hident with
      | nobody hagent hnone =>
        rw [hauth] at hnone
        cases hnone
      | agent hagent hnone hproved =>
        rw [hauth] at hnone
        cases hnone
      | account a hagent hsome hparticipant hproved =>
        refine .account a ?_ (hproved.later _) ?_
        · rw [hsender, hparticipant]
        · intro hagentType
          rw [htype] at hagentType
          have hclaimed : req.participantType = participantTypeAgent := by
            split_ifs at hagentType with hempty
            · exact absurd hagentType (by decide)
            · exact hagentType
          rw [hsender, hproper agentID req hcall hclaimed]
          simp

end

end Persatrix.Server
