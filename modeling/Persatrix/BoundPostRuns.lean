import Persatrix.PostEvidence

/-!
# Whom the stored messages speak for

A POST keeps its evidence in whatever order agents, accounts and other POSTs take their steps, so
that each message speaks for the caller of its POST. The one way round it is a chat: its body may
claim the type of an agent.
-/
namespace Persatrix.Server
open Accounts Channels Registry Security

section
variable {mac : Mac} {hash : GoString → GoString} {urlHost : GoString → Option GoString}

theorem agentNotes_append (log notes : List PostNote) :
    agentNotes (log ++ notes) = agentNotes log ++ agentNotes notes := List.filterMap_append

theorem agentNotes_agents (notes : List EnrollmentNote) :
    agentNotes (notes.map .agents) = notes := by
  induction notes with
  | nil => rfl
  | cons n notes ih => exact congrArg (n :: ·) ih

/-- Notes of accounts and POSTs tell nothing of agents. -/
theorem agentNotes_eq_nil {notes : List PostNote} (h : ∀ n ∈ notes, ∀ m, n ≠ .agents m) :
    agentNotes notes = [] := by
  apply List.filterMap_eq_nil_iff.mpr
  intro n hn
  cases n with
  | agents m => exact absurd rfl (h _ hn m)
  | _ => rfl

theorem noteAccounts_own {s : PostState} {e : AccountEvent} {n : PostNote}
    (h : n ∈ noteAccounts hash s e) :
    (∀ m, n ≠ .agents m) ∧ ∀ i msg, n ≠ .stored i msg := by
  constructor
  all_goals
    intros
    rintro rfl
    unfold noteAccounts at h
    cases e with
    | beginIssue accountID ttl => cases h
    | prune now => cases h
    | revoke token now => simp at h
    | create a =>
      dsimp only at h
      split at h <;> simp at h
    | setStatus id status =>
      dsimp only at h
      split at h <;> simp at h
    | finishIssue login token now =>
      dsimp only at h
      split at h
      · cases h
      · split at h <;> simp at h

theorem noteAction_apart {registry : InMemoryRegistry} {i : ℕ} {action : PostAction}
    {stage : PostStage} {n : PostNote} (h : n ∈ noteAction registry i action stage) :
    n.IsApart ∧ ∀ m, n ≠ .agents m := by
  unfold noteAction at h
  split at h
  all_goals
    first
    | rw [List.mem_singleton] at h
      subst h
      exact ⟨⟨fun _ _ => rfl, fun _ _ => rfl⟩, fun m hm => by cases hm⟩
    | cases h

/-- What an action of a POST leads to. -/
theorem step_act {s t : PostState} {i : ℕ} {action : PostAction}
    (h : (postSystem mac hash urlHost).step s (.act i action) = some t) :
    ∃ p stage, s.posts[i]? = some p ∧ nextStage mac hash urlHost s p action = some stage ∧
      t = s.advance i p action stage ∧ postNotes mac hash s (.act i action) t =
        noteAction s.agents.store.registry i action stage := by
  unfold postSystem at h
  dsimp only at h
  cases hpost : s.posts[i]? with
  | none =>
    rw [hpost] at h
    cases h
  | some p =>
    rw [hpost] at h
    obtain ⟨stage, hstage, rfl⟩ := Option.map_eq_some_iff.mp h
    refine ⟨p, stage, rfl, hstage, rfl, ?_⟩
    have hlt : i < s.posts.length := (List.getElem?_eq_some_iff.mp hpost).1
    unfold postNotes PostState.advance
    dsimp only
    rw [List.getElem?_set_self hlt]

/-- Agents go their own way. -/
theorem agents_reaches {C : PostState × List PostNote → PostEvent → Prop}
    (hC : ∀ q e, C q e → Proper q.1 e) {q : PostState × List PostNote}
    (h : ((postSystem mac hash urlHost).logged (postNotes mac hash)).Reaches C q) :
    ((enrollmentSystem mac).logged (enrollmentNotes mac)).Reaches (fun p e => SerialFits p.1 e)
      (q.1.agents, agentNotes q.2) := by
  induction h with
  | init => exact .init
  | @step q u e _ hc hstep ih =>
    obtain ⟨hnext, hlog⟩ := System.logged_step hstep
    rw [hlog, agentNotes_append]
    have hstill : u.1.agents = q.1.agents →
        agentNotes (postNotes mac hash q.1 e u.1) = [] →
        ((enrollmentSystem mac).logged (enrollmentNotes mac)).Reaches
          (fun p e => SerialFits p.1 e)
          (u.1.agents, agentNotes q.2 ++ agentNotes (postNotes mac hash q.1 e u.1)) := by
      intro hagents hnotes
      rw [hagents, hnotes, List.append_nil]
      exact ih
    cases e with
    | agents e =>
      obtain ⟨agents, hagents, hu⟩ := Option.map_eq_some_iff.mp hnext
      have hnotes : agentNotes (postNotes mac hash q.1 (.agents e) u.1) =
          enrollmentNotes mac q.1.agents e u.1.agents := agentNotes_agents _
      rw [hnotes, ← hu]
      refine ih.step (e := e) (hC q _ hc) ?_
      unfold System.logged
      dsimp only
      rw [hagents]
      rfl
    | accounts e =>
      apply hstill
      · exact (stepAccounts_rest hnext).1
      · exact agentNotes_eq_nil fun n hn => (noteAccounts_own hn).1
    | arrive r =>
      apply hstill
      · rw [← Option.some.inj hnext]
      · rfl
    | act i action =>
      obtain ⟨p, stage, -, -, ht, hnotes⟩ := step_act hnext
      apply hstill
      · rw [ht]
        rfl
      · rw [hnotes]
        exact agentNotes_eq_nil fun n hn => (noteAction_apart hn).2

/-- An action of a POST leads to a stage with evidence for it. -/
theorem Evidence.next {s : PostState} {log : List PostNote} {i : ℕ} {p : Post} {action : PostAction}
    {stage : PostStage} {readings : List ℤ} (h : Evidence log i p.request p.stage)
    (htabled : Tabled mac s.agents.store.issuer (agentDeeds log) readings)
    (hhistory : History hash s.store log) (hpost : s.posts[i]? = some p)
    (hassumed : Assumed mac hash (s, log) (.act i action)) (hproper : Proper s (.act i action))
    (hnext : nextStage mac hash urlHost s p action = some stage) :
    Evidence (log ++ noteAction s.agents.store.registry i action stage) i p.request stage := by
  obtain ⟨request, reached⟩ := p
  unfold nextStage at hnext
  dsimp only at h hnext ⊢
  cases action with
  | checkToken now allowed =>
    cases h with
    | arrived =>
      cases hnext
      exact .checkToken allowed htabled (hassumed _ hpost)
    | _ => cases hnext
  | readSession fault now =>
    cases h with
    | tokenChecked =>
      cases hnext
      exact .readSession fault hhistory fun token transport => hassumed _ token transport hpost
    | _ => cases hnext
  | readAccount fault refreshed =>
    cases h with
    | sessionRead session transport now hproved =>
      cases hnext
      exact .readAccount fault hhistory hproved
    | _ => cases hnext
  | handle fault lifted sessionID =>
    cases h with
    | identified ident hident hpolicy =>
      cases hnext
      exact .handle hident hpolicy fun agentID req hcall =>
        hproper _ ident agentID req hpost rfl hcall
    | _ => cases hnext
  | commit stamps =>
    cases h with
    | composed msg hbound =>
      cases hnext
      exact .stored _ ((hbound.commit stamps).later _)
    | _ => cases hnext
  | fail refusal =>
    split_ifs at hnext
    cases hnext
    exact .refused refusal

theorem sentIn_append (log notes : List PostNote) :
    sentIn (log ++ notes) = sentIn log ++ sentIn notes := List.filterMap_append

/-- The POSTs of a state are still there, with their requests. -/
def Continued (s t : PostState) : Prop :=
  ∀ (i : ℕ) (p : Post), s.posts[i]? = some p →
    ∃ p' : Post, t.posts[i]? = some p' ∧ p'.request = p.request

/-- Notes that are no messages leave the messages bound. -/
theorem AllBound.quiet {s t : PostState} {log notes : List PostNote} (h : AllBound s log)
    (hnotes : ∀ n ∈ notes, ∀ i msg, n ≠ .stored i msg) (hmessages : t.messages = s.messages)
    (hposts : Continued s t) : AllBound t (log ++ notes) := by
  constructor
  · have hnone : sentIn notes = [] := by
      apply List.filterMap_eq_nil_iff.mpr
      intro n hn
      cases n with
      | stored i msg => exact absurd rfl (hnotes _ hn i msg)
      | _ => rfl
    rw [sentIn_append, hnone, List.append_nil, hmessages]
    exact h.sent
  · intro earlier i msg later hsplit
    rcases List.append_eq_append_iff.mp hsplit with ⟨more, -, hmore⟩ | ⟨more, hlog, hmore⟩
    · exact absurd rfl (hnotes (.stored i msg) (by rw [hmore]; simp) i msg)
    · cases more with
      | nil =>
        rw [List.nil_append] at hmore
        exact absurd rfl (hnotes (.stored i msg) (by rw [← hmore]; simp) i msg)
      | cons n more =>
        obtain ⟨hn, -⟩ := List.cons.inj hmore
        subst hn
        obtain ⟨p, hp, hbound⟩ := h.bound earlier i msg more hlog
        obtain ⟨p', hp', hrequest⟩ := hposts i p hp
        refine ⟨p', hp', ?_⟩
        rw [hrequest]
        exact hbound

/-- A message that is stored with evidence is bound. -/
theorem AllBound.store {s t : PostState} {log : List PostNote} {i : ℕ} {p : Post}
    {msg : ChannelMessage} (h : AllBound s log) (hbound : BoundTo log i p.request msg)
    (hmessages : t.messages = s.messages ++ [msg]) (hposts : Continued s t)
    (hpost : s.posts[i]? = some p) : AllBound t (log ++ [.stored i msg]) := by
  constructor
  · rw [sentIn_append, hmessages, h.sent]
    rfl
  · intro earlier j other later hsplit
    rcases List.eq_nil_or_concat later with rfl | ⟨later, last, rfl⟩
    · obtain ⟨hlog, hlast⟩ := List.append_inj' hsplit rfl
      cases hlast
      obtain ⟨p', hp', hrequest⟩ := hposts i p hpost
      refine ⟨p', hp', ?_⟩
      rw [hrequest, ← hlog]
      exact hbound
    · rw [List.concat_eq_append, ← List.cons_append, ← List.append_assoc] at hsplit
      obtain ⟨hlog, -⟩ := List.append_inj' hsplit rfl
      obtain ⟨q, hq, hother⟩ := h.bound earlier j other later hlog
      obtain ⟨q', hq', hrequest⟩ := hposts j q hq
      refine ⟨q', hq', ?_⟩
      rw [hrequest]
      exact hother

/-- What a run keeps. -/
structure Kept (hash : GoString → GoString) (s : PostState) (log : List PostNote) : Prop where
  history : History hash s.store log
  posts : ∀ i p, s.posts[i]? = some p → Evidence log i p.request p.stage
  bound : AllBound s log

theorem Kept.init (hash : GoString → GoString) : Kept hash {} [] where
  history := History.init hash
  posts i p h := by cases h
  bound := ⟨rfl, fun earlier i msg later h => by cases earlier <;> cases h⟩

/-- A step beside the POSTs keeps their evidence. -/
theorem Kept.aside {s t : PostState} {log notes : List PostNote} (h : Kept hash s log)
    (hhistory : History hash t.store (log ++ notes))
    (hnotes : ∀ n ∈ notes, ∀ i msg, n ≠ .stored i msg) (hposts : t.posts = s.posts)
    (hmessages : t.messages = s.messages) : Kept hash t (log ++ notes) where
  history := hhistory
  posts i p hp := by
    rw [hposts] at hp
    exact (h.posts i p hp).later notes
  bound := by
    refine h.bound.quiet hnotes hmessages fun i p hp => ⟨p, ?_, rfl⟩
    rw [hposts]
    exact hp

theorem Kept.arrive {s : PostState} {log : List PostNote} (h : Kept hash s log) (r : PostRequest) :
    Kept hash { s with posts := s.posts ++ [{ request := r }] } log where
  history := h.history
  posts i p hp := by
    dsimp only at hp
    by_cases hlt : i < s.posts.length
    · rw [List.getElem?_append_left hlt] at hp
      exact h.posts i p hp
    · rw [List.getElem?_append_right (not_lt.mp hlt)] at hp
      rw [List.getElem?_singleton] at hp
      split_ifs at hp
      cases hp
      exact .arrived
  bound := by
    have hposts : Continued s { s with posts := s.posts ++ [{ request := r }] } := by
      intro i p hp
      refine ⟨p, ?_, rfl⟩
      dsimp only
      rw [List.getElem?_append_left (List.getElem?_eq_some_iff.mp hp).1]
      exact hp
    rw [← List.append_nil log]
    exact h.bound.quiet (List.forall_mem_nil _) rfl hposts

theorem sent_settled (x : Except Refusal AuthIdentity) : (settled x).sent = [] := by
  cases x <;> rfl

theorem sent_withoutAccount (r : PostRequest) (agentID : GoString) :
    (withoutAccount r agentID).sent = [] := sent_settled _

theorem sent_checkTokenStage (t : AgentTokenIssuer) (r : PostRequest) (now : ClockReading)
    (allowed : Bool) : (checkTokenStage mac t r now allowed).sent = [] := by
  unfold checkTokenStage
  split
  · rfl
  · split
    · exact sent_withoutAccount _ _
    · rfl

theorem sent_readSessionStage (store : Accounts.Store) (r : PostRequest) (agentID : GoString)
    (fault : Bool) (now : ℤ) : (readSessionStage hash store r agentID fault now).sent = [] := by
  unfold readSessionStage
  split
  · exact sent_withoutAccount _ _
  · split_ifs
    · exact sent_withoutAccount _ _
    · split
      · exact sent_withoutAccount _ _
      · rfl

theorem sent_readAccountStage (store : Accounts.Store) (r : PostRequest) (agentID : GoString)
    (session : Session) (transport : Transport) (fault : Bool) :
    (readAccountStage urlHost store r agentID session transport fault).sent = [] := by
  unfold readAccountStage
  split_ifs
  · exact sent_withoutAccount _ _
  · split
    · exact sent_withoutAccount _ _
    · exact sent_settled _

/-- Only a commit sends a message, and it is noted. -/
theorem sent_of_next {s : PostState} {p : Post} {action : PostAction} {stage : PostStage} (i : ℕ)
    (h : nextStage mac hash urlHost s p action = some stage) :
    (∃ stamps msg, p.stage = .composed msg ∧ stage = .stored (commitMessage stamps msg) ∧
      noteAction s.agents.store.registry i action stage =
        [.stored i (commitMessage stamps msg)]) ∨
    stage.sent = [] ∧ ∀ n ∈ noteAction s.agents.store.registry i action stage,
      ∀ j msg, n ≠ .stored j msg := by
  unfold nextStage at h
  cases action with
  | commit stamps =>
    dsimp only at h
    cases hstage : p.stage with
    | composed msg =>
      rw [hstage] at h
      cases h
      exact .inl ⟨stamps, msg, rfl, rfl, rfl⟩
    | _ =>
      rw [hstage] at h
      cases h
  | checkToken now allowed =>
    dsimp only at h
    split at h
    · cases h
      exact .inr ⟨sent_checkTokenStage _ _ _ _, by simp [noteAction]⟩
    · cases h
  | readSession fault now =>
    dsimp only at h
    split at h
    · cases h
      exact .inr ⟨sent_readSessionStage _ _ _ _ _, by simp [noteAction]⟩
    · cases h
  | readAccount fault refreshed =>
    dsimp only at h
    split at h
    · cases h
      exact .inr ⟨sent_readAccountStage _ _ _ _ _ _, by simp [noteAction]⟩
    · cases h
  | handle fault lifted sessionID =>
    dsimp only at h
    split at h
    · cases h
      unfold handleStage
      split
      · exact .inr ⟨rfl, by simp [noteAction]⟩
      · exact .inr ⟨rfl, by simp [noteAction]⟩
    · cases h
  | fail refusal =>
    dsimp only at h
    split_ifs at h
    cases h
    exact .inr ⟨rfl, by simp [noteAction]⟩

theorem continued_advance {s : PostState} {i : ℕ} {p : Post} (hpost : s.posts[i]? = some p)
    (action : PostAction) (stage : PostStage) : Continued s (s.advance i p action stage) := by
  have hlt : i < s.posts.length := (List.getElem?_eq_some_iff.mp hpost).1
  intro j q hq
  unfold PostState.advance
  dsimp only
  by_cases hij : i = j
  · subst hij
    rw [hpost] at hq
    cases hq
    exact ⟨_, List.getElem?_set_self hlt, rfl⟩
  · rw [List.getElem?_set_ne hij]
    exact ⟨q, hq, rfl⟩

/-- What an action does to the store is the refresh of a session. -/
theorem History.touch {store : Accounts.Store} {log : List PostNote} (h : History hash store log)
    (p : Post) (action : PostAction) : History hash (p.touch store action) log := by
  unfold Post.touch
  split
  · split
    · exact h.refresh _ _
    · exact h
  · exact h

theorem Kept.act {s : PostState} {log : List PostNote} {i : ℕ} {p : Post} {action : PostAction}
    {stage : PostStage} {readings : List ℤ} (h : Kept hash s log)
    (htabled : Tabled mac s.agents.store.issuer (agentDeeds log) readings)
    (hpost : s.posts[i]? = some p) (hassumed : Assumed mac hash (s, log) (.act i action))
    (hproper : Proper s (.act i action))
    (hnext : nextStage mac hash urlHost s p action = some stage) :
    Kept hash (s.advance i p action stage)
      (log ++ noteAction s.agents.store.registry i action stage) where
  history := (h.history.touch p action).apart fun n hn => (noteAction_apart hn).1
  posts j q hq := by
    have hlt : i < s.posts.length := (List.getElem?_eq_some_iff.mp hpost).1
    unfold PostState.advance at hq
    dsimp only at hq
    by_cases hij : i = j
    · subst hij
      rw [List.getElem?_set_self hlt] at hq
      cases hq
      exact (h.posts i p hpost).next htabled h.history hpost hassumed hproper hnext
    · rw [List.getElem?_set_ne hij] at hq
      exact (h.posts j q hq).later _
  bound := by
    have hcontinued := continued_advance hpost action stage
    rcases sent_of_next i hnext with ⟨stamps, msg, hcomposed, rfl, hnote⟩ | ⟨hsent, hnotes⟩
    · have hevidence := h.posts i p hpost
      rw [hcomposed] at hevidence
      rw [hnote]
      cases hevidence with
      | composed _ hbound => exact h.bound.store (hbound.commit stamps) rfl hcontinued hpost
    · apply h.bound.quiet hnotes _ hcontinued
      unfold PostState.advance
      dsimp only
      rw [hsent, List.append_nil]

/-- The POSTs of a run are kept with their evidence, under any clocks. -/
theorem kept_of_reaches {C : PostState × List PostNote → PostEvent → Prop}
    (hC : ∀ q e, C q e → Assumed mac hash q e ∧ Proper q.1 e) {q : PostState × List PostNote}
    (h : ((postSystem mac hash urlHost).logged (postNotes mac hash)).Reaches C q) :
    Kept hash q.1 q.2 := by
  induction h with
  | init => exact .init hash
  | @step q u e hreaches hc hstep ih =>
    have hagents := agents_reaches (fun q e h => (hC q e h).2) hreaches
    have htabled := (consistent_of_reaches hagents).tabled
    obtain ⟨hassumed, hproper⟩ := hC q e hc
    obtain ⟨hnext, hlog⟩ := System.logged_step hstep
    rw [hlog]
    cases e with
    | agents e =>
      obtain ⟨agents, -, hu⟩ := Option.map_eq_some_iff.mp hnext
      have hapart : ∀ n ∈ postNotes mac hash q.1 (.agents e) u.1,
          n.IsApart ∧ ∀ i msg, n ≠ .stored i msg := by
        intro n hn
        obtain ⟨m, -, rfl⟩ := List.mem_map.mp hn
        exact ⟨⟨fun _ _ => rfl, fun _ _ => rfl⟩, fun i msg hm => by cases hm⟩
      refine ih.aside ?_ (fun n hn => (hapart n hn).2) (by rw [← hu]) (by rw [← hu])
      rw [← hu]
      exact ih.history.apart fun n hn => (hapart n hn).1
    | accounts e =>
      obtain ⟨-, hposts, hmessages⟩ := stepAccounts_rest hnext
      have hnotes := fun n (hn : n ∈ noteAccounts hash q.1 e) => (noteAccounts_own hn).2
      exact ih.aside (ih.history.step hnext) hnotes hposts hmessages
    | arrive r =>
      rw [← Option.some.inj hnext]
      have hnotes : ∀ t, postNotes mac hash q.1 (.arrive r) t = [] := fun _ => rfl
      rw [hnotes, List.append_nil]
      exact ih.arrive r
    | act i action =>
      obtain ⟨p, stage, hpost, hstage, ht, hnotes⟩ := step_act hnext
      rw [hnotes, ht]
      exact ih.act htabled hpost hassumed hproper hstage

/-- In every run without a forged signature and without two session tokens of one hash, with a
serial number left for each issue, and in which no chat claims the type of an agent for a caller
that is not in the registry: each message that a POST stored speaks for the caller of the POST. -/
theorem stored_bound {s : PostState} {log : List PostNote}
    (h : ((postSystem mac hash urlHost).logged (postNotes mac hash)).Reaches
      (fun q e => Assumed mac hash q e ∧ Proper q.1 e) (s, log)) : AllBound s log :=
  (kept_of_reaches (fun _ _ hc => hc) h).bound

/-- The agent tokens that were issued. -/
def issuedTokens (log : List PostNote) : List GoString :=
  (agentDeeds log).filterMap fun
    | .issued _ g => some g.token
    | .revoked _ => none

theorem unforged_of_issued {log : List PostNote} {token : GoString} (h : token ∈ issuedTokens log) :
    Unforged mac (agentDeeds log) token := by
  obtain ⟨d, hd, htoken⟩ := List.mem_filterMap.mp h
  cases d with
  | revoked id => cases htoken
  | issued id g =>
    cases htoken
    intro signed signature hcut _
    refine ⟨id, g, hd, ?_⟩
    rw [hcut]
    rfl

/-- Agent tokens are shown only as they were issued. -/
def showsIssued (q : PostState × List PostNote) : PostEvent → Bool
  | .act _ (.checkToken _ _) => q.1.posts.all fun p =>
    p.request.header agentTokenHeader = [] ||
      (issuedTokens q.2).contains (p.request.header agentTokenHeader)
  | _ => true

theorem assumed_of_showsIssued {q : PostState × List PostNote} {e : PostEvent}
    (h : showsIssued q e = true) : Assumed mac id q e := by
  cases e with
  | act i action =>
    cases action with
    | checkToken now allowed =>
      intro p hp
      unfold showsIssued at h
      have hshown := List.all_eq_true.mp h p (List.mem_of_getElem? hp)
      rw [Bool.or_eq_true, decide_eq_true_eq, List.contains_iff_mem] at hshown
      rcases hshown with hempty | hissued
      · rw [hempty]
        intro signed signature hcut
        cases hcut
      · exact unforged_of_issued hissued
    | readSession fault now =>
      intro p token transport _ _ other accountID expiresAt _ hhash
      exact hhash
    | _ => trivial
  | _ => trivial

def PostCall.claimsAgent : PostCall → Bool
  | .chat _ req => req.participantType = participantTypeAgent
  | .publish _ _ => false

def claimsNone (s : PostState) : PostEvent → Bool
  | .agents _ => s.agents.store.issuer.serial + 1 < 2 ^ 64
  | .act _ (.handle _ _ _) => s.posts.all fun p => !p.request.call.claimsAgent
  | _ => true

theorem proper_of_claimsNone {s : PostState} {e : PostEvent} (h : claimsNone s e = true) :
    Proper s e := by
  cases e with
  | agents e =>
    have hserial : s.agents.store.issuer.serial + 1 < 2 ^ 64 := by simpa [claimsNone] using h
    cases e with
    | act action =>
      cases action with
      | issue failure now => exact hserial
      | _ => trivial
    | _ => trivial
  | act i action =>
    cases action with
    | handle fault lifted sessionID =>
      intro p ident agentID req hp _ hcall htype
      unfold claimsNone at h
      have hnone := List.all_eq_true.mp h p (List.mem_of_getElem? hp)
      rw [hcall] at hnone
      simp [PostCall.claimsAgent, htype] at hnone
    | _ => trivial
  | _ => trivial

def noHost : GoString → Option GoString := fun _ => none

/-- A login of bob and an agent that is about to have its token. -/
def setting : List PostEvent :=
  [.accounts (.create ⟨"u1", "bob", .user, "bob", .active⟩),
   .accounts (.beginIssue "u1" (60 * oneSecond)),
   .accounts (.finishIssue 0 (ascii "t") 0),
   .agents (.enter (.enroll { firstAgent with status := .healthy } [])),
   .agents (.act (.get none)),
   .agents (.act (.register none))]

/-- The agent and bob publish under their own names. -/
def publishRun : List PostEvent := setting ++
  [.agents (.act (.issue none noTime)),
   .agents (.act .remember),
   .arrive { headers := [(agentTokenHeader, sign blankMac (firstPayload 1))],
             call := .publish "group:g" { senderID := "a1", content := "hi" } },
   .arrive { headers := [("Authorization", ascii "Bearer t")],
             call := .publish "group:g" { senderID := "bob", content := "hi" } },
   .act 0 (.checkToken noTime true),
   .act 1 (.checkToken noTime true),
   .act 1 (.readSession false 0),
   .act 1 (.readAccount false false),
   .act 0 (.handle false [] "s"),
   .act 1 (.handle false [] "s"),
   .act 0 (.commit none),
   .act 1 (.commit none)]

def namesAndTypes (s : PostState) : List (String × String) :=
  s.messages.map fun m => (m.senderID, readParticipantType m.metadata)

theorem publishRun_bound : ∃ q : PostState × List PostNote, AllBound q.1 q.2 ∧
    namesAndTypes q.1 = [("a1", "agent"), ("bob", "user")] := by
  let guard : PostState × List PostNote → PostEvent → Prop :=
    fun q e => showsIssued q e = true ∧ claimsNone q.1 e = true
  obtain ⟨q, hexec, hnames⟩ : ∃ q, (((postSystem blankMac id noHost).logged
      (postNotes blankMac id)).guarded guard).exec publishRun = some q ∧
      namesAndTypes q.1 = [("a1", "agent"), ("bob", "user")] :=
    System.exists_of_exec (by decide)
  have hreaches := System.Reachable.of_guarded (System.reachable_exec hexec)
  exact ⟨q, stored_bound (hreaches.mono fun q e h =>
    ⟨assumed_of_showsIssued h.1, proper_of_claimsNone h.2⟩), hnames⟩

/-- Bob chats as an agent. -/
def chatRun : List PostEvent := setting ++
  [.arrive { headers := [("Authorization", ascii "Bearer t")],
             call := .chat "a1" { message := "hi", participantType := "agent" } },
   .act 0 (.checkToken noTime true),
   .act 0 (.readSession false 0),
   .act 0 (.readAccount false false),
   .act 0 (.handle false [] "s"),
   .act 0 (.commit none)]

def PostNote.isAgentMessage : PostNote → Bool
  | .stored _ msg => readParticipantType msg.metadata = participantTypeAgent
  | _ => false

def PostNote.isRegistered : PostNote → Bool
  | .registered _ holds => holds
  | _ => false

/-- An agent's message from an account that is not in the registry is not bound. -/
theorem not_allBound {s : PostState} {log : List PostNote}
    (hmessage : log.any PostNote.isAgentMessage = true)
    (hregistered : log.any PostNote.isRegistered = false)
    (haccounts : (s.posts.all fun p => p.request.header "Authorization" ≠ []) = true) :
    ¬AllBound s log := by
  intro h
  obtain ⟨n, hn, htype⟩ := List.any_eq_true.mp hmessage
  cases n with
  | stored i msg =>
    obtain ⟨earlier, later, hsplit⟩ := List.append_of_mem hn
    obtain ⟨p, hp, hbound⟩ := h.bound earlier i msg later hsplit
    cases hbound with
    | agent hproved =>
      have hheader := List.all_eq_true.mp haccounts p (List.mem_of_getElem? hp)
      exact absurd hproved.alone.1 (by simpa using hheader)
    | account a hsender hproved hregistry =>
      have hmem := hregistry (by simpa [PostNote.isAgentMessage] using htype)
      have hin : PostNote.registered i true ∈ log := by
        rw [hsplit]
        exact List.mem_append_left _ hmem
      exact absurd (List.any_eq_false.mp hregistered _ hin) (by simp [PostNote.isRegistered])
  | _ => cases htype

/-- An account's chat is stored as an agent's message. -/
theorem chatRun_unbound : ∃ q : PostState × List PostNote,
    ((postSystem blankMac id noHost).logged (postNotes blankMac id)).Reaches
      (fun q e => Assumed blankMac id q e) q ∧
    namesAndTypes q.1 = [("bob", "agent")] ∧
    q.1.agents.store.registry.lookup (utf8 "bob") = none ∧ ¬AllBound q.1 q.2 := by
  obtain ⟨q, hexec, hnames, hrow, hmessage, hregistered, haccounts⟩ : ∃ q,
      (((postSystem blankMac id noHost).logged (postNotes blankMac id)).guarded
        fun q e => showsIssued q e = true).exec chatRun = some q ∧
      namesAndTypes q.1 = [("bob", "agent")] ∧
      q.1.agents.store.registry.lookup (utf8 "bob") = none ∧
      q.2.any PostNote.isAgentMessage = true ∧ q.2.any PostNote.isRegistered = false ∧
      (q.1.posts.all fun p => p.request.header "Authorization" ≠ []) = true :=
    System.exists_of_exec (by decide)
  have hreaches := System.Reachable.of_guarded (System.reachable_exec hexec)
  exact ⟨q, hreaches.mono fun q e h => assumed_of_showsIssued h, hnames, hrow,
    not_allBound hmessage hregistered haccounts⟩

end
end Persatrix.Server
