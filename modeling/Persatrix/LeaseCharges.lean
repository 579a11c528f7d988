import Persatrix.LeaseRequests

/-!
# What a lease is charged

A lease of the wallet ends once, as a request of its holder or the reaper ends it, and what it is
charged is what it ended with.
-/
namespace Persatrix.WalletClient
open Wallet

/-! ### How the wallet ends a lease -/

/-- A call may end a lease so. -/
def Ends : Call → String → Outcome → Prop
  | .settleLease leaseID input output, id, outcome =>
    id = leaseID ∧ outcome = .settled input output
  | .releaseLease leaseID, id, outcome => id = leaseID ∧ outcome = .released
  | .reapExpired _ _, _, outcome => outcome = .reaped
  | _, _, _ => False

/-- The newest grant under an identifier stays, or was open and has ended. -/
def Ended (call : Call) (before after : List Granted) (id : String) : Prop :=
  newest id after = newest id before ∨
    ∃ g outcome, newest id before = some g ∧ g.outcome = .unsettled ∧ Ends call id outcome ∧
      newest id after = some (g.finish outcome)

section
variable {pricing : Cost.CostConfig} {s : Traced}

theorem ended_finalize (h : Conserved pricing s) {call : Call} {leaseID : String} {i o : ℤ}
    {outcome : Outcome} (hends : Ends call leaseID outcome) (id : String) :
    Ended call s.history.grants
      (if ends (s.wallet.finalize leaseID i o).2 then
        { s.history with grants := finishNewest leaseID outcome s.history.grants }
      else s.history).grants id := by
  rcases finalize_cases h leaseID i o with ⟨ack, hf, hack⟩ | ⟨ls, g, hu, -⟩
  · rw [hf, hack]
    exact .inl rfl
  · split_ifs
    · by_cases hid : id = leaseID
      · subst hid
        refine .inr ⟨g, outcome, hu.newest, hu.outcome, hends, ?_⟩
        dsimp only
        rw [newest_finishNewest, if_pos rfl, hu.newest, Option.map_some]
      · refine .inl ?_
        dsimp only
        rw [newest_finishNewest, if_neg hid]
    · exact .inl rfl

theorem ended_reapStep (h : Conserved pricing s) (now : ℤ) (order : List String)
    (leaseID id : String) : Ended (.reapExpired now order) s.history.grants
      (reapStep now s leaseID).history.grants id := by
  unfold reapStep
  rcases reapLease_cases h now leaseID with hr | ⟨ls, -, -, hr⟩ | ⟨ls, g, hu, hr⟩
  · rw [hr]
    exact .inl rfl
  · rw [hr]
    exact .inl rfl
  · have hreaped : (s.wallet.reapLease now leaseID).2 = true := by
      split_ifs at hr <;> rw [hr]
    dsimp only
    rw [if_pos hreaped]
    by_cases hid : id = leaseID
    · subst hid
      refine .inr ⟨g, .reaped, hu.newest, hu.outcome, rfl, ?_⟩
      rw [newest_finishNewest, if_pos rfl, hu.newest, Option.map_some]
    · refine .inl ?_
      rw [newest_finishNewest, if_neg hid]

theorem Ended.trans {call : Call} {l₁ l₂ l₃ : List Granted} {id : String}
    (h : Ended call l₁ l₂ id) (h' : Ended call l₂ l₃ id)
    (hends : ∀ outcome, Ends call id outcome → outcome ≠ .unsettled) : Ended call l₁ l₃ id := by
  rcases h with hsame | ⟨g, outcome, hg, hopen, hend, hafter⟩
  · rcases h' with hsame' | ⟨g, outcome, hg, hrest⟩
    · exact .inl (hsame'.trans hsame)
    · exact .inr ⟨g, outcome, hsame.symm.trans hg, hrest⟩
  · rcases h' with hsame' | ⟨g', outcome', hg', hopen', -⟩
    · exact .inr ⟨g, outcome, hg, hopen, hend, hsame'.trans hafter⟩
    · obtain rfl := Option.some.inj (hafter.symm.trans hg')
      exact absurd hopen' (hends outcome hend)

theorem ended_reapExpired (h : Conserved pricing s) (now : ℤ) (order : List String) (id : String) :
    Ended (.reapExpired now order) s.history.grants
      (s.next (.reapExpired now order)).history.grants id := by
  have hboth : Conserved pricing (s.next (.reapExpired now order)) ∧
      Ended (.reapExpired now order) s.history.grants
        (s.next (.reapExpired now order)).history.grants id := by
    apply reapExpired_induction (I := fun s' => Conserved pricing s' ∧
      Ended (.reapExpired now order) s.history.grants s'.history.grants id)
    · rintro s' leaseID ⟨hs', hended⟩
      refine ⟨hs'.reapLease now leaseID, hended.trans (ended_reapStep hs' now order leaseID id) ?_⟩
      rintro outcome rfl hne
      cases hne
    · exact ⟨h, .inl rfl⟩
  exact hboth.2

/-- What a call that grants nothing and resets nothing does to the grants. -/
theorem ended_next (h : Conserved pricing s) (call : Call) (hacquire : ∀ resolver newID now req,
    call ≠ .acquireLease resolver newID now req) (hreset : call ≠ .resetDaily) (id : String) :
    Ended call s.history.grants (s.next call).history.grants id := by
  cases call with
  | acquireLease resolver newID now req => exact absurd rfl (hacquire resolver newID now req)
  | resetDaily => exact absurd rfl hreset
  | settleLease leaseID i o =>
    rcases s.wallet.settleLease_cases leaseID i o with ⟨err, he⟩ | ⟨-, -, hf⟩
    · have hsame : (s.next (.settleLease leaseID i o)).history = s.history := by
        simp only [Traced.next, WalletService.call, he, History.observe]
      rw [hsame]
      exact .inl rfl
    · have hnext : (s.next (.settleLease leaseID i o)).history =
          if ends (s.wallet.finalize leaseID i o).2 then
            { s.history with grants := finishNewest leaseID (.settled i o) s.history.grants }
          else s.history := by
        simp only [Traced.next, WalletService.call, hf, History.observe]
      have hends : Ends (.settleLease leaseID i o) leaseID (.settled i o) := ⟨rfl, rfl⟩
      rw [hnext]
      exact ended_finalize h hends id
  | releaseLease leaseID =>
    have hnext : (s.next (.releaseLease leaseID)).history =
        if ends (s.wallet.finalize leaseID 0 0).2 then
          { s.history with grants := finishNewest leaseID .released s.history.grants }
        else s.history := by
      simp only [Traced.next, WalletService.call, WalletService.releaseLease, History.observe]
    have hends : Ends (.releaseLease leaseID) leaseID .released := ⟨rfl, rfl⟩
    rw [hnext]
    exact ended_finalize h hends id
  | reapExpired now order => exact ended_reapExpired h now order id
  | recordUsage record => exact .inl rfl
  | evictInteraction interactionID => exact .inl rfl

theorem map_finishNewest (leaseID : String) (outcome : Outcome) (grants : List Granted) :
    (finishNewest leaseID outcome grants).map Granted.leaseID = grants.map Granted.leaseID := by
  induction grants with
  | nil => rfl
  | cons g grants ih =>
    unfold finishNewest
    split_ifs
    · rfl
    · rw [List.map_cons, ih, List.map_cons]

theorem map_finishReaped (leaseIDs : List String) (grants : List Granted) :
    (finishReaped leaseIDs grants).map Granted.leaseID = grants.map Granted.leaseID := by
  unfold finishReaped
  induction leaseIDs generalizing grants with
  | nil => rfl
  | cons id leaseIDs ih => rw [List.foldl_cons, ih, map_finishNewest]

/-- Such a call leaves the identifiers that were granted. -/
theorem ids_next (s : Traced) (call : Call) (hacquire : ∀ resolver newID now req,
    call ≠ .acquireLease resolver newID now req) (hreset : call ≠ .resetDaily) :
    (s.next call).history.grants.map Granted.leaseID = s.history.grants.map Granted.leaseID := by
  have hobserve : ∀ (h : History) (ack : SettlementAck) (leaseID : String) (outcome : Outcome),
      (if ends ack then { h with grants := finishNewest leaseID outcome h.grants }
        else h).grants.map Granted.leaseID = h.grants.map Granted.leaseID := by
    intro h ack leaseID outcome
    split_ifs
    · exact map_finishNewest leaseID outcome h.grants
    · rfl
  cases call with
  | acquireLease resolver newID now req => exact absurd rfl (hacquire resolver newID now req)
  | resetDaily => exact absurd rfl hreset
  | settleLease leaseID i o =>
    simp only [Traced.next, WalletService.call]
    cases (s.wallet.settleLease leaseID i o).2 with
    | error err => rfl
    | ok ack => exact hobserve s.history ack leaseID _
  | releaseLease leaseID => exact hobserve s.history _ leaseID _
  | reapExpired now order => exact map_finishReaped _ _
  | recordUsage record => rfl
  | evictInteraction interactionID => rfl

end

theorem newest_of_mem {grants : List Granted} (hnodup : (grants.map Granted.leaseID).Nodup)
    {g : Granted} (hg : g ∈ grants) : newest g.leaseID grants = some g := by
  induction grants with
  | nil => cases hg
  | cons g' grants ih =>
    rw [List.map_cons, List.nodup_cons] at hnodup
    rw [newest_cons]
    rcases List.mem_cons.mp hg with rfl | hmem
    · exact if_pos rfl
    · rw [if_neg]
      · exact ih hnodup.2 hmem
      · intro hid
        apply hnodup.1
        rw [hid]
        exact List.mem_map_of_mem hmem

theorem not_mem_of_newest {grants : List Granted} {id : String} (h : newest id grants = none) :
    id ∉ grants.map Granted.leaseID := by
  intro hmem
  obtain ⟨g, hg, rfl⟩ := List.mem_map.mp hmem
  unfold newest at h
  have hnot := List.find?_eq_none.mp h g hg
  exact hnot (decide_eq_true rfl)

/-! ### Tasks and wallet together -/

structure Agrees (pricing : Cost.CostConfig) (s : State) : Prop where
  sound : Sound s
  conserved : Conserved pricing s.server
  unique : (s.server.history.grants.map Granted.leaseID).Nodup
  granted : ∀ f flight grant, s.flights f = some flight → flight.granted = some grant →
    ∃ g, newest grant.leaseID s.server.history.grants = some g ∧
      g.grantedInput = grant.grantedInputTokens ∧ g.grantedOutput = grant.grantedOutputTokens
  distinct : ∀ f f' flight flight' grant grant', s.flights f = some flight →
    s.flights f' = some flight' → flight.granted = some grant → flight'.granted = some grant' →
    grant.leaseID = grant'.leaseID → f = f'
  nonneg : ∀ id g, newest id s.server.history.grants = some g →
    0 ≤ g.grantedInput ∧ 0 ≤ g.grantedOutput
  current : ∀ id g, newest id s.server.history.grants = some g → g.current = true
  settled : ∀ id g i o, newest id s.server.history.grants = some g → g.outcome = .settled i o →
    ∃ b, Allows (s.phase b) (.settleLease id i o)
  released : ∀ id g, newest id s.server.history.grants = some g → g.outcome = .released →
    ∃ b, Allows (s.phase b) (.releaseLease id)

variable {pricing : Cost.CostConfig} {s t : State}

theorem agrees_initial (pricing : Cost.CostConfig) (cfg : Config) :
    Agrees pricing (initial pricing cfg) where
  sound := sound_initial pricing cfg
  conserved := conserved_start pricing cfg
  unique := List.nodup_nil
  granted f flight grant hf := by cases hf
  distinct f f' flight flight' grant grant' hf := by cases hf
  nonneg id g hg := by cases hg
  current id g hg := by cases hg
  settled id g i o hg := by cases hg
  released id g hg := by cases hg

/-- A step of a task. -/
theorem Agrees.acts (h : Agrees pricing s) (ht : Acts s t) : Agrees pricing t where
  sound := ht.sound
  conserved := by
    rw [ht.server]
    exact h.conserved
  unique := by
    rw [ht.server]
    exact h.unique
  granted f flight grant hf hgrant := by
    rw [ht.server]
    exact h.granted f flight grant (ht.granted f flight grant hf hgrant) hgrant
  distinct f f' flight flight' grant grant' hf hf' hgrant hgrant' :=
    h.distinct f f' flight flight' grant grant' (ht.granted f flight grant hf hgrant)
      (ht.granted f' flight' grant' hf' hgrant') hgrant hgrant'
  nonneg id g hg := by
    rw [ht.server] at hg
    exact h.nonneg id g hg
  current id g hg := by
    rw [ht.server] at hg
    exact h.current id g hg
  settled id g i o hg houtcome := by
    rw [ht.server] at hg
    obtain ⟨b, hb⟩ := h.settled id g i o hg houtcome
    exact ⟨b, hb.goes (ht.goes b)⟩
  released id g hg houtcome := by
    rw [ht.server] at hg
    obtain ⟨b, hb⟩ := h.released id g hg houtcome
    exact ⟨b, hb.goes (ht.goes b)⟩

/-- A call that ends leases only as requests allow it. -/
theorem Agrees.ended (h : Agrees pricing s) {call : Call} {server : Traced}
    (hsound : Sound t) (hserver : t.server = server) (hphase : t.phase = s.phase)
    (hconserved : Conserved pricing server)
    (hids : server.history.grants.map Granted.leaseID =
      s.server.history.grants.map Granted.leaseID)
    (hgranted : ∀ f flight grant, t.flights f = some flight → flight.granted = some grant →
      s.flights f = some flight)
    (hended : ∀ id, Ended call s.server.history.grants server.history.grants id)
    (hsettle : ∀ id i o, Ends call id (.settled i o) →
      ∃ b, Allows (s.phase b) (.settleLease id i o))
    (hrelease : ∀ id, Ends call id .released → ∃ b, Allows (s.phase b) (.releaseLease id)) :
    Agrees pricing t := by
  subst hserver
  refine ⟨hsound, hconserved, hids ▸ h.unique, ?_, ?_, ?_, ?_, ?_, ?_⟩
  · intro f flight grant hf hgrant
    obtain ⟨g, hg, hinput, houtput⟩ := h.granted f flight grant (hgranted f flight grant hf hgrant)
      hgrant
    rcases hended grant.leaseID with hsame | ⟨g', outcome, hg', -, -, hafter⟩
    · exact ⟨g, hsame.trans hg, hinput, houtput⟩
    · obtain rfl := Option.some.inj (hg.symm.trans hg')
      exact ⟨_, hafter, hinput, houtput⟩
  · intro f f' flight flight' grant grant' hf hf' hgrant hgrant'
    exact h.distinct f f' flight flight' grant grant' (hgranted f flight grant hf hgrant)
      (hgranted f' flight' grant' hf' hgrant') hgrant hgrant'
  · intro id g hg
    rcases hended id with hsame | ⟨g', outcome, hg', -, -, hafter⟩
    · exact h.nonneg id g (hsame.symm.trans hg)
    · obtain rfl := Option.some.inj (hafter.symm.trans hg)
      exact h.nonneg id g' hg'
  · intro id g hg
    rcases hended id with hsame | ⟨g', outcome, hg', -, -, hafter⟩
    · exact h.current id g (hsame.symm.trans hg)
    · obtain rfl := Option.some.inj (hafter.symm.trans hg)
      exact h.current id g' hg'
  · intro id g i o hg houtcome
    rw [hphase]
    rcases hended id with hsame | ⟨g', outcome, hg', -, hends, hafter⟩
    · exact h.settled id g i o (hsame.symm.trans hg) houtcome
    · obtain rfl := Option.some.inj (hafter.symm.trans hg)
      have houtcome : outcome = .settled i o := houtcome
      rw [houtcome] at hends
      exact hsettle id i o hends
  · intro id g hg houtcome
    rw [hphase]
    rcases hended id with hsame | ⟨g', outcome, hg', -, hends, hafter⟩
    · exact h.released id g (hsame.symm.trans hg) houtcome
    · obtain rfl := Option.some.inj (hafter.symm.trans hg)
      have houtcome : outcome = .released := houtcome
      rw [houtcome] at hends
      exact hrelease id hends

/-! ### The wallet's answers -/

/-- An attempt that is answered was not answered before. -/
theorem granted_of_answered {f f' owner : ℕ} {r : Request} {answer : Response} {flight : Flight}
    {grant : LeaseGrant} (hnone : Flight.granted ⟨owner, r, some answer⟩ = none)
    (hf : Function.update s.flights f (some ⟨owner, r, some answer⟩) f' = some flight)
    (hgrant : flight.granted = some grant) : s.flights f' = some flight := by
  rw [Function.update_apply] at hf
  split_ifs at hf
  · cases hf
    rw [hnone] at hgrant
    cases hgrant
  · exact hf

/-- The wallet answers a request that ends a lease, or does not. -/
theorem Agrees.deliver_request (h : Agrees pricing s) {f owner : ℕ} {r : Request} {call : Call}
    (hf : s.flights f = some ⟨owner, r, none⟩) (hacquire : ∀ resolver newID now req,
      call ≠ .acquireLease resolver newID now req) (hreset : call ≠ .resetDaily)
    (hnone : ∀ answer, Flight.granted ⟨owner, r, some answer⟩ = none)
    (hsettle : ∀ id i o, Ends call id (.settled i o) →
      ∃ b, Allows (s.phase b) (.settleLease id i o))
    (hrelease : ∀ id, Ends call id .released → ∃ b, Allows (s.phase b) (.releaseLease id)) :
    Agrees pricing { s.serve call with
      flights := Function.update s.flights f
        (some ⟨owner, r, some (s.server.wallet.call call).2⟩) } :=
  h.ended ((h.sound.answered hf _).serve call) rfl rfl (h.conserved.next call)
    (ids_next s.server call hacquire hreset)
    (fun _ _ _ hf' hgrant => granted_of_answered (hnone _) hf' hgrant)
    (ended_next h.conserved call hacquire hreset) hsettle hrelease

/-- What the history notes of a lease that is granted. -/
def grantOf (resolver : Option (String → Option ℤ)) (newID : String) (req : LeaseRequest) :
    Granted where
  leaseID := newID
  workflowID := req.workflowID
  agentID := req.agentID
  model := req.model
  grantedInput := req.estimatedInputTokens
  grantedOutput := req.estimatedMaxOutputTokens
  interactionID := WalletService.trackedInteractionID resolver req

/-- The wallet grants a lease under an identifier that is new. -/
theorem Agrees.grants (h : Agrees pricing s) {f owner : ℕ} {req : LeaseRequest}
    {resolver : Option (String → Option ℤ)} {newID : String} {now : ℤ} {answer : Response}
    (hsound : Sound { s.serve (.acquireLease resolver newID now req) with
      flights := Function.update s.flights f (some ⟨owner, .acquireLease req, some answer⟩) })
    (hfresh : newest newID s.server.history.grants = none)
    (hadmits : s.server.wallet.Admits resolver newID req)
    (hnext : (s.server.next (.acquireLease resolver newID now req)).history =
      { s.server.history with grants := grantOf resolver newID req :: s.server.history.grants })
    (hanswer : answer = .lease (.ok (.grant ⟨newID, req.estimatedInputTokens,
      req.estimatedMaxOutputTokens, s.server.wallet.cfg.ttl / 1000000000⟩))) :
    Agrees pricing { s.serve (.acquireLease resolver newID now req) with
      flights := Function.update s.flights f (some ⟨owner, .acquireLease req, some answer⟩) } := by
  -- an identifier that is not the new one has the newest grant it had
  have hnewest : ∀ id, newest id (s.serve
      (.acquireLease resolver newID now req)).server.history.grants =
      if newID = id then some (grantOf resolver newID req)
      else newest id s.server.history.grants := by
    intro id
    rw [State.serve, hnext, newest_cons]
    rfl
  have hflights : ∀ {f' : ℕ} {flight : Flight} {grant : LeaseGrant},
      Function.update s.flights f (some ⟨owner, .acquireLease req,
        some answer⟩) f' = some flight →
      flight.granted = some grant →
      f' = f ∧ grant = ⟨newID, req.estimatedInputTokens, req.estimatedMaxOutputTokens,
        s.server.wallet.cfg.ttl / 1000000000⟩ ∨
        grant.leaseID ≠ newID ∧ s.flights f' = some flight := by
    intro f' flight grant hf' hgrant
    rw [Function.update_apply, hanswer] at hf'
    split_ifs at hf' with hsame
    · cases hf'
      exact .inl ⟨hsame, (Option.some.inj hgrant).symm⟩
    · refine .inr ⟨?_, hf'⟩
      rintro rfl
      obtain ⟨g, hg, -⟩ := h.granted f' flight grant hf' hgrant
      rw [hfresh] at hg
      cases hg
  have hconserved := h.conserved.next (.acquireLease resolver newID now req)
  refine ⟨hsound, hconserved, ?_, ?_, ?_, ?_, ?_, ?_, ?_⟩
  · dsimp only [State.serve]
    rw [hnext, List.map_cons]
    exact List.nodup_cons.mpr ⟨not_mem_of_newest hfresh, h.unique⟩
  · intro f' flight grant hf' hgrant
    dsimp only
    rw [hnewest]
    rcases hflights hf' hgrant with ⟨-, rfl⟩ | ⟨hne, hold⟩
    · rw [if_pos rfl]
      exact ⟨_, rfl, rfl, rfl⟩
    · rw [if_neg hne.symm]
      exact h.granted f' flight grant hold hgrant
  · intro f₁ f₂ flight₁ flight₂ grant₁ grant₂ hf₁ hf₂ hgrant₁ hgrant₂ hid
    rcases hflights hf₁ hgrant₁ with ⟨rfl, rfl⟩ | ⟨hne₁, hold₁⟩
    · rcases hflights hf₂ hgrant₂ with ⟨rfl, -⟩ | ⟨hne₂, -⟩
      · rfl
      · exact absurd hid.symm hne₂
    · rcases hflights hf₂ hgrant₂ with ⟨rfl, rfl⟩ | ⟨-, hold₂⟩
      · exact absurd hid hne₁
      · exact h.distinct f₁ f₂ flight₁ flight₂ grant₁ grant₂ hold₁ hold₂ hgrant₁ hgrant₂ hid
  · intro id g hg
    dsimp only at hg
    rw [hnewest] at hg
    split_ifs at hg
    · cases hg
      exact ⟨hadmits.input.1, hadmits.output.1⟩
    · exact h.nonneg id g hg
  · intro id g hg
    dsimp only at hg
    rw [hnewest] at hg
    split_ifs at hg
    · cases hg
      rfl
    · exact h.current id g hg
  · intro id g i o hg houtcome
    dsimp only at hg
    rw [hnewest] at hg
    split_ifs at hg
    · cases hg
      cases houtcome
    · exact h.settled id g i o hg houtcome
  · intro id g hg houtcome
    dsimp only at hg
    rw [hnewest] at hg
    split_ifs at hg
    · cases hg
      cases houtcome
    · exact h.released id g hg houtcome

/-- The wallet answers an acquisition. -/
theorem Agrees.deliver_acquire (h : Agrees pricing s) {f owner : ℕ} {req : LeaseRequest}
    {resolver : Option (String → Option ℤ)} {newID : String} {now : ℤ}
    (hf : s.flights f = some ⟨owner, .acquireLease req, none⟩)
    (hfresh : newest newID s.server.history.grants = none) :
    Agrees pricing { s.serve (.acquireLease resolver newID now req) with
      flights := Function.update s.flights f (some ⟨owner, .acquireLease req,
        some (s.server.wallet.call (.acquireLease resolver newID now req)).2⟩) } := by
  have hsound := (h.sound.answered hf
    (s.server.wallet.call (.acquireLease resolver newID now req)).2).serve
      (.acquireLease resolver newID now req)
  rcases s.server.next_acquireLease_cases resolver newID now req with
    ⟨hnext, hfailed⟩ | ⟨hadmits, hgranted, hnext⟩
  · have hnone : Flight.granted ⟨owner, .acquireLease req,
        some (s.server.wallet.call (.acquireLease resolver newID now req)).2⟩ = none := by
      unfold Flight.granted
      split
      case h_1 grant _ hanswer =>
        rw [Option.some.inj hanswer] at hfailed
        cases hfailed
      · rfl
    have hunchanged : ∀ id, Ended (.acquireLease resolver newID now req) s.server.history.grants
        s.server.history.grants id := fun _ => .inl rfl
    exact h.ended hsound hnext rfl h.conserved rfl
      (fun _ _ _ hf' hgrant => granted_of_answered hnone hf' hgrant) hunchanged
      (fun _ _ _ habsurd => absurd habsurd id) (fun _ habsurd => absurd habsurd id)
  · have hanswer : (s.server.wallet.call (.acquireLease resolver newID now req)).2 =
        .lease (.ok (.grant ⟨newID, req.estimatedInputTokens, req.estimatedMaxOutputTokens,
          s.server.wallet.cfg.ttl / 1000000000⟩)) := by
      simp only [WalletService.call, hadmits.acquireLease now]
    exact h.grants hsound hfresh hadmits (congrArg Traced.history hnext) hanswer

theorem Agrees.deliver (h : Agrees pricing s) {f : ℕ} {resolver : Option (String → Option ℤ)}
    {newID : String} {now : ℤ} (hstep : s.deliver f resolver newID now = some t) :
    Agrees pricing t := by
  unfold State.deliver at hstep
  split at hstep
  case h_1 owner r hf =>
    split_ifs at hstep with hfresh
    cases hstep
    have hallowed := h.sound.allowed f ⟨owner, r, none⟩ hf
    cases r with
    | acquireLease req =>
      exact h.deliver_acquire hf (Option.isNone_iff_eq_none.mp hfresh)
    | settleLease leaseID i o =>
      apply h.deliver_request hf
      · intro resolver newID now req hcall
        cases hcall
      · intro hcall
        cases hcall
      · exact fun _ => rfl
      · rintro id i' o' ⟨rfl, hout⟩
        cases hout
        exact ⟨owner, hallowed⟩
      · rintro id ⟨-, hout⟩
        cases hout
    | releaseLease leaseID =>
      apply h.deliver_request hf
      · intro resolver newID now req hcall
        cases hcall
      · intro hcall
        cases hcall
      · exact fun _ => rfl
      · rintro id i' o' ⟨-, hout⟩
        cases hout
      · rintro id ⟨rfl, -⟩
        exact ⟨owner, hallowed⟩
  · cases hstep

/-- The wallet's own calls end leases as the reaper does. -/
theorem Agrees.serve (h : Agrees pricing s) (call : Call) (hacquire : ∀ resolver newID now req,
    call ≠ .acquireLease resolver newID now req) (hreset : call ≠ .resetDaily)
    (hends : ∀ id outcome, Ends call id outcome → outcome = .reaped) : Agrees pricing (s.serve call) :=
  h.ended (h.sound.serve call) rfl rfl (h.conserved.next call)
    (ids_next s.server call hacquire hreset) (fun _ _ _ hf _ => hf)
    (ended_next h.conserved call hacquire hreset)
    (fun id i o hend => by cases hends id _ hend) fun id hend => by cases hends id _ hend

theorem Agrees.step (h : Agrees pricing s) {client : Client} {e : Event}
    (hstep : s.step client e = some t) : Agrees pricing t := by
  cases hown : e.own with
  | true => exact h.acts (h.sound.step hstep hown)
  | false =>
    cases e with
    | deliver f resolver newID now => exact h.deliver hstep
    | reapExpired now order =>
      cases hstep
      exact h.serve _ (fun _ _ _ _ hcall => by cases hcall) (fun hcall => by cases hcall)
        fun _ _ hend => hend
    | recordUsage record =>
      cases hstep
      exact h.serve _ (fun _ _ _ _ hcall => by cases hcall) (fun hcall => by cases hcall)
        fun _ _ hend => hend.elim
    | evictInteraction interactionID =>
      cases hstep
      exact h.serve _ (fun _ _ _ _ hcall => by cases hcall) (fun hcall => by cases hcall)
        fun _ _ hend => hend.elim
    | enter => cases hown
    | reply => cases hown
    | fail => cases hown
    | interrupt => cases hown
    | wake => cases hown
    | markCallStarted => cases hown
    | settle => cases hown
    | exit => cases hown

theorem agrees_reachable {client : Client} {cfg : Config}
    (h : (brackets client pricing cfg).Reachable s) : Agrees pricing s :=
  h.invariant (agrees_initial pricing cfg) fun _ _ _ hs hstep => hs.step hstep

/-- A lease that has ended stays as it is. -/
theorem newest_step (h : Agrees pricing s) {client : Client} {e : Event}
    (hstep : s.step client e = some t) {id : String} {g : Granted}
    (hg : newest id s.server.history.grants = some g) (hended : g.outcome ≠ .unsettled) :
    newest id t.server.history.grants = some g := by
  have hkept : ∀ {call : Call}, Ended call s.server.history.grants
      (s.server.next call).history.grants id →
      newest id (s.server.next call).history.grants = some g := by
    rintro call (hsame | ⟨g', outcome, hg', hopen, -⟩)
    · exact hsame.trans hg
    · obtain rfl := Option.some.inj (hg.symm.trans hg')
      exact absurd hopen hended
  cases hown : e.own with
  | true =>
    rw [(h.sound.step hstep hown).server]
    exact hg
  | false =>
    cases e with
    | deliver f resolver newID now =>
      have hstep : s.deliver f resolver newID now = some t := hstep
      unfold State.deliver at hstep
      split at hstep
      case h_1 owner r hf =>
        split_ifs at hstep with hfresh
        cases hstep
        cases r with
        | acquireLease req =>
          have hnone := Option.isNone_iff_eq_none.mp hfresh
          change newest id (s.server.next (.acquireLease resolver newID now req)).history.grants = _
          rcases s.server.next_acquireLease_cases resolver newID now req with
            ⟨hnext, -⟩ | ⟨-, -, hnext⟩
          · rw [hnext]
            exact hg
          · rw [hnext, newest_cons, if_neg]
            · exact hg
            · rintro rfl
              rw [hnone] at hg
              cases hg
        | settleLease leaseID i o =>
          exact hkept (ended_next h.conserved (.settleLease leaseID i o)
            (fun _ _ _ _ hcall => by cases hcall) (fun hcall => by cases hcall) id)
        | releaseLease leaseID =>
          exact hkept (ended_next h.conserved (.releaseLease leaseID)
            (fun _ _ _ _ hcall => by cases hcall) (fun hcall => by cases hcall) id)
      · cases hstep
    | reapExpired now order =>
      cases hstep
      exact hkept (ended_next h.conserved (.reapExpired now order)
        (fun _ _ _ _ hcall => by cases hcall) (fun hcall => by cases hcall) id)
    | recordUsage record =>
      cases hstep
      exact hg
    | evictInteraction interactionID =>
      cases hstep
      exact hg
    | enter => cases hown
    | reply => cases hown
    | fail => cases hown
    | interrupt => cases hown
    | wake => cases hown
    | markCallStarted => cases hown
    | settle => cases hown
    | exit => cases hown

end Persatrix.WalletClient
