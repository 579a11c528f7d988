import Persatrix.WalletLedger

/-!
# Running totals of capped interactions

A lease granted under a ceiling carries the identifier of its interaction, and
the wallet keeps one running total for each. The total equals the tokens *held*:
the granted tokens of a lease while it is open, after it was reaped, and also when
it is settled after a daily reset has cleared its charge, because that path
returns before the total is adjusted. Everything about one interaction follows
from how a single call moves the four sums of its account.
-/
namespace Persatrix.Wallet
open Cost

def Granted.grantedTokens (g : Granted) : ℤ := g.grantedInput + g.grantedOutput

/-- Actual tokens of a settled or released lease, granted tokens of any other. -/
def Granted.tokens (g : Granted) : ℤ := g.usage.inputTokens + g.usage.outputTokens

/-- What the running total holds for a lease. -/
def Granted.heldTokens (g : Granted) : ℤ := if g.late then g.grantedTokens else g.tokens

/-- Use beyond the grant of a settled or released lease. -/
def Granted.overuse (g : Granted) : ℤ :=
  match g.outcome with
  | .settled _ _ | .released => max 0 (g.tokens - g.grantedTokens)
  | .unsettled | .reaped => 0

/-- Sum over the leases granted for an interaction. -/
def sumFor (interactionID : String) (f : Granted → ℤ) (grants : List Granted) : ℤ :=
  (grants.map fun g => if g.interactionID = interactionID then f g else 0).sum

structure Account where
  spend : ℤ
  held : ℤ
  tokens : ℤ
  overuse : ℤ
  deriving DecidableEq

def account (interactionID : String) (s : Traced) : Account :=
  ⟨s.wallet.interactionSpend interactionID,
    sumFor interactionID Granted.heldTokens s.history.grants,
    sumFor interactionID Granted.tokens s.history.grants,
    sumFor interactionID Granted.overuse s.history.grants⟩

/-- The lease a call tries to end, with the tokens it reports. -/
def Call.settlement : Call → Option (String × ℤ)
  | .settleLease leaseID i o =>
    if (0 ≤ i ∧ i ≤ maxTokenCount) ∧ 0 ≤ o ∧ o ≤ maxTokenCount then some (leaseID, i + o) else none
  | .releaseLease leaseID => some (leaseID, 0)
  | _ => none

def Call.evicts (interactionID : String) : Call → Bool
  | .evictInteraction id => id = interactionID
  | _ => false

theorem sumFor_cons (x : String) (f : Granted → ℤ) (g : Granted) (grants : List Granted) :
    sumFor x f (g :: grants) = (if g.interactionID = x then f g else 0) + sumFor x f grants := by
  simp [sumFor]

theorem sumFor_finishNewest (x : String) (f : Granted → ℤ) {leaseID : String} (o : Outcome)
    {grants : List Granted} {g : Granted} (h : newest leaseID grants = some g) :
    sumFor x f (finishNewest leaseID o grants) =
      sumFor x f grants + if g.interactionID = x then f (g.finish o) - f g else 0 := by
  rw [sumFor, sum_finishNewest _ o h, sumFor]
  congr 1
  by_cases hx : g.interactionID = x <;> simp [Granted.finish, hx]

theorem sumFor_forget (x : String) (f : Granted → ℤ)
    (hf : ∀ g : Granted, f { g with current := false } = f g) (grants : List Granted) :
    sumFor x f (grants.map fun g => { g with current := false }) = sumFor x f grants := by
  simp [sumFor, Function.comp_def, hf]

theorem sumFor_nonneg (x : String) (f : Granted → ℤ) {grants : List Granted}
    (h : ∀ g ∈ grants, 0 ≤ f g) : 0 ≤ sumFor x f grants := by
  apply List.sum_nonneg
  intro n hn
  obtain ⟨g, hg, rfl⟩ := List.mem_map.mp hn
  split_ifs
  · exact h g hg
  · exact le_rfl

/-- A single lease of the interaction is part of its sum. -/
theorem le_sumFor (x : String) (f : Granted → ℤ) {grants : List Granted}
    (h : ∀ g ∈ grants, 0 ≤ f g) {g : Granted} (hg : g ∈ grants) (hx : g.interactionID = x) :
    f g ≤ sumFor x f grants := by
  induction grants with
  | nil => simp at hg
  | cons old grants ih =>
    rw [sumFor_cons]
    have htail := sumFor_nonneg x f fun g hg => h g (List.mem_cons_of_mem _ hg)
    rcases List.mem_cons.mp hg with rfl | hg
    · rw [if_pos hx]
      omega
    · have hle := ih (fun g hg => h g (List.mem_cons_of_mem _ hg)) hg
      have hold := h old (by simp)
      split_ifs <;> omega

theorem overuse_nonneg (g : Granted) : 0 ≤ g.overuse := by
  unfold Granted.overuse
  split <;> simp

theorem interactionSpend_record {w w' : WalletService} {x id : String} {n : ℤ} (hx : x ≠ "")
    (h : w'.interactionTokens = recordInteractionGrantLocked w.interactionTokens id n) :
    w'.interactionSpend x = w.interactionSpend x + if id = x then n else 0 := by
  simp only [WalletService.interactionSpend, hx, if_false, h, recordInteractionGrantLocked]
  by_cases hid : id = ""
  · simp [hid, Ne.symm hx]
  · rw [if_neg hid, GoMap.lookup_insert]
    by_cases hxid : x = id
    · subst hxid
      simp
    · simp [hxid, Ne.symm hxid]

/-- An adjustment that would not make the total negative adds its delta. -/
theorem interactionSpend_adjust {w w' : WalletService} {x id : String} {delta : ℤ} (hx : x ≠ "")
    (h : w'.interactionTokens = adjustInteractionTokensLocked w.interactionTokens id delta)
    (hnonneg : id = x → 0 ≤ w.interactionSpend x + delta) :
    w'.interactionSpend x = w.interactionSpend x + if id = x then delta else 0 := by
  simp only [WalletService.interactionSpend, hx, if_false] at hnonneg ⊢
  rw [h, adjustInteractionTokensLocked]
  by_cases hid : id = x
  · subst hid
    have hle := hnonneg rfl
    by_cases hdelta : delta = 0
    · simp [hdelta]
    · simp only [hx, hdelta, or_self, if_false, if_true]
      split_ifs with hpos
      · rw [GoMap.lookup_insert, if_pos rfl, Option.getD_some]
      · rw [GoMap.lookup_erase, if_pos rfl, Option.getD_none]
        omega
  · simp only [hid, if_false, add_zero]
    split_ifs
    · rfl
    · rw [GoMap.lookup_insert, if_neg (Ne.symm hid)]
    · rw [GoMap.lookup_erase, if_neg (Ne.symm hid)]

/-- Neither the granted nor the counted tokens of a lease are negative. -/
def Granted.Nonneg (g : Granted) : Prop := 0 ≤ g.grantedTokens ∧ 0 ≤ g.tokens

theorem nonneg_finishNewest {leaseID : String} {o : Outcome} {grants : List Granted}
    (h : ∀ g ∈ grants, g.Nonneg)
    (ho : ∀ g : Granted, 0 ≤ g.grantedTokens → 0 ≤ (g.finish o).tokens) :
    ∀ g ∈ finishNewest leaseID o grants, g.Nonneg := by
  intro g hg
  rcases mem_finishNewest hg with hg | ⟨old, hold, rfl⟩
  · exact h g hg
  · exact ⟨(h old hold).1, ho old (h old hold).1⟩

theorem nonneg_finalize {h : History} (hn : ∀ g ∈ h.grants, g.Nonneg) {leaseID : String}
    {ack : SettlementAck} {o : Outcome} (ho : ∀ g : Granted, 0 ≤ (g.finish o).tokens) :
    ∀ g ∈ (if ends ack then
      { h with grants := finishNewest leaseID o h.grants } else h).grants, g.Nonneg := by
  split_ifs
  · exact nonneg_finishNewest hn fun g _ => ho g
  · exact hn

/-- The running total is exactly what is held, and no lease counts below zero. -/
structure Spend (pricing : CostConfig) (x : String) (s : Traced) : Prop where
  conserved : Conserved pricing s
  total : (account x s).spend = (account x s).held
  nonneg : ∀ g ∈ s.history.grants, g.Nonneg

theorem spend_start (pricing : CostConfig) (cfg : Config) (x : String) :
    Spend pricing x (start pricing cfg) where
  conserved := conserved_start pricing cfg
  total := by
    simp [account, start, newWalletService, WalletService.interactionSpend, sumFor]
  nonneg := by simp [start]

variable {pricing : CostConfig} {x : String} {s : Traced}

theorem heldTokens_nonneg (h : Spend pricing x s) {g : Granted} (hg : g ∈ s.history.grants) :
    0 ≤ g.heldTokens := by
  unfold Granted.heldTokens
  split_ifs
  · exact (h.nonneg g hg).1
  · exact (h.nonneg g hg).2

theorem heldTokens_unsettled {g : Granted} (h : g.outcome = .unsettled) :
    g.heldTokens = g.grantedTokens ∧ g.tokens = g.grantedTokens ∧ g.overuse = 0 := by
  simp [Granted.heldTokens, Granted.tokens, Granted.grantedTokens, Granted.usage,
    Granted.overuse, h]

/-- An unsettled lease of the interaction is covered by the running total. -/
theorem grantedTokens_le_spend (h : Spend pricing x s) {leaseID : String} {ls : Lease}
    {g : Granted} (hu : Unsettled pricing s leaseID ls g) (hx : g.interactionID = x) :
    g.grantedTokens ≤ (account x s).spend := by
  rw [h.total, ← (heldTokens_unsettled hu.outcome).1]
  exact le_sumFor x _ (fun g hg => heldTokens_nonneg h hg) (newest_mem hu.newest).1 hx

/-- How the account moves when a lease of the interaction is settled or released: a
lease whose charge a reset has cleared moves the reported tokens but not the total. -/
def Account.settle (a : Account) (late : Bool) (actual granted : ℤ) : Account :=
  ⟨a.spend + if late then 0 else actual - granted, a.held + if late then 0 else actual - granted,
    a.tokens + (actual - granted), a.overuse + max 0 (actual - granted)⟩

def Account.grant (a : Account) (tokens : ℤ) : Account :=
  { a with spend := a.spend + tokens, held := a.held + tokens, tokens := a.tokens + tokens }

theorem account_finish (h : Spend pricing x s) (hx : x ≠ "") {leaseID : String} {ls : Lease}
    {g : Granted} (hu : Unsettled pricing s leaseID ls g) {w : WalletService} {o : Outcome}
    {actual : ℤ} (hactual : (g.finish o).tokens = actual) (hpos : 0 ≤ actual)
    (hover : (g.finish o).overuse = max 0 (actual - g.grantedTokens))
    (htokens : w.interactionTokens = if g.current then
        adjustInteractionTokensLocked s.wallet.interactionTokens g.interactionID
          (actual - g.grantedTokens)
      else s.wallet.interactionTokens) :
    account x ⟨w, { s.history with grants := finishNewest leaseID o s.history.grants }⟩ =
      if g.interactionID = x then (account x s).settle (!g.current) actual g.grantedTokens
      else account x s := by
  obtain ⟨hheld, htoks, hzero⟩ := heldTokens_unsettled hu.outcome
  have hlate : (g.finish o).heldTokens = if g.current then actual else g.grantedTokens := by
    cases hc : g.current <;> simp [Granted.heldTokens, Granted.finish, hc, Granted.grantedTokens,
      ← hactual, Granted.tokens, Granted.usage]
  have hspend : w.interactionSpend x = s.wallet.interactionSpend x +
      if g.interactionID = x then (if g.current then actual - g.grantedTokens else 0) else 0 := by
    cases hc : g.current with
    | false =>
      rw [hc] at htokens
      simp [WalletService.interactionSpend, htokens]
    | true =>
      rw [hc, if_pos rfl] at htokens
      rw [interactionSpend_adjust hx htokens ?_]
      · simp
      · intro hgx
        have := grantedTokens_le_spend h hu hgx
        have heq : (account x s).spend = s.wallet.interactionSpend x := rfl
        omega
  simp only [account, sumFor_finishNewest x _ o hu.newest, hspend, hlate, hactual, hover, hheld,
    htoks, hzero]
  by_cases hgx : g.interactionID = x
  · cases g.current <;> simp [hgx, Account.settle]
  · simp [hgx]

/-- The grant a call would end: the newest under its identifier, while unsettled. -/
def Traced.openGrant (s : Traced) (leaseID : String) : Option Granted :=
  (newest leaseID s.history.grants).filter fun g => g.outcome = .unsettled

/-- What a call does to the account of an interaction it does not evict. -/
def Call.effect (x : String) (s : Traced) (call : Call) (a : Account) : Account :=
  match call with
  | .acquireLease resolver newID now req =>
    if WalletService.trackedInteractionID resolver req = x ∧
        (s.wallet.call (.acquireLease resolver newID now req)).2.failed = false then
      a.grant (req.estimatedInputTokens + req.estimatedMaxOutputTokens)
    else a
  | call =>
    match call.settlement with
    | none => a
    | some (leaseID, actual) =>
      match s.openGrant leaseID with
      | none => a
      | some g =>
        if g.interactionID = x then a.settle (!g.current) actual g.grantedTokens else a

theorem openGrant_unsettled {leaseID : String} {ls : Lease} {g : Granted}
    (h : Unsettled pricing s leaseID ls g) : s.openGrant leaseID = some g := by
  simp [Traced.openGrant, h.newest, h.outcome]

/-- An open grant is tracked by the wallet as an unsettled lease. -/
theorem Conserved.unsettled (h : Conserved pricing s) {leaseID : String} {g : Granted}
    (hg : s.openGrant leaseID = some g) : ∃ ls, Unsettled pricing s leaseID ls g := by
  obtain ⟨hnewest, hopen⟩ := Option.filter_eq_some_iff.mp hg
  have houtcome : g.outcome = .unsettled := by simpa using hopen
  have hst := h.standing leaseID
  rw [hnewest] at hst
  generalize hl : s.wallet.active.lookup leaseID = l,
    hp : s.wallet.counter.provisional.lookup leaseID = p at hst
  cases hst with
  | absent hne => exact absurd houtcome (hne g rfl)
  | ended _ hne _ => exact absurd houtcome hne
  | held hs ho hd hc => exact ⟨_, hl, hs, hnewest, ho, hd, by rw [hp, if_pos hc]⟩
  | cleared hs ho hd hc => exact ⟨_, hl, hs, hnewest, ho, hd, by rw [hp, hc]; rfl⟩

theorem account_finalize (h : Spend pricing x s) (hx : x ≠ "") (leaseID : String) {i o : ℤ}
    {outcome : Outcome} (hpos : 0 ≤ i + o)
    (hactual : ∀ g : Granted, (g.finish outcome).tokens = i + o)
    (hover : ∀ g : Granted, (g.finish outcome).overuse = max 0 (i + o - g.grantedTokens)) :
    account x ⟨(s.wallet.finalize leaseID i o).1,
        if ends (s.wallet.finalize leaseID i o).2 then
          { s.history with grants := finishNewest leaseID outcome s.history.grants }
        else s.history⟩ =
      match s.openGrant leaseID with
      | none => account x s
      | some g =>
        if g.interactionID = x then (account x s).settle (!g.current) (i + o) g.grantedTokens
        else account x s := by
  cases hg : s.openGrant leaseID with
  | none =>
    rcases finalize_cases h.conserved leaseID i o with ⟨ack, hf, hack⟩ | ⟨ls, g, hu, -⟩
    · rw [hf]
      simp only [hack, Bool.false_eq_true, if_false]
    · rw [openGrant_unsettled hu] at hg
      cases hg
  | some g =>
    obtain ⟨ls, hu⟩ := h.conserved.unsettled hg
    have hp := hu.charge
    have htotal : ls.grantedInput + ls.grantedOutput = g.grantedTokens := by
      rw [Granted.grantedTokens, hu.describes.grantedInput, hu.describes.grantedOutput]
    split_ifs at hp with hc
    · rw [WalletService.finalize_held hu.active hu.settled hp]
      apply account_finish h hx hu (hactual g) hpos (hover g)
      rw [if_pos hc, ← htotal, ← hu.describes.interactionID]
    · rw [WalletService.finalize_cleared hu.active hu.settled hp]
      apply account_finish h hx hu (hactual g) hpos (hover g)
      rw [if_neg hc]
      rfl

theorem account_acquireLease (hx : x ≠ "") (s : Traced) (resolver : Option (String → Option ℤ))
    (newID : String) (now : ℤ) (req : LeaseRequest) :
    account x (s.next (.acquireLease resolver newID now req)) =
      Call.effect x s (.acquireLease resolver newID now req) (account x s) := by
  unfold Call.effect
  rcases s.next_acquireLease_cases resolver newID now req with
    ⟨hnext, hfailed⟩ | ⟨-, hfailed, hnext⟩
  · rw [hnext]
    simp [hfailed]
  · rw [hnext]
    simp only [hfailed, and_true]
    have hspend : (s.wallet.grantLease resolver newID now req).interactionSpend x =
        s.wallet.interactionSpend x +
          if WalletService.trackedInteractionID resolver req = x then
            req.estimatedInputTokens + req.estimatedMaxOutputTokens else 0 :=
      interactionSpend_record hx rfl
    simp only [account, sumFor_cons, hspend]
    by_cases htracked : WalletService.trackedInteractionID resolver req = x
    · simp [htracked, Account.grant, Granted.heldTokens, Granted.tokens, Granted.usage,
        Granted.overuse, add_comm]
    · simp [htracked]

/-- Reaping keeps the granted tokens, so a visit of the reaper leaves every account alone. -/
theorem account_reapStep (h : Spend pricing x s) (now : ℤ) (leaseID : String) :
    account x (reapStep now s leaseID) = account x s := by
  unfold reapStep
  rcases reapLease_cases h.conserved now leaseID with hr | ⟨ls, -, -, hr⟩ | ⟨ls, g, hu, hr⟩
  · rw [hr]
    rfl
  · rw [hr]
    rfl
  · obtain ⟨hheld, htoks, hzero⟩ := heldTokens_unsettled hu.outcome
    have hkept : (g.finish .reaped).heldTokens = g.heldTokens ∧
        (g.finish .reaped).tokens = g.tokens ∧ (g.finish .reaped).overuse = g.overuse := by
      rw [hheld, htoks, hzero]
      simp [Granted.heldTokens, Granted.tokens, Granted.grantedTokens, Granted.usage,
        Granted.finish, Granted.overuse]
    have hsums : account x ⟨s.wallet,
        { s.history with grants := finishNewest leaseID .reaped s.history.grants }⟩ =
        account x s := by
      simp [account, sumFor_finishNewest x _ .reaped hu.newest, hkept]
    split_ifs at hr
    · rw [hr]
      exact hsums
    · rw [hr]
      exact hsums

/-- What is held and what is counted stay non-negative whatever a call does. -/
theorem nonneg_next (h : ∀ g ∈ s.history.grants, g.Nonneg) (call : Call) :
    ∀ g ∈ (s.next call).history.grants, g.Nonneg := by
  cases call with
  | acquireLease resolver newID now req =>
    rcases s.next_acquireLease_cases resolver newID now req with
      ⟨hnext, -⟩ | ⟨hadmits, -, hnext⟩
    · rw [hnext]
      exact h
    · rw [hnext]
      have hpos := add_nonneg hadmits.input.1 hadmits.output.1
      intro g hg
      rcases List.mem_cons.mp hg with rfl | hg
      · exact ⟨hpos, hpos⟩
      · exact h g hg
  | settleLease leaseID i o =>
    rcases s.wallet.settleLease_cases leaseID i o with ⟨err, he⟩ | ⟨hi, ho, hf⟩
    · simp only [Traced.next, WalletService.call, he]
      exact h
    · simp only [Traced.next, WalletService.call, hf]
      exact nonneg_finalize h fun _ => add_nonneg hi.1 ho.1
  | releaseLease leaseID => exact nonneg_finalize h fun _ => le_rfl
  | reapExpired now order =>
    refine reapExpired_induction (I := fun t => ∀ g ∈ t.history.grants, g.Nonneg) ?_ h order
    intro s leaseID hs
    unfold reapStep
    dsimp only
    split_ifs
    · exact nonneg_finishNewest hs fun g hg => hg
    · exact hs
  | resetDaily =>
    intro g hg
    obtain ⟨old, hold, rfl⟩ := List.mem_map.mp hg
    exact h old hold
  | recordUsage record => exact h
  | evictInteraction interactionID => exact h

theorem account_settleLease (h : Spend pricing x s) (hx : x ≠ "") (leaseID : String) (i o : ℤ) :
    account x (s.next (.settleLease leaseID i o)) =
      Call.effect x s (.settleLease leaseID i o) (account x s) := by
  unfold Call.effect Call.settlement
  rcases s.wallet.settleLease_cases leaseID i o with ⟨err, he⟩ | ⟨hi, ho, hf⟩
  · simp only [Traced.next, WalletService.call, he]
    split_ifs with hrange
    · rw [WalletService.settleLease, validateTokenCount_eq_none.mpr hrange.1,
        validateTokenCount_eq_none.mpr hrange.2] at he
      simp at he
    · rfl
  · simp only [Traced.next, WalletService.call, hf]
    rw [if_pos ⟨hi, ho⟩]
    exact account_finalize h hx leaseID (add_nonneg hi.1 ho.1) (fun _ => rfl) fun _ => rfl

theorem account_evictInteraction {interactionID : String} (hne : interactionID ≠ x) (s : Traced) :
    account x (s.next (.evictInteraction interactionID)) = account x s := by
  simp only [Traced.next, WalletService.call, WalletService.evictInteraction]
  split_ifs
  · rfl
  · rfl
  · simp only [account, WalletService.interactionSpend, History.observe]
    rw [GoMap.lookup_erase, if_neg (Ne.symm hne)]

theorem account_resetDaily (s : Traced) : account x (s.next .resetDaily) = account x s := by
  simp only [account, Traced.next, WalletService.call, History.observe]
  congr 1
  · exact sumFor_forget x _ (fun _ => rfl) _
  · exact sumFor_forget x _ (fun _ => rfl) _
  · exact sumFor_forget x _ (fun _ => rfl) _

/-- A call moves the account of an interaction it does not evict by its effect. -/
theorem account_next (h : Spend pricing x s) (hx : x ≠ "") {call : Call}
    (hcall : call.evicts x = false) :
    account x (s.next call) = call.effect x s (account x s) := by
  cases call with
  | acquireLease resolver newID now req => exact account_acquireLease hx s resolver newID now req
  | settleLease leaseID i o => exact account_settleLease h hx leaseID i o
  | releaseLease leaseID =>
    exact account_finalize h hx leaseID le_rfl (fun _ => rfl) fun _ => rfl
  | reapExpired now order =>
    have hpass : Spend pricing x (s.next (.reapExpired now order)) ∧
        account x (s.next (.reapExpired now order)) = account x s := by
      refine reapExpired_induction
        (I := fun t => Spend pricing x t ∧ account x t = account x s) ?_ ⟨h, rfl⟩ order
      intro t leaseID ⟨ht, ha⟩
      have hvisit := account_reapStep ht now leaseID
      refine ⟨⟨ht.conserved.reapLease now leaseID, ?_, ?_⟩, hvisit.trans ha⟩
      · rw [hvisit]
        exact ht.total
      · unfold reapStep
        dsimp only
        split_ifs
        · exact nonneg_finishNewest ht.nonneg fun g hg => hg
        · exact ht.nonneg
    exact hpass.2
  | resetDaily => exact account_resetDaily s
  | recordUsage record => rfl
  | evictInteraction interactionID =>
    exact account_evictInteraction (by simpa [Call.evicts] using hcall) s

theorem effect_total (call : Call) {a : Account} (h : a.spend = a.held) :
    (call.effect x s a).spend = (call.effect x s a).held := by
  unfold Call.effect Account.grant Account.settle
  split
  · split_ifs <;> simp [h]
  · split
    · exact h
    · split
      · exact h
      · split_ifs <;> simp [h]

theorem Spend.next (h : Spend pricing x s) (hx : x ≠ "") {call : Call}
    (hcall : call.evicts x = false) : Spend pricing x (s.next call) where
  conserved := h.conserved.next call
  total := by
    rw [account_next h hx hcall]
    exact effect_total call h.total
  nonneg := nonneg_next h.nonneg call

/-- The calls of a run that never evicts the interaction. -/
def Retained (x : String) (calls : List Call) : Prop := ∀ call ∈ calls, call.evicts x = false

theorem spend_run (pricing : CostConfig) (cfg : Config) (hx : x ≠ "") {calls : List Call}
    (h : Retained x calls) : Spend pricing x (run pricing cfg calls) := by
  induction calls using List.reverseRecOn with
  | nil => exact spend_start pricing cfg x
  | append_singleton calls call ih =>
    rw [run_concat]
    exact (ih fun c hc => h c (by simp [hc])).next hx (h call (by simp))

def unpriced : CostConfig := ⟨∅, {}⟩

/-- Thirty tokens for interaction `i`, under a ceiling of a hundred. -/
def cappedRequest : LeaseRequest :=
  { workflowID := "w", agentID := "a", model := "m", estimatedInputTokens := 10,
    estimatedMaxOutputTokens := 20, interactionID := "i", interactionBudgetTokens := 100 }

end Persatrix.Wallet

/-!
## Exactness of the interaction total

The total of an interaction should be what its leases used. It is what they hold,
and the two differ by the settlements that arrive after a daily reset has cleared
the lease's charge: such a settlement is acknowledged without adjusting the total,
so a run is exact as long as each of them reports the very tokens granted.
-/
namespace Persatrix.Wallet
open Cost

/-- The call ends a lease of the interaction that was granted before the last daily
reset, and reports other tokens than were granted. -/
def Call.closesLate (x : String) (s : Traced) (call : Call) : Prop :=
  ∃ leaseID actual g, call.settlement = some (leaseID, actual) ∧
    s.openGrant leaseID = some g ∧ g.interactionID = x ∧ g.current = false ∧
    actual ≠ g.grantedTokens

/-- The total of the interaction is the sum of its leases' tokens. -/
def TotalExact (x : String) (s : Traced) : Prop :=
  s.wallet.interactionSpend x = sumFor x Granted.tokens s.history.grants

variable {pricing : CostConfig} {x : String} {s : Traced}

theorem closesLate_iff {call : Call} {leaseID : String} {actual : ℤ} {g : Granted}
    (hcall : call.settlement = some (leaseID, actual)) (hg : s.openGrant leaseID = some g) :
    call.closesLate x s ↔ g.interactionID = x ∧ g.current = false ∧ actual ≠ g.grantedTokens := by
  constructor
  · rintro ⟨leaseID', actual', g', hcall', hg', h⟩
    rw [hcall] at hcall'
    cases hcall'
    rw [hg] at hg'
    cases hg'
    exact h
  · intro h
    exact ⟨leaseID, actual, g, hcall, hg, h⟩

/-- The gap between use and total moves exactly at a late close. -/
theorem effect_gap (call : Call) (a : Account) :
    (call.effect x s a).tokens - (call.effect x s a).spend = a.tokens - a.spend ↔
      ¬ call.closesLate x s := by
  unfold Call.effect
  split
  case h_1 resolver newID now req =>
    have hnot : ¬ (Call.acquireLease resolver newID now req).closesLate x s := by
      rintro ⟨_, _, _, hcall, _⟩
      simp [Call.settlement] at hcall
    have hgap : ∀ n, (a.grant n).tokens - (a.grant n).spend = a.tokens - a.spend := by
      intro n
      simp only [Account.grant]
      omega
    split_ifs
    · exact iff_of_true (hgap _) hnot
    · exact iff_of_true rfl hnot
  case h_2 call _ =>
    split
    case h_1 hcall =>
      apply iff_of_true rfl
      rintro ⟨_, _, _, hcall', _⟩
      rw [hcall] at hcall'
      cases hcall'
    case h_2 leaseID actual hcall =>
      cases hg : s.openGrant leaseID with
      | none =>
        apply iff_of_true rfl
        rintro ⟨_, _, _, hcall', hg', _⟩
        rw [hcall] at hcall'
        cases hcall'
        rw [hg] at hg'
        cases hg'
      | some g =>
        rw [closesLate_iff hcall hg]
        by_cases hx : g.interactionID = x
        · cases hc : g.current with
          | true =>
            refine iff_of_true ?_ (by simp)
            simp only [hx, hc, Account.settle, if_true, Bool.not_true, Bool.false_eq_true,
              if_false]
            omega
          | false =>
            simp only [hx, hc, Account.settle, if_true, Bool.not_false, true_and, not_not]
            omega
        · simp [hx]

theorem totalExact_next (h : Spend pricing x s) (hx : x ≠ "") {call : Call}
    (hcall : call.evicts x = false) (hexact : TotalExact x s) :
    TotalExact x (s.next call) ↔ ¬ call.closesLate x s := by
  have hgap := effect_gap (x := x) (s := s) call (account x s)
  rw [← account_next h hx hcall] at hgap
  rw [← hgap]
  unfold TotalExact at hexact ⊢
  simp only [account, hexact, sub_self, sub_eq_zero]
  exact eq_comm

theorem totalExact_start (pricing : CostConfig) (cfg : Config) (x : String) :
    TotalExact x (start pricing cfg) := by
  simp [TotalExact, start, newWalletService, WalletService.interactionSpend, sumFor]

/-- In every run that keeps the interaction, its total is exact in all states reached if
and only if no call of the run closes a lease late. -/
theorem totalExact_iff_never_closesLate (pricing : CostConfig) (cfg : Config) {x : String}
    (hx : x ≠ "") {calls : List Call} (hretained : Retained x calls) :
    (∀ pre, pre <+: calls → TotalExact x (run pricing cfg pre)) ↔
      ∀ pre call, pre ++ [call] <+: calls → ¬ call.closesLate x (run pricing cfg pre) := by
  have hspend : ∀ pre, pre <+: calls → Spend pricing x (run pricing cfg pre) := by
    intro pre hpre
    exact spend_run pricing cfg hx fun call hcall => hretained call (hpre.subset hcall)
  have hstep : ∀ pre call, pre ++ [call] <+: calls → TotalExact x (run pricing cfg pre) →
      (TotalExact x (run pricing cfg (pre ++ [call])) ↔
        ¬ call.closesLate x (run pricing cfg pre)) := by
    intro pre call hpre hexact
    rw [run_concat]
    exact totalExact_next (hspend pre ((List.prefix_append _ _).trans hpre)) hx
      (hretained call (hpre.subset (by simp))) hexact
  constructor
  · intro hexact pre call hpre
    exact (hstep pre call hpre (hexact pre ((List.prefix_append _ _).trans hpre))).mp
      (hexact _ hpre)
  · intro hnever pre
    induction pre using List.reverseRecOn with
    | nil =>
      intro _
      exact totalExact_start pricing cfg x
    | append_singleton pre call ih =>
      intro hpre
      have hexact := ih ((List.prefix_append _ _).trans hpre)
      exact (hstep pre call hpre hexact).mpr (hnever pre call hpre)

/-- The daily reset falls between the grant of a lease and its release. -/
def lateRelease : List Call :=
  [.acquireLease none "l" 0 cappedRequest, .resetDaily, .releaseLease "l"]

theorem lateRelease_retained : Retained "i" lateRelease := by
  unfold Retained lateRelease
  simp [Call.evicts]

theorem totalExact_iff_lateRelease :
    "i" ≠ "" ∧ Retained "i" lateRelease ∧
    ((∀ pre, pre <+: lateRelease → TotalExact "i" (run unpriced defaultConfig pre)) ↔
      ∀ pre call, pre ++ [call] <+: lateRelease →
        ¬ call.closesLate "i" (run unpriced defaultConfig pre)) :=
  ⟨by decide, lateRelease_retained,
    totalExact_iff_never_closesLate unpriced defaultConfig (by decide) lateRelease_retained⟩

/-- The released lease used nothing, yet all it was granted stays in the total. -/
theorem lateRelease_keeps_total :
    Retained "i" lateRelease ∧
    (run unpriced defaultConfig lateRelease).wallet.interactionSpend "i" = 30 ∧
    sumFor "i" Granted.tokens (run unpriced defaultConfig lateRelease).history.grants = 0 := by
  refine ⟨lateRelease_retained, ?_, ?_⟩
  · decide
  · decide

end Persatrix.Wallet
