import Persatrix.LeaseCharges
import Persatrix.WalletInteraction

/-!
# Brackets and the ledger agree

What the ledger holds is the sum of what the leases are charged, and a lease that has ended is
charged what its body settled, what was granted, or nothing.
-/
namespace Persatrix.WalletClient
open Wallet

/-- The tokens that the ledger has for a lease. -/
def charge (g : Granted) : ℤ × ℤ := (g.usage.inputTokens, g.usage.outputTokens)

/-- A task holds the lease of a grant. -/
def Holds (s : State) (b : ℕ) (l : Lease) (g : Granted) : Prop :=
  (s.phase b).lease = some l ∧ l.leaseID = g.leaseID

structure Charged (s : State) (g : Granted) : Prop where
  tokens : (∃ b l a, Holds s b l g ∧ l.actual = some a ∧ charge g = (max 0 a.1, max 0 a.2)) ∨
    charge g = (g.grantedInput, g.grantedOutput) ∨ charge g = (0, 0)
  /-- A lease that is not charged was granted nothing, or its body settled no positive count, or
  left without the call's start. -/
  zero : charge g = (0, 0) → (g.grantedInput, g.grantedOutput) = (0, 0) ∨ ∀ b l, Holds s b l g →
    (∃ a, l.actual = some a ∧ a.1 ≤ 0 ∧ a.2 ≤ 0) ∨ l.callStarted = false ∧ (s.phase b).left = true

variable {pricing : Cost.CostConfig} {s : State}

/-- A lease has one holder. -/
theorem holder_unique (h : Agrees pricing s) {b b' : ℕ} {l l' : Lease} {g : Granted}
    (hl : Holds s b l g) (hl' : Holds s b' l' g) : b' = b ∧ l' = l := by
  obtain ⟨f, flight, grant, hf, howner, hgrant, hid, -⟩ := h.sound.held b l hl.1
  obtain ⟨f', flight', grant', hf', howner', hgrant', hid', -⟩ := h.sound.held b' l' hl'.1
  have hsame : grant.leaseID = grant'.leaseID := by
    rw [← hid, ← hid', hl.2, hl'.2]
  obtain rfl := h.distinct f f' flight flight' grant grant' hf hf' hgrant hgrant' hsame
  obtain rfl := Option.some.inj (hf.symm.trans hf')
  have hb : b' = b := howner'.symm.trans howner
  subst hb
  exact ⟨rfl, Option.some.inj (hl'.1.symm.trans hl.1)⟩

/-- What a task has of a lease is what was granted. -/
theorem holder_granted (h : Agrees pricing s) {b : ℕ} {l : Lease} {g : Granted}
    (hl : Holds s b l g) (hg : newest g.leaseID s.server.history.grants = some g) :
    l.grantedInputTokens = g.grantedInput ∧ l.grantedOutputTokens = g.grantedOutput := by
  obtain ⟨f, flight, grant, hf, -, hgrant, hid, hinput, houtput⟩ := h.sound.held b l hl.1
  obtain ⟨g', hg', hinput', houtput'⟩ := h.granted f flight grant hf hgrant
  have hsame : grant.leaseID = g.leaseID := hid.symm.trans hl.2
  rw [hsame] at hg'
  obtain rfl := Option.some.inj (hg.symm.trans hg')
  exact ⟨hinput.trans hinput'.symm, houtput.trans houtput'.symm⟩

theorem charged (h : Agrees pricing s) {g : Granted} (hmem : g ∈ s.server.history.grants)
    (hended : g.outcome ≠ .unsettled) : Charged s g := by
  have hg := newest_of_mem h.unique hmem
  obtain ⟨hinput, houtput⟩ := h.nonneg g.leaseID g hg
  cases houtcome : g.outcome with
  | unsettled => exact absurd houtcome hended
  | settled i o =>
    have hcharge : charge g = (i, o) := by
      unfold charge Granted.usage
      rw [houtcome]
    obtain ⟨b, l, hl, hid, hsettles⟩ := h.settled g.leaseID g i o hg houtcome
    have hholds : Holds s b l g := ⟨hl, hid⟩
    rcases hsettles with ⟨a, ha, rfl, rfl⟩ | ⟨hi, ho, -⟩
    · refine ⟨.inl ⟨b, l, a, hholds, ha, hcharge⟩, fun hzero => .inr fun b' l' hholds' => ?_⟩
      obtain ⟨-, rfl⟩ := holder_unique h hholds hholds'
      rw [hcharge] at hzero
      obtain ⟨hi, ho⟩ := Prod.mk.inj hzero
      exact .inl ⟨a, ha, max_eq_left_iff.mp hi, max_eq_left_iff.mp ho⟩
    · obtain ⟨hgi, hgo⟩ := holder_granted h hholds hg
      have hgranted : charge g = (g.grantedInput, g.grantedOutput) := by
        rw [hcharge, hi, ho, hgi, hgo, max_eq_right hinput, max_eq_right houtput]
      exact ⟨.inr (.inl hgranted), fun hzero => .inl (hgranted.symm.trans hzero)⟩
  | released =>
    have hcharge : charge g = (0, 0) := by
      unfold charge Granted.usage
      rw [houtcome]
    obtain ⟨b, l, hl, hid, hstarted, hleft⟩ := h.released g.leaseID g hg houtcome
    refine ⟨.inr (.inr hcharge), fun _ => .inr fun b' l' hholds' => ?_⟩
    obtain ⟨rfl, rfl⟩ := holder_unique h ⟨hl, hid⟩ hholds'
    exact .inr ⟨hstarted, hleft⟩
  | reaped =>
    have hcharge : charge g = (g.grantedInput, g.grantedOutput) := by
      unfold charge Granted.usage
      rw [houtcome]
    exact ⟨.inr (.inl hcharge), fun hzero => .inl (hcharge.symm.trans hzero)⟩

/-- In every run the ledger is the sum of the charges of the leases, each granted once; a lease
that has ended is charged as its holder let it; and no step changes its charge. -/
theorem lease_charged {client : Client} {cfg : Config}
    (h : (brackets client pricing cfg).Reachable s) :
    (∀ scope, s.server.wallet.counter.totals scope = asTotals (s.server.history.sum pricing scope)) ∧
      (s.server.history.grants.map Granted.leaseID).Nodup ∧
      (∀ g ∈ s.server.history.grants, g.current = true ∧
        (g.outcome ≠ .unsettled → Charged s g)) ∧
      ∀ e t, s.step client e = some t → ∀ g ∈ s.server.history.grants, g.outcome ≠ .unsettled →
        g ∈ t.server.history.grants := by
  have hs := agrees_reachable h
  refine ⟨hs.conserved.totals, hs.unique, fun g hg => ?_, fun e t hstep g hg hended => ?_⟩
  · exact ⟨hs.current g.leaseID g (newest_of_mem hs.unique hg), charged hs hg⟩
  · exact (newest_mem (newest_step hs hstep (newest_of_mem hs.unique hg) hended)).1

/-! ### Charges that the bracket's promise does not name -/

def client : Client := ⟨3, 3, by decide, by decide⟩

def request (input output : ℤ) : LeaseRequest where
  workflowID := "w"
  agentID := "a"
  model := "m"
  estimatedInputTokens := input
  estimatedMaxOutputTokens := output

/-- The body starts its call and returns without settling. -/
def callUnsettled : List Event :=
  [.enter 0 (request 0 0), .deliver 0 none "l" 0, .reply 0, .markCallStarted 0, .exit 0 false,
    .deliver 1 none "" 1, .reply 0]

/-- The body starts its call and settles a negative count. -/
def negativeSettled : List Event :=
  [.enter 0 (request 20 30), .deliver 0 none "l" 0, .reply 0, .markCallStarted 0,
    .settle 0 (-5) 10, .deliver 1 none "" 1, .reply 0, .exit 0 false]

theorem charges_unnamed :
    (∃ s, (brackets client unpriced defaultConfig).Reachable s ∧ ∃ g ∈ s.server.history.grants,
      g.outcome ≠ .unsettled ∧ charge g = (0, 0) ∧ ∃ l, Holds s 0 l g ∧ l.actual = none ∧
        l.callStarted = true) ∧
    ∃ s, (brackets client unpriced defaultConfig).Reachable s ∧ ∃ g ∈ s.server.history.grants,
      g.outcome ≠ .unsettled ∧ charge g = (0, 10) ∧ (g.grantedInput, g.grantedOutput) = (20, 30) ∧
        ∃ l, Holds s 0 l g ∧ l.actual = some (-5, 10) := by
  have hunsettled : ((brackets client unpriced defaultConfig).exec callUnsettled).map
      (fun s => decide ((s.phase 0).lease = some ⟨"l", 0, 0, true, none⟩ ∧
        ∃ g ∈ s.server.history.grants, g.leaseID = "l" ∧ g.outcome ≠ .unsettled ∧
          charge g = (0, 0))) = some true := by
    decide
  have hnegative : ((brackets client unpriced defaultConfig).exec negativeSettled).map
      (fun s => decide ((s.phase 0).lease = some ⟨"l", 20, 30, true, some (-5, 10)⟩ ∧
        ∃ g ∈ s.server.history.grants, g.leaseID = "l" ∧ g.outcome ≠ .unsettled ∧
          charge g = (0, 10) ∧ (g.grantedInput, g.grantedOutput) = (20, 30))) = some true := by
    decide
  constructor
  · obtain ⟨s, hexec, hlease, g, hg, hid, hended, hcharge⟩ := System.exists_of_exec hunsettled
    exact ⟨s, System.reachable_exec hexec, g, hg, hended, hcharge, _, ⟨hlease, hid.symm⟩, rfl, rfl⟩
  · obtain ⟨s, hexec, hlease, g, hg, hid, hended, hcharge, hgranted⟩ :=
      System.exists_of_exec hnegative
    exact ⟨s, System.reachable_exec hexec, g, hg, hended, hcharge, hgranted, _,
      ⟨hlease, hid.symm⟩, rfl⟩

theorem lease_charged_settled : ∃ s : State,
    (∃ g ∈ s.server.history.grants, g.outcome = .settled 0 10) ∧
    ∀ g ∈ s.server.history.grants, g.current = true ∧ (g.outcome ≠ .unsettled → Charged s g) := by
  have hrun : ((brackets client unpriced defaultConfig).exec negativeSettled).map
      (fun s => decide (∃ g ∈ s.server.history.grants, g.outcome = .settled 0 10)) = some true := by
    decide
  obtain ⟨s, hexec, hs⟩ := System.exists_of_exec hrun
  exact ⟨s, hs, (lease_charged (System.reachable_exec hexec)).2.2.1⟩

end Persatrix.WalletClient
