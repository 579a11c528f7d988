import Persatrix.LeaseBracket

/-!
# Who may ask for what

A settlement or a release of a lease is sent by the task that holds it, and only as what the task
has done with the lease allows; and it goes on allowing it.
-/
namespace Persatrix.WalletClient
open Wallet

def Phase.lease : Phase → Option Lease
  | .idle => none
  | .acquiring _ _ _ => none
  | .acquireBackoff _ _ => none
  | .body lease => some lease
  | .settling lease _ _ _ _ _ => some lease
  | .settleBackoff lease _ _ _ _ => some lease
  | .releasing lease _ => some lease
  | .over lease => lease

/-- The body is over. -/
def Phase.left : Phase → Bool
  | .settling _ exiting _ _ _ _ => exiting
  | .settleBackoff _ exiting _ _ _ => exiting
  | .releasing _ _ => true
  | .over _ => true
  | _ => false

/-- The tokens of a settlement that a task may send: those that its body settled, a negative count
as zero, or the granted ones once the call was started. -/
def Lease.Settles (l : Lease) (input output : ℤ) : Prop :=
  (∃ a, l.actual = some a ∧ input = max 0 a.1 ∧ output = max 0 a.2) ∨
    (input = max 0 l.grantedInputTokens ∧ output = max 0 l.grantedOutputTokens ∧
      l.callStarted = true)

/-- What a task may have sent. -/
def Allows (p : Phase) : Request → Prop
  | .acquireLease _ => True
  | .settleLease leaseID input output =>
    ∃ l, p.lease = some l ∧ l.leaseID = leaseID ∧ l.Settles input output
  | .releaseLease leaseID =>
    ∃ l, p.lease = some l ∧ l.leaseID = leaseID ∧ l.callStarted = false ∧ p.left = true

/-- A task goes on: its lease stays, what it has done stays done, and after the body it does no
more. -/
structure Phase.Goes (p p' : Phase) : Prop where
  lease : ∀ l, p.lease = some l → ∃ l', p'.lease = some l' ∧ l'.leaseID = l.leaseID ∧
    l'.grantedInputTokens = l.grantedInputTokens ∧ l'.grantedOutputTokens = l.grantedOutputTokens ∧
    (∀ a, l.actual = some a → l'.actual = some a) ∧ (l.callStarted = true → l'.callStarted = true) ∧
    (p.left = true → l'.callStarted = l.callStarted)
  left : p.left = true → p'.left = true

theorem Phase.Goes.refl (p : Phase) : p.Goes p :=
  ⟨fun l hl => ⟨l, hl, rfl, rfl, rfl, fun _ => id, id, fun _ => rfl⟩, id⟩

/-- A task keeps its lease as it is. -/
theorem Phase.goes_of_lease {p p' : Phase} (hlease : p'.lease = p.lease)
    (hleft : p.left = true → p'.left = true) : p.Goes p' :=
  ⟨fun l hl => ⟨l, hlease.trans hl, rfl, rfl, rfl, fun _ => id, id, fun _ => rfl⟩, hleft⟩

theorem Phase.goes_of_none {p p' : Phase} (hlease : p.lease = none) (hleft : p.left = false) :
    p.Goes p' where
  lease l hl := by
    rw [hlease] at hl
    cases hl
  left h := by
    rw [hleft] at h
    cases h

theorem Lease.Settles.goes {l l' : Lease} {i o : ℤ} (h : l.Settles i o)
    (hinput : l'.grantedInputTokens = l.grantedInputTokens)
    (houtput : l'.grantedOutputTokens = l.grantedOutputTokens)
    (hactual : ∀ a, l.actual = some a → l'.actual = some a)
    (hstarted : l.callStarted = true → l'.callStarted = true) : l'.Settles i o := by
  rcases h with ⟨a, ha, hi, ho⟩ | ⟨hi, ho, hcall⟩
  · exact .inl ⟨a, hactual a ha, hi, ho⟩
  · refine .inr ⟨?_, ?_, hstarted hcall⟩
    · rw [hi, hinput]
    · rw [ho, houtput]

/-- What a task may have sent it may have sent ever after. -/
theorem Allows.goes {p p' : Phase} {r : Request} (h : Allows p r) (hgoes : p.Goes p') :
    Allows p' r := by
  cases r with
  | acquireLease => trivial
  | settleLease leaseID i o =>
    obtain ⟨l, hl, hid, hsettles⟩ := h
    obtain ⟨l', hl', hid', hinput, houtput, hactual, hstarted, -⟩ := hgoes.lease l hl
    exact ⟨l', hl', hid'.trans hid, hsettles.goes hinput houtput hactual hstarted⟩
  | releaseLease leaseID =>
    obtain ⟨l, hl, hid, hcall, hleft⟩ := h
    obtain ⟨l', hl', hid', -, -, -, -, hsame⟩ := hgoes.lease l hl
    exact ⟨l', hl', hid'.trans hid, (hsame hleft).trans hcall, hgoes.left hleft⟩

/-- What a task sends again. -/
def Phase.Resends (p : Phase) : Prop :=
  match p with
  | .settling l _ i o _ _ => l.Settles i o
  | .settleBackoff l _ i o _ => l.Settles i o
  | _ => True

/-- The grant that an attempt was answered with. -/
def Flight.granted (f : Flight) : Option LeaseGrant :=
  match f.request, f.answer with
  | .acquireLease _, some (.lease (.ok (.grant grant))) => some grant
  | _, _ => none

/-- What holds of the tasks and their attempts. -/
structure Sound (s : State) : Prop where
  unsent : ∀ f, s.sent ≤ f → s.flights f = none
  waiting : ∀ b req attempt f, s.phase b = .acquiring req attempt f →
    ∃ req' answer, s.flights f = some ⟨b, .acquireLease req', answer⟩
  held : ∀ b l, (s.phase b).lease = some l → ∃ f flight grant, s.flights f = some flight ∧
    flight.owner = b ∧ flight.granted = some grant ∧ l.leaseID = grant.leaseID ∧
    l.grantedInputTokens = grant.grantedInputTokens ∧
    l.grantedOutputTokens = grant.grantedOutputTokens
  allowed : ∀ f flight, s.flights f = some flight → Allows (s.phase flight.owner) flight.request
  resends : ∀ b, (s.phase b).Resends

variable {s : State}

theorem sound_initial (pricing : Cost.CostConfig) (cfg : Config) : Sound (initial pricing cfg) where
  unsent _ _ := rfl
  waiting b req attempt f h := by cases h
  held b l h := by cases h
  allowed f flight h := by cases h
  resends _ := trivial

/-- What a step of a task keeps. -/
structure Acts (s t : State) : Prop where
  sound : Sound t
  server : t.server = s.server
  granted : ∀ f flight grant, t.flights f = some flight → flight.granted = some grant →
    s.flights f = some flight
  goes : ∀ b, (s.phase b).Goes (t.phase b)

/-- A task goes on without sending. -/
theorem Sound.goto (h : Sound s) {b : ℕ} {p : Phase} (hgoes : (s.phase b).Goes p)
    (hwaiting : ∀ req attempt f, p ≠ .acquiring req attempt f) (hresends : p.Resends)
    (hheld : ∀ l, p.lease = some l → ∃ f flight grant, s.flights f = some flight ∧
      flight.owner = b ∧ flight.granted = some grant ∧ l.leaseID = grant.leaseID ∧
      l.grantedInputTokens = grant.grantedInputTokens ∧
      l.grantedOutputTokens = grant.grantedOutputTokens) : Acts s (s.goto b p) := by
  have hphase : ∀ b', (s.goto b p).phase b' = if b' = b then p else s.phase b' := by
    intro b'
    exact Function.update_apply s.phase b p b'
  refine ⟨⟨h.unsent, ?_, ?_, ?_, ?_⟩, rfl, fun f flight grant hf _ => hf, ?_⟩
  · intro b' req attempt f hb'
    rw [hphase] at hb'
    split_ifs at hb'
    · exact absurd hb' (hwaiting req attempt f)
    · exact h.waiting b' req attempt f hb'
  · intro b' l hl
    rw [hphase] at hl
    split_ifs at hl with hb'
    · subst hb'
      exact hheld l hl
    · exact h.held b' l hl
  · intro f flight hf
    rw [hphase]
    split_ifs with hb'
    · exact (hb' ▸ h.allowed f flight hf).goes hgoes
    · exact h.allowed f flight hf
  · intro b'
    rw [hphase]
    split_ifs
    · exact hresends
    · exact h.resends b'
  · intro b'
    rw [hphase]
    split_ifs with hb'
    · exact hb' ▸ hgoes
    · exact .refl _

/-- A lease that goes on is held by its grant. -/
theorem Sound.held_goes (h : Sound s) {b : ℕ} {l l' : Lease} (hl : (s.phase b).lease = some l)
    (hid : l'.leaseID = l.leaseID) (hinput : l'.grantedInputTokens = l.grantedInputTokens)
    (houtput : l'.grantedOutputTokens = l.grantedOutputTokens) :
    ∃ f flight grant, s.flights f = some flight ∧ flight.owner = b ∧
      flight.granted = some grant ∧ l'.leaseID = grant.leaseID ∧
      l'.grantedInputTokens = grant.grantedInputTokens ∧
      l'.grantedOutputTokens = grant.grantedOutputTokens := by
  obtain ⟨f, flight, grant, hf, howner, hgrant, hid', hinput', houtput'⟩ := h.held b l hl
  exact ⟨f, flight, grant, hf, howner, hgrant, hid.trans hid', hinput.trans hinput',
    houtput.trans houtput'⟩

/-- A task sends a request that it may send. -/
theorem Sound.send (h : Sound s) {b : ℕ} {r : Request} {p : ℕ → Phase}
    (hgoes : ∀ f, (s.phase b).Goes (p f)) (hallows : ∀ f, Allows (p f) r)
    (hresends : ∀ f, (p f).Resends)
    (hwaiting : ∀ f req attempt f', p f = .acquiring req attempt f' →
      f' = f ∧ ∃ req', r = .acquireLease req')
    (hheld : ∀ f l, (p f).lease = some l → ∃ l₀, (s.phase b).lease = some l₀ ∧
      l.leaseID = l₀.leaseID ∧ l.grantedInputTokens = l₀.grantedInputTokens ∧
      l.grantedOutputTokens = l₀.grantedOutputTokens) : Acts s (s.send b r p) := by
  have hphase : ∀ b', (s.send b r p).phase b' = if b' = b then p s.sent else s.phase b' := by
    intro b'
    exact Function.update_apply s.phase b (p s.sent) b'
  have hflights : ∀ f, (s.send b r p).flights f =
      if f = s.sent then some ⟨b, r, none⟩ else s.flights f := by
    intro f
    exact Function.update_apply s.flights s.sent (some ⟨b, r, none⟩) f
  have hold : ∀ f flight, s.flights f = some flight → (s.send b r p).flights f = some flight := by
    intro f flight hf
    rw [hflights, if_neg]
    · exact hf
    · rintro rfl
      rw [h.unsent _ le_rfl] at hf
      cases hf
  refine ⟨⟨?_, ?_, ?_, ?_, ?_⟩, rfl, ?_, ?_⟩
  · intro f hle
    have hle : s.sent + 1 ≤ f := hle
    rw [hflights, if_neg (by omega)]
    exact h.unsent f (by omega)
  · intro b' req attempt f hb'
    rw [hphase] at hb'
    split_ifs at hb' with hb
    · obtain ⟨rfl, req', rfl⟩ := hwaiting _ _ _ _ hb'
      refine ⟨req', none, ?_⟩
      rw [hflights, if_pos rfl, hb]
    · obtain ⟨req', answer, hf⟩ := h.waiting b' req attempt f hb'
      exact ⟨req', answer, hold f _ hf⟩
  · intro b' l hl
    rw [hphase] at hl
    split_ifs at hl with hb
    · subst hb
      obtain ⟨l₀, hl₀, hid, hinput, houtput⟩ := hheld _ l hl
      obtain ⟨f, flight, grant, hf, hrest⟩ := h.held_goes hl₀ hid hinput houtput
      exact ⟨f, flight, grant, hold f flight hf, hrest⟩
    · obtain ⟨f, flight, grant, hf, hrest⟩ := h.held b' l hl
      exact ⟨f, flight, grant, hold f flight hf, hrest⟩
  · intro f flight hf
    rw [hflights] at hf
    rw [hphase]
    split_ifs at hf with hsent
    · cases hf
      rw [if_pos rfl]
      exact hallows _
    · split_ifs with hb
      · exact (hb ▸ h.allowed f flight hf).goes (hgoes _)
      · exact h.allowed f flight hf
  · intro b'
    rw [hphase]
    split_ifs
    · exact hresends _
    · exact h.resends b'
  · intro f flight grant hf hgrant
    rw [hflights] at hf
    split_ifs at hf
    · cases hf
      unfold Flight.granted at hgrant
      cases r <;> cases hgrant
    · exact hf
  · intro b'
    rw [hphase]
    split_ifs with hb'
    · exact hb' ▸ hgoes _
    · exact .refl _

/-! ### What a task does -/

section
variable {client : Client} {b : ℕ}

theorem Sound.acquire (h : Sound s) (hlease : (s.phase b).lease = none)
    (hleft : (s.phase b).left = false) (req : LeaseRequest) (attempt : ℕ) :
    Acts s (s.acquire b req attempt) := by
  apply h.send
  · exact fun _ => Phase.goes_of_none hlease hleft
  · exact fun _ => trivial
  · exact fun _ => trivial
  · intro f req' attempt' f' hp
    cases hp
    exact ⟨rfl, req, rfl⟩
  · intro f l hl
    cases hl

theorem Sound.over_none (h : Sound s) (hlease : (s.phase b).lease = none)
    (hleft : (s.phase b).left = false) : Acts s (s.goto b (.over none)) := by
  apply h.goto (Phase.goes_of_none hlease hleft)
  · intro req attempt f hp
    cases hp
  · trivial
  · intro l hl
    cases hl

theorem Sound.acquireFailed (h : Sound s) (hlease : (s.phase b).lease = none)
    (hleft : (s.phase b).left = false) (req : LeaseRequest) (attempt : ℕ) (code : StatusCode) :
    Acts s (s.acquireFailed client b req attempt code) := by
  unfold State.acquireFailed
  split_ifs
  · apply h.goto (Phase.goes_of_none hlease hleft)
    · intro req attempt f hp
      cases hp
    · trivial
    · intro l hl
      cases hl
  · exact h.over_none hlease hleft

/-- The holder of a lease moves on, with its lease as it is. -/
theorem Sound.goto_lease (h : Sound s) {l : Lease} {p : Phase} (hl : (s.phase b).lease = some l)
    (hp : p.lease = some l) (hleft : (s.phase b).left = true → p.left = true)
    (hwaiting : ∀ req attempt f, p ≠ .acquiring req attempt f) (hresends : p.Resends) :
    Acts s (s.goto b p) := by
  apply h.goto (Phase.goes_of_lease (hp.trans hl.symm) hleft) hwaiting hresends
  intro l' hl'
  obtain rfl := Option.some.inj (hp.symm.trans hl')
  exact h.held b l hl

theorem Sound.settleReturns (h : Sound s) {l : Lease} {exiting : Bool}
    (hl : (s.phase b).lease = some l) (hleft : (s.phase b).left = true → exiting = true) :
    Acts s (s.settleReturns b l exiting) := by
  unfold State.settleReturns
  cases exiting with
  | true =>
    apply h.goto_lease hl rfl (fun _ => rfl)
    · intro req attempt f hp
      cases hp
    · trivial
  | false =>
    apply h.goto_lease hl rfl (fun hl => absurd (hleft hl) Bool.false_ne_true)
    · intro req attempt f hp
      cases hp
    · trivial

theorem Sound.settleFailed (h : Sound s) {l : Lease} {exiting : Bool} {i o : ℤ}
    (hl : (s.phase b).lease = some l) (hleft : (s.phase b).left = true → exiting = true)
    (hsettles : l.Settles i o) (attempt : ℕ) :
    Acts s (s.settleFailed client b l exiting i o attempt) := by
  unfold State.settleFailed
  split_ifs
  · apply h.goto_lease (p := .settleBackoff l exiting i o attempt) hl rfl hleft
    · intro req attempt f hp
      cases hp
    · exact hsettles
  · exact h.settleReturns hl hleft

theorem Sound.settleAttempt (h : Sound s) {l l' : Lease} {exiting : Bool} {i o : ℤ}
    (hl : (s.phase b).lease = some l) (hsettles : l'.Settles i o)
    (hgoes : ∀ f attempt, (s.phase b).Goes (.settling l' exiting i o attempt f))
    (hid : l'.leaseID = l.leaseID) (hinput : l'.grantedInputTokens = l.grantedInputTokens)
    (houtput : l'.grantedOutputTokens = l.grantedOutputTokens) (attempt : ℕ) : Acts s (s.settleAttempt b l' exiting i o attempt) := by
  apply h.send
  · exact fun f => hgoes f attempt
  · exact fun f => ⟨l', rfl, rfl, hsettles⟩
  · exact fun f => hsettles
  · intro f req attempt' f' hp
    cases hp
  · intro f l₁ hl₁
    obtain rfl := Option.some.inj hl₁
    exact ⟨l, hl, hid, hinput, houtput⟩

theorem Sound.settleAtGranted (h : Sound s) {l : Lease} (hl : (s.phase b).lease = some l)
    (hstarted : l.callStarted = true) : Acts s (s.settleAtGranted b l) :=
  h.settleAttempt hl (.inr ⟨rfl, rfl, hstarted⟩)
    (fun _ _ => Phase.goes_of_lease hl.symm fun _ => rfl) rfl rfl rfl 1

theorem Sound.release (h : Sound s) {l : Lease} (hl : (s.phase b).lease = some l)
    (hstarted : l.callStarted = false) : Acts s (s.release b l) := by
  apply h.send
  · exact fun f => Phase.goes_of_lease hl.symm fun _ => rfl
  · exact fun f => ⟨l, rfl, rfl, hstarted, rfl⟩
  · exact fun f => trivial
  · intro f req attempt f' hp
    cases hp
  · intro f l₁ hl₁
    obtain rfl := Option.some.inj hl₁
    exact ⟨l, hl, rfl, rfl, rfl⟩

theorem Sound.over_lease (h : Sound s) {l : Lease} (hl : (s.phase b).lease = some l) :
    Acts s (s.goto b (.over (some l))) := by
  apply h.goto_lease hl rfl (fun _ => rfl)
  · intro req attempt f hp
    cases hp
  · trivial

theorem Sound.exit (h : Sound s) {l : Lease} (hl : (s.phase b).lease = some l) (raised : Bool) :
    Acts s (if raised then s.exitRaised b l else s.exitClean b l) := by
  unfold State.exitRaised State.exitClean
  cases hstarted : l.callStarted with
  | true =>
    cases hsettled : l.settled with
    | true =>
      cases raised
      · exact h.over_lease hl
      · exact h.over_lease hl
    | false =>
      cases raised
      · exact h.settleAtGranted hl hstarted
      · exact h.settleAtGranted hl hstarted
  | false =>
    cases hsettled : l.settled with
    | true =>
      cases raised
      · exact h.over_lease hl
      · exact h.release hl hstarted
    | false =>
      cases raised
      · exact h.release hl hstarted
      · exact h.release hl hstarted

theorem Sound.settle (h : Sound s) {l : Lease} (hphase : s.phase b = .body l) (i o : ℤ) :
    Acts s (s.settle b i o l) := by
  unfold State.settle
  split_ifs with hsettled
  · exact ⟨h, rfl, fun _ _ _ hf _ => hf, fun _ => .refl _⟩
  · have hnone : l.actual = none := by
      unfold Lease.settled at hsettled
      exact Option.not_isSome_iff_eq_none.mp hsettled
    have hl : (s.phase b).lease = some l := by
      rw [hphase]
      rfl
    have hsettles : ({ l with actual := some (i, o) } : Lease).Settles (max 0 i) (max 0 o) :=
      .inl ⟨(i, o), rfl, rfl, rfl⟩
    refine h.settleAttempt hl hsettles (fun f attempt => ⟨?_, ?_⟩) rfl rfl rfl 1
    · intro l₁ hl₁
      obtain rfl := Option.some.inj (hl.symm.trans hl₁)
      refine ⟨_, rfl, rfl, rfl, rfl, fun a ha => ?_, id, fun _ => rfl⟩
      rw [hnone] at ha
      cases ha
    · intro hleft
      rw [hphase] at hleft
      cases hleft

theorem Sound.markCallStarted (h : Sound s) {l : Lease} (hphase : s.phase b = .body l) :
    Acts s (s.goto b (.body { l with callStarted := true })) := by
  have hl : (s.phase b).lease = some l := by
    rw [hphase]
    rfl
  apply h.goto
  · refine ⟨fun l₁ hl₁ => ?_, fun hleft => ?_⟩
    · obtain rfl := Option.some.inj (hl.symm.trans hl₁)
      refine ⟨_, rfl, rfl, rfl, rfl, fun _ => id, fun _ => rfl, fun hleft => ?_⟩
      rw [hphase] at hleft
      cases hleft
    · rw [hphase] at hleft
      cases hleft
  · intro req attempt f hp
    cases hp
  · trivial
  · intro l₁ hl₁
    obtain rfl := Option.some.inj hl₁
    exact h.held_goes hl rfl rfl rfl

end

/-! ### Answers -/

/-- The server takes part in none of it. -/
theorem Sound.serve (h : Sound s) (call : Call) : Sound (s.serve call) :=
  ⟨h.unsent, h.waiting, h.held, h.allowed, h.resends⟩

theorem Sound.answered (h : Sound s) {f : ℕ} {owner : ℕ} {r : Request}
    (hf : s.flights f = some ⟨owner, r, none⟩) (answer : Response) : Sound { s with
      flights := Function.update s.flights f (some ⟨owner, r, some answer⟩) } := by
  have hflights : ∀ f', Function.update s.flights f (some ⟨owner, r, some answer⟩) f' =
      if f' = f then some ⟨owner, r, some answer⟩ else s.flights f' :=
    fun f' => Function.update_apply s.flights f _ f'
  refine ⟨?_, ?_, ?_, ?_, h.resends⟩
  · intro f' hle
    have hle : s.sent ≤ f' := hle
    dsimp only
    rw [hflights, if_neg]
    · exact h.unsent f' hle
    · rintro rfl
      rw [h.unsent _ hle] at hf
      cases hf
  · intro b req attempt f' hb
    obtain ⟨req', answer', hf'⟩ := h.waiting b req attempt f' hb
    dsimp only
    rw [hflights]
    split_ifs with hsame
    · subst hsame
      rw [hf] at hf'
      cases hf'
      exact ⟨req', some answer, rfl⟩
    · exact ⟨req', answer', hf'⟩
  · intro b l hl
    obtain ⟨f', flight, grant, hf', howner, hgrant, hrest⟩ := h.held b l hl
    refine ⟨f', flight, grant, ?_, howner, hgrant, hrest⟩
    dsimp only
    rw [hflights, if_neg]
    · exact hf'
    · rintro rfl
      rw [hf] at hf'
      cases hf'
      unfold Flight.granted at hgrant
      cases r <;> cases hgrant
  · intro f' flight hf'
    dsimp only at hf'
    rw [hflights] at hf'
    split_ifs at hf' with hsame
    · cases hf'
      exact h.allowed f ⟨owner, r, none⟩ hf
    · exact h.allowed f' flight hf'

theorem Sound.acquireAnswered (h : Sound s) {client : Client} {b f attempt : ℕ}
    {req : LeaseRequest} (hphase : s.phase b = .acquiring req attempt f) {answer : Response}
    (hanswer : s.answer f = some answer) :
    Acts s (s.acquireAnswered client b req attempt answer) := by
  have hlease : (s.phase b).lease = none := by
    rw [hphase]
    rfl
  have hleft : (s.phase b).left = false := by
    rw [hphase]
    rfl
  unfold State.acquireAnswered
  split
  case h_1 grant =>
    obtain ⟨req', answer', hf⟩ := h.waiting b req attempt f hphase
    have hanswer' : answer' = some (.lease (.ok (.grant grant))) := by
      unfold State.answer at hanswer
      rw [hf] at hanswer
      exact hanswer
    subst hanswer'
    apply h.goto (Phase.goes_of_none hlease hleft)
    · intro req attempt f hp
      cases hp
    · trivial
    · intro l hl
      obtain rfl := Option.some.inj hl
      exact ⟨f, _, grant, hf, rfl, rfl, rfl, rfl, rfl⟩
  · exact h.over_none hlease hleft
  · exact h.acquireFailed hlease hleft req attempt _
  · exact h.over_none hlease hleft

theorem Sound.settleAnswered (h : Sound s) {client : Client} {b : ℕ} {l : Lease} {exiting : Bool}
    {i o : ℤ} (hl : (s.phase b).lease = some l)
    (hleft : (s.phase b).left = true → exiting = true) (hsettles : l.Settles i o) (attempt : ℕ)
    (answer : Response) : Acts s (s.settleAnswered client b l exiting i o attempt answer) := by
  unfold State.settleAnswered
  split
  · exact h.settleReturns hl hleft
  · exact h.settleFailed hl hleft hsettles attempt

/-! ### Steps of tasks -/

/-- The wallet takes no part in the step. -/
def Event.own : Event → Bool
  | .deliver _ _ _ _ => false
  | .reapExpired _ _ => false
  | .recordUsage _ => false
  | .evictInteraction _ => false
  | _ => true

theorem Sound.enter (h : Sound s) {b : ℕ} {req : LeaseRequest} {t : State}
    (hstep : s.enter b req = some t) : Acts s t := by
  unfold State.enter at hstep
  split at hstep
  case h_1 hphase =>
    cases hstep
    exact h.acquire (by rw [hphase]; rfl) (by rw [hphase]; rfl) _ _
  · cases hstep

theorem Sound.reply (h : Sound s) {client : Client} {b : ℕ} {t : State}
    (hstep : s.reply client b = some t) : Acts s t := by
  unfold State.reply at hstep
  split at hstep
  case h_1 req attempt f hphase =>
    obtain ⟨answer, hanswer, rfl⟩ := Option.map_eq_some_iff.mp hstep
    exact h.acquireAnswered hphase hanswer
  case h_2 l exiting i o attempt f hphase =>
    obtain ⟨answer, -, rfl⟩ := Option.map_eq_some_iff.mp hstep
    have hresends := h.resends b
    rw [hphase] at hresends
    exact h.settleAnswered (by rw [hphase]; rfl) (fun hleft => by rwa [hphase] at hleft) hresends
      attempt answer
  case h_3 l f hphase =>
    obtain ⟨answer, -, rfl⟩ := Option.map_eq_some_iff.mp hstep
    exact h.over_lease (by rw [hphase]; rfl)
  · cases hstep

theorem Sound.fail (h : Sound s) {client : Client} {b : ℕ} {code : StatusCode} {t : State}
    (hstep : s.fail client b code = some t) : Acts s t := by
  unfold State.fail at hstep
  split at hstep
  case h_1 req attempt f hphase =>
    cases hstep
    exact h.acquireFailed (by rw [hphase]; rfl) (by rw [hphase]; rfl) req attempt code
  case h_2 l exiting i o attempt f hphase =>
    cases hstep
    have hresends := h.resends b
    rw [hphase] at hresends
    exact h.settleFailed (by rw [hphase]; rfl) (fun hleft => by rwa [hphase] at hleft) hresends
      attempt
  case h_3 l f hphase =>
    cases hstep
    exact h.over_lease (by rw [hphase]; rfl)
  · cases hstep

theorem Sound.interrupt (h : Sound s) {b : ℕ} {t : State} (hstep : s.interrupt b = some t) :
    Acts s t := by
  unfold State.interrupt at hstep
  split at hstep
  case h_1 hphase =>
    cases hstep
    exact h.over_none (by rw [hphase]; rfl) (by rw [hphase]; rfl)
  case h_2 hphase =>
    cases hstep
    exact h.over_none (by rw [hphase]; rfl) (by rw [hphase]; rfl)
  case h_3 hphase =>
    cases hstep
    exact h.settleReturns (by rw [hphase]; rfl) (fun hleft => by rwa [hphase] at hleft)
  case h_4 hphase =>
    cases hstep
    exact h.settleReturns (by rw [hphase]; rfl) (fun hleft => by rwa [hphase] at hleft)
  case h_5 hphase =>
    cases hstep
    exact h.over_lease (by rw [hphase]; rfl)
  · cases hstep

theorem Sound.wake (h : Sound s) {b : ℕ} {t : State} (hstep : s.wake b = some t) : Acts s t := by
  unfold State.wake at hstep
  split at hstep
  case h_1 req attempt hphase =>
    cases hstep
    exact h.acquire (by rw [hphase]; rfl) (by rw [hphase]; rfl) req _
  case h_2 l exiting i o attempt hphase =>
    cases hstep
    have hresends := h.resends b
    have hl : (s.phase b).lease = some l := by
      rw [hphase]
      rfl
    rw [hphase] at hresends
    exact h.settleAttempt hl hresends
      (fun f attempt => Phase.goes_of_lease hl.symm fun hleft => by rwa [hphase] at hleft) rfl rfl
      rfl _
  · cases hstep

theorem acts_body {b : ℕ} {f : Lease → State} {t : State}
    (hstep : s.body b f = some t) (hf : ∀ l, s.phase b = .body l → Acts s (f l)) : Acts s t := by
  unfold State.body at hstep
  split at hstep
  case h_1 l hphase =>
    cases hstep
    exact hf l hphase
  · cases hstep

theorem Sound.step (h : Sound s) {client : Client} {e : Event} {t : State}
    (hstep : s.step client e = some t) (hown : e.own = true) : Acts s t := by
  cases e with
  | enter b req => exact h.enter hstep
  | reply b => exact h.reply hstep
  | fail b code => exact h.fail hstep
  | interrupt b => exact h.interrupt hstep
  | wake b => exact h.wake hstep
  | markCallStarted b => exact acts_body hstep fun l hphase => h.markCallStarted hphase
  | settle b i o => exact acts_body hstep fun l hphase => h.settle hphase i o
  | exit b raised =>
    exact acts_body hstep fun l hphase => h.exit (by rw [hphase]; rfl) raised
  | deliver => cases hown
  | reapExpired => cases hown
  | recordUsage => cases hown
  | evictInteraction => cases hown

end Persatrix.WalletClient
