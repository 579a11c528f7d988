import Persatrix.System
import Persatrix.WalletHistory

/-!
# The late-settle window

A closed lease stays in the map so that a retried settlement of it is answered as a repetition. The
sweep that drops it counts from its grant, not from its close: twice the lifetime after the grant is
less than one lifetime after the close of a lease that was closed after its own lifetime, as every
reaped lease is.
-/
namespace Persatrix.Wallet

/-! ## The configuration -/

def maxTTLSeconds : ℤ := 86400
def maxReaperIntervalSeconds : ℤ := 3600
def maxMaxActiveLeases : ℤ := 1024

/-- The `wallet:` block as it is parsed; an absent key is `none`. -/
structure RawWalletSection where
  ttlSeconds : Option ℤ := none
  reaperIntervalSeconds : Option ℤ := none
  maxActiveLeases : Option ℤ := none

/-- A key within its bounds, or the default for an absent key. -/
def loadKey (key : String) (most : ℤ) (fallback : { n : ℤ // 1 ≤ n }) (value : Option ℤ) :
    Except String { n : ℤ // 1 ≤ n } :=
  match value with
  | none => .ok fallback
  | some n =>
    if h : n < 1 ∨ most < n then
      .error ("validate wallet config: " ++ key ++ " must be in [1, " ++ toString most ++
        "], got " ++ toString n)
    else .ok ⟨n, not_lt.mp (not_or.mp h).1⟩

/-- `LoadConfig`, from the parsed block on. -/
def loadConfig (w : RawWalletSection) : Except String Config := do
  let ttl ← loadKey "ttl_seconds" maxTTLSeconds ⟨60, by decide⟩ w.ttlSeconds
  let interval ← loadKey "reaper_interval_seconds" maxReaperIntervalSeconds ⟨5, by decide⟩
    w.reaperIntervalSeconds
  let leases ← loadKey "max_active_leases" maxMaxActiveLeases ⟨16, by decide⟩ w.maxActiveLeases
  pure
    { ttl := ttl.val * 1000000000
      reaperInterval := interval.val * 1000000000
      maxActiveLeases := leases.val.toNat
      ttl_pos := mul_pos ttl.property (by decide)
      reaperInterval_pos := mul_pos interval.property (by decide)
      maxActiveLeases_pos := by
        have h := leases.property
        omega }

example : (loadConfig {}).toOption.map Config.ttl = some defaultConfig.ttl := by decide

/-! ## Runs on a clock -/

/-- The reading of the clock that a call makes. -/
def Call.reading : Call → Option ℤ
  | .acquireLease _ _ now _ => some now
  | .reapExpired now _ => some now
  | _ => none

/-- The time of a sweep. -/
def Call.sweptAt : Call → Option ℤ
  | .reapExpired now _ => some now
  | _ => none

structure TimedCall where
  clock : ℤ
  call : Call
  reads : ∀ now ∈ call.reading, now = clock

/-- A lease that was settled, released or reaped, with the times of its grant and its close. -/
structure Closing where
  leaseID : String
  issuedAt : ℤ
  closedAt : ℤ
  deriving DecidableEq

structure Watched where
  wallet : WalletService
  clock : ℤ
  closings : List Closing

/-- The leases that are settled after a call and were not before it. -/
def closedBy (before after : WalletService) (now : ℤ) : List Closing :=
  before.active.entries.filterMap fun e =>
    if !e.2.settled && (after.active.lookup e.1).any Lease.settled then
      some ⟨e.1, e.2.issuedAt, now⟩
    else none

/-- A sweep visits every lease of the map once. -/
def Call.Complete (w : WalletService) : Call → Prop
  | .reapExpired _ order => order.Perm w.active.keys
  | _ => True

instance (w : WalletService) (c : Call) : Decidable (c.Complete w) := by
  cases c <;> unfold Call.Complete <;> infer_instance

/-- Calls and sweeps in any order, on a clock that never goes back. -/
def watched (pricing : Cost.CostConfig) (cfg : Config) (start : ℤ) : System Watched TimedCall where
  init := ⟨newWalletService (Cost.newTokenCounter pricing) cfg, start, []⟩
  step := fun s e =>
    if s.clock ≤ e.clock ∧ e.call.Complete s.wallet then
      let after := (s.wallet.call e.call).1
      some ⟨after, e.clock, s.closings ++ closedBy s.wallet after e.clock⟩
    else none

def alreadySettled : SettlementAck := ⟨true, "noop: lease already settled"⟩

/-- A second settlement or release of a closed lease is answered as a repetition. -/
def Repeats (w : WalletService) (leaseID : String) : Prop :=
  (w.releaseLease leaseID).2 = alreadySettled ∧
    ∀ i o ack, (w.settleLease leaseID i o).2 = .ok ack → ack = alreadySettled

/-- Every closed lease is remembered until its lifetime has passed once more since the close. -/
def Remembers (s : Watched) : Prop :=
  ∀ c ∈ s.closings, s.clock < c.closedAt + s.wallet.cfg.ttl → Repeats s.wallet c.leaseID

/-- No sweep runs later than two lifetimes after the grant of a closed lease and earlier than one
lifetime after its close. -/
def Prompt (s : Watched) (e : TimedCall) : Prop :=
  ∀ now ∈ e.call.sweptAt, ∀ c ∈ s.closings,
    ¬(c.issuedAt + 2 * s.wallet.cfg.ttl < now ∧ now < c.closedAt + s.wallet.cfg.ttl)

instance (s : Watched) (e : TimedCall) : Decidable (Prompt s e) := by
  unfold Prompt
  infer_instance

theorem sweptAt_eq_some {c : Call} {now : ℤ} (h : now ∈ c.sweptAt) :
    ∃ order, c = .reapExpired now order := by
  cases c with
  | reapExpired now' order =>
    cases h
    exact ⟨order, rfl⟩
  | _ => cases h

/-! ## What a call does to the map -/

/-- What a sweep leaves of a lease. -/
def Lease.sweep (now : ℤ) (ls : Lease) : Option Lease :=
  if ls.settled = false ∧ ls.issuedAt + ls.ttl < now then some { ls with settled := true }
  else if ls.settled = true ∧ ls.issuedAt + 2 * ls.ttl < now then none
  else some ls

namespace WalletService

theorem markSettled_lookup (w : WalletService) (leaseID id : String) (ls : Lease) :
    (w.markSettled leaseID ls).active.lookup id =
      if id = leaseID then some { ls with settled := true } else w.active.lookup id :=
  GoMap.lookup_insert ..

theorem reapLease_lookup (w : WalletService) (now : ℤ) (leaseID id : String) :
    (w.reapLease now leaseID).1.active.lookup id =
      if id = leaseID then (w.active.lookup id).bind (Lease.sweep now)
      else w.active.lookup id := by
  unfold reapLease
  cases hl : w.active.lookup leaseID with
  | none =>
    by_cases hid : id = leaseID
    · rw [if_pos hid, hid, hl]
      rfl
    · rw [if_neg hid]
  | some ls =>
    dsimp only
    by_cases hexpired : ls.settled = false ∧ ls.issuedAt + ls.ttl < now
    · rw [if_pos (by simp [hexpired])]
      have hmarked : ∀ counter : Cost.TokenCounter,
          ({ w.markSettled leaseID ls with counter := counter }.active.lookup id) =
            if id = leaseID then (w.active.lookup id).bind (Lease.sweep now)
            else w.active.lookup id := by
        intro counter
        refine (markSettled_lookup w leaseID id ls).trans ?_
        by_cases hid : id = leaseID
        · rw [if_pos hid, if_pos hid, hid, hl]
          exact (if_pos hexpired).symm
        · rw [if_neg hid, if_neg hid]
      cases w.counter.reconcile leaseID ls.grantedInput ls.grantedOutput with
      | error err => exact hmarked w.counter
      | ok counter => exact hmarked counter
    · rw [if_neg (by simpa using hexpired)]
      by_cases hpurged : ls.settled = true ∧ ls.issuedAt + 2 * ls.ttl < now
      · rw [if_pos (by simp [hpurged])]
        dsimp only
        rw [GoMap.lookup_erase]
        by_cases hid : id = leaseID
        · rw [if_pos hid, if_pos hid, hid, hl]
          exact ((if_neg hexpired).trans (if_pos hpurged)).symm
        · rw [if_neg hid, if_neg hid]
      · rw [if_neg (by simpa using hpurged)]
        by_cases hid : id = leaseID
        · rw [if_pos hid, hid, hl]
          exact ((if_neg hexpired).trans (if_neg hpurged)).symm
        · rw [if_neg hid]

theorem reapExpired_lookup (w : WalletService) (now : ℤ) {order : List String}
    (h : order.Nodup) (id : String) :
    (w.reapExpired now order).1.active.lookup id =
      if id ∈ order then (w.active.lookup id).bind (Lease.sweep now)
      else w.active.lookup id := by
  have hfold : ∀ (w : WalletService) (reaped : List String),
      (order.foldl (reapVisit now) (w, reaped)).1.active.lookup id =
        if id ∈ order then (w.active.lookup id).bind (Lease.sweep now)
        else w.active.lookup id := by
    induction order with
    | nil => exact fun _ _ => rfl
    | cons leaseID order ih =>
      intro w reaped
      obtain ⟨hfresh, hnodup⟩ := List.nodup_cons.mp h
      rw [List.foldl_cons]
      refine (ih hnodup _ _).trans ?_
      change (if id ∈ order then ((w.reapLease now leaseID).1.active.lookup id).bind _
        else (w.reapLease now leaseID).1.active.lookup id) = _
      rw [reapLease_lookup]
      by_cases hid : id = leaseID
      · subst hid
        rw [if_neg hfresh, if_pos rfl, if_pos (List.mem_cons_self ..)]
      · simp [hid]
  exact hfold w []

/-- What a call that is no sweep does to the map: nothing, a grant under an id that is free, or
the close of a lease. -/
inductive Touched (w : WalletService) : GoMap String Lease → Prop
  | same : Touched w w.active
  | granted {id : String} {ls : Lease} (hfree : w.active.lookup id = none)
      (httl : ls.ttl = w.cfg.ttl) : Touched w (AList.insert id ls w.active)
  | closed {id : String} {ls : Lease} (hlease : w.active.lookup id = some ls)
      (hopen : ls.settled = false) :
      Touched w (AList.insert id { ls with settled := true } w.active)

theorem finalize_touched (w : WalletService) (leaseID : String) (i o : ℤ) :
    w.Touched (w.finalize leaseID i o).1.active ∧ (w.finalize leaseID i o).1.cfg = w.cfg := by
  unfold finalize
  cases hl : w.active.lookup leaseID with
  | none => exact ⟨.same, rfl⟩
  | some ls =>
    dsimp only
    cases hs : ls.settled with
    | true => exact ⟨.same, rfl⟩
    | false =>
      rw [if_neg Bool.false_ne_true]
      cases w.counter.reconcile leaseID i o with
      | error err => exact ⟨.closed hl hs, rfl⟩
      | ok counter => exact ⟨.closed hl hs, rfl⟩

theorem call_touched (w : WalletService) {c : Call} (hc : ∀ now order, c ≠ .reapExpired now order) :
    w.Touched (w.call c).1.active ∧ (w.call c).1.cfg = w.cfg := by
  cases c with
  | acquireLease resolver newID now req =>
    change w.Touched (w.acquireLease resolver newID now req).1.active ∧
      (w.acquireLease resolver newID now req).1.cfg = w.cfg
    rcases w.acquireLease_cases resolver newID now req with ⟨hsame, -⟩ | ⟨hadmits, hgrant⟩
    · rw [hsame]
      exact ⟨.same, rfl⟩
    · rw [hgrant]
      exact ⟨.granted hadmits.fresh rfl, rfl⟩
  | settleLease leaseID i o =>
    change w.Touched (w.settleLease leaseID i o).1.active ∧
      (w.settleLease leaseID i o).1.cfg = w.cfg
    rcases w.settleLease_cases leaseID i o with ⟨err, hsame⟩ | ⟨-, -, hfinal⟩
    · rw [hsame]
      exact ⟨.same, rfl⟩
    · rw [hfinal]
      exact w.finalize_touched leaseID i o
  | releaseLease leaseID => exact w.finalize_touched leaseID 0 0
  | reapExpired now order => exact absurd rfl (hc now order)
  | resetDaily => exact ⟨.same, rfl⟩
  | recordUsage record => exact ⟨.same, rfl⟩
  | evictInteraction interactionID =>
    change w.Touched (w.evictInteraction interactionID).1.active ∧
      (w.evictInteraction interactionID).1.cfg = w.cfg
    unfold evictInteraction
    split_ifs
    · exact ⟨.same, rfl⟩
    · exact ⟨.same, rfl⟩
    · exact ⟨.same, rfl⟩

theorem reapLease_cfg (w : WalletService) (now : ℤ) (leaseID : String) :
    (w.reapLease now leaseID).1.cfg = w.cfg := by
  unfold reapLease
  cases w.active.lookup leaseID with
  | none => rfl
  | some ls =>
    dsimp only
    split_ifs
    · cases w.counter.reconcile leaseID ls.grantedInput ls.grantedOutput with
      | error err => rfl
      | ok counter => rfl
    · rfl
    · rfl

theorem reapExpired_cfg (w : WalletService) (now : ℤ) (order : List String) :
    (w.reapExpired now order).1.cfg = w.cfg := by
  have hfold : ∀ (w : WalletService) (reaped : List String),
      (order.foldl (reapVisit now) (w, reaped)).1.cfg = w.cfg := by
    induction order with
    | nil => exact fun _ _ => rfl
    | cons leaseID order ih =>
      intro w reaped
      rw [List.foldl_cons]
      exact (ih _ _).trans (w.reapLease_cfg now leaseID)
  exact hfold w []

/-- What a call leaves of a lease that is in the map. -/
inductive Leaves (w : WalletService) (c : Call) (ls : Lease) : Option Lease → Prop
  | same : Leaves w c ls (some ls)
  | closed (hopen : ls.settled = false) : Leaves w c ls (some { ls with settled := true })
  | purged {now : ℤ} {order : List String} (hsweep : c = .reapExpired now order)
      (hclosed : ls.settled = true) (hlate : ls.issuedAt + 2 * ls.ttl < now) : Leaves w c ls none

theorem call_leaves {w : WalletService} {c : Call} (hc : c.Complete w) {id : String} {ls : Lease}
    (h : w.active.lookup id = some ls) : w.Leaves c ls ((w.call c).1.active.lookup id) := by
  by_cases hsweep : ∃ now order, c = .reapExpired now order
  · obtain ⟨now, order, rfl⟩ := hsweep
    have hnodup : order.Nodup := (List.Perm.nodup_iff hc).mpr w.active.keys_nodup
    have hmem : id ∈ order := by
      rw [List.Perm.mem_iff hc, ← AList.mem_keys, ← AList.lookup_isSome, h]
      rfl
    change w.Leaves _ ls ((w.reapExpired now order).1.active.lookup id)
    rw [reapExpired_lookup w now hnodup, if_pos hmem, h, Option.bind_some]
    unfold Lease.sweep
    split_ifs with hexpired hpurged
    · exact .closed hexpired.1
    · exact .purged rfl hpurged.1 hpurged.2
    · exact .same
  · have htouched := (w.call_touched fun now order heq => hsweep ⟨now, order, heq⟩).1
    generalize (w.call c).1.active = active at htouched ⊢
    cases htouched with
    | same => exact h ▸ .same
    | @granted id' ls' hfree =>
      have hid : id ≠ id' := by
        rintro rfl
        rw [hfree] at h
        cases h
      rw [GoMap.lookup_insert, if_neg hid, h]
      exact .same
    | @closed id' ls' hlease hopen =>
      rw [GoMap.lookup_insert]
      by_cases hid : id = id'
      · subst hid
        rw [hlease, Option.some_inj] at h
        rw [if_pos rfl, h]
        exact .closed (h ▸ hopen)
      · rw [if_neg hid, h]
        exact .same

theorem call_cfg (w : WalletService) (c : Call) : (w.call c).1.cfg = w.cfg := by
  by_cases hsweep : ∃ now order, c = .reapExpired now order
  · obtain ⟨now, order, rfl⟩ := hsweep
    exact w.reapExpired_cfg now order
  · exact (w.call_touched fun now order heq => hsweep ⟨now, order, heq⟩).2

/-- Every lease has the lifetime of the configuration. -/
def Uniform (w : WalletService) : Prop :=
  ∀ id ls, w.active.lookup id = some ls → ls.ttl = w.cfg.ttl

theorem Uniform.call {w : WalletService} (h : w.Uniform) {c : Call} (hc : c.Complete w) :
    (w.call c).1.Uniform := by
  intro id ls hls
  rw [call_cfg]
  cases hbefore : w.active.lookup id with
  | some before =>
    have hleaves := call_leaves hc hbefore
    rw [hls] at hleaves
    cases hleaves with
    | same => exact h id ls hbefore
    | closed => exact h id before hbefore
  | none =>
    by_cases hsweep : ∃ now order, c = .reapExpired now order
    · obtain ⟨now, order, rfl⟩ := hsweep
      have hnodup : order.Nodup := (List.Perm.nodup_iff hc).mpr w.active.keys_nodup
      change (w.reapExpired now order).1.active.lookup id = some ls at hls
      rw [reapExpired_lookup w now hnodup, hbefore] at hls
      simp at hls
    · have htouched := (w.call_touched fun now order heq => hsweep ⟨now, order, heq⟩).1
      generalize (w.call c).1.active = active at htouched hls
      cases htouched with
      | same =>
        rw [hbefore] at hls
        cases hls
      | @granted id' ls' hfree httl =>
        rw [GoMap.lookup_insert] at hls
        by_cases hid : id = id'
        · rw [if_pos hid, Option.some_inj] at hls
          exact hls ▸ httl
        · rw [if_neg hid, hbefore] at hls
          cases hls
      | @closed id' ls' hlease =>
        rw [GoMap.lookup_insert] at hls
        by_cases hid : id = id'
        · rw [← hid, hbefore] at hlease
          cases hlease
        · rw [if_neg hid, hbefore] at hls
          cases hls

end WalletService

theorem mem_closedBy {before after : WalletService} {now : ℤ} {c : Closing}
    (h : c ∈ closedBy before after now) : c.closedAt = now ∧
      ∃ ls ls', before.active.lookup c.leaseID = some ls ∧ ls.settled = false ∧
        ls.issuedAt = c.issuedAt ∧ after.active.lookup c.leaseID = some ls' ∧
        ls'.settled = true := by
  obtain ⟨e, he, hc⟩ := List.mem_filterMap.mp h
  split_ifs at hc with hclosed
  cases hc
  simp only [Bool.and_eq_true, Bool.not_eq_true', Option.any_eq_true] at hclosed
  obtain ⟨hopen, ls', hls', hsettled⟩ := hclosed
  exact ⟨rfl, e.2, ls', AList.mem_lookup_iff.mpr he, hopen, rfl, hls', hsettled⟩

/-- A lease that is in the map and settled is the one that is answered as a repetition. -/
theorem repeats_iff {w : WalletService} {leaseID : String} :
    Repeats w leaseID ↔ ∃ ls, w.active.lookup leaseID = some ls ∧ ls.settled = true := by
  constructor
  · intro h
    cases hl : w.active.lookup leaseID with
    | none =>
      have hack := h.1
      rw [WalletService.releaseLease, WalletService.finalize_unknown hl] at hack
      cases congrArg SettlementAck.success hack
    | some ls =>
      refine ⟨ls, rfl, ?_⟩
      cases hs : ls.settled with
      | true => rfl
      | false =>
        have hack := congrArg SettlementAck.errorMessage h.1
        cases hp : w.counter.provisional.lookup leaseID with
        | none =>
          rw [WalletService.releaseLease, WalletService.finalize_cleared hl hs hp] at hack
          have hdiffers : "noop: provisional already cleared" ≠
              alreadySettled.errorMessage := by decide
          exact absurd hack hdiffers
        | some pc =>
          rw [WalletService.releaseLease, WalletService.finalize_held hl hs hp] at hack
          have hdiffers : "" ≠ alreadySettled.errorMessage := by decide
          exact absurd hack hdiffers
  · rintro ⟨ls, hl, hs⟩
    refine ⟨?_, fun i o ack hack => ?_⟩
    · rw [WalletService.releaseLease, WalletService.finalize_settled hl hs]
      rfl
    · rcases w.settleLease_cases leaseID i o with ⟨err, herr⟩ | ⟨-, -, hfinal⟩
      · rw [herr] at hack
        cases hack
      · rw [hfinal, WalletService.finalize_settled hl hs] at hack
        cases hack
        rfl

/-- Closed leases that are to be remembered are in the map, settled and with their grant. -/
structure Kept (s : Watched) : Prop where
  uniform : s.wallet.Uniform
  closings : ∀ c ∈ s.closings, s.clock < c.closedAt + s.wallet.cfg.ttl →
    ∃ ls, s.wallet.active.lookup c.leaseID = some ls ∧ ls.settled = true ∧
      ls.issuedAt = c.issuedAt

theorem Kept.remembers {s : Watched} (h : Kept s) : Remembers s := by
  intro c hc hclock
  obtain ⟨ls, hls, hs, -⟩ := h.closings c hc hclock
  exact repeats_iff.mpr ⟨ls, hls, hs⟩

section
variable {pricing : Cost.CostConfig} {cfg : Config} {start : ℤ} {s t : Watched} {e : TimedCall}

theorem watched_step (h : (watched pricing cfg start).step s e = some t) :
    s.clock ≤ e.clock ∧ e.call.Complete s.wallet ∧
      t = ⟨(s.wallet.call e.call).1, e.clock,
        s.closings ++ closedBy s.wallet (s.wallet.call e.call).1 e.clock⟩ := by
  change (if s.clock ≤ e.clock ∧ e.call.Complete s.wallet then _ else none) = some t at h
  split_ifs at h with hguard
  cases h
  exact ⟨hguard.1, hguard.2, rfl⟩

theorem Kept.step (h : Kept s) (hprompt : Prompt s e)
    (hstep : (watched pricing cfg start).step s e = some t) : Kept t := by
  obtain ⟨hclock, hcomplete, rfl⟩ := watched_step hstep
  refine ⟨h.uniform.call hcomplete, fun c hc hlate => ?_⟩
  dsimp only at hc hlate ⊢
  rw [WalletService.call_cfg] at hlate
  rcases List.mem_append.mp hc with hold | hnew
  · obtain ⟨ls, hls, hs, hissued⟩ := h.closings c hold (by omega)
    have hleaves := WalletService.call_leaves hcomplete hls
    generalize (s.wallet.call e.call).1.active.lookup c.leaseID = after at hleaves ⊢
    cases hleaves with
    | same => exact ⟨ls, rfl, hs, hissued⟩
    | closed hopen => exact absurd (hopen.symm.trans hs) Bool.false_ne_true
    | @purged now order hsweep hclosed hpast =>
      have hnow : now = e.clock := e.reads now (by rw [hsweep]; rfl)
      rw [h.uniform _ _ hls, hissued] at hpast
      exact absurd ⟨hpast, hnow ▸ hlate⟩ 
        (hprompt now (by rw [hsweep]; rfl) c hold)
  · obtain ⟨-, ls, ls', hls, hopen, hissued, hls', hs⟩ := mem_closedBy hnew
    have hleaves := WalletService.call_leaves hcomplete hls
    rw [hls'] at hleaves
    refine ⟨ls', hls', hs, ?_⟩
    cases hleaves with
    | same => exact hissued
    | closed => exact hissued

/-- A sweep that is not prompt forgets a lease too early. -/
theorem Kept.prompt (h : Kept s) (hstep : (watched pricing cfg start).step s e = some t)
    (hremembers : Remembers t) : Prompt s e := by
  obtain ⟨hclock, hcomplete, rfl⟩ := watched_step hstep
  rintro now hswept c hc ⟨hpast, hlate⟩
  obtain ⟨order, hsweep⟩ := sweptAt_eq_some hswept
  have hnow : now = e.clock := e.reads now (by rw [hsweep]; rfl)
  obtain ⟨ls, hls, hs, hissued⟩ := h.closings c hc (by omega)
  have hwindow : e.clock < c.closedAt + (s.wallet.call e.call).1.cfg.ttl := by
    rw [WalletService.call_cfg]
    omega
  have hkept := hremembers c (List.mem_append_left _ hc) hwindow
  obtain ⟨after, hafter, -⟩ := repeats_iff.mp hkept
  dsimp only at hafter
  rw [hsweep] at hcomplete hafter
  have hnodup : order.Nodup := (List.Perm.nodup_iff hcomplete).mpr s.wallet.active.keys_nodup
  have hmem : c.leaseID ∈ order := by
    rw [List.Perm.mem_iff hcomplete, ← AList.mem_keys, ← AList.lookup_isSome, hls]
    rfl
  change (s.wallet.reapExpired now order).1.active.lookup c.leaseID = some after at hafter
  rw [WalletService.reapExpired_lookup _ _ hnodup, if_pos hmem, hls, Option.bind_some] at hafter
  have hgone : ls.sweep now = none := by
    unfold Lease.sweep
    rw [if_neg fun hopen => Bool.false_ne_true (hopen.1.symm.trans hs), if_pos]
    rw [h.uniform _ _ hls, hissued]
    exact ⟨hs, hpast⟩
  rw [hgone] at hafter
  cases hafter

theorem kept_of_reaches (h : (watched pricing cfg start).Reaches Prompt s) : Kept s := by
  refine System.Reaches.invariant ?_ (fun s e t hs hprompt hstep => hs.step hprompt hstep) h
  refine ⟨fun id ls hls => ?_, fun c hc => ?_⟩
  · change (∅ : GoMap String Lease).lookup id = some ls at hls
    rw [GoMap.lookup_empty] at hls
    cases hls
  · exact absurd hc List.not_mem_nil

/-- While every sweep is prompt, every closed lease is remembered for one more lifetime, and the
next call keeps this exactly when it is prompt itself. -/
theorem remembers_iff_prompt (h : (watched pricing cfg start).Reaches Prompt s) :
    Remembers s ∧ ∀ e t, (watched pricing cfg start).step s e = some t →
      (Remembers t ↔ Prompt s e) := by
  have hkept := kept_of_reaches h
  exact ⟨hkept.remembers, fun e t hstep =>
    ⟨hkept.prompt hstep, fun hprompt => (hkept.step hprompt hstep).remembers⟩⟩

end

/-- A lifetime of ten seconds, and a sweep every nine. -/
def lateSection : RawWalletSection :=
  { ttlSeconds := some 10, reaperIntervalSeconds := some 9 }

def lateConfig : Config where
  ttl := 10 * 1000000000
  reaperInterval := 9 * 1000000000
  maxActiveLeases := 16
  ttl_pos := by decide
  reaperInterval_pos := by decide
  maxActiveLeases_pos := defaultConfig.maxActiveLeases_pos

/-- A sweep after so many halves of a second. -/
def sweepAt (halves : ℤ) (order : List String) : TimedCall :=
  ⟨halves * 500000000, .reapExpired (halves * 500000000) order, by simp [Call.reading]⟩

/-- A lease granted after half a second is reaped by the second sweep. -/
def lateSchedule : List TimedCall :=
  [⟨500000000, .acquireLease none "lease" 500000000 ⟨"w", "a", "m", 1, 1, "", 0⟩,
      by simp [Call.reading]⟩,
    sweepAt 18 ["lease"], sweepAt 36 ["lease"]]

theorem remembers_until_reaped :
    ∃ s, Remembers s ∧ ∀ e t, (watched ⟨∅, {}⟩ lateConfig 0).step s e = some t →
      (Remembers t ↔ Prompt s e) := by
  obtain ⟨s, hexec, -⟩ : ∃ s, ((watched ⟨∅, {}⟩ lateConfig 0).guarded Prompt).exec
      lateSchedule = some s ∧ s.closings.length = 1 := System.exists_of_exec (by decide)
  exact ⟨s, remembers_iff_prompt (System.reachable_exec hexec).of_guarded⟩

/-- The third sweep drops the lease one second before its window ends. -/
theorem reaped_forgotten :
    ¬∀ (section' : RawWalletSection) (cfg : Config), loadConfig section' = .ok cfg →
      ∀ s, (watched ⟨∅, {}⟩ cfg 0).Reachable s → Remembers s := by
  intro hclaim
  obtain ⟨s, hexec, hc, hlate, hgone⟩ : ∃ s, (watched ⟨∅, {}⟩ lateConfig 0).exec
      (lateSchedule ++ [sweepAt 54 ["lease"]]) = some s ∧
        (⟨"lease", 500000000, 18000000000⟩ : Closing) ∈ s.closings ∧
        s.clock < 18000000000 + s.wallet.cfg.ttl ∧
        s.wallet.active.lookup "lease" = none := System.exists_of_exec (by decide +kernel)
  have hremembers := hclaim lateSection lateConfig rfl s (System.reachable_exec hexec)
  obtain ⟨ls, hls, -⟩ := repeats_iff.mp (hremembers _ hc hlate)
  rw [hgone] at hls
  cases hls

end Persatrix.Wallet
