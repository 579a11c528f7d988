import Persatrix.LogSealRuns

/-!
# The rings that `SealAfterGrace` has found

While no late entry goes to another ring, an execution that was found has its entries in rings
that are claimed, one after the other, and only the last of them has entries that are not written.
The files of these rings are in the order of the appends.
-/
namespace Persatrix.LogBuffer

/-- The entries of the ring that count as not written. -/
def RingCell.counted (c : RingCell) : List Stamped :=
  c.ring.snapshotLocked.rtake c.ring.unflushed.toNat

namespace LiveBuffer

variable {c : Config} {s t u : LiveBuffer}

/-- `SealAfterGrace` has found a ring of the execution. -/
def WasFound (s : LiveBuffer) (id : GoString) : Prop := ∃ f ∈ s.found, f.executionID = id

/-- The ring of the execution in the table is this one, and it was sealed. -/
def SealedRing (s : LiveBuffer) (id : GoString) (addr : ℕ) : Prop :=
  s.rings.lookup id = some addr ∧ ∀ cell ∈ s.heap[addr]?, cell.ring.sealed = true

/-- The section loses entries: one that was found late is appended to another ring than the sealed
one of the table, or a reset after a failed write gives up entries that the write did not have. -/
def Loses (s : LiveBuffer) : CallPC → Prop
  | .append entry addr => s.WasFound entry.executionID ∧ ¬s.SealedRing entry.executionID addr
  | .reset _ addr => ∃ cell ∈ s.heap[addr]?, ∃ e ∈ cell.counted, e.stamp ∉ s.failed
  | _ => False

def Lossless (s : LiveBuffer) : LogEvent → Prop
  | .run k _ => ∀ call ∈ s.calls[k]?, ¬s.Loses call.next
  | _ => True

/-- What `SealAfterGrace` relies on. -/
structure Sealing (s : LiveBuffer) : Prop where
  table : ∀ f ∈ s.found, ∀ (addr : ℕ) (cell : RingCell), s.rings.lookup f.executionID = some addr →
    s.heap[addr]? = some cell → cell.claimed = true
  origin : ∀ (addr : ℕ) (cell : RingCell), s.heap[addr]? = some cell → cell.claimed = true →
    s.WasFound cell.executionID
  ring : ∀ f ∈ s.found, ∃ cell, s.heap[f.addr]? = some cell ∧ cell.claimed = true ∧
    cell.executionID = f.executionID
  since : ∀ f ∈ s.found, ∀ (addr : ℕ) (cell : RingCell), s.heap[addr]? = some cell →
    cell.executionID = f.executionID → ∀ e ∈ cell.history, f.since ≤ e.stamp → cell.claimed = true
  sealed : ∀ (addr : ℕ) (cell : RingCell), s.heap[addr]? = some cell → cell.claimed = true →
    cell.ring.sealed = true ∨ cell.history = []
  dropped : ∀ (addr : ℕ) (cell : RingCell), s.heap[addr]? = some cell → cell.claimed = true →
    s.rings.lookup cell.executionID = some addr ∨ cell.ring.unflushed ≤ 0
  later : ∀ (a b : ℕ) (cell cell' : RingCell), s.heap[a]? = some cell → s.heap[b]? = some cell' →
    cell.claimed = true → cell'.claimed = true → cell.executionID = cell'.executionID → a < b →
    ∀ e ∈ cell.history, e.stamp < cell'.born

/-- What a section that appends nothing may change of a claimed ring. -/
structure Like (d d' : RingCell) : Prop where
  executionID : d'.executionID = d.executionID
  history : d'.history = d.history
  born : d'.born = d.born
  claimed : d'.claimed = d.claimed
  sealed : d.ring.sealed = true → d'.ring.sealed = true
  unflushed : d'.ring.unflushed ≤ d.ring.unflushed

theorem Like.refl (d : RingCell) : Like d d := ⟨rfl, rfl, rfl, rfl, id, le_rfl⟩

theorem Sealing.like (hs : Sealing s) (hfound : t.found = s.found) (hrings : t.rings = s.rings)
    (hforth : ∀ (a : ℕ) (d : RingCell), s.heap[a]? = some d → ∃ d', t.heap[a]? = some d' ∧ Like d d')
    (hback : ∀ (a : ℕ) (d' : RingCell), t.heap[a]? = some d' → ∃ d, s.heap[a]? = some d ∧ Like d d') : Sealing t where
  table f hf addr d' hring hd' := by
    rw [hfound] at hf
    rw [hrings] at hring
    obtain ⟨d, hd, hlike⟩ := hback addr d' hd'
    exact hlike.claimed.trans (hs.table f hf addr d hring hd)
  origin addr d' hd' hclaimed := by
    obtain ⟨d, hd, hlike⟩ := hback addr d' hd'
    rw [WasFound, hfound, hlike.executionID]
    exact hs.origin addr d hd (hlike.claimed.symm.trans hclaimed)
  ring f hf := by
    rw [hfound] at hf
    obtain ⟨d, hd, hclaimed, hid⟩ := hs.ring f hf
    obtain ⟨d', hd', hlike⟩ := hforth _ d hd
    exact ⟨d', hd', hlike.claimed.trans hclaimed, hlike.executionID.trans hid⟩
  since f hf addr d' hd' hid e he hle := by
    rw [hfound] at hf
    obtain ⟨d, hd, hlike⟩ := hback addr d' hd'
    rw [hlike.history] at he
    exact hlike.claimed.trans (hs.since f hf addr d hd (hlike.executionID.symm.trans hid) e he hle)
  sealed addr d' hd' hclaimed := by
    obtain ⟨d, hd, hlike⟩ := hback addr d' hd'
    rw [hlike.history]
    exact (hs.sealed addr d hd (hlike.claimed.symm.trans hclaimed)).imp_left hlike.sealed
  dropped addr d' hd' hclaimed := by
    obtain ⟨d, hd, hlike⟩ := hback addr d' hd'
    rw [hrings, hlike.executionID]
    exact (hs.dropped addr d hd (hlike.claimed.symm.trans hclaimed)).imp_right hlike.unflushed.trans
  later a b d₁' d₂' h₁ h₂ hclaimed₁ hclaimed₂ hid hlt := by
    obtain ⟨d₁, hd₁, hlike₁⟩ := hback a d₁' h₁
    obtain ⟨d₂, hd₂, hlike₂⟩ := hback b d₂' h₂
    rw [hlike₁.history, hlike₂.born]
    exact hs.later a b d₁ d₂ hd₁ hd₂ (hlike₁.claimed.symm.trans hclaimed₁)
      (hlike₂.claimed.symm.trans hclaimed₂)
      (hlike₁.executionID.symm.trans (hid.trans hlike₂.executionID)) hlt

theorem Sealing.same (hs : Sealing s) (h : SameLogs s t) (hrings : t.rings = s.rings) :
    Sealing t := by
  apply hs.like h.found hrings
  · intro a d hd
    exact ⟨d, h.heap ▸ hd, Like.refl d⟩
  · intro a d hd
    exact ⟨d, h.heap ▸ hd, Like.refl d⟩

theorem Sealing.changes (hs : Sealing s) {addr : ℕ} {cell cell' : RingCell}
    (h : Changes s t addr cell cell') (hfound : t.found = s.found) (hlike : Like cell cell') :
    Sealing t := by
  apply hs.like hfound h.rings
  · intro a d hd
    by_cases ha : addr = a
    · subst ha
      obtain rfl := Option.some.inj (h.before.symm.trans hd)
      exact ⟨cell', h.after, hlike⟩
    · exact ⟨d, (h.others a ha).trans hd, Like.refl d⟩
  · intro a d' hd'
    rcases h.found hd' with ⟨rfl, rfl⟩ | ⟨-, hold⟩
    · exact ⟨cell, h.before, hlike⟩
    · exact ⟨d', hold, Like.refl d'⟩

/-! ### An append -/

theorem Sealing.wasFound (hs : Sealing s) {addr : ℕ} {cell : RingCell}
    (hcell : s.heap[addr]? = some cell) (hclaimed : cell.claimed = true) {entry : Entry}
    (hid : entry.executionID = cell.executionID) : s.WasFound entry.executionID :=
  hid ▸ hs.origin addr cell hcell hclaimed

theorem Sealing.appendTo (hs : Sealing s) (hcore : Core s) {addr : ℕ} {cell : RingCell}
    {entry : Entry} (hcell : s.heap[addr]? = some cell)
    (hid : entry.executionID = cell.executionID)
    (hloses : s.WasFound entry.executionID → s.SealedRing entry.executionID addr) :
    Sealing (s.appendTo entry addr) where
  table f hf a d' hring hd' := by
    rcases (changes_appendTo hcell entry).found hd' with ⟨rfl, rfl⟩ | ⟨-, hold⟩
    · exact hs.table f hf addr cell hring hcell
    · exact hs.table f hf a d' hring hold
  origin a d' hd' hclaimed := by
    rcases (changes_appendTo hcell entry).found hd' with ⟨rfl, rfl⟩ | ⟨-, hold⟩
    · exact hs.origin addr cell hcell hclaimed
    · exact hs.origin a d' hold hclaimed
  ring f hf := by
    obtain ⟨d, hd, hclaimed, hdid⟩ := hs.ring f hf
    by_cases ha : addr = f.addr
    · subst ha
      obtain rfl := Option.some.inj (hcell.symm.trans hd)
      exact ⟨_, (changes_appendTo hcell entry).after, hclaimed, hdid⟩
    · exact ⟨d, ((changes_appendTo hcell entry).others _ ha).trans hd, hclaimed, hdid⟩
  since f hf a d' hd' hdid e he hle := by
    rcases (changes_appendTo hcell entry).found hd' with ⟨rfl, rfl⟩ | ⟨-, hold⟩
    · -- the new entry is in the ring of the table
      have hring := (hloses ⟨f, hf, hdid.symm.trans hid.symm⟩).1
      rw [hid] at hring
      have hdid' : f.executionID = cell.executionID := hdid.symm
      exact hs.table f hf addr cell (hdid' ▸ hring) hcell
    · exact hs.since f hf a d' hold hdid e he hle
  sealed a d' hd' hclaimed := by
    rcases (changes_appendTo hcell entry).found hd' with ⟨rfl, rfl⟩ | ⟨-, hold⟩
    · have hsealed := (hloses (hs.wasFound hcell hclaimed hid)).2 cell hcell
      exact .inl ((ExecutionRing.append_fst_sealed _ _).trans hsealed)
    · exact hs.sealed a d' hold hclaimed
  dropped a d' hd' hclaimed := by
    rcases (changes_appendTo hcell entry).found hd' with ⟨rfl, rfl⟩ | ⟨-, hold⟩
    · have hring := (hloses (hs.wasFound hcell hclaimed hid)).1
      rw [hid] at hring
      exact .inl hring
    · exact hs.dropped a d' hold hclaimed
  later a b d₁ d₂ h₁ h₂ hclaimed₁ hclaimed₂ hids hlt e he := by
    have hborn : ∀ {d : RingCell}, (s.appendTo entry addr).heap[b]? = some d →
        ∃ old, s.heap[b]? = some old ∧ old.born = d.born ∧ old.claimed = d.claimed ∧
          old.executionID = d.executionID := by
      intro d hd
      rcases (changes_appendTo hcell entry).found hd with ⟨rfl, rfl⟩ | ⟨-, hold⟩
      · exact ⟨cell, hcell, rfl, rfl, rfl⟩
      · exact ⟨d, hold, rfl, rfl, rfl⟩
    obtain ⟨old, hold₂, hborn₂, hclaimedOld, hidOld⟩ := hborn h₂
    rw [← hborn₂]
    rcases (changes_appendTo hcell entry).found h₁ with ⟨rfl, rfl⟩ | ⟨-, hold₁⟩
    · -- the ring of the table is the newest one
      have hring := (hloses (hs.wasFound hcell hclaimed₁ hid)).1
      rw [hid] at hring
      have hle := (hcore.table _ _ hring).2 b old hold₂ (hidOld.trans hids.symm)
      omega
    · exact hs.later a b d₁ old hold₁ hold₂ hclaimed₁ (hclaimedOld.trans hclaimed₂)
        (hids.trans hidOld.symm) hlt e he

/-! ### A ring that is found -/

theorem Sealing.markFound (hs : Sealing s) (hcore : Core s) {addr : ℕ} {cell : RingCell}
    {id : GoString} (hring : s.rings.lookup id = some addr) (hcell : s.heap[addr]? = some cell) :
    Sealing (s.markFound id addr) := by
  have hchanges := changes_markFound hcell id
  have hid : cell.executionID = id := Section.ringOf_eq (hcore.ringOf hring) hcell
  -- a ring that was not claimed is the only one of its execution that is
  have honly : ∀ {a : ℕ} {d : RingCell}, s.heap[a]? = some d → d.claimed = true → d.executionID = id →
      cell.claimed = true := by
    intro a d hd hclaimed hdid
    obtain ⟨f, hf, hfid⟩ := hs.origin a d hd hclaimed
    rw [hdid] at hfid
    exact hs.table f hf addr cell (hfid ▸ hring) hcell
  refine ⟨?_, ?_, ?_, ?_, ?_, ?_, ?_⟩
  · intro f hf a d' hlookup hd'
    rcases hchanges.found hd' with ⟨rfl, rfl⟩ | ⟨hne, hold⟩
    · rfl
    · rcases List.mem_cons.mp hf with rfl | hf
      · exact absurd (Option.some.inj (hring.symm.trans hlookup)) hne
      · exact hs.table f hf a d' hlookup hold
  · intro a d' hd' hclaimed
    rcases hchanges.found hd' with ⟨rfl, rfl⟩ | ⟨-, hold⟩
    · exact ⟨⟨id, addr, s.appends⟩, List.mem_cons_self, hid.symm⟩
    · obtain ⟨f, hf, hfid⟩ := hs.origin a d' hold hclaimed
      exact ⟨f, List.mem_cons_of_mem _ hf, hfid⟩
  · intro f hf
    rcases List.mem_cons.mp hf with rfl | hf
    · exact ⟨cell.markFound, hchanges.after, rfl, hid⟩
    · obtain ⟨d, hd, hclaimed, hdid⟩ := hs.ring f hf
      by_cases ha : addr = f.addr
      · subst ha
        obtain rfl := Option.some.inj (hcell.symm.trans hd)
        exact ⟨cell.markFound, hchanges.after, rfl, hdid⟩
      · exact ⟨d, (hchanges.others _ ha).trans hd, hclaimed, hdid⟩
  · intro f hf a d' hd' hdid e he hle
    rcases hchanges.found hd' with ⟨rfl, rfl⟩ | ⟨-, hold⟩
    · rfl
    · rcases List.mem_cons.mp hf with rfl | hf
      · exact absurd ((hcore.cell a d' hold).stamps e he).2 (Nat.not_lt.mpr hle)
      · exact hs.since f hf a d' hold hdid e he hle
  · intro a d' hd' hclaimed
    rcases hchanges.found hd' with ⟨rfl, rfl⟩ | ⟨-, hold⟩
    · exact .inl rfl
    · exact hs.sealed a d' hold hclaimed
  · intro a d' hd' hclaimed
    rcases hchanges.found hd' with ⟨rfl, rfl⟩ | ⟨-, hold⟩
    · exact .inl (hid ▸ hring)
    · exact hs.dropped a d' hold hclaimed
  · intro a b d₁ d₂ h₁ h₂ hclaimed₁ hclaimed₂ hids hlt e he
    rcases hchanges.found h₁ with ⟨rfl, rfl⟩ | ⟨-, hold₁⟩
    · rcases hchanges.found h₂ with ⟨rfl, rfl⟩ | ⟨-, hold₂⟩
      · exact absurd hlt (lt_irrefl _)
      · have hclaimed := honly hold₂ hclaimed₂ (hids.symm.trans hid)
        exact hs.later _ b cell d₂ hcell hold₂ hclaimed hclaimed₂ hids hlt e he
    · rcases hchanges.found h₂ with ⟨rfl, rfl⟩ | ⟨-, hold₂⟩
      · have hclaimed := honly hold₁ hclaimed₁ (hids.trans hid)
        exact hs.later a _ d₁ cell hold₁ hcell hclaimed₁ hclaimed hids hlt e he
      · exact hs.later a b d₁ d₂ hold₁ hold₂ hclaimed₁ hclaimed₂ hids hlt e he

/-! ### A new ring -/

theorem unflushed_of_evicted (hs : Sealing s) (hcore : Core s) {a : ℕ} {d : RingCell}
    (hd : s.heap[a]? = some d) (hclaimed : d.claimed = true)
    (hunflushed : d.ring.hasUnflushed = false) : d.ring.unflushed ≤ 0 := by
  rcases hs.sealed a d hd hclaimed with hsealed | hempty
  · rw [ExecutionRing.hasUnflushed, hsealed, Bool.true_and, decide_eq_false_iff_not] at hunflushed
    exact not_lt.mp hunflushed
  · have haccounted := (hcore.cell a d hd).accounted
    have hcount := haccounted.count_le
    rw [hempty, List.length_nil] at hcount
    have hcoe := haccounted.coe_count
    omega

theorem Sealing.evicted (hs : Sealing s) (hcore : Core s) (h : Evicted s t) : Sealing t := by
  have hdropped : ∀ (a : ℕ) (d : RingCell), s.heap[a]? = some d → d.claimed = true →
      t.rings.lookup d.executionID = some a ∨ d.ring.unflushed ≤ 0 := by
    intro a d hd hclaimed
    rcases hs.dropped a d hd hclaimed with hring | hle
    · rcases h.dropped _ a hring with hkept | ⟨d', hd', hunflushed⟩
      · exact .inl hkept
      · obtain rfl := Option.some.inj (hd.symm.trans hd')
        exact .inr (unflushed_of_evicted hs hcore hd hclaimed hunflushed)
    · exact .inr hle
  have htable := h.kept
  rw [h.same]
  exact ⟨fun f hf a d hring hd => hs.table f hf a d (htable _ _ hring) hd, hs.origin, hs.ring,
    hs.since, hs.sealed, hdropped, hs.later⟩

theorem lookup_addRing (id id' : GoString) : (s.addRing c id).rings.lookup id' =
    if id' = id then some s.heap.length else s.rings.lookup id' := GoMap.lookup_insert _ _ _ _

theorem Sealing.addRing (hs : Sealing s) (hcore : Core s) {id : GoString}
    (hnone : s.rings.lookup id = none) : Sealing (s.addRing c id) where
  table f hf a d hring hd := by
    rw [lookup_addRing] at hring
    rcases of_getElem?_concat hd with hold | ⟨rfl, rfl⟩
    · split_ifs at hring with hid
      · obtain rfl := Option.some.inj hring
        exact absurd (List.getElem?_eq_some_iff.mp hold).1 (lt_irrefl _)
      · exact hs.table f hf a d hring hold
    · split_ifs at hring with hid
      · exact List.any_eq_true.mpr ⟨f, hf, decide_eq_true hid⟩
      · obtain ⟨d', hd', -⟩ := (hcore.table _ _ hring).1
        exact absurd (List.getElem?_eq_some_iff.mp hd').1 (lt_irrefl _)
  origin a d hd hclaimed := by
    rcases of_getElem?_concat hd with hold | ⟨rfl, rfl⟩
    · exact hs.origin a d hold hclaimed
    · obtain ⟨f, hf, hfid⟩ := List.any_eq_true.mp hclaimed
      exact ⟨f, hf, of_decide_eq_true hfid⟩
  ring f hf := by
    obtain ⟨d, hd, hclaimed, hid⟩ := hs.ring f hf
    exact ⟨d, getElem?_concat_left hd, hclaimed, hid⟩
  since f hf a d hd hid e he hle := by
    rcases of_getElem?_concat hd with hold | ⟨rfl, rfl⟩
    · exact hs.since f hf a d hold hid e he hle
    · cases he
  sealed a d hd hclaimed := by
    rcases of_getElem?_concat hd with hold | ⟨rfl, rfl⟩
    · exact hs.sealed a d hold hclaimed
    · exact .inr rfl
  dropped a d hd hclaimed := by
    rw [lookup_addRing]
    rcases of_getElem?_concat hd with hold | ⟨rfl, rfl⟩
    · rcases hs.dropped a d hold hclaimed with hring | hle
      · have hne : d.executionID ≠ id := by
          rintro rfl
          rw [hnone] at hring
          cases hring
        rw [if_neg hne]
        exact .inl hring
      · exact .inr hle
    · exact .inr (le_refl 0)
  later a b d₁ d₂ h₁ h₂ hclaimed₁ hclaimed₂ hids hlt e he := by
    rcases of_getElem?_concat h₁ with hold₁ | ⟨rfl, rfl⟩
    · rcases of_getElem?_concat h₂ with hold₂ | ⟨rfl, rfl⟩
      · exact hs.later a b d₁ d₂ hold₁ hold₂ hclaimed₁ hclaimed₂ hids hlt e he
      · exact ((hcore.cell a d₁ hold₁).stamps e he).2
    · cases he

theorem Sealing.insertRing (hs : Sealing s) (hcore : Core s) {id : GoString}
    (hnone : s.rings.lookup id = none) : Sealing (s.insertRing c id) :=
  (hs.addRing hcore hnone).evicted (hcore.addRing c id) (evicted_insertRing c s id)

/-! ### A section -/

theorem sealedRing_of_not_loses {entry : Entry} {addr : ℕ} (h : ¬s.Loses (.append entry addr))
    (hfound : s.WasFound entry.executionID) : s.SealedRing entry.executionID addr :=
  Classical.not_not.mp fun hne => h ⟨hfound, hne⟩

theorem Section.sealing {pc next : CallPC} (hs : Sealing s) (hcore : Core s)
    (hpc : ∀ id addr, pc.held = some (id, addr) → s.RingOf id addr) (hloses : ¬s.Loses pc)
    (h : Section c s pc t next) : Sealing t := by
  cases h with
  | hit hring =>
    obtain ⟨cell, hcell, -⟩ := hcore.ringOf hring
    exact hs.changes (changes_touch hcell) rfl ⟨rfl, rfl, rfl, rfl, id, le_rfl⟩
  | other hring =>
    obtain ⟨cell, hcell, -⟩ := hcore.ringOf hring
    exact hs.changes (changes_touch hcell) rfl ⟨rfl, rfl, rfl, rfl, id, le_rfl⟩
  | create hnone => exact hs.insertRing hcore hnone
  | append hcell =>
    exact hs.appendTo hcore hcell (ringOf_eq (hpc _ _ rfl) hcell).symm
      (sealedRing_of_not_loses hloses)
  | find hring =>
    obtain ⟨cell, hcell, -⟩ := hcore.ringOf hring
    exact hs.markFound hcore hring hcell
  | take hcell hflight =>
    exact hs.changes (changes_takeFrom hcell _ _) rfl ⟨rfl, rfl, rfl, rfl, fun _ => rfl, le_rfl⟩
  | reserve hcell hflight =>
    exact hs.changes (changes_reserve hcell _ _ _) rfl ⟨rfl, rfl, rfl, rfl, id, le_rfl⟩
  | @write id warn addr cell entries n seq hcell hflight =>
    obtain rfl := ringOf_eq (hpc _ _ rfl) hcell
    have hseq : seq < s.reserveSeq cell.executionID :=
      (((hcore.cell addr cell hcell).flights _ hflight).2).1
    exact hs.changes (changes_write hcell entries n hseq) rfl
      ⟨rfl, rfl, rfl, rfl, fun hsealed => hsealed, le_rfl⟩
  | fail hcell hflight hmarked =>
    exact hs.changes (changes_fail hcell _) rfl ⟨rfl, rfl, rfl, rfl, id, le_rfl⟩
  | @mark id warn addr cell n hcell hflight =>
    have hwritten : 0 ≤ n ∧ n ≤ cell.ring.unflushed :=
      (hcore.cell addr cell hcell).accounted.flight _ hflight
    exact hs.changes (changes_same hcell (·.mark n) rfl) rfl
      ⟨rfl, rfl, rfl, rfl, fun hsealed => hsealed, Int.sub_le_self _ hwritten.1⟩
  | @reset id addr cell hcell hflight =>
    exact hs.changes (changes_same hcell RingCell.clear rfl) rfl
      ⟨rfl, rfl, rfl, rfl, fun hsealed => hsealed, (hcore.cell addr cell hcell).accounted.nonneg⟩
  | wait => exact hs.same ⟨rfl, rfl, rfl, rfl, rfl, rfl, rfl⟩ rfl
  | drain => exact hs.same ⟨rfl, rfl, rfl, rfl, rfl, rfl, rfl⟩ rfl
  | _ => exact hs

end LiveBuffer
end Persatrix.LogBuffer
