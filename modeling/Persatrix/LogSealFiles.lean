import Persatrix.LogSealCells

/-!
# The rings and the files of a buffer

Whatever order the sections are taken in, the counts of each ring agree with what was appended to
it, a ring is found under its execution and is the newest one of it, and no entry is written
twice.
-/
namespace Persatrix.LogBuffer

def Flight.entries : Flight → List Stamped
  | .taken entries _ => entries
  | .reserved entries _ _ => entries
  | .written _ => []

/-- What the holder of `flushMu` may still write. -/
def RingCell.inFlight (c : RingCell) : List Stamped := (c.flight.map Flight.entries).getD []

/-- What a section that appends nothing may change of a ring. -/
structure RingCell.Moves (c c' : RingCell) : Prop where
  executionID : c'.executionID = c.executionID
  loaded : c'.loaded = c.loaded
  history : c'.history = c.history
  born : c'.born = c.born
  border : c.border ≤ c'.border

namespace LiveBuffer

variable {c : Config} {s t : LiveBuffer}

/-! ### The heap and the table -/

theorem heap_setCell {addr : ℕ} {cell : RingCell} (h : s.heap[addr]? = some cell)
    (f : RingCell → RingCell) (b : ℕ) :
    (s.setCell addr f).heap[b]? = if addr = b then some (f cell) else s.heap[b]? := by
  unfold setCell
  rw [List.getElem?_modify]
  split_ifs with hb
  · subst hb
    rw [h]
    rfl
  · exact Option.map_id_apply

theorem heap_setCell_of_ne {addr b : ℕ} (hne : addr ≠ b) (f : RingCell → RingCell) :
    (s.setCell addr f).heap[b]? = s.heap[b]? := by
  exact List.getElem?_modify_ne f s.heap hne

theorem oldest_mem {l : List (GoString × ℕ)} {x : GoString × ℕ} (h : oldest l = some x) :
    x ∈ l := by
  induction l generalizing x with
  | nil => cases h
  | cons y l ih =>
    obtain ⟨id, touch⟩ := y
    rw [oldest] at h
    cases hrest : oldest l with
    | none =>
      rw [hrest] at h
      obtain rfl := Option.some.inj h
      exact List.mem_cons_self
    | some z =>
      obtain ⟨id', touch'⟩ := z
      rw [hrest] at h
      dsimp only at h
      split_ifs at h
      · obtain rfl := Option.some.inj h
        exact List.mem_cons_of_mem _ (ih hrest)
      · obtain rfl := Option.some.inj h
        exact List.mem_cons_self

theorem mem_candidates {id : GoString} {touch : ℕ} (h : (id, touch) ∈ s.candidates) :
    ∃ addr cell, s.rings.lookup id = some addr ∧ s.heap[addr]? = some cell ∧
      cell.ring.hasUnflushed = false := by
  obtain ⟨id', -, hcell⟩ := List.mem_filterMap.mp h
  obtain ⟨cell, hheap, hresult⟩ := Option.bind_eq_some_iff.mp hcell
  obtain ⟨addr, hring, hheap⟩ := Option.bind_eq_some_iff.mp hheap
  split_ifs at hresult with hunflushed
  obtain ⟨rfl, -⟩ := Prod.mk.inj (Option.some.inj hresult)
  exact ⟨addr, cell, hring, hheap, by simpa using hunflushed⟩

/-- What an eviction leaves: rings that count what is not written, and have been sealed, stay. -/
structure Evicted (s t : LiveBuffer) : Prop where
  same : t = { s with rings := t.rings, lru := t.lru }
  kept : ∀ id addr, t.rings.lookup id = some addr → s.rings.lookup id = some addr
  dropped : ∀ id addr, s.rings.lookup id = some addr → t.rings.lookup id = some addr ∨
    ∃ cell, s.heap[addr]? = some cell ∧ cell.ring.hasUnflushed = false

theorem evicted_evictRounds (c : Config) (rounds : ℕ) (s : LiveBuffer) :
    Evicted s (evictRounds c rounds s) := by
  induction rounds generalizing s with
  | zero => exact ⟨rfl, fun _ _ h => h, fun _ _ h => .inl h⟩
  | succ rounds ih =>
    rw [evictRounds]
    split_ifs
    · exact ⟨rfl, fun _ _ h => h, fun _ _ h => .inl h⟩
    · cases hvictim : oldest s.candidates with
      | none => exact ⟨rfl, fun _ _ h => h, fun _ _ h => .inl h⟩
      | some victim =>
        obtain ⟨id, touch⟩ := victim
        obtain ⟨addr, cell, hring, hheap, hunflushed⟩ := mem_candidates (oldest_mem hvictim)
        have hrest := ih { s with rings := s.rings.erase id, lru := s.lru.erase id }
        dsimp only
        generalize evictRounds c rounds
          { s with rings := s.rings.erase id, lru := s.lru.erase id } = t at *
        refine ⟨hrest.same, fun id' addr' h => ?_, fun id' addr' h => ?_⟩
        · have hkept := hrest.kept id' addr' h
          rw [GoMap.lookup_erase] at hkept
          split_ifs at hkept
          exact hkept
        · by_cases hid : id' = id
          · subst hid
            obtain rfl := Option.some.inj (hring.symm.trans h)
            exact .inr ⟨cell, hheap, hunflushed⟩
          · apply hrest.dropped id' addr'
            rwa [GoMap.lookup_erase, if_neg hid]

theorem evicted_evictLocked (c : Config) (s : LiveBuffer) : Evicted s (evictLocked c s) :=
  evicted_evictRounds c _ s

/-! ### One ring -/

def FlightBound (s : LiveBuffer) (addr : ℕ) (cell : RingCell) : Flight → Prop
  | .taken entries _ => entries ≠ []
  | .reserved entries _ seq => entries ≠ [] ∧ seq < s.reserveSeq cell.executionID ∧
      ∀ f ∈ s.files, f.addr = addr → f.seq < seq
  | .written _ => True

/-- A ring in the heap. -/
structure CellOK (s : LiveBuffer) (addr : ℕ) (cell : RingCell) : Prop where
  accounted : Accounted cell
  ids : ∀ e ∈ cell.history, e.entry.executionID = cell.executionID
  increasing : cell.history.Pairwise fun e e' => e.stamp < e'.stamp
  stamps : ∀ e ∈ cell.history, cell.born ≤ e.stamp ∧ e.stamp < s.appends
  born : cell.born ≤ s.appends
  filed : ∀ f ∈ s.files, f.addr = addr → f.executionID = cell.executionID ∧
    f.entries.Sublist (cell.history.take cell.border)
  flights : ∀ f, cell.flight = some f → FlightBound s addr cell f

/-- The logs have grown, but not by a file of the ring at the address. -/
structure Extends (s t : LiveBuffer) (addr : ℕ) : Prop where
  appends : s.appends ≤ t.appends
  files : ∀ f ∈ t.files, f.addr = addr → f ∈ s.files
  seqs : ∀ id, s.reserveSeq id ≤ t.reserveSeq id

theorem FlightBound.extend {addr : ℕ} {cell cell' : RingCell} {f : Flight}
    (h : FlightBound s addr cell f) (hext : Extends s t addr)
    (hid : cell'.executionID = cell.executionID) : FlightBound t addr cell' f := by
  cases f with
  | taken => exact h
  | reserved =>
    obtain ⟨hne, hseq, hfiles⟩ := h
    refine ⟨hne, ?_, fun f hf haddr => hfiles f (hext.files f hf haddr) haddr⟩
    rw [hid]
    exact hseq.trans_le (hext.seqs _)
  | written => trivial

theorem CellOK.extend {addr : ℕ} {cell : RingCell} (h : CellOK s addr cell)
    (hext : Extends s t addr) : CellOK t addr cell where
  accounted := h.accounted
  ids := h.ids
  increasing := h.increasing
  stamps e he := ⟨(h.stamps e he).1, (h.stamps e he).2.trans_le hext.appends⟩
  born := h.born.trans hext.appends
  filed f hf haddr := h.filed f (hext.files f hf haddr) haddr
  flights f hf := (h.flights f hf).extend hext rfl

theorem CellOK.move {addr : ℕ} {cell cell' : RingCell} (h : CellOK s addr cell)
    (hext : Extends s t addr) (hmoves : cell.Moves cell') (haccounted : Accounted cell')
    (hflights : ∀ f, cell'.flight = some f → FlightBound t addr cell' f) :
    CellOK t addr cell' where
  accounted := haccounted
  ids e he := by
    rw [hmoves.history] at he
    rw [hmoves.executionID]
    exact h.ids e he
  increasing := by
    rw [hmoves.history]
    exact h.increasing
  stamps e he := by
    rw [hmoves.history] at he
    rw [hmoves.born]
    exact ⟨(h.stamps e he).1, (h.stamps e he).2.trans_le hext.appends⟩
  born := by
    rw [hmoves.born]
    exact h.born.trans hext.appends
  filed f hf haddr := by
    obtain ⟨hid, hsub⟩ := h.filed f (hext.files f hf haddr) haddr
    rw [hmoves.executionID, hmoves.history]
    exact ⟨hid, hsub.trans (List.take_sublist_take_left hmoves.border)⟩
  flights := hflights

/-! ### The whole buffer -/

/-- A ring is the newest one of its execution. -/
def Newest (s : LiveBuffer) (id : GoString) (addr : ℕ) : Prop :=
  ∀ b cell, s.heap[b]? = some cell → cell.executionID = id → b ≤ addr

/-- The entries of the files. -/
def written (s : LiveBuffer) : List Stamped := s.files.flatMap SequenceFile.entries

/-- What a seal has taken is written, lost or still in flight. -/
def TakenOK (s : LiveBuffer) (n : ℕ) : Prop :=
  n ∈ s.written.map Stamped.stamp ∨ n ∈ s.failed ∨
    ∃ (addr : ℕ) (cell : RingCell), s.heap[addr]? = some cell ∧ n ∈ cell.inFlight.map Stamped.stamp

structure Core (s : LiveBuffer) : Prop where
  cell : ∀ (addr : ℕ) (cell : RingCell), s.heap[addr]? = some cell → CellOK s addr cell
  distinct : ∀ (a b : ℕ) (cell cell' : RingCell), s.heap[a]? = some cell →
    s.heap[b]? = some cell' → a ≠ b → ∀ e ∈ cell.history, ∀ e' ∈ cell'.history, e.stamp ≠ e'.stamp
  table : ∀ (id : GoString) (addr : ℕ), s.rings.lookup id = some addr →
    (∃ cell, s.heap[addr]? = some cell ∧ cell.executionID = id) ∧ s.Newest id addr
  files : ∀ f ∈ s.files, f.seq < s.reserveSeq f.executionID ∧ ∃ cell, s.heap[f.addr]? = some cell
  once : (s.written.map Stamped.stamp).Nodup
  taken : ∀ n ∈ s.taken, s.TakenOK n

/-- A ring at an address is changed, and the logs grow. -/
structure Changes (s t : LiveBuffer) (addr : ℕ) (cell cell' : RingCell) : Prop where
  before : s.heap[addr]? = some cell
  after : t.heap[addr]? = some cell'
  others : ∀ b, addr ≠ b → t.heap[b]? = s.heap[b]?
  rings : t.rings = s.rings
  executionID : cell'.executionID = cell.executionID
  appends : s.appends ≤ t.appends
  seqs : ∀ id, s.reserveSeq id ≤ t.reserveSeq id
  kept : s.files ⊆ t.files
  files : ∀ f ∈ t.files, f ∈ s.files ∨ f.addr = addr ∧ f.seq < t.reserveSeq f.executionID
  failed : s.failed ⊆ t.failed

namespace Changes
variable {addr : ℕ} {cell cell' : RingCell}

theorem extend (h : Changes s t addr cell cell') {b : ℕ} (hb : addr ≠ b) : Extends s t b where
  appends := h.appends
  files f hf haddr := (h.files f hf).resolve_right fun hnew => hb (hnew.1.symm.trans haddr)
  seqs := h.seqs

theorem newest (h : Changes s t addr cell cell') {id : GoString} {a : ℕ}
    (hnewest : s.Newest id a) : t.Newest id a := by
  intro b d hd hid
  by_cases hb : addr = b
  · subst hb
    obtain rfl := Option.some.inj (h.after.symm.trans hd)
    exact hnewest _ cell h.before (h.executionID.symm.trans hid)
  · rw [h.others b hb] at hd
    exact hnewest b d hd hid

theorem exists_cell (h : Changes s t addr cell cell') {b : ℕ} {d : RingCell}
    (hd : s.heap[b]? = some d) : ∃ d', t.heap[b]? = some d' ∧ d'.executionID = d.executionID := by
  by_cases hb : addr = b
  · subst hb
    obtain rfl := Option.some.inj (h.before.symm.trans hd)
    exact ⟨cell', h.after, h.executionID⟩
  · exact ⟨d, (h.others b hb).trans hd, rfl⟩

theorem written_subset (h : Changes s t addr cell cell') : s.written ⊆ t.written := by
  intro e he
  obtain ⟨f, hf, hmem⟩ := List.mem_flatMap.mp he
  exact List.mem_flatMap.mpr ⟨f, h.kept hf, hmem⟩

end Changes

/-- The entries of a ring were appended to it after it had been as before, or were in it. -/
theorem Core.distinct_change (hs : Core s) {addr : ℕ} {cell cell' : RingCell}
    (h : Changes s t addr cell cell')
    (hhistory : ∀ e ∈ cell'.history, e ∈ cell.history ∨ s.appends ≤ e.stamp)
    {b : ℕ} {d : RingCell} (hd : t.heap[b]? = some d) (hb : addr ≠ b) :
    ∀ e ∈ cell'.history, ∀ e' ∈ d.history, e.stamp ≠ e'.stamp := by
  rw [h.others b hb] at hd
  intro e he e' he'
  rcases hhistory e he with he | he
  · exact hs.distinct addr b cell d h.before hd hb e he e' he'
  · exact ((((hs.cell b d hd).stamps e' he').2).trans_le he).ne'

theorem Core.change (hs : Core s) {addr : ℕ} {cell cell' : RingCell}
    (h : Changes s t addr cell cell') (hcell : CellOK t addr cell')
    (hhistory : ∀ e ∈ cell'.history, e ∈ cell.history ∨ s.appends ≤ e.stamp)
    (honce : (t.written.map Stamped.stamp).Nodup)
    (htaken : ∀ n ∈ t.taken, n ∈ s.taken ∨ n ∈ cell'.inFlight.map Stamped.stamp)
    (hflight : ∀ e ∈ cell.inFlight, e ∈ t.written ∨ e.stamp ∈ t.failed ∨ e ∈ cell'.inFlight) :
    Core t where
  cell b d hd := by
    by_cases hb : addr = b
    · subst hb
      obtain rfl := Option.some.inj (h.after.symm.trans hd)
      exact hcell
    · rw [h.others b hb] at hd
      exact (hs.cell b d hd).extend (h.extend hb)
  distinct a b d d' hd hd' hne := by
    by_cases ha : addr = a
    · subst ha
      obtain rfl := Option.some.inj (h.after.symm.trans hd)
      exact hs.distinct_change h hhistory hd' hne
    by_cases hb : addr = b
    · subst hb
      obtain rfl := Option.some.inj (h.after.symm.trans hd')
      exact fun e he e' he' => (hs.distinct_change h hhistory hd ha e' he' e he).symm
    rw [h.others a ha] at hd
    rw [h.others b hb] at hd'
    exact hs.distinct a b d d' hd hd' hne
  table id a hring := by
    rw [h.rings] at hring
    obtain ⟨⟨d, hd, hid⟩, hnewest⟩ := hs.table id a hring
    obtain ⟨d', hd', hid'⟩ := h.exists_cell hd
    exact ⟨⟨d', hd', hid'.trans hid⟩, h.newest hnewest⟩
  files f hf := by
    rcases h.files f hf with hold | ⟨rfl, hseq⟩
    · obtain ⟨hseq, d, hd⟩ := hs.files f hold
      obtain ⟨d', hd', -⟩ := h.exists_cell hd
      exact ⟨hseq.trans_le (h.seqs _), d', hd'⟩
    · exact ⟨hseq, cell', h.after⟩
  once := honce
  taken n hn := by
    rcases htaken n hn with hold | hnew
    · rcases hs.taken n hold with hwritten | hfailed | ⟨b, d, hd, hmem⟩
      · exact .inl (List.map_subset _ h.written_subset hwritten)
      · exact .inr (.inl (h.failed hfailed))
      · by_cases hb : addr = b
        · subst hb
          obtain rfl := Option.some.inj (h.before.symm.trans hd)
          obtain ⟨e, he, rfl⟩ := List.mem_map.mp hmem
          rcases hflight e he with hw | hf | hin
          · exact .inl (List.mem_map_of_mem hw)
          · exact .inr (.inl hf)
          · exact .inr (.inr ⟨addr, cell', h.after, List.mem_map_of_mem hin⟩)
        · exact .inr (.inr ⟨b, d, (h.others b hb).trans hd, hmem⟩)
    · exact .inr (.inr ⟨addr, cell', h.after, hnew⟩)

end LiveBuffer
end Persatrix.LogBuffer
