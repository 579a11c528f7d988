import Persatrix.LogSealFiles

/-!
# The sections of a call

Each section changes one ring, adds one, or changes the table only, and leaves what holds of the
buffer. `Section` says what a section may do.
-/
namespace Persatrix.LogBuffer
namespace LiveBuffer

variable {c : Config} {s t : LiveBuffer}

/-! ### A ring that is changed -/

section
variable {addr : ℕ} {cell : RingCell}

/-- A section that changes a ring, and neither appends nor writes a file. -/
theorem changes_setCell (h : s.heap[addr]? = some cell) (f : RingCell → RingCell)
    (hid : (f cell).executionID = cell.executionID) (hheap : t.heap = (s.setCell addr f).heap)
    (hrings : t.rings = s.rings) (happends : s.appends ≤ t.appends)
    (hseqs : ∀ id, s.reserveSeq id ≤ t.reserveSeq id) (hkept : s.files ⊆ t.files)
    (hfiles : ∀ g ∈ t.files, g ∈ s.files ∨ g.addr = addr ∧ g.seq < t.reserveSeq g.executionID)
    (hfailed : s.failed ⊆ t.failed) : Changes s t addr cell (f cell) where
  before := h
  after := by rw [hheap, heap_setCell h, if_pos rfl]
  others b hb := by rw [hheap, heap_setCell_of_ne hb]
  rings := hrings
  executionID := hid
  appends := happends
  seqs := hseqs
  kept := hkept
  files := hfiles
  failed := hfailed

theorem changes_same (h : s.heap[addr]? = some cell) (f : RingCell → RingCell)
    (hid : (f cell).executionID = cell.executionID) :
    Changes s (s.setCell addr f) addr cell (f cell) :=
  changes_setCell h f hid rfl rfl le_rfl (fun _ => le_rfl) (List.Subset.refl _) (fun _ hg => .inl hg)
    (List.Subset.refl _)

theorem changes_touch (h : s.heap[addr]? = some cell) :
    Changes s (s.touch addr) addr cell (cell.touch (s.lruCounter + 1)) :=
  changes_setCell h (·.touch (s.lruCounter + 1)) rfl rfl rfl le_rfl (fun _ => le_rfl)
    (List.Subset.refl _) (fun _ hg => .inl hg) (List.Subset.refl _)

theorem changes_appendTo (h : s.heap[addr]? = some cell) (entry : Entry) :
    Changes s (s.appendTo entry addr) addr cell (cell.append (s.stamped entry)) :=
  changes_setCell h (·.append (s.stamped entry)) rfl rfl rfl (Nat.le_succ _)
    (fun _ => le_rfl) (List.Subset.refl _) (fun _ hg => .inl hg) (List.Subset.refl _)

theorem changes_markFound (h : s.heap[addr]? = some cell) (id : GoString) :
    Changes s (s.markFound id addr) addr cell cell.markFound :=
  changes_setCell h RingCell.markFound rfl rfl rfl le_rfl (fun _ => le_rfl)
    (List.Subset.refl _) (fun _ hg => .inl hg) (List.Subset.refl _)

theorem changes_fail (h : s.heap[addr]? = some cell) (entries : List Stamped) :
    Changes s (s.fail addr entries) addr cell cell.fail :=
  changes_setCell h RingCell.fail rfl rfl rfl le_rfl (fun _ => le_rfl)
    (List.Subset.refl _) (fun _ hg => .inl hg) (List.subset_append_left _ _)

theorem changes_takeFrom (h : s.heap[addr]? = some cell) (entries : List Stamped) (n : ℤ) :
    Changes s (s.takeFrom addr entries n) addr cell (cell.take entries n) :=
  changes_setCell h (·.take entries n) rfl rfl rfl le_rfl (fun _ => le_rfl)
    (List.Subset.refl _) (fun _ hg => .inl hg) (List.Subset.refl _)

theorem reserveSeq_reserve (id : GoString) (entries : List Stamped) (n : ℤ) (id' : GoString) :
    (s.reserve id addr entries n).reserveSeq id' =
      if id' = id then s.reserveSeq id + 1 else s.reserveSeq id' := by
  have hlookup : (s.reserve id addr entries n).nextSeq.lookup id' =
      if id' = id then some (s.reserveSeq id + 1) else s.nextSeq.lookup id' :=
    GoMap.lookup_insert _ _ _ _
  rw [reserveSeq, hlookup]
  by_cases hid : id' = id
  · rw [if_pos hid, if_pos hid]
    exact if_neg (Nat.succ_ne_zero _)
  · rw [if_neg hid, if_neg hid]
    rfl

theorem changes_reserve (h : s.heap[addr]? = some cell) (id : GoString) (entries : List Stamped)
    (n : ℤ) : Changes s (s.reserve id addr entries n) addr cell
      (cell.reserve entries n (s.reserveSeq id)) :=
  changes_setCell h (·.reserve entries n (s.reserveSeq id)) rfl rfl rfl le_rfl
    (fun id' => by
      rw [reserveSeq_reserve]
      split_ifs with hid
      · subst hid
        exact Nat.le_succ _
      · exact le_rfl)
    (List.Subset.refl _) (fun _ hg => .inl hg) (List.Subset.refl _)

theorem changes_write (h : s.heap[addr]? = some cell) {id : GoString} (entries : List Stamped)
    (n : ℤ) {seq : ℕ} (hseq : seq < s.reserveSeq id) :
    Changes s (s.write id addr entries n seq) addr cell (cell.write n) :=
  changes_setCell h (·.write n) rfl rfl rfl le_rfl (fun _ => le_rfl)
    (List.subset_append_left _ _)
    (fun g hg => by
      rcases List.mem_append.mp hg with hg | hg
      · exact .inl hg
      · rw [List.mem_singleton] at hg
        subst hg
        exact .inr ⟨rfl, hseq⟩)
    (List.Subset.refl _)

theorem Changes.extends_of_files {cell' : RingCell} (h : Changes s t addr cell cell')
    (hfiles : t.files = s.files) (b : ℕ) : Extends s t b where
  appends := h.appends
  files _ hf _ := hfiles ▸ hf
  seqs := h.seqs

/-- A section that appends nothing and writes no file. -/
theorem Core.move (hs : Core s) {cell' : RingCell} (h : Changes s t addr cell cell')
    (hmoves : cell.Moves cell') (haccounted : Accounted cell') (hfiles : t.files = s.files)
    (hbound : ∀ f, cell'.flight = some f → FlightBound t addr cell' f)
    (htaken : ∀ n ∈ t.taken, n ∈ s.taken ∨ n ∈ cell'.inFlight.map Stamped.stamp)
    (hflight : ∀ e ∈ cell.inFlight, e.stamp ∈ t.failed ∨ e ∈ cell'.inFlight) : Core t := by
  have hcell := (hs.cell addr cell h.before).move (h.extends_of_files hfiles addr) hmoves
    haccounted hbound
  have honce : (t.written.map Stamped.stamp).Nodup := by
    rw [written, hfiles]
    exact hs.once
  exact hs.change h hcell (fun e he => .inl (hmoves.history ▸ he)) honce htaken
    fun e he => .inr (hflight e he)

/-- A section that leaves what is in flight as it is. -/
theorem Core.stay (hs : Core s) {cell' : RingCell} (h : Changes s t addr cell cell')
    (hmoves : cell.Moves cell') (haccounted : Accounted cell') (hfiles : t.files = s.files)
    (hflight : cell'.flight = cell.flight) (htaken : t.taken = s.taken) : Core t := by
  have hext := h.extends_of_files hfiles addr
  apply hs.move h hmoves haccounted hfiles
  · intro f hf
    rw [hflight] at hf
    exact ((hs.cell addr cell h.before).flights f hf).extend hext hmoves.executionID
  · intro n hn
    exact .inl (htaken ▸ hn)
  · intro e he
    rw [RingCell.inFlight, hflight]
    exact .inr he

theorem Core.touch (hs : Core s) (h : s.heap[addr]? = some cell) : Core (s.touch addr) :=
  hs.stay (changes_touch h) ⟨rfl, rfl, rfl, rfl, le_refl cell.border⟩
    ((hs.cell addr cell h).accounted.touch _) rfl rfl rfl

theorem Core.markFound (hs : Core s) (h : s.heap[addr]? = some cell) (id : GoString) :
    Core (s.markFound id addr) :=
  hs.stay (changes_markFound h id) ⟨rfl, rfl, rfl, rfl, le_refl cell.border⟩
    (hs.cell addr cell h).accounted.markFound rfl rfl rfl

theorem Core.clear (hs : Core s) (h : s.heap[addr]? = some cell) (hflight : cell.flight = none) :
    Core (s.clear addr) := by
  have haccounted := (hs.cell addr cell h).accounted
  have hborder : cell.border ≤ cell.clear.border := by
    rw [Accounted.border_clear hflight]
    exact haccounted.border_le
  exact hs.stay (changes_same h RingCell.clear rfl) ⟨rfl, rfl, rfl, rfl, hborder⟩
    (haccounted.clear hflight) rfl rfl rfl

theorem inFlight_take (entries : List Stamped) (n : ℤ) : (cell.take entries n).inFlight = entries := by
  unfold RingCell.inFlight RingCell.take
  cases entries with
  | nil => rfl
  | cons => rfl

theorem Core.takeFrom (hs : Core s) (h : s.heap[addr]? = some cell)
    (hflight : cell.flight = none) :
    Core (s.takeFrom addr cell.ring.sealRing.1.1 cell.ring.sealRing.1.2) := by
  have haccounted := (hs.cell addr cell h).accounted
  apply hs.move (changes_takeFrom h _ _)
    ⟨rfl, rfl, rfl, rfl, (haccounted.border_take hflight).ge⟩ (haccounted.take hflight) rfl
  · intro f hf
    cases hempty : cell.ring.sealRing.1.1 with
    | nil =>
      rw [RingCell.take, hempty] at hf
      cases hf
      trivial
    | cons e entries =>
      rw [RingCell.take, hempty] at hf
      cases hf
      exact List.cons_ne_nil e entries
  · intro n hn
    rw [inFlight_take]
    exact List.mem_append.mp hn
  · intro e he
    rw [RingCell.inFlight, hflight] at he
    cases he

theorem Core.reserve (hs : Core s) (h : s.heap[addr]? = some cell) {entries : List Stamped} {n : ℤ}
    (hflight : cell.flight = some (.taken entries n)) :
    Core (s.reserve cell.executionID addr entries n) := by
  have hok := hs.cell addr cell h
  have hne : entries ≠ [] := hok.flights _ hflight
  apply hs.move (changes_reserve h cell.executionID entries n)
    ⟨rfl, rfl, rfl, rfl, (Accounted.border_reserve hflight _).ge⟩ (hok.accounted.reserve hflight _)
    rfl
  · intro f hf
    cases hf
    have hseq : s.reserveSeq cell.executionID <
        (s.reserve cell.executionID addr entries n).reserveSeq cell.executionID := by
      rw [reserveSeq_reserve, if_pos rfl]
      exact Nat.lt_succ_self _
    refine ⟨hne, hseq, fun f hf haddr => ?_⟩
    have hid := (hok.filed f hf haddr).1
    have hlt := (hs.files f hf).1
    rwa [hid] at hlt
  · intro n hn
    exact .inl hn
  · intro e he
    rw [RingCell.inFlight, hflight] at he
    exact .inr he

theorem Core.fail (hs : Core s) (h : s.heap[addr]? = some cell) {f : Flight}
    (hflight : cell.flight = some f) (hmarked : cell.marked = 0) :
    Core (s.fail addr f.entries) := by
  have haccounted := (hs.cell addr cell h).accounted
  apply hs.move (changes_fail h f.entries)
    ⟨rfl, rfl, rfl, rfl, (Accounted.border_fail hmarked).ge⟩ haccounted.fail rfl
  · intro f hf
    cases hf
  · intro n hn
    exact .inl hn
  · intro e he
    rw [RingCell.inFlight, hflight] at he
    exact .inl (List.mem_append_right _ (List.mem_map_of_mem he))

theorem Core.mark (hs : Core s) (h : s.heap[addr]? = some cell) {n : ℤ}
    (hflight : cell.flight = some (.written n)) : Core (s.mark addr n) := by
  have haccounted := (hs.cell addr cell h).accounted
  apply hs.move (changes_same h (·.mark n) rfl)
    ⟨rfl, rfl, rfl, rfl, (haccounted.border_mark hflight).ge⟩ (haccounted.mark hflight) rfl
  · intro f hf
    cases hf
  · intro n hn
    exact .inl hn
  · intro e he
    rw [RingCell.inFlight, hflight] at he
    cases he

/-! ### A write -/

theorem CellOK.write (h : CellOK s addr cell) {entries : List Stamped} {n : ℤ} {seq : ℕ}
    (hflight : cell.flight = some (.reserved entries n seq)) :
    CellOK (s.write cell.executionID addr entries n seq) addr (cell.write n) where
  accounted := h.accounted.write (h.accounted.flight _ hflight)
  ids := h.ids
  increasing := h.increasing
  stamps := h.stamps
  born := h.born
  filed f hf haddr := by
    have hmarked : cell.marked = 0 := by rw [RingCell.marked, hflight]
    have htaken : TakenFrom cell entries n := h.accounted.flight _ hflight
    rw [Accounted.take_border_write hmarked]
    rcases List.mem_append.mp hf with hf | hf
    · obtain ⟨hid, hsub⟩ := h.filed f hf haddr
      exact ⟨hid, hsub.trans (List.sublist_append_left _ _)⟩
    · rw [List.mem_singleton] at hf
      subst hf
      exact ⟨rfl, htaken.sublist.trans (List.sublist_append_right _ _)⟩
  flights f hf := by
    cases hf
    trivial

/-- What is in flight comes after what was dealt with. -/
theorem CellOK.lt_segment (h : CellOK s addr cell) {n : ℤ} {e e' : Stamped}
    (he : e ∈ cell.history.take cell.border) (he' : e' ∈ cell.segment n) : e.stamp < e'.stamp := by
  have hincreasing := h.increasing
  rw [← List.take_append_drop cell.border cell.history, List.pairwise_append] at hincreasing
  exact hincreasing.2.2 e he e' (List.mem_of_mem_take he')

theorem CellOK.mem_history_of_segment {n : ℤ} {e : Stamped} (he : e ∈ cell.segment n) :
    e ∈ cell.history := List.mem_of_mem_drop (List.mem_of_mem_take he)

/-- What is in flight was not written before. -/
theorem Core.fresh (hs : Core s) (h : s.heap[addr]? = some cell) {n : ℤ} {e e' : Stamped}
    (he : e ∈ s.written) (he' : e' ∈ cell.segment n) : e.stamp ≠ e'.stamp := by
  obtain ⟨f, hf, hmem⟩ := List.mem_flatMap.mp he
  obtain ⟨-, d, hd⟩ := hs.files f hf
  have hsettled := ((hs.cell _ d hd).filed f hf rfl).2.subset hmem
  by_cases haddr : f.addr = addr
  · subst haddr
    obtain rfl := Option.some.inj (h.symm.trans hd)
    exact ((hs.cell _ cell h).lt_segment hsettled he').ne
  · exact hs.distinct _ _ d cell hd h haddr e (List.mem_of_mem_take hsettled) e'
      (CellOK.mem_history_of_segment he')

theorem written_write (id : GoString) (entries : List Stamped) (n : ℤ) (seq : ℕ) :
    (s.write id addr entries n seq).written = s.written ++ entries := by
  have hfiles : (s.write id addr entries n seq).files = s.files ++ [⟨id, seq, entries, addr⟩] := rfl
  rw [written, hfiles, List.flatMap_append, List.flatMap_singleton]
  rfl

theorem Core.write (hs : Core s) (h : s.heap[addr]? = some cell) {entries : List Stamped} {n : ℤ}
    {seq : ℕ} (hflight : cell.flight = some (.reserved entries n seq)) :
    Core (s.write cell.executionID addr entries n seq) := by
  have hok := hs.cell addr cell h
  have htaken : TakenFrom cell entries n := hok.accounted.flight _ hflight
  have hseq : seq < s.reserveSeq cell.executionID := (hok.flights _ hflight).2.1
  apply hs.change (changes_write h entries n hseq) (hok.write hflight) (fun e he => .inl he)
  · rw [written_write, List.map_append, List.nodup_append]
    have hsegment : (cell.segment n).Sublist cell.history :=
      (List.take_sublist _ _).trans (List.drop_sublist _ _)
    have hnodup : (entries.map Stamped.stamp).Nodup := by
      rw [List.Nodup, List.pairwise_map]
      exact (hok.increasing.sublist (htaken.sublist.trans hsegment)).imp Nat.ne_of_lt
    refine ⟨hs.once, hnodup, fun a ha b hb => ?_⟩
    obtain ⟨e, he, rfl⟩ := List.mem_map.mp ha
    obtain ⟨e', he', rfl⟩ := List.mem_map.mp hb
    exact hs.fresh h he (htaken.sublist.subset he')
  · intro m hm
    exact .inl hm
  · intro e he
    rw [RingCell.inFlight, hflight] at he
    rw [written_write]
    exact .inl (List.mem_append_right _ he)

/-! ### An append -/

theorem CellOK.appendTo (h : CellOK s addr cell) {entry : Entry}
    (hid : entry.executionID = cell.executionID) :
    CellOK (s.appendTo entry addr) addr (cell.append (s.stamped entry)) where
  accounted := h.accounted.append _
  ids e he := by
    rcases List.mem_append.mp he with he | he
    · exact h.ids e he
    · rw [List.mem_singleton.mp he]
      exact hid
  increasing := by
    change (cell.history ++ [s.stamped entry]).Pairwise _
    rw [List.pairwise_append]
    refine ⟨h.increasing, List.pairwise_singleton _ _, fun e he e' he' => ?_⟩
    rw [List.mem_singleton.mp he']
    exact (h.stamps e he).2
  stamps e he := by
    rcases List.mem_append.mp he with he | he
    · exact ⟨(h.stamps e he).1, Nat.lt_succ_of_lt (h.stamps e he).2⟩
    · rw [List.mem_singleton.mp he]
      exact ⟨h.born, Nat.lt_succ_self _⟩
  born := Nat.le_succ_of_le h.born
  filed f hf haddr := by
    obtain ⟨hid', hsub⟩ := h.filed f hf haddr
    rw [h.accounted.take_border_append]
    exact ⟨hid', hsub⟩
  flights f hf := by
    have hbound := h.flights f hf
    cases f with
    | taken => exact hbound
    | reserved => exact hbound
    | written => trivial

theorem Core.appendTo (hs : Core s) (h : s.heap[addr]? = some cell) {entry : Entry}
    (hid : entry.executionID = cell.executionID) : Core (s.appendTo entry addr) := by
  apply hs.change (changes_appendTo h entry) ((hs.cell addr cell h).appendTo hid)
  · intro e he
    rcases List.mem_append.mp he with he | he
    · exact .inl he
    · rw [List.mem_singleton.mp he]
      exact .inr le_rfl
  · exact hs.once
  · intro n hn
    exact .inl hn
  · intro e he
    exact .inr (.inr he)

end

/-! ### A new ring -/

/-- The rings and the logs are the same. -/
structure SameLogs (s t : LiveBuffer) : Prop where
  heap : t.heap = s.heap
  nextSeq : t.nextSeq = s.nextSeq
  appends : t.appends = s.appends
  files : t.files = s.files
  taken : t.taken = s.taken
  failed : t.failed = s.failed
  found : t.found = s.found

theorem SameLogs.reserveSeq (h : SameLogs s t) (id : GoString) :
    t.reserveSeq id = s.reserveSeq id := by
  rw [LiveBuffer.reserveSeq, h.nextSeq]
  rfl

theorem SameLogs.extend (h : SameLogs s t) (addr : ℕ) : Extends s t addr where
  appends := h.appends.ge
  files _ hf _ := h.files ▸ hf
  seqs id := (h.reserveSeq id).ge

theorem SameLogs.newest (h : SameLogs s t) {id : GoString} {addr : ℕ} (hnewest : s.Newest id addr) :
    t.Newest id addr := by
  intro b d hd
  rw [h.heap] at hd
  exact hnewest b d hd

theorem Core.same (hs : Core s) (h : SameLogs s t)
    (hrings : ∀ id addr, t.rings.lookup id = some addr → s.rings.lookup id = some addr) :
    Core t where
  cell addr d hd := by
    rw [h.heap] at hd
    exact (hs.cell addr d hd).extend (h.extend addr)
  distinct := by
    rw [h.heap]
    exact hs.distinct
  table id addr hring := by
    obtain ⟨hcell, hnewest⟩ := hs.table id addr (hrings id addr hring)
    rw [h.heap]
    exact ⟨hcell, h.newest hnewest⟩
  files f hf := by
    rw [h.files] at hf
    rw [h.heap, h.reserveSeq]
    exact hs.files f hf
  once := by
    rw [written, h.files]
    exact hs.once
  taken n hn := by
    rw [h.taken] at hn
    rw [TakenOK, written, h.files, h.failed, h.heap]
    exact hs.taken n hn

theorem Evicted.logs (h : Evicted s t) : SameLogs s t := by
  rw [h.same]
  exact ⟨rfl, rfl, rfl, rfl, rfl, rfl, rfl⟩

theorem of_getElem?_concat {α : Type} {l : List α} {x y : α} {b : ℕ}
    (h : (l ++ [x])[b]? = some y) : l[b]? = some y ∨ b = l.length ∧ y = x := by
  rw [List.getElem?_append] at h
  split_ifs at h with hlt
  · exact .inl h
  · obtain ⟨hlt', rfl⟩ := List.getElem?_eq_some_iff.mp h
    rw [List.length_singleton] at hlt'
    exact .inr ⟨by omega, List.getElem_singleton _⟩

theorem getElem?_concat_left {α : Type} {l : List α} {x y : α} {b : ℕ} (h : l[b]? = some y) :
    (l ++ [x])[b]? = some y := by
  rw [List.getElem?_append_left (List.getElem?_eq_some_iff.mp h).1]
  exact h

/-- The state before the eviction. -/
def addRing (c : Config) (s : LiveBuffer) (executionID : GoString) : LiveBuffer :=
  { s with
    heap := s.heap ++ [s.newCell c executionID]
    rings := s.rings.insert executionID s.heap.length
    lru := s.lru ++ [executionID]
    lruCounter := s.lruCounter + 1 }

theorem evicted_insertRing (c : Config) (s : LiveBuffer) (id : GoString) :
    Evicted (s.addRing c id) (s.insertRing c id) := evicted_evictLocked c _

theorem Core.cellOK_newCell (hs : Core s) (c : Config) (id : GoString) :
    CellOK (s.addRing c id) s.heap.length (s.newCell c id) where
  accounted := ⟨(ExecutionRing.rtake_of_length_le (Nat.zero_le _)).symm, le_refl _, Nat.zero_le _,
    fun _ hf => by cases hf⟩
  ids e he := by cases he
  increasing := List.Pairwise.nil
  stamps e he := by cases he
  born := le_refl s.appends
  filed f hf haddr := by
    obtain ⟨-, d, hd⟩ := hs.files f hf
    have hlt := (List.getElem?_eq_some_iff.mp hd).1
    omega
  flights f hf := by cases hf

theorem Core.addRing (hs : Core s) (c : Config) (id : GoString) : Core (s.addRing c id) where
  cell b d hd := by
    rcases of_getElem?_concat hd with hold | ⟨rfl, rfl⟩
    · exact (hs.cell b d hold).extend ⟨le_rfl, fun _ hf _ => hf, fun _ => le_rfl⟩
    · exact hs.cellOK_newCell c id
  distinct a b d d' hd hd' hne e he e' he' := by
    rcases of_getElem?_concat hd with hold | ⟨-, rfl⟩
    · rcases of_getElem?_concat hd' with hold' | ⟨-, rfl⟩
      · exact hs.distinct a b d d' hold hold' hne e he e' he'
      · cases he'
    · cases he
  table id' addr hring := by
    have hlookup : (s.addRing c id).rings.lookup id' =
        if id' = id then some s.heap.length else s.rings.lookup id' := GoMap.lookup_insert _ _ _ _
    rw [hlookup] at hring
    split_ifs at hring with hid
    · obtain rfl := Option.some.inj hring
      refine ⟨⟨s.newCell c id, List.getElem?_concat_length, hid.symm⟩, fun b d hd _ => ?_⟩
      have hlt := (List.getElem?_eq_some_iff.mp hd).1
      change b < (s.heap ++ [s.newCell c id]).length at hlt
      rw [List.length_append, List.length_singleton] at hlt
      exact Nat.le_of_lt_succ hlt
    · obtain ⟨⟨d, hd, hdid⟩, hnewest⟩ := hs.table id' addr hring
      refine ⟨⟨d, getElem?_concat_left hd, hdid⟩, fun b d' hd' hid' => ?_⟩
      rcases of_getElem?_concat hd' with hold | ⟨-, rfl⟩
      · exact hnewest b d' hold hid'
      · exact absurd hid'.symm hid
  files f hf := by
    obtain ⟨hseq, d, hd⟩ := hs.files f hf
    exact ⟨hseq, d, getElem?_concat_left hd⟩
  once := hs.once
  taken n hn := by
    rcases hs.taken n hn with hwritten | hfailed | ⟨b, d, hd, hmem⟩
    · exact .inl hwritten
    · exact .inr (.inl hfailed)
    · exact .inr (.inr ⟨b, d, getElem?_concat_left hd, hmem⟩)

theorem Core.insertRing (hs : Core s) (c : Config) (id : GoString) : Core (s.insertRing c id) :=
  (hs.addRing c id).same (evicted_insertRing c s id).logs (evicted_insertRing c s id).kept

/-! ### The sections -/

inductive Section (c : Config) (s : LiveBuffer) : CallPC → LiveBuffer → CallPC → Prop
  | hit {entry addr} : s.rings.lookup entry.executionID = some addr →
      Section c s (.lookup entry) (s.touch addr) (.allow entry addr)
  | miss {entry} : Section c s (.lookup entry) s (.create entry)
  | other {entry addr} : s.rings.lookup entry.executionID = some addr →
      Section c s (.create entry) (s.touch addr) (.allow entry addr)
  | create {entry} : s.rings.lookup entry.executionID = none →
      Section c s (.create entry) (s.insertRing c entry.executionID) (.allow entry s.heap.length)
  | allow {entry addr} : Section c s (.allow entry addr) s (.append entry addr)
  | limit {entry addr} : Section c s (.allow entry addr) s (.dropped .rateLimit)
  | append {entry addr cell} : s.heap[addr]? = some cell →
      Section c s (.append entry addr) (s.appendTo entry addr)
        (if cell.ring.sealed then .schedule entry.executionID else .done)
  | find {id addr} : s.rings.lookup id = some addr →
      Section c s (.sealAfterGrace id) (s.markFound id addr) (.schedule id)
  | absent {id} : Section c s (.sealAfterGrace id) s .done
  | now {id} : Section c s (.schedule id) s (.sealLookup id true)
  | waits {id} : id ∈ s.pending → Section c s (.schedule id) s .done
  | wait {id} : Section c s (.schedule id) { s with pending := s.pending ++ [id] } .done
  | noRing {id warn} : s.rings.lookup id = none → Section c s (.sealLookup id warn) s .done
  | ring {id warn addr} : s.rings.lookup id = some addr →
      Section c s (.sealLookup id warn) s (.take id addr warn)
  | take {id warn addr cell} : s.heap[addr]? = some cell → cell.flight = none →
      Section c s (.take id addr warn)
        (s.takeFrom addr cell.ring.sealRing.1.1 cell.ring.sealRing.1.2) (.flush id addr warn)
  | reserve {id warn addr cell entries n} : s.heap[addr]? = some cell →
      cell.flight = some (.taken entries n) →
      Section c s (.flush id addr warn) (s.reserve id addr entries n) (.flush id addr warn)
  | write {id warn addr cell entries n seq} : s.heap[addr]? = some cell →
      cell.flight = some (.reserved entries n seq) →
      Section c s (.flush id addr warn) (s.write id addr entries n seq) (.flush id addr warn)
  | fail {id warn addr cell f} : s.heap[addr]? = some cell → cell.flight = some f →
      cell.marked = 0 →
      Section c s (.flush id addr warn) (s.fail addr f.entries) (afterFailure id warn)
  | mark {id warn addr cell n} : s.heap[addr]? = some cell → cell.flight = some (.written n) →
      Section c s (.flush id addr warn) (s.mark addr n) .done
  | noReset {id} : Section c s (.resetLookup id) s .done
  | toReset {id addr} : s.rings.lookup id = some addr →
      Section c s (.resetLookup id) s (.reset id addr)
  | reset {id addr cell} : s.heap[addr]? = some cell → cell.flight = none →
      Section c s (.reset id addr) (s.clear addr) .done
  | drain : Section c s .drain s.drain .done

theorem section_of_flush {id : GoString} {addr : ℕ} {warn choice : Bool} {cell : RingCell}
    {f : Flight} (hcell : s.heap[addr]? = some cell) (hflight : cell.flight = some f) :
    Section c s (.flush id addr warn) (s.executeFlush id addr warn choice f).1
      (s.executeFlush id addr warn choice f).2 := by
  cases f with
  | taken entries n =>
    cases choice with
    | true => exact .reserve hcell hflight
    | false => exact .fail hcell hflight (by rw [RingCell.marked, hflight])
  | reserved entries n seq =>
    cases choice with
    | true => exact .write hcell hflight
    | false => exact .fail hcell hflight (by rw [RingCell.marked, hflight])
  | written n => exact .mark hcell hflight

theorem section_of_execute {choice : Bool} {pc next : CallPC}
    (h : s.execute c choice pc = some (t, next)) : Section c s pc t next := by
  cases pc with
  | lookup entry =>
    cases hring : s.rings.lookup entry.executionID with
    | some addr =>
      simp only [execute, hring] at h
      cases h
      exact .hit hring
    | none =>
      simp only [execute, hring] at h
      cases h
      exact .miss
  | create entry =>
    cases hring : s.rings.lookup entry.executionID with
    | some addr =>
      simp only [execute, hring] at h
      cases h
      exact .other hring
    | none =>
      simp only [execute, hring] at h
      cases h
      exact .create hring
  | allow entry addr =>
    rw [execute] at h
    split_ifs at h
    · cases h
      exact .allow
    · cases h
      exact .limit
  | append entry addr =>
    obtain ⟨cell, hcell, hnext⟩ := Option.map_eq_some_iff.mp h
    rw [ExecutionRing.append_sealed] at hnext
    cases hnext
    exact .append hcell
  | sealAfterGrace id =>
    cases hring : s.rings.lookup id with
    | some addr =>
      simp only [execute, hring] at h
      cases h
      exact .find hring
    | none =>
      simp only [execute, hring] at h
      cases h
      exact .absent
  | schedule id =>
    rw [execute] at h
    split_ifs at h with hclosed hpending
    · cases h
      exact .now
    · cases h
      exact .waits hpending
    · cases h
      exact .wait
  | sealLookup id warn =>
    cases hring : s.rings.lookup id with
    | some addr =>
      simp only [execute, hring] at h
      cases h
      exact .ring hring
    | none =>
      simp only [execute, hring] at h
      cases h
      exact .noRing hring
  | take id addr warn =>
    obtain ⟨cell, hcell, hnext⟩ := Option.bind_eq_some_iff.mp h
    cases hflight : cell.flight with
    | some f =>
      rw [hflight] at hnext
      cases hnext
    | none =>
      rw [hflight] at hnext
      cases hnext
      exact .take hcell hflight
  | flush id addr warn =>
    obtain ⟨f, hf, hnext⟩ := Option.map_eq_some_iff.mp h
    obtain ⟨cell, hcell, hflight⟩ := Option.bind_eq_some_iff.mp hf
    have hsection : Section c s (.flush id addr warn) (s.executeFlush id addr warn choice f).1
        (s.executeFlush id addr warn choice f).2 := section_of_flush hcell hflight
    rw [hnext] at hsection
    exact hsection
  | resetLookup id =>
    cases hring : s.rings.lookup id with
    | some addr =>
      simp only [execute, hring] at h
      cases h
      exact .toReset hring
    | none =>
      simp only [execute, hring] at h
      cases h
      exact .noReset
  | reset id addr =>
    obtain ⟨cell, hcell, hnext⟩ := Option.bind_eq_some_iff.mp h
    cases hflight : cell.flight with
    | some f =>
      rw [hflight] at hnext
      cases hnext
    | none =>
      rw [hflight] at hnext
      cases hnext
      exact .reset hcell hflight
  | drain =>
    cases h
    exact .drain
  | dropped => cases h
  | done => cases h

end LiveBuffer
end Persatrix.LogBuffer
