import Persatrix.LogSealClaimed

/-!
# The order of the files

The files of one ring are numbered in the order in which its entries were appended, and so are
those of the claimed rings of an execution.
-/
namespace Persatrix.LogBuffer
namespace LiveBuffer

variable {c : Config} {s t u : LiveBuffer}

def Claimed (s : LiveBuffer) (addr : ℕ) : Prop :=
  ∃ cell, s.heap[addr]? = some cell ∧ cell.claimed = true

/-- The files of one ring, or of two claimed rings of one execution. -/
def Related (s : LiveBuffer) (f g : SequenceFile) : Prop :=
  f.addr = g.addr ∨ f.executionID = g.executionID ∧ s.Claimed f.addr ∧ s.Claimed g.addr

structure Before (f g : SequenceFile) : Prop where
  seq : f.seq < g.seq
  stamps : ∀ e ∈ f.entries, ∀ e' ∈ g.entries, e.stamp < e'.stamp

structure Ordered (s : LiveBuffer) : Prop where
  reserved : ∀ (addr : ℕ) (cell : RingCell), s.heap[addr]? = some cell → cell.claimed = true →
    ∀ entries n seq, cell.flight = some (.reserved entries n seq) → ∀ f ∈ s.files,
      f.addr ≠ addr → f.executionID = cell.executionID → s.Claimed f.addr → f.seq < seq
  order : s.files.Pairwise fun f g => s.Related f g → Before f g

theorem Ordered.like (hs : Ordered s) (hfiles : t.files = s.files)
    (hclaimed : ∀ f ∈ s.files, t.Claimed f.addr → s.Claimed f.addr)
    (hreserved : ∀ (a : ℕ) (d' : RingCell), t.heap[a]? = some d' → d'.claimed = true →
      ∀ entries n seq, d'.flight = some (.reserved entries n seq) → ∃ d, s.heap[a]? = some d ∧
        d.claimed = true ∧ d.executionID = d'.executionID ∧
        d.flight = some (.reserved entries n seq)) : Ordered t where
  reserved a d' hd' hclaimed' entries n seq hflight f hf hne hid hfclaimed := by
    obtain ⟨d, hd, hdclaimed, hdid, hdflight⟩ := hreserved a d' hd' hclaimed' entries n seq hflight
    rw [hfiles] at hf
    exact hs.reserved a d hd hdclaimed entries n seq hdflight f hf hne (hid.trans hdid.symm)
      (hclaimed f hf hfclaimed)
  order := by
    rw [hfiles]
    refine hs.order.imp_of_mem fun {f g} hf hg hbefore hrelated => hbefore ?_
    exact hrelated.imp_right fun ⟨hid, hfc, hgc⟩ => ⟨hid, hclaimed f hf hfc, hclaimed g hg hgc⟩

theorem Ordered.same (hs : Ordered s) (h : SameLogs s t) : Ordered t := by
  apply hs.like h.files
  · intro f hf hclaimed
    rwa [Claimed, h.heap] at hclaimed
  · intro a d hd hclaimed entries n seq hflight
    exact ⟨d, h.heap ▸ hd, hclaimed, rfl, hflight⟩

/-- A section that reserves no number and writes no file. -/
theorem Ordered.changes (hs : Ordered s) {addr : ℕ} {cell cell' : RingCell}
    (h : Changes s t addr cell cell') (hfiles : t.files = s.files)
    (hclaimed : cell'.claimed = cell.claimed)
    (hflight : ∀ entries n seq, cell'.flight = some (.reserved entries n seq) →
      cell.flight = some (.reserved entries n seq)) : Ordered t := by
  apply hs.like hfiles
  · rintro f hf ⟨d, hd, hdclaimed⟩
    rcases h.found hd with ⟨haddr, rfl⟩ | ⟨-, hold⟩
    · exact ⟨cell, haddr ▸ h.before, hclaimed ▸ hdclaimed⟩
    · exact ⟨d, hold, hdclaimed⟩
  · intro a d hd hdclaimed entries n seq hdflight
    rcases h.found hd with ⟨rfl, rfl⟩ | ⟨-, hold⟩
    · exact ⟨cell, h.before, hclaimed ▸ hdclaimed, h.executionID.symm, hflight _ _ _ hdflight⟩
    · exact ⟨d, hold, hdclaimed, rfl, hdflight⟩

theorem Core.file_id (hcore : Core s) {f : SequenceFile} (hf : f ∈ s.files) {cell : RingCell}
    (hcell : s.heap[f.addr]? = some cell) : f.executionID = cell.executionID :=
  ((hcore.cell _ cell hcell).filed f hf rfl).1

/-- A claimed ring that counts entries is the one of the table. -/
theorem Sealing.inTable (hsealing : Sealing s) {addr : ℕ} {cell : RingCell}
    (hcell : s.heap[addr]? = some cell) (hclaimed : cell.claimed = true)
    (hpos : 0 < cell.ring.unflushed) : s.rings.lookup cell.executionID = some addr :=
  (hsealing.dropped addr cell hcell hclaimed).resolve_right (not_le.mpr hpos)

theorem unflushed_pos {cell : RingCell} {entries : List Stamped} {n : ℤ}
    (htaken : TakenFrom cell entries n) (hne : entries ≠ []) : 0 < cell.ring.unflushed := by
  have hpos : 0 < n := by
    by_contra hle
    have hsegment : cell.segment n = [] := by
      rw [RingCell.segment, Int.toNat_of_nonpos (not_lt.mp hle), List.take_zero]
    have hsub := htaken.sublist
    rw [hsegment, List.sublist_nil] at hsub
    exact hne hsub
  exact hpos.trans_le htaken.le

theorem Ordered.reserve (hs : Ordered s) (hcore : Core s) {addr : ℕ} {cell : RingCell}
    (hcell : s.heap[addr]? = some cell) {entries : List Stamped} {n : ℤ} :
    Ordered (s.reserve cell.executionID addr entries n) := by
  have hchanges := changes_reserve hcell cell.executionID entries n
  have hclaimed : ∀ f ∈ s.files, (s.reserve cell.executionID addr entries n).Claimed f.addr →
      s.Claimed f.addr := by
    rintro f hf ⟨d, hd, hdclaimed⟩
    rcases hchanges.found hd with ⟨haddr, rfl⟩ | ⟨-, hold⟩
    · exact ⟨cell, haddr ▸ hcell, hdclaimed⟩
    · exact ⟨d, hold, hdclaimed⟩
  refine ⟨?_, ?_⟩
  · intro a d hd hdclaimed entries' n' seq hflight f hf hne hid hfclaimed
    rcases hchanges.found hd with ⟨rfl, rfl⟩ | ⟨-, hold⟩
    · cases hflight
      have hlt := (hcore.files f hf).1
      rwa [show f.executionID = cell.executionID from hid] at hlt
    · exact hs.reserved a d hold hdclaimed entries' n' seq hflight f hf hne hid
        (hclaimed f hf hfclaimed)
  · refine hs.order.imp_of_mem fun {f g} hf hg hbefore hrelated => hbefore ?_
    exact hrelated.imp_right fun ⟨hid, hfc, hgc⟩ => ⟨hid, hclaimed f hf hfc, hclaimed g hg hgc⟩

theorem Ordered.write (hs : Ordered s) (hcore : Core s) (hsealing : Sealing s) {addr : ℕ}
    {cell : RingCell} (hcell : s.heap[addr]? = some cell) {entries : List Stamped} {n : ℤ}
    {seq : ℕ} (hflight : cell.flight = some (.reserved entries n seq)) :
    Ordered (s.write cell.executionID addr entries n seq) := by
  have hok := hcore.cell addr cell hcell
  have htaken : TakenFrom cell entries n := hok.accounted.flight _ hflight
  obtain ⟨hne, hseq, hbelow⟩ := hok.flights _ hflight
  have hchanges := changes_write hcell entries n hseq
  have hpos := unflushed_pos htaken hne
  have hclaimed : ∀ {a}, (s.write cell.executionID addr entries n seq).Claimed a → s.Claimed a := by
    rintro a ⟨d, hd, hdclaimed⟩
    rcases hchanges.found hd with ⟨rfl, rfl⟩ | ⟨-, hold⟩
    · exact ⟨cell, hcell, hdclaimed⟩
    · exact ⟨d, hold, hdclaimed⟩
  refine ⟨?_, ?_⟩
  · intro a d hd hdclaimed entries' n' seq' hdflight f hf hfne hid hfclaimed
    rcases hchanges.found hd with ⟨rfl, rfl⟩ | ⟨hane, hold⟩
    · cases hdflight
    · rcases List.mem_append.mp hf with hf | hf
      · exact hs.reserved a d hold hdclaimed entries' n' seq' hdflight f hf hfne hid
          (hclaimed hfclaimed)
      · -- two claimed rings with something in flight are both the one of the table
        rw [List.mem_singleton] at hf
        subst hf
        obtain ⟨cell', hcell', hcclaimed⟩ := hclaimed hfclaimed
        obtain rfl := Option.some.inj (hcell.symm.trans hcell')
        have hdok := hcore.cell a d hold
        have hdpos := unflushed_pos (hdok.accounted.flight _ hdflight) (hdok.flights _ hdflight).1
        have hring := hsealing.inTable hcell hcclaimed hpos
        have hdring := hsealing.inTable hold hdclaimed hdpos
        have hdid : cell.executionID = d.executionID := hid
        rw [← hdid, hring] at hdring
        exact absurd (Option.some.inj hdring) hane
  · change (s.files ++ [_]).Pairwise _
    rw [List.pairwise_append]
    refine ⟨?_, List.pairwise_singleton _ _, ?_⟩
    · refine hs.order.imp fun {f g} hbefore hrelated => hbefore ?_
      exact hrelated.imp_right fun ⟨hid, hfc, hgc⟩ => ⟨hid, hclaimed hfc, hclaimed hgc⟩
    · intro f hf g hg hrelated
      rw [List.mem_singleton] at hg
      subst hg
      obtain ⟨-, d, hd⟩ := hcore.files f hf
      have hfiled := ((hcore.cell _ d hd).filed f hf rfl).2
      by_cases haddr : f.addr = addr
      · subst haddr
        obtain rfl := Option.some.inj (hcell.symm.trans hd)
        exact ⟨hbelow f hf rfl, fun e he e' he' =>
          hok.lt_segment (hfiled.subset he) (htaken.sublist.subset he')⟩
      · obtain ⟨hid, hfc, hgc⟩ := hrelated.resolve_left haddr
        obtain ⟨cell', hcell', hcclaimed⟩ := hclaimed hgc
        obtain rfl := Option.some.inj (hcell.symm.trans hcell')
        obtain ⟨d', hd', hdclaimed⟩ := hclaimed hfc
        obtain rfl := Option.some.inj (hd.symm.trans hd')
        have hdid : d.executionID = cell.executionID := (hcore.file_id hf hd).symm.trans hid
        have hring := hsealing.inTable hcell hcclaimed hpos
        have hle := (hcore.table _ _ hring).2 _ d hd hdid
        refine ⟨hs.reserved addr cell hcell hcclaimed entries n seq hflight f hf haddr hid
          (hclaimed hfc), fun e he e' he' => ?_⟩
        have hborn := hsealing.later _ _ d cell hd hcell hdclaimed hcclaimed hdid
          (lt_of_le_of_ne hle haddr) e (List.mem_of_mem_take (hfiled.subset he))
        exact hborn.trans_le
          (hok.stamps e' (CellOK.mem_history_of_segment (htaken.sublist.subset he'))).1

theorem Ordered.markFound (hs : Ordered s) (hcore : Core s) (hsealing : Sealing s) {addr : ℕ}
    {cell : RingCell} {id : GoString} (hring : s.rings.lookup id = some addr)
    (hcell : s.heap[addr]? = some cell) : Ordered (s.markFound id addr) := by
  have hchanges := changes_markFound hcell id
  have hid : cell.executionID = id := Section.ringOf_eq (hcore.ringOf hring) hcell
  cases hwas : cell.claimed with
  | true => exact hs.changes hchanges rfl hwas.symm fun _ _ _ hflight => hflight
  | false =>
    -- no other ring of the execution is claimed
    have hnone : ∀ {a d}, (s.markFound id addr).heap[a]? = some d → d.claimed = true →
        d.executionID = id → a = addr := by
      intro a d hd hclaimed hdid
      rcases hchanges.found hd with ⟨rfl, rfl⟩ | ⟨-, hold⟩
      · rfl
      · obtain ⟨f, hf, hfid⟩ := hsealing.origin a d hold hclaimed
        have hclaimed := hsealing.table f hf addr cell ((hfid.trans hdid) ▸ hring) hcell
        rw [hwas] at hclaimed
        cases hclaimed
    have hfile : ∀ {f}, f ∈ s.files → (s.markFound id addr).Claimed f.addr →
        f.executionID = id → f.addr = addr := by
      rintro f hf ⟨d, hd, hclaimed⟩ hfid
      apply hnone hd hclaimed
      rcases hchanges.found hd with ⟨haddr, rfl⟩ | ⟨-, hold⟩
      · exact hid
      · exact (hcore.file_id hf hold).symm.trans hfid
    refine ⟨?_, ?_⟩
    · intro a d hd hclaimed entries n seq hflight f hf hne hfid hfclaimed
      rcases hchanges.found hd with ⟨rfl, rfl⟩ | ⟨-, hold⟩
      · exact absurd (hfile hf hfclaimed (hfid.trans hid)) hne
      · obtain ⟨d', hd', hd'claimed⟩ := hfclaimed
        rcases hchanges.found hd' with ⟨haddr, rfl⟩ | ⟨-, hold'⟩
        · have hdid : d.executionID = id :=
            hfid.symm.trans ((hcore.file_id hf (haddr ▸ hcell)).trans hid)
          exact absurd (haddr.symm.trans (hnone hd hclaimed hdid).symm) hne
        · exact hs.reserved a d hold hclaimed entries n seq hflight f hf hne hfid
            ⟨d', hold', hd'claimed⟩
    · refine hs.order.imp_of_mem fun {f g} hf hg hbefore hrelated => hbefore ?_
      rcases hrelated with haddr | ⟨hfg, hfc, hgc⟩
      · exact .inl haddr
      · by_cases hfid : f.executionID = id
        · exact .inl ((hfile hf hfc hfid).trans (hfile hg hgc (hfg.symm.trans hfid)).symm)
        · have hold : ∀ {h : SequenceFile}, h ∈ s.files → h.executionID ≠ id →
              (s.markFound id addr).Claimed h.addr → s.Claimed h.addr := by
            rintro h hh hne ⟨d, hd, hclaimed⟩
            rcases hchanges.found hd with ⟨haddr, rfl⟩ | ⟨-, hold⟩
            · exact absurd ((hcore.file_id hh (haddr ▸ hcell)).trans hid) hne
            · exact ⟨d, hold, hclaimed⟩
          exact .inr ⟨hfg, hold hf hfid hfc, hold hg (fun hgid => hfid (hfg.trans hgid)) hgc⟩

theorem Ordered.insertRing (hs : Ordered s) (hcore : Core s) (id : GoString) :
    Ordered (s.insertRing c id) := by
  have hlogs := (evicted_insertRing c s id).logs
  have hfiles : (s.addRing c id).files = s.files := rfl
  refine Ordered.same ?_ hlogs
  apply hs.like hfiles
  · rintro f hf ⟨d, hd, hclaimed⟩
    rcases of_getElem?_concat hd with hold | ⟨haddr, -⟩
    · exact ⟨d, hold, hclaimed⟩
    · obtain ⟨-, d', hd'⟩ := hcore.files f hf
      exact absurd (List.getElem?_eq_some_iff.mp hd').1 (haddr ▸ lt_irrefl _)
  · intro a d hd hclaimed entries n seq hflight
    rcases of_getElem?_concat hd with hold | ⟨rfl, rfl⟩
    · exact ⟨d, hold, hclaimed, rfl, hflight⟩
    · cases hflight

theorem Section.ordered {pc next : CallPC} (hs : Ordered s) (hcore : Core s) (hsealing : Sealing s)
    (hpc : ∀ id addr, pc.held = some (id, addr) → s.RingOf id addr)
    (h : Section c s pc t next) : Ordered t := by
  cases h with
  | hit hring =>
    obtain ⟨cell, hcell, -⟩ := hcore.ringOf hring
    exact hs.changes (changes_touch hcell) rfl rfl fun _ _ _ hflight => hflight
  | other hring =>
    obtain ⟨cell, hcell, -⟩ := hcore.ringOf hring
    exact hs.changes (changes_touch hcell) rfl rfl fun _ _ _ hflight => hflight
  | create hnone => exact hs.insertRing hcore _
  | append hcell =>
    exact hs.changes (changes_appendTo hcell _) rfl rfl fun _ _ _ hflight => hflight
  | find hring =>
    obtain ⟨cell, hcell, -⟩ := hcore.ringOf hring
    exact hs.markFound hcore hsealing hring hcell
  | @take id warn addr cell hcell hflight =>
    refine hs.changes (changes_takeFrom hcell _ _) rfl rfl fun _ _ _ hreserved => ?_
    unfold RingCell.take at hreserved
    cases hempty : cell.ring.sealRing.1.1.isEmpty <;> rw [hempty] at hreserved <;>
      cases hreserved
  | reserve hcell hflight =>
    obtain rfl := ringOf_eq (hpc _ _ rfl) hcell
    exact hs.reserve hcore hcell
  | write hcell hflight =>
    obtain rfl := ringOf_eq (hpc _ _ rfl) hcell
    exact hs.write hcore hsealing hcell hflight
  | fail hcell hflight hmarked =>
    exact hs.changes (changes_fail hcell _) rfl rfl fun _ _ _ hreserved => (by cases hreserved)
  | @mark id warn addr cell n hcell hflight =>
    exact hs.changes (changes_same hcell (·.mark n) rfl) rfl rfl
      fun _ _ _ hreserved => (by cases hreserved)
  | reset hcell hflight =>
    exact hs.changes (changes_same hcell RingCell.clear rfl) rfl rfl
      fun _ _ _ hreserved => hreserved
  | wait => exact hs.same ⟨rfl, rfl, rfl, rfl, rfl, rfl, rfl⟩
  | drain => exact hs.same ⟨rfl, rfl, rfl, rfl, rfl, rfl, rfl⟩
  | _ => exact hs

end LiveBuffer
end Persatrix.LogBuffer
