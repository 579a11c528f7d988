import Persatrix.LogSealOwed

/-!
# Every entry is written once

In a run that loses no entry, what was appended to a ring that `SealAfterGrace` has found, or
after it, is in one file once the seals that were asked for have run, unless the ring has written
over it before a seal could take it, or the write of the seal that took it has failed.
-/
namespace Persatrix.LogBuffer

def CallPC.isDone : CallPC → Bool
  | .done => true
  | _ => false

namespace LiveBuffer

variable {c : Config} {s t u : LiveBuffer}

/-! ### The runs that lose nothing -/

theorem Running.owing_step {call : Call} {next : CallPC} {appended : Option Stamped}
    (h : Running c s u t call next appended) (hloses : ¬s.Loses call.next)
    (happended : appended = s.appendedBy call) : Owing t := by
  have hholds := h.pc
  have hstep := h.step
  have hcore := h.held.core
  generalize hpc : call.next = pc at hstep
  rw [hpc] at hholds
  have hne : (∀ id addr warn, pc ≠ .take id addr warn) →
      ∀ a id warn, call.next ≠ .take id a warn := by
    intro hne a id warn
    rw [hpc]
    exact hne id a warn
  have hsame : SameLogs s s := ⟨rfl, rfl, rfl, rfl, rfl, rfl, rfl⟩
  cases hstep with
  | hit hring =>
    obtain ⟨cell, hcell, -⟩ := hcore.ringOf hring
    exact h.touch hcell (hne (by simp))
  | other hring =>
    obtain ⟨cell, hcell, -⟩ := hcore.ringOf hring
    exact h.touch hcell (hne (by simp))
  | create hnone => exact h.insertRing (hne (by simp))
  | append hcell => exact Running.appendTo hcell h hpc hloses happended
  | find hring =>
    obtain ⟨cell, hcell, -⟩ := hcore.ringOf hring
    exact Running.markFound hcell hring h hpc happended
  | take hcell hflight => exact Running.takeFrom hcell hflight h hpc
  | @reserve id warn addr cell entries n hcell hflight =>
    have hstays : Stays s t cell (cell.reserve entries n (s.reserveSeq id)) :=
      Stays.of_eq (h.ran.logs.failed ▸ List.Subset.refl _) (h.ran.logs.files ▸ List.Subset.refl _)
        rfl rfl rfl (Accounted.border_reserve hflight _) rfl (by
          rw [RingCell.inFlight, RingCell.inFlight, hflight]
          rfl)
    exact h.changes (changes_reserve hcell id entries n)
      (h.stays hcell hstays fun warn => hne (by simp) addr _ warn)
      fun a id warn _ => hne (by simp) a id warn
  | write hcell hflight =>
    obtain rfl := Section.ringOf_eq (hholds _ _ rfl) hcell
    exact Running.write hcell hflight h (hne (by simp))
  | fail hcell hflight hmarked => exact Running.fail hcell hflight hmarked h (hne (by simp))
  | @mark id warn addr cell n hcell hflight =>
    have haccounted := (hcore.cell addr cell hcell).accounted
    have hstays : Stays s t cell (cell.mark n) :=
      Stays.of_eq (h.ran.logs.failed ▸ List.Subset.refl _) (h.ran.logs.files ▸ List.Subset.refl _)
        rfl rfl rfl (haccounted.border_mark hflight) rfl (by
          rw [RingCell.inFlight, RingCell.inFlight, hflight]
          rfl)
    exact h.changes (changes_same hcell (·.mark n) rfl)
      (h.stays hcell hstays fun warn => hne (by simp) addr _ warn)
      fun a id warn _ => hne (by simp) a id warn
  | @reset id addr cell hcell hflight =>
    refine Running.clear hcell hflight h (fun e he => ?_) (hne (by simp))
    have haccounted := (hcore.cell addr cell hcell).accounted
    rw [ExecutionRing.sealRing_entries cell.ring haccounted.coe_count.symm] at he
    by_contra hfailed
    rw [hpc] at hloses
    exact hloses ⟨cell, hcell, e, he, hfailed⟩
  | wait => exact h.same ⟨rfl, rfl, rfl, rfl, rfl, rfl, rfl⟩ (hne (by simp))
  | drain => exact h.same ⟨rfl, rfl, rfl, rfl, rfl, rfl, rfl⟩ (hne (by simp))
  | _ => exact h.same hsame (hne (by simp))

/-- What holds while no entry is lost. -/
structure Kept (s : LiveBuffer) : Prop where
  held : Held s
  sealing : Sealing s
  ordered : Ordered s
  owing : Owing s

theorem Owing.begins (hs : Owing s) (h : Begins s t) : Owing t := by
  intro a d hd
  rw [h.logs.heap] at hd
  have hat := hs a d hd
  refine ⟨fun hclaimed e he => ?_, ?_⟩
  · rw [h.logs.failed]
    have howed := hat.owed hclaimed e he
    exact howed.imp_right fun howed => howed.imp_right fun howed =>
      howed.imp_right fun howes => howes.begins h
  · rw [h.logs.files, h.logs.failed]
    exact hat.settled

theorem kept_start (warm : List WarmRing) (nextSeq : GoMap GoString ℕ) :
    Kept (start warm nextSeq) where
  held := held_start warm nextSeq
  sealing := by
    refine ⟨fun f hf => (by cases hf), ?_, fun f hf => (by cases hf), fun f hf => (by cases hf), ?_,
      ?_, ?_⟩
    · intro a d hd hclaimed
      obtain ⟨w, -, rfl⟩ := heap_start hd
      cases hclaimed
    · intro a d hd hclaimed
      obtain ⟨w, -, rfl⟩ := heap_start hd
      cases hclaimed
    · intro a d hd hclaimed
      obtain ⟨w, -, rfl⟩ := heap_start hd
      cases hclaimed
    · intro a b d₁ d₂ h₁ h₂ hclaimed
      obtain ⟨w, -, rfl⟩ := heap_start h₁
      cases hclaimed
  ordered := by
    refine ⟨?_, List.Pairwise.nil⟩
    intro a d hd hclaimed
    obtain ⟨w, -, rfl⟩ := heap_start hd
    cases hclaimed
  owing a d hd := by
    obtain ⟨w, -, rfl⟩ := heap_start hd
    exact ⟨fun hclaimed => (by cases hclaimed), fun e he => (by cases List.mem_of_mem_take he)⟩

theorem kept_of_reaches {warm : List WarmRing} {nextSeq : GoMap GoString ℕ}
    (h : (system c warm nextSeq).Reaches Lossless s) : Kept s := by
  apply h.invariant (kept_start warm nextSeq)
  intro s e t hs hlossless hstep
  rcases step_cases hstep with hbegins | ⟨k, choice, call, u, next, rfl, hcall, hsection, rfl⟩
  · exact ⟨hs.held.begins hbegins, hs.sealing.same hbegins.logs hbegins.rings,
      hs.ordered.same hbegins.logs, hs.owing.begins hbegins⟩
  · have hran := hsection.ran hcall (s.appendedBy call)
    have hpc := hs.held.holds call hran.before
    have hloses : ¬s.Loses call.next := hlossless call hcall
    have hrunning : Running c s u _ call next (s.appendedBy call) :=
      ⟨hs.held, hs.sealing, hs.owing, hran, hsection⟩
    exact ⟨hs.held.ran hsection hran,
      (hsection.sealing hs.sealing hs.held.core hpc hloses).same hran.logs hran.rings,
      (hsection.ordered hs.ordered hs.held.core hs.sealing hpc).same hran.logs,
      hrunning.owing_step hloses rfl⟩

/-! ### What was appended -/

/-- The call seals the execution, or has been asked to; an append that schedules a seal of its own
entry has not asked for it yet. -/
def asksFor (call : Call) (id : GoString) : Bool :=
  match call.next with
  | .schedule id' => id' = id && call.appended.isNone
  | .sealLookup id' _ => id' = id
  | .take id' _ _ => id' = id
  | .flush id' _ _ => id' = id
  | .resetLookup id' => id' = id
  | .reset id' _ => id' = id
  | _ => false

/-- Every seal of the execution that was requested has run. -/
def Quiet (s : LiveBuffer) (id : GoString) : Prop :=
  id ∉ s.pending ∧ ∀ call ∈ s.calls, asksFor call id = false

/-- The `Append` of the entry has returned `DropNone`. -/
def Returned (s : LiveBuffer) (e : Stamped) : Prop :=
  ∀ call ∈ s.calls, call.appended.map Stamped.stamp = some e.stamp → call.next.isDone = true

/-- The entry was appended to the ring that was found, or after that. -/
structure Covered (s : LiveBuffer) (f : Found) (addr : ℕ) (cell : RingCell) (e : Stamped) :
    Prop where
  heap : s.heap[addr]? = some cell
  executionID : cell.executionID = f.executionID
  history : e ∈ cell.history
  since : addr = f.addr ∨ f.since ≤ e.stamp

theorem Covered.claimed {f : Found} {addr : ℕ} {cell : RingCell} {e : Stamped}
    (h : s.Covered f addr cell e) (hs : Sealing s) (hf : f ∈ s.found) : cell.claimed = true := by
  rcases h.since with haddr | hle
  · obtain ⟨d, hd, hclaimed, -⟩ := hs.ring f hf
    rw [← haddr, h.heap] at hd
    exact Option.some.inj hd ▸ hclaimed
  · exact hs.since f hf addr cell h.heap h.executionID e h.history hle

/-- Nothing of an execution is in flight while no seal of it runs. -/
theorem Held.inFlight_eq_nil (hs : Held s) {addr : ℕ} {cell : RingCell}
    (hcell : s.heap[addr]? = some cell) (hquiet : s.Quiet cell.executionID) :
    cell.inFlight = [] := by
  cases hflight : cell.flight with
  | none => rw [RingCell.inFlight, hflight, Option.map_none, Option.getD_none]
  | some f =>
    obtain ⟨call, hcall, warn, hnext⟩ := hs.flights addr cell hcell (by simp [hflight])
    have hasks := hquiet.2 call hcall
    rw [asksFor, hnext] at hasks
    exact absurd rfl (of_decide_eq_false hasks)

theorem Owes.not_quiet {e : Stamped} {id : GoString} {addr : ℕ} (howes : s.Owes e id addr)
    (hquiet : s.Quiet id) (hreturned : s.Returned e) : False := by
  rcases howes with hpending | ⟨call, hcall, hserves⟩
  · exact hquiet.1 hpending
  have hasks := hquiet.2 call hcall
  have hdone := hreturned call hcall
  unfold Serves at hserves
  unfold asksFor at hasks
  cases hnext : call.next with
  | schedule id' =>
    rw [hnext] at hserves hasks hdone
    obtain ⟨rfl, hnone | hsome⟩ := hserves
    · rw [hnone] at hasks
      exact absurd rfl (of_decide_eq_false ((Bool.and_true _).symm.trans hasks))
    · have hisDone := hdone (by rw [hsome, Option.map_some])
      cases hisDone
  | sealLookup id' warn =>
    rw [hnext] at hserves hasks
    exact of_decide_eq_false hasks hserves
  | take id' addr' warn =>
    rw [hnext] at hserves hasks
    exact of_decide_eq_false hasks hserves.1
  | _ =>
    rw [hnext] at hserves
    cases hserves

/-- The ring has the entry no more. -/
theorem Accounted.not_mem_snapshot {addr : ℕ} {cell : RingCell} (h : CellOK s addr cell)
    {e : Stamped} (he : e ∈ cell.overwritten) : e ∉ cell.ring.snapshotLocked := by
  intro hsnapshot
  have hincreasing := h.increasing
  rw [← List.take_append_drop (cell.history.length - cell.ring.cap) cell.history,
    List.pairwise_append] at hincreasing
  have hlength := List.length_pos_of_mem he
  rw [RingCell.overwritten, List.length_take] at hlength
  have hdrop : (cell.loaded ++ cell.history).length - cell.ring.cap =
      cell.loaded.length + (cell.history.length - cell.ring.cap) := by
    rw [List.length_append]
    omega
  rw [h.accounted.snapshot, List.rtake, hdrop, List.drop_length_add_append] at hsnapshot
  exact absurd (hincreasing.2.2 e he e hsnapshot) (lt_irrefl _)

/-- An entry of a ring that is in a file is in a file of its execution. -/
theorem Core.file_of_written (hcore : Core s) {addr : ℕ} {cell : RingCell}
    (hcell : s.heap[addr]? = some cell) {e : Stamped} (he : e ∈ cell.history) {f : SequenceFile}
    (hf : f ∈ s.files) {e' : Stamped} (he' : e' ∈ f.entries) (hstamp : e'.stamp = e.stamp) :
    f.addr = addr ∧ f.executionID = cell.executionID ∧ e ∈ f.entries := by
  obtain ⟨-, d, hd⟩ := hcore.files f hf
  obtain ⟨hid, hsub⟩ := (hcore.cell _ d hd).filed f hf rfl
  have hmem := List.mem_of_mem_take (hsub.subset he')
  have haddr : f.addr = addr := by
    by_contra hne
    exact hcore.distinct _ _ d cell hd hcell hne e' hmem e he hstamp
  subst haddr
  obtain rfl := Option.some.inj (hcell.symm.trans hd)
  have hnodup : (cell.history.map Stamped.stamp).Nodup := by
    rw [List.Nodup, List.pairwise_map]
    exact (hcore.cell _ cell hcell).increasing.imp Nat.ne_of_lt
  have heq : e' = e := List.inj_on_of_nodup_map hnodup hmem he hstamp
  exact ⟨rfl, hid, heq ▸ he'⟩

/-! ### Every entry is written once -/

/-- What became of an entry. -/
def Persisted (s : LiveBuffer) (f : Found) (cell : RingCell) (e : Stamped) : Prop :=
  (∃ file ∈ s.files, file.executionID = f.executionID ∧ e ∈ file.entries) ∨
    e.stamp ∈ s.failed ∨ e.stamp ∉ s.taken ∧ e ∉ cell.ring.snapshotLocked

theorem Kept.persisted (hs : Kept s) {f : Found} (hf : f ∈ s.found)
    (hquiet : s.Quiet f.executionID) {addr : ℕ} {cell : RingCell} {e : Stamped}
    (hcovered : s.Covered f addr cell e) (hreturned : s.Returned e) : s.Persisted f cell e := by
  have hcore := hs.held.core
  have hcell := hcovered.heap
  have hat := hs.owing addr cell hcell
  have hquiet : s.Quiet cell.executionID := hcovered.executionID ▸ hquiet
  have hfile : ∀ {file : SequenceFile}, file ∈ s.files → ∀ {e' : Stamped}, e' ∈ file.entries →
      e'.stamp = e.stamp → s.Persisted f cell e := by
    intro file hfile e' he' hstamp
    obtain ⟨-, hid, hmem⟩ := hcore.file_of_written hcell hcovered.history hfile he' hstamp
    exact .inl ⟨file, hfile, hid.trans hcovered.executionID, hmem⟩
  have hover : e ∈ cell.overwritten → s.Persisted f cell e := by
    intro hover
    by_cases htaken : e.stamp ∈ s.taken
    · rcases hcore.taken _ htaken with hwritten | hfailed | ⟨b, d, hd, hmem⟩
      · obtain ⟨e', he', hstamp⟩ := List.mem_map.mp hwritten
        obtain ⟨file, hin, hmem⟩ := List.mem_flatMap.mp he'
        exact hfile hin hmem hstamp
      · exact .inr (.inl hfailed)
      · -- what is in flight was appended to the ring it is of
        obtain ⟨e', he', hstamp⟩ := List.mem_map.mp hmem
        have hsegment : e' ∈ d.history := by
          cases hflight : d.flight with
          | none =>
            rw [RingCell.inFlight, hflight] at he'
            cases he'
          | some flight =>
            rw [RingCell.inFlight, hflight] at he'
            have hok := (hcore.cell b d hd).accounted.flight flight hflight
            cases flight with
            | taken => exact CellOK.mem_history_of_segment (hok.sublist.subset he')
            | reserved => exact CellOK.mem_history_of_segment (hok.sublist.subset he')
            | written => cases he'
        have hb : b = addr := by
          by_contra hne
          exact hcore.distinct b addr d cell hd hcell hne e' hsegment e hcovered.history hstamp
        subst hb
        obtain rfl := Option.some.inj (hcell.symm.trans hd)
        rw [hs.held.inFlight_eq_nil hcell hquiet] at he'
        cases he'
    · exact .inr (.inr ⟨htaken, Accounted.not_mem_snapshot (hcore.cell addr cell hcell) hover⟩)
  have hsplit := hcovered.history
  rw [← List.take_append_drop cell.border cell.history, List.mem_append] at hsplit
  rcases hsplit with hsettled | howed
  · rcases hat.settled e hsettled with ⟨file, hin, hmem⟩ | hfailed | hlost
    · exact hfile hin hmem rfl
    · exact .inr (.inl hfailed)
    · exact hover hlost
  · rcases hat.owed (hcovered.claimed hs.sealing hf) e howed with hlost | hfailed | hflight | howes
    · exact hover hlost
    · exact .inr (.inl hfailed)
    · rw [hs.held.inFlight_eq_nil hcell hquiet] at hflight
      cases hflight
    · exact absurd hreturned fun hreturned => howes.not_quiet hquiet hreturned

theorem before_or_eq {files : List SequenceFile} {related : SequenceFile → SequenceFile → Prop}
    (h : files.Pairwise fun f g => related f g → Before f g)
    (hsymm : ∀ f g, related f g → related g f) {f g : SequenceFile} (hf : f ∈ files)
    (hg : g ∈ files) (hrelated : related f g) : f = g ∨ Before f g ∨ Before g f := by
  induction files with
  | nil => cases hf
  | cons x files ih =>
    rw [List.pairwise_cons] at h
    rcases List.mem_cons.mp hf with rfl | hfrest
    · rcases List.mem_cons.mp hg with rfl | hgrest
      · exact .inl rfl
      · exact .inr (.inl (h.1 g hgrest hrelated))
    · rcases List.mem_cons.mp hg with rfl | hgrest
      · exact .inr (.inr (h.1 f hfrest (hsymm f _ hrelated)))
      · exact ih h.2 hfrest hgrest

/-- Two entries are in one file, or in files that are numbered as they were appended. -/
theorem Kept.in_order (hs : Kept s) {f : Found} (hf : f ∈ s.found) {a b : ℕ}
    {cell cell' : RingCell} {e e' : Stamped} (hcovered : s.Covered f a cell e)
    (hcovered' : s.Covered f b cell' e') (hlt : e.stamp < e'.stamp) {g g' : SequenceFile}
    (hg : g ∈ s.files) (hg' : g' ∈ s.files) (he : e ∈ g.entries) (he' : e' ∈ g'.entries) :
    g = g' ∨ g.seq < g'.seq := by
  have hcore := hs.held.core
  obtain ⟨haddr, hid, -⟩ := hcore.file_of_written hcovered.heap hcovered.history hg he rfl
  obtain ⟨haddr', hid', -⟩ := hcore.file_of_written hcovered'.heap hcovered'.history hg' he' rfl
  have hclaimed : s.Claimed g.addr :=
    ⟨cell, haddr ▸ hcovered.heap, hcovered.claimed hs.sealing hf⟩
  have hclaimed' : s.Claimed g'.addr :=
    ⟨cell', haddr' ▸ hcovered'.heap, hcovered'.claimed hs.sealing hf⟩
  have hids : g.executionID = g'.executionID := by
    rw [hid, hid', hcovered.executionID, hcovered'.executionID]
  have hsymm : ∀ x y, s.Related x y → s.Related y x := by
    intro x y hrelated
    exact hrelated.imp Eq.symm fun ⟨h, hx, hy⟩ => ⟨h.symm, hy, hx⟩
  rcases before_or_eq hs.ordered.order hsymm hg hg' (.inr ⟨hids, hclaimed, hclaimed'⟩) with
    rfl | hbefore | hafter
  · exact .inl rfl
  · exact .inr hbefore.seq
  · exact absurd (hafter.stamps e' he' e he) (Nat.lt_asymm hlt)

theorem Core.sorted (hcore : Core s) {file : SequenceFile} (hfile : file ∈ s.files) :
    file.entries.Pairwise fun e e' => e.stamp < e'.stamp := by
  obtain ⟨-, d, hd⟩ := hcore.files file hfile
  have hok := hcore.cell _ d hd
  exact hok.increasing.sublist ((hok.filed file hfile rfl).2.trans (List.take_sublist _ _))

/-- No count is negative and nothing is written twice; and in a run that loses no entry, each one
that a seal of `SealAfterGrace` is for is written, in the order of the appends. -/
theorem entries_written_once {warm : List WarmRing} {nextSeq : GoMap GoString ℕ}
    (h : (system c warm nextSeq).Reachable s) :
    (∀ cell ∈ s.heap, 0 ≤ cell.ring.unflushed) ∧ (s.written.map Stamped.stamp).Nodup ∧
    (∀ file ∈ s.files, file.entries.Pairwise fun e e' => e.stamp < e'.stamp) ∧
    ((system c warm nextSeq).Reaches Lossless s → ∀ f ∈ s.found, s.Quiet f.executionID →
      (∀ addr cell e, s.Covered f addr cell e → s.Returned e → s.Persisted f cell e) ∧
      ∀ a b cell cell' e e', s.Covered f a cell e → s.Covered f b cell' e' → e.stamp < e'.stamp →
        ∀ g ∈ s.files, ∀ g' ∈ s.files, e ∈ g.entries → e' ∈ g'.entries →
          g = g' ∨ g.seq < g'.seq) := by
  have hheld := held_of_reachable h
  have hcore := hheld.core
  refine ⟨fun cell hcell => ?_, hcore.once, fun file hfile => hcore.sorted hfile, ?_⟩
  · obtain ⟨addr, haddr⟩ := List.getElem?_of_mem hcell
    exact (hcore.cell addr cell haddr).accounted.nonneg
  · intro hreaches f hf hquiet
    have hs := kept_of_reaches hreaches
    refine ⟨fun addr cell e hcovered hreturned => hs.persisted hf hquiet hcovered hreturned, ?_⟩
    intro a b cell cell' e e' hcovered hcovered' hlt g hg g' hg' he he'
    exact hs.in_order hf hcovered hcovered' hlt hg hg' he he'

/-! ### Runs -/

/-- The entry has been appended to the ring that was found, and is nowhere. -/
def Missing (s : LiveBuffer) (f : Found) (cell : RingCell) (e : Stamped) : Prop :=
  s.Quiet f.executionID ∧ cell.executionID = f.executionID ∧ s.Returned e ∧
    e.stamp ∉ s.written.map Stamped.stamp ∧ e.stamp ∉ s.failed ∧ e.stamp ∉ s.taken ∧
    e.stamp ∈ cell.ring.snapshotLocked.map Stamped.stamp

instance (s : LiveBuffer) (id : GoString) : Decidable (s.Quiet id) :=
  haveI : Decidable (id ∈ s.pending) := decidable_of_iff (∃ x ∈ s.pending, x = id) (by simp)
  inferInstanceAs (Decidable (_ ∧ _))

instance (s : LiveBuffer) (e : Stamped) : Decidable (s.Returned e) := by
  unfold Returned
  infer_instance

instance (s : LiveBuffer) (f : Found) (cell : RingCell) (e : Stamped) :
    Decidable (Missing s f cell e) := by
  unfold Missing
  infer_instance

instance (s : LiveBuffer) (pc : CallPC) : Decidable (s.Loses pc) := by
  unfold Loses WasFound SealedRing
  cases pc <;> infer_instance

instance (s : LiveBuffer) (e : LogEvent) : Decidable (s.Lossless e) := by
  unfold Lossless
  cases e <;> infer_instance

/-- One ring at a time, of two entries. -/
def oneRing : Config := ⟨2, Nat.two_pos, 1, ascii "INFO", id⟩

def line (executionID : String) : Entry :=
  { Entry.zero with level := ascii "ERROR", executionID := ascii executionID }

/-- The sections of a call, the choices all good. -/
def runs (k n : ℕ) : List LogEvent := List.replicate n (.run k true)

/-- A late append holds the ring of `x` while what it had is written and the ring is evicted. -/
def lateAppend : List LogEvent :=
  [.append (line "x")] ++ runs 0 4 ++ [.sealAfterGrace (ascii "x")] ++ runs 1 2 ++
    [.append (line "x")] ++ runs 2 2 ++ [.fire (ascii "x")] ++ runs 3 5 ++
    [.append (line "y")] ++ runs 4 4 ++ runs 2 2 ++ [.fire (ascii "x")] ++ runs 5 1

/-- A late append comes while the write of what the ring had is under way, and the write fails. -/
def failedWrite : List LogEvent :=
  [.append (line "x")] ++ runs 0 4 ++ [.sealAfterGrace (ascii "x")] ++ runs 1 2 ++
    [.fire (ascii "x")] ++ runs 2 2 ++ [.append (line "x")] ++ runs 3 4 ++
    [.run 2 false] ++ runs 2 2 ++ [.fire (ascii "x")] ++ runs 4 3

theorem late_entries_lost :
    (∃ s, (system oneRing [] ∅).exec lateAppend = some s ∧
      ∃ f ∈ s.found, ∃ cell ∈ s.heap[f.addr]?, ∃ e ∈ cell.history, s.Missing f cell e) ∧
    ∃ s, (system oneRing [] ∅).exec failedWrite = some s ∧
      ∃ f ∈ s.found, ∃ cell ∈ s.heap[f.addr]?, ∃ e ∈ cell.history, s.Missing f cell e := by
  refine ⟨System.exists_of_exec ?_, System.exists_of_exec ?_⟩
  · decide
  · decide

/-- A late append comes while what the ring had is written. -/
def lateSeal : List LogEvent :=
  [.append (line "x")] ++ runs 0 4 ++ [.sealAfterGrace (ascii "x")] ++ runs 1 2 ++
    [.append (line "x")] ++ runs 2 2 ++ [.fire (ascii "x")] ++ runs 3 3 ++ runs 2 2 ++ runs 3 2 ++
    [.fire (ascii "x")] ++ runs 4 5

theorem entries_written_once_late :
    ∃ s, ((system oneRing [] ∅).guarded Lossless).exec lateSeal = some s ∧
      (s.written.map Stamped.stamp).Nodup ∧ ∃ f ∈ s.found, ∃ cell ∈ s.heap[f.addr]?,
        cell.history.length = 2 ∧ ∀ e ∈ cell.history, s.Persisted f cell e := by
  obtain ⟨s, hexec, f, hf, hquiet, cell, hcell, hid, hlength, hreturned⟩ :
      ∃ s, ((system oneRing [] ∅).guarded Lossless).exec lateSeal = some s ∧
        ∃ f ∈ s.found, s.Quiet f.executionID ∧ ∃ cell ∈ s.heap[f.addr]?,
          cell.executionID = f.executionID ∧ cell.history.length = 2 ∧
            ∀ e ∈ cell.history, s.Returned e := System.exists_of_exec (by decide)
  have hreaches := System.Reachable.of_guarded (System.reachable_exec hexec)
  obtain ⟨-, honce, -, hkept⟩ := entries_written_once (hreaches.mono fun _ _ _ => trivial)
  have hpersisted := (hkept hreaches f hf hquiet).1
  exact ⟨s, hexec, honce, f, hf, cell, hcell, hlength, fun e he =>
    hpersisted f.addr cell e ⟨hcell, hid, he, .inl rfl⟩ (hreturned e he)⟩

end LiveBuffer
end Persatrix.LogBuffer
