import Persatrix.LogSealOrder

/-!
# The entries that are owed

An entry of a claimed ring that is counted as not written has been written over, or is in flight,
or a seal for its execution is still to come. The other entries of a ring are settled.
-/
namespace Persatrix.LogBuffer
namespace LiveBuffer

variable {c : Config} {s t u : LiveBuffer}

/-- The call will take what the ring has, an entry included that it has put into it. -/
def Serves (call : Call) (e : Stamped) (id : GoString) (addr : ℕ) : Prop :=
  match call.next with
  | .schedule id' => id' = id ∧ (call.appended = none ∨ call.appended = some e)
  | .sealLookup id' _ => id' = id
  | .take id' addr' _ => id' = id ∧ addr' = addr
  | _ => False

def Owes (s : LiveBuffer) (e : Stamped) (id : GoString) (addr : ℕ) : Prop :=
  id ∈ s.pending ∨ ∃ call ∈ s.calls, Serves call e id addr

structure OwingAt (s : LiveBuffer) (addr : ℕ) (cell : RingCell) : Prop where
  owed : cell.claimed = true → ∀ e ∈ cell.history.drop cell.border, e ∈ cell.overwritten ∨
    e.stamp ∈ s.failed ∨ e ∈ cell.inFlight ∨ s.Owes e cell.executionID addr
  settled : AllSettled s.files s.failed cell

def Owing (s : LiveBuffer) : Prop :=
  ∀ (addr : ℕ) (cell : RingCell), s.heap[addr]? = some cell → s.OwingAt addr cell

theorem Owes.begins {e : Stamped} {id : GoString} {addr : ℕ} (h : s.Owes e id addr)
    (hbegins : Begins s t) : t.Owes e id addr := by
  rcases h with hpending | ⟨call, hcall, hserves⟩
  · rcases hbegins.waits id hpending with hwaits | hcall
    · exact .inl hwaits
    · exact .inr ⟨_, hcall, rfl⟩
  · exact .inr ⟨call, hbegins.calls hcall, hserves⟩

/-- Only a call that takes the entries of the ring is not followed by another one. -/
theorem Owes.ran {e : Stamped} {id : GoString} {addr : ℕ} {call : Call} {next : CallPC}
    {appended : Option Stamped} (h : s.Owes e id addr) (hring : s.rings.lookup id = some addr)
    (hsection : Section c s call.next u next) (hran : Ran s u t call ⟨next, appended⟩)
    (hne : ∀ warn, call.next ≠ .take id addr warn) :
    t.Owes e id addr := by
  rcases h with hwaits | ⟨y, hy, hserves⟩
  · rcases hran.waits id hwaits with hwaits | hcall
    · exact .inl hwaits
    · exact .inr ⟨_, hcall, rfl⟩
  rcases hran.calls y hy with rfl | hmem
  · unfold Serves at hserves
    generalize hpc : y.next = pc at *
    cases hsection with
    | now => exact .inr ⟨_, hran.after, hserves.1⟩
    | waits hid =>
      rw [hserves.1] at hid
      exact .inl (hran.pending ▸ hid)
    | wait =>
      have hmem : id ∈ t.pending := by
        rw [hran.pending, hserves.1]
        exact List.mem_append_right _ (List.mem_singleton.mpr rfl)
      exact .inl hmem
    | noRing hnone =>
      rw [hserves, hring] at hnone
      cases hnone
    | ring hsome =>
      rw [hserves, hring] at hsome
      exact .inr ⟨_, hran.after, hserves, (Option.some.inj hsome).symm⟩
    | @take id' warn addr' =>
      obtain ⟨rfl, rfl⟩ := hserves
      exact absurd rfl (hne warn)
    | _ => cases hserves
  · exact .inr ⟨y, hmem, hserves⟩

/-- A ring with entries that are counted is in the table. -/
theorem Sealing.inTable_of_drop (hsealing : Sealing s) (hcore : Core s) {addr : ℕ}
    {cell : RingCell} (hcell : s.heap[addr]? = some cell) (hclaimed : cell.claimed = true)
    {e : Stamped} (he : e ∈ cell.history.drop cell.border) :
    s.rings.lookup cell.executionID = some addr := by
  apply hsealing.inTable hcell hclaimed
  have haccounted := (hcore.cell addr cell hcell).accounted
  have hlength := List.length_pos_of_mem he
  have hcoe := haccounted.coe_count
  have hcount := haccounted.count_le
  rw [List.length_drop, RingCell.border] at hlength
  omega

/-- What a section may do to a ring, so that what was owed stays owed. -/
structure Stays (s t : LiveBuffer) (d d' : RingCell) : Prop where
  executionID : d'.executionID = d.executionID
  claimed : d'.claimed = d.claimed
  dropped : ∀ e ∈ d'.history.drop d'.border, e ∈ d.history.drop d.border
  overwritten : d.overwritten ⊆ d'.overwritten
  flight : ∀ e ∈ d'.history.drop d'.border, e ∈ d.inFlight →
    e ∈ d'.inFlight ∨ e.stamp ∈ t.failed
  settled : ∀ e ∈ d'.history.take d'.border, e ∈ d.history.take d.border ∨
    Settled t.files t.failed d' e
  failed : s.failed ⊆ t.failed
  files : s.files ⊆ t.files

theorem Stays.refl (hfailed : s.failed ⊆ t.failed) (hfiles : s.files ⊆ t.files) (d : RingCell) :
    Stays s t d d where
  executionID := rfl
  claimed := rfl
  dropped _ he := he
  overwritten _ he := he
  flight _ _ he := .inl he
  settled _ he := .inl he
  failed := hfailed
  files := hfiles

theorem Stays.of_eq {d d' : RingCell} (hfailed : s.failed ⊆ t.failed) (hfiles : s.files ⊆ t.files)
    (hid : d'.executionID = d.executionID) (hclaimed : d'.claimed = d.claimed)
    (hhistory : d'.history = d.history) (hborder : d'.border = d.border)
    (hover : d'.overwritten = d.overwritten) (hflight : d'.inFlight = d.inFlight) :
    Stays s t d d' where
  executionID := hid
  claimed := hclaimed
  dropped e he := by rwa [hhistory, hborder] at he
  overwritten := by
    rw [hover]
    exact List.Subset.refl _
  flight e _ he := .inl (hflight ▸ he)
  settled e he := by
    rw [hhistory, hborder] at he
    exact .inl he
  failed := hfailed
  files := hfiles

theorem Stays.allSettled {d d' : RingCell} (h : Stays s t d d')
    (hsettled : AllSettled s.files s.failed d) : AllSettled t.files t.failed d' := by
  intro e he
  rcases h.settled e he with hold | hnew
  · exact (hsettled e hold).mono h.files h.failed h.overwritten
  · exact hnew

/-- A step of a call, with what held before it. -/
structure Running (c : Config) (s u t : LiveBuffer) (call : Call) (next : CallPC)
    (appended : Option Stamped) : Prop where
  held : Held s
  sealing : Sealing s
  owing : Owing s
  ran : Ran s u t call ⟨next, appended⟩
  step : Section c s call.next u next

namespace Running
variable {call : Call} {next : CallPC} {appended : Option Stamped} {addr : ℕ}

theorem pc (h : Running c s u t call next appended) :
    ∀ id addr, call.next.held = some (id, addr) → s.RingOf id addr := h.held.holds call h.ran.before

theorem stays (h : Running c s u t call next appended) {a : ℕ} {d d' : RingCell}
    (hd : s.heap[a]? = some d) (hstays : Stays s t d d')
    (hne : ∀ warn, call.next ≠ .take d.executionID a warn) : t.OwingAt a d' where
  owed hclaimed e he := by
    have hclaimed : d.claimed = true := hstays.claimed.symm.trans hclaimed
    have hdrop := hstays.dropped e he
    rcases (h.owing a d hd).owed hclaimed e hdrop with hover | hfailed | hflight | howes
    · exact .inl (hstays.overwritten hover)
    · exact .inr (.inl (hstays.failed hfailed))
    · rcases hstays.flight e he hflight with hflight | hfailed
      · exact .inr (.inr (.inl hflight))
      · exact .inr (.inl hfailed)
    · have hring := h.sealing.inTable_of_drop h.held.core hd hclaimed hdrop
      rw [hstays.executionID]
      exact .inr (.inr (.inr (howes.ran hring h.step h.ran hne)))
  settled := hstays.allSettled (h.owing a d hd).settled

/-- A ring is changed, and the call takes from no other. -/
theorem changes (h : Running c s u t call next appended) {cell cell' : RingCell}
    (hchanges : Changes s u addr cell cell') (hat : t.OwingAt addr cell')
    (hne : ∀ a id warn, addr ≠ a → call.next ≠ .take id a warn) : Owing t := by
  intro a d hd
  rw [h.ran.logs.heap] at hd
  rcases hchanges.found hd with ⟨rfl, rfl⟩ | ⟨ha, hold⟩
  · exact hat
  · have hfailed : s.failed ⊆ t.failed := h.ran.logs.failed ▸ hchanges.failed
    have hfiles : s.files ⊆ t.files := h.ran.logs.files ▸ hchanges.kept
    exact h.stays hold (Stays.refl hfailed hfiles d) fun warn => hne a _ warn ha

theorem same (h : Running c s u t call next appended) (hlogs : SameLogs s u)
    (hne : ∀ a id warn, call.next ≠ .take id a warn) : Owing t := by
  intro a d hd
  rw [h.ran.logs.heap, hlogs.heap] at hd
  have hfailed : s.failed ⊆ t.failed := by
    rw [h.ran.logs.failed, hlogs.failed]
    exact List.Subset.refl _
  have hfiles : s.files ⊆ t.files := by
    rw [h.ran.logs.files, hlogs.files]
    exact List.Subset.refl _
  exact h.stays hd (Stays.refl hfailed hfiles d) fun warn => hne a _ warn

/-! ### The sections -/

theorem touch (h : Running c s (s.touch addr) t call next appended) {cell : RingCell}
    (hcell : s.heap[addr]? = some cell) (hne : ∀ a id warn, call.next ≠ .take id a warn) :
    Owing t := by
  have hfailed : s.failed ⊆ t.failed := h.ran.logs.failed ▸ List.Subset.refl _
  have hfiles : s.files ⊆ t.files := h.ran.logs.files ▸ List.Subset.refl _
  exact h.changes (changes_touch hcell)
    (h.stays hcell (Stays.of_eq hfailed hfiles rfl rfl rfl rfl rfl rfl) fun warn => hne addr _ warn)
    fun a id warn _ => hne a id warn

theorem insertRing {id : GoString} (h : Running c s (s.insertRing c id) t call next appended)
    (hne : ∀ a id warn, call.next ≠ .take id a warn) : Owing t := by
  have hlogs := (evicted_insertRing c s id).logs
  have hfailed : s.failed ⊆ t.failed := by
    rw [h.ran.logs.failed, hlogs.failed]
    exact List.Subset.refl _
  have hfiles : s.files ⊆ t.files := by
    rw [h.ran.logs.files, hlogs.files]
    exact List.Subset.refl _
  intro a d hd
  rw [h.ran.logs.heap, heap_insertRing] at hd
  rcases of_getElem?_concat hd with hold | ⟨rfl, rfl⟩
  · exact h.stays hold (Stays.refl hfailed hfiles d) fun warn => hne a _ warn
  · exact ⟨fun _ e he => (by cases he), fun e he => (by cases he)⟩

theorem appendTo {entry : Entry} {cell : RingCell} (hcell : s.heap[addr]? = some cell)
    (h : Running c s (s.appendTo entry addr) t call
      (if cell.ring.sealed then .schedule entry.executionID else .done) appended)
    (hpc : call.next = .append entry addr) (hloses : ¬s.Loses call.next)
    (happended : appended = s.appendedBy call) : Owing t := by
  have hid : cell.executionID = entry.executionID := by
    apply Section.ringOf_eq (h.pc _ _ _) hcell
    rw [hpc]
    rfl
  have hne : ∀ a id warn, call.next ≠ .take id a warn := by
    intro a id warn heq
    rw [hpc] at heq
    cases heq
  have haccounted := (h.held.core.cell addr cell hcell).accounted
  have hold := h.owing addr cell hcell
  refine h.changes (changes_appendTo hcell entry) ⟨?_, ?_⟩ fun a id warn _ => hne a id warn
  · intro hclaimed e he
    rw [haccounted.border_append] at he
    change e ∈ (cell.history ++ [s.stamped entry]).drop cell.border at he
    rw [List.drop_append_of_le_length haccounted.border_le, List.mem_append] at he
    rcases he with he | he
    · have hring := h.sealing.inTable_of_drop h.held.core hcell hclaimed he
      rcases hold.owed hclaimed e he with hover | hfailed | hflight | howes
      · exact .inl (Accounted.overwritten_append cell _ hover)
      · exact .inr (.inl (h.ran.logs.failed ▸ hfailed))
      · exact .inr (.inr (.inl hflight))
      · exact .inr (.inr (.inr (howes.ran hring h.step h.ran fun warn => hne addr _ warn)))
    · -- the late entry has its own seal scheduled
      rw [hpc] at hloses
      have hsealed := (sealedRing_of_not_loses hloses
        (h.sealing.wasFound hcell hclaimed hid.symm)).2 cell hcell
      have hcall := h.ran.after
      rw [hsealed, if_pos rfl] at hcall
      rw [List.mem_singleton.mp he]
      refine .inr (.inr (.inr (.inr ⟨_, hcall, hid.symm, .inr ?_⟩)))
      rw [happended, appendedBy, hpc]
  · intro e he
    rw [haccounted.take_border_append] at he
    exact (hold.settled e he).mono (h.ran.logs.files ▸ List.Subset.refl _)
      (h.ran.logs.failed ▸ List.Subset.refl _) (Accounted.overwritten_append cell _)

theorem markFound {id : GoString} {cell : RingCell} (hcell : s.heap[addr]? = some cell)
    (hring : s.rings.lookup id = some addr)
    (h : Running c s (s.markFound id addr) t call (.schedule id) appended)
    (hpc : call.next = .sealAfterGrace id) (happended : appended = s.appendedBy call) :
    Owing t := by
  have hid : cell.executionID = id := Section.ringOf_eq (h.held.core.ringOf hring) hcell
  have hnone : appended = none := by
    rw [happended, appendedBy, hpc]
    exact h.held.finds call h.ran.before id hpc
  refine h.changes (changes_markFound hcell id) ⟨?_, ?_⟩ fun a id' warn _ heq => ?_
  · intro _ e _
    exact .inr (.inr (.inr (.inr ⟨_, h.ran.after, hid.symm, .inl hnone⟩)))
  · intro e he
    exact ((h.owing addr cell hcell).settled e he).mono (h.ran.logs.files ▸ List.Subset.refl _)
      (h.ran.logs.failed ▸ List.Subset.refl _) (List.Subset.refl _)
  · rw [hpc] at heq
    cases heq

theorem takeFrom {id : GoString} {warn : Bool} {cell : RingCell}
    (hcell : s.heap[addr]? = some cell) (hflight : cell.flight = none)
    (h : Running c s (s.takeFrom addr cell.ring.sealRing.1.1 cell.ring.sealRing.1.2) t call
      (.flush id addr warn) appended) (hpc : call.next = .take id addr warn) : Owing t := by
  have haccounted := (h.held.core.cell addr cell hcell).accounted
  refine h.changes (changes_takeFrom hcell _ _) ⟨?_, ?_⟩ fun a id' warn' ha heq => ?_
  · intro _ e he
    rw [haccounted.border_take hflight] at he
    rw [inFlight_take]
    rcases haccounted.taken_of_drop hflight he with htaken | hover
    · exact .inr (.inr (.inl htaken))
    · exact .inl hover
  · intro e he
    rw [haccounted.border_take hflight] at he
    exact ((h.owing addr cell hcell).settled e he).mono (h.ran.logs.files ▸ List.Subset.refl _)
      (h.ran.logs.failed ▸ List.Subset.refl _) (List.Subset.refl _)
  · rw [hpc] at heq
    cases heq
    exact ha rfl

theorem write {warn : Bool} {cell : RingCell} {entries : List Stamped} {n : ℤ} {seq : ℕ}
    (hcell : s.heap[addr]? = some cell) (hflight : cell.flight = some (.reserved entries n seq))
    (h : Running c s (s.write cell.executionID addr entries n seq) t call
      (.flush cell.executionID addr warn) appended)
    (hne : ∀ a id warn, call.next ≠ .take id a warn) : Owing t := by
  have hok := h.held.core.cell addr cell hcell
  have htaken : TakenFrom cell entries n := hok.accounted.flight _ hflight
  have hmarked : cell.marked = 0 := by rw [RingCell.marked, hflight]
  have hchanges := changes_write hcell entries n (hok.flights _ hflight).2.1
  have hsplit := hok.increasing
  rw [← List.take_append_drop (cell.border + n.toNat) cell.history, List.pairwise_append] at hsplit
  have hstays : Stays s t cell (cell.write n) := by
    refine ⟨rfl, rfl, ?_, List.Subset.refl _, ?_, ?_, ?_, ?_⟩
    · intro e he
      rw [Accounted.border_write hmarked] at he
      change e ∈ cell.history.drop (cell.border + n.toNat) at he
      rw [← List.drop_drop] at he
      exact List.mem_of_mem_drop he
    · intro e he hin
      rw [Accounted.border_write hmarked] at he
      rw [RingCell.inFlight, hflight] at hin
      have hsegment : e ∈ cell.history.take (cell.border + n.toNat) := by
        rw [List.take_add]
        exact List.mem_append_right _ (htaken.sublist.subset hin)
      exact absurd (hsplit.2.2 e hsegment e he) (lt_irrefl _)
    · intro e he
      rw [Accounted.take_border_write hmarked] at he
      rcases List.mem_append.mp he with he | he
      · exact .inl he
      · rcases htaken.covers e he with hin | hover
        · refine .inr (.inl ⟨⟨cell.executionID, seq, entries, addr⟩, ?_, hin⟩)
          rw [h.ran.logs.files]
          exact List.mem_append_right _ (List.mem_singleton.mpr rfl)
        · exact .inr (.inr (.inr hover))
    · exact h.ran.logs.failed ▸ List.Subset.refl _
    · exact h.ran.logs.files ▸ hchanges.kept
  exact h.changes hchanges (h.stays hcell hstays fun warn => hne addr _ warn)
    fun a id warn _ => hne a id warn

theorem fail {cell : RingCell} {f : Flight}
    (hcell : s.heap[addr]? = some cell) (hflight : cell.flight = some f) (hmarked : cell.marked = 0)
    (h : Running c s (s.fail addr f.entries) t call next appended)
    (hne : ∀ a id warn, call.next ≠ .take id a warn) : Owing t := by
  have hborder : cell.fail.border = cell.border := Accounted.border_fail hmarked
  have hstays : Stays s t cell cell.fail := by
    refine ⟨rfl, rfl, ?_, List.Subset.refl _, ?_, ?_, ?_, ?_⟩
    · intro e he
      rwa [hborder] at he
    · intro e _ hin
      rw [RingCell.inFlight, hflight] at hin
      rw [h.ran.logs.failed]
      exact .inr (List.mem_append_right _ (List.mem_map_of_mem hin))
    · intro e he
      rw [hborder] at he
      exact .inl he
    · exact h.ran.logs.failed ▸ List.subset_append_left _ _
    · exact h.ran.logs.files ▸ List.Subset.refl _
  exact h.changes (changes_fail hcell _) (h.stays hcell hstays fun warn => hne addr _ warn)
    fun a id warn _ => hne a id warn

theorem clear {cell : RingCell} (hcell : s.heap[addr]? = some cell) (hflight : cell.flight = none)
    (h : Running c s (s.clear addr) t call next appended)
    (hlost : ∀ e ∈ cell.ring.sealRing.1.1, e.stamp ∈ s.failed)
    (hne : ∀ a id warn, call.next ≠ .take id a warn) : Owing t := by
  have haccounted := (h.held.core.cell addr cell hcell).accounted
  refine h.changes (changes_same hcell RingCell.clear rfl) ⟨?_, ?_⟩
    fun a id warn _ => hne a id warn
  · intro _ e he
    rw [Accounted.border_clear hflight] at he
    change e ∈ cell.history.drop cell.history.length at he
    rw [List.drop_length] at he
    cases he
  · intro e he
    rw [h.ran.logs.files, h.ran.logs.failed]
    rcases haccounted.mem_of_border_le hflight (List.mem_of_mem_take he) with hold | htaken | hover
    · exact (h.owing addr cell hcell).settled e hold
    · exact .inr (.inl (hlost e htaken))
    · exact .inr (.inr hover)

end Running

end LiveBuffer
end Persatrix.LogBuffer
