import Persatrix.LogSealSections

/-!
# Runs of a buffer

What holds of the buffer and of the calls that run on it, whatever order the sections are taken
in: a call holds a ring of the execution it works for, and a ring whose entries were taken is held
by a call that goes on with them.
-/
namespace Persatrix.LogBuffer

/-- The execution and the ring that a call works on. -/
def CallPC.held : CallPC → Option (GoString × ℕ)
  | .allow entry addr => some (entry.executionID, addr)
  | .append entry addr => some (entry.executionID, addr)
  | .take id addr _ => some (id, addr)
  | .flush id addr _ => some (id, addr)
  | .reset id addr => some (id, addr)
  | _ => none

namespace LiveBuffer

variable {c : Config} {s t u : LiveBuffer}

/-! ### What a section leaves -/

def RingOf (s : LiveBuffer) (id : GoString) (addr : ℕ) : Prop :=
  ∃ cell, s.heap[addr]? = some cell ∧ cell.executionID = id

theorem Changes.ringOf {addr : ℕ} {cell cell' : RingCell} (h : Changes s t addr cell cell')
    {id : GoString} {a : ℕ} (hring : s.RingOf id a) : t.RingOf id a := by
  obtain ⟨d, hd, rfl⟩ := hring
  exact h.exists_cell hd

theorem SameLogs.ringOf (h : SameLogs s t) {id : GoString} {a : ℕ} (hring : s.RingOf id a) :
    t.RingOf id a := by
  rw [RingOf, h.heap]
  exact hring

theorem ringOf_insertRing {id id' : GoString} {a : ℕ} (hring : s.RingOf id' a) :
    (s.insertRing c id).RingOf id' a := by
  obtain ⟨d, hd, hid⟩ := hring
  exact (evicted_insertRing c s id).logs.ringOf ⟨d, getElem?_concat_left hd, hid⟩

theorem ringOf_newCell (id : GoString) : (s.insertRing c id).RingOf id s.heap.length :=
  (evicted_insertRing c s id).logs.ringOf ⟨s.newCell c id, List.getElem?_concat_length, rfl⟩

theorem Core.ringOf (hs : Core s) {id : GoString} {addr : ℕ}
    (h : s.rings.lookup id = some addr) : s.RingOf id addr := (hs.table id addr h).1

theorem Changes.found {addr : ℕ} {cell cell' : RingCell} (h : Changes s t addr cell cell') {a : ℕ}
    {d : RingCell} (hd : t.heap[a]? = some d) :
    addr = a ∧ cell' = d ∨ addr ≠ a ∧ s.heap[a]? = some d := by
  by_cases ha : addr = a
  · subst ha
    exact .inl ⟨rfl, Option.some.inj (h.after.symm.trans hd)⟩
  · exact .inr ⟨ha, (h.others a ha).symm.trans hd⟩

theorem Changes.flight {addr : ℕ} {cell cell' : RingCell} (h : Changes s t addr cell cell')
    (hsame : cell'.flight = cell.flight) {a : ℕ} {d : RingCell} (hd : t.heap[a]? = some d)
    (hflight : d.flight ≠ none) :
    ∃ d', s.heap[a]? = some d' ∧ d'.flight ≠ none ∧ d'.executionID = d.executionID := by
  rcases h.found hd with ⟨rfl, rfl⟩ | ⟨-, hold⟩
  · exact ⟨cell, h.before, hsame ▸ hflight, h.executionID.symm⟩
  · exact ⟨d, hold, hflight, rfl⟩

theorem heap_insertRing (id : GoString) :
    (s.insertRing c id).heap = s.heap ++ [s.newCell c id] := (evicted_insertRing c s id).logs.heap

namespace Section
variable {pc next : CallPC}

theorem ringOf_eq {id : GoString} {addr : ℕ} {cell : RingCell} (h : s.RingOf id addr)
    (hcell : s.heap[addr]? = some cell) : cell.executionID = id := by
  obtain ⟨d, hd, hid⟩ := h
  obtain rfl := Option.some.inj (hcell.symm.trans hd)
  exact hid

/-- A section leaves the rings, changes one of them, or adds one. -/
theorem effect (hs : Core s) (hpc : ∀ id addr, pc.held = some (id, addr) → s.RingOf id addr)
    (h : Section c s pc t next) :
    (SameLogs s t ∧ t.rings = s.rings) ∨ (∃ addr cell cell', Changes s t addr cell cell') ∨
      ∃ id, t = s.insertRing c id := by
  have hsame : SameLogs s s := ⟨rfl, rfl, rfl, rfl, rfl, rfl, rfl⟩
  cases h with
  | hit hring =>
    obtain ⟨cell, hcell, -⟩ := hs.ringOf hring
    exact .inr (.inl ⟨_, _, _, changes_touch hcell⟩)
  | other hring =>
    obtain ⟨cell, hcell, -⟩ := hs.ringOf hring
    exact .inr (.inl ⟨_, _, _, changes_touch hcell⟩)
  | create hring => exact .inr (.inr ⟨_, rfl⟩)
  | append hcell => exact .inr (.inl ⟨_, _, _, changes_appendTo hcell _⟩)
  | find hring =>
    obtain ⟨cell, hcell, -⟩ := hs.ringOf hring
    exact .inr (.inl ⟨_, _, _, changes_markFound hcell _⟩)
  | take hcell hflight => exact .inr (.inl ⟨_, _, _, changes_takeFrom hcell _ _⟩)
  | reserve hcell hflight => exact .inr (.inl ⟨_, _, _, changes_reserve hcell _ _ _⟩)
  | @write id warn addr cell entries n seq hcell hflight =>
    obtain rfl := ringOf_eq (hpc _ _ rfl) hcell
    have hseq : seq < s.reserveSeq cell.executionID :=
      (((hs.cell addr cell hcell).flights _ hflight).2).1
    exact .inr (.inl ⟨_, _, _, changes_write hcell entries n hseq⟩)
  | fail hcell hflight hmarked => exact .inr (.inl ⟨_, _, _, changes_fail hcell _⟩)
  | mark hcell hflight => exact .inr (.inl ⟨_, _, _, changes_same hcell (·.mark _) rfl⟩)
  | reset hcell hflight => exact .inr (.inl ⟨_, _, _, changes_same hcell RingCell.clear rfl⟩)
  | wait => exact .inl ⟨⟨rfl, rfl, rfl, rfl, rfl, rfl, rfl⟩, rfl⟩
  | drain => exact .inl ⟨⟨rfl, rfl, rfl, rfl, rfl, rfl, rfl⟩, rfl⟩
  | _ => exact .inl ⟨hsame, rfl⟩

theorem keeps (hs : Core s) (hpc : ∀ id addr, pc.held = some (id, addr) → s.RingOf id addr)
    (h : Section c s pc t next) {id : GoString} {a : ℕ} (hring : s.RingOf id a) :
    t.RingOf id a := by
  rcases h.effect hs hpc with ⟨hsame, -⟩ | ⟨addr, cell, cell', hchanges⟩ | ⟨id', rfl⟩
  · exact hsame.ringOf hring
  · exact hchanges.ringOf hring
  · exact ringOf_insertRing hring

theorem core (hs : Core s) (hpc : ∀ id addr, pc.held = some (id, addr) → s.RingOf id addr)
    (h : Section c s pc t next) : Core t := by
  have hsame : SameLogs s s := ⟨rfl, rfl, rfl, rfl, rfl, rfl, rfl⟩
  cases h with
  | hit hring =>
    obtain ⟨cell, hcell, -⟩ := hs.ringOf hring
    exact hs.touch hcell
  | other hring =>
    obtain ⟨cell, hcell, -⟩ := hs.ringOf hring
    exact hs.touch hcell
  | create hring => exact hs.insertRing c _
  | append hcell => exact hs.appendTo hcell (ringOf_eq (hpc _ _ rfl) hcell).symm
  | find hring =>
    obtain ⟨cell, hcell, -⟩ := hs.ringOf hring
    exact hs.markFound hcell _
  | take hcell hflight => exact hs.takeFrom hcell hflight
  | reserve hcell hflight =>
    obtain rfl := ringOf_eq (hpc _ _ rfl) hcell
    exact hs.reserve hcell hflight
  | write hcell hflight =>
    obtain rfl := ringOf_eq (hpc _ _ rfl) hcell
    exact hs.write hcell hflight
  | fail hcell hflight hmarked => exact hs.fail hcell hflight hmarked
  | mark hcell hflight => exact hs.mark hcell hflight
  | reset hcell hflight => exact hs.clear hcell hflight
  | wait => exact hs.same ⟨rfl, rfl, rfl, rfl, rfl, rfl, rfl⟩ fun _ _ hring => hring
  | drain => exact hs.same ⟨rfl, rfl, rfl, rfl, rfl, rfl, rfl⟩ fun _ _ hring => hring
  | _ => exact hs

/-- A call goes on with a ring of the execution it works for. -/
theorem holds (hs : Core s) (hpc : ∀ id addr, pc.held = some (id, addr) → s.RingOf id addr)
    (h : Section c s pc t next) {id : GoString} {a : ℕ} (hnext : next.held = some (id, a)) :
    t.RingOf id a := by
  have hkeeps : ∀ {id a}, s.RingOf id a → t.RingOf id a := fun hring => h.keeps hs hpc hring
  cases h with
  | hit hring =>
    cases hnext
    exact hkeeps (hs.ringOf hring)
  | other hring =>
    cases hnext
    exact hkeeps (hs.ringOf hring)
  | create hring =>
    cases hnext
    exact ringOf_newCell _
  | allow => exact hpc id a hnext
  | @append entry addr cell hcell =>
    cases hsealed : cell.ring.sealed with
    | true =>
      rw [hsealed] at hnext
      cases hnext
    | false =>
      rw [hsealed] at hnext
      cases hnext
  | ring hring =>
    cases hnext
    exact hs.ringOf hring
  | take hcell hflight => exact hkeeps (hpc id a hnext)
  | reserve hcell hflight => exact hkeeps (hpc id a hnext)
  | write hcell hflight => exact hkeeps (hpc id a hnext)
  | @fail id' warn =>
    cases warn with
    | true => cases hnext
    | false => cases hnext
  | toReset hring =>
    cases hnext
    exact hs.ringOf hring
  | _ => cases hnext

theorem next_ne (h : Section c s pc t next) (id : GoString) : next ≠ .sealAfterGrace id := by
  intro hnext
  cases h with
  | @append entry addr cell hcell => cases hsealed : cell.ring.sealed <;> simp [hsealed] at hnext
  | @fail id warn => cases warn <;> cases hnext
  | _ => cases hnext

/-- A drain starts a seal for each execution that waits; no other section starts calls. -/
theorem calls (h : Section c s pc t next) : ∃ ids : List GoString,
    t.calls = s.calls ++ ids.map (fun id => ⟨.sealLookup id true, none⟩) ∧
      ∀ id ∈ s.pending, id ∈ t.pending ∨ id ∈ ids := by
  cases h with
  | drain => exact ⟨s.pending, rfl, fun id hid => .inr hid⟩
  | wait => exact ⟨[], (List.append_nil _).symm, fun id hid => .inl (List.mem_append_left _ hid)⟩
  | @create entry hring =>
    rw [(evicted_insertRing c s entry.executionID).same]
    exact ⟨[], (List.append_nil _).symm, fun id hid => .inl hid⟩
  | _ => exact ⟨[], (List.append_nil _).symm, fun id hid => .inl hid⟩

/-- What was taken is in the hands of the call that took it. -/
theorem flight (hs : Core s) (hpc : ∀ id addr, pc.held = some (id, addr) → s.RingOf id addr)
    (h : Section c s pc t next) {a : ℕ} {d : RingCell} (hd : t.heap[a]? = some d)
    (hflight : d.flight ≠ none) :
    (∃ warn, next = .flush d.executionID a warn) ∨ (∀ id warn, pc ≠ .flush id a warn) ∧
      ∃ d', s.heap[a]? = some d' ∧ d'.flight ≠ none ∧ d'.executionID = d.executionID := by
  cases h with
  | hit hring =>
    obtain ⟨cell, hcell, -⟩ := hs.ringOf hring
    exact .inr ⟨fun _ _ hpc => (by cases hpc), (changes_touch hcell).flight rfl hd hflight⟩
  | other hring =>
    obtain ⟨cell, hcell, -⟩ := hs.ringOf hring
    exact .inr ⟨fun _ _ hpc => (by cases hpc), (changes_touch hcell).flight rfl hd hflight⟩
  | create hring =>
    rw [heap_insertRing] at hd
    rcases of_getElem?_concat hd with hold | ⟨rfl, rfl⟩
    · exact .inr ⟨fun _ _ hpc => (by cases hpc), d, hold, hflight, rfl⟩
    · exact absurd rfl hflight
  | append hcell =>
    exact .inr ⟨fun _ _ hpc => (by cases hpc), (changes_appendTo hcell _).flight rfl hd hflight⟩
  | find hring =>
    obtain ⟨cell, hcell, -⟩ := hs.ringOf hring
    exact .inr ⟨fun _ _ hpc => (by cases hpc), (changes_markFound hcell _).flight rfl hd hflight⟩
  | @take id warn addr cell hcell hnone =>
    rcases (changes_takeFrom hcell _ _).found hd with ⟨rfl, rfl⟩ | ⟨-, hold⟩
    · obtain rfl := ringOf_eq (hpc _ _ rfl) hcell
      exact .inl ⟨warn, rfl⟩
    · exact .inr ⟨fun _ _ hpc => (by cases hpc), d, hold, hflight, rfl⟩
  | @reserve id warn addr cell entries n hcell htaken =>
    rcases (changes_reserve hcell id entries n).found hd with ⟨rfl, rfl⟩ | ⟨hne, hold⟩
    · obtain rfl := ringOf_eq (hpc _ _ rfl) hcell
      exact .inl ⟨warn, rfl⟩
    · exact .inr ⟨fun _ _ hpc => (by cases hpc; exact hne rfl), d, hold, hflight, rfl⟩
  | @write id warn addr cell entries n seq hcell hreserved =>
    obtain rfl := ringOf_eq (hpc _ _ rfl) hcell
    have hseq : seq < s.reserveSeq cell.executionID :=
      (((hs.cell addr cell hcell).flights _ hreserved).2).1
    rcases (changes_write hcell entries n hseq).found hd with ⟨rfl, rfl⟩ | ⟨hne, hold⟩
    · exact .inl ⟨warn, rfl⟩
    · exact .inr ⟨fun _ _ hpc => (by cases hpc; exact hne rfl), d, hold, hflight, rfl⟩
  | @fail id warn addr cell f hcell hsome hmarked =>
    rcases (changes_fail hcell f.entries).found hd with ⟨rfl, rfl⟩ | ⟨hne, hold⟩
    · exact absurd rfl hflight
    · exact .inr ⟨fun _ _ hpc => (by cases hpc; exact hne rfl), d, hold, hflight, rfl⟩
  | @mark id warn addr cell n hcell hwritten =>
    rcases (changes_same hcell (·.mark n) rfl).found hd with ⟨rfl, rfl⟩ | ⟨hne, hold⟩
    · exact absurd rfl hflight
    · exact .inr ⟨fun _ _ hpc => (by cases hpc; exact hne rfl), d, hold, hflight, rfl⟩
  | reset hcell hnone =>
    exact .inr ⟨fun _ _ hpc => (by cases hpc),
      (changes_same hcell RingCell.clear rfl).flight rfl hd hflight⟩
  | _ => exact .inr ⟨fun _ _ hpc => (by cases hpc), d, hd, hflight, rfl⟩

end Section

/-! ### A step -/

/-- A call begins, or nothing happens. -/
structure Begins (s t : LiveBuffer) : Prop where
  logs : SameLogs s t
  rings : t.rings = s.rings
  calls : s.calls ⊆ t.calls
  new : ∀ y ∈ t.calls, y ∈ s.calls ∨ y.next.held = none ∧ y.appended = none
  waits : ∀ id ∈ s.pending, id ∈ t.pending ∨ ⟨.sealLookup id true, none⟩ ∈ t.calls

/-- A call has gone from a section to the next one. -/
structure Ran (s u t : LiveBuffer) (call call' : Call) : Prop where
  logs : SameLogs u t
  rings : t.rings = u.rings
  pending : t.pending = u.pending
  before : call ∈ s.calls
  after : call' ∈ t.calls
  calls : ∀ y ∈ s.calls, y = call ∨ y ∈ t.calls
  new : ∀ y ∈ t.calls, y ∈ s.calls ∨ y = call' ∨ ∃ id, y = ⟨.sealLookup id true, none⟩
  waits : ∀ id ∈ s.pending, id ∈ t.pending ∨ ⟨.sealLookup id true, none⟩ ∈ t.calls

theorem begins_begin {pc : CallPC} (hpc : pc.held = none) : Begins s (s.begin pc) where
  logs := ⟨rfl, rfl, rfl, rfl, rfl, rfl, rfl⟩
  rings := rfl
  calls := List.subset_append_left _ _
  new y hy := by
    rcases List.mem_append.mp hy with hy | hy
    · exact .inl hy
    · rw [List.mem_singleton.mp hy]
      exact .inr ⟨hpc, rfl⟩
  waits id hid := .inl hid

theorem held_admission (c : Config) (s : LiveBuffer) (entry : Entry) :
    (s.admission c entry).held = none := by
  unfold admission
  split_ifs <;> rfl

theorem mem_set_or {calls : List Call} {k : ℕ} {call : Call} (h : calls[k]? = some call)
    (call' : Call) {y : Call} (hy : y ∈ calls) : y = call ∨ y ∈ calls.set k call' := by
  obtain ⟨j, hj⟩ := List.getElem?_of_mem hy
  by_cases hjk : j = k
  · subst hjk
    exact .inl (Option.some.inj (hj.symm.trans h))
  · have hset : (calls.set k call')[j]? = some y := by
      rw [List.getElem?_set_ne (Ne.symm hjk)]
      exact hj
    exact .inr (List.mem_of_getElem? hset)

theorem Section.ran {pc next : CallPC} {k : ℕ} {call : Call} (hcall : s.calls[k]? = some call)
    (h : Section c s pc u next) (appended : Option Stamped) :
    Ran s u { u with calls := u.calls.set k ⟨next, appended⟩ } call ⟨next, appended⟩ := by
  obtain ⟨ids, hcalls, hwaits⟩ := h.calls
  have hk := (List.getElem?_eq_some_iff.mp hcall).1
  have hset : u.calls.set k ⟨next, appended⟩ =
      s.calls.set k ⟨next, appended⟩ ++ ids.map (fun id => ⟨.sealLookup id true, none⟩) := by
    rw [hcalls, List.set_append_left _ _ hk]
  refine ⟨⟨rfl, rfl, rfl, rfl, rfl, rfl, rfl⟩, rfl, rfl, List.mem_of_getElem? hcall, ?_, ?_, ?_, ?_⟩
  · change _ ∈ u.calls.set k _
    rw [hset]
    exact List.mem_append_left _ (List.mem_set hk _)
  · intro y hy
    change _ ∨ y ∈ u.calls.set k _
    rw [hset]
    exact (mem_set_or hcall _ hy).imp_right fun hmem => List.mem_append_left _ hmem
  · intro y hy
    change y ∈ u.calls.set k _ at hy
    rw [hset] at hy
    rcases List.mem_append.mp hy with hy | hy
    · exact (List.mem_or_eq_of_mem_set hy).imp_right .inl
    · obtain ⟨id, -, rfl⟩ := List.mem_map.mp hy
      exact .inr (.inr ⟨id, rfl⟩)
  · intro id hid
    change _ ∨ _ ∈ u.calls.set k _
    rw [hset]
    rcases hwaits id hid with hpending | hmem
    · exact .inl hpending
    · exact .inr (List.mem_append_right _ (List.mem_map.mpr ⟨id, hmem, rfl⟩))

theorem step_cases {e : LogEvent} (h : step c s e = some t) :
    Begins s t ∨ ∃ k choice call u next, e = .run k choice ∧ s.calls[k]? = some call ∧
      Section c s call.next u next ∧ t = { u with calls := u.calls.set k ⟨next, s.appendedBy call⟩ } := by
  cases e with
  | append entry =>
    cases h
    exact .inl (begins_begin (held_admission c s entry))
  | sealAfterGrace id =>
    cases h
    exact .inl (begins_begin (by split_ifs <;> rfl))
  | «seal» id =>
    cases h
    exact .inl (begins_begin (by split_ifs <;> rfl))
  | close =>
    cases h
    split_ifs
    · exact .inl ⟨⟨rfl, rfl, rfl, rfl, rfl, rfl, rfl⟩, rfl, List.Subset.refl _, fun _ hy => .inl hy,
        fun _ hid => .inl hid⟩
    · have hheld : CallPC.drain.held = none := rfl
      have hbegins : Begins { s with closed := true } _ := begins_begin hheld
      exact .inl ⟨⟨rfl, rfl, rfl, rfl, rfl, rfl, rfl⟩, rfl, hbegins.calls, hbegins.new,
        hbegins.waits⟩
  | fire id =>
    rw [step] at h
    split_ifs at h with hid
    · cases h
      have hbegins : Begins s (s.begin (.sealLookup id true)) := begins_begin rfl
      refine .inl ⟨⟨rfl, rfl, rfl, rfl, rfl, rfl, rfl⟩, rfl, hbegins.calls, hbegins.new, ?_⟩
      intro id' hid'
      by_cases heq : id' = id
      · subst heq
        exact .inr (List.mem_append_right _ (List.mem_singleton.mpr rfl))
      · exact .inl (List.mem_filter.mpr ⟨hid', decide_eq_true heq⟩)
    · cases h
      exact .inl ⟨⟨rfl, rfl, rfl, rfl, rfl, rfl, rfl⟩, rfl, List.Subset.refl _, fun _ hy => .inl hy,
        fun _ hid => .inl hid⟩
  | run k choice =>
    obtain ⟨call, hcall, hnext⟩ := Option.bind_eq_some_iff.mp h
    obtain ⟨⟨u, next⟩, hexecute, rfl⟩ := Option.map_eq_some_iff.mp hnext
    exact .inr ⟨k, choice, call, u, next, rfl, hcall, section_of_execute hexecute, rfl⟩

/-! ### Every run -/

structure Held (s : LiveBuffer) : Prop where
  core : Core s
  holds : ∀ call ∈ s.calls, ∀ id addr, call.next.held = some (id, addr) → s.RingOf id addr
  finds : ∀ call ∈ s.calls, ∀ id, call.next = .sealAfterGrace id → call.appended = none
  flights : ∀ addr cell, s.heap[addr]? = some cell → cell.flight ≠ none →
    ∃ call ∈ s.calls, ∃ warn, call.next = .flush cell.executionID addr warn

theorem Held.begins (hs : Held s) (h : Begins s t) : Held t where
  core := hs.core.same h.logs fun id addr hring => by rwa [h.rings] at hring
  holds y hy id addr hheld := by
    rcases h.new y hy with hold | ⟨hnone, -⟩
    · exact h.logs.ringOf (hs.holds y hold id addr hheld)
    · rw [hnone] at hheld
      cases hheld
  finds y hy id hnext := by
    rcases h.new y hy with hold | ⟨-, hnone⟩
    · exact hs.finds y hold id hnext
    · exact hnone
  flights addr cell hcell hflight := by
    rw [h.logs.heap] at hcell
    obtain ⟨call, hcall, warn, hnext⟩ := hs.flights addr cell hcell hflight
    exact ⟨call, h.calls hcall, warn, hnext⟩

theorem Held.ran (hs : Held s) {call : Call} {next : CallPC} {appended : Option Stamped}
    (hsection : Section c s call.next u next) (h : Ran s u t call ⟨next, appended⟩) : Held t := by
  have hpc := hs.holds call h.before
  refine ⟨?_, ?_, ?_, ?_⟩
  · exact (hsection.core hs.core hpc).same h.logs fun id addr hring => by rwa [h.rings] at hring
  · intro y hy id addr hheld
    apply h.logs.ringOf
    rcases h.new y hy with hold | rfl | ⟨id', rfl⟩
    · exact hsection.keeps hs.core hpc (hs.holds y hold id addr hheld)
    · exact hsection.holds hs.core hpc hheld
    · cases hheld
  · intro y hy id hnext
    rcases h.new y hy with hold | rfl | ⟨id', rfl⟩
    · exact hs.finds y hold id hnext
    · dsimp only at hnext
      subst hnext
      exact absurd rfl (hsection.next_ne id)
    · rfl
  · intro addr cell hcell hflight
    rw [h.logs.heap] at hcell
    rcases hsection.flight hs.core hpc hcell hflight with ⟨warn, rfl⟩ | ⟨hne, d, hd, hsome, hid⟩
    · exact ⟨_, h.after, warn, rfl⟩
    · obtain ⟨y, hy, warn, hnext⟩ := hs.flights addr d hd hsome
      rcases h.calls y hy with rfl | hmem
      · exact absurd hnext (hne _ warn)
      · exact ⟨y, hmem, warn, hid ▸ hnext⟩

/-! ### The start -/

theorem length_snapshotLocked_le (r : ExecutionRing Stamped) : r.snapshotLocked.length ≤ r.cap := by
  rw [ExecutionRing.length_snapshotLocked]
  exact r.length_le

/-- The address of a ring of the table is the last position of the execution. -/
theorem lookup_zipIdx {warm : List WarmRing} {id : GoString} {addr : ℕ}
    (h : (warm.zipIdx.foldl (fun m w => m.insert w.1.executionID w.2)
      (∅ : GoMap GoString ℕ)).lookup id = some addr) :
    (∃ w, warm[addr]? = some w ∧ w.executionID = id) ∧
      ∀ b w, warm[b]? = some w → w.executionID = id → b ≤ addr := by
  induction warm using List.reverseRecOn with
  | nil =>
    rw [List.zipIdx_nil, List.foldl_nil, GoMap.lookup_empty] at h
    cases h
  | append_singleton warm last ih =>
    rw [List.zipIdx_append, List.zipIdx_singleton, List.foldl_append, List.foldl_cons,
      List.foldl_nil, GoMap.lookup_insert, Nat.zero_add] at h
    split_ifs at h with hid
    · obtain rfl := Option.some.inj h
      refine ⟨⟨last, List.getElem?_concat_length, hid.symm⟩, fun b w hw _ => ?_⟩
      have hlt := (List.getElem?_eq_some_iff.mp hw).1
      rw [List.length_append, List.length_singleton] at hlt
      exact Nat.le_of_lt_succ hlt
    · obtain ⟨⟨w, hw, hwid⟩, hlast⟩ := ih h
      refine ⟨⟨w, getElem?_concat_left hw, hwid⟩, fun b w' hw' hid' => ?_⟩
      rcases of_getElem?_concat hw' with hold | ⟨-, rfl⟩
      · exact hlast b w' hold hid'
      · exact absurd hid'.symm hid

theorem heap_start {warm : List WarmRing} {nextSeq : GoMap GoString ℕ} {b : ℕ} {d : RingCell}
    (h : (start warm nextSeq).heap[b]? = some d) : ∃ w, warm[b]? = some w ∧
      d = ⟨w.executionID, w.ring, none, w.ring.snapshotLocked, [], 1, false⟩ := by
  have hmap : (warm.map fun w : WarmRing => (⟨w.executionID, w.ring, none, w.ring.snapshotLocked, [],
    1, false⟩ : RingCell))[b]? = some d := h
  rw [List.getElem?_map] at hmap
  obtain ⟨w, hw, rfl⟩ := Option.map_eq_some_iff.mp hmap
  exact ⟨w, hw, rfl⟩

theorem core_start (warm : List WarmRing) (nextSeq : GoMap GoString ℕ) :
    Core (start warm nextSeq) where
  cell b d hd := by
    obtain ⟨w, -, rfl⟩ := heap_start hd
    have hsnapshot : w.ring.snapshotLocked = (w.ring.snapshotLocked ++ []).rtake w.ring.cap := by
      rw [List.append_nil, ExecutionRing.rtake_of_length_le (length_snapshotLocked_le w.ring)]
    have hcount : w.ring.unflushed.toNat ≤ 0 := by
      rw [w.unflushed_eq]
      exact le_refl 0
    exact {
      accounted := ⟨hsnapshot, w.unflushed_eq.ge, hcount, fun f hf => (by cases hf)⟩
      ids := fun e he => (by cases he)
      increasing := List.Pairwise.nil
      stamps := fun e he => (by cases he)
      born := le_refl 1
      filed := fun f hf => (by cases hf)
      flights := fun f hf => (by cases hf) }
  distinct a b d d' hd hd' hne e he := by
    obtain ⟨w, -, rfl⟩ := heap_start hd
    cases he
  table id addr hring := by
    obtain ⟨⟨w, hw, hid⟩, hlast⟩ := lookup_zipIdx hring
    refine ⟨⟨⟨w.executionID, w.ring, none, w.ring.snapshotLocked, [], 1, false⟩, ?_, hid⟩,
      fun b d hd hdid => ?_⟩
    · exact (List.getElem?_map ..).trans (by rw [hw]; rfl)
    · obtain ⟨w', hw', rfl⟩ := heap_start hd
      exact hlast b w' hw' hdid
  files f hf := by cases hf
  once := List.nodup_nil
  taken n hn := by cases hn

theorem held_start (warm : List WarmRing) (nextSeq : GoMap GoString ℕ) :
    Held (start warm nextSeq) where
  core := core_start warm nextSeq
  holds y hy := by cases hy
  finds y hy := by cases hy
  flights b d hd hflight := by
    obtain ⟨w, -, rfl⟩ := heap_start hd
    exact absurd rfl hflight

theorem held_of_reachable {warm : List WarmRing} {nextSeq : GoMap GoString ℕ}
    (h : (system c warm nextSeq).Reachable s) : Held s := by
  apply h.invariant (held_start warm nextSeq)
  intro s e t hs hstep
  rcases step_cases hstep with hbegins | ⟨k, choice, call, u, next, rfl, hcall, hsection, rfl⟩
  · exact hs.begins hbegins
  · exact hs.ran hsection (hsection.ran hcall _)

end LiveBuffer
end Persatrix.LogBuffer
