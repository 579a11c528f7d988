import Persatrix.Keyed
import Persatrix.OrderedRows
import Persatrix.PythonStrings
import Persatrix.System
import Mathlib.Algebra.BigOperators.Group.List.Lemmas
import Mathlib.Algebra.Order.BigOperators.Group.List
import Mathlib.Algebra.Order.Group.Int
import Mathlib.Data.Option.Basic

/-!
# Working memory and its compression in the background

A pass reads the compressible sections once and then waits for a summary of one after the other. A
summary is written under the name of the section that was read, whatever the name stands for by
then.
-/
namespace Persatrix.Working
open PyJson

structure ContextSection where
  name : PyText
  content : PyText
  priority : ℤ
  tokenCount : ℤ
  compressible : Bool
deriving DecidableEq

/-- The sections in the order in which they were added, no two of one name. -/
abbrev Sections := Keyed ContextSection.name

/-- A section is put last, in the place of the one of its name. -/
def addSection (d : Sections) (x : ContextSection) : Sections := (d.erase x.name).put x

def removeSection (d : Sections) (name : PyText) : Sections := d.erase name

def getSection (d : Sections) (name : PyText) : Option ContextSection := d.get name

def totalTokens (d : Sections) : ℤ := (d.values.map ContextSection.tokenCount).sum

/-! ### The pass -/

structure Settings where
  maxTokens : ℤ
  /-- `estimate_tokens` with `accurate` -/
  estimateTokens : PyText → ℕ

/-- The task of the pass: it waits for the answer to a section in front of others. -/
inductive Task where
  | none
  | created
  | awaiting (x : ContextSection) (rest : List ContextSection)
  | done
deriving DecidableEq

/-- What the call of the model ends in. -/
inductive Answer where
  | failed
  | cancelled
  | noText
  | text (summary : PyText)
deriving DecidableEq

variable (c : Settings)

/-- The loop over the sections that were read, up to the next call of the model. -/
def Settings.loop (d : Sections) : List ContextSection → Task
  | [] => .done
  | x :: rest => if totalTokens d ≤ c.maxTokens then .done else .awaiting x rest

/-- The pass up to the first call of the model. -/
def Settings.compressIfNeeded (d : Sections) (resolves : Bool) : Task :=
  if totalTokens d ≤ c.maxTokens then .done
  else
    let compressible := orderBy ContextSection.priority (d.values.filter (·.compressible))
    if compressible = [] then .done else if !resolves then .done else c.loop d compressible

/-- The sections after the answer to one of them. -/
def Settings.answered (d : Sections) (x : ContextSection) : Answer → Sections
  | .text summary =>
    if x.tokenCount ≤ c.estimateTokens summary then d
    else addSection d ⟨x.name, summary, x.priority, c.estimateTokens summary, x.compressible⟩
  | _ => d

/-! ### Interleavings -/

inductive Call where
  | add (x : ContextSection)
  | remove (name : PyText)
deriving DecidableEq

def Call.apply (d : Sections) : Call → Sections
  | .add x => addSection d x
  | .remove name => removeSection d name

/-- The memory, and what has happened since the pass was started: the sections it was started on,
the calls, the last one first, and the summaries that were obtained and for which content. -/
structure State where
  sections : Sections
  task : Task
  start : Sections
  calls : List Call
  obtained : List (PyText × PyText)

inductive Event where
  | call (call : Call)
  | tryStartCompression
  | started (resolves : Bool)
  | answer (a : Answer)

def Answer.summaries (content : PyText) : Answer → List (PyText × PyText)
  | .text summary => [(content, summary)]
  | _ => []

def tryStartCompression (s : State) : State :=
  if s.task = .none ∨ s.task = .done then ⟨s.sections, .created, s.sections, [], []⟩ else s

/-- A call, or the pass from one await up to the next. -/
def step (s : State) : Event → Option State
  | .call call => some { s with sections := call.apply s.sections, calls := call :: s.calls }
  | .tryStartCompression => some (tryStartCompression s)
  | .started resolves =>
    if s.task = .created then some { s with task := c.compressIfNeeded s.sections resolves }
    else none
  | .answer a =>
    match s.task with
    | .awaiting x rest =>
      let d := c.answered s.sections x a
      some { s with
        sections := d
        task := if a = .cancelled then .done else c.loop d rest
        obtained := a.summaries x.content ++ s.obtained }
    | _ => none

def memory : System State Event where
  init := ⟨.empty _, .none, .empty _, [], []⟩
  step := step c

/-! ### What the calls say -/

/-- The section that the last call for a name made present. -/
def said (start : Sections) : List Call → PyText → Option ContextSection
  | [], name => getSection start name
  | .add x :: calls, name => if x.name = name then some x else said start calls name
  | .remove removed :: calls, name => if removed = name then none else said start calls name

/-- The sections that the calls alone leave. -/
def afterCalls (start : Sections) : List Call → Sections
  | [] => start
  | call :: calls => call.apply (afterCalls start calls)

/-- The section is the one that was said, or it is compressible and has a summary that was
obtained for the content that was said. -/
structure Renders (obtained : List (PyText × PyText)) (x g : ContextSection) : Prop where
  priority : x.priority = g.priority
  compressible : x.compressible = g.compressible
  content : x.content = g.content ∨ (g.content, x.content) ∈ obtained
  unaltered : g.compressible = false → x = g

/-- No call since the start of the pass is lost, and none is undone. -/
structure Kept (s : State) : Prop where
  present : ∀ name, (getSection s.sections name).isSome = (said s.start s.calls name).isSome
  rendered : ∀ name x g, getSection s.sections name = some x → said s.start s.calls name = some g →
    Renders s.obtained x g
  total : totalTokens s.sections ≤ totalTokens (afterCalls s.start s.calls)

/-- The sections whose answers are still to come. -/
def Task.pending : Task → List ContextSection
  | .awaiting x rest => x :: rest
  | _ => []

def Event.summary : Event → Option PyText
  | .answer (.text summary) => some summary
  | _ => none

/-- What is written is about a section that is still there as it was read. -/
def Undisturbed (s : State) (e : Event) : Prop :=
  ∀ x ∈ s.task.pending.head?, ∀ summary ∈ e.summary,
    c.estimateTokens summary < x.tokenCount → getSection s.sections x.name = some x

instance undisturbedDecidable (s : State) (e : Event) : Decidable (Undisturbed c s e) :=
  inferInstanceAs (Decidable (∀ x ∈ s.task.pending.head?, ∀ summary ∈ e.summary,
    c.estimateTokens summary < x.tokenCount → getSection s.sections x.name = some x))

/-! ### Lookups -/

theorem getSection_addSection (d : Sections) (x : ContextSection) (name : PyText) :
    getSection (addSection d x) name = if x.name = name then some x else getSection d name := by
  unfold getSection addSection
  split_ifs with hname
  · rw [← hname]
    exact Keyed.get_put
  · rw [Keyed.get_put_of_ne hname, Keyed.get_erase_of_ne hname]

theorem getSection_removeSection (d : Sections) (removed name : PyText) :
    getSection (removeSection d removed) name =
      if removed = name then none else getSection d name := by
  unfold getSection removeSection
  split_ifs with hname
  · rw [hname]
    exact Keyed.get_erase
  · exact Keyed.get_erase_of_ne hname

theorem getSection_apply {d d' : Sections} {name : PyText}
    (h : getSection d name = getSection d' name) (call : Call) :
    getSection (call.apply d) name = getSection (call.apply d') name := by
  cases call with
  | add x => rw [Call.apply, Call.apply, getSection_addSection, getSection_addSection, h]
  | remove removed =>
    rw [Call.apply, Call.apply, getSection_removeSection, getSection_removeSection, h]

theorem getSection_afterCalls (start : Sections) (calls : List Call) (name : PyText) :
    getSection (afterCalls start calls) name = said start calls name := by
  induction calls with
  | nil => rfl
  | cons call calls ih =>
    cases call with
    | add x => rw [afterCalls, Call.apply, getSection_addSection, ih, said]
    | remove removed => rw [afterCalls, Call.apply, getSection_removeSection, ih, said]

theorem totalTokens_eq (d : Sections) : totalTokens d =
    ((d.values.map ContextSection.name).map fun name =>
      ((getSection d name).map ContextSection.tokenCount).getD 0).sum := by
  rw [totalTokens, List.map_map]
  congr 1
  apply List.map_congr_left
  intro x hx
  rw [Function.comp_apply, getSection, Keyed.get_key hx]
  rfl

/-- Where every section of one memory is as short as that of its name in another one, so is
the whole. -/
theorem totalTokens_le {d d' : Sections}
    (hpresent : ∀ name, (getSection d name).isSome = (getSection d' name).isSome)
    (hle : ∀ name x g, getSection d name = some x → getSection d' name = some g →
      x.tokenCount ≤ g.tokenCount) : totalTokens d ≤ totalTokens d' := by
  have hnames : (d.values.map ContextSection.name).Perm (d'.values.map ContextSection.name) := by
    rw [List.perm_ext_iff_of_nodup d.distinct d'.distinct]
    intro name
    rw [Keyed.mem_keys_iff, Keyed.mem_keys_iff]
    exact Bool.eq_iff_iff.mp (hpresent name)
  rw [totalTokens_eq, totalTokens_eq, (hnames.map _).sum_eq]
  apply List.sum_le_sum
  intro name _
  have hname := hpresent name
  cases hx : getSection d name with
  | none =>
    rw [hx] at hname
    rw [Option.isNone_iff_eq_none.mp (Option.isSome_eq_false_iff.mp hname.symm)]
  | some x =>
    rw [hx] at hname
    obtain ⟨g, hg⟩ := Option.isSome_iff_exists.mp hname.symm
    rw [hg]
    exact hle name x g hx hg

/-! ### The invariant -/

/-- What the invariant says of one name. -/
inductive Agrees (obtained : List (PyText × PyText)) :
    Option ContextSection → Option ContextSection → Prop
  | same (x : Option ContextSection) : Agrees obtained x x
  | summary {x g : ContextSection} (priority : x.priority = g.priority)
      (left : x.compressible = true) (right : g.compressible = true)
      (obtains : (g.content, x.content) ∈ obtained) (shorter : x.tokenCount ≤ g.tokenCount) :
      Agrees obtained (some x) (some g)

structure Inv (s : State) : Prop where
  agrees : ∀ name, Agrees s.obtained (getSection s.sections name) (said s.start s.calls name)
  fresh : s.task = .created → ∀ name, getSection s.sections name = said s.start s.calls name
  names : (s.task.pending.map ContextSection.name).Nodup
  compressible : ∀ x ∈ s.task.pending, x.compressible = true
  unwritten : ∀ x ∈ s.task.pending, getSection s.sections x.name = said s.start s.calls x.name

variable {c} {s t : State}

theorem Agrees.mono {obtained more : List (PyText × PyText)} {x g : Option ContextSection}
    (h : Agrees obtained x g) : Agrees (more ++ obtained) x g := by
  cases h with
  | same => exact .same x
  | summary hpriority hleft hright hobtains hshorter =>
    exact .summary hpriority hleft hright (List.mem_append_right _ hobtains) hshorter

theorem Agrees.isSome {obtained : List (PyText × PyText)} {x g : Option ContextSection}
    (h : Agrees obtained x g) : x.isSome = g.isSome := by
  cases h with
  | same => rfl
  | summary => rfl

theorem Agrees.renders {obtained : List (PyText × PyText)} {x g : ContextSection}
    (h : Agrees obtained (some x) (some g)) :
    Renders obtained x g ∧ x.tokenCount ≤ g.tokenCount := by
  cases h with
  | same => exact ⟨⟨rfl, rfl, .inl rfl, fun _ => rfl⟩, le_rfl⟩
  | summary hpriority hleft hright hobtains hshorter =>
    refine ⟨⟨hpriority, by rw [hleft, hright], .inr hobtains, fun hfalse => ?_⟩, hshorter⟩
    rw [hright] at hfalse
    cases hfalse

theorem Inv.kept (h : Inv s) : Kept s := by
  refine ⟨fun name => (h.agrees name).isSome, fun name x g hx hg => ?_, ?_⟩
  · have hagrees := h.agrees name
    rw [hx, hg] at hagrees
    exact hagrees.renders.1
  · apply totalTokens_le
    · intro name
      rw [getSection_afterCalls]
      exact (h.agrees name).isSome
    · intro name x g hx hg
      rw [getSection_afterCalls] at hg
      have hagrees := h.agrees name
      rw [hx, hg] at hagrees
      exact hagrees.renders.2

/-! ### What a step preserves -/

theorem Inv.call (h : Inv s) (call : Call) :
    Inv { s with sections := call.apply s.sections, calls := call :: s.calls } := by
  have hsame : ∀ name, getSection s.sections name = said s.start s.calls name →
      getSection (call.apply s.sections) name = said s.start (call :: s.calls) name := by
    intro name hname
    rw [← getSection_afterCalls] at hname ⊢
    exact getSection_apply hname call
  refine ⟨fun name => ?_, fun htask name => hsame name (h.fresh htask name), h.names,
    h.compressible, fun x hx => hsame x.name (h.unwritten x hx)⟩
  have hagrees := h.agrees name
  cases call with
  | add x =>
    dsimp only [Call.apply, said]
    rw [getSection_addSection]
    split_ifs
    · exact .same _
    · exact hagrees
  | remove removed =>
    dsimp only [Call.apply, said]
    rw [getSection_removeSection]
    split_ifs
    · exact .same _
    · exact hagrees

theorem Inv.tryStartCompression (h : Inv s) : Inv (tryStartCompression s) := by
  unfold Working.tryStartCompression
  split_ifs
  · exact ⟨fun name => .same _, fun _ _ => rfl, List.nodup_nil,
      fun x hx => absurd hx List.not_mem_nil, fun x hx => absurd hx List.not_mem_nil⟩
  · exact h

theorem pending_loop (d : Sections) (rest : List ContextSection) :
    (c.loop d rest).pending = rest ∨ (c.loop d rest).pending = [] := by
  cases rest with
  | nil => exact .inl rfl
  | cons x rest =>
    rw [Settings.loop]
    split_ifs
    · exact .inr rfl
    · exact .inl rfl

theorem loop_ne_created (d : Sections) (rest : List ContextSection) :
    c.loop d rest ≠ .created := by
  intro hcreated
  cases rest with
  | nil => cases hcreated
  | cons x rest =>
    rw [Settings.loop] at hcreated
    split_ifs at hcreated

/-- The pass waits for sections that it has read, each once. -/
theorem pending_compressIfNeeded (d : Sections) (resolves : Bool) :
    (c.compressIfNeeded d resolves).pending =
        orderBy ContextSection.priority (d.values.filter (·.compressible)) ∨
      (c.compressIfNeeded d resolves).pending = [] := by
  unfold Settings.compressIfNeeded
  dsimp only
  split_ifs
  · exact .inr rfl
  · exact .inr rfl
  · exact .inr rfl
  · exact pending_loop d _

theorem compressIfNeeded_ne_created (d : Sections) (resolves : Bool) :
    c.compressIfNeeded d resolves ≠ .created := by
  unfold Settings.compressIfNeeded
  dsimp only
  split_ifs
  · simp
  · simp
  · simp
  · exact loop_ne_created d _

theorem Inv.started (h : Inv s) (htask : s.task = .created) (resolves : Bool) :
    Inv { s with task := c.compressIfNeeded s.sections resolves } := by
  have hread : ∀ x ∈ orderBy ContextSection.priority (s.sections.values.filter (·.compressible)),
      x.compressible = true := fun x hx => (List.mem_filter.mp (mem_orderBy.mp hx)).2
  have hnames : ((orderBy ContextSection.priority
      (s.sections.values.filter (·.compressible))).map ContextSection.name).Nodup := by
    rw [((perm_orderBy _ _).map _).nodup_iff]
    exact s.sections.distinct.sublist (List.filter_sublist.map _)
  refine ⟨h.agrees, fun hcreated => absurd hcreated (compressIfNeeded_ne_created _ _), ?_, ?_,
    fun x _ => h.fresh htask x.name⟩
  · rcases pending_compressIfNeeded (c := c) s.sections resolves with hpending | hpending
    · exact hpending ▸ hnames
    · exact hpending ▸ List.nodup_nil
  · intro x hx
    rcases pending_compressIfNeeded (c := c) s.sections resolves with hpending | hpending
    · exact hread x (hpending ▸ hx)
    · exact absurd (hpending ▸ hx) List.not_mem_nil

theorem answered_cases (c : Settings) (d : Sections) (x : ContextSection) (a : Answer) :
    c.answered d x a = d ∨ ∃ summary, a = .text summary ∧
      c.estimateTokens summary < x.tokenCount ∧ c.answered d x a =
        addSection d ⟨x.name, summary, x.priority, c.estimateTokens summary, x.compressible⟩ := by
  cases a with
  | failed => exact .inl rfl
  | cancelled => exact .inl rfl
  | noText => exact .inl rfl
  | text summary =>
    rw [Settings.answered]
    split_ifs with hlong
    · exact .inl rfl
    · exact .inr ⟨summary, rfl, not_le.mp hlong, rfl⟩

/-- The pass goes on with what is left, or ends. -/
theorem pending_answered {d : Sections} {a : Answer} {rest : List ContextSection} {y : ContextSection}
    (h : y ∈ (if a = .cancelled then Task.done else c.loop d rest).pending) : y ∈ rest := by
  split_ifs at h
  · exact absurd h List.not_mem_nil
  · rcases pending_loop (c := c) d rest with hpending | hpending
    · exact hpending ▸ h
    · exact absurd (hpending ▸ h) List.not_mem_nil

theorem Inv.answer (h : Inv s) {x : ContextSection} {rest : List ContextSection}
    (htask : s.task = .awaiting x rest) {a : Answer} (hundisturbed : Undisturbed c s (.answer a)) :
    Inv { s with
      sections := c.answered s.sections x a
      task := if a = .cancelled then .done else c.loop (c.answered s.sections x a) rest
      obtained := a.summaries x.content ++ s.obtained } := by
  have hpending : s.task.pending = x :: rest := by rw [htask, Task.pending]
  have hnames := h.names
  have hcompressible := h.compressible
  have hunwritten := h.unwritten
  rw [hpending, List.map_cons, List.nodup_cons] at hnames
  rw [hpending, List.forall_mem_cons] at hcompressible hunwritten
  have hothers : ∀ name, name ≠ x.name →
      getSection (c.answered s.sections x a) name = getSection s.sections name := by
    intro name hname
    rcases answered_cases c s.sections x a with hsame | ⟨summary, -, -, hwritten⟩
    · rw [hsame]
    · rw [hwritten, getSection_addSection, if_neg (Ne.symm hname)]
  refine ⟨fun name => ?_, fun hcreated => ?_, ?_, fun y hy => hcompressible.2 y (pending_answered hy),
    fun y hy => ?_⟩
  · rcases answered_cases c s.sections x a with hsame | ⟨summary, rfl, hshort, hwritten⟩
    · rw [hsame]
      exact (h.agrees name).mono
    · by_cases hname : x.name = name
      · have hthere := hundisturbed x (by rw [hpending]; rfl) summary rfl hshort
        rw [hwritten, getSection_addSection, if_pos hname, ← hname, ← hunwritten.1, hthere]
        exact .summary rfl hcompressible.1 hcompressible.1
          (List.mem_append_left _ (List.mem_singleton.mpr rfl)) hshort.le
      · rw [hothers name (Ne.symm hname)]
        exact (h.agrees name).mono
  · dsimp only at hcreated
    split_ifs at hcreated
    exact absurd hcreated (loop_ne_created _ _)
  · dsimp only
    split_ifs
    · exact List.nodup_nil
    · rcases pending_loop (c := c) (c.answered s.sections x a) rest with hrest | hrest
      · rw [hrest]
        exact hnames.2
      · rw [hrest]
        exact List.nodup_nil
  · have hmem := pending_answered hy
    have hne : y.name ≠ x.name := fun heq => hnames.1 (heq ▸ List.mem_map_of_mem hmem)
    rw [hothers y.name hne]
    exact hunwritten.2 y hmem

theorem Inv.step {e : Event} (h : Inv s) (hundisturbed : Undisturbed c s e)
    (hstep : step c s e = some t) : Inv t := by
  cases e with
  | call call =>
    cases hstep
    exact h.call call
  | tryStartCompression =>
    cases hstep
    exact h.tryStartCompression
  | started resolves =>
    rw [Working.step] at hstep
    split_ifs at hstep with htask
    cases hstep
    exact h.started htask resolves
  | answer a =>
    cases htask : s.task with
    | none => rw [Working.step, htask] at hstep; cases hstep
    | created => rw [Working.step, htask] at hstep; cases hstep
    | done => rw [Working.step, htask] at hstep; cases hstep
    | awaiting x rest =>
      rw [Working.step, htask] at hstep
      cases hstep
      exact h.answer htask hundisturbed

theorem inv_init : Inv (memory c).init :=
  ⟨fun _ => .same _, fun _ _ => rfl, List.nodup_nil, fun _ hx => absurd hx List.not_mem_nil,
    fun _ hx => absurd hx List.not_mem_nil⟩

/-- In a run in which every summary is written about a section that is still there as it was read,
no call is lost or undone. -/
theorem compression_kept (h : (memory c).Reaches (Undisturbed c) s) : Kept s := by
  have hinv : Inv s := by
    refine h.invariant inv_init (fun s e t hs hundisturbed hstep => ?_)
    exact Inv.step hs hundisturbed hstep
  exact hinv.kept

/-- A token for each character. -/
def small : Settings := ⟨5, List.length⟩

def history (content : PyText) : ContextSection := ⟨[104], content, 1, 10, true⟩

theorem compression_kept_summary : ∃ s, (memory small).Reaches (Undisturbed small) s ∧
    s.sections.values = [⟨[104], [3], 1, 1, true⟩] ∧ Kept s := by
  obtain ⟨s, hexec, hsections⟩ := @System.exists_of_exec _ _ ((memory small).guarded
    (Undisturbed small)) [.call (.add (history [1])), .tryStartCompression, .started true,
      .answer (.text [3])] (fun s => s.sections.values = [⟨[104], [3], 1, 1, true⟩]) _
    (by decide)
  have hreaches := (System.reachable_exec hexec).of_guarded
  exact ⟨s, hreaches, hsections, compression_kept hreaches⟩

/-- The summary of the content that was read takes the place of the content that a call has put
there since. -/
theorem compression_overwrites : ∃ s, (memory small).Reachable s ∧ ¬Kept s := by
  obtain ⟨s, hexec, hsections⟩ := @System.exists_of_exec _ _ (memory small)
    [.call (.add (history [1])), .tryStartCompression, .started true,
      .call (.add (history [2])), .answer (.text [3])]
    (fun s => getSection s.sections [104] = some ⟨[104], [3], 1, 1, true⟩ ∧
      said s.start s.calls [104] = some (history [2]) ∧ s.obtained = [([1], [3])]) _ (by decide)
  refine ⟨s, System.reachable_exec hexec, fun h => ?_⟩
  have hcontent := (h.rendered _ _ _ hsections.1 hsections.2.1).content
  rw [hsections.2.2] at hcontent
  exact absurd hcontent (by decide)

end Persatrix.Working
