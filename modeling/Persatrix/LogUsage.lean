import Persatrix.LogDisk
import Persatrix.Keyed
import Persatrix.System

/-!
# What the sequence files take on disk

The flushes of a store run at the same time, and each ends with a sweep that evicts executions
while the counter is over the cap. A flush stands between two of its steps: the sections under
the mutex, the operations on the counter, and those on the file system. A step that would fail
is not taken.
-/
namespace Persatrix.LogBuffer.Usage
open Security

structure File where
  execution : GoString
  seq : ℕ
  content : GoString
deriving DecidableEq

namespace File

def name (f : File) : GoString × ℕ := (f.execution, f.seq)

def size (f : File) : ℕ := f.content.length

end File

/-- A candidate of a sweep. -/
structure Item where
  id : GoString
  size : ℕ
  mtim : ℤ
deriving DecidableEq

/-- Where a flush stands, with what it knows there. -/
inductive Point where
  | called
  | made
  | reserved (seq : ℕ)
  | written (seq : ℕ)
  /-- The size of the file that was moved is learnt by the stat. -/
  | renamed (seq size : ℕ)
  | stated (added : ℕ)
  | mapped (added : ℕ)
  | counted
  | overCap
  | looping (candidates : List Item)
  | chosen (it : Item) (rest : List Item)
  | removed (it : Item) (rest : List Item)
  | forgotten (finalSize : ℕ) (rest : List Item)
  | returned
deriving DecidableEq

structure Flush where
  execution : GoString
  /-- The entries as they are encoded. -/
  lines : List GoString
  point : Point
deriving DecidableEq

/-- The store and the file system below its root. -/
structure DiskStore where
  cap : ℤ
  usage : ℤ
  nextSeq : Keyed (Prod.fst : GoString × ℕ → GoString)
  totalMap : Keyed (Prod.fst : GoString × ℕ → GoString)
  dirs : List GoString
  tmps : Keyed File.name
  files : Keyed File.name

namespace DiskStore
variable (d : DiskStore)

/-- What `totalMap` has for an execution. -/
def held (id : GoString) : ℕ := ((d.totalMap.get id).map Prod.snd).getD 0

def total : ℕ := (d.totalMap.values.map Prod.snd).sum

/-- What the files of an execution take. -/
def sizeOf (id : GoString) : ℕ :=
  ((d.files.values.filter fun f => f.execution = id).map File.size).sum

def real : ℕ := (d.files.values.map File.size).sum

def mkdirAll (id : GoString) : DiskStore :=
  { d with dirs := if id ∈ d.dirs then d.dirs else d.dirs ++ [id] }

/-- The number under which the next file of the execution goes. -/
def reserve (id : GoString) : ℕ × DiskStore :=
  let found := ((d.nextSeq.get id).map Prod.snd).getD 0
  let seq := if found = 0 then 1 else found
  (seq, { d with nextSeq := d.nextSeq.put (id, seq + 1) })

def writeTmp (f : File) : Option DiskStore :=
  if f.execution ∈ d.dirs then some { d with tmps := d.tmps.put f } else none

/-- The file that is moved takes the place of one with its name. -/
def rename (name : GoString × ℕ) : Option (File × DiskStore) :=
  (d.tmps.get name).map fun f =>
    (f, { d with tmps := d.tmps.erase name, files := d.files.put f })

def addTotal (id : GoString) (added : ℕ) : DiskStore :=
  { d with totalMap := d.totalMap.put (id, d.held id + added) }

def addUsage (n : ℤ) : DiskStore := { d with usage := d.usage + n }

def removeAll (id : GoString) : DiskStore :=
  { d with
    dirs := d.dirs.filter fun dir => dir ≠ id
    tmps := d.tmps.select (fun f => f.execution ≠ id) (fun f => f) fun _ => rfl
    files := d.files.select (fun f => f.execution ≠ id) (fun f => f) fun _ => rfl }

/-- The size that the execution has, or had when the sweep began. -/
def forget (it : Item) : ℕ × DiskStore :=
  (((d.totalMap.get it.id).map Prod.snd).getD it.size,
    { d with totalMap := d.totalMap.erase it.id, nextSeq := d.nextSeq.erase it.id })

/-- The candidates are the executions of the map, the oldest directory first. -/
def Candidates (order : List Item) : Prop :=
  (order.map fun it => (it.id, it.size)).Perm d.totalMap.values ∧
    order.Pairwise fun a b => a.mtim ≤ b.mtim

instance (order : List Item) : Decidable (d.Candidates order) := by
  unfold Candidates
  infer_instance

/-- The next step of a flush, or of its sweep. -/
def take (t : Flush) (order : List Item) : Option (DiskStore × Point) :=
  match t.point with
  | .called => some (d.mkdirAll t.execution, .made)
  | .made => some ((d.reserve t.execution).2, .reserved (d.reserve t.execution).1)
  | .reserved seq =>
    (d.writeTmp ⟨t.execution, seq, t.lines.flatMap (· ++ [newline])⟩).map fun d =>
      (d, .written seq)
  | .written seq =>
    (d.rename (t.execution, seq)).map fun res => (res.2, .renamed seq res.1.size)
  | .renamed seq _ =>
    (d.files.get (t.execution, seq)).map fun f => (d, .stated f.size)
  | .stated added => some (d.addTotal t.execution added, .mapped added)
  | .mapped added => some (d.addUsage added, .counted)
  | .counted => some (d, if d.cap ≤ 0 ∨ d.usage ≤ d.cap then .returned else .overCap)
  | .overCap => if d.Candidates order then some (d, .looping order) else none
  | .looping [] => some (d, .returned)
  | .looping (it :: rest) => some (d, if d.usage ≤ d.cap then .returned else .chosen it rest)
  | .chosen it rest => some (d.removeAll it.id, .removed it rest)
  | .removed it rest => some ((d.forget it).2, .forgotten (d.forget it).1 rest)
  | .forgotten finalSize rest => some (d.addUsage (-finalSize), .looping rest)
  | .returned => none

end DiskStore

/-- The flushes of a store, each under its position. -/
structure Store where
  disk : DiskStore
  flushes : List Flush

inductive Event where
  | call (execution : GoString) (lines : List GoString)
  /-- A flush goes on; if it takes a snapshot, the candidates are in this order. -/
  | advance (i : ℕ) (order : List Item)
deriving DecidableEq

namespace Store
variable (s : Store)

def step : Event → Option Store
  | .call execution lines =>
    if lines = [] ∨ validExecutionID execution = false then some s
    else some { s with flushes := s.flushes ++ [⟨execution, lines, .called⟩] }
  | .advance i order =>
    s.flushes[i]?.bind fun t =>
      (s.disk.take t order).map fun res =>
        ⟨res.1, s.flushes.set i { t with point := res.2 }⟩

/-- No flush and no sweep is in progress. -/
def Quiet : Prop := ∀ t ∈ s.flushes, t.point = .returned

instance : Decidable s.Quiet := by
  unfold Quiet
  infer_instance

end Store

/-- What a process finds below the root of its store. -/
structure Tree where
  dirs : List GoString
  tmps : Keyed File.name
  files : Keyed File.name
  nodup : dirs.Nodup
  inDirs : ∀ f ∈ files.values, f.execution ∈ dirs

namespace Tree
variable (tree : Tree)

def sizeOf (id : GoString) : ℕ :=
  ((tree.files.values.filter fun f => f.execution = id).map File.size).sum

def maxSeq (id : GoString) : ℕ :=
  ((tree.files.values.filter fun f => f.execution = id).map File.seq).foldr max 0

/-- One entry for each directory. -/
def perDir (g : GoString → ℕ) : Keyed (Prod.fst : GoString × ℕ → GoString) where
  values := tree.dirs.map fun id => (id, g id)
  distinct := by
    rw [List.map_map]
    exact (List.map_id _).symm ▸ tree.nodup

/-- `newDiskStore`, with its scan of the tree. -/
def scan (cap : ℤ) : Store where
  disk :=
    { cap := cap
      usage := ((tree.dirs.map tree.sizeOf).sum : ℕ)
      nextSeq := tree.perDir fun id => tree.maxSeq id + 1
      totalMap := tree.perDir tree.sizeOf
      dirs := tree.dirs
      tmps := tree.tmps
      files := tree.files }
  flushes := []

end Tree

def system (tree : Tree) (cap : ℤ) : System Store Event := ⟨tree.scan cap, Store.step⟩

/-! ### Which steps may disturb the accounts -/

namespace Point

/-- The bytes of a file that is in place and not in the map yet. -/
def unmapped : Point → ℕ
  | renamed _ size => size
  | stated added => added
  | _ => 0

/-- The bytes that are in the map and not in the counter yet. -/
def uncounted : Point → ℕ
  | mapped added => added
  | _ => 0

/-- The bytes that are out of the map and still in the counter. -/
def unfreed : Point → ℕ
  | forgotten finalSize _ => finalSize
  | _ => 0

def isUnmapped : Point → Bool
  | renamed _ _ | stated _ => true
  | _ => false

/-- The file is in place and the counter does not hold it. -/
def inPlace : Point → Bool
  | renamed _ _ | stated _ | mapped _ => true
  | _ => false

def hasChosen : Point → Bool
  | chosen _ _ => true
  | _ => false

/-- The directory of the execution is removed, and the map still has the execution. -/
def hasRemoved (id : GoString) : Point → Bool
  | removed it _ => it.id = id
  | _ => false

/-- Between the look at the counter that makes the sweep remove a directory and the subtraction
of its size. -/
def evicting : Point → Bool
  | chosen _ _ | removed _ _ | forgotten _ _ => true
  | _ => false

end Point

/-- What a step must find, so that it does not disturb the accounts. -/
def Flush.Undisturbed (s : Store) (t : Flush) : Prop :=
  match t.point with
  | .written seq => s.disk.files.get (t.execution, seq) = none
  | .stated _ => ∀ u ∈ s.flushes, u.point.hasRemoved t.execution = false
  | .counted =>
    s.disk.cap ≤ 0 ∨ s.disk.cap < s.disk.usage ∨ ∀ u ∈ s.flushes, u.point.inPlace = false
  | .looping (_ :: _) =>
    if s.disk.usage ≤ s.disk.cap then ∀ u ∈ s.flushes, u.point.inPlace = false
    else ∀ u ∈ s.flushes, u.point.evicting = false
  | .chosen it _ => ∀ u ∈ s.flushes, u.execution = it.id → u.point.isUnmapped = false
  | .removed it _ => (s.disk.totalMap.get it.id).isSome = true
  | _ => True

instance (s : Store) (t : Flush) : Decidable (t.Undisturbed s) := by
  unfold Flush.Undisturbed
  split <;> infer_instance

def Undisturbed (s : Store) : Event → Prop
  | .call _ _ => True
  | .advance i _ => ∀ t ∈ s.flushes[i]?, t.Undisturbed s

instance (s : Store) : ∀ e, Decidable (Undisturbed s e)
  | .call _ _ => .isTrue trivial
  | .advance i _ => by
    unfold Undisturbed
    infer_instance

/-- The step removes a directory. -/
def Store.Removes (s : Store) : Event → Prop
  | .call _ _ => False
  | .advance i _ => ∃ t ∈ s.flushes[i]?, t.point.hasChosen = true

/-- The step ends a sweep that has a candidate left, or that takes none. -/
def Store.Stops (s : Store) : Event → Prop
  | .call _ _ => False
  | .advance i _ => ∃ t ∈ s.flushes[i]?, s.disk.usage ≤ s.disk.cap ∧
      (t.point = .counted ∧ 0 < s.disk.cap ∨ ∃ it rest, t.point = .looping (it :: rest))

/-! ### What the operations do to the totals -/

namespace DiskStore
variable {d : DiskStore} {id x : GoString} {n : ℕ}

theorem held_of_get (h : d.totalMap.get id = some (x, n)) : d.held id = n := by
  rw [held, h]
  rfl

theorem held_of_none (h : d.totalMap.get id = none) : d.held id = 0 := by
  rw [held, h]
  rfl

/-- The total is what the execution has and what the others have. -/
theorem total_eq (d : DiskStore) (id : GoString) :
    d.total = d.held id + tally Prod.snd (d.totalMap.erase id).values := by
  cases hget : d.totalMap.get id with
  | none =>
    rw [held_of_none hget, Keyed.erase_of_get_none hget, Nat.zero_add]
    rfl
  | some entry =>
    obtain ⟨hmem, rfl⟩ := Keyed.get_eq_some.mp hget
    rw [held_of_get hget]
    have hperm := (Keyed.perm_erase hmem).map Prod.snd
    exact hperm.sum_eq.trans List.sum_cons

theorem total_addTotal : (d.addTotal id n).total = d.total + n := by
  have hperm := (@Keyed.perm_put _ _ _ _ d.totalMap (id, d.held id + n)).map Prod.snd
  have hput : (d.addTotal id n).total =
      d.held id + n + tally Prod.snd (d.totalMap.erase id).values :=
    hperm.sum_eq.trans List.sum_cons
  rw [hput, d.total_eq id]
  omega

theorem held_addTotal :
    (d.addTotal id n).held x = d.held x + if id = x then n else 0 := by
  unfold addTotal
  by_cases hx : id = x
  · subst hx
    rw [if_pos rfl, held, Keyed.get_put]
    rfl
  · rw [if_neg hx, held, Keyed.get_put_of_ne hx]
    rfl

theorem total_forget (it : Item) : (d.forget it).2.total + d.held it.id = d.total := by
  rw [d.total_eq it.id, Nat.add_comm]
  rfl

theorem held_forget (it : Item) :
    (d.forget it).2.held x = if it.id = x then 0 else d.held x := by
  unfold forget
  by_cases hx : it.id = x
  · subst hx
    rw [if_pos rfl, held, Keyed.get_erase]
    rfl
  · rw [if_neg hx, held, Keyed.get_erase_of_ne hx]
    rfl

theorem forget_held {it : Item} (h : (d.totalMap.get it.id).isSome = true) :
    (d.forget it).1 = d.held it.id := by
  obtain ⟨entry, hentry⟩ := Option.isSome_iff_exists.mp h
  rw [forget, held, hentry]
  rfl

theorem values_put_files {f : File} (h : d.files.get f.name = none) :
    (d.files.put f).values = d.files.values ++ [f] := by
  refine Keyed.values_put_of_not_mem fun hmem => ?_
  rw [Keyed.mem_keys_iff, h] at hmem
  cases hmem

/-- A file that takes no other's place adds its size. -/
theorem rename_spec {name : GoString × ℕ} {f : File} {d' : DiskStore}
    (h : d.rename name = some (f, d')) (hfree : d.files.get name = none) :
    f.name = name ∧ d'.usage = d.usage ∧ d'.cap = d.cap ∧ d'.totalMap = d.totalMap ∧
      d'.files = d.files.put f ∧ d'.real = d.real + f.size ∧
      ∀ x, d'.sizeOf x = d.sizeOf x + if f.execution = x then f.size else 0 := by
  obtain ⟨g, hget, heq⟩ := Option.map_eq_some_iff.mp h
  cases heq
  obtain ⟨-, rfl⟩ := Keyed.get_eq_some.mp hget
  refine ⟨rfl, rfl, rfl, rfl, rfl, ?_, ?_⟩
  · rw [real, values_put_files hfree, List.map_append, List.sum_append]
    rfl
  · intro x
    rw [sizeOf, values_put_files hfree, List.filter_append, List.map_append, List.sum_append]
    by_cases hx : f.execution = x
    · rw [if_pos hx, List.filter_cons_of_pos (by simpa using hx)]
      rfl
    · rw [if_neg hx, List.filter_cons_of_neg (by simpa using hx)]
      rfl

theorem sizeOf_removeAll :
    (d.removeAll id).sizeOf x = if id = x then 0 else d.sizeOf x := by
  simp only [removeAll, sizeOf, Keyed.select, List.map_id']
  rw [List.filter_filter]
  by_cases hx : id = x
  · subst hx
    rw [if_pos rfl]
    simp
  · rw [if_neg hx]
    refine congrArg (fun l => (l.map File.size).sum) (List.filter_congr fun f _ => ?_)
    by_cases hf : f.execution = x
    · simp [hf, Ne.symm hx]
    · simp [hf]

theorem get_removeAll {name : GoString × ℕ} (h : name.1 ≠ id) :
    (d.removeAll id).files.get name = d.files.get name := by
  refine Option.ext fun f => ?_
  rw [Keyed.get_eq_some, Keyed.get_eq_some]
  unfold removeAll
  dsimp only
  constructor
  · rintro ⟨hf, hname⟩
    obtain ⟨g, hg, -, rfl⟩ := Keyed.mem_select.mp hf
    exact ⟨hg, hname⟩
  · rintro ⟨hf, rfl⟩
    exact ⟨Keyed.mem_select.mpr ⟨f, hf, decide_eq_true h, rfl⟩, rfl⟩

/-- The files by their executions, those that the map has and the others. -/
theorem real_eq (d : DiskStore) :
    d.real = tally d.sizeOf (d.totalMap.values.map Prod.fst) +
      tally File.size (d.files.values.filter fun f =>
        f.execution ∉ d.totalMap.values.map Prod.fst) := by
  convert tally_classes File.size File.execution d.files.values d.totalMap.distinct
  · rfl
  · rfl

theorem total_eq_held (d : DiskStore) :
    d.total = tally d.held (d.totalMap.values.map Prod.fst) := by
  rw [tally, List.map_map]
  refine congrArg List.sum (List.map_congr_left fun entry hentry => ?_)
  exact (held_of_get (Keyed.get_key hentry)).symm

theorem total_le_real (h : ∀ x, d.held x ≤ d.sizeOf x) : d.total ≤ d.real := by
  rw [d.real_eq, d.total_eq_held]
  exact (tally_le_tally fun x _ => h x).trans (Nat.le_add_right _ _)

theorem real_le_total (h : ∀ x, d.sizeOf x ≤ d.held x) : d.real ≤ d.total := by
  have hnone : tally File.size (d.files.values.filter fun f =>
      f.execution ∉ d.totalMap.values.map Prod.fst) = 0 := by
    refine tally_eq_zero.mpr fun f hf => ?_
    obtain ⟨hmem, hout⟩ := List.mem_filter.mp hf
    have hget : d.totalMap.get f.execution = none := by
      refine Option.not_isSome_iff_eq_none.mp fun hsome => of_decide_eq_true hout ?_
      exact Keyed.mem_keys_iff.mpr hsome
    have hsize : f.size ≤ d.sizeOf f.execution :=
      le_tally (List.mem_filter.mpr ⟨hmem, decide_eq_true rfl⟩)
    have hheld := h f.execution
    rw [held_of_none hget] at hheld
    omega
  rw [d.real_eq, hnone, d.total_eq_held]
  exact tally_le_tally fun x _ => h x

end DiskStore

/-! ### The invariant -/

namespace Flush

def unmappedOf (id : GoString) (t : Flush) : ℕ :=
  if t.execution = id then t.point.unmapped else 0

def uncounted (t : Flush) : ℕ := t.point.uncounted

def unfreed (t : Flush) : ℕ := t.point.unfreed

def removedOf (id : GoString) (t : Flush) : ℕ := (t.point.hasRemoved id).toNat

def evicting (t : Flush) : ℕ := t.point.evicting.toNat

def hasChosen (t : Flush) : ℕ := t.point.hasChosen.toNat

end Flush

/-- The bytes that are on their way are on disk and not in the map, in the map and not in the
counter, or out of the map and in the counter. -/
structure Inv (d : DiskStore) (fs : List Flush) : Prop where
  ledger : d.usage + (tally Flush.uncounted fs : ℤ) = d.total + (tally Flush.unfreed fs : ℤ)
  settled : ∀ id, tally (Flush.removedOf id) fs = 0 →
    d.held id + tally (Flush.unmappedOf id) fs = d.sizeOf id
  emptied : ∀ id, 0 < tally (Flush.removedOf id) fs →
    tally (Flush.unmappedOf id) fs = d.sizeOf id
  moved : ∀ t ∈ fs, ∀ seq size, t.point = .renamed seq size →
    ∃ f, d.files.get (t.execution, seq) = some f ∧ f.size = size
  alone : tally Flush.evicting fs ≤ 1
  chosen : 0 < tally Flush.hasChosen fs → d.cap < d.real

variable {d d' : DiskStore} {fs : List Flush} {i : ℕ} {t : Flush} {p : Point}

/-- How the sums change where one flush goes on. -/
structure Shift (fs fs' : List Flush) (t t' : Flush) : Prop where
  unmapped : ∀ id, tally (Flush.unmappedOf id) fs' + t.unmappedOf id =
    tally (Flush.unmappedOf id) fs + t'.unmappedOf id
  uncounted : tally Flush.uncounted fs' + t.uncounted = tally Flush.uncounted fs + t'.uncounted
  unfreed : tally Flush.unfreed fs' + t.unfreed = tally Flush.unfreed fs + t'.unfreed
  removed : ∀ id, tally (Flush.removedOf id) fs' + t.removedOf id =
    tally (Flush.removedOf id) fs + t'.removedOf id
  evicting : tally Flush.evicting fs' + t.evicting = tally Flush.evicting fs + t'.evicting
  chosen : tally Flush.hasChosen fs' + t.hasChosen = tally Flush.hasChosen fs + t'.hasChosen

theorem shift (ht : fs[i]? = some t) (t' : Flush) : Shift fs (fs.set i t') t t' where
  unmapped := fun _ => tally_set ht t'
  uncounted := tally_set ht t'
  unfreed := tally_set ht t'
  removed := fun _ => tally_set ht t'
  evicting := tally_set ht t'
  chosen := tally_set ht t'

theorem Inv.moved_set (h : Inv d fs) {t' : Flush}
    (hkeep : ∀ u ∈ fs, ∀ seq size, u.point = .renamed seq size →
      d'.files.get (u.execution, seq) = d.files.get (u.execution, seq))
    (hnew : ∀ seq size, t'.point = .renamed seq size →
      ∃ f, d'.files.get (t'.execution, seq) = some f ∧ f.size = size) :
    ∀ u ∈ fs.set i t', ∀ seq size, u.point = .renamed seq size →
      ∃ f, d'.files.get (u.execution, seq) = some f ∧ f.size = size := by
  intro u hu seq size hpoint
  rcases List.mem_or_eq_of_mem_set hu with hu | rfl
  · rw [hkeep u hu seq size hpoint]
    exact h.moved u hu seq size hpoint
  · exact hnew seq size hpoint

/-- A step that changes neither the map nor the files. -/
theorem Inv.move (h : Inv d fs) (ht : fs[i]? = some t) (hcap : d'.cap = d.cap)
    (hmap : d'.totalMap = d.totalMap) (hfiles : d'.files = d.files)
    (hunmapped : p.unmapped = t.point.unmapped)
    (hremoved : ∀ id, p.hasRemoved id = t.point.hasRemoved id)
    (hevicting : p.evicting.toNat ≤ t.point.evicting.toNat)
    (hchosen : p.hasChosen.toNat ≤ t.point.hasChosen.toNat)
    (hledger : d'.usage + (p.uncounted : ℤ) + (t.point.unfreed : ℤ) =
      d.usage + (t.point.uncounted : ℤ) + (p.unfreed : ℤ))
    (hmoved : ∀ seq size, p ≠ .renamed seq size) : Inv d' (fs.set i { t with point := p }) := by
  obtain ⟨hu, hc, hf, hr, he, hh⟩ := shift ht { t with point := p }
  simp only [Flush.unmappedOf, Flush.uncounted, Flush.unfreed, Flush.removedOf, Flush.evicting,
    Flush.hasChosen, hunmapped, hremoved, Nat.add_right_cancel_iff] at hu hc hf hr he hh
  have htotal : d'.total = d.total := by unfold DiskStore.total; rw [hmap]
  have hreal : d'.real = d.real := by unfold DiskStore.real; rw [hfiles]
  have hheld : ∀ id, d'.held id = d.held id := fun id => by unfold DiskStore.held; rw [hmap]
  have hsize : ∀ id, d'.sizeOf id = d.sizeOf id := fun id => by
    unfold DiskStore.sizeOf; rw [hfiles]
  constructor
  · rw [htotal]
    have := h.ledger
    omega
  · intro id
    rw [hr, hu, hheld, hsize]
    exact h.settled id
  · intro id
    rw [hr, hu, hsize]
    exact h.emptied id
  · exact h.moved_set (fun _ _ _ _ _ => by rw [hfiles]) fun seq size hp => absurd hp (hmoved seq size)
  · have := h.alone
    omega
  · rw [hcap, hreal]
    have := h.chosen
    omega

/-- A point at which nothing is on its way. -/
def Point.idle : Point → Bool
  | called | made | reserved _ | written _ | counted | overCap | looping _ | returned => true
  | _ => false

theorem Point.weights_of_idle (h : p.idle = true) :
    p.unmapped = 0 ∧ p.uncounted = 0 ∧ p.unfreed = 0 ∧ (∀ id, p.hasRemoved id = false) ∧
      p.evicting = false ∧ p.hasChosen = false ∧ ∀ seq size, p ≠ .renamed seq size := by
  cases p <;> simp_all [idle, unmapped, uncounted, unfreed, hasRemoved, evicting, hasChosen]

/-- A step between two points at which nothing is on its way. -/
theorem Inv.idle (h : Inv d fs) (ht : fs[i]? = some t) (hidle : t.point.idle = true)
    (hidle' : p.idle = true) (husage : d'.usage = d.usage) (hcap : d'.cap = d.cap)
    (hmap : d'.totalMap = d.totalMap) (hfiles : d'.files = d.files) :
    Inv d' (fs.set i { t with point := p }) := by
  obtain ⟨hu, hc, hf, hr, he, hh, -⟩ := Point.weights_of_idle hidle
  obtain ⟨hu', hc', hf', hr', he', hh', hmoved⟩ := Point.weights_of_idle hidle'
  refine h.move ht hcap hmap hfiles (hu'.trans hu.symm) (fun id => (hr' id).trans (hr id).symm)
    ?_ ?_ ?_ hmoved
  · rw [he', he]
  · rw [hh', hh]
  · rw [husage, hc, hc', hf, hf']

/-! ### What each step does to the sums -/

theorem Inv.rename (h : Inv d fs) (ht : fs[i]? = some t) {seq : ℕ} {f : File}
    (hpoint : t.point = .written seq) (hres : d.rename (t.execution, seq) = some (f, d'))
    (hfree : d.files.get (t.execution, seq) = none) :
    Inv d' (fs.set i { t with point := .renamed seq f.size }) := by
  obtain ⟨hname, husage, hcap, hmap, hfiles, hreal, hsize⟩ := DiskStore.rename_spec hres hfree
  have hexec : f.execution = t.execution := congrArg Prod.fst hname
  obtain ⟨hu, hc, hf, hr, he, hh⟩ := shift ht { t with point := .renamed seq f.size }
  simp only [Flush.unmappedOf, Flush.uncounted, Flush.unfreed, Flush.removedOf, Flush.evicting,
    Flush.hasChosen, hpoint, Point.unmapped, Point.uncounted, Point.unfreed, Point.hasRemoved,
    Point.evicting, Point.hasChosen, ite_self, Bool.toNat_false, Nat.add_zero] at hu hc hf hr he hh
  have htotal : d'.total = d.total := by unfold DiskStore.total; rw [hmap]
  have hheld : ∀ id, d'.held id = d.held id := fun id => by unfold DiskStore.held; rw [hmap]
  constructor
  · rw [husage, htotal, hc, hf]
    exact h.ledger
  · intro id hnone
    rw [hr] at hnone
    have := h.settled id hnone
    rw [hheld, hu, hsize, hexec]
    omega
  · intro id hsome
    rw [hr] at hsome
    have := h.emptied id hsome
    rw [hu, hsize, hexec]
    omega
  · refine h.moved_set ?_ ?_
    · intro u hu seq' size hp
      obtain ⟨g, hg, -⟩ := h.moved u hu seq' size hp
      rw [hfiles]
      refine Keyed.get_put_of_ne fun heq => ?_
      rw [← heq, hname, hfree] at hg
      cases hg
    · intro seq' size hp
      cases hp
      exact ⟨f, by rw [hfiles, ← hname]; exact Keyed.get_put, rfl⟩
  · rw [he]
    exact h.alone
  · rw [hh, hcap, hreal]
    intro hsome
    have := h.chosen hsome
    omega

theorem Inv.addTotal (h : Inv d fs) (ht : fs[i]? = some t) {added : ℕ}
    (hpoint : t.point = .stated added)
    (hnone : ∀ u ∈ fs, u.point.hasRemoved t.execution = false) :
    Inv (d.addTotal t.execution added) (fs.set i { t with point := .mapped added }) := by
  have hremoved : tally (Flush.removedOf t.execution) fs = 0 :=
    tally_eq_zero.mpr fun u hu => by rw [Flush.removedOf, hnone u hu]; rfl
  obtain ⟨hu, hc, hf, hr, he, hh⟩ := shift ht { t with point := .mapped added }
  simp only [Flush.unmappedOf, Flush.uncounted, Flush.unfreed, Flush.removedOf, Flush.evicting,
    Flush.hasChosen, hpoint, Point.unmapped, Point.uncounted, Point.unfreed, Point.hasRemoved,
    Point.evicting, Point.hasChosen, ite_self, Bool.toNat_false, Nat.add_zero] at hu hc hf hr he hh
  constructor
  · rw [DiskStore.total_addTotal, hf]
    have := h.ledger
    have husage : (d.addTotal t.execution added).usage = d.usage := rfl
    omega
  · intro id hid
    rw [hr] at hid
    rw [DiskStore.held_addTotal]
    have := h.settled id hid
    have := hu id
    have hsize : (d.addTotal t.execution added).sizeOf id = d.sizeOf id := rfl
    omega
  · intro id hid
    rw [hr] at hid
    have hne : t.execution ≠ id := by
      rintro rfl
      omega
    have := hu id
    rw [if_neg hne, Nat.add_zero] at this
    rw [this]
    exact h.emptied id hid
  · exact h.moved_set (fun _ _ _ _ _ => rfl) fun _ _ hp => by cases hp
  · rw [he]
    exact h.alone
  · rw [hh]
    exact h.chosen

/-- A sweep makes its choice while no other one evicts. -/
theorem Inv.choose (h : Inv d fs) (ht : fs[i]? = some t) {it : Item} {rest : List Item}
    (hpoint : t.point = .looping (it :: rest)) (hover : d.cap < d.usage)
    (hnone : ∀ u ∈ fs, u.point.evicting = false) :
    Inv d (fs.set i { t with point := .chosen it rest }) := by
  have hevicting : tally Flush.evicting fs = 0 :=
    tally_eq_zero.mpr fun u hu => by rw [Flush.evicting, hnone u hu]; rfl
  have hunfreed : tally Flush.unfreed fs = 0 := by
    refine tally_eq_zero.mpr fun u hu => ?_
    have := hnone u hu
    unfold Flush.unfreed
    cases hp : u.point <;> simp_all [Point.unfreed, Point.evicting]
  have hremoved : ∀ id, tally (Flush.removedOf id) fs = 0 := by
    refine fun id => tally_eq_zero.mpr fun u hu => ?_
    have := hnone u hu
    unfold Flush.removedOf
    cases hp : u.point <;> simp_all [Point.hasRemoved, Point.evicting]
  have hreal : d.total ≤ d.real := by
    refine DiskStore.total_le_real fun id => ?_
    have := h.settled id (hremoved id)
    omega
  obtain ⟨hu, hc, hf, hr, he, hh⟩ := shift ht { t with point := .chosen it rest }
  simp only [Flush.unmappedOf, Flush.uncounted, Flush.unfreed, Flush.removedOf, Flush.evicting,
    Flush.hasChosen, hpoint, Point.unmapped, Point.uncounted, Point.unfreed, Point.hasRemoved,
    Point.evicting, Point.hasChosen, ite_self, Bool.toNat_false, Bool.toNat_true,
    Nat.add_zero] at hu hc hf hr he hh
  constructor
  · rw [hc, hf]
    exact h.ledger
  · intro id
    rw [hr, hu]
    exact h.settled id
  · intro id
    rw [hr, hu]
    exact h.emptied id
  · exact h.moved_set (fun _ _ _ _ _ => rfl) fun _ _ hp => by cases hp
  · omega
  · intro _
    have := h.ledger
    omega

theorem Inv.removeAll (h : Inv d fs) (ht : fs[i]? = some t) {it : Item} {rest : List Item}
    (hpoint : t.point = .chosen it rest)
    (hnone : ∀ u ∈ fs, u.execution = it.id → u.point.isUnmapped = false) :
    Inv (d.removeAll it.id) (fs.set i { t with point := .removed it rest }) := by
  have hunmapped : tally (Flush.unmappedOf it.id) fs = 0 := by
    refine tally_eq_zero.mpr fun u hu => ?_
    unfold Flush.unmappedOf
    split
    · next hid =>
        have := hnone u hu hid
        cases hp : u.point <;> simp_all [Point.unmapped, Point.isUnmapped]
    · rfl
  obtain ⟨hu, hc, hf, hr, he, hh⟩ := shift ht { t with point := .removed it rest }
  simp only [Flush.unmappedOf, Flush.uncounted, Flush.unfreed, Flush.removedOf, Flush.evicting,
    Flush.hasChosen, hpoint, Point.unmapped, Point.uncounted, Point.unfreed, Point.hasRemoved,
    Point.evicting, Point.hasChosen, ite_self, Bool.toNat_false, Bool.toNat_true,
    Nat.add_zero] at hu hc hf hr he hh
  constructor
  · rw [hc, hf]
    exact h.ledger
  · intro id hid
    have hne : it.id ≠ id := by
      rintro rfl
      have := hr it.id
      rw [decide_eq_true rfl, Bool.toNat_true] at this
      omega
    have hrem := hr id
    rw [decide_eq_false hne, Bool.toNat_false, Nat.add_zero] at hrem
    rw [hrem] at hid
    rw [hu, DiskStore.sizeOf_removeAll, if_neg hne]
    exact h.settled id hid
  · intro id hid
    rw [hu, DiskStore.sizeOf_removeAll]
    by_cases hid' : it.id = id
    · subst hid'
      rw [if_pos rfl, hunmapped]
    · have hrem := hr id
      rw [decide_eq_false hid', Bool.toNat_false, Nat.add_zero] at hrem
      rw [if_neg hid']
      exact h.emptied id (hrem ▸ hid)
  · refine h.moved_set ?_ fun _ _ hp => by cases hp
    intro u hu seq size hp
    refine DiskStore.get_removeAll fun hid => ?_
    have := hnone u hu hid
    rw [hp] at this
    cases this
  · have := h.alone
    omega
  · intro hsome
    have := h.alone
    have hchosen : tally Flush.hasChosen fs ≤ tally Flush.evicting fs :=
      tally_le_tally fun u _ => by
        unfold Flush.hasChosen Flush.evicting
        cases u.point <;> simp [Point.hasChosen, Point.evicting]
    omega

theorem Inv.forget (h : Inv d fs) (ht : fs[i]? = some t) {it : Item} {rest : List Item}
    (hpoint : t.point = .removed it rest) (hsome : (d.totalMap.get it.id).isSome = true) :
    Inv (d.forget it).2 (fs.set i { t with point := .forgotten (d.forget it).1 rest }) := by
  have hforget := DiskStore.forget_held hsome
  have htotal := d.total_forget it
  obtain ⟨hu, hc, hf, hr, he, hh⟩ :=
    shift ht { t with point := .forgotten (d.forget it).1 rest }
  simp only [Flush.unmappedOf, Flush.uncounted, Flush.unfreed, Flush.removedOf, Flush.evicting,
    Flush.hasChosen, hpoint, Point.unmapped, Point.uncounted, Point.unfreed, Point.hasRemoved,
    Point.evicting, Point.hasChosen, ite_self, Bool.toNat_false, Bool.toNat_true,
    Nat.add_zero] at hu hc hf hr he hh
  have hsize : ∀ id, (d.forget it).2.sizeOf id = d.sizeOf id := fun _ => rfl
  constructor
  · have := h.ledger
    have husage : (d.forget it).2.usage = d.usage := rfl
    omega
  · intro id hid
    rw [DiskStore.held_forget, hu, hsize]
    have hrem := hr id
    by_cases hid' : it.id = id
    · subst hid'
      rw [decide_eq_true rfl, Bool.toNat_true] at hrem
      rw [if_pos rfl, Nat.zero_add]
      exact h.emptied it.id (by omega)
    · rw [decide_eq_false hid', Bool.toNat_false, Nat.add_zero] at hrem
      rw [if_neg hid']
      exact h.settled id (hrem ▸ hid)
  · intro id hid
    rw [hu, hsize]
    have hrem := hr id
    exact h.emptied id (by omega)
  · exact h.moved_set (fun _ _ _ _ _ => rfl) fun _ _ hp => by cases hp
  · have := h.alone
    omega
  · rw [hh]
    exact h.chosen

/-! ### Every run -/

theorem Inv.take (h : Inv d fs) (ht : fs[i]? = some t) {order : List Item}
    (hcalm : t.Undisturbed ⟨d, fs⟩) (hres : d.take t order = some (d', p)) :
    Inv d' (fs.set i { t with point := p }) := by
  unfold DiskStore.take at hres
  unfold Flush.Undisturbed at hcalm
  cases hpoint : t.point with
  | called =>
    rw [hpoint] at hres
    cases hres
    exact h.idle ht (by rw [hpoint]; rfl) rfl rfl rfl rfl rfl
  | made =>
    rw [hpoint] at hres
    cases hres
    exact h.idle ht (by rw [hpoint]; rfl) rfl rfl rfl rfl rfl
  | reserved seq =>
    rw [hpoint] at hres
    obtain ⟨d₀, hwrite, heq⟩ := Option.map_eq_some_iff.mp hres
    cases heq
    unfold DiskStore.writeTmp at hwrite
    split at hwrite
    · cases hwrite
      exact h.idle ht (by rw [hpoint]; rfl) rfl rfl rfl rfl rfl
    · cases hwrite
  | written seq =>
    rw [hpoint] at hres hcalm
    obtain ⟨res, hrename, heq⟩ := Option.map_eq_some_iff.mp hres
    cases heq
    exact h.rename ht hpoint hrename hcalm
  | renamed seq size =>
    rw [hpoint] at hres
    obtain ⟨f, hget, heq⟩ := Option.map_eq_some_iff.mp hres
    cases heq
    obtain ⟨g, hg, hsize⟩ := h.moved t (List.mem_of_getElem? ht) seq size hpoint
    rw [hget] at hg
    cases hg
    refine h.move ht rfl rfl rfl ?_ ?_ ?_ ?_ ?_ fun _ _ hp => by cases hp
    · rw [hpoint]
      exact hsize
    all_goals simp [hpoint, Point.hasRemoved, Point.evicting, Point.hasChosen,
      Point.uncounted, Point.unfreed]
  | stated added =>
    rw [hpoint] at hres hcalm
    cases hres
    exact h.addTotal ht hpoint hcalm
  | mapped added =>
    rw [hpoint] at hres
    cases hres
    refine h.move ht rfl rfl rfl ?_ ?_ ?_ ?_ ?_ fun _ _ hp => by cases hp
    all_goals simp [hpoint, DiskStore.addUsage, Point.unmapped, Point.hasRemoved,
      Point.evicting, Point.hasChosen, Point.uncounted, Point.unfreed]
  | counted =>
    rw [hpoint] at hres
    cases hres
    refine h.idle ht (by rw [hpoint]; rfl) ?_ rfl rfl rfl rfl
    split <;> rfl
  | overCap =>
    rw [hpoint] at hres
    dsimp only at hres
    split at hres
    · cases hres
      exact h.idle ht (by rw [hpoint]; rfl) rfl rfl rfl rfl rfl
    · cases hres
  | looping candidates =>
    cases candidates with
    | nil =>
      rw [hpoint] at hres
      cases hres
      exact h.idle ht (by rw [hpoint]; rfl) rfl rfl rfl rfl rfl
    | cons it rest =>
      rw [hpoint] at hres hcalm
      cases hres
      dsimp only at hcalm
      by_cases hunder : d.usage ≤ d.cap
      · rw [if_pos hunder]
        exact h.idle ht (by rw [hpoint]; rfl) rfl rfl rfl rfl rfl
      · rw [if_neg hunder] at hcalm ⊢
        exact h.choose ht hpoint (Int.not_le.mp hunder) hcalm
  | chosen it rest =>
    rw [hpoint] at hres hcalm
    cases hres
    exact h.removeAll ht hpoint hcalm
  | removed it rest =>
    rw [hpoint] at hres hcalm
    cases hres
    exact h.forget ht hpoint hcalm
  | forgotten finalSize rest =>
    rw [hpoint] at hres
    cases hres
    refine h.move ht rfl rfl rfl ?_ ?_ ?_ ?_ ?_ fun _ _ hp => by cases hp
    all_goals simp [hpoint, DiskStore.addUsage, Point.unmapped, Point.hasRemoved,
      Point.evicting, Point.hasChosen, Point.uncounted, Point.unfreed]
  | returned =>
    rw [hpoint] at hres
    cases hres

theorem Inv.call (h : Inv d fs) (execution : GoString) (lines : List GoString) :
    Inv d (fs ++ [⟨execution, lines, .called⟩]) := by
  have htally : ∀ w : Flush → ℕ, w ⟨execution, lines, .called⟩ = 0 →
      tally w (fs ++ [⟨execution, lines, .called⟩]) = tally w fs := by
    intro w hw
    rw [tally_concat, hw, Nat.add_zero]
  have hunmapped := fun id => htally (Flush.unmappedOf id) (ite_self 0)
  have hremoved := fun id => htally (Flush.removedOf id) rfl
  constructor
  · rw [htally Flush.uncounted rfl, htally Flush.unfreed rfl]
    exact h.ledger
  · intro id
    rw [hremoved, hunmapped]
    exact h.settled id
  · intro id
    rw [hremoved, hunmapped]
    exact h.emptied id
  · intro t ht seq size hp
    rcases List.mem_append.mp ht with ht | ht
    · exact h.moved t ht seq size hp
    · rw [List.mem_singleton.mp ht] at hp
      cases hp
  · rw [htally Flush.evicting rfl]
    exact h.alone
  · rw [htally Flush.hasChosen rfl]
    exact h.chosen

/-- What a scan finds is what is there. -/
theorem Tree.held_scan (tree : Tree) (cap : ℤ) (id : GoString) :
    (tree.scan cap).disk.held id = (tree.scan cap).disk.sizeOf id := by
  cases hget : (tree.scan cap).disk.totalMap.get id with
  | none =>
    rw [DiskStore.held_of_none hget]
    symm
    refine List.sum_eq_zero fun n hn => ?_
    obtain ⟨f, hf, -⟩ := List.mem_map.mp hn
    obtain ⟨hmem, hid⟩ := List.mem_filter.mp hf
    have hdir := tree.inDirs f hmem
    rw [of_decide_eq_true hid] at hdir
    exact absurd rfl (Keyed.get_eq_none.mp hget (id, tree.sizeOf id) (List.mem_map_of_mem hdir))
  | some entry =>
    obtain ⟨hmem, rfl⟩ := Keyed.get_eq_some.mp hget
    rw [DiskStore.held_of_get hget]
    obtain ⟨dir, -, rfl⟩ := List.mem_map.mp hmem
    rfl

theorem Tree.inv_scan (tree : Tree) (cap : ℤ) :
    Inv (tree.scan cap).disk (tree.scan cap).flushes where
  ledger := by
    have htotal : (tree.scan cap).disk.total = (tree.dirs.map tree.sizeOf).sum := by
      simp only [DiskStore.total, scan, perDir, List.map_map]
      rfl
    rw [htotal]
    rfl
  settled := fun id _ => tree.held_scan cap id
  emptied := fun _ h => absurd h (Nat.lt_irrefl 0)
  moved := fun _ h => absurd h List.not_mem_nil
  alone := Nat.zero_le 1
  chosen := fun h => absurd h (Nat.lt_irrefl 0)

theorem step_advance {s s' : Store} {order : List Item} (h : s.step (.advance i order) = some s') :
    ∃ t d' p, s.flushes[i]? = some t ∧ s.disk.take t order = some (d', p) ∧
      s' = ⟨d', s.flushes.set i { t with point := p }⟩ := by
  obtain ⟨t, ht, htake⟩ := Option.bind_eq_some_iff.mp h
  obtain ⟨⟨d', p⟩, hres, rfl⟩ := Option.map_eq_some_iff.mp htake
  exact ⟨t, d', p, ht, hres, rfl⟩

theorem inv_reaches {tree : Tree} {cap : ℤ} {s : Store}
    (h : (system tree cap).Reaches Undisturbed s) : Inv s.disk s.flushes := by
  refine h.invariant (I := fun s => Inv s.disk s.flushes) (tree.inv_scan cap) ?_
  intro s e s' hinv hcalm hstep
  cases e with
  | call execution lines =>
    simp only [system, Store.step] at hstep
    split at hstep
    · cases hstep
      exact hinv
    · cases hstep
      exact hinv.call execution lines
  | advance i order =>
    obtain ⟨t, d', p, ht, hres, rfl⟩ := step_advance hstep
    exact hinv.take ht (hcalm t ht) hres

/-- Where nothing is in place that the counter does not hold, the files take no more than the
counter says. -/
theorem Inv.real_le_usage (h : Inv d fs) (hnone : ∀ u ∈ fs, u.point.inPlace = false) :
    (d.real : ℤ) ≤ d.usage := by
  have hunmapped : ∀ id, tally (Flush.unmappedOf id) fs = 0 := by
    refine fun id => tally_eq_zero.mpr fun u hu => ?_
    have := hnone u hu
    unfold Flush.unmappedOf
    cases hp : u.point <;> simp_all [Point.unmapped, Point.inPlace]
  have huncounted : tally Flush.uncounted fs = 0 := by
    refine tally_eq_zero.mpr fun u hu => ?_
    have := hnone u hu
    unfold Flush.uncounted
    cases hp : u.point <;> simp_all [Point.uncounted, Point.inPlace]
  have hreal : d.real ≤ d.total := by
    refine DiskStore.real_le_total fun id => ?_
    rcases Nat.eq_zero_or_pos (tally (Flush.removedOf id) fs) with hno | hyes
    · have := h.settled id hno
      rw [hunmapped] at this
      omega
    · have := h.emptied id hyes
      rw [hunmapped] at this
      omega
  have := h.ledger
  omega

theorem Inv.quiet (h : Inv d fs) (hquiet : ∀ t ∈ fs, t.point = .returned) :
    d.usage = d.total ∧ d.usage = d.real := by
  have htally : ∀ w : Flush → ℕ, (∀ t, t.point = .returned → w t = 0) → tally w fs = 0 :=
    fun w hw => tally_eq_zero.mpr fun t ht => hw t (hquiet t ht)
  have huncounted := htally Flush.uncounted fun t ht => by rw [Flush.uncounted, ht]; rfl
  have hunfreed := htally Flush.unfreed fun t ht => by rw [Flush.unfreed, ht]; rfl
  have hreal : d.total ≤ d.real := by
    refine DiskStore.total_le_real fun id => ?_
    have hremoved := htally (Flush.removedOf id) fun t ht => by rw [Flush.removedOf, ht]; rfl
    have := h.settled id hremoved
    omega
  have hle := h.real_le_usage fun t ht => by rw [hquiet t ht]; rfl
  have := h.ledger
  omega

/-- In a run whose steps disturb nothing the counter is exact whenever nothing is in progress,
a directory is removed only over the cap, and a sweep stops only under it. -/
theorem usage_exact {tree : Tree} {cap : ℤ} {s : Store}
    (h : (system tree cap).Reaches Undisturbed s) :
    (s.Quiet → s.disk.usage = s.disk.total ∧ s.disk.usage = s.disk.real ∧ 0 ≤ s.disk.usage) ∧
      ∀ e s', Undisturbed s e → s.step e = some s' →
        (s.Removes e → s.disk.cap < s.disk.real) ∧ (s.Stops e → (s.disk.real : ℤ) ≤ s.disk.cap) := by
  have hinv := inv_reaches h
  constructor
  · intro hquiet
    obtain ⟨htotal, hreal⟩ := hinv.quiet hquiet
    exact ⟨htotal, hreal, by omega⟩
  · intro e s' hcalm hstep
    cases e with
    | call execution lines => exact ⟨False.elim, False.elim⟩
    | advance i order =>
      constructor
      · rintro ⟨t, ht, hchosen⟩
        refine hinv.chosen ?_
        have hone : 1 ≤ tally Flush.hasChosen s.flushes := by
          have hle := @le_tally _ Flush.hasChosen _ _ (List.mem_of_getElem? ht)
          rwa [Flush.hasChosen, hchosen] at hle
        exact hone
      · rintro ⟨t, ht, hunder, hpoint⟩
        have hcalm' : t.Undisturbed s := hcalm t ht
        unfold Flush.Undisturbed at hcalm'
        refine (hinv.real_le_usage ?_).trans hunder
        rcases hpoint with ⟨hpoint, hcap⟩ | ⟨it, rest, hpoint⟩
        · rw [hpoint] at hcalm'
          dsimp only at hcalm'
          rcases hcalm' with hno | hno | hplace
          · omega
          · omega
          · exact hplace
        · rw [hpoint] at hcalm'
          dsimp only at hcalm'
          rwa [if_pos hunder] at hcalm'

/-! ### Sweeps, one after the other and at once -/

def Tree.empty : Tree := ⟨[], .empty _, .empty _, List.nodup_nil, by simp⟩

/-- A flush of one entry, that takes ten bytes, up to its sweep. -/
def flushed (i : ℕ) (execution : GoString) : List Event :=
  .call execution [List.replicate 9 123] :: List.replicate 7 (.advance i [])

/-- One flush after the other: the sweep of the second evicts the first. -/
theorem usage_exact_evicting : ∃ s, (system .empty 15).Reaches Undisturbed s ∧ s.Quiet ∧
    s.disk.usage = s.disk.real ∧ s.disk.files.values ≠ [] := by
  have hrun : ∃ s, ((system .empty 15).guarded Undisturbed).exec
      (flushed 0 [97] ++ [.advance 0 []] ++ flushed 1 [98] ++ [.advance 1 []] ++
        [.advance 1 [⟨[97], 10, 0⟩, ⟨[98], 10, 1⟩]] ++ List.replicate 5 (.advance 1 [])) = some s ∧
      s.Quiet ∧ s.disk.files.values ≠ [] :=
    System.exists_of_exec (by decide)
  obtain ⟨s, hexec, hquiet, hfiles⟩ := hrun
  have hreaches := (System.reachable_exec hexec).of_guarded
  exact ⟨s, hreaches, hquiet, ((usage_exact hreaches).1 hquiet).2.1, hfiles⟩

/-- Two flushes take the counter over the cap, and both sweeps find all three executions. -/
def overlapping : List Event :=
  let order := [⟨[97], 10, 0⟩, ⟨[98], 10, 1⟩, ⟨[99], 10, 2⟩]
  flushed 0 [97] ++ [.advance 0 []] ++ flushed 1 [98] ++ flushed 2 [99] ++
    [.advance 1 [], .advance 2 [], .advance 1 order, .advance 2 order] ++
    List.replicate 4 (.advance 1 []) ++ List.replicate 5 (.advance 2 []) ++ [.advance 1 []]

/-- The size of the execution is subtracted twice, and twenty bytes stay under a cap of
fifteen. -/
theorem usage_drifts : ∃ s, (system .empty 15).Reachable s ∧
    s.Quiet ∧ s.disk.usage = 10 ∧ s.disk.total = 20 ∧ s.disk.real = 20 := by
  have hrun : ∃ s, (system .empty 15).exec overlapping = some s ∧
      s.Quiet ∧ s.disk.usage = 10 ∧ s.disk.total = 20 ∧ s.disk.real = 20 :=
    System.exists_of_exec (by decide)
  obtain ⟨s, hexec, hs⟩ := hrun
  exact ⟨s, System.reachable_exec hexec, hs⟩

end Persatrix.LogBuffer.Usage
