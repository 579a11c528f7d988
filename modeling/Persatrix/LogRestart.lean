import Persatrix.LogDisk
import Persatrix.LogRing

/-!
# Restarts

A process appends entries to the ring of an execution and seals it now and then; the next
process loads the executions it finds on disk into rings again. `loaded` is the list of the
executions on disk, the oldest first.
-/
namespace Persatrix.LogBuffer
open ExecutionRing

/-! ### One process -/

/-- An execution in a running process: its ring and its files. -/
structure LiveExecution where
  ring : ExecutionRing Entry
  dir : ExecDir

namespace LiveExecution

def new (capacity : ℕ) (h : 0 < capacity) : LiveExecution := ⟨.new capacity h, .empty⟩

def append (x : LiveExecution) (es : List Entry) : LiveExecution :=
  { x with ring := x.ring.appendAll es }

/-- `Seal` of an execution whose ring is found. -/
def sealRing (x : LiveExecution) : LiveExecution :=
  match x.ring.sealRing with
  | (([], taken), ring) => { x with ring := ring.markFlushed taken }
  | ((entries, taken), ring) =>
    match x.dir.flush entries with
    | (dir, true) => ⟨ring.markFlushed taken, dir⟩
    | (dir, false) => ⟨ring, dir⟩

/-- Each burst of entries is followed by a seal. -/
def run (capacity : ℕ) (h : 0 < capacity) (bursts : List (List Entry)) : LiveExecution :=
  bursts.foldl (fun x burst => (x.append burst).sealRing) (new capacity h)

end LiveExecution

/-- The entries on disk: of each burst those the ring still held when it was sealed. -/
def stored (capacity : ℕ) (bursts : List (List Entry)) : List Entry :=
  bursts.flatMap (·.rtake capacity)

/-! ### The next process -/

structure Buffer where
  perExecution : ℕ
  maxExecutions : ℕ
  perExecution_pos : 0 < perExecution
  rings : GoMap GoString (ExecutionRing Entry)
  lru : List GoString
  lruCounter : ℕ
  disk : GoString → ExecDir

namespace Buffer

def diskRead (b : Buffer) (executionID : GoString) : List Entry :=
  if validExecutionID executionID then (b.disk executionID).read else []

/-- Appends the entries until the ring is full. -/
def fill (r : ExecutionRing Entry) : List Entry → ExecutionRing Entry
  | [] => r
  | e :: es => if (r.append e).1.full then (r.append e).1 else fill (r.append e).1 es

/-- The ring of an execution that was found with entries on disk. -/
def loadRing (b : Buffer) (entries : List Entry) : ExecutionRing Entry :=
  { fill (.new b.perExecution b.perExecution_pos) entries with
    lastTouch := b.lruCounter + 1
    sealed := true
    unflushed := 0 }

def warmLoadEach (b : Buffer) : List GoString → Buffer
  | [] => b
  | executionID :: loaded =>
    if b.maxExecutions ≤ b.rings.keys.length then b
    else
      match b.diskRead executionID with
      | [] => b.warmLoadEach loaded
      | entries =>
        { b with
          rings := b.rings.insert executionID (b.loadRing entries)
          lru := executionID :: b.lru
          lruCounter := b.lruCounter + 1 : Buffer }.warmLoadEach loaded

/-- The newest executions first. -/
def warmLoad (b : Buffer) (loaded : List GoString) : Buffer := b.warmLoadEach loaded.reverse

def new (perExecution : ℕ) (h : 0 < perExecution) (maxExecutions : ℕ) (disk : GoString → ExecDir)
    (loaded : List GoString) : Buffer :=
  warmLoad ⟨perExecution, maxExecutions, h, ∅, [], 0, fun id => (disk id).scan⟩ loaded

/-- The entries that are admitted to the ring of an execution. -/
def appendAll (b : Buffer) (executionID : GoString) (es : List Entry) : Buffer :=
  match b.rings.lookup executionID with
  | none => b
  | some ring => { b with rings := b.rings.insert executionID (ring.appendAll es) }

def snapshot (b : Buffer) (executionID : GoString) : List Entry :=
  if validExecutionID executionID then
    match b.rings.lookup executionID with
    | none => b.diskRead executionID
    | some ring => ring.snapshotLocked
  else []

end Buffer

/-! ### What a process writes -/

theorem rtake_rtake (xs : List Entry) (m n : ℕ) : (xs.rtake m).rtake n = xs.rtake (min m n) := by
  unfold List.rtake
  rw [List.drop_drop, List.length_drop]
  congr 1
  omega

theorem rtake_append_right {xs ys : List Entry} {n : ℕ} (h : n ≤ ys.length) :
    (xs ++ ys).rtake n = ys.rtake n := by
  have hlength : (xs ++ ys).length - n = xs.length + (ys.length - n) := by
    rw [List.length_append]
    omega
  rw [List.rtake, List.rtake, hlength, List.drop_length_add_append]

theorem rtake_min_length (xs : List Entry) (n : ℕ) : xs.rtake (min n xs.length) = xs.rtake n := by
  unfold List.rtake
  congr 1
  omega

/-- The seal after a burst takes what the ring still holds of it. -/
theorem rtake_burst (xs burst : List Entry) (n : ℕ) :
    ((xs ++ burst).rtake n).rtake burst.length = burst.rtake n := by
  rw [rtake_rtake, rtake_append_right (Nat.min_le_right _ _), rtake_min_length]

theorem append_rtake_rtake (xs ys : List Entry) (n : ℕ) :
    (xs ++ ys.rtake n).rtake n = (xs ++ ys).rtake n := by
  by_cases h : n ≤ ys.length
  · have hkept : n ≤ (ys.rtake n).length := by
      rw [List.rtake, List.length_drop]
      omega
    rw [rtake_append_right hkept, rtake_append_right h, rtake_rtake, Nat.min_self]
  · rw [rtake_of_length_le (Nat.le_of_not_le h)]

namespace LiveExecution

/-- Between bursts every entry was written, and the ring holds the newest ones. -/
structure Settled (capacity : ℕ) (bursts : List (List Entry)) (x : LiveExecution) : Prop where
  cap : x.ring.cap = capacity
  unflushed : x.ring.unflushed = 0
  snapshot : x.ring.snapshotLocked = (stored capacity bursts).rtake capacity
  ordered : x.dir.Ordered
  read : x.dir.read = stored capacity bursts

theorem sealRing_eq {x : LiveExecution} {burst : List Entry} {n : ℕ} {dir : ExecDir}
    (hunflushed : x.ring.unflushed = n) (hentries : x.ring.snapshotLocked.rtake n = burst)
    (hflush : x.dir.flush burst = (dir, true)) :
    x.sealRing = ⟨(x.ring.sealRing.2).markFlushed n, dir⟩ := by
  have htaken : x.ring.sealRing = ((burst, (n : ℤ)), x.ring.sealRing.2) := by
    rw [← hentries, ← sealRing_entries x.ring hunflushed]
  unfold sealRing
  rw [htaken]
  cases burst with
  | nil =>
    rw [ExecDir.flush, if_pos rfl] at hflush
    obtain ⟨rfl, -⟩ := Prod.ext_iff.mp hflush
    rfl
  | cons e es =>
    dsimp only
    rw [hflush]

theorem Settled.burst {capacity : ℕ} {bursts : List (List Entry)} {x : LiveExecution}
    (h : Settled capacity bursts x) {burst : List Entry} (hstorable : ∀ e ∈ burst, e.Storable) :
    Settled capacity (bursts ++ [burst]) (x.append burst).sealRing := by
  have hstored : stored capacity (bursts ++ [burst]) =
      stored capacity bursts ++ burst.rtake capacity := by
    rw [stored, List.flatMap_append, List.flatMap_singleton]
    rfl
  have hcap : (x.append burst).ring.cap = capacity := (appendAll_cap _ _).trans h.cap
  have hunflushed : (x.append burst).ring.unflushed = burst.length := by
    rw [append, appendAll_unflushed, h.unflushed, zero_add]
  have hsnapshot : (x.append burst).ring.snapshotLocked =
      (stored capacity bursts ++ burst).rtake capacity := by
    rw [append, snapshotLocked_appendAll, h.snapshot, h.cap, rtake_append_rtake]
  have hentries : (x.append burst).ring.snapshotLocked.rtake burst.length =
      burst.rtake capacity := by
    rw [hsnapshot, rtake_burst]
  have hkept : ∀ e ∈ burst.rtake capacity, e.Storable :=
    fun e he => hstorable e (List.mem_of_mem_drop he)
  obtain ⟨hflushed, hordered, hread⟩ := ExecDir.flush_spec h.ordered hkept
  rw [sealRing_eq hunflushed hentries (Prod.ext rfl hflushed)]
  constructor
  · exact hcap
  · exact (congrArg (· - (burst.length : ℤ)) hunflushed).trans (sub_self _)
  · rw [hstored, append_rtake_rtake]
    exact hsnapshot
  · exact hordered
  · rw [hstored]
    exact hread.trans (congrArg (· ++ _) h.read)

theorem settled_run {capacity : ℕ} (hcapacity : 0 < capacity) {bursts : List (List Entry)}
    (hstorable : ∀ burst ∈ bursts, ∀ e ∈ burst, e.Storable) :
    Settled capacity bursts (run capacity hcapacity bursts) := by
  induction bursts using List.reverseRecOn with
  | nil => exact ⟨rfl, rfl, (List.rtake_nil _).symm, ExecDir.ordered_empty, ExecDir.ordered_empty.read⟩
  | append_singleton bursts burst ih =>
    rw [run, List.foldl_append]
    apply (ih fun b hb => hstorable b (List.mem_append_left _ hb)).burst
    exact hstorable burst (List.mem_append_right _ (List.mem_singleton.mpr rfl))

end LiveExecution

/-! ### What the next process loads -/

namespace Buffer

/-- The loaded ring has the oldest entries, up to its capacity. -/
theorem snapshotLocked_fill {r : ExecutionRing Entry} (hfull : r.full = false) (es : List Entry) :
    (fill r es).snapshotLocked = (r.snapshotLocked ++ es).take r.cap ∧ (fill r es).cap = r.cap := by
  have hroom : r.snapshotLocked.length < r.cap := by
    have hne : r.entries.length ≠ r.cap := fun h => by simp [r.full_iff.mpr h] at hfull
    have hle := r.length_le
    rw [length_snapshotLocked]
    omega
  induction es generalizing r with
  | nil =>
    rw [List.append_nil, List.take_of_length_le hroom.le]
    exact ⟨rfl, rfl⟩
  | cons e es ih =>
    have hlength : (r.snapshotLocked ++ [e]).length ≤ r.cap := by
      rw [List.length_append, List.length_singleton]
      omega
    have happend : (r.append e).1.snapshotLocked = r.snapshotLocked ++ [e] := by
      rw [snapshotLocked_append, rtake_of_length_le hlength]
    have hsplit : r.snapshotLocked ++ e :: es = (r.append e).1.snapshotLocked ++ es := by
      rw [happend, List.append_assoc, List.singleton_append]
    rw [fill, hsplit]
    split_ifs with hnow
    · have hcap := (r.append e).1.full_iff.mp hnow
      rw [append_cap, ← length_snapshotLocked] at hcap
      rw [List.take_left' hcap]
      exact ⟨rfl, append_cap r e⟩
    · have hnow : (r.append e).1.full = false := by simpa using hnow
      have hless : (r.append e).1.snapshotLocked.length < (r.append e).1.cap := by
        have hne : (r.append e).1.entries.length ≠ (r.append e).1.cap :=
          fun h => by simp [(r.append e).1.full_iff.mpr h] at hnow
        have hle := (r.append e).1.length_le
        rw [length_snapshotLocked]
        omega
      have hrest := ih hnow hless
      rw [append_cap] at hrest
      exact hrest

theorem snapshotLocked_loadRing (b : Buffer) (entries : List Entry) :
    (b.loadRing entries).snapshotLocked = entries.take b.perExecution ∧
      (b.loadRing entries).cap = b.perExecution :=
  snapshotLocked_fill (r := .new b.perExecution b.perExecution_pos) rfl entries

/-- A loaded ring is the one of the entries on disk. -/
def Loaded (b : Buffer) : Prop :=
  ∀ executionID ring, b.rings.lookup executionID = some ring →
    ring.snapshotLocked = (b.diskRead executionID).take b.perExecution ∧
      ring.cap = b.perExecution

theorem Loaded.warmLoadEach {b : Buffer} (h : b.Loaded) (loaded : List GoString) :
    (b.warmLoadEach loaded).Loaded ∧ (b.warmLoadEach loaded).disk = b.disk ∧
      (b.warmLoadEach loaded).perExecution = b.perExecution := by
  induction loaded generalizing b with
  | nil => exact ⟨h, rfl, rfl⟩
  | cons executionID loaded ih =>
    rw [Buffer.warmLoadEach]
    split_ifs
    · exact ⟨h, rfl, rfl⟩
    · split
      · exact ih h
      · rename_i entries hentries _
        apply ih
        intro id ring hring
        rw [GoMap.lookup_insert] at hring
        split_ifs at hring with hid
        · rw [← Option.some.inj hring, hid]
          exact b.snapshotLocked_loadRing _
        · exact h id ring hring

theorem snapshot_appendAll {b : Buffer} {executionID : GoString} {ring : ExecutionRing Entry}
    (hvalid : validExecutionID executionID = true)
    (hring : b.rings.lookup executionID = some ring) (es : List Entry) :
    (b.appendAll executionID es).snapshot executionID =
      (ring.snapshotLocked ++ es).rtake ring.cap := by
  rw [snapshot, if_pos hvalid, appendAll, hring]
  dsimp only
  rw [GoMap.lookup_insert, if_pos rfl]
  exact snapshotLocked_appendAll ring es

/-- A loaded ring has the oldest entries on disk. -/
theorem exists_ring {perExecution maxExecutions : ℕ} (hcap : 0 < perExecution)
    {disk : GoString → ExecDir} {loaded : List GoString} {executionID : GoString}
    (hvalid : validExecutionID executionID = true)
    (hloaded : executionID ∈ (new perExecution hcap maxExecutions disk loaded).rings) :
    ∃ ring, (new perExecution hcap maxExecutions disk loaded).rings.lookup executionID = some ring ∧
      ring.snapshotLocked = (disk executionID).read.take perExecution ∧
      ring.cap = perExecution := by
  obtain ⟨ring, hring⟩ := Option.isSome_iff_exists.mp (AList.lookup_isSome.mpr hloaded)
  have hempty : Loaded ⟨perExecution, maxExecutions, hcap, ∅, [], 0, fun id => (disk id).scan⟩ := by
    intro id ring hring
    simp at hring
  obtain ⟨hall, hdisk, hcapacity⟩ := hempty.warmLoadEach loaded.reverse
  obtain ⟨hsnapshot, hringcap⟩ := hall executionID ring hring
  rw [hcapacity, diskRead, if_pos hvalid, hdisk] at hsnapshot
  exact ⟨ring, hring, hsnapshot, hringcap.trans hcapacity⟩

/-- An execution with entries on disk is loaded when there is room for it. -/
theorem mem_rings_warmLoad {b : Buffer} (hroom : b.rings.keys.length < b.maxExecutions)
    {executionID : GoString} (hread : b.diskRead executionID ≠ []) :
    executionID ∈ (b.warmLoad [executionID]).rings := by
  rw [warmLoad, List.reverse_singleton, warmLoadEach, if_neg (Nat.not_le.mpr hroom)]
  split
  · rename_i hnil
    exact absurd hnil hread
  · exact (AList.mem_insert _).mpr (Or.inl rfl)

end Buffer

theorem take_eq_rtake_iff {xs : List Entry} {n : ℕ} :
    xs.take n = xs.rtake n ↔ ∀ i < n, xs[i]? = xs[i + (xs.length - n)]? := by
  constructor
  · intro h i hi
    have hget := congrArg (·[i]?) h
    simpa [List.getElem?_take, hi, List.rtake, Nat.add_comm] using hget
  · intro h
    apply List.ext_getElem?
    intro i
    rw [List.rtake, List.getElem?_drop, List.getElem?_take]
    split_ifs with hi
    · rw [h i hi, Nat.add_comm]
    · exact (List.getElem?_eq_none (by omega)).symm

/-- What is kept is the newest exactly when what is loaded is the newest. -/
theorem append_rtake_iff {xs : List Entry} {n : ℕ} :
    (∀ es, (xs.take n ++ es).rtake n = (xs ++ es).rtake n) ↔ xs.take n = xs.rtake n := by
  constructor
  · intro h
    have hnil := h []
    rwa [List.append_nil, List.append_nil,
      rtake_of_length_le (List.length_take_le n xs)] at hnil
  · intro h es
    rw [h, rtake_append_rtake]

theorem restart_keeps_newest_iff {capacity maxExecutions : ℕ} (hcapacity : 0 < capacity)
    {bursts : List (List Entry)} (hstorable : ∀ burst ∈ bursts, ∀ e ∈ burst, e.Storable)
    {executionID : GoString} (hvalid : validExecutionID executionID = true)
    {disk : GoString → ExecDir}
    (hdisk : disk executionID = (LiveExecution.run capacity hcapacity bursts).dir)
    {loaded : List GoString}
    (hloaded : executionID ∈ (Buffer.new capacity hcapacity maxExecutions disk loaded).rings) :
    (∀ es, ((Buffer.new capacity hcapacity maxExecutions disk loaded).appendAll executionID
          es).snapshot executionID = (stored capacity bursts ++ es).rtake capacity ∧
        (stored capacity bursts ++ es).rtake capacity =
          ((LiveExecution.run capacity hcapacity bursts).append es).ring.snapshotLocked) ↔
      ∀ i < capacity, (stored capacity bursts)[i]? =
        (stored capacity bursts)[i + ((stored capacity bursts).length - capacity)]? := by
  have hsettled := LiveExecution.settled_run hcapacity hstorable
  have hlive : ∀ es, (stored capacity bursts ++ es).rtake capacity =
      ((LiveExecution.run capacity hcapacity bursts).append es).ring.snapshotLocked := by
    intro es
    rw [LiveExecution.append, snapshotLocked_appendAll, hsettled.snapshot, hsettled.cap,
      rtake_append_rtake]
  obtain ⟨ring, hring, hsnapshot, hcap⟩ := Buffer.exists_ring hcapacity hvalid hloaded
  rw [hdisk, hsettled.read] at hsnapshot
  have hnext (es : List Entry) := Buffer.snapshot_appendAll hvalid hring es
  rw [hsnapshot, hcap] at hnext
  rw [← take_eq_rtake_iff, ← append_rtake_iff]
  constructor
  · intro h es
    rw [← hnext es]
    exact (h es).1
  · intro h es
    exact ⟨(hnext es).trans (h es), hlive es⟩

/-! ### A late entry in a further file -/

def sampleTime : Time := ⟨63950000000, 0, 0, Time.nsec_zero⟩

def sampleEntry (message : String) : Entry :=
  { Entry.zero with
    schemaVersion := ascii "1.0"
    timestamp := sampleTime
    level := ascii "INFO"
    message := ascii message
    executionID := ascii "run-1" }

theorem sampleEntry_storable {message : String}
    (hvalid : EntryField.all.all (fun f => validString ((sampleEntry message).string f)) = true)
    (hshort : ((sampleEntry message).line.map List.length).all (· < maxTokenSize) = true) :
    (sampleEntry message).Storable := by
  have htime : ∃ ts, sampleTime.marshal = some ts :=
    Option.isSome_iff_exists.mp (by decide)
  have hstrings : ∀ f, validString ((sampleEntry message).string f) = true :=
    fun f => List.all_eq_true.mp hvalid f (by cases f <;> decide)
  have hplain : (sampleEntry message).Plain := ⟨rfl, rfl, hstrings, htime, rfl⟩
  obtain ⟨line, hline⟩ := hplain.roundTrips
  refine ⟨line, hline, ?_⟩
  rw [hline.1] at hshort
  simpa using hshort

def sampleBursts : List (List Entry) :=
  [[sampleEntry "first", sampleEntry "second"], [sampleEntry "late"]]

theorem sampleBursts_storable : ∀ burst ∈ sampleBursts, ∀ e ∈ burst, e.Storable := by
  have hfirst : (sampleEntry "first").Storable :=
    sampleEntry_storable (by decide +kernel) (by decide +kernel)
  have hsecond : (sampleEntry "second").Storable :=
    sampleEntry_storable (by decide +kernel) (by decide +kernel)
  have hlate : (sampleEntry "late").Storable :=
    sampleEntry_storable (by decide +kernel) (by decide +kernel)
  simp [sampleBursts, hfirst, hsecond, hlate]

/-- The disk after a process which wrote a third entry late. -/
def sampleDisk (capacity : ℕ) (h : 0 < capacity) : GoString → ExecDir :=
  fun _ => (LiveExecution.run capacity h sampleBursts).dir

theorem sampleDisk_loaded {capacity : ℕ} (h : 0 < capacity)
    (hstored : stored capacity sampleBursts ≠ []) :
    ascii "run-1" ∈
      (Buffer.new capacity h 1 (sampleDisk capacity h) [ascii "run-1"]).rings := by
  have hread : (sampleDisk capacity h (ascii "run-1")).read = stored capacity sampleBursts :=
    (LiveExecution.settled_run h sampleBursts_storable).read
  unfold Buffer.new
  apply Buffer.mem_rings_warmLoad
  · exact Nat.one_pos
  · rw [Buffer.diskRead, if_pos (by decide)]
    exact hread.trans_ne hstored

/-- With room for three entries none is lost. -/
theorem restart_keeps_newest_iff_sample :
    ((Buffer.new 3 (Nat.succ_pos 2) 1 (sampleDisk 3 (Nat.succ_pos 2)) [ascii "run-1"]).appendAll
        (ascii "run-1") [sampleEntry "later"]).snapshot (ascii "run-1") =
      (stored 3 sampleBursts ++ [sampleEntry "later"]).rtake 3 :=
  ((restart_keeps_newest_iff (Nat.succ_pos 2) sampleBursts_storable (by decide) rfl
    (sampleDisk_loaded (Nat.succ_pos 2) (List.cons_ne_nil _ _))).mpr (fun _ _ => rfl)
      [sampleEntry "later"]).1

/-- With room for two the late entry is on disk, and the loaded ring has the first two. -/
theorem restart_loses_late_entry :
    ascii "run-1" ∈
        (Buffer.new 2 Nat.two_pos 1 (sampleDisk 2 Nat.two_pos) [ascii "run-1"]).rings ∧
      (Buffer.new 2 Nat.two_pos 1 (sampleDisk 2 Nat.two_pos) [ascii "run-1"]).snapshot
          (ascii "run-1") = [sampleEntry "first", sampleEntry "second"] ∧
      (stored 2 sampleBursts).rtake 2 = [sampleEntry "second", sampleEntry "late"] ∧
      [sampleEntry "first", sampleEntry "second"] ≠ [sampleEntry "second", sampleEntry "late"] := by
  have hloaded := sampleDisk_loaded Nat.two_pos (List.cons_ne_nil _ _)
  obtain ⟨ring, hring, hsnapshot, -⟩ := Buffer.exists_ring Nat.two_pos (by decide) hloaded
  refine ⟨hloaded, ?_, rfl, fun heq => ?_⟩
  · rw [sampleDisk, (LiveExecution.settled_run Nat.two_pos sampleBursts_storable).read] at hsnapshot
    rw [Buffer.snapshot, if_pos (by decide), hring]
    exact hsnapshot
  · have hmessage := congrArg Entry.message (List.cons.inj heq).1
    exact absurd hmessage (by decide)

end Persatrix.LogBuffer
