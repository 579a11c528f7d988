import Persatrix.LogEntry
import Persatrix.GoValues
import Mathlib.Data.List.MinMax

/-!
# Sequence files

The directory of an execution: the text of each sequence file under its number. The files of
one execution are the only ones a write or a read of it touches.
-/
namespace Persatrix.LogBuffer
open Security

def isIDByte (b : UInt8) : Bool :=
  let n := b.toNat
  (65 ≤ n && n ≤ 90) || (97 ≤ n && n ≤ 122) || (48 ≤ n && n ≤ 57) || n = 95 || n = 45

def validExecutionID (s : GoString) : Bool :=
  s ≠ ascii "_" && 1 ≤ s.length && s.length ≤ 128 && s.all isIDByte

def carriageReturn : UInt8 := 13

/-- The most bytes the scanner holds, a line and its end. -/
def maxTokenSize : ℕ := 1024 * 1024

/-- The lines the scanner finds; it stops at one that is too long. -/
def scanLines (content : GoString) : List GoString :=
  let lines := splitLines content
  let lines := if lines.getLast? = some [] then lines.dropLast else lines
  (lines.takeWhile fun l => l.length < maxTokenSize).map fun l =>
    if l.getLast? = some carriageReturn then l.dropLast else l

structure ExecDir where
  files : List (ℕ × GoString)
  /-- The next number of a file; zero before the first one. -/
  nextSeq : ℕ

namespace ExecDir

def empty : ExecDir := ⟨[], 0⟩

/-- The text of a file with the entries, if all of them can be encoded. -/
def encode (es : List Entry) : Option GoString :=
  (es.mapM Entry.line).map fun lines => lines.flatMap (· ++ [newline])

/-- The directory after the entries were written to a new file, and whether they were. -/
def flush (d : ExecDir) (es : List Entry) : ExecDir × Bool :=
  if es = [] then (d, true)
  else
    let seq := if d.nextSeq = 0 then 1 else d.nextSeq
    match encode es with
    | none => ({ d with nextSeq := seq + 1 }, false)
    | some content =>
      (⟨(d.files.filter fun f => f.1 ≠ seq) ++ [(seq, content)], seq + 1⟩, true)

/-- The entries in the files, in the order of their numbers; a line that is no entry is left
out. -/
def read (d : ExecDir) : List Entry :=
  (d.files.mergeSort fun f g => decide (f.1 ≤ g.1)).flatMap fun f =>
    (scanLines f.2).filterMap unmarshalEntry

/-- What a new process finds. -/
def scan (d : ExecDir) : ExecDir :=
  { d with nextSeq := (d.files.map Prod.fst).foldr max 0 + 1 }

end ExecDir

/-! ### Reading what was written -/

/-- An entry that is read as it was written. -/
def Entry.Storable (e : Entry) : Prop :=
  ∃ line, e.RoundTrips line ∧ line.length < maxTokenSize

theorem Entry.carriageReturn_not_mem_line {e : Entry} {s : GoString} (h : e.line = some s) :
    carriageReturn ∉ s := by
  obtain ⟨d, -, rfl⟩ := Option.map_eq_some_iff.mp h
  intro hmem
  exact absurd (Json.render_bytes d carriageReturn hmem) (by decide)

theorem splitLines_lines {lines : List GoString} (h : ∀ l ∈ lines, newline ∉ l) :
    splitLines (lines.flatMap (· ++ [newline])) = lines ++ [[]] := by
  induction lines with
  | nil => rfl
  | cons l lines ih =>
    rw [List.flatMap_cons, List.append_assoc, List.singleton_append, splitLines_append,
      splitLines_line (h l List.mem_cons_self),
      ih fun m hm => h m (List.mem_cons_of_mem l hm)]
    rfl

theorem scanLines_lines {lines : List GoString} (h : ∀ l ∈ lines, newline ∉ l)
    (hreturn : ∀ l ∈ lines, carriageReturn ∉ l) (hshort : ∀ l ∈ lines, l.length < maxTokenSize) :
    scanLines (lines.flatMap (· ++ [newline])) = lines := by
  have hkept : ∀ l ∈ lines,
      (if l.getLast? = some carriageReturn then l.dropLast else l) = id l := by
    intro l hl
    rw [if_neg fun hlast => hreturn l hl (List.mem_of_getLast? hlast)]
    rfl
  rw [scanLines, splitLines_lines h, if_pos List.getLast?_concat, List.dropLast_concat,
    List.takeWhile_eq_self_iff.mpr fun l hl => by simpa using hshort l hl,
    List.map_congr_left hkept, List.map_id]

namespace ExecDir

/-- The lines of the entries. -/
structure Encoded (es : List Entry) (lines : List GoString) : Prop where
  encoded : es.mapM Entry.line = some lines
  decoded : lines.filterMap unmarshalEntry = es
  scanned : scanLines (lines.flatMap (· ++ [newline])) = lines

theorem exists_lines {es : List Entry} (h : ∀ e ∈ es, e.Storable) :
    ∃ lines, es.mapM Entry.line = some lines ∧ lines.filterMap unmarshalEntry = es ∧
      ∀ l ∈ lines, newline ∉ l ∧ carriageReturn ∉ l ∧ l.length < maxTokenSize := by
  induction es with
  | nil => exact ⟨[], rfl, rfl, by simp⟩
  | cons e es ih =>
    obtain ⟨lines, hlines, hdecoded, hall⟩ := ih fun x hx => h x (List.mem_cons_of_mem e hx)
    obtain ⟨line, ⟨hline, hread⟩, hshort⟩ := h e List.mem_cons_self
    refine ⟨line :: lines, ?_, ?_, ?_⟩
    · rw [List.mapM_cons, hline, hlines]
      rfl
    · rw [List.filterMap_cons_some hread, hdecoded]
    · intro l hl
      rcases List.mem_cons.mp hl with rfl | hl
      · exact ⟨e.newline_not_mem_line hline, Entry.carriageReturn_not_mem_line hline, hshort⟩
      · exact hall l hl

theorem exists_encoded {es : List Entry} (h : ∀ e ∈ es, e.Storable) :
    ∃ lines, Encoded es lines := by
  obtain ⟨lines, hlines, hdecoded, hall⟩ := exists_lines h
  exact ⟨lines, hlines, hdecoded, scanLines_lines (fun l hl => (hall l hl).1)
    (fun l hl => (hall l hl).2.1) fun l hl => (hall l hl).2.2⟩

/-- Every file has a lower number than the next one, and the files are in order. -/
structure Ordered (d : ExecDir) : Prop where
  sorted : d.files.Pairwise fun f g => f.1 ≤ g.1
  below : ∀ f ∈ d.files, f.1 < d.nextSeq

theorem ordered_empty : empty.Ordered := ⟨List.Pairwise.nil, by simp [empty]⟩

theorem Ordered.read {d : ExecDir} (h : d.Ordered) :
    d.read = d.files.flatMap fun f => (scanLines f.2).filterMap unmarshalEntry := by
  rw [ExecDir.read, List.mergeSort_of_pairwise (h.sorted.imp fun hle => by simpa using hle)]

/-- A flush adds the entries to those on disk. -/
theorem flush_spec {d : ExecDir} (h : d.Ordered) {es : List Entry}
    (hes : ∀ e ∈ es, e.Storable) :
    (d.flush es).2 = true ∧ (d.flush es).1.Ordered ∧ (d.flush es).1.read = d.read ++ es := by
  by_cases hempty : es = []
  · rw [flush, if_pos hempty, hempty, List.append_nil]
    exact ⟨rfl, h, rfl⟩
  · obtain ⟨lines, hlines⟩ := exists_encoded hes
    have hcontent : encode es = some (lines.flatMap (· ++ [newline])) := by
      rw [encode, hlines.encoded, Option.map_some]
    generalize hseq : (if d.nextSeq = 0 then 1 else d.nextSeq) = seq
    have hbelow : ∀ f ∈ d.files, f.1 < seq := by
      intro f hf
      have hf := h.below f hf
      rw [← hseq, if_neg (by omega)]
      exact hf
    have hkept : (d.files.filter fun f => f.1 ≠ seq) = d.files := by
      apply List.filter_eq_self.mpr
      intro f hf
      simpa using (hbelow f hf).ne
    have hflush : d.flush es =
        (⟨d.files ++ [(seq, lines.flatMap (· ++ [newline]))], seq + 1⟩, true) := by
      rw [flush, if_neg hempty]
      dsimp only
      rw [hcontent, hseq, hkept]
    have hordered : (d.flush es).1.Ordered := by
      rw [hflush]
      constructor
      · apply List.pairwise_append.mpr
        refine ⟨h.sorted, List.pairwise_singleton _ _, fun f hf g hg => ?_⟩
        rw [List.mem_singleton.mp hg]
        exact (hbelow f hf).le
      · intro f hf
        rcases List.mem_append.mp hf with hf | hf
        · exact (hbelow f hf).trans (Nat.lt_succ_self seq)
        · rw [List.mem_singleton.mp hf]
          exact Nat.lt_succ_self seq
    refine ⟨by rw [hflush], hordered, ?_⟩
    rw [hordered.read, h.read, hflush]
    rw [List.flatMap_append, List.flatMap_singleton, hlines.scanned, hlines.decoded]

end ExecDir
end Persatrix.LogBuffer
