import Persatrix.System
import Mathlib.Data.List.Perm.Basic
import Mathlib.Data.List.Range
import Mathlib.Logic.Basic

/-!
# The log shipper

`Shipper` of `log_shipper.py`. Any thread enqueues records, and the oldest one is dropped when the
queue is full. One task takes them out in batches, converts each batch and writes it to a stream,
opens another stream when one ends, and ends when it was told to stop and the queue is empty. What
it took out is in no place but the task until it is written.
-/
namespace Persatrix.LogShipper
variable {R : Type}

/-- A record and how many were enqueued before it. -/
abbrev Numbered (R : Type) := ℕ × R

/-- How a stream came to its end. -/
inductive Ending where
  | eof
  | failed
  | cancelled
deriving DecidableEq

/-- Where the drain task is: before `start`, at the loop of `_run`, inside `_stream_once`, in the
backoff, or at its end. -/
inductive Place where
  | absent
  | checking
  | opening
  | draining
  | converting
  | writing
  | idle
  | waiting
  | halfClosing
  | cleanup (ending : Ending)
  | backoff
  | finished
  | cancelled
deriving DecidableEq

namespace Place

def running : Place → Bool
  | absent => false
  | finished => false
  | cancelled => false
  | _ => true

/-- `Task.cancel`, where the task is waiting for something. The cleanup suppresses it. -/
def cancel : Place → Option Place
  | checking => some cancelled
  | writing => some (cleanup .cancelled)
  | waiting => some (cleanup .cancelled)
  | halfClosing => some (cleanup .cancelled)
  | cleanup ending => some (cleanup ending)
  | backoff => some cancelled
  | finished => some finished
  | cancelled => some cancelled
  | _ => none

/-- After the cleanup a stream that ended is followed by another one, at once or after the backoff,
and a cancelled one by none. -/
def tidied : Place → Option Place
  | cleanup .eof => some checking
  | cleanup .failed => some backoff
  | cleanup .cancelled => some cancelled
  | _ => none

end Place

/-- The fields of a shipper, and what became of each record. A call of `stop` that waits for the
task, or that returned before its timeout, is given by how many records were enqueued before it. -/
structure Shipper (R : Type) where
  queue : List (Numbered R)
  enqueued : ℕ
  dropped : ℕ
  shipped : ℕ
  stopping : Bool
  /-- `_task` is not `None`. -/
  task : Bool
  place : Place
  /-- What the task took out of the queue and did not write. -/
  batch : List (Numbered R)
  log : List (Numbered R)
  evicted : List (Numbered R)
  written : List (Numbered R)
  stops : List ℕ
  returned : List ℕ
  /-- The calls of `stop` that wait for a task they cancelled. -/
  expired : ℕ
deriving DecidableEq

/-- A step of a thread, of the drain task or of a call of `stop`. Where the outcome is open, whether
there was no exception. -/
inductive Event (R : Type) where
  | enqueue (record : R)
  | start
  | check
  | openStream (ok : Bool)
  | pop
  | convert (ok : Bool)
  | write (ok : Bool)
  | look
  | wake
  | doneWriting (ok : Bool)
  | tidy
  | retry
  | stop
  | stopReturns (n : ℕ)
  | stopExpires (n : ℕ)
  | stopRaises (n : ℕ)
  | expiredReturns
deriving DecidableEq

namespace Shipper

def init : Shipper R where
  queue := []
  enqueued := 0
  dropped := 0
  shipped := 0
  stopping := false
  task := false
  place := .absent
  batch := []
  log := []
  evicted := []
  written := []
  stops := []
  returned := []
  expired := 0

variable (maxQueue batchMax : ℕ)

def appended (s : Shipper R) (record : R) : Shipper R :=
  { s with
    queue := s.queue ++ [(s.enqueued, record)]
    enqueued := s.enqueued + 1
    log := s.log ++ [(s.enqueued, record)] }

/-- `popleft` and its count. -/
def evict (s : Shipper R) (oldest : Numbered R) (rest : List (Numbered R)) : Shipper R :=
  { s with queue := rest, dropped := s.dropped + 1, evicted := s.evicted ++ [oldest] }

/-- Without room for any record `popleft` raises, and nothing is enqueued. -/
def enqueue (s : Shipper R) (record : R) : Shipper R :=
  if s.queue.length < maxQueue then s.appended record
  else
    match s.queue with
    | [] => s
    | oldest :: rest => (s.evict oldest rest).appended record

/-- The loop of `_run` goes on until it is told to stop and the queue is empty. -/
def check (s : Shipper R) : Shipper R :=
  { s with place := if s.stopping = true ∧ s.queue = [] then .finished else .opening }

/-- A batch, if the queue has a record. -/
def pop (s : Shipper R) : Shipper R :=
  if s.queue.take batchMax = [] then { s with place := .idle }
  else { s with
    queue := s.queue.drop batchMax
    batch := s.queue.take batchMax
    place := .converting }

/-- The task goes on without its batch. -/
def leave (s : Shipper R) (place : Place) : Shipper R := { s with place := place, batch := [] }

def wrote (s : Shipper R) : Shipper R :=
  { s.leave .draining with
    written := s.written ++ s.batch
    shipped := s.shipped + s.batch.length }

/-- `stop` up to its wait, or all of it when there is no task. -/
def stop (s : Shipper R) : Shipper R :=
  if s.task then { s with stopping := true, stops := s.stops ++ [s.enqueued] }
  else { s with returned := s.returned ++ [s.enqueued] }

def stopReturns (s : Shipper R) (n : ℕ) : Shipper R :=
  { s with task := false, stops := s.stops.erase n, returned := s.returned ++ [n] }

def stopExpires (s : Shipper R) (n : ℕ) (place : Place) : Shipper R :=
  { s.leave place with stops := s.stops.erase n, expired := s.expired + 1 }

/-- A step that goes from one place to another. -/
def move (s : Shipper R) (place next : Place) : Option (Shipper R) :=
  if s.place = place then some { s with place := next } else none

def step (s : Shipper R) : Event R → Option (Shipper R)
  | .enqueue record => some (s.enqueue maxQueue record)
  | .start => if s.place = .absent then some { s with task := true, place := .checking } else none
  | .check => if s.place = .checking then some s.check else none
  | .openStream ok => s.move .opening (if ok then .draining else .backoff)
  | .pop => if s.place = .draining then some (s.pop batchMax) else none
  | .convert ok =>
    if s.place = .converting then
      some (if ok then { s with place := .writing } else s.leave (.cleanup .failed))
    else none
  | .write ok =>
    if s.place = .writing then some (if ok then s.wrote else s.leave (.cleanup .failed)) else none
  | .look => s.move .idle (if s.stopping then .halfClosing else .waiting)
  | .wake => s.move .waiting .draining
  | .doneWriting ok => s.move .halfClosing (.cleanup (if ok then .eof else .failed))
  | .tidy => s.place.tidied.bind fun next => s.move s.place next
  | .retry => s.move .backoff .checking
  | .stop => some s.stop
  | .stopReturns n =>
    if n ∈ s.stops ∧ s.place = .finished then some (s.stopReturns n) else none
  | .stopExpires n =>
    if n ∈ s.stops then s.place.cancel.map (s.stopExpires n) else none
  | .stopRaises n =>
    if n ∈ s.stops ∧ s.place = .cancelled then some { s with stops := s.stops.erase n } else none
  | .expiredReturns =>
    if 0 < s.expired ∧ (s.place = .finished ∨ s.place = .cancelled) then
      some { s with task := false, expired := s.expired - 1 }
    else none

end Shipper

def shipper (R : Type) (maxQueue batchMax : ℕ) : System (Shipper R) (Event R) where
  init := .init
  step := Shipper.step maxQueue batchMax

/-! ### The account of the records -/

/-- Each record is in one place, and the ones that are written are in the order in which they were
enqueued. -/
structure Accounted (maxQueue : ℕ) (s : Shipper R) : Prop where
  total : s.enqueued = s.dropped + s.written.length + s.queue.length + s.batch.length
  numbered : s.log.map Prod.fst = List.range s.enqueued
  kept : (s.evicted ++ (s.written ++ (s.batch ++ s.queue))).Perm s.log
  dropped : s.dropped = s.evicted.length
  bound : s.queue.length ≤ maxQueue
  order : s.written.Sublist s.log
  stopped : ∀ n ∈ s.returned, ∀ r ∈ s.log, r.1 < n → r ∈ s.written ∨ r ∈ s.evicted

/-- No conversion and no write raises or is cancelled, and a `stop` that finds no task running, and
does not raise for one that was cancelled, finds nothing queued. -/
def Careful (s : Shipper R) : Event R → Prop
  | .convert ok => ok = true
  | .write ok => ok = true
  | .stopExpires _ => s.place ≠ .writing
  | .stop => s.place.running = true ∨ s.task = true ∧ s.place = .cancelled ∨ s.queue = []
  | _ => True

instance (s : Shipper R) (e : Event R) : Decidable (Careful s e) := by
  cases e <;> unfold Careful <;> infer_instance

/-- What holds between the steps of careful runs. -/
structure Inv (maxQueue : ℕ) (s : Shipper R) : Prop where
  numbered : s.log.map Prod.fst = List.range s.enqueued
  kept : (s.evicted ++ (s.written ++ (s.batch ++ s.queue))).Perm s.log
  dropped : s.dropped = s.evicted.length
  shipped : s.shipped = s.written.length
  bound : s.queue.length ≤ maxQueue
  order : (s.written ++ (s.batch ++ s.queue)).Sublist s.log
  batch : s.place ≠ .converting → s.place ≠ .writing → s.batch = []
  known : ∀ n ∈ s.stops ++ s.returned, n ≤ s.enqueued
  finished : s.place = .finished → ∀ n ∈ s.stops, ∀ r ∈ s.queue, n ≤ r.1
  returned : ∀ n ∈ s.returned, ∀ r ∈ s.batch ++ s.queue, n ≤ r.1
  task : s.task = false → s.place.running = false

theorem Inv.accounted {maxQueue : ℕ} {s : Shipper R} (h : Inv maxQueue s) :
    Accounted maxQueue s where
  total := by
    have hlog := congrArg List.length h.numbered
    have hkept := h.kept.length_eq
    have hdropped := h.dropped
    rw [List.length_map, List.length_range] at hlog
    simp only [List.length_append] at hkept
    omega
  numbered := h.numbered
  kept := h.kept
  dropped := h.dropped
  bound := h.bound
  order := (List.sublist_append_left _ _).trans h.order
  stopped := by
    intro n hn r hr hlt
    have hmem := h.kept.mem_iff.mpr hr
    rw [List.mem_append, List.mem_append] at hmem
    cases hmem with
    | inl hevicted => exact .inr hevicted
    | inr hmem =>
      cases hmem with
      | inl hwritten => exact .inl hwritten
      | inr hrest => exact absurd (h.returned n hn r hrest) (Nat.not_le.mpr hlt)

section
variable {maxQueue batchMax : ℕ} {s : Shipper R}

theorem Inv.init : Inv maxQueue (Shipper.init : Shipper R) where
  numbered := rfl
  kept := .nil
  dropped := rfl
  shipped := rfl
  bound := Nat.zero_le _
  order := .slnil
  batch _ _ := rfl
  known _ h := (List.not_mem_nil h).elim
  finished h := nomatch h
  returned _ h := (List.not_mem_nil h).elim
  task _ := rfl

theorem Inv.appended (h : Inv maxQueue s) (hroom : s.queue.length < maxQueue) (record : R) :
    Inv maxQueue (s.appended record) where
  numbered := by
    change (s.log ++ [(s.enqueued, record)]).map Prod.fst = List.range (s.enqueued + 1)
    rw [List.map_append, h.numbered, List.range_succ]
    rfl
  kept := by
    change (s.evicted ++ (s.written ++ (s.batch ++ (s.queue ++ [_])))).Perm (s.log ++ [_])
    simp only [← List.append_assoc]
    refine List.Perm.append_right _ ?_
    simpa only [List.append_assoc] using h.kept
  dropped := h.dropped
  shipped := h.shipped
  bound := by
    change (s.queue ++ [_]).length ≤ maxQueue
    rw [List.length_append]
    exact hroom
  order := by
    change (s.written ++ (s.batch ++ (s.queue ++ [_]))).Sublist (s.log ++ [_])
    simp only [← List.append_assoc]
    refine List.Sublist.append ?_ (List.Sublist.refl _)
    simpa only [List.append_assoc] using h.order
  batch := h.batch
  known n hn := (h.known n hn).trans (Nat.le_succ _)
  finished hplace n hn r hr := by
    cases List.mem_append.mp hr with
    | inl hr => exact h.finished hplace n hn r hr
    | inr hr =>
      rw [List.mem_singleton.mp hr]
      exact h.known n (List.mem_append_left _ hn)
  returned n hn r hr := by
    change r ∈ s.batch ++ (s.queue ++ [_]) at hr
    rw [← List.append_assoc] at hr
    cases List.mem_append.mp hr with
    | inl hr => exact h.returned n hn r hr
    | inr hr =>
      rw [List.mem_singleton.mp hr]
      exact h.known n (List.mem_append_right _ hn)
  task := h.task

theorem Inv.evict (h : Inv maxQueue s) {oldest : Numbered R} {rest : List (Numbered R)}
    (hqueue : s.queue = oldest :: rest) : Inv maxQueue (s.evict oldest rest) where
  numbered := h.numbered
  kept := by
    refine List.Perm.trans ?_ h.kept
    change ((s.evicted ++ [oldest]) ++ (s.written ++ (s.batch ++ rest))).Perm _
    rw [hqueue, List.append_assoc]
    refine List.Perm.append_left _ ?_
    rw [List.singleton_append, ← List.append_assoc, ← List.append_assoc]
    exact List.perm_middle.symm
  dropped := by
    change s.dropped + 1 = (s.evicted ++ [oldest]).length
    rw [h.dropped, List.length_append]
    rfl
  shipped := h.shipped
  bound := by
    have hbound := h.bound
    rw [hqueue, List.length_cons] at hbound
    exact Nat.le_of_succ_le hbound
  order := by
    refine List.Sublist.trans ?_ h.order
    rw [hqueue]
    exact (((List.sublist_cons_self _ _).append_left _).append_left _)
  batch := h.batch
  known := h.known
  finished hplace n hn r hr := by
    refine h.finished hplace n hn r ?_
    rw [hqueue]
    exact List.mem_cons_of_mem _ hr
  returned n hn r hr := by
    refine h.returned n hn r ?_
    rw [hqueue]
    cases List.mem_append.mp hr with
    | inl hr => exact List.mem_append_left _ hr
    | inr hr => exact List.mem_append_right _ (List.mem_cons_of_mem _ hr)
  task := h.task

theorem Inv.enqueue (h : Inv maxQueue s) (record : R) : Inv maxQueue (s.enqueue maxQueue record) := by
  unfold Shipper.enqueue
  split_ifs with hroom
  · exact h.appended hroom record
  · cases hqueue : s.queue with
    | nil => exact h
    | cons oldest rest =>
      have hbound := h.bound
      rw [hqueue, List.length_cons] at hbound
      exact (h.evict hqueue).appended hbound record

/-- Another place, from which nothing is lost. -/
theorem Inv.place (h : Inv maxQueue s) {place : Place} {task : Bool}
    (hbatch : place ≠ .converting → place ≠ .writing → s.batch = [])
    (hfinished : place = .finished → ∀ n ∈ s.stops, ∀ r ∈ s.queue, n ≤ r.1)
    (htask : task = false → place.running = false) :
    Inv maxQueue { s with place := place, task := task } where
  numbered := h.numbered
  kept := h.kept
  dropped := h.dropped
  shipped := h.shipped
  bound := h.bound
  order := h.order
  batch := hbatch
  known := h.known
  finished := hfinished
  returned := h.returned
  task := htask

/-- While a task runs there is one to wait for. -/
theorem Inv.has_task (h : Inv maxQueue s) {p : Prop} (hrunning : s.place.running = true)
    (htask : s.task = false) : p := by
  have hidle := h.task htask
  rw [hrunning] at hidle
  cases hidle

theorem Inv.move (h : Inv maxQueue s) {t : Shipper R} {place next : Place}
    (hplace : place ≠ .converting ∧ place ≠ .writing ∧ place.running = true)
    (hnext : next ≠ .finished) (ht : s.move place next = some t) : Inv maxQueue t := by
  unfold Shipper.move at ht
  split_ifs at ht with hs
  cases ht
  subst hs
  exact h.place (fun _ _ => h.batch hplace.1 hplace.2.1) (fun hfin => (hnext hfin).elim)
    (h.has_task hplace.2.2)

theorem Inv.check (h : Inv maxQueue s) (hplace : s.place = .checking) : Inv maxQueue s.check := by
  have hbatch : s.batch = [] := h.batch (by rw [hplace]; decide) (by rw [hplace]; decide)
  refine h.place (fun _ _ => hbatch) (fun hfin n _ r hr => ?_) (h.has_task (by rw [hplace]; rfl))
  split_ifs at hfin with hend
  rw [hend.2] at hr
  cases hr

theorem Inv.pop (h : Inv maxQueue s) (hplace : s.place = .draining) :
    Inv maxQueue (s.pop batchMax) := by
  have hbatch : s.batch = [] := h.batch (by rw [hplace]; decide) (by rw [hplace]; decide)
  have hsplit : s.batch ++ s.queue = s.queue.take batchMax ++ s.queue.drop batchMax := by
    rw [hbatch, List.take_append_drop, List.nil_append]
  have hrunning : s.place.running = true := by rw [hplace]; rfl
  unfold Shipper.pop
  split_ifs with hnone
  · exact h.place (fun _ _ => hbatch) nofun (h.has_task hrunning)
  · exact {
      numbered := h.numbered
      kept := hsplit ▸ h.kept
      dropped := h.dropped
      shipped := h.shipped
      bound := by
        change (s.queue.drop batchMax).length ≤ maxQueue
        rw [List.length_drop]
        exact (Nat.sub_le _ _).trans h.bound
      order := hsplit ▸ h.order
      batch := fun hne => (hne rfl).elim
      known := h.known
      finished := nofun
      returned := hsplit ▸ h.returned
      task := h.has_task hrunning }

theorem Inv.wrote (h : Inv maxQueue s) (hplace : s.place = .writing) : Inv maxQueue s.wrote where
  numbered := h.numbered
  kept := by
    have hkept := h.kept
    rw [← List.append_assoc s.written] at hkept
    exact hkept
  dropped := h.dropped
  shipped := by
    change s.shipped + s.batch.length = (s.written ++ s.batch).length
    rw [h.shipped, List.length_append]
  bound := h.bound
  order := by
    have horder := h.order
    rw [← List.append_assoc s.written] at horder
    exact horder
  batch _ _ := rfl
  known := h.known
  finished := nofun
  returned n hn r hr := h.returned n hn r (List.mem_append_right _ hr)
  task := h.has_task (by rw [hplace]; rfl)

theorem Inv.stop (h : Inv maxQueue s) (hcareful : Careful s .stop) : Inv maxQueue s.stop := by
  have hempty : s.task = false ∨ s.place = .finished → s.queue = [] := by
    intro hidle
    cases hcareful with
    | inl hrunning =>
      cases hidle with
      | inl htask => exact h.has_task hrunning htask
      | inr hplace =>
        rw [hplace] at hrunning
        cases hrunning
    | inr hcareful =>
      cases hcareful with
      | inl hcancelled =>
        cases hidle with
        | inl htask =>
          rw [htask] at hcancelled
          cases hcancelled.1
        | inr hplace =>
          rw [hplace] at hcancelled
          cases hcancelled.2
      | inr hqueue => exact hqueue
  unfold Shipper.stop
  split_ifs with htask
  · exact {
      numbered := h.numbered
      kept := h.kept
      dropped := h.dropped
      shipped := h.shipped
      bound := h.bound
      order := h.order
      batch := h.batch
      known := by
        intro n hn
        change n ∈ (s.stops ++ [s.enqueued]) ++ s.returned at hn
        simp only [List.mem_append, List.mem_singleton] at hn
        rcases hn with (hn | hn) | hn
        · exact h.known n (List.mem_append_left _ hn)
        · exact hn.le
        · exact h.known n (List.mem_append_right _ hn)
      finished := by
        intro hplace n _ r hr
        rw [hempty (.inr hplace)] at hr
        cases hr
      returned := h.returned
      task := h.task }
  · have hplace : s.place.running = false := h.task (Bool.eq_false_iff.mpr htask)
    have hbatch : s.batch = [] := h.batch (fun hc => by rw [hc] at hplace; cases hplace)
      (fun hw => by rw [hw] at hplace; cases hplace)
    exact {
      numbered := h.numbered
      kept := h.kept
      dropped := h.dropped
      shipped := h.shipped
      bound := h.bound
      order := h.order
      batch := h.batch
      known := by
        intro n hn
        change n ∈ s.stops ++ (s.returned ++ [s.enqueued]) at hn
        simp only [List.mem_append, List.mem_singleton] at hn
        rcases hn with hn | hn | hn
        · exact h.known n (List.mem_append_left _ hn)
        · exact h.known n (List.mem_append_right _ hn)
        · exact hn.le
      finished := h.finished
      returned := by
        intro n _ r hr
        change r ∈ s.batch ++ s.queue at hr
        rw [hbatch, hempty (.inl (Bool.eq_false_iff.mpr htask))] at hr
        cases hr
      task := h.task }

theorem Inv.stopReturns (h : Inv maxQueue s) {n : ℕ} (hn : n ∈ s.stops)
    (hplace : s.place = .finished) : Inv maxQueue (s.stopReturns n) where
  numbered := h.numbered
  kept := h.kept
  dropped := h.dropped
  shipped := h.shipped
  bound := h.bound
  order := h.order
  batch := h.batch
  known := by
    intro m hm
    change m ∈ s.stops.erase n ++ (s.returned ++ [n]) at hm
    simp only [List.mem_append, List.mem_singleton] at hm
    rcases hm with hm | hm | hm
    · exact h.known m (List.mem_append_left _ (List.mem_of_mem_erase hm))
    · exact h.known m (List.mem_append_right _ hm)
    · exact hm ▸ h.known n (List.mem_append_left _ hn)
  finished hfin m hm := h.finished hfin m (List.mem_of_mem_erase hm)
  returned := by
    have hbatch : s.batch = [] := h.batch (by rw [hplace]; decide) (by rw [hplace]; decide)
    intro m hm r hr
    cases List.mem_append.mp hm with
    | inl hm => exact h.returned m hm r hr
    | inr hm =>
      change r ∈ s.batch ++ s.queue at hr
      rw [hbatch, List.nil_append] at hr
      rw [List.mem_singleton.mp hm]
      exact h.finished hplace n hn r hr
  task _ := by
    change s.place.running = false
    rw [hplace]
    rfl

/-- Some calls of `stop` that are no longer waited for. -/
theorem Inv.fewer (h : Inv maxQueue s) {stops : List ℕ} {expired : ℕ} {task : Bool}
    (hstops : stops ⊆ s.stops) (htask : task = false → s.place.running = false) :
    Inv maxQueue { s with stops := stops, expired := expired, task := task } where
  numbered := h.numbered
  kept := h.kept
  dropped := h.dropped
  shipped := h.shipped
  bound := h.bound
  order := h.order
  batch := h.batch
  known m hm := by
    refine h.known m ?_
    cases List.mem_append.mp hm with
    | inl hm => exact List.mem_append_left _ (hstops hm)
    | inr hm => exact List.mem_append_right _ hm
  finished hfin m hm := h.finished hfin m (hstops hm)
  returned := h.returned
  task := htask

theorem Place.cancel_some {place next : Place} (h : place.cancel = some next) :
    place ≠ .converting ∧ (next = .finished → place = .finished) ∧
      (place.running = false → next.running = false) := by
  cases place <;> cases h <;> simp [Place.running]

theorem Place.tidied_some {place next : Place} (h : place.tidied = some next) :
    (place ≠ .converting ∧ place ≠ .writing ∧ place.running = true) ∧ next ≠ .finished := by
  cases place with
  | cleanup ending => cases ending <;> cases h <;> simp [Place.running]
  | _ => cases h

theorem Inv.stopExpires (h : Inv maxQueue s) {place : Place} (hwriting : s.place ≠ .writing)
    (hplace : s.place.cancel = some place) (n : ℕ) : Inv maxQueue (s.stopExpires n place) := by
  obtain ⟨hconverting, hfinished, hrunning⟩ := Place.cancel_some hplace
  have hbatch := h.batch hconverting hwriting
  have hmoved : Inv maxQueue { s with place := place } :=
    h.place (fun _ _ => hbatch) (fun hfin => h.finished (hfinished hfin))
      fun htask => hrunning (h.task htask)
  have hfewer : Inv maxQueue { s with
      place := place
      stops := s.stops.erase n
      expired := s.expired + 1 } :=
    hmoved.fewer List.erase_subset fun htask => hrunning (h.task htask)
  unfold Shipper.stopExpires Shipper.leave
  rw [← hbatch]
  exact hfewer

theorem Inv.step (h : Inv maxQueue s) {e : Event R} {t : Shipper R} (hcareful : Careful s e)
    (hstep : (shipper R maxQueue batchMax).step s e = some t) : Inv maxQueue t := by
  change Shipper.step maxQueue batchMax s e = some t at hstep
  cases e with
  | enqueue record =>
    cases hstep
    exact h.enqueue record
  | start =>
    rw [Shipper.step] at hstep
    split_ifs at hstep with hplace
    cases hstep
    have hbatch : s.batch = [] := h.batch (by rw [hplace]; decide) (by rw [hplace]; decide)
    exact h.place (fun _ _ => hbatch) nofun nofun
  | check =>
    rw [Shipper.step] at hstep
    split_ifs at hstep with hplace
    cases hstep
    exact h.check hplace
  | openStream ok => exact h.move (by decide) (by cases ok <;> decide) hstep
  | pop =>
    rw [Shipper.step] at hstep
    split_ifs at hstep with hplace
    cases hstep
    exact h.pop hplace
  | convert ok =>
    rw [Shipper.step] at hstep
    split_ifs at hstep with hplace hok
    · cases hstep
      exact h.place (fun _ hwriting => (hwriting rfl).elim) nofun
        (h.has_task (by rw [hplace]; rfl))
    · exact (hok hcareful).elim
  | write ok =>
    rw [Shipper.step] at hstep
    split_ifs at hstep with hplace hok
    · cases hstep
      exact h.wrote hplace
    · exact (hok hcareful).elim
  | look =>
    refine h.move (by decide) ?_ hstep
    cases s.stopping <;> decide
  | wake => exact h.move (by decide) (by decide) hstep
  | doneWriting ok => exact h.move (by decide) (by cases ok <;> decide) hstep
  | tidy =>
    obtain ⟨next, hnext, hmove⟩ := Option.bind_eq_some_iff.mp hstep
    exact h.move (Place.tidied_some hnext).1 (Place.tidied_some hnext).2 hmove
  | retry => exact h.move (by decide) (by decide) hstep
  | stop =>
    cases hstep
    exact h.stop hcareful
  | stopReturns n =>
    rw [Shipper.step] at hstep
    split_ifs at hstep with hready
    cases hstep
    exact h.stopReturns hready.1 hready.2
  | stopExpires n =>
    rw [Shipper.step] at hstep
    split_ifs at hstep with hwaits
    obtain ⟨place, hplace, rfl⟩ := Option.map_eq_some_iff.mp hstep
    exact h.stopExpires hcareful hplace n
  | stopRaises n =>
    rw [Shipper.step] at hstep
    split_ifs at hstep with hready
    cases hstep
    exact h.fewer List.erase_subset h.task
  | expiredReturns =>
    rw [Shipper.step] at hstep
    split_ifs at hstep with hready
    cases hstep
    refine h.fewer (List.Subset.refl _) fun _ => ?_
    cases hready.2 with
    | inl hplace => rw [hplace]; rfl
    | inr hplace => rw [hplace]; rfl

theorem shipper_accounted (h : (shipper R maxQueue batchMax).Reaches Careful s) :
    Accounted maxQueue s := by
  have hinv : Inv maxQueue s := System.Reaches.invariant Inv.init
    (fun _ _ _ hi hc hs => Inv.step hi hc hs) h
  exact hinv.accounted

end

/-- A record is written after `stop` was called and before it returns. -/
theorem shipper_flushed : ∃ s : Shipper ℕ, Accounted 1 s ∧ s.returned = [1] ∧ s.written = [(0, 7)] := by
  have hrun : ∃ s, ((shipper ℕ 1 256).guarded Careful).exec
      [.enqueue 7, .start, .check, .openStream true, .pop, .convert true, .stop, .write true, .pop,
        .look, .doneWriting true, .tidy, .check, .stopReturns 1] = some s ∧
      s.returned = [1] ∧ s.written = [(0, 7)] := ⟨_, rfl, rfl, rfl⟩
  obtain ⟨s, hexec, hs⟩ := hrun
  exact ⟨s, shipper_accounted (System.reachable_exec hexec).of_guarded, hs⟩

/-- A write that raises takes its batch with it. -/
theorem shipper_loses_batch : ∃ s : Shipper ℕ, (shipper ℕ 5000 256).Reachable s ∧
    s.enqueued = 1 ∧ s.dropped + s.written.length + s.queue.length + s.batch.length = 0 := by
  have hrun : ∃ s, (shipper ℕ 5000 256).exec
      [.enqueue 7, .start, .check, .openStream true, .pop, .convert true, .write false] = some s ∧
      s.enqueued = 1 ∧ s.dropped + s.written.length + s.queue.length + s.batch.length = 0 :=
    ⟨_, rfl, rfl, rfl⟩
  obtain ⟨s, hexec, hs⟩ := hrun
  exact ⟨s, System.reachable_exec hexec, hs⟩

end Persatrix.LogShipper
