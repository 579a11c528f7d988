import Mathlib.Data.List.Nodup
import Persatrix.EventLoopChanges

/-!
# What was accepted, and what was handled of it

The numbers of the wakes grow with the calls, so that the order in which the queue takes them is
the order of the log.
-/
namespace Persatrix.Wakes
open EventLoop

def accepted (d : Bool) (log : List Note) : List Arrival :=
  log.filterMap fun
    | .accepted a d' => if d' = d then some a else none
    | _ => none

def handled (d : Bool) (log : List Note) : List Arrival :=
  log.filterMap fun
    | .handled a d' => if d' = d then some a else none
    | _ => none

/-- The numbers of all that was accepted. -/
def numbers (log : List Note) : List ℕ :=
  log.filterMap fun
    | .accepted a _ => some a.number
    | _ => none

def Note.isRefusedFull : Note → Bool
  | .refusedFull _ => true
  | _ => false

def wakes (queue : List Item) : List Arrival :=
  queue.filterMap fun
    | .wake a => some a
    | .stopSentinel => none

variable {α ε : Type} {sound : Prop} {s t : EventLoop α ε} {log l l' : List Note} {a : Arrival}
  {d : Bool}

@[simp] theorem accepted_append : accepted d (l ++ l') = accepted d l ++ accepted d l' :=
  List.filterMap_append

@[simp] theorem handled_append : handled d (l ++ l') = handled d l ++ handled d l' :=
  List.filterMap_append

@[simp] theorem numbers_append : numbers (l ++ l') = numbers l ++ numbers l' :=
  List.filterMap_append

theorem numbers_handled : numbers (log ++ [.handled a d]) = numbers log :=
  numbers_append.trans (List.append_nil _)

theorem mem_of_append {n m : Note} (h : n ∈ log ++ [m]) (hne : n ≠ m) : n ∈ log :=
  (List.mem_append.mp h).resolve_right fun hm => hne (List.mem_singleton.mp hm)

theorem mem_accepted : a ∈ accepted d log ↔ .accepted a d ∈ log := by
  constructor
  · intro h
    obtain ⟨n, hn, ha⟩ := List.mem_filterMap.mp h
    cases n with
    | accepted b d' =>
      dsimp only at ha
      split at ha
      · next hd =>
          subst hd
          cases ha
          exact hn
      · cases ha
    | _ => cases ha
  · intro h
    exact List.mem_filterMap.mpr ⟨_, h, by simp⟩

theorem mem_handled : a ∈ handled d log ↔ .handled a d ∈ log := by
  constructor
  · intro h
    obtain ⟨n, hn, ha⟩ := List.mem_filterMap.mp h
    cases n with
    | handled b d' =>
      dsimp only at ha
      split at ha
      · next hd =>
          subst hd
          cases ha
          exact hn
      · cases ha
    | _ => cases ha
  · intro h
    exact List.mem_filterMap.mpr ⟨_, h, by simp⟩

theorem mem_numbers (h : .accepted a d ∈ log) : a.number ∈ numbers log :=
  List.mem_filterMap.mpr ⟨_, h, rfl⟩

theorem accepted_sublist (d : Bool) (log : List Note) :
    ((accepted d log).map Arrival.number).Sublist (numbers log) := by
  induction log with
  | nil => exact .refl _
  | cons n log ih =>
    cases n with
    | accepted a d' =>
      by_cases hd : d' = d
      · have hcons : accepted d (.accepted a d' :: log) = a :: accepted d log :=
          List.filterMap_cons_some (if_pos hd)
        rw [hcons]
        exact ih.cons_cons a.number
      · have hcons : accepted d (.accepted a d' :: log) = accepted d log :=
          List.filterMap_cons_none (if_neg hd)
        rw [hcons]
        exact ih.cons a.number
    | _ => exact ih

/-- The numbers in the log are those of calls that were made, each at most once, and what is handled
was accepted before. -/
structure Numbered (s : EventLoop α ε) : Prop where
  below : ∀ n ∈ numbers s.log, n < s.enqueued
  distinct : (numbers s.log).Nodup
  order : (handled false s.log ++ wakes s.queue).Sublist (accepted false s.log)
  spawned : ∀ (r : ℕ) (x : Task Arrival Unit), s.resolvers[r]? = some x →
    .accepted x.data true ∈ s.log
  apart : ∀ (r r' : ℕ) (x y : Task Arrival Unit), s.resolvers[r]? = some x →
    s.resolvers[r']? = some y → x.data = y.data → r = r'
  unbegun : ∀ (r : ℕ) (x : Task Arrival Unit), s.resolvers[r]? = some x →
    x.progress = .created → .handled x.data true ∉ s.log
  begun : ∀ a, .handled a true ∈ s.log → .accepted a true ∈ s.log
  once : (handled true s.log).Nodup
  dropped : s.droppedCount = s.log.countP Note.isRefusedFull

theorem Numbered.new : Numbered (new : EventLoop α ε) where
  below n hn := by cases hn
  distinct := List.nodup_nil
  order := .refl _
  spawned r x h := by cases h
  apart r r' x y h := by cases h
  unbegun r x h := by cases h
  begun a h := by cases h
  once := List.nodup_nil
  dropped := rfl

/-- A note that neither accepts nor handles anything. -/
def Note.Quiet (n : Note) : Prop :=
  n = .stopped ∨ n = .returned ∨ (∃ a, n = .refusedStopped a) ∨ ∃ a, n = .refusedFull a

theorem quiet_accepted {n : Note} (hn : n.Quiet) : accepted d [n] = [] := by
  rcases hn with rfl | rfl | ⟨a, rfl⟩ | ⟨a, rfl⟩ <;> rfl

theorem quiet_handled {n : Note} (hn : n.Quiet) : handled d [n] = [] := by
  rcases hn with rfl | rfl | ⟨a, rfl⟩ | ⟨a, rfl⟩ <;> rfl

theorem quiet_numbers {n : Note} (hn : n.Quiet) : numbers [n] = [] := by
  rcases hn with rfl | rfl | ⟨a, rfl⟩ | ⟨a, rfl⟩ <;> rfl

/-- Tasks that only move on, none of them back to its creation. -/
def Onward (ts ts' : Tasks Arrival Unit) : Prop :=
  ∀ (r : ℕ) (y : Task Arrival Unit), ts'[r]? = some y →
    ∃ x, ts[r]? = some x ∧ y.data = x.data ∧ (y.progress = .created → x.progress = .created)

theorem Onward.refl (ts : Tasks Arrival Unit) : Onward ts ts :=
  fun _ y hy => ⟨y, hy, rfl, id⟩

theorem onward_cancelAll (rs : List ℕ) (ts : Tasks Arrival Unit) : Onward ts (ts.cancelAll rs) := by
  intro r y hy
  obtain ⟨x, hx, rfl⟩ := Tasks.cancelAll_cases hy
  refine ⟨x, hx, ?_, fun h => ?_⟩
  · split
    · exact x.cancel_data
    · rfl
  · split at h
    · rwa [x.cancel_progress] at h
    · exact h

theorem onward_moveTo {p : Progress Unit} (r : ℕ) (ts : Tasks Arrival Unit) (hp : p ≠ .created) :
    Onward ts (ts.moveTo r p) := by
  intro r' y hy
  rcases Tasks.moveTo_cases hy with ⟨-, hx⟩ | ⟨rfl, x, hx, rfl⟩
  · exact ⟨y, hx, rfl, id⟩
  · exact ⟨x, hx, rfl, fun h => absurd h hp⟩

/-- Nothing is accepted or handled, and at most the queue loses something. -/
theorem Numbered.quiet (h : Numbered s) (hlog : t.log = s.log ∨ ∃ n, n.Quiet ∧ t.log = s.log ++ [n])
    (henqueued : s.enqueued ≤ t.enqueued) (hqueue : (wakes t.queue).Sublist (wakes s.queue))
    (hresolvers : Onward s.resolvers t.resolvers)
    (hdropped : t.droppedCount = t.log.countP Note.isRefusedFull) : Numbered t := by
  have haccepted : ∀ d, accepted d t.log = accepted d s.log := by
    rcases hlog with hlog | ⟨n, hn, hlog⟩ <;> intro d <;> rw [hlog]
    rw [accepted_append, quiet_accepted hn, List.append_nil]
  have hhandled : ∀ d, handled d t.log = handled d s.log := by
    rcases hlog with hlog | ⟨n, hn, hlog⟩ <;> intro d <;> rw [hlog]
    rw [handled_append, quiet_handled hn, List.append_nil]
  have hnumbers : numbers t.log = numbers s.log := by
    rcases hlog with hlog | ⟨n, hn, hlog⟩ <;> rw [hlog]
    rw [numbers_append, quiet_numbers hn, List.append_nil]
  have hmem : ∀ a d, .accepted a d ∈ t.log ↔ .accepted a d ∈ s.log := by
    intro a d
    rw [← mem_accepted, haccepted, mem_accepted]
  have hmem' : ∀ a d, .handled a d ∈ t.log ↔ .handled a d ∈ s.log := by
    intro a d
    rw [← mem_handled, hhandled, mem_handled]
  refine ⟨?_, ?_, ?_, ?_, ?_, ?_, ?_, ?_, hdropped⟩
  · intro n hn
    rw [hnumbers] at hn
    exact Nat.lt_of_lt_of_le (h.below n hn) henqueued
  · rw [hnumbers]
    exact h.distinct
  · rw [hhandled, haccepted]
    exact (hqueue.append_left _).trans h.order
  · intro r y hy
    obtain ⟨x, hx, hdata, -⟩ := hresolvers r y hy
    rw [hmem, hdata]
    exact h.spawned r x hx
  · intro r r' y y' hy hy' hdata
    obtain ⟨x, hx, hxy, -⟩ := hresolvers r y hy
    obtain ⟨x', hx', hxy', -⟩ := hresolvers r' y' hy'
    exact h.apart r r' x x' hx hx' (hxy.symm.trans (hdata.trans hxy'))
  · intro r y hy hcreated
    obtain ⟨x, hx, hdata, hback⟩ := hresolvers r y hy
    rw [hmem', hdata]
    exact h.unbegun r x hx (hback hcreated)
  · intro a ha
    exact (hmem a true).mpr (h.begun a ((hmem' a true).mp ha))
  · rw [hhandled]
    exact h.once

/-- A call of `enqueue` that accepts its wake has a number that is new. -/
theorem Numbered.fresh (h : Numbered s) (a : Arrival) (ha : a.number = s.enqueued) (d : Bool) :
    .accepted a d ∉ s.log := by
  intro hmem
  have hlt := h.below _ (mem_numbers hmem)
  omega

theorem Numbered.numbers_accepted (h : Numbered s) (wake : WakeEvent) (d : Bool) :
    (∀ n ∈ numbers (s.log ++ [.accepted ⟨s.enqueued, wake⟩ d]), n < s.enqueued + 1) ∧
    (numbers (s.log ++ [.accepted ⟨s.enqueued, wake⟩ d])).Nodup := by
  have happend : numbers (s.log ++ [.accepted ⟨s.enqueued, wake⟩ d]) =
      numbers s.log ++ [s.enqueued] := numbers_append
  rw [happend]
  constructor
  · intro n hn
    rcases List.mem_append.mp hn with hold | hnew
    · exact Nat.lt_succ_of_lt (h.below n hold)
    · rw [List.mem_singleton.mp hnew]
      exact Nat.lt_succ_self _
  · refine List.nodup_append.mpr ⟨h.distinct, List.nodup_singleton _, ?_⟩
    intro n hn m hm hnm
    obtain rfl := List.mem_singleton.mp hm
    exact absurd (h.below n hn) (by omega)

theorem numbered_queued (h : Numbered s) (wake : WakeEvent) :
    Numbered { s with
      enqueued := s.enqueued + 1
      queue := s.queue ++ [.wake ⟨s.enqueued, wake⟩]
      log := s.log ++ [.accepted ⟨s.enqueued, wake⟩ false] } where
  below := (h.numbers_accepted wake false).1
  distinct := (h.numbers_accepted wake false).2
  order := by
    have hwakes : wakes (s.queue ++ [.wake ⟨s.enqueued, wake⟩]) =
        wakes s.queue ++ [⟨s.enqueued, wake⟩] := List.filterMap_append
    dsimp only
    rw [hwakes, handled_append, accepted_append, ← List.append_assoc]
    have hnone : handled false [.accepted ⟨s.enqueued, wake⟩ false] = [] := rfl
    rw [hnone, List.append_nil]
    exact h.order.append (.refl _)
  spawned r x hx := List.mem_append_left _ (h.spawned r x hx)
  apart := h.apart
  unbegun r x hx hcreated hmem := h.unbegun r x hx hcreated (mem_of_append hmem (by simp))
  begun a hmem := List.mem_append_left _ (h.begun a (mem_of_append hmem (by simp)))
  once := by
    rw [handled_append]
    exact (List.append_nil _).symm ▸ h.once
  dropped := by
    rw [List.countP_append]
    exact h.dropped

theorem numbered_detached (h : Numbered s) (wake : WakeEvent) :
    Numbered { s with
      enqueued := s.enqueued + 1
      resolvers := s.resolvers.spawn ⟨s.enqueued, wake⟩
      reentrantTasks := s.reentrantTasks ++ [s.resolvers.length]
      log := s.log ++ [.accepted ⟨s.enqueued, wake⟩ true] } where
  below := (h.numbers_accepted wake true).1
  distinct := (h.numbers_accepted wake true).2
  order := by
    rw [handled_append, accepted_append]
    have hnone : accepted false [.accepted ⟨s.enqueued, wake⟩ true] = [] := rfl
    have hnone' : handled false [.accepted ⟨s.enqueued, wake⟩ true] = [] := rfl
    rw [hnone, hnone', List.append_nil, List.append_nil]
    exact h.order
  spawned r x hx := by
    rcases Tasks.spawn_cases hx with hold | ⟨-, rfl⟩
    · exact List.mem_append_left _ (h.spawned r x hold)
    · exact List.mem_append_right _ (List.mem_singleton.mpr rfl)
  apart r r' x y hx hy hdata := by
    have hnew : ∀ {r : ℕ} {x : Task Arrival Unit}, s.resolvers[r]? = some x →
        x.data ≠ ⟨s.enqueued, wake⟩ := by
      intro r x hx hdata
      exact h.fresh ⟨s.enqueued, wake⟩ rfl true (hdata ▸ h.spawned r x hx)
    rcases Tasks.spawn_cases hx with hxold | ⟨hr, rfl⟩ <;>
      rcases Tasks.spawn_cases hy with hyold | ⟨hr', rfl⟩
    · exact h.apart r r' x y hxold hyold hdata
    · exact absurd hdata (hnew hxold)
    · exact absurd hdata.symm (hnew hyold)
    · exact hr.trans hr'.symm
  unbegun r x hx hcreated hmem := by
    have hmem : .handled x.data true ∈ s.log := mem_of_append hmem (by simp)
    rcases Tasks.spawn_cases hx with hold | ⟨-, rfl⟩
    · exact h.unbegun r x hold hcreated hmem
    · exact h.fresh _ rfl true (h.begun _ hmem)
  begun a hmem := List.mem_append_left _ (h.begun a (mem_of_append hmem (by simp)))
  once := by
    rw [handled_append]
    exact (List.append_nil _).symm ▸ h.once
  dropped := by
    rw [List.countP_append]
    exact h.dropped

theorem numbered_takes (h : Numbered s) {t : ℕ} {a : Arrival} {rest : List Item}
    (hqueue : s.queue = .wake a :: rest) :
    Numbered { s with
      queue := rest
      supervisors := s.supervisors.moveTo t (.suspended (.handler a))
      log := s.log ++ [.handled a false] } where
  below := by
    rw [numbers_handled]
    exact h.below
  distinct := by
    rw [numbers_handled]
    exact h.distinct
  order := by
    have horder := h.order
    have hwakes : wakes s.queue = a :: wakes rest := by
      rw [hqueue]
      rfl
    have hone : handled false [.handled a false] = [a] := rfl
    have hnone : accepted false [.handled a false] = [] := rfl
    rw [hwakes] at horder
    rw [handled_append, accepted_append, hone, hnone, List.append_nil, List.append_assoc]
    exact horder
  spawned r x hx := List.mem_append_left _ (h.spawned r x hx)
  apart := h.apart
  unbegun r x hx hcreated hmem := h.unbegun r x hx hcreated (mem_of_append hmem (by simp))
  begun b hmem := List.mem_append_left _ (h.begun b (mem_of_append hmem (by simp)))
  once := by
    rw [handled_append]
    exact (List.append_nil _).symm ▸ h.once
  dropped := by
    rw [List.countP_append]
    exact h.dropped

theorem numbered_begins (h : Numbered s) {r : ℕ} {a : Arrival}
    (hr : s.resolvers[r]? = some ⟨a, .created, false⟩) :
    Numbered { s with
      resolvers := s.resolvers.moveTo r (.suspended ())
      log := s.log ++ [.handled a true] } where
  below := by
    rw [numbers_handled]
    exact h.below
  distinct := by
    rw [numbers_handled]
    exact h.distinct
  order := by
    have hnone : handled false [.handled a true] = [] := rfl
    have hnone' : accepted false [.handled a true] = [] := rfl
    rw [handled_append, accepted_append, hnone, hnone', List.append_nil, List.append_nil]
    exact h.order
  spawned r' y hy := by
    obtain ⟨x, hx, hdata, -⟩ := onward_moveTo (p := .suspended ()) r s.resolvers (by decide) r' y hy
    rw [hdata]
    exact List.mem_append_left _ (h.spawned r' x hx)
  apart r' r'' y y' hy hy' hdata := by
    obtain ⟨x, hx, hxy, -⟩ := onward_moveTo (p := .suspended ()) r s.resolvers (by decide) r' y hy
    obtain ⟨x', hx', hxy', -⟩ :=
      onward_moveTo (p := .suspended ()) r s.resolvers (by decide) r'' y' hy'
    exact h.apart r' r'' x x' hx hx' (hxy.symm.trans (hdata.trans hxy'))
  unbegun r' y hy hcreated hmem := by
    rcases Tasks.moveTo_cases hy with ⟨hne, hold⟩ | ⟨-, x, -, rfl⟩
    · rcases List.mem_append.mp hmem with hmem | hnew
      · exact h.unbegun r' y hold hcreated hmem
      · obtain ⟨hdata, -⟩ := Note.handled.inj (List.mem_singleton.mp hnew)
        exact hne (h.apart r r' _ y hr hold hdata.symm)
    · cases hcreated
  begun b hmem := by
    rcases List.mem_append.mp hmem with hold | hnew
    · exact List.mem_append_left _ (h.begun b hold)
    · obtain ⟨hdata, -⟩ := Note.handled.inj (List.mem_singleton.mp hnew)
      rw [hdata]
      exact List.mem_append_left _ (h.spawned r _ hr)
  once := by
    have hone : handled true [.handled a true] = [a] := rfl
    rw [handled_append, hone]
    refine List.nodup_append.mpr ⟨h.once, List.nodup_singleton _, ?_⟩
    intro b hb c hc hbc
    obtain rfl := List.mem_singleton.mp hc
    exact h.unbegun r _ hr rfl (mem_handled.mp (hbc ▸ hb))
  dropped := by
    rw [List.countP_append]
    exact h.dropped

theorem numbered_change (h : Numbered s) (hchange : Change sound s t) : Numbered t := by
  cases hchange with
  | refusedStopped wake _ =>
    refine h.quiet (.inr ⟨_, .inr (.inr (.inl ⟨_, rfl⟩)), rfl⟩) (Nat.le_succ _) (.refl _)
      (.refl _) ?_
    rw [List.countP_append]
    exact h.dropped
  | refusedFull wake =>
    refine h.quiet (.inr ⟨_, .inr (.inr (.inr ⟨_, rfl⟩)), rfl⟩) (Nat.le_succ _) (.refl _)
      (.refl _) ?_
    rw [List.countP_append]
    exact congrArg Nat.succ h.dropped
  | queued wake _ => exact numbered_queued h wake
  | detached wake _ => exact numbered_detached h wake
  | started _ _ => exact h.quiet (.inl rfl) (Nat.le_refl _) (.refl _) (.refl _) h.dropped
  | settles _ _ => exact h.quiet (.inl rfl) (Nat.le_refl _) (.refl _) (.refl _) h.dropped
  | moves _ _ _ _ => exact h.quiet (.inl rfl) (Nat.le_refl _) (.refl _) (.refl _) h.dropped
  | pops rest hqueue =>
    refine h.quiet (.inl rfl) (Nat.le_refl _) ?_ (.refl _) h.dropped
    rw [hqueue]
    exact .refl _
  | takes u a rest _ hqueue => exact numbered_takes h hqueue
  | begins r a hr => exact numbered_begins h hr
  | skips r _ _ =>
    exact h.quiet (.inl rfl) (Nat.le_refl _) (.refl _) (onward_moveTo r _ (by decide)) h.dropped
  | ends r _ _ _ _ =>
    exact h.quiet (.inl rfl) (Nat.le_refl _) (.refl _) (onward_moveTo r _ (by decide)) h.dropped
  | discards _ _ => exact h.quiet (.inl rfl) (Nat.le_refl _) (.refl _) (.refl _) h.dropped
  | poisons =>
    refine h.quiet (.inl rfl) (Nat.le_refl _) ?_ (.refl _) h.dropped
    have hwakes : wakes (s.queue ++ [.stopSentinel]) = wakes s.queue ++ [] :=
      List.filterMap_append
    rw [hwakes, List.append_nil]
  | cancels _ => exact h.quiet (.inl rfl) (Nat.le_refl _) (.refl _) (.refl _) h.dropped
  | calls _ =>
    refine h.quiet (.inr ⟨_, .inl rfl, rfl⟩) (Nat.le_refl _) (.refl _) (onward_cancelAll _ _) ?_
    rw [List.countP_append]
    exact h.dropped
  | repeats k snapshot _ =>
    exact h.quiet (.inl rfl) (Nat.le_refl _) (.refl _) (onward_cancelAll _ _) h.dropped
  | waits _ _ _ _ _ _ _ _ =>
    exact h.quiet (.inl rfl) (Nat.le_refl _) (.refl _) (.refl _) h.dropped
  | fails _ => exact h.quiet (.inl rfl) (Nat.le_refl _) (.refl _) (.refl _) h.dropped
  | finishes _ _ _ _ _ =>
    refine h.quiet (.inr ⟨_, .inr (.inl rfl), rfl⟩) (Nat.le_refl _) (List.nil_sublist _)
      (.refl _) ?_
    rw [finishStop, List.countP_append]
    exact h.dropped

end Persatrix.Wakes
