import Mathlib.Logic.Relation
import Persatrix.EventLoop

/-!
# What a step of the event loop changes

Every step is a few changes one after the other. The two steps that spoil what the loop promises
are those which `Sound` excludes.
-/
namespace Persatrix.Wakes
namespace EventLoop
variable {α ε : Type}

/-- The handle of a wake, when it has one, is settled. -/
def Settled (a : Arrival) (s : EventLoop α ε) : Prop :=
  ∀ h, a.wake.handle = some h → (s.handles h).isSome

/-- A supervisor that owes nothing for the wake it was handling. -/
def Free (t : ℕ) (s : EventLoop α ε) : Prop :=
  ∃ x, s.supervisors[t]? = some x ∧ x.Live ∧
    ∀ a, x.progress = .suspended (.handler a) → s.Settled a

/-- The first wait of a call of `stop` is over, or it has been passed. -/
def Passed (w : Wait) (s : EventLoop α ε) : Prop :=
  match w with
  | .resolvers snapshot => ∀ r ∈ snapshot, ¬ s.resolvers.Running r
  | .supervisor _ => True
  | .cancelled _ => True
  | .over => False

/-- A call of `stop` that goes on from `w` to its end finds its supervisor done. -/
def Ended (w : Wait) (s : EventLoop α ε) : Prop :=
  ¬ s.isRunning ∨
    match w with
    | .supervisor t => ¬ s.supervisors.Running t
    | .cancelled t => ¬ s.supervisors.Running t
    | _ => False

inductive Change (sound : Prop) : EventLoop α ε → EventLoop α ε → Prop
  | refusedStopped (s : EventLoop α ε) (wake : WakeEvent) (hstopped : s.stopped = true) :
      Change sound s { s with
        enqueued := s.enqueued + 1
        handles := s.handles.settle wake (.resolved [])
        log := s.log ++ [.refusedStopped ⟨s.enqueued, wake⟩] }
  | refusedFull (s : EventLoop α ε) (wake : WakeEvent) :
      Change sound s { s with
        enqueued := s.enqueued + 1
        droppedCount := s.droppedCount + 1
        log := s.log ++ [.refusedFull ⟨s.enqueued, wake⟩] }
  | queued (s : EventLoop α ε) (wake : WakeEvent) (hstopped : s.stopped = false) :
      Change sound s { s with
        enqueued := s.enqueued + 1
        queue := s.queue ++ [.wake ⟨s.enqueued, wake⟩]
        log := s.log ++ [.accepted ⟨s.enqueued, wake⟩ false] }
  | detached (s : EventLoop α ε) (wake : WakeEvent) (hstopped : s.stopped = false) :
      Change sound s { s with
        enqueued := s.enqueued + 1
        resolvers := s.resolvers.spawn ⟨s.enqueued, wake⟩
        reentrantTasks := s.reentrantTasks ++ [s.resolvers.length]
        log := s.log ++ [.accepted ⟨s.enqueued, wake⟩ true] }
  | started (s : EventLoop α ε) (hnot : ¬ s.isRunning)
      (hsound : sound → ∀ w ∈ s.stops, w = .over) :
      Change sound s { s with
        stopped := false
        task := some s.supervisors.length
        supervisors := s.supervisors.spawn () }
  | settles (s : EventLoop α ε) (h : ℕ) (o : Outcome α ε) :
      Change sound s { s with handles := s.handles.set h o }
  | moves (s : EventLoop α ε) (t : ℕ) (p : Progress Point) (hfree : s.Free t)
      (hp : ∀ a, p ≠ .suspended (.handler a)) :
      Change sound s { s with supervisors := s.supervisors.moveTo t p }
  | pops (s : EventLoop α ε) (rest : List Item) (hqueue : s.queue = .stopSentinel :: rest) :
      Change sound s { s with queue := rest }
  | takes (s : EventLoop α ε) (t : ℕ) (a : Arrival) (rest : List Item) (hfree : s.Free t)
      (hqueue : s.queue = .wake a :: rest) :
      Change sound s { s with
        queue := rest
        supervisors := s.supervisors.moveTo t (.suspended (.handler a))
        log := s.log ++ [.handled a false] }
  | begins (s : EventLoop α ε) (r : ℕ) (a : Arrival)
      (hr : s.resolvers[r]? = some ⟨a, .created, false⟩) :
      Change sound s { s with
        resolvers := s.resolvers.moveTo r (.suspended ())
        log := s.log ++ [.handled a true] }
  | skips (s : EventLoop α ε) (r : ℕ) (a : Arrival)
      (hr : s.resolvers[r]? = some ⟨a, .created, true⟩) :
      Change sound s { s with resolvers := s.resolvers.moveTo r .done }
  | ends (s : EventLoop α ε) (r : ℕ) (a : Arrival) (cancelling : Bool)
      (hr : s.resolvers[r]? = some ⟨a, .suspended (), cancelling⟩) (hsettled : s.Settled a) :
      Change sound s { s with resolvers := s.resolvers.moveTo r .done }
  | discards (s : EventLoop α ε) (r : ℕ) (hr : ¬ s.resolvers.Running r) :
      Change sound s { s with reentrantTasks := s.reentrantTasks.erase r }
  | poisons (s : EventLoop α ε) : Change sound s { s with queue := s.queue ++ [.stopSentinel] }
  | cancels (s : EventLoop α ε) (t : ℕ) :
      Change sound s { s with supervisors := s.supervisors.cancelAll [t] }
  | calls (s : EventLoop α ε)
      (hsound : sound → ∀ x ∈ s.resolvers, x.progress ≠ .created) :
      Change sound s { s with
        stopped := true
        resolvers := s.resolvers.cancelAll s.reentrantTasks
        stops := s.stops ++ [.resolvers s.reentrantTasks]
        log := s.log ++ [.stopped] }
  | repeats (s : EventLoop α ε) (k : ℕ) (snapshot : List ℕ)
      (hk : s.stops[k]? = some (.resolvers snapshot)) :
      Change sound s { s with resolvers := s.resolvers.cancelAll snapshot }
  | waits (s : EventLoop α ε) (k t : ℕ) (w w' : Wait) (hk : s.stops[k]? = some w)
      (hpassed : s.Passed w) (ht : s.task = some t) (hw' : w' = .supervisor t ∨ w' = .cancelled t) :
      Change sound s { s with stops := s.stops.set k w' }
  | fails (s : EventLoop α ε) (k : ℕ) : Change sound s { s with stops := s.stops.set k .over }
  | finishes (s : EventLoop α ε) (k : ℕ) (w : Wait) (hk : s.stops[k]? = some w)
      (hpassed : s.Passed w) (hended : s.Ended w) : Change sound s (s.finishStop k)

abbrev Changes (sound : Prop) (s t : EventLoop α ε) : Prop :=
  Relation.ReflTransGen (Change sound) s t

end EventLoop

open EventLoop
variable {α ε : Type} {sound : Prop} {s t : EventLoop α ε}

/-- No call of `stop` finds a detached resolver that has not begun, and no call of `start` begins a
supervisor while a call of `stop` is waiting. -/
def Sound (s : EventLoop α ε) : Event α ε → Prop
  | .stop => ∀ x ∈ s.resolvers, x.progress ≠ .created
  | .start => s.isRunning ∨ ∀ w ∈ s.stops, w = .over
  | _ => True

instance (s : EventLoop α ε) (e : Event α ε) : Decidable (Sound s e) := by
  cases e <;> (unfold Sound; infer_instance)

/-! ### Handles are only ever settled -/

theorem set_isSome {h h' : ℕ} {o : Outcome α ε} {hs : Handles α ε} (hsome : (hs h').isSome) :
    (hs.set h o h').isSome := by
  unfold Handles.set
  split
  · exact hsome
  · by_cases heq : h' = h
    · subst heq
      rw [Function.update_self]
      rfl
    · rw [Function.update_of_ne heq]
      exact hsome

theorem set_self (h : ℕ) (o : Outcome α ε) (hs : Handles α ε) : (hs.set h o h).isSome := by
  unfold Handles.set
  split
  · next hsome => exact hsome
  · rw [Function.update_self]
    rfl

theorem settle_isSome {h : ℕ} {wake : WakeEvent} {o : Outcome α ε} {hs : Handles α ε}
    (hsome : (hs h).isSome) : (hs.settle wake o h).isSome := by
  unfold Handles.settle
  cases wake.handle with
  | none => exact hsome
  | some h' => exact set_isSome hsome

theorem settle_self {h : ℕ} {wake : WakeEvent} (o : Outcome α ε) (hs : Handles α ε)
    (hw : wake.handle = some h) : (hs.settle wake o h).isSome := by
  unfold Handles.settle
  rw [hw]
  exact set_self h o hs

theorem drain_isSome {h : ℕ} (queue : List Item) {hs : Handles α ε} (hsome : (hs h).isSome) :
    (drainPendingHandles queue hs h).isSome := by
  induction queue generalizing hs with
  | nil => exact hsome
  | cons item rest ih =>
    cases item with
    | stopSentinel => exact ih hsome
    | wake a => exact ih (settle_isSome hsome)

theorem drain_wake {a : Arrival} {h : ℕ} (hw : a.wake.handle = some h) {queue : List Item}
    (ha : .wake a ∈ queue) (hs : Handles α ε) : (drainPendingHandles queue hs h).isSome := by
  induction queue generalizing hs with
  | nil => cases ha
  | cons item rest ih =>
    rcases List.mem_cons.mp ha with rfl | hrest
    · exact drain_isSome rest (settle_self _ hs hw)
    · cases item with
      | stopSentinel => exact ih hrest hs
      | wake b => exact ih hrest _

/-! ### Every step is made of changes -/

theorem changes_settle (wake : WakeEvent) (o : Outcome α ε) :
    Changes sound s { s with handles := s.handles.settle wake o } := by
  unfold Handles.settle
  cases wake.handle with
  | none => exact .refl
  | some h => exact .single (.settles s h o)

theorem changes_enqueue (size : ℕ) (caller : Option ℕ) (wake : WakeEvent) :
    Changes sound s (s.enqueue size caller wake).1 := by
  unfold EventLoop.enqueue
  dsimp only
  by_cases hstopped : s.stopped = true
  · rw [if_pos hstopped]
    exact .single (.refusedStopped s wake hstopped)
  · rw [if_neg hstopped]
    have hstopped := Bool.eq_false_iff.mpr hstopped
    split
    · exact .single (.detached s wake hstopped)
    · unfold EventLoop.putNowait
      dsimp only
      by_cases hfull : 0 < size ∧ size ≤ s.queue.length
      · rw [if_pos hfull]
        exact .single (.refusedFull s wake)
      · rw [if_neg hfull]
        exact .single (.queued s wake hstopped)

theorem changes_start (hsound : sound → s.isRunning ∨ ∀ w ∈ s.stops, w = .over) :
    Changes sound s s.start := by
  unfold EventLoop.start
  split
  · exact .refl
  · next hnot => exact .single (.started s hnot fun h => (hsound h).resolve_left hnot)

theorem changes_get {t : ℕ} (hfree : s.Free t) : Changes sound s (s.get t) := by
  unfold EventLoop.get
  split
  · exact .single (.moves s t _ hfree fun a h => by cases h)
  · next rest hqueue =>
      refine .tail (.single (.pops s rest hqueue)) ?_
      exact .moves { s with queue := rest } t .done hfree fun a h => by cases h
  · next a rest hqueue => exact .single (.takes s t a rest hfree hqueue)

theorem changes_loopHead {t : ℕ} (hfree : s.Free t) : Changes sound s (s.loopHead t) := by
  unfold EventLoop.loopHead
  split
  · exact .single (.moves s t .done hfree fun a h => by cases h)
  · exact changes_get hfree

theorem changes_run {t : ℕ} {s' : EventLoop α ε} (h : s.run t = some s') : Changes sound s s' := by
  have hfree : ∀ {p : Progress Point} {c : Bool}, s.supervisors[t]? = some ⟨(), p, c⟩ →
      p ≠ .done → (∀ a, p ≠ .suspended (.handler a)) → s.Free t := by
    intro p c ht hlive hp
    exact ⟨_, ht, hlive, fun a ha => absurd ha (hp a)⟩
  unfold EventLoop.run at h
  split at h
  · next ht =>
      obtain rfl := Option.some.inj h
      exact changes_loopHead (hfree ht (by decide) fun a h => by cases h)
  · next ht =>
      obtain rfl := Option.some.inj h
      exact changes_get (hfree ht (by decide) fun a h => by cases h)
  · next ht =>
      obtain rfl := Option.some.inj h
      exact .single (.moves s t .done (hfree ht (by decide) fun a h => by cases h)
        fun a h => by cases h)
  · next ht =>
      obtain rfl := Option.some.inj h
      exact .single (.moves s t .done (hfree ht (by decide) fun a h => by cases h)
        fun a h => by cases h)
  · cases h

theorem changes_handler {t : ℕ} {o : Outcome α ε} {s' : EventLoop α ε}
    (h : s.handleWakeSupervised t o = some s') : Changes sound s s' := by
  unfold EventLoop.handleWakeSupervised at h
  split at h
  · next a cancelling ht =>
      split at h
      · cases h
      · have hsettled : Changes sound s
            { s with handles := s.handles.settle a.wake (answer o) } := changes_settle _ _
        have hfree : ({ s with handles := s.handles.settle a.wake (answer o) } :
            EventLoop α ε).Free t := by
          refine ⟨_, ht, ?_, ?_⟩
          · intro hdone
            cases hdone
          · intro b hb
            cases hb
            exact fun h hw => settle_self _ _ hw
        dsimp only at h
        split at h
        · obtain rfl := Option.some.inj h
          exact hsettled.tail (.moves _ t .done hfree fun a h => by cases h)
        · obtain rfl := Option.some.inj h
          exact hsettled.trans (changes_loopHead hfree)
  · cases h

theorem changes_begin {r : ℕ} {s' : EventLoop α ε} (h : s.beginResolver r = some s') :
    Changes sound s s' := by
  unfold EventLoop.beginResolver at h
  split at h
  · next a hr =>
      obtain rfl := Option.some.inj h
      exact .single (.skips s r a hr)
  · next a hr =>
      obtain rfl := Option.some.inj h
      exact .single (.begins s r a hr)
  · cases h

theorem changes_end {r : ℕ} {o : Outcome α ε} {s' : EventLoop α ε}
    (h : s.endResolver r o = some s') : Changes sound s s' := by
  unfold EventLoop.endResolver at h
  split at h
  · next a cancelling hr =>
      split at h
      · cases h
      · obtain rfl := Option.some.inj h
        have hsettled : Changes sound s
            { s with handles := s.handles.settle a.wake (answer o) } := changes_settle _ _
        exact hsettled.tail (.ends _ r a cancelling hr fun h hw => settle_self _ _ hw)
  · cases h

theorem changes_poison {size k : ℕ} {w : Wait} (hk : s.stops[k]? = some w) (hpassed : s.Passed w) :
    Changes sound s (s.poison size k) := by
  unfold EventLoop.poison
  split
  · next htask =>
      refine .single (.finishes s k w hk hpassed (.inl ?_))
      rintro ⟨t, ht, -⟩
      rw [htask] at ht
      cases ht
  · next t htask =>
      by_cases hrunning : s.supervisors.Running t
      · rw [if_pos hrunning]
        unfold EventLoop.putNowait
        by_cases hfull : 0 < size ∧ size ≤ s.queue.length
        · rw [if_pos hfull]
          refine .tail (.single (.cancels s t)) ?_
          exact .waits { s with supervisors := s.supervisors.cancelAll [t] } k t w _ hk hpassed
            htask (.inl rfl)
        · rw [if_neg hfull]
          refine .tail (.single (.poisons s)) ?_
          exact .waits { s with queue := s.queue ++ [.stopSentinel] } k t w _ hk hpassed htask
            (.inl rfl)
      · rw [if_neg hrunning]
        refine .single (.finishes s k w hk hpassed (.inl ?_))
        rintro ⟨u, hu, hlive⟩
        rw [htask] at hu
        cases hu
        exact hrunning hlive

theorem changes_stop {size : ℕ} (hsound : sound → ∀ x ∈ s.resolvers, x.progress ≠ .created) :
    Changes sound s (s.stop size) := by
  have hcall : Change sound s _ := .calls s hsound
  unfold EventLoop.stop
  dsimp only
  split
  · next hnone =>
      refine Relation.ReflTransGen.trans (.single hcall)
        (changes_poison (w := .resolvers s.reentrantTasks) ?_ ?_)
      · exact List.getElem?_concat_length
      · intro r hr
        rw [hnone] at hr
        cases hr
  · exact .single hcall

theorem changes_resume {size k : ℕ} {s' : EventLoop α ε} (h : s.resumeStop size k = some s') :
    Changes sound s s' := by
  unfold EventLoop.resumeStop at h
  split at h
  · next snapshot hk =>
      split at h
      · next hpassed =>
          obtain rfl := Option.some.inj h
          exact changes_poison hk hpassed
      · cases h
  · next t hk =>
      split at h
      · cases h
      · next hnot =>
          obtain rfl := Option.some.inj h
          exact .single (.finishes s k _ hk trivial (.inr hnot))
  · next t hk =>
      split at h
      · cases h
      · next hnot =>
          obtain rfl := Option.some.inj h
          exact .single (.finishes s k _ hk trivial (.inr hnot))
  · cases h

theorem changes_timeout {k : ℕ} {s' : EventLoop α ε} (h : s.timeoutStop k = some s') :
    Changes sound s s' := by
  unfold EventLoop.timeoutStop at h
  split at h
  · next snapshot hk =>
      obtain rfl := Option.some.inj h
      exact .single (.repeats s k snapshot hk)
  · next t hk =>
      split at h
      · obtain rfl := Option.some.inj h
        exact .single (.fails s k)
      · next u htask =>
          split at h
          · obtain rfl := Option.some.inj h
            refine .tail (.single (.cancels s u)) ?_
            exact .waits { s with supervisors := s.supervisors.cancelAll [u] } k u _ _ hk trivial
              htask (.inr rfl)
          · next hnot =>
              obtain rfl := Option.some.inj h
              refine .single (.finishes s k _ hk trivial (.inl ?_))
              rintro ⟨v, hv, hlive⟩
              rw [htask] at hv
              cases hv
              exact hnot hlive
  · cases h

theorem changes_of_step {size : ℕ} {e : Event α ε} (h : step size s e = some t) :
    Changes (Sound s e) s t := by
  cases e with
  | enqueue caller wake =>
    cases caller with
    | none =>
      obtain rfl := Option.some.inj h
      exact changes_enqueue size none wake
    | some u =>
      obtain ⟨a, -, rfl⟩ := Option.map_eq_some_iff.mp h
      exact changes_enqueue size (some u) wake
  | start =>
    obtain rfl := Option.some.inj h
    exact changes_start id
  | stop =>
    obtain rfl := Option.some.inj h
    exact changes_stop id
  | resumeStop k => exact changes_resume h
  | timeoutStop k => exact changes_timeout h
  | run t => exact changes_run h
  | handlerEnds t o => exact changes_handler h
  | beginResolver r => exact changes_begin h
  | endResolver r o => exact changes_end h
  | discard r =>
    change s.discard r = some t at h
    unfold EventLoop.discard at h
    split at h
    · cases h
    · next hr =>
        obtain rfl := Option.some.inj h
        exact .single (.discards s r hr)
  | cancelHandle h' =>
    obtain rfl := Option.some.inj h
    exact .single (.settles s h' .cancelled)

end Persatrix.Wakes
