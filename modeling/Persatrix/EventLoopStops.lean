import Persatrix.EventLoopArrivals

/-!
# What a call of `stop` leaves

While a call of `stop` waits nothing is accepted, the live supervisor is the task, and the
resolvers that live are those the call cancelled.
-/
namespace Persatrix.Wakes
open EventLoop
variable {α ε : Type} {s t : EventLoop α ε} {a : Arrival} {d : Bool} {log l : List Note}

/-! ### The tasks -/

/-- What a call of `stop` waits for is all that there is to wait for. -/
def Covers (w : Wait) (s : EventLoop α ε) : Prop :=
  match w with
  | .resolvers snapshot => ∀ r, s.resolvers.Running r → r ∈ snapshot
  | .supervisor t => (∀ r, ¬ s.resolvers.Running r) ∧ ∀ u, s.task = some u → u = t
  | .cancelled t => (∀ r, ¬ s.resolvers.Running r) ∧ ∀ u, s.task = some u → u = t
  | .over => True

structure Steady (s : EventLoop α ε) : Prop where
  supervisor : ∀ t, s.supervisors.Running t → s.task = some t
  stopped : ∀ w ∈ s.stops, w ≠ .over → s.stopped = true
  covers : ∀ w ∈ s.stops, Covers w s
  reentrant : ∀ r, s.resolvers.Running r → r ∈ s.reentrantTasks
  attended : ∀ w ∈ s.stops, w ≠ .over → ∀ (r : ℕ) (x : Task Arrival Unit),
    s.resolvers[r]? = some x → x.progress ≠ .created
  begun : ∀ (r : ℕ) (x : Task Arrival Unit), s.resolvers[r]? = some x → x.cancelling = true →
    x.progress ≠ .created

theorem Steady.new : Steady (new : EventLoop α ε) where
  supervisor t h := by
    obtain ⟨x, hx, -⟩ := h
    cases hx
  stopped w hw := by cases hw
  covers w hw := by cases hw
  attended w hw := by cases hw
  reentrant r h := by
    obtain ⟨x, hx, -⟩ := h
    cases hx
  begun r x h := by cases h

theorem Covers.mono {w : Wait} (h : Covers w s)
    (hresolvers : ∀ r, t.resolvers.Running r → s.resolvers.Running r)
    (htask : ∀ u, t.task = some u → s.task = some u) : Covers w t := by
  cases w with
  | resolvers snapshot => exact fun r hr => h r (hresolvers r hr)
  | supervisor u => exact ⟨fun r hr => h.1 r (hresolvers r hr), fun v hv => h.2 v (htask v hv)⟩
  | cancelled u => exact ⟨fun r hr => h.1 r (hresolvers r hr), fun v hv => h.2 v (htask v hv)⟩
  | _ => trivial

/-- Only tasks move on, and none begins to live. -/
theorem Steady.moved (h : Steady s) (htask : t.task = s.task) (hstopped : t.stopped = s.stopped)
    (hstops : t.stops = s.stops)
    (hsupervisors : ∀ u, t.supervisors.Running u → s.supervisors.Running u)
    (hresolvers : ∀ r, t.resolvers.Running r → s.resolvers.Running r)
    (hreentrant : ∀ r, t.resolvers.Running r → r ∈ s.reentrantTasks → r ∈ t.reentrantTasks)
    (honward : Onward s.resolvers t.resolvers)
    (hbegun : ∀ (r : ℕ) (x : Task Arrival Unit), t.resolvers[r]? = some x →
      x.cancelling = true → x.progress ≠ .created) : Steady t where
  supervisor u hu := htask.trans (h.supervisor u (hsupervisors u hu))
  stopped w hw hover := hstopped.trans (h.stopped w (hstops ▸ hw) hover)
  covers w hw := (h.covers w (hstops ▸ hw)).mono hresolvers fun u hu => htask.symm.trans hu
  reentrant r hr := hreentrant r hr (h.reentrant r (hresolvers r hr))
  attended w hw hover r y hy hcreated := by
    obtain ⟨x, hx, -, hback⟩ := honward r y hy
    exact h.attended w (hstops ▸ hw) hover r x hx (hback hcreated)
  begun := hbegun

/-- A call of `stop` that is past its first wait finds no live resolver. -/
theorem Steady.no_resolver (h : Steady s) {w : Wait} (hw : w ∈ s.stops) (hpassed : s.Passed w)
    (r : ℕ) : ¬ s.resolvers.Running r := by
  have hcovers := h.covers w hw
  cases w with
  | resolvers snapshot => exact fun hr => hpassed r (hcovers r hr) hr
  | supervisor t => exact hcovers.1 r
  | cancelled t => exact hcovers.1 r
  | _ => exact hpassed.elim

theorem Steady.no_supervisor (h : Steady s) {w : Wait} (hw : w ∈ s.stops) (hended : s.Ended w)
    (t : ℕ) : ¬ s.supervisors.Running t := by
  intro ht
  have htask := h.supervisor t ht
  have hcovers := h.covers w hw
  rcases hended with hnot | hdone
  · exact hnot ⟨t, htask, ht⟩
  · cases w with
    | resolvers snapshot => exact hdone
    | supervisor u => exact hdone (hcovers.2 t htask ▸ ht)
    | cancelled u => exact hdone (hcovers.2 t htask ▸ ht)
    | _ => exact hdone

theorem not_over {w : Wait} (hpassed : s.Passed w) : w ≠ .over := by
  intro hover
  rw [hover] at hpassed
  exact hpassed

/-- A call of `stop` goes on to another wait, or is over. -/
theorem Steady.set (h : Steady s) {k : ℕ} {w : Wait} (hcovers : Covers w s)
    (hwaits : w ≠ .over → ∃ w' ∈ s.stops, w' ≠ .over) :
    Steady { s with stops := s.stops.set k w } where
  supervisor := h.supervisor
  stopped w' hw' hover := by
    rcases List.mem_or_eq_of_mem_set hw' with hold | rfl
    · exact h.stopped w' hold hover
    · obtain ⟨v, hv, hne⟩ := hwaits hover
      exact h.stopped v hv hne
  covers w' hw' := by
    rcases List.mem_or_eq_of_mem_set hw' with hold | rfl
    · exact h.covers w' hold
    · exact hcovers
  reentrant := h.reentrant
  attended w' hw' hover := by
    rcases List.mem_or_eq_of_mem_set hw' with hold | rfl
    · exact h.attended w' hold hover
    · obtain ⟨v, hv, hne⟩ := hwaits hover
      exact h.attended v hv hne
  begun := h.begun

theorem begun_moveTo (h : Steady s) (r : ℕ) {p : Progress Unit} (hp : p ≠ .created) (r' : ℕ)
    (y : Task Arrival Unit) (hy : (s.resolvers.moveTo r p)[r']? = some y)
    (hcancelling : y.cancelling = true) : y.progress ≠ .created := by
  rcases Tasks.moveTo_cases hy with ⟨-, hx⟩ | ⟨-, x, -, rfl⟩
  · exact h.begun r' y hx hcancelling
  · exact hp

theorem free_running {u : ℕ} (h : s.Free u) : s.supervisors.Running u := by
  obtain ⟨x, hx, hlive, -⟩ := h
  exact ⟨x, hx, hlive⟩

theorem steady_calls (h : Steady s) (hsound : ∀ x ∈ s.resolvers, x.progress ≠ .created) :
    Steady { s with
      stopped := true
      resolvers := s.resolvers.cancelAll s.reentrantTasks
      stops := s.stops ++ [.resolvers s.reentrantTasks]
      log := s.log ++ [.stopped] } where
  supervisor := h.supervisor
  stopped _ _ _ := rfl
  covers w hw := by
    rcases List.mem_append.mp hw with hold | hnew
    · exact (h.covers w hold).mono (fun r hr => Tasks.running_cancelAll hr) fun u hu => hu
    · rw [List.mem_singleton.mp hnew]
      exact fun r hr => h.reentrant r (Tasks.running_cancelAll hr)
  reentrant r hr := h.reentrant r (Tasks.running_cancelAll hr)
  attended _ _ _ r y hy hcreated := by
    obtain ⟨x, hx, -, hback⟩ := onward_cancelAll s.reentrantTasks s.resolvers r y hy
    exact hsound x (List.mem_of_getElem? hx) (hback hcreated)
  begun r y hy _ hcreated := by
    obtain ⟨x, hx, -, hback⟩ := onward_cancelAll s.reentrantTasks s.resolvers r y hy
    exact hsound x (List.mem_of_getElem? hx) (hback hcreated)

theorem steady_change (h : Steady s) (hchange : Change True s t) : Steady t := by
  cases hchange with
  | refusedStopped wake _ => exact ⟨h.supervisor, h.stopped, h.covers, h.reentrant, h.attended, h.begun⟩
  | refusedFull wake => exact ⟨h.supervisor, h.stopped, h.covers, h.reentrant, h.attended, h.begun⟩
  | queued wake _ => exact ⟨h.supervisor, h.stopped, h.covers, h.reentrant, h.attended, h.begun⟩
  | settles _ _ => exact ⟨h.supervisor, h.stopped, h.covers, h.reentrant, h.attended, h.begun⟩
  | pops _ _ => exact ⟨h.supervisor, h.stopped, h.covers, h.reentrant, h.attended, h.begun⟩
  | poisons => exact ⟨h.supervisor, h.stopped, h.covers, h.reentrant, h.attended, h.begun⟩
  | detached wake hstopped =>
    have hover : ∀ w ∈ s.stops, w = .over := by
      intro w hw
      by_contra hne
      have htrue := h.stopped w hw hne
      rw [hstopped] at htrue
      cases htrue
    refine ⟨h.supervisor, h.stopped, fun w hw => ?_, fun r hr => ?_,
      fun w hw hne => absurd (hover w hw) hne, fun r x hx hc => ?_⟩
    · rw [hover w hw]
      trivial
    · rcases Tasks.running_spawn hr with hold | hnew
      · exact List.mem_append_left _ (h.reentrant r hold)
      · exact List.mem_append_right _ (List.mem_singleton.mpr hnew)
    · rcases Tasks.spawn_cases hx with hold | ⟨-, rfl⟩
      · exact h.begun r x hold hc
      · cases hc
  | started hnot hsound =>
    have hover := hsound trivial
    refine ⟨fun u hu => ?_, fun w hw hne => absurd (hover w hw) hne, fun w hw => ?_, h.reentrant,
      fun w hw hne => absurd (hover w hw) hne, h.begun⟩
    · rcases Tasks.running_spawn hu with hold | hnew
      · exact absurd ⟨u, h.supervisor u hold, hold⟩ hnot
      · rw [hnew]
    · rw [hover w hw]
      trivial
  | moves u p hfree _ =>
    exact h.moved rfl rfl rfl (fun v hv => Tasks.running_moveTo (free_running hfree) hv) (fun _ hr => hr)
      (fun _ _ hr => hr) (.refl _) h.begun
  | takes u b rest hfree _ =>
    exact h.moved rfl rfl rfl (fun v hv => Tasks.running_moveTo (free_running hfree) hv) (fun _ hr => hr)
      (fun _ _ hr => hr) (.refl _) h.begun
  | cancels u =>
    exact h.moved rfl rfl rfl (fun v hv => Tasks.running_cancelAll hv) (fun _ hr => hr)
      (fun _ _ hr => hr) (.refl _) h.begun
  | begins r b hr =>
    have hlive : s.resolvers.Running r := ⟨_, hr, fun hdone => by cases hdone⟩
    exact h.moved rfl rfl rfl (fun _ hv => hv) (fun _ hr' => Tasks.running_moveTo hlive hr')
      (fun _ _ hr' => hr') (onward_moveTo r _ (by decide)) (begun_moveTo h r (by decide))
  | skips r b hr =>
    have hlive : s.resolvers.Running r := ⟨_, hr, fun hdone => by cases hdone⟩
    exact h.moved rfl rfl rfl (fun _ hv => hv) (fun _ hr' => Tasks.running_moveTo hlive hr')
      (fun _ _ hr' => hr') (onward_moveTo r _ (by decide)) (begun_moveTo h r (by decide))
  | ends r b cancelling hr _ =>
    have hlive : s.resolvers.Running r := ⟨_, hr, fun hdone => by cases hdone⟩
    exact h.moved rfl rfl rfl (fun _ hv => hv) (fun _ hr' => Tasks.running_moveTo hlive hr')
      (fun _ _ hr' => hr') (onward_moveTo r _ (by decide)) (begun_moveTo h r (by decide))
  | discards r hr =>
    refine h.moved rfl rfl rfl (fun _ hv => hv) (fun _ hr' => hr') (fun r' hr' hmem => ?_)
      (.refl _) h.begun
    have hne : r' ≠ r := fun heq => hr (heq ▸ hr')
    exact (List.mem_erase_of_ne hne).mpr hmem
  | calls hsound => exact steady_calls h (hsound trivial)
  | repeats k snapshot hk =>
    refine h.moved rfl rfl rfl (fun _ hv => hv) (fun _ hr => Tasks.running_cancelAll hr)
      (fun _ _ hr => hr) (onward_cancelAll _ _) fun r y hy _ hcreated => ?_
    obtain ⟨x, hx, -, hback⟩ := onward_cancelAll snapshot s.resolvers r y hy
    exact h.attended _ (List.mem_of_getElem? hk) (by simp) r x hx (hback hcreated)
  | waits k u w w' hk hpassed htask hw' =>
    have hmem := List.mem_of_getElem? hk
    have hresolver := h.no_resolver hmem hpassed
    have htask' : ∀ v, s.task = some v → v = u := by
      intro v hv
      exact Option.some.inj (hv.symm.trans htask)
    refine h.set ?_ fun _ => ⟨w, hmem, not_over hpassed⟩
    rcases hw' with rfl | rfl
    · exact ⟨hresolver, htask'⟩
    · exact ⟨hresolver, htask'⟩
  | fails k => exact h.set trivial fun hne => absurd rfl hne
  | finishes k w hk hpassed hended =>
    have hmem := List.mem_of_getElem? hk
    have hset := h.set (k := k) (w := .over) trivial fun hne => absurd rfl hne
    refine ⟨fun u hu => absurd hu (h.no_supervisor hmem hended u), hset.stopped, fun w' hw' => ?_,
      h.reentrant, hset.attended, h.begun⟩
    refine (hset.covers w' hw').mono (fun _ hr => hr) fun u hu => ?_
    cases hu

end Persatrix.Wakes
