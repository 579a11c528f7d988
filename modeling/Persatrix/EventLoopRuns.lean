import Persatrix.EventLoopStops

/-!
# No wake is lost

A wake that arrived is owed an answer by the queue, by the supervisor that handles it or by its
resolver, until its handle is settled.
-/
namespace Persatrix.Wakes
open EventLoop
variable {α ε : Type} {s t : EventLoop α ε} {a : Arrival} {d : Bool} {log l : List Note}

/-- The wakes whose handles the loop has to settle. -/
def Arrived (a : Arrival) (log : List Note) : Prop :=
  (∃ d, .accepted a d ∈ log) ∨ .refusedStopped a ∈ log

/-- `stop` was called after the wake was accepted. -/
def StopAfter (a : Arrival) (d : Bool) (log : List Note) : Prop :=
  ∃ l l', log = l ++ .accepted a d :: l' ∧ .stopped ∈ l'

/-- An accepted wake that is not yet taken up. -/
def Pending (a : Arrival) (s : EventLoop α ε) : Bool → Prop
  | false => .wake a ∈ s.queue
  | true => ∃ (r : ℕ) (x : Task Arrival Unit),
      s.resolvers[r]? = some x ∧ x.data = a ∧ x.progress = .created

def Reached (a : Arrival) (d : Bool) (s : EventLoop α ε) : Prop :=
  Pending a s d ∨ .handled a d ∈ s.log ∨ StopAfter a d s.log

def Owed (a : Arrival) (s : EventLoop α ε) : Prop :=
  s.Settled a ∨ .wake a ∈ s.queue ∨
    (∃ (u : ℕ) (x : Task Unit Point),
      s.supervisors[u]? = some x ∧ x.progress = .suspended (.handler a)) ∨
    ∃ (r : ℕ) (x : Task Arrival Unit), s.resolvers[r]? = some x ∧ x.data = a ∧ x.Live

/-- Every wake that had arrived when a call of `stop` returned has its handle settled. -/
def Returned (s : EventLoop α ε) : Prop :=
  ∀ l l', s.log = l ++ .returned :: l' → ∀ a, Arrived a l → s.Settled a

structure Answers (s : EventLoop α ε) : Prop where
  stopAfter : s.stopped = true → ∀ a d, .accepted a d ∈ s.log → StopAfter a d s.log
  owed : ∀ a, Arrived a s.log → Owed a s
  reached : ∀ a d, .accepted a d ∈ s.log → Reached a d s
  returned : Returned s

theorem Answers.new : Answers (new : EventLoop α ε) where
  stopAfter _ a d h := by cases h
  owed a h := by
    rcases h with ⟨d, h⟩ | h
    · cases h
    · cases h
  reached a d h := by cases h
  returned l l' h := by cases List.append_eq_nil_iff.mp h.symm |>.2

theorem StopAfter.append (h : StopAfter a d log) (l : List Note) : StopAfter a d (log ++ l) := by
  obtain ⟨m, m', rfl, hstopped⟩ := h
  refine ⟨m, m' ++ l, ?_, List.mem_append_left _ hstopped⟩
  rw [List.append_assoc, List.cons_append]

theorem stopAfter_stopped (h : .accepted a d ∈ log) : StopAfter a d (log ++ [.stopped]) := by
  obtain ⟨l, l', rfl⟩ := List.append_of_mem h
  refine ⟨l, l' ++ [.stopped], ?_, List.mem_append_right _ (List.mem_singleton.mpr rfl)⟩
  rw [List.append_assoc, List.cons_append]

theorem Arrived.of_append {n : Note} (h : Arrived a (log ++ [n])) :
    Arrived a log ∨ (∃ d, n = .accepted a d) ∨ n = .refusedStopped a := by
  rcases h with ⟨d, h⟩ | h
  · rcases List.mem_append.mp h with hold | hnew
    · exact .inl (.inl ⟨d, hold⟩)
    · exact .inr (.inl ⟨d, (List.mem_singleton.mp hnew).symm⟩)
  · rcases List.mem_append.mp h with hold | hnew
    · exact .inl (.inr hold)
    · exact .inr (.inr (List.mem_singleton.mp hnew).symm)

/-- How a log that grew by one note is cut at an earlier one. -/
theorem append_cut {n m : Note} {l l' : List Note} (h : log ++ [n] = l ++ m :: l') :
    (∃ l'', log = l ++ m :: l'') ∨ log = l ∧ n = m := by
  rcases List.eq_nil_or_concat l' with rfl | ⟨l'', k, rfl⟩
  · obtain ⟨hl, hn⟩ := List.append_inj' h rfl
    exact .inr ⟨hl, (List.cons.inj hn).1⟩
  · rw [List.concat_eq_append, ← List.cons_append, ← List.append_assoc] at h
    exact .inl ⟨l'', (List.append_inj' h rfl).1⟩

theorem Returned.append {n : Note} (h : Returned s) (hn : n ≠ .returned)
    (hlog : t.log = s.log ++ [n]) (hsettled : ∀ a, s.Settled a → t.Settled a) : Returned t := by
  intro l l' hcut a ha
  rw [hlog] at hcut
  rcases append_cut hcut with ⟨l'', hold⟩ | ⟨-, hlast⟩
  · exact hsettled a (h l l'' hold a ha)
  · exact absurd hlast hn

/-- A change that adds no note keeps what is owed and what is reached. -/
theorem Answers.keep (h : Answers s) (hlog : t.log = s.log)
    (hstopped : t.stopped = true → s.stopped = true) (howed : ∀ a, Owed a s → Owed a t)
    (hpending : ∀ a d, .accepted a d ∈ s.log → Pending a s d → Reached a d t)
    (hsettled : ∀ a, s.Settled a → t.Settled a) : Answers t where
  stopAfter hstop a d ha := by
    rw [hlog] at ha ⊢
    exact h.stopAfter (hstopped hstop) a d ha
  owed a ha := howed a (h.owed a (hlog ▸ ha))
  reached a d ha := by
    rw [hlog] at ha
    rcases h.reached a d ha with hp | hh | hstop
    · exact hpending a d ha hp
    · exact .inr (.inl (hlog ▸ hh))
    · exact .inr (.inr (hlog ▸ hstop))
  returned l l' hcut a ha := hsettled a (h.returned l l' (hlog ▸ hcut) a ha)

/-- A change that adds one note, of nothing accepted. -/
theorem Answers.note (h : Answers s) {n : Note} (hlog : t.log = s.log ++ [n])
    (haccepted : ∀ a d, n ≠ .accepted a d) (hn : n ≠ .returned)
    (hstopped : t.stopped = true → s.stopped = true ∨ n = .stopped)
    (howed : ∀ a, Owed a s → Owed a t) (hrefused : ∀ a, n = .refusedStopped a → t.Settled a)
    (hpending : ∀ a d, .accepted a d ∈ s.log → Pending a s d → Reached a d t)
    (hsettled : ∀ a, s.Settled a → t.Settled a) : Answers t where
  stopAfter hstop a d ha := by
    rw [hlog] at ha ⊢
    have hold := mem_of_append ha (haccepted a d).symm
    rcases hstopped hstop with hwas | rfl
    · exact (h.stopAfter hwas a d hold).append _
    · exact stopAfter_stopped hold
  owed a ha := by
    rw [hlog] at ha
    rcases ha.of_append with hold | ⟨d, hnew⟩ | hnew
    · exact howed a (h.owed a hold)
    · exact absurd hnew (haccepted a d)
    · exact .inl (hrefused a hnew)
  reached a d ha := by
    rw [hlog] at ha
    have hold := mem_of_append ha (haccepted a d).symm
    rcases h.reached a d hold with hp | hh | hstop
    · exact hpending a d hold hp
    · exact .inr (.inl (hlog ▸ List.mem_append_left _ hh))
    · exact .inr (.inr (hlog ▸ hstop.append _))
  returned := h.returned.append hn hlog hsettled

/-- A change that adds a wake that is accepted. -/
theorem Answers.accept (h : Answers s) {a : Arrival} {d : Bool}
    (hlog : t.log = s.log ++ [.accepted a d]) (hstopped : t.stopped = false) (hnew : Owed a t)
    (hnew' : Pending a t d) (howed : ∀ b, Owed b s → Owed b t)
    (hpending : ∀ b c, Pending b s c → Pending b t c)
    (hsettled : ∀ b, s.Settled b → t.Settled b) : Answers t where
  stopAfter hstop b c hb := by
    rw [hstopped] at hstop
    cases hstop
  owed b hb := by
    rw [hlog] at hb
    rcases hb.of_append with hold | ⟨c, hsame⟩ | hsame
    · exact howed b (h.owed b hold)
    · cases hsame
      exact hnew
    · cases hsame
  reached b c hb := by
    rw [hlog] at hb
    rcases List.mem_append.mp hb with hold | hsame
    · rcases h.reached b c hold with hp | hh | hstop
      · exact .inl (hpending b c hp)
      · exact .inr (.inl (hlog ▸ List.mem_append_left _ hh))
      · exact .inr (.inr (hlog ▸ hstop.append _))
    · cases List.mem_singleton.mp hsame
      exact .inl hnew'
  returned := h.returned.append (by simp) hlog hsettled

/-! ### Every change keeps it -/

/-- What holds the answer to a wake still holds it, or has given it. -/
theorem Owed.pass (h : Owed a s) (hsettled : s.Settled a → t.Settled a)
    (hqueue : .wake a ∈ s.queue → Owed a t)
    (hsupervisor : ∀ (u : ℕ) (x : Task Unit Point), s.supervisors[u]? = some x →
      x.progress = .suspended (.handler a) → Owed a t)
    (hresolver : ∀ (r : ℕ) (x : Task Arrival Unit), s.resolvers[r]? = some x → x.data = a →
      x.Live → Owed a t) : Owed a t := by
  rcases h with h | h | ⟨u, x, hx, hp⟩ | ⟨r, x, hx, hdata, hlive⟩
  · exact .inl (hsettled h)
  · exact hqueue h
  · exact hsupervisor u x hx hp
  · exact hresolver r x hx hdata hlive

theorem handler_moveTo {u v : ℕ} {x : Task Unit Point} (hfree : s.Free u)
    (hx : s.supervisors[v]? = some x) (hp : x.progress = .suspended (.handler a))
    (p : Progress Point) :
    s.Settled a ∨ ∃ y, (s.supervisors.moveTo u p)[v]? = some y ∧
      y.progress = .suspended (.handler a) := by
  by_cases huv : u = v
  · subst huv
    obtain ⟨y, hy, -, hsettled⟩ := hfree
    obtain rfl := Option.some.inj (hx.symm.trans hy)
    exact .inl (hsettled a hp)
  · refine .inr ⟨x, ?_, hp⟩
    rw [Tasks.get_moveTo_ne huv]
    exact hx

theorem answers_refusedStopped (h : Answers s) (wake : WakeEvent) :
    Answers { s with
      enqueued := s.enqueued + 1
      handles := s.handles.settle wake (.resolved [])
      log := s.log ++ [.refusedStopped ⟨s.enqueued, wake⟩] } := by
  refine h.note rfl (fun b c => by simp) (by simp) .inl (fun b hb => ?_) (fun b hb => ?_)
    (fun b c _ hp => .inl (by cases c <;> exact hp)) fun b hb h' hw => settle_isSome (hb h' hw)
  · exact hb.pass (fun hb h' hw => settle_isSome (hb h' hw)) (fun hq => .inr (.inl hq))
      (fun u x hx hp => .inr (.inr (.inl ⟨u, x, hx, hp⟩)))
      (fun r x hx hdata hlive => .inr (.inr (.inr ⟨r, x, hx, hdata, hlive⟩)))
  · cases hb
    exact fun h' hw => settle_self _ _ hw

theorem answers_refusedFull (h : Answers s) (wake : WakeEvent) :
    Answers { s with
      enqueued := s.enqueued + 1
      droppedCount := s.droppedCount + 1
      log := s.log ++ [.refusedFull ⟨s.enqueued, wake⟩] } :=
  h.note rfl (fun b c => by simp) (by simp) .inl (fun b hb => hb) (fun b hb => by cases hb)
    (fun b c _ hp => .inl (by cases c <;> exact hp)) fun b hb => hb

theorem answers_queued (h : Answers s) (wake : WakeEvent) (hstopped : s.stopped = false) :
    Answers { s with
      enqueued := s.enqueued + 1
      queue := s.queue ++ [.wake ⟨s.enqueued, wake⟩]
      log := s.log ++ [.accepted ⟨s.enqueued, wake⟩ false] } := by
  have hlast : Item.wake ⟨s.enqueued, wake⟩ ∈ s.queue ++ [.wake ⟨s.enqueued, wake⟩] :=
    List.mem_append_right _ (List.mem_singleton.mpr rfl)
  refine h.accept rfl hstopped (.inr (.inl hlast)) hlast (fun b hb => ?_) (fun b c hp => ?_)
    fun b hb => hb
  · exact hb.pass id (fun hq => .inr (.inl (List.mem_append_left _ hq)))
      (fun u x hx hp => .inr (.inr (.inl ⟨u, x, hx, hp⟩)))
      (fun r x hx hdata hlive => .inr (.inr (.inr ⟨r, x, hx, hdata, hlive⟩)))
  · cases c with
    | false => exact List.mem_append_left _ hp
    | true => exact hp

theorem answers_detached (h : Answers s) (wake : WakeEvent) (hstopped : s.stopped = false) :
    Answers { s with
      enqueued := s.enqueued + 1
      resolvers := s.resolvers.spawn ⟨s.enqueued, wake⟩
      reentrantTasks := s.reentrantTasks ++ [s.resolvers.length]
      log := s.log ++ [.accepted ⟨s.enqueued, wake⟩ true] } := by
  have hnew := Tasks.get_spawn_new (φ := Unit) (Arrival.mk s.enqueued wake) s.resolvers
  refine h.accept rfl hstopped ?_ ⟨_, _, hnew, rfl, rfl⟩ (fun b hb => ?_) (fun b c hp => ?_)
    fun b hb => hb
  · exact .inr (.inr (.inr ⟨_, _, hnew, rfl, fun hdone => by cases hdone⟩))
  · exact hb.pass id (fun hq => .inr (.inl hq))
      (fun u x hx hp => .inr (.inr (.inl ⟨u, x, hx, hp⟩)))
      (fun r x hx hdata hlive => .inr (.inr (.inr ⟨r, x, Tasks.get_spawn hx, hdata, hlive⟩)))
  · cases c with
    | false => exact hp
    | true =>
      obtain ⟨r, x, hx, hdata, hcreated⟩ := hp
      exact ⟨r, x, Tasks.get_spawn hx, hdata, hcreated⟩

theorem answers_settles (h : Answers s) (h' : ℕ) (o : Outcome α ε) :
    Answers { s with handles := s.handles.set h' o } := by
  refine h.keep rfl id (fun b hb => ?_) (fun b c _ hp => .inl (by cases c <;> exact hp))
    fun b hb k hw => set_isSome (hb k hw)
  exact hb.pass (fun hb k hw => set_isSome (hb k hw)) (fun hq => .inr (.inl hq))
    (fun u x hx hp => .inr (.inr (.inl ⟨u, x, hx, hp⟩)))
    (fun r x hx hdata hlive => .inr (.inr (.inr ⟨r, x, hx, hdata, hlive⟩)))

theorem answers_moves (h : Answers s) {u : ℕ} (p : Progress Point) (hfree : s.Free u) :
    Answers { s with supervisors := s.supervisors.moveTo u p } := by
  refine h.keep rfl id (fun b hb => ?_) (fun b c _ hp => .inl (by cases c <;> exact hp))
    fun b hb => hb
  refine hb.pass id (fun hq => .inr (.inl hq)) (fun v x hx hp => ?_)
    (fun r x hx hdata hlive => .inr (.inr (.inr ⟨r, x, hx, hdata, hlive⟩)))
  rcases handler_moveTo hfree hx hp p with hsettled | ⟨y, hy, hy'⟩
  · exact .inl hsettled
  · exact .inr (.inr (.inl ⟨v, y, hy, hy'⟩))

theorem answers_takes (h : Answers s) {u : ℕ} {b : Arrival} {rest : List Item} (hfree : s.Free u)
    (hqueue : s.queue = .wake b :: rest) :
    Answers { s with
      queue := rest
      supervisors := s.supervisors.moveTo u (.suspended (.handler b))
      log := s.log ++ [.handled b false] } := by
  obtain ⟨x₀, hx₀, -⟩ := id hfree
  have htaken : ∀ c, .wake c ∈ s.queue → c = b ∨ .wake c ∈ rest := by
    intro c hc
    rw [hqueue] at hc
    rcases List.mem_cons.mp hc with hsame | hrest
    · exact .inl (Item.wake.inj hsame)
    · exact .inr hrest
  refine h.note rfl (fun c e => by simp) (by simp) .inl (fun c hc => ?_) (fun c hc => by cases hc)
    (fun c e _ hp => ?_) fun c hc => hc
  · refine hc.pass id (fun hq => ?_) (fun v x hx hp => ?_)
      (fun r x hx hdata hlive => .inr (.inr (.inr ⟨r, x, hx, hdata, hlive⟩)))
    · rcases htaken c hq with rfl | hrest
      · exact .inr (.inr (.inl ⟨u, _, Tasks.get_moveTo hx₀, rfl⟩))
      · exact .inr (.inl hrest)
    · rcases handler_moveTo hfree hx hp (.suspended (.handler b)) with hsettled | ⟨y, hy, hy'⟩
      · exact .inl hsettled
      · exact .inr (.inr (.inl ⟨v, y, hy, hy'⟩))
  · cases e with
    | false =>
      rcases htaken c hp with rfl | hrest
      · exact .inr (.inl (List.mem_append_right _ (List.mem_singleton.mpr rfl)))
      · exact .inl hrest
    | true => exact .inl hp

/-- A resolver that moves on is another's or has given its answer. -/
theorem resolver_moveTo {r r' : ℕ} {x : Task Arrival Unit} {b : Arrival}
    {p : Progress Unit} {q : Progress Unit} {c : Bool} (hr : s.resolvers[r]? = some ⟨b, p, c⟩)
    (hx : s.resolvers[r']? = some x) :
    r' = r ∧ x = ⟨b, p, c⟩ ∨ (s.resolvers.moveTo r q)[r']? = some x := by
  by_cases hrr : r = r'
  · subst hrr
    exact .inl ⟨rfl, Option.some.inj (hx.symm.trans hr)⟩
  · rw [Tasks.get_moveTo_ne hrr]
    exact .inr hx

theorem answers_begins (h : Answers s) {r : ℕ} {b : Arrival}
    (hr : s.resolvers[r]? = some ⟨b, .created, false⟩) :
    Answers { s with
      resolvers := s.resolvers.moveTo r (.suspended ())
      log := s.log ++ [.handled b true] } := by
  refine h.note rfl (fun c e => by simp) (by simp) .inl (fun c hc => ?_) (fun c hc => by cases hc)
    (fun c e _ hp => ?_) fun c hc => hc
  · refine hc.pass id (fun hq => .inr (.inl hq))
      (fun u x hx hp => .inr (.inr (.inl ⟨u, x, hx, hp⟩))) fun r' x hx hdata hlive => ?_
    rcases resolver_moveTo (q := .suspended ()) hr hx with ⟨-, rfl⟩ | hkept
    · exact .inr (.inr (.inr ⟨r, _, Tasks.get_moveTo hr, hdata, fun hdone => by cases hdone⟩))
    · exact .inr (.inr (.inr ⟨r', x, hkept, hdata, hlive⟩))
  · cases e with
    | false => exact .inl hp
    | true =>
      obtain ⟨r', x, hx, rfl, hcreated⟩ := hp
      rcases resolver_moveTo (q := .suspended ()) hr hx with ⟨-, rfl⟩ | hkept
      · exact .inr (.inl (List.mem_append_right _ (List.mem_singleton.mpr rfl)))
      · exact .inl ⟨r', x, hkept, rfl, hcreated⟩

theorem answers_ends (h : Answers s) {r : ℕ} {b : Arrival} {cancelling : Bool}
    (hr : s.resolvers[r]? = some ⟨b, .suspended (), cancelling⟩) (hsettled : s.Settled b) :
    Answers { s with resolvers := s.resolvers.moveTo r .done } := by
  refine h.keep rfl id (fun c hc => ?_) (fun c e _ hp => .inl ?_) fun c hc => hc
  · refine hc.pass id (fun hq => .inr (.inl hq))
      (fun u x hx hp => .inr (.inr (.inl ⟨u, x, hx, hp⟩))) fun r' x hx hdata hlive => ?_
    rcases resolver_moveTo (q := .done) hr hx with ⟨-, rfl⟩ | hkept
    · subst hdata
      exact .inl hsettled
    · exact .inr (.inr (.inr ⟨r', x, hkept, hdata, hlive⟩))
  · cases e with
    | false => exact hp
    | true =>
      obtain ⟨r', x, hx, hdata, hcreated⟩ := hp
      rcases resolver_moveTo (q := .done) hr hx with ⟨-, rfl⟩ | hkept
      · cases hcreated
      · exact ⟨r', x, hkept, hdata, hcreated⟩

theorem owed_cancelAll {b : Arrival} (rs : List ℕ) (h : Owed b s)
    (hsettled : s.Settled b → t.Settled b) (hqueue : t.queue = s.queue)
    (hsupervisors : t.supervisors = s.supervisors)
    (hresolvers : t.resolvers = s.resolvers.cancelAll rs) : Owed b t := by
  refine h.pass hsettled (fun hq => .inr (.inl (hqueue ▸ hq)))
    (fun u x hx hp => .inr (.inr (.inl ⟨u, x, hsupervisors ▸ hx, hp⟩)))
    fun r x hx hdata hlive => .inr (.inr (.inr ⟨r, _, hresolvers ▸ Tasks.get_cancelAll hx, ?_, ?_⟩))
  · split
    · rw [x.cancel_data]
      exact hdata
    · exact hdata
  · split
    · intro hdone
      rw [x.cancel_progress] at hdone
      exact hlive hdone
    · exact hlive

theorem pending_cancelAll {b : Arrival} (rs : List ℕ) (h : Pending b s d)
    (hqueue : t.queue = s.queue) (hresolvers : t.resolvers = s.resolvers.cancelAll rs) :
    Pending b t d := by
  cases d with
  | false =>
    change Item.wake b ∈ t.queue
    rw [hqueue]
    exact h
  | true =>
    obtain ⟨r, x, hx, hdata, hcreated⟩ := h
    refine ⟨r, _, hresolvers ▸ Tasks.get_cancelAll hx, ?_, ?_⟩
    · split
      · rw [x.cancel_data]
        exact hdata
      · exact hdata
    · split
      · rw [x.cancel_progress]
        exact hcreated
      · exact hcreated

theorem answers_cancels (h : Answers s) (u : ℕ) :
    Answers { s with supervisors := s.supervisors.cancelAll [u] } := by
  refine h.keep rfl id (fun b hb => ?_) (fun b c _ hp => .inl (by cases c <;> exact hp))
    fun b hb => hb
  refine hb.pass id (fun hq => .inr (.inl hq)) (fun v x hx hp => ?_)
    (fun r x hx hdata hlive => .inr (.inr (.inr ⟨r, x, hx, hdata, hlive⟩)))
  refine .inr (.inr (.inl ⟨v, _, Tasks.get_cancelAll hx, ?_⟩))
  split
  · rw [x.cancel_progress]
    exact hp
  · exact hp

theorem answers_finishes (h : Answers s) (hsteady : Steady s) {k : ℕ} {w : Wait}
    (hw : w ∈ s.stops) (hpassed : s.Passed w) (hended : s.Ended w) :
    Answers (s.finishStop k) := by
  have hkeeps : ∀ b, s.Settled b → (s.finishStop k).Settled b :=
    fun b hb h' hw' => drain_isSome s.queue (hb h' hw')
  -- nothing is left that could still answer
  have hall : ∀ b, Owed b s → (s.finishStop k).Settled b := by
    intro b hb
    rcases hb with hb | hq | ⟨u, x, hx, hp⟩ | ⟨r, x, hx, -, hlive⟩
    · exact hkeeps b hb
    · exact fun h' hw' => drain_wake hw' hq s.handles
    · refine absurd ⟨x, hx, fun hdone => ?_⟩ (hsteady.no_supervisor hw hended u)
      rw [hp] at hdone
      cases hdone
    · exact absurd ⟨x, hx, hlive⟩ (hsteady.no_resolver hw hpassed r)
  have hstopped := hsteady.stopped w hw (not_over hpassed)
  refine ⟨fun _ b c hb => ?_, fun b hb => ?_, fun b c hb => ?_, fun l l' hcut b hb => ?_⟩
  · exact (h.stopAfter hstopped b c (mem_of_append hb (by simp))).append _
  · rcases hb.of_append with hold | ⟨c, hsame⟩ | hsame
    · exact .inl (hall b (h.owed b hold))
    · cases hsame
    · cases hsame
  · exact .inr (.inr ((h.stopAfter hstopped b c (mem_of_append hb (by simp))).append _))
  · rcases append_cut hcut with ⟨l'', hold⟩ | ⟨rfl, -⟩
    · exact hkeeps b (h.returned l l'' hold b hb)
    · exact hall b (h.owed b hb)

theorem answers_change (h : Answers s) (hsteady : Steady s) (hchange : Change True s t) :
    Answers t := by
  cases hchange with
  | refusedStopped wake _ => exact answers_refusedStopped h wake
  | refusedFull wake => exact answers_refusedFull h wake
  | queued wake hstopped => exact answers_queued h wake hstopped
  | detached wake hstopped => exact answers_detached h wake hstopped
  | started _ _ =>
    refine h.keep rfl (fun hstop => by cases hstop) (fun b hb => ?_)
      (fun b c _ hp => .inl (by cases c <;> exact hp)) fun b hb => hb
    exact hb.pass id (fun hq => .inr (.inl hq))
      (fun u x hx hp => .inr (.inr (.inl ⟨u, x, Tasks.get_spawn hx, hp⟩)))
      (fun r x hx hdata hlive => .inr (.inr (.inr ⟨r, x, hx, hdata, hlive⟩)))
  | settles h' o => exact answers_settles h h' o
  | moves u p hfree _ => exact answers_moves h p hfree
  | pops rest hqueue =>
    have hrest : ∀ b, Item.wake b ∈ s.queue → Item.wake b ∈ rest := by
      intro b hb
      rw [hqueue] at hb
      exact (List.mem_cons.mp hb).resolve_left fun hsame => by cases hsame
    refine h.keep rfl id (fun b hb => ?_) (fun b c _ hp => .inl ?_) fun b hb => hb
    · exact hb.pass id (fun hq => .inr (.inl (hrest b hq)))
        (fun u x hx hp => .inr (.inr (.inl ⟨u, x, hx, hp⟩)))
        (fun r x hx hdata hlive => .inr (.inr (.inr ⟨r, x, hx, hdata, hlive⟩)))
    · cases c with
      | false => exact hrest b hp
      | true => exact hp
  | takes u b rest hfree hqueue => exact answers_takes h hfree hqueue
  | begins r b hr => exact answers_begins h hr
  | skips r b hr => exact absurd rfl (hsteady.begun r _ hr rfl)
  | ends r b cancelling hr hsettled => exact answers_ends h hr hsettled
  | discards r _ =>
    exact h.keep rfl id (fun b hb => hb) (fun b c _ hp => .inl (by cases c <;> exact hp))
      fun b hb => hb
  | poisons =>
    refine h.keep rfl id (fun b hb => ?_) (fun b c _ hp => .inl ?_) fun b hb => hb
    · exact hb.pass id (fun hq => .inr (.inl (List.mem_append_left _ hq)))
        (fun u x hx hp => .inr (.inr (.inl ⟨u, x, hx, hp⟩)))
        (fun r x hx hdata hlive => .inr (.inr (.inr ⟨r, x, hx, hdata, hlive⟩)))
    · cases c with
      | false => exact List.mem_append_left _ hp
      | true => exact hp
  | cancels u => exact answers_cancels h u
  | calls _ =>
    exact h.note rfl (fun b c => by simp) (by simp) (fun _ => .inr rfl)
      (fun b hb => owed_cancelAll s.reentrantTasks hb id rfl rfl rfl) (fun b hb => by cases hb)
      (fun b c _ hp => .inl (pending_cancelAll s.reentrantTasks hp rfl rfl)) fun b hb => hb
  | repeats k snapshot _ =>
    exact h.keep rfl id (fun b hb => owed_cancelAll snapshot hb id rfl rfl rfl)
      (fun b c _ hp => .inl (pending_cancelAll snapshot hp rfl rfl)) fun b hb => hb
  | waits _ _ _ _ _ _ _ _ =>
    exact h.keep rfl id (fun b hb => hb) (fun b c _ hp => .inl (by cases c <;> exact hp))
      fun b hb => hb
  | fails _ =>
    exact h.keep rfl id (fun b hb => hb) (fun b c _ hp => .inl (by cases c <;> exact hp))
      fun b hb => hb
  | finishes k w hk hpassed hended =>
    exact answers_finishes h hsteady (List.mem_of_getElem? hk) hpassed hended

end Persatrix.Wakes

/-!
## Every run of the event loop
-/
namespace Persatrix.Wakes
open EventLoop
variable {α ε : Type} {size : ℕ} {s : EventLoop α ε}

structure Invariant (s : EventLoop α ε) : Prop where
  numbered : Numbered s
  steady : Steady s
  answers : Answers s

theorem invariant_changes {sound : Prop} {s t : EventLoop α ε} (hs : Invariant s) (hsound : sound)
    (h : Changes sound s t) : Invariant t := by
  obtain rfl := eq_true hsound
  induction h with
  | refl => exact hs
  | tail _ hchange ih =>
    exact ⟨numbered_change ih.numbered hchange, steady_change ih.steady hchange,
      answers_change ih.answers ih.steady hchange⟩

theorem invariant (h : (eventLoop α ε size).Reaches Sound s) : Invariant s :=
  System.Reaches.invariant (I := Invariant) ⟨.new, .new, .new⟩
    (fun _ _ _ hs hc hstep => invariant_changes hs hc (changes_of_step hstep)) h

theorem running_of_handling {t : ℕ} {a : Arrival} (h : s.handling t = some a) :
    s.supervisors.Running t := by
  unfold EventLoop.handling at h
  split at h
  · next b c hx => exact ⟨_, hx, fun hdone => by cases hdone⟩
  · cases h

structure Kept (s : EventLoop α ε) : Prop where
  distinct : (numbers s.log).Nodup
  arrived : ∀ a d, .handled a d ∈ s.log → .accepted a d ∈ s.log
  once : ∀ d, (handled d s.log).Nodup
  inOrder : (handled false s.log).Sublist (accepted false s.log)
  alone : ∀ t u a b, s.handling t = some a → s.handling u = some b → t = u
  reached : ∀ a d, .accepted a d ∈ s.log → Reached a d s
  dropped : s.droppedCount = s.log.countP Note.isRefusedFull
  returned : Returned s

theorem handled_sublist (h : Numbered s) :
    (handled false s.log).Sublist (accepted false s.log) :=
  (List.sublist_append_left _ _).trans h.order

theorem handled_nodup (h : Numbered s) (d : Bool) : (handled d s.log).Nodup := by
  cases d with
  | false =>
    have hnumbers := h.distinct.sublist (accepted_sublist false s.log)
    exact hnumbers.of_map.sublist (handled_sublist h)
  | true => exact h.once

/-- No run orphans a wake whose steps are all sound. -/
theorem wakes_answered (h : (eventLoop α ε size).Reaches Sound s) : Kept s := by
  obtain ⟨hnumbered, hsteady, hanswers⟩ := invariant h
  refine ⟨hnumbered.distinct, fun a d ha => ?_, handled_nodup hnumbered, handled_sublist hnumbered,
    fun t u a b ht hu => ?_, hanswers.reached, hnumbered.dropped, hanswers.returned⟩
  · cases d with
    | false => exact mem_accepted.mp ((handled_sublist hnumbered).subset (mem_handled.mpr ha))
    | true => exact hnumbered.begun a ha
  · have ht := hsteady.supervisor t (running_of_handling ht)
    have hu := hsteady.supervisor u (running_of_handling hu)
    exact Option.some.inj (ht.symm.trans hu)

/-- A resolver answers while `stop` waits, one wake is drained, and one refused. -/
def soundRun : List (Event Unit Unit) :=
  [.start, .enqueue none (.inbound (some 0)), .enqueue none (.inbound none), .run 0,
    .enqueue (some 0) (.inbound (some 1)), .enqueue none .scheduled, .beginResolver 0, .stop,
    .enqueue none (.inbound (some 2)), .endResolver 0 .cancelled, .resumeStop 0, .timeoutStop 0,
    .handlerEnds 0 .cancelled, .resumeStop 0]

theorem wakes_answered_run : ∃ s : EventLoop Unit Unit,
    ((eventLoop Unit Unit 1).exec soundRun).map EventLoop.log = some s.log ∧
    .returned ∈ s.log ∧ s.droppedCount = 1 ∧ Kept s := by
  have hrun : (((eventLoop Unit Unit 1).guarded Sound).exec soundRun).map
      (fun s => decide (((eventLoop Unit Unit 1).exec soundRun).map EventLoop.log = some s.log ∧
        Note.returned ∈ s.log ∧ s.droppedCount = 1)) = some true := by
    decide
  obtain ⟨s, hexec, hs⟩ := System.exists_of_exec hrun
  exact ⟨s, hs.1, hs.2.1, hs.2.2,
    wakes_answered (System.Reachable.of_guarded (System.reachable_exec hexec))⟩

/-- The handler enqueues a wake of its own, and `stop` is called before the resolver takes its first
step, which then never does. -/
def orphaningRun : List (Event Unit Unit) :=
  [.start, .enqueue none (.inbound none), .run 0, .enqueue (some 0) (.inbound (some 0)),
    .handlerEnds 0 (.resolved []), .stop, .beginResolver 0, .resumeStop 0, .run 0, .resumeStop 0]

/-- The supervisor ends while `stop` waits, and `start` begins another one, which `stop` then
forgets. -/
def forgettingRun : List (Event Unit Unit) :=
  [.start, .run 0, .stop, .run 0, .start, .resumeStop 0, .enqueue none (.inbound none), .run 1,
    .start, .enqueue none (.inbound none), .run 2]

theorem wakes_orphaned :
    (∃ s, (eventLoop Unit Unit 1).Reachable s ∧ ¬ Returned s) ∧
    ∃ s, (eventLoop Unit Unit 1).Reachable s ∧
      ∃ a b, s.handling 1 = some a ∧ s.handling 2 = some b := by
  constructor
  · have hrun : ((eventLoop Unit Unit 1).exec orphaningRun).map (fun s => decide (
        s.log = [.accepted ⟨0, .inbound none⟩ false, .handled ⟨0, .inbound none⟩ false,
          .accepted ⟨1, .inbound (some 0)⟩ true, .stopped, .returned] ∧
        (s.handles 0).isSome = false)) = some true := by
      decide
    obtain ⟨s, hexec, hlog, hnone⟩ := System.exists_of_exec hrun
    refine ⟨s, System.reachable_exec hexec, fun hreturned => ?_⟩
    have hsettled := hreturned (s.log.take 4) [] (by rw [hlog]; rfl) ⟨1, .inbound (some 0)⟩
      (.inl ⟨true, by rw [hlog]; decide⟩) 0 rfl
    rw [hnone] at hsettled
    cases hsettled
  · have hrun : ((eventLoop Unit Unit 1).exec forgettingRun).map (fun s => decide (
        s.handling 1 = some ⟨0, .inbound none⟩ ∧ s.handling 2 = some ⟨1, .inbound none⟩)) =
        some true := by
      decide
    obtain ⟨s, hexec, hboth⟩ := System.exists_of_exec hrun
    exact ⟨s, System.reachable_exec hexec, _, _, hboth.1, hboth.2⟩

end Persatrix.Wakes
