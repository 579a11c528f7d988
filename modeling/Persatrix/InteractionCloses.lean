import Persatrix.EpisodeRouting

/-!
# What the closing fans do to the tracker
-/
namespace Persatrix.Interactions

/-- Some open records were closed, each into a record to which `P` relates it; no record was
opened or changed. -/
structure Closes (P : Interaction → Interaction → Prop) (t u : Tracker) : Prop where
  opened : ∀ r ∈ u.opened.values, r ∈ t.opened.values
  kept : ∀ r ∈ t.closed, r ∈ u.closed
  closed : ∀ r ∈ u.closed, r ∈ t.closed ∨ ∃ s ∈ t.opened.values, P s r

namespace Closes
variable {P Q : Interaction → Interaction → Prop} {t u v : Tracker}

theorem refl (t : Tracker) : Closes P t t := ⟨fun _ h => h, fun _ h => h, fun _ h => .inl h⟩

theorem mono (h : Closes P t u) (hPQ : ∀ s r, P s r → Q s r) : Closes Q t u where
  opened := h.opened
  kept := h.kept
  closed r hr := by
    rcases h.closed r hr with hold | ⟨s, hs, hP⟩
    · exact .inl hold
    · exact .inr ⟨s, hs, hPQ s r hP⟩

theorem trans (h : Closes P t u) (h' : Closes P u v) : Closes P t v where
  opened r hr := h.opened r (h'.opened r hr)
  kept r hr := h'.kept r (h.kept r hr)
  closed r hr := by
    rcases h'.closed r hr with hold | ⟨s, hs, hP⟩
    · exact h.closed r hold
    · exact .inr ⟨s, h.opened s hs, hP⟩

end Closes

/-- The close of a record that is not open, or of another one under its key, does nothing. -/
theorem closeRecord_eq (t : Tracker) (r : Interaction) (reason : CloseReason) (c : Option Bool)
    (h : ∀ s ∈ t.opened.values, s.key = r.key → s = r) :
    (r ∉ t.opened.values ∧ (t.closeRecord r reason c).2 = t) ∨
      r ∈ t.opened.values ∧ (t.closeRecord r reason c).1 = some (r.close reason c) ∧
        (t.closeRecord r reason c).2.opened = t.opened.erase r.key ∧
        (t.closeRecord r reason c).2.closed = t.closed ++ [r.close reason c] := by
  unfold Tracker.closeRecord
  cases hget : t.opened.get r.key with
  | none =>
    have hnot := Keyed.get_eq_none.mp hget
    exact .inl ⟨fun hr => hnot r hr rfl, rfl⟩
  | some s =>
    obtain ⟨hs, hkey⟩ := Keyed.get_eq_some.mp hget
    obtain rfl := h s hs hkey
    right
    dsimp only
    rw [if_neg (not_not.mpr rfl)]
    refine ⟨hs, rfl, ?_, ?_⟩
    all_goals
      dsimp only
      split <;> rfl

theorem closes_closeRecord {t : Tracker} {r : Interaction} (reason : CloseReason)
    (c : Option Bool) (h : ∀ s ∈ t.opened.values, s.key = r.key → s = r) :
    Closes (fun s s' => s = r ∧ s' = r.close reason c) t (t.closeRecord r reason c).2 := by
  rcases closeRecord_eq t r reason c h with ⟨-, hsame⟩ | ⟨hr, -, hopened, hclosed⟩
  · rw [hsame]
    exact .refl t
  · constructor
    · intro s hs
      rw [hopened] at hs
      exact (Keyed.mem_erase.mp hs).1
    · intro s hs
      rw [hclosed]
      exact List.mem_append_left _ hs
    · intro s hs
      rw [hclosed] at hs
      rcases List.mem_append.mp hs with hold | hnew
      · exact .inl hold
      · exact .inr ⟨r, hr, rfl, List.mem_singleton.mp hnew⟩

theorem closeRecord_gone {t : Tracker} {r : Interaction} (reason : CloseReason) (c : Option Bool)
    (h : ∀ s ∈ t.opened.values, s.key = r.key → s = r) :
    ∀ s ∈ (t.closeRecord r reason c).2.opened.values, s.key ≠ r.key := by
  intro s hs
  rcases closeRecord_eq t r reason c h with ⟨hr, hsame⟩ | ⟨-, -, hopened, -⟩
  · rw [hsame] at hs
    intro hkey
    exact hr (h s hs hkey ▸ hs)
  · rw [hopened] at hs
    exact (Keyed.mem_erase.mp hs).2

/-- An open record of `t` is the only one under its key in what is left of `t`. -/
theorem Closes.only {P : Interaction → Interaction → Prop} {t u : Tracker} {r : Interaction}
    (h : Closes P t u) (hr : r ∈ t.opened.values) :
    ∀ s ∈ u.opened.values, s.key = r.key → s = r :=
  fun s hs hkey => Keyed.eq_of_key (h.opened s hs) hr hkey

/-- A room-wide close gives each record it takes the same reason. -/
theorem closes_closeScope (t : Tracker) (scope : String) (reason : CloseReason)
    (admits : Interaction → Bool) :
    Closes (fun s s' => s' = s.close reason none) t (t.closeScope scope reason admits) := by
  unfold Tracker.closeScope
  have hall : ∀ r ∈ t.admittedRecords scope admits, r ∈ t.opened.values :=
    fun r hr => List.mem_of_mem_filter hr
  generalize t.admittedRecords scope admits = l at hall ⊢
  induction l using List.reverseRecOn with
  | nil => exact .refl t
  | append_singleton l r ih =>
    rw [List.foldl_append]
    have hl := ih fun s hs => hall s (List.mem_append_left _ hs)
    have hr := hall r (List.mem_append_right _ (List.mem_singleton.mpr rfl))
    refine hl.trans ((closes_closeRecord reason none (hl.only hr)).mono ?_)
    rintro s s' ⟨rfl, hs'⟩
    exact hs'

variable {cfg : Config} {scope : String} {a : Arrival} {t : Tracker}

/-- Why the fan of an arrival closes a record: what is stale of it, judged when the records
before it have been dealt with. -/
def StaleClose (cfg : Config) (scope : String) (a : Arrival) (t : Tracker)
    (l : List Interaction) (r r' : Interaction) : Prop :=
  ∃ (before after : List Interaction) (reason : CloseReason), l = before ++ r :: after ∧
    staleCloseReason r a.event (scopeWireAnchor scope a.event)
      (r.key = targetKey cfg scope a) = some reason ∧
    r' = r.close reason
      (if segmentComplete (before.foldl (closeIfStale cfg scope a) t) r a.event reason then
        some true else none)

theorem StaleClose.longer {l : List Interaction} {r r' s : Interaction}
    (h : StaleClose cfg scope a t l r r') : StaleClose cfg scope a t (l ++ [s]) r r' := by
  obtain ⟨before, after, reason, rfl, hstale⟩ := h
  exact ⟨before, after ++ [s], reason, by simp, hstale⟩

/-- After the fan no record that it judged stale is open. -/
theorem closes_closeIfStale (l : List Interaction) (hall : ∀ r ∈ l, r ∈ t.opened.values) :
    Closes (StaleClose cfg scope a t l) t (l.foldl (closeIfStale cfg scope a) t) ∧
      ∀ r ∈ l, r ∈ (l.foldl (closeIfStale cfg scope a) t).opened.values →
        staleCloseReason r a.event (scopeWireAnchor scope a.event)
          (r.key = targetKey cfg scope a) = none := by
  induction l using List.reverseRecOn with
  | nil => exact ⟨.refl t, fun r hr => by cases hr⟩
  | append_singleton l r ih =>
    rw [List.foldl_append, List.foldl_cons, List.foldl_nil]
    obtain ⟨hl, hfresh⟩ := ih fun s hs => hall s (List.mem_append_left _ hs)
    have hr := hall r (List.mem_append_right _ (List.mem_singleton.mpr rfl))
    have hl' : Closes (StaleClose cfg scope a t (l ++ [r])) t
        (l.foldl (closeIfStale cfg scope a) t) := hl.mono fun _ _ => StaleClose.longer
    unfold closeIfStale
    cases hstale : staleCloseReason r a.event (scopeWireAnchor scope a.event)
        (r.key = targetKey cfg scope a) with
    | none =>
      refine ⟨hl', ?_⟩
      intro s hs hopen
      rcases List.mem_append.mp hs with hs | hs
      · exact hfresh s hs hopen
      · rw [List.mem_singleton.mp hs]
        exact hstale
    | some reason =>
      dsimp only
      have hclose := closes_closeRecord reason
        (if segmentComplete (l.foldl (closeIfStale cfg scope a) t) r a.event reason then
          some true else none) (hl.only hr)
      refine ⟨hl'.trans (hclose.mono ?_), ?_⟩
      · rintro s s' ⟨rfl, rfl⟩
        exact ⟨l, [], reason, rfl, hstale, rfl⟩
      · intro s hs hopen
        rcases List.mem_append.mp hs with hs | hs
        · exact hfresh s hs (hclose.opened s hopen)
        · exact absurd (congrArg Interaction.key (List.mem_singleton.mp hs))
            (closeRecord_gone reason _ (hl.only hr) s hopen)

theorem closes_closeStaleRecords :
    Closes (StaleClose cfg scope a t (t.recordsForScope scope)) t
      (closeStaleRecords cfg scope a t) :=
  (closes_closeIfStale _ fun _ hr => List.mem_of_mem_filter hr).1

/-- A record of the scope that is left open is not stale for the event. -/
theorem staleCloseReason_of_left {r : Interaction}
    (hr : r ∈ (closeStaleRecords cfg scope a t).opened.values) (hscope : r.scope = scope) :
    staleCloseReason r a.event (scopeWireAnchor scope a.event)
      (r.key = targetKey cfg scope a) = none := by
  have hmem : r ∈ t.recordsForScope scope :=
    List.mem_filter.mpr ⟨closes_closeStaleRecords.opened r hr, decide_eq_true hscope⟩
  exact (closes_closeIfStale _ fun _ h => List.mem_of_mem_filter h).2 r hmem hr

end Persatrix.Interactions
