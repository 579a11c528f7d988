import Persatrix.PlannerDAG

/-!
# The stages are the levels of the dependency relation

Before round `k` the queue holds the steps whose longest chain has `k` edges, the
counter of a step counts the entries of its `depends_on` list at level `k` or above,
and the stages emitted so far are the levels below `k`. A dependency listed twice is
counted twice and released twice, so the counters stay exact.
-/
namespace Persatrix.Planner
open Classical in
/-- The number of a step's entries at level `k` or above. -/
noncomputable def pending (w : Workflow) (k : ℕ) (step : Step) : ℕ :=
  step.dependsOn.countP fun dep => Chain (DependsOn w) k dep

theorem countP_split {p q r : String → Bool} {l : List String}
    (hsplit : ∀ x ∈ l, (p x = true ↔ q x = true ∨ r x = true) ∧ ¬ (q x = true ∧ r x = true)) :
    l.countP p = l.countP q + l.countP r := by
  induction l with
  | nil => rfl
  | cons x l ih =>
    obtain ⟨⟨hiff, hnot⟩, hrest⟩ := List.forall_mem_cons.mp hsplit
    rw [List.countP_cons, List.countP_cons, List.countP_cons, ih hrest]
    cases hq : q x <;> cases hr : r x <;> simp_all <;> omega

/-- What a step is listed under: once for every time it lists the dependency. -/
theorem lookup_addDependents (m : GoMap String (List String)) (step : Step) (dep : String) :
    ((addDependents m step).lookup dep).getD [] =
      (m.lookup dep).getD [] ++ List.replicate (step.dependsOn.count dep) step.id := by
  unfold addDependents
  induction step.dependsOn generalizing m with
  | nil => simp
  | cons d deps ih =>
    rw [List.foldl_cons, ih, GoMap.lookup_insert, List.count_cons]
    by_cases hd : dep = d
    · subst hd
      simp only [if_true, beq_self_eq_true, Option.getD_some, List.append_assoc]
      rw [List.replicate_succ, List.singleton_append]
    · simp [hd, Ne.symm hd]

theorem lookup_dependentsMap (steps : List Step) (dep : String) :
    ((dependentsMap steps).lookup dep).getD [] =
      steps.flatMap fun step => List.replicate (step.dependsOn.count dep) step.id := by
  unfold dependentsMap
  induction steps using List.reverseRecOn with
  | nil => simp
  | append_singleton steps step ih =>
    rw [List.foldl_append, List.foldl_cons, List.foldl_nil, lookup_addDependents, ih]
    simp

/-- The decrements of a round, in the order in which they are made. -/
def releases (steps : List Step) (queue : List String) : List String :=
  queue.flatMap fun id => ((dependentsMap steps).lookup id).getD []

theorem count_dependents {steps : List Step} (hnodup : (steps.map (·.id)).Nodup) {step : Step}
    (hstep : step ∈ steps) (dep : String) :
    (((dependentsMap steps).lookup dep).getD []).count step.id = step.dependsOn.count dep := by
  rw [lookup_dependentsMap]
  induction steps with
  | nil => simp at hstep
  | cons other steps ih =>
    obtain ⟨hhead, htail⟩ := List.nodup_cons.mp hnodup
    rw [List.flatMap_cons, List.count_append, List.count_replicate]
    rcases List.mem_cons.mp hstep with rfl | hstep
    · have hzero : (steps.flatMap fun s =>
          List.replicate (s.dependsOn.count dep) s.id).count step.id = 0 := by
        apply List.count_eq_zero.mpr
        intro hmem
        obtain ⟨s, hs, hid⟩ := List.mem_flatMap.mp hmem
        obtain ⟨-, heq⟩ := List.mem_replicate.mp hid
        exact hhead (List.mem_map.mpr ⟨s, hs, heq.symm⟩)
      simp [hzero]
    · have hne : other.id ≠ step.id := by
        intro heq
        exact hhead (List.mem_map.mpr ⟨step, hstep, heq.symm⟩)
      simp [hne, ih htail hstep]

/-- A round decrements a step once for each of its entries that is in the queue. -/
theorem count_releases {steps : List Step} (hnodup : (steps.map (·.id)).Nodup) {step : Step}
    (hstep : step ∈ steps) {queue : List String} (hqueue : queue.Nodup) :
    (releases steps queue).count step.id = step.dependsOn.countP (· ∈ queue) := by
  unfold releases
  induction queue with
  | nil => simp
  | cons id queue ih =>
    obtain ⟨hnew, htail⟩ := List.nodup_cons.mp hqueue
    rw [List.flatMap_cons, List.count_append, count_dependents hnodup hstep, ih htail]
    rw [List.count_eq_countP]
    refine (countP_split fun dep _ => ?_).symm
    by_cases hdep : dep = id
    · subst hdep
      simp [hnew]
    · simp [hdep]

theorem releases_mem {steps : List Step} {queue : List String} {id : String}
    (h : id ∈ releases steps queue) : id ∈ steps.map (·.id) := by
  obtain ⟨dep, -, hid⟩ := List.mem_flatMap.mp h
  rw [lookup_dependentsMap] at hid
  obtain ⟨step, hstep, hid⟩ := List.mem_flatMap.mp hid
  exact List.mem_map.mpr ⟨step, hstep, (List.mem_replicate.mp hid).2.symm⟩

theorem stepMap_lookup {steps : List Step} (hnodup : (steps.map (·.id)).Nodup) {step : Step}
    (hstep : step ∈ steps) : ((stepMap steps).lookup step.id).getD {} = step := by
  have hlookup : (stepMap steps).lookup step.id = some step :=
    GoMap.lookup_foldl_insert_of_mem Step.id (fun s => s) hnodup hstep ∅
  rw [hlookup, Option.getD_some]

theorem get_initialInDegree {steps : List Step} (hnodup : (steps.map (·.id)).Nodup) {step : Step}
    (hstep : step ∈ steps) : (initialInDegree steps).get step.id = step.dependsOn.length := by
  have hlookup : (initialInDegree steps).lookup step.id = some (step.dependsOn.length : ℤ) :=
    GoMap.lookup_foldl_insert_of_mem Step.id (fun s => (s.dependsOn.length : ℤ)) hnodup hstep ∅
  rw [GoMap.get, hlookup, Option.getD_some]

variable {w : Workflow}

theorem step_unique (hw : WellFormed w) {a b : Step} (ha : a ∈ w.steps) (hb : b ∈ w.steps)
    (hid : a.id = b.id) : a = b := List.inj_on_of_nodup_map hw.nodup ha hb hid

theorem chain_step_iff (hw : WellFormed w) {step : Step} (hstep : step ∈ w.steps) (k : ℕ) :
    Chain (DependsOn w) (k + 1) step.id ↔ 0 < pending w k step := by
  rw [chain_succ_iff, pending, List.countP_pos_iff]
  constructor
  · rintro ⟨dep, ⟨other, hother, hid, hdep⟩, hchain⟩
    obtain rfl := step_unique hw hother hstep hid
    exact ⟨dep, hdep, by simpa using hchain⟩
  · rintro ⟨dep, hdep, hchain⟩
    exact ⟨dep, ⟨step, hstep, rfl, hdep⟩, by simpa using hchain⟩

/-- The state of the level loop before round `k`. -/
structure AtRound (w : Workflow) (k : ℕ) (p : Levelling) : Prop where
  queueNodup : p.queue.Nodup
  queue : ∀ id, id ∈ p.queue ↔ id ∈ w.steps.map (·.id) ∧ LongestChain (DependsOn w) k id
  inDegree : ∀ step ∈ w.steps, p.inDegree.get step.id = pending w k step
  length : p.stages.length = k
  stage : ∀ j stage, p.stages[j]? = some stage →
    stage ≠ [] ∧ ∀ step ∈ stage, LongestChain (DependsOn w) j step.id
  nodup : p.stages.flatten.Nodup
  below : ∀ step, step ∈ p.stages.flatten ↔
    step ∈ w.steps ∧ ¬ Chain (DependsOn w) k step.id
  emitted : p.emitted = p.stages.flatten.length

theorem atRound_initial (hw : WellFormed w) : AtRound w 0 (initialLevelling w.steps) where
  queueNodup := hw.nodup.filter _
  queue id := by
    simp only [initialLevelling, List.mem_filter, decide_eq_true_eq]
    apply and_congr_right
    intro hid
    obtain ⟨step, hstep, rfl⟩ := List.mem_map.mp hid
    rw [get_initialInDegree hw.nodup hstep, longestChain_iff, chain_step_iff hw hstep]
    have hall : pending w 0 step = step.dependsOn.length := by
      rw [pending, List.countP_eq_length]
      intro dep _
      simpa using Chain.nil dep
    constructor
    · intro hzero
      exact ⟨.nil _, by omega⟩
    · rintro ⟨_, hnone⟩
      omega
  inDegree step hstep := by
    change (initialInDegree w.steps).get step.id = _
    rw [get_initialInDegree hw.nodup hstep, pending, List.countP_eq_length.mpr]
    intro dep _
    simpa using Chain.nil dep
  length := rfl
  stage j stage hstage := by simp [initialLevelling] at hstage
  nodup := by simp [initialLevelling]
  below step := by
    simp only [initialLevelling, List.flatten_nil, List.not_mem_nil, false_iff, not_and, not_not]
    exact fun _ => .nil _
  emitted := rfl

theorem round_eq (steps : List Step) (p : Levelling) :
    p.round (stepMap steps) (dependentsMap steps) =
      { inDegree := ((releases steps p.queue).foldl GoMap.countDown (p.inDegree, [])).1
        queue := ((releases steps p.queue).foldl GoMap.countDown (p.inDegree, [])).2
        stages := p.stages ++ [p.queue.map fun id => ((stepMap steps).lookup id).getD {}]
        emitted := p.emitted + p.queue.length } := by
  rw [releases, List.foldl_flatMap]
  rfl

/-- In a round exactly the entries at the current level are released. -/
theorem pending_split (hw : WellFormed w) {k : ℕ} {p : Levelling} (h : AtRound w k p)
    {step : Step} (hstep : step ∈ w.steps) :
    pending w k step = pending w (k + 1) step + step.dependsOn.countP (· ∈ p.queue) := by
  apply countP_split
  intro dep hdep
  obtain ⟨-, hid⟩ := hw.dependsOn step hstep dep hdep
  have hqueue := h.queue dep
  rw [longestChain_iff] at hqueue
  simp only [decide_eq_true_eq, hqueue, hid, true_and]
  refine ⟨⟨fun hchain => ?_, fun hor => ?_⟩, fun hand => hand.2.2 hand.1⟩
  · by_cases hnext : Chain (DependsOn w) (k + 1) dep
    · exact .inl hnext
    · exact .inr ⟨hchain, hnext⟩
  · rcases hor with hnext | ⟨hchain, -⟩
    · exact hnext.mono (by omega)
    · exact hchain

/-- The steps of the queue, as the stage map returns them. -/
theorem mem_stage (hw : WellFormed w) {k : ℕ} {p : Levelling} (h : AtRound w k p) (step : Step) :
    step ∈ p.queue.map (fun id => ((stepMap w.steps).lookup id).getD {}) ↔
      step ∈ w.steps ∧ LongestChain (DependsOn w) k step.id := by
  rw [List.mem_map]
  constructor
  · rintro ⟨id, hid, heq⟩
    obtain ⟨hmem, hlevel⟩ := (h.queue id).mp hid
    obtain ⟨found, hfound, rfl⟩ := List.mem_map.mp hmem
    rw [stepMap_lookup hw.nodup hfound] at heq
    subst heq
    exact ⟨hfound, hlevel⟩
  · rintro ⟨hstep, hlevel⟩
    refine ⟨step.id, (h.queue _).mpr ⟨List.mem_map_of_mem hstep, hlevel⟩, ?_⟩
    exact stepMap_lookup hw.nodup hstep

theorem AtRound.next (hw : WellFormed w) {k : ℕ} {p : Levelling} (h : AtRound w k p)
    (hne : p.queue ≠ []) :
    AtRound w (k + 1) (p.round (stepMap w.steps) (dependentsMap w.steps)) := by
  rw [round_eq]
  obtain ⟨reported, hreported, hnodup, hmem⟩ :=
    GoMap.foldl_countDown_reported (releases w.steps p.queue) (p.inDegree, [])
  refine ⟨?_, ?_, ?_, ?_, ?_, ?_, ?_, ?_⟩
  · rw [hreported]
    exact hnodup
  · intro id
    rw [hreported, List.nil_append, hmem]
    by_cases hid : id ∈ w.steps.map (·.id)
    · obtain ⟨step, hstep, rfl⟩ := List.mem_map.mp hid
      have hsplit := pending_split hw h hstep
      rw [h.inDegree step hstep, count_releases hw.nodup hstep h.queueNodup, longestChain_iff,
        chain_step_iff hw hstep, chain_step_iff hw hstep]
      simp only [hid, true_and]
      omega
    · have hzero : (releases w.steps p.queue).count id = 0 :=
        List.count_eq_zero.mpr fun hrel => hid (releases_mem hrel)
      simp only [hzero, hid, false_and, iff_false, Nat.cast_zero]
      omega
  · intro step hstep
    have hsplit := pending_split hw h hstep
    rw [GoMap.get_foldl_countDown, h.inDegree step hstep,
      count_releases hw.nodup hstep h.queueNodup]
    omega
  · rw [List.length_append, h.length, List.length_singleton]
  · intro j stage hstage
    by_cases hj : j < p.stages.length
    · rw [List.getElem?_append_left hj] at hstage
      exact h.stage j stage hstage
    · obtain ⟨hlt, -⟩ := List.getElem?_eq_some_iff.mp hstage
      rw [List.length_append, List.length_singleton] at hlt
      obtain rfl : j = p.stages.length := by omega
      rw [List.getElem?_concat_length] at hstage
      obtain rfl := Option.some.inj hstage
      refine ⟨by simpa using hne, fun step hstep => ?_⟩
      rw [h.length]
      exact ((mem_stage hw h step).mp hstep).2
  · rw [List.flatten_append, List.flatten_singleton, List.nodup_append]
    refine ⟨h.nodup, ?_, ?_⟩
    · apply h.queueNodup.map_on
      intro a ha b hb heq
      obtain ⟨sa, hsa, rfl⟩ := List.mem_map.mp ((h.queue a).mp ha).1
      obtain ⟨sb, hsb, rfl⟩ := List.mem_map.mp ((h.queue b).mp hb).1
      rw [stepMap_lookup hw.nodup hsa, stepMap_lookup hw.nodup hsb] at heq
      rw [heq]
    · intro a ha b hb heq
      subst heq
      exact ((h.below a).mp ha).2 ((mem_stage hw h a).mp hb).2.chain
  · intro step
    rw [List.flatten_append, List.flatten_singleton, List.mem_append, h.below, mem_stage hw h,
      longestChain_iff]
    constructor
    · intro hcases
      rcases hcases with ⟨hstep, hlow⟩ | ⟨hstep, -, hmax⟩
      · exact ⟨hstep, fun hchain => hlow (hchain.mono (by omega))⟩
      · exact ⟨hstep, hmax⟩
    · rintro ⟨hstep, hmax⟩
      by_cases hchain : Chain (DependsOn w) k step.id
      · exact .inr ⟨hstep, hchain, hmax⟩
      · exact .inl ⟨hstep, hchain⟩
  · rw [List.flatten_append, List.flatten_singleton, List.length_append, List.length_map,
      h.emitted]

theorem length_le_flatten {α : Type} {l : List (List α)} (h : ∀ x ∈ l, x ≠ []) :
    l.length ≤ l.flatten.length := by
  induction l with
  | nil => simp
  | cons x l ih =>
    obtain ⟨hx, hrest⟩ := List.forall_mem_cons.mp h
    have hpos := List.length_pos_iff.mpr hx
    have hle := ih hrest
    rw [List.length_cons, List.flatten_cons, List.length_append]
    omega

theorem AtRound.flatten_length_le {k : ℕ} {p : Levelling} (h : AtRound w k p) :
    p.stages.flatten.length ≤ w.steps.length := by
  refine (h.nodup.subperm fun step hstep => ?_).length_le
  exact ((h.below step).mp hstep).1

theorem AtRound.round_le {k : ℕ} {p : Levelling} (h : AtRound w k p) : k ≤ w.steps.length := by
  have hstages : ∀ stage ∈ p.stages, stage ≠ [] := by
    intro stage hstage
    obtain ⟨j, hj⟩ := List.mem_iff_getElem?.mp hstage
    exact (h.stage j stage hj).1
  have hle := length_le_flatten hstages
  have hflat := h.flatten_length_le
  have hlength := h.length
  omega

/-- The level loop ends within as many rounds as there are steps, on an empty queue. -/
theorem loop_returns (hw : WellFormed w) (bound : ℕ) {k : ℕ} {p : Levelling}
    (h : AtRound w k p) (hbound : w.steps.length ≤ k + bound) :
    ∃ n q, p.loop (stepMap w.steps) (dependentsMap w.steps) bound = some q ∧ AtRound w n q ∧
      q.queue = [] := by
  induction bound generalizing k p with
  | zero =>
    by_cases hempty : p.queue = []
    · refine ⟨k, p, ?_, h, hempty⟩
      unfold Levelling.loop
      rw [if_pos hempty]
    · have hle := (h.next hw hempty).round_le
      omega
  | succ bound ih =>
    by_cases hempty : p.queue = []
    · refine ⟨k, p, ?_, h, hempty⟩
      unfold Levelling.loop
      rw [if_pos hempty]
    · obtain ⟨n, q, hloop, hq, hdone⟩ := ih (h.next hw hempty) (by omega)
      refine ⟨n, q, ?_, hq, hdone⟩
      unfold Levelling.loop
      rw [if_neg hempty]
      exact hloop

/-- When the loop has ended, the bounded steps are exactly the emitted ones. -/
theorem AtRound.bounded_iff (hw : WellFormed w) {k : ℕ} {p : Levelling} (h : AtRound w k p)
    (hempty : p.queue = []) {step : Step} (hstep : step ∈ w.steps) :
    (∃ n, ¬ Chain (DependsOn w) n step.id) ↔ ¬ Chain (DependsOn w) k step.id := by
  refine ⟨fun ⟨n, hn⟩ hchain => ?_, fun hlow => ⟨k, hlow⟩⟩
  obtain ⟨m, -, hlevel⟩ := exists_longestChain hn
  obtain ⟨id, hreach, hid⟩ := exists_longestChain_of_le hlevel (hlevel.longest k hchain)
  have hmem : id ∈ w.steps.map (·.id) := by
    cases hreach with
    | refl => exact List.mem_map_of_mem hstep
    | tail _ hedge =>
      obtain ⟨other, hother, -, hdep⟩ := hedge
      exact (hw.dependsOn other hother id hdep).2
  have hqueued := (h.queue id).mpr ⟨hmem, hid⟩
  rw [hempty] at hqueued
  cases hqueued

theorem AtRound.perm_of_emitted {k : ℕ} {p : Levelling} (h : AtRound w k p)
    (hemitted : p.emitted = w.steps.length) : p.stages.flatten.Perm w.steps := by
  refine (h.nodup.subperm fun step hstep => ((h.below step).mp hstep).1).perm_of_length_le ?_
  rw [← h.emitted, hemitted]

/-- Planning returns a plan when all chains are bounded, and an error otherwise; the
stages of a plan are the levels. -/
theorem plan_cases (hw : WellFormed w) :
    (∃ p, plan w = some (.ok p) ∧ p.stages.flatten.Perm w.steps ∧
      (∀ k stage, p.stages[k]? = some stage →
        stage ≠ [] ∧ ∀ step ∈ stage, LongestChain (DependsOn w) k step.id) ∧
      ∃ n, ∀ step ∈ w.steps, ¬ Chain (DependsOn w) n step.id) ∨
    (∃ message, plan w = some (.error message)) ∧
      ∃ step ∈ w.steps, ∀ n, Chain (DependsOn w) n step.id := by
  obtain ⟨k, q, hloop, hq, hempty⟩ :=
    loop_returns hw w.steps.length (atRound_initial hw) (by omega)
  unfold plan
  rw [hloop, Option.map_some]
  by_cases hemitted : q.emitted = w.steps.length
  · left
    have hperm := hq.perm_of_emitted hemitted
    refine ⟨⟨w.id, q.stages⟩, by simp [hemitted], hperm, hq.stage, k, fun step hstep => ?_⟩
    exact ((hq.below step).mp (hperm.mem_iff.mpr hstep)).2
  · right
    refine ⟨⟨_, by rw [if_pos hemitted]⟩, ?_⟩
    by_contra hnone
    have hall : w.steps ⊆ q.stages.flatten := by
      intro step hstep
      have hbounded : ∃ n, ¬ Chain (DependsOn w) n step.id := by
        by_contra hchains
        exact hnone ⟨step, hstep, fun n => not_not.mp fun hn => hchains ⟨n, hn⟩⟩
      exact (hq.below step).mpr ⟨hstep, (hq.bounded_iff hw hempty hstep).mp hbounded⟩
    have hge := (hw.nodup.of_map _).subperm hall
    have hle := hq.flatten_length_le
    have hlength := hge.length_le
    rw [hq.emitted] at hemitted
    omega

/-- A cycle of dependencies runs through steps of the workflow. -/
theorem acyclic_of_bounded_steps (h : ∀ step ∈ w.steps, ∃ n, ¬ Chain (DependsOn w) n step.id) :
    Acyclic (DependsOn w) := by
  intro a hcycle
  obtain ⟨b, ⟨step, hstep, hid, -⟩, -⟩ := Relation.TransGen.head'_iff.mp hcycle
  subst hid
  obtain ⟨n, hn⟩ := h step hstep
  exact hn (chain_of_cycle hcycle n)

/-- The search returns, without an error exactly when all chains are bounded. -/
theorem validateDAG_returns (hw : WellFormed w) :
    (validateDAG w = some (.ok ()) ∧
      ∀ step ∈ w.steps, ∃ n, ¬ Chain (DependsOn w) n step.id) ∨
    (∃ message, validateDAG w = some (.error message)) ∧ ¬ Acyclic (DependsOn w) := by
  have hedge : Edge (adjacency w.steps) = DependsOn w := by
    funext a b
    exact propext (edge_iff_dependsOn hw.nodup a b)
  have hcases := validateDAG_cases w
  rw [hedge] at hcases
  rcases hcases with ⟨hok, hacc⟩ | herror
  · refine .inl ⟨hok, fun step hstep => ?_⟩
    refine bounded_of_acc (fun a => ((adjacency w.steps).lookup a).getD []) ?_ (hacc step hstep)
    intro a b hdep
    exact (edge_iff_dependsOn hw.nodup a b).mpr hdep
  · exact .inr herror

theorem validateDAG_ok_iff (hw : WellFormed w) :
    validateDAG w = some (.ok ()) ↔ Acyclic (DependsOn w) := by
  rcases validateDAG_returns hw with ⟨hok, hbounded⟩ | ⟨⟨message, herror⟩, hcycle⟩
  · exact iff_of_true hok (acyclic_of_bounded_steps hbounded)
  · refine iff_of_false ?_ hcycle
    rw [herror]
    simp

theorem plan_ok_iff (hw : WellFormed w) :
    Acyclic (DependsOn w) ↔ ∃ p, plan w = some (.ok p) := by
  rcases plan_cases hw with
    ⟨p, hplan, -, -, n, hbounded⟩ | ⟨⟨message, herror⟩, step, hstep, hchain⟩
  · refine iff_of_true (acyclic_of_bounded_steps fun step hstep => ?_) ⟨p, hplan⟩
    exact ⟨n, hbounded step hstep⟩
  · refine iff_of_false (fun hacyclic => ?_) ?_
    · rcases validateDAG_returns hw with ⟨-, hbounded⟩ | ⟨-, hcycle⟩
      · obtain ⟨n, hn⟩ := hbounded step hstep
        exact hn (hchain n)
      · exact hcycle hacyclic
    · rintro ⟨p, hplan⟩
      rw [herror] at hplan
      cases hplan

/-- For every workflow structural validation accepts, the search and the planner return
and agree with acyclicity, and the stages of a plan partition the steps by the length of
the longest chain that ends at them. -/
theorem planner_correct {wf : WorkflowFile} (h : validate wf = .ok ()) :
    ((∃ r, validateDAG wf.workflow = some r) ∧ ∃ r, plan wf.workflow = some r) ∧
    (validateDAG wf.workflow = some (.ok ()) ↔ Acyclic (DependsOn wf.workflow)) ∧
    (Acyclic (DependsOn wf.workflow) ↔ ∃ p, plan wf.workflow = some (.ok p)) ∧
    ∀ p, plan wf.workflow = some (.ok p) →
      p.stages.flatten.Perm wf.workflow.steps ∧
      (∀ step ∈ wf.workflow.steps, ∃! k : ℕ, ∃ stage, p.stages[k]? = some stage ∧ step ∈ stage) ∧
      ∀ k stage, p.stages[k]? = some stage → stage ≠ [] ∧
        ∀ step ∈ stage, LongestChain (DependsOn wf.workflow) k step.id := by
  have hw := validate_wellFormed h
  refine ⟨⟨?_, ?_⟩, validateDAG_ok_iff hw, plan_ok_iff hw, ?_⟩
  · rcases validateDAG_returns hw with ⟨hok, -⟩ | ⟨⟨_, herror⟩, -⟩
    · exact ⟨_, hok⟩
    · exact ⟨_, herror⟩
  · rcases plan_cases hw with ⟨_, hplan, -⟩ | ⟨⟨_, herror⟩, -⟩
    · exact ⟨_, hplan⟩
    · exact ⟨_, herror⟩
  · intro p hp
    rcases plan_cases hw with ⟨q, hplan, hperm, hstage, -⟩ | ⟨⟨_, herror⟩, -⟩
    · obtain rfl : q = p := by simpa [hplan] using hp
      refine ⟨hperm, fun step hstep => ?_, hstage⟩
      obtain ⟨stage, hmem, hin⟩ := List.mem_flatten.mp (hperm.mem_iff.mpr hstep)
      obtain ⟨k, hk⟩ := List.mem_iff_getElem?.mp hmem
      refine ⟨k, ⟨stage, hk, hin⟩, fun j ⟨other, hj, hin'⟩ => ?_⟩
      exact ((hstage j other hj).2 step hin').unique ((hstage k stage hk).2 step hin)
    · rw [herror] at hp
      cases hp

/-- A chain of three steps, one dependency of it listed twice. -/
def demoFlow : WorkflowFile where
  schemaVersion := "0.1"
  workflow :=
    { id := "demo-flow", name := "Demo"
      steps := [
        { id := "report", agentID := "writer", input := "x", dependsOn := ["fetch", "sift"] },
        { id := "fetch", agentID := "reader", input := "x" },
        { id := "sift", agentID := "reader", input := "x", dependsOn := ["fetch", "fetch"] }] }

theorem demoFlow_planned : validate demoFlow = .ok () ∧
    (validateDAG demoFlow.workflow = some (.ok ()) ↔ Acyclic (DependsOn demoFlow.workflow)) ∧
    ∃ p, plan demoFlow.workflow = some (.ok p) ∧
      p.stages.map (·.map (·.id)) = [["fetch"], ["sift"], ["report"]] ∧
      p.stages.flatten.Perm demoFlow.workflow.steps :=
  ⟨rfl, (planner_correct rfl).2.1, _, rfl, rfl, ((planner_correct rfl).2.2.2 _ rfl).1⟩

end Persatrix.Planner
