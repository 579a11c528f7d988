import Persatrix.Planner
import Persatrix.DependencyChains
import Mathlib.Data.List.Chain
import Mathlib.Data.Finset.Card

/-!
# The coloured search decides acyclicity

At every moment of the search the gray identifiers are the path from the root of
the current tree to the identifier being explored, each linked to the next by the
parent map and by a dependency, and every black identifier rests on dependencies
that bottom out. A gray dependency therefore closes a cycle, and a search that
ends has found none. Each call colours a white identifier, which bounds its depth.
-/
namespace Persatrix.Planner

/-- `a` lists `b` in its row of the adjacency map. -/
def Edge (adj : GoMap String (List String)) (a b : String) : Prop := b ∈ (adj.lookup a).getD []

namespace Search

@[simp] theorem colorOf_paint (s : Search) (id other : String) (c : Color) :
    (s.paint id c).colorOf other = if other = id then c else s.colorOf other := by
  unfold colorOf paint
  rw [GoMap.lookup_insert]
  split_ifs <;> rfl

@[simp] theorem colorOf_setParent (s : Search) (child id other : String) :
    (s.setParent child id).colorOf other = s.colorOf other := rfl

theorem parent_setParent (s : Search) (child id other : String) :
    (s.setParent child id).parent.lookup other =
      if other = child then some id else s.parent.lookup other := by
  rw [setParent, GoMap.lookup_insert]

end Search

section
variable (adj : GoMap String (List String)) (nodes : List String)

/-- `stack` is the path of the search, the identifier being explored first. -/
structure OnPath (stack : List String) (s : Search) : Prop where
  gray : ∀ id, s.colorOf id = .gray ↔ id ∈ stack
  nodup : stack.Nodup
  subset : stack ⊆ nodes
  black : ∀ id, s.colorOf id = .black → Acc (fun b a => Edge adj a b) id
  path : stack.IsChain fun a b => s.parent.lookup a = some b ∧ Edge adj b a

/-- How a call may end: on the same path with its targets black, or with a cycle. -/
def Explored (stack : List String) (s : Search) (targets : List String) :
    Option (Except String Search) → Prop
  | none => False
  | some (.error _) => ¬ Acyclic (Edge adj)
  | some (.ok t) => OnPath adj nodes stack t ∧
      (∀ id, s.colorOf id = .black → t.colorOf id = .black) ∧
      ∀ id ∈ targets, t.colorOf id = .black

/-- The number of identifiers still white. -/
def whites (s : Search) : ℕ := (nodes.toFinset.filter fun id => s.colorOf id = .white).card

end

variable {adj : GoMap String (List String)} {nodes stack : List String} {s t : Search}

theorem Explored.andThen {stack' targets targets' : List String} {s' : Search}
    {call : Option (Except String Search)} {next : Search → Option (Except String Search)}
    (h : Explored adj nodes stack s targets call)
    (hnext : ∀ t, OnPath adj nodes stack t → (∀ id, s.colorOf id = .black → t.colorOf id = .black) →
      (∀ id ∈ targets, t.colorOf id = .black) → Explored adj nodes stack' s' targets' (next t)) :
    Explored adj nodes stack' s' targets' (andThen call next) := by
  cases call with
  | none => exact h
  | some r =>
    cases r with
    | error e => exact h
    | ok t => exact hnext t h.1 h.2.1 h.2.2

theorem Explored.imp {targets targets' : List String} {s' : Search}
    {call : Option (Except String Search)} (h : Explored adj nodes stack s targets call)
    (himp : ∀ t : Search, (∀ id, s.colorOf id = .black → t.colorOf id = .black) →
      (∀ id ∈ targets, t.colorOf id = .black) →
      (∀ id, s'.colorOf id = .black → t.colorOf id = .black) ∧
        ∀ id ∈ targets', t.colorOf id = .black) :
    Explored adj nodes stack s' targets' call := by
  cases call with
  | none => exact h
  | some r =>
    cases r with
    | error e => exact h
    | ok t => exact ⟨h.1, himp t h.2.1 h.2.2⟩

theorem whites_le (hs : OnPath adj nodes stack s) (ht : OnPath adj nodes stack t)
    (hblack : ∀ id, s.colorOf id = .black → t.colorOf id = .black) :
    whites nodes t ≤ whites nodes s := by
  apply Finset.card_le_card
  intro id hid
  obtain ⟨hmem, hwhite⟩ := Finset.mem_filter.mp hid
  refine Finset.mem_filter.mpr ⟨hmem, ?_⟩
  cases hc : s.colorOf id with
  | white => rfl
  | gray =>
    have hgray := (ht.gray id).mpr ((hs.gray id).mp hc)
    rw [hwhite] at hgray
    cases hgray
  | black =>
    have hkept := hblack id hc
    rw [hwhite] at hkept
    cases hkept

theorem whites_paint_lt {id : String} (hid : id ∈ nodes) (hwhite : s.colorOf id = .white) :
    whites nodes (s.paint id .gray) < whites nodes s := by
  refine Finset.card_lt_card ⟨fun other hother => ?_, fun hsub => ?_⟩
  · obtain ⟨hmem, hcolor⟩ := Finset.mem_filter.mp hother
    rw [Search.colorOf_paint] at hcolor
    split_ifs at hcolor
    exact Finset.mem_filter.mpr ⟨hmem, hcolor⟩
  · have hpainted := hsub (Finset.mem_filter.mpr ⟨List.mem_toFinset.mpr hid, hwhite⟩)
    simp at hpainted

theorem OnPath.setParent (h : OnPath adj nodes stack s) {child : String}
    (hwhite : s.colorOf child = .white) (id : String) :
    OnPath adj nodes stack (s.setParent child id) where
  gray := h.gray
  nodup := h.nodup
  subset := h.subset
  black := h.black
  path := by
    apply h.path.imp_of_mem_imp
    intro a b ha _ hab
    have hne : a ≠ child := by
      intro hsame
      subst hsame
      have hgray := (h.gray a).mpr ha
      rw [hwhite] at hgray
      cases hgray
    rw [Search.parent_setParent, if_neg hne]
    exact hab

/-- Entering a white identifier puts it on top of the path. -/
theorem OnPath.enter (h : OnPath adj nodes stack s) {id : String} (hid : id ∈ nodes)
    (hwhite : s.colorOf id = .white)
    (hlink : ∀ top ∈ stack.head?, s.parent.lookup id = some top ∧ Edge adj top id) :
    OnPath adj nodes (id :: stack) (s.paint id .gray) where
  gray other := by
    rw [Search.colorOf_paint, List.mem_cons]
    by_cases hother : other = id
    · simp [hother]
    · simp [hother, h.gray]
  nodup := by
    refine List.nodup_cons.mpr ⟨fun hmem => ?_, h.nodup⟩
    have hgray := (h.gray id).mpr hmem
    rw [hwhite] at hgray
    cases hgray
  subset := List.cons_subset.mpr ⟨hid, h.subset⟩
  black other hother := by
    rw [Search.colorOf_paint] at hother
    split_ifs at hother
    exact h.black other hother
  path := List.isChain_cons.mpr ⟨hlink, h.path⟩

/-- Leaving an identifier whose dependencies are all black makes it black. -/
theorem OnPath.leave {id : String} (h : OnPath adj nodes (id :: stack) s)
    (hdeps : ∀ dep, Edge adj id dep → s.colorOf dep = .black) :
    OnPath adj nodes stack (s.paint id .black) where
  gray other := by
    have hnew : id ∉ stack := (List.nodup_cons.mp h.nodup).1
    rw [Search.colorOf_paint]
    by_cases hother : other = id
    · subst hother
      simp [hnew]
    · simp [hother, h.gray]
  nodup := (List.nodup_cons.mp h.nodup).2
  subset := (List.cons_subset.mp h.subset).2
  black other hother := by
    rw [Search.colorOf_paint] at hother
    split_ifs at hother with hid
    · subst hid
      exact Acc.intro _ fun dep hdep => h.black dep (hdeps dep hdep)
    · exact h.black other hother
  path := (List.isChain_cons.mp h.path).2

/-- The trace of a cycle ends: the parents lead down the path to the gray identifier. -/
theorem trace_isSome {rest : List String} {cur dep : String} {bound : ℕ}
    (hpath : (cur :: rest).IsChain fun a b => s.parent.lookup a = some b ∧ Edge adj b a)
    (hdep : dep ∈ cur :: rest) (hbound : rest.length ≤ bound) :
    ∃ path, s.trace dep bound cur = some path := by
  induction rest generalizing cur bound with
  | nil =>
    obtain rfl : dep = cur := by simpa using hdep
    refine ⟨[], ?_⟩
    unfold Search.trace
    rw [if_pos rfl]
  | cons up rest ih =>
    unfold Search.trace
    by_cases hcur : cur = dep
    · exact ⟨[], by rw [if_pos hcur]⟩
    · rw [if_neg hcur]
      rw [List.length_cons] at hbound
      obtain ⟨bound, rfl⟩ : ∃ n, bound = n + 1 := ⟨bound - 1, by omega⟩
      obtain ⟨⟨hparent, -⟩, htail⟩ := List.isChain_cons_cons.mp hpath
      have hmem : dep ∈ up :: rest := (List.mem_cons.mp hdep).resolve_left (Ne.symm hcur)
      have hle : rest.length ≤ bound := by omega
      obtain ⟨path, hpath'⟩ := ih htail hmem hle
      exact ⟨up :: path, by simp [hparent, hpath']⟩

/-- Every identifier on the path leads to the one on top. -/
theorem reach_top {rest : List String} {cur dep : String} {parent : GoMap String String}
    (hpath : (cur :: rest).IsChain fun a b => parent.lookup a = some b ∧ Edge adj b a)
    (hdep : dep ∈ cur :: rest) : Relation.ReflTransGen (Edge adj) dep cur := by
  induction rest generalizing cur with
  | nil =>
    obtain rfl : dep = cur := by simpa using hdep
    exact .refl
  | cons up rest ih =>
    obtain ⟨⟨-, hedge⟩, htail⟩ := List.isChain_cons_cons.mp hpath
    rcases List.mem_cons.mp hdep with rfl | hdep
    · exact .refl
    · exact (ih htail hdep).tail hedge

/-- A gray dependency closes a cycle, and its report is produced. -/
theorem visit_gray {id dep : String} {bound : ℕ} (h : OnPath adj nodes (id :: stack) s)
    (hbound : nodes.length ≤ bound) (hedge : Edge adj id dep) (hgray : s.colorOf dep = .gray) :
    ¬ Acyclic (Edge adj) ∧ ∃ path, s.trace dep bound id = some path := by
  have hmem := (h.gray dep).mp hgray
  constructor
  · intro hacyclic
    exact hacyclic dep (Relation.TransGen.tail' (reach_top h.path hmem) hedge)
  · apply trace_isSome h.path hmem
    have hle := (h.nodup.subperm h.subset).length_le
    rw [List.length_cons] at hle
    omega

variable {bound : ℕ}

/-- The loop over the dependencies, given what a recursive call does. -/
theorem visit_explored {recur : String → Search → Option (Except String Search)} {depth : ℕ}
    (hbound : nodes.length ≤ bound)
    (hrecur : ∀ stack dep s, OnPath adj nodes stack s → dep ∈ nodes → s.colorOf dep = .white →
      (∀ top ∈ stack.head?, s.parent.lookup dep = some top ∧ Edge adj top dep) →
      whites nodes s ≤ depth → Explored adj nodes stack s [dep] (recur dep s))
    {id : String} (deps : List String) (h : OnPath adj nodes (id :: stack) s)
    (hdeps : ∀ dep ∈ deps, Edge adj id dep ∧ dep ∈ nodes) (hdepth : whites nodes s ≤ depth) :
    Explored adj nodes (id :: stack) s deps (visit recur bound id deps s) := by
  induction deps generalizing s with
  | nil => exact ⟨h, fun _ hblack => hblack, by simp⟩
  | cons dep deps ih =>
    obtain ⟨⟨hedge, hnode⟩, hrest⟩ := List.forall_mem_cons.mp hdeps
    unfold visit
    cases hc : s.colorOf dep with
    | gray =>
      obtain ⟨hcycle, path, hpath⟩ := visit_gray h hbound hedge hc
      simp only [hpath, Option.map_some]
      exact hcycle
    | black =>
      refine (ih h hrest hdepth).imp fun t hkept hblack => ⟨hkept, ?_⟩
      exact List.forall_mem_cons.mpr ⟨hkept dep hc, hblack⟩
    | white =>
      have hparent := h.setParent hc id
      have hlink : ∀ top ∈ (id :: stack).head?,
          (s.setParent dep id).parent.lookup dep = some top ∧ Edge adj top dep := by
        intro top htop
        obtain rfl : id = top := by simpa using htop
        exact ⟨by rw [Search.parent_setParent, if_pos rfl], hedge⟩
      have hcall := hrecur (id :: stack) dep (s.setParent dep id) hparent hnode hc hlink hdepth
      apply hcall.andThen
      intro u hu hkept hblack
      have hle := whites_le hparent hu hkept
      refine (ih hu hrest (hle.trans hdepth)).imp fun t hkept' hblack' => ⟨?_, ?_⟩
      · exact fun other hother => hkept' other (hkept other hother)
      · exact List.forall_mem_cons.mpr ⟨hkept' dep (hblack dep (by simp)), hblack'⟩

/-- A call that has as much depth left as there are white identifiers explores its own. -/
theorem dfs_explored (hbound : nodes.length ≤ bound)
    (hclosed : ∀ a ∈ nodes, ∀ b, Edge adj a b → b ∈ nodes) (depth : ℕ) :
    ∀ stack id s, OnPath adj nodes stack s → id ∈ nodes → s.colorOf id = .white →
      (∀ top ∈ stack.head?, s.parent.lookup id = some top ∧ Edge adj top id) →
      whites nodes s ≤ depth → Explored adj nodes stack s [id] (dfs adj bound depth id s) := by
  induction depth with
  | zero =>
    intro stack id s h hid hwhite _ hdepth
    have hlt := whites_paint_lt hid hwhite
    omega
  | succ depth ih =>
    intro stack id s h hid hwhite hlink hdepth
    have hlt := whites_paint_lt hid hwhite
    have hvisit := visit_explored hbound ih ((adj.lookup id).getD [])
      (h.enter hid hwhite hlink) (fun dep hdep => ⟨hdep, hclosed id hid dep hdep⟩)
      (by omega)
    refine hvisit.andThen fun t ht hkept hblack => ⟨ht.leave hblack, ?_, by simp⟩
    intro other hother
    have hne : other ≠ id := by
      intro hsame
      subst hsame
      rw [hwhite] at hother
      cases hother
    rw [Search.colorOf_paint, if_neg hne]
    exact hkept other (by rw [Search.colorOf_paint, if_neg hne]; exact hother)

theorem exploreSteps_explored (hbound : nodes.length ≤ bound)
    (hclosed : ∀ a ∈ nodes, ∀ b, Edge adj a b → b ∈ nodes) (steps : List Step)
    (hsteps : ∀ step ∈ steps, step.id ∈ nodes) (h : OnPath adj nodes [] s) :
    Explored adj nodes [] s (steps.map (·.id)) (exploreSteps adj bound steps s) := by
  induction steps generalizing s with
  | nil => exact ⟨h, fun _ hblack => hblack, by simp⟩
  | cons step steps ih =>
    obtain ⟨hnode, hrest⟩ := List.forall_mem_cons.mp hsteps
    unfold exploreSteps
    split_ifs with hwhite
    · have hwhites : whites nodes s ≤ bound := by
        have hcard := (Finset.card_filter_le nodes.toFinset fun id => s.colorOf id = .white).trans
          nodes.toFinset_card_le
        exact hcard.trans hbound
      have hcall := dfs_explored hbound hclosed bound [] step.id s h hnode hwhite (by simp)
        hwhites
      apply hcall.andThen
      intro t ht hkept hblack
      refine (ih hrest ht).imp fun u hkept' hblack' => ⟨?_, ?_⟩
      · exact fun other hother => hkept' other (hkept other hother)
      · exact List.forall_mem_cons.mpr ⟨hkept' step.id (hblack step.id (by simp)), hblack'⟩
    · have hdone : s.colorOf step.id = .black := by
        cases hc : s.colorOf step.id with
        | white => exact absurd hc hwhite
        | gray => exact absurd ((h.gray step.id).mp hc) (List.not_mem_nil)
        | black => rfl
      refine (ih hrest h).imp fun t hkept hblack => ⟨hkept, ?_⟩
      exact List.forall_mem_cons.mpr ⟨hkept step.id hdone, hblack⟩

/-- A row of the adjacency map is the list of some step. -/
theorem adjacency_row {steps : List Step} {id : String} {deps : List String}
    (h : (adjacency steps).lookup id = some deps) :
    ∃ step ∈ steps, step.id = id ∧ step.dependsOn = deps := by
  induction steps using List.reverseRecOn with
  | nil => simp [adjacency] at h
  | append_singleton steps step ih =>
    unfold adjacency at h ih
    rw [List.foldl_append, List.foldl_cons, List.foldl_nil, GoMap.lookup_insert] at h
    split_ifs at h with hid
    · exact ⟨step, by simp, hid.symm, Option.some.inj h⟩
    · obtain ⟨other, hother, heq⟩ := ih h
      exact ⟨other, by simp [hother], heq⟩

theorem edge_step {steps : List Step} {a b : String} (h : Edge (adjacency steps) a b) :
    ∃ step ∈ steps, step.id = a ∧ b ∈ step.dependsOn := by
  unfold Edge at h
  cases hrow : (adjacency steps).lookup a with
  | none => simp [hrow] at h
  | some deps =>
    obtain ⟨step, hstep, hid, rfl⟩ := adjacency_row hrow
    exact ⟨step, hstep, hid, by simpa [hrow] using h⟩

/-- The search returns: without an error when everything bottoms out, else with one. -/
theorem validateDAG_cases (w : Workflow) :
    (validateDAG w = some (.ok ()) ∧
      ∀ step ∈ w.steps, Acc (fun b a => Edge (adjacency w.steps) a b) step.id) ∨
    (∃ message, validateDAG w = some (.error message)) ∧ ¬ Acyclic (Edge (adjacency w.steps)) := by
  have hclosed : ∀ a ∈ mentioned w.steps, ∀ b, Edge (adjacency w.steps) a b →
      b ∈ mentioned w.steps := by
    intro a _ b hedge
    obtain ⟨step, hstep, -, hb⟩ := edge_step hedge
    exact List.mem_flatMap.mpr ⟨step, hstep, List.mem_cons_of_mem _ hb⟩
  have hnodes : ∀ step ∈ w.steps, step.id ∈ mentioned w.steps := by
    intro step hstep
    exact List.mem_flatMap.mpr ⟨step, hstep, by simp⟩
  have hstart : OnPath (adjacency w.steps) (mentioned w.steps) [] {} := by
    refine ⟨?_, .nil, by simp, ?_, .nil⟩ <;> simp [Search.colorOf]
  have hall := exploreSteps_explored le_rfl hclosed w.steps hnodes hstart
  unfold validateDAG
  cases hr : exploreSteps (adjacency w.steps) (mentioned w.steps).length w.steps {} with
  | none =>
    rw [hr] at hall
    exact hall.elim
  | some r =>
    rw [hr] at hall
    cases r with
    | error message => exact .inr ⟨⟨message, rfl⟩, hall⟩
    | ok t =>
      refine .inl ⟨rfl, fun step hstep => ?_⟩
      exact hall.1.black _ (hall.2.2 _ (List.mem_map_of_mem hstep))

/-- The step with the first identifier lists the second under `depends_on`. -/
def DependsOn (w : Workflow) (a b : String) : Prop :=
  ∃ step ∈ w.steps, step.id = a ∧ b ∈ step.dependsOn

theorem edge_iff_dependsOn {w : Workflow} (h : (w.steps.map (·.id)).Nodup) (a b : String) :
    Edge (adjacency w.steps) a b ↔ DependsOn w a b := by
  constructor
  · exact edge_step
  · intro ⟨step, hstep, hid, hb⟩
    subst hid
    unfold Edge adjacency
    rw [GoMap.lookup_foldl_insert_of_mem Step.id Step.dependsOn h hstep]
    exact hb

end Persatrix.Planner

/-!
## The cycle that is reported

The parents lead from the identifier being explored down the path to the gray dependency, each by a
dependency of the next. Read backwards, with the dependency at both ends, this is a cycle.
-/
namespace Persatrix.Planner

/-- The text of an error that reports the identifiers. -/
def cycleReport (ids : List String) : String := "cycle detected: " ++ String.intercalate " → " ids

/-- The identifiers begin and end alike, and each depends on the next. -/
structure IsCycle (depends : String → String → Prop) (ids : List String) : Prop where
  long : 2 ≤ ids.length
  closed : ids.head? = ids.getLast?
  chain : ids.IsChain depends

/-- An error of the call reports a cycle. -/
def Reports (adj : GoMap String (List String)) (call : Option (Except String Search)) : Prop :=
  ∀ message, call = some (.error message) →
    ∃ ids, message = cycleReport ids ∧ IsCycle (Edge adj) ids

variable {adj : GoMap String (List String)} {nodes stack : List String} {s : Search}

/-- The trace goes from an identifier to the gray one, each on the row of the next. -/
theorem trace_chain {rest path : List String} {cur dep : String} {bound : ℕ}
    (hpath : (cur :: rest).IsChain fun a b => s.parent.lookup a = some b ∧ Edge adj b a)
    (hdep : dep ∈ cur :: rest) (htrace : s.trace dep bound cur = some path) :
    (cur :: path).IsChain (fun a b => Edge adj b a) ∧ (cur :: path).getLast? = some dep := by
  induction rest generalizing cur bound path with
  | nil =>
    obtain rfl : dep = cur := by simpa using hdep
    unfold Search.trace at htrace
    rw [if_pos rfl] at htrace
    cases htrace
    exact ⟨List.isChain_singleton _, rfl⟩
  | cons up rest ih =>
    unfold Search.trace at htrace
    by_cases hcur : cur = dep
    · rw [if_pos hcur] at htrace
      cases htrace
      exact ⟨List.isChain_singleton _, by rw [hcur]; rfl⟩
    · rw [if_neg hcur] at htrace
      obtain ⟨⟨hparent, hedge⟩, htail⟩ := List.isChain_cons_cons.mp hpath
      cases bound with
      | zero => cases htrace
      | succ bound =>
        simp only [hparent, Option.getD_some] at htrace
        obtain ⟨path, hup, rfl⟩ := Option.map_eq_some_iff.mp htrace
        have hmem := (List.mem_cons.mp hdep).resolve_left (Ne.symm hcur)
        obtain ⟨hchain, hlast⟩ := ih htail hmem hup
        refine ⟨List.isChain_cons_cons.mpr ⟨hedge, hchain⟩, ?_⟩
        rw [List.getLast?_cons_cons]
        exact hlast

/-- What is reported at a gray dependency is a cycle. -/
theorem isCycle_of_gray {id dep : String} {path : List String} {bound : ℕ}
    (h : OnPath adj nodes (id :: stack) s) (hedge : Edge adj id dep)
    (hgray : s.colorOf dep = .gray) (htrace : s.trace dep bound id = some path) :
    IsCycle (Edge adj) (dep :: id :: path).reverse where
  long := by
    rw [List.length_reverse, List.length_cons, List.length_cons]
    omega
  closed := by
    have hlast := (trace_chain h.path ((h.gray dep).mp hgray) htrace).2
    rw [List.head?_reverse, List.getLast?_reverse, List.getLast?_cons_cons, hlast]
    rfl
  chain := by
    have hchain := (trace_chain h.path ((h.gray dep).mp hgray) htrace).1
    rw [List.isChain_reverse]
    exact List.isChain_cons_cons.mpr ⟨hedge, hchain⟩

theorem Reports.andThen {targets : List String} {call : Option (Except String Search)}
    {next : Search → Option (Except String Search)} (h : Reports adj call)
    (hcall : Explored adj nodes stack s targets call)
    (hnext : ∀ t, OnPath adj nodes stack t → (∀ id, s.colorOf id = .black → t.colorOf id = .black) →
      Reports adj (next t)) : Reports adj (andThen call next) := by
  cases call with
  | none => exact h
  | some r =>
    cases r with
    | error e => exact h
    | ok t => exact hnext t hcall.1 hcall.2.1

variable {bound : ℕ}

/-- The loop over the dependencies, given what a recursive call does and reports. -/
theorem visit_reports {recur : String → Search → Option (Except String Search)} {depth : ℕ}
    (hrecur : ∀ stack dep s, OnPath adj nodes stack s → dep ∈ nodes → s.colorOf dep = .white →
      (∀ top ∈ stack.head?, s.parent.lookup dep = some top ∧ Edge adj top dep) →
      whites nodes s ≤ depth →
        Explored adj nodes stack s [dep] (recur dep s) ∧ Reports adj (recur dep s))
    {id : String} (deps : List String) (h : OnPath adj nodes (id :: stack) s)
    (hdeps : ∀ dep ∈ deps, Edge adj id dep ∧ dep ∈ nodes) (hdepth : whites nodes s ≤ depth) :
    Reports adj (visit recur bound id deps s) := by
  induction deps generalizing s with
  | nil =>
    intro message herror
    cases herror
  | cons dep deps ih =>
    obtain ⟨⟨hedge, hnode⟩, hrest⟩ := List.forall_mem_cons.mp hdeps
    unfold visit
    cases hc : s.colorOf dep with
    | gray =>
      intro message herror
      obtain ⟨path, htrace, hmessage⟩ := Option.map_eq_some_iff.mp herror
      cases hmessage
      exact ⟨_, rfl, isCycle_of_gray h hedge hc htrace⟩
    | black => exact ih h hrest hdepth
    | white =>
      have hparent := h.setParent hc id
      have hlink : ∀ top ∈ (id :: stack).head?,
          (s.setParent dep id).parent.lookup dep = some top ∧ Edge adj top dep := by
        intro top htop
        obtain rfl : id = top := by simpa using htop
        exact ⟨by rw [Search.parent_setParent, if_pos rfl], hedge⟩
      obtain ⟨hexplored, hreports⟩ :=
        hrecur (id :: stack) dep (s.setParent dep id) hparent hnode hc hlink hdepth
      refine hreports.andThen hexplored fun t ht hkept => ih ht hrest ?_
      exact (whites_le hparent ht hkept).trans hdepth

theorem dfs_reports (hbound : nodes.length ≤ bound)
    (hclosed : ∀ a ∈ nodes, ∀ b, Edge adj a b → b ∈ nodes) (depth : ℕ) :
    ∀ stack id s, OnPath adj nodes stack s → id ∈ nodes → s.colorOf id = .white →
      (∀ top ∈ stack.head?, s.parent.lookup id = some top ∧ Edge adj top id) →
      whites nodes s ≤ depth → Reports adj (dfs adj bound depth id s) := by
  induction depth with
  | zero =>
    intro stack id s _ _ _ _ _ message herror
    cases herror
  | succ depth ih =>
    intro stack id s h hid hwhite hlink hdepth
    have hle : whites nodes (s.paint id .gray) ≤ depth := by
      have hlt := whites_paint_lt hid hwhite
      omega
    have henter := h.enter hid hwhite hlink
    have hdeps : ∀ dep ∈ (adj.lookup id).getD [], Edge adj id dep ∧ dep ∈ nodes :=
      fun dep hdep => ⟨hdep, hclosed id hid dep hdep⟩
    have hexplored := visit_explored hbound (dfs_explored hbound hclosed depth)
      ((adj.lookup id).getD []) henter hdeps hle
    have hreports : Reports adj (visit (dfs adj bound depth) bound id
        ((adj.lookup id).getD []) (s.paint id .gray)) := by
      refine visit_reports (fun stack dep u hu hnode hwhite hlink hwhites => ⟨?_, ?_⟩) _ henter
        hdeps hle
      · exact dfs_explored hbound hclosed depth stack dep u hu hnode hwhite hlink hwhites
      · exact ih stack dep u hu hnode hwhite hlink hwhites
    refine hreports.andThen hexplored fun t _ _ message herror => ?_
    cases herror

theorem exploreSteps_reports (hbound : nodes.length ≤ bound)
    (hclosed : ∀ a ∈ nodes, ∀ b, Edge adj a b → b ∈ nodes) (steps : List Step)
    (hsteps : ∀ step ∈ steps, step.id ∈ nodes) (h : OnPath adj nodes [] s) :
    Reports adj (exploreSteps adj bound steps s) := by
  induction steps generalizing s with
  | nil =>
    intro message herror
    cases herror
  | cons step steps ih =>
    obtain ⟨hnode, hrest⟩ := List.forall_mem_cons.mp hsteps
    unfold exploreSteps
    split_ifs with hwhite
    · have hwhites : whites nodes s ≤ bound := by
        have hcard := (Finset.card_filter_le nodes.toFinset fun id => s.colorOf id = .white).trans
          nodes.toFinset_card_le
        exact hcard.trans hbound
      have hexplored := dfs_explored hbound hclosed bound [] step.id s h hnode hwhite (by simp)
        hwhites
      have hreports := dfs_reports hbound hclosed bound [] step.id s h hnode hwhite (by simp)
        hwhites
      exact hreports.andThen hexplored fun t ht _ => ih hrest ht
    · exact ih hrest h

/-- The search of any workflow ends, and an error names the identifiers of a cycle in order. -/
theorem validateDAG_reports_cycle (w : Workflow) :
    (∃ r, validateDAG w = some r) ∧
    ∀ message, validateDAG w = some (.error message) →
      ∃ ids, message = cycleReport ids ∧ IsCycle (DependsOn w) ids := by
  constructor
  · rcases validateDAG_cases w with ⟨hok, -⟩ | ⟨⟨message, herror⟩, -⟩
    · exact ⟨_, hok⟩
    · exact ⟨_, herror⟩
  · have hclosed : ∀ a ∈ mentioned w.steps, ∀ b, Edge (adjacency w.steps) a b →
        b ∈ mentioned w.steps := by
      intro a _ b hedge
      obtain ⟨step, hstep, -, hb⟩ := edge_step hedge
      exact List.mem_flatMap.mpr ⟨step, hstep, List.mem_cons_of_mem _ hb⟩
    have hnodes : ∀ step ∈ w.steps, step.id ∈ mentioned w.steps := by
      intro step hstep
      exact List.mem_flatMap.mpr ⟨step, hstep, by simp⟩
    have hstart : OnPath (adjacency w.steps) (mentioned w.steps) [] {} := by
      refine ⟨?_, .nil, by simp, ?_, .nil⟩ <;> simp [Search.colorOf]
    have hreports := exploreSteps_reports le_rfl hclosed w.steps hnodes hstart
    intro message herror
    obtain ⟨r, hr, hmap⟩ := Option.map_eq_some_iff.mp herror
    cases r with
    | ok t => cases hmap
    | error e =>
      cases hmap
      obtain ⟨ids, hmessage, hcycle⟩ := hreports message hr
      exact ⟨ids, hmessage, hcycle.long, hcycle.closed, hcycle.chain.imp fun _ _ => edge_step⟩

end Persatrix.Planner
