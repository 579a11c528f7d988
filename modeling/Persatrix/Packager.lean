import Persatrix.Bytes
import Persatrix.GoValues
import Persatrix.OrderedRows
import Persatrix.Utf8
import Mathlib.Algebra.BigOperators.Group.List.Basic
import Mathlib.Algebra.Order.Ring.Rat
import Mathlib.Data.List.Lex
import Mathlib.Data.Prod.Lex

/-!
# The context packager

Of the candidates for a step's context, the pinned ones are always taken. The others are ranked by
their score for a token, and each is taken if its tokens fit in what is left at its turn. What is
taken is emitted in the order of the candidates.

Scores are values of a linear order with the operations that the source applies to a `float64`; the
scorer is any function.
-/
namespace Persatrix.Packaging

structure Candidate (κ : Type) where
  id : GoString
  content : GoString
  tokens : ℤ
  importance : κ
  pinned : Bool

structure QueryContext where
  stepID : GoString
  input : GoString
  dependsOn : List GoString

structure AdmittedSection where
  id : GoString
  content : GoString
  tokens : ℤ

structure Metrics (κ : Type) where
  tokensBefore : ℤ
  tokensAfter : ℤ
  compressionRatio : κ
  candidatesDropped : ℤ
  warnings : List String

structure Package (κ : Type) where
  version : ℤ
  pinnedSections : List AdmittedSection
  stepOutputs : List AdmittedSection
  metrics : Metrics κ
  budgetMemoryTokens : ℤ

abbrev RelevanceScorer (κ : Type) := Candidate κ → QueryContext → κ

def packageVersion : ℤ := 1

def pinnedOverflowKey : String := "pinned_overflow"

variable {κ : Type}

def Candidate.emitted (c : Candidate κ) : AdmittedSection := ⟨c.id, c.content, c.tokens⟩

/-- The sum of the tokens in a variable of type `int`. -/
def sumTokens (candidates : List (Candidate κ)) : ℤ :=
  candidates.foldl (fun sum c => int64 (sum + c.tokens)) 0

structure Admission where
  remaining : ℤ
  admittedIDs : List GoString := []
  dropped : ℤ := 0

def admitOne (s : Admission) (c : Candidate κ) : Admission :=
  if c.tokens ≤ s.remaining then
    { s with admittedIDs := c.id :: s.admittedIDs, remaining := int64 (s.remaining - c.tokens) }
  else { s with dropped := int64 (s.dropped + 1) }

def competing (candidates : List (Candidate κ)) : List (Candidate κ) :=
  candidates.filter fun c => !c.pinned

def highCompressionRatioThreshold [IntCast κ] : κ := ((4 : ℤ) : κ)

def extremeCompressionCap [IntCast κ] : κ := ((10 : ℤ) : κ)

section Scores
variable [LinearOrder κ] [Div κ] [IntCast κ]

def density (scorer : RelevanceScorer κ) (query : QueryContext) (c : Candidate κ) : κ :=
  if 0 < c.tokens then scorer c query / (c.tokens : κ) else ((0 : ℤ) : κ)

/-- Higher densities come first, then identifiers in the order of their bytes. -/
def rank (scorer : RelevanceScorer κ) (query : QueryContext) (c : Candidate κ) :
    κᵒᵈ ×ₗ List ℕ :=
  toLex (OrderDual.toDual (density scorer query c), c.id.map UInt8.toNat)

/-- The ratio that is reported, with its warnings. -/
def compression (total admitted : ℤ) : κ × List String :=
  if admitted = 0 ∧ total = 0 then (((1 : ℤ) : κ), [])
  else if admitted = 0 then (extremeCompressionCap, ["extreme_compression_capped"])
  else
    let ratio := (total : κ) / (admitted : κ)
    if extremeCompressionCap < ratio then (extremeCompressionCap, ["extreme_compression_capped"])
    else if highCompressionRatioThreshold ≤ ratio then (ratio, ["high_compression_ratio"])
    else (ratio, [])

def ranking (scorer : RelevanceScorer κ) (query : QueryContext)
    (candidates : List (Candidate κ)) : List (Candidate κ) :=
  orderBy (rank scorer query) (competing candidates)

def build (scorer : RelevanceScorer κ) (candidates : List (Candidate κ)) (query : QueryContext)
    (budgetTokens : ℤ) : Package κ :=
  let pinned := candidates.filter (·.pinned)
  let pinnedTokens := sumTokens pinned
  let remaining := max 0 (int64 (budgetTokens - pinnedTokens))
  let admission := (ranking scorer query candidates).foldl admitOne { remaining }
  let kept := (competing candidates).filter fun c => c.id ∈ admission.admittedIDs
  let (ratio, warnings) :=
    @compression κ _ _ _ (sumTokens (competing candidates)) (sumTokens kept)
  { version := packageVersion
    pinnedSections := pinned.map Candidate.emitted
    stepOutputs := kept.map Candidate.emitted
    metrics :=
      { tokensBefore := sumTokens (competing candidates)
        tokensAfter := sumTokens kept
        compressionRatio := ratio
        candidatesDropped := admission.dropped
        warnings := warnings ++ if budgetTokens < pinnedTokens then [pinnedOverflowKey] else [] }
    budgetMemoryTokens := 0 }

end Scores

/-! ### What is taken -/

/-- The tokens, summed without a bound. -/
def tokensOf (l : List (Candidate κ)) : ℤ := (l.map (·.tokens)).sum

/-- The candidates that fit at their turns. -/
def taken : ℤ → List (Candidate κ) → List (Candidate κ)
  | _, [] => []
  | remaining, c :: l =>
    if c.tokens ≤ remaining then c :: taken (int64 (remaining - c.tokens)) l
    else taken remaining l

section Taken
variable {c : Candidate κ} {l : List (Candidate κ)} {remaining : ℤ}

@[simp] theorem tokensOf_nil : tokensOf ([] : List (Candidate κ)) = 0 := rfl

@[simp] theorem tokensOf_cons (c : Candidate κ) (l : List (Candidate κ)) :
    tokensOf (c :: l) = c.tokens + tokensOf l := List.sum_cons

theorem tokensOf_perm {l' : List (Candidate κ)} (h : l.Perm l') : tokensOf l = tokensOf l' :=
  (h.map _).sum_eq

theorem tokensOf_filter_add (p : Candidate κ → Bool) (l : List (Candidate κ)) :
    tokensOf (l.filter p) + tokensOf (l.filter fun c => !p c) = tokensOf l := by
  induction l with
  | nil => rfl
  | cons c l ih =>
    cases hp : p c with
    | true =>
      rw [List.filter_cons_of_pos hp, List.filter_cons_of_neg (by simp [hp]), tokensOf_cons,
        tokensOf_cons]
      omega
    | false =>
      rw [List.filter_cons_of_neg (by simp [hp]), List.filter_cons_of_pos (by simp [hp]),
        tokensOf_cons, tokensOf_cons]
      omega

theorem sumTokens_eq (l : List (Candidate κ)) : sumTokens l = int64 (tokensOf l) := by
  have hfrom : ∀ a : ℤ, l.foldl (fun sum c => int64 (sum + c.tokens)) (int64 a) =
      int64 (a + tokensOf l) := by
    induction l with
    | nil => simp
    | cons c l ih =>
      intro a
      rw [List.foldl_cons, int64_add, ih, tokensOf_cons, add_assoc]
  have h := hfrom 0
  simpa [sumTokens, int64] using h

theorem taken_cons_of_le (h : c.tokens ≤ remaining) :
    taken remaining (c :: l) = c :: taken (int64 (remaining - c.tokens)) l := if_pos h

theorem taken_cons_of_not_le (h : ¬c.tokens ≤ remaining) :
    taken remaining (c :: l) = taken remaining l := if_neg h

theorem taken_sublist (remaining : ℤ) (l : List (Candidate κ)) :
    (taken remaining l).Sublist l := by
  induction l generalizing remaining with
  | nil => exact .slnil
  | cons c l ih =>
    by_cases h : c.tokens ≤ remaining
    · rw [taken_cons_of_le h]
      exact (ih _).cons_cons c
    · rw [taken_cons_of_not_le h]
      exact (ih _).cons c

/-- What the loop has admitted is what is taken from what remained before it. -/
theorem admittedIDs_foldl (l : List (Candidate κ)) (s : Admission) :
    (l.foldl admitOne s).admittedIDs =
      ((taken s.remaining l).map (·.id)).reverse ++ s.admittedIDs := by
  induction l generalizing s with
  | nil => rfl
  | cons c l ih =>
    rw [List.foldl_cons, ih]
    by_cases h : c.tokens ≤ s.remaining
    · simp [admitOne, h, taken_cons_of_le h]
    · simp [admitOne, h, taken_cons_of_not_le h]

theorem int64_le {n : ℤ} (h : 0 ≤ n) : int64 n ≤ n := by
  unfold int64 Int.bmod
  dsimp only
  split_ifs <;> omega

/-- The taken tokens fit: where what remains wraps around, it only becomes less. -/
theorem tokensOf_taken_le {room : ℤ} (hroom : 0 ≤ room) (h : remaining ≤ room) :
    tokensOf (taken remaining l) ≤ room := by
  induction l generalizing remaining room with
  | nil => exact hroom
  | cons c l ih =>
    by_cases hc : c.tokens ≤ remaining
    · rw [taken_cons_of_le hc, tokensOf_cons]
      have hrest : int64 (remaining - c.tokens) ≤ room - c.tokens := by
        have hwrap := int64_le (n := remaining - c.tokens) (by omega)
        omega
      have hnonneg : 0 ≤ room - c.tokens := by omega
      have hle := ih hnonneg hrest
      omega
    · rw [taken_cons_of_not_le hc]
      exact ih hroom h

theorem taken_append (before after : List (Candidate κ)) (hremaining : int64 remaining = remaining) :
    taken remaining (before ++ after) = taken remaining before ++
      taken (int64 (remaining - tokensOf (taken remaining before))) after := by
  induction before generalizing remaining with
  | nil =>
    rw [List.nil_append]
    simp [taken, hremaining]
  | cons c before ih =>
    rw [List.cons_append]
    by_cases h : c.tokens ≤ remaining
    · rw [taken_cons_of_le h, taken_cons_of_le h, ih (by simp [int64]), tokensOf_cons,
        List.cons_append]
      have hleft : int64 (int64 (remaining - c.tokens) -
          tokensOf (taken (int64 (remaining - c.tokens)) before)) =
            int64 (remaining - (c.tokens +
              tokensOf (taken (int64 (remaining - c.tokens)) before))) := by
        rw [sub_eq_add_neg, int64_add, ← sub_eq_add_neg, sub_sub]
      rw [hleft]
    · rw [taken_cons_of_not_le h, taken_cons_of_not_le h, ih hremaining]

/-- Where no two have one value, a part of a list is what the list has of these values. -/
theorem filter_eq_of_sublist {α β : Type} {f : α → β} {s l : List α} {p : α → Bool}
    (h : s.Sublist l) (hnodup : (l.map f).Nodup) (hp : ∀ a ∈ l, p a = true ↔ f a ∈ s.map f) :
    l.filter p = s := by
  induction h with
  | slnil => rfl
  | @cons s l a hsub ih =>
    obtain ⟨hhead, htail⟩ := List.nodup_cons.mp hnodup
    obtain ⟨hpa, hpl⟩ := List.forall_mem_cons.mp hp
    have hnot : ¬p a = true := fun h => hhead ((hsub.map f).subset (hpa.mp h))
    rw [List.filter_cons_of_neg hnot, ih htail hpl]
  | @cons_cons s l a hsub ih =>
    obtain ⟨hhead, htail⟩ := List.nodup_cons.mp hnodup
    obtain ⟨hpa, hpl⟩ := List.forall_mem_cons.mp hp
    rw [List.filter_cons_of_pos (hpa.mpr List.mem_cons_self)]
    congr 1
    refine ih htail fun b hb => (hpl b hb).trans ?_
    have hne : f b ≠ f a := fun heq => hhead (heq ▸ List.mem_map_of_mem hb)
    rw [List.map_cons, List.mem_cons, or_iff_right hne]

end Taken

/-! ### The package -/

/-- What the pinned candidates leave of the budget, in a variable of type `int`. -/
def room (candidates : List (Candidate κ)) (budgetTokens : ℤ) : ℤ :=
  max 0 (int64 (budgetTokens - tokensOf (candidates.filter (·.pinned))))

/-- The package has a section of this identifier among the step outputs. -/
def Package.admits (pkg : Package κ) (c : Candidate κ) : Bool := c.id ∈ pkg.stepOutputs.map (·.id)

theorem int64_room (candidates : List (Candidate κ)) (budgetTokens : ℤ) :
    int64 (room candidates budgetTokens) = room candidates budgetTokens := by
  have hrange := int64_range (budgetTokens - tokensOf (candidates.filter (·.pinned)))
  unfold room
  exact int64_of_fits (by omega) (by omega)

theorem room_eq (candidates : List (Candidate κ)) (budgetTokens : ℤ) :
    max 0 (int64 (budgetTokens - sumTokens (candidates.filter (·.pinned)))) =
      room candidates budgetTokens := by
  rw [sumTokens_eq, room]
  congr 1
  simp [int64]

theorem nodup_competing {candidates : List (Candidate κ)} (h : (candidates.map (·.id)).Nodup) :
    ((competing candidates).map (·.id)).Nodup :=
  h.sublist (List.filter_sublist.map _)

section Built
variable [LinearOrder κ] [Div κ] [IntCast κ]

/-- The package is one for the candidates under the budget. -/
structure Packed (scorer : RelevanceScorer κ) (candidates : List (Candidate κ))
    (query : QueryContext) (budgetTokens : ℤ) (pkg : Package κ) : Prop where
  pinned : pkg.pinnedSections = (candidates.filter (·.pinned)).map Candidate.emitted
  outputs : ∃ kept : List (Candidate κ), kept.Sublist (competing candidates) ∧
    pkg.stepOutputs = kept.map Candidate.emitted
  within : (pkg.stepOutputs.map (·.tokens)).sum ≤ room candidates budgetTokens
  withinExact : -2 ^ 63 ≤ budgetTokens - tokensOf (candidates.filter (·.pinned)) →
    budgetTokens - tokensOf (candidates.filter (·.pinned)) < 2 ^ 63 →
    (pkg.stepOutputs.map (·.tokens)).sum ≤
      max 0 (budgetTokens - tokensOf (candidates.filter (·.pinned)))
  turn : ∀ before c after, ranking scorer query candidates = before ++ c :: after →
    (pkg.admits c ↔ c.tokens ≤
      int64 (room candidates budgetTokens - tokensOf (before.filter pkg.admits)))
  account : pkg.metrics.tokensBefore = int64 (pkg.metrics.tokensAfter +
    tokensOf ((competing candidates).filter fun c => !pkg.admits c))

variable {scorer : RelevanceScorer κ} {candidates : List (Candidate κ)} {query : QueryContext}
  {budgetTokens : ℤ}

/-- The candidates that are taken, in the order of the ranking. -/
def chosen (scorer : RelevanceScorer κ) (candidates : List (Candidate κ)) (query : QueryContext)
    (budgetTokens : ℤ) : List (Candidate κ) :=
  taken (room candidates budgetTokens) (ranking scorer query candidates)

theorem nodup_ranking (h : (candidates.map (·.id)).Nodup) :
    ((ranking scorer query candidates).map (·.id)).Nodup :=
  (((perm_orderBy _ _).map _).nodup_iff).mpr (nodup_competing h)

theorem kept_build :
    (competing candidates).filter (fun c => c.id ∈
      ((ranking scorer query candidates).foldl admitOne
        { remaining := max 0 (int64 (budgetTokens - sumTokens (candidates.filter (·.pinned)))) }
        ).admittedIDs) =
    (competing candidates).filter fun c =>
      c.id ∈ (chosen scorer candidates query budgetTokens).map (·.id) := by
  rw [room_eq]
  refine List.filter_congr fun c _ => ?_
  simp [admittedIDs_foldl, chosen]

/-- The package has what is taken. -/
theorem admits_build (c : Candidate κ) :
    (build scorer candidates query budgetTokens).admits c = true ↔
      c.id ∈ (chosen scorer candidates query budgetTokens).map (·.id) := by
  have houtputs : (build scorer candidates query budgetTokens).stepOutputs =
      ((competing candidates).filter fun c =>
        c.id ∈ (chosen scorer candidates query budgetTokens).map (·.id)).map Candidate.emitted :=
    congrArg (List.map Candidate.emitted) kept_build
  unfold Package.admits
  rw [decide_eq_true_eq, houtputs, List.map_map]
  constructor
  · intro h
    obtain ⟨d, hd, hid⟩ := List.mem_map.mp h
    rw [← hid]
    exact of_decide_eq_true (List.mem_filter.mp hd).2
  · intro h
    obtain ⟨d, hd, hid⟩ := List.mem_map.mp h
    have hmem : d ∈ competing candidates :=
      mem_orderBy.mp ((taken_sublist _ _).subset hd)
    refine List.mem_map.mpr ⟨d, List.mem_filter.mpr ⟨hmem, ?_⟩, hid⟩
    exact decide_eq_true (List.mem_map_of_mem hd)

theorem filter_ranking (h : (candidates.map (·.id)).Nodup) :
    (ranking scorer query candidates).filter
        (build scorer candidates query budgetTokens).admits =
      chosen scorer candidates query budgetTokens :=
  filter_eq_of_sublist (taken_sublist _ _) (nodup_ranking h) fun c _ => admits_build c

/-- A candidate is taken if it fits in what those before it in the ranking leave. -/
theorem turn_build (h : (candidates.map (·.id)).Nodup) {before after : List (Candidate κ)}
    {c : Candidate κ} (hranking : ranking scorer query candidates = before ++ c :: after) :
    (build scorer candidates query budgetTokens).admits c ↔ c.tokens ≤
      int64 (room candidates budgetTokens -
        tokensOf (before.filter (build scorer candidates query budgetTokens).admits)) := by
  have hnodup := @nodup_ranking κ _ _ _ scorer candidates query h
  rw [hranking, List.map_append, List.map_cons, List.nodup_append] at hnodup
  obtain ⟨hbefore, hafter, hdisjoint⟩ := hnodup
  have hchosen : chosen scorer candidates query budgetTokens =
      taken (room candidates budgetTokens) before ++
        taken (int64 (room candidates budgetTokens -
          tokensOf (taken (room candidates budgetTokens) before))) (c :: after) := by
    rw [chosen, hranking, taken_append _ _ (int64_room _ _)]
  have hids : ∀ d : Candidate κ, d ∈ before → d.id ≠ c.id := by
    intro d hd
    exact hdisjoint _ (List.mem_map_of_mem hd) _ List.mem_cons_self
  have hkept : before.filter (build scorer candidates query budgetTokens).admits =
      taken (room candidates budgetTokens) before := by
    refine filter_eq_of_sublist (taken_sublist _ _) hbefore fun d hd => ?_
    have hlater : d.id ∉ (taken (int64 (room candidates budgetTokens -
        tokensOf (taken (room candidates budgetTokens) before))) (c :: after)).map (·.id) := by
      intro hmem
      have hsub := (taken_sublist (int64 (room candidates budgetTokens -
        tokensOf (taken (room candidates budgetTokens) before))) (c :: after)).map (·.id)
      exact hdisjoint _ (List.mem_map_of_mem hd) _ (hsub.subset hmem) rfl
    rw [admits_build, hchosen, List.map_append, List.mem_append, or_iff_left hlater]
  rw [hkept, admits_build, hchosen, List.map_append, List.mem_append]
  constructor
  · intro hmem
    by_contra hfit
    rw [taken_cons_of_not_le hfit] at hmem
    rcases hmem with hmem | hmem
    · obtain ⟨d, hd, hid⟩ := List.mem_map.mp hmem
      exact hids d ((taken_sublist _ _).subset hd) hid
    · obtain ⟨d, hd, hid⟩ := List.mem_map.mp hmem
      refine (List.nodup_cons.mp hafter).1 ?_
      rw [← hid]
      exact List.mem_map_of_mem ((taken_sublist _ _).subset hd)
  · intro hfit
    right
    rw [taken_cons_of_le hfit]
    exact List.mem_cons_self

theorem tokensOf_kept (h : (candidates.map (·.id)).Nodup) :
    tokensOf ((competing candidates).filter
        (build scorer candidates query budgetTokens).admits) =
      tokensOf (chosen scorer candidates query budgetTokens) := by
  rw [← filter_ranking h]
  exact tokensOf_perm ((perm_orderBy (rank scorer query) (competing candidates)).filter _).symm

theorem kept_eq :
    (competing candidates).filter (fun c => c.id ∈
      ((ranking scorer query candidates).foldl admitOne
        { remaining := max 0 (int64 (budgetTokens - sumTokens (candidates.filter (·.pinned)))) }
        ).admittedIDs) =
    (competing candidates).filter (build scorer candidates query budgetTokens).admits := by
  rw [kept_build]
  refine List.filter_congr fun c _ => ?_
  rw [Bool.eq_iff_iff, decide_eq_true_eq, admits_build]

theorem stepOutputs_build : (build scorer candidates query budgetTokens).stepOutputs =
    ((competing candidates).filter
      (build scorer candidates query budgetTokens).admits).map Candidate.emitted :=
  congrArg (List.map Candidate.emitted) kept_eq

theorem tokensAfter_build : (build scorer candidates query budgetTokens).metrics.tokensAfter =
    int64 (tokensOf ((competing candidates).filter
      (build scorer candidates query budgetTokens).admits)) :=
  (congrArg sumTokens kept_eq).trans (sumTokens_eq _)

/-- The order of the ranking leaves no choice between candidates of distinct identifiers. -/
theorem ranking_perm {candidates' : List (Candidate κ)} (h : (candidates.map (·.id)).Nodup)
    (hperm : candidates'.Perm candidates) :
    ranking scorer query candidates' = ranking scorer query candidates := by
  have hbytes : Function.Injective fun id : GoString => id.map UInt8.toNat :=
    List.map_injective_iff.mpr fun _ _ => UInt8.toNat_inj.mp
  have hnodup : ((ranking scorer query candidates).map (rank scorer query)).Nodup := by
    apply List.Nodup.of_map fun key => (ofLex key).2
    rw [List.map_map]
    have hids := (@nodup_ranking κ _ _ _ scorer candidates query h).map hbytes
    rwa [List.map_map] at hids
  have hsame : (ranking scorer query candidates').Perm (ranking scorer query candidates) :=
    (perm_orderBy _ _).trans ((hperm.filter _).trans (perm_orderBy _ _).symm)
  exact eq_of_perm_of_pairwise hsame hnodup (pairwise_orderBy _ _) (pairwise_orderBy _ _)

/-- With distinct identifiers, the package is one for the candidates, and in any other order of the
candidates it has the same step outputs. -/
theorem build_packed (h : (candidates.map (·.id)).Nodup) :
    Packed scorer candidates query budgetTokens (build scorer candidates query budgetTokens) ∧
    ∀ candidates', candidates'.Perm candidates → ∀ c,
      (build scorer candidates' query budgetTokens).admits c =
        (build scorer candidates query budgetTokens).admits c := by
  constructor
  · have hwithin : ((build scorer candidates query budgetTokens).stepOutputs.map (·.tokens)).sum ≤
        room candidates budgetTokens := by
      rw [stepOutputs_build, List.map_map]
      exact (tokensOf_kept h).le.trans (tokensOf_taken_le (le_max_left _ _) le_rfl)
    refine ⟨rfl, ⟨_, List.filter_sublist, stepOutputs_build⟩, hwithin, ?_,
      fun _ _ _ => turn_build h, ?_⟩
    · intro hlow hhigh
      rw [room, int64_of_fits hlow hhigh] at hwithin
      exact hwithin
    · rw [tokensAfter_build, int64_add, tokensOf_filter_add]
      exact sumTokens_eq _
  · intro candidates' hperm c
    have hroom : room candidates' budgetTokens = room candidates budgetTokens := by
      unfold room
      rw [tokensOf_perm (hperm.filter _)]
    rw [Bool.eq_iff_iff, admits_build, admits_build, chosen, chosen, hroom, ranking_perm h hperm]

/-! ### The package of a step -/

/-- About a token for four characters. -/
def estimateTokens (s : GoString) : ℤ :=
  if s = [] then 0 else max 1 ((pieces s).length / 4 : ℕ)

def contextPackageKey : GoString := ascii "_context_package"

/-- The outputs in the order of their keys. -/
def contextCandidates (outputs : GoMap GoString GoString) : List (Candidate κ) :=
  ((orderBy (fun key => key.map UInt8.toNat) outputs.keys).filter (· ≠ contextPackageKey)).map
    fun key =>
      let content := (outputs.lookup key).getD []
      { id := key
        content := content
        tokens := estimateTokens content
        importance := ((1 : ℤ) : κ) / ((2 : ℤ) : κ)
        pinned := false }

def attachContextPackage (scorer : RelevanceScorer κ) (outputs : GoMap GoString GoString)
    (query : QueryContext) (budgetTokens : ℤ) : Package κ :=
  build scorer (contextCandidates outputs) query budgetTokens

/-- The keys of the outputs are distinct identifiers, so what a step is given is a package. -/
theorem attachContextPackage_packed (scorer : RelevanceScorer κ)
    (outputs : GoMap GoString GoString) (query : QueryContext) (budgetTokens : ℤ) :
    Packed scorer (contextCandidates outputs) query budgetTokens
      (attachContextPackage scorer outputs query budgetTokens) := by
  have hids : (contextCandidates (κ := κ) outputs).map (·.id) =
      (orderBy (fun key => key.map UInt8.toNat) outputs.keys).filter (· ≠ contextPackageKey) := by
    rw [contextCandidates, List.map_map]
    exact List.map_id _
  refine (build_packed ?_).1
  rw [hids]
  exact ((perm_orderBy _ _).nodup_iff.mpr outputs.keys_nodup).filter _

end Built

def noteCandidate (id : String) (tokens : ℤ) (pinned : Bool) : Candidate ℚ where
  id := ascii id
  content := ascii "text"
  tokens := tokens
  importance := 1 / 2
  pinned := pinned

/-- Two outputs of one density and a pinned one. -/
def noteCandidates : List (Candidate ℚ) :=
  [noteCandidate "sift" 4 false, noteCandidate "rules" 3 true, noteCandidate "fetch" 4 false]

theorem noteCandidates_packed :
    Packed (fun _ _ => 1) noteCandidates ⟨[], [], []⟩ 8
      (build (fun _ _ => 1) noteCandidates ⟨[], [], []⟩ 8) ∧
    ∀ candidates', candidates'.Perm noteCandidates → ∀ c,
      (build (fun _ _ => 1) candidates' ⟨[], [], []⟩ 8).admits c =
        (build (fun _ _ => 1) noteCandidates ⟨[], [], []⟩ 8).admits c :=
  build_packed (by decide)

/-- The identifiers decide between the outputs. -/
example : (build (fun _ _ => 1) noteCandidates ⟨[], [], []⟩ 8).stepOutputs.map (·.id) =
    [ascii "fetch"] := by
  decide +kernel

end Persatrix.Packaging
