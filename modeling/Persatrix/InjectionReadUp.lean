import Persatrix.InjectionGate

/-!
# No read-up at memory injection

What the gate does with a candidate depends on the candidate alone; only what was withheld for
its audience is remembered, under its tier and its id. So the lists that are injected are
described candidate by candidate.
-/
namespace Persatrix.Agents

/-! ### The decision for one candidate -/

/-- The audience condition lets an entry at the level pass. -/
def audienceAllows (audience : Option TurnAudience) (tier level : String)
    (sourceChannelID : Option String) : Bool :=
  match audience.bind fun a => (a.verdict tier level sourceChannelID).map fun v => (a, v) with
  | none => true
  | some (a, verdict) => !(a.enforcing && decide (verdict ∈ enforcedVerdicts))

/-- The level of an entry, if its rank is at most the acting one. -/
def readable (acting : Option String) (entry : Episode) : Option String :=
  (entryRankOrWithhold entry.protectionLevel).bind fun rank =>
    if actingRank acting < rank then none else entry.protectionLevel

/-- The decision of the gate for an entry. -/
def admits (acting : Option String) (audience : Option TurnAudience) (tier : String)
    (entry : Episode) : Bool :=
  (readable acting entry).any fun level => audienceAllows audience tier level entry.sourceChannelID

/-- The entry is withheld for its audience. -/
def terminates (acting : Option String) (audience : Option TurnAudience) (tier : String)
    (entry : Episode) : Bool :=
  (readable acting entry).any fun level =>
    !audienceAllows audience tier level entry.sourceChannelID

namespace TurnInjectionGate

/-- The gate after a step that leaves all but its records as they are. -/
structure Same (g h : TurnInjectionGate) : Prop where
  acting : h.acting = g.acting
  audience : h.audience = g.audience
  decisions : h.decisions = g.decisions

/-- One judgement: its answer, and what it leaves on the gate. -/
theorem judgeAudience_eq (g : TurnInjectionGate) (tier id level : String)
    (source : Option String) :
    (g.judgeAudience tier id level source).1 = audienceAllows g.audience tier level source ∧
      Same g (g.judgeAudience tier id level source).2 ∧
      (g.judgeAudience tier id level source).2.audienceTerminal =
        if audienceAllows g.audience tier level source then g.audienceTerminal
        else insert (tier, id) g.audienceTerminal := by
  rcases Option.eq_none_or_eq_some g.audience with haudience | ⟨a, haudience⟩
  · have hresult : g.judgeAudience tier id level source = (true, g) := by
      simp only [judgeAudience, haudience]
    have hallows : audienceAllows g.audience tier level source = true := by
      simp [audienceAllows, haudience]
    rw [hresult, hallows]
    exact ⟨rfl, ⟨rfl, rfl, rfl⟩, rfl⟩
  · rcases Option.eq_none_or_eq_some (a.verdict tier level source) with hverdict | ⟨verdict, hverdict⟩
    · have hresult : g.judgeAudience tier id level source = (true, g) := by
        simp only [judgeAudience, haudience, hverdict]
      have hallows : audienceAllows g.audience tier level source = true := by
        simp [audienceAllows, haudience, hverdict]
      rw [hresult, hallows]
      exact ⟨rfl, ⟨rfl, rfl, rfl⟩, rfl⟩
    · by_cases henforced : a.enforcing = true ∧ verdict ∈ enforcedVerdicts
      · have hresult : ∃ h, g.judgeAudience tier id level source = (false, h) ∧ Same g h ∧
            h.audienceTerminal = insert (tier, id) g.audienceTerminal := by
          simp only [judgeAudience, haudience, hverdict, if_pos henforced]
          exact ⟨_, rfl, ⟨rfl, haudience.symm, rfl⟩, rfl⟩
        have hallows : audienceAllows g.audience tier level source = false := by
          simp [audienceAllows, haudience, hverdict, henforced]
        obtain ⟨h, heq, hsame, hterminal⟩ := hresult
        rw [heq, hallows]
        exact ⟨rfl, hsame, hterminal⟩
      · have hresult : ∃ h, g.judgeAudience tier id level source = (true, h) ∧ Same g h ∧
            h.audienceTerminal = g.audienceTerminal := by
          simp only [judgeAudience, haudience, hverdict, if_neg henforced]
          exact ⟨_, rfl, ⟨rfl, haudience.symm, rfl⟩, rfl⟩
        have hallows : audienceAllows g.audience tier level source = true := by
          rcases not_and_or.mp henforced with h | h <;> simp [audienceAllows, haudience, hverdict, h]
        obtain ⟨h, heq, hsame, hterminal⟩ := hresult
        rw [heq, hallows]
        exact ⟨rfl, hsame, hterminal⟩

theorem admitEntry_eq (g : TurnInjectionGate) (tier : String) (entry : Episode) :
    (g.admitEntry tier entry).1 = admits g.acting g.audience tier entry ∧
      Same g (g.admitEntry tier entry).2 ∧
      (g.admitEntry tier entry).2.audienceTerminal =
        if terminates g.acting g.audience tier entry then
          insert (tier, entry.id) g.audienceTerminal
        else g.audienceTerminal := by
  unfold admitEntry admits terminates
  cases hlevel : entry.protectionLevel with
  | none =>
    have hunreadable : readable g.acting entry = none := by
      rw [readable, hlevel]
      rfl
    rw [hunreadable]
    exact ⟨rfl, ⟨rfl, rfl, rfl⟩, rfl⟩
  | some level =>
    cases hrank : entryRankOrWithhold (some level) with
    | none =>
      have hunreadable : readable g.acting entry = none := by
        rw [readable, hlevel, hrank]
        rfl
      rw [hunreadable]
      exact ⟨rfl, ⟨rfl, rfl, rfl⟩, rfl⟩
    | some rank =>
      have hreadable : readable g.acting entry =
          if actingRank g.acting < rank then none else some level := by
        rw [readable, hlevel, hrank]
        rfl
      rw [hreadable]
      dsimp only
      split_ifs with habove hterminates hterminates
      · cases hterminates
      · exact ⟨rfl, ⟨rfl, rfl, rfl⟩, rfl⟩
      all_goals
        obtain ⟨hfst, hsame, hterminal⟩ :=
          g.judgeAudience_eq tier entry.id level entry.sourceChannelID
        rw [Option.any_some] at hterminates ⊢
        rw [← hfst] at hterminal hterminates ⊢
        generalize g.judgeAudience tier entry.id level entry.sourceChannelID = judged at *
        obtain ⟨ok, h⟩ := judged
        cases ok
      · exact ⟨rfl, hsame, hterminal⟩
      · cases hterminates
      · exact absurd rfl hterminates
      · exact ⟨rfl, ⟨hsame.acting, hsame.audience, hsame.decisions⟩, hterminal⟩

theorem decisionsOf_recordDecision (g : TurnInjectionGate) (tier tier' : String) (entry : Episode)
    (admitted : Bool) :
    (g.recordDecision tier entry admitted).decisionsOf tier' =
      g.decisionsOf tier' ++ if tier' = tier then [(entry, admitted)] else [] := by
  unfold recordDecision decisionsOf
  dsimp only
  rw [GoMap.lookup_insert]
  split_ifs with h
  · rw [h]
    rfl
  · rw [List.append_nil]

theorem Same.decisionsOf {g h : TurnInjectionGate} (hsame : Same g h) (tier : String) :
    h.decisionsOf tier = g.decisionsOf tier := by
  unfold TurnInjectionGate.decisionsOf
  rw [hsame.decisions]

/-- The gate after the entries of one tier. -/
structure Filtered (g : TurnInjectionGate) (tier : String) (entries : List Episode)
    (result : List Episode × TurnInjectionGate) : Prop where
  admitted : result.1 = entries.filter (admits g.acting g.audience tier)
  acting : result.2.acting = g.acting
  audience : result.2.audience = g.audience
  decisions : ∀ tier', result.2.decisionsOf tier' = g.decisionsOf tier' ++
    if tier' = tier then entries.map fun e => (e, admits g.acting g.audience tier e) else []
  terminal : ∀ x, x ∈ result.2.audienceTerminal ↔ x ∈ g.audienceTerminal ∨
    ∃ e ∈ entries, terminates g.acting g.audience tier e = true ∧ x = (tier, e.id)

theorem filtered (tier : String) (g : TurnInjectionGate) (entries : List Episode) :
    Filtered g tier entries (filterEntries tier g entries) := by
  induction entries generalizing g with
  | nil => exact ⟨rfl, rfl, rfl, by simp [filterEntries], by simp [filterEntries]⟩
  | cons entry entries ih =>
    obtain ⟨hfst, hsame, hterminal⟩ := g.admitEntry_eq tier entry
    rw [filterEntries]
    generalize g.admitEntry tier entry = step at *
    obtain ⟨ok, h⟩ := step
    dsimp only at *
    have hrest := ih (h.recordDecision tier entry ok)
    generalize filterEntries tier (h.recordDecision tier entry ok) entries = rest at *
    obtain ⟨admitted, last⟩ := rest
    have hacting : (h.recordDecision tier entry ok).acting = g.acting := hsame.acting
    have haudience : (h.recordDecision tier entry ok).audience = g.audience := hsame.audience
    have hstart : (h.recordDecision tier entry ok).audienceTerminal = h.audienceTerminal := rfl
    have hadmitted := hrest.admitted
    have hdecisions := hrest.decisions
    have hlast := hrest.terminal
    rw [hacting, haudience] at hadmitted hdecisions hlast
    dsimp only at *
    constructor
    · rw [List.filter_cons, ← hfst, hadmitted]
    · exact hrest.acting.trans hacting
    · exact hrest.audience.trans haudience
    · intro tier'
      rw [hdecisions, decisionsOf_recordDecision, hsame.decisionsOf, List.append_assoc, hfst]
      split_ifs <;> simp
    · intro x
      rw [hlast, hstart, hterminal]
      split_ifs with ht
      · simp only [Finset.mem_insert, List.exists_mem_cons_iff, ht, true_and]
        tauto
      · simp [ht]

end TurnInjectionGate

/-- The candidates of a tier over a sequence of calls. -/
def candidates (calls : List (String × List Episode)) (tier : String) : List Episode :=
  calls.flatMap fun c => if c.1 = tier then c.2 else []

theorem candidates_cons (tier' : String) (entries : List Episode)
    (calls : List (String × List Episode)) (tier : String) :
    candidates ((tier', entries) :: calls) tier =
      (if tier' = tier then entries else []) ++ candidates calls tier := List.flatMap_cons

namespace TurnInjectionGate

/-- The gate after a sequence of calls. -/
structure FilteredAll (g : TurnInjectionGate) (calls : List (String × List Episode))
    (result : List (List Episode) × TurnInjectionGate) : Prop where
  admitted : result.1 = calls.map fun c => c.2.filter (admits g.acting g.audience c.1)
  acting : result.2.acting = g.acting
  audience : result.2.audience = g.audience
  decisions : ∀ tier, result.2.decisionsOf tier = g.decisionsOf tier ++
    (candidates calls tier).map fun e => (e, admits g.acting g.audience tier e)
  terminal : ∀ x : String × String, x ∈ result.2.audienceTerminal ↔ x ∈ g.audienceTerminal ∨
    ∃ e ∈ candidates calls x.1, terminates g.acting g.audience x.1 e = true ∧ x.2 = e.id

theorem filteredAll (g : TurnInjectionGate) (calls : List (String × List Episode)) :
    FilteredAll g calls (filterAll g calls) := by
  induction calls generalizing g with
  | nil => exact ⟨rfl, rfl, rfl, by simp [filterAll, candidates], by simp [filterAll, candidates]⟩
  | cons c calls ih =>
    obtain ⟨tier, entries⟩ := c
    rw [filterAll]
    have hfirst := filtered tier g entries
    generalize filterEntries tier g entries = first at *
    obtain ⟨admitted, h⟩ := first
    have hacting : h.acting = g.acting := hfirst.acting
    have haudience : h.audience = g.audience := hfirst.audience
    have hrest := ih h
    dsimp only at *
    generalize filterAll h calls = rest at *
    obtain ⟨lists, last⟩ := rest
    have hlists := hrest.admitted
    have hdecisions := hrest.decisions
    have hterminal := hrest.terminal
    rw [hacting, haudience] at hlists hdecisions hterminal
    dsimp only at hlists hdecisions hterminal
    constructor
    · rw [List.map_cons, ← hlists]
      exact congrArg (· :: lists) hfirst.admitted
    · exact hrest.acting.trans hacting
    · exact hrest.audience.trans haudience
    · intro tier'
      rw [hdecisions, hfirst.decisions, List.append_assoc, candidates_cons, List.map_append]
      by_cases htier : tier' = tier
      · rw [if_pos htier, if_pos htier.symm, htier]
      · rw [if_neg htier, if_neg (Ne.symm htier)]
        rfl
    · intro x
      rw [hterminal, hfirst.terminal, or_assoc, candidates_cons]
      apply or_congr_right
      by_cases htier : tier = x.1
      · subst htier
        simp only [if_pos, List.mem_append, or_and_right, exists_or, Prod.ext_iff, true_and]
      · have hother : ∀ e, x ≠ (tier, e) := by
          rintro e rfl
          exact htier rfl
        simp [htier, hother]

/-- The entries a tier is left with after the gate. -/
def admittedOf (g : TurnInjectionGate) (tier : String) : List Episode :=
  ((g.decisionsOf tier).filter Prod.snd).map Prod.fst

end TurnInjectionGate

/-! ### Projections -/

/-- The projection that is stored for an interaction at the highest of the levels. -/
def stored (rows : List ProjectionRow) (agentID : String) (levels : List String)
    (interactionID : Option String) : Option (String × String) :=
  (present interactionID).bind fun id =>
    highest (projectionsOf rows agentID entryTierEpisode id levels)

theorem mem_projectionsOf {rows : List ProjectionRow} {agentID tier id : String}
    {levels : List String} {lt : String × String} :
    lt ∈ projectionsOf rows agentID tier id levels ↔
      ⟨agentID, id, tier, lt.1, lt.2⟩ ∈ rows ∧ lt.1 ∈ levels := by
  unfold projectionsOf
  simp only [List.mem_map, List.mem_mergeSort, List.mem_filter, decide_eq_true_eq]
  constructor
  · rintro ⟨⟨_, _, _, _, _⟩, ⟨hrow, rfl, rfl, rfl, hlevel⟩, rfl⟩
    exact ⟨hrow, hlevel⟩
  · rintro ⟨hrow, hlevel⟩
    exact ⟨_, ⟨hrow, rfl, rfl, rfl, hlevel⟩, rfl⟩

theorem lookup_iff_mem {β : Type} {l : List (String × β)} (hnodup : (l.map Prod.fst).Nodup)
    {k : String} {b : β} : l.lookup k = some b ↔ (k, b) ∈ l := by
  induction l with
  | nil => simp
  | cons e l ih =>
    obtain ⟨k', b'⟩ := e
    rw [List.map_cons, List.nodup_cons] at hnodup
    rw [List.lookup_cons, List.mem_cons, Prod.mk.injEq]
    by_cases hk : k = k'
    · subst hk
      have hnotMem : (k, b) ∉ l := fun hmem => hnodup.1 (List.mem_map.mpr ⟨_, hmem, rfl⟩)
      simp [hnotMem, eq_comm]
    · rw [beq_false_of_ne hk]
      simpa [hk] using ih hnodup.2

theorem mem_injectableLevels {acting : Option String} {level : String} :
    level ∈ injectableLevels acting ↔
      ∃ rank, entryRankOrWithhold (some level) = some rank ∧ rank ≤ actingRank acting := by
  unfold injectableLevels
  simp only [List.mem_map, List.mem_filter, decide_eq_true_eq]
  constructor
  · rintro ⟨⟨level, rank⟩, ⟨hmem, hle⟩, rfl⟩
    exact ⟨rank, (lookup_iff_mem (by decide)).mpr hmem, hle⟩
  · rintro ⟨rank, hrank, hle⟩
    exact ⟨(level, rank), ⟨(lookup_iff_mem (by decide)).mp hrank, hle⟩, rfl⟩

theorem lookup_available {rows : List ProjectionRow} {agentID : String} {ids levels : List String}
    {id : String} :
    (((ids.map fun id => (id, projectionsOf rows agentID entryTierEpisode id levels)).filter
        fun e => e.2 ≠ []).lookup id).getD [] =
      if id ∈ ids then projectionsOf rows agentID entryTierEpisode id levels else [] := by
  induction ids with
  | nil => rfl
  | cons id' ids ih =>
    rw [List.map_cons, List.filter_cons]
    by_cases hid : id = id'
    · subst hid
      rw [if_pos List.mem_cons_self]
      by_cases hnone : projectionsOf rows agentID entryTierEpisode id levels = []
      · rw [if_neg (by simpa using hnone), ih, hnone, ite_self]
      · rw [if_pos (by simpa using hnone), List.lookup_cons_self, Option.getD_some]
    · have hmem : id ∈ id' :: ids ↔ id ∈ ids := by simp [hid]
      simp only [hmem, ← ih]
      split_ifs
      · rw [List.lookup_cons, beq_false_of_ne hid]
      · rfl

/-- Among the projections that were fetched the one that is stored is found. -/
theorem best_eq_stored {rows : List ProjectionRow} {agentID : String} {ids levels : List String}
    (hids : "" ∉ ids) {interactionID : Option String}
    (hmem : ∀ id, present interactionID = some id → id ∈ ids) :
    best ((ids.map fun id => (id, projectionsOf rows agentID entryTierEpisode id levels)).filter
        fun e => e.2 ≠ []) interactionID = stored rows agentID levels interactionID := by
  rw [best, lookup_available, stored]
  cases hpresent : present interactionID with
  | none =>
    have hempty : interactionID.getD "" = "" := by
      cases interactionID with
      | none => rfl
      | some id => simpa [present, Option.filter_some] using hpresent
    rw [hempty, if_neg hids]
    rfl
  | some id =>
    have hid : interactionID = some id := (Option.filter_eq_some_iff.mp hpresent).1
    rw [hid, Option.getD_some, if_pos (hmem id hpresent)]
    rfl

namespace TurnInjectionGate

/-- A rebuilt tier leaves the gate as it is, except for what is recorded under the tier. -/
structure Rebuilt (tier : String) (g h : TurnInjectionGate) : Prop where
  same : Same g h
  terminal : ∀ x : String × String, x.1 ≠ tier →
    (x ∈ h.audienceTerminal ↔ x ∈ g.audienceTerminal)
  grows : g.audienceTerminal ⊆ h.audienceTerminal

theorem Rebuilt.refl (tier : String) (g : TurnInjectionGate) : Rebuilt tier g g :=
  ⟨⟨rfl, rfl, rfl⟩, fun _ _ => Iff.rfl, Finset.Subset.refl _⟩

theorem Rebuilt.trans {tier : String} {g h k : TurnInjectionGate} (hgh : Rebuilt tier g h)
    (hhk : Rebuilt tier h k) : Rebuilt tier g k :=
  ⟨⟨hhk.same.acting.trans hgh.same.acting, hhk.same.audience.trans hgh.same.audience,
      hhk.same.decisions.trans hgh.same.decisions⟩,
    fun x hx => (hhk.terminal x hx).trans (hgh.terminal x hx), hgh.grows.trans hhk.grows⟩

theorem rebuilt_judgeAudience (g : TurnInjectionGate) (tier id level : String)
    (source : Option String) : Rebuilt tier g (g.judgeAudience tier id level source).2 := by
  obtain ⟨-, hsame, hterminal⟩ := g.judgeAudience_eq tier id level source
  refine ⟨hsame, fun x hx => ?_, ?_⟩
  · rw [hterminal]
    split_ifs
    · rfl
    · rw [Finset.mem_insert]
      exact or_iff_right (by rintro rfl; exact hx rfl)
  · rw [hterminal]
    split_ifs
    · exact Finset.Subset.refl _
    · exact Finset.subset_insert _ _

/-- What stands in a rebuilt tier for a decision. -/
inductive Stands (pick : Option String → Option (String × String))
    (audience : Option TurnAudience) (tier : String) : Episode × Bool → Episode → Prop where
  | verbatim (entry : Episode) : Stands pick audience tier (entry, true) entry
  | projection (entry : Episode) {level text : String}
      (hpick : pick entry.interactionID = some (level, text))
      (hallows : audienceAllows audience tier level entry.sourceChannelID = true) :
      Stands pick audience tier (entry, false)
        { entry with summary := text, protectionLevel := some level }

end TurnInjectionGate
open TurnInjectionGate

theorem rebuildTier_spec (pick : Option String → Option (String × String)) (tier : String)
    (g : TurnInjectionGate) (ds : List (Episode × Bool)) :
    Rebuilt tier g (rebuildTier pick tier g ds).2 ∧
      ∃ origins, origins.Sublist ds ∧
        List.Forall₂ (Stands pick g.audience tier) origins (rebuildTier pick tier g ds).1.1 := by
  induction ds generalizing g with
  | nil => exact ⟨.refl tier g, [], .slnil, .nil⟩
  | cons d ds ih =>
    obtain ⟨episode, admitted⟩ := d
    cases admitted with
    | true =>
      obtain ⟨hrebuilt, origins, hsub, hstands⟩ := ih g
      rw [rebuildTier]
      exact ⟨hrebuilt, _, hsub.cons_cons _, .cons (.verbatim episode) hstands⟩
    | false =>
      have hskip {h : TurnInjectionGate} (hh : Rebuilt tier g h) :
          Rebuilt tier g (rebuildTier pick tier h ds).2 ∧
            ∃ origins, origins.Sublist ((episode, false) :: ds) ∧
              List.Forall₂ (Stands pick g.audience tier) origins
                (rebuildTier pick tier h ds).1.1 := by
        obtain ⟨hrebuilt, origins, hsub, hstands⟩ := ih h
        rw [hh.same.audience] at hstands
        exact ⟨hh.trans hrebuilt, origins, hsub.cons _, hstands⟩
      rw [rebuildTier]
      split_ifs
      · exact hskip (.refl tier g)
      · cases hpick : pick episode.interactionID with
        | none => exact hskip (.refl tier g)
        | some lt =>
          obtain ⟨level, text⟩ := lt
          have hjudge := rebuilt_judgeAudience g tier episode.id level episode.sourceChannelID
          obtain ⟨hfst, -, -⟩ :=
            g.judgeAudience_eq tier episode.id level episode.sourceChannelID
          dsimp only
          generalize g.judgeAudience tier episode.id level episode.sourceChannelID = judged at *
          obtain ⟨ok, h⟩ := judged
          cases ok with
          | false => exact hskip hjudge
          | true =>
            have hrecorded : Rebuilt tier g (h.recordProjection tier episode.id level) :=
              ⟨⟨hjudge.same.acting, hjudge.same.audience, hjudge.same.decisions⟩,
                hjudge.terminal, hjudge.grows⟩
            obtain ⟨hrebuilt, origins, hsub, hstands⟩ :=
              ih (h.recordProjection tier episode.id level)
            rw [hrecorded.same.audience] at hstands
            exact ⟨hrecorded.trans hrebuilt, _, hsub.cons_cons _,
              .cons (.projection episode hpick hfst.symm) hstands⟩

/-! ### The lists that are returned -/

theorem rebuildTier_none (tier : String) (g : TurnInjectionGate) (ds : List (Episode × Bool)) :
    (rebuildTier (fun _ => none) tier g ds).1.2 = false ∧
      (rebuildTier (fun _ => none) tier g ds).2 = g := by
  induction ds with
  | nil => exact ⟨rfl, rfl⟩
  | cons d ds ih =>
    obtain ⟨episode, admitted⟩ := d
    cases admitted with
    | true =>
      rw [rebuildTier]
      exact ih
    | false =>
      rw [rebuildTier]
      split_ifs <;> exact ih

/-- Only what is served for an entry that is withheld, not for its audience, is asked for. -/
theorem rebuildTier_pick_congr {pick pick' : Option String → Option (String × String)}
    {tier : String} {g : TurnInjectionGate} {ds : List (Episode × Bool)}
    (h : ∀ d ∈ ds, d.2 = false → (tier, d.1.id) ∉ g.audienceTerminal →
      pick d.1.interactionID = pick' d.1.interactionID) :
    rebuildTier pick tier g ds = rebuildTier pick' tier g ds := by
  induction ds generalizing g with
  | nil => rfl
  | cons d ds ih =>
    obtain ⟨episode, admitted⟩ := d
    have hrest {k : TurnInjectionGate} (hk : g.audienceTerminal ⊆ k.audienceTerminal) :
        rebuildTier pick tier k ds = rebuildTier pick' tier k ds :=
      ih fun d hd hw ht => h d (List.mem_cons_of_mem _ hd) hw fun hmem => ht (hk hmem)
    cases admitted with
    | true => rw [rebuildTier, rebuildTier, hrest (Finset.Subset.refl _)]
    | false =>
      rw [rebuildTier, rebuildTier]
      split_ifs with hterminal
      · exact hrest (Finset.Subset.refl _)
      · rw [h _ List.mem_cons_self rfl hterminal]
        cases pick' episode.interactionID with
        | none => exact hrest (Finset.Subset.refl _)
        | some lt =>
          obtain ⟨level, text⟩ := lt
          have hgrows := (rebuilt_judgeAudience g tier episode.id level
            episode.sourceChannelID).grows
          dsimp only
          generalize g.judgeAudience tier episode.id level episode.sourceChannelID = judged at *
          obtain ⟨ok, k⟩ := judged
          cases ok with
          | false => exact hrest hgrows
          | true =>
            have hrecorded := @hrest (k.recordProjection tier episode.id level) hgrows
            dsimp only
            rw [hrecorded]

theorem rebuild_pick_congr {pick pick' : Option String → Option (String × String)}
    {tier : String} {g : TurnInjectionGate} (now : List Episode)
    (h : ∀ d ∈ g.decisionsOf tier, d.2 = false → (tier, d.1.id) ∉ g.audienceTerminal →
      pick d.1.interactionID = pick' d.1.interactionID) :
    rebuild pick tier now g = rebuild pick' tier now g := by
  rw [rebuild, rebuild, rebuildTier_pick_congr h]

theorem rebuild_none (tier : String) (now : List Episode) (g : TurnInjectionGate) :
    rebuild (fun _ => none) tier now g = (now, g) := by
  obtain ⟨hserved, hgate⟩ := rebuildTier_none tier g (g.decisionsOf tier)
  unfold rebuild
  generalize rebuildTier (fun _ => none) tier g (g.decisionsOf tier) = result at *
  obtain ⟨⟨out, served⟩, h⟩ := result
  dsimp only at hserved hgate
  rw [hserved, hgate]

theorem rebuilt_rebuild (pick : Option String → Option (String × String)) (tier : String)
    (now : List Episode) (g : TurnInjectionGate) :
    Rebuilt tier g (rebuild pick tier now g).2 := by
  have hrebuilt := (rebuildTier_spec pick tier g (g.decisionsOf tier)).1
  unfold rebuild
  generalize rebuildTier pick tier g (g.decisionsOf tier) = result at *
  obtain ⟨⟨out, served⟩, h⟩ := result
  cases served <;> exact hrebuilt

theorem mem_withheldIDs {g : TurnInjectionGate} {id : String} :
    id ∈ withheldIDs g ↔ ∃ tier ∈ episodeTiers, ∃ d ∈ g.decisionsOf tier, d.2 = false ∧
      (tier, d.1.id) ∉ g.audienceTerminal ∧ present d.1.interactionID = some id := by
  unfold withheldIDs
  simp only [List.mem_dedup, List.mem_flatMap, List.mem_filterMap]
  constructor
  · rintro ⟨tier, htier, d, hd, hid⟩
    split_ifs at hid with hwithheld
    exact ⟨tier, htier, d, hd, hwithheld.1, hwithheld.2, hid⟩
  · rintro ⟨tier, htier, d, hd, hwithheld, hterminal, hid⟩
    exact ⟨tier, htier, d, hd, by rw [if_pos ⟨hwithheld, hterminal⟩, hid]⟩

theorem empty_notMem_withheldIDs (g : TurnInjectionGate) : "" ∉ withheldIDs g := by
  intro hmem
  rw [mem_withheldIDs] at hmem
  obtain ⟨-, -, d, -, -, -, hid⟩ := hmem
  simpa using (Option.filter_eq_some_iff.mp hid).2

theorem injectableLevels_ne_nil (acting : Option String) : injectableLevels acting ≠ [] :=
  List.ne_nil_of_mem ((@mem_injectableLevels acting classificationPublic).mpr
    ⟨0, by decide, Nat.zero_le (actingRank acting)⟩)

/-- The branch rebuilds both tiers from the stored projections; a storage that fails has none. -/
theorem applyEpisodeProjections_eq (g : TurnInjectionGate)
    (storage : Option (List ProjectionRow)) (agentID : String) (history episodic : List Episode) :
    ∃ h, Rebuilt "channel_history" g h ∧
      (applyEpisodeProjections g storage agentID history episodic).1 =
        ((rebuild (stored (storage.getD []) agentID (injectableLevels g.acting))
            "channel_history" history g).1,
          (rebuild (stored (storage.getD []) agentID (injectableLevels g.acting))
            "episodic" episodic h).1) := by
  set pick := stored (storage.getD []) agentID (injectableLevels g.acting) with hpickdef
  refine ⟨(rebuild pick "channel_history" history g).2, rebuilt_rebuild _ _ _ _, ?_⟩
  -- when nothing is stored for any of the interactions, neither tier changes
  have hunchanged (hnone : ∀ id ∈ withheldIDs g, projectionsOf (storage.getD []) agentID
      entryTierEpisode id (injectableLevels g.acting) = []) :
      ((history, episodic) : List Episode × List Episode) =
        ((rebuild pick "channel_history" history g).1,
          (rebuild pick "episodic" episodic (rebuild pick "channel_history" history g).2).1) := by
    have hpick : ∀ tier ∈ episodeTiers, ∀ d ∈ g.decisionsOf tier, d.2 = false →
        (tier, d.1.id) ∉ g.audienceTerminal → pick d.1.interactionID = none := by
      intro tier htier d hd hwithheld hterminal
      rw [hpickdef, stored]
      cases hid : present d.1.interactionID with
      | none => rfl
      | some id =>
        rw [Option.bind_some, hnone id (mem_withheldIDs.mpr
          ⟨tier, htier, d, hd, hwithheld, hterminal, hid⟩)]
        rfl
    rw [@rebuild_pick_congr _ (fun _ => none) _ _ history
        (hpick "channel_history" (by decide)), rebuild_none,
      @rebuild_pick_congr _ (fun _ => none) _ _ episodic (hpick "episodic" (by decide)),
      rebuild_none]
  unfold applyEpisodeProjections
  by_cases hids : withheldIDs g = []
  · rw [if_pos hids]
    exact hunchanged (by rw [hids]; simp)
  · have hcond : ¬(withheldIDs g = [] ∨ injectableLevels g.acting = []) :=
      not_or.mpr ⟨hids, injectableLevels_ne_nil g.acting⟩
    rw [if_neg hids, projectionsFor, if_neg hcond]
    cases storage with
    | none => exact hunchanged fun _ _ => by simp [projectionsOf]
    | some rows =>
      rw [Option.map_some]
      split
      · rename_i hnone
        cases hnone
      · rename_i hnil
        apply hunchanged
        intro id hid
        by_contra hne
        have hmem := List.filter_eq_nil_iff.mp (Option.some.inj hnil) _ (List.mem_map_of_mem hid)
        exact hmem (by simpa using hne)
      · rename_i available _ havailable
        rw [← Option.some.inj havailable]
        have hbest : ∀ tier ∈ episodeTiers, ∀ d ∈ g.decisionsOf tier, d.2 = false →
            (tier, d.1.id) ∉ g.audienceTerminal →
            best (((withheldIDs g).map fun id => (id, projectionsOf rows agentID
              entryTierEpisode id (injectableLevels g.acting))).filter fun e => e.2 ≠ [])
              d.1.interactionID = pick d.1.interactionID := by
          intro tier htier d hd hwithheld hterminal
          exact best_eq_stored (empty_notMem_withheldIDs g) fun id hid =>
            mem_withheldIDs.mpr ⟨tier, htier, d, hd, hwithheld, hterminal, hid⟩
        rw [rebuild_pick_congr history (hbest "channel_history" (by decide))]
        have hrebuilt := rebuilt_rebuild pick "channel_history" history g
        generalize rebuild pick "channel_history" history g = first at *
        obtain ⟨out, h⟩ := first
        have hsecond := @rebuild_pick_congr _ pick "episodic" h episodic fun d hd hw ht =>
          hbest "episodic" (by decide) d (hrebuilt.same.decisionsOf "episodic" ▸ hd) hw
            fun hmem => ht (hrebuilt.grows hmem)
        dsimp only
        rw [hsecond]

theorem exists_origins {pick : Option String → Option (String × String)} {tier : String}
    {g h : TurnInjectionGate} (hsame : Same g h) {now : List Episode}
    (hnow : now.Sublist (g.admittedOf tier)) :
    ∃ origins, origins.Sublist (g.decisionsOf tier) ∧
      List.Forall₂ (Stands pick g.audience tier) origins (rebuild pick tier now h).1 := by
  obtain ⟨-, origins, hsub, hstands⟩ := rebuildTier_spec pick tier h (h.decisionsOf tier)
  rw [hsame.decisionsOf] at hsub
  rw [hsame.audience, hsame.decisionsOf] at hstands
  unfold rebuild
  rw [hsame.decisionsOf]
  generalize rebuildTier pick tier h (g.decisionsOf tier) = result at *
  obtain ⟨⟨out, served⟩, k⟩ := result
  cases served with
  | true => exact ⟨origins, hsub, hstands⟩
  | false =>
    obtain ⟨kept, hkept, rfl⟩ := List.sublist_map_iff.mp hnow
    refine ⟨kept, hkept.trans List.filter_sublist, ?_⟩
    rw [List.forall₂_map_right_iff, List.forall₂_same]
    rintro ⟨episode, admitted⟩ hd
    obtain rfl : admitted = true := (List.mem_filter.mp (hkept.subset hd)).2
    exact .verbatim episode

/-! ### What is injected -/

/-- The form in which a candidate, with the decision for it, is injected. -/
inductive Injected (acting : Option String) (rows : List ProjectionRow) (agentID : String) :
    Episode × Bool → Episode → Prop where
  | verbatim {entry : Episode} {rank : ℕ}
      (hrank : entryRankOrWithhold entry.protectionLevel = some rank)
      (hle : rank ≤ actingRank acting) : Injected acting rows agentID (entry, true) entry
  | projection {entry : Episode} {row : ProjectionRow} {rank : ℕ} (hrow : row ∈ rows)
      (hagent : row.agentID = agentID) (htier : row.entryTier = entryTierEpisode)
      (hentry : entry.interactionID = some row.entryID)
      (hrank : entryRankOrWithhold (some row.level) = some rank) (hle : rank ≤ actingRank acting)
      (hhighest : ∀ other ∈ rows, other.agentID = agentID → other.entryTier = entryTierEpisode →
        other.entryID = row.entryID → ∀ otherRank,
          entryRankOrWithhold (some other.level) = some otherRank →
          otherRank ≤ actingRank acting → otherRank ≤ rank) :
      Injected acting rows agentID (entry, false)
        { entry with summary := row.text, protectionLevel := some row.level }

/-- In live mode an entry above public from a room that is known is heard by nobody, of an
acting room that is known, who was not in it. -/
def Heard (mode : AudienceMode) (actingChannelID : Option String) (rooms : RoomTable)
    (entry : Episode) : Prop :=
  mode = .live → ∀ rank, entryRankOrWithhold entry.protectionLevel = some rank → 0 < rank →
    ∀ source acting, rooms.members entry.sourceChannelID = some source →
      rooms.members actingChannelID = some acting → acting ⊆ source

theorem rank_public {level : String} {rank : ℕ}
    (h : entryRankOrWithhold (some level) = some rank) : level = classificationPublic ↔ rank = 0 := by
  have hmem : (level, rank) ∈ classificationRanks := (lookup_iff_mem (by decide)).mp h
  simp only [classificationRanks, List.mem_cons, Prod.mk.injEq, List.not_mem_nil, or_false] at hmem
  rcases hmem with ⟨rfl, rfl⟩ | ⟨rfl, rfl⟩ | ⟨rfl, rfl⟩ | ⟨rfl, rfl⟩ <;> decide

theorem levelRank_eq {level : String} {rank : ℕ}
    (h : entryRankOrWithhold (some level) = some rank) : levelRank level = rank := by
  rw [levelRank, h]

theorem heard_of_allows {mode : AudienceMode} {actingChannelID acting : Option String}
    {rooms : RoomTable} {tier level : String} {entry : Episode} {rank : ℕ}
    (htier : tier ∈ audienceTiers) (hlevel : entry.protectionLevel = some level)
    (hrank : entryRankOrWithhold (some level) = some rank) (hle : rank ≤ actingRank acting)
    (hallows : audienceAllows (resolveTurnAudience mode actingChannelID acting rooms) tier level
      entry.sourceChannelID = true) : Heard mode actingChannelID rooms entry := by
  rintro rfl rank' hrank' hpos source members hsource hmembers
  rw [hlevel, hrank] at hrank'
  obtain rfl := Option.some.inj hrank'
  have hlevelne : level ≠ classificationPublic := fun h => hpos.ne' ((rank_public hrank).mp h)
  have hpresent : present entry.sourceChannelID ≠ none := by
    intro hnone
    rw [RoomTable.members, hnone] at hsource
    cases hsource
  have haudience : resolveTurnAudience .live actingChannelID acting rooms =
      some ⟨.live, actingChannelID, rooms⟩ := by
    rw [resolveTurnAudience, if_neg (by decide), if_neg (by omega)]
  have hverdict : TurnAudience.verdict ⟨.live, actingChannelID, rooms⟩ tier level
      entry.sourceChannelID = some (if members ⊆ source then .admitted else .withholdDisjoint) := by
    rw [TurnAudience.verdict, if_neg (not_not.mpr htier), if_neg hlevelne, if_neg hpresent, hsource,
      hmembers]
  rw [haudience, audienceAllows, Option.bind_some, hverdict] at hallows
  by_contra hsubset
  rw [if_neg hsubset] at hallows
  exact Bool.false_ne_true hallows

theorem stored_eq_some {rows : List ProjectionRow} {agentID : String} {acting : Option String}
    {interactionID : Option String} {level text : String}
    (h : stored rows agentID (injectableLevels acting) interactionID = some (level, text)) :
    ∃ id rank, interactionID = some id ∧ ⟨agentID, id, entryTierEpisode, level, text⟩ ∈ rows ∧
      entryRankOrWithhold (some level) = some rank ∧ rank ≤ actingRank acting ∧
      ∀ other ∈ rows, other.agentID = agentID → other.entryTier = entryTierEpisode →
        other.entryID = id → ∀ otherRank,
          entryRankOrWithhold (some other.level) = some otherRank →
          otherRank ≤ actingRank acting → otherRank ≤ rank := by
  obtain ⟨id, hid, hargmax⟩ := Option.bind_eq_some_iff.mp h
  have hmem := List.argmax_mem hargmax
  obtain ⟨hrow, hlevel⟩ := mem_projectionsOf.mp hmem
  obtain ⟨rank, hrank, hle⟩ := mem_injectableLevels.mp hlevel
  refine ⟨id, rank, (Option.filter_eq_some_iff.mp hid).1, hrow, hrank, hle, ?_⟩
  rintro ⟨_, _, _, level', text'⟩ hother rfl rfl rfl otherRank hotherRank hotherLe
  have hcandidate : (level', text') ∈ projectionsOf rows _ entryTierEpisode _
      (injectableLevels acting) :=
    mem_projectionsOf.mpr ⟨hother, mem_injectableLevels.mpr ⟨otherRank, hotherRank, hotherLe⟩⟩
  have hmax := List.le_of_mem_argmax hcandidate hargmax
  dsimp only at hmax
  rw [levelRank_eq hotherRank, levelRank_eq hrank] at hmax
  exact_mod_cast hmax

theorem readable_eq_some {acting : Option String} {entry : Episode} {level : String} :
    readable acting entry = some level ↔ ∃ rank, entry.protectionLevel = some level ∧
      entryRankOrWithhold (some level) = some rank ∧ rank ≤ actingRank acting := by
  unfold readable
  rw [Option.bind_eq_some_iff]
  constructor
  · rintro ⟨rank, hrank, hlevel⟩
    split_ifs at hlevel with habove
    rw [hlevel] at hrank
    exact ⟨rank, hlevel, hrank, not_lt.mp habove⟩
  · rintro ⟨rank, hlevel, hrank, hle⟩
    exact ⟨rank, by rw [hlevel, hrank], by rw [if_neg (not_lt.mpr hle), hlevel]⟩

theorem admits_eq_true {acting : Option String} {audience : Option TurnAudience} {tier : String}
    {entry : Episode} (h : admits acting audience tier entry = true) :
    ∃ level rank, entry.protectionLevel = some level ∧
      entryRankOrWithhold (some level) = some rank ∧ rank ≤ actingRank acting ∧
      audienceAllows audience tier level entry.sourceChannelID = true := by
  obtain ⟨level, hreadable, hallows⟩ := (Option.any_eq_true _ _).mp h
  obtain ⟨rank, hlevel, hrank, hle⟩ := readable_eq_some.mp hreadable
  exact ⟨level, rank, hlevel, hrank, hle, hallows⟩

/-- What stands in a rebuilt tier is injected, and heard. -/
theorem injected_of_stands {mode : AudienceMode} {actingChannelID acting : Option String}
    {rooms : RoomTable} {rows : List ProjectionRow} {agentID tier : String}
    (htier : tier ∈ audienceTiers) {d : Episode × Bool} {entry : Episode}
    (hdecision : d.2 = admits acting (resolveTurnAudience mode actingChannelID acting rooms) tier d.1)
    (h : Stands (stored rows agentID (injectableLevels acting))
      (resolveTurnAudience mode actingChannelID acting rooms) tier d entry) :
    Injected acting rows agentID d entry ∧ Heard mode actingChannelID rooms entry := by
  cases h with
  | verbatim entry =>
    obtain ⟨level, rank, hlevel, hrank, hle, hallows⟩ := admits_eq_true hdecision.symm
    exact ⟨.verbatim (by rw [hlevel, hrank]) hle,
      heard_of_allows htier hlevel hrank hle hallows⟩
  | @projection entry level text hpick hallows =>
    obtain ⟨id, rank, hid, hrow, hrank, hle, hhighest⟩ := stored_eq_some hpick
    exact ⟨.projection hrow rfl rfl hid hrank hle hhighest,
      heard_of_allows htier rfl hrank hle hallows⟩

end Persatrix.Agents
