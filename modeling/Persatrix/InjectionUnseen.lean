import Persatrix.InjectionReadUp

/-!
# What the injected lists do not tell

Two runs of the gate and of its projections are compared, on candidates that differ in what is
withheld. A candidate that is withheld for its audience withholds every candidate of its tier
with its id, so a change is unseen only when no other candidate with the id could be replaced.
-/
namespace Persatrix.Agents
open TurnInjectionGate

/-! ### Changes that a rebuilt tier does not show -/

/-- A projection is stored for the entry, and the audience condition lets it pass. -/
def Servable (pick : Option String → Option (String × String)) (audience : Option TurnAudience)
    (tier : String) (entry : Episode) : Prop :=
  ∃ level text, pick entry.interactionID = some (level, text) ∧
    audienceAllows audience tier level entry.sourceChannelID = true

/-- What may stand at the same place of a tier in two runs. -/
inductive Alike (pick : Option String → Option (String × String)) (audience : Option TurnAudience)
    (tier : String) (shown : String → Prop) : Episode × Bool → Episode × Bool → Prop where
  | same (d : Episode × Bool) (hshown : d.2 = false → Servable pick audience tier d.1 → shown d.1.id) :
      Alike pick audience tier shown d d
  | hidden {c d : Episode} (hid : d.id = c.id) (hshown : ¬shown c.id)
      (hc : ¬Servable pick audience tier c) (hd : ¬Servable pick audience tier d) :
      Alike pick audience tier shown (c, false) (d, false)

/-- An entry for which nothing can be served is passed over. -/
theorem rebuildTier_skip {pick : Option String → Option (String × String)} {tier : String}
    {g : TurnInjectionGate} {entry : Episode} (hentry : ¬Servable pick g.audience tier entry)
    (ds : List (Episode × Bool)) :
    ∃ k : TurnInjectionGate, k.audience = g.audience ∧
      (∀ id, (tier, id) ∈ k.audienceTerminal ↔ (tier, id) ∈ g.audienceTerminal ∨
        id = entry.id ∧ pick entry.interactionID ≠ none) ∧
      rebuildTier pick tier g ((entry, false) :: ds) = rebuildTier pick tier k ds := by
  rw [rebuildTier]
  by_cases hterminal : (tier, entry.id) ∈ g.audienceTerminal
  · rw [if_pos hterminal]
    refine ⟨g, rfl, fun id => (or_iff_left_of_imp ?_).symm, rfl⟩
    rintro ⟨rfl, -⟩
    exact hterminal
  · rw [if_neg hterminal]
    cases hpick : pick entry.interactionID with
    | none => exact ⟨g, rfl, by simp, rfl⟩
    | some lt =>
      obtain ⟨level, text⟩ := lt
      obtain ⟨hfst, hsame, hinsert⟩ :=
        g.judgeAudience_eq tier entry.id level entry.sourceChannelID
      have hrefused : audienceAllows g.audience tier level entry.sourceChannelID = false :=
        Bool.eq_false_iff.mpr fun hallows => hentry ⟨level, text, hpick, hallows⟩
      rw [hrefused] at hfst hinsert
      rw [if_neg Bool.false_ne_true] at hinsert
      dsimp only
      generalize g.judgeAudience tier entry.id level entry.sourceChannelID = judged at *
      obtain ⟨ok, k⟩ := judged
      obtain rfl : ok = false := hfst
      refine ⟨k, hsame.audience, fun id => ?_, rfl⟩
      dsimp only at hinsert
      rw [hinsert, Finset.mem_insert, or_comm]
      simp

/-- An entry for which a projection can be served is replaced, unless it is terminal. -/
theorem rebuildTier_serve {pick : Option String → Option (String × String)} {tier : String}
    {g : TurnInjectionGate} {entry : Episode} {level text : String}
    (hterminal : (tier, entry.id) ∉ g.audienceTerminal)
    (hpick : pick entry.interactionID = some (level, text))
    (hallows : audienceAllows g.audience tier level entry.sourceChannelID = true)
    (ds : List (Episode × Bool)) :
    ∃ k : TurnInjectionGate, k.audience = g.audience ∧
      k.audienceTerminal = g.audienceTerminal ∧
      (rebuildTier pick tier g ((entry, false) :: ds)).1 =
        ({ entry with summary := text, protectionLevel := some level } ::
          (rebuildTier pick tier k ds).1.1, true) := by
  obtain ⟨hfst, hsame, hkept⟩ := g.judgeAudience_eq tier entry.id level entry.sourceChannelID
  rw [rebuildTier, if_neg hterminal, hpick]
  rw [if_pos hallows] at hkept
  rw [hallows] at hfst
  dsimp only
  generalize g.judgeAudience tier entry.id level entry.sourceChannelID = judged at *
  obtain ⟨ok, k⟩ := judged
  obtain rfl : ok = true := hfst
  exact ⟨k.recordProjection tier entry.id level, hsame.audience, hkept, rfl⟩

theorem rebuildTier_congr {pick : Option String → Option (String × String)} {tier : String}
    {audience : Option TurnAudience} {shown : String → Prop} {ds es : List (Episode × Bool)}
    (hds : List.Forall₂ (Alike pick audience tier shown) ds es) :
    ∀ {g h : TurnInjectionGate}, g.audience = audience → h.audience = audience →
      (∀ id, shown id → ((tier, id) ∈ g.audienceTerminal ↔ (tier, id) ∈ h.audienceTerminal)) →
      (rebuildTier pick tier g ds).1 = (rebuildTier pick tier h es).1 := by
  induction hds with
  | nil => exact fun _ _ _ => rfl
  | @cons d e ds es hde hds ih =>
    intro g h hg hh hterminal
    cases hde with
    | same _ hshown =>
      obtain ⟨entry, admitted⟩ := d
      cases admitted with
      | true =>
        rw [rebuildTier, rebuildTier]
        exact congrArg (fun r : List Episode × Bool => (entry :: r.1, r.2))
          (ih hg hh hterminal)
      | false =>
        by_cases hservable : Servable pick audience tier entry
        · have hagree := hterminal entry.id (hshown rfl hservable)
          by_cases hmem : (tier, entry.id) ∈ g.audienceTerminal
          · rw [rebuildTier, rebuildTier, if_pos hmem, if_pos (hagree.mp hmem)]
            exact ih hg hh hterminal
          · obtain ⟨level, text, hpick, hallows⟩ := hservable
            obtain ⟨k, hk, hkterminal, hgserve⟩ :=
              rebuildTier_serve hmem hpick (hg ▸ hallows) ds
            obtain ⟨l, hl, hlterminal, hhserve⟩ :=
              rebuildTier_serve (fun hm => hmem (hagree.mpr hm)) hpick (hh ▸ hallows) es
            have hrest := @ih k l (hk.trans hg) (hl.trans hh)
              (by rw [hkterminal, hlterminal]; exact hterminal)
            rw [hgserve, hhserve, hrest]
        · obtain ⟨k, hk, hkterminal, hgskip⟩ := rebuildTier_skip (hg ▸ hservable) ds
          obtain ⟨l, hl, hlterminal, hhskip⟩ := rebuildTier_skip (hh ▸ hservable) es
          rw [hgskip, hhskip]
          apply ih (hk.trans hg) (hl.trans hh)
          intro id hid
          rw [hkterminal, hlterminal, hterminal id hid]
    | @hidden c d hid hshown hc hd =>
      obtain ⟨k, hk, hkterminal, hgskip⟩ := rebuildTier_skip (hg ▸ hc) ds
      obtain ⟨l, hl, hlterminal, hhskip⟩ := rebuildTier_skip (hh ▸ hd) es
      rw [hgskip, hhskip]
      apply ih (hk.trans hg) (hl.trans hh)
      intro id hidShown
      have hne : id ≠ c.id := fun h => hshown (h ▸ hidShown)
      rw [hkterminal, hlterminal, hterminal id hidShown, hid]
      simp [hne]

/-! ### Changes to what is withheld -/

/-- A stored projection at a level that is at most the acting one, and for which the gate lets
the entry pass. -/
structure Admissible (acting : Option String) (audience : Option TurnAudience)
    (agentID tier : String) (entry : Episode) (row : ProjectionRow) : Prop where
  agent : row.agentID = agentID
  entryTier : row.entryTier = entryTierEpisode
  entryID : present entry.interactionID = some row.entryID
  level : ∃ rank, entryRankOrWithhold (some row.level) = some rank ∧ rank ≤ actingRank acting
  passes : ((TurnInjectionGate.new acting audience).judgeAudience tier entry.id row.level
    entry.sourceChannelID).1 = true

/-- A change to the text of an entry, or to a higher label. The entry is withheld, and neither
it nor an other of the entries with its id that is withheld has an admissible projection. -/
structure HiddenChange (acting : Option String) (audience : Option TurnAudience)
    (rows : List ProjectionRow) (agentID tier : String) (entries : List Episode)
    (c d : Episode) : Prop where
  withheld : ((TurnInjectionGate.new acting audience).admitEntry tier c).1 = false
  inadmissible : ∀ e ∈ c :: entries, e.id = c.id →
    ((TurnInjectionGate.new acting audience).admitEntry tier e).1 = false →
    ∀ row ∈ rows, ¬Admissible acting audience agentID tier e row
  id : d.id = c.id
  interactionID : d.interactionID = c.interactionID
  sourceChannelID : d.sourceChannelID = c.sourceChannelID
  raised : ∀ rank, entryRankOrWithhold d.protectionLevel = some rank →
    ∃ rank', entryRankOrWithhold c.protectionLevel = some rank' ∧ rank' ≤ rank

theorem admitEntry_new (acting : Option String) (audience : Option TurnAudience) (tier : String)
    (entry : Episode) : ((TurnInjectionGate.new acting audience).admitEntry tier entry).1 =
      admits acting audience tier entry := (admitEntry_eq _ tier entry).1

theorem admissible_of_servable {acting : Option String} {audience : Option TurnAudience}
    {rows : List ProjectionRow} {agentID tier : String} {entry : Episode}
    (h : Servable (stored rows agentID (injectableLevels acting)) audience tier entry) :
    ∃ row ∈ rows, Admissible acting audience agentID tier entry row := by
  obtain ⟨level, text, hpick, hallows⟩ := h
  obtain ⟨id, hid, hargmax⟩ := Option.bind_eq_some_iff.mp hpick
  obtain ⟨hrow, hlevel⟩ := mem_projectionsOf.mp (List.argmax_mem hargmax)
  refine ⟨_, hrow, rfl, rfl, hid, mem_injectableLevels.mp hlevel, ?_⟩
  rw [(judgeAudience_eq _ _ _ _ _).1]
  exact hallows

/-- What the audience condition lets pass at a level it lets pass at each lower one. -/
theorem audienceAllows_mono {audience : Option TurnAudience} {tier level level' : String}
    {rank rank' : ℕ} {source : Option String} (hrank : entryRankOrWithhold (some level) = some rank)
    (hrank' : entryRankOrWithhold (some level') = some rank') (hle : rank ≤ rank')
    (hallows : audienceAllows audience tier level' source = true) :
    audienceAllows audience tier level source = true := by
  rw [← hallows]
  cases audience with
  | none => rfl
  | some a =>
    by_cases hlevel : level = classificationPublic
    · have hnone : a.verdict tier level source = none := by
        rw [TurnAudience.verdict, if_pos hlevel]
        exact ite_self none
      rw [hallows, audienceAllows, Option.bind_some, hnone]
      rfl
    · have hpos : rank ≠ 0 := fun h => hlevel ((rank_public hrank).mpr h)
      have hlevel' : level' ≠ classificationPublic := by
        intro h
        have hzero := (rank_public hrank').mp h
        omega
      have hverdict : a.verdict tier level source = a.verdict tier level' source := by
        rw [TurnAudience.verdict, TurnAudience.verdict, if_neg hlevel, if_neg hlevel']
      rw [audienceAllows, audienceAllows, Option.bind_some, Option.bind_some, hverdict]

theorem admits_of_raised {acting : Option String} {audience : Option TurnAudience} {tier : String}
    {c d : Episode} (hsource : d.sourceChannelID = c.sourceChannelID)
    (hraised : ∀ rank, entryRankOrWithhold d.protectionLevel = some rank →
      ∃ rank', entryRankOrWithhold c.protectionLevel = some rank' ∧ rank' ≤ rank)
    (hd : admits acting audience tier d = true) : admits acting audience tier c = true := by
  obtain ⟨level, rank, hlevel, hrank, hle, hallows⟩ := admits_eq_true hd
  obtain ⟨rank', hrank', hle'⟩ := hraised rank (by rw [hlevel, hrank])
  cases hlevel' : c.protectionLevel with
  | none =>
    rw [hlevel'] at hrank'
    cases hrank'
  | some level' =>
    rw [hlevel'] at hrank'
    have hreadable : readable acting c = some level' :=
      readable_eq_some.mpr ⟨rank', hlevel', hrank', hle'.trans hle⟩
    rw [admits, hreadable, Option.any_some]
    exact audienceAllows_mono hrank' hrank hle' (hsource ▸ hallows)

/-- The candidates of two runs: the same, or changed where it is not seen. -/
def Changed (acting : Option String) (audience : Option TurnAudience) (rows : List ProjectionRow)
    (agentID tier : String) (entries : List Episode) (c d : Episode) : Prop :=
  d = c ∨ HiddenChange acting audience rows agentID tier entries c d

theorem Changed.admits_eq {acting : Option String} {audience : Option TurnAudience}
    {rows : List ProjectionRow} {agentID tier : String} {entries : List Episode} {c d : Episode}
    (h : Changed acting audience rows agentID tier entries c d) :
    d = c ∨ admits acting audience tier c = false ∧ admits acting audience tier d = false := by
  refine h.imp_right fun h => ?_
  have hc : admits acting audience tier c = false := by
    rw [← admitEntry_new]
    exact h.withheld
  refine ⟨hc, Bool.eq_false_iff.mpr fun hd => ?_⟩
  rw [admits_of_raised h.sourceChannelID h.raised hd] at hc
  cases hc

/-- The ids of a tier under which a withheld candidate may be replaced. -/
def Shown (acting : Option String) (audience : Option TurnAudience) (rows : List ProjectionRow)
    (agentID tier : String) (entries : List Episode) (id : String) : Prop :=
  ∃ e ∈ entries, e.id = id ∧ admits acting audience tier e = false ∧
    Servable (stored rows agentID (injectableLevels acting)) audience tier e

theorem HiddenChange.not_shown {acting : Option String} {audience : Option TurnAudience}
    {rows : List ProjectionRow} {agentID tier : String} {entries : List Episode} {c d : Episode}
    (h : HiddenChange acting audience rows agentID tier entries c d) :
    ¬Shown acting audience rows agentID tier entries c.id := by
  rintro ⟨e, he, hid, hwithheld, hservable⟩
  rw [← admitEntry_new] at hwithheld
  obtain ⟨row, hrow, hadmissible⟩ := admissible_of_servable hservable
  exact h.inadmissible e (List.mem_cons_of_mem _ he) hid hwithheld row hrow hadmissible

theorem HiddenChange.not_servable {acting : Option String} {audience : Option TurnAudience}
    {rows : List ProjectionRow} {agentID tier : String} {entries : List Episode} {c d : Episode}
    (h : HiddenChange acting audience rows agentID tier entries c d) :
    ¬Servable (stored rows agentID (injectableLevels acting)) audience tier c ∧
      ¬Servable (stored rows agentID (injectableLevels acting)) audience tier d := by
  have hc : ¬Servable (stored rows agentID (injectableLevels acting)) audience tier c := by
    intro hservable
    obtain ⟨row, hrow, hadmissible⟩ := admissible_of_servable hservable
    exact h.inadmissible c List.mem_cons_self rfl h.withheld row hrow hadmissible
  refine ⟨hc, fun hd => hc ?_⟩
  rwa [Servable, h.interactionID, h.sourceChannelID] at hd

theorem alike_of_changed {acting : Option String} {audience : Option TurnAudience}
    {rows : List ProjectionRow} {agentID tier : String} {entries : List Episode} {c d : Episode}
    (hmem : c ∈ entries) (h : Changed acting audience rows agentID tier entries c d) :
    Alike (stored rows agentID (injectableLevels acting)) audience tier
      (Shown acting audience rows agentID tier entries)
      (c, admits acting audience tier c) (d, admits acting audience tier d) := by
  rcases h.admits_eq with rfl | ⟨hc, hd⟩
  · exact .same _ fun hwithheld hservable => ⟨d, hmem, rfl, hwithheld, hservable⟩
  · rw [hc, hd]
    rcases h with rfl | h
    · exact .same _ fun _ hservable => ⟨d, hmem, rfl, hc, hservable⟩
    · exact .hidden h.id h.not_shown h.not_servable.1 h.not_servable.2

/-! ### The lists of a turn -/

/-- The lists that the calls of a turn return, and the gate after them. -/
def filterTurn (mode : AudienceMode) (actingChannelID acting : Option String) (rooms : RoomTable)
    (calls : List (String × List Episode)) : List (List Episode) × TurnInjectionGate :=
  filterAll (.new acting (resolveTurnAudience mode actingChannelID acting rooms)) calls

/-- The calls of two runs, with changes that are not seen. -/
def ChangedCalls (acting : Option String) (audience : Option TurnAudience)
    (rows : List ProjectionRow) (agentID : String) (calls calls' : List (String × List Episode)) :
    Prop :=
  List.Forall₂ (fun c d => d.1 = c.1 ∧
    List.Forall₂ (Changed acting audience rows agentID c.1 (candidates calls c.1)) c.2 d.2)
    calls calls'

theorem forall₂_candidates (R : String → Episode → Episode → Prop) (tier : String)
    {calls calls' : List (String × List Episode)}
    (h : List.Forall₂ (fun c d => d.1 = c.1 ∧ List.Forall₂ (R c.1) c.2 d.2) calls calls') :
    List.Forall₂ (R tier) (candidates calls tier) (candidates calls' tier) := by
  induction h with
  | nil => exact .nil
  | @cons c d calls calls' hcd _ ih =>
    obtain ⟨tier', entries⟩ := c
    obtain ⟨_, entries'⟩ := d
    obtain ⟨rfl, hentries⟩ := hcd
    rw [candidates_cons, candidates_cons]
    split_ifs with htier
    · exact List.rel_append (htier ▸ hentries) ih
    · exact ih

theorem filter_eq_of_forall₂ {p : Episode → Bool} {entries entries' : List Episode}
    (h : List.Forall₂ (fun c d => d = c ∨ p c = false ∧ p d = false) entries entries') :
    entries'.filter p = entries.filter p := by
  induction h with
  | nil => rfl
  | cons hcd _ ih =>
    rw [List.filter_cons, List.filter_cons, ih]
    rcases hcd with rfl | ⟨hc, hd⟩
    · rfl
    · rw [hc, hd, if_neg Bool.false_ne_true, if_neg Bool.false_ne_true]

theorem exists_mem_congr {p : Episode → Prop} {R : Episode → Episode → Prop}
    (hR : ∀ c d, R c d → (p c ↔ p d)) {entries entries' : List Episode}
    (h : List.Forall₂ R entries entries') : (∃ e ∈ entries, p e) ↔ ∃ e ∈ entries', p e := by
  induction h with
  | nil => simp
  | cons hcd _ ih => rw [List.exists_mem_cons_iff, List.exists_mem_cons_iff, hR _ _ hcd, ih]

section
variable {mode : AudienceMode} {actingChannelID acting : Option String} {rooms : RoomTable}
  {calls calls' : List (String × List Episode)} {rows : List ProjectionRow} {agentID : String}

theorem decisionsOf_filterTurn (tier : String) :
    (filterTurn mode actingChannelID acting rooms calls).2.decisionsOf tier =
      (candidates calls tier).map fun e =>
        (e, admits acting (resolveTurnAudience mode actingChannelID acting rooms) tier e) :=
  (filteredAll _ calls).decisions tier

theorem mem_terminal_filterTurn {tier id : String} :
    (tier, id) ∈ (filterTurn mode actingChannelID acting rooms calls).2.audienceTerminal ↔
      ∃ e ∈ candidates calls tier,
        terminates acting (resolveTurnAudience mode actingChannelID acting rooms) tier e = true ∧
          id = e.id := by
  rw [filterTurn, (filteredAll _ calls).terminal]
  exact or_iff_right (Finset.notMem_empty _)

theorem filterTurn_congr (h : ChangedCalls acting
    (resolveTurnAudience mode actingChannelID acting rooms) rows agentID calls calls') :
    (filterTurn mode actingChannelID acting rooms calls').1 =
      (filterTurn mode actingChannelID acting rooms calls).1 := by
  rw [filterTurn, filterTurn, (filteredAll _ calls).admitted, (filteredAll _ calls').admitted]
  unfold ChangedCalls at h
  generalize candidates calls = all at h
  induction h with
  | nil => rfl
  | cons hcd _ ih =>
    rw [List.map_cons, List.map_cons, ih, hcd.1]
    congr 1
    exact filter_eq_of_forall₂ (hcd.2.imp fun _ _ hchanged => hchanged.admits_eq)

theorem ChangedCalls.candidates {audience : Option TurnAudience}
    (h : ChangedCalls acting audience rows agentID calls calls') (tier : String) :
    List.Forall₂ (Changed acting audience rows agentID tier (candidates calls tier))
      (candidates calls tier) (candidates calls' tier) :=
  forall₂_candidates
    (fun tier => Changed acting audience rows agentID tier (Agents.candidates calls tier)) tier h

/-- Under the ids that matter the same candidates are withheld for their audience. -/
theorem terminal_congr {tier id : String} (h : ChangedCalls acting
    (resolveTurnAudience mode actingChannelID acting rooms) rows agentID calls calls')
    (hid : Shown acting (resolveTurnAudience mode actingChannelID acting rooms) rows agentID tier
      (candidates calls tier) id) :
    (tier, id) ∈ (filterTurn mode actingChannelID acting rooms calls).2.audienceTerminal ↔
      (tier, id) ∈ (filterTurn mode actingChannelID acting rooms calls').2.audienceTerminal := by
  rw [mem_terminal_filterTurn, mem_terminal_filterTurn]
  apply exists_mem_congr _ (h.candidates tier)
  rintro c d (rfl | hchange)
  · rfl
  · have hne : id ≠ c.id := by
      rintro rfl
      exact hchange.not_shown hid
    simp [hchange.id, hne]

theorem alike_filterTurn (tier : String) (h : ChangedCalls acting
    (resolveTurnAudience mode actingChannelID acting rooms) rows agentID calls calls') :
    List.Forall₂ (Alike (stored rows agentID (injectableLevels acting))
        (resolveTurnAudience mode actingChannelID acting rooms) tier
        (Shown acting (resolveTurnAudience mode actingChannelID acting rooms) rows agentID tier
          (candidates calls tier)))
      ((filterTurn mode actingChannelID acting rooms calls).2.decisionsOf tier)
      ((filterTurn mode actingChannelID acting rooms calls').2.decisionsOf tier) := by
  rw [decisionsOf_filterTurn, decisionsOf_filterTurn, List.forall₂_map_left_iff,
    List.forall₂_map_right_iff]
  have hmem := (List.forall₂_and_left (candidates calls tier) _).mpr
    ⟨fun e (he : e ∈ candidates calls tier) => he, h.candidates tier⟩
  exact hmem.imp fun c d hcd => alike_of_changed hcd.1 hcd.2

/-- A tier is rebuilt to the same list in both runs. -/
theorem rebuild_congr {tier : String} {now : List Episode} {g k : TurnInjectionGate}
    (h : ChangedCalls acting (resolveTurnAudience mode actingChannelID acting rooms) rows agentID
      calls calls')
    (hg : Same (filterTurn mode actingChannelID acting rooms calls).2 g)
    (hk : Same (filterTurn mode actingChannelID acting rooms calls').2 k)
    (hgterminal : ∀ id, (tier, id) ∈ g.audienceTerminal ↔
      (tier, id) ∈ (filterTurn mode actingChannelID acting rooms calls).2.audienceTerminal)
    (hkterminal : ∀ id, (tier, id) ∈ k.audienceTerminal ↔
      (tier, id) ∈ (filterTurn mode actingChannelID acting rooms calls').2.audienceTerminal) :
    (rebuild (stored rows agentID (injectableLevels acting)) tier now k).1 =
      (rebuild (stored rows agentID (injectableLevels acting)) tier now g).1 := by
  have hequal := rebuildTier_congr (alike_filterTurn tier h)
    (hg.audience.trans (filteredAll _ calls).audience)
    (hk.audience.trans (filteredAll _ calls').audience) fun id hid => by
      rw [hgterminal, hkterminal, terminal_congr h hid]
  rw [← hg.decisionsOf, ← hk.decisionsOf] at hequal
  unfold rebuild
  generalize rebuildTier _ tier g (g.decisionsOf tier) = result at *
  generalize rebuildTier _ tier k (k.decisionsOf tier) = result' at *
  obtain ⟨⟨out, served⟩, g'⟩ := result
  obtain ⟨⟨out', served'⟩, k'⟩ := result'
  obtain ⟨rfl, rfl⟩ := Prod.mk.inj hequal
  cases served <;> rfl

theorem applyEpisodeProjections_congr {storage : Option (List ProjectionRow)}
    (history episodic : List Episode) (h : ChangedCalls acting
      (resolveTurnAudience mode actingChannelID acting rooms) (storage.getD []) agentID
      calls calls') :
    (applyEpisodeProjections (filterTurn mode actingChannelID acting rooms calls').2 storage
        agentID history episodic).1 =
      (applyEpisodeProjections (filterTurn mode actingChannelID acting rooms calls).2 storage
        agentID history episodic).1 := by
  obtain ⟨g, hg, hlists⟩ := applyEpisodeProjections_eq
    (filterTurn mode actingChannelID acting rooms calls).2 storage agentID history episodic
  obtain ⟨k, hk, hlists'⟩ := applyEpisodeProjections_eq
    (filterTurn mode actingChannelID acting rooms calls').2 storage agentID history episodic
  have hacting : (filterTurn mode actingChannelID acting rooms calls).2.acting = acting :=
    (filteredAll _ calls).acting
  have hacting' : (filterTurn mode actingChannelID acting rooms calls').2.acting = acting :=
    (filteredAll _ calls').acting
  rw [hlists, hlists', hacting, hacting']
  congr 1
  · exact rebuild_congr h ⟨rfl, rfl, rfl⟩ ⟨rfl, rfl, rfl⟩ (fun _ => Iff.rfl) fun _ => Iff.rfl
  · have htier : "episodic" ≠ "channel_history" := by decide
    exact rebuild_congr h hg.same hk.same (fun id => hg.terminal _ htier)
      fun id => hk.terminal _ htier

/-- The items of a tier that are injected: each from a candidate, in candidate order. -/
theorem origins_filterTurn {tier : String} (htier : tier ∈ audienceTiers) {now : List Episode}
    {g : TurnInjectionGate} (hg : Same (filterTurn mode actingChannelID acting rooms calls).2 g)
    (hnow : now.Sublist
      ((filterTurn mode actingChannelID acting rooms calls).2.admittedOf tier)) :
    ∃ origins, origins.Sublist
        ((filterTurn mode actingChannelID acting rooms calls).2.decisionsOf tier) ∧
      List.Forall₂ (fun d e => Injected acting rows agentID d e ∧ Heard mode actingChannelID rooms e)
        origins (rebuild (stored rows agentID (injectableLevels acting)) tier now g).1 := by
  obtain ⟨origins, hsub, hstands⟩ :=
    @exists_origins (stored rows agentID (injectableLevels acting)) _ _ _ hg _ hnow
  have haudience : (filterTurn mode actingChannelID acting rooms calls).2.audience =
      resolveTurnAudience mode actingChannelID acting rooms := (filteredAll _ calls).audience
  rw [haudience] at hstands
  refine ⟨origins, hsub, ?_⟩
  have hmem := (List.forall₂_and_left origins _).mpr ⟨fun d hd => hsub.subset hd, hstands⟩
  refine hmem.imp fun d e hde => injected_of_stands htier ?_ hde.2
  obtain ⟨hdecision, -⟩ := hde
  rw [decisionsOf_filterTurn, List.mem_map] at hdecision
  obtain ⟨c, -, rfl⟩ := hdecision
  rfl

end

/-- Nothing above the acting level, and nothing that somebody new would hear, is injected; what
is withheld and not replaced does not tell on the lists. -/
theorem applyEpisodeProjections_no_read_up (mode : AudienceMode)
    (actingChannelID acting : Option String) (rooms : RoomTable)
    (calls : List (String × List Episode)) (storage : Option (List ProjectionRow))
    (agentID : String) {history episodic : List Episode}
    (hhistory : history.Sublist ((filterTurn mode actingChannelID acting rooms calls).2.admittedOf
      "channel_history"))
    (hepisodic : episodic.Sublist ((filterTurn mode actingChannelID acting rooms calls).2.admittedOf
      "episodic")) :
    let gate := (filterTurn mode actingChannelID acting rooms calls).2
    let returned := (applyEpisodeProjections gate storage agentID history episodic).1
    (∀ tier, (gate.decisionsOf tier).map Prod.fst = candidates calls tier) ∧
      (∃ origins, origins.Sublist (gate.decisionsOf "channel_history") ∧
        List.Forall₂ (fun d e => Injected acting (storage.getD []) agentID d e ∧
          Heard mode actingChannelID rooms e) origins returned.1) ∧
      (∃ origins, origins.Sublist (gate.decisionsOf "episodic") ∧
        List.Forall₂ (fun d e => Injected acting (storage.getD []) agentID d e ∧
          Heard mode actingChannelID rooms e) origins returned.2) ∧
      ∀ calls', ChangedCalls acting (resolveTurnAudience mode actingChannelID acting rooms)
          (storage.getD []) agentID calls calls' →
        (filterTurn mode actingChannelID acting rooms calls').1 =
            (filterTurn mode actingChannelID acting rooms calls).1 ∧
          (applyEpisodeProjections (filterTurn mode actingChannelID acting rooms calls').2 storage
            agentID history episodic).1 = returned := by
  intro gate returned
  have hcandidates : ∀ tier, (gate.decisionsOf tier).map Prod.fst = candidates calls tier := by
    intro tier
    rw [decisionsOf_filterTurn, List.map_map]
    exact List.map_id _
  obtain ⟨g, hg, hlists⟩ := applyEpisodeProjections_eq gate storage agentID history episodic
  have hacting : gate.acting = acting := (filteredAll _ calls).acting
  rw [hacting] at hlists
  refine ⟨hcandidates, ?_, ?_, fun calls' h =>
    ⟨filterTurn_congr h, applyEpisodeProjections_congr history episodic h⟩⟩
  · rw [show returned = _ from hlists]
    exact origins_filterTurn (by decide) ⟨rfl, rfl, rfl⟩ hhistory
  · rw [show returned = _ from hlists]
    exact origins_filterTurn (by decide) hg.same hepisodic

theorem applyEpisodeProjections_no_read_up_one_entry :
    (applyEpisodeProjections (filterTurn .live (some "room") (some "internal") ∅
      [("episodic", [⟨"e", "text", some "i", some "secret", some "dm"⟩])]).2
      (some [⟨"agent", "i", "episode", "public", "less"⟩]) "agent" [] []).1 =
        ([], [⟨"e", "less", some "i", some "public", some "dm"⟩]) ∧
      ∃ origins : List (Episode × Bool), List.Forall₂ (fun d e =>
        Injected (some "internal") [⟨"agent", "i", "episode", "public", "less"⟩] "agent" d e ∧
          Heard .live (some "room") ∅ e) origins
        [⟨"e", "less", some "i", some "public", some "dm"⟩] := by
  have hreturned : (applyEpisodeProjections (filterTurn .live (some "room") (some "internal") ∅
      [("episodic", [⟨"e", "text", some "i", some "secret", some "dm"⟩])]).2
      (some [⟨"agent", "i", "episode", "public", "less"⟩]) "agent" [] []).1 =
        ([], [⟨"e", "less", some "i", some "public", some "dm"⟩]) := by decide +kernel
  obtain ⟨-, -, ⟨origins, -, horigins⟩, -⟩ := applyEpisodeProjections_no_read_up .live (some "room")
    (some "internal") ∅ [("episodic", [⟨"e", "text", some "i", some "secret", some "dm"⟩])]
    (some [⟨"agent", "i", "episode", "public", "less"⟩]) "agent" (List.nil_sublist _)
    (List.nil_sublist _)
  rw [hreturned] at horigins
  exact ⟨hreturned, origins, horigins⟩

/-- Two candidates of a tier with one id: the label of the one tells on what stands for the
other, which is of another interaction. -/
theorem applyEpisodeProjections_shared_id :
    ∃ (rooms : RoomTable) (row : ProjectionRow) (a a' b : Episode),
      HiddenChange (some "restricted")
          (resolveTurnAudience .live (some "room") (some "restricted") rooms) [row] "agent"
          "episodic" [] a a' ∧
        (applyEpisodeProjections (filterTurn .live (some "room") (some "restricted") rooms
            [("episodic", [a', b])]).2 (some [row]) "agent" [] []).1 ≠
          (applyEpisodeProjections (filterTurn .live (some "room") (some "restricted") rooms
            [("episodic", [a, b])]).2 (some [row]) "agent" [] []).1 := by
  refine ⟨AList.insert "dm" (some {"alice"}) (AList.insert "room" (some {"alice", "bob"}) ∅),
    ⟨"agent", "i2", "episode", "public", "less"⟩, ⟨"e", "text", some "i1", some "internal",
    some "dm"⟩, ⟨"e", "text", some "i1", some "secret", some "dm"⟩, ⟨"e", "other", some "i2",
    some "secret", some "room"⟩, ⟨by decide +kernel, ?_, rfl, rfl, rfl, ?_⟩, by decide +kernel⟩
  · rintro e he - - row hrow ⟨-, -, hentryID, -, -⟩
    obtain rfl := List.mem_singleton.mp he
    obtain rfl := List.mem_singleton.mp hrow
    revert hentryID
    decide
  · intro rank hrank
    have hsecret : entryRankOrWithhold (some "secret") = some 3 := by decide
    obtain rfl : 3 = rank := Option.some.inj (hsecret.symm.trans hrank)
    exact ⟨1, by decide, by decide⟩

end Persatrix.Agents
