import Persatrix.CatchUpRuns
import Persatrix.InteractionRuns
import Mathlib.Data.List.Perm.Subperm

/-!
# No message in two records of a pass

A row is filed once, and a close moves a record from the open ones to the closed ones: the ids in the
replayed records of a pass are ids of different rows.
-/
namespace Persatrix.Interactions
open scoped List

variable {cfg : Config} {h : History} {a : Arrival} {t u v : Tracker} {scope : String}

/-- The ids of the messages in replayed records. -/
def ledger (t : Tracker) : List (Option String) :=
  ((t.opened.values ++ t.closed).filter Interaction.replayed).flatMap Interaction.messageIDs

/-- The ids of some records, as they count in the ledger. -/
def replayedIDs (records : List Interaction) : List (Option String) :=
  (records.filter Interaction.replayed).flatMap Interaction.messageIDs

theorem ledger_eq (t : Tracker) : ledger t = replayedIDs t.opened.values ++ replayedIDs t.closed := by
  unfold ledger replayedIDs
  rw [List.filter_append, List.flatMap_append]

theorem replayedIDs_append (l m : List Interaction) :
    replayedIDs (l ++ m) = replayedIDs l ++ replayedIDs m := by
  unfold replayedIDs
  rw [List.filter_append, List.flatMap_append]

theorem replayedIDs_perm {l m : List Interaction} (hperm : l.Perm m) :
    (replayedIDs l).Perm (replayedIDs m) := (hperm.filter _).flatMap_right _

theorem replayedIDs_singleton (r : Interaction) :
    replayedIDs [r] = if r.replayed then r.messageIDs else [] := by
  unfold replayedIDs
  rw [List.filter_singleton]
  cases r.replayed with
  | true => exact List.append_nil _
  | false => rfl

/-- An open record that is moved to the closed ones keeps its ids. -/
theorem ledger_move {r done : Interaction} (hr : r ∈ t.opened.values)
    (hopened : u.opened = t.opened.erase r.key) (hclosed : u.closed = t.closed ++ [done])
    (hids : replayedIDs [done] = replayedIDs [r]) : (ledger u).Perm (ledger t) := by
  have hperm : (replayedIDs t.opened.values).Perm
      (replayedIDs [r] ++ replayedIDs (t.opened.erase r.key).values) := by
    rw [← replayedIDs_append]
    exact replayedIDs_perm (Keyed.perm_erase hr)
  rw [ledger_eq, ledger_eq, hopened, hclosed, replayedIDs_append, hids, ← List.append_assoc]
  calc replayedIDs (t.opened.erase r.key).values ++ replayedIDs t.closed ++ replayedIDs [r]
      _ ~ replayedIDs [r] ++ (replayedIDs (t.opened.erase r.key).values ++ replayedIDs t.closed) :=
        List.perm_append_comm
      _ = replayedIDs [r] ++ replayedIDs (t.opened.erase r.key).values ++ replayedIDs t.closed :=
        (List.append_assoc _ _ _).symm
      _ ~ replayedIDs t.opened.values ++ replayedIDs t.closed :=
        hperm.symm.append_right _

theorem ledger_closeRecord (t : Tracker) (r : Interaction) (reason : CloseReason)
    (c : Option Bool) : (ledger (t.closeRecord r reason c).2).Perm (ledger t) := by
  rcases closeRecord_cases t r reason c with hsame | ⟨s, hs, -, -, hsame⟩
  · rw [hsame]
  · rw [hsame]
    have hfields : (t.closeRecord s reason c).2.opened = t.opened.erase s.key ∧
        (t.closeRecord s reason c).2.closed = t.closed ++ [s.close reason c] := by
      rw [closeRecord_of_mem hs]
      dsimp only
      split
      · exact ⟨rfl, rfl⟩
      · exact ⟨rfl, rfl⟩
    refine ledger_move hs hfields.1 hfields.2 ?_
    rw [replayedIDs_singleton, replayedIDs_singleton]
    rfl

theorem ledger_foldl {β : Type} {f : Tracker → β → Tracker}
    (hf : ∀ t b, (ledger (f t b)).Perm (ledger t)) (l : List β) (t : Tracker) :
    (ledger (l.foldl f t)).Perm (ledger t) := by
  induction l generalizing t with
  | nil => exact .refl _
  | cons b l ih => exact (ih (f t b)).trans (hf t b)

theorem ledger_closeStaleRecords (t : Tracker) :
    (ledger (closeStaleRecords cfg scope a t)).Perm (ledger t) := by
  refine ledger_foldl (fun t r => ?_) _ t
  unfold closeIfStale
  split
  · exact .refl _
  · exact ledger_closeRecord t r _ _

theorem ledger_closeScope (t : Tracker) (scope : String) (reason : CloseReason)
    (admits : Interaction → Bool) : (ledger (t.closeScope scope reason admits)).Perm (ledger t) :=
  ledger_foldl (fun t r => ledger_closeRecord t r reason none) _ t

theorem ledger_observe (t : Tracker) (messageID : String) (replayed : Bool) :
    ledger (t.observeWireMessage messageID replayed).2 = ledger t := by
  obtain ⟨hopened, hclosed, -⟩ := opened_observe t messageID replayed
  unfold ledger
  rw [hopened, hclosed]

theorem messageIDs_append (r : Interaction) (turn : Turn) :
    (r.append turn).messageIDs = r.messageIDs ++ [turn.payload.messageID] := List.map_append

/-- The turn adds its id to the ledger if its record is replayed. -/
theorem ledger_filed {r : Interaction} {turn : Turn} (hbase : IsBase cfg scope a t r)
    (hfiled : Filed cfg scope a t u r turn) :
    (ledger u).Perm (ledger t ++ if r.replayed then [turn.payload.messageID] else []) := by
  have hkey := hbase.key
  -- what is open is the record, if it was, and the others
  have hopened : (replayedIDs t.opened.values ++
      if r.replayed then [turn.payload.messageID] else []).Perm
        (replayedIDs [r.append turn] ++ replayedIDs (t.opened.erase r.key).values) := by
    rw [replayedIDs_singleton, messageIDs_append]
    have hreplayed : (r.append turn).replayed = r.replayed := rfl
    rw [hreplayed]
    rcases hbase with hget | ⟨hnone, hfresh⟩
    · have hr := (Keyed.get_eq_some.mp hget).1
      have hperm := replayedIDs_perm (Keyed.perm_erase hr)
      rw [← List.singleton_append, replayedIDs_append, replayedIDs_singleton] at hperm
      refine (hperm.append_right _).trans ?_
      cases r.replayed with
      | true =>
        simp only [if_true, List.append_assoc]
        exact (List.perm_append_comm).append_left _
      | false =>
        simp only [Bool.false_eq_true, if_false, List.append_nil]
        exact .refl _
    · have hgone : t.opened.erase r.key = t.opened := by
        rw [hkey]
        exact Keyed.erase_of_get_none hnone
      have hempty : r.messageIDs = [] := congrArg Span.messageIDs hfresh.span
      rw [hgone, hempty, List.nil_append]
      exact List.perm_append_comm
  cases hfiled with
  | capped cap opened closed cut =>
    have hids : replayedIDs [(r.append turn).close .maxTurns none] = replayedIDs [r.append turn] := by
      rw [replayedIDs_singleton, replayedIDs_singleton]
      rfl
    rw [ledger_eq, ledger_eq, opened, closed, replayedIDs_append, hids, ← hkey]
    calc replayedIDs (t.opened.erase r.key).values ++
          (replayedIDs t.closed ++ replayedIDs [r.append turn])
        _ ~ replayedIDs t.closed ++ replayedIDs [r.append turn] ++
            replayedIDs (t.opened.erase r.key).values := List.perm_append_comm
        _ = replayedIDs t.closed ++ (replayedIDs [r.append turn] ++
            replayedIDs (t.opened.erase r.key).values) := List.append_assoc _ _ _
        _ ~ replayedIDs t.closed ++ (replayedIDs t.opened.values ++
            if r.replayed then [turn.payload.messageID] else []) := hopened.symm.append_left _
        _ = replayedIDs t.closed ++ replayedIDs t.opened.values ++
            (if r.replayed then [turn.payload.messageID] else []) :=
          (List.append_assoc _ _ _).symm
        _ ~ replayedIDs t.opened.values ++ replayedIDs t.closed ++
            (if r.replayed then [turn.payload.messageID] else []) :=
          List.perm_append_comm.append_right _
  | «open» cap opened closed cut =>
    set final := (r.append turn).stamped (scopeWireAnchor scope a.event)
      a.event.metadata.previousInteractionID with hfinal
    obtain ⟨-, -, -, hreplayed, -, hmessages⟩ := isOpen_stamped (scopeWireAnchor scope a.event)
      a.event.metadata.previousInteractionID (r.append turn)
    have hids : replayedIDs [final] = replayedIDs [r.append turn] := by
      rw [replayedIDs_singleton, replayedIDs_singleton, hfinal, hreplayed, hmessages]
    have hput : (replayedIDs (t.opened.put final).values).Perm
        (replayedIDs [final] ++ replayedIDs (t.opened.erase r.key).values) := by
      have hkept : final.key = r.key := key_stamped _ _ _
      rw [← replayedIDs_append, ← hkept]
      exact replayedIDs_perm Keyed.perm_put
    rw [hids] at hput
    rw [ledger_eq, ledger_eq, opened, closed]
    calc replayedIDs (t.opened.put final).values ++ replayedIDs t.closed
        _ ~ replayedIDs t.opened.values ++
            (if r.replayed then [turn.payload.messageID] else []) ++ replayedIDs t.closed :=
          (hput.trans hopened.symm).append_right _
        _ = replayedIDs t.opened.values ++
            ((if r.replayed then [turn.payload.messageID] else []) ++ replayedIDs t.closed) :=
          List.append_assoc _ _ _
        _ ~ replayedIDs t.opened.values ++
            (replayedIDs t.closed ++ if r.replayed then [turn.payload.messageID] else []) :=
          List.perm_append_comm.append_left _
        _ = replayedIDs t.opened.values ++ replayedIDs t.closed ++
            (if r.replayed then [turn.payload.messageID] else []) :=
          (List.append_assoc _ _ _).symm

/-! ### Every step -/

theorem ledger_receive (t : Tracker) (a : Arrival) : (ledger (receive cfg t a)).Perm (ledger t) := by
  unfold receive
  split
  · exact .refl _
  · refine (ledger_closeStaleRecords _).trans ?_
    rw [ledger_observe]

theorem ledger_finish (t : Tracker) (a : Arrival) : (ledger (finish cfg t a)).Perm (ledger t) := by
  unfold finish
  split
  · exact .refl _
  · split
    · exact ledger_closeScope _ _ _ _
    · exact .refl _

theorem ledger_sweepRecord (completed : List String) (gaps : List (String × String)) (t : Tracker)
    (r : Interaction) : (ledger (sweepRecord completed gaps t r)).Perm (ledger t) := by
  unfold sweepRecord
  split
  · exact ledger_closeRecord t r _ _
  · exact .refl _

theorem ledger_idleCheck (expired : List (Interaction × CloseReason)) (t : Tracker) :
    (ledger (expired.foldl (fun t p => (t.closeRecord p.1 p.2 none).2) t)).Perm (ledger t) :=
  @ledger_foldl (Interaction × CloseReason) (fun t p => (t.closeRecord p.1 p.2 none).2)
    (fun t p => ledger_closeRecord t p.1 p.2 none) expired t

/-- The id under which the message of a row is kept. -/
def rowID (a : Arrival) : Option String := present a.event.messageID

theorem ledger_row (hsep : h.SeparateScopes cfg) {x : Window} (hx : x ∈ h.windows)
    (ha : a ∈ x.rows) (hsteady : Steady cfg h t) :
    (ledger (handleMultiTurnEvent cfg t a)).Subperm (ledger t ++ [rowID a]) := by
  unfold handleMultiTurnEvent
  cases hscope : scopeForMultiTurnEvent cfg a.event with
  | none => exact (List.sublist_append_left _ _).subperm
  | some scope =>
    dsimp only
    have hobserved := hsteady.observe (a.event.messageID.getD "") a.event.metadata.replayMode
    have hsame := ledger_observe t (a.event.messageID.getD "") a.event.metadata.replayMode
    generalize t.observeWireMessage (a.event.messageID.getD "") a.event.metadata.replayMode =
      observed at hobserved hsame
    obtain ⟨duplicate, u⟩ := observed
    dsimp only at hobserved hsame ⊢
    have hfan := @ledger_closeStaleRecords cfg a scope u
    rw [hsame] at hfan
    obtain ⟨r, hbase, hfiled, -, -⟩ :=
      @filed cfg scope a (closeStaleRecords cfg scope a u) hobserved.closeStaleRecords.healthy
        (buildTurnPayload a.event a.summary duplicate)
    obtain ⟨hin, -, -⟩ := base_inWindow hsep hx ha hscope hobserved.healthy hobserved.owned hbase
    have hturn := ledger_filed hbase hfiled
    rw [(inWindow_iff.mp hin).1, if_pos rfl] at hturn
    have hturned := hturn.trans (hfan.append_right _)
    split
    · exact ((ledger_closeScope _ _ _ _).trans hturned).subperm
    · exact hturned.subperm

theorem ledger_file (hlive : a.event.metadata.replayMode = false) (hhealthy : Healthy t)
    (hvacated : Vacated cfg t a) : (ledger (file cfg t a)).Perm (ledger t) := by
  unfold file
  cases hscope : scopeForMultiTurnEvent cfg a.event with
  | none => exact .refl _
  | some scope =>
    dsimp only
    obtain ⟨r, hbase, hfiled, -, -⟩ := @filed cfg scope a t hhealthy
      (buildTurnPayload a.event a.summary false)
    have hnot : r.replayed = false := by
      rcases hbase with hget | ⟨-, hfresh⟩
      · obtain ⟨hr, hkey⟩ := Keyed.get_eq_some.mp hget
        exact hvacated scope hscope r hr hkey
      · exact hfresh.replayed.trans hlive
    have hturn := ledger_filed hbase hfiled
    rwa [hnot, if_neg Bool.false_ne_true, List.append_nil] at hturn

/-- The rows that a pass has not come to. -/
def Stage.left : Stage → List Arrival
  | .replaying _ windows => windows.flatMap Window.rows
  | .stopped => []
  | .sweeping _ => []
  | .over => []

/-- The ids that are filed and those that may be are ids of different rows. -/
def Unrepeated (s : CatchUp) : Prop := (ledger s.tracker ++ s.stage.left.map rowID).Nodup

theorem Unrepeated.of_subperm {s s' : CatchUp} (hids : Unrepeated s)
    (hsub : (ledger s'.tracker ++ s'.stage.left.map rowID).Subperm
      (ledger s.tracker ++ s.stage.left.map rowID)) : Unrepeated s' := by
  obtain ⟨l, hperm, hsublist⟩ := hsub
  exact hperm.nodup_iff.mp (hids.sublist hsublist)

theorem subperm_append {l l' m m' : List (Option String)} (hl : l'.Subperm l)
    (hm : m'.Sublist m) : (l' ++ m').Subperm (l ++ m) :=
  ((List.subperm_append_right m').mpr hl).trans (hm.append_left l).subperm

theorem unrepeated_step (hsep : h.SeparateScopes cfg) {s s' : CatchUp} {e : CatchUpEvent}
    (hkept : Kept cfg h s) (hids : Unrepeated s)
    (hstep : (catchUpSystem cfg h).step s e = some s') : Unrepeated s' := by
  refine hids.of_subperm ?_
  cases CatchUp.steps_of_step hstep with
  | @row whole channelID a rows later hstage hhandling =>
    have hstageKept := hkept.stage
    rw [hstage] at hstageKept ⊢
    obtain ⟨done, hprogress, -⟩ := hstageKept
    obtain ⟨x, hx, ha, -⟩ := hprogress.window
    have hrow := ledger_row hsep hx ha hkept.steady
    have hsplit : ledger s.tracker ++
        (Stage.replaying whole (⟨channelID, a :: rows⟩ :: later)).left.map rowID =
          ledger s.tracker ++ [rowID a] ++
            (Stage.replaying whole (⟨channelID, rows⟩ :: later)).left.map rowID :=
      List.append_cons _ _ _
    rw [hsplit]
    exact subperm_append hrow (.refl _)
  | @rowRaises whole channelID a rows later gaps hstage =>
    rw [hstage]
    obtain ⟨hopened, hclosed, -⟩ := opened_noteReplayGap s.tracker channelID
      (a.event.senderID.getD "")
    have hledger : ledger (s.tracker.noteReplayGap channelID (a.event.senderID.getD "")) =
        ledger s.tracker := by
      unfold ledger
      rw [hopened, hclosed]
    dsimp only
    rw [hledger]
    exact subperm_append (.refl _) (List.sublist_cons_self _ _)
  | nextChannel hstage =>
    rw [hstage]
    exact .refl _
  | stop => exact subperm_append (.refl _) (List.nil_sublist _)
  | stopReceived => exact subperm_append (ledger_receive _ _).subperm (List.nil_sublist _)
  | beginSweep => exact subperm_append (.refl _) (List.nil_sublist _)
  | sweep => exact subperm_append (ledger_sweepRecord _ _ _ _).subperm (List.nil_sublist _)
  | endSweep => exact subperm_append (.refl _) (List.nil_sublist _)
  | receive => exact subperm_append (ledger_receive _ _).subperm (.refl _)
  | file hhandling =>
    obtain ⟨hlive, hvacated⟩ := hkept.received _ hhandling
    exact subperm_append (ledger_file hlive hkept.steady.healthy hvacated).subperm (.refl _)
  | finish => exact subperm_append (ledger_finish _ _).subperm (.refl _)
  | idleCheck expired =>
    exact subperm_append (ledger_idleCheck expired s.tracker).subperm (.refl _)

end Persatrix.Interactions

/-!
## What a pass derives

Where no two channels share a scope and no row that raises would have rotated away a record of another
speaker, each record that a pass derives is one that the clean pass derives, and no message is in two of
them.
-/
namespace Persatrix.Interactions

variable {cfg : Config} {h : History} {t : Tracker}

/-- Each record that a pass derives is, by its key and its messages, one that the clean pass derives,
and no two of them share a message. -/
structure DerivesCleanly (cfg : Config) (h : History) (t : Tracker) : Prop where
  clean : ∀ r ∈ derivedRecords t, ∃ c ∈ derivedRecords (cleanPass cfg h),
    c.key = r.key ∧ c.messageIDs = r.messageIDs
  disjoint : (derivedRecords t).Pairwise fun r c => r.messageIDs.Disjoint c.messageIDs

theorem derived_of_mem {r : Interaction} (hr : r ∈ derivedRecords t) :
    r.span ∈ (view r.window t).derived := by
  obtain ⟨hclosed, hboth⟩ := List.mem_filter.mp hr
  obtain ⟨hreplayed, hcomplete⟩ := Bool.and_eq_true_iff.mp hboth
  have hin : r.inWindow r.window = true := inWindow_iff.mpr ⟨hreplayed, rfl⟩
  refine List.mem_map_of_mem (List.mem_filter.mpr ⟨hclosed, ?_⟩)
  rw [hin, hcomplete]
  rfl

theorem mem_of_derived {w : String × String} {s : Span} (hs : s ∈ (view w t).derived) :
    ∃ r ∈ derivedRecords t, r.span = s := by
  obtain ⟨r, hr, rfl⟩ := List.mem_map.mp hs
  obtain ⟨hclosed, hboth⟩ := List.mem_filter.mp hr
  obtain ⟨hin, hcomplete⟩ := Bool.and_eq_true_iff.mp hboth
  refine ⟨r, List.mem_filter.mpr ⟨hclosed, ?_⟩, rfl⟩
  rw [(inWindow_iff.mp hin).1, hcomplete]
  rfl

theorem disjoint_of_nodup (hids : (ledger t).Nodup) :
    (derivedRecords t).Pairwise fun r c => r.messageIDs.Disjoint c.messageIDs := by
  rw [ledger_eq] at hids
  have hclosed := (List.nodup_flatMap.mp (List.nodup_append.mp hids).2.1).2
  have hsub : (derivedRecords t).Sublist (t.closed.filter Interaction.replayed) := by
    have hfilter : derivedRecords t =
        (t.closed.filter Interaction.replayed).filter Interaction.replayWindowComplete := by
      unfold derivedRecords
      rw [List.filter_filter]
      exact List.filter_congr fun r _ => Bool.and_comm _ _
    rw [hfilter]
    exact List.filter_sublist
  exact hclosed.sublist hsub

theorem interrupted_pass_derives_cleanly (cfg : Config) (h : History) (hsep : h.SeparateScopes cfg)
    {s : CatchUp} (hreached : (catchUpSystem cfg h).Reaches (Contained cfg) s) :
    DerivesCleanly cfg h s.tracker := by
  have hkept : Kept cfg h s ∧ Unrepeated s := by
    induction hreached with
    | init =>
      refine ⟨kept_init, ?_⟩
      exact h.ids
    | step _ hcontained hstep ih =>
      obtain ⟨hkept, hids⟩ := ih
      exact ⟨kept_step hsep hkept hcontained hstep, unrepeated_step hsep hkept hids hstep⟩
  constructor
  · intro r hr
    have hclean := derived_of_kept hsep hkept.1 r.window r.span (derived_of_mem hr)
    obtain ⟨c, hc, hspan⟩ := mem_of_derived hclean
    exact ⟨c, hc, congrArg Span.key hspan, congrArg Span.messageIDs hspan⟩
  · exact disjoint_of_nodup (List.nodup_append.mp hkept.2).1

/-! ### The clean pass is a pass -/

section Clean
variable {c : List String} {whole : Bool} {channelID : String} {later : List Window}

theorem reaches_rows {rows : List Arrival}
    (hreached : (catchUpSystem cfg h).Reaches (Contained cfg)
      { tracker := t, completed := c, stage := .replaying whole (⟨channelID, rows⟩ :: later) }) :
    (catchUpSystem cfg h).Reaches (Contained cfg)
      { tracker := rows.foldl (handleMultiTurnEvent cfg) t, completed := c,
        stage := .replaying whole (⟨channelID, []⟩ :: later) } := by
  induction rows generalizing t with
  | nil => exact hreached
  | cons a rows ih => exact ih (@System.Reaches.step _ _ _ _ _ _ .row hreached trivial rfl)

theorem reaches_windows {windows : List Window}
    (hreached : (catchUpSystem cfg h).Reaches (Contained cfg)
      { tracker := t, completed := c, stage := .replaying true windows }) :
    ∃ c', (∀ x, x ∈ c' ↔ x ∈ c ∨ x ∈ windows.map Window.channelID) ∧
      (catchUpSystem cfg h).Reaches (Contained cfg)
        { tracker := (windows.flatMap Window.rows).foldl (handleMultiTurnEvent cfg) t,
          completed := c', stage := .replaying true [] } := by
  induction windows generalizing t c with
  | nil => exact ⟨c, fun x => ⟨.inl, fun hx => hx.resolve_right List.not_mem_nil⟩, hreached⟩
  | cons x windows ih =>
    obtain ⟨c', hc', hreached'⟩ := ih
      (@System.Reaches.step _ _ _ _ _ _ .nextChannel (reaches_rows hreached) trivial rfl)
    refine ⟨c', fun y => ?_, ?_⟩
    · rw [hc', List.map_cons, List.mem_cons, if_pos rfl, List.mem_cons]
      tauto
    · rw [List.flatMap_cons, List.foldl_append]
      exact hreached'

theorem reaches_sweep {rest : List Interaction}
    (hreached : (catchUpSystem cfg h).Reaches (Contained cfg)
      { tracker := t, completed := c, stage := .sweeping rest }) :
    (catchUpSystem cfg h).Reaches (Contained cfg)
      { tracker := rest.foldl (sweepRecord c []) t, completed := c, stage := .sweeping [] } := by
  induction rest generalizing t with
  | nil => exact hreached
  | cons r rest ih => exact ih (@System.Reaches.step _ _ _ _ _ _ .sweep hreached trivial rfl)

theorem sweepRecord_congr {c' : List String} {gaps : List (String × String)}
    (hsame : ∀ x, x ∈ c ↔ x ∈ c') : sweepRecord c gaps = sweepRecord c' gaps := by
  have hcontains : ∀ x, c.contains x = c'.contains x := by
    intro x
    rw [List.contains_eq_mem, List.contains_eq_mem]
    exact decide_eq_decide.mpr (hsame x)
  funext t r
  unfold sweepRecord
  dsimp only
  rw [hcontains]

/-- A pass with nothing in between ends as the clean pass does. -/
theorem reaches_cleanPass (cfg : Config) (h : History) :
    ∃ s, (catchUpSystem cfg h).Reaches (Contained cfg) s ∧ s.tracker = cleanPass cfg h ∧
      s.stage = .over := by
  obtain ⟨c, hc, hreached⟩ := @reaches_windows cfg h .init [] h.windows .init
  set t := (h.windows.flatMap Window.rows).foldl (handleMultiTurnEvent cfg) .init with ht
  have hstopped : (catchUpSystem cfg h).Reaches (Contained cfg)
      { tracker := t, completed := c, stage := .stopped } :=
    @System.Reaches.step _ _ _ _ _ _ (CatchUpEvent.stop false) hreached trivial rfl
  have hsweeping : (catchUpSystem cfg h).Reaches (Contained cfg)
      { tracker := t, completed := c, stage := .sweeping t.opened.values } :=
    @System.Reaches.step _ _ _ _ _ _ CatchUpEvent.beginSweep hstopped trivial rfl
  have hover : (catchUpSystem cfg h).Reaches (Contained cfg)
      { tracker := (t.opened.values.foldl (sweepRecord c []) t).clearReplayPassState,
        completed := c, stage := .over } :=
    @System.Reaches.step _ _ _ _ _ _ CatchUpEvent.endSweep (reaches_sweep hsweeping) trivial rfl
  refine ⟨_, hover, ?_, rfl⟩
  have hsame : ∀ x, x ∈ c ↔ x ∈ h.windows.map Window.channelID := by
    intro x
    rw [hc]
    exact ⟨fun hx => hx.resolve_left List.not_mem_nil, .inr⟩
  dsimp only
  rw [sweepRecord_congr hsame]
  rfl

end Clean

/-! ### Two passes over one window -/

def planningRow (sender wireID previousID messageID : String) : Arrival :=
  let a := roomMessage sender true wireID previousID
  { a with event := { a.event with messageID := some messageID } }

/-- A window in which a message of the first conversation comes after the second one has begun. -/
def planningHistory : History where
  windows := [⟨"group:planning", [planningRow "ada" "w1" "" "m1",
    planningRow "cy" "w2" "w1" "m2", planningRow "ada" "w1" "" "m3"]⟩]
  channels := List.nodup_singleton _
  named := by decide
  replayed := by decide
  ids := by decide

def uncappedConfig : Config := ⟨"bo", "", none⟩

theorem planning_separate : planningHistory.SeparateScopes uncappedConfig := by
  intro w hw _ _ x hx _ _ _ _ _
  rw [List.mem_singleton.mp hw, List.mem_singleton.mp hx]

/-- The last row raises, and a live message comes in before the sweep: what is left is derived as in the
clean pass. -/
theorem interrupted_pass_derives_two :
    ∃ s : CatchUp, (derivedRecords s.tracker).length = 2 ∧
      DerivesCleanly uncappedConfig planningHistory s.tracker := by
  obtain ⟨s, hexec, hlength⟩ : ∃ s : CatchUp,
      ((catchUpSystem uncappedConfig planningHistory).guarded (Contained uncappedConfig)).exec
        [.row, .row, .rowRaises, .nextChannel, .stop false,
          .receive (roomMessage "eve" false "w2" "w1"), .file, .finish, .beginSweep, .sweep, .sweep,
          .endSweep] = some s ∧ (derivedRecords s.tracker).length = 2 :=
    System.exists_of_exec (by decide +kernel)
  exact ⟨s, hlength, interrupted_pass_derives_cleanly uncappedConfig planningHistory
    planning_separate (System.reachable_exec hexec).of_guarded⟩

/-- The second row raises, and the rotation it stood for is lost with it. -/
theorem interrupted_pass_merges :
    ¬ ∀ (cfg : Config) (h : History) (s : CatchUp), (catchUpSystem cfg h).Reachable s →
      DerivesCleanly cfg h s.tracker := by
  intro hall
  obtain ⟨s, hexec, hmerged⟩ : ∃ s, (catchUpSystem uncappedConfig planningHistory).exec
      [.row, .rowRaises, .row, .nextChannel, .stop false, .beginSweep, .sweep, .endSweep] =
        some s ∧ ¬ ∀ r ∈ derivedRecords s.tracker,
          ∃ c ∈ derivedRecords (cleanPass uncappedConfig planningHistory),
            c.key = r.key ∧ c.messageIDs = r.messageIDs := System.exists_of_exec (by decide)
  exact hmerged (hall uncappedConfig planningHistory s (System.reachable_exec hexec)).clean

/-- A row of a thread; its channel is a room. -/
def threadRow (channelID messageID : String) : Arrival :=
  let a := roomMessage "ada" true "" ""
  { a with event := { a.event with
      channelID := some channelID
      threadID := some "t1"
      messageID := some messageID } }

/-- Two rooms with rows of one thread. -/
def threadHistory : History where
  windows := [⟨"group:planning", [threadRow "group:planning" "m1"]⟩,
    ⟨"group:budget", [threadRow "group:budget" "m2"]⟩]
  channels := by decide
  named := by decide
  replayed := by decide
  ids := by decide

end Persatrix.Interactions
