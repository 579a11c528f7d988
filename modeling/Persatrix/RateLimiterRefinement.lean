import Persatrix.Indexed
import Persatrix.RateLimiter
import Persatrix.Recency
import Mathlib.Data.Int.Order.Basic
import Mathlib.Data.List.Induction
import Mathlib.Data.List.TakeWhile

/-!
# The rate limiter counts the admitted calls in the window

The reference keeps every admission time of every tracked agent, in a store of agents
ordered by last use, and counts those in the window. The ring of an agent holds what is
left of that history after the expired times in front are forgotten; as times are
admitted in order, nothing in the window is behind an expired time.
-/
namespace Persatrix.Security

abbrev AgentTable (capacity : ℕ) := Recency String (List ℤ) Unit capacity

/-- The times later than `now` minus the window. -/
def inWindow (window now : ℤ) (history : List ℤ) : List ℤ :=
  history.filter fun t => now - window < t

namespace AgentTable
variable {capacity : ℕ}

def history (r : AgentTable capacity) (agent : String) : List ℤ :=
  match r.find agent with
  | some e => e.value
  | none => []

/-- The agents that lose their place when `agent` is used. -/
def evicted (r : AgentTable capacity) (agent : String) : List String :=
  if (r.find agent).isNone ∧ capacity ≤ r.entries.length then (r.lru.map Used.key).toList else []

def allow (hpos : 0 < capacity) (limit window : ℤ) (r : AgentTable capacity) (agent : String)
    (now : ℤ) : AgentTable capacity × Bool × List String :=
  let history := r.history agent
  let ok := decide ((inWindow window now history).length < limit)
  (r.put hpos agent (if ok then history ++ [now] else history) (), ok, r.evicted agent)

def reset (r : AgentTable capacity) (agent : String) : AgentTable capacity × Bool :=
  (r.keep (r.others agent) (r.others_sublist agent), (r.find agent).isSome)

end AgentTable

/-- In a sorted list the elements above a bound follow the ones up to it. -/
theorem dropWhile_eq_filter {l : List ℤ} (h : l.Pairwise (· ≤ ·)) (cutoff : ℤ) :
    l.dropWhile (fun t => ¬ cutoff < t) = l.filter fun t => cutoff < t := by
  induction l with
  | nil => rfl
  | cons t l ih =>
    obtain ⟨hhead, htail⟩ := List.pairwise_cons.mp h
    by_cases hlive : cutoff < t
    · have hall : ∀ u ∈ l, cutoff < u := fun u hu => lt_of_lt_of_le hlive (hhead u hu)
      have hfilter : l.filter (fun u => cutoff < u) = l := by
        apply List.filter_eq_self.mpr
        intro u hu
        exact decide_eq_true (hall u hu)
      simp [hlive, hfilter]
    · have hle : t ≤ cutoff := not_lt.mp hlive
      rw [List.dropWhile_cons, List.filter_cons, if_pos (decide_eq_true hlive),
        if_neg (by simpa using hle)]
      exact ih htail

/-- The ring holds the end of the history; what is before it has expired. -/
structure Tracks (limit : ℕ) (window now : ℤ) (ring : RingBuffer ℤ) (history : List ℤ) : Prop where
  capacity : ring.slots.length = limit
  rest : ∃ gone, history = gone ++ ring.live ∧ ∀ t ∈ gone, t ≤ now - window
  sorted : history.Pairwise (· ≤ ·)
  past : ∀ t ∈ history, t ≤ now

namespace Tracks
variable {limit : ℕ} {window now later : ℤ} {ring : RingBuffer ℤ} {history : List ℤ}

theorem new {n : ℕ} (hpos : 0 < n) (hlimit : n = limit) :
    Tracks limit window now (RingBuffer.new 0 n hpos) [] where
  capacity := by simp [RingBuffer.new, hlimit]
  rest := ⟨[], rfl, by simp⟩
  sorted := List.Pairwise.nil
  past := by simp

theorem mono (h : Tracks limit window now ring history) (hlater : now ≤ later) :
    Tracks limit window later ring history where
  capacity := h.capacity
  rest := by
    obtain ⟨gone, heq, hgone⟩ := h.rest
    refine ⟨gone, heq, ?_⟩
    intro t ht
    have hexpired := hgone t ht
    omega
  sorted := h.sorted
  past t ht := Int.le_trans (h.past t ht) hlater

theorem evict_live (ring : AgentRing) (cutoff : ℤ) :
    (ring.evictOlderThan cutoff).calls.live =
      ring.calls.live.dropWhile fun t => ¬ cutoff < t := by
  unfold AgentRing.evictOlderThan
  split_ifs with hempty
  · have hnil : ring.calls.live = [] :=
      List.eq_nil_of_length_eq_zero (by rw [ring.calls.live_length, hempty])
    rw [hnil]
    rfl
  · exact RingBuffer.live_dropOldest_leading _ _

theorem evict_slots (ring : AgentRing) (cutoff : ℤ) :
    (ring.evictOlderThan cutoff).calls.slots = ring.calls.slots := by
  unfold AgentRing.evictOlderThan
  split_ifs <;> rfl

/-- After the expired times are dropped the ring holds the times in the window. -/
theorem evict {ring : AgentRing} (h : Tracks limit window now ring.calls history) :
    (ring.evictOlderThan (now - window)).calls.live = inWindow window now history ∧
      Tracks limit window now (ring.evictOlderThan (now - window)).calls history := by
  obtain ⟨gone, heq, hgone⟩ := h.rest
  have hsorted : ring.calls.live.Pairwise (· ≤ ·) := by
    have hall := h.sorted
    rw [heq] at hall
    exact (List.pairwise_append.mp hall).2.1
  have hlive : (ring.evictOlderThan (now - window)).calls.live = inWindow window now history := by
    have hnone : gone.filter (fun t => now - window < t) = [] := by
      apply List.filter_eq_nil_iff.mpr
      intro t ht
      simpa using hgone t ht
    rw [evict_live, dropWhile_eq_filter hsorted, inWindow, heq, List.filter_append, hnone,
      List.nil_append]
  refine ⟨hlive, ?_⟩
  constructor
  · rw [evict_slots]
    exact h.capacity
  · have hsplit : ring.calls.live = ring.calls.live.takeWhile (fun t => ¬ now - window < t) ++
        ring.calls.live.dropWhile (fun t => ¬ now - window < t) :=
      List.takeWhile_append_dropWhile.symm
    refine ⟨gone ++ ring.calls.live.takeWhile (fun t => ¬ now - window < t), ?_, ?_⟩
    · rw [evict_live, List.append_assoc, ← hsplit]
      exact heq
    · intro t ht
      rcases List.mem_append.mp ht with hold | htaken
      · exact hgone t hold
      · simpa using List.mem_takeWhile_imp htaken
  · exact h.sorted
  · exact h.past

/-- A ring that is not full takes one more time and overwrites none. -/
theorem append (h : Tracks limit window now ring history) (hroom : ring.count < limit) :
    (ring.push now).live = ring.live ++ [now] ∧
      Tracks limit window now (ring.push now) (history ++ [now]) := by
  have hlive := ring.live_push now (by rw [h.capacity]; exact hroom)
  refine ⟨hlive, ?_⟩
  constructor
  · rw [ring.push_slots_length]
    exact h.capacity
  · obtain ⟨gone, heq, hgone⟩ := h.rest
    refine ⟨gone, ?_, hgone⟩
    rw [hlive, heq, List.append_assoc]
  · apply List.pairwise_append.mpr
    refine ⟨h.sorted, List.pairwise_singleton _ _, ?_⟩
    intro t ht u hu
    rw [List.mem_singleton.mp hu]
    exact h.past t ht
  · intro t ht
    rcases List.mem_append.mp ht with hold | hnew
    · exact h.past t hold
    · exact (List.mem_singleton.mp hnew).le

/-- A call admits when the reference does, and the ring follows the history. -/
theorem admission {cfg : RateLimitConfig} {ring : AgentRing}
    (h : Tracks limit window now ring.calls history) (hlimit : cfg.callsPerWindow = limit) :
    let ok := decide ((inWindow window now history).length < cfg.callsPerWindow)
    (RateLimiter.admitCall cfg ring (now - window) now).2 = ok ∧
      (RateLimiter.admitCall cfg ring (now - window) now).1.agentID = ring.agentID ∧
      Tracks limit window now (RateLimiter.admitCall cfg ring (now - window) now).1.calls
        (if ok then history ++ [now] else history) := by
  obtain ⟨hlive, hevict⟩ := h.evict
  have hcount : (ring.evictOlderThan (now - window)).calls.count =
      (inWindow window now history).length := by
    rw [← hlive, RingBuffer.live_length]
  have hname : (ring.evictOlderThan (now - window)).agentID = ring.agentID := by
    unfold AgentRing.evictOlderThan
    split_ifs <;> rfl
  unfold RateLimiter.admitCall
  dsimp only
  rw [hcount]
  by_cases hok : (inWindow window now history).length < cfg.callsPerWindow
  · have hroom : (ring.evictOlderThan (now - window)).calls.count < limit := by
      rw [hlimit] at hok
      rw [hcount]
      exact_mod_cast hok
    rw [if_pos hok, decide_eq_true hok]
    exact ⟨rfl, hname, (hevict.append hroom).2⟩
  · rw [if_neg hok, decide_eq_false hok]
    exact ⟨rfl, hname, hevict⟩

end Tracks
/-- The list of elements and the map over it stand for the entries, in the same order. -/
structure Represents (limit : ℕ) (window now : ℤ) (rl : RateLimiter)
    (entries : List (Used String (List ℤ) Unit)) : Prop where
  indexed : Indexed rl.rings rl.lru (fun a => (rl.element a).agentID) rl.allocated
  order : rl.lru.map (fun a => (rl.element a).agentID) = entries.map Used.key
  tracks : ∀ a ∈ rl.lru, ∀ e ∈ entries, e.key = (rl.element a).agentID →
    Tracks limit window now (rl.element a).calls e.value
  named : ∀ e ∈ entries, e.key ≠ ""
  limit_eq : rl.cfg.callsPerWindow = limit

namespace Represents
variable {limit : ℕ} {window now later : ℤ} {rl : RateLimiter}
  {entries : List (Used String (List ℤ) Unit)}

theorem mono (h : Represents limit window now rl entries) (hlater : now ≤ later) :
    Represents limit window later rl entries where
  indexed := h.indexed
  order := h.order
  tracks a ha e he hkey := (h.tracks a ha e he hkey).mono hlater
  named := h.named
  limit_eq := h.limit_eq

theorem length (h : Represents limit window now rl entries) :
    rl.rings.keys.length = entries.length := by
  have hlength := congrArg List.length h.order
  rw [List.length_map, List.length_map] at hlength
  rw [h.indexed.length_keys, hlength]

theorem throttle (h : Represents limit window now rl entries) (lastEmit : GoMap String ℤ) :
    Represents limit window now { rl with lastEmit := lastEmit } entries :=
  ⟨h.indexed, h.order, h.tracks, h.named, h.limit_eq⟩

/-- The elements without one of them are the entries without its agent. -/
theorem erase_order (h : Represents limit window now rl entries) {elem : ℕ} (helem : elem ∈ rl.lru) :
    (rl.lru.erase elem).map (fun a => (rl.element a).agentID) =
      (entries.filter fun e => e.key ≠ (rl.element elem).agentID).map Used.key := by
  have horder : (rl.lru.map fun a => (rl.element a).agentID).filter
        (fun k => k ≠ (rl.element elem).agentID) =
      (entries.map Used.key).filter fun k => k ≠ (rl.element elem).agentID :=
    congrArg _ h.order
  rw [List.filter_map, List.filter_map] at horder
  rw [h.indexed.nodup.erase_eq_filter]
  refine Eq.trans ?_ horder
  congr 1
  apply List.filter_congr
  intro a ha
  have hiff : a ≠ elem ↔ (rl.element a).agentID ≠ (rl.element elem).agentID := by
    constructor
    · intro hne hkey
      exact hne (h.indexed.inj ha helem hkey)
    · intro hne hsame
      exact hne (by rw [hsame])
  rw [Bool.eq_iff_iff]
  simpa using hiff

/-- Taking an agent out of the list and the map is taking it out of the entries. -/
theorem erase (h : Represents limit window now rl entries) {elem : ℕ} (helem : elem ∈ rl.lru)
    (lastEmit : GoMap String ℤ) :
    Represents limit window now
      { rl with
        lru := rl.lru.erase elem
        rings := rl.rings.erase (rl.element elem).agentID
        lastEmit := lastEmit }
      (entries.filter fun e => e.key ≠ (rl.element elem).agentID) where
  indexed := h.indexed.erase helem
  order := h.erase_order helem
  tracks a ha e he hkey :=
    h.tracks a (List.mem_of_mem_erase ha) e (List.mem_of_mem_filter he) hkey
  named e he := h.named e (List.mem_of_mem_filter he)
  limit_eq := h.limit_eq

/-- A tracked agent moves to the front. -/
theorem toFront (h : Represents limit window now rl entries) {elem : ℕ} (helem : elem ∈ rl.lru)
    {e : Used String (List ℤ) Unit} (he : e ∈ entries) (hkey : e.key = (rl.element elem).agentID)
    (n : ℕ) :
    Represents limit window now { rl with lru := elem :: rl.lru.erase elem }
      (⟨e.key, e.value, (), n⟩ :: entries.filter fun other => other.key ≠ e.key) where
  indexed := h.indexed.perm (List.perm_cons_erase helem).symm
  order := by
    rw [List.map_cons, List.map_cons, hkey, h.erase_order helem]
  tracks a ha other hother hname := by
    have hmem : a ∈ rl.lru := (List.perm_cons_erase helem).mem_iff.mpr ha
    rcases List.mem_cons.mp hother with rfl | hrest
    · exact h.tracks a hmem e he hname
    · exact h.tracks a hmem other (List.mem_of_mem_filter hrest) hname
  named other hother := by
    rcases List.mem_cons.mp hother with rfl | hrest
    · exact h.named e he
    · exact h.named other (List.mem_of_mem_filter hrest)
  limit_eq := h.limit_eq

/-- A new agent goes to the front, with an empty ring. -/
theorem push (h : Represents limit window now rl entries) {agentID : String} (hne : agentID ≠ "")
    (hnew : rl.rings.lookup agentID = none) {ring : RingBuffer ℤ}
    (hring : Tracks limit window now ring []) (n : ℕ) :
    Represents limit window now
      { rl with
        lru := rl.allocated :: rl.lru
        element := Function.update rl.element rl.allocated ⟨agentID, ring⟩
        allocated := rl.allocated + 1
        rings := AList.insert agentID rl.allocated rl.rings }
      (⟨agentID, [], (), n⟩ :: entries) := by
  have hfresh := h.indexed.allocated_not_mem
  have hold : ∀ a ∈ rl.lru,
      Function.update rl.element rl.allocated ⟨agentID, ring⟩ a = rl.element a := by
    intro a ha
    apply Function.update_of_ne
    intro hsame
    subst hsame
    exact hfresh ha
  have hkeys : rl.lru.map (fun a => (Function.update rl.element rl.allocated
      ⟨agentID, ring⟩ a).agentID) = entries.map Used.key := by
    rw [← h.order]
    apply List.map_congr_left
    intro a ha
    rw [hold a ha]
  constructor
  · apply (h.indexed.push hnew).congr
    intro a ha
    by_cases hsame : a = rl.allocated
    · subst hsame
      simp
    · simp [hsame]
  · dsimp only
    rw [List.map_cons, List.map_cons, Function.update_self, hkeys]
  · intro a ha e he hkey
    dsimp only at ha hkey ⊢
    rcases List.mem_cons.mp ha with rfl | ha
    · rw [Function.update_self] at hkey ⊢
      dsimp only at hkey
      rcases List.mem_cons.mp he with rfl | he
      · exact hring
      · have hmem : agentID ∈ rl.lru.map fun a => (rl.element a).agentID := by
          rw [h.order, ← hkey]
          exact List.mem_map_of_mem he
        obtain ⟨b, hb, hname⟩ := List.mem_map.mp hmem
        have hlookup := (h.indexed.lookup agentID b).mpr ⟨hb, hname⟩
        rw [hnew] at hlookup
        cases hlookup
    · rw [hold a ha] at hkey ⊢
      rcases List.mem_cons.mp he with rfl | he
      · have hlookup := (h.indexed.lookup agentID a).mpr ⟨ha, hkey.symm⟩
        rw [hnew] at hlookup
        cases hlookup
      · exact h.tracks a ha e he hkey
  · intro e he
    rcases List.mem_cons.mp he with rfl | he
    · exact hne
    · exact h.named e he
  · exact h.limit_eq

/-- The element at the back of the list is the last entry. -/
theorem evictTail (h : Represents limit window now rl entries) (hne : entries ≠ []) :
    rl.evictTailLocked.2 = (entries.getLast hne).key ∧
      rl.evictTailLocked.1.cfg = rl.cfg ∧ rl.evictTailLocked.1.element = rl.element ∧
      rl.evictTailLocked.1.lru ⊆ rl.lru ∧
      Represents limit window now rl.evictTailLocked.1 entries.dropLast := by
  have hback : rl.lru.getLast?.map (fun a => (rl.element a).agentID) =
      some (entries.getLast hne).key := by
    rw [← List.getLast?_map, h.order, List.getLast?_map, List.getLast?_eq_some_getLast hne]
    rfl
  obtain ⟨tail, htail, hkey⟩ := Option.map_eq_some_iff.mp hback
  have hmem := List.mem_of_getLast? htail
  unfold RateLimiter.evictTailLocked
  rw [htail]
  refine ⟨hkey, rfl, rfl, List.erase_subset, ?_⟩
  have herase := h.erase hmem (rl.lastEmit.erase (rl.element tail).agentID)
  have hlast : (entries.filter fun e => e.key ≠ (rl.element tail).agentID) = entries.dropLast := by
    rw [hkey]
    apply Recency.filter_last (List.dropLast_append_getLast hne).symm
    rw [← h.order]
    exact h.indexed.nodup_keys
  rw [hlast] at herase
  exact herase

/-- The loop ends after at most one turn and leaves the configured number of agents. -/
theorem evictExcess {capacity : ℕ} (h : Represents limit window now rl entries)
    (hcap : rl.cfg.maxTrackedAgents = capacity) (hlength : entries.length ≤ capacity + 1)
    (turns : ℕ) :
    ∃ after, rl.evictExcess (turns + 2) = some (after,
        if capacity < entries.length then (entries.getLast?.map Used.key).toList else []) ∧
      after.cfg = rl.cfg ∧ after.element = rl.element ∧ after.lru ⊆ rl.lru ∧
      Represents limit window now after (entries.take capacity) := by
  rw [RateLimiter.evictExcess, hcap, h.length]
  by_cases hfull : capacity < entries.length
  · have hne : entries ≠ [] := List.ne_nil_of_length_pos (by omega)
    obtain ⟨hid, hcfg, hsame, hsub, htail⟩ := h.evictTail hne
    rcases hpair : rl.evictTailLocked with ⟨smaller, id⟩
    rw [hpair] at hid hcfg hsame hsub htail
    dsimp only at hid hcfg hsame hsub htail
    subst hid
    have hnext : smaller.rings.keys.length = capacity := by
      rw [htail.length, List.length_dropLast]
      omega
    have hstop : smaller.evictExcess (turns + 1) = some (smaller, []) := by
      rw [RateLimiter.evictExcess, hcfg, hcap, hnext, if_neg (lt_irrefl _)]
    have hname := h.named _ (List.getLast_mem hne)
    have htake : entries.take capacity = entries.dropLast := by
      rw [List.dropLast_eq_take]
      congr 1
      omega
    rw [if_pos (by exact_mod_cast hfull), if_pos hfull, htake,
      List.getLast?_eq_some_getLast hne]
    dsimp only
    rw [if_pos hname, hstop]
    exact ⟨smaller, rfl, hcfg, hsame, hsub, htail⟩
  · have hstop : ¬ (capacity : ℤ) < entries.length := by exact_mod_cast hfull
    rw [if_neg hstop, if_neg hfull, List.take_of_length_le (by omega)]
    exact ⟨rl, rfl, rfl, rfl, List.Subset.refl _, h⟩

variable {capacity : ℕ} {r : AgentTable capacity}

theorem find (h : Represents limit window now rl r.entries) {agent : String} {elem : ℕ}
    (hlookup : rl.rings.lookup agent = some elem) :
    elem ∈ rl.lru ∧ (rl.element elem).agentID = agent ∧ ∃ e, r.find agent = some e := by
  obtain ⟨helem, hname⟩ := (h.indexed.lookup agent elem).mp hlookup
  have hmem : agent ∈ r.entries.map Used.key := by
    rw [← h.order, ← hname]
    exact List.mem_map_of_mem helem
  obtain ⟨e, he, hkey⟩ := List.mem_map.mp hmem
  exact ⟨helem, hname, e, Recency.find_eq_some.mpr ⟨he, hkey⟩⟩

theorem find_none (h : Represents limit window now rl r.entries) {agent : String}
    (hlookup : rl.rings.lookup agent = none) : r.find agent = none := by
  apply Option.eq_none_iff_forall_ne_some.mpr
  intro e hfind
  obtain ⟨he, hkey⟩ := Recency.find_eq_some.mp hfind
  have hmem : agent ∈ rl.lru.map fun a => (rl.element a).agentID := by
    rw [h.order, ← hkey]
    exact List.mem_map_of_mem he
  obtain ⟨elem, helem, hname⟩ := List.mem_map.mp hmem
  have hfound := (h.indexed.lookup agent elem).mpr ⟨helem, hname⟩
  rw [hlookup] at hfound
  cases hfound

/-- Touching a ring is using its agent, whose history stays as it is. -/
theorem touch (h : Represents limit window now rl r.entries) (hpos : 0 < capacity)
    (hcap : rl.cfg.maxTrackedAgents = capacity) (hcalls : 0 < rl.cfg.callsPerWindow)
    {agent : String} (hagent : agent ≠ "") :
    ∃ after elem, rl.touchRingLocked hcalls agent = some (after, elem, r.evicted agent) ∧
      after.cfg = rl.cfg ∧ elem ∈ after.lru ∧ (after.element elem).agentID = agent ∧
      Represents limit window now after (r.put hpos agent (r.history agent) ()).entries := by
  unfold RateLimiter.touchRingLocked
  cases hlookup : rl.rings.lookup agent with
  | some elem =>
    obtain ⟨helem, hname, e, hfind⟩ := h.find hlookup
    obtain ⟨he, hkey⟩ := Recency.find_eq_some.mp hfind
    have hevicted : r.evicted agent = [] := by simp [AgentTable.evicted, hfind]
    have hhistory : r.history agent = e.value := by simp [AgentTable.history, hfind]
    dsimp only
    rw [if_pos helem, hevicted, hhistory, Recency.put_of_find hfind hpos]
    refine ⟨_, elem, rfl, rfl, List.mem_cons_self, hname, ?_⟩
    have hfront := h.toFront helem he (hkey.trans hname.symm) r.uses
    rw [hkey] at hfront
    exact hfront
  | none =>
    have hfind := h.find_none hlookup
    have hhistory : r.history agent = [] := by simp [AgentTable.history, hfind]
    have hlimit : rl.cfg.callsPerWindow.toNat = limit := by
      rw [h.limit_eq]
      rfl
    have hpush := h.push hagent hlookup
      (Tracks.new (Int.pos_iff_toNat_pos.mp hcalls) hlimit) r.uses
    have hbounded := r.bounded
    obtain ⟨after, hexcess, hcfg, hsame, hsub, hafter⟩ :=
      hpush.evictExcess hcap (by simpa using Nat.succ_le_succ hbounded) rl.lru.length
    have hevicted : r.evicted agent =
        if capacity < (⟨agent, [], (), r.uses⟩ :: r.entries).length
        then ((⟨agent, [], (), r.uses⟩ :: r.entries).getLast?.map Used.key).toList else [] := by
      unfold AgentTable.evicted
      rw [hfind, List.length_cons]
      by_cases hfull : capacity ≤ r.entries.length
      · have hne : r.entries ≠ [] := List.ne_nil_of_length_pos (by omega)
        rw [if_pos ⟨rfl, hfull⟩, if_pos (by omega), Recency.lru, List.getLast?_cons_of_ne_nil hne]
      · rw [if_neg (fun hand => hfull hand.2), if_neg (by omega)]
    have hput : (r.put hpos agent [] ()).entries =
        (⟨agent, [], (), r.uses⟩ :: r.entries).take capacity := by
      obtain ⟨n, rfl⟩ := Nat.exists_eq_succ_of_ne_zero hpos.ne'
      rw [Recency.put_of_not_find hfind, Recency.roomFor_eq_take, List.take_succ_cons]
      rfl
    have hmem : agent ∈ after.lru.map fun a => (after.element a).agentID := by
      rw [hafter.order, ← hput, Recency.put_of_not_find hfind]
      exact List.mem_cons_self
    obtain ⟨elem, helem, hname⟩ := List.mem_map.mp hmem
    have hfirst : elem = rl.allocated := by
      apply hpush.indexed.inj (hsub helem) List.mem_cons_self
      rw [hsame] at hname
      rw [hname]
      simp
    subst hfirst
    dsimp only
    rw [List.length_cons, hexcess, hevicted, hhistory, hput]
    exact ⟨after, _, rfl, hcfg, helem, hname, hafter⟩

/-- Writing the ring of the agent in front is writing its history. -/
theorem write (h : Represents limit window now rl entries) {elem n m : ℕ} (helem : elem ∈ rl.lru)
    {agent : String} {old history : List ℤ} {rest : List (Used String (List ℤ) Unit)}
    (hentries : entries = ⟨agent, old, (), n⟩ :: rest) {ring : AgentRing}
    (hagent : (rl.element elem).agentID = agent) (hname : ring.agentID = agent)
    (hring : Tracks limit window now ring.calls history) :
    Represents limit window now (rl.setRing elem ring)
      (⟨agent, history, (), m⟩ :: rest) := by
  subst hentries
  have hkey : ∀ a, (Function.update rl.element elem ring a).agentID = (rl.element a).agentID := by
    intro a
    by_cases hsame : a = elem
    · subst hsame
      rw [Function.update_self, hname, hagent]
    · rw [Function.update_of_ne hsame]
  unfold RateLimiter.setRing
  constructor
  · exact h.indexed.congr fun a _ => hkey a
  · dsimp only
    rw [funext hkey]
    exact h.order
  · intro a ha e he hname'
    dsimp only at ha hname' ⊢
    rw [hkey] at hname'
    by_cases hsame : a = elem
    · subst hsame
      rw [Function.update_self]
      rcases List.mem_cons.mp he with rfl | he
      · exact hring
      · have hnodup := h.indexed.nodup_keys
        rw [h.order, List.map_cons] at hnodup
        have hmem := List.mem_map_of_mem (f := Used.key) he
        rw [hname', hagent] at hmem
        exact absurd hmem (List.nodup_cons.mp hnodup).1
    · rw [Function.update_of_ne hsame]
      rcases List.mem_cons.mp he with rfl | he
      · exact absurd (h.indexed.inj ha helem (hname'.symm.trans hagent.symm)) hsame
      · exact h.tracks a ha e (List.mem_cons_of_mem _ he) hname'
  · intro e he
    rcases List.mem_cons.mp he with rfl | he
    · exact h.named ⟨agent, old, (), n⟩ List.mem_cons_self
    · exact h.named e (List.mem_cons_of_mem _ he)
  · exact h.limit_eq

/-- The events of a call report what was evicted, and the throttle is all they change. -/
theorem report (h : Represents limit window now rl entries) (resolved : String)
    (anon allowed : Bool) (evicted : List String) :
    evictedIDs (rl.report resolved anon allowed evicted now).2 = evicted ∧
      (rl.report resolved anon allowed evicted now).1.cfg = rl.cfg ∧
      Represents limit window now (rl.report resolved anon allowed evicted now).1 entries := by
  have hviolation : (rl.shouldEmitViolation resolved now).1.cfg = rl.cfg ∧
      Represents limit window now (rl.shouldEmitViolation resolved now).1 entries := by
    unfold RateLimiter.shouldEmitViolation
    split
    · split_ifs
      · exact ⟨rfl, h⟩
      · exact ⟨rfl, h.throttle _⟩
    · exact ⟨rfl, h.throttle _⟩
  have hids : ∀ cfg (violated : Bool), evictedIDs (evicted.map (RateLimiter.evictedEvent now) ++
      (if anon then [RateLimiter.unauthenticatedEvent resolved] else []) ++
      if violated then [RateLimiter.violatedEvent cfg resolved] else []) = evicted := by
    intro cfg violated
    have hall : (evicted.map (RateLimiter.evictedEvent now)).filter
        (fun e => e.eventType = .agentEvicted) = evicted.map (RateLimiter.evictedEvent now) := by
      apply List.filter_eq_self.mpr
      intro e he
      obtain ⟨victim, -, rfl⟩ := List.mem_map.mp he
      rfl
    have hmap : (evicted.map (RateLimiter.evictedEvent now)).map LimiterEvent.agentID =
        evicted := by
      rw [List.map_map]
      exact List.map_id evicted
    unfold evictedIDs
    rw [List.filter_append, List.filter_append, hall, List.map_append, List.map_append, hmap]
    cases anon <;> cases violated <;> simp [RateLimiter.unauthenticatedEvent,
      RateLimiter.violatedEvent]
  unfold RateLimiter.report
  cases allowed with
  | true => exact ⟨hids _ false, rfl, h⟩
  | false => exact ⟨hids _ _, hviolation⟩

/-- A call is answered as the reference answers it. -/
theorem allow (h : Represents limit window now rl r.entries) (hpos : 0 < capacity)
    (hcap : rl.cfg.maxTrackedAgents = capacity) (henabled : rl.cfg.enabled)
    (hcutoff : rl.cutoff now = now - window) (agentID : String) :
    let answer := r.allow hpos rl.cfg.callsPerWindow window (rl.resolveAgentID agentID).1 now
    ∃ after events, rl.allow agentID now = some (after, answer.2.1, events) ∧
      evictedIDs events = answer.2.2 ∧ after.cfg = rl.cfg ∧
      Represents limit window now after answer.1.entries := by
  have hagent : (rl.resolveAgentID agentID).1 ≠ "" := by
    unfold RateLimiter.resolveAgentID
    split_ifs with hempty
    · exact rl.bucket
    · exact hempty
  obtain ⟨touched, elem, htouch, hcfg, helem, hname, htouched⟩ :=
    h.touch hpos hcap (rl.limits henabled).1 hagent
  obtain ⟨rest, hput⟩ := r.put_entries hpos (rl.resolveAgentID agentID).1
  rw [hput] at htouched
  have htracks := htouched.tracks elem helem _ List.mem_cons_self hname.symm
  obtain ⟨hok, hkept, hring⟩ := htracks.admission htouched.limit_eq
  have hwrite := htouched.write (m := r.uses) helem rfl hname (hkept.trans hname) hring
  obtain ⟨hevicted, hcfg', hreport⟩ := hwrite.report (rl.resolveAgentID agentID).1
    (rl.resolveAgentID agentID).2
    (RateLimiter.admitCall touched.cfg (touched.element elem) (now - window) now).2
    (r.evicted (rl.resolveAgentID agentID).1)
  rw [← hput] at hreport
  unfold RateLimiter.allow AgentTable.allow
  rw [dif_pos henabled]
  dsimp only
  rw [htouch, hcutoff, ← hcfg]
  exact ⟨_, _, by rw [← hok]; rfl, hevicted, hcfg', hreport⟩

theorem reset (h : Represents limit window now rl r.entries) (agentID actor : String) :
    (rl.reset agentID actor now).2.1 = (r.reset (rl.resolveAgentID agentID).1).2 ∧
      (rl.reset agentID actor now).1.cfg = rl.cfg ∧
      Represents limit window now (rl.reset agentID actor now).1
        (r.reset (rl.resolveAgentID agentID).1).1.entries := by
  unfold RateLimiter.reset AgentTable.reset
  dsimp only
  cases hlookup : rl.rings.lookup (rl.resolveAgentID agentID).1 with
  | some elem =>
    obtain ⟨helem, hname, e, hfind⟩ := h.find hlookup
    have herase := h.erase helem (rl.lastEmit.erase (rl.resolveAgentID agentID).1)
    rw [hname] at herase
    rw [hfind]
    exact ⟨rfl, rfl, herase⟩
  | none =>
    have hfind := h.find_none hlookup
    rw [hfind]
    refine ⟨rfl, rfl, ?_⟩
    change Represents limit window now _ (r.others (rl.resolveAgentID agentID).1)
    rw [Recency.others_of_not_find hfind]
    exact h.throttle _

end Represents
end Persatrix.Security
