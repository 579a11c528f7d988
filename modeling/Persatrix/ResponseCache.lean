import Persatrix.GoValues
import Persatrix.Recency
import Mathlib.Logic.Function.Basic
import Mathlib.Data.Int.Order.Basic
import Mathlib.Data.List.Induction
import Mathlib.Tactic.NormNum.Basic

/-!
# Response cache

A map from keys to the elements of a linked list, which is kept from the most to the
least recently used element. An element is an address: what the element holds is read
and written at its address, and the list and the map hold addresses. Times and
durations are in nanoseconds. Every call reads the clock once.
-/
namespace Persatrix.Cost

structure CachedResponse where
  output : String := ""
  metadata : GoMap String String := ∅

structure CacheEntry where
  key : String := ""
  response : CachedResponse := {}
  expiresAt : ℤ := 0

structure ResponseCache where
  entries : GoMap String ℕ := ∅
  evictList : List ℕ := []
  element : ℕ → CacheEntry := fun _ => {}
  allocated : ℕ := 0
  maxEntries : ℤ
  ttl : ℤ
  hits : ℤ := 0
  misses : ℤ := 0

def hour : ℤ := 3600 * 10 ^ 9

def newResponseCache (maxEntries ttl : ℤ) : ResponseCache where
  maxEntries := if maxEntries ≤ 0 then 10000 else maxEntries
  ttl := if ttl ≤ 0 then hour else ttl

namespace ResponseCache

def removeElement (c : ResponseCache) (elem : ℕ) : ResponseCache :=
  { c with
    evictList := c.evictList.erase elem
    entries := c.entries.erase (c.element elem).key }

def evictOldest (c : ResponseCache) : ResponseCache :=
  match c.evictList.getLast? with
  | none => c
  | some elem => c.removeElement elem

/-- An element that is not in the list stays where it is. -/
def moveToFront (c : ResponseCache) (elem : ℕ) : ResponseCache :=
  if elem ∈ c.evictList then { c with evictList := elem :: c.evictList.erase elem } else c

def pushFront (c : ResponseCache) (entry : CacheEntry) : ResponseCache :=
  { c with
    evictList := c.allocated :: c.evictList
    element := Function.update c.element c.allocated entry
    allocated := c.allocated + 1 }

def get (c : ResponseCache) (key : String) (now : ℤ) : ResponseCache × Option CachedResponse :=
  match c.entries.lookup key with
  | none => ({ c with misses := int64 (c.misses + 1) }, none)
  | some elem =>
    if (c.element elem).expiresAt < now then
      ({ c.removeElement elem with misses := int64 (c.misses + 1) }, none)
    else
      ({ c.moveToFront elem with hits := int64 (c.hits + 1) }, some (c.element elem).response)

/-- The loop that evicts while the cache is full, for at most the given number of turns. -/
def makeRoom : ℕ → ResponseCache → Option ResponseCache
  | 0, _ => none
  | turns + 1, c =>
    if c.maxEntries ≤ c.evictList.length then makeRoom turns c.evictOldest else some c

/-- `none` stands for an eviction loop that does not end after every element is evicted. -/
def put (c : ResponseCache) (key : String) (response : CachedResponse) (now : ℤ) :
    Option ResponseCache :=
  match c.entries.lookup key with
  | some elem =>
    let entry := { c.element elem with response := response, expiresAt := now + c.ttl }
    some ({ c with element := Function.update c.element elem entry }.moveToFront elem)
  | none =>
    (makeRoom (c.evictList.length + 1) c).map fun c =>
      { c.pushFront ⟨key, response, now + c.ttl⟩ with
        entries := AList.insert key c.allocated c.entries }

/-- The entries from the most to the least recently used. -/
def recency (c : ResponseCache) : List CacheEntry := c.evictList.map c.element

end ResponseCache

inductive CacheCall where
  | get (key : String) (now : ℤ)
  | put (key : String) (response : CachedResponse) (now : ℤ)

namespace ResponseCache

def call (c : ResponseCache) : CacheCall → Option ResponseCache
  | .get key now => some (c.get key now).1
  | .put key response now => c.put key response now

def run (c : ResponseCache) (calls : List CacheCall) : Option ResponseCache := calls.foldlM call c

end ResponseCache
end Persatrix.Cost

/-!
## The response cache is ordered by last use

The list of the cache and the map over it stand for one store ordered by last use: the
entries at the list's addresses are the entries of the store, in the same order, and
the map gives the address of every key in the list. Each path through the two calls
changes both and is a read or a write of the store.
-/
namespace Persatrix.Cost

abbrev Reference (capacity : ℕ) := Recency String CachedResponse ℤ capacity

def stored (e : Used String CachedResponse ℤ) : CacheEntry := ⟨e.key, e.value, e.expiresAt⟩

structure Represents {capacity : ℕ} (ttl : ℤ) (c : ResponseCache) (r : Reference capacity) :
    Prop where
  recency : c.recency = r.entries.map stored
  index : ∀ key elem, c.entries.lookup key = some elem ↔
    elem ∈ c.evictList ∧ (c.element elem).key = key
  allocated : ∀ elem ∈ c.evictList, elem < c.allocated
  limit : c.maxEntries = capacity
  lifetime : c.ttl = ttl

variable {capacity : ℕ} {ttl : ℤ} {c : ResponseCache} {r : Reference capacity}

namespace Represents

theorem keys (h : Represents ttl c r) :
    c.evictList.map (fun elem => (c.element elem).key) = r.entries.map Used.key := by
  have hkeys := congrArg (List.map CacheEntry.key) h.recency
  rwa [ResponseCache.recency, List.map_map, List.map_map] at hkeys

theorem nodup (h : Represents ttl c r) : c.evictList.Nodup :=
  List.Nodup.of_map _ (h.keys ▸ r.nodup)

theorem length (h : Represents ttl c r) : c.evictList.length = r.entries.length := by
  simpa using congrArg List.length h.keys

theorem element_inj (h : Represents ttl c r) {a b : ℕ} (ha : a ∈ c.evictList) (hb : b ∈ c.evictList)
    (hkey : (c.element a).key = (c.element b).key) : a = b := by
  have ha' := (h.index _ a).mpr ⟨ha, rfl⟩
  have hb' := (h.index _ b).mpr ⟨hb, rfl⟩
  rw [hkey, hb'] at ha'
  cases ha'
  rfl

/-- Taking an element out of the list is taking its key out of the store. -/
theorem erase (h : Represents ttl c r) {elem : ℕ} (helem : elem ∈ c.evictList) :
    (c.evictList.erase elem).map c.element = (r.others (c.element elem).key).map stored := by
  have hrecency : (c.evictList.map c.element).filter
        (fun entry => decide (entry.key ≠ (c.element elem).key)) =
      (r.entries.map stored).filter
        fun entry => decide (entry.key ≠ (c.element elem).key) := congrArg _ h.recency
  rw [List.filter_map, List.filter_map] at hrecency
  rw [h.nodup.erase_eq_filter]
  refine Eq.trans ?_ hrecency
  congr 1
  apply List.filter_congr
  intro other hother
  have hiff : other ≠ elem ↔ (c.element other).key ≠ (c.element elem).key := by
    constructor
    · intro hne hkey
      exact hne (h.element_inj hother helem hkey)
    · rintro hne rfl
      exact hne rfl
  rw [Bool.eq_iff_iff]
  simpa using hiff

/-- The entry of a key in the map. -/
theorem find (h : Represents ttl c r) {key : String} {elem : ℕ}
    (hkey : c.entries.lookup key = some elem) :
    ∃ e, r.find key = some e ∧ stored e = c.element elem := by
  obtain ⟨helem, hname⟩ := (h.index key elem).mp hkey
  have hmem : c.element elem ∈ r.entries.map stored := by
    rw [← h.recency]
    exact List.mem_map_of_mem helem
  obtain ⟨e, he, heq⟩ := List.mem_map.mp hmem
  refine ⟨e, Recency.find_eq_some.mpr ⟨he, ?_⟩, heq⟩
  rw [← hname, ← heq]
  rfl

theorem find_none (h : Represents ttl c r) {key : String} (hkey : c.entries.lookup key = none) :
    r.find key = none := by
  apply Option.eq_none_iff_forall_ne_some.mpr
  intro e hfind
  obtain ⟨he, hname⟩ := Recency.find_eq_some.mp hfind
  have hmem : stored e ∈ c.recency := by
    rw [h.recency]
    exact List.mem_map_of_mem he
  obtain ⟨elem, helem, heq⟩ := List.mem_map.mp hmem
  have hlookup := (h.index key elem).mpr ⟨helem, by rw [heq]; exact hname⟩
  rw [hkey] at hlookup
  cases hlookup

theorem removeElement (h : Represents ttl c r) {elem : ℕ} (helem : elem ∈ c.evictList) :
    Represents ttl (c.removeElement elem)
      (r.keep (r.others (c.element elem).key) (r.others_sublist _)) where
  recency := h.erase helem
  index key other := by
    unfold ResponseCache.removeElement
    dsimp only
    rw [GoMap.lookup_erase, h.nodup.mem_erase_iff]
    split_ifs with hkey
    · constructor
      · intro hnone
        cases hnone
      · rintro ⟨⟨hne, hother⟩, hname⟩
        exact absurd (h.element_inj hother helem (hname.trans hkey)) hne
    · rw [h.index]
      constructor
      · intro ⟨hother, hname⟩
        refine ⟨⟨?_, hother⟩, hname⟩
        intro hsame
        subst hsame
        exact hkey hname.symm
      · intro hfound
        obtain ⟨⟨-, hother⟩, hname⟩ := hfound
        exact ⟨hother, hname⟩
  allocated other hother := h.allocated other (List.mem_of_mem_erase hother)
  limit := h.limit
  lifetime := h.lifetime

/-- An element is written, its key apart, and moved to the front. -/
theorem touch (h : Represents ttl c r) {elem : ℕ} (helem : elem ∈ c.evictList)
    {entry : CacheEntry} (hkey : entry.key = (c.element elem).key) {r' : Reference capacity}
    {n : ℕ} (hr : r'.entries =
      ⟨entry.key, entry.response, entry.expiresAt, n⟩ :: r.others entry.key) :
    Represents ttl
      ({ c with element := Function.update c.element elem entry }.moveToFront elem) r' := by
  have hnot : elem ∉ c.evictList.erase elem := h.nodup.not_mem_erase
  have hsame : ∀ other, (Function.update c.element elem entry other).key =
      (c.element other).key := by
    intro other
    rw [Function.update_apply]
    split_ifs with heq
    · rw [heq, hkey]
    · rfl
  have hmem : ∀ other, other ∈ elem :: c.evictList.erase elem ↔ other ∈ c.evictList :=
    fun other => (List.perm_cons_erase helem).mem_iff.symm
  unfold ResponseCache.moveToFront
  rw [if_pos helem]
  constructor
  · have hrest : (c.evictList.erase elem).map (Function.update c.element elem entry) =
        (c.evictList.erase elem).map c.element := by
      refine List.map_congr_left fun other hother => Function.update_of_ne ?_ ..
      intro hsame
      subst hsame
      exact hnot hother
    rw [hr, List.map_cons, hkey, ← h.erase helem, ← hrest]
    change Function.update c.element elem entry elem :: _ = _
    rw [Function.update_self, stored, ← hkey]
  · intro key other
    dsimp only
    rw [h.index, hmem, hsame]
  · intro other hother
    exact h.allocated other ((hmem other).mp hother)
  · exact h.limit
  · exact h.lifetime

/-- A new element goes to the front and into the map. -/
theorem push (h : Represents ttl c r) {entry : CacheEntry}
    (hnew : c.entries.lookup entry.key = none) {r' : Reference capacity} {n : ℕ}
    (hr : r'.entries = ⟨entry.key, entry.response, entry.expiresAt, n⟩ :: r.entries) :
    Represents ttl { c.pushFront entry with
      entries := AList.insert entry.key c.allocated c.entries } r' := by
  have hfresh : c.allocated ∉ c.evictList := fun hmem => lt_irrefl _ (h.allocated _ hmem)
  have hold : ∀ other ∈ c.evictList,
      Function.update c.element c.allocated entry other = c.element other := by
    intro other hother
    apply Function.update_of_ne
    intro hsame
    subst hsame
    exact hfresh hother
  constructor
  · rw [hr, List.map_cons, ← h.recency]
    change Function.update c.element c.allocated entry c.allocated ::
      c.evictList.map (Function.update c.element c.allocated entry) = _
    rw [Function.update_self, List.map_congr_left hold]
    rfl
  · intro key elem
    unfold ResponseCache.pushFront
    dsimp only
    rw [GoMap.lookup_insert, List.mem_cons]
    split_ifs with hkey
    · constructor
      · intro hsome
        cases hsome
        exact ⟨.inl rfl, by rw [Function.update_self, hkey]⟩
      · intro hfound
        rcases hfound with ⟨rfl | helem, hname⟩
        · rfl
        · rw [hold elem helem] at hname
          have hlookup := (h.index key elem).mpr ⟨helem, hname⟩
          rw [hkey, hnew] at hlookup
          cases hlookup
    · rw [h.index]
      constructor
      · intro ⟨helem, hname⟩
        exact ⟨.inr helem, by rw [hold elem helem, hname]⟩
      · intro hfound
        rcases hfound with ⟨rfl | helem, hname⟩
        · rw [Function.update_self] at hname
          exact absurd hname.symm hkey
        · rw [hold elem helem] at hname
          exact ⟨helem, hname⟩
  · intro elem helem
    rcases List.mem_cons.mp helem with rfl | helem
    · exact Nat.lt_succ_self _
    · exact Nat.lt_succ_of_lt (h.allocated elem helem)
  · exact h.limit
  · exact h.lifetime

/-- Only the entries of the store are represented, not the count of uses. -/
theorem of_entries (h : Represents ttl c r) {r' : Reference capacity}
    (heq : r'.entries = r.entries) : Represents ttl c r' :=
  ⟨heq ▸ h.recency, h.index, h.allocated, h.limit, h.lifetime⟩

/-- The element at the back is the least recently used entry. -/
theorem evictOldest (h : Represents ttl c r) (hne : r.entries ≠ []) :
    Represents ttl c.evictOldest (r.keep r.entries.dropLast (List.dropLast_sublist _)) := by
  have hback : c.evictList.getLast?.map c.element = r.lru.map stored := by
    rw [← List.getLast?_map, Recency.lru, ← List.getLast?_map]
    exact congrArg List.getLast? h.recency
  have hlast : r.lru = some (r.entries.getLast hne) := List.getLast?_eq_some_getLast hne
  rw [hlast, Option.map_some, Option.map_eq_some_iff] at hback
  obtain ⟨elem, helem, heq⟩ := hback
  unfold ResponseCache.evictOldest
  rw [helem]
  have hkey : (c.element elem).key = (r.entries.getLast hne).key := by
    rw [heq]
    rfl
  have hremove := h.removeElement (List.mem_of_getLast? helem)
  apply hremove.of_entries
  change r.entries.dropLast = r.others (c.element elem).key
  rw [hkey, Recency.others_lru hlast]

theorem counters (h : Represents ttl c r) (hits misses : ℤ) :
    Represents ttl { c with hits := hits, misses := misses } r :=
  ⟨h.recency, h.index, h.allocated, h.limit, h.lifetime⟩

/-- The eviction loop ends after at most one turn, and leaves room for one element. -/
theorem makeRoom (h : Represents ttl c r) (hpos : 0 < capacity) :
    ∃ roomy, ResponseCache.makeRoom (c.evictList.length + 1) c = some roomy ∧
      Represents ttl roomy (r.keep r.roomFor r.roomFor_sublist) := by
  have hlength := h.length
  unfold ResponseCache.makeRoom
  by_cases hfull : capacity ≤ r.entries.length
  · have hturn : c.maxEntries ≤ c.evictList.length := by
      rw [h.limit, hlength]
      exact_mod_cast hfull
    obtain ⟨turns, hturns⟩ : ∃ turns, c.evictList.length = turns + 1 :=
      Nat.exists_eq_succ_of_ne_zero (by omega)
    have hne : r.entries ≠ [] := List.ne_nil_of_length_pos (by omega)
    have hevicted := h.evictOldest hne
    have hafter : ¬ c.evictOldest.maxEntries ≤ c.evictOldest.evictList.length := by
      have hbounded := r.bounded
      have hdropped : c.evictOldest.evictList.length = r.entries.length - 1 := by
        rw [hevicted.length]
        exact List.length_dropLast
      rw [hevicted.limit, hdropped]
      omega
    rw [if_pos hturn, hturns]
    unfold ResponseCache.makeRoom
    rw [if_neg hafter]
    refine ⟨_, rfl, hevicted.of_entries ?_⟩
    exact if_pos hfull
  · have hroom : ¬ c.maxEntries ≤ c.evictList.length := by
      rw [h.limit, hlength]
      exact_mod_cast hfull
    rw [if_neg hroom]
    refine ⟨c, rfl, h.of_entries ?_⟩
    exact if_neg hfull

/-- A read of the cache is a read of the store. -/
theorem get (h : Represents ttl c r) (key : String) (now : ℤ) :
    (c.get key now).2 = (r.get key now).2 ∧
      Represents ttl (c.get key now).1 (r.get key now).1 := by
  unfold ResponseCache.get
  cases hkey : c.entries.lookup key with
  | none =>
    rw [Recency.get_of_not_find (h.find_none hkey)]
    exact ⟨rfl, h.counters _ _⟩
  | some elem =>
    obtain ⟨e, hfind, heq⟩ := h.find hkey
    obtain ⟨helem, hname⟩ := (h.index key elem).mp hkey
    dsimp only
    rw [← heq]
    rcases lt_or_ge (stored e).expiresAt now with hexpired | hlive
    · rw [if_pos hexpired, Recency.get_of_expired hfind hexpired]
      have hremove : Represents ttl (c.removeElement elem)
          (r.keep (r.others key) (r.others_sublist key)) := by
        apply (h.removeElement helem).of_entries
        rw [hname]
      exact ⟨rfl, hremove.counters _ _⟩
    · rw [if_neg (not_lt.mpr hlive), Recency.get_of_live hfind hlive]
      have hsame : { c with element := Function.update c.element elem (c.element elem) } = c := by
        rw [Function.update_eq_self]
      have htouch : Represents ttl
          ({ c with element := Function.update c.element elem (c.element elem) }.moveToFront elem)
          (r.use key e.value e.expiresAt (r.others key) (r.others_sublist key)
            (r.others_free key) (Recency.others_length hfind)) := by
        apply h.touch helem rfl
        rw [hname, ← heq]
        rfl
      rw [hsame] at htouch
      exact ⟨rfl, htouch.counters _ _⟩

/-- A write of the cache is a write of the store. -/
theorem put (h : Represents ttl c r) (hpos : 0 < capacity) (key : String)
    (response : CachedResponse) (now : ℤ) : ∃ after, c.put key response now = some after ∧
      Represents ttl after (r.put hpos key response (now + ttl)) := by
  unfold ResponseCache.put
  cases hkey : c.entries.lookup key with
  | some elem =>
    obtain ⟨e, hfind, heq⟩ := h.find hkey
    obtain ⟨helem, hname⟩ := (h.index key elem).mp hkey
    have hentry : (r.put hpos key response (now + ttl)).entries =
        ⟨(c.element elem).key, response, now + c.ttl, r.uses⟩ ::
          r.others (c.element elem).key := by
      rw [hname, h.lifetime]
      exact Recency.put_of_find hfind hpos response (now + ttl)
    have hsame : CacheEntry.key ⟨(c.element elem).key, response, now + c.ttl⟩ =
        (c.element elem).key := rfl
    exact ⟨_, rfl, h.touch helem hsame hentry⟩
  | none =>
    have hnone := h.find_none hkey
    obtain ⟨roomy, hroomy, hrepresents⟩ := h.makeRoom hpos
    have hnew :
        roomy.entries.lookup (CacheEntry.key ⟨key, response, now + roomy.ttl⟩) = none := by
      cases hlookup : roomy.entries.lookup key with
      | none => rfl
      | some elem =>
        obtain ⟨e, hfind, -⟩ := hrepresents.find hlookup
        obtain ⟨he, hname⟩ := Recency.find_eq_some.mp hfind
        rw [Recency.find_eq_some.mpr ⟨r.roomFor_sublist.subset he, hname⟩] at hnone
        cases hnone
    rw [hroomy]
    have hentry : (r.put hpos key response (now + ttl)).entries =
        ⟨key, response, now + roomy.ttl, r.uses⟩ ::
          (r.keep r.roomFor r.roomFor_sublist).entries := by
      rw [hrepresents.lifetime]
      exact Recency.put_of_not_find hnone hpos response (now + ttl)
    exact ⟨_, rfl, hrepresents.push hnew hentry⟩

end Represents

/-- The store that a cache of the given size starts as; sizes below one mean the default. -/
def entryLimit (maxEntries : ℤ) : ℕ := if maxEntries ≤ 0 then 10000 else maxEntries.toNat

def lifetime (ttl : ℤ) : ℤ := if ttl ≤ 0 then hour else ttl

theorem entryLimit_pos (maxEntries : ℤ) : 0 < entryLimit maxEntries := by
  unfold entryLimit
  split_ifs
  · decide
  · omega

theorem represents_new (maxEntries ttl : ℤ) :
    Represents (lifetime ttl) (newResponseCache maxEntries ttl)
      (Recency.empty : Reference (entryLimit maxEntries)) := by
  constructor
  · rfl
  · intro key elem
    simp [newResponseCache]
  · intro elem helem
    cases helem
  · unfold newResponseCache entryLimit
    dsimp only
    split_ifs
    · rfl
    · omega
  · rfl

/-- One call of the reference. -/
def Reference.call (hpos : 0 < capacity) (ttl : ℤ) (r : Reference capacity) :
    CacheCall → Reference capacity
  | .get key now => (r.get key now).1
  | .put key response now => r.put hpos key response (now + ttl)

def Reference.run (maxEntries ttl : ℤ) (calls : List CacheCall) :
    Reference (entryLimit maxEntries) :=
  calls.foldl (Reference.call (entryLimit_pos maxEntries) (lifetime ttl)) Recency.empty

/-- The value and the expiry of the latest write of the key. -/
def latestPut (ttl : ℤ) (calls : List CacheCall) (key : String) : Option (CachedResponse × ℤ) :=
  calls.foldl (fun found call =>
    match call with
    | .get _ _ => found
    | .put k response now => if k = key then some (response, now + lifetime ttl) else found) none

/-- Every entry holds what the latest write of its key put there. -/
theorem latestPut_of_mem (maxEntries ttl : ℤ) (calls : List CacheCall) :
    ∀ e ∈ (Reference.run maxEntries ttl calls).entries,
      latestPut ttl calls e.key = some (e.value, e.expiresAt) := by
  induction calls using List.reverseRecOn with
  | nil =>
    intro e he
    cases he
  | append_singleton calls call ih =>
    intro e he
    rw [Reference.run, List.foldl_concat] at he
    rw [latestPut, List.foldl_concat]
    cases call with
    | get key now =>
      obtain ⟨old, hold, hkey, hvalue, hexpires⟩ := Recency.mem_get he
      rw [← hkey, ← hvalue, ← hexpires]
      exact ih old hold
    | put key response now =>
      dsimp only
      rcases Recency.mem_put (entryLimit_pos maxEntries) he with
        ⟨hkey, hvalue, hexpires⟩ | ⟨hold, hkey⟩
      · rw [if_pos hkey.symm, hvalue, hexpires]
      · rw [if_neg (Ne.symm hkey)]
        exact ih e hold

/-- The whole sequence of calls is answered, and the cache stands for the reference. -/
theorem represents_run (maxEntries ttl : ℤ) (calls : List CacheCall) :
    ∃ c, (newResponseCache maxEntries ttl).run calls = some c ∧
      Represents (lifetime ttl) c (Reference.run maxEntries ttl calls) := by
  induction calls using List.reverseRecOn with
  | nil => exact ⟨_, rfl, represents_new maxEntries ttl⟩
  | append_singleton calls call ih =>
    obtain ⟨c, hrun, hrepresents⟩ := ih
    unfold ResponseCache.run at hrun ⊢
    rw [List.foldlM_append, hrun, Reference.run, List.foldl_concat]
    cases call with
    | get key now => exact ⟨_, rfl, (hrepresents.get key now).2⟩
    | put key response now =>
      obtain ⟨after, hput, hafter⟩ :=
        hrepresents.put (entryLimit_pos maxEntries) key response now
      refine ⟨after, ?_, hafter⟩
      simpa [ResponseCache.call] using hput

/-- The map and the list of a cache that stands for a store hold the keys of the store. -/
theorem Represents.mem_keys (h : Represents ttl c r) (key : String) :
    key ∈ c.entries.keys ↔ key ∈ r.entries.map Used.key := by
  rw [← AList.mem_keys, ← AList.lookup_isSome]
  constructor
  · intro hsome
    obtain ⟨elem, helem⟩ := Option.isSome_iff_exists.mp hsome
    obtain ⟨e, hfind, -⟩ := h.find helem
    obtain ⟨he, hkey⟩ := Recency.find_eq_some.mp hfind
    exact List.mem_map.mpr ⟨e, he, hkey⟩
  · intro hmem
    obtain ⟨e, he, hkey⟩ := List.mem_map.mp hmem
    cases hlookup : c.entries.lookup key with
    | some elem => rfl
    | none =>
      have hnone := h.find_none hlookup
      rw [Recency.find_eq_some.mpr ⟨he, hkey⟩] at hnone
      cases hnone

theorem Represents.recency_keys (h : Represents ttl c r) :
    c.recency.map CacheEntry.key = r.entries.map Used.key := by
  rw [h.recency, List.map_map]
  rfl

/-- After every sequence of calls the map and the list hold the same keys, the list is the
reference, reads answer as the reference does, with the latest write, and a new key at
capacity evicts the key that was used longest ago. -/
theorem cache_refines_lru (maxEntries ttl : ℤ) (calls : List CacheCall) :
    ∃ c, (newResponseCache maxEntries ttl).run calls = some c ∧
      let r := Reference.run maxEntries ttl calls
      c.entries.keys.Perm (c.recency.map CacheEntry.key) ∧
      c.recency.length ≤ entryLimit maxEntries ∧
      c.recency = r.entries.map stored ∧
      (∀ key now response, (c.get key now).2 = some response ↔
        ∃ e ∈ r.entries, e.key = key ∧ now ≤ e.expiresAt ∧ e.value = response) ∧
      (∀ e ∈ r.entries, latestPut ttl calls e.key = some (e.value, e.expiresAt)) ∧
      ∀ key response now, key ∉ c.entries.keys → c.recency.length = entryLimit maxEntries →
        ∃ after last, c.put key response now = some after ∧ r.lru = some last ∧
          (∀ e ∈ r.entries, e.key ≠ last.key → last.usedAt < e.usedAt) ∧
          ∀ k, k ∈ c.entries.keys ∧ k ∉ after.entries.keys ↔ k = last.key := by
  obtain ⟨c, hrun, h⟩ := represents_run maxEntries ttl calls
  have hlength : c.recency.length = (Reference.run maxEntries ttl calls).entries.length := by
    rw [h.recency, List.length_map]
  refine ⟨c, hrun, ?_, ?_, h.recency, ?_, latestPut_of_mem maxEntries ttl calls, ?_⟩
  · rw [h.recency_keys]
    exact (List.perm_ext_iff_of_nodup c.entries.keys_nodup
      (Reference.run maxEntries ttl calls).nodup).mpr h.mem_keys
  · rw [hlength]
    exact (Reference.run maxEntries ttl calls).bounded
  · intro key now response
    rw [(h.get key now).1]
    exact Recency.get_eq_some
  · intro key response now hnew hfull
    have hpos := entryLimit_pos maxEntries
    obtain ⟨after, hput, hafter⟩ := h.put hpos key response now
    have hfind : (Reference.run maxEntries ttl calls).find key = none := by
      refine Option.eq_none_iff_forall_ne_some.mpr fun e hfound => hnew ?_
      obtain ⟨he, hkey⟩ := Recency.find_eq_some.mp hfound
      exact (h.mem_keys key).mpr (List.mem_map.mpr ⟨e, he, hkey⟩)
    obtain ⟨last, hlast, hevicted⟩ := Recency.put_evicts hfind hpos (hlength ▸ hfull.ge) response
      (now + lifetime ttl)
    refine ⟨after, last, hput, hlast, Recency.lru_least hlast, fun k => ?_⟩
    rw [h.mem_keys, hafter.mem_keys]
    exact hevicted k

end Persatrix.Cost
