import Mathlib.Data.List.Nodup
import Mathlib.Order.Lattice

/-!
# Bounded stores ordered by last use

A store of at most `capacity` values under keys, each with the last moment at which it
may be read, listed from the most to the least recently used. Every use has a number,
so that the order of the list is the order of the last uses. A value that is read too
late is dropped; a new key at capacity replaces the least recently used one.
-/
namespace Persatrix

structure Used (κ ν τ : Type) where
  key : κ
  value : ν
  expiresAt : τ
  usedAt : ℕ

structure Recency (κ ν τ : Type) (capacity : ℕ) where
  entries : List (Used κ ν τ)
  uses : ℕ
  nodup : (entries.map Used.key).Nodup
  bounded : entries.length ≤ capacity
  ordered : entries.Pairwise fun a b => b.usedAt < a.usedAt
  past : ∀ e ∈ entries, e.usedAt < uses

namespace Recency
variable {κ ν τ : Type} {capacity : ℕ}

def empty : Recency κ ν τ capacity where
  entries := []
  uses := 0
  nodup := List.nodup_nil
  bounded := Nat.zero_le _
  ordered := List.Pairwise.nil
  past := by simp

/-- Drops the other entries. -/
def keep (r : Recency κ ν τ capacity) (kept : List (Used κ ν τ)) (h : kept.Sublist r.entries) :
    Recency κ ν τ capacity where
  entries := kept
  uses := r.uses
  nodup := (h.map Used.key).nodup r.nodup
  bounded := Nat.le_trans h.length_le r.bounded
  ordered := r.ordered.sublist h
  past := fun e he => r.past e (h.subset he)

/-- Uses a key: its entry goes in front of the entries that are kept. -/
def use (r : Recency κ ν τ capacity) (key : κ) (value : ν) (expiresAt : τ)
    (kept : List (Used κ ν τ)) (h : kept.Sublist r.entries) (hkey : key ∉ kept.map Used.key)
    (hroom : kept.length < capacity) : Recency κ ν τ capacity where
  entries := ⟨key, value, expiresAt, r.uses⟩ :: kept
  uses := r.uses + 1
  nodup := List.nodup_cons.mpr ⟨hkey, (h.map Used.key).nodup r.nodup⟩
  bounded := hroom
  ordered := List.pairwise_cons.mpr ⟨fun e he => r.past e (h.subset he), r.ordered.sublist h⟩
  past := by
    intro e he
    rcases List.mem_cons.mp he with rfl | he
    · exact Nat.lt_succ_self _
    · exact Nat.lt_succ_of_lt (r.past e (h.subset he))

/-- The least recently used entry. -/
def lru (r : Recency κ ν τ capacity) : Option (Used κ ν τ) := r.entries.getLast?

/-- Every other entry was used later. -/
theorem lru_least {r : Recency κ ν τ capacity} {last : Used κ ν τ} (h : r.lru = some last) :
    ∀ e ∈ r.entries, e.key ≠ last.key → last.usedAt < e.usedAt := by
  obtain ⟨older, heq⟩ := List.getLast?_eq_some_iff.mp h
  intro e he hne
  have hordered := r.ordered
  rw [heq] at he hordered
  rcases List.mem_append.mp he with hold | hlast
  · exact (List.pairwise_append.mp hordered).2.2 e hold last (List.mem_singleton_self _)
  · exact absurd (congrArg Used.key (List.mem_singleton.mp hlast)) hne

/-- The entries that stay beside a new key. -/
def roomFor (r : Recency κ ν τ capacity) : List (Used κ ν τ) :=
  if capacity ≤ r.entries.length then r.entries.dropLast else r.entries

theorem roomFor_sublist (r : Recency κ ν τ capacity) : r.roomFor.Sublist r.entries := by
  unfold roomFor
  split_ifs
  · exact List.dropLast_sublist _
  · exact List.Sublist.refl _

theorem roomFor_length (r : Recency κ ν τ capacity) (hpos : 0 < capacity) :
    r.roomFor.length < capacity := by
  have hbounded := r.bounded
  unfold roomFor
  split_ifs with hfull
  · rw [List.length_dropLast]
    omega
  · omega

theorem roomFor_eq_take (r : Recency κ ν τ capacity) :
    r.roomFor = r.entries.take (capacity - 1) := by
  have hbounded := r.bounded
  unfold roomFor
  split_ifs with hfull
  · rw [List.dropLast_eq_take]
    congr 1
    omega
  · rw [List.take_of_length_le (by omega)]

variable [DecidableEq κ]

def find (r : Recency κ ν τ capacity) (key : κ) : Option (Used κ ν τ) :=
  r.entries.find? fun e => e.key = key

def others (r : Recency κ ν τ capacity) (key : κ) : List (Used κ ν τ) :=
  r.entries.filter fun e => e.key ≠ key

theorem others_sublist (r : Recency κ ν τ capacity) (key : κ) :
    (r.others key).Sublist r.entries := List.filter_sublist

theorem others_free (r : Recency κ ν τ capacity) (key : κ) : key ∉ (r.others key).map Used.key := by
  simp [others]

theorem find_eq_some {r : Recency κ ν τ capacity} {key : κ} {e : Used κ ν τ} :
    r.find key = some e ↔ e ∈ r.entries ∧ e.key = key := by
  constructor
  · intro h
    have hkey : e.key = key := by simpa using List.find?_some h
    exact ⟨List.mem_of_find?_eq_some h, hkey⟩
  · intro ⟨he, hkey⟩
    cases hfind : r.find key with
    | none => simpa [hkey] using List.find?_eq_none.mp hfind e he
    | some found =>
      have hfound : found.key = key := by simpa using List.find?_some hfind
      have hmem := List.mem_of_find?_eq_some hfind
      rw [List.inj_on_of_nodup_map r.nodup hmem he (hfound.trans hkey.symm)]

theorem others_of_not_find {r : Recency κ ν τ capacity} {key : κ} (h : r.find key = none) :
    r.others key = r.entries := by
  apply List.filter_eq_self.mpr
  intro e he
  apply decide_eq_true
  intro hkey
  rw [find_eq_some.mpr ⟨he, hkey⟩] at h
  cases h

/-- Without a key that is present, there is room. -/
theorem others_length {r : Recency κ ν τ capacity} {key : κ} {e : Used κ ν τ}
    (h : r.find key = some e) : (r.others key).length < capacity := by
  have hlt : (r.others key).length < r.entries.length := by
    refine List.length_filter_lt_length_iff_exists.mpr ⟨e, (find_eq_some.mp h).1, ?_⟩
    simp [(find_eq_some.mp h).2]
  exact Nat.lt_of_lt_of_le hlt r.bounded

/-- Dropping the key of the last entry is dropping the last entry. -/
theorem filter_last {l older : List (Used κ ν τ)} {last : Used κ ν τ} (hl : l = older ++ [last])
    (hnodup : (l.map Used.key).Nodup) : l.filter (fun e => e.key ≠ last.key) = l.dropLast := by
  subst hl
  rw [List.map_append, List.nodup_append] at hnodup
  have hkeep : older.filter (fun e => e.key ≠ last.key) = older := by
    apply List.filter_eq_self.mpr
    intro e he
    apply decide_eq_true
    exact hnodup.2.2 _ (List.mem_map_of_mem he) _ (List.mem_singleton_self _)
  rw [List.filter_append, hkeep, List.dropLast_concat]
  simp

theorem others_lru {r : Recency κ ν τ capacity} {last : Used κ ν τ} (h : r.lru = some last) :
    r.others last.key = r.entries.dropLast := by
  obtain ⟨older, heq⟩ := List.getLast?_eq_some_iff.mp h
  exact filter_last heq r.nodup

def put (r : Recency κ ν τ capacity) (hpos : 0 < capacity) (key : κ) (value : ν) (expiresAt : τ) :
    Recency κ ν τ capacity :=
  match h : r.find key with
  | some _ =>
    r.use key value expiresAt (r.others key) (r.others_sublist key) (r.others_free key)
      (others_length h)
  | none =>
    r.use key value expiresAt r.roomFor r.roomFor_sublist
      (fun hmem => by
        obtain ⟨e, he, hkey⟩ := List.mem_map.mp hmem
        have hfound := find_eq_some.mpr ⟨r.roomFor_sublist.subset he, hkey⟩
        rw [h] at hfound
        cases hfound)
      (r.roomFor_length hpos)

theorem put_of_find {r : Recency κ ν τ capacity} {key : κ} {e : Used κ ν τ}
    (h : r.find key = some e) (hpos : 0 < capacity) (value : ν) (expiresAt : τ) :
    (r.put hpos key value expiresAt).entries = ⟨key, value, expiresAt, r.uses⟩ :: r.others key := by
  unfold put
  split
  · rfl
  next hnone =>
    rw [h] at hnone
    cases hnone

theorem put_of_not_find {r : Recency κ ν τ capacity} {key : κ} (h : r.find key = none)
    (hpos : 0 < capacity) (value : ν) (expiresAt : τ) :
    (r.put hpos key value expiresAt).entries = ⟨key, value, expiresAt, r.uses⟩ :: r.roomFor := by
  unfold put
  split
  next hsome =>
    rw [h] at hsome
    cases hsome
  · rfl

/-- What a write leaves beside the key does not depend on the value. -/
theorem put_entries (r : Recency κ ν τ capacity) (hpos : 0 < capacity) (key : κ) :
    ∃ rest, ∀ value expiresAt,
      (r.put hpos key value expiresAt).entries = ⟨key, value, expiresAt, r.uses⟩ :: rest := by
  cases hfind : r.find key with
  | some e => exact ⟨r.others key, put_of_find hfind hpos⟩
  | none => exact ⟨r.roomFor, put_of_not_find hfind hpos⟩

/-- A write leaves entries of other keys, or drops them. -/
theorem mem_put {r : Recency κ ν τ capacity} {key : κ} (hpos : 0 < capacity) {value : ν}
    {expiresAt : τ} {e : Used κ ν τ} (h : e ∈ (r.put hpos key value expiresAt).entries) :
    (e.key = key ∧ e.value = value ∧ e.expiresAt = expiresAt) ∨
      (e ∈ r.entries ∧ e.key ≠ key) := by
  cases hfind : r.find key with
  | some found =>
    rw [put_of_find hfind] at h
    rcases List.mem_cons.mp h with rfl | hmem
    · exact .inl ⟨rfl, rfl, rfl⟩
    · exact .inr ⟨(r.others_sublist key).subset hmem,
        of_decide_eq_true (List.mem_filter.mp hmem).2⟩
  | none =>
    rw [put_of_not_find hfind] at h
    rcases List.mem_cons.mp h with rfl | hmem
    · exact .inl ⟨rfl, rfl, rfl⟩
    · refine .inr ⟨r.roomFor_sublist.subset hmem, fun hkey => ?_⟩
      have hfound := find_eq_some.mpr ⟨r.roomFor_sublist.subset hmem, hkey⟩
      rw [hfind] at hfound
      cases hfound

/-- A new key at capacity evicts the least recently used key and no other. -/
theorem put_evicts {r : Recency κ ν τ capacity} {key : κ} (hnew : r.find key = none)
    (hpos : 0 < capacity) (hfull : capacity ≤ r.entries.length) (value : ν) (expiresAt : τ) :
    ∃ last, r.lru = some last ∧ ∀ k, k ∈ r.entries.map Used.key ∧
      k ∉ (r.put hpos key value expiresAt).entries.map Used.key ↔ k = last.key := by
  have hne : r.entries ≠ [] := List.ne_nil_of_length_pos (Nat.lt_of_lt_of_le hpos hfull)
  have hlast : r.lru = some (r.entries.getLast hne) := List.getLast?_eq_some_getLast hne
  refine ⟨_, hlast, fun k => ?_⟩
  obtain ⟨older, heq⟩ := List.getLast?_eq_some_iff.mp hlast
  have hroom : r.roomFor = older := by
    rw [roomFor, if_pos hfull, heq, List.dropLast_concat]
  have hkey : (r.entries.getLast hne).key ≠ key := by
    intro hsame
    have hfound := find_eq_some.mpr ⟨List.getLast_mem hne, hsame⟩
    rw [hnew] at hfound
    cases hfound
  have hnodup := r.nodup
  generalize r.entries.getLast hne = last at *
  rw [heq, List.map_append, List.nodup_append] at hnodup
  rw [put_of_not_find hnew, hroom, heq]
  simp only [List.map_append, List.map_cons, List.map_nil, List.mem_append, List.mem_cons,
    List.not_mem_nil, or_false, not_or]
  constructor
  · intro hfound
    rcases hfound with ⟨hold | hlast, -, hgone⟩
    · exact absurd hold hgone
    · exact hlast
  · intro hsame
    subst hsame
    refine ⟨.inr rfl, hkey, fun hold => ?_⟩
    exact hnodup.2.2 _ hold _ (List.mem_singleton_self _) rfl

variable [LinearOrder τ]

def get (r : Recency κ ν τ capacity) (key : κ) (now : τ) : Recency κ ν τ capacity × Option ν :=
  match h : r.find key with
  | none => (r, none)
  | some e =>
    if e.expiresAt < now then (r.keep (r.others key) (r.others_sublist key), none)
    else
      (r.use key e.value e.expiresAt (r.others key) (r.others_sublist key) (r.others_free key)
        (others_length h), some e.value)

theorem get_of_not_find {r : Recency κ ν τ capacity} {key : κ} (h : r.find key = none) (now : τ) :
    r.get key now = (r, none) := by
  unfold get
  split
  · rfl
  next hsome =>
    rw [h] at hsome
    cases hsome

theorem get_of_expired {r : Recency κ ν τ capacity} {key : κ} {now : τ} {e : Used κ ν τ}
    (h : r.find key = some e) (hexpired : e.expiresAt < now) :
    r.get key now = (r.keep (r.others key) (r.others_sublist key), none) := by
  unfold get
  split
  next hnone =>
    rw [h] at hnone
    cases hnone
  next found hfound =>
    rw [h] at hfound
    cases hfound
    exact if_pos hexpired

theorem get_of_live {r : Recency κ ν τ capacity} {key : κ} {now : τ} {e : Used κ ν τ}
    (h : r.find key = some e) (hlive : now ≤ e.expiresAt) :
    r.get key now = (r.use key e.value e.expiresAt (r.others key) (r.others_sublist key)
      (r.others_free key) (others_length h), some e.value) := by
  unfold get
  split
  next hnone =>
    rw [h] at hnone
    cases hnone
  next found hfound =>
    have heq := hfound
    rw [h] at heq
    cases heq
    exact if_neg (not_lt.mpr hlive)

/-- A read returns the value of an entry that has not expired. -/
theorem get_eq_some {r : Recency κ ν τ capacity} {key : κ} {now : τ} {value : ν} :
    (r.get key now).2 = some value ↔
      ∃ e ∈ r.entries, e.key = key ∧ now ≤ e.expiresAt ∧ e.value = value := by
  constructor
  · intro h
    cases hfind : r.find key with
    | none =>
      rw [get_of_not_find hfind] at h
      cases h
    | some e =>
      obtain ⟨he, hkey⟩ := find_eq_some.mp hfind
      rcases lt_or_ge e.expiresAt now with hexpired | hlive
      · rw [get_of_expired hfind hexpired] at h
        cases h
      · rw [get_of_live hfind hlive] at h
        exact ⟨e, he, hkey, hlive, Option.some.inj h⟩
  · intro ⟨e, he, hkey, hlive, hvalue⟩
    rw [get_of_live (find_eq_some.mpr ⟨he, hkey⟩) hlive, hvalue]

/-- A read changes no value. -/
theorem mem_get {r : Recency κ ν τ capacity} {key : κ} {now : τ} {e : Used κ ν τ}
    (h : e ∈ (r.get key now).1.entries) : ∃ old ∈ r.entries,
      old.key = e.key ∧ old.value = e.value ∧ old.expiresAt = e.expiresAt := by
  cases hfind : r.find key with
  | none =>
    rw [get_of_not_find hfind] at h
    exact ⟨e, h, rfl, rfl, rfl⟩
  | some found =>
    obtain ⟨hfound, hkey⟩ := find_eq_some.mp hfind
    rcases lt_or_ge found.expiresAt now with hexpired | hlive
    · rw [get_of_expired hfind hexpired] at h
      exact ⟨e, (r.others_sublist key).subset h, rfl, rfl, rfl⟩
    · rw [get_of_live hfind hlive] at h
      rcases List.mem_cons.mp h with rfl | hmem
      · exact ⟨found, hfound, hkey, rfl, rfl⟩
      · exact ⟨e, (r.others_sublist key).subset hmem, rfl, rfl, rfl⟩

end Recency
end Persatrix
