import Persatrix.PythonBuiltins

/-!
# Python's text methods and equality

`str.strip`, `str.split` at a separator of two different characters, `str.join`, and what `==` and
`in` compare of values that `json` has read. `json` has one object for every NaN it reads, so that a
NaN in a container is found by its identity.
-/
namespace Persatrix.PyJson

/-! ### `strip` -/

/-- `s.strip()` -/
def strip (s : PyText) : PyText := (s.dropWhile isWhitespace).rdropWhile isWhitespace

theorem strip_isInfix (s : PyText) : strip s <:+: s :=
  (List.rdropWhile_prefix _ _).isInfix.trans (List.dropWhile_suffix _).isInfix

theorem strip_strip (s : PyText) : strip (strip s) = strip s := by
  have hhead : (strip s).dropWhile isWhitespace = strip s := by
    rw [List.dropWhile_eq_self_iff]
    intro hlen
    have hpre : strip s <+: s.dropWhile isWhitespace := List.rdropWhile_prefix _ _
    rw [hpre.getElem hlen]
    exact List.dropWhile_get_zero_not isWhitespace s (Nat.lt_of_lt_of_le hlen hpre.length_le)
  calc strip (strip s) = ((strip s).dropWhile isWhitespace).rdropWhile isWhitespace := rfl
    _ = (strip s).rdropWhile isWhitespace := by rw [hhead]
    _ = strip s := List.rdropWhile_idempotent ..

/-! ### `split` and `join` -/

section Split
variable {α : Type} {a b : α}

/-- No two characters of the piece, one behind the other, are the separator. -/
def Unsplit (a b : α) (piece : List α) : Prop := ¬[a, b] <:+: piece

theorem Unsplit.of_isInfix {s t : List α} (h : Unsplit a b t) (hst : s <:+: t) : Unsplit a b s :=
  fun hab => h (hab.trans hst)

theorem Unsplit.nil : Unsplit a b ([] : List α) := fun h => by
  have := h.length_le
  simp at this

theorem Unsplit.singleton (c : α) : Unsplit a b [c] := fun h => by
  have := h.length_le
  simp at this

theorem Unsplit.cons_iff {c d : α} {s : List α} :
    Unsplit a b (c :: d :: s) ↔ ¬(c = a ∧ d = b) ∧ Unsplit a b (d :: s) := by
  unfold Unsplit
  rw [List.infix_cons_iff, not_or]
  simp only [List.cons_prefix_cons, List.nil_prefix, and_true, eq_comm (a := a), eq_comm (a := b)]

/-- `sep.join(pieces)` -/
def join (sep : List α) (pieces : List (List α)) : List α := sep.intercalate pieces

/-- A character in front of the first piece. -/
def extendHead (c : α) : List (List α) → List (List α)
  | [] => [[c]]
  | p :: ps => (c :: p) :: ps

theorem join_extendHead (c : α) {pieces : List (List α)} (h : pieces ≠ []) (sep : List α) :
    join sep (extendHead c pieces) = c :: join sep pieces := by
  unfold join
  cases pieces with
  | nil => exact absurd rfl h
  | cons p ps =>
    cases ps with
    | nil => simp [extendHead]
    | cons q ps => simp [extendHead]

variable [DecidableEq α]

/-- `s.split(sep)` for the separator of these two characters. -/
def splitPair (a b : α) : List α → List (List α)
  | [] => [[]]
  | [c] => [[c]]
  | c :: d :: s =>
    if c = a ∧ d = b then [] :: splitPair a b s else extendHead c (splitPair a b (d :: s))

theorem splitPair_ne_nil (s : List α) : splitPair a b s ≠ [] := by
  fun_induction splitPair a b s with
  | case1 => simp
  | case2 c => simp
  | case3 c d s _ _ => simp
  | case4 c d s _ ih =>
    cases h : splitPair a b (d :: s) with
    | nil => exact absurd h ih
    | cons p ps => simp [extendHead]

/-- The pieces, joined, are the text. -/
theorem join_splitPair (s : List α) : join [a, b] (splitPair a b s) = s := by
  fun_induction splitPair a b s with
  | case1 => simp [join]
  | case2 c => simp [join]
  | case3 c d s hcd ih =>
    unfold join at ih ⊢
    cases h : splitPair a b s with
    | nil => exact absurd h (splitPair_ne_nil s)
    | cons p ps =>
      rw [h] at ih
      rw [List.intercalate_cons_cons, ih, hcd.1, hcd.2]
      rfl
  | case4 c d s _ ih => rw [join_extendHead c (splitPair_ne_nil _), ih]

theorem splitPair_unsplit {p : List α} (h : Unsplit a b p) : splitPair a b p = [p] := by
  fun_induction splitPair a b p with
  | case1 => rfl
  | case2 c => rfl
  | case3 c d s hcd _ => exact absurd hcd (Unsplit.cons_iff.mp h).1
  | case4 c d s _ ih =>
    rw [ih (Unsplit.cons_iff.mp h).2]
    rfl

/-- A piece that a separator follows is split off. -/
theorem splitPair_append (hab : a ≠ b) {p : List α} (h : Unsplit a b p) (rest : List α) :
    splitPair a b (p ++ a :: b :: rest) = p :: splitPair a b rest := by
  induction p with
  | nil => simp [splitPair]
  | cons c p ih =>
    cases p with
    | nil =>
      rw [List.singleton_append, splitPair, if_neg fun h => hab h.2, splitPair,
        if_pos ⟨rfl, rfl⟩]
      rfl
    | cons d p =>
      have hparts := Unsplit.cons_iff.mp h
      rw [List.cons_append, List.cons_append, splitPair, if_neg hparts.1]
      rw [← List.cons_append, ih hparts.2]
      rfl

/-- What is joined is split into the same pieces again. -/
theorem splitPair_join (hab : a ≠ b) {pieces : List (List α)} (hne : pieces ≠ [])
    (h : ∀ p ∈ pieces, Unsplit a b p) : splitPair a b (join [a, b] pieces) = pieces := by
  unfold join
  induction pieces with
  | nil => exact absurd rfl hne
  | cons p ps ih =>
    cases ps with
    | nil =>
      rw [List.intercalate_singleton]
      exact splitPair_unsplit (h p (List.mem_singleton.mpr rfl))
    | cons q ps =>
      rw [List.intercalate_cons_cons]
      have hrest := ih (List.cons_ne_nil _ _) fun r hr => h r (List.mem_cons_of_mem _ hr)
      calc splitPair a b (p ++ [a, b] ++ List.intercalate [a, b] (q :: ps))
          = splitPair a b (p ++ a :: b :: List.intercalate [a, b] (q :: ps)) := by
            rw [List.append_assoc]
            rfl
        _ = p :: q :: ps := by
            rw [splitPair_append hab (h p (List.mem_cons_self ..)), hrest]

theorem head_splitPair {s p : List α} {ps : List (List α)} (h : splitPair a b s = p :: ps) :
    p <+: s := by
  have hjoin : join [a, b] (p :: ps) = s := h ▸ join_splitPair s
  rw [← hjoin]
  unfold join
  cases ps with
  | nil => rw [List.intercalate_singleton]
  | cons q ps =>
    rw [List.intercalate_cons_cons, List.append_assoc]
    exact List.prefix_append ..

/-- No piece holds the separator. -/
theorem unsplit_of_mem {s p : List α} (h : p ∈ splitPair a b s) : Unsplit a b p := by
  fun_induction splitPair a b s generalizing p with
  | case1 =>
    rw [List.mem_singleton] at h
    exact h ▸ Unsplit.nil
  | case2 c =>
    rw [List.mem_singleton] at h
    exact h ▸ Unsplit.singleton c
  | case3 c d s _ ih =>
    cases List.mem_cons.mp h with
    | inl h => exact h ▸ Unsplit.nil
    | inr h => exact ih h
  | case4 c d s hcd ih =>
    cases hs : splitPair a b (d :: s) with
    | nil => exact absurd hs (splitPair_ne_nil _)
    | cons q qs =>
      rw [hs, extendHead, List.mem_cons] at h
      cases h with
      | inr h => exact ih (hs ▸ List.mem_cons_of_mem _ h)
      | inl h =>
        have hq : Unsplit a b q := ih (hs ▸ List.mem_cons_self ..)
        cases q with
        | nil => exact h ▸ Unsplit.singleton c
        | cons x q =>
          -- the piece behind begins as the text does
          have hx : x = d := (List.cons_prefix_cons.mp (head_splitPair hs)).1
          subst hx
          exact h ▸ Unsplit.cons_iff.mpr ⟨hcd, hq⟩

end Split

/-! ### `==` and `in` -/

mutual
/-- `v == w`, or the same object. -/
def eqValue : Value → Value → Bool
  | .array vs, .array ws => eqItems vs ws
  | .object ms, .object ns => ms.length = ns.length && eqMembers ms ns
  | v, w => (dictKey v).isSome && dictKey v = dictKey w

def eqItems : List Value → List Value → Bool
  | [], [] => true
  | v :: vs, w :: ws => eqValue v w && eqItems vs ws
  | _, _ => false

def eqMembers : List (PyText × Value) → List (PyText × Value) → Bool
  | [], _ => true
  | (key, v) :: ms, ns => (ns.lookup key).any (eqValue v ·) && eqMembers ms ns
end

/-- `item in out` -/
def contains (out : List Value) (item : Value) : Bool := out.any (eqValue · item)

mutual
/-- No `dict` of the value has a key twice. -/
def Value.Unique : Value → Prop
  | .array items => ItemsUnique items
  | .object items => (keys items).Nodup ∧ MembersUnique items
  | _ => True

def ItemsUnique : List Value → Prop
  | [] => True
  | v :: vs => v.Unique ∧ ItemsUnique vs

def MembersUnique : List (PyText × Value) → Prop
  | [] => True
  | (_, v) :: ms => v.Unique ∧ MembersUnique ms
end

theorem lookup_of_mem {items : List (PyText × Value)} (h : (keys items).Nodup)
    {p : PyText × Value} (hp : p ∈ items) : items.lookup p.1 = some p.2 := by
  induction items with
  | nil => cases hp
  | cons q items ih =>
    obtain ⟨hq, h⟩ := List.nodup_cons.mp h
    rw [List.lookup_cons]
    cases List.mem_cons.mp hp with
    | inl hp => simp [hp]
    | inr hp =>
      have hne : p.1 ≠ q.1 := fun he => hq (he ▸ List.mem_map_of_mem hp)
      rw [beq_eq_false_iff_ne.mpr hne]
      exact ih h hp

mutual
theorem eqValue_refl : ∀ {v : Value}, v.Unique → eqValue v v = true
  | .array vs, h => by
    rw [eqValue]
    exact eqItems_refl h
  | .object ms, h => by
    rw [eqValue, eqMembers_self (fun p hp => lookup_of_mem h.1 hp) h.2]
    simp
  | .null, _ => by decide
  | .bool b, _ => by simp [eqValue, dictKey]
  | .int n, _ => by simp [eqValue, dictKey]
  | .float x, _ => by cases x <;> simp [eqValue, dictKey]
  | .str s, _ => by simp [eqValue, dictKey]

theorem eqItems_refl : ∀ {vs : List Value}, ItemsUnique vs → eqItems vs vs = true
  | [], _ => rfl
  | v :: vs, h => by rw [eqItems, eqValue_refl h.1, eqItems_refl h.2, Bool.and_true]

theorem eqMembers_self : ∀ {ms ns : List (PyText × Value)},
    (∀ p ∈ ms, ns.lookup p.1 = some p.2) → MembersUnique ms → eqMembers ms ns = true
  | [], _, _, _ => rfl
  | (key, v) :: ms, ns, hin, h => by
    have hrest : eqMembers ms ns = true :=
      eqMembers_self (fun p hp => hin p (List.mem_cons_of_mem _ hp)) h.2
    rw [eqMembers, hin (key, v) (List.mem_cons_self ..), Option.any_some, eqValue_refl h.1, hrest]
    rfl
end

/-- A text is equal to itself only. -/
theorem eqValue_str {v : Value} {s : PyText} : eqValue v (.str s) = true ↔ v = .str s := by
  cases v with
  | str t => simp [eqValue, dictKey]
  | float x => cases x <;> simp [eqValue, dictKey]
  | _ => simp [eqValue, dictKey]

/-! ### Items of a `dict` -/

theorem itemsUnique_iff {vs : List Value} : ItemsUnique vs ↔ ∀ v ∈ vs, v.Unique := by
  induction vs with
  | nil => simp [ItemsUnique]
  | cons v vs ih => rw [ItemsUnique, ih, List.forall_mem_cons]

theorem membersUnique_iff {ms : List (PyText × Value)} :
    MembersUnique ms ↔ ∀ p ∈ ms, p.2.Unique := by
  induction ms with
  | nil => simp [MembersUnique]
  | cons p ms ih => rw [MembersUnique, ih, List.forall_mem_cons]

theorem keys_setItem (items : List (PyText × Value)) (key : PyText) (v : Value) :
    keys (setItem items key v) = if key ∈ keys items then keys items else keys items ++ [key] := by
  unfold keys setItem
  by_cases h : key ∈ items.map Prod.fst
  · rw [if_pos h, if_pos h, List.map_map]
    refine List.map_congr_left fun p _ => ?_
    by_cases hp : p.1 = key
    · simp [hp]
    · simp [hp]
  · rw [if_neg h, if_neg h, List.map_append]
    rfl

theorem lookup_none_iff {items : List (PyText × Value)} {key : PyText} :
    items.lookup key = none ↔ key ∉ keys items := by
  rw [List.lookup_eq_none_iff]
  constructor
  · intro h hmem
    obtain ⟨p, hp, rfl⟩ := List.mem_map.mp hmem
    exact bne_iff_ne.mp (h p hp) rfl
  · intro h p hp
    refine bne_iff_ne.mpr fun he => h ?_
    rw [he]
    exact List.mem_map_of_mem hp

theorem lookup_setItem (items : List (PyText × Value)) (key : PyText) (v : Value) (key' : PyText) :
    (setItem items key v).lookup key' = if key' = key then some v else items.lookup key' := by
  unfold setItem
  by_cases h : key ∈ items.map Prod.fst
  · rw [if_pos h]
    induction items with
    | nil => cases h
    | cons p items ih =>
      rw [List.map_cons, List.lookup_cons, List.lookup_cons]
      by_cases hp : p.1 = key
      · rw [if_pos hp, hp]
        by_cases hk : key' = key
        · simp [hk]
        · rw [beq_eq_false_iff_ne.mpr hk, if_neg hk]
          dsimp only
          by_cases hin : key ∈ items.map Prod.fst
          · rw [ih hin, if_neg hk]
          · have hsame : items.map (fun q => if q.1 = key then (key, v) else q) = items := by
              refine (List.map_congr_left fun q hq => if_neg fun he => hin ?_).trans
                (List.map_id _)
              rw [← he]
              exact List.mem_map_of_mem hq
            rw [hsame]
      · rw [if_neg hp]
        have hin := (List.mem_cons.mp h).resolve_left (Ne.symm hp)
        by_cases hk : key' = p.1
        · rw [if_neg (hk ▸ hp), hk]
          simp
        · rw [beq_eq_false_iff_ne.mpr hk]
          exact ih hin
  · rw [if_neg h, List.lookup_append]
    by_cases hk : key' = key
    · simp [hk, lookup_none_iff.mpr h]
    · have hno : [(key, v)].lookup key' = none := by
        simp [List.lookup_cons, beq_eq_false_iff_ne.mpr hk]
      rw [hno, Option.or_none, if_neg hk]

/-- Storing what is stored changes nothing. -/
theorem setItem_self {items : List (PyText × Value)} (h : (keys items).Nodup) {key : PyText}
    {v : Value} (hv : items.lookup key = some v) : setItem items key v = items := by
  have hmem : key ∈ items.map Prod.fst := by
    by_contra hno
    rw [lookup_none_iff.mpr hno] at hv
    cases hv
  unfold setItem
  rw [if_pos hmem]
  refine (List.map_congr_left fun p hp => ?_).trans (List.map_id _)
  by_cases hk : p.1 = key
  · have hp2 := lookup_of_mem h hp
    rw [hk, hv] at hp2
    rw [if_pos hk, Option.some.inj hp2, ← hk]
    rfl
  · exact if_neg hk

theorem unique_lookup {items : List (PyText × Value)} (h : (Value.object items).Unique)
    {key : PyText} {v : Value} (hv : items.lookup key = some v) : v.Unique := by
  obtain ⟨before, after, hsplit, _⟩ := List.lookup_eq_some_iff.mp hv
  refine membersUnique_iff.mp h.2 (key, v) ?_
  rw [hsplit]
  exact List.mem_append_right _ (List.mem_cons_self ..)

theorem unique_setItem {items : List (PyText × Value)} (h : (Value.object items).Unique)
    (key : PyText) {v : Value} (hv : v.Unique) : (Value.object (setItem items key v)).Unique := by
  refine ⟨?_, membersUnique_iff.mpr fun p hp => ?_⟩
  · rw [keys_setItem]
    by_cases hin : key ∈ keys items
    · rw [if_pos hin]
      exact h.1
    · rw [if_neg hin]
      exact List.nodup_append.mpr ⟨h.1, List.nodup_singleton _, fun a ha b hb hab =>
        hin (by rw [← List.mem_singleton.mp hb, ← hab]; exact ha)⟩
  · unfold setItem at hp
    by_cases hin : key ∈ items.map Prod.fst
    · rw [if_pos hin, List.mem_map] at hp
      obtain ⟨q, hq, rfl⟩ := hp
      by_cases hk : q.1 = key
      · rw [if_pos hk]
        exact hv
      · rw [if_neg hk]
        exact membersUnique_iff.mp h.2 q hq
    · rw [if_neg hin, List.mem_append, List.mem_singleton] at hp
      cases hp with
      | inl hp => exact membersUnique_iff.mp h.2 p hp
      | inr hp => exact hp ▸ hv

end Persatrix.PyJson
