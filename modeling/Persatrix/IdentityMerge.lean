import Persatrix.PythonText

/-!
# Merging a person's identity

`merge_identity` of `relationship_types.py` over any JSON objects, with its rules for list keys, text
keys and all others, and the folds the migrations make with it. Merging fails on a `raw` that is
neither a text nor absent, since what is no text cannot be joined; in every other case it returns,
loses nothing and is idempotent.
-/
namespace Persatrix.Identity
open PyJson

/-! ### The code -/

def identityListKeys : List PyText := [word "prefs"]

def identityTextUnionKeys : List PyText := [word "raw"]

def textUnionSep : PyText := [46, 32]

def isAbsent : Value → Bool
  | .null => true
  | .str s => s = []
  | _ => false

/-- One turn of the loop of `_union_preserving`. -/
def addItem (out : List Value) (item : Value) : List Value :=
  if !isAbsent item && !contains out item then out ++ [item] else out

def unionPreserving (base items : List Value) : List Value := items.foldl addItem base

def splitClauses (value : Value) : List Value :=
  if isAbsent value then []
  else
    match value with
    | .str s => (((splitPair 46 32 s).map strip).filter (· ≠ [])).map .str
    | value => [value]

def textOf : Value → Option PyText
  | .str s => some s
  | _ => none

/-- `_TEXT_UNION_SEP.join(clauses)`, which raises on a clause that is no text. -/
def joinClauses (clauses : List Value) : Except PyException PyText :=
  match clauses.mapM textOf with
  | some texts => .ok (join textUnionSep texts)
  | none => .error .typeError

/-- A value that is no list is a single element. -/
def listOf : Value → List Value
  | .array items => items
  | value => [value]

/-- What the loop of `merge_identity` stores under a key. -/
def mergedField (key : PyText) (current : Option Value) (value : Value) :
    Except PyException Value :=
  if key ∈ identityListKeys then
    .ok (.array (unionPreserving (listOf (current.getD (.array []))) (listOf value)))
  else if key ∈ identityTextUnionKeys then
    (joinClauses (unionPreserving (splitClauses (current.getD .null)) (splitClauses value))).map .str
  else .ok value

/-- One turn of that loop. -/
def mergeKey (merged : List (PyText × Value)) (p : PyText × Value) :
    Except PyException (List (PyText × Value)) :=
  if isAbsent p.2 then .ok merged
  else (mergedField p.1 (merged.lookup p.1) p.2).map (setItem merged p.1)

def mergeItems (existing incoming : List (PyText × Value)) :
    Except PyException (List (PyText × Value)) :=
  incoming.foldlM mergeKey existing

/-! ### The list rule -/

/-- `out` is `base` with those items behind it, in their order, that are not absent and not there. -/
structure Accumulates (base items out : List Value) : Prop where
  held : ∀ item ∈ items, isAbsent item = false → contains out item = true
  added : ∃ new, out = base ++ new ∧ new.Sublist (items.filter fun item => !isAbsent item) ∧
    ∀ before item after, new = before ++ item :: after → contains (base ++ before) item = false

theorem contains_append (out new : List Value) (item : Value) :
    contains (out ++ new) item = (contains out item || contains new item) := List.any_append

theorem contains_self {item : Value} (h : item.Unique) (out : List Value) :
    contains (out ++ [item]) item = true := by
  rw [contains_append, Bool.or_eq_true]
  right
  simp [contains, eqValue_refl h]

theorem addItem_cases (out : List Value) (item : Value) :
    addItem out item = out ∧ (isAbsent item = true ∨ contains out item = true) ∨
      addItem out item = out ++ [item] ∧ isAbsent item = false ∧ contains out item = false := by
  unfold addItem
  cases isAbsent item <;> cases contains out item <;> simp

theorem unionPreserving_accumulates {items : List Value} (h : ∀ v ∈ items, v.Unique)
    (base : List Value) : Accumulates base items (unionPreserving base items) := by
  induction items generalizing base with
  | nil =>
    refine ⟨fun _ hmem => (List.not_mem_nil hmem).elim, [], (List.append_nil base).symm, ?_, ?_⟩
    · exact List.nil_sublist _
    · exact fun before item after hnew => absurd hnew (by simp)
  | cons item items ih =>
    have hrest := ih (fun v hv => h v (List.mem_cons_of_mem _ hv)) (addItem base item)
    obtain ⟨new, hout, hsub, hnew⟩ := hrest.added
    have hunion : unionPreserving base (item :: items)
        = unionPreserving (addItem base item) items := rfl
    rw [hunion]
    cases addItem_cases base item with
    | inl hsame =>
      rw [hsame.1] at hout hnew hrest ⊢
      refine ⟨fun v hv habs => ?_, new, hout, ?_, hnew⟩
      · cases List.mem_cons.mp hv with
        | inr hv => exact hrest.held v hv habs
        | inl hv =>
          subst hv
          rw [hout, contains_append, Bool.or_eq_true]
          exact .inl (hsame.2.resolve_left (by rw [habs]; exact Bool.false_ne_true))
      · exact hsub.trans ((List.sublist_cons_self item items).filter _)
    | inr hadd =>
      obtain ⟨hadd, hpresent, hfresh⟩ := hadd
      rw [hadd] at hout hnew hrest ⊢
      refine ⟨fun v hv habs => ?_, item :: new, ?_, ?_, ?_⟩
      · cases List.mem_cons.mp hv with
        | inr hv => exact hrest.held v hv habs
        | inl hv =>
          subst hv
          rw [hout, contains_append, contains_self (h v (List.mem_cons_self ..)) base]
          rfl
      · rw [hout, List.append_assoc]
        rfl
      · rw [List.filter_cons_of_pos (by rw [hpresent]; rfl)]
        exact hsub.cons_cons item
      · intro before v after hsplit
        cases before with
        | nil =>
          rw [List.nil_append, List.cons.injEq] at hsplit
          rw [List.append_nil, ← hsplit.1]
          exact hfresh
        | cons b before =>
          rw [List.cons_append, List.cons.injEq] at hsplit
          have hv := hnew before v after hsplit.2
          rw [List.append_assoc, List.singleton_append, hsplit.1] at hv
          exact hv

/-- Items that are absent or there already add nothing. -/
theorem unionPreserving_eq_self {base items : List Value}
    (h : ∀ item ∈ items, isAbsent item = false → contains base item = true) :
    unionPreserving base items = base := by
  unfold unionPreserving
  induction items with
  | nil => rfl
  | cons item items ih =>
    have hsame : addItem base item = base := by
      cases addItem_cases base item with
      | inl hsame => exact hsame.1
      | inr hadd =>
        rw [h item (List.mem_cons_self ..) hadd.2.1] at hadd
        cases hadd.2.2
    rw [List.foldl_cons, hsame]
    exact ih fun v hv => h v (List.mem_cons_of_mem _ hv)

theorem mem_unionPreserving {base items : List Value} (h : ∀ v ∈ items, v.Unique) {v : Value}
    (hv : v ∈ unionPreserving base items) : v ∈ base ∨ v ∈ items := by
  obtain ⟨new, hout, hsub, _⟩ := (unionPreserving_accumulates h base).added
  rw [hout, List.mem_append] at hv
  exact hv.imp id fun hv => List.mem_of_mem_filter (hsub.subset hv)

/-! ### The text rule -/

/-- What `_split_clauses` makes of a text is made of these. -/
structure IsClause (c : PyText) : Prop where
  ne_nil : c ≠ []
  stripped : strip c = c
  unsplit : Unsplit 46 32 c

theorem isClause_of_mem {s : PyText} {v : Value} (h : v ∈ splitClauses (.str s)) :
    ∃ c, v = .str c ∧ IsClause c := by
  unfold splitClauses at h
  cases habs : isAbsent (.str s) with
  | true =>
    rw [if_pos habs] at h
    cases h
  | false =>
    rw [if_neg (by rw [habs]; exact Bool.false_ne_true), List.mem_map] at h
    obtain ⟨c, hc, rfl⟩ := h
    obtain ⟨hc, hne⟩ := List.mem_filter.mp hc
    obtain ⟨piece, hpiece, rfl⟩ := List.mem_map.mp hc
    exact ⟨_, rfl, of_decide_eq_true hne, strip_strip piece,
      (unsplit_of_mem hpiece).of_isInfix (strip_isInfix piece)⟩

/-- Clauses that are joined are split into the same clauses again. -/
theorem splitClauses_join {clauses : List PyText} (h : ∀ c ∈ clauses, IsClause c) :
    splitClauses (.str (join textUnionSep clauses)) = clauses.map .str := by
  cases clauses with
  | nil => rfl
  | cons c cs =>
    have hpieces : splitPair 46 32 (join textUnionSep (c :: cs)) = c :: cs :=
      splitPair_join (by decide) (List.cons_ne_nil c cs) fun d hd => (h d hd).unsplit
    have hne : isAbsent (.str (join textUnionSep (c :: cs))) = false := by
      refine decide_eq_false fun hnil => ?_
      rw [hnil] at hpieces
      have hc := (List.cons.inj hpieces).1
      exact (h c (List.mem_cons_self ..)).ne_nil hc.symm
    unfold splitClauses
    rw [if_neg (by rw [hne]; exact Bool.false_ne_true)]
    dsimp only
    rw [hpieces, List.map_congr_left (g := id) fun d hd => (h d hd).stripped, List.map_id,
      List.filter_eq_self.mpr fun d hd => decide_eq_true (h d hd).ne_nil]

theorem mapM_textOf {clauses : List Value} {texts : List PyText} :
    clauses.mapM textOf = some texts ↔ clauses = texts.map .str := by
  induction clauses generalizing texts with
  | nil => cases texts <;> simp
  | cons v clauses ih =>
    cases v with
    | str s =>
      simp only [List.mapM_cons, textOf, Option.pure_def, Option.bind_eq_bind, Option.bind_some]
      cases texts with
      | nil => cases clauses.mapM textOf <;> simp
      | cons t texts => simp [Option.bind_eq_some_iff, ih, and_comm]
    | _ => cases texts <;> simp [textOf]

theorem joinClauses_ok {clauses : List Value} {t : PyText} :
    joinClauses clauses = .ok t ↔
      ∃ texts, clauses = texts.map .str ∧ t = join textUnionSep texts := by
  unfold joinClauses
  cases h : clauses.mapM textOf with
  | none =>
    refine ⟨fun hok => (by cases hok), fun ⟨texts, htexts, _⟩ => ?_⟩
    rw [← mapM_textOf, h] at htexts
    cases htexts
  | some texts =>
    constructor
    · intro hok
      rw [mapM_textOf] at h
      exact ⟨texts, h, (Except.ok.inj hok).symm⟩
    · intro ⟨texts', htexts', ht⟩
      rw [← mapM_textOf, h] at htexts'
      rw [ht, Option.some.inj htexts']

/-- The value is absent or a text, so that its clauses can be joined. -/
def absentOrText (v : Value) : Bool := isAbsent v || (textOf v).isSome

theorem splitClauses_cases (v : Value) :
    absentOrText v = true ∧ (∀ c ∈ splitClauses v, ∃ t, c = .str t ∧ IsClause t) ∨
      absentOrText v = false ∧ splitClauses v = [v] ∧ textOf v = none := by
  cases v with
  | str s => exact .inl ⟨by simp [absentOrText, textOf], fun c hc => isClause_of_mem hc⟩
  | null => exact .inl ⟨rfl, fun c hc => by cases hc⟩
  | _ => exact .inr ⟨rfl, rfl, rfl⟩

theorem unique_of_mem_splitClauses {v : Value} (h : v.Unique) :
    ∀ c ∈ splitClauses v, c.Unique := by
  intro c hc
  cases splitClauses_cases v with
  | inl htext =>
    obtain ⟨t, rfl, _⟩ := htext.2 c hc
    trivial
  | inr hother =>
    rw [hother.2.1, List.mem_singleton] at hc
    exact hc ▸ h

/-- Nothing but a text is equal to a text. -/
theorem textOf_of_eqValue {v w : Value} (h : eqValue v w = true) :
    (textOf v).isSome = (textOf w).isSome := by
  cases w with
  | str s =>
    rw [eqValue_str] at h
    rw [h]
  | float x =>
    cases v with
    | str s => cases x <;> simp [eqValue, dictKey] at h
    | _ => rfl
  | _ =>
    cases v with
    | str s => simp [eqValue, dictKey] at h
    | _ => rfl

theorem exists_texts {clauses : List Value} (h : ∀ v ∈ clauses, ∃ c, v = .str c ∧ IsClause c) :
    ∃ texts : List PyText, clauses = texts.map .str ∧ ∀ c ∈ texts, IsClause c := by
  induction clauses with
  | nil => exact ⟨[], rfl, fun _ hc => (List.not_mem_nil hc).elim⟩
  | cons v clauses ih =>
    obtain ⟨c, rfl, hc⟩ := h v (List.mem_cons_self ..)
    obtain ⟨texts, rfl, htexts⟩ := ih fun v hv => h v (List.mem_cons_of_mem _ hv)
    exact ⟨c :: texts, rfl, List.forall_mem_cons.mpr ⟨hc, htexts⟩⟩

/-- The clauses of two texts, united and joined, are the clauses of the result. -/
theorem joinClauses_union {v w : Value} (hv : absentOrText v = true) (hw : absentOrText w = true)
    (hunique : w.Unique) :
    ∃ t, joinClauses (unionPreserving (splitClauses v) (splitClauses w)) = .ok t ∧
      splitClauses (.str t) = unionPreserving (splitClauses v) (splitClauses w) := by
  have htext : ∀ {u : Value}, absentOrText u = true →
      ∀ c ∈ splitClauses u, ∃ t, c = .str t ∧ IsClause t := by
    intro u hu c hc
    cases splitClauses_cases u with
    | inl h => exact h.2 c hc
    | inr h => rw [h.1] at hu; cases hu
  obtain ⟨texts, htexts, hclauses⟩ := exists_texts fun c hc =>
    (mem_unionPreserving (unique_of_mem_splitClauses hunique) hc).elim (htext hv c) (htext hw c)
  refine ⟨join textUnionSep texts, ?_, ?_⟩
  · rw [joinClauses_ok]
    exact ⟨texts, htexts, rfl⟩
  · rw [splitClauses_join hclauses, htexts]

/-- What is no text stays among the clauses and cannot be joined. -/
theorem joinClauses_union_error {v w : Value} (h : absentOrText v = false ∨ absentOrText w = false)
    (hunique : w.Unique) :
    joinClauses (unionPreserving (splitClauses v) (splitClauses w)) = .error .typeError := by
  have hout := unionPreserving_accumulates (unique_of_mem_splitClauses hunique) (splitClauses v)
  have hbad : ∃ u ∈ unionPreserving (splitClauses v) (splitClauses w), textOf u = none := by
    cases splitClauses_cases v with
    | inr hv =>
      obtain ⟨new, hnew, _⟩ := hout.added
      exact ⟨v, by rw [hnew, hv.2.1]; exact List.mem_cons_self .., hv.2.2⟩
    | inl hv =>
      cases splitClauses_cases w with
      | inl hw =>
        rw [hv.1, hw.1] at h
        cases h with
        | inl h => cases h
        | inr h => cases h
      | inr hw =>
        have hpresent : isAbsent w = false := (Bool.or_eq_false_iff.mp hw.1).1
        obtain ⟨u, hu, heq⟩ := List.any_eq_true.mp
          (hout.held w (by rw [hw.2.1]; exact List.mem_singleton.mpr rfl) hpresent)
        have htext := textOf_of_eqValue heq
        rw [hw.2.2] at htext
        exact ⟨u, hu, Option.isSome_eq_false_iff.mp htext |> Option.isNone_iff_eq_none.mp⟩
  obtain ⟨u, hu, hnone⟩ := hbad
  unfold joinClauses
  cases hm : (unionPreserving (splitClauses v) (splitClauses w)).mapM textOf with
  | none => rfl
  | some texts =>
    rw [mapM_textOf] at hm
    rw [hm, List.mem_map] at hu
    obtain ⟨t, _, rfl⟩ := hu
    cases hnone

/-! ### One field -/

theorem unique_listOf {v : Value} (h : v.Unique) : ∀ item ∈ listOf v, item.Unique := by
  cases v with
  | array items => exact itemsUnique_iff.mp h
  | _ => exact fun item hitem => List.mem_singleton.mp hitem ▸ h

/-- The value under a key of this kind can be merged with the new one. -/
def Mergeable (key : PyText) (current : Option Value) (value : Value) : Prop :=
  key ∈ identityTextUnionKeys →
    absentOrText (current.getD .null) = true ∧ absentOrText value = true

theorem text_key {key : PyText} (h : key ∈ identityTextUnionKeys) : key ∉ identityListKeys := by
  rw [List.mem_singleton.mp h]
  decide

theorem mergedField_list {key : PyText} (h : key ∈ identityListKeys) (current : Option Value)
    (value : Value) : mergedField key current value =
      .ok (.array (unionPreserving (listOf (current.getD (.array []))) (listOf value))) := if_pos h

theorem mergedField_text {key : PyText} (h : key ∈ identityTextUnionKeys) (current : Option Value)
    (value : Value) : mergedField key current value =
      (joinClauses (unionPreserving (splitClauses (current.getD .null))
        (splitClauses value))).map .str := by
  rw [mergedField, if_neg (text_key h), if_pos h]

theorem mergedField_scalar {key : PyText} (hlist : key ∉ identityListKeys)
    (htext : key ∉ identityTextUnionKeys) (current : Option Value) (value : Value) :
    mergedField key current value = .ok value := by
  rw [mergedField, if_neg hlist, if_neg htext]

theorem mergedField_ok_iff {key : PyText} {current : Option Value} {value : Value}
    (hunique : value.Unique) :
    (∃ w, mergedField key current value = .ok w) ↔ Mergeable key current value := by
  by_cases hlist : key ∈ identityListKeys
  · rw [mergedField_list hlist]
    exact ⟨fun _ htext => absurd hlist (text_key htext), fun _ => ⟨_, rfl⟩⟩
  · by_cases htext : key ∈ identityTextUnionKeys
    · rw [mergedField_text htext]
      constructor
      · intro ⟨w, hw⟩ _
        by_contra hbad
        rw [not_and_or, Bool.not_eq_true, Bool.not_eq_true] at hbad
        rw [joinClauses_union_error hbad hunique] at hw
        cases hw
      · intro h
        obtain ⟨t, ht, _⟩ := joinClauses_union (h htext).1 (h htext).2 hunique
        exact ⟨.str t, by rw [ht]; rfl⟩
    · rw [mergedField_scalar hlist htext]
      exact ⟨fun _ h => absurd h htext, fun _ => ⟨_, rfl⟩⟩

theorem mergedField_text_ok {key : PyText} (h : key ∈ identityTextUnionKeys)
    {current : Option Value} {value w : Value} (hunique : value.Unique)
    (hw : mergedField key current value = .ok w) :
    absentOrText w = true ∧ splitClauses w =
      unionPreserving (splitClauses (current.getD .null)) (splitClauses value) := by
  obtain ⟨hcurrent, hvalue⟩ := (mergedField_ok_iff hunique).mp ⟨w, hw⟩ h
  obtain ⟨t, ht, hclauses⟩ := joinClauses_union hcurrent hvalue hunique
  rw [mergedField_text h, ht] at hw
  cases hw
  exact ⟨by simp [absentOrText, textOf], hclauses⟩

/-- Merging a value once more into what it was merged into changes nothing. -/
theorem mergedField_again {key : PyText} {current : Option Value} {value w : Value}
    (hunique : value.Unique) (hw : mergedField key current value = .ok w) :
    mergedField key (some w) value = .ok w := by
  by_cases hlist : key ∈ identityListKeys
  · rw [mergedField_list hlist] at hw ⊢
    cases hw
    have hheld := (unionPreserving_accumulates (unique_listOf hunique)
      (listOf (current.getD (.array [])))).held
    rw [Option.getD_some, listOf, unionPreserving_eq_self hheld]
  · by_cases htext : key ∈ identityTextUnionKeys
    · have hclauses := (mergedField_text_ok htext hunique hw).2
      have hheld := (unionPreserving_accumulates (unique_of_mem_splitClauses hunique)
        (splitClauses (current.getD .null))).held
      rw [mergedField_text htext] at hw ⊢
      rw [Option.getD_some, hclauses, unionPreserving_eq_self hheld]
      exact hw
    · rw [mergedField_scalar hlist htext] at hw ⊢
      exact hw

theorem unique_mergedField {key : PyText} {current : Option Value} {value w : Value}
    (hcurrent : ∀ v, current = some v → v.Unique) (hunique : value.Unique)
    (hw : mergedField key current value = .ok w) : w.Unique := by
  by_cases hlist : key ∈ identityListKeys
  · rw [mergedField_list hlist] at hw
    cases hw
    refine itemsUnique_iff.mpr fun v hv => ?_
    cases mem_unionPreserving (unique_listOf hunique) hv with
    | inl hv =>
      cases current with
      | none => cases hv
      | some c => exact unique_listOf (hcurrent c rfl) v hv
    | inr hv => exact unique_listOf hunique v hv
  · by_cases htext : key ∈ identityTextUnionKeys
    · rw [mergedField_text htext] at hw
      cases h : joinClauses (unionPreserving (splitClauses (current.getD .null))
          (splitClauses value)) with
      | error e => rw [h] at hw; cases hw
      | ok t => rw [h] at hw; cases hw; trivial
    · rw [mergedField_scalar hlist htext] at hw
      cases hw
      exact hunique

end Persatrix.Identity

/-!
## Merging and folding whole identities

The loop of `merge_identity` over the keys of a JSON object, what it stores under each key, and the
folds that the migrations make of it: they return, keep what there was and may be run again, exactly
where every `raw` they join is a text.
-/
namespace Persatrix.Identity
open PyJson

/-! ### The loop -/

theorem bind_eq_ok {ε α β : Type} {x : Except ε α} {f : α → Except ε β} {b : β} :
    x >>= f = .ok b ↔ ∃ a, x = .ok a ∧ f a = .ok b := by
  cases x with
  | error e => exact ⟨fun h => (by cases h), fun ⟨a, h, _⟩ => (by cases h)⟩
  | ok a => exact ⟨fun h => ⟨a, rfl, h⟩, fun ⟨a', h, hf⟩ => (by cases h; exact hf)⟩

theorem mergeItems_cons {existing incoming merged : List (PyText × Value)} {p : PyText × Value} :
    mergeItems existing (p :: incoming) = .ok merged ↔
      ∃ next, mergeKey existing p = .ok next ∧ mergeItems next incoming = .ok merged := by
  unfold mergeItems
  rw [List.foldlM_cons, bind_eq_ok]

/-- One turn of the loop leaves the object as it is or stores one field. -/
theorem mergeKey_ok {items next : List (PyText × Value)} {p : PyText × Value} :
    mergeKey items p = .ok next ↔ isAbsent p.2 = true ∧ next = items ∨
      isAbsent p.2 = false ∧ ∃ w, mergedField p.1 (items.lookup p.1) p.2 = .ok w ∧
        next = setItem items p.1 w := by
  unfold mergeKey
  cases isAbsent p.2 with
  | true => simp [eq_comm]
  | false =>
    cases mergedField p.1 (items.lookup p.1) p.2 with
    | error e => simp [Except.map]
    | ok w => simp [Except.map, eq_comm]

theorem unique_mergeKey {items next : List (PyText × Value)} {p : PyText × Value}
    (h : (Value.object items).Unique) (hp : p.2.Unique) (hnext : mergeKey items p = .ok next) :
    (Value.object next).Unique := by
  rw [mergeKey_ok] at hnext
  cases hnext with
  | inl habs => exact habs.2 ▸ h
  | inr hset =>
    obtain ⟨_, w, hw, rfl⟩ := hset
    exact unique_setItem h p.1 (unique_mergedField (fun v hv => unique_lookup h hv) hp hw)

theorem unique_mergeItems {existing incoming merged : List (PyText × Value)}
    (h : (Value.object existing).Unique) (hin : MembersUnique incoming)
    (hmerged : mergeItems existing incoming = .ok merged) : (Value.object merged).Unique := by
  induction incoming generalizing existing with
  | nil =>
    cases hmerged
    exact h
  | cons p incoming ih =>
    rw [mergeItems_cons] at hmerged
    obtain ⟨next, hnext, hrest⟩ := hmerged
    exact ih (unique_mergeKey h hin.1 hnext) hin.2 hrest

/-- What is stored under a key afterwards, from what was there and what came in. -/
def Stores (key : PyText) (current incoming stored : Option Value) : Prop :=
  match incoming with
  | none => stored = current
  | some value => isAbsent value = true ∧ stored = current ∨
      isAbsent value = false ∧ ∃ w, mergedField key current value = .ok w ∧ stored = some w

theorem mergeItems_stores {existing incoming merged : List (PyText × Value)}
    (hin : (keys incoming).Nodup) (hmerged : mergeItems existing incoming = .ok merged)
    (key : PyText) :
    Stores key (existing.lookup key) (incoming.lookup key) (merged.lookup key) := by
  induction incoming generalizing existing with
  | nil =>
    cases hmerged
    rfl
  | cons p incoming ih =>
    rw [mergeItems_cons] at hmerged
    obtain ⟨next, hnext, hrest⟩ := hmerged
    obtain ⟨hp, hin⟩ := List.nodup_cons.mp hin
    have hstored := ih hin hrest
    rw [List.lookup_cons]
    by_cases hk : key = p.1
    · rw [hk, lookup_none_iff.mpr hp] at hstored
      simp only [hk, beq_self_eq_true]
      rw [mergeKey_ok] at hnext
      cases hnext with
      | inl habs => exact .inl ⟨habs.1, habs.2 ▸ hstored⟩
      | inr hset =>
        obtain ⟨hpresent, w, hw, hset⟩ := hset
        rw [hset, lookup_setItem, if_pos rfl] at hstored
        exact .inr ⟨hpresent, w, hw, hstored⟩
    · rw [beq_eq_false_iff_ne.mpr hk]
      rw [mergeKey_ok] at hnext
      cases hnext with
      | inl habs => exact habs.2 ▸ hstored
      | inr hset =>
        obtain ⟨_, w, _, hset⟩ := hset
        rw [hset, lookup_setItem, if_neg hk] at hstored
        exact hstored

/-- An object that holds what merging would store is not changed by it. -/
theorem mergeItems_eq_self {items incoming : List (PyText × Value)} (h : (keys items).Nodup)
    (hstores : ∀ p ∈ incoming, isAbsent p.2 = false →
      ∃ w, mergedField p.1 (items.lookup p.1) p.2 = .ok w ∧ items.lookup p.1 = some w) :
    mergeItems items incoming = .ok items := by
  induction incoming with
  | nil => rfl
  | cons p incoming ih =>
    rw [mergeItems_cons]
    refine ⟨items, ?_, ih fun q hq => hstores q (List.mem_cons_of_mem _ hq)⟩
    rw [mergeKey_ok]
    cases habs : isAbsent p.2 with
    | true => exact .inl ⟨rfl, rfl⟩
    | false =>
      obtain ⟨w, hw, hlookup⟩ := hstores p (List.mem_cons_self ..) habs
      exact .inr ⟨rfl, w, hw, (setItem_self h hlookup).symm⟩

theorem mergeItems_ok_iff {existing incoming : List (PyText × Value)}
    (hin : (Value.object incoming).Unique) :
    (∃ merged, mergeItems existing incoming = .ok merged) ↔
      ∀ p ∈ incoming, isAbsent p.2 = false → Mergeable p.1 (existing.lookup p.1) p.2 := by
  induction incoming generalizing existing with
  | nil => exact ⟨fun _ p hp => (by cases hp), fun _ => ⟨existing, rfl⟩⟩
  | cons p incoming ih =>
    obtain ⟨hp, hnodup⟩ := List.nodup_cons.mp hin.1
    have hrest := fun next => @ih next ⟨hnodup, hin.2.2⟩
    -- a turn for one key leaves what the others are merged with
    have hother : ∀ next, mergeKey existing p = .ok next → ∀ q ∈ incoming,
        next.lookup q.1 = existing.lookup q.1 := by
      intro next hnext q hq
      have hne : q.1 ≠ p.1 := fun he => hp (he ▸ List.mem_map_of_mem hq)
      rw [mergeKey_ok] at hnext
      cases hnext with
      | inl habs => rw [habs.2]
      | inr hset =>
        obtain ⟨_, w, _, hset⟩ := hset
        rw [hset, lookup_setItem, if_neg hne]
    constructor
    · intro ⟨merged, hmerged⟩ q hq hpresent
      rw [mergeItems_cons] at hmerged
      obtain ⟨next, hnext, hnextMerged⟩ := hmerged
      cases List.mem_cons.mp hq with
      | inl hq =>
        rw [hq] at hpresent ⊢
        rw [mergeKey_ok] at hnext
        cases hnext with
        | inl habs => rw [habs.1] at hpresent; cases hpresent
        | inr hset =>
          obtain ⟨_, w, hw, _⟩ := hset
          exact (mergedField_ok_iff hin.2.1).mp ⟨w, hw⟩
      | inr hq =>
        rw [← hother next hnext q hq]
        exact (hrest next).mp ⟨merged, hnextMerged⟩ q hq hpresent
    · intro h
      have hnext : ∃ next, mergeKey existing p = .ok next := by
        simp only [mergeKey_ok]
        cases habs : isAbsent p.2 with
        | true => exact ⟨existing, .inl ⟨rfl, rfl⟩⟩
        | false =>
          obtain ⟨w, hw⟩ := (mergedField_ok_iff hin.2.1).mpr (h p (List.mem_cons_self ..) habs)
          exact ⟨_, .inr ⟨rfl, w, hw, rfl⟩⟩
      obtain ⟨next, hnext⟩ := hnext
      obtain ⟨merged, hmerged⟩ := (hrest next).mpr fun q hq hpresent => by
        rw [hother next hnext q hq]
        exact h q (List.mem_cons_of_mem _ hq) hpresent
      refine ⟨merged, ?_⟩
      rw [mergeItems_cons]
      exact ⟨next, hnext, hmerged⟩

/-! ### Merging identities -/

/-- A JSON object, no key of which is there twice. -/
@[ext] structure Fields where
  items : List (PyText × Value)
  unique : (Value.object items).Unique

def Fields.get (d : Fields) (key : PyText) : Option Value := d.items.lookup key

def Fields.raw (d : Fields) : Value := (d.get (word "raw")).getD .null

def mergeIdentity (existing incoming : Fields) : Except PyException Fields :=
  match h : mergeItems existing.items incoming.items with
  | .ok items => .ok ⟨items, unique_mergeItems existing.unique incoming.unique.2 h⟩
  | .error e => .error e

/-- Objects folded into one in their order. -/
def mergeAll (existing : Fields) (incomings : List Fields) : Except PyException Fields :=
  incomings.foldlM mergeIdentity existing

/-- What `_backfill_tuple` writes to a row that it finds, `none` where it leaves the row alone. -/
def backfillRow (current fields : Fields) : Except PyException (Option Fields) :=
  (mergeIdentity current fields).map fun merged =>
    if eqValue (.object merged.items) (.object current.items) then none else some merged

theorem mergeIdentity_ok {existing incoming merged : Fields} :
    mergeIdentity existing incoming = .ok merged ↔
      mergeItems existing.items incoming.items = .ok merged.items := by
  unfold mergeIdentity
  constructor
  · intro h
    split at h
    · next items hitems =>
        cases h
        exact hitems
    · cases h
  · intro h
    split
    · next items hitems =>
        rw [h] at hitems
        exact congrArg Except.ok (Fields.ext (Except.ok.inj hitems).symm)
    · next e he =>
        rw [h] at he
        cases he

theorem mergeIdentity_stores {existing incoming merged : Fields}
    (h : mergeIdentity existing incoming = .ok merged) (key : PyText) :
    Stores key (existing.get key) (incoming.get key) (merged.get key) := by
  rw [mergeIdentity_ok] at h
  exact mergeItems_stores incoming.unique.1 h key

/-- Merging the same object once more changes nothing. -/
theorem mergeIdentity_again {existing incoming merged : Fields}
    (h : mergeIdentity existing incoming = .ok merged) :
    mergeIdentity merged incoming = .ok merged := by
  rw [mergeIdentity_ok]
  refine mergeItems_eq_self merged.unique.1 fun p hp hpresent => ?_
  have hstores := mergeIdentity_stores h p.1
  have hincoming : incoming.get p.1 = some p.2 := lookup_of_mem incoming.unique.1 hp
  rw [hincoming] at hstores
  cases hstores with
  | inl habs => rw [hpresent] at habs; cases habs.1
  | inr hset =>
    obtain ⟨_, w, hw, hmerged⟩ := hset
    have hunique : p.2.Unique := unique_lookup incoming.unique hincoming
    have hlookup : merged.items.lookup p.1 = some w := hmerged
    refine ⟨w, ?_, hlookup⟩
    rw [hlookup]
    exact mergedField_again hunique hw

/-- A row that the backfill wrote, or left alone, is left alone when it is run again. -/
theorem backfillRow_again {current fields : Fields} {written : Option Fields}
    (h : backfillRow current fields = .ok written) :
    backfillRow (written.getD current) fields = .ok none := by
  cases hmerged : mergeIdentity current fields with
  | error e =>
    rw [backfillRow, hmerged] at h
    cases h
  | ok merged =>
    have hwritten := h
    rw [backfillRow, hmerged, Except.map, Except.ok.injEq] at hwritten
    by_cases heq : eqValue (.object merged.items) (.object current.items) = true
    · rw [if_pos heq] at hwritten
      subst hwritten
      exact h
    · rw [if_neg heq] at hwritten
      subst hwritten
      rw [Option.getD_some, backfillRow, mergeIdentity_again hmerged, Except.map,
        if_pos (eqValue_refl merged.unique)]

/-- Texts can be joined: no new object has a `raw`, or every `raw` is a text where there is one. -/
def Joinable (existing : Fields) (incomings : List Fields) : Prop :=
  (∀ incoming ∈ incomings, isAbsent incoming.raw = true) ∨
    absentOrText existing.raw = true ∧ ∀ incoming ∈ incomings, absentOrText incoming.raw = true

theorem mergeIdentity_ok_iff {existing incoming : Fields} :
    (∃ merged, mergeIdentity existing incoming = .ok merged) ↔ Joinable existing [incoming] := by
  have hitems : (∃ merged, mergeIdentity existing incoming = .ok merged) ↔
      ∃ items, mergeItems existing.items incoming.items = .ok items := by
    simp only [mergeIdentity_ok]
    constructor
    · exact fun ⟨merged, h⟩ => ⟨_, h⟩
    · exact fun ⟨items, h⟩ =>
        ⟨⟨items, unique_mergeItems existing.unique incoming.unique.2 h⟩, h⟩
  rw [hitems, mergeItems_ok_iff incoming.unique]
  unfold Joinable
  rw [List.forall_mem_singleton, List.forall_mem_singleton]
  constructor
  · intro h
    cases hraw : incoming.get (word "raw") with
    | none =>
      left
      rw [Fields.raw, hraw]
      rfl
    | some v =>
      have hincoming : incoming.raw = v := by rw [Fields.raw, hraw]; rfl
      rw [hincoming]
      cases habs : isAbsent v with
      | true => exact .inl rfl
      | false =>
        have hmem : (word "raw", v) ∈ incoming.items := by
          obtain ⟨before, after, hsplit, _⟩ := List.lookup_eq_some_iff.mp hraw
          rw [hsplit]
          exact List.mem_append_right _ (List.mem_cons_self ..)
        exact .inr (h (word "raw", v) hmem habs (List.mem_singleton.mpr rfl))
  · intro h p hp hpresent htext
    have hkey : p.1 = word "raw" := List.mem_singleton.mp htext
    have hincoming : incoming.raw = p.2 := by
      rw [Fields.raw, Fields.get, ← hkey, lookup_of_mem incoming.unique.1 hp]
      rfl
    rw [hincoming, hpresent] at h
    rw [hkey]
    exact h.resolve_left Bool.false_ne_true

/-- Without a new `raw` the old one stays, and with one it becomes a text. -/
theorem raw_mergeIdentity {existing incoming merged : Fields}
    (h : mergeIdentity existing incoming = .ok merged) :
    isAbsent incoming.raw = true ∧ merged.raw = existing.raw ∨
      isAbsent incoming.raw = false ∧ absentOrText merged.raw = true := by
  have hstores := mergeIdentity_stores h (word "raw")
  unfold Fields.raw
  cases hraw : incoming.get (word "raw") with
  | none =>
    rw [hraw] at hstores
    exact .inl ⟨rfl, congrArg (·.getD .null) hstores⟩
  | some v =>
    rw [hraw] at hstores
    cases hstores with
    | inl habs => exact .inl ⟨habs.1, congrArg (·.getD .null) habs.2⟩
    | inr hset =>
      obtain ⟨hpresent, w, hw, hmerged⟩ := hset
      rw [hmerged]
      exact .inr ⟨hpresent, (mergedField_text_ok (List.mem_singleton.mpr rfl)
        (unique_lookup incoming.unique hraw) hw).1⟩

theorem mergeAll_cons {existing incoming merged : Fields} {incomings : List Fields} :
    mergeAll existing (incoming :: incomings) = .ok merged ↔
      ∃ next, mergeIdentity existing incoming = .ok next ∧ mergeAll next incomings = .ok merged := by
  unfold mergeAll
  rw [List.foldlM_cons, bind_eq_ok]

theorem absentOrText_of_absent {v : Value} (h : isAbsent v = true) : absentOrText v = true := by
  rw [absentOrText, h, Bool.true_or]

theorem mergeAll_ok_iff {existing : Fields} {incomings : List Fields} :
    (∃ merged, mergeAll existing incomings = .ok merged) ↔ Joinable existing incomings := by
  induction incomings generalizing existing with
  | nil => exact ⟨fun _ => .inl fun _ hmem => (List.not_mem_nil hmem).elim, fun _ => ⟨existing, rfl⟩⟩
  | cons incoming incomings ih =>
    have hfirst := @mergeIdentity_ok_iff existing incoming
    unfold Joinable at hfirst ih ⊢
    simp only [List.forall_mem_singleton, List.forall_mem_cons] at hfirst ⊢
    constructor
    · intro ⟨merged, hmerged⟩
      rw [mergeAll_cons] at hmerged
      obtain ⟨next, hnext, hrest⟩ := hmerged
      have hjoin := hfirst.mp ⟨next, hnext⟩
      have hlater := ih.mp ⟨merged, hrest⟩
      cases raw_mergeIdentity hnext with
      | inl hsame =>
        rw [hsame.2] at hlater
        cases hlater with
        | inl hlater => exact .inl ⟨hsame.1, hlater⟩
        | inr hlater => exact .inr ⟨hlater.1, absentOrText_of_absent hsame.1, hlater.2⟩
      | inr hnew =>
        rw [hnew.1] at hjoin
        have hboth := hjoin.resolve_left Bool.false_ne_true
        refine .inr ⟨hboth.1, hboth.2, fun i hi => ?_⟩
        cases hlater with
        | inl hlater => exact absentOrText_of_absent (hlater i hi)
        | inr hlater => exact hlater.2 i hi
    · intro h
      obtain ⟨next, hnext⟩ := hfirst.mpr (h.imp (·.1) fun h => ⟨h.1, h.2.1⟩)
      have hlater : (∀ i ∈ incomings, isAbsent i.raw = true) ∨
          absentOrText next.raw = true ∧ ∀ i ∈ incomings, absentOrText i.raw = true := by
        cases h with
        | inl h => exact .inl h.2
        | inr h =>
          cases raw_mergeIdentity hnext with
          | inl hsame => exact .inr ⟨hsame.2 ▸ h.1, h.2.2⟩
          | inr hnew => exact .inr ⟨hnew.2, h.2.2⟩
      obtain ⟨merged, hmerged⟩ := ih.mpr hlater
      refine ⟨merged, ?_⟩
      rw [mergeAll_cons]
      exact ⟨next, hnext, hmerged⟩

/-- The object that was folded in last is merged. -/
theorem mergeAll_last {existing merged last : Fields} {incomings : List Fields}
    (h : mergeAll existing incomings = .ok merged) (hlast : incomings.getLast? = some last) :
    mergeIdentity merged last = .ok merged := by
  induction incomings generalizing existing with
  | nil => cases hlast
  | cons incoming incomings ih =>
    rw [mergeAll_cons] at h
    obtain ⟨next, hnext, hrest⟩ := h
    cases incomings with
    | nil =>
      cases hlast
      cases hrest
      exact mergeIdentity_again hnext
    | cons i incomings => exact ih hrest (by rwa [List.getLast?_cons_cons] at hlast)

/-! ### What merging keeps -/

def elementsOf (v : Option Value) : List Value := v.elim [] listOf

def clausesOf (v : Option Value) : List Value := splitClauses (v.getD .null)

/-- The new value, unless it is absent. -/
def newer (current incoming : Option Value) : Option Value :=
  match incoming with
  | some v => if isAbsent v then current else some v
  | none => current

structure Keeps (existing incoming merged : Fields) : Prop where
  again : mergeIdentity merged incoming = .ok merged
  keys : ∀ key, (existing.get key).isSome = true → (merged.get key).isSome = true
  scalar : ∀ key, key ∉ identityListKeys → key ∉ identityTextUnionKeys →
    merged.get key = newer (existing.get key) (incoming.get key)
  prefs : ∀ key ∈ identityListKeys, Accumulates (elementsOf (existing.get key))
    (elementsOf (incoming.get key)) (elementsOf (merged.get key))
  raw : ∀ key ∈ identityTextUnionKeys, ∀ clause,
    clause ∈ clausesOf (existing.get key) ∨ clause ∈ clausesOf (incoming.get key) →
      clause ∈ clausesOf (merged.get key)

/-- Nothing is added where every item is absent. -/
theorem accumulates_absent {base items : List Value} (h : ∀ item ∈ items, isAbsent item = true) :
    Accumulates base items base := by
  refine ⟨fun item hitem hpresent => ?_, [], (List.append_nil base).symm, List.nil_sublist _, ?_⟩
  · rw [h item hitem] at hpresent
    cases hpresent
  · exact fun before item after hnew => absurd hnew (by simp)

theorem listOf_absent {v : Value} (h : isAbsent v = true) : listOf v = [v] := by
  cases v with
  | array items => cases h
  | _ => rfl

theorem Stores.newer {key : PyText} {current incoming stored : Option Value}
    (hlist : key ∉ identityListKeys) (htext : key ∉ identityTextUnionKeys)
    (h : Stores key current incoming stored) : stored = newer current incoming := by
  cases incoming with
  | none => exact h
  | some v =>
    cases h with
    | inl habs => exact habs.2.trans (if_pos habs.1).symm
    | inr hset =>
      obtain ⟨hpresent, w, hw, hstored⟩ := hset
      rw [mergedField_scalar hlist htext] at hw
      cases hw
      exact hstored.trans (if_neg (by rw [hpresent]; exact Bool.false_ne_true)).symm

theorem Stores.isSome {key : PyText} {current incoming stored : Option Value}
    (h : Stores key current incoming stored) (hsome : current.isSome = true) :
    stored.isSome = true := by
  cases incoming with
  | none => exact h ▸ hsome
  | some v =>
    cases h with
    | inl habs => exact habs.2 ▸ hsome
    | inr hset =>
      obtain ⟨_, w, _, hstored⟩ := hset
      exact hstored ▸ rfl

theorem Stores.accumulates {key : PyText} {current incoming stored : Option Value}
    (hkey : key ∈ identityListKeys) (hunique : ∀ v, incoming = some v → v.Unique)
    (h : Stores key current incoming stored) :
    Accumulates (elementsOf current) (elementsOf incoming) (elementsOf stored) := by
  cases incoming with
  | none =>
    have hsame : stored = current := h
    rw [hsame]
    exact accumulates_absent fun _ hitem => (List.not_mem_nil hitem).elim
  | some v =>
    cases h with
    | inl habs =>
      rw [habs.2]
      refine accumulates_absent fun item hitem => ?_
      rw [elementsOf, Option.elim_some, listOf_absent habs.1, List.mem_singleton] at hitem
      exact hitem ▸ habs.1
    | inr hset =>
      obtain ⟨_, w, hw, hstored⟩ := hset
      rw [mergedField_list hkey] at hw
      cases hw
      have hunion := unionPreserving_accumulates (unique_listOf (hunique v rfl))
        (elementsOf current)
      rw [hstored]
      cases current <;> exact hunion

theorem Stores.clauses {key : PyText} {current incoming stored : Option Value}
    (hkey : key ∈ identityTextUnionKeys) (hunique : ∀ v, incoming = some v → v.Unique)
    (h : Stores key current incoming stored) {clause : Value}
    (hclause : clause ∈ clausesOf current ∨ clause ∈ clausesOf incoming) :
    clause ∈ clausesOf stored := by
  cases incoming with
  | none =>
    have hsame : stored = current := h
    rw [hsame]
    exact hclause.resolve_right fun hnone => by cases hnone
  | some v =>
    cases h with
    | inl habs =>
      rw [habs.2]
      refine hclause.resolve_right fun hmem => ?_
      have hnone : splitClauses v = [] := if_pos habs.1
      rw [clausesOf, Option.getD_some, hnone] at hmem
      cases hmem
    | inr hset =>
      obtain ⟨_, w, hw, hstored⟩ := hset
      have hv := hunique v rfl
      have hunion := unionPreserving_accumulates (unique_of_mem_splitClauses hv)
        (clausesOf current)
      rw [hstored, clausesOf, Option.getD_some, (mergedField_text_ok hkey hv hw).2]
      cases hclause with
      | inl hcurrent =>
        obtain ⟨new, hout, _⟩ := hunion.added
        rw [← clausesOf, hout]
        exact List.mem_append_left _ hcurrent
      | inr hincoming =>
        -- a clause is a text, which is equal to itself only
        have hjoin := ((mergedField_ok_iff hv).mp ⟨w, hw⟩ hkey).2
        have htext : ∃ c, clause = .str c ∧ IsClause c := by
          cases splitClauses_cases v with
          | inl htext => exact htext.2 clause hincoming
          | inr hother => rw [hother.1] at hjoin; cases hjoin
        obtain ⟨c, rfl, hc⟩ := htext
        have hheld := hunion.held _ hincoming (decide_eq_false hc.ne_nil)
        obtain ⟨u, hu, heq⟩ := List.any_eq_true.mp hheld
        exact eqValue_str.mp heq ▸ hu

theorem keeps_of_ok {existing incoming merged : Fields}
    (h : mergeIdentity existing incoming = .ok merged) : Keeps existing incoming merged where
  again := mergeIdentity_again h
  keys := fun key hsome => (mergeIdentity_stores h key).isSome hsome
  scalar := fun key hlist htext => (mergeIdentity_stores h key).newer hlist htext
  prefs := fun key hkey => (mergeIdentity_stores h key).accumulates hkey fun _ hv =>
    unique_lookup incoming.unique hv
  raw := fun key hkey _ hclause => (mergeIdentity_stores h key).clauses hkey
    (fun _ hv => unique_lookup incoming.unique hv) hclause

/-- Merging returns and keeps what there was, and folding in the last object once more changes
nothing, exactly where the texts can be joined. -/
theorem mergeIdentity_keeps_iff (existing incoming : Fields) (incomings : List Fields) :
    ((∃ merged, mergeIdentity existing incoming = .ok merged ∧ Keeps existing incoming merged) ↔
        Joinable existing [incoming]) ∧
      ((∃ merged, mergeAll existing incomings = .ok merged ∧
          ∀ last, incomings.getLast? = some last → mergeIdentity merged last = .ok merged) ↔
        Joinable existing incomings) := by
  constructor
  · rw [← mergeIdentity_ok_iff]
    exact ⟨fun ⟨merged, h, _⟩ => ⟨merged, h⟩, fun ⟨merged, h⟩ => ⟨merged, h, keeps_of_ok h⟩⟩
  · rw [← mergeAll_ok_iff]
    exact ⟨fun ⟨merged, h, _⟩ => ⟨merged, h⟩,
      fun ⟨merged, h⟩ => ⟨merged, h, fun _ hlast => mergeAll_last h hlast⟩⟩

def rawField (v : Value) (h : v.Unique) : Fields where
  items := [(word "raw", v)]
  unique := ⟨List.nodup_singleton _, h, trivial⟩

theorem backfillRow_again_raw : ∃ written,
    backfillRow (rawField (.str (word "tea")) trivial) (rawField (.str (word "milk")) trivial) =
        .ok written ∧
      backfillRow (written.getD (rawField (.str (word "tea")) trivial))
        (rawField (.str (word "milk")) trivial) = .ok none :=
  ⟨_, rfl, backfillRow_again rfl⟩

/-- A stored `raw` that is a number, and a note that tells where the person lives. -/
theorem mergeIdentity_raises :
    ¬∃ merged, mergeIdentity (rawField (.int 5) trivial)
      (rawField (.str (word "Lives in Berlin")) trivial) = .ok merged := by
  rw [mergeIdentity_ok_iff]
  unfold Joinable
  decide

end Persatrix.Identity
