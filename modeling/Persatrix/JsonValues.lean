import Persatrix.JsonStrings
import Persatrix.SortedEntries

/-!
# Values and documents

What a value is marshaled to, and what a document is decoded to. Decoding loses the order and
the duplicates of members, the form of numbers and of escapes, and the types of structs; what
it gives is marshaled and decoded without a change.
-/
namespace Persatrix.Json

/-- A value that can be marshaled. A map has the entries listed, the later ones in the place of
earlier ones; `raw` is any value that marshals itself, to the given document. -/
inductive Any where
  | null
  | bool (b : Bool)
  | int (n : ℤ)
  | float (x : Float64)
  | string (s : GoString)
  | slice (elems : List Any)
  | map (entries : List (GoString × Any))
  | struct (fields : List (GoString × Any))
  | raw (d : Doc)

def intText (n : ℤ) : GoString := (if n < 0 then [minus] else []) ++ decimal n.natAbs

theorem readNumber_intText (n : ℤ) : (readNumber (intText n)).isSome := by
  have hhead : (decimal n.natAbs).length = 1 ∨ (decimal n.natAbs).head? ≠ some (digit 0) := by
    by_cases hzero : n.natAbs = 0
    · rw [hzero]
      exact .inl rfl
    · obtain ⟨b, s, hs, hb⟩ := decimal_head hzero
      rw [hs]
      refine .inr ?_
      intro h
      cases h
      exact hb rfl
  have hread := readNumber_numberText (i := decimal n.natAbs) (f := []) (decide (n < 0)) none
    (fun b => isDigit_of_mem_decimal) (decimal_ne_nil _) hhead (by simp)
  have htext : numberText (decide (n < 0)) (decimal n.natAbs) [] none = intText n := by
    simp [numberText, intText, fractionText, exponentText]
  rw [htext] at hread
  rw [hread]
  rfl

theorem readNumber_format_isSome (x : Float64) : (readNumber x.format).isSome := by
  rw [Float64.readNumber_format]
  rfl

def intLit (n : ℤ) : NumberLit := ⟨intText n, readNumber_intText n⟩

def floatLit (x : Float64) : NumberLit := ⟨x.format, readNumber_format_isSome x⟩

/-- Entries as the members of an object. -/
def asMembers (es : List (GoString × Doc)) : List (StringLit × Doc) :=
  es.map fun e => (encodeString e.1, e.2)

mutual
def marshal : Any → Doc
  | .null => .null
  | .bool b => .bool b
  | .int n => .number (intLit n)
  | .float x => .number (floatLit x)
  | .string s => .string (encodeString s)
  | .slice elems => .array (marshalElems elems)
  | .map entries => .object (asMembers (sortEntries (marshalEntries entries)))
  | .struct fields => .object (asMembers (marshalEntries fields))
  | .raw d => d

def marshalElems : List Any → List Doc
  | [] => []
  | v :: vs => marshal v :: marshalElems vs

def marshalEntries : List (GoString × Any) → List (GoString × Doc)
  | [] => []
  | (key, v) :: es => (key, marshal v) :: marshalEntries es
end

mutual
/-- The value a document is decoded to; a number that is too large has none. -/
def decode : Doc → Option Any
  | .null => some .null
  | .bool b => some (.bool b)
  | .number n => (Float64.parse n.1).map .float
  | .string s => some (.string (unquote s.1))
  | .array elems => (decodeElems elems).map .slice
  | .object members => (decodeMembers members).map fun es => .map (sortEntries es)

def decodeElems : List Doc → Option (List Any)
  | [] => some []
  | d :: ds => (decode d).bind fun v => (decodeElems ds).map fun vs => v :: vs

def decodeMembers : List (StringLit × Doc) → Option (List (GoString × Any))
  | [] => some []
  | (key, d) :: ms =>
    (decode d).bind fun v => (decodeMembers ms).map fun es => (unquote key.1, v) :: es
end

mutual
/-- A value of the kinds that decoding gives. -/
def Any.Plain : Any → Prop
  | .null | .bool _ | .float _ => True
  | .int _ | .struct _ | .raw _ => False
  | .string s => validString s = true
  | .slice elems => PlainElems elems
  | .map entries => PlainEntries entries ∧ Ascending entries

def PlainElems : List Any → Prop
  | [] => True
  | v :: vs => v.Plain ∧ PlainElems vs

def PlainEntries : List (GoString × Any) → Prop
  | [] => True
  | (key, v) :: es => (validString key = true ∧ v.Plain) ∧ PlainEntries es
end

mutual
/-- A document in the form in which what it is decoded to is marshaled. -/
def Doc.Canonical : Doc → Prop
  | .null | .bool _ => True
  | .number n => ∃ x, Float64.parse n.1 = some x ∧ x.format = n.1
  | .string s => encodeString (unquote s.1) = s
  | .array elems => CanonicalElems elems
  | .object members =>
    CanonicalMembers members ∧ members.Pairwise fun m n => unquote m.1.1 < unquote n.1.1

def CanonicalElems : List Doc → Prop
  | [] => True
  | d :: ds => d.Canonical ∧ CanonicalElems ds

def CanonicalMembers : List (StringLit × Doc) → Prop
  | [] => True
  | (key, d) :: ms =>
    (encodeString (unquote key.1) = key ∧ d.Canonical) ∧ CanonicalMembers ms
end

theorem marshalEntries_eq_map (es : List (GoString × Any)) :
    marshalEntries es = es.map fun e => (e.1, marshal e.2) := by
  induction es with
  | nil => rfl
  | cons e es ih =>
    rw [marshalEntries, ih]
    rfl

theorem ascending_marshalEntries {es : List (GoString × Any)} (h : Ascending es) :
    Ascending (marshalEntries es) := by
  rw [marshalEntries_eq_map]
  exact List.pairwise_map.mpr h

theorem unquote_encode_of_valid {s : GoString} (h : validString s = true) :
    unquote (encodeString s).1 = s := by
  rw [unquote_encodeString, sanitize_of_valid h]

mutual
/-- A plain value is decoded from what it is marshaled to. -/
theorem decode_marshal : ∀ v : Any, v.Plain → decode (marshal v) = some v
  | .null, _ => rfl
  | .bool _, _ => rfl
  | .int _, h => h.elim
  | .float x, _ => by
    have hparse : Float64.parse (floatLit x).1 = some x := Float64.parse_format x
    rw [marshal, decode, hparse]
    rfl
  | .string s, h => by rw [marshal, decode, unquote_encode_of_valid h]
  | .slice elems, h => by
    rw [marshal, decode, decodeElems_marshal elems h]
    rfl
  | .map entries, h => by
    obtain ⟨hplain, hascending⟩ := h
    rw [marshal, decode, sortEntries_of_ascending (ascending_marshalEntries hascending),
      decodeMembers_marshal entries hplain, Option.map_some,
      sortEntries_of_ascending hascending]
  | .struct _, h => h.elim
  | .raw _, h => h.elim

theorem decodeElems_marshal : ∀ vs : List Any, PlainElems vs →
    decodeElems (marshalElems vs) = some vs
  | [], _ => rfl
  | v :: vs, h => by
    rw [marshalElems, decodeElems, decode_marshal v h.1, decodeElems_marshal vs h.2]
    rfl

theorem decodeMembers_marshal : ∀ es : List (GoString × Any), PlainEntries es →
    decodeMembers (asMembers (marshalEntries es)) = some es
  | [], _ => rfl
  | (key, v) :: es, h => by
    rw [marshalEntries, asMembers, List.map_cons, ← asMembers, decodeMembers,
      decode_marshal v h.1.2, decodeMembers_marshal es h.2, Option.bind_some, Option.map_some,
      unquote_encode_of_valid h.1.1]
end

theorem marshal_injective {v w : Any} (hv : v.Plain) (hw : w.Plain)
    (h : marshal v = marshal w) : v = w := by
  have hread := decode_marshal v hv
  rw [h, decode_marshal w hw] at hread
  exact (Option.some.inj hread).symm

theorem plainEntries_iff (es : List (GoString × Any)) :
    PlainEntries es ↔ ∀ e ∈ es, validString e.1 = true ∧ e.2.Plain := by
  induction es with
  | nil => simp [PlainEntries]
  | cons e es ih => rw [PlainEntries, ih, List.forall_mem_cons]

theorem plain_sortEntries {es : List (GoString × Any)} (h : PlainEntries es) :
    PlainEntries (sortEntries es) := by
  rw [plainEntries_iff] at h ⊢
  intro e he
  exact h e (mem_sortEntries he)

mutual
theorem decode_plain : ∀ (d : Doc) {v : Any}, decode d = some v → v.Plain
  | .null, _, h => by
    cases h
    trivial
  | .bool _, _, h => by
    cases h
    trivial
  | .number n, _, h => by
    obtain ⟨x, -, rfl⟩ := Option.map_eq_some_iff.mp h
    trivial
  | .string s, _, h => by
    cases h
    exact validString_unquote s.1
  | .array elems, _, h => by
    obtain ⟨vs, hvs, rfl⟩ := Option.map_eq_some_iff.mp h
    exact decodeElems_plain elems hvs
  | .object members, _, h => by
    obtain ⟨es, hes, rfl⟩ := Option.map_eq_some_iff.mp h
    exact ⟨plain_sortEntries (decodeMembers_plain members hes), ascending_sortEntries es⟩

theorem decodeElems_plain : ∀ (ds : List Doc) {vs : List Any}, decodeElems ds = some vs →
    PlainElems vs
  | [], _, h => by
    cases h
    trivial
  | d :: ds, _, h => by
    obtain ⟨v, hv, h⟩ := Option.bind_eq_some_iff.mp h
    obtain ⟨vs, hvs, rfl⟩ := Option.map_eq_some_iff.mp h
    exact ⟨decode_plain d hv, decodeElems_plain ds hvs⟩

theorem decodeMembers_plain : ∀ (ms : List (StringLit × Doc)) {es : List (GoString × Any)},
    decodeMembers ms = some es → PlainEntries es
  | [], _, h => by
    cases h
    trivial
  | (key, d) :: ms, _, h => by
    obtain ⟨v, hv, h⟩ := Option.bind_eq_some_iff.mp h
    obtain ⟨es, hes, rfl⟩ := Option.map_eq_some_iff.mp h
    exact ⟨⟨validString_unquote key.1, decode_plain d hv⟩, decodeMembers_plain ms hes⟩
end

/-! ### Documents that come back as they are -/

theorem decodeMembers_keys {ms : List (StringLit × Doc)} {es : List (GoString × Any)}
    (h : decodeMembers ms = some es) : es.map Prod.fst = ms.map fun m => unquote m.1.1 := by
  induction ms generalizing es with
  | nil =>
    cases h
    rfl
  | cons m ms ih =>
    obtain ⟨v, -, h⟩ := Option.bind_eq_some_iff.mp h
    obtain ⟨es', hes, rfl⟩ := Option.map_eq_some_iff.mp h
    rw [List.map_cons, List.map_cons, ih hes]

theorem ascending_iff_keys {ν : Type} (es : List (GoString × ν)) :
    Ascending es ↔ (es.map Prod.fst).Pairwise (· < ·) := List.pairwise_map.symm

theorem ascending_decodeMembers {ms : List (StringLit × Doc)} {es : List (GoString × Any)}
    (h : decodeMembers ms = some es) :
    Ascending es ↔ ms.Pairwise fun m n => unquote m.1.1 < unquote n.1.1 := by
  rw [ascending_iff_keys, decodeMembers_keys h, List.pairwise_map]

/-- The keys of members that are written again are those they are read as. -/
theorem asMembers_keys {es : List (GoString × Doc)} (h : ∀ e ∈ es, validString e.1 = true) :
    (asMembers es).Pairwise (fun m n => unquote m.1.1 < unquote n.1.1) ↔ Ascending es := by
  unfold asMembers Ascending
  rw [List.pairwise_map]
  constructor
  · intro hpairwise
    apply hpairwise.imp_of_mem
    intro e f he hf hlt
    dsimp only at hlt
    rwa [unquote_encode_of_valid (h e he), unquote_encode_of_valid (h f hf)] at hlt
  · intro hascending
    apply hascending.imp_of_mem
    intro e f he hf hlt
    dsimp only
    rwa [unquote_encode_of_valid (h e he), unquote_encode_of_valid (h f hf)]

mutual
/-- A document is marshaled again as it is exactly when it is canonical. -/
theorem reencode_iff : ∀ d : Doc, (∃ v, decode d = some v ∧ marshal v = d) ↔ d.Canonical
  | .null => iff_of_true ⟨.null, rfl, rfl⟩ trivial
  | .bool b => iff_of_true ⟨.bool b, rfl, rfl⟩ trivial
  | .number n => by
    rw [Doc.Canonical]
    constructor
    · rintro ⟨v, hv, hmarshal⟩
      obtain ⟨x, hx, rfl⟩ := Option.map_eq_some_iff.mp hv
      refine ⟨x, hx, ?_⟩
      cases hmarshal
      rfl
    · rintro ⟨x, hx, hformat⟩
      refine ⟨.float x, by rw [decode, hx]; rfl, ?_⟩
      rw [marshal]
      congr 1
      exact Subtype.ext hformat
  | .string s => by
    rw [Doc.Canonical]
    constructor
    · rintro ⟨v, hv, hmarshal⟩
      cases hv
      rw [marshal] at hmarshal
      exact Doc.string.inj hmarshal
    · intro h
      exact ⟨_, rfl, by rw [marshal, h]⟩
  | .array elems => by
    rw [Doc.Canonical, ← reencodeElems_iff elems]
    constructor
    · rintro ⟨v, hv, hmarshal⟩
      obtain ⟨vs, hvs, rfl⟩ := Option.map_eq_some_iff.mp hv
      rw [marshal] at hmarshal
      exact ⟨vs, hvs, Doc.array.inj hmarshal⟩
    · rintro ⟨vs, hvs, hmarshal⟩
      exact ⟨.slice vs, by rw [decode, hvs]; rfl, by rw [marshal, hmarshal]⟩
  | .object members => by
    rw [Doc.Canonical, ← reencodeMembers_iff members]
    constructor
    · rintro ⟨v, hv, hmarshal⟩
      obtain ⟨es, hes, rfl⟩ := Option.map_eq_some_iff.mp hv
      have hsorted := ascending_marshalEntries (ascending_sortEntries es)
      rw [marshal, sortEntries_of_ascending hsorted] at hmarshal
      have hmembers := Doc.object.inj hmarshal
      have hplain := plain_sortEntries (decodeMembers_plain members hes)
      have hvalid : ∀ e ∈ marshalEntries (sortEntries es), validString e.1 = true := by
        intro e he
        rw [marshalEntries_eq_map] at he
        obtain ⟨f, hf, rfl⟩ := List.mem_map.mp he
        exact ((plainEntries_iff _).mp hplain f hf).1
      have hpairwise : members.Pairwise fun m n => unquote m.1.1 < unquote n.1.1 := by
        rw [← hmembers]
        exact (asMembers_keys hvalid).mpr hsorted
      have hascending := (ascending_decodeMembers hes).mpr hpairwise
      rw [sortEntries_of_ascending hascending] at hmembers
      exact ⟨⟨es, hes, hmembers⟩, hpairwise⟩
    · rintro ⟨⟨es, hes, hmembers⟩, hpairwise⟩
      have hascending := (ascending_decodeMembers hes).mpr hpairwise
      refine ⟨.map es, ?_, ?_⟩
      · rw [decode, hes, Option.map_some, sortEntries_of_ascending hascending]
      · rw [marshal, sortEntries_of_ascending (ascending_marshalEntries hascending), hmembers]

theorem reencodeElems_iff : ∀ ds : List Doc,
    (∃ vs, decodeElems ds = some vs ∧ marshalElems vs = ds) ↔ CanonicalElems ds
  | [] => iff_of_true ⟨[], rfl, rfl⟩ trivial
  | d :: ds => by
    rw [CanonicalElems, ← reencode_iff d, ← reencodeElems_iff ds]
    constructor
    · rintro ⟨all, hall, hmarshal⟩
      obtain ⟨v, hv, hrest⟩ := Option.bind_eq_some_iff.mp hall
      obtain ⟨vs, hvs, rfl⟩ := Option.map_eq_some_iff.mp hrest
      rw [marshalElems, List.cons.injEq] at hmarshal
      exact ⟨⟨v, hv, hmarshal.1⟩, vs, hvs, hmarshal.2⟩
    · rintro ⟨⟨v, hv, hd⟩, vs, hvs, hds⟩
      refine ⟨v :: vs, ?_, by rw [marshalElems, hd, hds]⟩
      rw [decodeElems, hv, hvs]
      rfl

theorem reencodeMembers_iff : ∀ ms : List (StringLit × Doc),
    (∃ es, decodeMembers ms = some es ∧ asMembers (marshalEntries es) = ms) ↔ CanonicalMembers ms
  | [] => iff_of_true ⟨[], rfl, rfl⟩ trivial
  | (key, d) :: ms => by
    rw [CanonicalMembers, ← reencode_iff d, ← reencodeMembers_iff ms]
    constructor
    · rintro ⟨all, hall, hmarshal⟩
      obtain ⟨v, hv, hrest⟩ := Option.bind_eq_some_iff.mp hall
      obtain ⟨es, hes, rfl⟩ := Option.map_eq_some_iff.mp hrest
      rw [marshalEntries, asMembers, List.map_cons, ← asMembers, List.cons.injEq,
        Prod.mk.injEq] at hmarshal
      exact ⟨⟨hmarshal.1.1, v, hv, hmarshal.1.2⟩, es, hes, hmarshal.2⟩
    · rintro ⟨⟨hkey, v, hv, hd⟩, es, hes, hms⟩
      refine ⟨(unquote key.1, v) :: es, ?_, ?_⟩
      · rw [decodeMembers, hv, hes]
        rfl
      · rw [marshalEntries, asMembers, List.map_cons, ← asMembers, hms]
        dsimp only
        rw [hkey, hd]
end

mutual
/-- A value whose document is canonical. An integer is printed as the nearest double is, the
strings are encodings of texts, and the fields of a struct are in ascending order. -/
def Any.Exact : Any → Prop
  | .null | .bool _ | .float _ => True
  | .int n => ∃ x, Float64.parse (intText n) = some x ∧ x.format = intText n
  | .string s => validString s = true
  | .slice elems => ExactElems elems
  | .map entries => ExactEntries entries
  | .struct fields => ExactFields fields ∧ Ascending fields
  | .raw d => d.Canonical

def ExactElems : List Any → Prop
  | [] => True
  | v :: vs => v.Exact ∧ ExactElems vs

/-- The entries that no later one replaces are exact. -/
def ExactEntries : List (GoString × Any) → Prop
  | [] => True
  | (key, v) :: es =>
    (key ∉ es.map Prod.fst → validString key = true ∧ v.Exact) ∧ ExactEntries es

def ExactFields : List (GoString × Any) → Prop
  | [] => True
  | (key, v) :: es => (validString key = true ∧ v.Exact) ∧ ExactFields es
end

theorem canonicalMembers_asMembers (es : List (GoString × Doc)) :
    CanonicalMembers (asMembers es) ↔ ∀ e ∈ es, validString e.1 = true ∧ e.2.Canonical := by
  induction es with
  | nil => simp [asMembers, CanonicalMembers]
  | cons e es ih =>
    rw [asMembers, List.map_cons, ← asMembers, CanonicalMembers, ih, List.forall_mem_cons,
      unquote_encodeString, encodeString_sanitize_iff]

theorem canonical_object_asMembers (es : List (GoString × Doc)) :
    (Doc.object (asMembers es)).Canonical ↔
      (∀ e ∈ es, validString e.1 = true ∧ e.2.Canonical) ∧ Ascending es := by
  rw [Doc.Canonical, canonicalMembers_asMembers]
  constructor
  · rintro ⟨hall, hpairwise⟩
    exact ⟨hall, (asMembers_keys fun e he => (hall e he).1).mp hpairwise⟩
  · rintro ⟨hall, hascending⟩
    exact ⟨hall, (asMembers_keys fun e he => (hall e he).1).mpr hascending⟩

theorem marshalEntries_keys (es : List (GoString × Any)) :
    (marshalEntries es).map Prod.fst = es.map Prod.fst := by
  rw [marshalEntries_eq_map, List.map_map]
  rfl

mutual
theorem canonical_marshal_iff : ∀ v : Any, (marshal v).Canonical ↔ v.Exact
  | .null => Iff.rfl
  | .bool _ => Iff.rfl
  | .int _ => Iff.rfl
  | .float x => iff_of_true ⟨x, Float64.parse_format x, rfl⟩ trivial
  | .string s => by
    rw [marshal, Doc.Canonical, unquote_encodeString, encodeString_sanitize_iff, Any.Exact]
  | .slice elems => by
    rw [marshal, Doc.Canonical, Any.Exact]
    exact canonicalElems_marshal_iff elems
  | .map entries => by
    rw [marshal, canonical_object_asMembers, Any.Exact, canonicalEntries_iff entries]
    exact and_iff_left (ascending_sortEntries _)
  | .struct fields => by
    rw [marshal, canonical_object_asMembers, Any.Exact, canonicalFields_iff fields,
      ascending_iff_keys, ascending_iff_keys, marshalEntries_keys]
  | .raw _ => Iff.rfl

theorem canonicalElems_marshal_iff : ∀ vs : List Any,
    CanonicalElems (marshalElems vs) ↔ ExactElems vs
  | [] => Iff.rfl
  | v :: vs => by
    rw [marshalElems, CanonicalElems, ExactElems, canonical_marshal_iff v,
      canonicalElems_marshal_iff vs]

theorem canonicalEntries_iff : ∀ es : List (GoString × Any),
    (∀ e ∈ sortEntries (marshalEntries es), validString e.1 = true ∧ e.2.Canonical) ↔
      ExactEntries es
  | [] => by simp [marshalEntries, sortEntries, ExactEntries]
  | (key, v) :: es => by
    rw [marshalEntries, forall_mem_sortEntries_cons, ExactEntries, canonicalEntries_iff es,
      marshalEntries_keys, canonical_marshal_iff v]

theorem canonicalFields_iff : ∀ es : List (GoString × Any),
    (∀ e ∈ marshalEntries es, validString e.1 = true ∧ e.2.Canonical) ↔ ExactFields es
  | [] => by simp [marshalEntries, ExactFields]
  | (key, v) :: es => by
    rw [marshalEntries, List.forall_mem_cons, ExactFields, canonicalFields_iff es,
      canonical_marshal_iff v]
end

end Persatrix.Json
