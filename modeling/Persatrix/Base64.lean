import Persatrix.Bytes

/-!
# Base64 for URLs, without padding

Three bytes are four characters of six bits; a last group of one or two bytes is two or
three characters. The strict decoder skips line breaks and refuses spare bits that are
set, so that the characters it reads are the encoding of the bytes it returns.
-/
namespace Persatrix.Base64

/-- The character of six bits. -/
def encodeChar (n : ℕ) : UInt8 :=
  if n < 26 then UInt8.ofNat (n + 65)
  else if n < 52 then UInt8.ofNat (n + 71)
  else if n < 62 then UInt8.ofNat (n - 4)
  else if n = 62 then 45
  else 95

def decodeChar (c : UInt8) : Option ℕ :=
  let n := c.toNat
  if 65 ≤ n ∧ n ≤ 90 then some (n - 65)
  else if 97 ≤ n ∧ n ≤ 122 then some (n - 71)
  else if 48 ≤ n ∧ n ≤ 57 then some (n + 4)
  else if n = 45 then some 62
  else if n = 95 then some 63
  else none

theorem decodeChar_encodeChar {n : ℕ} (h : n < 64) : decodeChar (encodeChar n) = some n := by
  have hall : ∀ m : Fin 64, decodeChar (encodeChar m) = some m.val := by decide
  exact hall ⟨n, h⟩

theorem encodeChar_decodeChar {c : UInt8} {n : ℕ} (h : decodeChar c = some n) :
    n < 64 ∧ encodeChar n = c := by
  have hall : ∀ m : Fin 256, ∀ n ∈ decodeChar (UInt8.ofNat m),
      n < 64 ∧ encodeChar n = UInt8.ofNat m := by
    decide +kernel
  have hc := hall ⟨c.toNat, c.toNat_lt⟩ n
  simp only [UInt8.ofNat_toNat] at hc
  exact hc h

/-- The six-bit groups of bytes. -/
def sextets : List UInt8 → List ℕ
  | a :: b :: c :: rest =>
    let n := a.toNat * 65536 + b.toNat * 256 + c.toNat
    n / 262144 :: n / 4096 % 64 :: n / 64 % 64 :: n % 64 :: sextets rest
  | [a, b] =>
    let n := a.toNat * 65536 + b.toNat * 256
    [n / 262144, n / 4096 % 64, n / 64 % 64]
  | [a] =>
    let n := a.toNat * 65536
    [n / 262144, n / 4096 % 64]
  | [] => []

/-- The bytes of six-bit groups; spare bits must be zero. -/
def ofSextets : List ℕ → Option (List UInt8)
  | w :: x :: y :: z :: rest =>
    let n := w * 262144 + x * 4096 + y * 64 + z
    (ofSextets rest).map fun bytes =>
      UInt8.ofNat (n / 65536) :: UInt8.ofNat (n / 256) :: UInt8.ofNat n :: bytes
  | [w, x, y] =>
    if y % 4 = 0 then
      some [UInt8.ofNat (w * 4 + x / 16), UInt8.ofNat (x * 16 + y / 4)]
    else none
  | [w, x] => if x % 16 = 0 then some [UInt8.ofNat (w * 4 + x / 16)] else none
  | [_] => none
  | [] => some []

def encode (bytes : GoString) : GoString := (sextets bytes).map encodeChar

def isLineBreak (c : UInt8) : Bool := c = 10 || c = 13

def decode (s : GoString) : Option GoString :=
  ((s.filter fun c => !isLineBreak c).mapM decodeChar).bind ofSextets

def encodedLen (n : ℕ) : ℕ := n / 3 * 4 + (n % 3 * 8 + 5) / 6

theorem sextets_length (bytes : GoString) : (sextets bytes).length = encodedLen bytes.length := by
  induction bytes using sextets.induct with
  | case1 a b c rest ih =>
    simp only [sextets, List.length_cons, ih]
    unfold encodedLen
    omega
  | case2 => simp [sextets, encodedLen]
  | case3 => simp [sextets, encodedLen]
  | case4 => rfl

theorem encode_length (bytes : GoString) : (encode bytes).length = encodedLen bytes.length := by
  rw [encode, List.length_map, sextets_length]

theorem sextets_lt {bytes : GoString} {n : ℕ} (h : n ∈ sextets bytes) : n < 64 := by
  induction bytes using sextets.induct with
  | case1 a b c rest ih =>
    have ha := a.toNat_lt
    have hb := b.toNat_lt
    have hc := c.toNat_lt
    simp only [sextets, List.mem_cons] at h
    rcases h with h | h | h | h | h
    · omega
    · omega
    · omega
    · omega
    · exact ih h
  | case2 a b =>
    have ha := a.toNat_lt
    have hb := b.toNat_lt
    simp only [sextets, List.mem_cons, List.not_mem_nil, or_false] at h
    omega
  | case3 a =>
    have ha := a.toNat_lt
    simp only [sextets, List.mem_cons, List.not_mem_nil, or_false] at h
    omega
  | case4 => cases h

theorem ofNat_eq {n : ℕ} {b : UInt8} (h : n % 256 = b.toNat) : UInt8.ofNat n = b := by
  apply UInt8.toNat_inj.mp
  rw [UInt8.toNat_ofNat']
  exact h

theorem ofSextets_sextets (bytes : GoString) : ofSextets (sextets bytes) = some bytes := by
  induction bytes using sextets.induct with
  | case1 a b c rest ih =>
    have ha := a.toNat_lt
    have hb := b.toNat_lt
    have hc := c.toNat_lt
    simp only [sextets, ofSextets, ih, Option.map_some]
    rw [ofNat_eq (b := a) (by omega), ofNat_eq (b := b) (by omega), ofNat_eq (b := c) (by omega)]
  | case2 a b =>
    have ha := a.toNat_lt
    have hb := b.toNat_lt
    simp only [sextets, ofSextets]
    rw [if_pos (by omega), ofNat_eq (b := a) (by omega), ofNat_eq (b := b) (by omega)]
  | case3 a =>
    have ha := a.toNat_lt
    simp only [sextets, ofSextets]
    rw [if_pos (by omega), ofNat_eq (b := a) (by omega)]
  | case4 => rfl

theorem sextets_ofSextets {groups : List ℕ} {bytes : GoString} (hlt : ∀ n ∈ groups, n < 64)
    (h : ofSextets groups = some bytes) : sextets bytes = groups := by
  induction groups using ofSextets.induct generalizing bytes with
  | case1 w x y z rest ih =>
    simp only [List.forall_mem_cons] at hlt
    obtain ⟨hw, hx, hy, hz, hrest⟩ := hlt
    rw [ofSextets] at h
    obtain ⟨tail, htail, rfl⟩ := Option.map_eq_some_iff.mp h
    simp only [sextets, UInt8.toNat_ofNat', ih hrest htail, List.cons.injEq, and_true]
    omega
  | case2 w x y hspare =>
    simp only [List.forall_mem_cons] at hlt
    rw [ofSextets, if_pos hspare] at h
    cases h
    simp only [sextets, UInt8.toNat_ofNat', List.cons.injEq, and_true]
    omega
  | case3 w x y hspare =>
    rw [ofSextets, if_neg hspare] at h
    cases h
  | case4 w x hspare =>
    simp only [List.forall_mem_cons] at hlt
    rw [ofSextets, if_pos hspare] at h
    cases h
    simp only [sextets, UInt8.toNat_ofNat', List.cons.injEq, and_true]
    omega
  | case5 w x hspare =>
    rw [ofSextets, if_neg hspare] at h
    cases h
  | case6 w => cases h
  | case7 =>
    cases h
    rfl

theorem isLineBreak_encodeChar {n : ℕ} (h : n < 64) : isLineBreak (encodeChar n) = false := by
  have hall : ∀ m : Fin 64, isLineBreak (encodeChar m) = false := by decide
  exact hall ⟨n, h⟩

theorem mapM_decodeChar {groups : List ℕ} (h : ∀ n ∈ groups, n < 64) :
    (groups.map encodeChar).mapM decodeChar = some groups := by
  induction groups with
  | nil => rfl
  | cons n groups ih =>
    rw [List.forall_mem_cons] at h
    simp [decodeChar_encodeChar h.1, ih h.2]

theorem map_encodeChar {s : GoString} {groups : List ℕ} (h : s.mapM decodeChar = some groups) :
    (∀ n ∈ groups, n < 64) ∧ groups.map encodeChar = s := by
  induction s generalizing groups with
  | nil =>
    cases h
    exact ⟨by simp, rfl⟩
  | cons c s ih =>
    rw [List.mapM_cons] at h
    obtain ⟨n, hn, hrest⟩ := Option.bind_eq_some_iff.mp h
    obtain ⟨tail, htail, heq⟩ := Option.bind_eq_some_iff.mp hrest
    cases heq
    obtain ⟨hlt, hmap⟩ := ih htail
    obtain ⟨hhead, hchar⟩ := encodeChar_decodeChar hn
    rw [List.forall_mem_cons, List.map_cons, hchar, hmap]
    exact ⟨⟨hhead, hlt⟩, rfl⟩

theorem filter_encode (bytes : GoString) :
    (encode bytes).filter (fun c => !isLineBreak c) = encode bytes := by
  apply List.filter_eq_self.mpr
  intro c hc
  obtain ⟨n, hn, rfl⟩ := List.mem_map.mp hc
  rw [isLineBreak_encodeChar (sextets_lt hn)]
  rfl

theorem decode_encode (bytes : GoString) : decode (encode bytes) = some bytes := by
  have hgroups : ∀ n ∈ sextets bytes, n < 64 := fun n hn => sextets_lt hn
  rw [decode, filter_encode, encode, mapM_decodeChar hgroups, Option.bind_some, ofSextets_sextets]

/-- Only the encoding of the bytes decodes to them, apart from line breaks. -/
theorem encode_of_decode {s bytes : GoString} (h : decode s = some bytes) :
    encode bytes = s.filter fun c => !isLineBreak c := by
  obtain ⟨groups, hgroups, hbytes⟩ := Option.bind_eq_some_iff.mp h
  obtain ⟨hlt, hmap⟩ := map_encodeChar hgroups
  rw [encode, sextets_ofSextets hlt hbytes, hmap]

/-- A text of the right length is the encoding of the bytes it decodes to. -/
theorem eq_encode_of_decode {s bytes : GoString} (h : decode s = some bytes)
    (hlength : s.length = encodedLen bytes.length) : s = encode bytes := by
  have hfilter := encode_of_decode h
  have hall : (s.filter fun c => !isLineBreak c).length = s.length := by
    rw [← hfilter, encode_length, hlength]
  rw [hfilter]
  exact (List.filter_sublist.eq_of_length hall).symm

theorem not_mem_encode {c : UInt8} (h : decodeChar c = none) (bytes : GoString) :
    c ∉ encode bytes := by
  intro hc
  obtain ⟨n, hn, rfl⟩ := List.mem_map.mp hc
  rw [decodeChar_encodeChar (sextets_lt hn)] at h
  cases h

end Persatrix.Base64
