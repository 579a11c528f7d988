import Persatrix.AuditCanonical

/-!
# The check of a chain

Checksums are told apart by the digests they print. The check of a file reads one event after
the other, whatever blanks stand between them, and accepts it when each event's checksum is that
of its hashed form after the checksum before.
-/
namespace Persatrix.Json

theorem next_blanks {blanks : GoString} (h : ∀ b ∈ blanks, isSpace b = true) (s : GoString) :
    next (blanks ++ s) = next s := by
  rw [next, List.dropWhile_append_of_pos h, ← next]

theorem parseValue_blanks {blanks : GoString} (h : ∀ b ∈ blanks, isSpace b = true)
    (turns depth : ℕ) (s : GoString) :
    parseValue turns depth (blanks ++ s) = parseValue turns depth s := by
  cases turns with
  | zero => rfl
  | succ turns => rw [parseValue, parseValue, next_blanks h]

/-- An object that is read stays so with blanks before it and anything behind. -/
theorem parse_blanks_append {blanks s rest : GoString} {members : List (StringLit × Doc)}
    (hblanks : ∀ b ∈ blanks, isSpace b = true) (h : parse s = some (.object members, rest))
    (t : GoString) : parse (blanks ++ (s ++ t)) = some (.object members, rest ++ t) := by
  unfold parse at h ⊢
  rw [parseValue_blanks hblanks]
  apply (parse_append (s.length + 1)).1 _ (Nat.le_refl _) h (.inr ⟨members, rfl⟩)
  rw [List.length_append, List.length_append]
  omega

/-- What is read as an object begins with a brace. -/
theorem next_of_object {turns depth : ℕ} {s rest : GoString} {members : List (StringLit × Doc)}
    (h : parseValue turns depth s = some (.object members, rest)) :
    ∃ t, next s = some (openBrace, t) := by
  cases turns with
  | zero => cases h
  | succ turns =>
    rw [parseValue] at h
    obtain ⟨⟨b, t⟩, hnext, h⟩ := Option.bind_eq_some_iff.mp h
    dsimp only at h
    split_ifs at h with hbrace hno hbracket hno hquote hnull htrue hfalse
    · rw [hnext, hbrace]
      exact ⟨t, rfl⟩
    · obtain ⟨⟨c, v⟩, -, h⟩ := Option.bind_eq_some_iff.mp h
      dsimp only at h
      split_ifs at h
      · cases h
      · obtain ⟨q, -, hq⟩ := Option.map_eq_some_iff.mp h
        cases hq
    · obtain ⟨q, -, hq⟩ := Option.map_eq_some_iff.mp h
      cases hq
    · unfold readWord at h
      split_ifs at h
      cases h
    · unfold readWord at h
      split_ifs at h
      cases h
    · unfold readWord at h
      split_ifs at h
      cases h
    · unfold readNumberLit at h
      split_ifs at h
      cases h

end Persatrix.Json

namespace Persatrix.Security
open Json

/-! ### Checksums -/

theorem hexDigit_injective {m n : ℕ} (hm : m < 16) (hn : n < 16) (h : hexDigit m = hexDigit n) :
    m = n := by
  have hnat := congrArg UInt8.toNat h
  unfold hexDigit at hnat
  split_ifs at hnat <;> simp only [UInt8.toNat_ofNat'] at hnat <;> omega

theorem hexString_injective {s t : GoString} (h : hexString s = hexString t) : s = t := by
  induction s generalizing t with
  | nil =>
    cases t with
    | nil => rfl
    | cons c t => cases h
  | cons b s ih =>
    cases t with
    | nil => cases h
    | cons c t =>
      obtain ⟨hhigh, h⟩ := List.cons.inj h
      obtain ⟨hlow, h⟩ := List.cons.inj h
      have hb := b.toNat_lt
      have hc := c.toNat_lt
      have hdiv := hexDigit_injective (by omega) (by omega) hhigh
      have hmod := hexDigit_injective (by omega) (by omega) hlow
      have hnat : b.toNat = c.toNat := by omega
      rw [UInt8.toNat_inj.mp hnat, ih h]

theorem hexString_length (s : GoString) : (hexString s).length = 2 * s.length := by
  induction s with
  | nil => rfl
  | cons b s ih =>
    have hcons : hexString (b :: s) =
        hexDigit (b.toNat / 16) :: hexDigit (b.toNat % 16) :: hexString s := rfl
    rw [hcons, List.length_cons, List.length_cons, ih, List.length_cons]
    omega

theorem hexString_isHex (s : GoString) : ∀ b ∈ hexString s, isHex b = true := by
  intro b hb
  obtain ⟨c, -, hb⟩ := List.mem_flatMap.mp hb
  have hc := c.toNat_lt
  rcases List.mem_cons.mp hb with rfl | hb
  · exact isHex_hexDigit (by omega)
  · rw [List.mem_singleton.mp hb]
    exact isHex_hexDigit (by omega)

theorem isPlain_of_isHex {b : UInt8} (h : isHex b = true) : isPlain b = true := by
  rw [isHex, Bool.or_eq_true, Bool.or_eq_true] at h
  rcases h with (h | h) | h
  · exact isPlain_of_isDigit h
  · simp only [Bool.and_eq_true, decide_eq_true_eq] at h
    obtain ⟨hlow, hhigh⟩ := h
    rw [← UInt8.ofNat_toNat (x := b)]
    generalize b.toNat = n at hlow hhigh
    interval_cases n <;> rfl
  · simp only [Bool.and_eq_true, decide_eq_true_eq] at h
    obtain ⟨hlow, hhigh⟩ := h
    rw [← UInt8.ofNat_toNat (x := b)]
    generalize b.toNat = n at hlow hhigh
    interval_cases n <;> rfl

variable (sha256 : GoString → Digest)

theorem looksLikeSHA256_checksumOf (s : GoString) : looksLikeSHA256 (checksumOf sha256 s) = true := by
  have hlength : (checksumOf sha256 s).length = 64 := by
    rw [checksumOf, hexString_length, (sha256 s).2]
  have hhex : (checksumOf sha256 s).all isHex = true :=
    List.all_eq_true.mpr (hexString_isHex _)
  rw [looksLikeSHA256, hhex, hlength]
  rfl

theorem sanitize_checksumOf (s : GoString) :
    sanitize (checksumOf sha256 s) = checksumOf sha256 s :=
  sanitize_of_valid (validString_plain fun b hb => isPlain_of_isHex (hexString_isHex _ b hb))

theorem checksumOf_eq_iff (s t : GoString) :
    checksumOf sha256 s = checksumOf sha256 t ↔ sha256 s = sha256 t := by
  constructor
  · intro h
    exact Subtype.ext (hexString_injective h)
  · intro h
    rw [checksumOf, h, ← checksumOf]

/-- The function has no two of the texts with one digest. -/
def CollisionFree (texts : List GoString) : Prop :=
  ∀ s ∈ texts, ∀ t ∈ texts, sha256 s = sha256 t → s = t

theorem CollisionFree.mono {sha256 : GoString → Digest} {texts texts' : List GoString}
    (h : CollisionFree sha256 texts') (hsub : texts ⊆ texts') : CollisionFree sha256 texts :=
  fun s hs t ht => h s (hsub hs) t (hsub ht)

/-! ### The lines of a file -/

theorem checkLine_ok_iff (prevSum : GoString) (ev : AuditEvent) :
    checkLine sha256 prevSum ev = .ok () ↔
      checksumOf sha256 (canonicalEventJSON ev prevSum) = ev.checksum := by
  unfold checkLine
  dsimp only
  split_ifs with hshape hsum
  · refine iff_of_false nofun ?_
    intro hsum
    rw [← hsum, looksLikeSHA256_checksumOf] at hshape
    cases hshape
  · exact iff_of_false nofun hsum
  · exact iff_of_true rfl (not_ne_iff.mp hsum)

/-- Each event has the checksum of its hashed form after the checksum before. -/
def Chained : GoString → List AuditEvent → Prop
  | _, [] => True
  | prevSum, ev :: evs =>
    checksumOf sha256 (canonicalEventJSON ev prevSum) = ev.checksum ∧ Chained ev.checksum evs

theorem verifyLines_blank (turns : ℕ) (prevSum : GoString) (lineNo : ℕ) {s : GoString}
    (h : ∀ b ∈ s, Json.isSpace b = true) : verifyLines sha256 turns prevSum lineNo s = .ok () := by
  cases turns with
  | zero => rfl
  | succ turns =>
    have hnext : next s = none := by
      have hskip := next_blanks h []
      rwa [List.append_nil] at hskip
    rw [verifyLines, hnext]

/-- One turn, on a text that begins with an object. -/
theorem verifyLines_object {turns : ℕ} {prevSum : GoString} {lineNo : ℕ} {s rest : GoString}
    {members : List (StringLit × Doc)} (h : parse s = some (.object members, rest)) :
    verifyLines sha256 (turns + 1) prevSum lineNo s = .ok () ↔
      ∃ ev, decodeEvent (.object members) = some ev ∧
        checksumOf sha256 (canonicalEventJSON ev prevSum) = ev.checksum ∧
          verifyLines sha256 turns ev.checksum (lineNo + 1) rest = .ok () := by
  obtain ⟨t, hnext⟩ := next_of_object h
  have hbrace : ¬ (openBrace = closeBracket ∨ openBrace = closeBrace) := by decide
  rw [verifyLines, hnext, h, Option.bind_some]
  dsimp only
  rw [if_neg hbrace]
  cases hev : decodeEvent (.object members) with
  | none => exact iff_of_false nofun nofun
  | some ev =>
    rw [Option.map_some]
    dsimp only
    cases hcheck : checkLine sha256 prevSum ev with
    | error e =>
      refine iff_of_false nofun ?_
      rintro ⟨ev', hev', hsum, -⟩
      cases hev'
      rw [(checkLine_ok_iff sha256 prevSum ev).mpr hsum] at hcheck
      cases hcheck
    | ok u =>
      have hsum := (checkLine_ok_iff sha256 prevSum ev).mp hcheck
      constructor
      · intro hrest
        exact ⟨ev, rfl, hsum, hrest⟩
      · rintro ⟨ev', hev', -, hrest⟩
        cases hev'
        exact hrest

/-- A text that begins with an opening brace and is not read is not accepted. -/
theorem verifyLines_unread {turns : ℕ} {prevSum : GoString} {lineNo : ℕ} {s t : GoString}
    (hnext : next s = some (openBrace, t)) (h : parse s = none) :
    verifyLines sha256 (turns + 1) prevSum lineNo s ≠ .ok () := by
  have hbrace : ¬ (openBrace = closeBracket ∨ openBrace = closeBrace) := by decide
  rw [verifyLines, hnext, h]
  dsimp only
  rw [if_neg hbrace]
  exact nofun

end Persatrix.Security
