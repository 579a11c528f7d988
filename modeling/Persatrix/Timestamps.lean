import Persatrix.Calendar
import Persatrix.Float64
import Mathlib.Data.List.TakeWhile

/-!
# Timestamps

An instant is written as a date, a time of day and an offset in whole minutes; what is written
with an offset that has seconds is read as another instant.
-/
namespace Persatrix

/-- The seconds count from the first of March of the year 0; the offset is in seconds east of
UTC. -/
structure Time where
  sec : ℤ
  nsec : ℕ
  offset : ℤ
  nsec_lt : nsec < 10 ^ 9

namespace Time

theorem nsec_zero : 0 < 10 ^ 9 := by norm_num

/-- The first of January of the year 1. -/
def zero : Time := ⟨306 * 86400, 0, 0, nsec_zero⟩

def isZero (t : Time) : Bool := t.sec = zero.sec && t.nsec = 0

def utc (t : Time) : Time := { t with offset := 0 }

end Time

/-- The time of a time zone's letter for UTC. -/
def zulu : UInt8 := 90

def timeMark : UInt8 := 84

def clockColon : UInt8 := 58

def yearText (year : ℤ) : GoString :=
  (if year < 0 then [minus] else []) ++
    (if year.natAbs < 10 ^ 4 then padded 4 year.natAbs else decimal year.natAbs)

/-- The digits up to the last that is not zero. -/
def trimZeros (s : GoString) : GoString :=
  (s.reverse.dropWhile fun b => b = digit 0).reverse

def nanosText (nsec : ℕ) : GoString :=
  if nsec = 0 then [] else point :: trimZeros (padded 9 nsec)

/-- The offset in minutes. -/
def zone (offset : ℤ) : ℤ := offset.tdiv 60

def zoneText (offset : ℤ) : GoString :=
  if offset = 0 then [zulu]
  else (if zone offset < 0 then minus else plus) ::
    (padded 2 ((zone offset).natAbs / 60) ++ clockColon :: padded 2 ((zone offset).natAbs % 60))

/-- What follows the year and the first dash. -/
def restText (d : Date) (secs : ℤ) (nsec : ℕ) (offset : ℤ) : GoString :=
  padded 2 d.month.toNat ++ minus :: (padded 2 d.day.toNat ++ timeMark ::
    (padded 2 (secs / 3600).toNat ++ clockColon :: (padded 2 (secs / 60 % 60).toNat ++
      clockColon :: (padded 2 (secs % 60).toNat ++ (nanosText nsec ++ zoneText offset)))))

/-- The format of RFC 3339 with fractions of a second. -/
def Time.text (t : Time) : GoString :=
  yearText (civil ((t.sec + t.offset) / 86400)).year ++ minus ::
    restText (civil ((t.sec + t.offset) / 86400)) ((t.sec + t.offset) % 86400) t.nsec t.offset

/-- The text in JSON; a year or a zone that does not fit has none. -/
def Time.marshal (t : Time) : Option GoString :=
  let year := (civil ((t.sec + t.offset) / 86400)).year
  if 0 ≤ year ∧ year ≤ 9999 ∧ (zone t.offset).natAbs / 60 ≤ 23 then some t.text else none

/-- A number of a given count of digits in a range, and the rest. -/
def field (n low high : ℕ) (s : GoString) : Option (ℕ × GoString) :=
  if n ≤ s.length then
    (readDigits (s.take n)).bind fun v =>
      if low ≤ v ∧ v ≤ high then some (v, s.drop n) else none
  else none

def byte (b : UInt8) : GoString → Option GoString
  | [] => none
  | c :: s => if c = b then some s else none

/-- The first nine digits of a fraction. -/
def nanos (digits : GoString) : ℕ :=
  digitsValue (digits.take 9) * 10 ^ (9 - (digits.take 9).length)

def readNanos : GoString → ℕ × GoString
  | [] => (0, [])
  | b :: s =>
    if b = point ∧ s.takeWhile isDigit ≠ [] then
      (nanos (s.takeWhile isDigit), s.dropWhile isDigit)
    else (0, b :: s)

def readZone : GoString → Option ℤ
  | [] => none
  | b :: s =>
    if b = zulu ∧ s = [] then some 0
    else if b = minus ∨ b = plus then
      (field 2 0 23 s).bind fun (hour, s) =>
        (byte clockColon s).bind fun s =>
          (field 2 0 59 s).bind fun (minute, s) =>
            if s = [] then
              let offset : ℤ := (hour * 60 + minute) * 60
              some (if b = minus then -offset else offset)
            else none
    else none

/-- What is read after the year and the first dash. -/
def readRest (year : ℤ) (s : GoString) : Option Time :=
  (field 2 1 12 s).bind fun (month, s) =>
    (byte minus s).bind fun s =>
      (field 2 1 (daysIn month year).toNat s).bind fun (day, s) =>
        (byte timeMark s).bind fun s =>
          (field 2 0 23 s).bind fun (hour, s) =>
            (byte clockColon s).bind fun s =>
              (field 2 0 59 s).bind fun (minute, s) =>
                (byte clockColon s).bind fun s =>
                  (field 2 0 59 s).bind fun (second, s) =>
                    (readZone (readNanos s).2).bind fun offset =>
                      if h : (readNanos s).1 < 10 ^ 9 then
                        some ⟨daysOf ⟨year, month, day⟩ * 86400 +
                          (hour * 3600 + minute * 60 + second) - offset, (readNanos s).1, offset, h⟩
                      else none

def parseTime (s : GoString) : Option Time :=
  (field 4 0 9999 s).bind fun (year, s) =>
    (byte minus s).bind fun s => readRest year s

theorem readDigits_padded {n v : ℕ} (hn : n ≠ 0) (hv : v < 10 ^ n) :
    readDigits (padded n v) = some v := by
  have hdigits : (padded n v).all isDigit = true :=
    List.all_eq_true.mpr fun b hb => isDigit_of_mem_padded hb
  have hne : padded n v ≠ [] := by
    intro hnil
    have hlength := padded_length n v
    rw [hnil] at hlength
    exact hn hlength.symm
  rw [readDigits, if_pos ⟨hne, hdigits⟩, digitsValue_padded hv]

theorem field_padded {n low high v : ℕ} (hn : n ≠ 0) (hv : v < 10 ^ n) (hlow : low ≤ v)
    (hhigh : v ≤ high) (s : GoString) : field n low high (padded n v ++ s) = some (v, s) := by
  have hlength : n ≤ (padded n v ++ s).length := by
    rw [List.length_append, padded_length]
    omega
  rw [field, if_pos hlength, List.take_left' (padded_length n v),
    List.drop_left' (padded_length n v), readDigits_padded hn hv, Option.bind_some,
    if_pos ⟨hlow, hhigh⟩]

theorem byte_cons (b : UInt8) (s : GoString) : byte b (b :: s) = some s := if_pos rfl

theorem trimZeros_append (s : GoString) :
    ∃ k, s = trimZeros s ++ List.replicate k (digit 0) := by
  have hsplit := (List.takeWhile_append_dropWhile (p := fun b => b = digit 0) (l := s.reverse)).symm
  refine ⟨(s.reverse.takeWhile fun b => b = digit 0).length, ?_⟩
  have hzeros : s.reverse.takeWhile (fun b => b = digit 0) =
      List.replicate (s.reverse.takeWhile fun b => b = digit 0).length (digit 0) := by
    apply List.eq_replicate_of_mem
    intro b hb
    simpa using List.mem_takeWhile_imp hb
  rw [hzeros] at hsplit
  have hreverse := congrArg List.reverse hsplit
  rw [List.reverse_reverse, List.reverse_append, List.reverse_replicate] at hreverse
  exact hreverse

/-- A fraction is read back from its digits without the zeros at the end. -/
theorem nanos_trimZeros {n : ℕ} (h : n < 10 ^ 9) : nanos (trimZeros (padded 9 n)) = n := by
  obtain ⟨k, hk⟩ := trimZeros_append (padded 9 n)
  have hlength := congrArg List.length hk
  rw [padded_length, List.length_append, List.length_replicate] at hlength
  have hvalue := congrArg digitsValue hk
  rw [digitsValue_padded h, digitsValue_append, digitsValue_replicate_zero,
    List.length_replicate, Nat.add_zero] at hvalue
  have hcount : 9 - (trimZeros (padded 9 n)).length = k := by omega
  rw [nanos, List.take_of_length_le (by omega), hcount]
  exact hvalue.symm

theorem zoneText_head (offset : ℤ) :
    ∃ b s, zoneText offset = b :: s ∧ isDigit b = false ∧ b ≠ point := by
  unfold zoneText
  split_ifs
  · exact ⟨zulu, [], rfl, rfl, by decide⟩
  · exact ⟨minus, _, rfl, rfl, by decide⟩
  · exact ⟨plus, _, rfl, rfl, by decide⟩

theorem readNanos_nanosText {n : ℕ} (h : n < 10 ^ 9) (offset : ℤ) :
    readNanos (nanosText n ++ zoneText offset) = (n, zoneText offset) := by
  obtain ⟨b, s, hzone, hdigit, hpoint⟩ := zoneText_head offset
  unfold nanosText
  split_ifs with hzero
  · rw [List.nil_append, hzone, readNanos, if_neg (fun hb => hpoint hb.1), hzero]
  · have hdigits : ∀ c ∈ trimZeros (padded 9 n), isDigit c = true := by
      intro c hc
      obtain ⟨k, hk⟩ := trimZeros_append (padded 9 n)
      apply isDigit_of_mem_padded
      rw [hk]
      exact List.mem_append_left _ hc
    have hspan := span_digits hdigits (t := zoneText offset) (by
      intro c hc
      rw [hzone] at hc
      cases hc
      exact hdigit)
    have hvalue := nanos_trimZeros h
    have hne : trimZeros (padded 9 n) ≠ [] := by
      intro hnil
      rw [hnil] at hvalue
      exact hzero hvalue.symm
    rw [List.cons_append, readNanos, hspan.1, hspan.2, if_pos ⟨rfl, hne⟩, hvalue]

/-- The zone is read back as its whole minutes. -/
theorem readZone_zoneText {offset : ℤ} (h : (zone offset).natAbs / 60 ≤ 23) :
    readZone (zoneText offset) = some (60 * zone offset) := by
  unfold zoneText
  split_ifs with hzero hneg
  · rw [hzero]
    rfl
  · have hne : ¬ (minus = zulu ∧ padded 2 ((zone offset).natAbs / 60) ++
        clockColon :: padded 2 ((zone offset).natAbs % 60) = []) := by
      intro hzulu
      exact absurd hzulu.1 (by decide)
    rw [readZone, if_neg hne, if_pos (.inl rfl), field_padded (by omega) (by omega) (by omega) h,
      Option.bind_some]
    dsimp only
    rw [byte_cons, Option.bind_some, ← List.append_nil (padded 2 ((zone offset).natAbs % 60)),
      field_padded (by omega) (by omega) (by omega) (by omega), Option.bind_some]
    dsimp only
    rw [if_pos rfl, if_pos rfl]
    congr 1
    omega
  · have hne : ¬ (plus = zulu ∧ padded 2 ((zone offset).natAbs / 60) ++
        clockColon :: padded 2 ((zone offset).natAbs % 60) = []) := by
      intro hzulu
      exact absurd hzulu.1 (by decide)
    have hminus : plus ≠ minus := by decide
    rw [readZone, if_neg hne, if_pos (.inr rfl), field_padded (by omega) (by omega) (by omega) h,
      Option.bind_some]
    dsimp only
    rw [byte_cons, Option.bind_some, ← List.append_nil (padded 2 ((zone offset).natAbs % 60)),
      field_padded (by omega) (by omega) (by omega) (by omega), Option.bind_some]
    dsimp only
    rw [if_pos rfl, if_neg hminus]
    congr 1
    omega

/-- What is written after the year is read back, with the offset in whole minutes. -/
theorem readRest_restText (days secs : ℤ) {nsec : ℕ} {offset : ℤ} (hsecs : 0 ≤ secs)
    (hday : secs < 86400) (hnsec : nsec < 10 ^ 9) (hzone : (zone offset).natAbs / 60 ≤ 23) :
    readRest (civil days).year (restText (civil days) secs nsec offset) =
      some ⟨days * 86400 + secs - 60 * zone offset, nsec, 60 * zone offset, hnsec⟩ := by
  obtain ⟨hmonth1, hmonth12, hday1, hdays⟩ := civil_valid days
  have h31 : daysIn (civil days).month (civil days).year ≤ 31 := by
    unfold daysIn
    split_ifs <;> omega
  have hmonth : ((civil days).month.toNat : ℤ) = (civil days).month := Int.toNat_of_nonneg (by omega)
  have hdate : ((civil days).day.toNat : ℤ) = (civil days).day := Int.toNat_of_nonneg (by omega)
  have hnanos := readNanos_nanosText hnsec offset
  unfold readRest restText
  rw [field_padded (by omega) (by omega) (by omega) (by omega), Option.bind_some]
  dsimp only
  rw [byte_cons, Option.bind_some, hmonth,
    field_padded (by omega) (by omega) (by omega) (by omega), Option.bind_some]
  dsimp only
  rw [byte_cons, Option.bind_some, field_padded (by omega) (by omega) (by omega) (by omega),
    Option.bind_some]
  dsimp only
  rw [byte_cons, Option.bind_some, field_padded (by omega) (by omega) (by omega) (by omega),
    Option.bind_some]
  dsimp only
  rw [byte_cons, Option.bind_some, field_padded (by omega) (by omega) (by omega) (by omega),
    Option.bind_some]
  dsimp only
  rw [hnanos, readZone_zoneText hzone, Option.bind_some, dif_pos hnsec, hdate]
  have hcount : daysOf ⟨(civil days).year, (civil days).month, (civil days).day⟩ = days :=
    daysOf_civil days
  rw [hcount]
  congr 2
  omega

theorem Time.ext {t u : Time} (hsec : t.sec = u.sec) (hnsec : t.nsec = u.nsec)
    (hoffset : t.offset = u.offset) : t = u := by
  cases t
  cases u
  cases hsec
  cases hnsec
  cases hoffset
  rfl

/-- The instant that is read from what was written for a time. -/
def Time.reread (t : Time) : Time :=
  { t with sec := t.sec + t.offset - 60 * zone t.offset, offset := 60 * zone t.offset }

theorem parseTime_marshal {t : Time} {s : GoString} (h : t.marshal = some s) :
    parseTime s = some t.reread := by
  unfold Time.marshal at h
  dsimp only at h
  split_ifs at h with hfits
  obtain ⟨hyear0, hyear9999, hzone⟩ := hfits
  cases h
  have hyear : yearText (civil ((t.sec + t.offset) / 86400)).year =
      padded 4 (civil ((t.sec + t.offset) / 86400)).year.toNat := by
    have habs : (civil ((t.sec + t.offset) / 86400)).year.natAbs =
        (civil ((t.sec + t.offset) / 86400)).year.toNat := by omega
    rw [yearText, if_neg (by omega), List.nil_append, if_pos (by omega), habs]
  have hcast : (((civil ((t.sec + t.offset) / 86400)).year.toNat : ℕ) : ℤ) =
      (civil ((t.sec + t.offset) / 86400)).year := Int.toNat_of_nonneg hyear0
  rw [Time.text, hyear, parseTime, field_padded (by omega) (by omega) (by omega) (by omega),
    Option.bind_some]
  dsimp only
  rw [byte_cons, Option.bind_some, hcast,
    readRest_restText _ _ (by omega) (by omega) t.nsec_lt hzone]
  congr 1
  apply Time.ext
  · dsimp only [Time.reread]
    omega
  · rfl
  · rfl

/-- Only whole minutes are kept. -/
theorem zone_exact_iff (offset : ℤ) : 60 * zone offset = offset ↔ offset % 60 = 0 := by
  have hsplit := Int.mul_tdiv_add_tmod offset 60
  unfold zone
  constructor
  · intro h
    omega
  · intro h
    have htmod : offset.tmod 60 = 0 := Int.tmod_eq_zero_of_dvd (Int.dvd_of_emod_eq_zero h)
    omega

/-- The format in UTC tells the instant. -/
def Time.utcText (t : Time) : GoString := t.utc.text

theorem readSign_append {neg : Bool} {ds : GoString} {b : UInt8} {rest : GoString}
    (hds : ∀ c ∈ ds, isDigit c = true) (hne : ds ≠ []) (hb : isDigit b = false) :
    (readSign ((if neg then [minus] else []) ++ ds ++ b :: rest)).1 = neg ∧
      (readSign ((if neg then [minus] else []) ++ ds ++ b :: rest)).2.takeWhile isDigit = ds ∧
      (readSign ((if neg then [minus] else []) ++ ds ++ b :: rest)).2.dropWhile isDigit =
        b :: rest := by
  have hspan := span_digits hds (t := b :: rest) (by
    intro c hc
    cases hc
    exact hb)
  have hsign : readSign ((if neg then [minus] else []) ++ ds ++ b :: rest) =
      (neg, ds ++ b :: rest) := by
    cases neg with
    | true => rfl
    | false =>
      cases ds with
      | nil => exact absurd rfl hne
      | cons c ds =>
        have hc : c ≠ minus := by
          intro hminus
          have hdigit := hds c (List.mem_cons_self ..)
          rw [hminus] at hdigit
          cases hdigit
        exact if_neg hc
  rw [hsign]
  exact ⟨rfl, hspan.1, hspan.2⟩

theorem yearText_injective {a b : ℤ} {s t : GoString}
    (h : yearText a ++ minus :: s = yearText b ++ minus :: t) : a = b ∧ s = t := by
  have hparts : ∀ (y : ℤ) (r : GoString), ∃ ds : GoString,
      yearText y ++ minus :: r =
        (if decide (y < 0) then [minus] else []) ++ ds ++ minus :: r ∧
      (∀ c ∈ ds, isDigit c = true) ∧ ds ≠ [] ∧ digitsValue ds = y.natAbs := by
    intro y r
    refine ⟨if y.natAbs < 10 ^ 4 then padded 4 y.natAbs else decimal y.natAbs, ?_, ?_, ?_, ?_⟩
    · simp [yearText]
    · intro c hc
      split_ifs at hc
      · exact isDigit_of_mem_padded hc
      · exact isDigit_of_mem_decimal hc
    · split_ifs
      · intro hnil
        have hlength := padded_length 4 y.natAbs
        rw [hnil] at hlength
        cases hlength
      · exact decimal_ne_nil _
    · split_ifs with hsmall
      · exact digitsValue_padded hsmall
      · exact digitsValue_decimal _
  obtain ⟨ds, hs, hds, hdsne, hdsvalue⟩ := hparts a s
  obtain ⟨es, ht, hes, hesne, hesvalue⟩ := hparts b t
  obtain ⟨ha, htake, hdrop⟩ := @readSign_append (decide (a < 0)) ds minus s hds hdsne rfl
  obtain ⟨hb, htake', hdrop'⟩ := @readSign_append (decide (b < 0)) es minus t hes hesne rfl
  rw [← hs, h, ht] at ha htake hdrop
  have hneg : decide (a < 0) = decide (b < 0) := ha.symm.trans hb
  have hdigits : ds = es := htake.symm.trans htake'
  have hrest : minus :: s = minus :: t := hdrop.symm.trans hdrop'
  rw [hdigits] at hdsvalue
  have habs : a.natAbs = b.natAbs := hdsvalue.symm.trans hesvalue
  have hsame : a < 0 ↔ b < 0 := by simpa using hneg
  exact ⟨by omega, (List.cons.inj hrest).2⟩

theorem utcText_eq_iff (t u : Time) : t.utcText = u.utcText ↔ t.sec = u.sec ∧ t.nsec = u.nsec := by
  constructor
  · intro h
    obtain ⟨hyear, hrest⟩ := yearText_injective h
    have hzone : (zone 0).natAbs / 60 ≤ 23 := by decide
    have ht := readRest_restText ((t.sec + 0) / 86400) ((t.sec + 0) % 86400) (by omega) (by omega)
      t.nsec_lt hzone
    have hu := readRest_restText ((u.sec + 0) / 86400) ((u.sec + 0) % 86400) (by omega) (by omega)
      u.nsec_lt hzone
    dsimp only [Time.utc] at hyear hrest
    rw [hyear, hrest, hu] at ht
    have heq := Time.mk.inj (Option.some.inj ht)
    exact ⟨by omega, heq.2.1.symm⟩
  · rintro ⟨hsec, hnsec⟩
    have hutc : t.utc = u.utc := Time.ext hsec hnsec rfl
    rw [Time.utcText, hutc, ← Time.utcText]

end Persatrix
