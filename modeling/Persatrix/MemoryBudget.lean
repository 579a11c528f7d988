import Persatrix.PythonStrings
import Mathlib.Algebra.BigOperators.Group.List.Lemmas
import Mathlib.Algebra.Order.Group.Int
import Mathlib.Tactic.Linarith

/-!
# The budget of tokens for injected memory

Items are admitted one after the other. One that is longer than what remains is cut to what remains
and an ellipsis, and the cut text is counted anew. Whether it fits then is up to the tokenizer.
-/
namespace Persatrix.Memory
open PyJson

/-- An encoder, which may raise on a text, and its decoder. -/
structure Tokenizer (Token : Type) where
  encode : PyText → Option (List Token)
  decode : List Token → PyText

variable {Token : Type}

def ellipsis : Fin 0x110000 := 0x2026

/-- The tokens where the tokenizer is installed and encodes the text, else a quarter of its
characters. -/
def encodeText (enc : Option (Tokenizer Token)) (text : PyText) : ℕ × Option (List Token) :=
  match enc.bind fun enc => enc.encode text with
  | some tokens => (tokens.length, some tokens)
  | none => (text.length / 4, none)

def countTokens (enc : Option (Tokenizer Token)) (text : PyText) : ℕ := (encodeText enc text).1

/-- The part of the truncation in which the tokenizer may be missing or raise. -/
def truncateTokens (enc : Option (Tokenizer Token)) (text : PyText) (tokenLimit : ℤ)
    (tokenIds : Option (List Token)) : Option PyText := do
  let enc ← enc
  let tokens ← tokenIds.orElse fun _ => enc.encode text
  if tokens.length ≤ tokenLimit then return text
  let ellipsisTokens ← enc.encode [ellipsis]
  let contentBudget := tokenLimit - ellipsisTokens.length
  if contentBudget ≤ 0 then return [ellipsis]
  return enc.decode (tokens.take contentBudget.toNat) ++ [ellipsis]

def truncateToTokenLimit (enc : Option (Tokenizer Token)) (text : PyText) (tokenLimit : ℤ)
    (tokenIds : Option (List Token)) : PyText :=
  if tokenLimit ≤ 0 then [ellipsis]
  else
    match truncateTokens enc text tokenLimit tokenIds with
    | some truncated => truncated
    | none =>
      if ((text.length / 4 : ℕ) : ℤ) ≤ tokenLimit then text
      else if tokenLimit - 1 ≤ 0 then [ellipsis]
      else text.take ((tokenLimit - 1) * 4).toNat ++ [ellipsis]

structure MemoryBudget where
  remaining : ℤ
deriving DecidableEq

def newBudget (totalTokens : ℤ) : MemoryBudget := ⟨max 0 totalTokens⟩

/-- The admitted text, or nothing where the item is dropped, and the budget after it. -/
def tryAdd (enc : Option (Tokenizer Token)) (b : MemoryBudget) (text : PyText) (minTokens : ℤ) :
    Option PyText × MemoryBudget :=
  if text = [] then (none, b)
  else if b.remaining ≤ 0 then (none, b)
  else
    let (count, tokenIds) := encodeText enc text
    if count ≤ b.remaining then (some text, ⟨b.remaining - count⟩)
    else
      let truncated := truncateToTokenLimit enc text b.remaining tokenIds
      let truncatedCount := countTokens enc truncated
      if minTokens ≤ truncatedCount then (some truncated, ⟨b.remaining - truncatedCount⟩)
      else (none, b)

/-! ### Runs -/

structure Call where
  text : PyText
  minTokens : ℤ

/-- What the calls admit, and the budget after them. -/
def tryAddAll (enc : Option (Tokenizer Token)) (b : MemoryBudget) :
    List Call → List PyText × MemoryBudget
  | [] => ([], b)
  | call :: calls =>
    let (admitted, b') := tryAdd enc b call.text call.minTokens
    let (later, b'') := tryAddAll enc b' calls
    (admitted.toList ++ later, b'')

def countAll (enc : Option (Tokenizer Token)) (admitted : List PyText) : ℕ :=
  (admitted.map (countTokens enc)).sum

/-- What a call does to the budget: an item that is dropped costs nothing, and one that is admitted
is whole, or its cut has enough tokens. -/
structure Admits (enc : Option (Tokenizer Token)) (b : MemoryBudget) (call : Call) : Prop where
  dropped : (tryAdd enc b call.text call.minTokens).1 = none →
    (tryAdd enc b call.text call.minTokens).2 = b
  admitted : ∀ s, (tryAdd enc b call.text call.minTokens).1 = some s → s = call.text ∨
    (∃ content, s = content ++ [ellipsis]) ∧ call.minTokens ≤ countTokens enc s

/-- The budget is kept in every run. -/
structure Kept (enc : Option (Tokenizer Token)) (total : ℤ) : Prop where
  remaining : ∀ calls, (∀ call ∈ calls, 0 ≤ call.minTokens) →
    0 ≤ (tryAddAll enc (newBudget total) calls).2.remaining
  admitted : ∀ calls, (∀ call ∈ calls, 0 ≤ call.minTokens) →
    (countAll enc (tryAddAll enc (newBudget total) calls).1 : ℤ) ≤ max 0 total
  calls : ∀ calls call, (∀ c ∈ calls ++ [call], 0 ≤ c.minTokens) →
    Admits enc (tryAddAll enc (newBudget total) calls).2 call

/-! ### What is asked of a tokenizer -/

/-- A text is read back from its tokens. -/
def Tokenizer.ReadsBack (t : Tokenizer Token) : Prop :=
  ∀ s, ∃ tokens, t.encode s = some tokens ∧ t.decode tokens = s

def Tokenizer.tokens (t : Tokenizer Token) (s : PyText) : List Token := (t.encode s).getD []

/-- An ellipsis is one token at most, and behind a beginning of a text's tokens it is encoded in
no more tokens than both have. -/
structure Tokenizer.KeepsCuts (t : Tokenizer Token) : Prop where
  ellipsis : (t.tokens [ellipsis]).length ≤ 1
  cut : ∀ s k, s ≠ [] → 0 < k → k + (t.tokens [Memory.ellipsis]).length < (t.tokens s).length →
    (t.tokens (t.decode ((t.tokens s).take k) ++ [Memory.ellipsis])).length ≤
      k + (t.tokens [Memory.ellipsis]).length

/-- What is cut to a limit fits it. -/
def Fits (enc : Option (Tokenizer Token)) : Prop :=
  ∀ text (limit : ℤ), text ≠ [] → 0 < limit → limit < countTokens enc text →
    (countTokens enc (truncateToTokenLimit enc text limit (encodeText enc text).2) : ℤ) ≤ limit

/-- What is cut ends in an ellipsis. -/
def Cuts (enc : Option (Tokenizer Token)) : Prop :=
  ∀ text (limit : ℤ), text ≠ [] → 0 < limit → limit < countTokens enc text →
    ∃ content, truncateToTokenLimit enc text limit (encodeText enc text).2 = content ++ [ellipsis]

/-! ### One call -/

variable {enc : Option (Tokenizer Token)} {b : MemoryBudget}

/-- An item is dropped, admitted whole or cut to what remains. -/
theorem tryAdd_cases (enc : Option (Tokenizer Token)) (b : MemoryBudget) (text : PyText)
    (minTokens : ℤ) :
    tryAdd enc b text minTokens = (none, b) ∨
    ((countTokens enc text : ℤ) ≤ b.remaining ∧
      tryAdd enc b text minTokens = (some text, ⟨b.remaining - countTokens enc text⟩)) ∨
    ∃ cut, cut = truncateToTokenLimit enc text b.remaining (encodeText enc text).2 ∧
      text ≠ [] ∧ 0 < b.remaining ∧ b.remaining < countTokens enc text ∧ minTokens ≤ countTokens enc cut ∧
      tryAdd enc b text minTokens = (some cut, ⟨b.remaining - countTokens enc cut⟩) := by
  unfold tryAdd
  by_cases htext : text = []
  · rw [if_pos htext]
    exact .inl rfl
  rw [if_neg htext]
  by_cases hexhausted : b.remaining ≤ 0
  · rw [if_pos hexhausted]
    exact .inl rfl
  rw [if_neg hexhausted]
  dsimp only
  by_cases hwhole : ((encodeText enc text).1 : ℤ) ≤ b.remaining
  · rw [if_pos hwhole]
    exact .inr (.inl ⟨hwhole, rfl⟩)
  rw [if_neg hwhole]
  by_cases hlong : minTokens ≤ countTokens enc
      (truncateToTokenLimit enc text b.remaining (encodeText enc text).2)
  · rw [if_pos hlong]
    exact .inr (.inr ⟨_, rfl, htext, not_le.mp hexhausted, not_le.mp hwhole, hlong, rfl⟩)
  · rw [if_neg hlong]
    exact .inl rfl

/-- A text that is too long is cut where no tokens are asked for. -/
theorem tryAdd_cut {text : PyText} (htext : text ≠ []) (hpos : 0 < b.remaining)
    (hlt : b.remaining < countTokens enc text) :
    tryAdd enc b text 0 =
      (some (truncateToTokenLimit enc text b.remaining (encodeText enc text).2),
        ⟨b.remaining - countTokens enc
          (truncateToTokenLimit enc text b.remaining (encodeText enc text).2)⟩) := by
  have hlong : ¬((encodeText enc text).1 : ℤ) ≤ b.remaining := not_le.mpr hlt
  unfold tryAdd
  rw [if_neg htext, if_neg (not_le.mpr hpos)]
  dsimp only
  rw [if_neg hlong, if_pos (Int.natCast_nonneg _)]

theorem admits (hcuts : Cuts enc) (call : Call) : Admits enc b call := by
  rcases tryAdd_cases enc b call.text call.minTokens with
    hdrop | ⟨-, hwhole⟩ | ⟨cut, rfl, htext, hpos, hlt, hlong, hcut⟩
  · constructor
    · intro _
      rw [hdrop]
    · intro s hs
      rw [hdrop] at hs
      cases hs
  · constructor
    · intro hnone
      rw [hwhole] at hnone
      cases hnone
    · intro s hs
      rw [hwhole] at hs
      exact .inl (Option.some.inj hs).symm
  · constructor
    · intro hnone
      rw [hcut] at hnone
      cases hnone
    · intro s hs
      rw [hcut] at hs
      rw [← Option.some.inj hs]
      exact .inr ⟨hcuts _ _ htext hpos hlt, hlong⟩

/-- A call takes what it admits out of the budget, and not more than is there. -/
theorem tryAdd_spent (hfits : Fits enc) (h : 0 ≤ b.remaining) (text : PyText) (minTokens : ℤ) :
    0 ≤ (tryAdd enc b text minTokens).2.remaining ∧
      (countAll enc (tryAdd enc b text minTokens).1.toList : ℤ) +
        (tryAdd enc b text minTokens).2.remaining = b.remaining := by
  rcases tryAdd_cases enc b text minTokens with
    hdrop | ⟨hle, hwhole⟩ | ⟨cut, rfl, htext, hpos, hlt, -, hcut⟩
  · rw [hdrop]
    exact ⟨h, by simp [countAll]⟩
  · rw [hwhole]
    refine ⟨sub_nonneg.mpr hle, ?_⟩
    simp [countAll]
  · rw [hcut]
    refine ⟨sub_nonneg.mpr (hfits text b.remaining htext hpos hlt), ?_⟩
    simp [countAll]

/-! ### All calls -/

theorem tryAddAll_spent (hfits : Fits enc) (h : 0 ≤ b.remaining) (calls : List Call) :
    0 ≤ (tryAddAll enc b calls).2.remaining ∧
      (countAll enc (tryAddAll enc b calls).1 : ℤ) + (tryAddAll enc b calls).2.remaining =
        b.remaining := by
  induction calls generalizing b with
  | nil => exact ⟨h, by simp [tryAddAll, countAll]⟩
  | cons call calls ih =>
    obtain ⟨hstep, hspent⟩ := tryAdd_spent hfits h call.text call.minTokens
    obtain ⟨hlast, hrest⟩ := ih hstep
    refine ⟨hlast, ?_⟩
    have hsum : countAll enc (tryAddAll enc b (call :: calls)).1 =
        countAll enc (tryAdd enc b call.text call.minTokens).1.toList +
          countAll enc (tryAddAll enc (tryAdd enc b call.text call.minTokens).2 calls).1 := by
      simp only [tryAddAll, countAll, List.map_append, List.sum_append]
    rw [hsum, ← hspent, ← hrest]
    change _ + (tryAddAll enc (tryAdd enc b call.text call.minTokens).2 calls).2.remaining = _
    push_cast
    ring

theorem kept_of_fits (hfits : Fits enc) (hcuts : Cuts enc) (total : ℤ) : Kept enc total := by
  have hstart : 0 ≤ (newBudget total).remaining := le_max_left 0 total
  refine ⟨fun calls _ => (tryAddAll_spent hfits hstart calls).1, fun calls _ => ?_,
    fun calls call _ => admits hcuts call⟩
  obtain ⟨hlast, hspent⟩ := tryAddAll_spent hfits hstart calls
  change _ = max 0 total at hspent
  omega

/-- A text that is longer than what remains shows whether its cut fits. -/
theorem fits_of_kept (h : ∀ total, Kept enc total) : Fits enc := by
  intro text limit htext hpos hlt
  have hremaining := (h limit).remaining [⟨text, 0⟩] (by simp)
  have hstart : (newBudget limit).remaining = limit := max_eq_right hpos.le
  change 0 ≤ (tryAdd enc (newBudget limit) text 0).2.remaining at hremaining
  rw [tryAdd_cut htext (by rwa [hstart]) (by rwa [hstart]), hstart] at hremaining
  exact sub_nonneg.mp hremaining

/-! ### A tokenizer that reads back -/

section
variable {t : Tokenizer Token} (h : t.ReadsBack)
include h

theorem encode_eq (s : PyText) : t.encode s = some (t.tokens s) := by
  obtain ⟨tokens, hencode, -⟩ := h s
  rw [Tokenizer.tokens, hencode]
  rfl

theorem encodeText_eq (s : PyText) :
    encodeText (some t) s = ((t.tokens s).length, some (t.tokens s)) := by
  rw [encodeText, Option.bind_some, encode_eq h]

theorem truncate_eq {s : PyText} {limit : ℤ} (hpos : 0 < limit)
    (hlt : limit < countTokens (some t) s) :
    truncateToTokenLimit (some t) s limit (encodeText (some t) s).2 =
      if limit ≤ (t.tokens [ellipsis]).length then [ellipsis]
      else t.decode ((t.tokens s).take (limit - (t.tokens [ellipsis]).length).toNat) ++
        [ellipsis] := by
  rw [countTokens, encodeText_eq h] at hlt
  have hcut : truncateTokens (some t) s limit (encodeText (some t) s).2 =
      some (if limit ≤ (t.tokens [ellipsis]).length then [ellipsis]
        else t.decode ((t.tokens s).take (limit - (t.tokens [ellipsis]).length).toNat) ++
          [ellipsis]) := by
    rw [encodeText_eq h]
    simp only [truncateTokens, bind, Option.bind_some, Option.orElse, encode_eq h [ellipsis],
      if_neg (not_le.mpr hlt), pure, sub_nonpos]
    split_ifs
    · rfl
    · rfl
  rw [truncateToTokenLimit, if_neg (not_le.mpr hpos), hcut]

theorem cuts_of_readsBack : Cuts (some t) := by
  intro s limit _ hpos hlt
  rw [truncate_eq h hpos hlt]
  split_ifs
  · exact ⟨[], rfl⟩
  · exact ⟨_, rfl⟩

theorem fits_iff_keepsCuts : Fits (some t) ↔ t.KeepsCuts := by
  have hcount : ∀ s, countTokens (some t) s = (t.tokens s).length := by
    intro s
    rw [countTokens, encodeText_eq h]
  constructor
  · intro hfits
    have hellipsis : (t.tokens [ellipsis]).length ≤ 1 := by
      by_contra hlong
      rw [not_le] at hlong
      have hlt : (1 : ℤ) < countTokens (some t) [ellipsis] := by
        rw [hcount]
        exact_mod_cast hlong
      have hcut := hfits [ellipsis] 1 (List.cons_ne_nil _ _) one_pos hlt
      rw [truncate_eq h one_pos hlt, if_pos (by exact_mod_cast hlong.le), hcount] at hcut
      omega
    refine ⟨hellipsis, fun s k hs hk hlt => ?_⟩
    have hlimit : (0 : ℤ) < (k + (t.tokens [ellipsis]).length : ℕ) := by
      exact_mod_cast Nat.add_pos_left hk _
    have hlong : ((k + (t.tokens [ellipsis]).length : ℕ) : ℤ) < countTokens (some t) s := by
      rw [hcount]
      exact_mod_cast hlt
    have hcut := hfits s _ hs hlimit hlong
    have hleft : ((k + (t.tokens [ellipsis]).length : ℕ) - (t.tokens [ellipsis]).length : ℤ).toNat =
        k := by
      push_cast
      rw [add_sub_cancel_right, Int.toNat_natCast]
    rw [truncate_eq h hlimit hlong, if_neg (by push_cast; omega), hleft, hcount] at hcut
    exact_mod_cast hcut
  · intro hkeeps s limit hs hpos hlt
    rw [truncate_eq h hpos hlt]
    rw [hcount] at hlt
    split_ifs with hshort
    · have hellipsis := hkeeps.ellipsis
      rw [hcount]
      omega
    · have hcut := hkeeps.cut s (limit - (t.tokens [ellipsis]).length).toNat hs (by omega)
        (by omega)
      rw [hcount]
      omega

end

/-! ### Without a tokenizer -/

theorem truncate_none {s : PyText} {limit : ℤ} (hpos : 0 < limit)
    (hlt : limit < countTokens (none : Option (Tokenizer Token)) s) :
    truncateToTokenLimit (none : Option (Tokenizer Token)) s limit
      (encodeText (none : Option (Tokenizer Token)) s).2 =
      if limit ≤ 1 then [ellipsis] else s.take ((limit - 1) * 4).toNat ++ [ellipsis] := by
  change limit < ((s.length / 4 : ℕ) : ℤ) at hlt
  rw [truncateToTokenLimit, if_neg (not_le.mpr hpos)]
  change (if ((s.length / 4 : ℕ) : ℤ) ≤ limit then s else if limit - 1 ≤ 0 then [ellipsis]
    else s.take ((limit - 1) * 4).toNat ++ [ellipsis]) = _
  rw [if_neg (not_le.mpr hlt)]
  simp only [sub_nonpos]

theorem fits_none : Fits (none : Option (Tokenizer Token)) := by
  intro s limit _ hpos hlt
  rw [truncate_none hpos hlt]
  change limit < ((s.length / 4 : ℕ) : ℤ) at hlt
  have hcount : ∀ s, countTokens (none : Option (Tokenizer Token)) s = s.length / 4 := fun _ => rfl
  split_ifs with hone
  · rw [hcount]
    exact hpos.le
  · rw [hcount, List.length_append, List.length_take, List.length_singleton]
    omega

theorem cuts_none : Cuts (none : Option (Tokenizer Token)) := by
  intro s limit _ hpos hlt
  rw [truncate_none hpos hlt]
  split_ifs
  · exact ⟨[], rfl⟩
  · exact ⟨_, rfl⟩

/-- With a tokenizer that reads back, the budget is kept in every run exactly where the tokenizer
keeps cuts, and without a tokenizer it is kept. -/
theorem memoryBudget_kept :
    (∀ t : Tokenizer Token, t.ReadsBack → ((∀ total, Kept (some t) total) ↔ t.KeepsCuts)) ∧
      ∀ total, Kept (none : Option (Tokenizer Token)) total := by
  refine ⟨fun t h => ⟨fun hkept => ?_, fun hkeeps total => ?_⟩, fun total => ?_⟩
  · exact (fits_iff_keepsCuts h).mp (fits_of_kept hkept)
  · exact kept_of_fits ((fits_iff_keepsCuts h).mpr hkeeps) (cuts_of_readsBack h) total
  · exact kept_of_fits fits_none cuts_none total

/-- A token for each character. -/
def characters : Tokenizer (Fin 0x110000) := ⟨some, id⟩

theorem characters_readsBack : characters.ReadsBack := fun s => ⟨s, rfl, rfl⟩

theorem characters_keepsCuts : characters.KeepsCuts := by
  refine ⟨le_rfl, fun s k _ _ _ => ?_⟩
  change (s.take k ++ [ellipsis]).length ≤ k + 1
  rw [List.length_append, List.length_take, List.length_singleton]
  omega

theorem memoryBudget_kept_characters : Kept (some characters) 10 :=
  ((@memoryBudget_kept (Fin 0x110000)).1 characters characters_readsBack).mpr
    characters_keepsCuts 10

/-- Two tokens for each character. One of them alone is read as a replacement character. -/
def halves : Tokenizer ℕ where
  encode s := some (s.flatMap fun c => [c.val / 2048, c.val % 2048])
  decode := readHalves
where
  readHalves : List ℕ → PyText
    | [] => []
    | [_] => [0xFFFD]
    | high :: low :: tokens => Fin.ofNat 0x110000 (high * 2048 + low) :: readHalves tokens

theorem halves_readsBack : halves.ReadsBack := by
  intro s
  refine ⟨_, rfl, ?_⟩
  change halves.readHalves (s.flatMap fun c => [c.val / 2048, c.val % 2048]) = s
  induction s with
  | nil => rfl
  | cons c s ih =>
    have hc : Fin.ofNat 0x110000 (c.val / 2048 * 2048 + c.val % 2048) = c := by
      rw [Nat.div_add_mod', Fin.ofNat_val_eq_self]
    change Fin.ofNat 0x110000 (c.val / 2048 * 2048 + c.val % 2048) ::
      halves.readHalves (s.flatMap fun c => [c.val / 2048, c.val % 2048]) = c :: s
    rw [hc, ih]

/-- The third of the tokens that are left is half of a character, and costs two when it is
counted again. -/
theorem memoryBudget_overspent : halves.ReadsBack ∧
    (tryAddAll (some halves) (newBudget 5) [⟨[97, 98, 99, 100], 1⟩]).2.remaining = -1 ∧
    ¬Kept (some halves) 5 := by
  have hspent : (tryAddAll (some halves) (newBudget 5) [⟨[97, 98, 99, 100], 1⟩]).2.remaining =
      -1 := by decide
  refine ⟨halves_readsBack, hspent, fun h => ?_⟩
  have hremaining := h.remaining [⟨[97, 98, 99, 100], 1⟩] (by simp)
  rw [hspent] at hremaining
  exact absurd hremaining (by decide)

end Persatrix.Memory
