import Mathlib.Data.List.Basic
import Mathlib.Data.List.Infix

/-!
# Regular expressions, leftmost-first matching and replacement

`Matches r u rest` says that `u`, followed by `rest`, is matched by `r`. The matcher
tries the alternatives in order and passes what is left of the text to a continuation;
it finds a match of a text's beginning exactly when there is one. `replaceAll` replaces
the leftmost matches, one after the other.

A replacement text that is enclosed in characters which no match contains cannot be part
of a new match. So one pass over each of several expressions leaves no match of any of
them, in whatever order they are applied.
-/
namespace Persatrix

inductive Regex (α : Type) where
  | cls (p : α → Bool)
  | empty
  | endOfText
  | seq (a b : Regex α)
  | alt (a b : Regex α)
  | star (greedy : Bool) (a : Regex α)

namespace Regex
variable {α β : Type}

inductive Matches : Regex α → List α → List α → Prop
  | cls {p : α → Bool} {c : α} {rest : List α} : p c = true → Matches (.cls p) [c] rest
  | empty {rest : List α} : Matches .empty [] rest
  | endOfText : Matches .endOfText [] []
  | seq {a b : Regex α} {u v rest : List α} :
      Matches a u (v ++ rest) → Matches b v rest → Matches (.seq a b) (u ++ v) rest
  | left {a b : Regex α} {u rest : List α} : Matches a u rest → Matches (.alt a b) u rest
  | right {a b : Regex α} {u rest : List α} : Matches b u rest → Matches (.alt a b) u rest
  | stop {greedy : Bool} {a : Regex α} {rest : List α} : Matches (.star greedy a) [] rest
  | more {greedy : Bool} {a : Regex α} {u v rest : List α} : u ≠ [] →
      Matches a u (v ++ rest) → Matches (.star greedy a) v rest →
      Matches (.star greedy a) (u ++ v) rest

/-- Repeats a matcher, for at most the given number of turns. -/
def runStar (m : List α → (List α → Option β) → Option β) (greedy : Bool) :
    ℕ → List α → (List α → Option β) → Option β
  | 0, s, k => k s
  | turns + 1, s, k =>
    let again := fun _ : Unit =>
      m s fun t => if t.length < s.length then runStar m greedy turns t k else none
    if greedy then (again ()).or (k s) else (k s).or (again ())

/-- Tries the ways to match a beginning of the text in order, and returns what the
continuation makes of the first rest that it accepts. -/
def run : Regex α → List α → (List α → Option β) → Option β
  | .cls p, s, k =>
    match s with
    | [] => none
    | c :: t => if p c then k t else none
  | .empty, s, k => k s
  | .endOfText, s, k => if s.isEmpty then k s else none
  | .seq a b, s, k => a.run s fun t => b.run t k
  | .alt a b, s, k => (a.run s k).or (b.run s k)
  | .star greedy a, s, k => runStar a.run greedy s.length s k

theorem runStar_sound {a : Regex α} {greedy : Bool}
    (ha : ∀ s (k : List α → Option β) x, a.run s k = some x →
      ∃ u rest, s = u ++ rest ∧ Matches a u rest ∧ k rest = some x)
    (turns : ℕ) (s : List α) (k : List α → Option β) (x : β)
    (h : runStar a.run greedy turns s k = some x) :
    ∃ u rest, s = u ++ rest ∧ Matches (.star greedy a) u rest ∧ k rest = some x := by
  induction turns generalizing s with
  | zero => exact ⟨[], s, rfl, .stop, h⟩
  | succ turns ih =>
    have hagain : (a.run s fun t =>
          if t.length < s.length then runStar a.run greedy turns t k else none) = some x →
        ∃ u rest, s = u ++ rest ∧ Matches (.star greedy a) u rest ∧ k rest = some x := by
      intro hrun
      obtain ⟨u, t, hs, hu, ht⟩ := ha _ _ _ hrun
      split_ifs at ht with hlt
      obtain ⟨v, rest, hrest, hv, hx⟩ := ih t ht
      refine ⟨u ++ v, rest, by rw [hs, hrest, List.append_assoc], ?_, hx⟩
      apply Matches.more _ (by rw [← hrest]; exact hu) hv
      intro hnil
      rw [hs, hnil, List.nil_append] at hlt
      exact Nat.lt_irrefl _ hlt
    rw [runStar] at h
    dsimp only at h
    split_ifs at h
    · rcases Option.or_eq_some_iff.mp h with hrun | ⟨-, hstop⟩
      · exact hagain hrun
      · exact ⟨[], s, rfl, .stop, hstop⟩
    · rcases Option.or_eq_some_iff.mp h with hstop | ⟨-, hrun⟩
      · exact ⟨[], s, rfl, .stop, hstop⟩
      · exact hagain hrun

theorem run_sound (r : Regex α) (s : List α) (k : List α → Option β) (x : β)
    (h : r.run s k = some x) : ∃ u rest, s = u ++ rest ∧ Matches r u rest ∧ k rest = some x := by
  induction r generalizing s k x with
  | cls p =>
    cases s with
    | nil => cases h
    | cons c t =>
      rw [run] at h
      split_ifs at h with hc
      exact ⟨[c], t, rfl, .cls hc, h⟩
  | empty => exact ⟨[], s, rfl, .empty, h⟩
  | endOfText =>
    rw [run] at h
    split_ifs at h with hend
    rw [List.isEmpty_iff.mp hend] at h ⊢
    exact ⟨[], [], rfl, .endOfText, h⟩
  | seq a b iha ihb =>
    obtain ⟨u, t, hs, hu, ht⟩ := iha _ _ _ h
    obtain ⟨v, rest, hrest, hv, hx⟩ := ihb _ _ _ ht
    refine ⟨u ++ v, rest, by rw [hs, hrest, List.append_assoc], ?_, hx⟩
    exact .seq (by rw [← hrest]; exact hu) hv
  | alt a b iha ihb =>
    rcases Option.or_eq_some_iff.mp h with hleft | ⟨-, hright⟩
    · obtain ⟨u, rest, hs, hu, hx⟩ := iha _ _ _ hleft
      exact ⟨u, rest, hs, .left hu, hx⟩
    · obtain ⟨u, rest, hs, hu, hx⟩ := ihb _ _ _ hright
      exact ⟨u, rest, hs, .right hu, hx⟩
  | star greedy a iha => exact runStar_sound iha _ s k x h

theorem runStar_complete {a : Regex α} {greedy : Bool}
    (ha : ∀ u rest (k : List α → Option β), Matches a u rest → (k rest).isSome →
      (a.run (u ++ rest) k).isSome)
    {turns : ℕ} {w rest : List α} (hturns : w.length ≤ turns)
    (h : Matches (.star greedy a) w rest) {k : List α → Option β} (hk : (k rest).isSome) :
    (runStar a.run greedy turns (w ++ rest) k).isSome := by
  induction turns generalizing w with
  | zero =>
    rw [List.eq_nil_of_length_eq_zero (Nat.le_zero.mp hturns)]
    exact hk
  | succ turns ih =>
    rw [runStar]
    dsimp only
    generalize hw : w = whole at *
    generalize hstar : Regex.star greedy a = r at *
    cases h with
    | stop =>
      rw [List.nil_append]
      split_ifs
      · rw [Option.isSome_or, hk, Bool.or_true]
      · rw [Option.isSome_or, hk, Bool.true_or]
    | @more _ _ u v _ hne hu hv =>
      cases hstar
      have hlength : v.length < (u ++ v).length := by
        rw [List.length_append]
        have hpos := List.length_pos_iff.mpr hne
        omega
      have hagain : (a.run (u ++ v ++ rest) fun t =>
          if t.length < (u ++ v ++ rest).length then
            runStar a.run greedy turns t k else none).isSome := by
        rw [List.append_assoc]
        apply ha u (v ++ rest) _ hu
        rw [if_pos (by simp only [List.length_append] at hlength ⊢; omega)]
        exact ih (by omega) hv
      split_ifs
      · rw [Option.isSome_or, hagain, Bool.true_or]
      · rw [Option.isSome_or, hagain, Bool.or_true]
    | cls => cases hstar
    | empty => cases hstar
    | endOfText => cases hstar
    | seq => cases hstar
    | left => cases hstar
    | right => cases hstar

theorem run_complete {r : Regex α} {u rest : List α} (h : Matches r u rest)
    {k : List α → Option β} (hk : (k rest).isSome) : (r.run (u ++ rest) k).isSome := by
  induction r generalizing u rest k with
  | cls p =>
    cases h with
    | cls hc =>
      rw [List.singleton_append, run]
      rwa [if_pos hc]
  | empty =>
    cases h
    exact hk
  | endOfText =>
    cases h
    exact hk
  | seq a b iha ihb =>
    cases h with
    | seq ha hb =>
      rw [List.append_assoc, run]
      exact iha ha (ihb hb hk)
  | alt a b iha ihb =>
    rw [run, Option.isSome_or]
    cases h with
    | left ha => rw [iha ha hk, Bool.true_or]
    | right hb => rw [ihb hb hk, Bool.or_true]
  | star greedy a iha =>
    rw [run]
    exact runStar_complete (fun u rest k hu hx => iha hu hx) (by simp) h hk

/-- Whether the empty text may be matched. -/
def nullable : Regex α → Bool
  | .cls _ => false
  | .empty => true
  | .endOfText => true
  | .seq a b => a.nullable && b.nullable
  | .alt a b => a.nullable || b.nullable
  | .star _ _ => true

theorem Matches.ne_nil {r : Regex α} {u rest : List α} (h : Matches r u rest)
    (hr : r.nullable = false) : u ≠ [] := by
  induction h with
  | cls _ => simp
  | empty => cases hr
  | endOfText => cases hr
  | seq _ _ iha ihb =>
    rcases Bool.and_eq_false_iff.mp hr with ha | hb
    · exact List.append_ne_nil_of_left_ne_nil (iha ha) _
    · exact List.append_ne_nil_of_right_ne_nil _ (ihb hb)
  | left _ ih => exact ih (Bool.or_eq_false_iff.mp hr).1
  | right _ ih => exact ih (Bool.or_eq_false_iff.mp hr).2
  | stop => cases hr
  | more => cases hr

/-- As many copies as given. -/
def repeated (r : Regex α) : ℕ → Regex α
  | 0 => .empty
  | n + 1 => .seq r (r.repeated n)

/-- At least as many copies as given, and as many as there are. -/
def atLeast (r : Regex α) (n : ℕ) : Regex α := .seq (r.repeated n) (.star true r)

def optional (r : Regex α) : Regex α := .alt r .empty

/-- A part of the text is matched. -/
def Contains (r : Regex α) (s : List α) : Prop :=
  ∃ before u rest, s = before ++ (u ++ rest) ∧ Matches r u rest

/-- No match contains a bad character or depends on what follows it. -/
def Avoids (bad : α → Prop) : Regex α → Prop
  | .cls p => ∀ c, p c = true → ¬ bad c
  | .empty => True
  | .endOfText => False
  | .seq a b => a.Avoids bad ∧ b.Avoids bad
  | .alt a b => a.Avoids bad ∧ b.Avoids bad
  | .star _ a => a.Avoids bad

/-- Decides whether no match contains a character of a list or depends on what follows. -/
def avoids (bad : List α) : Regex α → Bool
  | .cls p => bad.all fun c => !p c
  | .empty => true
  | .endOfText => false
  | .seq a b => a.avoids bad && b.avoids bad
  | .alt a b => a.avoids bad && b.avoids bad
  | .star _ a => a.avoids bad

theorem avoids_sound {bad : List α} {r : Regex α} (h : r.avoids bad = true) :
    r.Avoids fun c => c ∈ bad := by
  induction r with
  | cls p =>
    intro c hc hbad
    have hno := List.all_eq_true.mp h c hbad
    simp [hc] at hno
  | empty => trivial
  | endOfText => cases h
  | seq a b iha ihb =>
    obtain ⟨ha, hb⟩ := Bool.and_eq_true_iff.mp h
    exact ⟨iha ha, ihb hb⟩
  | alt a b iha ihb =>
    obtain ⟨ha, hb⟩ := Bool.and_eq_true_iff.mp h
    exact ⟨iha ha, ihb hb⟩
  | star greedy a iha => exact iha h

theorem Matches.of_avoids {bad : α → Prop} {r : Regex α} {u rest : List α} (h : Matches r u rest)
    (havoids : r.Avoids bad) : (∀ c ∈ u, ¬ bad c) ∧ ∀ rest', Matches r u rest' := by
  induction h with
  | cls hc =>
    refine ⟨?_, fun _ => .cls hc⟩
    intro c hmem
    rw [List.mem_singleton.mp hmem]
    exact havoids _ hc
  | empty => exact ⟨by simp, fun _ => .empty⟩
  | endOfText => cases havoids
  | seq _ _ iha ihb =>
    obtain ⟨hu, ha⟩ := iha havoids.1
    obtain ⟨hv, hb⟩ := ihb havoids.2
    refine ⟨?_, fun rest' => .seq (ha _) (hb rest')⟩
    intro c hmem
    rcases List.mem_append.mp hmem with hc | hc
    · exact hu c hc
    · exact hv c hc
  | left _ ih =>
    obtain ⟨hu, ha⟩ := ih havoids.1
    exact ⟨hu, fun rest' => .left (ha rest')⟩
  | right _ ih =>
    obtain ⟨hu, hb⟩ := ih havoids.2
    exact ⟨hu, fun rest' => .right (hb rest')⟩
  | stop => exact ⟨by simp, fun _ => .stop⟩
  | more hne _ _ iha ihv =>
    obtain ⟨hu, ha⟩ := iha havoids
    obtain ⟨hv, hb⟩ := ihv havoids
    refine ⟨?_, fun rest' => .more hne (ha _) (hb rest')⟩
    intro c hmem
    rcases List.mem_append.mp hmem with hc | hc
    · exact hu c hc
    · exact hv c hc

/-- Whether some part of the text is matched, by trying every position. -/
def search (r : Regex α) : List α → Bool
  | [] => (r.run [] some).isSome
  | c :: s => (r.run (c :: s) some).isSome || r.search s

theorem search_eq_true {r : Regex α} {s : List α} (h : r.Contains s) : r.search s = true := by
  obtain ⟨before, u, rest, rfl, hu⟩ := h
  have hfound : (r.run (u ++ rest) some).isSome := run_complete hu rfl
  induction before with
  | nil =>
    rw [List.nil_append]
    cases hs : u ++ rest with
    | nil =>
      rw [hs] at hfound
      exact hfound
    | cons c s =>
      rw [hs] at hfound
      rw [search, hfound, Bool.true_or]
  | cons c before ih => rw [List.cons_append, search, ih, Bool.or_true]

theorem contains_of_run {r : Regex α} {s : List α} (h : (r.run s some).isSome = true) :
    r.Contains s := by
  obtain ⟨x, hx⟩ := Option.isSome_iff_exists.mp h
  obtain ⟨u, rest, hs, hu, -⟩ := run_sound r s some x hx
  exact ⟨[], u, rest, hs, hu⟩

theorem contains_of_search {r : Regex α} {s : List α} (h : r.search s = true) : r.Contains s := by
  induction s with
  | nil => exact contains_of_run h
  | cons c s ih =>
    rw [search] at h
    rcases Bool.or_eq_true_iff.mp h with hhere | hlater
    · exact contains_of_run hhere
    · obtain ⟨before, u, rest, hs, hu⟩ := ih hlater
      exact ⟨c :: before, u, rest, by rw [hs, List.cons_append], hu⟩

end Regex

/-- An expression that matches no empty text, and the text its matches are replaced by. -/
structure Pattern (α : Type) where
  re : Regex α
  marker : List α
  nonempty : ∀ {u rest}, re.Matches u rest → u ≠ []

namespace Pattern
variable {α : Type}

/-- Replaces the leftmost matches, looking at no more than the given number of positions. -/
def replaceFrom (p : Pattern α) : ℕ → List α → List α
  | 0, s => s
  | _, [] => []
  | left + 1, c :: s =>
    match p.re.run (c :: s) some with
    | some rest => p.marker ++ p.replaceFrom left rest
    | none => c :: p.replaceFrom left s

def replaceAll (p : Pattern α) (s : List α) : List α := p.replaceFrom s.length s

/-- How a text is cut into matches and what is between them. -/
inductive Replaced (p : Pattern α) : List α → List α → Prop
  | done : Replaced p [] []
  | found {u rest out : List α} : p.re.Matches u rest → Replaced p rest out →
      Replaced p (u ++ rest) (p.marker ++ out)
  | kept {c : α} {s out : List α} : (∀ u rest, c :: s = u ++ rest → ¬ p.re.Matches u rest) →
      Replaced p s out → Replaced p (c :: s) (c :: out)

theorem replaced_replaceFrom (p : Pattern α) {left : ℕ} {s : List α} (h : s.length ≤ left) :
    Replaced p s (p.replaceFrom left s) := by
  induction left generalizing s with
  | zero =>
    rw [List.eq_nil_of_length_eq_zero (Nat.le_zero.mp h)]
    exact .done
  | succ left ih =>
    cases s with
    | nil => exact .done
    | cons c s =>
      rw [replaceFrom]
      cases hrun : p.re.run (c :: s) some with
      | some rest =>
        obtain ⟨u, rest', hs, hu, hrest⟩ := Regex.run_sound _ _ _ _ hrun
        cases hrest
        have hlength := congrArg List.length hs
        have hpos := List.length_pos_iff.mpr (p.nonempty hu)
        rw [List.length_append, List.length_cons] at hlength
        rw [List.length_cons] at h
        rw [hs]
        exact .found hu (ih (by omega))
      | none =>
        refine .kept ?_ (ih (Nat.le_of_succ_le_succ h))
        intro u rest hs hu
        have hfound : (p.re.run (u ++ rest) some).isSome := Regex.run_complete hu rfl
        rw [← hs, hrun] at hfound
        cases hfound

theorem replaced_replaceAll (p : Pattern α) (s : List α) : Replaced p s (p.replaceAll s) :=
  p.replaced_replaceFrom le_rfl

/-- Where nothing is matched, nothing is replaced. -/
theorem Replaced.eq_of_not_contains {p : Pattern α} {s out : List α} (h : Replaced p s out)
    (hnone : ¬p.re.Contains s) : out = s := by
  induction h with
  | done => rfl
  | @found u rest out hu _ _ => exact absurd ⟨[], u, rest, rfl, hu⟩ hnone
  | @kept c s out _ _ ih =>
    rw [ih]
    rintro ⟨before, u, rest, hs, hu⟩
    exact hnone ⟨c :: before, u, rest, by rw [hs, List.cons_append], hu⟩

end Pattern

section Scrub
variable {α : Type} {bad : α → Prop}

theorem prefix_of_bad {u x y : List α} {b : α} (hu : ∀ c ∈ u, ¬ bad c) (hb : bad b)
    (h : u <+: x ++ b :: y) : u <+: x := by
  rcases List.prefix_or_prefix_of_prefix h (List.prefix_append x (b :: y)) with hux | hxu
  · exact hux
  · obtain ⟨v, rfl⟩ := hxu
    rw [List.prefix_append_right_inj] at h
    cases v with
    | nil => simp
    | cons c v =>
      have hc := (List.cons_prefix_cons.mp h).1
      exact absurd hb (hu b (by simp [hc]))

/-- A part without bad characters is on one side of a bad character. -/
theorem infix_of_bad {u x y : List α} {b : α} (hu : ∀ c ∈ u, ¬ bad c) (hb : bad b)
    (h : u <:+: x ++ b :: y) : u <:+: x ∨ u <:+: y := by
  induction x with
  | nil =>
    rcases List.infix_cons_iff.mp h with hstart | hrest
    · exact .inl (prefix_of_bad hu hb hstart).isInfix
    · exact .inr hrest
  | cons a x ih =>
    rw [List.cons_append] at h
    rcases List.infix_cons_iff.mp h with hstart | hrest
    · exact .inl (prefix_of_bad hu hb hstart).isInfix
    · rcases ih hrest with hx | hy
      · exact .inl (List.infix_cons hx)
      · exact .inr hy

theorem Regex.contains_iff_infix {r : Regex α} (h : r.Avoids bad) {s : List α} :
    r.Contains s ↔ ∃ u, u <:+: s ∧ r.Matches u [] := by
  constructor
  · intro ⟨before, u, rest, hs, hu⟩
    refine ⟨u, ⟨before, rest, ?_⟩, (hu.of_avoids h).2 []⟩
    rw [hs, List.append_assoc]
  · intro ⟨u, ⟨before, rest, hs⟩, hu⟩
    refine ⟨before, u, rest, ?_, (hu.of_avoids h).2 rest⟩
    rw [← hs, List.append_assoc]

/-- An expression whose matches avoid the bad characters and tell where the matches of
`re` are. -/
structure Core (bad : α → Prop) (re core : Regex α) : Prop where
  avoids : core.Avoids bad
  nonempty : ∀ {u rest}, core.Matches u rest → u ≠ []
  starts : ∀ {u rest}, core.Matches u rest → ∃ v rest', u ++ rest = v ++ rest' ∧ re.Matches v rest'
  within : ∀ {s}, re.Contains s → core.Contains s

/-- A text between two bad characters. -/
def Enclosed (bad : α → Prop) (marker inner : List α) : Prop :=
  ∃ opening closing, bad opening ∧ bad closing ∧ marker = opening :: (inner ++ [closing])

namespace Pattern
variable {p : Pattern α} {inner s out : List α} {core : Regex α}

theorem Replaced.prefix_of_avoids (h : Replaced p s out) (hmarker : Enclosed bad p.marker inner)
    {u : List α} (hu : ∀ c ∈ u, ¬ bad c) (hpre : u <+: out) : u <+: s := by
  induction h generalizing u with
  | done => exact hpre
  | found _ _ _ =>
    obtain ⟨opening, closing, hopen, -, hm⟩ := hmarker
    rw [hm, List.cons_append] at hpre
    have hnil : u <+: [] := prefix_of_bad hu hopen hpre
    exact hnil.trans List.nil_prefix
  | kept _ _ ih =>
    cases u with
    | nil => exact List.nil_prefix
    | cons c u =>
      obtain ⟨rfl, htail⟩ := List.cons_prefix_cons.mp hpre
      exact List.cons_prefix_cons.mpr
        ⟨rfl, ih (fun d hd => hu d (List.mem_cons_of_mem _ hd)) htail⟩

theorem infix_marker (hmarker : Enclosed bad p.marker inner) {u : List α}
    (hu : ∀ c ∈ u, ¬ bad c) (h : u <:+: p.marker ++ out) : u <:+: inner ∨ u <:+: out := by
  obtain ⟨opening, closing, hopen, hclose, hm⟩ := hmarker
  rw [hm, List.cons_append, List.append_assoc, List.singleton_append] at h
  rcases infix_of_bad hu hopen (show u <:+: [] ++ _ from h) with hnil | hrest
  · exact .inr (hnil.trans List.nil_infix)
  · exact infix_of_bad hu hclose hrest

/-- Replacing matches of one expression creates no match of another. -/
theorem Replaced.contains (h : Replaced p s out) (hmarker : Enclosed bad p.marker inner)
    (hcore : core.Avoids bad) (hinner : ¬ core.Contains inner) (hout : core.Contains out) :
    core.Contains s := by
  rw [Regex.contains_iff_infix hcore] at hinner hout ⊢
  obtain ⟨u, hwithin, hu⟩ := hout
  have hclean := (hu.of_avoids hcore).1
  refine ⟨u, ?_, hu⟩
  induction h with
  | done => exact hwithin
  | @found v rest out _ _ ih =>
    rcases infix_marker hmarker hclean hwithin with hin | hrest
    · exact absurd ⟨u, hin, hu⟩ hinner
    · exact (ih hrest).trans (List.suffix_append v rest).isInfix
  | @kept c s out hno hreplaced ih =>
    rcases List.infix_cons_iff.mp hwithin with hstart | hrest
    · exact ((Replaced.kept hno hreplaced).prefix_of_avoids hmarker hclean hstart).isInfix
    · exact List.infix_cons (ih hrest)

/-- Replacing every match leaves none. -/
theorem Replaced.not_contains (h : Replaced p s out) (hmarker : Enclosed bad p.marker inner)
    (hcore : Core bad p.re core) (hinner : ¬ core.Contains inner) : ¬ core.Contains out := by
  rw [Regex.contains_iff_infix hcore.avoids] at hinner ⊢
  intro ⟨u, hwithin, hu⟩
  have hclean := (hu.of_avoids hcore.avoids).1
  induction h with
  | done =>
    have hnil := List.eq_nil_of_infix_nil hwithin
    exact hcore.nonempty hu hnil
  | found _ _ ih =>
    rcases infix_marker hmarker hclean hwithin with hin | hrest
    · exact hinner ⟨u, hin, hu⟩
    · exact ih hrest
  | @kept c s out hno hreplaced ih =>
    rcases List.infix_cons_iff.mp hwithin with hstart | hrest
    · obtain ⟨rest, hs⟩ :=
        (Replaced.kept hno hreplaced).prefix_of_avoids hmarker hclean hstart
      obtain ⟨v, rest', heq, hv⟩ := hcore.starts ((hu.of_avoids hcore.avoids).2 rest)
      exact hno v rest' (hs.symm.trans heq) hv
    · exact ih hrest

end Pattern

/-- The text after a pass with each of the patterns, in order. -/
def scrub (patterns : List (Pattern α)) (s : List α) : List α :=
  patterns.foldl (fun s p => p.replaceAll s) s

theorem scrub_of_not_contains {patterns : List (Pattern α)} {s : List α}
    (h : ∀ p ∈ patterns, ¬p.re.Contains s) : scrub patterns s = s := by
  induction patterns with
  | nil => rfl
  | cons p patterns ih =>
    have hp := (p.replaced_replaceAll s).eq_of_not_contains (h p List.mem_cons_self)
    have hcons : scrub (p :: patterns) s = scrub patterns (p.replaceAll s) := rfl
    rw [hcons, hp]
    exact ih fun q hq => h q (List.mem_cons_of_mem p hq)

/-- When no marker holds a match of any of the patterns, nothing matched is left. -/
theorem scrub_clean {patterns : List (Pattern α)} (core : Pattern α → Regex α)
    (inner : Pattern α → List α) (hcore : ∀ p ∈ patterns, Core bad p.re (core p))
    (hmarker : ∀ p ∈ patterns, Enclosed bad p.marker (inner p))
    (hinner : ∀ p ∈ patterns, ∀ q ∈ patterns, ¬ (core q).Contains (inner p)) (s : List α) :
    ∀ p ∈ patterns, ¬ p.re.Contains (scrub patterns s) := by
  have hall : ∀ passed rest s, patterns = passed ++ rest →
      (∀ q ∈ passed, ¬ (core q).Contains s) →
      ∀ q ∈ patterns, ¬ (core q).Contains (scrub rest s) := by
    intro passed rest
    induction rest generalizing passed with
    | nil =>
      intro s heq hpassed q hq
      rw [heq, List.append_nil] at hq
      exact hpassed q hq
    | cons p rest ih =>
      intro s heq hpassed
      have hp : p ∈ patterns := by simp [heq]
      have hreplaced := p.replaced_replaceAll s
      apply ih (passed ++ [p]) (p.replaceAll s) (by rw [heq, List.append_assoc]; rfl)
      intro q hq
      rcases List.mem_append.mp hq with hold | hnew
      · have hq' : q ∈ patterns := by simp [heq, hold]
        intro hcontains
        exact hpassed q hold (hreplaced.contains (hmarker p hp) (hcore q hq').avoids
          (hinner p hp q hq') hcontains)
      · rw [List.mem_singleton.mp hnew]
        exact hreplaced.not_contains (hmarker p hp) (hcore p hp) (hinner p hp p hp)
  intro p hp hcontains
  exact hall [] patterns s rfl (by simp) p hp ((hcore p hp).within hcontains)

end Scrub
end Persatrix
