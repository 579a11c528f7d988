import Persatrix.PythonText

/-!
# Tags and their escape

A tag is an opening bracket, blanks, perhaps a slash, blanks, a name whose characters are given by
classes, the end of a word, and everything up to the first closing bracket. The escape puts a
backslash behind the opening bracket of each match. What it leaves in a text, whatever follows the
text, is decided by the text alone: no tag is left exactly where each one is closed in time.
-/
namespace Persatrix.Tags
open PyJson

def slash : Fin 0x110000 := 47
def openAngle : Fin 0x110000 := 60
def closeAngle : Fin 0x110000 := 62
def backslash : Fin 0x110000 := 92

/-- The classes of the characters of a name, and what `\w` matches. -/
structure TagPattern where
  name : List (Fin 0x110000 → Bool)
  isWord : Fin 0x110000 → Bool

namespace TagPattern
variable (p : TagPattern)

/-- A character that is in no name and ends a word. -/
def Plain (c : Fin 0x110000) : Prop := p.isWord c = false ∧ ∀ f ∈ p.name, f c = false

/-- The brackets and the backslash are plain, and a name is not empty. -/
structure Proper : Prop where
  name : p.name ≠ []
  openAngle : p.Plain openAngle
  closeAngle : p.Plain closeAngle
  backslash : p.Plain backslash

/-! ### Matches -/

def dropBlanks (s : PyText) : PyText := s.dropWhile isWhitespace

def dropSlash (s : PyText) : PyText := if s.head? = some slash then s.tail else s

def matchName : List (Fin 0x110000 → Bool) → PyText → Option PyText
  | [], s => some s
  | _ :: _, [] => none
  | f :: fs, c :: s => if f c then matchName fs s else none

/-- `<\s*/?\s*name\b`: what follows. No class of it has a character that the next one begins with. -/
def afterName : PyText → Option PyText
  | [] => none
  | c :: s =>
    if c = openAngle then
      (matchName p.name (dropBlanks (dropSlash (dropBlanks s)))).filter
        fun rest => rest.head?.all (!p.isWord ·)
    else none

/-- `[^>]*>` after it: what follows the tag. -/
def matchTag (s : PyText) : Option PyText :=
  (p.afterName s).bind fun s => (s.dropWhile (· ≠ closeAngle)).tail?

/-- A character that is in no tag, or a tag. -/
inductive Part where
  | plain (c : Fin 0x110000)
  | tag (text : PyText)
deriving DecidableEq

def scanUpTo : ℕ → PyText → List Part
  | 0, _ => []
  | _ + 1, [] => []
  | n + 1, c :: s =>
    match p.matchTag (c :: s) with
    | some rest => .tag ((c :: s).take ((c :: s).length - rest.length)) :: scanUpTo n rest
    | none => .plain c :: scanUpTo n s

/-- The leftmost matches of the pattern, one after the other. -/
def scan (s : PyText) : List Part := p.scanUpTo s.length s

/-- `finditer`: where each tag begins, and the tag. -/
def tagsFrom : ℕ → List Part → List (ℕ × PyText)
  | _, [] => []
  | i, .plain _ :: parts => tagsFrom (i + 1) parts
  | i, .tag text :: parts => (i, text) :: tagsFrom (i + text.length) parts

def tags (s : PyText) : List (ℕ × PyText) := tagsFrom 0 (p.scan s)

/-! ### The escape -/

def Part.escaped : Part → PyText
  | .plain c => [c]
  | .tag text => openAngle :: backslash :: text.tail

/-- `sub` that puts a backslash behind the bracket. -/
def escapeTags (s : PyText) : PyText := (p.scan s).flatMap Part.escaped

def opens (s : PyText) : Bool := (p.afterName s).isSome

def noTag : PyText → Bool
  | [] => true
  | c :: s => !p.opens (c :: s) && noTag s

/-- Each tag that is opened is closed before the text ends and before another one is opened. -/
def closedTags : PyText → Bool
  | [] => true
  | c :: s =>
    (!p.opens (c :: s) || s.contains closeAngle && p.noTag (s.takeWhile (· ≠ closeAngle))) &&
      closedTags s

/-! ### What may follow a text -/

variable {p}

/-- What may follow a text without changing whether it opens a tag: it begins with a plain
character, and the first one of it that is no blank is neither a slash nor the beginning of the
name. -/
structure Tail (p : TagPattern) (t : PyText) : Prop where
  head : ∃ d s, t = d :: s ∧ p.Plain d
  next : ∃ e s, dropBlanks t = e :: s ∧ e ≠ slash ∧ ∀ f, p.name.head? = some f → f e = false

theorem Plain.tail {d : Fin 0x110000} (h : p.Plain d) (hblank : isWhitespace d = false)
    (hslash : d ≠ slash) (s : PyText) : Tail p (d :: s) where
  head := ⟨d, s, rfl, h⟩
  next := by
    refine ⟨d, s, ?_, hslash, fun f hf => h.2 f (List.mem_of_mem_head? hf)⟩
    rw [dropBlanks, List.dropWhile_cons_of_neg (by rw [hblank]; exact Bool.false_ne_true)]

theorem Proper.openTail (h : p.Proper) (s : PyText) : Tail p (Tags.openAngle :: s) :=
  h.openAngle.tail (by decide) (by decide) s

theorem Proper.closeTail (h : p.Proper) (s : PyText) : Tail p (Tags.closeAngle :: s) :=
  h.closeAngle.tail (by decide) (by decide) s

/-- The name is not continued by a plain character. -/
theorem matchName_append {fs : List (Fin 0x110000 → Bool)} {d : Fin 0x110000}
    (hd : ∀ f ∈ fs, f d = false) (s t : PyText) :
    matchName fs (s ++ d :: t) = (matchName fs s).map (· ++ d :: t) := by
  induction fs generalizing s with
  | nil => rfl
  | cons f fs ih =>
    cases s with
    | nil =>
      have hf : f d = false := hd f (List.mem_cons_self ..)
      simp [matchName, hf]
    | cons c s =>
      rw [List.cons_append, matchName, matchName]
      cases f c with
      | true => exact ih (fun g hg => hd g (List.mem_cons_of_mem _ hg)) s
      | false => rfl

/-- A text that does not begin as the name does has no name. -/
theorem matchName_ne {fs : List (Fin 0x110000 → Bool)} (hfs : fs ≠ []) {e : Fin 0x110000}
    (he : ∀ f, fs.head? = some f → f e = false) (s : PyText) : matchName fs (e :: s) = none := by
  cases fs with
  | nil => exact absurd rfl hfs
  | cons f fs =>
    rw [matchName, he f rfl]
    rfl

theorem matchName_nil {fs : List (Fin 0x110000 → Bool)} (hfs : fs ≠ []) :
    matchName fs [] = none := by
  cases fs with
  | nil => exact absurd rfl hfs
  | cons f fs => rfl

theorem dropBlanks_append_of_ne {s t : PyText} (h : dropBlanks s ≠ []) :
    dropBlanks (s ++ t) = dropBlanks s ++ t := by
  unfold dropBlanks at h ⊢
  rw [List.dropWhile_append, if_neg (by rw [List.isEmpty_iff]; exact h)]

theorem dropBlanks_append_of_eq {s t : PyText} (h : dropBlanks s = []) :
    dropBlanks (s ++ t) = dropBlanks t := by
  unfold dropBlanks at h ⊢
  rw [List.dropWhile_append, if_pos (by rw [List.isEmpty_iff]; exact h)]

/-- The name and its end. -/
def named (p : TagPattern) (s : PyText) : Bool :=
  (matchName p.name s).any fun rest => rest.head?.all (!p.isWord ·)

theorem named_append {d : Fin 0x110000} (hd : p.Plain d) (s t : PyText) :
    p.named (s ++ d :: t) = p.named s := by
  rw [named, named, matchName_append hd.2]
  cases matchName p.name s with
  | none => rfl
  | some rest =>
    cases rest with
    | nil => simp [hd.1]
    | cons c rest => rfl

theorem opens_cons (c : Fin 0x110000) (s : PyText) : p.opens (c :: s) =
    (decide (c = Tags.openAngle) && p.named (dropBlanks (dropSlash (dropBlanks s)))) := by
  unfold opens afterName named
  dsimp only
  by_cases hc : c = Tags.openAngle
  · rw [if_pos hc, Option.isSome_filter, decide_eq_true hc, Bool.true_and]
  · rw [if_neg hc, decide_eq_false hc]
    rfl

/-- Neither what is left of the tail nor nothing has a name. -/
theorem Tail.unnamed {t : PyText} (h : Tail p t) (hp : p.name ≠ []) :
    p.named (dropBlanks t) = false := by
  obtain ⟨e, s, he, _, hname⟩ := h.next
  rw [named, he, matchName_ne hp hname s]
  rfl

theorem named_nil (hp : p.name ≠ []) : p.named [] = false := by
  rw [named, matchName_nil hp]
  rfl

theorem Tail.opens {t : PyText} (h : Tail p t) (hp : p.name ≠ []) (c : Fin 0x110000) (s : PyText) :
    p.opens (c :: (s ++ t)) = p.opens (c :: s) := by
  rw [opens_cons, opens_cons]
  congr 1
  obtain ⟨e, u, he, hslash, _⟩ := h.next
  by_cases hs : dropBlanks s = []
  · have hdrop : dropBlanks (dropSlash (dropBlanks t)) = dropBlanks t := by
      rw [dropSlash, if_neg (by rw [he]; simpa using hslash)]
      exact List.dropWhile_idempotent ..
    rw [dropBlanks_append_of_eq hs, hdrop, h.unnamed hp, hs]
    exact (named_nil hp).symm
  · have hstep : dropSlash (dropBlanks s ++ t) = dropSlash (dropBlanks s) ++ t := by
      obtain ⟨a, b, hab⟩ := List.exists_cons_of_ne_nil hs
      unfold dropSlash
      rw [hab, List.cons_append, List.head?_cons, List.head?_cons, List.tail_cons, List.tail_cons]
      split_ifs <;> rfl
    rw [dropBlanks_append_of_ne hs, hstep]
    by_cases hs' : dropBlanks (dropSlash (dropBlanks s)) = []
    · rw [dropBlanks_append_of_eq hs', h.unnamed hp, hs', named_nil hp]
    · obtain ⟨d, t', rfl, hd⟩ := h.head
      rw [dropBlanks_append_of_ne hs', named_append hd]

theorem Tail.noTag {t : PyText} (h : Tail p t) (hp : p.name ≠ []) (s : PyText) :
    p.noTag (s ++ t) = (p.noTag s && p.noTag t) := by
  induction s with
  | nil => rfl
  | cons c s ih =>
    rw [List.cons_append, TagPattern.noTag, TagPattern.noTag, h.opens hp, ih, Bool.and_assoc]

theorem opens_of_ne {c : Fin 0x110000} (h : c ≠ Tags.openAngle) (s : PyText) :
    p.opens (c :: s) = false := by
  rw [opens_cons, decide_eq_false h, Bool.false_and]

/-- A tag that is escaped is none. -/
theorem Proper.opens_escaped (h : p.Proper) (s : PyText) :
    p.opens (Tags.openAngle :: Tags.backslash :: s) = false := by
  have hblank : dropBlanks (Tags.backslash :: s) = Tags.backslash :: s :=
    List.dropWhile_cons_of_neg (by decide)
  have hslash : dropSlash (Tags.backslash :: s) = Tags.backslash :: s := by
    rw [dropSlash, List.head?_cons, if_neg (by decide)]
  rw [opens_cons, hblank, hslash, hblank, named, matchName_ne h.name fun f hf =>
    h.backslash.2 f (List.mem_of_mem_head? hf)]
  rfl

/-! ### What a match is made of -/

theorem split_dropBlanks (s : PyText) :
    ∃ u, s = u ++ dropBlanks s ∧ Tags.closeAngle ∉ u := by
  refine ⟨s.takeWhile isWhitespace, List.takeWhile_append_dropWhile.symm, fun hmem => ?_⟩
  have hblank := List.all_eq_true.mp (List.all_takeWhile (p := isWhitespace) (l := s)) _ hmem
  exact absurd hblank (by decide)

theorem split_dropSlash (s : PyText) : ∃ u, s = u ++ dropSlash s ∧ Tags.closeAngle ∉ u := by
  unfold dropSlash
  by_cases hslash : s.head? = some slash
  · obtain ⟨s', rfl⟩ := List.head?_eq_some_iff.mp hslash
    rw [if_pos hslash]
    exact ⟨[slash], rfl, by decide⟩
  · rw [if_neg hslash]
    exact ⟨[], rfl, List.not_mem_nil⟩

theorem split_matchName {fs : List (Fin 0x110000 → Bool)} {d : Fin 0x110000}
    (hd : ∀ f ∈ fs, f d = false) {s rest : PyText} (h : matchName fs s = some rest) :
    ∃ u, s = u ++ rest ∧ d ∉ u := by
  induction fs generalizing s with
  | nil =>
    cases h
    exact ⟨[], rfl, List.not_mem_nil⟩
  | cons f fs ih =>
    cases s with
    | nil => cases h
    | cons c s =>
      rw [matchName] at h
      split_ifs at h with hf
      obtain ⟨u, hu, hdu⟩ := ih (fun g hg => hd g (List.mem_cons_of_mem _ hg)) h
      refine ⟨c :: u, by rw [hu, List.cons_append], ?_⟩
      rw [List.mem_cons, not_or]
      refine ⟨fun hdc => ?_, hdu⟩
      rw [← hdc, hd f (List.mem_cons_self ..)] at hf
      cases hf

/-- In front of what follows the name there is the bracket and none that closes. -/
theorem Proper.afterName_split (hp : p.Proper) {c : Fin 0x110000} {s rest : PyText}
    (h : p.afterName (c :: s) = some rest) :
    c = Tags.openAngle ∧ ∃ u, s = u ++ rest ∧ Tags.closeAngle ∉ u := by
  unfold afterName at h
  dsimp only at h
  split_ifs at h with hc
  obtain ⟨hname, _⟩ := Option.filter_eq_some_iff.mp h
  obtain ⟨t, ht, hopen⟩ := split_dropBlanks s
  obtain ⟨u, hu, hsep⟩ := split_dropSlash (dropBlanks s)
  obtain ⟨v, hv, hblank⟩ := split_dropBlanks (dropSlash (dropBlanks s))
  obtain ⟨x, hx, hclose⟩ := split_matchName hp.closeAngle.2 hname
  refine ⟨hc, t ++ (u ++ (v ++ x)), ?_, ?_⟩
  · rw [List.append_assoc, List.append_assoc, List.append_assoc, ← hx, ← hv, ← hu, ← ht]
  · simp only [List.mem_append, not_or]
    exact ⟨hopen, hsep, hblank, hclose⟩

theorem Proper.matchTag_some (hp : p.Proper) {c : Fin 0x110000} {s rest : PyText}
    (h : p.matchTag (c :: s) = some rest) :
    c = Tags.openAngle ∧ ∃ inner, s = inner ++ Tags.closeAngle :: rest ∧
      Tags.closeAngle ∉ inner := by
  obtain ⟨s', hname, hclose⟩ := Option.bind_eq_some_iff.mp h
  obtain ⟨hc, u, hu, hbefore⟩ := hp.afterName_split hname
  have hcons : ∃ d, s'.dropWhile (· ≠ Tags.closeAngle) = d :: rest := by
    cases hdrop : s'.dropWhile (· ≠ Tags.closeAngle) with
    | nil => rw [hdrop] at hclose; cases hclose
    | cons d l =>
      rw [hdrop] at hclose
      exact ⟨d, by rw [← Option.some.inj hclose]⟩
  obtain ⟨d, hd⟩ := hcons
  have hd' : d = Tags.closeAngle := by
    have hhead := List.head?_dropWhile_not (fun d => decide (d ≠ Tags.closeAngle)) s'
    rw [hd] at hhead
    simpa using hhead
  subst hd'
  refine ⟨hc, u ++ s'.takeWhile (· ≠ Tags.closeAngle), ?_, ?_⟩
  · rw [hu, List.append_assoc]
    congr 1
    rw [← hd]
    exact List.takeWhile_append_dropWhile.symm
  · rw [List.mem_append, not_or]
    refine ⟨hbefore, fun hmem => ?_⟩
    have hall := List.all_takeWhile (p := fun d => decide (d ≠ Tags.closeAngle)) (l := s')
    simpa using List.all_eq_true.mp hall _ hmem

/-- A tag that is opened is a match as soon as a bracket closes it. -/
theorem Proper.matchTag_none (hp : p.Proper) {c : Fin 0x110000} {s : PyText}
    (h : p.matchTag (c :: s) = none) (hopens : p.opens (c :: s) = true) :
    Tags.closeAngle ∉ s := by
  obtain ⟨rest, hrest⟩ := Option.isSome_iff_exists.mp hopens
  obtain ⟨-, u, rfl, hu⟩ := hp.afterName_split hrest
  rw [matchTag, hrest, Option.bind_some] at h
  rw [List.mem_append, not_or]
  refine ⟨hu, fun hmem => ?_⟩
  have hnil : rest.dropWhile (· ≠ Tags.closeAngle) = [] := by
    cases hdrop : rest.dropWhile (· ≠ Tags.closeAngle) with
    | nil => rfl
    | cons d l => rw [hdrop] at h; cases h
  rw [List.dropWhile_eq_nil_iff] at hnil
  simpa using hnil _ hmem

theorem opens_of_matchTag {s rest : PyText} (h : p.matchTag s = some rest) : p.opens s = true := by
  obtain ⟨s', hname, -⟩ := Option.bind_eq_some_iff.mp h
  exact Option.isSome_iff_exists.mpr ⟨s', hname⟩

theorem matchTag_eq_none {s : PyText} (h : p.opens s = false) : p.matchTag s = none := by
  rw [opens, Option.isSome_eq_false_iff, Option.isNone_iff_eq_none] at h
  rw [matchTag, h, Option.bind_none]

/-! ### The scan -/

theorem Proper.matchTag_length (hp : p.Proper) {s rest : PyText} (h : p.matchTag s = some rest) :
    rest.length < s.length := by
  cases s with
  | nil => cases h
  | cons c s =>
    obtain ⟨-, inner, rfl, -⟩ := hp.matchTag_some h
    simp only [List.length_cons, List.length_append]
    omega

theorem Proper.scanUpTo_eq (hp : p.Proper) {n m : ℕ} {s : PyText} (hn : s.length ≤ n)
    (hm : s.length ≤ m) : p.scanUpTo n s = p.scanUpTo m s := by
  induction n generalizing m s with
  | zero =>
    rw [List.length_eq_zero_iff.mp (Nat.le_zero.mp hn)]
    cases m <;> rfl
  | succ n ih =>
    cases s with
    | nil => cases m <;> rfl
    | cons c s =>
      cases m with
      | zero => cases hm
      | succ m =>
        rw [scanUpTo, scanUpTo]
        cases htag : p.matchTag (c :: s) with
        | none => exact congrArg _ (ih (Nat.le_of_succ_le_succ hn) (Nat.le_of_succ_le_succ hm))
        | some rest =>
          have hlt := hp.matchTag_length htag
          rw [List.length_cons] at hn hm hlt
          exact congrArg _ (ih (by omega) (by omega))

theorem scan_plain {c : Fin 0x110000} {s : PyText} (h : p.matchTag (c :: s) = none) :
    p.scan (c :: s) = .plain c :: p.scan s := by
  rw [scan, List.length_cons, scanUpTo, h]
  rfl

theorem Proper.scan_tag (hp : p.Proper) {inner rest : PyText}
    (h : p.matchTag (Tags.openAngle :: (inner ++ Tags.closeAngle :: rest)) = some rest) :
    p.scan (Tags.openAngle :: (inner ++ Tags.closeAngle :: rest)) =
      .tag (Tags.openAngle :: (inner ++ [Tags.closeAngle])) :: p.scan rest := by
  have htext : Tags.openAngle :: (inner ++ Tags.closeAngle :: rest) =
      (Tags.openAngle :: (inner ++ [Tags.closeAngle])) ++ rest := by
    rw [List.cons_append, List.append_assoc]
    rfl
  have htake : (Tags.openAngle :: (inner ++ Tags.closeAngle :: rest)).take
      ((Tags.openAngle :: (inner ++ Tags.closeAngle :: rest)).length - rest.length) =
      Tags.openAngle :: (inner ++ [Tags.closeAngle]) := by
    rw [htext, List.length_append, Nat.add_sub_cancel, List.take_left]
  have hshort : rest.length ≤ (inner ++ Tags.closeAngle :: rest).length := by
    simp only [List.length_append, List.length_cons]
    omega
  rw [scan, List.length_cons, scanUpTo, h]
  dsimp only
  rw [htake, hp.scanUpTo_eq hshort le_rfl]
  rfl

/-- Induction over what the scan reads. -/
theorem Proper.scan_induction (hp : p.Proper) {P : PyText → Prop} (nil : P [])
    (plain : ∀ c s, p.matchTag (c :: s) = none → P s → P (c :: s))
    (tag : ∀ inner rest, Tags.closeAngle ∉ inner →
      p.matchTag (Tags.openAngle :: (inner ++ Tags.closeAngle :: rest)) = some rest → P rest →
      P (Tags.openAngle :: (inner ++ Tags.closeAngle :: rest))) (s : PyText) : P s := by
  induction hlength : s.length using Nat.strong_induction_on generalizing s with
  | h n ih =>
    subst hlength
    cases s with
    | nil => exact nil
    | cons c s =>
      cases htag : p.matchTag (c :: s) with
      | none => exact plain c s htag (ih _ (Nat.lt_succ_self _) s rfl)
      | some rest =>
        have hlt := hp.matchTag_length htag
        obtain ⟨rfl, inner, rfl, hinner⟩ := hp.matchTag_some htag
        exact tag inner rest hinner htag (ih _ hlt rest rfl)

/-! ### What the escape leaves -/

theorem escapeTags_plain {c : Fin 0x110000} {s : PyText} (h : p.matchTag (c :: s) = none) :
    p.escapeTags (c :: s) = c :: p.escapeTags s := by
  rw [escapeTags, scan_plain h]
  rfl

theorem Proper.escapeTags_tag (hp : p.Proper) {inner rest : PyText}
    (h : p.matchTag (Tags.openAngle :: (inner ++ Tags.closeAngle :: rest)) = some rest) :
    p.escapeTags (Tags.openAngle :: (inner ++ Tags.closeAngle :: rest)) =
      Tags.openAngle :: Tags.backslash :: (inner ++ Tags.closeAngle :: p.escapeTags rest) := by
  rw [escapeTags, hp.scan_tag h, List.flatMap_cons]
  change Tags.openAngle :: Tags.backslash :: ((inner ++ [Tags.closeAngle]) ++ p.escapeTags rest) = _
  rw [List.append_assoc]
  rfl

/-- Up to the first bracket nothing is changed. -/
theorem Proper.escapeTags_shape (hp : p.Proper) (s : PyText) : p.escapeTags s = s ∨
    ∃ u r r', s = u ++ Tags.openAngle :: r ∧ p.escapeTags s = u ++ Tags.openAngle :: r' := by
  induction s using hp.scan_induction with
  | nil => exact .inl rfl
  | plain c s hnone ih =>
    rw [escapeTags_plain hnone]
    cases ih with
    | inl heq => exact .inl (by rw [heq])
    | inr hshape =>
      obtain ⟨u, r, r', hs, hr⟩ := hshape
      exact .inr ⟨c :: u, r, r', by rw [hs, List.cons_append], by rw [hr, List.cons_append]⟩
  | tag inner rest _ hsome _ =>
    rw [hp.escapeTags_tag hsome]
    exact .inr ⟨[], _, _, rfl, rfl⟩

theorem Proper.opens_escapeTags (hp : p.Proper) (c : Fin 0x110000) (s : PyText) :
    p.opens (c :: p.escapeTags s) = p.opens (c :: s) := by
  cases hp.escapeTags_shape s with
  | inl heq => rw [heq]
  | inr hshape =>
    obtain ⟨u, r, r', hs, hr⟩ := hshape
    rw [hr, hs, (hp.openTail r').opens hp.name, (hp.openTail r).opens hp.name]

theorem Proper.closedTags_append (hp : p.Proper) (rest : PyText) {inner : PyText}
    (h : p.noTag inner = true) :
    p.closedTags (inner ++ Tags.closeAngle :: rest) = p.closedTags rest := by
  induction inner with
  | nil =>
    rw [List.nil_append, closedTags, opens_of_ne (by decide)]
    rfl
  | cons c inner ih =>
    rw [TagPattern.noTag, Bool.and_eq_true, Bool.not_eq_true'] at h
    rw [List.cons_append, closedTags, (hp.closeTail rest).opens hp.name, h.1, ih h.2]
    rfl

/-- The escape leaves no tag that opens exactly where each tag is closed in time. -/
theorem Proper.noTag_escapeTags (hp : p.Proper) (s : PyText) :
    p.noTag (p.escapeTags s) = p.closedTags s := by
  induction s using hp.scan_induction with
  | nil => rfl
  | plain c s hnone ih =>
    rw [escapeTags_plain hnone, TagPattern.noTag, closedTags, hp.opens_escapeTags, ih]
    cases hopens : p.opens (c :: s) with
    | false => rfl
    | true =>
      have hclose : s.contains Tags.closeAngle = false := by
        rw [List.contains_eq_mem, decide_eq_false_iff_not]
        exact hp.matchTag_none hnone hopens
      rw [hclose]
      rfl
  | tag inner rest hinner hsome ih =>
    have hopens := opens_of_matchTag hsome
    have hcontains : (inner ++ Tags.closeAngle :: rest).contains Tags.closeAngle = true := by simp
    have htake : (inner ++ Tags.closeAngle :: rest).takeWhile (· ≠ Tags.closeAngle) = inner := by
      rw [List.takeWhile_append_of_pos]
      · simp
      · intro d hd
        apply decide_eq_true
        rintro rfl
        exact hinner hd
    rw [hp.escapeTags_tag hsome, TagPattern.noTag, hp.opens_escaped, TagPattern.noTag,
      opens_of_ne (by decide), (hp.closeTail _).noTag hp.name, TagPattern.noTag,
      opens_of_ne (by decide), ih, closedTags, hopens, hcontains, htake]
    cases hnone : p.noTag inner with
    | false => rfl
    | true =>
      rw [hp.closedTags_append rest hnone]
      rfl

/-! ### Tags of a text in front of another -/

theorem tagsFrom_noTag {t : PyText} (hp : p.name ≠ []) (ht : Tail p t) {s : PyText}
    (h : p.noTag s = true) (i : ℕ) :
    tagsFrom i (p.scan (s ++ t)) = tagsFrom (i + s.length) (p.scan t) := by
  induction s generalizing i with
  | nil => rfl
  | cons c s ih =>
    rw [TagPattern.noTag, Bool.and_eq_true, Bool.not_eq_true'] at h
    rw [List.cons_append, scan_plain (matchTag_eq_none ((ht.opens hp c s).trans h.1)), tagsFrom,
      ih h.2, List.length_cons, Nat.add_assoc, Nat.add_comm 1]

/-- A tag that opens in a text is matched, with what closes it behind the text. -/
theorem Proper.exists_tag (hp : p.Proper) {t : PyText} (ht : Tail p t)
    (hclose : Tags.closeAngle ∈ t) {s : PyText} (h : p.noTag s = false) (i : ℕ) :
    ∃ j text, j < s.length ∧ (i + j, text) ∈ tagsFrom i (p.scan (s ++ t)) := by
  induction s generalizing i with
  | nil => cases h
  | cons c s ih =>
    rw [TagPattern.noTag] at h
    rw [List.cons_append]
    cases htag : p.matchTag (c :: (s ++ t)) with
    | none =>
      have hopens : p.opens (c :: s) = false := by
        apply Bool.eq_false_iff.mpr
        intro hopens
        rw [← ht.opens hp.name] at hopens
        exact hp.matchTag_none htag hopens (List.mem_append_right s hclose)
      rw [hopens, Bool.not_false, Bool.true_and] at h
      obtain ⟨j, text, hj, hmem⟩ := ih h (i + 1)
      refine ⟨j + 1, text, Nat.succ_lt_succ hj, ?_⟩
      rw [scan_plain htag, tagsFrom, ← Nat.add_assoc, Nat.add_right_comm]
      exact hmem
    | some rest =>
      obtain ⟨rfl, inner, hs, -⟩ := hp.matchTag_some htag
      rw [hs] at htag ⊢
      refine ⟨0, Tags.openAngle :: (inner ++ [Tags.closeAngle]), Nat.succ_pos _, ?_⟩
      rw [hp.scan_tag htag]
      exact List.mem_cons_self

end TagPattern
end Persatrix.Tags
