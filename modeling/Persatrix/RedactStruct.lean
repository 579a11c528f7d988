import Persatrix.RedactPatterns

/-!
# Structured redaction

A value is a tree as reflection walks it. A value in an interface has a layer of its own;
a string has the type `string` or a named type. A copy-through default stores what was
walked when the result does not fit the place it came from.
-/
namespace Persatrix.Security

inductive Value where
  | string (s : Text)
  | named (typeName : String) (s : Text)
  /-- A number or a boolean. -/
  | scalar (n : ℤ)
  /-- A channel or a function. -/
  | handle (n : ℕ)
  | nilInterface
  | interface (v : Value)
  | nilPointer
  | pointer (v : Value)
  | nilSlice
  | slice (elems : List Value)
  | array (elems : List Value)
  | nilMap
  | map (entries : List (Text × Value))
  /-- The fields, each with whether it is exported. -/
  | struct (fields : List (Bool × Value))

def reflectionDepthCap : ℕ := 32

def redactDepthExceededMarker : Text := text "[REDACTED:max-depth-exceeded]"

def depthMarkerType : String := "security.depthMarker"

/-- What the walk of a value returns: a value of its type, a string, or the marker. -/
inductive Walked where
  | same (v : Value)
  | plain (s : Text)
  | marker

namespace Value

def isPrimitiveKind : Value → Bool
  | .string _ | .named _ _ | .scalar _ => true
  | _ => false

def isOpaqueStruct (fields : List (Bool × Value)) : Bool :=
  fields.any (fun f => !f.1 && !f.2.isPrimitiveKind) || !fields.any (·.1)

mutual
def zero : Value → Value
  | .string _ => .string []
  | .named typeName _ => .named typeName []
  | .scalar _ => .scalar 0
  | .handle _ => .handle 0
  | .nilInterface | .interface _ => .nilInterface
  | .nilPointer | .pointer _ => .nilPointer
  | .nilSlice | .slice _ => .nilSlice
  | .array elems => .array (zeroElems elems)
  | .nilMap | .map _ => .nilMap
  | .struct fields => .struct (zeroFields fields)

def zeroElems : List Value → List Value
  | [] => []
  | v :: elems => v.zero :: zeroElems elems

def zeroFields : List (Bool × Value) → List (Bool × Value)
  | [] => []
  | (exported, v) :: fields => (exported, v.zero) :: zeroFields fields
end

end Value

/-- The value a result is as the content of an interface. -/
def Walked.value : Walked → Value
  | .same v => v
  | .plain s => .string s
  | .marker => .named depthMarkerType redactDepthExceededMarker

/-- Whether a result may be assigned where the value was. -/
def Walked.assignableTo : Walked → Value → Bool
  | .same _, _ => true
  | .plain _, .string _ => true
  | .plain _, .interface _ => true
  | .plain _, .nilInterface => true
  | .plain _, _ => false
  | .marker, .named typeName _ => typeName = depthMarkerType
  | .marker, .interface _ => true
  | .marker, .nilInterface => true
  | .marker, _ => false

/-- What a place holds after a result is assigned to it. -/
def Walked.assign (r : Walked) : Value → Value
  | .interface _ | .nilInterface =>
    match r with
    | .same v => v
    | _ => .interface r.value
  | _ => r.value

/-- What stands in the place of a field or an element. -/
def Walked.store (r : Walked) (v : Value) : Value :=
  if r.assignableTo v then r.assign v
  else
    match r with
    | .marker => v.zero
    | _ => v

/-- What stands in the place of the value of a map's entry, if the entry is kept. -/
def Walked.storeEntry (r : Walked) (v : Value) : Option Value :=
  if r.assignableTo v then some (r.assign v)
  else
    match r with
    | .marker =>
      match v with
      | .string _ => some (.string redactDepthExceededMarker)
      | _ => none
    | _ => some v

/-- What the pointer to a walked value is walked to. -/
def Walked.point (r : Walked) (v : Value) : Walked :=
  match r, v with
  | .marker, .string _ => .same (.pointer v)
  | .marker, .named typeName _ =>
    if typeName = depthMarkerType then .same (.pointer r.value) else .same (.pointer v)
  | .marker, _ => .marker
  | _, _ => if r.assignableTo v then .same (.pointer (r.assign v)) else .same (.pointer v)

namespace SecretRedactor

mutual
def walk (r : SecretRedactor) (depth : ℕ) : Value → Walked
  | .string s => if reflectionDepthCap < depth then .marker else .plain (r.redact s)
  | .named _ s => if reflectionDepthCap < depth then .marker else .plain (r.redact s)
  | .scalar n => if reflectionDepthCap < depth then .marker else .same (.scalar n)
  | .handle n => if reflectionDepthCap < depth then .marker else .same (.handle n)
  | .nilInterface => if reflectionDepthCap < depth then .marker else .same .nilInterface
  | .interface v =>
    if reflectionDepthCap < depth then .marker
    else .same (.interface (r.walk (depth + 1) v).value)
  | .nilPointer => if reflectionDepthCap < depth then .marker else .same .nilPointer
  | .pointer v =>
    if reflectionDepthCap < depth then .marker else (r.walk (depth + 1) v).point v
  | .nilSlice => if reflectionDepthCap < depth then .marker else .same .nilSlice
  | .slice elems =>
    if reflectionDepthCap < depth then .marker else .same (.slice (r.walkElems (depth + 1) elems))
  | .array elems =>
    if reflectionDepthCap < depth then .marker else .same (.array (r.walkElems (depth + 1) elems))
  | .nilMap => if reflectionDepthCap < depth then .marker else .same .nilMap
  | .map entries =>
    if reflectionDepthCap < depth then .marker else .same (.map (r.walkEntries (depth + 1) entries))
  | .struct fields =>
    if reflectionDepthCap < depth then .marker
    else if Value.isOpaqueStruct fields then .same (.struct fields)
    else .same (.struct (r.walkFields (depth + 1) fields))

def walkElems (r : SecretRedactor) (depth : ℕ) : List Value → List Value
  | [] => []
  | v :: elems => (r.walk depth v).store v :: r.walkElems depth elems

def walkEntries (r : SecretRedactor) (depth : ℕ) : List (Text × Value) → List (Text × Value)
  | [] => []
  | (key, v) :: entries =>
    match (r.walk depth v).storeEntry v with
    | some stored => (key, stored) :: r.walkEntries depth entries
    | none => r.walkEntries depth entries

def walkFields (r : SecretRedactor) (depth : ℕ) : List (Bool × Value) → List (Bool × Value)
  | [] => []
  | (exported, v) :: fields =>
    (exported, if exported then (r.walk depth v).store v else v.zero) :: r.walkFields depth fields
end

def redactStruct (r : SecretRedactor) (v : Value) : Value := (r.walk 0 v).value

end SecretRedactor
end Persatrix.Security

/-!
## What structured redaction leaves reachable

Every string that is walked in an interface or at the root is replaced by its redaction,
and so is a plain string in a field, an element or an entry of a map. A string of a named
type is not: its redaction does not fit the place, and the default copies the original
through. So does the default for a pointer whose string is past the depth cap.
-/
namespace Persatrix.Security

namespace Value

mutual
/-- The strings that can be reached through exported fields, elements, values of maps,
pointers and interfaces, each with its depth. -/
def reach (depth : ℕ) : Value → List (ℕ × Text)
  | .string s => [(depth, s)]
  | .named _ s => [(depth, s)]
  | .interface v => reach (depth + 1) v
  | .pointer v => reach (depth + 1) v
  | .slice elems => reachElems (depth + 1) elems
  | .array elems => reachElems (depth + 1) elems
  | .map entries => reachEntries (depth + 1) entries
  | .struct fields => if isOpaqueStruct fields then [] else reachFields (depth + 1) fields
  | _ => []

def reachElems (depth : ℕ) : List Value → List (ℕ × Text)
  | [] => []
  | v :: elems => v.reach depth ++ reachElems depth elems

def reachEntries (depth : ℕ) : List (Text × Value) → List (ℕ × Text)
  | [] => []
  | (_, v) :: entries => v.reach depth ++ reachEntries depth entries

def reachFields (depth : ℕ) : List (Bool × Value) → List (ℕ × Text)
  | [] => []
  | (exported, v) :: fields =>
    (if exported then v.reach depth else []) ++ reachFields depth fields
end

/-- A string at the given depth holds no secret, and past the cap it is no copy. -/
def CleanAt (p : ℕ × Text) : Prop :=
  ¬ newSecretRedactor.Secret p.2 ∧
    (reflectionDepthCap < p.1 → p.2 = [] ∨ p.2 = redactDepthExceededMarker)

def Clean (depth : ℕ) (v : Value) : Prop := ∀ p ∈ v.reach depth, CleanAt p

/-- A string of a named type that is walked in a field, an element or an entry of a map
holds no secret. -/
def PlaceFits (depth : ℕ) : Value → Prop
  | .named _ s => depth ≤ reflectionDepthCap → ¬ newSecretRedactor.Secret s
  | _ => True

/-- So does one behind a pointer, and no pointer at the cap is one to a string. -/
def TargetFits (depth : ℕ) : Value → Prop
  | .string s => reflectionDepthCap < depth → s = [] ∨ s = redactDepthExceededMarker
  | .named typeName s =>
    if depth ≤ reflectionDepthCap then ¬ newSecretRedactor.Secret s
    else typeName = depthMarkerType ∨ s = [] ∨ s = redactDepthExceededMarker
  | _ => True

mutual
/-- Every place down to the cap fits what it holds. -/
def Covered (depth : ℕ) : Value → Prop
  | .interface v => depth ≤ reflectionDepthCap → v.Covered (depth + 1)
  | .pointer v =>
    depth ≤ reflectionDepthCap → v.TargetFits (depth + 1) ∧ v.Covered (depth + 1)
  | .slice elems => depth ≤ reflectionDepthCap → CoveredElems (depth + 1) elems
  | .array elems => depth ≤ reflectionDepthCap → CoveredElems (depth + 1) elems
  | .map entries => depth ≤ reflectionDepthCap → CoveredEntries (depth + 1) entries
  | .struct fields =>
    depth ≤ reflectionDepthCap → isOpaqueStruct fields = false → CoveredFields (depth + 1) fields
  | _ => True

def CoveredElems (depth : ℕ) : List Value → Prop
  | [] => True
  | v :: elems => (v.PlaceFits depth ∧ v.Covered depth) ∧ CoveredElems depth elems

def CoveredEntries (depth : ℕ) : List (Text × Value) → Prop
  | [] => True
  | (_, v) :: entries => (v.PlaceFits depth ∧ v.Covered depth) ∧ CoveredEntries depth entries

def CoveredFields (depth : ℕ) : List (Bool × Value) → Prop
  | [] => True
  | (exported, v) :: fields =>
    (exported = true → v.PlaceFits depth ∧ v.Covered depth) ∧ CoveredFields depth fields
end

theorem not_secret_nil : ¬ newSecretRedactor.Secret [] := by
  intro ⟨p, _, before, u, rest, hs, hu⟩
  have hparts := List.append_eq_nil_iff.mp hs.symm
  exact p.nonempty hu (List.append_eq_nil_iff.mp hparts.2).1

theorem not_secret_marker : ¬ newSecretRedactor.Secret redactDepthExceededMarker := by
  have hnone : ∀ p ∈ defaultPatterns, p.re.search redactDepthExceededMarker = false := by
    decide
  intro ⟨p, hp, hcontains⟩
  have hsearch := hnone p hp
  rw [Regex.search_eq_true hcontains] at hsearch
  cases hsearch

theorem cleanAt_nil (depth : ℕ) : CleanAt (depth, []) := ⟨not_secret_nil, fun _ => .inl rfl⟩

theorem cleanAt_marker (depth : ℕ) : CleanAt (depth, redactDepthExceededMarker) :=
  ⟨not_secret_marker, fun _ => .inr rfl⟩

mutual
theorem zero_clean (depth : ℕ) : ∀ v : Value, v.zero.Clean depth
  | .string _ => by simp [zero, Clean, reach, cleanAt_nil]
  | .named _ _ => by simp [zero, Clean, reach, cleanAt_nil]
  | .scalar _ => by simp [zero, Clean, reach]
  | .handle _ => by simp [zero, Clean, reach]
  | .nilInterface => by simp [zero, Clean, reach]
  | .interface _ => by simp [zero, Clean, reach]
  | .nilPointer => by simp [zero, Clean, reach]
  | .pointer _ => by simp [zero, Clean, reach]
  | .nilSlice => by simp [zero, Clean, reach]
  | .slice _ => by simp [zero, Clean, reach]
  | .array elems => by
    intro p hp
    exact zeroElems_clean (depth + 1) elems p (by simpa [zero, reach] using hp)
  | .nilMap => by simp [zero, Clean, reach]
  | .map _ => by simp [zero, Clean, reach]
  | .struct fields => by
    intro p hp
    simp only [zero, reach] at hp
    split_ifs at hp
    · cases hp
    · exact zeroFields_clean (depth + 1) fields p hp

theorem zeroElems_clean (depth : ℕ) :
    ∀ elems : List Value, ∀ p ∈ reachElems depth (zeroElems elems), CleanAt p
  | [] => by simp [zeroElems, reachElems]
  | v :: elems => by
    intro p hp
    rw [zeroElems, reachElems] at hp
    rcases List.mem_append.mp hp with hv | hrest
    · exact zero_clean depth v p hv
    · exact zeroElems_clean depth elems p hrest

theorem zeroFields_clean (depth : ℕ) :
    ∀ fields : List (Bool × Value), ∀ p ∈ reachFields depth (zeroFields fields), CleanAt p
  | [] => by simp [zeroFields, reachFields]
  | (exported, v) :: fields => by
    intro p hp
    rw [zeroFields, reachFields] at hp
    rcases List.mem_append.mp hp with hv | hrest
    · split_ifs at hv
      · exact zero_clean depth v p hv
      · cases hv
    · exact zeroFields_clean depth fields p hrest
end

theorem walk_of_deep (r : SecretRedactor) {depth : ℕ} (h : reflectionDepthCap < depth)
    (v : Value) : r.walk depth v = .marker := by
  cases v <;> simp [SecretRedactor.walk, h]

theorem covered_of_deep {depth : ℕ} (h : reflectionDepthCap < depth) (v : Value) :
    v.Covered depth := by
  cases v <;> simp [Covered, not_le.mpr h]

theorem point_shape (r : Walked) (v : Value) : (∃ w, r.point v = .same w) ∨ r.point v = .marker := by
  cases r with
  | same w => exact .inl ⟨_, rfl⟩
  | plain s =>
    unfold Walked.point
    split_ifs
    · exact .inl ⟨_, rfl⟩
    · exact .inl ⟨_, rfl⟩
  | marker =>
    cases v with
    | string s => exact .inl ⟨_, rfl⟩
    | named typeName s =>
      unfold Walked.point
      dsimp only
      split_ifs
      · exact .inl ⟨_, rfl⟩
      · exact .inl ⟨_, rfl⟩
    | _ => exact .inr rfl

/-- Only strings are walked to strings, and only a pointer to what is past the cap is
walked to the marker. -/
theorem walk_shape (r : SecretRedactor) {depth : ℕ} (h : depth ≤ reflectionDepthCap) (v : Value) :
    (∃ s, v = .string s) ∨ (∃ typeName s, v = .named typeName s) ∨
      (∃ w, r.walk depth v = .same w) ∨ r.walk depth v = .marker ∧ ∃ u, v = .pointer u := by
  cases v with
  | string s => exact .inl ⟨s, rfl⟩
  | named typeName s => exact .inr (.inl ⟨typeName, s, rfl⟩)
  | pointer u =>
    right
    right
    rw [SecretRedactor.walk, if_neg (not_lt.mpr h)]
    rcases point_shape (r.walk (depth + 1) u) u with hsame | hmarker
    · exact .inl hsame
    · exact .inr ⟨hmarker, u, rfl⟩
  | struct fields =>
    right
    right
    left
    rw [SecretRedactor.walk, if_neg (not_lt.mpr h)]
    split_ifs
    · exact ⟨_, rfl⟩
    · exact ⟨_, rfl⟩
  | _ =>
    right
    right
    left
    rw [SecretRedactor.walk, if_neg (not_lt.mpr h)]
    exact ⟨_, rfl⟩

theorem store_same (w v : Value) : (Walked.same w).store v = w := by
  cases v <;> rfl

theorem store_marker_clean (depth : ℕ) (v : Value) : (Walked.marker.store v).Clean depth := by
  unfold Walked.store
  split_ifs with hassign
  · intro p hp
    cases v with
    | named typeName s =>
      simp only [Walked.assign, Walked.value, reach, List.mem_singleton] at hp
      rw [hp]
      exact cleanAt_marker depth
    | interface u =>
      simp only [Walked.assign, Walked.value, reach, List.mem_singleton] at hp
      rw [hp]
      exact cleanAt_marker (depth + 1)
    | nilInterface =>
      simp only [Walked.assign, Walked.value, reach, List.mem_singleton] at hp
      rw [hp]
      exact cleanAt_marker (depth + 1)
    | _ => cases hassign
  · exact zero_clean depth v

theorem redacted_clean {depth : ℕ} (h : depth ≤ reflectionDepthCap) (s : Text) :
    CleanAt (depth, newSecretRedactor.redact s) := by
  unfold CleanAt
  dsimp only
  refine ⟨redact_clean s, ?_⟩
  intro hdeep
  exact absurd h (not_le.mpr hdeep)

theorem clean_string_iff {depth : ℕ} {s : Text} :
    (Value.string s).Clean depth ↔ CleanAt (depth, s) := by
  unfold Clean
  rw [reach, List.forall_mem_singleton]

theorem clean_named_iff {depth : ℕ} {typeName : String} {s : Text} :
    (Value.named typeName s).Clean depth ↔ CleanAt (depth, s) := by
  unfold Clean
  rw [reach, List.forall_mem_singleton]

theorem clean_pointer_iff {depth : ℕ} {v : Value} :
    (Value.pointer v).Clean depth ↔ v.Clean (depth + 1) := by
  unfold Clean
  rw [reach]

theorem not_secret_of_replaced {s : Text} (h : s = [] ∨ s = redactDepthExceededMarker) :
    ¬ newSecretRedactor.Secret s := by
  rcases h with rfl | rfl
  · exact not_secret_nil
  · exact not_secret_marker

/-- Past the cap a string is clean only if it is empty or the marker. -/
theorem cleanAt_deep_iff {depth : ℕ} (h : reflectionDepthCap < depth) {s : Text} :
    CleanAt (depth, s) ↔ s = [] ∨ s = redactDepthExceededMarker := by
  unfold CleanAt
  dsimp only
  constructor
  · intro hclean
    exact hclean.2 h
  · intro hreplaced
    exact ⟨not_secret_of_replaced hreplaced, fun _ => hreplaced⟩

/-- What is stored in a place is clean exactly when the place fits what it held. -/
theorem store_clean {depth : ℕ} {v : Value}
    (hvalue : depth ≤ reflectionDepthCap →
      ((newSecretRedactor.walk depth v).value.Clean depth ↔ v.Covered depth)) :
    ((newSecretRedactor.walk depth v).store v).Clean depth ↔
      v.PlaceFits depth ∧ v.Covered depth := by
  rcases lt_or_ge reflectionDepthCap depth with hdeep | hcap
  · rw [walk_of_deep _ hdeep]
    refine iff_of_true (store_marker_clean depth v) ⟨?_, covered_of_deep hdeep v⟩
    cases v <;> simp [PlaceFits, not_le.mpr hdeep]
  · have hcovered := hvalue hcap
    rcases walk_shape newSecretRedactor hcap v with
      ⟨s, rfl⟩ | ⟨typeName, s, rfl⟩ | ⟨w, hw⟩ | ⟨hmarker, u, rfl⟩
    · rw [SecretRedactor.walk, if_neg (not_lt.mpr hcap)]
      exact iff_of_true (clean_string_iff.mpr (redacted_clean hcap s)) ⟨trivial, trivial⟩
    · rw [SecretRedactor.walk, if_neg (not_lt.mpr hcap)]
      have hcopied : (Walked.plain (newSecretRedactor.redact s)).store (.named typeName s) =
          .named typeName s := rfl
      rw [hcopied, clean_named_iff]
      unfold CleanAt PlaceFits
      dsimp only
      constructor
      · intro hclean
        exact ⟨fun _ => hclean.1, trivial⟩
      · intro hfits
        exact ⟨hfits.1 hcap, fun hdeep => absurd hcap (not_le.mpr hdeep)⟩
    · rw [hw, store_same]
      rw [hw] at hcovered
      rw [show (Walked.same w).value = w from rfl] at hcovered
      rw [hcovered]
      constructor
      · intro hv
        refine ⟨?_, hv⟩
        cases v with
        | named typeName s =>
          rw [SecretRedactor.walk, if_neg (not_lt.mpr hcap)] at hw
          cases hw
        | _ => trivial
      · intro hv
        exact hv.2
    · rw [hmarker]
      rw [hmarker] at hcovered
      refine iff_of_true (store_marker_clean depth _) ⟨trivial, hcovered.mp ?_⟩
      exact clean_named_iff.mpr (cleanAt_marker depth)

theorem storeEntry_of_ne {r : Walked} (h : r ≠ .marker) (v : Value) :
    r.storeEntry v = some (r.store v) := by
  unfold Walked.storeEntry Walked.store
  cases r with
  | marker => exact absurd rfl h
  | _ => split_ifs <;> rfl

theorem storeEntry_marker_clean {depth : ℕ} {v stored : Value}
    (h : Walked.marker.storeEntry v = some stored) : stored.Clean depth := by
  have hmarker := store_marker_clean depth v
  unfold Walked.store at hmarker
  unfold Walked.storeEntry at h
  split_ifs at h hmarker
  · cases h
    exact hmarker
  · cases v with
    | string s =>
      cases h
      exact clean_string_iff.mpr (cleanAt_marker depth)
    | _ => cases h

/-- The same for the entries of a map. -/
theorem storeEntry_clean {depth : ℕ} {v : Value}
    (hvalue : depth ≤ reflectionDepthCap →
      ((newSecretRedactor.walk depth v).value.Clean depth ↔ v.Covered depth)) :
    (∀ stored, (newSecretRedactor.walk depth v).storeEntry v = some stored →
      stored.Clean depth) ↔ v.PlaceFits depth ∧ v.Covered depth := by
  rw [← store_clean hvalue]
  by_cases hmarker : newSecretRedactor.walk depth v = .marker
  · rw [hmarker]
    exact iff_of_true (fun stored => storeEntry_marker_clean) (store_marker_clean depth v)
  · rw [storeEntry_of_ne hmarker]
    constructor
    · intro hall
      exact hall _ rfl
    · intro hclean stored hstored
      cases hstored
      exact hclean

theorem zero_isPrimitiveKind (v : Value) : v.zero.isPrimitiveKind = v.isPrimitiveKind := by
  cases v <;> rw [zero] <;> rfl

theorem walkFields_hidden (r : SecretRedactor) (depth : ℕ) (fields : List (Bool × Value)) :
    ((r.walkFields depth fields).any fun f => !f.1 && !f.2.isPrimitiveKind) =
      fields.any fun f => !f.1 && !f.2.isPrimitiveKind := by
  induction fields with
  | nil => rfl
  | cons f fields ih =>
    obtain ⟨exported, v⟩ := f
    rw [SecretRedactor.walkFields, List.any_cons, List.any_cons, ih]
    cases exported with
    | false => simp [zero_isPrimitiveKind]
    | true => simp

theorem walkFields_exported (r : SecretRedactor) (depth : ℕ) (fields : List (Bool × Value)) :
    (r.walkFields depth fields).any (·.1) = fields.any (·.1) := by
  induction fields with
  | nil => rfl
  | cons f fields ih =>
    rw [SecretRedactor.walkFields, List.any_cons, List.any_cons, ih]

theorem walkFields_opaque (r : SecretRedactor) (depth : ℕ) (fields : List (Bool × Value)) :
    isOpaqueStruct (r.walkFields depth fields) = isOpaqueStruct fields := by
  unfold isOpaqueStruct
  rw [walkFields_hidden, walkFields_exported]

/-- What a pointer is walked to is clean exactly when its target fits. -/
theorem point_clean {depth : ℕ} {v : Value}
    (hvalue : depth + 1 ≤ reflectionDepthCap →
      ((newSecretRedactor.walk (depth + 1) v).value.Clean (depth + 1) ↔ v.Covered (depth + 1))) :
    ((newSecretRedactor.walk (depth + 1) v).point v).value.Clean depth ↔
      v.TargetFits (depth + 1) ∧ v.Covered (depth + 1) := by
  rcases lt_or_ge reflectionDepthCap (depth + 1) with hdeep | hcap
  · rw [walk_of_deep _ hdeep]
    have hcovered := covered_of_deep hdeep v
    have hmarker : (Walked.marker.value).Clean depth := clean_named_iff.mpr (cleanAt_marker depth)
    cases v with
    | string s =>
      change (Value.pointer (.string s)).Clean depth ↔ _
      rw [clean_pointer_iff, clean_string_iff]
      exact (cleanAt_deep_iff hdeep).trans (by simp [TargetFits, hdeep, hcovered])
    | named typeName s =>
      by_cases htype : typeName = depthMarkerType
      · have hpoint : Walked.marker.point (.named typeName s) =
            .same (.pointer Walked.marker.value) := if_pos htype
        rw [hpoint]
        refine iff_of_true ?_ ⟨?_, hcovered⟩
        · exact clean_pointer_iff.mpr (clean_named_iff.mpr (cleanAt_marker (depth + 1)))
        · simp [TargetFits, not_le.mpr hdeep, htype]
      · have hpoint : Walked.marker.point (.named typeName s) =
            .same (.pointer (.named typeName s)) := if_neg htype
        rw [hpoint]
        change (Value.pointer (.named typeName s)).Clean depth ↔ _
        rw [clean_pointer_iff, clean_named_iff]
        exact (cleanAt_deep_iff hdeep).trans (by
          simp [TargetFits, not_le.mpr hdeep, htype, hcovered])
    | _ => exact iff_of_true hmarker ⟨trivial, hcovered⟩
  · have hcovered := hvalue hcap
    rcases walk_shape newSecretRedactor hcap v with
      ⟨s, rfl⟩ | ⟨typeName, s, rfl⟩ | ⟨w, hw⟩ | ⟨hmarker, u, rfl⟩
    · rw [SecretRedactor.walk, if_neg (not_lt.mpr hcap)]
      refine iff_of_true ?_ ⟨fun hdeep => absurd hcap (not_le.mpr hdeep), trivial⟩
      exact clean_pointer_iff.mpr (clean_string_iff.mpr (redacted_clean hcap s))
    · rw [SecretRedactor.walk, if_neg (not_lt.mpr hcap)]
      have hcopied : (Walked.plain (newSecretRedactor.redact s)).point (.named typeName s) =
          .same (.pointer (.named typeName s)) := rfl
      rw [hcopied]
      change (Value.pointer (.named typeName s)).Clean depth ↔ _
      rw [clean_pointer_iff, clean_named_iff]
      unfold CleanAt TargetFits
      dsimp only
      rw [if_pos hcap]
      constructor
      · intro hclean
        exact ⟨hclean.1, trivial⟩
      · intro hfits
        exact ⟨hfits.1, fun hdeep => absurd hcap (not_le.mpr hdeep)⟩
    · have hpoint : (Walked.same w).point v = .same (.pointer w) := by
        cases v <;> rfl
      rw [hw, hpoint]
      rw [hw, show (Walked.same w).value = w from rfl] at hcovered
      change (Value.pointer w).Clean depth ↔ _
      rw [clean_pointer_iff, hcovered]
      constructor
      · intro hv
        refine ⟨?_, hv⟩
        cases v with
        | string s =>
          rw [SecretRedactor.walk, if_neg (not_lt.mpr hcap)] at hw
          cases hw
        | named typeName s =>
          rw [SecretRedactor.walk, if_neg (not_lt.mpr hcap)] at hw
          cases hw
        | _ => trivial
      · intro hv
        exact hv.2
    · rw [hmarker]
      rw [hmarker] at hcovered
      refine iff_of_true (clean_named_iff.mpr (cleanAt_marker depth)) ⟨trivial, hcovered.mp ?_⟩
      exact clean_named_iff.mpr (cleanAt_marker (depth + 1))

theorem forall_mem_append_iff {C : ℕ × Text → Prop} {a b : List (ℕ × Text)} {P Q : Prop}
    (ha : (∀ p ∈ a, C p) ↔ P) (hb : (∀ p ∈ b, C p) ↔ Q) : (∀ p ∈ a ++ b, C p) ↔ P ∧ Q := by
  rw [List.forall_mem_append, ha, hb]

mutual
/-- Down to the cap the walk leaves a clean value exactly when every place fits. -/
theorem walk_clean {depth : ℕ} (h : depth ≤ reflectionDepthCap) :
    ∀ v : Value, (newSecretRedactor.walk depth v).value.Clean depth ↔ v.Covered depth
  | .string s => by
    rw [SecretRedactor.walk, if_neg (not_lt.mpr h)]
    exact iff_of_true (clean_string_iff.mpr (redacted_clean h s)) trivial
  | .named _ s => by
    rw [SecretRedactor.walk, if_neg (not_lt.mpr h)]
    exact iff_of_true (clean_string_iff.mpr (redacted_clean h s)) trivial
  | .scalar n => by
    rw [SecretRedactor.walk, if_neg (not_lt.mpr h)]
    exact iff_of_true (fun p hp => by cases hp) trivial
  | .handle n => by
    rw [SecretRedactor.walk, if_neg (not_lt.mpr h)]
    exact iff_of_true (fun p hp => by cases hp) trivial
  | .nilInterface => by
    rw [SecretRedactor.walk, if_neg (not_lt.mpr h)]
    exact iff_of_true (fun p hp => by cases hp) trivial
  | .nilPointer => by
    rw [SecretRedactor.walk, if_neg (not_lt.mpr h)]
    exact iff_of_true (fun p hp => by cases hp) trivial
  | .nilSlice => by
    rw [SecretRedactor.walk, if_neg (not_lt.mpr h)]
    exact iff_of_true (fun p hp => by cases hp) trivial
  | .nilMap => by
    rw [SecretRedactor.walk, if_neg (not_lt.mpr h)]
    exact iff_of_true (fun p hp => by cases hp) trivial
  | .interface v => by
    rw [SecretRedactor.walk, if_neg (not_lt.mpr h), Covered]
    simp only [h, forall_true_left]
    change (newSecretRedactor.walk (depth + 1) v).value.Clean (depth + 1) ↔ _
    rcases lt_or_ge reflectionDepthCap (depth + 1) with hdeep | hcap
    · rw [walk_of_deep _ hdeep]
      exact iff_of_true (clean_named_iff.mpr (cleanAt_marker _)) (covered_of_deep hdeep v)
    · exact walk_clean hcap v
  | .pointer v => by
    rw [SecretRedactor.walk, if_neg (not_lt.mpr h), Covered]
    simp only [h, forall_true_left]
    exact point_clean fun hcap => walk_clean hcap v
  | .slice elems => by
    rw [SecretRedactor.walk, if_neg (not_lt.mpr h), Covered]
    simp only [h, forall_true_left]
    exact walkElems_clean (depth + 1) elems
  | .array elems => by
    rw [SecretRedactor.walk, if_neg (not_lt.mpr h), Covered]
    simp only [h, forall_true_left]
    exact walkElems_clean (depth + 1) elems
  | .map entries => by
    rw [SecretRedactor.walk, if_neg (not_lt.mpr h), Covered]
    simp only [h, forall_true_left]
    exact walkEntries_clean (depth + 1) entries
  | .struct fields => by
    rw [SecretRedactor.walk, if_neg (not_lt.mpr h), Covered]
    simp only [h, forall_true_left]
    cases hopaque : isOpaqueStruct fields with
    | true =>
      have hnone : (Value.struct fields).Clean depth := by
        unfold Clean
        rw [reach, if_pos hopaque]
        simp
      exact iff_of_true hnone (fun hno => by cases hno)
    | false =>
      have hreach : (Value.struct (newSecretRedactor.walkFields (depth + 1) fields)).Clean depth ↔
          ∀ p ∈ reachFields (depth + 1) (newSecretRedactor.walkFields (depth + 1) fields),
            CleanAt p := by
        unfold Clean
        rw [reach, walkFields_opaque, hopaque]
        rfl
      simp only [Bool.false_eq_true, if_false, forall_true_left]
      exact hreach.trans (walkFields_clean (depth + 1) fields)

theorem walkElems_clean (depth : ℕ) : ∀ elems : List Value,
    (∀ p ∈ reachElems depth (newSecretRedactor.walkElems depth elems), CleanAt p) ↔
      CoveredElems depth elems
  | [] => iff_of_true (fun p hp => by cases hp) trivial
  | v :: elems => by
    rw [SecretRedactor.walkElems, reachElems, CoveredElems]
    exact forall_mem_append_iff (store_clean fun h => walk_clean h v)
      (walkElems_clean depth elems)

theorem walkEntries_clean (depth : ℕ) : ∀ entries : List (Text × Value),
    (∀ p ∈ reachEntries depth (newSecretRedactor.walkEntries depth entries), CleanAt p) ↔
      CoveredEntries depth entries
  | [] => iff_of_true (fun p hp => by cases hp) trivial
  | (key, v) :: entries => by
    have hrest := walkEntries_clean depth entries
    have hentry : (∀ stored, (newSecretRedactor.walk depth v).storeEntry v = some stored →
        stored.Clean depth) ↔ v.PlaceFits depth ∧ v.Covered depth :=
      storeEntry_clean fun h => walk_clean h v
    rw [SecretRedactor.walkEntries, CoveredEntries, ← hentry]
    cases (newSecretRedactor.walk depth v).storeEntry v with
    | none => simpa using hrest
    | some stored =>
      dsimp only
      rw [reachEntries]
      apply forall_mem_append_iff _ hrest
      simp [Clean]

theorem walkFields_clean (depth : ℕ) : ∀ fields : List (Bool × Value),
    (∀ p ∈ reachFields depth (newSecretRedactor.walkFields depth fields), CleanAt p) ↔
      CoveredFields depth fields
  | [] => iff_of_true (fun p hp => by cases hp) trivial
  | (exported, v) :: fields => by
    rw [SecretRedactor.walkFields, reachFields, CoveredFields]
    apply forall_mem_append_iff _ (walkFields_clean depth fields)
    cases exported with
    | false => simp
    | true =>
      simp only [if_true, forall_true_left]
      exact store_clean fun h => walk_clean h v
end

end Value

/-- Structured redaction leaves no secret exactly where no copy-through default is taken on
one: no string of a named type in a field, an element, an entry or behind a pointer holds a
secret, and no pointer at the cap points to a string that would be copied. -/
theorem redactStruct_clean_iff (v : Value) :
    (newSecretRedactor.redactStruct v).Clean 0 ↔ v.Covered 0 :=
  Value.walk_clean (Nat.zero_le _) v

/-- A field whose type is a named string type keeps its password. -/
def credential : Value := .struct [(true, .named "config.Secret" (text "password=hunter2"))]

theorem credential_password_kept :
    newSecretRedactor.redactStruct credential = credential ∧
      ¬ (newSecretRedactor.redactStruct credential).Clean 0 := by
  have hsecret : newSecretRedactor.Secret (text "password=hunter2") := by
    have hmem : secretPattern "generic-secret" genericSecret (by decide) ∈ defaultPatterns := by
      simp [defaultPatterns]
    exact ⟨_, hmem, Regex.contains_of_search (by decide)⟩
  constructor
  · rfl
  · rw [redactStruct_clean_iff]
    intro hcovered
    have hfits := (hcovered (Nat.zero_le _) rfl).1 rfl
    exact hfits.1 (by decide) hsecret

end Persatrix.Security
