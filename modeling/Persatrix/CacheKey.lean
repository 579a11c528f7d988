import Persatrix.AuditChain
import Persatrix.OrderedRows
import Persatrix.Planner
import Persatrix.Terminated
import Mathlib.Data.List.Lex

/-!
# The key of a cached response

The key is a digest of the agent, the payload and the entries of the context in the order of their
keys, each with a zero byte behind it. An agent's identifier has no zero byte; the other texts may
have some, and then a key does not tell where one text ends and the next begins.
-/
namespace Persatrix.Cost
open Security

/-- The bytes are compared as numbers, the first difference decides. -/
def sortedKeys (context : GoMap GoString GoString) : List GoString :=
  orderBy (fun key => key.map UInt8.toNat) context.keys

/-- What is hashed after the agent. -/
def hashedFields (payload : GoString) (context : GoMap GoString GoString) : List GoString :=
  payload :: (sortedKeys context).flatMap fun key => [key, (context.lookup key).getD []]

/-- All that is written to the hash. -/
def hashedText (agentID payload : GoString) (context : GoMap GoString GoString) : GoString :=
  agentID ++ 0 :: Terminated.write 0 (hashedFields payload context)

def cacheKey (sha256 : GoString → Digest) (agentID payload : GoString)
    (context : GoMap GoString GoString) : GoString :=
  checksumOf sha256 (hashedText agentID payload context)

/-- What a response is cached for, with an identifier that the planner accepts. -/
structure CacheableRequest where
  agentID : String
  payload : GoString
  context : GoMap GoString GoString
  accepted : Planner.matchesResourceID agentID = true

namespace CacheableRequest

def fields (r : CacheableRequest) : List GoString := hashedFields r.payload r.context

def hashed (r : CacheableRequest) : GoString := hashedText (ascii r.agentID) r.payload r.context

def key (sha256 : GoString → Digest) (r : CacheableRequest) : GoString :=
  cacheKey sha256 (ascii r.agentID) r.payload r.context

/-- The same agent is asked the same. -/
structure Same (r r' : CacheableRequest) : Prop where
  agentID : r.agentID = r'.agentID
  payload : r.payload = r'.payload
  context : ∀ key, r.context.lookup key = r'.context.lookup key

/-- The texts of both fall into the same pieces between zero bytes, which lie in different texts. -/
structure CutApart (r r' : CacheableRequest) : Prop where
  agentID : r.agentID = r'.agentID
  pieces : Terminated.pieces 0 r.fields = Terminated.pieces 0 r'.fields
  cuts : Terminated.cuts 0 r.fields ≠ Terminated.cuts 0 r'.fields

end CacheableRequest

/-! ### Identifiers as bytes -/

theorem matchesResourceID_range {id : String} (h : Planner.matchesResourceID id = true) :
    ∀ c ∈ id.toList, 45 ≤ c.toNat ∧ c.toNat ≤ 122 := by
  have hchar : ∀ c, Planner.isLowerAlnum c = true ∨ c = '-' → 45 ≤ c.toNat ∧ c.toNat ≤ 122 := by
    intro c hc
    rcases hc with hc | rfl
    · simp only [Planner.isLowerAlnum, Bool.or_eq_true, Bool.and_eq_true, decide_eq_true_eq,
        Char.le_def, UInt32.le_iff_toNat_le] at hc
      have : 'a'.val.toNat = 97 ∧ 'z'.val.toNat = 122 ∧ '0'.val.toNat = 48 ∧ '9'.val.toNat = 57 := by
        decide
      unfold Char.toNat
      omega
    · decide
  unfold Planner.matchesResourceID at h
  intro c hc
  cases hid : id.toList with
  | nil => simp [hid] at hc
  | cons first tail =>
    rw [hid] at h hc
    simp only [Planner.matchesIDTail, Bool.and_eq_true, List.all_eq_true, Bool.or_eq_true,
      beq_iff_eq] at h
    rcases List.mem_cons.mp hc with rfl | hc
    · exact hchar c (.inl h.1)
    · exact hchar c (h.2.1 c hc)

theorem zero_not_mem_ascii {id : String} (h : Planner.matchesResourceID id = true) :
    0 ∉ ascii id := by
  intro hmem
  obtain ⟨c, hc, hzero⟩ := List.mem_map.mp hmem
  obtain ⟨hlow, hhigh⟩ := matchesResourceID_range h c hc
  have hnat := congrArg UInt8.toNat hzero
  rw [UInt8.toNat_ofNat', Nat.mod_eq_of_lt (by omega)] at hnat
  rw [hnat] at hlow
  exact absurd hlow (by decide)

/-- The characters are read back from the bytes. -/
theorem toList_of_ascii {id : String} (h : Planner.matchesResourceID id = true) :
    (ascii id).map (fun b => Char.ofNat b.toNat) = id.toList := by
  unfold ascii
  rw [List.map_map]
  refine (List.map_congr_left fun c hc => ?_).trans id.toList.map_id
  obtain ⟨-, hhigh⟩ := matchesResourceID_range h c hc
  rw [Function.comp_apply, UInt8.toNat_ofNat', Nat.mod_eq_of_lt (by omega), Char.ofNat_toNat]
  rfl

theorem ascii_inj {id id' : String} (h : Planner.matchesResourceID id = true)
    (h' : Planner.matchesResourceID id' = true) (heq : ascii id = ascii id') : id = id' := by
  apply String.toList_inj.mp
  rw [← toList_of_ascii h, ← toList_of_ascii h', heq]

/-! ### The texts and the request -/

theorem mem_sortedKeys {context : GoMap GoString GoString} {key : GoString} :
    key ∈ sortedKeys context ↔ ∃ v, context.lookup key = some v := by
  have hmem : key ∈ context.keys ↔ key ∈ context := Iff.rfl
  rw [sortedKeys, mem_orderBy, hmem, ← AList.lookup_isSome, Option.isSome_iff_exists]

/-- The texts of the context are its entries. -/
theorem lookup_of_texts {context context' : GoMap GoString GoString}
    (h : (sortedKeys context).flatMap (fun key => [key, (context.lookup key).getD []]) =
      (sortedKeys context').flatMap fun key => [key, (context'.lookup key).getD []]) :
    sortedKeys context = sortedKeys context' ∧
      ∀ key ∈ sortedKeys context, context.lookup key = context'.lookup key := by
  have hsome : ∀ key ∈ sortedKeys context, ∃ v, context.lookup key = some v :=
    fun key => mem_sortedKeys.mp
  have hsome' : ∀ key ∈ sortedKeys context', ∃ v, context'.lookup key = some v :=
    fun key => mem_sortedKeys.mp
  generalize sortedKeys context = keys at h hsome ⊢
  generalize sortedKeys context' = keys' at h hsome' ⊢
  induction keys generalizing keys' with
  | nil =>
    cases keys' with
    | nil => exact ⟨rfl, by simp⟩
    | cons key' keys' => cases h
  | cons key keys ih =>
    cases keys' with
    | nil => cases h
    | cons key' keys' =>
      obtain ⟨⟨v, hv⟩, hsome⟩ := List.forall_mem_cons.mp hsome
      obtain ⟨⟨v', hv'⟩, hrest'⟩ := List.forall_mem_cons.mp hsome'
      simp only [List.flatMap_cons, List.cons_append, List.nil_append, List.cons.injEq] at h
      obtain ⟨rfl, hvalue, h⟩ := h
      obtain ⟨rfl, hlookup⟩ := ih hsome keys' h hrest'
      rw [hv, hv', Option.getD_some, Option.getD_some] at hvalue
      exact ⟨rfl, List.forall_mem_cons.mpr ⟨by rw [hv, hv', hvalue], hlookup⟩⟩

theorem sortedKeys_congr {context context' : GoMap GoString GoString}
    (h : ∀ key, context.lookup key = context'.lookup key) :
    sortedKeys context = sortedKeys context' := by
  have hmem : ∀ key, key ∈ sortedKeys context ↔ key ∈ sortedKeys context' := by
    intro key
    rw [mem_sortedKeys, mem_sortedKeys, h]
  have hnodup : ∀ c : GoMap GoString GoString, (sortedKeys c).Nodup :=
    fun c => (perm_orderBy _ _).nodup_iff.mpr c.keys_nodup
  have hinjective : Function.Injective fun key : GoString => key.map UInt8.toNat :=
    List.map_injective_iff.mpr fun _ _ => UInt8.toNat_inj.mp
  refine eq_of_perm_of_pairwise ((List.perm_ext_iff_of_nodup (hnodup _) (hnodup _)).mpr hmem)
    ?_ (pairwise_orderBy _ _) (pairwise_orderBy _ _)
  exact (hnodup _).map hinjective

namespace CacheableRequest
variable {r r' : CacheableRequest}

theorem Same.fields (h : r.Same r') : r.fields = r'.fields := by
  unfold CacheableRequest.fields hashedFields
  rw [h.payload, sortedKeys_congr h.context]
  simp only [h.context]

theorem same_of_fields (hagent : r.agentID = r'.agentID) (h : r.fields = r'.fields) :
    r.Same r' := by
  obtain ⟨hpayload, htexts⟩ := List.cons.inj h
  obtain ⟨hkeys, hlookup⟩ := lookup_of_texts htexts
  refine ⟨hagent, hpayload, fun key => ?_⟩
  by_cases hkey : key ∈ sortedKeys r.context
  · exact hlookup key hkey
  · have hnone : ∀ c : GoMap GoString GoString, key ∉ sortedKeys c → c.lookup key = none := by
      intro c hc
      rw [mem_sortedKeys] at hc
      exact Option.eq_none_iff_forall_ne_some.mpr fun v hv => hc ⟨v, hv⟩
    rw [hnone _ hkey, hnone _ (hkeys ▸ hkey)]

/-- What is hashed determines the agent and the pieces between zero bytes. -/
theorem hashed_eq_iff : r.hashed = r'.hashed ↔
    r.agentID = r'.agentID ∧
      Terminated.pieces 0 r.fields = Terminated.pieces 0 r'.fields := by
  have hwrite : ∀ r : CacheableRequest,
      r.hashed = Terminated.write 0 (ascii r.agentID :: r.fields) := by
    intro r
    simp [CacheableRequest.hashed, hashedText, Terminated.write, CacheableRequest.fields]
  have hpieces : ∀ r : CacheableRequest, Terminated.pieces 0 (ascii r.agentID :: r.fields) =
      ascii r.agentID :: Terminated.pieces 0 r.fields := by
    intro r
    have hcons : Terminated.pieces 0 (ascii r.agentID :: r.fields) =
        List.splitOn 0 (ascii r.agentID) ++ Terminated.pieces 0 r.fields := rfl
    rw [hcons, List.splitOn_eq_singleton (zero_not_mem_ascii r.accepted), List.singleton_append]
  rw [hwrite, hwrite, Terminated.write_eq_iff, hpieces, hpieces, List.cons.injEq]
  refine and_congr_left fun _ => ⟨ascii_inj r.accepted r'.accepted, fun h => by rw [h]⟩

variable {sha256 : GoString → Digest}

theorem key_eq_iff (hsha : CollisionFree sha256 [r.hashed, r'.hashed]) :
    r.key sha256 = r'.key sha256 ↔ r.hashed = r'.hashed := by
  rw [key, key, cacheKey, cacheKey, checksumOf_eq_iff]
  constructor
  · intro h
    exact hsha r.hashed (by simp) r'.hashed (by simp) h
  · intro h
    exact congrArg sha256 h

/-- One key stands for two requests exactly when their zero bytes alone keep them apart. -/
theorem key_separates_iff (hsha : CollisionFree sha256 [r.hashed, r'.hashed]) :
    (r.key sha256 = r'.key sha256 → r.Same r') ↔ ¬r.CutApart r' := by
  rw [key_eq_iff hsha, hashed_eq_iff]
  constructor
  · intro hsame hcut
    apply hcut.cuts
    rw [(hsame ⟨hcut.agentID, hcut.pieces⟩).fields]
  · intro hcut hkey
    by_contra hdiffer
    refine hcut ⟨hkey.1, hkey.2, fun hcuts => hdiffer ?_⟩
    exact same_of_fields hkey.1 (Terminated.eq_of_pieces hkey.2 hcuts)

end CacheableRequest

/-- A request with one entry of context. -/
def entryRequest : CacheableRequest where
  agentID := "writer"
  payload := ascii "p"
  context := AList.insert (ascii "k") (ascii "v") ∅
  accepted := by decide

/-- The request whose payload holds that entry. -/
def inlineRequest : CacheableRequest where
  agentID := "writer"
  payload := ascii "p" ++ 0 :: (ascii "k" ++ 0 :: ascii "v")
  context := ∅
  accepted := by decide

def otherRequest : CacheableRequest where
  agentID := "writer"
  payload := ascii "q"
  context := ∅
  accepted := by decide

/-- SHA-256 on what is hashed of two requests. -/
def requestSHA256 (s : GoString) : Digest :=
  if s = entryRequest.hashed then
    ⟨bigEndian 32 0x7b171e34627e55c3e134a06e2ce375235ff62e790321f2096ec98a9a4a32ebf3,
      bigEndian_length 32 _⟩
  else
    ⟨bigEndian 32 0x76e2ec96b2c1f060863cc2587d2bd2c9532c2823577a5f3670474b843e24712c,
      bigEndian_length 32 _⟩

theorem entryRequest_separated :
    (entryRequest.key requestSHA256 = otherRequest.key requestSHA256 →
      entryRequest.Same otherRequest) ↔ ¬entryRequest.CutApart otherRequest :=
  CacheableRequest.key_separates_iff (by unfold CollisionFree; decide)

/-- Whatever the digest, the two requests have one key. -/
theorem inlineRequest_confused :
    (∀ sha256, inlineRequest.key sha256 = entryRequest.key sha256) ∧
      ¬inlineRequest.Same entryRequest := by
  have hhashed : inlineRequest.hashed = entryRequest.hashed := by decide
  refine ⟨fun sha256 => congrArg (checksumOf sha256) hhashed, fun hsame => ?_⟩
  have hpayload := hsame.payload
  revert hpayload
  decide

end Persatrix.Cost
