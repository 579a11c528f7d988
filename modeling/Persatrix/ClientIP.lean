import Persatrix.NetAddress

/-!
# The key of the per-source limiter

Behind trusted proxies the source of a request is the last address in the forwarded hops that is
not trusted. A client writes only in front of the address that its first proxy appends.
-/
namespace Persatrix.Net

def ipTrusted (ip : IP) (trusted : List IPNet) : Bool := trusted.any fun n => n.contains ip

def remoteHost (remoteAddr : GoString) : GoString :=
  ((splitHostPort remoteAddr).map Prod.fst).getD remoteAddr

/-- The walk over the hops, the nearest first. -/
def walkHops (trusted : List IPNet) (host : GoString) : List GoString → GoString
  | [] => host
  | hop :: hops =>
    if trimSpace hop = [] then walkHops trusted host hops
    else
      match parseIP (trimSpace hop) with
      | none => trimSpace hop
      | some ip => if ipTrusted ip trusted then walkHops trusted host hops else ipString ip

/-- The hops that the values of the header name. -/
def forwardedHops (values : List GoString) : List GoString :=
  (List.intercalate [comma] values).splitOn comma

def clientIP (remoteAddr : GoString) (values : List GoString) (trusted : List IPNet) : GoString :=
  let host := remoteHost remoteAddr
  match parseIP host with
  | none => host
  | some peer =>
    if ipTrusted peer trusted then walkHops trusted host (forwardedHops values).reverse else host

/-! ### What proxies forward -/

/-- A text that is read as the address, blanks around it aside. -/
structure Spells (text : GoString) (ip : IP) : Prop where
  bare : comma ∉ text
  reads : parseIP (trimSpace text) = some ip

/-- The values of the header after each proxy has appended the address of its peer, in a line of
its own or to the last one. -/
inductive Forwards (sent : List GoString) : List IP → List GoString → Prop
  | sent : Forwards sent [] sent
  | line {peers : List IP} {values : List GoString} {ip : IP} {text : GoString}
      (h : Forwards sent peers values) (htext : Spells text ip) :
      Forwards sent (peers ++ [ip]) (values ++ [text])
  | joined {peers : List IP} {values : List GoString} {last : GoString} {ip : IP} {text : GoString}
      (h : Forwards sent peers (values ++ [last])) (htext : Spells text ip) :
      Forwards sent (peers ++ [ip]) (values ++ [last ++ comma :: text])

theorem intercalate_concat {α : Type} (sep : List α) {values : List (List α)} (h : values ≠ [])
    (value : List α) :
    List.intercalate sep (values ++ [value]) = List.intercalate sep values ++ sep ++ value := by
  induction values with
  | nil => exact absurd rfl h
  | cons v values ih =>
    cases values with
    | nil => simp [List.intercalate]
    | cons w values =>
      have hrest := ih (List.cons_ne_nil w values)
      simp only [List.intercalate, List.cons_append, List.intersperse, List.flatten_cons] at hrest ⊢
      rw [hrest]
      simp [List.append_assoc]

theorem forwardedHops_line {values : List GoString} (h : values ≠ []) {text : GoString}
    (htext : comma ∉ text) : forwardedHops (values ++ [text]) = forwardedHops values ++ [text] := by
  unfold forwardedHops
  rw [intercalate_concat _ h, List.append_assoc, List.singleton_append,
    List.splitOn_append_cons_self, List.splitOn_eq_singleton htext]

theorem forwardedHops_joined (values : List GoString) (last : GoString) {text : GoString}
    (htext : comma ∉ text) :
    forwardedHops (values ++ [last ++ comma :: text]) =
      forwardedHops (values ++ [last]) ++ [text] := by
  unfold forwardedHops
  have hjoin : List.intercalate [comma] (values ++ [last ++ comma :: text]) =
      List.intercalate [comma] (values ++ [last]) ++ comma :: text := by
    by_cases hvalues : values = []
    · simp [hvalues, List.intercalate]
    · rw [intercalate_concat _ hvalues, intercalate_concat _ hvalues, List.append_assoc,
        List.append_assoc, List.append_assoc]
  rw [hjoin, List.splitOn_append_cons_self, List.splitOn_eq_singleton htext]

/-- What the proxies have appended are the last hops. -/
theorem Forwards.hops {sent : List GoString} {peers : List IP} {values : List GoString}
    (h : Forwards sent peers values) : (values = [] → peers = []) ∧
      ∃ before texts, forwardedHops values = before ++ texts ∧ List.Forall₂ Spells texts peers := by
  induction h with
  | sent => exact ⟨fun _ => rfl, forwardedHops sent, [], (List.append_nil _).symm, .nil⟩
  | @line peers values ip text h htext ih =>
    obtain ⟨hempty, before, texts, hhops, hspells⟩ := ih
    refine ⟨fun habsurd => by simp at habsurd, ?_⟩
    by_cases hvalues : values = []
    · refine ⟨[], [text], ?_, ?_⟩
      · rw [hvalues]
        simp [forwardedHops, List.intercalate, List.splitOn_eq_singleton htext.bare]
      · rw [hempty hvalues]
        exact .cons htext .nil
    · refine ⟨before, texts ++ [text], ?_, List.rel_append hspells (.cons htext .nil)⟩
      rw [forwardedHops_line hvalues htext.bare, hhops, List.append_assoc]
  | @joined peers values last ip text h htext ih =>
    obtain ⟨-, before, texts, hhops, hspells⟩ := ih
    refine ⟨fun habsurd => by simp at habsurd, before, texts ++ [text], ?_,
      List.rel_append hspells (.cons htext .nil)⟩
    rw [forwardedHops_joined values last htext.bare, hhops, List.append_assoc]

/-! ### The walk -/

variable {trusted : List IPNet}

theorem parseIP_nil : parseIP [] = none := rfl

theorem walkHops_spelled {text : GoString} {ip : IP} (h : Spells text ip) (host : GoString)
    (hops : List GoString) :
    walkHops trusted host (text :: hops) =
      if ipTrusted ip trusted then walkHops trusted host hops else ipString ip := by
  have hne : trimSpace text ≠ [] := by
    intro hnil
    have hreads := h.reads
    rw [hnil, parseIP_nil] at hreads
    cases hreads
  rw [walkHops, if_neg hne, h.reads]

/-- The walk passes the trusted hops that are nearest. -/
theorem walkHops_trusted {texts : List GoString} {peers : List IP}
    (h : List.Forall₂ Spells texts peers) (htrusted : ∀ p ∈ peers, ipTrusted p trusted = true)
    (host : GoString) (hops : List GoString) :
    walkHops trusted host (texts ++ hops) = walkHops trusted host hops := by
  induction h with
  | nil => rfl
  | cons htext _ ih =>
    rw [List.forall_mem_cons] at htrusted
    rw [List.cons_append, walkHops_spelled htext, if_pos htrusted.1]
    exact ih htrusted.2

/-- Behind trusted proxies the key is the canonical text of the client's address, and without one
it is the peer: whatever the client sent. -/
theorem clientIP_unforgeable (remoteAddr : GoString) (trusted : List IPNet) :
    (∀ (client : IP) (proxies : List IP) (peer : IP) (sent values : List GoString),
      ipTrusted client trusted = false → (∀ p ∈ proxies ++ [peer], ipTrusted p trusted = true) →
      parseIP (remoteHost remoteAddr) = some peer → Forwards sent (client :: proxies) values →
      clientIP remoteAddr values trusted = ipString client) ∧
    ((∀ peer, parseIP (remoteHost remoteAddr) = some peer → ipTrusted peer trusted = false) →
      ∀ values, clientIP remoteAddr values trusted = remoteHost remoteAddr) := by
  constructor
  · intro client proxies peer sent values hclient hproxies hpeer hforwards
    obtain ⟨-, before, texts, hhops, hspells⟩ := hforwards.hops
    cases hspells with
    | @cons text _ texts _ htext htexts =>
      unfold clientIP
      dsimp only
      rw [hpeer]
      dsimp only
      rw [if_pos (hproxies peer (by simp)), hhops, List.reverse_append, List.reverse_cons,
        List.append_assoc]
      have hpassed : ∀ p ∈ proxies.reverse, ipTrusted p trusted = true := by
        intro p hp
        exact hproxies p (List.mem_append_left _ (List.mem_reverse.mp hp))
      rw [walkHops_trusted (List.rel_reverse htexts) hpassed, List.singleton_append,
        walkHops_spelled htext, hclient, if_neg Bool.false_ne_true]
  · intro huntrusted values
    unfold clientIP
    dsimp only
    cases hpeer : parseIP (remoteHost remoteAddr) with
    | none => rfl
    | some peer =>
      dsimp only
      rw [huntrusted peer hpeer, if_neg Bool.false_ne_true]

/-- A forged address is in front of the one that the proxy appends. -/
theorem clientIP_unforgeable_forged :
    clientIP (ascii "10.0.0.1:80") [ascii "6.6.6.6" ++ comma :: ascii " 9.9.9.9"]
        [⟨[10, 0, 0, 0], [255, 0, 0, 0]⟩] = ipString (v4InV6Prefix ++ [9, 9, 9, 9]) ∧
      ipString (v4InV6Prefix ++ [9, 9, 9, 9]) = ascii "9.9.9.9" :=
  ⟨(clientIP_unforgeable (ascii "10.0.0.1:80") [⟨[10, 0, 0, 0], [255, 0, 0, 0]⟩]).1
    (v4InV6Prefix ++ [9, 9, 9, 9]) [] (v4InV6Prefix ++ [10, 0, 0, 1]) [ascii "6.6.6.6"] _
    (by decide) (by decide) (by decide)
    (@Forwards.joined [ascii "6.6.6.6"] [] [] (ascii "6.6.6.6") (v4InV6Prefix ++ [9, 9, 9, 9])
      (ascii " 9.9.9.9") .sent ⟨by decide, by decide⟩), by decide⟩

end Persatrix.Net
