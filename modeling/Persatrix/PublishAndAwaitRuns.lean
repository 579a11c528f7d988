import Persatrix.PublishAndAwait

/-!
# Whose answer a call returns

A message taken for a call is a message of the awaited agent on the channel of the call, and no other
call's. Which question it answers the table does not know: it is the right one where no reply to
another message is notified while a call waits.
-/
namespace Persatrix.Channels

theorem ReplyWaiter.lookup_cancel {w : ReplyWaiter} {key key' : WaiterKey} {ch ch' : ℕ}
    (h : (w.cancel key ch).lookup key' = some ch') :
    w.lookup key' = some ch' ∧ (key' = key → ch' ≠ ch) := by
  unfold ReplyWaiter.cancel at h
  split_ifs at h with hours
  · rw [GoMap.lookup_erase] at h
    split_ifs at h with hkey
    exact ⟨h, fun heq => absurd heq hkey⟩
  · refine ⟨h, ?_⟩
    rintro rfl rfl
    exact hours h

theorem ReplyWaiter.lookup_register {w w' : ReplyWaiter} {key key' : WaiterKey} {ch ch' : ℕ}
    (hregister : w.register key ch = some w') (h : w'.lookup key' = some ch') :
    w.lookup key' = some ch' ∨ key' = key ∧ ch' = ch := by
  unfold ReplyWaiter.register at hregister
  cases hkey : w.lookup key with
  | some old =>
    rw [hkey] at hregister
    cases hregister
  | none =>
    rw [hkey] at hregister
    cases hregister
    rw [GoMap.lookup_insert] at h
    split_ifs at h with hsame
    · cases h
      exact .inr ⟨hsame, rfl⟩
    · exact .inl h

/-- A message of the awaited agent on the channel of the call. -/
def Suits (s : ChatState) (c k : ℕ) : Prop :=
  ∃ call m, s.calls[c]? = some call ∧ s.stored[k]? = some m ∧ m.key = call.key

/-- A waiter has taken no message yet; a message that is taken is on its way to one call. -/
structure ChatKept (s : ChatState) : Prop where
  waiting : ∀ key c, s.waiters.lookup key = some c → s.taken c = none ∧
    ∃ call, s.calls[c]? = some call ∧ call.key = key ∧ call.hasReturned = false
  sending : ∀ c k, (c, k) ∈ s.sending → s.taken c = some k ∧ s.buffer c = none
  sendingOnce : s.sending.Nodup
  buffered : ∀ c k, s.buffer c = some k → s.taken c = some k
  replied : ∀ (c : ℕ) call k, s.calls[c]? = some call → call.result = some (.reply k) →
    s.taken c = some k ∧ s.buffer c = none ∧ (c, k) ∉ s.sending
  suits : ∀ c k, s.taken c = some k → Suits s c k ∧ k ∉ s.unnotified
  once : ∀ c c' k, s.taken c = some k → s.taken c' = some k → c = c'
  unnotified : s.unnotified.Nodup ∧ ∀ k ∈ s.unnotified, k < s.stored.length
  timely : ∀ call ∈ s.calls, call.Timely

theorem getElem?_set_calls {s : ChatState} {c : ℕ} {call next : ChatCall}
    (hcall : s.calls[c]? = some call) (i : ℕ) :
    (s.calls.set c next)[i]? = if i = c then some next else s.calls[i]? := by
  have hlt := (List.getElem?_eq_some_iff.mp hcall).1
  rw [List.getElem?_set]
  by_cases hi : i = c
  · rw [if_pos hi.symm, if_pos hi, if_pos (hi ▸ hlt)]
  · rw [if_neg (Ne.symm hi), if_neg hi]

namespace ChatKept
variable {s : ChatState} {c : ℕ} {call : ChatCall}

theorem init : ChatKept chatSystem.init where
  waiting key c h := by
    have hnone : (∅ : ReplyWaiter).lookup key = none := GoMap.lookup_empty key
    rw [show chatSystem.init.waiters = (∅ : ReplyWaiter) from rfl, hnone] at h
    cases h
  sending c k h := by cases h
  sendingOnce := .nil
  buffered c k h := by cases h
  replied c call k h := by cases h
  suits c k h := by cases h
  once c c' k h := by cases h
  unnotified := ⟨.nil, fun k h => by cases h⟩
  timely call h := by cases h

theorem commit (h : ChatKept s) (m : StoredMessage) : ChatKept (s.commit m) where
  waiting := h.waiting
  sending := h.sending
  sendingOnce := h.sendingOnce
  buffered := h.buffered
  replied := h.replied
  suits c k hk := by
    obtain ⟨⟨call, n, hcall, hn, hkey⟩, hunnotified⟩ := h.suits c k hk
    have hlt := (List.getElem?_eq_some_iff.mp hn).1
    refine ⟨⟨call, n, hcall, ?_, hkey⟩, ?_⟩
    · unfold ChatState.commit
      rw [List.getElem?_append_left hlt]
      exact hn
    · intro hmem
      rcases List.mem_append.mp hmem with hmem | hmem
      · exact hunnotified hmem
      · rw [List.mem_singleton.mp hmem] at hlt
        exact lt_irrefl _ hlt
  once := h.once
  unnotified := by
    obtain ⟨hnodup, hlt⟩ := h.unnotified
    refine ⟨?_, fun k hk => ?_⟩
    · refine List.nodup_append.mpr ⟨hnodup, List.nodup_singleton _, fun a ha b hb heq => ?_⟩
      rw [List.mem_singleton.mp hb] at heq
      have := hlt a ha
      omega
    · unfold ChatState.commit
      rw [List.length_append]
      rcases List.mem_append.mp hk with hk | hk
      · have := hlt k hk
        omega
      · rw [List.mem_singleton.mp hk]
        simp
  timely := h.timely

/-- A call changes to one with the same key, which has the replies that came for it. -/
theorem setCall (h : ChatKept s) (hcall : s.calls[c]? = some call) {next : ChatCall}
    (hkey : next.key = call.key)
    (hreturned : (∃ key, s.waiters.lookup key = some c) → next.hasReturned = call.hasReturned)
    (hreply : ∀ k, next.result = some (.reply k) →
      s.taken c = some k ∧ s.buffer c = none ∧ (c, k) ∉ s.sending)
    (htimely : next.Timely) : ChatKept (s.setCall c next) := by
  have hget := @getElem?_set_calls s c call next hcall
  constructor
  · intro key c' hlookup
    obtain ⟨hfree, old, hold, hkey', hopen⟩ := h.waiting key c' hlookup
    refine ⟨hfree, ?_⟩
    unfold ChatState.setCall
    rw [hget]
    by_cases hc : c' = c
    · subst hc
      rw [hcall] at hold
      cases hold
      rw [if_pos rfl]
      exact ⟨next, rfl, hkey.trans hkey', (hreturned ⟨key, hlookup⟩).trans hopen⟩
    · rw [if_neg hc]
      exact ⟨old, hold, hkey', hopen⟩
  · exact h.sending
  · exact h.sendingOnce
  · exact h.buffered
  · intro c' call' k hcall' hresult
    unfold ChatState.setCall at hcall'
    rw [hget] at hcall'
    split_ifs at hcall' with hc
    · cases hcall'
      rw [hc]
      exact hreply k hresult
    · exact h.replied c' call' k hcall' hresult
  · intro c' k htaken
    obtain ⟨⟨old, m, hold, hm, hkey'⟩, hunnotified⟩ := h.suits c' k htaken
    refine ⟨?_, hunnotified⟩
    unfold Suits ChatState.setCall
    rw [hget]
    by_cases hc : c' = c
    · subst hc
      rw [hcall] at hold
      cases hold
      exact ⟨next, m, if_pos rfl, hm, hkey'.trans hkey.symm⟩
    · exact ⟨old, m, (if_neg hc).trans hold, hm, hkey'⟩
  · exact h.once
  · exact h.unnotified
  · intro call' hmem
    rcases List.mem_or_eq_of_mem_set hmem with hmem | rfl
    · exact h.timely call' hmem
    · exact htimely

theorem clear (h : ChatKept s) (c : ℕ) :
    ChatKept { s with buffer := Function.update s.buffer c none } := by
  have hstill : ∀ c', s.buffer c' = none → Function.update s.buffer c none c' = none := by
    intro c' hnone
    rw [Function.update_apply]
    split_ifs
    · rfl
    · exact hnone
  constructor
  · exact h.waiting
  · exact fun c' k hmem => ⟨(h.sending c' k hmem).1, hstill c' (h.sending c' k hmem).2⟩
  · exact h.sendingOnce
  · intro c' k hbuffer
    dsimp only at hbuffer
    rw [Function.update_apply] at hbuffer
    split_ifs at hbuffer
    exact h.buffered c' k hbuffer
  · intro c' call' k hcall' hresult
    obtain ⟨htaken, hnone, hsent⟩ := h.replied c' call' k hcall' hresult
    exact ⟨htaken, hstill c' hnone, hsent⟩
  · exact h.suits
  · exact h.once
  · exact h.unnotified
  · exact h.timely

theorem receive (h : ChatKept s) (hcall : s.calls[c]? = some call) {k : ℕ}
    (hbuffer : s.buffer c = some k) (hstage : call.stage = .awaiting) :
    ChatKept { s.setCall c { call with stage := .leaving (.reply k) } with
      buffer := Function.update s.buffer c none } := by
  refine (h.clear c).setCall hcall rfl (fun _ => ?_) (fun k' hk => ?_) ⟨nofun, nofun⟩
  · simp [ChatCall.hasReturned, hstage]
  · cases hk
    refine ⟨h.buffered c k hbuffer, Function.update_self .., fun hmem => ?_⟩
    rw [(h.sending c k hmem).2] at hbuffer
    cases hbuffer

theorem cancel (h : ChatKept s) (hcall : s.calls[c]? = some call) {result : ChatResult}
    (hstage : call.stage = .leaving result) :
    ChatKept { s.setCall c { call with stage := .returned result } with
      waiters := s.waiters.cancel call.key c } := by
  have hresult : call.result = some result := by rw [ChatCall.result, hstage]
  have hcancelled : ChatKept { s with waiters := s.waiters.cancel call.key c } :=
    { h with waiting := fun key c' hlookup =>
        h.waiting key c' (ReplyWaiter.lookup_cancel hlookup).1 }
  refine hcancelled.setCall hcall rfl ?_ (fun k hk => ?_) ?_
  · rintro ⟨key, hlookup⟩
    obtain ⟨hbefore, hours⟩ := ReplyWaiter.lookup_cancel hlookup
    obtain ⟨-, old, hold, hkey, -⟩ := h.waiting key c hbefore
    rw [hcall] at hold
    cases hold
    exact absurd rfl (hours hkey.symm)
  · cases hk
    exact h.replied c call k hcall hresult
  · have htimely := h.timely call (List.mem_of_getElem? hcall)
    refine ⟨fun hr => htimely.timer ?_, fun hr => htimely.context ?_⟩
    · cases hr
      exact hresult
    · cases hr
      exact hresult

theorem act (h : ChatKept s) {t : ChatState} {action : ChatAction}
    (hcall : s.calls[c]? = some call) (hact : s.act c call action = some t) : ChatKept t := by
  have htimely := h.timely call (List.mem_of_getElem? hcall)
  cases ChatState.acts_of_act hact with
  | onward next hnext =>
    exact h.setCall hcall hnext.key (fun _ => hnext.returned)
      (fun k hk => h.replied c call k hcall (hnext.reply k hk)) (hnext.timely htimely)
  | commit provokedBy hstage =>
    refine (h.commit _).setCall hcall rfl (fun _ => ?_) nofun ⟨nofun, nofun⟩
    simp [ChatCall.hasReturned, hstage]
  | receive k hstage hbuffer => exact h.receive hcall hbuffer hstage
  | cancel result hstage => exact h.cancel hcall hstage

/-- A call is entered that has no reply. -/
theorem append (h : ChatKept s) (next : ChatCall) (hreply : ∀ k, next.result ≠ some (.reply k))
    (htimely : next.Timely) : ChatKept { s with calls := s.calls ++ [next] } := by
  have hold : ∀ (c : ℕ) (call : ChatCall), s.calls[c]? = some call →
      (s.calls ++ [next])[c]? = some call := fun c call hcall =>
    List.getElem?_append_left (List.getElem?_eq_some_iff.mp hcall).1 ▸ hcall
  constructor
  · intro key c hlookup
    obtain ⟨hfree, call, hcall, hkey, hopen⟩ := h.waiting key c hlookup
    exact ⟨hfree, call, hold c call hcall, hkey, hopen⟩
  · exact h.sending
  · exact h.sendingOnce
  · exact h.buffered
  · intro c call k hcall hresult
    rcases List.mem_append.mp (List.mem_of_getElem? hcall) with _ | hnew
    · rw [List.getElem?_append] at hcall
      split_ifs at hcall
      · exact h.replied c call k hcall hresult
      · rw [List.mem_singleton.mp (List.mem_of_getElem? hcall)] at hresult
        exact absurd hresult (hreply k)
    · rw [List.mem_singleton.mp hnew] at hresult
      exact absurd hresult (hreply k)
  · intro c k htaken
    obtain ⟨⟨call, m, hcall, hm, hkey⟩, hunnotified⟩ := h.suits c k htaken
    exact ⟨⟨call, m, hold c call hcall, hm, hkey⟩, hunnotified⟩
  · exact h.once
  · exact h.unnotified
  · intro call hmem
    rcases List.mem_append.mp hmem with hmem | hmem
    · exact h.timely call hmem
    · rw [List.mem_singleton.mp hmem]
      exact htimely

theorem enter (h : ChatKept s) (channelID senderID awaitFromAgentID : String) :
    ChatKept (s.enter channelID senderID awaitFromAgentID) := by
  unfold ChatState.enter
  split_ifs with hself
  · exact h.append _ nofun ⟨nofun, nofun⟩
  · cases hregister : s.waiters.register ⟨channelID, awaitFromAgentID⟩ s.calls.length with
    | none => exact h.append _ nofun ⟨nofun, nofun⟩
    | some waiters =>
      have hfresh : s.taken s.calls.length = none := by
        by_contra htaken
        obtain ⟨k, hk⟩ := Option.ne_none_iff_exists'.mp htaken
        obtain ⟨⟨call, m, hcall, -, -⟩, -⟩ := h.suits _ k hk
        exact lt_irrefl _ (List.getElem?_eq_some_iff.mp hcall).1
      have happend := h.append
        { channelID, senderID, awaitFromAgentID, stage := .registered } nofun ⟨nofun, nofun⟩
      refine { happend with waiting := fun key c hlookup => ?_ }
      rcases ReplyWaiter.lookup_register hregister hlookup with hlookup | ⟨rfl, rfl⟩
      · exact happend.waiting key c hlookup
      · exact ⟨hfresh, _, List.getElem?_concat_length, rfl, rfl⟩

/-- A message leaves the messages still to be notified. -/
theorem notified (h : ChatKept s) (k : ℕ) :
    ChatKept { s with unnotified := s.unnotified.erase k } where
  waiting := h.waiting
  sending := h.sending
  sendingOnce := h.sendingOnce
  buffered := h.buffered
  replied := h.replied
  suits c k' htaken :=
    ⟨(h.suits c k' htaken).1, fun hmem => (h.suits c k' htaken).2 (List.mem_of_mem_erase hmem)⟩
  once := h.once
  unnotified := ⟨h.unnotified.1.erase k,
    fun k' hmem => h.unnotified.2 k' (List.mem_of_mem_erase hmem)⟩
  timely := h.timely

theorem notify (h : ChatKept s) {k : ℕ} {m : StoredMessage} (hstored : s.stored[k]? = some m)
    (hk : k ∈ s.unnotified) : ChatKept (s.notify k m) := by
  unfold ChatState.notify
  cases hlookup : s.waiters.lookup m.key with
  | none => exact h.notified k
  | some c =>
    obtain ⟨hfree, call, hcall, hkey, hopen⟩ := h.waiting m.key c hlookup
    have hnotified := h.notified k
    have htaken : ∀ c' k', Function.update s.taken c (some k) c' = some k' →
        c' = c ∧ k' = k ∨ c' ≠ c ∧ s.taken c' = some k' := by
      intro c' k' htaken
      rw [Function.update_apply] at htaken
      split_ifs at htaken with hc
      · cases htaken
        exact .inl ⟨hc, rfl⟩
      · exact .inr ⟨hc, htaken⟩
    have hkept : ∀ c' k', s.taken c' = some k' →
        Function.update s.taken c (some k) c' = some k' := by
      intro c' k' hold
      rw [Function.update_of_ne]
      · exact hold
      · rintro rfl
        rw [hfree] at hold
        cases hold
    constructor
    · intro key c' hlater
      dsimp only at hlater ⊢
      rw [GoMap.lookup_erase] at hlater
      split_ifs at hlater with hsame
      obtain ⟨hfree', call', hcall', hkey', hopen'⟩ := h.waiting key c' hlater
      refine ⟨?_, call', hcall', hkey', hopen'⟩
      rw [Function.update_of_ne]
      · exact hfree'
      · rintro rfl
        rw [hcall] at hcall'
        cases hcall'
        exact hsame (hkey'.symm.trans hkey)
    · intro c' k' hmem
      rcases List.mem_append.mp hmem with hmem | hmem
      · exact ⟨hkept c' k' (h.sending c' k' hmem).1, (h.sending c' k' hmem).2⟩
      · cases List.mem_singleton.mp hmem
        refine ⟨Function.update_self .., ?_⟩
        by_contra hbuffer
        obtain ⟨k', hk'⟩ := Option.ne_none_iff_exists'.mp hbuffer
        have := h.buffered c k' hk'
        rw [hfree] at this
        cases this
    · refine List.nodup_append.mpr ⟨h.sendingOnce, List.nodup_singleton _, ?_⟩
      rintro p hp q hq rfl
      rw [List.mem_singleton.mp hq] at hp
      have := (h.sending c k hp).1
      rw [hfree] at this
      cases this
    · exact fun c' k' hbuffer => hkept c' k' (h.buffered c' k' hbuffer)
    · intro c' call' k' hcall' hresult
      obtain ⟨hold, hbuffer, hsent⟩ := h.replied c' call' k' hcall' hresult
      refine ⟨hkept c' k' hold, hbuffer, fun hmem => ?_⟩
      rcases List.mem_append.mp hmem with hmem | hmem
      · exact hsent hmem
      · cases List.mem_singleton.mp hmem
        rw [hfree] at hold
        cases hold
    · intro c' k' hlater
      rcases htaken c' k' hlater with ⟨rfl, rfl⟩ | ⟨-, hold⟩
      · exact ⟨⟨call, m, hcall, hstored, hkey.symm⟩, h.unnotified.1.not_mem_erase⟩
      · exact hnotified.suits c' k' hold
    · intro c₁ c₂ k' h₁ h₂
      have hlate : ∀ c', s.taken c' ≠ some k := fun c' hold => (h.suits c' k hold).2 hk
      rcases htaken c₁ k' h₁ with ⟨rfl, rfl⟩ | ⟨-, hold₁⟩
      · rcases htaken c₂ _ h₂ with ⟨rfl, -⟩ | ⟨-, hold₂⟩
        · rfl
        · exact absurd hold₂ (hlate c₂)
      · rcases htaken c₂ k' h₂ with ⟨rfl, rfl⟩ | ⟨-, hold₂⟩
        · exact absurd hold₁ (hlate c₁)
        · exact h.once c₁ c₂ k' hold₁ hold₂
    · exact hnotified.unnotified
    · exact h.timely

theorem send (h : ChatKept s) {k : ℕ} (hmem : (c, k) ∈ s.sending) :
    ChatKept { s with
      sending := s.sending.erase (c, k), buffer := Function.update s.buffer c (some k) } := by
  have htaken := (h.sending c k hmem).1
  have hother : ∀ c' k', (c', k') ∈ s.sending.erase (c, k) → c' ≠ c := by
    rintro c' k' hlater rfl
    have hold := (h.sending c' k' (List.mem_of_mem_erase hlater)).1
    rw [htaken] at hold
    cases hold
    exact h.sendingOnce.not_mem_erase hlater
  constructor
  · exact h.waiting
  · intro c' k' hlater
    obtain ⟨hold, hbuffer⟩ := h.sending c' k' (List.mem_of_mem_erase hlater)
    refine ⟨hold, ?_⟩
    dsimp only
    rw [Function.update_of_ne (hother c' k' hlater)]
    exact hbuffer
  · exact h.sendingOnce.erase _
  · intro c' k' hbuffer
    dsimp only at hbuffer
    rw [Function.update_apply] at hbuffer
    split_ifs at hbuffer with hc
    · cases hbuffer
      exact hc ▸ htaken
    · exact h.buffered c' k' hbuffer
  · intro c' call' k' hcall' hresult
    obtain ⟨hold, hbuffer, hsent⟩ := h.replied c' call' k' hcall' hresult
    refine ⟨hold, ?_, fun hlater => hsent (List.mem_of_mem_erase hlater)⟩
    dsimp only
    rw [Function.update_of_ne]
    · exact hbuffer
    · rintro rfl
      rw [htaken] at hold
      cases hold
      exact hsent hmem
  · exact h.suits
  · exact h.once
  · exact h.unnotified
  · exact h.timely

theorem step (h : ChatKept s) {t : ChatState} {e : ChatEvent} (hstep : s.step e = some t) :
    ChatKept t := by
  cases e with
  | enter channelID senderID awaitFromAgentID =>
    cases hstep
    exact h.enter ..
  | act c action =>
    obtain ⟨call, hcall, hact⟩ := Option.bind_eq_some_iff.mp hstep
    exact h.act hcall hact
  | publish channelID senderID provokedBy =>
    dsimp only [ChatState.step] at hstep
    split_ifs at hstep
    cases hstep
    exact h.commit _
  | deliver k participantID =>
    obtain ⟨m, hm, hdeliver⟩ := Option.bind_eq_some_iff.mp hstep
    split_ifs at hdeliver
    cases hdeliver
    exact { h with }
  | notify k =>
    obtain ⟨m, hm, hnotify⟩ := Option.bind_eq_some_iff.mp hstep
    split_ifs at hnotify with hk
    cases hnotify
    exact h.notify hm hk
  | send c k =>
    dsimp only [ChatState.step] at hstep
    split_ifs at hstep with hguard
    cases hstep
    rw [Bool.and_eq_true, decide_eq_true_eq] at hguard
    exact h.send hguard.1

end ChatKept

theorem chatKept_of_reachable {s : ChatState} (h : chatSystem.Reachable s) : ChatKept s :=
  h.invariant ChatKept.init fun _ _ _ hs hstep => hs.step hstep

theorem chatKept_of_reaches {C : ChatState → ChatEvent → Prop} {s : ChatState}
    (h : chatSystem.Reaches C s) : ChatKept s :=
  chatKept_of_reachable (h.mono fun _ _ _ => trivial)

/-! ### What holds of every run -/

theorem ChatKept.reply {s : ChatState} (h : ChatKept s) {c k : ℕ} {call : ChatCall}
    (hcall : s.calls[c]? = some call) (hreply : call.stage = .returned (.reply k)) :
    s.taken c = some k := by
  refine (h.replied c call k hcall ?_).1
  rw [ChatCall.result, hreply]

/-- A message that Notify has taken finds its buffer empty. -/
theorem ChatKept.send_isSome {s : ChatState} (h : ChatKept s) {c k : ℕ}
    (hmem : (c, k) ∈ s.sending) : (s.step (.send c k)).isSome := by
  have hguard : ((c, k) ∈ s.sending && (s.buffer c).isNone) = true := by
    rw [(h.sending c k hmem).2]
    simpa using hmem
  unfold ChatState.step
  dsimp only
  rw [if_pos hguard]
  rfl

theorem ChatKept.alreadyRegistered {s : ChatState} (h : ChatKept s)
    {channelID senderID awaitFromAgentID : String} {call : ChatCall}
    (hentered : (s.enter channelID senderID awaitFromAgentID).calls[s.calls.length]? = some call)
    (hrefused : call.stage = .returned .alreadyRegistered) :
    ∃ other ∈ s.calls, other.key = ⟨channelID, awaitFromAgentID⟩ ∧ other.hasReturned = false := by
  cases hlookup : s.waiters.lookup ⟨channelID, awaitFromAgentID⟩ with
  | some c =>
    obtain ⟨-, other, hother, hkey, hopen⟩ := h.waiting _ c hlookup
    exact ⟨other, List.mem_of_getElem? hother, hkey, hopen⟩
  | none =>
    unfold ChatState.enter ReplyWaiter.register at hentered
    rw [hlookup] at hentered
    split_ifs at hentered
    · rw [List.getElem?_concat_length] at hentered
      cases hentered
      cases hrefused
    · rw [List.getElem?_concat_length] at hentered
      cases hentered
      cases hrefused

theorem ChatKept.waiters_empty {s : ChatState} (h : ChatKept s)
    (hreturned : ∀ call ∈ s.calls, call.hasReturned = true) : s.waiters = ∅ := by
  have hnone : ∀ key, s.waiters.lookup key = none := by
    intro key
    by_contra hsome
    obtain ⟨c, hc⟩ := Option.ne_none_iff_exists'.mp hsome
    obtain ⟨-, call, hcall, -, hopen⟩ := h.waiting key c hc
    rw [hreturned call (List.mem_of_getElem? hcall)] at hopen
    cases hopen
  refine AList.ext (List.eq_nil_iff_forall_not_mem.mpr fun entry hentry => ?_)
  have hlookup : s.waiters.lookup entry.1 = some entry.2 := AList.mem_lookup_iff.mpr hentry
  rw [hnone] at hlookup
  cases hlookup

/-! ### Replies to the question that waits -/

/-- A message is notified to a waiting call only if it answers the question of that call. -/
def OwnReplies (s : ChatState) : ChatEvent → Prop
  | .notify k => ∀ m ∈ s.stored[k]?, ∀ c ∈ s.waiters.lookup m.key, ∀ call ∈ s.calls[c]?,
      call.question.isSome ∧ m.provokedBy = call.question
  | _ => True

instance (s : ChatState) (e : ChatEvent) : Decidable (OwnReplies s e) :=
  match e with
  | .notify _ => inferInstanceAs (Decidable (∀ _ ∈ _, ∀ _ ∈ _, ∀ _ ∈ _, _ ∧ _))
  | .enter .. => inferInstanceAs (Decidable True)
  | .act .. => inferInstanceAs (Decidable True)
  | .publish .. => inferInstanceAs (Decidable True)
  | .deliver .. => inferInstanceAs (Decidable True)
  | .send .. => inferInstanceAs (Decidable True)

/-- What was taken for a call answers its question. -/
structure Answering (s : ChatState) : Prop where
  answers : ∀ c k, s.taken c = some k → ∃ call m n, s.calls[c]? = some call ∧
    s.stored[k]? = some m ∧ call.question = some n ∧ m.provokedBy = some n
  unasked : ∀ call ∈ s.calls, call.stage = .registered → call.question = none

namespace Answering
variable {s : ChatState} {c : ℕ} {call : ChatCall}

theorem init : Answering chatSystem.init where
  answers c k h := by cases h
  unasked call h := by cases h

theorem commit (h : Answering s) (m : StoredMessage) : Answering (s.commit m) where
  answers c k htaken := by
    obtain ⟨call, old, n, hcall, hold, hquestion, hprovoked⟩ := h.answers c k htaken
    refine ⟨call, old, n, hcall, ?_, hquestion, hprovoked⟩
    unfold ChatState.commit
    rw [List.getElem?_append_left (List.getElem?_eq_some_iff.mp hold).1]
    exact hold
  unasked := h.unasked

/-- A call changes to one that has the same question, where a message was taken for it. -/
theorem setCall (h : Answering s) (hcall : s.calls[c]? = some call) {next : ChatCall}
    (hquestion : s.taken c ≠ none → next.question = call.question)
    (hunasked : next.stage = .registered → next.question = none) :
    Answering (s.setCall c next) where
  answers c' k htaken := by
    obtain ⟨old, m, n, hold, hm, hquestion', hprovoked⟩ := h.answers c' k htaken
    unfold ChatState.setCall
    rw [getElem?_set_calls hcall]
    by_cases hc : c' = c
    · subst hc
      rw [hcall] at hold
      cases hold
      rw [if_pos rfl]
      refine ⟨next, m, n, rfl, hm, ?_, hprovoked⟩
      have htaken' : s.taken c' ≠ none := fun hnone => by
        rw [show s.taken c' = some k from htaken] at hnone
        cases hnone
      exact (hquestion htaken').trans hquestion'
    · rw [if_neg hc]
      exact ⟨old, m, n, hold, hm, hquestion', hprovoked⟩
  unasked call' hmem := by
    rcases List.mem_or_eq_of_mem_set hmem with hmem | rfl
    · exact h.unasked call' hmem
    · exact hunasked

theorem act (h : Answering s) {t : ChatState} {action : ChatAction}
    (hcall : s.calls[c]? = some call) (hact : s.act c call action = some t) : Answering t := by
  have hunasked := h.unasked call (List.mem_of_getElem? hcall)
  cases ChatState.acts_of_act hact with
  | onward next hnext =>
    refine h.setCall hcall (fun _ => hnext.question) fun hstage => ?_
    rw [hnext.question]
    exact hunasked (hnext.registered hstage)
  | commit provokedBy hstage =>
    refine (h.commit _).setCall hcall (fun htaken => ?_) nofun
    obtain ⟨k, hk⟩ := Option.ne_none_iff_exists'.mp htaken
    obtain ⟨old, m, n, hold, -, hquestion, -⟩ := h.answers c k hk
    rw [hcall] at hold
    cases hold
    rw [hunasked hstage] at hquestion
    cases hquestion
  | receive k hstage hbuffer =>
    have hset : Answering (s.setCall c { call with stage := .leaving (.reply k) }) :=
      h.setCall hcall (fun _ => rfl) nofun
    exact ⟨hset.answers, hset.unasked⟩
  | cancel result hstage =>
    have hset : Answering (s.setCall c { call with stage := .returned result }) :=
      h.setCall hcall (fun _ => rfl) nofun
    exact ⟨hset.answers, hset.unasked⟩

theorem append (h : Answering s) (next : ChatCall) (hquestion : next.question = none) :
    Answering { s with calls := s.calls ++ [next] } where
  answers c k htaken := by
    obtain ⟨call, m, n, hcall, hrest⟩ := h.answers c k htaken
    refine ⟨call, m, n, ?_, hrest⟩
    dsimp only
    rw [List.getElem?_append_left (List.getElem?_eq_some_iff.mp hcall).1]
    exact hcall
  unasked call hmem := by
    rcases List.mem_append.mp hmem with hmem | hmem
    · exact h.unasked call hmem
    · rw [List.mem_singleton.mp hmem]
      exact fun _ => hquestion

theorem enter (h : Answering s) (channelID senderID awaitFromAgentID : String) :
    Answering (s.enter channelID senderID awaitFromAgentID) := by
  unfold ChatState.enter
  split_ifs with hself
  · exact h.append _ rfl
  · cases hregister : s.waiters.register ⟨channelID, awaitFromAgentID⟩ s.calls.length with
    | none => exact h.append _ rfl
    | some waiters =>
      have happend := h.append
        { channelID, senderID, awaitFromAgentID, stage := .registered } rfl
      exact ⟨happend.answers, happend.unasked⟩

theorem notify (h : Answering s) (hkept : ChatKept s) {k : ℕ} {m : StoredMessage}
    (hm : s.stored[k]? = some m) (hown : OwnReplies s (.notify k)) : Answering (s.notify k m) := by
  unfold ChatState.notify
  cases hlookup : s.waiters.lookup m.key with
  | none => exact ⟨h.answers, h.unasked⟩
  | some c =>
    obtain ⟨-, call, hcall, -, -⟩ := hkept.waiting m.key c hlookup
    obtain ⟨hasked, hprovoked⟩ := hown m hm c hlookup call hcall
    obtain ⟨n, hn⟩ := Option.isSome_iff_exists.mp hasked
    refine ⟨fun c' k' htaken => ?_, h.unasked⟩
    dsimp only at htaken
    rw [Function.update_apply] at htaken
    split_ifs at htaken with hc
    · cases htaken
      rw [hc]
      exact ⟨call, m, n, hcall, hm, hn, hprovoked.trans hn⟩
    · exact h.answers c' k' htaken

theorem step (h : Answering s) (hkept : ChatKept s) {t : ChatState} {e : ChatEvent}
    (hown : OwnReplies s e) (hstep : s.step e = some t) : Answering t := by
  cases e with
  | enter channelID senderID awaitFromAgentID =>
    cases hstep
    exact h.enter ..
  | act c action =>
    obtain ⟨call, hcall, hact⟩ := Option.bind_eq_some_iff.mp hstep
    exact h.act hcall hact
  | publish channelID senderID provokedBy =>
    dsimp only [ChatState.step] at hstep
    split_ifs at hstep
    cases hstep
    exact h.commit _
  | deliver k participantID =>
    obtain ⟨m, hm, hdeliver⟩ := Option.bind_eq_some_iff.mp hstep
    split_ifs at hdeliver
    cases hdeliver
    exact ⟨h.answers, h.unasked⟩
  | notify k =>
    obtain ⟨m, hm, hnotify⟩ := Option.bind_eq_some_iff.mp hstep
    split_ifs at hnotify
    cases hnotify
    exact h.notify hkept hm hown
  | send c k =>
    dsimp only [ChatState.step] at hstep
    split_ifs at hstep
    cases hstep
    exact ⟨h.answers, h.unasked⟩

end Answering

theorem answering_of_reaches {s : ChatState} (h : chatSystem.Reaches OwnReplies s) :
    Answering s := by
  induction h with
  | init => exact .init
  | step hreach hown hstep ih => exact ih.step (chatKept_of_reaches hreach) hown hstep

/-- Where no reply to another message is notified to a waiting call, a call returns an answer to its
own question. -/
theorem publishAndAwait_returns_own_answer {s : ChatState}
    (h : chatSystem.Reaches OwnReplies s) :
    (∀ (c k : ℕ) (call : ChatCall), s.calls[c]? = some call → call.stage = .returned (.reply k) →
      ∃ m n, s.stored[k]? = some m ∧ m.channelID = call.channelID ∧
        m.senderID = call.awaitFromAgentID ∧ call.question = some n ∧ m.provokedBy = some n) ∧
    (∀ (c c' k : ℕ) (call call' : ChatCall), s.calls[c]? = some call → s.calls[c']? = some call' →
      call.stage = .returned (.reply k) → call'.stage = .returned (.reply k) → c = c') ∧
    (∀ c k, (c, k) ∈ s.sending → (s.step (.send c k)).isSome) ∧
    (∀ channelID senderID awaitFromAgentID call,
      (s.enter channelID senderID awaitFromAgentID).calls[s.calls.length]? = some call →
      call.stage = .returned .alreadyRegistered →
      ∃ other ∈ s.calls, other.key = ⟨channelID, awaitFromAgentID⟩ ∧ other.hasReturned = false) ∧
    (∀ call ∈ s.calls, (call.stage = .returned .chatTimeout → call.timerFired = true) ∧
      (call.stage = .returned .contextErr → call.contextEnded = true)) ∧
    ((∀ call ∈ s.calls, call.hasReturned = true) → s.waiters = ∅) := by
  have hkept := chatKept_of_reaches h
  refine ⟨?_, ?_, fun c k hmem => hkept.send_isSome hmem,
    fun _ _ _ _ hentered hrefused => hkept.alreadyRegistered hentered hrefused, ?_,
    hkept.waiters_empty⟩
  · intro c k call hcall hreply
    have htaken := hkept.reply hcall hreply
    obtain ⟨old, m, n, hold, hm, hquestion, hprovoked⟩ :=
      (answering_of_reaches h).answers c k htaken
    obtain ⟨⟨old', m', hold', hm', hkey⟩, -⟩ := hkept.suits c k htaken
    rw [hcall] at hold hold'
    cases hold
    cases hold'
    rw [hm] at hm'
    cases hm'
    have hsender : m.senderID = call.awaitFromAgentID := congrArg WaiterKey.senderID hkey
    exact ⟨m, n, hm, congrArg WaiterKey.channelID hkey, hsender, hquestion, hprovoked⟩
  · intro c c' k call call' hcall hcall' hreply hreply'
    exact hkept.once c c' k (hkept.reply hcall hreply) (hkept.reply hcall' hreply')
  · intro call hmem
    have htimely := hkept.timely call hmem
    refine ⟨fun hstage => htimely.timer ?_, fun hstage => htimely.context ?_⟩
    · rw [ChatCall.result, hstage]
    · rw [ChatCall.result, hstage]

/-- A question, its answer, and the call that returns it. -/
def answeredChat : List ChatEvent :=
  [.enter "d" "u" "a", .act 0 (.commit none), .notify 0, .act 0 .publishReturns, .deliver 0 "a",
    .publish "d" "a" (some 0), .notify 1, .send 0 1, .act 0 .receive, .act 0 .cancel]

theorem publishAndAwait_returns_own_answer_chat :
    ∃ (s : ChatState) (call : ChatCall), s.calls[0]? = some call ∧
      call.stage = .returned (.reply 1) ∧ call.question = some 0 ∧
      ∃ m n, s.stored[1]? = some m ∧ call.question = some n ∧ m.provokedBy = some n := by
  have hrun : ((chatSystem.guarded OwnReplies).exec answeredChat).map (fun s => decide
      ((s.calls[0]?).map (fun call => (call.stage, call.question)) =
        some (.returned (.reply 1), some 0))) = some true := by decide
  obtain ⟨s, hexec, hcalls⟩ := System.exists_of_exec hrun
  obtain ⟨call, hcall, hpair⟩ := Option.map_eq_some_iff.mp hcalls
  have hstage := congrArg Prod.fst hpair
  have hown := (publishAndAwait_returns_own_answer
    (System.Reachable.of_guarded (System.reachable_exec hexec))).1 0 1 call hcall hstage
  obtain ⟨m, n, hm, -, -, hquestion, hprovoked⟩ := hown
  exact ⟨s, call, hcall, hstage, congrArg Prod.snd hpair, m, n, hm, hquestion, hprovoked⟩

/-- The first call times out; the answer to its question comes while the second call waits. -/
def lateAnswer : List ChatEvent :=
  [.enter "d" "u" "a", .act 0 (.commit none), .notify 0, .deliver 0 "a", .act 0 .publishReturns,
    .act 0 .timerFires, .act 0 .timeOut, .act 0 .cancel,
    .enter "d" "u" "a", .act 1 (.commit none), .notify 1, .act 1 .publishReturns,
    .publish "d" "a" (some 0), .notify 2, .send 1 2, .act 1 .receive, .act 1 .cancel]

theorem publishAndAwait_returns_late_answer :
    ∃ (s : ChatState) (call : ChatCall) (m : StoredMessage), chatSystem.Reachable s ∧
      s.calls[1]? = some call ∧ call.stage = .returned (.reply 2) ∧ call.question = some 1 ∧
      s.stored[2]? = some m ∧ m.provokedBy = some 0 := by
  have hrun : (chatSystem.exec lateAnswer).map (fun s => decide
      ((s.calls[1]?).map (fun call => (call.stage, call.question)) =
        some (.returned (.reply 2), some 1) ∧
      (s.stored[2]?).map StoredMessage.provokedBy = some (some 0))) = some true := by
    decide
  obtain ⟨s, hexec, hcalls, hstored⟩ := System.exists_of_exec hrun
  obtain ⟨call, hcall, hpair⟩ := Option.map_eq_some_iff.mp hcalls
  obtain ⟨m, hm, hprovoked⟩ := Option.map_eq_some_iff.mp hstored
  exact ⟨s, call, m, System.reachable_exec hexec, hcall, congrArg Prod.fst hpair,
    congrArg Prod.snd hpair, hm, hprovoked⟩

end Persatrix.Channels
