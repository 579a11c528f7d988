import Persatrix.BoundPosts

/-!
# Accounts, sessions and their history

A session that is read as good was issued with this token, and neither revoked nor expired; the row
of an account is what its history makes it.
-/
namespace Persatrix.Server
open Accounts Security

theorem sessionOf_concat (token : GoString) (log : List PostNote) (n : PostNote) :
    sessionOf token (log ++ [n]) = grantAfter token (sessionOf token log) n := by
  unfold sessionOf
  rw [List.foldl_concat]

theorem accountOf_concat (id : String) (log : List PostNote) (n : PostNote) :
    accountOf id (log ++ [n]) = accountAfter id (accountOf id log) n := by
  unfold accountOf
  rw [List.foldl_concat]

/-- A note that tells nothing of accounts. -/
def PostNote.IsApart (n : PostNote) : Prop :=
  (∀ token held, grantAfter token held n = held) ∧ ∀ id held, accountAfter id held n = held

theorem sessionOf_append {notes : List PostNote} (h : ∀ n ∈ notes, n.IsApart) (token : GoString)
    (log : List PostNote) : sessionOf token (log ++ notes) = sessionOf token log := by
  induction notes using List.reverseRecOn with
  | nil => rw [List.append_nil]
  | append_singleton notes n ih =>
    rw [← List.append_assoc, sessionOf_concat, (h n (by simp)).1]
    exact ih fun m hm => h m (List.mem_append_left _ hm)

theorem accountOf_append {notes : List PostNote} (h : ∀ n ∈ notes, n.IsApart) (id : String)
    (log : List PostNote) : accountOf id (log ++ notes) = accountOf id log := by
  induction notes using List.reverseRecOn with
  | nil => rw [List.append_nil]
  | append_singleton notes n ih =>
    rw [← List.append_assoc, accountOf_concat, (h n (by simp)).2]
    exact ih fun m hm => h m (List.mem_append_left _ hm)

/-- A session that was granted was issued. -/
theorem issued_of_sessionOf {token : GoString} {log : List PostNote} {grant : SessionGrant}
    (h : sessionOf token log = some grant) :
    ∃ accountID expiresAt, .issued token accountID expiresAt ∈ log := by
  induction log using List.reverseRecOn with
  | nil => cases h
  | append_singleton log n ih =>
    have hlater : sessionOf token log = some grant →
        ∃ accountID expiresAt, .issued token accountID expiresAt ∈ log ++ [n] := by
      intro hearlier
      obtain ⟨accountID, expiresAt, hmem⟩ := ih hearlier
      exact ⟨accountID, expiresAt, List.mem_append_left _ hmem⟩
    rw [sessionOf_concat] at h
    cases n with
    | issued other accountID expiresAt =>
      unfold grantAfter at h
      dsimp only at h
      split_ifs at h with htoken
      · subst htoken
        exact ⟨accountID, expiresAt, by simp⟩
      · exact hlater h
    | revoked other =>
      unfold grantAfter at h
      dsimp only at h
      split_ifs at h
      exact hlater h
    | _ => exact hlater h

/-- The tables of the store are what the log says of accounts and sessions. -/
structure History (hash : GoString → GoString) (store : Accounts.Store) (log : List PostNote) :
    Prop where
  accounts : ∀ id, store.accounts.lookup id = accountOf id log
  ids : ∀ id a, accountOf id log = some a → a.id = id
  keys : ∀ h row, store.sessions.lookup h = some row → row.tokenHash = h
  live : ∀ h row, store.sessions.lookup h = some row → row.revokedAt = none →
    ∃ token, hash token = h ∧ sessionOf token log = some ⟨row.accountID, row.expiresAt⟩

namespace History
variable {hash : GoString → GoString} {store : Accounts.Store} {log : List PostNote}

theorem init (hash : GoString → GoString) : History hash {} [] where
  accounts id := GoMap.lookup_empty id
  ids id a h := by cases h
  keys h row hrow := by cases hrow
  live h row hrow := by cases hrow

theorem apart (h : History hash store log) {notes : List PostNote}
    (hnotes : ∀ n ∈ notes, n.IsApart) : History hash store (log ++ notes) := by
  constructor
  · intro id
    rw [accountOf_append hnotes]
    exact h.accounts id
  · intro id a ha
    rw [accountOf_append hnotes] at ha
    exact h.ids id a ha
  · exact h.keys
  · intro digest row hrow hrevoked
    obtain ⟨token, htoken, hgrant⟩ := h.live digest row hrow hrevoked
    refine ⟨token, htoken, ?_⟩
    rw [sessionOf_append hnotes]
    exact hgrant

/-- Rows of sessions may be dropped, and used again. -/
theorem shrink (h : History hash store log) {sessions : GoMap GoString Session}
    (hrows : ∀ digest row, sessions.lookup digest = some row →
      ∃ old, store.sessions.lookup digest = some old ∧ row.tokenHash = old.tokenHash ∧
        row.accountID = old.accountID ∧ row.expiresAt = old.expiresAt ∧
        row.revokedAt = old.revokedAt) :
    History hash { store with sessions := sessions } log := by
  refine ⟨h.accounts, h.ids, ?_, ?_⟩
  · intro digest row hrow
    obtain ⟨old, hold, hhash, -⟩ := hrows digest row hrow
    rw [hhash]
    exact h.keys digest old hold
  · intro digest row hrow hrevoked
    obtain ⟨old, hold, -, haccount, hexpires, hrevoked'⟩ := hrows digest row hrow
    rw [hrevoked'] at hrevoked
    rw [haccount, hexpires]
    exact h.live digest old hold hrevoked

theorem prune (h : History hash store log) (now : ℤ) :
    History hash (store.pruneSessions now) log := by
  apply h.shrink
  intro digest row hrow
  rw [GoMap.lookup_deleteIf, Option.filter_eq_some_iff] at hrow
  exact ⟨row, hrow.1, rfl, rfl, rfl, rfl⟩

theorem refresh (h : History hash store log) (session : Session) (now : ℤ) :
    History hash (store.refreshSession session now) log := by
  unfold Store.refreshSession
  split_ifs with hstale
  · cases hrow : store.sessions.lookup session.tokenHash with
    | none => exact h
    | some row =>
      apply h.shrink
      intro digest row' hrow'
      rw [GoMap.lookup_insert] at hrow'
      split_ifs at hrow' with hdigest
      · cases hrow'
        exact ⟨row, hdigest ▸ hrow, rfl, rfl, rfl, rfl⟩
      · exact ⟨row', hrow', rfl, rfl, rfl, rfl⟩
  · exact h

theorem create (h : History hash store log) {a : Account} {next : Accounts.Store}
    (hinsert : store.insertAccount a = .ok next) :
    History hash next (log ++ [.created { a with status := .active }]) := by
  unfold Store.insertAccount at hinsert
  split_ifs at hinsert with hid husername hparticipant
  cases hinsert
  constructor
  · intro id
    rw [accountOf_concat, GoMap.lookup_insert, h.accounts]
    unfold accountAfter
    simp only [eq_comm]
  · intro id row hrow
    rw [accountOf_concat] at hrow
    unfold accountAfter at hrow
    dsimp only at hrow
    split_ifs at hrow with hrowid
    · cases hrow
      exact hrowid
    · exact h.ids id row hrow
  · exact h.keys
  · intro digest row hrow hrevoked
    obtain ⟨token, htoken, hgrant⟩ := h.live digest row hrow hrevoked
    refine ⟨token, htoken, ?_⟩
    rw [sessionOf_concat]
    exact hgrant

theorem setStatus (h : History hash store log) {id : String} {status : Status}
    {next : Accounts.Store} (hset : store.setAccountStatus id status = .ok next) :
    History hash next (log ++ [.statusSet id status]) := by
  unfold Store.setAccountStatus at hset
  cases hrow : store.accounts.lookup id with
  | none =>
    rw [hrow] at hset
    cases hset
  | some a =>
    rw [hrow] at hset
    cases hset
    constructor
    · intro other
      rw [accountOf_concat, GoMap.lookup_insert]
      unfold accountAfter
      dsimp only
      by_cases hother : other = id
      · rw [if_pos hother, if_pos hother.symm, hother, ← h.accounts, hrow]
        rfl
      · rw [if_neg hother, if_neg (Ne.symm hother)]
        exact h.accounts other
    · intro other row hother
      rw [accountOf_concat] at hother
      unfold accountAfter at hother
      dsimp only at hother
      split_ifs at hother with hid
      · obtain ⟨old, hold, rfl⟩ := Option.map_eq_some_iff.mp hother
        exact h.ids other old hold
      · exact h.ids other row hother
    · exact h.keys
    · intro digest row hsession hrevoked
      obtain ⟨token, htoken, hgrant⟩ := h.live digest row hsession hrevoked
      refine ⟨token, htoken, ?_⟩
      rw [sessionOf_concat]
      exact hgrant

/-- A token is issued when no row has its hash. -/
theorem issue (h : History hash store log) {token : GoString} {accountID : String} {ttl now : ℤ}
    {next : Accounts.Store}
    (hinsert : store.insertSession (Store.newSession (hash token) accountID ttl now) = .ok next) :
    History hash next (log ++ [.issued token accountID (now + ttl / oneSecond)]) := by
  unfold Store.insertSession at hinsert
  split_ifs at hinsert with hhash haccount
  cases hinsert
  constructor
  · intro id
    rw [accountOf_concat]
    exact h.accounts id
  · intro id a ha
    rw [accountOf_concat] at ha
    exact h.ids id a ha
  · intro digest row hrow
    dsimp only at hrow
    rw [GoMap.lookup_insert] at hrow
    split_ifs at hrow with hdigest
    · cases hrow
      exact hdigest.symm
    · exact h.keys digest row hrow
  · intro digest row hrow hrevoked
    dsimp only at hrow
    rw [GoMap.lookup_insert] at hrow
    split_ifs at hrow with hdigest
    · cases hrow
      refine ⟨token, hdigest.symm, ?_⟩
      rw [sessionOf_concat]
      exact if_pos rfl
    · obtain ⟨other, hother, hgrant⟩ := h.live digest row hrow hrevoked
      refine ⟨other, hother, ?_⟩
      have hne : token ≠ other := by
        rintro rfl
        exact hdigest hother.symm
      rw [sessionOf_concat]
      exact (if_neg hne).trans hgrant

/-- No row of the token's hash is good after it was revoked. -/
theorem retire (h : History hash store log) {token : GoString} {next : Accounts.Store}
    (hnext : ∀ digest row, next.sessions.lookup digest = some row → row.revokedAt = none →
      digest ≠ hash token ∧ store.sessions.lookup digest = some row)
    (hkeys : ∀ digest row, next.sessions.lookup digest = some row → row.tokenHash = digest)
    (haccounts : next.accounts = store.accounts) :
    History hash next (log ++ [.revoked token]) := by
  constructor
  · intro id
    rw [accountOf_concat, haccounts]
    exact h.accounts id
  · intro id a ha
    rw [accountOf_concat] at ha
    exact h.ids id a ha
  · exact hkeys
  · intro digest row hrow hrevoked
    obtain ⟨hdigest, hold⟩ := hnext digest row hrow hrevoked
    obtain ⟨other, hother, hgrant⟩ := h.live digest row hold hrevoked
    refine ⟨other, hother, ?_⟩
    have hne : token ≠ other := by
      rintro rfl
      exact hdigest hother.symm
    rw [sessionOf_concat]
    exact (if_neg hne).trans hgrant

theorem revoke (h : History hash store log) {token : GoString} {now : ℤ} {next : Accounts.Store}
    (hrevoke : store.revokeSession (hash token) now = .ok next) :
    History hash next (log ++ [.revoked token]) := by
  unfold Store.revokeSession at hrevoke
  cases hrow : store.sessions.lookup (hash token) with
  | none =>
    rw [hrow] at hrevoke
    cases hrevoke
  | some old =>
    rw [hrow] at hrevoke
    dsimp only at hrevoke
    split_ifs at hrevoke with hrevoked
    · cases hrevoke
      refine h.retire ?_ h.keys rfl
      intro digest row hlookup hnone
      refine ⟨?_, hlookup⟩
      rintro rfl
      rw [hrow] at hlookup
      cases hlookup
      rw [hnone] at hrevoked
      cases hrevoked
    · cases hrevoke
      refine h.retire ?_ ?_ rfl
      · intro digest row hlookup hnone
        dsimp only at hlookup
        rw [GoMap.lookup_insert] at hlookup
        split_ifs at hlookup with hdigest
        · cases hlookup
          cases hnone
        · exact ⟨hdigest, hlookup⟩
      · intro digest row hlookup
        dsimp only at hlookup
        rw [GoMap.lookup_insert] at hlookup
        split_ifs at hlookup with hdigest
        · cases hlookup
          rw [hdigest]
          exact h.keys _ old hrow
        · exact h.keys digest row hlookup

/-- A token that has no row is not good either. -/
theorem revokeMissing (h : History hash store log) {token : GoString} {now : ℤ} {err : String}
    (hrevoke : store.revokeSession (hash token) now = .error err) :
    History hash store (log ++ [.revoked token]) := by
  unfold Store.revokeSession at hrevoke
  cases hrow : store.sessions.lookup (hash token) with
  | some old =>
    rw [hrow] at hrevoke
    dsimp only at hrevoke
    split_ifs at hrevoke
  | none =>
    refine h.retire ?_ h.keys rfl
    intro digest row hlookup hnone
    refine ⟨?_, hlookup⟩
    rintro rfl
    rw [hrow] at hlookup
    cases hlookup

/-- A change of accounts or sessions is in the log. -/
theorem step {s t : PostState} {e : AccountEvent} (h : History hash s.store log)
    (hstep : stepAccounts hash s e = some t) :
    History hash t.store (log ++ noteAccounts hash s e) := by
  unfold stepAccounts at hstep
  unfold noteAccounts
  cases e with
  | create a =>
    dsimp only at hstep ⊢
    cases hinsert : s.store.insertAccount a with
    | error err =>
      rw [hinsert] at hstep
      cases hstep
      rw [List.append_nil]
      exact h
    | ok next =>
      rw [hinsert] at hstep
      cases hstep
      exact h.create hinsert
  | setStatus id status =>
    dsimp only at hstep ⊢
    cases hset : s.store.setAccountStatus id status with
    | error err =>
      rw [hset] at hstep
      cases hstep
      rw [List.append_nil]
      exact h
    | ok next =>
      rw [hset] at hstep
      cases hstep
      exact h.setStatus hset
  | beginIssue accountID ttl =>
    dsimp only at hstep ⊢
    rw [List.append_nil]
    cases hmay : s.store.mayIssueSession accountID ttl with
    | error err =>
      rw [hmay] at hstep
      cases hstep
      exact h
    | ok _ =>
      rw [hmay] at hstep
      cases hstep
      exact h
  | finishIssue login token now =>
    dsimp only at hstep ⊢
    cases hlogin : s.issuing[login]? with
    | none =>
      rw [hlogin] at hstep
      cases hstep
    | some pair =>
      obtain ⟨accountID, ttl⟩ := pair
      rw [hlogin] at hstep
      dsimp only at hstep ⊢
      cases hinsert : s.store.insertSession
          (Store.newSession (hash token) accountID ttl now) with
      | error err =>
        rw [hinsert] at hstep
        cases hstep
        rw [List.append_nil]
        exact h
      | ok next =>
        rw [hinsert] at hstep
        cases hstep
        exact h.issue hinsert
  | revoke token now =>
    dsimp only at hstep ⊢
    cases hrevoke : s.store.revokeSession (hash token) now with
    | error err =>
      rw [hrevoke] at hstep
      cases hstep
      exact h.revokeMissing hrevoke
    | ok next =>
      rw [hrevoke] at hstep
      cases hstep
      exact h.revoke hrevoke
  | prune now =>
    dsimp only at hstep ⊢
    cases hstep
    rw [List.append_nil]
    exact h.prune now

/-- What is known of a session that is read as good. -/
theorem openSession (h : History hash store log) {digest : GoString} {now : ℤ} {session : Session}
    (hopen : store.openSession digest now = .ok session) :
    ∃ token, hash token = digest ∧ now < session.expiresAt ∧
      sessionOf token log = some ⟨session.accountID, session.expiresAt⟩ := by
  unfold Store.openSession Store.getSession at hopen
  cases hrow : store.sessions.lookup digest with
  | none =>
    rw [hrow] at hopen
    cases hopen
  | some row =>
    rw [hrow] at hopen
    dsimp only at hopen
    split_ifs at hopen with hkey hrevoked hexpired
    cases hopen
    have hnone : session.revokedAt = none := by simpa using hrevoked
    obtain ⟨token, htoken, hgrant⟩ := h.live digest session hrow hnone
    exact ⟨token, htoken, not_le.mp hexpired, hgrant⟩

theorem boundAccount (h : History hash store log) {session : Session} {a : Account}
    (hbound : store.boundAccount session = .ok a) :
    accountOf a.id log = some a ∧ a.id = session.accountID ∧ a.status = .active := by
  unfold Store.boundAccount Store.getAccount at hbound
  cases hrow : store.accounts.lookup session.accountID with
  | none =>
    rw [hrow] at hbound
    cases hbound
  | some row =>
    rw [hrow] at hbound
    dsimp only at hbound
    split_ifs at hbound with hactive
    cases hbound
    rw [h.accounts] at hrow
    have hid := h.ids _ _ hrow
    rw [hid]
    exact ⟨hrow, rfl, hactive⟩

end History

/-- Changes of accounts leave agents and POSTs. -/
theorem stepAccounts_rest {hash : GoString → GoString} {s t : PostState} {e : AccountEvent}
    (h : stepAccounts hash s e = some t) :
    t.agents = s.agents ∧ t.posts = s.posts ∧ t.messages = s.messages := by
  unfold stepAccounts at h
  cases e with
  | prune now =>
    cases h
    exact ⟨rfl, rfl, rfl⟩
  | finishIssue login token now =>
    dsimp only at h
    split at h
    · cases h
    · split at h
      all_goals
        cases h
        exact ⟨rfl, rfl, rfl⟩
  | _ =>
    dsimp only at h
    split at h
    all_goals
      cases h
      exact ⟨rfl, rfl, rfl⟩

end Persatrix.Server
