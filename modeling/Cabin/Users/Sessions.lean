import Cabin.Lts.Basic
import Cabin.Users.Basic

/-!
# Sessions

The table of sessions (`sessions.py`) and the check that each request of a page begins with (`web/deps.py`,
`get_current_user`).  A session expires 24 hours after it is created; a request that finds less than 23 hours
left extends it to 24 hours from then.

Beside the table, `State` keeps the last reading of the clock and, for the proofs, how each session was last
used, as the calls and their outcomes tell.

* `sessionMachine` : the calls, one after another, on a clock that never goes back;
* `Slid` : the expiry lies between what the last use assures and 24 hours after it;
* `sliding_expiry` : who is let in, for how long, and that purging is not noticed.
-/

namespace Cabin

/-- A row of `sessions`. -/
structure UserSession where
  /-- The hash of the token, the primary key. -/
  tokenHash : Str
  /-- Whose session it is. -/
  userId : ℕ
  /-- The token that forms send back. -/
  csrfToken : Str
  /-- When it was created. -/
  createdAt : ℤ
  /-- When it ends. -/
  expiresAt : ℤ
  deriving DecidableEq, Repr

instance : Keyed UserSession Str := ⟨UserSession.tokenHash⟩

@[simp] theorem key_userSession (r : UserSession) : key r = r.tokenHash := rfl

namespace Sessions

/-! ### The calls -/

/-- How long a session lasts. -/
def sessionLifetime : ℤ := Instant.minutes (24 * 60)

/-- How much of it is left before it is extended. -/
def refreshWindow : ℤ := Instant.minutes (23 * 60)

variable (users : Table User) (hashToken : Str → Str)

/-- Create a session for a user, with tokens that are drawn. -/
def createSession (sessions : Table UserSession) (user : User) (token csrfToken : Str) (now : ℤ) :
    Except UserFailure (Table UserSession × UserSession) :=
  let row : UserSession := ⟨hashToken token, user.id, csrfToken, now, now + sessionLifetime⟩
  match sessions.insert? row with
  | some sessions => .ok (sessions, row)
  | none => .error ⟨.integrity, "UNIQUE constraint failed: sessions.token_hash"⟩

/-- The session of a token, if it is not over. -/
def getSession (sessions : Table UserSession) (token : Str) (now : ℤ) : Option UserSession :=
  match sessions.get? (hashToken token) with
  | some row => if row.expiresAt < now then none else some row
  | none => none

/-- Extend a session, once less than the window is left; says whether it did. -/
def touchSession (sessions : Table UserSession) (row : UserSession) (now : ℤ) : Table UserSession × Bool :=
  if row.expiresAt - now < refreshWindow then
    (sessions.update (fun r => r.tokenHash == row.tokenHash)
      (fun r => { r with expiresAt := now + sessionLifetime }) fun _ => rfl, true)
  else (sessions, false)

/-- Delete the session of a token. -/
def deleteSession (sessions : Table UserSession) (token : Str) : Table UserSession :=
  sessions.delete fun r => r.tokenHash == hashToken token

/-- Delete all sessions of a user. -/
def deleteSessionsForUser (sessions : Table UserSession) (userId : ℕ) : Table UserSession :=
  sessions.delete fun r => r.userId == userId

/-- Delete the sessions that are over. -/
def purgeExpired (sessions : Table UserSession) (now : ℤ) : Table UserSession :=
  sessions.delete fun r => r.expiresAt < now

/-- What a request is answered with, or who makes it, in which session, and the cookie to set again. -/
inductive Answer where
  | redirect (location : String)
  | user (user : User) (session : UserSession) (refresh : Option Str)
  deriving DecidableEq, Repr

/-- `get_current_user`: who is logged in.  The clock is read when the session is looked up and again when it
is touched. -/
def getCurrentUser (sessions : Table UserSession) (cookie : Option Str) (looked touched : ℤ) :
    Table UserSession × Answer :=
  if users.rows = [] then (sessions, .redirect "/setup")
  else
    match (cookie.filter (· ≠ [])).bind fun token => getSession hashToken sessions token looked with
    | none => (sessions, .redirect "/login")
    | some row =>
      match users.get? row.userId with
      | none => (sessions, .redirect "/login")
      | some user =>
        let (sessions, extended) := touchSession sessions row touched
        (sessions, .user user row (if extended then cookie else none))

/-! ### The machine -/

/-- How a session was last used. -/
structure Use where
  /-- Whose session it is. -/
  userId : ℕ
  /-- When it was used. -/
  instant : ℤ
  /-- It was used by a request, and not only created. -/
  byRequest : Bool
  deriving DecidableEq, Repr

/-- Up to when the use assures that the session lasts. -/
def Use.assured (use : Use) : ℤ := use.instant + if use.byRequest then refreshWindow else sessionLifetime

/-- The table, the clock and the last uses. -/
structure State where
  /-- The table. -/
  sessions : Table UserSession
  /-- The last reading of the clock. -/
  clock : ℤ
  /-- How the session of a hash was last used: created or let in, and not deleted since. -/
  uses : Str → Option Use

/-- The calls, with what they draw and what they read off the clock. -/
inductive Act where
  | create (userId : ℕ) (token csrfToken : Str) (now : ℤ)
  | request (cookie : Option Str) (looked touched : ℤ)
  | purge (now : ℤ)
  | delete (token : Str)
  | deleteForUser (userId : ℕ)
  deriving DecidableEq, Repr

/-- The calls one after another.  A session is created for a user there is; the clock does not go back. -/
def sessionMachine : Machine State Act where
  step s
    | .create userId token csrfToken now =>
      if now < s.clock then none
      else (users.get? userId).map fun user =>
        match createSession hashToken s.sessions user token csrfToken now with
        | .ok (sessions, row) =>
          ⟨sessions, now, Function.update s.uses row.tokenHash (some ⟨user.id, now, false⟩)⟩
        | .error _ => { s with clock := now }
    | .request cookie looked touched =>
      if looked < s.clock ∨ touched < looked then none
      else
        match getCurrentUser users hashToken s.sessions cookie looked touched with
        | (sessions, .user user row _) =>
          some ⟨sessions, touched, Function.update s.uses row.tokenHash (some ⟨user.id, touched, true⟩)⟩
        | (sessions, .redirect _) => some ⟨sessions, looked, s.uses⟩
    | .purge now =>
      if now < s.clock then none else some { s with sessions := purgeExpired s.sessions now, clock := now }
    | .delete token =>
      some { s with
        sessions := deleteSession hashToken s.sessions token
        uses := Function.update s.uses (hashToken token) none }
    | .deleteForUser userId =>
      some { s with
        sessions := deleteSessionsForUser s.sessions userId
        uses := fun h => (s.uses h).filter fun use => use.userId ≠ userId }

/-- No session at all, at some instant. -/
def State.start (clock : ℤ) : State := ⟨.empty, clock, fun _ => none⟩

/-! ### What is expected -/

/-- The cookie has the token of a session. -/
def Carries (cookie : Option Str) (h : Str) : Prop := ∃ token, cookie = some token ∧ token ≠ [] ∧ hashToken token = h

/-- A request is let in. -/
def LetsIn (s : State) (cookie : Option Str) (looked touched : ℤ) : Prop :=
  ∃ user row refresh,
    (getCurrentUser users hashToken s.sessions cookie looked touched).2 = .user user row refresh

/-- Each request in the session comes in time, the next one up to an instant, and then no later than 23 hours
after the one before; and the session is not deleted. -/
def InTime (h : Str) (userId : ℕ) : ℤ → List Act → Prop
  | _, [] => True
  | limit, .request cookie looked touched :: as =>
    (Carries hashToken cookie h → looked ≤ limit ∧ InTime h userId (touched + refreshWindow) as) ∧
      (¬ Carries hashToken cookie h → InTime h userId limit as)
  | limit, .create _ token _ _ :: as => hashToken token ≠ h ∧ InTime h userId limit as
  | limit, .purge _ :: as => InTime h userId limit as
  | limit, .delete token :: as => hashToken token ≠ h ∧ InTime h userId limit as
  | limit, .deleteForUser id :: as => id ≠ userId ∧ InTime h userId limit as

/-- Every request in the session is let in. -/
def AlwaysLetIn (h : Str) : State → List Act → Prop
  | _, [] => True
  | s, a :: as => ∀ s', (sessionMachine users hashToken).step s a = some s' →
    (∀ cookie looked touched, a = .request cookie looked touched → Carries hashToken cookie h →
      LetsIn users hashToken s cookie looked touched) ∧ AlwaysLetIn h s' as

/-- The session of a hash is not created anew. -/
def NotCreated (h : Str) (_ : State) (a : Act) : Prop :=
  ∀ userId token csrfToken now, a = .create userId token csrfToken now → hashToken token ≠ h

/-- What sessions do. -/
structure Slides (s : State) : Prop where
  /-- Who is let in has a session that was created or last used at most 24 hours ago, and is not deleted. -/
  onlyInTime : ∀ cookie looked touched, LetsIn users hashToken s cookie looked touched → ∃ token use,
    cookie = some token ∧ s.uses (hashToken token) = some use ∧ looked ≤ use.instant + sessionLifetime
  /-- A session whose requests come in time is let in every time. -/
  alwaysInTime : ∀ h use, s.uses h = some use → ∀ as, InTime hashToken h use.userId use.assured as →
    AlwaysLetIn users hashToken h s as
  /-- No session ends sooner than it did before. -/
  grows : ∀ s', (sessionMachine users hashToken).Reachable s s' → ∀ row ∈ s.sessions, ∀ row' ∈ s'.sessions,
    row'.tokenHash = row.tokenHash → row.expiresAt ≤ row'.expiresAt
  /-- None lasts for more than 24 hours from its last use. -/
  bounded : ∀ row ∈ s.sessions, ∃ use, s.uses row.tokenHash = some use ∧
    row.expiresAt ≤ use.instant + sessionLifetime
  /-- A session that would be purged is not let in any more if it is not purged. -/
  purged : ∀ now, s.clock ≤ now → ∀ row ∈ s.sessions, row ∉ purgeExpired s.sessions now →
    ∀ s', (sessionMachine users hashToken).Reach (NotCreated hashToken row.tokenHash) { s with clock := now } s' →
      ∀ cookie looked touched, s'.clock ≤ looked → Carries hashToken cookie row.tokenHash →
        ¬ LetsIn users hashToken s' cookie looked touched

/-! ### The calls, inverted -/

variable {users hashToken} {sessions : Table UserSession} {row : UserSession} {now looked touched : ℤ}
  {cookie : Option Str} {s s' : State} {a : Act}

/-- When a session ends after it is touched. -/
def slide (expiresAt now : ℤ) : ℤ := if expiresAt - now < refreshWindow then now + sessionLifetime else expiresAt

theorem le_slide (expiresAt now : ℤ) : expiresAt ≤ slide expiresAt now := by
  unfold slide refreshWindow sessionLifetime Instant.minutes Instant.ofSeconds
  split_ifs <;> omega

/-- What a request is assured of. -/
theorem refreshWindow_le_slide (expiresAt now : ℤ) : now + refreshWindow ≤ slide expiresAt now := by
  unfold slide refreshWindow sessionLifetime Instant.minutes Instant.ofSeconds
  split_ifs <;> omega

theorem slide_le {expiresAt : ℤ} (h : expiresAt ≤ now + sessionLifetime) :
    slide expiresAt now ≤ now + sessionLifetime := by
  unfold slide
  split_ifs
  · exact le_rfl
  · exact h

theorem mem_touchSession (hrow : row ∈ sessions) {r : UserSession} : r ∈ (touchSession sessions row now).1 ↔
    r = { row with expiresAt := slide row.expiresAt now } ∨ r ∈ sessions ∧ r.tokenHash ≠ row.tokenHash := by
  have hself : ∀ r ∈ sessions, r.tokenHash = row.tokenHash → r = row := fun r hr h => Table.eq_of_key hr hrow h
  unfold touchSession slide
  split_ifs with hwindow
  · simp only [Table.mem_update, beq_iff_eq]
    constructor
    · rintro ⟨r', hr', rfl⟩
      split_ifs with hhash
      · exact .inl (by rw [hself r' hr' hhash])
      · exact .inr ⟨hr', hhash⟩
    · rintro (rfl | ⟨hr, hhash⟩)
      · exact ⟨row, hrow, if_pos rfl⟩
      · exact ⟨r, hr, if_neg hhash⟩
  · constructor
    · intro hr
      by_cases hhash : r.tokenHash = row.tokenHash
      · exact .inl (hself r hr hhash)
      · exact .inr ⟨hr, hhash⟩
    · rintro (rfl | ⟨hr, -⟩)
      · exact hrow
      · exact hr

theorem getSession_eq_some {token : Str} : getSession hashToken sessions token now = some row ↔
    sessions.get? (hashToken token) = some row ∧ now ≤ row.expiresAt := by
  unfold getSession
  cases sessions.get? (hashToken token) with
  | none => simp
  | some r =>
    simp only [Option.some.injEq]
    split_ifs with hover
    · refine iff_of_false (fun h => by cases h) ?_
      rintro ⟨rfl, hle⟩
      omega
    · rw [Option.some.injEq]
      exact ⟨fun h => ⟨h, h ▸ not_lt.1 hover⟩, fun h => h.1⟩

/-- Who is let in, and what that does to the table. -/
theorem getCurrentUser_eq_user {sessions' : Table UserSession} {user : User} {refresh : Option Str}
    (h : getCurrentUser users hashToken sessions cookie looked touched = (sessions', .user user row refresh)) :
    ∃ token, cookie = some token ∧ token ≠ [] ∧ sessions.get? (hashToken token) = some row ∧
      looked ≤ row.expiresAt ∧ users.get? row.userId = some user ∧ sessions' = (touchSession sessions row touched).1 := by
  unfold getCurrentUser at h
  split_ifs at h
  · cases h
  · split at h
    · cases h
    · rename_i r hsession
      split at h
      · cases h
      · rename_i u huser
        obtain ⟨rfl, hanswer⟩ := Prod.mk.inj h
        obtain ⟨rfl, rfl, -⟩ := Answer.user.inj hanswer
        obtain ⟨token, htoken, hget⟩ := Option.bind_eq_some_iff.1 hsession
        obtain ⟨hcookie, hne⟩ := Option.filter_eq_some_iff.1 htoken
        obtain ⟨hrow, hle⟩ := getSession_eq_some.1 hget
        exact ⟨token, hcookie, of_decide_eq_true hne, hrow, hle, huser, rfl⟩

/-- Who is not leaves the table alone. -/
theorem eq_of_redirect {sessions' : Table UserSession} {location : String}
    (h : getCurrentUser users hashToken sessions cookie looked touched = (sessions', .redirect location)) :
    sessions = sessions' := by
  unfold getCurrentUser at h
  split_ifs at h
  · exact (Prod.mk.inj h).1
  · split at h
    · exact (Prod.mk.inj h).1
    · split at h
      · exact (Prod.mk.inj h).1
      · cases (Prod.mk.inj h).2

/-- Who is let in. -/
theorem letsIn_iff : LetsIn users hashToken s cookie looked touched ↔ ∃ token row user, cookie = some token ∧
    token ≠ [] ∧ s.sessions.get? (hashToken token) = some row ∧ looked ≤ row.expiresAt ∧
      users.get? row.userId = some user := by
  constructor
  · rintro ⟨user, row, refresh, hanswer⟩
    obtain ⟨token, hcookie, hne, hrow, hle, huser, -⟩ := getCurrentUser_eq_user (Prod.ext rfl hanswer)
    exact ⟨token, row, user, hcookie, hne, hrow, hle, huser⟩
  · rintro ⟨token, row, user, rfl, hne, hrow, hle, huser⟩
    have hsome : users.rows ≠ [] := List.ne_nil_of_mem (Table.get?_eq_some.1 huser).1
    have hsession : ((some token).filter (· ≠ [])).bind (fun token => getSession hashToken s.sessions token looked) =
        some row := by
      have hfilter : (some token).filter (· ≠ []) = some token :=
        Option.filter_eq_some_iff.2 ⟨rfl, decide_eq_true hne⟩
      rw [hfilter]
      exact getSession_eq_some.2 ⟨hrow, hle⟩
    refine ⟨user, row, if (touchSession s.sessions row touched).2 = true then some token else none, ?_⟩
    simp only [getCurrentUser, if_neg hsome, hsession, huser]

variable (users hashToken s) in
/-- The ways a call changes the state. -/
inductive Change : Act → State → Prop
  | created {userId : ℕ} {token csrfToken : Str} {now : ℤ} {user : User} {row : UserSession} (hclock : s.clock ≤ now)
      (huser : user ∈ users) (hrow : row = ⟨hashToken token, user.id, csrfToken, now, now + sessionLifetime⟩)
      (hfree : ∀ r ∈ s.sessions, r.tokenHash ≠ row.tokenHash) :
      Change (.create userId token csrfToken now) ⟨s.sessions.upsert row, now,
        Function.update s.uses row.tokenHash (some ⟨user.id, now, false⟩)⟩
  | refused {userId : ℕ} {token csrfToken : Str} {now : ℤ} (hclock : s.clock ≤ now) :
      Change (.create userId token csrfToken now) { s with clock := now }
  | letIn {token : Str} {looked touched : ℤ} {user : User} {row : UserSession} (hlooked : s.clock ≤ looked)
      (htouched : looked ≤ touched) (hne : token ≠ []) (hrow : row ∈ s.sessions) (hhash : row.tokenHash = hashToken token)
      (hle : looked ≤ row.expiresAt) (huser : users.get? row.userId = some user) :
      Change (.request (some token) looked touched) ⟨(touchSession s.sessions row touched).1, touched,
        Function.update s.uses row.tokenHash (some ⟨row.userId, touched, true⟩)⟩
  | turnedAway {cookie : Option Str} {looked touched : ℤ} (hlooked : s.clock ≤ looked)
      (hnot : ¬ LetsIn users hashToken s cookie looked touched) :
      Change (.request cookie looked touched) { s with clock := looked }
  | purged {now : ℤ} (hclock : s.clock ≤ now) :
      Change (.purge now) { s with sessions := purgeExpired s.sessions now, clock := now }
  | deleted {token : Str} : Change (.delete token)
      { s with
        sessions := deleteSession hashToken s.sessions token
        uses := Function.update s.uses (hashToken token) none }
  | deletedForUser {userId : ℕ} : Change (.deleteForUser userId)
      { s with
        sessions := deleteSessionsForUser s.sessions userId
        uses := fun h => (s.uses h).filter fun use => use.userId ≠ userId }

/-- **What a call can do.** -/
theorem sessionMachine_step (h : (sessionMachine users hashToken).step s a = some s') :
    Change users hashToken s a s' := by
  cases a with
  | create userId token csrfToken now =>
    simp only [sessionMachine] at h
    split_ifs at h with hclock
    obtain ⟨user, huser, rfl⟩ := Option.map_eq_some_iff.1 h
    unfold createSession
    dsimp only
    cases hinsert : s.sessions.insert? ⟨hashToken token, user.id, csrfToken, now, now + sessionLifetime⟩ with
    | none => exact .refused (not_lt.1 hclock)
    | some sessions =>
      obtain ⟨hfree, rfl⟩ := Table.insert?_eq_some.1 hinsert
      exact .created (not_lt.1 hclock) (Table.get?_eq_some.1 huser).1 rfl hfree
  | request cookie looked touched =>
    simp only [sessionMachine] at h
    split_ifs at h with hclock
    obtain ⟨hlooked, htouched⟩ := not_or.1 hclock
    split at h
    · rename_i sessions user row refresh hanswer
      obtain ⟨token, rfl, hne, hrow, hle, huser, rfl⟩ := getCurrentUser_eq_user hanswer
      obtain ⟨hmem, hhash⟩ := Table.get?_eq_some.1 hrow
      have hid : user.id = row.userId := (Table.get?_eq_some.1 huser).2
      rw [hid] at h
      cases h
      exact .letIn (not_lt.1 hlooked) (not_lt.1 htouched) hne hmem hhash hle huser
    · rename_i sessions location hanswer
      have hnot : ¬ LetsIn users hashToken s cookie looked touched := by
        rintro ⟨user, row, refresh, huser⟩
        rw [hanswer] at huser
        cases huser
      obtain rfl := eq_of_redirect hanswer
      cases h
      exact .turnedAway (not_lt.1 hlooked) hnot
  | purge now =>
    simp only [sessionMachine] at h
    split_ifs at h with hclock
    cases h
    exact .purged (not_lt.1 hclock)
  | delete token =>
    cases h
    exact .deleted
  | deleteForUser userId =>
    cases h
    exact .deletedForUser

/-! ### The invariant -/

variable (users) in
/-- Each session ends between what its last use assures and 24 hours after it; and a session that was not
deleted is there, or is over. -/
structure Slid (s : State) : Prop where
  known : ∀ row ∈ s.sessions, ∃ use, s.uses row.tokenHash = some use ∧ use.userId = row.userId ∧
    use.assured ≤ row.expiresAt ∧ row.expiresAt ≤ use.instant + sessionLifetime
  kept : ∀ h use, s.uses h = some use → (∃ row ∈ s.sessions, row.tokenHash = h) ∨ use.assured < s.clock
  past : ∀ h use, s.uses h = some use → use.instant ≤ s.clock
  owned : ∀ row ∈ s.sessions, ∃ user, users.get? row.userId = some user

theorem slid_start (clock : ℤ) : Slid users (.start clock) where
  known _ hrow := absurd hrow Table.not_mem_empty
  kept _ _ h := by cases h
  past _ _ h := by cases h
  owned _ hrow := absurd hrow Table.not_mem_empty

/-- Time goes by. -/
theorem Slid.later (h : Slid users s) (hclock : s.clock ≤ now) : Slid users { s with clock := now } where
  known := h.known
  kept hash use huse := (h.kept hash use huse).imp_right fun hover => hover.trans_le hclock
  past hash use huse := (h.past hash use huse).trans hclock
  owned := h.owned

/-- A session is created, or used: it has a row of its own, which is within the bounds of the use. -/
theorem Slid.put (h : Slid users s) (row : UserSession) (use : Use) {sessions : Table UserSession}
    (hrows : ∀ r, r ∈ sessions ↔ r = row ∨ r ∈ s.sessions ∧ r.tokenHash ≠ row.tokenHash)
    (hclock : s.clock ≤ now) (hid : use.userId = row.userId) (hinstant : use.instant = now)
    (hassured : use.assured ≤ row.expiresAt) (hbound : row.expiresAt ≤ now + sessionLifetime)
    (huser : ∃ user, users.get? row.userId = some user) :
    Slid users ⟨sessions, now, Function.update s.uses row.tokenHash (some use)⟩ where
  known r hr := by
    rcases (hrows r).1 hr with rfl | ⟨hold, hne⟩
    · exact ⟨use, Function.update_self _ _ _, hid, hassured, hinstant.symm ▸ hbound⟩
    · simp only [Function.update_of_ne hne]
      exact h.known r hold
  kept hash use' huse' := by
    by_cases hhash : hash = row.tokenHash
    · exact .inl ⟨row, (hrows row).2 (.inl rfl), hhash.symm⟩
    · simp only [Function.update_of_ne hhash] at huse'
      rcases h.kept hash use' huse' with ⟨r, hr, rfl⟩ | hover
      · exact .inl ⟨r, (hrows r).2 (.inr ⟨hr, hhash⟩), rfl⟩
      · exact .inr (hover.trans_le hclock)
  past hash use' huse' := by
    by_cases hhash : hash = row.tokenHash
    · subst hhash
      simp only [Function.update_self, Option.some.injEq] at huse'
      exact huse' ▸ hinstant.le
    · simp only [Function.update_of_ne hhash] at huse'
      exact (h.past hash use' huse').trans hclock
  owned r hr := by
    rcases (hrows r).1 hr with rfl | ⟨hold, -⟩
    · exact huser
    · exact h.owned r hold

/-- Sessions are deleted: what is forgotten of their uses has no row, and what is not is over. -/
theorem Slid.drop (h : Slid users s) {sessions : Table UserSession} {uses : Str → Option Use}
    (hclock : s.clock ≤ now)
    (hrows : ∀ row ∈ sessions, row ∈ s.sessions ∧ uses row.tokenHash = s.uses row.tokenHash)
    (huses : ∀ hash use, uses hash = some use → s.uses hash = some use)
    (hgone : ∀ row ∈ s.sessions, ∀ use, uses row.tokenHash = some use → row ∈ sessions ∨ use.assured < now) :
    Slid users ⟨sessions, now, uses⟩ where
  known row hrow := by
    obtain ⟨hold, hsame⟩ := hrows row hrow
    simp only [hsame]
    exact h.known row hold
  kept hash use huse := by
    rcases h.kept hash use (huses hash use huse) with ⟨row, hrow, rfl⟩ | hover
    · exact (hgone row hrow use huse).imp_left fun hmem => ⟨row, hmem, rfl⟩
    · exact .inr (hover.trans_le hclock)
  past hash use huse := (h.past hash use (huses hash use huse)).trans hclock
  owned row hrow := h.owned row (hrows row hrow).1

/-- A call keeps the bounds. -/
theorem Slid.change (h : Slid users s) (hchange : Change users hashToken s a s') : Slid users s' := by
  cases hchange with
  | @created userId token csrfToken now user new hclock huser hnew hfree =>
    subst hnew
    exact h.put _ _ (fun r => Table.mem_upsert) hclock rfl rfl le_rfl le_rfl
      ⟨user, Table.get?_eq_some.2 ⟨huser, rfl⟩⟩
  | refused hclock => exact h.later hclock
  | @letIn token looked touched user old hlooked htouched hne hrow hhash hle huser =>
    obtain ⟨use, huse, -, -, hbound⟩ := h.known old hrow
    have hpast := h.past _ _ huse
    have hrows : ∀ r, r ∈ (touchSession s.sessions old touched).1 ↔
        r = { old with expiresAt := slide old.expiresAt touched } ∨
          r ∈ s.sessions ∧ r.tokenHash ≠ old.tokenHash := fun r => mem_touchSession hrow
    have hend : old.expiresAt ≤ touched + sessionLifetime := by omega
    exact h.put { old with expiresAt := slide old.expiresAt touched } ⟨old.userId, touched, true⟩ hrows
      (hlooked.trans htouched) rfl rfl (refreshWindow_le_slide _ _) (slide_le hend) ⟨user, huser⟩
  | turnedAway hlooked hnot => exact h.later hlooked
  | @purged now hclock =>
    refine h.drop hclock (fun row hrow => ⟨(Table.mem_delete.1 hrow).1, rfl⟩) (fun _ _ huse => huse)
      fun row hrow use huse => ?_
    by_cases hpurged : row.expiresAt < now
    · obtain ⟨use', huse', -, hassured, -⟩ := h.known row hrow
      obtain rfl := Option.some.inj (huse'.symm.trans huse)
      exact .inr (hassured.trans_lt hpurged)
    · exact .inl (Table.mem_delete.2 ⟨hrow, decide_eq_false hpurged⟩)
  | @deleted token =>
    have hmem : ∀ row, row ∈ deleteSession hashToken s.sessions token ↔
        row ∈ s.sessions ∧ row.tokenHash ≠ hashToken token := fun row => by
      simp [deleteSession, Table.mem_delete]
    have huses : ∀ hash use, Function.update s.uses (hashToken token) none hash = some use →
        hash ≠ hashToken token ∧ s.uses hash = some use := fun hash use huse => by
      by_cases hhash : hash = hashToken token
      · simp [hhash] at huse
      · exact ⟨hhash, Function.update_of_ne hhash (none : Option Use) s.uses ▸ huse⟩
    refine h.drop le_rfl (fun row hrow => ?_) (fun hash use huse => (huses hash use huse).2)
      fun row hrow use huse => .inl ((hmem row).2 ⟨hrow, (huses _ use huse).1⟩)
    obtain ⟨hold, hne⟩ := (hmem row).1 hrow
    exact ⟨hold, Function.update_of_ne hne _ _⟩
  | @deletedForUser userId =>
    have hmem : ∀ row, row ∈ deleteSessionsForUser s.sessions userId ↔
        row ∈ s.sessions ∧ row.userId ≠ userId := fun row => by
      simp [deleteSessionsForUser, Table.mem_delete]
    have huses : ∀ hash use, (s.uses hash).filter (fun use => use.userId ≠ userId) = some use →
        s.uses hash = some use ∧ use.userId ≠ userId := fun hash use huse => by
      obtain ⟨hsome, hne⟩ := Option.filter_eq_some_iff.1 huse
      exact ⟨hsome, of_decide_eq_true hne⟩
    refine h.drop le_rfl (fun row hrow => ?_) (fun hash use huse => (huses hash use huse).1)
      fun row hrow use huse => .inl ((hmem row).2 ⟨hrow, ?_⟩)
    · obtain ⟨hold, hne⟩ := (hmem row).1 hrow
      obtain ⟨use, huse, hid, -⟩ := h.known row hold
      refine ⟨hold, ?_⟩
      rw [huse]
      exact Option.filter_eq_some_iff.2 ⟨rfl, decide_eq_true (hid ▸ hne)⟩
    · obtain ⟨use', huse', hid, -⟩ := h.known row hrow
      obtain ⟨hsome, hne⟩ := huses _ use huse
      obtain rfl := Option.some.inj (huse'.symm.trans hsome)
      exact hid ▸ hne

/-- In every state that is reached the bounds hold. -/
theorem slid_of_reach {clock : ℤ} (h : (sessionMachine users hashToken).Reachable (.start clock) s) : Slid users s :=
  h.invariant (slid_start clock) fun _ _ _ hs _ hstep => hs.change (sessionMachine_step hstep)

/-! ### The argument -/

theorem Change.clock_le (h : Change users hashToken s a s') : s.clock ≤ s'.clock := by
  cases h with
  | created hclock => exact hclock
  | refused hclock => exact hclock
  | letIn hlooked htouched => exact hlooked.trans htouched
  | turnedAway hlooked => exact hlooked
  | purged hclock => exact hclock
  | deleted => exact le_rfl
  | deletedForUser => exact le_rfl

/-- Who is let in has been there at most 24 hours ago. -/
theorem Slid.onlyInTime (h : Slid users s) (hin : LetsIn users hashToken s cookie looked touched) :
    ∃ token use, cookie = some token ∧ s.uses (hashToken token) = some use ∧
      looked ≤ use.instant + sessionLifetime := by
  obtain ⟨token, row, user, hcookie, -, hrow, hle, -⟩ := letsIn_iff.1 hin
  obtain ⟨hmem, hhash⟩ := Table.get?_eq_some.1 hrow
  obtain ⟨use, huse, -, -, hbound⟩ := h.known row hmem
  refine ⟨token, use, hcookie, ?_, hle.trans hbound⟩
  rw [← huse]
  exact congrArg s.uses hhash.symm

/-- A session is let in as long as its last use assures. -/
theorem Slid.letsIn (h : Slid users s) {hash : Str} {use : Use} (huse : s.uses hash = some use)
    (hcarries : Carries hashToken cookie hash) (hclock : s.clock ≤ looked) (hle : looked ≤ use.assured) :
    LetsIn users hashToken s cookie looked touched := by
  obtain ⟨token, hcookie, hne, rfl⟩ := hcarries
  rcases h.kept _ use huse with ⟨row, hrow, hhash⟩ | hover
  · obtain ⟨use', huse', -, hassured, -⟩ := h.known row hrow
    rw [hhash] at huse'
    obtain rfl := Option.some.inj (huse'.symm.trans huse)
    obtain ⟨user, huser⟩ := h.owned row hrow
    exact letsIn_iff.2 ⟨token, row, user, hcookie, hne, Table.get?_eq_some.2 ⟨hrow, hhash⟩, hle.trans hassured, huser⟩
  · exact absurd (hover.trans_le hclock) (not_lt.2 hle)

/-- Requests that come in time are let in, each because the one before was. -/
theorem Slid.alwaysLetIn (h : Slid users s) {hash : Str} {use : Use} (huse : s.uses hash = some use) (as : List Act)
    (htime : InTime hashToken hash use.userId use.assured as) : AlwaysLetIn users hashToken hash s as := by
  induction as generalizing s use with
  | nil => trivial
  | cons a as ih =>
    intro s' hstep
    have hchange := sessionMachine_step hstep
    have hslid := h.change hchange
    cases hchange with
    | @created userId token csrfToken now user row hclock huser hrow hfree =>
      obtain ⟨hother, hrest⟩ := htime
      refine ⟨(fun _ _ _ ha => by cases ha), ih hslid ?_ hrest⟩
      subst hrow
      exact (Function.update_of_ne (Ne.symm hother) _ _).trans huse
    | refused hclock => exact ⟨(fun _ _ _ ha => by cases ha), ih hslid huse htime.2⟩
    | @letIn token looked touched user row hlooked htouched hne hrow hhash hle huser =>
      refine ⟨fun cookie looked' touched' ha _ => ?_, ?_⟩
      · cases ha
        exact letsIn_iff.2 ⟨token, row, user, rfl, hne, Table.get?_eq_some.2 ⟨hrow, hhash⟩, hle, huser⟩
      · by_cases hsame : row.tokenHash = hash
        · -- The request is one in the session, and the next has 23 hours from now.
          have hcarries : Carries hashToken (some token) hash := ⟨token, rfl, hne, hhash ▸ hsame⟩
          obtain ⟨use', huse', hid, -⟩ := h.known row hrow
          rw [hsame] at huse'
          obtain rfl := Option.some.inj (huse'.symm.trans huse)
          have hrest := (htime.1 hcarries).2
          rw [hid] at hrest
          have hself : Function.update s.uses row.tokenHash (some ⟨row.userId, touched, true⟩) hash =
              some ⟨row.userId, touched, true⟩ := hsame ▸ Function.update_self _ _ _
          exact ih hslid hself hrest
        · have hnot : ¬ Carries hashToken (some token) hash := by
            rintro ⟨token', htoken, -, hhash'⟩
            obtain rfl := Option.some.inj htoken
            exact hsame (hhash.trans hhash')
          exact ih hslid ((Function.update_of_ne (Ne.symm hsame) _ _).trans huse) (htime.2 hnot)
    | @turnedAway cookie looked touched hlooked hnot =>
      have hother : ¬ Carries hashToken cookie hash := fun hcarries =>
        hnot (h.letsIn huse hcarries hlooked (htime.1 hcarries).1)
      refine ⟨fun cookie' looked' touched' ha hcarries => ?_, ih hslid huse (htime.2 hother)⟩
      cases ha
      exact absurd hcarries hother
    | purged hclock => exact ⟨(fun _ _ _ ha => by cases ha), ih hslid huse htime⟩
    | @deleted token =>
      obtain ⟨hother, hrest⟩ := htime
      exact ⟨(fun _ _ _ ha => by cases ha), ih hslid ((Function.update_of_ne (Ne.symm hother) _ _).trans huse) hrest⟩
    | @deletedForUser userId =>
      obtain ⟨hother, hrest⟩ := htime
      exact ⟨(fun _ _ _ ha => by cases ha),
        ih hslid (Option.filter_eq_some_iff.2 ⟨huse, decide_eq_true (Ne.symm hother)⟩) hrest⟩

/-- The sessions of a hash end no sooner than an instant, if it is within 24 hours. -/
theorem Change.grows (h : Change users hashToken s a s') {hash : Str} {limit : ℤ}
    (hlimit : limit ≤ s.clock + sessionLifetime) (hrows : ∀ row ∈ s.sessions, row.tokenHash = hash → limit ≤ row.expiresAt) :
    ∀ row ∈ s'.sessions, row.tokenHash = hash → limit ≤ row.expiresAt := by
  intro row hrow hhash
  cases h with
  | created hclock huser hnew hfree =>
    rcases Table.mem_upsert.1 hrow with rfl | ⟨hold, -⟩
    · subst hnew
      dsimp only
      omega
    · exact hrows row hold hhash
  | refused => exact hrows row hrow hhash
  | letIn hlooked htouched hne hmem =>
    rcases (mem_touchSession hmem).1 hrow with rfl | ⟨hold, -⟩
    · exact (hrows _ hmem hhash).trans (le_slide _ _)
    · exact hrows row hold hhash
  | turnedAway => exact hrows row hrow hhash
  | purged => exact hrows row (Table.mem_delete.1 hrow).1 hhash
  | deleted => exact hrows row (Table.mem_delete.1 hrow).1 hhash
  | deletedForUser => exact hrows row (Table.mem_delete.1 hrow).1 hhash

/-- A session that is over stays so, if it is not created anew. -/
theorem Change.over (h : Change users hashToken s a s') {hash : Str} {limit : ℤ}
    (hcreated : NotCreated hashToken hash s a)
    (hclock : limit ≤ s.clock) (hrows : ∀ row ∈ s.sessions, row.tokenHash = hash → row.expiresAt < limit) :
    ∀ row ∈ s'.sessions, row.tokenHash = hash → row.expiresAt < limit := by
  intro row hrow hhash
  cases h with
  | @created userId token csrfToken now user new hnow huser hnew hfree =>
    rcases Table.mem_upsert.1 hrow with rfl | ⟨hold, -⟩
    · subst hnew
      exact absurd hhash (hcreated userId token csrfToken now rfl)
    · exact hrows row hold hhash
  | refused => exact hrows row hrow hhash
  | letIn hlooked htouched hne hmem hsame hle =>
    rcases (mem_touchSession hmem).1 hrow with rfl | ⟨hold, -⟩
    · -- It would have been let in after its end.
      have hover := hrows _ hmem hhash
      omega
    · exact hrows row hold hhash
  | turnedAway => exact hrows row hrow hhash
  | purged => exact hrows row (Table.mem_delete.1 hrow).1 hhash
  | deleted => exact hrows row (Table.mem_delete.1 hrow).1 hhash
  | deletedForUser => exact hrows row (Table.mem_delete.1 hrow).1 hhash

/-- **Sessions slide**: on a clock that does not go back, whatever the calls are and in whatever order. -/
theorem sliding_expiry (users : Table User) (hashToken : Str → Str) (clock : ℤ) (s : State)
    (h : (sessionMachine users hashToken).Reachable (.start clock) s) : Slides users hashToken s := by
  have hslid := slid_of_reach h
  refine ⟨fun cookie looked touched hin => hslid.onlyInTime hin, fun hash use huse as => hslid.alwaysLetIn huse as,
    fun s' h' row hrow => ?_, fun row hrow => ?_,
    fun now hnow row hrow hpurged s' h' cookie looked touched hlooked hcarries hin => ?_⟩
  · obtain ⟨use, huse, -, -, hbound⟩ := hslid.known row hrow
    have hpast := hslid.past _ _ huse
    have hlimit : row.expiresAt ≤ s.clock + sessionLifetime := by omega
    refine (h'.invariant (I := fun s'' => row.expiresAt ≤ s''.clock + sessionLifetime ∧
      ∀ r ∈ s''.sessions, r.tokenHash = row.tokenHash → row.expiresAt ≤ r.expiresAt) ⟨hlimit, fun r hr hhash => ?_⟩
      fun s₁ a s₂ hinv _ hstep => ?_).2
    · rw [Table.eq_of_key hr hrow hhash]
    · have hchange := sessionMachine_step hstep
      have hclock := hchange.clock_le
      exact ⟨by have := hinv.1; omega, hchange.grows hinv.1 hinv.2⟩
  · obtain ⟨use, huse, -, -, hbound⟩ := hslid.known row hrow
    exact ⟨use, huse, hbound⟩
  · have hover : row.expiresAt < now := by
      by_contra hnot
      exact hpurged (Table.mem_delete.2 ⟨hrow, decide_eq_false hnot⟩)
    obtain ⟨hclock, hrows⟩ := h'.invariant (I := fun s'' => now ≤ s''.clock ∧
      ∀ r ∈ s''.sessions, r.tokenHash = row.tokenHash → r.expiresAt < now)
      ⟨le_rfl, fun r hr hhash => by rw [Table.eq_of_key hr hrow hhash]; exact hover⟩ fun s₁ a s₂ hinv hcreated hstep => by
        have hchange := sessionMachine_step hstep
        exact ⟨hinv.1.trans hchange.clock_le, hchange.over hcreated hinv.1 hinv.2⟩
    obtain ⟨token, r, user, hcookie, -, hr, hle, -⟩ := letsIn_iff.1 hin
    obtain ⟨token', hcookie', -, hhash⟩ := hcarries
    obtain rfl := Option.some.inj (hcookie.symm.trans hcookie')
    obtain ⟨hmem, hkey⟩ := Table.get?_eq_some.1 hr
    have hbefore := hrows r hmem (hkey.trans hhash)
    omega

/-- A user to log in as. -/
def soleUser : Table User := Table.empty.upsert ⟨1, Str.of "admin", Str.of "$argon2id$", .superadmin⟩

/-- A session that is used after 20 hours, and again 22 hours later. -/
def twoRequests : List Act :=
  [.create 1 (Str.of "token") (Str.of "csrf") 0,
    .request (some (Str.of "token")) (Instant.minutes 1200) (Instant.minutes 1200 + 500),
    .purge (Instant.minutes 1500),
    .request (some (Str.of "token")) (Instant.minutes 2520) (Instant.minutes 2520 + 700)]

theorem sliding_expiry_twoRequests :
    (((sessionMachine soleUser id).final (.start 0) twoRequests).sessions.rows.map (·.expiresAt) =
      [Instant.minutes 3960 + 700]) ∧
    Slides soleUser id ((sessionMachine soleUser id).final (.start 0) twoRequests) :=
  ⟨by decide +kernel, sliding_expiry soleUser id 0 _ (Machine.reachable_final _ twoRequests)⟩

end Sessions

end Cabin
