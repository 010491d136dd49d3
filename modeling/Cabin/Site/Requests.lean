import Cabin.Audit.Record
import Cabin.Users.Sessions
import Cabin.Users.Tokens

/-!
# The requests of the pages

First-run setup, login and logout, and the management of users (`web/ui.py`), behind the guards that each request
passes (`web/deps.py`): who is logged in, the role, the token of the form.  What is done is recorded in the audit
log, and told on the next page of the session.

Requests are handled one after another.  Beside the tables, `State` keeps, for the proofs, with which password
the session of a hash was opened.

* `handle` : one request, what it writes and what it is answered with;
* `siteMachine` : the requests, between whatever else the program does.
-/

namespace Cabin

namespace Site

/-! ### Passwords -/

/-- The hasher of passwords; it verifies what it has hashed. -/
structure Hasher where
  /-- `hash`, of the salt that is drawn and the password. -/
  hash : Str → Str → Str
  verify : Str → Str → Bool
  verify_hash : ∀ salt password, verify (hash salt password) password = true

/-- `verify_credentials`: the user with the name, if the password is theirs. -/
def verifyCredentials (H : Hasher) (db : UserDb) (username password : Str) : Option User :=
  (Users.byUsername db username).filter fun user => H.verify user.passwordHash password

/-- `reset_password`; `hash` is what the hasher made of the password. -/
def resetPassword (db : UserDb) (id : ℕ) (newPassword hash : Str) : Except UserFailure (UserDb × User) := do
  Users.checkPasswordStrength newPassword
  let user ← Users.getUser db id
  let db := { db with
    users := db.users.update (fun u => u.id == user.id) (fun u => { u with passwordHash := hash }) fun _ => rfl }
  let user ← Users.refresh db user.id
  pure (db, user)

/-! ### States and requests -/

/-- The database and, for the proofs, the passwords. -/
structure State where
  db : UserDb
  sessions : Table UserSession
  /-- The column `flash` of the sessions. -/
  flash : Str → Option Str
  events : Table Audit.Row
  /-- The password with which the session of a hash was opened. -/
  opened : Str → Option Str

/-- Nobody is there, and nothing has been recorded. -/
def State.start (ca : Db) : State := ⟨⟨.empty, [], ca⟩, .empty, fun _ => none, .empty, fun _ => none⟩

/-- The forms. -/
inductive Form where
  /-- A page, for whoever is logged in. -/
  | page
  | setup (username password : Str)
  | login (username password : Str)
  | logout
  | createUser (username password role : Str)
  | updateRole (userId : ℕ) (role : Str)
  | resetPassword (userId : ℕ) (password : Str)
  | deleteUser (userId : ℕ)

/-- An instant that the clock shows. -/
structure Moment where
  time : ℤ
  isDatetime : Instant.IsDatetime time

/-- `datetime.now(UTC)`. -/
def Moment.clock (m : Moment) : Certs.AwareDatetime := ⟨m.time, false, .utc, m.isDatetime⟩

/-- A request, with what is drawn for it and what its readings of the clock show. -/
structure Request where
  form : Form
  /-- The cookie of the session. -/
  cookie : Option Str
  /-- The token in the form. -/
  csrfToken : Option Str
  /-- Where it comes from. -/
  ip : Option Str
  salt : Str
  /-- The token for a new session. -/
  token : Str
  /-- The token for its forms. -/
  formToken : Str
  looked : ℤ
  touched : ℤ
  purged : ℤ
  created : ℤ
  recorded : Moment

/-- What a request is answered with. -/
inductive Response where
  /-- 303, with the cookie that is set. -/
  | redirect (location : String) (cookie : Option Str)
  /-- An `HTTPException`. -/
  | refused (status : ℕ) (detail : String)
  /-- A page with an error, and with what the session was to be told. -/
  | page (status : ℕ) (error : Option String) (flash : Option Str)
  /-- An exception that nothing catches. -/
  | crashed

/-! ### Events -/

/-- `user_actor`. -/
def userActor (user : User) : Audit.Actor := ⟨.user, some user.id, user.username⟩

/-- An event about a user. -/
def event (actor : Audit.Actor) (action : Audit.AuditAction) (summary : Str) (target : ℕ)
    (detail : Option (List (Str × Json))) (ip : Option Str) : Audit.Call :=
  ⟨actor, action, summary, some (Str.of "user"), some (.num target), detail, ip, .clock⟩

/-- `audit.record`. -/
def State.record (s : State) (moment : Moment) (call : Audit.Call) : State :=
  match Audit.record moment.clock s.events call with
  | .ok appended => { s with events := appended.2 }
  | .error _ => s

/-- Nothing else is written. -/
@[simp] theorem State.record_db (s : State) (moment : Moment) (call : Audit.Call) : (s.record moment call).db = s.db := by
  unfold State.record
  split <;> rfl

@[simp] theorem State.record_sessions (s : State) (moment : Moment) (call : Audit.Call) :
    (s.record moment call).sessions = s.sessions := by
  unfold State.record
  split <;> rfl

/-- `flash`: a session that is gone is told nothing. -/
def State.tell (s : State) (session : UserSession) (message : Str) : State :=
  if (s.sessions.get? session.tokenHash).isSome then
    { s with flash := Function.update s.flash session.tokenHash (some message) }
  else s

@[simp] theorem State.tell_db (s : State) (session : UserSession) (message : Str) :
    (s.tell session message).db = s.db := by
  unfold State.tell
  split <;> rfl

@[simp] theorem State.tell_sessions (s : State) (session : UserSession) (message : Str) :
    (s.tell session message).sessions = s.sessions := by
  unfold State.tell
  split <;> rfl

/-- The name of a user, between quotes. -/
def quoted (user : User) : Str := Str.of (Str.repr user.username)

section routes

variable (H : Hasher) (hashToken : Str → Str) (s : State) (r : Request)

/-! ### Guards -/

/-- A page of a session, which shows what it was to be told and forgets it. -/
def showPage (session : UserSession) (status : ℕ) (error : Option String) : State × Response :=
  ({ s with flash := Function.update s.flash session.tokenHash none },
    .page status error (s.flash session.tokenHash))

/-- `get_current_user`, and what is done for who is logged in. -/
def withUser (body : State → User → UserSession → State × Response) : State × Response :=
  match Sessions.getCurrentUser s.db.users hashToken s.sessions r.cookie r.looked r.touched with
  | (_, .redirect location) => (s, .redirect location none)
  | (sessions, .user user session _) => body { s with sessions } user session

/-- `verify_csrf`. -/
def verifyCsrf (body : State → User → UserSession → State × Response) : State → User → UserSession → State × Response :=
  fun s user session =>
    if r.csrfToken = some session.csrfToken then body s user session
    else (s, .refused 403 "csrf token mismatch")

/-- `require_superadmin`. -/
def requireSuperadmin (body : State → User → UserSession → State × Response) :
    State → User → UserSession → State × Response :=
  fun s user session =>
    if user.role = .superadmin then body s user session else (s, .refused 403 "forbidden for this role")

/-- A form that only a superadmin may send. -/
def change (body : State → User → UserSession → State × Response) : State × Response :=
  withUser hashToken s r (requireSuperadmin (verifyCsrf r body))

/-! ### Setup, login and logout -/

/-- `_login_and_redirect`. -/
def loginAndRedirect (user : User) (password : Str) : State × Response :=
  match Sessions.createSession hashToken s.sessions user r.token r.formToken r.created with
  | .error _ => (s, .crashed)
  | .ok (sessions, row) =>
    let s' : State := { s with
      sessions
      flash := Function.update s.flash row.tokenHash none
      opened := Function.update s.opened row.tokenHash (some password) }
    (s'.record r.recorded
      (event (userActor user) .loginSuccess (Str.of "login for " ++ quoted user) user.id none r.ip),
      .redirect "/" (some r.token))

/-- `setup_submit`. -/
def setupSubmit (username password : Str) : State × Response :=
  if s.db.users.rows ≠ [] then (s, .refused 404 "Not Found")
  else
    match Users.createUser s.db username password (H.hash r.salt password) .superadmin with
    | .error failure =>
      match failure.kind with
      | .weakPassword => (s, .page 400 (some failure.message) none)
      | .userExists | .integrity => (s, .page 400 (some "setup already completed by another request") none)
      | _ => (s, .crashed)
    | .ok (db, user) =>
      -- Nobody is logged in yet: cabin itself has acted.
      let s' := State.record { s with db } r.recorded
        (event Audit.systemActor .userCreated (Str.of "first-run setup created superadmin " ++ quoted user) user.id
          (some [(Str.of "username", .str user.username), (Str.of "role", .str (Role.value .superadmin))]) r.ip)
      loginAndRedirect hashToken s' r user password

/-- The session of a cookie goes, if who logs in is whose session it is. -/
def replaceSession (user : User) : Table UserSession :=
  match r.cookie.filter (· ≠ []) with
  | none => s.sessions
  | some token =>
    match Sessions.getSession hashToken s.sessions token r.looked with
    | none => s.sessions
    | some row => if row.userId = user.id then Sessions.deleteSession hashToken s.sessions token else s.sessions

/-- `login_submit`. -/
def loginSubmit (username password : Str) : State × Response :=
  if s.db.users.rows = [] then (s, .redirect "/setup" none)
  else
    match verifyCredentials H s.db username password with
    | none =>
      let attempted := username.take Audit.maxLabelLength
      (s.record r.recorded
        ⟨⟨.user, none, attempted⟩, .loginFailed, Str.of "failed login for " ++ Str.of (Str.repr attempted), none, none,
          none, r.ip, .clock⟩,
        .page 401 (some "invalid username or password") none)
    | some user =>
      let sessions := Sessions.purgeExpired (replaceSession hashToken s r user) r.purged
      loginAndRedirect hashToken { s with sessions } r user password

/-- `logout`. -/
def logout : State × Response :=
  withUser hashToken s r (verifyCsrf r fun s user _ =>
    let sessions :=
      match r.cookie.filter (· ≠ []) with
      | none => s.sessions
      | some token => Sessions.deleteSession hashToken s.sessions token
    (State.record { s with sessions } r.recorded
      (event (userActor user) .logout (Str.of "logout for " ++ quoted user) user.id none r.ip),
      .redirect "/login" none))

/-! ### Users -/

/-- `_parse_role`. -/
def parseRole (role : Str) : Option Role := [Role.superadmin, .admin, .viewer].find? fun known => known.value = role

/-- What a change comes to: it is recorded, and the session is told. -/
def announce (s : State) (session : UserSession) (call : Audit.Call) : State × Response :=
  ((s.record r.recorded call).tell session call.summary, .redirect "/users" none)

/-- `create_user_route`. -/
def createUserRoute (username password role : Str) : State × Response :=
  change hashToken s r fun s actor session =>
    match parseRole role with
    | none => (s, .refused 400 "invalid role")
    | some role =>
      match Users.createUser s.db username password (H.hash r.salt password) role with
      | .error failure =>
        match failure.kind with
        | .weakPassword | .userExists => showPage s session 400 (some failure.message)
        | _ => (s, .crashed)
      | .ok (db, created) =>
        announce r { s with db } session
          (event (userActor actor) .userCreated
            (Str.of "created user " ++ quoted created ++ Str.of " as " ++ created.role.value) created.id
            (some [(Str.of "username", .str created.username), (Str.of "role", .str created.role.value)]) r.ip)

/-- `update_role_route`: a role that the user has already is no event. -/
def updateRoleRoute (userId : ℕ) (role : Str) : State × Response :=
  change hashToken s r fun s actor session =>
    match Users.getUser s.db userId with
    | .error _ => (s, .refused 404 "Not Found")
    | .ok old =>
      match parseRole role with
      | none => (s, .refused 400 "invalid role")
      | some role =>
        match Users.updateRole s.db userId role with
        | .error failure =>
          match failure.kind with
          | .userNotFound => (s, .refused 404 "Not Found")
          | .lastSuperadmin => showPage s session 400 (some failure.message)
          | _ => (s, .crashed)
        | .ok (db, changed) =>
          if changed.role = old.role then ({ s with db }, .redirect "/users" none)
          else
            announce r { s with db } session
              (event (userActor actor) .userRoleChanged
                (Str.of "changed role of " ++ quoted changed ++ Str.of " from " ++ old.role.value ++ Str.of " to " ++
                  changed.role.value) changed.id
                (some [(Str.of "username", .str changed.username), (Str.of "old_role", .str old.role.value),
                  (Str.of "new_role", .str changed.role.value)]) r.ip)

/-- `reset_password_route`: with the old password the sessions of the user go. -/
def resetPasswordRoute (userId : ℕ) (password : Str) : State × Response :=
  change hashToken s r fun s actor session =>
    match resetPassword s.db userId password (H.hash r.salt password) with
    | .error failure =>
      match failure.kind with
      | .userNotFound => (s, .refused 404 "Not Found")
      | .weakPassword => showPage s session 400 (some failure.message)
      | _ => (s, .crashed)
    | .ok (db, target) =>
      announce r { s with db, sessions := Sessions.deleteSessionsForUser s.sessions userId } session
        (event (userActor actor) .userPasswordReset (Str.of "reset the password of " ++ quoted target) target.id
          (some [(Str.of "username", .str target.username)]) r.ip)

/-- `delete_user_route`. -/
def deleteUserRoute (userId : ℕ) : State × Response :=
  change hashToken s r fun s actor session =>
    match Users.getUser s.db userId with
    | .error _ => (s, .refused 404 "Not Found")
    | .ok target =>
      match Users.deleteUser s.db userId with
      | .error failure =>
        match failure.kind with
        | .userNotFound => (s, .refused 404 "Not Found")
        | .lastSuperadmin => showPage s session 400 (some failure.message)
        | _ => (s, .crashed)
      | .ok db =>
        announce r { s with db, sessions := Sessions.deleteSessionsForUser s.sessions userId } session
          (event (userActor actor) .userDeleted (Str.of "deleted user " ++ quoted target) userId
            (some [(Str.of "username", .str target.username), (Str.of "role", .str target.role.value)]) r.ip)

/-- One request. -/
def handle : State × Response :=
  match r.form with
  | .page => withUser hashToken s r fun s _ session => showPage s session 200 none
  | .setup username password => setupSubmit H hashToken s r username password
  | .login username password => loginSubmit H hashToken s r username password
  | .logout => logout hashToken s r
  | .createUser username password role => createUserRoute H hashToken s r username password role
  | .updateRole userId role => updateRoleRoute hashToken s r userId role
  | .resetPassword userId password => resetPasswordRoute H hashToken s r userId password
  | .deleteUser userId => deleteUserRoute hashToken s r userId

end routes

/-! ### What the guards let in -/

section guards

variable {hashToken : Str → Str} {s : State} {r : Request} {P : State × Response → Prop}
  {body : State → User → UserSession → State × Response}

/-- The request is one of a user, in a session; of the sessions that there were, these are left. -/
structure Entered (hashToken : Str → Str) (s : State) (r : Request) (sessions : Table UserSession) (user : User)
    (session : UserSession) : Prop where
  cookie : ∃ token, r.cookie = some token ∧ token ≠ [] ∧ s.sessions.get? (hashToken token) = some session
  inTime : r.looked ≤ session.expiresAt
  user : s.db.users.get? session.userId = some user
  kept : ∀ row ∈ sessions, ∃ old ∈ s.sessions, row.tokenHash = old.tokenHash ∧ row.userId = old.userId

theorem Entered.mem {sessions : Table UserSession} {user : User} {session : UserSession}
    (h : Entered hashToken s r sessions user session) : session ∈ s.sessions := by
  obtain ⟨token, -, -, hget⟩ := h.cookie
  exact (Table.get?_eq_some.1 hget).1

theorem Entered.id_eq {sessions : Table UserSession} {user : User} {session : UserSession}
    (h : Entered hashToken s r sessions user session) : user.id = session.userId := (Table.get?_eq_some.1 h.user).2

/-- What holds where nobody is let in, and of what is done for whoever is, holds behind the guard. -/
theorem withUser_rule (hredirect : ∀ location, P (s, .redirect location none))
    (hbody : ∀ sessions user session, Entered hashToken s r sessions user session →
      P (body { s with sessions } user session)) : P (withUser hashToken s r body) := by
  unfold withUser
  split
  · exact hredirect _
  · rename_i sessions user session refresh hlet
    obtain ⟨token, hcookie, hne, hget, hle, huser, rfl⟩ := Sessions.getCurrentUser_eq_user hlet
    have hmem := (Table.get?_eq_some.1 hget).1
    -- At most the end of the session has moved.
    refine hbody _ user session ⟨⟨token, hcookie, hne, hget⟩, hle, huser, fun row hrow => ?_⟩
    rcases (Sessions.mem_touchSession hmem).1 hrow with rfl | ⟨hold, -⟩
    · exact ⟨session, hmem, rfl, rfl⟩
    · exact ⟨row, hold, rfl, rfl⟩

/-- The same of a form: of its token, -/
theorem verifyCsrf_rule {user : User} {session : UserSession} (hrefused : ∀ detail, P (s, .refused 403 detail))
    (hbody : r.csrfToken = some session.csrfToken → P (body s user session)) : P (verifyCsrf r body s user session) := by
  unfold verifyCsrf
  split_ifs with h
  · exact hbody h
  · exact hrefused _

/-- and of one for superadmins. -/
theorem change_rule (hredirect : ∀ location, P (s, .redirect location none))
    (hrefused : ∀ sessions user session detail, Entered hashToken s r sessions user session →
      P ({ s with sessions }, .refused 403 detail))
    (hbody : ∀ sessions user session, Entered hashToken s r sessions user session → user.role = .superadmin →
      r.csrfToken = some session.csrfToken → P (body { s with sessions } user session)) :
    P (change hashToken s r body) := by
  refine withUser_rule hredirect fun sessions user session h => ?_
  unfold requireSuperadmin
  split_ifs with hrole
  · exact verifyCsrf_rule (fun detail => hrefused _ _ _ detail h) fun hcsrf => hbody _ _ _ h hrole hcsrf
  · exact hrefused _ _ _ _ h

end guards

/-! ### The machine -/

/-- The events that the requests record. -/
def siteActions : List Audit.AuditAction :=
  [.loginSuccess, .loginFailed, .logout, .userCreated, .userRoleChanged, .userPasswordReset, .userDeleted]

/-- What happens. -/
inductive Act where
  | request (r : Request)
  /-- Something else writes other tables, and records an event of another kind. -/
  | other (ca : Db) (tokens : List ℕ) (moment : Moment) (call : Audit.Call)

/-- One thing after another. -/
def siteMachine (H : Hasher) (hashToken : Str → Str) : Machine State Act where
  step s
    | .request r => some (handle H hashToken s r).1
    | .other ca tokens moment call =>
      if call.action ∈ siteActions then none
      else some (State.record { s with db := { s.db with ca, tokens } } moment call)

end Site

end Cabin
