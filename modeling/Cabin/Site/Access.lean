import Cabin.Site.Log

/-!
# Who may change the users

Each request that changes the table of users is the first-run setup, or comes from a superadmin, in a session that
is live, with the token of its forms.  Sessions are opened with a password.

* `MaySend` says what such a request shows, `IsFirstRun` what the setup is;
* `Entered.maySend` : what the guards of a form let in shows it;
* `access_mediated` : both hold in every state that is reached.
-/

namespace Cabin

namespace Site

variable {H : Hasher} {hashToken : Str → Str} {depth : ℕ} {s : State} {r : Request} {user : User}

/-- The request has the cookie of a session and the token of its forms, in time; the session is that of a superadmin,
opened with a password that is still theirs. -/
structure MaySend (H : Hasher) (hashToken : Str → Str) (s : State) (r : Request) (user : User) (session : UserSession)
    (password : Str) : Prop where
  cookie : ∃ token, r.cookie = some token ∧ token ≠ [] ∧ s.sessions.get? (hashToken token) = some session
  inTime : r.looked ≤ session.expiresAt
  csrfToken : r.csrfToken = some session.csrfToken
  stored : s.db.users.get? session.userId = some user
  role : user.role = .superadmin
  opened : s.opened session.tokenHash = some password
  verify : H.verify user.passwordHash password = true

/-- Nobody is there, and the user that the form names is, afterwards. -/
structure IsFirstRun (s : State) (r : Request) (s' : State) (user : User) : Prop where
  form : ∃ password, r.form = .setup user.username password ∧ Users.minPasswordLength ≤ password.length
  nobody : s.db.users.rows = []
  role : user.role = .superadmin
  alone : s'.db.users.rows = [user]

/-- The session was there, but for when it ends. -/
def Stays (s : State) (row : UserSession) : Prop :=
  ∃ old ∈ s.sessions, row.tokenHash = old.tokenHash ∧ row.userId = old.userId

/-- The session is opened by a form with the name and the password of its user. -/
structure IsOpened (H : Hasher) (hashToken : Str → Str) (r : Request) (s' : State) (row : UserSession) : Prop where
  form : ∃ user password, (r.form = .login user.username password ∨ r.form = .setup user.username password) ∧
    user ∈ s'.db.users ∧ H.verify user.passwordHash password = true ∧ row.userId = user.id
  token : row.tokenHash = hashToken r.token

/-! ### The table of users -/

theorem Entered.maySend {sessions : Table UserSession} {session : UserSession}
    (h : Entered hashToken s r sessions user session) (hinv : Inv H depth s) (hrole : user.role = .superadmin)
    (hcsrf : r.csrfToken = some session.csrfToken) : ∃ password, MaySend H hashToken s r user session password := by
  obtain ⟨⟨user', password, huser, hopened, hverify⟩, -⟩ := hinv.live session h.mem
  obtain rfl : user = user' := Option.some.inj (h.user.symm.trans huser)
  exact ⟨password, h.cookie, h.inTime, hcsrf, h.user, hrole, hopened, hverify⟩

/-- A form for superadmins changes nothing of the users, or comes from one. -/
theorem users_change (hinv : Inv H depth s) (body : State → User → UserSession → State × Response) :
    (change hashToken s r body).1.db.users = s.db.users ∨
      ∃ user session password, MaySend H hashToken s r user session password := by
  refine change_rule (P := fun out => out.1.db.users = s.db.users ∨ _) (fun _ => .inl rfl) (fun _ _ _ _ _ => .inl rfl) ?_
  intro sessions user session hentered hrole hcsrf
  obtain ⟨password, hmay⟩ := hentered.maySend hinv hrole hcsrf
  exact .inr ⟨user, session, password, hmay⟩

theorem db_loginAndRedirect {password : Str} : (loginAndRedirect hashToken s r user password).1.db = s.db := by
  unfold loginAndRedirect
  split
  · rfl
  · exact State.record_db ..

theorem users_loginSubmit {username password : Str} :
    (loginSubmit H hashToken s r username password).1.db.users = s.db.users := by
  unfold loginSubmit
  split_ifs
  · rfl
  · split
    · rw [State.record_db]
    · rw [db_loginAndRedirect]

theorem users_logout : (logout hashToken s r).1.db.users = s.db.users := by
  refine withUser_rule (P := fun out => out.1.db.users = s.db.users) (fun _ => rfl) fun _ _ _ _ => ?_
  exact verifyCsrf_rule (P := fun out => out.1.db.users = s.db.users) (fun _ => rfl) fun _ => by rw [State.record_db]

/-- The setup is refused, or makes the first user, who is logged in. -/
theorem setupSubmit_cases {username password : Str} : (setupSubmit H hashToken s r username password).1 = s ∨
    ∃ s' user, s.db.users.rows = [] ∧ Users.minPasswordLength ≤ password.length ∧ s'.db.users.rows = [user] ∧
      s'.sessions = s.sessions ∧ user.username = username ∧ user.role = .superadmin ∧
      H.verify user.passwordHash password = true ∧
      (setupSubmit H hashToken s r username password).1 = (loginAndRedirect hashToken s' r user password).1 := by
  unfold setupSubmit
  split_ifs with hnobody
  · exact .inl rfl
  · cases hcreate : Users.createUser s.db username password (H.hash r.salt password) .superadmin with
    | error failure =>
      dsimp only
      split <;> exact .inl rfl
    | ok out =>
      obtain ⟨db, user⟩ := out
      obtain ⟨huser, hdb⟩ := createUser_eq_ok hcreate
      obtain ⟨_, hstrong, -⟩ := bind_eq_ok.1 hcreate
      have hrows : db.users.rows = [user] := by
        rw [hdb, Table.rows_upsert_nextId (by rw [huser]; rfl), not_not.1 hnobody, List.nil_append, huser]
      refine .inr ⟨_, user, not_not.1 hnobody, not_lt.1 (refuse_eq_ok.1 hstrong), ?_, ?_, ?_, ?_, ?_, rfl⟩
      · rw [State.record_db]
        exact hrows
      · rw [State.record_sessions]
      · rw [huser]
      · rw [huser]
      · rw [huser]
        exact H.verify_hash _ _

theorem users_setupSubmit {username password : Str} (hform : r.form = .setup username password)
    (hne : (setupSubmit H hashToken s r username password).1.db.users ≠ s.db.users) :
    ∃ user, IsFirstRun s r (setupSubmit H hashToken s r username password).1 user := by
  obtain h | ⟨s', user, hnobody, hlength, hrows, -, rfl, hrole, -, h⟩ :=
    @setupSubmit_cases H hashToken s r username password
  · rw [h] at hne
    exact absurd rfl hne
  · refine ⟨user, ⟨password, hform, hlength⟩, hnobody, hrole, ?_⟩
    rw [h, db_loginAndRedirect, hrows]

/-! ### The sessions -/

/-- What is done creates no session. -/
def Keeps (body : State → User → UserSession → State × Response) : Prop :=
  ∀ s user session, ∀ row ∈ (body s user session).1.sessions, row ∈ s.sessions

variable {body : State → User → UserSession → State × Response}

theorem stays_withUser (hbody : Keeps body) : ∀ row ∈ (withUser hashToken s r body).1.sessions, Stays s row := by
  refine withUser_rule (P := fun out => ∀ row ∈ out.1.sessions, Stays s row) (fun _ row hrow => ⟨row, hrow, rfl, rfl⟩) ?_
  exact fun sessions user session hentered row hrow => hentered.kept row (hbody _ _ _ row hrow)

theorem Keeps.verifyCsrf (hbody : Keeps body) : Keeps (Site.verifyCsrf r body) := fun s user session =>
  verifyCsrf_rule (P := fun out => ∀ row ∈ out.1.sessions, row ∈ s.sessions) (fun _ _ h => h) fun _ => hbody s user session

theorem stays_change (hbody : Keeps body) : ∀ row ∈ (change hashToken s r body).1.sessions, Stays s row := by
  refine stays_withUser fun s user session => ?_
  unfold requireSuperadmin
  split_ifs
  · exact hbody.verifyCsrf s user session
  · exact fun _ h => h

theorem sessions_announce {session : UserSession} {call : Audit.Call} :
    (announce r s session call).1.sessions = s.sessions := by
  rw [announce, State.tell_sessions, State.record_sessions]

theorem stays_createUserRoute {username password role : Str} :
    ∀ row ∈ (createUserRoute H hashToken s r username password role).1.sessions, Stays s row := by
  refine stays_change fun s actor session => ?_
  split
  · exact fun _ h => h
  · split
    · split <;> exact fun _ h => h
    · rw [sessions_announce]
      exact fun _ h => h

theorem stays_updateRoleRoute {userId : ℕ} {role : Str} :
    ∀ row ∈ (updateRoleRoute hashToken s r userId role).1.sessions, Stays s row := by
  refine stays_change fun s actor session => ?_
  split
  · exact fun _ h => h
  · split
    · exact fun _ h => h
    · split
      · split <;> exact fun _ h => h
      · split_ifs
        · exact fun _ h => h
        · rw [sessions_announce]
          exact fun _ h => h

theorem stays_resetPasswordRoute {userId : ℕ} {password : Str} :
    ∀ row ∈ (resetPasswordRoute H hashToken s r userId password).1.sessions, Stays s row := by
  refine stays_change fun s actor session => ?_
  split
  · split <;> exact fun _ h => h
  · rw [sessions_announce]
    exact fun row h => (Table.mem_delete.1 h).1

theorem stays_deleteUserRoute {userId : ℕ} :
    ∀ row ∈ (deleteUserRoute hashToken s r userId).1.sessions, Stays s row := by
  refine stays_change fun s actor session => ?_
  split
  · exact fun _ h => h
  · split
    · split <;> exact fun _ h => h
    · rw [sessions_announce]
      exact fun row h => (Table.mem_delete.1 h).1

theorem stays_logout : ∀ row ∈ (logout hashToken s r).1.sessions, Stays s row := by
  refine stays_withUser (Keeps.verifyCsrf fun s user session row hrow => ?_)
  rw [State.record_sessions] at hrow
  dsimp only at hrow
  split at hrow
  · exact hrow
  · exact (Table.mem_delete.1 hrow).1

/-- Who logs in gets one session. -/
theorem opened_loginAndRedirect {password : Str} {row : UserSession}
    (hrow : row ∈ (loginAndRedirect hashToken s r user password).1.sessions) :
    row ∈ s.sessions ∨ row.userId = user.id ∧ row.tokenHash = hashToken r.token := by
  unfold loginAndRedirect at hrow
  split at hrow
  · exact .inl hrow
  · rename_i sessions created hcreate
    rw [State.record_sessions] at hrow
    obtain ⟨rfl, hmem⟩ := createSession_eq_ok hcreate
    rcases hmem row hrow with rfl | ⟨hold, -⟩
    · exact .inr ⟨rfl, rfl⟩
    · exact .inl hold

theorem opened_loginSubmit {username password : Str} (hform : r.form = .login username password) {row : UserSession}
    (hrow : row ∈ (loginSubmit H hashToken s r username password).1.sessions) :
    Stays s row ∨ IsOpened H hashToken r (loginSubmit H hashToken s r username password).1 row := by
  have husers : (loginSubmit H hashToken s r username password).1.db.users = s.db.users := users_loginSubmit
  have hopened : Stays s row ∨ ∃ user ∈ s.db.users, user.username = username ∧
      H.verify user.passwordHash password = true ∧ row.userId = user.id ∧ row.tokenHash = hashToken r.token := by
    unfold loginSubmit at hrow
    split_ifs at hrow
    · exact .inl ⟨row, hrow, rfl, rfl⟩
    · split at hrow
      · rw [State.record_sessions] at hrow
        exact .inl ⟨row, hrow, rfl, rfl⟩
      · rename_i user hverified
        obtain ⟨hname, hverify⟩ := Option.filter_eq_some_iff.1 hverified
        obtain ⟨hmem, husername⟩ := Table.mem_select.1 (List.mem_of_mem_head? hname)
        rcases opened_loginAndRedirect hrow with hold | ⟨hid, htoken⟩
        · exact .inl ⟨row, mem_of_mem_replaceSession (Table.mem_delete.1 hold).1, rfl, rfl⟩
        · exact .inr ⟨user, hmem, beq_iff_eq.1 husername, hverify, hid, htoken⟩
  rcases hopened with hstays | ⟨user, hmem, rfl, hverify, hid, htoken⟩
  · exact .inl hstays
  · refine .inr ⟨⟨user, password, .inl hform, ?_, hverify, hid⟩, htoken⟩
    rw [← Table.mem_rows, husers]
    exact hmem

theorem opened_setupSubmit {username password : Str} (hform : r.form = .setup username password) {row : UserSession}
    (hrow : row ∈ (setupSubmit H hashToken s r username password).1.sessions) :
    Stays s row ∨ IsOpened H hashToken r (setupSubmit H hashToken s r username password).1 row := by
  obtain h | ⟨s', user, -, -, hrows, hsessions, rfl, -, hverify, h⟩ :=
    @setupSubmit_cases H hashToken s r username password
  · rw [h] at hrow
    exact .inl ⟨row, hrow, rfl, rfl⟩
  · rw [h] at hrow ⊢
    rcases opened_loginAndRedirect hrow with hold | ⟨hid, htoken⟩
    · exact .inl ⟨row, hsessions ▸ hold, rfl, rfl⟩
    · refine .inr ⟨⟨user, password, .inr hform, ?_, hverify, hid⟩, htoken⟩
      rw [← Table.mem_rows, db_loginAndRedirect, hrows]
      exact List.mem_cons_self

end Site

end Cabin
