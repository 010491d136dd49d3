import Cabin.Site.Ledger
import Cabin.Users.Superadmins

/-!
# The log and the tables

`Inv` connects what the audit log tells to the tables: who there is, whose sessions there are, and what they are to
be told.  It has one rule for each kind of write.

* `Inv.sessions`, `Inv.forget`, `Inv.tell`, `Inv.append` : the rules, `Inv.login` and `Inv.announce` those for the two
  ways in which the requests end, `Inv.change` the one for the forms of superadmins;
* `inv_handle` : one request, `inv_of_reach` a run;
* `changed_by_superadmin` : who has changed a user, wherever it stands in the log;
* `log_justified` : what the log tells in every state that is reached.
-/

namespace Cabin

namespace Site

/-! ### What the operations do to the users -/

section users

variable {db db' : UserDb} {user : User} {username password hash : Str} {role : Role} {id : ℕ}

theorem createUser_eq_ok (h : Users.createUser db username password hash role = .ok (db', user)) :
    user = ⟨db.users.nextId, username, hash, role⟩ ∧ db'.users = db.users.upsert user := by
  obtain ⟨_, -, h⟩ := bind_eq_ok.1 h
  obtain ⟨_, -, h⟩ := bind_eq_ok.1 h
  obtain ⟨⟨w, x⟩, hinsert, h⟩ := bind_eq_ok.1 h
  obtain ⟨y, hrefresh, h⟩ := bind_eq_ok.1 h
  obtain ⟨rfl, rfl⟩ := Prod.mk.inj (pure_eq_ok.1 h)
  unfold Users.insertUser at hinsert
  split_ifs at hinsert
  cases hinsert
  have hget : (db.users.upsert ⟨db.users.nextId, username, hash, role⟩).get? db.users.nextId =
      some ⟨db.users.nextId, username, hash, role⟩ := by
    rw [Table.get?_upsert]
    exact if_pos rfl
  simp only [Users.refresh, hget, Except.ok.injEq] at hrefresh
  exact ⟨hrefresh.symm, hrefresh ▸ rfl⟩

theorem getUser_eq_ok : Users.getUser db id = .ok user ↔ db.users.get? id = some user := by
  unfold Users.getUser
  cases db.users.get? id <;> simp

theorem refresh_eq_ok : Users.refresh db id = .ok user ↔ db.users.get? id = some user := by
  unfold Users.refresh
  cases db.users.get? id <;> simp

/-- One column of one row is written. -/
theorem get?_write (f : User → User) (hf : ∀ u, key (f u) = key u) (huser : db.users.get? id = some user) (n : ℕ) :
    (db.users.update (fun u => u.id == id) f hf).get? n = if n = id then some (f user) else db.users.get? n := by
  rw [Table.get?_update]
  cases hget : db.users.get? n with
  | none =>
    rw [Option.map_none, if_neg]
    rintro rfl
    rw [huser] at hget
    cases hget
  | some u =>
    obtain rfl : u.id = n := (Table.get?_eq_some.1 hget).2
    simp only [Option.map_some, beq_iff_eq]
    split_ifs with hid
    · rw [hid, huser] at hget
      rw [Option.some.inj hget]
    · rfl

theorem updateRole_eq_ok (h : Users.updateRole db id role = .ok (db', user)) :
    ∃ old, db.users.get? id = some old ∧ user = { old with role } ∧ (old.role = role → db' = db) ∧
      ∀ n, db'.users.get? n = if n = id then some user else db.users.get? n := by
  obtain ⟨old, hold, h⟩ := bind_eq_ok.1 h
  obtain ⟨_, -, h⟩ := bind_eq_ok.1 h
  obtain ⟨w, hset, h⟩ := bind_eq_ok.1 h
  obtain ⟨x, hrefresh, h⟩ := bind_eq_ok.1 h
  obtain ⟨rfl, rfl⟩ := Prod.mk.inj (pure_eq_ok.1 h)
  rw [getUser_eq_ok] at hold
  obtain rfl : old.id = id := (Table.get?_eq_some.1 hold).2
  have hget : (old.role = role → w = db) ∧
      ∀ n, w.users.get? n = if n = old.id then some { old with role } else db.users.get? n := by
    unfold Users.changeRole at hset
    split_ifs at hset with hsame
    · obtain rfl := Except.ok.inj hset
      refine ⟨fun _ => rfl, fun n => ?_⟩
      split_ifs with hn
      · subst hn hsame
        exact hold
      · rfl
    · unfold Users.setRole at hset
      split_ifs at hset
      obtain rfl := Except.ok.inj hset
      exact ⟨fun h => absurd h hsame, get?_write (fun u => { u with role }) (fun _ => rfl) hold⟩
  rw [refresh_eq_ok, hget.2, if_pos rfl] at hrefresh
  obtain rfl := Option.some.inj hrefresh
  exact ⟨old, hold, rfl, hget⟩

theorem resetPassword_eq_ok (h : resetPassword db id password hash = .ok (db', user)) :
    ∃ old, db.users.get? id = some old ∧ user = { old with passwordHash := hash } ∧
      ∀ n, db'.users.get? n = if n = id then some user else db.users.get? n := by
  obtain ⟨_, -, h⟩ := bind_eq_ok.1 h
  obtain ⟨old, hold, h⟩ := bind_eq_ok.1 h
  obtain ⟨x, hrefresh, h⟩ := bind_eq_ok.1 h
  obtain ⟨rfl, rfl⟩ := Prod.mk.inj (pure_eq_ok.1 h)
  rw [getUser_eq_ok] at hold
  obtain rfl : old.id = id := (Table.get?_eq_some.1 hold).2
  have hget := get?_write (fun u => { u with passwordHash := hash }) (fun _ => rfl) hold
  rw [refresh_eq_ok, hget, if_pos rfl] at hrefresh
  obtain rfl := Option.some.inj hrefresh
  exact ⟨old, hold, rfl, hget⟩

theorem get?_removeUser (n : ℕ) :
    (Users.removeUser db id).users.get? n = if n = id then none else db.users.get? n := by
  unfold Users.removeUser
  split_ifs with hn
  · rw [Table.get?_eq_none]
    rintro u hu rfl
    have hgone := (Table.mem_delete.1 hu).2
    rw [beq_eq_false_iff_ne] at hgone
    exact hgone hn
  · cases hget : db.users.get? n with
    | none =>
      rw [Table.get?_eq_none] at hget ⊢
      exact fun u hu => hget u (Table.mem_delete.1 hu).1
    | some u =>
      refine Table.get?_delete hget (beq_eq_false_iff_ne.2 ?_)
      rwa [← key_user, (Table.get?_eq_some.1 hget).2]

end users

/-! ### The invariant -/

section inv

variable {H : Hasher} {hashToken : Str → Str} {depth : ℕ} {l l' : Ledger} {s s' : State} {r : Request}
  {moment : Moment} {call : Audit.Call} {user : User}

/-- The name and the role. -/
def entry (user : User) : Str × Str := (user.username, user.role.value)

/-- What the log of a state comes to. -/
def State.ledger (s : State) (depth : ℕ) : Ledger := Site.ledger depth s.events.rows

/-- The session is that of a user there is, opened with their password, as the log tells. -/
structure Live (H : Hasher) (users : Table User) (opened : Str → Option Str) (l : Ledger) (row : UserSession) : Prop where
  user : ∃ user password, users.get? row.userId = some user ∧ opened row.tokenHash = some password ∧
    H.verify user.passwordHash password = true
  loggedIn : l.loggedIn row.userId = true

/-- What a session is to be told is the summary of something that its user has done. -/
def Told (flash : Str → Option Str) (events : Table Audit.Row) (row : UserSession) : Prop :=
  ∀ message, flash row.tokenHash = some message → ∃ e ∈ events, e.summary = message ∧ e.actorId = some row.userId

/-- The log, and what it tells of the tables. -/
structure Inv (H : Hasher) (depth : ℕ) (s : State) : Prop where
  justified : Justified (Ledger.next depth) (Permits depth) .empty s.events.rows
  users : ∀ id, (s.ledger depth).users id = (s.db.users.get? id).map entry
  live : ∀ row ∈ s.sessions, Live H s.db.users s.opened (s.ledger depth) row
  told : ∀ row ∈ s.sessions, Told s.flash s.events row
  text : ∀ user ∈ s.db.users, Json.IsText user.username
  /-- Whoever is there, a superadmin is. -/
  superadmin : s.db.users.rows ≠ [] → Users.HasSuperadmin s.db

theorem inv_start (ca : Db) : Inv H depth (.start ca) where
  justified := trivial
  users _ := rfl
  live _ h := absurd h Table.not_mem_empty
  told _ h := absurd h Table.not_mem_empty
  text _ h := absurd h Table.not_mem_empty
  superadmin h := absurd rfl h

/-! ### One rule for each kind of write -/

/-- Sessions are touched, or go. -/
theorem Inv.sessions (hinv : Inv H depth s) {sessions : Table UserSession}
    (h : ∀ row ∈ sessions, ∃ old ∈ s.sessions, row.tokenHash = old.tokenHash ∧ row.userId = old.userId) :
    Inv H depth { s with sessions } where
  justified := hinv.justified
  users := hinv.users
  live row hrow := by
    obtain ⟨old, hold, hhash, huser⟩ := h row hrow
    obtain ⟨hverify, hlogged⟩ := hinv.live old hold
    exact ⟨by rwa [hhash, huser], by rwa [huser]⟩
  told row hrow := by
    obtain ⟨old, hold, hhash, huser⟩ := h row hrow
    have hold' := hinv.told old hold
    unfold Told at hold' ⊢
    rwa [hhash, huser]
  text := hinv.text
  superadmin := hinv.superadmin

/-- A page shows what a session was to be told. -/
theorem Inv.forget (hinv : Inv H depth s) (hash : Str) :
    Inv H depth { s with flash := Function.update s.flash hash none } where
  justified := hinv.justified
  users := hinv.users
  live := hinv.live
  told row hrow message hmessage := by
    by_cases hsame : row.tokenHash = hash
    · simp only [hsame, Function.update_self] at hmessage
      cases hmessage
    · simp only [Function.update_of_ne hsame] at hmessage
      exact hinv.told row hrow message hmessage
  text := hinv.text
  superadmin := hinv.superadmin

/-- A session is told of an event of its user. -/
theorem Inv.tell (hinv : Inv H depth s) {session : UserSession} {message : Str}
    (hsame : ∀ row ∈ s.sessions, row.tokenHash = session.tokenHash → row.userId = session.userId)
    (hevent : ∃ e ∈ s.events, e.summary = message ∧ e.actorId = some session.userId) :
    Inv H depth (s.tell session message) := by
  unfold State.tell
  split_ifs
  · refine ⟨hinv.justified, hinv.users, hinv.live, fun row hrow m hm => ?_, hinv.text, hinv.superadmin⟩
    by_cases hhash : row.tokenHash = session.tokenHash
    · simp only [hhash, Function.update_self, Option.some.injEq] at hm
      rw [hsame row hrow hhash, ← hm]
      exact hevent
    · simp only [Function.update_of_ne hhash] at hm
      exact hinv.told row hrow m hm
  · exact hinv

/-- An event is recorded that the log permits, and with it the tables become what the log tells then. -/
theorem Inv.append (hinv : Inv H depth s) {row : Audit.Row} (hrows : s'.events.rows = s.events.rows ++ [row])
    (hpermits : Permits depth (s.ledger depth) row)
    (husers : ∀ id, ((s.ledger depth).next depth row).users id = (s'.db.users.get? id).map entry)
    (hlive : ∀ row' ∈ s'.sessions, Live H s'.db.users s'.opened ((s.ledger depth).next depth row) row')
    (htold : ∀ row' ∈ s'.sessions, Told s'.flash s.events row')
    (htext : ∀ user ∈ s'.db.users, Json.IsText user.username)
    (hsuperadmin : s'.db.users.rows ≠ [] → Users.HasSuperadmin s'.db) : Inv H depth s' := by
  have hledger : s'.ledger depth = (s.ledger depth).next depth row := by
    simp only [State.ledger, Site.ledger, hrows, replay_append, replay_cons, replay_nil]
  refine ⟨?_, ?_, ?_, ?_, htext, hsuperadmin⟩
  · rw [hrows, justified_concat]
    exact ⟨hinv.justified, hpermits⟩
  · rwa [hledger]
  · rwa [hledger]
  · intro row' hrow' message hmessage
    obtain ⟨e, he, hsummary, hactor⟩ := htold row' hrow' message hmessage
    have he' : e ∈ s'.events.rows := hrows ▸ List.mem_append_left _ he
    exact ⟨e, he', hsummary, hactor⟩

/-! ### Events -/

/-- An event is appended, or cannot be recorded. -/
theorem record_cases (s : State) (moment : Moment) (call : Audit.Call) : s.record moment call = s ∨
    ∃ second events, s.record moment call = { s with events } ∧
      events.rows = s.events.rows ++ [Audit.rowOf s.events.nextId second call] := by
  unfold State.record
  rcases Audit.record_cases moment.clock s.events call with ⟨second, -, h⟩ | ⟨-, failure, h⟩
  · rw [h]
    exact .inr ⟨second, _, rfl, Table.rows_upsert_nextId rfl⟩
  · rw [h]
    exact .inl rfl

/-- One that happens when the clock says is recorded. -/
theorem record_eq (s : State) (moment : Moment) (call : Audit.Call) (hnow : call.now = .clock) :
    ∃ second events, s.record moment call = { s with events } ∧
      events.rows = s.events.rows ++ [Audit.rowOf s.events.nextId second call] := by
  unfold State.record
  rcases Audit.record_cases moment.clock s.events call with ⟨second, -, h⟩ | ⟨hnone, -⟩
  · rw [h]
    exact ⟨second, _, rfl, Table.rows_upsert_nextId rfl⟩
  · -- The clock of a moment is in UTC, and shows an instant that datetime has.
    have htime : moment.clock.astimezone = .ok moment.time := by
      simp only [Certs.AwareDatetime.astimezone, Certs.AwareDatetime.instant, Moment.clock, Certs.Zone.utc, sub_zero,
        refuse, if_neg (not_not.2 moment.isDatetime)]
      rfl
    simp only [Audit.logged, Audit.Now.second?, hnow, Audit.Now.moment] at hnone
    rw [show (Except.ok moment.clock >>= Certs.AwareDatetime.astimezone) = .ok moment.time from htime] at hnone
    cases hnone

section event

variable {actor : Audit.Actor} {action action' : Audit.AuditAction} {summary : Str} {target n id : ℕ} {second : ℤ}
  {detail : Option (List (Str × Json))} {ip : Option Str}

@[simp] theorem isAction_event :
    IsAction (Audit.rowOf n second (event actor action summary target detail ip)) action' ↔ action = action' :=
  isAction_iff

@[simp] theorem isAbout_event :
    IsAbout (Audit.rowOf n second (event actor action summary target detail ip)) id ↔ id = target :=
  isAbout_rowOf rfl rfl

/-- Who acts is whom the tables have. -/
theorem Inv.actedBy (hinv : Inv H depth s) (huser : s.db.users.get? user.id = some user) :
    ActedBy (s.ledger depth) (Audit.rowOf n second (event (userActor user) action summary target detail ip)) user.id
      user.username user.role.value :=
  ⟨rfl, rfl, rfl, by rw [hinv.users, huser]; rfl⟩

end event

/-- Other events change nothing of what the log tells. -/
theorem next_eq_self {n : ℕ} {second : ℤ} (h : call.action ∉ tellingActions) :
    l.next depth (Audit.rowOf n second call) = l := by
  simp only [tellingActions, List.mem_cons, List.not_mem_nil, or_false, not_or] at h
  obtain ⟨h₁, h₂, h₃, h₄, h₅⟩ := h
  simp only [Ledger.next, isAction_iff, if_neg h₁, if_neg h₂, if_neg h₃, if_neg h₄, if_neg h₅]

/-- Such an event is recorded. -/
theorem Inv.note (hinv : Inv H depth s) (haction : call.action ∉ tellingActions)
    (hpermits : ∀ second, Permits depth (s.ledger depth) (Audit.rowOf s.events.nextId second call)) :
    Inv H depth (s.record moment call) := by
  rcases record_cases s moment call with h | ⟨second, events, h, hrows⟩
  · rwa [h]
  · have hnext : (s.ledger depth).next depth (Audit.rowOf s.events.nextId second call) = s.ledger depth :=
      next_eq_self haction
    rw [h]
    refine hinv.append hrows (hpermits second) ?_ ?_ hinv.told hinv.text hinv.superadmin
    · rw [hnext]
      exact hinv.users
    · rw [hnext]
      exact hinv.live

/-- A session is created beside the others, with a hash that none of them has. -/
theorem createSession_eq_ok {sessions sessions' : Table UserSession} {token csrfToken : Str} {now : ℤ}
    {row : UserSession} (h : Sessions.createSession hashToken sessions user token csrfToken now = .ok (sessions', row)) :
    row = ⟨hashToken token, user.id, csrfToken, now, now + Sessions.sessionLifetime⟩ ∧
      ∀ row' ∈ sessions', row' = row ∨ row' ∈ sessions ∧ row'.tokenHash ≠ hashToken token := by
  unfold Sessions.createSession at h
  cases hinsert : sessions.insert? ⟨hashToken token, user.id, csrfToken, now, now + Sessions.sessionLifetime⟩ with
  | none =>
    simp only [hinsert] at h
    cases h
  | some inserted =>
    simp only [hinsert, Except.ok.injEq, Prod.mk.injEq] at h
    obtain ⟨rfl, rfl⟩ := h
    obtain ⟨-, rfl⟩ := Table.insert?_eq_some.1 hinsert
    exact ⟨rfl, fun row' hrow' => Table.mem_upsert.1 hrow'⟩

/-- Who logs in has the password. -/
theorem Inv.login (hinv : Inv H depth s) {password : Str} (huser : s.db.users.get? user.id = some user)
    (hverify : H.verify user.passwordHash password = true) :
    Inv H depth (loginAndRedirect hashToken s r user password).1 := by
  unfold loginAndRedirect
  split
  · exact hinv
  · rename_i sessions row hcreate
    obtain ⟨rfl, hmem⟩ := createSession_eq_ok hcreate
    obtain ⟨second, events, h, hrows⟩ := record_eq { s with
        sessions
        flash := Function.update s.flash (hashToken r.token) none
        opened := Function.update s.opened (hashToken r.token) (some password) } r.recorded
      (event (userActor user) .loginSuccess (Str.of "login for " ++ quoted user) user.id none r.ip) rfl
    simp only [h]
    have hnext : ∀ id, (s.ledger depth).loggedIn id = true ∨ id = user.id →
        ((s.ledger depth).next depth (Audit.rowOf s.events.nextId second (event (userActor user) .loginSuccess
          (Str.of "login for " ++ quoted user) user.id none r.ip))).loggedIn id = true := by
      intro id hid
      simp only [Ledger.next, isAction_event, if_true]
      rcases hid with hid | rfl
      · rw [hid, Bool.or_true]
      · rw [decide_eq_true (by rfl), Bool.true_or]
    refine hinv.append hrows (.loginSuccess (isAction_event.2 rfl) (hinv.actedBy huser)) ?_ ?_ ?_ hinv.text
      hinv.superadmin
    · intro id
      simp only [Ledger.next, isAction_event, if_true]
      exact hinv.users id
    · intro row' hrow'
      -- The new session, or one with another hash, whose columns stay.
      rcases hmem row' hrow' with rfl | ⟨hold, hne⟩
      · exact ⟨⟨user, password, huser, Function.update_self .., hverify⟩, hnext _ (.inr rfl)⟩
      · obtain ⟨⟨owner, password', howner, hopened, hverify'⟩, hlogged⟩ := hinv.live row' hold
        have hopened' : Function.update s.opened (hashToken r.token) (some password) row'.tokenHash = some password' := by
          rwa [Function.update_of_ne hne]
        exact ⟨⟨owner, password', howner, hopened', hverify'⟩, hnext _ (.inl hlogged)⟩
    · intro row' hrow' message hmessage
      rcases hmem row' hrow' with rfl | ⟨hold, hne⟩
      · dsimp only at hmessage
        rw [Function.update_self] at hmessage
        cases hmessage
      · dsimp only at hmessage
        rw [Function.update_of_ne hne] at hmessage
        exact hinv.told row' hold message hmessage

/-! ### What a request comes to -/

/-- What a superadmin has changed is recorded, and told in their session. -/
theorem Inv.announce (hinv : Inv H depth s) {db : UserDb} {sessions : Table UserSession} {session : UserSession}
    (hnow : call.now = .clock) (hactor : call.actor.id = some session.userId)
    (hsame : ∀ row ∈ s.sessions, row.tokenHash = session.tokenHash → row.userId = session.userId)
    (hsessions : ∀ row ∈ sessions, row ∈ s.sessions)
    (hpermits : ∀ second, Permits depth (s.ledger depth) (Audit.rowOf s.events.nextId second call))
    (husers : ∀ second id, ((s.ledger depth).next depth (Audit.rowOf s.events.nextId second call)).users id =
      (db.users.get? id).map entry)
    (hlive : ∀ second, ∀ row ∈ sessions, Live H s.db.users s.opened (s.ledger depth) row →
      Live H db.users s.opened ((s.ledger depth).next depth (Audit.rowOf s.events.nextId second call)) row)
    (htext : ∀ user ∈ db.users, Json.IsText user.username) (hsuperadmin : Users.HasSuperadmin db) :
    Inv H depth (Site.announce r { s with db, sessions } session call).1 := by
  unfold Site.announce
  obtain ⟨second, events, h, hrows⟩ := record_eq { s with db, sessions } r.recorded call hnow
  simp only [h]
  have happend : Inv H depth { s with db, sessions, events } :=
    hinv.append hrows (hpermits second) (husers second)
      (fun row hrow => hlive second row hrow (hinv.live row (hsessions row hrow)))
      (fun row hrow => hinv.told row (hsessions row hrow)) htext fun _ => hsuperadmin
  have hmem : Audit.rowOf s.events.nextId second call ∈ events.rows := by
    rw [hrows]
    exact List.mem_append_right _ List.mem_cons_self
  exact happend.tell (fun row hrow => hsame row (hsessions row hrow)) ⟨_, hmem, rfl, hactor⟩

/-- A session of a user stays live if the user stays, and the log tells nothing else of them. -/
theorem Live.mono {users users' : Table User} {opened : Str → Option Str} {row : UserSession}
    (h : Live H users opened l row)
    (huser : ∀ user, users.get? row.userId = some user → ∃ user', users'.get? row.userId = some user' ∧
      user'.passwordHash = user.passwordHash)
    (hlogged : l'.loggedIn row.userId = l.loggedIn row.userId) : Live H users' opened l' row := by
  obtain ⟨⟨user, password, hget, hopened, hverify⟩, hin⟩ := h
  obtain ⟨user', hget', hhash⟩ := huser user hget
  exact ⟨⟨user', password, hget', hopened, by rwa [hhash]⟩, by rwa [hlogged]⟩

/-- The members that the events have. -/
theorem written_texts {members : List (Str × Json)} (hdepth : 0 < depth) (hnames : (members.map Prod.fst).Nodup)
    (htexts : ∀ m ∈ members, Json.IsText m.1 ∧ ∃ value, m.2 = .str value ∧ Json.IsText value) :
    Json.Written depth (.obj members) := by
  unfold Json.Written
  refine ⟨hdepth, hnames, Json.writtenMembers_iff.2 fun m hm => ?_⟩
  obtain ⟨hname, value, hvalue, htext⟩ := htexts m hm
  refine ⟨hname, ?_⟩
  rw [hvalue]
  unfold Json.Written
  exact htext

theorem isText_value (role : Role) : Json.IsText role.value := by
  cases role <;> exact .of_lt (by decide)

section next

variable {actor : Audit.Actor} {summary : Str} {target n : ℕ} {second : ℤ} {username : Str} {old role : Role}
  {detail : Option (List (Str × Json))} {ip : Option Str}

/-- What a row about a new user tells. -/
theorem members_userCreated (hdepth : 0 < depth) (htext : Json.IsText username) :
    member depth (Audit.rowOf n second (event actor .userCreated summary target
        (some [(Str.of "username", .str username), (Str.of "role", .str role.value)]) ip)) "username" = some username ∧
      member depth (Audit.rowOf n second (event actor .userCreated summary target
        (some [(Str.of "username", .str username), (Str.of "role", .str role.value)]) ip)) "role" = some role.value := by
  have hwritten : Json.Written depth (.obj [(Str.of "username", .str username), (Str.of "role", .str role.value)]) := by
    have hnames : [Str.of "username", Str.of "role"].Nodup := by decide
    refine written_texts hdepth hnames fun m hm => ?_
    simp only [List.mem_cons, List.not_mem_nil, or_false] at hm
    rcases hm with rfl | rfl
    · exact ⟨.of_lt (s := Str.of "username") (by decide), _, rfl, htext⟩
    · exact ⟨.of_lt (s := Str.of "role") (by decide), _, rfl, isText_value role⟩
  exact ⟨member_rowOf hwritten rfl (by simp), member_rowOf hwritten rfl (by simp)⟩

theorem next_userCreated (hdepth : 0 < depth) (htext : Json.IsText username) :
    l.next depth (Audit.rowOf n second (event actor .userCreated summary target
        (some [(Str.of "username", .str username), (Str.of "role", .str role.value)]) ip)) =
      ⟨fun id => if id = target then some (username, role.value) else l.users id,
        fun id => !decide (id = target) && l.loggedIn id⟩ := by
  simp only [Ledger.next, isAction_event, reduceCtorEq, if_false, if_true, isAbout_event,
    (members_userCreated hdepth htext).1, (members_userCreated hdepth htext).2, Option.bind_some, Option.map_some]

theorem next_userRoleChanged (hdepth : 0 < depth) (htext : Json.IsText username) :
    l.next depth (Audit.rowOf n second (event actor .userRoleChanged summary target
        (some [(Str.of "username", .str username), (Str.of "old_role", .str old.value),
          (Str.of "new_role", .str role.value)]) ip)) =
      ⟨fun id => if id = target then (l.users id).bind fun user => some (user.1, role.value) else l.users id,
        l.loggedIn⟩ := by
  have hwritten : Json.Written depth (.obj [(Str.of "username", .str username), (Str.of "old_role", .str old.value),
      (Str.of "new_role", .str role.value)]) := by
    have hnames : [Str.of "username", Str.of "old_role", Str.of "new_role"].Nodup := by decide
    refine written_texts hdepth hnames fun m hm => ?_
    simp only [List.mem_cons, List.not_mem_nil, or_false] at hm
    rcases hm with rfl | rfl | rfl
    · exact ⟨.of_lt (s := Str.of "username") (by decide), _, rfl, htext⟩
    · exact ⟨.of_lt (s := Str.of "old_role") (by decide), _, rfl, isText_value old⟩
    · exact ⟨.of_lt (s := Str.of "new_role") (by decide), _, rfl, isText_value role⟩
  have hrole : member depth (Audit.rowOf n second (event actor .userRoleChanged summary target
      (some [(Str.of "username", .str username), (Str.of "old_role", .str old.value),
        (Str.of "new_role", .str role.value)]) ip)) "new_role" = some role.value :=
    member_rowOf hwritten rfl (by simp)
  simp only [Ledger.next, isAction_event, reduceCtorEq, if_false, if_true, isAbout_event, hrole, Option.map_some]

theorem next_userPasswordReset :
    l.next depth (Audit.rowOf n second (event actor .userPasswordReset summary target detail ip)) =
      ⟨l.users, fun id => !decide (id = target) && l.loggedIn id⟩ := by
  simp only [Ledger.next, isAction_event, reduceCtorEq, if_false, if_true, isAbout_event]

theorem next_userDeleted :
    l.next depth (Audit.rowOf n second (event actor .userDeleted summary target detail ip)) =
      ⟨fun id => if id = target then none else l.users id, fun id => !decide (id = target) && l.loggedIn id⟩ := by
  simp only [Ledger.next, isAction_event, reduceCtorEq, if_false, if_true, isAbout_event]

end next

/-! ### Changes -/

/-- A superadmin there is acts, in a session, and is logged in. -/
structure Acting (depth : ℕ) (s : State) (actor : User) (session : UserSession) : Prop where
  stored : s.db.users.get? actor.id = some actor
  role : actor.role = .superadmin
  loggedIn : (s.ledger depth).loggedIn actor.id = true
  id : (userActor actor).id = some session.userId
  same : ∀ row ∈ s.sessions, row.tokenHash = session.tokenHash → row.userId = session.userId

/-- Who is let in acts. -/
theorem Entered.acting {sessions : Table UserSession} {session : UserSession}
    (h : Entered hashToken s r sessions user session) (hinv : Inv H depth s) (hrole : user.role = .superadmin) :
    Acting depth { s with sessions } user session where
  stored := by
    rw [h.id_eq]
    exact h.user
  role := hrole
  loggedIn := by
    rw [h.id_eq]
    exact (hinv.live session h.mem).loggedIn
  id := by rw [← h.id_eq]; rfl
  same row hrow hhash := by
    obtain ⟨old, hold, hhash', huser⟩ := h.kept row hrow
    rw [huser, Table.eq_of_key hold h.mem (hhash'.symm.trans hhash)]

/-- A form for superadmins keeps what the log tells if what is done for one does. -/
theorem Inv.change (hinv : Inv H depth s) {body : State → User → UserSession → State × Response}
    (hbody : ∀ sessions actor session, Inv H depth { s with sessions } →
      Acting depth { s with sessions } actor session → Inv H depth (body { s with sessions } actor session).1) :
    Inv H depth (Site.change hashToken s r body).1 := by
  refine change_rule (P := fun out => Inv H depth out.1) (fun _ => hinv)
    (fun sessions _ _ _ hentered => hinv.sessions hentered.kept) ?_
  intro sessions actor session hentered hrole _
  exact hbody sessions actor session (hinv.sessions hentered.kept) (hentered.acting hinv hrole)

section changes

variable {actor target old : User} {session : UserSession} {db : UserDb} {summary : Str} {ip : Option Str} {n : ℕ}
  {second : ℤ} {action : Audit.AuditAction} {detail : Option (List (Str × Json))}

theorem Acting.hasSuperadmin (h : Acting depth s actor session) : Users.HasSuperadmin s.db :=
  ⟨actor, (Table.get?_eq_some.1 h.stored).1, h.role⟩

theorem Acting.actedBy (h : Acting depth s actor session) (hinv : Inv H depth s) :
    ActedBy (s.ledger depth) (Audit.rowOf n second (event (userActor actor) action summary target.id detail ip))
      actor.id actor.username Role.superadmin.value := by
  rw [← h.role]
  exact hinv.actedBy h.stored

/-- A change of somebody is permitted. -/
theorem Acting.permits (h : Acting depth s actor session) (hinv : Inv H depth s)
    (haction : action = .userRoleChanged ∨ action = .userPasswordReset ∨ action = .userDeleted)
    (htarget : s.db.users.get? target.id = some old) :
    Permits depth (s.ledger depth) (Audit.rowOf n second (event (userActor actor) action summary target.id detail ip)) :=
  .changed (by simpa only [isAction_event] using haction) (h.actedBy hinv) h.loggedIn (isAbout_event.2 rfl)
    (by rw [hinv.users, htarget, Option.map_some])

/-- A user is created. -/
theorem Acting.created (h : Acting depth s actor session) (hinv : Inv H depth s) (hdepth : 0 < depth)
    (hid : target.id = s.db.users.nextId) (hdb : db.users = s.db.users.upsert target)
    (htext : Json.IsText target.username) :
    Inv H depth (Site.announce r { s with db } session (event (userActor actor) .userCreated summary target.id
      (some [(Str.of "username", .str target.username), (Str.of "role", .str target.role.value)]) ip)).1 := by
  have hnew : s.db.users.get? target.id = none := Table.get?_eq_none.2 fun u hu => hid ▸ (Table.lt_nextId hu).ne
  have hget : ∀ id, db.users.get? id = if id = target.id then some target else s.db.users.get? id := by
    intro id
    rw [hdb, Table.get?_upsert, key_user]
  refine hinv.announce rfl h.id h.same (fun _ hrow => hrow) (fun second => ?_) (fun second id => ?_)
    (fun second row hrow hlive => ?_) ?_ ?_
  · exact .created (isAction_event.2 rfl) (h.actedBy hinv) h.loggedIn (isAbout_event.2 rfl)
      (by rw [hinv.users, hnew, Option.map_none])
  · rw [next_userCreated hdepth htext, hget]
    dsimp only
    rw [hinv.users]
    split_ifs <;> rfl
  · -- Nobody has a session yet who has not been there.
    have hne : row.userId ≠ target.id := by
      obtain ⟨⟨user, -, hget, -⟩, -⟩ := hlive
      intro heq
      rw [heq, hnew] at hget
      cases hget
    refine hlive.mono (fun user huser => ⟨user, ?_, rfl⟩) ?_
    · rw [hget, if_neg hne]
      exact huser
    · rw [next_userCreated hdepth htext]
      simp only [decide_eq_false hne, Bool.not_false, Bool.true_and]
  · intro user huser
    rw [← Table.mem_rows, hdb, Table.mem_rows] at huser
    rcases Table.mem_upsert.1 huser with rfl | ⟨hold, -⟩
    · exact htext
    · exact hinv.text user hold
  · have hmem := (Table.get?_eq_some.1 h.stored).1
    exact ⟨actor, hdb ▸ Table.mem_upsert.2 (.inr ⟨hmem, fun heq => (Table.lt_nextId hmem).ne (heq.trans hid)⟩), h.role⟩

/-- The rows of sessions that another user has. -/
theorem Live.of_ne {users : Table User} {opened : Str → Option Str} {row : UserSession} {id : ℕ}
    (h : Live H s.db.users opened l row) (hne : row.userId ≠ id)
    (hget : ∀ m, m ≠ id → users.get? m = s.db.users.get? m)
    (hlogged : ∀ m, l'.loggedIn m = (!decide (m = id) && l.loggedIn m)) : Live H users opened l' row := by
  refine h.mono (fun user huser => ⟨user, by rwa [hget _ hne], rfl⟩) ?_
  rw [hlogged, decide_eq_false hne, Bool.not_false, Bool.true_and]

/-- The role of a user is changed. -/
theorem Acting.roleChanged (h : Acting depth s actor session) (hinv : Inv H depth s) (hdepth : 0 < depth) {role : Role}
    (hold : s.db.users.get? old.id = some old) (htarget : target = { old with role })
    (hget : ∀ id, db.users.get? id = if id = old.id then some target else s.db.users.get? id)
    (hsuperadmin : Users.HasSuperadmin db) :
    Inv H depth (Site.announce r { s with db } session (event (userActor actor) .userRoleChanged summary target.id
      (some [(Str.of "username", .str target.username), (Str.of "old_role", .str old.role.value),
        (Str.of "new_role", .str target.role.value)]) ip)).1 := by
  subst htarget
  have htext : Json.IsText old.username := hinv.text old (Table.get?_eq_some.1 hold).1
  refine hinv.announce rfl h.id h.same (fun _ hrow => hrow) (fun second => ?_) (fun second id => ?_)
    (fun second row hrow hlive => ?_) ?_ hsuperadmin
  · exact h.permits hinv (.inl rfl) hold
  · rw [next_userRoleChanged hdepth htext, hget]
    dsimp only
    rw [hinv.users]
    split_ifs with hid
    · rw [hid, hold]
      rfl
    · rfl
  · refine hlive.mono (fun user huser => ?_) (by rw [next_userRoleChanged hdepth htext])
    rw [hget]
    split_ifs with hid
    · rw [hid, hold] at huser
      exact ⟨_, rfl, by rw [← Option.some.inj huser]⟩
    · exact ⟨user, huser, rfl⟩
  · intro user huser
    have hself := Table.get?_key huser
    rw [key_user, hget] at hself
    split_ifs at hself
    · rw [← Option.some.inj hself]
      exact htext
    · exact hinv.text user (Table.get?_eq_some.1 hself).1

/-- The password of a user is reset, and their sessions go. -/
theorem Acting.passwordReset (h : Acting depth s actor session) (hinv : Inv H depth s) {hash : Str}
    (hold : s.db.users.get? old.id = some old) (htarget : target = { old with passwordHash := hash })
    (hget : ∀ id, db.users.get? id = if id = old.id then some target else s.db.users.get? id) :
    Inv H depth (Site.announce r { s with db, sessions := Sessions.deleteSessionsForUser s.sessions old.id } session
      (event (userActor actor) .userPasswordReset summary target.id detail ip)).1 := by
  subst htarget
  have hstays : ∀ user, s.db.users.get? user.id = some user → ∃ user' ∈ db.users, user'.username = user.username ∧
      user'.role = user.role := by
    intro user huser
    have hmem : ∃ user', db.users.get? user.id = some user' ∧ user'.username = user.username ∧
        user'.role = user.role := by
      rw [hget]
      split_ifs with hid
      · rw [hid, hold] at huser
        exact ⟨_, rfl, by rw [← Option.some.inj huser], by rw [← Option.some.inj huser]⟩
      · exact ⟨user, huser, rfl, rfl⟩
    obtain ⟨user', hget', hsame⟩ := hmem
    exact ⟨user', (Table.get?_eq_some.1 hget').1, hsame⟩
  refine hinv.announce rfl h.id h.same (fun row hrow => (Table.mem_delete.1 hrow).1) (fun second => ?_)
    (fun second id => ?_) (fun second row hrow hlive => ?_) ?_ ?_
  · exact h.permits hinv (.inr (.inl rfl)) hold
  · rw [next_userPasswordReset, hget]
    dsimp only
    rw [hinv.users]
    split_ifs with hid
    · rw [hid, hold]
      rfl
    · rfl
  · -- The sessions that are left are those of other users, so the log tells as much of them as before.
    have hne : row.userId ≠ old.id := beq_eq_false_iff_ne.1 (Table.mem_delete.1 hrow).2
    refine hlive.of_ne hne (fun m hm => by rw [hget, if_neg hm]) fun m => ?_
    rw [next_userPasswordReset]
  · intro user huser
    have hself := Table.get?_key huser
    rw [key_user, hget] at hself
    split_ifs at hself
    · rw [← Option.some.inj hself]
      exact hinv.text old (Table.get?_eq_some.1 hold).1
    · exact hinv.text user (Table.get?_eq_some.1 hself).1
  · -- Who acts may be who is changed.
    obtain ⟨user', hmem, -, hrole⟩ := hstays actor h.stored
    exact ⟨user', hmem, hrole.trans h.role⟩

/-- A user is deleted, and their sessions go. -/
theorem Acting.deleted (h : Acting depth s actor session) (hinv : Inv H depth s)
    (htarget : s.db.users.get? target.id = some target)
    (hget : ∀ id, db.users.get? id = if id = target.id then none else s.db.users.get? id)
    (hsuperadmin : Users.HasSuperadmin db) :
    Inv H depth (Site.announce r { s with db, sessions := Sessions.deleteSessionsForUser s.sessions target.id } session
      (event (userActor actor) .userDeleted summary target.id detail ip)).1 := by
  refine hinv.announce rfl h.id h.same (fun row hrow => (Table.mem_delete.1 hrow).1) (fun second => ?_)
    (fun second id => ?_) (fun second row hrow hlive => ?_) ?_ hsuperadmin
  · exact h.permits hinv (.inr (.inr rfl)) htarget
  · rw [next_userDeleted, hget]
    dsimp only
    rw [hinv.users]
    split_ifs <;> rfl
  · have hne : row.userId ≠ target.id := beq_eq_false_iff_ne.1 (Table.mem_delete.1 hrow).2
    refine hlive.of_ne hne (fun m hm => by rw [hget, if_neg hm]) fun m => ?_
    rw [next_userDeleted]
  · intro user huser
    have hself := Table.get?_key huser
    rw [key_user, hget] at hself
    split_ifs at hself
    exact hinv.text user (Table.get?_eq_some.1 hself).1

end changes

/-! ### The requests -/

/-- The names in forms are texts. -/
def Form.IsText : Form → Prop
  | .setup username _ => Json.IsText username
  | .createUser username _ _ => Json.IsText username
  | _ => True

/-- The first user is created. -/
theorem Inv.firstRun (hinv : Inv H depth s) (hdepth : 0 < depth) {db : UserDb} {summary : Str} {ip : Option Str}
    (hnobody : s.db.users.rows = []) (hdb : db.users = s.db.users.upsert user) (hrole : user.role = .superadmin)
    (htext : Json.IsText user.username) :
    Inv H depth (State.record { s with db } moment (event Audit.systemActor .userCreated summary user.id
      (some [(Str.of "username", .str user.username), (Str.of "role", .str (Role.value .superadmin))]) ip)) := by
  have hnone : ∀ id, s.db.users.get? id = none := by
    intro id
    rw [Table.get?, hnobody]
    rfl
  obtain ⟨second, events, h, hrows⟩ := record_eq { s with db } moment
    (event Audit.systemActor .userCreated summary user.id
      (some [(Str.of "username", .str user.username), (Str.of "role", .str (Role.value .superadmin))]) ip) rfl
  rw [h]
  have hmem : user ∈ db.users := by
    rw [hdb]
    exact Table.mem_upsert.2 (.inl rfl)
  refine hinv.append hrows ?_ (fun id => ?_) (fun row hrow => ?_) hinv.told ?_ fun _ => ⟨user, hmem, hrole⟩
  · refine .firstRun (isAction_event.2 rfl) rfl (fun id => ?_) (members_userCreated hdepth htext).2
    rw [hinv.users, hnone, Option.map_none]
  · rw [next_userCreated hdepth htext]
    dsimp only
    rw [hdb, Table.get?_upsert, key_user, hinv.users, hnone]
    split_ifs
    · rw [← hrole]
      rfl
    · rfl
  · -- There is no session before there is a user.
    obtain ⟨⟨owner, -, howner, -⟩, -⟩ := hinv.live row hrow
    rw [hnone] at howner
    cases howner
  · intro u hu
    dsimp only at hu
    rw [hdb] at hu
    rcases Table.mem_upsert.1 hu with rfl | ⟨hold, -⟩
    · exact htext
    · exact hinv.text u hold

theorem Inv.setupSubmit (hinv : Inv H depth s) (hdepth : 0 < depth) {username password : Str}
    (htext : Json.IsText username) : Inv H depth (Site.setupSubmit H hashToken s r username password).1 := by
  unfold Site.setupSubmit
  split_ifs with hnobody
  · exact hinv
  · split
    · split <;> exact hinv
    · rename_i db user hcreate
      obtain ⟨huser, hdb⟩ := createUser_eq_ok hcreate
      have hfirst : Inv H depth (State.record { s with db } r.recorded (event Audit.systemActor .userCreated
          (Str.of "first-run setup created superadmin " ++ quoted user) user.id
          (some [(Str.of "username", .str user.username), (Str.of "role", .str (Role.value .superadmin))]) r.ip)) :=
        hinv.firstRun hdepth (not_not.1 hnobody) (by rw [hdb, huser]) (by rw [huser]) (by rw [huser]; exact htext)
      refine hfirst.login ?_ (by rw [huser]; exact H.verify_hash _ _)
      rw [State.record_db, hdb, Table.get?_upsert, key_user, if_pos rfl]

theorem mem_of_mem_replaceSession {row : UserSession} (h : row ∈ replaceSession hashToken s r user) :
    row ∈ s.sessions := by
  unfold replaceSession at h
  split at h
  · exact h
  · split at h
    · exact h
    · split_ifs at h
      · exact (Table.mem_delete.1 h).1
      · exact h

theorem Inv.loginSubmit (hinv : Inv H depth s) {username password : Str} :
    Inv H depth (Site.loginSubmit H hashToken s r username password).1 := by
  unfold Site.loginSubmit
  split_ifs
  · exact hinv
  · split
    · have haction : Audit.AuditAction.loginFailed ∉ tellingActions := by decide
      exact hinv.note haction fun second => .loginFailed (isAction_iff.2 rfl) rfl
    · rename_i user hverified
      obtain ⟨hname, hverify⟩ := Option.filter_eq_some_iff.1 hverified
      have hmem := (Table.mem_select.1 (List.mem_of_mem_head? hname)).1
      have hsessions : Inv H depth { s with
          sessions := Sessions.purgeExpired (replaceSession hashToken s r user) r.purged } :=
        hinv.sessions fun row hrow => ⟨row, mem_of_mem_replaceSession (Table.mem_delete.1 hrow).1, rfl, rfl⟩
      exact hsessions.login (Table.get?_key hmem) hverify

theorem Inv.logout (hinv : Inv H depth s) : Inv H depth (Site.logout hashToken s r).1 := by
  refine withUser_rule (P := fun out => Inv H depth out.1) (fun _ => hinv) fun sessions user session hentered => ?_
  have hinv' := hinv.sessions hentered.kept
  refine verifyCsrf_rule (P := fun out => Inv H depth out.1) (fun _ => hinv') fun _ => ?_
  have haction : Audit.AuditAction.logout ∉ tellingActions := by decide
  refine Inv.note (hinv'.sessions fun row hrow => ⟨row, ?_, rfl, rfl⟩) haction fun second =>
    .logout (isAction_event.2 rfl) (hinv'.actedBy ?_) ?_
  · split at hrow
    · exact hrow
    · exact (Table.mem_delete.1 hrow).1
  · rw [hentered.id_eq]
    exact hentered.user
  · rw [hentered.id_eq]
    exact (hinv.live session hentered.mem).loggedIn

theorem Inv.createUserRoute (hinv : Inv H depth s) (hdepth : 0 < depth) {username password role : Str}
    (htext : Json.IsText username) :
    Inv H depth (Site.createUserRoute H hashToken s r username password role).1 := by
  refine hinv.change fun sessions actor session hinv' hacting => ?_
  dsimp only
  split
  · exact hinv'
  · split
    · split
      · exact hinv'.forget session.tokenHash
      · exact hinv'.forget session.tokenHash
      · exact hinv'
    · rename_i db created hcreate
      obtain ⟨hcreated, hdb⟩ := createUser_eq_ok hcreate
      exact hacting.created hinv' hdepth (by rw [hcreated]) hdb (by rw [hcreated]; exact htext)

theorem hasSuperadmin_updateRole {db db' : UserDb} {id : ℕ} {role : Role} (h : Users.HasSuperadmin db)
    (hrun : Users.updateRole db id role = .ok (db', user)) : Users.HasSuperadmin db' := by
  obtain ⟨old, hold, hrun⟩ := bind_eq_ok.1 hrun
  obtain ⟨_, hrefuse, hrun⟩ := bind_eq_ok.1 hrun
  obtain ⟨w, hset, hrun⟩ := bind_eq_ok.1 hrun
  obtain ⟨x, -, hrun⟩ := bind_eq_ok.1 hrun
  obtain ⟨rfl, -⟩ := Prod.mk.inj (pure_eq_ok.1 hrun)
  unfold Users.changeRole at hset
  split_ifs at hset
  · exact Except.ok.inj hset ▸ h
  · refine h.setRole hset fun hrole hlast => refuse_eq_ok.1 hrefuse ?_
    rw [getUser_eq_ok] at hold
    obtain ⟨⟨u, hu, husuper⟩, hcount⟩ := hlast
    rw [← key_user, (Table.get?_eq_some.1 hold).2, hold] at hu
    exact ⟨Option.some.inj hu ▸ husuper, hrole, hcount⟩

theorem hasSuperadmin_deleteUser {db db' : UserDb} {id : ℕ} (h : Users.HasSuperadmin db)
    (hrun : Users.deleteUser db id = .ok db') : Users.HasSuperadmin db' := by
  obtain rfl := Users.deleteUser_eq_ok hrun
  obtain ⟨old, hold, hrun⟩ := bind_eq_ok.1 hrun
  obtain ⟨_, hrefuse, -⟩ := bind_eq_ok.1 hrun
  rw [getUser_eq_ok] at hold
  obtain rfl : old.id = id := (Table.get?_eq_some.1 hold).2
  refine h.removeUser fun hlast => refuse_eq_ok.1 hrefuse ?_
  obtain ⟨⟨u, hu, husuper⟩, hcount⟩ := hlast
  rw [hold] at hu
  exact ⟨Option.some.inj hu ▸ husuper, hcount⟩

theorem Inv.updateRoleRoute (hinv : Inv H depth s) (hdepth : 0 < depth) {userId : ℕ} {role : Str} :
    Inv H depth (Site.updateRoleRoute hashToken s r userId role).1 := by
  refine hinv.change fun sessions actor session hinv' hacting => ?_
  dsimp only
  split
  · exact hinv'
  · rename_i old hold
    split
    · exact hinv'
    · rename_i role' hparsed
      split
      · split
        · exact hinv'
        · exact hinv'.forget session.tokenHash
        · exact hinv'
      · rename_i db changed hchange
        have hsuperadmin := hasSuperadmin_updateRole hacting.hasSuperadmin hchange
        obtain ⟨old', hold', hchanged, hget⟩ := updateRole_eq_ok hchange
        rw [getUser_eq_ok] at hold
        obtain rfl : old = old' := Option.some.inj (hold.symm.trans hold')
        obtain rfl : old.id = userId := (Table.get?_eq_some.1 hold).2
        split_ifs with hsame
        -- The role that the user has already: nothing is written.
        · rw [hchanged] at hsame
          rw [hget.1 hsame.symm]
          exact hinv'
        · exact hacting.roleChanged hinv' hdepth hold hchanged hget.2 hsuperadmin

theorem Inv.resetPasswordRoute (hinv : Inv H depth s) {userId : ℕ} {password : Str} :
    Inv H depth (Site.resetPasswordRoute H hashToken s r userId password).1 := by
  refine hinv.change fun sessions actor session hinv' hacting => ?_
  dsimp only
  split
  · split
    · exact hinv'
    · exact hinv'.forget session.tokenHash
    · exact hinv'
  · rename_i db target hreset
    obtain ⟨old, hold, htarget, hget⟩ := resetPassword_eq_ok hreset
    obtain rfl : old.id = userId := (Table.get?_eq_some.1 hold).2
    exact hacting.passwordReset hinv' hold htarget hget

theorem Inv.deleteUserRoute (hinv : Inv H depth s) {userId : ℕ} :
    Inv H depth (Site.deleteUserRoute hashToken s r userId).1 := by
  refine hinv.change fun sessions actor session hinv' hacting => ?_
  dsimp only
  split
  · exact hinv'
  · rename_i target htarget
    split
    · split
      · exact hinv'
      · exact hinv'.forget session.tokenHash
      · exact hinv'
    · rename_i db hdelete
      rw [getUser_eq_ok] at htarget
      obtain rfl : target.id = userId := (Table.get?_eq_some.1 htarget).2
      have hsuperadmin := hasSuperadmin_deleteUser hacting.hasSuperadmin hdelete
      obtain rfl := Users.deleteUser_eq_ok hdelete
      exact hacting.deleted hinv' htarget get?_removeUser hsuperadmin

/-- One request keeps what the log tells. -/
theorem inv_handle (hinv : Inv H depth s) (hdepth : 0 < depth) (htext : r.form.IsText) :
    Inv H depth (handle H hashToken s r).1 := by
  unfold handle
  split <;> rename_i hform
  · exact withUser_rule (P := fun out => Inv H depth out.1) (fun _ => hinv) fun sessions _ session hentered =>
      (hinv.sessions hentered.kept).forget session.tokenHash
  · exact hinv.setupSubmit hdepth (by rw [hform] at htext; exact htext)
  · exact hinv.loginSubmit
  · exact hinv.logout
  · exact hinv.createUserRoute hdepth (by rw [hform] at htext; exact htext)
  · exact hinv.updateRoleRoute hdepth
  · exact hinv.resetPasswordRoute
  · exact hinv.deleteUserRoute

/-! ### Runs -/

/-- The names in the forms that are sent are texts. -/
def Texts (_ : State) : Act → Prop
  | .request r => r.form.IsText
  | .other _ _ _ _ => True

theorem inv_of_reach {ca : Db} (hdepth : 0 < depth) (h : (siteMachine H hashToken).Reach Texts (.start ca) s) :
    Inv H depth s := by
  refine h.invariant (inv_start ca) fun s a s' hinv htext hstep => ?_
  cases a with
  | request r =>
    obtain rfl := Option.some.inj hstep
    exact inv_handle hinv hdepth htext
  | other ca tokens moment call =>
    simp only [siteMachine] at hstep
    split_ifs at hstep with haction
    obtain rfl := Option.some.inj hstep
    -- The tables that are written here say nothing of the users.
    have hinv' : Inv H depth { s with db := { s.db with ca, tokens } } :=
      ⟨hinv.justified, hinv.users, hinv.live, hinv.told, hinv.text, hinv.superadmin⟩
    have hsite : ∀ action ∈ siteActions, call.action ≠ action := fun action hmem heq => haction (heq ▸ hmem)
    have htelling : ∀ action ∈ tellingActions, action ∈ siteActions := by decide
    exact hinv'.note (fun hmem => haction (htelling _ hmem)) fun second =>
      .other fun action hmem h => hsite action hmem (isAction_iff.1 h)

/-- **Who has changed a user**: wherever in the log a role, a password or the end of a user stands, by the rows in
front of it the one who acted was a superadmin then, who may be logged in, and the user was there. -/
theorem changed_by_superadmin {ca : Db} (hdepth : 0 < depth)
    (h : (siteMachine H hashToken).Reach Texts (.start ca) s) {front rest : List Audit.Row} {row : Audit.Row}
    (hrows : s.events.rows = front ++ row :: rest)
    (haction : IsAction row .userRoleChanged ∨ IsAction row .userPasswordReset ∨ IsAction row .userDeleted) :
    ∃ id username target user, ActedBy (ledger depth front) row id username Role.superadmin.value ∧
      (ledger depth front).loggedIn id = true ∧ IsAbout row target ∧ (ledger depth front).users target = some user := by
  have hpermits : Permits depth (ledger depth front) row :=
    permits_of_justified (hrows ▸ (inv_of_reach hdepth h).justified)
  -- A row is of one kind only, so the other reasons are none.
  have hne : ∀ action, IsAction row action →
      action = .userRoleChanged ∨ action = .userPasswordReset ∨ action = .userDeleted := by
    intro action hrow
    rcases haction with h | h | h
    · exact .inl (value_injective (hrow.symm.trans h))
    · exact .inr (.inl (value_injective (hrow.symm.trans h)))
    · exact .inr (.inr (value_injective (hrow.symm.trans h)))
  cases hpermits with
  | loginFailed hrow => simpa using hne _ hrow
  | loginSuccess hrow => simpa using hne _ hrow
  | logout hrow => simpa using hne _ hrow
  | firstRun hrow => simpa using hne _ hrow
  | created hrow => simpa using hne _ hrow
  | changed _ hactor hlive habout hthere => exact ⟨_, _, _, _, hactor, hlive, habout, hthere⟩
  | other hnone =>
    rcases haction with h | h | h
    · exact absurd h (hnone _ (by decide))
    · exact absurd h (hnone _ (by decide))
    · exact absurd h (hnone _ (by decide))

end inv

/-! ### A day -/

/-- Requests whose names are texts, one after another. -/
theorem along_requests {H : Hasher} {hashToken : Str → Str} {s : State} {requests : List Request}
    (h : ∀ r ∈ requests, r.form.IsText) : (siteMachine H hashToken).Along Texts s (requests.map .request) := by
  induction requests generalizing s with
  | nil => trivial
  | cons r requests ih => exact ⟨h r List.mem_cons_self, ih fun r' hr' => h r' (List.mem_cons_of_mem _ hr')⟩

/-- A hasher that hides nothing. -/
def plainHasher : Hasher where
  hash salt password := salt ++ password
  verify hash password := password.isSuffixOf hash
  verify_hash salt password := List.isSuffixOf_iff_suffix.2 (List.suffix_append salt password)

/-- A hash from which the token can be told. -/
def markToken (token : Str) : Str := Str.of "hash of " ++ token

/-- A request at a moment; the token of the forms is that of the session, read backwards. -/
def requestAt (moment : Moment) (form : Form) (cookie : Option Str) (token : Str) : Request where
  form := form
  cookie := cookie
  csrfToken := cookie.map List.reverse
  ip := none
  salt := Str.of "salt"
  token := token
  formToken := token.reverse
  looked := moment.time
  touched := moment.time
  purged := moment.time
  created := moment.time
  recorded := moment

/-- The setup, a new viewer, who logs in, and whose password is reset. -/
def firstDay : List Request :=
  [requestAt ⟨Instant.ofSeconds 10, by decide⟩ (.setup (Str.of "root") (Str.of "correct horse")) none (Str.of "ab"),
    requestAt ⟨Instant.ofSeconds 20, by decide⟩ (.createUser (Str.of "eve") (Str.of "battery staple") (Str.of "viewer"))
      (some (Str.of "ab")) [],
    requestAt ⟨Instant.ofSeconds 30, by decide⟩ (.login (Str.of "eve") (Str.of "battery staple")) none (Str.of "cd"),
    requestAt ⟨Instant.ofSeconds 40, by decide⟩ (.resetPassword 2 (Str.of "another password")) (some (Str.of "ab")) []]

/-- After some requests of that day. -/
def firstDayAt (n : ℕ) : State :=
  (siteMachine plainHasher markToken).final (.start .empty) ((firstDay.take n).map .request)

theorem reach_firstDayAt (n : ℕ) :
    (siteMachine plainHasher markToken).Reach Texts (.start .empty) (firstDayAt n) := by
  refine Machine.reach_final _ _ (along_requests fun r hr => ?_)
  have hr' : r ∈ firstDay := List.mem_of_mem_take hr
  simp only [firstDay, List.mem_cons, List.not_mem_nil, or_false] at hr'
  rcases hr' with rfl | rfl | rfl | rfl
  · exact .of_lt (s := Str.of "root") (by decide)
  · exact .of_lt (s := Str.of "eve") (by decide)
  · trivial
  · trivial

/-! ### What the log tells -/

/-- **The log explains the users.**  In every state that is reached, each row that is about users was permitted by
the rows in front of it, the log comes to the users there are, and whoever has a session has logged in since they
were made, or since their password was reset. -/
theorem log_justified {H : Hasher} {hashToken : Str → Str} {depth : ℕ} {ca : Db} {s : State} (hdepth : 0 < depth)
    (h : (siteMachine H hashToken).Reach Texts (.start ca) s) :
    Justified (Ledger.next depth) (Permits depth) .empty s.events.rows ∧
      (∀ id, (ledger depth s.events.rows).users id = (s.db.users.get? id).map entry) ∧
      ∀ row ∈ s.sessions, (ledger depth s.events.rows).loggedIn row.userId = true := by
  have hinv := inv_of_reach hdepth h
  exact ⟨hinv.justified, hinv.users, fun row hrow => (hinv.live row hrow).loggedIn⟩

theorem log_justified_firstDay :
    (firstDayAt 3).events.rows.length = 4 ∧
      Justified (Ledger.next 1) (Permits 1) .empty (firstDayAt 3).events.rows ∧
      (ledger 1 (firstDayAt 3).events.rows).users 2 = some (Str.of "eve", Str.of "viewer") := by
  obtain ⟨hjustified, husers, -⟩ := log_justified one_pos (reach_firstDayAt 3)
  refine ⟨by decide +kernel, hjustified, ?_⟩
  rw [husers]
  decide +kernel

/-- **The sessions.**  Each session is that of a user there is, opened with a password that is still theirs, and what
its next page will tell is the summary of something that this user has done, as the log has it. -/
theorem session_opened {H : Hasher} {hashToken : Str → Str} {ca : Db} {s : State}
    (h : (siteMachine H hashToken).Reach Texts (.start ca) s) : ∀ row ∈ s.sessions,
      (∃ user password, s.db.users.get? row.userId = some user ∧ s.opened row.tokenHash = some password ∧
        H.verify user.passwordHash password = true) ∧
      ∀ message, s.flash row.tokenHash = some message →
        ∃ e ∈ s.events, e.summary = message ∧ e.actorId = some row.userId := by
  have hinv : Inv H 1 s := inv_of_reach one_pos h
  exact fun row hrow => ⟨(hinv.live row hrow).user, hinv.told row hrow⟩

theorem session_opened_firstDay :
    (firstDayAt 4).sessions.rows.map UserSession.tokenHash = [markToken (Str.of "ab")] ∧
      ∃ e ∈ (firstDayAt 4).events, e.summary = Str.of "reset the password of 'eve'" ∧ e.actorId = some 1 := by
  have hsessions : (firstDayAt 4).sessions.rows.map UserSession.tokenHash = [markToken (Str.of "ab")] := by
    decide +kernel
  obtain ⟨row, hrow⟩ : ∃ row, (firstDayAt 4).sessions.get? (markToken (Str.of "ab")) = some row :=
    Option.isSome_iff_exists.1 (by decide +kernel)
  obtain ⟨hmem, hkey⟩ := Table.get?_eq_some.1 hrow
  have hflash : (firstDayAt 4).flash (key row) = some (Str.of "reset the password of 'eve'") := by
    rw [hkey]
    decide +kernel
  have huser : some row.userId = some 1 := by
    have hget : ((firstDayAt 4).sessions.get? (markToken (Str.of "ab"))).map UserSession.userId = some 1 := by
      decide +kernel
    rwa [hrow] at hget
  rw [← huser]
  exact ⟨hsessions, (session_opened (reach_firstDayAt 4) row hmem).2 _ hflash⟩

end Site

end Cabin
