import Cabin.Ca.Store

/-!
# Users

The table of users (`users.py`) and the operations on it that concern roles.  A user has a role, and
one who is not a superadmin has grants on issuers, which go with the user.

Each operation ends in one commit; a refused or failed one leaves the database as it was.
-/

namespace Cabin

/-- A row of `users`. -/
structure User where
  /-- The primary key. -/
  id : ℕ
  /-- The name to log in with, unique over all rows. -/
  username : Str
  /-- The hash of the password. -/
  passwordHash : Str
  /-- The role. -/
  role : Role
  deriving DecidableEq, Repr

instance : Keyed User ℕ := ⟨User.id⟩

@[simp] theorem key_user (u : User) : key u = u.id := rfl

/-- The database, with the tables of who may use it. -/
structure UserDb where
  /-- The table `users`. -/
  users : Table User
  /-- The ids of the table `api_tokens`, whose rows are never deleted. -/
  tokens : List ℕ
  /-- The tables of the CA and the grants. -/
  ca : Db

/-- The exceptions of `users.py`, and those of the database. -/
inductive UserError where
  | weakPassword
  | userExists
  | userNotFound
  | lastSuperadmin
  | staleData
  | invalidRequest
  | integrity
  | operational
  deriving DecidableEq, Repr

/-- An exception with its message. -/
structure UserFailure where
  /-- The class of the exception. -/
  kind : UserError
  /-- Its message. -/
  message : String
  deriving DecidableEq, Repr

namespace Users

/-- The shortest password. -/
def minPasswordLength : ℕ := 12

/-- Refuse a short password. -/
def checkPasswordStrength (password : Str) : Except UserFailure Unit :=
  refuse (password.length < minPasswordLength)
    ⟨.weakPassword, s!"password must be at least {minPasswordLength} characters"⟩

/-- The user with this id. -/
def getUser (db : UserDb) (id : ℕ) : Except UserFailure User :=
  match db.users.get? id with
  | some user => .ok user
  | none => .error ⟨.userNotFound, s!"no such user: {id}"⟩

/-- How many superadmins there are beside the user `excludeId`. -/
def countSuperadmins (db : UserDb) (excludeId : ℕ) : ℕ :=
  (db.users.select fun u => u.role == .superadmin && u.id != excludeId).length

/-- The user with this name. -/
def byUsername (db : UserDb) (username : Str) : Option User :=
  (db.users.select fun u => u.username == username).head?

/-- `INSERT`: the name must be new. -/
def insertUser (db : UserDb) (username hash : Str) (role : Role) :
    Except UserFailure (UserDb × User) :=
  let user : User := ⟨db.users.nextId, username, hash, role⟩
  if (byUsername db username).isSome then
    .error ⟨.integrity, "UNIQUE constraint failed: users.username"⟩
  else .ok ({ db with users := db.users.upsert user }, user)

/-- `UPDATE`: the row must still be there. -/
def setRole (db : UserDb) (id : ℕ) (role : Role) : Except UserFailure UserDb :=
  if (db.users.get? id).isNone then
    .error ⟨.staleData, "UPDATE statement on table 'users' expected to update 1 row(s); 0 were matched."⟩
  else .ok { db with
    users := db.users.update (fun u => u.id == id) (fun u => { u with role }) fun _ => rfl }

/-- `DELETE` of the grants of a user, and of the user, who may be gone already. -/
def removeUser (db : UserDb) (id : ℕ) : UserDb :=
  { db with
    users := db.users.delete fun u => u.id == id
    ca := { db.ca with userIssuers := db.ca.userIssuers.filter fun g => g.1 != id } }

/-- Load a row once more. -/
def refresh (db : UserDb) (id : ℕ) : Except UserFailure User :=
  match db.users.get? id with
  | some user => .ok user
  | none => .error ⟨.invalidRequest, "Could not refresh instance"⟩

/-- The refusal to demote or delete. -/
def lastSuperadmin (verb : String) : UserFailure :=
  ⟨.lastSuperadmin, s!"cannot {verb} the last superadmin"⟩

/-- Create a user; `hash` is what the hasher made of the password. -/
def createUser (db : UserDb) (username password hash : Str) (role : Role) :
    Except UserFailure (UserDb × User) := do
  checkPasswordStrength password
  refuse ((byUsername db username).isSome)
    ⟨.userExists, s!"username already exists: {Str.repr username}"⟩
  let (db, user) ← insertUser db username hash role
  let user ← refresh db user.id
  pure (db, user)

/-- Write the role of a loaded user.  One that the user has already is not written. -/
def changeRole (db : UserDb) (user : User) (role : Role) : Except UserFailure UserDb :=
  if user.role = role then .ok db else setRole db user.id role

/-- Change the role of a user; the last superadmin is not demoted. -/
def updateRole (db : UserDb) (id : ℕ) (role : Role) : Except UserFailure (UserDb × User) := do
  let user ← getUser db id
  refuse (user.role = .superadmin ∧ role ≠ .superadmin ∧ countSuperadmins db user.id = 0)
    (lastSuperadmin "demote")
  let db ← changeRole db user role
  let user ← refresh db user.id
  pure (db, user)

/-- Delete a user with the grants; the last superadmin is not deleted. -/
def deleteUser (db : UserDb) (id : ℕ) : Except UserFailure UserDb := do
  let user ← getUser db id
  refuse (user.role = .superadmin ∧ countSuperadmins db user.id = 0) (lastSuperadmin "delete")
  pure (removeUser db id)

/-! ### What the operations keep -/

section specs

variable {db db' : UserDb} {user : User} {id : ℕ} {role : Role}

/-- Nobody is gone, and nothing but the users has changed. -/
structure KeepsUsers (db db' : UserDb) : Prop where
  tokens : db'.tokens = db.tokens
  ca : db'.ca = db.ca
  users : ∀ u ∈ db.users, ∃ u' ∈ db'.users, u'.id = u.id

theorem KeepsUsers.refl (db : UserDb) : KeepsUsers db db := ⟨rfl, rfl, fun u hu => ⟨u, hu, rfl⟩⟩

theorem mem_setRole {u : User} (h : setRole db id role = .ok db') :
    u ∈ db'.users ↔ ∃ v ∈ db.users, (if v.id = id then { v with role } else v) = u := by
  unfold setRole at h
  split_ifs at h
  cases h
  simp

theorem keepsUsers_setRole (h : setRole db id role = .ok db') : KeepsUsers db db' := by
  have hmem : ∀ u, u ∈ db'.users ↔ _ := fun u => mem_setRole h
  unfold setRole at h
  split_ifs at h
  cases h
  refine ⟨rfl, rfl, fun u hu => ⟨_, (hmem _).2 ⟨u, hu, rfl⟩, ?_⟩⟩
  split_ifs <;> rfl

theorem keepsUsers_createUser {username password hash : Str}
    (h : createUser db username password hash role = .ok (db', user)) : KeepsUsers db db' := by
  obtain ⟨_, -, h⟩ := bind_eq_ok.1 h
  obtain ⟨_, -, h⟩ := bind_eq_ok.1 h
  obtain ⟨⟨w, x⟩, hinsert, h⟩ := bind_eq_ok.1 h
  obtain ⟨_, -, h⟩ := bind_eq_ok.1 h
  obtain ⟨rfl, -⟩ := Prod.mk.inj (pure_eq_ok.1 h)
  unfold insertUser at hinsert
  split_ifs at hinsert
  cases hinsert
  exact ⟨rfl, rfl, fun u hu => ⟨u, Table.mem_upsert.2 (.inr ⟨hu, (Table.lt_nextId hu).ne⟩), rfl⟩⟩

theorem keepsUsers_updateRole (h : updateRole db id role = .ok (db', user)) : KeepsUsers db db' := by
  obtain ⟨_, -, h⟩ := bind_eq_ok.1 h
  obtain ⟨_, -, h⟩ := bind_eq_ok.1 h
  obtain ⟨w, hset, h⟩ := bind_eq_ok.1 h
  obtain ⟨_, -, h⟩ := bind_eq_ok.1 h
  obtain ⟨rfl, -⟩ := Prod.mk.inj (pure_eq_ok.1 h)
  unfold changeRole at hset
  split_ifs at hset
  · cases hset
    exact .refl db
  · exact keepsUsers_setRole hset

theorem deleteUser_eq_ok (h : deleteUser db id = .ok db') : db' = removeUser db id := by
  obtain ⟨_, -, h⟩ := bind_eq_ok.1 h
  obtain ⟨_, -, h⟩ := bind_eq_ok.1 h
  exact (pure_eq_ok.1 h).symm

end specs

end Users

end Cabin
