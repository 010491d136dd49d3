import Cabin.Store.Atomic
import Cabin.Users.Basic

/-!
# The last superadmin

`update_role` and `delete_user` (`users.py`) refuse to take away the last superadmin.  They count the
other superadmins, and then write: between the two, another call can commit.  The role of the user
is read before that, so a user who is promoted in between is demoted without any count.

* `UserPc.act` is the program of a call, `userCalls` any number of calls at once;
* `updateRole_alone`, `deleteUser_alone`, `createUser_alone` : a call that is alone does what its
  function says;
* `superadmins_survive` : a superadmin remains in every run in which the refusal does not apply when a
  call writes (`RoleSafe`), and a refused call has changed nothing;
* `superadmins_gone` : a run in which none remains.
-/

namespace Cabin

namespace Users

/-- Where a call is. -/
inductive UserPc where
  /-- `update_role` begins. -/
  | updateRole (id : ℕ) (role : Role)
  /-- A superadmin is to be demoted: about to count the others. -/
  | countToDemote (user : User) (role : Role)
  /-- About to write the role. -/
  | setRole (id : ℕ) (role : Role)
  /-- `delete_user` begins. -/
  | deleteUser (id : ℕ)
  /-- A superadmin is to be deleted: about to count the others. -/
  | countToDelete (user : User)
  /-- About to delete the grants and the user. -/
  | remove (id : ℕ)
  /-- `create_user` begins. -/
  | createUser (username password hash : Str) (role : Role)
  /-- About to insert the user. -/
  | insert (username hash : Str) (role : Role)
  /-- The write is committed; about to load the row once more. -/
  | refresh (id : ℕ)
  /-- The call has returned a user, or nothing. -/
  | returned (user : Option User)
  /-- The call has raised an error. -/
  | raised (e : UserFailure)
  deriving DecidableEq

namespace UserPc

/-- The write gives up waiting for the lock. -/
def locked : UserPc := .raised ⟨.operational, "database is locked"⟩

/-- `update_role` has the user. -/
def ofUserToUpdate (role : Role) : Except UserFailure User → UserPc
  | .error e => .raised e
  | .ok user =>
    if user.role = .superadmin ∧ role ≠ .superadmin then .countToDemote user role
    -- A role that is the loaded one already is not written.
    else if user.role = role then .refresh user.id
    else .setRole user.id role

/-- `delete_user` has the user. -/
def ofUserToDelete : Except UserFailure User → UserPc
  | .error e => .raised e
  | .ok user => if user.role = .superadmin then .countToDelete user else .remove user.id

/-- `create_user` has looked for the name. -/
def ofName (username password hash : Str) (role : Role) (db : UserDb) : UserPc :=
  match checkPasswordStrength password with
  | .error e => .raised e
  | .ok () =>
    if (byUsername db username).isSome then
      .raised ⟨.userExists, s!"username already exists: {Str.repr username}"⟩
    else .insert username hash role

/-- The row is loaded once more. -/
def ofRefresh : Except UserFailure User → UserPc
  | .error e => .raised e
  | .ok user => .returned (some user)

/-- After the write of a role. -/
def ofSetRole (id : ℕ) : Except UserFailure UserDb → Except UserPc (UserDb × UserPc)
  | .error e => .error (.raised e)
  | .ok db => .ok (db, .refresh id)

/-- After the insertion of a user. -/
def ofInsert : Except UserFailure (UserDb × User) → Except UserPc (UserDb × UserPc)
  | .error e => .error (.raised e)
  | .ok (db, user) => .ok (db, .refresh user.id)

theorem ofSetRole_eq_ok {id : ℕ} {r : Except UserFailure UserDb} {db : UserDb} {pc : UserPc}
    (h : ofSetRole id r = .ok (db, pc)) : r = .ok db := by
  cases r with
  | error e => cases h
  | ok w =>
    cases h
    rfl

theorem ofInsert_eq_ok {r : Except UserFailure (UserDb × User)} {db : UserDb} {pc : UserPc}
    (h : ofInsert r = .ok (db, pc)) : ∃ user, r = .ok (db, user) := by
  cases r with
  | error e => cases h
  | ok w =>
    cases h
    exact ⟨w.2, rfl⟩

/-- The program of a call. -/
def act : UserPc → Action UserDb UserPc
  | updateRole id role => .select fun db => ofUserToUpdate role (getUser db id)
  | countToDemote user role => .select fun db =>
    if countSuperadmins db user.id = 0 then .raised (lastSuperadmin "demote")
    else .setRole user.id role
  | setRole id role => .write (fun db => ofSetRole id (Users.setRole db id role)) locked
  | deleteUser id => .select fun db => ofUserToDelete (getUser db id)
  | countToDelete user => .select fun db =>
    if countSuperadmins db user.id = 0 then .raised (lastSuperadmin "delete") else .remove user.id
  | remove id => .write (fun db => .ok (removeUser db id, .returned none)) locked
  | createUser username password hash role => .select (ofName username password hash role)
  | insert username hash role => .write (fun db => ofInsert (insertUser db username hash role)) locked
  | refresh id => .select fun db => ofRefresh (Users.refresh db id)
  | returned _ => .done
  | raised _ => .done

end UserPc

/-- Any number of calls at once. -/
def userCalls : Machine (Sessions UserDb (Phase UserPc)) Turn := transactions UserPc.act

/-- A call, with its arguments. -/
inductive UserCall where
  | updateRole (id : ℕ) (role : Role)
  | deleteUser (id : ℕ)
  | createUser (username password hash : Str) (role : Role)

/-- Where a call begins. -/
def UserCall.pc : UserCall → UserPc
  | updateRole id role => .updateRole id role
  | deleteUser id => .deleteUser id
  | createUser username password hash role => .createUser username password hash role

/-- The calls begin. -/
def userStart (db : UserDb) (calls : List UserCall) : Sessions UserDb (Phase UserPc) :=
  .begin db (calls.map UserCall.pc)

/-! ### A call alone -/

section alone

variable {db db' : UserDb} {id : ℕ} {role : Role} {user : User}

theorem getUser_eq_ok (h : getUser db id = .ok user) : user ∈ db.users ∧ user.id = id := by
  unfold getUser at h
  split at h
  · cases h
    exact Table.get?_eq_some.1 ‹_›
  · cases h

theorem setRole_of_mem (role : Role) (h : user ∈ db.users) :
    ∃ db' user', setRole db user.id role = .ok db' ∧ refresh db' user.id = .ok user' := by
  have hget : db.users.get? user.id = some user := Table.get?_key h
  refine ⟨_, { user with role }, by simp [setRole, hget]; rfl, ?_⟩
  simp [refresh, Table.get?_update, hget]

/-- The last two steps of a call that has written. -/
theorem refresh_alone {pc : UserPc} (h : refresh db id = .ok user)
    (hpc : userCalls.Reachable (.alone db' pc) (.alone db (.refresh id))) :
    userCalls.Reachable (.alone db' pc) (.alone db (.returned (some user))) := by
  have hlast := alone_select UserPc.act db (.refresh id) rfl
  rw [h] at hlast
  exact hpc.trans hlast

/-- **`update_role` alone.** -/
theorem updateRole_alone :
    match updateRole db id role with
    | .ok (db', user) =>
      userCalls.Reachable (.alone db (.updateRole id role)) (.alone db' (.returned (some user)))
    | .error e => userCalls.Reachable (.alone db (.updateRole id role)) (.alone db (.raised e)) := by
  have hload : userCalls.Reachable (.alone db (.updateRole id role))
      (.alone db (.ofUserToUpdate role (getUser db id))) :=
    alone_select UserPc.act db (.updateRole id role) rfl
  cases huser : getUser db id with
  | error e =>
    have hresult : updateRole db id role = .error e := by
      simp only [updateRole, huser, bind, Except.bind]
    rw [huser] at hload
    rw [hresult]
    exact hload
  | ok user =>
    obtain ⟨hmem, rfl⟩ := getUser_eq_ok huser
    have hget : db.users.get? user.id = some user := Table.get?_key hmem
    rw [huser, UserPc.ofUserToUpdate] at hload
    by_cases hrefused : user.role = .superadmin ∧ role ≠ .superadmin ∧
        countSuperadmins db user.id = 0
    · have hresult : updateRole db user.id role = .error (lastSuperadmin "demote") := by
        simp only [updateRole, huser, bind, Except.bind, refuse, if_pos hrefused]
      have hcount := alone_select UserPc.act db (.countToDemote user role) rfl
      simp only [if_pos hrefused.2.2] at hcount
      rw [if_pos ⟨hrefused.1, hrefused.2.1⟩] at hload
      rw [hresult]
      exact hload.trans hcount
    -- The call gets to the write, if there is something to write.
    have hgoes : userCalls.Reachable (.alone db (.updateRole user.id role))
        (.alone db (if user.role = role then .refresh user.id else .setRole user.id role)) := by
      by_cases hdemotes : user.role = .superadmin ∧ role ≠ .superadmin
      · have hne : user.role ≠ role := fun h => hdemotes.2 (h ▸ hdemotes.1)
        have hothers : countSuperadmins db user.id ≠ 0 := fun h =>
          hrefused ⟨hdemotes.1, hdemotes.2, h⟩
        have hcount := alone_select UserPc.act db (.countToDemote user role) rfl
        simp only [if_neg hothers] at hcount
        rw [if_pos hdemotes] at hload
        rw [if_neg hne]
        exact hload.trans hcount
      · rw [if_neg hdemotes] at hload
        exact hload
    by_cases hsame : user.role = role
    · have hrefresh : refresh db user.id = .ok user := by simp [refresh, hget]
      have hresult : updateRole db user.id role = .ok (db, user) := by
        simp only [updateRole, huser, bind, Except.bind, refuse, if_neg hrefused, changeRole,
          if_pos hsame, pure, Except.pure, hrefresh]
      rw [if_pos hsame] at hgoes
      rw [hresult]
      exact refresh_alone hrefresh hgoes
    · obtain ⟨db', user', hset, hrefresh⟩ := setRole_of_mem role hmem
      have hresult : updateRole db user.id role = .ok (db', user') := by
        simp only [updateRole, huser, bind, Except.bind, refuse, if_neg hrefused, changeRole,
          if_neg hsame, hset, pure, Except.pure, hrefresh]
      have hwrite : userCalls.Reachable (.alone db (.setRole user.id role))
          (.alone db' (.refresh user.id)) :=
        alone_write UserPc.act db (.setRole user.id role) rfl (by rw [hset]; rfl)
      rw [if_neg hsame] at hgoes
      rw [hresult]
      exact refresh_alone hrefresh (hgoes.trans hwrite)

/-- **`delete_user` alone.** -/
theorem deleteUser_alone :
    match deleteUser db id with
    | .ok db' => userCalls.Reachable (.alone db (.deleteUser id)) (.alone db' (.returned none))
    | .error e => userCalls.Reachable (.alone db (.deleteUser id)) (.alone db (.raised e)) := by
  have hload : userCalls.Reachable (.alone db (.deleteUser id))
      (.alone db (.ofUserToDelete (getUser db id))) :=
    alone_select UserPc.act db (.deleteUser id) rfl
  cases huser : getUser db id with
  | error e =>
    have hresult : deleteUser db id = .error e := by
      simp only [deleteUser, huser, bind, Except.bind]
    rw [huser] at hload
    rw [hresult]
    exact hload
  | ok user =>
    obtain ⟨hmem, rfl⟩ := getUser_eq_ok huser
    rw [huser, UserPc.ofUserToDelete] at hload
    by_cases hrefused : user.role = .superadmin ∧ countSuperadmins db user.id = 0
    · have hresult : deleteUser db user.id = .error (lastSuperadmin "delete") := by
        simp only [deleteUser, huser, bind, Except.bind, refuse, if_pos hrefused]
      have hcount := alone_select UserPc.act db (.countToDelete user) rfl
      simp only [if_pos hrefused.2] at hcount
      rw [if_pos hrefused.1] at hload
      rw [hresult]
      exact hload.trans hcount
    have hgoes : userCalls.Reachable (.alone db (.deleteUser user.id))
        (.alone db (.remove user.id)) := by
      split_ifs at hload with hsuper
      · have hothers : countSuperadmins db user.id ≠ 0 := fun h => hrefused ⟨hsuper, h⟩
        have hcount := alone_select UserPc.act db (.countToDelete user) rfl
        simp only [if_neg hothers] at hcount
        exact hload.trans hcount
      · exact hload
    have hresult : deleteUser db user.id = .ok (removeUser db user.id) := by
      simp only [deleteUser, huser, bind, Except.bind, refuse, if_neg hrefused, pure, Except.pure]
    rw [hresult]
    exact hgoes.trans (alone_write UserPc.act db (.remove user.id) rfl rfl)

/-- **`create_user` alone.** -/
theorem createUser_alone {username password hash : Str} :
    match createUser db username password hash role with
    | .ok (db', user) => userCalls.Reachable (.alone db (.createUser username password hash role))
        (.alone db' (.returned (some user)))
    | .error e => userCalls.Reachable (.alone db (.createUser username password hash role))
        (.alone db (.raised e)) := by
  have hname : userCalls.Reachable (.alone db (.createUser username password hash role))
      (.alone db (.ofName username password hash role db)) :=
    alone_select UserPc.act db (.createUser username password hash role) rfl
  cases hweak : checkPasswordStrength password with
  | error e =>
    have hresult : createUser db username password hash role = .error e := by
      simp only [createUser, hweak, bind, Except.bind]
    rw [UserPc.ofName, hweak] at hname
    rw [hresult]
    exact hname
  | ok u =>
    rw [UserPc.ofName, hweak] at hname
    by_cases hexists : (byUsername db username).isSome
    · have hresult : createUser db username password hash role =
          .error ⟨.userExists, s!"username already exists: {Str.repr username}"⟩ := by
        simp only [createUser, hweak, bind, Except.bind, refuse, if_pos hexists]
      simp only [if_pos hexists] at hname
      rw [hresult]
      exact hname
    · have hinsert : insertUser db username hash role =
          .ok ({ db with users := db.users.upsert ⟨db.users.nextId, username, hash, role⟩ },
            ⟨db.users.nextId, username, hash, role⟩) := by
        simp only [insertUser, if_neg hexists]
      have hrefresh : refresh
          { db with users := db.users.upsert ⟨db.users.nextId, username, hash, role⟩ }
          db.users.nextId = .ok ⟨db.users.nextId, username, hash, role⟩ := by
        simp [refresh, Table.get?_upsert]
      have hresult : createUser db username password hash role =
          .ok ({ db with users := db.users.upsert ⟨db.users.nextId, username, hash, role⟩ },
            ⟨db.users.nextId, username, hash, role⟩) := by
        simp only [createUser, hweak, bind, Except.bind, refuse, if_neg hexists, hinsert, hrefresh,
          pure, Except.pure]
      simp only [if_neg hexists] at hname
      rw [hresult]
      exact refresh_alone hrefresh (hname.trans
        (alone_write UserPc.act db (.insert username hash role) rfl (by rw [hinsert]; rfl)))

end alone

/-! ### Calls that meet -/

section calls

variable {db db' : UserDb} {id : ℕ} {role : Role}

/-- There is a superadmin. -/
def HasSuperadmin (db : UserDb) : Prop := ∃ u ∈ db.users, u.role = .superadmin

instance (db : UserDb) : Decidable (HasSuperadmin db) :=
  inferInstanceAs (Decidable (∃ u ∈ db.users.rows, u.role = .superadmin))

/-- The user is a superadmin and there is no other. -/
def IsLast (db : UserDb) (id : ℕ) : Prop :=
  (∃ u ∈ db.users.get? id, u.role = .superadmin) ∧ countSuperadmins db id = 0

instance (db : UserDb) (id : ℕ) : Decidable (IsLast db id) :=
  inferInstanceAs (Decidable ((∃ u ∈ db.users.get? id, u.role = .superadmin) ∧ _))

/-- A call that is about to demote or delete a user still would not be refused. -/
def RoleSafe (db : UserDb) : UserPc → Prop
  | .setRole id role => role ≠ .superadmin → ¬ IsLast db id
  | .remove id => ¬ IsLast db id
  | _ => True

instance (db : UserDb) : (pc : UserPc) → Decidable (RoleSafe db pc)
  | .setRole id role => inferInstanceAs (Decidable (role ≠ .superadmin → ¬ IsLast db id))
  | .remove id => inferInstanceAs (Decidable (¬ IsLast db id))
  | .updateRole _ _ | .countToDemote _ _ | .deleteUser _ | .countToDelete _ | .createUser _ _ _ _
  | .insert _ _ _ | .refresh _ | .returned _ | .raised _ => inferInstanceAs (Decidable True)

/-- There is a superadmin beside the user, unless the user is the last one. -/
theorem exists_other (h : HasSuperadmin db) (hlast : ¬ IsLast db id) :
    ∃ u ∈ db.users, u.role = .superadmin ∧ u.id ≠ id := by
  by_contra hnone
  have hall : ∀ u ∈ db.users, u.role = .superadmin → u.id = id := by
    intro u hu hrole
    by_contra hne
    exact hnone ⟨u, hu, hrole, hne⟩
  obtain ⟨u, hu, hrole⟩ := h
  refine hlast ⟨⟨u, Table.get?_eq_some.2 ⟨hu, hall u hu hrole⟩, hrole⟩, ?_⟩
  have hempty : (db.users.select fun u => u.role == .superadmin && u.id != id) = [] := by
    refine List.eq_nil_iff_forall_not_mem.2 fun v hv => ?_
    obtain ⟨hv, hp⟩ := Table.mem_select.1 hv
    have hp' : v.role = .superadmin ∧ v.id ≠ id := by simpa using hp
    exact hp'.2 (hall v hv hp'.1)
  simp only [countSuperadmins, hempty, List.length_nil]

theorem HasSuperadmin.setRole (h : HasSuperadmin db) (hrun : setRole db id role = .ok db')
    (hsafe : role ≠ .superadmin → ¬ IsLast db id) : HasSuperadmin db' := by
  by_cases hrole : role = .superadmin
  · -- Whoever was a superadmin is one now.
    obtain ⟨u, hu, husuper⟩ := h
    refine ⟨_, (mem_setRole hrun).2 ⟨u, hu, rfl⟩, ?_⟩
    split_ifs
    · exact hrole
    · exact husuper
  · obtain ⟨u, hu, husuper, hne⟩ := exists_other h (hsafe hrole)
    exact ⟨u, (mem_setRole hrun).2 ⟨u, hu, if_neg hne⟩, husuper⟩

theorem HasSuperadmin.removeUser (h : HasSuperadmin db) (hsafe : ¬ IsLast db id) :
    HasSuperadmin (removeUser db id) := by
  obtain ⟨u, hu, husuper, hne⟩ := exists_other h hsafe
  exact ⟨u, Table.mem_delete.2 ⟨hu, by simpa using hne⟩, husuper⟩

theorem HasSuperadmin.insertUser {username hash : Str} {user : User} (h : HasSuperadmin db)
    (hrun : insertUser db username hash role = .ok (db', user)) : HasSuperadmin db' := by
  unfold Users.insertUser at hrun
  split_ifs at hrun
  cases hrun
  obtain ⟨u, hu, husuper⟩ := h
  exact ⟨u, Table.mem_upsert.2 (.inr ⟨hu, (Table.lt_nextId hu).ne⟩), husuper⟩

end calls

/-- What every call keeps. -/
theorem maintains_superadmin :
    Maintains UserPc.act RoleSafe HasSuperadmin fun _ _ => True where
  select _ _ _ _ := trivial
  write {db db' pc pc' run busy} hact hrun hsafe h _ := by
    refine ⟨?_, trivial, fun _ _ => trivial⟩
    cases pc with
    | setRole id role =>
      cases hact
      exact h.setRole (UserPc.ofSetRole_eq_ok hrun) hsafe
    | remove id =>
      cases hact
      cases hrun
      exact h.removeUser hsafe
    | insert username hash role =>
      cases hact
      obtain ⟨user, hinsert⟩ := UserPc.ofInsert_eq_ok hrun
      exact h.insertUser hinsert
    | _ => cases hact
  refused _ _ _ _ _ := trivial
  busy _ _ _ := trivial

/-! ### Refused calls -/

/-- The call has only read, and may still be refused for the last superadmin, or is. -/
def UserPc.isEarly : UserPc → Bool
  | updateRole _ _ | countToDemote _ _ | deleteUser _ | countToDelete _ => true
  | raised e => e.kind == .lastSuperadmin
  | _ => false

/-- A call that has got past this does not come back. -/
theorem isEarly_of_leads {pc pc' : UserPc} (h : (pc.act).Leads pc') (hlate : pc.isEarly = false) :
    pc'.isEarly = false := by
  cases pc with
  | setRole id role =>
    cases h with
    | write hrun | refused hrun =>
      simp only [Users.setRole] at hrun
      split_ifs at hrun <;> cases hrun
      rfl
    | giveUp => rfl
  | insert username hash role =>
    cases h with
    | write hrun | refused hrun =>
      simp only [insertUser] at hrun
      split_ifs at hrun <;> cases hrun
      rfl
    | giveUp => rfl
  | remove id =>
    cases h with
    | write hrun =>
      cases hrun
      rfl
    | refused hrun => cases hrun
    | giveUp => rfl
  | createUser username password hash role =>
    cases h
    unfold UserPc.ofName checkPasswordStrength refuse
    split_ifs <;> rfl
  | refresh id =>
    cases h
    simp only [Users.refresh]
    split <;> rfl
  | returned | raised => cases h
  | _ => cases hlate

theorem not_isEarly_of_write {pc : UserPc} {run : UserDb → Except UserPc (UserDb × UserPc)}
    {busy : UserPc} (h : pc.act = .write run busy) : pc.isEarly = false := by
  cases pc with
  | setRole | remove | insert => rfl
  | _ => cases h

/-- A call that is refused for the last superadmin has changed nothing, in none of its turns. -/
theorem unchanged_of_refused {db : UserDb} {calls : List UserCall}
    {s₁ s₂ s : Sessions UserDb (Phase UserPc)} {k : ℕ} {e : UserFailure}
    (h₁ : userCalls.Reachable (userStart db calls) s₁) (hstep : userCalls.step s₁ (.go k) = some s₂)
    (h₂ : userCalls.Reachable s₂ s) (hk : s.calls[k]? = some (.run (.raised e)))
    (he : e.kind = .lastSuperadmin) : s₂.committed = s₁.committed ∧ s₂.lock = s₁.lock := by
  obtain ⟨l, hl, hexec⟩ := Option.bind_eq_some_iff.1 hstep
  -- The call is early before the step, since it is in the end.
  have hearly : l.pc.isEarly = true := by
    by_contra hlate
    obtain ⟨l', hl', hlate'⟩ := Sessions.pc_of_reach (.trans (.single trivial hstep) h₂)
      (fun _ _ hq hleads => isEarly_of_leads hleads hq) ⟨l, hl, by simpa using hlate⟩
    obtain rfl := Option.some.inj (hk.symm.trans hl')
    simp [Phase.pc, UserPc.isEarly, he] at hlate'
  obtain ⟨a, -, hsim⟩ := exists_atomic (h₁.mono fun _ t _ => Sessions.heeds_true t)
  obtain ⟨pc₀, -, hrel⟩ := hsim.calls k l hl
  generalize s₁.held k = h at hrel
  cases hrel with
  | run =>
    cases pc₀ with
    | updateRole | countToDemote | deleteUser | countToDelete =>
      obtain rfl := Option.some.inj hexec
      exact ⟨rfl, rfl⟩
    | raised => cases hexec
    | _ => cases hearly
  | @commit _ pc _ _ _ hact _ hrun =>
    have hleads : (pc₀.act).Leads pc := hact ▸ .write hrun
    have hlate := isEarly_of_leads hleads (not_isEarly_of_write hact)
    simp [Phase.pc, hlate] at hearly
  | rollback hback =>
    obtain ⟨pc₁, run, busy, db₁, hact, hrun⟩ := hback
    have hleads : (pc₁.act).Leads pc₀ := hact ▸ .refused hrun
    have hlate := isEarly_of_leads hleads (not_isEarly_of_write hact)
    simp [Phase.pc, hlate] at hearly

/-- **The last superadmin.**  If there is a superadmin at first, then

* there is one in every state of every run of the calls in which the refusal does not apply when a
  call writes;
* in no run does a call that raises `LastSuperadminError` change anything, in any of its turns. -/
theorem superadmins_survive {db : UserDb} {calls : List UserCall} (h₀ : HasSuperadmin db) :
    (∀ s, userCalls.Reach (Sessions.Heeds RoleSafe) (userStart db calls) s →
      HasSuperadmin s.committed) ∧
    ∀ (s₁ s₂ s : Sessions UserDb (Phase UserPc)) (k : ℕ) (e : UserFailure),
      userCalls.Reachable (userStart db calls) s₁ → userCalls.step s₁ (.go k) = some s₂ →
      userCalls.Reachable s₂ s → s.calls[k]? = some (.run (.raised e)) →
      e.kind = .lastSuperadmin → s₂.committed = s₁.committed ∧ s₂.lock = s₁.lock :=
  ⟨fun _ h => (maintains_superadmin.reach h h₀ fun _ _ => trivial).1,
    fun _ _ _ _ _ h₁ hstep h₂ hk he => unchanged_of_refused h₁ hstep h₂ hk he⟩

/-! ### Two calls -/

/-- Two superadmins. -/
def twoSuperadmins : UserDb where
  users := (Table.empty.upsert ⟨1, Str.of "ada", Str.of "hash-1", .superadmin⟩).upsert
    ⟨2, Str.of "bob", Str.of "hash-2", .superadmin⟩
  tokens := []
  ca := .empty

/-- Each of them is to be taken away. -/
def demoteAndDelete : List UserCall := [.updateRole 1 .viewer, .deleteUser 2]

/-- One call after the other: the second is refused. -/
theorem superadmins_survive_oneAfterTheOther :
    ∃ s, userCalls.Reach (Sessions.Heeds RoleSafe) (userStart twoSuperadmins demoteAndDelete) s ∧
      s.calls[1]? = some (.run (.raised (lastSuperadmin "delete"))) ∧ HasSuperadmin s.committed := by
  have h : userCalls.Reach (Sessions.Heeds RoleSafe) (userStart twoSuperadmins demoteAndDelete) _ :=
    Machine.reach_final _ ([0, 0, 0, 0, 0, 1, 1].map Turn.go) (by decide +kernel)
  exact ⟨_, h, by decide +kernel, (superadmins_survive (by decide +kernel)).1 _ h⟩

/-- Both calls count before either writes: no superadmin is left. -/
theorem superadmins_gone :
    ¬ ∀ (db : UserDb) (calls : List UserCall) (s : Sessions UserDb (Phase UserPc)),
      HasSuperadmin db → userCalls.Reachable (userStart db calls) s → s.finished UserPc.act →
      HasSuperadmin s.committed := by
  intro hall
  have h : userCalls.Reachable (userStart twoSuperadmins demoteAndDelete) _ :=
    Machine.reachable_final _ ([0, 0, 1, 1, 0, 0, 0, 1, 1].map Turn.go)
  exact absurd (hall _ _ _ (by decide +kernel) h (by decide +kernel)) (by decide +kernel)

end Users

end Cabin
