import Cabin.Lts.Replay
import Cabin.Site.Requests
import Cabin.Text.Digits

/-!
# What the audit log tells of the users

By itself: replayed from its first row, the log gives who there is, with which role, and who may be logged in.  Each
row that is about users is permitted by what the rows in front of it come to.

* `Ledger` is what the log comes to, `Ledger.next` what a row does to it;
* `Permits` says which rows may follow, for one reason each;
* `isAction_iff`, `isAbout_rowOf`, `member_rowOf` : what the row of an event says.
-/

namespace Cabin

namespace Site

/-! ### Replaying the log -/

/-- A member of the details of a row, if it is a text. -/
def member (depth : ℕ) (row : Audit.Row) (name : String) : Option Str :=
  match row.detail depth with
  | .ok (some v) => (v.get? name).bind Json.str?
  | _ => none

/-- The row is about the user with this id. -/
def IsAbout (row : Audit.Row) (id : ℕ) : Prop :=
  row.targetType = some (Str.of "user") ∧ row.targetId = some (Audit.TargetId.num id).toStr

instance (row : Audit.Row) (id : ℕ) : Decidable (IsAbout row id) := inferInstanceAs (Decidable (_ ∧ _))

/-- What the log tells of the users. -/
structure Ledger where
  /-- The name and the role of the user with an id. -/
  users : ℕ → Option (Str × Str)
  /-- Whether a session of the user may be there. -/
  loggedIn : ℕ → Bool

/-- Nobody is there. -/
def Ledger.empty : Ledger := ⟨fun _ => none, fun _ => false⟩

/-- The row is an event of this kind. -/
def IsAction (row : Audit.Row) (action : Audit.AuditAction) : Prop := row.action = action.value

instance (row : Audit.Row) (action : Audit.AuditAction) : Decidable (IsAction row action) :=
  inferInstanceAs (Decidable (_ = _))

/-- What a row does to what the log tells. -/
def Ledger.next (depth : ℕ) (l : Ledger) (row : Audit.Row) : Ledger :=
  if IsAction row .loginSuccess then
    { l with loggedIn := fun id => decide (row.actorId = some id) || l.loggedIn id }
  else if IsAction row .userCreated then
    { users := fun id =>
        if IsAbout row id then (member depth row "username").bind fun username =>
          (member depth row "role").map fun role => (username, role)
        else l.users id
      loggedIn := fun id => !decide (IsAbout row id) && l.loggedIn id }
  else if IsAction row .userRoleChanged then
    { l with users := fun id =>
        if IsAbout row id then (l.users id).bind fun user => (member depth row "new_role").map fun role => (user.1, role)
        else l.users id }
  else if IsAction row .userPasswordReset then
    { l with loggedIn := fun id => !decide (IsAbout row id) && l.loggedIn id }
  else if IsAction row .userDeleted then
    { users := fun id => if IsAbout row id then none else l.users id
      loggedIn := fun id => !decide (IsAbout row id) && l.loggedIn id }
  else l

/-- The events that change what the log tells. -/
def tellingActions : List Audit.AuditAction :=
  [.loginSuccess, .userCreated, .userRoleChanged, .userPasswordReset, .userDeleted]

/-- What a log comes to. -/
def ledger (depth : ℕ) (log : List Audit.Row) : Ledger := replay (Ledger.next depth) .empty log

/-- The row names a user there is, who may be logged in, as the one who acted. -/
structure ActedBy (l : Ledger) (row : Audit.Row) (id : ℕ) (username role : Str) : Prop where
  kind : row.actorKind = Audit.ActorKind.user.value
  actorId : row.actorId = some id
  label : row.actorLabel = username.take Audit.maxLabelLength
  user : l.users id = some (username, role)

/-- Which rows may follow. -/
inductive Permits (depth : ℕ) (l : Ledger) (row : Audit.Row) : Prop
  /-- Whose login has failed is nobody. -/
  | loginFailed (action : IsAction row .loginFailed) (actor : row.actorId = none)
  | loginSuccess {id username role} (action : IsAction row .loginSuccess) (actor : ActedBy l row id username role)
  | logout {id username role} (action : IsAction row .logout) (actor : ActedBy l row id username role)
    (live : l.loggedIn id = true)
  /-- The first user is a superadmin, and nobody has made them. -/
  | firstRun (action : IsAction row .userCreated) (actor : row.actorKind = Audit.ActorKind.system.value)
    (nobody : ∀ id, l.users id = none) (role : member depth row "role" = some Role.superadmin.value)
  /-- A superadmin has logged in since, and makes a user. -/
  | created {id username target} (action : IsAction row .userCreated)
    (actor : ActedBy l row id username Role.superadmin.value) (live : l.loggedIn id = true)
    (about : IsAbout row target) (new : l.users target = none)
  /-- Or changes one there is. -/
  | changed {id username target user} (action : IsAction row .userRoleChanged ∨ IsAction row .userPasswordReset ∨
      IsAction row .userDeleted) (actor : ActedBy l row id username Role.superadmin.value) (live : l.loggedIn id = true)
    (about : IsAbout row target) (there : l.users target = some user)
  | other (action : ∀ action ∈ siteActions, ¬ IsAction row action)

/-! ### What the rows say -/

variable {depth : ℕ} {l : Ledger} {row : Audit.Row} {call : Audit.Call}

/-- All kinds of events. -/
def actions : List Audit.AuditAction :=
  [.loginSuccess, .loginFailed, .logout, .userCreated, .userRoleChanged, .userPasswordReset, .userDeleted, .caCreated,
    .caImported, .caRenewed, .caRetired, .caCrossSigned, .caCrossImported, .caKeyExported, .settingsChanged, .certIssued,
    .certSigned, .certRevoked, .tokenCreated, .tokenRevoked, .userIssuersChanged, .tokenIssuersChanged,
    .acmeAccountCreated, .acmeAccountDeactivated, .acmeOrderCreated, .acmeChallengeValidated, .acmeChallengeFailed,
    .acmeCertificateIssued, .acmeCertificateRevoked, .acmeEabKeyCreated, .acmeEabKeyRevoked, .tlsCertificateIssued,
    .tlsCertificateFailed]

/-- The kinds have different texts. -/
theorem value_injective : Function.Injective Audit.AuditAction.value := by
  have hnodup : (actions.map Audit.AuditAction.value).Nodup := by decide +kernel
  have hmem : ∀ a : Audit.AuditAction, a ∈ actions := by
    intro a
    cases a <;> decide
  exact fun a b h => List.inj_on_of_nodup_map hnodup (hmem a) (hmem b) h

theorem isAction_iff {action : Audit.AuditAction} {id : ℕ} {second : ℤ} :
    IsAction (Audit.rowOf id second call) action ↔ call.action = action := value_injective.eq_iff

theorem isAbout_rowOf {id target n : ℕ} {second : ℤ} (htype : call.targetType = some (Str.of "user"))
    (hid : call.targetId = some (.num target)) : IsAbout (Audit.rowOf id second call) n ↔ n = target := by
  have hinj : (Audit.TargetId.num target).toStr = (Audit.TargetId.num n).toStr ↔ n = target := by
    refine ⟨fun h => ?_, fun h => h ▸ rfl⟩
    have hofNat : Str.ofNat target = Str.ofNat n := h
    have hvalue := congrArg DigitTable.latin1.value hofNat
    rw [DigitTable.value_ofNat, DigitTable.value_ofNat] at hvalue
    exact hvalue.symm
  simp only [IsAbout, Audit.rowOf, htype, hid, Option.map_some, Option.some.injEq, true_and, hinj]

/-- What stands in the details of an event stands in its row. -/
theorem member_rowOf {id : ℕ} {second : ℤ} {members : List (Str × Json)} (hdepth : Json.Written depth (.obj members))
    (hdetail : call.detail = some members) {name : String} {value : Str} (hmem : (Str.of name, Json.str value) ∈ members) :
    member depth (Audit.rowOf id second call) name = some value := by
  have hread : (Audit.rowOf id second call).detail depth = .ok (some (Json.obj members).sortKeys) := by
    simp only [Audit.Row.detail, Audit.rowOf, Audit.detailText, hdetail, Option.map_some,
      Json.loads_dumps_sortKeys hdepth]
    rfl
  obtain ⟨sorted, hsorted, hperm⟩ : ∃ sorted, (Json.obj members).sortKeys = .obj sorted ∧
      sorted.Perm (Json.sortMembers members) := ⟨_, by rw [Json.sortKeys], List.mergeSort_perm _ _⟩
  have hsame : (Str.of name, Json.str value) ∈ sorted := by
    rw [hperm.mem_iff, Json.sortMembers_eq_map]
    exact List.mem_map.2 ⟨_, hmem, by rw [Json.sortKeys]⟩
  have hnodup : (sorted.map Prod.fst).Nodup := by
    unfold Json.Written at hdepth
    rw [(hperm.map _).nodup_iff, Json.names_sortMembers]
    exact hdepth.2.1
  simp only [member, hread, hsorted, Json.get?, (Json.lookup_eq_some_iff hnodup).2 hsame, Option.bind_some, Json.str?]

end Site

end Cabin
