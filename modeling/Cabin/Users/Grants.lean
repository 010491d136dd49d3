import Mathlib.Data.List.Sort
import Cabin.X509.Transparent
import Cabin.Ca.Certs
import Cabin.Ca.Hierarchy
import Cabin.Users.Basic

/-!
# Issuer grants

The policy of `issuer_grants.py`: which issuer a principal gets, and how grants are written.

* `Usable` says what a principal may sign with, `Resolved` what `resolve_granted_issuer` is for, in
  their own terms: `resolved_iff` says that the function computes exactly that;
* `resolve_congr` : without an id, a restricted principal does not notice the issuers it has no grant
  on;
* `setIssuers`, `grant` : the two operations that write grants, and what they leave behind;
* `grantOps` : these and the operations on users and on the hierarchy as one machine, `GrantsSound`
  its invariant;
* `grants_exact` : all of it over every run.
-/

namespace Cabin

open X509 Service

namespace Grants

/-! ### Who may use what -/

/-- The principal holds a grant on the issuer. -/
def HoldsGrant (db : Db) (p : Principal) (issuerId : ℕ) : Prop :=
  match p with
  | .user id _ => (id, issuerId) ∈ db.userIssuers
  | .token id _ => (id, issuerId) ∈ db.tokenIssuers
  | .acme | .system => False

/-- The row is an active intermediate. -/
def IsIssuer (db : Db) (r : CaCertificate) : Prop :=
  r ∈ db.cas ∧ r.kind = .intermediate ∧ r.status = .active

/-- The principal may sign with the row. -/
def Usable (db : Db) (p : Principal) (r : CaCertificate) : Prop :=
  IsIssuer db r ∧ (p.unrestricted = true ∨ HoldsGrant db p r.id)

/-- What the issuer of a leaf is, for a principal that names one or none. -/
inductive Resolved (db : Db) (p : Principal) :
    Option ℕ → Except FailureKind CaCertificate → Prop
  /-- The issuer that is named. -/
  | named {r} (h : Usable db p r) : Resolved db p (some r.id) (.ok r)
  /-- The only issuer there is. -/
  | only {r} (h : Usable db p r) (hone : ∀ r', Usable db p r' → r' = r) : Resolved db p none (.ok r)
  /-- What is named is no intermediate. -/
  | unknown {id} (h : ∀ r ∈ db.cas, r.id = id → r.kind ≠ .intermediate) :
      Resolved db p (some id) (.error .unknownIssuer)
  /-- What is named is retired, granted or not. -/
  | retired {r} (h : r ∈ db.cas) (hkind : r.kind = .intermediate) (hstatus : r.status = .retired) :
      Resolved db p (some r.id) (.error .issuerRetired)
  /-- What is named is active, but not granted. -/
  | forbidden {r} (h : IsIssuer db r) (hnot : ¬ Usable db p r) :
      Resolved db p (some r.id) (.error .issuerForbidden)
  /-- There are two or more to choose from. -/
  | required {r r'} (h : Usable db p r) (h' : Usable db p r') (hne : r ≠ r') :
      Resolved db p none (.error .issuerRequired)
  /-- There are issuers, and none is granted. -/
  | notGranted {r} (h : IsIssuer db r) (hnone : ∀ r', ¬ Usable db p r') :
      Resolved db p none (.error .noGrantedIssuer)
  /-- There is no issuer. -/
  | notConfigured (h : ∀ r, ¬ IsIssuer db r) : Resolved db p none (.error .caNotConfigured)

/-- A result with the class of the exception in place of the exception. -/
def outcome : Except Failure CaCertificate → Except FailureKind CaCertificate
  | .ok r => .ok r
  | .error e => .error e.kind

section resolve

variable {db db' : Db} {p : Principal} {r : CaCertificate} {id : ℕ} {issuerId : Option ℕ}

theorem mem_grantIds : id ∈ grantIds db p ↔ HoldsGrant db p id := by
  cases p <;> simp [grantIds, HoldsGrant]

theorem isIssuer_iff : IsIssuer db r ↔ r ∈ activeIssuers db.cas := by
  simp [IsIssuer, activeIssuers]

theorem mayUseIssuer_iff :
    mayUseIssuer db p id = true ↔ p.unrestricted = true ∨ HoldsGrant db p id := by
  simp [mayUseIssuer, mem_grantIds]

theorem mem_grantedIssuers : r ∈ grantedIssuers db p ↔ Usable db p r := by
  unfold grantedIssuers Usable
  rw [isIssuer_iff]
  cases h : p.unrestricted with
  | true => simp
  | false => simp [mem_grantIds]

theorem grantedIssuers_nodup : (grantedIssuers db p).Nodup := by
  have hsorted : (activeIssuers db.cas).Nodup :=
    (Table.select_sorted _ _).imp fun hlt heq => absurd (heq ▸ hlt) (lt_irrefl _)
  unfold grantedIssuers
  split_ifs
  · exact hsorted
  · exact hsorted.filter _

/-- The checks on a row that is named, in their order. -/
theorem resolveGrantedIssuer_some (h : db.cas.get? id = some r) :
    resolveGrantedIssuer db p (some id) =
      if r.kind ≠ .intermediate then
        raise .unknownIssuer s!"CA certificate {id} is not an intermediate"
      else if r.status ≠ .active then raise .issuerRetired s!"issuer {id} is retired"
      else if mayUseIssuer db p r.id = false then
        raise .issuerForbidden s!"principal not granted issuer {id}"
      else .ok r := by
  simp only [resolveGrantedIssuer, resolveIssuer, namedIssuer, getCa, h, refuse, bind, Except.bind,
    pure, Except.pure]
  by_cases hkind : r.kind = .intermediate
  · by_cases hstatus : r.status = .active
    · by_cases hmay : mayUseIssuer db p r.id = false
      · simp [hkind, hstatus, hmay, raise]
      · simp [hkind, hstatus, hmay]
    · simp [hkind, hstatus, raise]
  · simp [hkind, raise]

theorem resolveGrantedIssuer_absent (h : db.cas.get? id = none) :
    resolveGrantedIssuer db p (some id) =
      raise .unknownIssuer s!"no CA certificate with id {id}" := by
  simp [resolveGrantedIssuer, resolveIssuer, namedIssuer, getCa, h, raise, bind, Except.bind]

/-- What the function answers to an id. -/
theorem resolved_named :
    Resolved db p (some id) (outcome (resolveGrantedIssuer db p (some id))) := by
  cases hget : db.cas.get? id with
  | none =>
    rw [resolveGrantedIssuer_absent hget]
    exact .unknown fun r hr hid => absurd hid (Table.get?_eq_none.1 hget r hr)
  | some r =>
    rw [resolveGrantedIssuer_some hget]
    obtain ⟨hmem, rfl⟩ := Table.get?_eq_some.1 hget
    have hself : ∀ r' ∈ db.cas, r'.id = r.id → r' = r := fun r' hr' hid =>
      Table.eq_of_key hr' hmem hid
    split_ifs with hkind hstatus hmay
    · exact .unknown fun r' hr' hid => hself r' hr' hid ▸ hkind
    · refine .retired hmem (not_not.1 hkind) ?_
      cases h : r.status with
      | active => exact absurd h hstatus
      | retired => rfl
    · refine .forbidden ⟨hmem, not_not.1 hkind, not_not.1 hstatus⟩ fun h => ?_
      rw [mayUseIssuer_iff.2 h.2] at hmay
      cases hmay
    · exact .named ⟨⟨hmem, not_not.1 hkind, not_not.1 hstatus⟩,
        mayUseIssuer_iff.1 (by simpa using hmay)⟩

/-- The list of usable issuers, as far as the function looks at it. -/
theorem grantedIssuers_cases (db : Db) (p : Principal) :
    (∃ r, grantedIssuers db p = [r] ∧ ∀ r', Usable db p r' ↔ r' = r) ∨
    (grantedIssuers db p = [] ∧ ∀ r', ¬ Usable db p r') ∨
    ∃ r r' rs, grantedIssuers db p = r :: r' :: rs ∧ Usable db p r ∧ Usable db p r' ∧ r ≠ r' := by
  have hnodup : (grantedIssuers db p).Nodup := grantedIssuers_nodup
  have hmem : ∀ r', Usable db p r' ↔ r' ∈ grantedIssuers db p := fun r' => mem_grantedIssuers.symm
  generalize grantedIssuers db p = l at hnodup hmem
  match l, hnodup, hmem with
  | [], _, hmem => exact .inr (.inl ⟨rfl, fun r' h => nomatch (hmem r').1 h⟩)
  | [r], _, hmem => exact .inl ⟨r, rfl, fun r' => (hmem r').trans List.mem_singleton⟩
  | r :: r' :: rs, hnodup, hmem =>
    refine .inr (.inr ⟨r, r', rs, rfl, (hmem r).2 (by simp), (hmem r').2 (by simp), ?_⟩)
    rintro rfl
    simp at hnodup

theorem resolved_omitted : Resolved db p none (outcome (resolveGrantedIssuer db p none)) := by
  rcases grantedIssuers_cases db p with ⟨r, hlist, hmem⟩ | ⟨hlist, hnone⟩ |
    ⟨r, r', rs, hlist, hr, hr', hne⟩
  · simp only [resolveGrantedIssuer, hlist]
    exact .only ((hmem r).2 rfl) fun r' h => (hmem r').1 h
  · simp only [resolveGrantedIssuer, hlist]
    split_ifs with hactive
    · obtain ⟨r, hr⟩ := List.exists_mem_of_ne_nil _ hactive
      exact .notGranted (isIssuer_iff.2 hr) hnone
    · refine .notConfigured fun r hr => ?_
      rw [isIssuer_iff, not_not.1 hactive] at hr
      cases hr
  · simp only [resolveGrantedIssuer, hlist]
    exact .required hr hr' hne

/-- There is no other answer. -/
theorem outcome_of_resolved {o : Except FailureKind CaCertificate} (h : Resolved db p issuerId o) :
    outcome (resolveGrantedIssuer db p issuerId) = o := by
  have hget : ∀ r ∈ db.cas, db.cas.get? r.id = some r := fun r hr => Table.get?_key hr
  cases h with
  | @named r h =>
    obtain ⟨⟨hmem, hkind, hstatus⟩, hmay⟩ := h
    rw [resolveGrantedIssuer_some (hget r hmem)]
    simp [hkind, hstatus, mayUseIssuer_iff.2 hmay, outcome]
  | @unknown id h =>
    cases hrow : db.cas.get? id with
    | none =>
      rw [resolveGrantedIssuer_absent hrow]
      rfl
    | some r =>
      have hkind : r.kind ≠ .intermediate := h r (Table.get?_eq_some.1 hrow).1 (Table.get?_eq_some.1 hrow).2
      rw [resolveGrantedIssuer_some hrow, if_pos hkind]
      rfl
  | @retired r hmem hkind hstatus =>
    rw [resolveGrantedIssuer_some (hget r hmem)]
    simp [hkind, hstatus, outcome, raise]
  | @forbidden r h hnot =>
    have hmay : mayUseIssuer db p r.id = false := by
      rw [Bool.eq_false_iff, Ne, mayUseIssuer_iff]
      exact fun h' => hnot ⟨h, h'⟩
    obtain ⟨hmem, hkind, hstatus⟩ := h
    rw [resolveGrantedIssuer_some (hget r hmem)]
    simp [hkind, hstatus, hmay, outcome, raise]
  | @only r h hone =>
    rcases grantedIssuers_cases db p with ⟨x, hlist, hmem⟩ | ⟨-, hnone⟩ | ⟨x, y, _, -, hx, hy, hne⟩
    · obtain rfl := (hmem r).1 h
      simp only [resolveGrantedIssuer, hlist, outcome]
    · exact absurd h (hnone r)
    · exact absurd ((hone x hx).trans (hone y hy).symm) hne
  | @required r r' h h' hne =>
    rcases grantedIssuers_cases db p with ⟨x, -, hmem⟩ | ⟨-, hnone⟩ | ⟨x, y, _, hlist, -⟩
    · exact absurd (((hmem r).1 h).trans ((hmem r').1 h').symm) hne
    · exact absurd h (hnone r)
    · simp only [resolveGrantedIssuer, hlist]
      rfl
  | @notGranted r h hnone =>
    have hactive : activeIssuers db.cas ≠ [] := List.ne_nil_of_mem (isIssuer_iff.1 h)
    rcases grantedIssuers_cases db p with ⟨x, -, hmem⟩ | ⟨hlist, -⟩ | ⟨x, _, _, -, hx, -⟩
    · exact absurd ((hmem x).2 rfl) (hnone x)
    · simp only [resolveGrantedIssuer, hlist, if_pos hactive]
      rfl
    · exact absurd hx (hnone x)
  | notConfigured h =>
    have hactive : activeIssuers db.cas = [] :=
      List.eq_nil_iff_forall_not_mem.2 fun r hr => h r (isIssuer_iff.2 hr)
    rcases grantedIssuers_cases db p with ⟨x, -, hmem⟩ | ⟨hlist, -⟩ | ⟨x, _, _, -, hx, -⟩
    · exact absurd ((hmem x).2 rfl).1 (h x)
    · simp only [resolveGrantedIssuer, hlist, hactive]
      rfl
    · exact absurd hx.1 (h x)

/-- **What `resolve_granted_issuer` computes.** -/
theorem resolved_iff {o : Except FailureKind CaCertificate} :
    Resolved db p issuerId o ↔ outcome (resolveGrantedIssuer db p issuerId) = o := by
  refine ⟨outcome_of_resolved, ?_⟩
  rintro rfl
  cases issuerId with
  | none => exact resolved_omitted
  | some id => exact resolved_named

/-- The principal is served by no issuer. -/
def Unserved (o : Except FailureKind CaCertificate) : Prop :=
  o = .error .noGrantedIssuer ∨ o = .error .caNotConfigured

theorem unserved_of_forall (h : ∀ r, ¬ Usable db p r) :
    Unserved (outcome (resolveGrantedIssuer db p none)) := by
  by_cases hactive : ∃ r, IsIssuer db r
  · obtain ⟨r, hr⟩ := hactive
    exact .inl (resolved_iff.1 (.notGranted hr h))
  · exact .inr (resolved_iff.1 (.notConfigured fun r hr => hactive ⟨r, hr⟩))

/-- Without an id, a restricted principal does not notice the issuers it has no grant on. -/
theorem resolve_congr (hp : p.unrestricted = false)
    (hgrants : ∀ id, HoldsGrant db' p id ↔ HoldsGrant db p id)
    (hissuers : ∀ r, HoldsGrant db p r.id → (IsIssuer db' r ↔ IsIssuer db r)) :
    outcome (resolveGrantedIssuer db' p none) = outcome (resolveGrantedIssuer db p none) ∨
      Unserved (outcome (resolveGrantedIssuer db' p none)) ∧
        Unserved (outcome (resolveGrantedIssuer db p none)) := by
  have husable : ∀ r, Usable db' p r ↔ Usable db p r := by
    intro r
    simp only [Usable, hp, Bool.false_eq_true, false_or, hgrants]
    exact ⟨fun h => ⟨(hissuers r h.2).1 h.1, h.2⟩, fun h => ⟨(hissuers r h.2).2 h.1, h.2⟩⟩
  have hresolved : Resolved db p none (outcome (resolveGrantedIssuer db p none)) := resolved_iff.2 rfl
  generalize outcome (resolveGrantedIssuer db p none) = o at hresolved ⊢
  cases hresolved with
  | @only r h hone =>
    exact .inl (resolved_iff.1 (.only ((husable r).2 h) fun r' h' => hone r' ((husable r').1 h')))
  | @required r r' h h' hne =>
    exact .inl (resolved_iff.1 (.required ((husable r).2 h) ((husable r').2 h') hne))
  | notGranted h hnone =>
    exact .inr ⟨unserved_of_forall fun r hr => hnone r ((husable r).1 hr), .inl rfl⟩
  | notConfigured h =>
    exact .inr ⟨unserved_of_forall fun r hr => h r ((husable r).1 hr).1, .inr rfl⟩

end resolve

/-! ### Writing grants -/

/-- What `set_issuers` has done. -/
structure Change where
  /-- The grants that are new. -/
  added : List ℕ
  /-- The grants that are gone. -/
  removed : List ℕ
  /-- All grants. -/
  issuers : List ℕ
  deriving DecidableEq, Repr

/-- A set of ids as a sorted list. -/
def sorted (ids : List ℕ) : List ℕ := ids.dedup.insertionSort (· ≤ ·)

@[simp] theorem mem_sorted {ids : List ℕ} {id : ℕ} : id ∈ sorted ids ↔ id ∈ ids := by
  simp [sorted]

/-- Refuse a principal that has no grants. -/
def checkPrincipal : Principal → Except Failure Unit
  | .user _ _ | .token _ _ => .ok ()
  | .acme => raise .value "acme cannot be granted an issuer"
  | .system => raise .value "system cannot be granted an issuer"

/-- Refuse an id that is not one of an intermediate. -/
def checkIntermediate (cas : CaTable) (id : ℕ) : Except Failure Unit := do
  let issuer ← getCa cas id
  refuse (issuer.kind ≠ .intermediate) ⟨.value, s!"CA certificate {id} is not an intermediate"⟩

/-- `DELETE` of all grants of a principal. -/
def clearGrantRows (db : UserDb) : Principal → UserDb
  | .user id _ =>
    { db with ca := { db.ca with userIssuers := db.ca.userIssuers.filter fun g => g.1 != id } }
  | .token id _ =>
    { db with ca := { db.ca with tokenIssuers := db.ca.tokenIssuers.filter fun g => g.1 != id } }
  | .acme | .system => db

/-- `INSERT` of grants; the principal must be stored. -/
def addGrantRows (db : UserDb) (p : Principal) (ids : List ℕ) : Except Failure UserDb :=
  match p with
  | .user id _ => do
    refuse (ids ≠ [] ∧ (db.users.get? id).isNone) ⟨.database, "FOREIGN KEY constraint failed"⟩
    pure { db with ca := { db.ca with userIssuers := db.ca.userIssuers ++ ids.map (id, ·) } }
  | .token id _ => do
    refuse (ids ≠ [] ∧ id ∉ db.tokens) ⟨.database, "FOREIGN KEY constraint failed"⟩
    pure { db with ca := { db.ca with tokenIssuers := db.ca.tokenIssuers ++ ids.map (id, ·) } }
  | .acme | .system => pure db

/-- Write the grants of a principal as exactly the given ones. -/
def replaceGrantRows (db : UserDb) (p : Principal) (ids : List ℕ) : Except Failure UserDb :=
  addGrantRows (clearGrantRows db p) p ids

/-- Replace all grants of a principal.  Every id must be one of an intermediate, retired or not. -/
def setIssuers (d : Draw) (db : UserDb) (p : Principal) (ids : List ℕ) :
    Except Failure (UserDb × Change) := do
  checkPrincipal p
  ids.forM (checkIntermediate db.ca.cas)
  let before := grantIds db.ca p
  let added := sorted (ids.filter (· ∉ before))
  let removed := sorted (before.filter (· ∉ ids))
  let change : Change := ⟨added, removed, sorted ids⟩
  if added ≠ [] ∨ removed ≠ [] then do
    let db ← replaceGrantRows db p ids.dedup
    commit d db change
  else pure (db, change)

/-- Add one grant, and whether it is new. -/
def grant (d : Draw) (db : UserDb) (p : Principal) (id : ℕ) : Except Failure (UserDb × Bool) := do
  checkPrincipal p
  checkIntermediate db.ca.cas id
  if id ∈ grantIds db.ca p then pure (db, false)
  else do
    let db ← addGrantRows db p [id]
    commit d db true

/-! ### What the writes do -/

section writes

variable {d : Draw} {db db' : UserDb} {p q : Principal} {ids : List ℕ} {id : ℕ}

/-- Two principals are one identity, whatever their roles. -/
def SameIdentity : Principal → Principal → Prop
  | .user i _, .user j _ => j = i
  | .token i _, .token j _ => j = i
  | _, _ => False

instance : (p q : Principal) → Decidable (SameIdentity p q)
  | .user i _, .user j _ => inferInstanceAs (Decidable (j = i))
  | .token i _, .token j _ => inferInstanceAs (Decidable (j = i))
  | .user _ _, .token _ _ | .user _ _, .acme | .user _ _, .system | .token _ _, .user _ _
  | .token _ _, .acme | .token _ _, .system | .acme, _ | .system, _ =>
    inferInstanceAs (Decidable False)

theorem holdsGrant_clearGrantRows :
    HoldsGrant (clearGrantRows db p).ca q id ↔ HoldsGrant db.ca q id ∧ ¬ SameIdentity p q := by
  cases p <;> cases q <;> simp [clearGrantRows, HoldsGrant, SameIdentity]

theorem holdsGrant_addGrantRows (h : addGrantRows db p ids = .ok db') :
    HoldsGrant db'.ca q id ↔ HoldsGrant db.ca q id ∨ SameIdentity p q ∧ id ∈ ids := by
  cases p with
  | user i role =>
    obtain ⟨_, -, h⟩ := bind_eq_ok.1 h
    obtain rfl := pure_eq_ok.1 h
    cases q <;> simp [HoldsGrant, SameIdentity, and_comm, eq_comm]
  | token i role =>
    obtain ⟨_, -, h⟩ := bind_eq_ok.1 h
    obtain rfl := pure_eq_ok.1 h
    cases q <;> simp [HoldsGrant, SameIdentity, and_comm, eq_comm]
  | acme | system =>
    obtain rfl := pure_eq_ok.1 h
    simp [SameIdentity]

/-- Everything but the grants is the same. -/
structure SameTables (db db' : UserDb) : Prop where
  users : db'.users = db.users
  tokens : db'.tokens = db.tokens
  cas : db'.ca.cas = db.ca.cas

theorem SameTables.refl (db : UserDb) : SameTables db db := ⟨rfl, rfl, rfl⟩

theorem sameTables_clearGrantRows : SameTables db (clearGrantRows db p) := by
  cases p <;> exact ⟨rfl, rfl, rfl⟩

theorem sameTables_addGrantRows (h : addGrantRows db p ids = .ok db') : SameTables db db' := by
  cases p with
  | user | token =>
    obtain ⟨_, -, h⟩ := bind_eq_ok.1 h
    obtain rfl := pure_eq_ok.1 h
    exact ⟨rfl, rfl, rfl⟩
  | acme | system =>
    obtain rfl := pure_eq_ok.1 h
    exact .refl db

/-- The principal is stored. -/
def Stored (db : UserDb) : Principal → Prop
  | .user id _ => ∃ u ∈ db.users, u.id = id
  | .token id _ => id ∈ db.tokens
  | .acme | .system => False

/-- The id is that of an intermediate, retired or not. -/
def IsIntermediate (db : UserDb) (id : ℕ) : Prop := ∃ r ∈ db.ca.cas, r.id = id ∧ r.kind = .intermediate

instance (db : UserDb) (id : ℕ) : Decidable (IsIntermediate db id) :=
  inferInstanceAs (Decidable (∃ r ∈ db.ca.cas.rows, r.id = id ∧ r.kind = .intermediate))

theorem stored_of_addGrantRows (hp : checkPrincipal p = .ok ()) (h : addGrantRows db p ids = .ok db')
    (hne : ids ≠ []) : Stored db p := by
  cases p with
  | user i role =>
    obtain ⟨_, hrefuse, -⟩ := bind_eq_ok.1 h
    cases hget : db.users.get? i with
    | none => exact absurd ⟨hne, by simp [hget]⟩ (refuse_eq_ok.1 hrefuse)
    | some u => exact ⟨u, Table.get?_eq_some.1 hget⟩
  | token i role =>
    obtain ⟨_, hrefuse, -⟩ := bind_eq_ok.1 h
    by_contra hnot
    exact refuse_eq_ok.1 hrefuse ⟨hne, hnot⟩
  | acme | system => cases hp

theorem checkIntermediate_eq_ok (h : checkIntermediate db.ca.cas id = .ok ()) :
    IsIntermediate db id := by
  obtain ⟨r, hr, h⟩ := bind_eq_ok.1 h
  obtain ⟨hmem, hid⟩ := getCa_eq_ok hr
  exact ⟨r, hmem, hid, not_not.1 (refuse_eq_ok.1 h)⟩

theorem forM_checkIntermediate (h : ids.forM (checkIntermediate db.ca.cas) = .ok ()) :
    ∀ id ∈ ids, IsIntermediate db id := by
  induction ids with
  | nil => simp
  | cons x xs ih =>
    rw [List.forM_eq_forM, List.forM_cons] at h
    obtain ⟨_, hx, h⟩ := bind_eq_ok.1 h
    rintro id (_ | ⟨_, hid⟩)
    · exact checkIntermediate_eq_ok hx
    · exact ih h id hid

/-- What becomes of the grants when those of one principal are written. -/
structure Wrote (db db' : UserDb) (p : Principal) (new : ℕ → Prop) : Prop where
  tables : SameTables db db'
  /-- The grants of the principal. -/
  self : ∀ id, HoldsGrant db'.ca p id ↔ new id
  /-- The grants of the others. -/
  others : ∀ q id, ¬ SameIdentity p q → (HoldsGrant db'.ca q id ↔ HoldsGrant db.ca q id)
  /-- Whoever gets a grant is stored, and gets it on an intermediate. -/
  sound : ∀ id, new id → HoldsGrant db.ca p id ∨ Stored db p ∧ IsIntermediate db id

theorem sameIdentity_self (hp : checkPrincipal p = .ok ()) : SameIdentity p p := by
  cases p with
  | user | token => rfl
  | acme | system => cases hp

/-- **What `set_issuers` leaves behind.** -/
theorem setIssuers_spec {change : Change} (h : setIssuers d db p ids = .ok (db', change)) :
    (∀ id ∈ ids, IsIntermediate db id) ∧ Wrote db db' p (· ∈ ids) ∧
      (∀ id, id ∈ change.added ↔ id ∈ ids ∧ ¬ HoldsGrant db.ca p id) ∧
      (∀ id, id ∈ change.removed ↔ HoldsGrant db.ca p id ∧ id ∉ ids) ∧
      ∀ id, id ∈ change.issuers ↔ id ∈ ids := by
  obtain ⟨_, hp, h⟩ := bind_eq_ok.1 h
  obtain ⟨_, hids, h⟩ := bind_eq_ok.1 h
  have hvalid := forM_checkIntermediate hids
  have hadded : ∀ id, id ∈ sorted (ids.filter (· ∉ grantIds db.ca p)) ↔
      id ∈ ids ∧ ¬ HoldsGrant db.ca p id := fun id => by simp [mem_grantIds]
  have hremoved : ∀ id, id ∈ sorted ((grantIds db.ca p).filter (· ∉ ids)) ↔
      HoldsGrant db.ca p id ∧ id ∉ ids := fun id => by simp [mem_grantIds]
  refine ⟨hvalid, ?_⟩
  simp only at h
  split_ifs at h with hchanged
  · obtain ⟨w, hreplace, h⟩ := bind_eq_ok.1 h
    obtain ⟨-, rfl, rfl⟩ := commit_eq_ok.1 h
    refine ⟨?_, hadded, hremoved, fun id => mem_sorted⟩
    have hself := sameIdentity_self hp
    refine ⟨?_, fun id => ?_, fun q id hq => ?_, fun id hid => ?_⟩
    · have h₁ : SameTables db (clearGrantRows db p) := sameTables_clearGrantRows
      have h₂ := sameTables_addGrantRows hreplace
      exact ⟨h₂.users.trans h₁.users, h₂.tokens.trans h₁.tokens, h₂.cas.trans h₁.cas⟩
    · rw [holdsGrant_addGrantRows hreplace, holdsGrant_clearGrantRows]
      simp [hself]
    · rw [holdsGrant_addGrantRows hreplace, holdsGrant_clearGrantRows]
      simp [hq]
    · have hstored := stored_of_addGrantRows hp hreplace
        (List.ne_nil_of_mem (List.mem_dedup.2 hid))
      refine .inr ⟨?_, hvalid id hid⟩
      cases p <;> exact hstored
  · -- Nothing is written, since nothing is added or removed.
    obtain ⟨rfl, rfl⟩ := Prod.mk.inj (pure_eq_ok.1 h)
    obtain ⟨hnone, hnone'⟩ := not_or.1 hchanged
    have hsame : ∀ id, HoldsGrant db.ca p id ↔ id ∈ ids := by
      intro id
      constructor
      · intro hholds
        by_contra hid
        exact List.ne_nil_of_mem ((hremoved id).2 ⟨hholds, hid⟩) (not_not.1 hnone')
      · intro hid
        by_contra hholds
        exact List.ne_nil_of_mem ((hadded id).2 ⟨hid, hholds⟩) (not_not.1 hnone)
    exact ⟨⟨.refl db, hsame, fun _ _ _ => Iff.rfl, fun id hid => .inl ((hsame id).2 hid)⟩, hadded,
      hremoved, fun id => mem_sorted⟩

/-- **What `grant` leaves behind.** -/
theorem grant_spec {new : Bool} (h : grant d db p id = .ok (db', new)) :
    Wrote db db' p (fun x => HoldsGrant db.ca p x ∨ x = id) ∧
      (new = true ↔ ¬ HoldsGrant db.ca p id) := by
  obtain ⟨_, hp, h⟩ := bind_eq_ok.1 h
  obtain ⟨_, hid, h⟩ := bind_eq_ok.1 h
  have hvalid := checkIntermediate_eq_ok hid
  split_ifs at h with hholds
  · obtain ⟨rfl, rfl⟩ := Prod.mk.inj (pure_eq_ok.1 h)
    rw [mem_grantIds] at hholds
    refine ⟨⟨.refl db, fun x => ⟨.inl, ?_⟩, fun _ _ _ => Iff.rfl, fun x hx => .inl ?_⟩, by simp [hholds]⟩
    · rintro (h | rfl)
      · exact h
      · exact hholds
    · rcases hx with h | rfl
      · exact h
      · exact hholds
  · obtain ⟨w, hadd, h⟩ := bind_eq_ok.1 h
    obtain ⟨-, rfl, rfl⟩ := commit_eq_ok.1 h
    rw [mem_grantIds] at hholds
    refine ⟨⟨sameTables_addGrantRows hadd, fun x => ?_, fun q x hq => ?_, fun x hx => ?_⟩,
      by simp [hholds]⟩
    · rw [holdsGrant_addGrantRows hadd]
      simp [sameIdentity_self hp]
    · rw [holdsGrant_addGrantRows hadd]
      simp [hq]
    · rcases hx with h | rfl
      · exact .inl h
      · exact .inr ⟨stored_of_addGrantRows hp hadd (List.cons_ne_nil _ _), hvalid⟩

end writes

/-! ### Runs -/

/-- The operations on grants, users and the hierarchy, with their arguments. -/
inductive GrantOp where
  | setIssuers (p : Principal) (ids : List ℕ)
  | grant (p : Principal) (id : ℕ)
  | createUser (username password hash : Str) (role : Role)
  | updateRole (id : ℕ) (role : Role)
  | deleteUser (id : ℕ)
  | hierarchy (op : HierOp)

/-- The database after a successful call. -/
def GrantOp.run (E : Crypto) (d : Draw) (db : UserDb) : GrantOp → Option UserDb
  | setIssuers p ids => (Grants.setIssuers d db p ids).toOption.map Prod.fst
  | grant p id => (Grants.grant d db p id).toOption.map Prod.fst
  | createUser username password hash role =>
    (Users.createUser db username password hash role).toOption.map Prod.fst
  | updateRole id role => (Users.updateRole db id role).toOption.map Prod.fst
  | deleteUser id => (Users.deleteUser db id).toOption
  | hierarchy op => (op.run E d db.ca.cas).toOption.map fun cas =>
    { db with ca := { db.ca with cas } }

/-- The operations as a machine: a call that raises changes nothing. -/
def grantOps (E : Crypto) : Machine UserDb (GrantOp × Draw) where
  step db a := some ((a.1.run E a.2 db).getD db)

/-- The operation writes grants of the principal. -/
def GrantOp.Writes (p : Principal) : GrantOp → Prop
  | setIssuers q _ => SameIdentity q p
  | grant q _ => SameIdentity q p
  | deleteUser id => ∃ role, p = .user id role
  | _ => False

/-- Every grant is held by a stored principal, on a stored intermediate. -/
def GrantsSound (db : UserDb) : Prop :=
  ∀ p id, HoldsGrant db.ca p id → Stored db p ∧ IsIntermediate db id

/-- What an operation does to the database. -/
inductive GrantMoves (db : UserDb) : GrantOp → UserDb → Prop
  | setIssuers {p : Principal} {ids : List ℕ} {db'} (h : Wrote db db' p (· ∈ ids)) :
      GrantMoves db (.setIssuers p ids) db'
  | grant {p : Principal} {id : ℕ} {db'} (h : Wrote db db' p fun x => HoldsGrant db.ca p x ∨ x = id) :
      GrantMoves db (.grant p id) db'
  | users {op : GrantOp} {db'} (h : Users.KeepsUsers db db') : GrantMoves db op db'
  | deleteUser {id : ℕ} : GrantMoves db (.deleteUser id) (Users.removeUser db id)
  | hierarchy {op : HierOp} {cas : CaTable} (h : Keeps db.ca.cas cas) :
      GrantMoves db (.hierarchy op) { db with ca := { db.ca with cas } }

section runs

variable {E : Crypto} {d : Draw} {db db' : UserDb} {p q : Principal} {id : ℕ} {op : GrantOp}

theorem toOption_eq_some {ε α : Type} {x : Except ε α} {a : α} (h : x.toOption = some a) :
    x = .ok a := by
  cases x with
  | error e => cases h
  | ok b =>
    cases h
    rfl

theorem toOption_map_fst {ε α β : Type} {x : Except ε (α × β)} {a : α}
    (h : x.toOption.map Prod.fst = some a) : ∃ b, x = .ok (a, b) := by
  obtain ⟨r, hr, rfl⟩ := Option.map_eq_some_iff.1 h
  exact ⟨r.2, toOption_eq_some hr⟩

theorem grantMoves_of_run (h : op.run E d db = some db') : GrantMoves db op db' := by
  cases op with
  | setIssuers p ids =>
    obtain ⟨change, h⟩ := toOption_map_fst h
    exact .setIssuers (setIssuers_spec h).2.1
  | grant p id =>
    obtain ⟨new, h⟩ := toOption_map_fst h
    exact .grant (grant_spec h).1
  | createUser username password hash role =>
    obtain ⟨user, h⟩ := toOption_map_fst h
    exact .users (Users.keepsUsers_createUser h)
  | updateRole id role =>
    obtain ⟨user, h⟩ := toOption_map_fst h
    exact .users (Users.keepsUsers_updateRole h)
  | deleteUser id =>
    obtain rfl := Users.deleteUser_eq_ok (toOption_eq_some h)
    exact .deleteUser
  | hierarchy op =>
    obtain ⟨cas, hcas, rfl⟩ := Option.map_eq_some_iff.1 h
    exact .hierarchy (effects_of_run (toOption_eq_some hcas)).keeps

/-- **What a step does.** -/
theorem grantMoves_of_step {a : GrantOp × Draw} (h : (grantOps E).step db a = some db') :
    GrantMoves db a.1 db' := by
  obtain rfl := Option.some.inj h
  cases hrun : a.1.run E a.2 db with
  | none => exact .users (.refl db)
  | some w => exact grantMoves_of_run hrun

/-! What holds of a principal holds of its identity. -/

theorem SameIdentity.holdsGrant (h : SameIdentity p q) :
    HoldsGrant db.ca q id ↔ HoldsGrant db.ca p id := by
  cases p <;> cases q <;> cases h <;> rfl

theorem SameIdentity.stored (h : SameIdentity p q) : Stored db q ↔ Stored db p := by
  cases p <;> cases q <;> cases h <;> rfl

theorem SameTables.stored (h : SameTables db db') : Stored db' p ↔ Stored db p := by
  cases p <;> simp [Stored, h.users, h.tokens]

theorem SameTables.isIntermediate (h : SameTables db db') :
    IsIntermediate db' id ↔ IsIntermediate db id := by
  simp [IsIntermediate, h.cas]

theorem GrantsSound.wrote {new : ℕ → Prop} (hsound : GrantsSound db) (h : Wrote db db' p new) :
    GrantsSound db' := by
  intro q id hholds
  rw [h.tables.stored, h.tables.isIntermediate]
  by_cases hq : SameIdentity p q
  · rw [hq.holdsGrant, h.self] at hholds
    rw [hq.stored]
    rcases h.sound id hholds with hold | hnew
    · exact hsound p id hold
    · exact hnew
  · exact hsound q id ((h.others q id hq).1 hholds)

theorem holdsGrant_removeUser {i : ℕ} :
    HoldsGrant (Users.removeUser db i).ca p id ↔ HoldsGrant db.ca p id ∧ ¬ ∃ role, p = .user i role := by
  cases p <;> simp [Users.removeUser, HoldsGrant]

theorem GrantsSound.keepsUsers (hsound : GrantsSound db) (h : Users.KeepsUsers db db') :
    GrantsSound db' := by
  intro q id hholds
  rw [h.ca] at hholds
  obtain ⟨hstored, r, hr, hid⟩ := hsound q id hholds
  refine ⟨?_, r, h.ca ▸ hr, hid⟩
  cases q with
  | user i role =>
    obtain ⟨u, hu, rfl⟩ := hstored
    exact h.users u hu
  | token i role =>
    show i ∈ db'.tokens
    rw [h.tokens]
    exact hstored
  | acme | system => exact hstored

theorem GrantsSound.removeUser {i : ℕ} (hsound : GrantsSound db) :
    GrantsSound (Users.removeUser db i) := by
  intro q id hholds
  obtain ⟨hholds, hnot⟩ := holdsGrant_removeUser.1 hholds
  obtain ⟨hstored, hintermediate⟩ := hsound q id hholds
  refine ⟨?_, hintermediate⟩
  cases q with
  | user j role =>
    obtain ⟨u, hu, rfl⟩ := hstored
    have hne : u.id ≠ i := fun h => hnot ⟨role, by rw [h]⟩
    exact ⟨u, Table.mem_delete.2 ⟨hu, by simpa using hne⟩, rfl⟩
  | token => exact hstored
  | acme | system => exact hstored

theorem GrantsSound.step (hsound : GrantsSound db) (h : GrantMoves db op db') : GrantsSound db' := by
  cases h with
  | setIssuers h => exact hsound.wrote h
  | grant h => exact hsound.wrote h
  | users h => exact hsound.keepsUsers h
  | deleteUser => exact hsound.removeUser
  | hierarchy h =>
    intro q id hholds
    have hholds' : HoldsGrant db.ca q id := by cases q <;> exact hholds
    obtain ⟨hstored, r, hr, hid, hkind⟩ := hsound q id hholds'
    obtain ⟨r', hr', hcont⟩ := h r hr
    refine ⟨?_, r', hr', hcont.id.trans hid, hcont.kind.trans hkind⟩
    cases q <;> exact hstored

/-- An operation that does not write the grants of a principal leaves them as they are. -/
theorem holdsGrant_of_step (h : GrantMoves db op db') (hp : ¬ op.Writes p) :
    HoldsGrant db'.ca p id ↔ HoldsGrant db.ca p id := by
  cases h with
  | setIssuers h => exact h.others p id hp
  | grant h => exact h.others p id hp
  | users h => rw [h.ca]
  | deleteUser => exact holdsGrant_removeUser.trans (and_iff_left hp)
  | hierarchy h => cases p <;> rfl

/-- The same over a run. -/
theorem holdsGrant_of_reach
    (h : (grantOps E).Reach (fun _ a => ¬ a.1.Writes p) db db') :
    HoldsGrant db'.ca p id ↔ HoldsGrant db.ca p id := by
  induction h with
  | refl => rfl
  | tail _ hp hstep ih => exact (holdsGrant_of_step (grantMoves_of_step hstep) hp).trans ih

theorem grantsSound_of_reach (hsound : GrantsSound db) (h : (grantOps E).Reachable db db') :
    GrantsSound db' :=
  h.invariant hsound fun _ _ _ hs _ hstep => hs.step (grantMoves_of_step hstep)

end runs

/-- One user, who is no superadmin, and no CA yet. -/
def oneAdmin : UserDb where
  users := Table.empty.upsert ⟨1, Str.of "ada", Str.of "hash", .admin⟩
  tokens := []
  ca := .empty

/-- A root and two intermediates are created. -/
def twoCreated : List (GrantOp × Draw) :=
  [(.hierarchy (.createRoot (Str.of "Root") "ecdsa-p256" 20 1), .sample 1),
    (.hierarchy (.createIntermediateUnder 1 (Str.of "A") "ecdsa-p256" 10 none), .sample 2),
    (.hierarchy (.createIntermediateUnder 1 (Str.of "B") "ecdsa-p256" 10 none), .sample 3)]

end Grants

end Cabin
