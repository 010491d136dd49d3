import Cabin.Acme.Identifiers

/-!
# Orders, authorizations and challenges

The operations of `acme/service.py` on the tables.  The status of an order is computed from its
authorizations and the clock; what is stored changes by single statements, three of which are
conditional: an attempt at a challenge, a failed attempt, and the claim on an order.

* `createOrder_spec`: what a new order adds;
* `claimChallenge_eq_true`, `claimForIssuance_eq_true`: when a conditional statement counts its row.
-/

namespace Cabin

namespace Acme

/-- How long an order can be used. -/
def orderLifetime : ℤ := Instant.days 7

/-- How long a proof of control is good. -/
def authzLifetime : ℤ := Instant.days 7

/-- The random texts of a new order. -/
structure OrderDraw where
  /-- The id of the order. -/
  orderId : Str
  /-- The ids of its authorizations. -/
  authzId : ℕ → Str
  /-- The ids of their challenges. -/
  challengeId : ℕ → ℕ → Str
  /-- The tokens of their challenges. -/
  token : ℕ → ℕ → Str

/-! ### New orders -/

/-- A new challenge of the authorization number `j`. -/
def addChallenge (d : OrderDraw) (j : ℕ) (challenges : Table AcmeChallenge)
    (entry : ChallengeType × ℕ) : Option (Table AcmeChallenge) :=
  challenges.insert? ⟨d.challengeId j entry.2, d.authzId j, entry.1, d.token j entry.2, .pending, none,
    none⟩

/-- A new authorization, and its challenges. -/
def addAuthorization (d : OrderDraw) (moment : ℤ) (db : AcmeDb) (entry : Identifier × ℕ) :
    Option AcmeDb := do
  let (identifier, j) := entry
  let authorizations ← db.authorizations.insert? ⟨d.authzId j, d.orderId, identifier.type,
    identifier.baseValue, .pending, Instant.seconds (moment + authzLifetime), identifier.wildcard⟩
  let challenges ← (challengeTypesFor identifier.type identifier.wildcard).zipIdx.foldlM
    (addChallenge d j) db.challenges
  pure { db with authorizations, challenges }

/-- One order, one authorization per identifier, and their challenges; `none` if an id is taken. -/
def createOrder (d : OrderDraw) (accountId : Str) (identifiers : List Identifier)
    (notBefore notAfter : Option ℤ) (moment : ℤ) (db : AcmeDb) : Option AcmeDb := do
  let orders ← db.orders.insert?
    { id := d.orderId, accountId, status := .pending
      identifiers := identifiers.map Identifier.asJson, notBefore, notAfter
      expiresAt := Instant.seconds (moment + orderLifetime), certificateId := none
      createdAt := Instant.seconds moment }
  identifiers.zipIdx.foldlM (addAuthorization d moment) { db with orders }

/-! ### The status of an order -/

/-- The moment has come, in whole seconds. -/
def hasExpired (expiresAt now : ℤ) : Bool := expiresAt ≤ Instant.seconds now

/-- What the status of an authorization is: a pending or valid one can expire. -/
def authorizationStatus (authz : AcmeAuthorization) (now : ℤ) : AuthorizationStatus :=
  if (authz.status = .pending ∨ authz.status = .valid) ∧ hasExpired authz.expiresAt now then .expired
  else authz.status

/-- The authorizations of an order. -/
def authorizationsOf (db : AcmeDb) (orderId : Str) : List AcmeAuthorization :=
  db.authorizations.select fun a => a.orderId == orderId

/-- What the status of an order is, given that of its authorizations. -/
def statusOf (statuses : List AuthorizationStatus) : OrderStatus :=
  if statuses.any fun s => s == .invalid || s == .expired then .invalid
  else if statuses ≠ [] ∧ statuses.all fun s => s == .valid then .ready
  else .pending

/-- What the status of an order is.  What is written of an order wins over what is computed. -/
def orderStatus (db : AcmeDb) (order : AcmeOrder) (now : ℤ) : OrderStatus :=
  if order.status ≠ .pending ∧ order.status ≠ .ready then order.status
  else if hasExpired order.expiresAt now then .invalid
  else statusOf ((authorizationsOf db order.id).map fun a => authorizationStatus a now)

/-! ### Attempts at a challenge -/

/-- Whether a trigger starts an attempt: a repeated trigger does not, and is no error. -/
def checkTrigger (challenge : AcmeChallenge) (authz : AcmeAuthorization) (now : ℤ) :
    Except AcmeError Bool :=
  match challenge.status with
  | .processing | .valid => .ok false
  | .invalid =>
    .error { kind := .malformed
             detail := "this challenge has already failed; place a new order to try again" }
  | .pending =>
    let status := authorizationStatus authz now
    if status = .pending then .ok true
    else .error { kind := .malformed
                  detail := s!"this authorization is {status.text} and cannot be validated" }

/-- The conditional statement of `begin_challenge`, and whether it changed the row. -/
def claimChallenge (db : AcmeDb) (challengeId : Str) : AcmeDb × Bool :=
  let waiting := fun c : AcmeChallenge => c.id == challengeId && c.status == .pending
  ({ db with
      challenges := db.challenges.update waiting
        (fun c => { c with status := .processing, error := none }) fun _ => rfl },
    (db.challenges.select waiting).length == 1)

/-- A proof of control: the challenge and its authorization become valid together. -/
def recordChallengeSuccess (db : AcmeDb) (challengeId authzId : Str) (now : ℤ) : AcmeDb :=
  { db with
    challenges := db.challenges.update (fun c => c.id == challengeId)
      (fun c => { c with
        status := .valid, validatedAt := some (Instant.seconds now), error := none }) fun _ => rfl
    authorizations := db.authorizations.update (fun a => a.id == authzId)
      (fun a => { a with status := .valid }) fun _ => rfl }

/-- A failed attempt, if it is still the one that is running. -/
def recordChallengeFailure (db : AcmeDb) (challengeId : Str) (problem : AcmeError) : AcmeDb :=
  { db with
    challenges := db.challenges.update (fun c => c.id == challengeId && c.status == .processing)
      (fun c => { c with status := .invalid, error := some problem }) fun _ => rfl }

/-! ### Finalization -/

/-- The conditional statement of `claim_for_issuance`, and whether it changed the row. -/
def claimForIssuance (db : AcmeDb) (orderId : Str) : AcmeDb × Bool :=
  let free := fun o : AcmeOrder =>
    o.id == orderId && o.certificateId.isNone && (o.status == .pending || o.status == .ready)
  ({ db with
      orders := db.orders.update free (fun o => { o with status := .processing }) fun _ => rfl },
    (db.orders.select free).length == 1)

/-- The claim comes off again. -/
def releaseClaim (db : AcmeDb) (orderId : Str) : AcmeDb :=
  { db with
    orders := db.orders.update (fun o => o.id == orderId)
      (fun o => { o with status := .pending }) fun _ => rfl }

/-- The order is valid, and this came out of it. -/
def attachCertificate (db : AcmeDb) (orderId : Str) (certificateId : ℕ) : AcmeDb :=
  { db with
    orders := db.orders.update (fun o => o.id == orderId)
      (fun o => { o with certificateId := some certificateId, status := .valid }) fun _ => rfl }

theorem AcmeAccount.key_deactivated (a : AcmeAccount) : key { a with status := .deactivated } = key a := rfl

/-- An account is given up for good. -/
def deactivateAccount (db : AcmeDb) (accountId : Str) : AcmeDb :=
  { db with
    accounts := db.accounts.update (fun a => a.id == accountId)
      (fun a => { a with status := .deactivated }) AcmeAccount.key_deactivated }

/-- The order, if the account has placed it. -/
def ownedOrder (account : AcmeAccount) (order : Option AcmeOrder) : Except AcmeError AcmeOrder :=
  match order with
  | none => .error (notFound "order")
  | some order =>
    if order.accountId = account.id then .ok order
    else .error { kind := .unauthorized, detail := "this order belongs to another account" }

/-! ### Conditional statements -/

section conditional

variable {db : AcmeDb} {id : Str}

theorem claimChallenge_eq_true :
    (claimChallenge db id).2 = true ↔ ∃ c ∈ db.challenges, c.id = id ∧ c.status = .pending := by
  have hkey : ∀ a b : AcmeChallenge, (a.id == id && a.status == .pending) = true →
      (b.id == id && b.status == .pending) = true → key a = key b := by
    simp only [Bool.and_eq_true, beq_iff_eq, key_acmeChallenge]
    rintro a b ⟨ha, -⟩ ⟨hb, -⟩
    rw [ha, hb]
  simp [claimChallenge, Table.length_select_eq_one hkey]

theorem claimChallenge_eq_self (h : (claimChallenge db id).2 = false) :
    (claimChallenge db id).1 = db := by
  have hnone : ∀ c ∈ db.challenges, (c.id == id && c.status == .pending) = false := by
    intro c hc
    by_contra hmatch
    rw [Bool.not_eq_false, Bool.and_eq_true, beq_iff_eq, beq_iff_eq] at hmatch
    have htrue := claimChallenge_eq_true.2 ⟨c, hc, hmatch⟩
    rw [h] at htrue
    cases htrue
  simp only [claimChallenge, Table.update_eq_self hnone]

theorem claimForIssuance_eq_true :
    (claimForIssuance db id).2 = true ↔ ∃ o ∈ db.orders, o.id = id ∧ o.certificateId = none ∧
      (o.status = .pending ∨ o.status = .ready) := by
  have hkey : ∀ a b : AcmeOrder,
      (a.id == id && a.certificateId.isNone && (a.status == .pending || a.status == .ready)) = true →
      (b.id == id && b.certificateId.isNone && (b.status == .pending || b.status == .ready)) = true →
      key a = key b := by
    simp only [Bool.and_eq_true, beq_iff_eq, key_acmeOrder]
    rintro a b ⟨⟨ha, -⟩, -⟩ ⟨⟨hb, -⟩, -⟩
    rw [ha, hb]
  simp [claimForIssuance, Table.length_select_eq_one hkey, and_assoc]

theorem claimForIssuance_eq_self (h : (claimForIssuance db id).2 = false) :
    (claimForIssuance db id).1 = db := by
  have hnone : ∀ o ∈ db.orders, (o.id == id && o.certificateId.isNone &&
      (o.status == .pending || o.status == .ready)) = false := by
    intro o ho
    by_contra hmatch
    simp only [Bool.not_eq_false, Bool.and_eq_true, Bool.or_eq_true, beq_iff_eq,
      Option.isNone_iff_eq_none] at hmatch
    have htrue := claimForIssuance_eq_true.2 ⟨o, ho, hmatch.1.1, hmatch.1.2, hmatch.2⟩
    rw [h] at htrue
    cases htrue
  simp only [claimForIssuance, Table.update_eq_self hnone]

end conditional

/-! ### Rows after a statement -/

section rows

variable {db : AcmeDb} {id : Str}

theorem mem_claimChallenge {c : AcmeChallenge} :
    c ∈ (claimChallenge db id).1.challenges ↔ ∃ x ∈ db.challenges,
      (if x.id = id ∧ x.status = .pending then { x with status := .processing, error := none }
        else x) = c := by
  simp [claimChallenge]

theorem mem_recordChallengeSuccess {authzId : Str} {now : ℤ} {c : AcmeChallenge} :
    c ∈ (recordChallengeSuccess db id authzId now).challenges ↔ ∃ x ∈ db.challenges,
      (if x.id = id then
        { x with status := .valid, validatedAt := some (Instant.seconds now), error := none }
        else x) = c := by
  simp [recordChallengeSuccess]

theorem mem_recordChallengeSuccess_authorizations {authzId : Str} {now : ℤ}
    {a : AcmeAuthorization} :
    a ∈ (recordChallengeSuccess db id authzId now).authorizations ↔ ∃ x ∈ db.authorizations,
      (if x.id = authzId then { x with status := .valid } else x) = a := by
  simp [recordChallengeSuccess]

theorem mem_recordChallengeFailure {problem : AcmeError} {c : AcmeChallenge} :
    c ∈ (recordChallengeFailure db id problem).challenges ↔ ∃ x ∈ db.challenges,
      (if x.id = id ∧ x.status = .processing then
        { x with status := .invalid, error := some problem } else x) = c := by
  simp [recordChallengeFailure]

theorem mem_claimForIssuance {o : AcmeOrder} :
    o ∈ (claimForIssuance db id).1.orders ↔ ∃ x ∈ db.orders,
      (if (x.id = id ∧ x.certificateId = none) ∧ (x.status = .pending ∨ x.status = .ready) then
        { x with status := .processing } else x) = o := by
  simp [claimForIssuance]

theorem mem_releaseClaim {o : AcmeOrder} :
    o ∈ (releaseClaim db id).orders ↔ ∃ x ∈ db.orders,
      (if x.id = id then { x with status := .pending } else x) = o := by
  simp [releaseClaim]

theorem mem_attachCertificate {certificateId : ℕ} {o : AcmeOrder} :
    o ∈ (attachCertificate db id certificateId).orders ↔ ∃ x ∈ db.orders,
      (if x.id = id then { x with certificateId := some certificateId, status := .valid }
        else x) = o := by
  simp [attachCertificate]

theorem mem_deactivateAccount {a : AcmeAccount} :
    a ∈ (deactivateAccount db id).accounts ↔ ∃ x ∈ db.accounts,
      (if x.id = id then { x with status := .deactivated } else x) = a := by
  simp [deactivateAccount]

end rows

/-! ### What a new order adds -/

/-- A challenge nobody has tried. -/
structure Untried (c : AcmeChallenge) : Prop where
  status : c.status = .pending
  validatedAt : c.validatedAt = none
  error : c.error = none

/-- The challenge belongs to the authorization, and may prove it. -/
structure Proves (c : AcmeChallenge) (a : AcmeAuthorization) : Prop where
  authzId : c.authzId = a.id
  type : c.type ∈ challengeTypesFor a.identifierType a.wildcard

/-- The authorization is that of the identifier in the order. -/
structure Covers (a : AcmeAuthorization) (orderId : Str) (type : IdentifierType) (baseValue : Str)
    (wildcard : Bool) : Prop where
  orderId : a.orderId = orderId
  identifierType : a.identifierType = type
  identifierValue : a.identifierValue = baseValue
  wildcard : a.wildcard = wildcard

/-- Pending authorizations of the order `orderId` and untried challenges of theirs were added. -/
structure Grown (orderId : Str) (db db' : AcmeDb) : Prop where
  ca : db'.ca = db.ca
  accounts : db'.accounts = db.accounts
  orders : db'.orders = db.orders
  authorizations : ∀ a ∈ db.authorizations, a ∈ db'.authorizations
  newAuthorization : ∀ a ∈ db'.authorizations, a ∈ db.authorizations ∨
    a.orderId = orderId ∧ a.status = .pending
  challenges : ∀ c ∈ db.challenges, c ∈ db'.challenges
  newChallenge : ∀ c ∈ db'.challenges, c ∈ db.challenges ∨
    Untried c ∧ ∃ a ∈ db'.authorizations, a.orderId = orderId ∧ a.status = .pending ∧ Proves c a

namespace Grown

variable {orderId : Str}

theorem refl (db : AcmeDb) : Grown orderId db db :=
  ⟨rfl, rfl, rfl, fun _ => id, fun _ => .inl, fun _ => id, fun _ => .inl⟩

theorem trans {a b c : AcmeDb} (hab : Grown orderId a b) (hbc : Grown orderId b c) :
    Grown orderId a c where
  ca := hbc.ca.trans hab.ca
  accounts := hbc.accounts.trans hab.accounts
  orders := hbc.orders.trans hab.orders
  authorizations x hx := hbc.authorizations x (hab.authorizations x hx)
  newAuthorization x hx := by
    rcases hbc.newAuthorization x hx with hx | hx
    · exact hab.newAuthorization x hx
    · exact .inr hx
  challenges x hx := hbc.challenges x (hab.challenges x hx)
  newChallenge x hx := by
    rcases hbc.newChallenge x hx with hx | hx
    · rcases hab.newChallenge x hx with hx | ⟨hnew, y, hy, hrest⟩
      · exact .inl hx
      · exact .inr ⟨hnew, y, hbc.authorizations y hy, hrest⟩
    · exact .inr hx

end Grown

variable {d : OrderDraw} {db db' : AcmeDb} {moment : ℤ}

theorem addChallenges_spec {j : ℕ} {types : List ChallengeType} {t t' : Table AcmeChallenge}
    (h : types.zipIdx.foldlM (addChallenge d j) t = some t') :
    (∀ c ∈ t, c ∈ t') ∧
      ∀ c ∈ t', c ∈ t ∨ Untried c ∧ c.authzId = d.authzId j ∧ c.type ∈ types := by
  refine (foldlM_eq_some (R := fun t t' : Table AcmeChallenge => (∀ c ∈ t, c ∈ t') ∧
      ∀ c ∈ t', c ∈ t ∨ Untried c ∧ c.authzId = d.authzId j ∧ c.type ∈ types)
    (fun t => ⟨fun _ => id, fun _ => .inl⟩) ?_ ?_ h).1
  · rintro a b c ⟨hab, hab'⟩ ⟨hbc, hbc'⟩
    refine ⟨fun x hx => hbc x (hab x hx), fun x hx => ?_⟩
    rcases hbc' x hx with hx | hx
    · exact hab' x hx
    · exact .inr hx
  · intro a entry b hentry hb
    have htype : entry.1 ∈ types := List.fst_mem_of_mem_zipIdx hentry
    refine ⟨fun c hc => (Table.mem_insert? hb).2 (.inr hc), fun c hc => ?_⟩
    rcases (Table.mem_insert? hb).1 hc with rfl | hc
    · exact .inr ⟨⟨rfl, rfl, rfl⟩, rfl, htype⟩
    · exact .inl hc

theorem addAuthorization_spec {entry : Identifier × ℕ}
    (h : addAuthorization d moment db entry = some db') :
    Grown d.orderId db db' ∧ ∃ a ∈ db'.authorizations,
      Covers a d.orderId entry.1.type entry.1.baseValue entry.1.wildcard := by
  obtain ⟨i, j⟩ := entry
  simp only [addAuthorization, Option.bind_eq_bind, Option.bind_eq_some_iff, Option.pure_def,
    Option.some.injEq] at h
  obtain ⟨authorizations, ha, challenges, hc, rfl⟩ := h
  obtain ⟨hkeep, hnew⟩ := addChallenges_spec hc
  have hself := (Table.mem_insert? ha).2 (.inl rfl)
  refine ⟨⟨rfl, rfl, rfl, fun a h => (Table.mem_insert? ha).2 (.inr h), fun a h => ?_, hkeep,
    fun c h => ?_⟩, _, hself, ⟨rfl, rfl, rfl, rfl⟩⟩
  · rcases (Table.mem_insert? ha).1 h with rfl | h
    · exact .inr ⟨rfl, rfl⟩
    · exact .inl h
  · rcases hnew c h with h | ⟨huntried, hid, htype⟩
    · exact .inl h
    · exact .inr ⟨huntried, _, hself, rfl, rfl, ⟨hid, htype⟩⟩

/-- What a new order adds: a pending order, an authorization for each of its identifiers, and their
challenges. -/
theorem createOrder_spec {accountId : Str} {is : List Identifier} {notBefore notAfter : Option ℤ}
    (h : createOrder d accountId is notBefore notAfter moment db = some db') :
    ∃ order : AcmeOrder, order.id = d.orderId ∧ order.accountId = accountId ∧
      order.status = .pending ∧ order.identifiers = is.map Identifier.asJson ∧
      order.certificateId = none ∧ (∀ o ∈ db.orders, o.id ≠ order.id) ∧
      Grown d.orderId { db with orders := db.orders.upsert order } db' ∧
      ∀ i ∈ is, ∃ a ∈ db'.authorizations, Covers a d.orderId i.type i.baseValue i.wildcard := by
  simp only [createOrder, Option.bind_eq_bind, Option.bind_eq_some_iff] at h
  obtain ⟨orders, ho, h⟩ := h
  obtain ⟨hfresh, rfl⟩ := Table.insert?_eq_some.1 ho
  obtain ⟨hgrown, heach⟩ := foldlM_eq_some (R := Grown d.orderId) .refl (fun _ _ _ => .trans)
    (fun _ _ _ _ hb => (addAuthorization_spec hb).1) h
  refine ⟨_, rfl, rfl, rfl, rfl, rfl, hfresh, hgrown, fun i hi => ?_⟩
  obtain ⟨j, hj⟩ := List.getElem?_of_mem hi
  obtain ⟨a, b, -, hb, hrest⟩ := heach (i, j) (List.mk_mem_zipIdx_iff_getElem?.2 hj)
  obtain ⟨x, hx, hcovers⟩ := (addAuthorization_spec hb).2
  exact ⟨x, hrest.authorizations x hx, hcovers⟩

end Acme

end Cabin
