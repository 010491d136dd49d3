import Cabin.Ca.Links
import Cabin.Acme.Calls

/-!
# What a commit of the ACME server changes

`Change` lists what the calls commit.  From it follow, once for all calls, what every commit keeps
(`Extends`) and the invariant of the tables (`Inv`).

* `extends_of_change`: accounts, orders, authorizations, challenges and certificates go on, a
  finished challenge and a fulfilled order as they are;
* `Inv.of_change`: the invariant is kept.
-/

namespace Cabin

namespace Acme

open X509

/-! ### Rows that are there -/

/-- The certificate has exactly the names of the identifiers. -/
def HasNames (c : Certificate) (is : List OrderIdentifier) : Prop :=
  ∃ names critical, c.cert.tbs.extensions.subjectAlternativeName = some ⟨names, critical⟩ ∧
    (∀ g, g ∈ names ↔ ∃ i ∈ is, i.generalName? = some g) ∧
    ∀ i ∈ is, ∃ g ∈ names, i.generalName? = some g

/-- Every authorization of the order is valid. -/
def AllValid (db : AcmeDb) (orderId : Str) : Prop :=
  ∀ a ∈ db.authorizations, a.orderId = orderId → a.status = .valid

/-- The certificate is for the order: its names are proven, it has these names, and it is from the
issuer of the account. -/
structure Fulfils (db : AcmeDb) (order : AcmeOrder) (certificateId : ℕ) : Prop where
  allValid : AllValid db order.id
  certificate : ∃ c ∈ db.ca.certificates, c.id = certificateId ∧ HasNames c order.identifiers ∧
    ∃ account ∈ db.accounts, account.id = order.accountId ∧ c.issuerId = account.issuerId

/-- The challenge is processing. -/
def Processing (db : AcmeDb) (challengeId : Str) : Prop :=
  ∃ c ∈ db.challenges, c.id = challengeId ∧ c.status = .processing

/-- The order is claimed, and has no certificate yet. -/
def Claimed (db : AcmeDb) (orderId : Str) : Prop :=
  ∃ o ∈ db.orders, o.id = orderId ∧ o.status = .processing ∧ o.certificateId = none

/-- No order names the certificate. -/
def Unnamed (db : AcmeDb) (certificateId : ℕ) : Prop :=
  ∀ o ∈ db.orders, o.certificateId ≠ some certificateId

/-! ### The invariant -/

/-- The invariant of the tables. -/
structure Inv (db : AcmeDb) : Prop where
  /-- An order has an account. -/
  account : ∀ o ∈ db.orders, ∃ a ∈ db.accounts, a.id = o.accountId
  /-- The identifiers of an order are well formed, and each has its authorization. -/
  identifiers : ∀ o ∈ db.orders, ∃ is, is ≠ [] ∧ (∀ i ∈ is, i.WellFormed) ∧
    o.identifiers = is.map Identifier.asJson ∧
    ∀ i ∈ is, ∃ a ∈ db.authorizations, Covers a o.id i.type i.baseValue i.wildcard
  /-- An authorization has an order. -/
  order : ∀ a ∈ db.authorizations, ∃ o ∈ db.orders, o.id = a.orderId
  /-- A challenge has an authorization, which is valid if the challenge is. -/
  authorization : ∀ c ∈ db.challenges, ∃ a ∈ db.authorizations, Proves c a ∧
    (c.status = .valid → a.status = .valid)
  /-- A valid challenge has a date, and no other. -/
  validatedAt : ∀ c ∈ db.challenges, c.status = .valid ↔ c.validatedAt ≠ none
  /-- An invalid challenge has an error, and no other. -/
  error : ∀ c ∈ db.challenges, c.status = .invalid ↔ c.error ≠ none
  /-- A valid authorization has a valid challenge. -/
  proven : ∀ a ∈ db.authorizations, a.status = .valid →
    ∃ c ∈ db.challenges, c.authzId = a.id ∧ c.status = .valid
  /-- A certificate that an order names is for the order. -/
  fulfils : ∀ o ∈ db.orders, ∀ id, o.certificateId = some id → Fulfils db o id
  /-- No two orders name one certificate. -/
  distinct : ∀ o ∈ db.orders, ∀ o' ∈ db.orders, o.certificateId ≠ none →
    o.certificateId = o'.certificateId → o = o'

/-! ### Changes -/

/-- What a call that goes on at `pc` commits. -/
inductive Change (E : Crypto) (db : AcmeDb) : Pc → AcmeDb → Prop
  | same : Change E db .returned db
  | newOrder {accountId is notBefore notAfter moment draw db'}
      (haccount : ∃ a ∈ db.accounts, a.id = accountId) (hne : is ≠ [])
      (hwf : ∀ i ∈ is, Identifier.WellFormed i)
      (h : createOrder draw accountId is notBefore notAfter moment db = some db') :
      Change E db .returned db'
  | beginChallenge {challengeId outcome} (h : (claimChallenge db challengeId).2 = true) :
      Change E db (.validate challengeId outcome) (claimChallenge db challengeId).1
  | record {challengeId authz outcome}
      (h : ∃ c ∈ db.challenges, c.id = challengeId ∧ c.status = .processing ∧ c.authzId = authz.id) :
      Change E db (.recorded challengeId) (Pc.runRecord challengeId authz outcome db)
  | claim {d account order der} (h : (claimForIssuance db order.id).2 = true) :
      Change E db (.issue d account order der) (claimForIssuance db order.id).1
  | release {orderId e} (h : Claimed db orderId) :
      Change E db (.released orderId e) (releaseClaim db orderId)
  | attach {orderId certificateId} (h : Claimed db orderId) (hunnamed : Unnamed db certificateId)
      (hfulfils : ∀ o ∈ db.orders, o.id = orderId → Fulfils db o certificateId) :
      Change E db (.attached orderId certificateId) (attachCertificate db orderId certificateId)
  | deactivate {accountId} : Change E db .returned (deactivateAccount db accountId)
  | issue {orderId certificateId ca} (h : Write E db.ca ca) :
      Change E db (.attach orderId certificateId) { db with ca }
  | authority {ca} (h : Write E db.ca ca) : Change E db .returned { db with ca }

/-! ### What goes on -/

/-- What every commit keeps. -/
structure Extends (db db' : AcmeDb) : Prop where
  account : ∀ a ∈ db.accounts, ∃ a' ∈ db'.accounts, a'.id = a.id ∧ a'.issuerId = a.issuerId
  order : ∀ o ∈ db.orders, ∃ o' ∈ db'.orders, o'.id = o.id ∧ o'.accountId = o.accountId ∧
    o'.identifiers = o.identifiers ∧ (o.certificateId ≠ none → o' = o)
  authorization : ∀ a ∈ db.authorizations, ∃ a' ∈ db'.authorizations, a'.id = a.id ∧
    Covers a' a.orderId a.identifierType a.identifierValue a.wildcard ∧
    (a.status = .valid → a'.status = .valid)
  /-- An order gets no further authorizations. -/
  noAuthorization : ∀ a' ∈ db'.authorizations,
    (∃ a ∈ db.authorizations, a.id = a'.id ∧ a.orderId = a'.orderId) ∨
      ∀ o ∈ db.orders, o.id ≠ a'.orderId
  challenge : ∀ c ∈ db.challenges, ∃ c' ∈ db'.challenges, c'.id = c.id ∧ c'.authzId = c.authzId ∧
    c'.type = c.type ∧ (c.status = .valid ∨ c.status = .invalid → c' = c)
  certificate : ∀ c ∈ db.ca.certificates, ∃ c' ∈ db'.ca.certificates, c'.id = c.id ∧
    c'.cert = c.cert ∧ c'.issuerId = c.issuerId

variable {E : Crypto} {db db' : AcmeDb}

namespace Extends

theorem refl (db : AcmeDb) : Extends db db :=
  ⟨fun a h => ⟨a, h, rfl, rfl⟩, fun o h => ⟨o, h, rfl, rfl, rfl, fun _ => rfl⟩,
    fun a h => ⟨a, h, rfl, ⟨rfl, rfl, rfl, rfl⟩, id⟩, fun a h => .inl ⟨a, h, rfl, rfl⟩,
    fun c h => ⟨c, h, rfl, rfl, rfl, fun _ => rfl⟩, fun c h => ⟨c, h, rfl, rfl, rfl⟩⟩

theorem trans {a b c : AcmeDb} (hab : Extends a b) (hbc : Extends b c) : Extends a c where
  account x hx := by
    obtain ⟨y, hy, hid, hissuer⟩ := hab.account x hx
    obtain ⟨z, hz, hid', hissuer'⟩ := hbc.account y hy
    exact ⟨z, hz, hid'.trans hid, hissuer'.trans hissuer⟩
  order x hx := by
    obtain ⟨y, hy, h₁, h₂, h₃, hsame⟩ := hab.order x hx
    obtain ⟨z, hz, h₁', h₂', h₃', hsame'⟩ := hbc.order y hy
    refine ⟨z, hz, h₁'.trans h₁, h₂'.trans h₂, h₃'.trans h₃, fun hc => ?_⟩
    obtain rfl := hsame hc
    exact hsame' hc
  authorization x hx := by
    obtain ⟨y, hy, hid, hy', hvalid⟩ := hab.authorization x hx
    obtain ⟨z, hz, hid', hz', hvalid'⟩ := hbc.authorization y hy
    exact ⟨z, hz, hid'.trans hid, ⟨hz'.orderId.trans hy'.orderId,
      hz'.identifierType.trans hy'.identifierType, hz'.identifierValue.trans hy'.identifierValue,
      hz'.wildcard.trans hy'.wildcard⟩, fun h => hvalid' (hvalid h)⟩
  noAuthorization z hz := by
    rcases hbc.noAuthorization z hz with ⟨y, hy, hid, ho⟩ | hnone
    · rcases hab.noAuthorization y hy with ⟨x, hx, hid', ho'⟩ | hnone
      · exact .inl ⟨x, hx, hid'.trans hid, ho'.trans ho⟩
      · exact .inr fun o ho' => ho ▸ hnone o ho'
    · refine .inr fun o ho => ?_
      obtain ⟨o', ho', hid, -⟩ := hab.order o ho
      exact hid ▸ hnone o' ho'
  challenge x hx := by
    obtain ⟨y, hy, h₁, h₂, h₃, hsame⟩ := hab.challenge x hx
    obtain ⟨z, hz, h₁', h₂', h₃', hsame'⟩ := hbc.challenge y hy
    refine ⟨z, hz, h₁'.trans h₁, h₂'.trans h₂, h₃'.trans h₃, fun hc => ?_⟩
    obtain rfl := hsame hc
    exact hsame' hc
  certificate x hx := by
    obtain ⟨y, hy, h₁, h₂, h₃⟩ := hab.certificate x hx
    obtain ⟨z, hz, h₁', h₂', h₃'⟩ := hbc.certificate y hy
    exact ⟨z, hz, h₁'.trans h₁, h₂'.trans h₂, h₃'.trans h₃⟩

/-- Authorizations that are all valid stay so. -/
theorem allValid (h : Extends db db') {orderId : Str} (horder : ∃ o ∈ db.orders, o.id = orderId)
    (hall : AllValid db orderId) : AllValid db' orderId := by
  intro a' ha' ho'
  rcases h.noAuthorization a' ha' with ⟨a, ha, hid, ho⟩ | hnone
  · obtain ⟨x, hx, hidx, -, hvalid⟩ := h.authorization a ha
    obtain rfl : x = a' := Table.eq_of_key hx ha' (hidx.trans hid)
    exact hvalid (hall a ha (ho.trans ho'))
  · obtain ⟨o, ho, rfl⟩ := horder
    exact absurd ho'.symm (hnone o ho)

theorem fulfils (h : Extends db db') {o o' : AcmeOrder} (ho : o ∈ db.orders) (hid : o'.id = o.id)
    (haccount : o'.accountId = o.accountId) (his : o'.identifiers = o.identifiers) {id : ℕ}
    (hf : Fulfils db o id) : Fulfils db' o' id := by
  obtain ⟨hall, c, hc, hcid, ⟨names, critical, hext, hnames⟩, a, ha, haid, hissuer⟩ := hf
  refine ⟨hid ▸ h.allValid ⟨o, ho, rfl⟩ hall, ?_⟩
  obtain ⟨c', hc', hcid', hcert, hissuer'⟩ := h.certificate c hc
  obtain ⟨a', ha', haid', hissuer''⟩ := h.account a ha
  exact ⟨c', hc', hcid'.trans hcid, ⟨names, critical, hcert ▸ hext, his ▸ hnames⟩, a', ha',
    by rw [haid', haid, haccount], by rw [hissuer', hissuer, hissuer'']⟩

end Extends

/-! ### Every commit keeps these -/

section kept

variable {challengeId orderId accountId : Str} {certificateId : ℕ}

theorem extends_claimChallenge : Extends db (claimChallenge db challengeId).1 :=
  { Extends.refl db with
    challenge := by
      intro c hc
      refine ⟨_, mem_claimChallenge.2 ⟨c, hc, rfl⟩, ?_⟩
      split_ifs with hmatch
      · exact ⟨rfl, rfl, rfl, fun hdone => by simp [hmatch.2] at hdone⟩
      · exact ⟨rfl, rfl, rfl, fun _ => rfl⟩ }

theorem extends_recordChallengeSuccess {authzId : Str} {now : ℤ} (h : Processing db challengeId) :
    Extends db (recordChallengeSuccess db challengeId authzId now) :=
  { Extends.refl db with
    authorization := by
      intro a ha
      refine ⟨_, mem_recordChallengeSuccess_authorizations.2 ⟨a, ha, rfl⟩, ?_⟩
      split_ifs
      · exact ⟨rfl, ⟨rfl, rfl, rfl, rfl⟩, fun _ => rfl⟩
      · exact ⟨rfl, ⟨rfl, rfl, rfl, rfl⟩, id⟩
    noAuthorization := by
      intro a' ha'
      obtain ⟨a, ha, rfl⟩ := mem_recordChallengeSuccess_authorizations.1 ha'
      refine .inl ⟨a, ha, ?_⟩
      split_ifs <;> exact ⟨rfl, rfl⟩
    challenge := by
      intro c hc
      refine ⟨_, mem_recordChallengeSuccess.2 ⟨c, hc, rfl⟩, ?_⟩
      split_ifs with hid
      · -- The one row that is written was processing.
        obtain ⟨x, hx, hxid, hstatus⟩ := h
        obtain rfl : x = c := Table.eq_of_key hx hc (hxid.trans hid.symm)
        exact ⟨rfl, rfl, rfl, fun hdone => by simp [hstatus] at hdone⟩
      · exact ⟨rfl, rfl, rfl, fun _ => rfl⟩ }

theorem extends_recordChallengeFailure {problem : AcmeError} :
    Extends db (recordChallengeFailure db challengeId problem) :=
  { Extends.refl db with
    challenge := by
      intro c hc
      refine ⟨_, mem_recordChallengeFailure.2 ⟨c, hc, rfl⟩, ?_⟩
      split_ifs with hmatch
      · exact ⟨rfl, rfl, rfl, fun hdone => by simp [hmatch.2] at hdone⟩
      · exact ⟨rfl, rfl, rfl, fun _ => rfl⟩ }

theorem extends_runRecord {authz : AcmeAuthorization} {outcome : Outcome}
    (h : Processing db challengeId) : Extends db (Pc.runRecord challengeId authz outcome db) := by
  cases outcome with
  | success now => exact extends_recordChallengeSuccess h
  | refused error => exact extends_recordChallengeFailure
  | crashed name => exact extends_recordChallengeFailure

theorem certificateId_of_claimed (h : Claimed db orderId) {o : AcmeOrder} (ho : o ∈ db.orders)
    (hid : o.id = orderId) : o.certificateId = none := by
  obtain ⟨x, hx, hxid, -, hnone⟩ := h
  obtain rfl : x = o := Table.eq_of_key hx ho (hxid.trans hid.symm)
  exact hnone

theorem extends_claimForIssuance : Extends db (claimForIssuance db orderId).1 :=
  { Extends.refl db with
    order := by
      intro o ho
      refine ⟨_, mem_claimForIssuance.2 ⟨o, ho, rfl⟩, ?_⟩
      split_ifs with hmatch
      · exact ⟨rfl, rfl, rfl, fun hc => absurd hmatch.1.2 hc⟩
      · exact ⟨rfl, rfl, rfl, fun _ => rfl⟩ }

theorem extends_releaseClaim (h : Claimed db orderId) : Extends db (releaseClaim db orderId) :=
  { Extends.refl db with
    order := by
      intro o ho
      refine ⟨_, mem_releaseClaim.2 ⟨o, ho, rfl⟩, ?_⟩
      split_ifs with hid
      · exact ⟨rfl, rfl, rfl, fun hc => absurd (certificateId_of_claimed h ho hid) hc⟩
      · exact ⟨rfl, rfl, rfl, fun _ => rfl⟩ }

theorem extends_attachCertificate (h : Claimed db orderId) :
    Extends db (attachCertificate db orderId certificateId) :=
  { Extends.refl db with
    order := by
      intro o ho
      refine ⟨_, mem_attachCertificate.2 ⟨o, ho, rfl⟩, ?_⟩
      split_ifs with hid
      · exact ⟨rfl, rfl, rfl, fun hc => absurd (certificateId_of_claimed h ho hid) hc⟩
      · exact ⟨rfl, rfl, rfl, fun _ => rfl⟩ }

theorem extends_deactivateAccount : Extends db (deactivateAccount db accountId) :=
  { Extends.refl db with
    account := by
      intro a ha
      refine ⟨_, mem_deactivateAccount.2 ⟨a, ha, rfl⟩, ?_⟩
      split_ifs <;> exact ⟨rfl, rfl⟩ }

theorem extends_createOrder {is : List Identifier} {notBefore notAfter : Option ℤ} {moment : ℤ}
    {draw : OrderDraw}
    (h : createOrder draw accountId is notBefore notAfter moment db = some db') :
    Extends db db' := by
  obtain ⟨order, hid, -, -, -, -, hfresh, hgrown, -⟩ := createOrder_spec h
  constructor
  · intro a ha
    exact ⟨a, hgrown.accounts ▸ ha, rfl, rfl⟩
  · intro o ho
    have hmem : o ∈ db'.orders := hgrown.orders ▸ Table.mem_upsert.2 (.inr ⟨ho, hfresh o ho⟩)
    exact ⟨o, hmem, rfl, rfl, rfl, fun _ => rfl⟩
  · intro a ha
    exact ⟨a, hgrown.authorizations a ha, rfl, ⟨rfl, rfl, rfl, rfl⟩, id⟩
  · intro a ha
    rcases hgrown.newAuthorization a ha with ha | ⟨ho, -⟩
    · exact .inl ⟨a, ha, rfl, rfl⟩
    · exact .inr fun o hmem he => hfresh o hmem (by rw [he, ho, hid])
  · intro c hc
    exact ⟨c, hgrown.challenges c hc, rfl, rfl, rfl, fun _ => rfl⟩
  · intro c hc
    exact ⟨c, hgrown.ca ▸ hc, rfl, rfl, rfl⟩

theorem extends_ca {ca : Db} (h : Write E db.ca ca) : Extends db { db with ca } :=
  { Extends.refl db with
    certificate := by
      intro c hc
      cases h with
      | @leaf d issuer x hissuer hid hsigned hserial =>
        have hlt : c.id < x.id := by
          rw [hid]
          exact Table.lt_nextId hc
        exact ⟨c, Table.mem_upsert.2 (.inr ⟨hc, hlt.ne⟩), rfl, rfl, rfl⟩
      | revoke hrow hnew hissuer h =>
        refine ⟨_, mem_mark.2 ⟨c, hc, rfl⟩, ?_⟩
        split_ifs <;> exact ⟨rfl, rfl, rfl⟩
      | _ => exact ⟨c, hc, rfl, rfl, rfl⟩ }

/-- **What every commit keeps.** -/
theorem extends_of_change {pc : Pc} (h : Change E db pc db') : Extends db db' := by
  cases h with
  | same => exact .refl db
  | newOrder haccount hne hwf h => exact extends_createOrder h
  | beginChallenge h => exact extends_claimChallenge
  | record h =>
    obtain ⟨c, hc, hid, hstatus, -⟩ := h
    exact extends_runRecord ⟨c, hc, hid, hstatus⟩
  | claim h => exact extends_claimForIssuance
  | release h => exact extends_releaseClaim h
  | attach h => exact extends_attachCertificate h
  | deactivate => exact extends_deactivateAccount
  | issue h | authority h => exact extends_ca h

end kept

/-! ### The invariant is kept -/

namespace Inv

section

variable (hinv : Inv db) (hext : Extends db db')

include hinv hext

/-- The orders that were there keep their account and the authorizations of their identifiers. -/
theorem orders_of_extends {o' : AcmeOrder} (ho' : o' ∈ db'.orders)
    (horigin : ∃ o ∈ db.orders, o.id = o'.id) :
    (∃ a ∈ db'.accounts, a.id = o'.accountId) ∧
      ∃ is, is ≠ [] ∧ (∀ i ∈ is, Identifier.WellFormed i) ∧
        o'.identifiers = is.map Identifier.asJson ∧
        ∀ i ∈ is, ∃ a ∈ db'.authorizations, Covers a o'.id i.type i.baseValue i.wildcard := by
  obtain ⟨o, ho, hid⟩ := horigin
  obtain ⟨x, hx, hxid, haccount, his, -⟩ := hext.order o ho
  obtain rfl : x = o' := Table.eq_of_key hx ho' (hxid.trans hid)
  constructor
  · obtain ⟨a, ha, haid⟩ := hinv.account o ho
    obtain ⟨a', ha', haid', -⟩ := hext.account a ha
    exact ⟨a', ha', by rw [haid', haid, haccount]⟩
  · obtain ⟨is, hne, hwf, heq, hcovers⟩ := hinv.identifiers o ho
    refine ⟨is, hne, hwf, his.trans heq, fun i hi => ?_⟩
    obtain ⟨a, ha, hc⟩ := hcovers i hi
    obtain ⟨a', ha', -, hc', -⟩ := hext.authorization a ha
    exact ⟨a', ha', ⟨by rw [hc'.orderId, hc.orderId, hid], hc'.identifierType.trans hc.identifierType,
      hc'.identifierValue.trans hc.identifierValue, hc'.wildcard.trans hc.wildcard⟩⟩

/-- Authorizations that were there keep their order. -/
theorem order_of_extends {a : AcmeAuthorization} (ha : a ∈ db.authorizations) :
    ∃ o ∈ db'.orders, o.id = a.orderId := by
  obtain ⟨o, ho, hid⟩ := hinv.order a ha
  obtain ⟨o', ho', hid', -⟩ := hext.order o ho
  exact ⟨o', ho', hid'.trans hid⟩

/-- An authorization that was valid keeps its valid challenge. -/
theorem proven_of_extends {a : AcmeAuthorization} (ha : a ∈ db.authorizations)
    (hvalid : a.status = .valid) : ∃ c ∈ db'.challenges, c.authzId = a.id ∧ c.status = .valid := by
  obtain ⟨c, hc, hauthz, hstatus⟩ := hinv.proven a ha hvalid
  obtain ⟨c', hc', -, -, -, hsame⟩ := hext.challenge c hc
  obtain rfl := hsame (.inl hstatus)
  exact ⟨c', hc', hauthz, hstatus⟩

/-- An order that had its certificate is still fulfilled. -/
theorem fulfils_of_extends {o : AcmeOrder} (ho : o ∈ db.orders) {id : ℕ}
    (hid : o.certificateId = some id) : Fulfils db' o id :=
  hext.fulfils ho rfl rfl rfl (hinv.fulfils o ho id hid)

end

variable {challengeId orderId accountId : Str} {certificateId : ℕ}

theorem claimChallenge (hinv : Inv db) : Inv (claimChallenge db challengeId).1 where
  account := hinv.account
  identifiers := hinv.identifiers
  order := hinv.order
  authorization c hc := by
    obtain ⟨x, hx, rfl⟩ := mem_claimChallenge.1 hc
    obtain ⟨a, ha, ⟨hauthz, htype⟩, hvalid⟩ := hinv.authorization x hx
    split_ifs
    · exact ⟨a, ha, ⟨hauthz, htype⟩, (nomatch ·)⟩
    · exact ⟨a, ha, ⟨hauthz, htype⟩, hvalid⟩
  validatedAt c hc := by
    obtain ⟨x, hx, rfl⟩ := mem_claimChallenge.1 hc
    have hdate := hinv.validatedAt x hx
    split_ifs with hmatch
    · simpa [hmatch.2] using hdate
    · exact hdate
  error c hc := by
    obtain ⟨x, hx, rfl⟩ := mem_claimChallenge.1 hc
    split_ifs
    · simp
    · exact hinv.error x hx
  proven a ha hvalid := hinv.proven_of_extends extends_claimChallenge ha hvalid
  fulfils o ho id hid := hinv.fulfils_of_extends extends_claimChallenge ho hid
  distinct := hinv.distinct

theorem recordChallengeFailure {problem : AcmeError} (hinv : Inv db) :
    Inv (recordChallengeFailure db challengeId problem) where
  account := hinv.account
  identifiers := hinv.identifiers
  order := hinv.order
  authorization c hc := by
    obtain ⟨x, hx, rfl⟩ := mem_recordChallengeFailure.1 hc
    obtain ⟨a, ha, ⟨hauthz, htype⟩, hvalid⟩ := hinv.authorization x hx
    split_ifs
    · exact ⟨a, ha, ⟨hauthz, htype⟩, (nomatch ·)⟩
    · exact ⟨a, ha, ⟨hauthz, htype⟩, hvalid⟩
  validatedAt c hc := by
    obtain ⟨x, hx, rfl⟩ := mem_recordChallengeFailure.1 hc
    have hdate := hinv.validatedAt x hx
    split_ifs with hmatch
    · simpa [hmatch.2] using hdate
    · exact hdate
  error c hc := by
    obtain ⟨x, hx, rfl⟩ := mem_recordChallengeFailure.1 hc
    split_ifs
    · simp
    · exact hinv.error x hx
  proven a ha hvalid := hinv.proven_of_extends extends_recordChallengeFailure ha hvalid
  fulfils o ho id hid := hinv.fulfils_of_extends extends_recordChallengeFailure ho hid
  distinct := hinv.distinct

theorem recordChallengeSuccess {authzId : Str} {now : ℤ} (hinv : Inv db)
    (h : ∃ c ∈ db.challenges, c.id = challengeId ∧ c.status = .processing ∧ c.authzId = authzId) :
    Inv (recordChallengeSuccess db challengeId authzId now) := by
  obtain ⟨c, hc, hcid, hstatus, hauthz⟩ := h
  have hext : Extends db (Acme.recordChallengeSuccess db challengeId authzId now) :=
    extends_recordChallengeSuccess ⟨c, hc, hcid, hstatus⟩
  -- The row that is written is this one.
  have hrow : ∀ x ∈ db.challenges, x.id = challengeId → x = c := fun x hx hxid =>
    Table.eq_of_key hx hc (hxid.trans hcid.symm)
  constructor
  · exact hinv.account
  · exact fun o ho => (hinv.orders_of_extends hext ho ⟨o, ho, rfl⟩).2
  · intro a ha
    obtain ⟨x, hx, rfl⟩ := mem_recordChallengeSuccess_authorizations.1 ha
    have horder := hinv.order x hx
    split_ifs <;> exact horder
  · intro y hy
    obtain ⟨x, hx, rfl⟩ := mem_recordChallengeSuccess.1 hy
    obtain ⟨a, ha, ⟨hxauthz, htype⟩, hvalid⟩ := hinv.authorization x hx
    refine ⟨_, mem_recordChallengeSuccess_authorizations.2 ⟨a, ha, rfl⟩, ?_⟩
    by_cases haid : a.id = authzId
    · simp only [haid, if_true]
      exact ⟨⟨by split_ifs <;> exact hxauthz.trans haid, by split_ifs <;> exact htype⟩, fun _ => trivial⟩
    · have hxid : x.id ≠ challengeId := by
        intro hxid
        rw [hrow x hx hxid, hauthz] at hxauthz
        exact haid hxauthz.symm
      simp only [haid, hxid, if_false]
      exact ⟨⟨hxauthz, htype⟩, hvalid⟩
  · intro y hy
    obtain ⟨x, hx, rfl⟩ := mem_recordChallengeSuccess.1 hy
    split_ifs
    · simp
    · exact hinv.validatedAt x hx
  · intro y hy
    obtain ⟨x, hx, rfl⟩ := mem_recordChallengeSuccess.1 hy
    split_ifs
    · simp
    · exact hinv.error x hx
  · intro a ha hvalid
    obtain ⟨x, hx, rfl⟩ := mem_recordChallengeSuccess_authorizations.1 ha
    split_ifs at hvalid ⊢ with hxid
    · refine ⟨_, mem_recordChallengeSuccess.2 ⟨c, hc, rfl⟩, ?_⟩
      rw [if_pos hcid]
      exact ⟨hauthz.trans hxid.symm, rfl⟩
    · exact hinv.proven_of_extends hext hx hvalid
  · exact fun o ho id hid => hinv.fulfils_of_extends hext ho hid
  · exact hinv.distinct

theorem createOrder {is : List Identifier} {notBefore notAfter : Option ℤ} {moment : ℤ}
    {draw : OrderDraw} (hinv : Inv db) (haccount : ∃ a ∈ db.accounts, a.id = accountId)
    (hne : is ≠ []) (hwf : ∀ i ∈ is, i.WellFormed)
    (h : createOrder draw accountId is notBefore notAfter moment db = some db') : Inv db' := by
  have hext := extends_createOrder h
  obtain ⟨order, hid, hoaccount, -, his, hcert, hfresh, hgrown, hcovers⟩ := createOrder_spec h
  have horders : ∀ o ∈ db'.orders, o = order ∨ o ∈ db.orders := by
    intro o ho
    rw [hgrown.orders, Table.mem_upsert] at ho
    exact ho.imp_right And.left
  have hself : order ∈ db'.orders := hgrown.orders ▸ Table.mem_upsert.2 (.inl rfl)
  constructor
  · intro o ho
    rcases horders o ho with rfl | ho'
    · exact hgrown.accounts ▸ hoaccount ▸ haccount
    · exact (hinv.orders_of_extends hext ho ⟨o, ho', rfl⟩).1
  · intro o ho
    rcases horders o ho with rfl | ho'
    · exact ⟨is, hne, hwf, his, hid ▸ hcovers⟩
    · exact (hinv.orders_of_extends hext ho ⟨o, ho', rfl⟩).2
  · intro a ha
    rcases hgrown.newAuthorization a ha with ha | ⟨ho, -⟩
    · exact hinv.order_of_extends hext ha
    · exact ⟨order, hself, hid.trans ho.symm⟩
  · intro c hc
    rcases hgrown.newChallenge c hc with hc | ⟨huntried, a, ha, -, -, hproves⟩
    · obtain ⟨a, ha, hproves, hvalid⟩ := hinv.authorization c hc
      exact ⟨a, hgrown.authorizations a ha, hproves, hvalid⟩
    · exact ⟨a, ha, hproves, fun hvalid => by simp [huntried.status] at hvalid⟩
  · intro c hc
    rcases hgrown.newChallenge c hc with hc | ⟨huntried, -⟩
    · exact hinv.validatedAt c hc
    · simp [huntried.status, huntried.validatedAt]
  · intro c hc
    rcases hgrown.newChallenge c hc with hc | ⟨huntried, -⟩
    · exact hinv.error c hc
    · simp [huntried.status, huntried.error]
  · intro a ha hvalid
    rcases hgrown.newAuthorization a ha with ha | ⟨-, hpending⟩
    · exact hinv.proven_of_extends hext ha hvalid
    · rw [hpending] at hvalid
      cases hvalid
  · intro o ho id hoid
    rcases horders o ho with rfl | ho'
    · rw [hcert] at hoid
      cases hoid
    · exact hinv.fulfils_of_extends hext ho' hoid
  · intro o ho o' ho' hne heq
    rcases horders o ho with rfl | ho
    · exact absurd hcert hne
    · rcases horders o' ho' with rfl | ho'
      · exact absurd (heq.trans hcert) hne
      · exact hinv.distinct o ho o' ho' hne heq

/-- Only the orders are written. -/
theorem of_orders {orders : Table AcmeOrder} (hinv : Inv db) (hext : Extends db { db with orders })
    (horigin : ∀ o ∈ orders, ∃ x ∈ db.orders, x.id = o.id)
    (hfulfils : ∀ o ∈ orders, ∀ id, o.certificateId = some id → Fulfils { db with orders } o id)
    (hdistinct : ∀ o ∈ orders, ∀ o' ∈ orders, o.certificateId ≠ none →
      o.certificateId = o'.certificateId → o = o') : Inv { db with orders } where
  account o ho := (hinv.orders_of_extends hext ho (horigin o ho)).1
  identifiers o ho := (hinv.orders_of_extends hext ho (horigin o ho)).2
  order _ ha := hinv.order_of_extends hext ha
  authorization := hinv.authorization
  validatedAt := hinv.validatedAt
  error := hinv.error
  proven := hinv.proven
  fulfils := hfulfils
  distinct := hdistinct

/-- Only orders without a certificate are written, and they stay without. -/
theorem of_status {orders : Table AcmeOrder} (hinv : Inv db) (hext : Extends db { db with orders })
    (horigin : ∀ o ∈ orders, ∃ x ∈ db.orders, x.id = o.id)
    (hnamed : ∀ o ∈ orders, o.certificateId ≠ none → o ∈ db.orders) : Inv { db with orders } := by
  refine hinv.of_orders hext horigin (fun o ho id hid => ?_) fun o ho o' ho' hne heq => ?_
  · exact hinv.fulfils_of_extends hext (hnamed o ho (by simp [hid])) hid
  · exact hinv.distinct o (hnamed o ho hne) o' (hnamed o' ho' (heq ▸ hne)) hne heq

theorem claimForIssuance (hinv : Inv db) : Inv (claimForIssuance db orderId).1 := by
  refine hinv.of_status extends_claimForIssuance (fun o ho => ?_) fun o ho hne => ?_
  · obtain ⟨x, hx, rfl⟩ := mem_claimForIssuance.1 ho
    exact ⟨x, hx, by split_ifs <;> rfl⟩
  · obtain ⟨x, hx, rfl⟩ := mem_claimForIssuance.1 ho
    split_ifs at hne ⊢ with hmatch
    · exact absurd hmatch.1.2 hne
    · exact hx

theorem releaseClaim (hinv : Inv db) (h : Claimed db orderId) : Inv (releaseClaim db orderId) := by
  refine hinv.of_status (extends_releaseClaim h) (fun o ho => ?_) fun o ho hne => ?_
  · obtain ⟨x, hx, rfl⟩ := mem_releaseClaim.1 ho
    exact ⟨x, hx, by split_ifs <;> rfl⟩
  · obtain ⟨x, hx, rfl⟩ := mem_releaseClaim.1 ho
    split_ifs at hne ⊢ with hid
    · exact absurd (certificateId_of_claimed h hx hid) hne
    · exact hx

theorem attachCertificate (hinv : Inv db) (h : Claimed db orderId)
    (hunnamed : Unnamed db certificateId)
    (hfulfils : ∀ o ∈ db.orders, o.id = orderId → Fulfils db o certificateId) :
    Inv (attachCertificate db orderId certificateId) := by
  have hext : Extends db (Acme.attachCertificate db orderId certificateId) :=
    extends_attachCertificate h
  -- The named orders are the one that is written, and those that were named before.
  have hnamed : ∀ o ∈ (Acme.attachCertificate db orderId certificateId).orders,
      (o.id = orderId ∧ o.certificateId = some certificateId) ∨ o ∈ db.orders := by
    intro o ho
    obtain ⟨x, hx, rfl⟩ := mem_attachCertificate.1 ho
    split_ifs with hid
    · exact .inl ⟨hid, rfl⟩
    · exact .inr hx
  refine hinv.of_orders hext (fun o ho => ?_) (fun o ho id hid => ?_) fun o ho o' ho' hne heq => ?_
  · obtain ⟨x, hx, rfl⟩ := mem_attachCertificate.1 ho
    exact ⟨x, hx, by split_ifs <;> rfl⟩
  · obtain ⟨x, hx, rfl⟩ := mem_attachCertificate.1 ho
    split_ifs at hid ⊢ with hxid
    · obtain rfl := Option.some.inj hid
      refine hext.fulfils (o := x) hx ?_ ?_ ?_ (hfulfils x hx hxid) <;> rfl
    · exact hinv.fulfils_of_extends hext hx hid
  · rcases hnamed o ho with ⟨hid, hc⟩ | hold
    · rcases hnamed o' ho' with ⟨hid', hc'⟩ | hold'
      · exact Table.eq_of_key ho ho' (hid.trans hid'.symm)
      · exact absurd (heq ▸ hc) (hunnamed o' hold')
    · rcases hnamed o' ho' with ⟨hid', hc'⟩ | hold'
      · exact absurd (heq.trans hc') (hunnamed o hold)
      · exact hinv.distinct o hold o' hold' hne heq

theorem deactivateAccount (hinv : Inv db) : Inv (deactivateAccount db accountId) :=
  { hinv with
    account := fun o ho =>
      (hinv.orders_of_extends extends_deactivateAccount ho ⟨o, ho, rfl⟩).1
    fulfils := fun _ ho _ hid => hinv.fulfils_of_extends extends_deactivateAccount ho hid }

theorem ca {ca : Db} (hinv : Inv db) (h : Write E db.ca ca) : Inv { db with ca } :=
  { hinv with
    fulfils := fun _ ho _ hid => hinv.fulfils_of_extends (extends_ca h) ho hid }

/-- Nothing is ordered yet. -/
theorem of_empty (ca : Db) (accounts : Table AcmeAccount) :
    Inv ⟨ca, accounts, .empty, .empty, .empty⟩ := by
  constructor <;> exact fun _ h => absurd h Table.not_mem_empty

/-- **Every commit keeps the invariant.** -/
theorem of_change {pc : Pc} (hinv : Inv db) (h : Change E db pc db') : Inv db' := by
  cases h with
  | same => exact hinv
  | newOrder haccount hne hwf h => exact hinv.createOrder haccount hne hwf h
  | beginChallenge h => exact hinv.claimChallenge
  | @record challengeId authz outcome h =>
    cases outcome with
    | success now => exact hinv.recordChallengeSuccess h
    | refused error => exact hinv.recordChallengeFailure
    | crashed name => exact hinv.recordChallengeFailure
  | claim h => exact hinv.claimForIssuance
  | release h => exact hinv.releaseClaim h
  | attach h hunnamed hfulfils => exact hinv.attachCertificate h hunnamed hfulfils
  | deactivate => exact hinv.deactivateAccount
  | issue h | authority h => exact hinv.ca h

end Inv

end Acme

end Cabin
