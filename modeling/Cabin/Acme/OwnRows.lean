import Cabin.Acme.Ownership

/-!
# The rows of one account

Every route that a request with a `kid` header can be sent to looks its resource up by a URL and comes
to the account in its own way: from a challenge by its authorization to the order, from a certificate
to the order that names it.  What it finds there it finds as well on a database with nothing but the
rows of the account, but for a few problems whose texts are fixed.

* `ServerDb.ownedBy` is that database;
* `Plain` are the problems, `eqUnless_*` the lookups of the routes;
* `orderAnswer_ownedBy`, `claimForIssuance_ownedBy` and so on are what the later steps find.
-/

namespace Cabin

namespace Acme

open X509

/-! ### The database of one account -/

/-- The database with the rows of the account only. -/
def ServerDb.ownedBy (db : ServerDb) (accountId : Str) : ServerDb where
  ca :=
    { db.ca with
      certificates := db.ca.certificates.delete fun c => ¬ OwnsCertificate db.toAcmeDb accountId c.id
      crls := .empty }
  accounts := db.accounts.delete fun a => a.id ≠ accountId
  orders := db.orders.delete fun o => o.accountId ≠ accountId
  authorizations := db.authorizations.delete fun a => ¬ OwnsOrder db.toAcmeDb accountId a.orderId
  challenges := db.challenges.delete fun c => ¬ OwnsAuthz db.toAcmeDb accountId c.authzId
  eabKeys := .empty
  requireEab := db.requireEab
  baseUrl := db.baseUrl

section ownedBy

variable {db : ServerDb} {A : Str}

theorem get?_orders_ownedBy {orderId : Str} {o : AcmeOrder} (h : db.orders.get? orderId = some o)
    (ho : o.accountId = A) : (db.ownedBy A).orders.get? orderId = some o :=
  Table.get?_delete h (by simp [ho])

theorem get?_authorizations_ownedBy {authzId : Str} {a : AcmeAuthorization}
    (h : db.authorizations.get? authzId = some a) (ha : OwnsOrder db.toAcmeDb A a.orderId) :
    (db.ownedBy A).authorizations.get? authzId = some a :=
  Table.get?_delete h (decide_eq_false (not_not_intro ha))

theorem get?_challenges_ownedBy {challengeId : Str} {c : AcmeChallenge}
    (h : db.challenges.get? challengeId = some c) (hc : OwnsAuthz db.toAcmeDb A c.authzId) :
    (db.ownedBy A).challenges.get? challengeId = some c :=
  Table.get?_delete h (decide_eq_false (not_not_intro hc))

theorem get?_certificates_ownedBy {certificateId : ℕ} {c : Certificate}
    (h : db.ca.certificates.get? certificateId = some c) (hc : OwnsCertificate db.toAcmeDb A certificateId) :
    (db.ownedBy A).ca.certificates.get? certificateId = some c := by
  obtain rfl : c.id = certificateId := (Table.get?_eq_some.1 h).2
  exact Table.get?_delete h (decide_eq_false (not_not_intro hc))

theorem authorizationsOf_ownedBy {orderId : Str} (h : OwnsOrder db.toAcmeDb A orderId) :
    authorizationsOf (db.ownedBy A).toAcmeDb orderId = authorizationsOf db.toAcmeDb orderId := by
  refine Table.select_delete fun a _ hmatch => decide_eq_false (not_not_intro ?_)
  obtain rfl : a.orderId = orderId := by simpa using hmatch
  exact h

theorem challengesOf_ownedBy {authzId : Str} (h : OwnsAuthz db.toAcmeDb A authzId) :
    (db.ownedBy A).challengesOf authzId = db.challengesOf authzId := by
  refine Table.select_delete fun c _ hmatch => decide_eq_false (not_not_intro ?_)
  obtain rfl : c.authzId = authzId := by simpa using hmatch
  exact h

theorem orderStatus_ownedBy {o : AcmeOrder} (h : OwnsOrder db.toAcmeDb A o.id) (now : ℤ) :
    orderStatus (db.ownedBy A).toAcmeDb o now = orderStatus db.toAcmeDb o now := by
  rw [orderStatus_eq_statusWith, orderStatus_eq_statusWith, authorizationsOf_ownedBy h]

theorem ordersOf_ownedBy : (db.ownedBy A).ordersOf A = db.ordersOf A := by
  unfold ServerDb.ordersOf
  have hselect : (db.ownedBy A).orders.select (fun o => o.accountId == A) =
      db.orders.select fun o => o.accountId == A :=
    Table.select_delete fun o _ hmatch => by simpa using hmatch
  rw [hselect]

theorem orderForCertificate_ownedBy {certificateId : ℕ} {o : AcmeOrder}
    (h : db.orderForCertificate certificateId = some o) (ho : o.accountId = A) :
    (db.ownedBy A).orderForCertificate certificateId = some o :=
  Table.head?_select_delete h (by simp [ho])

theorem ownsCertificate_of_orderForCertificate {certificateId : ℕ} {o : AcmeOrder}
    (h : db.orderForCertificate certificateId = some o) (ho : o.accountId = A) :
    OwnsCertificate db.toAcmeDb A certificateId := by
  have hmem := Table.mem_select.1 (List.mem_of_head? h)
  exact ⟨o, hmem.1, ho, by simpa using hmem.2⟩

theorem certificateBySerial_ownedBy {serialNumber : ℕ} {c : Certificate}
    (h : db.certificateBySerial serialNumber = some c) (hc : OwnsCertificate db.toAcmeDb A c.id) :
    (db.ownedBy A).certificateBySerial serialNumber = some c :=
  Table.head?_select_delete h (decide_eq_false (not_not_intro hc))

end ownedBy

/-! ### Problems whose texts are fixed -/

/-- What a request is refused with, whatever is in the rows. -/
def plainProblems : List AcmeError :=
  ["order", "authorization", "challenge", "certificate"].map notFound ++
    [{ kind := .unauthorized, detail := "this order belongs to another account" },
      { kind := .unauthorized, detail := "this certificate belongs to another account" },
      { kind := .unauthorized, detail := "this certificate was not issued by this cabin" },
      { kind := .unauthorized
        detail := "this certificate was not issued to the account that signed this request" },
      { kind := .malformed, detail := "an account already exists for that key", status := 409 }]

/-- One of these problems. -/
def Plain (e : AcmeError) : Prop := e ∈ plainProblems

instance : DecidablePred Plain := fun e => inferInstanceAs (Decidable (e ∈ plainProblems))

/-- As an exception. -/
def Raised.IsPlain (e : Raised) : Prop := ∃ problem, Plain problem ∧ e = .acme problem

/-! ### What the routes find -/

section looks

variable {E : Crypto} {d : Draw} {db : ServerDb} {account : AcmeAccount}

theorem eqUnless_orProblem {α : Type} {x y : Except AcmeError α} (h : EqUnless Plain x y) :
    EqUnless Raised.IsPlain (orProblem x) (orProblem y) := by
  rcases h with rfl | ⟨e, he, rfl⟩
  · exact .inl rfl
  · exact eqUnless_error ⟨e, he, rfl⟩

/-- The order is the account's, or it is not found. -/
theorem ownedOrder_cases (account : AcmeAccount) (orderId : Str) (db : ServerDb) :
    (∃ o ∈ db.orders, o.id = orderId ∧ o.accountId = account.id ∧
      ownedOrder account (db.orders.get? orderId) = .ok o ∧
      ownedOrder account ((db.ownedBy account.id).orders.get? orderId) = .ok o) ∨
    ∃ e, Plain e ∧ ownedOrder account (db.orders.get? orderId) = .error e := by
  cases h : db.orders.get? orderId with
  | none => exact .inr ⟨_, by decide, rfl⟩
  | some o =>
    obtain ⟨ho, hid⟩ := Table.get?_eq_some.1 h
    by_cases howner : o.accountId = account.id
    · refine .inl ⟨o, ho, hid, howner, if_pos howner, ?_⟩
      rw [get?_orders_ownedBy h howner]
      exact if_pos howner
    · exact .inr ⟨_, by decide, if_neg howner⟩

theorem eqUnless_orderResource (orderId : Str) (now : ℤ) :
    EqUnless Plain (Place.orderResource db account orderId now)
      (Place.orderResource (db.ownedBy account.id) account orderId now) := by
  unfold Place.orderResource
  rcases ownedOrder_cases account orderId db with ⟨o, ho, -, howner, hfound, hfound'⟩ | ⟨e, he, hfound⟩
  · rw [hfound, hfound']
    refine .inl ?_
    simp only [bind, Except.bind, authorizationsOf_ownedBy ⟨o, ho, rfl, howner⟩]
    rfl
  · rw [hfound]
    exact eqUnless_error he

theorem eqUnless_authzResource (authzId : Str) (now : ℤ) :
    EqUnless Plain (Place.authzResource db account authzId now)
      (Place.authzResource (db.ownedBy account.id) account authzId now) := by
  unfold Place.authzResource
  cases ha : db.authorizations.get? authzId with
  | none => exact eqUnless_error (by decide)
  | some a =>
    obtain ⟨hmem, -⟩ := Table.get?_eq_some.1 ha
    rcases ownedOrder_cases account a.orderId db with ⟨o, ho, hid, howner, hfound, hfound'⟩ |
      ⟨e, he, hfound⟩
    · have howns : OwnsOrder db.toAcmeDb account.id a.orderId := ⟨o, ho, hid, howner⟩
      rw [get?_authorizations_ownedBy ha howns]
      refine .inl ?_
      simp only [Pc.found, bind, Except.bind, hfound, hfound',
        challengesOf_ownedBy ((ownsAuthz_iff hmem).2 howns)]
      rfl
    · simp only [Pc.found, bind, Except.bind, hfound]
      exact eqUnless_error he

/-- A challenge is that of an order of the account, or it is not found. -/
theorem eqUnless_challengeResource (challengeId : Str) (payload : Bool) (outcome : Outcome) :
    EqUnless Plain (Pc.challengeResource d account challengeId payload outcome db.toAcmeDb)
      (Pc.challengeResource d account challengeId payload outcome (db.ownedBy account.id).toAcmeDb) := by
  unfold Pc.challengeResource
  cases hc : db.challenges.get? challengeId with
  | none => exact eqUnless_error (by decide)
  | some c =>
    cases ha : db.authorizations.get? c.authzId with
    | none =>
      simp only [Pc.found, ha, bind, Except.bind]
      exact eqUnless_error (by decide)
    | some a =>
      obtain ⟨hmem, hid⟩ := Table.get?_eq_some.1 ha
      rcases ownedOrder_cases account a.orderId db with ⟨o, ho, hoid, howner, hfound, hfound'⟩ |
        ⟨e, he, hfound⟩
      · have howns : OwnsOrder db.toAcmeDb account.id a.orderId := ⟨o, ho, hoid, howner⟩
        have hauthz : OwnsAuthz db.toAcmeDb account.id c.authzId := hid ▸ (ownsAuthz_iff hmem).2 howns
        rw [get?_challenges_ownedBy hc hauthz]
        simp only [Pc.found, ha, get?_authorizations_ownedBy ha howns, bind, Except.bind, hfound, hfound']
        exact .inl rfl
      · simp only [Pc.found, ha, bind, Except.bind, hfound]
        exact eqUnless_error he

theorem eqUnless_finalizeOrder (orderId : Str) (csr : Option (Except AcmeError CsrDer)) :
    EqUnless Plain (Pc.finalizeOrder E d account orderId csr db.toAcmeDb)
      (Pc.finalizeOrder E d account orderId csr (db.ownedBy account.id).toAcmeDb) := by
  unfold Pc.finalizeOrder
  rcases ownedOrder_cases account orderId db with ⟨o, ho, -, howner, hfound, hfound'⟩ | ⟨e, he, hfound⟩
  · rw [hfound, hfound']
    refine .inl ?_
    simp only [bind, Except.bind, Pc.checkFinalize, orderStatus_ownedBy ⟨o, ho, rfl, howner⟩]
  · rw [hfound]
    exact eqUnless_error he

theorem eqUnless_certificateOf (rawId : Str) :
    EqUnless Plain (certificateOf db rawId account.id)
      (certificateOf (db.ownedBy account.id) rawId account.id) := by
  unfold certificateOf
  refine eqUnless_bind (.inl rfl) fun certId _ => ?_
  cases ho : db.orderForCertificate certId with
  | none => exact eqUnless_error (by decide)
  | some o =>
    by_cases howner : o.accountId = account.id
    · have howns := ownsCertificate_of_orderForCertificate ho howner
      rw [orderForCertificate_ownedBy ho howner]
      refine eqUnless_bind (.inl rfl) fun _ _ => ?_
      cases hc : db.ca.certificates.get? certId with
      | none => exact eqUnless_error (by decide)
      | some c =>
        rw [get?_certificates_ownedBy hc howns]
        exact .inl rfl
    · dsimp only
      rw [refuse, if_pos howner]
      exact eqUnless_error (by decide)

theorem eqUnless_revocableCertificate (submitted : Cert) :
    EqUnless Plain (revocableCertificate db account submitted)
      (revocableCertificate (db.ownedBy account.id) account submitted) := by
  unfold revocableCertificate storedCertificate
  cases hc : db.certificateBySerial submitted.tbs.serialNumber with
  | none => exact eqUnless_error (by decide)
  | some c =>
    dsimp only
    by_cases hsame : c.cert = submitted
    · cases ho : db.orderForCertificate c.id with
      | none =>
        simp only [if_pos hsame, bind, Except.bind, ho, Option.all_none, refuse]
        exact eqUnless_error (by decide)
      | some o =>
        by_cases howner : o.accountId = account.id
        · have howns := ownsCertificate_of_orderForCertificate ho howner
          rw [certificateBySerial_ownedBy hc howns]
          simp only [if_pos hsame, bind, Except.bind, ho, orderForCertificate_ownedBy ho howner]
          exact .inl rfl
        · have hother : (some o).all (fun o => o.accountId ≠ account.id) = true := by simpa using howner
          simp only [if_pos hsame, bind, Except.bind, ho, refuse, if_pos hother]
          exact eqUnless_error (by decide)
    · rw [if_neg hsame]
      exact eqUnless_error (by decide)

end looks

/-! ### What an answer is read from -/

/-- What the answer of a route that has worked on an order is read from is the account's. -/
def KidRequest.Answerable (db : AcmeDb) (accountId : Str) (r : KidRequest) : Prop :=
  match r.route with
  | .newOrder _ _ _ draw => OwnsOrder db accountId draw.orderId
  | .finalize orderId _ => OwnsOrder db accountId orderId
  | .challenge challengeId _ => OwnsChallenge db accountId challengeId
  | _ => True

theorem KidRequest.Answerable.kept {db db' : AcmeDb} {A : Str} {r : KidRequest}
    (h : r.Answerable db A) (hpersists : Persists db db') : r.Answerable db' A := by
  obtain ⟨d, post, route⟩ := r
  cases route with
  | newOrder | finalize => exact hpersists.ownsOrder h
  | challenge => exact hpersists.ownsChallenge h
  | _ => trivial

section answers

variable {db : ServerDb} {A : Str}

/-- The order is there, and its authorizations are the account's. -/
theorem exists_order_ownedBy {orderId : Str} (h : OwnsOrder db.toAcmeDb A orderId) :
    ∃ o, db.orders.get? orderId = some o ∧ (db.ownedBy A).orders.get? orderId = some o ∧
      authorizationsOf (db.ownedBy A).toAcmeDb o.id = authorizationsOf db.toAcmeDb o.id := by
  obtain ⟨o, ho, rfl, howner⟩ := h
  have hget : db.orders.get? o.id = some o := Table.get?_key ho
  exact ⟨o, hget, get?_orders_ownedBy hget howner, authorizationsOf_ownedBy ⟨o, ho, rfl, howner⟩⟩

theorem exists_challenge_ownedBy {challengeId : Str} (h : OwnsChallenge db.toAcmeDb A challengeId) :
    ∃ c, db.challenges.get? challengeId = some c ∧
      (db.ownedBy A).challenges.get? challengeId = some c := by
  obtain ⟨c, hc, rfl, howns⟩ := h
  have hget : db.challenges.get? c.id = some c := Table.get?_key hc
  exact ⟨c, hget, get?_challenges_ownedBy hget howns⟩

theorem orderAnswer_ownedBy {r : KidRequest} (h : r.Answerable db.toAcmeDb A) :
    Place.orderAnswer r (db.ownedBy A) = Place.orderAnswer r db := by
  obtain ⟨d, post, route⟩ := r
  cases route with
  | newOrder | finalize =>
    obtain ⟨o, ho, ho', hauthorizations⟩ := exists_order_ownedBy h
    simp only [Place.orderAnswer, ho, ho', Option.map_some, hauthorizations]
    rfl
  | challenge =>
    obtain ⟨c, hc, hc'⟩ := exists_challenge_ownedBy h
    simp only [Place.orderAnswer, hc, hc']
    rfl
  | _ => rfl

end answers

/-! ### What the writes find -/

section finds

variable {E : Crypto} {db : ServerDb} {A : Str}

theorem claimChallenge_ownedBy {challengeId : Str} (h : OwnsChallenge db.toAcmeDb A challengeId) :
    (claimChallenge (db.ownedBy A).toAcmeDb challengeId).2 =
      (claimChallenge db.toAcmeDb challengeId).2 := by
  obtain ⟨c, hc, rfl, howns⟩ := h
  rw [Bool.eq_iff_iff, claimChallenge_eq_true, claimChallenge_eq_true]
  constructor
  · rintro ⟨x, hx, hid, hpending⟩
    exact ⟨x, (Table.mem_delete.1 hx).1, hid, hpending⟩
  · rintro ⟨x, hx, hid, hpending⟩
    obtain rfl : x = c := Table.eq_of_key hx hc hid
    exact ⟨x, Table.mem_delete.2 ⟨hx, decide_eq_false (not_not_intro howns)⟩, rfl, hpending⟩

theorem claimForIssuance_ownedBy {orderId : Str} (h : OwnsOrder db.toAcmeDb A orderId) :
    (claimForIssuance (db.ownedBy A).toAcmeDb orderId).2 =
      (claimForIssuance db.toAcmeDb orderId).2 := by
  obtain ⟨o, ho, rfl, howner⟩ := h
  rw [Bool.eq_iff_iff, claimForIssuance_eq_true, claimForIssuance_eq_true]
  constructor
  · rintro ⟨x, hx, hid, hfree⟩
    exact ⟨x, (Table.mem_delete.1 hx).1, hid, hfree⟩
  · rintro ⟨x, hx, hid, hfree⟩
    obtain rfl : x = o := Table.eq_of_key hx ho hid
    exact ⟨x, Table.mem_delete.2 ⟨hx, by simp [howner]⟩, rfl, hfree⟩

/-- An issuance that fails does so with any other certificates and lists, or the database has refused
it. -/
theorem signCsrAndStore_eq_error {d : Draw} {ca : Db} {csr : CaX509.Parsed Leaf.Csr}
    {opts : Leaf.CsrOptions} {issuerId : ℕ} {e : Failure} (certificates : Table Certificate)
    (crls : Table CrlState)
    (h : Certs.signCsrAndStore E d ca .acme csr .server Leaf.defaultDays opts (some issuerId) .acme =
      .error e) :
    e.kind = .database ∨
      Certs.signCsrAndStore E d { ca with certificates, crls } .acme csr .server Leaf.defaultDays opts
        (some issuerId) .acme = .error e := by
  simp only [Certs.signCsrAndStore, bind_eq_error] at h ⊢
  rcases h with h | ⟨issuer, hissuer, h | ⟨credentials, hcredentials, h | ⟨leaf, hleaf, h |
    ⟨sans, hsans, h | ⟨stored, -, h⟩⟩⟩⟩⟩
  · exact .inr (.inl h)
  · exact .inr (.inr ⟨issuer, hissuer, .inl h⟩)
  · exact .inr (.inr ⟨issuer, hissuer, .inr ⟨credentials, hcredentials, .inl h⟩⟩)
  · exact .inr (.inr ⟨issuer, hissuer, .inr ⟨credentials, hcredentials, .inr ⟨leaf, hleaf, .inl h⟩⟩⟩)
  · -- The row is refused, or the commit is.
    simp only [Certs.store, commit, Draw.attempt, bind_eq_error, refuse_eq_error] at h
    rcases h with ⟨-, rfl⟩ | ⟨-, -, ⟨-, rfl⟩ | ⟨-, -, h⟩⟩
    · exact .inl rfl
    · exact .inl rfl
    · cases h
  · cases h

/-- A list that cannot be made cannot with any other certificates and lists, or it fails with an
exception that is not for the client. -/
theorem nextCrl_eq_error {d : Draw} {ca : Db} {issuerId : ℕ} {moment : ℤ} {e : Failure}
    (certificates : Table Certificate) (crls : Table CrlState)
    (h : Crl.nextCrl E d ca issuerId moment = .error e) :
    revokeProblem e = .crash "Exception" ∨
      Crl.nextCrl E d { ca with certificates, crls } issuerId moment = .error e := by
  simp only [Crl.nextCrl, Crl.signedCrl, Crl.buildCrl, Draw.attempt, bind_eq_error] at h ⊢
  rcases h with h | ⟨issuer, hissuer, (h | ⟨u, htime, h | ⟨aki, -, h | ⟨-, -, h | ⟨-, -, h⟩⟩⟩⟩) |
    ⟨crl, -, h⟩⟩
  · exact .inr (.inl h)
  · obtain ⟨-, rfl⟩ := refuse_eq_error.1 h
    exact .inl rfl
  · exact .inr (.inr ⟨issuer, hissuer, .inl (.inr ⟨u, htime, .inl h⟩)⟩)
  · obtain ⟨-, rfl⟩ := refuse_eq_error.1 h
    exact .inl rfl
  · obtain ⟨-, rfl⟩ := refuse_eq_error.1 h
    exact .inl rfl
  · cases h
  · cases h

/-- Whether a revocation raises: the list of the issuer is made, and it is committed. -/
theorem run_revokeCertificate_snd {d : Draw} {ca : Db} {c : Certificate} (hc : c ∈ ca.certificates)
    (reason : RevocationReason) :
    ((Op.revokeCertificate .acme c.id reason none).run E d ca).2 =
      if c.revokedAt.isSome then .ok () else
        Crl.nextCrl E d { ca with certificates := Crl.mark ca.certificates c.id d.now reason }
          c.issuerId d.now >>= fun _ => d.attempt .commit ⟨.database, "commit failed"⟩ := by
  have hget : (Session.start ca).working.certificates.get? c.id = some c := Table.get?_key hc
  have hmay : ¬ Grants.mayUseIssuer (Session.start ca).working .acme c.issuerId = false := by
    simp [Grants.mayUseIssuer, Principal.unrestricted]
  simp only [Op.run, Crl.revokeCertificate, hget]
  rw [if_neg hmay]
  by_cases hrevoked : c.revokedAt.isSome = true
  · rw [if_pos hrevoked, if_pos hrevoked]
  · rw [if_neg hrevoked, if_neg hrevoked]
    simp only [Session.start, Crl.regenerateCrl, Session.commit, Option.getD_none, Option.getD_some]
    cases Crl.nextCrl E d { ca with certificates := Crl.mark ca.certificates c.id d.now reason }
        c.issuerId d.now with
    | error e => rfl
    | ok state =>
      dsimp only [bind, Except.bind]
      cases d.attempt .commit ⟨.database, "commit failed"⟩ <;> rfl

/-- The same for a revocation of a certificate of the account. -/
theorem revokeCertificate_eq_error {d : Draw} {certificateId : ℕ} {reason : RevocationReason}
    {e : Failure} (howns : OwnsCertificate db.toAcmeDb A certificateId)
    (hthere : HasCertificate db.toAcmeDb certificateId)
    (h : ((Op.revokeCertificate .acme certificateId reason none).run E d db.ca).2 = .error e) :
    revokeProblem e = .crash "Exception" ∨
      ((Op.revokeCertificate .acme certificateId reason none).run E d (db.ownedBy A).ca).2 =
        .error e := by
  obtain ⟨c, hc, rfl⟩ := hthere
  have hc' : c ∈ (db.ownedBy A).ca.certificates :=
    Table.mem_delete.2 ⟨hc, decide_eq_false (not_not_intro howns)⟩
  rw [run_revokeCertificate_snd hc] at h
  rw [run_revokeCertificate_snd hc']
  by_cases hrevoked : c.revokedAt.isSome = true
  · rw [if_pos hrevoked] at h
    cases h
  · rw [if_neg hrevoked] at h ⊢
    rcases bind_eq_error.1 h with h | ⟨state, -, h⟩
    · refine (nextCrl_eq_error (Crl.mark (db.ownedBy A).ca.certificates c.id d.now reason) .empty
        h).imp_right fun h => bind_eq_error.2 (.inl h)
    · obtain ⟨-, rfl⟩ := refuse_eq_error.1 h
      exact .inl rfl

end finds

/-! ### The places of an account -/

/-- The call works on the account. -/
def AccountPlace.IsOf (accountId : Str) : AccountPlace → Prop
  | .deactivate account | .setContacts account _ | .conflict account _ | .rotate account _
  | .answered _ account => account.id = accountId
  | _ => False

section maintenance

variable {db : ServerDb} {A : Str}

theorem hasAccount_ownedBy : (db.ownedBy A).accountDb.HasAccount A ↔ db.accountDb.HasAccount A := by
  constructor
  · rintro ⟨a, ha, hid⟩
    exact ⟨a, (Table.mem_delete.1 ha).1, hid⟩
  · rintro ⟨a, ha, hid⟩
    exact ⟨a, Table.mem_delete.2 ⟨ha, by simp [hid]⟩, hid⟩

theorem findAccountByKey_ownedBy {thumbprint : Str}
    (h : db.accountDb.findAccountByKey thumbprint = none) :
    (db.ownedBy A).accountDb.findAccountByKey thumbprint = none := by
  unfold AccountDb.findAccountByKey at h ⊢
  rw [List.head?_eq_none_iff, List.eq_nil_iff_forall_not_mem] at h ⊢
  intro a ha
  obtain ⟨ha, hkey⟩ := Table.mem_select.1 ha
  exact h a (Table.mem_select.2 ⟨(Table.mem_delete.1 ha).1, hkey⟩)

/-- A step of the account resource or of key-change goes where it would go with the row of the account
alone, or it is refused with a fixed text, or fails. -/
theorem at?_maintenance_ownedBy {place place' : AccountPlace} (hof : place.IsOf A)
    (h : (AccountPlace.maintenance place).at? db.accountDb = some place') :
    (AccountPlace.maintenance place).at? (db.ownedBy A).accountDb = some place' ∨
      ∃ e, (Raised.IsPlain e ∨ ∃ name, e = .crash name) ∧ place' = .raised e := by
  cases place with
  | deactivate account =>
    obtain rfl : account.id = A := hof
    simp only [AccountPlace.maintenance, Action.at?, AccountDb.change?, hasAccount_ownedBy] at h ⊢
    split_ifs at h ⊢ <;> cases h
    · exact .inl rfl
    · exact .inr ⟨_, .inr ⟨_, rfl⟩, rfl⟩
  | setContacts account contacts =>
    obtain rfl : account.id = A := hof
    simp only [AccountPlace.maintenance, Action.at?, AccountDb.change?, hasAccount_ownedBy] at h ⊢
    split_ifs at h ⊢ <;> cases h
    · exact .inl rfl
    · exact .inr ⟨_, .inr ⟨_, rfl⟩, rfl⟩
  | conflict account newKey =>
    simp only [AccountPlace.maintenance, Action.at?] at h ⊢
    cases hfound : db.accountDb.findAccountByKey newKey.thumbprint with
    | some a =>
      rw [hfound] at h
      cases h
      exact .inr ⟨_, .inl ⟨_, by decide, rfl⟩, rfl⟩
    | none =>
      rw [findAccountByKey_ownedBy hfound]
      exact .inl (hfound ▸ h)
  | rotate account newKey =>
    obtain rfl : account.id = A := hof
    simp only [AccountPlace.maintenance, Action.at?] at h ⊢
    rcases rotate?_cases db.accountDb account.id newKey with ⟨hfresh, hok⟩ | ⟨-, herror⟩ | ⟨-, herror⟩
    · have hthere : db.accountDb.HasAccount account.id := by
        by_contra hnone
        rw [AccountDb.rotate?, if_pos hnone] at hok
        cases hok
      rcases rotate?_cases (db.ownedBy account.id).accountDb account.id newKey with
        ⟨-, hok'⟩ | ⟨hnone, -⟩ | ⟨⟨x, hx, hne, -⟩, -⟩
      · simp only [hok] at h
        cases h
        simp only [hok']
        exact .inl rfl
      · exact absurd (hasAccount_ownedBy.2 hthere) hnone
      · -- No other row is there.
        have hsame := (Table.mem_delete.1 hx).2
        exact absurd (by simpa using hsame) hne
    · simp only [herror] at h
      cases h
      exact .inr ⟨_, .inr ⟨_, rfl⟩, rfl⟩
    · simp only [herror] at h
      cases h
      exact .inr ⟨_, .inr ⟨_, rfl⟩, rfl⟩
  | _ => cases h

end maintenance

end Acme

end Cabin
