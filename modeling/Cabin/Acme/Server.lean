import Cabin.Acme.AccountSteps
import Cabin.Acme.Issuance

/-!
# The resources of an account

Every route that a request with a `kid` header can be sent to (`acme/api_order.py`,
`acme/api_finalize.py`, `acme/api_account.py`), with its answer (`acme/http.py`), on one database.

The routes that place, prove and finalize an order go through the places of `Cabin.Acme.Calls`, the
account resource and key-change through those of `Cabin.Acme.Accounts`; here they are looked up by
their URL, and answered.  What else writes into the database is a `Door`: new-account, revocation by
the key of the certificate, the user interface and the API.

* `Route` is what is asked for, `Place` where the request is, `Place.act` its program;
* `Answer` is what the client gets, row by row of what it is made of;
* `server` is all requests at once, and the other doors.
-/

namespace Cabin

namespace Acme

open X509

/-! ### The database -/

/-- All tables that an ACME request can read or write. -/
structure ServerDb extends AcmeDb where
  /-- The table `acme_eab_keys`. -/
  eabKeys : Table AcmeEabKey
  /-- The setting `acme_require_eab`. -/
  requireEab : Bool
  /-- The setting `base_url`. -/
  baseUrl : Str

namespace ServerDb

/-- What the account resources work on. -/
def accountDb (db : ServerDb) : AccountDb :=
  ⟨db.ca.cas, db.requireEab, db.baseUrl, db.accounts, db.eabKeys⟩

/-- After a write of the account resources. -/
def withAccounts (db : ServerDb) (a : AccountDb) : ServerDb :=
  { db with accounts := a.accounts, eabKeys := a.eabKeys }

/-- After a write of the order resources. -/
def withOrders (db : ServerDb) (a : AcmeDb) : ServerDb := { db with toAcmeDb := a }

/-- The order that has produced a certificate. -/
def orderForCertificate (db : ServerDb) (certificateId : ℕ) : Option AcmeOrder :=
  (db.orders.select fun o => o.certificateId == some certificateId).head?

/-- The certificate with a serial number. -/
def certificateBySerial (db : ServerDb) (serialNumber : ℕ) : Option Certificate :=
  (db.ca.certificates.select fun c => c.serialNumber == serialNumber).head?

/-- The challenges of an authorization. -/
def challengesOf (db : ServerDb) (authzId : Str) : List AcmeChallenge :=
  db.challenges.select fun c => c.authzId == authzId

/-- The orders of an account, the oldest first. -/
def ordersOf (db : ServerDb) (accountId : Str) : List AcmeOrder :=
  (db.orders.select fun o => o.accountId == accountId).mergeSort fun a b => a.createdAt ≤ b.createdAt

end ServerDb

/-! ### Answers -/

def orderPath : Str := Str.of "/acme/order/"

def authzPath : Str := Str.of "/acme/authz/"

def challengePath : Str := Str.of "/acme/chal/"

def certPath : Str := Str.of "/acme/cert/"

/-- The body of an account. -/
structure AccountJson where
  status : AccountStatus
  orders : Str
  contact : List Str

/-- The body of a challenge. -/
structure ChallengeJson where
  type : ChallengeType
  url : Str
  status : ChallengeStatus
  token : Str
  validated : Option ℤ
  error : Option AcmeError

/-- The body of an authorization. -/
structure AuthzJson where
  status : AuthorizationStatus
  expires : ℤ
  identifierType : IdentifierType
  identifierValue : Str
  challenges : List ChallengeJson
  wildcard : Bool

/-- The body of an order. -/
structure OrderJson where
  status : OrderStatus
  expires : ℤ
  identifiers : List OrderIdentifier
  authorizations : List Str
  finalize : Str
  notBefore : Option ℤ
  notAfter : Option ℤ
  certificate : Option Str

/-- What a request is answered with. -/
inductive Answer where
  /-- An order, and its URL if it is new. -/
  | order (status : ℕ) (body : OrderJson) (location : Option Str)
  /-- An authorization. -/
  | authz (body : AuthzJson)
  /-- A challenge, and the URL of its authorization. -/
  | challenge (body : ChallengeJson) (up : Str)
  /-- A certificate and its chain, and the URLs of its other chains. -/
  | certificate (chain : List Cert) (alternates : List Str)
  /-- An account. -/
  | account (status : ℕ) (body : AccountJson)
  /-- The URLs of orders. -/
  | orders (urls : List Str)
  /-- Nothing: the certificate is revoked. -/
  | revoked

/-- `account_json`. -/
def accountJson (base : Str) (account : AcmeAccount) : AccountJson where
  status := account.status
  orders := base ++ (accountPath ++ account.id ++ Str.of "/orders")
  contact := account.contacts.getD []

/-- `challenge_json`. -/
def challengeJson (base : Str) (challenge : AcmeChallenge) : ChallengeJson where
  type := challenge.type
  url := base ++ (challengePath ++ challenge.id)
  status := challenge.status
  token := challenge.token
  validated := challenge.validatedAt
  error := challenge.error

/-- `authz_json`, of an authorization and its challenges. -/
def authzJson (base : Str) (authz : AcmeAuthorization) (challenges : List AcmeChallenge) (now : ℤ) :
    AuthzJson where
  status := authorizationStatus authz now
  expires := authz.expiresAt
  identifierType := authz.identifierType
  identifierValue := authz.identifierValue
  challenges := challenges.map (challengeJson base)
  wildcard := authz.wildcard

/-- `order_status`, of an order and its authorizations. -/
def statusWith (order : AcmeOrder) (authorizations : List AcmeAuthorization) (now : ℤ) : OrderStatus :=
  if order.status ≠ .pending ∧ order.status ≠ .ready then order.status
  else if hasExpired order.expiresAt now then .invalid
  else statusOf (authorizations.map fun a => authorizationStatus a now)

theorem orderStatus_eq_statusWith (db : AcmeDb) (order : AcmeOrder) (now : ℤ) :
    orderStatus db order now = statusWith order (authorizationsOf db order.id) now := rfl

/-- `order_json`, of an order and its authorizations. -/
def orderJson (base : Str) (order : AcmeOrder) (authorizations : List AcmeAuthorization) (now : ℤ) :
    OrderJson where
  status := statusWith order authorizations now
  expires := order.expiresAt
  identifiers := order.identifiers
  authorizations := authorizations.map fun a => base ++ (authzPath ++ a.id)
  finalize := base ++ (orderPath ++ order.id ++ Str.of "/finalize")
  notBefore := order.notBefore
  notAfter := order.notAfter
  certificate := order.certificateId.map fun id => base ++ (certPath ++ Str.ofNat id)

/-- `chain_pem`: the certificate, then its chain. -/
def chainPem (row : Certificate) (chain : Service.Chain) : List Cert :=
  row.cert :: chain.rows.map CaCertificate.cert

/-! ### The parts of a request -/

/-- An error that is a problem for the client. -/
def orProblem {α : Type} : Except AcmeError α → Except Raised α
  | .ok a => .ok a
  | .error e => .error (.acme e)

/-- The number that a text of digits stands for. -/
def decimal (s : Str) : ℕ := s.foldl (fun n c => 10 * n + (c - 0x30)) 0

/-- The largest id of a row. -/
def maxCertId : ℕ := 2 ^ 63 - 1

/-- The id of a row in a URL: in ASCII digits, without leading zeros, and not too large. -/
def certificateId (rawId : Str) : Except AcmeError ℕ := do
  refuse (rawId = [] ∨ rawId.all Str.isDigit = false ∨ (Str.ofNat maxCertId).length < rawId.length)
    (notFound "certificate")
  refuse (Str.ofNat (decimal rawId) ≠ rawId ∨ maxCertId < decimal rawId) (notFound "certificate")
  pure (decimal rawId)

/-- The certificate behind a URL, if an order of the account has produced it. -/
def certificateOf (db : ServerDb) (rawId accountId : Str) : Except AcmeError Certificate := do
  let certId ← certificateId rawId
  match db.orderForCertificate certId with
  | none => .error (notFound "certificate")
  | some order =>
    refuse (order.accountId ≠ accountId)
      { kind := .unauthorized, detail := "this certificate belongs to another account" }
    Pc.found "certificate" (db.ca.certificates.get? certId)

/-- The codes of the revocation reasons. -/
def revocationReasons : List (String × RevocationReason) :=
  [("0", .unspecified), ("-0", .unspecified), ("1", .keyCompromise), ("3", .affiliationChanged),
    ("4", .superseded), ("5", .cessationOfOperation)]

/-- A number without a fraction or an exponent. -/
def isInt (text : Str) : Bool :=
  let digits := if text.head? = some 0x2D then text.tail else text
  digits ≠ [] && digits.all Str.isDigit

/-- The reason of a revocation. -/
def parseReason : Option Json → Except AcmeError RevocationReason
  | none | some .null => .ok .unspecified
  | some (.num code) =>
    if isInt code then
      match revocationReasons.find? fun r => Str.of r.1 == code with
      | some r => .ok r.2
      | none =>
        .error { kind := .badRevocationReason
                 detail := s!"cabin does not revoke for reason code {Str.text code}" }
    else .error { kind := .malformed, detail := "the revocation reason must be an RFC 5280 code" }
  | some _ => .error { kind := .malformed, detail := "the revocation reason must be an RFC 5280 code" }

/-- The row that a certificate is. -/
def storedCertificate (db : ServerDb) (submitted : Cert) : Except AcmeError Certificate :=
  match db.certificateBySerial submitted.tbs.serialNumber with
  | some row =>
    if row.cert = submitted then .ok row
    else .error { kind := .unauthorized, detail := "this certificate was not issued by this cabin" }
  | none => .error { kind := .unauthorized, detail := "this certificate was not issued by this cabin" }

/-- The certificate of an account that is to be revoked. -/
def revocableCertificate (db : ServerDb) (account : AcmeAccount) (submitted : Cert) :
    Except AcmeError Certificate := do
  let row ← storedCertificate db submitted
  refuse ((db.orderForCertificate row.id).all fun o => o.accountId ≠ account.id)
    { kind := .unauthorized
      detail := "this certificate was not issued to the account that signed this request" }
  refuse row.revokedAt.isSome
    { kind := .alreadyRevoked, detail := "this certificate has already been revoked" }
  pure row

/-- What a failed issuance is answered with. -/
def issueProblem (e : Failure) : Raised :=
  match e.kind with
  | .nameConstraint => .acme { kind := .rejectedIdentifier, detail := e.message }
  | .issue | .caNotConfigured | .secrets | .value | .issuerRequired | .unknownIssuer | .issuerRetired =>
    .acme { kind := .serverInternal
            detail := cut 400 s!"this certificate could not be issued: {e.message}" }
  | _ => .crash "Exception"

/-- What a failed revocation is answered with. -/
def revokeProblem (e : Failure) : Raised :=
  match e.kind with
  | .caNotConfigured | .revocation | .secrets =>
    .acme { kind := .serverInternal
            detail := cut 400 s!"this certificate could not be revoked: {e.message}" }
  | _ => .crash "Exception"

/-! ### Requests -/

/-- What is asked for, with what the payload gives. -/
inductive Route where
  /-- `new-order`: the timestamps are as `parse_timestamp` returns them. -/
  | newOrder (identifiers : Option Json) (notBefore notAfter : Except AcmeError (Option ℤ))
      (draw : OrderDraw)
  | order (orderId : Str)
  | authz (authzId : Str)
  /-- A challenge, and how the attempt at it would end. -/
  | challenge (challengeId : Str) (outcome : Outcome)
  /-- `finalize`: the request in the payload, or what is wrong with it. -/
  | finalize (orderId : Str) (csr : Except AcmeError CsrDer)
  | certificate (certId : Str)
  | alternate (certId anchorId : Str)
  /-- `revoke-cert`: the certificate in the payload, or what is wrong with it, and the reason. -/
  | revokeCert (certificate : Except AcmeError Cert) (reason : Option Json)
  | account (accountId : Str)
  | orders (accountId : Str)
  | keyChange

/-- A request with a `kid` header. -/
structure KidRequest where
  /-- What is random about it, and its moment. -/
  draw : Draw
  /-- Its signature. -/
  post : KidPost
  /-- What it asks for. -/
  route : Route

/-- Where a request is. -/
inductive Place where
  /-- It comes in. -/
  | start
  /-- It is verified: the account, and the payload. -/
  | verified (account : AcmeAccount) (payload : Option Json)
  /-- It works on an order. -/
  | ordering (account : AcmeAccount) (pc : Pc)
  /-- It is answered, and goes on as a validation. -/
  | validating (account : AcmeAccount) (answer : Answer) (pc : Pc)
  /-- It is about to revoke a certificate. -/
  | revoking (account : AcmeAccount) (certificateId : ℕ) (reason : RevocationReason)
  /-- It works on the account. -/
  | maintaining (account : AcmeAccount) (place : AccountPlace)
  /-- It is answered. -/
  | answered (account : AcmeAccount) (answer : Answer)
  /-- It is refused, or has failed. -/
  | refused (account : Option AcmeAccount) (e : Raised)
  /-- The chain of a certificate has no end. -/
  | endless (account : AcmeAccount)

namespace Place

/-- The account that a request is for, once it is verified. -/
def account? : Place → Option Str
  | start => none
  | verified account _ | ordering account _ | validating account _ _ | revoking account _ _
  | maintaining account _ | answered account _ | endless account => some account.id
  | refused account _ => account.map AcmeAccount.id

/-- From a check. -/
def orRefuse (account : AcmeAccount) : Except Raised Place → Place
  | .ok place => place
  | .error e => refused (some account) e

/-- A place of an order resource; what ends in an exception is refused. -/
def ofPc (account : AcmeAccount) : Pc → Place
  | .raised e => refused (some account) (.acme e)
  | .released _ e => refused (some account) (issueProblem e)
  | .crashed | .stranded _ | .orphaned .. => refused (some account) (.crash "DBAPIError")
  | pc => ordering account pc

/-- A place of the account resource. -/
def ofAccountPlace (account : AcmeAccount) : AccountPlace → Place
  | .raised e => refused (some account) e
  | place => maintaining account place

/-- The paths of a certificate, and what is done with them. -/
def withChains (db : ServerDb) (account : AcmeAccount) (row : Certificate) (now : ℤ)
    (next : Service.ChainSet → Place) : Place :=
  match Service.chainsFor (db.ca.cas.rows.length + 1) db.ca.cas row.issuerId now with
  | none => endless account
  | some (.error e) =>
    if e.kind = .unknownIssuer then
      refused (some account) (.acme
        { kind := .serverInternal, detail := "no CA is configured on this cabin instance" })
    else refused (some account) (.crash "Exception")
  | some (.ok chains) => next chains

/-- The URL of an alternate path. -/
def alternateUrl (base certId : Str) (chain : Service.Chain) : Option Str :=
  chain.anchorId.map fun anchor => base ++ (certPath ++ certId ++ Str.of "/" ++ Str.ofNat anchor)

/-- A certificate is fetched without a payload. -/
def checkFetch (payload : Option Json) : Except Raised Unit :=
  refuse payload.isSome
    (malformed "a certificate is fetched with a POST-as-GET request, which carries no payload")

/-- `certificate_resource`. -/
def certificateResource (db : ServerDb) (account : AcmeAccount) (payload : Option Json)
    (certId : Str) (now : ℤ) : Except Raised Place := do
  checkFetch payload
  let row ← orProblem (certificateOf db certId account.id)
  pure (withChains db account row now fun chains =>
    answered account (.certificate (chainPem row chains.default)
      (chains.alternates.filterMap (alternateUrl db.baseUrl certId))))

/-- `certificate_alternate`. -/
def certificateAlternate (db : ServerDb) (account : AcmeAccount) (payload : Option Json)
    (certId anchorId : Str) (now : ℤ) : Except Raised Place := do
  checkFetch payload
  let row ← orProblem (certificateOf db certId account.id)
  let anchor ← orProblem (certificateId anchorId)
  pure (withChains db account row now fun chains =>
    match chains.byAnchor anchor with
    | none => refused (some account) (.acme (notFound "certificate chain"))
    | some chain => answered account (.certificate (chainPem row chain) []))

/-- `order_resource`. -/
def orderResource (db : ServerDb) (account : AcmeAccount) (orderId : Str) (now : ℤ) :
    Except AcmeError Answer := do
  let order ← ownedOrder account (db.orders.get? orderId)
  pure (.order 200 (orderJson db.baseUrl order (authorizationsOf db.toAcmeDb order.id) now) none)

/-- `authz_resource`. -/
def authzResource (db : ServerDb) (account : AcmeAccount) (authzId : Str) (now : ℤ) :
    Except AcmeError Answer := do
  let authz ← Pc.found "authorization" (db.authorizations.get? authzId)
  let _ ← ownedOrder account (db.orders.get? authz.orderId)
  pure (.authz (authzJson db.baseUrl authz (db.challengesOf authz.id) now))

/-- `revoke_cert`, up to the write. -/
def revokeCert (db : ServerDb) (account : AcmeAccount) (payload : Option Json)
    (certificate : Except AcmeError Cert) (reason : Option Json) : Except Raised Place := do
  refuse payload.isNone (malformed "revoke-cert needs a payload")
  let submitted ← orProblem certificate
  let reason ← orProblem (parseReason reason)
  let row ← orProblem (revocableCertificate db account submitted)
  pure (revoking account row.id reason)

/-- `own_account_or_403`. -/
def ownAccountOr403 (account : AcmeAccount) (accountId : Str) : Except Raised Unit :=
  refuse (account.id ≠ accountId) (unauthorized "this account URL is not yours")

/-- `account_orders`. -/
def accountOrders (db : ServerDb) (account : AcmeAccount) (accountId : Str) :
    Except Raised Answer := do
  ownAccountOr403 account accountId
  pure (.orders ((db.ordersOf account.id).map fun o => db.baseUrl ++ (orderPath ++ o.id)))

variable (E : Crypto) (K : Keyring)

/-- A route that works on an order, up to its first write. -/
def onOrder (d : Draw) (account : AcmeAccount) (db : ServerDb) (r : Request) : Place :=
  ofPc account (Pc.orRaise (Pc.route E d account db.toAcmeDb r))

/-- The route of a verified request. -/
def dispatch (r : KidRequest) (account : AcmeAccount) (payload : Option Json) (db : ServerDb) : Place :=
  match r.route with
  | .newOrder identifiers notBefore notAfter draw =>
    if payload.isNone then refused (some account) (malformed "new-order needs a payload")
    else onOrder E r.draw account db (.newOrder identifiers notBefore notAfter draw)
  | .order orderId => orRefuse account do
    let answer ← orProblem (orderResource db account orderId r.draw.now)
    pure (answered account answer)
  | .authz authzId => orRefuse account do
    let answer ← orProblem (authzResource db account authzId r.draw.now)
    pure (answered account answer)
  | .challenge challengeId outcome =>
    onOrder E r.draw account db (.challenge challengeId payload.isSome outcome)
  | .finalize orderId csr =>
    onOrder E r.draw account db (.finalize orderId (payload.map fun _ => csr))
  | .certificate certId =>
    orRefuse account (certificateResource db account payload certId r.draw.now)
  | .alternate certId anchorId =>
    orRefuse account (certificateAlternate db account payload certId anchorId r.draw.now)
  | .revokeCert certificate reason => orRefuse account (revokeCert db account payload certificate reason)
  | .account accountId =>
    ofAccountPlace account (AccountPlace.ofOwner accountId (account, payload))
  | .orders accountId => orRefuse account do
    let answer ← accountOrders db account accountId
    pure (answered account answer)
  | .keyChange =>
    ofAccountPlace account
      (AccountPlace.ofExcept (AccountPlace.conflict account)
        (verifyKeyChange K db.accountDb account payload))

/-- The answer of a route that has worked on an order: the row is read again. -/
def orderAnswer (r : KidRequest) (db : ServerDb) : Option Answer :=
  match r.route with
  | .newOrder _ _ _ draw => (db.orders.get? draw.orderId).map fun order =>
    .order 201 (orderJson db.baseUrl order (authorizationsOf db.toAcmeDb order.id) r.draw.now)
      (some (db.baseUrl ++ (orderPath ++ order.id)))
  | .finalize orderId _ => (db.orders.get? orderId).map fun order =>
    .order 200 (orderJson db.baseUrl order (authorizationsOf db.toAcmeDb order.id) r.draw.now) none
  | .challenge challengeId _ => (db.challenges.get? challengeId).map fun challenge =>
    .challenge (challengeJson db.baseUrl challenge) (db.baseUrl ++ (authzPath ++ challenge.authzId))
  | _ => none

/-- The answer, if there is a row for it. -/
def ofAnswer (account : AcmeAccount) (next : Answer → Place) : Option Answer → Place
  | some answer => next answer
  | none => refused (some account) (.crash "InvalidRequestError")

end Place

/-! ### Programs -/

/-- The next action at a place of an order resource: the statements of a call, its commit or its
rollback at once. -/
def Pc.act (E : Crypto) (pc : Pc) : Action AcmeDb Pc :=
  match pc.stmt E with
  | .select next => .select fun db => (next db).pc
  | .write run busy =>
    .write (fun db => match run db with
      | (db', .commit pc') => .ok (db', pc')
      | (_, c) => .error c.pc) busy.pc
  | _ => .done

/-- The revocation of a certificate. -/
def Place.runRevoke (E : Crypto) (d : Draw) (account : AcmeAccount) (certificateId : ℕ)
    (reason : RevocationReason) (db : ServerDb) : Except Place (ServerDb × Place) :=
  match (Op.revokeCertificate .acme certificateId reason none).run E d db.ca with
  | (ca, .ok _) => .ok ({ db with ca }, .answered account .revoked)
  | (_, .error e) => .error (.refused (some account) (revokeProblem e))

/-- The next action of a request at a place. -/
def Place.act (E : Crypto) (K : Keyring) (r : KidRequest) : Place → Action ServerDb Place
  | .start => .select fun db =>
    match accountOf db.accountDb r.post with
    | .ok (account, payload) => .verified account payload
    | .error e => .refused none e
  | .verified account payload => .select (Place.dispatch E K r account payload)
  | .ordering account (.validate challengeId outcome) =>
    -- The answer does not wait for the validation.
    .select fun db => ofAnswer account
      (fun answer => .validating account answer (.validate challengeId outcome)) (orderAnswer r db)
  | .ordering account .returned | .ordering account (.attached _ _) =>
    .select fun db => ofAnswer account (.answered account) (orderAnswer r db)
  | .ordering account pc => (pc.act E).zoom ServerDb.toAcmeDb ServerDb.withOrders (ofPc account)
  | .validating account answer pc =>
    (pc.act E).zoom ServerDb.toAcmeDb ServerDb.withOrders (Place.validating account answer)
  | .revoking account certificateId reason =>
    .write (Place.runRevoke E r.draw account certificateId reason)
      (.refused (some account) (.crash "OperationalError"))
  | .maintaining account (.answered status row) =>
    .select fun db => .answered account (.account status (accountJson db.baseUrl row))
  | .maintaining account place =>
    (AccountPlace.maintenance place).zoom ServerDb.accountDb ServerDb.withAccounts
      (ofAccountPlace account)
  | .answered .. | .refused .. | .endless _ => .done

/-- A write through another door.  It leaves orders alone, with all that belongs to them, and deletes
no certificate. -/
structure Door where
  /-- What is written. -/
  run : ServerDb → ServerDb
  orders : ∀ db, (run db).orders = db.orders
  authorizations : ∀ db, (run db).authorizations = db.authorizations
  challenges : ∀ db, (run db).challenges = db.challenges
  certificates : ∀ db, ∀ c ∈ db.ca.certificates, ∃ c' ∈ (run db).ca.certificates, c'.id = c.id

/-- An operation of the CA: from the user interface, the API, or a revocation by the key of the
certificate. -/
def Door.authority (E : Crypto) (d : Draw) (op : Op) : Door where
  run db := { db with ca := (op.run E d db.ca).1 }
  orders _ := rfl
  authorizations _ := rfl
  challenges _ := rfl
  certificates db c hc := by
    have hwrite : Write E db.ca (op.run E d db.ca).1 := caMachine_step (a := (op, d)) rfl
    obtain ⟨c', hc', hid, -⟩ := (extends_ca hwrite).certificate c hc
    exact ⟨c', hc', hid⟩

/-- A write to the accounts or the external account keys: from new-account or the operator. -/
def Door.accounts (write : AccountDb → AccountDb) : Door where
  run db := db.withAccounts (write db.accountDb)
  orders _ := rfl
  authorizations _ := rfl
  challenges _ := rfl
  certificates _ c hc := ⟨c, hc, rfl⟩

/-- What works on the database. -/
inductive ServerCall where
  /-- A request with a `kid` header. -/
  | request (r : KidRequest) (place : Place)
  /-- A write through another door. -/
  | door (d : Door)
  /-- It is done. -/
  | settled

/-- The next action of a call. -/
def ServerCall.act (E : Crypto) (K : Keyring) : ServerCall → Action ServerDb ServerCall
  | .request r place => (place.act E K r).map (.request r)
  | .door d => .write (fun db => .ok (d.run db, .settled)) .settled
  | .settled => .done

/-- All calls at once, in any order of their turns. -/
def server (E : Crypto) (K : Keyring) : Machine (Sessions ServerDb (Phase ServerCall)) Turn :=
  transactions (ServerCall.act E K)

/-- A call as it comes in. -/
inductive ServerIncoming where
  | request (r : KidRequest)
  | door (d : Door)

/-- Where it starts. -/
def ServerIncoming.start : ServerIncoming → ServerCall
  | request r => .request r .start
  | door d => .door d

/-- A server without orders, and the calls that come in. -/
def serverBegin (ca : Db) (accounts : Table AcmeAccount) (eabKeys : Table AcmeEabKey)
    (requireEab : Bool) (baseUrl : Str) (calls : List ServerIncoming) :
    Sessions ServerDb (Phase ServerCall) :=
  .begin ⟨⟨ca, accounts, .empty, .empty, .empty⟩, eabKeys, requireEab, baseUrl⟩
    (calls.map ServerIncoming.start)

end Acme

end Cabin
