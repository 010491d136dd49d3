import Cabin.Store.Sessions
import Cabin.Acme.Service

/-!
# The calls of the ACME server

The routes that write (`acme/api_order.py`, `acme/api_finalize.py`, `acme/api_account.py`) and the
background task of `acme/validation`, as programs that work on the database at the same time.  A
call is cut at its commits: between two of them it looks at the database once, and it writes once.

A request comes with its account, which is looked up when the request is verified.  A trigger that
has changed its challenge goes on as the validation task it has scheduled.  A finalization has three
writes: the claim on the order, the certificate, and the order again.

* `Pc.stmt` is the program, `acmeCalls` all calls at once;
* the names of the resources a call has are `task?`, `order?` and `certificate?`.
-/

namespace Cabin

namespace Acme

open X509

/-! ### Requests -/

/-- How an attempt at a challenge ends. -/
inductive Outcome where
  /-- The validator returns, at this moment. -/
  | success (now : ℤ)
  /-- It raises an `AcmeError`. -/
  | refused (error : AcmeError)
  /-- It raises something else. -/
  | crashed (name : String)

/-- What a verified request asks for. -/
inductive Request where
  /-- `new-order`: the members of its payload, the timestamps as `parse_timestamp` returns them. -/
  | newOrder (identifiers : Option Json) (notBefore notAfter : Except AcmeError (Option ℤ))
      (draw : OrderDraw)
  /-- A challenge: whether there is a payload, and how the attempt would end. -/
  | challenge (challengeId : Str) (payload : Bool) (outcome : Outcome)
  /-- `finalize`: the request in the payload, if there is a payload. -/
  | finalize (orderId : Str) (csr : Option (Except AcmeError CsrDer))
  /-- The account is to be deactivated. -/
  | deactivate

/-- Where a call is. -/
inductive Pc where
  /-- The account is about to be looked up. -/
  | request (d : Draw) (accountId : Str) (r : Request)
  /-- The request is verified. -/
  | verified (d : Draw) (account : AcmeAccount) (r : Request)
  /-- About to create the order. -/
  | createOrder (accountId : Str) (identifiers : List Identifier) (notBefore notAfter : Option ℤ)
      (moment : ℤ) (draw : OrderDraw)
  /-- About to claim the challenge. -/
  | beginChallenge (challengeId : Str) (outcome : Outcome)
  /-- The validation task begins. -/
  | validate (challengeId : Str) (outcome : Outcome)
  /-- About to record how the attempt ended. -/
  | record (challengeId : Str) (authz : AcmeAuthorization) (outcome : Outcome)
  /-- The task has run to its end. -/
  | recorded (challengeId : Str)
  /-- The task could not write. -/
  | lost (challengeId : Str)
  /-- About to claim the order. -/
  | claim (d : Draw) (account : AcmeAccount) (order : AcmeOrder) (der : CsrDer)
  /-- About to issue the certificate. -/
  | issue (d : Draw) (account : AcmeAccount) (order : AcmeOrder) (der : CsrDer)
  /-- Issuance has raised, the claim is about to come off. -/
  | release (orderId : Str) (e : Failure)
  /-- The claim is off. -/
  | released (orderId : Str) (e : Failure)
  /-- The claim could not be taken off. -/
  | stranded (orderId : Str)
  /-- About to attach the certificate. -/
  | attach (orderId : Str) (certificateId : ℕ)
  /-- The order has its certificate. -/
  | attached (orderId : Str) (certificateId : ℕ)
  /-- The certificate could not be attached. -/
  | orphaned (orderId : Str) (certificateId : ℕ)
  /-- About to deactivate the account. -/
  | deactivate (accountId : Str)
  /-- A call on the CA, through another door. -/
  | authority (d : Draw) (op : Op)
  /-- The call has returned. -/
  | returned
  /-- The call has raised. -/
  | raised (e : AcmeError)
  /-- The database has refused a write. -/
  | crashed

/-- A call: at a statement, about to commit, or about to roll back. -/
inductive Call where
  | run (pc : Pc)
  | commit (pc : Pc)
  | rollback (pc : Pc)

namespace Pc

/-! ### From what a call has read -/

/-- The request goes on, or raises. -/
def orRaise : Except AcmeError Pc → Pc
  | .ok pc => pc
  | .error e => .raised e

/-- The account of a request has to be valid. -/
def ofAccount (d : Draw) (r : Request) : Option AcmeAccount → Pc
  | none =>
    .raised { kind := .accountDoesNotExist, detail := "no account with that key identifier" }
  | some account =>
    if account.status = .valid then .verified d account r
    else .raised { kind := .unauthorized, detail := s!"this account is {account.status.text}" }

/-- `account_issuer`, which has to be active. -/
def checkIssuer (db : AcmeDb) (account : AcmeAccount) : Except AcmeError Unit :=
  match Service.getCa db.ca.cas account.issuerId with
  | .error e =>
    .error { kind := .serverInternal
             detail := cut 400
              s!"this account's issuer no longer exists on this cabin instance: {e.message}" }
  | .ok issuer =>
    refuse (issuer.status ≠ .active)
      { kind := .serverInternal
        detail := s!"this account's issuer (CA certificate {issuer.id}) has been retired and can " ++
          "no longer sign new certificates" }

/-- `new_order`, up to the write. -/
def newOrder (d : Draw) (account : AcmeAccount) (identifiers : Option Json)
    (notBefore notAfter : Except AcmeError (Option ℤ)) (draw : OrderDraw) (db : AcmeDb) :
    Except AcmeError Pc := do
  let is ← parseIdentifiers identifiers
  let notBefore ← notBefore
  let notAfter ← notAfter
  checkIssuer db account
  pure (.createOrder account.id is notBefore notAfter d.now draw)

/-- A row that has to be there. -/
def found {α : Type} (what : String) : Option α → Except AcmeError α
  | some a => .ok a
  | none => .error (notFound what)

/-- `challenge_resource`, up to the write. -/
def challengeResource (d : Draw) (account : AcmeAccount) (challengeId : Str) (payload : Bool)
    (outcome : Outcome) (db : AcmeDb) : Except AcmeError Pc := do
  let challenge ← found "challenge" (db.challenges.get? challengeId)
  let authz ← found "authorization" (db.authorizations.get? challenge.authzId)
  let _ ← ownedOrder account (db.orders.get? authz.orderId)
  if payload then
    let starts ← checkTrigger challenge authz d.now
    pure (if starts then .beginChallenge challengeId outcome else .returned)
  else pure .returned

/-- The request of a finalization. -/
def finalizeCsr (csr : Option (Except AcmeError CsrDer)) : Except AcmeError CsrDer :=
  match csr with
  | none => .error { kind := .malformed, detail := "finalize needs a payload" }
  | some der => der

/-- The order is ready, and the request is for its names. -/
def checkFinalize (E : Crypto) (d : Draw) (account : AcmeAccount) (order : AcmeOrder)
    (csr : Option (Except AcmeError CsrDer)) (db : AcmeDb) : Except AcmeError Pc := do
  let status := orderStatus db order d.now
  refuse (status ≠ .ready)
    { kind := .orderNotReady
      detail := s!"this order is {status.text}; every authorization must be valid before it can " ++
        "be finalized" }
  let der ← finalizeCsr csr
  let request ← loadCsr E der
  checkIdentifiers request order.identifiers
  pure (.claim d account order der)

/-- `finalize_order`, up to the claim. -/
def finalizeOrder (E : Crypto) (d : Draw) (account : AcmeAccount) (orderId : Str)
    (csr : Option (Except AcmeError CsrDer)) (db : AcmeDb) : Except AcmeError Pc := do
  let order ← ownedOrder account (db.orders.get? orderId)
  if order.certificateId.isSome then pure .returned
  else checkFinalize E d account order csr db

/-- The route of a verified request. -/
def route (E : Crypto) (d : Draw) (account : AcmeAccount) (db : AcmeDb) :
    Request → Except AcmeError Pc
  | .newOrder identifiers notBefore notAfter draw =>
    newOrder d account identifiers notBefore notAfter draw db
  | .challenge challengeId payload outcome =>
    challengeResource d account challengeId payload outcome db
  | .finalize orderId csr => finalizeOrder E d account orderId csr db
  | .deactivate => .ok (.deactivate account.id)

/-- `_attempt_validation`, up to the write: nothing is left to decide if the challenge is not
processing. -/
def ofChallenge (challengeId : Str) (outcome : Outcome) (db : AcmeDb) : Pc :=
  match db.challenges.get? challengeId with
  | none => .recorded challengeId
  | some challenge =>
    if challenge.status ≠ .processing then .recorded challengeId
    else match db.authorizations.get? challenge.authzId with
      | none => .recorded challengeId
      | some authz => .record challengeId authz outcome

/-! ### Writes -/

/-- The problem document on the challenge: the reason a connection failed is not for the client. -/
def clientProblem (error : AcmeError) (authz : AcmeAuthorization) : AcmeError :=
  if error.kind = .connection then
    { error with
      detail := s!"cabin could not reach {authz.identifierValue.repr} to validate this challenge" }
  else error

/-- Write down how an attempt ended. -/
def runRecord (challengeId : Str) (authz : AcmeAuthorization) (outcome : Outcome) (db : AcmeDb) :
    AcmeDb :=
  match outcome with
  | .success now => recordChallengeSuccess db challengeId authz.id now
  | .refused error => recordChallengeFailure db challengeId (clientProblem error authz)
  | .crashed name =>
    recordChallengeFailure db challengeId
      { kind := .serverInternal, detail := s!"validation failed inside cabin: {name}" }

/-- Create the order, unless an id is taken. -/
def runCreateOrder (accountId : Str) (identifiers : List Identifier) (notBefore notAfter : Option ℤ)
    (moment : ℤ) (draw : OrderDraw) (db : AcmeDb) : AcmeDb × Call :=
  match Acme.createOrder draw accountId identifiers notBefore notAfter moment db with
  | some db' => (db', .commit .returned)
  | none => (db, .rollback .crashed)

/-- Claim the challenge; whoever has changed the row schedules the task. -/
def runBegin (challengeId : Str) (outcome : Outcome) (db : AcmeDb) : AcmeDb × Call :=
  ((claimChallenge db challengeId).1,
    .commit (if (claimChallenge db challengeId).2 then .validate challengeId outcome else .returned))

/-- Claim the order; whoever has changed the row issues the certificate. -/
def runClaim (d : Draw) (account : AcmeAccount) (order : AcmeOrder) (der : CsrDer) (db : AcmeDb) :
    AcmeDb × Call :=
  ((claimForIssuance db order.id).1,
    .commit (if (claimForIssuance db order.id).2 then .issue d account order der else .returned))

/-- The first name that fits into a common name. -/
def subjectCn (identifiers : List OrderIdentifier) : Option Str :=
  (identifiers.find? fun i => i.value.length ≤ Leaf.maxCnLength).map OrderIdentifier.value

/-- What is passed to the CA beside the request: the names are those of the order. -/
def csrOptions (identifiers : List OrderIdentifier) : Leaf.CsrOptions :=
  ⟨some (identifiers.map OrderIdentifier.san), subjectCn identifiers, true⟩

/-- Issue the certificate under the issuer of the account. -/
def runIssue (E : Crypto) (d : Draw) (account : AcmeAccount) (order : AcmeOrder) (der : CsrDer)
    (db : AcmeDb) : AcmeDb × Call :=
  match Certs.signCsrAndStore E d db.ca .acme der.parsed .server Leaf.defaultDays
    (csrOptions order.identifiers) (some account.issuerId) .acme with
  | .ok (ca, issued) => ({ db with ca }, .commit (.attach order.id issued.row.id))
  | .error e => (db, .rollback (.release order.id e))

variable (E : Crypto)

/-- The next statement of a call. -/
def stmt : Pc → Stmt AcmeDb Call
  | request d accountId r => .select fun db => .run (ofAccount d r (db.accounts.get? accountId))
  | verified d account r => .select fun db => .run (orRaise (route E d account db r))
  | createOrder accountId identifiers notBefore notAfter moment draw =>
    .write (runCreateOrder accountId identifiers notBefore notAfter moment draw) (.run .crashed)
  | beginChallenge challengeId outcome => .write (runBegin challengeId outcome) (.run .crashed)
  | validate challengeId outcome => .select fun db => .run (ofChallenge challengeId outcome db)
  | record challengeId authz outcome =>
    .write (fun db => (runRecord challengeId authz outcome db, .commit (.recorded challengeId)))
      (.run (.lost challengeId))
  | claim d account order der => .write (runClaim d account order der) (.run .crashed)
  | issue d account order der =>
    .write (runIssue E d account order der)
      (.rollback (.release order.id ⟨.database, "database is locked"⟩))
  | release orderId e =>
    .write (fun db => (releaseClaim db orderId, .commit (.released orderId e)))
      (.run (.stranded orderId))
  | attach orderId certificateId =>
    .write (fun db => (attachCertificate db orderId certificateId,
        .commit (.attached orderId certificateId)))
      (.run (.orphaned orderId certificateId))
  | deactivate accountId =>
    .write (fun db => (deactivateAccount db accountId, .commit .returned)) (.run .crashed)
  | authority d op =>
    .write (fun db => ({ db with ca := (op.run E d db.ca).1 }, .commit .returned)) (.run .crashed)
  | recorded _ | lost _ | released .. | stranded _ | attached .. | orphaned .. | returned | raised _
  | crashed => .done

/-! ### Resources -/

/-- The challenge of the task that the call has scheduled. -/
def task? : Pc → Option Str
  | validate challengeId _ | record challengeId _ _ | recorded challengeId | lost challengeId =>
    some challengeId
  | _ => none

/-- The order that the call has claimed. -/
def order? : Pc → Option Str
  | issue _ _ order _ => some order.id
  | release orderId _ | stranded orderId | attach orderId _ | attached orderId _
  | orphaned orderId _ => some orderId
  | _ => none

/-- The certificate that the call has issued. -/
def certificate? : Pc → Option ℕ
  | attach _ certificateId | attached _ certificateId | orphaned _ certificateId =>
    some certificateId
  | _ => none

end Pc

namespace Call

/-- Where the call is. -/
def pc : Call → Pc
  | run pc | commit pc | rollback pc => pc

/-- The next statement of a call. -/
def next (E : Crypto) : Call → Stmt AcmeDb Call
  | run pc => pc.stmt E
  | commit pc => .commit (.run pc)
  | rollback pc => .rollback (.run pc)

/-- The order that the call has claimed; the claim is off when that is committed. -/
def order? : Call → Option Str
  | commit (.released orderId _) => some orderId
  | c => c.pc.order?

end Call

/-- The calls at once, in any order of their turns. -/
def acmeCalls (E : Crypto) : Machine (Sessions AcmeDb Call) Turn := Sessions.system (Call.next E)

/-- Calls as they come in: requests, and calls on the CA. -/
inductive Incoming where
  | request (d : Draw) (accountId : Str) (r : Request)
  | authority (d : Draw) (op : Op)

/-- Where a call starts. -/
def Incoming.start : Incoming → Call
  | request d accountId r => .run (.request d accountId r)
  | authority d op => .run (.authority d op)

/-- A server without orders, and the calls that come in. -/
def serverStart (ca : Db) (accounts : Table AcmeAccount) (calls : List Incoming) :
    Sessions AcmeDb Call :=
  .start ⟨ca, accounts, .empty, .empty, .empty⟩ (calls.map Incoming.start)

end Acme

end Cabin
