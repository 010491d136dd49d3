import Cabin.Ca.Certs

/-!
# Revocation

Marking a certificate revoked and publishing the revocation list of its issuer (`ca/revocation.py`,
`ca/crl.py`).  There is one current list per issuer.

The mark and the list that publishes it share a transaction, so the calls work on a `Session`: what
is committed, and what the session itself sees.  Its writes are seen by its own queries at once and
by everyone else after the commit.
-/

namespace Cabin

open X509 Service

/-- An open database session. -/
structure Session where
  /-- What is committed. -/
  committed : Db
  /-- What the session sees: the committed state and its own writes. -/
  working : Db
  deriving DecidableEq

namespace Session

/-- A new session sees what is committed. -/
def start (db : Db) : Session := ⟨db, db⟩

/-- Forget the writes. -/
def rollback (s : Session) : Session := ⟨s.committed, s.committed⟩

/-- Commit the writes, which may fail. -/
def commit (d : Draw) (s : Session) : Session × Except Failure Unit :=
  match d.attempt .commit ⟨.database, "commit failed"⟩ with
  | .ok _ => (⟨s.working, s.working⟩, .ok ())
  | .error e => (s, .error e)

end Session

namespace Crl

/-- How long a list is valid. -/
def crlValidity : ℤ := Instant.days 7

/-- How long a served list may be cached. -/
def crlMaxAge : ℤ := Instant.minutes 60

/-- When a stored list goes stale. -/
def nextUpdate (s : CrlState) : ℤ := s.generatedAt + crlValidity

/-- One entry to publish. -/
structure RevokedEntry where
  /-- The serial number of the certificate. -/
  serialNumber : ℕ
  /-- When it was revoked. -/
  revokedAt : ℤ
  /-- Why it was revoked. -/
  reason : RevocationReason
  deriving DecidableEq, Repr

/-- An entry as it is encoded: the date in whole seconds, no reason for `unspecified`. -/
def RevokedEntry.encoded (e : RevokedEntry) : RevokedCertificate where
  serialNumber := e.serialNumber
  revocationDate := Instant.seconds e.revokedAt
  reason := if e.reason = .unspecified then none else some e.reason

/-- Build and sign a list in the issuer's name. -/
def buildCrl (E : Crypto) (d : Draw) (issuerCert : Cert) (issuerKey : PrivateKey)
    (entries : List RevokedEntry) (crlNumber : ℕ) (thisUpdate nextUpdate : ℤ) :
    Except Failure X509.Crl := do
  refuse (thisUpdate < earliestUtcTime)
    ⟨.value, "The last update date must be on or after 1950 January 1."⟩
  let aki ← CaX509.authorityKeyIdentifier E issuerCert issuerKey
  refuse (entries.any fun e => e.revokedAt < earliestUtcTime)
    ⟨.value, "The revocation date must be on or after 1950 January 1."⟩
  d.attempt .sign ⟨.signing, "signing failed"⟩
  let tbs : TbsCrl :=
    { issuer := issuerCert.subject, signatureHash := signingAlgorithm issuerKey
      thisUpdate := Instant.seconds thisUpdate, nextUpdate := Instant.seconds nextUpdate
      crlNumber, authorityKeyIdentifier := aki, revoked := entries.map RevokedEntry.encoded }
  pure ⟨tbs, E.signCrl issuerKey tbs⟩

/-- The entry of a row, if it is revoked. -/
def revokedEntry (row : Certificate) : Option RevokedEntry :=
  row.revokedAt.map fun revokedAt =>
    ⟨row.serialNumber, revokedAt, row.revocationReason.getD .unspecified⟩

/-- The entries of an issuer: its revoked certificates by id. -/
def revokedEntries (certificates : Table Certificate) (issuerId : ℕ) : List RevokedEntry :=
  (certificates.select fun r => r.issuerId == issuerId).filterMap revokedEntry

/-- The number of the next list. -/
def nextNumber (state : Option CrlState) : ℕ :=
  match state with
  | some s => s.crlNumber + 1
  | none => 1

variable (E : Crypto)

/-- The next list of an issuer, from its credentials, its stored row and its entries. -/
def signedCrl (d : Draw) (issuer : Cert × PrivateKey) (state : Option CrlState)
    (entries : List RevokedEntry) (issuerId : ℕ) (moment : ℤ) : Except Failure CrlState := do
  let number := nextNumber state
  let crl ← buildCrl E d issuer.1 issuer.2 entries number moment (moment + crlValidity)
  pure ⟨issuerId, number, moment, crl⟩

/-- The next list of an issuer, from what the session sees. -/
def nextCrl (d : Draw) (db : Db) (issuerId : ℕ) (moment : ℤ) : Except Failure CrlState := do
  let issuer ← signingCredentials E d db.cas issuerId
  signedCrl E d issuer (db.crls.get? issuerId) (revokedEntries db.certificates issuerId) issuerId
    moment

/-- Rebuild the list of an issuer and store it.  Commits, with whatever else is pending in the
session. -/
def regenerateCrl (d : Draw) (s : Session) (issuerId : ℕ) (now : Option ℤ) :
    Session × Except Failure CrlState :=
  match nextCrl E d s.working issuerId (now.getD d.now) with
  | .error e => (s, .error e)
  | .ok state =>
    let s := { s with working := { s.working with crls := s.working.crls.upsert state } }
    match s.commit d with
    | (s, .ok _) => (s, .ok state)
    | (s, .error e) => (s, .error e)

/-- The list to serve, rebuilt if there is none or it is about to go stale. -/
def currentCrl (d : Draw) (s : Session) (issuerId : ℕ) (now : Option ℤ) :
    Session × Except Failure CrlState :=
  let moment := now.getD d.now
  match s.working.crls.get? issuerId with
  | none => regenerateCrl E d s issuerId (some moment)
  | some state =>
    if nextUpdate state ≤ moment + crlMaxAge then regenerateCrl E d s issuerId (some moment)
    else (s, .ok state)

/-- Mark a row revoked. -/
def mark (certificates : Table Certificate) (certId : ℕ) (moment : ℤ) (reason : RevocationReason) :
    Table Certificate :=
  certificates.update (fun r => r.id == certId)
    (fun r => { r with revokedAt := some moment, revocationReason := some reason }) fun _ => rfl

/-- Mark a certificate revoked and republish its issuer's list.  If publishing fails, the mark
comes off again. -/
def revokeCertificate (d : Draw) (s : Session) (principal : Principal) (certId : ℕ)
    (reason : RevocationReason) (now : Option ℤ) : Session × Except Failure Unit :=
  match s.working.certificates.get? certId with
  | none => (s, raise .revocation s!"no certificate with id {certId}")
  | some row =>
    if Grants.mayUseIssuer s.working principal row.issuerId = false then
      (s, raise .issuerForbidden s!"principal not granted issuer {row.issuerId}")
    else if row.revokedAt.isSome then (s, .ok ())
    else
      let moment := now.getD d.now
      let marked := { s with working := { s.working with
        certificates := mark s.working.certificates certId moment reason } }
      match regenerateCrl E d marked row.issuerId (some moment) with
      | (s, .ok _) => (s, .ok ())
      | (s, .error e) => (s.rollback, .error e)

end Crl

end Cabin
