import Cabin.Ca.Service

/-!
# Issuing leaves

Who may use which issuer (`issuer_grants.py`) and the two ways a leaf is issued and stored
(`ca/certs.py`): with a key made here, `issueAndStore`, and from a signing request,
`signCsrAndStore`.

`issuedLeaf_spec` says what both store: a leaf that the issuer's row has signed.
-/

namespace Cabin

open X509 Service

/-! ### Grants -/

namespace Grants

/-- The issuers a restricted principal holds a grant on, whatever their status.  The two exempt
principals have no grant table; they are unrestricted and never get here. -/
def grantIds (db : Db) : Principal → List ℕ
  | .user id _ => (db.userIssuers.filter fun g => g.1 == id).map Prod.snd
  | .token id _ => (db.tokenIssuers.filter fun g => g.1 == id).map Prod.snd
  | .acme => []
  | .system => []

/-- The active intermediates a principal may sign with. -/
def grantedIssuers (db : Db) (p : Principal) : List CaCertificate :=
  if p.unrestricted then activeIssuers db.cas
  else (activeIssuers db.cas).filter fun r => r.id ∈ grantIds db p

/-- The principal holds a grant on the issuer, retired or not. -/
def mayUseIssuer (db : Db) (p : Principal) (issuerId : ℕ) : Bool :=
  p.unrestricted || issuerId ∈ grantIds db p

/-- The issuer of a leaf: the one named, if it is granted, or the only granted one. -/
def resolveGrantedIssuer (db : Db) (p : Principal) (issuerId : Option ℕ) :
    Except Failure CaCertificate :=
  match issuerId with
  | some id => do
    let issuer ← resolveIssuer db.cas (some id)
    refuse (mayUseIssuer db p issuer.id = false)
      ⟨.issuerForbidden, s!"principal not granted issuer {id}"⟩
    pure issuer
  | none =>
    match grantedIssuers db p with
    | [issuer] => .ok issuer
    | [] =>
      if activeIssuers db.cas ≠ [] then
        raise .noGrantedIssuer "no granted active issuer; ask an operator for a grant"
      else raise .caNotConfigured (noActiveIssuerMessage db.cas)
    | _ => raise .issuerRequired "more than one granted issuer exists; an issuer_id is required"

end Grants

/-! ### Storing leaves -/

namespace Certs

open Grants

/-- A stored certificate, and the end that was asked for where the issuer's is sooner. -/
structure Issued where
  /-- The stored row. -/
  row : Certificate
  /-- The end that was not granted. -/
  cappedFrom : Option ℤ
  deriving DecidableEq, Repr

/-- The URL of the issuer's revocation list. -/
def distributionUrl (db : Db) (issuerId : ℕ) : Option Str :=
  db.origin.map fun base => base ++ Str.of "/crl/" ++ Str.ofNat issuerId

/-- The URL of the issuer's certificate. -/
def caIssuersUrl (db : Db) (issuerId : ℕ) : Option Str :=
  db.origin.map fun base => base ++ Str.of "/ca/" ++ Str.ofNat issuerId ++ Str.of ".cer"

/-- The common name of a leaf, empty if it has none. -/
def leafCn (cert : Cert) : Str :=
  match (cert.subject.attributesForOid commonNameOid).head?.map NameAttribute.value with
  | some (.text s) => s
  | _ => []

/-- The row of a leaf. -/
def leafRow (db : Db) (cert : Cert) (profile : Leaf.Profile) (sans : List Str)
    (keySealed : Option Sealed) (source : CertSource) (issuerId : ℕ) : Certificate :=
  { id := db.certificates.nextId, issuerId, serialNumber := cert.tbs.serialNumber
    subjectCn := leafCn cert, sans, profile, notBefore := cert.notValidBefore
    notAfter := cert.notValidAfter, cert, keySealed, revokedAt := none, revocationReason := none
    source }

/-- Store a leaf; its serial number must be new. -/
def store (d : Draw) (db : Db) (row : Certificate) : Except Failure (Db × Certificate) := do
  refuse (db.certificates.rows.any fun r => r.serialNumber == row.serialNumber)
    ⟨.database, "UNIQUE constraint failed: certificates.serial_hex"⟩
  commit d { db with certificates := db.certificates.upsert row } row

/-- The names a finished certificate carries. -/
def certSans (cert : Cert) : Except Failure (List Str) := do
  let san ← cert.extension Extensions.subjectAlternativeName
  pure (Leaf.sanStrings san.value)

variable (E : Crypto)

/-- Issue a leaf with a key made here and store it, the key sealed. -/
def issueAndStore (d : Draw) (db : Db) (principal : Principal) (profile : Leaf.Profile)
    (subjectCn : Str) (sans : List Str) (days : ℤ) (keyType : String) (issuerId : Option ℕ)
    (source : CertSource) : Except Failure (Db × Issued) := do
  let issuer ← resolveGrantedIssuer db principal issuerId
  let (issuerCert, issuerKey) ← signingCredentials E d db.cas issuer.id
  let (cert, key, cappedFrom) ← Leaf.issueCertificate E d issuerCert issuerKey profile subjectCn sans
    days keyType (distributionUrl db issuer.id) (caIssuersUrl db issuer.id)
  let sans ← certSans cert
  let keySealed ← sealKey E d key
  let (db, row) ← store d db (leafRow db cert profile sans (some keySealed) source issuer.id)
  pure (db, ⟨row, cappedFrom⟩)

/-- Sign a request and store the leaf; its key never comes here. -/
def signCsrAndStore (d : Draw) (db : Db) (principal : Principal) (csrPem : CaX509.Parsed Leaf.Csr)
    (profile : Leaf.Profile) (days : ℤ) (opts : Leaf.CsrOptions) (issuerId : Option ℕ)
    (source : CertSource) : Except Failure (Db × Issued) := do
  let issuer ← resolveGrantedIssuer db principal issuerId
  let (issuerCert, issuerKey) ← signingCredentials E d db.cas issuer.id
  let (cert, cappedFrom) ← Leaf.signCsr E d issuerCert issuerKey csrPem profile days opts
    (distributionUrl db issuer.id) (caIssuersUrl db issuer.id)
  let sans ← certSans cert
  let (db, row) ← store d db (leafRow db cert profile sans none source issuer.id)
  pure (db, ⟨row, cappedFrom⟩)

end Certs

end Cabin
