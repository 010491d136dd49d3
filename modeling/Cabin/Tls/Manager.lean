import Cabin.Ca.Inputs
import Cabin.Ca.Links
import Cabin.Settings

/-!
# The certificate of the instance itself

`TlsManager` (`tls.py`): the instance serves TLS with a certificate it makes for itself, self-signed until
there is a CA and issued by the CA from then on.  `ensureCurrent` is called again and again; it compares what
is in its files with what is wanted and replaces it, or leaves it alone.

The key file is a sealed token and the certificate file is parsed, so the files are either absent or what was
written last.  The audit log of issuances, `State.issued`, keeps what each was for.

* `ensureCurrent` is one call, `machine` all that happens around it;
* `ensureCurrent_cases` says what a call can do, and `Written` what is in the files after one that issues.
-/

namespace Cabin

namespace Tls

open X509 Leaf

/-- Which kind of certificate is loaded. -/
inductive TlsMode where
  | selfSigned
  | caIssued
  deriving DecidableEq, Repr

/-- The setting that names the issuer, as `int` reads it. -/
inductive Binding where
  | unset
  /-- An id, or a text that is none. -/
  | bound (id : Option ℕ)
  deriving DecidableEq, Repr

/-- The two files. -/
structure Files where
  /-- The certificate of `cabin.crt`. -/
  cert : Cert
  /-- What follows it there. -/
  chain : List Cert
  /-- `cabin.key.sealed`. -/
  keySealed : Sealed
  deriving DecidableEq, Repr

/-- The audit event of an issuance. -/
structure IssuedEvent where
  mode : TlsMode
  subjectCn : Str
  sans : List Str
  notAfter : ℤ
  /-- The stored row, if there is one. -/
  row : Option Certificate
  cappedFrom : Option ℤ
  deriving DecidableEq, Repr

/-- The manager and what it reads. -/
structure State where
  db : Db
  /-- The setting `base_url`, empty if there is none. -/
  baseUrl : Str
  /-- The setting `tls_issuer_id`. -/
  issuerId : Binding
  files : Option Files
  /-- What is loaded. -/
  mode : Option TlsMode
  lastError : Option String
  /-- The issuances in the audit log, the newest first. -/
  issued : List IssuedEvent
  deriving DecidableEq

/-- A call: when it looks at the clock first, and what it draws after that. -/
structure Call where
  checkedAt : ℤ
  draw : Draw
  deriving DecidableEq, Repr

def certDays : ℤ := 90

/-- How long before its end a certificate is replaced. -/
def renewBefore : ℤ := Instant.days 30

/-- A replacement has to be good for this much longer. -/
def minRenewalGain : ℤ := Instant.days 1

variable (E : Crypto) (U : Unicode) (hostname : Str)

/-! ### What is wanted -/

/-- The host of a base URL. -/
def hostOf (baseUrl : Str) : Str := ((Url.parts baseUrl).hostname U).getD []

/-- The name the certificate is for. -/
def certName (baseUrl : Str) : Str := if baseUrl ≠ [] then hostOf U baseUrl else hostname

/-- The common name and the names the certificate should have. -/
def wantedNames (baseUrl : Str) : Except Failure (Str × List Str) :=
  if baseUrl ≠ [] then
    match Url.urlsplit U baseUrl with
    | .error message => raise .value message
    | .ok split =>
      let host := (split.hostname U).getD []
      .ok (host, [if isIp host then canonical .ip host else canonical .dns host])
  else
    .ok (hostname, Str.unique
      [canonical .dns hostname, Str.of "DNS:localhost", Str.of "IP:127.0.0.1", Str.of "IP:::1"])

/-- The issuer the setting names; where it is unset and there is only one, that one is written down. -/
def resolveTlsIssuer (s : State) : Binding × Option CaCertificate :=
  match s.issuerId with
  | .bound id =>
    (s.issuerId, (id.bind s.db.cas.get?).filter fun row => row.kind == .intermediate && row.status == .active)
  | .unset =>
    match Service.activeIssuers s.db.cas with
    | [issuer] => (.bound (some issuer.id), some issuer)
    | _ => (.unset, none)

/-! ### What there is -/

/-- What is in the files: a certificate with its key. -/
structure Material where
  cert : Cert
  key : PrivateKey
  mode : TlsMode
  subjectCn : Str
  sans : List Str
  notAfter : ℤ
  deriving DecidableEq, Repr

/-- The first common name of a certificate, empty if it has none. -/
def subjectCn (cert : Cert) : Str :=
  match (cert.subject.attributesForOid commonNameOid).head?.map NameAttribute.value with
  | none => []
  | some (.text s) => s
  | some (.bits b) => E.decodeReplace b

/-- A certificate in its own name counts as self-signed. -/
def modeOf (cert : Cert) : TlsMode := if cert.issuer.pyEq cert.subject then .selfSigned else .caIssued

/-- The certificate and the key in the files, unless they do not belong together. -/
def loadCurrent (files : Option Files) : Except Failure (Option Material) :=
  match files with
  | none => .ok none
  | some f =>
    match E.unsealKey f.keySealed with
    | none => .ok none
    | some key =>
      if E.publicKey key ≠ f.cert.publicKey then .ok none
      else do
        let san ← f.cert.extension? Extensions.subjectAlternativeName
        pure (some
          { cert := f.cert, key, mode := modeOf f.cert, subjectCn := subjectCn E f.cert
            sans := (san.map fun e => sanStrings e.value).getD [], notAfter := f.cert.notValidAfter })

/-- `set(a) == set(b)`. -/
def sameNames (a b : List Str) : Bool := a.all (· ∈ b) && b.all (· ∈ a)

/-- The certificate is of the kind that is wanted, and from the issuer that is bound. -/
def sameIssuer (current : Material) : Option CaCertificate → Bool
  | none => current.mode == .selfSigned
  | some issuer => current.mode == .caIssued && (verifyDirectlyIssuedBy E current.cert issuer.cert).isOk

/-- What there is need not be replaced. -/
def keepsCurrent (checkedAt : ℤ) (current : Option Material) (cn : Str) (sans : List Str)
    (issuer : Option CaCertificate) : Except Failure Bool :=
  match current with
  | none => .ok false
  | some current =>
    if sameIssuer E current issuer = false ∨ current.subjectCn ≠ cn ∨ sameNames current.sans sans = false then
      .ok false
    else if checkedAt < current.notAfter - renewBefore then .ok true
    else match issuer with
      | none => .ok false
      | some issuer => do
        let requested ← Instant.addDays checkedAt certDays
        -- The issuer may be about to end itself.
        pure (min requested issuer.cert.notValidAfter - current.notAfter < minRenewalGain)

/-! ### A new certificate -/

/-- A certificate that is signed with its own key. -/
def selfSignedServerCertificate (d : Draw) (subjectCn : Str) (sans : List Str) (keyType : String)
    (days : ℤ) : Except Failure (Cert × PrivateKey) := do
  let cn ← validateCn subjectCn
  let explicit ← sans.mapM normalizeSan
  let resolved ← resolveSans explicit [] (some cn)
  let key ← CaX509.generateKey E d keyType
  let name ← nameOfCommonName cn
  let notAfter ← Instant.addDays d.now days
  let names ← resolved.mapM (generalName E)
  let cert ← build E d key name name (E.publicKey key) (d.now - backdate) notAfter
    { basicConstraints := some ⟨⟨false, none⟩, true⟩
      keyUsage := some ⟨keyUsage E .server (E.publicKey key), true⟩
      extendedKeyUsage := some ⟨[Profile.server.eku], false⟩
      subjectKeyIdentifier := some ⟨E.keyIdentifier (E.publicKey key), false⟩
      subjectAlternativeName := some ⟨names, false⟩ }
  pure (cert, key)

/-- What is issued. -/
structure Issuance where
  cert : Cert
  chain : List Cert
  key : PrivateKey
  row : Option Certificate
  cappedFrom : Option ℤ
  deriving DecidableEq, Repr

/-- A stored certificate with its key and its chain. -/
def fromRow (d : Draw) (db : Db) (issuerId : ℕ) (issued : Certs.Issued) : Except Failure Issuance :=
  match issued.row.keySealed with
  | none => raise .assertion "issue_and_store always seals a key"
  | some keySealed =>
    match E.unsealKey keySealed with
    | none => raise .secrets "invalid token: failed authentication (tampered)"
    | some key =>
      match Service.chainFor (db.cas.rows.length + 1) db.cas issuerId d.now with
      -- A walk that does not end; `parentWalk` has more steps than there are rows.
      | none => raise .assertion "the chain does not end"
      | some chain => do
        let rows ← chain
        pure ⟨issued.row.cert, rows.map CaCertificate.cert, key, some issued.row, issued.cappedFrom⟩

/-- Issue the next certificate; a row that is stored stays stored. -/
def issue (d : Draw) (db : Db) (cn : Str) (sans : List Str) :
    Option CaCertificate → Db × Except Failure Issuance
  | none =>
    (db, (selfSignedServerCertificate E d cn sans "ecdsa-p256" certDays).map fun (cert, key) =>
      ⟨cert, [], key, none, none⟩)
  | some issuer =>
    match Certs.issueAndStore E d db .system .server cn sans certDays "ecdsa-p256" (some issuer.id) .system with
    | .error e => (db, .error e)
    | .ok (db', issued) => (db', fromRow E d db' issuer.id issued)

/-- The exceptions that leave what there is in place. -/
def isRecoverable (e : Failure) : Bool :=
  e.kind ∈ [.caNotConfigured, .issuerRequired, .issuerRetired, .unknownIssuer, .issue, .nameConstraint]

/-- The kind of certificate an issuer or the lack of one makes. -/
def targetMode (issuer : Option CaCertificate) : TlsMode := if issuer.isSome then .caIssued else .selfSigned

/-- Issue a certificate and write it down. -/
def replaceCurrent (d : Draw) (s : State) (served : Option TlsMode) (cn : Str) (sans : List Str)
    (issuer : Option CaCertificate) : State × Except Failure Bool :=
  match issue E d s.db cn sans issuer with
  | (db, .error e) =>
    if isRecoverable e then ({ s with db, mode := served, lastError := some e.message }, .ok false)
    else ({ s with db }, .error e)
  | (db, .ok i) =>
    ({ s with
        db
        files := some ⟨i.cert, i.chain, E.sealKey d.nonce i.key⟩
        mode := some (targetMode issuer)
        lastError := none
        issued := ⟨targetMode issuer, cn, sans, i.cert.notValidAfter, i.row, i.cappedFrom⟩ :: s.issued },
      .ok true)

/-- `ensure_current`: whether it issued a certificate. -/
def ensureCurrent (call : Call) (s : State) : State × Except Failure Bool :=
  match loadCurrent E s.files with
  | .error e => (s, .error e)
  | .ok current =>
    let served := current.map Material.mode
    -- A fresh process adopts what there is.
    let s := { s with mode := s.mode.or served }
    match wantedNames U hostname s.baseUrl with
    | .error e => (s, .error e)
    | .ok (cn, sans) =>
      let (issuerId, issuer) := resolveTlsIssuer s
      let s := { s with issuerId }
      -- An issued certificate is not given up for a self-signed one.
      if issuer = none ∧ served = some .caIssued then ({ s with mode := served }, .ok false)
      else match keepsCurrent E call.checkedAt current cn sans issuer with
        | .error e => (s, .error e)
        | .ok true => ({ s with mode := served }, .ok false)
        | .ok false => replaceCurrent E call.draw s served cn sans issuer

/-! ### All that happens -/

/-- The steps around the manager. -/
inductive Action where
  | ca (op : Op) (d : Draw)
  | saveBaseUrl (raw : Str)
  | bindIssuer (issuerId : Binding)
  | restart
  | ensure (call : Call)

/-- The origin certificates are given. -/
def originOf (baseUrl : Str) : Option Str :=
  if baseUrl = [] then none else (Settings.publicHttpOrigin U baseUrl).toOption

/-- A step. -/
def Action.run (s : State) : Action → State
  | ca op d => { s with db := (op.run E d s.db).1 }
  | saveBaseUrl raw =>
    match Settings.validateBaseUrl U raw with
    | .ok url => { s with baseUrl := url, db := { s.db with origin := originOf U url } }
    | .error _ => s
  | bindIssuer issuerId => { s with issuerId }
  | restart => { s with mode := none, lastError := none }
  | ensure call => (ensureCurrent E U hostname call s).1

/-- The instance as a machine. -/
def machine : Machine State Action where
  step s a := some (a.run E U hostname s)

/-- A new instance. -/
def State.start : State := ⟨.empty, [], .unset, none, none, none, []⟩

end Tls

end Cabin
