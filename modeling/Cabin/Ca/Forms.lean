import Cabin.Ca.Certs

/-!
# The issue form

What an operator submits to have a leaf issued (`web/certs_ui.py`): `certsIssue` is what the form's
handler calls, `issuePreview` what is shown of the outcome while the form is filled in.
-/

namespace Cabin

open X509 Service Grants

/-- The fields of the form. -/
structure IssueForm where
  subjectCn : Str
  sans : Str := []
  profile : Str := Str.of "server"
  keyType : String := "ecdsa-p256"
  days : ℤ := Leaf.defaultDays
  issuerId : Option ℕ := none
  deriving DecidableEq, Repr

namespace CertsUi

variable (E : Crypto)

/-- Issue what the form asks for, with the credentials of an issuer. -/
def issueCertificate (d : Draw) (issuerCert : Cert) (issuerKey : PrivateKey) (form : IssueForm)
    (crlUrl caIssuersUrl : Option Str) : Except Failure (Cert × PrivateKey × Option ℤ) := do
  let profile ← Leaf.parseProfile form.profile
  let sans ← Leaf.parseSanLines form.sans
  Leaf.issueCertificate E d issuerCert issuerKey profile form.subjectCn sans form.days form.keyType
    crlUrl caIssuersUrl

/-- Issue what the form asks for and store it. -/
def certsIssue (d : Draw) (db : Db) (principal : Principal) (form : IssueForm) :
    Except Failure (Db × Certs.Issued) := do
  let profile ← Leaf.parseProfile form.profile
  let sans ← Leaf.parseSanLines form.sans
  Certs.issueAndStore E d db principal profile form.subjectCn sans form.days form.keyType form.issuerId
    .ui

/-- Bad input. -/
def isIssueError (e : Failure) : Bool := e.kind == .issue || e.kind == .nameConstraint

/-- The issuer may not be used. -/
def isGrantError (e : Failure) : Bool := e.kind == .issuerForbidden || e.kind == .noGrantedIssuer

/-- The issuer is missing, ambiguous or retired. -/
def isIssuerError (e : Failure) : Bool :=
  e.kind == .issuerRequired || e.kind == .issuerRetired || e.kind == .unknownIssuer

/-- The form is shown again, with the reason. -/
def isAnswered (e : Failure) : Bool :=
  isIssueError e || e.kind == .caNotConfigured || isGrantError e || isIssuerError e

/-! ### The preview -/

/-- A name of the preview, and why it is refused. -/
structure NamePreview where
  name : Str
  ok : Bool
  note : Option String
  deriving DecidableEq, Repr

/-- What is shown of the outcome. -/
structure IssuePreview where
  issuer : Option Str := none
  names : List NamePreview := []
  verdict : Option String := none
  refused : Bool := false
  expires : Option ℤ := none
  cappedFrom : Option ℤ := none
  chain : Option Str := none
  deriving DecidableEq, Repr

def verdictPermitted : String := "Every name is inside what this issuer permits."

def verdictUnconstrained : String :=
  "This issuer sets no name constraints, so any name it is asked for is permitted."

/-- The mark of one name. -/
def previewName (issuerCert : Cert) (name : Str) : Except Failure NamePreview := do
  match ← catching (·.kind == .nameConstraint) (Leaf.checkNameConstraints issuerCert none [name]) with
  | .error exc => pure ⟨name, false, some exc.message⟩
  | .ok () => pure ⟨name, true, none⟩

/-- What the issuer says of all the names: it refuses them, or why it does not. -/
def previewVerdict (issuerCert : Cert) (cn : Option Str) (resolved : List Str) :
    Except Failure (Bool × String) := do
  match ← catching (·.kind == .nameConstraint) (Leaf.checkNameConstraints issuerCert cn resolved) with
  | .error exc => pure (true, exc.message)
  | .ok () =>
    let constraints ← Leaf.constraintsOf issuerCert
    pure (false, if constraints.isEmpty then verdictUnconstrained else verdictPermitted)

/-- The stripped common name of the form, if it is not empty. -/
def previewCn (form : IssueForm) : Option Str :=
  let cn := Str.strip form.subjectCn
  if cn = [] then none else some cn

/-- The names of the form, resolved as the signer does. -/
def previewSans (form : IssueForm) : Except Failure (List Str) := do
  let sans ← Leaf.parseSanLines form.sans
  Leaf.resolveSans sans [] (previewCn form)

/-- What is shown of an issuer and its chain. -/
def previewWith (now : ℤ) (issuer : CaCertificate) (form : IssueForm)
    (chainFor : Except Failure (List CaCertificate)) : Except Failure IssuePreview := do
  let (resolved, refused, verdict) ← match ← catching isIssueError (previewSans form) with
    | .ok resolved => pure (resolved, false, none)
    | .error exc => pure ([], true, some exc.message)
  let names ← resolved.mapM (previewName issuer.cert)
  let (refused, verdict) ← if resolved = [] then pure (refused, verdict) else do
    let (outside, verdict) ← previewVerdict issuer.cert (previewCn form) resolved
    pure (refused || outside, some verdict)
  let now := Instant.wholeSecond now
  let (expires, cappedFrom) ←
    match ← catching isIssueError (Leaf.clampValidity issuer.cert form.days now) with
    | .ok (notAfter, cappedFrom) => pure (some notAfter, cappedFrom)
    | .error _ => pure (none, none)
  let chain ← chainFor
  pure
    { issuer := some issuer.name, names, verdict, refused, expires, cappedFrom
      chain := some ((Str.of " → ").intercalate (chain.map CaCertificate.name)) }

/-- What is shown before a form is submitted; nothing, where no issuer is to be had. -/
def issuePreview (fuel : ℕ) (now : ℤ) (db : Db) (principal : Principal) (form : IssueForm) :
    Option (Except Failure IssuePreview) :=
  match resolveGrantedIssuer db principal form.issuerId with
  | .error e => some (if e.kind = .caNotConfigured ∨ isIssuerError e then .ok {} else .error e)
  | .ok issuer => (chainFor fuel db.cas issuer.id now).map (previewWith now issuer form)

end CertsUi

end Cabin
