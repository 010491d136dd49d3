import Cabin.Store.Table
import Cabin.Ca.Leaf

/-!
# The tables of the CA

The rows the CA keeps (`ca/service.py`, `ca/certs.py`, `ca/crl.py`, `issuer_grants.py`) and the
database they form.  A call that raises leaves the database alone: it is a function to
`Except Failure`, and its transaction, if it returns, replaces the database as a whole.
-/

namespace Cabin

open X509

/-- The kinds of CA certificate. -/
inductive CaKind where
  | root
  | intermediate
  | cross
  deriving DecidableEq, Repr

/-- A CA certificate that is retired no longer signs certificates. -/
inductive CaStatus where
  | active
  | retired
  deriving DecidableEq, Repr

/-- A row of `ca_certificates`. -/
structure CaCertificate where
  /-- The primary key. -/
  id : ℕ
  /-- The kind of the certificate. -/
  kind : CaKind
  /-- The common name of the certificate's subject. -/
  name : Str
  /-- The row that signed it; for a cross row the signing root. -/
  parentId : Option ℕ
  /-- The root a cross row duplicates. -/
  crossOfId : Option ℕ
  /-- The status of the row. -/
  status : CaStatus
  /-- The certificate. -/
  cert : Cert
  /-- The private key, if the CA has it. -/
  keySealed : Option Sealed
  deriving DecidableEq, Repr

instance : Keyed CaCertificate ℕ := ⟨CaCertificate.id⟩

@[simp] theorem key_caCertificate (r : CaCertificate) : key r = r.id := rfl

/-- The table of CA certificates. -/
abbrev CaTable := Table CaCertificate

/-- Which front door a certificate came out of. -/
inductive CertSource where
  | ui
  | api
  | acme
  | mcp
  | system
  deriving DecidableEq, Repr

/-- A row of `certificates`: one issued leaf. -/
structure Certificate where
  /-- The primary key. -/
  id : ℕ
  /-- The row that signed it. -/
  issuerId : ℕ
  /-- The serial number, unique over all rows. -/
  serialNumber : ℕ
  /-- The common name, empty if there is none. -/
  subjectCn : Str
  /-- The names the certificate carries. -/
  sans : List Str
  /-- The profile it was issued for. -/
  profile : Leaf.Profile
  /-- The start of its validity. -/
  notBefore : ℤ
  /-- The end of its validity. -/
  notAfter : ℤ
  /-- The certificate. -/
  cert : Cert
  /-- The private key, if it was made here. -/
  keySealed : Option Sealed
  /-- When it was revoked. -/
  revokedAt : Option ℤ
  /-- Why it was revoked. -/
  revocationReason : Option RevocationReason
  /-- The front door it came out of. -/
  source : CertSource
  deriving DecidableEq, Repr

instance : Keyed Certificate ℕ := ⟨Certificate.id⟩

@[simp] theorem key_certificate (r : Certificate) : key r = r.id := rfl

/-- A row of `crl_state`: the current revocation list of one issuer. -/
structure CrlState where
  /-- The issuer, the primary key. -/
  issuerId : ℕ
  /-- The number of the list. -/
  crlNumber : ℕ
  /-- When it was made. -/
  generatedAt : ℤ
  /-- The list. -/
  crl : Crl
  deriving DecidableEq, Repr

instance : Keyed CrlState ℕ := ⟨CrlState.issuerId⟩

@[simp] theorem key_crlState (r : CrlState) : key r = r.issuerId := rfl

/-- The roles of users and API tokens. -/
inductive Role where
  | superadmin
  | admin
  | viewer
  deriving DecidableEq, Repr

/-- Who a permission is checked for. -/
inductive Principal where
  | user (id : ℕ) (role : Role)
  | token (id : ℕ) (role : Role)
  | acme
  | system
  deriving DecidableEq, Repr

/-- A superadmin, an ACME account and the program itself need no grant. -/
def Principal.unrestricted : Principal → Bool
  | user _ role => role == .superadmin
  | token _ role => role == .superadmin
  | acme => true
  | system => true

/-- The database of the CA. -/
structure Db where
  /-- The table `ca_certificates`. -/
  cas : CaTable
  /-- The table `certificates`. -/
  certificates : Table Certificate
  /-- The table `crl_state`. -/
  crls : Table CrlState
  /-- The table `user_issuers`: pairs of a user and an issuer. -/
  userIssuers : List (ℕ × ℕ)
  /-- The table `token_issuers`: pairs of an API token and an issuer. -/
  tokenIssuers : List (ℕ × ℕ)
  /-- The public HTTP origin of the configured base URL, if one is configured. -/
  origin : Option Str
  deriving DecidableEq

/-- The empty database. -/
def Db.empty : Db := ⟨.empty, .empty, .empty, [], [], none⟩

/-- Commit the transaction, which may fail. -/
def commit {σ α : Type} (d : Draw) (db : σ) (a : α) : Except Failure (σ × α) := do
  d.attempt .commit ⟨.database, "commit failed"⟩
  pure (db, a)

@[simp] theorem commit_eq_ok {σ α : Type} {d : Draw} {db db' : σ} {a b : α} :
    commit d db a = .ok (db', b) ↔ d.fault ≠ some .commit ∧ db = db' ∧ a = b := by
  simp only [commit, Draw.attempt, bind_eq_ok, refuse_eq_ok, pure_eq_ok, Prod.mk.injEq]
  exact ⟨fun ⟨_, hf, h⟩ => ⟨hf, h⟩, fun ⟨hf, h⟩ => ⟨(), hf, h⟩⟩

/-- Seal a private key before it is stored. -/
def sealKey (E : Crypto) (d : Draw) (key : PrivateKey) : Except Failure Sealed := do
  d.attempt .seal ⟨.secrets, "sealing failed"⟩
  pure (E.sealKey d.nonce key)

@[simp] theorem sealKey_eq_ok {E : Crypto} {d : Draw} {k : PrivateKey} {s : Sealed} :
    sealKey E d k = .ok s ↔ d.fault ≠ some .seal ∧ E.sealKey d.nonce k = s := by
  simp only [sealKey, Draw.attempt, bind_eq_ok, refuse_eq_ok, pure_eq_ok]
  exact ⟨fun ⟨_, hf, h⟩ => ⟨hf, h⟩, fun ⟨hf, h⟩ => ⟨(), hf, h⟩⟩

end Cabin
