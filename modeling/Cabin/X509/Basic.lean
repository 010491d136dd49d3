import Cabin.Exec.Except
import Cabin.Net.Ip

/-!
# Certificates

The part of X.509 the certificate authority reads and writes: names, extensions, certificates and
the signature over them.  Certificates are kept parsed; a PEM text is the certificate it encodes.

* `Name` is a sequence of relative distinguished names in DER order, each attribute with the string
  type it is encoded as, so two names have the same DER exactly when they are equal.  The
  comparison of the Python objects, `Name.pyEq`, does not look at the string type.
* `Crypto` collects what lies outside: key pairs and signatures, the sealing of private keys and
  the text forms of a name.  Its laws are that a signature verifies under the public half of the
  key that made it and that unsealing gives back what was sealed.
* `build` is the certificate builder: it encodes instants in whole seconds and refuses a
  certificate that would end before it begins.
-/

namespace Cabin

/-! ### Instants

An instant is an integer, in microseconds. -/

namespace Instant

/-- A whole number of seconds, as an instant. -/
def ofSeconds (s : ℤ) : ℤ := s * 1000000

/-- The second an instant falls into: encodings drop the microseconds. -/
def seconds (t : ℤ) : ℤ := t / 1000000

/-- The beginning of the second an instant falls into. -/
def wholeSecond (t : ℤ) : ℤ := ofSeconds (seconds t)

/-- A whole number of days. -/
def days (n : ℤ) : ℤ := ofSeconds (86400 * n)

/-- A whole number of minutes. -/
def minutes (n : ℤ) : ℤ := ofSeconds (60 * n)

@[simp] theorem seconds_ofSeconds (s : ℤ) : seconds (ofSeconds s) = s := by
  unfold ofSeconds seconds; omega

theorem seconds_mono {s t : ℤ} (h : s ≤ t) : seconds s ≤ seconds t := by
  unfold seconds; omega

end Instant

/-- The exceptions of the program, by their type. -/
inductive FailureKind where
  | value
  | overflow
  | extensionNotFound
  | unsupportedAlgorithm
  | secrets
  | signing
  | database
  | assertion
  | caNotConfigured
  | unknownIssuer
  | issuerRetired
  | issuerRequired
  | issuerForbidden
  | noGrantedIssuer
  | retire
  | rowRetired
  | crossSign
  | caImport
  | issue
  | nameConstraint
  | revocation
  deriving DecidableEq, Repr

/-- A raised exception: its type and its message. -/
structure Failure where
  /-- The type of the exception. -/
  kind : FailureKind
  /-- Its message. -/
  message : String
  deriving DecidableEq, Repr

/-- Raise an exception. -/
def raise {α : Type} (kind : FailureKind) (message : String) : Except Failure α :=
  .error ⟨kind, message⟩

/-- The instants a `datetime` can express: the years 1 to 9999. -/
def Instant.IsDatetime (t : ℤ) : Prop :=
  Instant.ofSeconds (-62135596800) ≤ t ∧ t < Instant.ofSeconds 253402300800

instance (t : ℤ) : Decidable (Instant.IsDatetime t) := inferInstanceAs (Decidable (_ ∧ _))

/-- `t + timedelta(days=n)`. -/
def Instant.addDays (t n : ℤ) : Except Failure ℤ := do
  refuse (¬ Instant.IsDatetime (t + Instant.days n)) ⟨.overflow, "date value out of range"⟩
  pure (t + Instant.days n)

/-- What can go wrong outside the program's own checks during a call. -/
inductive Fault where
  | unseal
  | sign
  | seal
  | commit
  deriving DecidableEq, Repr

/-- What one call draws from outside: readings of the clock, randomness, and which step of it
fails, if any. -/
structure Draw where
  /-- The clock. -/
  now : ℤ
  /-- The clock as `_years_until` reads it, earlier in a renewal. -/
  yearsNow : ℤ
  /-- A random serial number. -/
  serialNumber : ℕ
  /-- The randomness of a new key. -/
  seed : ℕ
  /-- The nonce a key is sealed with. -/
  nonce : ℕ
  /-- The step that fails. -/
  fault : Option Fault
  deriving DecidableEq, Repr

/-- Raise if this is the step that fails. -/
def Draw.attempt (d : Draw) (f : Fault) (e : Failure) : Except Failure Unit :=
  refuse (d.fault = some f) e

namespace X509

/-! ### Names -/

/-- An object identifier. -/
abbrev Oid := List ℕ

/-- The common name attribute. -/
def commonNameOid : Oid := [2, 5, 4, 3]

/-- The ASN.1 string type an attribute value is encoded as. -/
inductive StringType where
  | utf8
  | printable
  | other (tag : ℕ)
  deriving DecidableEq, Repr

/-- The value of an attribute: a text, or the bytes of a bit string. -/
inductive AttributeValue where
  | text (s : Str)
  | bits (b : List UInt8)
  deriving DecidableEq, Repr

/-- One attribute of a name. -/
structure NameAttribute where
  /-- Its type. -/
  oid : Oid
  /-- How its value is encoded. -/
  type : StringType
  /-- Its value. -/
  value : AttributeValue
  deriving DecidableEq, Repr

/-- A distinguished name: its relative distinguished names, the attributes of each in DER order. -/
abbrev Name := List (List NameAttribute)

/-- `==` of two parsed attributes compares type and value, not the encoding. -/
def NameAttribute.pyEq (a b : NameAttribute) : Bool := a.oid == b.oid && a.value == b.value

/-- `==` of two parsed names: relative distinguished names are compared as sets. -/
def Name.pyEq (a b : Name) : Bool :=
  a.length == b.length && (a.zip b).all fun (r, s) =>
    (r.all fun x => s.any x.pyEq) && s.all fun y => r.any y.pyEq

/-- The attributes of a name with the given type, in order. -/
def Name.attributesForOid (n : Name) (o : Oid) : List NameAttribute :=
  n.flatten.filter fun a => a.oid == o

/-- The common name attribute with the given text: its UTF-8 encoding must have 1 to 64 bytes. -/
def commonNameAttribute (cn : Str) : Except Failure NameAttribute :=
  match Str.utf8Length? cn with
  | none => raise .value "surrogates not allowed"
  | some n =>
    if 1 ≤ n ∧ n ≤ 64 then .ok ⟨commonNameOid, .utf8, .text cn⟩
    else raise .value s!"Attribute's length must be >= 1 and <= 64, but it was {n}"

/-- `x509.Name([NameAttribute(COMMON_NAME, cn)])`. -/
def nameOfCommonName (cn : Str) : Except Failure Name := do
  let a ← commonNameAttribute cn
  pure [[a]]

theorem eq_of_nameOfCommonName {cn : Str} {name : Name} (h : nameOfCommonName cn = .ok name) :
    name = [[⟨commonNameOid, .utf8, .text cn⟩]] := by
  simp only [nameOfCommonName, bind_eq_ok, pure_eq_ok] at h
  obtain ⟨a, ha, rfl⟩ := h
  unfold commonNameAttribute raise at ha
  split at ha
  · cases ha
  · split at ha
    · rw [(Except.ok.inj ha)]
    · cases ha

/-! ### Keys -/

/-- The elliptic curves the program tells apart. -/
inductive Curve where
  | p256
  | p384
  | other (name : Str)
  deriving DecidableEq, Repr

/-- The kinds of key. -/
inductive KeyKind where
  | rsa (bits : ℕ)
  | ec (curve : Curve)
  | ed25519
  | other (name : Str)
  deriving DecidableEq, Repr

/-- A public key: the DER of its SubjectPublicKeyInfo. -/
structure PublicKey where
  /-- The DER. -/
  spki : List UInt8
  deriving DecidableEq, Repr

/-- A private key. -/
structure PrivateKey where
  /-- The kind of the key. -/
  kind : KeyKind
  /-- Its encoding. -/
  der : List UInt8
  deriving DecidableEq, Repr

/-- The key is of one of `SIGNING_KEY_TYPES`. -/
def PrivateKey.isSigningKey (k : PrivateKey) : Bool :=
  match k.kind with
  | .other _ => false
  | _ => true

/-- A key identifier. -/
abbrev KeyId := List UInt8

/-- The key types `generate_key` knows. -/
inductive KeyType where
  | ecdsaP256
  | ecdsaP384
  | rsa4096
  | ed25519
  deriving DecidableEq, Repr

/-- The identifiers of the key types, in the order the form offers them. -/
def keyTypes : List (String × KeyType) :=
  [("ecdsa-p256", .ecdsaP256), ("ecdsa-p384", .ecdsaP384), ("rsa-4096", .rsa4096),
    ("ed25519", .ed25519)]

/-- The kind of a key of this type. -/
def KeyType.kind : KeyType → KeyKind
  | .ecdsaP256 => .ec .p256
  | .ecdsaP384 => .ec .p384
  | .rsa4096 => .rsa 4096
  | .ed25519 => .ed25519

/-- The hash a signature is made over. -/
inductive Hash where
  | sha256
  | sha384
  deriving DecidableEq, Repr

/-- The hash must match the signing key: none for Ed25519, the curve's for ECDSA. -/
def signingAlgorithm (k : PrivateKey) : Option Hash :=
  match k.kind with
  | .ed25519 => none
  | .ec .p384 => some .sha384
  | _ => some .sha256

/-! ### Extensions -/

/-- A general name: what a subject alternative name or a name constraint names. -/
inductive GeneralName where
  | dns (value : Str)
  | ip (value : Ip)
  | network (value : IpNetwork)
  | rfc822 (value : Str)
  | other (tag : ℕ) (value : List UInt8)
  deriving DecidableEq, Repr

/-- What a general name is after encoding: an address keeps its bytes only. -/
def GeneralName.encoded : GeneralName → GeneralName
  | .ip a => .ip a.packed
  | g => g

/-- An extension: its value and whether it is critical. -/
structure Ext (α : Type) where
  /-- The value. -/
  value : α
  /-- The criticality. -/
  critical : Bool
  deriving DecidableEq, Repr

/-- BasicConstraints. -/
structure BasicConstraints where
  /-- The certificate is a CA certificate. -/
  ca : Bool
  /-- How many CA certificates may follow in a path. -/
  pathLength : Option ℕ
  deriving DecidableEq, Repr

/-- KeyUsage. -/
structure KeyUsage where
  digitalSignature : Bool
  contentCommitment : Bool
  keyEncipherment : Bool
  dataEncipherment : Bool
  keyAgreement : Bool
  keyCertSign : Bool
  crlSign : Bool
  encipherOnly : Bool
  decipherOnly : Bool
  deriving DecidableEq, Repr

/-- AuthorityKeyIdentifier. -/
structure AuthorityKeyIdentifier where
  keyIdentifier : Option KeyId
  authorityCertIssuer : Option (List GeneralName)
  authorityCertSerialNumber : Option ℕ
  deriving DecidableEq, Repr

/-- NameConstraints: a side that is absent is `none`. -/
structure NameConstraints where
  permittedSubtrees : Option (List GeneralName)
  excludedSubtrees : Option (List GeneralName)
  deriving DecidableEq, Repr

/-- The extensions of a certificate. -/
structure Extensions where
  basicConstraints : Option (Ext BasicConstraints)
  keyUsage : Option (Ext KeyUsage)
  subjectKeyIdentifier : Option (Ext KeyId)
  authorityKeyIdentifier : Option (Ext AuthorityKeyIdentifier) := none
  nameConstraints : Option (Ext NameConstraints) := none
  subjectAlternativeName : Option (Ext (List GeneralName)) := none
  extendedKeyUsage : Option (Ext (List Oid)) := none
  crlDistributionPoints : Option (Ext (List Str)) := none
  authorityInformationAccess : Option (Ext (List Str)) := none
  /-- Extensions the program never reads. -/
  others : List (Oid × Bool × List UInt8) := []
  /-- The extensions do not parse: reading any of them raises. -/
  malformed : Bool := false
  deriving DecidableEq, Repr

/-! ### Certificates -/

/-- The signed part of a certificate. -/
structure Tbs where
  /-- The serial number. -/
  serialNumber : ℕ
  /-- The hash of the signature algorithm. -/
  signatureHash : Option Hash
  /-- The issuer name. -/
  issuer : Name
  /-- The start of the validity, in seconds. -/
  notBefore : ℤ
  /-- The end of the validity, in seconds. -/
  notAfter : ℤ
  /-- The subject name. -/
  subject : Name
  /-- The public key of the subject. -/
  publicKey : PublicKey
  /-- The extensions. -/
  extensions : Extensions
  deriving DecidableEq, Repr

/-- The bytes of a signature. -/
abbrev Signature := List UInt8

/-- A certificate. -/
structure Cert where
  /-- The signed part. -/
  tbs : Tbs
  /-- The signature over it. -/
  signature : Signature
  deriving DecidableEq, Repr

namespace Cert

variable (c : Cert)

/-- The subject name. -/
def subject : Name := c.tbs.subject

/-- The issuer name. -/
def issuer : Name := c.tbs.issuer

/-- The public key. -/
def publicKey : PublicKey := c.tbs.publicKey

/-- The end of the validity, as an instant. -/
def notValidAfter : ℤ := Instant.ofSeconds c.tbs.notAfter

/-- The start of the validity, as an instant. -/
def notValidBefore : ℤ := Instant.ofSeconds c.tbs.notBefore

/-- Read one extension (`extensions.get_extension_for_class`). -/
def extension {α : Type} (field : Extensions → Option (Ext α)) : Except Failure (Ext α) :=
  if c.tbs.extensions.malformed then raise .value "the extensions could not be parsed"
  else match field c.tbs.extensions with
    | some e => .ok e
    | none => raise .extensionNotFound "no such extension was found"

/-- Read an extension that may be absent: `none` for `ExtensionNotFound`. -/
def extension? {α : Type} (field : Extensions → Option (Ext α)) :
    Except Failure (Option (Ext α)) :=
  match c.extension field with
  | .ok e => .ok (some e)
  | .error e => if e.kind = .extensionNotFound then .ok none else .error e

variable {c}

theorem extension_eq_ok {α : Type} {field : Extensions → Option (Ext α)} {e : Ext α} :
    c.extension field = .ok e ↔
      c.tbs.extensions.malformed = false ∧ field c.tbs.extensions = some e := by
  unfold extension raise
  cases c.tbs.extensions.malformed <;> cases field c.tbs.extensions <;> simp

theorem extension?_eq_ok {α : Type} {field : Extensions → Option (Ext α)} {e : Option (Ext α)} :
    c.extension? field = .ok e ↔
      c.tbs.extensions.malformed = false ∧ field c.tbs.extensions = e := by
  unfold extension? extension raise
  cases c.tbs.extensions.malformed <;> cases field c.tbs.extensions <;> simp

end Cert

/-! ### Revocation lists -/

/-- The reasons a certificate is revoked for. -/
inductive RevocationReason where
  | unspecified
  | keyCompromise
  | affiliationChanged
  | superseded
  | cessationOfOperation
  deriving DecidableEq, Repr

/-- One entry of a revocation list; a reason that is absent means `unspecified`. -/
structure RevokedCertificate where
  /-- The serial number of the certificate. -/
  serialNumber : ℕ
  /-- The date of the revocation, in seconds. -/
  revocationDate : ℤ
  /-- The CRLReason extension. -/
  reason : Option RevocationReason
  deriving DecidableEq, Repr

/-- The signed part of a revocation list. -/
structure TbsCrl where
  /-- The issuer name. -/
  issuer : Name
  /-- The hash of the signature algorithm. -/
  signatureHash : Option Hash
  /-- When the list was made, in seconds. -/
  thisUpdate : ℤ
  /-- When the next one is due, in seconds. -/
  nextUpdate : ℤ
  /-- The CRLNumber extension. -/
  crlNumber : ℕ
  /-- The AuthorityKeyIdentifier extension. -/
  authorityKeyIdentifier : AuthorityKeyIdentifier
  /-- The entries. -/
  revoked : List RevokedCertificate
  deriving DecidableEq, Repr

/-- A revocation list. -/
structure Crl where
  /-- The signed part. -/
  tbs : TbsCrl
  /-- The signature over it. -/
  signature : Signature
  deriving DecidableEq, Repr

/-- A private key as it is stored: the text of a token. -/
abbrev Sealed := Str

/-- What the program takes from outside: key pairs and signatures, sealing, the text forms of a
name. -/
structure Crypto where
  /-- The public half of a private key. -/
  publicKey : PrivateKey → PublicKey
  /-- The kind of a public key. -/
  publicKeyKind : PublicKey → KeyKind
  /-- The library knows the algorithm of the public key (`public_key()` loads it). -/
  knowsKey : PublicKey → Bool
  /-- Sign with a private key. -/
  sign : PrivateKey → Tbs → Signature
  /-- Check a signature with a public key. -/
  verify : PublicKey → Tbs → Signature → Bool
  /-- A signature verifies under the public half of the key that made it. -/
  verify_sign : ∀ k m, verify (publicKey k) m (sign k m) = true
  /-- Sign a revocation list. -/
  signCrl : PrivateKey → TbsCrl → Signature
  /-- A new private key of the given type, from fresh randomness. -/
  generate : KeyType → ℕ → PrivateKey
  /-- A generated key has the kind asked for. -/
  generate_kind : ∀ t r, (generate t r).kind = t.kind
  /-- The SHA-1 of a public key, the key identifier of RFC 5280's first method. -/
  keyIdentifier : PublicKey → KeyId
  /-- Seal a private key, with a fresh nonce. -/
  sealKey : ℕ → PrivateKey → Sealed
  /-- Unseal a stored key; `none` where the token does not authenticate. -/
  unsealKey : Sealed → Option PrivateKey
  /-- Unsealing gives back what was sealed. -/
  unsealKey_sealKey : ∀ n k, unsealKey (sealKey n k) = some k
  /-- The RFC 4514 text of a name. -/
  rfc4514String : Name → Str
  /-- Decode bytes as UTF-8, replacing what is not. -/
  decodeReplace : List UInt8 → Str
  /-- The text is a mail address an `RFC822Name` may hold. -/
  isMailbox : Str → Bool

/-- The signed part the builder encodes: instants in whole seconds, addresses as bytes. -/
def encodeTbs (key : PrivateKey) (serialNumber : ℕ) (issuer subject : Name)
    (publicKey : PublicKey) (notBefore notAfter : ℤ) (extensions : Extensions) : Tbs :=
  { serialNumber, signatureHash := signingAlgorithm key, issuer, subject, publicKey,
    notBefore := Instant.seconds notBefore, notAfter := Instant.seconds notAfter,
    extensions := { extensions with
      subjectAlternativeName := extensions.subjectAlternativeName.map fun e =>
        { e with value := e.value.map GeneralName.encoded } } }

/-- No certificate is dated before 1950. -/
def earliestUtcTime : ℤ := Instant.ofSeconds (-631152000)

/-- The certificate builder: check the dates, encode and sign with `key`. -/
def build (E : Crypto) (d : Draw) (key : PrivateKey) (issuer subject : Name)
    (publicKey : PublicKey) (notBefore notAfter : ℤ) (extensions : Extensions) :
    Except Failure Cert := do
  refuse (notBefore < earliestUtcTime)
    ⟨.value, "The not valid before date must be on or after 1950 January 1."⟩
  refuse (notAfter < notBefore)
    ⟨.value, "The not valid after date must be after the not valid before date."⟩
  d.attempt .sign ⟨.signing, "signing failed"⟩
  let tbs := encodeTbs key d.serialNumber issuer subject publicKey notBefore notAfter extensions
  pure ⟨tbs, E.sign key tbs⟩

/-- What `public_key()` raises for a key whose algorithm is not known. -/
def unknownKey : Failure := ⟨.unsupportedAlgorithm, "Unknown key type"⟩

/-- `Certificate.verify_directly_issued_by`: the issuer name is the parent's subject, encoded the
same way, and the signature verifies under the parent's key. -/
def verifyDirectlyIssuedBy (E : Crypto) (c parent : Cert) : Except Failure Unit := do
  refuse (c.issuer ≠ parent.subject)
    ⟨.value, "Issuer certificate subject does not match certificate issuer."⟩
  refuse (E.knowsKey parent.publicKey = false) unknownKey
  refuse (E.verify parent.publicKey c.tbs c.signature = false) ⟨.signing, "InvalidSignature"⟩

/-- `c` was issued by `parent`: the names match and the signature verifies. -/
def IssuedBy (E : Crypto) (c parent : Cert) : Prop :=
  c.issuer = parent.subject ∧ E.verify parent.publicKey c.tbs c.signature = true

instance (E : Crypto) (c parent : Cert) : Decidable (IssuedBy E c parent) :=
  inferInstanceAs (Decidable (_ ∧ _))

variable {E : Crypto}

/-- What the builder returns: the encoded certificate, signed by `key`. -/
theorem build_eq_ok {d : Draw} {key : PrivateKey} {issuer subject : Name} {pk : PublicKey}
    {notBefore notAfter : ℤ} {x : Extensions} {c : Cert}
    (h : build E d key issuer subject pk notBefore notAfter x = .ok c) :
    notBefore ≤ notAfter ∧
      c.tbs = encodeTbs key d.serialNumber issuer subject pk notBefore notAfter x ∧
      E.verify (E.publicKey key) c.tbs c.signature = true := by
  simp only [build, Draw.attempt, bind_eq_ok, refuse_eq_ok, pure_eq_ok] at h
  obtain ⟨-, -, -, hd, -, -, rfl⟩ := h
  exact ⟨Int.not_lt.1 hd, rfl, E.verify_sign _ _⟩

theorem verifyDirectlyIssuedBy_eq_ok {c parent : Cert} {u : Unit} :
    verifyDirectlyIssuedBy E c parent = .ok u ↔
      IssuedBy E c parent ∧ E.knowsKey parent.publicKey = true := by
  simp only [verifyDirectlyIssuedBy, IssuedBy, bind_eq_ok, refuse_eq_ok, not_not,
    Bool.not_eq_false]
  constructor
  · rintro ⟨-, hname, -, hkey, hverify⟩
    exact ⟨⟨hname, hverify⟩, hkey⟩
  · rintro ⟨⟨hname, hverify⟩, hkey⟩
    exact ⟨(), hname, (), hkey, hverify⟩

/-- Issuing depends on the parent's name and key only. -/
theorem IssuedBy.congr {c p q : Cert} (h : IssuedBy E c p) (hs : q.subject = p.subject)
    (hk : q.publicKey = p.publicKey) : IssuedBy E c q :=
  ⟨h.1.trans hs.symm, hk ▸ h.2⟩

end X509

end Cabin
