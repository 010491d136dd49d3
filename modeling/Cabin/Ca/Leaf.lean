import Cabin.Ca.X509

/-!
# Leaf certificates

The pure part of issuance (`ca/leaf.py`): the policy on subject alternative names, the name
constraint check, the validity clamp and the one place a leaf is assembled, `buildLeaf`.  Both
flows end there: `issueCertificate` with a key of its own making and `signCsr` with the key of a
certificate signing request.

* `buildLeaf_spec` says what a returned leaf looks like;
* `checkNameConstraints_congr`: the name constraint check reads the NameConstraints extension of
  the issuer and nothing else of it.
-/

namespace Cabin

namespace Leaf

open X509

/-! ### Limits -/

/-- How far `not_before` is set back. -/
def backdate : ℤ := Instant.minutes 5

def minDays : ℤ := 1

def maxDays : ℤ := 3650

def defaultDays : ℤ := 365

/-- At most this many names in one certificate. -/
def maxSans : ℕ := 100

/-- The longest common name. -/
def maxCnLength : ℕ := 64

def maxHostnameLength : ℕ := 253

/-- The profile of a leaf: what it may be used for. -/
inductive Profile where
  | server
  | client
  deriving DecidableEq, Repr

/-- The value of a profile. -/
def Profile.value : Profile → Str
  | server => Str.of "server"
  | client => Str.of "client"

/-- The profile a form names. -/
def parseProfile (value : Str) : Except Failure Profile :=
  match [Profile.server, .client].find? fun p => p.value == value with
  | some profile => .ok profile
  | none => raise .issue s!"unknown profile: {value.repr}"

/-- The extended key usage of a profile. -/
def Profile.eku : Profile → Oid
  | server => [1, 3, 6, 1, 5, 5, 7, 3, 1]
  | client => [1, 3, 6, 1, 5, 5, 7, 3, 2]

/-! ### Subject alternative names -/

/-- One label of a host name: letters, digits and inner hyphens, at most 63 of them. -/
def isLabel (s : Str) : Bool :=
  s.all (fun c => Str.isAlnum c || c == 0x2D) && s.length ≤ 63 &&
    s.head?.any Str.isAlnum && s.getLast?.any Str.isAlnum

/-- The text matches the host name pattern up to the end of the text. -/
def isLabels (s : Str) : Bool :=
  (Str.splitAt 0x2E (if (Str.of "*.").isPrefixOf s then s.drop 2 else s)).all isLabel

/-- A host name, perhaps with a wildcard as its first label.  The pattern's `$` also matches before
a final line feed. -/
def isHostname (s : Str) : Bool :=
  s.length ≤ maxHostnameLength &&
    (isLabels s || (s.getLast? == some 0x0A && isLabels s.dropLast))

/-- The text is an IP address. -/
def isIp (s : Str) : Bool := (ipAddress s).isSome

/-- The forms of name a leaf may carry. -/
inductive SanKind where
  | dns
  | ip
  | email
  deriving DecidableEq, Repr

namespace SanKind

/-- The word in front of the colon, in lower case. -/
def word : SanKind → Str
  | dns => Str.of "dns"
  | ip => Str.of "ip"
  | email => Str.of "email"

/-- The word in front of the colon of a canonical entry. -/
def upper : SanKind → Str
  | dns => Str.of "DNS"
  | ip => Str.of "IP"
  | email => Str.of "EMAIL"

/-- The kind a lower case word names. -/
def ofWord (s : Str) : Option SanKind := [dns, ip, email].find? fun k => k.word == s

/-- The kind the first part of a canonical entry names. -/
def ofUpper (s : Str) : Option SanKind := [dns, ip, email].find? fun k => k.upper == s

end SanKind

/-- A canonical entry: `DNS:`, `IP:` or `EMAIL:` and the value. -/
def canonical (kind : SanKind) (value : Str) : Str := kind.upper ++ 0x3A :: value

/-- The kind of an entry without a prefix. -/
def bareKind (raw : Str) : SanKind × Str :=
  if isIp raw then (.ip, raw) else if 0x40 ∈ raw then (.email, raw) else (.dns, raw)

/-- The kind and the value of an entry: what stands before the colon counts only if it is one of
the three words. -/
def splitKind (raw : Str) : SanKind × Str :=
  match Str.partition 0x3A raw with
  | (_, none) => bareKind raw
  | (head, some rest) =>
    match SanKind.ofWord (Str.lower (Str.strip head)) with
    | some kind => (kind, Str.strip rest)
    | none => bareKind raw

/-- One line of input as a canonical entry. -/
def normalizeSan (entry : Str) : Except Failure Str := do
  let (kind, value) := splitKind (Str.strip entry)
  refuse (value = []) ⟨.issue, s!"empty SAN entry: {entry.repr}"⟩
  refuse (kind = .ip ∧ isIp value = false) ⟨.issue, s!"not a valid IP address: {value.repr}"⟩
  refuse (kind = .dns ∧ isHostname value = false) ⟨.issue, s!"not a valid hostname: {value.repr}"⟩
  refuse (kind = .email ∧ (0x40 ∉ value ∨ value.any Str.isSpace))
    ⟨.issue, s!"not a valid email address: {value.repr}"⟩
  pure (canonical kind value)

/-- One name per line: the canonical entries of the lines that are not blank, each once. -/
def parseSanLines (text : Str) : Except Failure (List Str) := do
  let entries ← ((Str.splitLines text).filter fun line => Str.strip line ≠ []).mapM normalizeSan
  pure (Str.unique entries)

/-- A canonical entry as a general name. -/
def generalName (E : Crypto) (san : Str) : Except Failure GeneralName :=
  let (head, rest) := Str.partition 0x3A san
  let value := rest.getD []
  match SanKind.ofUpper head with
  | some .dns =>
    if value.isAscii then .ok (.dns value) else raise .value "DNSName values should be ASCII"
  | some .ip =>
    match ipAddress value with
    | some a => .ok (.ip a)
    | none => raise .value s!"{value.repr} does not appear to be an IPv4 or IPv6 address"
  | some .email =>
    if E.isMailbox value then .ok (.rfc822 value) else raise .value "Invalid rfc822name value"
  | none => raise .issue s!"unsupported SAN entry: {san.repr}"

/-- The canonical entry of a general name; other forms are dropped. -/
def sanString : GeneralName → Option Str
  | .dns v => some (canonical .dns v)
  | .ip a => some (canonical .ip a.toStr)
  | .network n => some (canonical .ip n.toStr)
  | .rfc822 v => some (canonical .email v)
  | .other _ _ => none

/-- The canonical entries of general names, each once. -/
def sanStrings (names : List GeneralName) : List Str := Str.unique (names.filterMap sanString)

/-- A certificate signing request, parsed. -/
structure Csr where
  /-- The subject name. -/
  subject : Name
  /-- The public key. -/
  publicKey : PublicKey
  /-- The SubjectAlternativeName extension, if there is one. -/
  subjectAlternativeName : Option (List GeneralName)
  /-- Its names have been decoded: an address is its bytes. -/
  decoded : ∀ g ∈ subjectAlternativeName.getD [], g.encoded = g := by decide
  /-- The extensions do not parse. -/
  malformed : Bool := false
  /-- The request is signed by its own key. -/
  isSignatureValid : Bool := true
  deriving DecidableEq, Repr

/-- The names a request asks for, under the same policy as typed ones. -/
def csrSans (csr : Csr) : Except Failure (List Str) :=
  if csr.malformed then raise .issue "could not parse the CSR's extensions"
  else match csr.subjectAlternativeName with
    | none => .ok []
    | some names => (sanStrings names).mapM normalizeSan

/-- The common name as a subject alternative name. -/
def sanFromCn (cn : Str) : Option Str :=
  if isIp cn then some (canonical .ip cn)
  else if isHostname cn then some (canonical .dns cn)
  else none

/-- Explicit names win, then the request's, then the common name. -/
def chooseSans (explicit csrSans : List Str) (cn : Option Str) : Except Failure (List Str) :=
  if explicit ≠ [] then .ok explicit
  else if csrSans ≠ [] then .ok csrSans
  else match cn.bind sanFromCn with
    | some san => .ok [san]
    | none =>
      raise .issue "no usable SAN: give at least one SAN, or use a hostname or IP as CN"

/-- The names of a leaf: the winning list, each name once. -/
def resolveSans (explicit csrSans : List Str) (cn : Option Str) : Except Failure (List Str) := do
  let chosen ← chooseSans explicit csrSans cn
  let resolved := Str.unique chosen
  refuse (maxSans < resolved.length) ⟨.issue, s!"too many SANs: at most {maxSans} are allowed"⟩
  pure resolved

/-- The common name without surrounding white space: 1 to 64 characters, none of them control
characters. -/
def validateCn (subjectCn : Str) : Except Failure Str := do
  let cn := Str.strip subjectCn
  refuse (cn = []) ⟨.issue, "subject CN must not be empty"⟩
  refuse (maxCnLength < cn.length)
    ⟨.issue, s!"subject CN must be at most {maxCnLength} characters"⟩
  refuse (cn.any fun c => c < 32 || c == 127)
    ⟨.issue, "subject CN must not contain control characters"⟩
  pure cn

/-- The number of days is in range. -/
def validateDays (days : ℤ) : Except Failure Unit :=
  refuse (days < minDays ∨ maxDays < days)
    ⟨.issue, s!"days must be between {minDays} and {maxDays}"⟩

/-! ### Name constraints -/

/-- What an operator wants one intermediate constrained to. -/
structure NameConstraintSpec where
  permittedDns : List Str := []
  permittedIp : List IpNetwork := []
  excludedDns : List Str := []
  excludedIp : List IpNetwork := []
  deriving DecidableEq, Repr

/-- No constraint at all. -/
def NameConstraintSpec.isEmpty (s : NameConstraintSpec) : Bool :=
  s.permittedDns.isEmpty && s.permittedIp.isEmpty && s.excludedDns.isEmpty && s.excludedIp.isEmpty

/-- A side without entries is absent. -/
def side (dns : List Str) (ip : List IpNetwork) : Option (List GeneralName) :=
  match dns.map .dns ++ ip.map .network with
  | [] => none
  | gs => some gs

/-- The extension for `spec`; an empty one means no extension. -/
def nameConstraintsExtension (spec : NameConstraintSpec) : Option NameConstraints :=
  if spec.isEmpty then none
  else some ⟨side spec.permittedDns spec.permittedIp, side spec.excludedDns spec.excludedIp⟩

/-- `name` is `constraint` or below it; both in lower case. -/
def dnsWithin (name constraint : Str) : Bool :=
  name == constraint || (0x2E :: constraint).isSuffixOf name

/-- The DNS subtrees among general names. -/
def dnsSubtrees (gs : List GeneralName) : List Str :=
  gs.filterMap fun
    | .dns v => some v
    | _ => none

/-- The IP subtrees among general names. -/
def ipSubtrees (gs : List GeneralName) : List IpNetwork :=
  gs.filterMap fun
    | .network n => some n
    | _ => none

/-- The constraints of an issuer, as far as they are implemented. -/
def constraintsOf (cert : Cert) : Except Failure NameConstraintSpec := do
  match ← cert.extension? Extensions.nameConstraints with
  | none => pure {}
  | some nc =>
    let permitted := nc.value.permittedSubtrees.getD []
    let excluded := nc.value.excludedSubtrees.getD []
    pure
      { permittedDns := (dnsSubtrees permitted).map Str.lower, permittedIp := ipSubtrees permitted,
        excludedDns := (dnsSubtrees excluded).map Str.lower, excludedIp := ipSubtrees excluded }

/-- A value may not be in an excluded subtree and, if there are permitted subtrees of its form, has
to be in one of them. -/
def checkSubtrees {α : Type} (shown label : String) (within : α → Bool) (display : α → String)
    (permitted excluded : List α) : Except Failure Unit :=
  match excluded.find? within with
  | some hit =>
    raise .nameConstraint
      s!"{shown} is excluded by this CA's name constraints (excluded {label}: {display hit})"
  | none =>
    refuse (permitted ≠ [] ∧ permitted.any within = false)
      ⟨.nameConstraint, shown ++ " is not permitted by this CA's name constraints (permitted " ++
        label ++ ": " ++ String.intercalate ", " (permitted.map display) ++ ")"⟩

/-- The check of a DNS name. -/
def checkDns (name : Str) (permitted excluded : List GeneralName) : Except Failure Unit :=
  checkSubtrees name.text "DNS" (fun c => dnsWithin (Str.lower name) (Str.lower c)) Str.text
    (dnsSubtrees permitted) (dnsSubtrees excluded)

/-- The check of an address: containment in a network of its family. -/
def checkIp (address : Ip) (permitted excluded : List GeneralName) : Except Failure Unit :=
  checkSubtrees address.toStr.text "IP" (fun n => n.contains address) (fun n => n.toStr.text)
    (ipSubtrees permitted) (ipSubtrees excluded)

/-- A mail address is refused if there is any subtree of its form: they are not implemented. -/
def checkUnevaluable (san value : Str) (permitted excluded : List GeneralName) :
    Except Failure Unit :=
  refuse ((permitted ++ excluded).any fun
      | .rfc822 _ => true
      | _ => false)
    ⟨.nameConstraint, san.text ++ " cannot be evaluated against this CA's name constraints: " ++
      "cabin does not implement rfc822Name subtrees (value: " ++ value.text ++ ")"⟩

/-- The check of one canonical entry. -/
def checkName (permitted excluded : List GeneralName) (name : Str) : Except Failure Unit :=
  let (head, rest) := Str.partition 0x3A name
  let value := rest.getD []
  match SanKind.ofUpper head with
  | some .dns => checkDns value permitted excluded
  | some .ip =>
    match ipAddress value with
    | some a => checkIp a permitted excluded
    | none => raise .value s!"{value.repr} does not appear to be an IPv4 or IPv6 address"
  | some .email => checkUnevaluable name value permitted excluded
  | none => .ok ()

/-- The names to check: the common name counts as a DNS name only if no entry is one. -/
def constrainedNames (subjectCn : Option Str) (sans : List Str) : List Str :=
  match subjectCn with
  | none => sans
  | some cn =>
    if sans.any (Str.of "DNS:").isPrefixOf || !isHostname cn then sans
    else sans ++ [canonical .dns cn]

/-- Refuse a leaf outside the issuer's name constraints. -/
def checkNameConstraints (issuerCert : Cert) (subjectCn : Option Str) (sans : List Str) :
    Except Failure Unit := do
  match ← issuerCert.extension? Extensions.nameConstraints with
  | none => pure ()
  | some nc =>
    let permitted := nc.value.permittedSubtrees.getD []
    let excluded := nc.value.excludedSubtrees.getD []
    (constrainedNames subjectCn sans).forM (checkName permitted excluded)

/-! ### Assembling a leaf -/

/-- The end of a leaf, at most the issuer's, and the end asked for where that is later. -/
def clampValidity (issuerCert : Cert) (days now : ℤ) : Except Failure (ℤ × Option ℤ) := do
  let requested ← Instant.addDays now days
  let notAfter := min requested issuerCert.notValidAfter
  refuse (notAfter ≤ now) ⟨.issue, "the signing CA certificate has expired"⟩
  pure (notAfter, if notAfter < requested then some requested else none)

/-- The KeyUsage of a leaf: an RSA server key may also transport keys. -/
def keyUsage (E : Crypto) (profile : Profile) (publicKey : PublicKey) : KeyUsage :=
  { digitalSignature := true, contentCommitment := false
    keyEncipherment := profile == .server && (match E.publicKeyKind publicKey with
      | .rsa _ => true
      | _ => false)
    dataEncipherment := false, keyAgreement := false, keyCertSign := false, crlSign := false,
    encipherOnly := false, decipherOnly := false }

/-- A subject with this common name, or an empty one. -/
def leafSubject : Option Str → Except Failure Name
  | none => .ok []
  | some cn => nameOfCommonName cn

/-- A URL that is absent or empty gives no extension. -/
def urlExtension (url : Option Str) : Option (Ext (List Str)) :=
  (url.filter (· ≠ [])).map fun u => ⟨[u], false⟩

/-- The extensions of a leaf. -/
def leafExtensions (E : Crypto) (publicKey : PublicKey) (subjectCn : Option Str)
    (profile : Profile) (aki : AuthorityKeyIdentifier) (names : List GeneralName)
    (crlUrl caIssuersUrl : Option Str) : Extensions :=
  { basicConstraints := some ⟨⟨false, none⟩, true⟩
    keyUsage := some ⟨keyUsage E profile publicKey, true⟩
    extendedKeyUsage := some ⟨[profile.eku], false⟩
    subjectKeyIdentifier := some ⟨E.keyIdentifier publicKey, false⟩
    authorityKeyIdentifier := some ⟨aki, false⟩
    subjectAlternativeName := some ⟨names, subjectCn.isNone⟩
    crlDistributionPoints := urlExtension crlUrl
    authorityInformationAccess := urlExtension caIssuersUrl }

/-- The one place a leaf is assembled and signed. -/
def buildLeaf (E : Crypto) (d : Draw) (issuerCert : Cert) (issuerKey : PrivateKey)
    (publicKey : PublicKey) (subjectCn : Option Str) (sans : List Str) (profile : Profile)
    (days : ℤ) (crlUrl caIssuersUrl : Option Str) : Except Failure (Cert × Option ℤ) := do
  let (notAfter, cappedFrom) ← clampValidity issuerCert days d.now
  checkNameConstraints issuerCert subjectCn sans
  let subject ← leafSubject subjectCn
  let aki ← CaX509.authorityKeyIdentifier E issuerCert issuerKey
  let names ← sans.mapM (generalName E)
  let cert ← build E d issuerKey issuerCert.subject subject publicKey (d.now - backdate) notAfter
    (leafExtensions E publicKey subjectCn profile aki names crlUrl caIssuersUrl)
  pure (cert, cappedFrom)

/-- Generate a key and issue a leaf for it. -/
def issueCertificate (E : Crypto) (d : Draw) (issuerCert : Cert) (issuerKey : PrivateKey)
    (profile : Profile) (subjectCn : Str) (sans : List Str) (days : ℤ) (keyType : String)
    (crlUrl caIssuersUrl : Option Str) : Except Failure (Cert × PrivateKey × Option ℤ) := do
  let cn ← validateCn subjectCn
  validateDays days
  refuse ((keyTypes.lookup keyType).isNone) ⟨.issue, s!"unsupported key type: {(Str.of keyType).repr}"⟩
  let explicit ← sans.mapM normalizeSan
  let resolved ← resolveSans explicit [] (some cn)
  let key ← CaX509.generateKey E d keyType
  let (cert, cappedFrom) ← buildLeaf E d issuerCert issuerKey (E.publicKey key) (some cn) resolved
    profile days crlUrl caIssuersUrl
  pure (cert, key, cappedFrom)

/-- The subject of a signed request: its first common name, else the fallback, else none. -/
def csrSubject (csr : Csr) (fallback : Option Str) (allowEmptySubject : Bool) :
    Except Failure (Option Str) :=
  match (csr.subject.attributesForOid commonNameOid).head?.map NameAttribute.value with
  | some (.text cn) => (validateCn cn).map some
  | some (.bits _) => raise .issue "the CSR's subject common name is not a text value"
  | none =>
    match fallback with
    | some cn => (validateCn cn).map some
    | none =>
      if allowEmptySubject then .ok none else raise .issue "the CSR has no subject common name"

/-- What a caller may add to a request. -/
structure CsrOptions where
  /-- Names to use in place of the request's. -/
  sansOverride : Option (List Str) := none
  /-- The common name of a request that has none. -/
  subjectCnFallback : Option Str := none
  /-- A leaf without a subject may be issued. -/
  allowEmptySubject : Bool := false
  deriving DecidableEq, Repr

/-- Parse a request. -/
def loadCsr (csrPem : CaX509.Parsed Csr) : Except Failure Csr :=
  match csrPem with
  | .ok csr => .ok csr
  | .error exc => raise .issue s!"not a valid CSR PEM: {exc}"

/-- Sign a request: it contributes its key, its common name and its names. -/
def signCsr (E : Crypto) (d : Draw) (issuerCert : Cert) (issuerKey : PrivateKey)
    (csrPem : CaX509.Parsed Csr) (profile : Profile) (days : ℤ) (opts : CsrOptions)
    (crlUrl caIssuersUrl : Option Str) : Except Failure (Cert × Option ℤ) := do
  validateDays days
  let csr ← loadCsr csrPem
  refuse (csr.isSignatureValid = false) ⟨.issue, "the CSR's signature is not valid"⟩
  let cn ← csrSubject csr opts.subjectCnFallback opts.allowEmptySubject
  let explicit ← (opts.sansOverride.getD []).mapM normalizeSan
  let fromCsr ← csrSans csr
  let resolved ← resolveSans explicit fromCsr cn
  buildLeaf E d issuerCert issuerKey csr.publicKey cn resolved profile days crlUrl caIssuersUrl

/-! ### What is issued -/

variable {E : Crypto} {d : Draw}

/-- What a leaf looks like: issued by the signing key in the issuer's name, naming the issuer's key
identifier, for exactly the names asked for. -/
structure IsLeaf (E : Crypto) (issuerCert : Cert) (issuerKey : PrivateKey) (publicKey : PublicKey)
    (sans : List Str) (cert : Cert) : Prop where
  issuer : cert.issuer = issuerCert.subject
  signed : E.verify (E.publicKey issuerKey) cert.tbs cert.signature = true
  publicKey : cert.publicKey = publicKey
  malformed : cert.tbs.extensions.malformed = false
  aki : ∃ a, CaX509.authorityKeyIdentifier E issuerCert issuerKey = .ok a ∧
    cert.tbs.extensions.authorityKeyIdentifier = some ⟨a, false⟩
  names : ∃ names critical, sans.mapM (generalName E) = .ok names ∧
    cert.tbs.extensions.subjectAlternativeName = some ⟨names.map GeneralName.encoded, critical⟩

theorem buildLeaf_spec {issuerCert cert : Cert} {issuerKey : PrivateKey} {pk : PublicKey}
    {cn : Option Str} {sans : List Str} {profile : Profile} {days : ℤ}
    {crlUrl caIssuersUrl : Option Str} {capped : Option ℤ}
    (h : buildLeaf E d issuerCert issuerKey pk cn sans profile days crlUrl caIssuersUrl =
      .ok (cert, capped)) :
    IsLeaf E issuerCert issuerKey pk sans cert ∧ cert.tbs.serialNumber = d.serialNumber ∧
      checkNameConstraints issuerCert cn sans = .ok () := by
  simp only [buildLeaf, bind_eq_ok, pure_eq_ok, Prod.mk.injEq] at h
  obtain ⟨⟨notAfter, _⟩, -, ⟨⟩, hnc, subject, -, aki, haki, names, hnames, c, hc, rfl, -⟩ := h
  obtain ⟨-, htbs, hv⟩ := build_eq_ok hc
  refine ⟨⟨?_, hv, ?_, ?_, ⟨aki, haki, ?_⟩, ⟨names, cn.isNone, hnames, ?_⟩⟩, ?_, hnc⟩ <;>
    simp [Cert.issuer, Cert.publicKey, htbs, encodeTbs, leafExtensions]

theorem issueCertificate_spec {issuerCert cert : Cert} {issuerKey key : PrivateKey}
    {profile : Profile} {cn : Str} {sans : List Str} {days : ℤ} {keyType : String}
    {crlUrl caIssuersUrl : Option Str} {capped : Option ℤ}
    (h : issueCertificate E d issuerCert issuerKey profile cn sans days keyType crlUrl caIssuersUrl =
      .ok (cert, key, capped)) :
    ∃ resolved, IsLeaf E issuerCert issuerKey (E.publicKey key) resolved cert := by
  simp only [issueCertificate, bind_eq_ok, pure_eq_ok, Prod.mk.injEq] at h
  obtain ⟨_, -, -, -, -, -, _, -, resolved, -, k, -, ⟨c, _⟩, hb, rfl, rfl, -⟩ := h
  exact ⟨resolved, (buildLeaf_spec hb).1⟩

/-- A signed request: where the names are given, the leaf carries exactly those. -/
theorem signCsr_spec {issuerCert cert : Cert} {issuerKey : PrivateKey}
    {csrPem : CaX509.Parsed Csr} {profile : Profile} {days : ℤ} {opts : CsrOptions}
    {crlUrl caIssuersUrl : Option Str} {capped : Option ℤ}
    (h : signCsr E d issuerCert issuerKey csrPem profile days opts crlUrl caIssuersUrl =
      .ok (cert, capped)) :
    ∃ csr explicit fromCsr cn resolved, csrPem = .ok csr ∧
      (opts.sansOverride.getD []).mapM normalizeSan = .ok explicit ∧
      resolveSans explicit fromCsr cn = .ok resolved ∧
      IsLeaf E issuerCert issuerKey csr.publicKey resolved cert := by
  simp only [signCsr, bind_eq_ok] at h
  obtain ⟨-, -, csr, hcsr, -, -, cn, -, explicit, he, fromCsr, -, resolved, hr, hb⟩ := h
  refine ⟨csr, explicit, fromCsr, cn, resolved, ?_, he, hr, (buildLeaf_spec hb).1⟩
  cases csrPem with
  | ok c =>
    cases hcsr
    rfl
  | error e => cases hcsr

/-- The name constraint check reads the NameConstraints of the issuer and nothing else. -/
theorem checkNameConstraints_congr {c c' : Cert} (h : CaX509.Continues c c') (cn : Option Str)
    (sans : List Str) : checkNameConstraints c' cn sans = checkNameConstraints c cn sans := by
  have he : c'.extension? Extensions.nameConstraints = c.extension? Extensions.nameConstraints := by
    simp only [Cert.extension?, Cert.extension, h.malformed, h.nameConstraints]
  simp only [checkNameConstraints, he]

end Leaf

end Cabin
