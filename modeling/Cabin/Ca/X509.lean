import Cabin.X509.Basic

/-!
# Making and checking CA certificates

The pure certificate operations of the CA (`ca/x509.py`): roots, intermediates, renewals and cross
certificates, and the checks an imported certificate has to pass.  Each function comes with one
lemma that says what a returned certificate looks like.

* `createRoot_spec`, `createIntermediate_spec`, `renewCertificate_spec`, `crossSign_spec`: the
  fields of the certificate, and that the signing key's public half verifies it;
* `loadImport_spec`, `loadCross_spec`: what the imports have established when they accept.
-/

namespace Cabin

namespace CaX509

open X509

/-- How far `not_before` is set back, for relying parties whose clock is behind. -/
def backdate : ℤ := Instant.minutes 5

/-- The length of a year, in days. -/
def daysPerYear : ℤ := 365

/-- A number of years, as an instant. -/
def years (n : ℤ) : ℤ := Instant.days (daysPerYear * n)

/-- Generate a new private key of the named type. -/
def generateKey (E : Crypto) (d : Draw) (keyType : String) : Except Failure PrivateKey :=
  match keyTypes.lookup keyType with
  | some t => .ok (E.generate t d.seed)
  | none => raise .value s!"unsupported key type: {(Str.of keyType).repr}"

/-- The AuthorityKeyIdentifier of anything `issuerCert` signs: copied from its
SubjectKeyIdentifier, derived from the key only where it has none. -/
def authorityKeyIdentifier (E : Crypto) (issuerCert : Cert) (issuerKey : PrivateKey) :
    Except Failure AuthorityKeyIdentifier := do
  match ← issuerCert.extension? Extensions.subjectKeyIdentifier with
  | none => pure ⟨some (E.keyIdentifier (E.publicKey issuerKey)), none, none⟩
  | some ski => pure ⟨some ski.value, none, none⟩

/-- The KeyUsage of a CA certificate. -/
def caKeyUsage : KeyUsage :=
  { digitalSignature := false, contentCommitment := false, keyEncipherment := false,
    dataEncipherment := false, keyAgreement := false, keyCertSign := true, crlSign := true,
    encipherOnly := false, decipherOnly := false }

/-- Self-signed root CA. -/
def createRoot (E : Crypto) (d : Draw) (subjectCn : Str) (keyType : String) (nYears : ℤ)
    (pathLength : ℕ) : Except Failure (Cert × PrivateKey) := do
  let key ← generateKey E d keyType
  let name ← nameOfCommonName subjectCn
  let cert ← build E d key name name (E.publicKey key) (d.now - backdate) (d.now + years nYears)
    { basicConstraints := some ⟨⟨true, some pathLength⟩, true⟩
      keyUsage := some ⟨caKeyUsage, true⟩
      subjectKeyIdentifier := some ⟨E.keyIdentifier (E.publicKey key), false⟩ }
  pure (cert, key)

/-- Signing CA issued by `rootCert`; it never outlives it. -/
def createIntermediate (E : Crypto) (d : Draw) (rootCert : Cert) (rootKey : PrivateKey)
    (subjectCn : Str) (keyType : String) (nYears : ℤ) (nameConstraints : Option NameConstraints) :
    Except Failure (Cert × PrivateKey) := do
  let key ← generateKey E d keyType
  let rootSki ← rootCert.extension Extensions.subjectKeyIdentifier
  let notAfter := min (d.now + years nYears) rootCert.notValidAfter
  let name ← nameOfCommonName subjectCn
  let cert ← build E d rootKey rootCert.subject name (E.publicKey key) (d.now - backdate) notAfter
    { basicConstraints := some ⟨⟨true, some 0⟩, true⟩
      keyUsage := some ⟨caKeyUsage, true⟩
      subjectKeyIdentifier := some ⟨E.keyIdentifier (E.publicKey key), false⟩
      authorityKeyIdentifier := some ⟨⟨some rootSki.value, none, none⟩, false⟩
      nameConstraints := nameConstraints.map fun nc => ⟨nc, true⟩ }
  pure (cert, key)

/-- The AuthorityKeyIdentifier of a renewal: derived again, if the old certificate carried one. -/
def renewedAki (E : Crypto) (carried : Option (Ext AuthorityKeyIdentifier)) (parentCert : Cert)
    (parentKey : PrivateKey) : Except Failure (Option (Ext AuthorityKeyIdentifier)) :=
  match carried with
  | none => .ok none
  | some _ => do
    let aki ← authorityKeyIdentifier E parentCert parentKey
    pure (some ⟨aki, false⟩)

/-- Re-sign `cert` for the same key and subject, with a later end.  `parentKey` is the only key
that signs; the AuthorityKeyIdentifier is derived again, if `cert` has one. -/
def renewCertificate (E : Crypto) (d : Draw) (cert parentCert : Cert) (parentKey : PrivateKey)
    (nYears : ℤ) : Except Failure Cert := do
  let ski ← cert.extension Extensions.subjectKeyIdentifier
  let basicConstraints ← cert.extension Extensions.basicConstraints
  let keyUsage ← cert.extension Extensions.keyUsage
  let carried ← cert.extension? Extensions.authorityKeyIdentifier
  let nameConstraints ← cert.extension? Extensions.nameConstraints
  let aki ← renewedAki E carried parentCert parentKey
  build E d parentKey parentCert.subject cert.subject cert.publicKey (d.now - backdate)
    (d.now + years nYears)
    { basicConstraints := some ⟨basicConstraints.value, true⟩
      keyUsage := some ⟨keyUsage.value, true⟩
      subjectKeyIdentifier := some ⟨ski.value, false⟩
      authorityKeyIdentifier := aki
      nameConstraints := nameConstraints }

/-- The path length of a certificate, if it is present and below `bound`. -/
def pathLengthBelow (bc : BasicConstraints) (bound : ℕ) : Option ℕ :=
  bc.pathLength.filter (· < bound)

/-- Whether `issuerCert` can cross-sign `subjectCert`: the signing root needs room for two CA
certificates below it, the subject root for one.  Returns the message of a refusal. -/
def crossPathLengthError (subjectCert issuerCert : Cert) : Except Failure (Option String) := do
  let issuer ← issuerCert.extension Extensions.basicConstraints
  match pathLengthBelow issuer.value 2 with
  | some n =>
    pure (some s!"signing root's path_length is {n}, but cross-signing needs at least 2")
  | none =>
    let subject ← subjectCert.extension Extensions.basicConstraints
    match pathLengthBelow subject.value 1 with
    | some n => pure (some s!"root's path_length is {n}, but a cross certificate needs at least 1")
    | none => pure none

/-- The SubjectKeyIdentifier a cross certificate copies; a root without one is refused. -/
def crossedSki (subjectCert : Cert) : Except Failure (Ext KeyId) := do
  match ← subjectCert.extension? Extensions.subjectKeyIdentifier with
  | some ski => pure ski
  | none => raise .value "subject certificate carries no SubjectKeyIdentifier"

/-- A second certificate for `subjectCert`'s CA, signed by `issuerCert`'s key. -/
def crossSign (E : Crypto) (d : Draw) (subjectCert issuerCert : Cert) (issuerKey : PrivateKey)
    (nYears : ℤ) : Except Failure Cert := do
  let ski ← crossedSki subjectCert
  let basicConstraints ← subjectCert.extension Extensions.basicConstraints
  let keyUsage ← subjectCert.extension Extensions.keyUsage
  let nameConstraints ← subjectCert.extension? Extensions.nameConstraints
  let notAfter := min (d.now + years nYears) issuerCert.notValidAfter
  let aki ← authorityKeyIdentifier E issuerCert issuerKey
  build E d issuerKey issuerCert.subject subjectCert.subject subjectCert.publicKey
    (d.now - backdate) notAfter
    { basicConstraints := some ⟨basicConstraints.value, true⟩
      keyUsage := some ⟨keyUsage.value, true⟩
      subjectKeyIdentifier := some ⟨ski.value, false⟩
      authorityKeyIdentifier := some ⟨aki, false⟩
      nameConstraints := nameConstraints }

/-! ### Imports -/

/-- The outcome of parsing a PEM text: the certificate or key, or the parser's message. -/
abbrev Parsed (α : Type) := Except String α

/-- Turn a parser's message into the exception of the import. -/
def parsed {α : Type} (p : Parsed α) (what : String) : Except Failure α :=
  match p with
  | .ok a => .ok a
  | .error exc => raise .caImport s!"{what}: {exc}"

/-- The message for a certificate that may not sign certificates. -/
def keyUsageError : String := "CA certificates must carry a KeyUsage extension with keyCertSign"

/-- An extension an import requires: its absence is a refusal of the import. -/
def importExtension {α : Type} (cert : Cert) (field : Extensions → Option (Ext α))
    (message : String) : Except Failure (Ext α) := do
  match ← cert.extension? field with
  | some e => pure e
  | none => raise .caImport message

/-- What both imports ask of a CA certificate: BasicConstraints, KeyUsage and the dates. -/
def checkCaCertificate (d : Draw) (cert : Cert) : Except Failure Unit := do
  let bc ← importExtension cert Extensions.basicConstraints
    "certificate has no BasicConstraints extension"
  refuse (bc.value.ca = false)
    ⟨.caImport, "certificate is not a CA certificate (BasicConstraints ca=False)"⟩
  let ku ← importExtension cert Extensions.keyUsage keyUsageError
  refuse (ku.value.keyCertSign = false) ⟨.caImport, keyUsageError⟩
  refuse (d.now < cert.notValidBefore) ⟨.caImport, "certificate is not yet valid"⟩
  refuse (cert.notValidAfter < d.now) ⟨.caImport, "certificate has expired"⟩

/-- The signature under the submitted parent; what else the check raises is not caught. -/
def importIssued (E : Crypto) (cert parent : Cert) (what : String) : Except Failure Unit :=
  match verifyDirectlyIssuedBy E cert parent with
  | .ok () => .ok ()
  | .error exc =>
    if exc.kind ∈ [.value, .signing] then raise .caImport s!"{what}: {exc.message}" else .error exc

/-- Parse and validate an imported signing CA certificate, its private key and its parent. -/
def loadImport (E : Crypto) (d : Draw) (certPem : Parsed Cert) (keyPem : Parsed PrivateKey)
    (chainPem : Option (Parsed Cert)) : Except Failure (Cert × PrivateKey × Option Cert) := do
  let cert ← parsed certPem "not a valid certificate PEM"
  let key ← parsed keyPem "could not decrypt private key"
  refuse (key.isSigningKey = false) ⟨.caImport, s!"unsupported private key type: {repr key.kind}"⟩
  refuse (E.knowsKey cert.publicKey = false) unknownKey
  refuse (E.publicKey key ≠ cert.publicKey)
    ⟨.caImport, "private key does not match the certificate's public key"⟩
  checkCaCertificate d cert
  match chainPem with
  | none => pure (cert, key, none)
  | some chain =>
    let parent ← parsed chain "not a valid parent certificate PEM"
    refuse (Name.pyEq parent.subject cert.subject = true ∧
        E.knowsKey parent.publicKey = false) unknownKey
    refuse (Name.pyEq parent.subject cert.subject = true ∧
        parent.publicKey = cert.publicKey)
      ⟨.caImport, "the parent certificate is the imported certificate itself"⟩
    importIssued E cert parent "certificate does not chain to the given parent"
    pure (cert, key, some parent)

/-- Parse and validate a cross certificate produced elsewhere against the root it is for and the
root that signed it. -/
def loadCross (E : Crypto) (d : Draw) (crossPem : Parsed Cert) (subjectCert issuerCert : Cert) :
    Except Failure Cert := do
  let cross ← parsed crossPem "not a valid certificate PEM"
  refuse (cross.subject ≠ subjectCert.subject)
    ⟨.caImport, "subject does not match the existing root's subject"⟩
  refuse (cross.publicKey ≠ subjectCert.publicKey)
    ⟨.caImport, "public key does not match the existing root's public key"⟩
  importIssued E cross issuerCert "certificate was not signed by the given issuer"
  let crossSki ← importExtension cross Extensions.subjectKeyIdentifier
    "certificate has no SubjectKeyIdentifier extension"
  let subjectSki ← importExtension subjectCert Extensions.subjectKeyIdentifier
    "the existing root has no SubjectKeyIdentifier extension to compare against"
  refuse (crossSki.value ≠ subjectSki.value)
    ⟨.caImport, "SubjectKeyIdentifier does not match the existing root's -- " ++
      "no intermediate under it would chain through this certificate"⟩
  checkCaCertificate d cross
  -- The path lengths checked are the two roots', not the cross certificate's own.
  match ← crossPathLengthError subjectCert issuerCert with
  | some message => raise .caImport message
  | none =>
    let crossNc ← cross.extension? Extensions.nameConstraints
    let subjectNc ← subjectCert.extension? Extensions.nameConstraints
    refuse (crossNc ≠ subjectNc)
      ⟨.caImport, "NameConstraints does not match the existing root's"⟩
    pure cross

/-! ### What the operations return -/

variable {E : Crypto} {d : Draw}

theorem generateKey_eq_ok {keyType : String} {k : PrivateKey}
    (h : generateKey E d keyType = .ok k) :
    ∃ t, keyTypes.lookup keyType = some t ∧ k = E.generate t d.seed := by
  unfold generateKey raise at h
  split at h
  · rename_i t ht
    cases h
    exact ⟨t, ht, rfl⟩
  · cases h

theorem isSigningKey_generate (t : KeyType) (r : ℕ) : (E.generate t r).isSigningKey = true := by
  unfold PrivateKey.isSigningKey
  rw [E.generate_kind]
  cases t <;> rfl

theorem createRoot_spec {cn : Str} {keyType : String} {n : ℤ} {pathLength : ℕ} {c : Cert}
    {k : PrivateKey} (h : createRoot E d cn keyType n pathLength = .ok (c, k)) :
    ∃ name, nameOfCommonName cn = .ok name ∧ k.isSigningKey = true ∧
      c.tbs = encodeTbs k d.serialNumber name name (E.publicKey k) (d.now - backdate)
        (d.now + years n)
        { basicConstraints := some ⟨⟨true, some pathLength⟩, true⟩
          keyUsage := some ⟨caKeyUsage, true⟩
          subjectKeyIdentifier := some ⟨E.keyIdentifier (E.publicKey k), false⟩ } ∧
      E.verify (E.publicKey k) c.tbs c.signature = true := by
  simp only [createRoot, bind_eq_ok, pure_eq_ok, Prod.mk.injEq] at h
  obtain ⟨k, hk, name, hname, c, hc, rfl, rfl⟩ := h
  obtain ⟨t, -, rfl⟩ := generateKey_eq_ok hk
  obtain ⟨-, htbs, hv⟩ := build_eq_ok hc
  exact ⟨name, hname, isSigningKey_generate _ _, htbs, hv⟩

theorem createIntermediate_spec {root : Cert} {rootKey : PrivateKey} {cn : Str}
    {keyType : String} {n : ℤ} {nc : Option NameConstraints} {c : Cert} {k : PrivateKey}
    (h : createIntermediate E d root rootKey cn keyType n nc = .ok (c, k)) :
    ∃ name ski, nameOfCommonName cn = .ok name ∧ k.isSigningKey = true ∧
      root.extension Extensions.subjectKeyIdentifier = .ok ski ∧
      c.tbs = encodeTbs rootKey d.serialNumber root.subject name (E.publicKey k)
        (d.now - backdate) (min (d.now + years n) root.notValidAfter)
        { basicConstraints := some ⟨⟨true, some 0⟩, true⟩
          keyUsage := some ⟨caKeyUsage, true⟩
          subjectKeyIdentifier := some ⟨E.keyIdentifier (E.publicKey k), false⟩
          authorityKeyIdentifier := some ⟨⟨some ski.value, none, none⟩, false⟩
          nameConstraints := nc.map fun nc => ⟨nc, true⟩ } ∧
      E.verify (E.publicKey rootKey) c.tbs c.signature = true := by
  simp only [createIntermediate, bind_eq_ok, pure_eq_ok, Prod.mk.injEq] at h
  obtain ⟨k, hk, ski, hski, name, hname, c, hc, rfl, rfl⟩ := h
  obtain ⟨t, -, rfl⟩ := generateKey_eq_ok hk
  obtain ⟨-, htbs, hv⟩ := build_eq_ok hc
  exact ⟨name, ski, hname, isSigningKey_generate _ _, hski, htbs, hv⟩

/-- The AuthorityKeyIdentifier names the issuer's SubjectKeyIdentifier wherever it has one. -/
theorem authorityKeyIdentifier_spec {c : Cert} {k : PrivateKey} {a : AuthorityKeyIdentifier}
    (h : authorityKeyIdentifier E c k = .ok a) :
    c.tbs.extensions.malformed = false ∧
      a = ⟨some (match c.tbs.extensions.subjectKeyIdentifier with
        | some ski => ski.value
        | none => E.keyIdentifier (E.publicKey k)), none, none⟩ := by
  simp only [authorityKeyIdentifier, bind_eq_ok] at h
  obtain ⟨ski, hski, h⟩ := h
  obtain ⟨hm, hs⟩ := Cert.extension?_eq_ok.1 hski
  refine ⟨hm, ?_⟩
  rw [hs]
  cases ski <;> exact (pure_eq_ok.1 h).symm

/-- A renewal keeps everything but the serial number, the dates and the criticality of the
extensions it rewrites; its AuthorityKeyIdentifier is the parent's. -/
theorem renewCertificate_spec {cert parent c : Cert} {parentKey : PrivateKey} {n : ℤ}
    (h : renewCertificate E d cert parent parentKey n = .ok c) :
    ∃ ski bc ku aki, cert.tbs.extensions.malformed = false ∧
      cert.tbs.extensions.subjectKeyIdentifier = some ski ∧
      cert.tbs.extensions.basicConstraints = some bc ∧
      cert.tbs.extensions.keyUsage = some ku ∧
      (cert.tbs.extensions.authorityKeyIdentifier = none ∧ aki = none ∨
        ∃ a, authorityKeyIdentifier E parent parentKey = .ok a ∧ aki = some ⟨a, false⟩ ∧
          cert.tbs.extensions.authorityKeyIdentifier ≠ none) ∧
      c.tbs = encodeTbs parentKey d.serialNumber parent.subject cert.subject cert.publicKey
        (d.now - backdate) (d.now + years n)
        { basicConstraints := some ⟨bc.value, true⟩
          keyUsage := some ⟨ku.value, true⟩
          subjectKeyIdentifier := some ⟨ski.value, false⟩
          authorityKeyIdentifier := aki
          nameConstraints := cert.tbs.extensions.nameConstraints } ∧
      E.verify (E.publicKey parentKey) c.tbs c.signature = true := by
  simp only [renewCertificate, bind_eq_ok] at h
  obtain ⟨ski, hski, bc, hbc, ku, hku, needs, hneeds, nc, hnc, aki, haki, h⟩ := h
  obtain ⟨hm, hski⟩ := Cert.extension_eq_ok.1 hski
  obtain ⟨-, rfl⟩ := Cert.extension?_eq_ok.1 hneeds
  obtain ⟨-, rfl⟩ := Cert.extension?_eq_ok.1 hnc
  obtain ⟨-, htbs, hv⟩ := build_eq_ok h
  refine ⟨ski, bc, ku, aki, hm, hski, (Cert.extension_eq_ok.1 hbc).2, (Cert.extension_eq_ok.1 hku).2,
    ?_, htbs, hv⟩
  cases hn : cert.tbs.extensions.authorityKeyIdentifier with
  | none =>
    rw [hn] at haki
    exact .inl ⟨rfl, (Except.ok.inj haki).symm⟩
  | some x =>
    simp only [hn, renewedAki, bind_eq_ok, pure_eq_ok] at haki
    obtain ⟨a, ha, rfl⟩ := haki
    exact .inr ⟨a, ha, rfl, by simp⟩

/-- What a renewal keeps of a certificate. -/
structure Continues (c c' : Cert) : Prop where
  /-- The subject name. -/
  subject : c'.subject = c.subject
  /-- The public key. -/
  publicKey : c'.publicKey = c.publicKey
  /-- Whether the extensions parse. -/
  malformed : c'.tbs.extensions.malformed = c.tbs.extensions.malformed
  /-- The SubjectKeyIdentifier. -/
  ski : c'.tbs.extensions.subjectKeyIdentifier.map Ext.value =
    c.tbs.extensions.subjectKeyIdentifier.map Ext.value
  /-- The BasicConstraints, the path length included. -/
  basicConstraints : c'.tbs.extensions.basicConstraints.map Ext.value =
    c.tbs.extensions.basicConstraints.map Ext.value
  /-- The KeyUsage. -/
  keyUsage : c'.tbs.extensions.keyUsage.map Ext.value = c.tbs.extensions.keyUsage.map Ext.value
  /-- The NameConstraints, with their criticality. -/
  nameConstraints : c'.tbs.extensions.nameConstraints = c.tbs.extensions.nameConstraints

theorem Continues.refl (c : Cert) : Continues c c := ⟨rfl, rfl, rfl, rfl, rfl, rfl, rfl⟩

theorem Continues.trans {a b c : Cert} (h : Continues a b) (h' : Continues b c) :
    Continues a c :=
  ⟨h'.subject.trans h.subject, h'.publicKey.trans h.publicKey, h'.malformed.trans h.malformed,
    h'.ski.trans h.ski, h'.basicConstraints.trans h.basicConstraints,
    h'.keyUsage.trans h.keyUsage, h'.nameConstraints.trans h.nameConstraints⟩

/-- A renewal continues the certificate it renews and is issued by its signer. -/
theorem renewCertificate_continues {cert parent c : Cert} {parentKey : PrivateKey} {n : ℤ}
    (h : renewCertificate E d cert parent parentKey n = .ok c) : Continues cert c := by
  obtain ⟨ski, bc, ku, aki, hm, hski, hbc, hku, -, htbs, -⟩ := renewCertificate_spec h
  refine ⟨?_, ?_, ?_, ?_, ?_, ?_, ?_⟩ <;>
    simp [Cert.subject, Cert.publicKey, htbs, encodeTbs, hm, hski, hbc, hku]

theorem renewCertificate_issuedBy {cert parent c : Cert} {parentKey : PrivateKey} {n : ℤ}
    (h : renewCertificate E d cert parent parentKey n = .ok c)
    (hkey : E.publicKey parentKey = parent.publicKey) : IssuedBy E c parent := by
  obtain ⟨ski, bc, ku, aki, -, -, -, -, -, htbs, hv⟩ := renewCertificate_spec h
  exact ⟨by simp [Cert.issuer, htbs, encodeTbs], hkey ▸ hv⟩

theorem pathLengthBelow_eq_none {bc : BasicConstraints} {bound : ℕ} :
    pathLengthBelow bc bound = none ↔ ∀ n, bc.pathLength = some n → bound ≤ n := by
  simp [pathLengthBelow, Option.filter_eq_none_iff]

theorem crossPathLengthError_eq_none {subject issuer : Cert}
    (h : crossPathLengthError subject issuer = .ok none) :
    ∃ ibc sbc, issuer.extension Extensions.basicConstraints = .ok ibc ∧
      subject.extension Extensions.basicConstraints = .ok sbc ∧
      (∀ n, ibc.value.pathLength = some n → 2 ≤ n) ∧
      ∀ n, sbc.value.pathLength = some n → 1 ≤ n := by
  simp only [crossPathLengthError, bind_eq_ok] at h
  obtain ⟨ibc, hi, h⟩ := h
  split at h
  · cases h
  rename_i hi2
  simp only [bind_eq_ok] at h
  obtain ⟨sbc, hs, h⟩ := h
  split at h
  · cases h
  rename_i hs1
  exact ⟨ibc, sbc, hi, hs, pathLengthBelow_eq_none.1 hi2, pathLengthBelow_eq_none.1 hs1⟩

theorem crossedSki_eq_ok {c : Cert} {ski : Ext KeyId} (h : crossedSki c = .ok ski) :
    c.tbs.extensions.malformed = false ∧
      c.tbs.extensions.subjectKeyIdentifier = some ski := by
  simp only [crossedSki, bind_eq_ok] at h
  obtain ⟨o, ho, h⟩ := h
  obtain ⟨hm, ho⟩ := Cert.extension?_eq_ok.1 ho
  cases o with
  | none => cases h
  | some x => exact ⟨hm, ho.trans (congrArg some (pure_eq_ok.1 h))⟩

theorem crossSign_spec {subject issuer c : Cert} {issuerKey : PrivateKey} {n : ℤ}
    (h : crossSign E d subject issuer issuerKey n = .ok c) :
    ∃ ski bc ku aki, subject.tbs.extensions.malformed = false ∧
      subject.tbs.extensions.subjectKeyIdentifier = some ski ∧
      subject.tbs.extensions.basicConstraints = some bc ∧
      subject.tbs.extensions.keyUsage = some ku ∧
      authorityKeyIdentifier E issuer issuerKey = .ok aki ∧
      c.tbs = encodeTbs issuerKey d.serialNumber issuer.subject subject.subject
        subject.publicKey (d.now - backdate) (min (d.now + years n) issuer.notValidAfter)
        { basicConstraints := some ⟨bc.value, true⟩
          keyUsage := some ⟨ku.value, true⟩
          subjectKeyIdentifier := some ⟨ski.value, false⟩
          authorityKeyIdentifier := some ⟨aki, false⟩
          nameConstraints := subject.tbs.extensions.nameConstraints } ∧
      E.verify (E.publicKey issuerKey) c.tbs c.signature = true := by
  simp only [crossSign, bind_eq_ok] at h
  obtain ⟨ski, hski, bc, hbc, ku, hku, nc, hnc, aki, haki, h⟩ := h
  obtain ⟨hm, hski⟩ := crossedSki_eq_ok hski
  obtain ⟨-, rfl⟩ := Cert.extension?_eq_ok.1 hnc
  obtain ⟨-, htbs, hv⟩ := build_eq_ok h
  exact ⟨ski, bc, ku, aki, hm, hski, (Cert.extension_eq_ok.1 hbc).2, (Cert.extension_eq_ok.1 hku).2,
    haki, htbs, hv⟩

theorem parsed_eq_ok {α : Type} {p : Parsed α} {what : String} {a : α}
    (h : parsed p what = .ok a) : p = .ok a := by
  cases p with
  | error e => cases h
  | ok b => exact congrArg Except.ok (Except.ok.inj h)

theorem importExtension_eq_ok {α : Type} {c : Cert} {field : Extensions → Option (Ext α)}
    {message : String} {e : Ext α} (h : importExtension c field message = .ok e) :
    c.tbs.extensions.malformed = false ∧ field c.tbs.extensions = some e := by
  simp only [importExtension, bind_eq_ok] at h
  obtain ⟨o, ho, h⟩ := h
  obtain ⟨hm, ho⟩ := Cert.extension?_eq_ok.1 ho
  cases o with
  | none => cases h
  | some x => exact ⟨hm, ho.trans (congrArg some (pure_eq_ok.1 h))⟩

theorem importIssued_eq_ok {cert parent : Cert} {what : String} {u : Unit} :
    importIssued E cert parent what = .ok u ↔
      IssuedBy E cert parent ∧ E.knowsKey parent.publicKey = true := by
  rw [← verifyDirectlyIssuedBy_eq_ok (u := u)]
  unfold importIssued raise
  cases verifyDirectlyIssuedBy E cert parent with
  | ok v => simp
  | error e =>
    simp only
    split_ifs <;> simp

theorem loadImport_spec {certPem : Parsed Cert} {keyPem : Parsed PrivateKey}
    {chain : Parsed Cert} {cert : Cert} {key : PrivateKey} {parent : Option Cert}
    (h : loadImport E d certPem keyPem (some chain) = .ok (cert, key, parent)) :
    ∃ p, parent = some p ∧ certPem = .ok cert ∧ chain = .ok p ∧ key.isSigningKey = true ∧
      E.publicKey key = cert.publicKey ∧ IssuedBy E cert p := by
  simp only [loadImport, bind_eq_ok, refuse_eq_ok] at h
  obtain ⟨c, hc, k, hk, -, hsig, -, -, -, hkey, -, -, p, hp, -, -, -, -, u, hv, h⟩ := h
  obtain ⟨rfl, rfl, rfl⟩ : c = cert ∧ k = key ∧ some p = parent := by simpa using pure_eq_ok.1 h
  exact ⟨p, rfl, parsed_eq_ok hc, parsed_eq_ok hp, by simpa using hsig, not_not.1 hkey,
    (importIssued_eq_ok.1 hv).1⟩

theorem loadCross_spec {crossPem : Parsed Cert} {subject issuer c : Cert}
    (h : loadCross E d crossPem subject issuer = .ok c) :
    ∃ ski sski, crossPem = .ok c ∧ c.subject = subject.subject ∧
      c.publicKey = subject.publicKey ∧ IssuedBy E c issuer ∧
      c.tbs.extensions.malformed = false ∧
      c.tbs.extensions.subjectKeyIdentifier = some ski ∧
      subject.tbs.extensions.subjectKeyIdentifier = some sski ∧ ski.value = sski.value ∧
      crossPathLengthError subject issuer = .ok none := by
  simp only [loadCross, bind_eq_ok, refuse_eq_ok] at h
  obtain ⟨x, hx, -, hsub, -, hkey, u, hv, ski, hski, sski, hsski, -, heq, -, -, pl, hpl, h⟩ := h
  split at h
  · cases h
  simp only [bind_eq_ok, refuse_eq_ok] at h
  obtain ⟨-, -, -, -, -, -, h⟩ := h
  obtain rfl := pure_eq_ok.1 h
  obtain ⟨hm, hski⟩ := importExtension_eq_ok hski
  exact ⟨ski, sski, parsed_eq_ok hx, not_not.1 hsub, not_not.1 hkey,
    (importIssued_eq_ok.1 hv).1, hm, hski, (importExtension_eq_ok hsski).2, not_not.1 heq,
    hpl⟩

theorem checkCaCertificate_eq_ok {c : Cert} {u : Unit} (h : checkCaCertificate d c = .ok u) :
    ∃ bc ku, c.tbs.extensions.basicConstraints = some bc ∧ c.tbs.extensions.keyUsage = some ku := by
  simp only [checkCaCertificate, bind_eq_ok] at h
  obtain ⟨bc, hbc, -, -, ku, hku, -⟩ := h
  exact ⟨bc, ku, (importExtension_eq_ok hbc).2, (importExtension_eq_ok hku).2⟩

/-- A cross certificate from elsewhere has the extensions of a CA certificate. -/
theorem loadCross_checked {crossPem : Parsed Cert} {subject issuer c : Cert}
    (h : loadCross E d crossPem subject issuer = .ok c) :
    ∃ bc ku, c.tbs.extensions.basicConstraints = some bc ∧ c.tbs.extensions.keyUsage = some ku := by
  simp only [loadCross, bind_eq_ok, refuse_eq_ok] at h
  obtain ⟨x, -, -, -, -, -, -, -, -, -, -, -, -, -, u, hcheck, pl, -, h⟩ := h
  split at h
  · cases h
  simp only [bind_eq_ok, refuse_eq_ok] at h
  obtain ⟨-, -, -, -, -, -, h⟩ := h
  obtain rfl := pure_eq_ok.1 h
  exact checkCaCertificate_eq_ok hcheck

end CaX509

end Cabin
