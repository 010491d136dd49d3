import Cabin.Ca.Store

/-!
# The CA hierarchy

The operations on `ca_certificates` (`ca/service.py`).  A root signs intermediates and cross
certificates, an intermediate signs leaves.  Each operation reads the table, does its work and
ends in one commit; a refused or failed one leaves the table as it was.

The walk along `parent_id` has no bound in the source.  `parentWalk` takes the number of steps it
may make and answers `none` while it has not come to an end.
-/

namespace Cabin

namespace Service

open X509

variable (E : Crypto)

/-! ### Reading the table -/

/-- The subject common name of a certificate, or its whole subject if it has none. -/
def subjectName (cert : Cert) : Str :=
  match (cert.subject.attributesForOid commonNameOid).head?.map NameAttribute.value with
  | none => E.rfc4514String cert.subject
  | some (.text s) => s
  | some (.bits b) => E.decodeReplace b

/-- Unseal a stored key. -/
def unsealSigningKey (d : Draw) (keySealed : Sealed) : Except Failure PrivateKey := do
  d.attempt .unseal ⟨.secrets, "secret.key is not readable"⟩
  match E.unsealKey keySealed with
  | none => raise .secrets "invalid token: failed authentication (tampered)"
  | some key =>
    refuse (key.isSigningKey = false)
      ⟨.caNotConfigured, "stored key is not a supported signing key type"⟩
    pure key

/-- The row with this id, whatever its status. -/
def getCa (cas : CaTable) (id : ℕ) : Except Failure CaCertificate :=
  match cas.get? id with
  | some row => .ok row
  | none => raise .unknownIssuer s!"no CA certificate with id {id}"

/-- The rows of a kind, by id. -/
def listCas (cas : CaTable) (kind : CaKind) : List CaCertificate :=
  cas.select fun r => r.kind == kind

/-- The row and its ancestors, nearest first, in at most `fuel` steps along `parent_id`. -/
def parentWalk : ℕ → CaTable → ℕ → Option (Except Failure (List CaCertificate))
  | 0, _, _ => none
  | fuel + 1, cas, id =>
    match getCa cas id with
    | .error e => some (.error e)
    | .ok row =>
      match row.parentId with
      | none => some (.ok [row])
      | some parent => (parentWalk fuel cas parent).map fun w => w.map (row :: ·)

/-- One path from an issuer to its trust anchor, nearest issuer first. -/
structure Chain where
  /-- The rows of the path. -/
  rows : List CaCertificate
  /-- The cross row it goes through, if any. -/
  viaCrossId : Option ℕ
  deriving DecidableEq

/-- The id a client names the path by: that of its topmost row. -/
def Chain.anchorId (c : Chain) : Option ℕ := c.rows.getLast?.map CaCertificate.id

/-- The path served by default and the alternates offered beside it. -/
structure ChainSet where
  /-- The default path. -/
  default : Chain
  /-- The alternates. -/
  alternates : List Chain
  deriving DecidableEq

/-- All paths, the default first. -/
def ChainSet.paths (s : ChainSet) : List Chain := s.default :: s.alternates

/-- The path that goes through no cross row. -/
def ChainSet.selfSigned (s : ChainSet) : Except Failure Chain :=
  match s.paths.find? fun c => c.viaCrossId.isNone with
  | some c => .ok c
  | none => raise .assertion "ChainSet built with no self-signed path"

/-- The first path whose topmost row has this id. -/
def ChainSet.byAnchor (s : ChainSet) (anchorId : ℕ) : Option Chain :=
  s.paths.find? fun c => c.anchorId == some anchorId

/-- The certificate of a row is valid at `now`. -/
def certValidAt (row : CaCertificate) (now : ℤ) : Bool :=
  row.cert.notValidBefore ≤ now && now ≤ row.cert.notValidAfter

/-- The path through one cross row, if every certificate above the base is valid at `now`. -/
def crossChain (fuel : ℕ) (cas : CaTable) (now : ℤ) (baseRows : List CaCertificate)
    (crossRow : CaCertificate) : Option (Except Failure (Option Chain)) :=
  match crossRow.parentId with
  | none => some (raise .assertion "a cross row always has a signing root")
  | some parent => (parentWalk fuel cas parent).map fun walk => walk.map fun signingWalk =>
    if (crossRow :: signingWalk).all (certValidAt · now) then
      some ⟨baseRows.dropLast ++ crossRow :: signingWalk, some crossRow.id⟩
    else none

/-- The paths through the given cross rows that survive at `now`, in order. -/
def survivingChains (fuel : ℕ) (cas : CaTable) (now : ℤ) (baseRows : List CaCertificate) :
    List CaCertificate → Option (Except Failure (List Chain))
  | [] => some (.ok [])
  | crossRow :: rest =>
    match crossChain fuel cas now baseRows crossRow with
    | none => none
    | some (.error e) => some (.error e)
    | some (.ok chain) =>
      (survivingChains fuel cas now baseRows rest).map fun cs =>
        cs.map fun cs => chain.toList ++ cs

/-- The active cross rows of a root, by id. -/
def activeCrossRows (cas : CaTable) (topId : Option ℕ) : List CaCertificate :=
  cas.select fun r => r.crossOfId.isSome && r.crossOfId == topId && r.status == .active

/-- The oldest surviving cross path is the default; the base path is always there. -/
def chainSet (base : Chain) : List Chain → ChainSet
  | [] => ⟨base, []⟩
  | first :: rest => ⟨first, base :: rest⟩

/-- Every path from `caId` to a trust anchor at the instant `now`. -/
def chainsFor (fuel : ℕ) (cas : CaTable) (caId : ℕ) (now : ℤ) :
    Option (Except Failure ChainSet) :=
  match parentWalk fuel cas caId with
  | none => none
  | some (.error e) => some (.error e)
  | some (.ok baseRows) =>
    let base : Chain := ⟨baseRows, none⟩
    (survivingChains fuel cas now baseRows (activeCrossRows cas base.anchorId)).map fun cs =>
      cs.map (chainSet base)

/-- The default path. -/
def chainFor (fuel : ℕ) (cas : CaTable) (caId : ℕ) (now : ℤ) :
    Option (Except Failure (List CaCertificate)) :=
  (chainsFor fuel cas caId now).map fun s => s.map fun s => s.default.rows

/-- The active intermediates: what may sign a leaf. -/
def activeIssuers (cas : CaTable) : List CaCertificate :=
  cas.select fun r => r.kind == .intermediate && r.status == .active

theorem mem_activeIssuers {cas : CaTable} {r : CaCertificate} :
    r ∈ activeIssuers cas ↔ r ∈ cas ∧ r.kind = .intermediate ∧ r.status = .active := by
  simp [activeIssuers]

/-- Why there is no issuer. -/
def noActiveIssuerMessage (cas : CaTable) : String :=
  if cas.rows.isEmpty then "no CA hierarchy has been created or imported yet"
  else "this CA hierarchy has no active issuer yet; add an intermediate under its own page"

/-- The issuer an explicit id names: it must be an active intermediate. -/
def namedIssuer (cas : CaTable) (issuerId : ℕ) : Except Failure CaCertificate := do
  let row ← getCa cas issuerId
  refuse (row.kind ≠ .intermediate)
    ⟨.unknownIssuer, s!"CA certificate {issuerId} is not an intermediate"⟩
  refuse (row.status ≠ .active) ⟨.issuerRetired, s!"issuer {issuerId} is retired"⟩
  pure row

/-- The issuer of a leaf: the one named, or the only active one. -/
def resolveIssuer (cas : CaTable) (issuerId : Option ℕ) : Except Failure CaCertificate :=
  match issuerId with
  | some id => namedIssuer cas id
  | none =>
    match activeIssuers cas with
    | [issuer] => .ok issuer
    | [] => raise .caNotConfigured (noActiveIssuerMessage cas)
    | _ => raise .issuerRequired "more than one active issuer exists; an issuer_id is required"

/-- The certificate and the private key of a row. -/
def signingCredentials (d : Draw) (cas : CaTable) (issuerId : ℕ) :
    Except Failure (Cert × PrivateKey) := do
  let row ← getCa cas issuerId
  match row.keySealed with
  | none => raise .caNotConfigured s!"CA certificate {issuerId}'s private key is not available"
  | some keySealed =>
    let key ← unsealSigningKey E d keySealed
    pure (row.cert, key)

/-! ### Creating and importing -/

/-- Generate a self-signed root and store it. -/
def createRoot (d : Draw) (cas : CaTable) (name : Str) (keyType : String) (years : ℤ)
    (pathLength : ℕ) : Except Failure (CaTable × CaCertificate) := do
  let (cert, key) ← CaX509.createRoot E d name keyType years pathLength
  let keySealed ← sealKey E d key
  let row : CaCertificate :=
    { id := cas.nextId, kind := .root, name, parentId := none, crossOfId := none, status := .active,
      cert, keySealed := some keySealed }
  commit d (cas.upsert row) row

/-- The row of a root whose key is not here. -/
def foreignRoot (cas : CaTable) (cert : Cert) : CaCertificate :=
  { id := cas.nextId, kind := .root, name := subjectName E cert, parentId := none, crossOfId := none,
    status := .active, cert, keySealed := none }

/-- Validate and store an imported signing CA and its parent. -/
def importHierarchy (d : Draw) (cas : CaTable) (certPem : CaX509.Parsed Cert)
    (keyPem : CaX509.Parsed PrivateKey) (chainPem : CaX509.Parsed Cert) :
    Except Failure (CaTable × CaCertificate) := do
  match ← CaX509.loadImport E d certPem keyPem (some chainPem) with
  | (_, _, none) => raise .assertion "parent is not None"
  | (cert, key, some parent) =>
    let rootRow := foreignRoot E cas parent
    let cas := cas.upsert rootRow
    let keySealed ← sealKey E d key
    let row : CaCertificate :=
      { id := cas.nextId, kind := .intermediate, name := subjectName E cert,
        parentId := some rootRow.id, crossOfId := none, status := .active, cert,
        keySealed := some keySealed }
    commit d (cas.upsert row) row

/-- A further intermediate under an existing root.  The root may be retired. -/
def createIntermediateUnder (d : Draw) (cas : CaTable) (rootId : ℕ) (name : Str) (keyType : String)
    (years : ℤ) (constraints : Option Leaf.NameConstraintSpec) :
    Except Failure (CaTable × CaCertificate) := do
  let root ← getCa cas rootId
  refuse (root.kind ≠ .root) ⟨.value, s!"CA certificate {rootId} is not a root"⟩
  match root.keySealed with
  | none => raise .caNotConfigured s!"root {rootId}'s private key is not available"
  | some keySealed =>
    let candidateSubject ← nameOfCommonName name
    refuse (candidateSubject = root.cert.subject)
      ⟨.value, s!"name {name.repr} is the same as root {rootId}'s own name; an intermediate " ++
        "cannot carry its parent root's exact subject, because a certificate validator building " ++
        "a path cannot tell the two apart by subject alone and may pick the wrong one -- choose " ++
        "a name that differs from the root's"⟩
    let rootKey ← unsealSigningKey E d keySealed
    let (cert, key) ← CaX509.createIntermediate E d root.cert rootKey name keyType years
      (Leaf.nameConstraintsExtension (constraints.getD {}))
    let keySealed ← sealKey E d key
    let row : CaCertificate :=
      { id := cas.nextId, kind := .intermediate, name, parentId := some rootId, crossOfId := none,
        status := .active, cert, keySealed := some keySealed }
    commit d (cas.upsert row) row

/-- The same subject, as encoded, and the same public key. -/
def sameCa (a b : Cert) : Bool := a.subject == b.subject && a.publicKey == b.publicKey

/-- The active cross rows for a pair of roots. -/
def activeCrossPairs (cas : CaTable) (caId signingRootId : ℕ) : List CaCertificate :=
  cas.select fun r =>
    r.crossOfId == some caId && r.parentId == some signingRootId && r.status == .active

/-- Sign another root's certificate with this root's key. -/
def crossSignRoot (d : Draw) (cas : CaTable) (caId signingRootId : ℕ) (years : ℤ) :
    Except Failure (CaTable × CaCertificate) := do
  let ca ← getCa cas caId
  refuse (ca.kind ≠ .root) ⟨.value, s!"CA certificate {caId} is not a root"⟩
  let signingRoot ← getCa cas signingRootId
  refuse (signingRoot.kind ≠ .root) ⟨.value, s!"CA certificate {signingRootId} is not a root"⟩
  refuse (signingRootId = caId) ⟨.value, s!"CA certificate {caId} cannot cross-sign itself"⟩
  match signingRoot.keySealed with
  | none => raise .caNotConfigured s!"root {signingRootId}'s private key is not available"
  | some keySealed =>
    match ← CaX509.crossPathLengthError ca.cert signingRoot.cert with
    | some message => raise .crossSign message
    | none =>
      refuse (activeCrossPairs cas caId signingRootId ≠ [])
        ⟨.crossSign, s!"an active cross certificate for CA {caId} signed by {signingRootId} " ++
          "already exists; renew it instead of cross-signing again"⟩
      let issuerKey ← unsealSigningKey E d keySealed
      let cert ← CaX509.crossSign E d ca.cert signingRoot.cert issuerKey years
      let row : CaCertificate :=
        { id := cas.nextId, kind := .cross, name := subjectName E cert,
          parentId := some signingRootId, crossOfId := some caId, status := .active, cert,
          keySealed := none }
      commit d (cas.upsert row) row

/-- The roots that are the CA of a certificate, by id. -/
def rootsOf (cas : CaTable) (cert : Cert) : List CaCertificate :=
  (listCas cas .root).filter fun r => sameCa r.cert cert

/-- The one root a cross certificate is for. -/
def crossSubject (cas : CaTable) (cross : Cert) : Except Failure CaCertificate :=
  match rootsOf cas cross with
  | [] =>
    raise .caImport
      "this certificate's subject and public key do not match any CA on this instance"
  | [row] => .ok row
  | _ =>
    raise .caImport
      "more than one CA on this instance matches this certificate's subject and public key"

/-- The stored roots that could have signed: the CA of the submitted issuer certificate, other than
the subject root. -/
def signingRows (cas : CaTable) (subjectRow : CaCertificate) (issuerCert : Cert) :
    List CaCertificate :=
  (rootsOf cas issuerCert).filter fun r => r.id != subjectRow.id

/-- The row of the signing root, stored first if there is none. -/
def signingRow (cas : CaTable) (subjectRow : CaCertificate) (issuerCert : Cert) :
    CaTable × CaCertificate :=
  match signingRows cas subjectRow issuerCert with
  | row :: _ => (cas, row)
  | [] =>
    let row := foreignRoot E cas issuerCert
    (cas.upsert row, row)

/-- Store a cross certificate produced elsewhere.  Whether the pair already has an active one, and
whether the signing row found is retired, is not looked at. -/
def importCross (d : Draw) (cas : CaTable) (crossPem issuerPem : CaX509.Parsed Cert) :
    Except Failure (CaTable × CaCertificate) := do
  let preview ← CaX509.parsed crossPem "not a valid certificate PEM"
  let issuerCert ← CaX509.parsed issuerPem "not a valid issuer certificate PEM"
  -- The comparison with the first root loads the key of the submitted certificate.
  refuse (listCas cas .root ≠ [] ∧ E.knowsKey preview.publicKey = false) unknownKey
  let subjectRow ← crossSubject cas preview
  let cert ← CaX509.loadCross E d crossPem subjectRow.cert issuerCert
  let (cas, signing) := signingRow E cas subjectRow issuerCert
  let row : CaCertificate :=
    { id := cas.nextId, kind := .cross, name := subjectName E cert, parentId := some signing.id,
      crossOfId := some subjectRow.id, status := .active, cert, keySealed := none }
  commit d (cas.upsert row) row

/-! ### Retiring and renewing -/

/-- What retiring a row touches: the row and, for a root, everything it signed. -/
def retireTargets (cas : CaTable) (row : CaCertificate) : List ℕ :=
  if row.kind ≠ .root then [row.id]
  else row.id :: (cas.select fun r => r.parentId == some row.id).map CaCertificate.id

/-- Stand the rows down. -/
def retireRows (cas : CaTable) (targets : List ℕ) : CaTable :=
  cas.update (fun r => r.id ∈ targets) (fun r => { r with status := .retired }) fun _ => rfl

/-- Stand a row down; refused if no active issuer would remain. -/
def retire (d : Draw) (cas : CaTable) (caId : ℕ) : Except Failure (CaTable × Unit) := do
  let row ← getCa cas caId
  if row.status = .retired then pure (cas, ())
  else
    let targets := retireTargets cas row
    refuse ((activeIssuers cas).filter (fun r => r.id ∉ targets) = [])
      ⟨.retire, if row.kind = .root then s!"retiring root {caId} would leave no active issuer"
        else s!"cannot retire the last active issuer ({caId})"⟩
    commit d (retireRows cas targets) ()

/-- The largest number of years, at most `years`, that ends before `deadline`. -/
def yearsUntil (d : Draw) (deadline years : ℤ) : ℤ :=
  min years ((deadline - d.yearsNow) / Instant.days 1 / CaX509.daysPerYear)

/-- The key a row is renewed with: a root's own, else its parent's. -/
structure RenewalSigner where
  /-- The certificate of the signer. -/
  cert : Cert
  /-- Its sealed key. -/
  keySealed : Sealed
  /-- For how long the renewal is valid. -/
  years : ℤ

/-- Who signs the renewal of a row. -/
def renewalSigner (d : Draw) (cas : CaTable) (row : CaCertificate) (years : ℤ) :
    Except Failure RenewalSigner := do
  match row.kind with
  | .root =>
    match row.keySealed with
    | none => raise .caNotConfigured s!"CA certificate {row.id}'s private key is not available"
    | some keySealed => pure ⟨row.cert, keySealed, years⟩
  | _ =>
    let missing : Failure :=
      ⟨.caNotConfigured, s!"CA certificate {row.id}'s parent has no private key available"⟩
    match row.parentId with
    | none => .error missing
    | some parentId =>
      let parent ← getCa cas parentId
      match parent.keySealed with
      | none => .error missing
      | some keySealed =>
        pure ⟨parent.cert, keySealed, yearsUntil d parent.cert.notValidAfter years⟩

/-- Replace the certificate of a row. -/
def replaceCert (cas : CaTable) (id : ℕ) (cert : Cert) : CaTable :=
  cas.update (fun r => r.id == id) (fun r => { r with cert }) fun _ => rfl

/-- Re-sign the certificate of a row for the same key and subject. -/
def renewInPlace (d : Draw) (cas : CaTable) (caId : ℕ) (years : ℤ) :
    Except Failure (CaTable × CaCertificate) := do
  let row ← getCa cas caId
  refuse (row.status = .retired)
    ⟨.rowRetired, s!"CA certificate {caId} is retired and cannot be renewed"⟩
  let signer ← renewalSigner d cas row years
  let parentKey ← unsealSigningKey E d signer.keySealed
  let renewed ← CaX509.renewCertificate E d row.cert signer.cert parentKey signer.years
  commit d (replaceCert cas row.id renewed) { row with cert := renewed }

end Service

end Cabin
