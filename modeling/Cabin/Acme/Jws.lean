import Mathlib.Data.List.DropRight
import Cabin.Acme.Store
import Cabin.Exec.Except

/-!
# Signed requests

The checks of `acme/jws.py`: a request is a JWS in the flattened JSON serialization, and the nonce it
carries is looked at only after its signature.  The parsers, the encodings and the keys are not part
of the program: `Jose` has them, as functions nothing is known about beyond the type of a parsed key.

* `authenticate` is `verify_request` up to the nonce, on the accounts that are stored;
* `Authentic` lists what a request has that passes it, `authenticate_spec` proves it.
-/

namespace Cabin

namespace Acme

/-- A sequence of bytes. -/
abbrev Bytes := List UInt8

/-! ### Keys -/

/-- The signature algorithms that are accepted. -/
inductive Algorithm where
  | rs256
  | es256
  | es384
  | edDsa
  deriving DecidableEq, Repr

/-- The algorithm as a header names it. -/
def Algorithm.text : Algorithm → String
  | rs256 => "RS256"
  | es256 => "ES256"
  | es384 => "ES384"
  | edDsa => "EdDSA"

/-- The table of algorithms, in its order. -/
def allowedAlgorithms : List Algorithm := [.rs256, .es256, .es384, .edDsa]

/-- A public key, as a JWK is parsed to it. -/
inductive JoseKey where
  | rsa (bits : ℕ) (der : Bytes)
  | ec (curve : String) (der : Bytes)
  | ed25519 (raw : Bytes)
  | oct
  deriving DecidableEq, Repr

/-- The type of a JWK with such a key. -/
def JoseKey.kty : JoseKey → String
  | rsa .. => "RSA"
  | ec .. => "EC"
  | ed25519 _ => "OKP"
  | oct => "oct"

/-- A public key that was checked against its algorithm. -/
structure AccountKey where
  /-- The public JWK, in its canonical form. -/
  jwk : Json
  /-- What identifies the account. -/
  thumbprint : Str
  /-- The algorithm. -/
  alg : Algorithm
  /-- The key. -/
  key : JoseKey

/-- Why `json.loads` raises. -/
inductive LoadsError where
  | value
  | recursion
  deriving DecidableEq, Repr

/-- What is not part of the program: the JSON parser, base64, SHA-256, and the keys. -/
structure Jose where
  /-- `json.loads` on bytes. -/
  loads : Bytes → Except LoadsError Json
  /-- `base64.urlsafe_b64decode`. -/
  urlsafeB64decode : Str → Option Bytes
  /-- `base64.urlsafe_b64encode`. -/
  urlsafeB64encode : Bytes → Str
  /-- `Ed25519PublicKey.from_public_bytes`, and the bytes of the key. -/
  ed25519 : Bytes → Except String Bytes
  /-- `JWK.from_json`, with the key as JSON again and its thumbprint. -/
  jwkFromJson : Json → Except String (JoseKey × Json × Str)
  /-- A JWK is parsed as what its `kty` says. -/
  jwkFromJson_kty : ∀ raw key jwk thumbprint, jwkFromJson raw = .ok (key, jwk, thumbprint) →
    (raw.get? "kty").bind Json.str? = some (Str.of key.kty)
  /-- The thumbprint of an Ed25519 JWK. -/
  okpThumbprint : Json → Str
  /-- The SHA-256 of a text, `none` if it cannot be encoded. -/
  kidHash : Str → Option Str
  /-- Whether a signature verifies. -/
  verify : Algorithm → JoseKey → Bytes → Bytes → Bool

/-- A parser that returns no key respects its `kty`. -/
theorem kty_of_notParsed {e : String} (raw : Json) (key : JoseKey) (jwk : Json) (thumbprint : Str)
    (h : (.error e : Except String (JoseKey × Json × Str)) = .ok (key, jwk, thumbprint)) :
    (raw.get? "kty").bind Json.str? = some (Str.of key.kty) := nomatch h

/-- What a request raises: a problem for the client, or an exception that escapes. -/
inductive Raised where
  | acme (e : AcmeError)
  | crash (name : String)
  deriving DecidableEq, Repr

/-- A malformed request. -/
def malformed (detail : String) : Raised := .acme { kind := .malformed, detail }

/-- A key that is not accepted. -/
def badPublicKey (detail : String) : Raised := .acme { kind := .badPublicKey, detail }

/-- A request that is not allowed. -/
def unauthorized (detail : String) : Raised := .acme { kind := .unauthorized, detail }

def minAccountRsaBits : ℕ := 2048

def maxBodyBytes : ℕ := 128 * 1024

/-- A value inside a message, at most 80 characters of it. -/
def echoValue (v : Option Json) : String :=
  let text := Json.reprOption v
  if text.length ≤ 80 then text else cut 80 text ++ "..."

variable (J : Jose)

/-- A character of the alphabet of base64url. -/
def isBase64url (c : ℕ) : Bool := Str.isAlnum c || c == 0x5F || c == 0x2D

/-- base64url without padding. -/
def b64encode (data : Bytes) : Str := (J.urlsafeB64encode data).rdropWhile (· == 0x3D)

/-- Strict base64url: no padding, no other character. -/
def b64decode (value : Option Json) (what : String) : Except Raised Bytes :=
  match value.bind Json.str? with
  | none => .error (malformed s!"{what} is not base64url")
  | some s =>
    if s.all isBase64url then
      match J.urlsafeB64decode (s ++ List.replicate ((4 - s.length % 4) % 4) 0x3D) with
      | some raw => .ok raw
      | none => .error (malformed s!"{what} is not base64url")
    else .error (malformed s!"{what} is not base64url")

/-- `json.loads`, and what its exceptions become. -/
def loads (raw : Bytes) (what : String) : Except Raised Json :=
  match J.loads raw with
  | .ok v => .ok v
  | .error .value => .error (malformed s!"{what} is not JSON")
  | .error .recursion => .error (malformed s!"{what} is nested too deeply")

/-- The value has members. -/
def isObject : Json → Bool
  | .obj _ => true
  | _ => false

/-- An object out of JSON. -/
def jsonObject (raw : Bytes) (what : String) : Except Raised Json := do
  let v ← loads J raw what
  refuse (isObject v = false) (malformed s!"{what} is not a JSON object")
  pure v

/-- An Ed25519 key. -/
def okpKey (raw : Json) (alg : Algorithm) : Except Raised AccountKey := do
  refuse ((raw.get? "crv").bind Json.str? ≠ some (Str.of "Ed25519"))
    (badPublicKey "EdDSA requires an Ed25519 key")
  let material ← b64decode J (raw.get? "x") "the JWK's \"x\" parameter"
  match J.ed25519 material with
  | .error exc => .error (badPublicKey s!"not a usable Ed25519 key: {exc}")
  | .ok bytes =>
    let jwk := Json.obj [(Str.of "crv", .str (Str.of "Ed25519")), (Str.of "kty", .str (Str.of "OKP")),
      (Str.of "x", .str (b64encode J bytes))]
    .ok ⟨jwk, J.okpThumbprint jwk, alg, .ed25519 bytes⟩

/-- The curve of an ECDSA algorithm, as it is announced and as a key names it. -/
def ecCurveForAlg : Algorithm → Option (String × String)
  | .es256 => some ("P-256", "secp256r1")
  | .es384 => some ("P-384", "secp384r1")
  | _ => none

/-- A parsed key can carry signatures of the algorithm. -/
def checkJoseKey (key : JoseKey) (alg : Algorithm) : Except Raised Unit :=
  match key with
  | .rsa bits _ =>
    refuse (bits < minAccountRsaBits)
      (badPublicKey s!"an RSA account key must be at least {minAccountRsaBits} bits, not {bits}")
  | .ec curve _ =>
    match ecCurveForAlg alg with
    | none => .error (.crash "KeyError")
    | some (announced, expected) =>
      refuse (curve ≠ expected) (badPublicKey s!"{alg.text} requires a {announced} key")
  | _ => .error (badPublicKey "unsupported JWK key type")

/-- An RSA or EC key. -/
def josepyKey (raw : Json) (alg : Algorithm) : Except Raised AccountKey :=
  match J.jwkFromJson raw with
  | .error exc => .error (badPublicKey s!"the JWK could not be read: {exc}")
  | .ok (key, jwk, thumbprint) => do
    checkJoseKey key alg
    pure ⟨jwk, thumbprint, alg, key⟩

/-- Parameters of private keys. -/
def privateJwkParameters : List String := ["d", "p", "q", "dp", "dq", "qi", "oth", "k"]

/-- Read a JWK, which has to be able to carry the algorithm. -/
def loadAccountKey (raw : Json) (alg : Algorithm) : Except Raised AccountKey := do
  refuse (isObject raw = false) (malformed "the JWS jwk header is not a JSON object")
  refuse (privateJwkParameters.any fun name => (raw.get? name).isSome)
    (badPublicKey "the JWK must contain only public key parameters")
  let kty := (raw.get? "kty").bind Json.str?
  if alg = .edDsa ∧ kty = some (Str.of "OKP") then okpKey J raw alg
  else if alg = .rs256 ∧ kty = some (Str.of "RSA") then josepyKey J raw alg
  else if (ecCurveForAlg alg).isSome ∧ kty = some (Str.of "EC") then josepyKey J raw alg
  else .error (badPublicKey
    ("a " ++ echoValue (raw.get? "kty") ++ s!" key cannot carry {alg.text} signatures"))

/-! ### Parsing -/

/-- A JWS. -/
structure Jws where
  /-- The protected header, as it came. -/
  protectedB64 : Str
  /-- The payload, as it came. -/
  payloadB64 : Str
  /-- The signature. -/
  signature : Bytes
  /-- The protected header. -/
  header : Json

/-- What is signed, as a text. -/
def Jws.signingText (jws : Jws) : Str := jws.protectedB64 ++ 0x2E :: jws.payloadB64

/-- The bytes that are signed. -/
def Jws.signingInput (jws : Jws) : Except Raised Bytes :=
  if jws.signingText.isAscii then .ok (jws.signingText.map UInt8.ofNat)
  else .error (.crash "UnicodeEncodeError")

/-- A member that has to be a string. -/
def stringMember (document : Json) (name : String) : Except Raised Str :=
  match (document.get? name).bind Json.str? with
  | some s => .ok s
  | none => .error (malformed s!"the JWS has no string \"{name}\" member")

/-- A JWS out of a document. -/
def parseDocument (document : Json) : Except Raised Jws := do
  refuse (isObject document = false) (malformed "the request body is not a JSON object")
  refuse (document.get? "signatures").isSome
    (malformed "RFC 8555 6.2 requires the flattened JSON serialization, with one signature")
  refuse (document.get? "header").isSome (malformed "the JWS must not carry an unprotected header")
  let protectedB64 ← stringMember document "protected"
  let payloadB64 ← stringMember document "payload"
  let signatureB64 ← stringMember document "signature"
  let raw ← b64decode J (some (.str protectedB64)) "the JWS protected header"
  let header ← jsonObject J raw "the JWS protected header"
  refuse (header.get? "crit").isSome (malformed "the JWS \"crit\" header is not supported")
  let signature ← b64decode J (some (.str signatureB64)) "the JWS signature"
  pure ⟨protectedB64, payloadB64, signature, header⟩

/-- A JWS out of a body. -/
def parse (body : Bytes) : Except Raised Jws := do
  refuse (maxBodyBytes < body.length) (malformed "the request body is too large")
  let document ← loads J body "the request body"
  parseDocument J document

/-- The algorithm of a header. -/
def algorithm (header : Json) : Except Raised Algorithm :=
  match allowedAlgorithms.find? fun a =>
    (header.get? "alg").bind Json.str? = some (Str.of a.text) with
  | some a => .ok a
  | none => .error (.acme
    { kind := .badSignatureAlgorithm
      detail := "unsupported JWS algorithm: " ++ echoValue (header.get? "alg")
      algorithms := allowedAlgorithms.map Algorithm.text })

/-- The payload; an empty one is none. -/
def payload (payloadB64 : Str) : Except Raised (Option Json) :=
  if payloadB64 = [] then .ok none
  else do
    let raw ← b64decode J (some (.str payloadB64)) "the JWS payload"
    if raw = [] then pure none
    else do
      let v ← jsonObject J raw "the JWS payload"
      pure (some v)

/-! ### Authentication -/

/-- With which key a route wants a request to be signed. -/
inductive KeyMode where
  | jwk
  | kid
  deriving DecidableEq, Repr

/-- A request as it comes in, with what its route knows. -/
structure Post where
  /-- The body. -/
  body : Bytes
  /-- The URL of the route. -/
  url : Str
  /-- The key the route wants. -/
  mode : KeyMode
  /-- What the URL of an account starts with. -/
  accountUrl : Str

/-- The account of a `kid`. -/
def accountForKid (accounts : Table AcmeAccount) (kid : Option Json) (accountUrl : Str) :
    Except Raised AcmeAccount := do
  match (kid.bind Json.str?).filter accountUrl.isPrefixOf with
  | none => .error (unauthorized "the JWS kid header is not an account URL of this server")
  | some kid =>
    let accountId := kid.drop accountUrl.length
    refuse (accountId = [] ∨ 0x2F ∈ accountId)
      (unauthorized "the JWS kid header is not an account URL")
    match J.kidHash accountId with
    | none => .error (.crash "UnicodeEncodeError")
    | some hash =>
      match accounts.rows.find? fun a => a.kidHash = hash with
      | none => .error (.acme
        { kind := .accountDoesNotExist, detail := "no account with that key identifier" })
      | some account =>
        refuse (account.status ≠ .valid) (unauthorized s!"this account is {account.status.text}")
        pure account

/-- The key of a request, and its account. -/
def requestKey (accounts : Table AcmeAccount) (header : Json) (alg : Algorithm) (accountUrl : Str) :
    Except Raised (AccountKey × Option AcmeAccount) := do
  match header.get? "jwk" with
  | some jwk =>
    let key ← loadAccountKey J jwk alg
    pure (key, none)
  | none =>
    let account ← accountForKid J accounts (header.get? "kid") accountUrl
    let key ← loadAccountKey J account.jwk alg
    pure (key, some account)

/-- A request whose signature has verified, before its nonce is spent. -/
structure Authenticated where
  /-- The JWS. -/
  jws : Jws
  /-- The nonce it carries. -/
  nonce : Str
  /-- The key that has signed it. -/
  key : AccountKey
  /-- The account it is for, if it names one. -/
  account : Option AcmeAccount

/-- The nonce of a header. -/
def headerNonce (header : Json) : Except Raised Str :=
  match ((header.get? "nonce").bind Json.str?).filter (· ≠ []) with
  | some nonce => .ok nonce
  | none => .error (.acme { kind := .badNonce, detail := "the JWS carries no anti-replay nonce" })

/-- `verify_request`, up to the nonce. -/
def authenticate (accounts : Table AcmeAccount) (r : Post) : Except Raised Authenticated := do
  let jws ← parse J r.body
  let alg ← algorithm jws.header
  refuse ((jws.header.get? "jwk").isSome = (jws.header.get? "kid").isSome)
    (malformed "the JWS must carry exactly one of the jwk and kid headers")
  refuse (r.mode = .jwk ∧ (jws.header.get? "jwk").isSome = false)
    (malformed "this request must carry its key in a jwk header")
  refuse (r.mode = .kid ∧ (jws.header.get? "kid").isSome = false)
    (malformed "this request must name its account in a kid header")
  refuse ((jws.header.get? "url").bind Json.str? ≠ some r.url)
    (unauthorized "the JWS url header does not match the requested URL")
  let nonce ← headerNonce jws.header
  let (key, account) ← requestKey J accounts jws.header alg r.accountUrl
  let input ← jws.signingInput
  refuse (J.verify key.alg key.key input jws.signature = false)
    (malformed "the JWS signature does not verify")
  pure ⟨jws, nonce, key, account⟩

/-! ### Documents inside a payload -/

/-- The algorithm of an external account binding. -/
def eabAlgorithm : String := "HS256"

/-- An external account binding, before its MAC is checked. -/
structure ExternalBinding where
  /-- The key it names. -/
  kid : Str
  /-- The bytes that are signed. -/
  signingInput : Bytes
  /-- The MAC. -/
  signature : Bytes
  /-- The payload, as it came. -/
  payloadB64 : Str

/-- Read an external account binding, and check what does not need the secret. -/
def parseExternalBinding (document : Json) (url : Str) : Except Raised ExternalBinding := do
  let jws ← parseDocument J document
  refuse ((jws.header.get? "alg").bind Json.str? ≠ some (Str.of eabAlgorithm))
    (.acme
      { kind := .badSignatureAlgorithm
        detail := s!"an external account binding must be signed with {eabAlgorithm}, " ++
          "not " ++ echoValue (jws.header.get? "alg")
        algorithms := [eabAlgorithm] })
  match ((jws.header.get? "kid").bind Json.str?).filter (· ≠ []) with
  | none =>
    .error (malformed "the external account binding names no key identifier in its kid header")
  | some kid =>
    refuse (jws.header.get? "jwk").isSome
      (malformed "the external account binding must name its key by kid, not carry one inline")
    refuse ((jws.header.get? "url").bind Json.str? ≠ some url)
      (malformed "the external account binding was not made for this server's new-account URL")
    let input ← jws.signingInput
    pure ⟨kid, input, jws.signature, jws.payloadB64⟩

/-- The members of an object. -/
def members : Json → List (Str × Json)
  | .obj members => members
  | _ => []

/-- Check an external account binding: its MAC, and that it is for the account key. -/
def verifyExternalBinding (hmac : Bytes → Bytes → Bytes) (b : ExternalBinding) (macKey : Bytes)
    (accountJwk : Json) : Except Raised Unit := do
  refuse (hmac macKey b.signingInput ≠ b.signature)
    (unauthorized "the external account binding does not verify")
  match ← payload J b.payloadB64 with
  | none => .error (malformed "the external account binding carries no key")
  | some p =>
    refuse ((members accountJwk).any fun m => !((members p).lookup m.1).any (Json.same · m.2))
      (unauthorized "the external account binding is not for the key this request is signed with")

/-- Verify the JWS of a key rollover, which comes as the payload of another one. -/
def verifyEmbedded (document : Json) (url : Str) : Except Raised (AccountKey × Json) := do
  let jws ← parseDocument J document
  let alg ← algorithm jws.header
  match jws.header.get? "jwk", jws.header.get? "kid" with
  | some jwk, none =>
    refuse (jws.header.get? "nonce").isSome (malformed "the inner JWS must not carry a nonce")
    refuse ((jws.header.get? "url").bind Json.str? ≠ some url)
      (malformed "the inner JWS url header does not match the outer one")
    let key ← loadAccountKey J jwk alg
    let input ← jws.signingInput
    refuse (J.verify key.alg key.key input jws.signature = false)
      (malformed "the inner JWS signature does not verify")
    match ← payload J jws.payloadB64 with
    | none => .error (malformed "the inner JWS has no payload")
    | some p => pure (key, p)
  | _, _ => .error (malformed "the inner JWS must carry a jwk header, not a kid")

/-! ### What a request has that passes -/

/-- The key can carry signatures of the algorithm. -/
def Fits : Algorithm → JoseKey → Prop
  | .rs256, .rsa bits _ => minAccountRsaBits ≤ bits
  | .es256, .ec curve _ => curve = "secp256r1"
  | .es384, .ec curve _ => curve = "secp384r1"
  | .edDsa, .ed25519 _ => True
  | _, _ => False

/-- The body is a JWS in the flattened serialization, and this is what it says. -/
structure Flattened (body : Bytes) (jws : Jws) (document : Json) : Prop where
  loads : J.loads body = .ok document
  signatures : document.get? "signatures" = none
  header : document.get? "header" = none
  protectedB64 : document.get? "protected" = some (.str jws.protectedB64)
  payloadB64 : document.get? "payload" = some (.str jws.payloadB64)
  signature : ∃ s, document.get? "signature" = some (.str s) ∧
    b64decode J (some (.str s)) "the JWS signature" = .ok jws.signature
  decoded : ∃ raw, b64decode J (some (.str jws.protectedB64)) "the JWS protected header" = .ok raw ∧
    J.loads raw = .ok jws.header
  crit : jws.header.get? "crit" = none

/-- The key is the one the route wants: that of the header, or that of the account the header
names. -/
def HasKey (accounts : Table AcmeAccount) (r : Post) (a : Authenticated) : Prop :=
  match r.mode with
  | .jwk => a.account = none ∧ a.jws.header.get? "kid" = none ∧
    ∃ jwk, a.jws.header.get? "jwk" = some jwk ∧ loadAccountKey J jwk a.key.alg = .ok a.key
  | .kid => a.jws.header.get? "jwk" = none ∧ ∃ account ∈ accounts, a.account = some account ∧
    account.status = .valid ∧ loadAccountKey J account.jwk a.key.alg = .ok a.key ∧
    ∃ id, a.jws.header.get? "kid" = some (.str (r.accountUrl ++ id)) ∧ id ≠ [] ∧ 0x2F ∉ id ∧
      J.kidHash id = some account.kidHash

/-- What a request has that passes. -/
structure Authentic (accounts : Table AcmeAccount) (r : Post) (a : Authenticated) : Prop where
  size : r.body.length ≤ maxBodyBytes
  flattened : ∃ document, Flattened J r.body a.jws document
  alg : a.jws.header.get? "alg" = some (.str (Str.of a.key.alg.text))
  fits : Fits a.key.alg a.key.key
  url : a.jws.header.get? "url" = some (.str r.url)
  nonce : a.jws.header.get? "nonce" = some (.str a.nonce)
  key : HasKey J accounts r a
  /-- The signature is over the strings as they came. -/
  signed : a.jws.signingText.isAscii = true ∧
    J.verify a.key.alg a.key.key (a.jws.signingText.map UInt8.ofNat) a.jws.signature = true

variable {J} {accounts : Table AcmeAccount}

theorem eq_str_of_bind {v : Option Json} {s : Str} (h : v.bind Json.str? = some s) :
    v = some (.str s) := by
  obtain ⟨v', rfl, hs⟩ := Option.bind_eq_some_iff.1 h
  cases v' <;> cases hs
  rfl

theorem stringMember_eq_ok {document : Json} {name : String} {s : Str}
    (h : stringMember document name = .ok s) : document.get? name = some (.str s) := by
  unfold stringMember at h
  split at h
  · rename_i s' hs
    cases h
    exact eq_str_of_bind hs
  · cases h

theorem loads_eq_ok {raw : Bytes} {what : String} {v : Json} (h : loads J raw what = .ok v) :
    J.loads raw = .ok v := by
  unfold loads at h
  split at h <;> cases h
  assumption

theorem parse_spec {body : Bytes} {jws : Jws} (h : parse J body = .ok jws) :
    body.length ≤ maxBodyBytes ∧ ∃ document, Flattened J body jws document := by
  simp only [parse, parseDocument, jsonObject, bind_eq_ok, refuse_eq_ok, pure_eq_ok,
    Option.not_isSome_iff_eq_none] at h
  obtain ⟨-, hsize, document, hdocument, -, -, -, hsignatures, -, hheader, p, hp, y, hy, s, hs, raw,
    hraw, header, ⟨v, hv, -, -, rfl⟩, -, hcrit, signature, hsignature, rfl⟩ := h
  exact ⟨not_lt.1 hsize, document, loads_eq_ok hdocument, hsignatures, hheader,
    stringMember_eq_ok hp, stringMember_eq_ok hy, ⟨s, stringMember_eq_ok hs, hsignature⟩,
    ⟨raw, hraw, loads_eq_ok hv⟩, hcrit⟩

theorem algorithm_spec {header : Json} {alg : Algorithm} (h : algorithm header = .ok alg) :
    header.get? "alg" = some (.str (Str.of alg.text)) := by
  unfold algorithm at h
  split at h
  · rename_i a ha
    cases h
    exact eq_str_of_bind (by simpa using List.find?_some ha)
  · cases h

theorem headerNonce_spec {header : Json} {nonce : Str} (h : headerNonce header = .ok nonce) :
    header.get? "nonce" = some (.str nonce) := by
  unfold headerNonce at h
  split at h
  · rename_i n hn
    cases h
    exact eq_str_of_bind (Option.filter_eq_some_iff.1 hn).1
  · cases h

theorem okpKey_spec {raw : Json} {alg : Algorithm} {key : AccountKey}
    (h : okpKey J raw alg = .ok key) : key.alg = alg ∧ ∃ bytes, key.key = .ed25519 bytes := by
  simp only [okpKey, bind_eq_ok] at h
  obtain ⟨-, -, material, -, h⟩ := h
  split at h
  · cases h
  · cases h
    exact ⟨rfl, _, rfl⟩

theorem josepyKey_spec {raw : Json} {alg : Algorithm} {key : AccountKey}
    (h : josepyKey J raw alg = .ok key) :
    key.alg = alg ∧ (raw.get? "kty").bind Json.str? = some (Str.of key.key.kty) ∧
      checkJoseKey key.key alg = .ok () := by
  unfold josepyKey at h
  split at h
  · cases h
  · rename_i k jwk thumbprint hparsed
    simp only [bind_eq_ok, pure_eq_ok] at h
    obtain ⟨⟨⟩, hcheck, rfl⟩ := h
    exact ⟨rfl, J.jwkFromJson_kty _ _ _ _ hparsed, hcheck⟩

theorem rsa_of_kty {key : JoseKey} (h : some (Str.of "RSA") = some (Str.of key.kty)) :
    ∃ bits der, key = .rsa bits der := by
  cases key with
  | rsa bits der => exact ⟨bits, der, rfl⟩
  | ec | ed25519 | oct =>
    simp only [JoseKey.kty] at h
    exact absurd h (by decide)

theorem ec_of_kty {key : JoseKey} (h : some (Str.of "EC") = some (Str.of key.kty)) :
    ∃ curve der, key = .ec curve der := by
  cases key with
  | ec curve der => exact ⟨curve, der, rfl⟩
  | rsa | ed25519 | oct =>
    simp only [JoseKey.kty] at h
    exact absurd h (by decide)

/-- A key that is loaded fits its algorithm. -/
theorem loadAccountKey_spec {raw : Json} {alg : Algorithm} {key : AccountKey}
    (h : loadAccountKey J raw alg = .ok key) : key.alg = alg ∧ Fits alg key.key := by
  simp only [loadAccountKey, bind_eq_ok] at h
  obtain ⟨-, -, -, -, h⟩ := h
  split_ifs at h with hokp hrsa hec
  · obtain ⟨halg, bytes, hkey⟩ := okpKey_spec h
    rw [hkey, hokp.1]
    exact ⟨halg.trans hokp.1, trivial⟩
  · obtain ⟨halg, hkty, hcheck⟩ := josepyKey_spec h
    rw [hrsa.2] at hkty
    obtain ⟨bits, der, hkey⟩ := rsa_of_kty hkty
    rw [hkey] at hcheck
    rw [hkey, hrsa.1]
    exact ⟨halg.trans hrsa.1, not_lt.1 (refuse_eq_ok.1 hcheck)⟩
  · obtain ⟨halg, hkty, hcheck⟩ := josepyKey_spec h
    rw [hec.2] at hkty
    obtain ⟨curve, der, hkey⟩ := ec_of_kty hkty
    rw [hkey] at hcheck
    rw [hkey]
    refine ⟨halg, ?_⟩
    cases alg with
    | es256 | es384 => simpa [checkJoseKey, ecCurveForAlg, Fits] using hcheck
    | rs256 | edDsa => simp [ecCurveForAlg] at hec

theorem accountForKid_spec {kid : Option Json} {accountUrl : Str} {account : AcmeAccount}
    (h : accountForKid J accounts kid accountUrl = .ok account) :
    account ∈ accounts ∧ account.status = .valid ∧ ∃ id, kid = some (.str (accountUrl ++ id)) ∧
      id ≠ [] ∧ 0x2F ∉ id ∧ J.kidHash id = some account.kidHash := by
  unfold accountForKid at h
  split at h
  · cases h
  · rename_i url hurl
    obtain ⟨hurl, hstart⟩ := Option.filter_eq_some_iff.1 hurl
    obtain ⟨id, rfl⟩ := List.isPrefixOf_iff_prefix.1 hstart
    simp only [List.drop_left, bind_eq_ok, refuse_eq_ok, not_or] at h
    obtain ⟨-, ⟨hne, hslash⟩, h⟩ := h
    split at h
    · cases h
    · rename_i hash hhash
      split at h
      · cases h
      · rename_i row hrow
        simp only [bind_eq_ok, refuse_eq_ok, pure_eq_ok, not_not] at h
        obtain ⟨-, hvalid, rfl⟩ := h
        have hkid : row.kidHash = hash := by simpa using List.find?_some hrow
        exact ⟨List.mem_of_find?_eq_some hrow, hvalid, id, eq_str_of_bind hurl, hne, hslash,
          hkid ▸ hhash⟩

theorem signingInput_spec {jws : Jws} {input : Bytes} (h : jws.signingInput = .ok input) :
    jws.signingText.isAscii = true ∧ input = jws.signingText.map UInt8.ofNat := by
  unfold Jws.signingInput at h
  split_ifs at h with hascii
  cases h
  exact ⟨hascii, rfl⟩

/-- **What a request has that passes.** -/
theorem authenticate_spec {r : Post} {a : Authenticated} (h : authenticate J accounts r = .ok a) :
    Authentic J accounts r a := by
  simp only [authenticate, bind_eq_ok, refuse_eq_ok, pure_eq_ok] at h
  obtain ⟨jws, hjws, alg, halg, -, hone, -, hjwk, -, hkid, -, hurl, nonce, hnonce, ⟨key, account⟩, hkey,
    input, hinput, -, hverify, rfl⟩ := h
  obtain ⟨hsize, document, hflat⟩ := parse_spec hjws
  obtain ⟨hascii, rfl⟩ := signingInput_spec hinput
  have hloaded : key.alg = alg ∧ Fits alg key.key ∧ HasKey J accounts r ⟨jws, nonce, key, account⟩ := by
    unfold requestKey at hkey
    cases hheader : jws.header.get? "jwk" with
    | some jwk =>
      simp only [hheader, bind_eq_ok, pure_eq_ok, Prod.mk.injEq] at hkey
      obtain ⟨k, hload, rfl, rfl⟩ := hkey
      obtain ⟨rfl, hfits⟩ := loadAccountKey_spec hload
      have hnone : jws.header.get? "kid" = none := by simpa [hheader] using hone
      have hmode : r.mode = .jwk := by
        cases hm : r.mode with
        | jwk => rfl
        | kid => simp [hm, hnone] at hkid
      refine ⟨rfl, hfits, ?_⟩
      rw [HasKey, hmode]
      exact ⟨rfl, hnone, jwk, hheader, hload⟩
    | none =>
      simp only [hheader, bind_eq_ok, pure_eq_ok, Prod.mk.injEq] at hkey
      obtain ⟨row, hrow, k, hload, rfl, rfl⟩ := hkey
      obtain ⟨rfl, hfits⟩ := loadAccountKey_spec hload
      obtain ⟨hmem, hvalid, id, hid⟩ := accountForKid_spec hrow
      have hmode : r.mode = .kid := by
        cases hm : r.mode with
        | jwk => simp [hm, hheader] at hjwk
        | kid => rfl
      refine ⟨rfl, hfits, ?_⟩
      rw [HasKey, hmode]
      exact ⟨hheader, row, hmem, rfl, hvalid, hload, id, hid⟩
  obtain ⟨rfl, hfits, hhas⟩ := hloaded
  exact ⟨hsize, ⟨document, hflat⟩, algorithm_spec halg, hfits, eq_str_of_bind (not_not.1 hurl),
    headerNonce_spec hnonce, hhas, hascii, by simpa using hverify⟩

end Acme

end Cabin
