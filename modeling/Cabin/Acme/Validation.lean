import Cabin.Acme.Calls
import Cabin.Acme.Dns01
import Cabin.Acme.Resolvers
import Cabin.Acme.TlsAlpn01

/-!
# Attempts at a challenge

What the background task does between its two looks at the database (`acme/validation/__init__.py`): it makes an
attempt of the rows and the settings, runs the method of the challenge, and turns whatever comes of it into an
outcome.

What happens outside around one attempt is a `World`.

* `attempt`, `run` and `conclude` are the task;
* `Shows`: what has to be shown, method by method;
* `shows_of_conclude`: nothing else ends well.
-/

namespace Cabin

namespace Acme

deriving instance DecidableEq for Outcome

namespace Validation

/-! ### The task -/

/-- The libraries the methods use. -/
structure Libraries where
  kinds : AddressKinds
  urls : Http01.UrlLibrary
  sha256 : Bytes → Bytes

/-- All that happens around one attempt, and the settings as it reads them. -/
structure World where
  /-- Around each request of `http-01`. -/
  http : ℕ → Http01.Turn
  dns : Dns01.Query
  tls : TlsAlpn01.Handshake
  /-- The setting `allow_private_validation_targets`. -/
  allowPrivate : Option Str := none
  /-- The setting `dns_resolvers`. -/
  dnsResolvers : Option Str := none
  /-- When the task writes down that the attempt went well. -/
  now : ℤ

variable (L : Libraries) (world : World)

/-- What the method is given. -/
def attempt (challenge : AcmeChallenge) (authz : AcmeAuthorization) : Option AcmeAccount → Except Raised Attempt
  | none => .error (.acme { kind := .serverInternal, detail := "this authorization has no account" })
  | some account => do
    let resolvers ← resolvers world.dnsResolvers
    pure
      { isIp := decide (authz.identifierType = .ip)
        identifierValue := authz.identifierValue
        token := challenge.token
        keyAuthorization := KeyAuth.keyAuthorization challenge.token account.jwkThumbprint
        allowPrivate := Settings.getFlag true world.allowPrivate
        resolvers }

/-- The method of a challenge. -/
def run (a : Attempt) : ChallengeType → Except Raised Unit
  | .http01 => (Http01.validate L.kinds L.urls a.toAttempt world.http).outcome
  | .dns01 => Dns01.validate L.sha256 a world.dns
  | .tlsAlpn01 => TlsAlpn01.validate L.kinds L.sha256 a.toAttempt world.tls

/-- How the attempt ends: whatever is raised, there is an outcome. -/
def conclude (challenge : AcmeChallenge) (authz : AcmeAuthorization) (account : Option AcmeAccount) : Outcome :=
  match attempt world challenge authz account >>= fun a => run L world a challenge.type with
  | .ok () => .success world.now
  | .error (.acme error) => .refused error
  | .error (.crash name) => .crashed name

/-- `_account_of`: whose order the authorization belongs to. -/
def accountOf (db : AcmeDb) (authz : AcmeAuthorization) : Option AcmeAccount :=
  (db.orders.get? authz.orderId).bind fun order => db.accounts.get? order.accountId

/-! ### What is shown -/

/-- The last request of the attempt went to an approved address and was answered with the key authorization. -/
def Serves (K : AddressKinds) (U : Http01.UrlLibrary) (a : Http01.Attempt) (http : ℕ → Http01.Turn) : Prop :=
  ∃ i < 6, ∃ r : Http01.HttpRequest, (Http01.validate K U a http).requests.length = i + 1 ∧
    (Http01.validate K U a http).requests[i]? = some r ∧ r.Permitted K a.allowPrivate (http i).lookup ∧
    ∃ response, (http i).answer = .ok response ∧ response.status = 200 ∧
      a.keyAuthorization.utf8 = some (Http01.stripBytes (response.chunks.flatMap Http01.Chunk.bytes))

/-- What has to be shown for a challenge. -/
def Shows (a : Attempt) : ChallengeType → Prop
  | .http01 => Serves L.kinds L.urls a.toAttempt world.http
  | .dns01 => Dns01.Shows L.sha256 a world.dns
  | .tlsAlpn01 => TlsAlpn01.Shows L.kinds L.sha256 a.toAttempt world.tls

variable {L world} {challenge : AcmeChallenge} {authz : AcmeAuthorization} {account : Option AcmeAccount} {now : ℤ}

theorem serves_of_validate {K : AddressKinds} {U : Http01.UrlLibrary} {a : Http01.Attempt} {http : ℕ → Http01.Turn}
    (h : (Http01.validate K U a http).outcome = .ok ()) : Serves K U a http := by
  have hsafe := Http01.fetch_spec K U a (Http01.maxRedirects + 1) (Http01.challengeUrl a) http
  obtain ⟨body, hbody, hcompare⟩ := bind_eq_ok.1 h
  obtain ⟨i, hi, hlength, response, hanswer, hstatus, rfl⟩ := hsafe.served body hbody
  obtain ⟨r, hr⟩ : ∃ r, (Http01.validate K U a http).requests[i]? = some r :=
    ⟨_, List.getElem?_eq_getElem (by simp only [Http01.validate, hlength, Nat.lt_succ_self])⟩
  refine ⟨i, hi, r, hlength, hr, hsafe.permitted i r hr, response, hanswer, hstatus, ?_⟩
  unfold Http01.compareBody at hcompare
  cases hutf8 : a.keyAuthorization.utf8 with
  | none =>
    rw [hutf8] at hcompare
    cases hcompare
  | some expected =>
    rw [hutf8] at hcompare
    exact congrArg some (not_not.1 (refuse_eq_ok.1 hcompare)).symm

theorem shows_of_run {a : Attempt} {type : ChallengeType} (h : run L world a type = .ok ()) : Shows L world a type := by
  cases type with
  | http01 => exact serves_of_validate h
  | dns01 => exact Dns01.shows_of_validate h
  | tlsAlpn01 => exact TlsAlpn01.shows_of_validate h

/-- **An attempt ends well only if the proof was shown** for the account of the order. -/
theorem shows_of_conclude (h : conclude L world challenge authz account = .success now) :
    ∃ row a, account = some row ∧ attempt world challenge authz (some row) = .ok a ∧
      Shows L world a challenge.type := by
  unfold conclude at h
  split at h
  · rename_i hok
    obtain ⟨a, ha, hrun⟩ := bind_eq_ok.1 hok
    cases account with
    | none => cases ha
    | some row => exact ⟨row, a, rfl, ha, shows_of_run hrun⟩
  · cases h
  · cases h

/-! ### One proof, one key -/

variable (L world) in
/-- These bytes were shown: the body of a file, the strings of a record, or an extension that is critical. -/
def Seen (bytes : List ℕ) : ChallengeType → Prop
  | .http01 => ∃ i response, (world.http i).answer = .ok response ∧ response.status = 200 ∧
      bytes = response.chunks.flatMap Http01.Chunk.bytes
  | .dns01 => ∃ name asked found, world.dns.answer name asked = .ok found ∧ ∃ record ∈ found, bytes = record.flatten
  | .tlsAlpn01 => ∃ cert presented, world.tls.certificate = some (some cert) ∧
      cert.tbs.extensions.others.lookup TlsAlpn01.acmeIdentifierOid = some (true, presented) ∧
      bytes = presented.map UInt8.toNat

variable (L) in
/-- The bytes are a proof for the key authorization. -/
def Presents (bytes : List ℕ) (authorization : Str) : ChallengeType → Prop
  | .http01 => authorization.utf8 = some (Http01.stripBytes bytes)
  | .dns01 => KeyAuth.dnsValue L.sha256 authorization = .ok bytes
  | .tlsAlpn01 => ∃ digest, KeyAuth.digest L.sha256 authorization = .ok digest ∧
      bytes = (TlsAlpn01.octetStringHeader ++ digest).map UInt8.toNat

/-- Something was seen. -/
theorem exists_seen {a : Attempt} {type : ChallengeType} (h : Shows L world a type) :
    ∃ bytes, Seen world bytes type ∧ Presents L bytes a.keyAuthorization type := by
  cases type with
  | http01 =>
    obtain ⟨i, -, -, -, -, -, response, hanswer, hstatus, hutf8⟩ := h
    exact ⟨_, ⟨i, response, hanswer, hstatus, rfl⟩, hutf8⟩
  | dns01 =>
    obtain ⟨-, -, found, hfound, record, hrecord, hvalue⟩ := h
    exact ⟨_, ⟨_, _, found, hfound, record, hrecord, rfl⟩, hvalue⟩
  | tlsAlpn01 =>
    obtain ⟨-, -, -, -, -, -, -, cert, hcert, -, -, digest, hdigest, hlookup⟩ := h
    exact ⟨_, ⟨cert, _, hcert, hlookup, rfl⟩, digest, hdigest, rfl⟩

theorem eq_of_presents {bytes : List ℕ} {type : ChallengeType} {token token' thumbprint thumbprint' : Str}
    (htoken : KeyAuth.IsBase64url token) (hthumbprint : KeyAuth.IsBase64url thumbprint)
    (htoken' : KeyAuth.IsBase64url token') (hthumbprint' : KeyAuth.IsBase64url thumbprint')
    (h : Presents L bytes (KeyAuth.keyAuthorization token thumbprint) type)
    (h' : Presents L bytes (KeyAuth.keyAuthorization token' thumbprint') type) :
    token = token' ∧ thumbprint = thumbprint' ∨ KeyAuth.Collide L.sha256
      (KeyAuth.keyAuthorization token thumbprint) (KeyAuth.keyAuthorization token' thumbprint') := by
  cases type with
  | http01 =>
    have hutf8 := KeyAuth.utf8_of_lt (KeyAuth.keyAuthorization_lt htoken hthumbprint)
    have hutf8' := KeyAuth.utf8_of_lt (KeyAuth.keyAuthorization_lt htoken' hthumbprint')
    have hsame := Option.some.inj (hutf8.symm.trans (h.trans (h'.symm.trans hutf8')))
    exact .inl (KeyAuth.keyAuthorization_inj hthumbprint hthumbprint' hsame)
  | dns01 => exact KeyAuth.dnsValue_inj htoken hthumbprint htoken' hthumbprint' h h'
  | tlsAlpn01 =>
    obtain ⟨digest, hdigest, rfl⟩ := h
    obtain ⟨digest', hdigest', heq⟩ := h'
    obtain rfl := List.append_cancel_left (List.map_injective_iff.2 (fun _ _ => UInt8.toNat_inj.1) heq)
    exact KeyAuth.digest_inj htoken hthumbprint htoken' hthumbprint' (hdigest.trans hdigest'.symm)

/-- **A proof is for one key.**  An attempt that ends well has seen bytes that are a proof for the token of its
challenge and the key of its account, and for no other token and no other key, unless SHA-256 does not tell their
key authorizations apart. -/
theorem proof_for_one_key {row : AcmeAccount} (h : conclude L world challenge authz (some row) = .success now)
    (htoken : KeyAuth.IsBase64url challenge.token) (hthumbprint : KeyAuth.IsBase64url row.jwkThumbprint) :
    ∃ bytes, Seen world bytes challenge.type ∧
      Presents L bytes (KeyAuth.keyAuthorization challenge.token row.jwkThumbprint) challenge.type ∧
      ∀ token thumbprint, KeyAuth.IsBase64url token → KeyAuth.IsBase64url thumbprint →
        Presents L bytes (KeyAuth.keyAuthorization token thumbprint) challenge.type →
        challenge.token = token ∧ row.jwkThumbprint = thumbprint ∨ KeyAuth.Collide L.sha256
          (KeyAuth.keyAuthorization challenge.token row.jwkThumbprint)
          (KeyAuth.keyAuthorization token thumbprint) := by
  obtain ⟨row', a, hrow, ha, hshows⟩ := shows_of_conclude h
  obtain rfl := Option.some.inj hrow
  obtain ⟨resolvers, -, heq⟩ := bind_eq_ok.1 ha
  obtain rfl := pure_eq_ok.1 heq
  obtain ⟨bytes, hseen, hpresents⟩ := exists_seen hshows
  exact ⟨bytes, hseen, hpresents, fun token thumbprint htoken' hthumbprint' h' =>
    eq_of_presents htoken hthumbprint htoken' hthumbprint' hpresents h'⟩

/-! ### An attempt -/

/-- The libraries, as far as the host needs them. -/
def nasLibraries : Libraries where
  kinds := ⟨fun _ => false, fun _ => false, fun _ => false, fun _ => false, fun _ => false⟩
  urls :=
    { urlsplit _ := .ok ⟨Str.of "http", some (Str.of "nas.lan"), .ok none, [], []⟩
      join _ location := .ok location }
  sha256 := id

/-- The host answers with the key authorization of a challenge. -/
def nasWorld (token : Str) : World where
  http _ :=
    { lookup _ := [Str.of "192.168.1.5"]
      answer := .ok { status := 200, chunks := [⟨true, KeyAuth.keyAuthorization token (Str.of "thumbprint")⟩] } }
  dns := { answer _ _ := .error .nxdomain }
  tls := ⟨fun _ => [], true, fun _ => .error .timeout, true, fun _ => .error .timeout, none, none⟩
  now := Instant.days 20000

/-- This attempt ends well. -/
theorem proof_for_one_key_nas : ∃ bytes, Seen (nasWorld (Str.of "tok")) bytes .http01 ∧
    Presents nasLibraries bytes (KeyAuth.keyAuthorization (Str.of "tok") (Str.of "thumbprint")) .http01 := by
  have hok : conclude nasLibraries (nasWorld (Str.of "tok"))
      ⟨Str.of "challenge", Str.of "authz", .http01, Str.of "tok", .processing, none, none⟩
      ⟨Str.of "authz", Str.of "order", .dns, Str.of "nas.lan", .pending, 0, false⟩
      (some ⟨Str.of "account", Str.of "hash", .null, Str.of "thumbprint", .valid, none, 2⟩) =
        .success (Instant.days 20000) := by
    decide +kernel
  have htoken : KeyAuth.IsBase64url (Str.of "tok") := by
    unfold KeyAuth.IsBase64url
    decide
  have hthumbprint : KeyAuth.IsBase64url (Str.of "thumbprint") := by
    unfold KeyAuth.IsBase64url
    decide
  obtain ⟨bytes, hseen, hpresents, -⟩ := proof_for_one_key hok htoken hthumbprint
  exact ⟨bytes, hseen, hpresents⟩

end Validation

end Acme

end Cabin
