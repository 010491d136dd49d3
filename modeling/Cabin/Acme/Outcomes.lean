import Cabin.Acme.AccountKeys
import Cabin.Acme.Nonces

/-!
# The outcomes of verification

Whatever bytes come in, verifying a JWS (`acme/jws.py`) should end with a request or with a problem for
the client.  Two texts are encoded before anybody has looked at them: the payload, which is signed as it
came and only decoded afterwards, and the id of the account in a `kid`, which is hashed.

* `verifyRequest`, `keyMode`: the functions as a whole;
* `verification_outcome_iff`: each of the functions ends so if and only if what it encodes can be
  encoded.
-/

namespace Cabin

namespace Acme

/-! ### The functions -/

/-- A request whose signature has verified and whose nonce is spent. -/
structure VerifiedRequest where
  /-- The protected header. -/
  header : Json
  /-- The payload, if there is one. -/
  payload : Option Json
  /-- The key that has signed it. -/
  key : AccountKey
  /-- The account it is for, if it names one. -/
  account : Option AcmeAccount

/-- A nonce that cannot be spent. -/
def unknownNonce : Raised :=
  .acme { kind := .badNonce, detail := "this nonce is unknown, already used, or expired" }

variable (J : Jose)

/-- What becomes of a request once its nonce was looked for. -/
def afterNonce (x : Authenticated) (spent : Bool) : Except Raised VerifiedRequest := do
  refuse (spent = false) unknownNonce
  let payload ← payload J x.jws.payloadB64
  pure ⟨x.jws.header, payload, x.key, x.account⟩

/-- `verify_request`: the nonces that are left, and the request. -/
def verifyRequest (accounts : Table AcmeAccount) (nonces : Table AcmeNonce) (now : ℤ) (r : Post) :
    Table AcmeNonce × Except Raised VerifiedRequest :=
  match authenticate J accounts r with
  | .error e => (nonces, .error e)
  | .ok x => ((consumeNonce nonces x.nonce now).1, afterNonce J x (consumeNonce nonces x.nonce now).2)

/-- In which of the two forms a request has come. -/
def keyMode (body : Bytes) : Except Raised KeyMode := do
  let jws ← parse J body
  refuse ((jws.header.get? "jwk").isSome = (jws.header.get? "kid").isSome)
    (malformed "the JWS must carry exactly one of the jwk and kid headers")
  pure (if (jws.header.get? "kid").isSome then .kid else .jwk)

/-- An external account binding is read, and then verified with the secret of its key. -/
def checkExternalBinding (hmac : Bytes → Bytes → Bytes) (document : Json) (url : Str) (macKey : Bytes)
    (accountJwk : Json) : Except Raised Unit := do
  let b ← parseExternalBinding J document url
  verifyExternalBinding J hmac b macKey accountJwk

/-- What a call of `verify_request` has ended with. -/
def NoncePc.result : NoncePc → Option (Except Raised VerifiedRequest)
  | passed _ _ x payload => some (payload.map fun p => ⟨x.jws.header, p, x.key, x.account⟩)
  | unknown .. => some (.error unknownNonce)
  | refused _ e => some (.error e)
  | _ => none

/-! ### What can be encoded -/

/-- A text is hashed unless it has no encoding, which is if there is half of a surrogate pair in it. -/
def HashesTexts : Prop := ∀ id, J.kidHash id = none ↔ ∃ c ∈ id, Str.isSurrogate c = true

/-- The header of a request is one that its route takes. -/
structure Post.Takes (r : Post) (header : Json) (alg : Algorithm) : Prop where
  alg : algorithm header = .ok alg
  one : (header.get? "jwk").isSome ≠ (header.get? "kid").isSome
  jwk : r.mode = .jwk → (header.get? "jwk").isSome = true
  kid : r.mode = .kid → (header.get? "kid").isSome = true
  url : (header.get? "url").bind Json.str? = some r.url
  nonce : ∃ nonce, headerNonce header = .ok nonce

/-- What is encoded of a request can be: the id of its account, if it has no jwk, and, if it has a key,
its payload. -/
structure Post.Encodes (accounts : Table AcmeAccount) (r : Post) : Prop where
  kid : ∀ jws alg id, parse J r.body = .ok jws → r.Takes jws.header alg →
    jws.header.get? "jwk" = none → jws.header.get? "kid" = some (.str (r.accountUrl ++ id)) →
    0x2F ∉ id → ∀ c ∈ id, Str.isSurrogate c = false
  payload : ∀ jws alg found, parse J r.body = .ok jws → r.Takes jws.header alg →
    requestKey J accounts jws.header alg r.accountUrl = .ok found → jws.payloadB64.isAscii = true

/-- The payload of an external account binding can be encoded, if its header is that of one. -/
def BindingEncodes (document : Json) (url : Str) : Prop :=
  ∀ jws kid, parseDocument J document = .ok jws →
    (jws.header.get? "alg").bind Json.str? = some (Str.of eabAlgorithm) →
    (jws.header.get? "kid").bind Json.str? = some kid → kid ≠ [] → jws.header.get? "jwk" = none →
    (jws.header.get? "url").bind Json.str? = some url → jws.payloadB64.isAscii = true

/-- The payload of a rollover can be encoded, if its header is that of one and its key loads. -/
def RolloverEncodes (document : Json) (url : Str) : Prop :=
  ∀ jws alg jwk key, parseDocument J document = .ok jws → algorithm jws.header = .ok alg →
    jws.header.get? "jwk" = some jwk → jws.header.get? "kid" = none →
    jws.header.get? "nonce" = none → (jws.header.get? "url").bind Json.str? = some url →
    loadAccountKey J jwk alg = .ok key → jws.payloadB64.isAscii = true

section encodings

variable {J} {accounts : Table AcmeAccount}

/-! ### What is signed -/

theorem isAscii_of_isBase64url {s : Str} (h : s.all isBase64url = true) : s.isAscii = true := by
  refine List.all_eq_true.2 fun c hc => decide_eq_true ?_
  have hchar := List.all_eq_true.1 h c hc
  simp only [isBase64url, Str.isAlnum, Bool.or_eq_true, Bool.and_eq_true, decide_eq_true_eq,
    beq_iff_eq, Str.isDigit] at hchar
  omega

theorem all_of_b64decode {s : Str} {what : String} {raw : Bytes}
    (h : b64decode J (some (.str s)) what = .ok raw) : s.all isBase64url = true := by
  simp only [b64decode, Option.bind_some, Json.str?] at h
  split_ifs at h with hall
  exact hall

/-- The header of a JWS that is read is in base64url, so what is signed depends on the payload. -/
theorem isAscii_signingText {document : Json} {jws : Jws} (h : parseDocument J document = .ok jws) :
    jws.signingText.isAscii = jws.payloadB64.isAscii := by
  simp only [parseDocument, bind_eq_ok, pure_eq_ok] at h
  obtain ⟨-, -, -, -, -, -, p, -, y, -, s, -, raw, hraw, header, -, -, -, signature, -, rfl⟩ := h
  have hp : p.isAscii = true := isAscii_of_isBase64url (all_of_b64decode hraw)
  unfold Str.isAscii at hp ⊢
  simp [Jws.signingText, hp]

theorem exists_document_of_parse {body : Bytes} {jws : Jws} (h : parse J body = .ok jws) :
    ∃ document, parseDocument J document = .ok jws := by
  simp only [parse, bind_eq_ok] at h
  obtain ⟨-, -, document, -, h⟩ := h
  exact ⟨document, h⟩

theorem raises_signingInput_iff {jws : Jws} :
    Raises Raised.IsProblem jws.signingInput ↔ jws.signingText.isAscii = true := by
  unfold Jws.signingInput
  split_ifs with h
  · exact iff_of_true raises_ok h
  · rw [raises_error_iff]
    exact iff_of_false id h

/-! ### One part after the other -/

theorem raises_parse (body : Bytes) : Raises Raised.IsProblem (parse J body) := by
  refine raises_bind (raises_refuse trivial) fun _ _ => ?_
  refine raises_bind ?_ fun document _ => raises_parseDocument _
  unfold loads
  split
  · exact raises_ok
  · exact raises_error trivial
  · exact raises_error trivial

theorem raises_headerNonce (header : Json) : Raises Raised.IsProblem (headerNonce header) := by
  unfold headerNonce
  split
  · exact raises_ok
  · exact raises_error trivial

/-- Looking for an account fails otherwise only if the id it is hashed by has no encoding. -/
theorem raises_accountForKid_iff {kid : Option Json} {accountUrl : Str} :
    Raises Raised.IsProblem (accountForKid J accounts kid accountUrl) ↔
      ∀ id, kid = some (.str (accountUrl ++ id)) → id ≠ [] → 0x2F ∉ id → J.kidHash id ≠ none := by
  unfold accountForKid
  cases hkid : (kid.bind Json.str?).filter accountUrl.isPrefixOf with
  | none =>
    refine iff_of_true (raises_error trivial) fun id h => ?_
    rw [h] at hkid
    simp [Json.str?, Option.filter] at hkid
  | some url =>
    obtain ⟨hurl, hstart⟩ := Option.filter_eq_some_iff.1 hkid
    obtain ⟨id, rfl⟩ := List.isPrefixOf_iff_prefix.1 hstart
    obtain rfl := eq_str_of_bind hurl
    dsimp only
    rw [raises_refuse_bind trivial, List.drop_left]
    have hid : ∀ id', some (Json.str (accountUrl ++ id)) = some (.str (accountUrl ++ id')) ↔ id = id' := by
      simp
    simp only [hid, forall_eq', not_or, and_imp]
    refine imp_congr_right fun hne => imp_congr_right fun hslash => ?_
    cases hhash : J.kidHash id with
    | none => simp [raises_error_iff, Raised.IsProblem]
    | some hash =>
      refine iff_of_true ?_ (by simp)
      dsimp only
      split
      · exact raises_error trivial
      · exact raises_bind (raises_refuse trivial) fun _ _ => raises_pure

theorem raises_requestKey_iff {header : Json} {alg : Algorithm} {accountUrl : Str} :
    Raises Raised.IsProblem (requestKey J accounts header alg accountUrl) ↔
      (header.get? "jwk" = none →
        Raises Raised.IsProblem (accountForKid J accounts (header.get? "kid") accountUrl)) := by
  unfold requestKey
  cases header.get? "jwk" with
  | some jwk =>
    exact iff_of_true (raises_bind (raises_loadAccountKey _ _) fun _ _ => raises_pure) (nomatch ·)
  | none =>
    simp only [forall_const]
    exact raises_bind_left fun account => raises_bind (raises_loadAccountKey _ _) fun _ _ => raises_pure

/-! ### The functions as a whole -/

/-- What comes after the header of a request: its key is looked for, and then what it signs is encoded. -/
theorem raises_authenticate {r : Post} :
    Raises Raised.IsProblem (authenticate J accounts r) ↔
      ∀ jws alg, parse J r.body = .ok jws → r.Takes jws.header alg →
        Raises Raised.IsProblem (requestKey J accounts jws.header alg r.accountUrl) ∧
        ∀ found, requestKey J accounts jws.header alg r.accountUrl = .ok found →
          jws.payloadB64.isAscii = true := by
  constructor
  · intro h jws alg hjws htakes
    obtain ⟨document, hdocument⟩ := exists_document_of_parse hjws
    obtain ⟨nonce, hnonce⟩ := htakes.nonce
    have h := (raises_bind_iff.1 h).2 jws hjws
    have h := (raises_bind_iff.1 h).2 alg htakes.alg
    have h := (raises_bind_iff.1 h).2 () (refuse_eq_ok.2 htakes.one)
    have h := (raises_bind_iff.1 h).2 () (refuse_eq_ok.2 fun hmode => by
      simpa [hmode.2] using htakes.jwk hmode.1)
    have h := (raises_bind_iff.1 h).2 () (refuse_eq_ok.2 fun hmode => by
      simpa [hmode.2] using htakes.kid hmode.1)
    have h := (raises_bind_iff.1 h).2 () (refuse_eq_ok.2 (not_not.2 htakes.url))
    have h := (raises_bind_iff.1 h).2 nonce hnonce
    obtain ⟨hkey, h⟩ := raises_bind_iff.1 h
    refine ⟨hkey, fun found hfound => ?_⟩
    rw [← isAscii_signingText hdocument, ← raises_signingInput_iff]
    exact (raises_bind_iff.1 (h found hfound)).1
  · intro h
    refine raises_bind (raises_parse _) fun jws hjws => ?_
    obtain ⟨document, hdocument⟩ := exists_document_of_parse hjws
    refine raises_bind (raises_algorithm _) fun alg halg => ?_
    refine raises_bind (raises_refuse trivial) fun _ hone => ?_
    refine raises_bind (raises_refuse trivial) fun _ hjwk => ?_
    refine raises_bind (raises_refuse trivial) fun _ hkid => ?_
    refine raises_bind (raises_refuse trivial) fun _ hurl => ?_
    refine raises_bind (raises_headerNonce _) fun nonce hnonce => ?_
    rw [refuse_eq_ok] at hone hjwk hkid hurl
    obtain ⟨hkey, hascii⟩ := h jws alg hjws
      { alg := halg
        one := hone
        jwk := fun hmode => by simpa [hmode, Option.isSome_iff_ne_none] using hjwk
        kid := fun hmode => by simpa [hmode, Option.isSome_iff_ne_none] using hkid
        url := not_not.1 hurl
        nonce := ⟨nonce, hnonce⟩ }
    refine raises_bind hkey fun found hfound => ?_
    refine raises_bind (raises_signingInput_iff.2 ?_) fun input _ => ?_
    · rw [isAscii_signingText hdocument]
      exact hascii found hfound
    · exact raises_bind (raises_refuse trivial) fun _ _ => raises_pure

theorem raises_afterNonce (x : Authenticated) (spent : Bool) :
    Raises Raised.IsProblem (afterNonce J x spent) := by
  refine raises_bind (raises_refuse trivial) fun _ _ => ?_
  exact raises_bind (raises_problem (raises_payload _)) fun _ _ => raises_pure

theorem raises_verifyRequest (nonces : Table AcmeNonce) (now : ℤ) (r : Post) :
    Raises Raised.IsProblem (verifyRequest J accounts nonces now r).2 ↔
      Raises Raised.IsProblem (authenticate J accounts r) := by
  unfold verifyRequest
  cases authenticate J accounts r with
  | error e => exact raises_error_iff.trans raises_error_iff.symm
  | ok x => exact iff_of_true (raises_afterNonce _ _) raises_ok

theorem raises_verifyRequest_iff (hhash : HashesTexts J) (nonces : Table AcmeNonce) (now : ℤ) (r : Post) :
    Raises Raised.IsProblem (verifyRequest J accounts nonces now r).2 ↔ r.Encodes J accounts := by
  have hencoded : ∀ id, J.kidHash id ≠ none ↔ ∀ c ∈ id, Str.isSurrogate c = false := by
    intro id
    rw [Ne, hhash id]
    simp
  rw [raises_verifyRequest, raises_authenticate]
  simp only [raises_requestKey_iff, raises_accountForKid_iff, hencoded]
  constructor
  · intro h
    refine ⟨fun jws alg id hjws htakes hjwk hkid hslash c hc => ?_, fun jws alg found hjws htakes => ?_⟩
    · exact (h jws alg hjws htakes).1 hjwk id hkid (List.ne_nil_of_mem hc) hslash c hc
    · exact (h jws alg hjws htakes).2 found
  · intro h jws alg hjws htakes
    exact ⟨fun hjwk id hkid _ hslash => h.kid jws alg id hjws htakes hjwk hkid hslash,
      fun found => h.payload jws alg found hjws htakes⟩

theorem raises_keyMode (body : Bytes) : Raises Raised.IsProblem (keyMode J body) := by
  refine raises_bind (raises_parse _) fun jws _ => ?_
  exact raises_bind (raises_refuse trivial) fun _ _ => raises_pure

theorem raises_checkExternalBinding_iff (hmac : Bytes → Bytes → Bytes) (document : Json) (url : Str)
    (macKey : Bytes) (accountJwk : Json) :
    Raises Raised.IsProblem (checkExternalBinding J hmac document url macKey accountJwk) ↔
      BindingEncodes J document url := by
  unfold checkExternalBinding
  rw [raises_bind_left fun b => raises_problem (raises_verifyExternalBinding hmac b macKey accountJwk)]
  unfold parseExternalBinding
  rw [raises_bind_right (raises_parseDocument _)]
  constructor
  · intro h jws kid hjws halg hkid hne hjwk hurl
    have hfilter : ((jws.header.get? "kid").bind Json.str?).filter (· ≠ []) = some kid := by
      simp [hkid, hne]
    have h := (raises_bind_iff.1 (h jws hjws)).2 () (refuse_eq_ok.2 (not_not.2 halg))
    rw [hfilter] at h
    have h := (raises_bind_iff.1 h).2 () (refuse_eq_ok.2 (by simp [hjwk]))
    have h := (raises_bind_iff.1 h).2 () (refuse_eq_ok.2 (not_not.2 hurl))
    rw [← isAscii_signingText hjws, ← raises_signingInput_iff]
    exact (raises_bind_iff.1 h).1
  · intro h jws hjws
    refine raises_bind (raises_refuse trivial) fun _ halg => ?_
    cases hkid : ((jws.header.get? "kid").bind Json.str?).filter (· ≠ []) with
    | none => exact raises_error trivial
    | some kid =>
      obtain ⟨hkid, hne⟩ := Option.filter_eq_some_iff.1 hkid
      refine raises_bind (raises_refuse trivial) fun _ hjwk => ?_
      refine raises_bind (raises_refuse trivial) fun _ hurl => ?_
      rw [refuse_eq_ok, not_not] at halg hurl
      refine raises_bind (raises_signingInput_iff.2 ?_) fun input _ => raises_pure
      rw [isAscii_signingText hjws]
      exact h jws kid hjws halg hkid (by simpa using hne) (by simpa using hjwk) hurl

theorem raises_verifyEmbedded_iff (document : Json) (url : Str) :
    Raises Raised.IsProblem (verifyEmbedded J document url) ↔ RolloverEncodes J document url := by
  unfold verifyEmbedded
  rw [raises_bind_right (raises_parseDocument _)]
  constructor
  · intro h jws alg jwk key hjws halg hjwk hkid hnonce hurl hkey
    have h := (raises_bind_iff.1 (h jws hjws)).2 alg halg
    rw [hjwk, hkid] at h
    have h := (raises_bind_iff.1 h).2 () (refuse_eq_ok.2 (by simp [hnonce]))
    have h := (raises_bind_iff.1 h).2 () (refuse_eq_ok.2 (not_not.2 hurl))
    have h := (raises_bind_iff.1 h).2 key hkey
    rw [← isAscii_signingText hjws, ← raises_signingInput_iff]
    exact (raises_bind_iff.1 h).1
  · intro h jws hjws
    refine raises_bind (raises_algorithm _) fun alg halg => ?_
    split
    · rename_i jwk hjwk hkid
      refine raises_bind (raises_refuse trivial) fun _ hnonce => ?_
      refine raises_bind (raises_refuse trivial) fun _ hurl => ?_
      refine raises_bind (raises_loadAccountKey _ _) fun key hkey => ?_
      rw [refuse_eq_ok] at hnonce hurl
      refine raises_bind (raises_signingInput_iff.2 ?_) fun input _ => ?_
      · rw [isAscii_signingText hjws]
        exact h jws alg jwk key hjws halg hjwk hkid (by simpa using hnonce) (not_not.1 hurl) hkey
      · refine raises_bind (raises_refuse trivial) fun _ _ => ?_
        refine raises_bind (raises_problem (raises_payload _)) fun p _ => ?_
        cases p with
        | none => exact raises_error trivial
        | some p => exact raises_pure
    · exact raises_error trivial

theorem result_of_nonce (r : Post) (now : ℤ) (x : Authenticated) (spent : Bool) :
    (if spent then NoncePc.passed r now x (payload J x.jws.payloadB64) else .unknown r now x).result =
      some (afterNonce J x spent) := by
  cases spent with
  | false => rfl
  | true =>
    unfold afterNonce
    cases hp : payload J x.jws.payloadB64 with
    | error e => rfl
    | ok p => rfl

/-- A call that takes two turns, with any writes in between, ends with what `verifyRequest` returns on the
accounts of the first and the nonces of the second. -/
theorem result_of_turns {r : Post} {now : ℤ} (db : NonceDb) :
    (∀ e, authenticate J accounts r = .error e →
      (NoncePc.refused r e).result = some (verifyRequest J accounts db.nonces now r).2) ∧
    ∀ x db' pc, authenticate J accounts r = .ok x → NoncePc.runConsume J r now x db = .ok (db', pc) →
      db'.nonces = (verifyRequest J accounts db.nonces now r).1 ∧
        pc.result = some (verifyRequest J accounts db.nonces now r).2 := by
  unfold verifyRequest
  constructor
  · intro e h
    rw [h]
    rfl
  · intro x db' pc h hrun
    obtain ⟨rfl, rfl⟩ := Prod.mk.inj (Except.ok.inj hrun)
    rw [h]
    exact ⟨rfl, result_of_nonce r now x _⟩

/-- **The outcomes of verification.**  `verify_request`, on any accounts and nonces, an external account
binding that is read and verified, and the JWS of a rollover return or raise a problem for the client if
and only if what they encode can be encoded; `key_mode` always does. -/
theorem verification_outcome_iff (hhash : HashesTexts J) :
    (∀ (accounts : Table AcmeAccount) (nonces : Table AcmeNonce) (now : ℤ) (r : Post),
      Raises Raised.IsProblem (verifyRequest J accounts nonces now r).2 ↔ r.Encodes J accounts) ∧
    (∀ body, Raises Raised.IsProblem (keyMode J body)) ∧
    (∀ (hmac : Bytes → Bytes → Bytes) (document : Json) (url : Str) (macKey : Bytes) (accountJwk : Json),
      Raises Raised.IsProblem (checkExternalBinding J hmac document url macKey accountJwk) ↔
        BindingEncodes J document url) ∧
    ∀ (document : Json) (url : Str),
      Raises Raised.IsProblem (verifyEmbedded J document url) ↔ RolloverEncodes J document url :=
  ⟨fun _ nonces now r => raises_verifyRequest_iff hhash nonces now r, raises_keyMode,
    raises_checkExternalBinding_iff, raises_verifyEmbedded_iff⟩

end encodings

/-! ### A payload that is not ASCII -/

/-- A body with the header and the signature of the request, and with one letter as its payload. -/
def accentedBody : Bytes :=
  ascii (Str.of "\x7b\"protected\":\"" ++ sampleProtected ++ Str.of "\",\"payload\":\"") ++ [0xC3, 0xA9] ++
    ascii (Str.of "\",\"signature\":\"" ++ sampleSignature ++ Str.of "\"\x7d")

/-- The parsers, encodings and keys on this body and those of `Jose.sample`; no id is hashed here. -/
def Jose.accented : Jose :=
  { Jose.sample with
    loads := fun raw =>
      if raw = accentedBody then
        .ok (.obj [(Str.of "protected", .str sampleProtected), (Str.of "payload", .str (Str.of "é")),
          (Str.of "signature", .str sampleSignature)])
      else Jose.sample.loads raw
    kidHash := fun id => if id.any Str.isSurrogate then none else some [] }

theorem hashesTexts_accented : HashesTexts .accented := by
  intro id
  simp [Jose.accented]

/-- A request with an empty payload, whose nonce nobody has handed out. -/
theorem verification_outcome_sample :
    samplePost.Encodes .accented .empty ∧
      (verifyRequest .accented .empty .empty 0 samplePost).2.toOption.isSome = false := by
  have hraises : Raises Raised.IsProblem (verifyRequest .accented .empty .empty 0 samplePost).2 := by
    decide +kernel
  obtain ⟨hrequest, -⟩ := verification_outcome_iff hashesTexts_accented
  exact ⟨(hrequest .empty .empty 0 samplePost).1 hraises, by decide +kernel⟩

/-- Nothing catches what encoding the payload raises. -/
theorem accented_payload_escapes :
    ¬ Raises Raised.IsProblem
      (verifyRequest .accented .empty .empty 0 { samplePost with body := accentedBody }).2 := by
  decide +kernel

end Acme

end Cabin
