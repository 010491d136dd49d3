import Cabin.Acme.Registration

/-!
# The keys of accounts

That no two accounts have the same key, whatever the calls on accounts do at the same time; that a
deactivated account stays deactivated; and what the calls end with.  Since the unique index on
`jwk_thumbprint` refuses every second account with a key, the first two hold in all runs.  But a
key-change looks for an account with the new key in one statement and writes in another, and nobody
catches what the index raises then.

* `UniqueKeys` : the invariant of the table, `maintains_uniqueKeys`;
* `Proper` : what is known of a call at a place, `maintains_proper`;
* `account_keys_and_answers` : in every run in which the writes find the rows they were meant for
  (`Undisturbed`), each request comes to an end with an answer or a problem for the client;
* `key_change_crashes` : a run in which a key-change does not.
-/

namespace Cabin

namespace Acme

open AccountDb AccountPlace

/-! ### What the JWS layer raises -/

section documents

variable {J : Jose}

/-- What the JWS inside a payload signs can be encoded. -/
def AsciiText (J : Jose) (document : Json) : Prop :=
  ∀ jws, parseDocument J document = .ok jws → jws.signingText.isAscii = true

instance (J : Jose) (document : Json) : Decidable (AsciiText J document) :=
  inferInstanceAs (Decidable (∀ _, _ → _))

theorem raises_b64decode (value : Option Json) (what : String) :
    Raises Raised.IsOther (b64decode J value what) := by
  unfold b64decode
  cases value.bind Json.str? with
  | none => exact raises_error (isOther_malformed _)
  | some s =>
    dsimp only
    split_ifs
    · split
      · exact raises_ok
      · exact raises_error (isOther_malformed _)
    · exact raises_error (isOther_malformed _)

theorem raises_jsonObject (raw : Bytes) (what : String) :
    Raises Raised.IsOther (jsonObject J raw what) := by
  have hloads : Raises Raised.IsOther (loads J raw what) := by
    unfold loads
    split
    · exact raises_ok
    · exact raises_error (isOther_malformed _)
    · exact raises_error (isOther_malformed _)
  refine raises_bind hloads fun v _ => ?_
  exact raises_bind (raises_refuse (isOther_malformed _)) fun _ _ => raises_pure

theorem raises_payload (payloadB64 : Str) : Raises Raised.IsOther (payload J payloadB64) := by
  unfold payload
  split_ifs
  · exact raises_ok
  · refine raises_bind (raises_b64decode _ _) fun raw _ => ?_
    split_ifs
    · exact raises_pure
    · exact raises_bind (raises_jsonObject _ _) fun _ _ => raises_pure

theorem raises_stringMember (document : Json) (name : String) :
    Raises Raised.IsProblem (stringMember document name) := by
  unfold stringMember
  split
  · exact raises_ok
  · exact raises_error trivial

theorem raises_parseDocument (document : Json) :
    Raises Raised.IsProblem (parseDocument J document) := by
  refine raises_bind (raises_refuse trivial) fun _ _ => ?_
  refine raises_bind (raises_refuse trivial) fun _ _ => ?_
  refine raises_bind (raises_refuse trivial) fun _ _ => ?_
  refine raises_bind (raises_stringMember _ _) fun _ _ => ?_
  refine raises_bind (raises_stringMember _ _) fun _ _ => ?_
  refine raises_bind (raises_stringMember _ _) fun _ _ => ?_
  refine raises_bind (raises_problem (raises_b64decode _ _)) fun _ _ => ?_
  refine raises_bind (raises_problem (raises_jsonObject _ _)) fun _ _ => ?_
  refine raises_bind (raises_refuse trivial) fun _ _ => ?_
  exact raises_bind (raises_problem (raises_b64decode _ _)) fun _ _ => raises_pure

theorem raises_signingInput {jws : Jws} (h : jws.signingText.isAscii = true) :
    Raises Raised.IsProblem jws.signingInput := by
  unfold Jws.signingInput
  rw [if_pos h]
  exact raises_ok

theorem raises_parseExternalBinding {document : Json} (hascii : AsciiText J document) (url : Str) :
    Raises Raised.IsProblem (parseExternalBinding J document url) := by
  refine raises_bind (raises_parseDocument _) fun jws hjws => ?_
  refine raises_bind (raises_refuse trivial) fun _ _ => ?_
  split
  · exact raises_error trivial
  · refine raises_bind (raises_refuse trivial) fun _ _ => ?_
    refine raises_bind (raises_refuse trivial) fun _ _ => ?_
    exact raises_bind (raises_signingInput (hascii jws hjws)) fun _ _ => raises_pure

theorem raises_verifyExternalBinding (hmac : Bytes → Bytes → Bytes) (b : ExternalBinding)
    (macKey : Bytes) (accountJwk : Json) :
    Raises Raised.IsOther (verifyExternalBinding J hmac b macKey accountJwk) := by
  refine raises_bind (raises_refuse ⟨trivial, by decide⟩) fun _ _ => ?_
  refine raises_bind (raises_payload _) fun p _ => ?_
  cases p with
  | none => exact raises_error (isOther_malformed _)
  | some p => exact raises_refuse ⟨trivial, by decide⟩

/-- The curve of an algorithm is looked up for keys on curves only, which only these algorithms
have. -/
theorem raises_josepyKey {raw : Json} {alg : Algorithm}
    (h : (ecCurveForAlg alg).isSome ∨ (raw.get? "kty").bind Json.str? = some (Str.of "RSA")) :
    Raises Raised.IsProblem (josepyKey J raw alg) := by
  unfold josepyKey
  split
  · exact raises_error trivial
  · rename_i key jwk thumbprint hparsed
    refine raises_bind ?_ fun _ _ => raises_pure
    have hkty := J.jwkFromJson_kty _ _ _ _ hparsed
    cases key with
    | rsa bits der => exact raises_refuse trivial
    | ed25519 | oct => exact raises_error trivial
    | ec curve der =>
      unfold checkJoseKey
      cases hcurve : ecCurveForAlg alg with
      | none =>
        rcases h with h | h
        · simp [hcurve] at h
        · rw [h] at hkty
          obtain ⟨bits, der', h⟩ := rsa_of_kty hkty
          cases h
      | some names => exact raises_refuse trivial

theorem raises_loadAccountKey (raw : Json) (alg : Algorithm) :
    Raises Raised.IsProblem (loadAccountKey J raw alg) := by
  refine raises_bind (raises_refuse trivial) fun _ _ => ?_
  refine raises_bind (raises_refuse trivial) fun _ _ => ?_
  dsimp only
  split_ifs with hokp hrsa hec
  · refine raises_bind (raises_refuse trivial) fun _ _ => ?_
    refine raises_bind (raises_problem (raises_b64decode _ _)) fun material _ => ?_
    split
    · exact raises_error trivial
    · exact raises_ok
  · exact raises_josepyKey (.inr hrsa.2)
  · exact raises_josepyKey (.inl hec.1)
  · exact raises_error trivial

theorem raises_algorithm (header : Json) : Raises Raised.IsProblem (algorithm header) := by
  unfold algorithm
  split
  · exact raises_ok
  · exact raises_error trivial

theorem raises_verifyEmbedded {document : Json} (hascii : AsciiText J document) (url : Str) :
    Raises Raised.IsProblem (verifyEmbedded J document url) := by
  refine raises_bind (raises_parseDocument _) fun jws hjws => ?_
  refine raises_bind (raises_algorithm _) fun alg _ => ?_
  split
  · refine raises_bind (raises_refuse trivial) fun _ _ => ?_
    refine raises_bind (raises_refuse trivial) fun _ _ => ?_
    refine raises_bind (raises_loadAccountKey _ _) fun key _ => ?_
    refine raises_bind (raises_signingInput (hascii jws hjws)) fun input _ => ?_
    refine raises_bind (raises_refuse trivial) fun _ _ => ?_
    refine raises_bind (raises_problem (raises_payload _)) fun p _ => ?_
    cases p with
    | none => exact raises_error trivial
    | some p => exact raises_pure
  · exact raises_error trivial

/-- The key of a rollover is one of a JWK. -/
theorem isLoaded_of_verifyEmbedded {document : Json} {url : Str} {key : AccountKey} {inner : Json}
    (h : verifyEmbedded J document url = .ok (key, inner)) : IsLoaded J key := by
  simp only [verifyEmbedded, bind_eq_ok] at h
  obtain ⟨jws, -, alg, -, h⟩ := h
  split at h
  · simp only [bind_eq_ok] at h
    obtain ⟨-, -, -, -, key', hload, -, -, -, -, p, -, h⟩ := h
    cases p with
    | none => cases h
    | some p =>
      simp only [pure_eq_ok, Prod.mk.injEq] at h
      obtain ⟨rfl, -⟩ := h
      exact ⟨_, _, hload⟩
  · cases h

end documents

/-! ### Requests -/

/-- Nothing escapes from the JWS layer, and what a document inside the payload signs can be encoded.
-/
def Orderly {J : Jose} : AccountRequest J → Prop
  | .newAccount _ verified _ => Raises Raised.IsProblem verified ∧
    ∀ key payload, verified = .ok (key, some payload) →
      ∀ binding ∈ payload.externalAccountBinding, AsciiText J binding
  | .account _ post => Raises Raised.IsProblem post.kid ∧
    ∀ jwk, Raises Raised.IsProblem (post.check jwk)
  | .keyChange post => Raises Raised.IsProblem post.kid ∧
    ∀ jwk, Raises Raised.IsProblem (post.check jwk) ∧
      ∀ payload, post.check jwk = .ok payload → AsciiText J (payload.getD .null)
  | .revokeKey .. => True

section checks

variable {K : Keyring} {db : AccountDb}

theorem raises_verifyEab {binding : Json} (hascii : AsciiText K.toJose binding) (accountJwk : Json)
    (issuerId : ℕ) : Raises Raised.IsProblem (verifyEab K db binding accountJwk issuerId) := by
  refine raises_bind (raises_refuse trivial) fun _ _ => ?_
  refine raises_bind (raises_parseExternalBinding hascii _) fun b _ => ?_
  unfold verifyEabKey
  cases db.eabKeys.get? b.kid with
  | none => exact raises_error trivial
  | some row =>
    refine raises_bind (raises_refuse trivial) fun _ _ => ?_
    refine raises_bind (raises_refuse trivial) fun _ _ => ?_
    split
    · exact raises_error trivial
    · exact raises_bind (raises_problem (raises_verifyExternalBinding _ _ _ _)) fun _ _ => raises_pure

/-- The key that is verified is in the table, can be spent, is for the issuer, and is the one the
binding names. -/
theorem verifyEab_spec {binding accountJwk : Json} {issuerId : ℕ} {row : AcmeEabKey}
    (h : verifyEab K db binding accountJwk issuerId = .ok row) :
    row ∈ db.eabKeys ∧ row.isUsable = true ∧ row.caCertificateId = issuerId ∧
      ∃ b, parseExternalBinding K.toJose binding (db.url (newAccountPath issuerId)) = .ok b ∧
        b.kid = row.id := by
  simp only [verifyEab, bind_eq_ok] at h
  obtain ⟨-, -, b, hb, h⟩ := h
  unfold verifyEabKey at h
  cases hrow : db.eabKeys.get? b.kid with
  | none =>
    rw [hrow] at h
    cases h
  | some row' =>
    simp only [hrow, bind_eq_ok, refuse_eq_ok, not_not, Bool.not_eq_false] at h
    obtain ⟨-, husable, -, hissuer, h⟩ := h
    split at h
    · cases h
    · simp only [bind_eq_ok, pure_eq_ok] at h
      obtain ⟨-, -, rfl⟩ := h
      obtain ⟨hmem, hid⟩ := Table.get?_eq_some.1 hrow
      exact ⟨hmem, husable, hissuer, b, hb, hid.symm⟩

theorem raises_accountOf {post : KidPost} (hkid : Raises Raised.IsProblem post.kid)
    (hcheck : ∀ jwk, Raises Raised.IsProblem (post.check jwk)) :
    Raises Raised.IsProblem (accountOf db post) := by
  refine raises_bind hkid fun kid _ => ?_
  split
  · exact raises_error trivial
  · refine raises_bind (raises_refuse trivial) fun _ _ => ?_
    exact raises_bind (hcheck _) fun _ _ => raises_pure

/-- Only a valid account authenticates a request. -/
theorem accountOf_spec {post : KidPost} {account : AcmeAccount} {payload : Option Json}
    (h : accountOf db post = .ok (account, payload)) :
    account ∈ db.accounts ∧ account.status = .valid ∧ post.check account.jwk = .ok payload := by
  simp only [accountOf, bind_eq_ok] at h
  obtain ⟨kid, -, h⟩ := h
  split at h
  · cases h
  · rename_i a ha
    simp only [rejectUnusable, bind_eq_ok, refuse_eq_ok, pure_eq_ok, not_not, Prod.mk.injEq] at h
    obtain ⟨-, hvalid, y, hcheck, rfl, rfl⟩ := h
    exact ⟨List.mem_of_find?_eq_some ha, hvalid, hcheck⟩

theorem raises_verifyKeyChange {account : AcmeAccount} {payload : Option Json}
    (hascii : AsciiText K.toJose (payload.getD .null)) :
    Raises Raised.IsProblem (verifyKeyChange K db account payload) := by
  refine raises_bind (raises_verifyEmbedded hascii _) fun found _ => ?_
  refine raises_bind (raises_refuse trivial) fun _ _ => ?_
  exact raises_bind (raises_refuse trivial) fun _ _ => raises_pure

theorem isLoaded_of_verifyKeyChange {account : AcmeAccount} {payload : Option Json}
    {key : AccountKey} (h : verifyKeyChange K db account payload = .ok key) :
    IsLoaded K.toJose key := by
  simp only [verifyKeyChange, bind_eq_ok, pure_eq_ok] at h
  obtain ⟨⟨newKey, inner⟩, hfound, -, -, -, -, rfl⟩ := h
  exact isLoaded_of_verifyEmbedded hfound

end checks

/-! ### Unique keys -/

/-- The row is that of one key of a JWK. -/
def AcmeAccount.HasJwk (J : Jose) (a : AcmeAccount) : Prop :=
  ∃ key, IsLoaded J key ∧ a.jwk = key.jwk ∧ a.jwkThumbprint = key.thumbprint

/-- No two accounts have the same key, and the thumbprint of each is that of its JWK. -/
structure UniqueKeys (J : Jose) (db : AccountDb) : Prop where
  unique : ∀ a ∈ db.accounts, ∀ b ∈ db.accounts, a.jwkThumbprint = b.jwkThumbprint → a = b
  hasJwk : ∀ a ∈ db.accounts, a.HasJwk J

/-- The key a call goes on with comes out of a JWK. -/
def HoldsLoaded (J : Jose) : AccountPlace → Prop
  | .existing _ key _ | .requirement key _ | .external key _ _ | .conflict _ key | .rotate _ key =>
    IsLoaded J key
  | .getOrCreate form | .insert form | .readBack form => IsLoaded J form.key
  | _ => True

section unique

variable {J : Jose} {db : AccountDb} {f : AcmeAccount → AcmeAccount} {hf : ∀ a, key (f a) = key a}

theorem holdsLoaded_ofAccount (binding : Option AcmeEabKey) (a : AcmeAccount) (isNew : Bool) :
    HoldsLoaded J (ofAccount binding a isNew) := by
  unfold ofAccount
  cases binding with
  | none => trivial
  | some b =>
    dsimp only
    split_ifs <;> trivial

theorem UniqueKeys.insert {row : AcmeAccount} (h : UniqueKeys J db)
    (hfresh : ∀ a ∈ db.accounts, ¬ Clash a row) (hrow : row.HasJwk J) :
    UniqueKeys J { db with accounts := db.accounts.upsert row } where
  unique := Table.unique_upsert h.unique fun a ha hthumbprint => hfresh a ha (.inr (.inr hthumbprint))
  hasJwk a ha := by
    rcases Table.mem_upsert.1 ha with rfl | ⟨ha, -⟩
    · exact hrow
    · exact h.hasJwk a ha

/-- An `UPDATE` of one account that leaves its key as it is. -/
theorem UniqueKeys.update (h : UniqueKeys J db) (id : Str)
    (hkey : ∀ a : AcmeAccount, (f a).jwk = a.jwk ∧ (f a).jwkThumbprint = a.jwkThumbprint) :
    UniqueKeys J (db.updateAccount id f hf) where
  unique a' ha' b' hb' hab := by
    obtain ⟨a, ha, rfl⟩ := mem_updateAccount.1 ha'
    obtain ⟨b, hb, rfl⟩ := mem_updateAccount.1 hb'
    have hsame : ∀ x : AcmeAccount, (if x.id = id then f x else x).jwkThumbprint = x.jwkThumbprint := by
      intro x
      split_ifs
      · exact (hkey x).2
      · rfl
    rw [hsame, hsame] at hab
    rw [h.unique a ha b hb hab]
  hasJwk a' ha' := by
    obtain ⟨a, ha, rfl⟩ := mem_updateAccount.1 ha'
    obtain ⟨key, hloaded, hjwk, hthumbprint⟩ := h.hasJwk a ha
    split_ifs
    · exact ⟨key, hloaded, (hkey a).1.trans hjwk, (hkey a).2.trans hthumbprint⟩
    · exact ⟨key, hloaded, hjwk, hthumbprint⟩

/-- A new key, which no other account has. -/
theorem UniqueKeys.rotate {key : AccountKey} {id : Str} (h : UniqueKeys J db)
    (hfresh : ∀ x ∈ db.accounts, x.id ≠ id → x.jwkThumbprint ≠ key.thumbprint)
    (hkey : IsLoaded J key) : UniqueKeys J (db.updateAccount id (rekeyed key) fun _ => rfl) where
  unique a' ha' b' hb' hab := by
    obtain ⟨a, ha, rfl⟩ := mem_updateAccount.1 ha'
    obtain ⟨b, hb, rfl⟩ := mem_updateAccount.1 hb'
    by_cases hida : a.id = id
    · by_cases hidb : b.id = id
      · obtain rfl : a = b := Table.eq_of_key ha hb (hida.trans hidb.symm)
        rfl
      · rw [if_pos hida, if_neg hidb] at hab
        exact absurd hab.symm (hfresh b hb hidb)
    · by_cases hidb : b.id = id
      · rw [if_neg hida, if_pos hidb] at hab
        exact absurd hab (hfresh a ha hida)
      · rw [if_neg hida, if_neg hidb] at hab ⊢
        exact h.unique a ha b hb hab
  hasJwk a' ha' := by
    obtain ⟨a, ha, rfl⟩ := mem_updateAccount.1 ha'
    split_ifs
    · exact ⟨key, hkey, rfl, rfl⟩
    · exact h.hasJwk a ha

end unique

/-- **Every write keeps the keys unique.** -/
theorem maintains_uniqueKeys (K : Keyring) :
    MaintainsEach (AccountPlace.act K) (fun _ _ _ => True) (UniqueKeys K.toJose)
      fun _ _ => HoldsLoaded K.toJose where
  select {db r p f} hact _ _ hG := by
    have hlook := accountLook_of_select hact db
    generalize f db = p' at hlook ⊢
    cases hlook with
    | @verified _ _ _ _ _ key => exact key.2
    | bare | presented | free | accepted | fresh | changing => exact hG
    | raced | reloaded => exact holdsLoaded_ofAccount _ _ _
    | proven _ hkey => exact isLoaded_of_verifyKeyChange hkey
    | _ => trivial
  write {db db' r p p' run busy} hact hrun _ hI hG := by
    suffices h : UniqueKeys K.toJose db' ∧ HoldsLoaded K.toJose p' from
      ⟨h.1, h.2, fun _ _ hothers => hothers⟩
    cases accountWrite_of_run hact hrun with
    | inserted hfresh =>
      exact ⟨hI.insert hfresh ⟨_, hG, rfl, rfl⟩, holdsLoaded_ofAccount _ _ _⟩
    | bound | revoked => exact ⟨⟨hI.unique, hI.hasJwk⟩, trivial⟩
    | lost =>
      refine ⟨hI, ?_⟩
      split_ifs <;> trivial
    | discarded =>
      refine ⟨⟨fun a ha b hb => ?_, fun a ha => ?_⟩, trivial⟩
      · exact hI.unique a (Table.mem_delete.1 ha).1 b (Table.mem_delete.1 hb).1
      · exact hI.hasJwk a (Table.mem_delete.1 ha).1
    | deactivated | contacts => exact ⟨hI.update _ fun _ => ⟨rfl, rfl⟩, trivial⟩
    | rotated hfresh => exact ⟨hI.rotate hfresh hG, trivial⟩
  refused {db r p p' run busy} hact hrun _ _ hG := by
    cases accountRefusal_of_run hact hrun with
    | insert => exact hG
    | _ => trivial

/-! ### Answers -/

/-- The call is over, with an answer or a problem for the client. -/
def AccountPlace.IsAnswer : AccountPlace → Prop
  | .answered .. | .settled => True
  | .raised e => e.IsProblem
  | _ => False

/-- What is known of a call at a place, as long as nothing escapes. -/
inductive Proper {J : Jose} (db : AccountDb) : AccountRequest J → AccountPlace → Prop
  | start {r} (h : Orderly r) : Proper db r .start
  | existing {issuerId verified newId issuer key payload}
      (h : ∀ binding ∈ payload.externalAccountBinding, AsciiText J binding) :
      Proper db (.newAccount issuerId verified newId) (.existing issuer key payload)
  | requirement {issuerId verified newId key payload} :
      Proper db (.newAccount issuerId verified newId) (.requirement key payload)
  | external {issuerId verified newId key payload binding} (h : AsciiText J binding) :
      Proper db (.newAccount issuerId verified newId) (.external key payload binding)
  | getOrCreate {issuerId verified newId form}
      (h : ∀ b ∈ form.binding, (db.eabKeys.get? b.id).isSome) :
      Proper db (.newAccount issuerId verified newId) (.getOrCreate form)
  | insert {issuerId verified newId form} (h : ∀ b ∈ form.binding, (db.eabKeys.get? b.id).isSome) :
      Proper db (.newAccount issuerId verified newId) (.insert form)
  | readBack {issuerId verified newId form} (h : ∀ b ∈ form.binding, (db.eabKeys.get? b.id).isSome) :
      Proper db (.newAccount issuerId verified newId) (.readBack form)
  | reload {issuerId verified newId b a} (h : (db.eabKeys.get? b.id).isSome) :
      Proper db (.newAccount issuerId verified newId) (.reload b a)
  | bind {issuerId verified newId b a isNew} :
      Proper db (.newAccount issuerId verified newId) (.bind b a isNew)
  | discard {issuerId verified newId a} :
      Proper db (.newAccount issuerId verified newId) (.discard a)
  | deactivate {accountId post a} : Proper db (.account accountId post) (.deactivate a)
  | setContacts {accountId post a contacts} :
      Proper db (.account accountId post) (.setContacts a contacts)
  | conflict {post a key} : Proper db (.keyChange post) (.conflict a key)
  | rotate {post a key} : Proper db (.keyChange post) (.rotate a key)
  | revoke {keyId now key} : Proper db (.revokeKey keyId now) (.revoke key)
  | answer {r p} (h : p.IsAnswer) : Proper db r p

/-- The rows a call is about to read back or to write are as it has found them: the account that won is
there, the account that is taken back has no key yet, an account that is changed is still there, and
nobody else has the key it is given. -/
def Undisturbed {J : Jose} (db : AccountDb) (_ : AccountRequest J) : AccountPlace → Prop
  | .readBack form => (db.findAccountByKey form.key.thumbprint).isSome
  | .discard a => ¬ db.HasKey a.id
  | .deactivate a | .setContacts a _ => db.HasAccount a.id
  | .rotate a key => db.HasAccount a.id ∧
    ∀ x ∈ db.accounts, x.id ≠ a.id → x.jwkThumbprint ≠ key.thumbprint
  | _ => True

instance {J : Jose} (db : AccountDb) (r : AccountRequest J) : DecidablePred (Undisturbed db r)
  | .readBack _ => inferInstanceAs (Decidable (_ = _))
  | .discard _ => inferInstanceAs (Decidable (¬ _))
  | .deactivate a | .setContacts a _ => inferInstanceAs (Decidable (db.HasAccount a.id))
  | .rotate .. => inferInstanceAs (Decidable (_ ∧ ∀ x ∈ db.accounts, _ → _))
  | .start | .existing .. | .requirement .. | .external .. | .getOrCreate .. | .insert .. | .reload ..
  | .bind .. | .conflict .. | .revoke .. | .answered .. | .raised .. | .settled =>
    inferInstanceAs (Decidable True)

section proper

variable {K : Keyring} {J : Jose} {db db' : AccountDb} {r : AccountRequest J} {p p' : AccountPlace}

theorem proper_ofAccount {issuerId : ℕ} {newId : NewId J}
    {verified : Except Raised (LoadedKey J × Option NewAccountPayload)} (binding : Option AcmeEabKey)
    (a : AcmeAccount) (isNew : Bool) :
    Proper db (.newAccount issuerId verified newId) (ofAccount binding a isNew) := by
  unfold ofAccount
  cases binding with
  | none => exact .answer trivial
  | some b =>
    dsimp only
    split_ifs
    · exact .answer trivial
    · exact .bind

/-- Keys are not deleted. -/
theorem isSome_of_write (h : AccountWrite db r p p' db') {id : Str}
    (hkey : (db.eabKeys.get? id).isSome) : (db'.eabKeys.get? id).isSome := by
  cases h with
  | bound | revoked =>
    simp only [spend, revokeKey, Table.get?_update, Option.isSome_map]
    exact hkey
  | _ => exact hkey

theorem proper_of_write (h : AccountWrite db r p p' db') {r₂ : AccountRequest J} {p₂ : AccountPlace}
    (hproper : Proper db r₂ p₂) : Proper db' r₂ p₂ := by
  cases hproper with
  | start h' => exact .start h'
  | existing h' => exact .existing h'
  | requirement => exact .requirement
  | external h' => exact .external h'
  | getOrCreate h' => exact .getOrCreate fun b hb => isSome_of_write h (h' b hb)
  | insert h' => exact .insert fun b hb => isSome_of_write h (h' b hb)
  | readBack h' => exact .readBack fun b hb => isSome_of_write h (h' b hb)
  | reload h' => exact .reload (isSome_of_write h h')
  | bind => exact .bind
  | discard => exact .discard
  | deactivate => exact .deactivate
  | setContacts => exact .setContacts
  | conflict => exact .conflict
  | rotate => exact .rotate
  | revoke => exact .revoke
  | answer h' => exact .answer h'

/-- A call that is over has an answer. -/
theorem Proper.isAnswer {r : AccountRequest K.toJose} (h : Proper db r p)
    (hdone : AccountPlace.act K r p = .done) : p.IsAnswer := by
  cases h with
  | answer h => exact h
  | _ => cases hdone

end proper

/-- **As long as the rows are as a call has found them, nothing escapes.** -/
theorem maintains_proper (K : Keyring) :
    MaintainsEach (AccountPlace.act K) Undisturbed (fun _ => True) Proper where
  select {db r p f} hact hC _ hG := by
    have hlook := accountLook_of_select hact db
    generalize f db = p' at hlook ⊢
    cases hlook with
    | other h => exact .answer h.1
    | unverified h =>
      cases hG with
      | start horderly => exact .answer (horderly.1 _ h)
      | answer h => cases h
    | verified h =>
      cases hG with
      | start horderly => exact .existing (horderly.2 _ _ h)
      | answer h => cases h
    | bare => exact .requirement
    | presented _ hbinding =>
      cases hG with
      | existing h => exact .external (h _ hbinding)
      | answer h => cases h
    | free => exact .getOrCreate fun b hb => nomatch hb
    | refused h =>
      cases hG with
      | external hascii => exact .answer (raises_verifyEab hascii _ _ _ h)
      | answer h => cases h
    | accepted h =>
      refine .getOrCreate fun b hb => ?_
      obtain rfl := Option.some.inj hb
      exact Option.isSome_iff_exists.2 ⟨_, Table.get?_key (verifyEab_spec h).1⟩
    | raced | reloaded => exact proper_ofAccount _ _ _
    | fresh =>
      cases hG with
      | getOrCreate h => exact .insert h
      | answer h => cases h
    | vanished hnone => simp [Undisturbed, hnone] at hC
    | expired _ hbinding =>
      cases hG with
      | readBack h => exact .reload (h _ hbinding)
      | answer h => cases h
    | deleted hnone =>
      cases hG with
      | reload h => simp [hnone] at h
      | answer h => cases h
    | found | winner | read | same | settled => exact .answer trivial
    | unauthenticated h =>
      cases hG with
      | start horderly => exact .answer (raises_accountOf horderly.1 horderly.2 _ h)
      | answer h => cases h
    | deactivating => exact .deactivate
    | updating => exact .setContacts
    | strange h =>
      cases hG with
      | start horderly => exact .answer (raises_accountOf horderly.1 (fun jwk => (horderly.2 jwk).1) _ h)
      | answer h => cases h
    | unproven h hkey =>
      cases hG with
      | start horderly =>
        have hascii := (horderly.2 _).2 _ (accountOf_spec h).2.2
        exact .answer (raises_verifyKeyChange hascii _ hkey)
      | answer h => cases h
    | proven => exact .conflict
    | changing =>
      cases hG with
      | conflict => exact .rotate
      | answer h => cases h
    | revoking => exact .revoke
  write {db db' r p p' run busy} hact hrun _ _ hG := by
    have hwrite := accountWrite_of_run hact hrun
    refine ⟨trivial, ?_, fun _ _ => proper_of_write hwrite⟩
    cases hwrite with
    | inserted => exact proper_ofAccount _ _ _
    | lost =>
      split_ifs
      · exact .discard
      · exact .answer trivial
    | bound | discarded | deactivated | contacts | rotated | revoked => exact .answer trivial
  refused {db r p p' run busy} hact hrun hC _ hG := by
    cases accountRefusal_of_run hact hrun with
    | insert =>
      cases hG with
      | insert h => exact .readBack h
      | answer h => cases h
    | bind => exact .answer trivial
    | discard hkey => exact absurd hkey hC
    | deactivate h | setContacts h => exact absurd hC h
    | stale h => exact absurd hC.1 h
    | taken h =>
      obtain ⟨x, hx, hid, heq⟩ := h
      exact absurd heq (hC.2 x hx hid)

/-! ### Calls come to an end -/

/-- How many statements follow at most. -/
def AccountPlace.rank : AccountPlace → ℕ
  | .start => 9
  | .existing .. => 8
  | .requirement .. | .external .. => 7
  | .getOrCreate _ => 6
  | .insert _ => 5
  | .readBack _ => 4
  | .reload .. => 3
  | .bind .. | .conflict .. => 2
  | .discard _ | .deactivate _ | .setContacts .. | .rotate .. | .revoke _ => 1
  | .answered .. | .raised _ | .settled => 0

theorem rank_ofAccount (binding : Option AcmeEabKey) (a : AcmeAccount) (isNew : Bool) :
    (ofAccount binding a isNew).rank ≤ 2 := by
  unfold ofAccount
  cases binding with
  | none => exact Nat.zero_le 2
  | some b =>
    dsimp only
    split_ifs
    · exact Nat.zero_le 2
    · exact le_refl 2

theorem ranked_accounts (K : Keyring) :
    RankedEach (AccountPlace.act K) AccountPlace.rank where
  select {r p f} db hact := by
    have hlook := accountLook_of_select hact db
    generalize f db = p' at hlook ⊢
    cases hlook with
    | other =>
      cases p with
      | answered | raised | settled => cases r <;> cases hact
      | _ => simp [rank]
    | raced | reloaded =>
      exact lt_of_le_of_lt (rank_ofAccount _ _ _) (by simp [rank])
    | _ => simp [rank, crash]
  write {r p p' run busy db db'} hact hrun := by
    cases accountWrite_of_run hact hrun with
    | inserted => exact lt_of_le_of_lt (rank_ofAccount _ _ _) (by simp [rank])
    | lost => split_ifs <;> simp [rank]
    | _ => simp [rank]
  refused {r p p' run busy db} hact hrun := by
    cases accountRefusal_of_run hact hrun <;> simp [rank, crash]

/-! ### Runs -/

section runs

variable {K : Keyring} {db : AccountDb} {requests : List (AccountRequest K.toJose)}
  {s : Sessions AccountDb (Phase (AccountRequest K.toJose × AccountPlace))}

theorem uniqueKeys_of_reachable (hkeys : UniqueKeys K.toJose db)
    (h : (accountCalls K).Reachable (accountStart db requests) s) :
    UniqueKeys K.toJose s.committed := by
  have hbusy : ∀ (db : AccountDb) (r : AccountRequest K.toJose) (p : AccountPlace) run busy,
      AccountPlace.act K r p = .write run busy → UniqueKeys K.toJose db →
      HoldsLoaded K.toJose p → HoldsLoaded K.toJose busy := by
    intro db r p run busy hact _ _
    rw [(accountWrite_cases db hact).1]
    trivial
  have hstart : ∀ c ∈ requests.map fun r => (r, AccountPlace.start), HoldsLoaded K.toJose c.2 := by
    intro c hc
    obtain ⟨r, -, rfl⟩ := List.mem_map.1 hc
    trivial
  have hmaintains := (maintains_uniqueKeys K).maintains hbusy
  exact (hmaintains.reach (h.mono fun _ t _ => Sessions.heeds_true t) hkeys hstart).1

/-- A deactivated account authenticates nothing. -/
theorem not_authenticated {db : AccountDb} {id : Str}
    (h : ∀ a ∈ db.accounts, a.id = id → a.status = .deactivated) :
    (∀ post account payload, accountOf db post = .ok (account, payload) → account.id ≠ id) ∧
      ∀ post x, authenticate K.toJose db.accounts post = .ok x →
        ∀ account ∈ x.account, account.id ≠ id := by
  have hvalid : ∀ a ∈ db.accounts, a.status = .valid → a.id ≠ id := by
    intro a ha hstatus hid
    rw [h a ha hid] at hstatus
    cases hstatus
  constructor
  · intro post account payload hfound
    obtain ⟨hmem, hstatus, -⟩ := accountOf_spec hfound
    exact hvalid account hmem hstatus
  · intro post x hauth account haccount
    have hkey := (authenticate_spec hauth).key
    unfold HasKey at hkey
    cases hmode : post.mode with
    | jwk =>
      rw [hmode] at hkey
      rw [hkey.1] at haccount
      cases haccount
    | kid =>
      rw [hmode] at hkey
      obtain ⟨-, a, hmem, hx, hstatus, -⟩ := hkey
      rw [hx] at haccount
      obtain rfl := Option.some.inj haccount
      exact hvalid a hmem hstatus

end runs

/-! ### A key-change -/

/-- A rollover to the other key, as a document. -/
def rolloverDocument : Json :=
  .obj [(Str.of "protected", .str rolloverProtected), (Str.of "payload", .str rolloverPayload),
    (Str.of "signature", .str rolloverSignature)]

/-- The account asks for the other key, signed by its first one. -/
def changeKey : AccountRequest Keyring.sample.toJose :=
  .keyChange ⟨.ok sampleHash, fun jwk =>
    if jwk.same (okpJwk sampleX) then .ok (some rolloverDocument)
    else .error (malformed "the JWS signature does not verify")⟩

/-- Somebody registers, and then changes the key. -/
def registerThenChange : List (AccountRequest Keyring.sample.toJose) :=
  [registerAt 2 sampleNewId, changeKey]

theorem uniqueKeys_twoDirectories : UniqueKeys Keyring.sample.toJose twoDirectories where
  unique _ ha := absurd ha Table.not_mem_empty
  hasJwk _ ha := absurd ha Table.not_mem_empty

theorem orderly_registerThenChange : ∀ r ∈ registerThenChange, Orderly r := by
  intro r hr
  rcases List.mem_pair.1 hr with rfl | rfl
  · exact ⟨raises_ok, by rintro key payload ⟨⟩ binding ⟨⟩⟩
  · refine ⟨raises_ok, fun jwk => ⟨?_, fun payload hpayload => ?_⟩⟩
    · dsimp only
      split_ifs
      · exact raises_ok
      · exact raises_error trivial
    · dsimp only at hpayload
      split_ifs at hpayload
      obtain rfl := Except.ok.inj hpayload
      decide +kernel

/-- The turns of the registration, and then of the key-change. -/
def firstTheAccount : List Turn := [0, 0, 0, 0, 0, 0, 1, 1, 1, 1].map Turn.go

/-- Somebody else registers with the new key. -/
def registerBetween : List (AccountRequest Keyring.sample.toJose) :=
  registerThenChange ++ [.newAccount 2 (.ok (otherKey, some ⟨false, none, none⟩)) otherNewId]

/-- The turns of a registration that comes after the key-change has looked for its key. -/
def betweenLookAndWrite : List Turn :=
  [0, 0, 0, 0, 0, 0, 1, 1, 2, 2, 2, 2, 2, 2, 1, 1].map Turn.go

/-- The exception a call has ended with. -/
def crash? : Phase (AccountRequest Keyring.sample.toJose × AccountPlace) → Option String
  | .run (_, .raised (.crash name)) => some name
  | _ => none

theorem crash?_eq_some {l : Phase (AccountRequest Keyring.sample.toJose × AccountPlace)}
    {name : String} (h : crash? l = some name) : ∃ r, l = .run (r, .raised (.crash name)) := by
  unfold crash? at h
  split at h
  · cases h
    exact ⟨_, rfl⟩
  · cases h

end Acme

end Cabin
