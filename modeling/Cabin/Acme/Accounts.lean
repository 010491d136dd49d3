import Cabin.Acme.Nonces

/-!
# Accounts

The account resources (`acme/api_account.py`, the accounts of `acme/service.py`, and `acme/eab.py`) as
programs that run at the same time: new-account, the account itself, key-change, and the operator's
revocation of an external account key.

A request comes in as what `verify_request` makes of its body (`Cabin.Acme.Jws`).  With a `jwk` header
nothing is looked up but the nonce, so the outcome is a part of the request; with a `kid` header it
depends on the account that is stored.

* `AccountPlace` is where a call is, `AccountPlace.act` its program, `accountCalls` all calls at once;
* `AccountDb` has the unique indexes and the foreign keys of the tables in its statements: `insert?`,
  `bind?`, `deleteAccount?`, `rotate?`.
-/

namespace Cabin

namespace Acme

open X509

/-! ### The tables -/

/-- A row of `acme_eab_keys`: a key to be spent on one account. -/
structure AcmeEabKey where
  /-- The primary key. -/
  id : Str
  /-- The secret. -/
  hmacSealed : Sealed
  /-- The account it is spent on. -/
  boundAccountId : Option Str
  /-- When it was revoked. -/
  revokedAt : Option ℤ
  /-- The issuer it was made for. -/
  caCertificateId : ℕ
  deriving DecidableEq, Repr

instance : Keyed AcmeEabKey Str := ⟨AcmeEabKey.id⟩

@[simp] theorem key_acmeEabKey (r : AcmeEabKey) : key r = r.id := rfl

/-- The key can be spent. -/
def AcmeEabKey.isUsable (r : AcmeEabKey) : Bool := r.revokedAt.isNone && r.boundAccountId.isNone

/-- What the account resources read and write. -/
structure AccountDb where
  /-- The table `ca_certificates`. -/
  cas : CaTable
  /-- The setting `acme_require_eab`. -/
  requireEab : Bool
  /-- The setting `base_url`. -/
  baseUrl : Str
  /-- The table `acme_accounts`. -/
  accounts : Table AcmeAccount
  /-- The table `acme_eab_keys`. -/
  eabKeys : Table AcmeEabKey

namespace AccountDb

/-- The URL of a path. -/
def url (db : AccountDb) (path : Str) : Str := db.baseUrl ++ path

/-- The account that is registered for a key. -/
def findAccountByKey (db : AccountDb) (thumbprint : Str) : Option AcmeAccount :=
  (db.accounts.select fun a => a.jwkThumbprint == thumbprint).head?

/-- Two rows cannot both be stored: one of the unique columns is the same. -/
def Clash (a b : AcmeAccount) : Prop :=
  a.id = b.id ∨ a.kidHash = b.kidHash ∨ a.jwkThumbprint = b.jwkThumbprint

instance (a b : AcmeAccount) : Decidable (Clash a b) :=
  inferInstanceAs (Decidable (_ ∨ _ ∨ _))

/-- `INSERT` of an account, unless a unique column refuses it. -/
def insert? (db : AccountDb) (row : AcmeAccount) : Option AccountDb :=
  if ∃ a ∈ db.accounts, Clash a row then none else some { db with accounts := db.accounts.upsert row }

/-- Some key is spent on the account. -/
def HasKey (db : AccountDb) (accountId : Str) : Prop :=
  ∃ k ∈ db.eabKeys, k.boundAccountId = some accountId

instance (db : AccountDb) (accountId : Str) : Decidable (db.HasKey accountId) :=
  inferInstanceAs (Decidable (∃ k ∈ db.eabKeys, _))

/-- There is a row for the account. -/
def HasAccount (db : AccountDb) (accountId : Str) : Prop := ∃ a ∈ db.accounts, a.id = accountId

instance (db : AccountDb) (accountId : Str) : Decidable (db.HasAccount accountId) :=
  inferInstanceAs (Decidable (∃ a ∈ db.accounts, _))

/-- The key is there and can be spent. -/
def Spendable (db : AccountDb) (keyId : Str) : Prop :=
  ∃ k ∈ db.eabKeys, k.id = keyId ∧ k.isUsable = true

instance (db : AccountDb) (keyId : Str) : Decidable (db.Spendable keyId) :=
  inferInstanceAs (Decidable (∃ k ∈ db.eabKeys, _))

/-- Spend a key. -/
def spend (db : AccountDb) (keyId accountId : Str) : AccountDb :=
  { db with
    eabKeys := db.eabKeys.update (fun k => k.id == keyId && k.isUsable)
      (fun k => { k with boundAccountId := some accountId }) fun _ => rfl }

/-- `UPDATE` of a key that can still be spent, and whether there was one.  It is refused if the account
has a key already, or is gone. -/
def bind? (db : AccountDb) (keyId accountId : Str) : Option (AccountDb × Bool) :=
  if db.Spendable keyId then
    if db.HasKey accountId ∨ ¬ db.HasAccount accountId then none
    else some (db.spend keyId accountId, true)
  else some (db, false)

/-- `DELETE` of an account, which no key may refer to. -/
def deleteAccount? (db : AccountDb) (accountId : Str) : Option AccountDb :=
  if db.HasKey accountId then none
  else some { db with accounts := db.accounts.delete fun a => a.id == accountId }

/-- `UPDATE` of the row of an account. -/
def updateAccount (db : AccountDb) (accountId : Str) (f : AcmeAccount → AcmeAccount)
    (hf : ∀ a, key (f a) = key a) : AccountDb :=
  { db with accounts := db.accounts.update (fun a => a.id == accountId) f hf }

/-- The row with another key. -/
def rekeyed (key : AccountKey) (a : AcmeAccount) : AcmeAccount :=
  { a with jwk := key.jwk, jwkThumbprint := key.thumbprint }

/-- `UPDATE` of the key of an account: the row has to be there, and no other may have the key. -/
def rotate? (db : AccountDb) (accountId : Str) (key : AccountKey) : Except String AccountDb :=
  if ¬ db.HasAccount accountId then .error "StaleDataError"
  else if ∃ a ∈ db.accounts, a.id ≠ accountId ∧ a.jwkThumbprint = key.thumbprint then
    .error "IntegrityError"
  else .ok (db.updateAccount accountId (rekeyed key) fun _ => rfl)

/-- `UPDATE` of the status or the contacts of an account, which has to be there. -/
def change? (db : AccountDb) (accountId : Str) (f : AcmeAccount → AcmeAccount)
    (hf : ∀ a, key (f a) = key a) : Except String AccountDb :=
  if db.HasAccount accountId then .ok (db.updateAccount accountId f hf) else .error "StaleDataError"

/-- `UPDATE` of a key that is taken out of service. -/
def revokeKey (db : AccountDb) (keyId : Str) (now : ℤ) : AccountDb :=
  { db with
    eabKeys := db.eabKeys.update (fun k => k.id == keyId)
      (fun k => { k with revokedAt := some (Instant.seconds now) }) fun _ => rfl }

end AccountDb

/-! ### Requests -/

/-- What is not part of the program: the JWS layer's, the HMAC of a key and how its secret is
unsealed. -/
structure Keyring extends Jose where
  /-- HMAC with SHA-256. -/
  hmac : Bytes → Bytes → Bytes
  /-- `SecretStore.unseal`, `none` where it raises a `SecretsError`. -/
  unsealSecret : Sealed → Option Bytes

/-- The key of a JWK. -/
def IsLoaded (J : Jose) (key : AccountKey) : Prop := ∃ raw alg, loadAccountKey J raw alg = .ok key

/-- A key that comes out of a JWK. -/
abbrev LoadedKey (J : Jose) := { key : AccountKey // IsLoaded J key }

/-- What new-account reads of its payload. -/
structure NewAccountPayload where
  /-- The truth of `onlyReturnExisting`. -/
  onlyReturnExisting : Bool
  /-- The external account binding, unless it is null. -/
  externalAccountBinding : Option Json
  /-- The contacts, if there is such a member. -/
  contact : Option Json

/-- A new id, and its hash. -/
structure NewId (J : Jose) where
  /-- The id. -/
  id : Str
  /-- Its hash. -/
  hash : Str
  hash_eq : J.kidHash id = some hash

/-- A request that is signed by the key of the account it names. -/
structure KidPost where
  /-- The hash of the account id in the `kid` header, or what is wrong with the header. -/
  kid : Except Raised Str
  /-- What the signature under the stored JWK and the nonce give: the payload, or a refusal. -/
  check : Json → Except Raised (Option Json)

/-- A request, or the revocation of a key. -/
inductive AccountRequest (J : Jose) where
  /-- new-account at the directory of an issuer; `newId` is the id drawn for a new account. -/
  | newAccount (issuerId : ℕ) (verified : Except Raised (LoadedKey J × Option NewAccountPayload))
      (newId : NewId J)
  /-- The account resource. -/
  | account (accountId : Str) (post : KidPost)
  /-- key-change. -/
  | keyChange (post : KidPost)
  /-- The revocation of an external account key. -/
  | revokeKey (keyId : Str) (now : ℤ)

/-! ### The parts of a request -/

/-- The path of new-account at an issuer. -/
def newAccountPath (issuerId : ℕ) : Str := Str.of s!"/acme/ca/{issuerId}/new-account"

/-- What the path of an account starts with. -/
def accountPath : Str := Str.of "/acme/account/"

/-- The path of key-change. -/
def keyChangePath : Str := Str.of "/acme/key-change"

/-- A deactivated account can do nothing. -/
def rejectUnusable (account : AcmeAccount) : Except Raised Unit :=
  refuse (account.status ≠ .valid) (unauthorized s!"this account is {account.status.text}")

/-- The account is that of another issuer. -/
def rejectOtherIssuer (account : AcmeAccount) (issuerId : ℕ) : Except Raised Unit :=
  refuse (account.issuerId ≠ issuerId)
    (unauthorized "this account key is registered against another issuer's directory")

/-- The refusal of an external account binding. -/
def eabRefused : Raised :=
  unauthorized "the external account binding does not authorize this registration"

def maxContacts : ℕ := 10

def maxContactLength : ℕ := 255

/-- An ASCII letter. -/
def isLetter (c : ℕ) : Bool := (0x41 ≤ c && c ≤ 0x5A) || (0x61 ≤ c && c ≤ 0x7A)

/-- One contact. -/
def parseContact (entry : Json) : Except Raised Str :=
  match (Json.str? entry).filter fun s => s ≠ [] ∧ s.length ≤ maxContactLength with
  | none => .error (malformed "each contact must be a non-empty URL")
  | some s => do
    let (scheme, rest) := Str.partition 0x3A s
    refuse (rest.getD [] = [] ∨ scheme = [] ∨ scheme.all isLetter = false)
      (malformed (cut 200 s!"contact is not a URL: {Str.repr s}"))
    refuse (s.any Str.isSpace) (malformed "a contact URL must not contain whitespace")
    pure s

/-- The contacts of an account. -/
def parseContacts (raw : Json) : Except Raised (List Str) :=
  match raw with
  | .arr entries => do
    refuse (maxContacts < entries.length) (malformed s!"at most {maxContacts} contacts are accepted")
    entries.mapM parseContact
  | _ => .error (malformed "contact must be an array of URLs")

variable (K : Keyring)

/-- Check a binding against the key it names. -/
def verifyEabKey (row : Option AcmeEabKey) (b : ExternalBinding) (accountJwk : Json)
    (issuerId : ℕ) : Except Raised AcmeEabKey :=
  match row with
  | none => .error eabRefused
  | some row => do
    refuse (row.isUsable = false) eabRefused
    refuse (row.caCertificateId ≠ issuerId) eabRefused
    match K.unsealSecret row.hmacSealed with
    | none => .error (.acme
      { kind := .serverInternal
        detail := "this external account key cannot be read: " ++
          "it was sealed with a different master key" })
    | some macKey =>
      verifyExternalBinding K.toJose K.hmac b macKey accountJwk
      pure row

/-- `eab.verify`. -/
def verifyEab (db : AccountDb) (binding : Json) (accountJwk : Json) (issuerId : ℕ) :
    Except Raised AcmeEabKey := do
  refuse (isObject binding = false) (malformed "externalAccountBinding must be a JSON object")
  let b ← parseExternalBinding K.toJose binding (db.url (newAccountPath issuerId))
  verifyEabKey K (db.eabKeys.get? b.kid) b accountJwk issuerId

/-- `verify_request` with a `kid` header: the account and the payload. -/
def accountOf (db : AccountDb) (post : KidPost) : Except Raised (AcmeAccount × Option Json) := do
  let kid ← post.kid
  match db.accounts.rows.find? fun a => a.kidHash = kid with
  | none => .error (.acme
    { kind := .accountDoesNotExist, detail := "no account with that key identifier" })
  | some account =>
    rejectUnusable account
    let payload ← post.check account.jwk
    pure (account, payload)

/-- The JWS of a key-change: it names the account and quotes its key. -/
def verifyKeyChange (db : AccountDb) (account : AcmeAccount) (payload : Option Json) :
    Except Raised AccountKey := do
  let (newKey, inner) ← verifyEmbedded K.toJose (payload.getD .null) (db.url keyChangePath)
  refuse ((inner.get? "account").bind Json.str? ≠ some (db.url (accountPath ++ account.id)))
    (malformed "the key change names a different account")
  refuse (((inner.get? "oldKey").any fun k => k.same account.jwk) = false)
    (malformed "the key change does not quote the current key")
  pure newKey

/-! ### The calls -/

/-- What an account is made of, once the payload is read. -/
structure Form where
  /-- The key. -/
  key : AccountKey
  /-- The contacts, if any are given. -/
  contacts : Option (List Str)
  /-- The external account key that was verified, as it was then. -/
  binding : Option AcmeEabKey

/-- Where a call is. -/
inductive AccountPlace where
  /-- The request comes in. -/
  | start
  /-- new-account: about to look for an account with the key. -/
  | existing (issuer : CaCertificate) (key : AccountKey) (payload : NewAccountPayload)
  /-- There is no binding; about to look whether one is required. -/
  | requirement (key : AccountKey) (payload : NewAccountPayload)
  /-- There is one; about to look up its key. -/
  | external (key : AccountKey) (payload : NewAccountPayload) (binding : Json)
  /-- `get_or_create_account`: about to look for an account with the key, again. -/
  | getOrCreate (form : Form)
  /-- About to insert the account. -/
  | insert (form : Form)
  /-- The insertion was refused; about to read back the account of the winner. -/
  | readBack (form : Form)
  /-- The rollback has expired the external account key; about to load it again. -/
  | reload (binding : AcmeEabKey) (account : AcmeAccount)
  /-- About to spend the external account key. -/
  | bind (binding : AcmeEabKey) (account : AcmeAccount) (created : Bool)
  /-- The key could not be spent; about to delete the account that was created for it. -/
  | discard (account : AcmeAccount)
  /-- About to deactivate the account. -/
  | deactivate (account : AcmeAccount)
  /-- About to write the contacts. -/
  | setContacts (account : AcmeAccount) (contacts : List Str)
  /-- key-change: about to look for an account with the new key. -/
  | conflict (account : AcmeAccount) (newKey : AccountKey)
  /-- About to write the new key. -/
  | rotate (account : AcmeAccount) (newKey : AccountKey)
  /-- About to take an external account key out of service. -/
  | revoke (key : AcmeEabKey)
  /-- The answer, with its status, is this account. -/
  | answered (status : ℕ) (account : AcmeAccount)
  /-- The call has raised an error. -/
  | raised (e : Raised)
  /-- The revocation has returned. -/
  | settled

namespace AccountPlace

/-- An exception of the database that nobody catches. -/
def crash (name : String) : AccountPlace := raised (.crash name)

/-- From a check. -/
def ofExcept {α : Type} (next : α → AccountPlace) : Except Raised α → AccountPlace
  | .ok a => next a
  | .error e => raised e

/-- new-account, up to the account: the issuer, and what the body has given. -/
def ofIssuer {J : Jose} (verified : Except Raised (LoadedKey J × Option NewAccountPayload)) :
    Option CaCertificate → AccountPlace
  | none => raised (.acme (notFound "ACME resource"))
  | some issuer =>
    if issuer.kind ≠ .intermediate then raised (.acme (notFound "ACME resource"))
    else ofExcept (fun v => match v.2 with
      | none => raised (malformed "new-account needs a payload")
      | some payload => existing issuer v.1 payload) verified

/-- An existing account is answered with, unless it is unusable or that of another issuer. -/
def ofExisting (issuerId : ℕ) (account : AcmeAccount) : AccountPlace :=
  ofExcept (fun _ => answered 200 account) do
    rejectUnusable account
    rejectOtherIssuer account issuerId

/-- There is no account with the key. -/
def ofNone (issuer : CaCertificate) (key : AccountKey) (payload : NewAccountPayload) : AccountPlace :=
  if payload.onlyReturnExisting then
    raised (.acme { kind := .accountDoesNotExist, detail := "no account is registered for this key" })
  else if issuer.status ≠ .active then
    raised (unauthorized s!"issuer {issuer.id} is retired and cannot register new accounts")
  else
    match payload.externalAccountBinding with
    | none => requirement key payload
    | some binding => external key payload binding

/-- The binding is settled; the contacts are read. -/
def ofBinding (key : AccountKey) (payload : NewAccountPayload) (binding : Option AcmeEabKey) :
    AccountPlace :=
  match payload.contact with
  | none => getOrCreate ⟨key, none, binding⟩
  | some raw =>
    ofExcept (fun contacts => getOrCreate ⟨key, some contacts, binding⟩) (parseContacts raw)

/-- The status of an answer. -/
def created : Bool → ℕ
  | true => 201
  | false => 200

/-- `_spend_binding` begins: the key may be bound to the account already. -/
def ofAccount (binding : Option AcmeEabKey) (account : AcmeAccount) (isNew : Bool) : AccountPlace :=
  match binding with
  | none => answered (created isNew) account
  | some b =>
    if b.boundAccountId = some account.id then answered (created isNew) account
    else bind b account isNew

/-- The account of the winner is read back. -/
def ofReadBack (binding : Option AcmeEabKey) : Option AcmeAccount → AccountPlace
  | none => crash "IntegrityError"
  | some account =>
    match binding with
    | none => answered 200 account
    | some b => reload b account

/-- The key is loaded again. -/
def ofReload (account : AcmeAccount) : Option AcmeEabKey → AccountPlace
  | none => crash "ObjectDeletedError"
  | some b => ofAccount (some b) account false

/-- After the `UPDATE` of the key; of the refusals only a row that was created is taken back. -/
def ofBind (account : AcmeAccount) (isNew : Bool) :
    Option (AccountDb × Bool) → Except AccountPlace (AccountDb × AccountPlace)
  | none => .error (raised eabRefused)
  | some (db, true) => .ok (db, answered (created isNew) account)
  | some (db, false) => .ok (db, if isNew then discard account else raised eabRefused)

/-- After the `DELETE` of the account. -/
def ofDiscard : Option AccountDb → Except AccountPlace (AccountDb × AccountPlace)
  | none => .error (crash "IntegrityError")
  | some db => .ok (db, raised eabRefused)

/-- After an `UPDATE` of an account. -/
def ofUpdate (account : AcmeAccount) :
    Except String AccountDb → Except AccountPlace (AccountDb × AccountPlace)
  | .error name => .error (crash name)
  | .ok db => .ok (db, answered 200 account)

/-- The account resource: what the payload asks for. -/
def ofPayload (account : AcmeAccount) (payload : Json) : AccountPlace :=
  match (payload.get? "status").filter fun v => !v.same .null with
  | some status =>
    if status.str? = some (Str.of "deactivated") then deactivate account
    else raised (malformed "an account may only be updated to 'deactivated'")
  | none =>
    match payload.get? "contact" with
    | none => answered 200 account
    | some raw => ofExcept (fun contacts =>
        -- What is the loaded value already is not written.
        if account.contacts = some contacts then answered 200 account
        else setContacts account contacts) (parseContacts raw)

/-- The account resource begins. -/
def ofOwner (accountId : Str) (found : AcmeAccount × Option Json) : AccountPlace :=
  if found.1.id ≠ accountId then raised (unauthorized "this account URL is not yours")
  else ofPayload found.1 (found.2.getD .null)

/-- key-change: nobody may have the new key. -/
def ofConflict (account : AcmeAccount) (newKey : AccountKey) : Option AcmeAccount → AccountPlace
  | some _ => raised (.acme
    { kind := .malformed, detail := "an account already exists for that key", status := 409 })
  | none =>
    -- A key that is the loaded one already is not written.
    if newKey.thumbprint = account.jwkThumbprint then answered 200 account else rotate account newKey

/-- The revocation of a key begins. -/
def ofRevocation : Option AcmeEabKey → AccountPlace
  | none => settled
  | some key => if key.revokedAt.isSome then settled else revoke key

/-- The first step of a request. -/
def ofRequest : AccountRequest K.toJose → AccountDb → AccountPlace
  | .newAccount issuerId verified _, db => ofIssuer verified (db.cas.get? issuerId)
  | .account accountId post, db => ofExcept (ofOwner accountId) (accountOf db post)
  | .keyChange post, db =>
    ofExcept (fun found => ofExcept (conflict found.1) (verifyKeyChange K db found.1 found.2))
      (accountOf db post)
  | .revokeKey keyId _, db => ofRevocation (db.eabKeys.get? keyId)

/-- The row `get_or_create_account` makes. -/
def newRow {J : Jose} (issuerId : ℕ) (newId : NewId J) (form : Form) : AcmeAccount :=
  ⟨newId.id, newId.hash, form.key.jwk, form.key.thumbprint, .valid, form.contacts, issuerId⟩

/-- After the `INSERT` of an account. -/
def ofInsert (form : Form) (row : AcmeAccount) :
    Option AccountDb → Except AccountPlace (AccountDb × AccountPlace)
  | none => .error (readBack form)
  | some db => .ok (db, ofAccount form.binding row true)

/-- A write that gives up waiting for the lock. -/
def locked : AccountPlace := crash "OperationalError"

/-- The next action at a place of new-account, at the directory of `issuerId`. -/
def registration (issuerId : ℕ) (newId : NewId K.toJose) :
    AccountPlace → Action AccountDb AccountPlace
  | .existing issuer key payload => .select fun db =>
    match db.findAccountByKey key.thumbprint with
    | some account => ofExisting issuerId account
    | none => ofNone issuer key payload
  | .requirement key payload => .select fun db =>
    if db.requireEab then raised (.acme
      { kind := .externalAccountRequired
        detail := "this server requires an external account binding: ask its operator for a key " ++
          "identifier and HMAC key" })
    else ofBinding key payload none
  | .external key payload binding => .select fun db =>
    ofExcept (fun row => ofBinding key payload (some row)) (verifyEab K db binding key.jwk issuerId)
  | .getOrCreate form => .select fun db =>
    match db.findAccountByKey form.key.thumbprint with
    | some account => ofAccount form.binding account false
    | none => .insert form
  | .insert form => .write
    (fun db => ofInsert form (newRow issuerId newId form) (db.insert? (newRow issuerId newId form)))
    locked
  | .readBack form => .select fun db =>
    ofReadBack form.binding (db.findAccountByKey form.key.thumbprint)
  | .reload binding account => .select fun db => ofReload account (db.eabKeys.get? binding.id)
  | .bind binding account isNew =>
    .write (fun db => ofBind account isNew (db.bind? binding.id account.id)) locked
  | .discard account => .write (fun db => ofDiscard (db.deleteAccount? account.id)) locked
  | _ => .done

/-- The next action at a place of the account resource or of key-change. -/
def maintenance : AccountPlace → Action AccountDb AccountPlace
  | .deactivate account => .write (fun db => ofUpdate { account with status := .deactivated }
      (db.change? account.id (fun a => { a with status := .deactivated }) fun _ => rfl)) locked
  | .setContacts account contacts => .write (fun db =>
      ofUpdate { account with contacts := some contacts }
      (db.change? account.id (fun a => { a with contacts := some contacts }) fun _ => rfl)) locked
  | .conflict account newKey => .select fun db =>
    ofConflict account newKey (db.findAccountByKey newKey.thumbprint)
  | .rotate account newKey => .write (fun db => ofUpdate (AccountDb.rekeyed newKey account)
      (db.rotate? account.id newKey)) locked
  | _ => .done

/-- The next action at a place of a revocation. -/
def revocation (now : ℤ) : AccountPlace → Action AccountDb AccountPlace
  | .revoke key => .write (fun db => .ok (db.revokeKey key.id now, settled)) locked
  | _ => .done

/-- The next action of a request at a place. -/
def act (r : AccountRequest K.toJose) : AccountPlace → Action AccountDb AccountPlace
  | .start => .select (ofRequest K r)
  | place =>
    match r with
    | .newAccount issuerId _ newId => registration K issuerId newId place
    | .account .. | .keyChange _ => maintenance place
    | .revokeKey _ now => revocation now place

end AccountPlace

/-- The calls at once, in any order of their turns. -/
def accountCalls :
    Machine (Sessions AccountDb (Phase (AccountRequest K.toJose × AccountPlace))) Turn :=
  transactions (tagged (AccountPlace.act K))

/-- The requests come in. -/
def accountStart {J : Jose} (db : AccountDb) (requests : List (AccountRequest J)) :
    Sessions AccountDb (Phase (AccountRequest J × AccountPlace)) :=
  .begin db (requests.map fun r => (r, .start))

/-! ### A keyring -/

/-- The JWK of an Ed25519 key. -/
def okpJwk (x : Str) : Json :=
  .obj [(Str.of "crv", .str (Str.of "Ed25519")), (Str.of "kty", .str (Str.of "OKP")),
    (Str.of "x", .str x)]

/-- The JWK as text. -/
def okpJwkText (x : Str) : Str :=
  joined ["\x7b\"crv\":\"Ed25519\"", ",\"kty\":\"OKP\",\"x\":\""] ++ x ++ Str.of "\"\x7d"

/-- Another Ed25519 public key. -/
def otherX : Str :=
  joined ["PUAXw-hDiVqStwqnTRt-vJ", "yYLM8uxJaMwM1V8Sr0Zgw"]

/-- This key as bytes. -/
def otherKeyBytes : Bytes :=
  [61, 64, 23, 195, 232, 67, 137, 90, 146, 183, 10, 167, 77, 27, 126, 188, 156, 152, 44, 207, 46,
    196, 150, 140, 192, 205, 85, 241, 42, 244, 102, 12]

/-- The thumbprint of the key. -/
def sampleThumbprint : Str := joined ["kPrK_qmxVWaYVA9wwBF6Iu", "o3vVzz7TxHCTwXBygrS4k"]

/-- The thumbprint of the other key. -/
def otherThumbprint : Str := joined ["FtIu-VbGrfe_KB6CH7GNwO", "DB72MNxj_ml11dEvO-7kk"]

/-- The base URL. -/
def sampleOrigin : Str := Str.of "https://ca.lan"

/-- The id of an account. -/
def sampleId : Str := Str.of "Zm9vYmFyMTIzNDU2Nzg5MA"

/-- Its hash. -/
def sampleHash : Str :=
  joined ["a5c3af8c0f77b8e7699bea", "030fa2be97baf04b3d7880", "fd2c851398bf7abfe633"]

/-- The id of another account. -/
def otherId : Str := Str.of "YmFyZm9vMTIzNDU2Nzg5MA"

/-- Its hash. -/
def otherHash : Str :=
  joined ["7c3c35fb829b56392f90ec", "def665ede94fe6a45b34e2", "119165a7f1b2147be196"]

/-- The header of a rollover to the other key. -/
def rolloverHeader : Json :=
  .obj [(Str.of "alg", .str (Str.of "EdDSA")), (Str.of "jwk", okpJwk otherX),
    (Str.of "url", .str (sampleOrigin ++ keyChangePath))]

/-- The header as text. -/
def rolloverHeaderText : Str :=
  Str.of "\x7b\"alg\":\"EdDSA\",\"jwk\":" ++ okpJwkText otherX ++ Str.of ",\"url\":\"" ++
    sampleOrigin ++ keyChangePath ++ Str.of "\"\x7d"

/-- The text in base64url. -/
def rolloverProtected : Str :=
  joined ["eyJhbGciOiJFZERTQSIsIm", "p3ayI6eyJjcnYiOiJFZDI1", "NTE5Iiwia3R5IjoiT0tQIi",
    "wieCI6IlBVQVh3LWhEaVZx", "U3R3cW5UUnQtdkp5WUxNOH", "V4SmFNd00xVjhTcjBaZ3ci",
    "fSwidXJsIjoiaHR0cHM6Ly", "9jYS5sYW4vYWNtZS9rZXkt", "Y2hhbmdlIn0"]

/-- What is asked for: the account, and its key so far. -/
def rolloverInner : Json :=
  .obj [(Str.of "account", .str (sampleOrigin ++ (accountPath ++ sampleId))),
    (Str.of "oldKey", okpJwk sampleX)]

/-- This as text. -/
def rolloverInnerText : Str :=
  Str.of "\x7b\"account\":\"" ++ sampleOrigin ++ accountPath ++ sampleId ++
    Str.of "\",\"oldKey\":" ++ okpJwkText sampleX ++ Str.of "\x7d"

/-- The text in base64url. -/
def rolloverPayload : Str :=
  joined ["eyJhY2NvdW50IjoiaHR0cH", "M6Ly9jYS5sYW4vYWNtZS9h", "Y2NvdW50L1ptOXZZbUZ5TV",
    "RJek5EVTJOemc1TUEiLCJv", "bGRLZXkiOnsiY3J2IjoiRW", "QyNTUxOSIsImt0eSI6Ik9L",
    "UCIsIngiOiIxMXFZQVlLeE", "NyZlZTXzdUeVdRSE9nN2hj", "dlBhcGlNbHJ3SWFhUGNIVV", "JvIn19"]

/-- The signature under the other key. -/
def rolloverSignature : Str :=
  joined ["ja9DkW_qzTjSuSG2UIhjhn", "d0RH7EZKdbF3FTw-OcZ4Al", "al24lq6TU-sMp_UkC8_GNB",
    "HaDXQ2KkzAwIa-aWerAA"]

/-- The signature as bytes. -/
def rolloverSignatureBytes : Bytes :=
  [141, 175, 67, 145, 111, 234, 205, 56, 210, 185, 33, 182, 80, 136, 99, 134, 119, 116, 68, 126,
    196, 100, 167, 91, 23, 113, 83, 195, 227, 156, 103, 128, 37, 106, 93, 184, 150, 174, 147, 83,
    235, 12, 167, 245, 36, 11, 207, 198, 52, 17, 218, 13, 116, 54, 42, 76, 192, 192, 134, 190,
    105, 103, 171, 0]

/-- The header of a binding at the issuer 2. -/
def bindingHeader : Json :=
  .obj [(Str.of "alg", .str (Str.of "HS256")), (Str.of "kid", .str (Str.of "a2V5MTIz")),
    (Str.of "url", .str (sampleOrigin ++ newAccountPath 2))]

/-- The header as text. -/
def bindingHeaderText : Str :=
  joined ["\x7b\"alg\":\"HS256\",", "\"kid\":\"a2V5MTIz\",\"url\":\""] ++ sampleOrigin ++
    newAccountPath 2 ++ Str.of "\"\x7d"

/-- The text in base64url. -/
def bindingProtected : Str :=
  joined ["eyJhbGciOiJIUzI1NiIsIm", "tpZCI6ImEyVjVNVEl6Iiwi", "dXJsIjoiaHR0cHM6Ly9jYS",
    "5sYW4vYWNtZS9jYS8yL25l", "dy1hY2NvdW50In0"]

/-- The key it is for, in base64url. -/
def bindingPayload : Str :=
  joined ["eyJjcnYiOiJFZDI1NTE5Ii", "wia3R5IjoiT0tQIiwieCI6", "IjExcVlBWUt4Q3JmVlNfN1",
    "R5V1FIT2c3aGN2UGFwaU1s", "cndJYWFQY0hVUm8ifQ"]

/-- The MAC. -/
def bindingSignature : Str :=
  joined ["qBItPhWiJFJNykYR4XjHgW", "IiARiSXRTTobW-RE9g294"]

/-- The MAC as bytes. -/
def bindingMac : Bytes :=
  [168, 18, 45, 62, 21, 162, 36, 82, 77, 202, 70, 17, 225, 120, 199, 129, 98, 34, 1, 24, 146, 93,
    20, 211, 161, 181, 190, 68, 79, 96, 219, 222]

/-- What the texts say. -/
def sampleDocuments : List (Bytes × Json) :=
  [(ascii rolloverHeaderText, rolloverHeader), (ascii rolloverInnerText, rolloverInner),
    (ascii bindingHeaderText, bindingHeader), (ascii (okpJwkText sampleX), okpJwk sampleX)]

/-- What the encoded texts stand for. -/
def sampleEncoded : List (Str × Bytes) :=
  [(sampleX ++ Str.of "=", sampleKeyBytes), (otherX ++ Str.of "=", otherKeyBytes),
    (rolloverProtected ++ Str.of "=", ascii rolloverHeaderText),
    (rolloverPayload, ascii rolloverInnerText),
    (rolloverSignature ++ Str.of "==", rolloverSignatureBytes),
    (bindingProtected ++ Str.of "=", ascii bindingHeaderText),
    (bindingPayload ++ Str.of "==", ascii (okpJwkText sampleX)),
    (bindingSignature ++ Str.of "=", bindingMac)]

/-- The parsers, encodings and keys on these texts. -/
def Keyring.sample : Keyring where
  loads raw := match sampleDocuments.lookup raw with
    | some v => .ok v
    | none => .error .value
  urlsafeB64decode s := sampleEncoded.lookup s
  urlsafeB64encode raw := if raw = sampleKeyBytes then sampleX else otherX
  ed25519 raw := if raw.length = 32 then .ok raw else .error "An Ed25519 public key is 32 bytes long"
  jwkFromJson _ := .error "Deserialization error"
  jwkFromJson_kty := kty_of_notParsed
  okpThumbprint jwk :=
    if (jwk.get? "x").bind Json.str? = some sampleX then sampleThumbprint else otherThumbprint
  kidHash s :=
    if s = sampleId then some sampleHash else if s = otherId then some otherHash else none
  verify _ key input signature :=
    key == .ed25519 otherKeyBytes && input == ascii (rolloverProtected ++ 0x2E :: rolloverPayload) &&
      signature == rolloverSignatureBytes
  hmac key input :=
    if key = (List.range 32).map UInt8.ofNat ∧
        input = ascii (bindingProtected ++ 0x2E :: bindingPayload) then bindingMac
    else []
  unsealSecret _ := some ((List.range 32).map UInt8.ofNat)

/-- The key. -/
def sampleKey : LoadedKey Keyring.sample.toJose :=
  ⟨⟨okpJwk sampleX, sampleThumbprint, .edDsa, .ed25519 sampleKeyBytes⟩, okpJwk sampleX, .edDsa, rfl⟩

/-- The other key. -/
def otherKey : LoadedKey Keyring.sample.toJose :=
  ⟨⟨okpJwk otherX, otherThumbprint, .edDsa, .ed25519 otherKeyBytes⟩, okpJwk otherX, .edDsa, rfl⟩

/-- The id of the account, as it is drawn. -/
def sampleNewId : NewId Keyring.sample.toJose := ⟨sampleId, sampleHash, rfl⟩

/-- The id of the other account. -/
def otherNewId : NewId Keyring.sample.toJose := ⟨otherId, otherHash, rfl⟩

end Acme

end Cabin
