import Cabin.Text.Json
import Cabin.Ca.Machine

/-!
# The tables of the ACME server

The rows of `acme/models.py`, the errors of `acme/errors.py`, and the database: the tables of the CA
and those of the ACME server beside them.  Every id is a random text; a timestamp is stored in whole
seconds.
-/

namespace Cabin

namespace Acme

/-! ### Errors -/

/-- The problem types. -/
inductive ErrorType where
  | malformed
  | badNonce
  | badPublicKey
  | badSignatureAlgorithm
  | unauthorized
  | accountDoesNotExist
  | rateLimited
  | serverInternal
  | unsupportedIdentifier
  | rejectedIdentifier
  | userActionRequired
  | connection
  | dns
  | tls
  | incorrectResponse
  | orderNotReady
  | badCsr
  | alreadyRevoked
  | badRevocationReason
  | externalAccountRequired
  deriving DecidableEq, Repr

/-- The status a type is answered with. -/
def ErrorType.status : ErrorType → ℕ
  | unauthorized | userActionRequired | orderNotReady | externalAccountRequired => 403
  | rateLimited => 429
  | serverInternal => 500
  | _ => 400

/-- An ACME failure, and the problem document it becomes. -/
structure AcmeError where
  /-- The problem type. -/
  kind : ErrorType
  /-- The sentence for the client. -/
  detail : String
  /-- The status of the answer. -/
  status : ℕ := kind.status
  /-- The algorithms a `badSignatureAlgorithm` lists. -/
  algorithms : List String := []
  deriving DecidableEq, Repr

/-- The first characters of a text, as `s[:n]`. -/
def cut (n : ℕ) (s : String) : String := String.ofList (s.toList.take n)

/-- There is no such resource. -/
def notFound (what : String) : AcmeError := { kind := .malformed, detail := s!"no such {what}", status := 404 }

/-! ### Rows -/

/-- The stored status of an account. -/
inductive AccountStatus where
  | valid
  | deactivated
  | revoked
  deriving DecidableEq, Repr

/-- The status as it is stored. -/
def AccountStatus.text : AccountStatus → String
  | valid => "valid"
  | deactivated => "deactivated"
  | revoked => "revoked"

/-- The stored status of an order. -/
inductive OrderStatus where
  | pending
  | ready
  | processing
  | valid
  | invalid
  deriving DecidableEq, Repr

/-- The status as it is stored. -/
def OrderStatus.text : OrderStatus → String
  | pending => "pending"
  | ready => "ready"
  | processing => "processing"
  | valid => "valid"
  | invalid => "invalid"

/-- The stored status of an authorization. -/
inductive AuthorizationStatus where
  | pending
  | valid
  | invalid
  | expired
  deriving DecidableEq, Repr

/-- The status as it is stored. -/
def AuthorizationStatus.text : AuthorizationStatus → String
  | pending => "pending"
  | valid => "valid"
  | invalid => "invalid"
  | expired => "expired"

/-- The stored status of a challenge. -/
inductive ChallengeStatus where
  | pending
  | processing
  | valid
  | invalid
  deriving DecidableEq, Repr

/-- What an identifier is. -/
inductive IdentifierType where
  | dns
  | ip
  deriving DecidableEq, Repr

/-- How control of an identifier is proven. -/
inductive ChallengeType where
  | http01
  | dns01
  | tlsAlpn01
  deriving DecidableEq, Repr

/-- An entry of `identifiers_json`. -/
structure OrderIdentifier where
  /-- Its type. -/
  type : IdentifierType
  /-- The name as the order echoes it, with the star of a wildcard. -/
  value : Str
  deriving DecidableEq, Repr

/-- A row of `acme_accounts`. -/
structure AcmeAccount where
  /-- The primary key. -/
  id : Str
  /-- The hash of the id, unique. -/
  kidHash : Str
  /-- The public key. -/
  jwk : Json
  /-- The thumbprint of the key, unique. -/
  jwkThumbprint : Str
  /-- The status. -/
  status : AccountStatus
  /-- The contacts, if any were given. -/
  contacts : Option (List Str)
  /-- The issuer the account is registered with. -/
  issuerId : ℕ

instance : Keyed AcmeAccount Str := ⟨AcmeAccount.id⟩

@[simp] theorem key_acmeAccount (r : AcmeAccount) : key r = r.id := rfl

/-- A row of `acme_orders`. -/
structure AcmeOrder where
  /-- The primary key. -/
  id : Str
  /-- The account that placed the order. -/
  accountId : Str
  /-- The stored status. -/
  status : OrderStatus
  /-- The identifiers of the order. -/
  identifiers : List OrderIdentifier
  /-- The start of validity that was asked for. -/
  notBefore : Option ℤ
  /-- The end of validity that was asked for. -/
  notAfter : Option ℤ
  /-- When the order expires. -/
  expiresAt : ℤ
  /-- What came out of it. -/
  certificateId : Option ℕ
  /-- When it was placed. -/
  createdAt : ℤ
  deriving DecidableEq, Repr

instance : Keyed AcmeOrder Str := ⟨AcmeOrder.id⟩

@[simp] theorem key_acmeOrder (r : AcmeOrder) : key r = r.id := rfl

/-- A row of `acme_authorizations`. -/
structure AcmeAuthorization where
  /-- The primary key. -/
  id : Str
  /-- The order it belongs to. -/
  orderId : Str
  /-- The type of its identifier. -/
  identifierType : IdentifierType
  /-- The identifier, without the star of a wildcard. -/
  identifierValue : Str
  /-- The stored status. -/
  status : AuthorizationStatus
  /-- When it expires. -/
  expiresAt : ℤ
  /-- The identifier is a wildcard. -/
  wildcard : Bool
  deriving DecidableEq, Repr

instance : Keyed AcmeAuthorization Str := ⟨AcmeAuthorization.id⟩

@[simp] theorem key_acmeAuthorization (r : AcmeAuthorization) : key r = r.id := rfl

/-- A row of `acme_challenges`. -/
structure AcmeChallenge where
  /-- The primary key. -/
  id : Str
  /-- The authorization it belongs to. -/
  authzId : Str
  /-- Its type. -/
  type : ChallengeType
  /-- The token of the key authorization. -/
  token : Str
  /-- The stored status. -/
  status : ChallengeStatus
  /-- When it was validated. -/
  validatedAt : Option ℤ
  /-- Why it failed. -/
  error : Option AcmeError
  deriving DecidableEq, Repr

instance : Keyed AcmeChallenge Str := ⟨AcmeChallenge.id⟩

@[simp] theorem key_acmeChallenge (r : AcmeChallenge) : key r = r.id := rfl

/-- The database. -/
structure AcmeDb where
  /-- The tables of the CA. -/
  ca : Db
  /-- The table `acme_accounts`. -/
  accounts : Table AcmeAccount
  /-- The table `acme_orders`. -/
  orders : Table AcmeOrder
  /-- The table `acme_authorizations`. -/
  authorizations : Table AcmeAuthorization
  /-- The table `acme_challenges`. -/
  challenges : Table AcmeChallenge

end Acme

end Cabin
