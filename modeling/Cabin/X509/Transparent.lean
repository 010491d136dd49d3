import Cabin.X509.Basic

/-!
# A transparent instance

`Crypto.transparent` makes the model run: keys, signatures and sealed tokens are plain data.  A
public key is the encoding of its private key, a signature is the signer's public key, and a
sealed key is its encoding.  It has the laws of `Crypto` and no secrecy at all; the concrete runs
of the development are runs with it.
-/

namespace Cabin

namespace X509

/-- A text with its length in front. -/
def lengthPrefixed (s : Str) : Str := s.length :: s

/-- The encoding of a kind of key. -/
def KeyKind.encode : KeyKind → Str
  | rsa bits => [0, bits]
  | ec .p256 => [1]
  | ec .p384 => [2]
  | ec (.other name) => 3 :: lengthPrefixed name
  | ed25519 => [4]
  | other name => 5 :: lengthPrefixed name

/-- Read a kind of key and what follows it. -/
def KeyKind.decode : Str → Option (KeyKind × Str)
  | 0 :: bits :: rest => some (rsa bits, rest)
  | 1 :: rest => some (ec .p256, rest)
  | 2 :: rest => some (ec .p384, rest)
  | 3 :: n :: rest => some (ec (.other (rest.take n)), rest.drop n)
  | 4 :: rest => some (ed25519, rest)
  | 5 :: n :: rest => some (other (rest.take n), rest.drop n)
  | _ => none

theorem KeyKind.decode_encode (k : KeyKind) (rest : Str) :
    KeyKind.decode (k.encode ++ rest) = some (k, rest) := by
  cases k with
  | rsa bits => rfl
  | ec curve =>
    cases curve with
    | p256 => rfl
    | p384 => rfl
    | other name => simp [encode, decode, lengthPrefixed]
  | ed25519 => rfl
  | other name => simp [encode, decode, lengthPrefixed]

/-- The encoding of a private key. -/
def PrivateKey.encode (k : PrivateKey) : Str := k.kind.encode ++ k.der.map UInt8.toNat

/-- Read a private key. -/
def PrivateKey.decode (s : Str) : Option PrivateKey :=
  (KeyKind.decode s).map fun (kind, der) => ⟨kind, der.map UInt8.ofNat⟩

theorem PrivateKey.decode_encode (k : PrivateKey) : PrivateKey.decode k.encode = some k := by
  have h : (k.der.map UInt8.toNat).map UInt8.ofNat = k.der := by
    simp [List.map_map, Function.comp_def]
  simp only [encode, decode, KeyKind.decode_encode, Option.map_some, h]

/-- Keys, signatures and sealed tokens as plain data. -/
def Crypto.transparent : Crypto where
  publicKey k := ⟨k.encode.map UInt8.ofNat⟩
  publicKeyKind p := ((KeyKind.decode (p.spki.map UInt8.toNat)).map Prod.fst).getD (.other [])
  knowsKey _ := true
  sign k _ := k.encode.map UInt8.ofNat
  verify p _ s := s == p.spki
  verify_sign _ _ := by simp
  signCrl k _ := k.encode.map UInt8.ofNat
  generate t r := ⟨t.kind, [UInt8.ofNat r]⟩
  generate_kind _ _ := rfl
  keyIdentifier p := p.spki
  sealKey _ k := k.encode
  unsealKey := PrivateKey.decode
  unsealKey_sealKey _ k := k.decode_encode
  rfc4514String n := (n.flatten.map NameAttribute.value).flatMap fun
    | .text s => s
    | .bits b => b.map UInt8.toNat
  decodeReplace b := b.map UInt8.toNat
  isMailbox s := 0x40 ∈ s ∧ s.isAscii

end X509

/-- The draw of a call on a fixed day in which nothing fails. -/
def Draw.sample (seed : ℕ) : Draw where
  now := Instant.days 20000
  yearsNow := Instant.days 20000
  serialNumber := seed
  seed := seed
  nonce := seed
  fault := none

end Cabin
