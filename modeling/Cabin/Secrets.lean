import Cabin.Text.Base64
import Cabin.Text.Loads
import Cabin.Text.Utf8
import Cabin.Store.Files

/-!
# The master key

The secrets layer (`secrets.py`): a master key in the file `secret.key`, in the clear or wrapped with a
key that is derived from a passphrase, and the sealing of secrets with it.

A process that does not find the file makes a key of its own and tries to publish it.  The file is
published once, and every process uses the key that it finds in the end.  What is read goes through several
`try` blocks, each with its own classes; `Raised` has the exceptions and `rescue` is such a block.

* `keyfile` is what a process writes, `loadKey` what it makes of what it reads, `loadKey_keyfile` says
  that the second undoes the first;
* `openFile` reads any bytes;
* `openCalls` is any number of processes at once, on the steps of `Publisher`;
* `one_master_key` is the result over every run.
-/

namespace Cabin

namespace Secrets

/-! ### Sealing -/

/-- The ciphers, AES-GCM and scrypt, and what the interpreter can do. -/
structure Sealing where
  /-- `AESGCM(key).encrypt(nonce, plaintext, None)`. -/
  encrypt : List UInt8 → List UInt8 → List UInt8 → List UInt8
  /-- `AESGCM(key).decrypt(nonce, ciphertext, None)`, `none` for an invalid tag. -/
  decrypt : List UInt8 → List UInt8 → List UInt8 → Option (List UInt8)
  /-- Decryption undoes encryption. -/
  decrypt_encrypt : ∀ key nonce plaintext, key.length = 32 → nonce.length = 12 →
    decrypt key nonce (encrypt key nonce plaintext) = some plaintext
  /-- The tag has 16 bytes. -/
  length_decrypt : ∀ key nonce ciphertext plaintext, decrypt key nonce ciphertext = some plaintext →
    plaintext.length + 16 = ciphertext.length
  /-- `hashlib.scrypt` with a passphrase, a salt and the three cost parameters. -/
  scrypt : List UInt8 → List UInt8 → ℕ → ℕ → ℕ → List UInt8
  /-- The cost parameters are accepted. -/
  accepts : ℕ → ℕ → ℕ → Bool
  /-- A derived key has 32 bytes. -/
  length_scrypt : ∀ passphrase salt n r p, (scrypt passphrase salt n r p).length = 32
  /-- The parameters that are used here are accepted. -/
  accepts_own : accepts 32768 8 1 = true
  /-- How many brackets a JSON text may have open at once. -/
  nesting : ℕ
  nesting_pos : 0 < nesting
  /-- There is memory for a string, or for a list, of this length. -/
  allocates : Bool → ℕ → Bool

/-- The failures of the layer. -/
inductive SecretsError where
  | corrupt
  | unsupported
  | passphraseSet
  | passphraseNotSet
  | keyLength
  | wrongPassphrase
  | notBase64
  | truncated
  | tampered
  deriving DecidableEq, Repr

/-- What is raised: a `SecretsError`, or an exception of the interpreter or of the cipher. -/
inductive Raised where
  | secrets (e : SecretsError)
  | invalidTag
  /-- `ValueError`, or a class below it that is not `JSONDecodeError`. -/
  | value
  | jsonDecode
  | key
  | type
  | attribute
  | overflow
  | memory
  | recursion
  deriving DecidableEq, Repr

/-- `except (KeyError, TypeError, ValueError, AttributeError)`. -/
def Raised.isMalformed : Raised → Bool
  | .key | .type | .value | .jsonDecode | .attribute => true
  | _ => false

/-- `try: … except …: raise SecretsError`. -/
def rescue {α : Type} (caught : Raised → Bool) (e : SecretsError) : Except Raised α → Except Raised α
  | .ok a => .ok a
  | .error x => if caught x then .error (.secrets e) else .error x

variable (S : Sealing)

/-- The length of a nonce. -/
def nonceLen : ℕ := 12

/-- The length of a key. -/
def keyLen : ℕ := 32

/-- Seal a secret, with a fresh nonce. -/
def sealToken (key nonce plaintext : List UInt8) : Str :=
  Base64.encode (nonce ++ S.encrypt key nonce plaintext)

/-- `AESGCM(key).decrypt`; a nonce has to have 8 bytes at least. -/
def aesgcmDecrypt (key nonce ciphertext : List UInt8) : Except Raised (List UInt8) :=
  if nonce.length < 8 then .error .value
  else
    match S.decrypt key nonce ciphertext with
    | some plaintext => .ok plaintext
    | none => .error .invalidTag

/-- `_unb64`. -/
def unb64 (data : Str) : Except Raised (List UInt8) :=
  match Base64.decode data with
  | some bytes => .ok bytes
  | none => .error .value

/-- Unseal a token. -/
def unsealToken (key : List UInt8) (token : Str) : Except Raised (List UInt8) := do
  let raw ← rescue (fun _ => true) .notBase64 (unb64 token)
  refuse (raw.length < nonceLen) (.secrets .truncated)
  rescue (· == .invalidTag) .tampered (aesgcmDecrypt S key (raw.take nonceLen) (raw.drop nonceLen))

theorem aesgcmDecrypt_of_length {key nonce ciphertext : List UInt8} (h : 8 ≤ nonce.length) :
    aesgcmDecrypt S key nonce ciphertext =
      match S.decrypt key nonce ciphertext with
      | some plaintext => .ok plaintext
      | none => .error .invalidTag := if_neg (Nat.not_lt.2 h)

/-- What is encrypted under a nonce is decrypted from the two together. -/
theorem aesgcmDecrypt_encrypt {key nonce : List UInt8} (hkey : key.length = 32) (hnonce : nonce.length = 12)
    (plaintext : List UInt8) :
    aesgcmDecrypt S key ((nonce ++ S.encrypt key nonce plaintext).take nonceLen)
      ((nonce ++ S.encrypt key nonce plaintext).drop nonceLen) = .ok plaintext := by
  have htake : (nonce ++ S.encrypt key nonce plaintext).take nonceLen = nonce := by
    rw [nonceLen, ← hnonce, List.take_left]
  have hdrop : (nonce ++ S.encrypt key nonce plaintext).drop nonceLen =
      S.encrypt key nonce plaintext := by
    rw [nonceLen, ← hnonce, List.drop_left]
  rw [htake, hdrop, aesgcmDecrypt_of_length S (by omega), S.decrypt_encrypt key nonce plaintext hkey hnonce]

theorem unsealToken_sealToken {key nonce : List UInt8} (hkey : key.length = 32) (hnonce : nonce.length = 12)
    (plaintext : List UInt8) : unsealToken S key (sealToken S key nonce plaintext) = .ok plaintext := by
  have hlength : ¬ (nonce ++ S.encrypt key nonce plaintext).length < nonceLen := by
    simp only [List.length_append, hnonce, nonceLen]
    omega
  simp only [unsealToken, sealToken, unb64, Base64.decode_encode, rescue, bind, Except.bind, refuse,
    if_neg hlength, aesgcmDecrypt_encrypt S hkey hnonce]

/-! ### The key file -/

/-- What a process draws for a new key file. -/
structure KeyDraw where
  /-- The master key. -/
  masterKey : List UInt8
  /-- The salt of the passphrase. -/
  salt : List UInt8
  /-- The nonce of the wrapping. -/
  nonce : List UInt8
  length_masterKey : masterKey.length = 32
  length_salt : salt.length = 16
  length_nonce : nonce.length = 12

/-- The members of a new key file; the passphrase is given by its bytes. -/
def keyfile (passphrase : Option (List UInt8)) (draw : KeyDraw) : List (Str × Json) :=
  match passphrase with
  | none =>
    [(Str.of "v", .num (Str.of "1")), (Str.of "kdf", .str (Str.of "none")),
      (Str.of "key", .str (Base64.encode draw.masterKey))]
  | some passphrase =>
    let kek := S.scrypt passphrase draw.salt 32768 8 1
    [(Str.of "v", .num (Str.of "1")), (Str.of "kdf", .str (Str.of "scrypt")),
      (Str.of "salt", .str (Base64.encode draw.salt)), (Str.of "n", .num (Str.of "32768")),
      (Str.of "r", .num (Str.of "8")), (Str.of "p", .num (Str.of "1")),
      (Str.of "wrapped", .str (Base64.encode (draw.nonce ++ S.encrypt kek draw.nonce draw.masterKey)))]

/-- The text of a new key file. -/
def keyText (passphrase : Option (List UInt8)) (draw : KeyDraw) : Str :=
  (Json.obj (keyfile S passphrase draw)).dumps

/-! ### Numbers -/

/-- The value of decimal digits. -/
def decimalOf (digits : Str) : ℕ := digits.foldl (fun n c => n * 10 + (c - 0x30)) 0

/-- The text of a number without its sign, and whether it has one. -/
def unsigned (text : Str) : Bool × Str :=
  match text with
  | 0x2D :: rest => (true, rest)
  | _ => (false, text)

/-- The integer with this text, `none` for a float. -/
def integer? (text : Str) : Option ℤ :=
  let (negative, digits) := unsigned text
  if digits ≠ [] ∧ digits.all Json.isDecimal then
    some (if negative then -decimalOf digits else decimalOf digits)
  else none

/-- The float nearest to `m * 10 ^ e` is one: the halves of the gaps beside it belong to it. -/
def roundsToOne (m : ℕ) (e : ℤ) : Bool :=
  let num := m * 10 ^ e.toNat
  let den := 10 ^ (-e).toNat
  (2 ^ 54 - 1) * den ≤ 2 ^ 54 * num && 2 ^ 53 * num ≤ (2 ^ 53 + 1) * den

/-- The float with this text is one. -/
def floatIsOne (text : Str) : Bool :=
  match Json.scanInteger text with
  | none => false
  | some (int, rest) =>
    let (frac, rest) := Json.scanFraction rest
    let (exp, _) := Json.scanExponent rest
    let digits := exp.drop 1
    let e : ℤ := match digits with
      | 0x2D :: digits => -decimalOf digits
      | 0x2B :: digits => decimalOf digits
      | digits => decimalOf digits
    roundsToOne (decimalOf (int ++ frac.drop 1)) (e - (frac.drop 1).length)

/-- `v == 1`. -/
def isOne : Option Json → Bool
  | some (.num text) =>
    match integer? text with
    | some z => z == 1
    | none => floatIsOne text
  | some (.bool b) => b
  | _ => false

example : isOne (some (.num (Str.of "10e-1"))) = true ∧ isOne (some (.num (Str.of "1.1"))) = false := by decide

/-- A value as an operand of `*`; of a float it does not matter which. -/
inductive Operand where
  | int (z : ℤ)
  | float
  /-- A string or a list, with its length. -/
  | seq (isText : Bool) (length : ℕ)
  | other
  deriving DecidableEq, Repr

/-- What a value is to `*`. -/
def operand : Json → Operand
  | .bool b => .int (if b then 1 else 0)
  | .num text =>
    match integer? text with
    | some z => .int z
    | none => .float
  | .str s => .seq true s.length
  | .arr items => .seq false items.length
  | _ => .other

/-- The integer is rounded to a finite float. -/
def isFloat (z : ℤ) : Bool := z.natAbs < 2 ^ 1024 - 2 ^ 970

/-- `PY_SSIZE_T_MAX`, and the largest `long`. -/
def longMax : ℤ := 2 ^ 63 - 1

/-- The integer is a `long`. -/
def isLong (z : ℤ) : Bool := -longMax - 1 ≤ z && z ≤ longMax

/-- A string or a list, repeated. -/
def repeated (isText : Bool) (length : ℕ) (count : ℤ) : Except Raised Operand :=
  if isLong count = false then .error .overflow
  else if length * count.toNat = 0 then .ok (.seq isText 0)
  else if longMax < length * count then .error (if isText then .overflow else .memory)
  else if S.allocates isText (length * count.toNat) = false then .error .memory
  else .ok (.seq isText (length * count.toNat))

/-- `a * b`. -/
def Operand.mul : Operand → Operand → Except Raised Operand
  | .int a, .int b => .ok (.int (a * b))
  | .int a, .float | .float, .int a => if isFloat a then .ok .float else .error .overflow
  | .float, .float => .ok .float
  | .seq isText length, .int count | .int count, .seq isText length => repeated S isText length count
  | _, _ => .error .type

/-! ### Reading it -/

/-- `doc[name]`. -/
def member (doc : Json) (name : String) : Except Raised Json :=
  match doc.get? name with
  | some v => .ok v
  | none => .error .key

/-- `_unb64(doc[name])`. -/
def bytesOf (doc : Json) (name : String) : Except Raised (List UInt8) := do
  match ← member doc name with
  | .str data => unb64 data
  -- Other values have no `encode`.
  | _ => .error .attribute

/-- `128 * n * r * p * 2`. -/
def maxmem (n r p : Json) : Except Raised Operand := do
  let a ← (Operand.int 128).mul S (operand n)
  let b ← a.mul S (operand r)
  let c ← b.mul S (operand p)
  c.mul S (.int 2)

/-- An `unsigned long`. -/
def unsignedLong (z : ℤ) : Except Raised ℕ := if 0 ≤ z ∧ z < 2 ^ 64 then .ok z.toNat else .error .type

/-- The largest `int`. -/
def intMax : ℕ := 2 ^ 31 - 1

/-- `hashlib.scrypt`, its arguments as it converts and checks them. -/
def hashlibScrypt (passphrase salt : List UInt8) (n r p maxmem : Operand) : Except Raised (List UInt8) :=
  match n, r, p, maxmem with
  | .int n, .int r, .int p, .int maxmem => do
    refuse (isLong maxmem = false) .overflow
    -- The passphrase comes from the environment, which has shorter values only.
    refuse (intMax < salt.length) .overflow
    let n ← unsignedLong n
    let r ← unsignedLong r
    let p ← unsignedLong p
    refuse (S.accepts n r p = false) .value
    pure (S.scrypt passphrase salt n r p)
  | _, _, _, _ => .error .type

/-- `_scrypt`. -/
def scrypt (passphrase salt : List UInt8) (n r p : Json) : Except Raised (List UInt8) := do
  hashlibScrypt S passphrase salt (operand n) (operand r) (operand p) (← maxmem S n r p)

/-- The master key of a file in the clear. -/
def loadPlain (doc : Json) : Except Raised (List UInt8) := do
  let key ← rescue Raised.isMalformed .corrupt (bytesOf doc "key")
  refuse (key.length ≠ keyLen) (.secrets .keyLength)
  pure key

/-- The key that the master key is wrapped with, and the wrapped key.  The passphrase is given by its bytes,
`none` if it has none. -/
def wrapping (doc : Json) (passphrase : Option (List UInt8)) : Except Raised (List UInt8 × List UInt8) :=
  match passphrase with
  | none => .error .value
  | some passphrase => do
    let salt ← bytesOf doc "salt"
    let n ← member doc "n"
    let r ← member doc "r"
    let p ← member doc "p"
    let kek ← scrypt S passphrase salt n r p
    let raw ← bytesOf doc "wrapped"
    pure (kek, raw)

/-- The master key of a file that is wrapped. -/
def loadWrapped (doc : Json) (passphrase : Option (List UInt8)) : Except Raised (List UInt8) := do
  let (kek, raw) ← rescue Raised.isMalformed .corrupt (wrapping S doc passphrase)
  rescue (· == .invalidTag) .wrongPassphrase (aesgcmDecrypt S kek (raw.take nonceLen) (raw.drop nonceLen))

/-- `_load_key`: the master key of a key file. -/
def loadKey (passphrase : Option (Option (List UInt8))) (doc : Json) : Except Raised (List UInt8) :=
  let kdf := (doc.get? "kdf").bind Json.str?
  if isOne (doc.get? "v") = false then .error (.secrets .unsupported)
  else if kdf = some (Str.of "none") then
    match passphrase with
    | some _ => .error (.secrets .passphraseSet)
    | none => loadPlain doc
  else if kdf = some (Str.of "scrypt") then
    match passphrase with
    | none => .error (.secrets .passphraseNotSet)
    | some passphrase => loadWrapped S doc passphrase
  else .error (.secrets .unsupported)

/-- `json.loads`. -/
def jsonLoads (text : Str) : Except Raised Json :=
  match Json.loads S.nesting text with
  | .ok doc => .ok doc
  | .error .decode => .error .jsonDecode
  | .error .digits => .error .value
  | .error .recursion => .error .recursion

/-- The document has to be an object. -/
def dictOf : Json → Except Raised Json
  | .obj members => .ok (.obj members)
  | _ => .error (.secrets .corrupt)

/-- `_read_keyfile`, on what `read_text` returns. -/
def readKeyfile (text : Except Raised Str) : Except Raised Json :=
  rescue (· == .jsonDecode) .corrupt (text >>= jsonLoads S) >>= dictOf

/-- What a process makes of the text it has read. -/
def openText (passphrase : Option (List UInt8)) (text : Str) : Except Raised (List UInt8) := do
  loadKey S (passphrase.map some) (← readKeyfile S (.ok text))

/-- Line ends as `read_text` has them. -/
def universalNewlines : Str → Str
  | 0x0D :: 0x0A :: rest => 0x0A :: universalNewlines rest
  | 0x0D :: rest => 0x0A :: universalNewlines rest
  | c :: rest => c :: universalNewlines rest
  | [] => []

/-- `read_text`. -/
def readText (content : List UInt8) : Except Raised Str :=
  match Str.ofUtf8 (content.map UInt8.toNat) with
  | some text => .ok (universalNewlines text)
  | none => .error .value

/-- `SecretStore.open` where the key file has these bytes. -/
def openFile (passphrase : Option Str) (content : List UInt8) : Except Raised (List UInt8) := do
  let doc ← readKeyfile S (readText content)
  loadKey S (passphrase.map fun text => text.utf8.map (List.map UInt8.ofNat)) doc

section keyfile

variable {S} {passphrase : Option (List UInt8)} {draw : KeyDraw}

theorem plain_encode (bytes : List UInt8) : Json.Plain (Base64.encode bytes) :=
  fun _ hc => (Base64.isDigit_of_mem_encode bytes hc).plain

theorem isNatural_of {t : Str} (hdigits : t.all Json.isDecimal = true) (hne : t ≠ [])
    (hzero : t.head? = some 0x30 → t = [0x30]) (hshort : t.length ≤ 5) : Json.IsNatural t :=
  ⟨fun c hc => List.all_eq_true.1 hdigits c hc, hne, hzero, hshort.trans (by decide)⟩

/-- A new key file is flat. -/
theorem flat_keyfile : Json.Flat (keyfile S passphrase draw) := by
  have hnatural : ∀ t ∈ [Str.of "1", Str.of "32768", Str.of "8"], Json.IsNatural t := by
    intro t ht
    have hall : ∀ t ∈ [Str.of "1", Str.of "32768", Str.of "8"],
        t.all Json.isDecimal = true ∧ t ≠ [] ∧ (t.head? = some 0x30 → t = [0x30]) ∧ t.length ≤ 5 := by
      decide
    obtain ⟨hdigits, hne, hzero, hshort⟩ := hall t ht
    exact isNatural_of hdigits hne hzero hshort
  have hplain : ∀ t ∈ [Str.of "v", Str.of "kdf", Str.of "key", Str.of "salt", Str.of "n", Str.of "r",
      Str.of "p", Str.of "wrapped", Str.of "none", Str.of "scrypt"], Json.Plain t := by
    unfold Json.Plain
    decide
  cases passphrase with
  | none =>
    refine ⟨?_, ?_, by simp only [keyfile, List.map]; decide⟩
    · simp only [keyfile, List.forall_mem_cons, List.not_mem_nil, false_implies, implies_true, and_true]
      exact ⟨hplain _ (by simp), hplain _ (by simp), hplain _ (by simp)⟩
    · simp only [keyfile, List.forall_mem_cons, List.not_mem_nil, false_implies, implies_true, and_true]
      exact ⟨hnatural _ (by simp), hplain _ (by simp), plain_encode _⟩
  | some passphrase =>
    refine ⟨?_, ?_, by simp only [keyfile, List.map]; decide⟩
    · simp only [keyfile, List.forall_mem_cons, List.not_mem_nil, false_implies, implies_true, and_true]
      exact ⟨hplain _ (by simp), hplain _ (by simp), hplain _ (by simp), hplain _ (by simp),
        hplain _ (by simp), hplain _ (by simp), hplain _ (by simp)⟩
    · simp only [keyfile, List.forall_mem_cons, List.not_mem_nil, false_implies, implies_true, and_true]
      exact ⟨hnatural _ (by simp), hplain _ (by simp), plain_encode _, hnatural _ (by simp),
        hnatural _ (by simp), hnatural _ (by simp), plain_encode _⟩

theorem bytesOf_encode {doc : Json} {name : String} {bytes : List UInt8}
    (h : doc.get? name = some (.str (Base64.encode bytes))) : bytesOf doc name = .ok bytes := by
  simp only [bytesOf, member, h, bind, Except.bind, unb64, Base64.decode_encode]

theorem loadPlain_keyfile : loadPlain (.obj (keyfile S none draw)) = .ok draw.masterKey := by
  have hkey : bytesOf (.obj (keyfile S none draw)) "key" = .ok draw.masterKey := bytesOf_encode rfl
  simp [loadPlain, hkey, rescue, bind, Except.bind, refuse, draw.length_masterKey, keyLen, pure, Except.pure]

/-- The parameters that are used here are fine. -/
theorem scrypt_own {passphrase salt : List UInt8} (hsalt : salt.length ≤ intMax) :
    scrypt S passphrase salt (.num (Str.of "32768")) (.num (Str.of "8")) (.num (Str.of "1")) =
      .ok (S.scrypt passphrase salt 32768 8 1) := by
  have hmaxmem : maxmem S (.num (Str.of "32768")) (.num (Str.of "8")) (.num (Str.of "1")) =
      .ok (.int 67108864) := rfl
  have hn : operand (.num (Str.of "32768")) = .int 32768 := rfl
  have hr : operand (.num (Str.of "8")) = .int 8 := rfl
  have hp : operand (.num (Str.of "1")) = .int 1 := rfl
  simp only [scrypt, hmaxmem, hn, hr, hp, bind, Except.bind, hashlibScrypt, refuse, unsignedLong]
  rw [if_neg (by decide), if_neg (by omega)]
  simp [S.accepts_own, pure, Except.pure]

theorem loadWrapped_keyfile (passphrase : List UInt8) :
    loadWrapped S (.obj (keyfile S (some passphrase) draw)) (some passphrase) = .ok draw.masterKey := by
  have hsalt : bytesOf (.obj (keyfile S (some passphrase) draw)) "salt" = .ok draw.salt :=
    bytesOf_encode rfl
  have hn : member (.obj (keyfile S (some passphrase) draw)) "n" = .ok (.num (Str.of "32768")) := rfl
  have hr : member (.obj (keyfile S (some passphrase) draw)) "r" = .ok (.num (Str.of "8")) := rfl
  have hp : member (.obj (keyfile S (some passphrase) draw)) "p" = .ok (.num (Str.of "1")) := rfl
  have hscrypt := @scrypt_own S passphrase draw.salt
    (by rw [draw.length_salt]; decide)
  generalize hkek : S.scrypt passphrase draw.salt 32768 8 1 = kek at hscrypt
  have hkekLength : kek.length = 32 := hkek ▸ S.length_scrypt passphrase draw.salt 32768 8 1
  have hraw : bytesOf (.obj (keyfile S (some passphrase) draw)) "wrapped" =
      .ok (draw.nonce ++ S.encrypt kek draw.nonce draw.masterKey) := bytesOf_encode (hkek ▸ rfl)
  simp only [loadWrapped, wrapping, hsalt, hn, hr, hp, hscrypt, hraw, rescue, bind, Except.bind, pure,
    Except.pure, aesgcmDecrypt_encrypt S hkekLength draw.length_nonce]

/-- The key of a new key file. -/
theorem loadKey_keyfile :
    loadKey S (passphrase.map some) (.obj (keyfile S passphrase draw)) = .ok draw.masterKey := by
  cases passphrase with
  | none => exact loadPlain_keyfile
  | some passphrase => exact loadWrapped_keyfile passphrase

/-- **What is read from a new key file is its key.** -/
theorem openText_keyText : openText S passphrase (keyText S passphrase draw) = .ok draw.masterKey := by
  have hread : readKeyfile S (.ok (keyText S passphrase draw)) = .ok (.obj (keyfile S passphrase draw)) := by
    simp only [readKeyfile, jsonLoads, keyText, Json.loads_dumps flat_keyfile S.nesting_pos, bind, Except.bind,
      rescue, dictOf]
  simp only [openText, hread, bind, Except.bind]
  exact loadKey_keyfile

end keyfile

/-! ### Processes -/

/-- The name of the key file. -/
def secretKey : Str := Str.of "secret.key"

/-- Any number of processes that call `SecretStore.open` on one directory. -/
def openCalls : Machine (Publishers Str ℕ) (ℕ × Str) := publishers secretKey

/-- The processes begin in a directory, each with what it will draw. -/
def openStart (fs : Files Str ℕ) (passphrase : Option (List UInt8)) (draws : List KeyDraw) :
    Publishers Str ℕ :=
  .start fs (draws.map (keyText S passphrase))

/-- What a process has returned or raised, if it is over. -/
def result (passphrase : Option (List UInt8)) :
    Publisher Str ℕ → Option (Except Raised (List UInt8))
  | .returned text => some (openText S passphrase text)
  | .missing => some (.error (.secrets .corrupt))
  | _ => none

variable {S}

/-- A process that is over has read the file and has its key. -/
theorem result_eq_some {passphrase : Option (List UInt8)} {draws : List KeyDraw} {w : Publishers Str ℕ}
    {k : ℕ} {pc : Publisher Str ℕ} {o : Except Raised (List UInt8)}
    (hinv : w.Inv secretKey (draws.map (keyText S passphrase))) (hk : w.calls[k]? = some pc)
    (ho : result S passphrase pc = some o) :
    ∃ draw f, o = .ok draw.masterKey ∧ w.files.entry secretKey = some f ∧
      w.files.data[f]? = some (keyText S passphrase draw) := by
  cases pc with
  | returned text =>
    obtain ⟨htext, f, hf, hdata⟩ := returned_of_inv hinv hk
    obtain ⟨draw, -, rfl⟩ := List.mem_map.1 htext
    obtain rfl := Option.some.inj ho
    exact ⟨draw, f, openText_keyText, hf, hdata⟩
  | missing => exact absurd (hinv.good k _ hk) id
  | _ => cases ho

/-- The key of the file, if it is there. -/
theorem exists_key {passphrase : Option (List UInt8)} {draws : List KeyDraw} {w : Publishers Str ℕ}
    (hinv : w.Inv secretKey (draws.map (keyText S passphrase))) :
    ∃ key : List UInt8, ∀ (k : ℕ) (pc : Publisher Str ℕ) (o : Except Raised (List UInt8)),
      w.calls[k]? = some pc → result S passphrase pc = some o → o = .ok key ∧ key.length = 32 := by
  by_cases hover : ∃ (k : ℕ) (pc : Publisher Str ℕ) (o : _), w.calls[k]? = some pc ∧
      result S passphrase pc = some o
  · obtain ⟨k, pc, o, hk, ho⟩ := hover
    obtain ⟨draw, f, -, hf, hdata⟩ := result_eq_some hinv hk ho
    refine ⟨draw.masterKey, fun k' pc' o' hk' ho' => ?_⟩
    obtain ⟨draw', f', rfl, hf', hdata'⟩ := result_eq_some hinv hk' ho'
    obtain rfl := Option.some.inj (hf.symm.trans hf')
    -- One text has one key.
    have htext : keyText S passphrase draw = keyText S passphrase draw' :=
      Option.some.inj (hdata.symm.trans hdata')
    have hkey : (.ok draw.masterKey : Except Raised (List UInt8)) = .ok draw'.masterKey := by
      rw [← openText_keyText (S := S), ← openText_keyText (S := S), htext]
    exact ⟨hkey.symm, draw.length_masterKey⟩
  · exact ⟨[], fun k pc o hk ho => absurd ⟨k, pc, o, hk, ho⟩ hover⟩

/-- **One master key.**  In every state of every run of processes that call `SecretStore.open` with one
passphrase, or none, on a directory without the key file:

* the key file is not there, or has the complete text that one of the processes has made;
* once it is there, it never changes;
* a process that is not over can go on, with fewer steps left, as long as a temporary name is free;
* a process that is over has returned a key of 32 bytes, the same for all;
* what one of them seals, each of them unseals. -/
theorem one_master_key {fs : Files Str ℕ} {passphrase : Option (List UInt8)} {draws : List KeyDraw}
    {w : Publishers Str ℕ} (h₀ : fs.entry secretKey = none)
    (h : openCalls.Reachable (openStart S fs passphrase draws) w) :
    (∀ f, w.files.entry secretKey = some f →
      ∃ draw ∈ draws, w.files.data[f]? = some (keyText S passphrase draw)) ∧
    (∀ (f : ℕ) (text : Str) (w' : Publishers Str ℕ), w.files.entry secretKey = some f →
      w.files.data[f]? = some text → openCalls.Reachable w w' →
      w'.files.entry secretKey = some f ∧ w'.files.data[f]? = some text) ∧
    (∀ (k : ℕ) (pc : Publisher Str ℕ) (n : Str), w.calls[k]? = some pc → result S passphrase pc = none →
      n ≠ secretKey → w.files.entry n = none →
      ∃ w' pc', openCalls.step w (k, n) = some w' ∧ w'.calls[k]? = some pc' ∧ pc'.left < pc.left) ∧
    ∃ key : List UInt8,
      (∀ (k : ℕ) (pc : Publisher Str ℕ) (o : Except Raised (List UInt8)),
        w.calls[k]? = some pc → result S passphrase pc = some o → o = .ok key ∧ key.length = 32) ∧
      ∀ (j k : ℕ) (pc pc' : Publisher Str ℕ) (key₁ key₂ nonce plaintext : List UInt8),
        w.calls[j]? = some pc → result S passphrase pc = some (.ok key₁) →
        w.calls[k]? = some pc' → result S passphrase pc' = some (.ok key₂) → nonce.length = 12 →
        unsealToken S key₂ (sealToken S key₁ nonce plaintext) = .ok plaintext := by
  have hinv : w.Inv secretKey (draws.map (keyText S passphrase)) := published h₀ h
  obtain ⟨key, hkey⟩ := exists_key hinv
  refine ⟨fun f hf => ?_, fun f text w' hf htext hreach => published_of_reach hinv hreach hf htext,
    fun k pc n hk hnone hn hfree => ?_, key, hkey, ?_⟩
  · obtain ⟨text, htext, hdata⟩ := hinv.target f hf
    obtain ⟨draw, hdraw, rfl⟩ := List.mem_map.1 htext
    exact ⟨draw, hdraw, hdata⟩
  · have hover : pc.isOver = false := by
      cases pc with
      | returned | missing => cases hnone
      | _ => rfl
    obtain ⟨fs', pc', hstep, hleft⟩ := Publisher.exists_step hover hn hfree
    refine ⟨⟨fs', w.calls.set k pc'⟩, pc', ?_, ?_, hleft⟩
    · simp [openCalls, publishers, hk, hstep]
    · simp [(List.getElem?_eq_some_iff.1 hk).1]
  · intro j k pc pc' key₁ key₂ nonce plaintext hj h₁ hk h₂ hnonce
    obtain ⟨heq₁, hlength⟩ := hkey j pc _ hj h₁
    obtain ⟨heq₂, -⟩ := hkey k pc' _ hk h₂
    cases heq₁
    cases heq₂
    exact unsealToken_sealToken S hlength hnonce plaintext

/-! ### A run -/

/-- A cipher that hides nothing. -/
def Sealing.transparent : Sealing where
  encrypt _ _ plaintext := plaintext ++ List.replicate 16 0
  decrypt _ _ ciphertext :=
    if ciphertext.length < 16 then none else some (ciphertext.take (ciphertext.length - 16))
  decrypt_encrypt _ _ _ _ _ := by simp
  length_decrypt _ _ _ _ h := by
    split_ifs at h
    obtain rfl := Option.some.inj h
    simp only [List.length_take]
    omega
  scrypt _ _ _ _ _ := List.replicate 32 0
  accepts _ _ _ := true
  length_scrypt _ _ _ _ _ := List.length_replicate
  accepts_own := rfl
  nesting := 1000
  nesting_pos := by decide
  allocates _ _ := true

/-- What the process with this number draws. -/
def KeyDraw.sample (i : UInt8) : KeyDraw where
  masterKey := List.replicate 32 i
  salt := List.replicate 16 i
  nonce := List.replicate 12 i
  length_masterKey := List.length_replicate
  length_salt := List.length_replicate
  length_nonce := List.length_replicate

/-- Two processes, without a passphrase, in an empty directory. -/
def twoOpen : Publishers Str ℕ :=
  openStart .transparent ⟨fun _ => none, []⟩ none [.sample 1, .sample 2]

/-- Both find no key file, and each writes one; the second process is the first to link. -/
def bothCreate : List (ℕ × Str) :=
  [(0, []), (1, [])] ++ List.replicate 79 (0, Str.of ".a") ++ List.replicate 84 (1, Str.of ".b") ++
    List.replicate 5 (0, Str.of ".a")

/-- In this run both processes return one key. -/
theorem one_master_key_bothCreate :
    ∃ (w : Publishers Str ℕ) (key : List UInt8), openCalls.Reachable twoOpen w ∧ w.calls.length = 2 ∧
      (∀ pc ∈ w.calls, result .transparent none pc = some (.ok key)) ∧ key.length = 32 := by
  have h : openCalls.Reachable twoOpen _ := Machine.reachable_final _ bothCreate
  obtain ⟨-, -, -, key, hkey, -⟩ := one_master_key rfl h
  have hover : (openCalls.final twoOpen bothCreate).calls.all Publisher.isOver = true ∧
      (openCalls.final twoOpen bothCreate).calls.length = 2 := by decide +kernel
  generalize openCalls.final twoOpen bothCreate = w at h hkey hover
  obtain ⟨hover, hlength⟩ := hover
  -- What is over has a result.
  have hresult : ∀ pc ∈ w.calls, result .transparent none pc = some (.ok key) ∧ key.length = 32 := by
    intro pc hpc
    obtain ⟨k, hk⟩ := List.getElem?_of_mem hpc
    have hpcOver := List.all_eq_true.1 hover pc hpc
    cases hres : result .transparent none pc with
    | none =>
      cases pc with
      | returned | missing => cases hres
      | _ => cases hpcOver
    | some o =>
      obtain ⟨rfl, hlen⟩ := hkey k pc o hk hres
      exact ⟨rfl, hlen⟩
  obtain ⟨pc, hpc⟩ := List.exists_mem_of_length_pos (by omega : 0 < w.calls.length)
  exact ⟨w, key, h, hlength, fun pc hpc => (hresult pc hpc).1, (hresult pc hpc).2⟩

end Secrets

end Cabin
