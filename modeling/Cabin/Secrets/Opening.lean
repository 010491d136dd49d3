import Cabin.Secrets

/-!
# Opening any key file

`SecretStore.open` on any bytes: it returns a key of 32 bytes or raises `SecretsError`, where the file is
`Sensible`.  The `try` blocks do not have all exceptions that what is inside them can raise.

* `OpensSafely` is what opening should do, `UnsealsSafely` what sealing and unsealing should;
* `Affordable` is about the cost parameters, `Wraps` about a file that is wrapped;
* `opens_safely_iff` says exactly when a file is opened safely.
-/

namespace Cabin

namespace Secrets

/-- A `SecretsError`. -/
def Raised.IsSecrets (x : Raised) : Prop := ∃ e, x = .secrets e

/-- A key of 32 bytes, or a `SecretsError`. -/
def Safe (r : Except Raised (List UInt8)) : Prop :=
  (∃ key, r = .ok key ∧ key.length = keyLen) ∨ ∃ e, r = .error (.secrets e)

variable (S : Sealing)

/-- The key file with these bytes is opened, or refused with a `SecretsError`. -/
def OpensSafely (passphrase : Option Str) (content : List UInt8) : Prop := Safe (openFile S passphrase content)

/-- What is sealed is unsealed, and every text is unsealed or refused with a `SecretsError`. -/
def UnsealsSafely : Prop :=
  ∀ key : List UInt8, key.length = keyLen →
    (∀ nonce plaintext, nonce.length = nonceLen →
      unsealToken S key (sealToken S key nonce plaintext) = .ok plaintext) ∧
    ∀ token, (∃ plaintext, unsealToken S key token = .ok plaintext) ∨ ∃ e, unsealToken S key token = .error (.secrets e)

/-- The memory limit that the cost parameters make is computed, and is a `long`; the salt is not too long. -/
structure Affordable (salt : List UInt8) (n r p : Json) : Prop where
  product : maxmem S n r p ≠ .error .overflow ∧ maxmem S n r p ≠ .error .memory
  limit : ∀ a b c, operand n = .int a → operand r = .int b → operand p = .int c →
    isLong (128 * a * b * c * 2) = true ∧ salt.length ≤ intMax

/-- A document that is wrapped, for a passphrase with these bytes. -/
structure Wraps (doc : Json) (passphrase : List UInt8) : Prop where
  cost : ∀ salt n r p, bytesOf doc "salt" = .ok salt → member doc "n" = .ok n → member doc "r" = .ok r →
    member doc "p" = .ok p → Affordable S salt n r p
  /-- The wrapped key has a nonce, and is a key of 32 bytes unless the tag is invalid. -/
  wrapped : ∀ salt n r p kek raw, bytesOf doc "salt" = .ok salt → member doc "n" = .ok n →
    member doc "r" = .ok r → member doc "p" = .ok p → scrypt S passphrase salt n r p = .ok kek →
    bytesOf doc "wrapped" = .ok raw →
    8 ≤ raw.length ∧ (raw.length = 60 ∨ S.decrypt kek (raw.take nonceLen) (raw.drop nonceLen) = none)

/-- A key file that is opened safely: it is UTF-8; the interpreter reads its integers and its brackets, up to the
first error; and if it is a wrapped one that is opened with a passphrase, its members are fine. -/
structure Sensible (passphrase : Option Str) (content : List UInt8) : Prop where
  text : ∃ text, readText content = .ok text
  digits : ∀ text, readText content = .ok text → Json.loads S.nesting text ≠ .error .digits
  nesting : ∀ text, readText content = .ok text → Json.loads S.nesting text ≠ .error .recursion
  wrapped : ∀ text members phrase bytes, readText content = .ok text →
    Json.loads S.nesting text = .ok (.obj members) → isOne ((Json.obj members).get? "v") = true →
    ((Json.obj members).get? "kdf").bind Json.str? = some (Str.of "scrypt") → passphrase = some phrase →
    phrase.utf8 = some bytes → Wraps S (.obj members) (bytes.map UInt8.ofNat)

variable {S} {caught : Raised → Bool} {e : SecretsError}

/-! ### Blocks -/

theorem raises_rescue_iff {α : Type} {x : Except Raised α} : Raises Raised.IsSecrets (rescue caught e x) ↔
    Raises (fun r => caught r = true ∨ r.IsSecrets) x := by
  cases x with
  | ok a => exact iff_of_true raises_ok raises_ok
  | error r =>
    rw [raises_error_iff, rescue]
    by_cases hcaught : caught r = true
    · rw [if_pos hcaught, raises_error_iff]
      exact iff_of_true ⟨e, rfl⟩ (.inl hcaught)
    · rw [if_neg hcaught, raises_error_iff]
      exact ⟨.inr, fun h => h.resolve_left hcaught⟩

theorem rescue_eq_ok {α : Type} {x : Except Raised α} {a : α} : rescue caught e x = .ok a ↔ x = .ok a := by
  cases x with
  | ok b => rfl
  | error r =>
    rw [rescue]
    split_ifs <;> simp

theorem safe_ok_iff {key : List UInt8} : Safe (.ok key) ↔ key.length = keyLen := by
  refine ⟨?_, fun h => .inl ⟨key, rfl, h⟩⟩
  rintro (⟨key', hkey, hlength⟩ | ⟨e, he⟩)
  · exact Except.ok.inj hkey ▸ hlength
  · cases he

theorem safe_error_iff {r : Raised} : Safe (.error r) ↔ r.IsSecrets := by
  refine ⟨?_, fun ⟨e, he⟩ => .inr ⟨e, congrArg Except.error he⟩⟩
  rintro (⟨key, hkey, -⟩ | ⟨e, he⟩)
  · cases hkey
  · exact ⟨e, Except.error.inj he⟩

theorem safe_bind_iff {α : Type} {x : Except Raised α} {f : α → Except Raised (List UInt8)} :
    Safe (x >>= f) ↔ Raises Raised.IsSecrets x ∧ ∀ a, x = .ok a → Safe (f a) := by
  cases x with
  | ok a =>
    simp only [bind, Except.bind]
    exact ⟨fun h => ⟨raises_ok, fun b hb => Except.ok.inj hb ▸ h⟩, fun h => h.2 a rfl⟩
  | error r =>
    simp only [bind, Except.bind]
    rw [raises_error_iff, safe_error_iff]
    exact ⟨fun h => ⟨h, fun _ ha => by cases ha⟩, fun h => h.1⟩

theorem safe_error (e : SecretsError) : Safe (.error (.secrets e)) := .inr ⟨e, rfl⟩

/-! ### Members -/

/-- What the blocks around the members have. -/
abbrev Raised.IsCaught (x : Raised) : Prop := x.isMalformed = true ∨ x.IsSecrets

theorem raises_member (doc : Json) (name : String) : Raises Raised.IsCaught (member doc name) := by
  unfold member
  split
  · exact raises_ok
  · exact raises_error (.inl rfl)

theorem raises_bytesOf (doc : Json) (name : String) : Raises Raised.IsCaught (bytesOf doc name) := by
  refine raises_bind (raises_member doc name) fun v _ => ?_
  split
  · unfold unb64
    split
    · exact raises_ok
    · exact raises_error (.inl rfl)
  · exact raises_error (.inl rfl)

theorem safe_loadPlain (doc : Json) : Safe (loadPlain doc) := by
  refine safe_bind_iff.2 ⟨raises_rescue_iff.2 (raises_bytesOf doc "key"), fun key _ => ?_⟩
  refine safe_bind_iff.2 ⟨raises_refuse ⟨_, rfl⟩, fun _ hlength => .inl ⟨key, rfl, ?_⟩⟩
  exact not_not.1 (refuse_eq_ok.1 hlength)

/-! ### The derived key -/

/-- What a product raises. -/
abbrev Raised.IsArithmetic (x : Raised) : Prop := x = .type ∨ x = .overflow ∨ x = .memory

theorem raises_mul (a b : Operand) : Raises Raised.IsArithmetic (a.mul S b) := by
  have hrepeated : ∀ isText length count, Raises Raised.IsArithmetic (repeated S isText length count) := by
    intro isText length count
    unfold repeated
    split_ifs <;> first
      | exact raises_ok
      | exact raises_error (by decide)
  unfold Operand.mul
  split
  · exact raises_ok
  · split_ifs
    · exact raises_ok
    · exact raises_error (by decide)
  · split_ifs
    · exact raises_ok
    · exact raises_error (by decide)
  · exact raises_ok
  · exact hrepeated _ _ _
  · exact hrepeated _ _ _
  · exact raises_error (by decide)

theorem raises_maxmem (n r p : Json) : Raises Raised.IsArithmetic (maxmem S n r p) := by
  refine raises_bind (raises_mul _ _) fun a _ => ?_
  refine raises_bind (raises_mul _ _) fun b _ => ?_
  exact raises_bind (raises_mul _ _) fun c _ => raises_mul _ _

theorem maxmem_int {n r p : Json} {a b c : ℤ} (hn : operand n = .int a) (hr : operand r = .int b)
    (hp : operand p = .int c) : maxmem S n r p = .ok (.int (128 * a * b * c * 2)) := by
  simp only [maxmem, hn, hr, hp, Operand.mul, bind, Except.bind]

theorem raises_unsignedLong (z : ℤ) : Raises Raised.IsCaught (unsignedLong z) := by
  unfold unsignedLong
  split_ifs
  · exact raises_ok
  · exact raises_error (.inl rfl)

/-- Of integers, only the memory limit and the salt can be too large. -/
theorem raises_hashlibScrypt_int {passphrase salt : List UInt8} {a b c m : ℤ} :
    Raises Raised.IsCaught (hashlibScrypt S passphrase salt (.int a) (.int b) (.int c) (.int m)) ↔
      isLong m = true ∧ salt.length ≤ intMax := by
  have hoverflow : ¬ Raised.IsCaught .overflow := by
    rintro (h | ⟨e, h⟩)
    · cases h
    · cases h
  have hrest : ∀ _ : Unit, Raises Raised.IsCaught (do
      let n ← unsignedLong a
      let r ← unsignedLong b
      let p ← unsignedLong c
      refuse (S.accepts n r p = false) .value
      pure (S.scrypt passphrase salt n r p)) := fun _ => by
    refine raises_bind (raises_unsignedLong a) fun n _ => ?_
    refine raises_bind (raises_unsignedLong b) fun r _ => ?_
    refine raises_bind (raises_unsignedLong c) fun p _ => ?_
    exact raises_bind (raises_refuse (.inl rfl)) fun _ _ => raises_pure
  rw [hashlibScrypt, raises_bind_iff, raises_refuse_iff]
  simp only [raises_bind_left hrest, raises_refuse_iff, refuse_eq_ok, Bool.not_eq_false]
  constructor
  · rintro ⟨hlong, hsalt⟩
    have hfits : isLong m = true := by
      by_contra hnot
      exact hoverflow (hlong (Bool.not_eq_true _ ▸ hnot))
    exact ⟨hfits, Nat.not_lt.1 fun hlt => hoverflow (hsalt () hfits hlt)⟩
  · rintro ⟨hlong, hsalt⟩
    exact ⟨fun hnot => absurd hlong (hnot ▸ Bool.false_ne_true), fun _ _ hlt => absurd hsalt (Nat.not_le.2 hlt)⟩

theorem raises_scrypt_iff {passphrase salt : List UInt8} {n r p : Json} :
    Raises Raised.IsCaught (scrypt S passphrase salt n r p) ↔ Affordable S salt n r p := by
  have hmaxmem : Raises Raised.IsCaught (maxmem S n r p) ↔
      maxmem S n r p ≠ .error .overflow ∧ maxmem S n r p ≠ .error .memory := by
    cases hproduct : maxmem S n r p with
    | ok m => exact iff_of_true raises_ok ⟨by simp, by simp⟩
    | error x =>
      rw [raises_error_iff]
      obtain rfl | rfl | rfl := raises_maxmem n r p x hproduct
      · exact iff_of_true (.inl rfl) ⟨by decide, by decide⟩
      · exact iff_of_false (by rintro (h | ⟨e, h⟩) <;> cases h) fun h => h.1 rfl
      · exact iff_of_false (by rintro (h | ⟨e, h⟩) <;> cases h) fun h => h.2 rfl
  rw [scrypt, raises_bind_iff, hmaxmem]
  constructor
  · rintro ⟨hproduct, hhash⟩
    refine ⟨hproduct, fun a b c hn hr hp => ?_⟩
    have hint := hhash _ (maxmem_int hn hr hp)
    rw [hn, hr, hp] at hint
    exact raises_hashlibScrypt_int.1 hint
  · intro h
    refine ⟨h.product, fun m hm => ?_⟩
    cases hn : operand n <;> cases hr : operand r <;> cases hp : operand p <;>
      first
      | exact raises_error (.inl rfl)
      | skip
    obtain rfl := Except.ok.inj (hm.symm.trans (maxmem_int hn hr hp))
    exact raises_hashlibScrypt_int.2 (h.limit _ _ _ hn hr hp)

/-! ### Wrapped files -/

section wrapped

variable {doc : Json} {passphrase kek raw : List UInt8}

theorem raises_wrapping_iff : Raises Raised.IsCaught (wrapping S doc (some passphrase)) ↔
    ∀ salt n r p, bytesOf doc "salt" = .ok salt → member doc "n" = .ok n → member doc "r" = .ok r →
      member doc "p" = .ok p → Affordable S salt n r p := by
  have hrest : ∀ kek : List UInt8, Raises Raised.IsCaught (do
      let raw ← bytesOf doc "wrapped"
      pure (kek, raw)) := fun _ => raises_bind (raises_bytesOf doc "wrapped") fun _ _ => raises_pure
  simp only [wrapping, raises_bind_right (raises_bytesOf doc "salt"), raises_bind_right (raises_member doc _),
    raises_bind_left hrest, raises_scrypt_iff]
  exact ⟨fun h salt n r p hsalt hn hr hp => h salt hsalt n hn r hr p hp,
    fun h salt hsalt n hn r hr p hp => h salt n r p hsalt hn hr hp⟩

theorem wrapping_eq_ok : wrapping S doc (some passphrase) = .ok (kek, raw) ↔
    ∃ salt n r p, bytesOf doc "salt" = .ok salt ∧ member doc "n" = .ok n ∧ member doc "r" = .ok r ∧
      member doc "p" = .ok p ∧ scrypt S passphrase salt n r p = .ok kek ∧ bytesOf doc "wrapped" = .ok raw := by
  simp only [wrapping, bind_eq_ok, pure_eq_ok, Prod.mk.injEq]
  constructor
  · rintro ⟨salt, hsalt, n, hn, r, hr, p, hp, kek, hkek, raw, hraw, rfl, rfl⟩
    exact ⟨salt, n, r, p, hsalt, hn, hr, hp, hkek, hraw⟩
  · rintro ⟨salt, n, r, p, hsalt, hn, hr, hp, hkek, hraw⟩
    exact ⟨salt, hsalt, n, hn, r, hr, p, hp, kek, hkek, raw, hraw, rfl, rfl⟩

/-- A nonce of 12 bytes, a key of 32 and a tag of 16. -/
theorem safe_unwrap_iff :
    Safe (rescue (· == .invalidTag) .wrongPassphrase
      (aesgcmDecrypt S kek (raw.take nonceLen) (raw.drop nonceLen))) ↔
    8 ≤ raw.length ∧ (raw.length = 60 ∨ S.decrypt kek (raw.take nonceLen) (raw.drop nonceLen) = none) := by
  have hnonce : (raw.take nonceLen).length < 8 ↔ raw.length < 8 := by
    simp only [List.length_take, nonceLen]
    omega
  unfold aesgcmDecrypt
  by_cases hshort : raw.length < 8
  · rw [if_pos (hnonce.2 hshort)]
    refine iff_of_false (fun h => ?_) fun h => absurd h.1 (Nat.not_le.2 hshort)
    obtain ⟨e, he⟩ := safe_error_iff.1 h
    cases he
  · rw [if_neg (mt hnonce.1 hshort)]
    cases hdecrypt : S.decrypt kek (raw.take nonceLen) (raw.drop nonceLen) with
    | none => exact iff_of_true (safe_error _) ⟨Nat.not_lt.1 hshort, .inr rfl⟩
    | some key =>
      have hlength := S.length_decrypt _ _ _ _ hdecrypt
      have hkey : key.length = keyLen ↔ raw.length = 60 := by
        simp only [List.length_drop, nonceLen, keyLen] at hlength ⊢
        omega
      exact ⟨fun h => ⟨Nat.not_lt.1 hshort, .inl (hkey.1 (safe_ok_iff.1 h))⟩,
        fun h => safe_ok_iff.2 (hkey.2 (h.2.resolve_right (Option.some_ne_none key)))⟩

theorem safe_loadWrapped_iff : Safe (loadWrapped S doc (some passphrase)) ↔ Wraps S doc passphrase := by
  rw [loadWrapped, safe_bind_iff, raises_rescue_iff, raises_wrapping_iff]
  simp only [rescue_eq_ok, Prod.forall, wrapping_eq_ok, safe_unwrap_iff]
  constructor
  · rintro ⟨hcost, hwrapped⟩
    refine ⟨hcost, fun salt n r p kek raw hsalt hn hr hp hkek hraw => ?_⟩
    exact hwrapped kek raw ⟨salt, n, r, p, hsalt, hn, hr, hp, hkek, hraw⟩
  · intro h
    refine ⟨h.cost, ?_⟩
    rintro kek raw ⟨salt, n, r, p, hsalt, hn, hr, hp, hkek, hraw⟩
    exact h.wrapped salt n r p kek raw hsalt hn hr hp hkek hraw

end wrapped

/-! ### Key files -/

/-- The members of a document are read safely. -/
theorem safe_loadKey_iff {passphrase : Option Str} {doc : Json} :
    Safe (loadKey S (passphrase.map fun text => text.utf8.map (List.map UInt8.ofNat)) doc) ↔
    ∀ phrase bytes, isOne (doc.get? "v") = true → (doc.get? "kdf").bind Json.str? = some (Str.of "scrypt") →
      passphrase = some phrase → phrase.utf8 = some bytes → Wraps S doc (bytes.map UInt8.ofNat) := by
  have hother : Str.of "scrypt" ≠ Str.of "none" := by decide
  unfold loadKey
  dsimp only
  split_ifs with hversion hnone hscrypt
  · exact iff_of_true (safe_error _) fun _ _ h => absurd h (hversion ▸ Bool.false_ne_true)
  · refine iff_of_true ?_ fun _ _ _ h => absurd (Option.some.inj (h.symm.trans hnone)) hother
    split
    · exact safe_error _
    · exact safe_loadPlain doc
  · rw [Bool.not_eq_false] at hversion
    cases passphrase with
    | none => exact iff_of_true (safe_error _) nofun
    | some phrase =>
      simp only [Option.map_some]
      cases hbytes : phrase.utf8 with
      | none =>
        refine iff_of_true (safe_error .corrupt) fun phrase' bytes _ _ hphrase h => ?_
        obtain rfl := Option.some.inj hphrase
        cases hbytes.symm.trans h
      | some bytes =>
        rw [Option.map_some, safe_loadWrapped_iff]
        refine ⟨fun h phrase' bytes' _ _ hphrase hbytes' => ?_, fun h => h phrase bytes hversion hscrypt rfl hbytes⟩
        obtain rfl := Option.some.inj hphrase
        obtain rfl := Option.some.inj (hbytes.symm.trans hbytes')
        exact h
  · exact iff_of_true (safe_error _) fun _ _ _ h => absurd h hscrypt

theorem raises_jsonLoads_iff {text : Str} :
    Raises (fun r => (r == .jsonDecode) = true ∨ r.IsSecrets) (jsonLoads S text) ↔
      Json.loads S.nesting text ≠ .error .digits ∧ Json.loads S.nesting text ≠ .error .recursion := by
  unfold jsonLoads
  split <;> rename_i hloads <;> rw [hloads]
  · exact iff_of_true raises_ok ⟨nofun, nofun⟩
  · exact iff_of_true (raises_error (.inl rfl)) ⟨nofun, nofun⟩
  · refine iff_of_false (fun h => ?_) fun h => h.1 rfl
    rcases raises_error_iff.1 h with h | ⟨e, h⟩ <;> cases h
  · refine iff_of_false (fun h => ?_) fun h => h.2 rfl
    rcases raises_error_iff.1 h with h | ⟨e, h⟩ <;> cases h

theorem jsonLoads_eq_ok {text : Str} {doc : Json} :
    jsonLoads S text = .ok doc ↔ Json.loads S.nesting text = .ok doc := by
  unfold jsonLoads
  split <;> rename_i hloads <;> rw [hloads]
  · rw [Except.ok.injEq, Except.ok.injEq]
  all_goals exact iff_of_false nofun nofun

theorem raises_readKeyfile_iff {text : Except Raised Str} : Raises Raised.IsSecrets (readKeyfile S text) ↔
    Raises (fun r => (r == .jsonDecode) = true ∨ r.IsSecrets) text ∧ ∀ t, text = .ok t →
      Json.loads S.nesting t ≠ .error .digits ∧ Json.loads S.nesting t ≠ .error .recursion := by
  have hdict : ∀ doc : Json, Raises Raised.IsSecrets (dictOf doc) := fun doc => by
    unfold dictOf
    split
    · exact raises_ok
    · exact raises_error ⟨_, rfl⟩
  rw [readKeyfile, raises_bind_left hdict, raises_rescue_iff, raises_bind_iff]
  simp only [raises_jsonLoads_iff]

theorem readKeyfile_eq_ok {text : Except Raised Str} {doc : Json} : readKeyfile S text = .ok doc ↔
    ∃ t members, text = .ok t ∧ Json.loads S.nesting t = .ok (.obj members) ∧ doc = .obj members := by
  simp only [readKeyfile, bind_eq_ok, rescue_eq_ok, jsonLoads_eq_ok]
  constructor
  · rintro ⟨doc', ⟨t, ht, hloads⟩, hdoc⟩
    unfold dictOf at hdoc
    split at hdoc
    · obtain rfl := Except.ok.inj hdoc
      exact ⟨t, _, ht, hloads, rfl⟩
    · cases hdoc
  · rintro ⟨t, members, ht, hloads, rfl⟩
    exact ⟨.obj members, ⟨t, ht, hloads⟩, rfl⟩

theorem raises_readText_iff {content : List UInt8} :
    Raises (fun r => (r == .jsonDecode) = true ∨ r.IsSecrets) (readText content) ↔
      ∃ text, readText content = .ok text := by
  unfold readText
  split
  · exact iff_of_true raises_ok ⟨_, rfl⟩
  · refine iff_of_false (fun h => ?_) fun h => ?_
    · rcases raises_error_iff.1 h with h | ⟨e, h⟩ <;> cases h
    · obtain ⟨text, h⟩ := h
      cases h

/-- Sealing and unsealing are safe: a token that is long enough has a nonce that is. -/
theorem unsealsSafely : UnsealsSafely S := by
  refine fun key hkey => ⟨fun nonce plaintext hnonce => unsealToken_sealToken S hkey hnonce plaintext,
    fun token => ?_⟩
  unfold unsealToken unb64
  cases Base64.decode token with
  | none => exact .inr ⟨_, rfl⟩
  | some raw =>
    simp only [rescue, bind, Except.bind, refuse]
    split_ifs with hshort
    · exact .inr ⟨_, rfl⟩
    · have hnonce : 8 ≤ (raw.take nonceLen).length := by
        simp only [List.length_take, nonceLen] at hshort ⊢
        omega
      rw [aesgcmDecrypt_of_length S hnonce]
      cases S.decrypt key (raw.take nonceLen) (raw.drop nonceLen) with
      | none => exact .inr ⟨_, rfl⟩
      | some plaintext => exact .inl ⟨plaintext, rfl⟩

/-- **A key file is opened safely if and only if it is sensible**, whatever its bytes and the passphrase are; and
sealing and unsealing are always safe. -/
theorem opens_safely_iff (S : Sealing) (passphrase : Option Str) (content : List UInt8) :
    (OpensSafely S passphrase content ∧ UnsealsSafely S) ↔ Sensible S passphrase content := by
  rw [and_iff_left unsealsSafely, OpensSafely, openFile, safe_bind_iff, raises_readKeyfile_iff,
    raises_readText_iff]
  simp only [readKeyfile_eq_ok, safe_loadKey_iff]
  constructor
  · rintro ⟨⟨htext, hloads⟩, hload⟩
    exact
      { text := htext
        digits := fun text h => (hloads text h).1
        nesting := fun text h => (hloads text h).2
        wrapped := fun text members phrase bytes h hdoc => hload _ ⟨text, members, h, hdoc, rfl⟩ phrase bytes }
  · intro h
    refine ⟨⟨h.text, fun text ht => ⟨h.digits text ht, h.nesting text ht⟩⟩, ?_⟩
    rintro _ ⟨text, members, ht, hdoc, rfl⟩ phrase bytes
    exact h.wrapped text members phrase bytes ht hdoc

/-- **A file that is not UTF-8 is not refused with a `SecretsError`**: the block around the reading has
`JSONDecodeError` only. -/
theorem undecodable_escapes : ¬ ∀ (S : Sealing) (passphrase : Option Str) (content : List UInt8),
    OpensSafely S passphrase content ∧ UnsealsSafely S := fun h => by
  rcases (h .transparent none [0xFF]).1 with ⟨key, hkey, -⟩ | ⟨e, he⟩
  · cases hkey
  · cases he

/-- A wrapped key of less than eight bytes is not refused with a `SecretsError` either. -/
example : openFile .transparent (some (Str.of "p")) ((Str.of
    "\x7b\"v\": 1, \"kdf\": \"scrypt\", \"salt\": \"\", \"n\": 2, \"r\": 1, \"p\": 1, \"wrapped\": \"\"\x7d").map
      UInt8.ofNat) = .error .value := by decide +kernel

end Secrets

end Cabin
