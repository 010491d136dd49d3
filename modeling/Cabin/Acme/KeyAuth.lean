import Cabin.Acme.Base64url
import Cabin.Text.Utf8

/-!
# The key authorization

One text ties the token of a challenge to the key of an account, and all three kinds of validation are built on
it (`acme/validation/keyauth.py`): it is served as it is, or as its SHA-256.

* `keyAuthorization`, `digest`, `dnsValue`;
* `keyAuthorization_inj`: the text is that of one token and one thumbprint;
* `dnsValue_inj`, `digest_inj`: so is what is made of it, where SHA-256 tells the texts apart.
-/

namespace Cabin

namespace Acme

namespace KeyAuth

/-- base64url without padding. -/
def b64 (data : Bytes) : Str := (Base64.encode data).rdropWhile (· == 0x3D)

/-- The key authorization of a token, for the key with a thumbprint. -/
def keyAuthorization (token thumbprint : Str) : Str := token ++ 0x2E :: thumbprint

/-- `str.encode("utf-8")`. -/
def encoded (text : Str) : Except Raised (List ℕ) :=
  match text.utf8 with
  | some bytes => .ok bytes
  | none => .error (.crash "UnicodeEncodeError")

variable (sha256 : Bytes → Bytes)

/-- What a certificate has to carry. -/
def digest (authorization : Str) : Except Raised Bytes := do
  let bytes ← encoded authorization
  pure (sha256 (bytes.map UInt8.ofNat))

/-- What a TXT record has to contain. -/
def dnsValue (authorization : Str) : Except Raised Str := do
  let bytes ← digest sha256 authorization
  pure (b64 bytes)

/-! ### What identifies them -/

/-- A token or a thumbprint: a text of the base64url alphabet. -/
def IsBase64url (s : Str) : Prop := ∀ c ∈ s, isBase64url c = true

variable {sha256} {token token' thumbprint thumbprint' text text' : Str}

theorem IsBase64url.lt (h : IsBase64url text) : ∀ c ∈ text, c < 0x80 := by
  intro c hc
  have hc := h c hc
  simp only [isBase64url, Str.isAlnum, Str.isDigit, Bool.or_eq_true, Bool.and_eq_true, decide_eq_true_eq,
    beq_iff_eq] at hc
  omega

theorem IsBase64url.not_dot (h : IsBase64url text) : 0x2E ∉ text := fun hc => absurd (h _ hc) (by decide)

theorem isBase64url_b64 (data : Bytes) : IsBase64url (b64 data) := by
  intro c hc
  rw [b64, Base64.rdropWhile_encode, List.mem_map] at hc
  obtain ⟨v, hv, rfl⟩ := hc
  exact isBase64url_char v (Base64.spell_lt data v hv)

theorem b64_inj {x y : Bytes} (h : b64 x = b64 y) : x = y := by
  rw [b64, b64, Base64.rdropWhile_encode, Base64.rdropWhile_encode] at h
  have hlength : (Base64.spell x 0).length = (Base64.spell y 0).length := by simpa using congrArg List.length h
  have hencode : Base64.encode x = Base64.encode y := by
    rw [Base64.encode_eq, Base64.encode_eq, h, hlength]
  have hdecode := congrArg Base64.decode hencode
  rw [Base64.decode_encode, Base64.decode_encode] at hdecode
  exact Option.some.inj hdecode

/-- The text is that of one token and one thumbprint: there is one dot in it. -/
theorem keyAuthorization_inj (hthumb : IsBase64url thumbprint) (hthumb' : IsBase64url thumbprint')
    (h : keyAuthorization token thumbprint = keyAuthorization token' thumbprint') :
    token = token' ∧ thumbprint = thumbprint' := by
  simp only [keyAuthorization, List.append_eq_append_iff] at h
  rcases h with ⟨rest, rfl, h⟩ | ⟨rest, rfl, h⟩
  · cases rest with
    | nil => simpa using h
    | cons c rest =>
      rw [(List.cons.inj h).2] at hthumb
      exact absurd (List.mem_append_right _ List.mem_cons_self) hthumb.not_dot
  · cases rest with
    | nil => simpa [eq_comm] using h
    | cons c rest =>
      rw [(List.cons.inj h).2] at hthumb'
      exact absurd (List.mem_append_right _ List.mem_cons_self) hthumb'.not_dot

theorem flatMap_utf8Char (h : ∀ c ∈ text, c < 0x80) : text.flatMap Str.utf8Char = text := by
  induction text with
  | nil => rfl
  | cons c text ih =>
    rw [List.flatMap_cons, ih fun x hx => h x (List.mem_cons_of_mem _ hx), Str.utf8Char,
      if_pos (h c List.mem_cons_self)]
    rfl

theorem any_isSurrogate (h : ∀ c ∈ text, c < 0x80) : text.any Str.isSurrogate = false := by
  refine List.any_eq_false.2 fun c hc => ?_
  have hlt := h c hc
  simp only [Str.isSurrogate, Bool.and_eq_true, decide_eq_true_eq]
  omega

theorem utf8_of_lt (h : ∀ c ∈ text, c < 0x80) : text.utf8 = some text := by
  rw [Str.utf8, any_isSurrogate h, flatMap_utf8Char h]
  rfl

theorem encoded_of_lt (h : ∀ c ∈ text, c < 0x80) : encoded text = .ok text := by
  rw [encoded, utf8_of_lt h]

theorem keyAuthorization_lt (htoken : IsBase64url token) (hthumb : IsBase64url thumbprint) :
    ∀ c ∈ keyAuthorization token thumbprint, c < 0x80 := by
  intro c hc
  rcases List.mem_append.1 hc with hc | hc
  · exact htoken.lt c hc
  · rcases List.mem_cons.1 hc with rfl | hc
    · decide
    · exact hthumb.lt c hc

/-- SHA-256 does not tell two key authorizations apart. -/
def Collide (sha256 : Bytes → Bytes) (text text' : Str) : Prop :=
  text ≠ text' ∧ sha256 (text.map UInt8.ofNat) = sha256 (text'.map UInt8.ofNat)

/-- The digest is that of one token and one thumbprint, but for a collision. -/
theorem digest_inj (htoken : IsBase64url token) (hthumb : IsBase64url thumbprint) (htoken' : IsBase64url token')
    (hthumb' : IsBase64url thumbprint')
    (h : digest sha256 (keyAuthorization token thumbprint) = digest sha256 (keyAuthorization token' thumbprint')) :
    token = token' ∧ thumbprint = thumbprint' ∨
      Collide sha256 (keyAuthorization token thumbprint) (keyAuthorization token' thumbprint') := by
  by_cases heq : keyAuthorization token thumbprint = keyAuthorization token' thumbprint'
  · exact .inl (keyAuthorization_inj hthumb hthumb' heq)
  · rw [digest, digest, encoded_of_lt (keyAuthorization_lt htoken hthumb),
      encoded_of_lt (keyAuthorization_lt htoken' hthumb')] at h
    exact .inr ⟨heq, Except.ok.inj h⟩

theorem dnsValue_eq_ok {authorization value : Str} : dnsValue sha256 authorization = .ok value ↔
    ∃ bytes, digest sha256 authorization = .ok bytes ∧ b64 bytes = value := by
  rw [dnsValue, bind_eq_ok]
  exact exists_congr fun bytes => and_congr_right fun _ => pure_eq_ok

/-- So is the content of the record. -/
theorem dnsValue_inj {value : Str} (htoken : IsBase64url token) (hthumb : IsBase64url thumbprint)
    (htoken' : IsBase64url token') (hthumb' : IsBase64url thumbprint')
    (h : dnsValue sha256 (keyAuthorization token thumbprint) = .ok value)
    (h' : dnsValue sha256 (keyAuthorization token' thumbprint') = .ok value) :
    token = token' ∧ thumbprint = thumbprint' ∨
      Collide sha256 (keyAuthorization token thumbprint) (keyAuthorization token' thumbprint') := by
  obtain ⟨bytes, hbytes, hvalue⟩ := dnsValue_eq_ok.1 h
  obtain ⟨bytes', hbytes', hvalue'⟩ := dnsValue_eq_ok.1 h'
  obtain rfl := b64_inj (hvalue.trans hvalue'.symm)
  exact digest_inj htoken hthumb htoken' hthumb' (hbytes.trans hbytes'.symm)

end KeyAuth

end Acme

end Cabin
