import Cabin.Acme.Nonces
import Cabin.Text.Base64

/-!
# base64url in requests

What `b64encode` and `b64decode` (`acme/jws.py`) do to each other.  The decoder refuses padding and every
character outside the alphabet, but not bits of the last character that belong to no byte.

* `Jose.withBase64` are encodings with the standard library's base64;
* `b64decode_eq_ok` says which texts are read, and `spellings_of_bytes` which of them are written again.
-/

namespace Cabin

namespace Acme

/-- The encodings with the standard library's base64. -/
def Jose.withBase64 (J : Jose) : Jose :=
  { J with urlsafeB64decode := Base64.decode, urlsafeB64encode := Base64.encode }

variable {J : Jose} {s : Str} {what : String} {bytes : Bytes}

theorem isBase64url_char : ∀ v < 64, isBase64url (Base64.char v) = true := by decide

theorem exists_char {c : ℕ} (h : isBase64url c = true) : ∃ v < 64, Base64.char v = c := by
  have hall : ∀ c < 128, isBase64url c = true → ∃ v < 64, Base64.char v = c := by decide +kernel
  refine hall c ?_ h
  simp only [isBase64url, Str.isAlnum, Str.isDigit, Bool.or_eq_true, Bool.and_eq_true, decide_eq_true_eq,
    beq_iff_eq] at h
  omega

theorem b64encode_eq : b64encode J.withBase64 bytes = (Base64.spell bytes 0).map Base64.char :=
  Base64.rdropWhile_encode bytes

/-- A text is read if it is one of the alphabet and no single character is left over. -/
theorem b64decode_eq_ok : b64decode J.withBase64 (some (.str s)) what = .ok bytes ↔ ∃ vs : List ℕ,
    (∀ v ∈ vs, v < 64) ∧ vs.map Base64.char = s ∧ vs.length % 4 ≠ 1 ∧ Base64.spelled vs = bytes := by
  have hread : ∀ vs : List ℕ, (∀ v ∈ vs, v < 64) →
      b64decode J.withBase64 (some (.str (vs.map Base64.char))) what =
        if vs.length % 4 = 1 then .error (malformed s!"{what} is not base64url") else .ok (Base64.spelled vs) := by
    intro vs hvs
    have hall : (vs.map Base64.char).all isBase64url = true := by
      refine List.all_eq_true.2 fun c hc => ?_
      obtain ⟨v, hv, rfl⟩ := List.mem_map.1 hc
      exact isBase64url_char v (hvs v hv)
    have hdecode := Base64.decode_padded hvs
    simp only [b64decode, Option.bind_some, Json.str?, hall, if_true, Jose.withBase64, List.length_map]
    rw [Base64.pads] at hdecode
    rw [hdecode]
    by_cases hone : vs.length % 4 = 1
    · rw [if_pos hone, if_pos hone]
    · rw [if_neg hone, if_neg hone]
  constructor
  · intro h
    have hall : s.all isBase64url = true := by
      by_contra hnot
      simp only [b64decode, Option.bind_some, Json.str?, if_neg hnot] at h
      cases h
    obtain ⟨vs, hvs, rfl⟩ := Base64.exists_values fun c hc => exists_char (List.all_eq_true.1 hall c hc)
    rw [hread vs hvs] at h
    split_ifs at h with hone
    exact ⟨vs, hvs, rfl, hone, Except.ok.inj h⟩
  · rintro ⟨vs, hvs, rfl, hone, rfl⟩
    rw [hread vs hvs, if_neg hone]

/-- What is written is read. -/
theorem b64decode_b64encode (bytes : Bytes) (what : String) :
    b64decode J.withBase64 (some (.str (b64encode J.withBase64 bytes))) what = .ok bytes := by
  have h := Base64.decode_encode bytes
  rw [Base64.encode_eq, Base64.decode_padded (Base64.spell_lt bytes)] at h
  split_ifs at h with hone
  exact b64decode_eq_ok.2 ⟨_, Base64.spell_lt bytes, b64encode_eq.symm, hone, Option.some.inj h⟩

/-- **The spellings of bytes** differ in the bits of the last character that belong to no byte, and only there:
what is written is read again, a text that is read is the one that is written if these bits are zero, and two
texts of the same bytes are the same if they have these bits in common. -/
theorem spellings_of_bytes (J : Jose) :
    (∀ bytes what, b64decode J.withBase64 (some (.str (b64encode J.withBase64 bytes))) what = .ok bytes) ∧
    (∀ s what bytes, b64decode J.withBase64 (some (.str s)) what = .ok bytes →
      (b64encode J.withBase64 bytes = s ↔ Base64.spareBits s = 0)) ∧
    ∀ s s' what what' bytes, b64decode J.withBase64 (some (.str s)) what = .ok bytes →
      b64decode J.withBase64 (some (.str s')) what' = .ok bytes →
        (s = s' ↔ Base64.spareBits s = Base64.spareBits s') := by
  refine ⟨b64decode_b64encode, fun s what bytes h => ?_, fun s s' what what' bytes h h' => ?_⟩
  · obtain ⟨vs, hvs, rfl, hone, rfl⟩ := b64decode_eq_ok.1 h
    rw [b64encode_eq]
    constructor
    · intro heq
      rw [← heq, Base64.spareBits_spell]
    · intro hzero
      have hspell := Base64.spell_spelled hvs hone
      rw [hzero] at hspell
      rw [hspell]
  · obtain ⟨vs, hvs, rfl, hone, hbytes⟩ := b64decode_eq_ok.1 h
    obtain ⟨ws, hws, rfl, hone', hbytes'⟩ := b64decode_eq_ok.1 h'
    refine ⟨fun heq => congrArg Base64.spareBits heq, fun hbits => ?_⟩
    rw [← Base64.spell_spelled hvs hone, ← Base64.spell_spelled hws hone', hbytes, hbytes', hbits]

/-- Two texts are read as the same byte, and only one of them is written for it. -/
theorem spare_bits_repaired :
    (b64decode Jose.sample.withBase64 (some (.str (Str.of "aR"))) "the JWS payload" = .ok [0x69] ∧
      b64encode Jose.sample.withBase64 [0x69] ≠ Str.of "aR") ∧
    b64decode Jose.sample.withBase64 (some (.str (Str.of "aQ"))) "the JWS payload" = .ok [0x69] ∧
    Str.of "aQ" ≠ Str.of "aR" := by
  decide +kernel

end Acme

end Cabin
