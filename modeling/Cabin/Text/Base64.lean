import Mathlib.Data.List.DropRight
import Cabin.Text.Basic

/-!
# Base64

The URL-safe encoding of the standard library: three bytes make four characters, and `=` fills up the
last four.  The decoder is the lenient one: characters outside the alphabet are skipped, and nothing
is read after the padding.

* `Base64.encode`, `Base64.decode`;
* `Base64.decode_encode` : decoding undoes encoding;
* `Base64.spareBits` are the bits of a text without padding that belong to no byte, and `Base64.decode_padded`
  says that such a text is its bytes and these bits.
-/

namespace Cabin

namespace Base64

/-- The character of a value below 64. -/
def char (v : ℕ) : ℕ :=
  if v < 26 then v + 0x41
  else if v < 52 then v - 26 + 0x61
  else if v < 62 then v - 52 + 0x30
  else if v = 62 then 0x2D
  else 0x5F

/-- The value of a character.  The two characters of the other alphabet are understood as well. -/
def value? (c : ℕ) : Option ℕ :=
  if 0x41 ≤ c ∧ c ≤ 0x5A then some (c - 0x41)
  else if 0x61 ≤ c ∧ c ≤ 0x7A then some (c - 0x61 + 26)
  else if 0x30 ≤ c ∧ c ≤ 0x39 then some (c - 0x30 + 52)
  else if c = 0x2D ∨ c = 0x2B then some 62
  else if c = 0x5F ∨ c = 0x2F then some 63
  else none

/-- `urlsafe_b64encode`. -/
def encode : List UInt8 → Str
  | [] => []
  | [a] => [char (a.toNat / 4), char (a.toNat % 4 * 16), 0x3D, 0x3D]
  | [a, b] =>
    [char (a.toNat / 4), char (a.toNat % 4 * 16 + b.toNat / 16), char (b.toNat % 16 * 4), 0x3D]
  | a :: b :: c :: rest =>
    char (a.toNat / 4) :: char (a.toNat % 4 * 16 + b.toNat / 16) ::
      char (b.toNat % 16 * 4 + c.toNat / 64) :: char (c.toNat % 64) :: encode rest

/-- The state of the decoder: the place within four characters, the bits that are left over, and the
padding seen since the last character. -/
structure State where
  /-- The place within four characters. -/
  quad : ℕ
  /-- The bits that are left over. -/
  left : ℕ
  /-- The padding. -/
  pads : ℕ

/-- After a character with the value `v`, and the byte that is complete, if one is. -/
def State.next (s : State) (v : ℕ) : State × Option UInt8 :=
  match s.quad with
  | 0 => (⟨1, v, 0⟩, none)
  | 1 => (⟨2, v % 16, 0⟩, some (UInt8.ofNat (s.left * 4 + v / 16)))
  | 2 => (⟨3, v % 4, 0⟩, some (UInt8.ofNat (s.left * 16 + v / 4)))
  | _ => (⟨0, 0, 0⟩, some (UInt8.ofNat (s.left * 64 + v)))

/-- The bytes of the characters, `none` if the last four are not complete. -/
def decodeFrom (s : State) : Str → Option (List UInt8)
  | [] => if s.quad = 0 then some [] else none
  | c :: rest =>
    if c = 0x3D then
      if 2 ≤ s.quad ∧ 4 ≤ s.quad + (s.pads + 1) then some []
      else decodeFrom { s with pads := if 2 ≤ s.quad then s.pads + 1 else s.pads } rest
    else
      match value? c with
      | none => decodeFrom s rest
      | some v => (decodeFrom (s.next v).1 rest).map fun bytes => (s.next v).2.toList ++ bytes

/-- `urlsafe_b64decode`, `none` for a text that is not ASCII or not padded. -/
def decode (text : Str) : Option (List UInt8) :=
  if text.isAscii then decodeFrom ⟨0, 0, 0⟩ text else none

/-! ### Decoding undoes encoding -/

theorem value_char : ∀ v < 64, value? (char v) = some v ∧ char v ≠ 0x3D := by decide

/-- One character of the encoding. -/
theorem decodeFrom_char {s : State} {v : ℕ} (h : v < 64) (rest : Str) :
    decodeFrom s (char v :: rest) =
      (decodeFrom (s.next v).1 rest).map fun bytes => (s.next v).2.toList ++ bytes := by
  obtain ⟨hvalue, hne⟩ := value_char v h
  rw [decodeFrom, if_neg hne, hvalue]

section quad

variable {l v : ℕ} (h : v < 64) (rest : Str)
include h

theorem decodeFrom_first : decodeFrom ⟨0, l, 0⟩ (char v :: rest) = decodeFrom ⟨1, v, 0⟩ rest := by
  simp [decodeFrom_char h, State.next]

theorem decodeFrom_second : decodeFrom ⟨1, l, 0⟩ (char v :: rest) =
    (decodeFrom ⟨2, v % 16, 0⟩ rest).map (UInt8.ofNat (l * 4 + v / 16) :: ·) := by
  simp [decodeFrom_char h, State.next]

theorem decodeFrom_third : decodeFrom ⟨2, l, 0⟩ (char v :: rest) =
    (decodeFrom ⟨3, v % 4, 0⟩ rest).map (UInt8.ofNat (l * 16 + v / 4) :: ·) := by
  simp [decodeFrom_char h, State.next]

theorem decodeFrom_fourth : decodeFrom ⟨3, l, 0⟩ (char v :: rest) =
    (decodeFrom ⟨0, 0, 0⟩ rest).map (UInt8.ofNat (l * 64 + v) :: ·) := by
  simp [decodeFrom_char h, State.next]

end quad

/-- A byte from its two parts. -/
theorem ofNat_eq {n : ℕ} {a : UInt8} (h : n = a.toNat) : UInt8.ofNat n = a := by
  rw [h, UInt8.ofNat_toNat]

theorem decodeFrom_encode (bytes : List UInt8) : decodeFrom ⟨0, 0, 0⟩ (encode bytes) = some bytes := by
  induction bytes using encode.induct with
  | case1 => rfl
  | case2 a =>
    have ha := a.toNat_lt
    rw [encode, decodeFrom_first (by omega), decodeFrom_second (by omega), ofNat_eq (a := a) (by omega)]
    rfl
  | case3 a b =>
    have ha := a.toNat_lt
    have hb := b.toNat_lt
    rw [encode, decodeFrom_first (by omega), decodeFrom_second (by omega), ofNat_eq (a := a) (by omega),
      decodeFrom_third (by omega), ofNat_eq (a := b) (by omega)]
    rfl
  | case4 a b c rest ih =>
    have ha := a.toNat_lt
    have hb := b.toNat_lt
    have hc := c.toNat_lt
    rw [encode, decodeFrom_first (by omega), decodeFrom_second (by omega), ofNat_eq (a := a) (by omega),
      decodeFrom_third (by omega), ofNat_eq (a := b) (by omega), decodeFrom_fourth (by omega),
      ofNat_eq (a := c) (by omega), ih]
    rfl

/-- The characters of an encoding. -/
def IsDigit (c : ℕ) : Prop := c = 0x3D ∨ ∃ v < 64, c = char v

theorem isDigit_char {v : ℕ} (h : v < 64) : IsDigit (char v) := .inr ⟨v, h, rfl⟩

theorem isDigit_of_mem_encode {c : ℕ} (bytes : List UInt8) (h : c ∈ encode bytes) : IsDigit c := by
  induction bytes using encode.induct with
  | case1 => cases h
  | case2 a =>
    have ha := a.toNat_lt
    simp only [encode, List.mem_cons, List.not_mem_nil, or_false] at h
    rcases h with rfl | rfl | rfl | rfl
    · exact isDigit_char (by omega)
    · exact isDigit_char (by omega)
    · exact .inl rfl
    · exact .inl rfl
  | case3 a b =>
    have ha := a.toNat_lt
    have hb := b.toNat_lt
    simp only [encode, List.mem_cons, List.not_mem_nil, or_false] at h
    rcases h with rfl | rfl | rfl | rfl
    · exact isDigit_char (by omega)
    · exact isDigit_char (by omega)
    · exact isDigit_char (by omega)
    · exact .inl rfl
  | case4 a b c rest ih =>
    have ha := a.toNat_lt
    have hb := b.toNat_lt
    have hc := c.toNat_lt
    simp only [encode, List.mem_cons] at h
    rcases h with rfl | rfl | rfl | rfl | h
    · exact isDigit_char (by omega)
    · exact isDigit_char (by omega)
    · exact isDigit_char (by omega)
    · exact isDigit_char (by omega)
    · exact ih h

/-- All characters of an encoding are ASCII and print, and none is a quote or a backslash. -/
theorem IsDigit.plain {c : ℕ} (h : IsDigit c) : 0x20 ≤ c ∧ c ≤ 0x7E ∧ c ≠ 0x22 ∧ c ≠ 0x5C := by
  have hall : ∀ v < 64, 0x20 ≤ char v ∧ char v ≤ 0x7E ∧ char v ≠ 0x22 ∧ char v ≠ 0x5C := by decide
  rcases h with rfl | ⟨v, hv, rfl⟩
  · decide
  · exact hall v hv

theorem isAscii_encode (bytes : List UInt8) : (encode bytes).isAscii = true := by
  refine List.all_eq_true.2 fun c hc => decide_eq_true ?_
  have hle := (isDigit_of_mem_encode bytes hc).plain.2.1
  omega

/-- **Decoding undoes encoding.** -/
theorem decode_encode (bytes : List UInt8) : decode (encode bytes) = some bytes := by
  rw [decode, if_pos (isAscii_encode bytes), decodeFrom_encode]

/-! ### Texts without padding -/

/-- What fills up the last four of so many characters. -/
def pads (n : ℕ) : Str := List.replicate ((4 - n % 4) % 4) 0x3D

/-- The bits of the last character that belong to no byte. -/
def spareBits : Str → ℕ
  | [_, c] => (value? c).getD 0 % 16
  | [_, _, c] => (value? c).getD 0 % 4
  | _ :: _ :: _ :: _ :: rest => spareBits rest
  | _ => 0

/-- The values that spell bytes and spare bits. -/
def spell : List UInt8 → ℕ → List ℕ
  | [], _ => []
  | [a], n => [a.toNat / 4, a.toNat % 4 * 16 + n]
  | [a, b], n => [a.toNat / 4, a.toNat % 4 * 16 + b.toNat / 16, b.toNat % 16 * 4 + n]
  | a :: b :: c :: rest, n =>
    a.toNat / 4 :: (a.toNat % 4 * 16 + b.toNat / 16) :: (b.toNat % 16 * 4 + c.toNat / 64) ::
      c.toNat % 64 :: spell rest n

/-- The bytes that are spelled. -/
def spelled : List ℕ → List UInt8
  | [v, w] => [UInt8.ofNat (v * 4 + w / 16)]
  | [v, w, x] => [UInt8.ofNat (v * 4 + w / 16), UInt8.ofNat (w % 16 * 16 + x / 4)]
  | v :: w :: x :: y :: rest =>
    UInt8.ofNat (v * 4 + w / 16) :: UInt8.ofNat (w % 16 * 16 + x / 4) :: UInt8.ofNat (x % 4 * 64 + y) :: spelled rest
  | _ => []

theorem pads_add_four (n : ℕ) : pads (n + 4) = pads n := by
  rw [pads, pads, Nat.add_mod_right]

variable {vs : List ℕ}

/-- The encoding spells the bytes without spare bits, and fills up. -/
theorem encode_eq (bytes : List UInt8) :
    encode bytes = (spell bytes 0).map char ++ pads (spell bytes 0).length := by
  induction bytes using encode.induct with
  | case1 | case2 a | case3 a b => rfl
  | case4 a b c rest ih =>
    rw [encode, ih, spell]
    simp only [List.map_cons, List.cons_append, List.length_cons]
    rw [← pads_add_four]

theorem spell_lt (bytes : List UInt8) : ∀ v ∈ spell bytes 0, v < 64 := by
  induction bytes using encode.induct with
  | case1 => exact nofun
  | case2 a =>
    have ha := a.toNat_lt
    simp only [spell, List.forall_mem_cons, List.not_mem_nil, false_imp_iff, implies_true, and_true]
    omega
  | case3 a b =>
    have ha := a.toNat_lt
    have hb := b.toNat_lt
    simp only [spell, List.forall_mem_cons, List.not_mem_nil, false_imp_iff, implies_true, and_true]
    omega
  | case4 a b c rest ih =>
    have ha := a.toNat_lt
    have hb := b.toNat_lt
    have hc := c.toNat_lt
    simp only [spell, List.forall_mem_cons]
    exact ⟨by omega, by omega, by omega, by omega, ih⟩

/-- An encoding has no spare bits. -/
theorem spareBits_spell (bytes : List UInt8) : spareBits ((spell bytes 0).map char) = 0 := by
  have hlt := spell_lt bytes
  induction bytes using encode.induct with
  | case1 => rfl
  | case2 a =>
    simp only [spell, List.forall_mem_cons] at hlt
    simp only [spell, List.map_cons, List.map_nil, spareBits, (value_char _ hlt.2.1).1, Option.getD_some]
    omega
  | case3 a b =>
    simp only [spell, List.forall_mem_cons] at hlt
    simp only [spell, List.map_cons, List.map_nil, spareBits, (value_char _ hlt.2.2.1).1, Option.getD_some]
    omega
  | case4 a b c rest ih =>
    simp only [spell, List.forall_mem_cons] at hlt
    exact ih hlt.2.2.2.2

/-- The bytes and the spare bits spell the text again. -/
theorem spell_spelled (h : ∀ v ∈ vs, v < 64) (hlength : vs.length % 4 ≠ 1) :
    spell (spelled vs) (spareBits (vs.map char)) = vs := by
  induction vs using spelled.induct with
  | case1 v w =>
    simp only [List.forall_mem_cons] at h
    simp only [spelled, spell, List.map_cons, List.map_nil, spareBits, (value_char _ h.2.1).1, Option.getD_some,
      UInt8.toNat_ofNat_of_lt' (show v * 4 + w / 16 < 256 by omega), List.cons.injEq, and_true]
    omega
  | case2 v w x =>
    simp only [List.forall_mem_cons] at h
    simp only [spelled, spell, List.map_cons, List.map_nil, spareBits, (value_char _ h.2.2.1).1, Option.getD_some,
      UInt8.toNat_ofNat_of_lt' (show v * 4 + w / 16 < 256 by omega),
      UInt8.toNat_ofNat_of_lt' (show w % 16 * 16 + x / 4 < 256 by omega),
      List.cons.injEq, and_true]
    omega
  | case3 v w x y rest ih =>
    simp only [List.forall_mem_cons] at h
    simp only [List.length_cons] at hlength
    simp only [spelled, spell, List.map_cons, spareBits,
      UInt8.toNat_ofNat_of_lt' (show v * 4 + w / 16 < 256 by omega),
      UInt8.toNat_ofNat_of_lt' (show w % 16 * 16 + x / 4 < 256 by omega),
      UInt8.toNat_ofNat_of_lt' (show x % 4 * 64 + y < 256 by omega), ih h.2.2.2.2 (by omega), List.cons.injEq, and_true]
    omega
  | case4 vs htwo hthree hfour =>
    -- Neither two nor three characters, nor four: none at all, since one is not complete.
    rcases vs with _ | ⟨v, _ | ⟨w, _ | ⟨x, _ | ⟨y, rest⟩⟩⟩⟩
    · rfl
    · exact absurd rfl hlength
    · exact absurd rfl (htwo v w)
    · exact absurd rfl (hthree v w x)
    · exact absurd rfl (hfour v w x y rest)

/-- Reading the characters of values, and what fills them up. -/
theorem decodeFrom_padded (h : ∀ v ∈ vs, v < 64) : decodeFrom ⟨0, 0, 0⟩ (vs.map char ++ pads vs.length) =
    if vs.length % 4 = 1 then none else some (spelled vs) := by
  induction vs using spelled.induct with
  | case1 v w =>
    simp only [List.forall_mem_cons] at h
    rw [List.map_cons, List.cons_append, decodeFrom_first h.1, List.map_cons, List.cons_append,
      decodeFrom_second h.2.1]
    rfl
  | case2 v w x =>
    simp only [List.forall_mem_cons] at h
    rw [List.map_cons, List.cons_append, decodeFrom_first h.1, List.map_cons, List.cons_append,
      decodeFrom_second h.2.1, List.map_cons, List.cons_append, decodeFrom_third h.2.2.1]
    rfl
  | case3 v w x y rest ih =>
    simp only [List.forall_mem_cons] at h
    have hmod : (v :: w :: x :: y :: rest).length % 4 = rest.length % 4 := Nat.add_mod_right rest.length 4
    simp only [hmod, List.map_cons, List.cons_append, decodeFrom_first h.1, decodeFrom_second h.2.1,
      decodeFrom_third h.2.2.1, decodeFrom_fourth h.2.2.2.1]
    rw [List.length_cons, List.length_cons, List.length_cons, List.length_cons, pads_add_four, ih h.2.2.2.2, spelled]
    split <;> rfl
  | case4 vs htwo hthree hfour =>
    rcases vs with _ | ⟨v, _ | ⟨w, _ | ⟨x, _ | ⟨y, rest⟩⟩⟩⟩
    · rfl
    · rw [List.map_cons, List.cons_append, decodeFrom_first (h v List.mem_cons_self)]
      rfl
    · exact absurd rfl (htwo v w)
    · exact absurd rfl (hthree v w x)
    · exact absurd rfl (hfour v w x y rest)

/-- **A text of the alphabet, filled up**, is read if no character is left over; the bytes and the spare bits
spell it. -/
theorem decode_padded (h : ∀ v ∈ vs, v < 64) : decode (vs.map char ++ pads vs.length) =
    if vs.length % 4 = 1 then none else some (spelled vs) := by
  have hascii : Str.isAscii (vs.map char ++ pads vs.length) = true := by
    refine List.all_eq_true.2 fun c hc => decide_eq_true ?_
    rcases List.mem_append.1 hc with hc | hc
    · obtain ⟨v, hv, rfl⟩ := List.mem_map.1 hc
      have hle := (isDigit_char (h v hv)).plain.2.1
      omega
    · rw [List.eq_of_mem_replicate hc]
      decide
  rw [decode, if_pos hascii, decodeFrom_padded h]

/-- A text of the alphabet has values. -/
theorem exists_values {s : Str} (h : ∀ c ∈ s, ∃ v < 64, char v = c) :
    ∃ vs : List ℕ, (∀ v ∈ vs, v < 64) ∧ vs.map char = s := by
  induction s with
  | nil => exact ⟨[], nofun, rfl⟩
  | cons c s ih =>
    obtain ⟨v, hv, rfl⟩ := h c List.mem_cons_self
    obtain ⟨vs, hvs, rfl⟩ := ih fun x hx => h x (List.mem_cons_of_mem _ hx)
    exact ⟨v :: vs, List.forall_mem_cons.2 ⟨hv, hvs⟩, rfl⟩

/-- Without its padding an encoding spells the bytes without spare bits. -/
theorem rdropWhile_encode (bytes : List UInt8) :
    (encode bytes).rdropWhile (· == 0x3D) = (spell bytes 0).map char := by
  have hlast : ∀ s : Str, (∀ c ∈ s, c ≠ 0x3D) → ∀ n, (s ++ List.replicate n 0x3D).rdropWhile (· == 0x3D) = s := by
    intro s hs n
    induction n with
    | zero =>
      rw [List.replicate_zero, List.append_nil, List.rdropWhile_eq_self_iff]
      intro hne heq
      exact hs _ (List.getLast_mem hne) (beq_iff_eq.1 heq)
    | succ n ih => rw [List.replicate_succ', ← List.append_assoc, List.rdropWhile_concat_pos _ _ _ rfl, ih]
  rw [encode_eq, pads, hlast]
  intro c hc
  obtain ⟨v, hv, rfl⟩ := List.mem_map.1 hc
  exact (value_char v (spell_lt bytes v hv)).2

end Base64

end Cabin
