import Cabin.Text.Utf8

/-!
# Decoding with replacement

`bytes.decode("utf-8", errors="replace")`: the decoder goes over the bytes one by one, and where a byte does
not go on with the code point that has begun, what has been read of it becomes one U+FFFD and the byte begins
anew.  So every text of bytes is defined, and only ASCII bytes have an ASCII text.

* `Str.decodeReplace` is the decoder, `Str.Partial` a code point that has begun;
* `Str.decodeReplace_eq_iff`: the bytes of an ASCII text are the text.
-/

namespace Cabin

namespace Str

/-- What stands for bytes that are no code point. -/
def replacement : ℕ := 0xFFFD

/-- A code point that has begun: how many bytes are missing, the bounds of the next one, and the bits so far. -/
structure Partial where
  /-- How many bytes follow the next one. -/
  after : ℕ
  /-- The least the next byte may be. -/
  low : ℕ
  /-- The greatest the next byte may be. -/
  high : ℕ
  /-- The bits so far. -/
  bits : ℕ
  deriving DecidableEq, Repr

/-- What a first byte begins. -/
def lead? (b : ℕ) : Option Partial :=
  if 0xC2 ≤ b ∧ b < 0xE0 then some ⟨0, 0x80, 0xBF, b - 0xC0⟩
  else if b = 0xE0 then some ⟨1, 0xA0, 0xBF, 0⟩
  else if b = 0xED then some ⟨1, 0x80, 0x9F, 0xD⟩
  else if 0xE1 ≤ b ∧ b < 0xF0 then some ⟨1, 0x80, 0xBF, b - 0xE0⟩
  else if b = 0xF0 then some ⟨2, 0x90, 0xBF, 0⟩
  else if 0xF1 ≤ b ∧ b < 0xF4 then some ⟨2, 0x80, 0xBF, b - 0xF0⟩
  else if b = 0xF4 then some ⟨2, 0x80, 0x8F, 4⟩
  else none

/-- A byte between code points: what is complete with it, and what has begun. -/
def decodeFirst (b : ℕ) : Str × Option Partial :=
  if b < 0x80 then ([b], none)
  else match lead? b with
    | some p => ([], some p)
    | none => ([replacement], none)

/-- The next byte. -/
def decodeNext (b : ℕ) : Option Partial → Str × Option Partial
  | none => decodeFirst b
  | some p =>
    if p.low ≤ b ∧ b ≤ p.high then
      match p.after with
      | 0 => ([p.bits * 0x40 + (b - 0x80)], none)
      | n + 1 => ([], some ⟨n, 0x80, 0xBF, p.bits * 0x40 + (b - 0x80)⟩)
    else (replacement :: (decodeFirst b).1, (decodeFirst b).2)

/-- The rest of the bytes. -/
def decodeRest : Option Partial → List ℕ → Str
  | none, [] => []
  | some _, [] => [replacement]
  | p, b :: bs => (decodeNext b p).1 ++ decodeRest (decodeNext b p).2 bs

/-- `bytes.decode("utf-8", errors="replace")`. -/
def decodeReplace (bs : List ℕ) : Str := decodeRest none bs

/-- A truncated euro sign, a stray continuation, and an encoded surrogate. -/
example : decodeReplace [0x61, 0xE2, 0x82, 0x62, 0xAC, 0xED, 0xA0, 0x80] =
    [0x61, 0xFFFD, 0x62, 0xFFFD, 0xFFFD, 0xFFFD, 0xFFFD] := by decide

/-! ### ASCII -/

/-- What begins this way does not end below `0x80`. -/
def Partial.IsLong (p : Partial) : Prop :=
  0x80 ≤ p.low ∧ 0x80 ≤ (p.bits * 0x40 + (p.low - 0x80)) * 0x40 ^ p.after

theorem isLong_lead {b : ℕ} {p : Partial} (h : lead? b = some p) : p.IsLong := by
  unfold lead? at h
  split_ifs at h <;> obtain rfl := Option.some.inj h <;> simp only [Partial.IsLong] <;> omega

theorem isLong_next {p : Partial} {n b : ℕ} (h : p.IsLong) (hn : p.after = n + 1) (hb : p.low ≤ b) :
    Partial.IsLong ⟨n, 0x80, 0xBF, p.bits * 0x40 + (b - 0x80)⟩ := by
  obtain ⟨hlow, hlong⟩ := h
  refine ⟨le_rfl, hlong.trans ?_⟩
  rw [hn, Nat.pow_succ', ← Nat.mul_assoc]
  have hle : (p.bits * 0x40 + (p.low - 0x80)) * 0x40 ≤ (p.bits * 0x40 + (b - 0x80)) * 0x40 + (0x80 - 0x80) := by omega
  exact Nat.mul_le_mul_right _ hle

/-- What has begun is not ASCII in the end. -/
theorem exists_wide_of_begun (bs : List ℕ) {p : Partial} (h : p.IsLong) :
    ∃ c ∈ decodeRest (some p) bs, 0x80 ≤ c := by
  induction bs generalizing p with
  | nil => exact ⟨replacement, List.mem_singleton_self _, by decide⟩
  | cons b bs ih =>
    simp only [decodeRest, decodeNext]
    split_ifs with hb
    · split
      · rename_i hn
        refine ⟨p.bits * 0x40 + (b - 0x80), by simp, ?_⟩
        have hlong := h.2
        rw [hn, Nat.pow_zero, Nat.mul_one] at hlong
        omega
      · rename_i n hn
        exact ih (isLong_next h hn hb.1)
    · exact ⟨replacement, by simp, by decide⟩

/-- **Only ASCII bytes have an ASCII text**, which is the same. -/
theorem decodeReplace_eq_iff {bs : List ℕ} {s : Str} (hs : ∀ c ∈ s, c < 0x80) : decodeReplace bs = s ↔ bs = s := by
  unfold decodeReplace
  induction bs generalizing s with
  | nil => simp [decodeRest]
  | cons b bs ih =>
    simp only [decodeRest, decodeNext, decodeFirst]
    split_ifs with hb
    · cases s with
      | nil => simp
      | cons c s =>
        simp only [List.singleton_append, List.cons.injEq, ih fun x hx => hs x (List.mem_cons_of_mem _ hx)]
    · -- The byte is none of the text, and what becomes of it is none either.
      have hnot : b :: bs ≠ s := fun h => hb (hs b (h ▸ List.mem_cons_self))
      refine iff_of_false (fun h => ?_) hnot
      cases hlead : lead? b with
      | none =>
        rw [hlead] at h
        exact absurd (hs replacement (h ▸ List.mem_cons_self)) (by decide)
      | some p =>
        rw [hlead] at h
        obtain ⟨c, hc, hwide⟩ := exists_wide_of_begun bs (isLong_lead hlead)
        exact absurd (hs c (h ▸ List.mem_append_right _ hc)) (by omega)

/-! ### Surrogates -/

/-- What begins this way does not end as a surrogate. -/
def Partial.IsScalar (p : Partial) : Prop :=
  (p.bits * 0x40 + (p.high - 0x80) + 1) * 0x40 ^ p.after ≤ 0xD800 ∨
    0xE000 ≤ (p.bits * 0x40 + (p.low - 0x80)) * 0x40 ^ p.after

theorem isScalar_lead {b : ℕ} {p : Partial} (h : lead? b = some p) : p.IsScalar := by
  unfold lead? at h
  split_ifs at h <;> obtain rfl := Option.some.inj h <;> simp only [Partial.IsScalar] <;> omega

theorem isScalar_next {p : Partial} {n b : ℕ} (h : p.IsScalar) (hn : p.after = n + 1) (hlow : p.low ≤ b)
    (hhigh : b ≤ p.high) : Partial.IsScalar ⟨n, 0x80, 0xBF, p.bits * 0x40 + (b - 0x80)⟩ := by
  rw [Partial.IsScalar, hn, Nat.pow_succ', ← Nat.mul_assoc, ← Nat.mul_assoc] at h
  rcases h with h | h
  · refine .inl ((Nat.mul_le_mul_right (0x40 ^ n) ?_).trans h)
    dsimp only
    omega
  · refine .inr (h.trans (Nat.mul_le_mul_right (0x40 ^ n) ?_))
    dsimp only
    omega

theorem not_isSurrogate_decodeFirst {b c : ℕ} (hc : c ∈ (decodeFirst b).1) : isSurrogate c = false := by
  unfold decodeFirst at hc
  split_ifs at hc with hb
  · obtain rfl := List.mem_singleton.1 hc
    simp only [isSurrogate, Bool.and_eq_false_iff, decide_eq_false_iff_not]
    omega
  · split at hc
    · cases hc
    · obtain rfl := List.mem_singleton.1 hc
      decide

theorem isScalar_decodeFirst {b : ℕ} {p : Partial} (h : p ∈ (decodeFirst b).2) : p.IsScalar := by
  unfold decodeFirst at h
  split_ifs at h
  · cases h
  · split at h
    · rename_i q hq
      obtain rfl := Option.some.inj h
      exact isScalar_lead hq
    · cases h

/-- What is complete with a byte is no surrogate, and what has begun does not become one. -/
theorem decodeNext_spec {b : ℕ} {p : Option Partial} (h : ∀ q ∈ p, q.IsScalar) :
    (∀ c ∈ (decodeNext b p).1, isSurrogate c = false) ∧ ∀ q ∈ (decodeNext b p).2, q.IsScalar := by
  cases p with
  | none => exact ⟨fun c hc => not_isSurrogate_decodeFirst hc, fun q hq => isScalar_decodeFirst hq⟩
  | some p =>
    have hp := h p rfl
    simp only [decodeNext]
    split_ifs with hb
    · split
      · rename_i hn
        refine ⟨fun c hc => ?_, fun q hq => by simp at hq⟩
        simp only [List.mem_singleton] at hc
        rw [Partial.IsScalar, hn, Nat.pow_zero, Nat.mul_one, Nat.mul_one] at hp
        simp only [isSurrogate, Bool.and_eq_false_iff, decide_eq_false_iff_not]
        omega
      · rename_i n hn
        refine ⟨fun c hc => by simp at hc, fun q hq => ?_⟩
        obtain rfl := Option.some.inj hq
        exact isScalar_next hp hn hb.1 hb.2
    · refine ⟨fun c hc => ?_, fun q hq => isScalar_decodeFirst hq⟩
      rcases List.mem_cons.1 hc with rfl | hc
      · decide
      · exact not_isSurrogate_decodeFirst hc

/-- **A decoded text can be encoded**: it has no surrogates. -/
theorem not_isSurrogate_decodeReplace (bs : List ℕ) : ∀ c ∈ decodeReplace bs, isSurrogate c = false := by
  suffices h : ∀ p : Option Partial, (∀ q ∈ p, q.IsScalar) → ∀ c ∈ decodeRest p bs, isSurrogate c = false from
    h none fun q hq => by cases hq
  induction bs with
  | nil =>
    intro p _ c hc
    cases p with
    | none => cases hc
    | some p =>
      obtain rfl := List.mem_singleton.1 hc
      decide
  | cons b bs ih =>
    intro p hp c hc
    obtain ⟨hnow, hnext⟩ := decodeNext_spec (b := b) hp
    have hrest : decodeRest p (b :: bs) = (decodeNext b p).1 ++ decodeRest (decodeNext b p).2 bs := by
      cases p <;> rfl
    rw [hrest] at hc
    rcases List.mem_append.1 hc with hc | hc
    · exact hnow c hc
    · exact ih _ hnext c hc

end Str

end Cabin
