import Mathlib.Tactic.IntervalCases
import Mathlib.Tactic.Ring
import Cabin.Text.Basic

/-!
# Digits

Numbers as texts.  Python has two notions of a digit: `str.isdigit` is true of characters that `int` does not read,
such as superscripts, and `int` reads the decimal digits of every script.  Which characters these are comes from the
tables of Unicode, so a `DigitTable` is a parameter, with what is relied on as fields.

* `DigitTable.isDigits`, `DigitTable.value` are `str.isdigit` and the number that decimal digits denote;
* `DigitTable.value_ofNat` : what `str` writes, `int` reads.
-/

namespace Cabin

namespace Str

theorem ofNat_eq (n : ℕ) : ofNat n = (Nat.toDigits 10 n).map Char.toNat := by
  simp [ofNat, of]

theorem isDigit_of_mem_ofNat {n c : ℕ} (h : c ∈ ofNat n) : 0x30 ≤ c ∧ c ≤ 0x39 := by
  rw [ofNat_eq] at h
  obtain ⟨x, hx, rfl⟩ := List.mem_map.1 h
  exact Char.isDigit_iff_toNat.1 (Nat.isDigit_of_mem_toDigits (by decide) (by decide) hx)

theorem ofNat_ne_nil (n : ℕ) : ofNat n ≠ [] := by
  rw [ofNat_eq]
  exact mt List.map_eq_nil_iff.1 Nat.toDigits_ne_nil

/-- No other number than zero begins with a zero. -/
theorem head?_toDigits {n : ℕ} (h : 0 < n) : (Nat.toDigits 10 n).head? ≠ some '0' := by
  induction n using Nat.strong_induction_on with
  | h n ih =>
    rw [Nat.toDigits_eq_if (by decide)]
    split_ifs with hsmall
    · interval_cases n <;> decide
    · have hhead : (Nat.toDigits 10 (n / 10) ++ [(n % 10).digitChar]).head? = (Nat.toDigits 10 (n / 10)).head? :=
        List.head?_append_of_ne_nil _ Nat.toDigits_ne_nil
      rw [hhead]
      exact ih (n / 10) (by omega) (by omega)

theorem head?_ofNat {n : ℕ} (h : (ofNat n).head? = some 0x30) : ofNat n = [0x30] := by
  rcases Nat.eq_zero_or_pos n with rfl | hpos
  · decide
  · rw [ofNat_eq, List.head?_map, Option.map_eq_some_iff] at h
    obtain ⟨c, hc, hzero⟩ := h
    obtain rfl : c = '0' := Char.toNat_inj.1 hzero
    exact absurd hc (head?_toDigits hpos)

theorem lt_of_mem_toDigits {n : ℕ} {x : Char} (h : x ∈ Nat.toDigits 16 n) : x.toNat < 0x80 := by
  have hdigit : ∀ d < 16, (Nat.digitChar d).toNat < 0x80 := by decide
  induction n using Nat.strong_induction_on with
  | h n ih =>
    rw [Nat.toDigits_eq_if (by decide)] at h
    split_ifs at h with hsmall
    · exact List.mem_singleton.1 h ▸ hdigit n hsmall
    · rcases List.mem_append.1 h with h | h
      · exact ih (n / 16) (by omega) h
      · exact List.mem_singleton.1 h ▸ hdigit (n % 16) (Nat.mod_lt _ (by decide))

/-- Digits in base 16 are in ASCII. -/
theorem lt_of_mem_hex {width n c : ℕ} (h : c ∈ of (hex width n)) : c < 0x80 := by
  obtain ⟨x, hx, rfl⟩ := List.mem_map.1 h
  simp only [hex, String.toList_ofList, List.mem_append] at hx
  rcases hx with hx | hx
  · rw [List.eq_of_mem_replicate hx]
    decide
  · exact lt_of_mem_toDigits hx

/-- How many digits a number has. -/
theorem length_ofNat_le_iff {n k : ℕ} (h : 0 < k) : (ofNat n).length ≤ k ↔ n < 10 ^ k := by
  rw [ofNat_eq, List.length_map]
  exact Nat.length_toDigits_le_iff (by decide) h

end Str

/-- What the tables of Unicode say of digits. -/
structure DigitTable where
  /-- `str.isdigit` of a character. -/
  isdigit : ℕ → Bool
  /-- The value of a decimal digit. -/
  decimal? : ℕ → Option ℕ
  isdigit_of_decimal : ∀ c, (decimal? c).isSome → isdigit c = true
  decimal_lt : ∀ c, ∀ v ∈ decimal? c, v < 10
  isdigit_ascii : ∀ c < 128, isdigit c = Str.isDigit c
  decimal_ascii : ∀ c, Str.isDigit c = true → decimal? c = some (c - 0x30)

namespace DigitTable

/-- The tables as far as Latin-1 goes: there are the ASCII digits, and three superscripts. -/
def latin1 : DigitTable where
  isdigit c := Str.isDigit c || c == 0xB2 || c == 0xB3 || c == 0xB9
  decimal? c := if Str.isDigit c then some (c - 0x30) else none
  isdigit_of_decimal c h := by
    by_cases hdigit : Str.isDigit c = true
    · rw [hdigit]
      rfl
    · rw [if_neg hdigit] at h
      cases h
  decimal_lt c v h := by
    split_ifs at h with hdigit
    · simp only [Str.isDigit, Bool.and_eq_true, decide_eq_true_eq] at hdigit
      obtain rfl := Option.some.inj h
      omega
    · cases h
  isdigit_ascii c h := by
    have hother : (c == 0xB2) = false ∧ (c == 0xB3) = false ∧ (c == 0xB9) = false := by
      simp only [beq_eq_false_iff_ne]
      omega
    rw [hother.1, hother.2.1, hother.2.2, Bool.or_false, Bool.or_false, Bool.or_false]
  decimal_ascii c h := if_pos h

variable (D : DigitTable) {s : Str}

/-- `str.isdigit`. -/
def isDigits (s : Str) : Bool := !s.isEmpty && s.all D.isdigit

/-- All characters are decimal digits. -/
def isDecimals (s : Str) : Bool := s.all fun c => (D.decimal? c).isSome

/-- The number that decimal digits denote. -/
def value (s : Str) : ℕ := s.foldl (fun n c => 10 * n + (D.decimal? c).getD 0) 0

variable {D}

theorem isDigits_iff : D.isDigits s = true ↔ s ≠ [] ∧ ∀ c ∈ s, D.isdigit c = true := by
  simp [isDigits]

/-- In ASCII both notions of a digit are the same. -/
theorem isDigits_of_isAscii (h : s.isAscii = true) : D.isDigits s = true ↔ s ≠ [] ∧ s.all Str.isDigit = true := by
  have hchar : ∀ c ∈ s, (D.isdigit c = true ↔ Str.isDigit c = true) := fun c hc => by
    rw [D.isdigit_ascii c (of_decide_eq_true (List.all_eq_true.1 h c hc))]
  rw [isDigits_iff, List.all_eq_true]
  exact and_congr_right fun _ => forall₂_congr hchar

theorem isDecimals_of_isDigit (h : s.all Str.isDigit = true) : D.isDecimals s = true := by
  refine List.all_eq_true.2 fun c hc => ?_
  rw [D.decimal_ascii c (List.all_eq_true.1 h c hc)]
  rfl

/-- ASCII digits denote what they always do. -/
theorem value_of_isDigit (h : s.all Str.isDigit = true) :
    D.value s = s.foldl (fun n c => 10 * n + (c - 0x30)) 0 := by
  refine List.foldl_ext _ _ 0 fun n c hc => ?_
  rw [D.decimal_ascii c (List.all_eq_true.1 h c hc), Option.getD_some]

/-- A number is below the power of its digits. -/
theorem value_lt (s : Str) : D.value s < 10 ^ s.length := by
  have hdigit : ∀ c, (D.decimal? c).getD 0 < 10 := fun c => by
    cases h : D.decimal? c with
    | none => exact Nat.zero_lt_succ 9
    | some v => exact D.decimal_lt c v h
  have hfold : ∀ (s : Str) (n : ℕ),
      s.foldl (fun n c => 10 * n + (D.decimal? c).getD 0) n < (n + 1) * 10 ^ s.length := by
    intro s
    induction s with
    | nil => simp
    | cons c s ih =>
      intro n
      have hc := hdigit c
      calc s.foldl (fun n c => 10 * n + (D.decimal? c).getD 0) (10 * n + (D.decimal? c).getD 0)
          < (10 * n + (D.decimal? c).getD 0 + 1) * 10 ^ s.length := ih _
        _ ≤ (10 * (n + 1)) * 10 ^ s.length := Nat.mul_le_mul_right _ (by omega)
        _ = (n + 1) * 10 ^ (c :: s).length := by rw [List.length_cons, Nat.pow_succ]; ring
  simpa [value] using hfold s 0

theorem all_isDigit_ofNat (n : ℕ) : (Str.ofNat n).all Str.isDigit = true := by
  refine List.all_eq_true.2 fun c hc => ?_
  simpa [Str.isDigit] using Str.isDigit_of_mem_ofNat hc

/-- **What `str` writes, `int` reads.** -/
theorem value_ofNat (n : ℕ) : D.value (Str.ofNat n) = n := by
  rw [value_of_isDigit (all_isDigit_ofNat n), Str.ofNat_eq, List.foldl_map]
  exact Nat.ofDigitChars_eq_foldl.symm.trans Nat.ofDigitChars_ten_toDigits

end DigitTable

end Cabin
