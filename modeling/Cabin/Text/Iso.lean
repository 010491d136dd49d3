import Cabin.Text.Basic

/-!
# ISO dates as texts

`datetime.isoformat` of an instant in UTC, at whole seconds: the Gregorian date, the time of day and the
offset, each number with a fixed number of digits.  Such texts are in the order of the instants they are for.

* `Iso.digits` and the order of texts with a fixed layout, `append_lt_append` and `field_lt`;
* `Iso.ofOrdinal` is the date with a given number, `Iso.ordinal` the number of a date;
* `Iso.isoformat_lt`, `Iso.isoformat_le` : the order of the texts is that of the instants.
-/

namespace Cabin

namespace Iso

/-! ### Fixed layouts -/

/-- Texts are compared from the left; of parts with the same length, the first that differ decide. -/
theorem append_lt_append {a a' b b' : Str} (h : a.length = a'.length) :
    a ++ b < a' ++ b' ↔ a < a' ∨ (a = a' ∧ b < b') := by
  induction a generalizing a' with
  | nil =>
    cases a' with
    | nil => simp
    | cons => cases h
  | cons x a ih =>
    cases a' with
    | nil => cases h
    | cons y a' =>
      simp only [List.cons_append, List.cons_lt_cons_iff, ih (Nat.succ.inj h), List.cons.injEq]
      constructor
      · rintro (hlt | ⟨rfl, hlt | ⟨rfl, hlt⟩⟩)
        · exact .inl (.inl hlt)
        · exact .inl (.inr ⟨rfl, hlt⟩)
        · exact .inr ⟨⟨rfl, rfl⟩, hlt⟩
      · rintro ((hlt | ⟨rfl, hlt⟩) | ⟨⟨rfl, rfl⟩, hlt⟩)
        · exact .inl hlt
        · exact .inr ⟨rfl, .inl hlt⟩
        · exact .inr ⟨rfl, .inr ⟨rfl, hlt⟩⟩

/-- The last `width` decimal digits. -/
def digits : ℕ → ℕ → Str
  | 0, _ => []
  | width + 1, n => digits width (n / 10) ++ [0x30 + n % 10]

@[simp] theorem length_digits (width n : ℕ) : (digits width n).length = width := by
  induction width generalizing n with
  | zero => rfl
  | succ width ih => rw [digits, List.length_append, ih, List.length_singleton]

theorem isDigit_digits (width n : ℕ) : ∀ c ∈ digits width n, Str.isDigit c = true := by
  induction width generalizing n with
  | zero => nofun
  | succ width ih =>
    intro c hc
    rcases List.mem_append.1 hc with hc | hc
    · exact ih _ c hc
    · obtain rfl := List.mem_singleton.1 hc
      simp only [Str.isDigit, Bool.and_eq_true, decide_eq_true_eq]
      omega

theorem digits_inj {width n m : ℕ} (hn : n < 10 ^ width) (hm : m < 10 ^ width) :
    digits width n = digits width m ↔ n = m := by
  refine ⟨fun h => ?_, fun h => h ▸ rfl⟩
  induction width generalizing n m with
  | zero => omega
  | succ width ih =>
    obtain ⟨hinit, hlast⟩ := List.append_inj h (by simp)
    have hdiv := ih (by omega) (by omega) hinit
    have hmod := List.singleton_inj.1 hlast
    omega

/-- Numbers with the same number of digits are in the order of their texts. -/
theorem digits_lt {width n m : ℕ} (hn : n < 10 ^ width) (hm : m < 10 ^ width) :
    digits width n < digits width m ↔ n < m := by
  induction width generalizing n m with
  | zero =>
    have heq : n = m := by omega
    rw [heq]
    exact iff_of_false (List.lt_irrefl _) (lt_irrefl m)
  | succ width ih =>
    rw [digits, digits, append_lt_append (by simp), ih (by omega) (by omega),
      digits_inj (by omega) (by omega), List.cons_lt_cons_iff]
    have hnil : ¬ (([] : Str) < []) := List.lt_irrefl _
    simp only [hnil, and_false, or_false]
    omega

/-- A number, a separator and the rest. -/
theorem field_lt {width n m c : ℕ} {b b' : Str} (hn : n < 10 ^ width) (hm : m < 10 ^ width) :
    digits width n ++ c :: b < digits width m ++ c :: b' ↔ n < m ∨ (n = m ∧ b < b') := by
  rw [append_lt_append (by simp), digits_lt hn hm, digits_inj hn hm, List.cons_lt_cons_iff]
  simp

/-! ### Dates -/

/-- A year with 366 days. -/
def isLeap (y : ℕ) : Bool := y % 4 == 0 && (y % 100 != 0 || y % 400 == 0)

/-- The days before the first of January. -/
def daysBeforeYear (y : ℕ) : ℕ := (y - 1) * 365 + (y - 1) / 4 - (y - 1) / 100 + (y - 1) / 400

/-- The days of a year before the first of the month. -/
def daysBeforeMonth (leap : Bool) (month : ℕ) : ℕ :=
  [0, 0, 31, 59, 90, 120, 151, 181, 212, 243, 273, 304, 334].getD month 0 + if leap && 2 < month then 1 else 0

/-- The days of a month. -/
def daysInMonth (leap : Bool) (month : ℕ) : ℕ :=
  [0, 31, 28, 31, 30, 31, 30, 31, 31, 30, 31, 30, 31].getD month 0 + if leap && month == 2 then 1 else 0

/-- The days of a year. -/
def daysInYear (y : ℕ) : ℕ := if isLeap y then 366 else 365

/-- A date. -/
structure Date where
  year : ℕ
  month : ℕ
  day : ℕ
  deriving DecidableEq, Repr

/-- The number of a date; the first of January of the year 1 has the number 1. -/
def ordinal (d : Date) : ℕ := daysBeforeYear d.year + daysBeforeMonth (isLeap d.year) d.month + d.day

/-- The year and the day of it, the first being day 0, of the `n`-th day, that one being day 0 too. -/
def yearOf (n : ℕ) : ℕ × ℕ :=
  let n400 := n / 146097
  let n100 := n % 146097 / 36524
  let n4 := n % 146097 % 36524 / 1461
  let n1 := n % 146097 % 36524 % 1461 / 365
  let year := n400 * 400 + 1 + n100 * 100 + n4 * 4 + n1
  -- The last day of a leap year would begin a year of its own.
  if n1 = 4 ∨ n100 = 4 then (year - 1, 365) else (year, n % 146097 % 36524 % 1461 % 365)

/-- The month of a day of a year: a guess that is one too large at most. -/
def monthOf (leap : Bool) (day : ℕ) : ℕ :=
  if day < daysBeforeMonth leap ((day + 50) / 32) then (day + 50) / 32 - 1 else (day + 50) / 32

/-- The date with this number. -/
def ofOrdinal (n : ℕ) : Date :=
  let (year, day) := yearOf (n - 1)
  let month := monthOf (isLeap year) day
  ⟨year, month, day - daysBeforeMonth (isLeap year) month + 1⟩

section parts

variable {a b c d : ℕ} (hb : b < 4) (hc : c < 25) (hd : d < 4)
include hb hc hd

/-- A year, by its centuries and groups of four years. -/
theorem daysBeforeYear_parts :
    daysBeforeYear (400 * a + 100 * b + 4 * c + d + 1) = 146097 * a + 36524 * b + 1461 * c + 365 * d := by
  have h4 : (400 * a + 100 * b + 4 * c + d) / 4 = 100 * a + 25 * b + c := by omega
  have h100 : (400 * a + 100 * b + 4 * c + d) / 100 = 4 * a + b := by omega
  have h400 : (400 * a + 100 * b + 4 * c + d) / 400 = a := by omega
  rw [daysBeforeYear, Nat.add_sub_cancel, h4, h100, h400]
  omega

theorem isLeap_parts : isLeap (400 * a + 100 * b + 4 * c + d + 1) = true ↔ d = 3 ∧ (c ≠ 24 ∨ b = 3) := by
  have h4 : (400 * a + 100 * b + 4 * c + d + 1) % 4 = 0 ↔ d = 3 := by omega
  have h100 : (400 * a + 100 * b + 4 * c + d + 1) % 100 = 0 ↔ d = 3 ∧ c = 24 := by omega
  have h400 : (400 * a + 100 * b + 4 * c + d + 1) % 400 = 0 ↔ d = 3 ∧ c = 24 ∧ b = 3 := by omega
  simp only [isLeap, Bool.and_eq_true, Bool.or_eq_true, beq_iff_eq, bne_iff_ne, ne_eq, h4, h100, h400]
  omega

end parts

/-- Every year has such parts. -/
theorem exists_parts {y : ℕ} (h : 1 ≤ y) :
    ∃ a b c d, b < 4 ∧ c < 25 ∧ d < 4 ∧ y = 400 * a + 100 * b + 4 * c + d + 1 :=
  ⟨(y - 1) / 400, (y - 1) % 400 / 100, (y - 1) % 100 / 4, (y - 1) % 4, by omega, by omega, by omega, by omega⟩

theorem daysBeforeYear_succ {y : ℕ} (h : 1 ≤ y) : daysBeforeYear (y + 1) = daysBeforeYear y + daysInYear y := by
  obtain ⟨a, b, c, d, hb, hc, hd, rfl⟩ := exists_parts h
  rw [daysInYear, daysBeforeYear_parts hb hc hd]
  simp only [isLeap_parts hb hc hd]
  -- The next year is in the same group, in the next one, in the next century or in the next four.
  by_cases hd3 : d = 3
  · subst hd3
    by_cases hc24 : c = 24
    · subst hc24
      by_cases hb3 : b = 3
      · subst hb3
        have hnext := daysBeforeYear_parts (a := a + 1) (b := 0) (c := 0) (d := 0) (by omega) (by omega) (by omega)
        rw [show 400 * a + 100 * 3 + 4 * 24 + 3 + 1 + 1 = 400 * (a + 1) + 100 * 0 + 4 * 0 + 0 + 1 by omega, hnext]
        simp
        omega
      · have hnext := daysBeforeYear_parts (a := a) (b := b + 1) (c := 0) (d := 0) (by omega) (by omega) (by omega)
        rw [show 400 * a + 100 * b + 4 * 24 + 3 + 1 + 1 = 400 * a + 100 * (b + 1) + 4 * 0 + 0 + 1 by omega, hnext]
        simp [hb3]
        omega
    · have hnext := daysBeforeYear_parts (a := a) (b := b) (c := c + 1) (d := 0) hb (by omega) (by omega)
      rw [show 400 * a + 100 * b + 4 * c + 3 + 1 + 1 = 400 * a + 100 * b + 4 * (c + 1) + 0 + 1 by omega, hnext]
      simp [hc24]
      omega
  · have hnext := daysBeforeYear_parts (a := a) (b := b) (c := c) (d := d + 1) hb hc (by omega)
    rw [show 400 * a + 100 * b + 4 * c + d + 1 + 1 = 400 * a + 100 * b + 4 * c + (d + 1) + 1 by omega, hnext]
    simp [hd3]
    omega

theorem daysBeforeYear_le {y y' : ℕ} (h : 1 ≤ y) (hlt : y < y') :
    daysBeforeYear y + daysInYear y ≤ daysBeforeYear y' := by
  induction y', hlt using Nat.le_induction with
  | base => exact (daysBeforeYear_succ h).ge
  | succ y' hle ih =>
    have hstep := daysBeforeYear_succ (y := y') (by omega)
    omega

/-- What `yearOf` finds. -/
theorem yearOf_spec (n : ℕ) : 1 ≤ (yearOf n).1 ∧ daysBeforeYear (yearOf n).1 + (yearOf n).2 = n ∧
    (yearOf n).2 < daysInYear (yearOf n).1 := by
  have hn400 : n = 146097 * (n / 146097) + n % 146097 := by omega
  have hn100 : n % 146097 = 36524 * (n % 146097 / 36524) + n % 146097 % 36524 := by omega
  have hn4 : n % 146097 % 36524 = 1461 * (n % 146097 % 36524 / 1461) + n % 146097 % 36524 % 1461 := by omega
  have hn1 : n % 146097 % 36524 % 1461 =
      365 * (n % 146097 % 36524 % 1461 / 365) + n % 146097 % 36524 % 1461 % 365 := by omega
  have hlt400 : n % 146097 < 146097 := Nat.mod_lt _ (by decide)
  have hlt100 : n % 146097 % 36524 < 36524 := Nat.mod_lt _ (by decide)
  have hlt4 : n % 146097 % 36524 % 1461 < 1461 := Nat.mod_lt _ (by decide)
  have hlt1 : n % 146097 % 36524 % 1461 % 365 < 365 := Nat.mod_lt _ (by decide)
  unfold yearOf
  generalize n / 146097 = a at *
  generalize n % 146097 = n₁ at *
  generalize n₁ / 36524 = b at *
  generalize n₁ % 36524 = n₂ at *
  generalize n₂ / 1461 = c at *
  generalize n₂ % 1461 = n₃ at *
  generalize n₃ / 365 = d at *
  generalize n₃ % 365 = r at *
  dsimp only
  split_ifs with hlast <;> dsimp only
  · -- The last day of four centuries, or of four years.
    by_cases hb4 : b = 4
    · obtain ⟨rfl, rfl⟩ : c = 0 ∧ d = 0 := by omega
      have hyear : a * 400 + 1 + b * 100 + 0 * 4 + 0 - 1 = 400 * a + 100 * 3 + 4 * 24 + 3 + 1 := by omega
      rw [hyear, daysInYear, daysBeforeYear_parts (a := a) (b := 3) (c := 24) (d := 3) (by omega) (by omega) (by omega),
        if_pos ((isLeap_parts (a := a) (b := 3) (c := 24) (d := 3) (by omega) (by omega) (by omega)).2 ⟨rfl, .inr rfl⟩)]
      omega
    · obtain rfl : d = 4 := hlast.resolve_right hb4
      have hyear : a * 400 + 1 + b * 100 + c * 4 + 4 - 1 = 400 * a + 100 * b + 4 * c + 3 + 1 := by omega
      have hleap : c ≠ 24 ∨ b = 3 := by omega
      rw [hyear, daysInYear, daysBeforeYear_parts (a := a) (b := b) (c := c) (d := 3) (by omega) (by omega) (by omega),
        if_pos ((isLeap_parts (a := a) (b := b) (c := c) (d := 3) (by omega) (by omega) (by omega)).2 ⟨rfl, hleap⟩)]
      omega
  · have hyear : a * 400 + 1 + b * 100 + c * 4 + d = 400 * a + 100 * b + 4 * c + d + 1 := by omega
    rw [hyear, daysInYear, daysBeforeYear_parts (a := a) (b := b) (c := c) (d := d) (by omega) (by omega) (by omega)]
    split_ifs <;> omega

/-- What `monthOf` finds. -/
theorem monthOf_spec : ∀ (leap : Bool) (day : Fin 366), day.val < (if leap then 366 else 365) →
    1 ≤ monthOf leap day ∧ monthOf leap day ≤ 12 ∧ daysBeforeMonth leap (monthOf leap day) ≤ day ∧
    day < daysBeforeMonth leap (monthOf leap day) + daysInMonth leap (monthOf leap day) := by
  decide +kernel

/-- The months come one after the other. -/
theorem daysBeforeMonth_le : ∀ (leap : Bool) (m m' : Fin 13), 1 ≤ m.val → m < m' →
    daysBeforeMonth leap m + daysInMonth leap m ≤ daysBeforeMonth leap m' := by
  decide +kernel

/-- A date of the calendar. -/
structure Date.Proper (d : Date) : Prop where
  year : 1 ≤ d.year
  month : 1 ≤ d.month ∧ d.month ≤ 12
  day : 1 ≤ d.day ∧ d.day ≤ daysInMonth (isLeap d.year) d.month

/-- Months and days have two digits. -/
theorem Date.Proper.two_digits {d : Date} (h : d.Proper) : d.month < 10 ^ 2 ∧ d.day < 10 ^ 2 := by
  have hall : ∀ (leap : Bool) (m : Fin 13), daysInMonth leap m < 32 := by decide
  obtain ⟨hlow, hhigh⟩ := h.month
  have hdays := hall (isLeap d.year) ⟨d.month, by omega⟩
  have hday := h.day
  simp only at hdays
  omega

/-- The earlier date, by year, month and day. -/
def Date.Before (d d' : Date) : Prop :=
  d.year < d'.year ∨ (d.year = d'.year ∧ (d.month < d'.month ∨ (d.month = d'.month ∧ d.day < d'.day)))

/-- A month lies in its year. -/
theorem daysBeforeMonth_add_le (y : ℕ) {m : ℕ} (h : 1 ≤ m) (hm : m ≤ 12) :
    daysBeforeMonth (isLeap y) m + daysInMonth (isLeap y) m ≤ daysInYear y := by
  have hall : ∀ (leap : Bool) (m : Fin 13), 1 ≤ m.val →
      daysBeforeMonth leap m + daysInMonth leap m ≤ if leap then 366 else 365 := by decide +kernel
  exact hall (isLeap y) ⟨m, by omega⟩ h

theorem ordinal_lt {d d' : Date} (hd : d.Proper) (hd' : d'.Proper) (h : d.Before d') : ordinal d < ordinal d' := by
  unfold ordinal
  have hday := hd.day
  have hday' := hd'.day
  rcases h with hyear | ⟨hyear, hmonth | ⟨hmonth, hlt⟩⟩
  · have hle := daysBeforeYear_le hd.year hyear
    have hin := daysBeforeMonth_add_le d.year hd.month.1 hd.month.2
    omega
  · rw [← hyear]
    have hle := daysBeforeMonth_le (isLeap d.year) ⟨d.month, by have := hd.month; omega⟩
      ⟨d'.month, by have := hd'.month; omega⟩ hd.month.1 hmonth
    simp only at hle
    omega
  · rw [← hyear, ← hmonth]
    omega

/-- The date with a number is one, and has that number. -/
theorem ofOrdinal_spec {n : ℕ} (h : 1 ≤ n) : (ofOrdinal n).Proper ∧ ordinal (ofOrdinal n) = n := by
  obtain ⟨hyear, hsum, hday⟩ := yearOf_spec (n - 1)
  unfold ofOrdinal
  generalize yearOf (n - 1) = p at hyear hsum hday
  obtain ⟨year, day⟩ := p
  simp only at hyear hsum hday ⊢
  have hlt : day < 366 := by
    unfold daysInYear at hday
    split_ifs at hday <;> omega
  obtain ⟨hlow, hhigh, hbefore, hafter⟩ := monthOf_spec (isLeap year) ⟨day, hlt⟩ hday
  simp only at hlow hhigh hbefore hafter
  refine ⟨⟨hyear, ⟨hlow, hhigh⟩, Nat.le_add_left 1 _, by simp only; omega⟩, ?_⟩
  simp only [ordinal]
  omega

theorem Date.before_trichotomy (d d' : Date) : d.Before d' ∨ d = d' ∨ d'.Before d := by
  obtain ⟨y, m, k⟩ := d
  obtain ⟨y', m', k'⟩ := d'
  simp only [Date.Before, Date.mk.injEq]
  omega

/-- **Dates are in the order of their numbers.** -/
theorem ofOrdinal_before {n n' : ℕ} (h : 1 ≤ n) (h' : 1 ≤ n') :
    (ofOrdinal n).Before (ofOrdinal n') ↔ n < n' := by
  obtain ⟨hproper, hord⟩ := ofOrdinal_spec h
  obtain ⟨hproper', hord'⟩ := ofOrdinal_spec h'
  refine ⟨fun hlt => by rw [← hord, ← hord']; exact ordinal_lt hproper hproper' hlt, fun hlt => ?_⟩
  rcases Date.before_trichotomy (ofOrdinal n) (ofOrdinal n') with hbefore | heq | hafter
  · exact hbefore
  · rw [← hord, ← hord', heq] at hlt
    exact absurd hlt (lt_irrefl _)
  · have hgt := ordinal_lt hproper' hproper hafter
    omega

/-- Years of dates have four digits. -/
theorem year_ofOrdinal {n : ℕ} (h : 1 ≤ n) (hn : n ≤ 3652059) : (ofOrdinal n).year < 10 ^ 4 := by
  obtain ⟨hproper, hord⟩ := ofOrdinal_spec h
  by_contra hlarge
  have hle : _ ≤ daysBeforeYear (ofOrdinal n).year := daysBeforeYear_le (y := 9999) (by decide) (by omega)
  have hlast : daysBeforeYear 9999 + daysInYear 9999 = 3652059 := by decide
  have hday := hproper.day
  unfold ordinal at hord
  omega

/-! ### Texts -/

/-- The second before which there are no dates, counted from 1970. -/
def firstSecond : ℤ := -62135596800

/-- The second from which there are no dates. -/
def endSecond : ℤ := 253402300800

/-- `datetime.isoformat` in UTC, of a whole second. -/
def isoformat (t : ℤ) : Str :=
  let n := (t - firstSecond).toNat
  let d := ofOrdinal (n / 86400 + 1)
  digits 4 d.year ++ 0x2D :: (digits 2 d.month ++ 0x2D :: (digits 2 d.day ++ 0x54 ::
    (digits 2 (n % 86400 / 3600) ++ 0x3A :: (digits 2 (n % 3600 / 60) ++ 0x3A ::
      (digits 2 (n % 60) ++ Str.of "+00:00")))))

example : isoformat 1709210096 = Str.of "2024-02-29T12:34:56+00:00" := by decide

theorem lt_of_mem_isoformat {t : ℤ} {c : ℕ} (h : c ∈ isoformat t) : c < 0x80 := by
  have hdigit : ∀ width n, c ∈ digits width n → c < 0x80 := fun width n hc => by
    have hrange := isDigit_digits width n c hc
    simp only [Str.isDigit, Bool.and_eq_true, decide_eq_true_eq] at hrange
    omega
  have hoffset : c ∈ Str.of "+00:00" → c < 0x80 := (show ∀ c ∈ Str.of "+00:00", c < 0x80 by decide) c
  simp only [isoformat, List.mem_append, List.mem_cons] at h
  rcases h with h | rfl | h | rfl | h | rfl | h | rfl | h | rfl | h | h
  all_goals first | exact hdigit _ _ h | exact hoffset h | decide

/-- **Texts of instants are in the order of the instants.** -/
theorem isoformat_lt {t t' : ℤ} (h : firstSecond ≤ t) (hend : t < endSecond) (h' : firstSecond ≤ t')
    (hend' : t' < endSecond) : isoformat t < isoformat t' ↔ t < t' := by
  unfold firstSecond at h h'
  unfold endSecond at hend hend'
  have hn : (t - firstSecond).toNat < 315537897600 := by unfold firstSecond; omega
  have hn' : (t' - firstSecond).toNat < 315537897600 := by unfold firstSecond; omega
  have hlt : t < t' ↔ (t - firstSecond).toNat < (t' - firstSecond).toNat := by unfold firstSecond; omega
  rw [hlt, isoformat, isoformat]
  generalize (t - firstSecond).toNat = n at hn
  generalize (t' - firstSecond).toNat = n' at hn'
  have hyear := year_ofOrdinal (n := n / 86400 + 1) (by omega) (by omega)
  have hyear' := year_ofOrdinal (n := n' / 86400 + 1) (by omega) (by omega)
  have hbefore : (ofOrdinal (n / 86400 + 1)).Before (ofOrdinal (n' / 86400 + 1)) ↔ _ :=
    ofOrdinal_before (by omega) (by omega)
  have hbefore' : (ofOrdinal (n' / 86400 + 1)).Before (ofOrdinal (n / 86400 + 1)) ↔ _ :=
    ofOrdinal_before (by omega) (by omega)
  obtain ⟨hproper, -⟩ := ofOrdinal_spec (n := n / 86400 + 1) (by omega)
  obtain ⟨hproper', -⟩ := ofOrdinal_spec (n := n' / 86400 + 1) (by omega)
  obtain ⟨hmonth, hday⟩ := hproper.two_digits
  obtain ⟨hmonth', hday'⟩ := hproper'.two_digits
  rw [field_lt hyear hyear', field_lt hmonth hmonth', field_lt hday hday', field_lt (by omega) (by omega),
    field_lt (by omega) (by omega), append_lt_append (by simp), digits_lt (by omega) (by omega)]
  have hrefl : ¬ Str.of "+00:00" < Str.of "+00:00" := List.lt_irrefl _
  simp only [hrefl, and_false, or_false]
  -- The date decides, or it is one day.
  have hdate : (ofOrdinal (n / 86400 + 1)).Before (ofOrdinal (n' / 86400 + 1)) ∨ n / 86400 = n' / 86400 ∨
      (ofOrdinal (n' / 86400 + 1)).Before (ofOrdinal (n / 86400 + 1)) := by
    rw [hbefore, hbefore']
    omega
  rcases hdate with hlt | heq | hlt
  · have hnn := hbefore.1 hlt
    unfold Date.Before at hlt
    exact iff_of_true (by omega) (by omega)
  · rw [heq]
    simp only [lt_irrefl, true_and, false_or]
    omega
  · have hnn := hbefore'.1 hlt
    unfold Date.Before at hlt
    exact iff_of_false (by omega) (by omega)

theorem isoformat_le {t t' : ℤ} (h : firstSecond ≤ t) (hend : t < endSecond) (h' : firstSecond ≤ t')
    (hend' : t' < endSecond) : isoformat t ≤ isoformat t' ↔ t ≤ t' := by
  rw [← not_lt, isoformat_lt h' hend' h hend]
  exact Int.not_lt

end Iso

end Cabin
