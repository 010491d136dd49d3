import Cabin.Text.Digits
import Cabin.Text.Iso
import Cabin.Users.Tokens

/-!
# The expiry of a token

The form that makes a token takes the last day of its life as a text (`web/tokens_ui.py`).  `strptime` reads it by a
regular expression whose alternatives are tried from the left: a month or a day may have one digit, a day may begin
with a blank, and the digits of a year may be any decimal digits.

* `strptime`, `parseExpiry` and `createFromForm` are the functions;
* `strptime_isoDate` : a date in its ISO form is read as it is;
* `lives_through_its_day` : a token that was made so is let in until the end of its day in UTC, and not after.
-/

namespace Cabin

open Iso

namespace Iso

/-- The largest number of a date. -/
def maxOrdinal : ℕ := 3652059

/-- The ISO form of a date. -/
def isoDate (d : Date) : Str := digits 4 d.year ++ 0x2D :: (digits 2 d.month ++ 0x2D :: digits 2 d.day)

/-- The instant a date begins at, in UTC. -/
def startOf (d : Date) : ℤ := Instant.ofSeconds (firstSecond + 86400 * ((ordinal d : ℤ) - 1))

/-- The date of an instant, in UTC. -/
def dateOf (moment : ℤ) : Date := ofOrdinal ((Instant.seconds moment - firstSecond).toNat / 86400 + 1)

end Iso

namespace Tokens

/-! ### Reading a date -/

/-- `%m`. -/
def scanMonth : Str → Option (ℕ × Str)
  | a :: b :: rest =>
    if a = 0x31 ∧ 0x30 ≤ b ∧ b ≤ 0x32 then some (10 + (b - 0x30), rest)
    else if a = 0x30 ∧ 0x31 ≤ b ∧ b ≤ 0x39 then some (b - 0x30, rest)
    else if 0x31 ≤ a ∧ a ≤ 0x39 then some (a - 0x30, b :: rest)
    else none
  | [a] => if 0x31 ≤ a ∧ a ≤ 0x39 then some (a - 0x30, []) else none
  | [] => none

section digitTable

variable (D : DigitTable)

/-- `%d`. -/
def scanDay : Str → Option (ℕ × Str)
  | a :: b :: rest =>
    if a = 0x33 ∧ 0x30 ≤ b ∧ b ≤ 0x31 then some (30 + (b - 0x30), rest)
    else if (a = 0x31 ∨ a = 0x32) ∧ (D.decimal? b).isSome then
      some (10 * (a - 0x30) + (D.decimal? b).getD 0, rest)
    else if a = 0x30 ∧ 0x31 ≤ b ∧ b ≤ 0x39 then some (b - 0x30, rest)
    else if 0x31 ≤ a ∧ a ≤ 0x39 then some (a - 0x30, b :: rest)
    else if a = 0x20 ∧ 0x31 ≤ b ∧ b ≤ 0x39 then some (b - 0x30, rest)
    else none
  | [a] => if 0x31 ≤ a ∧ a ≤ 0x39 then some (a - 0x30, []) else none
  | [] => none

/-- What follows a dash. -/
def afterDash : Str → Option Str
  | 0x2D :: rest => some rest
  | _ => none

/-- `datetime.strptime(value, "%Y-%m-%d")`; `none` is a `ValueError`. -/
def strptime (value : Str) : Option Date := do
  guard (4 ≤ value.length ∧ D.isDecimals (value.take 4) = true)
  let rest ← afterDash (value.drop 4)
  let (month, rest) ← scanMonth rest
  let rest ← afterDash rest
  let (day, rest) ← scanDay D rest
  guard (rest = [])
  let d : Date := ⟨D.value (value.take 4), month, day⟩
  guard (1 ≤ d.year ∧ d.day ≤ daysInMonth (isLeap d.year) d.month)
  pure d

/-! ### The form -/

def badDate : Refusal := .token "the expiry date must look like 2026-12-31"

def pastDate : Refusal := .token "the expiry date must be in the future"

def farDate : Refusal :=
  .token "the expiry date is too far in the future: leave it empty for a token without expiry"

/-- The instant from which a token is dead, if there is one. -/
def parseExpiry (raw : Str) (now : ℤ) : Except Refusal (Option ℤ) :=
  if raw.strip = [] then .ok none
  else match strptime D raw.strip with
    | none => .error badDate
    | some day => do
      -- The day after the last one cannot be represented.
      refuse (maxOrdinal < ordinal day + 1) farDate
      let expiresAt := startOf day + Instant.days 1
      refuse (expiresAt ≤ now) pastDate
      pure (some expiresAt)

/-- The role of a token. -/
def parseRole (raw : Str) : Except Refusal Role :=
  match [Role.superadmin, .admin, .viewer].find? fun role => role.value = raw with
  | some role => .ok role
  | none => .error (.token s!"unknown role: {raw.repr}")

/-- `tokens_ui.create_token`, up to the token. -/
def createFromForm (hashSecret : Str → Str) (tokens : Table ApiToken) (label role expiresAt drawn : Str) (now : ℤ) :
    Except Refusal (Table ApiToken × Str × ApiToken) := do
  let parsedRole ← parseRole role
  let expiry ← parseExpiry D expiresAt now
  createToken hashSecret tokens label parsedRole expiry drawn now

end digitTable

/-! ### Dates and instants -/

section dates

variable {D : DigitTable} {d d' : Date} {raw : Str} {now moment t : ℤ}

theorem ordinal_pos (h : d.Proper) : 1 ≤ ordinal d := by
  have hday := h.day
  unfold ordinal
  omega

/-- No month has more days. -/
theorem day_le (h : d.Proper) : d.day ≤ 31 := by
  have hall : ∀ (leap : Bool) (m : Fin 13), daysInMonth leap m ≤ 31 := by decide
  have hmonth := h.month
  have hle : daysInMonth (isLeap d.year) d.month ≤ 31 := hall (isLeap d.year) ⟨d.month, by omega⟩
  exact h.day.2.trans hle

/-- A date is the one with its number. -/
theorem ofOrdinal_ordinal (h : d.Proper) : ofOrdinal (ordinal d) = d := by
  obtain ⟨hproper, hord⟩ := ofOrdinal_spec (ordinal_pos h)
  rcases Date.before_trichotomy (ofOrdinal (ordinal d)) d with hbefore | heq | hafter
  · exact absurd (ordinal_lt hproper h hbefore) (by omega)
  · exact heq
  · exact absurd (ordinal_lt h hproper hafter) (by omega)

/-- The day is not over if and only if the date of the moment is not later. -/
theorem lt_endOf_iff (h : d.Proper) :
    moment < startOf d + Instant.days 1 ↔ ¬ d.Before (dateOf moment) := by
  have hpos := ordinal_pos h
  rw [dateOf, ← ofOrdinal_ordinal h, ofOrdinal_before hpos (Nat.le_add_left 1 _), ofOrdinal_ordinal h]
  unfold startOf Instant.days Instant.ofSeconds Instant.seconds firstSecond at *
  omega

theorem proper_of_strptime {value : Str} (h : strptime D value = some d) : d.Proper ∧ d.year < 10 ^ 4 := by
  simp only [strptime, Option.bind_eq_bind, Option.bind_eq_some_iff, Option.pure_def, Option.some.injEq,
    Prod.exists, Option.guard_eq_some', exists_const] at h
  obtain ⟨⟨hlength, -⟩, rest, -, month, rest', hmonth, rest'', -, day, rest''', hday, -, hvalid, rfl⟩ := h
  have hmonth_range : 1 ≤ month ∧ month ≤ 12 := by
    unfold scanMonth at hmonth
    split at hmonth
    · split_ifs at hmonth <;> cases hmonth <;> omega
    · split_ifs at hmonth
      cases hmonth
      omega
    · cases hmonth
  have hday_pos : 1 ≤ day := by
    unfold scanDay at hday
    split at hday
    · split_ifs at hday <;> cases hday <;> omega
    · split_ifs at hday
      cases hday
      omega
    · cases hday
  have hyear := D.value_lt (value.take 4)
  rw [List.length_take, min_eq_left hlength] at hyear
  exact ⟨⟨hvalid.1, hmonth_range, hday_pos, hvalid.2⟩, hyear⟩

theorem digits_two (n : ℕ) : digits 2 n = [0x30 + n / 10 % 10, 0x30 + n % 10] := rfl

theorem scanMonth_digits {month : ℕ} (h : 1 ≤ month ∧ month ≤ 12) (rest : Str) :
    scanMonth (digits 2 month ++ rest) = some (month, rest) := by
  rw [digits_two]
  simp only [List.cons_append, List.nil_append, scanMonth]
  by_cases hten : 10 ≤ month
  · rw [if_pos (by omega)]
    exact congrArg some (Prod.ext (by simp only; omega) rfl)
  · rw [if_neg (by omega), if_pos (by omega)]
    exact congrArg some (Prod.ext (by simp only; omega) rfl)

theorem scanDay_digits {day : ℕ} (h : 1 ≤ day ∧ day ≤ 31) : scanDay D (digits 2 day) = some (day, []) := by
  have hdecimal : D.decimal? (0x30 + day % 10) = some (day % 10) := by
    rw [D.decimal_ascii _ (by simp only [Str.isDigit, Bool.and_eq_true, decide_eq_true_eq]; omega)]
    exact congrArg some (by omega)
  rw [digits_two]
  simp only [scanDay, hdecimal, Option.isSome_some, Option.getD_some, and_true]
  by_cases hthirty : 30 ≤ day
  · rw [if_pos (by omega)]
    exact congrArg some (Prod.ext (by simp only; omega) rfl)
  by_cases hten : 10 ≤ day
  · rw [if_neg (by omega), if_pos (by omega)]
    exact congrArg some (Prod.ext (by simp only; omega) rfl)
  · rw [if_neg (by omega), if_neg (by omega), if_pos (by omega)]
    exact congrArg some (Prod.ext (by simp only; omega) rfl)

theorem digits_four (n : ℕ) :
    digits 4 n = [0x30 + n / 1000 % 10, 0x30 + n / 100 % 10, 0x30 + n / 10 % 10, 0x30 + n % 10] := by
  simp only [digits, List.nil_append, List.cons_append, Nat.div_div_eq_div_mul]

theorem value_digits {year : ℕ} (h : year < 10 ^ 4) : D.value (digits 4 year) = year := by
  rw [DigitTable.value_of_isDigit (List.all_eq_true.2 (isDigit_digits 4 year)), digits_four]
  simp only [List.foldl_cons, List.foldl_nil]
  omega

/-- **A date in its ISO form is read as it is.** -/
theorem strptime_isoDate (h : d.Proper) (hyear : d.year < 10 ^ 4) : strptime D (isoDate d) = some d := by
  have htake : (isoDate d).take 4 = digits 4 d.year := by
    rw [isoDate, List.take_left' (length_digits 4 _)]
  have hdrop : (isoDate d).drop 4 = 0x2D :: (digits 2 d.month ++ 0x2D :: digits 2 d.day) := by
    rw [isoDate, List.drop_left' (length_digits 4 _)]
  have hlength : 4 ≤ (isoDate d).length := by simp [isoDate]
  have hdecimals : D.isDecimals (digits 4 d.year) = true :=
    DigitTable.isDecimals_of_isDigit (List.all_eq_true.2 (isDigit_digits 4 _))
  have hday : 1 ≤ d.day ∧ d.day ≤ 31 := ⟨h.day.1, day_le h⟩
  have hvalid : 1 ≤ d.year ∧ d.day ≤ daysInMonth (isLeap d.year) d.month := ⟨h.year, h.day.2⟩
  simp only [strptime, htake, hdrop, hlength, hdecimals, and_self, guard_true, afterDash, scanMonth_digits h.month,
    scanDay_digits hday, value_digits hyear, Option.pure_def, Option.bind_eq_bind, Option.bind_some]
  rw [guard, if_pos hvalid]
  rfl

theorem strip_isoDate (d : Date) : (isoDate d).strip = isoDate d := by
  have hdigit : ∀ width n, ∀ c ∈ digits width n, Str.isSpace c = false := by
    intro width n c hc
    have hdigit := isDigit_digits width n c hc
    simp only [Str.isDigit, Bool.and_eq_true, decide_eq_true_eq] at hdigit
    exact Str.isSpace_of_range (by omega)
  refine Str.strip_of_isSpace fun c hc => ?_
  simp only [isoDate, List.mem_append, List.mem_cons] at hc
  rcases hc with hc | rfl | hc | rfl | hc
  · exact hdigit _ _ c hc
  · decide
  · exact hdigit _ _ c hc
  · decide
  · exact hdigit _ _ c hc

/-! ### The form -/

theorem parseExpiry_eq_some : parseExpiry D raw now = .ok (some t) ↔ ∃ d, strptime D raw.strip = some d ∧
    ordinal d < maxOrdinal ∧ t = startOf d + Instant.days 1 ∧ now < t := by
  unfold parseExpiry
  split_ifs with hempty
  · rw [hempty]
    simp [strptime]
  · cases hread : strptime D raw.strip with
    | none => simp
    | some d =>
      simp only [bind_eq_ok, refuse_eq_ok, pure_eq_ok, exists_const, Option.some.injEq, not_lt, not_le, exists_eq_left']
      constructor
      · rintro ⟨hfar, hpast, rfl⟩
        exact ⟨hfar, rfl, hpast⟩
      · rintro ⟨hfar, rfl, hpast⟩
        exact ⟨hfar, hpast, rfl⟩

theorem parseExpiry_eq_none : parseExpiry D raw now = .ok none ↔ raw.strip = [] := by
  unfold parseExpiry
  split_ifs with hempty
  · simp [hempty]
  · cases hread : strptime D raw.strip with
    | none => simp [hempty]
    | some d =>
      refine iff_of_false (fun h => ?_) hempty
      obtain ⟨-, -, h⟩ := bind_eq_ok.1 h
      obtain ⟨-, -, h⟩ := bind_eq_ok.1 h
      cases h

end dates

/-! ### From the form to the door -/

section tokens

variable {D : DigitTable} {hashSecret : Str → Str} {tokens tokens' : Table ApiToken} {row : ApiToken}
  {label role expiresAt drawn secret : Str} {now : ℤ}

/-- A new token is found by its secret. -/
theorem byHash_createToken {r : Role} {expiry : Option ℤ}
    (h : createToken hashSecret tokens label r expiry drawn now = .ok (tokens', secret, row)) :
    secret ≠ [] ∧ row.expiresAt = expiry ∧ row.revokedAt = none ∧ byHash tokens' (hashSecret secret) = some row := by
  simp only [createToken, bind_eq_ok, pure_eq_ok, Prod.exists, Prod.mk.injEq] at h
  obtain ⟨clean, -, table, new, hinsert, rfl, rfl, rfl⟩ := h
  unfold insertToken at hinsert
  dsimp only at hinsert
  split_ifs at hinsert with htaken
  obtain ⟨rfl, rfl⟩ := Prod.mk.inj (Except.ok.inj hinsert)
  refine ⟨by simp [tokenPrefix, Str.of], rfl, rfl, ?_⟩
  obtain ⟨found, hfound⟩ : ∃ found, byHash (tokens.upsert ⟨tokens.nextId, clean, hashSecret (tokenPrefix ++ drawn), r,
      now, none, expiry, none⟩) (hashSecret (tokenPrefix ++ drawn)) = some found := by
    rw [← Option.isSome_iff_exists, byHash, List.find?_isSome]
    exact ⟨_, Table.mem_upsert.2 (.inl rfl), by simp⟩
  obtain ⟨hmem, hhash⟩ := byHash_eq_some hfound
  -- No other token has this hash, or there would have been none.
  rcases Table.mem_upsert.1 hmem with rfl | ⟨hold, -⟩
  · exact hfound
  · refine absurd ?_ htaken
    rw [byHash, List.find?_isSome]
    exact ⟨found, hold, by simpa using hhash⟩

/-- **A token lives through its day.**  A token that was made with a date is let in at every moment up to the end of
that date in UTC, and at none after; one that was made without is let in at every moment.  Every date in ISO form
that is not over is accepted, but for the last one there is. -/
theorem lives_through_its_day (D : DigitTable) (hashSecret : Str → Str) (tokens : Table ApiToken)
    (label role expiresAt drawn : Str) (now : ℤ) :
    (∀ tokens' secret row,
      createFromForm D hashSecret tokens label role expiresAt drawn now = .ok (tokens', secret, row) →
      (expiresAt.strip = [] ∧ ∀ moment, lookUp hashSecret tokens' secret moment = some row) ∨
        ∃ d : Date, d.Proper ∧ strptime D expiresAt.strip = some d ∧ ∀ moment,
          lookUp hashSecret tokens' secret moment = some row ↔ ¬ d.Before (dateOf moment)) ∧
    ∀ d : Date, d.Proper → d.year < 10 ^ 4 → d ≠ ⟨9999, 12, 31⟩ → ¬ d.Before (dateOf now) →
      parseExpiry D (isoDate d) now = .ok (some (startOf d + Instant.days 1)) := by
  refine ⟨fun tokens' secret row h => ?_, fun d hproper hyear hlast hover => ?_⟩
  · simp only [createFromForm, bind_eq_ok] at h
    obtain ⟨r, -, expiry, hexpiry, hcreate⟩ := h
    obtain ⟨hsecret, hrowExpiry, hrevoked, hfound⟩ := byHash_createToken hcreate
    have hlookUp : ∀ moment, lookUp hashSecret tokens' secret moment =
        if expiry.any (· ≤ moment) then none else some row := fun moment => by
      simp [lookUp, hsecret, hfound, hrevoked, hrowExpiry]
    -- Without a date the token has no end; with one it ends when the day does.
    cases expiry with
    | none => exact .inl ⟨parseExpiry_eq_none.1 hexpiry, fun moment => by simp [hlookUp]⟩
    | some t =>
      obtain ⟨d, hread, -, rfl, -⟩ := parseExpiry_eq_some.1 hexpiry
      obtain ⟨hproper, -⟩ := proper_of_strptime hread
      exact .inr ⟨d, hproper, hread, fun moment => by simp [hlookUp, ← lt_endOf_iff hproper]⟩
  · refine parseExpiry_eq_some.2 ⟨d, ?_, ?_, rfl, (lt_endOf_iff hproper).2 hover⟩
    · rw [strip_isoDate, strptime_isoDate hproper hyear]
    · rcases Date.before_trichotomy d ⟨9999, 12, 31⟩ with hbefore | heq | hafter
      · have hlast : Date.Proper ⟨9999, 12, 31⟩ := ⟨by decide, by decide, by decide⟩
        have hlt := ordinal_lt hproper hlast hbefore
        have hmax : ordinal ⟨9999, 12, 31⟩ = maxOrdinal := by decide
        omega
      · exact absurd heq hlast
      · -- No month or day is later than the last.
        have hmonth := hproper.month
        have hday := day_le hproper
        simp only [Date.Before] at hafter
        omega

/-- A token for the year 2026, made in 1970. -/
theorem lives_through_its_day_2026 : ∃ tokens' secret row,
    createFromForm .latin1 id .empty (Str.of "ci") (Str.of "viewer") (Str.of "2026-12-31") (Str.of "x") 0 =
      .ok (tokens', secret, row) ∧
    ∃ d : Date, ∀ moment, lookUp id tokens' secret moment = some row ↔ ¬ d.Before (dateOf moment) := by
  cases h : createFromForm .latin1 id .empty (Str.of "ci") (Str.of "viewer") (Str.of "2026-12-31") (Str.of "x") 0 with
  | error e =>
    have hok : (createFromForm .latin1 id .empty (Str.of "ci") (Str.of "viewer") (Str.of "2026-12-31") (Str.of "x")
        0).toOption.isSome = true := by decide +kernel
    rw [h] at hok
    cases hok
  | ok made =>
    obtain ⟨tokens', secret, row⟩ := made
    refine ⟨tokens', secret, row, rfl, ?_⟩
    rcases (lives_through_its_day .latin1 id .empty _ _ _ _ 0).1 tokens' secret row h with ⟨hempty, -⟩ | ⟨d, -, -, hlives⟩
    · exact absurd hempty (by decide)
    · exact ⟨d, hlives⟩

end tokens

end Tokens

end Cabin
