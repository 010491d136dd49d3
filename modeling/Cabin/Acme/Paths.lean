import Cabin.Acme.Server
import Cabin.Text.Digits
import Cabin.Text.Loads

/-!
# Numbers in paths

The ids in the paths of the ACME server: `_certificate_id` (`acme/api_finalize.py`) reads the id of a certificate,
`issuer_in_path` (`acme/http.py`) the issuer a path is under.  The first looks whether a text is in ASCII before it
asks for digits, and how long it is; the second asks for digits only.

* `parseCertificateId` is `certificateId` with each call it makes, `parseCertificateId_eq` says that none of them fails;
* `directoryPath`, `newAccountPath` build paths, `issuerInPath` takes them apart, and `requireAcmeEnabled` is the gate
  that calls it for every request;
* `path_ids_exact` says which ids are read, and `requireAcmeEnabled_crashes_iff` what the gate makes of it.
-/

namespace Cabin

namespace Acme

namespace Paths

/-! ### Numbers and texts -/

/-- What `int` and `str` raise. -/
def valueError : Raised := .crash "ValueError"

/-- `str` of a number: a `ValueError` if it has too many digits. -/
def str (n : ℕ) : Except Raised Str := do
  refuse (Json.maxStrDigits < (Str.ofNat n).length) valueError
  pure (Str.ofNat n)

variable (D : DigitTable)

/-- `int` of a text of digits: a `ValueError` if one is not decimal, or there are too many. -/
def int (s : Str) : Except Raised ℕ := do
  refuse (D.isDecimals s = false ∨ Json.maxStrDigits < s.length) valueError
  pure (D.value s)

/-! ### Ids of certificates -/

/-- `_certificate_id`, call by call. -/
def parseCertificateId (rawId : Str) : Except Raised ℕ := do
  refuse (¬ (rawId.isAscii ∧ D.isDigits rawId) ∨ (Str.ofNat maxCertId).length < rawId.length)
    (.acme (notFound "certificate"))
  let certId ← int D rawId
  let text ← str certId
  refuse (text ≠ rawId ∨ maxCertId < certId) (.acme (notFound "certificate"))
  pure certId

/-! ### Issuers -/

/-- What the paths of an issuer start with. -/
def caPrefix : Str := Str.of "/acme/ca/"

/-- A path of an issuer. -/
def issuerPath (tail : Str) (issuerId : ℕ) : Except Raised Str := do
  let text ← str issuerId
  pure (caPrefix ++ text ++ tail)

/-- The path of an issuer's directory. -/
def directoryPath : ℕ → Except Raised Str := issuerPath (Str.of "/directory")

/-- The path of new-account at an issuer. -/
def newAccountPath : ℕ → Except Raised Str := issuerPath (Str.of "/new-account")

/-- The part of a path that names the issuer. -/
def segment (path : Str) : Str := (Str.partition 0x2F (path.drop caPrefix.length)).1

/-- Which issuer a path is under, if any. -/
def issuerInPath (path : Str) : Except Raised (Option ℕ) :=
  if caPrefix.isPrefixOf path then
    if D.isDigits (segment path) then do
      let issuerId ← int D (segment path)
      pure (some issuerId)
    else pure none
  else pure none

/-! ### The gate -/

/-- What the gate tells the middleware. -/
structure RequestState where
  acmeOrigin : Str
  acmeDirectoryPath : Option Str
  deriving DecidableEq, Repr

/-- Why a request does not pass the gate. -/
inductive Refusal where
  | http (status : ℕ) (detail : String)
  | raised (e : Raised)
  deriving DecidableEq, Repr

/-- An exception that is none of the gate's own. -/
def escapes {α : Type} : Except Raised α → Except Refusal α
  | .ok a => .ok a
  | .error e => .error (.raised e)

/-- The gate: ACME is on, and there is a base URL. -/
def requireAcmeEnabled (enabled : Bool) (base : Option Str) (path : Str) : Except Refusal RequestState := do
  refuse (enabled = false ∨ base.getD [] = []) (.http 404 "not found")
  let issuerId ← escapes (issuerInPath D path)
  match issuerId with
  | none => pure ⟨base.getD [], none⟩
  | some issuerId => do
    let directory ← escapes (directoryPath issuerId)
    pure ⟨base.getD [], some directory⟩

/-! ### Ids that are read -/

variable {D} {s path : Str} {n : ℕ}

theorem str_eq_ok : str n = .ok s ↔ n < 10 ^ Json.maxStrDigits ∧ Str.ofNat n = s := by
  simp only [str, bind_eq_ok, refuse_eq_ok, pure_eq_ok, not_lt, exists_const,
    Str.length_ofNat_le_iff (by decide : 0 < Json.maxStrDigits)]

theorem int_eq_ok : int D s = .ok n ↔ (D.isDecimals s = true ∧ s.length ≤ Json.maxStrDigits) ∧ D.value s = n := by
  simp only [int, bind_eq_ok, refuse_eq_ok, pure_eq_ok, not_or, not_lt, exists_const, Bool.not_eq_false]

theorem length_ofNat_maxCertId : (Str.ofNat maxCertId).length ≤ Json.maxStrDigits :=
  ((Str.length_ofNat_le_iff (by decide)).2 (by decide : maxCertId < 10 ^ 19)).trans (by decide)

/-- **No call fails**: a text of ASCII digits that is short is read by `int`, and its number is written by `str`. -/
theorem parseCertificateId_eq (rawId : Str) : parseCertificateId D rawId = orProblem (certificateId rawId) := by
  have hguard : (¬ (rawId.isAscii ∧ D.isDigits rawId) ∨ (Str.ofNat maxCertId).length < rawId.length) ↔
      (rawId = [] ∨ rawId.all Str.isDigit = false ∨ (Str.ofNat maxCertId).length < rawId.length) := by
    have hascii : rawId.all Str.isDigit = true → rawId.isAscii = true := fun hall =>
      List.all_eq_true.2 fun c hc => by
        have hdigit := List.all_eq_true.1 hall c hc
        simp only [Str.isDigit, Bool.and_eq_true, decide_eq_true_eq] at hdigit ⊢
        omega
    have hdigits : (rawId.isAscii ∧ D.isDigits rawId) ↔ rawId ≠ [] ∧ rawId.all Str.isDigit = true :=
      ⟨fun h => (DigitTable.isDigits_of_isAscii h.1).1 h.2,
        fun h => ⟨hascii h.2, (DigitTable.isDigits_of_isAscii (hascii h.2)).2 h⟩⟩
    rw [hdigits, not_and_or, not_not, Bool.not_eq_true, or_assoc]
  unfold parseCertificateId certificateId
  by_cases h : rawId = [] ∨ rawId.all Str.isDigit = false ∨ (Str.ofNat maxCertId).length < rawId.length
  · rw [refuse, refuse, if_pos h, if_pos (hguard.2 h)]
    rfl
  · rw [refuse, refuse, if_neg h, if_neg (hguard.not.2 h)]
    simp only [not_or, not_lt, Bool.not_eq_false] at h
    obtain ⟨-, hall, hshort⟩ := h
    have hlength := hshort.trans length_ofNat_maxCertId
    have hvalue : D.value rawId = decimal rawId := DigitTable.value_of_isDigit hall
    have hint : int D rawId = .ok (decimal rawId) :=
      int_eq_ok.2 ⟨⟨DigitTable.isDecimals_of_isDigit hall, hlength⟩, hvalue⟩
    have hstr : str (decimal rawId) = .ok (Str.ofNat (decimal rawId)) :=
      str_eq_ok.2 ⟨hvalue ▸ (DigitTable.value_lt rawId).trans_le (Nat.pow_le_pow_right (by decide) hlength), rfl⟩
    simp only [bind, Except.bind, hint, hstr, refuse]
    split_ifs <;> rfl

theorem certificateId_eq_ok : certificateId s = .ok n ↔ s = Str.ofNat n ∧ n ≤ maxCertId := by
  simp only [certificateId, bind_eq_ok, refuse_eq_ok, pure_eq_ok, exists_const, not_or, not_not, not_lt]
  constructor
  · rintro ⟨-, ⟨htext, hmax⟩, rfl⟩
    exact ⟨htext.symm, hmax⟩
  · rintro ⟨rfl, hmax⟩
    have hall := DigitTable.all_isDigit_ofNat n
    have hdecimal : decimal (Str.ofNat n) = n :=
      (DigitTable.value_of_isDigit hall).symm.trans (DigitTable.value_ofNat (D := .latin1) n)
    have hlength : 0 < (Str.ofNat maxCertId).length := List.length_pos_iff.2 (Str.ofNat_ne_nil _)
    have hle := (Str.length_ofNat_le_iff hlength).1 le_rfl
    rw [hdecimal]
    exact ⟨⟨Str.ofNat_ne_nil n, by simp [hall], (Str.length_ofNat_le_iff hlength).2 (hmax.trans_lt hle)⟩,
      ⟨rfl, hmax⟩, rfl⟩

theorem eq_of_certificateId_eq_error {e : AcmeError} (h : certificateId s = .error e) :
    e = notFound "certificate" := by
  unfold certificateId at h
  rcases bind_eq_error.1 h with h | ⟨-, -, h⟩
  · exact (refuse_eq_error.1 h).2.symm
  · rcases bind_eq_error.1 h with h | ⟨-, -, h⟩
    · exact (refuse_eq_error.1 h).2.symm
    · cases h

/-! ### Issuers that are read -/

/-- The part of a path that names the issuer can be read: if it is digits, they are decimal, and not too many. -/
def Readable (D : DigitTable) (path : Str) : Prop :=
  caPrefix <+: path → D.isDigits (segment path) = true →
    D.isDecimals (segment path) = true ∧ (segment path).length ≤ Json.maxStrDigits

/-- The part of a path that names the issuer is a number in decimal digits. -/
structure Names (D : DigitTable) (path : Str) (n : ℕ) : Prop where
  prefixed : caPrefix <+: path
  ne_nil : segment path ≠ []
  decimals : D.isDecimals (segment path) = true
  value : D.value (segment path) = n

theorem segment_built {tail : Str} (hslash : tail.head? = some 0x2F) (n : ℕ) :
    segment (caPrefix ++ Str.ofNat n ++ tail) = Str.ofNat n := by
  cases tail with
  | nil => cases hslash
  | cons c tail =>
    obtain rfl := Option.some.inj hslash
    rw [segment, List.append_assoc, List.drop_left, Str.partition_append]
    intro c hc
    have hdigit := Str.isDigit_of_mem_ofNat hc
    omega

theorem issuerInPath_eq_some : issuerInPath D path = .ok (some n) ↔
    caPrefix <+: path ∧ D.isDigits (segment path) = true ∧ int D (segment path) = .ok n := by
  unfold issuerInPath
  split_ifs with hunder hdigits
  · simp only [bind_eq_ok, pure_eq_ok, Option.some.injEq, exists_eq_right, hdigits, true_and]
    exact (and_iff_right (List.isPrefixOf_iff_prefix.1 hunder)).symm
  · exact iff_of_false (by simp) fun h => hdigits h.2.1
  · exact iff_of_false (by simp) fun h => hunder (List.isPrefixOf_iff_prefix.2 h.1)

/-- An issuer that is read is named. -/
theorem names_of_issuerInPath (h : issuerInPath D path = .ok (some n)) : Names D path n := by
  obtain ⟨hunder, hdigits, hint⟩ := issuerInPath_eq_some.1 h
  obtain ⟨⟨hdecimals, -⟩, hvalue⟩ := int_eq_ok.1 hint
  exact ⟨hunder, (DigitTable.isDigits_iff.1 hdigits).1, hdecimals, hvalue⟩

/-- An issuer that is read can be written. -/
theorem lt_of_issuerInPath (h : issuerInPath D path = .ok (some n)) : n < 10 ^ Json.maxStrDigits := by
  obtain ⟨-, -, hint⟩ := issuerInPath_eq_some.1 h
  obtain ⟨⟨-, hlength⟩, rfl⟩ := int_eq_ok.1 hint
  exact (DigitTable.value_lt _).trans_le (Nat.pow_le_pow_right (by decide) hlength)

/-- **Nothing is raised** exactly if the part that names the issuer can be read. -/
theorem issuerInPath_returns_iff : (∃ issuerId, issuerInPath D path = .ok issuerId) ↔ Readable D path := by
  unfold issuerInPath
  by_cases hunder : caPrefix <+: path
  · rw [if_pos (List.isPrefixOf_iff_prefix.2 hunder)]
    by_cases hdigits : D.isDigits (segment path) = true
    · rw [if_pos hdigits]
      simp only [bind_eq_ok, pure_eq_ok, int_eq_ok]
      constructor
      · rintro ⟨-, n, ⟨hread, -⟩, -⟩ - -
        exact hread
      · intro h
        exact ⟨_, _, ⟨h hunder hdigits, rfl⟩, rfl⟩
    · rw [if_neg hdigits]
      exact iff_of_true ⟨none, rfl⟩ fun _ h => absurd h hdigits
  · rw [if_neg (mt List.isPrefixOf_iff_prefix.1 hunder)]
    exact iff_of_true ⟨none, rfl⟩ fun h => absurd h hunder

theorem issuerPath_eq_ok {tail : Str} : issuerPath tail n = .ok path ↔
    n < 10 ^ Json.maxStrDigits ∧ caPrefix ++ Str.ofNat n ++ tail = path := by
  simp only [issuerPath, bind_eq_ok, pure_eq_ok, str_eq_ok]
  constructor
  · rintro ⟨text, ⟨hn, rfl⟩, rfl⟩
    exact ⟨hn, rfl⟩
  · rintro ⟨hn, rfl⟩
    exact ⟨_, ⟨hn, rfl⟩, rfl⟩

/-- The path that requests for a new account are checked against. -/
theorem newAccountPath_eq (hn : n < 10 ^ Json.maxStrDigits) : newAccountPath n = .ok (Acme.newAccountPath n) := by
  refine issuerPath_eq_ok.2 ⟨hn, ?_⟩
  simp only [Acme.newAccountPath, Str.of, String.toList_append, List.map_append]
  rfl

/-- A path that is built for an issuer names it, if `str` can write its number. -/
theorem issuerInPath_built {tail : Str} (hslash : tail.head? = some 0x2F) :
    (issuerPath tail n >>= issuerInPath D) = .ok (some n) ↔ n < 10 ^ Json.maxStrDigits := by
  rw [bind_eq_ok]
  constructor
  · rintro ⟨path, hpath, -⟩
    exact (issuerPath_eq_ok.1 hpath).1
  · intro hn
    have hall := DigitTable.all_isDigit_ofNat n
    have hdigits : D.isDigits (Str.ofNat n) = true :=
      DigitTable.isDigits_iff.2 ⟨Str.ofNat_ne_nil n, fun c hc => D.isdigit_of_decimal c
        (List.all_eq_true.1 (DigitTable.isDecimals_of_isDigit hall) c hc)⟩
    have hlength := (Str.length_ofNat_le_iff (by decide : 0 < Json.maxStrDigits)).2 hn
    refine ⟨_, issuerPath_eq_ok.2 ⟨hn, rfl⟩, ?_⟩
    rw [issuerInPath_eq_some, segment_built hslash, List.append_assoc]
    exact ⟨List.prefix_append _ _, hdigits,
      int_eq_ok.2 ⟨⟨DigitTable.isDecimals_of_isDigit hall, hlength⟩, DigitTable.value_ofNat n⟩⟩

/-- **The ids in paths**: the id of a certificate is read exactly from the digits of a number that is not too large,
and every other text is refused as not found.  The issuer of a path is read without an exception if what looks like
its number is in decimal digits, and not too many; it is the one a path has been built for, if that can be built,
and one that is named. -/
theorem path_ids_exact (D : DigitTable) :
    (∀ s n, parseCertificateId D s = .ok n ↔ s = Str.ofNat n ∧ n ≤ 2 ^ 63 - 1) ∧
    (∀ s e, parseCertificateId D s = .error e → e = .acme (notFound "certificate")) ∧
    (∀ path, (∃ issuerId, issuerInPath D path = .ok issuerId) ↔ Readable D path) ∧
    (∀ n, ((directoryPath n >>= issuerInPath D) = .ok (some n) ∧
      (newAccountPath n >>= issuerInPath D) = .ok (some n)) ↔ n < 10 ^ Json.maxStrDigits) ∧
    ∀ path n, issuerInPath D path = .ok (some n) → Names D path n := by
  refine ⟨fun s n => ?_, fun s e h => ?_, fun path => issuerInPath_returns_iff, fun n => ?_,
    fun path n => names_of_issuerInPath⟩
  · have hid : certificateId s = .ok n ↔ s = Str.ofNat n ∧ n ≤ 2 ^ 63 - 1 := certificateId_eq_ok
    rw [parseCertificateId_eq, ← hid]
    cases certificateId s <;> simp [orProblem]
  · rw [parseCertificateId_eq] at h
    cases hid : certificateId s with
    | ok n =>
      rw [hid] at h
      cases h
    | error e' =>
      rw [hid] at h
      obtain rfl := Except.error.inj h
      rw [eq_of_certificateId_eq_error hid]
  · rw [directoryPath, newAccountPath, issuerInPath_built rfl, issuerInPath_built rfl, and_self_iff]

/-- A superscript is a digit, but not one that `int` reads. -/
theorem superscript_issuer_raises :
    issuerInPath .latin1 (Str.of "/acme/ca/" ++ 0xB2 :: Str.of "/directory") = .error valueError := by
  decide +kernel

/-! ### The gate -/

theorem issuerInPath_built_of_lt {tail : Str} (hslash : tail.head? = some 0x2F) (hn : n < 10 ^ Json.maxStrDigits) :
    issuerInPath D (caPrefix ++ Str.ofNat n ++ tail) = .ok (some n) := by
  obtain ⟨path, hpath, hread⟩ := bind_eq_ok.1 ((issuerInPath_built (D := D) hslash).2 hn)
  rwa [← (issuerPath_eq_ok.1 hpath).2] at hread

section gate

variable {enabled : Bool} {base : Option Str}

/-- What the gate says where ACME is on. -/
theorem requireAcmeEnabled_eq (henabled : enabled = true) (hbase : base.getD [] ≠ []) :
    requireAcmeEnabled D enabled base path = match issuerInPath D path with
      | .error e => .error (.raised e)
      | .ok issuerId =>
        .ok ⟨base.getD [], issuerId.map fun n => caPrefix ++ Str.ofNat n ++ Str.of "/directory"⟩ := by
  unfold requireAcmeEnabled
  rw [refuse, if_neg (not_or.2 ⟨by simp [henabled], hbase⟩)]
  cases hissuer : issuerInPath D path with
  | error e => rfl
  | ok issuerId =>
    cases issuerId with
    | none => rfl
    | some n =>
      have hdirectory : directoryPath n = .ok (caPrefix ++ Str.ofNat n ++ Str.of "/directory") :=
        issuerPath_eq_ok.2 ⟨lt_of_issuerInPath hissuer, rfl⟩
      simp only [bind, Except.bind, escapes, hdirectory]
      rfl

/-- **The gate crashes** at the paths whose issuer cannot be read, as soon as ACME is on. -/
theorem requireAcmeEnabled_crashes_iff :
    (∃ e, requireAcmeEnabled D enabled base path = .error (.raised e)) ↔
      enabled = true ∧ base.getD [] ≠ [] ∧ ¬ Readable D path := by
  by_cases hon : enabled = true ∧ base.getD [] ≠ []
  · rw [requireAcmeEnabled_eq hon.1 hon.2, ← and_assoc, and_iff_right hon, ← issuerInPath_returns_iff]
    cases issuerInPath D path with
    | error e => exact iff_of_true ⟨e, rfl⟩ (by simp)
    | ok issuerId => exact iff_of_false (by simp) fun h => h ⟨issuerId, rfl⟩
  · have hoff : enabled = false ∨ base.getD [] = [] := by
      rwa [not_and_or, Bool.not_eq_true, not_not] at hon
    refine iff_of_false ?_ fun h => hon ⟨h.1, h.2.1⟩
    rintro ⟨e, he⟩
    rw [requireAcmeEnabled, refuse, if_pos hoff] at he
    cases he

/-- The link that the gate asks for is to the directory of the issuer whose path was asked for. -/
theorem issuer_of_requireAcmeEnabled {state : RequestState} {directory : Str}
    (h : requireAcmeEnabled D enabled base path = .ok state) (hdirectory : state.acmeDirectoryPath = some directory) :
    issuerInPath D directory = issuerInPath D path := by
  have hon : ¬ (enabled = false ∨ base.getD [] = []) := refuse_eq_ok.1 (bind_eq_ok.1 h).choose_spec.1
  rw [not_or, Bool.not_eq_false] at hon
  rw [requireAcmeEnabled_eq hon.1 hon.2] at h
  cases hissuer : issuerInPath D path with
  | error e =>
    rw [hissuer] at h
    cases h
  | ok issuerId =>
    rw [hissuer] at h
    obtain rfl := Except.ok.inj h
    obtain ⟨n, rfl, rfl⟩ := Option.map_eq_some_iff.1 hdirectory
    exact issuerInPath_built_of_lt rfl (lt_of_issuerInPath hissuer)

end gate

end Paths

end Acme

end Cabin
