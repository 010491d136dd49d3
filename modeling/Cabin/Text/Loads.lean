import Cabin.Exec.Except
import Cabin.Text.Infix
import Cabin.Text.Json

/-!
# JSON texts

`json.dumps` and `json.loads`.  A text is read from the left, each function returning what it has read
and the rest; the functions for values, members and items take the number of nested calls they may
make, which the length of the text bounds, and the number of brackets the interpreter lets them open.

* `Json.dumps`, `Json.loads`, and `Json.LoadsError` for what goes wrong first;
* `Json.loads_dumps` : a flat object, whose names are distinct and whose values are plain strings and
  natural numbers, is read back from its text.
-/

namespace Cabin

namespace Json

/-! ### Writing -/

/-- An escape with four digits. -/
def escapeUnit (u : ℕ) : Str := 0x5C :: 0x75 :: Str.of (Str.hex 4 u)

/-- One character of a string, in ASCII. -/
def dumpsChar (c : ℕ) : Str :=
  if c = 0x22 ∨ c = 0x5C then [0x5C, c]
  else if c = 0x0A then [0x5C, 0x6E]
  else if c = 0x0D then [0x5C, 0x72]
  else if c = 0x09 then [0x5C, 0x74]
  else if c = 0x0C then [0x5C, 0x66]
  else if c = 0x08 then [0x5C, 0x62]
  else if 0x20 ≤ c ∧ c ≤ 0x7E then [c]
  else if c < 0x10000 then escapeUnit c
  else escapeUnit (0xD800 + (c - 0x10000) / 0x400) ++ escapeUnit (0xDC00 + (c - 0x10000) % 0x400)

/-- A string between quotes. -/
def dumpsString (s : Str) : Str := 0x22 :: s.flatMap dumpsChar ++ [0x22]

/-- Texts with a comma and a space in between. -/
def joined : List Str → Str
  | [] => []
  | [t] => t
  | t :: ts => t ++ 0x2C :: 0x20 :: joined ts

mutual

/-- `json.dumps`. -/
def dumps : Json → Str
  | null => Str.of "null"
  | bool b => if b then Str.of "true" else Str.of "false"
  | num text => text
  | str s => dumpsString s
  | arr items => 0x5B :: joined (dumpsItems items) ++ [0x5D]
  | obj members => 0x7B :: joined (dumpsMembers members) ++ [0x7D]

/-- The items of an array. -/
def dumpsItems : List Json → List Str
  | [] => []
  | v :: vs => v.dumps :: dumpsItems vs

/-- The members of an object. -/
def dumpsMembers : List (Str × Json) → List Str
  | [] => []
  | (name, v) :: rest => (dumpsString name ++ 0x3A :: 0x20 :: v.dumps) :: dumpsMembers rest

end

/-! ### Reading -/

/-- Why a text is not read. -/
inductive LoadsError where
  /-- `JSONDecodeError`. -/
  | decode
  /-- The `ValueError` of an integer with too many digits. -/
  | digits
  /-- `RecursionError`. -/
  | recursion
  deriving DecidableEq, Repr

/-- The most digits of an integer that is read. -/
def maxStrDigits : ℕ := 4300

/-- What is not there is an error of the text. -/
def orDecode {α : Type} : Option α → Except LoadsError α
  | some a => .ok a
  | none => .error .decode

@[simp] theorem orDecode_some {α : Type} (a : α) : orDecode (some a) = .ok a := rfl

/-- Open a bracket. -/
def opened : ℕ → Except LoadsError ℕ
  | 0 => .error .recursion
  | depth + 1 => .ok depth

/-- White space. -/
def isSpace (c : ℕ) : Bool := c == 0x20 || c == 0x09 || c == 0x0A || c == 0x0D

/-- Skip white space. -/
def skipSpace (s : Str) : Str := s.dropWhile isSpace

/-- The value of a hexadecimal digit. -/
def hexDigit? (c : ℕ) : Option ℕ :=
  if 0x30 ≤ c ∧ c ≤ 0x39 then some (c - 0x30)
  else if 0x41 ≤ c ∧ c ≤ 0x46 then some (c - 0x41 + 10)
  else if 0x61 ≤ c ∧ c ≤ 0x66 then some (c - 0x61 + 10)
  else none

/-- The value of four digits. -/
def hex4? (a b c d : ℕ) : Option ℕ := do
  return ((← hexDigit? a) * 4096 + (← hexDigit? b) * 256 + (← hexDigit? c) * 16 + (← hexDigit? d))

/-- The character after a backslash. -/
def unescape? (c : ℕ) : Option ℕ :=
  if c = 0x22 ∨ c = 0x5C ∨ c = 0x2F then some c
  else if c = 0x62 then some 0x08
  else if c = 0x66 then some 0x0C
  else if c = 0x6E then some 0x0A
  else if c = 0x72 then some 0x0D
  else if c = 0x74 then some 0x09
  else none

def isHigh (u : ℕ) : Bool := 0xD800 ≤ u && u ≤ 0xDBFF

def isLow (u : ℕ) : Bool := 0xDC00 ≤ u && u ≤ 0xDFFF

/-- The code point of two surrogates. -/
def joinPair (u v : ℕ) : ℕ := 0x10000 + (u - 0xD800) * 0x400 + (v - 0xDC00)

/-- Put a character before what has been read. -/
def push (c : ℕ) (r : Option (Str × Str)) : Option (Str × Str) := r.map fun p => (c :: p.1, p.2)

/-- The character of an escape, and how many characters after the backslash are read for it.  Two
escaped surrogates are one character. -/
def scanEscape : Str → Option (ℕ × ℕ)
  | 0x75 :: a :: b :: c :: d :: rest => do
    let u ← hex4? a b c d
    match isHigh u, rest with
    | true, 0x5C :: 0x75 :: e :: f :: g :: h :: _ =>
      let v ← hex4? e f g h
      return if isLow v then (joinPair u v, 11) else (u, 5)
    | _, _ => return (u, 5)
  | e :: _ => (unescape? e).map fun x => (x, 1)
  | [] => none

/-- The rest of a string, up to its closing quote; the first `skip` characters belong to an escape
that has been read. -/
def scanFrom : ℕ → Str → Option (Str × Str)
  | _, [] => none
  | skip + 1, _ :: rest => scanFrom skip rest
  | 0, c :: rest =>
    if c = 0x22 then some ([], rest)
    else if c = 0x5C then
      match scanEscape rest with
      | none => none
      | some (x, n) => push x (scanFrom n rest)
    else if c < 0x20 then none
    else push c (scanFrom 0 rest)

/-- The rest of a string, up to its closing quote. -/
def scanString (s : Str) : Option (Str × Str) := scanFrom 0 s

def isDecimal (c : ℕ) : Bool := 0x30 ≤ c && c ≤ 0x39

/-- The digits of an integer: a zero, or digits that do not begin with one. -/
def scanInteger : Str → Option (Str × Str)
  | [] => none
  | c :: rest =>
    if c = 0x30 then some ([c], rest)
    else if isDecimal c then some (c :: rest.takeWhile isDecimal, rest.dropWhile isDecimal)
    else none

/-- The part of a number after the point, if it has one. -/
def scanFraction : Str → Str × Str
  | 0x2E :: rest =>
    if rest.takeWhile isDecimal = [] then ([], 0x2E :: rest)
    else (0x2E :: rest.takeWhile isDecimal, rest.dropWhile isDecimal)
  | s => ([], s)

/-- The exponent of a number, if it has one. -/
def scanExponent (s : Str) : Str × Str :=
  match s with
  | e :: rest =>
    let sign := rest.take 1 |>.filter fun c => c == 0x2B || c == 0x2D
    let digits := rest.drop sign.length
    if (e = 0x65 ∨ e = 0x45) ∧ digits.takeWhile isDecimal ≠ [] then
      (e :: sign ++ digits.takeWhile isDecimal, digits.dropWhile isDecimal)
    else ([], s)
  | [] => ([], [])

/-- A number, of which the text is kept. -/
def scanNumber (s : Str) : Except LoadsError (Json × Str) := do
  let sign := s.take 1 |>.filter fun c => c == 0x2D
  let (int, rest) ← orDecode (scanInteger (s.drop sign.length))
  let (frac, rest) := scanFraction rest
  let (exp, rest) := scanExponent rest
  refuse (frac = [] ∧ exp = [] ∧ maxStrDigits < int.length) .digits
  return (num (sign ++ int ++ frac ++ exp), rest)

/-- The words that are values. -/
def constants : List (Str × Json) :=
  [(Str.of "null", null), (Str.of "true", bool true), (Str.of "false", bool false),
    (Str.of "NaN", num (Str.of "NaN")), (Str.of "Infinity", num (Str.of "Infinity")),
    (Str.of "-Infinity", num (Str.of "-Infinity"))]

/-- A word, or a number. -/
def scanAtom (s : Str) : Except LoadsError (Json × Str) :=
  match constants.find? fun p => p.1.isPrefixOf s with
  | some (word, v) => .ok (v, s.drop word.length)
  | none => scanNumber s

/-- A dictionary with one more member; a name that is there already gets the new value. -/
def put (members : List (Str × Json)) (name : Str) (v : Json) : List (Str × Json) :=
  if members.any fun m => m.1 == name then
    members.map fun m => if m.1 = name then (name, v) else m
  else members ++ [(name, v)]

/-- The rest after a character. -/
def expect (c : ℕ) : Str → Option Str
  | x :: rest => if x = c then some rest else none
  | [] => none

mutual

/-- A value; `depth` brackets may be opened. -/
def scanValue : ℕ → ℕ → Str → Except LoadsError (Json × Str)
  | 0, _, _ => .error .decode
  | _ + 1, _, [] => .error .decode
  | fuel + 1, depth, c :: rest =>
    if c = 0x22 then (orDecode (scanString rest)).map fun p => (str p.1, p.2)
    else if c = 0x7B then do
      let depth ← opened depth
      match expect 0x7D (skipSpace rest) with
      | some rest => .ok (obj [], rest)
      | none => (scanMembers fuel depth [] (skipSpace rest)).map fun p => (obj p.1, p.2)
    else if c = 0x5B then do
      let depth ← opened depth
      match expect 0x5D (skipSpace rest) with
      | some rest => .ok (arr [], rest)
      | none => (scanItems fuel depth (skipSpace rest)).map fun p => (arr p.1, p.2)
    else scanAtom (c :: rest)

/-- The members of an object, up to its closing brace. -/
def scanMembers : ℕ → ℕ → List (Str × Json) → Str → Except LoadsError (List (Str × Json) × Str)
  | 0, _, _, _ => .error .decode
  | fuel + 1, depth, members, s => do
    let (name, rest) ← orDecode ((expect 0x22 s).bind scanString)
    let rest ← orDecode (expect 0x3A (skipSpace rest))
    let (v, rest) ← scanValue fuel depth (skipSpace rest)
    let members := put members name v
    match expect 0x7D (skipSpace rest) with
    | some rest => .ok (members, rest)
    | none => do
      let rest ← orDecode (expect 0x2C (skipSpace rest))
      scanMembers fuel depth members (skipSpace rest)

/-- The items of an array, up to its closing bracket. -/
def scanItems : ℕ → ℕ → Str → Except LoadsError (List Json × Str)
  | 0, _, _ => .error .decode
  | fuel + 1, depth, s => do
    let (v, rest) ← scanValue fuel depth s
    match expect 0x5D (skipSpace rest) with
    | some rest => .ok ([v], rest)
    | none => do
      let rest ← orDecode (expect 0x2C (skipSpace rest))
      let (vs, rest) ← scanItems fuel depth (skipSpace rest)
      .ok (v :: vs, rest)

end

/-- `json.loads` of a text, by an interpreter that lets `depth` brackets be open at once. -/
def loads (depth : ℕ) (s : Str) : Except LoadsError Json :=
  if s.head? = some 0xFEFF then .error .decode
  else do
    let (v, rest) ← scanValue (s.length + 1) depth (skipSpace s)
    refuse (skipSpace rest ≠ []) .decode
    return v

/-! ### Reading what was written -/

/-- No character of the string needs an escape. -/
def Plain (s : Str) : Prop := ∀ c ∈ s, 0x20 ≤ c ∧ c ≤ 0x7E ∧ c ≠ 0x22 ∧ c ≠ 0x5C

/-- The text is that of a natural number. -/
structure IsNatural (t : Str) : Prop where
  digits : ∀ c ∈ t, isDecimal c = true
  ne_nil : t ≠ []
  /-- Only zero begins with a zero. -/
  zero : t.head? = some 0x30 → t = [0x30]
  short : t.length ≤ maxStrDigits

/-- The value is a plain string or a natural number. -/
def Simple : Json → Prop
  | str s => Plain s
  | num t => IsNatural t
  | _ => False

/-- The object is flat. -/
structure Flat (members : List (Str × Json)) : Prop where
  names : ∀ m ∈ members, Plain m.1
  values : ∀ m ∈ members, Simple m.2
  distinct : (members.map Prod.fst).Nodup

section strings

variable {s : Str}

/-- A character that can be printed is written as itself. -/
theorem dumpsChar_eq_self {c : ℕ} (hlow : 0x20 ≤ c) (hhigh : c ≤ 0x7E) (hquote : c ≠ 0x22) (hslash : c ≠ 0x5C) :
    dumpsChar c = [c] := by
  unfold dumpsChar
  rw [if_neg (by simp [hquote, hslash]), if_neg (by omega), if_neg (by omega), if_neg (by omega),
    if_neg (by omega), if_neg (by omega), if_pos ⟨hlow, hhigh⟩]

theorem flatMap_dumpsChar (h : Plain s) : s.flatMap dumpsChar = s :=
  flatMap_eq_self fun c hc => by
    obtain ⟨hlow, hhigh, hquote, hslash⟩ := h c hc
    exact dumpsChar_eq_self hlow hhigh hquote hslash

theorem dumpsString_of_plain (h : Plain s) : dumpsString s = 0x22 :: s ++ [0x22] := by
  rw [dumpsString, flatMap_dumpsChar h]

theorem scanString_of_plain (h : Plain s) (rest : Str) :
    scanString (s ++ 0x22 :: rest) = some (s, rest) := by
  unfold scanString
  induction s with
  | nil => rfl
  | cons c s ih =>
    obtain ⟨hlow, -, hquote, hslash⟩ := h c List.mem_cons_self
    rw [List.cons_append, scanFrom, if_neg hquote, if_neg hslash, if_neg (by omega),
      ih fun x hx => h x (List.mem_cons_of_mem c hx)]
    rfl

theorem skipSpace_cons {c : ℕ} (h : isSpace c = false) (s : Str) : skipSpace (c :: s) = c :: s := by
  simp [skipSpace, h]

end strings

/-- What may follow a value. -/
def Closes (rest : Str) : Prop := ∀ c s, rest = c :: s → c = 0x2C ∨ c = 0x5D ∨ c = 0x7D

/-- What may follow a value inside an object. -/
def Ends (rest : Str) : Prop := ∃ c s, rest = c :: s ∧ (c = 0x2C ∨ c = 0x7D)

theorem Ends.closes {rest : Str} (h : Ends rest) : Closes rest := by
  obtain ⟨c, s, rfl, hc⟩ := h
  rintro _ _ ⟨⟩
  exact hc.imp_right .inr

section numbers

variable {t rest : Str}

theorem takeWhile_append_of_closes {xs : Str} (h : ∀ c ∈ xs, isDecimal c = true) (hrest : Closes rest) :
    (xs ++ rest).takeWhile isDecimal = xs ∧ (xs ++ rest).dropWhile isDecimal = rest := by
  cases rest with
  | nil => simpa [List.takeWhile_eq_self_iff, List.dropWhile_eq_nil_iff] using h
  | cons c s =>
    have hnot : isDecimal c = false := by rcases hrest c s rfl with rfl | rfl | rfl <;> rfl
    constructor
    · rw [List.takeWhile_append_of_pos h, List.takeWhile_cons_of_neg (by simp [hnot]), List.append_nil]
    · rw [List.dropWhile_append_of_pos h, List.dropWhile_cons_of_neg (by simp [hnot])]

theorem scanInteger_of_natural (h : IsNatural t) (hrest : Closes rest) :
    scanInteger (t ++ rest) = some (t, rest) := by
  cases t with
  | nil => exact absurd rfl h.ne_nil
  | cons c t =>
    have hc : isDecimal c = true := h.digits c List.mem_cons_self
    rw [List.cons_append, scanInteger]
    by_cases hzero : c = 0x30
    · have ht : c :: t = [0x30] := h.zero (by simp [hzero])
      cases ht
      rfl
    · obtain ⟨htake, hdrop⟩ := takeWhile_append_of_closes
        (fun x hx => h.digits x (List.mem_cons_of_mem c hx)) hrest
      rw [if_neg hzero, if_pos hc, htake, hdrop]

theorem scanFraction_of_closes (hrest : Closes rest) : scanFraction rest = ([], rest) := by
  cases rest with
  | nil => rfl
  | cons c s => rcases hrest c s rfl with rfl | rfl | rfl <;> rfl

theorem scanExponent_of_closes (hrest : Closes rest) : scanExponent rest = ([], rest) := by
  cases rest with
  | nil => rfl
  | cons c s => rcases hrest c s rfl with rfl | rfl | rfl <;> simp [scanExponent]

theorem constants_not_decimal :
    constants.all (fun p => p.1.head?.any fun c => !isDecimal c) = true := by decide

theorem scanNumber_of_natural (h : IsNatural t) (hrest : Closes rest) :
    scanNumber (t ++ rest) = .ok (num t, rest) := by
  obtain ⟨c, t', rfl⟩ := List.exists_cons_of_ne_nil h.ne_nil
  have hc : isDecimal c = true := h.digits c List.mem_cons_self
  have hsign : ((c :: t' ++ rest).take 1).filter (fun c => c == 0x2D) = [] := by
    have hne : c ≠ 0x2D := by
      rintro rfl
      cases hc
    simp [hne]
  simp only [scanNumber, hsign, List.length_nil, List.drop_zero, scanInteger_of_natural h hrest,
    orDecode_some, bind, Except.bind, scanFraction_of_closes hrest, scanExponent_of_closes hrest, List.nil_append,
    List.append_nil, true_and, refuse, if_neg (not_lt.2 h.short)]
  rfl

theorem scanAtom_of_natural (h : IsNatural t) (hrest : Closes rest) :
    scanAtom (t ++ rest) = .ok (num t, rest) := by
  obtain ⟨c, t', rfl⟩ := List.exists_cons_of_ne_nil h.ne_nil
  have hc : isDecimal c = true := h.digits c List.mem_cons_self
  -- No word begins with a digit.
  have hnone : constants.find? (fun p => p.1.isPrefixOf (c :: t' ++ rest)) = none := by
    refine List.find?_eq_none.2 fun p hp => ?_
    have hall := List.all_eq_true.1 constants_not_decimal p hp
    cases hword : p.1 with
    | nil => simp [hword] at hall
    | cons x w =>
      rw [hword] at hall
      have hne : x ≠ c := by
        rintro rfl
        simp [hc] at hall
      simp [List.isPrefixOf, hne]
  rw [scanAtom, hnone]
  exact scanNumber_of_natural h hrest

end numbers

section members

variable {v : Json} {rest : Str}

theorem scanValue_of_simple (fuel depth : ℕ) (h : Simple v) (hrest : Ends rest) :
    scanValue (fuel + 1) depth (v.dumps ++ rest) = .ok (v, rest) := by
  cases v with
  | str s =>
    rw [dumps, dumpsString_of_plain h, List.cons_append, List.cons_append, List.append_assoc,
      scanValue, if_pos rfl]
    show (orDecode (scanString (s ++ 0x22 :: rest))).map _ = _
    rw [scanString_of_plain h]
    rfl
  | num t =>
    have h' : IsNatural t := h
    obtain ⟨c, t', rfl⟩ := List.exists_cons_of_ne_nil h'.ne_nil
    have hc : isDecimal c = true := h'.digits c List.mem_cons_self
    have hne : ∀ x, isDecimal x = false → c ≠ x := by
      rintro x hx rfl
      simp [hx] at hc
    rw [dumps, List.cons_append, scanValue, if_neg (hne _ rfl), if_neg (hne _ rfl), if_neg (hne _ rfl)]
    exact scanAtom_of_natural h' hrest.closes
  | null | bool | arr | obj => cases h

/-- The text of a value begins with no white space. -/
theorem skipSpace_dumps (h : Simple v) : skipSpace (v.dumps ++ rest) = v.dumps ++ rest := by
  cases v with
  | str s => rfl
  | num t =>
    have h' : IsNatural t := h
    obtain ⟨c, t', rfl⟩ := List.exists_cons_of_ne_nil h'.ne_nil
    have hc : isDecimal c = true := h'.digits c List.mem_cons_self
    refine skipSpace_cons ?_ _
    simp only [isDecimal, Bool.and_eq_true, decide_eq_true_eq] at hc
    simp only [isSpace, Bool.or_eq_false_iff, beq_eq_false_iff_ne]
    omega
  | null | bool | arr | obj => cases h

/-- One member, up to what follows it. -/
theorem scanMember {name : Str} (hname : Plain name) (h : Simple v) (hrest : Ends rest) (fuel depth : ℕ)
    (members : List (Str × Json)) :
    scanMembers (fuel + 2) depth members (dumpsString name ++ 0x3A :: 0x20 :: v.dumps ++ rest) =
      match expect 0x7D (skipSpace rest) with
      | some rest => .ok (put members name v, rest)
      | none => orDecode (expect 0x2C (skipSpace rest)) >>= fun rest =>
        scanMembers (fuel + 1) depth (put members name v) (skipSpace rest) := by
  have hquote : expect 0x22 (dumpsString name ++ 0x3A :: 0x20 :: v.dumps ++ rest) =
      some (name ++ 0x22 :: 0x3A :: 0x20 :: (v.dumps ++ rest)) := by
    rw [dumpsString_of_plain hname]
    simp [expect]
  have hcolon : expect 0x3A (skipSpace (0x3A :: 0x20 :: (v.dumps ++ rest))) =
      some (0x20 :: (v.dumps ++ rest)) := rfl
  have hspace : skipSpace (0x20 :: (v.dumps ++ rest)) = v.dumps ++ rest := skipSpace_dumps h
  rw [scanMembers]
  simp only [hquote, hcolon, hspace, scanString_of_plain hname, scanValue_of_simple fuel depth h hrest,
    Option.bind_some, orDecode_some, bind, Except.bind]

theorem put_of_not_mem {members : List (Str × Json)} {name : Str}
    (h : name ∉ members.map Prod.fst) : put members name v = members ++ [(name, v)] := by
  have hany : members.any (fun m => m.1 == name) = false := by
    rw [List.any_eq_false]
    intro m hm hname
    exact h (List.mem_map.2 ⟨m, hm, by simpa using hname⟩)
  rw [put, if_neg (by simp [hany])]

/-- The text of members begins with a quote. -/
theorem joined_dumpsMembers (m : Str × Json) (ms : List (Str × Json)) :
    ∃ s, joined (dumpsMembers (m :: ms)) = 0x22 :: s := by
  cases ms with
  | nil => exact ⟨_, rfl⟩
  | cons m' ms => exact ⟨_, rfl⟩

/-- All members, up to the closing brace. -/
theorem scanMembers_dumps {done members : List (Str × Json)} (hne : members ≠ [])
    (hflat : Flat (done ++ members)) {fuel : ℕ} (hfuel : members.length < fuel) (depth : ℕ) :
    scanMembers fuel depth done (joined (dumpsMembers members) ++ 0x7D :: rest) =
      .ok (done ++ members, rest) := by
  induction members generalizing done fuel with
  | nil => exact absurd rfl hne
  | cons m ms ih =>
    obtain ⟨name, v⟩ := m
    have hname : Plain name := hflat.names (name, v) (by simp)
    have hvalue : Simple v := hflat.values (name, v) (by simp)
    have hput : put done name v = done ++ [(name, v)] := by
      refine put_of_not_mem fun hmem => ?_
      have hnodup := hflat.distinct
      rw [List.map_append, List.nodup_append] at hnodup
      exact hnodup.2.2 name hmem name (by simp) rfl
    obtain ⟨fuel, rfl⟩ : ∃ n, fuel = n + 2 := ⟨fuel - 2, by simp at hfuel; omega⟩
    cases ms with
    | nil =>
      rw [dumpsMembers, dumpsMembers, joined, scanMember hname hvalue ⟨0x7D, rest, rfl, .inr rfl⟩, hput]
      rfl
    | cons m' ms =>
      have hends : Ends (0x2C :: 0x20 :: (joined (dumpsMembers (m' :: ms)) ++ 0x7D :: rest)) :=
        ⟨0x2C, _, rfl, .inl rfl⟩
      have hjoined : joined (dumpsMembers ((name, v) :: m' :: ms)) ++ 0x7D :: rest =
          dumpsString name ++ 0x3A :: 0x20 :: v.dumps ++
            0x2C :: 0x20 :: (joined (dumpsMembers (m' :: ms)) ++ 0x7D :: rest) := by
        simp [dumpsMembers, joined]
      have hclose : ∀ s, expect 0x7D (skipSpace (0x2C :: s)) = none := fun _ => rfl
      have hcomma : ∀ s, expect 0x2C (skipSpace (0x2C :: s)) = some s := fun _ => rfl
      have hspace : skipSpace (0x20 :: (joined (dumpsMembers (m' :: ms)) ++ 0x7D :: rest)) =
          joined (dumpsMembers (m' :: ms)) ++ 0x7D :: rest := by
        obtain ⟨s, hs⟩ := joined_dumpsMembers m' ms
        rw [hs]
        rfl
      have hflat' : Flat ((done ++ [(name, v)]) ++ m' :: ms) := by
        rw [List.append_assoc]
        exact hflat
      have hfuel' : (m' :: ms).length < fuel + 1 := by
        simp at hfuel ⊢
        omega
      have hscan := ih (List.cons_ne_nil m' ms) hflat' hfuel'
      simp only [hjoined, scanMember hname hvalue hends, hput, hclose, hcomma, orDecode, bind, Except.bind, hspace,
        hscan]
      simp

end members

theorem length_joined (l : List Str) : l.length ≤ (joined l).length + 1 := by
  induction l using joined.induct with
  | case1 => simp
  | case2 t => simp
  | case3 t ts hne ih =>
    rw [joined.eq_3 t ts hne]
    simp only [List.length_cons, List.length_append]
    omega

theorem length_dumpsMembers (members : List (Str × Json)) :
    (dumpsMembers members).length = members.length := by
  induction members with
  | nil => rfl
  | cons m ms ih =>
    obtain ⟨name, v⟩ := m
    rw [dumpsMembers, List.length_cons, ih, List.length_cons]

/-- **A flat object is read back from its text.** -/
theorem loads_dumps {members : List (Str × Json)} (h : Flat members) {depth : ℕ} (hdepth : 0 < depth) :
    loads depth (obj members).dumps = .ok (obj members) := by
  obtain ⟨depth, rfl⟩ : ∃ n, depth = n + 1 := ⟨depth - 1, by omega⟩
  have hskip : skipSpace (obj members).dumps = (obj members).dumps := rfl
  have hscan : scanValue ((obj members).dumps.length + 1) (depth + 1) (obj members).dumps =
      .ok (obj members, []) := by
    have hfuel : members.length < (obj members).dumps.length := by
      have hlength := length_joined (dumpsMembers members)
      rw [length_dumpsMembers] at hlength
      simp only [dumps, List.length_cons, List.length_append, List.length_nil]
      omega
    generalize (obj members).dumps.length = fuel at hfuel
    cases members with
    | nil => rfl
    | cons m ms =>
      obtain ⟨s, hs⟩ := joined_dumpsMembers m ms
      have hclose : expect 0x7D (skipSpace (joined (dumpsMembers (m :: ms)) ++ [0x7D])) = none := by
        rw [hs]
        rfl
      have hspace : skipSpace (joined (dumpsMembers (m :: ms)) ++ [0x7D]) =
          joined (dumpsMembers (m :: ms)) ++ [0x7D] := by
        rw [hs]
        rfl
      have hmembers : scanMembers fuel depth [] (joined (dumpsMembers (m :: ms)) ++ [0x7D]) =
          .ok (m :: ms, []) := scanMembers_dumps (List.cons_ne_nil m ms) h hfuel depth
      rw [dumps, List.cons_append, scanValue, if_neg (by decide), if_pos rfl]
      rw [hspace] at hclose
      simp only [opened, bind, Except.bind, hspace, hclose, hmembers]
      rfl
  rw [loads, if_neg (by simp [dumps]), hskip, hscan]
  rfl

end Json

end Cabin
