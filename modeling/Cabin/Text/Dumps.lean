import Mathlib.Data.List.Chain
import Mathlib.Tactic.IntervalCases
import Cabin.Text.Digits
import Cabin.Text.Loads

/-!
# Reading what was written

`json.loads` gives back what `json.dumps` was given, with whatever characters, at any depth.  A string is
written in ASCII: a character that does not print is an escape of four digits, and one beyond the first plane
is two of them, a pair of surrogates.  So a string in which the two halves of a pair stand side by side would
be read as another one; no text that was ever read or decoded is such a string.

* `Json.Written` : the values that are read back, for a number of brackets that may be open;
* `scanString_dumps`, `scanValue_dumps` : a string and a value, up to what follows them;
* `Json.loads_dumps_of_written` : the round trip.
-/

namespace Cabin

namespace Json

/-! ### Values -/

/-- The string has code points, and no two halves of a surrogate pair stand side by side. -/
structure IsText (s : Str) : Prop where
  points : ∀ c ∈ s, c < 0x110000
  unpaired : s.IsChain fun c d => ¬ (isHigh c = true ∧ isLow d = true)

/-- A text with no halves of surrogate pairs at all. -/
theorem IsText.of_lt {s : Str} (h : ∀ c ∈ s, c < 0xD800) : IsText s where
  points c hc := (h c hc).trans (by decide)
  unpaired := by
    refine (List.pairwise_of_forall_mem_list fun c hc d _ => ?_).isChain
    have hlow := h c hc
    simp only [isHigh, Bool.and_eq_true, decide_eq_true_eq]
    omega

/-- A text with no halves of surrogate pairs at all, whatever else it has. -/
theorem IsText.of_not_isSurrogate {s : Str} (h : ∀ c ∈ s, c < 0x110000 ∧ Str.isSurrogate c = false) : IsText s where
  points c hc := (h c hc).1
  unpaired := by
    refine (List.pairwise_of_forall_mem_list fun c hc d _ => ?_).isChain
    have hnot := (h c hc).2
    simp only [Str.isSurrogate, Bool.and_eq_false_imp, decide_eq_true_eq, decide_eq_false_iff_not] at hnot
    simp only [isHigh, Bool.and_eq_true, decide_eq_true_eq]
    omega

/-- What `str` writes for a number is the number in JSON, if it is not too long to be read back. -/
theorem isNatural_ofNat {n : ℕ} (h : n < 10 ^ maxStrDigits) : IsNatural (Str.ofNat n) where
  digits c hc := by
    simpa [isDecimal] using Str.isDigit_of_mem_ofNat hc
  ne_nil := Str.ofNat_ne_nil n
  zero := Str.head?_ofNat
  short := (Str.length_ofNat_le_iff (by decide)).2 h

/-- The text is that of an integer. -/
inductive IsInteger : Str → Prop
  | natural {t : Str} (h : IsNatural t) : IsInteger t
  | negative {t : Str} (h : IsNatural t) : IsInteger (0x2D :: t)

mutual

/-- The value is made of integers and texts, its objects have each name once, and at most `depth` brackets
are open at once. -/
def Written : ℕ → Json → Prop
  | _, null => True
  | _, bool _ => True
  | _, num t => IsInteger t
  | _, str s => IsText s
  | depth, arr items => 0 < depth ∧ WrittenItems (depth - 1) items
  | depth, obj members => 0 < depth ∧ (members.map Prod.fst).Nodup ∧ WrittenMembers (depth - 1) members

/-- The same of the items of an array. -/
def WrittenItems : ℕ → List Json → Prop
  | _, [] => True
  | depth, v :: vs => Written depth v ∧ WrittenItems depth vs

/-- The same of the members of an object. -/
def WrittenMembers : ℕ → List (Str × Json) → Prop
  | _, [] => True
  | depth, (name, v) :: rest => IsText name ∧ Written depth v ∧ WrittenMembers depth rest

end

/-! ### Escapes -/

section escapes

variable {a b c d u : ℕ} {s rest : Str}

theorem hexDigit?_digitChar (h : d < 16) : hexDigit? (Nat.digitChar d).toNat = some d := by
  interval_cases d <;> rfl

/-- The four digits of a number. -/
theorem hex_four (h : u < 0x10000) : Str.of (Str.hex 4 u) =
    [(Nat.digitChar (u / 4096)).toNat, (Nat.digitChar (u / 256 % 16)).toNat, (Nat.digitChar (u / 16 % 16)).toNat,
      (Nat.digitChar (u % 16)).toNat] := by
  have hdigits : List.replicate (4 - (Nat.toDigits 16 u).length) '0' ++ Nat.toDigits 16 u =
      [Nat.digitChar (u / 4096), Nat.digitChar (u / 256 % 16), Nat.digitChar (u / 16 % 16),
        Nat.digitChar (u % 16)] := by
    have hzero : '0' = Nat.digitChar 0 := rfl
    rw [Nat.toDigits_eq_if (by decide)]
    split_ifs with h₁
    · have h₂ : u / 4096 = 0 ∧ u / 256 % 16 = 0 ∧ u / 16 % 16 = 0 ∧ u % 16 = u := by omega
      rw [h₂.1, h₂.2.1, h₂.2.2.1, h₂.2.2.2]
      rfl
    · rw [Nat.toDigits_eq_if (by decide)]
      split_ifs with h₂
      · have h₃ : u / 4096 = 0 ∧ u / 256 % 16 = 0 ∧ u / 16 % 16 = u / 16 := by omega
        rw [h₃.1, h₃.2.1, h₃.2.2]
        rfl
      · rw [Nat.toDigits_eq_if (by decide)]
        split_ifs with h₃
        · have h₄ : u / 4096 = 0 ∧ u / 256 % 16 = u / 16 / 16 := by omega
          rw [h₄.1, h₄.2]
          rfl
        · have h₄ : u / 16 / 16 / 16 < 16 := by omega
          have h₅ : u / 4096 = u / 16 / 16 / 16 ∧ u / 256 % 16 = u / 16 / 16 % 16 := by omega
          rw [Nat.toDigits_of_lt_base h₄, h₅.1, h₅.2]
          rfl
  simp [Str.hex, Str.of, hdigits]

/-- An escape of four digits, and the number they are. -/
theorem exists_escapeUnit (h : u < 0x10000) :
    ∃ a b c d, escapeUnit u = [0x5C, 0x75, a, b, c, d] ∧ hex4? a b c d = some u := by
  refine ⟨_, _, _, _, by rw [escapeUnit, hex_four h], ?_⟩
  have h₁ : u / 4096 < 16 := by omega
  simp only [hex4?, hexDigit?_digitChar h₁, hexDigit?_digitChar (Nat.mod_lt _ (by decide : 0 < 16)),
    Option.bind_eq_bind, Option.bind_some, Option.pure_def, Option.some.injEq]
  omega

/-- The ways a character is written. -/
inductive DumpsChar (c : ℕ) : Str → Prop
  | plain (hlow : 0x20 ≤ c) (hquote : c ≠ 0x22) (hslash : c ≠ 0x5C) : DumpsChar c [c]
  | letter {e : ℕ} (he : e ≠ 0x75) (h : unescape? e = some c) : DumpsChar c [0x5C, e]
  | unit (h : c < 0x10000) : DumpsChar c (escapeUnit c)
  | pair {u v : ℕ} (hu : isHigh u = true) (hv : isLow v = true) (h : joinPair u v = c) :
    DumpsChar c (escapeUnit u ++ escapeUnit v)

theorem dumpsChar_cases (hc : c < 0x110000) : DumpsChar c (dumpsChar c) := by
  unfold dumpsChar
  split_ifs with h₁ h₂ h₃ h₄ h₅ h₆ h₇ h₈
  · refine .letter (by rintro rfl; simp at h₁) ?_
    rcases h₁ with rfl | rfl <;> rfl
  · subst h₂
    exact .letter (by decide) rfl
  · subst h₃
    exact .letter (by decide) rfl
  · subst h₄
    exact .letter (by decide) rfl
  · subst h₅
    exact .letter (by decide) rfl
  · subst h₆
    exact .letter (by decide) rfl
  · exact .plain h₇.1 (fun h => h₁ (.inl h)) fun h => h₁ (.inr h)
  · exact .unit h₈
  · refine .pair ?_ ?_ ?_
    · simp only [isHigh, Bool.and_eq_true, decide_eq_true_eq]
      omega
    · simp only [isLow, Bool.and_eq_true, decide_eq_true_eq]
      omega
    · unfold joinPair
      omega

theorem scanEscape_letter {e x : ℕ} (he : e ≠ 0x75) (h : unescape? e = some x) :
    scanEscape (e :: s) = some (x, 1) := by
  unfold scanEscape
  split
  · rename_i heq
    exact absurd (List.cons.inj heq).1 he
  · rename_i heq
    obtain ⟨rfl, -⟩ := List.cons.inj heq
    rw [h]
    rfl
  · rename_i heq
    cases heq

/-- No low half follows. -/
def NoLow (rest : Str) : Prop :=
  ∀ a b c d more, rest = 0x5C :: 0x75 :: a :: b :: c :: d :: more →
    ∃ v, hex4? a b c d = some v ∧ isLow v = false

theorem scanEscape_unit (h : hex4? a b c d = some u) (hnext : isHigh u = true → NoLow rest) :
    scanEscape (0x75 :: a :: b :: c :: d :: rest) = some (u, 5) := by
  simp only [scanEscape, h, Option.bind_eq_bind, Option.bind_some]
  split
  · rename_i hhigh
    obtain ⟨v, hv, hlow⟩ := hnext hhigh _ _ _ _ _ rfl
    simp [hv, hlow]
  · rfl

theorem scanEscape_pair {e f g h v : ℕ} (hu : hex4? a b c d = some u) (hv : hex4? e f g h = some v)
    (hhigh : isHigh u = true) (hlow : isLow v = true) :
    scanEscape (0x75 :: a :: b :: c :: d :: 0x5C :: 0x75 :: e :: f :: g :: h :: rest) =
      some (joinPair u v, 11) := by
  simp [scanEscape, hu, hv, hhigh, hlow]

theorem lt_of_isHigh (h : isHigh u = true) : u < 0x10000 := by
  simp only [isHigh, Bool.and_eq_true, decide_eq_true_eq] at h
  omega

theorem lt_of_isLow (h : isLow u = true) : u < 0x10000 := by
  simp only [isLow, Bool.and_eq_true, decide_eq_true_eq] at h
  omega

theorem isLow_of_isHigh (h : isHigh u = true) : isLow u = false := by
  simp only [isHigh, Bool.and_eq_true, decide_eq_true_eq] at h
  simp only [isLow, Bool.and_eq_false_iff, decide_eq_false_iff_not]
  omega

/-- After a high half, what is written does not begin with a low one. -/
theorem noLow_dumps (h : IsText (c :: s)) (hhigh : isHigh c = true) :
    NoLow (s.flatMap dumpsChar ++ 0x22 :: rest) := by
  rintro x y z w more hmore
  cases s with
  | nil => cases hmore
  | cons d s =>
    have hd : d < 0x110000 := h.points d (by simp)
    have hnot : isLow d = false := by
      have hchain := h.unpaired
      rw [List.isChain_cons_cons] at hchain
      cases hlow : isLow d with
      | false => rfl
      | true => exact absurd ⟨hhigh, hlow⟩ hchain.1
    rw [List.flatMap_cons, List.append_assoc] at hmore
    have hwritten := dumpsChar_cases hd
    generalize dumpsChar d = written at hwritten hmore
    cases hwritten with
    | plain hlow hquote hslash =>
      obtain ⟨rfl, -⟩ := List.cons.inj hmore
      exact absurd rfl hslash
    | letter he =>
      obtain ⟨-, hmore⟩ := List.cons.inj hmore
      obtain ⟨rfl, -⟩ := List.cons.inj hmore
      exact absurd rfl he
    | unit hlt =>
      obtain ⟨x', y', z', w', hunit, hvalue⟩ := exists_escapeUnit hlt
      rw [hunit] at hmore
      simp only [List.cons_append, List.nil_append, List.cons.injEq, true_and] at hmore
      obtain ⟨rfl, rfl, rfl, rfl, -⟩ := hmore
      exact ⟨d, hvalue, hnot⟩
    | @pair u v hu hv hjoin =>
      obtain ⟨x', y', z', w', hunit, hvalue⟩ := exists_escapeUnit (lt_of_isHigh hu)
      rw [hunit] at hmore
      simp only [List.cons_append, List.nil_append, List.cons.injEq, true_and] at hmore
      obtain ⟨rfl, rfl, rfl, rfl, -⟩ := hmore
      exact ⟨u, hvalue, isLow_of_isHigh hu⟩

/-- **A string is read back**, up to what follows it. -/
theorem scanString_dumps (h : IsText s) : scanString (s.flatMap dumpsChar ++ 0x22 :: rest) = some (s, rest) := by
  unfold scanString
  induction s with
  | nil => rfl
  | cons c s ih =>
    have hrest := ih ⟨fun x hx => h.points x (List.mem_cons_of_mem c hx), h.unpaired.tail⟩
    rw [List.flatMap_cons, List.append_assoc]
    have hlow : isHigh c = true → NoLow (s.flatMap dumpsChar ++ 0x22 :: rest) := noLow_dumps h
    generalize s.flatMap dumpsChar ++ 0x22 :: rest = tail at hrest hlow
    have hwritten := dumpsChar_cases (h.points c List.mem_cons_self)
    generalize dumpsChar c = written at hwritten
    cases hwritten with
    | plain hlow hquote hslash =>
      rw [List.cons_append, List.nil_append, scanFrom, if_neg hquote, if_neg hslash, if_neg (by omega), hrest]
      rfl
    | letter he hletter =>
      rw [List.cons_append, List.cons_append, List.nil_append, scanFrom, if_neg (by decide), if_pos rfl,
        scanEscape_letter he hletter]
      dsimp only
      rw [scanFrom, hrest]
      rfl
    | unit hlt =>
      obtain ⟨x, y, z, w, hunit, hvalue⟩ := exists_escapeUnit hlt
      simp only [hunit, List.cons_append, List.nil_append]
      rw [scanFrom, if_neg (by decide), if_pos rfl, scanEscape_unit hvalue hlow]
      simp only [scanFrom, hrest]
      rfl
    | @pair u v hu hv hjoin =>
      obtain ⟨x, y, z, w, hunit, hvalue⟩ := exists_escapeUnit (lt_of_isHigh hu)
      obtain ⟨x', y', z', w', hunit', hvalue'⟩ := exists_escapeUnit (lt_of_isLow hv)
      simp only [hunit, hunit', List.cons_append, List.nil_append]
      rw [scanFrom, if_neg (by decide), if_pos rfl, scanEscape_pair hvalue hvalue' hu hv, hjoin]
      simp only [scanFrom, hrest]
      rfl

end escapes

/-! ### Atoms -/

section atoms

variable {t rest : Str}

theorem IsNatural.exists_cons (h : IsNatural t) : ∃ c s, t = c :: s ∧ isDecimal c = true := by
  obtain ⟨c, s, rfl⟩ := List.exists_cons_of_ne_nil h.ne_nil
  exact ⟨c, s, rfl, h.digits c List.mem_cons_self⟩

theorem scanAtom_of_negative (h : IsNatural t) (hrest : Closes rest) :
    scanAtom (0x2D :: t ++ rest) = .ok (num (0x2D :: t), rest) := by
  obtain ⟨c, s, rfl, hc⟩ := h.exists_cons
  -- Of the words only `-Infinity` begins with the sign, and no digit comes next in it.
  have hword : ∀ p ∈ constants, ∀ x, isDecimal x = true → ∀ more, p.1.isPrefixOf (0x2D :: x :: more) = false := by
    intro p hp x hx more
    have hne : x ≠ 0x49 := by
      rintro rfl
      cases hx
    simp only [constants, List.mem_cons, List.not_mem_nil, or_false] at hp
    rcases hp with rfl | rfl | rfl | rfl | rfl | rfl <;> simp [Str.of, List.isPrefixOf, Ne.symm hne]
  have hnone : constants.find? (fun p => p.1.isPrefixOf (0x2D :: c :: (s ++ rest))) = none :=
    List.find?_eq_none.2 fun p hp => by simp [hword p hp c hc]
  have hint : scanInteger (c :: (s ++ rest)) = some (c :: s, rest) := scanInteger_of_natural h hrest
  have hnumber : scanNumber (0x2D :: c :: (s ++ rest)) = .ok (num (0x2D :: c :: s), rest) := by
    have hsign : ((0x2D :: c :: (s ++ rest)).take 1).filter (fun c => c == 0x2D) = [0x2D] := rfl
    simp only [scanNumber, hsign, List.length_singleton, List.drop_succ_cons, List.drop_zero, hint, orDecode_some,
      bind, Except.bind, scanFraction_of_closes hrest, scanExponent_of_closes hrest, List.append_nil, true_and, refuse,
      if_neg (not_lt.2 h.short)]
    rfl
  rw [List.cons_append, List.cons_append, scanAtom, hnone]
  exact hnumber

theorem scanAtom_of_integer (h : IsInteger t) (hrest : Closes rest) : scanAtom (t ++ rest) = .ok (num t, rest) := by
  cases h with
  | natural h => exact scanAtom_of_natural h hrest
  | negative h => exact scanAtom_of_negative h hrest

/-- What a value may begin with: an ASCII character that is no white space and closes no bracket. -/
def Begins (c : ℕ) : Prop := c < 0x80 ∧ isSpace c = false ∧ c ≠ 0x5D ∧ c ≠ 0x7D

theorem begins_of_isDecimal {c : ℕ} (h : isDecimal c = true) : Begins c := by
  simp only [isDecimal, Bool.and_eq_true, decide_eq_true_eq] at h
  refine ⟨by omega, ?_, by omega, by omega⟩
  simp only [isSpace, Bool.or_eq_false_iff, beq_eq_false_iff_ne]
  omega

theorem exists_dumps {depth : ℕ} {v : Json} (h : Written depth v) : ∃ c s, v.dumps = c :: s ∧ Begins c := by
  cases v with
  | null => exact ⟨_, _, rfl, by decide, by decide, by decide, by decide⟩
  | bool b => cases b <;> exact ⟨_, _, rfl, by decide, by decide, by decide, by decide⟩
  | num t =>
    have hinteger : IsInteger t := by
      unfold Written at h
      exact h
    cases hinteger with
    | natural h =>
      obtain ⟨c, s, rfl, hc⟩ := h.exists_cons
      exact ⟨c, s, rfl, begins_of_isDecimal hc⟩
    | negative h => exact ⟨_, _, rfl, by decide, by decide, by decide, by decide⟩
  | str s => exact ⟨_, _, rfl, by decide, by decide, by decide, by decide⟩
  | arr items => exact ⟨_, _, rfl, by decide, by decide, by decide, by decide⟩
  | obj members => exact ⟨_, _, rfl, by decide, by decide, by decide, by decide⟩

theorem skipSpace_written {depth : ℕ} {v : Json} (h : Written depth v) (rest : Str) :
    skipSpace (v.dumps ++ rest) = v.dumps ++ rest := by
  obtain ⟨c, s, hv, hc⟩ := exists_dumps h
  rw [hv]
  exact skipSpace_cons hc.2.1 _

end atoms

/-! ### Values -/

section values

variable {depth fuel : ℕ} {rest : Str}

theorem closes_cons {c : ℕ} (h : c = 0x2C ∨ c = 0x5D ∨ c = 0x7D) : Closes (c :: rest) := by
  rintro _ _ ⟨⟩
  exact h

theorem scanValue_of_atom {c : ℕ} {s : Str} (hquote : c ≠ 0x22) (hbrace : c ≠ 0x7B) (hbracket : c ≠ 0x5B) :
    scanValue (fuel + 1) depth (c :: s) = scanAtom (c :: s) := by
  rw [scanValue, if_neg hquote, if_neg hbrace, if_neg hbracket]

theorem joined_cons (t : Str) (ts : List Str) (rest : Str) :
    joined (t :: ts) ++ rest = t ++ if ts = [] then rest else 0x2C :: 0x20 :: (joined ts ++ rest) := by
  cases ts with
  | nil => rfl
  | cons t' ts =>
    rw [if_neg (List.cons_ne_nil _ _), joined.eq_3 t _ (List.cons_ne_nil _ _), List.append_assoc, List.cons_append,
      List.cons_append]

theorem length_joined_cons (t : Str) {ts : List Str} (h : ts ≠ []) :
    (joined (t :: ts)).length = t.length + (joined ts).length + 2 := by
  rw [joined.eq_3 t _ h]
  simp only [List.length_append, List.length_cons]
  omega

theorem length_le_joined (t : Str) (ts : List Str) : t.length ≤ (joined (t :: ts)).length := by
  by_cases h : ts = []
  · rw [h, joined]
  · rw [length_joined_cons t h]
    omega

/-- What follows the first of several texts, before a closing bracket. -/
def after (close : ℕ) (ts : List Str) (rest : Str) : Str :=
  if ts = [] then close :: rest else 0x2C :: 0x20 :: (joined ts ++ close :: rest)

theorem closes_after {close : ℕ} (h : close = 0x5D ∨ close = 0x7D) (ts : List Str) (rest : Str) :
    Closes (after close ts rest) := by
  unfold after
  split_ifs
  · exact closes_cons (.inr h)
  · exact closes_cons (.inl rfl)

theorem skipSpace_after {close : ℕ} (h : close = 0x5D ∨ close = 0x7D) (ts : List Str) (rest : Str) :
    skipSpace (after close ts rest) = after close ts rest := by
  unfold after
  split_ifs
  · exact skipSpace_cons (by rcases h with rfl | rfl <;> rfl) rest
  · exact skipSpace_cons rfl _

/-- The text of items begins with that of the first. -/
theorem skipSpace_items {v : Json} {vs : List Json} (h : WrittenItems depth (v :: vs)) (rest : Str) :
    skipSpace (joined (dumpsItems (v :: vs)) ++ rest) = joined (dumpsItems (v :: vs)) ++ rest := by
  unfold WrittenItems at h
  rw [dumpsItems, joined_cons]
  exact skipSpace_written h.1 _

mutual

/-- **A value is read back**, up to what follows it. -/
theorem scanValue_dumps : ∀ (v : Json) (rest : Str) {depth fuel : ℕ}, Written depth v → Closes rest →
    v.dumps.length < fuel → scanValue fuel depth (v.dumps ++ rest) = .ok (v, rest)
  | v, _, _, 0, _, _, hfuel => absurd hfuel (Nat.not_lt_zero _)
  | null, _, _, _ + 1, _, _, _ => scanValue_of_atom (by decide) (by decide) (by decide)
  | bool true, _, _, _ + 1, _, _, _ => scanValue_of_atom (by decide) (by decide) (by decide)
  | bool false, _, _, _ + 1, _, _, _ => scanValue_of_atom (by decide) (by decide) (by decide)
  | num t, rest, depth, fuel + 1, h, hrest, _ => by
    have hinteger : IsInteger t := by
      unfold Written at h
      exact h
    have hatom : ∃ c s, t = c :: s ∧ c ≠ 0x22 ∧ c ≠ 0x7B ∧ c ≠ 0x5B := by
      cases hinteger with
      | natural h =>
        obtain ⟨c, s, rfl, hc⟩ := h.exists_cons
        refine ⟨c, s, rfl, ?_, ?_, ?_⟩ <;> rintro rfl <;> cases hc
      | negative h => exact ⟨_, _, rfl, by decide, by decide, by decide⟩
    obtain ⟨c, s, rfl, hquote, hbrace, hbracket⟩ := hatom
    rw [dumps, List.cons_append, scanValue_of_atom hquote hbrace hbracket]
    exact scanAtom_of_integer hinteger hrest
  | str s, rest, _, fuel + 1, h, _, _ => by
    unfold Written at h
    rw [dumps, dumpsString, List.cons_append, List.cons_append, List.append_assoc, scanValue, if_pos rfl,
      List.singleton_append, scanString_dumps h]
    rfl
  | arr [], rest, depth, fuel + 1, h, _, _ => by
    unfold Written at h
    obtain ⟨depth, rfl⟩ := Nat.exists_eq_succ_of_ne_zero h.1.ne'
    rfl
  | arr (v :: vs), rest, depth, fuel + 1, h, _, hfuel => by
    unfold Written at h
    obtain ⟨depth, rfl⟩ := Nat.exists_eq_succ_of_ne_zero h.1.ne'
    have hitems : WrittenItems depth (v :: vs) := h.2
    have hlength : (joined (dumpsItems (v :: vs))).length + 1 < fuel := by
      simp only [dumps, List.length_append, List.length_cons, List.length_nil] at hfuel
      omega
    have hscan := scanItems_dumps (v :: vs) rest (List.cons_ne_nil v vs) hitems hlength
    have hskip := skipSpace_items hitems (0x5D :: rest)
    have hopen : expect 0x5D (joined (dumpsItems (v :: vs)) ++ 0x5D :: rest) = none := by
      obtain ⟨c, s, hv, hc⟩ := exists_dumps (by unfold WrittenItems at hitems; exact hitems.1)
      rw [dumpsItems, joined_cons, hv]
      exact if_neg hc.2.2.1
    rw [dumps, List.cons_append, List.cons_append, List.append_assoc, List.singleton_append, scanValue,
      if_neg (by decide), if_neg (by decide), if_pos rfl]
    simp only [opened, bind, Except.bind, hskip, hopen, hscan]
    rfl
  | obj [], rest, depth, fuel + 1, h, _, _ => by
    unfold Written at h
    obtain ⟨depth, rfl⟩ := Nat.exists_eq_succ_of_ne_zero h.1.ne'
    rfl
  | obj (m :: ms), rest, depth, fuel + 1, h, _, hfuel => by
    unfold Written at h
    obtain ⟨depth, rfl⟩ := Nat.exists_eq_succ_of_ne_zero h.1.ne'
    have hmembers : WrittenMembers depth (m :: ms) := h.2.2
    have hlength : (joined (dumpsMembers (m :: ms))).length + 1 < fuel := by
      simp only [dumps, List.length_append, List.length_cons, List.length_nil] at hfuel
      omega
    have hscan := scanMembers_written (m :: ms) [] rest (List.cons_ne_nil m ms) hmembers
      (by simpa using h.2.1) hlength
    obtain ⟨s, hs⟩ := joined_dumpsMembers m ms
    have hskip : skipSpace (0x22 :: (s ++ 0x7D :: rest)) = 0x22 :: (s ++ 0x7D :: rest) := rfl
    rw [hs, List.cons_append] at hscan
    rw [dumps, List.cons_append, List.cons_append, List.append_assoc, List.singleton_append, hs, List.cons_append,
      scanValue, if_neg (by decide), if_pos rfl]
    simp only [opened, bind, Except.bind, hskip, expect, if_neg (by decide : ¬ 0x22 = 0x7D), hscan]
    rfl

/-- The items of an array are read back, up to the closing bracket. -/
theorem scanItems_dumps : ∀ (items : List Json) (rest : Str) {depth fuel : ℕ}, items ≠ [] →
    WrittenItems depth items → (joined (dumpsItems items)).length + 1 < fuel →
    scanItems fuel depth (joined (dumpsItems items) ++ 0x5D :: rest) = .ok (items, rest)
  | [], _, _, _, hne, _, _ => absurd rfl hne
  | _ :: _, _, _, 0, _, _, hfuel => absurd hfuel (Nat.not_lt_zero _)
  | v :: vs, rest, depth, fuel + 1, _, h, hfuel => by
    unfold WrittenItems at h
    rw [dumpsItems] at hfuel
    have hlength := length_le_joined v.dumps (dumpsItems vs)
    have hvalue := scanValue_dumps v _ h.1 (closes_after (.inl rfl) (dumpsItems vs) rest) (by omega : _ < fuel)
    have hskip := skipSpace_after (.inl rfl : 0x5D = 0x5D ∨ 0x5D = 0x7D) (dumpsItems vs) rest
    rw [dumpsItems, joined_cons, ← after, scanItems]
    simp only [hvalue, bind, Except.bind, hskip]
    cases vs with
    | nil => rfl
    | cons v' vs =>
      have hne : dumpsItems (v' :: vs) ≠ [] := by simp [dumpsItems]
      have hshort : (joined (dumpsItems (v' :: vs))).length + 1 < fuel := by
        rw [length_joined_cons _ hne] at hfuel
        omega
      have hscan := scanItems_dumps (v' :: vs) rest (List.cons_ne_nil v' vs) h.2 hshort
      have hspace : skipSpace (0x20 :: (joined (dumpsItems (v' :: vs)) ++ 0x5D :: rest)) =
          joined (dumpsItems (v' :: vs)) ++ 0x5D :: rest := skipSpace_items h.2 _
      have hclose : expect 0x5D (after 0x5D (dumpsItems (v' :: vs)) rest) = none := rfl
      have hcomma : expect 0x2C (after 0x5D (dumpsItems (v' :: vs)) rest) =
          some (0x20 :: (joined (dumpsItems (v' :: vs)) ++ 0x5D :: rest)) := rfl
      simp only [hclose, hcomma, orDecode_some, hspace, hscan]

/-- The members of an object are read back, up to the closing brace. -/
theorem scanMembers_written : ∀ (members done : List (Str × Json)) (rest : Str) {depth fuel : ℕ},
    members ≠ [] → WrittenMembers depth members → ((done ++ members).map Prod.fst).Nodup →
    (joined (dumpsMembers members)).length + 1 < fuel →
    scanMembers fuel depth done (joined (dumpsMembers members) ++ 0x7D :: rest) = .ok (done ++ members, rest)
  | [], _, _, _, _, hne, _, _, _ => absurd rfl hne
  | _ :: _, _, _, _, 0, _, _, _, hfuel => absurd hfuel (Nat.not_lt_zero _)
  | (name, v) :: ms, done, rest, depth, fuel + 1, _, h, hnodup, hfuel => by
    unfold WrittenMembers at h
    rw [dumpsMembers] at hfuel
    have hlength := length_le_joined (dumpsString name ++ 0x3A :: 0x20 :: v.dumps) (dumpsMembers ms)
    simp only [List.length_append, List.length_cons] at hlength
    have hvalue := scanValue_dumps v _ h.2.1 (closes_after (.inr rfl) (dumpsMembers ms) rest) (by omega : _ < fuel)
    have hskip := skipSpace_after (.inr rfl : 0x7D = 0x5D ∨ 0x7D = 0x7D) (dumpsMembers ms) rest
    have hput : put done name v = done ++ [(name, v)] := by
      refine put_of_not_mem fun hmem => ?_
      rw [List.map_append, List.nodup_append] at hnodup
      exact hnodup.2.2 name hmem name (by simp) rfl
    have htext : joined (dumpsMembers ((name, v) :: ms)) ++ 0x7D :: rest =
        0x22 :: (name.flatMap dumpsChar ++ 0x22 :: 0x3A :: 0x20 :: (v.dumps ++ after 0x7D (dumpsMembers ms) rest)) := by
      rw [dumpsMembers, joined_cons, ← after]
      simp [dumpsString]
    have hquote : ∀ s, expect 0x22 (0x22 :: s) = some s := fun _ => rfl
    have hcolon : expect 0x3A (skipSpace (0x3A :: 0x20 :: (v.dumps ++ after 0x7D (dumpsMembers ms) rest))) =
        some (0x20 :: (v.dumps ++ after 0x7D (dumpsMembers ms) rest)) := rfl
    have hspace : skipSpace (0x20 :: (v.dumps ++ after 0x7D (dumpsMembers ms) rest)) =
        v.dumps ++ after 0x7D (dumpsMembers ms) rest := skipSpace_written h.2.1 _
    rw [htext, scanMembers]
    simp only [hquote, Option.bind_some, scanString_dumps h.1, orDecode_some, hcolon, bind, Except.bind, hspace, hvalue,
      hput, hskip]
    cases ms with
    | nil => rfl
    | cons m ms =>
      have hne : dumpsMembers (m :: ms) ≠ [] := by simp [dumpsMembers]
      have hshort : (joined (dumpsMembers (m :: ms))).length + 1 < fuel := by
        rw [length_joined_cons _ hne] at hfuel
        omega
      have hscan := scanMembers_written (m :: ms) (done ++ [(name, v)]) rest
        (List.cons_ne_nil m ms) h.2.2 (by simpa using hnodup) hshort
      have hnext : skipSpace (0x20 :: (joined (dumpsMembers (m :: ms)) ++ 0x7D :: rest)) =
          joined (dumpsMembers (m :: ms)) ++ 0x7D :: rest := by
        obtain ⟨s, hs⟩ := joined_dumpsMembers m ms
        rw [hs]
        rfl
      have hclose : expect 0x7D (after 0x7D (dumpsMembers (m :: ms)) rest) = none := rfl
      have hcomma : expect 0x2C (after 0x7D (dumpsMembers (m :: ms)) rest) =
          some (0x20 :: (joined (dumpsMembers (m :: ms)) ++ 0x7D :: rest)) := rfl
      simp only [hclose, hcomma, orDecode_some, hnext, hscan]
      simp

end

/-- **`json.loads` reads what `json.dumps` wrote.** -/
theorem loads_dumps_of_written {v : Json} (h : Written depth v) : loads depth v.dumps = .ok v := by
  obtain ⟨c, s, hv, hc⟩ := exists_dumps h
  have hbom : v.dumps.head? ≠ some 0xFEFF := by
    rw [hv, List.head?_cons, Ne, Option.some.injEq]
    have hlow := hc.1
    omega
  have hskip : skipSpace v.dumps = v.dumps := by simpa using skipSpace_written h []
  have hscan : scanValue (v.dumps.length + 1) depth v.dumps = .ok (v, []) := by
    simpa using scanValue_dumps v [] h (fun _ _ hnil => nomatch hnil) (Nat.lt_succ_self _)
  rw [loads, if_neg hbom, hskip, hscan]
  rfl

/-! ### Characters -/

theorem lt_of_mem_dumpsString {s : Str} {c : ℕ} (h : c ∈ dumpsString s) : c < 0x80 := by
  have hunit : ∀ u, c ∈ escapeUnit u → c < 0x80 := by
    intro u hc
    simp only [escapeUnit, List.mem_cons] at hc
    rcases hc with rfl | rfl | hc
    · decide
    · decide
    · exact Str.lt_of_mem_hex hc
  have hletter : ∀ x y, c ∈ ([x, y] : Str) → x < 0x80 ∧ y < 0x80 → c < 0x80 := by
    intro x y hc hxy
    rcases List.mem_pair.1 hc with rfl | rfl
    · exact hxy.1
    · exact hxy.2
  simp only [dumpsString, List.mem_cons, List.mem_append, List.mem_flatMap, List.not_mem_nil, or_false] at h
  rcases h with (rfl | ⟨x, -, h⟩) | rfl
  · decide
  · unfold dumpsChar at h
    split_ifs at h with hquote
    · exact hletter _ _ h (by omega)
    · exact hletter _ _ h (by decide)
    · exact hletter _ _ h (by decide)
    · exact hletter _ _ h (by decide)
    · exact hletter _ _ h (by decide)
    · exact hletter _ _ h (by decide)
    · obtain rfl := List.mem_singleton.1 h
      omega
    · exact hunit _ h
    · exact (List.mem_append.1 h).elim (hunit _) (hunit _)
  · decide

theorem lt_of_mem_joined {ts : List Str} (h : ∀ t ∈ ts, ∀ c ∈ t, c < 0x80) : ∀ c ∈ joined ts, c < 0x80 := by
  induction ts with
  | nil => nofun
  | cons t ts ih =>
    have hhead := h t List.mem_cons_self
    cases ts with
    | nil => exact hhead
    | cons next ts =>
      intro c hc
      simp only [joined, List.mem_append, List.mem_cons] at hc
      rcases hc with hc | rfl | rfl | hc
      · exact hhead c hc
      · decide
      · decide
      · exact ih (fun t ht => h t (List.mem_cons_of_mem _ ht)) c hc

theorem lt_of_mem_integer {t : Str} (h : IsInteger t) : ∀ c ∈ t, c < 0x80 := by
  have hnatural : ∀ {t : Str}, IsNatural t → ∀ c ∈ t, c < 0x80 := fun hn c hc => by
    have hdecimal := hn.digits c hc
    simp only [isDecimal, Bool.and_eq_true, decide_eq_true_eq] at hdecimal
    omega
  cases h with
  | natural hn => exact hnatural hn
  | negative hn =>
    intro c hc
    rcases List.mem_cons.1 hc with rfl | hc
    · decide
    · exact hnatural hn c hc

/-- A member of an object. -/
theorem lt_of_mem_member {name text : Str} (h : ∀ c ∈ text, c < 0x80) :
    ∀ c ∈ dumpsString name ++ 0x3A :: 0x20 :: text, c < 0x80 := by
  intro c hc
  simp only [List.mem_append, List.mem_cons] at hc
  rcases hc with hc | rfl | rfl | hc
  · exact lt_of_mem_dumpsString hc
  · decide
  · decide
  · exact h c hc

/-- Brackets around texts. -/
theorem lt_of_mem_brackets {opening closing : ℕ} {ts : List Str} (hopen : opening < 0x80) (hclose : closing < 0x80)
    (h : ∀ t ∈ ts, ∀ c ∈ t, c < 0x80) : ∀ c ∈ opening :: joined ts ++ [closing], c < 0x80 := by
  intro c hc
  simp only [List.cons_append, List.mem_cons, List.mem_append, List.not_mem_nil, or_false] at hc
  rcases hc with rfl | hc | rfl
  · exact hopen
  · exact lt_of_mem_joined h c hc
  · exact hclose

mutual

/-- **What is written is in ASCII**, whatever characters its strings have. -/
theorem lt_of_mem_dumps : ∀ {v : Json} {depth : ℕ}, Written depth v → ∀ c ∈ v.dumps, c < 0x80
  | null, _, _ => by decide
  | bool b, _, _ => by cases b <;> decide
  | num t, _, h => by
    unfold Written at h
    exact lt_of_mem_integer h
  | str s, _, _ => fun _ hc => lt_of_mem_dumpsString hc
  | arr items, _, h => by
    unfold Written at h
    exact lt_of_mem_brackets (by decide) (by decide) (lt_of_mem_dumpsItems h.2)
  | obj members, _, h => by
    unfold Written at h
    exact lt_of_mem_brackets (by decide) (by decide) (lt_of_mem_dumpsMembers h.2.2)

theorem lt_of_mem_dumpsItems : ∀ {items : List Json} {depth : ℕ}, WrittenItems depth items →
    ∀ t ∈ dumpsItems items, ∀ c ∈ t, c < 0x80
  | [], _, _ => nofun
  | v :: vs, _, h => by
    unfold WrittenItems at h
    intro t ht
    rcases List.mem_cons.1 ht with rfl | ht
    · exact lt_of_mem_dumps h.1
    · exact lt_of_mem_dumpsItems h.2 t ht

theorem lt_of_mem_dumpsMembers : ∀ {members : List (Str × Json)} {depth : ℕ}, WrittenMembers depth members →
    ∀ t ∈ dumpsMembers members, ∀ c ∈ t, c < 0x80
  | [], _, _ => nofun
  | (name, v) :: rest, _, h => by
    unfold WrittenMembers at h
    intro t ht
    rcases List.mem_cons.1 ht with rfl | ht
    · exact lt_of_mem_member (lt_of_mem_dumps h.2.1)
    · exact lt_of_mem_dumpsMembers h.2.2 t ht

end

end values

end Json

end Cabin
