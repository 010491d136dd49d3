import Mathlib.Data.List.Lex
import Mathlib.Data.List.Dedup
import Mathlib.Data.List.DropRight
import Mathlib.Data.List.TakeWhile
import Mathlib.Algebra.BigOperators.Group.List.Basic
import Mathlib.Algebra.Order.Ring.Int

/-!
# Text as sequences of code points

`Str` is a string of a scripting language: a sequence of code points, lone surrogates included.
Such a string need not have an encoding: `Str.utf8Length?` and `Str.isAscii` say when it does.

The string methods are those of Python: `strip` and `isspace` know the Unicode white space,
`partition` cuts at the first occurrence of a character, and `lower` folds the letters that have an
ASCII lower case.
-/

namespace Cabin

/-- A string: its code points. -/
abbrev Str := List ℕ

instance : LawfulBEq Str := inferInstanceAs (LawfulBEq (List ℕ))

namespace Str

/-- The string of a literal. -/
def of (s : String) : Str := s.toList.map Char.toNat

/-- The code point is half of a surrogate pair, which no UTF-8 text contains. -/
def isSurrogate (c : ℕ) : Bool := 0xD800 ≤ c && c ≤ 0xDFFF

/-- The number of bytes of a code point in UTF-8. -/
def utf8Size (c : ℕ) : ℕ :=
  if c < 0x80 then 1 else if c < 0x800 then 2 else if c < 0x10000 then 3 else 4

/-- The length of the UTF-8 encoding, `none` where there is none. -/
def utf8Length? (s : Str) : Option ℕ :=
  if s.any isSurrogate then none else some (s.map utf8Size).sum

/-- Every code point is ASCII. -/
def isAscii (s : Str) : Bool := s.all (· < 128)

/-- The text inside an error message; a lone surrogate is replaced. -/
def text (s : Str) : String := String.ofList (s.map Char.ofNat)

/-- The digits of a number in base 16, at least `width` of them. -/
def hex (width n : ℕ) : String :=
  let digits := Nat.toDigits 16 n
  String.ofList (List.replicate (width - digits.length) '0' ++ digits)

/-- One character inside `repr`, between quotes `q`. -/
def reprChar (q c : ℕ) : String :=
  if c = q ∨ c = 0x5C then String.ofList ['\\', Char.ofNat c]
  else if c = 0x09 then "\\t"
  else if c = 0x0A then "\\n"
  else if c = 0x0D then "\\r"
  else if c < 0x20 ∨ (0x7F ≤ c ∧ c ≤ 0xA0) ∨ c = 0xAD then "\\x" ++ hex 2 c
  else if isSurrogate c then "\\u" ++ hex 4 c
  else String.ofList [Char.ofNat c]

/-- `repr`: quoted, with the quote and what does not print escaped.  Beyond Latin-1 every character
but a lone surrogate is taken to print. -/
def repr (s : Str) : String :=
  let q := if 0x27 ∈ s ∧ 0x22 ∉ s then 0x22 else 0x27
  let quote := String.ofList [Char.ofNat q]
  quote ++ String.join (s.map (reprChar q)) ++ quote

/-! ### Classes of characters -/

/-- A decimal digit. -/
def isDigit (c : ℕ) : Bool := 0x30 ≤ c && c ≤ 0x39

/-- An ASCII letter or digit. -/
def isAlnum (c : ℕ) : Bool :=
  isDigit c || (0x41 ≤ c && c ≤ 0x5A) || (0x61 ≤ c && c ≤ 0x7A)

/-- The value of a hexadecimal digit. -/
def hexValue? (c : ℕ) : Option ℕ :=
  if isDigit c then some (c - 0x30)
  else if 0x61 ≤ c ∧ c ≤ 0x66 then some (c - 0x61 + 10)
  else if 0x41 ≤ c ∧ c ≤ 0x46 then some (c - 0x41 + 10)
  else none

/-- `str.isspace` of one character. -/
def isSpace (c : ℕ) : Bool :=
  (0x09 ≤ c && c ≤ 0x0D) || (0x1C ≤ c && c ≤ 0x20) || c == 0x85 || c == 0xA0 || c == 0x1680 ||
    (0x2000 ≤ c && c ≤ 0x200A) || c == 0x2028 || c == 0x2029 || c == 0x202F || c == 0x205F ||
    c == 0x3000

/-- The lower case of one character.  Beside the ASCII letters only the Kelvin sign and the dotted
capital I have ASCII in their lower case; other letters are left alone, which no comparison with
an ASCII text can tell. -/
def lowerChar (c : ℕ) : Str :=
  if 0x41 ≤ c ∧ c ≤ 0x5A then [c + 0x20]
  else if c = 0x212A then [0x6B]
  else if c = 0x130 then [0x69, 0x307]
  else [c]

/-! ### Methods -/

/-- `str.lower`. -/
def lower (s : Str) : Str := s.flatMap lowerChar

/-- `str.strip`: without the white space at both ends. -/
def strip (s : Str) : Str := ((s.dropWhile isSpace).reverse.dropWhile isSpace).reverse

/-- `str.partition` at one character: what stands before its first occurrence and, if it occurs,
what stands after it. -/
def partition (c : ℕ) (s : Str) : Str × Option Str :=
  match s.dropWhile (· != c) with
  | [] => (s, none)
  | _ :: rest => (s.takeWhile (· != c), some rest)

/-- `str.split` at one character. -/
def splitAt (c : ℕ) : Str → List Str
  | [] => [[]]
  | x :: xs =>
    if x = c then [] :: splitAt c xs
    else match splitAt c xs with
      | [] => [[x]]
      | p :: ps => (x :: p) :: ps

/-- A character that ends a line. -/
def isLineBreak (c : ℕ) : Bool :=
  (0x0A ≤ c && c ≤ 0x0D) || (0x1C ≤ c && c ≤ 0x1E) || c == 0x85 || c == 0x2028 || c == 0x2029

/-- `str.splitlines` of what comes after `line`: a line ends with a break, or with the text. -/
def splitLinesFrom (line : Str) : Str → List Str
  | [] => if line = [] then [] else [line]
  | 0x0D :: 0x0A :: rest => line :: splitLinesFrom [] rest
  | c :: rest =>
    if isLineBreak c then line :: splitLinesFrom [] rest else splitLinesFrom (line ++ [c]) rest

/-- `str.splitlines`: the lines without their ends. -/
def splitLines (s : Str) : List Str := splitLinesFrom [] s

/-- `list(dict.fromkeys(xs))`: without repetitions, each element at its first place. -/
def unique {α : Type} [DecidableEq α] (xs : List α) : List α :=
  xs.foldl (fun seen x => if x ∈ seen then seen else seen ++ [x]) []

/-- The decimal digits of a number. -/
def ofNat (n : ℕ) : Str := of (toString n)

/-! ### Their properties -/

theorem mem_foldl_unique {α : Type} [DecidableEq α] (xs acc : List α) (x : α) :
    x ∈ xs.foldl (fun seen x => if x ∈ seen then seen else seen ++ [x]) acc ↔
      x ∈ acc ∨ x ∈ xs := by
  induction xs generalizing acc with
  | nil => simp
  | cons y ys ih =>
    rw [List.foldl_cons, ih]
    split_ifs with hy
    · simp only [List.mem_cons]
      refine ⟨fun h => h.imp_right .inr, fun h => ?_⟩
      rcases h with h | rfl | h
      exacts [.inl h, .inl hy, .inr h]
    · simp [or_assoc]

@[simp] theorem mem_unique {α : Type} [DecidableEq α] {xs : List α} {x : α} :
    x ∈ unique xs ↔ x ∈ xs := by
  simp [unique, mem_foldl_unique]

theorem nodup_foldl_unique {α : Type} [DecidableEq α] (xs : List α) {acc : List α} (h : acc.Nodup) :
    (xs.foldl (fun seen x => if x ∈ seen then seen else seen ++ [x]) acc).Nodup := by
  induction xs generalizing acc with
  | nil => exact h
  | cons y ys ih =>
    rw [List.foldl_cons]
    split_ifs with hy
    · exact ih h
    · exact ih (List.nodup_append.2 ⟨h, List.nodup_singleton y, fun a ha b hb hab => hy (by
        obtain rfl := List.mem_singleton.1 hb
        exact hab ▸ ha)⟩)

theorem nodup_unique {α : Type} [DecidableEq α] (xs : List α) : (unique xs).Nodup :=
  nodup_foldl_unique xs List.nodup_nil

theorem foldl_unique_of_nodup {α : Type} [DecidableEq α] (xs acc : List α) (h : (acc ++ xs).Nodup) :
    xs.foldl (fun seen x => if x ∈ seen then seen else seen ++ [x]) acc = acc ++ xs := by
  induction xs generalizing acc with
  | nil => simp
  | cons y ys ih =>
    have hy : y ∉ acc := fun hy => List.disjoint_of_nodup_append h hy List.mem_cons_self
    rw [List.foldl_cons, if_neg hy, ih _ (by simpa using h), List.append_assoc, List.singleton_append]

/-- Where nothing is repeated, nothing is dropped. -/
theorem unique_of_nodup {α : Type} [DecidableEq α] {xs : List α} (h : xs.Nodup) : unique xs = xs := by
  unfold unique
  rw [foldl_unique_of_nodup xs [] (by simpa using h), List.nil_append]

theorem partition_of_notMem {c : ℕ} {s : Str} (h : c ∉ s) : partition c s = (s, none) := by
  have hne : ∀ x ∈ s, (x != c) = true := fun x hx => by
    simpa using fun e : x = c => h (e ▸ hx)
  unfold partition
  rw [List.dropWhile_eq_nil_iff.2 hne]

theorem partition_append {c : ℕ} {p rest : Str} (h : ∀ x ∈ p, x ≠ c) :
    partition c (p ++ c :: rest) = (p, some rest) := by
  have hd : (p ++ c :: rest).dropWhile (· != c) = c :: rest := by
    rw [List.dropWhile_append_of_pos (by simpa using h)]
    simp
  have ht : (p ++ c :: rest).takeWhile (· != c) = p := by
    rw [List.takeWhile_append_of_pos (by simpa using h)]
    simp
  simp [partition, hd, ht]

/-- Every character but the separator is in one of the parts. -/
theorem mem_of_splitAt {sep c : ℕ} {s : Str} (h : c ∈ s) (hc : c ≠ sep) :
    ∃ p ∈ splitAt sep s, c ∈ p := by
  induction s with
  | nil => cases h
  | cons x xs ih =>
    unfold splitAt
    split_ifs with hx
    · rcases List.mem_cons.1 h with rfl | h
      · exact absurd hx hc
      · obtain ⟨p, hp, hcp⟩ := ih h
        exact ⟨p, List.mem_cons_of_mem _ hp, hcp⟩
    · rcases List.mem_cons.1 h with rfl | h
      · split
        · exact ⟨_, List.mem_cons_self, List.mem_cons_self⟩
        · exact ⟨_, List.mem_cons_self, List.mem_cons_self⟩
      · obtain ⟨q, hq, hcq⟩ := ih h
        split
        · rename_i hnil
          rw [hnil] at hq
          cases hq
        · rename_i p ps hcons
          rw [hcons] at hq
          rcases List.mem_cons.1 hq with rfl | hq
          · exact ⟨_, List.mem_cons_self, List.mem_cons_of_mem _ hcq⟩
          · exact ⟨q, List.mem_cons_of_mem _ hq, hcq⟩

theorem mem_lower {s : Str} {x : ℕ} : x ∈ lower s ↔ ∃ c ∈ s, x ∈ lowerChar c := List.mem_flatMap

/-- Lower case letters come from letters; every other character is its own lower case. -/
theorem eq_or_of_mem_lowerChar {c x : ℕ} (h : x ∈ lowerChar c) :
    x = c ∨ (0x61 ≤ x ∧ x ≤ 0x7A) ∨ x = 0x307 := by
  unfold lowerChar at h
  split_ifs at h <;> simp at h <;> omega

theorem isSpace_of_range {c : ℕ} (h : 0x20 < c ∧ c < 0x7F) : isSpace c = false := by
  simp [isSpace]
  omega

theorem isSpace_lower {s : Str} (h : ∀ c ∈ s, isSpace c = false) : ∀ x ∈ lower s, isSpace x = false := by
  intro x hx
  obtain ⟨c, hc, hx⟩ := mem_lower.1 hx
  rcases eq_or_of_mem_lowerChar hx with rfl | hx | rfl
  · exact h x hc
  · simp only [isSpace, Bool.or_eq_false_iff, Bool.and_eq_false_iff, decide_eq_false_iff_not,
      beq_eq_false_iff_ne]
    omega
  · decide

/-- The text begins and ends with no white space. -/
structure Stripped (s : Str) : Prop where
  head : ∀ c ∈ s.head?, isSpace c = false
  last : ∀ c ∈ s.getLast?, isSpace c = false

theorem dropWhile_isSpace {s : Str} (h : ∀ c ∈ s.head?, isSpace c = false) : s.dropWhile isSpace = s := by
  cases s with
  | nil => rfl
  | cons c s => rw [List.dropWhile_cons_of_neg (by simp [h c rfl])]

theorem isSpace_dropWhile (s : Str) : ∀ c ∈ (s.dropWhile isSpace).head?, isSpace c = false := by
  intro c hc
  have hnot := List.head?_dropWhile_not isSpace s
  rw [Option.mem_def.1 hc] at hnot
  exact hnot

theorem strip_of_stripped {s : Str} (h : Stripped s) : strip s = s := by
  have hlast : s.reverse.dropWhile isSpace = s.reverse :=
    dropWhile_isSpace (by simpa using h.last)
  rw [strip, dropWhile_isSpace h.head, hlast, List.reverse_reverse]

theorem stripped_strip (s : Str) : Stripped (strip s) where
  head := by
    have hprefix : strip s <+: s.dropWhile isSpace := List.rdropWhile_prefix isSpace _
    intro c hc
    obtain ⟨rest, hrest⟩ := hprefix
    refine isSpace_dropWhile s c ?_
    rw [← hrest]
    exact List.mem_head?_append_of_mem_head? hc
  last c hc := by
    refine isSpace_dropWhile (s.dropWhile isSpace).reverse c ?_
    rwa [strip, List.getLast?_reverse] at hc

/-- There is nothing to strip from a text without white space. -/
theorem stripped_of_isSpace {s : Str} (h : ∀ c ∈ s, isSpace c = false) : Stripped s where
  head c hc := h c (List.mem_of_mem_head? hc)
  last c hc := h c (List.mem_of_mem_getLast? hc)

theorem strip_of_isSpace {s : Str} (h : ∀ c ∈ s, isSpace c = false) : strip s = s :=
  strip_of_stripped (stripped_of_isSpace h)

theorem mem_of_mem_strip {c : ℕ} {s : Str} (h : c ∈ strip s) : c ∈ s := by
  have hmem := (List.dropWhile_sublist _).subset (List.mem_reverse.1 h)
  exact (List.dropWhile_sublist _).subset (List.mem_reverse.1 hmem)

theorem mem_of_partition {c x : ℕ} {s head rest : Str} (h : partition c s = (head, some rest)) (hx : x ∈ rest) :
    x ∈ s := by
  unfold partition at h
  split at h
  · cases h
  · rename_i y rest' heq
    obtain rfl := Option.some.inj (Prod.mk.inj h).2
    exact (List.dropWhile_sublist _).subset (heq ▸ List.mem_cons_of_mem y hx)

/-- An ASCII text has one byte for each character. -/
theorem utf8Length?_of_isAscii {s : Str} (h : s.isAscii = true) : utf8Length? s = some s.length := by
  have hlt : ∀ c ∈ s, c < 128 := fun c hc => of_decide_eq_true (List.all_eq_true.1 h c hc)
  have hsurrogate : s.any isSurrogate = false := by
    rw [List.any_eq_false]
    intro c hc
    have hc := hlt c hc
    simp [isSurrogate]
    omega
  have hsize : s.map utf8Size = s.map fun _ => 1 := by
    refine List.map_congr_left fun c hc => ?_
    rw [utf8Size, if_pos (hlt c hc)]
  simp [utf8Length?, hsurrogate, hsize]

end Str

end Cabin
