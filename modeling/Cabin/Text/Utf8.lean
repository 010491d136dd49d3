import Cabin.Text.Basic

/-!
# UTF-8

The bytes of a text and the text of bytes, as Python's strict codec has them: a surrogate has no bytes,
and bytes that are not the shortest form of a code point have no text.
-/

namespace Cabin

namespace Str

/-- The bytes of a code point. -/
def utf8Char (c : ℕ) : List ℕ :=
  if c < 0x80 then [c]
  else if c < 0x800 then [0xC0 + c / 0x40, 0x80 + c % 0x40]
  else if c < 0x10000 then [0xE0 + c / 0x1000, 0x80 + c / 0x40 % 0x40, 0x80 + c % 0x40]
  else [0xF0 + c / 0x40000, 0x80 + c / 0x1000 % 0x40, 0x80 + c / 0x40 % 0x40, 0x80 + c % 0x40]

/-- `str.encode("utf-8")`, `none` for a `UnicodeEncodeError`. -/
def utf8 (s : Str) : Option (List ℕ) := if s.any isSurrogate then none else some (s.flatMap utf8Char)

/-- A byte that continues a code point. -/
def isContinuation (b : ℕ) : Bool := 0x80 ≤ b && b < 0xC0

/-- `bytes.decode("utf-8")`, `none` for a `UnicodeDecodeError`. -/
def ofUtf8 : List ℕ → Option Str
  | [] => some []
  | a :: rest =>
    if a < 0x80 then (ofUtf8 rest).map (a :: ·)
    else match rest with
      | [] => none
      | b :: rest =>
        if !isContinuation b then none
        else if 0xC2 ≤ a ∧ a < 0xE0 then
          (ofUtf8 rest).map (((a - 0xC0) * 0x40 + (b - 0x80)) :: ·)
        else match rest with
          | [] => none
          | c :: rest =>
            if !isContinuation c then none
            else if 0xE0 ≤ a ∧ a < 0xF0 then
              let x := (a - 0xE0) * 0x1000 + (b - 0x80) * 0x40 + (c - 0x80)
              if x < 0x800 ∨ isSurrogate x then none else (ofUtf8 rest).map (x :: ·)
            else match rest with
              | [] => none
              | d :: rest =>
                if !isContinuation d then none
                else if 0xF0 ≤ a ∧ a < 0xF5 then
                  let x := (a - 0xF0) * 0x40000 + (b - 0x80) * 0x1000 + (c - 0x80) * 0x40 + (d - 0x80)
                  if x < 0x10000 ∨ 0x10FFFF < x then none else (ofUtf8 rest).map (x :: ·)
                else none

end Str

end Cabin
