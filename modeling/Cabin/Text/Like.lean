import Cabin.Text.Case

/-!
# LIKE

The operator `LIKE` of SQL with an escape character: `%` stands for any text, `_` for any character, and
letters are compared without their case, ASCII letters only.

* `Like.like` matches a text with a pattern, `Like.likeBy` does so for any comparison of characters;
* `Like.likeBy_contains` : between two `%`, a term whose special characters are escaped is looked for as it is.
-/

namespace Cabin

namespace Like

/-- A part of a pattern. -/
inductive Token where
  | any
  | one
  | char (c : ℕ)
  deriving DecidableEq, Repr

/-- The parts of a pattern; one that ends with the escape character has none. -/
def tokens (escape : ℕ) : Str → Option (List Token)
  | [] => some []
  | c :: rest =>
    if c = escape then
      match rest with
      | [] => none
      | d :: rest => (tokens escape rest).map (.char d :: ·)
    else (tokens escape rest).map ((if c = 0x25 then .any else if c = 0x5F then .one else .char c) :: ·)

/-- The text is made of the parts. -/
def matchTokens : List Token → Str → Bool
  | [], s => s.isEmpty
  | .any :: ts, s => s.tails.any (matchTokens ts)
  | .one :: _, [] => false
  | .one :: ts, _ :: s => matchTokens ts s
  | .char _ :: _, [] => false
  | .char c :: ts, x :: s => Str.asciiLowerChar c == Str.asciiLowerChar x && matchTokens ts s

/-- `text LIKE pattern ESCAPE escape`. -/
def like (escape : ℕ) (pattern text : Str) : Bool :=
  match tokens escape pattern with
  | none => false
  | some ts => matchTokens ts text

/-- The text is made of the parts; characters are the same if `fold` takes them to the same. -/
def matchTokensBy (fold : ℕ → ℕ) : List Token → Str → Bool
  | [], s => s.isEmpty
  | .any :: ts, s => s.tails.any (matchTokensBy fold ts)
  | .one :: _, [] => false
  | .one :: ts, _ :: s => matchTokensBy fold ts s
  | .char _ :: _, [] => false
  | .char c :: ts, x :: s => fold c == fold x && matchTokensBy fold ts s

/-- `text LIKE pattern ESCAPE escape`, where characters are compared through `fold`; with `id` their case matters. -/
def likeBy (fold : ℕ → ℕ) (escape : ℕ) (pattern text : Str) : Bool :=
  match tokens escape pattern with
  | none => false
  | some ts => matchTokensBy fold ts text

/-- A character is special in a pattern. -/
def isSpecial (escape c : ℕ) : Bool := c == escape || c == 0x25 || c == 0x5F

/-- A term with its special characters escaped. -/
def escaped (escape : ℕ) (term : Str) : Str := term.flatMap fun c => if isSpecial escape c then [escape, c] else [c]

variable {escape : ℕ} {term text : Str}

theorem tokens_cons {c : ℕ} (h : c ≠ escape) (rest : Str) : tokens escape (c :: rest) =
    (tokens escape rest).map ((if c = 0x25 then .any else if c = 0x5F then .one else .char c) :: ·) := by
  rw [tokens.eq_def]
  simp only [if_neg h]

/-- An escaped term is read as its characters. -/
theorem tokens_escaped (rest : Str) : tokens escape (escaped escape term ++ rest) =
    (tokens escape rest).map (term.map Token.char ++ ·) := by
  induction term with
  | nil => simp [escaped]
  | cons c term ih =>
    have hcons : escaped escape (c :: term) ++ rest =
        (if isSpecial escape c then [escape, c] else [c]) ++ (escaped escape term ++ rest) := by
      simp [escaped]
    rw [hcons]
    by_cases hspecial : isSpecial escape c = true
    · rw [if_pos hspecial]
      simp only [List.cons_append, List.nil_append, tokens, if_true, ih, Option.map_map]
      rfl
    · rw [if_neg hspecial]
      simp only [isSpecial, Bool.or_eq_true, beq_iff_eq, not_or] at hspecial
      obtain ⟨⟨hescape, hany⟩, hone⟩ := hspecial
      simp only [List.cons_append, List.nil_append, tokens_cons hescape, if_neg hany, if_neg hone, ih,
        Option.map_map]
      rfl

theorem matchTokens_eq (ts : List Token) (s : Str) : matchTokens ts s = matchTokensBy Str.asciiLowerChar ts s := by
  induction ts generalizing s with
  | nil => rfl
  | cons t ts ih =>
    have hts : matchTokens ts = matchTokensBy Str.asciiLowerChar ts := funext ih
    cases t with
    | any => rw [matchTokens, matchTokensBy, hts]
    | one => cases s <;> simp only [matchTokens, matchTokensBy, hts]
    | char c => cases s <;> simp only [matchTokens, matchTokensBy, hts]

/-- Letters are compared without their case. -/
theorem like_eq (pattern : Str) : like escape pattern text = likeBy Str.asciiLowerChar escape pattern text := by
  unfold like likeBy
  cases tokens escape pattern with
  | none => rfl
  | some ts => exact matchTokens_eq ts text

variable {fold : ℕ → ℕ}

theorem matchTokensBy_any (s : Str) : matchTokensBy fold [.any] s = true := by
  simp only [matchTokensBy, List.any_eq_true]
  exact ⟨[], (List.mem_tails _ _).2 List.nil_suffix, rfl⟩

/-- Characters are matched from the left. -/
theorem matchTokensBy_chars (s : Str) : matchTokensBy fold (term.map Token.char ++ [.any]) s = true ↔
    term.map fold <+: s.map fold := by
  induction term generalizing s with
  | nil => exact iff_of_true (matchTokensBy_any s) List.nil_prefix
  | cons c term ih =>
    cases s with
    | nil => simp [matchTokensBy]
    | cons x s =>
      simp only [List.map_cons, List.cons_append, matchTokensBy, Bool.and_eq_true, beq_iff_eq, ih,
        List.cons_prefix_cons]

/-- **A pattern that begins and ends with `%`** looks for the term, whatever special characters it has. -/
theorem likeBy_contains (hany : escape ≠ 0x25) :
    likeBy fold escape (0x25 :: escaped escape term ++ [0x25]) text = true ↔ term.map fold <:+: text.map fold := by
  have hlast : tokens escape [0x25] = some [.any] := by
    rw [tokens_cons hany.symm, if_pos rfl]
    rfl
  have htokens : tokens escape (0x25 :: escaped escape term ++ [0x25]) =
      some (.any :: (term.map Token.char ++ [.any])) := by
    rw [List.cons_append, tokens_cons hany.symm, if_pos rfl, tokens_escaped, hlast]
    rfl
  rw [likeBy, htokens]
  simp only [matchTokensBy, List.any_eq_true, List.mem_tails, matchTokensBy_chars]
  constructor
  · rintro ⟨s, hsuffix, hprefix⟩
    exact hprefix.isInfix.trans (hsuffix.map _).isInfix
  · intro hsub
    obtain ⟨t, hprefix, hsuffix⟩ := List.infix_iff_prefix_suffix.1 hsub
    obtain ⟨s, hs, rfl⟩ : ∃ s, s <:+ text ∧ s.map fold = t := by
      obtain ⟨front, hfront⟩ := hsuffix
      refine ⟨text.drop front.length, List.drop_suffix _ _, ?_⟩
      rw [List.map_drop, ← hfront, List.drop_left]
    exact ⟨s, hs, hprefix⟩

theorem like_contains (hany : escape ≠ 0x25) :
    like escape (0x25 :: escaped escape term ++ [0x25]) text = true ↔
      Str.asciiLower term <:+: Str.asciiLower text := by
  rw [like_eq]
  exact likeBy_contains hany

end Like

end Cabin
