import Cabin.Text.Case
import Cabin.Net.Ip

/-!
# Addresses and their texts

The text of an address without a scope is read back as the address (`ipAddress_toStr`), so two such
addresses with the same text are the same, and may be read in any case (`ipAddress_map`).  For IPv6 the
text leaves out the longest run of zeros; the parser fills it in again, because the run is the only
empty group between others.
-/

namespace Cabin

namespace Str

/-- The parts that are put together with a separator are the labels of the text. -/
theorem splitAt_intercalate {sep : ℕ} {ps : List Str} (hne : ps ≠ []) (h : ∀ p ∈ ps, sep ∉ p) :
    splitAt sep ([sep].intercalate ps) = ps := by
  induction ps with
  | nil => exact absurd rfl hne
  | cons p ps ih =>
    cases ps with
    | nil => simpa using splitAt_of_notMem (h p (by simp))
    | cons q qs =>
      have hrest := ih (by simp) fun r hr => h r (List.mem_cons_of_mem _ hr)
      rw [List.intercalate_cons_cons, List.append_assoc, List.singleton_append, splitAt_append,
        splitAt_of_notMem (h p (by simp)), hrest]
      rfl

end Str

namespace Ip

/-! ### Octets and groups -/

theorem parseOctet_showOctet {n : ℕ} (h : n < 256) : parseOctet (showOctet n) = some n := by
  have hall : ∀ m : Fin 256, parseOctet (showOctet m) = some m.val := by decide +kernel
  exact hall ⟨n, h⟩

theorem hexValue?_digitChar {d : ℕ} (h : d < 16) : Str.hexValue? (digitChar d) = some d := by
  interval_cases d <;> rfl

theorem mapM_eq_some_of_forall {α β : Type} {f : α → Option β} {g : β → α} {ys : List β}
    (h : ∀ y ∈ ys, f (g y) = some y) : (ys.map g).mapM f = some ys := by
  induction ys with
  | nil => rfl
  | cons y ys ih =>
    rw [List.map_cons, List.mapM_cons, h y List.mem_cons_self, ih fun z hz => h z (List.mem_cons_of_mem _ hz)]
    rfl

/-- Zeros in front do not count. -/
theorem ofDigits_dropWhile (base : ℕ) (ds : List ℕ) :
    ofDigits base (ds.dropWhile (· == 0)) = ofDigits base ds := by
  induction ds with
  | nil => rfl
  | cons d ds ih =>
    by_cases hd : d = 0
    · subst hd
      rw [List.dropWhile_cons_of_pos (by simp), ih]
      simp [ofDigits]
    · rw [List.dropWhile_cons_of_neg (by simpa using hd)]

/-- The digits that are written, as they are read back. -/
theorem mapM_hexValue?_showDigits {ds : List ℕ} (h : ∀ d ∈ ds, d < 16) :
    ((showDigits ds).mapM Str.hexValue?).map (ofDigits 16) = some (ofDigits 16 ds) := by
  rw [← ofDigits_dropWhile 16 ds]
  unfold showDigits
  cases hds : ds.dropWhile (· == 0) with
  | nil => rfl
  | cons d rest =>
    have hdigits : ∀ x ∈ d :: rest, Str.hexValue? (digitChar x) = some x := fun x hx =>
      hexValue?_digitChar (h x ((List.dropWhile_suffix _).subset (hds ▸ hx)))
    simp only [mapM_eq_some_of_forall hdigits, Option.map_some]

theorem length_showDigits_le {ds : List ℕ} (h : ds ≠ []) : (showDigits ds).length ≤ ds.length := by
  have hle := (List.dropWhile_suffix (· == 0) (l := ds)).length_le
  unfold showDigits
  split
  · exact List.length_pos_iff.2 h
  · simpa using hle

theorem showDigits_ne_nil {ds : List ℕ} : showDigits ds ≠ [] := by
  unfold showDigits
  cases ds.dropWhile (· == 0) <;> simp

theorem parseHextet_showHextet {n : ℕ} (h : n < 2 ^ 16) : parseHextet (showHextet n) = some n := by
  have hlen : (showHextet n).length ≤ 4 := length_showDigits_le (by simp)
  have hne : showHextet n ≠ [] := showDigits_ne_nil
  have hsum : ofDigits 16 [n / 4096 % 16, n / 256 % 16, n / 16 % 16, n % 16] = n := by
    simp only [ofDigits, List.foldl_cons, List.foldl_nil]
    omega
  unfold parseHextet
  rw [if_neg (by simp [hne, hlen])]
  unfold showHextet
  rw [mapM_hexValue?_showDigits (by simp; omega), hsum]

/-! ### Dotted quads -/

theorem parseV4_showV4 {n : ℕ} (h : n < 2 ^ 32) : parseV4 (showV4 n) = some n := by
  have hsplit : Str.splitAt 0x2E (showV4 n) =
      [n / 2 ^ 24 % 256, n / 2 ^ 16 % 256, n / 2 ^ 8 % 256, n % 256].map showOctet := by
    refine Str.splitAt_intercalate (by simp) fun p hp hdot => ?_
    obtain ⟨m, -, rfl⟩ := List.mem_map.1 hp
    exact absurd (isAlnum_showOctet _ _ hdot) (by decide)
  have hsum : ofDigits 256 [n / 2 ^ 24 % 256, n / 2 ^ 16 % 256, n / 2 ^ 8 % 256, n % 256] = n := by
    simp only [ofDigits, List.foldl_cons, List.foldl_nil]
    omega
  unfold parseV4
  simp only [hsplit, List.length_map, List.length_cons, List.length_nil, if_true]
  rw [mapM_eq_some_of_forall fun m hm => parseOctet_showOctet ?_, Option.map_some, hsum]
  simp only [List.mem_cons, List.not_mem_nil, or_false] at hm
  omega

/-! ### Groups with a gap -/

/-- What the longest run of zeros is: a part of the groups that are zeros. -/
structure IsRun (hs : List ℕ) (run : ℕ × ℕ) : Prop where
  le : run.1 + run.2 ≤ hs.length
  zeros : ∀ i, run.1 ≤ i → i < run.1 + run.2 → hs.getD i 0 = 0

/-- The run found so far, and the zeros at the end of what has been looked at. -/
structure Scanned (hs : List ℕ) (s : (ℕ × ℕ) × ℕ × ℕ) : Prop where
  run : IsRun hs s.1
  le : s.2.1 ≤ hs.length
  zeros : ∀ i, hs.length - s.2.1 ≤ i → i < hs.length → hs.getD i 0 = 0

theorem getD_concat {hs : List ℕ} {x i : ℕ} (h : i < hs.length + 1) :
    (hs ++ [x]).getD i 0 = if i = hs.length then x else hs.getD i 0 := by
  split_ifs with hi
  · simp [hi]
  · simp only [List.getD_eq_getElem?_getD]
    rw [List.getElem?_append_left (by omega)]

theorem IsRun.concat {hs : List ℕ} {run : ℕ × ℕ} (h : IsRun hs run) (x : ℕ) : IsRun (hs ++ [x]) run where
  le := by
    have hle := h.le
    simp only [List.length_append, List.length_singleton]
    omega
  zeros i hlo hhi := by
    have hle := h.le
    rw [getD_concat (by omega), if_neg (by omega)]
    exact h.zeros i hlo hhi

theorem isRun_longestZeros (hs : List ℕ) : IsRun hs (longestZeros hs) := by
  unfold longestZeros
  extract_lets step
  suffices h : Scanned hs (hs.zipIdx.foldl step ((0, 0), 0, 0)) from h.run
  induction hs using List.reverseRecOn with
  | nil => exact ⟨⟨le_refl _, fun i _ hi => absurd hi (by simp)⟩, le_refl _, fun i _ hi => absurd hi (by simp)⟩
  | append_singleton hs x ih =>
    rw [List.zipIdx_append, List.foldl_append]
    generalize hs.zipIdx.foldl step ((0, 0), 0, 0) = s at ih
    obtain ⟨best, len, index⟩ := s
    obtain ⟨hrun, hle, hzeros⟩ := ih
    dsimp only at hrun hle hzeros
    simp only [List.zipIdx_singleton, List.foldl_cons, List.foldl_nil, Nat.zero_add]
    by_cases hx : x = 0
    · subst hx
      have htail : ∀ i, hs.length - len ≤ i → i < hs.length + 1 → (hs ++ [0]).getD i 0 = 0 := by
        intro i hlo hhi
        rw [getD_concat hhi]
        split_ifs with hi
        · rfl
        · exact hzeros i hlo (by omega)
      simp only [step, if_true]
      refine ⟨?_, by simpa using hle, fun i hlo hhi => ?_⟩
      · -- The zeros at the end are a new run, or the old one stays.
        dsimp only
        split_ifs
        · refine ⟨?_, fun i hlo hhi => htail i hlo ?_⟩
          · simp only [List.length_append, List.length_singleton]
            omega
          · dsimp only at hhi
            omega
        · exact hrun.concat 0
      · simp only [List.length_append, List.length_singleton] at hlo hhi
        exact htail i (by omega) hhi
    · simp only [step, if_neg hx]
      refine ⟨hrun.concat x, Nat.zero_le _, fun i hlo hhi => ?_⟩
      dsimp only at hlo
      omega

/-- The text of a group, or of the gap. -/
def showGroup : Option ℕ → Str
  | none => []
  | some n => showHextet n

/-- The groups with the run left out: a gap stands for it, and an empty group for what is missing at
an end. -/
def gapped (hs : List ℕ) (run : ℕ × ℕ) : List (Option ℕ) :=
  if 1 < run.2 then
    (if run.1 = 0 then [none] else []) ++ (hs.take run.1).map some ++ [none] ++
      (hs.drop (run.1 + run.2)).map some ++ (if run.1 + run.2 = hs.length then [none] else [])
  else hs.map some

theorem compressHextets_eq (hs : List ℕ) :
    compressHextets hs = (gapped hs (longestZeros hs)).map showGroup := by
  have hmap : ∀ xs : List ℕ, (xs.map some).map showGroup = xs.map showHextet := fun xs => by
    rw [List.map_map]
    rfl
  have hend : ∀ (c : Prop) [Decidable c],
      (if c then [none] else []).map showGroup = if c then [[]] else [] := fun c _ => by
    split_ifs <;> rfl
  unfold compressHextets gapped
  by_cases hrun : 1 < (longestZeros hs).2
  · simp only [if_pos hrun, List.map_append, hmap, hend]
    rfl
  · simp only [if_neg hrun, hmap]

/-- What is read of a part. -/
def readGroup (p : Str) : Option (Option ℕ) :=
  if p.isEmpty then some none else (parseHextet p).map some

theorem readGroup_showGroup {g : Option ℕ} (h : ∀ n ∈ g, n < 2 ^ 16) :
    readGroup (showGroup g) = some g := by
  cases g with
  | none => rfl
  | some n =>
    have hne : (showHextet n).isEmpty = false := List.isEmpty_eq_false_iff.2 showDigits_ne_nil
    simp only [readGroup, showGroup, hne, parseHextet_showHextet (h n rfl)]
    rfl

/-- A run is nothing but its zeros. -/
theorem IsRun.eq {hs : List ℕ} {run : ℕ × ℕ} (h : IsRun hs run) :
    hs.take run.1 ++ List.replicate run.2 0 ++ hs.drop (run.1 + run.2) = hs := by
  have hle := h.le
  have hmiddle : (hs.drop run.1).take run.2 = List.replicate run.2 0 := by
    refine List.eq_replicate_iff.2 ⟨by simp; omega, fun x hx => ?_⟩
    obtain ⟨i, hi, rfl⟩ := List.getElem_of_mem hx
    have hzero := h.zeros (run.1 + i) (by omega) (by simp at hi; omega)
    simp only [List.length_take, List.length_drop, lt_inf_iff] at hi
    simpa [List.getD_eq_getElem?_getD, List.getElem?_eq_getElem (show run.1 + i < hs.length by omega)]
      using hzero
  rw [← hmiddle, List.append_assoc, ← List.drop_drop, List.take_append_drop, List.take_append_drop]

/-- **The gap is filled in again.** -/
theorem fillGroups_gapped {hs : List ℕ} {run : ℕ × ℕ} (hlen : hs.length = 8) (hrun : IsRun hs run) :
    2 < (gapped hs run).length ∧ (gapped hs run).length ≤ 9 ∧ fillGroups (gapped hs run) = some hs := by
  have heq := hrun.eq
  have hle := hrun.le
  obtain ⟨start, count⟩ := run
  dsimp only at heq hle
  unfold gapped
  dsimp only
  by_cases hcount : 1 < count
  · rw [if_pos hcount]
    have hfill : ∀ ps, fillGroups ps =
        some (hs.take start ++ List.replicate count 0 ++ hs.drop (start + count)) →
        fillGroups ps = some hs := fun ps h => h.trans (congrArg some heq)
    have hend : ∀ (c : Prop) [Decidable c],
        (if c then [(none : Option ℕ)] else []).length = if c then 1 else 0 := fun c _ => by
      split_ifs <;> rfl
    have hparts : ((if start = 0 then [none] else []) ++ (hs.take start).map some ++ [none] ++
        (hs.drop (start + count)).map some ++ (if start + count = hs.length then [none] else [])).length =
        (if start = 0 then 1 else 0) + start + 1 + (8 - (start + count)) +
          (if start + count = 8 then 1 else 0) := by
      simp only [List.length_append, List.length_map, List.length_take, List.length_drop, hend, hlen,
        List.length_singleton]
      omega
    refine ⟨?_, ?_, hfill _ ?_⟩
    · rw [hparts]
      split_ifs <;> omega
    · rw [hparts]
      split_ifs <;> omega
    clear hfill hparts heq hrun
    match hs, hlen with
    | [a, b, c, d, e, f, g, h], _ =>
      simp only [List.length_cons, List.length_nil] at hle
      have hstart : start ≤ 6 := by omega
      have hstop : count ≤ 8 - start := by omega
      interval_cases start <;> interval_cases count <;>
        simp [fillGroups, List.range, List.range.loop]
  · rw [if_neg hcount]
    match hs, hlen with
    | [a, b, c, d, e, f, g, h], _ => exact ⟨by simp, by simp, rfl⟩

/-! ### IPv6 -/

theorem length_hextets (n : ℕ) : (hextets n).length = 8 := rfl

theorem ofDigits_hextets {n : ℕ} (h : n < 2 ^ 128) : ofDigits (2 ^ 16) (hextets n) = n := by
  simp only [hextets, ofDigits, List.map_cons, List.map_nil, List.foldl_cons, List.foldl_nil]
  omega

theorem mem_hextets_lt {n m : ℕ} (h : m ∈ hextets n) : m < 2 ^ 16 := by
  obtain ⟨i, -, rfl⟩ := List.mem_map.1 h
  exact Nat.mod_lt _ (by decide)

theorem mem_gapped {hs : List ℕ} {run : ℕ × ℕ} {n : ℕ} (h : some n ∈ gapped hs run) : n ∈ hs := by
  have hmap : ∀ xs : List ℕ, some n ∈ xs.map some → n ∈ xs := fun xs hn => by simpa using hn
  have hend : ∀ (c : Prop) [Decidable c], some n ∉ if c then [none] else [] := fun c _ => by
    split_ifs <;> simp
  unfold gapped at h
  by_cases hrun : 1 < run.2
  · rw [if_pos hrun] at h
    simp only [List.mem_append, List.mem_singleton, reduceCtorEq, or_false] at h
    rcases h with ((h | h) | h) | h
    · exact absurd h (hend _)
    · exact (List.take_subset _ _) (hmap _ h)
    · exact (List.drop_subset _ _) (hmap _ h)
    · exact absurd h (hend _)
  · rw [if_neg hrun] at h
    exact hmap _ h

theorem notMem_showGroup {g : Option ℕ} {c : ℕ} (h : Str.isAlnum c = false) : c ∉ showGroup g := by
  cases g with
  | none => simp [showGroup]
  | some n =>
    intro hc
    have halnum : Str.isAlnum c = true := isAlnum_showHextet _ _ hc
    rw [h] at halnum
    cases halnum

theorem mapM_readGroup {gs : List (Option ℕ)} (h : ∀ n, some n ∈ gs → n < 2 ^ 16) :
    (gs.map showGroup).mapM readGroup = some gs :=
  mapM_eq_some_of_forall fun g hg => readGroup_showGroup fun n hn => h n (by
    obtain rfl : g = some n := hn
    exact hg)

/-- Groups are read as they are written. -/
theorem expandSuffix_showGroup {gs : List (Option ℕ)} (hne : gs ≠ []) (h : ∀ n, some n ∈ gs → n < 2 ^ 16) :
    expandSuffix (gs.map showGroup) = some gs := by
  have hlast : (gs.map showGroup).getLast? = some (showGroup (gs.getLast hne)) := by
    rw [List.getLast?_map, List.getLast?_eq_getLast_of_ne_nil hne]
    rfl
  unfold expandSuffix
  simp only [hlast]
  rw [if_neg (notMem_showGroup (by decide))]
  exact mapM_readGroup h

theorem parseV6_showV6 {n : ℕ} (h : n < 2 ^ 128) : parseV6 (showV6 n) = some n := by
  obtain ⟨hshort, hlong, hfill⟩ := fillGroups_gapped (length_hextets n) (isRun_longestZeros (hextets n))
  have hne : gapped (hextets n) (longestZeros (hextets n)) ≠ [] := by
    intro hnil
    simp [hnil] at hshort
  have hsplit : Str.splitAt 0x3A (showV6 n) =
      (gapped (hextets n) (longestZeros (hextets n))).map showGroup := by
    unfold showV6
    rw [compressHextets_eq]
    refine Str.splitAt_intercalate (by simpa using hne) fun p hp => ?_
    obtain ⟨g, -, rfl⟩ := List.mem_map.1 hp
    exact notMem_showGroup (by decide)
  unfold parseV6
  simp only [hsplit, List.length_map]
  rw [if_neg (by omega), expandSuffix_showGroup hne fun m hm => mem_hextets_lt (mem_gapped hm)]
  simp only [Option.bind_eq_bind, Option.bind_some]
  rw [if_neg (by omega), hfill, Option.map_some, ofDigits_hextets h]

theorem dot_mem_showV4 {n : ℕ} (h : n < 2 ^ 32) : 0x2E ∈ showV4 n := by
  by_contra hdot
  have hparse := parseV4_showV4 h
  unfold parseV4 at hparse
  rw [Str.splitAt_of_notMem hdot] at hparse
  cases hparse

/-- An IPv4-mapped address ends in a dotted quad. -/
theorem parseV6_mapped {m : ℕ} (h : m < 2 ^ 32) :
    parseV6 (showV6 0xFFFF ++ 0x3A :: showV4 m) = some (0xFFFF * 2 ^ 32 + m) := by
  have hfront : Str.splitAt 0x3A (showV6 0xFFFF) = [[], [], Str.of "ffff"] := by decide +kernel
  have hcolon : 0x3A ∉ showV4 m := notMem_of_parseV4 (parseV4_showV4 h) (by decide) (by decide)
  have hparts : Str.splitAt 0x3A (showV6 0xFFFF ++ 0x3A :: showV4 m) =
      [[], [], Str.of "ffff", showV4 m] := by
    rw [Str.splitAt_append, hfront, Str.splitAt_of_notMem hcolon]
    rfl
  have hexpand : expandSuffix [[], [], Str.of "ffff", showV4 m] =
      some [none, none, some 0xFFFF, some (m / 2 ^ 16), some (m % 2 ^ 16)] := by
    unfold expandSuffix
    simp only [List.getLast?_cons_cons, List.getLast?_singleton, dot_mem_showV4 h, if_true,
      parseV4_showV4 h]
    rfl
  have hfill : fillGroups [none, none, some 0xFFFF, some (m / 2 ^ 16), some (m % 2 ^ 16)] =
      some [0, 0, 0, 0, 0, 0xFFFF, m / 2 ^ 16, m % 2 ^ 16] := rfl
  have hsum : ofDigits (2 ^ 16) [0, 0, 0, 0, 0, 0xFFFF, m / 2 ^ 16, m % 2 ^ 16] =
      0xFFFF * 2 ^ 32 + m := by
    simp only [ofDigits, List.foldl_cons, List.foldl_nil]
    omega
  unfold parseV6
  simp only [hparts, hexpand, Option.bind_eq_bind, Option.bind_some]
  rw [if_neg (by simp), if_neg (by simp), hfill, Option.map_some, hsum]

/-! ### Round trips -/

theorem colon_mem_of_parseV6 {s : Str} {n : ℕ} (h : parseV6 s = some n) : 0x3A ∈ s := by
  by_contra hcolon
  unfold parseV6 at h
  rw [Str.splitAt_of_notMem hcolon] at h
  cases h

/-- The text of an IPv6 address denotes its number. -/
theorem parseV6_toStr (n : Fin (2 ^ 128)) : parseV6 (toStr (.v6 n none)) = some n.val := by
  unfold toStr
  dsimp only
  split_ifs with hmapped
  · rw [parseV6_mapped (Nat.mod_lt _ (by decide))]
    congr 1
    omega
  · exact parseV6_showV6 n.isLt

/-- **The text of an address is read back.** -/
theorem ipAddress_toStr {a : Ip} (h : a.scope = none) : ipAddress a.toStr = some a := by
  have hslash : 0x2F ∉ a.toStr := fun hc => absurd (isAddressChar_toStr h _ hc) (by decide)
  unfold ipAddress
  rw [if_neg hslash]
  cases a with
  | v4 n =>
    rw [show parseV4 (toStr (.v4 n)) = some n.val from parseV4_showV4 n.isLt]
    simp
  | v6 n scope =>
    obtain rfl : scope = none := h
    have hnone : parseV4 (toStr (.v6 n none)) = none := by
      by_contra hsome
      obtain ⟨m, hm⟩ := Option.ne_none_iff_exists'.1 hsome
      exact notMem_of_parseV4 hm (by decide) (by decide) (colon_mem_of_parseV6 (parseV6_toStr n))
    have hpart : Str.partition 0x25 (toStr (.v6 n none)) = (toStr (.v6 n none), none) :=
      Str.partition_of_notMem (percent_notMem_toStr rfl)
    simp only [hnone, splitScopeId, hpart, parseV6_toStr, Option.bind_eq_bind, Option.bind_some]
    simp

/-- Two addresses without scopes that are written the same are the same. -/
theorem toStr_injective {a b : Ip} (ha : a.scope = none) (hb : b.scope = none)
    (h : a.toStr = b.toStr) : a = b := by
  have hread := ipAddress_toStr ha
  rw [h, ipAddress_toStr hb] at hread
  exact (Option.some.inj hread).symm

/-! ### Case -/

section case

variable {f : ℕ → ℕ} (hf : Str.SameDigits f)
include hf

theorem parseOctet_map (s : Str) : parseOctet (s.map f) = parseOctet s := by
  by_cases hall : s.all Str.isDigit = true
  · have hsame : s.map f = s := (List.map_congr_left fun c hc =>
      hf.digit c (List.all_eq_true.1 hall c hc)).trans (List.map_id _)
    rw [hsame]
  · have hall' : (s.map f).all Str.isDigit = false := by
      rw [List.all_map, ← Bool.not_eq_true]
      simpa [Function.comp_def, hf.isDigit] using hall
    simp [parseOctet, hall', hall]

theorem parseV4_map (s : Str) : parseV4 (s.map f) = parseV4 s := by
  have hparse : parseOctet ∘ List.map f = parseOctet := funext (parseOctet_map hf)
  simp only [parseV4, Str.splitAt_map (hf.separator 0x2E (by decide)), List.length_map, List.mapM_map,
    hparse]

theorem parseHextet_map (s : Str) : parseHextet (s.map f) = parseHextet s := by
  have hvalue : Str.hexValue? ∘ f = Str.hexValue? := funext hf.hexValue
  rw [parseHextet, parseHextet, List.isEmpty_map, List.length_map, List.mapM_map, hvalue]

theorem expandSuffix_map (parts : List Str) : expandSuffix (parts.map (List.map f)) = expandSuffix parts := by
  unfold expandSuffix
  rw [List.getLast?_map]
  cases parts.getLast? with
  | none => rfl
  | some last =>
    simp only [Option.map_some, Str.mem_map_iff (hf.separator 0x2E (by decide)), parseV4_map hf,
      ← List.map_dropLast, List.mapM_map, Function.comp_def, List.isEmpty_map, parseHextet_map hf]

theorem parseV6_map (s : Str) : parseV6 (s.map f) = parseV6 s := by
  simp only [parseV6, Str.splitAt_map (hf.separator 0x3A (by decide)), List.length_map,
    expandSuffix_map hf]

/-- **The case of an address does not matter**, unless it has a scope. -/
theorem ipAddress_map {s : Str} (h : 0x25 ∉ s) : ipAddress (s.map f) = ipAddress s := by
  have h' : 0x25 ∉ s.map f := mt (Str.mem_map_iff (hf.separator _ (by decide))).1 h
  unfold ipAddress splitScopeId
  simp only [Str.mem_map_iff (hf.separator 0x2F (by decide)), parseV4_map hf,
    Str.partition_of_notMem h, Str.partition_of_notMem h', Option.bind_eq_bind, Option.bind_some,
    parseV6_map hf]

end case

/-- The parts of an IPv6 address are groups of hexadecimal digits, or dotted quads. -/
theorem isSome_of_expandSuffix {parts : List Str} {groups : List (Option ℕ)} {p : Str} {c : ℕ}
    (h : expandSuffix parts = some groups) (hp : p ∈ parts) (hc : c ∈ p) (hdot : c ≠ 0x2E) :
    (Str.hexValue? c).isSome = true := by
  have hgroups : ∀ {ps : List Str} {gs : List (Option ℕ)}, p ∈ ps →
      (ps.mapM fun p => if p.isEmpty then some none else (parseHextet p).map some) = some gs →
      (Str.hexValue? c).isSome = true := by
    intro ps gs hp hmap
    have hsome := isSome_of_mapM hmap p hp
    rw [if_neg (by simpa using List.ne_nil_of_mem hc), Option.isSome_map] at hsome
    unfold parseHextet at hsome
    split_ifs at hsome with hlen
    · cases hsome
    · rw [Option.isSome_map] at hsome
      obtain ⟨ds, hds⟩ := Option.isSome_iff_exists.1 hsome
      exact isSome_of_mapM hds c hc
  unfold expandSuffix at h
  cases hlast : parts.getLast? with
  | none =>
    rw [hlast] at h
    cases h
  | some last =>
    rw [hlast] at h
    dsimp only at h
    split_ifs at h
    · simp only [Option.bind_eq_bind, Option.bind_eq_some_iff] at h
      obtain ⟨n, hn, front, hfront, -⟩ := h
      obtain ⟨init, rfl⟩ := List.getLast?_eq_some_iff.1 hlast
      rw [List.dropLast_concat] at hfront
      rcases List.mem_append.1 hp with hp | hp
      · exact hgroups hp hfront
      · obtain rfl := List.mem_singleton.1 hp
        have hdigit : Str.isDigit c = true := by
          by_contra hnot
          exact notMem_of_parseV4 hn hdot (Bool.not_eq_true _ ▸ hnot) hc
        simp [Str.hexValue?, hdigit]
    · exact hgroups hp h

theorem isSome_of_parseV6 {s : Str} {n c : ℕ} (h : parseV6 s = some n) (hc : c ∈ s) (hcolon : c ≠ 0x3A)
    (hdot : c ≠ 0x2E) : (Str.hexValue? c).isSome = true := by
  obtain ⟨p, hp, hcp⟩ := Str.mem_of_splitAt hc hcolon
  unfold parseV6 at h
  dsimp only at h
  split_ifs at h
  obtain ⟨groups, hgroups, -⟩ := Option.bind_eq_some_iff.1 h
  exact isSome_of_expandSuffix hgroups hp hcp hdot

/-- An address without a scope has hexadecimal digits, colons and full stops only. -/
theorem isSome_of_ipAddress {s : Str} {a : Ip} {c : ℕ} (h : ipAddress s = some a) (ha : a.scope = none)
    (hc : c ∈ s) (hcolon : c ≠ 0x3A) (hdot : c ≠ 0x2E) : (Str.hexValue? c).isSome = true := by
  have hpercent := percent_notMem_of_scope h ha
  unfold ipAddress at h
  split_ifs at h
  split at h
  · rename_i n hn
    have hdigit : Str.isDigit c = true := by
      by_contra hnot
      exact notMem_of_parseV4 hn hdot (Bool.not_eq_true _ ▸ hnot) hc
    simp [Str.hexValue?, hdigit]
  · simp only [splitScopeId, Str.partition_of_notMem hpercent, Option.bind_eq_bind, Option.bind_some,
      Option.bind_eq_some_iff] at h
    obtain ⟨n, hn, -⟩ := h
    exact isSome_of_parseV6 hn hc hcolon hdot

end Ip

end Cabin
