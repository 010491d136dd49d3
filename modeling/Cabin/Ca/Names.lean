import Cabin.Ca.Leaf
import Cabin.Text.Labels
import Cabin.Text.Lines

/-!
# Canonical names

What the policy on subject alternative names lets through (`ca/leaf.py`, `_normalize_san`), and what
reads it back.

* `IsCanonical`: an entry with a kind and a value that the policy accepts, `isCanonical_of_normalizeSan`;
* `named`: the general name it stands for.
-/

namespace Cabin

namespace Leaf

open X509

/-! ### The policy -/

/-- The value is accepted as a name of this kind. -/
def SanKind.Accepts : SanKind → Str → Prop
  | dns, value => isHostname value = true
  | ip, value => isIp value = true
  | email, value => 0x40 ∈ value ∧ value.any Str.isSpace = false

instance : (kind : SanKind) → (value : Str) → Decidable (kind.Accepts value)
  | .dns, _ | .ip, _ => inferInstanceAs (Decidable (_ = _))
  | .email, _ => inferInstanceAs (Decidable (_ ∧ _))

/-- A canonical entry: a kind, and a value that is accepted for it. -/
def IsCanonical (san : Str) : Prop :=
  ∃ (kind : SanKind) (value : Str), san = canonical kind value ∧ kind.Accepts value

/-- The policy returns the kind and the value of an entry, if it accepts them. -/
theorem normalizeSan_eq_ok {entry san : Str} :
    normalizeSan entry = .ok san ↔ ∃ kind value, splitKind (Str.strip entry) = (kind, value) ∧
      value ≠ [] ∧ kind.Accepts value ∧ canonical kind value = san := by
  unfold normalizeSan
  generalize splitKind (Str.strip entry) = kv
  obtain ⟨kind, value⟩ := kv
  simp only [bind_eq_ok, refuse_eq_ok, pure_eq_ok, Prod.mk.injEq]
  constructor
  · rintro ⟨-, hne, -, hip, -, hdns, -, hemail, rfl⟩
    refine ⟨kind, value, ⟨rfl, rfl⟩, hne, ?_, rfl⟩
    cases kind with
    | dns => simpa [SanKind.Accepts] using hdns
    | ip => simpa [SanKind.Accepts] using hip
    | email => simpa [SanKind.Accepts] using hemail
  · rintro ⟨kind', value', ⟨rfl, rfl⟩, hne, haccepts, rfl⟩
    cases kind with
    | dns | ip | email => simpa [hne, SanKind.Accepts] using haccepts

theorem isCanonical_of_normalizeSan {entry san : Str} (h : normalizeSan entry = .ok san) :
    IsCanonical san := by
  obtain ⟨kind, value, -, -, haccepts, rfl⟩ := normalizeSan_eq_ok.1 h
  exact ⟨kind, value, rfl, haccepts⟩

/-- Whatever the policy refuses is bad input. -/
theorem raises_normalizeSan (entry : Str) : Raises (fun e => e.kind = .issue) (normalizeSan entry) := by
  unfold normalizeSan
  refine raises_bind (raises_refuse rfl) fun _ _ => raises_bind (raises_refuse rfl) fun _ _ => ?_
  exact raises_bind (raises_refuse rfl) fun _ _ => raises_bind (raises_refuse rfl) fun _ _ => raises_pure

/-! ### Reading an entry -/

@[simp] theorem partition_canonical (kind : SanKind) (value : Str) :
    Str.partition 0x3A (canonical kind value) = (kind.upper, some value) :=
  Str.partition_append (by cases kind <;> decide)

@[simp] theorem ofUpper_upper (kind : SanKind) : SanKind.ofUpper kind.upper = some kind := by
  cases kind <;> decide

theorem canonical_injective {k k' : SanKind} {v v' : Str} (h : canonical k v = canonical k' v') :
    k = k' ∧ v = v' := by
  have hpart := congrArg (Str.partition 0x3A) h
  rw [partition_canonical, partition_canonical, Prod.mk.injEq, Option.some.injEq] at hpart
  have hkind : some k = some k' := by rw [← ofUpper_upper k, hpart.1, ofUpper_upper]
  exact ⟨Option.some.inj hkind, hpart.2⟩

/-- An entry that begins with `DNS:` is one for a host name. -/
theorem isPrefixOf_canonical (kind : SanKind) (value : Str) :
    (Str.of "DNS:").isPrefixOf (canonical kind value) = (kind == .dns) := by
  cases kind <;> rfl

/-- The general name an entry stands for. -/
def named (san : Str) : Option GeneralName :=
  let (head, rest) := Str.partition 0x3A san
  let value := rest.getD []
  match SanKind.ofUpper head with
  | some .dns => some (.dns value)
  | some .ip => (ipAddress value).map .ip
  | some .email => some (.rfc822 value)
  | none => none

theorem named_dns (value : Str) : named (canonical .dns value) = some (.dns value) := by
  simp [named]

theorem named_ip (value : Str) : named (canonical .ip value) = (ipAddress value).map .ip := by
  simp [named]

theorem named_email (value : Str) : named (canonical .email value) = some (.rfc822 value) := by
  simp [named]

/-- A canonical entry stands for a name. -/
theorem named_of_isCanonical {san : Str} (h : IsCanonical san) : ∃ name, named san = some name := by
  obtain ⟨kind, value, rfl, haccepts⟩ := h
  cases kind with
  | dns => exact ⟨_, named_dns value⟩
  | ip =>
    obtain ⟨a, ha⟩ := Option.isSome_iff_exists.1 haccepts
    exact ⟨.ip a, by rw [named_ip, ha]; rfl⟩
  | email => exact ⟨_, named_email value⟩

/-! ### Entries again -/

/-- The value of an entry is the whole entry, or what stands after its first colon. -/
theorem value_of_splitKind {raw value : Str} {kind : SanKind} (h : splitKind raw = (kind, value)) :
    value = raw ∨ ∃ head rest, Str.partition 0x3A raw = (head, some rest) ∧ value = Str.strip rest := by
  have hbare : ∀ kind value, bareKind raw = (kind, value) → value = raw := by
    intro kind value h
    unfold bareKind at h
    split_ifs at h <;> exact (Prod.mk.inj h).2.symm
  unfold splitKind at h
  split at h
  · exact .inl (hbare kind value h)
  · rename_i head rest hpart
    split at h
    · exact .inr ⟨head, rest, hpart, (Prod.mk.inj h).2.symm⟩
    · exact .inl (hbare kind value h)

/-- The value of an entry is stripped. -/
theorem stripped_of_splitKind {raw value : Str} {kind : SanKind} (hraw : Str.Stripped raw)
    (h : splitKind raw = (kind, value)) : Str.Stripped value := by
  rcases value_of_splitKind h with rfl | ⟨-, rest, -, rfl⟩
  · exact hraw
  · exact Str.stripped_strip rest

theorem mem_of_splitKind {raw value : Str} {kind : SanKind} {c : ℕ} (h : splitKind raw = (kind, value))
    (hc : c ∈ value) : c ∈ raw := by
  rcases value_of_splitKind h with rfl | ⟨head, rest, hpart, rfl⟩
  · exact hc
  · exact Str.mem_of_partition hpart (Str.mem_of_mem_strip hc)

section canonical

variable {kind : SanKind} {value : Str}

theorem strip_canonical (hvalue : Str.Stripped value) :
    Str.strip (canonical kind value) = canonical kind value := by
  have hupper : ∀ c ∈ kind.upper, Str.isSpace c = false := by cases kind <;> decide
  have hkind : kind.upper ≠ [] := by cases kind <;> decide
  refine Str.strip_of_stripped ⟨fun c hc => hupper c ?_, fun c hc => ?_⟩
  · rw [canonical, List.head?_append_of_ne_nil _ hkind] at hc
    exact List.mem_of_mem_head? hc
  · rw [canonical, List.getLast?_append_of_ne_nil _ (List.cons_ne_nil _ _)] at hc
    by_cases hne : value = []
    · subst hne
      obtain rfl := Option.some.inj hc
      decide
    · rw [List.getLast?_cons_of_ne_nil hne] at hc
      exact hvalue.last c hc

theorem splitKind_canonical (hvalue : Str.Stripped value) :
    splitKind (canonical kind value) = (kind, value) := by
  have hword : SanKind.ofWord (Str.lower (Str.strip kind.upper)) = some kind := by
    cases kind <;> decide
  unfold splitKind
  simp only [partition_canonical, hword, Str.strip_of_stripped hvalue]

/-- A canonical entry passes the policy as it is. -/
theorem normalizeSan_canonical (hvalue : Str.Stripped value) (hne : value ≠ [])
    (haccepts : kind.Accepts value) : normalizeSan (canonical kind value) = .ok (canonical kind value) := by
  refine normalizeSan_eq_ok.2 ⟨kind, value, ?_, hne, haccepts, rfl⟩
  rw [strip_canonical hvalue, splitKind_canonical hvalue]

/-- A canonical entry stays as it is, if it passes. -/
theorem eq_of_normalizeSan_canonical {san : Str} (hvalue : Str.Stripped value)
    (h : normalizeSan (canonical kind value) = .ok san) : san = canonical kind value := by
  obtain ⟨kind', value', hsplit, -, -, rfl⟩ := normalizeSan_eq_ok.1 h
  rw [strip_canonical hvalue, splitKind_canonical hvalue] at hsplit
  obtain ⟨rfl, rfl⟩ := Prod.mk.inj hsplit
  rfl

end canonical

/-- What the policy returns, it accepts as it is. -/
theorem normalizeSan_normalizeSan {entry san : Str} (h : normalizeSan entry = .ok san) :
    normalizeSan san = .ok san := by
  obtain ⟨kind, value, hsplit, hne, haccepts, rfl⟩ := normalizeSan_eq_ok.1 h
  exact normalizeSan_canonical (stripped_of_splitKind (Str.stripped_strip entry) hsplit) hne haccepts

/-- Canonical entries that the policy has returned pass it unchanged. -/
theorem mapM_normalizeSan_self {entries sans : List Str} (h : entries.mapM normalizeSan = .ok sans) :
    (Str.unique sans).mapM normalizeSan = .ok (Str.unique sans) := by
  refine mapM_eq_ok_self fun san hsan => ?_
  obtain ⟨entry, -, hentry⟩ := (mem_of_mapM_eq_ok h).1 san (Str.mem_unique.1 hsan)
  exact normalizeSan_normalizeSan hentry

/-! ### Lines again -/

/-- What the policy returns is one line, if the entry is. -/
theorem isLineBreak_of_normalizeSan {entry san : Str} (hentry : ∀ c ∈ entry, Str.isLineBreak c = false)
    (h : normalizeSan entry = .ok san) : ∀ c ∈ san, Str.isLineBreak c = false := by
  obtain ⟨kind, value, hsplit, -, -, rfl⟩ := normalizeSan_eq_ok.1 h
  intro c hc
  rcases List.mem_append.1 hc with hc | hc
  · have hupper : ∀ c ∈ kind.upper, Str.isLineBreak c = false := by cases kind <;> decide
    exact hupper c hc
  · rcases List.mem_cons.1 hc with rfl | hc
    · decide
    · exact hentry c (Str.mem_of_mem_strip (mem_of_splitKind hsplit hc))

/-- An entry the policy has returned is not blank. -/
theorem strip_of_normalizeSan {entry san : Str} (h : normalizeSan entry = .ok san) : Str.strip san ≠ [] := by
  obtain ⟨kind, value, hsplit, -, -, rfl⟩ := normalizeSan_eq_ok.1 h
  rw [strip_canonical (stripped_of_splitKind (Str.stripped_strip entry) hsplit), canonical]
  exact List.append_ne_nil_of_right_ne_nil _ (List.cons_ne_nil _ _)

theorem parseSanLines_eq_ok {text : Str} {sans : List Str} : parseSanLines text = .ok sans ↔
    ∃ entries, ((Str.splitLines text).filter fun line => Str.strip line ≠ []).mapM normalizeSan = .ok entries ∧
      Str.unique entries = sans := by
  simp only [parseSanLines, bind_eq_ok, pure_eq_ok]

theorem mapM_normalizeSan_of_parseSanLines {text : Str} {sans : List Str} (h : parseSanLines text = .ok sans) :
    sans.mapM normalizeSan = .ok sans := by
  obtain ⟨entries, hentries, rfl⟩ := parseSanLines_eq_ok.1 h
  exact mapM_normalizeSan_self hentries

/-- The lines that have been read are read again as they are. -/
theorem parseSanLines_intercalate {text : Str} {sans : List Str} (h : parseSanLines text = .ok sans) :
    parseSanLines ([0x0A].intercalate sans) = .ok sans := by
  obtain ⟨entries, hentries, rfl⟩ := parseSanLines_eq_ok.1 h
  -- Every entry comes from a line, so it is a line itself.
  have hline : ∀ san ∈ Str.unique entries, Str.strip san ≠ [] ∧ ∀ c ∈ san, Str.isLineBreak c = false := by
    intro san hsan
    obtain ⟨line, hmem, hline⟩ := (mem_of_mapM_eq_ok hentries).1 san (Str.mem_unique.1 hsan)
    have hbreak := Str.isLineBreak_of_mem_splitLines (List.mem_of_mem_filter hmem)
    exact ⟨strip_of_normalizeSan hline, isLineBreak_of_normalizeSan hbreak hline⟩
  have hne : ∀ san ∈ Str.unique entries, san ≠ [] := by
    rintro san hsan rfl
    exact (hline _ hsan).1 rfl
  refine parseSanLines_eq_ok.2 ⟨Str.unique entries, ?_, Str.unique_of_nodup (Str.nodup_unique entries)⟩
  rw [Str.splitLines_intercalate hne fun san hsan => (hline san hsan).2,
    List.filter_eq_self.2 fun san hsan => decide_eq_true (hline san hsan).1]
  exact mapM_normalizeSan_self hentries

/-- **Names stay as they are** once they are canonical: the policy returns what it has returned, the lines
read again are the same, and no door that applies the policy to what was read changes or refuses it. -/
theorem canonical_names_stay :
    (∀ entry san, normalizeSan entry = .ok san → normalizeSan san = .ok san) ∧
    (∀ text sans, parseSanLines text = .ok sans → parseSanLines ([0x0A].intercalate sans) = .ok sans) ∧
    ∀ text sans, parseSanLines text = .ok sans → sans.mapM normalizeSan = .ok sans := by
  refine ⟨fun _ _ => normalizeSan_normalizeSan, fun _ _ => parseSanLines_intercalate, fun text sans h => ?_⟩
  exact mapM_normalizeSan_of_parseSanLines h

/-! ### The common name -/

theorem validateCn_eq_ok {cn cn' : Str} : validateCn cn = .ok cn' ↔ cn' = Str.strip cn ∧ cn' ≠ [] ∧
    cn'.length ≤ maxCnLength ∧ ∀ c ∈ cn', ¬ (c < 32 ∨ c = 127) := by
  simp only [validateCn, bind_eq_ok, refuse_eq_ok, pure_eq_ok, List.any_eq_true, Bool.or_eq_true, decide_eq_true_eq,
    beq_iff_eq, not_exists, not_and, not_lt]
  constructor
  · rintro ⟨-, hne, -, hlength, -, hcontrol, rfl⟩
    exact ⟨rfl, hne, hlength, hcontrol⟩
  · rintro ⟨rfl, hne, hlength, hcontrol⟩
    exact ⟨(), hne, (), hlength, (), hcontrol, rfl⟩

/-! ### Host names -/

theorem head?_of_isLabel {s : Str} (h : isLabel s = true) : ∃ c ∈ s.head?, Str.isAlnum c = true := by
  simp only [isLabel, Bool.and_eq_true, Option.any_eq_true] at h
  exact h.1.2

theorem isLabel_ne_nil {s : Str} (h : isLabel s = true) : s ≠ [] := by
  rintro rfl
  obtain ⟨c, hc, -⟩ := head?_of_isLabel h
  cases hc

theorem ne_nil_of_isLabels {s : Str} (h : isLabels s = true) : ∀ p ∈ Str.splitAt 0x2E s, p ≠ [] := by
  unfold isLabels at h
  split_ifs at h with hwild
  · -- The wildcard is a label before the others.
    obtain ⟨rest, rfl⟩ := List.isPrefixOf_iff_prefix.1 hwild
    have hsplit : Str.splitAt 0x2E (Str.of "*." ++ rest) = [0x2A] :: Str.splitAt 0x2E rest :=
      Str.splitAt_append (s := [0x2A])
    rw [hsplit]
    intro p hp
    rcases List.mem_cons.1 hp with rfl | hp
    · exact List.cons_ne_nil _ _
    · exact isLabel_ne_nil (List.all_eq_true.1 h p hp)
  · exact fun p hp => isLabel_ne_nil (List.all_eq_true.1 h p hp)

/-- A host name has no empty label. -/
theorem ne_nil_of_isHostname {s : Str} (h : isHostname s = true) :
    ∀ p ∈ Str.splitAt 0x2E s, p ≠ [] := by
  simp only [isHostname, Bool.and_eq_true, Bool.or_eq_true, beq_iff_eq] at h
  rcases h.2 with h | ⟨hlast, h⟩
  · exact ne_nil_of_isLabels h
  · -- The line feed belongs to the last label.
    have hfeed : (0x0A : ℕ) ≠ 0x2E := by decide
    obtain ⟨ps, p, hsplit, hsplit'⟩ := Str.splitAt_concat hfeed s.dropLast
    rw [List.dropLast_append_getLast? _ hlast] at hsplit'
    have hne := ne_nil_of_isLabels h
    rw [hsplit] at hne
    rw [hsplit']
    intro q hq
    rcases List.mem_append.1 hq with hq | hq
    · exact hne q (List.mem_append_left _ hq)
    · obtain rfl := List.mem_singleton.1 hq
      simp

/-! ### Their characters -/

/-- A character of a host name: a letter, a digit, a hyphen, a full stop or the star of a wildcard. -/
def isHostChar (c : ℕ) : Bool := Str.isAlnum c || c == 0x2D || c == 0x2E || c == 0x2A

theorem isHostChar_cases {c : ℕ} (h : isHostChar c = true) :
    Str.isAlnum c = true ∨ c = 0x2D ∨ c = 0x2E ∨ c = 0x2A := by
  simpa [isHostChar, or_assoc] using h

/-- The characters of a host name can be printed, and are no white space. -/
theorem range_of_isHostChar {c : ℕ} (h : isHostChar c = true) : 0x20 < c ∧ c < 0x7F := by
  rcases isHostChar_cases h with h | rfl | rfl | rfl
  · simp only [Str.isAlnum, Str.isDigit, Bool.or_eq_true, Bool.and_eq_true, decide_eq_true_eq] at h
    omega
  · decide
  · decide
  · decide

theorem isHostChar_of_isLabel {s : Str} (h : isLabel s = true) : ∀ c ∈ s, isHostChar c = true := by
  intro c hc
  simp only [isLabel, Bool.and_eq_true, List.all_eq_true, Bool.or_eq_true, beq_iff_eq] at h
  rcases h.1.1.1 c hc with halnum | rfl
  · simp [isHostChar, halnum]
  · decide

theorem isHostChar_of_isLabels {s : Str} (h : isLabels s = true) : ∀ c ∈ s, isHostChar c = true := by
  have hparts : ∀ t : Str, (Str.splitAt 0x2E t).all isLabel = true → ∀ c ∈ t, isHostChar c = true := by
    intro t ht c hc
    by_cases hdot : c = 0x2E
    · subst hdot
      decide
    · obtain ⟨p, hp, hcp⟩ := Str.mem_of_splitAt hc hdot
      exact isHostChar_of_isLabel (List.all_eq_true.1 ht p hp) c hcp
  unfold isLabels at h
  split_ifs at h with hwild
  · obtain ⟨rest, rfl⟩ := List.isPrefixOf_iff_prefix.1 hwild
    intro c hc
    rcases List.mem_append.1 hc with hc | hc
    · exact (show ∀ c ∈ Str.of "*.", isHostChar c = true by decide) c hc
    · exact hparts rest h c hc
  · exact hparts s h

/-- Only a final line feed may stand in a host name beside its characters. -/
theorem isHostChar_of_isHostname {s : Str} (h : isHostname s = true) :
    ∀ c ∈ s, isHostChar c = true ∨ c = 0x0A := by
  simp only [isHostname, Bool.and_eq_true, Bool.or_eq_true, beq_iff_eq] at h
  intro c hc
  rcases h.2 with h | ⟨hlast, h⟩
  · exact .inl (isHostChar_of_isLabels h c hc)
  · rw [← List.dropLast_append_getLast? _ hlast] at hc
    rcases List.mem_append.1 hc with hc | hc
    · exact .inl (isHostChar_of_isLabels h c hc)
    · exact .inr (List.mem_singleton.1 hc)

/-- A host name is ASCII. -/
theorem isAscii_of_isHostname {s : Str} (h : isHostname s = true) : s.isAscii = true := by
  rw [Str.isAscii, List.all_eq_true]
  intro c hc
  rw [decide_eq_true_iff]
  rcases isHostChar_of_isHostname h c hc with hchar | rfl
  · exact lt_trans (range_of_isHostChar hchar).2 (by decide)
  · decide

end Leaf

end Cabin
