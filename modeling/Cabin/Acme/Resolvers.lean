import Cabin.Acme.Targets
import Cabin.Settings

/-!
# The settings of validation

What an operator can set for validation, as the form checks it (`settings.py`) and as an attempt reads it
(`acme/validation/__init__.py`).  A list of resolvers is stored as one text; both ends cut it at its commas.

* `Settings.validateDnsResolvers` makes the text that is stored, `resolvers` reads it;
* `resolvers_validateDnsResolvers`: what is stored is read, as the addresses that were entered.
-/

namespace Cabin

/-! ### Addresses with a scope -/

namespace Str

variable {sep : ℕ} {s p : Str}

/-- The labels of a text are made of its characters, without the separator. -/
theorem mem_of_mem_splitAt (h : p ∈ splitAt sep s) {c : ℕ} (hc : c ∈ p) : c ∈ s ∧ c ≠ sep := by
  induction s generalizing p with
  | nil =>
    obtain rfl := List.mem_singleton.1 h
    cases hc
  | cons x s ih =>
    by_cases hx : x = sep
    · rw [splitAt, if_pos hx] at h
      rcases List.mem_cons.1 h with rfl | h
      · cases hc
      · exact ⟨List.mem_cons_of_mem _ (ih h hc).1, (ih h hc).2⟩
    · obtain ⟨q, qs, hsplit⟩ := exists_splitAt_eq_cons sep s
      rw [splitAt_cons_of_ne hx hsplit] at h
      rcases List.mem_cons.1 h with rfl | h
      · rcases List.mem_cons.1 hc with rfl | hc
        · exact ⟨List.mem_cons_self, hx⟩
        · have hq := ih (hsplit ▸ List.mem_cons_self) hc
          exact ⟨List.mem_cons_of_mem _ hq.1, hq.2⟩
      · have hp := ih (hsplit ▸ List.mem_cons_of_mem _ h) hc
        exact ⟨List.mem_cons_of_mem _ hp.1, hp.2⟩

/-- Parts without white space at their ends have none at the ends of what they are put together to. -/
theorem stripped_intercalate {ps : List Str} (h : ∀ p ∈ ps, p ≠ [] ∧ Stripped p) :
    Stripped ([sep].intercalate ps) := by
  induction ps with
  | nil => exact ⟨nofun, nofun⟩
  | cons p ps ih =>
    obtain ⟨hne, hp⟩ := h p List.mem_cons_self
    cases ps with
    | nil => simpa using hp
    | cons q qs =>
      have hrest := ih fun r hr => h r (List.mem_cons_of_mem _ hr)
      have hrest_ne : [sep].intercalate (q :: qs) ≠ [] := by
        have hq := (h q (by simp)).1
        cases qs <;> simp [hq]
      rw [List.intercalate_cons_cons]
      refine ⟨fun c hc => hp.head c ?_, fun c hc => hrest.last c ?_⟩
      · rwa [List.append_assoc, List.head?_append_of_ne_nil _ hne] at hc
      · rwa [List.getLast?_append_of_ne_nil _ hrest_ne] at hc

end Str

namespace Ip

variable {s : Str} {a : Ip}

/-- A scope is what stands after the only `%`. -/
theorem eq_of_ipAddress_scope {n : Fin (2 ^ 128)} {scope : Str} (h : ipAddress s = some (.v6 n (some scope))) :
    0x2F ∉ s ∧ scope ≠ [] ∧ 0x25 ∉ scope ∧ ∃ addr, s = addr ++ 0x25 :: scope := by
  unfold ipAddress at h
  split_ifs at h with hslash
  split at h
  · cases h
  · simp only [splitScopeId, Option.bind_eq_bind, Option.bind_eq_some_iff, Option.pure_def, Option.some.injEq,
      Ip.v6.injEq] at h
    obtain ⟨⟨addr, found⟩, hsplit, -, -, -, hfound⟩ := h
    dsimp only at hfound
    obtain rfl := hfound
    split at hsplit
    · cases hsplit
    · rename_i addr' scope' hpart
      split_ifs at hsplit with hbad
      obtain ⟨rfl, hscope⟩ := Prod.mk.inj (Option.some.inj hsplit)
      obtain rfl := Option.some.inj hscope
      rw [not_or, List.isEmpty_iff] at hbad
      refine ⟨hslash, hbad.1, hbad.2, addr', ?_⟩
      unfold Str.partition at hpart
      split at hpart
      · cases hpart
      · rename_i x rest hdrop
        obtain ⟨rfl, hrest⟩ := Prod.mk.inj hpart
        obtain rfl := Option.some.inj hrest
        have hx : x = 0x25 := by
          have hhead := List.head?_dropWhile_not (· != 0x25) s
          rw [hdrop] at hhead
          simpa using hhead
        rw [hx] at hdrop
        rw [← hdrop, List.takeWhile_append_dropWhile]

/-- **What is read is written, and read again**, with its scope. -/
theorem ipAddress_toStr_of_ipAddress (h : ipAddress s = some a) : ipAddress a.toStr = some a := by
  cases hscope : a.scope with
  | none => exact ipAddress_toStr hscope
  | some scope =>
    cases a with
    | v4 n => cases hscope
    | v6 n found =>
      obtain rfl : found = some scope := hscope
      obtain ⟨hslash, hne, hpercent, addr, rfl⟩ := eq_of_ipAddress_scope h
      have hchars : ∀ c ∈ toStr (.v6 n none), isAddressChar c = true := isAddressChar_toStr rfl
      have htext : toStr (.v6 n (some scope)) = toStr (.v6 n none) ++ 0x25 :: scope := rfl
      have hslash' : 0x2F ∉ toStr (.v6 n (some scope)) := by
        rw [htext, List.mem_append, List.mem_cons]
        rintro (hc | hc | hc)
        · exact absurd (hchars _ hc) (by decide)
        · cases hc
        · exact hslash (List.mem_append_right _ (List.mem_cons_of_mem _ hc))
      have hnone : parseV4 (toStr (.v6 n (some scope))) = none := by
        by_contra hsome
        obtain ⟨m, hm⟩ := Option.ne_none_iff_exists'.1 hsome
        exact notMem_of_parseV4 hm (by decide) (by decide)
          (htext ▸ List.mem_append_left _ (colon_mem_of_parseV6 (parseV6_toStr n)))
      have hpart : Str.partition 0x25 (toStr (.v6 n (some scope))) = (toStr (.v6 n none), some scope) := by
        rw [htext]
        exact Str.partition_append fun c hc he => absurd (he ▸ hchars c hc) (by decide)
      rw [ipAddress, if_neg hslash']
      simp only [hnone, splitScopeId, hpart, List.isEmpty_iff, hne, hpercent, or_self, if_false,
        Option.bind_eq_bind, Option.bind_some, parseV6_toStr]
      simp

end Ip

/-! ### Settings -/

namespace Settings

/-- The most resolvers there can be. -/
def maxDnsResolvers : ℕ := 4

/-- What stands between the commas of a text. -/
def candidates (raw : Str) : List Str := ((Str.splitAt 0x2C raw).map Str.strip).filter fun c => c ≠ []

/-- The canonical form of a resolver. -/
def canonicalResolver (candidate : Str) : Except SettingsFailure Str :=
  match ipAddress candidate with
  | some a => .ok a.toStr
  | none => .error (.setting (Acme.cut 200 s!"a DNS resolver must be an IP address, not {candidate.repr}"))

/-- The canonical form of a list of resolvers. -/
def validateDnsResolvers (raw : Str) : Except SettingsFailure Str := do
  let addresses ← (candidates raw).mapM canonicalResolver
  refuse (maxDnsResolvers < addresses.length)
    (.setting s!"at most {maxDnsResolvers} DNS resolvers can be configured")
  pure ([0x2C].intercalate addresses)

/-- What counts as on. -/
def trueValues : List Str := [Str.of "1", Str.of "true", Str.of "yes", Str.of "on"]

/-- A setting that is on or off. -/
def getFlag (default : Bool) : Option Str → Bool
  | none => default
  | some raw => decide (raw.strip.lower ∈ trueValues)

end Settings

namespace Acme

namespace Validation

/-- The resolvers an attempt asks. -/
def resolvers (setting : Option Str) : Except Raised (List Str) :=
  (Settings.candidates (setting.getD []).strip).mapM fun candidate =>
    if (ipAddress candidate).isSome then .ok candidate
    else .error (.acme
      { kind := .serverInternal, detail := "the dns_resolvers setting is not a list of IP addresses" })

end Validation

end Acme

/-! ### What is stored -/

namespace Settings

variable {raw stored : Str} {a : Ip}

theorem candidates_spec {c : Str} (h : c ∈ candidates raw) : c ≠ [] ∧ Str.Stripped c ∧ 0x2C ∉ c := by
  obtain ⟨hmem, hne⟩ := List.mem_filter.1 h
  obtain ⟨p, hp, rfl⟩ := List.mem_map.1 hmem
  exact ⟨of_decide_eq_true hne, Str.stripped_strip p, fun hc => (Str.mem_of_mem_splitAt hp (Str.mem_of_mem_strip hc)).2 rfl⟩

/-- Such texts are what stands between the commas if they are put together. -/
theorem candidates_intercalate {cs : List Str} (h : ∀ c ∈ cs, c ≠ [] ∧ Str.Stripped c ∧ 0x2C ∉ c) :
    candidates ([0x2C].intercalate cs) = cs := by
  cases cs with
  | nil => rfl
  | cons c cs =>
    rw [candidates, Str.splitAt_intercalate (List.cons_ne_nil _ _) fun p hp => (h p hp).2.2]
    have hstrip : (c :: cs).map Str.strip = c :: cs :=
      (List.map_congr_left fun p hp => Str.strip_of_stripped (h p hp).2.1).trans (List.map_id _)
    rw [hstrip, List.filter_eq_self]
    exact fun p hp => decide_eq_true (h p hp).1

/-- The text of an address that was entered can be entered again. -/
theorem toStr_candidate {c : Str} (hc : c ∈ candidates raw) (ha : ipAddress c = some a) :
    a.toStr ≠ [] ∧ Str.Stripped a.toStr ∧ 0x2C ∉ a.toStr := by
  obtain ⟨-, hstripped, hcomma⟩ := candidates_spec hc
  refine ⟨fun hnil => ?_, ?_⟩
  · have hread := Ip.ipAddress_toStr_of_ipAddress ha
    rw [hnil] at hread
    cases hread
  cases hscope : a.scope with
  | none =>
    exact ⟨Str.stripped_of_isSpace (Ip.isSpace_toStr hscope),
      fun hmem => absurd (Ip.isAddressChar_toStr hscope _ hmem) (by decide)⟩
  | some scope =>
    cases a with
    | v4 n => cases hscope
    | v6 n found =>
      obtain rfl : found = some scope := hscope
      obtain ⟨-, hne, -, addr, rfl⟩ := Ip.eq_of_ipAddress_scope ha
      have hspace := Ip.isSpace_toStr (a := .v6 n none) rfl
      have hchars := Ip.isAddressChar_toStr (a := .v6 n none) rfl
      have htext : Ip.toStr (.v6 n (some scope)) = Ip.toStr (.v6 n none) ++ 0x25 :: scope := rfl
      have hlast : (0x25 :: scope).getLast? = (addr ++ 0x25 :: scope).getLast? :=
        (List.getLast?_append_of_ne_nil _ (List.cons_ne_nil _ _)).symm
      rw [htext]
      refine ⟨⟨fun c hc => ?_, fun c hc => ?_⟩, fun hmem => ?_⟩
      · cases htext' : Ip.toStr (.v6 n none) with
        | nil =>
          rw [htext'] at hc
          obtain rfl := Option.some.inj hc
          decide
        | cons x xs =>
          rw [htext'] at hc hspace
          obtain rfl := Option.some.inj hc
          exact hspace _ List.mem_cons_self
      · rw [List.getLast?_append_of_ne_nil _ (List.cons_ne_nil _ _), hlast] at hc
        exact hstripped.last c hc
      · rcases List.mem_append.1 hmem with hmem | hmem
        · exact absurd (hchars _ hmem) (by decide)
        · exact hcomma (List.mem_append_right _ hmem)

theorem canonicalResolver_eq_ok {c text : Str} :
    canonicalResolver c = .ok text ↔ ∃ a, ipAddress c = some a ∧ a.toStr = text := by
  unfold canonicalResolver
  cases ipAddress c with
  | none => simp
  | some a => simp

theorem exists_addresses {cs texts : List Str} (h : List.Forall₂ (fun c text => canonicalResolver c = .ok text) cs texts) :
    ∃ addresses : List Ip, List.Forall₂ (fun c a => ipAddress c = some a) cs addresses ∧
      addresses.map Ip.toStr = texts := by
  induction h with
  | nil => exact ⟨[], .nil, rfl⟩
  | cons hc _ ih =>
    obtain ⟨a, ha, rfl⟩ := canonicalResolver_eq_ok.1 hc
    obtain ⟨addresses, haddresses, rfl⟩ := ih
    exact ⟨a :: addresses, .cons ha haddresses, rfl⟩

theorem mapM_eq_ok_self {ε : Type} {f : Str → Except ε Str} {cs : List Str} (h : ∀ c ∈ cs, f c = .ok c) :
    cs.mapM f = .ok cs := by
  induction cs with
  | nil => rfl
  | cons c cs ih =>
    rw [List.mapM_cons, h c List.mem_cons_self, ih fun d hd => h d (List.mem_cons_of_mem _ hd)]
    rfl

/-- **What is stored is read.**  A list of resolvers that the form accepts is stored as the canonical texts of the
addresses that were entered, four at most; every attempt asks exactly these, and the form accepts what is stored
as it is. -/
theorem resolvers_validateDnsResolvers (h : validateDnsResolvers raw = .ok stored) :
    ∃ addresses : List Ip, addresses.length ≤ 4 ∧
      List.Forall₂ (fun c a => ipAddress c = some a) (candidates raw) addresses ∧
      Acme.Validation.resolvers (some stored) = .ok (addresses.map Ip.toStr) ∧
      validateDnsResolvers stored = .ok stored := by
  simp only [validateDnsResolvers, bind_eq_ok, refuse_eq_ok, pure_eq_ok] at h
  obtain ⟨texts, htexts, -, hshort, rfl⟩ := h
  obtain ⟨addresses, haddresses, rfl⟩ := exists_addresses (forall₂_of_mapM_eq_ok htexts)
  -- The texts are those of addresses, and can be entered again.
  have hgood : ∀ text ∈ addresses.map Ip.toStr, (text ≠ [] ∧ Str.Stripped text ∧ 0x2C ∉ text) ∧
      ∃ a : Ip, ipAddress text = some a ∧ a.toStr = text := by
    intro text htext
    obtain ⟨c, hc, hcanonical⟩ := (mem_of_mapM_eq_ok htexts).1 text htext
    obtain ⟨a, ha, rfl⟩ := canonicalResolver_eq_ok.1 hcanonical
    exact ⟨toStr_candidate hc ha, a, Ip.ipAddress_toStr_of_ipAddress ha, rfl⟩
  have hcandidates := candidates_intercalate fun text htext => (hgood text htext).1
  have hstripped : Str.Stripped ([0x2C].intercalate (addresses.map Ip.toStr)) :=
    Str.stripped_intercalate fun text htext => ⟨(hgood text htext).1.1, (hgood text htext).1.2.1⟩
  have hstrip := Str.strip_of_stripped hstripped
  refine ⟨addresses, by simpa [maxDnsResolvers] using hshort, haddresses, ?_, ?_⟩
  · rw [Acme.Validation.resolvers, Option.getD_some, hstrip, hcandidates]
    refine mapM_eq_ok_self fun text htext => ?_
    obtain ⟨-, a, ha, -⟩ := hgood text htext
    rw [ha]
    rfl
  · have hcanonical := mapM_eq_ok_self fun text htext => canonicalResolver_eq_ok.2 (hgood text htext).2
    simp only [validateDnsResolvers, hcandidates, bind_eq_ok, refuse_eq_ok, pure_eq_ok]
    exact ⟨_, hcanonical, (), hshort, rfl⟩

/-- Two resolvers, one of them with zeros that are not written again. -/
theorem resolvers_validateDnsResolvers_two : ∃ addresses : List Ip, addresses.length ≤ 4 ∧
    Acme.Validation.resolvers (some (Str.of "10.0.0.1,2001:db8::1")) = .ok (addresses.map Ip.toStr) := by
  have h : validateDnsResolvers (Str.of " 10.0.0.1 ,, 2001:0db8:0::1") = .ok (Str.of "10.0.0.1,2001:db8::1") := by
    decide +kernel
  obtain ⟨addresses, hlength, -, hread, -⟩ := resolvers_validateDnsResolvers h
  exact ⟨addresses, hlength, hread⟩

end Settings

end Cabin
