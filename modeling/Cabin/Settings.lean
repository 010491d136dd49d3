import Cabin.Ca.Certs
import Cabin.Net.Url
import Cabin.Text.Digits

/-!
# The base URL

The public address of the instance (`settings.py`, `web/settings_ui.py`) and what certificates make of it
(`ca/leaf.py`, `ca/crl.py`): a relying party fetches revocation lists and CA certificates over plain HTTP, at
the default port.

* `validateBaseUrl` is the canonical form that is stored, `validateBaseUrlPortForTls` and
  `settingsSubmitPort` the rule for its port while TLS is on, `publicHttpOrigin` what URLs are built on;
* `validateBaseUrl_eq_ok` is the spec of the first, `checkPort_spec` of the second;
* `OffTlsPort` is what is expected of a text, and `off_tls_port_iff` says exactly which texts meet it.
-/

namespace Cabin

namespace Settings

open Url

/-- The exceptions of this module. -/
inductive SettingsFailure where
  /-- A `SettingError`: the message is shown in the form. -/
  | setting (message : String)
  /-- A `ValueError` that is not expected. -/
  | value (message : String)
  deriving DecidableEq, Repr

/-- The exception is a `SettingError`. -/
def SettingsFailure.IsSetting : SettingsFailure → Prop
  | setting _ => True
  | value _ => False

/-- A `ValueError` of the URL library is not caught. -/
def uncaught {α : Type} : Except String α → Except SettingsFailure α
  | .ok a => .ok a
  | .error message => .error (.value message)

variable (U : Unicode)

/-! ### Validation -/

/-- The checks of a parsed base URL, and its canonical form. -/
def canonicalBaseUrl (parsed : SplitResult) : Except SettingsFailure Str := do
  let scheme := Str.asciiLower parsed.scheme
  refuse (scheme ∉ schemes) (.setting "the base URL must be absolute and start with http:// or https://")
  refuse (parsed.netloc = []) (.setting "the base URL must include a host")
  refuse (0x40 ∈ parsed.netloc) (.setting "the base URL must not contain a username or password")
  refuse (0x5C ∈ parsed.netloc) (.setting "the base URL's host must not contain a backslash")
  let canonical := urlunsplit scheme (U.lower parsed.netloc) parsed.path
  refuse (canonical.getLast? = some 0x2F) (.setting "the base URL must not end with a slash")
  pure canonical

/-- The canonical form of a base URL; empty if there is to be none. -/
def validateBaseUrl (raw : Str) : Except SettingsFailure Str :=
  let value := Str.strip raw
  if value = [] then .ok []
  else do
    refuse (value.any Str.isSpace) (.setting "the base URL must not contain whitespace")
    let parsed ← uncaught (urlparse U value)
    canonicalBaseUrl U parsed

/-- A port other than 443 is refused. -/
def checkPort (message : ℕ → String) (baseUrl : Str) : Except SettingsFailure Unit := do
  let parsed ← uncaught (urlparse U baseUrl)
  let port ← uncaught parsed.port
  match port with
  | some n => refuse (n ≠ 443) (.setting (message n))
  | none => .ok ()

/-- The rule for the port of a base URL. -/
def validateBaseUrlPortForTls (baseUrl : Str) (tls : Bool) : Except SettingsFailure Unit :=
  if tls = false ∨ baseUrl = [] then .ok ()
  else checkPort U (fun port =>
    s!"the base URL must not name a port other than 443 while TLS is on (got :{port}): with TLS on, " ++
      "that port is cabin's TLS listener, and the CRL/CA-certificate URLs baked into new certificates " ++
      "would point at it instead of the plaintext PKI listener") baseUrl

/-- The same test in the settings form. -/
def settingsSubmitPort (tlsEnabled : Bool) (value : Str) : Except SettingsFailure Unit :=
  if tlsEnabled = true ∧ value ≠ [] then checkPort U (fun port =>
    s!"the base URL must not name an explicit port ({port}) while TLS is on -- the plaintext CRL/AIA " ++
      "listener runs on a different port, and certificates would carry an address nothing answers on") value
  else .ok ()

/-- What URLs in certificates are built on: plain HTTP, and a written `:443` is dropped. -/
def publicHttpOrigin (baseUrl : Str) : Except SettingsFailure Str := do
  let split ← uncaught (urlsplit U baseUrl)
  let netloc := if (Str.of ":443").isSuffixOf split.netloc then split.netloc.rdrop 4 else split.netloc
  pure (urlunsplit (Str.of "http") netloc split.path)

/-! ### What is expected -/

/-- The URL is for plain HTTP at the default port, on the host of the base URL and below its path. -/
def PlainHttp (baseUrl url : Str) : Prop :=
  ∃ b r : SplitResult, urlsplit U baseUrl = .ok b ∧ urlsplit U url = .ok r ∧ r.scheme = Str.of "http" ∧
    r.port = .ok none ∧ r.hostname U = b.hostname U ∧ b.path <+: r.path ∧ r.query = [] ∧ r.fragment = []

/-- A canonical base URL: scheme and authority are in lower case, and there is nothing but a path after
them, without parameters and not ending in a slash. -/
def Canonical (url : Str) : Prop :=
  ∃ scheme netloc path, url = scheme ++ Str.of "://" ++ netloc ++ path ∧ scheme ∈ schemes ∧ netloc ≠ [] ∧
    U.lower netloc = netloc ∧ 0x40 ∉ netloc ∧ 0x5C ∉ netloc ∧ withoutParams path = path ∧
    urlsplit U url = .ok ⟨scheme, netloc, path, [], []⟩ ∧ path.getLast? ≠ some 0x2F

/-- What is expected of a text that is submitted as a base URL while TLS is on. -/
structure OffTlsPort (raw : Str) : Prop where
  raises : Raises SettingsFailure.IsSetting (validateBaseUrl U raw)
  canonical : ∀ url, validateBaseUrl U raw = .ok url → url = [] ∨ Canonical U url
  idempotent : ∀ url, validateBaseUrl U raw = .ok url → validateBaseUrl U url = .ok url
  rule : ∀ url, validateBaseUrl U raw = .ok url →
    Raises SettingsFailure.IsSetting (validateBaseUrlPortForTls U url true) ∧
      Raises SettingsFailure.IsSetting (settingsSubmitPort U true url)
  urls : ∀ url, validateBaseUrl U raw = .ok url → url ≠ [] →
    (validateBaseUrlPortForTls U url true = .ok () ∨ settingsSubmitPort U true url = .ok ()) →
    ∃ origin, publicHttpOrigin U url = .ok origin ∧ ∀ (db : Db) (issuerId : ℕ), db.origin = some origin →
      (∃ crl, Certs.distributionUrl db issuerId = some crl ∧ PlainHttp U url crl) ∧
        ∃ issuers, Certs.caIssuersUrl db issuerId = some issuers ∧ PlainHttp U url issuers

/-- The parts of a text pass the checks of a base URL. -/
structure Plausible (p : SplitResult) : Prop where
  scheme : p.scheme ∈ schemes
  netloc : p.netloc ≠ []
  user : 0x40 ∉ p.netloc
  backslash : 0x5C ∉ p.netloc
  slash : (withoutParams p.path).getLast? ≠ some 0x2F

/-- The port is a number that a port can have, and if it is 443 it is written so. -/
structure PortNamed (port : Str) : Prop where
  digits : port.all Str.isDigit = true
  short : port.length ≤ maxDigits
  range : portNumber port ≤ 65535
  plain : portNumber port = 443 → port = Str.of "443"

/-- The authority of the text can be read, and so can its port if the rest is in order. -/
def NamesPort (raw : Str) : Prop :=
  Str.strip raw ≠ [] → (∀ c ∈ Str.strip raw, Str.isSpace c = false) →
    checkAuthority U (parts (Str.strip raw)).netloc = .ok () ∧
      (Plausible (parts (Str.strip raw)) →
        (hostinfo (parts (Str.strip raw)).netloc).2 = [] ∨ PortNamed (hostinfo (parts (Str.strip raw)).netloc).2)

/-! ### The canonical form -/

variable {U} {raw url netloc path : Str}

@[simp] theorem uncaught_eq_ok {α : Type} {x : Except String α} {a : α} : uncaught x = .ok a ↔ x = .ok a := by
  cases x with
  | error e => simp [uncaught]
  | ok b => simp [uncaught]

theorem raises_uncaught_iff {α : Type} {x : Except String α} :
    Raises SettingsFailure.IsSetting (uncaught x) ↔ ∃ a, x = .ok a := by
  cases x with
  | error e =>
    rw [uncaught, raises_error_iff]
    exact iff_of_false id nofun
  | ok a => exact iff_of_true raises_ok ⟨a, rfl⟩

theorem urlsplit_eq_ok {r : SplitResult} :
    urlsplit U url = .ok r ↔ checkAuthority U (parts url).netloc = .ok () ∧ parts url = r := by
  simp only [urlsplit, bind_eq_ok, pure_eq_ok]
  constructor
  · rintro ⟨_, hauthority, hr⟩
    exact ⟨hauthority, hr⟩
  · rintro ⟨hauthority, hr⟩
    exact ⟨(), hauthority, hr⟩

theorem urlparse_eq_ok {r : SplitResult} :
    urlparse U url = .ok r ↔ checkAuthority U (parts url).netloc = .ok () ∧
      { parts url with path := withoutParams (parts url).path } = r := by
  simp only [urlparse, bind_eq_ok, urlsplit_eq_ok, pure_eq_ok]
  constructor
  · rintro ⟨_, ⟨hauthority, rfl⟩, hr⟩
    exact ⟨hauthority, hr⟩
  · rintro ⟨hauthority, hr⟩
    exact ⟨_, ⟨hauthority, rfl⟩, hr⟩

theorem asciiLower_scheme (url : Str) : Str.asciiLower (parts url).scheme = (parts url).scheme := by
  simp only [parts, splitScheme]
  split
  · rfl
  · split_ifs
    · simp only [Str.asciiLower, List.map_map]
      exact List.map_congr_left fun c _ => Unicode.asciiLowerChar_idem c
    · rfl

theorem mem_of_mem_withoutParams {c : ℕ} (h : c ∈ withoutParams path) : c ∈ path := by
  rcases List.mem_append.1 h with h | h
  · exact (List.rdropWhile_prefix _ _).subset h
  · exact (List.rtakeWhile_suffix _ _).subset (mem_of_mem_partition_fst h)

theorem slash_notMem_lastSegment (path : Str) : 0x2F ∉ lastSegment path := fun h => by
  simpa using List.mem_rtakeWhile_imp h

/-- A text up to a slash and one without any are told apart again. -/
theorem split_at_slash {dir segment : Str} (hdir : ∀ c ∈ dir.getLast?, c = 0x2F) (h : 0x2F ∉ segment) :
    (dir ++ segment).rdropWhile (· != 0x2F) = dir ∧ lastSegment (dir ++ segment) = segment := by
  have hsegment : ∀ c ∈ segment.reverse, (c != 0x2F) = true := fun c hc => by
    simpa using fun e : c = 0x2F => h (e ▸ List.mem_reverse.1 hc)
  rw [lastSegment, List.rdropWhile, List.rtakeWhile, List.reverse_append,
    List.dropWhile_append_of_pos hsegment, List.takeWhile_append_of_pos hsegment]
  rw [← List.head?_reverse] at hdir
  have hrev : dir.reverse.dropWhile (· != 0x2F) = dir.reverse ∧ dir.reverse.takeWhile (· != 0x2F) = [] := by
    cases hd : dir.reverse with
    | nil => exact ⟨rfl, rfl⟩
    | cons c dir' =>
      obtain rfl : c = 0x2F := hdir c (by rw [hd]; rfl)
      exact ⟨rfl, rfl⟩
  rw [hrev.1, hrev.2, List.append_nil, List.reverse_reverse, List.reverse_reverse]
  exact ⟨rfl, rfl⟩

theorem getLast_rdropWhile (path : Str) : ∀ c ∈ (path.rdropWhile (· != 0x2F)).getLast?, c = 0x2F := by
  intro c hc
  obtain ⟨hne, rfl⟩ := List.mem_getLast?_eq_getLast hc
  simpa using List.rdropWhile_last_not (· != 0x2F) path hne

/-- Parameters are taken off once. -/
theorem withoutParams_withoutParams (path : Str) : withoutParams (withoutParams path) = withoutParams path := by
  have hnot : 0x2F ∉ (Str.partition 0x3B (lastSegment path)).1 := fun h =>
    slash_notMem_lastSegment path (mem_of_mem_partition_fst h)
  obtain ⟨hdir, hsegment⟩ := split_at_slash (getLast_rdropWhile path) hnot
  rw [withoutParams, withoutParams, hdir, hsegment,
    Str.partition_of_notMem (notMem_partition_fst 0x3B (lastSegment path))]

theorem head_withoutParams (h : path = [] ∨ path.head? = some 0x2F) :
    withoutParams path = [] ∨ (withoutParams path).head? = some 0x2F := by
  rcases h with rfl | h
  · exact .inl rfl
  · right
    obtain ⟨path, rfl⟩ := List.head?_eq_some_iff.1 h
    have hne : (0x2F :: path).rdropWhile (· != 0x2F) ≠ [] := by
      rw [Ne, List.rdropWhile_eq_nil_iff]
      exact fun hall => absurd (hall 0x2F List.mem_cons_self) (by decide)
    obtain ⟨rest, hrest⟩ := List.rdropWhile_prefix (· != 0x2F) (0x2F :: path)
    obtain ⟨c, dir, hdir⟩ := List.exists_cons_of_ne_nil hne
    rw [withoutParams, hdir]
    rw [hdir, List.cons_append, List.cons.injEq] at hrest
    rw [hrest.1]
    rfl

/-! ### What is stored -/

/-- White space aside, the canonical form as a text. -/
def shown (U : Unicode) (p : SplitResult) : Str :=
  p.scheme ++ Str.of "://" ++ U.lower p.netloc ++ withoutParams p.path

theorem isSpace_of_isUnsafe {c : ℕ} (h : Str.isSpace c = false) : isUnsafe c = false := by
  simp only [Str.isSpace, Bool.or_eq_false_iff, Bool.and_eq_false_iff, decide_eq_false_iff_not,
    beq_eq_false_iff_ne] at h
  simp only [isUnsafe, Bool.or_eq_false_iff, beq_eq_false_iff_ne]
  omega

theorem inNetloc_lower (hU : U.Lawful) (h : ∀ c ∈ netloc, inNetloc c = true) :
    ∀ c ∈ U.lower netloc, inNetloc c = true := by
  intro c hc
  simp only [inNetloc, Bool.and_eq_true, bne_iff_ne]
  have hnot : ∀ d, d = 0x2F ∨ d = 0x3F ∨ d = 0x23 → c ≠ d := by
    rintro d hd rfl
    have hmem : c ∈ netloc := ((hU.lowered netloc).mem_iff hU (by omega) (by omega) (by omega)).1 hc
    have hin := h c hmem
    simp only [inNetloc, Bool.and_eq_true, bne_iff_ne] at hin
    omega
  exact ⟨⟨hnot _ (.inl rfl), hnot _ (.inr (.inl rfl))⟩, hnot _ (.inr (.inr rfl))⟩

/-- The canonical form ends in a slash only if the path does. -/
theorem getLast_shown (hU : U.Lawful) {p : SplitResult} (hp : WellSplit url p) (h : Plausible p) :
    (shown U p).getLast? ≠ some 0x2F := by
  rw [shown]
  cases hpath : withoutParams p.path with
  | nil =>
    intro hlast
    have hne : U.lower p.netloc ≠ [] := fun hnil =>
      h.netloc (((hU.lowered p.netloc).eq_nil_iff hU).1 hnil)
    rw [List.append_nil, List.getLast?_append_of_ne_nil _ hne] at hlast
    have hin := inNetloc_lower hU hp.netloc _ (List.mem_of_getLast? hlast)
    revert hin
    decide
  | cons c path =>
    have hslash := h.slash
    rw [hpath] at hslash
    rwa [List.getLast?_append_cons]

/-- What the canonical form of a text that passes is made of. -/
structure Parsed (U : Unicode) (url : Str) (p : SplitResult) : Prop where
  wellSplit : WellSplit url p
  space : ∀ c ∈ url, Str.isSpace c = false
  readable : checkAuthority U p.netloc = .ok ()
  shape : Plausible p

namespace Parsed

variable {p : SplitResult}

theorem slash_notMem (h : Parsed U url p) : 0x2F ∉ p.netloc := fun hmem => by
  have hin := h.wellSplit.netloc _ hmem
  revert hin
  decide

variable (hU : U.Lawful) (h : Parsed U url p)
include hU h

theorem isSpace_lower : ∀ c ∈ U.lower p.netloc, Str.isSpace c = false :=
  (hU.lowered p.netloc).isSpace hU fun c hc => h.space c (h.wellSplit.netloc_subset c hc)

theorem isSpace_shown : ∀ c ∈ shown U p, Str.isSpace c = false := by
  have hsep : ∀ c ∈ Str.of "://", Str.isSpace c = false := by decide
  have hscheme : ∀ c ∈ p.scheme, Str.isSpace c = false := by
    have hmem := h.shape.scheme
    revert hmem
    generalize p.scheme = scheme
    revert scheme
    decide
  intro c hc
  simp only [shown, List.mem_append] at hc
  rcases hc with ((hc | hc) | hc) | hc
  · exact hscheme c hc
  · exact hsep c hc
  · exact h.isSpace_lower hU c hc
  · exact h.space c (h.wellSplit.path_subset c (mem_of_mem_withoutParams hc))

/-- The canonical form has the same parts, the authority in lower case. -/
theorem parts_shown : parts (shown U p) = ⟨p.scheme, U.lower p.netloc, withoutParams p.path, [], []⟩ := by
  refine parts_of_url h.shape.scheme (inNetloc_lower hU h.wellSplit.netloc)
    (head_withoutParams (h.wellSplit.path h.shape.netloc))
    (fun hmem => h.wellSplit.query_notMem (mem_of_mem_withoutParams hmem))
    (fun hmem => h.wellSplit.fragment_notMem (mem_of_mem_withoutParams hmem)) fun c hc => ?_
  refine isSpace_of_isUnsafe ?_
  rcases List.mem_append.1 hc with hc | hc
  · exact h.isSpace_lower hU c hc
  · exact h.space c (h.wellSplit.path_subset c (mem_of_mem_withoutParams hc))

/-- The canonical form passes itself. -/
theorem shown_parsed : Parsed U (shown U p) (parts (shown U p)) where
  wellSplit := wellSplit_parts _
  space := h.isSpace_shown hU
  readable := by
    rw [h.parts_shown hU]
    exact readable_of_lowered hU (hU.lowered _) h.shape.user h.slash_notMem h.readable
  shape := by
    rw [h.parts_shown hU]
    exact
      { scheme := h.shape.scheme
        netloc := fun hnil => h.shape.netloc (((hU.lowered p.netloc).eq_nil_iff hU).1 hnil)
        user := mt ((hU.lowered p.netloc).mem_iff hU (by decide) (by decide) (by decide)).1 h.shape.user
        backslash :=
          mt ((hU.lowered p.netloc).mem_iff hU (by decide) (by decide) (by decide)).1 h.shape.backslash
        slash := by
          rw [withoutParams_withoutParams]
          exact h.shape.slash }

theorem shown_shown : shown U (parts (shown U p)) = shown U p := by
  rw [h.parts_shown hU]
  simp only [shown, hU.lower_lower, withoutParams_withoutParams]

end Parsed

theorem urlunsplit_of_netloc {scheme : Str} (hnetloc : netloc ≠ []) (hpath : path = [] ∨ path.head? = some 0x2F) :
    urlunsplit scheme netloc path = scheme ++ Str.of "://" ++ netloc ++ path := by
  rw [urlunsplit, if_pos hnetloc, if_pos hpath]

/-- What the checks of a parsed text establish. -/
theorem canonicalBaseUrl_eq_ok (hU : U.Lawful) {p : SplitResult} (hp : WellSplit raw p)
    (hscheme : Str.asciiLower p.scheme = p.scheme) :
    canonicalBaseUrl U { p with path := withoutParams p.path } = .ok url ↔ Plausible p ∧ url = shown U p := by
  simp only [canonicalBaseUrl, hscheme, bind_eq_ok, refuse_eq_ok, pure_eq_ok, not_not, exists_const]
  have hshown : p.netloc ≠ [] → urlunsplit p.scheme (U.lower p.netloc) (withoutParams p.path) = shown U p :=
    fun hne => urlunsplit_of_netloc (mt ((hU.lowered p.netloc).eq_nil_iff hU).1 hne)
      (head_withoutParams (hp.path hne))
  constructor
  · rintro ⟨hmem, hnetloc, huser, hbackslash, hslash, rfl⟩
    rw [hshown hnetloc] at hslash ⊢
    refine ⟨⟨hmem, hnetloc, huser, hbackslash, fun hlast => hslash ?_⟩, rfl⟩
    rw [shown, List.getLast?_append, hlast]
    rfl
  · rintro ⟨hshape, rfl⟩
    rw [hshown hshape.netloc]
    exact ⟨hshape.scheme, hshape.netloc, hshape.user, hshape.backslash,
      getLast_shown hU hp hshape, rfl⟩

theorem any_isSpace_iff {s : Str} : s.any Str.isSpace = true ↔ ¬ ∀ c ∈ s, Str.isSpace c = false := by
  simp

/-- **What `validate_base_url` returns.** -/
theorem validateBaseUrl_eq_ok (hU : U.Lawful) : validateBaseUrl U raw = .ok url ↔
    (Str.strip raw = [] ∧ url = []) ∨ (Str.strip raw ≠ [] ∧
      Parsed U (Str.strip raw) (parts (Str.strip raw)) ∧ url = shown U (parts (Str.strip raw))) := by
  unfold validateBaseUrl
  dsimp only
  by_cases hnil : Str.strip raw = []
  · rw [if_pos hnil, Except.ok.injEq]
    exact ⟨fun h => .inl ⟨hnil, h.symm⟩, fun h => h.elim (fun h => h.2.symm) fun h => absurd hnil h.1⟩
  · have hwell := wellSplit_parts (Str.strip raw)
    simp only [if_neg hnil, bind_eq_ok, refuse_eq_ok, any_isSpace_iff, not_not, uncaught_eq_ok, urlparse_eq_ok,
      exists_const]
    constructor
    · rintro ⟨hspace, p, ⟨hreadable, rfl⟩, hcanonical⟩
      obtain ⟨hshape, rfl⟩ := (canonicalBaseUrl_eq_ok hU hwell (asciiLower_scheme _)).1 hcanonical
      exact .inr ⟨hnil, ⟨hwell, hspace, hreadable, hshape⟩, rfl⟩
    · rintro (⟨h, -⟩ | ⟨-, h, rfl⟩)
      · exact absurd h hnil
      · exact ⟨h.space, _, ⟨h.readable, rfl⟩,
          (canonicalBaseUrl_eq_ok hU hwell (asciiLower_scheme _)).2 ⟨h.shape, rfl⟩⟩

theorem raises_canonicalBaseUrl (p : SplitResult) : Raises SettingsFailure.IsSetting (canonicalBaseUrl U p) := by
  unfold canonicalBaseUrl
  refine raises_bind (raises_refuse trivial) fun _ _ => ?_
  refine raises_bind (raises_refuse trivial) fun _ _ => ?_
  refine raises_bind (raises_refuse trivial) fun _ _ => ?_
  refine raises_bind (raises_refuse trivial) fun _ _ => ?_
  exact raises_bind (raises_refuse trivial) fun _ _ => raises_pure

/-- A text is refused with another exception only where its authority cannot be read. -/
theorem raises_validateBaseUrl_iff : Raises SettingsFailure.IsSetting (validateBaseUrl U raw) ↔
    (Str.strip raw ≠ [] → (∀ c ∈ Str.strip raw, Str.isSpace c = false) →
      checkAuthority U (parts (Str.strip raw)).netloc = .ok ()) := by
  unfold validateBaseUrl
  dsimp only
  by_cases hnil : Str.strip raw = []
  · rw [if_pos hnil]
    exact iff_of_true raises_ok fun h => absurd hnil h
  · rw [if_neg hnil, raises_bind_right (raises_refuse trivial)]
    simp only [refuse_eq_ok, any_isSpace_iff, not_not, raises_bind_left raises_canonicalBaseUrl,
      raises_uncaught_iff, urlparse_eq_ok, exists_and_left, exists_eq', and_true]
    exact ⟨fun h _ hspace => h () hspace, fun h _ hspace => h hnil hspace⟩

/-- A canonical URL is its own canonical form. -/
theorem validateBaseUrl_shown (hU : U.Lawful) {p : SplitResult} (h : Parsed U raw p) :
    validateBaseUrl U (shown U p) = .ok (shown U p) := by
  have hstrip : Str.strip (shown U p) = shown U p := Str.strip_of_isSpace (h.isSpace_shown hU)
  refine (validateBaseUrl_eq_ok hU).2 (.inr ?_)
  rw [hstrip]
  refine ⟨fun hnil => ?_, h.shown_parsed hU, (h.shown_shown hU).symm⟩
  have hparts := h.parts_shown hU
  rw [hnil] at hparts
  have hscheme := h.shape.scheme
  rw [← congrArg SplitResult.scheme hparts] at hscheme
  revert hscheme
  decide

theorem canonical_shown (hU : U.Lawful) {p : SplitResult} (h : Parsed U raw p) : Canonical U (shown U p) := by
  have hshown := h.shown_parsed hU
  rw [h.parts_shown hU] at hshown
  refine ⟨p.scheme, U.lower p.netloc, withoutParams p.path, rfl, h.shape.scheme, hshown.shape.netloc,
    hU.lower_lower _, hshown.shape.user, hshown.shape.backslash, withoutParams_withoutParams _, ?_,
    h.shape.slash⟩
  exact urlsplit_eq_ok.2 ⟨by rw [h.parts_shown hU]; exact hshown.readable, h.parts_shown hU⟩

/-! ### The port -/

theorem port_eq_ok {r : SplitResult} {n : Option ℕ} : r.port = .ok n ↔
    ((hostinfo r.netloc).2 = [] ∧ n = none) ∨
    ((hostinfo r.netloc).2 ≠ [] ∧ (hostinfo r.netloc).2.all Str.isDigit = true ∧
      (hostinfo r.netloc).2.length ≤ maxDigits ∧ portNumber (hostinfo r.netloc).2 ≤ 65535 ∧
      n = some (portNumber (hostinfo r.netloc).2)) := by
  unfold SplitResult.port
  dsimp only
  split_ifs with hnil hdigits hlong hlarge
  · simp [hnil, eq_comm]
  · simp [hnil, hdigits]
  · simp [hnil, hlong]
  · simp [hnil, hlarge]
  · rw [Bool.not_eq_false] at hdigits
    simp [hnil, hdigits, not_lt.1 hlong, not_lt.1 hlarge, eq_comm]

/-- **The rule for the port.**  It is enforced with a `SettingError` if there is a port to read, and then a
URL passes if it names none or 443. -/
theorem checkPort_spec (message : ℕ → String) (hreadable : checkAuthority U (parts url).netloc = .ok ()) :
    (Raises SettingsFailure.IsSetting (checkPort U message url) ↔ ∃ n, (parts url).port = .ok n) ∧
    (checkPort U message url = .ok () ↔ (parts url).port = .ok none ∨ (parts url).port = .ok (some 443)) := by
  have hparse : uncaught (urlparse U url) = .ok { parts url with path := withoutParams (parts url).path } :=
    uncaught_eq_ok.2 (urlparse_eq_ok.2 ⟨hreadable, rfl⟩)
  have hport : SplitResult.port { parts url with path := withoutParams (parts url).path } = (parts url).port :=
    rfl
  unfold checkPort
  rw [hparse]
  simp only [bind, Except.bind, hport]
  cases (parts url).port with
  | error e =>
    rw [uncaught, raises_error_iff]
    exact ⟨iff_of_false id (by simp), iff_of_false (by simp) (by simp)⟩
  | ok n =>
    cases n with
    | none => exact ⟨iff_of_true raises_ok ⟨none, rfl⟩, iff_of_true rfl (.inl rfl)⟩
    | some n =>
      refine ⟨iff_of_true (raises_refuse trivial) ⟨some n, rfl⟩, ?_⟩
      simp [uncaught]

/-! ### Addresses in certificates -/

/-- What may be put after the path of a base URL: a slash, and no query or fragment. -/
structure IsSuffix (suffix : Str) : Prop where
  head : suffix.head? = some 0x2F
  chars : ∀ c ∈ suffix, c ≠ 0x3F ∧ c ≠ 0x23
  safe : ∀ c ∈ suffix, isUnsafe c = false

/-- The paths of revocation lists and certificates. -/
theorem isSuffix_of_id {front back : Str} (hfront : IsSuffix front)
    (hback : ∀ c ∈ back, c ≠ 0x3F ∧ c ≠ 0x23 ∧ isUnsafe c = false) (issuerId : ℕ) :
    IsSuffix (front ++ Str.ofNat issuerId ++ back) where
  head := by
    rw [List.append_assoc, List.head?_append, hfront.head]
    rfl
  chars c hc := by
    simp only [List.mem_append] at hc
    rcases hc with (hc | hc) | hc
    · exact hfront.chars c hc
    · have hdigit := Str.isDigit_of_mem_ofNat hc
      omega
    · exact ⟨(hback c hc).1, (hback c hc).2.1⟩
  safe c hc := by
    simp only [List.mem_append] at hc
    rcases hc with (hc | hc) | hc
    · exact hfront.safe c hc
    · have hdigit := Str.isDigit_of_mem_ofNat hc
      simp only [isUnsafe, Bool.or_eq_false_iff, beq_eq_false_iff_ne]
      omega
    · exact (hback c hc).2.2

theorem isSuffix_crl (issuerId : ℕ) : IsSuffix (Str.of "/crl/" ++ Str.ofNat issuerId) := by
  have h : IsSuffix (Str.of "/crl/" ++ Str.ofNat issuerId ++ []) :=
    isSuffix_of_id ⟨by decide, by decide, by decide⟩ (by simp) issuerId
  rwa [List.append_nil] at h

theorem isSuffix_issuers (issuerId : ℕ) : IsSuffix (Str.of "/ca/" ++ Str.ofNat issuerId ++ Str.of ".cer") :=
  isSuffix_of_id ⟨by decide, by decide, by decide⟩ (by decide) issuerId

/-- The parts of a URL below the base URL, on a host of its authority. -/
theorem parts_below (h : Parsed U url (parts url)) {host suffix : Str}
    (hsubset : ∀ c ∈ host, c ∈ (parts url).netloc) (hsuffix : IsSuffix suffix) :
    parts (Str.of "http" ++ Str.of "://" ++ host ++ ((parts url).path ++ suffix)) =
      ⟨Str.of "http", host, (parts url).path ++ suffix, [], []⟩ := by
  refine parts_of_url (by decide) (fun c hc => h.wellSplit.netloc c (hsubset c hc)) (.inr ?_) ?_ ?_ ?_
  · rcases h.wellSplit.path h.shape.netloc with hpath | hpath
    · rw [hpath]
      exact hsuffix.head
    · rw [List.head?_append, hpath]
      rfl
  · rw [List.mem_append]
    exact not_or.2 ⟨h.wellSplit.query_notMem, fun hmem => (hsuffix.chars _ hmem).1 rfl⟩
  · rw [List.mem_append]
    exact not_or.2 ⟨h.wellSplit.fragment_notMem, fun hmem => (hsuffix.chars _ hmem).2 rfl⟩
  · intro c hc
    rcases List.mem_append.1 hc with hc | hc
    · exact isSpace_of_isUnsafe (h.space c (h.wellSplit.netloc_subset c (hsubset c hc)))
    · rcases List.mem_append.1 hc with hc | hc
      · exact isSpace_of_isUnsafe (h.space c (h.wellSplit.path_subset c hc))
      · exact hsuffix.safe c hc

/-- A URL below the base URL, on its host, for plain HTTP and without a port. -/
theorem plainHttp_of_host (hU : U.Lawful) (h : Parsed U url (parts url)) {host suffix : Str}
    (hbracketed : Bracketed host) (hsubset : ∀ c ∈ host, c ∈ (parts url).netloc)
    (hhost : hostinfo host = ((hostinfo (parts url).netloc).1, [])) (hsuffix : IsSuffix suffix) :
    PlainHttp U url (Str.of "http" ++ Str.of "://" ++ host ++ ((parts url).path ++ suffix)) := by
  have hparts := parts_below h hsubset hsuffix
  have hhidden := ((checkAuthority_iff hU h.shape.user h.slash_notMem).1 h.readable).2
  have hreadable : checkAuthority U host = .ok () :=
    (checkAuthority_iff hU (fun hmem => h.shape.user (hsubset _ hmem))
      fun hmem => h.slash_notMem (hsubset _ hmem)).2 ⟨hbracketed, fun c hc => hhidden c (hsubset c hc)⟩
  refine ⟨parts url, _, urlsplit_eq_ok.2 ⟨h.readable, rfl⟩, urlsplit_eq_ok.2 ⟨?_, hparts⟩, rfl, ?_, ?_,
    List.prefix_append _ _, rfl, rfl⟩
  · rw [hparts]
    exact hreadable
  · exact port_eq_ok.2 (.inl ⟨congrArg Prod.snd hhost, rfl⟩)
  · simp only [SplitResult.hostname]
    rw [hhost]

/-- The authority of the origin. -/
def originHost (netloc : Str) : Str :=
  if (Str.of ":443").isSuffixOf netloc then netloc.rdrop 4 else netloc

theorem publicHttpOrigin_eq (h : Parsed U url (parts url)) : publicHttpOrigin U url =
    .ok (Str.of "http" ++ Str.of "://" ++ originHost (parts url).netloc ++ (parts url).path) := by
  have hsplit : uncaught (urlsplit U url) = .ok (parts url) := uncaught_eq_ok.2 (urlsplit_eq_ok.2 ⟨h.readable, rfl⟩)
  have hpath := h.wellSplit.path h.shape.netloc
  unfold publicHttpOrigin
  rw [hsplit]
  change Except.ok (urlunsplit (Str.of "http") (originHost (parts url).netloc) (parts url).path) = _
  rw [urlunsplit, if_pos hpath]
  split_ifs with hnil
  · rfl
  · rw [not_not.1 hnil, List.append_nil]

theorem bracketed_netloc (hU : U.Lawful) (h : Parsed U url (parts url)) : Bracketed (parts url).netloc :=
  ((checkAuthority_iff hU h.shape.user h.slash_notMem).1 h.readable).1

theorem written_443 : Str.of ":443" = 0x3A :: Str.of "443" := by decide

theorem digits_443 : (Str.of "443").all Str.isDigit = true := by decide

/-- The authority ends in `:443` only if that is how its port is written. -/
theorem port_of_isSuffixOf (hU : U.Lawful) (h : Parsed U url (parts url))
    (hdigits : (hostinfo (parts url).netloc).2.all Str.isDigit = true)
    (hsuffix : (Str.of ":443").isSuffixOf (parts url).netloc = true) :
    (hostinfo (parts url).netloc).2 = Str.of "443" := by
  obtain ⟨front, hfront⟩ := List.isSuffixOf_iff_suffix.1 hsuffix
  rw [written_443] at hfront
  rcases port_cases h.shape.user (bracketed_netloc hU h) with ⟨-, hnone⟩ | ⟨host, heq, -⟩
  · have hnot := hnone front _ hfront.symm
    rw [digits_443] at hnot
    cases hnot
  · exact (eq_of_append_cons (heq.symm.trans hfront.symm) (colon_notMem_of_digits hdigits)
      (colon_notMem_of_digits digits_443)).2

/-- Where no port is named, the authority is all host. -/
theorem originHost_of_none (hU : U.Lawful) (h : Parsed U url (parts url))
    (hport : (hostinfo (parts url).netloc).2 = []) :
    originHost (parts url).netloc = (parts url).netloc := by
  refine if_neg fun hsuffix => ?_
  have h443 := port_of_isSuffixOf hU h (by rw [hport]; rfl) hsuffix
  rw [hport] at h443
  revert h443
  decide

/-- The host the origin names: the one of the base URL, without a port. -/
theorem originHost_spec (hU : U.Lawful) (h : Parsed U url (parts url))
    (hport : (hostinfo (parts url).netloc).2 = [] ∨ (hostinfo (parts url).netloc).2 = Str.of "443") :
    Bracketed (originHost (parts url).netloc) ∧
      (∀ c ∈ originHost (parts url).netloc, c ∈ (parts url).netloc) ∧
      hostinfo (originHost (parts url).netloc) = ((hostinfo (parts url).netloc).1, []) := by
  rcases hport with hport | hport
  · rw [originHost_of_none hU h hport]
    exact ⟨bracketed_netloc hU h, fun c hc => hc, Prod.ext rfl hport⟩
  · rcases port_cases h.shape.user (bracketed_netloc hU h) with ⟨hnil, -⟩ | ⟨host, heq, hinfo, hbracketed⟩
    · rw [hnil] at hport
      exact absurd hport (by decide)
    · rw [hport, ← written_443] at heq
      have horigin : originHost (parts url).netloc = host := by
        rw [originHost, if_pos (List.isSuffixOf_iff_suffix.2 ⟨host, heq.symm⟩), heq]
        exact List.rdrop_append_length
      rw [horigin]
      refine ⟨hbracketed, fun c hc => ?_, hinfo⟩
      rw [heq]
      exact List.mem_append_left _ hc

/-! ### The main result -/

/-- What is asked of URLs in certificates, for both of them. -/
theorem urls_iff (h : Parsed U url (parts url)) :
    (∃ origin, publicHttpOrigin U url = .ok origin ∧ ∀ (db : Db) (issuerId : ℕ), db.origin = some origin →
      (∃ crl, Certs.distributionUrl db issuerId = some crl ∧ PlainHttp U url crl) ∧
        ∃ issuers, Certs.caIssuersUrl db issuerId = some issuers ∧ PlainHttp U url issuers) ↔
    ∀ issuerId, ∀ suffix ∈ [Str.of "/crl/" ++ Str.ofNat issuerId,
      Str.of "/ca/" ++ Str.ofNat issuerId ++ Str.of ".cer"],
      PlainHttp U url (Str.of "http" ++ Str.of "://" ++ originHost (parts url).netloc ++
        ((parts url).path ++ suffix)) := by
  rw [publicHttpOrigin_eq h]
  simp only [Except.ok.injEq, exists_eq_left', List.forall_mem_cons, List.not_mem_nil, IsEmpty.forall_iff,
    implies_true, and_true]
  constructor
  · intro hall issuerId
    obtain ⟨⟨crl, hcrl, hplain⟩, issuers, hissuers, hplain'⟩ := hall { Db.empty with origin := some _ } issuerId rfl
    simp only [Certs.distributionUrl, Certs.caIssuersUrl, Option.map_some, Option.some.injEq] at hcrl hissuers
    subst hcrl hissuers
    simp only [List.append_assoc] at hplain hplain' ⊢
    exact ⟨hplain, hplain'⟩
  · intro hall db issuerId horigin
    obtain ⟨hplain, hplain'⟩ := hall issuerId
    simp only [Certs.distributionUrl, Certs.caIssuersUrl, horigin, Option.map_some]
    simp only [List.append_assoc] at hplain hplain' ⊢
    exact ⟨⟨_, rfl, hplain⟩, _, rfl, hplain'⟩

/-- The port of a text and of its canonical form. -/
theorem port_shown (hU : U.Lawful) {p : SplitResult} (h : Parsed U raw p) :
    (hostinfo (parts (shown U p)).netloc).2.all Str.isDigit = (hostinfo p.netloc).2.all Str.isDigit ∧
      ((hostinfo p.netloc).2.all Str.isDigit = true →
        (hostinfo (parts (shown U p)).netloc).2 = (hostinfo p.netloc).2) := by
  rw [h.parts_shown hU]
  have hbracketed := ((checkAuthority_iff hU h.shape.user h.slash_notMem).1 h.readable).1
  exact all_isDigit_of_lowered hU
    (hostinfo_of_lowered hU (hU.lowered p.netloc) h.shape.user hbracketed).2

theorem tls_rule (hne : url ≠ []) :
    ∃ message, validateBaseUrlPortForTls U url true = checkPort U message url := by
  rw [validateBaseUrlPortForTls, if_neg (by simp [hne])]
  exact ⟨_, rfl⟩

theorem submit_rule (hne : url ≠ []) : ∃ message, settingsSubmitPort U true url = checkPort U message url := by
  rw [settingsSubmitPort, if_pos ⟨rfl, hne⟩]
  exact ⟨_, rfl⟩

/-- For a canonical URL: the rule is enforced and what passes it is served at the default port, if and only
if the port is written as it should be. -/
theorem rule_iff (hU : U.Lawful) (hne : url ≠ []) (h : Parsed U url (parts url)) :
    ((Raises SettingsFailure.IsSetting (validateBaseUrlPortForTls U url true) ∧
        Raises SettingsFailure.IsSetting (settingsSubmitPort U true url)) ∧
      ((validateBaseUrlPortForTls U url true = .ok () ∨ settingsSubmitPort U true url = .ok ()) →
        ∃ origin, publicHttpOrigin U url = .ok origin ∧ ∀ (db : Db) (issuerId : ℕ), db.origin = some origin →
          (∃ crl, Certs.distributionUrl db issuerId = some crl ∧ PlainHttp U url crl) ∧
            ∃ issuers, Certs.caIssuersUrl db issuerId = some issuers ∧ PlainHttp U url issuers)) ↔
    ((hostinfo (parts url).netloc).2 = [] ∨ PortNamed (hostinfo (parts url).netloc).2) := by
  obtain ⟨message, htls⟩ := tls_rule (U := U) hne
  obtain ⟨message', hsubmit⟩ := submit_rule (U := U) hne
  obtain ⟨hraises, hpasses⟩ := checkPort_spec message h.readable
  obtain ⟨hraises', hpasses'⟩ := checkPort_spec message' h.readable
  rw [htls, hsubmit, hraises, hraises', hpasses, hpasses', or_self, and_self, urls_iff h]
  constructor
  · rintro ⟨⟨n, hn⟩, hurls⟩
    rcases port_eq_ok.1 hn with ⟨hnil, -⟩ | ⟨hne, hdigits, hshort, hrange, rfl⟩
    · exact .inl hnil
    · refine .inr ⟨hdigits, hshort, hrange, fun h443 => ?_⟩
      by_contra hwritten
      -- The port stays in the origin.
      have horigin : originHost (parts url).netloc = (parts url).netloc :=
        if_neg fun hsuffix => hwritten (port_of_isSuffixOf hU h hdigits hsuffix)
      rw [h443] at hn
      obtain ⟨-, r, -, hr, -, hport, -⟩ := hurls (.inr hn) 0 _ List.mem_cons_self
      obtain ⟨-, rfl⟩ := urlsplit_eq_ok.1 hr
      rw [horigin, parts_below h (fun c hc => hc) (isSuffix_crl 0)] at hport
      have hsame : (parts url).port = .ok none := hport
      rw [hn] at hsame
      cases hsame
  · intro hport
    have hread : ∃ n, (parts url).port = .ok n := by
      rcases hport with hnil | hnamed
      · exact ⟨none, port_eq_ok.2 (.inl ⟨hnil, rfl⟩)⟩
      · by_cases hnil : (hostinfo (parts url).netloc).2 = []
        · exact ⟨none, port_eq_ok.2 (.inl ⟨hnil, rfl⟩)⟩
        · exact ⟨_, port_eq_ok.2 (.inr ⟨hnil, hnamed.digits, hnamed.short, hnamed.range, rfl⟩)⟩
    refine ⟨hread, fun haccepted issuerId suffix hsuffix => ?_⟩
    have hwritten : (hostinfo (parts url).netloc).2 = [] ∨ (hostinfo (parts url).netloc).2 = Str.of "443" := by
      rcases haccepted with haccepted | haccepted
      · rcases port_eq_ok.1 haccepted with ⟨hnil, -⟩ | ⟨-, -, -, -, hnone⟩
        · exact .inl hnil
        · cases hnone
      · rcases port_eq_ok.1 haccepted with ⟨-, hnone⟩ | ⟨hne, -, -, -, h443⟩
        · cases hnone
        · exact .inr ((hport.resolve_left hne).plain (Option.some.inj h443).symm)
    obtain ⟨hbracketed, hsubset, hhost⟩ := originHost_spec hU h hwritten
    refine plainHttp_of_host hU h hbracketed hsubset hhost ?_
    simp only [List.mem_cons, List.not_mem_nil, or_false] at hsuffix
    rcases hsuffix with rfl | rfl
    · exact isSuffix_crl issuerId
    · exact isSuffix_issuers issuerId

theorem shown_ne_nil {p : SplitResult} (h : Plausible p) : shown U p ≠ [] := by
  intro hnil
  simp only [shown, List.append_eq_nil_iff] at hnil
  have hscheme := h.scheme
  rw [hnil.1.1.1] at hscheme
  revert hscheme
  decide

/-- The canonical form names its port as the text does. -/
theorem portNamed_shown_iff (hU : U.Lawful) {p : SplitResult} (h : Parsed U raw p) :
    ((hostinfo (parts (shown U p)).netloc).2 = [] ∨ PortNamed (hostinfo (parts (shown U p)).netloc).2) ↔
      ((hostinfo p.netloc).2 = [] ∨ PortNamed (hostinfo p.netloc).2) := by
  obtain ⟨hall, hsame⟩ := port_shown hU h
  have hdigits : ∀ {port : Str}, port = [] ∨ PortNamed port → port.all Str.isDigit = true := by
    rintro port (rfl | hport)
    · rfl
    · exact hport.digits
  constructor
  · intro hport
    rwa [hsame (hall ▸ hdigits hport)] at hport
  · intro hport
    rwa [hsame (hdigits hport)]

/-- **Certificates never point at the TLS port** if and only if the authority of the base URL can be read,
and so can its port, and 443 is not written with leading zeros. -/
theorem off_tls_port_iff (hU : U.Lawful) (raw : Str) : OffTlsPort U raw ↔ NamesPort U raw := by
  constructor
  · intro h hne hspace
    have hreadable := raises_validateBaseUrl_iff.1 h.raises hne hspace
    refine ⟨hreadable, fun hshape => ?_⟩
    have hparsed : Parsed U (Str.strip raw) (parts (Str.strip raw)) :=
      ⟨wellSplit_parts _, hspace, hreadable, hshape⟩
    have hvalid := (validateBaseUrl_eq_ok hU).2 (.inr ⟨hne, hparsed, rfl⟩)
    have hurl : shown U (parts (Str.strip raw)) ≠ [] := shown_ne_nil hshape
    exact (portNamed_shown_iff hU hparsed).1 ((rule_iff hU hurl (hparsed.shown_parsed hU)).1
      ⟨h.rule _ hvalid, h.urls _ hvalid hurl⟩)
  · intro h
    have hrule : ∀ {url}, validateBaseUrl U raw = .ok url → url = [] ∨
        (Parsed U (Str.strip raw) (parts (Str.strip raw)) ∧ url = shown U (parts (Str.strip raw)) ∧
          ((hostinfo (parts url).netloc).2 = [] ∨ PortNamed (hostinfo (parts url).netloc).2)) := by
      intro url hurl
      rcases (validateBaseUrl_eq_ok hU).1 hurl with ⟨-, rfl⟩ | ⟨hne, hparsed, rfl⟩
      · exact .inl rfl
      · exact .inr ⟨hparsed, rfl, (portNamed_shown_iff hU hparsed).2
          ((h hne hparsed.space).2 hparsed.shape)⟩
    exact
      { raises := raises_validateBaseUrl_iff.2 fun hne hspace => (h hne hspace).1
        canonical := fun url hurl => (hrule hurl).imp_right fun ⟨hparsed, heq, _⟩ =>
          heq ▸ canonical_shown hU hparsed
        idempotent := fun url hurl => by
          rcases hrule hurl with rfl | ⟨hparsed, rfl, -⟩
          · rfl
          · exact validateBaseUrl_shown hU hparsed
        rule := fun url hurl => by
          rcases hrule hurl with rfl | ⟨hparsed, rfl, hport⟩
          · exact ⟨raises_ok, raises_ok⟩
          · exact ((rule_iff hU (shown_ne_nil hparsed.shape) (hparsed.shown_parsed hU)).2 hport).1
        urls := fun url hurl hne => by
          rcases hrule hurl with rfl | ⟨hparsed, rfl, hport⟩
          · exact absurd rfl hne
          · exact ((rule_iff hU hne (hparsed.shown_parsed hU)).2 hport).2 }

/-- A base URL with a port of its own is refused, one without is served at port 80. -/
theorem off_tls_port_sample : OffTlsPort .ascii (Str.of "https://CA.lan:443/pki") :=
  (off_tls_port_iff Unicode.lawful_ascii _).2 (by
    refine fun _ _ => ⟨by decide +kernel, fun _ => .inr ?_⟩
    exact ⟨by decide +kernel, by decide +kernel, by decide +kernel, fun _ => by decide +kernel⟩)

/-- With leading zeros, 443 passes the rule and stays in the addresses. -/
theorem zeros_reach_certificates : ¬ ∀ (U : Unicode), U.Lawful → ∀ raw, OffTlsPort U raw := by
  intro hall
  have h := hall .ascii Unicode.lawful_ascii (Str.of "https://ca.lan:0443")
  have hvalid : validateBaseUrl .ascii (Str.of "https://ca.lan:0443") = .ok (Str.of "https://ca.lan:0443") := by
    decide +kernel
  have haccepted : validateBaseUrlPortForTls .ascii (Str.of "https://ca.lan:0443") true = .ok () := by
    decide +kernel
  obtain ⟨origin, horigin, hurls⟩ := h.urls _ hvalid (by decide) (.inl haccepted)
  have hrun : publicHttpOrigin .ascii (Str.of "https://ca.lan:0443") = .ok (Str.of "http://ca.lan:0443") := by
    decide +kernel
  obtain rfl := Except.ok.inj (hrun.symm.trans horigin)
  obtain ⟨⟨crl, hcrl, -, r, -, hr, -, hport, -⟩, -⟩ :=
    hurls { Db.empty with origin := some (Str.of "http://ca.lan:0443") } 1 rfl
  obtain rfl : Str.of "http://ca.lan:0443/crl/1" = crl := by
    refine Option.some.inj (Eq.trans ?_ hcrl)
    decide +kernel
  have hsplit : urlsplit .ascii (Str.of "http://ca.lan:0443/crl/1") =
      .ok ⟨Str.of "http", Str.of "ca.lan:0443", Str.of "/crl/1", [], []⟩ := by
    decide +kernel
  obtain rfl := Except.ok.inj (hsplit.symm.trans hr)
  revert hport
  decide +kernel

end Settings

end Cabin
