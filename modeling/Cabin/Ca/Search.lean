import Cabin.Ca.ConstraintLines
import Cabin.Ca.Inputs
import Cabin.Ca.Inventory

/-!
# Searching the inventory

A search term is looked for in the common name, in the JSON text of the names and in the serial number of
a row (`certs.py`, `_filters`).  It goes to lower case as Python has it, the columns as the database has it,
and the names are searched as JSON writes them.

* `matchesTerm_iff` : `LIKE` and its escapes come to this, that the term stands in a column;
* `StoredRow` is what the columns of a row look like, `storedRow_of_store` says that issued rows do;
* `found_by_name_iff` : which names a row is found by.
-/

namespace Cabin

namespace Certs

open Leaf

/-! ### What is expected -/

/-- A text that can be the common name of a certificate. -/
def IsCommonName (cn : Str) : Prop := validateCn cn = .ok cn ∧ ∃ name, X509.nameOfCommonName cn = .ok name

/-- An entry of a row: canonical, in ASCII and without white space. -/
def IsStored (san : Str) : Prop :=
  ∃ (kind : SanKind) (value : Str), san = canonical kind value ∧ kind.Accepts value ∧
    ∀ c ∈ value, c < 128 ∧ Str.isSpace c = false

/-- The columns of a row are those of an issued certificate. -/
structure StoredRow (row : Certificate) : Prop where
  commonName : row.subjectCn = [] ∨ IsCommonName row.subjectCn
  named : row.sans ≠ []
  sans : ∀ san ∈ row.sans, IsStored san

/-- The columns that are searched. -/
def columns (row : Certificate) : List Str := [row.subjectCn, sansJson row, serialHex row]

/-- The text stands in the common name or in one of the names. -/
def NamedBy (row : Certificate) (u : Str) : Prop := u <:+: row.subjectCn ∨ ∃ san ∈ row.sans, u <:+: san

variable (U : Unicode)

/-- The text is typed, in any letter case. -/
structure Types (q u : Str) : Prop where
  stripped : Str.Stripped q
  length : q.length ≤ maxQueryLength
  lower : U.lower q = U.lower u

/-- The text stands in a column, up to letter case. -/
def Contains (row : Certificate) (q : Str) : Prop :=
  ∃ column ∈ columns row, ∃ v, v <:+: column ∧ U.lower v = U.lower q

/-- What a search for a text should return. -/
structure FoundByName (u : Str) : Prop where
  /-- The rows that the text names, on one of the pages. -/
  found : ∀ createdAt (rows : Table Certificate) now, (∀ row ∈ rows, StoredRow row) →
    ∀ row ∈ rows, NamedBy row u → ∀ q, Types U q u →
      (∃ returned, exportCertificates U createdAt rows q (Str.of "all") now = .ok returned ∧ row ∈ returned) ∧
      ∀ perPage, rows.rows.length ≤ maxPage.toNat * perPage → ∃ page returned total,
        listCertificates U createdAt rows q (Str.of "all") page perPage now = .ok (returned, total) ∧ row ∈ returned
  /-- No row that does not contain it. -/
  contains : ∀ createdAt (rows : Table Certificate) status now q, Types U q u →
    (∀ returned, exportCertificates U createdAt rows q status now = .ok returned →
      ∀ row ∈ returned, Contains U row q) ∧
    ∀ page perPage returned total,
      listCertificates U createdAt rows q status page perPage now = .ok (returned, total) →
        ∀ row ∈ returned, Contains U row q

/-- The text is written in JSON so that it still stands there. -/
def Kept (u : Str) : Prop := Str.asciiLower u <:+: Str.asciiLower (u.flatMap Json.dumpsChar)

instance (u : Str) : Decidable (Kept u) := inferInstanceAs (Decidable (_ <:+: _))

/-- The lower cases agree if the text can be in a common name; and it is kept if it can be in one of the
names, but for the two characters that begin the list of names. -/
structure Searchable (u : Str) : Prop where
  commonName : IsCommonName u → U.lower u = Str.asciiLower u
  names : (∀ c ∈ u, c < 128 ∧ Str.isSpace c = false) → Kept u ∨ u = Str.of "[\""

variable {U} {u q : Str} {row : Certificate} {now : AwareDatetime} {rows : Table Certificate}

/-! ### Patterns -/

/-- **A term is found where it stands in a column.** -/
theorem matchesTerm_iff (term : Str) : matchesTerm term row = true ↔
    ∃ column ∈ columns row, Str.asciiLower term <:+: Str.asciiLower column := by
  simp only [matchesTerm, columns, List.any_eq_true, like_searchPattern]

theorem searchTerm_eq (h : Types U q u) : searchTerm U q = U.lower u := by
  rw [searchTerm, Str.strip_of_stripped h.stripped, List.take_of_length_le h.length, h.lower]

/-- What a search selects. -/
theorem selects_iff_columns (hU : U.Lawful) (hne : u ≠ []) (h : Types U q u) {status : Str}
    {conditions : List Condition} (hstatus : statusConditions status now = .ok conditions) : Selects U q status now row ↔
      (∃ column ∈ columns row, U.lower u <:+: Str.asciiLower column) ∧ meets conditions row = true := by
  have hlower : U.lower u ≠ [] := mt ((hU.lowered u).eq_nil_iff hU).1 hne
  rw [selects_iff hstatus, searchTerm_eq h, matchesTerm_iff, (hU.lowered u).asciiLower_eq hU]
  simp only [hlower, ne_eq, not_false_eq_true, true_imp_iff]

/-! ### What is returned -/

theorem mem_newestFirst {createdAt : Certificate → ℤ} {l : List Certificate} :
    row ∈ newestFirst createdAt l ↔ row ∈ l := List.mem_mergeSort

/-- An export has the rows that are selected. -/
theorem mem_export {createdAt : Certificate → ℤ} {status : Str} {returned : List Certificate}
    (h : exportCertificates U createdAt rows q status now = .ok returned) :
    row ∈ returned ↔ row ∈ rows ∧ Selects U q status now row := by
  simp only [exportCertificates, bind_eq_ok, pure_eq_ok] at h
  obtain ⟨conditions, hconditions, rfl⟩ := h
  simp only [mem_newestFirst, Table.mem_select, Selects, hconditions, Except.ok.injEq, exists_eq_left']

/-- A page has no others. -/
theorem mem_export_of_mem_list {createdAt : Certificate → ℤ} {status : Str} {page : ℤ} {perPage total : ℕ}
    {returned : List Certificate}
    (h : listCertificates U createdAt rows q status page perPage now = .ok (returned, total)) :
    ∃ all, exportCertificates U createdAt rows q status now = .ok all ∧ ∀ row ∈ returned, row ∈ all := by
  simp only [listCertificates, bind_eq_ok, pure_eq_ok, Prod.mk.injEq] at h
  obtain ⟨conditions, hconditions, rfl, -⟩ := h
  refine ⟨_, bind_eq_ok.2 ⟨conditions, hconditions, rfl⟩, fun row hrow => ?_⟩
  exact List.mem_of_mem_drop (List.mem_of_mem_take hrow)

/-- Each row that is selected is on a page, if there are not too many rows. -/
theorem exists_list {createdAt : Certificate → ℤ} {status : Str} {perPage : ℕ} (hrow : row ∈ rows)
    (hselects : Selects U q status now row) (hfew : rows.rows.length ≤ maxPage.toNat * perPage) :
    ∃ page returned total,
      listCertificates U createdAt rows q status page perPage now = .ok (returned, total) ∧ row ∈ returned := by
  obtain ⟨conditions, hconditions, hmeets⟩ := hselects
  have hmem : row ∈ newestFirst createdAt (rows.select (meets conditions)) :=
    mem_newestFirst.2 (Table.mem_select.2 ⟨hrow, hmeets⟩)
  have hlength : (newestFirst createdAt (rows.select (meets conditions))).length ≤ maxPage.toNat * perPage := by
    rw [newestFirst, List.length_mergeSort]
    exact (List.length_filter_le _ _).trans hfew
  obtain ⟨k, hk, hpage⟩ := exists_page hmem hlength
  have hclamp : (min (max ((k : ℤ) + 1) 1) maxPage - 1).toNat = k := by
    unfold maxPage at hk ⊢
    omega
  refine ⟨k + 1, _, _, bind_eq_ok.2 ⟨conditions, hconditions, pure_eq_ok.2 rfl⟩, ?_⟩
  rw [hclamp]
  exact hpage

/-- Whatever a search returns has the term in a column. -/
theorem contains_of_selects (hU : U.Lawful) (hfold : ∀ s, U.lower (Str.asciiLower s) = U.lower s) (hne : u ≠ [])
    (h : Types U q u) {status : Str} (hselects : Selects U q status now row) : Contains U row q := by
  obtain ⟨conditions, hconditions, hmeets⟩ := hselects
  simp only [filters, bind_eq_ok, pure_eq_ok] at hconditions
  obtain ⟨byStatus, hstatus, rfl⟩ := hconditions
  obtain ⟨⟨column, hcolumn, hsub⟩, -⟩ :=
    (selects_iff_columns hU hne h hstatus).1 ⟨_, filters_eq hstatus, hmeets⟩
  obtain ⟨front, back, hsplit⟩ := hsub
  -- The part of the column where the term stands.
  refine ⟨column, hcolumn, (column.drop front.length).take (U.lower u).length,
    (List.take_prefix _ _).isInfix.trans (List.drop_suffix _ _).isInfix, ?_⟩
  have hpart : Str.asciiLower ((column.drop front.length).take (U.lower u).length) = U.lower u := by
    rw [Str.asciiLower, List.map_take, List.map_drop, ← Str.asciiLower, ← hsplit, List.append_assoc, List.drop_left,
      List.take_left]
  rw [← hfold, hpart, hU.lower_lower, h.lower]

/-! ### Names in JSON -/

/-- One character of a name, as JSON writes it, in lower case. -/
def shown (c : ℕ) : Str := Str.asciiLower (Json.dumpsChar c)

theorem shown_eq_self {c : ℕ} (hlow : 0x20 ≤ c) (hhigh : c ≤ 0x7E) (hquote : c ≠ 0x22) (hslash : c ≠ 0x5C)
    (hletter : ¬ (0x41 ≤ c ∧ c ≤ 0x5A)) : shown c = [c] := by
  rw [shown, Json.dumpsChar_eq_self hlow hhigh hquote hslash]
  exact congrArg (fun x => [x]) (if_neg hletter)

theorem shown_asciiLowerChar (c : ℕ) : shown (Str.asciiLowerChar c) = shown c := by
  by_cases hletter : 0x41 ≤ c ∧ c ≤ 0x5A
  · have hlower : Str.asciiLowerChar c = c + 0x20 := if_pos hletter
    rw [hlower, shown_eq_self (by omega) (by omega) (by omega) (by omega) (by omega), shown,
      Json.dumpsChar_eq_self (by omega) (by omega) (by omega) (by omega)]
    exact congrArg (fun x => [x]) hlower.symm
  · rw [Str.asciiLowerChar, if_neg hletter]

/-- To lower case before or after. -/
theorem asciiLower_flatMap_dumpsChar (s : Str) :
    Str.asciiLower (s.flatMap Json.dumpsChar) = (Str.asciiLower s).flatMap shown := by
  simp only [Str.asciiLower, List.map_flatMap, List.flatMap_map]
  exact List.flatMap_congr fun c _ => (shown_asciiLowerChar c).symm

theorem kept_iff : Kept u ↔ Str.asciiLower u <:+: (Str.asciiLower u).flatMap shown := by
  rw [Kept, asciiLower_flatMap_dumpsChar]

theorem dumpsItems_map_str (sans : List Str) : Json.dumpsItems (sans.map Json.str) = sans.map Json.dumpsString := by
  induction sans with
  | nil => rfl
  | cons san sans ih =>
    rw [List.map_cons, Json.dumpsItems, ih]
    rfl

theorem sansJson_eq (row : Certificate) :
    sansJson row = 0x5B :: Json.joined (row.sans.map Json.dumpsString) ++ [0x5D] := by
  rw [sansJson, Json.dumps, dumpsItems_map_str]

theorem infix_joined {t : Str} {ts : List Str} (h : t ∈ ts) : t <:+: Json.joined ts := by
  induction ts with
  | nil => cases h
  | cons t' ts ih =>
    cases ts with
    | nil =>
      obtain rfl := List.mem_singleton.1 h
      exact List.infix_rfl
    | cons t'' ts =>
      rcases List.mem_cons.1 h with rfl | h
      · exact List.infix_append_left
      · exact ((ih h).trans (List.suffix_cons _ _).isInfix |>.trans (List.suffix_cons _ _).isInfix).trans
          List.infix_append_right

/-- A name stands in the column as JSON writes it. -/
theorem infix_sansJson {san : Str} (h : san ∈ row.sans) : san.flatMap Json.dumpsChar <:+: sansJson row := by
  have hstring : san.flatMap Json.dumpsChar <:+: Json.dumpsString san :=
    ⟨[0x22], [0x22], by simp [Json.dumpsString]⟩
  rw [sansJson_eq]
  exact (hstring.trans (infix_joined (List.mem_map_of_mem h))).trans ⟨[0x5B], [0x5D], by simp⟩

/-- The column begins with a bracket and a quotation mark. -/
theorem bracket_prefix_sansJson (h : row.sans ≠ []) : Str.of "[\"" <+: sansJson row := by
  rw [sansJson_eq]
  cases hsans : row.sans with
  | nil => exact absurd hsans h
  | cons san sans =>
    cases sans with
    | nil => exact ⟨san.flatMap Json.dumpsChar ++ [0x22] ++ [0x5D], by simp [Json.joined, Json.dumpsString, Str.of]⟩
    | cons san' sans =>
      exact ⟨_, by
        simp only [List.map_cons, Json.joined, Json.dumpsString, List.cons_append]
        rfl⟩

/-! ### What a stored row has -/

theorem range_of_isStored {san : Str} (h : IsStored san) : ∀ c ∈ san, c < 128 ∧ Str.isSpace c = false := by
  obtain ⟨kind, value, rfl, -, hvalue⟩ := h
  have hupper : ∀ c ∈ kind.upper, c < 128 ∧ Str.isSpace c = false := by cases kind <;> decide
  intro c hc
  rcases List.mem_append.1 hc with hc | hc
  · exact hupper c hc
  · rcases List.mem_cons.1 hc with rfl | hc
    · decide
    · exact hvalue c hc

/-- A part of a text has an encoding that is not longer. -/
theorem utf8Length?_of_infix {cn : Str} {n : ℕ} (h : u <:+: cn) (hn : Str.utf8Length? cn = some n) :
    ∃ m ≤ n, Str.utf8Length? u = some m := by
  obtain ⟨front, back, rfl⟩ := h
  unfold Str.utf8Length? at hn ⊢
  split_ifs at hn with hsurrogate
  rw [List.any_append, List.any_append] at hsurrogate
  simp only [Bool.or_eq_true, not_or] at hsurrogate
  refine ⟨_, ?_, if_neg hsurrogate.1.2⟩
  rw [← Option.some.inj hn, List.map_append, List.map_append, List.sum_append, List.sum_append]
  omega

/-- A part of a common name can be a common name. -/
theorem IsCommonName.part_of {cn : Str} (hcn : IsCommonName cn) (hne : u ≠ []) (hstripped : Str.Stripped u)
    (h : u <:+: cn) : IsCommonName u := by
  obtain ⟨hvalid, hname⟩ := hcn
  obtain ⟨-, hne', hlength, hcontrol⟩ := validateCn_eq_ok.1 hvalid
  obtain ⟨n, hn, hle⟩ := (leafSubject_eq_ok hne').1 hname
  obtain ⟨m, hm, hutf8⟩ := utf8Length?_of_infix h hn
  exact ⟨validateCn_eq_ok.2 ⟨(Str.strip_of_stripped hstripped).symm, hne, h.length_le.trans hlength,
    fun c hc => hcontrol c (h.subset hc)⟩, (leafSubject_eq_ok hne).2 ⟨m, hutf8, hm.trans hle⟩⟩

/-- **A text that can be searched for stands in a column** of each row that it names. -/
theorem exists_column (hU : U.Lawful) (h : Searchable U u) (hne : u ≠ []) (hstripped : Str.Stripped u)
    (hrow : StoredRow row) (hnamed : NamedBy row u) :
    ∃ column ∈ columns row, U.lower u <:+: Str.asciiLower column := by
  rcases hnamed with hcn | ⟨san, hsan, hsub⟩
  · refine ⟨row.subjectCn, List.mem_cons_self, ?_⟩
    rcases hrow.commonName with hnil | hvalid
    · rw [hnil] at hcn
      exact absurd (List.infix_nil.1 hcn) hne
    · rw [h.commonName (hvalid.part_of hne hstripped hcn)]
      exact hcn.map _
  · have hrange : ∀ c ∈ u, c < 128 ∧ Str.isSpace c = false := fun c hc =>
      range_of_isStored (hrow.sans san hsan) c (hsub.subset hc)
    refine ⟨sansJson row, by simp [columns], ?_⟩
    rw [(hU.lowered u).eq_of_isAscii hU fun c hc => (hrange c hc).1]
    rcases h.names hrange with hkept | rfl
    · exact hkept.trans (((hsub.flatMap _).trans (infix_sansJson hsan)).map _)
    · exact (bracket_prefix_sansJson hrow.named).isInfix.map _

/-! ### Issued rows -/

section issued

open X509

variable {E : Crypto}

/-- What is asked for is canonical, and its value is stripped. -/
def IsTrimmed (san : Str) : Prop :=
  ∃ (kind : SanKind) (value : Str), san = canonical kind value ∧ kind.Accepts value ∧ Str.Stripped value

theorem isTrimmed_of_normalizeSan {entry san : Str} (h : normalizeSan entry = .ok san) : IsTrimmed san := by
  obtain ⟨kind, value, hsplit, -, haccepts, rfl⟩ := normalizeSan_eq_ok.1 h
  exact ⟨kind, value, rfl, haccepts, stripped_of_splitKind (Str.stripped_strip entry) hsplit⟩

theorem isTrimmed_of_sanFromCn {name san : Str} (hname : Str.Stripped name) (h : sanFromCn name = some san) :
    IsTrimmed san := by
  unfold sanFromCn at h
  split_ifs at h with hip hhost
  · exact ⟨.ip, name, (Option.some.inj h).symm, hip, hname⟩
  · exact ⟨.dns, name, (Option.some.inj h).symm, hhost, hname⟩

theorem validateCn_idem {subjectCn cn : Str} (h : validateCn subjectCn = .ok cn) :
    validateCn cn = .ok cn ∧ Str.Stripped cn := by
  obtain ⟨rfl, hne, hlength, hcontrol⟩ := validateCn_eq_ok.1 h
  have hstripped := Str.stripped_strip subjectCn
  exact ⟨validateCn_eq_ok.2 ⟨(Str.strip_of_stripped hstripped).symm, hne, hlength, hcontrol⟩, hstripped⟩

/-- The common name of a request is valid. -/
theorem validateCn_of_csrSubject {csr : Csr} {fallback cn : Option Str} {allowed : Bool}
    (h : csrSubject csr fallback allowed = .ok cn) (name : Str) (hname : cn = some name) :
    validateCn name = .ok name ∧ Str.Stripped name := by
  have hvalid : ∀ raw, (validateCn raw).map some = .ok cn → validateCn name = .ok name ∧ Str.Stripped name := by
    intro raw hraw
    cases hvalidated : validateCn raw with
    | error e =>
      rw [hvalidated] at hraw
      cases hraw
    | ok name' =>
      rw [hvalidated] at hraw
      obtain rfl : name' = name := Option.some.inj ((Except.ok.inj hraw).trans hname)
      exact validateCn_idem hvalidated
  unfold csrSubject at h
  split at h
  · exact hvalid _ h
  · cases h
  · split at h
    · exact hvalid _ h
    · split_ifs at h
      · rw [← Except.ok.inj h] at hname
        cases hname
      · cases h

variable {d : Draw} {issuerCert cert : Cert} {issuerKey : PrivateKey} {crlUrl caIssuersUrl : Option Str}
  {call : LeafCall} {chosen : List Str}

/-- What wins is trimmed, and something does. -/
theorem isTrimmed_of_names (h : call.names = .ok chosen) : chosen ≠ [] ∧ ∀ san ∈ chosen, IsTrimmed san := by
  have htyped : ∀ {entries sans : List Str}, entries.mapM normalizeSan = .ok sans →
      ∀ san ∈ sans, IsTrimmed san := by
    intro entries sans hsans san hsan
    obtain ⟨entry, -, hentry⟩ := (mem_of_mapM_eq_ok hsans).1 san hsan
    exact isTrimmed_of_normalizeSan hentry
  have hsome : ∀ {explicit fromCsr : List Str} {cn : Option Str}, chooseSans explicit fromCsr cn = .ok chosen →
      chosen ≠ [] := by
    intro explicit fromCsr cn hchosen
    unfold chooseSans at hchosen
    split_ifs at hchosen with hexplicit hcsr
    · exact Except.ok.inj hchosen ▸ hexplicit
    · exact Except.ok.inj hchosen ▸ hcsr
    · split at hchosen
      · exact Except.ok.inj hchosen ▸ List.cons_ne_nil _ _
      · cases hchosen
  cases call with
  | issue profile subjectCn sans days keyType =>
    simp only [LeafCall.names, bind_eq_ok] at h
    obtain ⟨cn, hcn, explicit, hexplicit, hchosen⟩ := h
    refine ⟨hsome hchosen,
      forall_mem_chooseSans (htyped hexplicit) (by simp) (fun name hname san hsan => ?_) hchosen⟩
    obtain rfl := Option.some.inj hname
    exact isTrimmed_of_sanFromCn (validateCn_idem hcn).2 hsan
  | sign csr profile days opts =>
    simp only [LeafCall.names, bind_eq_ok] at h
    obtain ⟨cn, hcn, explicit, hexplicit, fromCsr, hcsr, hchosen⟩ := h
    refine ⟨hsome hchosen, forall_mem_chooseSans (htyped hexplicit) ?_ (fun name hname san hsan => ?_) hchosen⟩
    · unfold csrSans at hcsr
      split at hcsr
      · cases hcsr
      · split at hcsr
        · rw [← Except.ok.inj hcsr]
          simp
        · exact htyped hcsr
    · exact isTrimmed_of_sanFromCn (validateCn_of_csrSubject hcn name hname).2 hsan

/-- What is read back of a name is in ASCII and without white space. -/
theorem isStored_of_generalName (hE : ∀ value, E.isMailbox value = true → value.isAscii = true) {san : Str}
    {g : GeneralName} (hsan : IsTrimmed san) (h : generalName E san = .ok g) :
    ∃ t, sanString g.encoded = some t ∧ IsStored t := by
  obtain ⟨kind, value, rfl, haccepts, hstripped⟩ := hsan
  have hg := generalName_eq_ok.1 h
  cases kind with
  | dns =>
    obtain ⟨-, rfl⟩ := hg
    -- The pattern would let a line feed through at the end.
    have hlast : value.getLast? ≠ some 0x0A := fun hfeed => absurd (hstripped.last _ hfeed) (by decide)
    refine ⟨_, rfl, .dns, value, rfl, haccepts, fun c hc => ?_⟩
    have hrange := range_of_isHostChar (isHostChar_of_isLabels ((isHostname_iff hlast).1 haccepts).2 c hc)
    exact ⟨hrange.2.trans (by decide), Str.isSpace_of_range hrange⟩
  | ip =>
    obtain ⟨a, ha, rfl⟩ := hg
    have hread : ipAddress a.packed.toStr = some a.packed := Ip.ipAddress_toStr (Ip.scope_packed a)
    refine ⟨_, rfl, .ip, a.packed.toStr, rfl, Option.isSome_iff_exists.2 ⟨_, hread⟩, fun c hc => ?_⟩
    have hrange := Ip.range_of_isAddressChar (Ip.isAddressChar_toStr (Ip.scope_packed a) c hc)
    exact ⟨hrange.2.trans (by decide), Str.isSpace_of_range hrange⟩
  | email =>
    obtain ⟨hmailbox, rfl⟩ := hg
    refine ⟨_, rfl, .email, value, rfl, haccepts, fun c hc => ⟨?_, ?_⟩⟩
    · exact of_decide_eq_true (List.all_eq_true.1 (hE value hmailbox) c hc)
    · rw [← Bool.not_eq_true]
      exact fun hspace => Bool.false_ne_true (haccepts.2.symm.trans (List.any_eq_true.2 ⟨c, hc, hspace⟩))

/-- The common name of a leaf is that of its subject. -/
theorem leafCn_of_buildLeaf {publicKey : PublicKey} {subjectCn : Option Str} {sans : List Str} {profile : Profile}
    {days : ℤ} {capped : Option ℤ}
    (hcn : ∀ name, subjectCn = some name → validateCn name = .ok name)
    (h : buildLeaf E d issuerCert issuerKey publicKey subjectCn sans profile days crlUrl caIssuersUrl =
      .ok (cert, capped)) : leafCn cert = [] ∨ IsCommonName (leafCn cert) := by
  simp only [buildLeaf, bind_eq_ok, pure_eq_ok, Prod.mk.injEq] at h
  obtain ⟨⟨notAfter, _⟩, -, -, -, subject, hsubject, aki, -, names, -, built, hbuilt, rfl, -⟩ := h
  obtain ⟨-, htbs, -⟩ := build_eq_ok hbuilt
  have hcert : built.subject = subject := by rw [Cert.subject, htbs, encodeTbs]
  cases subjectCn with
  | none =>
    obtain rfl := Except.ok.inj hsubject
    rw [leafCn, hcert]
    exact .inl rfl
  | some name =>
    have hname := eq_of_nameOfCommonName hsubject
    have hleaf : leafCn built = name := by
      rw [leafCn, hcert, hname]
      simp [Name.attributesForOid]
    rw [hleaf]
    exact .inr ⟨hcn name rfl, subject, hsubject⟩

theorem LeafCall.leafCn_spec (h : call.leaf E d issuerCert issuerKey crlUrl caIssuersUrl = .ok cert) :
    leafCn cert = [] ∨ IsCommonName (leafCn cert) := by
  cases call with
  | issue profile subjectCn sans days keyType =>
    obtain ⟨⟨key, capped⟩, h⟩ := map_fst_eq_ok h
    simp only [issueCertificate, bind_eq_ok, pure_eq_ok, Prod.mk.injEq] at h
    obtain ⟨cn, hcn, -, -, -, -, explicit, -, resolved, -, k, -, ⟨c, _⟩, hbuilt, rfl, -⟩ := h
    exact leafCn_of_buildLeaf (fun name hname => Option.some.inj hname ▸ (validateCn_idem hcn).1) hbuilt
  | sign csr profile days opts =>
    obtain ⟨capped, h⟩ := map_fst_eq_ok h
    simp only [signCsr, bind_eq_ok] at h
    obtain ⟨-, -, csr', -, -, -, cn, hcn, explicit, -, fromCsr, -, resolved, -, hbuilt⟩ := h
    exact leafCn_of_buildLeaf (fun name hname => (validateCn_of_csrSubject hcn name hname).1) hbuilt

/-- **What is issued is stored with such columns.** -/
theorem storedRow_of_store (hE : ∀ value, E.isMailbox value = true → value.isAscii = true) {db db' : Db}
    {principal : Principal} {issuerId : Option ℕ} {source : CertSource} {issued : Issued}
    (h : call.store E d db principal issuerId source = .ok (db', issued)) : StoredRow issued.row := by
  obtain ⟨issuerCert, issuerKey, crlUrl, caIssuersUrl, hleaf, hread, hcn, -⟩ := LeafCall.store_spec h
  obtain ⟨chosen, names, critical, hchosen, -, hnames, hext⟩ := LeafCall.leaf_spec hleaf
  obtain ⟨hne, htrimmed⟩ := isTrimmed_of_names hchosen
  simp only [certSans, bind_eq_ok, pure_eq_ok] at hread
  obtain ⟨san, hsan, hsans⟩ := hread
  rw [Cert.extension_eq_ok, hext] at hsan
  obtain rfl := Option.some.inj hsan.2
  have hstored : ∀ g ∈ names, ∃ t, sanString g.encoded = some t ∧ IsStored t := by
    intro g hg
    obtain ⟨san, hsan, hgeneral⟩ := (mem_of_mapM_eq_ok hnames).1 g hg
    exact isStored_of_generalName hE (htrimmed san (Str.mem_unique.1 hsan)) hgeneral
  have hmem : ∀ t, t ∈ issued.row.sans ↔ ∃ g ∈ names, sanString g.encoded = some t := fun t => by
    rw [← hsans, sanStrings, Str.mem_unique, List.mem_filterMap]
    simp only [List.mem_map, exists_exists_and_eq_and]
  refine ⟨hcn ▸ LeafCall.leafCn_spec hleaf, fun hnil => ?_, fun t ht => ?_⟩
  · obtain ⟨name, hname⟩ := List.exists_mem_of_ne_nil chosen hne
    obtain ⟨g, hg, -⟩ := (mem_of_mapM_eq_ok hnames).2 name (Str.mem_unique.2 hname)
    obtain ⟨t, ht, -⟩ := hstored g hg
    have hin := (hmem t).2 ⟨g, hg, ht⟩
    rw [hnil] at hin
    cases hin
  · obtain ⟨g, hg, hsome⟩ := (hmem t).1 ht
    obtain ⟨t', ht', hrow⟩ := hstored g hg
    rw [hsome] at ht'
    exact Option.some.inj ht' ▸ hrow

/-- A revocation leaves these columns alone. -/
theorem StoredRow.mark {certs : Table Certificate} {id : ℕ} {moment : ℤ} {reason : RevocationReason}
    (h : ∀ row ∈ certs, StoredRow row) : ∀ row ∈ Crl.mark certs id moment reason, StoredRow row := by
  intro row hrow
  obtain ⟨r, hr, rfl⟩ := mem_mark.1 hrow
  obtain ⟨hcn, hnamed, hsans⟩ := h r hr
  split_ifs <;> exact ⟨hcn, hnamed, hsans⟩

theorem storedRow_of_step (hE : ∀ value, E.isMailbox value = true → value.isAscii = true) {db db' : Db}
    {a : Op × Draw} (hrows : ∀ row ∈ db.certificates, StoredRow row) (h : (caMachine E).step db a = some db') :
    ∀ row ∈ db'.certificates, StoredRow row := by
  have hissued : ∀ (call : LeafCall) (d : Draw) (principal : Principal) (issuerId : Option ℕ) (source : CertSource)
      (db' : Db) (issued : Issued), call.store E d db principal issuerId source = .ok (db', issued) →
      ∀ row ∈ db'.certificates, StoredRow row := by
    intro call d principal issuerId source db' issued hstore row hrow
    obtain ⟨-, -, -, -, -, -, -, hcertificates⟩ := LeafCall.store_spec hstore
    rw [hcertificates] at hrow
    rcases Table.mem_upsert.1 hrow with rfl | ⟨hrow, -⟩
    · exact storedRow_of_store hE hstore
    · exact hrows row hrow
  have hpublished : ∀ (d : Draw) (issuerId : ℕ) (now : Option ℤ),
      ∀ row ∈ (Crl.regenerateCrl E d (.start db) issuerId now).1.committed.certificates, StoredRow row := by
    intro d issuerId now
    rcases regenerateCrl_cases (E := E) (d := d) (.start db) issuerId now with ⟨state, -, h⟩ | ⟨s', e, h, hs⟩
    · rw [h]
      exact hrows
    · rw [h, hs]
      exact hrows
  obtain ⟨op, d⟩ := a
  obtain rfl := Option.some.inj h
  cases op with
  | issueAndStore principal profile cn sans days keyType issuerId source =>
    simp only [Op.run]
    split
    · exact hissued (.issue profile cn sans days keyType) d principal issuerId source _ _ ‹_›
    · exact hrows
  | signCsrAndStore principal csrPem profile days opts issuerId source =>
    simp only [Op.run]
    split
    · rename_i db' issued hstore
      have hstore' := hstore
      simp only [signCsrAndStore, bind_eq_ok, pure_eq_ok] at hstore'
      obtain ⟨issuer, -, ⟨issuerCert, issuerKey⟩, -, ⟨cert, capped⟩, hleaf, -⟩ := hstore'
      obtain ⟨csr, -, -, -, -, rfl, -⟩ := signCsr_spec hleaf
      exact hissued (.sign csr profile days opts) d principal issuerId source _ _ hstore
    · exact hrows
  | revokeCertificate principal certId reason now =>
    rcases revokeCertificate_cases (E := E) (d := d) db principal certId reason now with
      ⟨row, -, -, -, state, -, h⟩ | ⟨row, -, -, -, h⟩ | ⟨e, h⟩
    · simp only [Op.run, h]
      exact StoredRow.mark hrows
    · simp only [Op.run, h]
      exact hrows
    · simp only [Op.run, h]
      exact hrows
  | regenerateCrl issuerId now => exact hpublished d issuerId now
  | currentCrl issuerId now =>
    simp only [Op.run, Crl.currentCrl]
    split
    · exact hpublished d issuerId _
    · split_ifs
      · exact hpublished d issuerId _
      · exact hrows
  | hierarchy op =>
    simp only [Op.run]
    split <;> exact hrows
  | setGrants userIssuers tokenIssuers => exact hrows
  | setOrigin origin => exact hrows

/-- **In every state that is reached**, the rows have such columns. -/
theorem storedRow_of_reach (hE : ∀ value, E.isMailbox value = true → value.isAscii = true) {v w : List (ℕ × ℕ)}
    {o : Option Str} {db : Db} (h : (caMachine E).Reachable (.start v w o) db) :
    ∀ row ∈ db.certificates, StoredRow row :=
  h.invariant (fun _ hrow => absurd hrow Table.not_mem_empty) fun _ _ _ hrows _ hstep =>
    storedRow_of_step hE hrows hstep

end issued

/-! ### What is not found -/

/-- A quotation mark and what needs no escape behind it are kept. -/
theorem infix_of_quote {m t : Str} (hm : m = 0x22 :: t) (ht : ∀ c ∈ t, shown c = [c]) : m <:+: m.flatMap shown := by
  have hquote : shown 0x22 = [0x5C, 0x22] := by decide
  rw [hm, List.flatMap_cons, hquote, flatMap_eq_self ht]
  exact ⟨[0x5C], [], by simp⟩

/-- **Between quotation marks, and far enough from them**, only a text that is kept is found. -/
theorem infix_of_quoted {m front back : Str} (hfront : ∀ c ∈ front, shown c = [c])
    (hback : ∀ c ∈ back, shown c = [c]) (hmark : ∃ c ∈ m, shown c ≠ [c]) (hlong : m.length ≤ front.length)
    (hlong' : m.length ≤ back.length) (hhead : ∀ c ∈ back, m.head? ≠ some c)
    (h : m <:+: 0x22 :: (front ++ m.flatMap shown ++ back) ++ [0x22, 0x5D]) : m <:+: m.flatMap shown := by
  have hne : m ≠ [] := by
    rintro rfl
    obtain ⟨c, hc, -⟩ := hmark
    cases hc
  have hleft : m <:+: 0x22 :: (front ++ m.flatMap shown ++ back) → m <:+: m.flatMap shown := by
    intro hsub
    rcases List.infix_cons_iff.1 hsub with hprefix | hsub
    · rcases List.prefix_cons_iff.1 hprefix with hnil | ⟨t, hm, ht⟩
      · exact absurd hnil hne
      · rw [List.append_assoc] at ht
        have hlength : t.length ≤ front.length := by
          have hcons := congrArg List.length hm
          rw [List.length_cons] at hcons
          omega
        have hinside := List.prefix_of_prefix_length_le ht (List.prefix_append front _) hlength
        exact infix_of_quote hm fun c hc => hfront c (hinside.subset hc)
    · exact infix_flatMap_of_padded hfront hback hmark hsub
  rcases List.infix_append_iff.1 h with hsub | hend | ⟨l, r, hm, hl, hr⟩
  · exact hleft hsub
  · exact (show ∀ m ∈ ([0x22, 0x5D] : Str).tails.flatMap List.inits, m <:+: m.flatMap shown by decide) m
      (mem_infixes.2 hend)
  · rcases List.prefix_cons_iff.1 hr with rfl | ⟨r', rfl, hr'⟩
    · rw [List.append_nil] at hm
      exact hleft (hm ▸ hl.isInfix)
    · have hlength : l.length ≤ back.length := by
        have hsum := congrArg List.length hm
        rw [List.length_append, List.length_cons] at hsum
        omega
      have hinside : l <:+ back := List.suffix_of_suffix_length_le hl
        ((List.suffix_append _ back).trans (List.suffix_cons _ _)) hlength
      cases l with
      | nil =>
        refine infix_of_quote hm fun c hc => ?_
        obtain rfl := List.mem_singleton.1 (hr'.subset hc)
        decide
      | cons c l =>
        refine absurd ?_ (hhead c (hinside.subset List.mem_cons_self))
        rw [hm]
        rfl

/-! ### Rows to search for -/

/-- A row with these names. -/
def rowFor (cn : Str) (sans : List Str) : Certificate where
  id := 1
  issuerId := 1
  serialNumber := 1
  subjectCn := cn
  sans := sans
  profile := .server
  notBefore := 0
  notAfter := 0
  cert := importedIssuer none none
  keySealed := none
  revokedAt := none
  revocationReason := none
  source := .ui

/-- A host and an address, which have no letter in common. -/
def plainNames : List Str := [canonical .dns (Str.of "y"), canonical .ip (Str.of "0.0.0.0")]

theorem isStored_plainNames : ∀ san ∈ plainNames, IsStored san := by
  intro san hsan
  rcases List.mem_cons.1 hsan with rfl | hsan
  · exact ⟨.dns, Str.of "y", rfl, by decide, by decide⟩
  · obtain rfl := List.mem_singleton.1 hsan
    exact ⟨.ip, Str.of "0.0.0.0", rfl, by decide, by decide⟩

/-- What the search comes to in a table with one row. -/
theorem column_of_found (hU : U.Lawful) (h : FoundByName U u) (hne : u ≠ []) (hstripped : Str.Stripped u)
    (hlength : u.length ≤ maxQueryLength) (hrow : StoredRow row) (hnamed : NamedBy row u) :
    ∃ column ∈ columns row, U.lower u <:+: Str.asciiLower column := by
  have htypes : Types U u u := ⟨hstripped, hlength, rfl⟩
  have hmem : ∀ r ∈ Table.empty.upsert row, r = row := fun r hr =>
    (Table.mem_upsert.1 hr).resolve_right fun hother => Table.not_mem_empty hother.1
  obtain ⟨⟨returned, hreturned, hin⟩, -⟩ := h.found (fun _ => 0) (Table.empty.upsert row) sampleNow
    (fun r hr => hmem r hr ▸ hrow) row (Table.mem_upsert.2 (.inl rfl)) hnamed u htypes
  obtain ⟨-, hselects⟩ := (mem_export hreturned).1 hin
  exact ((selects_iff_columns hU hne htypes (statusConditions_unknown value_ne_all)).1 hselects).1

/-- A common name that is found has the same lower cases. -/
theorem lower_of_found (hU : U.Lawful) (h : FoundByName U u) (hne : u ≠ []) (hstripped : Str.Stripped u)
    (hlength : u.length ≤ maxQueryLength) (hcn : IsCommonName u) : U.lower u = Str.asciiLower u := by
  have hlower := hU.lowered u
  -- Where the term stands in another column of both rows, it has no letters.
  have hother : (∀ x ∈ U.lower u, x < 128 ∧ ¬ (0x61 ≤ x ∧ x ≤ 0x7A)) → U.lower u = Str.asciiLower u := fun hx =>
    (hlower.asciiLower_eq hU).symm.trans (congrArg Str.asciiLower (hlower.eq_of_other hU hx).symm)
  have hcases : ∀ san ∈ plainNames, U.lower u = Str.asciiLower u ∨
      U.lower u <:+: Str.asciiLower (sansJson (rowFor u [san])) := by
    intro san hsan
    obtain ⟨column, hcolumn, hsub⟩ := column_of_found hU h hne hstripped hlength
      (show StoredRow (rowFor u [san]) from
        ⟨.inr hcn, List.cons_ne_nil _ _, fun x hx => List.mem_singleton.1 hx ▸ isStored_plainNames san hsan⟩)
      (.inl List.infix_rfl)
    simp only [columns, List.mem_cons, List.not_mem_nil, or_false] at hcolumn
    rcases hcolumn with rfl | rfl | rfl
    · refine .inl (hsub.eq_of_length_le ?_)
      rw [Str.asciiLower, List.length_map]
      exact hlower.length_le hU
    · exact .inr hsub
    · refine .inl (hother fun x hx => ?_)
      exact (show ∀ x ∈ Str.asciiLower (Str.of (Str.hex 1 1)), x < 128 ∧ ¬ (0x61 ≤ x ∧ x ≤ 0x7A) by decide) x
        (hsub.subset hx)
  rcases hcases _ List.mem_cons_self with hsame | hdns
  · exact hsame
  · rcases hcases _ (List.mem_cons_of_mem _ (List.mem_singleton_self _)) with hsame | hip
    · exact hsame
    · exact hother ((show ∀ t ∈ (Str.of "[\"dns:y\"]").tails.flatMap List.inits, t <:+: Str.of "[\"ip:0.0.0.0\"]" →
        ∀ x ∈ t, x < 128 ∧ ¬ (0x61 ≤ x ∧ x ≤ 0x7A) by decide +kernel) _ (mem_infixes.2 hdns) hip)

/-- A name with a text in its middle, far from its ends. -/
def mailFor (u : Str) (c : ℕ) : Str :=
  canonical .email (0x40 :: List.replicate u.length 0x79 ++ u ++ List.replicate u.length c)

/-- What stands in front of the text, in lower case. -/
def mailFront (u : Str) : Str := Str.of "email:@" ++ List.replicate u.length 0x79

theorem shown_mailFront : ∀ c ∈ mailFront u, shown c = [c] := by
  intro c hc
  rcases List.mem_append.1 hc with hc | hc
  · exact (show ∀ c ∈ Str.of "email:@", shown c = [c] by decide) c hc
  · rw [List.eq_of_mem_replicate hc]
    decide

theorem isStored_mailFor {c : ℕ} (hc : c < 128 ∧ Str.isSpace c = false)
    (hu : ∀ c ∈ u, c < 128 ∧ Str.isSpace c = false) : IsStored (mailFor u c) := by
  have hvalue : ∀ x ∈ (0x40 :: List.replicate u.length 0x79 ++ u ++ List.replicate u.length c : Str),
      x < 128 ∧ Str.isSpace x = false := by
    intro x hx
    simp only [List.cons_append, List.mem_cons, List.mem_append] at hx
    rcases hx with rfl | (hx | hx) | hx
    · decide
    · rw [List.eq_of_mem_replicate hx]
      decide
    · exact hu x hx
    · rw [List.eq_of_mem_replicate hx]
      exact hc
  refine ⟨.email, _, rfl, ⟨List.mem_cons_self, ?_⟩, hvalue⟩
  rw [← Bool.not_eq_true, List.any_eq_true]
  rintro ⟨x, hx, hspace⟩
  rw [(hvalue x hx).2] at hspace
  cases hspace

/-- Two names in the column, in lower case. -/
theorem asciiLower_sansJson {cn first : Str} {c : ℕ} (hc : shown c = [c]) (hletter : Str.asciiLowerChar c = c) :
    Str.asciiLower (sansJson (rowFor cn [first, mailFor u c])) =
      Str.asciiLower (0x5B :: Json.dumpsString first ++ [0x2C]) ++ 0x20 ::
        (0x22 :: (mailFront u ++ (Str.asciiLower u).flatMap shown ++ List.replicate u.length c) ++ [0x22, 0x5D]) := by
  have hmail : Str.asciiLower (mailFor u c) = mailFront u ++ Str.asciiLower u ++ List.replicate u.length c := by
    simp only [mailFor, canonical, mailFront, Str.asciiLower, List.map_append, List.map_cons, List.map_replicate, hletter]
    rfl
  have hfront : (mailFront u).flatMap shown = mailFront u := flatMap_eq_self shown_mailFront
  have hback : (List.replicate u.length c).flatMap shown = List.replicate u.length c :=
    flatMap_eq_self fun x hx => by rw [List.eq_of_mem_replicate hx, hc]
  have hstring : Str.asciiLower (Json.dumpsString (mailFor u c)) =
      0x22 :: (mailFront u ++ (Str.asciiLower u).flatMap shown ++ List.replicate u.length c) ++ [0x22] := by
    have hquoted : Str.asciiLower (Json.dumpsString (mailFor u c)) =
        0x22 :: Str.asciiLower ((mailFor u c).flatMap Json.dumpsChar) ++ [0x22] := by
      simp only [Json.dumpsString, Str.asciiLower, List.map_append, List.map_cons, List.map_nil]
      rfl
    rw [hquoted, asciiLower_flatMap_dumpsChar, hmail, List.flatMap_append, List.flatMap_append, hfront, hback]
  have hcolumn : sansJson (rowFor cn [first, mailFor u c]) =
      (0x5B :: Json.dumpsString first ++ [0x2C]) ++ 0x20 :: (Json.dumpsString (mailFor u c) ++ [0x5D]) := by
    rw [sansJson_eq]
    simp [rowFor, Json.joined]
  have hlower : Str.asciiLower (sansJson (rowFor cn [first, mailFor u c])) =
      Str.asciiLower (0x5B :: Json.dumpsString first ++ [0x2C]) ++ 0x20 ::
        (Str.asciiLower (Json.dumpsString (mailFor u c)) ++ [0x5D]) := by
    rw [hcolumn]
    simp only [Str.asciiLower, List.map_append, List.map_cons, List.map_nil]
    rfl
  rw [hlower, hstring, List.append_assoc]
  rfl

/-- What is found in such a column, and has no space, is kept, or stands in front of the second name. -/
theorem infix_of_mail {m front : Str} {c : ℕ} (hlen : m.length = u.length) (hne : m ≠ []) (hspace : 0x20 ∉ m)
    (hmark : ∃ c ∈ m, shown c ≠ [c]) (hshown : shown c = [c]) (hhead : m.head? ≠ some c)
    (h : m <:+: front ++ 0x20 ::
      (0x22 :: (mailFront u ++ m.flatMap shown ++ List.replicate u.length c) ++ [0x22, 0x5D])) :
    m <:+: m.flatMap shown ∨ m <:+: front := by
  rcases List.infix_append_iff.1 h with hleft | hright | ⟨l, r, hm, hl, hr⟩
  · exact .inr hleft
  · rcases List.infix_cons_iff.1 hright with hspaced | hquoted
    · rcases List.prefix_cons_iff.1 hspaced with hnil | ⟨t, ht, -⟩
      · exact absurd hnil hne
      · exact absurd (ht ▸ List.mem_cons_self) hspace
    · refine .inl (infix_of_quoted shown_mailFront (fun x hx => ?_) hmark ?_ ?_ (fun x hx => ?_) hquoted)
      · rw [List.eq_of_mem_replicate hx, hshown]
      · rw [hlen, mailFront, List.length_append, List.length_replicate]
        exact Nat.le_add_left _ _
      · rw [hlen, List.length_replicate]
      · rw [List.eq_of_mem_replicate hx]
        exact hhead
  · rcases List.prefix_cons_iff.1 hr with rfl | ⟨t, rfl, -⟩
    · rw [List.append_nil] at hm
      exact .inr (hm ▸ hl.isInfix)
    · exact absurd (hm ▸ List.mem_append_right l List.mem_cons_self) hspace

/-- What stands in front of both plain names is kept, but for one text. -/
theorem kept_of_fronts {m : Str}
    (hdns : m <:+: Str.asciiLower (0x5B :: Json.dumpsString (canonical .dns (Str.of "y")) ++ [0x2C]))
    (hip : m <:+: Str.asciiLower (0x5B :: Json.dumpsString (canonical .ip (Str.of "0.0.0.0")) ++ [0x2C])) :
    m <:+: m.flatMap shown ∨ m = Str.of "[\"" := by
  have hall : ∀ m ∈ (Str.asciiLower (0x5B :: Json.dumpsString (canonical .dns (Str.of "y")) ++ [0x2C])).tails.flatMap
      List.inits, m <:+: Str.asciiLower (0x5B :: Json.dumpsString (canonical .ip (Str.of "0.0.0.0")) ++ [0x2C]) →
      m <:+: m.flatMap shown ∨ m = Str.of "[\"" := by decide +kernel
  exact hall m (mem_infixes.2 hdns) hip

/-- **A text that can be in a name is kept**, if each row that it names is found. -/
theorem kept_of_found (hU : U.Lawful) (h : FoundByName U u) (hne : u ≠ []) (hstripped : Str.Stripped u)
    (hlength : u.length ≤ maxQueryLength) (hu : ∀ c ∈ u, c < 128 ∧ Str.isSpace c = false) :
    Kept u ∨ u = Str.of "[\"" := by
  rw [kept_iff]
  by_cases hmark : ∃ c ∈ Str.asciiLower u, shown c ≠ [c]
  swap
  · push Not at hmark
    rw [flatMap_eq_self hmark]
    exact .inl List.infix_rfl
  have hspace : 0x20 ∉ Str.asciiLower u := fun hmem => by
    obtain ⟨c, hc, hlower⟩ := List.mem_map.1 hmem
    obtain rfl := Unicode.eq_of_asciiLowerChar hlower (by decide)
    exact absurd (hu _ hc).2 (by decide)
  -- The name does not end as the text begins.
  obtain ⟨c, hc, hhead⟩ : ∃ c ∈ Str.of "yz", (Str.asciiLower u).head? ≠ some c := by
    by_cases hy : (Str.asciiLower u).head? = some 0x79
    · exact ⟨0x7A, by decide, by rw [hy]; decide⟩
    · exact ⟨0x79, by decide, hy⟩
  obtain ⟨hstored, hshown, hletter⟩ : (c < 128 ∧ Str.isSpace c = false) ∧ shown c = [c] ∧ Str.asciiLowerChar c = c :=
    (show ∀ c ∈ Str.of "yz", (c < 128 ∧ Str.isSpace c = false) ∧ shown c = [c] ∧ Str.asciiLowerChar c = c by decide) c hc
  have hcases : ∀ first ∈ plainNames, Str.asciiLower u <:+: (Str.asciiLower u).flatMap shown ∨
      Str.asciiLower u <:+: Str.asciiLower (0x5B :: Json.dumpsString first ++ [0x2C]) := by
    intro first hfirst
    have hrow : StoredRow (rowFor [] [first, mailFor u c]) := ⟨.inl rfl, List.cons_ne_nil _ _, fun x hx => by
      rcases List.mem_cons.1 hx with rfl | hx
      · exact isStored_plainNames _ hfirst
      · exact List.mem_singleton.1 hx ▸ isStored_mailFor hstored hu⟩
    have hin : u <:+: mailFor u c :=
      ⟨SanKind.email.upper ++ 0x3A :: 0x40 :: List.replicate u.length 0x79, List.replicate u.length c,
        by simp [mailFor, canonical]⟩
    obtain ⟨column, hcolumn, hsub⟩ := column_of_found hU h hne hstripped hlength hrow
      (.inr ⟨_, List.mem_cons_of_mem _ (List.mem_singleton_self _), hin⟩)
    rw [(hU.lowered u).eq_of_isAscii hU fun c hc => (hu c hc).1] at hsub
    simp only [columns, List.mem_cons, List.not_mem_nil, or_false] at hcolumn
    rcases hcolumn with rfl | rfl | rfl
    · exact absurd (List.map_eq_nil_iff.1 (List.infix_nil.1 hsub)) hne
    · rw [asciiLower_sansJson hshown hletter] at hsub
      exact infix_of_mail (List.length_map _) (mt List.map_eq_nil_iff.1 hne) hspace hmark hshown hhead hsub
    · obtain ⟨x, hx, hchanged⟩ := hmark
      exact absurd ((show ∀ x ∈ Str.asciiLower (Str.of (Str.hex 1 1)), shown x = [x] by decide) x (hsub.subset hx))
        hchanged
  rcases hcases _ List.mem_cons_self with hkept | hdns
  · exact .inl hkept
  · rcases hcases _ (List.mem_cons_of_mem _ (List.mem_singleton_self _)) with hkept | hip
    · exact .inl hkept
    · rcases kept_of_fronts hdns hip with hkept | heq
      · exact .inl hkept
      · refine .inr ?_
        have hself : Str.asciiLower u = u := (List.map_congr_left fun x hx => ?_).trans (List.map_id u)
        · rw [← hself, heq]
        · have hmem : Str.asciiLowerChar x ∈ Str.of "[\"" := heq ▸ List.mem_map_of_mem hx
          generalize hy : Str.asciiLowerChar x = y at hmem
          exact (Unicode.eq_of_asciiLowerChar hy
            ((show ∀ y ∈ Str.of "[\"", ¬ (0x61 ≤ y ∧ y ≤ 0x7A) by decide) y hmem)).symm

/-! ### Main result -/

/-- **Which names a row is found by**: each row that a text names is found by it, in any letter case, and
whatever is found contains it, if and only if the text can be searched for. -/
theorem found_by_name_iff (U : Unicode) (hU : U.Lawful) (hfold : ∀ s, U.lower (Str.asciiLower s) = U.lower s) (u : Str)
    (hne : u ≠ []) (hstripped : Str.Stripped u) (hlength : u.length ≤ maxQueryLength) :
    FoundByName U u ↔ Searchable U u := by
  constructor
  · exact fun h => ⟨lower_of_found hU h hne hstripped hlength, kept_of_found hU h hne hstripped hlength⟩
  · intro h
    refine ⟨fun createdAt rows now hrows row hrow hnamed q htypes => ?_, fun createdAt rows status now q htypes => ?_⟩
    · have hselects : Selects U q (Str.of "all") now row :=
        (selects_iff_columns hU hne htypes (statusConditions_unknown value_ne_all)).2
          ⟨exists_column hU h hne hstripped (hrows row hrow) hnamed, rfl⟩
      obtain ⟨conditions, hconditions, -⟩ := id hselects
      have hexport : exportCertificates U createdAt rows q (Str.of "all") now =
          .ok (newestFirst createdAt (rows.select (meets conditions))) :=
        bind_eq_ok.2 ⟨conditions, hconditions, rfl⟩
      exact ⟨⟨_, hexport, (mem_export hexport).2 ⟨hrow, hselects⟩⟩, fun perPage => exists_list hrow hselects⟩
    · have hexport : ∀ returned, exportCertificates U createdAt rows q status now = .ok returned →
          ∀ row ∈ returned, Contains U row q := fun returned hreturned row hrow =>
        contains_of_selects hU hfold hne htypes ((mem_export hreturned).1 hrow).2
      refine ⟨hexport, fun page perPage returned total hreturned row hrow => ?_⟩
      obtain ⟨all, hall, hsubset⟩ := mem_export_of_mem_list hreturned
      exact hexport all hall row (hsubset row hrow)

/-- A part of a host name. -/
theorem found_by_name_host : FoundByName .ascii (Str.of "nas") :=
  (found_by_name_iff .ascii Unicode.lawful_ascii asciiLower_idem (Str.of "nas") (by decide)
    ⟨by decide, by decide⟩ (by decide)).2 ⟨fun _ => rfl, fun _ => .inl (by decide)⟩

/-- **A quotation mark in a mail address**: the row is not found by a part of its name, since JSON has a
backslash in front of the mark. -/
theorem quoted_not_found : ¬ ∀ (U : Unicode), U.Lawful → (∀ s, U.lower (Str.asciiLower s) = U.lower s) → ∀ u : Str,
    u ≠ [] → Str.Stripped u → u.length ≤ maxQueryLength → FoundByName U u := fun h => by
  have hmail : IsStored (Str.of "EMAIL:\"a\"@nas.lan") :=
    ⟨.email, Str.of "\"a\"@nas.lan", by decide, by decide, by decide⟩
  have hrow : StoredRow (rowFor [] [Str.of "EMAIL:\"a\"@nas.lan"]) :=
    ⟨.inl rfl, List.cons_ne_nil _ _, fun san hsan => List.mem_singleton.1 hsan ▸ hmail⟩
  obtain ⟨column, hcolumn, hsub⟩ := column_of_found Unicode.lawful_ascii
    (h .ascii Unicode.lawful_ascii asciiLower_idem (Str.of "a\"") (by decide)
      ⟨by decide, by decide⟩ (by decide)) (by decide) ⟨by decide, by decide⟩ (by decide) hrow
    (.inr ⟨_, List.mem_singleton_self _, by decide⟩)
  exact absurd hsub ((show ∀ column ∈ columns (rowFor [] [Str.of "EMAIL:\"a\"@nas.lan"]),
    ¬ Unicode.ascii.lower (Str.of "a\"") <:+: Str.asciiLower column by decide +kernel) column hcolumn)

end Certs

end Cabin
