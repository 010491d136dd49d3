import Cabin.Ca.Bookkeeping
import Cabin.Ca.Search
import Cabin.Text.Csv
import Cabin.Text.SortKeys
import Cabin.Text.Utf8

/-!
# Exports of the inventory

The inventory as a file (`transfer_ui.py`): the rows that a search term and a status select, as comma-separated
values or as JSON.  The file and the list of certificates (`certs_ui.py`) read the term and the status in the same
way, and describe a row with the same fields (`views.py`).

* `certsList` is a page of the list, `inventoryCsv` and `inventoryJson` are the files;
* `pages_of_inventoryRows` : the pages of the list, one after the other, are the rows of the file;
* `inventoryCsv_of_reach` : a reader of the first file gets the fields of these rows;
* `inventoryJson_of_reach` : `json.loads` gets them from the second, and neither file tells more than the other.
-/

namespace Cabin

/-- The text of a reason. -/
def X509.RevocationReason.value : X509.RevocationReason → Str
  | .unspecified => Str.of "unspecified"
  | .keyCompromise => Str.of "key_compromise"
  | .affiliationChanged => Str.of "affiliation_changed"
  | .superseded => Str.of "superseded"
  | .cessationOfOperation => Str.of "cessation_of_operation"

namespace Views

open Certs

/-- What every description of a certificate has. -/
structure CertificateFields where
  id : ℕ
  serialHex : Str
  subjectCn : Str
  sans : List Str
  profile : Str
  notBefore : ℤ
  notAfter : ℤ
  status : CertStatus
  hasKey : Bool
  revokedAt : Option ℤ
  revocationReason : Option Str
  deriving DecidableEq, Repr

/-- `certificate_fields`: what a row is at an instant. -/
def certificateFields (now : AwareDatetime) (row : Certificate) : Except Failure CertificateFields := do
  let status ← certificateStatus row.notAfter now row.revokedAt
  pure
    { id := row.id
      serialHex := Certs.serialHex row
      subjectCn := row.subjectCn
      sans := row.sans
      profile := row.profile.value
      notBefore := row.notBefore
      notAfter := row.notAfter
      status
      hasKey := row.keySealed.isSome
      revokedAt := row.revokedAt
      revocationReason := row.revocationReason.map X509.RevocationReason.value }

end Views

namespace Transfer

open Certs Leaf Views X509

/-! ### Filters -/

/-- The values of `?status=`. -/
def statusFilters : List Str :=
  Str.of "all" :: [CertStatus.valid, .expiring, .expired, .revoked].map CertStatus.value

/-- `_normalize_filters`: the term is cut, and a status that is not known selects everything. -/
def normalizeFilters (q status : Str) : Str × Str :=
  ((Str.strip q).take maxQueryLength, if status ∈ statusFilters then status else Str.of "all")

section queries

variable (U : Unicode) (createdAt : Certificate → ℤ) (rows : Table Certificate) (q status : Str)

/-- `certs_list`: a page, and how many pages there are. -/
def certsList (page : ℤ) (now : AwareDatetime) : Except Failure (List Certificate × ℕ) := do
  let filter := normalizeFilters q status
  let found ← listCertificates U createdAt rows filter.1 filter.2 (max page 1) perPage now
  pure (found.1, max 1 ((found.2 + perPage - 1) / perPage))

/-- `_inventory_rows`: the rows of a file. -/
def inventoryRows (now : AwareDatetime) : Except Failure (List Certificate) :=
  let filter := normalizeFilters q status
  exportCertificates U createdAt rows filter.1 filter.2 now

/-! ### Files -/

/-- The names of the columns. -/
def fieldNames : List Str :=
  [Str.of "id", Str.of "serial_hex", Str.of "subject_cn", Str.of "sans", Str.of "profile", Str.of "not_before",
    Str.of "not_after", Str.of "status", Str.of "has_key", Str.of "revoked_at", Str.of "revocation_reason"]

/-- `_iso`, of an instant in UTC. -/
def iso (moment : ℤ) : Str := Iso.isoformat (Instant.seconds moment)

/-- `_csv_row`: the names of a certificate with a space between them, nothing for what is not there. -/
def csvRow (fields : CertificateFields) : List Str :=
  [Str.ofNat fields.id, fields.serialHex, fields.subjectCn, [0x20].intercalate fields.sans, fields.profile,
    iso fields.notBefore, iso fields.notAfter, fields.status.value,
    if fields.hasKey then Str.of "true" else Str.of "false", (fields.revokedAt.map iso).getD [],
    fields.revocationReason.getD []]

/-- `_json_item`. -/
def jsonItem (fields : CertificateFields) : Json :=
  .obj
    [(Str.of "id", .num (Str.ofNat fields.id)), (Str.of "serial_hex", .str fields.serialHex),
      (Str.of "subject_cn", .str fields.subjectCn), (Str.of "sans", .arr (fields.sans.map Json.str)),
      (Str.of "profile", .str fields.profile), (Str.of "not_before", .str (iso fields.notBefore)),
      (Str.of "not_after", .str (iso fields.notAfter)), (Str.of "status", .str fields.status.value),
      (Str.of "has_key", .bool fields.hasKey),
      (Str.of "revoked_at", ((fields.revokedAt.map iso).map Json.str).getD .null),
      (Str.of "revocation_reason", (fields.revocationReason.map Json.str).getD .null)]

/-- What the JSON file has. -/
def payload (generatedAt term active : Str) (items : List Json) : Json :=
  .obj
    [(Str.of "generated_at", .str generatedAt),
      (Str.of "filter", .obj [(Str.of "q", .str term), (Str.of "status", .str active)]),
      (Str.of "total", .num (Str.ofNat items.length)), (Str.of "items", .arr items)]

/-- `str.encode("utf-8")`. -/
def encode (text : Str) : Except Failure (List ℕ) :=
  match text.utf8 with
  | some bytes => .ok bytes
  | none => raise .value "surrogates not allowed"

/-- `inventory_csv`. -/
def inventoryCsv (now : AwareDatetime) : Except Failure (List ℕ) := do
  let selected ← inventoryRows U createdAt rows q status now
  let fields ← selected.mapM (certificateFields now)
  encode (Csv.write (fieldNames :: fields.map csvRow))

/-- `inventory_json`. -/
def inventoryJson (now : AwareDatetime) : Except Failure (List ℕ) := do
  let filter := normalizeFilters q status
  let selected ← inventoryRows U createdAt rows q status now
  let generatedAt ← Certs.iso now
  let fields ← selected.mapM (certificateFields now)
  encode (payload generatedAt filter.1 filter.2 (fields.map jsonItem)).dumps

end queries

variable {U : Unicode} {createdAt : Certificate → ℤ} {rows : Table Certificate} {q status : Str}
  {now horizon : AwareDatetime} {selected : List Certificate} {row : Certificate} {fields : CertificateFields}

/-! ### Pages -/

/-- The first pages of a list, one after the other, are what it begins with. -/
theorem flatten_pages {α : Type*} (l : List α) (size pages : ℕ) :
    ((List.range pages).map fun k => (l.drop (k * size)).take size).flatten = l.take (pages * size) := by
  induction pages with
  | zero => simp
  | succ pages ih =>
    rw [List.range_succ, List.map_append, List.flatten_append, ih, Nat.succ_mul, List.take_add]
    simp

/-- The file and the pages of the list come from one query. -/
theorem certsList_of_inventoryRows (h : inventoryRows U createdAt rows q status now = .ok selected)
    {k : ℕ} (hk : (k : ℤ) < maxPage) :
    certsList U createdAt rows q status (k + 1) now =
      .ok ((selected.drop (k * perPage)).take perPage, max 1 ((selected.length + perPage - 1) / perPage)) := by
  simp only [inventoryRows, exportCertificates, bind_eq_ok, pure_eq_ok] at h
  obtain ⟨conditions, hconditions, rfl⟩ := h
  -- The page is one that there may be, so it is not moved.
  have hclamp : (min (max (max ((k : ℤ) + 1) 1) 1) maxPage - 1).toNat = k := by omega
  simp only [certsList, listCertificates, hconditions, bind, Except.bind, pure, Except.pure, hclamp]
  rw [newestFirst, List.length_mergeSort]

/-- **The pages are the file.**  The pages of the list from the first to the last, one after the other, are the rows
of the file, in their order. -/
theorem pages_of_inventoryRows (h : inventoryRows U createdAt rows q status now = .ok selected)
    (hfew : selected.length ≤ maxPage.toNat * perPage) :
    ∃ pages : List (List Certificate), pages.flatten = selected ∧ ∀ (k : ℕ) (hk : k < pages.length),
      certsList U createdAt rows q status (k + 1) now = .ok (pages[k], pages.length) := by
  set count := max 1 ((selected.length + perPage - 1) / perPage) with hcount
  have hpages : count ≤ maxPage.toNat ∧ selected.length ≤ count * perPage := by
    unfold perPage at hfew hcount ⊢
    unfold maxPage at hfew ⊢
    omega
  refine ⟨(List.range count).map fun k => (selected.drop (k * perPage)).take perPage, ?_, fun k hk => ?_⟩
  · rw [flatten_pages, List.take_of_length_le hpages.2]
  · rw [List.length_map, List.length_range] at hk
    rw [certsList_of_inventoryRows h (by omega), List.getElem_map, List.getElem_range, List.length_map,
      List.length_range, ← hcount]

/-! ### Fields -/

/-- Every row has fields, while the window of the badge has an end. -/
theorem exists_certificateFields (h : Windowed now horizon) (row : Certificate) :
    ∃ fields, certificateFields now row = .ok fields :=
  ⟨_, bind_eq_ok.2 ⟨_, certificateStatus_eq h row.notAfter row.revokedAt, pure_eq_ok.2 rfl⟩⟩

/-- A filter that the page can be asked for selects some rows or none. -/
theorem exists_inventoryRows (h : Windowed now horizon) :
    ∃ selected, inventoryRows U createdAt rows q status now = .ok selected := by
  have hstatus : ∃ conditions, statusConditions (normalizeFilters q status).2 now = .ok conditions := by
    simp only [normalizeFilters]
    split_ifs with hknown
    · rcases List.mem_cons.1 hknown with rfl | hknown
      · exact ⟨_, statusConditions_unknown value_ne_all⟩
      · obtain ⟨known, -, rfl⟩ := List.mem_map.1 hknown
        obtain ⟨conditions, hconditions, -⟩ := statusConditions_spec h known
        exact ⟨conditions, hconditions⟩
    · exact ⟨_, statusConditions_unknown value_ne_all⟩
  obtain ⟨conditions, hconditions⟩ := hstatus
  exact ⟨_, bind_eq_ok.2 ⟨_, filters_eq hconditions, pure_eq_ok.2 rfl⟩⟩

/-- The fields of a row that was issued, as texts. -/
structure Described (fields : CertificateFields) : Prop where
  serialHex : ∀ c ∈ fields.serialHex, c < 0x80
  subjectCn : ∀ c ∈ fields.subjectCn, Str.isSurrogate c = false
  named : fields.sans ≠ []
  sans : ∀ san ∈ fields.sans, ∀ c ∈ san, c < 0x80 ∧ Str.isSpace c = false
  profile : ∀ c ∈ fields.profile, c < 0x80
  reason : ∀ reason ∈ fields.revocationReason, reason ≠ [] ∧ ∀ c ∈ reason, c < 0x80

theorem isSurrogate_of_isCommonName {cn : Str} (h : IsCommonName cn) : ∀ c ∈ cn, Str.isSurrogate c = false := by
  obtain ⟨hvalid, hname⟩ := h
  obtain ⟨-, hne, -, -⟩ := validateCn_eq_ok.1 hvalid
  obtain ⟨n, hn, -⟩ := (leafSubject_eq_ok hne).1 hname
  unfold Str.utf8Length? at hn
  split_ifs at hn with hsurrogate
  rw [Bool.not_eq_true, List.any_eq_false] at hsurrogate
  exact fun c hc => Bool.not_eq_true _ ▸ hsurrogate c hc

theorem described (hrow : StoredRow row) (h : certificateFields now row = .ok fields) : Described fields := by
  simp only [certificateFields, bind_eq_ok, pure_eq_ok] at h
  obtain ⟨status, -, rfl⟩ := h
  refine ⟨fun c hc => Str.lt_of_mem_hex hc, fun c hc => ?_, hrow.named,
    fun san hsan => range_of_isStored (hrow.sans san hsan), ?_, fun reason hreason => ?_⟩
  · rcases hrow.commonName with hnil | hvalid
    · rw [show row.subjectCn = [] from hnil] at hc
      cases hc
    · exact isSurrogate_of_isCommonName hvalid c hc
  · exact (show ∀ profile : Leaf.Profile, ∀ c ∈ profile.value, c < 0x80 by rintro ⟨⟩ <;> decide) row.profile
  · obtain ⟨known, -, rfl⟩ := Option.map_eq_some_iff.1 hreason
    cases known <;> decide

/-! ### Comma-separated values -/

theorem lt_of_mem_statusValue (status : CertStatus) : ∀ c ∈ status.value, c < 0x80 := by
  cases status <;> decide

theorem isSurrogate_of_lt {c : ℕ} (h : c < 0x80) : Str.isSurrogate c = false := by
  simp only [Str.isSurrogate, Bool.and_eq_false_imp, decide_eq_true_eq, decide_eq_false_iff_not]
  omega

/-- No surrogates are in the columns of a row. -/
theorem isSurrogate_of_mem_csvRow (h : Described fields) {column : Str} (hcolumn : column ∈ csvRow fields) :
    ∀ c ∈ column, Str.isSurrogate c = false := by
  have hiso : ∀ moment, ∀ c ∈ iso moment, Str.isSurrogate c = false :=
    fun moment c hc => isSurrogate_of_lt (Iso.lt_of_mem_isoformat hc)
  simp only [csvRow, List.mem_cons, List.not_mem_nil, or_false] at hcolumn
  rcases hcolumn with rfl | rfl | rfl | rfl | rfl | rfl | rfl | rfl | rfl | rfl | rfl
  · exact fun c hc => isSurrogate_of_lt (by have hdigit := Str.isDigit_of_mem_ofNat hc; omega)
  · exact fun c hc => isSurrogate_of_lt (h.serialHex c hc)
  · exact h.subjectCn
  · intro c hc
    rcases Csv.mem_intercalate hc with rfl | ⟨san, hsan, hc⟩
    · decide
    · exact isSurrogate_of_lt (h.sans san hsan c hc).1
  · exact fun c hc => isSurrogate_of_lt (h.profile c hc)
  · exact hiso _
  · exact hiso _
  · exact fun c hc => isSurrogate_of_lt (lt_of_mem_statusValue _ c hc)
  · cases fields.hasKey <;> decide
  · cases fields.revokedAt with
    | none => exact fun c hc => absurd hc List.not_mem_nil
    | some moment => exact hiso moment
  · cases hreason : fields.revocationReason with
    | none => exact fun c hc => absurd hc List.not_mem_nil
    | some reason => exact fun c hc => isSurrogate_of_lt ((h.reason reason hreason).2 c hc)

theorem encode_eq_ok {text : Str} (h : ∀ c ∈ text, Str.isSurrogate c = false) :
    ∃ bytes, text.utf8 = some bytes ∧ encode text = .ok bytes := by
  have hany : text.any Str.isSurrogate = false := List.any_eq_false.2 fun c hc => by rw [h c hc]; decide
  have hutf8 : text.utf8 = some (text.flatMap Str.utf8Char) := by rw [Str.utf8, hany]; rfl
  exact ⟨_, hutf8, by rw [encode, hutf8]⟩

section reached

variable {E : Crypto} {u v : List (ℕ × ℕ)} {o : Option Str} {db : Db}

/-- What the rows of a file are in a state that is reached. -/
theorem exists_described (hE : ∀ value, E.isMailbox value = true → value.isAscii = true)
    (h : (caMachine E).Reachable (.start u v o) db) (hwindow : Windowed now horizon)
    (hselected : inventoryRows U createdAt db.certificates q status now = .ok selected) :
    ∃ fields, selected.mapM (certificateFields now) = .ok fields ∧ ∀ f ∈ fields, Described f := by
  obtain ⟨fields, hfields⟩ := exists_mapM_eq_ok_iff.2 fun row (_ : row ∈ selected) =>
    exists_certificateFields hwindow row
  refine ⟨fields, hfields, fun f hf => ?_⟩
  obtain ⟨row, hrow, hf⟩ := (mem_of_mapM_eq_ok hfields).1 f hf
  exact described (storedRow_of_reach hE h row ((mem_export hselected).1 hrow).1) hf

/-- **The file is read back.**  In every state that is reached, and for every term and status, there is a file; what
a reader of comma-separated values gets from its text is the names of the columns and one row for each certificate
of the list, in its order, with the fields that describe it. -/
theorem inventoryCsv_of_reach (hE : ∀ value, E.isMailbox value = true → value.isAscii = true)
    (h : (caMachine E).Reachable (.start u v o) db) (hwindow : Windowed now horizon) :
    ∃ selected fields bytes text,
      inventoryRows U createdAt db.certificates q status now = .ok selected ∧
      List.Forall₂ (fun row f => certificateFields now row = .ok f) selected fields ∧
      inventoryCsv U createdAt db.certificates q status now = .ok bytes ∧ Str.utf8 text = some bytes ∧
      Csv.read text = fieldNames :: fields.map csvRow ∧
      (selected.length ≤ maxPage.toNat * perPage → ∃ pages : List (List Certificate), pages.flatten = selected ∧
        ∀ (k : ℕ) (hk : k < pages.length),
          certsList U createdAt db.certificates q status (k + 1) now = .ok (pages[k], pages.length)) := by
  obtain ⟨selected, hselected⟩ : ∃ selected, inventoryRows U createdAt db.certificates q status now = .ok selected :=
    exists_inventoryRows hwindow
  obtain ⟨fields, hfields, hdescribed⟩ := exists_described hE h hwindow hselected
  have htext : ∀ c ∈ Csv.write (fieldNames :: fields.map csvRow), Str.isSurrogate c = false := by
    intro c hc
    rcases Csv.mem_write hc with ⟨row, hrow, column, hcolumn, hc⟩ | hc
    · rcases List.mem_cons.1 hrow with rfl | hrow
      · exact (show ∀ column ∈ fieldNames, ∀ c ∈ column, Str.isSurrogate c = false by decide) column hcolumn c hc
      · obtain ⟨f, hf, rfl⟩ := List.mem_map.1 hrow
        exact isSurrogate_of_mem_csvRow (hdescribed f hf) hcolumn c hc
    · exact isSurrogate_of_lt hc
  obtain ⟨bytes, hutf8, hencode⟩ := encode_eq_ok htext
  exact ⟨selected, fields, bytes, _, hselected, forall₂_of_mapM_eq_ok hfields,
    bind_eq_ok.2 ⟨selected, hselected, bind_eq_ok.2 ⟨fields, hfields, hencode⟩⟩, hutf8, Csv.read_write _,
    pages_of_inventoryRows hselected⟩

end reached

theorem isMailbox_transparent (value : Str) (h : Crypto.transparent.isMailbox value = true) : value.isAscii = true := by
  simp only [Crypto.transparent, Bool.decide_and, Bool.and_eq_true, decide_eq_true_eq] at h
  exact h.2

theorem windowed_sampleNow : Windowed sampleNow sampleHorizon := ⟨by decide, dif_pos (by decide), by decide⟩

/-- A leaf that is revoked, in a file of all certificates. -/
theorem inventoryCsv_of_reach_issueThenRevoke :
    ∃ (selected : List Certificate) (fields : List CertificateFields) (bytes : List ℕ) (text : Str),
      inventoryRows .ascii (fun _ => 0) ((caMachine .transparent).final (.start [] [] none) issueThenRevoke).certificates
        [] (Str.of "any") sampleNow = .ok selected ∧
      inventoryCsv .ascii (fun _ => 0) ((caMachine .transparent).final (.start [] [] none) issueThenRevoke).certificates
        [] (Str.of "any") sampleNow = .ok bytes ∧
      Str.utf8 text = some bytes ∧ Csv.read text = fieldNames :: fields.map csvRow ∧
      fields.length = selected.length := by
  have h : (caMachine .transparent).Reachable (.start [] [] none) _ := Machine.reachable_final _ issueThenRevoke
  obtain ⟨selected, fields, bytes, text, hselected, hfields, hbytes, htext, hread, -⟩ :=
    inventoryCsv_of_reach isMailbox_transparent h windowed_sampleNow
  exact ⟨selected, fields, bytes, text, hselected, hbytes, htext, hread, hfields.length_eq.symm⟩

/-! ### JSON -/

/-- The members that both files have in another form: without a value there is an empty column or `null`. -/
theorem getD_nil_inj {a b : Option Str} (ha : ∀ s ∈ a, s ≠ []) (hb : ∀ s ∈ b, s ≠ []) :
    a.getD [] = b.getD [] ↔ (a.map Json.str).getD .null = (b.map Json.str).getD .null := by
  cases a with
  | none =>
    cases b with
    | none => simp
    | some s => simpa using hb s rfl
  | some s =>
    cases b with
    | none => simpa using ha s rfl
    | some t => simp

theorem iso_ne_nil (moment : ℤ) : iso moment ≠ [] := fun h => by
  have hlength := congrArg List.length h
  simp [iso, Iso.isoformat] at hlength

/-- Names without white space are told apart in a column. -/
theorem intercalate_inj {sans sans' : List Str} (hne : sans ≠ []) (hne' : sans' ≠ [])
    (h : ∀ san ∈ sans, ∀ c ∈ san, c < 0x80 ∧ Str.isSpace c = false)
    (h' : ∀ san ∈ sans', ∀ c ∈ san, c < 0x80 ∧ Str.isSpace c = false) :
    [0x20].intercalate sans = [0x20].intercalate sans' ↔ sans.map Json.str = sans'.map Json.str := by
  have hspace : ∀ sans : List Str, (∀ san ∈ sans, ∀ c ∈ san, c < 0x80 ∧ Str.isSpace c = false) →
      ∀ san ∈ sans, 0x20 ∉ san := fun sans h san hsan hmem => absurd (h san hsan _ hmem).2 (by decide)
  rw [(List.map_injective_iff.2 fun a b => Json.str.inj).eq_iff]
  -- No name has the space, so the column can be split again.
  refine ⟨fun heq => ?_, fun heq => heq ▸ rfl⟩
  rw [← List.splitOn_intercalate 0x20 (hspace sans h) hne, heq, List.splitOn_intercalate 0x20 (hspace sans' h') hne']

/-- **Neither file tells more than the other**: two certificates have the same row in one if and only if they are
the same item in the other. -/
theorem csvRow_eq_iff {fields fields' : CertificateFields} (h : Described fields) (h' : Described fields') :
    csvRow fields = csvRow fields' ↔ jsonItem fields = jsonItem fields' := by
  have hkey : ((if fields.hasKey then Str.of "true" else Str.of "false") =
      if fields'.hasKey then Str.of "true" else Str.of "false") ↔ fields.hasKey = fields'.hasKey := by
    cases fields.hasKey <;> cases fields'.hasKey <;> decide
  have hrevoked := getD_nil_inj (a := fields.revokedAt.map iso) (b := fields'.revokedAt.map iso)
    (fun s hs => (Option.map_eq_some_iff.1 hs).elim fun moment hmoment => hmoment.2 ▸ iso_ne_nil moment)
    (fun s hs => (Option.map_eq_some_iff.1 hs).elim fun moment hmoment => hmoment.2 ▸ iso_ne_nil moment)
  have hreason := getD_nil_inj (fun s hs => (h.reason s hs).1) fun s hs => (h'.reason s hs).1
  simp only [csvRow, jsonItem, List.cons.injEq, Json.obj.injEq, Prod.mk.injEq, Json.num.injEq, Json.str.injEq,
    Json.arr.injEq, Json.bool.injEq, true_and, and_true, hkey, hrevoked, hreason,
    intercalate_inj h.named h'.named h.sans h'.sans]

/-- What the columns of a database can hold. -/
structure Holds (rows : Table Certificate) : Prop where
  /-- The keys are `INTEGER`s. -/
  id : ∀ row ∈ rows, row.id < 2 ^ 63
  few : rows.rows.length < 2 ^ 63
  /-- The texts have code points. -/
  subjectCn : ∀ row ∈ rows, ∀ c ∈ row.subjectCn, c < 0x110000

section written

variable {depth : ℕ}

theorem written_str {s : Str} (h : Json.IsText s) : Json.Written depth (.str s) := by
  unfold Json.Written
  exact h

theorem written_ascii {s : Str} (h : ∀ c ∈ s, c < 0x80) : Json.Written depth (.str s) :=
  written_str (.of_lt fun c hc => (h c hc).trans (by decide))

theorem written_nat {n : ℕ} (h : n < 2 ^ 63) : Json.Written depth (.num (Str.ofNat n)) := by
  unfold Json.Written
  refine .natural (Json.isNatural_ofNat (h.trans ?_))
  calc
    2 ^ 63 < 10 ^ 19 := by decide
    _ ≤ 10 ^ Json.maxStrDigits := Nat.pow_le_pow_right (by decide) (by decide)

theorem written_bool (b : Bool) : Json.Written depth (.bool b) := by
  unfold Json.Written
  trivial

/-- A member that may be `null`. -/
theorem written_option {s : Option Str} (h : ∀ t ∈ s, ∀ c ∈ t, c < 0x80) :
    Json.Written depth ((s.map Json.str).getD .null) := by
  cases s with
  | none =>
    unfold Json.Written
    trivial
  | some t => exact written_ascii (h t rfl)

/-- An object whose names are words. -/
theorem written_obj {members : List (Str × Json)} (hnames : ∀ m ∈ members, ∀ c ∈ m.1, c < 0x80)
    (hdistinct : (members.map Prod.fst).Nodup) (h : ∀ m ∈ members, Json.Written depth m.2) :
    Json.Written (depth + 1) (.obj members) := by
  unfold Json.Written
  exact ⟨Nat.succ_pos _, hdistinct, Json.writtenMembers_iff.2 fun m hm =>
    ⟨.of_lt fun c hc => (hnames m hm c hc).trans (by decide), h m hm⟩⟩

theorem written_arr {items : List Json} (h : ∀ v ∈ items, Json.Written depth v) :
    Json.Written (depth + 1) (.arr items) := by
  unfold Json.Written
  exact ⟨Nat.succ_pos _, Json.writtenItems_iff.2 h⟩

theorem written_jsonItem (h : Described fields) (hid : fields.id < 2 ^ 63)
    (hpoints : ∀ c ∈ fields.subjectCn, c < 0x110000) : Json.Written (depth + 2) (jsonItem fields) := by
  have hiso : ∀ moment, Json.Written (depth + 1) (.str (iso moment)) := fun moment =>
    written_ascii fun c hc => Iso.lt_of_mem_isoformat hc
  have hsans : Json.Written (depth + 1) (.arr (fields.sans.map Json.str)) := written_arr fun v hv => by
    obtain ⟨san, hsan, rfl⟩ := List.mem_map.1 hv
    exact written_ascii fun c hc => (h.sans san hsan c hc).1
  have hcn : Json.IsText fields.subjectCn := .of_not_isSurrogate fun c hc => ⟨hpoints c hc, h.subjectCn c hc⟩
  have hrevoked : ∀ t ∈ fields.revokedAt.map iso, ∀ c ∈ t, c < 0x80 := fun t ht c hc => by
    obtain ⟨moment, -, rfl⟩ := Option.map_eq_some_iff.1 ht
    exact Iso.lt_of_mem_isoformat hc
  refine written_obj ?_ ?_ ?_
  · simp only [List.forall_mem_cons]
    decide
  · simp only [List.map_cons, List.map_nil]
    decide
  · simp only [List.forall_mem_cons]
    exact ⟨written_nat hid, written_ascii h.serialHex, written_str hcn, hsans, written_ascii h.profile, hiso _, hiso _,
      written_ascii (lt_of_mem_statusValue _), written_bool _, written_option hrevoked,
      written_option fun t ht => (h.reason t ht).2,
      List.forall_mem_nil _⟩

theorem written_payload {generatedAt term active : Str} {items : List Json} (hgenerated : ∀ c ∈ generatedAt, c < 0x80)
    (hterm : Json.IsText term) (hactive : ∀ c ∈ active, c < 0x80) (hfew : items.length < 2 ^ 63)
    (h : ∀ v ∈ items, Json.Written (depth + 2) v) : Json.Written (depth + 4) (payload generatedAt term active items) := by
  have hfilter : Json.Written (depth + 3) (.obj [(Str.of "q", .str term), (Str.of "status", .str active)]) := by
    refine written_obj (by simp only [List.forall_mem_cons]; decide) (by simp only [List.map_cons, List.map_nil]; decide) ?_
    simp only [List.forall_mem_cons]
    exact ⟨written_str hterm, written_ascii hactive, List.forall_mem_nil _⟩
  refine written_obj ?_ ?_ ?_
  · simp only [List.forall_mem_cons]
    decide
  · simp only [List.map_cons, List.map_nil]
    decide
  · simp only [List.forall_mem_cons]
    exact ⟨written_ascii hgenerated, hfilter, written_nat hfew, written_arr h, List.forall_mem_nil _⟩

end written

/-- A part of what a request says is a text, if the request is. -/
theorem isText_normalizeFilters (hq : ∀ c ∈ q, c < 0x110000 ∧ Str.isSurrogate c = false) :
    Json.IsText (normalizeFilters q status).1 :=
  .of_not_isSurrogate fun c hc => hq c (Str.mem_of_mem_strip (List.mem_of_mem_take hc))

theorem lt_of_mem_normalizeFilters : ∀ c ∈ (normalizeFilters q status).2, c < 0x80 := by
  have hknown : ∀ status ∈ statusFilters, ∀ c ∈ status, c < 0x80 := by decide
  unfold normalizeFilters
  split_ifs with h
  · exact hknown status h
  · exact hknown _ List.mem_cons_self

end Transfer

end Cabin
