import Cabin.Text.Basic

/-!
# Comma-separated values

Rows of fields as one text.  The writer is that of Python's `csv` module in its default dialect: a field stands in
quotation marks if it has a character that means something, marks in it are doubled, and each row ends with a
carriage return and a line feed.  The reader takes one character after the other; it knows where in a row it is.

* `Csv.write` is the text of rows, `Csv.read` the rows of a text;
* `Csv.read_write` : every list of rows is read back, whatever characters its fields have.
-/

namespace Cabin

namespace Csv

/-! ### Writing -/

/-- A character that a field has only in quotation marks. -/
def isSpecial (c : ℕ) : Bool := c = 0x2C ∨ c = 0x22 ∨ c = 0x0D ∨ c = 0x0A

/-- A character within quotation marks. -/
def quoteChar (c : ℕ) : Str := if c = 0x22 then [0x22, 0x22] else [c]

/-- A field in quotation marks. -/
def quoted (field : Str) : Str := 0x22 :: field.flatMap quoteChar ++ [0x22]

/-- A field. -/
def writeField (field : Str) : Str := if field.any isSpecial then quoted field else field

/-- `writerow`: a row that is one empty field is told from one that has none. -/
def writeRow (row : List Str) : Str :=
  (if row = [[]] then quoted [] else [0x2C].intercalate (row.map writeField)) ++ [0x0D, 0x0A]

/-- All rows. -/
def write (rows : List (List Str)) : Str := rows.flatMap writeRow

theorem mem_intercalate {sep c : ℕ} {parts : List Str} (h : c ∈ [sep].intercalate parts) :
    c = sep ∨ ∃ part ∈ parts, c ∈ part := by
  induction parts with
  | nil => cases h
  | cons part parts ih =>
    cases parts with
    | nil =>
      rw [List.intercalate_singleton] at h
      exact .inr ⟨part, List.mem_singleton_self _, h⟩
    | cons next parts =>
      rw [List.intercalate_cons_cons, List.mem_append, List.mem_append] at h
      rcases h with (h | h) | h
      · exact .inr ⟨part, List.mem_cons_self, h⟩
      · exact .inl (List.mem_singleton.1 h)
      · exact (ih h).imp_right fun ⟨p, hp, hc⟩ => ⟨p, List.mem_cons_of_mem _ hp, hc⟩

/-- Nothing is written but fields and signs in ASCII. -/
theorem mem_write {rows : List (List Str)} {c : ℕ} (h : c ∈ write rows) :
    (∃ row ∈ rows, ∃ field ∈ row, c ∈ field) ∨ c < 0x80 := by
  obtain ⟨row, hrow, hc⟩ := List.mem_flatMap.1 h
  have hfield : ∀ field : Str, c ∈ writeField field → c ∈ field ∨ c < 0x80 := by
    intro field hc
    unfold writeField at hc
    split_ifs at hc
    · simp only [quoted, List.mem_cons, List.mem_append, List.mem_flatMap, List.not_mem_nil, or_false] at hc
      rcases hc with (rfl | ⟨x, hx, hc⟩) | rfl
      · exact .inr (by decide)
      · unfold quoteChar at hc
        split_ifs at hc with hmark
        · simp only [List.mem_cons, List.not_mem_nil, or_false, or_self] at hc
          exact .inr (hc ▸ by decide)
        · exact .inl (List.mem_singleton.1 hc ▸ hx)
      · exact .inr (by decide)
    · exact .inl hc
  rcases List.mem_append.1 hc with hc | hc
  · split_ifs at hc
    · exact .inr ((show ∀ c ∈ quoted [], c < 0x80 by decide) c hc)
    · rcases mem_intercalate hc with rfl | ⟨text, htext, hc⟩
      · exact .inr (by decide)
      · obtain ⟨field, hmem, rfl⟩ := List.mem_map.1 htext
        exact (hfield field hc).imp_left fun hc => ⟨row, hrow, field, hmem, hc⟩
  · exact .inr ((show ∀ c ∈ ([0x0D, 0x0A] : Str), c < 0x80 by decide) c hc)

/-! ### Reading -/

/-- Where in a row a character stands. -/
inductive Place where
  /-- At the start of a row. -/
  | record
  /-- At the start of a field that is not the first. -/
  | field
  /-- In a field without quotation marks. -/
  | plain
  /-- In quotation marks. -/
  | quoted
  /-- Behind a mark that ends the quotation, if it is not doubled. -/
  | quote
  /-- Behind a carriage return that ended a row. -/
  | afterCr
  deriving DecidableEq, Repr

/-- What is known of the rows behind a character. -/
structure Reading where
  place : Place
  /-- The field so far. -/
  text : Str
  /-- The fields in front of it. -/
  row : List Str
  /-- The rows in front of that. -/
  rows : List (List Str)
  deriving DecidableEq, Repr

namespace Reading

/-- The text begins. -/
def start : Reading := ⟨.record, [], [], []⟩

/-- The fields of the row that ends here; an empty line has none. -/
def fields (r : Reading) : List Str :=
  match r.place with
  | .record | .afterCr => r.row
  | _ => r.row ++ [r.text]

/-- A character outside of quotation marks. -/
def unquoted (r : Reading) (c : ℕ) : Reading :=
  if c = 0x2C then ⟨.field, [], r.row ++ [r.text], r.rows⟩
  else if c = 0x0D then ⟨.afterCr, [], [], r.rows ++ [r.fields]⟩
  else if c = 0x0A then ⟨.record, [], [], r.rows ++ [r.fields]⟩
  else ⟨.plain, r.text ++ [c], r.row, r.rows⟩

/-- The next character. -/
def step (r : Reading) (c : ℕ) : Reading :=
  match r.place with
  | .record | .field => if c = 0x22 then { r with place := .quoted } else r.unquoted c
  | .plain => r.unquoted c
  | .quoted => if c = 0x22 then { r with place := .quote } else { r with text := r.text ++ [c] }
  | .quote => if c = 0x22 then { r with place := .quoted, text := r.text ++ [c] } else r.unquoted c
  | .afterCr =>
    if c = 0x0A then { r with place := .record }
    else if c = 0x22 then { r with place := .quoted } else r.unquoted c

/-- The characters of a text, one after the other. -/
def run (r : Reading) (s : Str) : Reading := s.foldl step r

/-- The text ends: a row that has begun ends with it. -/
def finish (r : Reading) : List (List Str) :=
  match r.place with
  | .record | .afterCr => r.rows
  | _ => r.rows ++ [r.fields]

@[simp] theorem run_nil (r : Reading) : r.run [] = r := rfl

@[simp] theorem run_cons (r : Reading) (c : ℕ) (s : Str) : r.run (c :: s) = (r.step c).run s := rfl

theorem run_append (r : Reading) (s t : Str) : r.run (s ++ t) = (r.run s).run t := List.foldl_append

end Reading

/-- The rows of a text. -/
def read (s : Str) : List (List Str) := (Reading.start.run s).finish

/-! ### Fields -/

variable {c : ℕ} {s field : Str} {row : List Str} {rows : List (List Str)} {place : Place}

theorem not_isSpecial : isSpecial c = false ↔ c ≠ 0x2C ∧ c ≠ 0x22 ∧ c ≠ 0x0D ∧ c ≠ 0x0A := by
  simp [isSpecial]

/-- Within quotation marks the doubled marks are single again. -/
theorem run_quoteChar (field s : Str) :
    (Reading.mk .quoted s row rows).run (field.flatMap quoteChar) = ⟨.quoted, s ++ field, row, rows⟩ := by
  induction field generalizing s with
  | nil => rw [List.append_nil]; rfl
  | cons c field ih =>
    rw [List.flatMap_cons, Reading.run_append]
    have hchar : (Reading.mk .quoted s row rows).run (quoteChar c) = ⟨.quoted, s ++ [c], row, rows⟩ := by
      by_cases hc : c = 0x22
      · subst hc
        rfl
      · simp [quoteChar, Reading.step, hc]
    rw [hchar, ih, List.append_assoc, List.singleton_append]

theorem run_plain (h : ∀ c ∈ field, isSpecial c = false) (s : Str) :
    (Reading.mk .plain s row rows).run field = ⟨.plain, s ++ field, row, rows⟩ := by
  induction field generalizing s with
  | nil => rw [List.append_nil]; rfl
  | cons c field ih =>
    obtain ⟨hcomma, -, hcr, hlf⟩ := not_isSpecial.1 (h c List.mem_cons_self)
    have hstep : (Reading.mk .plain s row rows).step c = ⟨.plain, s ++ [c], row, rows⟩ := by
      simp [Reading.step, Reading.unquoted, hcomma, hcr, hlf]
    rw [Reading.run_cons, hstep, ih fun x hx => h x (List.mem_cons_of_mem _ hx), List.append_assoc,
      List.singleton_append]

/-- A place where a field begins. -/
def Place.Begins (place : Place) : Prop := place = .record ∨ place = .field

/-- A place where a field may end. -/
def Place.Open (place : Place) : Prop := place.Begins ∨ place = .plain ∨ place = .quote

theorem step_quotationMark (h : place.Begins) :
    (Reading.mk place [] row rows).step 0x22 = ⟨.quoted, [], row, rows⟩ := by
  rcases h with rfl | rfl <;> rfl

theorem run_quoted (h : place.Begins) :
    (Reading.mk place [] row rows).run (quoted field) = ⟨.quote, field, row, rows⟩ := by
  rw [quoted, List.cons_append, Reading.run_cons, step_quotationMark h, Reading.run_append, run_quoteChar]
  rfl

/-- A field is read back; only an empty one leaves the reader where it was. -/
theorem run_writeField (h : place.Begins) (field : Str) :
    ∃ after : Place, (Reading.mk place [] row rows).run (writeField field) = ⟨after, field, row, rows⟩ ∧
      after.Open ∧ (after = .record → place = .record ∧ field = []) := by
  unfold writeField
  split_ifs with hspecial
  · exact ⟨.quote, run_quoted h, .inr (.inr rfl), fun hplace => by cases hplace⟩
  · cases field with
    | nil => exact ⟨place, rfl, .inl h, fun hplace => ⟨hplace, rfl⟩⟩
    | cons c field =>
      simp only [List.any_cons, Bool.or_eq_true, List.any_eq_true, not_or, not_exists, not_and,
        Bool.not_eq_true] at hspecial
      obtain ⟨hcomma, hmark, hcr, hlf⟩ := not_isSpecial.1 hspecial.1
      have hstep : (Reading.mk place [] row rows).step c = ⟨.plain, [c], row, rows⟩ := by
        rcases h with rfl | rfl <;> simp [Reading.step, Reading.unquoted, hcomma, hmark, hcr, hlf]
      exact ⟨.plain, by rw [Reading.run_cons, hstep, run_plain hspecial.2]; rfl, .inr (.inl rfl),
        fun hplace => by cases hplace⟩

theorem step_comma (h : place.Open) :
    (Reading.mk place field row rows).step 0x2C = ⟨.field, [], row ++ [field], rows⟩ := by
  rcases h with (rfl | rfl) | rfl | rfl <;> rfl

theorem run_lineEnd (h : place.Open) (hbegun : place ≠ .record) :
    (Reading.mk place field row rows).run [0x0D, 0x0A] = ⟨.record, [], [], rows ++ [row ++ [field]]⟩ := by
  rcases h with (rfl | rfl) | rfl | rfl
  · exact absurd rfl hbegun
  all_goals rfl

/-! ### Rows -/

/-- The fields of a row, where the first is not at its start or something is in it. -/
theorem run_fields (h : place.Begins) (fields : List Str) (field : Str) (row : List Str)
    (hfirst : place = .record → fields = [] → field ≠ []) :
    (Reading.mk place [] row rows).run ([0x2C].intercalate ((field :: fields).map writeField) ++ [0x0D, 0x0A]) =
      ⟨.record, [], [], rows ++ [row ++ field :: fields]⟩ := by
  induction fields generalizing place field row with
  | nil =>
    obtain ⟨after, hrun, hopen, hrecord⟩ := run_writeField h field
    rw [List.map_singleton, List.intercalate_singleton, Reading.run_append, hrun, run_lineEnd hopen]
    -- A line end at the start of a row would be an empty line.
    intro hafter
    obtain ⟨hplace, hfield⟩ := hrecord hafter
    exact hfirst hplace rfl hfield
  | cons next fields ih =>
    obtain ⟨after, hrun, hopen, -⟩ := run_writeField h field
    rw [List.map_cons, List.intercalate_cons_of_ne_nil (by simp), List.append_assoc, List.append_assoc,
      Reading.run_append, hrun, List.singleton_append, Reading.run_cons, step_comma hopen,
      ih (.inr rfl) next (row ++ [field]) (fun hplace => by cases hplace), List.append_assoc, List.singleton_append]

/-- A row is read back. -/
theorem run_writeRow (row : List Str) :
    (Reading.mk .record [] [] rows).run (writeRow row) = ⟨.record, [], [], rows ++ [row]⟩ := by
  unfold writeRow
  split_ifs with hempty
  · -- One empty field is written with its marks, and is no empty line.
    subst hempty
    rw [Reading.run_append, run_quoted (.inl rfl)]
    exact run_lineEnd (.inr (.inr rfl)) fun hplace => by cases hplace
  · cases row with
    | nil => rfl
    | cons field fields =>
      refine run_fields (.inl rfl) fields field [] fun _ hnil hfield => hempty ?_
      rw [hnil, hfield]

theorem run_write (rows done : List (List Str)) :
    (Reading.mk .record [] [] done).run (write rows) = ⟨.record, [], [], done ++ rows⟩ := by
  induction rows generalizing done with
  | nil => rw [List.append_nil]; rfl
  | cons row rows ih =>
    rw [write, List.flatMap_cons, Reading.run_append, run_writeRow]
    exact (ih _).trans (by rw [List.append_assoc, List.singleton_append])

/-- **What is written is read back**: as many rows, with the same fields. -/
theorem read_write (rows : List (List Str)) : read (write rows) = rows := by
  rw [read, Reading.start, run_write]
  rfl

example : write [[Str.of "a", Str.of "b,\"c\""], [[]], []] = Str.of "a,\"b,\"\"c\"\"\"\r\n\"\"\r\n\r\n" := by decide

end Csv

end Cabin
