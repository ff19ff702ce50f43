/-
Reading CSV back.

The grammar is RFC 4180's, with a newline ending every record, as `neo4j_render_csv` writes
them: the fields of a record are separated by commas, and a field is either quoted, holding
any bytes with each `"` doubled, or plain, holding none of `"`, `,` and `\n`.  `readCsv` reads
that grammar a byte at a time.

The writing side is `CsvCell`, a cell written quoted or plain, and `csvLine`, a record's line.
The round trip (`readCsv_csvLines`) is built from one lemma a piece of the grammar: the body of
a quoted cell, a cell with the byte that ends it, a record's line.  Each is stated from any
reader state of the right kind, so that they compose through `List.foldlM_append`.
-/
import Mathlib.Data.List.Basic

namespace Neo4jRender

/-! ### The reader -/

/-- Where the reader is: at the start of a record or of a later field, inside a plain field,
inside a quoted one, or just after a quote inside a quoted one. -/
inductive CsvState where
  | recordStart | fieldStart | plain | quoted | quoteSeen
  deriving DecidableEq, Repr

/-- The reader's state with the field, the record and the records read so far. -/
structure CsvReader where
  state : CsvState
  field : List UInt8
  record : List (List UInt8)
  records : List (List (List UInt8))
  deriving DecidableEq, Repr

/-- The field read so far ends at `b`, a comma or a newline. -/
def CsvReader.endField (r : CsvReader) (b : UInt8) : CsvReader :=
  if b = 0x0A then ⟨.recordStart, [], [], r.records ++ [r.record ++ [r.field]]⟩
  else ⟨.fieldStart, [], r.record ++ [r.field], r.records⟩

/-- One byte of the text; `none` where the text leaves the grammar. -/
def CsvReader.step (r : CsvReader) (b : UInt8) : Option CsvReader :=
  match r.state with
  | .recordStart | .fieldStart =>
    if b = 0x22 then some { r with state := .quoted }
    else if b = 0x2C ∨ b = 0x0A then some (r.endField b)
    else some { r with state := .plain, field := r.field ++ [b] }
  | .plain =>
    if b = 0x22 then none
    else if b = 0x2C ∨ b = 0x0A then some (r.endField b)
    else some { r with field := r.field ++ [b] }
  | .quoted =>
    if b = 0x22 then some { r with state := .quoteSeen }
    else some { r with field := r.field ++ [b] }
  | .quoteSeen =>
    if b = 0x22 then some { r with state := .quoted, field := r.field ++ [0x22] }
    else if b = 0x2C ∨ b = 0x0A then some (r.endField b)
    else none

/-- The records of a CSV text, or `none` for a text outside the grammar. -/
def readCsv (text : List UInt8) : Option (List (List (List UInt8))) :=
  match text.foldlM CsvReader.step ⟨.recordStart, [], [], []⟩ with
  | some ⟨.recordStart, _, _, records⟩ => some records
  | _ => none

/-! ### Writing cells and records -/

/-- Every `"` doubled, as `write_csv_quoted_string` writes the bytes of a quoted field. -/
def escapeQuotes (s : List UInt8) : List UInt8 :=
  s.flatMap fun b => if b = 0x22 then [0x22, 0x22] else [b]

/-- A cell as it stands in the text. -/
inductive CsvCell where
  | quoted (s : List UInt8)
  | plain (s : List UInt8)

/-- The bytes a cell holds. -/
def CsvCell.content : CsvCell → List UInt8
  | .quoted s | .plain s => s

def CsvCell.encode : CsvCell → List UInt8
  | .quoted s => 0x22 :: escapeQuotes s ++ [0x22]
  | .plain s => s

/-- Bytes a plain cell may hold: no quote, comma or newline. -/
def PlainText (s : List UInt8) : Prop := 0x22 ∉ s ∧ 0x2C ∉ s ∧ 0x0A ∉ s

instance (s : List UInt8) : Decidable (PlainText s) := inferInstanceAs (Decidable (_ ∧ _ ∧ _))

def CsvCell.Valid : CsvCell → Prop
  | .quoted _ => True
  | .plain s => PlainText s

/-- The cells of a record with a comma between two. -/
def joinCells : List (List UInt8) → List UInt8
  | [] => []
  | [c] => c
  | c :: d :: cs => c ++ 0x2C :: joinCells (d :: cs)

/-- A record's line. -/
def csvLine (cells : List CsvCell) : List UInt8 := joinCells (cells.map CsvCell.encode) ++ [0x0A]

/-! ### The round trip -/

/-- **A quoted cell's body reads back as its bytes.** -/
theorem foldlM_escapeQuotes (s : List UInt8) (r : CsvReader) (hr : r.state = .quoted) :
    (escapeQuotes s).foldlM CsvReader.step r = some { r with field := r.field ++ s } := by
  induction s generalizing r with
  | nil => simp [escapeQuotes]
  | cons b s ih =>
    rw [escapeQuotes, List.flatMap_cons, List.foldlM_append, ← escapeQuotes]
    by_cases hb : b = 0x22
    · subst hb
      simp [CsvReader.step, hr, ih]
    · simp [CsvReader.step, hr, ih, hb]

/-- Plain bytes in a plain field, up to the comma or newline that ends it. -/
theorem foldlM_plain {s : List UInt8} (hs : PlainText s) {b : UInt8}
    (hb : b = 0x2C ∨ b = 0x0A) (r : CsvReader) (hr : r.state = .plain) :
    (s ++ [b]).foldlM CsvReader.step r = some ({ r with field := r.field ++ s }.endField b) := by
  induction s generalizing r with
  | nil =>
    have : b ≠ 0x22 := by rcases hb with rfl | rfl <;> decide
    simp [CsvReader.step, hr, this, hb, CsvReader.endField]
  | cons x s ih =>
    obtain ⟨hq, hc, hn⟩ := hs
    simp only [List.mem_cons, not_or] at hq hc hn
    rw [List.cons_append, List.foldlM_cons]
    simp only [CsvReader.step, hr, Ne.symm hq.1, Ne.symm hc.1, Ne.symm hn.1, if_false, or_self,
      Option.bind_eq_bind, Option.some_bind]
    rw [ih ⟨hq.2, hc.2, hn.2⟩ _ rfl]
    simp

/-- **A cell and the byte that ends it read back as the cell's bytes**, from the start of a
field. -/
theorem foldlM_cell {c : CsvCell} (hc : c.Valid) {b : UInt8} (hb : b = 0x2C ∨ b = 0x0A)
    {r : CsvReader} (hr : r.state = .recordStart ∨ r.state = .fieldStart) (hf : r.field = []) :
    (c.encode ++ [b]).foldlM CsvReader.step r =
      some ({ r with field := c.content }.endField b) := by
  have hq : b ≠ 0x22 := by rcases hb with rfl | rfl <;> decide
  have hstart : ∀ x, r.step x = if x = 0x22 then some { r with state := .quoted }
      else if x = 0x2C ∨ x = 0x0A then some (r.endField x)
      else some { r with state := .plain, field := r.field ++ [x] } := by
    intro x; rcases hr with h | h <;> simp only [CsvReader.step, h]
  cases c with
  | quoted s =>
    simp only [CsvCell.encode, List.cons_append, List.append_assoc, List.foldlM_cons, hstart,
      if_true, Option.bind_eq_bind, Option.some_bind, List.foldlM_append]
    rw [foldlM_escapeQuotes s { r with state := .quoted } rfl]
    simp [CsvReader.step, hq, hb, hf, CsvCell.content, CsvReader.endField]
  | plain s =>
    cases s with
    | nil => simp [CsvCell.encode, hstart, hq, hb, hf, CsvCell.content, CsvReader.endField]
    | cons x s =>
      obtain ⟨hqs, hcs, hns⟩ := hc
      simp only [List.mem_cons, not_or] at hqs hcs hns
      simp only [CsvCell.encode, List.cons_append, List.foldlM_cons, hstart, Ne.symm hqs.1,
        Ne.symm hcs.1, Ne.symm hns.1, if_false, or_self, Option.bind_eq_bind, Option.some_bind]
      rw [foldlM_plain ⟨hqs.2, hcs.2, hns.2⟩ hb
        { r with state := .plain, field := r.field ++ [x] } rfl]
      simp [hf, CsvCell.content, CsvReader.endField]

/-- **A record's line reads back as the record**, from the start of a record or field. -/
theorem foldlM_csvLine {cells : List CsvCell} (hne : cells ≠ []) (hv : ∀ c ∈ cells, c.Valid)
    {r : CsvReader} (hr : r.state = .recordStart ∨ r.state = .fieldStart) (hf : r.field = []) :
    (csvLine cells).foldlM CsvReader.step r =
      some ⟨.recordStart, [], [], r.records ++ [r.record ++ cells.map CsvCell.content]⟩ := by
  induction cells generalizing r with
  | nil => exact absurd rfl hne
  | cons c cs ih =>
    have hc := hv c (List.mem_cons_self _ _)
    cases cs with
    | nil =>
      simp only [csvLine, List.map_cons, List.map_nil, joinCells]
      rw [foldlM_cell hc (Or.inr rfl) hr hf]
      simp [CsvReader.endField]
    | cons d cs =>
      have hline : csvLine (c :: d :: cs) = (c.encode ++ [0x2C]) ++ csvLine (d :: cs) := by
        simp [csvLine, joinCells]
      rw [hline, List.foldlM_append, foldlM_cell hc (Or.inl rfl) hr hf]
      simp only [CsvReader.endField, show (0x2C : UInt8) ≠ 0x0A by decide, if_false,
        Option.bind_eq_bind, Option.some_bind]
      rw [ih (List.cons_ne_nil _ _) (fun c' h => hv c' (List.mem_cons_of_mem _ h)) (Or.inr rfl) rfl]
      simp

/-- **The records written as lines read back as the bytes of their cells.** -/
theorem readCsv_csvLines {records : List (List CsvCell)} (hne : ∀ cells ∈ records, cells ≠ [])
    (hv : ∀ cells ∈ records, ∀ c ∈ cells, c.Valid) :
    readCsv (records.flatMap csvLine) = some (records.map (·.map CsvCell.content)) := by
  suffices h : ∀ done,
      (records.flatMap csvLine).foldlM CsvReader.step ⟨.recordStart, [], [], done⟩ =
        some ⟨.recordStart, [], [], done ++ records.map (·.map CsvCell.content)⟩ by
    simp [readCsv, h []]
  induction records with
  | nil => simp
  | cons cells records ih =>
    intro done
    have hl := foldlM_csvLine (hne cells (List.mem_cons_self _ _))
      (hv cells (List.mem_cons_self _ _)) (r := ⟨.recordStart, [], [], done⟩) (Or.inl rfl) rfl
    simp only [List.flatMap_cons, List.foldlM_append, hl, Option.bind_eq_bind, Option.some_bind]
    simp only [List.nil_append] at ih ⊢
    rw [ih (fun c h => hne c (List.mem_cons_of_mem _ h)) fun c h => hv c (List.mem_cons_of_mem _ h)]
    simp

end Neo4jRender
