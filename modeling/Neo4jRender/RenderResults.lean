/-
`render_results.c`: the table and CSV renderers over a result stream.

The result stream, the value accessors and `neo4j_ntostring` belong to the rest of the
client library; here they are what the renderers can observe of them.  A stream is its
field names, the rows `neo4j_fetch_next` hands out before it returns `NULL`, and the two
codes `neo4j_check_failure` reports, before the first fetch and after the last.  A value
is its type, its bytes when it is a string, and the text `neo4j_ntostring` writes for it,
which is snprintf-like: as much as the buffer holds, NUL-terminated, and the whole length
returned whatever the capacity.

`buffer` and `bufcap`, which `neo4j_render_table` and `neo4j_render_csv` pass by pointer
to their helpers, are the world's staging buffer.
-/
import Neo4jRender.Render

namespace Neo4jRender

/-- The value types the renderers tell apart with `neo4j_type`; every other type of the
client library is `other`. -/
inductive NeoType where
  | null | bool | int | float | string | other
  deriving DecidableEq, Repr, Inhabited

/-- A value as the renderers read it: its type, its bytes when it is a string
(`neo4j_ustring_value`, `neo4j_string_length`), and the text `neo4j_ntostring` gives it. -/
structure Value where
  type : NeoType
  ustring : List UInt8
  text : List UInt8
  deriving DecidableEq, Repr, Inhabited

/-- A result stream as the renderers see it.  Every row has one value a field. -/
structure ResultStream where
  fieldnames : List CString
  rows : List (List Value)
  /-- What `neo4j_check_failure` reports before the first fetch. -/
  failure : Nat
  /-- What it reports once `neo4j_fetch_next` has returned `NULL`. -/
  failureAtEnd : Nat
  rows_length : ∀ row ∈ rows, row.length = fieldnames.length

/-- `neo4j_nfields`. -/
def ResultStream.nfields (results : ResultStream) : Nat := results.fieldnames.length

/-- `neo4j_fieldname(results, i)`, for a field index. -/
def ResultStream.fieldname (results : ResultStream) (i : Nat) : List UInt8 :=
  (results.fieldnames.getD i ⟨[], by decide⟩).1

/-! ### The staging buffer -/

def getBuf : RenderM (List UInt8) := fun w => .ok w.buf w

def getBufcap : RenderM Nat := fun w => .ok w.bufcap w

/-- `*bufcap = size` after a `realloc` that succeeded. -/
def setBufcap (size : Nat) : RenderM Unit := fun w => .ok () (w.withBufcap size)

/-- A fresh staging buffer of `size` bytes whose contents are not yet written. -/
def newBuffer (size : Nat) : RenderM Unit := fun w => .ok () ((w.withBuf []).withBufcap size)

/-- Modelled from the spec: `neo4j_ntostring(value, buf, n)`, not in src/, with `n = *bufcap`.
It is snprintf-like: as much of the value's text as the buffer holds, NUL-terminated, and the
whole length returned whatever the capacity. -/
def ntostring (value : Value) : RenderM Nat := fun w =>
  .ok value.text.length
    (w.withBuf (if w.bufcap = 0 then w.buf else snprintfBuf w.bufcap value.text))

/-- `buf[0] = '\0'`. -/
def clearBuf : RenderM Unit := fun w => .ok () (w.withBuf (0 :: w.buf.drop 1))

/-- `value_tostring`. -/
def valueTostring (flags : RenderFlags) (value : Value) : RenderM Nat := do
  cAssert (0 < (← getBufcap))
  if !flags.showNulls ∧ value.type = .null then
    clearBuf
    pure 0
  else ntostring value

/-- The `do … while (true)` of `render_field_value`, with fuel: `realloc` to `length + 1`. -/
def renderFieldValueLoop (flags : RenderFlags) (value : Value) : Nat → RenderM Nat
  | 0 => throw .outOfFuel
  | fuel + 1 => do
    let length ← valueTostring flags value
    if length < (← getBufcap) then pure length
    else do
      orFail alloc
      setBufcap (length + 1)
      renderFieldValueLoop flags value fuel

/-- `render_field_value`: the length of the text it leaves at `*s = *buf`. -/
def renderFieldValue (fuel : Nat) (flags : RenderFlags) (value : Value) : RenderM Nat := do
  cAssert (0 < (← getBufcap))
  renderFieldValueLoop flags value fuel

/-! ### The table -/

/-- `err = neo4j_check_failure(results); if (err != 0) { errno = err; ... return -1; }`, the
check both renderers make before the first row and after the last. -/
def checkResults (code : Nat) : RenderM Unit := do
  let err ← checkFailure code
  if err ≠ 0 then
    setErrno err
    throw .failed

/-- `obtain_fieldname`: the name, with its terminating NUL after it in memory. -/
def obtainFieldname (results : ResultStream) (i : Nat) : RenderM FieldText :=
  pure ⟨.stable (results.fieldname i ++ [0]), (results.fieldname i).length, false⟩

/-- `obtain_result_field`. -/
def obtainResultField (fuel : Nat) (flags : RenderFlags) (row : List Value) (i : Nat) :
    RenderM FieldText := do
  let value := row.getD i default
  if value.type = .string ∧ !flags.quoteStrings then
    pure ⟨.stable value.ustring, value.ustring.length, false⟩
  else do
    let n ← renderFieldValue fuel flags value
    pure ⟨.staging 0, n, true⟩

/-- `column_width` for `nfields` columns, guarded against unsigned wrap-around. -/
def columnWidthFor (width nfields : Nat) : Nat :=
  if nfields = 0 ∨ width ≤ nfields + 1 then 0 else (width - nfields - 1) / nfields

/-- `while (column_width < 2 && nfields > 0)`: the columns kept, their width and `undersize`. -/
def fitColumns (width : Nat) : Nat → Nat → Bool → Nat × Nat × Bool
  | 0, columnWidth, undersize => (0, columnWidth, undersize)
  | nfields + 1, columnWidth, undersize =>
    if columnWidth < 2 then fitColumns width nfields (columnWidthFor width nfields) true
    else (nfields + 1, columnWidth, undersize)

/-- Modelled from the spec: `REQUIRE(cond, -1)` of `util.h`, not in src/.  A call outside the
precondition fails with `EINVAL`. -/
def require (c : Prop) [Decidable c] : RenderM Unit :=
  if c then pure () else do
    setErrno 22
    throw .failed

/-- The `for` loop over the body rows of `neo4j_render_table`. -/
def renderTableRows (env : Env) (fuel : Nat) (widths : List Nat) (undersize : Bool)
    (flags : RenderFlags) : Bool → List (List Value) → RenderM Unit
  | _, [] => pure ()
  | first, row :: rows => do
    (if !first ∧ flags.rowLines then renderHrule widths .middle undersize flags else pure ())
    renderRow env fuel widths undersize flags (some (obtainResultField fuel flags row))
    renderTableRows env fuel widths undersize flags false rows

/-- `neo4j_render_table`. -/
def renderTable (env : Env) (fuel : Nat) (results : ResultStream) (width : Nat)
    (flags : RenderFlags) : RenderM Unit := do
  require (1 < width ∧ width < env.maxWidth)
  checkResults results.failure
  if results.nfields = 0 then return
  let flags := normalizeRenderFlags env.codeset flags
  let (nfields, columnWidth, undersize) :=
    fitColumns width results.nfields (columnWidthFor width results.nfields) false
  cAssert (2 ≤ columnWidth ∨ nfields = 0)
  (if 0 < nfields then orFail alloc else pure ())
  let widths := List.replicate nfields columnWidth
  onFailure
    (do
      newBuffer columnWidth
      (if 0 < columnWidth then orFail alloc else pure ())
      renderHrule widths .top undersize flags
      renderRow env fuel widths undersize flags (some (obtainFieldname results))
      renderHrule widths .head undersize flags
      renderTableRows env fuel widths undersize flags true results.rows
      checkResults results.failureAtEnd
      renderHrule widths .bottom undersize flags)
    failureCleanup
  orFail fflush

/-! ### CSV -/

/-- `memchr(s, c, n)`: the offset of the first `c` among the first `n` bytes. -/
def memchr (mem : List UInt8) (c : UInt8) (n : Nat) : Option Nat :=
  (mem.take n).findIdx? (· == c)

/-- `"\"\""`. -/
def dquotes : CString := ⟨[0x22, 0x22], by decide⟩

/-- The `memchr` loop of `write_csv_quoted_string`: `s` is `str + pos`, `end` is `str + stop`.
It gets the string's length as fuel, which it never exhausts because every turn consumes at
least one byte. -/
def writeCsvQuotedLoop (str : List UInt8) (stop : Nat) : Nat → Nat → Nat → RenderM Unit
  | 0, _, _ => pure ()
  | fuel + 1, pos, n =>
    if pos < stop then
      match memchr (str.drop pos) 0x22 n with
      | none => orFail (fwrite ((str.drop pos).take n))
      | some l => do
        orFail (fwrite ((str.drop pos).take l))
        orFail (fputs dquotes)
        writeCsvQuotedLoop str stop fuel (pos + l + 1) (n - (l + 1))
    else pure ()

/-- `write_csv_quoted_string`, on the memory from `s` on and the length `n`. -/
def writeCsvQuotedString (s : List UInt8) (n : Nat) : RenderM Unit := do
  orFail (fputc 0x22)
  writeCsvQuotedLoop s n n 0 n
  orFail (fputc 0x22)

/-- The `do … while (true)` of `write_value`, with fuel: `realloc` to `required`. -/
def writeValueLoop (value : Value) : Nat → RenderM Unit
  | 0 => throw .outOfFuel
  | fuel + 1 => do
    let required ← ntostring value
    if required < (← getBufcap) then pure ()
    else do
      orFail alloc
      setBufcap required
      writeValueLoop value fuel

/-- `write_value`. -/
def writeValue (fuel : Nat) (flags : RenderFlags) (value : Value) : RenderM Unit := do
  if value.type = .string then writeCsvQuotedString value.ustring value.ustring.length
  else if !flags.showNulls ∧ value.type = .null then pure ()
  else do
    cAssert (2 ≤ (← getBufcap))
    writeValueLoop value fuel
    let text := CString.ofBytes (← getBuf)
    if value.type = .null ∨ value.type = .bool ∨ value.type = .int ∨ value.type = .float then
      orFail (fputs text)
    else writeCsvQuotedString text.1 text.1.length

/-- `for (i = 0; i < nfields; ++i) { cell; if ((i + 1) < nfields) fputc(',') }`, from cell `i`
with `k` cells to go. -/
def csvCells (nfields : Nat) (cell : Nat → RenderM Unit) : Nat → Nat → RenderM Unit
  | 0, _ => pure ()
  | k + 1, i => do
    cell i
    (if i + 1 < nfields then orFail (fputc 0x2C) else pure ())
    csvCells nfields cell k (i + 1)

/-- The `while` loop over the rows of `neo4j_render_csv`. -/
def renderCsvRows (fuel : Nat) (flags : RenderFlags) (nfields : Nat) :
    List (List Value) → RenderM Unit
  | [] => pure ()
  | row :: rows => do
    csvCells nfields (fun i => writeValue fuel flags (row.getD i default)) nfields 0
    orFail (fputc 0x0A)
    renderCsvRows fuel flags nfields rows

/-- `neo4j_render_csv`. -/
def renderCsv (env : Env) (fuel : Nat) (results : ResultStream) (flags : RenderFlags) :
    RenderM Unit := do
  newBuffer env.fieldBufferInitialCapacity
  orFail alloc
  onFailure
    (do
      checkResults results.failure
      if results.nfields = 0 then return
      csvCells results.nfields
        (fun i => writeCsvQuotedString (results.fieldname i) (results.fieldname i).length)
        results.nfields 0
      orFail (fputc 0x0A)
      renderCsvRows fuel flags results.nfields results.rows
      checkResults results.failureAtEnd
      orFail fflush)
    failureCleanup

end Neo4jRender
