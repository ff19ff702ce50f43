/-
The CSV renderer.

`neo4j_render_csv` writes a header line of quoted field names, then one line a row, each value
through `write_value`.  What it writes when it returns 0 is `csvRecords` written as lines
(`renderCsv_writes`), built a function at a time from the inside out: the `memchr` loop of
`write_csv_quoted_string` writes its bytes with every quote doubled, `write_value` the cell
`valueCell` says, the cell loop the cells with commas between them.  With the reader of
`CsvReader`, that is the spec's round trip: the output reads back as the field names and,
for every row, the bytes of its values (`renderCsv_roundtrip`).  On its own,
`write_csv_quoted_string` writes every string quoted and returns, its loop's fuel a variant and
not a budget (`writeCsvQuotedString_exact`).

`write_value`'s retry loop does not keep its contract.  It grows the buffer to the text's
length and not one more, so a text that did not fit the first time never fits, and the export
stops at the first such value and never returns (`renderCsv_diverges`).
-/
import Neo4jRender.Proofs.Guard
import Neo4jRender.Proofs.CsvReader
import Neo4jRender.Proofs.Field

namespace Neo4jRender

/-! ### Quoting -/

@[simp] theorem escapeQuotes_nil : escapeQuotes [] = [] := rfl

theorem escapeQuotes_append (a b : List UInt8) :
    escapeQuotes (a ++ b) = escapeQuotes a ++ escapeQuotes b :=
  List.flatMap_append _ _ _

theorem escapeQuotes_quote (s : List UInt8) :
    escapeQuotes (0x22 :: s) = 0x22 :: 0x22 :: escapeQuotes s := rfl

theorem escapeQuotes_of_not_mem {s : List UInt8} (h : 0x22 ∉ s) : escapeQuotes s = s := by
  induction s with
  | nil => rfl
  | cons b s ih =>
    simp only [List.mem_cons, not_or] at h
    rw [escapeQuotes, List.flatMap_cons, if_neg (Ne.symm h.1), ← escapeQuotes, ih h.2]
    rfl

theorem memchr_none {mem : List UInt8} {c : UInt8} {n : Nat} (h : memchr mem c n = none) :
    c ∉ mem.take n := fun hc => by
  rw [memchr, List.findIdx?_eq_none_iff] at h
  simpa using h c hc

theorem memchr_lt {mem : List UInt8} {c : UInt8} {n l : Nat} (h : memchr mem c n = some l) :
    l < n := by
  rw [memchr, List.findIdx?_eq_some_iff_getElem] at h
  obtain ⟨hl, -⟩ := h
  simp only [List.length_take] at hl
  omega

/-- Where `memchr` finds `c` at `l`, the first `n` bytes are the `l` before it, free of `c`, the
byte itself, and the rest. -/
theorem memchr_some {mem : List UInt8} {c : UInt8} {n l : Nat} (h : memchr mem c n = some l) :
    mem.take n = mem.take l ++ c :: (mem.drop (l + 1)).take (n - (l + 1)) ∧ c ∉ mem.take l := by
  have hln := memchr_lt h
  rw [memchr, List.findIdx?_eq_some_iff_getElem] at h
  obtain ⟨hl, hc, hbefore⟩ := h
  have htake : (mem.take n).take l = mem.take l := by
    rw [List.take_take, Nat.min_eq_left hln.le]
  constructor
  · conv_lhs => rw [← List.take_append_drop l (mem.take n)]
    rw [htake, List.drop_eq_getElem_cons hl, List.drop_take, beq_iff_eq.mp hc]
  · intro hmem
    rw [← htake, List.mem_iff_getElem] at hmem
    obtain ⟨j, hj, hjc⟩ := hmem
    simp only [List.length_take] at hj
    refine hbefore j (by omega) ?_
    rw [List.getElem_take] at hjc
    simp [hjc]

/-! ### What the writers write -/

/-- **The `memchr` loop writes the bytes from `pos` to `stop` with every quote doubled**, given
its invariant `n = stop - pos` and fuel for `n` turns. -/
theorem writeCsvQuotedLoop_writes (str : List UInt8) (stop : Nat) (fuel pos n : Nat)
    (hn : n = stop - pos) (hfuel : n ≤ fuel) :
    Writes (writeCsvQuotedLoop str stop fuel pos n) (escapeQuotes ((str.drop pos).take n)) := by
  induction fuel generalizing pos n with
  | zero =>
    obtain rfl : n = 0 := by omega
    exact Writes.pure ()
  | succ fuel ih =>
    unfold writeCsvQuotedLoop
    by_cases hlt : pos < stop
    · rw [if_pos hlt]
      cases hm : memchr (str.drop pos) 0x22 n with
      | none => rw [escapeQuotes_of_not_mem (memchr_none hm)]; exact orFail_fwrite_writes _
      | some l =>
        obtain ⟨hsplit, hq⟩ := memchr_some hm
        rw [hsplit, escapeQuotes_append, escapeQuotes_of_not_mem hq, escapeQuotes_quote,
          List.drop_drop]
        refine ((orFail_fwrite_writes _).bind fun _ => (orFail_fwrite_writes _).bind fun _ =>
          ih _ _ (by omega) (by omega)).of_eq ?_
        simp [dquotes, Nat.add_assoc]
    · obtain rfl : n = 0 := by omega
      rw [if_neg hlt]
      exact Writes.pure ()

/-- The loop's fuel is a variant, not a budget: every turn consumes at least one byte, so under
the invariant `n = stop - pos` any two fuels that cover `n` give the same run. -/
theorem writeCsvQuotedLoop_fuel_congr (str : List UInt8) (stop : Nat) :
    ∀ f g pos n, n = stop - pos → n ≤ f → n ≤ g →
      writeCsvQuotedLoop str stop f pos n = writeCsvQuotedLoop str stop g pos n := by
  intro f
  induction f with
  | zero =>
    intro g pos n hn hf _
    cases g with
    | zero => rfl
    | succ g => simp only [writeCsvQuotedLoop, if_neg (show ¬pos < stop by omega)]
  | succ f ih =>
    intro g pos n hn hf hg
    cases g with
    | zero => simp only [writeCsvQuotedLoop, if_neg (show ¬pos < stop by omega)]
    | succ g =>
      simp only [writeCsvQuotedLoop]
      split_ifs
      · cases hm : memchr (str.drop pos) 0x22 n with
        | none => rfl
        | some l =>
          have hl := memchr_lt hm
          simp only [ih g (pos + l + 1) (n - (l + 1)) (by omega) (by omega) (by omega)]
      · rfl

/-- `write_csv_quoted_string` writes the first `n` bytes as a quoted cell. -/
theorem writeCsvQuotedString_writes (s : List UInt8) (n : Nat) :
    Writes (writeCsvQuotedString s n) (CsvCell.quoted (s.take n)).encode :=
  ((orFail_fwrite_writes _).bind fun _ =>
    (writeCsvQuotedLoop_writes s n n 0 n rfl le_rfl).bind fun _ => orFail_fwrite_writes _).of_eq
    (by simp [CsvCell.encode])

theorem ofBytes_append_zero (b : List UInt8) :
    (CString.ofBytes (b ++ [0])).1 = (CString.ofBytes b).1 := by
  induction b with
  | nil => rfl
  | cons x b ih =>
    simp only [CString.ofBytes, List.cons_append, List.takeWhile_cons] at ih ⊢
    rw [ih]

/-- `write_value`'s retry loop calls `neo4j_ntostring` and the allocator, and writes nothing. -/
theorem writeValueLoop_quiet (value : Value) (fuel : Nat) :
    Writes (writeValueLoop value fuel) [] := by
  induction fuel with
  | zero => exact fun _ => Triple.throw fun _ _ => trivial
  | succ fuel ih =>
    refine (ntostring_quiet value).quiet_bind fun _ => getBufcap_quiet.quiet_bind fun _ => ?_
    exact Writes.ite (fun _ => Writes.pure ()) fun _ => (orFail_attempt_writes _).quiet_bind
      fun _ => (setBufcap_quiet _).quiet_bind fun _ => ih

/-- When the retry loop returns, the buffer holds the value's whole text. -/
theorem writeValueLoop_buf (value : Value) (fuel : Nat) :
    Triple (fun _ => True) (writeValueLoop value fuel)
      (fun _ w => (CString.ofBytes w.buf).1 = (CString.ofBytes value.text).1)
      (fun _ _ => True) := by
  induction fuel with
  | zero => exact Triple.throw fun _ _ => trivial
  | succ fuel ih =>
    refine ((ntostring_spec (Q := fun L w => L = value.text.length ∧
      (w.bufcap ≠ 0 → w.buf = snprintfBuf w.bufcap value.text)) value).pre
        fun w _ => ⟨rfl, fun h => by simp only [World.withBuf_bufcap] at h; simp [h]⟩).bind
      fun L => Triple.prop fun hL => ?_
    refine ((getBufcap_spec (Q := fun cap w => cap = w.bufcap ∧
      (w.bufcap ≠ 0 → w.buf = snprintfBuf w.bufcap value.text))).pre
        fun w h => ⟨rfl, h⟩).bind fun cap => ?_
    refine Triple.ite (fun hlt => Triple.pure fun w ⟨hcap, hbuf⟩ => ?_) fun _ =>
      Triple.bind (Q := fun _ _ => True) Triple.trivial fun _ =>
        Triple.bind (Q := fun _ _ => True) Triple.trivial fun _ => ih
    subst hcap hL
    rw [hbuf (by omega), snprintfBuf, List.take_of_length_le (by omega), ofBytes_append_zero]

/-- The cell `write_value` writes for a value: a string quoted, nothing for a null it does not
show, the text of a null, boolean, integer or float as it is, and any other value's text
quoted. -/
def valueCell (flags : RenderFlags) (value : Value) : CsvCell :=
  if value.type = .string then .quoted value.ustring
  else if !flags.showNulls ∧ value.type = .null then .plain []
  else if value.type = .null ∨ value.type = .bool ∨ value.type = .int ∨
      value.type = .float then
    .plain (CString.ofBytes value.text).1
  else .quoted (CString.ofBytes value.text).1

/-- **`write_value` writes the value's cell.** -/
theorem writeValue_writes (fuel : Nat) (flags : RenderFlags) (value : Value) :
    Writes (writeValue fuel flags value) (valueCell flags value).encode := by
  unfold writeValue
  by_cases hs : value.type = .string
  · rw [if_pos hs]
    exact (writeCsvQuotedString_writes _ _).of_eq (by simp [valueCell, hs])
  by_cases hn : (!flags.showNulls ∧ value.type = .null)
  · rw [if_neg hs, if_pos hn]
    exact (Writes.pure ()).of_eq (by simp only [valueCell, hs, hn, if_false, if_true]; rfl)
  rw [if_neg hs, if_neg hn]
  intro o
  refine (getBufcap_quiet o).bind fun _ =>
    Triple.bind (Q := fun _ w => w.out = o ++ []) ((cAssert_spec _).pre fun w h => ?_) fun _ => ?_
  · split
    · exact h
    · trivial
  refine ((((writeValueLoop_quiet value fuel) (o ++ [])).and (writeValueLoop_buf value fuel)).conseq
    (fun _ h => ⟨h, trivial⟩) (fun _ _ h => h) (fun _ _ _ => trivial)).bind fun _ => ?_
  refine ((getBuf_spec (Q := fun buf w =>
    (CString.ofBytes buf).1 = (CString.ofBytes value.text).1 ∧ w.out = o ++ [] ++ [])).pre
      fun w h => ⟨h.2, h.1⟩).bind fun buf => Triple.prop fun hbuf => ?_
  simp only [List.append_nil]
  refine Triple.ite (fun hsc => ((orFail_fwrite_writes _) o).conseq (fun _ => id)
    (fun _ w h => ?_) fun _ _ => id) fun hsc => ((writeCsvQuotedString_writes _ _) o).conseq
      (fun _ => id) (fun _ w h => ?_) fun _ _ => id
  · simp only [valueCell, hs, hn, hsc, if_false, if_true] at h ⊢
    rw [h, ← hbuf]; rfl
  · simp only [valueCell, hs, hn, hsc, if_false] at h ⊢
    rw [h, ← hbuf, List.take_length]

/-- The cell loop, from cell `i` with one cell left a byte string of `cs`, writes them with a
comma between two. -/
theorem csvCells_writes (nfields : Nat) (cell : Nat → RenderM Unit) (cs : List (List UInt8))
    (i : Nat) (hlen : i + cs.length = nfields)
    (hcell : ∀ j (h : j < cs.length), Writes (cell (i + j)) cs[j]) :
    Writes (csvCells nfields cell cs.length i) (joinCells cs) := by
  induction cs generalizing i with
  | nil => exact Writes.pure ()
  | cons c cs ih =>
    simp only [List.length_cons] at hlen
    have hrest := ih (i + 1) (by omega) fun j hj => by
      simpa [Nat.add_assoc, Nat.add_comm 1] using hcell (j + 1) (by simp; omega)
    have hc : Writes (cell i) c := by simpa using hcell 0 (by simp)
    cases cs with
    | nil =>
      refine ((hc.bind fun _ => (Writes.ite (fun h => absurd h (by simp at hlen; omega))
        fun _ => Writes.pure ()).bind fun _ => hrest).of_eq ?_)
      simp [joinCells]
    | cons d cs =>
      refine ((hc.bind fun _ => (Writes.ite (fun _ => orFail_fwrite_writes _)
        fun h => absurd (by simp at hlen; omega) h).bind fun _ => hrest).of_eq ?_)
      simp [joinCells]

/-- The records `neo4j_render_csv` writes: the field names quoted, then a cell a value. -/
def csvRecords (flags : RenderFlags) (results : ResultStream) : List (List CsvCell) :=
  results.fieldnames.map (fun name => .quoted name.1) :: results.rows.map (·.map (valueCell flags))

/-- The row loop writes a line a row. -/
theorem renderCsvRows_writes (fuel : Nat) (flags : RenderFlags) {nfields : Nat}
    (rows : List (List Value)) (hrows : ∀ row ∈ rows, row.length = nfields) :
    Writes (renderCsvRows fuel flags nfields rows)
      ((rows.map (·.map (valueCell flags))).flatMap csvLine) := by
  induction rows with
  | nil => exact Writes.pure ()
  | cons row rows ih =>
    have hlen := hrows row (List.mem_cons_self _ _)
    have hcells := csvCells_writes nfields (fun i => writeValue fuel flags (row.getD i default))
      ((row.map (valueCell flags)).map CsvCell.encode) 0 (by simp [hlen]) fun j hj => by
        simp only [List.length_map] at hj
        dsimp only
        rw [Nat.zero_add, List.getD_eq_getElem?_getD, List.getElem?_eq_getElem hj,
          Option.getD_some, List.getElem_map, List.getElem_map]
        exact writeValue_writes fuel flags row[j]
    simp only [List.length_map, hlen] at hcells
    refine (hcells.bind fun _ => (orFail_fwrite_writes _).bind fun _ =>
      ih fun r h => hrows r (List.mem_cons_of_mem _ h)).of_eq ?_
    simp [csvLine]

/-- **What `neo4j_render_csv` writes when it returns**: its records, a line each. -/
theorem renderCsv_writes (env : Env) (fuel : Nat) (results : ResultStream) (flags : RenderFlags)
    (hn : 0 < results.nfields) :
    Writes (renderCsv env fuel results flags) ((csvRecords flags results).flatMap csvLine) := by
  have hheader := csvCells_writes results.nfields
    (fun i => writeCsvQuotedString (results.fieldname i) (results.fieldname i).length)
    ((results.fieldnames.map fun name => CsvCell.quoted name.1).map CsvCell.encode) 0
    (by simp [ResultStream.nfields]) fun j hj => by
      simp only [List.length_map] at hj
      dsimp only
      rw [Nat.zero_add, ResultStream.fieldname, List.getD_eq_getElem?_getD,
        List.getElem?_eq_getElem hj, Option.getD_some, List.getElem_map, List.getElem_map]
      exact (writeCsvQuotedString_writes _ _).of_eq (by rw [List.take_length])
  simp only [List.length_map] at hheader
  unfold renderCsv
  refine (newBuffer_quiet _).quiet_bind fun _ => (orFail_attempt_writes _).quiet_bind fun _ =>
    Writes.onFailure ((checkResults_writes _).quiet_bind fun _ => ?_) _
  refine Writes.ite (fun h => absurd h (Nat.pos_iff_ne_zero.mp hn)) fun _ => ?_
  refine ((hheader.bind fun _ => (orFail_fwrite_writes _).bind fun _ =>
    (renderCsvRows_writes fuel flags results.rows results.rows_length).bind fun _ =>
      (checkResults_writes _).bind fun _ => orFail_attempt_writes _).of_eq ?_)
  simp [csvRecords, csvLine, ResultStream.nfields]

/-! ### The round trip -/

/-- What the spec says a value's cell holds: a string's bytes, nothing for a null that is not
shown, and otherwise the value's text up to its first NUL. -/
def csvValue (flags : RenderFlags) (value : Value) : List UInt8 :=
  if value.type = .string then value.ustring
  else if !flags.showNulls ∧ value.type = .null then []
  else (CString.ofBytes value.text).1

theorem valueCell_content (flags : RenderFlags) (value : Value) :
    (valueCell flags value).content = csvValue flags value := by
  unfold valueCell csvValue; split_ifs <;> rfl

theorem PlainText.ofBytes {s : List UInt8} (h : PlainText s) : PlainText (CString.ofBytes s).1 :=
  have hsub := (List.takeWhile_prefix (· != 0) (l := s)).subset
  ⟨fun hq => h.1 (hsub hq), fun hc => h.2.1 (hsub hc), fun hn => h.2.2 (hsub hn)⟩

theorem valueCell_valid (flags : RenderFlags) {value : Value}
    (h : value.type = .null ∨ value.type = .bool ∨ value.type = .int ∨ value.type = .float →
      PlainText value.text) : (valueCell flags value).Valid := by
  unfold valueCell
  split_ifs with _ _ hsc
  · trivial
  · exact ⟨List.not_mem_nil _, List.not_mem_nil _, List.not_mem_nil _⟩
  · exact (h hsc).ofBytes
  · trivial

/-- **What `neo4j_render_csv` writes when it returns 0 reads back as the field names and the
bytes of every value**: a string's bytes whatever they are, nothing for a null it does not
show, and any other value's text up to its first NUL, given that the texts written unquoted
hold no quote, comma or newline. -/
theorem renderCsv_roundtrip (env : Env) (fuel : Nat) (results : ResultStream) (flags : RenderFlags)
    (hn : 0 < results.nfields)
    (hplain : ∀ row ∈ results.rows, ∀ v ∈ row,
      v.type = .null ∨ v.type = .bool ∨ v.type = .int ∨ v.type = .float → PlainText v.text)
    {w w' : World} (h : renderCsv env fuel results flags w = .ok () w') :
    ∃ d, w'.out = w.out ++ d ∧
      readCsv d = some (results.fieldnames.map (·.1) ::
        results.rows.map (·.map (csvValue flags))) := by
  have hout := renderCsv_writes env fuel results flags hn w.out w rfl
  rw [h] at hout
  refine ⟨_, hout, ?_⟩
  rw [readCsv_csvLines]
  · simp only [csvRecords, List.map_cons, List.map_map, Function.comp_def, valueCell_content]
    rfl
  · simp only [csvRecords, List.mem_cons, List.mem_map]
    rintro cells (rfl | ⟨row, hrow, rfl⟩)
    · simpa [List.length_pos, ResultStream.nfields] using hn
    · simpa [← List.length_pos, results.rows_length row hrow] using hn
  · simp only [csvRecords, List.mem_cons, List.mem_map]
    rintro cells (rfl | ⟨row, hrow, rfl⟩) c hc
    · obtain ⟨name, -, rfl⟩ := List.mem_map.mp hc
      trivial
    · obtain ⟨v, hv, rfl⟩ := List.mem_map.mp hc
      exact valueCell_valid flags (hplain row hrow v hv)

/-- Two field names and a row of a string with a quote in it and an integer. -/
def quoteSample : ResultStream :=
  ⟨[⟨bytesOf "a", by decide⟩, ⟨bytesOf "b", by decide⟩],
    [[⟨.string, bytesOf "x\"y", []⟩, ⟨.int, [], bytesOf "1"⟩]], 0, 0, by decide⟩

theorem renderCsv_roundtrip_quote :
    ∃ w', renderCsv Env.utf8Terminal 1 quoteSample asciiFlags World.init = .ok () w' ∧
      ∃ d, w'.out = World.init.out ++ d ∧
        readCsv d = some [[bytesOf "a", bytesOf "b"], [bytesOf "x\"y", bytesOf "1"]] :=
  ⟨_, rfl, renderCsv_roundtrip Env.utf8Terminal 1 quoteSample asciiFlags (by decide) (by decide)
    rfl⟩

/-! ### A text that does not fit -/

/-- A reliable world whose staging buffer has capacity `cap`. -/
def Steady (cap : Nat) (w : World) : Prop := w.Reliable ∧ w.bufcap = cap

theorem Calm.steady (cap : Nat) : Calm (Steady cap) := ⟨fun _ h => h.1, fun _ _ _ h => h⟩

/-- The cells of a CSV line keep a calm world if each cell does. -/
theorem csvCells_calm {I : World → Prop} (hI : Calm I) {E : Err → World → Prop} (nfields : Nat)
    {cell : Nat → RenderM Unit} (hcell : ∀ i, Triple I (cell i) (fun _ => I) E) :
    ∀ k i, Triple I (csvCells nfields cell k i) (fun _ => I) E
  | 0, _ => Triple.pure fun _ => id
  | k + 1, i => (hcell i).bind fun _ => (Triple.ite (fun _ => orFail_fwrite_calm hI _)
      fun _ => Triple.pure fun _ => id).bind fun _ => csvCells_calm hI nfields hcell k (i + 1)

/-! ### The quoted writer as a whole -/

/-- **`write_csv_quoted_string` on a string of `n` bytes writes it quoted, and returns.**  Whatever
follows the string in memory, a run that returns wrote `"`, the string with every quote doubled,
and `"`; in a world where every write succeeds it returns, having written just that; the loop's
fuel is never what stops it; and every turn of the `memchr` loop keeps `end - s = n`. -/
theorem writeCsvQuotedString_exact (s rest : List UInt8) :
    Writes (writeCsvQuotedString (s ++ rest) s.length) (0x22 :: escapeQuotes s ++ [0x22]) ∧
    (∀ w : World, w.Reliable → ∃ w', writeCsvQuotedString (s ++ rest) s.length w = .ok () w' ∧
      w'.out = w.out ++ (0x22 :: escapeQuotes s ++ [0x22])) ∧
    (∀ f, s.length ≤ f → writeCsvQuotedLoop (s ++ rest) s.length f 0 s.length =
      writeCsvQuotedLoop (s ++ rest) s.length s.length 0 s.length) ∧
    (∀ pos n l, n = s.length - pos → memchr ((s ++ rest).drop pos) 0x22 n = some l →
      n - (l + 1) = s.length - (pos + l + 1)) := by
  have hw : Writes (writeCsvQuotedString (s ++ rest) s.length) (0x22 :: escapeQuotes s ++ [0x22]) :=
    (writeCsvQuotedString_writes _ _).of_eq (by simp [CsvCell.encode])
  refine ⟨hw, fun w hr => ?_, fun f hf => writeCsvQuotedLoop_fuel_congr _ _ _ _ _ _ rfl hf le_rfl,
    fun pos n l hn hm => by have := memchr_lt hm; omega⟩
  obtain ⟨⟨⟩, w', hrun, -⟩ :=
    (writeCsvQuotedString_calm (E := fun _ _ => False) (.steady w.bufcap) _ _).ok_of ⟨hr, rfl⟩
  have hout := hw w.out w rfl
  rw [hrun] at hout
  exact ⟨w', hrun, hout⟩

example : ∃ w', writeCsvQuotedString (bytesOf "\"a\"") 3 World.init = .ok () w' ∧
    w'.out = bytesOf "\"\"\"a\"\"\"" := ⟨_, rfl, rfl⟩

/-- **Once a text does not fit, `write_value`'s retry loop never returns**: it grows the buffer
to the text's length, which does not fit it either. -/
theorem writeValueLoop_diverges (value : Value) (fuel : Nat) :
    Triple (fun w => w.Reliable ∧ w.bufcap ≤ value.text.length) (writeValueLoop value fuel)
      (fun _ _ => False) (fun e _ => e = .outOfFuel) := by
  induction fuel with
  | zero => exact Triple.throw fun _ _ => rfl
  | succ fuel ih =>
    refine ((ntostring_spec (Q := fun L w => L = value.text.length ∧ w.Reliable ∧
      w.bufcap ≤ value.text.length) value).pre fun _ h => ⟨rfl, h⟩).bind fun L =>
        Triple.prop fun hL => ?_
    refine ((getBufcap_spec (Q := fun c w => c = w.bufcap ∧ w.Reliable ∧
      w.bufcap ≤ value.text.length)).pre fun _ h => ⟨rfl, h⟩).bind fun c => ?_
    refine Triple.ite (fun hlt => Triple.pure fun w ⟨hc, _, hle⟩ => by omega) fun _ =>
      ((orFail_attempt_calm .reliable (.inr rfl)).pre fun _ h => h.2.1).bind fun _ =>
        ((setBufcap_spec (Q := fun _ w => w.Reliable ∧ w.bufcap ≤ value.text.length) L).pre
          fun _ hw => ⟨hw, by simp [hL]⟩).bind fun _ => ih

/-- A value `write_value` stringifies whose text does not fit the buffer never gets written. -/
theorem writeValue_diverges (fuel : Nat) (flags : RenderFlags) {value : Value}
    (hs : value.type ≠ .string) (hn : ¬(!flags.showNulls ∧ value.type = .null)) :
    Triple (fun w => w.Reliable ∧ 2 ≤ w.bufcap ∧ w.bufcap ≤ value.text.length)
      (writeValue fuel flags value) (fun _ _ => False) (fun e _ => e = .outOfFuel) := by
  unfold writeValue
  rw [if_neg hs, if_neg hn]
  refine ((getBufcap_spec (Q := fun c w => c = w.bufcap ∧ w.Reliable ∧ 2 ≤ w.bufcap ∧
    w.bufcap ≤ value.text.length)).pre fun _ h => ⟨rfl, h⟩).bind fun c => ?_
  refine ((cAssert_spec (Q := fun _ w => w.Reliable ∧ w.bufcap ≤ value.text.length) _).pre
    fun w ⟨hc, hw, h2, hle⟩ => by rw [if_pos (by omega)]; exact ⟨hw, hle⟩).bind fun _ => ?_
  exact (writeValueLoop_diverges value fuel).bind fun _ _ h => h.elim

/-- **A first value whose text does not fit the first staging buffer stops the export for
good**, for every fuel: the header is written, and the first cell's retry loop never ends. -/
theorem renderCsv_diverges (env : Env) (fuel : Nat) (results : ResultStream) (flags : RenderFlags)
    {v : Value} {vs : List Value} {rows : List (List Value)}
    (hrows : results.rows = (v :: vs) :: rows) (hfailure : results.failure = 0)
    (hs : v.type ≠ .string) (hn : ¬(!flags.showNulls ∧ v.type = .null))
    (hcap : 2 ≤ env.fieldBufferInitialCapacity)
    (hlong : env.fieldBufferInitialCapacity ≤ v.text.length) {w : World} (hw : w.Reliable) :
    ∃ w', renderCsv env fuel results flags w = .error .outOfFuel w' := by
  have hlen : (v :: vs).length = results.nfields :=
    results.rows_length _ (by rw [hrows]; exact List.mem_cons_self _ _)
  refine Triple.error_of ?_ hw
  unfold renderCsv
  rw [hfailure, hrows, ← hlen]
  refine ((newBuffer_spec (Q := fun _ => Steady env.fieldBufferInitialCapacity) _).pre
    fun _ h => ⟨h, rfl⟩).bind fun _ => (orFail_attempt_calm (.steady _) (.inr rfl)).bind fun _ => ?_
  refine Triple.onFailure (F := fun e _ => e = .outOfFuel) ?_ (fun _ h => nomatch h)
    fun _ _ _ => id
  refine ((checkResults_spec (Q := fun _ => Steady env.fieldBufferInitialCapacity) 0).pre
    fun w h => by simpa using h).bind fun _ => ?_
  refine Triple.ite (fun h => absurd h (List.cons_ne_nil _ _ ∘ List.length_eq_zero.mp))
    fun _ => ?_
  refine (csvCells_calm (.steady _) _ (fun _ => writeCsvQuotedString_calm (.steady _) _ _) _ _).bind
    fun _ =>
    (orFail_fwrite_calm (.steady _) _).bind fun _ => ?_
  refine Triple.bind (Q := fun _ _ => False) ?_ fun _ _ h => h.elim
  refine Triple.bind (Q := fun _ _ => False) ?_ fun _ _ h => h.elim
  refine Triple.bind (Q := fun _ _ => False) ?_ fun _ _ h => h.elim
  exact (writeValue_diverges fuel flags hs hn).pre fun w ⟨hw, hc⟩ =>
    ⟨hw, hc ▸ hcap, hc ▸ hlong⟩

/-- One field, and a first row holding a value, say a long list, whose text fills the 1024-byte
first buffer. -/
def longValueSample : ResultStream :=
  ⟨[⟨bytesOf "n", by decide⟩], [[⟨.other, [], List.replicate 1024 0x61⟩]], 0, 0,
    by decide⟩

theorem renderCsv_diverges_long_value :
    ∃ w', renderCsv Env.utf8Terminal 100 longValueSample asciiFlags World.init =
      .error .outOfFuel w' :=
  renderCsv_diverges Env.utf8Terminal 100 longValueSample asciiFlags rfl rfl (by decide)
    (by decide) (by decide) (le_of_eq (List.length_replicate _ _).symm) fun _ => rfl

end Neo4jRender
