/-
The table as the terminal shows it.

Everything below `render_field` draws into a grid: a rule is a corner and a line glyph
across every column, a row a border, a space, the cell and a space or the overflow glyph in
every column, and both end in the closing border and, when fields were dropped, one more
glyph.  `tableLayout` says that picture without the code's loops: a line is its list of
terminal columns, each a glyph of the border set or one byte of text, and a cell is as much
of its text as fits, padded with spaces.

On a reliable stream, with values that are not wrapped and printable text,
`neo4j_render_table` writes exactly that layout, line after line (`renderTable_draws_layout`),
and so every line it writes, rules and rows alike, has the same number of columns,
`k * (cw + 1) + 1`, with one more for the undersize marker (`renderTable_rectangular`).

The proof follows the calls.  `Drawn c o` is a reliable world whose stream holds `o` and
whose staging buffer keeps `c` bytes; one lemma a function says which bytes it appends, from
the lemmas of the functions it calls.  `render_field` on printable text is
`renderField_through` on cells one column wide; a value staged by `render_field_value` is
read back under its contract (`renderFieldValue_contract`).

Not covered: wrapped values (their continuation lines are `Wrap`'s subject), and text the
width table counts otherwise than one column a byte, which `Field` treats cell by cell.
-/
import Neo4jRender.Proofs.Staging
import Neo4jRender.Proofs.Wrap

namespace Neo4jRender

/-! ### The layout -/

/-- Text every byte of which is a printable ASCII character. -/
def Printable (text : List UInt8) : Prop := ∀ b ∈ text, 0x20 ≤ b ∧ b < 0x7F

instance (text : List UInt8) : Decidable (Printable text) :=
  inferInstanceAs (Decidable (∀ b ∈ text, _))

/-- The bytes of a line, one entry of `line` a terminal column, and its newline. -/
def lineBytes (line : List (List UInt8)) : List UInt8 := line.flatten ++ [0x0A]

/-- A cell `width` columns wide holding `text`: as much of it as fits, then spaces. -/
def cellColumns (width : Nat) (text : List UInt8) : List (List UInt8) :=
  (text.take width).map (fun b => [b]) ++ List.replicate (width - text.length) [0x20]

/-- The columns of a row from field `i` on: each field's border, a space, its cell, and a
space, or the overflow glyph where the text did not fit. -/
def rowColumns (glifs : BorderGlifs) (text : Nat → List UInt8) :
    Nat → List Nat → List (List UInt8)
  | _, [] => []
  | i, width :: widths =>
    glifs.verticalLine.1 :: [0x20] :: cellColumns (width - 2) (text i) ++
      (if (text i).length ≤ width - 2 then [0x20] else glifs.overflow.1) ::
        rowColumns glifs text (i + 1) widths

/-- A row: its columns, the closing border, and the overflow glyph when fields were
dropped. -/
def rowLine (glifs : BorderGlifs) (undersize : Bool) (widths : List Nat)
    (text : Nat → List UInt8) : List (List UInt8) :=
  rowColumns glifs text 0 widths ++
    glifs.verticalLine.1 :: (if undersize then [glifs.overflow.1] else [])

/-- The columns of a rule: the left corner, or a middle one after the first column, then the
line glyph across the column. -/
def ruleColumns (corners : Corners) (line : CString) : Bool → List Nat → List (List UInt8)
  | _, [] => []
  | first, width :: widths =>
    (if first then corners.left.1 else corners.middle.1) :: List.replicate width line.1 ++
      ruleColumns corners line false widths

/-- A rule: its columns and the right corner, or, when fields were dropped, a middle corner
and one more line glyph. -/
def ruleLine (glifs : BorderGlifs) (position : HlinePosition) (undersize : Bool)
    (widths : List Nat) : List (List UInt8) :=
  match hruleGlifs glifs position with
  | (corners, line) => ruleColumns corners line true widths ++
    if undersize then [corners.middle.1, line.1] else [corners.right.1]

/-- A row after the first: a middle rule when `rowLines`, then the row. -/
def laterRow (glifs : BorderGlifs) (undersize rowLines : Bool) (widths : List Nat)
    (text : Nat → List UInt8) : List (List (List UInt8)) :=
  (if rowLines then [ruleLine glifs .middle undersize widths] else []) ++
    [rowLine glifs undersize widths text]

/-- The body: the first row, then the others. -/
def bodyLines (glifs : BorderGlifs) (undersize rowLines : Bool) (widths : List Nat) :
    List (Nat → List UInt8) → List (List (List UInt8))
  | [] => []
  | text :: texts => rowLine glifs undersize widths text ::
    texts.flatMap (laterRow glifs undersize rowLines widths)

/-- A table: the top rule, the names, the head rule, the body and the bottom rule. -/
def tableLines (glifs : BorderGlifs) (undersize rowLines : Bool) (widths : List Nat)
    (names : Nat → List UInt8) (rows : List (Nat → List UInt8)) : List (List (List UInt8)) :=
  ruleLine glifs .top undersize widths :: rowLine glifs undersize widths names ::
    ruleLine glifs .head undersize widths :: bodyLines glifs undersize rowLines widths rows ++
      [ruleLine glifs .bottom undersize widths]

/-- The text a value shows in its cell: a string's own bytes when strings are not quoted,
and otherwise the text `value_tostring` gives it. -/
def cellText (flags : RenderFlags) (value : Value) : List UInt8 :=
  if value.type = .string ∧ !flags.quoteStrings then value.ustring else shownText flags value

/-- The texts of a row, field by field. -/
def rowText (flags : RenderFlags) (row : List Value) (i : Nat) : List UInt8 :=
  cellText flags (row.getD i default)

/-- The table `neo4j_render_table` is to draw for `results` in `width` columns: nothing for
a stream with no fields, and otherwise the columns the width budget keeps, in the glyphs
of the encoding. -/
def tableLayout (env : Env) (results : ResultStream) (width : Nat) (flags : RenderFlags) :
    List (List (List UInt8)) :=
  if results.nfields = 0 then [] else
  let flags := normalizeRenderFlags env.codeset flags
  match fitColumns width results.nfields (columnWidthFor width results.nfields) false with
  | (k, cw, undersize) => tableLines (glifsForEncoding flags) undersize flags.rowLines
      (List.replicate k cw) results.fieldname (results.rows.map (rowText flags))

/-! ### Every line is as wide as the others -/

/-- The columns `widths` take with their left borders. -/
def bordered : List Nat → Nat
  | [] => 0
  | width :: widths => width + 1 + bordered widths

/-- The glyphs of a border set. -/
def BorderGlifs.glyphs (glifs : BorderGlifs) : List (List UInt8) :=
  [glifs.horizontalLine.1, glifs.headLine.1, glifs.verticalLine.1,
    glifs.topCorners.left.1, glifs.topCorners.middle.1, glifs.topCorners.right.1,
    glifs.headCorners.left.1, glifs.headCorners.middle.1, glifs.headCorners.right.1,
    glifs.middleCorners.left.1, glifs.middleCorners.middle.1, glifs.middleCorners.right.1,
    glifs.bottomCorners.left.1, glifs.bottomCorners.middle.1, glifs.bottomCorners.right.1,
    glifs.overflow.1]

/-- What one terminal column holds: a glyph of the border set, or one printable byte. -/
def OneColumn (glifs : BorderGlifs) (col : List UInt8) : Prop :=
  col ∈ glifs.glyphs ∨ ∃ b, col = [b] ∧ 0x20 ≤ b ∧ b < 0x7F

section Width

variable {glifs : BorderGlifs}

theorem bordered_replicate (k cw : Nat) : bordered (List.replicate k cw) = k * (cw + 1) := by
  induction k with
  | zero => rw [Nat.zero_mul]; rfl
  | succ k ih => rw [List.replicate_succ, bordered, ih, Nat.succ_mul]; omega

theorem Printable.take {text : List UInt8} (h : Printable text) (k : Nat) :
    Printable (text.take k) := fun b hb => h b (List.mem_of_mem_take hb)

@[simp] theorem cellColumns_length (width : Nat) (text : List UInt8) :
    (cellColumns width text).length = width := by
  simp only [cellColumns, List.length_append, List.length_map, List.length_take,
    List.length_replicate]
  omega

theorem oneColumn_space : OneColumn glifs [0x20] := .inr ⟨_, rfl, by decide, by decide⟩

theorem oneColumn_glyph {col : List UInt8} (h : col ∈ glifs.glyphs) : OneColumn glifs col :=
  .inl h

theorem cellColumns_oneColumn {text : List UInt8} (ht : Printable text) (width : Nat) :
    ∀ col ∈ cellColumns width text, OneColumn glifs col := by
  intro col hcol
  rcases List.mem_append.mp hcol with h | h
  · obtain ⟨b, hb, rfl⟩ := List.mem_map.mp h
    exact .inr ⟨b, rfl, (ht.take width b hb)⟩
  · rw [List.eq_of_mem_replicate h]; exact oneColumn_space

/-- A row is as wide as its columns with their borders, each column at least two wide. -/
theorem rowColumns_length (text : Nat → List UInt8) :
    ∀ i widths, (∀ x ∈ widths, 2 ≤ x) → (rowColumns glifs text i widths).length = bordered widths
  | _, [], _ => rfl
  | i, width :: widths, hw => by
    have h2 := hw width (List.mem_cons_self _ _)
    have ih := rowColumns_length text (i + 1) widths fun x hx => hw x (List.mem_cons_of_mem _ hx)
    simp only [rowColumns, bordered, List.length_cons, List.length_append, cellColumns_length, ih]
    omega

theorem rowColumns_oneColumn {text : Nat → List UInt8} (ht : ∀ j, Printable (text j)) :
    ∀ i widths, ∀ col ∈ rowColumns glifs text i widths, OneColumn glifs col
  | _, [] => fun _ h => absurd h (List.not_mem_nil _)
  | i, width :: widths => by
    intro col hcol
    simp only [rowColumns, List.cons_append, List.mem_cons, List.mem_append] at hcol
    rcases hcol with rfl | rfl | h | rfl | h
    · exact oneColumn_glyph (by simp [BorderGlifs.glyphs])
    · exact oneColumn_space
    · exact cellColumns_oneColumn (ht i) _ col h
    · split
      · exact oneColumn_space
      · exact oneColumn_glyph (by simp [BorderGlifs.glyphs])
    · exact rowColumns_oneColumn ht (i + 1) widths col h

theorem ruleColumns_length (corners : Corners) (line : CString) :
    ∀ first widths, (ruleColumns corners line first widths).length = bordered widths
  | _, [] => rfl
  | first, width :: widths => by
    simp only [ruleColumns, bordered, List.length_cons, List.length_append,
      List.length_replicate, ruleColumns_length corners line false widths]

theorem ruleColumns_oneColumn {corners : Corners} {line : CString}
    (hc : corners.left.1 ∈ glifs.glyphs ∧ corners.middle.1 ∈ glifs.glyphs)
    (hl : line.1 ∈ glifs.glyphs) :
    ∀ first widths, ∀ col ∈ ruleColumns corners line first widths, OneColumn glifs col
  | _, [] => fun _ h => absurd h (List.not_mem_nil _)
  | first, width :: widths => by
    intro col hcol
    simp only [ruleColumns, List.cons_append, List.mem_cons, List.mem_append] at hcol
    rcases hcol with rfl | h | h
    · split
      · exact oneColumn_glyph hc.1
      · exact oneColumn_glyph hc.2
    · rw [List.eq_of_mem_replicate h]; exact oneColumn_glyph hl
    · exact ruleColumns_oneColumn hc hl false widths col h

/-- The corners and the line glyph of every rule are glyphs of the set. -/
theorem hruleGlifs_glyphs (glifs : BorderGlifs) (position : HlinePosition) :
    ((hruleGlifs glifs position).1.left.1 ∈ glifs.glyphs ∧
      (hruleGlifs glifs position).1.middle.1 ∈ glifs.glyphs ∧
      (hruleGlifs glifs position).1.right.1 ∈ glifs.glyphs) ∧
    (hruleGlifs glifs position).2.1 ∈ glifs.glyphs := by
  cases position <;> simp [hruleGlifs, BorderGlifs.glyphs]

/-- The width of every line of a table whose columns are `widths`. -/
def lineWidth (widths : List Nat) (undersize : Bool) : Nat :=
  bordered widths + 1 + if undersize then 1 else 0

/-- A line of the table: as wide as the others, a terminal column an entry. -/
def TableLine (glifs : BorderGlifs) (width : Nat) (line : List (List UInt8)) : Prop :=
  line.length = width ∧ ∀ col ∈ line, OneColumn glifs col

theorem rowLine_tableLine {widths : List Nat} (hw : ∀ x ∈ widths, 2 ≤ x) (undersize : Bool)
    {text : Nat → List UInt8} (ht : ∀ j, Printable (text j)) :
    TableLine glifs (lineWidth widths undersize) (rowLine glifs undersize widths text) := by
  refine ⟨?_, fun col hcol => ?_⟩
  · cases undersize <;> simp [rowLine, lineWidth, rowColumns_length text 0 widths hw]
  · simp only [rowLine, List.mem_append, List.mem_cons] at hcol
    rcases hcol with h | rfl | h
    · exact rowColumns_oneColumn ht 0 widths col h
    · exact oneColumn_glyph (by simp [BorderGlifs.glyphs])
    · split at h
      · rw [List.mem_singleton.mp h]; exact oneColumn_glyph (by simp [BorderGlifs.glyphs])
      · exact absurd h (List.not_mem_nil _)

theorem ruleLine_tableLine (widths : List Nat) (position : HlinePosition) (undersize : Bool) :
    TableLine glifs (lineWidth widths undersize) (ruleLine glifs position undersize widths) := by
  have hglyphs := hruleGlifs_glyphs glifs position
  rcases hg : hruleGlifs glifs position with ⟨corners, line⟩
  rw [hg] at hglyphs
  obtain ⟨⟨hl, hm, hr⟩, hline⟩ := hglyphs
  simp only [ruleLine, hg]
  refine ⟨?_, fun col hcol => ?_⟩
  · cases undersize <;> simp [lineWidth, ruleColumns_length]
  · rcases List.mem_append.mp hcol with h | h
    · exact ruleColumns_oneColumn ⟨hl, hm⟩ hline true widths col h
    · split at h <;> simp only [List.mem_cons, List.mem_singleton, List.not_mem_nil,
        or_false] at h <;> rcases h with rfl | rfl <;> first
        | exact oneColumn_glyph hm | exact oneColumn_glyph hline | exact oneColumn_glyph hr

/-- **Every line of a table is as wide as every other**, rules and rows alike, when the
columns are at least two wide and the texts printable. -/
theorem tableLines_tableLine {widths : List Nat} (hw : ∀ x ∈ widths, 2 ≤ x)
    (undersize rowLines : Bool) {names : Nat → List UInt8} (hn : ∀ j, Printable (names j))
    {rows : List (Nat → List UInt8)} (hr : ∀ text ∈ rows, ∀ j, Printable (text j)) :
    ∀ line ∈ tableLines glifs undersize rowLines widths names rows,
      TableLine glifs (lineWidth widths undersize) line := by
  intro line hline
  simp only [tableLines, List.cons_append, List.mem_cons, List.mem_append,
    List.mem_singleton, List.not_mem_nil, or_false] at hline
  rcases hline with rfl | rfl | rfl | h | rfl
  · exact ruleLine_tableLine widths _ undersize
  · exact rowLine_tableLine hw undersize hn
  · exact ruleLine_tableLine widths _ undersize
  · cases rows with
    | nil => exact absurd h (List.not_mem_nil _)
    | cons text texts =>
      simp only [bodyLines, laterRow, List.mem_cons, List.mem_flatMap, List.mem_append,
        List.not_mem_nil, or_false] at h
      rcases h with rfl | ⟨text', ht', h | rfl⟩
      · exact rowLine_tableLine hw undersize (hr text (List.mem_cons_self _ _))
      · split at h
        · rw [List.mem_singleton.mp h]; exact ruleLine_tableLine widths _ undersize
        · exact absurd h (List.not_mem_nil _)
      · exact rowLine_tableLine hw undersize (hr text' (List.mem_cons_of_mem _ ht'))
  · exact ruleLine_tableLine widths _ undersize

end Width

/-! ### What each function writes -/

/-- A reliable world whose stream holds `o` and whose staging buffer has at least `c`
bytes. -/
def Drawn (c : Nat) (o : List UInt8) (w : World) : Prop := Wrote o w ∧ c ≤ w.bufcap

/-- The width table counts every printable ASCII character one column. -/
def Env.NarrowAscii (env : Env) : Prop :=
  ∀ b : UInt8, 0x20 ≤ b → b < 0x7F → env.u8cpwidth b.toNat = some 1

theorem Env.utf8Terminal_narrowAscii : Env.utf8Terminal.NarrowAscii := by
  intro b h1 h2
  have h1' : 0x20 ≤ b.toNat := h1
  have h2' : b.toNat < 0x7F := h2
  simp only [Env.utf8Terminal, Neo4jRender.u8cpwidth]
  split_ifs <;> first | rfl | omega

theorem printable_nil : Printable [] := fun _ h => absurd h (List.not_mem_nil _)

/-- Printable text is its own cells, one column a byte. -/
theorem Printable.cells {env : Env} (henv : env.NarrowAscii) (flags : RenderFlags) :
    ∀ {text : List UInt8}, Printable text → Cells env flags text (text.map fun b => ([b], 1))
  | [], _ => .nil
  | b :: t, h => by
    have hb := h b (List.mem_cons_self _ _)
    have h80 : b < 0x80 := by
      have : b.toNat < 0x7F := hb.2
      exact show b.toNat < 0x80 by omega
    have hcell : cpCell env flags [b] b.toNat = ([b], 1) := by
      simp [cpCell, henv b hb.1 hb.2]
    have hrest := Printable.cells henv flags fun x hx => h x (List.mem_cons_of_mem _ hx)
    have : Cells env flags ([b] ++ t) (cpCell env flags [b] b.toNat :: t.map fun b => ([b], 1)) :=
      .cons (u8codepoint_ascii h80 []) hrest
    rwa [hcell] at this

@[simp] theorem cellsWidth_ones (text : List UInt8) :
    cellsWidth (text.map fun b => ([b], 1)) = text.length := by
  induction text with
  | nil => rfl
  | cons b t ih => simp only [List.map_cons, cellsWidth_cons, ih, List.length_cons]; omega

@[simp] theorem cellsText_ones (text : List UInt8) :
    cellsText (text.map fun b => ([b], 1)) = text := by
  simp [cellsText, List.flatMap_map]

theorem fits_ones {width : Nat} : ∀ {used : Nat} {text : List UInt8},
    used + text.length ≤ width → Fits width used (text.map fun b => ([b], 1))
  | _, [], _ => trivial
  | used, _ :: t, h => by
    simp only [List.length_cons] at h
    show used < width ∧ used + 1 ≤ width ∧ Fits width (used + 1) _
    exact ⟨by omega, by omega, fits_ones (by omega)⟩

theorem flatten_map_singleton (text : List UInt8) : (text.map fun b => [b]).flatten = text := by
  induction text with
  | nil => rfl
  | cons b t ih => rw [List.map_cons, List.flatten_cons, ih]; rfl

theorem cellColumns_flatten (width : Nat) (text : List UInt8) :
    (cellColumns width text).flatten =
      text.take width ++ List.replicate (width - text.length) 0x20 := by
  rw [cellColumns, List.flatten_append, flatten_map_singleton, List.flatten_replicate_singleton]

section Draw

variable {c : Nat} {E : Err → World → Prop}

/-- A function that keeps the buffer's bound, from a world that has it. -/
theorem Safe.drawn {α : Type} {m : RenderM α} {o : List UInt8} {Q : α → World → Prop}
    (hs : Safe c m) (h : Triple (Wrote o) m Q E) :
    Triple (Drawn c o) m (fun a w => Q a w ∧ c ≤ w.bufcap) E :=
  (h.and hs).conseq (fun _ => id) (fun _ _ => id) fun _ _ h => h.1

theorem orFail_fwrite_drawn (bytes o : List UInt8) :
    Triple (Drawn c o) (orFail (fwrite bytes)) (fun _ => Drawn c (o ++ bytes)) E :=
  (orFail_fwrite_safe bytes).drawn (orFail_fwrite_wrote bytes o)

theorem orFail_attempt_drawn {call : Bool → Call} (hcall : call = .flush ∨ call = .alloc)
    (o : List UInt8) : Triple (Drawn c o) (orFail (attempt call)) (fun _ => Drawn c o) E :=
  (orFail_attempt_safe call).drawn (((orFail_attempt_calm .reliable hcall).and
    (orFail_attempt_writes call o)).conseq (fun _ => id)
      (fun _ _ h => ⟨h.1, by rw [h.2, List.append_nil]⟩) fun _ _ h => h.1)

theorem checkResults_drawn {code : Nat} (h : code = 0) (o : List UInt8) :
    Triple (Drawn c o) (checkResults code) (fun _ => Drawn c o) E :=
  (checkResults_spec code).pre fun _ hw => by rw [if_pos h]; exact ⟨wrote_record_nil.mpr hw.1, hw.2⟩

theorem fputsTimes_drawn (s : CString) :
    ∀ k o, Triple (Drawn c o) (fputsTimes s k) (fun _ => Drawn c (o ++ (List.replicate k s.1).flatten)) E
  | 0, _ => Triple.pure fun _ hw => by rwa [List.replicate_zero, List.flatten_nil, List.append_nil]
  | k + 1, o => by
    rw [List.replicate_succ, List.flatten_cons, ← List.append_assoc]
    exact (orFail_fwrite_drawn _ o).bind fun _ => fputsTimes_drawn s k _

theorem hruleColumns_drawn (corners : Corners) (line : CString) :
    ∀ first widths o, (∀ x ∈ widths, x ≠ 0) →
      Triple (Drawn c o) (hruleColumns corners line first widths)
        (fun _ => Drawn c (o ++ (ruleColumns corners line first widths).flatten)) E
  | _, [], _, _ => Triple.pure fun _ hw => by rwa [ruleColumns, List.flatten_nil, List.append_nil]
  | first, width :: widths, o, hw => by
    have heq : o ++ (ruleColumns corners line first (width :: widths)).flatten =
        o ++ (if first then corners.left else corners.middle).1 ++
          (List.replicate width line.1).flatten ++ (ruleColumns corners line false widths).flatten := by
      cases first <;> simp [ruleColumns]
    rw [hruleColumns, if_neg (hw width (List.mem_cons_self _ _)), heq]
    exact (orFail_fwrite_drawn _ o).bind fun _ => (fputsTimes_drawn line width _).bind fun _ =>
      hruleColumns_drawn corners line false widths _ fun x hx => hw x (List.mem_cons_of_mem _ hx)

/-- `render_hrule` draws its rule. -/
theorem renderHrule_drawn {widths : List Nat} (hw : ∀ x ∈ widths, x ≠ 0) (position : HlinePosition)
    (undersize : Bool) (flags : RenderFlags) (o : List UInt8) :
    Triple (Drawn c o) (renderHrule widths position undersize flags)
      (fun _ => Drawn c (o ++ lineBytes (ruleLine (glifsForEncoding flags) position undersize widths)))
      E := by
  unfold renderHrule ruleLine
  generalize hruleGlifs (glifsForEncoding flags) position = p
  rcases p with ⟨corners, line⟩
  have heq : o ++ lineBytes (ruleColumns corners line true widths ++
      if undersize then [corners.middle.1, line.1] else [corners.right.1]) =
      o ++ (ruleColumns corners line true widths).flatten ++
        (if undersize then corners.middle else corners.right).1 ++
        (if undersize then line.1 else []) ++ [0x0A] := by
    cases undersize <;> simp [lineBytes]
  dsimp only
  rw [heq]
  refine (hruleColumns_drawn corners line true widths o hw).bind fun _ =>
    (orFail_fwrite_drawn _ _).bind fun _ => Triple.bind (Triple.ite (fun h => ?_) fun h => ?_)
      fun _ => orFail_fwrite_drawn _ _
  · rw [if_pos h, if_pos h]; exact orFail_fwrite_drawn _ _
  · rw [if_neg h, if_neg h]; exact Triple.pure fun _ hw => by rwa [List.append_nil]

theorem renderRowEnd_drawn (glifs : BorderGlifs) (undersize : Bool) (o : List UInt8) :
    Triple (Drawn c o) (renderRowEnd glifs undersize)
      (fun _ => Drawn c (o ++ glifs.verticalLine.1 ++ (if undersize then glifs.overflow.1 else []) ++
        [0x0A])) E := by
  unfold renderRowEnd
  refine (orFail_fwrite_drawn _ o).bind fun _ => Triple.bind (Q := fun _ => Drawn c
    (o ++ glifs.verticalLine.1 ++ if undersize then glifs.overflow.1 else []))
    (Triple.ite (fun h => ?_) fun h => ?_) fun _ => orFail_fwrite_drawn _ _
  · rw [if_pos h]; exact orFail_fwrite_drawn _ _
  · rw [if_neg h]; exact Triple.pure fun _ hw => by rwa [List.append_nil]

/-- `render_field` on printable text draws its cell. -/
theorem renderField_drawn {env : Env} (henv : env.NarrowAscii) (flags : RenderFlags)
    {text : List UInt8} (ht : Printable text) (rest : List UInt8) (width : Nat) (o : List UInt8) :
    Triple (Drawn c o) (renderField env (text ++ rest) text.length width flags)
      (fun r w => r = min text.length width ∧ Drawn c (o ++ (cellColumns width text).flatten) w)
      E := by
  have hmem : text ++ rest = text.take width ++ (text.drop width ++ rest) := by
    rw [← List.append_assoc, List.take_append_drop]
  have hlen : (text.take width).length = min width text.length := by simp
  have hfit : Fits width 0 ((text.take width).map fun b => ([b], 1)) :=
    fits_ones (by simp only [hlen]; omega)
  have hstop : ¬(cellsWidth ((text.take width).map fun b => ([b], 1)) < width ∧
      (text.take width).length < text.length) := by
    simp only [cellsWidth_ones, hlen]; omega
  have hpad : width - min width text.length = width - text.length := by omega
  have hn : (text.take width).length ≤ text.length := List.length_take_le' _ _
  rw [hmem]
  refine ((renderField_safe env _ _ _).drawn (renderField_through env
    ((ht.take width).cells henv flags) hn hfit hstop o)).conseq
    (fun _ => id) (fun r w h => show r = _ ∧ Drawn c _ w from ⟨?_, ?_, h.2⟩) fun _ _ => id
  · rw [h.1.1, hlen, Nat.min_comm]
  · rw [cellColumns_flatten, ← List.append_assoc]
    simpa only [cellsText_ones, cellsWidth_ones, hlen, hpad] using h.1.2

/-- What a row callback hands back: for every field `j`, a text whose `n` bytes are `text j`
in memory as it is when the callback returns. -/
def Hands (c : Nat) (E : Err → World → Prop) (callback : Nat → RenderM FieldText)
    (text : Nat → List UInt8) : Prop :=
  ∀ j o, Triple (Drawn c o) (callback j)
    (fun f w => (f.n = (text j).length ∧ ∃ rest, f.src.read w = text j ++ rest) ∧ Drawn c o w) E

theorem rowColumns_cons_append (glifs : BorderGlifs) (text : Nat → List UInt8) (i width : Nat)
    (widths : List Nat) (o : List UInt8) :
    o ++ (rowColumns glifs text i (width :: widths)).flatten =
      o ++ glifs.verticalLine.1 ++ [0x20] ++ (cellColumns (width - 2) (text i)).flatten ++
        (if (text i).length ≤ width - 2 then [0x20] else glifs.overflow.1) ++
          (rowColumns glifs text (i + 1) widths).flatten := by
  simp [rowColumns]

/-- The first column loop of `render_row`, on texts that are not wrapped, draws the row's
columns and leaves nothing to wrap. -/
theorem renderRowFirst_drawn {env : Env} (henv : env.NarrowAscii) {flags : RenderFlags}
    (hwrap : flags.wrapValues = false) (glifs : BorderGlifs) {callback : Nat → RenderM FieldText}
    {text : Nat → List UInt8} (ht : ∀ j, Printable (text j)) :
    ∀ i widths o, (∀ x ∈ widths, 2 ≤ x) → (widths ≠ [] → Hands c E callback text) →
      Triple (Drawn c o) (renderRowFirst env flags glifs (some callback) i widths)
        (fun r w => r.2 = false ∧ Drawn c (o ++ (rowColumns glifs text i widths).flatten) w) E
  | _, [], _, _, _ => Triple.pure fun _ hw => ⟨rfl, by rwa [rowColumns, List.flatten_nil, List.append_nil]⟩
  | i, width :: widths, o, hw, hcb => by
    have h2 := hw width (List.mem_cons_self _ _)
    have hrest := fun o => renderRowFirst_drawn henv hwrap glifs ht (i + 1) widths o
      (fun x hx => hw x (List.mem_cons_of_mem _ hx)) fun _ => hcb (List.cons_ne_nil _ _)
    rw [renderRowFirst, if_neg (by omega), rowColumns_cons_append]
    refine (orFail_fwrite_drawn _ o).bind fun _ => (orFail_fwrite_drawn _ _).bind fun _ => ?_
    rw [cAssert_of_true h2, pure_bind]
    refine (hcb (List.cons_ne_nil _ _) i _).bind fun f => ((readSrc_spec (Q := fun mem w =>
      (f.n = (text i).length ∧ ∃ rest, mem = text i ++ rest) ∧ Drawn c _ w) f.src).pre
        fun _ => id).bind fun mem => Triple.prop fun ⟨hn, rest, hmem⟩ => ?_
    subst hmem
    rw [hn]
    refine (renderField_drawn henv flags (ht i) rest (width - 2) _).bind fun consumed =>
      Triple.prop fun hc => ?_
    subst hc
    refine Triple.bind (Q := fun p w => p = none ∧ Drawn c (o ++ glifs.verticalLine.1 ++ [0x20] ++
      (cellColumns (width - 2) (text i)).flatten ++
        if (text i).length ≤ width - 2 then [0x20] else glifs.overflow.1) w)
      (Triple.ite (fun h => ?_) fun h => ?_) fun p => Triple.prop fun hp => ?_
    · rw [if_pos (show (text i).length ≤ width - 2 by omega)]
      exact (orFail_fwrite_drawn _ _).bind fun _ => Triple.pure fun _ hw => ⟨rfl, hw⟩
    · rw [if_neg (show ¬(text i).length ≤ width - 2 by omega)]
      refine (orFail_fwrite_drawn _ _).bind fun _ => ?_
      rw [hwrap]
      exact Triple.pure fun _ hw => ⟨rfl, hw⟩
    · subst hp
      exact (hrest _).bind fun _ => Triple.prop fun hwr => Triple.pure fun _ hw =>
        ⟨by simpa using hwr, hw⟩

/-- `render_row`, on texts that are not wrapped, draws one line: the row. -/
theorem renderRow_drawn {env : Env} (henv : env.NarrowAscii) {flags : RenderFlags}
    (hwrap : flags.wrapValues = false) (fuel : Nat) {widths : List Nat} (hw : ∀ x ∈ widths, 2 ≤ x)
    (undersize : Bool) {callback : Nat → RenderM FieldText} {text : Nat → List UInt8}
    (ht : ∀ j, Printable (text j)) (hcb : widths ≠ [] → Hands c E callback text) (o : List UInt8) :
    Triple (Drawn c o) (renderRow env fuel widths undersize flags (some callback))
      (fun _ => Drawn c (o ++ lineBytes (rowLine (glifsForEncoding flags) undersize widths text)))
      E := by
  have heq : o ++ lineBytes (rowLine (glifsForEncoding flags) undersize widths text) =
      o ++ (rowColumns (glifsForEncoding flags) text 0 widths).flatten ++
        (glifsForEncoding flags).verticalLine.1 ++
        (if undersize then (glifsForEncoding flags).overflow.1 else []) ++ [0x0A] := by
    cases undersize <;> simp [lineBytes, rowLine]
  unfold renderRow
  rw [hwrap, heq]
  refine Triple.bind (Triple.ite (fun h => absurd h (by decide))
    fun _ => Triple.pure (Q := fun _ => Drawn c o) fun _ => id) fun _ => ?_
  refine (renderRowFirst_drawn henv hwrap _ ht 0 widths o hw hcb).bind fun r =>
    Triple.prop fun hr => (renderRowEnd_drawn _ _ _).bind fun _ =>
      Triple.ite (fun h => absurd (hr.symm.trans h) (by decide)) fun _ => Triple.pure fun _ => id

end Draw

/-! ### The values -/

section Values

variable {c : Nat} {E : Err → World → Prop}

/-- The retry loop of `render_field_value` writes nothing, and in a reliable world does not
fail with `-1`: its `realloc` succeeds. -/
theorem renderFieldValueLoop_wrote (flags : RenderFlags) (value : Value) (o : List UInt8) :
    ∀ fuel, Triple (fun w => Wrote o w ∧ 0 < w.bufcap) (renderFieldValueLoop flags value fuel)
      (fun _ => Wrote o) fun e _ => e ≠ .failed
  | 0 => Triple.throw fun _ _ => by decide
  | fuel + 1 => by
    intro w ⟨hw, h0⟩
    obtain ⟨buf, hrun, -⟩ := valueTostring_run flags value h0
    rw [renderFieldValueLoop, run_bind_ok hrun, run_bind_ok (x := getBufcap) rfl]
    split_ifs
    · exact hw
    · rw [run_bind_ok (orFail_alloc_ok (w := w.withBuf buf) (hw.1 _)),
        run_bind_ok (x := setBufcap _) rfl]
      exact renderFieldValueLoop_wrote flags value o fuel _
        ⟨(wrote_record_nil (c := .alloc true)).mpr hw, Nat.succ_pos _⟩

theorem renderFieldValue_wrote (fuel : Nat) (flags : RenderFlags) (value : Value)
    (o : List UInt8) :
    Triple (fun w => Wrote o w ∧ 0 < w.bufcap) (renderFieldValue fuel flags value)
      (fun _ => Wrote o) fun e _ => e ≠ .failed := by
  intro w hw
  have hc : (cAssert (0 < w.bufcap)) w = .ok () w := by rw [cAssert_of_true hw.2]; rfl
  rw [renderFieldValue, run_bind_ok (x := getBufcap) rfl, run_bind_ok hc]
  exact renderFieldValueLoop_wrote flags value o fuel w hw

/-- `obtain_fieldname` hands back the names. -/
theorem obtainFieldname_hands (results : ResultStream) :
    Hands c E (obtainFieldname results) results.fieldname :=
  fun _ _ => Triple.pure fun _ hw => ⟨⟨rfl, [0], rfl⟩, hw⟩

/-- `obtain_result_field` hands back the values' texts: a string in place, any other value
in the staging buffer, under the contract of `render_field_value`. -/
theorem obtainResultField_hands {fuel : Nat} (hfuel : 2 ≤ fuel) (hc : 0 < c) (flags : RenderFlags)
    (row : List Value) : Hands c E (obtainResultField fuel flags row) (rowText flags row) := by
  intro j o
  unfold obtainResultField rowText cellText
  dsimp only
  split_ifs
  · exact Triple.pure fun _ hw => ⟨⟨rfl, [], (List.append_nil _).symm⟩, hw⟩
  · intro w hw
    have h0 : 0 < w.bufcap := Nat.lt_of_lt_of_le hc hw.2
    have hv : Triple (fun w' => w' = w ∧ (Wrote o w' ∧ 0 < w'.bufcap))
        (renderFieldValue fuel flags (row.getD j default))
        (fun L w' => Staged flags (row.getD j default) w L w' ∧ Wrote o w') E :=
      ((renderFieldValue_contract flags _ hfuel h0).and (renderFieldValue_wrote fuel flags _ o)).conseq
        (fun _ => id) (fun _ _ => id) fun _ _ h => absurd h.1.1 h.2
    refine (hv.bind fun L => Triple.pure fun w' h => ⟨⟨h.1.length, [0] ++ w'.buf.drop (L + 1), ?_⟩,
      h.2, Nat.le_trans hw.2 h.1.grows⟩) w ⟨rfl, hw.1, h0⟩
    show w'.buf.drop 0 = _
    rw [List.drop_zero, ← List.append_assoc, ← h.1.text, List.take_append_drop]

end Values

/-! ### The table -/

section Rows

variable {c : Nat} {E : Err → World → Prop} {env : Env} (henv : env.NarrowAscii) {fuel : Nat}
  (hfuel : 2 ≤ fuel) {flags : RenderFlags} (hwrap : flags.wrapValues = false) {widths : List Nat}
  (hw : ∀ x ∈ widths, 2 ≤ x) (hc : widths ≠ [] → 0 < c) (undersize : Bool)
include henv hfuel hwrap hw hc

/-- The body rows after the first: each after a middle rule when `rowLines`. -/
theorem renderTableRows_rest_drawn :
    ∀ rows o, (∀ row ∈ rows, ∀ j, Printable (rowText flags row j)) →
      Triple (Drawn c o) (renderTableRows env fuel widths undersize flags false rows)
        (fun _ => Drawn c (o ++ ((rows.map (rowText flags)).flatMap
          (laterRow (glifsForEncoding flags) undersize flags.rowLines widths)).flatMap lineBytes)) E
  | [], _, _ => Triple.pure fun _ hw => by simpa using hw
  | row :: rows, o, hr => by
    have heq : o ++ (((row :: rows).map (rowText flags)).flatMap
        (laterRow (glifsForEncoding flags) undersize flags.rowLines widths)).flatMap lineBytes =
        o ++ (if flags.rowLines then
            lineBytes (ruleLine (glifsForEncoding flags) .middle undersize widths) else []) ++
          lineBytes (rowLine (glifsForEncoding flags) undersize widths (rowText flags row)) ++
          ((rows.map (rowText flags)).flatMap
            (laterRow (glifsForEncoding flags) undersize flags.rowLines widths)).flatMap lineBytes := by
      cases flags.rowLines <;> simp [laterRow]
    rw [renderTableRows, heq]
    refine Triple.bind (Q := fun _ => Drawn c (o ++ if flags.rowLines then
        lineBytes (ruleLine (glifsForEncoding flags) .middle undersize widths) else []))
      (Triple.ite (fun h => ?_) fun h => ?_) fun _ =>
        (renderRow_drawn henv hwrap fuel hw undersize (hr row (List.mem_cons_self _ _))
          (fun hne => obtainResultField_hands hfuel (hc hne) flags row) _).bind fun _ =>
        renderTableRows_rest_drawn rows _ fun r hr' => hr r (List.mem_cons_of_mem _ hr')
    · rw [if_pos h.2]
      exact renderHrule_drawn (fun x hx => by have := hw x hx; omega) _ _ _ _
    · rw [if_neg fun h' => h ⟨rfl, h'⟩]
      exact Triple.pure fun _ hw => by rwa [List.append_nil]

/-- `neo4j_render_table`'s loop over the rows draws the body. -/
theorem renderTableRows_drawn (rows : List (List Value)) (o : List UInt8)
    (hr : ∀ row ∈ rows, ∀ j, Printable (rowText flags row j)) :
    Triple (Drawn c o) (renderTableRows env fuel widths undersize flags true rows)
      (fun _ => Drawn c (o ++ (bodyLines (glifsForEncoding flags) undersize flags.rowLines widths
        (rows.map (rowText flags))).flatMap lineBytes)) E := by
  cases rows with
  | nil => exact Triple.pure fun _ hw => by simpa [bodyLines] using hw
  | cons row rows =>
    rw [renderTableRows]
    simp only [List.map_cons, bodyLines, List.flatMap_cons, ← List.append_assoc]
    exact Triple.bind (Triple.ite (fun h => absurd h.1 (by decide))
      fun _ => Triple.pure (Q := fun _ => Drawn c o) fun _ => id) fun _ =>
        (renderRow_drawn henv hwrap fuel hw undersize (hr row (List.mem_cons_self _ _))
          (fun hne => obtainResultField_hands hfuel (hc hne) flags row) _).bind fun _ =>
        renderTableRows_rest_drawn henv hfuel hwrap hw hc undersize rows _
          fun r hr' => hr r (List.mem_cons_of_mem _ hr')

end Rows

theorem forall_getD {α : Type} {P : α → Prop} {d : α} (hd : P d) :
    ∀ {l : List α}, (∀ x ∈ l, P x) → ∀ n, P (l.getD n d)
  | [], _, _ => by rw [List.getD_nil]; exact hd
  | x :: _, h, 0 => by rw [List.getD_cons_zero]; exact h x (List.mem_cons_self _ _)
  | _ :: _, h, n + 1 => by
    rw [List.getD_cons_succ]; exact forall_getD hd (fun y hy => h y (List.mem_cons_of_mem _ hy)) n

@[simp] theorem normalizeRenderFlags_showNulls (codeset : String) (flags : RenderFlags) :
    (normalizeRenderFlags codeset flags).showNulls = flags.showNulls := by
  unfold normalizeRenderFlags; split_ifs <;> rfl

@[simp] theorem normalizeRenderFlags_quoteStrings (codeset : String) (flags : RenderFlags) :
    (normalizeRenderFlags codeset flags).quoteStrings = flags.quoteStrings := by
  unfold normalizeRenderFlags; split_ifs <;> rfl

/-- The names of a stream whose names are printable are, at every index. -/
theorem fieldname_printable {results : ResultStream}
    (h : ∀ name ∈ results.fieldnames, Printable name.1) (j : Nat) :
    Printable (results.fieldname j) :=
  forall_getD (P := fun name : CString => Printable name.1) printable_nil h j

/-- The encoding does not change what a value shows. -/
theorem rowText_normalize (codeset : String) (flags : RenderFlags) (row : List Value) (j : Nat) :
    rowText (normalizeRenderFlags codeset flags) row j = cellText flags (row.getD j default) := by
  simp only [rowText, cellText, shownText, normalizeRenderFlags_quoteStrings,
    normalizeRenderFlags_showNulls]

@[simp] theorem cellText_default (flags : RenderFlags) : cellText flags default = [] := by
  unfold cellText shownText; split_ifs <;> rfl

/-- The texts of a row whose values show printable text are, at every index, whatever the
encoding. -/
theorem rowText_printable {flags : RenderFlags} {row : List Value}
    (h : ∀ v ∈ row, Printable (cellText flags v)) (codeset : String) (j : Nat) :
    Printable (rowText (normalizeRenderFlags codeset flags) row j) := by
  rw [rowText_normalize]
  have hd : Printable (cellText flags default) := by rw [cellText_default]; exact printable_nil
  exact forall_getD (P := fun v => Printable (cellText flags v)) hd h j

theorem tableLines_append (glifs : BorderGlifs) (undersize rowLines : Bool) (widths : List Nat)
    (names : Nat → List UInt8) (rows : List (Nat → List UInt8)) (o : List UInt8) :
    o ++ (tableLines glifs undersize rowLines widths names rows).flatMap lineBytes =
      o ++ lineBytes (ruleLine glifs .top undersize widths) ++
        lineBytes (rowLine glifs undersize widths names) ++
        lineBytes (ruleLine glifs .head undersize widths) ++
        (bodyLines glifs undersize rowLines widths rows).flatMap lineBytes ++
        lineBytes (ruleLine glifs .bottom undersize widths) := by
  simp [tableLines]

theorem fitColumns_wide {width nfields k cw : Nat} {u : Bool}
    (hfit : fitColumns width nfields (columnWidthFor width nfields) false = (k, cw, u)) :
    k = 0 ∨ 2 ≤ cw := by
  simpa [hfit] using (fitColumns_fit width nfields false).wide

/-- The columns the width budget keeps are at least two wide. -/
theorem fitColumns_widths {width nfields k cw : Nat} {u : Bool}
    (hfit : fitColumns width nfields (columnWidthFor width nfields) false = (k, cw, u)) :
    ∀ x ∈ List.replicate k cw, 2 ≤ x := fun x hx => by
  obtain ⟨hk, rfl⟩ := List.mem_replicate.mp hx
  exact (fitColumns_wide hfit).resolve_left hk

/-- What the table renderer needs to draw a table: a width table that counts printable ASCII
one column, enough fuel for a value's one `realloc`, a stream that does not fail, a width in
range, and printable names and texts. -/
structure Drawable (env : Env) (fuel : Nat) (results : ResultStream) (width : Nat)
    (flags : RenderFlags) : Prop where
  narrow : env.NarrowAscii
  fuel : 2 ≤ fuel
  failure : results.failure = 0
  failureAtEnd : results.failureAtEnd = 0
  width : 1 < width ∧ width < env.maxWidth
  names : ∀ name ∈ results.fieldnames, Printable name.1
  values : ∀ row ∈ results.rows, ∀ v ∈ row, Printable (cellText flags v)

/-- `neo4j_render_table` draws its layout, line after line. -/
theorem renderTable_drawn {env : Env} {fuel : Nat} {results : ResultStream} {width : Nat}
    {flags : RenderFlags} (hd : Drawable env fuel results width flags)
    (hunwrapped : flags.wrapValues = false) (o : List UInt8) {E : Err → World → Prop} :
    Triple (Drawn 0 o) (renderTable env fuel results width flags)
      (fun _ => Drawn 0 (o ++ (tableLayout env results width flags).flatMap lineBytes)) E := by
  unfold renderTable tableLayout
  rw [require_of_true hd.width, pure_bind]
  refine (checkResults_drawn hd.failure o).bind fun _ => ?_
  by_cases hn : results.nfields = 0
  · rw [if_pos hn, if_pos hn]
    exact Triple.pure fun _ hw => by simpa using hw
  rw [if_neg hn, if_neg hn]
  dsimp only
  rcases hfit : fitColumns width results.nfields (columnWidthFor width results.nfields) false
    with ⟨k, cw, u⟩
  have hwide := fitColumns_wide hfit
  have hw := fitColumns_widths hfit
  have hw0 : ∀ x ∈ List.replicate k cw, x ≠ 0 := fun x hx => by have := hw x hx; omega
  have hcap : List.replicate k cw ≠ [] → 0 < cw := fun hne => by
    rcases hwide with rfl | h
    · exact absurd rfl hne
    · omega
  have hwrap : (normalizeRenderFlags env.codeset flags).wrapValues = false := by
    rw [normalizeRenderFlags_wrapValues]; exact hunwrapped
  rw [cAssert_of_true hwide.symm, pure_bind, tableLines_append]
  refine (Triple.ite (fun _ => orFail_attempt_drawn (.inr rfl) o)
    fun _ => Triple.pure (Q := fun _ => Drawn 0 o) fun _ => id).bind fun _ => ?_
  refine Triple.bind ?_ fun _ => orFail_attempt_drawn (.inl rfl) _
  refine Triple.onFailure (F := fun _ _ => False) ?_ (fun _ h => h.elim) fun _ _ _ h => h.elim
  refine ((newBuffer_spec (Q := fun _ => Drawn cw o) cw).pre fun _ hw => ⟨hw.1, le_rfl⟩).bind
    fun _ => Triple.conseq ?_ (fun _ => id) (fun _ w (h : Drawn cw _ w) => ⟨h.1, Nat.zero_le _⟩)
      fun _ _ => id
  exact (Triple.ite (fun _ => orFail_attempt_drawn (.inr rfl) o)
    fun _ => Triple.pure (Q := fun _ => Drawn cw o) fun _ => id).bind fun _ =>
    (renderHrule_drawn hw0 _ _ _ _).bind fun _ =>
    (renderRow_drawn hd.narrow hwrap fuel hw _ (fieldname_printable hd.names)
      (fun _ => obtainFieldname_hands results) _).bind fun _ =>
    (renderHrule_drawn hw0 _ _ _ _).bind fun _ =>
    (renderTableRows_drawn hd.narrow hd.fuel hwrap hw hcap _ _ _
      fun row hrow => rowText_printable (hd.values row hrow) env.codeset).bind fun _ =>
    (checkResults_drawn hd.failureAtEnd _).bind fun _ => renderHrule_drawn hw0 _ _ _ _

/-! ### The table over a whole run -/

/-- **On a reliable stream, `neo4j_render_table` writes exactly its layout**: the top rule,
the names, the head rule, every row of the stream, with middle rules between them when
`NEO4J_RENDER_ROWLINES` is set, and the bottom rule; each cell the value's text cut to the
cell and padded with spaces, and the overflow glyph after a text that did not fit.  A
stream with no fields gets no table. -/
theorem renderTable_draws_layout {env : Env} {fuel : Nat} {results : ResultStream} {width : Nat}
    {flags : RenderFlags} (hd : Drawable env fuel results width flags)
    (hunwrapped : flags.wrapValues = false) {w : World} (hw : w.Reliable) :
    ∃ w', renderTable env fuel results width flags w = .ok () w' ∧
      w'.out = w.out ++ (tableLayout env results width flags).flatMap lineBytes := by
  obtain ⟨⟨⟩, w', hrun, hw'⟩ := (renderTable_drawn (E := fun _ _ => False) hd hunwrapped
    w.out).ok_of ⟨⟨hw, rfl⟩, Nat.zero_le _⟩
  exact ⟨w', hrun, hw'.1.2⟩

/-- A stream with the fields `id` and `name` and one row: the number 1 and the string
`Ada`. -/
def adaResults : ResultStream :=
  ⟨[⟨bytesOf "id", by decide⟩, ⟨bytesOf "name", by decide⟩],
    [[⟨.int, [], bytesOf "1"⟩, ⟨.string, bytesOf "Ada", bytesOf "\"Ada\""⟩]], 0, 0, by decide⟩

/-- The stream in sixteen columns: two columns six wide, the string unquoted. -/
theorem renderTable_draws_layout_ada :
    Drawable Env.utf8Terminal 2 adaResults 16 asciiFlags ∧ asciiFlags.wrapValues = false ∧
      (tableLayout Env.utf8Terminal adaResults 16 asciiFlags).flatMap lineBytes =
        bytesOf "+------+------+\n| id   | name |\n+------+------+\n| 1    | Ada  |\n+------+------+\n" ∧
      ∃ w', renderTable Env.utf8Terminal 2 adaResults 16 asciiFlags World.init = .ok () w' ∧
        w'.out = World.init.out ++
          (tableLayout Env.utf8Terminal adaResults 16 asciiFlags).flatMap lineBytes :=
  have hd : Drawable Env.utf8Terminal 2 adaResults 16 asciiFlags :=
    ⟨Env.utf8Terminal_narrowAscii, by decide, rfl, rfl, by decide, by decide, by decide⟩
  ⟨hd, rfl, rfl, renderTable_draws_layout hd rfl fun _ => rfl⟩

/-- **Every line `neo4j_render_table` writes is `k * (cw + 1) + 1` columns wide**, one more
with the undersize marker, rules and rows alike, where the width budget keeps `k` columns
`cw` wide: each entry of a line is one glyph of the border set or one printable byte. -/
theorem renderTable_rectangular {env : Env} {fuel : Nat} {results : ResultStream} {width : Nat}
    {flags : RenderFlags} (hd : Drawable env fuel results width flags)
    (hunwrapped : flags.wrapValues = false) {k cw : Nat} {u : Bool}
    (hfit : fitColumns width results.nfields (columnWidthFor width results.nfields) false =
      (k, cw, u)) {w : World} (hw : w.Reliable) :
    ∃ (w' : World) (lines : List (List (List UInt8))),
      renderTable env fuel results width flags w = .ok () w' ∧
      w'.out = w.out ++ lines.flatMap lineBytes ∧
      ∀ line ∈ lines, TableLine (glifsForEncoding (normalizeRenderFlags env.codeset flags))
        (k * (cw + 1) + 1 + if u then 1 else 0) line := by
  obtain ⟨⟨⟩, w', hrun, hw'⟩ := (renderTable_drawn (E := fun _ _ => False) hd hunwrapped
    w.out).ok_of ⟨⟨hw, rfl⟩, Nat.zero_le _⟩
  refine ⟨w', _, hrun, hw'.1.2, fun line hline => ?_⟩
  unfold tableLayout at hline
  split_ifs at hline
  · exact absurd hline (List.not_mem_nil _)
  · simp only [hfit] at hline
    have hrows : ∀ text ∈ results.rows.map (rowText (normalizeRenderFlags env.codeset flags)),
        ∀ j, Printable (text j) := fun text htext j => by
      obtain ⟨row, hrow, rfl⟩ := List.mem_map.mp htext
      exact rowText_printable (hd.values row hrow) env.codeset j
    have h := tableLines_tableLine (fitColumns_widths hfit) u _ (fieldname_printable hd.names)
      hrows line hline
    rwa [lineWidth, bordered_replicate] at h

/-- The stream in sixteen columns: five lines, fifteen columns each. -/
theorem renderTable_rectangular_ada :
    Drawable Env.utf8Terminal 2 adaResults 16 asciiFlags ∧ asciiFlags.wrapValues = false ∧
      fitColumns 16 adaResults.nfields (columnWidthFor 16 adaResults.nfields) false =
        (2, 6, false) ∧
      ∃ (w' : World) (lines : List (List (List UInt8))),
        renderTable Env.utf8Terminal 2 adaResults 16 asciiFlags World.init = .ok () w' ∧
        w'.out = World.init.out ++ lines.flatMap lineBytes ∧
        ∀ line ∈ lines, TableLine (glifsForEncoding (normalizeRenderFlags "UTF-8" asciiFlags))
          (2 * (6 + 1) + 1 + if false then 1 else 0) line :=
  have hd : Drawable Env.utf8Terminal 2 adaResults 16 asciiFlags :=
    ⟨Env.utf8Terminal_narrowAscii, by decide, rfl, rfl, by decide, by decide, by decide⟩
  ⟨hd, rfl, rfl, renderTable_rectangular hd rfl rfl fun _ => rfl⟩

end Neo4jRender
