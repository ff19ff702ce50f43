/-
What the flags and the width change in the table.

`neo4j_render_table` takes a width and a flags word, and three of its choices are worth
stating across runs rather than within one.

  * `NEO4J_RENDER_WRAP_VALUES` only changes what happens to a text longer than its cell.  A
    row none of whose texts overflows is drawn by `wrappedRow` as the one line `rowLine`
    draws, so the two layouts agree (`wrappedLayout_eq_tableLayout`), and on a reliable
    stream the two runs write the same bytes (`renderTable_wrap_fitting`).
  * `NEO4J_RENDER_ASCII_ART` only changes the glyphs.  Every piece of the layout commutes
    with a map of glyph sets that fixes one-byte columns (`Relabel`), so the table drawn with
    the ASCII set is the other one with each box-drawing glyph replaced
    (`tableLayout_asciiArt`, `renderTable_asciiArt`).
  * A wider terminal never shows fewer fields.  The column loop keeps the most fields that
    get columns two wide (`fitColumns_maximal`), and `column_width` only grows with the width
    (`columnWidthFor_mono`), so the count it keeps does too, and `undersize` is raised on the
    wider terminal only if it is on the narrower one (`fitColumns_mono`).  The width of each
    column need not grow: more fields can share the room.
-/
import Neo4jRender.Proofs.Wrapped

namespace Neo4jRender

/-! ### Wrapping a table whose texts fit -/

/-- No column of texts each at most `cw - 2` bytes overflows cells `cw` wide. -/
theorem overflows_replicate {cw : Nat} {text : Nat → List UInt8}
    (h : ∀ j, (text j).length ≤ cw - 2) :
    ∀ k i, overflows (List.replicate k cw) (columnTexts text i (List.replicate k cw)) = false
  | 0, _ => rfl
  | k + 1, i => by
    simp only [List.replicate_succ, columnTexts, overflows, overflows_replicate h k (i + 1),
      Bool.or_false, decide_eq_false_iff_not, Nat.not_lt]
    exact h i

/-- A row none of whose texts overflows is its first line. -/
theorem wrappedRow_of_fits {glifs : BorderGlifs} {undersize : Bool} {widths : List Nat}
    {text : Nat → List UInt8} (h : overflows widths (columnTexts text 0 widths) = false) :
    wrappedRow glifs undersize widths text = [rowLine glifs undersize widths text] := by
  simp [wrappedRow, h]

theorem flatMap_wrappedRow_of_fits (glifs : BorderGlifs) (undersize rowLines : Bool)
    (widths : List Nat) :
    ∀ texts : List (Nat → List UInt8),
      (∀ text ∈ texts, overflows widths (columnTexts text 0 widths) = false) →
      texts.flatMap (fun text =>
        (if rowLines then [ruleLine glifs .middle undersize widths] else []) ++
          wrappedRow glifs undersize widths text) =
        texts.flatMap (laterRow glifs undersize rowLines widths)
  | [], _ => rfl
  | text :: texts, h => by
    rw [List.flatMap_cons, List.flatMap_cons, wrappedRow_of_fits (h text (List.mem_cons_self _ _)),
      flatMap_wrappedRow_of_fits glifs undersize rowLines widths texts
        fun t ht => h t (List.mem_cons_of_mem _ ht)]
    rfl

theorem wrappedBody_of_fits (glifs : BorderGlifs) (undersize rowLines : Bool)
    (widths : List Nat) :
    ∀ texts : List (Nat → List UInt8),
      (∀ text ∈ texts, overflows widths (columnTexts text 0 widths) = false) →
      wrappedBody glifs undersize rowLines widths texts =
        bodyLines glifs undersize rowLines widths texts
  | [], _ => rfl
  | text :: texts, h => by
    rw [wrappedBody, bodyLines, wrappedRow_of_fits (h text (List.mem_cons_self _ _)),
      flatMap_wrappedRow_of_fits glifs undersize rowLines widths texts
        fun t ht => h t (List.mem_cons_of_mem _ ht)]
    rfl

/-- **With every text fitting its cell, the wrapped layout is the plain one.** -/
theorem wrappedLayout_eq_tableLayout {env : Env} {results : ResultStream} {width : Nat}
    {flags : RenderFlags} {k cw : Nat} {u : Bool}
    (hfit : fitColumns width results.nfields (columnWidthFor width results.nfields) false =
      (k, cw, u))
    (hnames : ∀ name ∈ results.fieldnames, name.1.length ≤ cw - 2)
    (hvalues : ∀ row ∈ results.rows, ∀ v ∈ row, (cellText flags v).length ≤ cw - 2) :
    wrappedLayout env results width flags = tableLayout env results width flags := by
  have hname : ∀ j, (results.fieldname j).length ≤ cw - 2 :=
    forall_getD (P := fun name : CString => name.1.length ≤ cw - 2) (Nat.zero_le _) hnames
  have hrows : ∀ text ∈ results.rows.map (rowText (normalizeRenderFlags env.codeset flags)),
      overflows (List.replicate k cw) (columnTexts text 0 (List.replicate k cw)) = false := by
    intro text htext
    obtain ⟨row, hrow, rfl⟩ := List.mem_map.mp htext
    refine overflows_replicate (fun j => ?_) k 0
    rw [rowText_normalize]
    exact forall_getD (P := fun v => (cellText flags v).length ≤ cw - 2) (by simp)
      (hvalues row hrow) j
  unfold wrappedLayout tableLayout
  split
  · rfl
  dsimp only
  rw [hfit]
  dsimp only
  rw [wrappedRow_of_fits (overflows_replicate hname k 0), wrappedBody_of_fits _ _ _ _ _ hrows]
  rfl

/-- The layout reads no flag but those `normalize_render_flags` passes on to the glyphs, the
rules and the texts: not `NEO4J_RENDER_WRAP_VALUES`. -/
theorem tableLayout_wrapValues (env : Env) (results : ResultStream) (width : Nat)
    (flags : RenderFlags) (b : Bool) :
    tableLayout env results width { flags with wrapValues := b } =
      tableLayout env results width flags := by
  simp only [tableLayout, normalizeRenderFlags]
  split_ifs <;> rfl

/-- **Wrapping changes nothing in a table whose texts fit their cells**: on a reliable stream,
`neo4j_render_table` with `NEO4J_RENDER_WRAP_VALUES` and without it both return and write the
same bytes, the plain layout, when every field name and value text is at most `cw - 2` bytes
for columns at least three wide. -/
theorem renderTable_wrap_fitting {env : Env} {fuel : Nat} {results : ResultStream}
    {width : Nat} {flags : RenderFlags} (hd : Drawable env fuel results width flags)
    {k cw : Nat} {u : Bool}
    (hfit : fitColumns width results.nfields (columnWidthFor width results.nfields) false =
      (k, cw, u)) (hroom : k = 0 ∨ 3 ≤ cw)
    (hnames : ∀ name ∈ results.fieldnames, name.1.length ≤ cw - 2)
    (hvalues : ∀ row ∈ results.rows, ∀ v ∈ row, (cellText flags v).length ≤ cw - 2)
    (hfuel : cw ≤ fuel) {w : World} (hw : w.Reliable) :
    ∃ w₁ w₂, renderTable env fuel results width { flags with wrapValues := true } w = .ok () w₁ ∧
      renderTable env fuel results width { flags with wrapValues := false } w = .ok () w₂ ∧
      w₁.out = w₂.out ∧ w₂.out = w.out ++ (tableLayout env results width flags).flatMap lineBytes := by
  have h2 := hd.fuel
  have hd' : ∀ b, Drawable env fuel results width { flags with wrapValues := b } := fun _ =>
    ⟨hd.narrow, hd.fuel, hd.failure, hd.failureAtEnd, hd.width, hd.names, hd.values⟩
  obtain ⟨⟨⟩, w₁, hrun₁, hw₁⟩ := (renderTable_wraps (E := fun _ _ => False) (hd' true) rfl hfit hroom
    (fun name h => by have := hnames name h; omega)
    (fun row hrow v hv => show (cellText flags v).length < fuel by
      have := hvalues row hrow v hv; omega) w.out).ok_of ⟨⟨hw, rfl⟩, Nat.zero_le _⟩
  obtain ⟨⟨⟩, w₂, hrun₂, hw₂⟩ := (renderTable_drawn (E := fun _ _ => False) (hd' false) rfl
    w.out).ok_of
    ⟨⟨hw, rfl⟩, Nat.zero_le _⟩
  have hv₁ : ∀ row ∈ results.rows, ∀ v ∈ row,
      (cellText { flags with wrapValues := true } v).length ≤ cw - 2 := hvalues
  refine ⟨w₁, w₂, hrun₁, hrun₂, ?_, ?_⟩
  · rw [hw₁.1.2, hw₂.1.2, wrappedLayout_eq_tableLayout hfit hnames hv₁,
      tableLayout_wrapValues env results width flags true,
      tableLayout_wrapValues env results width flags false]
  · rw [hw₂.1.2, tableLayout_wrapValues env results width flags false]

/-- The two-column stream in sixteen columns: cells four wide hold `id`, `name`, `1` and
`Ada`, so wrapping changes nothing. -/
theorem renderTable_wrap_fitting_ada :
    Drawable Env.utf8Terminal 6 adaResults 16 asciiFlags ∧
      fitColumns 16 adaResults.nfields (columnWidthFor 16 adaResults.nfields) false =
        (2, 6, false) ∧ (2 = 0 ∨ 3 ≤ 6) ∧
      (∀ name ∈ adaResults.fieldnames, name.1.length ≤ 6 - 2) ∧
      (∀ row ∈ adaResults.rows, ∀ v ∈ row, (cellText asciiFlags v).length ≤ 6 - 2) ∧
      6 ≤ 6 ∧ World.init.Reliable ∧
      ∃ w₁ w₂, renderTable Env.utf8Terminal 6 adaResults 16
          { asciiFlags with wrapValues := true } World.init = .ok () w₁ ∧
        renderTable Env.utf8Terminal 6 adaResults 16
          { asciiFlags with wrapValues := false } World.init = .ok () w₂ ∧
        w₁.out = w₂.out ∧ w₂.out = World.init.out ++
          (tableLayout Env.utf8Terminal adaResults 16 asciiFlags).flatMap lineBytes :=
  have hd : Drawable Env.utf8Terminal 6 adaResults 16 asciiFlags :=
    ⟨Env.utf8Terminal_narrowAscii, by decide, rfl, rfl, by decide, by decide, by decide⟩
  ⟨hd, rfl, .inr (by decide), by decide, by decide, le_rfl, fun _ => rfl,
    renderTable_wrap_fitting hd rfl (.inr (by decide)) (by decide) (by decide) le_rfl
      fun _ => rfl⟩

/-! ### The ASCII-art flag only changes the glyphs -/

/-- `f` turns every glyph of `glifs` into the same glyph of `glifs'`, and leaves a column of
one byte, as text and padding are, as it is. -/
structure Relabel (f : List UInt8 → List UInt8) (glifs glifs' : BorderGlifs) : Prop where
  byte : ∀ b, f [b] = [b]
  verticalLine : f glifs.verticalLine.1 = glifs'.verticalLine.1
  overflow : f glifs.overflow.1 = glifs'.overflow.1
  rule : ∀ position,
    f (hruleGlifs glifs position).1.left.1 = (hruleGlifs glifs' position).1.left.1 ∧
    f (hruleGlifs glifs position).1.middle.1 = (hruleGlifs glifs' position).1.middle.1 ∧
    f (hruleGlifs glifs position).1.right.1 = (hruleGlifs glifs' position).1.right.1 ∧
    f (hruleGlifs glifs position).2.1 = (hruleGlifs glifs' position).2.1

theorem ruleColumns_relabel {f : List UInt8 → List UInt8} {corners corners' : Corners}
    {line line' : CString} (hl : f corners.left.1 = corners'.left.1)
    (hm : f corners.middle.1 = corners'.middle.1) (hline : f line.1 = line'.1) :
    ∀ first widths,
      (ruleColumns corners line first widths).map f = ruleColumns corners' line' first widths
  | _, [] => rfl
  | first, width :: widths => by
    cases first <;>
      simp [ruleColumns, hl, hm, hline, ruleColumns_relabel hl hm hline false widths]

section Relabel

variable {f : List UInt8 → List UInt8} {glifs glifs' : BorderGlifs} (h : Relabel f glifs glifs')
include h

theorem cellColumns_relabel (width : Nat) (text : List UInt8) :
    (cellColumns width text).map f = cellColumns width text := by
  simp [cellColumns, Function.comp_def, h.byte]

theorem ruleLine_relabel (position : HlinePosition) (undersize : Bool) (widths : List Nat) :
    (ruleLine glifs position undersize widths).map f =
      ruleLine glifs' position undersize widths := by
  obtain ⟨hl, hm, hr, hline⟩ := h.rule position
  show (ruleColumns (hruleGlifs glifs position).1 (hruleGlifs glifs position).2 true widths ++
      if undersize then [(hruleGlifs glifs position).1.middle.1, (hruleGlifs glifs position).2.1]
      else [(hruleGlifs glifs position).1.right.1]).map f =
    ruleColumns (hruleGlifs glifs' position).1 (hruleGlifs glifs' position).2 true widths ++
      if undersize then [(hruleGlifs glifs' position).1.middle.1, (hruleGlifs glifs' position).2.1]
      else [(hruleGlifs glifs' position).1.right.1]
  rw [List.map_append, ruleColumns_relabel hl hm hline]
  cases undersize <;> simp [hm, hr, hline]

theorem rowColumns_relabel (text : Nat → List UInt8) :
    ∀ i widths, (rowColumns glifs text i widths).map f = rowColumns glifs' text i widths
  | _, [] => rfl
  | i, width :: widths => by
    have hend : f (if (text i).length ≤ width - 2 then [0x20] else glifs.overflow.1) =
        if (text i).length ≤ width - 2 then [0x20] else glifs'.overflow.1 := by
      split
      · exact h.byte _
      · exact h.overflow
    simp only [rowColumns, List.map_cons, List.map_append, h.verticalLine, h.byte,
      cellColumns_relabel h, hend, rowColumns_relabel text (i + 1) widths]

theorem rowLine_relabel (undersize : Bool) (widths : List Nat) (text : Nat → List UInt8) :
    (rowLine glifs undersize widths text).map f = rowLine glifs' undersize widths text := by
  cases undersize <;> simp [rowLine, rowColumns_relabel h, h.verticalLine, h.overflow]

theorem laterRow_relabel (undersize rowLines : Bool) (widths : List Nat)
    (text : Nat → List UInt8) :
    (laterRow glifs undersize rowLines widths text).map (List.map f) =
      laterRow glifs' undersize rowLines widths text := by
  cases rowLines <;> simp [laterRow, ruleLine_relabel h, rowLine_relabel h]

theorem tableLines_relabel (undersize rowLines : Bool) (widths : List Nat)
    (names : Nat → List UInt8) (rows : List (Nat → List UInt8)) :
    (tableLines glifs undersize rowLines widths names rows).map (List.map f) =
      tableLines glifs' undersize rowLines widths names rows := by
  cases rows <;> simp [tableLines, bodyLines, List.map_flatMap, laterRow_relabel h,
    ruleLine_relabel h, rowLine_relabel h]

end Relabel

/-- The corners of `u8_border_glifs`. -/
def u8Corners : List (List UInt8) :=
  [u8BorderGlifs.topCorners, u8BorderGlifs.headCorners, u8BorderGlifs.middleCorners,
    u8BorderGlifs.bottomCorners].flatMap fun c => [c.left.1, c.middle.1, c.right.1]

/-- The glyph of `ascii_border_glifs` that stands for a glyph of `u8_border_glifs`, and every
other column as it is. -/
def asciiGlif (column : List UInt8) : List UInt8 :=
  if column = u8BorderGlifs.horizontalLine.1 ∨ column = u8BorderGlifs.headLine.1 then
    asciiBorderGlifs.horizontalLine.1
  else if column = u8BorderGlifs.verticalLine.1 then asciiBorderGlifs.verticalLine.1
  else if column = u8BorderGlifs.overflow.1 then asciiBorderGlifs.overflow.1
  else if column ∈ u8Corners then asciiBorderGlifs.topCorners.left.1
  else column

theorem asciiGlif_byte (b : UInt8) : asciiGlif [b] = [b] := by
  simp [asciiGlif, u8Corners, u8BorderGlifs]

theorem relabel_u8 : Relabel asciiGlif u8BorderGlifs asciiBorderGlifs :=
  ⟨asciiGlif_byte, by decide, by decide, fun position => by cases position <;> decide⟩

theorem relabel_ascii : Relabel asciiGlif asciiBorderGlifs asciiBorderGlifs :=
  ⟨asciiGlif_byte, by decide, by decide, fun position => by cases position <;> decide⟩

@[simp] theorem normalizeRenderFlags_rowLines (codeset : String) (flags : RenderFlags) :
    (normalizeRenderFlags codeset flags).rowLines = flags.rowLines := by
  unfold normalizeRenderFlags; split_ifs <;> rfl

/-- Whatever else the flags say, the glyphs the table draws with turn into the ASCII ones. -/
theorem relabel_glifsForEncoding (codeset : String) (flags : RenderFlags) :
    Relabel asciiGlif (glifsForEncoding (normalizeRenderFlags codeset flags)) asciiBorderGlifs := by
  unfold glifsForEncoding
  split
  · exact relabel_u8
  · exact relabel_ascii

theorem normalizeRenderFlags_asciiArt (codeset : String) {flags : RenderFlags}
    (h : flags.asciiArt = true) : (normalizeRenderFlags codeset flags).asciiArt = true := by
  unfold normalizeRenderFlags
  split_ifs
  · rfl
  · rfl
  · exact h

theorem glifsForEncoding_asciiArt (codeset : String) (flags : RenderFlags) :
    glifsForEncoding (normalizeRenderFlags codeset { flags with asciiArt := true }) =
      asciiBorderGlifs := by
  rw [glifsForEncoding, normalizeRenderFlags_asciiArt codeset rfl]
  rfl

theorem rowText_normalize_eq (codeset : String) (flags : RenderFlags) :
    rowText (normalizeRenderFlags codeset flags) = fun row j => cellText flags (row.getD j default) :=
  funext fun row => funext fun j => rowText_normalize codeset flags row j

/-- **The table with `NEO4J_RENDER_ASCII_ART` is the table without it, glyph for glyph**: each
glyph of the box-drawing set replaced by its ASCII counterpart, every text byte and space as
it is. -/
theorem tableLayout_asciiArt (env : Env) (results : ResultStream) (width : Nat)
    (flags : RenderFlags) :
    tableLayout env results width { flags with asciiArt := true } =
      (tableLayout env results width { flags with asciiArt := false }).map (List.map asciiGlif) := by
  unfold tableLayout
  split
  · rfl
  dsimp only
  rcases fitColumns width results.nfields (columnWidthFor width results.nfields) false with
    ⟨k, cw, u⟩
  dsimp only
  rw [tableLines_relabel (relabel_glifsForEncoding env.codeset _), glifsForEncoding_asciiArt,
    normalizeRenderFlags_rowLines, normalizeRenderFlags_rowLines, rowText_normalize_eq,
    rowText_normalize_eq]
  rfl

/-- **On a reliable stream, `neo4j_render_table` with `NEO4J_RENDER_ASCII_ART` writes the table
it writes without it, with every box-drawing glyph replaced by its ASCII counterpart**: the
flag changes nothing else. -/
theorem renderTable_asciiArt {env : Env} {fuel : Nat} {results : ResultStream} {width : Nat}
    {flags : RenderFlags} (hd : Drawable env fuel results width flags)
    (hunwrapped : flags.wrapValues = false) {w : World} (hw : w.Reliable) :
    ∃ w₁ w₂, renderTable env fuel results width { flags with asciiArt := false } w = .ok () w₁ ∧
      renderTable env fuel results width { flags with asciiArt := true } w = .ok () w₂ ∧
      w₁.out = w.out ++
        (tableLayout env results width { flags with asciiArt := false }).flatMap lineBytes ∧
      w₂.out = w.out ++ ((tableLayout env results width { flags with asciiArt := false }).map
        (List.map asciiGlif)).flatMap lineBytes := by
  have hd' : ∀ b, Drawable env fuel results width { flags with asciiArt := b } := fun _ =>
    ⟨hd.narrow, hd.fuel, hd.failure, hd.failureAtEnd, hd.width, hd.names, hd.values⟩
  obtain ⟨⟨⟩, w₁, hrun₁, hw₁⟩ := (renderTable_drawn (E := fun _ _ => False) (hd' false) hunwrapped
    w.out).ok_of ⟨⟨hw, rfl⟩, Nat.zero_le _⟩
  obtain ⟨⟨⟩, w₂, hrun₂, hw₂⟩ := (renderTable_drawn (E := fun _ _ => False) (hd' true) hunwrapped
    w.out).ok_of ⟨⟨hw, rfl⟩, Nat.zero_le _⟩
  refine ⟨w₁, w₂, hrun₁, hrun₂, hw₁.1.2, ?_⟩
  rw [hw₂.1.2, tableLayout_asciiArt]

/-- Flags that draw with the box-drawing glyphs on a UTF-8 terminal. -/
def boxFlags : RenderFlags := { asciiFlags with ascii := false, asciiArt := false }

/-- The two-column stream in sixteen columns, drawn with box-drawing glyphs and with
`NEO4J_RENDER_ASCII_ART`: the second is the first with `+`, `-`, `|` for its glyphs. -/
theorem renderTable_asciiArt_ada :
    Drawable Env.utf8Terminal 2 adaResults 16 boxFlags ∧ boxFlags.wrapValues = false ∧
      World.init.Reliable ∧
      ((tableLayout Env.utf8Terminal adaResults 16 { boxFlags with asciiArt := false }).map
        (List.map asciiGlif)).flatMap lineBytes =
        bytesOf "+------+------+\n| id   | name |\n+------+------+\n| 1    | Ada  |\n+------+------+\n" ∧
      ∃ w₁ w₂, renderTable Env.utf8Terminal 2 adaResults 16
          { boxFlags with asciiArt := false } World.init = .ok () w₁ ∧
        renderTable Env.utf8Terminal 2 adaResults 16
          { boxFlags with asciiArt := true } World.init = .ok () w₂ ∧
        w₁.out = World.init.out ++ (tableLayout Env.utf8Terminal adaResults 16
          { boxFlags with asciiArt := false }).flatMap lineBytes ∧
        w₂.out = World.init.out ++ ((tableLayout Env.utf8Terminal adaResults 16
          { boxFlags with asciiArt := false }).map (List.map asciiGlif)).flatMap lineBytes :=
  have hd : Drawable Env.utf8Terminal 2 adaResults 16 boxFlags :=
    ⟨Env.utf8Terminal_narrowAscii, by decide, rfl, rfl, by decide, by decide, by decide⟩
  ⟨hd, rfl, fun _ => rfl, by decide, renderTable_asciiArt hd rfl fun _ => rfl⟩

/-! ### A wider terminal -/

/-- `column_width` only grows with the width. -/
theorem columnWidthFor_mono {width width' : Nat} (hw : width ≤ width') (k : Nat) :
    columnWidthFor width k ≤ columnWidthFor width' k := by
  unfold columnWidthFor
  split_ifs with h h'
  · exact le_rfl
  · exact Nat.zero_le _
  · omega
  · exact Nat.div_le_div_right (by omega)

/-- **A wider terminal shows at least as many fields**, and marks the table undersize only
if the narrower one does. -/
theorem fitColumns_mono {width width' nfields k cw k' cw' : Nat} {u u' : Bool}
    (hw : width ≤ width')
    (h : fitColumns width nfields (columnWidthFor width nfields) false = (k, cw, u))
    (h' : fitColumns width' nfields (columnWidthFor width' nfields) false = (k', cw', u')) :
    k ≤ k' ∧ (u' = true → u = true) := by
  have hf := fitColumns_fit width nfields false
  have hf' := fitColumns_fit width' nfields false
  rw [h] at hf
  rw [h'] at hf'
  have hu : u = decide (k < nfields) := by simpa using hf.undersize
  have hu' : u' = decide (k' < nfields) := by simpa using hf'.undersize
  have hk : k ≤ k' := by
    rcases hf.wide with h0 | h2
    · simp only at h0
      omega
    · exact fitColumns_maximal h' k hf.le
        ((hf.width_eq ▸ h2).trans (columnWidthFor_mono hw k))
  refine ⟨hk, fun hlt => ?_⟩
  rw [hu', decide_eq_true_iff] at hlt
  rw [hu, decide_eq_true_iff]
  omega

/-- Three fields in nine columns keep two, three wide; in ten, all three, two wide. -/
theorem fitColumns_mono_nine_ten :
    9 ≤ 10 ∧ fitColumns 9 3 (columnWidthFor 9 3) false = (2, 3, true) ∧
      fitColumns 10 3 (columnWidthFor 10 3) false = (3, 2, false) ∧
      2 ≤ 3 ∧ (false = true → true = true) :=
  have h : fitColumns 9 3 (columnWidthFor 9 3) false = (2, 3, true) := rfl
  have h' : fitColumns 10 3 (columnWidthFor 10 3) false = (3, 2, false) := rfl
  ⟨by decide, h, h', fitColumns_mono (by decide) h h'⟩

end Neo4jRender
