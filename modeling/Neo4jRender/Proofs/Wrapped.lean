/-
The table with wrapped values.

With `NEO4J_RENDER_WRAP_VALUES`, `render_row` keeps what did not fit a cell in its `fields`
entry and draws it on continuation lines, one turn of `while (wrap)` a line: each cell
opened with the overflow glyph when its entry still has text, and closed with it when that
text overflows again.  `wrappedRow` says those lines without the code's pointers and copies:
the first line as `rowLine` draws it, then, from what the texts have beyond their cells
(`firstRest`), one continuation line a turn, each entry cut by its cell (`wrapRest`), until
no column overflows.  An entry whose text ends on a continuation line is kept as it was, as
the code keeps its `fields` entry: its last segment comes again on every later line
(`renderRow_repeats_segment`).

On a reliable stream, with printable text, cells at least one column wide and fuel beyond
the longest text, `neo4j_render_table` writes exactly the table with its rows so drawn
(`renderTable_draws_wrapped`), every line of it as wide as its rules
(`renderTable_wrapped_rectangular`), and a row takes as many lines as its longest text needs
cells (`wrappedRow_length`).  `wrappedRow` counts a column a byte, as the terminal does for
printable ASCII, which is what these results assume; a wider codepoint is cut by the columns
it takes, and `Proofs/Display` follows such text.

What the proof has to follow is the copies: a value staged in the shared buffer is copied by
`memdup` before the next column's value overwrites it, and the copy is what the value has
left (`keepRest_holds`); every later line reads its entries from their own memory
(`Carries`).
-/
import Neo4jRender.Proofs.Termination

namespace Neo4jRender

/-! ### The continuation lines -/

/-- The texts of the columns from field `i` on. -/
def columnTexts (text : Nat → List UInt8) : Nat → List Nat → List (List UInt8)
  | _, [] => []
  | i, _ :: widths => text i :: columnTexts text (i + 1) widths

/-- Whether some column's text is longer than its cell. -/
def overflows : List Nat → List (List UInt8) → Bool
  | width :: widths, t :: ts => decide (width - 2 < t.length) || overflows widths ts
  | _, _ => false

/-- What the first line leaves of each text: the bytes beyond its cell. -/
def firstRest : List Nat → List (List UInt8) → List (List UInt8)
  | width :: widths, t :: ts => t.drop (width - 2) :: firstRest widths ts
  | _, _ => []

/-- What a continuation line leaves: the bytes beyond the cell of an entry that overflows,
and an entry that fits as it was. -/
def wrapRest : List Nat → List (List UInt8) → List (List UInt8)
  | width :: widths, p :: ps =>
    (if p.length ≤ width - 2 then p else p.drop (width - 2)) :: wrapRest widths ps
  | _, _ => []

/-- The columns of a continuation line: each column's border, the overflow glyph where its
entry has text and a space where not, its cell, and a space or the overflow glyph. -/
def wrapColumns (glifs : BorderGlifs) : List Nat → List (List UInt8) → List (List UInt8)
  | width :: widths, p :: ps =>
    glifs.verticalLine.1 :: (if 0 < p.length then glifs.overflow else space).1 ::
      cellColumns (width - 2) p ++
        (if p.length ≤ width - 2 then [0x20] else glifs.overflow.1) :: wrapColumns glifs widths ps
  | _, _ => []

/-- A continuation line: its columns, the closing border, and the overflow glyph when fields
were dropped. -/
def wrapLine (glifs : BorderGlifs) (undersize : Bool) (widths : List Nat)
    (ps : List (List UInt8)) : List (List UInt8) :=
  wrapColumns glifs widths ps ++
    glifs.verticalLine.1 :: (if undersize then [glifs.overflow.1] else [])

/-- The continuation lines from the entries `ps`, at most `fuel` of them: a line, and more
while a column overflows. -/
def wrapLines (glifs : BorderGlifs) (undersize : Bool) (widths : List Nat) :
    Nat → List (List UInt8) → List (List (List UInt8))
  | 0, _ => []
  | fuel + 1, ps => wrapLine glifs undersize widths ps ::
    if overflows widths ps then wrapLines glifs undersize widths fuel (wrapRest widths ps) else []

/-- The most any column has beyond its cell. -/
def spill : List Nat → List (List UInt8) → Nat
  | width :: widths, p :: ps => max (p.length - (width - 2)) (spill widths ps)
  | _, _ => 0

/-- A row with wrapped values: its first line and, when a text did not fit, the continuation
lines of what is left, as many as it takes.  It counts a column a byte, so it is what
`render_row` draws for printable text (`renderRow_wraps`), not for text with wider
codepoints, which `render_row` cuts by the columns they take. -/
def wrappedRow (glifs : BorderGlifs) (undersize : Bool) (widths : List Nat)
    (text : Nat → List UInt8) : List (List (List UInt8)) :=
  rowLine glifs undersize widths text ::
    if overflows widths (columnTexts text 0 widths) then
      wrapLines glifs undersize widths
        (spill widths (firstRest widths (columnTexts text 0 widths)) + 1)
        (firstRest widths (columnTexts text 0 widths))
    else []

/-- The body with wrapped values: the first row, then each other after a middle rule when
`rowLines`. -/
def wrappedBody (glifs : BorderGlifs) (undersize rowLines : Bool) (widths : List Nat) :
    List (Nat → List UInt8) → List (List (List UInt8))
  | [] => []
  | text :: texts => wrappedRow glifs undersize widths text ++ texts.flatMap fun text =>
    (if rowLines then [ruleLine glifs .middle undersize widths] else []) ++
      wrappedRow glifs undersize widths text

/-- The table `neo4j_render_table` is to draw with wrapped values: `tableLayout` with every
row, the names' included, drawn by `wrappedRow`. -/
def wrappedLayout (env : Env) (results : ResultStream) (width : Nat) (flags : RenderFlags) :
    List (List (List UInt8)) :=
  if results.nfields = 0 then [] else
  let flags := normalizeRenderFlags env.codeset flags
  match fitColumns width results.nfields (columnWidthFor width results.nfields) false with
  | (k, cw, undersize) =>
    ruleLine (glifsForEncoding flags) .top undersize (List.replicate k cw) ::
      wrappedRow (glifsForEncoding flags) undersize (List.replicate k cw) results.fieldname ++
      ruleLine (glifsForEncoding flags) .head undersize (List.replicate k cw) ::
      wrappedBody (glifsForEncoding flags) undersize flags.rowLines (List.replicate k cw)
        (results.rows.map (rowText flags)) ++
      [ruleLine (glifsForEncoding flags) .bottom undersize (List.replicate k cw)]

/-! ### What a line leaves -/

section Lines

variable {widths : List Nat} {ps : List (List UInt8)}

theorem overflows_iff_spill : ∀ {widths ps}, overflows widths ps = true ↔ 0 < spill widths ps
  | _ :: _, _ :: _ => by
    simp only [overflows, spill, Bool.or_eq_true, decide_eq_true_eq, overflows_iff_spill]
    omega
  | [], _ => by simp [overflows, spill]
  | _ :: _, [] => by simp [overflows, spill]

/-- **A continuation line draws at least one byte of every entry that overflows**, so the
most any column has left drops, in cells at least one column wide. -/
theorem spill_wrapRest : ∀ {widths} (ps : List (List UInt8)), (∀ x ∈ widths, 3 ≤ x) →
    spill widths (wrapRest widths ps) ≤ spill widths ps - 1
  | width :: widths, p :: ps, hw => by
    have h3 := hw width (List.mem_cons_self _ _)
    have ih := spill_wrapRest ps fun x hx => hw x (List.mem_cons_of_mem _ hx)
    simp only [spill, wrapRest]
    split_ifs with h
    · omega
    · simp only [List.length_drop]; omega
  | [], _, _ => Nat.zero_le _
  | _ :: _, [], _ => Nat.zero_le _

/-- Fuel beyond what the entries have left draws the same lines. -/
theorem wrapLines_fuel (glifs : BorderGlifs) (undersize : Bool) (hw : ∀ x ∈ widths, 3 ≤ x) :
    ∀ (f f' : Nat) {ps}, spill widths ps < f → spill widths ps < f' →
      wrapLines glifs undersize widths f ps = wrapLines glifs undersize widths f' ps
  | f + 1, f' + 1, ps, h, h' => by
    simp only [wrapLines]
    split_ifs with hov
    · have := spill_wrapRest ps hw
      have := overflows_iff_spill.mp hov
      rw [wrapLines_fuel glifs undersize hw f f' (by omega) (by omega)]
    · rfl
  | 0, _, _, h, _ | _ + 1, 0, _, _, h => absurd h (Nat.not_lt_zero _)

theorem spill_firstRest (text : Nat → List UInt8) {B : Nat} (hB : ∀ j, (text j).length ≤ B) :
    ∀ i widths, spill widths (firstRest widths (columnTexts text i widths)) ≤ B
  | _, [] => Nat.zero_le _
  | i, width :: widths => by
    have := hB i
    have := spill_firstRest text hB (i + 1) widths
    simp only [columnTexts, firstRest, spill, List.length_drop]
    omega

end Lines

/-! ### How many lines a row takes -/

/-- Every text fits `lines` lines of its cell. -/
def FitIn (lines : Nat) : List Nat → List (List UInt8) → Prop
  | width :: widths, t :: ts => t.length ≤ lines * (width - 2) ∧ FitIn lines widths ts
  | _, _ => True

instance fitIn_decidable (lines : Nat) : ∀ widths ts, Decidable (FitIn lines widths ts)
  | _ :: widths, _ :: ts =>
    have := fitIn_decidable lines widths ts
    inferInstanceAs (Decidable (_ ∧ _))
  | [], _ => isTrue trivial
  | _ :: _, [] => isTrue trivial

section Count

theorem fitIn_one_iff : ∀ {widths ps}, FitIn 1 widths ps ↔ overflows widths ps = false
  | _ :: _, _ :: _ => by
    simp only [FitIn, overflows, Bool.or_eq_false_iff, decide_eq_false_iff_not, Nat.not_lt,
      Nat.one_mul, fitIn_one_iff]
  | [], _ => by simp [FitIn, overflows]
  | _ :: _, [] => by simp [FitIn, overflows]

theorem FitIn.mono {lines more : Nat} (h : lines ≤ more) :
    ∀ {widths ps}, FitIn lines widths ps → FitIn more widths ps
  | _ :: _, _ :: _, ⟨ht, hts⟩ => ⟨Nat.le_trans ht (Nat.mul_le_mul_right _ h), FitIn.mono h hts⟩
  | [], _, _ => trivial
  | _ :: _, [], _ => trivial

/-- A text fits one line more than what the first line leaves of it. -/
theorem fitIn_firstRest (lines : Nat) : ∀ {widths ts},
    FitIn (lines + 1) widths ts ↔ FitIn lines widths (firstRest widths ts)
  | _ :: _, _ :: _ => by
    simp only [FitIn, firstRest, List.length_drop, Nat.succ_mul]
    exact Iff.and ⟨fun h => by omega, fun h => by omega⟩ (fitIn_firstRest lines)
  | [], _ => Iff.rfl
  | _ :: _, [] => Iff.rfl

/-- An entry fits one line more than what a continuation line leaves of it, once there is a
line left: an entry that fits its cell is kept, and fits any line. -/
theorem fitIn_wrapRest {lines : Nat} (hl : 1 ≤ lines) : ∀ {widths ps},
    FitIn (lines + 1) widths ps ↔ FitIn lines widths (wrapRest widths ps)
  | width :: _, p :: _ => by
    have : width - 2 ≤ lines * (width - 2) := Nat.le_mul_of_pos_left _ hl
    simp only [FitIn, wrapRest, Nat.succ_mul]
    refine Iff.and ?_ (fitIn_wrapRest hl)
    split_ifs
    · exact ⟨fun h => by omega, fun h => by omega⟩
    · simp only [List.length_drop]; exact ⟨fun h => by omega, fun h => by omega⟩
  | [], _ => Iff.rfl
  | _ :: _, [] => Iff.rfl

variable (glifs : BorderGlifs) (undersize : Bool) {widths : List Nat} (hw : ∀ x ∈ widths, 3 ≤ x)
include hw

/-- The continuation lines from entries `ps` are at most `lines` when every entry fits
`lines` lines of its cell. -/
theorem wrapLines_length : ∀ fuel {ps}, spill widths ps < fuel → ∀ lines,
    (wrapLines glifs undersize widths fuel ps).length ≤ lines ↔ 1 ≤ lines ∧ FitIn lines widths ps
  | 0, _, h, _ => absurd h (Nat.not_lt_zero _)
  | _ + 1, _, _, 0 => by simp [wrapLines]
  | fuel + 1, ps, h, lines + 1 => by
    rw [wrapLines]
    by_cases hov : overflows widths ps = true
    · have := spill_wrapRest ps hw
      have := overflows_iff_spill.mp hov
      rw [if_pos hov, List.length_cons, Nat.add_le_add_iff_right,
        wrapLines_length fuel (by omega) lines]
      rcases Nat.eq_zero_or_pos lines with rfl | hl
      · simp [fitIn_one_iff, hov]
      · rw [← fitIn_wrapRest hl]
        exact ⟨fun h => ⟨by omega, h.2⟩, fun h => ⟨hl, h.2⟩⟩
    · rw [if_neg hov, List.length_singleton]
      have := FitIn.mono (Nat.le_add_left 1 lines) (fitIn_one_iff.mpr (by simpa using hov))
      simp [this]

end Count

/-- A row with wrapped values takes as many lines as its longest text needs cells: at most
`lines` lines exactly when `lines` is at least one and every text fits `lines` lines of its
cell. -/
theorem wrappedRow_length_le_iff (glifs : BorderGlifs) (undersize : Bool) {widths : List Nat}
    (hw : ∀ x ∈ widths, 3 ≤ x) (text : Nat → List UInt8) (lines : Nat) :
    (wrappedRow glifs undersize widths text).length ≤ lines ↔
      1 ≤ lines ∧ FitIn lines widths (columnTexts text 0 widths) := by
  rw [wrappedRow]
  by_cases hov : overflows widths (columnTexts text 0 widths) = true
  · rw [if_pos hov, List.length_cons]
    rcases lines with _ | lines
    · simp
    rw [Nat.add_le_add_iff_right, wrapLines_length glifs undersize hw _ (Nat.lt_succ_self _),
      ← fitIn_firstRest]
    rcases Nat.eq_zero_or_pos lines with rfl | hl
    · simp [fitIn_one_iff, hov]
    · exact ⟨fun h => ⟨by omega, h.2⟩, fun h => ⟨hl, h.2⟩⟩
  · rw [if_neg hov, List.length_singleton]
    constructor
    · intro h
      exact ⟨h, FitIn.mono h (fitIn_one_iff.mpr (by simpa using hov))⟩
    · exact fun h => h.1

/-! ### Every line is as wide as the rules -/

/-- Entries of printable text, one a column. -/
def PrintableEntries (widths : List Nat) (ps : List (List UInt8)) : Prop :=
  List.Forall₂ (fun _ p => Printable p) widths ps

section Width

variable {glifs : BorderGlifs}

theorem printableEntries_columnTexts {text : Nat → List UInt8} (ht : ∀ j, Printable (text j)) :
    ∀ i widths, PrintableEntries widths (columnTexts text i widths)
  | _, [] => .nil
  | i, _ :: widths => .cons (ht i) (printableEntries_columnTexts ht (i + 1) widths)

theorem PrintableEntries.firstRest : ∀ {widths ps}, PrintableEntries widths ps →
    PrintableEntries widths (firstRest widths ps)
  | _, _, .nil => .nil
  | _, _, .cons hp hs => .cons (hp.drop _) (PrintableEntries.firstRest hs)

theorem PrintableEntries.wrapRest : ∀ {widths ps}, PrintableEntries widths ps →
    PrintableEntries widths (wrapRest widths ps)
  | _, _, .nil => .nil
  | _, _, .cons hp hs => .cons (by split; exacts [hp, hp.drop _]) (PrintableEntries.wrapRest hs)

theorem wrapColumns_length : ∀ {widths ps}, PrintableEntries widths ps →
    (∀ x ∈ widths, 2 ≤ x) → (wrapColumns glifs widths ps).length = bordered widths
  | _, _, .nil, _ => rfl
  | width :: widths, _ :: _, .cons _ hs, hw => by
    have h2 := hw width (List.mem_cons_self _ _)
    have ih : (wrapColumns glifs widths _).length = bordered widths :=
      wrapColumns_length hs fun x hx => hw x (List.mem_cons_of_mem _ hx)
    simp only [wrapColumns, bordered, List.length_cons, List.length_append, cellColumns_length, ih]
    omega

theorem wrapColumns_oneColumn : ∀ {widths ps}, PrintableEntries widths ps →
    ∀ col ∈ wrapColumns glifs widths ps, OneColumn glifs col
  | _, _, .nil => fun _ h => absurd h (List.not_mem_nil _)
  | _ :: _, _ :: _, .cons hp hs => by
    intro col hcol
    simp only [wrapColumns, List.cons_append, List.mem_cons, List.mem_append] at hcol
    rcases hcol with rfl | rfl | h | rfl | h
    · exact oneColumn_glyph (by simp [BorderGlifs.glyphs])
    · split
      · exact oneColumn_glyph (by simp [BorderGlifs.glyphs])
      · exact oneColumn_space
    · exact cellColumns_oneColumn hp _ col h
    · split
      · exact oneColumn_space
      · exact oneColumn_glyph (by simp [BorderGlifs.glyphs])
    · exact wrapColumns_oneColumn hs col h

theorem wrapLine_tableLine {widths : List Nat} (hw : ∀ x ∈ widths, 2 ≤ x) (undersize : Bool)
    {ps : List (List UInt8)} (hp : PrintableEntries widths ps) :
    TableLine glifs (lineWidth widths undersize) (wrapLine glifs undersize widths ps) := by
  refine ⟨?_, fun col hcol => ?_⟩
  · cases undersize <;> simp [wrapLine, lineWidth, wrapColumns_length hp hw]
  · simp only [wrapLine, List.mem_append, List.mem_cons] at hcol
    rcases hcol with h | rfl | h
    · exact wrapColumns_oneColumn hp col h
    · exact oneColumn_glyph (by simp [BorderGlifs.glyphs])
    · split at h
      · rw [List.mem_singleton.mp h]; exact oneColumn_glyph (by simp [BorderGlifs.glyphs])
      · exact absurd h (List.not_mem_nil _)

theorem wrapLines_tableLine {widths : List Nat} (hw : ∀ x ∈ widths, 2 ≤ x) (undersize : Bool) :
    ∀ fuel {ps}, PrintableEntries widths ps →
      ∀ line ∈ wrapLines glifs undersize widths fuel ps,
        TableLine glifs (lineWidth widths undersize) line
  | 0, _, _ => fun _ h => absurd h (List.not_mem_nil _)
  | fuel + 1, _, hp => by
    intro line hline
    simp only [wrapLines, List.mem_cons] at hline
    rcases hline with rfl | h
    · exact wrapLine_tableLine hw undersize hp
    · split at h
      · exact wrapLines_tableLine hw undersize fuel (PrintableEntries.wrapRest hp) line h
      · exact absurd h (List.not_mem_nil _)

/-- Every line of a wrapped row is as wide as the rules. -/
theorem wrappedRow_tableLine {widths : List Nat} (hw : ∀ x ∈ widths, 2 ≤ x) (undersize : Bool)
    {text : Nat → List UInt8} (ht : ∀ j, Printable (text j)) :
    ∀ line ∈ wrappedRow glifs undersize widths text,
      TableLine glifs (lineWidth widths undersize) line := by
  intro line hline
  simp only [wrappedRow, List.mem_cons] at hline
  rcases hline with rfl | h
  · exact rowLine_tableLine hw undersize ht
  · split at h
    · exact wrapLines_tableLine hw undersize _
        (PrintableEntries.firstRest (printableEntries_columnTexts ht 0 widths)) line h
    · exact absurd h (List.not_mem_nil _)

theorem wrappedBody_tableLine {widths : List Nat} (hw : ∀ x ∈ widths, 2 ≤ x)
    (undersize rowLines : Bool) :
    ∀ {rows : List (Nat → List UInt8)}, (∀ text ∈ rows, ∀ j, Printable (text j)) →
      ∀ line ∈ wrappedBody glifs undersize rowLines widths rows,
        TableLine glifs (lineWidth widths undersize) line
  | [], _ => fun _ h => absurd h (List.not_mem_nil _)
  | text :: texts, hr => by
    intro line hline
    simp only [wrappedBody, List.mem_append, List.mem_flatMap] at hline
    rcases hline with h | ⟨text', ht', h | h⟩
    · exact wrappedRow_tableLine hw undersize (hr text (List.mem_cons_self _ _)) line h
    · split at h
      · rw [List.mem_singleton.mp h]; exact ruleLine_tableLine widths _ undersize
      · exact absurd h (List.not_mem_nil _)
    · exact wrappedRow_tableLine hw undersize (hr text' (List.mem_cons_of_mem _ ht')) line h

end Width

/-- Every line of the wrapped table is `k * (cw + 1) + 1` columns wide, one more with the
undersize marker. -/
theorem wrappedLayout_tableLine {env : Env} {results : ResultStream} {width : Nat}
    {flags : RenderFlags} (hnames : ∀ name ∈ results.fieldnames, Printable name.1)
    (hvalues : ∀ row ∈ results.rows, ∀ v ∈ row, Printable (cellText flags v)) {k cw : Nat}
    {u : Bool} (hfit : fitColumns width results.nfields (columnWidthFor width results.nfields) false =
      (k, cw, u)) :
    ∀ line ∈ wrappedLayout env results width flags,
      TableLine (glifsForEncoding (normalizeRenderFlags env.codeset flags))
        (k * (cw + 1) + 1 + if u then 1 else 0) line := by
  intro line hline
  unfold wrappedLayout at hline
  split_ifs at hline
  · exact absurd hline (List.not_mem_nil _)
  simp only [hfit, List.cons_append, List.mem_cons, List.mem_append, List.mem_singleton,
    List.not_mem_nil, or_false] at hline
  have hw := fitColumns_widths hfit
  rw [← bordered_replicate, ← lineWidth]
  rcases hline with rfl | (h | rfl | h) | rfl
  · exact ruleLine_tableLine _ _ u
  · exact wrappedRow_tableLine hw u (fieldname_printable hnames) line h
  · exact ruleLine_tableLine _ _ u
  · refine wrappedBody_tableLine hw u _ (fun text htext j => ?_) line h
    obtain ⟨row, hrow, rfl⟩ := List.mem_map.mp htext
    exact rowText_printable (hvalues row hrow) env.codeset j
  · exact ruleLine_tableLine _ _ u

/-! ### The bytes of a row -/

section Bytes

variable (glifs : BorderGlifs) (undersize : Bool) (o : List UInt8)

/-- The bytes of a line that ends as rows and continuation lines end. -/
theorem lineBytes_ending (cols : List (List UInt8)) :
    o ++ lineBytes (cols ++ glifs.verticalLine.1 :: (if undersize then [glifs.overflow.1] else [])) =
      o ++ cols.flatten ++ glifs.verticalLine.1 ++ (if undersize then glifs.overflow.1 else []) ++
        [0x0A] := by
  cases undersize <;> simp [lineBytes]

theorem wrapColumns_cons_append (width : Nat) (widths : List Nat) (p : List UInt8)
    (ps : List (List UInt8)) :
    o ++ (wrapColumns glifs (width :: widths) (p :: ps)).flatten =
      o ++ glifs.verticalLine.1 ++ (if 0 < p.length then glifs.overflow else space).1 ++
        (cellColumns (width - 2) p).flatten ++
        (if p.length ≤ width - 2 then [0x20] else glifs.overflow.1) ++
          (wrapColumns glifs widths ps).flatten := by
  simp [wrapColumns]

theorem wrapLines_succ_append (widths : List Nat) (fuel : Nat) (ps : List (List UInt8)) :
    o ++ (wrapLines glifs undersize widths (fuel + 1) ps).flatMap lineBytes =
      o ++ (wrapColumns glifs widths ps).flatten ++ glifs.verticalLine.1 ++
        (if undersize then glifs.overflow.1 else []) ++ [0x0A] ++
        (if overflows widths ps then
          (wrapLines glifs undersize widths fuel (wrapRest widths ps)).flatMap lineBytes
        else []) := by
  rw [wrapLines, List.flatMap_cons, ← List.append_assoc, wrapLine, lineBytes_ending]
  split_ifs <;> rfl

theorem wrappedRow_append (widths : List Nat) (text : Nat → List UInt8) :
    o ++ (wrappedRow glifs undersize widths text).flatMap lineBytes =
      o ++ (rowColumns glifs text 0 widths).flatten ++ glifs.verticalLine.1 ++
        (if undersize then glifs.overflow.1 else []) ++ [0x0A] ++
        (if overflows widths (columnTexts text 0 widths) then
          (wrapLines glifs undersize widths
            (spill widths (firstRest widths (columnTexts text 0 widths)) + 1)
            (firstRest widths (columnTexts text 0 widths))).flatMap lineBytes
        else []) := by
  rw [wrappedRow, List.flatMap_cons, ← List.append_assoc, rowLine, lineBytes_ending]
  split_ifs <;> rfl

end Bytes

/-! ### The entries of a row -/

/-- A `fields` entry that holds `t`: its `n` bytes are `t`, in memory of its own. -/
def Holds (p : Pending) (t : List UInt8) : Prop :=
  ∃ rest, p.src = .stable (t ++ rest) ∧ p.n = t.length

/-- The `fields` entries of a row against the texts they hold, printable, in cells at least
one column wide. -/
inductive Carries : List Nat → List Pending → List (List UInt8) → Prop
  | nil : Carries [] [] []
  | cons {width : Nat} {p : Pending} {t : List UInt8} {widths : List Nat} {ps : List Pending}
      {ts : List (List UInt8)} : 3 ≤ width → Printable t → Holds p t → Carries widths ps ts →
      Carries (width :: widths) (p :: ps) (t :: ts)

theorem Carries.widths : ∀ {widths ps ts}, Carries widths ps ts → ∀ x ∈ widths, 3 ≤ x
  | _, _, _, .nil => fun _ h => absurd h (List.not_mem_nil _)
  | _, _, _, .cons h3 _ _ hc => fun x hx => by
    rcases List.mem_cons.mp hx with rfl | hx
    · exact h3
    · exact hc.widths x hx

theorem holds_empty : Holds Pending.empty [] := ⟨[], rfl, rfl⟩

/-- What a text in memory of its own has beyond its first `k` bytes. -/
theorem holds_advance {t rest : List UInt8} {k : Nat} (hk : k ≤ t.length) :
    Holds ⟨(Src.stable (t ++ rest)).advance k, t.length - k⟩ (t.drop k) :=
  ⟨rest, by simp only [Src.advance, List.drop_append_of_le_length hk], by simp⟩

section Draw

variable {c : Nat} {E : Err → World → Prop}

theorem orFail_fwrite_drawn_read (bytes o : List UInt8) (s : Src) (mem : List UInt8) :
    Triple (fun w => s.read w = mem ∧ Drawn c o w) (orFail (fwrite bytes))
      (fun _ w => s.read w = mem ∧ Drawn c (o ++ bytes) w) E :=
  (((orFail_fwrite_records bytes).read s mem).and (orFail_fwrite_drawn bytes o)).conseq
    (fun _ => id) (fun _ _ => id) fun _ _ h => h.2

/-- `render_field` on printable text draws its cell and leaves a text pointer reading what it
read. -/
theorem renderField_drawn_read {env : Env} (henv : env.NarrowAscii) (flags : RenderFlags)
    {text : List UInt8} (ht : Printable text) (rest : List UInt8) (width : Nat) (o : List UInt8)
    (s : Src) (mem : List UInt8) :
    Triple (fun w => s.read w = mem ∧ Drawn c o w)
      (renderField env (text ++ rest) text.length width flags)
      (fun r w => r = min text.length width ∧ s.read w = mem ∧
        Drawn c (o ++ (cellColumns width text).flatten) w) E :=
  (((renderField_records env _ _ _ flags).read s mem).and
    (renderField_drawn henv flags ht rest width o)).conseq (fun _ => id)
      (fun _ _ h => ⟨h.2.1, h.1, h.2.2⟩) fun _ _ h => h.2

/-- **`keepRest` holds what a text has beyond the bytes consumed**: a transient text's `memdup`
copy, taken before anything else is written to the buffer, or the text where it is. -/
theorem keepRest_holds {f : FieldText} {t rest : List UInt8} {k : Nat} (hk : k ≤ t.length)
    (hn : f.n = t.length) (hdup : f.duplicate = false → ∃ mem, f.src = .stable mem)
    (o : List UInt8) :
    Triple (fun w => f.src.read w = t ++ rest ∧ Drawn c o w) (keepRest f k)
      (fun q w => Holds q (t.drop k) ∧ Drawn c o w) E := by
  unfold keepRest
  rw [hn]
  by_cases hd : f.duplicate = true
  · rw [if_pos hd]
    refine ((readSrc_spec (Q := fun mem w => mem = (t ++ rest).drop k ∧ Drawn c o w) _).pre
      fun _ h => ⟨by rw [Src.read_advance, h.1], h.2⟩).bind fun mem => Triple.prop fun hm =>
        (orFail_attempt_drawn (.inr rfl) o).bind fun _ => Triple.pure fun _ hw => ⟨⟨[], ?_, by simp⟩, hw⟩
    subst hm
    rw [List.drop_append_of_le_length hk, List.take_left' (by simp), List.append_nil]
  · rw [if_neg hd]
    obtain ⟨mem, hmem⟩ := hdup (by simpa using hd)
    refine Triple.pure fun _ hw => ?_
    have hread := hw.1
    rw [hmem] at hread ⊢
    subst hread
    exact ⟨holds_advance hk, hw.2⟩

variable {env : Env} (henv : env.NarrowAscii) (flags : RenderFlags) (glifs : BorderGlifs)
include henv

/-- **One turn of `while (wrap)` draws the continuation line of its entries**, and leaves
what `wrapRest` says, asking for another line when a column overflows. -/
theorem renderRowWrapLine_draws {widths ps ts} (hc : Carries widths ps ts) (o : List UInt8) :
    Triple (Drawn c o) (renderRowWrapLine env flags glifs widths ps)
      (fun r w => r.2 = overflows widths ts ∧ Carries widths r.1 (wrapRest widths ts) ∧
        Drawn c (o ++ (wrapColumns glifs widths ts).flatten) w) E := by
  induction hc generalizing o with
  | nil => exact Triple.pure fun _ hw => ⟨rfl, .nil, by simpa [wrapColumns] using hw⟩
  | @cons width p t widths ps ts h3 ht hholds _ ih =>
    obtain ⟨rest, hsrc, hn⟩ := hholds
    rw [renderRowWrapLine, if_neg (show width ≠ 0 by omega), cAssert_of_true (by omega : 2 ≤ width),
      pure_bind, wrapColumns_cons_append, hn]
    refine (orFail_fwrite_drawn _ o).bind fun _ => (orFail_fwrite_drawn _ _).bind fun _ => ?_
    rw [hsrc]
    refine ((readSrc_spec (Q := fun mem w => mem = t ++ rest ∧ Drawn c _ w)
      (.stable (t ++ rest))).pre fun _ h => ⟨rfl, h⟩).bind fun mem => Triple.prop fun hmem => ?_
    subst hmem
    refine (renderField_drawn henv flags ht rest (width - 2) _).bind fun consumed =>
      Triple.prop fun hc' => ?_
    subst hc'
    refine Triple.bind (Q := fun p' w => ((p' = none ∧ t.length ≤ width - 2) ∨
      (p' = some ⟨(Src.stable (t ++ rest)).advance (width - 2), t.length - (width - 2)⟩ ∧
        width - 2 < t.length)) ∧
      Drawn c (o ++ glifs.verticalLine.1 ++ (if 0 < t.length then glifs.overflow else space).1 ++
        (cellColumns (width - 2) t).flatten ++
        if t.length ≤ width - 2 then [0x20] else glifs.overflow.1) w) ?_
      fun p' => Triple.prop fun hp' => ?_
    · by_cases hfit : t.length ≤ width - 2
      · rw [if_pos (show t.length ≤ min t.length (width - 2) by omega), if_pos hfit]
        exact (orFail_fwrite_drawn _ _).bind fun _ => Triple.pure fun _ hw => ⟨.inl ⟨rfl, hfit⟩, hw⟩
      · rw [if_neg (show ¬t.length ≤ min t.length (width - 2) by omega), if_neg hfit,
          Nat.min_eq_right (by omega)]
        exact (orFail_fwrite_drawn _ _).bind fun _ =>
          Triple.pure fun _ hw => ⟨.inr ⟨rfl, by omega⟩, hw⟩
    · refine (ih _).bind fun ⟨ps', wrap⟩ => Triple.prop fun hwrap =>
        Triple.prop fun hcar => Triple.pure fun _ hw => ⟨?_, ?_, hw⟩
      · dsimp only at hwrap ⊢
        rcases hp' with ⟨rfl, hfit⟩ | ⟨rfl, hover⟩
        · simp [overflows, hwrap, Nat.not_lt.mpr hfit]
        · simp [overflows, hover]
      · rcases hp' with ⟨rfl, hfit⟩ | ⟨rfl, hover⟩
        · rw [wrapRest, if_pos hfit]
          exact .cons h3 ht ⟨rest, hsrc, hn⟩ hcar
        · rw [wrapRest, if_neg (by omega)]
          exact .cons h3 (ht.drop _) (holds_advance (by omega)) hcar

/-- **The continuation loop draws the continuation lines**, given fuel beyond what the entries
have left. -/
theorem renderRowWrap_draws (undersize : Bool) : ∀ fuel {widths ps ts}, Carries widths ps ts →
    spill widths ts < fuel → ∀ o,
    Triple (Drawn c o) (renderRowWrap env flags glifs widths undersize fuel ps)
      (fun _ => Drawn c (o ++ (wrapLines glifs undersize widths fuel ts).flatMap lineBytes)) E
  | 0, _, _, _, _, h, _ => absurd h (Nat.not_lt_zero _)
  | fuel + 1, widths, ps, ts, hc, h, o => by
    rw [renderRowWrap, wrapLines_succ_append]
    refine (renderRowWrapLine_draws henv flags glifs hc o).bind fun ⟨ps', wrap⟩ =>
      Triple.prop fun hwrap => Triple.prop fun hc' => (renderRowEnd_drawn _ _ _).bind fun _ => ?_
    dsimp only at hwrap ⊢
    rw [hwrap]
    by_cases hov : overflows widths ts = true
    · rw [if_pos hov, if_pos hov]
      have := spill_wrapRest ts hc.widths
      have := overflows_iff_spill.mp hov
      exact renderRowWrap_draws undersize fuel hc' (by omega) _
    · rw [if_neg hov, if_neg hov]
      exact Triple.pure fun _ hw => by rwa [List.append_nil]

end Draw

/-! ### A row -/

section Rows

variable {c : Nat} {E : Err → World → Prop} {env : Env} (henv : env.NarrowAscii)
  {flags : RenderFlags} (hwrap : flags.wrapValues = true) (glifs : BorderGlifs)
  {callback : Nat → RenderM FieldText} {text : Nat → List UInt8} (ht : ∀ j, Printable (text j))
include henv hwrap ht

/-- **The first line of a row with wrapped values** draws the row's first line as `rowLine`
has it, asks for more when a text overflows, and leaves in every entry what its text has
beyond its cell. -/
theorem renderRowFirst_wraps : ∀ i widths o, (∀ x ∈ widths, 3 ≤ x) →
    (widths ≠ [] → Hands c E callback text ∧ Unstaged callback) →
    Triple (Drawn c o) (renderRowFirst env flags glifs (some callback) i widths)
      (fun r w => r.2 = overflows widths (columnTexts text i widths) ∧
        Carries widths r.1 (firstRest widths (columnTexts text i widths)) ∧
        Drawn c (o ++ (rowColumns glifs text i widths).flatten) w) E
  | _, [], _, _, _ => Triple.pure fun _ hw =>
    ⟨rfl, .nil, by rwa [rowColumns, List.flatten_nil, List.append_nil]⟩
  | i, width :: widths, o, hw, hcb => by
    have h3 := hw width (List.mem_cons_self _ _)
    have hrest := fun o => renderRowFirst_wraps (i + 1) widths o
      (fun x hx => hw x (List.mem_cons_of_mem _ hx)) fun _ => hcb (List.cons_ne_nil _ _)
    obtain ⟨hhands, hown⟩ := hcb (List.cons_ne_nil _ _)
    rw [renderRowFirst, if_neg (show width ≠ 0 by omega), rowColumns_cons_append]
    refine (orFail_fwrite_drawn _ o).bind fun _ => (orFail_fwrite_drawn _ _).bind fun _ => ?_
    rw [cAssert_of_true (by omega : 2 ≤ width), pure_bind]
    refine (hhands.unstaged hown i _).bind fun f => Triple.prop fun hn => Triple.prop
      fun hdup => Triple.exists_pre fun rest => ?_
    refine ((readSrc_spec (Q := fun mem w => mem = text i ++ rest ∧
      f.src.read w = text i ++ rest ∧ Drawn c _ w) f.src).pre fun _ h => ⟨h.1, h⟩).bind
        fun mem => Triple.prop fun hmem => ?_
    subst hmem
    rw [hn]
    refine (renderField_drawn_read henv flags (ht i) rest (width - 2) _ f.src _).bind
      fun consumed => Triple.prop fun hc => ?_
    subst hc
    refine Triple.bind (Q := fun p w => ((p = none ∧ (text i).length ≤ width - 2) ∨
      (∃ q, p = some q ∧ Holds q ((text i).drop (width - 2)) ∧ width - 2 < (text i).length)) ∧
      Drawn c (o ++ glifs.verticalLine.1 ++ [0x20] ++ (cellColumns (width - 2) (text i)).flatten ++
        if (text i).length ≤ width - 2 then [0x20] else glifs.overflow.1) w) ?_
      fun p => Triple.prop fun hp => ?_
    · by_cases hfit : (text i).length ≤ width - 2
      · rw [if_pos (show (text i).length ≤ min (text i).length (width - 2) by omega), if_pos hfit]
        exact ((orFail_fwrite_drawn _ _).pre fun _ h => h.2).bind fun _ =>
          Triple.pure fun _ hw => ⟨.inl ⟨rfl, hfit⟩, hw⟩
      · rw [if_neg (show ¬(text i).length ≤ min (text i).length (width - 2) by omega),
          if_neg hfit, Nat.min_eq_right (by omega), hwrap, if_pos rfl]
        exact (orFail_fwrite_drawn_read _ _ f.src _).bind fun _ => Triple.map <|
          (keepRest_holds (by omega) hn hdup _).conseq (fun _ => id)
            (fun q _ h => ⟨.inr ⟨q, rfl, h.1, by omega⟩, h.2⟩) fun _ _ => id
    · refine (hrest _).bind fun ⟨ps, wrap⟩ => Triple.prop fun hwr => Triple.prop fun hcar =>
        Triple.pure fun _ hw => ⟨?_, ?_, hw⟩
      · dsimp only at hwr ⊢
        rcases hp with ⟨rfl, hfit⟩ | ⟨q, rfl, -, hover⟩
        · simp [columnTexts, overflows, hwr, Nat.not_lt.mpr hfit]
        · simp [columnTexts, overflows, hover]
      · rw [columnTexts, firstRest]
        rcases hp with ⟨rfl, hfit⟩ | ⟨q, rfl, hq, -⟩
        · refine .cons h3 ((ht i).drop _) ?_ hcar
          rw [List.drop_eq_nil_of_le hfit]
          exact holds_empty
        · exact .cons h3 ((ht i).drop _) hq hcar

/-- **`render_row` with wrapped values draws `wrappedRow`**, given fuel beyond every text. -/
theorem renderRow_wraps {fuel B : Nat} (hB : ∀ j, (text j).length ≤ B) (hfuel : B < fuel)
    {widths : List Nat} (hw : ∀ x ∈ widths, 3 ≤ x) (undersize : Bool)
    (hcb : widths ≠ [] → Hands c E callback text ∧ Unstaged callback) (o : List UInt8) :
    Triple (Drawn c o) (renderRow env fuel widths undersize flags (some callback))
      (fun _ => Drawn c (o ++
        (wrappedRow (glifsForEncoding flags) undersize widths text).flatMap lineBytes)) E := by
  unfold renderRow
  rw [hwrap, if_pos rfl, wrappedRow_append]
  refine (orFail_attempt_drawn (.inr rfl) o).bind fun _ =>
    (renderRowFirst_wraps henv hwrap _ ht 0 widths o hw hcb).bind fun ⟨fields, wrap⟩ =>
      Triple.prop fun hwr => Triple.prop fun hcar => (renderRowEnd_drawn _ _ _).bind fun _ => ?_
  dsimp only at hwr hcar ⊢
  rw [hwr]
  by_cases hov : overflows widths (columnTexts text 0 widths) = true
  · rw [if_pos hov, if_pos hov]
    have := spill_firstRest text hB 0 widths
    rw [wrapLines_fuel _ undersize hw _ fuel (by omega) (by omega)]
    exact renderRowWrap_draws henv flags _ undersize fuel hcar (by omega) _
  · rw [if_neg hov, if_neg hov]
    exact Triple.pure fun _ hw => by rwa [List.append_nil]

end Rows

section Table

variable {c : Nat} {E : Err → World → Prop} {env : Env} (henv : env.NarrowAscii) {fuel : Nat}
  (hfuel : 2 ≤ fuel) {flags : RenderFlags} (hwrap : flags.wrapValues = true) {widths : List Nat}
  (hw : ∀ x ∈ widths, 3 ≤ x) (hc : widths ≠ [] → 0 < c) (undersize : Bool)
include henv hfuel hwrap hw hc

/-- The body rows after the first: each after a middle rule when `rowLines`. -/
theorem renderTableRows_rest_wraps : ∀ rows o,
    (∀ row ∈ rows, ∀ j, Printable (rowText flags row j) ∧ (rowText flags row j).length < fuel) →
    Triple (Drawn c o) (renderTableRows env fuel widths undersize flags false rows)
      (fun _ => Drawn c (o ++ ((rows.map (rowText flags)).flatMap fun text =>
        (if flags.rowLines then [ruleLine (glifsForEncoding flags) .middle undersize widths]
          else []) ++ wrappedRow (glifsForEncoding flags) undersize widths text).flatMap
            lineBytes)) E
  | [], _, _ => Triple.pure fun _ hw => by simpa using hw
  | row :: rows, o, hr => by
    have heq : o ++ (((row :: rows).map (rowText flags)).flatMap fun text =>
        (if flags.rowLines then [ruleLine (glifsForEncoding flags) .middle undersize widths]
          else []) ++ wrappedRow (glifsForEncoding flags) undersize widths text).flatMap
            lineBytes =
        o ++ (if flags.rowLines then
            lineBytes (ruleLine (glifsForEncoding flags) .middle undersize widths) else []) ++
          (wrappedRow (glifsForEncoding flags) undersize widths (rowText flags row)).flatMap
            lineBytes ++
          ((rows.map (rowText flags)).flatMap fun text =>
            (if flags.rowLines then [ruleLine (glifsForEncoding flags) .middle undersize widths]
              else []) ++ wrappedRow (glifsForEncoding flags) undersize widths text).flatMap
                lineBytes := by
      cases flags.rowLines <;> simp
    have hrow := hr row (List.mem_cons_self _ _)
    rw [renderTableRows, heq]
    refine Triple.bind (Q := fun _ => Drawn c (o ++ if flags.rowLines then
        lineBytes (ruleLine (glifsForEncoding flags) .middle undersize widths) else []))
      (Triple.ite (fun h => ?_) fun h => ?_) fun _ =>
        (renderRow_wraps henv hwrap (fun j => (hrow j).1) (B := fuel - 1)
          (fun j => by have := (hrow j).2; omega) (by omega) hw undersize
          (fun hne => ⟨obtainResultField_hands hfuel (hc hne) flags row,
            obtainResultField_unstaged fuel flags row⟩) _).bind fun _ =>
        renderTableRows_rest_wraps rows _ fun r hr' => hr r (List.mem_cons_of_mem _ hr')
    · rw [if_pos h.2]
      exact renderHrule_drawn (fun x hx => by have := hw x hx; omega) _ _ _ _
    · rw [if_neg fun h' => h ⟨rfl, h'⟩]
      exact Triple.pure fun _ hw => by rwa [List.append_nil]

/-- `neo4j_render_table`'s loop over the rows draws the wrapped body. -/
theorem renderTableRows_wraps (rows : List (List Value)) (o : List UInt8)
    (hr : ∀ row ∈ rows, ∀ j, Printable (rowText flags row j) ∧ (rowText flags row j).length < fuel) :
    Triple (Drawn c o) (renderTableRows env fuel widths undersize flags true rows)
      (fun _ => Drawn c (o ++ (wrappedBody (glifsForEncoding flags) undersize flags.rowLines widths
        (rows.map (rowText flags))).flatMap lineBytes)) E := by
  cases rows with
  | nil => exact Triple.pure fun _ hw => by simpa [wrappedBody] using hw
  | cons row rows =>
    have hrow := hr row (List.mem_cons_self _ _)
    rw [renderTableRows]
    simp only [List.map_cons, wrappedBody, List.flatMap_append, ← List.append_assoc]
    exact Triple.bind (Triple.ite (fun h => absurd h.1 (by decide))
      fun _ => Triple.pure (Q := fun _ => Drawn c o) fun _ => id) fun _ =>
        (renderRow_wraps henv hwrap (fun j => (hrow j).1) (B := fuel - 1)
          (fun j => by have := (hrow j).2; omega) (by omega) hw undersize
          (fun hne => ⟨obtainResultField_hands hfuel (hc hne) flags row,
            obtainResultField_unstaged fuel flags row⟩) _).bind fun _ =>
        renderTableRows_rest_wraps henv hfuel hwrap hw hc undersize rows _
          fun r hr' => hr r (List.mem_cons_of_mem _ hr')

end Table

theorem wrappedLines_append (glifs : BorderGlifs) (undersize rowLines : Bool) (widths : List Nat)
    (names : Nat → List UInt8) (rows : List (Nat → List UInt8)) (o : List UInt8) :
    o ++ (ruleLine glifs .top undersize widths :: wrappedRow glifs undersize widths names ++
      ruleLine glifs .head undersize widths :: wrappedBody glifs undersize rowLines widths rows ++
      [ruleLine glifs .bottom undersize widths]).flatMap lineBytes =
      o ++ lineBytes (ruleLine glifs .top undersize widths) ++
        (wrappedRow glifs undersize widths names).flatMap lineBytes ++
        lineBytes (ruleLine glifs .head undersize widths) ++
        (wrappedBody glifs undersize rowLines widths rows).flatMap lineBytes ++
        lineBytes (ruleLine glifs .bottom undersize widths) := by
  simp

/-- `neo4j_render_table` with wrapped values draws `wrappedLayout`, line after line. -/
theorem renderTable_wraps {env : Env} {fuel : Nat} {results : ResultStream} {width : Nat}
    {flags : RenderFlags} (hd : Drawable env fuel results width flags)
    (hwrap : flags.wrapValues = true) {k cw : Nat} {u : Bool}
    (hfit : fitColumns width results.nfields (columnWidthFor width results.nfields) false =
      (k, cw, u)) (hroom : k = 0 ∨ 3 ≤ cw)
    (hnames : ∀ name ∈ results.fieldnames, name.1.length < fuel)
    (hvalues : ∀ row ∈ results.rows, ∀ v ∈ row, (cellText flags v).length < fuel)
    (o : List UInt8) {E : Err → World → Prop} :
    Triple (Drawn 0 o) (renderTable env fuel results width flags)
      (fun _ => Drawn 0 (o ++ (wrappedLayout env results width flags).flatMap lineBytes)) E := by
  have hw := fitColumns_room hfit hroom
  have hw0 : ∀ x ∈ List.replicate k cw, x ≠ 0 := fun x hx => by have := hw x hx; omega
  have hcap : List.replicate k cw ≠ [] → 0 < cw := fun hne => by
    rcases hroom with rfl | h
    · exact absurd rfl hne
    · omega
  have hlen (j : Nat) : (results.fieldname j).length ≤ fuel - 1 :=
    forall_getD (P := fun name : CString => name.1.length ≤ fuel - 1) (Nat.zero_le _)
      (fun name h => by have := hnames name h; omega) j
  have hrows : ∀ row ∈ results.rows, ∀ j,
      Printable (rowText (normalizeRenderFlags env.codeset flags) row j) ∧
        (rowText (normalizeRenderFlags env.codeset flags) row j).length < fuel :=
    fun row hrow j => ⟨rowText_printable (hd.values row hrow) env.codeset j, by
      rw [rowText_normalize]
      exact forall_getD (P := fun v => (cellText flags v).length < fuel)
        (by show (cellText flags default).length < fuel; rw [cellText_default]; have := hd.fuel
            simp only [List.length_nil]; omega)
        (hvalues row hrow) j⟩
  have hwrap' : (normalizeRenderFlags env.codeset flags).wrapValues = true := by
    rw [normalizeRenderFlags_wrapValues]; exact hwrap
  unfold renderTable wrappedLayout
  rw [require_of_true hd.width, pure_bind]
  refine (checkResults_drawn hd.failure o).bind fun _ => ?_
  by_cases hn : results.nfields = 0
  · rw [if_pos hn, if_pos hn]
    exact Triple.pure fun _ hw => by simpa using hw
  rw [if_neg hn, if_neg hn]
  dsimp only
  rw [hfit]
  dsimp only
  rw [cAssert_of_true (fitColumns_wide hfit).symm, pure_bind, wrappedLines_append]
  refine (Triple.ite (fun _ => orFail_attempt_drawn (.inr rfl) o)
    fun _ => Triple.pure (Q := fun _ => Drawn 0 o) fun _ => id).bind fun _ => ?_
  refine Triple.bind ?_ fun _ => orFail_attempt_drawn (.inl rfl) _
  refine Triple.onFailure (F := fun _ _ => False) ?_ (fun _ h => h.elim) fun _ _ _ h => h.elim
  refine ((newBuffer_spec (Q := fun _ => Drawn cw o) cw).pre fun _ hw => ⟨hw.1, le_rfl⟩).bind
    fun _ => Triple.conseq ?_ (fun _ => id) (fun _ w (h : Drawn cw _ w) => ⟨h.1, Nat.zero_le _⟩)
      fun _ _ => id
  exact (Triple.ite (fun _ => orFail_attempt_drawn (.inr rfl) o)
    fun _ => Triple.pure (Q := fun _ => Drawn cw o) fun _ => id).bind fun _ =>
    (renderHrule_drawn hw0 _ _ _ _).bind fun _ =>
    (renderRow_wraps hd.narrow hwrap' (fieldname_printable hd.names) hlen
      (by have := hd.fuel; omega) hw u
      (fun _ => ⟨obtainFieldname_hands results, obtainFieldname_unstaged results⟩) _).bind fun _ =>
    (renderHrule_drawn hw0 _ _ _ _).bind fun _ =>
    (renderTableRows_wraps hd.narrow hd.fuel hwrap' hw hcap u _ _ hrows).bind fun _ =>
    (checkResults_drawn hd.failureAtEnd _).bind fun _ => renderHrule_drawn hw0 _ _ _ _

/-! ### The table over a whole run -/

/-- **On a reliable stream, `neo4j_render_table` with wrapped values writes exactly its
layout**: the rules, and every row, the names' included, as `wrappedRow` draws it, its first
line and as many continuation lines as its longest text needs, given cells at least one
column wide, printable text and fuel beyond the longest text. -/
theorem renderTable_draws_wrapped {env : Env} {fuel : Nat} {results : ResultStream}
    {width : Nat} {flags : RenderFlags} (hd : Drawable env fuel results width flags)
    (hwrap : flags.wrapValues = true) {k cw : Nat} {u : Bool}
    (hfit : fitColumns width results.nfields (columnWidthFor width results.nfields) false =
      (k, cw, u)) (hroom : k = 0 ∨ 3 ≤ cw)
    (hnames : ∀ name ∈ results.fieldnames, name.1.length < fuel)
    (hvalues : ∀ row ∈ results.rows, ∀ v ∈ row, (cellText flags v).length < fuel)
    {w : World} (hw : w.Reliable) :
    ∃ w', renderTable env fuel results width flags w = .ok () w' ∧
      w'.out = w.out ++ (wrappedLayout env results width flags).flatMap lineBytes := by
  obtain ⟨⟨⟩, w', hrun, hw'⟩ := (renderTable_wraps hd hwrap hfit hroom hnames hvalues w.out
    (E := fun _ _ => False)).ok_of ⟨⟨hw, rfl⟩, Nat.zero_le _⟩
  exact ⟨w', hrun, hw'.1.2⟩

/-- The stream in ten columns, wrapping: cells one column wide.  `name` takes four lines;
`id` ends on the second and shows its `d` again on the two after. -/
theorem renderTable_draws_wrapped_ada :
    Drawable Env.utf8Terminal 5 adaResults 10 wrapFlags ∧ wrapFlags.wrapValues = true ∧
      fitColumns 10 adaResults.nfields (columnWidthFor 10 adaResults.nfields) false =
        (2, 3, false) ∧ (2 = 0 ∨ 3 ≤ 3) ∧
      (∀ name ∈ adaResults.fieldnames, name.1.length < 5) ∧
      (∀ row ∈ adaResults.rows, ∀ v ∈ row, (cellText wrapFlags v).length < 5) ∧
      (wrappedLayout Env.utf8Terminal adaResults 10 wrapFlags).flatMap lineBytes =
        bytesOf ("+---+---+\n| i=| n=|\n|=d |=a=|\n|=d |=m=|\n|=d |=e |\n+---+---+\n" ++
          "| 1 | A=|\n|   |=d=|\n|   |=a |\n+---+---+\n") ∧
      ∃ w', renderTable Env.utf8Terminal 5 adaResults 10 wrapFlags World.init = .ok () w' ∧
        w'.out = World.init.out ++
          (wrappedLayout Env.utf8Terminal adaResults 10 wrapFlags).flatMap lineBytes :=
  have hd : Drawable Env.utf8Terminal 5 adaResults 10 wrapFlags :=
    ⟨Env.utf8Terminal_narrowAscii, by decide, rfl, rfl, by decide, by decide, by decide⟩
  ⟨hd, rfl, rfl, .inr le_rfl, by decide, by decide, rfl,
    renderTable_draws_wrapped hd rfl rfl (.inr le_rfl) (by decide) (by decide) fun _ => rfl⟩

/-- **Every line `neo4j_render_table` writes with wrapped values is as wide as its rules**,
`k * (cw + 1) + 1` columns and one more with the undersize marker, continuation lines
included: every cell is opened and closed by one glyph or a space. -/
theorem renderTable_wrapped_rectangular {env : Env} {fuel : Nat} {results : ResultStream}
    {width : Nat} {flags : RenderFlags} (hd : Drawable env fuel results width flags)
    (hwrap : flags.wrapValues = true) {k cw : Nat} {u : Bool}
    (hfit : fitColumns width results.nfields (columnWidthFor width results.nfields) false =
      (k, cw, u)) (hroom : k = 0 ∨ 3 ≤ cw)
    (hnames : ∀ name ∈ results.fieldnames, name.1.length < fuel)
    (hvalues : ∀ row ∈ results.rows, ∀ v ∈ row, (cellText flags v).length < fuel)
    {w : World} (hw : w.Reliable) :
    ∃ (w' : World) (lines : List (List (List UInt8))),
      renderTable env fuel results width flags w = .ok () w' ∧
      w'.out = w.out ++ lines.flatMap lineBytes ∧
      ∀ line ∈ lines, TableLine (glifsForEncoding (normalizeRenderFlags env.codeset flags))
        (k * (cw + 1) + 1 + if u then 1 else 0) line := by
  obtain ⟨⟨⟩, w', hrun, hw'⟩ := (renderTable_wraps hd hwrap hfit hroom hnames hvalues w.out
    (E := fun _ _ => False)).ok_of ⟨⟨hw, rfl⟩, Nat.zero_le _⟩
  exact ⟨w', _, hrun, hw'.1.2, wrappedLayout_tableLine hd.names hd.values hfit⟩

/-- The stream in ten columns, wrapping: nine lines, nine columns each. -/
theorem renderTable_wrapped_rectangular_ada :
    Drawable Env.utf8Terminal 5 adaResults 10 wrapFlags ∧ wrapFlags.wrapValues = true ∧
      fitColumns 10 adaResults.nfields (columnWidthFor 10 adaResults.nfields) false =
        (2, 3, false) ∧ (2 = 0 ∨ 3 ≤ 3) ∧
      (∀ name ∈ adaResults.fieldnames, name.1.length < 5) ∧
      (∀ row ∈ adaResults.rows, ∀ v ∈ row, (cellText wrapFlags v).length < 5) ∧
      ∃ (w' : World) (lines : List (List (List UInt8))),
        renderTable Env.utf8Terminal 5 adaResults 10 wrapFlags World.init = .ok () w' ∧
        w'.out = World.init.out ++ lines.flatMap lineBytes ∧
        ∀ line ∈ lines, TableLine (glifsForEncoding (normalizeRenderFlags Env.utf8Terminal.codeset
          wrapFlags)) (2 * (3 + 1) + 1 + if false then 1 else 0) line :=
  have hd : Drawable Env.utf8Terminal 5 adaResults 10 wrapFlags :=
    ⟨Env.utf8Terminal_narrowAscii, by decide, rfl, rfl, by decide, by decide, by decide⟩
  ⟨hd, rfl, rfl, .inr le_rfl, by decide, by decide,
    renderTable_wrapped_rectangular hd rfl rfl (.inr le_rfl) (by decide) (by decide) fun _ => rfl⟩

end Neo4jRender
