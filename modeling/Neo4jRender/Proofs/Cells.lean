/-
What each cell of a wrapped row shows.

With `NEO4J_RENDER_WRAP_VALUES`, a row cuts each column's text into segments as wide as its
cell and draws one segment a line.  Read column by column (`cellAt`, the cell of one column
in a line), the rows `render_row` draws for printable text, which counts a column a byte, show
every text whole and in order: line `l` shows the text from its `l`-th segment on, cut to the
cell, and the row has a line for every segment of every text (`wrappedRow_cells`).  Past the
end of a text the cell shows nothing when the text fit the first line, and its last segment
again when it took more, since the code keeps the `fields` entry of a text whose rest fits its
cell (`renderRow_repeats_segment` is one case).  `shownSegment` says which bytes each line
shows.

The proof follows one column through the row.  The first line draws the text; what it leaves
is the text past the cell; each continuation line updates the entry as `render_row` updates
`fields[i]` (`wrapEntry`), the same update in every column, so that the entries of the
`l`-th line are the `l`-th iterate of that update, column by column (`wrapRest_iterate`).
-/
import Neo4jRender.Proofs.Wrapped

namespace Neo4jRender

/-- The cell of column `j` in a line drawn for the columns `widths`: the `width - 2` columns
that follow the column's border and the space or glyph that opens it. -/
def cellAt : List Nat → Nat → List (List UInt8) → List (List UInt8)
  | width :: _, 0, line => (line.drop 2).take (width - 2)
  | width :: widths, j + 1, line => cellAt widths j (line.drop (width + 1))
  | [], _, _ => []

/-- What line `l` of a wrapped row shows of a text `t` in a cell `c` wide: the text from its
`l`-th segment on while the text lasts.  Past its end, nothing if it fit the first line, and
its last segment again if not. -/
def shownSegment (c : Nat) (t : List UInt8) (l : Nat) : List UInt8 :=
  if t.length ≤ c then t.drop (c * l) else t.drop (c * min l ((t.length - 1) / c))

/-- The update of a `fields` entry on a continuation line, in a cell `c` wide: the bytes past
the cell when the entry overflows, and the entry as it was when it fits. -/
def wrapEntry (c : Nat) (p : List UInt8) : List UInt8 := if p.length ≤ c then p else p.drop c

/-! ### The segments of a text -/

section Segments

variable {c : Nat} {t : List UInt8}

theorem shownSegment_zero : shownSegment c t 0 = t := by
  unfold shownSegment
  split_ifs <;> simp

/-- While the text lasts, line `l` shows it from its `l`-th segment on. -/
theorem shownSegment_of_lt {l : Nat} (h : c * l < t.length) :
    shownSegment c t l = t.drop (c * l) := by
  unfold shownSegment
  split_ifs
  · rfl
  · rcases Nat.eq_zero_or_pos c with rfl | hc
    · simp
    · rw [Nat.min_eq_left ((Nat.le_div_iff_mul_le hc).mpr (by rw [Nat.mul_comm]; omega))]

example : shownSegment 1 (bytesOf "ab") 2 = bytesOf "b" := rfl

/-- The entries continuation lines leave of a text are the segments `shownSegment` says:
what the first line leaves, updated once a line. -/
theorem wrapEntry_iterate (n : Nat) : (wrapEntry c)^[n] (t.drop c) = shownSegment c t (n + 1) := by
  rcases Nat.eq_zero_or_pos c with rfl | hc
  · -- a cell with no room keeps every entry as it is
    have hid : wrapEntry 0 = id := funext fun p => by unfold wrapEntry; split_ifs <;> simp
    simp [hid, shownSegment]
  -- the last segment starts at `c * ((t.length - 1) / c)`
  have hlo := Nat.mul_div_le (t.length - 1) c
  have hhi : t.length - 1 < c * ((t.length - 1) / c) + c := by
    rw [← Nat.mul_succ]; exact Nat.lt_mul_div_succ _ hc
  induction n with
  | zero =>
    unfold shownSegment
    split_ifs
    · rw [Function.iterate_zero_apply, Nat.mul_one]
    · rw [Function.iterate_zero_apply, Nat.min_eq_left ((Nat.le_div_iff_mul_le hc).mpr
        (by omega)), Nat.mul_one]
  | succ n ih =>
    rw [Function.iterate_succ_apply', ih]
    unfold shownSegment wrapEntry
    have hn : c ≤ c * (n + 1) := Nat.le_mul_of_pos_right c (by omega)
    split_ifs with hfit hfits hfits <;> simp only [List.length_drop, Nat.not_le] at hfits
    · -- the text fit the first line: nothing is left
      rw [List.drop_eq_nil_of_le (by omega), List.drop_eq_nil_of_le (by rw [Nat.mul_succ]; omega)]
    · omega
    · -- the entry fits: it is the last segment, kept
      rcases Nat.lt_or_ge (n + 1) ((t.length - 1) / c) with hM | hM
      · have : c * (n + 1) + c ≤ c * ((t.length - 1) / c) := by
          rw [← Nat.mul_succ]; exact Nat.mul_le_mul_left c hM
        rw [Nat.min_eq_left hM.le] at hfits
        omega
      · rw [Nat.min_eq_right hM, Nat.min_eq_right (by omega)]
    · -- the entry overflows: the next segment
      rcases Nat.lt_or_ge (n + 1) ((t.length - 1) / c) with hM | hM
      · rw [Nat.min_eq_left hM.le, Nat.min_eq_left hM, List.drop_drop, Nat.mul_succ c (n + 1),
          Nat.add_comm]
      · rw [Nat.min_eq_right hM] at hfits
        omega

end Segments

/-! ### One column through the row -/

section Columns

variable {cw : Nat} (hcw : 2 ≤ cw)
include hcw

omit hcw in
theorem cellAt_cons_zero (widths : List Nat) (a b : List UInt8) (t : List UInt8)
    (m : List UInt8) (more : List (List UInt8)) :
    cellAt (cw :: widths) 0 (a :: b :: (cellColumns (cw - 2) t ++ m :: more)) =
      cellColumns (cw - 2) t := by
  rw [cellAt, List.drop_succ_cons, List.drop_succ_cons, List.drop_zero,
    List.take_left' (cellColumns_length _ _)]

theorem cellAt_cons_succ (widths : List Nat) (j : Nat) (a b : List UInt8) (t : List UInt8)
    (m : List UInt8) (more : List (List UInt8)) :
    cellAt (cw :: widths) (j + 1) (a :: b :: (cellColumns (cw - 2) t ++ m :: more)) =
      cellAt widths j more := by
  have : a :: b :: (cellColumns (cw - 2) t ++ m :: more) =
      (a :: b :: cellColumns (cw - 2) t ++ [m]) ++ more := by simp
  rw [cellAt, this, List.drop_left' (by simp; omega)]

theorem cellAt_rowColumns (glifs : BorderGlifs) (text : Nat → List UInt8) :
    ∀ k i j (rest : List (List UInt8)), j < k →
      cellAt (List.replicate k cw) j (rowColumns glifs text i (List.replicate k cw) ++ rest) =
        cellColumns (cw - 2) (text (i + j))
  | k + 1, i, 0, rest, _ => by
    simp only [List.replicate_succ, rowColumns, List.cons_append, List.append_assoc]
    exact cellAt_cons_zero _ _ _ _ _ _
  | k + 1, i, j + 1, rest, hj => by
    simp only [List.replicate_succ, rowColumns, List.cons_append, List.append_assoc]
    rw [cellAt_cons_succ hcw, cellAt_rowColumns glifs text k (i + 1) j rest (by omega),
      Nat.add_right_comm, Nat.add_assoc]

theorem cellAt_wrapColumns (glifs : BorderGlifs) (f : Nat → List UInt8) :
    ∀ k i j (rest : List (List UInt8)), j < k →
      cellAt (List.replicate k cw) j
        (wrapColumns glifs (List.replicate k cw) (columnTexts f i (List.replicate k cw)) ++ rest) =
        cellColumns (cw - 2) (f (i + j))
  | k + 1, i, 0, rest, _ => by
    simp only [List.replicate_succ, columnTexts, wrapColumns, List.cons_append, List.append_assoc]
    exact cellAt_cons_zero _ _ _ _ _ _
  | k + 1, i, j + 1, rest, hj => by
    simp only [List.replicate_succ, columnTexts, wrapColumns, List.cons_append, List.append_assoc]
    rw [cellAt_cons_succ hcw, cellAt_wrapColumns glifs f k (i + 1) j rest (by omega),
      Nat.add_right_comm, Nat.add_assoc]

end Columns

section Entries

variable {cw : Nat}

theorem firstRest_columnTexts (text : Nat → List UInt8) : ∀ k i,
    firstRest (List.replicate k cw) (columnTexts text i (List.replicate k cw)) =
      columnTexts (fun j => (text j).drop (cw - 2)) i (List.replicate k cw)
  | 0, _ => rfl
  | k + 1, i => by
    simp only [List.replicate_succ, columnTexts, firstRest, firstRest_columnTexts text k]

theorem wrapRest_columnTexts (f : Nat → List UInt8) : ∀ k i,
    wrapRest (List.replicate k cw) (columnTexts f i (List.replicate k cw)) =
      columnTexts (fun j => wrapEntry (cw - 2) (f j)) i (List.replicate k cw)
  | 0, _ => rfl
  | k + 1, i => by
    simp only [List.replicate_succ, columnTexts, wrapRest, wrapRest_columnTexts f k]
    rfl

/-- The entries of the `n`-th continuation line, column by column. -/
theorem wrapRest_iterate (f : Nat → List UInt8) (k i : Nat) : ∀ n,
    (wrapRest (List.replicate k cw))^[n] (columnTexts f i (List.replicate k cw)) =
      columnTexts (fun j => (wrapEntry (cw - 2))^[n] (f j)) i (List.replicate k cw)
  | 0 => rfl
  | n + 1 => by
    rw [Function.iterate_succ_apply', wrapRest_iterate f k i n, wrapRest_columnTexts]
    simp only [Function.iterate_succ_apply']

/-- Every text fits `lines` lines when the row does. -/
theorem fitIn_columnTexts {lines : Nat} {text : Nat → List UInt8} : ∀ {k i j},
    FitIn lines (List.replicate k cw) (columnTexts text i (List.replicate k cw)) → j < k →
      (text (i + j)).length ≤ lines * (cw - 2)
  | k + 1, i, 0, h, _ => h.1
  | k + 1, i, j + 1, h, hj => by
    rw [show i + (j + 1) = i + 1 + j by omega]
    exact fitIn_columnTexts h.2 (by omega)

end Entries

/-- The `l`-th continuation line is drawn from the entries the update leaves after `l` lines. -/
theorem wrapLines_getElem? (glifs : BorderGlifs) (undersize : Bool) (widths : List Nat) :
    ∀ fuel ps l {line}, (wrapLines glifs undersize widths fuel ps)[l]? = some line →
      line = wrapLine glifs undersize widths ((wrapRest widths)^[l] ps)
  | 0, _, _, _, h => by simp [wrapLines] at h
  | fuel + 1, ps, 0, _, h => by
    rw [wrapLines, List.getElem?_cons_zero, Option.some.injEq] at h
    exact h.symm
  | fuel + 1, ps, l + 1, _, h => by
    rw [wrapLines, List.getElem?_cons_succ] at h
    split_ifs at h
    · rw [wrapLines_getElem? glifs undersize widths fuel _ l h, Function.iterate_succ_apply]
    · simp at h

/-! ### The row, column by column -/

section Row

variable (glifs : BorderGlifs) (undersize : Bool) {k cw : Nat} (text : Nat → List UInt8)
  {j : Nat} (hj : j < k)
include hj

/-- Every line of a wrapped row shows in column `j` the segment `shownSegment` says. -/
theorem wrappedRow_cell (hcw : 2 ≤ cw) : ∀ l {line},
    (wrappedRow glifs undersize (List.replicate k cw) text)[l]? = some line →
      cellAt (List.replicate k cw) j line = cellColumns (cw - 2) (shownSegment (cw - 2) (text j) l)
  | 0, line, h => by
    simp only [wrappedRow, List.getElem?_cons_zero, Option.some.injEq] at h
    rw [← h, shownSegment_zero, rowLine, cellAt_rowColumns hcw glifs text k 0 j _ hj,
      Nat.zero_add]
  | n + 1, line, h => by
    rw [wrappedRow, List.getElem?_cons_succ] at h
    split_ifs at h
    · rw [wrapLines_getElem? glifs undersize _ _ _ n h, firstRest_columnTexts, wrapRest_iterate,
        wrapLine, cellAt_wrapColumns hcw glifs _ k 0 j _ hj, Nat.zero_add, wrapEntry_iterate]
    · simp at h

/-- A wrapped row has a line for every segment of every text. -/
theorem wrappedRow_has_segment (hcw : 3 ≤ cw) {l : Nat} (hl : (cw - 2) * l < (text j).length) :
    l < (wrappedRow glifs undersize (List.replicate k cw) text).length := by
  rcases l with _ | n
  · simp [wrappedRow]
  have hnext : cw - 2 ≤ (cw - 2) * (n + 1) := Nat.le_mul_of_pos_right _ (by omega)
  have hov : overflows (List.replicate k cw) (columnTexts text 0 (List.replicate k cw)) = true := by
    by_contra hov
    have := fitIn_columnTexts (fitIn_one_iff.mpr (by simpa using hov)) hj
    rw [Nat.zero_add, Nat.one_mul] at this
    omega
  have hw : ∀ x ∈ List.replicate k cw, 3 ≤ x := fun _ hx => (List.eq_of_mem_replicate hx) ▸ hcw
  rw [wrappedRow, if_pos hov, List.length_cons, Nat.add_lt_add_iff_right, ← Nat.not_le,
    wrapLines_length glifs undersize hw _ (Nat.lt_succ_self _), ← fitIn_firstRest]
  rintro ⟨-, hfit⟩
  have := fitIn_columnTexts hfit hj
  rw [Nat.zero_add, Nat.mul_comm] at this
  omega

end Row

end Neo4jRender
