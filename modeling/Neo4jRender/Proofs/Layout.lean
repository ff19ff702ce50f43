/-
How wide the table is.

`neo4j_render_table` budgets the terminal width once, before it draws anything: `k`
columns of width `cw` each cost `cw + 1` with their left border, and the closing border one
more.  The column loop keeps dropping trailing fields until the rest are at least two wide,
and `fitColumns_fit` says what it settles on.  From that, `k * (cw + 1) + 1` never exceeds
the width (`fitColumns_fits`).

What the budget leaves out is the undersize marker: when a field was dropped, every rule
and every row line ends in one more glyph, and the floor division need not have left the
room for it (`renderTable_undersize_overflows`).
-/
import Neo4jRender.Proofs.Field

namespace Neo4jRender

/-- What the column loop of `neo4j_render_table` settles on, from `nfields` fields: `k` of
them, of the width `columnWidthFor` gives `k`, at least two wide unless none is left, with
`undersize` raised exactly when a field was dropped. -/
structure Fit (width nfields : Nat) (undersize₀ : Bool) (r : Nat × Nat × Bool) : Prop where
  le : r.1 ≤ nfields
  width_eq : r.2.1 = columnWidthFor width r.1
  wide : r.1 = 0 ∨ 2 ≤ r.2.1
  undersize : r.2.2 = (undersize₀ || decide (r.1 < nfields))

theorem fitColumns_fit (width : Nat) :
    ∀ nfields undersize, Fit width nfields undersize
      (fitColumns width nfields (columnWidthFor width nfields) undersize)
  | 0, u => ⟨le_refl _, by simp [fitColumns, columnWidthFor], Or.inl rfl, by simp [fitColumns]⟩
  | n + 1, u => by
    by_cases h : columnWidthFor width (n + 1) < 2
    · obtain ⟨hle, heq, hwide, hu⟩ := fitColumns_fit width n true
      simp only [fitColumns, if_pos h]
      exact ⟨by omega, heq, hwide, by simp [hu]; omega⟩
    · simp only [fitColumns, if_neg h]
      exact ⟨le_refl _, rfl, Or.inr (Nat.le_of_not_lt h), by simp⟩

/-- Columns at least two wide of the width `columnWidthFor` gives fit, with their borders. -/
theorem columnWidthFor_fits {width k : Nat} (h : 2 ≤ columnWidthFor width k) :
    k * (columnWidthFor width k + 1) + 1 ≤ width := by
  unfold columnWidthFor at h ⊢
  split_ifs at h ⊢ with hg
  · omega
  · have := Nat.div_mul_le_self (width - k - 1) k
    rw [Nat.mul_add, Nat.mul_one, Nat.mul_comm]
    omega

/-- **Without the undersize marker, every line of the table fits the width.** -/
theorem fitColumns_fits {width nfields k cw : Nat} {u : Bool} (hw : 1 ≤ width)
    (h : fitColumns width nfields (columnWidthFor width nfields) false = (k, cw, u)) :
    k * (cw + 1) + 1 ≤ width := by
  have hfit := fitColumns_fit width nfields false
  rw [h] at hfit
  obtain ⟨-, heq, hwide, -⟩ := hfit
  rcases hwide with h0 | h2
  · simp only at h0; simp [h0, hw]
  · simp only at heq h2 ⊢
    rw [heq] at h2 ⊢
    exact columnWidthFor_fits h2

/-- Three fields in ten columns: three columns two wide take nine columns with their borders. -/
theorem fitColumns_fits_ten :
    fitColumns 10 3 (columnWidthFor 10 3) false = (3, 2, false) ∧ 3 * (2 + 1) + 1 ≤ 10 :=
  ⟨rfl, @fitColumns_fits 10 3 3 2 false (by decide) rfl⟩

/-- No count of fields between what the loop keeps and what it started from gets columns two
wide. -/
theorem fitColumns_maximal {width : Nat} :
    ∀ {nfields : Nat} {u : Bool} {k cw : Nat} {u' : Bool},
      fitColumns width nfields (columnWidthFor width nfields) u = (k, cw, u') →
      ∀ k' ≤ nfields, 2 ≤ columnWidthFor width k' → k' ≤ k
  | 0, _, _, _, _, _, _, hk', _ => by omega
  | n + 1, u, k, cw, u', h, k', hk', h2 => by
    by_cases hc : columnWidthFor width (n + 1) < 2
    · rw [fitColumns, if_pos hc] at h
      rcases Nat.lt_or_ge k' (n + 1) with hlt | hge
      · exact fitColumns_maximal h k' (by omega) h2
      · obtain rfl : k' = n + 1 := by omega
        omega
    · rw [fitColumns, if_neg hc] at h
      exact (Prod.mk.inj h).1 ▸ hk'

/-- **The width budget keeps the most fields that fit.**  The column loop of
`neo4j_render_table` settles on `k` fields of the width `columnWidthFor` gives `k`, at least
two wide unless none is left, raises `undersize` exactly when it dropped a field, and no
larger count of fields would have had columns two wide. -/
theorem fitColumns_keeps_most {width nfields k cw : Nat} {u : Bool}
    (hfit : fitColumns width nfields (columnWidthFor width nfields) false = (k, cw, u)) :
    k ≤ nfields ∧ cw = columnWidthFor width k ∧ (k = 0 ∨ 2 ≤ cw) ∧ (u = true ↔ k < nfields) ∧
      ∀ k' ≤ nfields, 2 ≤ columnWidthFor width k' → k' ≤ k := by
  have hf := fitColumns_fit width nfields false
  rw [hfit] at hf
  obtain ⟨hle, heq, hwide, hu⟩ := hf
  refine ⟨hle, heq, hwide, ?_, fitColumns_maximal hfit⟩
  simp only [Bool.false_or] at hu
  simp [hu]

/-- Two fields in four columns: one is kept, two wide, and two would not fit. -/
theorem fitColumns_keeps_most_four :
    fitColumns 4 2 (columnWidthFor 4 2) false = (1, 2, true) ∧
      (1 ≤ 2 ∧ 2 = columnWidthFor 4 1 ∧ (1 = 0 ∨ 2 ≤ 2) ∧ (true = true ↔ 1 < 2) ∧
        ∀ k' ≤ 2, 2 ≤ columnWidthFor 4 k' → k' ≤ 1) :=
  ⟨rfl, fitColumns_keeps_most rfl⟩

/-- Two fields in four columns: the first is kept at width 2 and `undersize` is raised, and
every line of the table is five columns wide. -/
theorem renderTable_undersize_overflows :
    fitColumns 4 2 (columnWidthFor 4 2) false = (1, 2, true) ∧
    ∃ w, renderTable Env.utf8Terminal 0
        ⟨[⟨bytesOf "a", by decide⟩, ⟨bytesOf "b", by decide⟩], [], 0, 0, by decide⟩ 4
        asciiFlags World.init = .ok () w ∧
      w.out = bytesOf "+--+-\n| =|=\n+--+-\n+--+-\n" :=
  ⟨rfl, _, rfl, rfl⟩

end Neo4jRender
