/-
The staging buffer of the table.

`neo4j_render_table` draws every value it cannot point into in place through one staging
buffer: `render_field_value` formats the value there, and grows the buffer with `realloc` when
the text does not fit.  The buffer starts at `column_width` bytes, at least two once a column
is kept, and is only ever grown.

`Safe c m` says that a run of `m` from a buffer of at least `c` bytes leaves one of at least
`c` bytes and fails no `assert`.  One lemma a function says when it is `Safe`, citing those of
the functions it calls: the functions of `render.c` for every `c`, since they never touch the
buffer, and the rows of the table for every `c` of at least one, since a value is only ever
given a larger buffer.  `Safe` is not one of the guards of `Neo4jRender.Proofs.Guard`: what
it adds to the bound, which every call keeps, is the condition of each `assert`, which is the
function's own.  From any buffer that is not empty, `render_field_value` keeps its
contract: it returns the length of the text, leaves the text and its terminator at the head
of the buffer, shorter than the buffer, and reallocates at most once
(`renderFieldValue_contract`).  Over a whole run of `neo4j_render_table`, from any input, the
buffer keeps `column_width` bytes from its allocation on, so every call of
`render_field_value` finds at least two.  To say so of the run itself, the table is written
once more with `obtain_result_field` a parameter (`renderTableVia`), equal to `renderTable`
for the real callback, and run with a callback that first asserts the two bytes
(`bufcapChecked`): that run fails no `assert`, and neither does the table's own
(`renderTable_staging`).
The export's buffer is held to the same account: `neo4j_render_csv` fails no `assert`, on any
input, exactly when its first capacity is at least two (`renderCsv_never_aborts`).
-/
import Neo4jRender.Proofs.Layout

namespace Neo4jRender

/-- A run of `m` from a staging buffer of at least `c` bytes leaves one of at least `c` bytes
when it returns, and fails no `assert`. -/
def Safe {α : Type} (c : Nat) (m : RenderM α) : Prop :=
  Triple (fun w => c ≤ w.bufcap) m (fun _ w => c ≤ w.bufcap) fun e _ => e ≠ .abort

namespace Safe

variable {α β : Type} {c : Nat} {m : RenderM α}

theorem bind {f : α → RenderM β} (hm : Safe c m) (hf : ∀ a, Safe c (f a)) : Safe c (m >>= f) :=
  Triple.bind hm hf

theorem map {f : α → β} (hm : Safe c m) : Safe c (f <$> m) := Triple.map hm

theorem pure (a : α) : Safe c (Pure.pure a : RenderM α) := Triple.pure fun _ => id

theorem ite {p : Prop} [Decidable p] {t e : RenderM α} (ht : Safe c t) (he : Safe c e) :
    Safe c (if p then t else e) :=
  Triple.ite (fun _ => ht) fun _ => he

/-- A failure that is not an `assert`. -/
theorem throw {e : Err} (he : e ≠ .abort) : Safe c (MonadExcept.throw e : RenderM α) :=
  Triple.throw fun _ _ => he

/-- A call that reads the world, or changes it as `g` does, leaving the capacity. -/
theorem of_run {v : World → α} {g : World → World} (hm : ∀ w, m w = .ok (v w) (g w))
    (hg : ∀ w, (g w).bufcap = w.bufcap) : Safe c m := fun w hw => by
  rw [hm]
  show c ≤ (g w).bufcap
  rwa [hg]

end Safe

/-! ### The calls -/

section Calls

variable {c : Nat}

theorem orFail_fwrite_safe (bytes : List UInt8) : Safe c (orFail (fwrite bytes)) :=
  orFail_spec ((fwrite_spec bytes).pre fun w hw => by
    split
    · exact hw
    · split
      · exact hw
      · exact (by decide : Err.failed ≠ .abort))

theorem orFail_attempt_safe (call : Bool → Call) : Safe c (orFail (attempt call)) :=
  orFail_spec ((attempt_spec call).pre fun w hw => by
    split
    · exact hw
    · exact (by decide : Err.failed ≠ .abort))

theorem decodeAt_safe (mem : List UInt8) : Safe c (decodeAt mem) :=
  (decodeAt_spec mem).pre fun w hw => by
    split
    · exact hw
    · decide

theorem checkResults_safe (code : Nat) : Safe c (checkResults code) :=
  (checkResults_spec code).pre fun w hw => by
    split
    · exact hw
    · decide

theorem require_safe (p : Prop) [Decidable p] : Safe c (require p) :=
  (require_spec p).pre fun w hw => by
    split
    · exact hw
    · decide

/-- An `assert` that holds. -/
theorem cAssert_safe {p : Prop} [Decidable p] (h : p) : Safe c (cAssert p) := by
  rw [cAssert_of_true h]
  exact Safe.pure ()

theorem readSrc_safe (s : Src) : Safe c (readSrc s) := Safe.of_run (fun _ => rfl) fun _ => rfl

theorem getBufcap_safe : Safe c getBufcap := Safe.of_run (fun _ => rfl) fun _ => rfl

/-- `getBufcap` returns a capacity the bound holds of. -/
theorem getBufcap_bound :
    Triple (fun w => c ≤ w.bufcap) getBufcap (fun cap w => c ≤ cap ∧ c ≤ w.bufcap)
      fun e _ => e ≠ .abort :=
  (getBufcap_spec (Q := fun cap w => c ≤ cap ∧ c ≤ w.bufcap)).pre fun _ h => ⟨h, h⟩

theorem getBuf_safe : Safe c getBuf := Safe.of_run (fun _ => rfl) fun _ => rfl

theorem clearBuf_safe : Safe c clearBuf := Safe.of_run (fun _ => rfl) fun _ => rfl

theorem ntostring_safe (value : Value) : Safe c (ntostring value) :=
  Safe.of_run (fun _ => rfl) fun _ => rfl

/-- `*bufcap = size` keeps the bound when the new size is above it. -/
theorem setBufcap_safe {size : Nat} (h : c ≤ size) : Safe c (setBufcap size) :=
  fun _ _ => h

/-- The cleanup at `failure:` fails no `assert`. -/
theorem failureCleanup_safe :
    Triple (fun _ => True) failureCleanup (fun _ _ => True) fun e _ => e ≠ .abort :=
  ((getErrno_spec (Q := fun _ _ => True)).pre fun _ _ => trivial).bind fun errsv =>
    ((attempt_spec (Q := fun _ _ => True) .flush).pre fun _ _ => by split <;> trivial).bind
      fun _ => (setErrno_spec errsv).pre fun _ _ => trivial

end Calls

/-! ### `render.c`

The row functions never touch the buffer, so they are `Safe` for every bound; the one thing
they need is what their `assert`s say, that a column drawn is at least two wide.
-/

section Table

variable {c : Nat} {flags : RenderFlags}

theorem keepRest_safe (f : FieldText) (consumed : Nat) : Safe c (keepRest f consumed) :=
  .ite ((readSrc_safe _).bind fun _ => (orFail_attempt_safe _).bind fun _ => Safe.pure _)
    (Safe.pure _)

theorem fputsTimes_safe (s : CString) : ∀ k, Safe c (fputsTimes s k)
  | 0 => Safe.pure _
  | k + 1 => (orFail_fwrite_safe _).bind fun _ => fputsTimes_safe s k

theorem hruleColumns_safe (corners : Corners) (line : CString) :
    ∀ first widths, Safe c (hruleColumns corners line first widths)
  | _, [] => Safe.pure _
  | first, _ :: ws => .ite (hruleColumns_safe corners line first ws)
    ((orFail_fwrite_safe _).bind fun _ => (fputsTimes_safe line _).bind fun _ =>
      hruleColumns_safe corners line false ws)

theorem renderHrule_safe (widths : List Nat) (position : HlinePosition) (undersize : Bool) :
    Safe c (renderHrule widths position undersize flags) :=
  (hruleColumns_safe _ _ true widths).bind fun _ => (orFail_fwrite_safe _).bind fun _ =>
    (Safe.ite (orFail_fwrite_safe _) (Safe.pure _)).bind fun _ => orFail_fwrite_safe _

theorem writeUnprintable_safe (codepoint width : Nat) : Safe c (writeUnprintable codepoint width) :=
  (orFail_fwrite_safe _).bind fun _ => Safe.pure _

theorem renderFieldLoop_safe (env : Env) (mem : List UInt8) (n width : Nat) :
    ∀ fuel pos used, Safe c (renderFieldLoop env mem n width flags fuel pos used)
  | 0, _, _ => Safe.pure _
  | fuel + 1, pos, used => by
    refine .ite ((decodeAt_safe _).bind fun ⟨cp, bytes⟩ => ?_) (Safe.pure _)
    dsimp only
    rcases (if 1 < bytes ∧ flags.ascii = true then none else env.u8cpwidth cp) with _ | cpwidth
    · exact (writeUnprintable_safe cp width).bind fun _ =>
        renderFieldLoop_safe env mem n width fuel _ _
    · exact .ite (Safe.pure _) ((orFail_fwrite_safe _).bind fun _ =>
        renderFieldLoop_safe env mem n width fuel _ _)

theorem padSpaces_safe : ∀ k, Safe c (padSpaces k)
  | 0 => Safe.pure _
  | k + 1 => (orFail_fwrite_safe _).bind fun _ => padSpaces_safe k

theorem renderField_safe (env : Env) (mem : List UInt8) (n width : Nat) :
    Safe c (renderField env mem n width flags) :=
  (renderFieldLoop_safe env mem n width n 0 0).bind fun (_, used) =>
    (padSpaces_safe (width - used)).bind fun _ => Safe.pure _

theorem renderRowFirst_safe (env : Env) (glifs : BorderGlifs)
    {callback : Option (Nat → RenderM FieldText)} :
    ∀ i widths, (∀ x ∈ widths, x ≠ 0 → 2 ≤ x) →
      (widths ≠ [] → ∀ cb ∈ callback, ∀ j, Safe c (cb j)) →
      Safe c (renderRowFirst env flags glifs callback i widths)
  | _, [], _, _ => Safe.pure _
  | i, width :: widths, hw, hcb => by
    have hrest := renderRowFirst_safe env glifs (i + 1) widths
      (fun x hx => hw x (List.mem_cons_of_mem _ hx)) fun _ => hcb (List.cons_ne_nil _ _)
    have hf : Safe c (match callback with
        | some cb => cb i
        | none => (Pure.pure ⟨.stable [], 0, false⟩ : RenderM FieldText)) := by
      cases callback with
      | none => exact Safe.pure _
      | some cb => exact hcb (List.cons_ne_nil _ _) cb rfl i
    refine Triple.ite (fun _ => hrest.bind fun _ => Safe.pure _) fun hne => ?_
    refine (orFail_fwrite_safe _).bind fun _ => (orFail_fwrite_safe _).bind fun _ =>
      (cAssert_safe (hw width (List.mem_cons_self _ _) hne)).bind fun _ => hf.bind fun f =>
      (readSrc_safe _).bind fun mem => (renderField_safe env mem f.n _).bind fun consumed =>
      Safe.bind ?_ fun _ => hrest.bind fun _ => Safe.pure _
    exact .ite ((orFail_fwrite_safe _).bind fun _ => Safe.pure _) ((orFail_fwrite_safe _).bind
      fun _ => .ite (keepRest_safe f consumed).map (Safe.pure _))

theorem renderRowWrapLine_safe (env : Env) (glifs : BorderGlifs) :
    ∀ widths ps, (∀ x ∈ widths, x ≠ 0 → 2 ≤ x) →
      Safe c (renderRowWrapLine env flags glifs widths ps)
  | width :: widths, p :: ps, hw => by
    have hrest := renderRowWrapLine_safe env glifs widths ps
      fun x hx => hw x (List.mem_cons_of_mem _ hx)
    refine Triple.ite (fun _ => hrest.bind fun _ => Safe.pure _) fun hne => ?_
    exact (cAssert_safe (hw width (List.mem_cons_self _ _) hne)).bind fun _ =>
      (orFail_fwrite_safe _).bind fun _ => (orFail_fwrite_safe _).bind fun _ =>
      (readSrc_safe _).bind fun mem => (renderField_safe env mem p.n _).bind fun _ =>
      (Safe.ite ((orFail_fwrite_safe _).bind fun _ => Safe.pure _)
        ((orFail_fwrite_safe _).bind fun _ => Safe.pure _)).bind fun _ =>
      hrest.bind fun _ => Safe.pure _
  | [], _, _ => Safe.pure _
  | _ :: _, [], _ => Safe.pure _

theorem renderRowEnd_safe (glifs : BorderGlifs) (undersize : Bool) :
    Safe c (renderRowEnd glifs undersize) :=
  (orFail_fwrite_safe _).bind fun _ =>
    (Safe.ite (orFail_fwrite_safe _) (Safe.pure _)).bind fun _ => orFail_fwrite_safe _

theorem renderRowWrap_safe (env : Env) (glifs : BorderGlifs) {widths : List Nat}
    (hw : ∀ x ∈ widths, x ≠ 0 → 2 ≤ x) (undersize : Bool) :
    ∀ fuel ps, Safe c (renderRowWrap env flags glifs widths undersize fuel ps)
  | 0, _ => Safe.throw (by decide)
  | fuel + 1, ps => (renderRowWrapLine_safe env glifs widths ps hw).bind fun (ps', _) =>
    (renderRowEnd_safe glifs undersize).bind fun _ =>
      .ite (renderRowWrap_safe env glifs hw undersize fuel ps') (Safe.pure _)

/-- **A row fails no `assert` and leaves the buffer as its callback does**, when every column
it draws is at least two wide. -/
theorem renderRow_safe (env : Env) (fuel : Nat) {widths : List Nat}
    (hw : ∀ x ∈ widths, x ≠ 0 → 2 ≤ x) (undersize : Bool)
    {callback : Option (Nat → RenderM FieldText)}
    (hcb : widths ≠ [] → ∀ cb ∈ callback, ∀ j, Safe c (cb j)) :
    Safe c (renderRow env fuel widths undersize flags callback) :=
  (Safe.ite (orFail_attempt_safe _) (Safe.pure _)).bind fun _ =>
    (renderRowFirst_safe env _ 0 widths hw hcb).bind fun (fields, _) =>
      (renderRowEnd_safe _ undersize).bind fun _ =>
        .ite (renderRowWrap_safe env _ hw undersize fuel fields) (Safe.pure _)

end Table

/-! ### `render_results.c`

A value is only ever given a larger buffer: `render_field_value` reallocates to one byte more
than a text that did not fit, so above the capacity it found.  Every bound of at least one is
kept, and the `assert`s on the capacity hold under it.
-/

section Results

variable {c : Nat} (hc : 0 < c)
include hc

theorem valueTostring_safe (flags : RenderFlags) (value : Value) :
    Safe c (valueTostring flags value) :=
  getBufcap_bound.bind fun _ => Triple.prop fun hcap => (cAssert_safe (by omega)).bind fun _ =>
    .ite (clearBuf_safe.bind fun _ => Safe.pure _) (ntostring_safe value)

theorem renderFieldValueLoop_safe (flags : RenderFlags) (value : Value) :
    ∀ fuel, Safe c (renderFieldValueLoop flags value fuel)
  | 0 => Safe.throw (by decide)
  | fuel + 1 => (valueTostring_safe hc flags value).bind fun L => getBufcap_bound.bind fun cap =>
    Triple.prop fun hcap => Triple.ite (fun _ => Safe.pure _) fun hge =>
      (orFail_attempt_safe _).bind fun _ => (setBufcap_safe (by omega)).bind fun _ =>
        renderFieldValueLoop_safe flags value fuel

theorem renderFieldValue_safe (fuel : Nat) (flags : RenderFlags) (value : Value) :
    Safe c (renderFieldValue fuel flags value) :=
  getBufcap_bound.bind fun _ => Triple.prop fun hcap => (cAssert_safe (by omega)).bind fun _ =>
    renderFieldValueLoop_safe hc flags value fuel

theorem obtainResultField_safe (fuel : Nat) (flags : RenderFlags) (row : List Value) (i : Nat) :
    Safe c (obtainResultField fuel flags row i) :=
  .ite (Safe.pure _) ((renderFieldValue_safe hc fuel flags _).bind fun _ => Safe.pure _)

end Results

/-! ### The callback of the body rows

`neo4j_render_table` hands `obtain_result_field` to `render_row` for every body row, and what
a call of it finds is not visible in what a run returns.  So the table is written once more
with that callback a parameter: `renderTableVia` is `renderTable` for `obtain_result_field`
(`renderTable_via`).  Run with a callback that first asserts what a call is to find
(`bufcapChecked`), the two runs make the same calls until a check fails, so the checked run
fails no `assert` only if every call of the other finds what the check asks.
-/

/-- The `for` loop over the body rows, with the callback `obtain` for each row. -/
def renderTableRowsVia (env : Env) (fuel : Nat) (widths : List Nat) (undersize : Bool)
    (flags : RenderFlags) (obtain : List Value → Nat → RenderM FieldText) :
    Bool → List (List Value) → RenderM Unit
  | _, [] => pure ()
  | first, row :: rows => do
    (if !first ∧ flags.rowLines then renderHrule widths .middle undersize flags else pure ())
    renderRow env fuel widths undersize flags (some (obtain row))
    renderTableRowsVia env fuel widths undersize flags obtain false rows

/-- `neo4j_render_table`, with the callback of the body rows a parameter. -/
def renderTableVia (env : Env) (fuel : Nat) (results : ResultStream) (width : Nat)
    (flags : RenderFlags) (obtain : RenderFlags → List Value → Nat → RenderM FieldText) :
    RenderM Unit := do
  require (1 < width ∧ width < env.maxWidth)
  checkResults results.failure
  if results.nfields = 0 then return
  let flags := normalizeRenderFlags env.codeset flags
  let (nfields, columnWidth, undersize) :=
    fitColumns width results.nfields (columnWidthFor width results.nfields) false
  cAssert (2 ≤ columnWidth ∨ nfields = 0)
  (if 0 < nfields then orFail alloc else pure ())
  let widths := List.replicate nfields columnWidth
  onFailure
    (do
      newBuffer columnWidth
      (if 0 < columnWidth then orFail alloc else pure ())
      renderHrule widths .top undersize flags
      renderRow env fuel widths undersize flags (some (obtainFieldname results))
      renderHrule widths .head undersize flags
      renderTableRowsVia env fuel widths undersize flags (obtain flags) true results.rows
      checkResults results.failureAtEnd
      renderHrule widths .bottom undersize flags)
    failureCleanup
  orFail fflush

/-- The callback `obtain` behind `assert(*bufcap >= c)`. -/
def bufcapChecked (c : Nat) (obtain : RenderFlags → List Value → Nat → RenderM FieldText)
    (flags : RenderFlags) (row : List Value) (i : Nat) : RenderM FieldText := do
  cAssert (c ≤ (← getBufcap))
  obtain flags row i

theorem renderTableRows_via (env : Env) (fuel : Nat) (widths : List Nat) (undersize : Bool)
    (flags : RenderFlags) : ∀ first rows,
      renderTableRows env fuel widths undersize flags first rows =
        renderTableRowsVia env fuel widths undersize flags (obtainResultField fuel flags) first rows
  | _, [] => rfl
  | first, row :: rows => by
    rw [renderTableRows, renderTableRowsVia, renderTableRows_via env fuel widths undersize flags]

/-- `renderTableVia` is the table renderer with its own callback. -/
theorem renderTable_via (env : Env) (fuel : Nat) (results : ResultStream) (width : Nat)
    (flags : RenderFlags) :
    renderTable env fuel results width flags =
      renderTableVia env fuel results width flags (obtainResultField fuel) := by
  simp only [renderTable, renderTableVia, renderTableRows_via]

/-- **The body rows keep the buffer's bound and fail no `assert`**, for columns at least two
wide and a callback that does whenever a column is drawn. -/
theorem renderTableRowsVia_safe {c : Nat} (env : Env) (fuel : Nat) {widths : List Nat}
    (hw : ∀ x ∈ widths, x ≠ 0 → 2 ≤ x) (undersize : Bool) (flags : RenderFlags)
    {obtain : List Value → Nat → RenderM FieldText}
    (hobtain : widths ≠ [] → ∀ row j, Safe c (obtain row j)) :
    ∀ first rows, Safe c (renderTableRowsVia env fuel widths undersize flags obtain first rows)
  | _, [] => Safe.pure _
  | _, row :: rows => (Safe.ite (renderHrule_safe _ _ _) (Safe.pure _)).bind fun _ =>
    (renderRow_safe env fuel hw undersize fun hne _ hcb j => by
      cases hcb; exact hobtain hne row j).bind fun _ =>
    renderTableRowsVia_safe env fuel hw undersize flags hobtain false rows

/-- **No `assert` of the table fails**, from any input, with a callback that keeps every bound
of at least two: the columns kept are at least two wide, and the staging buffer keeps its
`column_width` bytes from its allocation on. -/
theorem renderTableVia_safe (env : Env) (fuel : Nat) (results : ResultStream) (width : Nat)
    (flags : RenderFlags) {obtain : RenderFlags → List Value → Nat → RenderM FieldText}
    (hobtain : ∀ c, 2 ≤ c → ∀ flags row j, Safe c (obtain flags row j)) :
    Safe 0 (renderTableVia env fuel results width flags obtain) := by
  refine (require_safe _).bind fun _ => (checkResults_safe _).bind fun _ =>
    Safe.ite (Safe.pure _) ?_
  dsimp only
  rcases hfit : fitColumns width results.nfields (columnWidthFor width results.nfields) false
    with ⟨k, cw, u⟩
  have hwide : k = 0 ∨ 2 ≤ cw := by
    simpa [hfit] using (fitColumns_fit width results.nfields false).wide
  have hw : ∀ x ∈ List.replicate k cw, x ≠ 0 → 2 ≤ x := fun x hx _ => by
    obtain ⟨hk, rfl⟩ := List.mem_replicate.mp hx
    exact hwide.resolve_left hk
  have hcw : List.replicate k cw ≠ [] → 2 ≤ cw := fun hne =>
    hwide.resolve_left fun hk => hne (by rw [hk, List.replicate_zero])
  refine (cAssert_safe hwide.symm).bind fun _ => (Safe.ite (orFail_attempt_safe _)
    (Safe.pure _)).bind fun _ => Safe.bind ?_ fun _ => orFail_attempt_safe _
  refine Triple.onFailure (F := fun e _ => e ≠ .abort) ?_ (failureCleanup_safe.conseq
    (fun _ _ => trivial) (fun _ _ _ => by decide) fun _ _ => id) fun _ _ _ h => h
  refine ((newBuffer_spec (Q := fun _ w => cw ≤ w.bufcap) cw).pre fun _ _ => le_rfl).bind
    fun _ => Triple.conseq (Q := fun _ w => cw ≤ w.bufcap) ?_ (fun _ => id)
      (fun _ _ _ => Nat.zero_le _) fun _ _ => id
  exact (Safe.ite (orFail_attempt_safe _) (Safe.pure _)).bind fun _ =>
    (renderHrule_safe _ _ _).bind fun _ =>
    (renderRow_safe env fuel hw _ fun _ _ hcb _ => by cases hcb; exact Safe.pure _).bind fun _ =>
    (renderHrule_safe _ _ _).bind fun _ =>
    (renderTableRowsVia_safe env fuel hw _ _ (fun hne => hobtain cw (hcw hne) _) true _).bind
    fun _ => (checkResults_safe _).bind fun _ => renderHrule_safe _ _ _

/-- `obtain_result_field` keeps every bound of at least one, and behind a check of two bytes
every bound of at least two. -/
theorem bufcapChecked_safe (fuel : Nat) {c : Nat} (hc : 2 ≤ c) (flags : RenderFlags)
    (row : List Value) (i : Nat) : Safe c (bufcapChecked 2 (obtainResultField fuel) flags row i) :=
  getBufcap_bound.bind fun _ => Triple.prop fun hcap => (cAssert_safe (by omega)).bind fun _ =>
    obtainResultField_safe (by omega) fuel flags row i

/-- **No `assert` of `neo4j_render_table` fails**, from any input. -/
theorem renderTable_safe (env : Env) (fuel : Nat) (results : ResultStream) (width : Nat)
    (flags : RenderFlags) : Safe 0 (renderTable env fuel results width flags) := by
  rw [renderTable_via]
  exact renderTableVia_safe env fuel results width flags fun _ hc _ _ _ =>
    obtainResultField_safe (by omega) fuel _ _ _

/-! ### `neo4j_render_csv`

The export grows its buffer only to the length `neo4j_ntostring` reports, and only when that
length is not below the capacity, so its buffer never shrinks either.  From a first capacity
of at least two, the `assert(*bufcap >= 2)` of `write_value` holds at every value; from a
smaller one, the first value it stringifies fails it.
-/

section Csv

variable {c : Nat}

theorem writeCsvQuotedLoop_safe (str : List UInt8) (stop : Nat) :
    ∀ fuel pos n, Safe c (writeCsvQuotedLoop str stop fuel pos n)
  | 0, _, _ => Safe.pure _
  | fuel + 1, pos, n => by
    refine .ite ?_ (Safe.pure _)
    rcases memchr (str.drop pos) 0x22 n with _ | l
    · exact orFail_fwrite_safe _
    · exact (orFail_fwrite_safe _).bind fun _ => (orFail_fwrite_safe _).bind fun _ =>
        writeCsvQuotedLoop_safe str stop fuel _ _

theorem writeCsvQuotedString_safe (s : List UInt8) (n : Nat) :
    Safe c (writeCsvQuotedString s n) :=
  (orFail_fwrite_safe _).bind fun _ => (writeCsvQuotedLoop_safe s n n 0 n).bind fun _ =>
    orFail_fwrite_safe _

/-- The grow-and-retry loop keeps the bound: it reallocates to a length not below the
capacity it found. -/
theorem writeValueLoop_safe (value : Value) : ∀ fuel, Safe c (writeValueLoop value fuel)
  | 0 => Safe.throw (by decide)
  | fuel + 1 => (ntostring_safe value).bind fun _ => getBufcap_bound.bind fun _ =>
    Triple.prop fun hcap => Triple.ite (fun _ => Safe.pure _) fun hge =>
      (orFail_attempt_safe _).bind fun _ => (setBufcap_safe (by omega)).bind fun _ =>
        writeValueLoop_safe value fuel

theorem writeValue_safe (hc : 2 ≤ c) (fuel : Nat) (flags : RenderFlags) (value : Value) :
    Safe c (writeValue fuel flags value) :=
  .ite (writeCsvQuotedString_safe _ _) (.ite (Safe.pure _) (getBufcap_bound.bind fun _ =>
    Triple.prop fun hcap => (cAssert_safe (by omega)).bind fun _ =>
      (writeValueLoop_safe value fuel).bind fun _ => getBuf_safe.bind fun _ =>
        .ite (orFail_fwrite_safe _) (writeCsvQuotedString_safe _ _)))

theorem csvCells_safe {nfields : Nat} {cell : Nat → RenderM Unit} (hcell : ∀ i, Safe c (cell i)) :
    ∀ k i, Safe c (csvCells nfields cell k i)
  | 0, _ => Safe.pure _
  | k + 1, i => (hcell i).bind fun _ => (Safe.ite (orFail_fwrite_safe _) (Safe.pure _)).bind
    fun _ => csvCells_safe hcell k (i + 1)

theorem renderCsvRows_safe (hc : 2 ≤ c) (fuel : Nat) (flags : RenderFlags) (nfields : Nat) :
    ∀ rows, Safe c (renderCsvRows fuel flags nfields rows)
  | [] => Safe.pure _
  | _ :: rows => (csvCells_safe (fun _ => writeValue_safe hc fuel flags _) _ _).bind fun _ =>
    (orFail_fwrite_safe _).bind fun _ => renderCsvRows_safe hc fuel flags nfields rows

end Csv

/-- No `assert` of `neo4j_render_csv` fails when its first buffer holds at least two bytes,
from any input and any world. -/
theorem renderCsv_safe (env : Env) (hcap : 2 ≤ env.fieldBufferInitialCapacity) (fuel : Nat)
    (results : ResultStream) (flags : RenderFlags) :
    Triple (fun _ => True) (renderCsv env fuel results flags) (fun _ _ => True)
      fun e _ => e ≠ .abort := by
  refine ((newBuffer_spec (Q := fun _ w => 2 ≤ w.bufcap) _).pre fun _ _ => hcap).bind fun _ =>
    Triple.conseq (Q := fun _ w => 2 ≤ w.bufcap) ?_ (fun _ => id) (fun _ _ _ => trivial)
      fun _ _ => id
  refine (orFail_attempt_safe _).bind fun _ => Triple.onFailure (F := fun e _ => e ≠ .abort) ?_
    (failureCleanup_safe.conseq (fun _ _ => trivial) (fun _ _ _ => by decide) fun _ _ => id)
    fun _ _ _ h => h
  exact (checkResults_safe _).bind fun _ => Safe.ite (Safe.pure _)
    ((csvCells_safe (fun _ => writeCsvQuotedString_safe _ _) _ _).bind fun _ =>
      (orFail_fwrite_safe _).bind fun _ => (renderCsvRows_safe le_rfl fuel flags _ _).bind
        fun _ => (checkResults_safe _).bind fun _ => orFail_attempt_safe _)

/-- **`neo4j_render_csv` fails no `assert`, on any input and whatever its stream and allocator
do, exactly when `NEO4J_FIELD_BUFFER_INITIAL_CAPACITY` is at least two.**  Below two, one
integer field fails the `assert(*bufcap >= 2)` of `write_value`. -/
theorem renderCsv_never_aborts (env : Env) :
    (∀ fuel results flags w w', renderCsv env fuel results flags w ≠ .error .abort w') ↔
      2 ≤ env.fieldBufferInitialCapacity := by
  refine ⟨fun h => ?_, fun hcap fuel results flags w w' habort => ?_⟩
  · obtain ⟨codeset, maxWidth, cap, u8cpwidth⟩ := env
    by_contra hsmall
    obtain rfl | rfl : cap = 0 ∨ cap = 1 := by simp only at hsmall; omega
    all_goals
      exact h 1 ⟨[⟨bytesOf "n", by decide⟩], [[⟨.int, [], bytesOf "1"⟩]], 0, 0, by decide⟩
        asciiFlags World.init _ rfl
  · have := renderCsv_safe env hcap fuel results flags w trivial
    rw [habort] at this
    exact this rfl

/-! ### The contract of `render_field_value`

From a buffer that is not empty, `render_field_value` returns the whole length of the text,
with the text and its terminator at the head of a buffer longer than it, after at most one
`realloc`; or `-1` from a failed `realloc`, the buffer as it was.
-/

/-- The text `value_tostring` gives a value: none for a null it does not show, the text
`neo4j_ntostring` gives otherwise. -/
def shownText (flags : RenderFlags) (value : Value) : List UInt8 :=
  if !flags.showNulls ∧ value.type = .null then [] else value.text

/-- What `render_field_value` leaves when it returns `L`, from the world `w₀`. -/
structure Staged (flags : RenderFlags) (value : Value) (w₀ : World) (L : Nat) (w : World) :
    Prop where
  /-- `L` is the whole length of the text. -/
  length : L = (shownText flags value).length
  /-- The buffer holds the text and its terminator. -/
  text : w.buf.take (L + 1) = shownText flags value ++ [0]
  /-- The text is shorter than the buffer. -/
  fits : L < w.bufcap
  /-- The buffer did not shrink. -/
  grows : w₀.bufcap ≤ w.bufcap
  /-- At most one `realloc`, which succeeded. -/
  realloc : w.log = w₀.log ∨ w.log = w₀.log ++ [.alloc true]

theorem snprintfBuf_of_lt {size : Nat} {text : List UInt8} (h : text.length < size) :
    snprintfBuf size text = text ++ [0] := by
  rw [snprintfBuf, List.take_of_length_le (by omega)]

theorem valueTostring_text (flags : RenderFlags) (value : Value) (buf : List UInt8) {cap : Nat}
    (h : (shownText flags value).length < cap) :
    (if !flags.showNulls ∧ value.type = .null then 0 :: buf.drop 1
      else snprintfBuf cap value.text).take ((shownText flags value).length + 1) =
        shownText flags value ++ [0] := by
  unfold shownText at h ⊢
  split_ifs at h ⊢
  · rfl
  · rw [snprintfBuf_of_lt h]
    exact List.take_of_length_le (by simp)

/-- One call of `value_tostring` on a buffer that is not empty: the text's length, and a
buffer that holds the text and its terminator whenever the text is shorter than it. -/
theorem valueTostring_run (flags : RenderFlags) (value : Value) {w : World} (h : 0 < w.bufcap) :
    ∃ buf, valueTostring flags value w = .ok (shownText flags value).length (w.withBuf buf) ∧
      ((shownText flags value).length < w.bufcap →
        buf.take ((shownText flags value).length + 1) = shownText flags value ++ [0]) := by
  refine ⟨_, ?_, valueTostring_text flags value w.buf⟩
  have hc : (cAssert (0 < w.bufcap)) w = .ok () w := by rw [cAssert_of_true h]; rfl
  rw [valueTostring, run_bind_ok (rfl : getBufcap w = .ok w.bufcap w), run_bind_ok hc]
  unfold shownText
  split_ifs with hn
  · rfl
  · show EStateM.Result.ok _ (w.withBuf (if w.bufcap = 0 then w.buf else _)) = _
    rw [if_neg (Nat.pos_iff_ne_zero.mp h)]

/-- `realloc` as the world allows it. -/
theorem orFail_alloc_ok {w : World} (h : w.fault w.log.length = none) :
    orFail alloc w = .ok () (w.record (.alloc true) []) := by
  show EStateM.bind _ _ w = _
  simp only [EStateM.bind, alloc, attempt, h]
  rfl

theorem orFail_alloc_failed {w : World} {e : Nat} (h : w.fault w.log.length = some e) :
    orFail alloc w = .error .failed (w.reject (.alloc false) e) := by
  show EStateM.bind _ _ w = _
  simp only [EStateM.bind, alloc, attempt, h]
  rfl

/-- The retry loop turns at most twice: a text that does not fit gets a buffer one byte longer
than itself, which it fits. -/
theorem renderFieldValueLoop_contract (flags : RenderFlags) (value : Value) {fuel : Nat}
    (hfuel : 2 ≤ fuel) {w₀ : World} (h0 : 0 < w₀.bufcap) :
    Triple (· = w₀) (renderFieldValueLoop flags value fuel) (Staged flags value w₀)
      fun e w => e = .failed ∧ w.bufcap = w₀.bufcap ∧ w.log = w₀.log ++ [.alloc false] := by
  intro w hw
  subst w
  obtain ⟨f, rfl⟩ : ∃ f, fuel = f + 1 + 1 := ⟨fuel - 2, by omega⟩
  obtain ⟨buf, hrun, hbuf⟩ := valueTostring_run flags value h0
  rw [renderFieldValueLoop, run_bind_ok hrun, run_bind_ok (x := getBufcap) rfl,
    World.withBuf_bufcap]
  by_cases hlt : (shownText flags value).length < w₀.bufcap
  · rw [if_pos hlt]
    exact ⟨rfl, hbuf hlt, hlt, le_rfl, .inl rfl⟩
  · rw [if_neg hlt]
    cases hf : w₀.fault w₀.log.length with
    | some e =>
      rw [run_bind_error (orFail_alloc_failed (w := w₀.withBuf buf) hf)]
      exact ⟨rfl, rfl, rfl⟩
    | none =>
      obtain ⟨buf', hrun', hbuf'⟩ := valueTostring_run flags value
        (w := ((w₀.withBuf buf).record (.alloc true) []).withBufcap
          ((shownText flags value).length + 1)) (Nat.succ_pos _)
      rw [run_bind_ok (orFail_alloc_ok (w := w₀.withBuf buf) hf),
        run_bind_ok (x := setBufcap _) rfl, renderFieldValueLoop, run_bind_ok hrun',
        run_bind_ok (x := getBufcap) rfl]
      simp only [World.withBuf_bufcap, World.withBufcap_bufcap, Nat.lt_succ_self, if_true]
      exact ⟨rfl, hbuf' (Nat.lt_succ_self _), by simp, by simp; omega, .inr (by simp)⟩

/-- **`render_field_value` keeps its contract from any buffer that is not empty.** -/
theorem renderFieldValue_contract (flags : RenderFlags) (value : Value) {fuel : Nat}
    (hfuel : 2 ≤ fuel) {w₀ : World} (h0 : 0 < w₀.bufcap) :
    Triple (· = w₀) (renderFieldValue fuel flags value) (Staged flags value w₀)
      fun e w => e = .failed ∧ w.bufcap = w₀.bufcap ∧ w.log = w₀.log ++ [.alloc false] := by
  intro w hw
  subst w
  have hc : (cAssert (0 < w₀.bufcap)) w₀ = .ok () w₀ := by rw [cAssert_of_true h0]; rfl
  rw [renderFieldValue, run_bind_ok (x := getBufcap) rfl, run_bind_ok hc]
  exact renderFieldValueLoop_contract flags value hfuel h0 w₀ rfl

/-- A value `obtain_result_field` stages is left at `*s = *buf` under the same contract. -/
theorem obtainResultField_staged {fuel : Nat} (hfuel : 2 ≤ fuel) (flags : RenderFlags)
    (row : List Value) (i : Nat)
    (hstaged : ¬((row.getD i default).type = .string ∧ (!flags.quoteStrings) = true))
    {w₀ : World} (h0 : 0 < w₀.bufcap) :
    Triple (· = w₀) (obtainResultField fuel flags row i)
      (fun f w => f.src = .staging 0 ∧ Staged flags (row.getD i default) w₀ f.n w)
      fun e w => e = .failed ∧ w.bufcap = w₀.bufcap ∧ w.log = w₀.log ++ [.alloc false] := by
  unfold obtainResultField
  rw [if_neg hstaged]
  exact (renderFieldValue_contract flags _ hfuel h0).bind fun _ => Triple.pure fun _ h => ⟨rfl, h⟩

/-! ### Over a whole run -/

/-- **Over every run of `neo4j_render_table`, every call of `render_field_value` finds a buffer
of at least two bytes, and keeps its contract.**  `renderTableVia` is the table renderer with
its callback of the body rows a parameter, and `renderTable` for `obtain_result_field`.  Run
with that callback behind `assert(*bufcap >= 2)`, from any input, it fails no `assert`: every
call of `obtain_result_field` in a run of the table finds two bytes.  No `assert` of the table
renderer itself fails either.  From any buffer that is not empty, a call that stages its value
returns the whole length of the text, with the text and its terminator at `*s = *buf`,
shorter than the buffer, which did not shrink, after at most one `realloc`. -/
theorem renderTable_staging :
    (∀ env fuel results width flags, renderTable env fuel results width flags =
      renderTableVia env fuel results width flags (obtainResultField fuel)) ∧
    (∀ env fuel results width flags, Triple (fun _ => True)
      (renderTableVia env fuel results width flags (bufcapChecked 2 (obtainResultField fuel)))
      (fun _ _ => True) fun e _ => e ≠ .abort) ∧
    (∀ env fuel results width flags, Triple (fun _ => True)
      (renderTable env fuel results width flags) (fun _ _ => True) fun e _ => e ≠ .abort) ∧
    (∀ fuel flags (row : List Value) i, 2 ≤ fuel →
      ¬((row.getD i default).type = .string ∧ (!flags.quoteStrings) = true) →
      ∀ w₀ : World, 0 < w₀.bufcap → Triple (· = w₀) (obtainResultField fuel flags row i)
        (fun f w => f.src = .staging 0 ∧ Staged flags (row.getD i default) w₀ f.n w)
        fun e w => e = .failed ∧ w.bufcap = w₀.bufcap ∧ w.log = w₀.log ++ [.alloc false]) :=
  ⟨renderTable_via,
    fun env fuel results width flags => (renderTableVia_safe env fuel results width flags
      fun _ hc => bufcapChecked_safe fuel hc).conseq (fun _ _ => Nat.zero_le _)
        (fun _ _ _ => trivial) fun _ _ => id,
    fun env fuel results width flags => (renderTable_safe env fuel results width flags).conseq
      (fun _ _ => Nat.zero_le _) (fun _ _ _ => trivial) fun _ _ => id,
    fun _ flags row i hfuel hstaged _ h0 => obtainResultField_staged hfuel flags row i hstaged h0⟩

/-- A value of another type whose text is `abc`. -/
def abcValue : Value := ⟨.other, [], bytesOf "abc"⟩

/-- A world whose staging buffer has two bytes. -/
def twoByteWorld : World := { World.init with bufcap := 2 }

/-- `abc` in a two-byte buffer: one `realloc` to four bytes, and the text at the head of the
buffer. -/
theorem renderTable_staging_abc :
    Triple (· = twoByteWorld) (obtainResultField 2 asciiFlags [abcValue] 0)
        (fun f w => f.src = .staging 0 ∧ Staged asciiFlags abcValue twoByteWorld f.n w)
        (fun e w => e = .failed ∧ w.bufcap = twoByteWorld.bufcap ∧
          w.log = twoByteWorld.log ++ [.alloc false]) ∧
      ∃ w, obtainResultField 2 asciiFlags [abcValue] 0 twoByteWorld = .ok ⟨.staging 0, 3, true⟩ w ∧
        w.bufcap = 4 ∧ w.buf = bytesOf "abc" ++ [0] ∧ w.log = [.alloc true] :=
  ⟨renderTable_staging.2.2.2 2 asciiFlags [abcValue] 0 le_rfl (by decide) twoByteWorld (by decide),
    _, rfl, rfl, rfl, rfl⟩

end Neo4jRender
