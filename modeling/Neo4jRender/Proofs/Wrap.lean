/-
The continuation lines of a row.

With `NEO4J_RENDER_WRAP_VALUES`, `render_row` draws what does not fit on a row's first line
on further lines, one turn of its `while (wrap)` loop a line, and stops once a turn leaves no
column with text.  Two things in that loop are not as the spec has them.

  * Nothing makes a turn consume anything.  When the table's width leaves each field two
    columns, `neo4j_render_table` keeps columns of width 2, whose cells hold nothing; every
    non-empty text then overflows on every line, and the loop never ends
    (`renderTable_wrap_diverges`, for every fuel).
  * A column whose text ends on a continuation line keeps the entry it had, so its last
    segment is drawn again on every later line (`renderRow_repeats_segment`).

The first is a fact about every run of the loop: a line on which every cell is stalled
leaves the pending texts as they were (`renderRowWrapLine_stalled`), so by induction on the
fuel every run of the loop ends out of fuel (`renderRowWrap_diverges`).  The worlds here are
reliable, so no call fails and stops the loop for another reason.
-/
import Neo4jRender.Proofs.Guard
import Neo4jRender.Proofs.Field
import Neo4jRender.Proofs.Layout

namespace Neo4jRender

variable {E : Err → World → Prop}

/-! ### Cells with no room -/

/-- `normalize_render_flags` changes no bit but `NEO4J_RENDER_ASCII_ART`. -/
@[simp] theorem normalizeRenderFlags_wrapValues (codeset : String) (flags : RenderFlags) :
    (normalizeRenderFlags codeset flags).wrapValues = flags.wrapValues := by
  unfold normalizeRenderFlags; split_ifs <;> rfl

/-- Flags as `neo4j_render_table` passes them on for `NEO4J_RENDER_ASCII` and
`NEO4J_RENDER_WRAP_VALUES`. -/
def wrapFlags : RenderFlags := { asciiFlags with wrapValues := true }

@[simp] theorem Src.advance_zero (s : Src) : s.advance 0 = s := by
  cases s <;> rfl

/-- A cell with no room writes nothing and consumes nothing. -/
@[simp] theorem renderField_zero (env : Env) (mem : List UInt8) (n : Nat) (flags : RenderFlags) :
    renderField env mem n 0 flags = pure 0 := by
  cases n <;> rfl

/-- Every column is two wide, so that its cell has no room, and still has text to draw. -/
def Stalled (widths : List Nat) (ps : List Pending) : Prop :=
  List.Forall₂ (fun width p => width = 2 ∧ 0 < p.n) widths ps

/-- **A line of stalled cells leaves every pending text as it was**, and asks for one more. -/
theorem renderRowWrapLine_stalled (env : Env) (flags : RenderFlags) (glifs : BorderGlifs)
    {widths : List Nat} {ps : List Pending} (h : Stalled widths ps) :
    Triple World.Reliable (renderRowWrapLine env flags glifs widths ps)
      (fun r w => r = (ps, !widths.isEmpty) ∧ w.Reliable) E := by
  induction h with
  | nil => exact Triple.pure fun _ h => ⟨rfl, h⟩
  | @cons width p widths ps hp _ ih =>
    obtain ⟨rfl, hn⟩ := hp
    simp only [renderRowWrapLine, if_neg (show (2 : Nat) ≠ 0 by decide), le_refl, cAssert_of_true,
      Nat.sub_self, renderField_zero, pure_bind, bind_assoc, if_neg (Nat.not_le.mpr hn), if_pos hn]
    refine (orFail_fwrite_calm .reliable _).bind fun _ =>
      (orFail_fwrite_calm .reliable _).bind fun _ =>
      (readSrc_spec _).bind fun _ => (orFail_fwrite_calm .reliable _).bind fun _ =>
        ih.bind fun r => Triple.pure fun w ⟨hr, hw⟩ => ⟨?_, hw⟩
    subst hr
    simp

/-- **A stalled row's continuation loop runs out of every fuel.** -/
theorem renderRowWrap_diverges (env : Env) (flags : RenderFlags) (glifs : BorderGlifs)
    {widths : List Nat} {ps : List Pending} (h : Stalled widths ps) (hne : widths ≠ [])
    (undersize : Bool) (fuel : Nat) :
    Triple World.Reliable (renderRowWrap env flags glifs widths undersize fuel ps)
      (fun _ _ => False) (fun e _ => e = .outOfFuel) := by
  have hwrap : (!widths.isEmpty) = true := by simpa using hne
  induction fuel with
  | zero => exact Triple.throw fun _ _ => rfl
  | succ fuel ih =>
    refine (renderRowWrapLine_stalled env flags glifs h).bind fun r => Triple.prop fun hr => ?_
    subst hr
    exact (renderRowEnd_calm .reliable _ _).bind fun _ => by simpa only [hwrap, if_true] using ih

/-- The first line of a row whose columns are all two wide, from column `i`, with a
callback that hands out non-empty texts that stay put: every column is left stalled. -/
theorem renderRowFirst_stalled (env : Env) {flags : RenderFlags} (glifs : BorderGlifs)
    {cb : Nat → RenderM FieldText} (hwrap : flags.wrapValues = true) {widths : List Nat}
    (hw : ∀ width ∈ widths, width = 2) (i : Nat)
    (hcb : ∀ j, i ≤ j → j < i + widths.length → Triple World.Reliable (cb j)
      (fun f w => f.duplicate = false ∧ 0 < f.n ∧ w.Reliable) E) :
    Triple World.Reliable (renderRowFirst env flags glifs (some cb) i widths)
      (fun r w => Stalled widths r.1 ∧ r.2 = !widths.isEmpty ∧ w.Reliable) E := by
  induction widths generalizing i with
  | nil => exact Triple.pure fun _ h => ⟨.nil, rfl, h⟩
  | cons width widths ih =>
    obtain rfl : width = 2 := hw width (List.mem_cons_self _ _)
    simp only [renderRowFirst, if_neg (show (2 : Nat) ≠ 0 by decide), le_refl, cAssert_of_true,
      Nat.sub_self, renderField_zero, pure_bind, bind_assoc]
    refine (orFail_fwrite_calm .reliable _).bind fun _ =>
      (orFail_fwrite_calm .reliable _).bind fun _ =>
      (hcb i le_rfl (by simp)).bind fun f => Triple.prop fun hd => Triple.prop fun hn => ?_
    simp only [if_neg (Nat.not_le.mpr hn), hwrap, if_true, keepRest, hd, Bool.false_eq_true,
      if_false, map_pure, pure_bind, bind_assoc, Src.advance_zero, Nat.sub_zero]
    refine (readSrc_spec _).bind fun _ => (orFail_fwrite_calm .reliable _).bind fun _ =>
      (ih (fun w hw' => hw w (List.mem_cons_of_mem _ hw')) (i + 1) fun j hj hj' =>
        hcb j (by omega) (by simp only [List.length_cons] at hj' ⊢; omega)).bind fun r =>
        Triple.pure fun w ⟨hs, hr, hw'⟩ => ⟨.cons ⟨rfl, hn⟩ hs, by simp [hr], hw'⟩

/-- **With wrapping, a row whose columns are all two wide and whose texts are not empty never
ends.** -/
theorem renderRow_diverges (env : Env) (fuel : Nat) {widths : List Nat} (undersize : Bool)
    {flags : RenderFlags} {cb : Nat → RenderM FieldText} (hwrap : flags.wrapValues = true)
    (hw : ∀ width ∈ widths, width = 2) (hne : widths ≠ [])
    (hcb : ∀ j < widths.length, Triple World.Reliable (cb j)
      (fun f w => f.duplicate = false ∧ 0 < f.n ∧ w.Reliable) (fun _ _ => False)) :
    Triple World.Reliable (renderRow env fuel widths undersize flags (some cb))
      (fun _ _ => False) (fun e _ => e = .outOfFuel) := by
  have hmore : (!widths.isEmpty) = true := by simpa using hne
  simp only [renderRow, hwrap, if_true]
  refine (orFail_attempt_calm .reliable (.inr rfl)).bind fun _ =>
    (renderRowFirst_stalled env _ hwrap hw 0 fun j _ hj =>
      (hcb j (by simpa using hj)).conseq (fun _ => id) (fun _ _ => id) fun _ _ h => h.elim).bind
      fun r => Triple.prop fun hs => Triple.prop fun hr => ?_
  exact (renderRowEnd_calm .reliable _ _).bind fun _ => by
    simpa only [hr, hmore, if_true] using renderRowWrap_diverges env flags _ hs hne undersize fuel

/-- **With wrapping, a table whose columns come out two wide never finishes its header**, for
every fuel: each cell has no room, so a non-empty field name overflows on every line and no
line consumes a byte of it. -/
theorem renderTable_wrap_diverges (env : Env) (fuel : Nat) (results : ResultStream)
    (width : Nat) (flags : RenderFlags) {k : Nat} {undersize : Bool}
    (hwidth : 1 < width ∧ width < env.maxWidth) (hfailure : results.failure = 0)
    (hfit : fitColumns width results.nfields (columnWidthFor width results.nfields) false =
      (k, 2, undersize))
    (hnames : ∀ name ∈ results.fieldnames, name.1 ≠ []) (hwrap : flags.wrapValues = true)
    {w : World} (hw : w.Reliable) :
    ∃ w', renderTable env fuel results width flags w = .error .outOfFuel w' := by
  have hfit' := fitColumns_fit width results.nfields false
  rw [hfit] at hfit'
  obtain ⟨hle, heq, -, -⟩ := hfit'
  simp only at hle heq
  have hk : k ≠ 0 := by rintro rfl; simp [columnWidthFor] at heq
  have hname : ∀ j < k, 0 < (results.fieldname j).length := fun j hj => by
    have hj' : j < results.fieldnames.length := Nat.lt_of_lt_of_le hj hle
    unfold ResultStream.fieldname
    rw [List.getD_eq_getElem?_getD, List.getElem?_eq_getElem hj', Option.getD_some]
    exact List.length_pos.mpr (hnames _ (List.getElem_mem hj'))
  refine Triple.error_of ?_ hw
  simp only [renderTable]
  rw [hfit]
  simp only [require_of_true hwidth, hfailure, pure_bind, cAssert_of_true (Or.inl (le_refl 2)),
    if_pos (Nat.pos_of_ne_zero hk), if_pos (show 0 < 2 by decide)]
  refine ((checkResults_spec (Q := fun _ => World.Reliable) 0).pre fun w hw => by
    simpa using hw).bind fun _ => ?_
  refine Triple.ite (fun h0 => absurd hle (by rw [h0]; omega)) fun _ =>
    (orFail_attempt_calm .reliable (.inr rfl)).bind fun _ => ?_
  refine Triple.bind (Q := fun _ _ => False) (Triple.onFailure (F := fun e _ => e = .outOfFuel) ?_
    (fun _ h => nomatch h) fun _ _ _ => id) fun _ _ h => h.elim
  refine (newBuffer_spec _).bind fun _ => (orFail_attempt_calm .reliable (.inr rfl)).bind fun _ =>
    (renderHrule_calm .reliable _ _ _ _).bind fun _ =>
      (renderRow_diverges env fuel undersize (by simpa using hwrap)
        (fun _ h => List.eq_of_mem_replicate h) (by simpa using hk) fun j hj =>
          Triple.pure fun _ h => ⟨rfl, hname j (by simpa using hj), h⟩).bind fun _ _ h => h.elim

/-- Three one-letter field names in a table ten columns wide: the columns come out two wide. -/
theorem renderTable_wrap_diverges_ten :
    fitColumns 10 3 (columnWidthFor 10 3) false = (3, 2, false) ∧
    ∃ w', renderTable Env.utf8Terminal 100
      ⟨[⟨bytesOf "a", by decide⟩, ⟨bytesOf "b", by decide⟩, ⟨bytesOf "c", by decide⟩],
        [], 0, 0, by decide⟩ 10 wrapFlags World.init = .error .outOfFuel w' :=
  ⟨rfl, renderTable_wrap_diverges Env.utf8Terminal 100 _ 10 wrapFlags (by decide) rfl rfl
    (by decide) rfl fun _ => rfl⟩

/-! ### A column that ends early -/

/-- Two columns whose cells are one wide, with the field names `ab` and `abc`.  The first text
ends on the second line; its entry is kept, so its `b` is drawn again on the third line,
where its cell should be blank. -/
theorem renderRow_repeats_segment :
    ∃ w, renderRow Env.utf8Terminal 2 [3, 3] false wrapFlags (some (obtainFieldname
        ⟨[⟨bytesOf "ab", by decide⟩, ⟨bytesOf "abc", by decide⟩], [], 0, 0, by decide⟩))
        World.init = .ok () w ∧
      w.out = bytesOf "| a=| a=|\n|=b |=b=|\n|=b |=c |\n" :=
  ⟨_, rfl, rfl⟩

end Neo4jRender
