/-
The model's fuel changes nothing but its own running out.

The loops the C code runs until a condition holds (the `while (wrap)` of `render_row`, the
`realloc` retry loops of `render_field_value` and `write_value`) take the renderers' `fuel`
in the model, and a loop that uses it up throws `outOfFuel`.  The fuel is the model's, not
the code's: a run that does not run out of fuel gives the same result with any more fuel,
so every result the model gives other than `outOfFuel` is the code's
(`renderers_more_fuel`).  The termination theorems then say which fuel is enough.

`MoreFuel m m'` says that on every world `m'` gives what `m` gives, unless `m` ran out of
fuel.  It holds of every computation with itself, of `outOfFuel` with anything, and goes
through `bind`, `ite` and the `failure:` label, which does not catch `outOfFuel`.  One lemma
a function that takes the fuel, with one unit more on the right, and `MoreFuel.mono` adds the
units up.
-/
import Neo4jRender.Proofs.Table

namespace Neo4jRender

/-- `m'` gives what `m` gives on every world where `m` does not run out of fuel. -/
def MoreFuel {α : Type} (m m' : RenderM α) : Prop :=
  ∀ w, (∃ w', m w = .error .outOfFuel w') ∨ m' w = m w

namespace MoreFuel

variable {α β : Type} {m m' m'' : RenderM α}

theorem refl (m : RenderM α) : MoreFuel m m := fun _ => .inr rfl

theorem trans (h : MoreFuel m m') (h' : MoreFuel m' m'') : MoreFuel m m'' := fun w => by
  rcases h w with hm | hm
  · exact .inl hm
  · rcases h' w with hm' | hm'
    · exact .inl (hm ▸ hm')
    · exact .inr (hm'.trans hm)

theorem outOfFuel (m' : RenderM α) : MoreFuel (throw .outOfFuel) m' := fun w => .inl ⟨w, rfl⟩

theorem bind {f f' : α → RenderM β} (hm : MoreFuel m m') (hf : ∀ a, MoreFuel (f a) (f' a)) :
    MoreFuel (m >>= f) (m' >>= f') := fun w => by
  rcases hm w with ⟨w₁, hmw⟩ | hmw
  · exact .inl ⟨w₁, run_bind_error hmw f⟩
  · cases hm₁ : m w with
    | ok a w₁ =>
      rw [hm₁] at hmw
      rw [run_bind_ok hm₁, run_bind_ok hmw]
      exact hf a w₁
    | error e w₁ =>
      rw [hm₁] at hmw
      exact .inr (by rw [run_bind_error hm₁, run_bind_error hmw])

theorem ite {c : Prop} [Decidable c] {t t' e e' : RenderM α} (ht : MoreFuel t t')
    (he : MoreFuel e e') : MoreFuel (if c then t else e) (if c then t' else e') := by
  split
  · exact ht
  · exact he

/-- The `failure:` label runs its cleanup after a `-1` only, not after `outOfFuel`. -/
theorem onFailure {cleanup : RenderM Unit} (h : MoreFuel m m') :
    MoreFuel (Neo4jRender.onFailure m cleanup) (Neo4jRender.onFailure m' cleanup) := fun w => by
  rcases h w with ⟨w₁, hmw⟩ | hmw
  · exact .inl ⟨w₁, by simp only [Neo4jRender.onFailure, hmw]⟩
  · exact .inr (by simp only [Neo4jRender.onFailure, hmw])

/-- One unit of fuel at a time gives any more fuel. -/
theorem mono {m : Nat → RenderM α} (h : ∀ fuel, MoreFuel (m fuel) (m (fuel + 1)))
    {fuel fuel' : Nat} (hle : fuel ≤ fuel') : MoreFuel (m fuel) (m fuel') := by
  induction hle with
  | refl => exact refl _
  | step _ ih => exact ih.trans (h _)

end MoreFuel

/-! ### `render.c` -/

section Row

variable (env : Env) (flags : RenderFlags) (glifs : BorderGlifs)

/-- The first line with callbacks that agree where the first does not run out of fuel. -/
theorem renderRowFirst_moreFuel {cb cb' : Nat → RenderM FieldText}
    (hcb : ∀ i, MoreFuel (cb i) (cb' i)) : ∀ i widths,
      MoreFuel (renderRowFirst env flags glifs (some cb) i widths)
        (renderRowFirst env flags glifs (some cb') i widths)
  | _, [] => .refl _
  | i, _ :: widths =>
    have hrest := renderRowFirst_moreFuel hcb (i + 1) widths
    .ite (hrest.bind fun _ => .refl _)
      ((MoreFuel.refl _).bind fun _ => (MoreFuel.refl _).bind fun _ =>
        (MoreFuel.refl _).bind fun _ => (hcb i).bind fun _ => (MoreFuel.refl _).bind fun _ =>
        (MoreFuel.refl _).bind fun _ => (MoreFuel.refl _).bind fun _ => hrest.bind fun _ =>
        .refl _)

theorem renderRowWrap_moreFuel (widths : List Nat) (undersize : Bool) : ∀ fuel ps,
    MoreFuel (renderRowWrap env flags glifs widths undersize fuel ps)
      (renderRowWrap env flags glifs widths undersize (fuel + 1) ps)
  | 0, _ => .outOfFuel _
  | fuel + 1, _ => (MoreFuel.refl _).bind fun (ps', _) => (MoreFuel.refl _).bind fun _ =>
    .ite (renderRowWrap_moreFuel widths undersize fuel ps') (.refl _)

theorem renderRow_moreFuel (fuel : Nat) (widths : List Nat) (undersize : Bool)
    {cb cb' : Nat → RenderM FieldText} (hcb : ∀ i, MoreFuel (cb i) (cb' i)) :
    MoreFuel (renderRow env fuel widths undersize flags (some cb))
      (renderRow env (fuel + 1) widths undersize flags (some cb')) :=
  (MoreFuel.refl _).bind fun _ => (renderRowFirst_moreFuel env flags _ hcb 0 widths).bind
    fun (fields, _) => (MoreFuel.refl _).bind fun _ =>
      .ite (renderRowWrap_moreFuel env flags _ widths undersize fuel fields) (.refl _)

end Row

/-! ### `render_results.c` -/

section Results

variable (flags : RenderFlags)

theorem renderFieldValueLoop_moreFuel (value : Value) : ∀ fuel,
    MoreFuel (renderFieldValueLoop flags value fuel) (renderFieldValueLoop flags value (fuel + 1))
  | 0 => .outOfFuel _
  | fuel + 1 => (MoreFuel.refl _).bind fun _ => (MoreFuel.refl _).bind fun _ =>
    .ite (.refl _) ((MoreFuel.refl _).bind fun _ => (MoreFuel.refl _).bind fun _ =>
      renderFieldValueLoop_moreFuel value fuel)

theorem obtainResultField_moreFuel (fuel : Nat) (row : List Value) (i : Nat) :
    MoreFuel (obtainResultField fuel flags row i) (obtainResultField (fuel + 1) flags row i) :=
  .ite (.refl _) (((MoreFuel.refl _).bind fun _ =>
    (MoreFuel.refl _).bind fun _ => renderFieldValueLoop_moreFuel flags _ fuel).bind
      fun _ => .refl _)

theorem renderTableRows_moreFuel (env : Env) (fuel : Nat) (widths : List Nat) (undersize : Bool) :
    ∀ first rows, MoreFuel (renderTableRows env fuel widths undersize flags first rows)
      (renderTableRows env (fuel + 1) widths undersize flags first rows)
  | _, [] => .refl _
  | _, row :: rows => (MoreFuel.refl _).bind fun _ =>
    (renderRow_moreFuel env flags fuel widths undersize
      (obtainResultField_moreFuel flags fuel row)).bind fun _ =>
    renderTableRows_moreFuel env fuel widths undersize false rows

theorem renderTable_moreFuel (env : Env) (fuel : Nat) (results : ResultStream) (width : Nat) :
    MoreFuel (renderTable env fuel results width flags)
      (renderTable env (fuel + 1) results width flags) := by
  refine (MoreFuel.refl _).bind fun _ => (MoreFuel.refl _).bind fun _ => .ite (.refl _) ?_
  dsimp only
  rcases fitColumns width results.nfields (columnWidthFor width results.nfields) false
    with ⟨k, cw, u⟩
  exact (MoreFuel.refl _).bind fun _ => (MoreFuel.refl _).bind fun _ =>
    (MoreFuel.refl _).bind fun _ => (MoreFuel.onFailure ((MoreFuel.refl _).bind fun _ =>
      (MoreFuel.refl _).bind fun _ => (MoreFuel.refl _).bind fun _ =>
      (renderRow_moreFuel env _ fuel _ u fun _ => .refl _).bind fun _ =>
      (MoreFuel.refl _).bind fun _ => (renderTableRows_moreFuel _ env fuel _ u true _).bind
      fun _ => .refl _)).bind fun _ => .refl _

theorem writeValueLoop_moreFuel (value : Value) : ∀ fuel,
    MoreFuel (writeValueLoop value fuel) (writeValueLoop value (fuel + 1))
  | 0 => .outOfFuel _
  | fuel + 1 => (MoreFuel.refl _).bind fun _ => (MoreFuel.refl _).bind fun _ =>
    .ite (.refl _) ((MoreFuel.refl _).bind fun _ => (MoreFuel.refl _).bind fun _ =>
      writeValueLoop_moreFuel value fuel)

theorem writeValue_moreFuel (fuel : Nat) (value : Value) :
    MoreFuel (writeValue fuel flags value) (writeValue (fuel + 1) flags value) :=
  .ite (.refl _) (.ite (.refl _) ((MoreFuel.refl _).bind fun _ => (MoreFuel.refl _).bind
    fun _ => (writeValueLoop_moreFuel value fuel).bind fun _ => .refl _))

theorem csvCells_moreFuel {nfields : Nat} {cell cell' : Nat → RenderM Unit}
    (hcell : ∀ i, MoreFuel (cell i) (cell' i)) :
    ∀ k i, MoreFuel (csvCells nfields cell k i) (csvCells nfields cell' k i)
  | 0, _ => .refl _
  | k + 1, i => (hcell i).bind fun _ => (MoreFuel.refl _).bind fun _ =>
    csvCells_moreFuel hcell k (i + 1)

theorem renderCsvRows_moreFuel (fuel nfields : Nat) : ∀ rows,
    MoreFuel (renderCsvRows fuel flags nfields rows) (renderCsvRows (fuel + 1) flags nfields rows)
  | [] => .refl _
  | _ :: rows => (csvCells_moreFuel (fun _ => writeValue_moreFuel flags fuel _) _ _).bind
    fun _ => (MoreFuel.refl _).bind fun _ => renderCsvRows_moreFuel fuel nfields rows

theorem renderCsv_moreFuel (env : Env) (fuel : Nat) (results : ResultStream) :
    MoreFuel (renderCsv env fuel results flags) (renderCsv env (fuel + 1) results flags) :=
  (MoreFuel.refl _).bind fun _ => (MoreFuel.refl _).bind fun _ => MoreFuel.onFailure <|
    (MoreFuel.refl _).bind fun _ => .ite (.refl _) ((MoreFuel.refl _).bind fun _ =>
      (MoreFuel.refl _).bind fun _ => (MoreFuel.refl _).bind fun _ =>
        (renderCsvRows_moreFuel flags fuel _ _).bind fun _ => .refl _)

end Results

/-- The fuel of the model changes no result but its own running out: for every input and
world, a run of `neo4j_render_table` or of `neo4j_render_csv` that does not run out of fuel
gives the same result, to the world it leaves, with any more fuel.  A fact of the embedding,
which the code, having no fuel, does not need. -/
theorem renderers_more_fuel (env : Env) (results : ResultStream) (width : Nat)
    (flags : RenderFlags) {fuel fuel' : Nat} (hle : fuel ≤ fuel') (w : World) :
    ((∃ w', renderTable env fuel results width flags w = .error .outOfFuel w') ∨
      renderTable env fuel' results width flags w = renderTable env fuel results width flags w) ∧
    ((∃ w', renderCsv env fuel results flags w = .error .outOfFuel w') ∨
      renderCsv env fuel' results flags w = renderCsv env fuel results flags w) :=
  ⟨MoreFuel.mono (renderTable_moreFuel flags env · results width) hle w,
    MoreFuel.mono (renderCsv_moreFuel flags env · results) hle w⟩

end Neo4jRender
