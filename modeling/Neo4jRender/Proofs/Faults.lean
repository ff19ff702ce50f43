/-
A failing call only cuts the output short.

Every call the renderers make to the stream or the allocator is checked where it is made, by
`if (… == EOF) goto failure;` or `if (p == NULL) return -1;`: none is retried or skipped, and
the one flush whose result is ignored sits in the cleanup after a failure.  So a run on a world
whose stream or allocator fails some call makes the calls the run on the same world with every
call succeeding makes, in the same order with the same outcomes, until the first call that
fails; there it returns `-1`, having written a prefix of what the other run writes.

`World.heal` is the world with the fault oracle emptied, and `Cut` relates the results of the
two runs.  `Cuts m` says both of them for one function: its runs only add to the output, and
each is cut short by a failing call.  It is proved once for each outside call and lifted by
`bind`, `ite`, `map` and the `failure:` label, one lemma a function of both files, each citing
the lemmas of the functions it calls (`renderTable_cuts`, `renderCsv_cuts`).

With what a run on a reliable stream writes (`renderTable_drawn`, `renderTable_wraps`,
`renderCsv_writes`) this gives that whatever fails, `neo4j_render_table` and
`neo4j_render_csv` write a prefix of the table or of the records, and all of it when they
return 0.
-/
import Neo4jRender.Proofs.Wrapped
import Neo4jRender.Proofs.CsvReturns

namespace Neo4jRender

/-- The world with a stream and an allocator that never fail. -/
def World.heal (w : World) : World := { w with fault := fun _ => none }

@[simp] theorem World.heal_out (w : World) : w.heal.out = w.out := rfl

theorem World.heal_reliable (w : World) : w.heal.Reliable := fun _ => rfl

/-- A run on a world to the run on the same world healed: where the first returns, the second
returns the same in the same world but for the fault oracle; where the first fails, what it
wrote is a prefix of what the second writes. -/
def Cut {α : Type} : EStateM.Result Err World α → EStateM.Result Err World α → Prop
  | .ok a w, r => r = .ok a w.heal
  | .error _ w, r => w.out <+: (finalWorld r).out

/-- `m` only adds to the output, and a failing call only cuts its run short. -/
structure Cuts {α : Type} (m : RenderM α) : Prop where
  /-- The output only grows. -/
  grows : ∀ w, w.out <+: (finalWorld (m w)).out
  /-- The run on any world is cut from the run on the world healed. -/
  cut : ∀ w, Cut (m w) (m w.heal)

namespace Cuts

variable {α β : Type} {m : RenderM α}

theorem pure (a : α) : Cuts (Pure.pure a : RenderM α) :=
  ⟨fun _ => List.prefix_refl _, fun _ => rfl⟩

theorem throw (e : Err) : Cuts (MonadExcept.throw e : RenderM α) :=
  ⟨fun _ => List.prefix_refl _, fun _ => List.prefix_refl _⟩

/-- What `f` adds after `m` keeps what `m` ended with. -/
theorem final_bind {f : α → RenderM β} (hf : ∀ a, Cuts (f a)) (w : World) :
    (finalWorld (m w)).out <+: (finalWorld ((m >>= f) w)).out := by
  cases hmw : m w with
  | ok a w₁ => rw [run_bind_ok hmw]; exact (hf a).grows w₁
  | error e w₁ => simp only [run_bind_error hmw, finalWorld_error, List.prefix_refl]

theorem bind {f : α → RenderM β} (hm : Cuts m) (hf : ∀ a, Cuts (f a)) : Cuts (m >>= f) where
  grows w := (hm.grows w).trans (final_bind hf w)
  cut w := by
    have h := hm.cut w
    cases hmw : m w with
    | ok a w₁ =>
      have hheal : m w.heal = .ok a w₁.heal := by rw [hmw] at h; exact h
      rw [run_bind_ok hmw, run_bind_ok hheal]
      exact (hf a).cut w₁
    | error e w₁ =>
      rw [hmw] at h
      rw [run_bind_error hmw]
      exact h.trans (final_bind hf w.heal)

theorem map {f : α → β} (hm : Cuts m) : Cuts (f <$> m) where
  grows w := by
    have h := hm.grows w
    cases hmw : m w <;> rw [hmw] at h
    · rw [run_map_ok hmw]; exact h
    · rw [run_map_error hmw]; exact h
  cut w := by
    have h := hm.cut w
    cases hmw : m w with
    | ok a w₁ =>
      have hheal : m w.heal = .ok a w₁.heal := by rw [hmw] at h; exact h
      rw [run_map_ok hmw, run_map_ok hheal]
      rfl
    | error e w₁ =>
      rw [hmw] at h
      rw [run_map_error hmw]
      cases hmh : m w.heal <;> rw [hmh] at h
      · rw [run_map_ok hmh]; exact h
      · rw [run_map_error hmh]; exact h

theorem ite {c : Prop} [Decidable c] {t e : RenderM α} (ht : Cuts t) (he : Cuts e) :
    Cuts (if c then t else e) := by
  split
  · exact ht
  · exact he

/-- A call that reads the world as `v` does and changes it as `g` does, neither looking at the
fault oracle. -/
theorem of_run {v : World → α} {g : World → World} (hm : ∀ w, m w = .ok (v w) (g w))
    (hv : ∀ w, v w.heal = v w) (hg : ∀ w, g w.heal = (g w).heal)
    (hout : ∀ w, w.out <+: (g w).out) : Cuts m where
  grows w := by rw [hm]; exact hout w
  cut w := by
    show Cut (m w) (m w.heal)
    rw [hm w, hm w.heal, hv, hg]
    rfl

end Cuts

/-! ### The calls -/

section Calls

/-- A checked call of the stream or the allocator: on a healed world it succeeds, as it does
where it succeeds at all; where it fails, it writes nothing. -/
theorem orFail_cuts {call : RenderM Bool} {g : World → World} (hg : ∀ w, w.out <+: (g w).out)
    (hheal : ∀ w, call w.heal = .ok true (g w).heal)
    (hcall : ∀ w, call w = .ok true (g w) ∨ ∃ w', call w = .ok false w' ∧ w'.out = w.out) :
    Cuts (orFail call) := by
  have hok : ∀ {w w'}, call w = .ok true w' → orFail call w = .ok () w' := fun h => by
    rw [orFail, run_bind_ok h]; rfl
  have hfail : ∀ {w w'}, call w = .ok false w' → orFail call w = .error .failed w' := fun h => by
    rw [orFail, run_bind_ok h]; rfl
  refine ⟨fun w => ?_, fun w => ?_⟩ <;> rcases hcall w with h | ⟨w', h, hout⟩
  · rw [hok h]; exact hg w
  · simp only [hfail h, finalWorld_error, hout, List.prefix_refl]
  · rw [hok h]; exact hok (hheal w)
  · rw [hfail h]
    show w'.out <+: (finalWorld (orFail call w.heal)).out
    rw [hok (hheal w), hout]
    exact hg w

theorem orFail_fwrite_cuts (bytes : List UInt8) : Cuts (orFail (fwrite bytes)) := by
  refine orFail_cuts (g := fun w => if bytes = [] then w else w.record (.write true) bytes)
    (fun w => ?_) (fun w => ?_) fun w => ?_ <;> by_cases hb : bytes = []
  · simp only [if_pos hb, List.prefix_refl]
  · simp only [if_neg hb, World.record_out, List.prefix_append]
  · simp only [fwrite, if_pos hb]
  · simp only [fwrite, if_neg hb]; rfl
  · simp only [fwrite, if_pos hb, true_or]
  · cases hf : w.fault w.log.length with
    | none => simp only [fwrite, if_neg hb, hf, true_or]
    | some e => exact .inr ⟨w.reject (.write false) e, by simp only [fwrite, if_neg hb, hf], rfl⟩

theorem orFail_attempt_cuts (call : Bool → Call) : Cuts (orFail (attempt call)) := by
  refine orFail_cuts (g := fun w => w.record (call true) []) (fun w => ?_) (fun _ => rfl)
    fun w => ?_
  · simp only [World.record_out, List.prefix_append]
  · cases hf : w.fault w.log.length with
    | none => simp only [attempt, hf, true_or]
    | some e => exact .inr ⟨w.reject (call false) e, by simp only [attempt, hf], rfl⟩

theorem decodeAt_cuts (mem : List UInt8) : Cuts (decodeAt mem) := by
  constructor <;> intro w <;> cases h : u8codepoint mem
  all_goals simp only [decodeAt, h, finalWorld_ok, finalWorld_error, World.record_out,
    List.append_nil, List.prefix_refl]
  · exact List.prefix_refl _
  · rfl

theorem checkFailure_cuts (code : Nat) : Cuts (checkFailure code) :=
  .of_run (fun _ => rfl) (fun _ => rfl) (fun _ => rfl) fun _ => List.prefix_append _ _

theorem getErrno_cuts : Cuts getErrno :=
  .of_run (fun _ => rfl) (fun _ => rfl) (fun _ => rfl) fun _ => List.prefix_refl _

theorem setErrno_cuts (e : Nat) : Cuts (setErrno e) :=
  .of_run (fun _ => rfl) (fun _ => rfl) (fun _ => rfl) fun _ => List.prefix_refl _

theorem cAssert_cuts (c : Prop) [Decidable c] : Cuts (cAssert c) :=
  .ite (.pure _) (.throw _)

theorem require_cuts (c : Prop) [Decidable c] : Cuts (require c) :=
  .ite (.pure _) ((setErrno_cuts _).bind fun _ => .throw _)

theorem checkResults_cuts (code : Nat) : Cuts (checkResults code) :=
  (checkFailure_cuts code).bind fun _ => .ite ((setErrno_cuts _).bind fun _ => .throw _) (.pure _)

theorem readSrc_cuts (s : Src) : Cuts (readSrc s) :=
  .of_run (g := id) (fun _ => rfl) (fun _ => by cases s <;> rfl) (fun _ => rfl)
    fun _ => List.prefix_refl _

theorem getBuf_cuts : Cuts getBuf :=
  .of_run (g := id) (fun _ => rfl) (fun _ => rfl) (fun _ => rfl) fun _ => List.prefix_refl _

theorem getBufcap_cuts : Cuts getBufcap :=
  .of_run (g := id) (fun _ => rfl) (fun _ => rfl) (fun _ => rfl) fun _ => List.prefix_refl _

theorem setBufcap_cuts (size : Nat) : Cuts (setBufcap size) :=
  .of_run (fun _ => rfl) (fun _ => rfl) (fun _ => rfl) fun _ => List.prefix_refl _

theorem newBuffer_cuts (size : Nat) : Cuts (newBuffer size) :=
  .of_run (fun _ => rfl) (fun _ => rfl) (fun _ => rfl) fun _ => List.prefix_refl _

theorem ntostring_cuts (value : Value) : Cuts (ntostring value) :=
  .of_run (fun _ => rfl) (fun _ => rfl) (fun _ => rfl) fun _ => List.prefix_refl _

theorem clearBuf_cuts : Cuts clearBuf :=
  .of_run (fun _ => rfl) (fun _ => rfl) (fun _ => rfl) fun _ => List.prefix_refl _

/-- The cleanup at `failure:` returns, and writes nothing. -/
theorem failureCleanup_run (w : World) :
    ∃ w', failureCleanup w = .ok () w' ∧ w'.out = w.out := by
  have h : Triple (fun w' => w'.out = w.out) failureCleanup (fun _ w' => w'.out = w.out)
      fun _ _ => False :=
    (getErrno_spec (Q := fun _ w' => w'.out = w.out)).bind fun errsv =>
      ((attempt_spec (Q := fun _ w' => w'.out = w.out) .flush).pre fun _ h => by
        split <;> simpa using h).bind fun _ =>
        setErrno_spec (Q := fun _ w' => w'.out = w.out) errsv
  obtain ⟨⟨⟩, w', hrun, hout⟩ := h.ok_of rfl
  exact ⟨w', hrun, hout⟩

theorem onFailure_of_ok {body : RenderM α} {cleanup : RenderM Unit} {w w₁ : World} {a : α}
    (h : body w = .ok a w₁) : onFailure body cleanup w = .ok a w₁ := by
  simp only [onFailure, h]

/-- After a `failure:` label the run fails as the body did, and the output is what it left. -/
theorem onFailure_of_error {body : RenderM α} {w w₁ : World} {e : Err}
    (h : body w = .error e w₁) :
    ∃ e' w₂, onFailure body failureCleanup w = .error e' w₂ ∧ w₂.out = w₁.out := by
  cases e with
  | failed =>
    obtain ⟨w₂, hclean, hout⟩ := failureCleanup_run w₁
    exact ⟨.failed, w₂, by simp only [onFailure, h, hclean], hout⟩
  | abort => exact ⟨.abort, w₁, by simp only [onFailure, h], rfl⟩
  | outOfFuel => exact ⟨.outOfFuel, w₁, by simp only [onFailure, h], rfl⟩

theorem onFailure_final_out {body : RenderM α} (w : World) :
    (finalWorld (onFailure body failureCleanup w)).out = (finalWorld (body w)).out := by
  cases hbw : body w with
  | ok a w₁ => rw [onFailure_of_ok hbw]
  | error e w₁ =>
    obtain ⟨e', w₂, hrun, hout⟩ := onFailure_of_error hbw
    rw [hrun]
    exact hout

theorem onFailure_cuts {body : RenderM α} (hb : Cuts body) :
    Cuts (onFailure body failureCleanup) where
  grows w := by rw [onFailure_final_out]; exact hb.grows w
  cut w := by
    have h := hb.cut w
    cases hbw : body w with
    | ok a w₁ =>
      have hheal : body w.heal = .ok a w₁.heal := by rw [hbw] at h; exact h
      rw [onFailure_of_ok hbw, onFailure_of_ok hheal]
      rfl
    | error e w₁ =>
      rw [hbw] at h
      obtain ⟨e', w₂, hrun, hout⟩ := onFailure_of_error hbw
      rw [hrun]
      show w₂.out <+: _
      rw [onFailure_final_out, hout]
      exact h

end Calls

/-! ### `render.c` -/

section Render

variable {flags : RenderFlags}

theorem fputsTimes_cuts (s : CString) : ∀ k, Cuts (fputsTimes s k)
  | 0 => .pure _
  | k + 1 => (orFail_fwrite_cuts _).bind fun _ => fputsTimes_cuts s k

theorem hruleColumns_cuts (corners : Corners) (line : CString) :
    ∀ first widths, Cuts (hruleColumns corners line first widths)
  | _, [] => .pure _
  | first, _ :: ws => .ite (hruleColumns_cuts corners line first ws)
    ((orFail_fwrite_cuts _).bind fun _ => (fputsTimes_cuts line _).bind fun _ =>
      hruleColumns_cuts corners line false ws)

theorem renderHrule_cuts (widths : List Nat) (position : HlinePosition) (undersize : Bool) :
    Cuts (renderHrule widths position undersize flags) :=
  (hruleColumns_cuts _ _ true widths).bind fun _ => (orFail_fwrite_cuts _).bind fun _ =>
    (Cuts.ite (orFail_fwrite_cuts _) (.pure _)).bind fun _ => orFail_fwrite_cuts _

theorem writeUnprintable_cuts (codepoint width : Nat) : Cuts (writeUnprintable codepoint width) :=
  (orFail_fwrite_cuts _).bind fun _ => .pure _

theorem renderFieldLoop_cuts (env : Env) (mem : List UInt8) (n width : Nat) :
    ∀ fuel pos used, Cuts (renderFieldLoop env mem n width flags fuel pos used)
  | 0, _, _ => .pure _
  | fuel + 1, pos, used => by
    refine .ite ((decodeAt_cuts _).bind fun ⟨cp, bytes⟩ => ?_) (.pure _)
    dsimp only
    split
    · exact (writeUnprintable_cuts cp width).bind fun _ =>
        renderFieldLoop_cuts env mem n width fuel _ _
    · exact .ite (.pure _) ((orFail_fwrite_cuts _).bind fun _ =>
        renderFieldLoop_cuts env mem n width fuel _ _)

theorem padSpaces_cuts : ∀ k, Cuts (padSpaces k)
  | 0 => .pure _
  | k + 1 => (orFail_fwrite_cuts _).bind fun _ => padSpaces_cuts k

theorem renderField_cuts (env : Env) (mem : List UInt8) (n width : Nat) :
    Cuts (renderField env mem n width flags) :=
  (renderFieldLoop_cuts env mem n width n 0 0).bind fun (_, used) =>
    (padSpaces_cuts (width - used)).bind fun _ => .pure _

theorem keepRest_cuts (f : FieldText) (consumed : Nat) : Cuts (keepRest f consumed) :=
  .ite ((readSrc_cuts _).bind fun _ => (orFail_attempt_cuts _).bind fun _ => .pure _) (.pure _)

variable (env : Env) (glifs : BorderGlifs)

theorem renderRowFirst_cuts {callback : Option (Nat → RenderM FieldText)}
    (hcb : ∀ cb ∈ callback, ∀ i, Cuts (cb i)) :
    ∀ i widths, Cuts (renderRowFirst env flags glifs callback i widths)
  | _, [] => .pure _
  | i, width :: widths => by
    have hrest := renderRowFirst_cuts hcb (i + 1) widths
    have hf : Cuts (match callback with
        | some cb => cb i
        | none => (Pure.pure ⟨.stable [], 0, false⟩ : RenderM FieldText)) := by
      cases callback with
      | none => exact .pure _
      | some cb => exact hcb cb rfl i
    refine .ite (hrest.bind fun _ => .pure _) ((orFail_fwrite_cuts _).bind fun _ =>
      (orFail_fwrite_cuts _).bind fun _ => (cAssert_cuts _).bind fun _ => hf.bind fun f =>
      (readSrc_cuts _).bind fun mem => (renderField_cuts env mem f.n _).bind fun consumed =>
      Cuts.bind ?_ fun _ => hrest.bind fun _ => .pure _)
    exact .ite ((orFail_fwrite_cuts _).bind fun _ => .pure _) ((orFail_fwrite_cuts _).bind
      fun _ => .ite (keepRest_cuts f consumed).map (.pure _))

theorem renderRowWrapLine_cuts :
    ∀ widths ps, Cuts (renderRowWrapLine env flags glifs widths ps)
  | width :: widths, p :: ps => by
    have hrest := renderRowWrapLine_cuts widths ps
    exact .ite (hrest.bind fun _ => .pure _) ((cAssert_cuts _).bind fun _ =>
      (orFail_fwrite_cuts _).bind fun _ => (orFail_fwrite_cuts _).bind fun _ =>
      (readSrc_cuts _).bind fun mem => (renderField_cuts env mem p.n _).bind fun _ =>
      Cuts.bind (.ite ((orFail_fwrite_cuts _).bind fun _ => .pure _)
        ((orFail_fwrite_cuts _).bind fun _ => .pure _)) fun _ => hrest.bind fun _ => .pure _)
  | [], _ => .pure _
  | _ :: _, [] => .pure _

theorem renderRowEnd_cuts (undersize : Bool) : Cuts (renderRowEnd glifs undersize) :=
  (orFail_fwrite_cuts _).bind fun _ => (Cuts.ite (orFail_fwrite_cuts _) (.pure _)).bind fun _ =>
    orFail_fwrite_cuts _

theorem renderRowWrap_cuts (widths : List Nat) (undersize : Bool) :
    ∀ fuel ps, Cuts (renderRowWrap env flags glifs widths undersize fuel ps)
  | 0, _ => .throw _
  | fuel + 1, ps => (renderRowWrapLine_cuts env glifs widths ps).bind fun (ps', _) =>
    (renderRowEnd_cuts glifs undersize).bind fun _ =>
      .ite (renderRowWrap_cuts widths undersize fuel ps') (.pure _)

theorem renderRow_cuts (fuel : Nat) (widths : List Nat) (undersize : Bool)
    {callback : Option (Nat → RenderM FieldText)} (hcb : ∀ cb ∈ callback, ∀ i, Cuts (cb i)) :
    Cuts (renderRow env fuel widths undersize flags callback) :=
  (Cuts.ite (orFail_attempt_cuts _) (.pure _)).bind fun _ =>
    (renderRowFirst_cuts env _ hcb 0 widths).bind fun (fields, _) =>
      (renderRowEnd_cuts _ undersize).bind fun _ =>
        .ite (renderRowWrap_cuts env _ widths undersize fuel fields) (.pure _)

end Render

/-! ### `render_results.c` -/

section Results

theorem valueTostring_cuts (flags : RenderFlags) (value : Value) :
    Cuts (valueTostring flags value) :=
  getBufcap_cuts.bind fun _ => (cAssert_cuts _).bind fun _ =>
    .ite (clearBuf_cuts.bind fun _ => .pure _) (ntostring_cuts value)

theorem renderFieldValueLoop_cuts (flags : RenderFlags) (value : Value) :
    ∀ fuel, Cuts (renderFieldValueLoop flags value fuel)
  | 0 => .throw _
  | fuel + 1 => (valueTostring_cuts flags value).bind fun _ => getBufcap_cuts.bind fun _ =>
    .ite (.pure _) ((orFail_attempt_cuts _).bind fun _ => (setBufcap_cuts _).bind fun _ =>
      renderFieldValueLoop_cuts flags value fuel)

theorem obtainResultField_cuts (fuel : Nat) (flags : RenderFlags) (row : List Value) (i : Nat) :
    Cuts (obtainResultField fuel flags row i) :=
  .ite (.pure _) (((getBufcap_cuts.bind fun _ => (cAssert_cuts _).bind fun _ =>
    renderFieldValueLoop_cuts flags _ fuel).bind fun _ => .pure _))

theorem renderTableRows_cuts (env : Env) (fuel : Nat) (widths : List Nat) (undersize : Bool)
    (flags : RenderFlags) : ∀ first rows, Cuts (renderTableRows env fuel widths undersize flags first rows)
  | _, [] => .pure _
  | _, row :: rows => (Cuts.ite (renderHrule_cuts _ _ _) (.pure _)).bind fun _ =>
    (renderRow_cuts env fuel widths undersize fun _ hcb i => by
      cases hcb; exact obtainResultField_cuts fuel flags row i).bind fun _ =>
      renderTableRows_cuts env fuel widths undersize flags false rows

theorem renderTable_cuts (env : Env) (fuel : Nat) (results : ResultStream) (width : Nat)
    (flags : RenderFlags) : Cuts (renderTable env fuel results width flags) := by
  refine (require_cuts _).bind fun _ => (checkResults_cuts _).bind fun _ => .ite (.pure _) ?_
  exact (cAssert_cuts _).bind fun _ => (Cuts.ite (orFail_attempt_cuts _) (.pure _)).bind fun _ =>
    (onFailure_cuts ((newBuffer_cuts _).bind fun _ =>
      (Cuts.ite (orFail_attempt_cuts _) (.pure _)).bind fun _ =>
      (renderHrule_cuts _ _ _).bind fun _ =>
      (renderRow_cuts env fuel _ _ fun _ hcb _ => by cases hcb; exact .pure _).bind fun _ =>
      (renderHrule_cuts _ _ _).bind fun _ =>
      (renderTableRows_cuts env fuel _ _ _ true _).bind fun _ =>
      (checkResults_cuts _).bind fun _ => renderHrule_cuts _ _ _)).bind fun _ =>
    orFail_attempt_cuts _

theorem writeCsvQuotedLoop_cuts (str : List UInt8) (stop : Nat) :
    ∀ fuel pos n, Cuts (writeCsvQuotedLoop str stop fuel pos n)
  | 0, _, _ => .pure _
  | fuel + 1, pos, n => .ite (by
      split
      · exact orFail_fwrite_cuts _
      · exact (orFail_fwrite_cuts _).bind fun _ => (orFail_fwrite_cuts _).bind fun _ =>
          writeCsvQuotedLoop_cuts str stop fuel _ _) (.pure _)

theorem writeCsvQuotedString_cuts (s : List UInt8) (n : Nat) : Cuts (writeCsvQuotedString s n) :=
  (orFail_fwrite_cuts _).bind fun _ => (writeCsvQuotedLoop_cuts s n n 0 n).bind fun _ =>
    orFail_fwrite_cuts _

theorem writeValueLoop_cuts (value : Value) : ∀ fuel, Cuts (writeValueLoop value fuel)
  | 0 => .throw _
  | fuel + 1 => (ntostring_cuts value).bind fun _ => getBufcap_cuts.bind fun _ =>
    .ite (.pure _) ((orFail_attempt_cuts _).bind fun _ => (setBufcap_cuts _).bind fun _ =>
      writeValueLoop_cuts value fuel)

theorem writeValue_cuts (fuel : Nat) (flags : RenderFlags) (value : Value) :
    Cuts (writeValue fuel flags value) :=
  .ite (writeCsvQuotedString_cuts _ _) <| .ite (.pure _) <|
    getBufcap_cuts.bind fun _ => (cAssert_cuts _).bind fun _ =>
    (writeValueLoop_cuts value fuel).bind fun _ => getBuf_cuts.bind fun _ =>
    .ite (orFail_fwrite_cuts _) (writeCsvQuotedString_cuts _ _)

theorem csvCells_cuts (nfields : Nat) {cell : Nat → RenderM Unit} (hcell : ∀ i, Cuts (cell i)) :
    ∀ k i, Cuts (csvCells nfields cell k i)
  | 0, _ => .pure _
  | k + 1, i => (hcell i).bind fun _ => (Cuts.ite (orFail_fwrite_cuts _) (.pure _)).bind fun _ =>
    csvCells_cuts nfields hcell k (i + 1)

theorem renderCsvRows_cuts (fuel : Nat) (flags : RenderFlags) (nfields : Nat) :
    ∀ rows, Cuts (renderCsvRows fuel flags nfields rows)
  | [] => .pure _
  | _ :: rows => (csvCells_cuts nfields (fun _ => writeValue_cuts _ _ _) _ _).bind fun _ =>
    (orFail_fwrite_cuts _).bind fun _ => renderCsvRows_cuts fuel flags nfields rows

theorem renderCsv_cuts (env : Env) (fuel : Nat) (results : ResultStream) (flags : RenderFlags) :
    Cuts (renderCsv env fuel results flags) :=
  (newBuffer_cuts _).bind fun _ => (orFail_attempt_cuts _).bind fun _ => onFailure_cuts <|
    (checkResults_cuts _).bind fun _ => .ite (.pure _) <|
      (csvCells_cuts _ (fun _ => writeCsvQuotedString_cuts _ _) _ _).bind fun _ =>
      (orFail_fwrite_cuts _).bind fun _ => (renderCsvRows_cuts fuel flags _ _).bind fun _ =>
      (checkResults_cuts _).bind fun _ => orFail_attempt_cuts _

end Results

/-- **A failing stream or allocator only cuts the output short**: from any world and for any
input, where `neo4j_render_table` or `neo4j_render_csv` returns, the run on the same world with
every call succeeding returns the same, in the same world but for the fault oracle; where it
fails, it has written a prefix of what that run writes. -/
theorem renderers_cut (env : Env) (fuel : Nat) (results : ResultStream) (width : Nat)
    (flags : RenderFlags) (w : World) :
    Cut (renderTable env fuel results width flags w)
        (renderTable env fuel results width flags w.heal) ∧
      Cut (renderCsv env fuel results flags w) (renderCsv env fuel results flags w.heal) :=
  ⟨(renderTable_cuts env fuel results width flags).cut w,
    (renderCsv_cuts env fuel results flags).cut w⟩

/-! ### What a run writes, whatever fails -/

/-- A world with nothing written yet whose stream or allocator fails the `k`-th call, with
`EIO`. -/
def World.failingAt (k : Nat) : World :=
  { World.init with fault := fun i => if i = k then some 5 else none }

/-- A run that cuts writes a prefix of what the run on the healed world writes when it
returns, and all of it when it returns too. -/
theorem Cuts.prefix_of_heal {m : RenderM Unit} (hm : Cuts m) {w : World} {full : List UInt8}
    (hfull : ∃ w', m w.heal = .ok () w' ∧ w'.out = w.out ++ full) :
    ∃ p, p <+: full ∧ (finalWorld (m w)).out = w.out ++ p ∧
      ∀ w', m w = .ok () w' → p = full := by
  obtain ⟨w', hheal, hout⟩ := hfull
  obtain ⟨p, hp⟩ := hm.grows w
  have hcut := hm.cut w
  refine ⟨p, ?_, hp.symm, fun w₁ hrun => ?_⟩
  · have hfinal : (finalWorld (m w)).out <+: w.out ++ full := by
      cases hmw : m w with
      | ok _ w₁ =>
        rw [hmw, hheal] at hcut
        cases hcut
        exact hout ▸ List.prefix_refl _
      | error _ w₁ =>
        rw [hmw, hheal] at hcut
        exact hout ▸ hcut
    exact (List.prefix_append_right_inj w.out).mp (hp ▸ hfinal)
  · rw [hrun, hheal] at hcut
    cases hcut
    rw [hrun] at hp
    exact List.append_cancel_left (hp.trans hout)

/-- **Whatever the stream or the allocator fails, `neo4j_render_table` writes a prefix of its
table**, and all of it when it returns 0: for a stream it draws, from any world. -/
theorem renderTable_cut_short {env : Env} {fuel : Nat} {results : ResultStream} {width : Nat}
    {flags : RenderFlags} (hd : Drawable env fuel results width flags)
    (hunwrapped : flags.wrapValues = false) (w : World) :
    ∃ p, p <+: (tableLayout env results width flags).flatMap lineBytes ∧
      (finalWorld (renderTable env fuel results width flags w)).out = w.out ++ p ∧
      ∀ w', renderTable env fuel results width flags w = .ok () w' →
        p = (tableLayout env results width flags).flatMap lineBytes := by
  refine (renderTable_cuts env fuel results width flags).prefix_of_heal ?_
  obtain ⟨⟨⟩, w', hrun, hw'⟩ := (renderTable_drawn (E := fun _ _ => False) hd hunwrapped
    w.out).ok_of ⟨⟨w.heal_reliable, rfl⟩, Nat.zero_le _⟩
  exact ⟨w', hrun, hw'.1.2⟩

/-- The two-column stream in sixteen columns, on a stream that fails the twelfth call. -/
theorem renderTable_cut_short_ada :
    Drawable Env.utf8Terminal 2 adaResults 16 asciiFlags ∧ asciiFlags.wrapValues = false ∧
      ∃ p, p <+: (tableLayout Env.utf8Terminal adaResults 16 asciiFlags).flatMap lineBytes ∧
        (finalWorld (renderTable Env.utf8Terminal 2 adaResults 16 asciiFlags
          (World.failingAt 12))).out = (World.failingAt 12).out ++ p ∧
        ∀ w', renderTable Env.utf8Terminal 2 adaResults 16 asciiFlags (World.failingAt 12) =
          .ok () w' → p = (tableLayout Env.utf8Terminal adaResults 16 asciiFlags).flatMap lineBytes :=
  have hd : Drawable Env.utf8Terminal 2 adaResults 16 asciiFlags :=
    ⟨Env.utf8Terminal_narrowAscii, by decide, rfl, rfl, by decide, by decide, by decide⟩
  ⟨hd, rfl, renderTable_cut_short hd rfl _⟩

/-- **The same with wrapped values**: a prefix of the wrapped layout, all of it on 0. -/
theorem renderTable_wrapped_cut_short {env : Env} {fuel : Nat} {results : ResultStream}
    {width : Nat} {flags : RenderFlags} (hd : Drawable env fuel results width flags)
    (hwrap : flags.wrapValues = true) {k cw : Nat} {u : Bool}
    (hfit : fitColumns width results.nfields (columnWidthFor width results.nfields) false =
      (k, cw, u)) (hroom : k = 0 ∨ 3 ≤ cw)
    (hnames : ∀ name ∈ results.fieldnames, name.1.length < fuel)
    (hvalues : ∀ row ∈ results.rows, ∀ v ∈ row, (cellText flags v).length < fuel) (w : World) :
    ∃ p, p <+: (wrappedLayout env results width flags).flatMap lineBytes ∧
      (finalWorld (renderTable env fuel results width flags w)).out = w.out ++ p ∧
      ∀ w', renderTable env fuel results width flags w = .ok () w' →
        p = (wrappedLayout env results width flags).flatMap lineBytes := by
  refine (renderTable_cuts env fuel results width flags).prefix_of_heal ?_
  obtain ⟨⟨⟩, w', hrun, hw'⟩ := (renderTable_wraps (E := fun _ _ => False) hd hwrap hfit hroom
    hnames hvalues w.out).ok_of ⟨⟨w.heal_reliable, rfl⟩, Nat.zero_le _⟩
  exact ⟨w', hrun, hw'.1.2⟩

/-- The two-column stream wrapped in ten columns, on a stream that fails the twelfth call. -/
theorem renderTable_wrapped_cut_short_ada :
    Drawable Env.utf8Terminal 5 adaResults 10 wrapFlags ∧ wrapFlags.wrapValues = true ∧
      fitColumns 10 adaResults.nfields (columnWidthFor 10 adaResults.nfields) false =
        (2, 3, false) ∧ (2 = 0 ∨ 3 ≤ 3) ∧
      (∀ name ∈ adaResults.fieldnames, name.1.length < 5) ∧
      (∀ row ∈ adaResults.rows, ∀ v ∈ row, (cellText wrapFlags v).length < 5) ∧
      ∃ p, p <+: (wrappedLayout Env.utf8Terminal adaResults 10 wrapFlags).flatMap lineBytes ∧
        (finalWorld (renderTable Env.utf8Terminal 5 adaResults 10 wrapFlags
          (World.failingAt 12))).out = (World.failingAt 12).out ++ p ∧
        ∀ w', renderTable Env.utf8Terminal 5 adaResults 10 wrapFlags (World.failingAt 12) =
          .ok () w' →
            p = (wrappedLayout Env.utf8Terminal adaResults 10 wrapFlags).flatMap lineBytes :=
  have hd : Drawable Env.utf8Terminal 5 adaResults 10 wrapFlags :=
    ⟨Env.utf8Terminal_narrowAscii, by decide, rfl, rfl, by decide, by decide, by decide⟩
  ⟨hd, rfl, rfl, .inr le_rfl, by decide, by decide,
    renderTable_wrapped_cut_short hd rfl rfl (.inr le_rfl) (by decide) (by decide) _⟩

/-- **Whatever the stream or the allocator fails, `neo4j_render_csv` writes a prefix of its
records**, and all of them when it returns 0: for a stream that reports no failure, whose
values all fit the first buffer. -/
theorem renderCsv_cut_short (env : Env) (fuel : Nat) (results : ResultStream)
    (flags : RenderFlags) (hcap : 2 ≤ env.fieldBufferInitialCapacity) (hn : 0 < results.nfields)
    (hfailure : results.failure = 0) (hend : results.failureAtEnd = 0)
    (hfits : RowsFitBuffer flags env.fieldBufferInitialCapacity results.rows) (w : World) :
    ∃ p, p <+: (csvRecords flags results).flatMap csvLine ∧
      (finalWorld (renderCsv env (fuel + 1) results flags w)).out = w.out ++ p ∧
      ∀ w', renderCsv env (fuel + 1) results flags w = .ok () w' →
        p = (csvRecords flags results).flatMap csvLine := by
  refine (renderCsv_cuts env (fuel + 1) results flags).prefix_of_heal ?_
  have h := renderCsv_fitsBuffer env fuel results flags hcap hn hfailure hend w.heal
    w.heal_reliable
  have hwrites := renderCsv_writes env (fuel + 1) results flags hn w.out w.heal rfl
  cases hrun : renderCsv env (fuel + 1) results flags w.heal with
  | ok _ w' =>
    rw [hrun] at hwrites
    exact ⟨w', rfl, hwrites⟩
  | error _ _ =>
    rw [hrun] at h
    exact absurd hfits h.2

/-- The one-field stream on a stream that fails the fourth call. -/
theorem renderCsv_cut_short_answer :
    2 ≤ Env.utf8Terminal.fieldBufferInitialCapacity ∧ 0 < answerSample.nfields ∧
      answerSample.failure = 0 ∧ answerSample.failureAtEnd = 0 ∧
      RowsFitBuffer asciiFlags Env.utf8Terminal.fieldBufferInitialCapacity answerSample.rows ∧
      ∃ p, p <+: (csvRecords asciiFlags answerSample).flatMap csvLine ∧
        (finalWorld (renderCsv Env.utf8Terminal 1 answerSample asciiFlags
          (World.failingAt 4))).out = (World.failingAt 4).out ++ p ∧
        ∀ w', renderCsv Env.utf8Terminal 1 answerSample asciiFlags (World.failingAt 4) =
          .ok () w' → p = (csvRecords asciiFlags answerSample).flatMap csvLine :=
  have hfit : RowsFitBuffer asciiFlags Env.utf8Terminal.fieldBufferInitialCapacity
      answerSample.rows := by decide
  ⟨by decide, by decide, rfl, rfl, hfit, renderCsv_cut_short Env.utf8Terminal 0 answerSample
    asciiFlags (by decide) (by decide) rfl rfl hfit _⟩

end Neo4jRender
