/-
When the export returns.

`write_value` sizes its staging buffer by the length `neo4j_ntostring` reports, and grows it
to just that length, which a text of that length never fits (`writeValue_diverges`).  So on
a reliable stream `neo4j_render_csv` comes to one of two ends, and which is decided by the
values alone: if every value it stringifies has a text shorter than the first buffer, it
returns and writes its records; if one does not, it runs out of fuel in that value's cell,
wherever in the stream the value is (`renderCsv_returns_iff`).  The buffer never grows on
the way, so the first capacity bounds every value.

The cells are followed in a world whose buffer keeps its first capacity (`Steady`): each
call of `write_value` either returns, its value having fit, or runs out of fuel, its value
not having fit (`writeValue_fitsBuffer`), and the cell and row loops carry that to the
stream.
-/
import Neo4jRender.Proofs.Csv

namespace Neo4jRender

/-- A value `write_value` turns into text with `neo4j_ntostring`: anything but a string or a
null it does not show. -/
def Stringified (flags : RenderFlags) (value : Value) : Prop :=
  value.type ≠ .string ∧ ¬(!flags.showNulls ∧ value.type = .null)

/-- A value whose text, when `write_value` stringifies it, is shorter than `cap`. -/
def FitsBuffer (flags : RenderFlags) (cap : Nat) (value : Value) : Prop :=
  Stringified flags value → value.text.length < cap

/-- Every value of `rows` fits a buffer of `cap` bytes. -/
def RowsFitBuffer (flags : RenderFlags) (cap : Nat) (rows : List (List Value)) : Prop :=
  ∀ row ∈ rows, ∀ v ∈ row, FitsBuffer flags cap v

instance (flags : RenderFlags) (value : Value) : Decidable (Stringified flags value) :=
  inferInstanceAs (Decidable (_ ∧ _))

instance (flags : RenderFlags) (cap : Nat) (value : Value) :
    Decidable (FitsBuffer flags cap value) :=
  inferInstanceAs (Decidable (_ → _))

instance (flags : RenderFlags) (cap : Nat) (rows : List (List Value)) :
    Decidable (RowsFitBuffer flags cap rows) :=
  inferInstanceAs (Decidable (∀ row ∈ rows, ∀ v ∈ row, _))

/-- A property of every entry of a row, read off its entries by index. -/
theorem forall_mem_of_getD {row : List Value} {P : Value → Prop}
    (h : ∀ j < row.length, P (row.getD j default)) : ∀ v ∈ row, P v := by
  intro v hv
  obtain ⟨j, hj, rfl⟩ := List.mem_iff_getElem.mp hv
  simpa [List.getD_eq_getElem?_getD, List.getElem?_eq_getElem hj] using h j hj

theorem getD_mem_of_lt {row : List Value} {j : Nat} (hj : j < row.length) :
    row.getD j default ∈ row := by
  rw [List.getD_eq_getElem?_getD, List.getElem?_eq_getElem hj, Option.getD_some]
  exact List.getElem_mem hj

section Steady

variable {cap : Nat}

/-- The retry loop returns at once on a text that fits, leaving the buffer as it was. -/
theorem writeValueLoop_fits {value : Value} (h : value.text.length < cap) (fuel : Nat)
    {E : Err → World → Prop} :
    Triple (Steady cap) (writeValueLoop value (fuel + 1)) (fun _ => Steady cap) E := by
  rw [writeValueLoop]
  refine ((ntostring_spec (Q := fun L w => L = value.text.length ∧ Steady cap w) value).pre
    fun _ hw => ⟨rfl, hw.1, hw.2⟩).bind fun L => Triple.prop fun hL => ?_
  refine ((getBufcap_spec (Q := fun c w => c = cap ∧ Steady cap w)).pre
    fun _ hw => ⟨hw.2, hw⟩).bind fun c => Triple.prop fun hc => ?_
  rw [if_pos (by omega)]
  exact Triple.pure fun _ => id

/-- **`write_value` returns exactly when its value fits the buffer**: a value that fits is
written and leaves the buffer as it was, and one that does not runs out of fuel. -/
theorem writeValue_fitsBuffer (hcap : 2 ≤ cap) (fuel : Nat) (flags : RenderFlags)
    (value : Value) :
    Triple (Steady cap) (writeValue (fuel + 1) flags value)
      (fun _ w => FitsBuffer flags cap value ∧ Steady cap w)
      (fun e _ => e = .outOfFuel ∧ ¬FitsBuffer flags cap value) := by
  by_cases hfit : FitsBuffer flags cap value
  · refine Triple.conseq (Q := fun _ => Steady cap) (E := fun _ _ => False) ?_ (fun _ => id)
      (fun _ _ h => ⟨hfit, h⟩) fun _ _ h => h.elim
    unfold writeValue
    by_cases hs : value.type = .string
    · rw [if_pos hs]
      exact writeCsvQuotedString_calm (.steady cap) _ _
    by_cases hn : (!flags.showNulls ∧ value.type = .null)
    · rw [if_neg hs, if_pos hn]
      exact Triple.pure fun _ => id
    rw [if_neg hs, if_neg hn]
    refine ((getBufcap_spec (Q := fun c w => c = cap ∧ Steady cap w)).pre
      fun _ hw => ⟨hw.2, hw⟩).bind fun c => Triple.prop fun hc => ?_
    rw [hc, cAssert_of_true hcap, pure_bind]
    refine (writeValueLoop_fits (hfit ⟨hs, hn⟩) fuel).bind fun _ =>
      ((getBuf_spec (Q := fun _ => Steady cap)).pre fun _ => id).bind fun _ => ?_
    exact Triple.ite (fun _ => orFail_fwrite_calm (.steady cap) _) fun _ =>
      writeCsvQuotedString_calm (.steady cap) _ _
  · have hlong : Stringified flags value ∧ cap ≤ value.text.length := by
      by_cases hs : Stringified flags value
      · exact ⟨hs, Nat.le_of_not_lt fun hlt => hfit fun _ => hlt⟩
      · exact absurd (fun h => absurd h hs) hfit
    exact (writeValue_diverges (fuel + 1) flags hlong.1.1 hlong.1.2).conseq
      (fun w hw => ⟨hw.1, hw.2 ▸ hcap, hw.2 ▸ hlong.2⟩) (fun _ _ h => h.elim)
      fun _ _ h => ⟨h, hfit⟩

/-- The cell loop over cells that each either return, `F` holding of them, or run out of
fuel, `F` failing: it returns when every cell does, and runs out of fuel otherwise. -/
theorem csvCells_fitsBuffer (nfields : Nat) {cell : Nat → RenderM Unit} {F : Nat → Prop}
    (hcell : ∀ i, Triple (Steady cap) (cell i) (fun _ w => F i ∧ Steady cap w)
      (fun e _ => e = .outOfFuel ∧ ¬F i)) :
    ∀ k i, Triple (Steady cap) (csvCells nfields cell k i)
      (fun _ w => (∀ j, i ≤ j → j < i + k → F j) ∧ Steady cap w)
      (fun e _ => e = .outOfFuel ∧ ∃ j, i ≤ j ∧ j < i + k ∧ ¬F j)
  | 0, _ => Triple.pure fun _ hw => ⟨fun _ h1 h2 => absurd h2 (by omega), hw⟩
  | k + 1, i => by
    refine ((hcell i).conseq (fun _ => id) (fun _ _ => id)
      fun _ _ h => ⟨h.1, i, le_rfl, by omega, h.2⟩).bind fun _ => Triple.prop fun hi => ?_
    refine (Triple.ite (fun _ => orFail_fwrite_calm (.steady cap) _)
      fun _ => Triple.pure fun _ => id).bind fun _ => ?_
    refine (csvCells_fitsBuffer nfields hcell k (i + 1)).conseq (fun _ => id)
      (fun _ _ h => ⟨fun j hj1 hj2 => ?_, h.2⟩)
      fun _ _ ⟨he, j, hj1, hj2, hj⟩ => ⟨he, j, by omega, by omega, hj⟩
    rcases Nat.eq_or_lt_of_le hj1 with rfl | hlt
    · exact hi
    · exact h.1 j hlt (by omega)

/-- The row loop returns when every value fits, and runs out of fuel otherwise. -/
theorem renderCsvRows_fitsBuffer (hcap : 2 ≤ cap) (fuel : Nat) (flags : RenderFlags)
    {nfields : Nat} : ∀ rows : List (List Value), (∀ row ∈ rows, row.length = nfields) →
    Triple (Steady cap) (renderCsvRows (fuel + 1) flags nfields rows)
      (fun _ w => RowsFitBuffer flags cap rows ∧ Steady cap w)
      (fun e _ => e = .outOfFuel ∧ ¬RowsFitBuffer flags cap rows)
  | [], _ => Triple.pure fun _ hw => ⟨fun _ h => absurd h (List.not_mem_nil _), hw⟩
  | row :: rows, hlen => by
    have hl := hlen row (List.mem_cons_self _ _)
    refine ((csvCells_fitsBuffer nfields
      (F := fun j => FitsBuffer flags cap (row.getD j default))
      (fun _ => writeValue_fitsBuffer hcap fuel flags _) nfields 0).conseq (fun _ => id)
      (fun _ _ => id) fun _ _ ⟨he, j, _, hj, hnot⟩ => ⟨he, fun hall =>
        hnot (hall row (List.mem_cons_self _ _) _ (getD_mem_of_lt (by omega)))⟩).bind
      fun _ => Triple.prop fun hrow => (orFail_fwrite_calm (.steady cap) _).bind fun _ => ?_
    refine (renderCsvRows_fitsBuffer hcap fuel flags rows
      fun r hr => hlen r (List.mem_cons_of_mem _ hr)).conseq (fun _ => id)
      (fun _ _ h => ⟨fun r hr => ?_, h.2⟩)
      fun _ _ h => ⟨h.1, fun hall => h.2 fun r hr => hall r (List.mem_cons_of_mem _ hr)⟩
    rcases List.mem_cons.mp hr with rfl | hr
    · exact forall_mem_of_getD fun j hj => hrow j (Nat.zero_le _) (by omega)
    · exact h.1 r hr

end Steady

/-- `neo4j_render_csv` on a reliable stream that does not fail: it returns when every value
fits the first buffer, and runs out of fuel otherwise. -/
theorem renderCsv_fitsBuffer (env : Env) (fuel : Nat) (results : ResultStream)
    (flags : RenderFlags) (hcap : 2 ≤ env.fieldBufferInitialCapacity) (hn : 0 < results.nfields)
    (hfailure : results.failure = 0) (hend : results.failureAtEnd = 0) :
    Triple World.Reliable (renderCsv env (fuel + 1) results flags)
      (fun _ _ => RowsFitBuffer flags env.fieldBufferInitialCapacity results.rows)
      (fun e _ => e = .outOfFuel ∧
        ¬RowsFitBuffer flags env.fieldBufferInitialCapacity results.rows) := by
  unfold renderCsv
  rw [hfailure, hend]
  refine ((newBuffer_spec (Q := fun _ => Steady env.fieldBufferInitialCapacity) _).pre
    fun _ h => ⟨h, rfl⟩).bind fun _ => (orFail_attempt_calm (.steady _) (.inr rfl)).bind fun _ => ?_
  refine Triple.onFailure (F := fun e _ => e = .outOfFuel ∧
    ¬RowsFitBuffer flags env.fieldBufferInitialCapacity results.rows) ?_
    (fun _ h => nomatch h.1) fun _ _ _ => id
  refine ((checkResults_spec (Q := fun _ => Steady env.fieldBufferInitialCapacity) 0).pre
    fun w h => by simpa using h).bind fun _ => ?_
  refine Triple.ite (fun h => absurd h (Nat.pos_iff_ne_zero.mp hn)) fun _ => ?_
  refine (csvCells_calm (.steady _) _ (fun _ => writeCsvQuotedString_calm (.steady _) _ _) _ _).bind
    fun _ =>
    (orFail_fwrite_calm (.steady _) _).bind fun _ =>
      (renderCsvRows_fitsBuffer hcap fuel flags results.rows results.rows_length).bind fun _ =>
        Triple.prop fun hfit => ?_
  refine ((checkResults_spec (Q := fun _ => Steady env.fieldBufferInitialCapacity) 0).pre
    fun w h => by simpa using h).bind fun _ => ?_
  exact (orFail_attempt_calm (.steady _) (.inl rfl)).conseq (fun _ => id) (fun _ _ _ => hfit)
    fun _ _ => id

/-- **On a reliable stream, `neo4j_render_csv` returns exactly when every value it
stringifies has a text shorter than its first buffer**: then it writes its records, the
field names and a line a row; otherwise it runs out of fuel, for every fuel. -/
theorem renderCsv_returns_iff (env : Env) (fuel : Nat) (results : ResultStream)
    (flags : RenderFlags) (hfuel : 0 < fuel) (hcap : 2 ≤ env.fieldBufferInitialCapacity)
    (hn : 0 < results.nfields) (hfailure : results.failure = 0)
    (hend : results.failureAtEnd = 0) {w : World} (hw : w.Reliable) :
    (RowsFitBuffer flags env.fieldBufferInitialCapacity results.rows →
      ∃ w', renderCsv env fuel results flags w = .ok () w' ∧
        w'.out = w.out ++ (csvRecords flags results).flatMap csvLine) ∧
    (¬RowsFitBuffer flags env.fieldBufferInitialCapacity results.rows →
      ∃ w', renderCsv env fuel results flags w = .error .outOfFuel w') := by
  obtain ⟨fuel, rfl⟩ : ∃ f, fuel = f + 1 := ⟨fuel - 1, by omega⟩
  have h := renderCsv_fitsBuffer env fuel results flags hcap hn hfailure hend w hw
  have hwrites := renderCsv_writes env (fuel + 1) results flags hn w.out w rfl
  cases hrun : renderCsv env (fuel + 1) results flags w with
  | ok a w' =>
    rw [hrun] at h hwrites
    exact ⟨fun _ => ⟨w', rfl, hwrites⟩, fun hnot => absurd h hnot⟩
  | error e w' =>
    rw [hrun] at h
    obtain ⟨rfl, hnot⟩ := h
    exact ⟨fun hfit => absurd hfit hnot, fun _ => ⟨w', rfl⟩⟩

/-- One field `n` and the row `42`. -/
def answerSample : ResultStream :=
  ⟨[⟨bytesOf "n", by decide⟩], [[⟨.int, [], bytesOf "42"⟩]], 0, 0, by decide⟩

/-- The number's text fits the first buffer, and the export returns with its two lines. -/
theorem renderCsv_returns_iff_answer :
    RowsFitBuffer asciiFlags Env.utf8Terminal.fieldBufferInitialCapacity answerSample.rows ∧
      ∃ w', renderCsv Env.utf8Terminal 1 answerSample asciiFlags World.init = .ok () w' ∧
        w'.out = World.init.out ++ bytesOf "\"n\"\n42\n" :=
  have hfit : RowsFitBuffer asciiFlags Env.utf8Terminal.fieldBufferInitialCapacity
      answerSample.rows := by decide
  ⟨hfit, (renderCsv_returns_iff Env.utf8Terminal 1 answerSample asciiFlags (by decide)
    (by decide) (by decide) rfl rfl fun _ => rfl).1 hfit⟩

end Neo4jRender
