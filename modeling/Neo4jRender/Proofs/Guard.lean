/-
What every run of the renderers keeps, whichever of their calls fail.

The two renderers are long compositions of a few kinds of outside call: writes, allocations
and flushes, which may fail; the decoder, which may reject a field; `neo4j_check_failure`; and
the staging buffer.  A guard is an invariant of a run over those calls: `running` holds while
no call has returned `-1`, `stopped` once one has, and `chunk` says which bytes a single write
may carry.  Its fields say, once for each kind of call, that the call keeps it.  The calls
come in three layers, each guard extending the one before: a `WriteGuard` is kept by the
stream's calls, a `CallGuard` by the decoder as well, the only other call `render.c` makes,
and a `Guard` by every call of the two renderers.

From those fields alone, one lemma a function says that a run of the function started
`running` ends `running` if it returns and `stopped` if it returns `-1` (`renderTable_keeps`,
`renderCsv_keeps`); a function with no `assert` and no loop bounded by the model's fuel fails
with `-1` only (`Clean`).  Each lemma cites the lemmas of the functions it calls and never
unfolds them.

A world predicate these calls keep is then a guard, and what a run keeps of it is read off
those lemmas, not walked again.  A predicate of reliable worlds that a successful call keeps
(`Calm`: the reliable stream, a buffer of a given size) is a guard that never stops, so a
function that only writes returns from it keeping it; a predicate that every call keeps,
failed or not (the memory a text pointer reads), is a guard that stops where it runs
(`CallGuard.frame`).  What no guard says has lemmas of its own: that no `assert` fires, the
bytes a run writes, and how and with how much fuel it ends.  The failures of the two
renderers and the encoding of their output are two more guards (`Neo4jRender.Proofs.Errors`,
`Neo4jRender.Proofs.Encoding`).
-/
import Neo4jRender.Proofs.Triple

namespace Neo4jRender

/-- An invariant of a run over the stream's calls. -/
structure WriteGuard where
  /-- Holds while no call of the run has returned `-1`. -/
  running : World → Prop
  /-- Holds once the run has returned `-1`. -/
  stopped : World → Prop
  /-- The bytes one write may carry. -/
  chunk : List UInt8 → Prop
  /-- A write of allowed bytes keeps the run going, or stops it if the stream fails it. -/
  write : ∀ w bytes, running w → chunk bytes → match w.fault w.log.length with
    | none => running (w.record (.write true) bytes)
    | some e => stopped (w.reject (.write false) e)
  /-- So does an allocation, or the closing flush. -/
  attempt : ∀ w (call : Bool → Call), (call = .flush ∨ call = .alloc) → running w →
    match w.fault w.log.length with
    | none => running (w.record (call true) [])
    | some e => stopped (w.reject (call false) e)

/-- An invariant of a run over the calls `render.c` makes: the stream's and the decoder's. -/
structure CallGuard extends WriteGuard where
  /-- A decoded sequence keeps the run going; a rejected one stops it. -/
  decode : ∀ w, running w → running (w.record (.decode true) [])
  reject : ∀ w, running w → stopped (w.record (.decode false) [])

/-- An invariant of a run over the renderers' outside calls. -/
structure Guard extends CallGuard where
  /-- A check of the result stream keeps the run going when it reports nothing, and otherwise
  stops it with the code in `errno`. -/
  check : ∀ w code, running w → if code = 0 then running (w.record (.check code) [])
    else stopped ((w.record (.check code) []).withErrno code)
  /-- A call outside the precondition stops the run with `EINVAL`. -/
  require : ∀ w, running w → stopped (w.withErrno 22)
  /-- The staging buffer is not what the guard is about. -/
  buf : ∀ w b, running w → running (w.withBuf b)
  bufcap : ∀ w n, running w → running (w.withBufcap n)
  /-- The cleanup at `failure:`: a flush, whatever it does, and `errno` restored. -/
  cleanup : ∀ w, stopped w → match w.fault w.log.length with
    | none => stopped ((w.record (.flush true) []).withErrno w.errno)
    | some e => stopped ((w.reject (.flush false) e).withErrno w.errno)

instance : Coe CallGuard WriteGuard := ⟨CallGuard.toWriteGuard⟩

instance : Coe Guard CallGuard := ⟨Guard.toCallGuard⟩

namespace WriteGuard

variable (G : WriteGuard)

/-- What holds when a run ends in error: `stopped` after a `-1`; after an assert or at the end
of the model's fuel no call has failed, so `running` still. -/
def Stop : Err → World → Prop
  | .failed => G.stopped
  | _ => G.running

/-- A computation that keeps the guard. -/
def Keeps {α : Type} (m : RenderM α) : Prop := Triple G.running m (fun _ => G.running) G.Stop

/-- A computation that keeps the guard and fails only with `-1`. -/
def Clean {α : Type} (m : RenderM α) : Prop :=
  Triple G.running m (fun _ => G.running) fun e w => e = .failed ∧ G.stopped w

variable {G} {α β : Type} {m : RenderM α}

theorem Keeps.bind {f : α → RenderM β} (hm : G.Keeps m) (hf : ∀ a, G.Keeps (f a)) :
    G.Keeps (m >>= f) :=
  Triple.bind hm hf

theorem Keeps.map {f : α → β} (hm : G.Keeps m) : G.Keeps (f <$> m) := Triple.map hm

theorem keeps_pure (a : α) : G.Keeps (pure a : RenderM α) := Triple.pure fun _ => id

/-- Both branches of a test keep the guard; none of the renderers' tests is needed to show it. -/
theorem Keeps.ite {c : Prop} [Decidable c] {t e : RenderM α} (ht : G.Keeps t) (he : G.Keeps e) :
    G.Keeps (if c then t else e) :=
  Triple.ite (fun _ => ht) fun _ => he

/-- A call that only reads the world, or changes it as `g` does, keeps the guard if `g` does. -/
theorem keeps_of_run {v : World → α} {g : World → World} (hm : ∀ w, m w = .ok (v w) (g w))
    (hg : ∀ w, G.running w → G.running (g w)) : G.Keeps m := fun w hw => by
  rw [hm]; exact hg w hw

theorem Clean.keeps (h : G.Clean m) : G.Keeps m :=
  h.conseq (fun _ => id) (fun _ _ => id) fun _ _ ⟨he, hs⟩ => he ▸ hs

theorem Clean.bind {f : α → RenderM β} (hm : G.Clean m) (hf : ∀ a, G.Clean (f a)) :
    G.Clean (m >>= f) :=
  Triple.bind hm hf

theorem clean_pure (a : α) : G.Clean (pure a : RenderM α) := Triple.pure fun _ => id

theorem Clean.ite {c : Prop} [Decidable c] {t e : RenderM α} (ht : G.Clean t) (he : G.Clean e) :
    G.Clean (if c then t else e) :=
  Triple.ite (fun _ => ht) fun _ => he

end WriteGuard

/-! ### The calls -/

section Writes

variable (G : WriteGuard)

theorem orFail_fwrite_clean {bytes : List UInt8} (h : G.chunk bytes) :
    G.Clean (orFail (fwrite bytes)) :=
  orFail_spec ((fwrite_spec bytes).pre fun w hw => by
    have hwrite := G.write w bytes hw h
    split
    · exact hw
    · revert hwrite; cases w.fault w.log.length <;> first | exact id | exact fun h => ⟨rfl, h⟩)

theorem orFail_attempt_clean {call : Bool → Call} (hcall : call = .flush ∨ call = .alloc) :
    G.Clean (orFail (attempt call)) :=
  orFail_spec ((attempt_spec call).pre fun w hw => by
    have hatt := G.attempt w call hcall hw
    revert hatt; cases w.fault w.log.length <;> first | exact id | exact fun h => ⟨rfl, h⟩)

theorem orFail_alloc_clean : G.Clean (orFail alloc) := orFail_attempt_clean G (.inr rfl)

theorem orFail_fflush_clean : G.Clean (orFail fflush) := orFail_attempt_clean G (.inl rfl)

theorem cAssert_keeps (c : Prop) [Decidable c] : G.Keeps (cAssert c) :=
  (cAssert_spec c).pre fun w hw => by split <;> exact hw

theorem readSrc_keeps (s : Src) : G.Keeps (readSrc s) :=
  WriteGuard.keeps_of_run (fun _ => rfl) fun _ => id

theorem getBuf_keeps : G.Keeps getBuf := WriteGuard.keeps_of_run (fun _ => rfl) fun _ => id

theorem getBufcap_keeps : G.Keeps getBufcap := WriteGuard.keeps_of_run (fun _ => rfl) fun _ => id

end Writes

section Calls

variable (G : Guard)

/-- A decoded sequence is what `u8codepoint` reads at the head of the memory. -/
theorem decodeAt_keeps (G : CallGuard) (mem : List UInt8) :
    Triple G.running (decodeAt mem) (fun r w => u8codepoint mem = some r ∧ G.running w) G.Stop :=
  (decodeAt_spec mem).pre fun w hw => by
    split
    · exact ⟨‹_›, G.decode w hw⟩
    · exact G.reject w hw

theorem checkResults_keeps (code : Nat) : G.Keeps (checkResults code) :=
  (checkResults_spec code).pre fun w hw => by
    have hcheck := G.check w code hw
    split <;> simp_all [WriteGuard.Stop]

theorem require_keeps (c : Prop) [Decidable c] : G.Keeps (require c) :=
  (require_spec c).pre fun w hw => by
    split
    · exact hw
    · exact G.require w hw

theorem setBufcap_keeps (size : Nat) : G.Keeps (setBufcap size) :=
  WriteGuard.keeps_of_run (fun _ => rfl) fun w hw => G.bufcap w _ hw

theorem newBuffer_keeps (size : Nat) : G.Keeps (newBuffer size) :=
  WriteGuard.keeps_of_run (fun _ => rfl) fun w hw => G.bufcap _ _ (G.buf w _ hw)

theorem ntostring_keeps (value : Value) : G.Keeps (ntostring value) :=
  WriteGuard.keeps_of_run (fun _ => rfl) fun w hw => G.buf w _ hw

theorem clearBuf_keeps : G.Keeps clearBuf :=
  WriteGuard.keeps_of_run (fun _ => rfl) fun w hw => G.buf w _ hw

/-- The cleanup at `failure:` keeps a stopped run stopped. -/
theorem failureCleanup_keeps : Triple G.stopped failureCleanup (fun _ => G.stopped) G.Stop :=
  ((getErrno_spec (Q := fun errsv w => errsv = w.errno ∧ G.stopped w)).pre
    fun _ h => ⟨rfl, h⟩).bind fun errsv =>
    ((attempt_spec (Q := fun _ w => G.stopped (w.withErrno errsv)) .flush).pre
      fun w ⟨he, hs⟩ => by
        have hc := G.cleanup w hs
        subst he
        revert hc; cases w.fault w.log.length <;> exact id).bind
    fun _ => (setErrno_spec errsv).pre fun _ h => h

/-- A `failure:` label keeps the guard of the body it ends. -/
theorem onFailure_keeps {α : Type} {body : RenderM α} (h : G.Keeps body) :
    G.Keeps (onFailure body failureCleanup) :=
  Triple.onFailure h (failureCleanup_keeps G) fun e _ he hs => by
    cases e <;> first | exact absurd rfl he | exact hs

end Calls

/-! ### `render.c` -/

/-- The bytes `render.c` writes are among a guard's chunks: its ASCII texts (spaces, newlines,
escapes), the glyphs of the set the flags choose, and the sequences it copies from a field
whole, which under `NEO4J_RENDER_ASCII` are single bytes. -/
structure TableChunks (G : WriteGuard) (flags : RenderFlags) : Prop where
  ascii : ∀ b, Ascii b → G.chunk b
  glif : ∀ line, G.chunk ((glifsForEncoding flags).glif line).1
  overflow : G.chunk (glifsForEncoding flags).overflow.1
  raw : ∀ mem cp k, u8codepoint mem = some (cp, k) → ¬(1 < k ∧ flags.ascii = true) →
    G.chunk (mem.take k)

/-- A guard that lets a write carry any bytes has the chunks of every table. -/
theorem TableChunks.of_all {G : WriteGuard} (hall : ∀ b, G.chunk b) (flags : RenderFlags) :
    TableChunks G flags :=
  ⟨fun b _ => hall b, fun _ => hall _, hall _, fun _ _ _ _ _ => hall _⟩

/-- The corners and the line of every rule are glyphs of the set. -/
theorem TableChunks.hrule {G : WriteGuard} {flags : RenderFlags} (hc : TableChunks G flags)
    (position : HlinePosition) :
    G.chunk (hruleGlifs (glifsForEncoding flags) position).1.left.1 ∧
    G.chunk (hruleGlifs (glifsForEncoding flags) position).1.middle.1 ∧
    G.chunk (hruleGlifs (glifsForEncoding flags) position).1.right.1 ∧
    G.chunk (hruleGlifs (glifsForEncoding flags) position).2.1 := by
  cases position
  · exact ⟨hc.glif .topLeftCorner, hc.glif .topMiddleCorner, hc.glif .topRightCorner,
      hc.glif .horizontalLine⟩
  · exact ⟨hc.glif .headLeftCorner, hc.glif .headMiddleCorner, hc.glif .headRightCorner,
      hc.glif .headLine⟩
  · exact ⟨hc.glif .middleLeftCorner, hc.glif .middleMiddleCorner, hc.glif .middleRightCorner,
      hc.glif .horizontalLine⟩
  · exact ⟨hc.glif .bottomLeftCorner, hc.glif .bottomMiddleCorner, hc.glif .bottomRightCorner,
      hc.glif .horizontalLine⟩

theorem hexDigit_ascii {d : Nat} (h : d < 16) : hexDigit d < 0x80 := by
  have : ∀ d < 16, hexDigit d < 0x80 := by decide
  exact this d h

/-- Every escape `write_unprintable` formats is ASCII, its terminating NUL included. -/
theorem unprintableReplacement_ascii (codepoint : Nat) :
    Ascii (unprintableReplacement codepoint).1 := by
  have hhex : ∀ k v, Ascii (hexDigits k v) := fun k v b hb => by
    obtain ⟨i, -, rfl⟩ := List.mem_map.mp hb
    exact hexDigit_ascii (Nat.mod_lt _ (by decide))
  have hbuf : ∀ c, c < 0x80 → ∀ k,
      Ascii (snprintfBuf 10 (0x5C :: c :: hexDigits k codepoint)) :=
    fun c hc k => Ascii.append (fun b hb => by
      rcases List.mem_cons.mp (List.mem_of_mem_take hb) with rfl | hb
      · decide
      rcases List.mem_cons.mp hb with rfl | hb
      · exact hc
      · exact hhex k codepoint b hb) (by decide)
  unfold unprintableReplacement
  split
  any_goals decide
  split
  · exact hbuf 0x75 (by decide) 4
  · exact hbuf 0x55 (by decide) 8

/-! #### Functions that only write -/

section Writers

variable (G : WriteGuard)

theorem fputsTimes_clean {s : CString} (h : G.chunk s.1) : ∀ k, G.Clean (fputsTimes s k)
  | 0 => WriteGuard.clean_pure _
  | k + 1 => (orFail_fwrite_clean G h).bind fun _ => fputsTimes_clean h k

theorem hruleColumns_clean {corners : Corners} {line : CString}
    (hl : G.chunk corners.left.1) (hm : G.chunk corners.middle.1) (hline : G.chunk line.1) :
    ∀ first widths, G.Clean (hruleColumns corners line first widths)
  | _, [] => WriteGuard.clean_pure _
  | first, w :: ws => .ite (hruleColumns_clean hl hm hline first ws)
    ((orFail_fwrite_clean G (by split <;> assumption)).bind fun _ =>
      (fputsTimes_clean G hline w).bind fun _ => hruleColumns_clean hl hm hline false ws)

theorem renderHrule_clean {flags : RenderFlags} (hc : TableChunks G flags) (widths : List Nat)
    (position : HlinePosition) (undersize : Bool) :
    G.Clean (renderHrule widths position undersize flags) := by
  obtain ⟨hl, hm, hr, hline⟩ := hc.hrule position
  exact (hruleColumns_clean G hl hm hline true widths).bind fun _ =>
    (orFail_fwrite_clean G (by split <;> assumption)).bind fun _ =>
    (WriteGuard.Clean.ite (orFail_fwrite_clean G hline) (WriteGuard.clean_pure _)).bind fun _ =>
    orFail_fwrite_clean G (hc.ascii _ (by decide))

theorem renderBorderLine_clean {flags : RenderFlags} (hc : TableChunks G flags)
    (lineType : BorderLine) : G.Clean (renderBorderLine lineType flags) :=
  orFail_fwrite_clean G (hc.glif lineType)

theorem renderRowEnd_clean {glifs : BorderGlifs} (hv : G.chunk glifs.verticalLine.1)
    (ho : G.chunk glifs.overflow.1) (hnl : G.chunk [0x0A]) (undersize : Bool) :
    G.Clean (renderRowEnd glifs undersize) :=
  (orFail_fwrite_clean G hv).bind fun _ =>
    (WriteGuard.Clean.ite (orFail_fwrite_clean G ho) (WriteGuard.clean_pure _)).bind fun _ =>
      orFail_fwrite_clean G hnl

theorem padSpaces_clean (h : G.chunk [0x20]) : ∀ k, G.Clean (padSpaces k)
  | 0 => WriteGuard.clean_pure _
  | k + 1 => (orFail_fwrite_clean G h).bind fun _ => padSpaces_clean h k

theorem writeUnprintable_clean {flags : RenderFlags} (hc : TableChunks G flags)
    (codepoint width : Nat) : G.Clean (writeUnprintable codepoint width) :=
  (orFail_fwrite_clean G (hc.ascii _ ((unprintableReplacement_ascii codepoint).take _))).bind
    fun _ => WriteGuard.clean_pure _

variable (hall : ∀ b, G.chunk b)
include hall

theorem writeCsvQuotedLoop_clean (str : List UInt8) (stop : Nat) :
    ∀ fuel pos n, G.Clean (writeCsvQuotedLoop str stop fuel pos n)
  | 0, _, _ => WriteGuard.clean_pure _
  | fuel + 1, pos, n => .ite (by
      split
      · exact orFail_fwrite_clean G (hall _)
      · exact (orFail_fwrite_clean G (hall _)).bind fun _ => (orFail_fwrite_clean G (hall _)).bind
          fun _ => writeCsvQuotedLoop_clean str stop fuel _ _) (WriteGuard.clean_pure _)

theorem writeCsvQuotedString_clean (s : List UInt8) (n : Nat) :
    G.Clean (writeCsvQuotedString s n) :=
  (orFail_fwrite_clean G (hall _)).bind fun _ => (writeCsvQuotedLoop_clean G hall s n n 0 n).bind
    fun _ => orFail_fwrite_clean G (hall _)

end Writers

/-! #### Rows -/

theorem keepRest_keeps (G : WriteGuard) (f : FieldText) (consumed : Nat) :
    G.Keeps (keepRest f consumed) :=
  .ite ((readSrc_keeps G _).bind fun _ => (orFail_alloc_clean G).keeps.bind fun _ =>
    WriteGuard.keeps_pure _) (WriteGuard.keeps_pure _)

section Table

variable (G : CallGuard) {flags : RenderFlags} (hc : TableChunks G flags)
include hc

theorem renderFieldLoop_keeps (env : Env) (mem : List UInt8) (n width : Nat) :
    ∀ fuel pos used, G.Keeps (renderFieldLoop env mem n width flags fuel pos used)
  | 0, _, _ => WriteGuard.keeps_pure _
  | fuel + 1, pos, used => by
    refine WriteGuard.Keeps.ite ((decodeAt_keeps G _).bind fun ⟨cp, bytes⟩ =>
      Triple.prop fun hdec => ?_) (WriteGuard.keeps_pure _)
    dsimp only
    cases hcp : (if 1 < bytes ∧ flags.ascii = true then none else env.u8cpwidth cp) with
    | none =>
      exact (writeUnprintable_clean G hc cp width).keeps.bind fun _ =>
        renderFieldLoop_keeps env mem n width fuel _ _
    | some cpwidth =>
      have hraw : ¬(1 < bytes ∧ flags.ascii = true) := fun h => by simp [h] at hcp
      exact WriteGuard.Keeps.ite (WriteGuard.keeps_pure _)
        ((orFail_fwrite_clean G (hc.raw _ cp bytes hdec hraw)).keeps.bind fun _ =>
          renderFieldLoop_keeps env mem n width fuel _ _)

theorem renderField_keeps (env : Env) (mem : List UInt8) (n width : Nat) :
    G.Keeps (renderField env mem n width flags) :=
  (renderFieldLoop_keeps G hc env mem n width n 0 0).bind fun (_, used) =>
    (padSpaces_clean G (hc.ascii [0x20] (by decide)) (width - used)).keeps.bind fun _ =>
      WriteGuard.keeps_pure _

theorem renderRowFirst_keeps (env : Env) {callback : Option (Nat → RenderM FieldText)}
    (hcb : ∀ cb ∈ callback, ∀ i, G.Keeps (cb i)) :
    ∀ i widths, G.Keeps (renderRowFirst env flags (glifsForEncoding flags) callback i widths)
  | _, [] => WriteGuard.keeps_pure _
  | i, width :: widths => by
    have hrest := renderRowFirst_keeps env hcb (i + 1) widths
    have hf : G.Keeps (match callback with
        | some cb => cb i
        | none => (pure ⟨.stable [], 0, false⟩ : RenderM FieldText)) := by
      cases callback with
      | none => exact WriteGuard.keeps_pure _
      | some cb => exact hcb cb rfl i
    have hspace := (orFail_fwrite_clean G (hc.ascii [0x20] (by decide))).keeps
    refine WriteGuard.Keeps.ite (hrest.bind fun _ => WriteGuard.keeps_pure _) ?_
    refine (orFail_fwrite_clean G (hc.glif .verticalLine)).keeps.bind fun _ => hspace.bind fun _ =>
      (cAssert_keeps G _).bind fun _ => hf.bind fun f => (readSrc_keeps G _).bind fun mem =>
      (renderField_keeps G hc env mem f.n _).bind fun consumed =>
      WriteGuard.Keeps.bind ?_ fun _ => hrest.bind fun _ => WriteGuard.keeps_pure _
    exact WriteGuard.Keeps.ite (hspace.bind fun _ => WriteGuard.keeps_pure _)
      ((orFail_fwrite_clean G hc.overflow).keeps.bind fun _ =>
        .ite (keepRest_keeps G f consumed).map (WriteGuard.keeps_pure _))

theorem renderRowWrapLine_keeps (env : Env) :
    ∀ widths ps, G.Keeps (renderRowWrapLine env flags (glifsForEncoding flags) widths ps)
  | width :: widths, p :: ps => by
    have hrest := renderRowWrapLine_keeps env widths ps
    refine WriteGuard.Keeps.ite (hrest.bind fun _ => WriteGuard.keeps_pure _) ?_
    refine (cAssert_keeps G _).bind fun _ =>
      (orFail_fwrite_clean G (hc.glif .verticalLine)).keeps.bind
      fun _ => (orFail_fwrite_clean G ?_).keeps.bind fun _ => (readSrc_keeps G _).bind fun mem =>
      (renderField_keeps G hc env mem p.n _).bind fun consumed =>
      WriteGuard.Keeps.bind ?_ fun _ => hrest.bind fun _ => WriteGuard.keeps_pure _
    · split
      · exact hc.overflow
      · exact hc.ascii _ (by decide)
    · exact WriteGuard.Keeps.ite
        ((orFail_fwrite_clean G (hc.ascii [0x20] (by decide))).keeps.bind fun _ =>
          WriteGuard.keeps_pure _)
        ((orFail_fwrite_clean G hc.overflow).keeps.bind fun _ => WriteGuard.keeps_pure _)
  | [], _ => WriteGuard.keeps_pure _
  | _ :: _, [] => WriteGuard.keeps_pure _

theorem renderRowWrap_keeps (env : Env) (widths : List Nat) (undersize : Bool) :
    ∀ fuel ps, G.Keeps (renderRowWrap env flags (glifsForEncoding flags) widths undersize fuel ps)
  | 0, _ => Triple.throw fun _ h => h
  | fuel + 1, ps => (renderRowWrapLine_keeps G hc env widths ps).bind fun (ps', _) =>
    (renderRowEnd_clean G (hc.glif .verticalLine) hc.overflow (hc.ascii _ (by decide))
      undersize).keeps.bind
      fun _ => .ite (renderRowWrap_keeps env widths undersize fuel ps') (WriteGuard.keeps_pure _)

/-- **A row keeps every guard whose chunks are the table's**, whatever its callback does, as
long as the callback keeps the guard too. -/
theorem renderRow_keeps (env : Env) (fuel : Nat) (widths : List Nat) (undersize : Bool)
    {callback : Option (Nat → RenderM FieldText)}
    (hcb : ∀ cb ∈ callback, ∀ i, G.Keeps (cb i)) :
    G.Keeps (renderRow env fuel widths undersize flags callback) :=
  (WriteGuard.Keeps.ite (orFail_alloc_clean G).keeps (WriteGuard.keeps_pure _)).bind fun _ =>
    (renderRowFirst_keeps G hc env hcb 0 widths).bind fun (fields, _) =>
      (renderRowEnd_clean G (hc.glif .verticalLine) hc.overflow (hc.ascii _ (by decide))
        undersize).keeps.bind fun _ =>
          .ite (renderRowWrap_keeps G hc env widths undersize fuel fields) (WriteGuard.keeps_pure _)

end Table

/-! ### `render_results.c` -/

section Results

variable (G : Guard)

theorem valueTostring_keeps (flags : RenderFlags) (value : Value) :
    G.Keeps (valueTostring flags value) :=
  (getBufcap_keeps G).bind fun _ => (cAssert_keeps G _).bind fun _ =>
    .ite ((clearBuf_keeps G).bind fun _ => WriteGuard.keeps_pure _) (ntostring_keeps G value)

theorem renderFieldValueLoop_keeps (flags : RenderFlags) (value : Value) :
    ∀ fuel, G.Keeps (renderFieldValueLoop flags value fuel)
  | 0 => Triple.throw fun _ h => h
  | fuel + 1 => (valueTostring_keeps G flags value).bind fun _ => (getBufcap_keeps G).bind fun _ =>
    .ite (WriteGuard.keeps_pure _) ((orFail_alloc_clean G).keeps.bind fun _ =>
      (setBufcap_keeps G _).bind fun _ => renderFieldValueLoop_keeps flags value fuel)

theorem obtainResultField_keeps (fuel : Nat) (flags : RenderFlags) (row : List Value) (i : Nat) :
    G.Keeps (obtainResultField fuel flags row i) :=
  .ite (WriteGuard.keeps_pure _) (((getBufcap_keeps G).bind fun _ => (cAssert_keeps G _).bind
    fun _ => renderFieldValueLoop_keeps G flags _ fuel).bind fun _ => WriteGuard.keeps_pure _)

theorem writeValueLoop_keeps (value : Value) : ∀ fuel, G.Keeps (writeValueLoop value fuel)
  | 0 => Triple.throw fun _ h => h
  | fuel + 1 => (ntostring_keeps G value).bind fun _ => (getBufcap_keeps G).bind fun _ =>
    .ite (WriteGuard.keeps_pure _) ((orFail_alloc_clean G).keeps.bind fun _ =>
      (setBufcap_keeps G _).bind fun _ => writeValueLoop_keeps value fuel)

theorem renderTableRows_keeps {flags : RenderFlags} (hc : TableChunks G flags) (env : Env)
    (fuel : Nat) (widths : List Nat) (undersize : Bool) :
    ∀ first rows, G.Keeps (renderTableRows env fuel widths undersize flags first rows)
  | _, [] => WriteGuard.keeps_pure _
  | _, row :: rows => (WriteGuard.Keeps.ite (renderHrule_clean G hc _ _ _).keeps
    (WriteGuard.keeps_pure _)).bind fun _ => (renderRow_keeps G hc env fuel widths undersize
      fun _ hcb i => by cases hcb; exact obtainResultField_keeps G fuel flags row i).bind fun _ =>
        renderTableRows_keeps hc env fuel widths undersize false rows

/-- **`neo4j_render_table` keeps every guard whose chunks are the table's**, for the flags it
draws with. -/
theorem renderTable_keeps (env : Env) (fuel : Nat) (results : ResultStream) (width : Nat)
    {flags : RenderFlags} (hc : TableChunks G (normalizeRenderFlags env.codeset flags)) :
    G.Keeps (renderTable env fuel results width flags) := by
  have hrule := fun widths position undersize =>
    (renderHrule_clean G hc widths position undersize).keeps
  refine (require_keeps G _).bind fun _ => (checkResults_keeps G _).bind fun _ =>
    WriteGuard.Keeps.ite (WriteGuard.keeps_pure _) ?_
  refine (cAssert_keeps G _).bind fun _ =>
    (WriteGuard.Keeps.ite (orFail_alloc_clean G).keeps (WriteGuard.keeps_pure _)).bind fun _ =>
    (onFailure_keeps G ?_).bind fun _ => (orFail_fflush_clean G).keeps
  exact (newBuffer_keeps G _).bind fun _ =>
    (WriteGuard.Keeps.ite (orFail_alloc_clean G).keeps (WriteGuard.keeps_pure _)).bind fun _ =>
    (hrule _ _ _).bind fun _ =>
    (renderRow_keeps G hc env fuel _ _ fun _ hcb _ => by
      cases hcb; exact WriteGuard.keeps_pure _).bind
    fun _ => (hrule _ _ _).bind fun _ => (renderTableRows_keeps G hc env fuel _ _ true _).bind
    fun _ => (checkResults_keeps G _).bind fun _ => hrule _ _ _

end Results

/-! ### CSV -/

section Csv

variable (G : Guard) (hall : ∀ b, G.chunk b)
include hall

theorem writeValue_keeps (fuel : Nat) (flags : RenderFlags) (value : Value) :
    G.Keeps (writeValue fuel flags value) :=
  .ite (writeCsvQuotedString_clean G hall _ _).keeps <| .ite (WriteGuard.keeps_pure _) <|
    (getBufcap_keeps G).bind fun _ => (cAssert_keeps G _).bind fun _ =>
    (writeValueLoop_keeps G value fuel).bind fun _ => (getBuf_keeps G).bind fun _ =>
    .ite (orFail_fwrite_clean G (hall _)).keeps (writeCsvQuotedString_clean G hall _ _).keeps

theorem csvCells_keeps (nfields : Nat) {cell : Nat → RenderM Unit}
    (hcell : ∀ i, G.Keeps (cell i)) :
    ∀ k i, G.Keeps (csvCells nfields cell k i)
  | 0, _ => WriteGuard.keeps_pure _
  | k + 1, i => (hcell i).bind fun _ =>
    (WriteGuard.Keeps.ite (orFail_fwrite_clean G (hall _)).keeps (WriteGuard.keeps_pure _)).bind
      fun _ => csvCells_keeps nfields hcell k (i + 1)

theorem renderCsvRows_keeps (fuel : Nat) (flags : RenderFlags) (nfields : Nat) :
    ∀ rows, G.Keeps (renderCsvRows fuel flags nfields rows)
  | [] => WriteGuard.keeps_pure _
  | _ :: rows => (csvCells_keeps G hall nfields (fun _ => writeValue_keeps G hall _ _ _) _ _).bind
    fun _ => (orFail_fwrite_clean G (hall _)).keeps.bind fun _ =>
      renderCsvRows_keeps fuel flags nfields rows

/-- **`neo4j_render_csv` keeps every guard that lets a write carry any bytes.** -/
theorem renderCsv_keeps (env : Env) (fuel : Nat) (results : ResultStream) (flags : RenderFlags) :
    G.Keeps (renderCsv env fuel results flags) :=
  (newBuffer_keeps G _).bind fun _ => (orFail_alloc_clean G).keeps.bind fun _ =>
    onFailure_keeps G <| (checkResults_keeps G _).bind fun _ => .ite (WriteGuard.keeps_pure _) <|
      (csvCells_keeps G hall _ (fun _ => (writeCsvQuotedString_clean G hall _ _).keeps) _ _).bind
      fun _ => (orFail_fwrite_clean G (hall _)).keeps.bind fun _ =>
      (renderCsvRows_keeps G hall fuel flags _ _).bind fun _ =>
      (checkResults_keeps G _).bind fun _ => (orFail_fflush_clean G).keeps

end Csv

/-! ### World predicates the calls keep -/

/-- A predicate of reliable worlds that the record of every successful call keeps. -/
structure Calm (I : World → Prop) : Prop where
  reliable_of : ∀ w, I w → w.Reliable
  record : ∀ w c bytes, I w → I (w.record c bytes)

/-- In a reliable world no call fails: a calm predicate is a guard that never stops. -/
def WriteGuard.calm {I : World → Prop} (hI : Calm I) : WriteGuard where
  running := I
  stopped _ := False
  chunk _ := True
  write w _ hw _ := by rw [hI.reliable_of w hw]; exact hI.record _ _ _ hw
  attempt w _ _ hw := by rw [hI.reliable_of w hw]; exact hI.record _ _ _ hw

/-- A clean run from a calm world returns, and keeps it. -/
theorem WriteGuard.Clean.calm {I : World → Prop} {hI : Calm I} {α : Type} {m : RenderM α}
    {E : Err → World → Prop} (h : (WriteGuard.calm hI).Clean m) : Triple I m (fun _ => I) E :=
  h.conseq (fun _ => id) (fun _ _ => id) fun _ _ h => h.2.elim

theorem Calm.reliable : Calm World.Reliable := ⟨fun _ => id, fun _ _ _ => id⟩

/-- A predicate that the record of every call keeps, failed or not, is a guard that stops
where it runs: a run keeps it whatever its calls do. -/
def CallGuard.frame (I : World → Prop) (hrecord : ∀ w c bytes, I w → I (w.record c bytes))
    (hreject : ∀ w c e, I w → I (w.reject c e)) : CallGuard where
  running := I
  stopped := I
  chunk _ := True
  write w _ hw _ := by split <;> [exact hrecord _ _ _ hw; exact hreject _ _ _ hw]
  attempt w _ _ hw := by split <;> [exact hrecord _ _ _ hw; exact hreject _ _ _ hw]
  decode _ hw := hrecord _ _ _ hw
  reject _ hw := hrecord _ _ _ hw

section Calm

variable {I : World → Prop} (hI : Calm I) {E : Err → World → Prop}
include hI

theorem orFail_fwrite_calm (bytes : List UInt8) :
    Triple I (orFail (fwrite bytes)) (fun _ => I) E :=
  (orFail_fwrite_clean (.calm hI) trivial).calm

theorem orFail_attempt_calm {call : Bool → Call} (hcall : call = .flush ∨ call = .alloc) :
    Triple I (orFail (attempt call)) (fun _ => I) E :=
  (orFail_attempt_clean (.calm hI) hcall).calm

theorem renderHrule_calm (widths : List Nat) (position : HlinePosition) (undersize : Bool)
    (flags : RenderFlags) : Triple I (renderHrule widths position undersize flags) (fun _ => I) E :=
  (renderHrule_clean (.calm hI) (.of_all (fun _ => trivial) flags) widths position undersize).calm

theorem renderRowEnd_calm (glifs : BorderGlifs) (undersize : Bool) :
    Triple I (renderRowEnd glifs undersize) (fun _ => I) E :=
  (renderRowEnd_clean (.calm hI) trivial trivial trivial undersize).calm

theorem padSpaces_calm (k : Nat) : Triple I (padSpaces k) (fun _ => I) E :=
  (padSpaces_clean (.calm hI) trivial k).calm

theorem writeCsvQuotedString_calm (s : List UInt8) (n : Nat) :
    Triple I (writeCsvQuotedString s n) (fun _ => I) E :=
  (writeCsvQuotedString_clean (.calm hI) (fun _ => trivial) s n).calm

end Calm

/-! ### What a run writes in a reliable world -/

/-- A world whose writes succeed, its stream holding `o`. -/
def Wrote (o : List UInt8) (w : World) : Prop := w.Reliable ∧ w.out = o

@[simp] theorem wrote_record_nil {o : List UInt8} {w : World} {c : Call} :
    Wrote o (w.record c []) ↔ Wrote o w := by
  simp only [Wrote, World.record_out, List.append_nil]
  exact Iff.rfl

theorem orFail_fwrite_wrote {E : Err → World → Prop} (bytes o : List UInt8) :
    Triple (Wrote o) (orFail (fwrite bytes)) (fun _ => Wrote (o ++ bytes)) E :=
  ((orFail_fwrite_calm (E := E) .reliable bytes).and (orFail_fwrite_writes bytes o)).conseq
    (fun _ => id) (fun _ _ => id) fun _ _ h => h.1

end Neo4jRender
