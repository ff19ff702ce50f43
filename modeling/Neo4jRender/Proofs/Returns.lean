/-
When `neo4j_render_table` returns.

The table renderer has two loops with no bound of their own: the `do … while (true)` of
`render_field_value`, and the `while (wrap)` of `render_row`.  The first takes two turns at
most, its `realloc` sizing the buffer to the text (`renderFieldValueLoop_settles`).  The
second ends when every `render_field` call on a text it has not finished consumes a byte:
the bytes the row's entries have left, `pendingBytes`, then drop with every line that asks
for another (`renderRowWrapLine_shrinks`).  `render_field` does consume a byte whenever its
cell is at least two columns wide, whatever the text: `neo4j_u8cpwidth` gives no codepoint
more than two columns, and an escape is written whatever room is left
(`renderField_progress`).

So with columns at least four wide, whatever the bytes, the flags and the calls that fail,
`neo4j_render_table` returns, with 0 or with -1 (`renderTable_returns`): no `assert` fires
(`renderTable_safe`), and no loop runs forever.  Cells one column wide are not enough
(`renderTable_wide_diverges`), nor are cells of no width (`renderTable_wrap_diverges`).
-/
import Neo4jRender.Proofs.Table

namespace Neo4jRender

/-- A run of `m` that fails, fails as the code does, with `-1` or an `assert`: it does not
run out of the model's fuel. -/
def Settles {α : Type} (m : RenderM α) : Prop :=
  Triple (fun _ => True) m (fun _ _ => True) fun e _ => e ≠ .outOfFuel

namespace Settles

variable {α β : Type} {m : RenderM α}

/-- A call that always returns. -/
theorem of_ok (h : ∀ w, ∃ a w', m w = .ok a w') : Settles m := fun w _ => by
  obtain ⟨a, w', hw⟩ := h w
  rw [hw]
  trivial

theorem pure (a : α) : Settles (Pure.pure a : RenderM α) := Triple.pure fun _ _ => trivial

theorem throw {e : Err} (h : e ≠ .outOfFuel) : Settles (MonadExcept.throw e : RenderM α) :=
  Triple.throw fun _ _ => h

theorem bind {f : α → RenderM β} (hm : Settles m) (hf : ∀ a, Settles (f a)) :
    Settles (m >>= f) :=
  Triple.bind hm hf

theorem map {f : α → β} (hm : Settles m) : Settles (f <$> m) := Triple.map hm

theorem ite {p : Prop} [Decidable p] {t e : RenderM α} (ht : Settles t) (he : Settles e) :
    Settles (if p then t else e) :=
  Triple.ite (fun _ => ht) fun _ => he

theorem onFailure {body : RenderM α} {cleanup : RenderM Unit} (hb : Settles body)
    (hc : Settles cleanup) : Settles (Neo4jRender.onFailure body cleanup) :=
  Triple.onFailure hb (hc.conseq (fun _ _ => trivial) (fun _ _ _ => by decide) fun _ _ => id)
    fun _ _ _ => id

end Settles

/-- A fact about the value `m` returns, carried into what follows. -/
theorem Triple.bind_fact {α β : Type} {m : RenderM α} {f : α → RenderM β} {Q : α → Prop}
    {R : β → World → Prop} {E : Err → World → Prop}
    (hm : Triple (fun _ => True) m (fun a _ => Q a) E)
    (hf : ∀ a, Q a → Triple (fun _ => True) (f a) R E) : Triple (fun _ => True) (m >>= f) R E :=
  hm.bind fun a w h => hf a h w True.intro

/-! ### The calls -/

section Calls

theorem orFail_settles {call : RenderM Bool} (h : Settles call) : Settles (orFail call) :=
  h.bind fun r => by cases r <;> [exact Settles.throw (by decide); exact Settles.pure ()]

theorem fwrite_settles (bytes : List UInt8) : Settles (fwrite bytes) :=
  (fwrite_spec bytes).pre fun _ _ => by split <;> (try split) <;> trivial

theorem attempt_settles (call : Bool → Call) : Settles (attempt call) :=
  (attempt_spec call).pre fun _ _ => by split <;> trivial

theorem orFail_fwrite_settles (bytes : List UInt8) : Settles (orFail (fwrite bytes)) :=
  orFail_settles (fwrite_settles bytes)

theorem orFail_attempt_settles (call : Bool → Call) : Settles (orFail (attempt call)) :=
  orFail_settles (attempt_settles call)

theorem decodeAt_settles (mem : List UInt8) : Settles (decodeAt mem) :=
  (decodeAt_spec mem).pre fun _ _ => by split <;> trivial

theorem cAssert_settles (p : Prop) [Decidable p] : Settles (cAssert p) :=
  (cAssert_spec p).pre fun _ _ => by split <;> trivial

theorem require_settles (p : Prop) [Decidable p] : Settles (require p) :=
  (require_spec p).pre fun _ _ => by split <;> trivial

theorem checkResults_settles (code : Nat) : Settles (checkResults code) :=
  (checkResults_spec code).pre fun _ _ => by split <;> trivial

theorem readSrc_settles (s : Src) : Settles (readSrc s) := Settles.of_ok fun _ => ⟨_, _, rfl⟩

theorem newBuffer_settles (size : Nat) : Settles (newBuffer size) :=
  Settles.of_ok fun _ => ⟨_, _, rfl⟩

theorem failureCleanup_settles : Settles failureCleanup :=
  (Settles.of_ok fun _ => ⟨_, _, rfl⟩).bind fun _ => (attempt_settles _).bind fun _ =>
    Settles.of_ok fun _ => ⟨_, _, rfl⟩

end Calls

/-! ### The functions without a loop of the model's own -/

section Fuelless

variable {flags : RenderFlags}

theorem fputsTimes_settles (s : CString) : ∀ k, Settles (fputsTimes s k)
  | 0 => Settles.pure _
  | k + 1 => (orFail_fwrite_settles _).bind fun _ => fputsTimes_settles s k

theorem hruleColumns_settles (corners : Corners) (line : CString) :
    ∀ first widths, Settles (hruleColumns corners line first widths)
  | _, [] => Settles.pure _
  | first, _ :: ws => .ite (hruleColumns_settles corners line first ws)
    ((orFail_fwrite_settles _).bind fun _ => (fputsTimes_settles line _).bind fun _ =>
      hruleColumns_settles corners line false ws)

theorem renderHrule_settles (widths : List Nat) (position : HlinePosition) (undersize : Bool) :
    Settles (renderHrule widths position undersize flags) :=
  (hruleColumns_settles _ _ true widths).bind fun _ => (orFail_fwrite_settles _).bind fun _ =>
    (Settles.ite (orFail_fwrite_settles _) (Settles.pure _)).bind fun _ =>
      orFail_fwrite_settles _

theorem renderRowEnd_settles (glifs : BorderGlifs) (undersize : Bool) :
    Settles (renderRowEnd glifs undersize) :=
  (orFail_fwrite_settles _).bind fun _ =>
    (Settles.ite (orFail_fwrite_settles _) (Settles.pure _)).bind fun _ => orFail_fwrite_settles _

theorem padSpaces_settles : ∀ k, Settles (padSpaces k)
  | 0 => Settles.pure _
  | k + 1 => (orFail_fwrite_settles _).bind fun _ => padSpaces_settles k

theorem writeUnprintable_settles (codepoint width : Nat) :
    Settles (writeUnprintable codepoint width) :=
  (orFail_fwrite_settles _).bind fun _ => Settles.pure _

/-- **The codepoint loop of `render_field` only moves forward**, and needs no more fuel than
the text has bytes. -/
theorem renderFieldLoop_advances (env : Env) (mem : List UInt8) (n width : Nat) :
    ∀ fuel pos used, Triple (fun _ => True) (renderFieldLoop env mem n width flags fuel pos used)
      (fun r _ => pos ≤ r.1) fun e _ => e ≠ .outOfFuel
  | 0, _, _ => Triple.pure fun _ _ => le_rfl
  | fuel + 1, pos, used => by
    refine Triple.ite (fun _ => ?_) fun _ => Triple.pure fun _ _ => le_rfl
    refine ((decodeAt_spec (Q := fun r _ => 1 ≤ r.2 ∧ True) _).pre fun _ _ => ?_).bind
      fun ⟨cp, bytes⟩ => Triple.prop fun hb => ?_
    · split
      · exact ⟨(u8codepoint_length ‹_›).1, trivial⟩
      · decide
    have hrest : ∀ used, Triple (fun _ => True)
        (renderFieldLoop env mem n width flags fuel (pos + bytes) used)
        (fun r _ => pos ≤ r.1) fun e _ => e ≠ .outOfFuel := fun used =>
      (renderFieldLoop_advances env mem n width fuel (pos + bytes) used).conseq (fun _ => id)
        (fun _ _ h => by simp only at hb; omega) fun _ _ => id
    dsimp only
    split
    · exact Triple.bind (writeUnprintable_settles cp width) fun c => hrest (used + c)
    · exact Triple.ite (fun _ => Triple.pure fun _ _ => le_rfl)
        fun _ => Triple.bind (orFail_fwrite_settles _) fun _ => hrest _

theorem renderField_settles (env : Env) (mem : List UInt8) (n width : Nat) :
    Settles (renderField env mem n width flags) :=
  ((renderFieldLoop_advances env mem n width n 0 0).conseq (fun _ => id) (fun _ _ _ => trivial)
    fun _ _ => id).bind fun (_, used) => (padSpaces_settles (width - used)).bind fun _ =>
      Settles.pure _

end Fuelless

/-! ### `render_field` consumes a byte

A cell two columns wide takes the first codepoint of any text that is not empty: an unprintable
one is escaped whatever room is left, and a printable one takes two columns at most.
-/

/-- No codepoint takes more than two columns. -/
def Env.AtMostTwoColumns (env : Env) : Prop := ∀ cp c, env.u8cpwidth cp = some c → c ≤ 2

theorem u8cpwidth_le_two (cp c : Nat) (h : u8cpwidth cp = some c) : c ≤ 2 := by
  unfold u8cpwidth at h
  split_ifs at h <;> cases h <;> decide

theorem Env.utf8Terminal_atMostTwoColumns : Env.utf8Terminal.AtMostTwoColumns := u8cpwidth_le_two

section Progress

variable {env : Env} (henv : env.AtMostTwoColumns) {flags : RenderFlags}
include henv

theorem cellWidth_le_two {bytes cp c : Nat}
    (h : (if 1 < bytes ∧ flags.ascii then none else env.u8cpwidth cp) = some c) : c ≤ 2 := by
  split at h
  · cases h
  · exact henv cp c h

/-- **`render_field` consumes a byte of a text that is not empty**, in a cell two columns wide. -/
theorem renderField_progress (mem : List UInt8) (n : Nat) {width : Nat} (hw : 2 ≤ width) :
    Triple (fun _ => True) (renderField env mem n width flags) (fun r _ => 0 < n → 0 < r)
      fun e _ => e ≠ .outOfFuel := by
  cases n with
  | zero =>
    exact (renderField_settles env mem 0 width : Settles (renderField env mem 0 width flags)).conseq
      (fun _ => id) (fun _ _ _ h => absurd h (Nat.lt_irrefl 0)) fun _ _ => id
  | succ n =>
    refine Triple.bind (Q := fun r _ => 0 < r.1 ∧ True) ?_ fun (_, used) => Triple.prop fun hpos =>
      Triple.bind (padSpaces_settles (width - used)) fun _ => Triple.pure fun _ _ _ => hpos
    rw [renderFieldLoop, if_pos ⟨by omega, by omega⟩]
    refine ((decodeAt_spec (Q := fun r _ => 1 ≤ r.2 ∧ True) _).pre fun _ _ => ?_).bind
      fun ⟨cp, bytes⟩ => Triple.prop fun hb => ?_
    · split
      · exact ⟨(u8codepoint_length ‹_›).1, trivial⟩
      · decide
    have hrest : ∀ used, Triple (fun _ => True)
        (renderFieldLoop env mem (n + 1) width flags n (0 + bytes) used)
        (fun r _ => 0 < r.1 ∧ True) fun e _ => e ≠ .outOfFuel := fun used =>
      (renderFieldLoop_advances env mem (n + 1) width n (0 + bytes) used).conseq (fun _ => id)
        (fun _ _ h => ⟨by simp only at hb; omega, trivial⟩) fun _ _ => id
    dsimp only
    split
    · exact Triple.bind (writeUnprintable_settles cp width) fun c => hrest (0 + c)
    · rw [if_neg (by have := cellWidth_le_two henv ‹_›; omega)]
      exact Triple.bind (orFail_fwrite_settles _) fun _ => hrest _

end Progress

/-! ### The wrap loop lowers the bytes left -/

/-- The bytes the entries of `render_row`'s `fields` array have left. -/
def pendingBytes : List Pending → Nat
  | [] => 0
  | p :: ps => p.n + pendingBytes ps

theorem keepRest_n (f : FieldText) (k : Nat) :
    Triple (fun _ => True) (keepRest f k) (fun q _ => q.n = f.n - k) fun e _ => e ≠ .outOfFuel := by
  unfold keepRest
  dsimp only
  exact Triple.ite (fun _ => Triple.bind (readSrc_settles _) fun _ =>
    Triple.bind (orFail_attempt_settles _) fun _ => Triple.pure fun _ _ => rfl)
    fun _ => Triple.pure fun _ _ => rfl

section Rows

variable {env : Env} (flags : RenderFlags) (glifs : BorderGlifs)

/-- The first line leaves no more bytes than the callbacks handed back. -/
theorem renderRowFirst_bounded {callback : Nat → RenderM FieldText} {B : Nat}
    (hcb : ∀ j, Triple (fun _ => True) (callback j) (fun f _ => f.n ≤ B) fun e _ => e ≠ .outOfFuel) :
    ∀ i (widths : List Nat), Triple (fun _ => True)
      (renderRowFirst env flags glifs (some callback) i widths)
      (fun r _ => pendingBytes r.1 ≤ widths.length * B) fun e _ => e ≠ .outOfFuel
  | _, [] => Triple.pure fun _ _ => Nat.zero_le _
  | i, width :: widths => by
    have hrest := renderRowFirst_bounded hcb (i + 1) widths
    have hlen : (width :: widths).length * B = widths.length * B + B := by simp [Nat.add_mul]
    rw [renderRowFirst, hlen]
    refine Triple.ite (fun _ => Triple.bind_fact hrest fun (ps, _) h => Triple.pure fun _ _ => ?_)
      fun _ => ?_
    · simp only [pendingBytes, Pending.empty] at h ⊢
      omega
    refine Triple.bind (orFail_fwrite_settles _) fun _ => Triple.bind (orFail_fwrite_settles _)
      fun _ => Triple.bind (cAssert_settles _) fun _ => Triple.bind_fact (hcb i) fun f hf =>
      Triple.bind (readSrc_settles _) fun mem =>
      Triple.bind (renderField_settles env mem f.n (width - 2)) fun consumed => ?_
    refine Triple.bind_fact (Q := fun p : Option Pending => (p.getD Pending.empty).n ≤ B)
      (Triple.ite (fun _ => Triple.bind (orFail_fwrite_settles _) fun _ =>
        Triple.pure fun _ _ => Nat.zero_le _) fun _ => Triple.bind (orFail_fwrite_settles _)
        fun _ => Triple.ite (fun _ => Triple.map ((keepRest_n f consumed).conseq (fun _ => id)
          (fun q _ hq => show q.n ≤ B by omega) fun _ _ => id))
        fun _ => Triple.pure fun _ _ => Nat.zero_le _)
      fun p hp => Triple.bind_fact hrest fun (ps, _) h => Triple.pure fun _ _ => ?_
    simp only [pendingBytes] at h ⊢
    omega

variable (henv : env.AtMostTwoColumns)
include henv

/-- **One turn of `while (wrap)` lowers the bytes left**, by one at least when it asks for
another: every column it finds unfinished is at least two wide inside, and so consumes a
byte. -/
theorem renderRowWrapLine_shrinks :
    ∀ (widths : List Nat) (ps : List Pending), (∀ x ∈ widths, x = 0 ∨ 4 ≤ x) →
      Triple (fun _ => True) (renderRowWrapLine env flags glifs widths ps)
        (fun r _ => pendingBytes r.1 + r.2.toNat ≤ pendingBytes ps) fun e _ => e ≠ .outOfFuel
  | [], _, _ => Triple.pure fun _ _ => Nat.zero_le _
  | _ :: _, [], _ => Triple.pure fun _ _ => Nat.zero_le _
  | width :: widths, p :: ps, hw => by
    have hrest := renderRowWrapLine_shrinks widths ps fun x hx => hw x (List.mem_cons_of_mem _ hx)
    rw [renderRowWrapLine]
    refine Triple.ite (fun _ => Triple.bind_fact hrest fun (ps', wrap) h => Triple.pure fun _ _ => ?_)
      fun hne => ?_
    · simp only [pendingBytes] at h ⊢
      omega
    have h4 : 4 ≤ width := (hw width (List.mem_cons_self _ _)).resolve_left hne
    refine Triple.bind (cAssert_settles _) fun _ => Triple.bind (orFail_fwrite_settles _) fun _ =>
      Triple.bind (orFail_fwrite_settles _) fun _ => Triple.bind (readSrc_settles _) fun mem =>
      Triple.bind_fact (renderField_progress henv mem p.n (by omega : 2 ≤ width - 2))
        fun consumed hc => ?_
    refine Triple.bind_fact (Q := fun p' : Option Pending => (p'.getD p).n + p'.isSome.toNat ≤ p.n)
      (Triple.ite (fun _ => Triple.bind (orFail_fwrite_settles _) fun _ => Triple.pure fun _ _ => le_rfl)
        fun hlt => Triple.bind (orFail_fwrite_settles _) fun _ => Triple.pure fun _ _ => ?_)
      fun p' hp' => Triple.bind_fact hrest fun (ps', wrap) h => Triple.pure fun _ _ => ?_
    · show p.n - consumed + 1 ≤ p.n
      omega
    · have hor : (wrap || p'.isSome).toNat ≤ wrap.toNat + p'.isSome.toNat := by
        cases wrap <;> cases p'.isSome <;> decide
      simp only [pendingBytes] at h ⊢
      omega

/-- **The continuation loop settles** when the fuel exceeds the bytes left. -/
theorem renderRowWrap_settles {widths : List Nat} (hw : ∀ x ∈ widths, x = 0 ∨ 4 ≤ x)
    (undersize : Bool) : ∀ fuel ps, pendingBytes ps < fuel →
      Settles (renderRowWrap env flags glifs widths undersize fuel ps)
  | 0, _, h => absurd h (Nat.not_lt_zero _)
  | fuel + 1, ps, h =>
    Triple.bind_fact (renderRowWrapLine_shrinks flags glifs henv widths ps hw) fun (ps', wrap) hs =>
      (renderRowEnd_settles _ _).bind fun _ => Triple.ite (fun hwrap =>
        renderRowWrap_settles hw undersize fuel ps' (by
          simp only [hwrap, Bool.toNat_true] at hs
          omega)) fun _ => Settles.pure _

/-- **`render_row` settles** when the fuel exceeds what its callbacks can hand back. -/
theorem renderRow_settles {callback : Nat → RenderM FieldText} {B fuel : Nat}
    (hcb : ∀ j, Triple (fun _ => True) (callback j) (fun f _ => f.n ≤ B) fun e _ => e ≠ .outOfFuel)
    {widths : List Nat} (hw : ∀ x ∈ widths, x = 0 ∨ 4 ≤ x) (hfuel : widths.length * B < fuel)
    (undersize : Bool) : Settles (renderRow env fuel widths undersize flags (some callback)) :=
  (Settles.ite (orFail_attempt_settles _) (Settles.pure _)).bind fun _ =>
    Triple.bind_fact (renderRowFirst_bounded flags _ hcb 0 widths) fun (fields, _) h =>
      (renderRowEnd_settles _ _).bind fun _ =>
        Settles.ite (renderRowWrap_settles flags _ henv hw undersize fuel fields (by simp only at h; omega))
          (Settles.pure _)

end Rows

/-! ### The callbacks hand back texts of known length -/

theorem renderFieldValue_length (flags : RenderFlags) (value : Value) {fuel : Nat}
    (hfuel : 2 ≤ fuel) :
    Triple (fun _ => True) (renderFieldValue fuel flags value)
      (fun L _ => L = (shownText flags value).length) fun e _ => e ≠ .outOfFuel := fun w _ => by
  by_cases h0 : 0 < w.bufcap
  · exact (renderFieldValue_contract flags value hfuel h0).conseq (fun _ => id)
      (fun _ _ h => h.length) (fun _ _ h => by rw [h.1]; decide) w rfl
  · exact (getBufcap_spec (Q := fun cap _ => ¬0 < cap)).bind (fun _ =>
      ((cAssert_spec (Q := fun _ _ => False) _).pre fun _ h => by rw [if_neg h]; decide).bind
        fun _ _ h => h.elim) w h0

theorem obtainResultField_length {fuel : Nat} (hfuel : 2 ≤ fuel) (flags : RenderFlags)
    (row : List Value) (j : Nat) :
    Triple (fun _ => True) (obtainResultField fuel flags row j)
      (fun f _ => f.n = (rowText flags row j).length) fun e _ => e ≠ .outOfFuel := by
  unfold obtainResultField rowText cellText
  dsimp only
  exact Triple.ite (fun h => Triple.pure fun _ _ => by rw [if_pos h]) fun h =>
    (renderFieldValue_length flags _ hfuel).bind fun _ =>
      Triple.pure fun _ hL => by rw [if_neg h]; exact hL

/-! ### The table -/

section Table

variable {env : Env} (henv : env.AtMostTwoColumns) {fuel B : Nat} (hfuel : 2 ≤ fuel)
include henv hfuel

theorem renderTableRows_settles {flags : RenderFlags} {widths : List Nat}
    (hw : ∀ x ∈ widths, x = 0 ∨ 4 ≤ x) (hB : widths.length * B < fuel) (undersize : Bool) :
    ∀ first rows, (∀ row ∈ rows, ∀ j, (rowText flags row j).length ≤ B) →
      Settles (renderTableRows env fuel widths undersize flags first rows)
  | _, [], _ => Settles.pure _
  | _, row :: rows, hrows =>
    (Settles.ite (renderHrule_settles _ _ _) (Settles.pure _)).bind fun _ =>
      (renderRow_settles flags henv (fun j => (obtainResultField_length hfuel flags row j).conseq
        (fun _ => id) (fun _ _ h => by rw [h]; exact hrows row (List.mem_cons_self _ _) j)
        fun _ _ => id) hw hB undersize).bind fun _ =>
      renderTableRows_settles hw hB undersize false rows fun r hr => hrows r (List.mem_cons_of_mem _ hr)

theorem renderTable_settles (results : ResultStream) (width : Nat) (flags : RenderFlags)
    {k cw : Nat} {u : Bool}
    (hfit : fitColumns width results.nfields (columnWidthFor width results.nfields) false =
      (k, cw, u)) (hroom : k = 0 ∨ 4 ≤ cw)
    (hnames : ∀ name ∈ results.fieldnames, name.1.length ≤ B)
    (hvalues : ∀ row ∈ results.rows, ∀ v ∈ row, (cellText flags v).length ≤ B)
    (hB : k * B < fuel) : Settles (renderTable env fuel results width flags) := by
  have hw : ∀ x ∈ List.replicate k cw, x = 0 ∨ 4 ≤ x := fun x hx => by
    obtain ⟨hk, rfl⟩ := List.mem_replicate.mp hx
    exact .inr (hroom.resolve_left hk)
  have hlen : (List.replicate k cw).length * B < fuel := by rw [List.length_replicate]; exact hB
  have hname (j : Nat) : Triple (fun _ => True) (obtainFieldname results j) (fun f _ => f.n ≤ B)
      fun e _ => e ≠ .outOfFuel :=
    Triple.pure fun _ _ => forall_getD (P := fun name : CString => name.1.length ≤ B)
      (Nat.zero_le _) hnames j
  have hrows : ∀ row ∈ results.rows, ∀ j,
      (rowText (normalizeRenderFlags env.codeset flags) row j).length ≤ B := fun row hrow j => by
    rw [rowText_normalize]
    exact forall_getD (P := fun v => (cellText flags v).length ≤ B)
      (by simp) (hvalues row hrow) j
  unfold renderTable
  refine (require_settles _).bind fun _ => (checkResults_settles _).bind fun _ =>
    Settles.ite (Settles.pure _) ?_
  dsimp only
  rw [hfit]
  dsimp only
  exact (cAssert_settles _).bind fun _ => (Settles.ite (orFail_attempt_settles _)
    (Settles.pure _)).bind fun _ => (Settles.onFailure ((newBuffer_settles _).bind fun _ =>
      (Settles.ite (orFail_attempt_settles _) (Settles.pure _)).bind fun _ =>
      (renderHrule_settles _ _ _).bind fun _ => (renderRow_settles _ henv hname hw hlen u).bind
      fun _ => (renderHrule_settles _ _ _).bind fun _ =>
      (renderTableRows_settles henv hfuel hw hlen u true _ hrows).bind fun _ =>
      (checkResults_settles _).bind fun _ => renderHrule_settles _ _ _)
      failureCleanup_settles).bind fun _ => orFail_attempt_settles _

end Table

/-- **`neo4j_render_table` returns, with 0 or with -1**, from any world, whatever the bytes of
the names and values, the flags and the calls that fail, in columns at least four wide: with
fuel to spare over the bytes a row can hand back, neither an `assert` fires nor a loop runs
out. -/
theorem renderTable_returns {env : Env} (henv : env.AtMostTwoColumns) {fuel B : Nat}
    (hfuel : 2 ≤ fuel) (results : ResultStream) (width : Nat) (flags : RenderFlags)
    {k cw : Nat} {u : Bool}
    (hfit : fitColumns width results.nfields (columnWidthFor width results.nfields) false =
      (k, cw, u)) (hroom : k = 0 ∨ 4 ≤ cw)
    (hnames : ∀ name ∈ results.fieldnames, name.1.length ≤ B)
    (hvalues : ∀ row ∈ results.rows, ∀ v ∈ row, (cellText flags v).length ≤ B)
    (hB : k * B < fuel) (w : World) :
    ∃ w', renderTable env fuel results width flags w = .ok () w' ∨
      renderTable env fuel results width flags w = .error .failed w' := by
  have h := (renderTable_settles henv hfuel results width flags hfit hroom hnames hvalues hB).and
    (renderTable_safe env fuel results width flags) w ⟨trivial, Nat.zero_le _⟩
  revert h
  cases renderTable env fuel results width flags w with
  | ok _ w' => exact fun _ => ⟨w', .inl rfl⟩
  | error e w' => exact fun h => ⟨w', .inr (by cases e <;> simp_all)⟩

/-- The two-column stream in twelve columns, two cells four wide, with values wrapped. -/
theorem renderTable_returns_ada :
    (fitColumns 12 adaResults.nfields (columnWidthFor 12 adaResults.nfields) false =
        (2, 4, false) ∧ (2 = 0 ∨ 4 ≤ 4) ∧
      (∀ name ∈ adaResults.fieldnames, name.1.length ≤ 4) ∧
      (∀ row ∈ adaResults.rows, ∀ v ∈ row, (cellText wrapFlags v).length ≤ 4) ∧ 2 * 4 < 9) ∧
    ∃ w', renderTable Env.utf8Terminal 9 adaResults 12 wrapFlags World.init = .ok () w' ∨
      renderTable Env.utf8Terminal 9 adaResults 12 wrapFlags World.init = .error .failed w' :=
  ⟨⟨rfl, .inr le_rfl, by decide, by decide, by decide⟩,
    renderTable_returns Env.utf8Terminal_atMostTwoColumns (by decide) adaResults 12 wrapFlags
      (B := 4) rfl (.inr le_rfl) (by decide) (by decide) (by decide) World.init⟩

end Neo4jRender
