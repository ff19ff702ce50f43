/-
When the continuation lines of a row end.

With `NEO4J_RENDER_WRAP_VALUES`, `render_row` draws one more line while a column still has
text that did not fit, and nothing in its `while (wrap)` loop bounds the number of turns:
with cells of no width it never ends (`renderTable_wrap_diverges`).  With cells at least one
column wide and printable text it does.  A turn that asks for another line draws at least
one more byte of every text that is not finished, so `excess`, the most any column has left
beyond its cell, drops with each such turn (`renderRowWrapLine_excess`), and the loop ends
within that many turns (`renderRowWrap_ends`).  Over a whole table, `neo4j_render_table`
then returns, wrapping or not, given fuel longer than every text (`renderTable_ends`).

The entries the first line leaves are in memory of their own (`Kept`): a string's or a
name's bytes where they are, and what is left of a staged value copied by `memdup` before
the next value overwrites the buffer.  That the copy is the value's text rests on
`render_field` leaving the buffer alone between the two reads: it changes the world only as
its calls do (`Records`).
-/
import Neo4jRender.Proofs.Table

namespace Neo4jRender

/-! ### Functions that only make calls -/

/-- `m` changes the world only as a call does: whatever recording a call keeps, `m` keeps.
It keeps every frame guard. -/
def Records {α : Type} (m : RenderM α) : Prop :=
  ∀ (I : World → Prop) (hrecord : ∀ w c bytes, I w → I (w.record c bytes))
    (hreject : ∀ w c e, I w → I (w.reject c e)), (CallGuard.frame I hrecord hreject).Keeps m

/-- A text pointer reads the same memory after `m` as before. -/
theorem Records.read {α : Type} {m : RenderM α} (h : Records m) (s : Src) (mem : List UInt8) :
    Triple (fun w => s.read w = mem) m (fun _ w => s.read w = mem) fun _ _ => True :=
  (h _ (fun _ _ _ h => by cases s <;> exact h) fun _ _ _ h => by cases s <;> exact h).conseq
    (fun _ => id) (fun _ _ => id) fun _ _ _ => trivial

theorem orFail_fwrite_records (bytes : List UInt8) : Records (orFail (fwrite bytes)) :=
  fun I hr hj => (orFail_fwrite_clean (CallGuard.frame I hr hj) trivial).keeps

theorem renderField_records (env : Env) (mem : List UInt8) (n width : Nat) (flags : RenderFlags) :
    Records (renderField env mem n width flags) := fun I hr hj =>
  renderField_keeps (CallGuard.frame I hr hj) (.of_all (fun _ => trivial) flags) env mem n width

/-! ### A reliable world with a buffer -/

/-- A reliable world whose staging buffer has at least `c` bytes. -/
def Ready (c : Nat) (w : World) : Prop := w.Reliable ∧ c ≤ w.bufcap

theorem Calm.ready (c : Nat) : Calm (Ready c) := ⟨fun _ h => h.1, fun _ _ _ h => h⟩

section Ready

variable {c : Nat} {E : Err → World → Prop}

theorem Triple.exists_pre {α γ : Type} {P : γ → World → Prop} {m : RenderM α}
    {Q : α → World → Prop} (h : ∀ x, Triple (P x) m Q E) : Triple (fun w => ∃ x, P x w) m Q E :=
  fun w ⟨x, hx⟩ => h x w hx

/-- A write leaves a text pointer reading what it read. -/
theorem orFail_fwrite_kept (bytes : List UInt8) (s : Src) (mem : List UInt8) :
    Triple (fun w => s.read w = mem ∧ Ready c w) (orFail (fwrite bytes))
      (fun _ w => s.read w = mem ∧ Ready c w) E :=
  orFail_fwrite_calm ⟨fun _ h => h.2.1, fun _ _ _ h => ⟨by cases s <;> exact h.1, h.2⟩⟩ bytes

theorem checkResults_ready {code : Nat} (h : code = 0) :
    Triple (Ready c) (checkResults code) (fun _ => Ready c) E :=
  (checkResults_spec code).pre fun _ hw => by rw [if_pos h]; exact hw

/-- `render_field` on printable text consumes what fits. -/
theorem renderField_ready {env : Env} (henv : env.NarrowAscii) (flags : RenderFlags)
    {text : List UInt8} (ht : Printable text) (rest : List UInt8) (width : Nat) :
    Triple (Ready c) (renderField env (text ++ rest) text.length width flags)
      (fun r w => r = min text.length width ∧ Ready c w) E := fun w hw =>
  (renderField_drawn henv flags ht rest width w.out).conseq (fun _ => id)
    (fun _ _ h => by exact ⟨h.1, h.2.1.1, h.2.2⟩) (fun _ _ => id) w ⟨⟨hw.1, rfl⟩, hw.2⟩

/-- ... and leaves a text pointer reading what it read. -/
theorem renderField_kept {env : Env} (henv : env.NarrowAscii) (flags : RenderFlags)
    {text : List UInt8} (ht : Printable text) (rest : List UInt8) (width : Nat) (s : Src)
    (mem : List UInt8) :
    Triple (fun w => s.read w = mem ∧ Ready c w) (renderField env (text ++ rest) text.length width flags)
      (fun r w => r = min text.length width ∧ s.read w = mem ∧ Ready c w) E :=
  (((renderField_records env _ _ _ flags).read s mem).and
    (renderField_ready henv flags ht rest width)).conseq (fun _ => id)
      (fun _ _ h => ⟨h.2.1, h.1, h.2.2⟩) fun _ _ h => h.2

end Ready

/-! ### The entries of a row -/

/-- A `fields` entry in memory of its own: its `n` bytes are printable text, whatever
follows them. -/
def Kept (p : Pending) : Prop :=
  ∃ text rest, p.src = .stable (text ++ rest) ∧ p.n = text.length ∧ Printable text

/-- Every column at least three wide, so that its cell has room, and its entry kept. -/
def Wrapping (widths : List Nat) (ps : List Pending) : Prop :=
  List.Forall₂ (fun width p => 3 ≤ width ∧ Kept p) widths ps

/-- The most any column has left beyond its cell. -/
def excess : List Nat → List Pending → Nat
  | width :: widths, p :: ps => max (p.n - (width - 2)) (excess widths ps)
  | _, _ => 0

theorem kept_empty : Kept Pending.empty := ⟨[], [], rfl, rfl, printable_nil⟩

/-- The entry of a column with nothing left. -/
theorem none_entry (k B : Nat) :
    Kept (none.getD Pending.empty) ∧ (none.getD Pending.empty).n - k ≤ B :=
  ⟨kept_empty, by simp [Pending.empty]⟩

theorem Printable.drop {text : List UInt8} (h : Printable text) (k : Nat) :
    Printable (text.drop k) := fun b hb => h b (List.mem_of_mem_drop hb)

/-- What is left of a kept text after its first `k` bytes is kept. -/
theorem kept_drop {text : List UInt8} (ht : Printable text) (rest : List UInt8) {k : Nat}
    (hk : k ≤ text.length) :
    Kept ⟨.stable ((text ++ rest).drop k), text.length - k⟩ :=
  ⟨text.drop k, rest, by rw [List.drop_append_of_le_length hk], by simp, ht.drop k⟩

theorem Src.read_advance (w : World) : ∀ (s : Src) (k : Nat), (s.advance k).read w = (s.read w).drop k
  | .stable _, _ => rfl
  | .staging _, _ => by simp only [Src.advance, Src.read, List.drop_drop, Nat.add_comm]

/-- A row callback that hands back, for every field `j`, the text `text j` in memory, and a
text it does not ask to duplicate in memory of its own. -/
def Owns (c : Nat) (E : Err → World → Prop) (callback : Nat → RenderM FieldText)
    (text : Nat → List UInt8) : Prop :=
  ∀ j, Triple (Ready c) (callback j) (fun f w => f.n = (text j).length ∧
    (f.duplicate = false → ∃ mem, f.src = .stable mem) ∧ ∃ rest, f.src.read w = text j ++ rest ∧
      Ready c w) E

/-- A row callback that hands back, unless it asks for a copy, a text in memory of its own. -/
def Unstaged (callback : Nat → RenderM FieldText) : Prop :=
  ∀ j, Triple (fun _ => True) (callback j)
    (fun f _ => f.duplicate = false → ∃ mem, f.src = .stable mem) fun _ _ => True

theorem obtainFieldname_unstaged (results : ResultStream) : Unstaged (obtainFieldname results) :=
  fun _ => Triple.pure fun _ _ _ => ⟨_, rfl⟩

/-- `obtain_result_field` hands back a string where it is, and a staged value to be copied. -/
theorem obtainResultField_unstaged (fuel : Nat) (flags : RenderFlags) (row : List Value) :
    Unstaged (obtainResultField fuel flags row) := fun _ => by
  unfold obtainResultField
  dsimp only
  split_ifs
  · exact Triple.pure fun _ _ _ => ⟨_, rfl⟩
  · exact Triple.trivial.bind fun _ => Triple.pure fun _ _ h => nomatch h

section Callbacks

variable {c : Nat} {E : Err → World → Prop}

theorem Hands.unstaged {callback : Nat → RenderM FieldText} {text : Nat → List UInt8}
    (h : Hands c E callback text) (hown : Unstaged callback) (j : Nat) (o : List UInt8) :
    Triple (Drawn c o) (callback j) (fun f w => f.n = (text j).length ∧
      (f.duplicate = false → ∃ mem, f.src = .stable mem) ∧ ∃ rest, f.src.read w = text j ++ rest ∧
        Drawn c o w) E :=
  ((h j o).and (hown j)).conseq (fun _ h => ⟨h, trivial⟩)
    (fun _ _ h => by obtain ⟨⟨⟨hn, rest, hread⟩, hd⟩, hs⟩ := h; exact ⟨hn, hs, rest, hread, hd⟩)
    fun _ _ h => h.1

theorem Hands.owns {callback : Nat → RenderM FieldText} {text : Nat → List UInt8}
    (h : Hands c E callback text) (hown : Unstaged callback) : Owns c E callback text :=
  fun j w hw => (h.unstaged hown j w.out).conseq (fun _ h => h)
    (fun _ _ h => by obtain ⟨hn, hs, rest, hread, hd⟩ := h; exact ⟨hn, hs, rest, hread, hd.1.1, hd.2⟩)
    (fun _ _ h => h) w ⟨⟨hw.1, rfl⟩, hw.2⟩

theorem obtainFieldname_owns (results : ResultStream) :
    Owns c E (obtainFieldname results) results.fieldname :=
  (obtainFieldname_hands results).owns (obtainFieldname_unstaged results)

theorem obtainResultField_owns {fuel : Nat} (hfuel : 2 ≤ fuel) (hc : 0 < c) (flags : RenderFlags)
    (row : List Value) : Owns c E (obtainResultField fuel flags row) (rowText flags row) :=
  (obtainResultField_hands hfuel hc flags row).owns (obtainResultField_unstaged fuel flags row)

end Callbacks

/-! ### The loop -/

section Lines

variable {c : Nat} {E : Err → World → Prop} {env : Env} (henv : env.NarrowAscii)
  (flags : RenderFlags) (glifs : BorderGlifs)
include henv

/-- **One turn of `while (wrap)`**: either no column overflows, and the entries stay as they
were, or one does, and the most any column has left beyond its cell drops. -/
theorem renderRowWrapLine_excess {widths ps} (hk : Wrapping widths ps) :
    Triple (Ready c) (renderRowWrapLine env flags glifs widths ps)
      (fun r w => Wrapping widths r.1 ∧
        ((r.2 = false ∧ r.1 = ps ∧ excess widths ps = 0) ∨
          (r.2 = true ∧ excess widths r.1 < excess widths ps)) ∧ Ready c w) E := by
  induction hk with
  | nil => exact Triple.pure fun _ hw => ⟨.nil, .inl ⟨rfl, rfl, rfl⟩, hw⟩
  | @cons width p widths ps hhead hk ih =>
    obtain ⟨h3, text, rest, hsrc, hn, htext⟩ := hhead
    rw [renderRowWrapLine, if_neg (by omega), cAssert_of_true (by omega : 2 ≤ width), pure_bind]
    refine (orFail_fwrite_calm (.ready _) _).bind fun _ =>
      (orFail_fwrite_calm (.ready _) _).bind fun _ => ?_
    rw [hsrc, hn]
    refine ((readSrc_spec (Q := fun mem w => mem = text ++ rest ∧ Ready c w)
      (.stable (text ++ rest))).pre fun _ h => ⟨rfl, h⟩).bind fun mem => Triple.prop fun hmem => ?_
    subst hmem
    refine (renderField_ready henv flags htext rest (width - 2)).bind fun consumed =>
      Triple.prop fun hc => ?_
    subst hc
    refine Triple.bind (Q := fun p' w => ((p' = none ∧ text.length ≤ width - 2) ∨
      (p' = some ⟨.stable ((text ++ rest).drop (width - 2)), text.length - (width - 2)⟩ ∧
        width - 2 < text.length)) ∧ Ready c w) ?_ fun p' => Triple.prop fun hp' => ?_
    · by_cases hfit : text.length ≤ width - 2
      · rw [if_pos (by omega)]
        exact (orFail_fwrite_calm (.ready _) _).bind fun _ =>
          Triple.pure fun _ hw => ⟨.inl ⟨rfl, hfit⟩, hw⟩
      · rw [if_neg (by omega), Nat.min_eq_right (by omega)]
        exact (orFail_fwrite_calm (.ready _) _).bind fun _ =>
          Triple.pure fun _ hw => ⟨.inr ⟨rfl, by omega⟩, hw⟩
    · refine ih.bind fun ⟨ps', wrap⟩ => Triple.prop fun hk' =>
        Triple.prop fun hd => Triple.pure fun _ hw => ⟨.cons ⟨h3, ?_⟩ hk', ?_, hw⟩
      · rcases hp' with ⟨rfl, -⟩ | ⟨rfl, hover⟩
        · exact ⟨text, rest, hsrc, hn, htext⟩
        · exact kept_drop htext rest (by omega)
      · simp only [excess, hn] at hd ⊢
        rcases hp' with ⟨rfl, hfit⟩ | ⟨rfl, hover⟩ <;> rcases hd with ⟨rfl, rfl, h0⟩ | ⟨rfl, hlt⟩
        · exact .inl ⟨rfl, rfl, by omega⟩
        · exact .inr ⟨rfl, by simp only [Option.getD_some, Option.getD_none]; omega⟩
        · exact .inr ⟨rfl, by simp only [Option.getD_some, Option.getD_none]; omega⟩
        · exact .inr ⟨rfl, by simp only [Option.getD_some, Option.getD_none]; omega⟩

/-- **The continuation loop ends within `excess` turns.** -/
theorem renderRowWrap_ends {widths : List Nat} (undersize : Bool) :
    ∀ fuel ps, Wrapping widths ps → excess widths ps < fuel →
      Triple (Ready c) (renderRowWrap env flags glifs widths undersize fuel ps) (fun _ => Ready c) E
  | 0, _, _, h => absurd h (Nat.not_lt_zero _)
  | fuel + 1, _, hk, h => (renderRowWrapLine_excess henv flags glifs hk).bind fun ⟨ps', wrap⟩ =>
    Triple.prop fun hk' => Triple.prop fun hd => (renderRowEnd_calm (.ready _) _ _).bind fun _ =>
      Triple.ite (fun hwrap => renderRowWrap_ends undersize fuel ps' hk' (by
        rcases hd with ⟨h', -⟩ | ⟨-, h'⟩
        · exact absurd (h'.symm.trans hwrap) (by decide)
        · exact Nat.lt_of_lt_of_le h' (Nat.le_of_lt_succ h)))
      fun _ => Triple.pure fun _ => id

end Lines

section Rows

variable {c : Nat} {E : Err → World → Prop} {env : Env} (henv : env.NarrowAscii)
  {flags : RenderFlags} (glifs : BorderGlifs) {callback : Nat → RenderM FieldText}
  {text : Nat → List UInt8} (ht : ∀ j, Printable (text j)) {B : Nat}
  (hB : ∀ j, (text j).length ≤ B)
include henv ht hB

/-- The first line of a row, wrapping or not, leaves every entry kept, with at most `B`
bytes beyond its cell. -/
theorem renderRowFirst_kept : ∀ i widths, (∀ x ∈ widths, 3 ≤ x) →
    (widths ≠ [] → Owns c E callback text) →
    Triple (Ready c) (renderRowFirst env flags glifs (some callback) i widths)
      (fun r w => Wrapping widths r.1 ∧ excess widths r.1 ≤ B ∧ Ready c w) E
  | _, [], _, _ => Triple.pure fun _ hw => ⟨.nil, Nat.zero_le _, hw⟩
  | i, width :: widths, hw, hcb => by
    have h3 := hw width (List.mem_cons_self _ _)
    have hrest := renderRowFirst_kept i.succ widths (fun x hx => hw x (List.mem_cons_of_mem _ hx))
      fun _ => hcb (List.cons_ne_nil _ _)
    rw [renderRowFirst, if_neg (by omega)]
    refine (orFail_fwrite_calm (.ready _) _).bind fun _ =>
      (orFail_fwrite_calm (.ready _) _).bind fun _ => ?_
    rw [cAssert_of_true (by omega : 2 ≤ width), pure_bind]
    refine (hcb (List.cons_ne_nil _ _) i).bind fun f => Triple.prop fun hn => Triple.prop
      fun hdup => Triple.exists_pre fun rest => ?_
    refine ((readSrc_spec (Q := fun mem w => mem = text i ++ rest ∧ f.src.read w = text i ++ rest ∧
      Ready c w) f.src).pre fun _ h => ⟨h.1, h⟩).bind fun mem => Triple.prop fun hmem => ?_
    subst hmem
    rw [hn]
    refine (renderField_kept henv flags (ht i) rest (width - 2) f.src _).bind fun consumed =>
      Triple.prop fun hc => ?_
    subst hc
    refine Triple.bind (Q := fun p w => (Kept (p.getD Pending.empty) ∧
      (p.getD Pending.empty).n - (width - 2) ≤ B) ∧ Ready c w) ?_ fun p => Triple.prop
        fun hp => ?_
    · by_cases hfit : (text i).length ≤ width - 2
      · rw [if_pos (by omega)]
        exact ((orFail_fwrite_calm (.ready _) _).pre fun _ h => h.2).bind fun _ =>
          Triple.pure fun _ hw => ⟨none_entry _ _, hw⟩
      · have hB' := hB i
        rw [if_neg (by omega), Nat.min_eq_right (by omega)]
        refine (orFail_fwrite_kept _ f.src _).bind fun _ => Triple.ite (fun _ => ?_)
          fun _ => Triple.pure fun _ hw => ⟨none_entry _ _, hw.2⟩
        refine Triple.map ?_
        unfold keepRest
        rw [hn]
        by_cases hd : f.duplicate = true
        · rw [if_pos hd]
          refine ((readSrc_spec (Q := fun mem w => mem = (text i ++ rest).drop (width - 2) ∧
            Ready c w) _).pre fun _ h => ⟨by rw [Src.read_advance, h.1], h.2⟩).bind fun mem =>
              Triple.prop fun hm => (orFail_attempt_calm (.ready _) (.inr rfl)).bind fun _ =>
                Triple.pure fun _ hw => ⟨⟨?_, by simp only [Option.getD_some, Option.getD_none]; omega⟩, hw⟩
          subst hm
          refine ⟨(text i).drop (width - 2), [], ?_, by simp, (ht i).drop _⟩
          rw [List.drop_append_of_le_length (by omega), List.append_nil,
            List.take_left' (by simp)]
          rfl
        · rw [if_neg hd]
          obtain ⟨mem, hmem⟩ := hdup (by simpa using hd)
          refine Triple.pure fun _ hw => ⟨⟨?_, by simp only [Option.getD_some, Option.getD_none]; omega⟩, hw.2⟩
          have hread := hw.1
          rw [hmem] at hread ⊢
          subst hread
          exact kept_drop (ht i) rest (by omega)
    · exact hrest.bind fun ⟨_, _⟩ => Triple.prop fun hk => Triple.prop fun hexc =>
        Triple.pure fun _ hw => ⟨.cons ⟨h3, hp.1⟩ hk, Nat.max_le.mpr ⟨hp.2, hexc⟩, hw⟩

/-- **A row, wrapping or not, returns**, with fuel beyond the longest text and every cell at
least a column wide. -/
theorem renderRow_ends {fuel : Nat} (hfuel : B < fuel) {widths : List Nat}
    (hw : ∀ x ∈ widths, 3 ≤ x) (undersize : Bool) (hcb : widths ≠ [] → Owns c E callback text) :
    Triple (Ready c) (renderRow env fuel widths undersize flags (some callback)) (fun _ => Ready c)
      E := by
  unfold renderRow
  refine (Triple.ite (fun _ => orFail_attempt_calm (.ready _) (.inr rfl))
    fun _ => Triple.pure fun _ => id).bind
    fun _ => ?_
  exact (renderRowFirst_kept henv _ ht hB 0 widths hw hcb).bind fun ⟨fields, _⟩ =>
    Triple.prop fun hk => Triple.prop fun hexc => (renderRowEnd_calm (.ready _) _ _).bind fun _ =>
      Triple.ite (fun _ => renderRowWrap_ends henv flags _ undersize fuel fields hk
        (Nat.lt_of_le_of_lt hexc hfuel))
        fun _ => Triple.pure fun _ => id

end Rows

/-! ### The table -/

section Table

variable {c : Nat} {E : Err → World → Prop} {env : Env} (henv : env.NarrowAscii) {fuel : Nat}
  (hfuel : 2 ≤ fuel) {flags : RenderFlags} {widths : List Nat} (hw : ∀ x ∈ widths, 3 ≤ x)
  (hc : widths ≠ [] → 0 < c) (undersize : Bool)
include henv hfuel hw hc

/-- The body rows of a table return, each of its texts printable and shorter than the fuel. -/
theorem renderTableRows_ends : ∀ first rows,
    (∀ row ∈ rows, ∀ j, Printable (rowText flags row j) ∧ (rowText flags row j).length < fuel) →
    Triple (Ready c) (renderTableRows env fuel widths undersize flags first rows)
      (fun _ => Ready c) E
  | _, [], _ => Triple.pure fun _ => id
  | _, row :: rows, hr => (Triple.ite (fun _ => renderHrule_calm (.ready _) _ _ _ _)
    fun _ => Triple.pure fun _ => id).bind fun _ =>
      (renderRow_ends henv (fun j => (hr row (List.mem_cons_self _ _) j).1)
        (B := fuel - 1) (fun j => by have := (hr row (List.mem_cons_self _ _) j).2; omega)
        (by omega) hw undersize fun hne => obtainResultField_owns hfuel (hc hne) flags row).bind
      fun _ => renderTableRows_ends false rows fun r hr' => hr r (List.mem_cons_of_mem _ hr')

end Table

/-- The width budget keeps columns at least three wide. -/
theorem fitColumns_room {width nfields k cw : Nat} {u : Bool}
    (hfit : fitColumns width nfields (columnWidthFor width nfields) false = (k, cw, u))
    (hroom : k = 0 ∨ 3 ≤ cw) : ∀ x ∈ List.replicate k cw, 3 ≤ x := fun x hx => by
  obtain ⟨hk, rfl⟩ := List.mem_replicate.mp hx
  exact hroom.resolve_left hk

/-- `neo4j_render_table` returns from a reliable world, wrapping or not, when its cells have
room and its texts are shorter than the fuel. -/
theorem renderTable_ready {env : Env} {fuel : Nat} {results : ResultStream} {width : Nat}
    {flags : RenderFlags} (hd : Drawable env fuel results width flags) {k cw : Nat} {u : Bool}
    (hfit : fitColumns width results.nfields (columnWidthFor width results.nfields) false =
      (k, cw, u)) (hroom : k = 0 ∨ 3 ≤ cw)
    (hnames : ∀ name ∈ results.fieldnames, name.1.length < fuel)
    (hvalues : ∀ row ∈ results.rows, ∀ v ∈ row, (cellText flags v).length < fuel)
    {E : Err → World → Prop} :
    Triple (Ready 0) (renderTable env fuel results width flags) (fun _ => Ready 0) E := by
  have hw := fitColumns_room hfit hroom
  have hcap : List.replicate k cw ≠ [] → 0 < cw := fun hne => by
    rcases hroom with rfl | h
    · exact absurd rfl hne
    · omega
  have hlen (j : Nat) : (results.fieldname j).length ≤ fuel - 1 :=
    forall_getD (P := fun name : CString => name.1.length ≤ fuel - 1) (Nat.zero_le _)
      (fun name h => by have := hnames name h; omega) j
  have hrows : ∀ row ∈ results.rows, ∀ j,
      Printable (rowText (normalizeRenderFlags env.codeset flags) row j) ∧
        (rowText (normalizeRenderFlags env.codeset flags) row j).length < fuel :=
    fun row hrow j => ⟨rowText_printable (hd.values row hrow) env.codeset j, by
      rw [rowText_normalize]
      exact forall_getD (P := fun v => (cellText flags v).length < fuel)
        (by show (cellText flags default).length < fuel; rw [cellText_default]; have := hd.fuel
            simp only [List.length_nil]; omega) (hvalues row hrow) j⟩
  unfold renderTable
  rw [require_of_true hd.width, pure_bind]
  refine (checkResults_ready hd.failure).bind fun _ =>
    Triple.ite (fun _ => Triple.pure fun _ => id) fun _ => ?_
  dsimp only
  rw [hfit, cAssert_of_true (fitColumns_wide hfit).symm, pure_bind]
  refine (Triple.ite (fun _ => orFail_attempt_calm (.ready _) (.inr rfl))
    fun _ => Triple.pure fun _ => id).bind
    fun _ => Triple.bind ?_ fun _ => orFail_attempt_calm (.ready _) (.inl rfl)
  refine Triple.onFailure (F := fun _ _ => False) ?_ (fun _ h => h.elim) fun _ _ _ h => h.elim
  refine ((newBuffer_spec (Q := fun _ => Ready cw) cw).pre fun _ hw => ⟨hw.1, le_rfl⟩).bind
    fun _ => Triple.conseq ?_ (fun _ => id) (fun _ w (h : Ready cw w) => ⟨h.1, Nat.zero_le _⟩)
      fun _ _ => id
  exact (Triple.ite (fun _ => orFail_attempt_calm (.ready _) (.inr rfl))
    fun _ => Triple.pure fun _ => id).bind
    fun _ => (renderHrule_calm (.ready _) _ _ _ _).bind fun _ =>
    (renderRow_ends hd.narrow (fieldname_printable hd.names) hlen (by have := hd.fuel; omega) hw u
      fun _ => obtainFieldname_owns results).bind fun _ =>
    (renderHrule_calm (.ready _) _ _ _ _).bind fun _ =>
    (renderTableRows_ends hd.narrow hd.fuel hw hcap u true _ hrows).bind fun _ =>
    (checkResults_ready hd.failureAtEnd).bind fun _ => renderHrule_calm (.ready _) _ _ _ _

/-- **`neo4j_render_table` returns, wrapping values or not, whenever its cells have room**:
on a reliable stream, with columns at least three wide, printable names and texts, and fuel
beyond the longest of them, every run ends in a result.  With columns two wide the
continuation loop never ends (`renderTable_wrap_diverges`); one column more is enough. -/
theorem renderTable_ends {env : Env} {fuel : Nat} {results : ResultStream} {width : Nat}
    {flags : RenderFlags} (hd : Drawable env fuel results width flags) {k cw : Nat} {u : Bool}
    (hfit : fitColumns width results.nfields (columnWidthFor width results.nfields) false =
      (k, cw, u)) (hroom : k = 0 ∨ 3 ≤ cw)
    (hnames : ∀ name ∈ results.fieldnames, name.1.length < fuel)
    (hvalues : ∀ row ∈ results.rows, ∀ v ∈ row, (cellText flags v).length < fuel)
    {w : World} (hw : w.Reliable) :
    ∃ w', renderTable env fuel results width flags w = .ok () w' := by
  obtain ⟨⟨⟩, w', hrun, -⟩ := (renderTable_ready hd hfit hroom hnames hvalues
    (E := fun _ _ => False)).ok_of ⟨hw, Nat.zero_le _⟩
  exact ⟨w', hrun⟩

/-- The stream in ten columns, wrapping: two columns three wide, each cell one column. -/
theorem renderTable_ends_ada :
    Drawable Env.utf8Terminal 5 adaResults 10 wrapFlags ∧
      fitColumns 10 adaResults.nfields (columnWidthFor 10 adaResults.nfields) false =
        (2, 3, false) ∧ (2 = 0 ∨ 3 ≤ 3) ∧
      (∀ name ∈ adaResults.fieldnames, name.1.length < 5) ∧
      (∀ row ∈ adaResults.rows, ∀ v ∈ row, (cellText wrapFlags v).length < 5) ∧
      ∃ w', renderTable Env.utf8Terminal 5 adaResults 10 wrapFlags World.init = .ok () w' :=
  have hd : Drawable Env.utf8Terminal 5 adaResults 10 wrapFlags :=
    ⟨Env.utf8Terminal_narrowAscii, by decide, rfl, rfl, by decide, by decide, by decide⟩
  ⟨hd, rfl, .inr le_rfl, by decide, by decide,
    renderTable_ends hd rfl (.inr le_rfl) (by decide) (by decide) fun _ => rfl⟩

end Neo4jRender
