/-
A codepoint wider than its cell.

`render_field` stops before a codepoint that does not fit what is left of its cell (the
`(used + cpwidth) > width` test), and so consumes nothing when that codepoint comes first
(`renderField_tooNarrow`).  With `NEO4J_RENDER_WRAP_VALUES` the text then overflows, and the
continuation line starts it again at the same codepoint, in a cell just as narrow: the row
never ends.  Cells of no width are one case (`renderTable_wrap_diverges`).  A cell one column
wide and a text that starts with an East Asian wide character, two columns, is another, on
any UTF-8 terminal that does not ask for `NEO4J_RENDER_ASCII`: a table of one such field in
five columns hangs on its header.  `renderTable_wide_diverges` covers every table whose kept
names all start with a codepoint their cells cannot take, for every fuel.
-/
import Neo4jRender.Proofs.Wrap
import Neo4jRender.Proofs.Encoding

namespace Neo4jRender

variable {E : Err → World → Prop}

/-- A cell `width` columns wide cannot take the first codepoint of `mem`: it has no room, or
that codepoint, as `render_field` measures it, is wider than the cell. -/
def TooNarrow (env : Env) (flags : RenderFlags) (width : Nat) (mem : List UInt8) : Prop :=
  width = 0 ∨ ∃ cp k cpw, u8codepoint mem = some (cp, k) ∧
    (if 1 < k ∧ flags.ascii then none else env.u8cpwidth cp) = some cpw ∧ width < cpw

/-- What follows a text in memory does not change its first codepoint. -/
theorem TooNarrow.append {env : Env} {flags : RenderFlags} {width : Nat} {mem : List UInt8}
    (h : TooNarrow env flags width mem) (rest : List UInt8) :
    TooNarrow env flags width (mem ++ rest) := by
  rcases h with h | ⟨cp, k, cpw, hdec, hcpw, hlt⟩
  · exact .inl h
  · refine .inr ⟨cp, k, cpw, ?_, hcpw, hlt⟩
    have := u8codepoint_take_append hdec (mem.drop k ++ rest)
    rwa [← List.append_assoc, List.take_append_drop] at this

theorem tooNarrow_normalize (env : Env) (codeset : String) (flags : RenderFlags) (width : Nat)
    (mem : List UInt8) :
    TooNarrow env (normalizeRenderFlags codeset flags) width mem ↔ TooNarrow env flags width mem := by
  simp only [TooNarrow, normalizeRenderFlags_ascii]

/-- **`render_field` consumes nothing of a text whose first codepoint its cell cannot take.** -/
theorem renderField_tooNarrow (env : Env) (flags : RenderFlags) {width n : Nat}
    {mem : List UInt8} (h : TooNarrow env flags width mem) (hn : 0 < n) :
    Triple World.Reliable (renderField env mem n width flags) (fun r w => r = 0 ∧ w.Reliable) E := by
  by_cases hw0 : width = 0
  · subst hw0
    rw [renderField_zero]
    exact Triple.pure fun _ h => ⟨rfl, h⟩
  obtain ⟨cp, k, cpw, hdec, hcpw, hlt⟩ := h.resolve_left hw0
  obtain ⟨n, rfl⟩ : ∃ n', n = n' + 1 := ⟨n - 1, by omega⟩
  refine Triple.bind (Q := fun r w => r = (0, 0) ∧ w.Reliable) ?_ fun r => Triple.prop fun hr => ?_
  · rw [renderFieldLoop, if_pos ⟨by omega, by omega⟩]
    refine ((decodeAt_spec (Q := fun r w => r = (cp, k) ∧ w.Reliable) mem).pre fun _ hw => by
      rw [hdec]; exact ⟨rfl, hw⟩).bind fun r => Triple.prop fun hr => ?_
    subst hr
    dsimp only
    rw [hcpw]
    dsimp only
    rw [if_pos (by omega)]
    exact Triple.pure fun _ h => ⟨rfl, h⟩
  · subst hr
    exact (padSpaces_calm .reliable _).bind fun _ => Triple.pure fun _ h => ⟨rfl, h⟩

/-- Every cell `cw - 2` wide, and every entry a text where it is, whose first codepoint the
cell cannot take. -/
def Blocked (env : Env) (flags : RenderFlags) (cw : Nat) (widths : List Nat) (ps : List Pending) :
    Prop :=
  List.Forall₂ (fun width p => width = cw ∧ 0 < p.n ∧
    ∃ mem, p.src = .stable mem ∧ TooNarrow env flags (cw - 2) mem) widths ps

section Blocked

variable (env : Env) (flags : RenderFlags) (glifs : BorderGlifs) {cw : Nat} (h2 : 2 ≤ cw)
include h2

/-- **A line of blocked cells leaves every entry as it was**, and asks for one more. -/
theorem renderRowWrapLine_blocked {widths : List Nat} {ps : List Pending}
    (h : Blocked env flags cw widths ps) :
    Triple World.Reliable (renderRowWrapLine env flags glifs widths ps)
      (fun r w => r = (ps, !widths.isEmpty) ∧ w.Reliable) E := by
  induction h with
  | nil => exact Triple.pure fun _ h => ⟨rfl, h⟩
  | @cons width p widths ps hp _ ih =>
    obtain ⟨rfl, hn, mem, hsrc, hnarrow⟩ := hp
    rw [renderRowWrapLine, if_neg (by omega), cAssert_of_true h2, pure_bind, if_pos hn]
    refine (orFail_fwrite_calm .reliable _).bind fun _ =>
      (orFail_fwrite_calm .reliable _).bind fun _ =>
      ((readSrc_spec (Q := fun m w => m = mem ∧ w.Reliable) p.src).pre fun _ h =>
        ⟨by rw [hsrc]; rfl, h⟩).bind fun m => Triple.prop fun hm => ?_
    subst hm
    refine (renderField_tooNarrow env flags hnarrow hn).bind fun r => Triple.prop fun hr => ?_
    subst hr
    rw [if_neg (by omega)]
    refine Triple.bind (Q := fun p' w => p' = some ⟨p.src.advance 0, p.n - 0⟩ ∧ w.Reliable)
      ((orFail_fwrite_calm .reliable _).bind fun _ => Triple.pure fun _ h => ⟨rfl, h⟩) fun p' =>
        Triple.prop fun hp' => ?_
    subst hp'
    refine ih.bind fun r => Triple.pure fun _ ⟨hr, hw⟩ => ⟨?_, hw⟩
    subst hr
    simp [Src.advance_zero]

/-- **A blocked row's continuation loop runs out of every fuel.** -/
theorem renderRowWrap_blocked {widths : List Nat} {ps : List Pending}
    (h : Blocked env flags cw widths ps) (hne : widths ≠ []) (undersize : Bool) (fuel : Nat) :
    Triple World.Reliable (renderRowWrap env flags glifs widths undersize fuel ps)
      (fun _ _ => False) (fun e _ => e = .outOfFuel) := by
  have hwrap : (!widths.isEmpty) = true := by simpa using hne
  induction fuel with
  | zero => exact Triple.throw fun _ _ => rfl
  | succ fuel ih =>
    refine (renderRowWrapLine_blocked env flags glifs h2 h).bind fun r => Triple.prop fun hr => ?_
    subst hr
    exact (renderRowEnd_calm .reliable _ _).bind fun _ => by simpa only [hwrap, if_true] using ih

/-- The first line of a row of cells `cw - 2` wide, with a callback that hands out texts that
stay put and whose first codepoint the cells cannot take: every column is left blocked. -/
theorem renderRowFirst_blocked {cb : Nat → RenderM FieldText} (hwrap : flags.wrapValues = true)
    {widths : List Nat} (hw : ∀ width ∈ widths, width = cw) (i : Nat)
    (hcb : ∀ j, i ≤ j → j < i + widths.length → Triple World.Reliable (cb j)
      (fun f w => f.duplicate = false ∧ 0 < f.n ∧
        (∃ mem, f.src = .stable mem ∧ TooNarrow env flags (cw - 2) mem) ∧ w.Reliable) E) :
    Triple World.Reliable (renderRowFirst env flags glifs (some cb) i widths)
      (fun r w => Blocked env flags cw widths r.1 ∧ r.2 = !widths.isEmpty ∧ w.Reliable) E := by
  induction widths generalizing i with
  | nil => exact Triple.pure fun _ h => ⟨.nil, rfl, h⟩
  | cons width widths ih =>
    obtain rfl : width = cw := hw width (List.mem_cons_self _ _)
    rw [renderRowFirst, if_neg (by omega)]
    refine (orFail_fwrite_calm .reliable _).bind fun _ =>
      (orFail_fwrite_calm .reliable _).bind fun _ => ?_
    rw [cAssert_of_true h2, pure_bind]
    refine (hcb i le_rfl (by simp)).bind fun f => Triple.prop fun hd => Triple.prop fun hn =>
      Triple.prop fun hm => ?_
    obtain ⟨mem, hsrc, hnarrow⟩ := hm
    refine ((readSrc_spec (Q := fun m w => m = mem ∧ w.Reliable) f.src).pre fun _ h =>
      ⟨by rw [hsrc]; rfl, h⟩).bind fun m => Triple.prop fun hm => ?_
    subst m
    refine (renderField_tooNarrow env flags hnarrow hn).bind fun r => Triple.prop fun hr => ?_
    subst hr
    simp only [if_neg (Nat.not_le.mpr hn), hwrap, if_true, keepRest, hd, Bool.false_eq_true,
      if_false, map_pure, Src.advance_zero, Nat.sub_zero]
    refine Triple.bind (Q := fun p w => p = some ⟨f.src, f.n⟩ ∧ w.Reliable)
      ((orFail_fwrite_calm .reliable _).bind fun _ => Triple.pure fun _ h => ⟨rfl, h⟩) fun p =>
        Triple.prop fun hp => ?_
    subst hp
    exact (ih (fun w hw' => hw w (List.mem_cons_of_mem _ hw')) (i + 1) fun j hj hj' =>
      hcb j (by omega) (by simp only [List.length_cons] at hj' ⊢; omega)).bind fun r =>
      Triple.pure fun w ⟨hs, hr, hw'⟩ => ⟨.cons ⟨rfl, hn, mem, hsrc, hnarrow⟩ hs, by simp [hr], hw'⟩

/-- **With wrapping, a row of cells none of which can take the first codepoint of its text
never ends.** -/
theorem renderRow_blocked (fuel : Nat) {widths : List Nat} (undersize : Bool)
    {cb : Nat → RenderM FieldText} (hwrap : flags.wrapValues = true)
    (hw : ∀ width ∈ widths, width = cw) (hne : widths ≠ [])
    (hcb : ∀ j < widths.length, Triple World.Reliable (cb j)
      (fun f w => f.duplicate = false ∧ 0 < f.n ∧
        (∃ mem, f.src = .stable mem ∧ TooNarrow env flags (cw - 2) mem) ∧ w.Reliable)
      (fun _ _ => False)) :
    Triple World.Reliable (renderRow env fuel widths undersize flags (some cb))
      (fun _ _ => False) (fun e _ => e = .outOfFuel) := by
  have hmore : (!widths.isEmpty) = true := by simpa using hne
  simp only [renderRow, hwrap, if_true]
  refine (orFail_attempt_calm .reliable (.inr rfl)).bind fun _ =>
    (renderRowFirst_blocked env flags _ h2 hwrap hw 0 fun j _ hj =>
      (hcb j (by simpa using hj)).conseq (fun _ => id) (fun _ _ => id) fun _ _ h => h.elim).bind
      fun r => Triple.prop fun hs => Triple.prop fun hr => ?_
  exact (renderRowEnd_calm .reliable _ _).bind fun _ => by
    simpa only [hr, hmore, if_true] using renderRowWrap_blocked env flags _ h2 hs hne undersize fuel

end Blocked

/-- **With wrapping, a table whose kept names all start with a codepoint wider than their
cells never finishes its header**, for every fuel: `render_field` consumes nothing of a name,
which overflows on every line.  Cells one column wide and a name that starts with a
character two columns wide are enough. -/
theorem renderTable_wide_diverges (env : Env) (fuel : Nat) (results : ResultStream)
    (width : Nat) (flags : RenderFlags) {k cw : Nat} {undersize : Bool}
    (hwidth : 1 < width ∧ width < env.maxWidth) (hfailure : results.failure = 0)
    (hfit : fitColumns width results.nfields (columnWidthFor width results.nfields) false =
      (k, cw, undersize)) (hk : 0 < k)
    (hnames : ∀ j < k, 0 < (results.fieldname j).length ∧
      TooNarrow env flags (cw - 2) (results.fieldname j))
    (hwrap : flags.wrapValues = true) {w : World} (hw : w.Reliable) :
    ∃ w', renderTable env fuel results width flags w = .error .outOfFuel w' := by
  have hfit' := fitColumns_fit width results.nfields false
  rw [hfit] at hfit'
  obtain ⟨hle, -, hwide, -⟩ := hfit'
  simp only at hle hwide
  have h2 : 2 ≤ cw := hwide.resolve_left (by omega)
  refine Triple.error_of ?_ hw
  simp only [renderTable]
  rw [hfit]
  simp only [require_of_true hwidth, hfailure, pure_bind, cAssert_of_true (Or.inl h2),
    if_pos hk, if_pos (show 0 < cw by omega)]
  refine ((checkResults_spec (Q := fun _ => World.Reliable) 0).pre fun w hw => by
    simpa using hw).bind fun _ => ?_
  refine Triple.ite (fun h0 => absurd hle (by rw [h0]; omega)) fun _ =>
    (orFail_attempt_calm .reliable (.inr rfl)).bind fun _ => ?_
  refine Triple.bind (Q := fun _ _ => False) (Triple.onFailure (F := fun e _ => e = .outOfFuel) ?_
    (fun _ h => nomatch h) fun _ _ _ => id) fun _ _ h => h.elim
  refine (newBuffer_spec _).bind fun _ => (orFail_attempt_calm .reliable (.inr rfl)).bind fun _ =>
    (renderHrule_calm .reliable _ _ _ _).bind fun _ =>
      (renderRow_blocked env _ h2 fuel undersize (by simpa using hwrap)
        (fun _ h => List.eq_of_mem_replicate h) (by simpa using Nat.pos_iff_ne_zero.mp hk)
        fun j hj => Triple.pure fun _ h => ⟨rfl, (hnames j (by simpa using hj)).1,
          ⟨_, rfl, ((tooNarrow_normalize env _ flags _ _).mpr (hnames j (by simpa using hj)).2).append [0]⟩,
          h⟩).bind fun _ _ h => h.elim

/-- A stream of one field, `日` (U+65E5, two columns wide), and no rows. -/
def sunResults : ResultStream :=
  ⟨[⟨[0xE6, 0x97, 0xA5], by decide⟩], [], 0, 0, by decide⟩

/-- The stream in a table five columns wide, with UTF-8 borders and wrapping: one column
three wide, whose cell of one column cannot take the name. -/
theorem renderTable_wide_diverges_sun :
    fitColumns 5 sunResults.nfields (columnWidthFor 5 sunResults.nfields) false = (1, 3, false) ∧
    TooNarrow Env.utf8Terminal artWrapFlags 1 (sunResults.fieldname 0) ∧
    ∃ w', renderTable Env.utf8Terminal 100 sunResults 5 artWrapFlags World.init =
      .error .outOfFuel w' :=
  have hfit : fitColumns 5 sunResults.nfields (columnWidthFor 5 sunResults.nfields) false =
    (1, 3, false) := rfl
  have hsun : TooNarrow Env.utf8Terminal artWrapFlags 1 (sunResults.fieldname 0) :=
    .inr ⟨0x65E5, 3, 2, by decide, by decide, by decide⟩
  ⟨hfit, hsun, renderTable_wide_diverges Env.utf8Terminal 100 sunResults 5 artWrapFlags
    (by decide) rfl hfit (by decide) (fun j hj => by
      obtain rfl : j = 0 := by omega
      exact ⟨by decide, hsun⟩) rfl fun _ => rfl⟩

end Neo4jRender
