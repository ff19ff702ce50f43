/-
What one cell holds.

`render_field` is where the table's geometry is decided: it is asked for exactly `width`
columns and owns every byte between the two borders of a cell.  The three runs below
are the places where it does not keep to that, each on the smallest input that shows it.

  * An escape is cut to the whole cell width, not to what is left of it, so an escape
    that starts late in a cell runs past the border (`renderRow_escape_overflows`).
  * The decoder is told the field never ends, so a sequence cut off at the field's end
    is completed from the bytes after it, and more bytes are reported consumed than the
    field has (`renderField_reads_past_end`).
  * `\UXXXXXXXX` is ten characters formatted into `char buf[10]`, so its last digit is
    lost to the terminating NUL, which is written in its place
    (`renderField_long_escape_writes_nul`).

Each holds for every width table: the runs escape their codepoints because of
`NEO4J_RENDER_ASCII`, and never ask `neo4j_u8cpwidth`.

The second needs a field that ends inside a sequence.  On a valid UTF-8 field the decoder
never reaches past the end, and `render_field` stops at a codepoint boundary of the field
(`renderField_stops_at_boundary`).

Where a valid text fits its cell, `render_field` writes it whole and pads the cell
(`renderField_fits_whole`), except at the boundary: the loop tests `used < width`, so a text
that fills the cell and goes on with codepoints of no width is cut before them
(`renderField_leaves_zero_width`).
-/
import Neo4jRender.Proofs.Guard

namespace Neo4jRender

/-- Flags as `neo4j_render_table` passes them on for `NEO4J_RENDER_ASCII`. -/
def asciiFlags : RenderFlags :=
  { showNulls := false, quoteStrings := false, ascii := true, asciiArt := true,
    rowLines := false, wrapValues := false }

/-- Flags for a UTF-8 terminal with ASCII borders that wraps values:
`NEO4J_RENDER_ASCII_ART | NEO4J_RENDER_WRAP_VALUES`. -/
def artWrapFlags : RenderFlags := { asciiFlags with ascii := false, wrapValues := true }

/-- The two-codepoint field `éé` in a column 10 wide: each escape is six characters, and the
second is cut to the cell's eight columns rather than the two left, so the line is four
columns wider than the rule above it. -/
theorem renderRow_escape_overflows (env : Env) :
    (∃ w, renderRow env 0 [10] false asciiFlags
        (some fun _ => pure ⟨.stable [0xC3, 0xA9, 0xC3, 0xA9], 4, false⟩) World.init =
          .ok () w ∧
      w.out = bytesOf "| \\u00E9\\u00E9 |\n") ∧
    (∃ w, renderHrule [10] .top false asciiFlags World.init = .ok () w ∧
      w.out = bytesOf "+----------+\n") :=
  ⟨⟨_, rfl, rfl⟩, ⟨_, rfl, rfl⟩⟩

/-- The one-byte field `0xC3`, the lead byte of a two-byte sequence, with `0xA9` after it in
memory: the sequence is decoded through the byte past the end, and two bytes of a one-byte
field are reported consumed. -/
theorem renderField_reads_past_end (env : Env) :
    ∃ w, renderField env [0xC3, 0xA9] 1 10 asciiFlags World.init = .ok 2 w ∧
      w.out = bytesOf "\\u00E9    " :=
  ⟨_, rfl, rfl⟩

/-- U+1F600 in a cell 10 wide: the escape `\U0001F600` comes out as `\U0001F60` and a NUL. -/
theorem renderField_long_escape_writes_nul (env : Env) :
    ∃ w, renderField env [0xF0, 0x9F, 0x98, 0x80] 4 10 asciiFlags World.init = .ok 4 w ∧
      w.out = bytesOf "\\U0001F60" ++ [0] :=
  ⟨_, rfl, rfl⟩

/-! ### Escapes

`write_unprintable` formats the escape of a codepoint into `char buf[10]` with `snprintf`, and
writes `min(n, width)` bytes of it, `n` the escape's length.  The escape the spec gives a
codepoint (`IsEscape`) is a backslash and C's letter for seven controls, and otherwise `\u`
and four uppercase hexadecimal digits up to U+FFFF, `\U` and eight above, the digits reading
the codepoint back (`readHex`).  Up to U+FFFF the code writes that escape, cut to the cell;
above, ten characters and their NUL do not fit the buffer, so the code writes the first nine
and then the NUL where the last digit should be (`writeUnprintable_escape`).  `escapeOf`
computes the escape, and `isEscape_escapeOf` checks it against `IsEscape`.
-/

/-- The value of an uppercase hexadecimal digit. -/
def hexValue (b : UInt8) : Option Nat :=
  if 0x30 ≤ b ∧ b ≤ 0x39 then some (b.toNat - 0x30)
  else if 0x41 ≤ b ∧ b ≤ 0x46 then some (b.toNat - 0x37) else none

/-- The value of uppercase hexadecimal digits, the most significant first. -/
def readHex : List UInt8 → Option Nat
  | [] => some 0
  | d :: ds => do
    let v ← hexValue d
    let r ← readHex ds
    pure (v * Nat.pow 16 ds.length + r)

/-- C's escapes of the seven controls, as the codepoint and the letter after the backslash:
`\a`, `\b`, `\t`, `\n`, `\v`, `\f` and `\r`. -/
def controlEscapes : List (Nat × UInt8) :=
  [(7, 0x61), (8, 0x62), (9, 0x74), (10, 0x6E), (11, 0x76), (12, 0x66), (13, 0x72)]

/-- `esc` is the escape the spec gives `cp`: a backslash and C's letter for the seven controls,
and otherwise `\u` and four uppercase hexadecimal digits that read `cp` up to U+FFFF, `\U`
and eight above. -/
def IsEscape (cp : Nat) (esc : List UInt8) : Prop :=
  if cp ∈ controlEscapes.map Prod.fst then ∃ l, (cp, l) ∈ controlEscapes ∧ esc = [0x5C, l]
  else ∃ digits, readHex digits = some cp ∧
    if cp ≤ 0xFFFF then digits.length = 4 ∧ esc = 0x5C :: 0x75 :: digits
    else digits.length = 8 ∧ esc = 0x5C :: 0x55 :: digits

/-- The escape the spec gives a codepoint `render_field` does not draw raw. -/
def escapeOf (cp : Nat) : List UInt8 :=
  match cp with
  | 7 => [0x5C, 0x61]
  | 8 => [0x5C, 0x62]
  | 12 => [0x5C, 0x66]
  | 10 => [0x5C, 0x6E]
  | 13 => [0x5C, 0x72]
  | 9 => [0x5C, 0x74]
  | 11 => [0x5C, 0x76]
  | _ => if cp ≤ 0xFFFF then 0x5C :: 0x75 :: hexDigits 4 cp else 0x5C :: 0x55 :: hexDigits 8 cp

@[simp] theorem hexDigits_length (k v : Nat) : (hexDigits k v).length = k := by
  simp [hexDigits]

theorem hexDigits_succ (k v : Nat) :
    hexDigits (k + 1) v = hexDigit (v / Nat.pow 16 k % 16) :: hexDigits k v := by
  simp [hexDigits, List.range_succ]

theorem hexValue_hexDigit : ∀ d < 16, hexValue (hexDigit d) = some d := by decide

/-- **`%0kX` reads back**: its `k` digits are the value below `16 ^ k`. -/
theorem readHex_hexDigits (v : Nat) : ∀ k, readHex (hexDigits k v) = some (v % Nat.pow 16 k)
  | 0 => by simp [hexDigits, readHex, Nat.mod_one]
  | k + 1 => by
    rw [hexDigits_succ, readHex, hexValue_hexDigit _ (Nat.mod_lt _ (by decide)),
      readHex_hexDigits v k, hexDigits_length]
    show some _ = some (v % 16 ^ (k + 1))
    rw [Nat.mod_pow_succ, Nat.add_comm, Nat.mul_comm]
    rfl

/-- The escape `escapeOf` computes is the one the spec gives, for every codepoint. -/
theorem isEscape_escapeOf {cp : Nat} (hcp : cp < 0x110000) : IsEscape cp (escapeOf cp) := by
  unfold escapeOf
  split
  any_goals exact (if_pos (by decide)).mpr ⟨_, by decide, rfl⟩
  rw [IsEscape, if_neg (by simp_all [controlEscapes])]
  -- four digits up to U+FFFF, eight above: both below the digits' range
  split_ifs <;> exact ⟨hexDigits _ cp, by
    rw [readHex_hexDigits, Nat.mod_eq_of_lt (by simp [Nat.pow]; omega)], by simp, rfl⟩

/-- Every escape is printable ASCII. -/
theorem escapeOf_printable (cp : Nat) : ∀ b ∈ escapeOf cp, 0x20 ≤ b ∧ b < 0x7F := by
  have hdigit : ∀ d < 16, 0x20 ≤ hexDigit d ∧ hexDigit d < 0x7F := by decide
  have hhex : ∀ k v, ∀ b ∈ hexDigits k v, 0x20 ≤ b ∧ b < 0x7F := fun k v b hb => by
    obtain ⟨i, -, rfl⟩ := List.mem_map.mp hb
    exact hdigit _ (Nat.mod_lt _ (by decide))
  unfold escapeOf
  split
  any_goals decide
  split_ifs <;> intro b hb <;> rcases List.mem_cons.mp hb with rfl | hb
  any_goals decide
  all_goals rcases List.mem_cons.mp hb with rfl | hb
  any_goals decide
  all_goals exact hhex _ _ b hb

/-- What `write_unprintable` formats: the escape's length, and up to that length the escape,
but for a codepoint above U+FFFF, whose last digit `snprintf` replaces by the NUL. -/
theorem unprintableReplacement_escape (cp : Nat) :
    (unprintableReplacement cp).2 = (escapeOf cp).length ∧ ∀ k ≤ (escapeOf cp).length,
      (unprintableReplacement cp).1.take k =
        (if cp ≤ 0xFFFF then escapeOf cp else (escapeOf cp).take 9 ++ [0]).take k := by
  unfold escapeOf
  split <;> try exact ⟨rfl, fun _ _ => rfl⟩
  -- past the seven controls: the same match in `write_unprintable`, then the buffer
  split_ifs with h <;> unfold unprintableReplacement <;> split <;> try exact absurd rfl ‹_›
  · rw [if_pos h]
    refine ⟨by simp, fun k hk => ?_⟩
    have hfits : (0x5C :: 0x75 :: hexDigits 4 cp : List UInt8).length ≤ 10 - 1 := by simp
    rw [snprintfBuf, List.take_of_length_le hfits, List.take_append_of_le_length hk]
  · rw [if_neg h]
    exact ⟨by simp, fun _ _ => rfl⟩

/-- From a codepoint boundary of a valid text, the codepoint loop stops at another. -/
theorem renderFieldLoop_boundary (env : Env) {text : List UInt8} (rest : List UInt8)
    (width : Nat) (flags : RenderFlags) :
    ∀ fuel pos used, pos ≤ text.length → U8Text (text.drop pos) →
      Triple (fun _ => True)
        (renderFieldLoop env (text ++ rest) text.length width flags fuel pos used)
        (fun r _ => r.1 ≤ text.length ∧ U8Text (text.drop r.1)) (fun _ _ => True)
  | 0, _, _, hpos, hv => Triple.pure fun _ _ => ⟨hpos, hv⟩
  | fuel + 1, pos, used, hpos, hv => by
    refine Triple.ite (fun hc => ?_) fun _ => Triple.pure fun _ _ => ⟨hpos, hv⟩
    obtain ⟨cp, k, hdec, hk, hv'⟩ := hv.decode (by simp; omega) rest
    have hnext : pos + k ≤ text.length := by simp only [List.length_drop] at hk; omega
    have ih := fun used => renderFieldLoop_boundary env rest width flags fuel (pos + k) used
      hnext (by simpa [List.drop_drop, Nat.add_comm] using hv')
    rw [List.drop_append_of_le_length hpos]
    refine ((decodeAt_spec (Q := fun r _ => r = (cp, k) ∧ True) _).pre fun _ _ => by
      simp [hdec]).bind fun r => Triple.prop fun hr => ?_
    subst hr
    dsimp only
    cases (if 1 < k ∧ flags.ascii = true then none else env.u8cpwidth cp) with
    | none => exact Triple.bind (Q := fun _ _ => True) Triple.trivial fun _ => ih _
    | some cpwidth =>
      exact Triple.ite (fun _ => Triple.pure fun _ _ => ⟨hpos, hv⟩) fun _ =>
        Triple.bind (Q := fun _ _ => True) Triple.trivial fun _ => ih _

/-- **On a valid UTF-8 text, `render_field` stops at a codepoint boundary inside it**, whatever
bytes follow the text in memory: it returns at most the text's length, and what is left of the
text is valid UTF-8. -/
theorem renderField_stops_at_boundary (env : Env) {text : List UInt8} (ht : U8Text text)
    (rest : List UInt8) (width : Nat) (flags : RenderFlags) :
    Triple (fun _ => True) (renderField env (text ++ rest) text.length width flags)
      (fun consumed _ => consumed ≤ text.length ∧ U8Text (text.drop consumed))
      (fun _ _ => True) :=
  (renderFieldLoop_boundary env rest width flags _ 0 0 (Nat.zero_le _) ht).bind fun (_, _) =>
    (Triple.prop (P := fun _ => True) fun h => Triple.bind (Q := fun _ _ => True) Triple.trivial
      fun _ => Triple.pure fun _ _ => h).pre fun _ h => ⟨h, trivial⟩

/-- The field `é` with the byte `0xA9` after it in memory, in a cell one column wide. -/
theorem renderField_stops_at_boundary_e_acute :
    U8Text [0xC3, 0xA9] ∧
      Triple (fun _ => True)
        (renderField Env.utf8Terminal ([0xC3, 0xA9] ++ [0xA9]) 2 1 asciiFlags)
        (fun consumed _ => consumed ≤ 2 ∧ U8Text ([0xC3, 0xA9].drop consumed))
        (fun _ _ => True) :=
  have hv : U8Text [0xC3, 0xA9] :=
    @U8Text.cons [0xC3, 0xA9] [] 0xE9 (by decide) .nil
  ⟨hv, renderField_stops_at_boundary Env.utf8Terminal hv [0xA9] 1 asciiFlags⟩

/-! ### Text that fits

What `render_field` makes of one codepoint is decided by the `if` of its loop: a codepoint it
escapes costs the escape's length, any other the columns `neo4j_u8cpwidth` gives it.  A
text's `Cells` are these, codepoint by codepoint, and its rendered width is their sum.  Where
every codepoint starts with room left in the cell and ends within it (`Fits`), the loop writes
them one after another (`renderFieldLoop_step`, `renderFieldLoop_cells`).

The loop's test is `used < width`, so it also stops where the cell is exactly full.  A text
that fills its cell and goes on with codepoints of no width (combining marks, or NUL) is cut
before them, and `render_row` draws the overflow glyph for a text that fits
(`renderField_leaves_zero_width`); a text whose codepoints before the last fit strictly is
written whole and padded (`renderField_fits_whole`).
-/

/-- What `render_field` makes of the codepoint `cp`, spelled `c`: the bytes it writes and the
columns it counts, the escape whole where it escapes the codepoint. -/
def cpCell (env : Env) (flags : RenderFlags) (c : List UInt8) (cp : Nat) : List UInt8 × Nat :=
  match (if 1 < c.length ∧ flags.ascii then none else env.u8cpwidth cp) with
  | none => ((unprintableReplacement cp).1.take (unprintableReplacement cp).2,
      (unprintableReplacement cp).2)
  | some cpwidth => (c, cpwidth)

/-- `cells` are what `render_field` makes of the codepoints of `text`, in order. -/
inductive Cells (env : Env) (flags : RenderFlags) : List UInt8 → List (List UInt8 × Nat) → Prop
  | nil : Cells env flags [] []
  | cons {c rest : List UInt8} {cp : Nat} {cells : List (List UInt8 × Nat)} :
      u8codepoint c = some (cp, c.length) → Cells env flags rest cells →
      Cells env flags (c ++ rest) (cpCell env flags c cp :: cells)

/-- The rendered width of a text: the columns of its codepoints. -/
def cellsWidth : List (List UInt8 × Nat) → Nat
  | [] => 0
  | cell :: cells => cell.2 + cellsWidth cells

/-- The bytes `render_field` writes for a text it writes whole. -/
def cellsText (cells : List (List UInt8 × Nat)) : List UInt8 := cells.flatMap Prod.fst

/-- In a cell of `width` columns filled to `used`, every codepoint starts with room left and
ends within the cell. -/
def Fits (width : Nat) : Nat → List (List UInt8 × Nat) → Prop
  | _, [] => True
  | used, cell :: cells => used < width ∧ used + cell.2 ≤ width ∧ Fits width (used + cell.2) cells

section Cells

variable {env : Env} {flags : RenderFlags}

@[simp] theorem cellsWidth_nil : cellsWidth [] = 0 := rfl

@[simp] theorem cellsWidth_cons (x : List UInt8 × Nat) (cells : List (List UInt8 × Nat)) :
    cellsWidth (x :: cells) = x.2 + cellsWidth cells := rfl

@[simp] theorem cellsWidth_append (a b : List (List UInt8 × Nat)) :
    cellsWidth (a ++ b) = cellsWidth a + cellsWidth b := by
  induction a with
  | nil => simp
  | cons x a ih => simp only [List.cons_append, cellsWidth_cons, ih, Nat.add_assoc]

@[simp] theorem cellsText_nil : cellsText [] = [] := rfl

@[simp] theorem cellsText_cons (x : List UInt8 × Nat) (cells : List (List UInt8 × Nat)) :
    cellsText (x :: cells) = x.1 ++ cellsText cells := List.flatMap_cons _ _ _

theorem Cells.u8Text {t : List UInt8} {cells : List (List UInt8 × Nat)}
    (h : Cells env flags t cells) : U8Text t := by
  induction h with
  | nil => exact .nil
  | cons hc _ ih => exact .cons hc ih

/-- Every valid text has its cells. -/
theorem U8Text.cells {t : List UInt8} (h : U8Text t) : ∃ cells, Cells env flags t cells := by
  induction h with
  | nil => exact ⟨[], .nil⟩
  | cons hc _ ih => obtain ⟨cells, h⟩ := ih; exact ⟨_, .cons hc h⟩

/-- A decoded codepoint takes at least a byte. -/
theorem append_ne_nil_of_u8codepoint {c : List UInt8} {cp : Nat}
    (hc : u8codepoint c = some (cp, c.length)) (rest : List UInt8) : c ++ rest ≠ [] :=
  List.append_ne_nil_of_left_ne_nil (List.ne_nil_of_length_pos (u8codepoint_length hc).1) rest

/-- A text has one list of cells: the decoder reads it one way. -/
theorem Cells.unique {t : List UInt8} {a : List (List UInt8 × Nat)} (ha : Cells env flags t a) :
    ∀ {t' b}, Cells env flags t' b → t = t' → a = b := by
  induction ha with
  | nil =>
    intro _ _ hb ht
    cases hb with
    | nil => rfl
    | cons hc _ => exact absurd ht.symm (append_ne_nil_of_u8codepoint hc _)
  | @cons c rest cp cells hc _ ih =>
    intro _ _ hb ht
    cases hb with
    | nil => exact absurd ht (append_ne_nil_of_u8codepoint hc _)
    | @cons c' rest' cp' cells' hc' hb =>
      have hdec := u8codepoint_take_append hc rest
      rw [List.take_length, ht, ← List.take_length (l := c'), u8codepoint_take_append hc'] at hdec
      obtain ⟨rfl, hlen⟩ := Prod.mk.inj (Option.some.inj hdec)
      obtain ⟨rfl, rfl⟩ := List.append_inj ht hlen.symm
      rw [ih hb rfl]

theorem Cells.append {a b : List UInt8} {ca cb : List (List UInt8 × Nat)}
    (ha : Cells env flags a ca) (hb : Cells env flags b cb) : Cells env flags (a ++ b) (ca ++ cb) := by
  induction ha with
  | nil => exact hb
  | cons hc _ ih => rw [List.append_assoc]; exact .cons hc ih

/-- Every codepoint takes at least a byte. -/
theorem Cells.length_le {t : List UInt8} {cells : List (List UInt8 × Nat)}
    (h : Cells env flags t cells) : cells.length ≤ t.length := by
  induction h with
  | nil => exact le_rfl
  | cons hc _ ih =>
    simp only [List.length_cons, List.length_append]
    have := (u8codepoint_length hc).1
    omega

/-- A text fits when the codepoints before its last fit strictly and the whole within. -/
theorem fits_of_lt {width : Nat} : ∀ {used : Nat} {cells : List (List UInt8 × Nat)},
    used + cellsWidth cells.dropLast < width → used + cellsWidth cells ≤ width →
      Fits width used cells
  | _, [], _, _ => trivial
  | _, [_], h1, h2 => ⟨by simpa using h1, by simpa using h2, trivial⟩
  | used, x :: y :: cells, h1, h2 => by
    simp only [List.dropLast_cons₂, cellsWidth_cons] at h1 h2
    exact ⟨by omega, by omega, fits_of_lt (by omega) (by simp only [cellsWidth_cons]; omega)⟩

end Cells

/-! ### Running through a text that fits -/

section Run

variable {E : Err → World → Prop}

theorem writeUnprintable_wrote (codepoint width : Nat) (o : List UInt8)
    (h : (unprintableReplacement codepoint).2 ≤ width) :
    Triple (Wrote o) (writeUnprintable codepoint width)
      (fun r w => r = (unprintableReplacement codepoint).2 ∧
        Wrote (o ++ (unprintableReplacement codepoint).1.take (unprintableReplacement codepoint).2) w)
      E := by
  show Triple _ (orFail (fwrite ((unprintableReplacement codepoint).1.take
    (min (unprintableReplacement codepoint).2 width))) >>= fun _ =>
      pure (unprintableReplacement codepoint).2) _ _
  rw [Nat.min_eq_left h]
  exact (orFail_fwrite_wrote _ o).bind fun _ => Triple.pure fun _ hw => ⟨rfl, hw⟩

theorem padSpaces_wrote (o : List UInt8) :
    ∀ k, Triple (Wrote o) (padSpaces k) (fun _ => Wrote (o ++ List.replicate k 0x20)) E
  | 0 => Triple.pure fun _ hw => by rwa [List.replicate_zero, List.append_nil]
  | k + 1 => by
    rw [List.replicate_succ, List.append_cons]
    exact (orFail_fwrite_wrote [0x20] o).bind fun _ => padSpaces_wrote _ k

/-- The loop stops where the cell is full or the field is done. -/
theorem renderFieldLoop_stop (env : Env) (mem : List UInt8) {n width : Nat} (flags : RenderFlags)
    {pos used : Nat} (h : ¬(used < width ∧ pos < n)) (fuel : Nat) :
    renderFieldLoop env mem n width flags fuel pos used = pure (pos, used) := by
  cases fuel with
  | zero => rfl
  | succ fuel => exact if_neg h

/-- One turn of the loop on a codepoint that fits writes its cell and goes on after it. -/
theorem renderFieldLoop_step (env : Env) {mem : List UInt8} {n width : Nat} {flags : RenderFlags}
    {fuel pos used : Nat} {c q o : List UInt8} {cp : Nat} {Q : Nat × Nat → World → Prop}
    (hmem : mem.drop pos = c ++ q) (hdec : u8codepoint c = some (cp, c.length)) (hpos : pos < n)
    (hused : used < width) (hfit : used + (cpCell env flags c cp).2 ≤ width)
    (h : Triple (Wrote (o ++ (cpCell env flags c cp).1))
      (renderFieldLoop env mem n width flags fuel (pos + c.length)
        (used + (cpCell env flags c cp).2)) Q E) :
    Triple (Wrote o) (renderFieldLoop env mem n width flags (fuel + 1) pos used) Q E := by
  have hdec' : u8codepoint (c ++ q) = some (cp, c.length) := by
    simpa using u8codepoint_take_append hdec q
  refine Triple.ite (fun _ => ?_) fun hc => absurd ⟨hused, hpos⟩ hc
  rw [hmem]
  refine ((decodeAt_spec (Q := fun r w => r = (cp, c.length) ∧ Wrote o w) _).pre fun w hw => by
    rw [hdec']; exact ⟨rfl, wrote_record_nil.mpr hw⟩).bind
    fun r => Triple.prop fun hr => ?_
  subst hr
  dsimp only
  unfold cpCell at hfit h
  cases hcp : (if 1 < c.length ∧ flags.ascii = true then none else env.u8cpwidth cp) with
  | none =>
    simp only [hcp] at hfit h
    exact (writeUnprintable_wrote cp width o (by omega)).bind fun _ =>
      Triple.prop fun hk => by subst hk; exact h
  | some cpwidth =>
    simp only [hcp] at hfit h
    refine Triple.ite (fun hc => absurd hc (by omega)) fun _ => ?_
    rw [List.take_left]
    exact (orFail_fwrite_wrote c o).bind fun _ => h

/-- **The loop writes a text that fits, codepoint by codepoint**, and goes on after it as it
would from there. -/
theorem renderFieldLoop_cells (env : Env) {mem : List UInt8} {n width : Nat}
    {flags : RenderFlags} {Q : Nat × Nat → World → Prop} {text : List UInt8}
    {cells : List (List UInt8 × Nat)} (hc : Cells env flags text cells) :
    ∀ {fuel pos used : Nat} {q o : List UInt8}, mem.drop pos = text ++ q →
      pos + text.length ≤ n → cells.length ≤ fuel → Fits width used cells →
      Triple (Wrote (o ++ cellsText cells))
        (renderFieldLoop env mem n width flags (fuel - cells.length) (pos + text.length)
          (used + cellsWidth cells)) Q E →
      Triple (Wrote o) (renderFieldLoop env mem n width flags fuel pos used) Q E := by
  induction hc with
  | nil => intro _ _ _ _ _ _ _ _ _ h; simpa using h
  | @cons c rest cp cells hdec _ ih =>
    intro fuel pos used q o hmem hpos hfuel hfit h
    obtain ⟨fuel, rfl⟩ : ∃ f, fuel = f + 1 := ⟨fuel - 1, by simp only [List.length_cons] at hfuel; omega⟩
    obtain ⟨hused, hcell, hfit⟩ := hfit
    have hlen := (u8codepoint_length hdec).1
    simp only [List.length_append] at hpos h
    refine renderFieldLoop_step env (q := rest ++ q) (by rw [hmem, List.append_assoc]) hdec
      (by omega) hused hcell (ih (q := q) ?_ (by omega) (by simpa using hfuel) hfit ?_)
    · rw [← List.drop_drop, hmem, List.append_assoc, List.drop_left]
    · simpa only [List.length_cons, Nat.add_sub_add_right, cellsText_cons, cellsWidth_cons,
        List.append_assoc, Nat.add_assoc] using h

/-- Through a text that fits, to where the cell is full or the field done: `render_field`
returns there, having written the text's cells and padded the cell. -/
theorem renderField_through (env : Env) {flags : RenderFlags} {pre q : List UInt8} {n width : Nat}
    {cells : List (List UInt8 × Nat)} (hc : Cells env flags pre cells) (hn : pre.length ≤ n)
    (hfit : Fits width 0 cells) (hstop : ¬(cellsWidth cells < width ∧ pre.length < n))
    (o : List UInt8) :
    Triple (Wrote o) (renderField env (pre ++ q) n width flags)
      (fun r w => r = pre.length ∧
        Wrote (o ++ cellsText cells ++ List.replicate (width - cellsWidth cells) 0x20) w) E := by
  refine (renderFieldLoop_cells env
    (Q := fun r w => r = (pre.length, cellsWidth cells) ∧ Wrote (o ++ cellsText cells) w) hc
    (q := q) (by simp) (by simpa using hn) (hc.length_le.trans hn) hfit ?_).bind
    fun r => Triple.prop fun hr => ?_
  · simp only [Nat.zero_add]
    rw [renderFieldLoop_stop _ _ _ hstop]
    exact Triple.pure fun _ hw => ⟨rfl, hw⟩
  · subst hr
    exact (padSpaces_wrote _ _).bind fun _ => Triple.pure fun _ hw => ⟨rfl, hw⟩

end Run

/-- **A text that fills its cell and goes on with codepoints of no width is cut before them.**
Its rendered width is the cell's, yet `render_field` stops where the cell is full, consuming
less than the field, and writes none of the rest: `render_row` draws the overflow glyph for a
text that fits. -/
theorem renderField_leaves_zero_width (env : Env) (flags : RenderFlags) {pre post : List UInt8}
    {cs zs : List (List UInt8 × Nat)} (hpre : Cells env flags pre cs)
    (hpost : Cells env flags post zs) (hlast : cellsWidth cs.dropLast < cellsWidth cs)
    (hzero : cellsWidth zs = 0) (hne : post ≠ []) (rest : List UInt8) {w : World}
    (hw : w.Reliable) :
    (∀ cells, Cells env flags (pre ++ post) cells → cellsWidth cells = cellsWidth cs) ∧
      ∃ w', renderField env (pre ++ post ++ rest) (pre ++ post).length (cellsWidth cs) flags w =
          .ok pre.length w' ∧
        pre.length < (pre ++ post).length ∧ w'.out = w.out ++ cellsText cs := by
  refine ⟨fun cells h => by rw [← (hpre.append hpost).unique h rfl, cellsWidth_append, hzero, Nat.add_zero], ?_⟩
  have hlen : pre.length < (pre ++ post).length := by
    simp [List.length_append, List.length_pos.mpr hne]
  obtain ⟨r, w', hrun, rfl, hw'⟩ := (renderField_through env (q := post ++ rest)
    (E := fun _ _ => False) hpre hlen.le (fits_of_lt (by simpa using hlast) (by simp))
    (fun h => lt_irrefl _ h.1) w.out).ok_of ⟨hw, rfl⟩
  rw [List.append_assoc]
  exact ⟨w', hrun, hlen, by simpa using hw'.2⟩

/-- `e` and U+0301 COMBINING ACUTE ACCENT in a cell one column wide: the text is one column
wide, but `render_field` consumes only the `e`, and `render_row` draws the overflow glyph and a
continuation line holding the accent alone. -/
theorem renderField_leaves_zero_width_e_acute :
    ((∀ cells, Cells Env.utf8Terminal artWrapFlags [0x65, 0xCC, 0x81] cells →
        cellsWidth cells = 1) ∧
      ∃ w', renderField Env.utf8Terminal [0x65, 0xCC, 0x81] 3 1 artWrapFlags World.init =
          .ok 1 w' ∧ 1 < 3 ∧ w'.out = [0x65]) ∧
    ∃ w, renderRow Env.utf8Terminal 1 [3] false artWrapFlags
        (some fun _ => pure ⟨.stable [0x65, 0xCC, 0x81], 3, false⟩) World.init = .ok () w ∧
      w.out = bytesOf "| e=|\n|=" ++ [0xCC, 0x81] ++ bytesOf "  |\n" :=
  ⟨renderField_leaves_zero_width Env.utf8Terminal artWrapFlags
    (@Cells.cons _ _ [0x65] [] 0x65 [] (by decide) .nil)
    (@Cells.cons _ _ [0xCC, 0x81] [] 0x301 [] (by decide) .nil) (by decide) (by decide)
    (by decide) [] (fun _ => rfl), _, rfl, rfl⟩

/-- **A text whose codepoints before the last fit strictly is written whole**: `render_field`
consumes the whole field, writes each codepoint raw or as its whole escape, and pads the cell
with spaces to its width.  A text narrower than its cell is one such. -/
theorem renderField_fits_whole (env : Env) (flags : RenderFlags) {text : List UInt8}
    {cells : List (List UInt8 × Nat)} (hc : Cells env flags text cells) {width : Nat}
    (hlast : cellsWidth cells.dropLast < width) (hwidth : cellsWidth cells ≤ width)
    (rest : List UInt8) {w : World} (hw : w.Reliable) :
    ∃ w', renderField env (text ++ rest) text.length width flags w = .ok text.length w' ∧
      w'.out = w.out ++ cellsText cells ++ List.replicate (width - cellsWidth cells) 0x20 := by
  obtain ⟨r, w', hrun, rfl, hw'⟩ := (renderField_through env (q := rest) (E := fun _ _ => False)
    hc le_rfl (fits_of_lt (by simpa using hlast) (by simpa using hwidth))
    (fun h => lt_irrefl _ h.2) w.out).ok_of ⟨hw, rfl⟩
  exact ⟨w', hrun, hw'.2⟩

/-- The same text in a cell two columns wide is written whole, with a space after it. -/
theorem renderField_fits_whole_e_acute :
    ∃ w', renderField Env.utf8Terminal [0x65, 0xCC, 0x81] 3 2 artWrapFlags World.init =
        .ok 3 w' ∧ w'.out = [0x65, 0xCC, 0x81, 0x20] :=
  renderField_fits_whole Env.utf8Terminal artWrapFlags
    (@Cells.cons _ _ [0x65] [0xCC, 0x81] 0x65 _ (by decide)
      (@Cells.cons _ _ [0xCC, 0x81] [] 0x301 [] (by decide) .nil)) (by decide) (by decide) []
    (fun _ => rfl)

/-! ### Cutting a text to its cell

A text none of whose codepoints is escaped is cut to its cell: `render_field` writes the
text's codepoints from its start one after another, each started with room left in the cell
and ended within it, and stops at the first of three places: the end of the text, where the
cell is full, or before a codepoint the cell has no room for (`Stops`).  It then pads the
cell, so that it fills exactly `width` columns (`renderField_fills_cell`).  Where the cell is
full the loop stops even before codepoints of no width, which would still have fitted
(`renderField_leaves_zero_width`), so what it writes need not be the longest start of the
text that fits.  The escapes are what break the cut: an escape is written whatever room is
left (`renderRow_escape_overflows`).
-/

/-- Every codepoint of a text is drawn raw: it decodes, and `render_field` finds a width for
it, a printable codepoint that is not a multi-byte one under `NEO4J_RENDER_ASCII`. -/
inductive Raw (env : Env) (flags : RenderFlags) : List UInt8 → Prop
  | nil : Raw env flags []
  | cons {c rest : List UInt8} {cp k : Nat} : u8codepoint c = some (cp, c.length) →
      (if 1 < c.length ∧ flags.ascii then none else env.u8cpwidth cp) = some k →
      Raw env flags rest → Raw env flags (c ++ rest)

/-- Where `render_field` stops with `used` columns filled, before the rest `post` of its
text: at the text's end, where the cell is full, or before a codepoint it has no room for. -/
def Stops (env : Env) (flags : RenderFlags) (width used : Nat) (post : List UInt8) : Prop :=
  post = [] ∨ used = width ∨ ∃ c rest cp, post = c ++ rest ∧
    u8codepoint c = some (cp, c.length) ∧ width < used + (cpCell env flags c cp).2

section Cut

variable {E : Err → World → Prop}

/-- A codepoint drawn raw that the cell has no room for stops the loop before it. -/
theorem renderFieldLoop_no_room (env : Env) {mem : List UInt8} {n width : Nat}
    {flags : RenderFlags} {fuel pos used k : Nat} {c q o : List UInt8} {cp : Nat}
    (hmem : mem.drop pos = c ++ q) (hdec : u8codepoint c = some (cp, c.length)) (hpos : pos < n)
    (hused : used < width)
    (hk : (if 1 < c.length ∧ flags.ascii then none else env.u8cpwidth cp) = some k)
    (hroom : width < used + k) :
    Triple (Wrote o) (renderFieldLoop env mem n width flags (fuel + 1) pos used)
      (fun r w => r = (pos, used) ∧ Wrote o w) E := by
  have hdec' : u8codepoint (c ++ q) = some (cp, c.length) := by
    simpa using u8codepoint_take_append hdec q
  refine Triple.ite (fun _ => ?_) fun hc => absurd ⟨hused, hpos⟩ hc
  rw [hmem]
  refine ((decodeAt_spec (Q := fun r w => r = (cp, c.length) ∧ Wrote o w) _).pre fun w hw => by
    rw [hdec']; exact ⟨rfl, wrote_record_nil.mpr hw⟩).bind
    fun r => Triple.prop fun hr => ?_
  subst hr
  dsimp only
  rw [hk]
  exact Triple.ite (fun _ => Triple.pure fun _ hw => ⟨rfl, hw⟩) fun h => absurd hroom h

/-- The loop over a text drawn raw writes its codepoints one after another, each started with
room left in the cell and ended within it, up to where it stops. -/
theorem renderFieldLoop_raw (env : Env) {mem : List UInt8} {n width : Nat} {flags : RenderFlags}
    {t : List UInt8} (ht : Raw env flags t) :
    ∀ {fuel pos used : Nat} {q o : List UInt8}, mem.drop pos = t ++ q → pos + t.length = n →
      t.length ≤ fuel → used ≤ width →
      Triple (Wrote o) (renderFieldLoop env mem n width flags fuel pos used)
        (fun r w => ∃ pre post cells, t = pre ++ post ∧ Cells env flags pre cells ∧
          Fits width used cells ∧ used + cellsWidth cells ≤ width ∧
          Stops env flags width (used + cellsWidth cells) post ∧
          r = (pos + pre.length, used + cellsWidth cells) ∧ Wrote (o ++ cellsText cells) w) E := by
  induction ht with
  | nil =>
    intro fuel pos used q o _ hpos _ hused
    rw [renderFieldLoop_stop env mem flags (by simp at hpos; omega)]
    exact Triple.pure fun _ hw =>
      ⟨[], [], [], rfl, .nil, trivial, by simpa using hused, .inl rfl, by simp, by simpa using hw⟩
  | @cons c rest cp k hdec hk _ ih =>
    intro fuel pos used q o hmem hpos hfuel hused
    have hlen := (u8codepoint_length hdec).1
    simp only [List.length_append] at hpos hfuel
    obtain ⟨fuel, rfl⟩ : ∃ f, fuel = f + 1 := ⟨fuel - 1, by omega⟩
    have hcell : cpCell env flags c cp = (c, k) := by unfold cpCell; rw [hk]
    have hmem' : mem.drop pos = c ++ (rest ++ q) := by rw [hmem, List.append_assoc]
    by_cases hu : used < width
    · by_cases hfit : used + k ≤ width
      · -- the codepoint fits: write it and go on
        refine renderFieldLoop_step env hmem' hdec (by omega) hu (by rw [hcell]; exact hfit) ?_
        rw [hcell]
        refine (ih (q := q) (by rw [← List.drop_drop, hmem', List.drop_left]) (by omega)
          (by omega) hfit).conseq (fun _ => id) (fun r w h => ?_) fun _ _ => id
        obtain ⟨pre, post, cells, rfl, hc, hfits, hwidth, hstop, rfl, hwr⟩ := h
        refine ⟨c ++ pre, post, cpCell env flags c cp :: cells, by rw [List.append_assoc],
          .cons hdec hc, by rw [hcell]; exact ⟨hu, hfit, hfits⟩, ?_, ?_, ?_, ?_⟩ <;>
          simp only [cellsWidth_cons, cellsText_cons, hcell, List.length_append, Nat.add_assoc,
            List.append_assoc] at hwidth hstop hwr ⊢ <;> assumption
      · -- no room for it: stop before it
        exact (renderFieldLoop_no_room env hmem' hdec (by omega) hu hk (by omega)).conseq
          (fun _ => id) (fun r w ⟨hr, hw⟩ => ⟨[], c ++ rest, [], rfl, .nil, trivial,
            by simpa using hused,
            .inr (.inr ⟨c, rest, cp, rfl, hdec, by rw [hcell]; simpa using hfit⟩),
            by simpa using hr, by simpa using hw⟩) fun _ _ => id
    · -- the cell is full
      rw [renderFieldLoop_stop env mem flags (fun h => hu h.1)]
      exact Triple.pure fun _ hw => ⟨[], c ++ rest, [], rfl, .nil, trivial, by simpa using hused,
        .inr (.inl (by simp only [cellsWidth_nil]; omega)), by simp, by simpa using hw⟩

end Cut

/-- **A text drawn raw is cut to its cell.**  For a valid text none of whose codepoints is
escaped, whatever follows it in memory, `render_field` on a reliable stream writes the text's
codepoints from its start, each started with room left in the cell and ended within it
(`Fits`), and stops at the text's end, where the cell is full, or before a codepoint it has
no room for (`Stops`); it pads the cell with spaces to exactly `width` columns and returns the
bytes it consumed. -/
theorem renderField_fills_cell (env : Env) (flags : RenderFlags) {text : List UInt8}
    (ht : Raw env flags text) (width : Nat) (rest : List UInt8) {w : World} (hw : w.Reliable) :
    ∃ pre post cells, text = pre ++ post ∧ Cells env flags pre cells ∧ Fits width 0 cells ∧
      Stops env flags width (cellsWidth cells) post ∧
      ∃ w', renderField env (text ++ rest) text.length width flags w = .ok pre.length w' ∧
        w'.out = w.out ++ cellsText cells ++ List.replicate (width - cellsWidth cells) 0x20 := by
  obtain ⟨r, w₁, hrun₁, pre, post, cells, hsplit, hc, hfits, -, hstop, rfl, hw₁⟩ :=
    (renderFieldLoop_raw env (E := fun _ _ => False) (o := w.out) ht (List.drop_zero _)
      (Nat.zero_add text.length) (le_refl text.length) (Nat.zero_le width)).ok_of ⟨hw, rfl⟩
  obtain ⟨_, w₂, hrun₂, hw₂⟩ :=
    (padSpaces_wrote (E := fun _ _ => False) _ (width - (0 + cellsWidth cells))).ok_of hw₁
  simp only [Nat.zero_add] at hstop hrun₁ hrun₂ hw₂
  refine ⟨pre, post, cells, hsplit, hc, hfits, hstop, w₂, ?_, hw₂.2⟩
  rw [renderField, run_bind_ok hrun₁]
  exact run_bind_ok hrun₂ _

/-- `日本語`, three characters two columns wide, in a cell of five: the first two are written,
the third has no room, and one space pads the cell. -/
def nihongo : List UInt8 := [0xE6, 0x97, 0xA5, 0xE6, 0x9C, 0xAC, 0xE8, 0xAA, 0x9E]

/-- Without `NEO4J_RENDER_ASCII`, `日本語` is drawn raw, two columns a character. -/
theorem nihongo_raw (flags : RenderFlags) (h : flags.ascii = false) :
    Raw Env.utf8Terminal flags nihongo :=
  @Raw.cons _ _ [0xE6, 0x97, 0xA5] _ 0x65E5 2 (by decide) (by rw [h]; decide) <|
    @Raw.cons _ _ [0xE6, 0x9C, 0xAC] _ 0x672C 2 (by decide) (by rw [h]; decide) <|
    @Raw.cons _ _ [0xE8, 0xAA, 0x9E] [] 0x8A9E 2 (by decide) (by rw [h]; decide) .nil

theorem renderField_fills_cell_nihongo :
    Raw Env.utf8Terminal artWrapFlags nihongo ∧ World.init.Reliable ∧
    ∃ pre post cells, nihongo = pre ++ post ∧ Cells Env.utf8Terminal artWrapFlags pre cells ∧
      Fits 5 0 cells ∧ Stops Env.utf8Terminal artWrapFlags 5 (cellsWidth cells) post ∧
      ∃ w', renderField Env.utf8Terminal (nihongo ++ []) nihongo.length 5 artWrapFlags
          World.init = .ok pre.length w' ∧
        w'.out = World.init.out ++ cellsText cells ++ List.replicate (5 - cellsWidth cells) 0x20 :=
  ⟨nihongo_raw artWrapFlags rfl, fun _ => rfl,
    renderField_fills_cell Env.utf8Terminal artWrapFlags (nihongo_raw artWrapFlags rfl) 5 []
      fun _ => rfl⟩

end Neo4jRender
