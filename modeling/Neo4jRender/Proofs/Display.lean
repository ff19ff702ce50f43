/-
What the terminal shows.

`Table` measures a line in the entries of a list, one glyph or one printable byte each, and
so says nothing of text the width table counts otherwise.  A terminal measures bytes by the
codepoints it decodes, each as wide as the width table of `neo4j_u8cpwidth` makes it:
`Shows env bytes n`.  A line of printable text measures the same both ways
(`TableLine.shows`).

`render_field` stops before a codepoint its cell has no room for and pads what is left with
spaces, so the cell of a valid text none of whose codepoints it escapes shows exactly its
width (`renderField_cut`), East Asian wide characters and combining marks included.  On a
terminal whose border glyphs take one column each, `render_row` then draws its columns each
opened by the vertical border and as wide as the column (`Framed`), as `render_hrule` draws
a rule's columns each opened by a corner (`ruleColumns_framed`).  Every line
`neo4j_render_table` writes is so divided (`Aligned`): it shows as many columns as a rule,
and its borders stand in the columns of the rule's corners (`renderTable_shows_rectangular`,
and with values wrapped `renderTable_wrapped_shows_rectangular`).  An escaped codepoint is
the exception: its escape is written whatever room is left, and the row overflows.

The table is followed as `Table` follows it, but the invariant is weaker: `ShownLines` says
only that the stream has grown by whole lines of the table, not which.
-/
import Neo4jRender.Proofs.Modes
import Neo4jRender.Proofs.Returns

namespace Neo4jRender

/-! ### Columns on the terminal -/

/-- A terminal with the width table of `env` shows `bytes` in `n` columns: they decode to
codepoints whose widths add up to `n`. -/
inductive Shows (env : Env) : List UInt8 → Nat → Prop
  | nil : Shows env [] 0
  | cons {c rest : List UInt8} {cp k n : Nat} : u8codepoint c = some (cp, c.length) →
      env.u8cpwidth cp = some k → Shows env rest n → Shows env (c ++ rest) (k + n)

/-- Border glyphs that take one column each. -/
def BorderGlifs.Narrow (env : Env) (glifs : BorderGlifs) : Prop :=
  ∀ g ∈ glifs.glyphs, Shows env g 1

/-- Whether a glyph is one codepoint the width table counts one column. -/
def narrowGlyph (env : Env) (g : List UInt8) : Bool :=
  match u8codepoint g with
  | some (cp, k) => k == g.length && env.u8cpwidth cp == some 1
  | none => false

section Shows

variable {env : Env}

theorem Shows.append {a b : List UInt8} {m n : Nat} (ha : Shows env a m) (hb : Shows env b n) :
    Shows env (a ++ b) (m + n) := by
  induction ha with
  | nil => simpa using hb
  | cons hc hk _ ih => rw [List.append_assoc, Nat.add_assoc]; exact .cons hc hk ih

/-- One codepoint shows its width. -/
theorem Shows.single {c : List UInt8} {cp k : Nat} (hc : u8codepoint c = some (cp, c.length))
    (hk : env.u8cpwidth cp = some k) : Shows env c k := by
  simpa using Shows.cons hc hk .nil

theorem shows_of_narrowGlyph {g : List UInt8} (h : narrowGlyph env g = true) : Shows env g 1 := by
  unfold narrowGlyph at h
  split at h
  · rename_i hdec
    simp only [Bool.and_eq_true, beq_iff_eq] at h
    obtain ⟨rfl, hk⟩ := h
    exact .single hdec hk
  · cases h

theorem BorderGlifs.narrow_of_all {glifs : BorderGlifs}
    (h : glifs.glyphs.all (narrowGlyph env) = true) : glifs.Narrow env :=
  fun _ hg => shows_of_narrowGlyph (List.all_eq_true.mp h _ hg)

/-- A printable ASCII character shows in one column. -/
theorem shows_printable (henv : env.NarrowAscii) {b : UInt8} (h1 : 0x20 ≤ b) (h2 : b < 0x7F) :
    Shows env [b] 1 :=
  .single (u8codepoint_ascii (show b.toNat < 0x80 by have : b.toNat < 0x7F := h2; omega) [])
    (henv b h1 h2)

theorem shows_spaces (henv : env.NarrowAscii) : ∀ k, Shows env (List.replicate k 0x20) k
  | 0 => .nil
  | k + 1 => by
    rw [List.replicate_succ, Nat.add_comm]
    exact (shows_printable henv (by decide) (by decide)).append (shows_spaces henv k)

/-- Entries one column wide each show as many columns as there are entries. -/
theorem shows_flatten : ∀ {line : List (List UInt8)}, (∀ col ∈ line, Shows env col 1) →
    Shows env line.flatten line.length
  | [], _ => .nil
  | col :: line, h => by
    rw [List.flatten_cons, List.length_cons, Nat.add_comm]
    exact (h col (List.mem_cons_self _ _)).append
      (shows_flatten fun c hc => h c (List.mem_cons_of_mem _ hc))

theorem OneColumn.shows {glifs : BorderGlifs} (henv : env.NarrowAscii) (hg : glifs.Narrow env)
    {col : List UInt8} : OneColumn glifs col → Shows env col 1 := by
  rintro (h | ⟨_, rfl, h1, h2⟩)
  exacts [hg _ h, shows_printable henv h1 h2]

/-- **A line of the table shows as many columns as it has entries.** -/
theorem TableLine.shows {glifs : BorderGlifs} {n : Nat} {line : List (List UInt8)}
    (henv : env.NarrowAscii) (hg : glifs.Narrow env) (h : TableLine glifs n line) :
    Shows env line.flatten n :=
  h.1 ▸ shows_flatten fun col hc => (h.2 col hc).shows henv hg

end Shows

/-! ### Text drawn raw -/

section Raw

variable {env : Env} {flags : RenderFlags}

/-- Two codepoints the decoder reads at the start of one text are the same. -/
theorem u8codepoint_append_inj {c c' t t' : List UInt8} {cp cp' : Nat}
    (hc : u8codepoint c = some (cp, c.length)) (hc' : u8codepoint c' = some (cp', c'.length))
    (h : c ++ t = c' ++ t') : c = c' ∧ t = t' ∧ cp = cp' := by
  have hdec := u8codepoint_take_append hc t
  rw [List.take_length, h, ← List.take_length (l := c'), u8codepoint_take_append hc'] at hdec
  obtain ⟨rfl, hlen⟩ := Prod.mk.inj (Option.some.inj hdec)
  exact ⟨(List.append_inj h hlen.symm).1, (List.append_inj h hlen.symm).2, rfl⟩

/-- A text drawn raw: its first codepoint has a width, and the rest is drawn raw. -/
theorem Raw.cons_inv {c t : List UInt8} {cp : Nat} (hc : u8codepoint c = some (cp, c.length))
    (h : Raw env flags (c ++ t)) :
    (∃ k, (if 1 < c.length ∧ flags.ascii then none else env.u8cpwidth cp) = some k) ∧
      Raw env flags t := by
  generalize hs : c ++ t = s at h
  cases h with
  | nil => exact absurd hs (append_ne_nil_of_u8codepoint hc t)
  | cons hc' hk hr =>
    obtain ⟨rfl, rfl, rfl⟩ := u8codepoint_append_inj hc hc' hs
    exact ⟨⟨_, hk⟩, hr⟩

theorem u8cpwidth_of_raw {c : List UInt8} {cp k : Nat}
    (hk : (if 1 < c.length ∧ flags.ascii then none else env.u8cpwidth cp) = some k) :
    env.u8cpwidth cp = some k := by
  split at hk
  · cases hk
  · exact hk

/-- Printable text is drawn raw. -/
theorem Printable.raw (henv : env.NarrowAscii) : ∀ {text : List UInt8}, Printable text →
    Raw env flags text
  | [], _ => .nil
  | b :: t, h => by
    have hb := h b (List.mem_cons_self _ _)
    have h80 : b.toNat < 0x80 := by have : b.toNat < 0x7F := hb.2; omega
    exact @Raw.cons _ _ [b] t _ 1 (u8codepoint_ascii h80 []) (by simp [henv b hb.1 hb.2])
      (Printable.raw henv fun x hx => h x (List.mem_cons_of_mem _ hx))

/-- The cells of the start of a text drawn raw are its bytes and show their width, and what
follows them is drawn raw. -/
theorem Cells.of_raw {pre : List UInt8} {cells : List (List UInt8 × Nat)}
    (hc : Cells env flags pre cells) : ∀ {post}, Raw env flags (pre ++ post) →
      Shows env (cellsText cells) (cellsWidth cells) ∧ Raw env flags post := by
  induction hc with
  | nil => intro _ h; exact ⟨.nil, h⟩
  | @cons c rest cp cells hdec _ ih =>
    intro post hraw
    rw [List.append_assoc] at hraw
    obtain ⟨⟨k, hk⟩, hr⟩ := hraw.cons_inv hdec
    have hcell : cpCell env flags c cp = (c, k) := by unfold cpCell; rw [hk]
    rw [cellsText_cons, cellsWidth_cons, hcell]
    exact ⟨.cons hdec (u8cpwidth_of_raw hk) (ih hr).1, (ih hr).2⟩

end Raw

/-! ### Lines in columns

The rules of a table put a corner glyph at the start of every column, and a row puts its
vertical border there.  `Framed` says a line is so divided: each column a glyph one column
wide, then a body as wide as the column.  Lines framed by the same widths have their glyphs
at the same terminal columns.
-/

/-- `line` is the columns `widths`, each opened by a glyph of `starts` one column wide and
filled by a body as wide as the column. -/
inductive Framed (env : Env) (starts : List (List UInt8)) : List Nat → List UInt8 → Prop
  | nil : Framed env starts [] []
  | cons {g body rest : List UInt8} {width : Nat} {widths : List Nat} : g ∈ starts →
      Shows env g 1 → Shows env body width → Framed env starts widths rest →
      Framed env starts (width :: widths) (g ++ body ++ rest)

/-- A line of a table with columns `widths`: the columns, each opened by a border glyph, then
the closing glyph and, when fields were dropped, the undersize marker. -/
def Aligned (env : Env) (glifs : BorderGlifs) (widths : List Nat) (undersize : Bool)
    (line : List UInt8) : Prop :=
  ∃ cols tail, line = cols ++ tail ∧ Framed env glifs.glyphs widths cols ∧
    Shows env tail (1 + if undersize then 1 else 0)

section Framed

variable {env : Env} {glifs : BorderGlifs}

theorem Framed.shows {starts : List (List UInt8)} {widths : List Nat} {cols : List UInt8}
    (h : Framed env starts widths cols) : Shows env cols (bordered widths) := by
  induction h with
  | nil => exact .nil
  | @cons _ _ _ width widths _ hg hbody _ ih =>
    have hcol := (hg.append hbody).append ih
    rwa [show 1 + width + bordered widths = bordered (width :: widths) by
      simp only [bordered]; omega] at hcol

/-- **A line of the table shows as many columns as a rule.** -/
theorem Aligned.shows {widths : List Nat} {undersize : Bool} {line : List UInt8}
    (h : Aligned env glifs widths undersize line) :
    Shows env line (lineWidth widths undersize) := by
  obtain ⟨cols, tail, rfl, hcols, htail⟩ := h
  rw [lineWidth, Nat.add_assoc]
  exact hcols.shows.append htail

theorem Aligned.shows_replicate {k cw : Nat} {undersize : Bool} {line : List UInt8}
    (h : Aligned env glifs (List.replicate k cw) undersize line) :
    Shows env line (k * (cw + 1) + 1 + if undersize then 1 else 0) := by
  rw [← bordered_replicate]
  exact h.shows

theorem ruleColumns_framed (hg : glifs.Narrow env) {corners : Corners} {line : CString}
    (hc : corners.left.1 ∈ glifs.glyphs ∧ corners.middle.1 ∈ glifs.glyphs)
    (hl : line.1 ∈ glifs.glyphs) :
    ∀ first widths, Framed env glifs.glyphs widths (ruleColumns corners line first widths).flatten
  | _, [] => .nil
  | first, width :: widths => by
    have hcorner : (if first then corners.left.1 else corners.middle.1) ∈ glifs.glyphs := by
      split
      exacts [hc.1, hc.2]
    have hrule : Shows env (List.replicate width line.1).flatten width := by
      have hflat := shows_flatten fun col (hcol : col ∈ List.replicate width line.1) =>
        List.eq_of_mem_replicate hcol ▸ hg _ hl
      rwa [List.length_replicate] at hflat
    have hcol := Framed.cons hcorner (hg _ hcorner) hrule (ruleColumns_framed hg hc hl false widths)
    rwa [ruleColumns, List.flatten_append, List.flatten_cons]

/-- **Every rule is a line of the table.** -/
theorem ruleLine_aligned (hg : glifs.Narrow env) (widths : List Nat) (position : HlinePosition)
    (undersize : Bool) :
    Aligned env glifs widths undersize (ruleLine glifs position undersize widths).flatten := by
  have hglyphs := hruleGlifs_glyphs glifs position
  rcases hrg : hruleGlifs glifs position with ⟨corners, line⟩
  rw [hrg] at hglyphs
  obtain ⟨⟨hl, hm, hr⟩, hline⟩ := hglyphs
  simp only [ruleLine, hrg, List.flatten_append]
  refine ⟨_, _, rfl, ruleColumns_framed hg ⟨hl, hm⟩ hline true widths, ?_⟩
  cases undersize
  · simpa using hg _ hr
  · simpa using (hg _ hm).append (hg _ hline)

end Framed

/-! ### Lines of a table -/

/-- The bytes of lines, each ended by a newline. -/
def linesBytes (lines : List (List UInt8)) : List UInt8 :=
  lines.flatMap fun line => line ++ [0x0A]

/-- A reliable world whose stream holds `o` and then whole lines, each one a `P` holds of,
and whose staging buffer keeps `c` bytes. -/
def ShownLines (P : List UInt8 → Prop) (c : Nat) (o : List UInt8) (w : World) : Prop :=
  ∃ lines : List (List UInt8), (∀ line ∈ lines, P line) ∧ Drawn c (o ++ linesBytes lines) w

namespace ShownLines

variable {α : Type} {P : List UInt8 → Prop} {c : Nat} {o : List UInt8} {E : Err → World → Prop}

theorem of_drawn {w : World} (h : Drawn c o w) : ShownLines P c o w :=
  ⟨[], nofun, by rwa [linesBytes, List.flatMap_nil, List.append_nil]⟩

/-- One more line. -/
theorem snoc {lines : List (List UInt8)} (hl : ∀ line ∈ lines, P line) {l : List UInt8}
    (hs : P l) {w : World} (hd : Drawn c (o ++ linesBytes lines ++ l ++ [0x0A]) w) :
    ShownLines P c o w :=
  ⟨lines ++ [l], fun x hx => (List.mem_append.mp hx).elim (hl x)
    fun h => List.mem_singleton.mp h ▸ hs, by
    simpa only [linesBytes, List.flatMap_append, List.flatMap_cons, List.flatMap_nil,
      List.append_nil, List.append_assoc] using hd⟩

/-- A call that keeps the stream keeps the lines. -/
theorem keep {m : RenderM α} {c' : Nat}
    (h : ∀ o', Triple (Drawn c o') m (fun _ => Drawn c' o') E) :
    Triple (ShownLines P c o) m (fun _ => ShownLines P c' o) E :=
  Triple.exists_pre fun lines => Triple.prop fun hl =>
    (h _).conseq (fun _ => id) (fun _ _ hw => ⟨lines, hl, hw⟩) fun _ _ => id

/-- A call that writes one line adds it to the lines. -/
theorem line {m : RenderM α}
    (h : ∀ o', Triple (Drawn c o') m (fun _ w => ∃ l, P l ∧ Drawn c (o' ++ l ++ [0x0A]) w) E) :
    Triple (ShownLines P c o) m (fun _ => ShownLines P c o) E :=
  Triple.exists_pre fun _ => Triple.prop fun hl => (h _).conseq (fun _ => id)
    (fun _ _ ⟨_, hs, hd⟩ => snoc hl hs hd) fun _ _ => id

end ShownLines

/-! ### A cell -/

section Cell

variable {c : Nat} {E : Err → World → Prop} {env : Env} {flags : RenderFlags}

/-- **The cell of a text drawn raw shows exactly its width**, and `render_field` consumes a
start of the text whose rest is drawn raw. -/
theorem renderField_cut (henv : env.NarrowAscii) {text : List UInt8} (ht : Raw env flags text)
    (rest : List UInt8) (width : Nat) (o : List UInt8) :
    Triple (Drawn c o) (renderField env (text ++ rest) text.length width flags)
      (fun r w => ∃ pre post, text = pre ++ post ∧ r = pre.length ∧ Raw env flags post ∧
        ∃ cell, Shows env cell width ∧ Drawn c (o ++ cell) w) E := by
  refine ((renderField_safe env _ _ _).drawn (Q := fun r w => ∃ pre post, text = pre ++ post ∧
    r = pre.length ∧ Raw env flags post ∧ ∃ cell, Shows env cell width ∧ Wrote (o ++ cell) w)
      ?_).conseq (fun _ => id) (fun _ _ ⟨⟨pre, post, h1, h2, h3, cell, hs, hw⟩, hc⟩ =>
        ⟨pre, post, h1, h2, h3, cell, hs, hw, hc⟩) fun _ _ => id
  refine (renderFieldLoop_raw env ht (List.drop_zero _) (Nat.zero_add _) le_rfl
    (Nat.zero_le width)).bind fun r =>
      Triple.exists_pre fun pre => Triple.exists_pre fun post => Triple.exists_pre fun cells =>
        Triple.prop fun hsplit => Triple.prop fun hc => Triple.prop fun _ =>
          Triple.prop fun hwidth => Triple.prop fun _ => Triple.prop fun hr => ?_
  subst hr
  obtain ⟨hshows, hpost⟩ := hc.of_raw (hsplit ▸ ht)
  have hs := hshows.append (shows_spaces henv (width - (0 + cellsWidth cells)))
  rw [show cellsWidth cells + (width - (0 + cellsWidth cells)) = width by omega] at hs
  exact (padSpaces_wrote _ _).bind fun _ => Triple.pure fun _ hw =>
    ⟨pre, post, hsplit, Nat.zero_add _, hpost, _, hs, by rwa [List.append_assoc] at hw⟩

/-- ... and leaves a text pointer reading what it read. -/
theorem renderField_cut_kept (henv : env.NarrowAscii) {text : List UInt8}
    (ht : Raw env flags text) (rest : List UInt8) (width : Nat) (o : List UInt8) (s : Src)
    (mem : List UInt8) :
    Triple (fun w => s.read w = mem ∧ Drawn c o w)
      (renderField env (text ++ rest) text.length width flags)
      (fun r w => ∃ pre post, text = pre ++ post ∧ r = pre.length ∧ Raw env flags post ∧
        ∃ cell, Shows env cell width ∧ s.read w = mem ∧ Drawn c (o ++ cell) w) E :=
  ((renderField_cut henv ht rest width o).and
    ((renderField_records env _ _ _ flags).read s mem)).conseq (fun _ h => ⟨h.2, h.1⟩)
      (fun _ _ ⟨⟨pre, post, h1, h2, h3, cell, hs, hd⟩, hread⟩ =>
        ⟨pre, post, h1, h2, h3, cell, hs, hread, hd⟩) fun _ _ h => h.1

end Cell

/-! ### An escape above U+FFFF

`render_field` counts an escape as many columns as its length, ten for `\U` and eight digits.
Above U+FFFF the code writes nine of them and a NUL (`writeUnprintable_escape`), which the
width table counts as no column: the cell comes out one column short, and its row one
column narrower than the rules.  Under `NEO4J_RENDER_ASCII` every character outside the Basic
Multilingual Plane, every emoji among them, is escaped so.
-/

section Astral

variable {env : Env} {flags : RenderFlags}

theorem escapeOf_astral {cp : Nat} (h : 0xFFFF < cp) :
    escapeOf cp = 0x5C :: 0x55 :: hexDigits 8 cp := by
  unfold escapeOf
  split <;> first | omega | rw [if_neg (by omega)]

/-- Printable text shows one column a byte. -/
theorem Printable.shows (henv : env.NarrowAscii) : ∀ {text : List UInt8}, Printable text →
    Shows env text text.length
  | [], _ => .nil
  | b :: t, h => by
    rw [List.length_cons, Nat.add_comm]
    have hb := h b (List.mem_cons_self _ _)
    exact (shows_printable henv hb.1 hb.2).append
      (Printable.shows henv fun x hx => h x (List.mem_cons_of_mem _ hx))

/-- **The cell of a codepoint above U+FFFF that `render_field` escapes shows one column
fewer than its width**, on a terminal that gives NUL no column, in every cell the escape
fits. -/
theorem renderField_astral_escape_short (henv : env.NarrowAscii)
    (hnul : env.u8cpwidth 0 = some 0) {c : List UInt8} {cp : Nat}
    (hc : u8codepoint c = some (cp, c.length))
    (hesc : (if 1 < c.length ∧ flags.ascii then none else env.u8cpwidth cp) = none)
    (hcp : 0xFFFF < cp) {width : Nat} (hwidth : 10 ≤ width) (rest : List UInt8) {w : World}
    (hw : w.Reliable) :
    ∃ w' cell, renderField env (c ++ rest) c.length width flags w = .ok c.length w' ∧
      w'.out = w.out ++ cell ∧ Shows env cell (width - 1) := by
  obtain ⟨hn, htake⟩ := unprintableReplacement_escape cp
  have h10 : (escapeOf cp).length = 10 := by simp [escapeOf_astral hcp]
  have hcell : cpCell env flags c cp = ((escapeOf cp).take 9 ++ [0], 10) := by
    unfold cpCell
    rw [hesc]
    dsimp only
    rw [hn, h10, htake 10 h10.ge, if_neg (by omega), List.take_of_length_le (by simp [h10])]
  have hcells : Cells env flags c [((escapeOf cp).take 9 ++ [0], 10)] := by
    simpa [hcell] using (Cells.cons hc .nil : Cells env flags (c ++ []) _)
  obtain ⟨r, w', hrun, rfl, hw'⟩ := (renderField_through env (E := fun _ _ => False) (q := rest)
    hcells le_rfl (show Fits width 0 _ from ⟨by omega, by omega, trivial⟩) (by simp) w.out).ok_of
      ⟨hw, rfl⟩
  refine ⟨w', _, hrun, by rw [hw'.2, List.append_assoc], ?_⟩
  have hs := ((Printable.take (escapeOf_printable cp) 9).shows henv).append
    ((Shows.single (u8codepoint_ascii (show (0 : UInt8) < 0x80 by decide) []) hnul).append
      (shows_spaces henv (width - 10)))
  simp only [cellsText_cons, cellsText_nil, cellsWidth_cons, cellsWidth_nil, List.append_nil,
    List.append_assoc, Nat.add_zero]
  rwa [List.length_take, h10, show min 9 10 + (0 + (width - 10)) = width - 1 by omega] at hs

/-- U+1F600 under `NEO4J_RENDER_ASCII` in a cell ten wide shows nine columns. -/
theorem renderField_astral_escape_short_grin :
    Env.utf8Terminal.u8cpwidth 0 = some 0 ∧
      u8codepoint [0xF0, 0x9F, 0x98, 0x80] = some (0x1F600, [0xF0, 0x9F, 0x98, 0x80].length) ∧
      (if 1 < [0xF0, 0x9F, 0x98, 0x80].length ∧ asciiFlags.ascii then none
        else Env.utf8Terminal.u8cpwidth 0x1F600) = none ∧ 0xFFFF < 0x1F600 ∧ 10 ≤ 10 ∧
      World.init.Reliable ∧
      ∃ w' cell, renderField Env.utf8Terminal ([0xF0, 0x9F, 0x98, 0x80] ++ []) 4 10 asciiFlags
          World.init = .ok 4 w' ∧ w'.out = World.init.out ++ cell ∧
        Shows Env.utf8Terminal cell (10 - 1) :=
  ⟨rfl, by decide, by decide, by decide, le_rfl, fun _ => rfl,
    renderField_astral_escape_short Env.utf8Terminal_narrowAscii rfl
      (by decide : u8codepoint [0xF0, 0x9F, 0x98, 0x80] = some (0x1F600, 4)) (by decide)
      (by decide) le_rfl [] fun _ => rfl⟩

end Astral

/-! ### A row -/

/-- A `fields` entry in memory of its own whose `n` bytes are drawn raw, whatever follows
them. -/
def RawEntry (env : Env) (flags : RenderFlags) (p : Pending) : Prop :=
  ∃ text rest, p.src = .stable (text ++ rest) ∧ p.n = text.length ∧ Raw env flags text

/-- Every column at least two wide, and its entry drawn raw. -/
def RawEntries (env : Env) (flags : RenderFlags) (widths : List Nat) (ps : List Pending) :
    Prop :=
  List.Forall₂ (fun width p => 2 ≤ width ∧ RawEntry env flags p) widths ps

section Row

variable {c : Nat} {E : Err → World → Prop} {env : Env} {flags : RenderFlags}
  {glifs : BorderGlifs}

theorem rawEntry_empty : RawEntry env flags Pending.empty := ⟨[], [], rfl, rfl, .nil⟩

theorem shows_space (henv : env.NarrowAscii) : Shows env [0x20] 1 :=
  shows_printable henv (by decide) (by decide)

theorem BorderGlifs.Narrow.verticalLine (hg : glifs.Narrow env) :
    Shows env glifs.verticalLine.1 1 :=
  hg _ (by simp [BorderGlifs.glyphs])

theorem BorderGlifs.Narrow.overflow (hg : glifs.Narrow env) : Shows env glifs.overflow.1 1 :=
  hg _ (by simp [BorderGlifs.glyphs])

/-- The first column loop of `render_row`, on texts drawn raw, draws the columns framed by the
vertical border, and leaves in every column an entry drawn raw; nothing is left to wrap
unless values are wrapped. -/
theorem renderRowFirst_entries (henv : env.NarrowAscii) (hg : glifs.Narrow env)
    {callback : Nat → RenderM FieldText} {text : Nat → List UInt8}
    (ht : ∀ j, Raw env flags (text j)) :
    ∀ i widths o, (∀ x ∈ widths, 2 ≤ x) →
      (widths ≠ [] → Hands c E callback text ∧ Unstaged callback) →
      Triple (Drawn c o) (renderRowFirst env flags glifs (some callback) i widths)
        (fun r w => (flags.wrapValues = false → r.2 = false) ∧ RawEntries env flags widths r.1 ∧
          ∃ cols, Framed env glifs.glyphs widths cols ∧ Drawn c (o ++ cols) w) E
  | _, [], _, _, _ =>
    Triple.pure fun _ hw => ⟨fun _ => rfl, .nil, [], .nil, by rwa [List.append_nil]⟩
  | i, width :: widths, o, hw, hcb => by
    have h2 := hw width (List.mem_cons_self _ _)
    have hrest := fun o => renderRowFirst_entries henv hg ht (i + 1) widths o
      (fun x hx => hw x (List.mem_cons_of_mem _ hx)) fun _ => hcb (List.cons_ne_nil _ _)
    obtain ⟨hhands, hown⟩ := hcb (List.cons_ne_nil _ _)
    rw [renderRowFirst, if_neg (by omega)]
    refine (orFail_fwrite_drawn _ o).bind fun _ => (orFail_fwrite_drawn _ _).bind fun _ => ?_
    rw [cAssert_of_true h2, pure_bind]
    refine (hhands.unstaged hown i _).bind fun f => Triple.prop fun hn => Triple.prop fun hdup =>
      Triple.exists_pre fun rest => ?_
    refine ((readSrc_spec (Q := fun mem w => mem = text i ++ rest ∧
      (f.src.read w = text i ++ rest ∧ Drawn c _ w)) f.src).pre fun _ h => ⟨h.1, h⟩).bind
        fun mem => Triple.prop fun hmem => ?_
    subst hmem
    rw [hn]
    refine (renderField_cut_kept henv (ht i) rest (width - 2) _ f.src _).bind fun _ =>
      Triple.exists_pre fun pre => Triple.exists_pre fun post => Triple.prop fun hsplit =>
        Triple.prop fun hc => Triple.prop fun hpost => Triple.exists_pre fun cell =>
          Triple.prop fun hcell => ?_
    subst hc
    -- a space after a text that fits; the overflow glyph, and what is left, after one that
    -- does not
    refine Triple.bind (Q := fun p w => (flags.wrapValues = false → p = none) ∧
        RawEntry env flags (p.getD Pending.empty) ∧ ∃ sep, Shows env sep 1 ∧
          Drawn c (o ++ glifs.verticalLine.1 ++ [0x20] ++ cell ++ sep) w)
      (Triple.ite (fun _ => ?_) fun _ => ?_) fun p => Triple.prop fun hp =>
        Triple.prop fun hpe => Triple.exists_pre fun sep => Triple.prop fun hsep =>
          (hrest _).bind fun _ => Triple.prop fun hwr => Triple.prop fun hps =>
            Triple.pure fun _ ⟨cols, hs, hd⟩ => ⟨fun h => by simp [hp h, hwr h],
              .cons ⟨h2, hpe⟩ hps, glifs.verticalLine.1 ++ ([0x20] ++ cell ++ sep) ++ cols, ?_,
              by simpa only [List.append_assoc] using hd⟩
    · exact ((orFail_fwrite_drawn _ _).pre fun _ h => h.2).bind fun _ =>
        Triple.pure fun _ hw => ⟨fun _ => rfl, rawEntry_empty, _, shows_space henv, hw⟩
    · refine (orFail_fwrite_drawn_read _ _ f.src _).bind fun _ => Triple.ite (fun hwrap => ?_)
        fun _ => Triple.pure fun _ hw => ⟨fun _ => rfl, rawEntry_empty, _, hg.overflow, hw.2⟩
      have hwrap' : flags.wrapValues = false → False := fun h => absurd (h.symm.trans hwrap) nofun
      refine Triple.map ?_
      unfold keepRest
      rw [hn]
      by_cases hd : f.duplicate = true
      · rw [if_pos hd]
        refine ((readSrc_spec (Q := fun mem w => mem = (text i ++ rest).drop pre.length ∧
          Drawn c _ w) _).pre fun _ h => ⟨by rw [Src.read_advance, h.1], h.2⟩).bind fun mem =>
            Triple.prop fun hm => (orFail_attempt_drawn (.inr rfl) _).bind fun _ =>
              Triple.pure fun _ hw => ⟨fun h => (hwrap' h).elim,
                ⟨post, [], ?_, by simp [hsplit], hpost⟩, _, hg.overflow, hw⟩
        subst hm
        simp [hsplit]
      · rw [if_neg hd]
        obtain ⟨mem, hmem⟩ := hdup (by simpa using hd)
        refine Triple.pure fun _ hw => ⟨fun h => (hwrap' h).elim,
          ⟨post, rest, ?_, by simp [hsplit], hpost⟩, _, hg.overflow, hw.2⟩
        have hread := hw.1
        rw [hmem] at hread ⊢
        subst hread
        simp [Src.advance, hsplit]
    · have hbody := ((shows_space henv).append hcell).append hsep
      rw [show 1 + (width - 2) + 1 = width by omega] at hbody
      exact .cons (by simp [BorderGlifs.glyphs]) hg.verticalLine hbody hs

/-- One turn of `while (wrap)`, on entries drawn raw, draws the columns framed by the vertical
border, and leaves entries drawn raw. -/
theorem renderRowWrapLine_shows (henv : env.NarrowAscii) (hg : glifs.Narrow env)
    {widths : List Nat} {ps : List Pending} (hps : RawEntries env flags widths ps)
    (o : List UInt8) :
    Triple (Drawn c o) (renderRowWrapLine env flags glifs widths ps)
      (fun r w => RawEntries env flags widths r.1 ∧
        ∃ cols, Framed env glifs.glyphs widths cols ∧ Drawn c (o ++ cols) w) E := by
  induction hps generalizing o with
  | nil => exact Triple.pure fun _ hw => ⟨.nil, [], .nil, by rwa [List.append_nil]⟩
  | @cons width p widths ps hhead _ ih =>
    obtain ⟨h2, text, rest, hsrc, hn, htext⟩ := hhead
    rw [renderRowWrapLine, if_neg (by omega), cAssert_of_true h2, pure_bind, hsrc, hn]
    have hopen : Shows env (if 0 < text.length then glifs.overflow else space).1 1 := by
      split_ifs
      exacts [hg.overflow, shows_space henv]
    refine (orFail_fwrite_drawn _ o).bind fun _ => (orFail_fwrite_drawn _ _).bind fun _ => ?_
    refine ((readSrc_spec (Q := fun mem w => mem = text ++ rest ∧ Drawn c _ w)
      (.stable (text ++ rest))).pre fun _ h => ⟨rfl, h⟩).bind fun mem =>
        Triple.prop fun hmem => ?_
    subst hmem
    refine (renderField_cut henv htext rest (width - 2) _).bind fun _ =>
      Triple.exists_pre fun pre => Triple.exists_pre fun post => Triple.prop fun hsplit =>
        Triple.prop fun hc => Triple.prop fun hpost => Triple.exists_pre fun cell =>
          Triple.prop fun hcell => ?_
    subst hc
    refine Triple.bind (Q := fun p' w => RawEntry env flags (p'.getD p) ∧ ∃ sep, Shows env sep 1 ∧
        Drawn c (o ++ glifs.verticalLine.1 ++ (if 0 < text.length then glifs.overflow else space).1 ++
          cell ++ sep) w)
      (Triple.ite (fun _ => ?_) fun _ => ?_) fun p' => Triple.prop fun hp' =>
        Triple.exists_pre fun sep => Triple.prop fun hsep => (ih _).bind fun _ =>
          Triple.prop fun hps' => Triple.pure fun _ ⟨cols, hs, hd⟩ =>
            ⟨.cons ⟨h2, hp'⟩ hps', glifs.verticalLine.1 ++
              ((if 0 < text.length then glifs.overflow else space).1 ++ cell ++ sep) ++ cols, ?_,
              by simpa only [List.append_assoc] using hd⟩
    · exact (orFail_fwrite_drawn _ _).bind fun _ => Triple.pure fun _ hw =>
        ⟨⟨text, rest, hsrc, hn, htext⟩, _, shows_space henv, hw⟩
    · exact (orFail_fwrite_drawn _ _).bind fun _ => Triple.pure fun _ hw =>
        ⟨⟨post, rest, by simp [Src.advance, hsplit], by simp [hsplit], hpost⟩, _, hg.overflow, hw⟩
    · have hbody := (hopen.append hcell).append hsep
      rw [show 1 + (width - 2) + 1 = width by omega] at hbody
      exact .cons (by simp [BorderGlifs.glyphs]) hg.verticalLine hbody hs

/-- The end of a line: the closing border and the undersize marker, one column each. -/
theorem renderRowEnd_aligned (hg : glifs.Narrow env) {widths : List Nat} {cols : List UInt8}
    (hcols : Framed env glifs.glyphs widths cols) (undersize : Bool) (o : List UInt8) :
    Triple (Drawn c (o ++ cols)) (renderRowEnd glifs undersize)
      (fun _ w => ∃ l, Aligned env glifs widths undersize l ∧ Drawn c (o ++ l ++ [0x0A]) w) E := by
  have hend : Shows env (if undersize then glifs.overflow.1 else [])
      (if undersize then 1 else 0) := by
    split_ifs
    exacts [hg.overflow, .nil]
  exact (renderRowEnd_drawn glifs undersize _).conseq (fun _ => id)
    (fun _ _ hd => ⟨_, ⟨cols, _, rfl, hcols, hg.verticalLine.append hend⟩,
      by simpa only [List.append_assoc] using hd⟩) fun _ _ => id

/-- **The continuation loop draws whole lines of the table**, one a turn, for as long as it
runs. -/
theorem renderRowWrap_adds (henv : env.NarrowAscii) (hg : glifs.Narrow env)
    (hE : ∀ w, E .outOfFuel w) {widths : List Nat} (undersize : Bool) (o : List UInt8) :
    ∀ fuel ps, RawEntries env flags widths ps →
      Triple (ShownLines (Aligned env glifs widths undersize) c o)
        (renderRowWrap env flags glifs widths undersize fuel ps)
        (fun _ => ShownLines (Aligned env glifs widths undersize) c o) E
  | 0, _, _ => Triple.throw fun w _ => hE w
  | fuel + 1, _, hps => Triple.exists_pre fun _ => Triple.prop fun hl =>
    (renderRowWrapLine_shows henv hg hps _).bind fun ⟨ps', _⟩ => Triple.prop fun hps' =>
      Triple.exists_pre fun _ => Triple.prop fun hcols =>
        (renderRowEnd_aligned hg hcols undersize _).bind fun _ =>
          (Triple.ite (fun _ => renderRowWrap_adds henv hg hE undersize o fuel ps' hps')
            fun _ => Triple.pure fun _ => id).pre fun _ ⟨_, hs, hd⟩ => ShownLines.snoc hl hs hd

end Row

section Rows

variable {c : Nat} {E : Err → World → Prop} {env : Env} {flags : RenderFlags}

/-- **`render_row`, on texts drawn raw, draws whole lines of the table**: one when values are
not wrapped, and with them every continuation line. -/
theorem renderRow_adds (henv : env.NarrowAscii) (hg : (glifsForEncoding flags).Narrow env)
    (hE : flags.wrapValues = true → ∀ w, E .outOfFuel w) (fuel : Nat) {widths : List Nat}
    (hw : ∀ x ∈ widths, 2 ≤ x) (undersize : Bool) {callback : Nat → RenderM FieldText}
    {text : Nat → List UInt8} (ht : ∀ j, Raw env flags (text j))
    (hcb : widths ≠ [] → Hands c E callback text ∧ Unstaged callback) (o : List UInt8) :
    Triple (ShownLines (Aligned env (glifsForEncoding flags) widths undersize) c o)
      (renderRow env fuel widths undersize flags (some callback))
      (fun _ => ShownLines (Aligned env (glifsForEncoding flags) widths undersize) c o) E := by
  unfold renderRow
  refine Triple.exists_pre fun lines => Triple.prop fun hl => ?_
  refine (Triple.ite (fun _ => orFail_attempt_drawn (.inr rfl) _) fun _ =>
    Triple.pure (Q := fun _ => Drawn c (o ++ linesBytes lines)) fun _ => id).bind fun _ => ?_
  refine (renderRowFirst_entries henv hg ht 0 widths _ hw hcb).bind fun ⟨fields, wrap⟩ =>
    Triple.prop fun hr => Triple.prop fun hps => Triple.exists_pre fun _ =>
      Triple.prop fun hcols => (renderRowEnd_aligned hg hcols undersize _).bind fun _ => ?_
  refine (Triple.ite (fun hwrap => renderRowWrap_adds henv hg (hE ?_) undersize o fuel fields hps)
    fun _ => Triple.pure fun _ => id).pre fun _ ⟨_, hs, hd⟩ => ShownLines.snoc hl hs hd
  cases h : flags.wrapValues
  · exact absurd (hr h) (by simp [hwrap])
  · rfl

/-- `render_hrule` draws a line of the table. -/
theorem renderHrule_aligned (hg : (glifsForEncoding flags).Narrow env) {widths : List Nat}
    (hw : ∀ x ∈ widths, x ≠ 0) (position : HlinePosition) (undersize : Bool) (o : List UInt8) :
    Triple (Drawn c o) (renderHrule widths position undersize flags)
      (fun _ w => ∃ l, Aligned env (glifsForEncoding flags) widths undersize l ∧
        Drawn c (o ++ l ++ [0x0A]) w) E :=
  (renderHrule_drawn hw position undersize flags o).conseq (fun _ => id)
    (fun _ _ hd => ⟨_, ruleLine_aligned hg widths position undersize,
      by rwa [lineBytes, ← List.append_assoc] at hd⟩) fun _ _ => id

/-- `neo4j_render_table`'s loop over the rows draws whole lines of the table. -/
theorem renderTableRows_adds (henv : env.NarrowAscii) (hg : (glifsForEncoding flags).Narrow env)
    (hE : flags.wrapValues = true → ∀ w, E .outOfFuel w) {fuel : Nat} (hfuel : 2 ≤ fuel)
    {widths : List Nat} (hw : ∀ x ∈ widths, 2 ≤ x) (hc : widths ≠ [] → 0 < c) (undersize : Bool)
    (o : List UInt8) :
    ∀ first rows, (∀ row ∈ rows, ∀ j, Raw env flags (rowText flags row j)) →
      Triple (ShownLines (Aligned env (glifsForEncoding flags) widths undersize) c o)
        (renderTableRows env fuel widths undersize flags first rows)
        (fun _ => ShownLines (Aligned env (glifsForEncoding flags) widths undersize) c o) E
  | _, [], _ => Triple.pure fun _ => id
  | _, row :: rows, hr =>
    (Triple.ite (fun _ => ShownLines.line fun _ =>
        renderHrule_aligned hg (fun x hx => by have := hw x hx; omega) _ _ _)
      fun _ => Triple.pure fun _ => id).bind fun _ =>
    (renderRow_adds henv hg hE fuel hw undersize (hr row (List.mem_cons_self _ _))
      (fun hne => ⟨obtainResultField_hands hfuel (hc hne) flags row,
        obtainResultField_unstaged fuel flags row⟩) o).bind fun _ =>
    renderTableRows_adds henv hg hE hfuel hw hc undersize o false rows
      fun r hr' => hr r (List.mem_cons_of_mem _ hr')

end Rows

/-! ### The table -/

/-- What the table renderer needs to draw a table the terminal shows square: a width table
that counts printable ASCII and the border glyphs one column, enough fuel for a value's one
`realloc`, a stream that does not fail, a width in range, and names and texts that
`render_field` draws raw. -/
structure Showable (env : Env) (fuel : Nat) (results : ResultStream) (width : Nat)
    (flags : RenderFlags) : Prop where
  narrow : env.NarrowAscii
  glifs : (glifsForEncoding (normalizeRenderFlags env.codeset flags)).Narrow env
  fuel : 2 ≤ fuel
  failure : results.failure = 0
  failureAtEnd : results.failureAtEnd = 0
  width : 1 < width ∧ width < env.maxWidth
  names : ∀ name ∈ results.fieldnames, Raw env (normalizeRenderFlags env.codeset flags) name.1
  values : ∀ row ∈ results.rows, ∀ v ∈ row,
    Raw env (normalizeRenderFlags env.codeset flags) (cellText flags v)

/-- `neo4j_render_table` draws whole lines of the table, for as long as it runs. -/
theorem renderTable_lines {env : Env} {fuel : Nat} {results : ResultStream} {width : Nat}
    {flags : RenderFlags} (hs : Showable env fuel results width flags) {E : Err → World → Prop}
    (hE : flags.wrapValues = true → ∀ w, E .outOfFuel w) {k cw : Nat} {u : Bool}
    (hfit : fitColumns width results.nfields (columnWidthFor width results.nfields) false =
      (k, cw, u)) (o : List UInt8) :
    Triple (Drawn 0 o) (renderTable env fuel results width flags)
      (fun _ => ShownLines (Aligned env (glifsForEncoding (normalizeRenderFlags env.codeset flags))
        (List.replicate k cw) u) 0 o) E := by
  unfold renderTable
  rw [require_of_true hs.width, pure_bind]
  refine (checkResults_drawn hs.failure o).bind fun _ => ?_
  by_cases hn : results.nfields = 0
  · rw [if_pos hn]
    exact Triple.pure fun _ => ShownLines.of_drawn
  rw [if_neg hn]
  dsimp only
  rw [hfit]
  dsimp only
  have hwide := fitColumns_wide hfit
  have hw := fitColumns_widths hfit
  have hw0 : ∀ x ∈ List.replicate k cw, x ≠ 0 := fun x hx => by have := hw x hx; omega
  have hcap : List.replicate k cw ≠ [] → 0 < cw := fun hne => by
    rcases hwide with rfl | h
    · exact absurd rfl hne
    · omega
  have hE' : (normalizeRenderFlags env.codeset flags).wrapValues = true → ∀ w, E .outOfFuel w := by
    rw [normalizeRenderFlags_wrapValues]; exact hE
  have hnames : ∀ j, Raw env (normalizeRenderFlags env.codeset flags) (results.fieldname j) :=
    forall_getD (P := fun name : CString => Raw env _ name.1) .nil hs.names
  have hrows : ∀ row ∈ results.rows, ∀ j,
      Raw env (normalizeRenderFlags env.codeset flags)
        (rowText (normalizeRenderFlags env.codeset flags) row j) := fun row hrow j => by
    rw [rowText_normalize]
    exact forall_getD (P := fun v => Raw env _ (cellText flags v))
      (by simp only [cellText_default]; exact .nil) (hs.values row hrow) j
  rw [cAssert_of_true hwide.symm, pure_bind]
  refine (Triple.ite (fun _ => orFail_attempt_drawn (.inr rfl) o)
    fun _ => Triple.pure (Q := fun _ => Drawn 0 o) fun _ => id).bind fun _ => ?_
  refine Triple.bind ?_ fun _ => ShownLines.keep fun o' => orFail_attempt_drawn (.inl rfl) o'
  set glifs := glifsForEncoding (normalizeRenderFlags env.codeset flags)
  -- in the body, the only failure is the model's fuel running out
  have hF : (normalizeRenderFlags env.codeset flags).wrapValues = true →
      ∀ w, (fun e w => e = .outOfFuel ∧ E e w) .outOfFuel w := fun h w => ⟨rfl, hE' h w⟩
  refine Triple.onFailure (F := fun e w => e = .outOfFuel ∧ E e w) ?_ (fun _ h => nomatch h.1)
    fun _ _ _ h => h.2
  refine ((newBuffer_spec
    (Q := fun _ => ShownLines (Aligned env glifs (List.replicate k cw) u) cw o) cw).pre
    fun _ hw => .of_drawn ⟨hw.1, le_rfl⟩).bind fun _ =>
      Triple.conseq (Q := fun _ => ShownLines (Aligned env glifs (List.replicate k cw) u) cw o) ?_
        (fun _ => id) (fun _ _ ⟨lines, hl, hd⟩ => ⟨lines, hl, hd.1, Nat.zero_le _⟩) fun _ _ => id
  exact (Triple.ite (fun _ => ShownLines.keep fun o' => orFail_attempt_drawn (.inr rfl) o')
    fun _ => Triple.pure fun _ => id).bind fun _ =>
    (ShownLines.line fun _ => renderHrule_aligned hs.glifs hw0 _ _ _).bind fun _ =>
    (renderRow_adds hs.narrow hs.glifs hF fuel hw _ hnames
      (fun _ => ⟨obtainFieldname_hands results, obtainFieldname_unstaged results⟩) _).bind
      fun _ =>
    (ShownLines.line fun _ => renderHrule_aligned hs.glifs hw0 _ _ _).bind fun _ =>
    (renderTableRows_adds hs.narrow hs.glifs hF hs.fuel hw hcap _ o true _ hrows).bind
      fun _ => (ShownLines.keep fun o' => checkResults_drawn hs.failureAtEnd o').bind fun _ =>
        ShownLines.line fun _ => renderHrule_aligned hs.glifs hw0 _ _ _

/-- **Every line `neo4j_render_table` writes shows `k * (cw + 1) + 1` columns on the
terminal**, one more with the undersize marker, rules and rows alike, where the width budget
keeps `k` columns `cw` wide, for every text `render_field` draws raw: wide characters and
combining marks included, as long as the border glyphs take one column each. -/
theorem renderTable_shows_rectangular {env : Env} {fuel : Nat} {results : ResultStream}
    {width : Nat} {flags : RenderFlags} (hs : Showable env fuel results width flags)
    (hunwrapped : flags.wrapValues = false) {k cw : Nat} {u : Bool}
    (hfit : fitColumns width results.nfields (columnWidthFor width results.nfields) false =
      (k, cw, u)) {w : World} (hw : w.Reliable) :
    ∃ (w' : World) (lines : List (List UInt8)),
      renderTable env fuel results width flags w = .ok () w' ∧
      w'.out = w.out ++ linesBytes lines ∧
      ∀ line ∈ lines, Shows env line (k * (cw + 1) + 1 + if u then 1 else 0) ∧
        Aligned env (glifsForEncoding (normalizeRenderFlags env.codeset flags))
          (List.replicate k cw) u line := by
  obtain ⟨⟨⟩, w', hrun, lines, hl, hd⟩ := (renderTable_lines (E := fun _ _ => False) hs
    (fun h => absurd (hunwrapped.symm.trans h) nofun) hfit w.out).ok_of ⟨⟨hw, rfl⟩, Nat.zero_le _⟩
  exact ⟨w', lines, hrun, hd.1.2, fun l hl' => ⟨(hl l hl').shows_replicate, hl l hl'⟩⟩

/-- A stream with the field `name` and one row, the string `日本語`. -/
def nihongoResults : ResultStream :=
  ⟨[⟨bytesOf "name", by decide⟩], [[⟨.string, nihongo, [0x22] ++ nihongo ++ [0x22]⟩]], 0, 0,
    by decide⟩

/-- The stream's name is printable and its value is `日本語`, drawn raw whenever
`NEO4J_RENDER_ASCII` is not set. -/
theorem nihongoResults_raw (flags : RenderFlags) (h : flags.ascii = false)
    (hq : flags.quoteStrings = false) :
    (∀ name ∈ nihongoResults.fieldnames, Raw Env.utf8Terminal flags name.1) ∧
      ∀ row ∈ nihongoResults.rows, ∀ v ∈ row, Raw Env.utf8Terminal flags (cellText flags v) := by
  refine ⟨fun name hname => ?_, fun row hrow v hv => ?_⟩
  · simp only [nihongoResults, List.mem_singleton] at hname
    subst hname
    exact Printable.raw Env.utf8Terminal_narrowAscii (by decide)
  · simp only [nihongoResults, List.mem_singleton] at hrow
    subst hrow
    simp only [List.mem_singleton] at hv
    subst hv
    simpa [cellText, hq] using nihongo_raw flags h

/-- The stream in nine columns with box-drawing glyphs: one column seven wide, whose cell of
five takes `日本` and a space; every line shows eight columns. -/
theorem renderTable_shows_rectangular_nihongo :
    Showable Env.utf8Terminal 2 nihongoResults 9 boxFlags ∧ boxFlags.wrapValues = false ∧
      fitColumns 9 nihongoResults.nfields (columnWidthFor 9 nihongoResults.nfields) false =
        (1, 7, false) ∧ World.init.Reliable ∧
      ∃ (w' : World) (lines : List (List UInt8)),
        renderTable Env.utf8Terminal 2 nihongoResults 9 boxFlags World.init = .ok () w' ∧
        w'.out = World.init.out ++ linesBytes lines ∧
        ∀ line ∈ lines, Shows Env.utf8Terminal line (1 * (7 + 1) + 1 + if false then 1 else 0) ∧
          Aligned Env.utf8Terminal
            (glifsForEncoding (normalizeRenderFlags Env.utf8Terminal.codeset boxFlags))
            (List.replicate 1 7) false line :=
  have hs : Showable Env.utf8Terminal 2 nihongoResults 9 boxFlags :=
    ⟨Env.utf8Terminal_narrowAscii, BorderGlifs.narrow_of_all (by decide), by decide, rfl, rfl,
      by decide, (nihongoResults_raw _ rfl rfl).1, (nihongoResults_raw _ rfl rfl).2⟩
  ⟨hs, rfl, rfl, fun _ => rfl, renderTable_shows_rectangular hs rfl rfl fun _ => rfl⟩

/-- **With values wrapped, too, every line `neo4j_render_table` writes shows
`k * (cw + 1) + 1` columns on the terminal**, one more with the undersize marker, the
continuation lines included, and the table is written whole: in cells at least two columns
wide no codepoint the width table allows is too wide, and fuel beyond the bytes of a row
sees every row to its end. -/
theorem renderTable_wrapped_shows_rectangular {env : Env} {fuel : Nat} {results : ResultStream}
    {width : Nat} {flags : RenderFlags} (hs : Showable env fuel results width flags)
    (htwo : env.AtMostTwoColumns) {k cw : Nat} {u : Bool}
    (hfit : fitColumns width results.nfields (columnWidthFor width results.nfields) false =
      (k, cw, u)) (hroom : k = 0 ∨ 4 ≤ cw) {B : Nat}
    (hnames : ∀ name ∈ results.fieldnames, name.1.length ≤ B)
    (hvalues : ∀ row ∈ results.rows, ∀ v ∈ row, (cellText flags v).length ≤ B)
    (hB : k * B < fuel) {w : World} (hw : w.Reliable) :
    ∃ (w' : World) (lines : List (List UInt8)),
      renderTable env fuel results width flags w = .ok () w' ∧
      w'.out = w.out ++ linesBytes lines ∧
      ∀ line ∈ lines, Shows env line (k * (cw + 1) + 1 + if u then 1 else 0) ∧
        Aligned env (glifsForEncoding (normalizeRenderFlags env.codeset flags))
          (List.replicate k cw) u line := by
  obtain ⟨⟨⟩, w', hrun, ⟨lines, hl, hd⟩, -⟩ :=
    (((renderTable_lines (E := fun e _ => e = .outOfFuel) hs (fun _ _ => rfl) hfit w.out).and
      (renderTable_settles htwo hs.fuel results width flags hfit hroom hnames hvalues hB)).conseq
        (fun _ => id) (fun _ _ => id) fun _ _ h => h.2 h.1).ok_of
      ⟨⟨⟨hw, rfl⟩, Nat.zero_le _⟩, trivial⟩
  exact ⟨w', lines, hrun, hd.1.2, fun l hl' => ⟨(hl l hl').shows_replicate, hl l hl'⟩⟩

/-- The stream in seven columns with box-drawing glyphs and values wrapped: one column five
wide, whose cell of three takes one character of `日本語` a line; every line shows six
columns. -/
theorem renderTable_wrapped_shows_rectangular_nihongo :
    Showable Env.utf8Terminal 10 nihongoResults 7 { boxFlags with wrapValues := true } ∧
      fitColumns 7 nihongoResults.nfields (columnWidthFor 7 nihongoResults.nfields) false =
        (1, 5, false) ∧ (1 = 0 ∨ 4 ≤ 5) ∧
      (∀ name ∈ nihongoResults.fieldnames, name.1.length ≤ 9) ∧
      (∀ row ∈ nihongoResults.rows, ∀ v ∈ row,
        (cellText { boxFlags with wrapValues := true } v).length ≤ 9) ∧ 1 * 9 < 10 ∧
      World.init.Reliable ∧
      ∃ (w' : World) (lines : List (List UInt8)),
        renderTable Env.utf8Terminal 10 nihongoResults 7 { boxFlags with wrapValues := true }
          World.init = .ok () w' ∧
        w'.out = World.init.out ++ linesBytes lines ∧
        ∀ line ∈ lines, Shows Env.utf8Terminal line (1 * (5 + 1) + 1 + if false then 1 else 0) ∧
          Aligned Env.utf8Terminal (glifsForEncoding
            (normalizeRenderFlags Env.utf8Terminal.codeset { boxFlags with wrapValues := true }))
            (List.replicate 1 5) false line :=
  have hs : Showable Env.utf8Terminal 10 nihongoResults 7 { boxFlags with wrapValues := true } :=
    ⟨Env.utf8Terminal_narrowAscii, BorderGlifs.narrow_of_all (by decide), by decide, rfl, rfl,
      by decide, (nihongoResults_raw _ rfl rfl).1, (nihongoResults_raw _ rfl rfl).2⟩
  ⟨hs, rfl, .inr (by decide), by decide, by decide, by decide, fun _ => rfl,
    renderTable_wrapped_shows_rectangular hs Env.utf8Terminal_atMostTwoColumns rfl
      (.inr (by decide)) (B := 9) (by decide) (by decide) (by decide) fun _ => rfl⟩

end Neo4jRender
