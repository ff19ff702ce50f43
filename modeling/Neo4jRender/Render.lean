/-
`render.c`: glyphs, rules, rows and fields.

Each definition here is one function of `src/lib/render.c`, or one of its loops, written
as the C computes it.  A loop over columns is a recursion over the width list; the loop of
`render_field` over a field's codepoints gets the field's length as fuel, which it never
exhausts because every turn consumes at least one byte; the `while (wrap)` loop of
`render_row` gets the caller's fuel, because nothing in the C bounds it.

Pointers into text are `Src` values: a field's text either stays put for the whole row,
or lives in the staging buffer, which the next value's callback overwrites; `render_row`
reads either at the moment the C dereferences it.
-/
import Neo4jRender.World

namespace Neo4jRender

/-! ### Flags and glyph sets -/

/-- The `NEO4J_RENDER_*` bits the renderers test.  Their values live in `neo4j-client.h`,
not in src/; every test in the code reads one bit, so a flags word is one `Bool` a bit. -/
structure RenderFlags where
  showNulls : Bool
  quoteStrings : Bool
  ascii : Bool
  asciiArt : Bool
  rowLines : Bool
  wrapValues : Bool
  deriving DecidableEq, Repr

/-- `normalize_render_flags`, in a build with `HAVE_LANGINFO_CODESET`. -/
def normalizeRenderFlags (codeset : String) (flags : RenderFlags) : RenderFlags :=
  if flags.ascii then { flags with asciiArt := true }
  else if codeset ≠ "UTF-8" then { flags with asciiArt := true }
  else flags

/-- One of the corner arrays of `struct border_glifs`: `[0]`, `[1]`, `[2]`. -/
structure Corners where
  left : CString
  middle : CString
  right : CString

/-- `struct border_glifs`. -/
structure BorderGlifs where
  horizontalLine : CString
  headLine : CString
  verticalLine : CString
  topCorners : Corners
  headCorners : Corners
  middleCorners : Corners
  bottomCorners : Corners
  overflow : CString

/-- `ascii_border_glifs`: `-`, `|`, `+` and `=`. -/
def asciiBorderGlifs : BorderGlifs where
  horizontalLine := ⟨[0x2D], by decide⟩
  headLine := ⟨[0x2D], by decide⟩
  verticalLine := ⟨[0x7C], by decide⟩
  topCorners := ⟨⟨[0x2B], by decide⟩, ⟨[0x2B], by decide⟩, ⟨[0x2B], by decide⟩⟩
  headCorners := ⟨⟨[0x2B], by decide⟩, ⟨[0x2B], by decide⟩, ⟨[0x2B], by decide⟩⟩
  middleCorners := ⟨⟨[0x2B], by decide⟩, ⟨[0x2B], by decide⟩, ⟨[0x2B], by decide⟩⟩
  bottomCorners := ⟨⟨[0x2B], by decide⟩, ⟨[0x2B], by decide⟩, ⟨[0x2B], by decide⟩⟩
  overflow := ⟨[0x3D], by decide⟩

/-- `u8_border_glifs`, each glyph as its UTF-8 bytes. -/
def u8BorderGlifs : BorderGlifs where
  horizontalLine := ⟨[0xE2, 0x94, 0x80], by decide⟩  -- U+2500
  headLine := ⟨[0xE2, 0x95, 0x90], by decide⟩  -- U+2550
  verticalLine := ⟨[0xE2, 0x94, 0x82], by decide⟩  -- U+2502
  topCorners := ⟨⟨[0xE2, 0x94, 0x8C], by decide⟩, ⟨[0xE2, 0x94, 0xAC], by decide⟩,
    ⟨[0xE2, 0x94, 0x90], by decide⟩⟩  -- U+250C U+252C U+2510
  headCorners := ⟨⟨[0xE2, 0x95, 0x9E], by decide⟩, ⟨[0xE2, 0x95, 0xAA], by decide⟩,
    ⟨[0xE2, 0x95, 0xA1], by decide⟩⟩  -- U+255E U+256A U+2561
  middleCorners := ⟨⟨[0xE2, 0x94, 0x9C], by decide⟩, ⟨[0xE2, 0x94, 0xBC], by decide⟩,
    ⟨[0xE2, 0x94, 0xA4], by decide⟩⟩  -- U+251C U+253C U+2524
  bottomCorners := ⟨⟨[0xE2, 0x94, 0x94], by decide⟩, ⟨[0xE2, 0x94, 0xB4], by decide⟩,
    ⟨[0xE2, 0x94, 0x98], by decide⟩⟩  -- U+2514 U+2534 U+2518
  overflow := ⟨[0xE2, 0x80, 0xA6], by decide⟩  -- U+2026

/-- `glifs_for_encoding`. -/
def glifsForEncoding (flags : RenderFlags) : BorderGlifs :=
  if !flags.asciiArt then u8BorderGlifs else asciiBorderGlifs

/-- `border_line_t`. -/
inductive BorderLine where
  | horizontalLine | headLine | verticalLine
  | topLeftCorner | topMiddleCorner | topRightCorner
  | headLeftCorner | headMiddleCorner | headRightCorner
  | middleLeftCorner | middleMiddleCorner | middleRightCorner
  | bottomLeftCorner | bottomMiddleCorner | bottomRightCorner
  deriving DecidableEq, Repr

/-- The glyph the `switch` of `render_border_line` picks. -/
def BorderGlifs.glif (glifs : BorderGlifs) : BorderLine → CString
  | .horizontalLine => glifs.horizontalLine
  | .headLine => glifs.headLine
  | .verticalLine => glifs.verticalLine
  | .topLeftCorner => glifs.topCorners.left
  | .topMiddleCorner => glifs.topCorners.middle
  | .topRightCorner => glifs.topCorners.right
  | .headLeftCorner => glifs.headCorners.left
  | .headMiddleCorner => glifs.headCorners.middle
  | .headRightCorner => glifs.headCorners.right
  | .middleLeftCorner => glifs.middleCorners.left
  | .middleMiddleCorner => glifs.middleCorners.middle
  | .middleRightCorner => glifs.middleCorners.right
  | .bottomLeftCorner => glifs.bottomCorners.left
  | .bottomMiddleCorner => glifs.bottomCorners.middle
  | .bottomRightCorner => glifs.bottomCorners.right

/-- `render_border_line`. -/
def renderBorderLine (lineType : BorderLine) (flags : RenderFlags) : RenderM Unit :=
  orFail (fputs ((glifsForEncoding flags).glif lineType))

/-! ### Rules -/

/-- `hline_position_t`. -/
inductive HlinePosition where
  | top | head | middle | bottom
  deriving DecidableEq, Repr

/-- The `switch` of `render_hrule`: the corners and the line glyph of a position. -/
def hruleGlifs (glifs : BorderGlifs) : HlinePosition → Corners × CString
  | .top => (glifs.topCorners, glifs.horizontalLine)
  | .head => (glifs.headCorners, glifs.headLine)
  | .bottom => (glifs.bottomCorners, glifs.horizontalLine)
  | .middle => (glifs.middleCorners, glifs.horizontalLine)

/-- `for (w = widths[i]; w > 0; --w)`: the glyph `w` times. -/
def fputsTimes (s : CString) : Nat → RenderM Unit
  | 0 => pure ()
  | w + 1 => do
    orFail (fputs s)
    fputsTimes s w

/-- The column loop of `render_hrule`; `first` is `corner == 0`. -/
def hruleColumns (corners : Corners) (line : CString) : Bool → List Nat → RenderM Unit
  | _, [] => pure ()
  | first, w :: ws =>
    if w = 0 then hruleColumns corners line first ws
    else do
      orFail (fputs (if first then corners.left else corners.middle))
      fputsTimes line w
      hruleColumns corners line false ws

/-- `render_hrule`. -/
def renderHrule (widths : List Nat) (position : HlinePosition) (undersize : Bool)
    (flags : RenderFlags) : RenderM Unit := do
  let (corners, line) := hruleGlifs (glifsForEncoding flags) position
  hruleColumns corners line true widths
  orFail (fputs (if undersize then corners.middle else corners.right))
  (if undersize then orFail (fputs line) else pure ())
  orFail (fputc 0x0A)

/-! ### Fields -/

/-- `snprintf(buf, size, ...)` of `text`: as much of it as fits before the NUL. -/
def snprintfBuf (size : Nat) (text : List UInt8) : List UInt8 :=
  text.take (size - 1) ++ [0]

/-- An uppercase hexadecimal digit. -/
def hexDigit (d : Nat) : UInt8 :=
  if d < 10 then UInt8.ofNat (0x30 + d) else UInt8.ofNat (0x37 + d)

/-- `%0kX` of a value below `16 ^ k`: its `k` uppercase hexadecimal digits. -/
def hexDigits (k v : Nat) : List UInt8 :=
  (List.range k).reverse.map fun i => hexDigit (v / Nat.pow 16 i % 16)

/-- The `switch` of `write_unprintable`: what `replacement` points to, and `n`.  The seven
controls get two-character escapes; the rest are formatted into `char buf[10]`. -/
def unprintableReplacement (codepoint : Nat) : List UInt8 × Nat :=
  match codepoint with
  | 7 => ([0x5C, 0x61], 2)  -- \a
  | 8 => ([0x5C, 0x62], 2)  -- \b
  | 12 => ([0x5C, 0x66], 2)  -- \f
  | 10 => ([0x5C, 0x6E], 2)  -- \n
  | 13 => ([0x5C, 0x72], 2)  -- \r
  | 9 => ([0x5C, 0x74], 2)  -- \t
  | 11 => ([0x5C, 0x76], 2)  -- \v
  | _ =>
    if codepoint ≤ 0xFFFF then (snprintfBuf 10 (0x5C :: 0x75 :: hexDigits 4 codepoint), 6)
    else (snprintfBuf 10 (0x5C :: 0x55 :: hexDigits 8 codepoint), 10)

/-- `write_unprintable`: `min(n, width)` bytes of the replacement, and the cost `n`. -/
def writeUnprintable (codepoint width : Nat) : RenderM Nat := do
  let (replacement, n) := unprintableReplacement codepoint
  orFail (fwrite (replacement.take (min n width)))
  pure n

/-- The codepoint loop of `render_field`, from byte `pos` with `used` columns filled.  `mem`
is the memory from the field's start on, `n` the field's length.  It returns where `s`
stopped and `used`. -/
def renderFieldLoop (env : Env) (mem : List UInt8) (n width : Nat) (flags : RenderFlags) :
    Nat → Nat → Nat → RenderM (Nat × Nat)
  | 0, pos, used => pure (pos, used)
  | fuel + 1, pos, used =>
    if used < width ∧ pos < n then do
      let (cp, bytes) ← decodeAt (mem.drop pos)
      match (if 1 < bytes ∧ flags.ascii then none else env.u8cpwidth cp) with
      | none => do
        let cpwidth ← writeUnprintable cp width
        renderFieldLoop env mem n width flags fuel (pos + bytes) (used + cpwidth)
      | some cpwidth =>
        if width < used + cpwidth then pure (pos, used)
        else do
          orFail (fwrite ((mem.drop pos).take bytes))
          renderFieldLoop env mem n width flags fuel (pos + bytes) (used + cpwidth)
    else pure (pos, used)

/-- `for (; used < width; ++used) fputc(' ', stream)`, `k = width - used` times. -/
def padSpaces : Nat → RenderM Unit
  | 0 => pure ()
  | k + 1 => do
    orFail (fputc 0x20)
    padSpaces k

/-- `render_field`: the field drawn into `width` columns, returning `n - (e - s)`, the bytes
consumed. -/
def renderField (env : Env) (mem : List UInt8) (n width : Nat) (flags : RenderFlags) :
    RenderM Nat := do
  let (pos, used) ← renderFieldLoop env mem n width flags n 0 0
  padSpaces (width - used)
  pure pos

/-! ### Rows -/

/-- Where a field's text lives: memory that stays put for the whole row, or the staging
buffer from an offset on, which the next value's callback overwrites. -/
inductive Src where
  | stable (mem : List UInt8)
  | staging (off : Nat)
  deriving DecidableEq, Repr

/-- The memory from a text pointer on, as it is in `w`. -/
def Src.read (w : World) : Src → List UInt8
  | .stable mem => mem
  | .staging off => w.buf.drop off

/-- `s += k`. -/
def Src.advance : Src → Nat → Src
  | .stable mem, k => .stable (mem.drop k)
  | .staging off, k => .staging (off + k)

/-- Dereferencing a text pointer now. -/
def readSrc (s : Src) : RenderM (List UInt8) := fun w => .ok (s.read w) w

/-- What a `render_row_callback_t` hands back: `*s`, the length it returns, `*duplicate`. -/
structure FieldText where
  src : Src
  n : Nat
  duplicate : Bool

/-- One entry of `render_row`'s `fields` array: the part of a column's text still to come. -/
structure Pending where
  src : Src
  n : Nat

/-- A `fields` entry as `calloc` leaves it: `s = NULL`, `n = 0`. -/
def Pending.empty : Pending := ⟨.stable [], 0⟩

/-- `" "`. -/
def space : CString := ⟨[0x20], by decide⟩

/-- `s += consumed; n -= consumed;`, and for a transient text `fields[i].dup = memdup(s, n)`. -/
def keepRest (f : FieldText) (consumed : Nat) : RenderM Pending := do
  let s := f.src.advance consumed
  let n := f.n - consumed
  if f.duplicate then
    let mem ← readSrc s
    orFail alloc
    pure ⟨.stable (mem.take n), n⟩
  else pure ⟨s, n⟩

/-- The first column loop of `render_row`, from column `i`: the `fields` entries it fills and
whether any column overflowed with wrapping on. -/
def renderRowFirst (env : Env) (flags : RenderFlags) (glifs : BorderGlifs)
    (callback : Option (Nat → RenderM FieldText)) :
    Nat → List Nat → RenderM (List Pending × Bool)
  | _, [] => pure ([], false)
  | i, width :: widths => do
    if width = 0 then
      let (ps, wrap) ← renderRowFirst env flags glifs callback (i + 1) widths
      pure (Pending.empty :: ps, wrap)
    else
      orFail (fputs glifs.verticalLine)
      orFail (fputc 0x20)
      cAssert (2 ≤ width)
      let f ← (match callback with
        | some cb => cb i
        | none => pure ⟨.stable [], 0, false⟩)
      let mem ← readSrc f.src
      let consumed ← renderField env mem f.n (width - 2) flags
      let p ← (if f.n ≤ consumed then do
          orFail (fputc 0x20)
          pure none
        else do
          orFail (fputs glifs.overflow)
          if flags.wrapValues then some <$> keepRest f consumed else pure none)
      let (ps, wrap) ← renderRowFirst env flags glifs callback (i + 1) widths
      pure (p.getD Pending.empty :: ps, wrap || p.isSome)

/-- The column loop of one turn of `while (wrap)`: the entries it leaves, and the new `wrap`. -/
def renderRowWrapLine (env : Env) (flags : RenderFlags) (glifs : BorderGlifs) :
    List Nat → List Pending → RenderM (List Pending × Bool)
  | width :: widths, p :: ps => do
    if width = 0 then
      let (ps', wrap) ← renderRowWrapLine env flags glifs widths ps
      pure (p :: ps', wrap)
    else
      cAssert (2 ≤ width)
      orFail (fputs glifs.verticalLine)
      orFail (fputs (if 0 < p.n then glifs.overflow else space))
      let mem ← readSrc p.src
      let consumed ← renderField env mem p.n (width - 2) flags
      let p' ← (if p.n ≤ consumed then do
          orFail (fputc 0x20)
          pure none
        else do
          orFail (fputs glifs.overflow)
          pure (some ⟨p.src.advance consumed, p.n - consumed⟩))
      let (ps', wrap) ← renderRowWrapLine env flags glifs widths ps
      pure (p'.getD p :: ps', wrap || p'.isSome)
  | _, _ => pure ([], false)

/-- The end of every line of `render_row`: the last border, the undersize marker, `'\n'`. -/
def renderRowEnd (glifs : BorderGlifs) (undersize : Bool) : RenderM Unit := do
  orFail (fputs glifs.verticalLine)
  (if undersize then orFail (fputs glifs.overflow) else pure ())
  orFail (fputc 0x0A)

/-- `while (wrap) { ... }`, with fuel. -/
def renderRowWrap (env : Env) (flags : RenderFlags) (glifs : BorderGlifs) (widths : List Nat)
    (undersize : Bool) : Nat → List Pending → RenderM Unit
  | 0, _ => throw .outOfFuel
  | fuel + 1, ps => do
    let (ps', wrap) ← renderRowWrapLine env flags glifs widths ps
    renderRowEnd glifs undersize
    if wrap then renderRowWrap env flags glifs widths undersize fuel ps' else pure ()

/-- `render_row`; a `none` callback is `callback == NULL`. -/
def renderRow (env : Env) (fuel : Nat) (widths : List Nat) (undersize : Bool)
    (flags : RenderFlags) (callback : Option (Nat → RenderM FieldText)) : RenderM Unit := do
  (if flags.wrapValues then orFail alloc else pure ())
  let glifs := glifsForEncoding flags
  let (fields, wrap) ← renderRowFirst env flags glifs callback 0 widths
  renderRowEnd glifs undersize
  if wrap then renderRowWrap env flags glifs widths undersize fuel fields

end Neo4jRender
