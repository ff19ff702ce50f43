/-
What `neo4j_render_table` puts on the stream.

A table writes four kinds of bytes: the glyphs of a border set, ASCII texts (spaces, newlines,
escapes), and sequences copied from a field whole, each of which the decoder has just accepted.
`outputGuard` is the guard of a stream whose bytes since the run began have a property that
holds of no bytes and is kept by concatenation.  With `U8Text`, and with `Ascii` under
`NEO4J_RENDER_ASCII`, each kind of byte is shown to have the property, and
`renderTable_output_encoding` follows from `renderTable_keeps`.

What the table copies raw is what the decoder accepts, so the result holds for any input
bytes, with the decoder modelled in `Neo4jRender.Utf8`.
-/
import Neo4jRender.Proofs.Guard

namespace Neo4jRender

/-! ### Glyphs and flags -/

/-- A sequence the decoder reads whole is a text of one character. -/
theorem u8Text_of_decode {s : List UInt8} (h : (u8codepoint s).map Prod.snd = some s.length) :
    U8Text s := by
  obtain ⟨⟨cp, k⟩, hs, rfl⟩ := Option.map_eq_some'.mp h
  simpa using u8Text_take hs

/-- Every glyph of both border sets is valid UTF-8. -/
theorem glif_u8Text (flags : RenderFlags) (line : BorderLine) :
    U8Text ((glifsForEncoding flags).glif line).1 := by
  unfold glifsForEncoding
  split <;> cases line <;> exact u8Text_of_decode (by decide)

theorem overflow_u8Text (flags : RenderFlags) : U8Text (glifsForEncoding flags).overflow.1 := by
  unfold glifsForEncoding
  split <;> exact u8Text_of_decode (by decide)

theorem asciiBorderGlifs_ascii (line : BorderLine) : Ascii (asciiBorderGlifs.glif line).1 := by
  cases line <;> decide

@[simp] theorem normalizeRenderFlags_ascii (codeset : String) (flags : RenderFlags) :
    (normalizeRenderFlags codeset flags).ascii = flags.ascii := by
  unfold normalizeRenderFlags; split_ifs <;> rfl

/-- Under `NEO4J_RENDER_ASCII` the table draws with the ASCII set. -/
theorem glifsForEncoding_ascii (codeset : String) {flags : RenderFlags} (h : flags.ascii = true) :
    glifsForEncoding (normalizeRenderFlags codeset flags) = asciiBorderGlifs := by
  simp [glifsForEncoding, normalizeRenderFlags, h]

/-! ### The guard -/

/-- A property of written bytes that holds of none and is kept by concatenation. -/
structure Appendable where
  holds : List UInt8 → Prop
  nil : holds []
  append : ∀ {a b}, holds a → holds b → holds (a ++ b)

def u8Appendable : Appendable := ⟨U8Text, .nil, U8Text.append⟩

def asciiAppendable : Appendable := ⟨Ascii, nofun, Ascii.append⟩

/-- The bytes written since the stream held `o` have the property, whatever the calls did. -/
def outputGuard (P : Appendable) (o : List UInt8) : Guard where
  running w := ∃ d, w.out = o ++ d ∧ P.holds d
  stopped w := ∃ d, w.out = o ++ d ∧ P.holds d
  chunk := P.holds
  write _ bytes := by
    rintro ⟨d, hd, hg⟩ hb
    split
    · exact ⟨d ++ bytes, by simp [hd], P.append hg hb⟩
    · exact ⟨d, hd, hg⟩
  attempt _ _ _ := by
    rintro ⟨d, hd, hg⟩
    split <;> exact ⟨d, by simp [hd], hg⟩
  decode _ := by rintro ⟨d, hd, hg⟩; exact ⟨d, by simp [hd], hg⟩
  reject _ := by rintro ⟨d, hd, hg⟩; exact ⟨d, by simp [hd], hg⟩
  check _ _ := by
    rintro ⟨d, hd, hg⟩
    split <;> exact ⟨d, by simp [hd], hg⟩
  require _ h := h
  buf _ _ h := h
  bufcap _ _ h := h
  cleanup _ := by
    rintro ⟨d, hd, hg⟩
    split <;> exact ⟨d, by simp [hd], hg⟩

/-- A computation that keeps the guard writes bytes with the property, whether it returns or
fails. -/
theorem output_of_keeps (P : Appendable) {α : Type} {m : RenderM α} {w : World}
    (h : (outputGuard P w.out).Keeps m) :
    ∃ d, (finalWorld (m w)).out = w.out ++ d ∧ P.holds d := by
  have hr := h w ⟨[], by simp, P.nil⟩
  generalize m w = r at hr ⊢
  rcases r with ⟨_, w'⟩ | ⟨_ | _ | _, w'⟩ <;> exact hr

/-- Every byte a table writes is valid UTF-8, for every glyph set. -/
theorem u8Chunks (o : List UInt8) (flags : RenderFlags) :
    TableChunks (outputGuard u8Appendable o) flags where
  ascii _ h := u8Text_ascii h
  glif := glif_u8Text flags
  overflow := overflow_u8Text flags
  raw _ _ _ h _ := u8Text_take h

/-- Under `NEO4J_RENDER_ASCII` every byte a table writes is ASCII: the glyphs are the ASCII
set's, and a sequence copied raw is one byte long. -/
theorem asciiChunks (o : List UInt8) (codeset : String) {flags : RenderFlags}
    (h : flags.ascii = true) :
    TableChunks (outputGuard asciiAppendable o) (normalizeRenderFlags codeset flags) where
  ascii _ h := h
  glif line := by rw [glifsForEncoding_ascii codeset h]; exact asciiBorderGlifs_ascii line
  overflow := by rw [glifsForEncoding_ascii codeset h]; exact (by decide : Ascii [0x3D])
  raw mem cp k hdec hk := by
    have hk1 : k = 1 := by
      have := u8codepoint_length hdec
      simp only [normalizeRenderFlags_ascii, h, and_true, not_lt] at hk
      omega
    subst hk1
    obtain ⟨b, t, rfl, hb, -⟩ := u8codepoint_one hdec
    show Ascii [b]
    simpa [Ascii] using hb

/-- **Every table is valid UTF-8, and ASCII under `NEO4J_RENDER_ASCII`**: the bytes a run of
`neo4j_render_table` writes, whether it returns or fails, for every stream, width, flags and
pattern of failures. -/
theorem renderTable_output_encoding (env : Env) (fuel : Nat) (results : ResultStream)
    (width : Nat) (flags : RenderFlags) (w : World) :
    ∃ d, (finalWorld (renderTable env fuel results width flags w)).out = w.out ++ d ∧
      U8Text d ∧ (flags.ascii = true → Ascii d) := by
  by_cases ha : flags.ascii = true
  · obtain ⟨d, hd, hA⟩ := output_of_keeps asciiAppendable
      (renderTable_keeps _ env fuel results width (asciiChunks w.out env.codeset ha))
    exact ⟨d, hd, u8Text_ascii hA, fun _ => hA⟩
  · obtain ⟨d, hd, hU⟩ := output_of_keeps u8Appendable
      (renderTable_keeps _ env fuel results width (u8Chunks w.out _))
    exact ⟨d, hd, hU, fun h => absurd h ha⟩

end Neo4jRender
