/-
UTF-8 as the renderer meets it.

`render_field` walks a field one codepoint at a time with `neo4j_u8codepoint`, which is
not among the two source files: the spec gives only its interface, "decode next codepoint
and its byte length from a byte sequence".  It is modelled here as the RFC 3629 decoder.
The lead byte fixes the length, the second byte's range rules out overlong forms,
surrogates and codepoints past U+10FFFF, and every later byte is a continuation byte.

`U8Text` is what valid UTF-8 means for the rest of the development: a run of sequences
the decoder accepts whole.  Two facts about the decoder carry everything else: it reads
no byte past the sequence it returns (`u8codepoint_take_append`), and a sequence it
accepts is a text of one character (`u8Text_take`).
-/
import Mathlib.Data.List.Basic

namespace Neo4jRender

/-- Bytes below `0x80`, the ones a 7-bit stream can carry. -/
def Ascii (l : List UInt8) : Prop := ∀ b ∈ l, b < 0x80

instance (l : List UInt8) : Decidable (Ascii l) := inferInstanceAs (Decidable (∀ b ∈ l, _))

/-- The length of the sequence a lead byte starts, with the range allowed for the byte after
it; `none` for a byte that cannot start one. -/
def u8lead (b : UInt8) : Option (Nat × UInt8 × UInt8) :=
  if b < 0x80 then some (1, 0x80, 0xBF)
  else if b < 0xC2 then none
  else if b < 0xE0 then some (2, 0x80, 0xBF)
  else if b = 0xE0 then some (3, 0xA0, 0xBF)
  else if b = 0xED then some (3, 0x80, 0x9F)
  else if b < 0xF0 then some (3, 0x80, 0xBF)
  else if b = 0xF0 then some (4, 0x90, 0xBF)
  else if b < 0xF4 then some (4, 0x80, 0xBF)
  else if b = 0xF4 then some (4, 0x80, 0x8F)
  else none

/-- A continuation byte, `10xxxxxx`. -/
def isCont (b : UInt8) : Bool := 0x80 ≤ b && b ≤ 0xBF

/-- The payload bits a lead byte of a `k`-byte sequence carries. -/
def leadBits (k : Nat) (b : UInt8) : Nat :=
  if k = 1 then b.toNat else b.toNat % Nat.pow 2 (7 - k)

/-- Modelled from the spec: `neo4j_u8codepoint`, not in src/, "decode next codepoint and its
byte length from a byte sequence".  The codepoint and the length of the sequence at the head of
the bytes, or `none` for a malformed or cut-off sequence. -/
def u8codepoint : List UInt8 → Option (Nat × Nat)
  | [] => none
  | b :: t =>
    match u8lead b with
    | none => none
    | some (k, lo, hi) =>
      let c := t.take (k - 1)
      if c.length = k - 1 ∧ c.head?.all (fun x => lo ≤ x && x ≤ hi) ∧ c.tail.all isCont then
        some (c.foldl (fun cp x => cp * 64 + x.toNat % 64) (leadBits k b), k)
      else none

theorem u8lead_length {b : UInt8} {k : Nat} {lo hi : UInt8} (h : u8lead b = some (k, lo, hi)) :
    1 ≤ k ∧ k ≤ 4 ∧ (k = 1 ↔ b < 0x80) := by
  unfold u8lead at h
  by_cases h1 : b < 0x80
  · rw [if_pos h1] at h
    cases h
    exact ⟨le_rfl, by decide, iff_of_true rfl h1⟩
  · rw [if_neg h1] at h
    -- the eight branches after the first, one at a time
    have hk : 2 ≤ k ∧ k ≤ 4 := by
      iterate 8
        rcases ite_eq_iff.mp h with ⟨-, h⟩ | ⟨-, h⟩
        · cases h; try decide
      cases h
    exact ⟨by omega, hk.2, iff_of_false (by omega) h1⟩

/-- The decoder looks at the lead byte and the `k - 1` bytes after it, and no further. -/
theorem u8codepoint_congr {b : UInt8} {t t' : List UInt8} {k : Nat} {lo hi : UInt8}
    (hl : u8lead b = some (k, lo, hi)) (h : t.take (k - 1) = t'.take (k - 1)) :
    u8codepoint (b :: t) = u8codepoint (b :: t') := by
  simp only [u8codepoint, hl, h]

/-- What the decoder returns, read back: a lead byte and as many bytes after it as it asks. -/
theorem u8codepoint_some {s : List UInt8} {cp k : Nat} (h : u8codepoint s = some (cp, k)) :
    ∃ b t lo hi, s = b :: t ∧ u8lead b = some (k, lo, hi) ∧
      (t.take (k - 1)).length = k - 1 := by
  match s, h with
  | b :: t, h =>
    simp only [u8codepoint] at h
    split at h
    · cases h
    · rename_i k' lo hi hl
      split_ifs at h with hc
      simp only [Option.some.injEq, Prod.mk.injEq] at h
      obtain ⟨-, rfl⟩ := h
      exact ⟨b, t, lo, hi, rfl, hl, hc.1⟩

theorem u8codepoint_length {s : List UInt8} {cp k : Nat} (h : u8codepoint s = some (cp, k)) :
    1 ≤ k ∧ k ≤ 4 ∧ k ≤ s.length := by
  obtain ⟨b, t, lo, hi, rfl, hl, hlen⟩ := u8codepoint_some h
  obtain ⟨h1, h4, -⟩ := u8lead_length hl
  have := List.length_take_le' (k - 1) t
  simp only [List.length_cons]
  omega

/-- **The decoder reads no byte past the sequence it returns.** -/
theorem u8codepoint_take_append {s : List UInt8} {cp k : Nat} (h : u8codepoint s = some (cp, k))
    (r : List UInt8) : u8codepoint (s.take k ++ r) = some (cp, k) := by
  obtain ⟨b, t, lo, hi, rfl, hl, hlen⟩ := u8codepoint_some h
  obtain ⟨k', rfl⟩ : ∃ k', k = k' + 1 := ⟨k - 1, by have := (u8lead_length hl).1; omega⟩
  rw [← h, List.take_succ_cons, List.cons_append]
  exact u8codepoint_congr hl (List.take_left' hlen)

@[simp] theorem u8codepoint_ascii {b : UInt8} (hb : b < 0x80) (t : List UInt8) :
    u8codepoint (b :: t) = some (b.toNat, 1) := by
  simp [u8codepoint, u8lead, hb, leadBits]

/-- A one-byte sequence is a byte below `0x80`, and is its own codepoint. -/
theorem u8codepoint_one {s : List UInt8} {cp : Nat} (h : u8codepoint s = some (cp, 1)) :
    ∃ b t, s = b :: t ∧ b < 0x80 ∧ cp = b.toNat := by
  obtain ⟨b, t, lo, hi, rfl, hl, -⟩ := u8codepoint_some h
  have hb := (u8lead_length hl).2.2.mp rfl
  rw [u8codepoint_ascii hb] at h
  simp only [Option.some.injEq, Prod.mk.injEq, and_true] at h
  exact ⟨b, t, rfl, hb, h.symm⟩

/-- Modelled from the spec: `neo4j_u8cpwidth`, not in src/, "return display width of a
codepoint, or a sentinel for non-printable", after the usual `wcwidth` table: NUL takes no
column, the other C0 and C1 controls and DEL are unprintable, combining marks and zero-width
spaces take none, East Asian wide and fullwidth forms take two, and the rest one. -/
def u8cpwidth (cp : Nat) : Option Nat :=
  if cp = 0 then some 0
  else if cp < 0x20 ∨ (0x7F ≤ cp ∧ cp < 0xA0) then none
  else if (0x300 ≤ cp ∧ cp < 0x370) ∨ (0x200B ≤ cp ∧ cp < 0x2010) then some 0
  else if (0x1100 ≤ cp ∧ cp < 0x1160) ∨ (0x2E80 ≤ cp ∧ cp < 0xA4D0) ∨
      (0xAC00 ≤ cp ∧ cp < 0xD7A4) ∨ (0xF900 ≤ cp ∧ cp < 0xFB00) ∨
      (0xFE30 ≤ cp ∧ cp < 0xFE50) ∨ (0xFF00 ≤ cp ∧ cp < 0xFF61) ∨
      (0xFFE0 ≤ cp ∧ cp < 0xFFE7) ∨ (0x1F300 ≤ cp ∧ cp < 0x1F650) ∨
      (0x1F900 ≤ cp ∧ cp < 0x1FA00) ∨ (0x20000 ≤ cp ∧ cp < 0x3FFFE) then some 2
  else some 1

/-! ### Valid text -/

/-- Valid UTF-8: a run of sequences `u8codepoint` accepts whole. -/
inductive U8Text : List UInt8 → Prop
  | nil : U8Text []
  | cons {c rest : List UInt8} {cp : Nat} :
      u8codepoint c = some (cp, c.length) → U8Text rest → U8Text (c ++ rest)

theorem U8Text.append {a b : List UInt8} (ha : U8Text a) (hb : U8Text b) : U8Text (a ++ b) := by
  induction ha with
  | nil => exact hb
  | cons hc _ ih => rw [List.append_assoc]; exact .cons hc ih

/-- A sequence the decoder accepts is a text of one character. -/
theorem u8Text_take {s : List UInt8} {cp k : Nat} (h : u8codepoint s = some (cp, k)) :
    U8Text (s.take k) := by
  have hk : (s.take k).length = k := List.length_take_of_le (u8codepoint_length h).2.2
  have hc : u8codepoint (s.take k) = some (cp, (s.take k).length) := by
    rw [hk]; simpa using u8codepoint_take_append h []
  simpa using @U8Text.cons (s.take k) [] cp hc .nil

/-- A valid text that is not empty starts with a sequence the decoder reads whole, whatever
follows the text, and what is left after it is a valid text. -/
theorem U8Text.decode {t : List UInt8} (ht : U8Text t) (hne : t ≠ []) (rest : List UInt8) :
    ∃ cp k, u8codepoint (t ++ rest) = some (cp, k) ∧ k ≤ t.length ∧ U8Text (t.drop k) := by
  cases ht with
  | nil => exact absurd rfl hne
  | @cons c t' cp hc ht' =>
    refine ⟨cp, c.length, ?_, by simp, by simpa using ht'⟩
    simpa [List.append_assoc] using u8codepoint_take_append hc (t' ++ rest)

theorem u8Text_ascii : ∀ {l : List UInt8}, Ascii l → U8Text l
  | [], _ => .nil
  | b :: t, h => by
    have hb : b < 0x80 := h b (List.mem_cons_self b t)
    have ht : U8Text t := u8Text_ascii fun x hx => h x (List.mem_cons_of_mem b hx)
    exact U8Text.cons (c := [b]) (u8codepoint_ascii hb []) ht

theorem Ascii.append {a b : List UInt8} (ha : Ascii a) (hb : Ascii b) : Ascii (a ++ b) := by
  intro x hx
  rcases List.mem_append.mp hx with h | h
  · exact ha x h
  · exact hb x h

theorem Ascii.take {a : List UInt8} (ha : Ascii a) (k : Nat) : Ascii (a.take k) :=
  fun x hx => ha x (List.mem_of_mem_take hx)

end Neo4jRender
