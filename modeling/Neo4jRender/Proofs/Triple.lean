/-
A program logic for the model.

Most of what is said about the renderers holds along a whole run whichever call fails:
the bytes on the stream stay valid UTF-8, no call follows a failed one.  `Triple P m Q E`
is the judgement for that: from a world satisfying `P`, a run of `m` that returns `a` ends
in `Q a`, and one that fails with `e` ends in `E e`.  The failure postcondition is its own
because the renderers rely on it: after a failed call they stop, and what holds of the
world then is weaker than what holds while they run.

The rules are proved once here, against the definition of `EStateM`, and every proof
about a renderer is assembled from them.
-/
import Neo4jRender.RenderResults

namespace Neo4jRender

@[simp] theorem run_pure {α : Type} (a : α) (w : World) : (pure a : RenderM α) w = .ok a w := rfl

@[simp] theorem run_throw {α : Type} (e : Err) (w : World) :
    (throw e : RenderM α) w = .error e w := rfl

theorem run_bind_ok {α β : Type} {x : RenderM α} {w w' : World} {a : α} (h : x w = .ok a w')
    (f : α → RenderM β) : (x >>= f) w = f a w' := by
  show EStateM.bind x f w = _
  simp only [EStateM.bind, h]

theorem run_bind_error {α β : Type} {x : RenderM α} {w w' : World} {e : Err}
    (h : x w = .error e w') (f : α → RenderM β) : (x >>= f) w = .error e w' := by
  show EStateM.bind x f w = _
  simp only [EStateM.bind, h]

theorem run_map_ok {α β : Type} {x : RenderM α} {w w' : World} {a : α} (h : x w = .ok a w')
    (f : α → β) : (f <$> x) w = .ok (f a) w' := by
  show EStateM.map f x w = _
  simp only [EStateM.map, h]

theorem run_map_error {α β : Type} {x : RenderM α} {w w' : World} {e : Err}
    (h : x w = .error e w') (f : α → β) : (f <$> x) w = .error e w' := by
  show EStateM.map f x w = _
  simp only [EStateM.map, h]

/-- From a world satisfying `P`, a run of `m` returning `a` ends in `Q a`, and one failing
with `e` ends in `E e`. -/
def Triple {α : Type} (P : World → Prop) (m : RenderM α) (Q : α → World → Prop)
    (E : Err → World → Prop) : Prop :=
  ∀ w, P w → match m w with
    | .ok a w' => Q a w'
    | .error e w' => E e w'

namespace Triple

variable {α β : Type} {P P' : World → Prop} {Q Q' : α → World → Prop}
  {E E' : Err → World → Prop} {m : RenderM α}

/-- A triple read off the run of `m` in each world. -/
theorem of_run (h : ∀ w, P w → match m w with
    | .ok a w' => Q a w'
    | .error e w' => E e w') : Triple P m Q E := h

theorem pure {a : α} (h : ∀ w, P w → Q a w) : Triple P (Pure.pure a : RenderM α) Q E := h

theorem throw {e : Err} (h : ∀ w, P w → E e w) :
    Triple P (MonadExcept.throw e : RenderM α) Q E :=
  h

theorem bind {f : α → RenderM β} {R : β → World → Prop} (hm : Triple P m Q E)
    (hf : ∀ a, Triple (Q a) (f a) R E) : Triple P (m >>= f) R E := by
  intro w hw
  have h1 := hm w hw
  cases hmw : m w with
  | ok a w' => rw [hmw] at h1; rw [run_bind_ok hmw]; exact hf a w' h1
  | error e w' => rw [hmw] at h1; rw [run_bind_error hmw]; exact h1

theorem map {f : α → β} {R : β → World → Prop} (hm : Triple P m (fun a => R (f a)) E) :
    Triple P (f <$> m) R E := by
  intro w hw
  have h1 := hm w hw
  cases hmw : m w with
  | ok a w' => rw [hmw] at h1; rw [run_map_ok hmw]; exact h1
  | error e w' => rw [hmw] at h1; rw [run_map_error hmw]; exact h1

theorem ite {c : Prop} [Decidable c] {t e : RenderM α} (ht : c → Triple P t Q E)
    (he : ¬c → Triple P e Q E) : Triple P (if c then t else e) Q E := by
  by_cases h : c
  · rw [if_pos h]; exact ht h
  · rw [if_neg h]; exact he h

theorem conseq (h : Triple P m Q E) (hp : ∀ w, P' w → P w) (hq : ∀ a w, Q a w → Q' a w)
    (he : ∀ e w, E e w → E' e w) : Triple P' m Q' E' := by
  intro w hw
  have h1 := h w (hp w hw)
  cases hmw : m w with
  | ok a w' => rw [hmw] at h1; exact hq _ _ h1
  | error e w' => rw [hmw] at h1; exact he _ _ h1

theorem pre (h : Triple P m Q E) (hp : ∀ w, P' w → P w) : Triple P' m Q E :=
  conseq h hp (fun _ _ => id) (fun _ _ => id)

theorem and {P' : World → Prop} {Q' : α → World → Prop} {E' : Err → World → Prop}
    (h : Triple P m Q E) (h' : Triple P' m Q' E') :
    Triple (fun w => P w ∧ P' w) m (fun a w => Q a w ∧ Q' a w)
      (fun e w => E e w ∧ E' e w) := by
  intro w hw
  have h1 := h w hw.1
  have h2 := h' w hw.2
  cases hmw : m w <;> rw [hmw] at h1 h2 <;> exact ⟨h1, h2⟩

/-- A fact the precondition carries about the values computed so far. -/
theorem prop {c : Prop} (h : c → Triple P m Q E) : Triple (fun w => c ∧ P w) m Q E :=
  fun w hw => h hw.1 w hw.2

/-- A run that can neither return nor fail otherwise than with `e` ends with `e`. -/
theorem error_of {e : Err} (h : Triple P m (fun _ _ => False) (fun e' _ => e' = e)) {w : World}
    (hw : P w) : ∃ w', m w = .error e w' := by
  have h1 := h w hw
  cases hmw : m w with
  | ok a w' => rw [hmw] at h1; exact h1.elim
  | error e' w' => rw [hmw] at h1; exact ⟨w', by rw [h1]⟩

/-- A run that cannot fail returns. -/
theorem ok_of (h : Triple P m Q fun _ _ => False) {w : World} (hw : P w) :
    ∃ a w', m w = .ok a w' ∧ Q a w' := by
  have h1 := h w hw
  cases hmw : m w with
  | ok a w' => rw [hmw] at h1; exact ⟨a, w', rfl, h1⟩
  | error e w' => rw [hmw] at h1; exact h1.elim

/-- The `failure:` label: what the cleanup makes of a `-1`, and every other failure as it is. -/
theorem onFailure {F : Err → World → Prop} {body : RenderM α} {cleanup : RenderM Unit}
    (hb : Triple P body Q F) (hc : Triple (F .failed) cleanup (fun _ => E .failed) E)
    (he : ∀ e w, e ≠ .failed → F e w → E e w) :
    Triple P (Neo4jRender.onFailure body cleanup) Q E := by
  intro w hw
  have h1 := hb w hw
  simp only [Neo4jRender.onFailure]
  cases hbw : body w with
  | ok a w' => rw [hbw] at h1; exact h1
  | error e w' =>
    rw [hbw] at h1
    cases e with
    | failed =>
      have h2 := hc w' h1
      cases hcw : cleanup w' with
      | ok _ w'' => rw [hcw] at h2; simp only [hcw]; exact h2
      | error e' w'' => rw [hcw] at h2; simp only [hcw]; exact h2
    | abort => exact he _ _ (by decide) h1
    | outOfFuel => exact he _ _ (by decide) h1

end Triple

/-! ### The calls

One rule a call, in weakest-precondition form: what must hold before the call for `Q` to hold
once it returns and `E` once it fails.  Every other specification of a call follows from its
rule by `Triple.pre`.
-/

section Calls

variable {P : World → Prop} {E : Err → World → Prop}

theorem fwrite_spec {Q : Bool → World → Prop} (bytes : List UInt8) :
    Triple (fun w => if bytes = [] then Q true w else match w.fault w.log.length with
      | none => Q true (w.record (.write true) bytes)
      | some e => Q false (w.reject (.write false) e)) (fwrite bytes) Q E := by
  intro w h
  unfold fwrite
  split at h
  · simp only [if_pos ‹bytes = []›]; exact h
  · simp only [if_neg ‹¬bytes = []›]
    split at h <;> rename_i hf <;> simp only [hf] <;> exact h

theorem attempt_spec {Q : Bool → World → Prop} (call : Bool → Call) :
    Triple (fun w => match w.fault w.log.length with
      | none => Q true (w.record (call true) [])
      | some e => Q false (w.reject (call false) e)) (attempt call) Q E := by
  intro w h
  unfold attempt
  split at h <;> rename_i hf <;> simp only [hf] <;> exact h

theorem orFail_spec {call : RenderM Bool} {Q : Unit → World → Prop}
    (h : Triple P call (fun r w => if r then Q () w else E .failed w) E) :
    Triple P (orFail call) Q E :=
  Triple.bind h fun r => by
    cases r <;> [exact Triple.throw fun _ => id; exact Triple.pure fun _ => id]

theorem decodeAt_spec {Q : Nat × Nat → World → Prop} (mem : List UInt8) :
    Triple (fun w => match u8codepoint mem with
      | some r => Q r (w.record (.decode true) [])
      | none => E .failed (w.record (.decode false) [])) (decodeAt mem) Q E := by
  intro w h
  unfold decodeAt
  split at h <;> rename_i hf <;> simp only [hf] <;> exact h

theorem checkFailure_spec {Q : Nat → World → Prop} (code : Nat) :
    Triple (fun w => Q code (w.record (.check code) [])) (checkFailure code) Q E := fun _ h => h

theorem getErrno_spec {Q : Nat → World → Prop} : Triple (fun w => Q w.errno w) getErrno Q E :=
  fun _ h => h

theorem setErrno_spec {Q : Unit → World → Prop} (e : Nat) :
    Triple (fun w => Q () (w.withErrno e)) (setErrno e) Q E := fun _ h => h

theorem cAssert_spec {Q : Unit → World → Prop} (c : Prop) [Decidable c] :
    Triple (fun w => if c then Q () w else E .abort w) (cAssert c) Q E := by
  intro w h
  unfold cAssert
  split at h <;> rename_i hc <;> simp only [hc, if_true, if_false] <;> exact h

@[simp] theorem cAssert_of_true {c : Prop} [Decidable c] (h : c) : cAssert c = pure () :=
  if_pos h

theorem require_spec {Q : Unit → World → Prop} (c : Prop) [Decidable c] :
    Triple (fun w => if c then Q () w else E .failed (w.withErrno 22)) (require c) Q E := by
  intro w h
  unfold require
  split at h <;> rename_i hc <;> simp only [hc, if_true, if_false] <;> exact h

@[simp] theorem require_of_true {c : Prop} [Decidable c] (h : c) : require c = pure () :=
  if_pos h

theorem checkResults_spec {Q : Unit → World → Prop} (code : Nat) :
    Triple (fun w => if code = 0 then Q () (w.record (.check code) [])
      else E .failed ((w.record (.check code) []).withErrno code)) (checkResults code) Q E := by
  intro w h
  by_cases hc : code = 0
  · simp only [hc, if_true] at h
    subst hc
    exact h
  · simp only [hc, if_false] at h
    simp only [checkResults, bind, EStateM.bind, checkFailure, ne_eq, hc, not_false_eq_true,
      if_true]
    exact h

theorem readSrc_spec {Q : List UInt8 → World → Prop} (s : Src) :
    Triple (fun w => Q (s.read w) w) (readSrc s) Q E := fun _ h => h

theorem newBuffer_spec {Q : Unit → World → Prop} (size : Nat) :
    Triple (fun w => Q () ((w.withBuf []).withBufcap size)) (newBuffer size) Q E := fun _ h => h

theorem getBuf_spec {Q : List UInt8 → World → Prop} : Triple (fun w => Q w.buf w) getBuf Q E :=
  fun _ h => h

theorem getBufcap_spec {Q : Nat → World → Prop} :
    Triple (fun w => Q w.bufcap w) getBufcap Q E :=
  fun _ h => h

theorem setBufcap_spec {Q : Unit → World → Prop} (size : Nat) :
    Triple (fun w => Q () (w.withBufcap size)) (setBufcap size) Q E := fun _ h => h

theorem ntostring_spec {Q : Nat → World → Prop} (value : Value) :
    Triple (fun w => Q value.text.length
      (w.withBuf (if w.bufcap = 0 then w.buf else snprintfBuf w.bufcap value.text)))
      (ntostring value) Q E := fun _ h => h

end Calls

/-! ### What a run writes -/

/-- A run that is only asked to end somewhere. -/
theorem Triple.trivial {α : Type} {P : World → Prop} {m : RenderM α} :
    Triple P m (fun _ _ => True) (fun _ _ => True) := fun w _ => by
  cases m w <;> exact True.intro

/-- When `m` returns, it has written `bytes` to the stream after what was there. -/
def Writes {α : Type} (m : RenderM α) (bytes : List UInt8) : Prop :=
  ∀ o, Triple (fun w => w.out = o) m (fun _ w => w.out = o ++ bytes) (fun _ _ => True)

namespace Writes

variable {α β : Type} {m : RenderM α} {b c : List UInt8}

theorem of_eq (h : Writes m b) (hb : b = c) : Writes m c := hb ▸ h

theorem bind {f : α → RenderM β} (hm : Writes m b) (hf : ∀ a, Writes (f a) c) :
    Writes (m >>= f) (b ++ c) := fun o =>
  (hm o).bind fun a => (hf a (o ++ b)).conseq (fun _ => id)
    (fun _ _ h => by rw [h, List.append_assoc]) fun _ _ => id

/-- A call that writes nothing, then `f`. -/
theorem quiet_bind {f : α → RenderM β} (hm : Writes m []) (hf : ∀ a, Writes (f a) c) :
    Writes (m >>= f) c :=
  (bind hm hf).of_eq (List.nil_append c)

theorem pure (a : α) : Writes (Pure.pure a : RenderM α) [] := fun _ =>
  Triple.pure fun _ h => by rw [h, List.append_nil]

theorem ite {p : Prop} [Decidable p] {t e : RenderM α} (ht : p → Writes t b)
    (he : ¬p → Writes e b) : Writes (if p then t else e) b := fun o =>
  Triple.ite (fun h => ht h o) fun h => he h o

/-- A call that returns without touching the stream writes nothing. -/
theorem of_run {v : World → α} {g : World → World} (hm : ∀ w, m w = .ok (v w) (g w))
    (hg : ∀ w, (g w).out = w.out) : Writes m [] := fun _ w hw => by
  rw [hm]; exact (hg w).trans (hw.trans (List.append_nil _).symm)

/-- The cleanup of a `failure:` label changes nothing a returning run writes. -/
theorem onFailure (h : Writes m b) (cleanup : RenderM Unit) :
    Writes (Neo4jRender.onFailure m cleanup) b := fun o =>
  Triple.onFailure (h o) Triple.trivial fun _ _ _ => id

end Writes

theorem orFail_fwrite_writes (bytes : List UInt8) : Writes (orFail (fwrite bytes)) bytes :=
  fun _ => orFail_spec ((fwrite_spec bytes).pre fun w hw => by
    split
    · simp only [if_true, hw, ‹bytes = []›, List.append_nil]
    · split <;> simp [hw])

theorem orFail_attempt_writes (call : Bool → Call) : Writes (orFail (attempt call)) [] :=
  fun _ => orFail_spec ((attempt_spec call).pre fun w hw => by split <;> simp [hw])

theorem ntostring_quiet (value : Value) : Writes (ntostring value) [] :=
  Writes.of_run (fun _ => rfl) fun _ => rfl

theorem getBufcap_quiet : Writes getBufcap [] := Writes.of_run (fun _ => rfl) fun _ => rfl

theorem setBufcap_quiet (size : Nat) : Writes (setBufcap size) [] :=
  Writes.of_run (fun _ => rfl) fun _ => rfl

theorem getBuf_quiet : Writes getBuf [] := Writes.of_run (fun _ => rfl) fun _ => rfl

theorem newBuffer_quiet (size : Nat) : Writes (newBuffer size) [] :=
  Writes.of_run (fun _ => rfl) fun _ => rfl

theorem checkResults_writes (code : Nat) : Writes (checkResults code) [] :=
  fun _ => (checkResults_spec code).pre fun w hw => by split <;> simp [hw]

end Neo4jRender
