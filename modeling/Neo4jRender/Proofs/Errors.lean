/-
How the renderers fail.

Every outside call is logged with its outcome, and the fault oracle of the world says which
stream and allocator calls fail, so a run over an arbitrary world is a run against every
pattern of failures at once.  `failureGuard` is the guard of a run that stops at its first
failed call: before it, every call since the run began succeeded; after it, the only call is
the flush at `failure:`; and when the failed call is `neo4j_check_failure`, its code is in
`errno`, which the cleanup saves and restores around the flush.

`renderers_failureDiscipline` reads that guard back as the renderers' contract: a run returns
`0` only if all its calls succeeded, a failed write is followed by the closing flush alone and
makes the run return `-1`, and a failure of the result stream makes it return `-1` with the
stream's code in `errno`.
-/
import Neo4jRender.Proofs.Guard

namespace Neo4jRender

/-! ### Logs that stop at their first failure -/

/-- Whether a call is a `fflush`. -/
def Call.isFlush : Call → Bool
  | .flush _ => true
  | _ => false

/-- Every call logged after `l0` succeeded. -/
def CallsOk (l0 log : List Call) : Prop := ∃ l, log = l0 ++ l ∧ ∀ c ∈ l, c.ok

/-- The calls logged after `l0` stop at the failed call `c`: those before it succeeded and
only flushes came after it. -/
def FailedAt (l0 log : List Call) (c : Call) : Prop :=
  ∃ l t, log = l0 ++ l ++ c :: t ∧ (∀ x ∈ l, x.ok) ∧ c.ok = false ∧
    ∀ x ∈ t, x.isFlush

theorem callsOk_self (l0 : List Call) : CallsOk l0 l0 := ⟨[], by simp, by simp⟩

theorem CallsOk.snoc {l0 log : List Call} (h : CallsOk l0 log) {c : Call} (hc : c.ok) :
    CallsOk l0 (log ++ [c]) := by
  obtain ⟨l, rfl, hl⟩ := h
  exact ⟨l ++ [c], by simp, by simpa [or_imp, forall_and] using ⟨hl, hc⟩⟩

theorem CallsOk.failedAt {l0 log : List Call} (h : CallsOk l0 log) {c : Call} (hc : c.ok = false) :
    FailedAt l0 (log ++ [c]) c := by
  obtain ⟨l, rfl, hl⟩ := h
  exact ⟨l, [], by simp, hl, hc, by simp⟩

theorem FailedAt.flush {l0 log : List Call} {c : Call} (h : FailedAt l0 log c) (b : Bool) :
    FailedAt l0 (log ++ [.flush b]) c := by
  obtain ⟨l, t, rfl, hl, hc, ht⟩ := h
  exact ⟨l, t ++ [.flush b], by simp, hl, hc, by simpa [or_imp, forall_and] using ⟨ht, rfl⟩⟩

/-- A log whose calls since `l0` all succeeded has no failed call there. -/
theorem CallsOk.not_failed {l0 log l₁ l₂ : List Call} {d : Call} (h : CallsOk l0 log)
    (hlog : log = l0 ++ l₁ ++ d :: l₂) (hd : d.ok = false) : False := by
  obtain ⟨l, rfl, hl⟩ := h
  rw [List.append_assoc, List.append_cancel_left_eq] at hlog
  simpa [hd] using hl d (by simp [hlog])

/-- **The first failed call sits at one place**: a failed call that is not a flush, after calls
that all succeeded and before flushes only, is the first failed call. -/
theorem first_failure_unique {l t l₁ l₂ : List Call} {c d : Call} (hl : ∀ x ∈ l, x.ok)
    (ht : ∀ x ∈ t, x.isFlush) (hd : d.ok = false) (hf : d.isFlush = false)
    (h : l ++ c :: t = l₁ ++ d :: l₂) : d = c ∧ l₂ = t := by
  induction l generalizing l₁ with
  | nil =>
    cases l₁ with
    | nil => simp only [List.nil_append, List.cons.injEq] at h; exact ⟨h.1.symm, h.2.symm⟩
    | cons x l₁ =>
      simp only [List.nil_append, List.cons_append, List.cons.injEq] at h
      simpa [hf] using ht d (by simp [h.2])
  | cons a l ih =>
    cases l₁ with
    | nil =>
      simp only [List.cons_append, List.nil_append, List.cons.injEq] at h
      simpa [h.1, hd] using hl a (List.mem_cons_self _ _)
    | cons x l₁ =>
      simp only [List.cons_append, List.cons.injEq] at h
      exact ih (fun y hy => hl y (List.mem_cons_of_mem _ hy)) h.2

theorem FailedAt.unique {l0 log l₁ l₂ : List Call} {c d : Call} (h : FailedAt l0 log c)
    (hlog : log = l0 ++ l₁ ++ d :: l₂) (hd : d.ok = false) (hf : d.isFlush = false) :
    d = c ∧ ∀ x ∈ l₂, x.isFlush := by
  obtain ⟨l, t, rfl, hl, -, ht⟩ := h
  simp only [List.append_assoc, List.append_cancel_left_eq] at hlog
  obtain ⟨rfl, rfl⟩ := first_failure_unique hl ht hd hf hlog
  exact ⟨rfl, ht⟩

/-! ### The guard -/

/-- A run that began with the calls `l0` logged and stops at its first failed call, leaving the
code of a failed `neo4j_check_failure` in `errno`.  A run that stops at a `REQUIRE` or at the
end of its fuel has made no failed call. -/
def failureGuard (l0 : List Call) : Guard where
  running w := CallsOk l0 w.log
  stopped w := CallsOk l0 w.log ∨
    ∃ c, FailedAt l0 w.log c ∧ ∀ code, c = .check code → w.errno = code
  chunk _ := True
  write w _ hw _ := by
    split
    · exact hw.snoc rfl
    · exact .inr ⟨_, hw.failedAt rfl, nofun⟩
  attempt w call hcall hw := by
    rcases hcall with rfl | rfl <;> split
    all_goals first | exact hw.snoc rfl | exact .inr ⟨_, hw.failedAt rfl, nofun⟩
  decode w hw := hw.snoc rfl
  reject w hw := .inr ⟨_, hw.failedAt rfl, nofun⟩
  check w code hw := by
    split
    · exact hw.snoc (by simp [Call.ok, *])
    · exact .inr ⟨_, hw.failedAt (by simp [Call.ok, *]), fun _ h => by cases h; rfl⟩
  require _ hw := .inl hw
  buf _ _ hw := hw
  bufcap _ _ hw := hw
  cleanup w hw := by
    rcases hw with hw | ⟨c, hc, he⟩
    · split
      · exact .inl (hw.snoc rfl)
      · exact .inr ⟨_, hw.failedAt rfl, nofun⟩
    · split
      · exact .inr ⟨c, hc.flush true, he⟩
      · exact .inr ⟨c, hc.flush false, he⟩

/-- Every write is allowed: the guard is about which calls fail, not about bytes. -/
theorem failureGuard_tableChunks (l0 : List Call) (flags : RenderFlags) :
    TableChunks (failureGuard l0) flags :=
  ⟨fun _ _ => trivial, fun _ => trivial, trivial, fun _ _ _ _ _ => trivial⟩

/-! ### The contract -/

/-- What a run from `w` that ends in `r` shows of its calls. -/
structure FailureDiscipline (w : World) (r : EStateM.Result Err World Unit) : Prop where
  /-- It returns `0` only if every call it made succeeded: writes, flushes, allocations, the
  decoder, and the checks of the result stream. -/
  ok_calls : ∀ w', r = .ok () w' → CallsOk w.log w'.log
  /-- After a failed write it makes no call but the flush at `failure:`, and returns `-1`. -/
  write_failed : ∀ l₁ l₂, (finalWorld r).log = w.log ++ l₁ ++ .write false :: l₂ →
    (∀ c ∈ l₂, c.isFlush) ∧ ∃ w', r = .error .failed w'
  /-- A failure the result stream reports makes it return `-1`, with the code in `errno`. -/
  source_failed : ∀ l₁ l₂ code, code ≠ 0 →
    (finalWorld r).log = w.log ++ l₁ ++ .check code :: l₂ →
      ∃ w', r = .error .failed w' ∧ w'.errno = code

/-- A run that ends with no failed call since `w`. -/
theorem failureDiscipline_of_callsOk {w : World} {r : EStateM.Result Err World Unit}
    (h : CallsOk w.log (finalWorld r).log) : FailureDiscipline w r where
  ok_calls _ hr := by subst hr; exact h
  write_failed _ _ hlog := (h.not_failed hlog rfl).elim
  source_failed _ _ _ hc hlog := (h.not_failed hlog (by simpa [Call.ok] using hc)).elim

/-- A run that returns `-1` having stopped at the failed call `c`. -/
theorem failureDiscipline_of_failedAt {w w' : World} {c : Call} (hc : FailedAt w.log w'.log c)
    (he : ∀ code, c = .check code → w'.errno = code) :
    FailureDiscipline w (.error .failed w') where
  ok_calls _ h := nomatch h
  write_failed _ _ hlog := ⟨(hc.unique hlog rfl rfl).2, _, rfl⟩
  source_failed _ _ code hcode hlog :=
    ⟨_, rfl, he code (hc.unique hlog (by simpa [Call.ok] using hcode) rfl).1.symm⟩

/-- A computation that keeps the failure guard of the calls before it has the discipline. -/
theorem failureDiscipline_of_keeps {m : RenderM Unit} {w : World}
    (h : (failureGuard w.log).Keeps m) : FailureDiscipline w (m w) := by
  have hr := h w (callsOk_self w.log)
  generalize m w = r at hr ⊢
  rcases r with ⟨⟨⟩, w'⟩ | ⟨_ | _ | _, w'⟩
  · exact failureDiscipline_of_callsOk hr
  · rcases hr with hr | ⟨c, hc, he⟩
    · exact failureDiscipline_of_callsOk hr
    · exact failureDiscipline_of_failedAt hc he
  · exact failureDiscipline_of_callsOk hr
  · exact failureDiscipline_of_callsOk hr

end Neo4jRender
