/-
The C world the renderers run in.

The two source files talk to four things outside them: the output stream (`fputs`,
`fputc`, `fwrite`, `fflush`), the allocator (`malloc`, `calloc`, `realloc`, `memdup`),
the UTF-8 decoder, and the result stream's failure state (`neo4j_check_failure`).  A
`World` records what those calls did: the bytes that reached the stream, every call in
order with its outcome, `errno`, and the staging buffer that `render_results.c` shares
between its callbacks.  Which calls fail is not up to the renderer, so it is a field the
world starts with: the `k`-th fallible call fails when `fault k` names an errno.

A C function that returns `-1` is a computation failing with `Err.failed`.  A fired
`assert` stops the process, `Err.abort`.  The loops that nothing bounds get a fuel
argument, and running out of it is `Err.outOfFuel`, which is never a C outcome.
-/
import Neo4jRender.Utf8

namespace Neo4jRender

/-- A C string: the bytes before its terminating NUL, which it therefore does not contain. -/
def CString := { s : List UInt8 // 0 ∉ s }

/-- The C string a `char *` names: its bytes up to the first NUL. -/
def CString.ofBytes (b : List UInt8) : CString :=
  ⟨b.takeWhile (· != 0), fun h => by simpa using List.mem_takeWhile_imp h⟩

/-- The bytes of a string of ASCII characters. -/
def bytesOf (s : String) : List UInt8 := s.toList.map fun c => c.toNat.toUInt8

/-- One call the renderers make outside the two files, with its outcome. -/
inductive Call where
  /-- `fputs`, `fputc` or `fwrite` on the output stream. -/
  | write (ok : Bool)
  /-- `fflush` on the output stream. -/
  | flush (ok : Bool)
  /-- `malloc`, `calloc`, `realloc` or `memdup`. -/
  | alloc (ok : Bool)
  /-- `neo4j_u8codepoint`. -/
  | decode (ok : Bool)
  /-- `neo4j_check_failure`, with the code it reported. -/
  | check (code : Nat)
  deriving DecidableEq, Repr

/-- Whether the call succeeded. -/
def Call.ok : Call → Bool
  | .write b | .flush b | .alloc b | .decode b => b
  | .check code => code == 0

/-- What the renderers' outside calls have done so far. -/
structure World where
  /-- The bytes that reached the stream. -/
  out : List UInt8
  /-- Every outside call, in order. -/
  log : List Call
  errno : Nat
  /-- The staging buffer: its contents `*buf` and its capacity `*bufcap`. -/
  buf : List UInt8
  bufcap : Nat
  /-- The errno of the `k`-th logged call, when the stream or the allocator fails it. -/
  fault : Nat → Option Nat

/-- A world with nothing written yet, whose stream and allocator never fail. -/
def World.init : World := ⟨[], [], 0, [], 0, fun _ => none⟩

/-- How a modelled C function can end other than by returning. -/
inductive Err where
  /-- It returned `-1`. -/
  | failed
  /-- An `assert` fired. -/
  | abort
  /-- The model's bound on an unbounded loop ran out. -/
  | outOfFuel
  deriving DecidableEq, Repr

abbrev RenderM := EStateM Err World

/-- What the renderers read from outside that no call changes: the locale, two constants of
headers that are not in src/, and the display-width function of the client library. -/
structure Env where
  /-- `nl_langinfo(CODESET)`. -/
  codeset : String
  /-- `NEO4J_RENDER_MAX_WIDTH`. -/
  maxWidth : Nat
  /-- `NEO4J_FIELD_BUFFER_INITIAL_CAPACITY`. -/
  fieldBufferInitialCapacity : Nat
  /-- `neo4j_u8cpwidth`: the columns a codepoint takes, `none` for an unprintable one. -/
  u8cpwidth : Nat → Option Nat

/-- A build and locale to run the model on: a UTF-8 terminal, tables up to 4095 columns, a
1024-byte first staging buffer for CSV, and the width table of `u8cpwidth`. -/
def Env.utf8Terminal : Env :=
  { codeset := "UTF-8", maxWidth := 4095, fieldBufferInitialCapacity := 1024,
    u8cpwidth := Neo4jRender.u8cpwidth }

/-- A world whose stream and allocator never fail. -/
def World.Reliable (w : World) : Prop := ∀ k, w.fault k = none

/-! ### Updating a world

Every change a call makes is one of these, so that each has its field lemmas once.
-/

/-- A call that succeeded, having written `bytes` to the stream. -/
@[simps] def World.record (w : World) (c : Call) (bytes : List UInt8) : World :=
  { w with out := w.out ++ bytes, log := w.log ++ [c] }

/-- A call that failed, leaving `e` in `errno`. -/
@[simps] def World.reject (w : World) (c : Call) (e : Nat) : World :=
  { w with log := w.log ++ [c], errno := e }

@[simps] def World.withErrno (w : World) (e : Nat) : World := { w with errno := e }

@[simps] def World.withBuf (w : World) (buf : List UInt8) : World := { w with buf := buf }

@[simps] def World.withBufcap (w : World) (bufcap : Nat) : World := { w with bufcap := bufcap }

/-! ### Calls on the stream and the allocator -/

/-- A stream or allocator call other than a write: it fails when `fault` says so, and then
sets `errno`; either way it is logged. -/
def attempt (call : Bool → Call) : RenderM Bool := fun w =>
  match w.fault w.log.length with
  | none => .ok true (w.record (call true) [])
  | some e => .ok false (w.reject (call false) e)

/-- `fwrite(s, 1, n, stream) == n`.  Writing no bytes is no call and cannot fail. -/
def fwrite (bytes : List UInt8) : RenderM Bool := fun w =>
  if bytes = [] then .ok true w
  else match w.fault w.log.length with
    | none => .ok true (w.record (.write true) bytes)
    | some e => .ok false (w.reject (.write false) e)

/-- `fputs(s, stream) != EOF`. -/
def fputs (s : CString) : RenderM Bool := fwrite s.1

/-- `fputc(c, stream) != EOF`. -/
def fputc (c : UInt8) : RenderM Bool := fwrite [c]

/-- `fflush(stream) != EOF`. -/
def fflush : RenderM Bool := attempt .flush

/-- `malloc`, `calloc`, `realloc` or `memdup` returned a block rather than `NULL`. -/
def alloc : RenderM Bool := attempt .alloc

/-- `if (call == EOF) goto failure;`, `if (p == NULL) return -1;`: a failed call ends the
function with `-1`. -/
def orFail (call : RenderM Bool) : RenderM Unit := do
  if ← call then pure () else throw .failed

/-- `neo4j_u8codepoint(s, &bytes)` on the memory from `s` on, with the `if (cp < 0) return -1;`
after it. -/
def decodeAt (mem : List UInt8) : RenderM (Nat × Nat) := fun w =>
  match u8codepoint mem with
  | some r => .ok r (w.record (.decode true) [])
  | none => .error .failed (w.record (.decode false) [])

/-- `neo4j_check_failure(results)`, reporting `code`. -/
def checkFailure (code : Nat) : RenderM Nat := fun w =>
  .ok code (w.record (.check code) [])

def getErrno : RenderM Nat := fun w => .ok w.errno w

def setErrno (e : Nat) : RenderM Unit := fun w => .ok () (w.withErrno e)

/-- `assert(c)`. -/
def cAssert (c : Prop) [Decidable c] : RenderM Unit :=
  if c then pure () else throw .abort

/-- The `failure:` label: after a `-1` from `body`, run `cleanup` and return `-1`. -/
def onFailure {α : Type} (body : RenderM α) (cleanup : RenderM Unit) : RenderM α := fun w =>
  match body w with
  | .error .failed w' =>
    match cleanup w' with
    | .ok _ w'' => .error .failed w''
    | .error e w'' => .error e w''
  | r => r

/-- The cleanup both top-level renderers run at `failure:`: `errsv = errno; fflush(stream);`
the frees, `errno = errsv;`. -/
def failureCleanup : RenderM Unit := do
  let errsv ← getErrno
  let _ ← fflush
  setErrno errsv

/-! ### Reading a run back -/

/-- The world a run ends in, whether it returned or failed. -/
def finalWorld {α : Type} : EStateM.Result Err World α → World
  | .ok _ w => w
  | .error _ w => w

@[simp] theorem finalWorld_ok {α : Type} (a : α) (w : World) :
    finalWorld (EStateM.Result.ok a w : EStateM.Result Err World α) = w := rfl

@[simp] theorem finalWorld_error {α : Type} (e : Err) (w : World) :
    finalWorld (EStateM.Result.error e w : EStateM.Result Err World α) = w := rfl

end Neo4jRender
