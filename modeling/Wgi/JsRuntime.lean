import Wgi.LambdaEnv

/-!
# The Event Buffer of the JS Runtime

The JS runtime is a lambda guest written in C (`quickjs-lambda.c`). Its `nextEvent` reads the
event into a static buffer, which it enlarges when an event needs more room than any event
before and never shrinks, clears it, and parses the bytes the server copied. The parser
wants the length of the text and a NUL byte behind it.

The guest runs on a 32-bit machine: pointers, `size_t` and `uint32_t` are all `UInt32`, and
the addition that makes room for the NUL byte wraps around. The heap of the guest is a
parameter; what follows a failed `realloc`, which the guest does not check, is undefined
and ends the run.

## Main results

* `jsLambdaNextEvent_spec`: one call, from any state whose buffer lies in the memory.
* `nextEvent_run`: over every sequence of calls, with any events and anything the guest
  does in between, every call hands over its own event and nothing of an earlier one.
-/

namespace Wgi

open Fallible

/-- The heap of the guest, which lives in the memory of the guest. -/
structure Heap where
  /-- `realloc`: the new block and the memory afterwards, or nothing when it returns NULL. -/
  realloc : Bytes → UInt32 → UInt32 → Option (UInt32 × Bytes)
  /-- A block it returns lies in the memory. -/
  le_of_realloc : ∀ {memory memory' buf size buf'}, realloc memory buf size = some (buf', memory') →
    buf'.toNat + size.toNat ≤ memory'.length

/-- What ends the run of the guest early. -/
inductive Fault where
  /-- A host function panicked. -/
  | host (panic : Panic)
  /-- `realloc` returned NULL. -/
  | reallocFailed
  /-- An access outside the memory. -/
  | trap
  deriving DecidableEq, Repr

/-- The runtime: the environment of the host functions with the memory, and the two static
variables. -/
structure JsRuntime where
  env : Env
  eventBuf : UInt32
  eventBufLen : UInt32

/-- What `nextEvent` does with the event. -/
inductive NextEvent where
  /-- It returns `JS_TAG_NULL`. -/
  | tagNull
  /-- It calls `JS_ParseJSON` with a pointer and a length, in the given state. -/
  | parseJson (buf len : UInt32) (state : JsRuntime)

/-- The runtime before the first call: the buffer is NULL and has no length. -/
def JsRuntime.start (env : Env) : JsRuntime where
  env := env
  eventBuf := 0
  eventBufLen := 0

/-- The runtime with other bytes in its memory. -/
def JsRuntime.setMemory (rt : JsRuntime) (memory : Bytes) : JsRuntime :=
  { rt with env := { rt.env with memory := some memory } }

/-- The call of a host function. -/
def hostCall {α : Type} (result : Except Panic α) : Except Fault α :=
  result.mapError .host

section NextEvent

variable (wasmer : Wasmer) (heap : Heap)

/-- `if (len > event_buf_len)`: enlarge the buffer. -/
def growBuffer (rt : JsRuntime) (len : UInt32) : Except Fault JsRuntime :=
  if len > rt.eventBufLen then do
    let memory ← hostCall rt.env.getMemory
    match heap.realloc memory rt.eventBuf len with
    | some (buf, memory) => pure ⟨{ rt.env with memory := some memory }, buf, len⟩
    | none => throw .reallocFailed
  else pure rt

/-- `memset(event_buf, 0, event_buf_len)`. -/
def clearBuffer (rt : JsRuntime) : Except Fault JsRuntime := do
  let memory ← hostCall rt.env.getMemory
  if rt.eventBuf.toNat + rt.eventBufLen.toNat ≤ memory.length then
    pure (rt.setMemory (setCells memory rt.eventBuf (List.replicate rt.eventBufLen.toNat 0)))
  else throw .trap

/-- `js_lambda_next_event`. -/
def jsLambdaNextEvent (rt : JsRuntime) : Except Fault (NextEvent × JsRuntime) := do
  let size ← hostCall (eventSize rt.env)
  let len := size + 1
  if len = 0 then pure (.tagNull, rt)
  else do
    let rt ← growBuffer heap rt len
    let rt ← clearBuffer rt
    let (nbytes, env) ← hostCall (event wasmer rt.env rt.eventBuf rt.eventBufLen)
    let rt := { rt with env }
    pure (.parseJson rt.eventBuf nbytes rt, rt)

/-- A call of `nextEvent`: the request the server has for it, the response the guest has sent
by then, and what it has done to its memory since the last call. -/
structure JsCall where
  request : Bytes
  response : Option LambdaResponse
  work : Bytes → Bytes
  /-- The memory of a guest never shrinks. -/
  work_grows : ∀ memory, memory.length ≤ (work memory).length

/-- The runtime at the time of a call. -/
def JsRuntime.before (rt : JsRuntime) (call : JsCall) : JsRuntime :=
  { rt with env := ⟨⟨call.request, call.response⟩, rt.env.memory.map call.work⟩ }

/-- The runtime as a machine over the calls of `nextEvent`. -/
def jsRuntime : Machine JsRuntime JsCall NextEvent Fault where
  step rt call := jsLambdaNextEvent wasmer heap (rt.before call)

end NextEvent

/-! ### Ranges of the memory -/

/-- The range of cells that were set begins with them and is otherwise as it was. -/
theorem rangeOf_setCells {memory cells : Bytes} {buf bufLen : UInt32}
    (hcells : cells.length ≤ bufLen.toNat)
    (hle : buf.toNat + bufLen.toNat ≤ memory.length) :
    rangeOf (setCells memory buf cells) buf bufLen =
      cells ++ (rangeOf memory buf bufLen).drop cells.length := by
  have hbefore : (memory.take buf.toNat).length = buf.toNat := by
    rw [List.length_take]
    omega
  have hdrop : (setCells memory buf cells).drop buf.toNat =
      cells ++ memory.drop (buf.toNat + cells.length) := by
    rw [setCells, List.append_assoc, List.drop_left' hbefore]
  rw [rangeOf, hdrop, List.take_append, List.take_of_length_le hcells, rangeOf, List.drop_take,
    List.drop_drop]

/-- A shorter range at the same place is the beginning of the range. -/
theorem rangeOf_of_le {memory : Bytes} {buf len bufLen : UInt32} (h : len.toNat ≤ bufLen.toNat) :
    rangeOf memory buf len = (rangeOf memory buf bufLen).take len.toNat := by
  rw [rangeOf, rangeOf, List.take_take, Nat.min_eq_left h]

/-- A byte of a range is a byte of the memory. -/
theorem getElem?_rangeOf {memory : Bytes} {buf bufLen : UInt32} {i : ℕ} (h : i < bufLen.toNat) :
    (rangeOf memory buf bufLen)[i]? = memory[buf.toNat + i]? := by
  rw [rangeOf, List.getElem?_take_of_lt h, List.getElem?_drop]

/-! ### One call -/

section Spec

variable {wasmer : Wasmer} {heap : Heap}

/-- The invariant of the static variables: the buffer lies in the memory of the guest. -/
def BufferIn (rt : JsRuntime) (memory : Bytes) : Prop :=
  rt.env.memory = some memory ∧ rt.eventBuf.toNat + rt.eventBufLen.toNat ≤ memory.length

theorem hostCall_getMemory {env : Env} {memory : Bytes} (hmem : env.memory = some memory) :
    hostCall env.getMemory = .ok memory := by
  rw [getMemory_eq hmem]
  rfl

/-- Enlarging the buffer fails with `realloc`, or makes room for the event. -/
theorem growBuffer_spec (heap : Heap) {rt : JsRuntime} {memory : Bytes} (h : BufferIn rt memory)
    (len : UInt32) :
    growBuffer heap rt len = .error .reallocFailed ∨
      ∃ rt' memory', growBuffer heap rt len = .ok rt' ∧ BufferIn rt' memory' ∧
        rt'.env.state = rt.env.state ∧ len.toNat ≤ rt'.eventBufLen.toNat := by
  obtain ⟨hmem, hle⟩ := h
  rw [growBuffer]
  by_cases hlen : len > rt.eventBufLen
  · rw [if_pos hlen, hostCall_getMemory hmem, ok_bind]
    cases hrealloc : heap.realloc memory rt.eventBuf len with
    | none => exact Or.inl rfl
    | some block =>
        obtain ⟨buf, memory'⟩ := block
        exact Or.inr ⟨_, memory', rfl, ⟨rfl, heap.le_of_realloc hrealloc⟩, rfl, Nat.le_refl _⟩
  · rw [if_neg hlen]
    exact Or.inr ⟨rt, memory, rfl, ⟨hmem, hle⟩, rfl,
      UInt32.le_iff_toNat_le.mp (UInt32.not_lt.mp hlen)⟩

/-- Clearing a buffer that lies in the memory makes all its bytes zero. -/
theorem clearBuffer_spec {rt : JsRuntime} {memory : Bytes} (h : BufferIn rt memory) :
    ∃ memory', clearBuffer rt = .ok (rt.setMemory memory') ∧
      memory'.length = memory.length ∧
      rangeOf memory' rt.eventBuf rt.eventBufLen = List.replicate rt.eventBufLen.toNat 0 := by
  obtain ⟨hmem, hle⟩ := h
  have hcells : (List.replicate rt.eventBufLen.toNat (0 : UInt8)).length = rt.eventBufLen.toNat :=
    List.length_replicate
  refine ⟨setCells memory rt.eventBuf (List.replicate rt.eventBufLen.toNat 0), ?_,
    length_setCells (by omega), ?_⟩
  · rw [clearBuffer, hostCall_getMemory hmem, ok_bind, if_pos hle]
    rfl
  · rw [rangeOf_setCells (by omega) hle, hcells,
      List.drop_of_length_le (Nat.le_of_eq (length_rangeOf hle)), List.append_nil]

/-- The buffer shows a request, and nothing else, to a parser that is given the buffer and a
length. -/
structure Shows (request : Bytes) (rt : JsRuntime) (memory : Bytes) (nbytes : UInt32) : Prop where
  memory_eq : rt.env.memory = some memory
  /-- The length is exact, -/
  nbytes_eq : nbytes.toNat = request.length
  /-- and so are the bytes. -/
  bytes_eq : rangeOf memory rt.eventBuf nbytes = request
  /-- The byte behind them is inside the buffer, -/
  lt_bufLen : request.length < rt.eventBufLen.toNat
  /-- which is inside the memory, -/
  le_memory : rt.eventBuf.toNat + rt.eventBufLen.toNat ≤ memory.length
  /-- and it is NUL. -/
  nul : memory[rt.eventBuf.toNat + request.length]? = some 0
  /-- The rest of the buffer is cleared. -/
  cleared : rangeOf memory rt.eventBuf rt.eventBufLen =
    request ++ List.replicate (rt.eventBufLen.toNat - request.length) 0

/-- What `nextEvent` is for: it hands the buffer to `JS_ParseJSON` when the buffer shows the
request. -/
def HandsOver (request : Bytes) (out : NextEvent) : Prop :=
  ∃ nbytes rt memory, out = .parseJson rt.eventBuf nbytes rt ∧ Shows request rt memory nbytes

/-- Copying a request into a buffer that is cleared and has room for it and one byte more. -/
theorem event_shows (wasmer : Wasmer) {rt : JsRuntime} {memory : Bytes} (h : BufferIn rt memory)
    (hroom : rt.env.state.request.length < rt.eventBufLen.toNat)
    (hclear : rangeOf memory rt.eventBuf rt.eventBufLen =
      List.replicate rt.eventBufLen.toNat 0) :
    ∃ nbytes memory', event wasmer rt.env rt.eventBuf rt.eventBufLen =
        .ok (nbytes, (rt.setMemory memory').env) ∧
      Shows rt.env.state.request (rt.setMemory memory') memory' nbytes := by
  obtain ⟨hmem, hle⟩ := h
  have hroom' : rt.env.state.request.length ≤ rt.eventBufLen.toNat := Nat.le_of_lt hroom
  have hnbytes : (UInt32.ofNat rt.env.state.request.length).toNat =
      rt.env.state.request.length :=
    UInt32.toNat_ofNat_of_lt' (Nat.lt_trans hroom rt.eventBufLen.toNat_lt)
  have hevent := event_eq hmem (wasmer.inBounds_of_le hle (by omega))
  rw [Nat.min_eq_right hroom', List.take_of_length_le hroom'] at hevent
  have hrange : rangeOf (setCells memory rt.eventBuf rt.env.state.request) rt.eventBuf
      rt.eventBufLen = rt.env.state.request ++
        List.replicate (rt.eventBufLen.toNat - rt.env.state.request.length) 0 := by
    rw [rangeOf_setCells hroom' hle, hclear, List.drop_replicate]
  have hbytes : rangeOf (setCells memory rt.eventBuf rt.env.state.request) rt.eventBuf
      (UInt32.ofNat rt.env.state.request.length) = rt.env.state.request := by
    rw [rangeOf_of_le (hnbytes ▸ hroom'), hrange, hnbytes, List.take_left]
  have hnul : (setCells memory rt.eventBuf rt.env.state.request)[rt.eventBuf.toNat +
      rt.env.state.request.length]? = some 0 := by
    rw [← getElem?_rangeOf hroom, hrange, List.getElem?_append_right (Nat.le_refl _),
      Nat.sub_self, List.getElem?_replicate_of_lt (by omega)]
  exact ⟨_, _, hevent, rfl, hnbytes, hbytes, hroom,
    Nat.le_trans hle (Nat.le_of_eq (length_setCells (by omega)).symm), hnul, hrange⟩

/-- A request that leaves room for the NUL byte is not mistaken for none. -/
theorem jsLambdaNextEvent_eq (wasmer : Wasmer) (heap : Heap) {rt : JsRuntime}
    (hlen : rt.env.state.request.length < UInt32.size - 1) :
    ∃ len : UInt32, len.toNat = rt.env.state.request.length + 1 ∧
      jsLambdaNextEvent wasmer heap rt = (do
        let rt ← growBuffer heap rt len
        let rt ← clearBuffer rt
        let (nbytes, env) ← hostCall (event wasmer rt.env rt.eventBuf rt.eventBufLen)
        pure (.parseJson rt.eventBuf nbytes { rt with env }, { rt with env })) := by
  have hsize : eventSize rt.env = .ok (UInt32.ofNat rt.env.state.request.length) :=
    eventSize_eq (by omega)
  have hadd : (UInt32.ofNat rt.env.state.request.length + 1).toNat =
      rt.env.state.request.length + 1 := by
    rw [← UInt32.ofNat_one, ← UInt32.ofNat_add, UInt32.toNat_ofNat_of_lt' (by omega)]
  have hne : ¬ UInt32.ofNat rt.env.state.request.length + 1 = 0 := by
    intro hzero
    rw [hzero] at hadd
    exact absurd hadd (by simp)
  refine ⟨_, hadd, ?_⟩
  rw [jsLambdaNextEvent, hsize]
  exact if_neg hne

/-- **One call**: from a buffer in the memory, `nextEvent` fails with `realloc`, or hands the
request over and leaves a buffer in the memory. -/
theorem jsLambdaNextEvent_spec (wasmer : Wasmer) (heap : Heap) {rt : JsRuntime} {memory : Bytes}
    (h : BufferIn rt memory) (hlen : rt.env.state.request.length < UInt32.size - 1) :
    jsLambdaNextEvent wasmer heap rt = .error .reallocFailed ∨
      ∃ out rt' memory', jsLambdaNextEvent wasmer heap rt = .ok (out, rt') ∧
        HandsOver rt.env.state.request out ∧ BufferIn rt' memory' := by
  obtain ⟨len, hlen, heq⟩ := jsLambdaNextEvent_eq wasmer heap hlen
  rw [heq]
  rcases growBuffer_spec heap h len with hgrow | ⟨rt₁, memory₁, hgrow, hin₁, hstate, hroom⟩
  · exact Or.inl (by rw [hgrow]; rfl)
  · obtain ⟨memory₂, hclear, hsize, hzero⟩ := clearBuffer_spec hin₁
    have hin₂ : BufferIn (rt₁.setMemory memory₂) memory₂ := ⟨rfl, hsize ▸ hin₁.2⟩
    have hrequest : (rt₁.setMemory memory₂).env.state.request = rt.env.state.request := by
      rw [← hstate]
      rfl
    obtain ⟨nbytes, memory₃, hevent, hshows⟩ := event_shows wasmer hin₂
      (by rw [hrequest]; exact Nat.lt_of_lt_of_le (by omega) hroom) hzero
    rw [hrequest] at hshows
    refine Or.inr ⟨_, _, memory₃, ?_, ⟨nbytes, _, memory₃, rfl, hshows⟩, rfl, hshows.le_memory⟩
    rw [hgrow, ok_bind, hclear, ok_bind, hevent]
    rfl

/-! ### Every sequence of calls -/

/-- The runtime is ready for the calls: the buffer lies in the memory, and every request
leaves room for the NUL byte. -/
def JsReady (calls : List JsCall) (rt : JsRuntime) : Prop :=
  (∃ memory, BufferIn rt memory) ∧ ∀ call ∈ calls, call.request.length < UInt32.size - 1

/-- The step lemma: what the guest does between two calls keeps the buffer in the memory, and
so does the call. -/
theorem step_jsReady (call : JsCall) (calls : List JsCall) (rt : JsRuntime)
    (h : JsReady (call :: calls) rt) :
    (∃ fault, fault = .reallocFailed ∧ (jsRuntime wasmer heap).step rt call = .error fault) ∨
      ∃ out rt', (jsRuntime wasmer heap).step rt call = .ok (out, rt') ∧
        HandsOver call.request out ∧ JsReady calls rt' := by
  obtain ⟨⟨memory, hmem, hle⟩, hcalls⟩ := h
  have hin : BufferIn (rt.before call) (call.work memory) := by
    refine ⟨?_, Nat.le_trans hle (call.work_grows memory)⟩
    rw [JsRuntime.before, hmem]
    rfl
  rcases jsLambdaNextEvent_spec wasmer heap hin (hcalls call List.mem_cons_self) with
    hfail | ⟨out, rt', memory', hstep, hout, hin'⟩
  · exact Or.inl ⟨_, rfl, hfail⟩
  · exact Or.inr ⟨out, rt', hstep, hout, ⟨memory', hin'⟩,
      fun c hc => hcalls c (List.mem_cons_of_mem call hc)⟩

end Spec

/-- **The event buffer.** Take any sequence of calls of `nextEvent`, whose requests are any
byte strings of less than `2^32 - 1` bytes, and in which no `realloc` fails. All calls
return. Each hands `JS_ParseJSON` the bytes of its own request and their exact length; the
byte behind them is NUL and lies inside the buffer; and the rest of the buffer is cleared, so
that nothing of an earlier event is left. -/
theorem nextEvent_run (wasmer : Wasmer) (heap : Heap) (env : Env) (memory : Bytes)
    (hmem : env.memory = some memory) (calls : List JsCall)
    (hcalls : ∀ call ∈ calls, call.request.length < UInt32.size - 1)
    (hrealloc : (jsRuntime wasmer heap).run (.start env) calls ≠ .error .reallocFailed) :
    ∃ outs rt, (jsRuntime wasmer heap).run (.start env) calls = .ok (outs, rt) ∧
      List.Forall₂ (fun call out => HandsOver call.request out) calls outs := by
  have hready : JsReady calls (.start env) :=
    ⟨⟨memory, hmem, Nat.zero_le memory.length⟩, hcalls⟩
  rcases (jsRuntime wasmer heap).run_total_or step_jsReady hready with
    ⟨fault, rfl, hfail⟩ | ⟨outs, rt, hrun, houts, -⟩
  · exact absurd hfail hrealloc
  · exact ⟨outs, rt, hrun, houts⟩

/-! ### Three events -/

/-- A heap that puts every block behind all others, as long as the addresses reach. -/
def Heap.bump : Heap where
  realloc memory buf size :=
    if memory.length + size.toNat < UInt32.size then
      let old := if buf = 0 then [] else memory.drop buf.toNat
      some (UInt32.ofNat memory.length,
        memory ++ (old ++ List.replicate size.toNat 0).take size.toNat)
    else none
  le_of_realloc {memory memory' buf size buf'} h := by
    split at h
    · next hlt =>
        obtain ⟨rfl, rfl⟩ := Prod.mk.inj (Option.some.inj h)
        rw [UInt32.toNat_ofNat_of_lt' (by omega), List.length_append, List.length_take,
          List.length_append, List.length_replicate]
        omega
    · exact absurd h (by simp)

/-- A call between which and the one before the guest filled its memory with a byte. -/
def callAfterFill (request : String) (byte : UInt8) : JsCall where
  request := Utf8.encode request.toList
  response := none
  work memory := List.replicate memory.length byte
  work_grows memory := by rw [List.length_replicate]

/-- A small event, a larger one, and a small one again. -/
theorem nextEvent_run_three :
    ∃ outs rt, (jsRuntime .reference .bump).run (.start ⟨⟨[], none⟩, some [7, 7, 7, 7]⟩)
        [callAfterFill "[1]" 1, callAfterFill "[1,2,3]" 2, callAfterFill "[]" 3] =
          .ok (outs, rt) ∧
      List.Forall₂ (fun call out => HandsOver call.request out)
        [callAfterFill "[1]" 1, callAfterFill "[1,2,3]" 2, callAfterFill "[]" 3] outs := by
  refine nextEvent_run .reference .bump ⟨⟨[], none⟩, some [7, 7, 7, 7]⟩ [7, 7, 7, 7] rfl _ ?_ ?_
  · decide
  · intro hfail
    have hreturns : ((jsRuntime .reference .bump).run (.start ⟨⟨[], none⟩, some [7, 7, 7, 7]⟩)
        [callAfterFill "[1]" 1, callAfterFill "[1,2,3]" 2, callAfterFill "[]" 3]).toOption.isSome =
          true := rfl
    rw [hfail] at hreturns
    exact absurd hreturns (by simp [Except.toOption])

end Wgi
