import Wgi.JsRuntime
import Wgi.Server

/-!
# JavaScript Lambdas

`jsl.c` evaluates `bootstrap.js`, which asks the module `lambda` of `quickjs-lambda.c` for the
event, calls the handler that the user's `lambda.js` exports, and sends what it returns. Any of
the scripts can call `nextEvent`, `sendResponse` and `console.log`, as often as it likes.

There are two levels. `JsProgram.means` is what the author of a script sees: values go in and
out, and there is no memory. `JsProgram.run` is the guest: the event goes through the static
buffer, the response through a C string in the memory of the guest, and both through the host
functions of the server. The engine, which is vendored with the runtime and far larger than it,
is a parameter.

A guest whose memory is exhausted goes on with NULL pointers, which point to the address 0. The
results are about the runs in which that does not happen; `JsProgram.hasRoom` says so along the
states of one run.

## Main results

* `JsProgram.run_means`: the guest does what the script means.
* `js_served`: the same for the reply and the log of the server.
-/

namespace Wgi

open Fallible

/-- QuickJS, as far as the runtime uses it, with the values that scripts work with. -/
structure QuickJs (Value : Type) where
  Exception : Type
  /-- Whether an exception is thrown because the memory is exhausted. -/
  outOfMemory : Exception → Bool
  /-- The value that `return JS_TAG_NULL` makes, which is not the one of `null`. -/
  tagNull : Value
  /-- The meaning of a JSON text. -/
  parseJson : Bytes → Except Exception Value
  /-- `JS_ParseJSON`, with a pointer into the memory and a length. -/
  parseJsonAt : Bytes → UInt32 → UInt32 → Except Exception Value
  /-- It reads a text that a NUL byte follows. -/
  parseJsonAt_eq : ∀ {memory text : Bytes} {buf len : UInt32}, rangeOf memory buf len = text →
    len.toNat = text.length → memory[buf.toNat + text.length]? = some 0 →
    parseJsonAt memory buf len = parseJson text ∨
      ∃ err, parseJsonAt memory buf len = .error err ∧ outOfMemory err = true
  /-- `JS_JSONStringify`, and its result as a string. It throws for some values. -/
  stringify : Value → Option Bytes
  /-- `JS_ToCString` of what `JS_JSONStringify` returns, which is NULL when either of them fails,
  and the memory afterwards. -/
  toCString : Bytes → Value → UInt32 × Bytes
  /-- Otherwise the string is in the memory, with a NUL byte behind it and shorter than the
  addresses reach, -/
  text_of_toCString : ∀ {memory memory' : Bytes} {value : Value} {str : UInt32},
    toCString memory value = (str, memory') → str ≠ 0 →
    ∃ text, stringify value = some text ∧ text.length < UInt32.size ∧
      text ++ [0] <+: memory'.drop str.toNat
  /-- and the memory never becomes smaller. -/
  le_of_toCString : ∀ {memory memory' : Bytes} {value : Value} {str : UInt32},
    toCString memory value = (str, memory') → memory.length ≤ memory'.length
  /-- What `js_std_dump_error` prints. -/
  dumpError : Exception → Bytes

/-- A script, as far as it has to do with the runtime. -/
inductive JsProgram {Value : Type} (js : QuickJs Value) where
  /-- The script ends. -/
  | done
  /-- The script throws an exception that is not caught. -/
  | throw (err : js.Exception)
  /-- The engine works on its memory, which never shrinks. -/
  | work (f : Bytes → Bytes) (grows : ∀ memory, memory.length ≤ (f memory).length)
      (next : JsProgram js)
  /-- `console.log`, with the strings of its arguments; it can throw. -/
  | print (args : List (Except js.Exception Bytes)) (next : Option js.Exception → JsProgram js)
  /-- `nextEvent()`, which can throw. -/
  | nextEvent (next : Except js.Exception Value → JsProgram js)
  /-- `sendResponse(response)`. -/
  | sendResponse (response : Value) (next : JsProgram js)

variable {Value : Type} {js : QuickJs Value}

/-- A script without the work of the engine. -/
def JsProgram.idle : JsProgram js → JsProgram js
  | .done => .done
  | .throw err => .throw err
  | .work _ _ next => next.idle
  | .print args next => .print args fun err => (next err).idle
  | .nextEvent next => .nextEvent fun event => (next event).idle
  | .sendResponse response next => .sendResponse response next.idle

/-- The loop of `js_print`: what it prints, and what it throws. The first argument says whether
one was printed before. -/
def jsPrint : Bool → List (Except js.Exception Bytes) → Bytes × Option js.Exception
  | _, [] => ([newline], none)
  | later, .ok str :: args =>
      let (out, err) := jsPrint true args
      ((if later then [32] else []) ++ str ++ out, err)
  | later, .error err :: _ => (if later then [32] else [], some err)

/-! ### The functions of the module `lambda` -/

/-- `strlen`, or nothing when there is no NUL byte up to the end of the memory. -/
def strlen (memory : Bytes) (str : UInt32) : Option UInt32 :=
  ((memory.drop str.toNat).findIdx? (· == 0)).map UInt32.ofNat

/-- What `nextEvent()` returns or throws. -/
def NextEvent.value (js : QuickJs Value) : NextEvent → Except js.Exception Value
  | .tagNull => .ok js.tagNull
  | .parseJson buf len rt => js.parseJsonAt (rt.env.memory.getD []) buf len

/-- `js_lambda_send_response`: what the server prints, and the runtime afterwards. -/
def jsLambdaSendResponse (js : QuickJs Value) (serde : SerdeJson) (wasmer : Wasmer)
    (rt : JsRuntime) (response : Value) : Except Fault (Option Str × JsRuntime) := do
  let memory ← hostCall rt.env.getMemory
  let (str, memory) := js.toCString memory response
  let rt := rt.setMemory memory
  match strlen memory str with
  | none => throw .trap
  | some len => do
      let (_, printed, env) ← hostCall (sendResponse serde wasmer rt.env str len)
      pure (printed, { rt with env })

/-! ### The guest -/

section Guest

variable (heap : Heap)

/-- `if (len > event_buf_len)`, with what comes after it. A failed `realloc` leaves NULL behind,
and the new length. -/
def growThen (eventBuf eventBufLen len : UInt32) (next : UInt32 → UInt32 → LambdaGuest) :
    LambdaGuest :=
  if len > eventBufLen then
    .load fun memory =>
      match heap.realloc memory eventBuf len with
      | some (buf, memory) => .call (.write memory) fun _ => next buf len
      | none => next 0 len
  else next eventBuf eventBufLen

/-- `memset(event_buf, 0, event_buf_len)`, with what comes after it. -/
def clearThen (eventBuf eventBufLen : UInt32) (next : LambdaGuest) : LambdaGuest :=
  .load fun memory =>
    if eventBuf.toNat + eventBufLen.toNat ≤ memory.length then
      .call (.write (setCells memory eventBuf (List.replicate eventBufLen.toNat 0))) fun _ => next
    else .trap

/-- `js_lambda_next_event`, with what comes after it. -/
def nextEventThen (eventBuf eventBufLen : UInt32)
    (next : Except js.Exception Value → UInt32 → UInt32 → LambdaGuest) : LambdaGuest :=
  .call .eventSize fun size =>
    if size + 1 = 0 then next (.ok js.tagNull) eventBuf eventBufLen
    else
      growThen heap eventBuf eventBufLen (size + 1) fun eventBuf eventBufLen =>
        clearThen eventBuf eventBufLen <|
          .call (.event eventBuf eventBufLen) fun nbytes =>
            .load fun memory =>
              next (js.parseJsonAt memory eventBuf nbytes) eventBuf eventBufLen

/-- `js_lambda_send_response`, with what comes after it. A NULL pointer is not told from others:
what is sent then is the string at the address 0. -/
def sendResponseThen (js : QuickJs Value) (response : Value) (next : LambdaGuest) : LambdaGuest :=
  .load fun memory =>
    let (str, memory) := js.toCString memory response
    .call (.write memory) fun _ =>
      match strlen memory str with
      | none => .trap
      | some len => .call (.sendResponse str len) fun _ => next

/-- The guest that evaluates a script, with the two static variables of `quickjs-lambda.c`. An
exception is printed, and `main` returns -1. -/
def JsProgram.run : JsProgram js → UInt32 → UInt32 → LambdaGuest
  | .done, _, _ => .done
  | .throw err, _, _ => .log (js.dumpError err) .trap
  | .work f _ next, eventBuf, eventBufLen =>
      .load fun memory => .call (.write (f memory)) fun _ => next.run eventBuf eventBufLen
  | .print args next, eventBuf, eventBufLen =>
      .print (jsPrint false args).1 ((next (jsPrint false args).2).run eventBuf eventBufLen)
  | .nextEvent next, eventBuf, eventBufLen =>
      nextEventThen heap eventBuf eventBufLen fun event eventBuf eventBufLen =>
        (next event).run eventBuf eventBufLen
  | .sendResponse response next, eventBuf, eventBufLen =>
      sendResponseThen js response (next.run eventBuf eventBufLen)

/-- A handler, as a script that may go on with the value it returns. -/
abbrev JsHandler (js : QuickJs Value) : Type :=
  Value → (Value → JsProgram js) → JsProgram js

/-- `bootstrap.js`, once the user's module is evaluated. -/
def bootstrap (handler : JsHandler js) : JsProgram js :=
  .nextEvent fun
    | .ok event => handler event fun response => .sendResponse response .done
    | .error err => .throw err

/-- `eval_bootstrap`: the user's module is loaded and evaluated, which can throw or do anything
else, and may then go on with the handler it exports. -/
def evalBootstrap (load : (JsHandler js → JsProgram js) → JsProgram js) : JsProgram js :=
  load bootstrap

/-- `main` of `jsl.c`, for what the evaluation does. -/
def Jsl.main (evaluation : JsProgram js) : LambdaGuest :=
  evaluation.run heap 0 0

end Guest

/-- Whether a value or an exception was made with room for it. -/
def QuickJs.madeRoom (js : QuickJs Value) : Except js.Exception Value → Bool
  | .ok _ => true
  | .error err => !js.outOfMemory err

/-- **Nothing is exhausted** in the run of a script from a state: `realloc` and the parser find
room, and a pointer to a text is NULL only for a value that has no text, while there is a NUL byte
at the address 0. -/
def JsProgram.hasRoom (heap : Heap) (serde : SerdeJson) (wasmer : Wasmer) :
    JsProgram js → JsRuntime → Bool
  | .done, _ => true
  | .throw _, _ => true
  | .work f _ next, rt => next.hasRoom heap serde wasmer (rt.setMemory (f (rt.env.memory.getD [])))
  | .print args next, rt => (next (jsPrint false args).2).hasRoom heap serde wasmer rt
  | .nextEvent next, rt =>
      match jsLambdaNextEvent wasmer heap rt with
      | .error fault => fault != .reallocFailed
      | .ok (event, rt) =>
          js.madeRoom (event.value js) && (next (event.value js)).hasRoom heap serde wasmer rt
  | .sendResponse response next, rt =>
      let (str, memory) := js.toCString (rt.env.memory.getD []) response
      (str != 0 || (js.stringify response).isNone && memory.head? == some 0) &&
        match jsLambdaSendResponse js serde wasmer rt response with
        | .error _ => true
        | .ok (_, rt) => next.hasRoom heap serde wasmer rt

/-! ### What a script means -/

/-- What can be seen of a script from outside. -/
structure JsOutcome where
  ending : LambdaEnd
  response : Option LambdaResponse
  out : Bytes
  err : Bytes
  printed : List Str

/-- What can be seen of a guest. -/
def LambdaBehaviour.outcome (b : LambdaBehaviour) : JsOutcome :=
  ⟨b.ending, b.env.state.response, b.out, b.err, b.printed⟩

/-- What the server is sent for a value: its text up to the first NUL byte, and nothing for a value
that has no text. -/
def QuickJs.sent (js : QuickJs Value) (response : Value) : Bytes :=
  ((js.stringify response).getD []).takeWhile (· != 0)

/-- **What a script means** for a request, when the response so far is the given one. -/
def JsProgram.means (serde : SerdeJson) (request : Bytes) :
    JsProgram js → Option LambdaResponse → JsOutcome
  | .done, response => ⟨.returned, response, [], [], []⟩
  | .throw err, response => ⟨.trapped, response, [], js.dumpError err, []⟩
  | .work _ _ next, response => next.means serde request response
  | .print args next, response =>
      let rest := (next (jsPrint false args).2).means serde request response
      { rest with out := (jsPrint false args).1 ++ rest.out }
  | .nextEvent next, response => (next (js.parseJson request)).means serde request response
  | .sendResponse value next, response =>
      match serde.fromSlice (js.sent value) with
      | .ok response => next.means serde request (some response)
      | .error err =>
          let rest := next.means serde request response
          { rest with printed := ("Failed to parse: ".toList ++ err) :: rest.printed }

/-- The work of the engine has no meaning. -/
theorem JsProgram.means_idle (serde : SerdeJson) (request : Bytes) (program : JsProgram js)
    (response : Option LambdaResponse) :
    program.idle.means serde request response = program.means serde request response := by
  induction program generalizing response with
  | done => rfl
  | throw err => rfl
  | work f grows next ih => exact ih response
  | print args next ih =>
      rw [idle, means, means, ih]
  | nextEvent next ih => exact ih (js.parseJson request) response
  | sendResponse value next ih =>
      rw [idle, means, means]
      cases serde.fromSlice (js.sent value) with
      | ok response => exact ih (some response)
      | error err => simp only [ih]

/-! ### The guest does what the script means -/

section Refinement

variable {heap : Heap} (serde : SerdeJson) (wasmer : Wasmer)

/-- The guest sees its memory. -/
theorem outcome_load {env : Env} {memory : Bytes} (hmem : env.memory = some memory)
    (next : Bytes → LambdaGuest) :
    ((LambdaGuest.load next).behave serde wasmer env).outcome =
      ((next memory).behave serde wasmer env).outcome := by
  rw [LambdaGuest.behave, hmem, Option.getD_some]

/-- A write to the memory does not show. -/
theorem outcome_write (memory : Bytes) (next : UInt32 → LambdaGuest) (env : Env) :
    ((LambdaGuest.call (.write memory) next).behave serde wasmer env).outcome =
      ((next 0).behave serde wasmer { env with memory := some memory }).outcome := rfl

/-- Enlarging the buffer does what `growBuffer` does. -/
theorem outcome_growThen {rt rt' : JsRuntime} {memory : Bytes}
    (hmem : rt.env.memory = some memory) {len : UInt32} (h : growBuffer heap rt len = .ok rt')
    (next : UInt32 → UInt32 → LambdaGuest) :
    ((growThen heap rt.eventBuf rt.eventBufLen len next).behave serde wasmer rt.env).outcome =
      ((next rt'.eventBuf rt'.eventBufLen).behave serde wasmer rt'.env).outcome := by
  rw [growBuffer] at h
  rw [growThen]
  by_cases hlen : len > rt.eventBufLen
  · rw [if_pos hlen, hostCall_getMemory hmem, ok_bind] at h
    rw [if_pos hlen, outcome_load serde wasmer hmem]
    cases hrealloc : heap.realloc memory rt.eventBuf len with
    | none =>
        rw [hrealloc] at h
        cases h
    | some block =>
        rw [hrealloc] at h
        obtain rfl := Except.ok.inj h
        exact outcome_write serde wasmer _ _ _
  · rw [if_neg hlen] at h
    rw [if_neg hlen]
    obtain rfl := Except.ok.inj h
    rfl

/-- Clearing the buffer does what `clearBuffer` does. -/
theorem outcome_clearThen {rt rt' : JsRuntime} {memory : Bytes}
    (hmem : rt.env.memory = some memory) (h : clearBuffer rt = .ok rt') (next : LambdaGuest) :
    ((clearThen rt.eventBuf rt.eventBufLen next).behave serde wasmer rt.env).outcome =
      (next.behave serde wasmer rt'.env).outcome := by
  rw [clearBuffer, hostCall_getMemory hmem, ok_bind] at h
  rw [clearThen, outcome_load serde wasmer hmem]
  by_cases hle : rt.eventBuf.toNat + rt.eventBufLen.toNat ≤ memory.length
  · rw [if_pos hle] at h
    rw [if_pos hle]
    obtain rfl := Except.ok.inj h
    exact outcome_write serde wasmer _ _ _
  · rw [if_neg hle] at h
    cases h

theorem hostCall_eq_ok_iff {α : Type} {result : Except Panic α} {x : α} :
    hostCall result = .ok x ↔ result = .ok x := by
  cases result <;> simp [hostCall, Except.mapError]

/-- The guest does what `js_lambda_next_event` does, and goes on with the value. -/
theorem outcome_nextEventThen {rt rt' : JsRuntime} {memory : Bytes} (hin : BufferIn rt memory)
    {event : NextEvent} (h : jsLambdaNextEvent wasmer heap rt = .ok (event, rt'))
    (next : Except js.Exception Value → UInt32 → UInt32 → LambdaGuest) :
    ((nextEventThen heap rt.eventBuf rt.eventBufLen next).behave serde wasmer rt.env).outcome =
      ((next (event.value js) rt'.eventBuf rt'.eventBufLen).behave serde wasmer
        rt'.env).outcome := by
  obtain ⟨size, hsize, h⟩ := bind_eq_ok_iff.mp h
  have hstep : (guest serde wasmer).step rt.env .eventSize = .ok (.size size, rt.env) := by
    rw [step_eventSize, hostCall_eq_ok_iff.mp hsize]
    rfl
  have hsized : ((nextEventThen heap rt.eventBuf rt.eventBufLen next).behave serde wasmer
      rt.env).outcome = ((if size + 1 = 0 then next (.ok js.tagNull) rt.eventBuf rt.eventBufLen
        else growThen heap rt.eventBuf rt.eventBufLen (size + 1) fun eventBuf eventBufLen =>
          clearThen eventBuf eventBufLen <| .call (.event eventBuf eventBufLen) fun nbytes =>
            .load fun memory => next (js.parseJsonAt memory eventBuf nbytes) eventBuf
              eventBufLen).behave serde wasmer rt.env).outcome := by
    rw [nextEventThen, LambdaGuest.behave, hstep]
    rfl
  rw [hsized]
  by_cases hzero : size + 1 = 0
  · rw [if_pos hzero] at h
    obtain ⟨rfl, rfl⟩ := Prod.mk.inj (Except.ok.inj h)
    rw [if_pos hzero]
    rfl
  rw [if_neg hzero] at h
  rw [if_neg hzero]
  obtain ⟨rt₁, hgrow, h⟩ := bind_eq_ok_iff.mp h
  obtain ⟨rt₂, hclear, h⟩ := bind_eq_ok_iff.mp h
  obtain ⟨⟨nbytes, env⟩, hevent, h⟩ := bind_eq_ok_iff.mp h
  obtain ⟨rfl, rfl⟩ := Prod.mk.inj (Except.ok.inj h)
  rcases growBuffer_spec heap hin (size + 1) with hfail | ⟨_, memory₁, hgrow', hin₁, -, -⟩
  · rw [hfail] at hgrow
    cases hgrow
  obtain rfl := Except.ok.inj (hgrow.symm.trans hgrow')
  obtain ⟨memory₂, hclear', -, -⟩ := clearBuffer_spec hin₁
  obtain rfl := Except.ok.inj (hclear.symm.trans hclear')
  have hcall : (guest serde wasmer).step (rt₁.setMemory memory₂).env
      (.event rt₁.eventBuf rt₁.eventBufLen) = .ok (.copied nbytes, env) := by
    rw [step_event]
    exact congrArg (· >>= fun r => pure (GuestReply.copied r.1, r.2))
      (hostCall_eq_ok_iff.mp hevent)
  rw [outcome_growThen serde wasmer hin.1 hgrow, outcome_clearThen serde wasmer hin₁.1 hclear,
    LambdaGuest.behave, hcall]
  rfl

/-- Enlarging the buffer does not touch the state. -/
theorem growBuffer_state {rt rt' : JsRuntime} {len : UInt32}
    (h : growBuffer heap rt len = .ok rt') : rt'.env.state = rt.env.state := by
  rw [growBuffer] at h
  split at h
  · obtain ⟨memory, -, h⟩ := bind_eq_ok_iff.mp h
    cases hrealloc : heap.realloc memory rt.eventBuf len with
    | none =>
        rw [hrealloc] at h
        cases h
    | some block =>
        rw [hrealloc] at h
        obtain rfl := Except.ok.inj h
        rfl
  · obtain rfl := Except.ok.inj h
    rfl

/-- **`nextEvent`** returns what the request parses to, with the buffer in the memory and the
state as it was. -/
theorem jsLambdaNextEvent_value {rt rt' : JsRuntime} {memory : Bytes} (hin : BufferIn rt memory)
    (hlen : rt.env.state.request.length < UInt32.size - 1) {event : NextEvent}
    (h : jsLambdaNextEvent wasmer heap rt = .ok (event, rt'))
    (hroom : js.madeRoom (event.value js) = true) :
    (∃ memory', BufferIn rt' memory') ∧ rt'.env.state = rt.env.state ∧
      event.value js = js.parseJson rt.env.state.request := by
  rcases jsLambdaNextEvent_spec wasmer heap hin hlen with
    hfail | ⟨_, _, memory', hok, ⟨nbytes, rt₁, memory₁, rfl, hshows⟩, hin'⟩
  · rw [hfail] at h
    cases h
  obtain ⟨rfl, rfl⟩ := Prod.mk.inj (Except.ok.inj (h.symm.trans hok))
  refine ⟨⟨memory', hin'⟩, ?_, ?_⟩
  · obtain ⟨len, -, heq⟩ := jsLambdaNextEvent_eq wasmer heap hlen
    rw [heq] at hok
    obtain ⟨rt₂, hgrow, hok⟩ := bind_eq_ok_iff.mp hok
    obtain ⟨rt₃, hclear, hok⟩ := bind_eq_ok_iff.mp hok
    obtain ⟨⟨nbytes, env⟩, hevent, hok⟩ := bind_eq_ok_iff.mp hok
    obtain ⟨-, rfl⟩ := Prod.mk.inj (Except.ok.inj hok)
    obtain ⟨memory₂, -, hclear⟩ := bind_eq_ok_iff.mp hclear
    rw [← growBuffer_state hgrow]
    split at hclear
    · obtain rfl := Except.ok.inj hclear
      have hstate := event_state (hostCall_eq_ok_iff.mp hevent)
      exact hstate
    · cases hclear
  · rw [NextEvent.value, hshows.memory_eq, Option.getD_some] at hroom ⊢
    rcases js.parseJsonAt_eq hshows.bytes_eq hshows.nbytes_eq hshows.nul with
      hparse | ⟨err, herr, hfull⟩
    · exact hparse
    · rw [herr, QuickJs.madeRoom, hfull] at hroom
      exact absurd hroom Bool.false_ne_true

/-- The first NUL byte of a string that one follows. -/
theorem findIdx_zero (text rest : Bytes) :
    (text ++ 0 :: rest).findIdx? (· == 0) = some (text.takeWhile (· != 0)).length := by
  induction text with
  | nil => rfl
  | cons b text ih =>
      rw [List.cons_append, List.findIdx?_cons, ih]
      by_cases hb : b = 0
      · subst hb
        rfl
      · have hbeq : (b == 0) = false := beq_eq_false_iff_ne.mpr hb
        have hcons : (b :: text).takeWhile (· != 0) = b :: text.takeWhile (· != 0) :=
          List.takeWhile_cons_of_pos (bne_iff_ne.mpr hb)
        rw [hbeq, hcons]
        rfl

/-- A C string, as `strlen` and a host function see it. -/
theorem cString_spec {memory text : Bytes} {str : UInt32} (hlt : text.length < UInt32.size)
    (h : text ++ [0] <+: memory.drop str.toNat) :
    ∃ len : UInt32, strlen memory str = some len ∧
      rangeOf memory str len = text.takeWhile (· != 0) ∧
      str.toNat + len.toNat ≤ memory.length ∧ str.toNat < memory.length := by
  obtain ⟨rest, hrest⟩ := h
  have hdrop : memory.drop str.toNat = text ++ 0 :: rest := by
    rw [← hrest, List.append_assoc]
    rfl
  have hle : (text.takeWhile (· != 0)).length ≤ text.length := (List.takeWhile_prefix _).length_le
  have hnat : (UInt32.ofNat (text.takeWhile (· != 0)).length).toNat =
      (text.takeWhile (· != 0)).length := UInt32.toNat_ofNat_of_lt' (by omega)
  have hlen : memory.length - str.toNat = text.length + (rest.length + 1) := by
    rw [← List.length_drop, hdrop, List.length_append, List.length_cons]
  refine ⟨UInt32.ofNat (text.takeWhile (· != 0)).length, ?_, ?_, by omega, by omega⟩
  · rw [strlen, hdrop, findIdx_zero]
    rfl
  · have hpre : text.takeWhile (· != 0) <+: text ++ 0 :: rest :=
      (List.takeWhile_prefix _).trans (List.prefix_append _ _)
    rw [rangeOf, hdrop, hnat]
    exact (List.prefix_iff_eq_take.mp hpre).symm

/-- The guest does what `js_lambda_send_response` does. -/
theorem outcome_sendResponseThen {rt rt' : JsRuntime} {memory : Bytes}
    (hmem : rt.env.memory = some memory) {value : Value} {printed : Option Str}
    (h : jsLambdaSendResponse js serde wasmer rt value = .ok (printed, rt'))
    (next : LambdaGuest) :
    ((sendResponseThen js value next).behave serde wasmer rt.env).outcome =
      { (next.behave serde wasmer rt'.env).outcome with
        printed := printed.toList ++ (next.behave serde wasmer rt'.env).outcome.printed } := by
  rw [jsLambdaSendResponse, hostCall_getMemory hmem, ok_bind] at h
  rw [sendResponseThen, outcome_load serde wasmer hmem]
  cases hstring : js.toCString memory value with | mk str memory'
  rw [hstring] at h
  simp only [outcome_write]
  cases hlen : strlen memory' str with
  | none =>
      simp only [hlen] at h
      cases h
  | some len =>
      simp only [hlen] at h
      obtain ⟨⟨code, printed', env⟩, hsend, h⟩ := bind_eq_ok_iff.mp h
      obtain ⟨rfl, rfl⟩ := Prod.mk.inj (Except.ok.inj h)
      have hstep : (guest serde wasmer).step (rt.setMemory memory').env (.sendResponse str len) =
          .ok (.sent code printed', env) := by
        rw [step_sendResponse, hostCall_eq_ok_iff.mp hsend]
        rfl
      have hcall : ((LambdaGuest.call (.sendResponse str len) fun _ => next).behave serde wasmer
          (rt.setMemory memory').env).outcome =
            { (next.behave serde wasmer env).outcome with
              printed := (GuestReply.sent code printed').printed ++
                (next.behave serde wasmer env).outcome.printed } := by
        rw [LambdaGuest.behave, hstep]
        rfl
      refine hcall.trans ?_
      cases printed' with
      | none => rfl
      | some line => rfl

/-- The pointer of `js_lambda_send_response` is good, or it is NULL for want of a text. -/
theorem sent_spec {memory memory' : Bytes} {value : Value} {str : UInt32}
    (hstring : js.toCString memory value = (str, memory'))
    (hroom : (str != 0 || (js.stringify value).isNone && memory'.head? == some 0) = true) :
    ∃ len : UInt32, strlen memory' str = some len ∧ rangeOf memory' str len = js.sent value ∧
      str.toNat + len.toNat ≤ memory'.length ∧ str.toNat < memory'.length := by
  rw [Bool.or_eq_true, Bool.and_eq_true, bne_iff_ne, Option.isNone_iff_eq_none, beq_iff_eq] at hroom
  by_cases hnull : str = 0
  · obtain ⟨hnone, hhead⟩ := hroom.resolve_left (not_not_intro hnull)
    obtain ⟨rest, rfl⟩ := List.head?_eq_some_iff.mp hhead
    have hprefix : ([] : Bytes) ++ [0] <+: (0 :: rest).drop str.toNat := by
      rw [hnull]
      exact List.prefix_append [0] rest
    rw [QuickJs.sent, hnone]
    exact cString_spec (Nat.zero_lt_of_lt (show 0 < UInt32.size by decide)) hprefix
  · obtain ⟨text, htext, hlt, hprefix⟩ := js.text_of_toCString hstring hnull
    rw [QuickJs.sent, htext]
    exact cString_spec hlt hprefix

/-- **`sendResponse`** leaves what the text of the value parses to, or prints the error of the
parser. -/
theorem jsLambdaSendResponse_eq {rt : JsRuntime} {memory memory' : Bytes}
    (hmem : rt.env.memory = some memory) {value : Value} {str : UInt32}
    (hstring : js.toCString memory value = (str, memory'))
    (hroom : (str != 0 || (js.stringify value).isNone && memory'.head? == some 0) = true) :
    jsLambdaSendResponse js serde wasmer rt value =
      let stored := storeResponse (rt.setMemory memory').env (serde.fromSlice (js.sent value))
      .ok (stored.2.1, { rt with env := stored.2.2 }) := by
  obtain ⟨len, hlen, hrange, hle, hlt⟩ := sent_spec hstring hroom
  have hmem' : (rt.setMemory memory').env.memory = some memory' := rfl
  rw [jsLambdaSendResponse, hostCall_getMemory hmem, ok_bind, hstring]
  simp only [hlen]
  rw [sendResponse_eq hmem' (wasmer.inBounds_of_le hle hlt), hrange]
  rfl

/-- **The guest does what the script means**, whatever the script does and in whatever order,
from any state whose buffer lies in the memory. By induction on the script; the buffer keeps to
the memory, and the request never changes. -/
theorem JsProgram.run_means (program : JsProgram js) {request : Bytes}
    (hlen : request.length < UInt32.size - 1) (rt : JsRuntime) {memory : Bytes}
    (hin : BufferIn rt memory) (hrequest : rt.env.state.request = request)
    (hroom : program.hasRoom heap serde wasmer rt = true) :
    ((program.run heap rt.eventBuf rt.eventBufLen).behave serde wasmer rt.env).outcome =
      program.means serde request rt.env.state.response := by
  induction program generalizing rt memory with
  | done => rfl
  | throw err => exact congrArg (JsOutcome.mk _ _ _ · _) (List.append_nil _)
  | work f grows next ih =>
      rw [hasRoom, hin.1, Option.getD_some] at hroom
      rw [run, outcome_load serde wasmer hin.1, outcome_write]
      exact ih (rt.setMemory (f memory)) ⟨rfl, Nat.le_trans hin.2 (grows memory)⟩ hrequest hroom
  | print args next ih =>
      have hnext := ih (jsPrint false args).2 rt hin hrequest hroom
      rw [means, ← hnext]
      rfl
  | nextEvent next ih =>
      subst hrequest
      rw [hasRoom] at hroom
      rcases jsLambdaNextEvent_spec wasmer heap hin hlen with hfail | ⟨event, rt', -, hok, -, -⟩
      · rw [hfail] at hroom
        exact absurd hroom Bool.false_ne_true
      rw [hok] at hroom
      obtain ⟨hvalue, hroom⟩ := (Bool.and_eq_true _ _).mp hroom
      obtain ⟨⟨memory', hin'⟩, hstate, hvalue⟩ := jsLambdaNextEvent_value wasmer hin hlen hok hvalue
      have hresponse := congrArg LambdaState.response hstate
      rw [run, outcome_nextEventThen serde wasmer hin hok, means, ← hvalue, ← hresponse]
      exact ih _ rt' hin' (congrArg LambdaState.request hstate) hroom
  | sendResponse value next ih =>
      rw [hasRoom, hin.1, Option.getD_some] at hroom
      cases hstring : js.toCString memory value with | mk str memory'
      rw [hstring] at hroom
      obtain ⟨hnull, hroom⟩ := (Bool.and_eq_true _ _).mp hroom
      have hsend := jsLambdaSendResponse_eq serde wasmer hin.1 hstring hnull
      have hle := Nat.le_trans hin.2 (js.le_of_toCString hstring)
      rw [hsend] at hroom
      rw [run, outcome_sendResponseThen serde wasmer hin.1 hsend, means]
      cases hslice : serde.fromSlice (js.sent value) with
      | ok response =>
          rw [hslice] at hroom
          exact ih ⟨⟨{ rt.env.state with response := some response }, some memory'⟩,
            rt.eventBuf, rt.eventBufLen⟩ ⟨rfl, hle⟩ hrequest hroom
      | error err =>
          rw [hslice] at hroom
          have hnext := ih (rt.setMemory memory') ⟨rfl, hle⟩ hrequest hroom
          have hresponse : (rt.setMemory memory').env.state.response =
            rt.env.state.response := rfl
          rw [hresponse] at hnext
          simp only
          rw [← hnext]
          rfl

end Refinement

/-! ### The reply -/

/-- How a request is served when its script has the given outcome. -/
def JsOutcome.served (http : Http) (base64 : Base64.Codec) (outcome : JsOutcome) : Served http where
  reply :=
    match outcome.ending with
    | .panicked panic => .closed panic
    | .trapped => .closed (.unwrap .guestRun)
    | .returned =>
        match outcome.response with
        | none => .closed (.unwrap .noResponse)
        | some response => .ofLambda base64 (.ok response)
  stdout := LogForwarder.messagesOf outcome.out
  stderr := LogForwarder.messagesOf outcome.err

section Served

variable {http : Http} {Hash Module : Type} {B : Backend http Hash Module} {a : Arrival http}

/-- The requests that `lambda::handler` gets ready for a guest, with their bodies. All others make
it panic. -/
structure Lambda.Accepted (B : Backend http Hash Module) (a : Arrival http) (body : Bytes) :
    Prop where
  script : (Wgi.script a.fs a.request.uri.path).isSome
  headers : ∀ entry ∈ http.iter a.request.headers, ∀ x ∈ http.valueBytes entry.2,
    isVisibleByte x = true
  query : ∀ query, a.request.uri.query = some query → (B.form.fromStr query).isSome
  body_eq : B.hyper.toBytes a.request.body = .ok body

theorem Lambda.exists_prepare_iff_accepted {body : Bytes} :
    (∃ call, Lambda.prepare http B.base64 B.form B.hyper a.fs a.request = .ok call ∧
      call.body = body) ↔ Lambda.Accepted B a body := by
  have hfrom : (∃ event, LambdaRequest.from http B.base64 B.form a.request.method a.request.uri
      a.request.headers body = .ok event) ↔
        (∀ entry ∈ http.iter a.request.headers, ∀ x ∈ http.valueBytes entry.2,
          isVisibleByte x = true) ∧
        ∀ query, a.request.uri.query = some query → (B.form.fromStr query).isSome := by
    simp only [exists_from_iff, http.forall_getAll_iff, http.toStr_isSome_iff]
  constructor
  · rintro ⟨call, hcall, rfl⟩
    obtain ⟨-, -, -, -, hbody, hevent⟩ := Lambda.prepare_eq_ok_iff.mp hcall
    obtain ⟨hheaders, hquery⟩ := hfrom.mp ⟨_, hevent⟩
    exact ⟨(Lambda.wasm_of_prepare hcall).2, hheaders, hquery, hbody⟩
  · intro h
    obtain ⟨event, hevent⟩ := hfrom.mpr ⟨h.headers, h.query⟩
    exact ⟨⟨_, body, event⟩, Lambda.prepare_eq_ok_iff.mpr
      ⟨_, Lambda.search_eq a.fs a.request.uri.path,
        (scanPath_lastErr_eq_none_iff a.fs a.request.uri.path).mpr h.script, rfl, h.body_eq,
        hevent⟩, rfl⟩

/-- A request that is not accepted is not run: the connection is closed, and nothing is logged. -/
theorem Lambda.servedAlone_of_not_accepted (hrouted : routed a.request.uri.path = true)
    (h : ¬ ∃ body, Lambda.Accepted B a body) :
    ∃ panic, servedAlone B .lambda a = ⟨.closed panic, [], []⟩ := by
  rw [servedAlone, serve, if_pos hrouted, serveLambda]
  cases hcall : Lambda.prepare http B.base64 B.form B.hyper a.fs a.request with
  | ok call => exact absurd ⟨_, Lambda.exists_prepare_iff_accepted.mp ⟨call, hcall, rfl⟩⟩ h
  | error panic => exact ⟨panic, rfl⟩

/-- A request is served by what can be seen of its guest. -/
theorem servedAlone_of_outcome {call : Lambda.Call} {module : Module} {memory : Bytes}
    {guest : LambdaGuest}
    (hrouted : routed a.request.uri.path = true)
    (hcall : Lambda.prepare http B.base64 B.form B.hyper a.fs a.request = .ok call)
    (hbinary : B.compiler.fromBinary call.wasm = .ok module)
    (hguest : B.lambda module = .ok (memory, guest)) {outcome : JsOutcome}
    (houtcome : (guest.behave B.serde B.wasmer
      ((Env.new B.serde call.event).init memory)).outcome = outcome) :
    servedAlone B .lambda a = outcome.served http B.base64 := by
  have hmodule : (App.module B.compiler .none call.wasm fun _ => none).result = .ok module := by
    rw [module_alone, hbinary]
    rfl
  generalize hb : guest.behave B.serde B.wasmer ((Env.new B.serde call.event).init memory) = b
    at houtcome
  rw [← houtcome, servedAlone, serve, if_pos hrouted, serveLambda]
  simp only [hcall, runLamba_eq hmodule hguest hb]
  obtain ⟨ending, ⟨⟨request, response⟩, left⟩, steps, out, err, printed⟩ := b
  cases ending with
  | returned =>
      cases response with
      | none => rfl
      | some response =>
          simp only [LambdaBehaviour.outcome, JsOutcome.served, LambdaEnd.result, Reply.ofLambda]
          cases hinto : response.intoResponse http B.base64 with
          | error panic => simp [Except.bind, hinto]
          | ok response' => simp [Except.bind, hinto]
  | trapped => rfl
  | panicked panic => rfl

/-- A call runs a script, up to the work of the engine, on an event that leaves room for a NUL
byte, and nothing is exhausted on the way. -/
def RunsScript (B : Backend http Hash Module) (heap : Heap) (script : JsProgram js)
    (call : Lambda.Call) : Prop :=
  ∃ module memory evaluation, B.compiler.fromBinary call.wasm = .ok module ∧
    B.lambda module = .ok (memory, Jsl.main heap evaluation) ∧ evaluation.idle = script.idle ∧
    (B.serde.toVec call.event).length < UInt32.size - 1 ∧
    evaluation.hasRoom heap B.serde B.wasmer
      (.start ((Env.new B.serde call.event).init memory)) = true

/-- A call that runs a script is served as the script means it. -/
theorem servedAlone_of_runsScript {heap : Heap} {script : JsProgram js} {call : Lambda.Call}
    (hrouted : routed a.request.uri.path = true)
    (hcall : Lambda.prepare http B.base64 B.form B.hyper a.fs a.request = .ok call)
    (hruns : RunsScript B heap script call) :
    servedAlone B .lambda a =
      (script.means B.serde (B.serde.toVec call.event) none).served http B.base64 := by
  obtain ⟨module, memory, evaluation, hbinary, hguest, hidle, hlen, hroom⟩ := hruns
  have hin : BufferIn (.start ((Env.new B.serde call.event).init memory)) memory :=
    ⟨rfl, Nat.zero_le memory.length⟩
  have hmeans := evaluation.run_means B.serde B.wasmer hlen _ hin rfl hroom
  rw [← script.means_idle, ← hidle, evaluation.means_idle]
  exact servedAlone_of_outcome hrouted hcall hbinary hguest hmeans

/-- **JavaScript lambdas**: for every script, an accepted request is served as the script means
it, unless the memory of the guest is exhausted. -/
theorem js_served (B : Backend http Hash Module) (a : Arrival http) (heap : Heap)
    (load : (JsHandler js → JsProgram js) → JsProgram js)
    (hrouted : routed a.request.uri.path = true)
    (hruns : ∀ call, Lambda.prepare http B.base64 B.form B.hyper a.fs a.request = .ok call →
      RunsScript B heap (evalBootstrap load) call) :
    (∀ body, Lambda.Accepted B a body → ∃ event,
      LambdaRequest.from http B.base64 B.form a.request.method a.request.uri a.request.headers
        body = .ok event ∧
      servedAlone B .lambda a =
        ((evalBootstrap load).means B.serde (B.serde.toVec event) none).served http B.base64) ∧
    ((¬ ∃ body, Lambda.Accepted B a body) →
      ∃ panic, servedAlone B .lambda a = ⟨.closed panic, [], []⟩) := by
  refine ⟨fun body haccepted => ?_, Lambda.servedAlone_of_not_accepted hrouted⟩
  obtain ⟨call, hcall, rfl⟩ := Lambda.exists_prepare_iff_accepted.mpr haccepted
  obtain ⟨-, -, -, -, -, hevent⟩ := Lambda.prepare_eq_ok_iff.mp hcall
  exact ⟨call.event, hevent, servedAlone_of_runsScript hrouted hcall (hruns call hcall)⟩

end Served

/-! ### A script that sends three times -/

/-- A string behind the memory, as long as the addresses reach. -/
def appendString (memory text : Bytes) : UInt32 × Bytes :=
  if memory.length + text.length + 1 < UInt32.size then
    (UInt32.ofNat memory.length, memory ++ (text ++ [0]))
  else (0, memory)

theorem le_of_appendString {memory memory' text : Bytes} {str : UInt32}
    (h : appendString memory text = (str, memory')) : memory.length ≤ memory'.length := by
  rw [appendString] at h
  split at h
  · obtain ⟨-, rfl⟩ := Prod.mk.inj h
    rw [List.length_append]
    exact Nat.le_add_right _ _
  · obtain ⟨-, rfl⟩ := Prod.mk.inj h
    exact Nat.le_refl _

theorem text_of_appendString {memory memory' text : Bytes} {str : UInt32}
    (h : appendString memory text = (str, memory')) (hstr : str ≠ 0) :
    text.length < UInt32.size ∧ text ++ [0] <+: memory'.drop str.toNat := by
  rw [appendString] at h
  split at h
  · next hlt =>
      obtain ⟨rfl, rfl⟩ := Prod.mk.inj h
      rw [UInt32.toNat_ofNat_of_lt' (by omega), List.drop_left]
      exact ⟨by omega, List.prefix_refl _⟩
  · obtain ⟨rfl, -⟩ := Prod.mk.inj h
    exact absurd rfl hstr

/-- An engine whose values are JSON texts, and one that has no text. -/
def QuickJs.textual : QuickJs (Option Bytes) where
  Exception := Unit
  outOfMemory _ := false
  tagNull := some [50]
  parseJson text := .ok (some text)
  parseJsonAt memory buf len := .ok (some (rangeOf memory buf len))
  parseJsonAt_eq h _ _ := Or.inl (congrArg (fun text => Except.ok (some text)) h)
  stringify value := value
  toCString memory
    | some text => appendString memory text
    | none => (0, memory)
  text_of_toCString {memory memory' value str} h hstr := by
    cases value with
    | none =>
        obtain ⟨rfl, -⟩ := Prod.mk.inj h
        exact absurd rfl hstr
    | some text => exact ⟨text, rfl, text_of_appendString h hstr⟩
  le_of_toCString {memory memory' value str} h := by
    cases value with
    | none =>
        obtain ⟨-, rfl⟩ := Prod.mk.inj h
        exact Nat.le_refl _
    | some text => exact le_of_appendString h
  dumpError _ := []

/-- A handler that logs, sends a value that has no text and one that is no response, and returns
a response. -/
def thrice (_ : Option Bytes) (next : Option Bytes → JsProgram QuickJs.textual) :
    JsProgram QuickJs.textual :=
  .print [.ok [104, 105]] fun _ => .sendResponse none <| .sendResponse (some [63]) <|
    .work (· ++ [7]) (fun _ => List.length_append ▸ Nat.le_add_right _ _) <|
      next (some (statusOnly "200"))

/-- A server for it. -/
def thriceServer : Backend Http.reference Bytes Bytes :=
  .running (fun _ => .done) ([0, 0, 0, 0], Jsl.main .bump (evalBootstrap (· thrice)))

/-- The third response is delivered. -/
theorem js_served_thrice :
    ∃ response, servedAlone thriceServer .lambda (arrivalAt "/a".toList) =
        ⟨.lambda response, [[104, 105]], []⟩ ∧ Http.reference.asU16 response.status = 200 := by
  have hserved := js_served thriceServer (arrivalAt "/a".toList) .bump (· thrice) rfl
    fun call hcall => by
      obtain rfl := Except.ok.inj hcall
      exact ⟨_, _, _, rfl, rfl, rfl, by decide +kernel, by decide +kernel⟩
  obtain ⟨event, hevent, hserved⟩ :=
    hserved.1 [] (Lambda.exists_prepare_iff_accepted.mp ⟨_, rfl, rfl⟩)
  obtain rfl := Except.ok.inj hevent
  exact ⟨_, hserved, rfl⟩

end Wgi
