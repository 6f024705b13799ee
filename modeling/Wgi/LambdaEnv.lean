import Wgi.LambdaRequest
import Wgi.Machine

/-!
# The Host Functions of a Lambda Guest

A lambda guest talks to the server through three imported functions: `lambda_event` copies
the serialized request into a buffer of the guest, `lambda_event_size` returns its size,
and `lambda_send_response` reads a response out of a buffer of the guest. The guest may
call them in any order and any number of times, and writes to its own memory in between.

The imported functions hold clones of one `Env`, which share its state behind a lock, so
the model has one `Env`. A run of the guest is the list of the steps it takes.

## Main results

* `copyLoop_eq`, `event_eq`, `eventSize_eq`, `sendResponse_eq`: one specification for
  each host function.
* `guest_run`: over every run, the request never changes, every call does exactly what its
  specification says, and the response at the end is that of the last accepted
  `lambda_send_response`.
* `accepted_delivered_iff`: exactly which accepted responses can be delivered.
-/

namespace Wgi

open Fallible

/-- `serde_json`, at the two types the server uses it for. An error is given by the text it
displays. -/
structure SerdeJson where
  /-- `serde_json::to_vec`. -/
  toVec : LambdaRequest → Bytes
  /-- `serde_json::from_slice`. -/
  fromSlice : Bytes → Except Str LambdaResponse

/-- What the server relies on when it dereferences a pointer of the guest. -/
structure Wasmer where
  /-- `WasmPtr::deref` accepts the range in a memory of the given size. -/
  inBounds : ℕ → UInt32 → UInt32 → Bool
  /-- Only ranges inside the memory are accepted, -/
  le_of_inBounds : ∀ {size ptr len}, inBounds size ptr len = true →
    ptr.toNat + len.toNat ≤ size
  /-- and all of them are, but for an empty range at the very end. -/
  inBounds_of_le : ∀ {size ptr len}, ptr.toNat + len.toNat ≤ size → ptr.toNat < size →
    inBounds size ptr len = true

/-- `LambdaState`. -/
structure LambdaState where
  request : Bytes
  response : Option LambdaResponse

/-- `Env`. The memory is set when the module is instantiated. -/
structure Env where
  state : LambdaState
  memory : Option Bytes

/-! ### The host functions -/

section HostFunctions

variable (serde : SerdeJson) (wasmer : Wasmer)

/-- `Env::new`. -/
def Env.new (request : LambdaRequest) : Env where
  state := ⟨serde.toVec request, none⟩
  memory := none

/-- Instantiation hands the memory of the module to the environment. -/
def Env.init (env : Env) (memory : Bytes) : Env :=
  { env with memory := some memory }

/-- `Env::memory`. -/
def Env.getMemory (env : Env) : Except Panic Bytes :=
  match env.memory with
  | some memory => .ok memory
  | none => .error (.expect "Memory should be set on `WasiEnv` first")

/-- The bytes of a range of the memory. -/
def rangeOf (memory : Bytes) (buf bufLen : UInt32) : Bytes :=
  (memory.drop buf.toNat).take bufLen.toNat

/-- `buf.deref(memory, 0, buf_len)`: the cells of the range. -/
def deref (memory : Bytes) (buf bufLen : UInt32) : Option Bytes :=
  if wasmer.inBounds memory.length buf bufLen then some (rangeOf memory buf bufLen) else none

/-- The memory after the cells of a range were set. -/
def setCells (memory : Bytes) (buf : UInt32) (cells : Bytes) : Bytes :=
  memory.take buf.toNat ++ cells ++ memory.drop (buf.toNat + cells.length)

/-- The loop of `copy_to_wasm`, with the counter `nbytes`: the counter and the cells
afterwards. -/
def copyLoop : Bytes → Bytes → UInt32 → UInt32 × Bytes
  | byte :: data, _ :: wasm, nbytes =>
      let (nbytes, wasm) := copyLoop data wasm (nbytes + 1)
      (nbytes, byte :: wasm)
  | _, wasm, nbytes => (nbytes, wasm)

/-- `copy_to_wasm`. -/
def copyToWasm (wasm data : Bytes) : UInt32 × Bytes :=
  copyLoop data wasm 0

/-- `copy_from_wasm`. -/
def copyFromWasm (wasm : Bytes) : Bytes :=
  wasm.foldl (fun buf cell => buf ++ [cell]) []

/-- `event`. -/
def event (env : Env) (buf bufLen : UInt32) : Except Panic (UInt32 × Env) := do
  let memory ← env.getMemory
  let cells ← unwrapAt .guestBuffer (deref wasmer memory buf bufLen)
  let (nbytes, cells) := copyToWasm cells env.state.request
  pure (nbytes, { env with memory := some (setCells memory buf cells) })

/-- `event_size`: the size has to fit into 32 bits. -/
def eventSize (env : Env) : Except Panic UInt32 :=
  if env.state.request.length < UInt32.size then .ok (UInt32.ofNat env.state.request.length)
  else .error (.unwrap .eventSize)

/-- The end of `send_response`: the returned code, the line printed to the server's
standard error, and the environment. -/
def storeResponse (env : Env) : Except Str LambdaResponse → Int32 × Option Str × Env
  | .ok value => (0, none, { env with state := { env.state with response := some value } })
  | .error err => (-1, some ("Failed to parse: ".toList ++ err), env)

/-- `send_response`. -/
def sendResponse (env : Env) (buf bufLen : UInt32) :
    Except Panic (Int32 × Option Str × Env) := do
  let memory ← env.getMemory
  let cells ← unwrapAt .guestBuffer (deref wasmer memory buf bufLen)
  pure (storeResponse env (serde.fromSlice (copyFromWasm cells)))

/-! ### The guest as a sequence of steps -/

/-- A step of the guest: a write to its memory, after which the memory holds the given
bytes, or a call of a host function. -/
inductive GuestStep where
  | write (memory : Bytes)
  | event (buf bufLen : UInt32)
  | eventSize
  | sendResponse (buf bufLen : UInt32)
  deriving DecidableEq, Repr

/-- What a step returns to the guest, and what it prints. -/
inductive GuestReply where
  | wrote
  | copied (nbytes : UInt32)
  | size (nbytes : UInt32)
  | sent (code : Int32) (printed : Option Str)
  deriving DecidableEq

/-- The reply of a `lambda_send_response` that returned 0. -/
def GuestReply.Accepted : GuestReply → Prop
  | .sent code _ => code = 0
  | _ => False

/-- The environment as a machine over the steps of the guest. -/
def guest : Machine Env GuestStep GuestReply Panic where
  step env
    | .write memory => .ok (.wrote, { env with memory := some memory })
    | .event buf bufLen => do
        let (nbytes, env) ← event wasmer env buf bufLen
        pure (.copied nbytes, env)
    | .eventSize => do
        let nbytes ← eventSize env
        pure (.size nbytes, env)
    | .sendResponse buf bufLen => do
        let (code, printed, env) ← sendResponse serde wasmer env buf bufLen
        pure (.sent code printed, env)

/-- `App::run_lamba`, for a module that is instantiated with the given memory, takes the
given steps and exits normally: the response the guest left is taken out of the state. -/
def runLamba (request : LambdaRequest) (memory : Bytes) (steps : List GuestStep) :
    Except Panic (Option LambdaResponse) := do
  let (_, env) ← (guest serde wasmer).run ((Env.new serde request).init memory) steps
  pure env.state.response

end HostFunctions

/-! ### The copies -/

/-- The loop copies as many bytes as both sides have. -/
theorem copyLoop_eq (data wasm : Bytes) (nbytes : UInt32) :
    copyLoop data wasm nbytes =
      (nbytes + UInt32.ofNat (min wasm.length data.length),
        data.take wasm.length ++ wasm.drop data.length) := by
  induction data generalizing wasm nbytes with
  | nil => simp [copyLoop]
  | cons byte data ih =>
      rcases wasm with - | ⟨cell, wasm⟩
      · simp [copyLoop]
      · have hcount : nbytes + 1 + UInt32.ofNat (min wasm.length data.length) =
            nbytes + UInt32.ofNat (min wasm.length data.length + 1) := by
          rw [UInt32.ofNat_add, UInt32.add_assoc, UInt32.add_comm 1]
          rfl
        have hmin : min (wasm.length + 1) (data.length + 1) =
            min wasm.length data.length + 1 := by omega
        rw [copyLoop, ih]
        simp only [List.length_cons, hcount, hmin, List.take_succ_cons, List.drop_succ_cons,
          List.cons_append]

theorem copyFromWasm_eq (wasm : Bytes) : copyFromWasm wasm = wasm := by
  have hfold : ∀ buf : Bytes, wasm.foldl (fun buf cell => buf ++ [cell]) buf = buf ++ wasm := by
    induction wasm with
    | nil => intro buf; exact (List.append_nil buf).symm
    | cons cell wasm ih =>
        intro buf
        rw [List.foldl_cons, ih, List.append_assoc, List.singleton_append]
  exact hfold []

theorem length_rangeOf {memory : Bytes} {buf bufLen : UInt32}
    (hle : buf.toNat + bufLen.toNat ≤ memory.length) :
    (rangeOf memory buf bufLen).length = bufLen.toNat := by
  rw [rangeOf, List.length_take, List.length_drop]
  omega

/-- Setting the first cells of a range keeps the rest of the range. -/
theorem setCells_range {memory : Bytes} {buf bufLen : UInt32}
    (hle : buf.toNat + bufLen.toNat ≤ memory.length) (data : Bytes) :
    setCells memory buf (data.take bufLen.toNat ++ (rangeOf memory buf bufLen).drop data.length) =
      setCells memory buf (data.take bufLen.toNat) := by
  have hrange := length_rangeOf hle
  rw [setCells, setCells, List.append_assoc, List.append_assoc, List.append_assoc,
    List.length_append, List.length_take, List.length_drop, hrange]
  congr 2
  by_cases hdata : bufLen.toNat ≤ data.length
  · rw [List.drop_of_length_le (by omega), List.nil_append]
    congr 1
    omega
  · have hmin : min bufLen.toNat data.length = data.length := by omega
    have hsum : data.length + (bufLen.toNat - data.length) = bufLen.toNat := by omega
    rw [hmin, hsum, rangeOf, List.drop_take, List.drop_drop]
    have hdrop : memory.drop (buf.toNat + bufLen.toNat) =
        (memory.drop (buf.toNat + data.length)).drop (bufLen.toNat - data.length) := by
      rw [List.drop_drop]
      congr 1
      omega
    rw [hdrop, List.take_append_drop]

/-- Setting cells byte by byte: those of the range are the new ones, all others stay. -/
theorem getElem?_setCells {memory cells : Bytes} {buf : UInt32}
    (hle : buf.toNat + cells.length ≤ memory.length) (i : ℕ) :
    (setCells memory buf cells)[i]? =
      if buf.toNat ≤ i ∧ i < buf.toNat + cells.length then cells[i - buf.toNat]?
      else memory[i]? := by
  have htake : (memory.take buf.toNat).length = buf.toNat := by
    rw [List.length_take]
    omega
  rw [setCells]
  by_cases hlow : i < buf.toNat
  · rw [if_neg (by omega), List.append_assoc, List.getElem?_append_left (by omega),
      List.getElem?_take_of_lt hlow]
  · rw [List.append_assoc, List.getElem?_append_right (by omega), htake]
    by_cases hmid : i < buf.toNat + cells.length
    · rw [if_pos ⟨by omega, hmid⟩, List.getElem?_append_left (by omega)]
    · rw [if_neg (by omega), List.getElem?_append_right (by omega), List.getElem?_drop]
      congr 1
      omega

theorem length_setCells {memory cells : Bytes} {buf : UInt32}
    (hle : buf.toNat + cells.length ≤ memory.length) :
    (setCells memory buf cells).length = memory.length := by
  simp only [setCells, List.length_append, List.length_take, List.length_drop]
  omega

/-! ### One specification for each host function -/

section Specs

variable {serde : SerdeJson} {wasmer : Wasmer} {env : Env} {memory : Bytes}

theorem getMemory_eq (hmem : env.memory = some memory) : env.getMemory = .ok memory := by
  rw [Env.getMemory, hmem]

theorem deref_eq {buf bufLen : UInt32}
    (hin : wasmer.inBounds memory.length buf bufLen = true) :
    deref wasmer memory buf bufLen = some (rangeOf memory buf bufLen) :=
  if_pos hin

/-- `event` writes the beginning of the request, as far as the buffer reaches. -/
theorem event_eq (hmem : env.memory = some memory) {buf bufLen : UInt32}
    (hin : wasmer.inBounds memory.length buf bufLen = true) :
    event wasmer env buf bufLen =
      .ok (UInt32.ofNat (min bufLen.toNat env.state.request.length),
        { env with memory := some (setCells memory buf
            (env.state.request.take bufLen.toNat)) }) := by
  have hle := wasmer.le_of_inBounds hin
  have hcopy : copyToWasm (rangeOf memory buf bufLen) env.state.request =
      (UInt32.ofNat (min bufLen.toNat env.state.request.length),
        env.state.request.take bufLen.toNat ++
          (rangeOf memory buf bufLen).drop env.state.request.length) := by
    rw [copyToWasm, copyLoop_eq, length_rangeOf hle, UInt32.zero_add]
  rw [event, getMemory_eq hmem, ok_bind, deref_eq hin, unwrapAt_some, ok_bind, hcopy]
  simp only [setCells_range hle]
  rfl

/-- `event_size` returns the size of a request that is small enough. -/
theorem eventSize_eq (hlen : env.state.request.length < UInt32.size) :
    eventSize env = .ok (UInt32.ofNat env.state.request.length) :=
  if_pos hlen

/-- `send_response` stores what the range parses to. -/
theorem sendResponse_eq (hmem : env.memory = some memory) {buf bufLen : UInt32}
    (hin : wasmer.inBounds memory.length buf bufLen = true) :
    sendResponse serde wasmer env buf bufLen =
      .ok (storeResponse env (serde.fromSlice (rangeOf memory buf bufLen))) := by
  rw [sendResponse, getMemory_eq hmem, ok_bind, deref_eq hin, unwrapAt_some, ok_bind,
    copyFromWasm_eq]
  rfl

end Specs

/-! ### Every reachable state -/

section Runs

variable (serde : SerdeJson) (wasmer : Wasmer)

/-- An environment serves the request: the memory and the request are there, and every
call does what it is for. `request` is the serialized request, `memory` the memory of the
guest. -/
structure Serves (request memory : Bytes) (env : Env) : Prop where
  /-- The stored request is the one the environment was created with. -/
  request_eq : env.state.request = request
  memory_eq : env.memory = some memory
  /-- `event` returns how many bytes it copied, the smaller of the two sizes, and changes
  exactly these bytes of the memory. -/
  event : ∀ buf bufLen, wasmer.inBounds memory.length buf bufLen = true →
    ∃ nbytes memory', (guest serde wasmer).step env (.event buf bufLen) =
        .ok (.copied nbytes, { env with memory := some memory' }) ∧
      nbytes.toNat = min bufLen.toNat request.length ∧ memory'.length = memory.length ∧
      ∀ i : ℕ, memory'[i]? =
        if buf.toNat ≤ i ∧ i < buf.toNat + nbytes.toNat then request[i - buf.toNat]?
        else memory[i]?
  /-- `event_size` returns the size of the request and changes nothing. -/
  eventSize : ∃ nbytes, (guest serde wasmer).step env .eventSize = .ok (.size nbytes, env) ∧
    nbytes.toNat = request.length
  /-- `send_response` leaves the memory and the request alone; it returns 0 and replaces
  the response when the bytes parse, and otherwise returns -1 and keeps it. -/
  sendResponse : ∀ buf bufLen, wasmer.inBounds memory.length buf bufLen = true →
    ∃ code printed env', (guest serde wasmer).step env (.sendResponse buf bufLen) =
        .ok (.sent code printed, env') ∧
      env'.memory = some memory ∧ env'.state.request = request ∧
      (code = 0 ↔ ∃ value, serde.fromSlice (rangeOf memory buf bufLen) = .ok value) ∧
      (∀ value, serde.fromSlice (rangeOf memory buf bufLen) = .ok value →
        env'.state.response = some value) ∧
      ∀ err, serde.fromSlice (rangeOf memory buf bufLen) = .error err →
        code = -1 ∧ env'.state.response = env.state.response

variable {serde wasmer}

theorem step_event (env : Env) (buf bufLen : UInt32) :
    (guest serde wasmer).step env (.event buf bufLen) =
      (event wasmer env buf bufLen >>= fun r => pure (.copied r.1, r.2)) := rfl

theorem step_eventSize (env : Env) :
    (guest serde wasmer).step env .eventSize =
      (Wgi.eventSize env >>= fun nbytes => pure (.size nbytes, env)) := rfl

theorem step_sendResponse (env : Env) (buf bufLen : UInt32) :
    (guest serde wasmer).step env (.sendResponse buf bufLen) =
      (Wgi.sendResponse serde wasmer env buf bufLen >>= fun r =>
        pure (.sent r.1 r.2.1, r.2.2)) := rfl

/-- An environment that has its memory and a request of less than 2^32 bytes serves it. -/
theorem serves_of_memory {request memory : Bytes} {env : Env}
    (hreq : env.state.request = request) (hmem : env.memory = some memory)
    (hlen : request.length < UInt32.size) : Serves serde wasmer request memory env := by
  subst hreq
  refine ⟨rfl, hmem, fun buf bufLen hin => ?_, ?_, fun buf bufLen hin => ?_⟩
  · have hle := wasmer.le_of_inBounds hin
    have hcells : (env.state.request.take bufLen.toNat).length =
        min bufLen.toNat env.state.request.length := List.length_take
    have hcount : (UInt32.ofNat (min bufLen.toNat env.state.request.length)).toNat =
        min bufLen.toNat env.state.request.length :=
      UInt32.toNat_ofNat_of_lt' (Nat.lt_of_le_of_lt (Nat.min_le_right _ _) hlen)
    refine ⟨_, setCells memory buf (env.state.request.take bufLen.toNat), ?_, hcount,
      length_setCells (by omega), fun i => ?_⟩
    · rw [step_event, event_eq hmem hin]
      rfl
    · rw [getElem?_setCells (by omega), hcells, hcount]
      split
      · next hi => rw [List.getElem?_take_of_lt (by omega)]
      · rfl
  · refine ⟨_, ?_, UInt32.toNat_ofNat_of_lt' hlen⟩
    rw [step_eventSize, eventSize_eq hlen]
    rfl
  · cases hparse : serde.fromSlice (rangeOf memory buf bufLen) with
    | ok value =>
        refine ⟨0, none, { env with state := { env.state with response := some value } }, ?_,
          hmem, rfl, ⟨fun _ => ⟨value, rfl⟩, fun _ => rfl⟩, fun v hv => ?_, fun err herr => ?_⟩
        · rw [step_sendResponse, sendResponse_eq hmem hin, hparse]
          rfl
        · rw [Except.ok.injEq] at hv
          rw [hv]
        · exact absurd herr (by simp)
    | error err =>
        refine ⟨-1, some ("Failed to parse: ".toList ++ err), env, ?_, hmem, rfl,
          ⟨fun h => absurd h (by decide), fun h => ?_⟩, fun v hv => ?_, fun _ _ => ⟨rfl, rfl⟩⟩
        · rw [step_sendResponse, sendResponse_eq hmem hin, hparse]
          rfl
        · obtain ⟨v, hv⟩ := h
          exact absurd hv (by simp)
        · exact absurd hv (by simp)

/-- The size of the memory after a step: only the guest's own writes may change it. -/
def GuestStep.sizeAfter (size : ℕ) : GuestStep → ℕ
  | .write memory => memory.length
  | _ => size

variable (wasmer) in
/-- A step whose range, if it has one, lies in a memory of the given size. -/
def GuestStep.InBounds (size : ℕ) : GuestStep → Prop
  | .event buf bufLen => wasmer.inBounds size buf bufLen = true
  | .sendResponse buf bufLen => wasmer.inBounds size buf bufLen = true
  | _ => True

variable (wasmer) in
/-- Steps whose ranges lie in the memory as it is when they are taken. -/
def InBounds : ℕ → List GuestStep → Prop
  | _, [] => True
  | size, s :: steps => s.InBounds wasmer size ∧ InBounds (s.sizeAfter size) steps

/-- The step lemma: a step in bounds returns, and the environment serves the same request
afterwards. -/
theorem step_serves {request memory : Bytes} {env : Env} (hlen : request.length < UInt32.size)
    (h : Serves serde wasmer request memory env) {s : GuestStep}
    (hs : s.InBounds wasmer memory.length) :
    ∃ reply env' memory', (guest serde wasmer).step env s = .ok (reply, env') ∧
      Serves serde wasmer request memory' env' ∧ memory'.length = s.sizeAfter memory.length := by
  cases s with
  | write memory' =>
      exact ⟨.wrote, { env with memory := some memory' }, memory', rfl,
        serves_of_memory h.request_eq rfl hlen, rfl⟩
  | event buf bufLen =>
      obtain ⟨nbytes, memory', hstep, -, hsize, -⟩ := h.event buf bufLen hs
      exact ⟨_, _, memory', hstep, serves_of_memory h.request_eq rfl hlen, hsize⟩
  | eventSize =>
      obtain ⟨nbytes, hstep, -⟩ := h.eventSize
      exact ⟨_, env, memory, hstep, h, rfl⟩
  | sendResponse buf bufLen =>
      obtain ⟨code, printed, env', hstep, hmem, hreq, -⟩ := h.sendResponse buf bufLen hs
      exact ⟨_, env', memory, hstep, serves_of_memory hreq hmem hlen, rfl⟩

/-- The environment serves the request, and the remaining steps are in bounds. -/
def Ready (serde : SerdeJson) (wasmer : Wasmer) (request : Bytes) (steps : List GuestStep)
    (env : Env) : Prop :=
  ∃ memory, Serves serde wasmer request memory env ∧ InBounds wasmer memory.length steps

theorem step_ready {request : Bytes} (hlen : request.length < UInt32.size) (s : GuestStep)
    (steps : List GuestStep) (env : Env) (h : Ready serde wasmer request (s :: steps) env) :
    ∃ reply env', (guest serde wasmer).step env s = .ok (reply, env') ∧ True ∧
      Ready serde wasmer request steps env' := by
  obtain ⟨memory, hserves, hs, hsteps⟩ := h
  obtain ⟨reply, env', memory', hstep, hserves', hsize⟩ := step_serves hlen hserves hs
  refine ⟨reply, env', hstep, trivial, memory', hserves', ?_⟩
  rw [hsize]
  exact hsteps

/-- The run lemma: a run in bounds returns, and ends in an environment that serves the same
request. -/
theorem run_serves {request memory : Bytes} {env : Env} (hlen : request.length < UInt32.size)
    (h : Serves serde wasmer request memory env) {steps : List GuestStep}
    (hsteps : InBounds wasmer memory.length steps) :
    ∃ replies env' memory', (guest serde wasmer).run env steps = .ok (replies, env') ∧
      Serves serde wasmer request memory' env' := by
  obtain ⟨replies, env', hrun, -, memory', hserves, -⟩ := (guest serde wasmer).run_total
    (R := fun _ _ => True) (step_ready hlen) ⟨memory, h, hsteps⟩
  exact ⟨replies, env', memory', hrun, hserves⟩

/-! ### The response at the end of a run -/

/-- The step is a `send_response` whose range holds the given response. -/
def Sends (serde : SerdeJson) (env : Env) (s : GuestStep) (response : Option LambdaResponse) :
    Prop :=
  ∃ buf bufLen memory value, s = .sendResponse buf bufLen ∧ env.memory = some memory ∧
    serde.fromSlice (rangeOf memory buf bufLen) = .ok value ∧ response = some value

/-- `event` does not touch the state. -/
theorem event_state {env env' : Env} {buf bufLen nbytes : UInt32}
    (h : event wasmer env buf bufLen = .ok (nbytes, env')) : env'.state = env.state := by
  obtain ⟨memory, -, h⟩ := bind_eq_ok_iff.mp h
  obtain ⟨cells, -, h⟩ := bind_eq_ok_iff.mp h
  obtain ⟨-, rfl⟩ := Prod.mk.inj (Except.ok.inj h)
  rfl

/-- Inversion of `send_response`: the range parsed and its response was stored, or it did
not and nothing changed. -/
theorem sendResponse_inv {env env' : Env} {buf bufLen : UInt32} {code : Int32}
    {printed : Option Str}
    (h : sendResponse serde wasmer env buf bufLen = .ok (code, printed, env')) :
    ∃ memory, env.memory = some memory ∧
      ((∃ value, serde.fromSlice (rangeOf memory buf bufLen) = .ok value ∧ code = 0 ∧
          env'.state.response = some value) ∨
        (code = -1 ∧ env' = env)) := by
  obtain ⟨memory, hmem, h⟩ := bind_eq_ok_iff.mp h
  obtain ⟨cells, hcells, h⟩ := bind_eq_ok_iff.mp h
  have hsome : env.memory = some memory := by
    rw [Env.getMemory] at hmem
    cases henv : env.memory with
    | none => simp [henv] at hmem
    | some m =>
        rw [henv, Except.ok.injEq] at hmem
        rw [hmem]
  have hrange : cells = rangeOf memory buf bufLen := by
    have hderef := unwrapAt_eq_ok_iff.mp hcells
    rw [deref] at hderef
    split at hderef
    · exact (Option.some.inj hderef).symm
    · exact absurd hderef (by simp)
  rw [copyFromWasm_eq, hrange] at h
  cases hparse : serde.fromSlice (rangeOf memory buf bufLen) with
  | ok value =>
      rw [hparse] at h
      obtain ⟨rfl, hrest⟩ := Prod.mk.inj (Except.ok.inj h)
      obtain ⟨-, rfl⟩ := Prod.mk.inj hrest
      exact ⟨memory, hsome, Or.inl ⟨value, hparse, rfl, rfl⟩⟩
  | error err =>
      rw [hparse] at h
      obtain ⟨rfl, hrest⟩ := Prod.mk.inj (Except.ok.inj h)
      obtain ⟨-, rfl⟩ := Prod.mk.inj hrest
      exact ⟨memory, hsome, Or.inr ⟨rfl, rfl⟩⟩

/-- A step that is accepted sets the response to the one it sends. -/
theorem step_accepted {env env' : Env} {s : GuestStep} {reply : GuestReply}
    (h : (guest serde wasmer).step env s = .ok (reply, env')) (hacc : reply.Accepted) :
    Sends serde env s env'.state.response := by
  cases s with
  | write memory =>
      obtain ⟨rfl, -⟩ := Prod.mk.inj (Except.ok.inj h)
      exact absurd hacc id
  | event buf bufLen =>
      rw [step_event] at h
      obtain ⟨r, -, h⟩ := bind_eq_ok_iff.mp h
      obtain ⟨rfl, -⟩ := Prod.mk.inj (Except.ok.inj h)
      exact absurd hacc id
  | eventSize =>
      rw [step_eventSize] at h
      obtain ⟨r, -, h⟩ := bind_eq_ok_iff.mp h
      obtain ⟨rfl, -⟩ := Prod.mk.inj (Except.ok.inj h)
      exact absurd hacc id
  | sendResponse buf bufLen =>
      rw [step_sendResponse] at h
      obtain ⟨⟨code, printed, env₁⟩, hsend, h⟩ := bind_eq_ok_iff.mp h
      obtain ⟨rfl, rfl⟩ := Prod.mk.inj (Except.ok.inj h)
      obtain ⟨memory, hmem, ⟨value, hparse, -, hresponse⟩ | ⟨rfl, -⟩⟩ := sendResponse_inv hsend
      · exact ⟨buf, bufLen, memory, value, rfl, hmem, hparse, hresponse⟩
      · have hzero : (-1 : Int32) = 0 := hacc
        exact absurd hzero (by decide)

/-- A step that is not accepted keeps the response. -/
theorem step_not_accepted {env env' : Env} {s : GuestStep} {reply : GuestReply}
    (h : (guest serde wasmer).step env s = .ok (reply, env')) (hacc : ¬ reply.Accepted) :
    env'.state.response = env.state.response := by
  cases s with
  | write memory =>
      obtain ⟨-, rfl⟩ := Prod.mk.inj (Except.ok.inj h)
      rfl
  | event buf bufLen =>
      rw [step_event] at h
      obtain ⟨⟨nbytes, env₁⟩, hevent, h⟩ := bind_eq_ok_iff.mp h
      obtain ⟨-, rfl⟩ := Prod.mk.inj (Except.ok.inj h)
      rw [event_state hevent]
  | eventSize =>
      rw [step_eventSize] at h
      obtain ⟨r, -, h⟩ := bind_eq_ok_iff.mp h
      obtain ⟨-, rfl⟩ := Prod.mk.inj (Except.ok.inj h)
      rfl
  | sendResponse buf bufLen =>
      rw [step_sendResponse] at h
      obtain ⟨⟨code, printed, env₁⟩, hsend, h⟩ := bind_eq_ok_iff.mp h
      obtain ⟨rfl, rfl⟩ := Prod.mk.inj (Except.ok.inj h)
      obtain ⟨memory, hmem, ⟨value, -, rfl, -⟩ | ⟨-, rfl⟩⟩ := sendResponse_inv hsend
      · exact absurd rfl hacc
      · rfl

end Runs

/-! ### Main results -/

/-- **A run of the guest.** Whatever steps the guest takes, with ranges inside its memory,
the run returns; the environment it reaches serves the request it was created with; and
the value `run_lamba` returns is the response of the last `send_response` that returned 0,
or nothing if there was none. -/
theorem guest_run (serde : SerdeJson) (wasmer : Wasmer) (request : LambdaRequest)
    (hlen : (serde.toVec request).length < UInt32.size) (memory : Bytes) (steps : List GuestStep)
    (hsteps : InBounds wasmer memory.length steps) :
    ∃ replies env memory', (guest serde wasmer).run ((Env.new serde request).init memory) steps =
        .ok (replies, env) ∧
      Serves serde wasmer (serde.toVec request) memory' env ∧
      ((∀ reply ∈ replies, ¬ reply.Accepted) ∧
          runLamba serde wasmer request memory steps = .ok none ∨
        ∃ before buf bufLen after replies₁ reply replies₂ env₁ memory₁ value,
          steps = before ++ .sendResponse buf bufLen :: after ∧
          replies = replies₁ ++ reply :: replies₂ ∧
          (guest serde wasmer).run ((Env.new serde request).init memory) before =
            .ok (replies₁, env₁) ∧
          env₁.memory = some memory₁ ∧
          serde.fromSlice (rangeOf memory₁ buf bufLen) = .ok value ∧
          reply.Accepted ∧ (∀ reply' ∈ replies₂, ¬ reply'.Accepted) ∧
          runLamba serde wasmer request memory steps = .ok (some value)) := by
  have hstart : Serves serde wasmer (serde.toVec request) memory
      ((Env.new serde request).init memory) := serves_of_memory rfl rfl hlen
  obtain ⟨replies, env, memory', hrun, hserves⟩ := run_serves hlen hstart hsteps
  have hresponse : runLamba serde wasmer request memory steps = .ok env.state.response := by
    rw [runLamba, hrun]
    rfl
  refine ⟨replies, env, memory', hrun, hserves, ?_⟩
  rw [hresponse]
  rcases (guest serde wasmer).run_last (fun env => env.state.response)
      (fun _ _ _ _ hstep hacc => step_accepted hstep hacc)
      (fun _ _ _ _ hstep hacc => step_not_accepted hstep hacc) hrun with
    ⟨hnone, hget⟩ | ⟨before, s, after, replies₁, reply, replies₂, env₁, hsplit, hreplies, hrun₁,
      hacc, hlater, hsends⟩
  · refine Or.inl ⟨hnone, ?_⟩
    rw [hget]
    rfl
  · obtain ⟨buf, bufLen, memory₁, value, rfl, hmem₁, hparse, hvalue⟩ := hsends
    refine Or.inr ⟨before, buf, bufLen, after, replies₁, reply, replies₂, env₁, memory₁, value,
      hsplit, hreplies, hrun₁, hmem₁, hparse, hacc, hlater, ?_⟩
    rw [hvalue]

/-- Pointers into a memory as the engine checks them: the range ends inside the memory and
begins inside it. -/
def Wasmer.reference : Wasmer where
  inBounds size ptr len := ptr.toNat + len.toNat ≤ size && ptr.toNat < size
  le_of_inBounds h := by
    rw [Bool.and_eq_true, decide_eq_true_eq] at h
    exact h.1
  inBounds_of_le hle hlt := by
    rw [Bool.and_eq_true, decide_eq_true_eq, decide_eq_true_eq]
    exact ⟨hle, hlt⟩

/-- A `GET` request for `/` without headers, as an event. -/
def plainEvent : LambdaRequest where
  resource := "/".toList
  path := "/".toList
  httpMethod := "GET".toList
  headers := ∅
  queryStringParameters := ∅
  pathParameters := none
  stageVariables := none
  body := some []
  isBase64Encoded := false

/-- The JSON text of a response that has only a status code. -/
def statusOnly (code : String) : Bytes :=
  Utf8.encode ("\x7b\"statusCode\":".toList ++ code.toList ++ "\x7d".toList)

/-- JSON, as far as the concrete runs below need it. -/
def SerdeJson.sample : SerdeJson where
  toVec _ := Utf8.encode ("\x7b\"resource\":\"/\",\"path\":\"/\",\"httpMethod\":\"GET\",".toList ++
    "\"headers\":\x7b\x7d,\"queryStringParameters\":\x7b\x7d,\"pathParameters\":null,".toList ++
    "\"stageVariables\":null,\"body\":\"\",\"isBase64Encoded\":false\x7d".toList)
  fromSlice b :=
    if b = statusOnly "200" then .ok ⟨200, ∅, none, false⟩
    else if b = statusOnly "0" then .ok ⟨0, ∅, none, false⟩
    else .error "expected value at line 1 column 1".toList

/-- A guest that reads its event into a small buffer, asks for the size, sends a response,
and then fails to send a second one. -/
def plainSteps : List GuestStep :=
  [.event 0 4, .eventSize, .write (statusOnly "200" ++ [0]), .sendResponse 0 18,
    .sendResponse 17 2]

set_option maxRecDepth 4000 in
/-- The run of that guest: its first response is the one that counts. -/
theorem guest_run_plain :
    ∃ replies env memory', (guest .sample .reference).run
        ((Env.new .sample plainEvent).init [1, 2, 3, 4, 5]) plainSteps = .ok (replies, env) ∧
      Serves .sample .reference (SerdeJson.sample.toVec plainEvent) memory' env ∧
      runLamba .sample .reference plainEvent [1, 2, 3, 4, 5] plainSteps =
        .ok (some ⟨200, ∅, none, false⟩) := by
  obtain ⟨replies, env, memory', hrun, hserves, -⟩ := guest_run .sample .reference plainEvent
    (by decide +kernel) [1, 2, 3, 4, 5] plainSteps ⟨rfl, trivial, trivial, rfl, rfl, trivial⟩
  exact ⟨replies, env, memory', hrun, hserves, rfl⟩

/-- **Accepted is not delivered.** Whenever `send_response` returns 0, the response it
stored is the one the bytes parse to, and it can be converted into an HTTP response exactly
when it is deliverable. -/
theorem accepted_delivered_iff (serde : SerdeJson) (wasmer : Wasmer) (http : Http)
    (base64 : Base64.Codec) (env env' : Env) (buf bufLen : UInt32) (printed : Option Str)
    (hsend : sendResponse serde wasmer env buf bufLen = .ok (0, printed, env')) :
    ∃ memory response, env.memory = some memory ∧
      serde.fromSlice (rangeOf memory buf bufLen) = .ok response ∧
      env'.state.response = some response ∧
      ((∃ r, response.intoResponse http base64 = .ok r) ↔ response.Deliverable http base64) := by
  obtain ⟨memory, hmem, ⟨response, hparse, -, hresponse⟩ | ⟨hcode, -⟩⟩ := sendResponse_inv hsend
  · exact ⟨memory, response, hmem, hparse, hresponse, exists_intoResponse_iff⟩
  · exact absurd hcode (by decide)

/-- The JSON text of a response with two cookies and a body in base64. -/
def cookiesText : Bytes :=
  Utf8.encode ("\x7b\"statusCode\":201,".toList ++
    "\"headers\":\x7b\"set-cookie\":[\"a=1\",\"b=2\"]\x7d,".toList ++
    "\"body\":\"/w==\",\"isBase64Encoded\":true\x7d".toList)

/-- The response. -/
def cookiesResponse : LambdaResponse :=
  ⟨201, AList.insert "set-cookie".toList ["a=1".toList, "b=2".toList] ∅, some "/w==".toList, true⟩

/-- JSON, with that response. -/
def SerdeJson.cookies : SerdeJson where
  toVec := SerdeJson.sample.toVec
  fromSlice b := if b = cookiesText then .ok cookiesResponse else SerdeJson.sample.fromSlice b

/-- It is accepted and delivered. -/
theorem accepted_delivered_cookies :
    ∃ env' response, sendResponse .cookies .reference
        ((Env.new .cookies plainEvent).init cookiesText) 0 94 = .ok (0, none, env') ∧
      env'.state.response = some response ∧
      ∃ r, response.intoResponse Http.reference Base64.standard = .ok r := by
  have hrange : rangeOf cookiesText 0 94 = cookiesText := by decide +kernel
  have hslice : SerdeJson.cookies.fromSlice cookiesText = .ok cookiesResponse := by
    simp only [SerdeJson.cookies, if_true]
  have hsend : sendResponse .cookies .reference
      ((Env.new .cookies plainEvent).init cookiesText) 0 94 =
      .ok (0, none, ⟨⟨SerdeJson.cookies.toVec plainEvent, some cookiesResponse⟩,
        some cookiesText⟩) := by
    rw [sendResponse_eq rfl (by decide +kernel), hrange, hslice]
    rfl
  obtain ⟨memory, response, -, -, hresponse, hiff⟩ := accepted_delivered_iff .cookies .reference
    Http.reference Base64.standard _ _ 0 94 none hsend
  obtain rfl := Option.some.inj hresponse
  refine ⟨_, _, hsend, hresponse, hiff.mpr ⟨by decide, ?_, ?_⟩⟩
  · intro entry hentry
    obtain rfl := List.mem_singleton.mp hentry
    decide
  · rintro body ⟨⟩ -
    decide

/-- A response with the status code 0 is accepted, and converting it panics. -/
theorem accepted_zero_panics :
    ∃ env' response, sendResponse .sample .reference
        ((Env.new .sample plainEvent).init (statusOnly "0")) 0 16 = .ok (0, none, env') ∧
      env'.state.response = some response ∧
      response.intoResponse Http.reference Base64.standard = .error (.unwrap .headersMut) :=
  ⟨_, ⟨0, ∅, none, false⟩, rfl, rfl, rfl⟩

end Wgi
