import Wgi.LambdaEnv
import Wgi.Search

/-!
# The Lambda Handler

`lambda::handler` looks for the script, gives up if the last candidate failed, reads the
whole body, builds the event, and runs the module. `Lambda.prepare` is everything up to
the run; its result is what `App::new` and `App::run_lamba` are called with.

## Main results

* `Lambda.prepare_eq_ok_iff`: when the module is run, and with what.
-/

namespace Wgi

open Fallible

namespace Lambda

section Handler

variable (http : Http) (base64 : Base64.Codec) (form : Urlencoded) (hyper : Hyper)

/-- `if let Some(err) = last_err { panic!("failed to load file: {:?}", err) }`. -/
def checkLoaded (search : Search) : Except Panic Unit :=
  match search.lastErr with
  | some err => .error (.failedToLoadFile err)
  | none => .ok ()

/-- A call `App::new(wasm).run_lamba(event)`, and the body the event was made from. -/
structure Call where
  wasm : Bytes
  body : Bytes
  event : LambdaRequest

/-- `lambda::handler` up to the call that runs the module. -/
def prepare (fs : FileSystem) (request : Request http) : Except Panic Call := do
  let search ← search fs request.uri.path
  checkLoaded search
  let body ← unwrapAt .requestBody (hyper.toBytes request.body).toOption
  let event ← LambdaRequest.from http base64 form request.method request.uri request.headers body
  pure ⟨search.wasm, body, event⟩

/-- `lambda::handler`, for a module that is given by what it does: from its bytes and its
event it has an initial memory and takes some steps, or the run fails. -/
def handler (serde : SerdeJson) (wasmer : Wasmer)
    (module : Bytes → LambdaRequest → Option (Bytes × List GuestStep)) (fs : FileSystem)
    (request : Request http) : Except Panic LambdaResponse := do
  let call ← prepare http base64 form hyper fs request
  let (memory, steps) ← unwrapAt .guestRun (module call.wasm call.event)
  let response ← runLamba serde wasmer call.event memory steps
  unwrapAt .noResponse response

end Handler

/-! ### When the module is run -/

section Prepare

variable {http : Http} {base64 : Base64.Codec} {form : Urlencoded} {hyper : Hyper}

theorem checkLoaded_eq_ok_iff {search : Search} :
    checkLoaded search = .ok () ↔ search.lastErr = none := by
  rw [checkLoaded]
  cases search.lastErr <;> simp

/-- The module is run on what the search left in the buffer, with the event made from the
whole body. -/
theorem prepare_eq_ok_iff {fs : FileSystem} {request : Request http} {call : Call} :
    prepare http base64 form hyper fs request = .ok call ↔
      ∃ search, Lambda.search fs request.uri.path = .ok search ∧ search.lastErr = none ∧
        call.wasm = search.wasm ∧ hyper.toBytes request.body = .ok call.body ∧
        LambdaRequest.from http base64 form request.method request.uri request.headers
          call.body = .ok call.event := by
  rw [prepare, bind_eq_ok_iff]
  constructor
  · rintro ⟨search, hsearch, h⟩
    obtain ⟨_, hloaded, h⟩ := bind_eq_ok_iff.mp h
    obtain ⟨body, hbody, h⟩ := bind_eq_ok_iff.mp h
    obtain ⟨event, hevent, h⟩ := bind_eq_ok_iff.mp h
    obtain rfl := Except.ok.inj h
    exact ⟨search, hsearch, checkLoaded_eq_ok_iff.mp hloaded, rfl,
      toOption_eq_some_iff.mp (unwrapAt_eq_ok_iff.mp hbody), hevent⟩
  · obtain ⟨wasm, body, event⟩ := call
    rintro ⟨search, hsearch, hloaded, rfl, hbody, hevent⟩
    exact ⟨search, hsearch, bind_eq_ok_iff.mpr ⟨(), checkLoaded_eq_ok_iff.mpr hloaded,
      bind_eq_ok_iff.mpr ⟨body, unwrapAt_eq_ok_iff.mpr (toOption_eq_some_iff.mpr hbody),
        bind_eq_ok_iff.mpr ⟨event, hevent, rfl⟩⟩⟩⟩

end Prepare

end Lambda

end Wgi
