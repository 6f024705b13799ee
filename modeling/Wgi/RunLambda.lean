import Wgi.LambdaHandler
import Wgi.LogForwarder
import Wgi.ModuleCache

/-!
# Running a Lambda Guest

`App::run_lamba` makes the environment of the event, gets the compiled module, connects the
standard output and the standard error of the guest to a `LogForwarder` each, chains the host
functions before the imports of WASI, calls `_start`, and takes the response out of the
environment.

The guest is a tree: what it does next depends on what it reads from its memory and on what the
host functions return. `LambdaGuest.behave` forgets the forwarders and keeps the steps that the
guest has taken, so that all that holds of lists of steps holds of such a guest.

## Main results

* `LambdaGuest.run_eq`: what a guest leaves behind is what it does with its environment.
* `LambdaGuest.behave_steps`: the steps a guest has taken make a run of the host functions.
* `runLamba_of_right`: with a right cache, a run is one of `runLamba` for the module that the
  bytes compile to.
-/

namespace Wgi

/-- A lambda guest. -/
inductive LambdaGuest where
  /-- `_start` returns. -/
  | done
  /-- The guest traps, or exits with a code. -/
  | trap
  /-- The guest looks at its memory. -/
  | load (next : Bytes → LambdaGuest)
  /-- The guest writes to its memory or calls a host function, which returns a number. -/
  | call (step : GuestStep) (next : UInt32 → LambdaGuest)
  /-- A write to the standard output. -/
  | print (buf : Bytes) (next : LambdaGuest)
  /-- A write to the standard error. -/
  | log (buf : Bytes) (next : LambdaGuest)

/-- What the guest gets from a host function. -/
def GuestReply.value : GuestReply → UInt32
  | .wrote => 0
  | .copied nbytes => nbytes
  | .size nbytes => nbytes
  | .sent code _ => code.toUInt32

/-- What a host function prints to the standard error of the server. -/
def GuestReply.printed : GuestReply → List Str
  | .sent _ (some line) => [line]
  | _ => []

/-- How a guest has come to its end. -/
inductive LambdaEnd where
  | returned
  | trapped
  /-- A host function panicked; the panic unwinds through the guest. -/
  | panicked (panic : Panic)
  deriving DecidableEq, Repr

/-- What the guest works on: the environment, the two forwarders, and the standard error of the
server. -/
structure LambdaHost where
  env : Env
  stdout : LogForwarder
  stderr : LogForwarder
  printed : List Str

section Run

variable (serde : SerdeJson) (wasmer : Wasmer)

/-- A guest at work. -/
def LambdaGuest.run : LambdaGuest → LambdaHost → LambdaEnd × LambdaHost
  | .done, host => (.returned, host)
  | .trap, host => (.trapped, host)
  | .load next, host => (next (host.env.memory.getD [])).run host
  | .call step next, host =>
      match (guest serde wasmer).step host.env step with
      | .error panic => (.panicked panic, host)
      | .ok (reply, env) =>
          (next reply.value).run { host with env, printed := host.printed ++ reply.printed }
  | .print buf next, host => next.run { host with stdout := (host.stdout.write buf).2 }
  | .log buf next, host => next.run { host with stderr := (host.stderr.write buf).2 }

/-- What a guest does: how it ends, the environment it leaves, the steps it has taken, and what
it and the host functions have written. -/
structure LambdaBehaviour where
  ending : LambdaEnd
  env : Env
  steps : List GuestStep
  out : Bytes
  err : Bytes
  printed : List Str

/-- What a guest does with an environment. -/
def LambdaGuest.behave : LambdaGuest → Env → LambdaBehaviour
  | .done, env => ⟨.returned, env, [], [], [], []⟩
  | .trap, env => ⟨.trapped, env, [], [], [], []⟩
  | .load next, env => (next (env.memory.getD [])).behave env
  | .call step next, env =>
      match (guest serde wasmer).step env step with
      | .error panic => ⟨.panicked panic, env, [step], [], [], []⟩
      | .ok (reply, env) =>
          let b := (next reply.value).behave env
          { b with steps := step :: b.steps, printed := reply.printed ++ b.printed }
  | .print buf next, env => { next.behave env with out := buf ++ (next.behave env).out }
  | .log buf next, env => { next.behave env with err := buf ++ (next.behave env).err }

end Run

/-! ### What a guest leaves behind -/

section Spec

variable (serde : SerdeJson) (wasmer : Wasmer)

/-- **What a guest leaves behind**: its environment, two forwarders that have seen all that it
has written to the two streams, and the lines of the host functions. -/
theorem LambdaGuest.run_eq (guest : LambdaGuest) (host : LambdaHost) {out err : Bytes}
    (hout : LogForwarder.Holds out host.stdout) (herr : LogForwarder.Holds err host.stderr) :
    ∃ stdout stderr, guest.run serde wasmer host =
        ((guest.behave serde wasmer host.env).ending,
          ⟨(guest.behave serde wasmer host.env).env, stdout, stderr,
            host.printed ++ (guest.behave serde wasmer host.env).printed⟩) ∧
      LogForwarder.Holds (out ++ (guest.behave serde wasmer host.env).out) stdout ∧
      LogForwarder.Holds (err ++ (guest.behave serde wasmer host.env).err) stderr := by
  induction guest generalizing host out err with
  | done =>
      exact ⟨host.stdout, host.stderr, by simp [run, behave], hout.append_nil, herr.append_nil⟩
  | trap =>
      exact ⟨host.stdout, host.stderr, by simp [run, behave], hout.append_nil, herr.append_nil⟩
  | load next ih => exact ih _ host hout herr
  | call step next ih =>
      rw [run, behave]
      cases hstep : (Wgi.guest serde wasmer).step host.env step with
      | error panic =>
          exact ⟨host.stdout, host.stderr, by simp, hout.append_nil, herr.append_nil⟩
      | ok result =>
          obtain ⟨reply, env⟩ := result
          obtain ⟨stdout, stderr, hrun, hout', herr'⟩ := ih reply.value
            { host with env, printed := host.printed ++ reply.printed } hout herr
          refine ⟨stdout, stderr, ?_, hout', herr'⟩
          simp only [hrun, List.append_assoc]
  | print buf next ih =>
      obtain ⟨stdout, stderr, hrun, hout', herr'⟩ :=
        ih { host with stdout := (host.stdout.write buf).2 } (hout.write buf) herr
      refine ⟨stdout, stderr, hrun, ?_, herr'⟩
      rwa [List.append_assoc] at hout'
  | log buf next ih =>
      obtain ⟨stdout, stderr, hrun, hout', herr'⟩ :=
        ih { host with stderr := (host.stderr.write buf).2 } hout (herr.write buf)
      refine ⟨stdout, stderr, hrun, hout', ?_⟩
      rwa [List.append_assoc] at herr'

/-- **The steps a guest has taken** make a run of the host functions, to the same environment or
to the same panic. -/
theorem LambdaGuest.behave_steps (guest : LambdaGuest) (env : Env) :
    ((Wgi.guest serde wasmer).run env (guest.behave serde wasmer env).steps).map Prod.snd =
      match (guest.behave serde wasmer env).ending with
      | .panicked panic => .error panic
      | _ => .ok (guest.behave serde wasmer env).env := by
  induction guest generalizing env with
  | done => rfl
  | trap => rfl
  | load next ih => exact ih _ env
  | call step next ih =>
      rw [behave]
      cases hstep : (Wgi.guest serde wasmer).step env step with
      | error panic =>
          simp only [Machine.run, hstep]
          rfl
      | ok result =>
          obtain ⟨reply, env'⟩ := result
          have hnext := ih reply.value env'
          simp only [Machine.run, hstep]
          rw [← hnext]
          cases (Wgi.guest serde wasmer).run env'
            ((next reply.value).behave serde wasmer env').steps with
          | error panic => rfl
          | ok result => rfl
  | print buf next ih => exact ih env
  | log buf next ih => exact ih env

end Spec

/-! ### `App::run_lamba` -/

/-- `WasiState`, `Instance` and `_start`: the memory and the guest that a module begins with, or
the text of the error with which it cannot be started. -/
abbrev LambdaWasi (Module : Type) := Module → Except Str (Bytes × LambdaGuest)

/-- The error of `App::run_lamba`. -/
inductive LambdaError where
  /-- `self.module()` fails. -/
  | module (err : ModuleError)
  /-- The imports or `_start` are not as they have to be. -/
  | start (err : Str)
  /-- `start.call()` fails. -/
  | trap
  deriving DecidableEq, Repr

/-- What a call of `App::run_lamba` returns, the messages logged from the two streams of the
guest, what the server has printed, and the cache that is left. -/
structure LambdaRun (Hash Module : Type) where
  result : Except Panic (Except LambdaError (Option LambdaResponse))
  stdout : List Bytes
  stderr : List Bytes
  printed : List Str
  cache : FileSystemCache Hash Module

/-- What is returned for a guest that has come to its end. -/
def LambdaEnd.result (response : Option LambdaResponse) :
    LambdaEnd → Except Panic (Except LambdaError (Option LambdaResponse))
  | .returned => .ok (.ok response)
  | .trapped => .ok (.error .trap)
  | .panicked panic => .error panic

section RunLamba

variable (serde : SerdeJson) (wasmer : Wasmer) {Hash Module : Type}

/-- `App::run_lamba`. The forwarders are dropped however the call returns. -/
def App.runLamba (W : Compiler Hash Module) (wasi : LambdaWasi Module) (faults : Faults)
    (wasm : Bytes) (request : LambdaRequest) (cache : FileSystemCache Hash Module) :
    LambdaRun Hash Module :=
  let compiled := App.module W faults wasm cache
  match compiled.result with
  | .error err => ⟨.ok (.error (.module err)), [], [], compiled.stderr, compiled.cache⟩
  | .ok module =>
      match wasi module with
      | .error err => ⟨.ok (.error (.start err)), LogForwarder.new.drop.logged,
          LogForwarder.new.drop.logged, compiled.stderr, compiled.cache⟩
      | .ok (memory, guest) =>
          let (ending, host) := guest.run serde wasmer
            ⟨(Env.new serde request).init memory, LogForwarder.new, LogForwarder.new,
              compiled.stderr⟩
          ⟨ending.result host.env.state.response, host.stdout.drop.logged,
            host.stderr.drop.logged, host.printed, compiled.cache⟩

/-- What a module does with an event, as a list of steps. -/
def LambdaWasi.execute (wasi : LambdaWasi Module) (module : Module) (event : LambdaRequest) :
    Option (Bytes × List GuestStep) :=
  match wasi module with
  | .error _ => none
  | .ok (memory, guest) =>
      let b := guest.behave serde wasmer ((Env.new serde event).init memory)
      if b.ending = .trapped then none else some (memory, b.steps)

/-- What the bytes of a module do when they are compiled for the call. -/
def Lambda.compiled (W : Compiler Hash Module) (wasi : LambdaWasi Module) (wasm : Bytes)
    (event : LambdaRequest) : Option (Bytes × List GuestStep) :=
  match W.fromBinary wasm with
  | .ok module => wasi.execute serde wasmer module event
  | .error _ => none

end RunLamba

section RunLambaSpec

variable {serde : SerdeJson} {wasmer : Wasmer} {Hash Module : Type}
variable {W : Compiler Hash Module} {wasi : LambdaWasi Module}

/-- A run leaves the cache as `App::module` does. -/
theorem runLamba_cache (faults : Faults) (wasm : Bytes) (request : LambdaRequest)
    (cache : FileSystemCache Hash Module) :
    (App.runLamba serde wasmer W wasi faults wasm request cache).cache =
      (App.module W faults wasm cache).cache := by
  rw [App.runLamba]
  cases (App.module W faults wasm cache).result with
  | error err => rfl
  | ok module => cases hguest : wasi module <;> simp only [hguest]

/-- **A run, from the behaviour of the guest**: once there is a module and it can be started,
the log has the lines of all that was written to the two streams, however the guest has come to
its end. -/
theorem runLamba_eq {faults : Faults} {wasm memory : Bytes} {request : LambdaRequest}
    {cache : FileSystemCache Hash Module} {module : Module} {guest : LambdaGuest}
    (hmodule : (App.module W faults wasm cache).result = .ok module)
    (hguest : wasi module = .ok (memory, guest)) {b : LambdaBehaviour}
    (hb : guest.behave serde wasmer ((Env.new serde request).init memory) = b) :
    App.runLamba serde wasmer W wasi faults wasm request cache =
      ⟨b.ending.result b.env.state.response, LogForwarder.messagesOf b.out,
        LogForwarder.messagesOf b.err, (App.module W faults wasm cache).stderr ++ b.printed,
        (App.module W faults wasm cache).cache⟩ := by
  have hnew : LogForwarder.Holds [] LogForwarder.new := ⟨rfl, rfl⟩
  obtain ⟨stdout, stderr, hrun, hout, herr⟩ := LambdaGuest.run_eq serde wasmer guest
    ⟨(Env.new serde request).init memory, LogForwarder.new, LogForwarder.new,
      (App.module W faults wasm cache).stderr⟩ hnew hnew
  rw [App.runLamba]
  simp only [hb] at hrun hout herr
  simp only [hmodule, hguest, hrun, LogForwarder.drop_logged hout, LogForwarder.drop_logged herr,
    List.nil_append]

/-- The run of the steps that a guest has taken. -/
theorem runLamba_steps {request : LambdaRequest} {memory : Bytes} {guest : LambdaGuest}
    {b : LambdaBehaviour}
    (hb : guest.behave serde wasmer ((Env.new serde request).init memory) = b) :
    Wgi.runLamba serde wasmer request memory b.steps =
      match b.ending with
      | .panicked panic => .error panic
      | _ => .ok b.env.state.response := by
  have hsteps := LambdaGuest.behave_steps serde wasmer guest ((Env.new serde request).init memory)
  rw [hb] at hsteps
  have hmap : Wgi.runLamba serde wasmer request memory b.steps =
      (((Wgi.guest serde wasmer).run ((Env.new serde request).init memory) b.steps).map
        Prod.snd).map fun env => env.state.response := by
    rw [Wgi.runLamba]
    cases (Wgi.guest serde wasmer).run ((Env.new serde request).init memory) b.steps with
    | error panic => rfl
    | ok result => rfl
  rw [hmap, hsteps]
  cases b.ending with
  | returned | trapped | panicked => rfl

variable (serde wasmer W wasi) in
/-- A run depends on the cache only through the module it gets, but for what is printed. -/
theorem runLamba_congr {faults faults' : Faults} {wasm : Bytes}
    {cache cache' : FileSystemCache Hash Module}
    (h : (App.module W faults wasm cache).result = (App.module W faults' wasm cache').result)
    (request : LambdaRequest) :
    (App.runLamba serde wasmer W wasi faults wasm request cache).result =
        (App.runLamba serde wasmer W wasi faults' wasm request cache').result ∧
      (App.runLamba serde wasmer W wasi faults wasm request cache).stdout =
        (App.runLamba serde wasmer W wasi faults' wasm request cache').stdout ∧
      (App.runLamba serde wasmer W wasi faults wasm request cache).stderr =
        (App.runLamba serde wasmer W wasi faults' wasm request cache').stderr := by
  cases hmodule : (App.module W faults' wasm cache').result with
  | error err =>
      rw [App.runLamba, App.runLamba]
      simp only [h.trans hmodule, hmodule, and_self]
  | ok module =>
      cases hguest : wasi module with
      | error err =>
          rw [App.runLamba, App.runLamba]
          simp only [h.trans hmodule, hmodule, hguest, and_self]
      | ok started =>
          rw [runLamba_eq (h.trans hmodule) hguest rfl, runLamba_eq hmodule hguest rfl]
          exact ⟨rfl, rfl, rfl⟩

/-- A run of a module that is there is one of the steps that it takes. -/
theorem runLamba_result {faults : Faults} {wasm : Bytes} {request : LambdaRequest}
    {cache : FileSystemCache Hash Module} {module : Module}
    (hmodule : (App.module W faults wasm cache).result = .ok module) :
    (App.runLamba serde wasmer W wasi faults wasm request cache).result.map Except.toOption =
      match wasi.execute serde wasmer module request with
      | none => .ok none
      | some (memory, steps) => (Wgi.runLamba serde wasmer request memory steps).map some := by
  rw [LambdaWasi.execute]
  cases hguest : wasi module with
  | error err =>
      rw [App.runLamba]
      simp only [hmodule, hguest]
      rfl
  | ok started =>
      obtain ⟨memory, guest⟩ := started
      generalize hb : guest.behave serde wasmer ((Env.new serde request).init memory) = b
      rw [runLamba_eq hmodule hguest hb]
      have hsteps := runLamba_steps hb
      cases hend : b.ending with
      | trapped =>
          simp only [hb, hend, if_true]
          rfl
      | returned =>
          rw [hend] at hsteps
          simp only [hb, hend, reduceCtorEq, if_false, hsteps]
          rfl
      | panicked panic =>
          rw [hend] at hsteps
          simp only [hb, hend, reduceCtorEq, if_false, hsteps]
          rfl

variable (serde wasmer wasi) in
/-- **A run with a right cache** is one of the module that the bytes compile to, unless the call
fails with an error of `App::module`. -/
theorem runLamba_of_right {used : Set Bytes} {cache : FileSystemCache Hash Module}
    (hinj : Set.InjOn W.generate used) (hright : Right W used cache) {wasm : Bytes}
    (hwasm : wasm ∈ used) (faults : Faults) (request : LambdaRequest) :
    (∃ err, (App.module W faults wasm cache).result = .error err ∧
      (App.runLamba serde wasmer W wasi faults wasm request cache).result =
        .ok (.error (.module err))) ∨
    (App.runLamba serde wasmer W wasi faults wasm request cache).result.map Except.toOption =
      match Lambda.compiled serde wasmer W wasi wasm request with
      | none => .ok none
      | some (memory, steps) => (Wgi.runLamba serde wasmer request memory steps).map some := by
  cases hmodule : (App.module W faults wasm cache).result with
  | error err =>
      refine Or.inl ⟨err, rfl, ?_⟩
      rw [App.runLamba]
      simp only [hmodule]
  | ok module =>
      have hbinary := (App.module_spec hinj hright hwasm faults).1.compiled module hmodule
      refine Or.inr ?_
      rw [runLamba_result hmodule, Lambda.compiled, hbinary]

end RunLambaSpec

end Wgi
