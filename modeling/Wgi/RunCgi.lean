import Wgi.Handlers
import Wgi.LogForwarder
import Wgi.ModuleCache
import Wgi.Process

/-!
# Running a CGI Guest

`App::run_cgi` gets the compiled module, connects the standard input and output of the guest to
two pipes and its standard error to a `LogForwarder`, writes the body of the request to the
first pipe, calls `_start`, and parses what is in the second pipe. The guest is a `Process`: it
may read, print and log in any pieces and in any order, and it may trap.

`wasmer_wasi` is outside of the repository. `Wasi` is what `App::run_cgi` relies on: its pipes
give back what was written to them, in order, and a module and an environment make a process, or
the module cannot be started.

## Main results

* `Streams.run_eq`: what a guest leaves in its streams is what it does with its input.
* `runCgi_eq`: the result and the log of a run, from the behaviour of the guest.
* `runCgi_of_right`: with a right cache, a run is one of `Cgi.runCgi` for the module that the
  bytes of the call compile to.
* `runCgi_buffering`: neither the response nor the log depends on how a guest cuts and orders its
  reads and writes.
-/

namespace Wgi

/-! ### The streams of a guest -/

/-- The `Pipe` of `wasmer_wasi`. -/
structure Pipes where
  Pipe : Type
  /-- The bytes that were written and not read. -/
  contents : Pipe → Bytes
  /-- `Pipe::new`. -/
  new : Pipe
  /-- `Read::read` into a buffer of the given size. -/
  read : Pipe → ℕ → Bytes × Pipe
  /-- `Write::write`, and so `Write::write_all`. -/
  write : Pipe → Bytes → Pipe
  contents_new : contents new = []
  read_fst (pipe : Pipe) (count : ℕ) : (read pipe count).1 = (contents pipe).take count
  contents_read (pipe : Pipe) (count : ℕ) :
    contents (read pipe count).2 = (contents pipe).drop count
  contents_write (pipe : Pipe) (buf : Bytes) : contents (write pipe buf) = contents pipe ++ buf

/-- `Read::read_to_string`, which reads all there is and fails when it is not UTF-8. -/
def Pipes.readToString (pipes : Pipes) (pipe : pipes.Pipe) : Option Str :=
  Utf8.decode (pipes.contents pipe)

/-- A pipe that is a list of bytes. -/
def Pipes.reference : Pipes where
  Pipe := Bytes
  contents := id
  new := []
  read pipe count := (pipe.take count, pipe.drop count)
  write pipe buf := pipe ++ buf
  contents_new := rfl
  read_fst _ _ := rfl
  contents_read _ _ := rfl
  contents_write _ _ := rfl

/-- The standard streams of a CGI guest. -/
structure Streams (pipes : Pipes) where
  stdin : pipes.Pipe
  stdout : pipes.Pipe
  stderr : LogForwarder

section Streams

variable {pipes : Pipes}

variable (pipes) in
/-- The streams of a guest that has not begun, with the body of the request in its input. -/
def Streams.connect (input : Bytes) : Streams pipes where
  stdin := pipes.write pipes.new input
  stdout := pipes.new
  stderr := LogForwarder.new

/-- A guest at work on its streams; the flag tells whether it has ended without a trap. -/
def Streams.run : Process UInt8 → Streams pipes → Bool × Streams pipes
  | .done, streams => (true, streams)
  | .trap, streams => (false, streams)
  | .read count next, streams =>
      Streams.run (next (pipes.read streams.stdin count).1)
        { streams with stdin := (pipes.read streams.stdin count).2 }
  | .write buf next, streams =>
      Streams.run next { streams with stdout := pipes.write streams.stdout buf }
  | .log buf next, streams =>
      Streams.run next { streams with stderr := (streams.stderr.write buf).2 }

/-- **What a guest leaves in its streams**: all of its output, and a forwarder that has seen all
that it has logged. -/
theorem Streams.run_eq (guest : Process UInt8) (streams : Streams pipes) {logged : Bytes}
    (h : LogForwarder.Holds logged streams.stderr) :
    let b := guest.behave (pipes.contents streams.stdin)
    ∃ streams', Streams.run guest streams = (b.ended, streams') ∧
      pipes.contents streams'.stdout = pipes.contents streams.stdout ++ b.out ∧
      LogForwarder.Holds (logged ++ b.err) streams'.stderr := by
  induction guest generalizing streams logged with
  | done => exact ⟨streams, rfl, by simp [Process.behave], h.append_nil⟩
  | trap => exact ⟨streams, rfl, by simp [Process.behave], h.append_nil⟩
  | read count next ih =>
      have hread := ih (pipes.read streams.stdin count).1
        { streams with stdin := (pipes.read streams.stdin count).2 } h
      simp only [pipes.read_fst, pipes.contents_read] at hread
      simpa only [Streams.run, Process.behave, pipes.read_fst] using hread
  | write buf next ih =>
      obtain ⟨streams', hrun, hout, hholds⟩ :=
        ih { streams with stdout := pipes.write streams.stdout buf } h
      refine ⟨streams', hrun, ?_, hholds⟩
      rw [hout, pipes.contents_write, List.append_assoc]
      rfl
  | log buf next ih =>
      obtain ⟨streams', hrun, hout, hholds⟩ :=
        ih { streams with stderr := (streams.stderr.write buf).2 } (h.write buf)
      refine ⟨streams', hrun, hout, ?_⟩
      rwa [List.append_assoc] at hholds

/-- From fresh streams, the output is that of the guest, and the log has the lines of all that
it has written to its standard error. -/
theorem Streams.run_connect (pipes : Pipes) (guest : Process UInt8) (input : Bytes) :
    ∃ streams', Streams.run guest (.connect pipes input) = ((guest.behave input).ended, streams') ∧
      pipes.readToString streams'.stdout = Utf8.decode (guest.behave input).out ∧
      streams'.stderr.drop.logged = LogForwarder.messagesOf (guest.behave input).err := by
  have hnew : LogForwarder.Holds [] (Streams.connect pipes input).stderr := ⟨rfl, rfl⟩
  have hinput : pipes.contents (Streams.connect pipes input).stdin = input := by
    rw [Streams.connect, pipes.contents_write, pipes.contents_new, List.nil_append]
  obtain ⟨streams', hrun, hout, hholds⟩ := Streams.run_eq guest (.connect pipes input) hnew
  rw [hinput] at hrun hout hholds
  refine ⟨streams', hrun, ?_, LogForwarder.drop_logged hholds⟩
  rw [Pipes.readToString, hout, Streams.connect, pipes.contents_new, List.nil_append]

end Streams

/-! ### `App::run_cgi` -/

/-- What `App::run_cgi` has from `wasmer_wasi`. -/
structure Wasi (Module : Type) where
  pipes : Pipes
  /-- `WasiState`, `Instance` and `_start`: the process that a module is with an environment, or
  the text of the error with which it cannot be started. -/
  start : Module → Vars → Except Str (Process UInt8)

/-- The error of `App::run_cgi`. -/
inductive CgiError where
  /-- `self.module()` fails. -/
  | module (err : ModuleError)
  /-- The environment, the imports or `_start` are not as they have to be. -/
  | start (err : Str)
  /-- `run.call()` fails. -/
  | trap
  /-- `read_to_string` fails. -/
  | stdout
  deriving DecidableEq, Repr

/-- What a call of `App::run_cgi` returns, the messages that the guest has logged, what the
server has printed, and the cache that is left. -/
structure CgiRun (http : Http) (Hash Module : Type) where
  result : Except Panic (Except CgiError (CgiResponse http))
  log : List Bytes
  stderr : List Str
  cache : FileSystemCache Hash Module

section RunCgi

variable (http : Http) (unicode : Text.Unicode) {Hash Module : Type}

/-- `App::run_cgi` behind a guest that has ended: parse what was read from the pipe. -/
def readResponse : Option Str → Except Panic (Except CgiError (CgiResponse http))
  | none => .ok (.error .stdout)
  | some buf => (CgiResponse.fromStr http unicode buf).map .ok

/-- `App::run_cgi`. The forwarder is dropped however the call returns. -/
def App.runCgi (W : Compiler Hash Module) (wasi : Wasi Module) (faults : Faults) (call : Cgi.Call)
    (cache : FileSystemCache Hash Module) : CgiRun http Hash Module :=
  let compiled := App.module W faults call.wasm cache
  match compiled.result with
  | .error err => ⟨.ok (.error (.module err)), [], compiled.stderr, compiled.cache⟩
  | .ok module =>
      match wasi.start module call.vars with
      | .error err =>
          ⟨.ok (.error (.start err)), LogForwarder.new.drop.logged, compiled.stderr, compiled.cache⟩
      | .ok guest =>
          let (ended, streams) := Streams.run guest (.connect wasi.pipes call.input)
          ⟨if ended then readResponse http unicode (wasi.pipes.readToString streams.stdout)
              else .ok (.error .trap),
            streams.stderr.drop.logged, compiled.stderr, compiled.cache⟩

end RunCgi

/-! ### What a run comes to -/

section Spec

variable {http : Http} {unicode : Text.Unicode} {Hash Module : Type}
variable {W : Compiler Hash Module} {wasi : Wasi Module}

/-- What is returned for a guest that has behaved in some way. -/
def answer (http : Http) (unicode : Text.Unicode) (b : Process.Behaviour UInt8) :
    Except Panic (Except CgiError (CgiResponse http)) :=
  if b.ended then readResponse http unicode (Utf8.decode b.out) else .ok (.error .trap)

/-- A run leaves the cache as `App::module` does. -/
theorem runCgi_cache (faults : Faults) (call : Cgi.Call) (cache : FileSystemCache Hash Module) :
    (App.runCgi http unicode W wasi faults call cache).cache =
      (App.module W faults call.wasm cache).cache := by
  rw [App.runCgi]
  cases (App.module W faults call.wasm cache).result with
  | error err => rfl
  | ok module => cases hguest : wasi.start module call.vars <;> simp only [hguest]

variable (http unicode W wasi) in
/-- A run depends on the cache only through the module it gets. -/
theorem runCgi_congr {faults faults' : Faults} {call : Cgi.Call}
    {cache cache' : FileSystemCache Hash Module}
    (h : (App.module W faults call.wasm cache).result =
      (App.module W faults' call.wasm cache').result) :
    (App.runCgi http unicode W wasi faults call cache).result =
        (App.runCgi http unicode W wasi faults' call cache').result ∧
      (App.runCgi http unicode W wasi faults call cache).log =
        (App.runCgi http unicode W wasi faults' call cache').log := by
  rw [App.runCgi, App.runCgi]
  simp only [h]
  cases (App.module W faults' call.wasm cache').result with
  | error err => exact ⟨rfl, rfl⟩
  | ok module => cases hguest : wasi.start module call.vars <;> simp only [hguest, and_self]

/-- **A run, from the behaviour of the guest**: once there is a module and it can be started,
the response is parsed from the whole output, and the log has the lines of all that was written
to the standard error, whether the guest has trapped or not. -/
theorem runCgi_eq {faults : Faults} {call : Cgi.Call} {cache : FileSystemCache Hash Module}
    {module : Module} {guest : Process UInt8}
    (hmodule : (App.module W faults call.wasm cache).result = .ok module)
    (hguest : wasi.start module call.vars = .ok guest) :
    App.runCgi http unicode W wasi faults call cache =
      ⟨answer http unicode (guest.behave call.input),
        LogForwarder.messagesOf (guest.behave call.input).err,
        (App.module W faults call.wasm cache).stderr,
        (App.module W faults call.wasm cache).cache⟩ := by
  obtain ⟨streams, hrun, hout, hlog⟩ :=
    Streams.run_connect wasi.pipes guest call.input
  rw [App.runCgi]
  simp only [hmodule, hguest, hrun, hout, hlog, answer]

/-- What the bytes of a call do, for an `execute` that looks at the output of the guest only. -/
def Wasi.execute (wasi : Wasi Module) (module : Module) (input : Bytes) (vars : Vars) :
    Option Str :=
  match wasi.start module vars with
  | .error _ => none
  | .ok guest =>
      if (guest.behave input).ended then Utf8.decode (guest.behave input).out else none

/-- The response for a module that is there is the one for its output. -/
theorem runCgi_result {faults : Faults} {call : Cgi.Call} {cache : FileSystemCache Hash Module}
    {module : Module} (hmodule : (App.module W faults call.wasm cache).result = .ok module) :
    (App.runCgi http unicode W wasi faults call cache).result.map Except.toOption =
      Cgi.runCgi http unicode (fun _ => wasi.execute module) call := by
  rw [Cgi.runCgi, Wasi.execute]
  cases hguest : wasi.start module call.vars with
  | error err =>
      rw [App.runCgi]
      simp only [hmodule, hguest]
      rfl
  | ok guest =>
      rw [runCgi_eq hmodule hguest]
      simp only [answer]
      cases (guest.behave call.input).ended with
      | false => rfl
      | true =>
          simp only [if_true]
          cases Utf8.decode (guest.behave call.input).out with
          | none => rfl
          | some buf =>
              simp only [readResponse]
              cases CgiResponse.fromStr http unicode buf with
              | error panic => rfl
              | ok response => rfl

/-- What the bytes of a module do when they are compiled for the call: `execute` runs a
compiled module on its standard input and environment. -/
def Cgi.compiled (W : Compiler Hash Module) (execute : Module → Bytes → Vars → Option Str)
    (wasm input : Bytes) (vars : Vars) : Option Str :=
  match W.fromBinary wasm with
  | .ok module => execute module input vars
  | .error _ => none

variable (http unicode wasi) in
/-- **A run with a right cache** is one of the module that the bytes of the call compile to,
unless the call fails with an error of `App::module`. -/
theorem runCgi_of_right {used : Set Bytes} {cache : FileSystemCache Hash Module}
    (hinj : Set.InjOn W.generate used) (hright : Right W used cache) {call : Cgi.Call}
    (hwasm : call.wasm ∈ used) (faults : Faults) :
    (∃ err, (App.module W faults call.wasm cache).result = .error err ∧
      (App.runCgi http unicode W wasi faults call cache).result = .ok (.error (.module err))) ∨
    (App.runCgi http unicode W wasi faults call cache).result.map Except.toOption =
      Cgi.runCgi http unicode (Cgi.compiled W wasi.execute) call := by
  cases hmodule : (App.module W faults call.wasm cache).result with
  | error err =>
      refine Or.inl ⟨err, rfl, ?_⟩
      rw [App.runCgi]
      simp only [hmodule]
  | ok module =>
      have hbinary :=
        (App.module_spec hinj hright hwasm faults).1.compiled module hmodule
      refine Or.inr ?_
      rw [runCgi_result hmodule, Cgi.runCgi, Cgi.runCgi, Cgi.compiled, hbinary]

/-! ### Buffering -/

/-- Two ways to start modules that differ in the pipes and in the buffering of the guests only. -/
def Wasi.Equiv (wasi wasi' : Wasi Module) : Prop :=
  ∀ module vars,
    (∃ err, wasi.start module vars = .error err ∧ wasi'.start module vars = .error err) ∨
    ∃ guest guest', wasi.start module vars = .ok guest ∧ wasi'.start module vars = .ok guest' ∧
      guest.Equiv guest'

/-- **Buffering does not show**: neither the response nor the log depends on how the guests cut
and order their reads and writes. -/
theorem runCgi_buffering (http : Http) (unicode : Text.Unicode) (W : Compiler Hash Module)
    {wasi wasi' : Wasi Module} (hequiv : wasi.Equiv wasi') (faults : Faults) (call : Cgi.Call)
    (cache : FileSystemCache Hash Module) :
    App.runCgi http unicode W wasi faults call cache =
      App.runCgi http unicode W wasi' faults call cache := by
  cases hmodule : (App.module W faults call.wasm cache).result with
  | error err =>
      rw [App.runCgi, App.runCgi]
      simp only [hmodule]
  | ok module =>
      rcases hequiv module call.vars with ⟨err, h, h'⟩ | ⟨guest, guest', h, h', hguest⟩
      · rw [App.runCgi, App.runCgi]
        simp only [hmodule, h, h']
      · rw [runCgi_eq hmodule h, runCgi_eq hmodule h', hguest.behave_eq]

end Spec

/-- A guest that answers at once. -/
def atOnce : Wasi Bytes where
  pipes := .reference
  start _ _ := .ok (.write (Utf8.encode "Status: 204\n\n".toList)
    (.log (Utf8.encode "done\n".toList) .done))

/-- The same guest, with its output in two pieces and around its log. -/
def inPieces : Wasi Bytes where
  pipes := .reference
  start _ _ := .ok (.write (Utf8.encode "Status: ".toList) (.log (Utf8.encode "done\n".toList)
    (.write (Utf8.encode "204\n\n".toList) .done)))

/-- The two differ in their buffering only. -/
theorem atOnce_equiv : atOnce.Equiv inPieces :=
  fun _ _ => Or.inr ⟨_, _, rfl, rfl,
    .trans (.writeSplit (Utf8.encode "Status: ".toList) (Utf8.encode "204\n\n".toList) _)
      (.write (.writeLog _ _ _))⟩

/-- They cannot be told apart. -/
theorem runCgi_buffering_pieces :
    atOnce.Equiv inPieces ∧
      App.runCgi Http.reference Text.Unicode.ascii Compiler.reference atOnce .none
          ⟨emptyModule, [], []⟩ (fun _ => none) =
        App.runCgi Http.reference Text.Unicode.ascii Compiler.reference inPieces .none
          ⟨emptyModule, [], []⟩ (fun _ => none) :=
  ⟨atOnce_equiv, runCgi_buffering Http.reference Text.Unicode.ascii Compiler.reference atOnce_equiv
    .none ⟨emptyModule, [], []⟩ fun _ => none⟩

end Wgi
