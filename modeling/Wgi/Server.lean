import Wgi.LambdaResponse
import Wgi.RunCgi
import Wgi.RunLambda

/-!
# The Server

`main` chooses one of the two handlers for all paths below the root and serves requests with it.
The requests share nothing but the cache directory: every one of them makes its own streams,
forwarders and environment. The directory can fail, and can be changed from outside, at any
time. A handler that panics closes the connection, and the server goes on.

`Backend` is all that the server works with and that is not in the repository.

## Main results

* `serve_alone`: with a right cache a request is served as it would be served alone, or fails
  with an error of the cache directory.
* `alone_cgi`, `alone_lambda`: served alone, a request gets what the handlers compute.
* `history_independent`, `server_refines`: both, over every sequence of requests, deletions and
  damages.
-/

namespace Wgi

/-! ### `main` -/

/-- `Mode`. -/
inductive Mode where
  | cgi
  | lambda
  deriving DecidableEq, Repr

/-- The mode that `main` chooses, from what `env::var("WGI_MODE")` gives: nothing, if the
variable is not there or not Unicode. -/
def Mode.fromVar : Option Str → Mode
  | some var => if var = "lambda".toList then .lambda else .cgi
  | none => .cgi

/-- The route `/*path`, which takes every path with something behind the first slash. -/
def routed : Str → Bool
  | '/' :: _ :: _ => true
  | _ => false

/-- What the server works with. -/
structure Backend (http : Http) (Hash Module : Type) where
  unicode : Text.Unicode
  base64 : Base64.Codec
  form : Urlencoded
  hyper : Hyper
  serde : SerdeJson
  wasmer : Wasmer
  compiler : Compiler Hash Module
  cgi : Wasi Module
  lambda : LambdaWasi Module

/-- What arrives at the server: a request, with the files and the working directory as they are
then, and what goes wrong with the cache directory. -/
structure Arrival (http : Http) where
  request : Request http
  fs : FileSystem
  cwd : CurrentDir
  faults : Faults

/-- What is sent back. -/
inductive Reply (http : Http) where
  /-- The router has no handler for the path. -/
  | notFound
  | cgi (response : CgiResponse http)
  | lambda (response : Response http)
  /-- The handler panicked. -/
  | closed (panic : Panic)

/-- What is sent back for what `App::run_cgi` returns. -/
def Reply.ofRun {http : Http} : Except Panic (Except CgiError (CgiResponse http)) → Reply http
  | .error panic => .closed panic
  | .ok (.error _) => .closed (.unwrap .guestRun)
  | .ok (.ok response) => .cgi response

/-- How a request was served: what is sent back, and the messages that were logged from the
standard output and the standard error of its guest. -/
structure Served (http : Http) where
  reply : Reply http
  stdout : List Bytes
  stderr : List Bytes

section Serve

variable {http : Http} {Hash Module : Type} (B : Backend http Hash Module)

/-- `cgi::handler`, with the run of the module. -/
def serveCgi (a : Arrival http) (cache : FileSystemCache Hash Module) :
    Served http × FileSystemCache Hash Module :=
  match Cgi.prepare http a.fs a.cwd a.request with
  | .error panic => (⟨.closed panic, [], []⟩, cache)
  | .ok call =>
      let run := App.runCgi http B.unicode B.compiler B.cgi a.faults call cache
      (⟨.ofRun run.result, [], run.log⟩, run.cache)

/-- `lambda::handler`, with the run of the module and the conversion of the response. -/
def serveLambda (a : Arrival http) (cache : FileSystemCache Hash Module) :
    Served http × FileSystemCache Hash Module :=
  match Lambda.prepare http B.base64 B.form B.hyper a.fs a.request with
  | .error panic => (⟨.closed panic, [], []⟩, cache)
  | .ok call =>
      let run := App.runLamba B.serde B.wasmer B.compiler B.lambda a.faults call.wasm call.event
        cache
      let reply := match run.result with
        | .error panic => .closed panic
        | .ok (.error _) => .closed (.unwrap .guestRun)
        | .ok (.ok none) => .closed (.unwrap .noResponse)
        | .ok (.ok (some response)) =>
            match response.intoResponse http B.base64 with
            | .error panic => .closed panic
            | .ok response => .lambda response
      (⟨reply, run.stdout, run.stderr⟩, run.cache)

/-- The router of `main`. -/
def serve (mode : Mode) (a : Arrival http) (cache : FileSystemCache Hash Module) :
    Served http × FileSystemCache Hash Module :=
  if routed a.request.uri.path then
    match mode with
    | .cgi => serveCgi B a cache
    | .lambda => serveLambda B a cache
  else (⟨.notFound, [], []⟩, cache)

/-- What happens to the server. -/
inductive Happening (http : Http) (Hash : Type) where
  | request (a : Arrival http)
  | delete (hash : Hash)
  | corrupt (hash : Hash) (err : DeserializeError)

/-- The server as a machine. A request outputs how it was served. -/
def webServer [DecidableEq Hash] (mode : Mode) :
    Machine (FileSystemCache Hash Module) (Happening http Hash) (Option (Served http)) Empty where
  step
    | cache, .request a => .ok (some (serve B mode a cache).1, (serve B mode a cache).2)
    | cache, .delete hash => .ok (none, Function.update cache hash none)
    | cache, .corrupt hash err => .ok (none, Function.update cache hash (some (.corrupt err)))

/-- `main`, from what `env::var("WGI_MODE")` gives. -/
def main [DecidableEq Hash] (var : Option Str) :
    Machine (FileSystemCache Hash Module) (Happening http Hash) (Option (Served http)) Empty :=
  webServer B (.fromVar var)

/-- How a request is served by a server that has never served another one, while nothing goes
wrong with the cache directory. -/
def servedAlone (mode : Mode) (a : Arrival http) : Served http :=
  (serve B mode { a with faults := .none } fun _ => none).1

end Serve

/-! ### One request -/

section One

variable {http : Http} {Hash Module : Type} {B : Backend http Hash Module}
variable {used : Set Bytes} {cache : FileSystemCache Hash Module}

/-- The bytes that a request runs are among those `used`. -/
def Arrival.Uses (used : Set Bytes) (a : Arrival http) : Prop :=
  (scanPath a.fs a.request.uri.path).wasm ∈ used

/-- How a request fails when the cache directory does. -/
def Served.failed : Served http :=
  ⟨.closed (.unwrap .guestRun), [], []⟩

/-- A request is served as if it were alone, or the cache directory has failed. -/
def ServedWell (B : Backend http Hash Module) (mode : Mode) (a : Arrival http)
    (served : Served http) : Prop :=
  served = servedAlone B mode a ∨ (a.faults ≠ .none ∧ served = Served.failed)

/-- The result of `App::module` on a server that has never served a request. -/
theorem module_alone (W : Compiler Hash Module) (wasm : Bytes) :
    (App.module W .none wasm fun _ => none).result = (W.fromBinary wasm).mapError .compile :=
  module_of_healthy (Set.injOn_singleton W.generate wasm) right_empty (Set.mem_singleton wasm)

/-- The result of `App::module` with a right cache is that of a server that has never served a
request, unless the cache directory fails. -/
theorem module_of_right {W : Compiler Hash Module} (hinj : Set.InjOn W.generate used)
    (hright : Right W used cache) {wasm : Bytes} (hwasm : wasm ∈ used) (faults : Faults) :
    (App.module W faults wasm cache).result = (App.module W .none wasm fun _ => none).result ∨
      (faults ≠ .none ∧ ∃ err, (App.module W faults wasm cache).result = .error err) := by
  rw [module_alone]
  by_cases hfaults : faults = .none
  · subst hfaults
    exact Or.inl (module_of_healthy hinj hright hwasm)
  · cases hmodule : (App.module W faults wasm cache).result with
    | error err => exact Or.inr ⟨hfaults, err, rfl⟩
    | ok module =>
        refine Or.inl ?_
        rw [(App.module_spec hinj hright hwasm faults).1.compiled module hmodule]
        rfl

/-- `cgi::handler` with a right cache. -/
theorem serveCgi_alone (hinj : Set.InjOn B.compiler.generate used)
    (hright : Right B.compiler used cache) {a : Arrival http} (huses : a.Uses used) :
    ((serveCgi B a cache).1 = (serveCgi B { a with faults := .none } fun _ => none).1 ∨
      (a.faults ≠ .none ∧ (serveCgi B a cache).1 = Served.failed)) ∧
      Right B.compiler used (serveCgi B a cache).2 := by
  rw [serveCgi, serveCgi]
  cases hcall : Cgi.prepare http a.fs a.cwd a.request with
  | error panic => exact ⟨Or.inl rfl, hright⟩
  | ok call =>
      have hwasm : call.wasm ∈ used := by
        rw [Cgi.wasm_of_prepare hcall]
        exact huses
      refine ⟨?_, ?_⟩
      · rcases module_of_right hinj hright hwasm a.faults with h | ⟨hfaults, err, h⟩
        · obtain ⟨hresult, hlog⟩ := runCgi_congr http B.unicode B.compiler B.cgi h
          refine Or.inl ?_
          simp only [hresult, hlog]
        · refine Or.inr ⟨hfaults, ?_⟩
          simp only [App.runCgi, h, Served.failed, Reply.ofRun]
      · simp only [runCgi_cache]
        exact (App.module_spec hinj hright hwasm a.faults).2

/-- `lambda::handler` with a right cache. -/
theorem serveLambda_alone (hinj : Set.InjOn B.compiler.generate used)
    (hright : Right B.compiler used cache) {a : Arrival http} (huses : a.Uses used) :
    ((serveLambda B a cache).1 = (serveLambda B { a with faults := .none } fun _ => none).1 ∨
      (a.faults ≠ .none ∧ (serveLambda B a cache).1 = Served.failed)) ∧
      Right B.compiler used (serveLambda B a cache).2 := by
  rw [serveLambda, serveLambda]
  cases hcall : Lambda.prepare http B.base64 B.form B.hyper a.fs a.request with
  | error panic => exact ⟨Or.inl rfl, hright⟩
  | ok call =>
      have hwasm : call.wasm ∈ used := by
        rw [(Lambda.wasm_of_prepare hcall).1]
        exact huses
      refine ⟨?_, ?_⟩
      · rcases module_of_right hinj hright hwasm a.faults with h | ⟨hfaults, err, h⟩
        · obtain ⟨hresult, hstdout, hstderr⟩ :=
            runLamba_congr B.serde B.wasmer B.compiler B.lambda h call.event
          refine Or.inl ?_
          simp only [hresult, hstdout, hstderr]
        · refine Or.inr ⟨hfaults, ?_⟩
          simp only [App.runLamba, h, Served.failed]
      · simp only [runLamba_cache]
        exact (App.module_spec hinj hright hwasm a.faults).2

/-- **One request** with a right cache is served as if it were alone, or the cache directory has
failed, and the cache stays right. -/
theorem serve_alone (hinj : Set.InjOn B.compiler.generate used)
    (hright : Right B.compiler used cache) (mode : Mode) {a : Arrival http} (huses : a.Uses used) :
    ServedWell B mode a (serve B mode a cache).1 ∧
      Right B.compiler used (serve B mode a cache).2 := by
  simp only [ServedWell, servedAlone, serve]
  split_ifs with hrouted
  · cases mode with
    | cgi => exact serveCgi_alone hinj hright huses
    | lambda => exact serveLambda_alone hinj hright huses
  · exact ⟨Or.inl rfl, hright⟩

end One

/-! ### A server of its own -/

section Alone

variable {http : Http} {Hash Module : Type} {B : Backend http Hash Module}

/-- What is sent back for what `cgi::handler` returns. -/
def Reply.ofCgi : Except Panic (CgiResponse http) → Reply http
  | .ok response => .cgi response
  | .error panic => .closed panic

/-- What is sent back for what `lambda::handler` returns. -/
def Reply.ofLambda (base64 : Base64.Codec) (result : Except Panic LambdaResponse) : Reply http :=
  match result.bind fun response => response.intoResponse http base64 with
  | .ok response => .lambda response
  | .error panic => .closed panic

/-- **CGI requests** get what `cgi::handler` computes from the module that the script compiles
to. -/
theorem alone_cgi (a : Arrival http) (hrouted : routed a.request.uri.path = true) :
    (servedAlone B .cgi a).reply = .ofCgi (Cgi.handler http B.unicode
      (Cgi.compiled B.compiler B.cgi.execute) a.fs a.cwd a.request) := by
  rw [servedAlone, serve, if_pos hrouted, serveCgi, Cgi.handler]
  cases Cgi.prepare http a.fs a.cwd a.request with
  | error panic => rfl
  | ok call =>
      rw [Fallible.ok_bind]
      simp only
      rcases runCgi_of_right http B.unicode B.cgi
        (Set.injOn_singleton B.compiler.generate call.wasm) right_empty
        (Set.mem_singleton call.wasm) .none with ⟨err, herr, hresult⟩ | hresult
      · rw [module_alone] at herr
        cases hbinary : B.compiler.fromBinary call.wasm with
        | ok module =>
            rw [hbinary] at herr
            exact absurd herr (by simp [Except.mapError])
        | error text =>
            rw [Cgi.runCgi, Cgi.compiled, hbinary, hresult]
            rfl
      · rw [← hresult]
        cases (App.runCgi http B.unicode B.compiler B.cgi .none call fun _ => none).result with
        | error panic => rfl
        | ok result => cases result <;> rfl

/-- **Lambda requests** get what `lambda::handler` computes from the steps of the module that the
script compiles to. -/
theorem alone_lambda (a : Arrival http) (hrouted : routed a.request.uri.path = true) :
    (servedAlone B .lambda a).reply = .ofLambda B.base64 (Lambda.handler http B.base64 B.form
      B.hyper B.serde B.wasmer (Lambda.compiled B.serde B.wasmer B.compiler B.lambda) a.fs
      a.request) := by
  rw [servedAlone, serve, if_pos hrouted, serveLambda, Lambda.handler]
  cases Lambda.prepare http B.base64 B.form B.hyper a.fs a.request with
  | error panic => rfl
  | ok call =>
      rw [Fallible.ok_bind]
      simp only
      rcases runLamba_of_right B.serde B.wasmer B.lambda
        (Set.injOn_singleton B.compiler.generate call.wasm) right_empty
        (Set.mem_singleton call.wasm) .none call.event with ⟨err, herr, hresult⟩ | hresult
      · rw [module_alone] at herr
        cases hbinary : B.compiler.fromBinary call.wasm with
        | ok module =>
            rw [hbinary] at herr
            exact absurd herr (by simp [Except.mapError])
        | error text =>
            rw [Lambda.compiled, hbinary, hresult]
            rfl
      · generalize (App.runLamba B.serde B.wasmer B.compiler B.lambda .none call.wasm call.event
          fun _ => none).result = result at hresult ⊢
        cases hcompiled : Lambda.compiled B.serde B.wasmer B.compiler B.lambda call.wasm
          call.event with
        | none =>
            rw [hcompiled] at hresult
            rcases result with panic | err | response
            · cases hresult
            · rfl
            · cases hresult
        | some started =>
            obtain ⟨memory, steps⟩ := started
            rw [hcompiled] at hresult
            simp only [unwrapAt_some, Fallible.ok_bind]
            simp only at hresult
            generalize runLamba B.serde B.wasmer call.event memory steps = ran at hresult ⊢
            rcases result with panic | err | response
            · rcases ran with panic' | response'
              · cases hresult
                rfl
              · cases hresult
            · rcases ran with panic' | response'
              · cases hresult
              · cases hresult
            · rcases ran with panic' | response'
              · cases hresult
              · cases hresult
                cases response with
                | none => rfl
                | some response =>
                    rw [Fallible.ok_bind, unwrapAt_some, Reply.ofLambda]
                    simp only [Except.bind]
                    cases response.intoResponse http B.base64 with
                    | error panic => rfl
                    | ok response => rfl

/-- What a request is owed: behind the router, what the handler of the mode returns for what the
bytes of the script do when they are compiled for the request. There are no pipes here, no
forwarders and no cache. -/
def Backend.answer (B : Backend http Hash Module) (mode : Mode) (a : Arrival http) : Reply http :=
  if routed a.request.uri.path then
    match mode with
    | .cgi => .ofCgi (Cgi.handler http B.unicode (Cgi.compiled B.compiler B.cgi.execute) a.fs
        a.cwd a.request)
    | .lambda => .ofLambda B.base64 (Lambda.handler http B.base64 B.form B.hyper B.serde B.wasmer
        (Lambda.compiled B.serde B.wasmer B.compiler B.lambda) a.fs a.request)
  else .notFound

/-- On a server of its own, with streams, forwarders and a cache, a request gets the reply that
the handlers compute without them. -/
theorem servedAlone_reply (B : Backend http Hash Module) (mode : Mode) (a : Arrival http) :
    (servedAlone B mode a).reply = B.answer mode a := by
  simp only [Backend.answer]
  split_ifs with hrouted
  · cases mode with
    | cgi => exact alone_cgi a hrouted
    | lambda => exact alone_lambda a hrouted
  · simp only [servedAlone, serve, if_neg hrouted]

end Alone

/-! ### Whole histories -/

section History

variable {http : Http} {Hash Module : Type} [DecidableEq Hash] {B : Backend http Hash Module}

/-- The requests of a history. -/
def arrived (happenings : List (Happening http Hash)) : List (Arrival http) :=
  happenings.filterMap fun
    | .request a => some a
    | _ => none

/-- The byte strings that the requests of a history run. -/
def servedBytes (happenings : List (Happening http Hash)) : Set Bytes :=
  {wasm | ∃ a ∈ arrived happenings, (scanPath a.fs a.request.uri.path).wasm = wasm}

/-- What is owed to a happening: a request is served well, and the others have no output. -/
def Happening.Owed (B : Backend http Hash Module) (mode : Mode) :
    Happening http Hash → Option (Served http) → Prop
  | .request a, out => ∃ served, out = some served ∧ ServedWell B mode a served
  | .delete _, out => out = none
  | .corrupt _ _, out => out = none

/-- **Whole histories**: from a right cache, every happening gets what it is owed, and the cache
is right again. -/
theorem webServer_run {used : Set Bytes} (hinj : Set.InjOn B.compiler.generate used) (mode : Mode)
    {cache : FileSystemCache Hash Module} (hright : Right B.compiler used cache)
    {happenings : List (Happening http Hash)} (huses : ∀ a ∈ arrived happenings, a.Uses used) :
    ∃ outs cache', (webServer B mode).run cache happenings = .ok (outs, cache') ∧
      List.Forall₂ (Happening.Owed B mode) happenings outs ∧ Right B.compiler used cache' := by
  -- the invariant: the requests still to come run known bytes, and the cache is right for these
  have hstep : ∀ happening rest cache,
      (∀ a ∈ arrived (happening :: rest), a.Uses used) ∧ Right B.compiler used cache →
      ∃ out cache', (webServer B mode).step cache happening = .ok (out, cache') ∧
        happening.Owed B mode out ∧ (∀ a ∈ arrived rest, a.Uses used) ∧
        Right B.compiler used cache' := by
    rintro happening rest cache ⟨huses, hright⟩
    cases happening with
    | request a =>
        obtain ⟨ha, hrest⟩ := List.forall_mem_cons.mp huses
        obtain ⟨hwell, hright'⟩ := serve_alone hinj hright mode ha
        exact ⟨_, _, rfl, ⟨_, rfl, hwell⟩, hrest, hright'⟩
    | delete hash => exact ⟨_, _, rfl, rfl, huses, hright.spoil hash rfl⟩
    | corrupt hash err => exact ⟨_, _, rfl, rfl, huses, hright.spoil hash rfl⟩
  obtain ⟨outs, cache', hrun, houts, -, hright'⟩ := (webServer B mode).run_total
    (P := fun rest cache => (∀ a ∈ arrived rest, a.Uses used) ∧ Right B.compiler used cache)
    hstep ⟨huses, hright⟩
  exact ⟨outs, cache', hrun, houts, hright'⟩

/-- **History does not show**: over every sequence of requests, in either mode, with any files,
and with entries of the cache directory deleted and damaged in between, every request gets the
reply, and leaves the log, that it would on a server of its own, unless the cache directory
fails during the request; then the connection is closed, and nothing is logged. -/
theorem history_independent (B : Backend http Hash Module) (mode : Mode)
    (happenings : List (Happening http Hash))
    (hinj : Set.InjOn B.compiler.generate (servedBytes happenings)) :
    ∃ outs cache, (webServer B mode).run (fun _ => none) happenings = .ok (outs, cache) ∧
      List.Forall₂ (Happening.Owed B mode) happenings outs := by
  obtain ⟨outs, cache, hrun, houts, -⟩ :=
    webServer_run hinj mode right_empty fun a ha => ⟨a, ha, rfl⟩
  exact ⟨outs, cache, hrun, houts⟩

/-- The reply to a request is the one it is owed, or the cache directory has failed during the
request and the connection is closed; the others have no reply. -/
def Happening.Answered (B : Backend http Hash Module) (mode : Mode) :
    Happening http Hash → Option (Served http) → Prop
  | .request a, out => ∃ served, out = some served ∧ (served.reply = B.answer mode a ∨
      a.faults ≠ .none ∧ served.reply = .closed (.unwrap .guestRun))
  | .delete _, out => out = none
  | .corrupt _ _, out => out = none

/-- **The server refines its handlers**: in the mode that the variable asks for, from any cache
directory whose intact entries are right, over every sequence of requests, deletions and
damages, every request gets the reply that the handlers compute from its own script and nothing
else, unless the cache directory fails during the request. -/
theorem server_refines (B : Backend http Hash Module) (var : Option Str) {used : Set Bytes}
    (hinj : Set.InjOn B.compiler.generate used) {cache : FileSystemCache Hash Module}
    (hright : Right B.compiler used cache) (happenings : List (Happening http Hash))
    (huses : ∀ a ∈ arrived happenings, a.Uses used) :
    ∃ outs cache', (main B var).run cache happenings = .ok (outs, cache') ∧
      List.Forall₂ (Happening.Answered B (.fromVar var)) happenings outs := by
  obtain ⟨outs, cache', hrun, houts, -⟩ := webServer_run hinj (.fromVar var) hright huses
  refine ⟨outs, cache', hrun, houts.imp fun happening out howed => ?_⟩
  cases happening with
  | request a =>
      obtain ⟨served, hout, hserved | ⟨hfaults, hfailed⟩⟩ := howed
      · exact ⟨served, hout, Or.inl (hserved ▸ servedAlone_reply B (.fromVar var) a)⟩
      · exact ⟨served, hout, Or.inr ⟨hfaults, hfailed ▸ rfl⟩⟩
  | delete hash => exact howed
  | corrupt hash err => exact howed

end History

/-- A server whose modules all run one CGI program, or one lambda program. -/
def Backend.running (main : Vars → Process UInt8) (lambda : Bytes × LambdaGuest) :
    Backend Http.reference Bytes Bytes where
  unicode := Text.Unicode.ascii
  base64 := Base64.standard
  form := .reference
  hyper := Hyper.reference
  serde := SerdeJson.sample
  wasmer := Wasmer.reference
  compiler := Compiler.reference
  cgi := ⟨.reference, fun _ vars => .ok (main vars)⟩
  lambda _ := .ok lambda

/-- Files in which only `a` can be read, and is a module. -/
def moduleFs : FileSystem := fun path =>
  if path = "a".toList then .ok emptyModule
  else .openErr ⟨.os 2, "No such file or directory"⟩

/-- A request for a path under `a`, while nothing goes wrong. -/
def arrivalAt (path : Str) : Arrival Http.reference :=
  ⟨plainRequest path, moduleFs, .path "/srv".toList, .none⟩

/-- Two requests for one module, with its entry damaged in between, and one that is not routed. -/
def threeRequests : List (Happening Http.reference Bytes) :=
  [.request (arrivalAt "/a/b".toList), .corrupt emptyModule (.other "truncated".toList),
    .request (arrivalAt "/a".toList), .request (arrivalAt "/".toList)]

/-- All three are served well, by a guest that logs what it reads. -/
theorem history_independent_three :
    Set.InjOn Compiler.reference.generate (servedBytes threeRequests) ∧
      ∃ outs cache, (webServer (.running (fun _ => .read 8 fun buf => .log buf .done) ([], .done))
          .cgi).run (fun _ => none) threeRequests = .ok (outs, cache) ∧
        List.Forall₂ (Happening.Owed (.running (fun _ => .read 8 fun buf => .log buf .done)
          ([], .done)) .cgi) threeRequests outs :=
  ⟨Function.injective_id.injOn, history_independent _ .cgi _ Function.injective_id.injOn⟩

/-- A directory that has the module of the requests. -/
def warmCache : FileSystemCache Bytes Bytes :=
  Function.update (fun _ => none) emptyModule (some (.intact emptyModule))

/-- From a directory that has their module, the same requests get what the handlers compute. -/
theorem server_refines_three :
    (Set.InjOn Compiler.reference.generate Set.univ ∧
      Right Compiler.reference Set.univ warmCache) ∧
      ∃ outs cache', (main (.running (fun _ => .read 8 fun buf => .log buf .done) ([], .done))
          none).run warmCache threeRequests = .ok (outs, cache') ∧
        List.Forall₂ (Happening.Answered (.running (fun _ => .read 8 fun buf => .log buf .done)
          ([], .done)) .cgi) threeRequests outs := by
  have hinj : Set.InjOn Compiler.reference.generate Set.univ := Function.injective_id.injOn
  have hright : Right Compiler.reference Set.univ warmCache :=
    Right.keep right_empty (Set.mem_univ emptyModule) rfl
  exact ⟨⟨hinj, hright⟩, server_refines _ none hinj hright _ fun _ _ => Set.mem_univ _⟩

end Wgi
