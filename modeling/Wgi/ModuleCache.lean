import Wgi.Basic
import Wgi.Machine
import Wgi.Memo

/-!
# The Compiled Module Cache

`App::module` compiles the bytes of a request's script, and keeps the compiled module in a
directory under the hash of the bytes. The directory outlives the process and is shared, so
an entry can be deleted or damaged between two calls, and every operation on it can fail.

`wasmer` and `wasmer_cache` are outside of the repository; `Compiler` is what `App::module`
relies on: a hash and a compiler that are functions of the bytes, and a cache whose `load`
gives back what a `store` has left under a hash. An entry is `intact` when it is what a `store`
wrote, and only such an entry can be loaded.

## Main results

* `App.module_spec`: what one call returns and does to the cache, from a cache whose intact
  entries are right.
* `module_of_healthy`: a call during which nothing fails returns what the compiler does.
* `module_transparent`: from the empty cache, over every sequence of calls, deletions and
  damages, the cache is transparent.
-/

namespace Wgi

/-- A `DeserializeError`: `Io`, or one of the other variants with its text. -/
inductive DeserializeError where
  | io (err : IoError)
  | other (text : Str)
  deriving DecidableEq, Repr

/-- An entry of the cache directory: a file that `store` wrote, or one that `load` fails
on. -/
inductive Entry (Module : Type) where
  | intact (module : Module)
  | corrupt (err : DeserializeError)
  deriving DecidableEq, Repr

/-- A `FileSystemCache`: the entry under each hash. -/
abbrev FileSystemCache (Hash Module : Type) := Hash → Option (Entry Module)

/-- How a `store` fails: before the file is touched, or after it was truncated. -/
inductive StoreFault where
  | create (err : Str)
  | write (err : Str) (left : DeserializeError)
  deriving DecidableEq, Repr

/-- What goes wrong with the cache directory during one call. -/
structure Faults where
  /-- `FileSystemCache::new` fails. -/
  cacheDir : Option IoError
  /-- An intact entry cannot be read. -/
  load : Option DeserializeError
  /-- `store` fails. -/
  store : Option StoreFault
  deriving DecidableEq, Repr

/-- A call during which nothing goes wrong. -/
def Faults.none : Faults := ⟨.none, .none, .none⟩

/-- The hash and the compiler of `wasmer`, and the cache of `wasmer_cache`. -/
structure Compiler (Hash Module : Type) where
  /-- `Hash::generate`. -/
  generate : Bytes → Hash
  /-- `Module::from_binary`; the error is the text of the `CompileError`. -/
  fromBinary : Bytes → Except Str Module
  /-- `FileSystemCache::load`. -/
  load : FileSystemCache Hash Module → Faults → Hash → Except DeserializeError Module
  /-- `FileSystemCache::store`; the error is the text of the `SerializeError`. -/
  store : FileSystemCache Hash Module → Faults → Hash → Module →
    Except Str Unit × FileSystemCache Hash Module
  /-- A file that is not there is an `io::Error`. -/
  load_absent {cache : FileSystemCache Hash Module} {hash : Hash} (faults : Faults) :
    cache hash = .none → ∃ err, load cache faults hash = .error (.io err)
  load_corrupt {cache : FileSystemCache Hash Module} {hash : Hash} {err : DeserializeError}
    (faults : Faults) : cache hash = some (.corrupt err) → load cache faults hash = .error err
  /-- An intact entry gives its module back, unless it cannot be read. -/
  load_intact {cache : FileSystemCache Hash Module} {hash : Hash} {module : Module}
    (faults : Faults) : cache hash = some (.intact module) →
      load cache faults hash = .ok module ∨
        faults.load ≠ .none ∧ ∃ err, load cache faults hash = .error err
  /-- Other entries are left alone. -/
  store_other (cache : FileSystemCache Hash Module) (faults : Faults) {hash other : Hash}
    (module : Module) : other ≠ hash → (store cache faults hash module).2 other = cache other
  store_ok {cache : FileSystemCache Hash Module} {faults : Faults} {hash : Hash}
    {module : Module} : (store cache faults hash module).1 = .ok () →
      (store cache faults hash module).2 hash = some (.intact module)
  /-- A `store` that fails has not touched the file, or leaves one that `load` fails on. -/
  store_error {cache : FileSystemCache Hash Module} {faults : Faults} {hash : Hash}
    {module : Module} {err : Str} : (store cache faults hash module).1 = .error err →
      faults.store ≠ .none ∧ ((store cache faults hash module).2 hash = cache hash ∨
        ∃ left, (store cache faults hash module).2 hash = some (.corrupt left))

/-- The error of `App::module`. -/
inductive ModuleError where
  | cacheDir (err : IoError)
  | compile (err : Str)
  | store (err : Str)
  deriving DecidableEq, Repr

variable {Hash Module : Type}

/-- `get_cache`: opening the directory fails or gives the entries as they are. -/
def getCache (faults : Faults) (cache : FileSystemCache Hash Module) :
    Except ModuleError (FileSystemCache Hash Module) :=
  match faults.cacheDir with
  | some err => .error (.cacheDir err)
  | none => .ok cache

/-- What `App::module` prints before it compiles. -/
def corruptedMessage : DeserializeError → List Str
  | .io _ => []
  | .other text => ["cached module is corrupted: ".toList ++ text]

/-- What a call of `App::module` returns, prints, and leaves in the cache. -/
structure Outcome (Hash Module : Type) where
  result : Except ModuleError Module
  stderr : List Str
  cache : FileSystemCache Hash Module

/-- The part of `App::module` behind a failed `load`: compile the bytes, store the module. -/
def compileAndStore (W : Compiler Hash Module) (faults : Faults) (wasm : Bytes)
    (cache : FileSystemCache Hash Module) :
    Except ModuleError Module × FileSystemCache Hash Module :=
  match W.fromBinary wasm with
  | .error err => (.error (.compile err), cache)
  | .ok module =>
      match W.store cache faults (W.generate wasm) module with
      | (.error err, cache) => (.error (.store err), cache)
      | (.ok (), cache) => (.ok module, cache)

/-- `App::module`. -/
def App.module (W : Compiler Hash Module) (faults : Faults) (wasm : Bytes)
    (cache : FileSystemCache Hash Module) : Outcome Hash Module :=
  match getCache faults cache with
  | .error err => ⟨.error err, [], cache⟩
  | .ok cache =>
      match W.load cache faults (W.generate wasm) with
      | .ok module => ⟨.ok module, [], cache⟩
      | .error err =>
          let compiled := compileAndStore W faults wasm cache
          ⟨compiled.1, corruptedMessage err, compiled.2⟩

/-! ### What one call does -/

/-- The module an entry gives back, if it is intact. -/
def Entry.module? : Entry Module → Option Module
  | .intact module => some module
  | .corrupt _ => none

/-- The modules a cache can give back, under their hashes. -/
def intactModules (cache : FileSystemCache Hash Module) (hash : Hash) : Option Module :=
  (cache hash).bind Entry.module?

/-- The modules after one entry is replaced or removed. -/
theorem intactModules_update [DecidableEq Hash] (cache : FileSystemCache Hash Module) (hash : Hash)
    (entry : Option (Entry Module)) :
    intactModules (Function.update cache hash entry) =
      Function.update (intactModules cache) hash (entry.bind Entry.module?) := by
  funext h
  rcases eq_or_ne h hash with rfl | hne
  · rw [intactModules, Function.update_self, Function.update_self]
  · rw [intactModules, Function.update_of_ne hne, Function.update_of_ne hne, intactModules]

/-- A `load` returns only what an intact entry holds. -/
theorem Compiler.load_eq_ok {W : Compiler Hash Module} {cache : FileSystemCache Hash Module}
    {faults : Faults} {hash : Hash} {module : Module}
    (h : W.load cache faults hash = .ok module) : cache hash = some (.intact module) := by
  cases hentry : cache hash with
  | none =>
      obtain ⟨err, herr⟩ := W.load_absent faults hentry
      simp [herr] at h
  | some entry =>
      cases entry with
      | corrupt err => simp [W.load_corrupt faults hentry] at h
      | intact m =>
          rcases W.load_intact faults hentry with hm | ⟨-, err, herr⟩
          · rw [hm, Except.ok.injEq] at h
            rw [h]
          · simp [herr] at h

/-- **What a `store` does**: it replaces one entry, with the module if it succeeds. A `store`
that fails leaves the entry alone or damages it. -/
theorem Compiler.store_cases [DecidableEq Hash] (W : Compiler Hash Module)
    (cache : FileSystemCache Hash Module) (faults : Faults) (hash : Hash) (module : Module) :
    W.store cache faults hash module =
        (.ok (), Function.update cache hash (some (.intact module))) ∨
      faults.store ≠ none ∧ ∃ err, W.store cache faults hash module = (.error err, cache) ∨
        ∃ left, W.store cache faults hash module =
          (.error err, Function.update cache hash (some (.corrupt left))) := by
  -- the entries after the call, from the entry under the hash
  have hafter : ∀ entry, (W.store cache faults hash module).2 hash = entry →
      (W.store cache faults hash module).2 = Function.update cache hash entry := by
    intro entry hentry
    funext other
    rcases eq_or_ne other hash with rfl | hne
    · rw [Function.update_self, hentry]
    · rw [Function.update_of_ne hne, W.store_other cache faults module hne]
  cases hresult : (W.store cache faults hash module).1 with
  | ok _ => exact Or.inl (Prod.ext hresult (hafter _ (W.store_ok hresult)))
  | error err =>
      obtain ⟨hfault, hleft⟩ := W.store_error hresult
      refine Or.inr ⟨hfault, err, ?_⟩
      rcases hleft with hsame | ⟨left, hleft⟩
      · refine Or.inl (Prod.ext hresult ?_)
        rw [hafter _ hsame, Function.update_eq_self]
      · exact Or.inr ⟨left, Prod.ext hresult (hafter _ hleft)⟩

/-- The intact entries of a cache are right for the byte strings `used`: each holds what
the compiler returns for one of them, under its hash. -/
def Right (W : Compiler Hash Module) (used : Set Bytes) (cache : FileSystemCache Hash Module) :
    Prop :=
  Memo.Sound W.generate used (fun wasm module => W.fromBinary wasm = .ok module)
    (intactModules cache)

variable {W : Compiler Hash Module} {used : Set Bytes} {cache : FileSystemCache Hash Module}

theorem right_empty : Right W used fun _ => none :=
  Memo.sound_empty

/-- Deleting or damaging an entry keeps the others right. -/
theorem Right.spoil [DecidableEq Hash] (h : Right W used cache) (hash : Hash)
    {entry : Option (Entry Module)} (hentry : entry.bind Entry.module? = none) :
    Right W used (Function.update cache hash entry) := by
  rw [Right, intactModules_update, hentry]
  exact Memo.Sound.update_none h hash

/-- Storing what the compiler returned keeps the entries right. -/
theorem Right.keep [DecidableEq Hash] (h : Right W used cache) {wasm : Bytes} (hwasm : wasm ∈ used)
    {module : Module} (hmodule : W.fromBinary wasm = .ok module) :
    Right W used (Function.update cache (W.generate wasm) (some (.intact module))) := by
  rw [Right, intactModules_update]
  exact Memo.Sound.update_some h hwasm hmodule

/-- A `load` from a right cache returns what the compiler would. -/
theorem Right.load (h : Right W used cache) (hinj : Set.InjOn W.generate used) {wasm : Bytes}
    (hwasm : wasm ∈ used) {faults : Faults} {module : Module}
    (hload : W.load cache faults (W.generate wasm) = .ok module) :
    W.fromBinary wasm = .ok module := by
  refine Memo.Sound.hit h hinj hwasm ?_
  rw [intactModules, Compiler.load_eq_ok hload]
  rfl

/-- A `store` of what the compiler returned keeps a cache right, whether it succeeds or not. -/
theorem Right.store (h : Right W used cache) {wasm : Bytes} (hwasm : wasm ∈ used)
    {module : Module} (hmodule : W.fromBinary wasm = .ok module) (faults : Faults) :
    Right W used (W.store cache faults (W.generate wasm) module).2 := by
  classical
  rcases W.store_cases cache faults (W.generate wasm) module with
    hok | ⟨-, err, hsame | ⟨left, hleft⟩⟩
  · rw [hok]
    exact h.keep hwasm hmodule
  · rw [hsame]
    exact h
  · rw [hleft]
    exact h.spoil _ rfl

/-- What is promised of one call: a module that is returned is the one compiled from the
bytes and is intact in the cache afterwards, and bytes that do not compile give an error
and leave the cache as it was. -/
structure Transparent (W : Compiler Hash Module) (wasm : Bytes)
    (before : FileSystemCache Hash Module) (out : Outcome Hash Module) : Prop where
  compiled : ∀ module, out.result = .ok module → W.fromBinary wasm = .ok module
  stored : ∀ module, out.result = .ok module →
    out.cache (W.generate wasm) = some (.intact module)
  rejected : ∀ err, W.fromBinary wasm = .error err →
    (∃ e, out.result = .error e) ∧ out.cache = before

/-- What compiling and storing comes to for bytes that compile. -/
theorem compileAndStore_of_ok {wasm : Bytes} {module : Module}
    (hbin : W.fromBinary wasm = .ok module) (faults : Faults) :
    compileAndStore W faults wasm cache =
      (((W.store cache faults (W.generate wasm) module).1.mapError .store).map fun _ => module,
        (W.store cache faults (W.generate wasm) module).2) := by
  simp only [compileAndStore, hbin]
  rcases W.store cache faults (W.generate wasm) module with ⟨_ | _, after⟩ <;> rfl

/-- Compiling and storing is transparent whatever is printed before, and keeps the entries
right. -/
theorem compileAndStore_spec (h : Right W used cache) {wasm : Bytes} (hwasm : wasm ∈ used)
    (faults : Faults) (stderr : List Str) :
    Transparent W wasm cache ⟨(compileAndStore W faults wasm cache).1, stderr,
        (compileAndStore W faults wasm cache).2⟩ ∧
      Right W used (compileAndStore W faults wasm cache).2 := by
  cases hbin : W.fromBinary wasm with
  | error err =>
      rw [compileAndStore, hbin]
      exact ⟨⟨nofun, nofun, fun _ _ => ⟨⟨_, rfl⟩, rfl⟩⟩, h⟩
  | ok module =>
      rw [compileAndStore_of_ok hbin]
      -- a module that is returned was stored, and is the one that was compiled
      have hreturned : ∀ m, ((W.store cache faults (W.generate wasm) module).1.mapError
          ModuleError.store).map (fun _ => module) = .ok m →
          (W.store cache faults (W.generate wasm) module).1 = .ok () ∧ module = m := by
        intro m hm
        cases hresult : (W.store cache faults (W.generate wasm) module).1 with
        | error err => simp [hresult, Except.mapError, Except.map] at hm
        | ok _ =>
            rw [hresult] at hm
            exact ⟨rfl, Except.ok.inj hm⟩
      refine ⟨⟨fun m hm => ?_, fun m hm => ?_, fun err herr => ?_⟩, h.store hwasm hbin faults⟩
      · exact (hreturned m hm).2 ▸ hbin
      · obtain ⟨hok, rfl⟩ := hreturned m hm
        exact W.store_ok hok
      · rw [hbin] at herr
        exact nomatch herr

/-- **One call** from a right cache is transparent, and leaves the cache right. -/
theorem App.module_spec (hinj : Set.InjOn W.generate used) (h : Right W used cache)
    {wasm : Bytes} (hwasm : wasm ∈ used) (faults : Faults) :
    Transparent W wasm cache (App.module W faults wasm cache) ∧
      Right W used (App.module W faults wasm cache).cache := by
  rw [App.module, getCache]
  cases faults.cacheDir with
  | some err => exact ⟨⟨nofun, nofun, fun _ _ => ⟨⟨_, rfl⟩, rfl⟩⟩, h⟩
  | none =>
      cases hload : W.load cache faults (W.generate wasm) with
      | error err =>
          simp only [hload]
          exact compileAndStore_spec h hwasm faults (corruptedMessage err)
      | ok module =>
          have hbin := h.load hinj hwasm hload
          simp only [hload]
          refine ⟨⟨fun m hm => ?_, fun m hm => ?_, fun err herr => ?_⟩, h⟩
          · obtain rfl : module = m := Except.ok.inj hm
            exact hbin
          · obtain rfl : module = m := Except.ok.inj hm
            exact Compiler.load_eq_ok hload
          · rw [hbin] at herr
            exact nomatch herr

/-- A call during which nothing goes wrong returns what the compiler does, hit or miss. -/
theorem module_of_healthy (hinj : Set.InjOn W.generate used) (h : Right W used cache)
    {wasm : Bytes} (hwasm : wasm ∈ used) :
    (App.module W .none wasm cache).result = (W.fromBinary wasm).mapError .compile := by
  rw [App.module, getCache, Faults.none]
  cases hload : W.load cache ⟨none, none, none⟩ (W.generate wasm) with
  | ok module =>
      simp only [hload]
      rw [h.load hinj hwasm hload]
      rfl
  | error err =>
      simp only [hload]
      cases hbin : W.fromBinary wasm with
      | error text =>
          rw [compileAndStore, hbin]
          rfl
      | ok module =>
          rw [compileAndStore_of_ok hbin]
          cases hstore : (W.store cache ⟨none, none, none⟩ (W.generate wasm) module).1 with
          | ok _ => rfl
          | error err => exact absurd rfl (W.store_error hstore).1

/-! ### Runs -/

/-- What happens to the cache, one thing at a time: a call of `App::module`, or an entry
that is deleted or damaged from outside. -/
inductive Event (Hash : Type) where
  | module (wasm : Bytes) (faults : Faults)
  | delete (hash : Hash)
  | corrupt (hash : Hash) (err : DeserializeError)

/-- The byte strings of the calls in a list of events. -/
def usedBytes (events : List (Event Hash)) : Set Bytes :=
  {wasm | ∃ faults, Event.module wasm faults ∈ events}

theorem usedBytes_mono {events events' : List (Event Hash)} (h : events.Sublist events') :
    usedBytes events ⊆ usedBytes events' := by
  rintro wasm ⟨faults, hmem⟩
  exact ⟨faults, h.subset hmem⟩

variable [DecidableEq Hash]

/-- The cache as a machine. A call outputs its result. -/
def cacheMachine (W : Compiler Hash Module) :
    Machine (FileSystemCache Hash Module) (Event Hash) (Option (Except ModuleError Module))
      Empty where
  step
    | cache, .module wasm faults =>
        let out := App.module W faults wasm cache
        .ok (some out.result, out.cache)
    | cache, .delete hash => .ok (none, Function.update cache hash none)
    | cache, .corrupt hash err =>
        .ok (none, Function.update cache hash (some (.corrupt err)))

/-- The output of an event is right: a call outputs no other module than the one compiled
from its bytes. -/
def Event.RightOutput (W : Compiler Hash Module) :
    Event Hash → Option (Except ModuleError Module) → Prop
  | .module wasm _, out => ∀ module, out = some (.ok module) → W.fromBinary wasm = .ok module
  | .delete _, out => out = none
  | .corrupt _ _, out => out = none

/-- Every event whose bytes are among `used` is answered rightly, and leaves a right cache. -/
theorem step_right (hinj : Set.InjOn W.generate used) (h : Right W used cache)
    (event : Event Hash) (hused : usedBytes [event] ⊆ used) :
    ∃ out cache', (cacheMachine W).step cache event = .ok (out, cache') ∧
      event.RightOutput W out ∧ Right W used cache' := by
  cases event with
  | module wasm faults =>
      obtain ⟨htransparent, hright⟩ :=
        App.module_spec hinj h (hused ⟨faults, List.mem_cons_self⟩) faults
      exact ⟨_, _, rfl, fun m hm => htransparent.compiled m (Option.some.inj hm), hright⟩
  | delete hash => exact ⟨_, _, rfl, rfl, h.spoil hash rfl⟩
  | corrupt hash err => exact ⟨_, _, rfl, rfl, h.spoil hash rfl⟩

/-- Every run answers all its events rightly, and leaves a right cache. -/
theorem run_right {W : Compiler Hash Module} {used : Set Bytes}
    (hinj : Set.InjOn W.generate used) {events : List (Event Hash)}
    (hused : usedBytes events ⊆ used) :
    ∃ outs cache, (cacheMachine W).run (fun _ => none) events = .ok (outs, cache) ∧
      List.Forall₂ (Event.RightOutput W) events outs ∧ Right W used cache := by
  -- the invariant: the calls still to come are among `used`, and the cache is right for it
  have hstep : ∀ event events cache, usedBytes (event :: events) ⊆ used ∧ Right W used cache →
      ∃ out cache', (cacheMachine W).step cache event = .ok (out, cache') ∧
        event.RightOutput W out ∧ usedBytes events ⊆ used ∧ Right W used cache' := by
    rintro event events cache ⟨hsub, hright⟩
    obtain ⟨out, cache', hrun, hout, hright'⟩ := step_right hinj hright event
      (subset_trans (usedBytes_mono (List.singleton_sublist.mpr List.mem_cons_self)) hsub)
    exact ⟨out, cache', hrun, hout,
      subset_trans (usedBytes_mono (List.sublist_cons_self event events)) hsub, hright'⟩
  obtain ⟨outs, cache, hrun, houts, -, hcache⟩ := (cacheMachine W).run_total
    (P := fun events cache => usedBytes events ⊆ used ∧ Right W used cache)
    hstep ⟨hused, right_empty⟩
  exact ⟨outs, cache, hrun, houts, hcache⟩

/-- **The cache is transparent**: from the empty cache, over every sequence of calls,
deletions and damages whose byte strings do not collide, every call returns only the module
compiled from its own bytes and leaves it intact under their hash, in the place of whatever
was there, and a call whose bytes do not compile fails and leaves the cache unchanged. A call
during which nothing goes wrong returns what the compiler does. -/
theorem module_transparent (W : Compiler Hash Module) (before : List (Event Hash)) (wasm : Bytes)
    (faults : Faults)
    (hinj : Set.InjOn W.generate (usedBytes (before ++ [.module wasm faults]))) :
    ∃ outs cache, (cacheMachine W).run (fun _ => none) before = .ok (outs, cache) ∧
      List.Forall₂ (Event.RightOutput W) before outs ∧
      Transparent W wasm cache (App.module W faults wasm cache) ∧
      (faults = .none →
        (App.module W faults wasm cache).result = (W.fromBinary wasm).mapError .compile) := by
  have hwasm : wasm ∈ usedBytes (before ++ [.module wasm faults]) :=
    ⟨faults, List.mem_append_right _ List.mem_cons_self⟩
  obtain ⟨outs, cache, hrun, houts, hright⟩ :=
    run_right hinj (usedBytes_mono (List.sublist_append_left before _))
  refine ⟨outs, cache, hrun, houts, (App.module_spec hinj hright hwasm faults).1, ?_⟩
  rintro rfl
  exact module_of_healthy hinj hright hwasm

/-! ### A cache in one directory -/

/-- The `io::Error` for a file that does not exist. -/
def notFound : IoError := ⟨.os 2, "No such file or directory (os error 2)"⟩

/-- A `load` of the entry under a hash. -/
def FileSystemCache.load (cache : FileSystemCache Hash Module) (faults : Faults) (hash : Hash) :
    Except DeserializeError Module :=
  match cache hash with
  | none => .error (.io notFound)
  | some (.corrupt err) => .error err
  | some (.intact module) =>
      match faults.load with
      | some err => .error err
      | none => .ok module

/-- A `store` that truncates the file before it writes it. -/
def FileSystemCache.store (cache : FileSystemCache Hash Module) (faults : Faults) (hash : Hash)
    (module : Module) : Except Str Unit × FileSystemCache Hash Module :=
  match faults.store with
  | none => (.ok (), Function.update cache hash (some (.intact module)))
  | some (.create err) => (.error err, cache)
  | some (.write err left) => (.error err, Function.update cache hash (some (.corrupt left)))

/-- A compiler that looks at the magic number and the version only, and a hash that keeps
everything. -/
def Compiler.reference : Compiler Bytes Bytes where
  generate := id
  fromBinary wasm :=
    if wasm.take 8 = [0, 97, 115, 109, 1, 0, 0, 0] then .ok wasm
    else .error "Validation error: Bad magic number (at offset 0)".toList
  load := FileSystemCache.load
  store := FileSystemCache.store
  load_absent faults h := ⟨notFound, by rw [FileSystemCache.load, h]⟩
  load_corrupt faults h := by rw [FileSystemCache.load, h]
  load_intact faults h := by
    rw [FileSystemCache.load, h]
    cases faults.load with
    | none => exact Or.inl rfl
    | some err => exact Or.inr ⟨Option.some_ne_none err, err, rfl⟩
  store_other cache faults hash other module hne := by
    rw [FileSystemCache.store]
    rcases faults.store with - | err | ⟨err, left⟩
    · exact Function.update_of_ne hne ..
    · rfl
    · exact Function.update_of_ne hne ..
  store_ok {cache faults hash module} h := by
    rw [FileSystemCache.store] at h ⊢
    rcases hfault : faults.store with - | err | ⟨err, left⟩
    · exact Function.update_self ..
    · simp [hfault] at h
    · simp [hfault] at h
  store_error {cache faults hash module err} h := by
    rw [FileSystemCache.store] at h ⊢
    rcases hfault : faults.store with - | err | ⟨err, left⟩
    · simp [hfault] at h
    · exact ⟨Option.some_ne_none _, Or.inl rfl⟩
    · exact ⟨Option.some_ne_none _, Or.inr ⟨left, Function.update_self ..⟩⟩

/-- The WebAssembly module without sections. -/
def emptyModule : Bytes := [0, 97, 115, 109, 1, 0, 0, 0]

/-- A damaged entry and bytes that do not compile: the call after them is transparent. -/
theorem module_transparent_damaged :
    Set.InjOn Compiler.reference.generate (usedBytes
        ([.module emptyModule .none, .corrupt emptyModule (.other "truncated".toList),
          .module [7] .none] ++ [.module emptyModule .none])) ∧
      ∃ outs cache, (cacheMachine Compiler.reference).run (fun _ => none)
          [.module emptyModule .none, .corrupt emptyModule (.other "truncated".toList),
            .module [7] .none] = .ok (outs, cache) ∧
        List.Forall₂ (Event.RightOutput Compiler.reference)
          [.module emptyModule .none, .corrupt emptyModule (.other "truncated".toList),
            .module [7] .none] outs ∧
        Transparent Compiler.reference emptyModule cache
          (App.module Compiler.reference .none emptyModule cache) ∧
        (Faults.none = .none → (App.module Compiler.reference .none emptyModule cache).result =
          (Compiler.reference.fromBinary emptyModule).mapError .compile) :=
  ⟨Function.injective_id.injOn,
    module_transparent Compiler.reference _ emptyModule .none Function.injective_id.injOn⟩

end Wgi
