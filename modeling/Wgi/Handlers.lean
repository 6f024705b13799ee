import Wgi.CgiHandler
import Wgi.LambdaHandler

/-!
# The Two Handlers Compared

Both handlers repeat the same search and run a module, but they differ in three ways: the
lambda handler stops when no script was found and the CGI handler does not, the lambda
handler reads the whole body and the CGI handler its first frame, and both of them run
whatever the search left in the buffer.

## Main results

* `moduleBytes_iff`: the module that is run is the script's file exactly when no candidate
  tried before it left a byte behind.
* `input_iff`: the CGI guest receives the whole body exactly when all chunks after the
  first are empty.
* `runs_iff`: a module is run without a script exactly when the CGI handler gets that far.
* `builds_iff`: both handlers get a request ready for a guest exactly when all bytes of its
  header values are visible ASCII, spaces or tabs, and nothing else panics.
-/

namespace Wgi

section Compare

variable {http : Http} {base64 : Base64.Codec} {form : Urlencoded} {hyper : Hyper}
variable {fs : FileSystem} {cwd : CurrentDir} {request : Request http}

/-! ### The bytes of the module -/

/-- The module a CGI request runs is what the search left in the buffer. -/
theorem Cgi.wasm_of_prepare {call : Cgi.Call} (h : Cgi.prepare http fs cwd request = .ok call) :
    call.wasm = (scanPath fs request.uri.path).wasm := by
  obtain ⟨search, hsearch, hwasm, -⟩ := Cgi.prepare_eq_ok_iff.mp h
  rw [Cgi.search_eq, Except.ok.injEq] at hsearch
  rw [hwasm, ← hsearch]

/-- The module a lambda request runs is what the search left in the buffer, and there is a
script. -/
theorem Lambda.wasm_of_prepare {call : Lambda.Call}
    (h : Lambda.prepare http base64 form hyper fs request = .ok call) :
    call.wasm = (scanPath fs request.uri.path).wasm ∧ (script fs request.uri.path).isSome := by
  obtain ⟨search, hsearch, hloaded, hwasm, -⟩ := Lambda.prepare_eq_ok_iff.mp h
  rw [Lambda.search_eq, Except.ok.injEq] at hsearch
  subst hsearch
  exact ⟨hwasm, (scanPath_lastErr_eq_none_iff fs request.uri.path).mp hloaded⟩

end Compare

/-- **Which bytes are run.** Suppose the search ends with a candidate that was read. Both
loops then stop there, and `App::new` receives the buffer of the loop. That buffer is the
content of the candidate exactly when every candidate tried before it failed without
appending a byte. -/
theorem moduleBytes_iff (http : Http) (base64 : Base64.Codec) (form : Urlencoded)
    (hyper : Hyper) (fs : FileSystem) (cwd : CurrentDir) (request : Request http)
    (name info : Str) (content : Bytes)
    (hscript : script fs request.uri.path = some (name, info)) (hcontent : fs name = .ok content) :
    ∃ c l, Cgi.search fs request.uri.path = .ok c ∧
      c.scriptName = some name ∧ c.pathInfo = some info ∧
      Lambda.search fs request.uri.path = .ok l ∧ l.lastErr = none ∧
      (∀ call, Cgi.prepare http fs cwd request = .ok call → call.wasm = c.wasm) ∧
      (∀ call, Lambda.prepare http base64 form hyper fs request = .ok call →
        call.wasm = l.wasm) ∧
      ((c.wasm = content ∧ l.wasm = content) ↔
        ∀ q ∈ missed fs request.uri.path, residue fs q.1 = []) := by
  have hfound : (scanPath fs request.uri.path).found = some (name, info) := by
    rw [scanPath_found, hscript]
  refine ⟨_, _, Cgi.search_eq fs request.uri.path, ?_, ?_, Lambda.search_eq fs request.uri.path,
    ?_, fun call hcall => Cgi.wasm_of_prepare hcall,
    fun call hcall => (Lambda.wasm_of_prepare hcall).1, ?_⟩
  · rw [hfound]
    rfl
  · rw [hfound]
    rfl
  · rw [scanPath_lastErr_eq_none_iff, hscript]
    rfl
  · rw [and_self]
    exact scanPath_wasm_eq_iff hscript hcontent

/-- A file system in which reading `a` fails after one byte, and `a/b` is readable. -/
def brokenFs : FileSystem := fun path =>
  if path = "a".toList then .readErr [0x78] ⟨.os 5, "Input/output error"⟩
  else if path = "a/b".toList then .ok [0x79]
  else .openErr ⟨.os 2, "No such file or directory"⟩

/-- For `/a/b/c` the clean file system gives both handlers the content of `a/b`. -/
theorem moduleBytes_deep :
    ∃ c l, Cgi.search Cgi.deepFs "/a/b/c".toList = .ok c ∧
      Lambda.search Cgi.deepFs "/a/b/c".toList = .ok l ∧ c.wasm = [0] ∧ l.wasm = [0] := by
  obtain ⟨c, l, hc, -, -, hl, -, -, -, hiff⟩ := moduleBytes_iff Http.reference Base64.standard
    .reference Hyper.reference Cgi.deepFs .error Cgi.deepRequest "a/b".toList "/c".toList [0]
    (by decide) (by decide)
  exact ⟨c, l, hc, hl, hiff.mpr (by decide)⟩

/-- A request for a path, without headers or a body. -/
def plainRequest (path : Str) : Request Http.reference where
  method := "GET".toList
  uri := ⟨path, none⟩
  version := .http11
  headers := Http.reference.emptyMap
  body := []

/-- The byte that the failed read of `a` left is run in front of the content of `a/b`, in
both modes. -/
theorem moduleBytes_broken :
    brokenFs "a/b".toList = .ok [0x79] ∧
    (∃ call, Cgi.prepare Http.reference brokenFs (.path "/srv".toList)
        (plainRequest "/a/b".toList) = .ok call ∧ call.wasm = [0x78, 0x79]) ∧
    ∃ call, Lambda.prepare Http.reference Base64.standard .reference Hyper.reference brokenFs
        (plainRequest "/a/b".toList) = .ok call ∧ call.wasm = [0x78, 0x79] :=
  ⟨rfl, ⟨_, rfl, rfl⟩, ⟨_, rfl, rfl⟩⟩

/-! ### The input of the guest -/

/-- The first of several chunks is their concatenation exactly when the others are
empty. -/
theorem head_eq_flatten_iff (chunks : List Bytes) :
    chunks.head?.getD [] = chunks.flatten ↔ ∀ chunk ∈ chunks.tail, chunk = [] := by
  rcases chunks with - | ⟨chunk, chunks⟩
  · simp
  · rw [List.head?_cons, Option.getD_some, List.flatten_cons, List.tail_cons, eq_comm,
      List.append_right_eq_self, List.flatten_eq_nil_iff]

theorem readBody_chunks (chunks : List Bytes) :
    Cgi.readBody (chunks.map .ok) = .ok (chunks.head?.getD []) := by
  cases chunks <;> rfl

/-- **Which input the guest receives.** Let the body arrive in any chunks. The lambda
handler makes the event from their concatenation. The CGI handler runs the guest on the
first chunk, which is the concatenation exactly when every later chunk is empty. -/
theorem input_iff (http : Http) (base64 : Base64.Codec) (form : Urlencoded) (hyper : Hyper)
    (fs : FileSystem) (cwd : CurrentDir) (request : Request http) (chunks : List Bytes)
    (hbody : request.body = chunks.map .ok) :
    ∃ input, Cgi.readBody request.body = .ok input ∧
      hyper.toBytes request.body = .ok chunks.flatten ∧
      (∀ call, Cgi.prepare http fs cwd request = .ok call → call.input = input) ∧
      (∀ call, Lambda.prepare http base64 form hyper fs request = .ok call →
        call.body = chunks.flatten) ∧
      (input = chunks.flatten ↔ ∀ chunk ∈ chunks.tail, chunk = []) := by
  have hread : Cgi.readBody request.body = .ok (chunks.head?.getD []) := by
    rw [hbody, readBody_chunks]
  have hbytes : hyper.toBytes request.body = .ok chunks.flatten := by
    rw [hbody, hyper.toBytes_chunks]
  refine ⟨chunks.head?.getD [], hread, hbytes, fun call hcall => ?_, fun call hcall => ?_,
    head_eq_flatten_iff chunks⟩
  · obtain ⟨-, -, -, -, hinput⟩ := Cgi.prepare_eq_ok_iff.mp hcall
    exact Except.ok.inj (hinput.symm.trans hread)
  · obtain ⟨-, -, -, -, hcallBody, -⟩ := Lambda.prepare_eq_ok_iff.mp hcall
    exact Except.ok.inj (hcallBody.symm.trans hbytes)

/-- A request whose body arrives in two chunks. -/
def chunkedRequest : Request Http.reference :=
  { plainRequest "/a/b/c".toList with body := [.ok [1, 2], .ok [3]] }

/-- A body that is all in its first chunk is received in full in both modes. -/
theorem input_emptyChunks :
    ∃ input, Cgi.readBody [.ok [1, 2, 3], .ok [], .ok []] = .ok input ∧
      Hyper.reference.toBytes [.ok [1, 2, 3], .ok [], .ok []] = .ok input := by
  obtain ⟨input, hread, hbytes, -, -, hiff⟩ := input_iff Http.reference Base64.standard .reference
    Hyper.reference Cgi.deepFs (.path "/srv".toList)
    { chunkedRequest with body := [.ok [1, 2, 3], .ok [], .ok []] } [[1, 2, 3], [], []] rfl
  obtain rfl := hiff.mpr (by decide)
  exact ⟨_, hread, hbytes⟩

/-- Of two chunks the CGI guest receives only the first, while the lambda guest receives
both. -/
theorem input_twoChunks :
    (∃ call, Cgi.prepare Http.reference Cgi.deepFs (.path "/srv".toList) chunkedRequest =
        .ok call ∧ call.input = [1, 2]) ∧
    ∃ call, Lambda.prepare Http.reference Base64.standard .reference Hyper.reference Cgi.deepFs
        chunkedRequest = .ok call ∧ call.body = [1, 2, 3] :=
  ⟨⟨_, rfl, rfl⟩, ⟨_, rfl, rfl⟩⟩

/-! ### Whether a module is run at all -/

/-- The CGI handler constructs and runs an `App`. -/
def Cgi.Runs (http : Http) (fs : FileSystem) (cwd : CurrentDir) (request : Request http) : Prop :=
  ∃ call, Cgi.prepare http fs cwd request = .ok call

/-- The lambda handler constructs and runs an `App`. -/
def Lambda.Runs (http : Http) (base64 : Base64.Codec) (form : Urlencoded) (hyper : Hyper)
    (fs : FileSystem) (request : Request http) : Prop :=
  ∃ call, Lambda.prepare http base64 form hyper fs request = .ok call

/-- A request that only the search can keep from being run: the version is known, the
header values are text, the query decodes, the body arrives without an error, and the
current directory can be used. -/
structure Servable {http : Http} (form : Urlencoded) (cwd : CurrentDir)
    (request : Request http) : Prop where
  version : request.version ≠ .other
  headers : ∀ entry ∈ http.iter request.headers, (http.toStr entry.2).isSome
  query : ∀ query, request.uri.query = some query → (form.fromStr query).isSome
  body : ∃ chunks : List Bytes, request.body = chunks.map .ok
  cwd : ∃ dir, cwd = .path dir

section Runs

variable {http : Http} {base64 : Base64.Codec} {form : Urlencoded} {hyper : Hyper}
variable {fs : FileSystem} {cwd : CurrentDir} {request : Request http}

/-- The CGI handler runs a module for every servable request. -/
theorem Cgi.runs_of_servable (h : Servable form cwd request) : Cgi.Runs http fs cwd request := by
  refine Cgi.exists_prepare_iff.mpr ⟨h.version, fun _ => h.cwd, h.headers, fun err herr => ?_⟩
  obtain ⟨chunks, hchunks⟩ := h.body
  rw [hchunks, List.head?_map] at herr
  cases chunks <;> simp at herr

/-- The lambda handler runs a module for a servable request exactly when there is a
script. -/
theorem Lambda.runs_iff_of_servable (h : Servable form cwd request) :
    Lambda.Runs http base64 form hyper fs request ↔ (script fs request.uri.path).isSome := by
  constructor
  · rintro ⟨call, hcall⟩
    exact (Lambda.wasm_of_prepare hcall).2
  · intro hscript
    obtain ⟨chunks, hchunks⟩ := h.body
    have hfrom : ∃ event, LambdaRequest.from http base64 form request.method request.uri
        request.headers chunks.flatten = .ok event :=
      exists_from_iff.mpr ⟨http.forall_getAll_iff.mpr h.headers, h.query⟩
    obtain ⟨event, hevent⟩ := hfrom
    refine ⟨⟨_, chunks.flatten, event⟩, Lambda.prepare_eq_ok_iff.mpr
      ⟨_, Lambda.search_eq fs request.uri.path,
        (scanPath_lastErr_eq_none_iff fs request.uri.path).mpr hscript, rfl, ?_, hevent⟩⟩
    rw [hchunks, hyper.toBytes_chunks]

/-- Without a script the lambda handler runs nothing. -/
theorem Lambda.not_runs_of_no_script (h : script fs request.uri.path = none) :
    ¬ Lambda.Runs http base64 form hyper fs request := by
  rintro ⟨call, hcall⟩
  have hsome := (Lambda.wasm_of_prepare hcall).2
  rw [h] at hsome
  exact absurd hsome Bool.false_ne_true

/-- Without a script the CGI handler runs a module all the same, unless it panics before. -/
theorem Cgi.not_runs_iff_of_no_script (h : script fs request.uri.path = none) :
    ¬ Cgi.Runs http fs cwd request ↔
      request.version = .other ∨
        (∃ entry ∈ http.iter request.headers, http.toStr entry.2 = none) ∨
        ∃ err, request.body.head? = some (.error err) := by
  rw [Cgi.Runs, Cgi.exists_prepare_iff, h]
  constructor
  · intro hnot
    by_contra hother
    simp only [not_or, not_exists, not_and] at hother
    obtain ⟨hversion, htext, hframe⟩ := hother
    exact hnot ⟨hversion, fun hsome => absurd hsome Bool.false_ne_true,
      fun entry hentry => Option.isSome_iff_ne_none.mpr (htext entry hentry), hframe⟩
  · rintro hother ⟨hversion, -, htext, hframe⟩
    rcases hother with hv | ⟨entry, hentry, hnone⟩ | ⟨err, herr⟩
    · exact hversion hv
    · exact Option.isSome_iff_ne_none.mp (htext entry hentry) hnone
    · exact hframe err herr

end Runs

/-- **When a module is run without a script.** The lambda handler never does. The CGI
handler does, unless it panics before for another reason: an unknown version, a header
value that is not text, or an error in the first frame of the body. And for servable
requests the two handlers agree on whether a module is run exactly when there is a
script. -/
theorem runs_iff (http : Http) (base64 : Base64.Codec) (form : Urlencoded) (hyper : Hyper)
    (fs : FileSystem) (cwd : CurrentDir) (request : Request http) :
    (((∀ q ∈ candidates request.uri.path, readable fs q.1 = false) →
        ¬ Cgi.Runs http fs cwd request ∧ ¬ Lambda.Runs http base64 form hyper fs request) ↔
      (∃ q ∈ candidates request.uri.path, readable fs q.1 = true) ∨ request.version = .other ∨
        (∃ entry ∈ http.iter request.headers, http.toStr entry.2 = none) ∨
        ∃ err, request.body.head? = some (.error err)) ∧
    (Servable form cwd request →
      ((Cgi.Runs http fs cwd request ↔ Lambda.Runs http base64 form hyper fs request) ↔
        ∃ q ∈ candidates request.uri.path, readable fs q.1 = true)) := by
  constructor
  · rw [← script_eq_none_iff, ← script_isSome_iff]
    cases hscript : script fs request.uri.path with
    | some hit => simp
    | none =>
        have hlambda : ¬ Lambda.Runs http base64 form hyper fs request :=
          Lambda.not_runs_of_no_script hscript
        constructor
        · intro h
          exact Or.inr ((Cgi.not_runs_iff_of_no_script hscript).mp (h rfl).1)
        · rintro (hsome | hother) -
          · exact absurd hsome Bool.false_ne_true
          · exact ⟨(Cgi.not_runs_iff_of_no_script hscript).mpr hother, hlambda⟩
  · intro h
    have hcgi : Cgi.Runs http fs cwd request := Cgi.runs_of_servable h
    have hlambda : Lambda.Runs http base64 form hyper fs request ↔
        (script fs request.uri.path).isSome := Lambda.runs_iff_of_servable h
    rw [← script_isSome_iff, ← hlambda]
    exact ⟨fun hagree => hagree.mp hcgi, fun hruns => ⟨fun _ => hruns, fun _ => hcgi⟩⟩

/-- A file system without any readable file. -/
def emptyFs : FileSystem := fun _ => .openErr ⟨.os 2, "No such file or directory"⟩

/-- For a file that does not exist the CGI handler runs a module of no bytes, where the
lambda handler panics. -/
theorem runs_missing :
    (∀ q ∈ candidates "/missing".toList, readable emptyFs q.1 = false) ∧
    (∃ call, Cgi.prepare Http.reference emptyFs (.path "/srv".toList)
        (plainRequest "/missing".toList) = .ok call ∧ call.wasm = []) ∧
    Lambda.prepare Http.reference Base64.standard .reference Hyper.reference emptyFs
        (plainRequest "/missing".toList) =
      .error (.failedToLoadFile ⟨.os 2, "No such file or directory"⟩) :=
  ⟨by decide, ⟨_, rfl, rfl⟩, rfl⟩

/-! ### Getting a request ready for a guest -/

/-- `cgi::handler` builds the variables of a request. -/
def Cgi.Builds (http : Http) (fs : FileSystem) (cwd : CurrentDir) (request : Request http) :
    Prop :=
  ∃ search vs, Cgi.search fs request.uri.path = .ok search ∧
    Cgi.vars http cwd request search = .ok vs

/-- `lambda::handler` builds the event of a request with a body. -/
def Lambda.Builds (http : Http) (base64 : Base64.Codec) (form : Urlencoded)
    (request : Request http) (body : Bytes) : Prop :=
  ∃ event, LambdaRequest.from http base64 form request.method request.uri request.headers body =
    .ok event

/-- **Which header values the handlers take.** For a request whose query decodes, the
variables and the event can both be built exactly when the version is known, the current
directory can be used if there is a script, and every byte of every header value is one
that `to_str` takes. -/
theorem builds_iff (http : Http) (base64 : Base64.Codec) (form : Urlencoded) (fs : FileSystem)
    (cwd : CurrentDir) (request : Request http) (body : Bytes)
    (hquery : ∀ query, request.uri.query = some query → (form.fromStr query).isSome) :
    Cgi.Builds http fs cwd request ∧ Lambda.Builds http base64 form request body ↔
      request.version ≠ .other ∧
        ((script fs request.uri.path).isSome → ∃ dir, cwd = .path dir) ∧
        ∀ entry ∈ http.iter request.headers, ∀ x ∈ http.valueBytes entry.2,
          isVisibleByte x = true := by
  have htext : (∀ n, ∀ v ∈ http.getAll request.headers n, (http.toStr v).isSome) ↔
      ∀ entry ∈ http.iter request.headers, (http.toStr entry.2).isSome := http.forall_getAll_iff
  simp only [← http.toStr_isSome_iff]
  rw [Cgi.Builds, Lambda.Builds, Cgi.exists_searchVars_iff, exists_from_iff, htext]
  constructor
  · rintro ⟨hvars, -⟩
    exact hvars
  · intro hvars
    exact ⟨hvars, hvars.2.2, hquery⟩

/-- A request for a script, with a path behind it, a query and a header. -/
def searchRequest : Request Http.reference where
  method := "GET".toList
  uri := ⟨"/a/b/c".toList, some "q=a+b&lang=%C3%A9".toList⟩
  version := .http11
  headers := [(Http.setCookie, ⟨Utf8.encode "id=7; path=/".toList, rfl⟩)]
  body := []

/-- It can be got ready by both handlers. -/
theorem builds_search :
    (script Cgi.deepFs searchRequest.uri.path).isSome = true ∧
      Cgi.Builds Http.reference Cgi.deepFs (.path "/srv".toList) searchRequest ∧
      Lambda.Builds Http.reference Base64.standard .reference searchRequest [1, 2] := by
  have hquery : ∀ query, searchRequest.uri.query = some query →
      (Urlencoded.reference.fromStr query).isSome := by
    rintro query ⟨⟩
    decide
  refine ⟨by decide, (builds_iff Http.reference Base64.standard .reference Cgi.deepFs
    (.path "/srv".toList) searchRequest [1, 2] hquery).mpr ⟨nofun, fun _ => ⟨_, rfl⟩, ?_⟩⟩
  intro entry hentry
  obtain rfl := List.mem_singleton.mp hentry
  decide +kernel

/-- A request with the header value `é` in Latin-1. -/
def latinRequest : Request Http.reference where
  method := "GET".toList
  uri := ⟨"/missing".toList, none⟩
  version := .http11
  headers := [(Http.setCookie, ⟨[0xE9], rfl⟩)]
  body := []

/-- The byte is one of a header value, but neither handler takes it. -/
theorem builds_latin :
    ¬ ∀ (http : Http) (base64 : Base64.Codec) (form : Urlencoded) (fs : FileSystem)
      (cwd : CurrentDir) (request : Request http) (body : Bytes),
      (∀ query, request.uri.query = some query → (form.fromStr query).isSome) →
        Cgi.Builds http fs cwd request ∧ Lambda.Builds http base64 form request body := by
  intro h
  obtain ⟨⟨search, vs, -, hvars⟩, -⟩ := h Http.reference Base64.standard .reference emptyFs
    (.path "/srv".toList) latinRequest [] nofun
  have htext := (Cgi.exists_vars_iff.mp ⟨vs, hvars⟩).2.2 _ List.mem_cons_self
  exact absurd htext Bool.false_ne_true

end Wgi
