import Wgi.CgiResponse
import Wgi.Request
import Wgi.Search

/-!
# The CGI Handler

`cgi::handler` looks for the script, builds the meta-variables of the CGI standard, takes
the body of the request, and runs the module. `Cgi.prepare` is everything up to the run;
its result is what `App::new` and `App::run_cgi` are called with.

## Main results

* `Cgi.prepare_eq_ok_iff`: when the module is run, and with what.
* `Cgi.headerKey_cases`: a request header becomes `CONTENT_TYPE`, `CONTENT_LENGTH` or a
  variable whose name begins with `HTTP_`, so it cannot be taken for a path variable.
* `Cgi.script_vars`: `SCRIPT_NAME` and `PATH_INFO` make up the path of the request.
-/

namespace Wgi

open Fallible

/-- `SERVER_SOFTWARE`. -/
def serverSoftware : Str := "wgi".toList

/-- `server_protocol`. -/
def serverProtocol : Version → Option Str
  | .http09 => some "HTTP/0.9".toList
  | .http10 => some "HTTP/1.0".toList
  | .http11 => some "HTTP/1.1".toList
  | .http2 => some "HTTP/2.0".toList
  | .http3 => some "HTTP/3.0".toList
  | .other => none

/-- What `env::current_dir` returns: an error, or a path, which may not be Unicode. -/
inductive CurrentDir where
  | error
  | notUnicode
  | path (dir : Str)
  deriving DecidableEq, Repr

/-- `env::current_dir().unwrap().into_os_string().into_string().unwrap()`. -/
def CurrentDir.string : CurrentDir → Except Panic Str
  | .error => .error (.unwrap .currentDir)
  | .notUnicode => .error (.unwrap .currentDirString)
  | .path dir => .ok dir

/-- The environment of a CGI guest, in the order in which it is built. -/
abbrev Vars := List (Str × Str)

namespace Cgi

section Handler

variable (http : Http)

/-- `to_cgi_http_header`. -/
def toCgiHttpHeader (header : http.HeaderName) : Str :=
  "HTTP_".toList ++
    (Text.toAsciiUppercase (http.asStr header)).map fun c => if c = '-' then '_' else c

/-- The variables that describe the server and the request line. -/
def serverVars (request : Request http) : Except Panic Vars :=
  match serverProtocol request.version with
  | none => .error (.expect "Unknown HTTP version")
  | some protocol => .ok
      [("GATEWAY_INTERFACE".toList, "CGI/1.1".toList),
        ("SERVER_SOFTWARE".toList, serverSoftware),
        ("SERVER_NAME".toList, "127.0.0.1".toList),
        ("SERVER_PORT".toList, "9000".toList),
        ("SERVER_PROTOCOL".toList, protocol),
        ("REQUEST_METHOD".toList, request.method),
        ("QUERY_STRING".toList, request.uri.query.getD [])]

/-- The variables for the path after the script, if there is a script. -/
def pathVars (cwd : CurrentDir) : Option Str → Except Panic Vars
  | none => .ok []
  | some var => do
      let dir ← cwd.string
      pure [("PATH_INFO".toList, var), ("PATH_TRANSLATED".toList, dir ++ var)]

/-- The variable for the script, if there is one. -/
def scriptVars : Option Str → Vars
  | none => []
  | some var => [("SCRIPT_NAME".toList, '/' :: var)]

/-- The name of the variable for a request header. -/
def headerKey (header : http.HeaderName) : Str :=
  if http.asStr header = "content-type".toList then "CONTENT_TYPE".toList
  else if http.asStr header = "content-length".toList then "CONTENT_LENGTH".toList
  else toCgiHttpHeader http header

/-- The variable for a request header. -/
def headerVar (entry : http.HeaderName × http.HeaderValue) : Except Panic (Str × Str) := do
  let value ← unwrapAt .headerToStr (http.toStr entry.2)
  pure (headerKey http entry.1, value)

/-- The variables of a request, for what the search has found. -/
def vars (cwd : CurrentDir) (request : Request http) (search : Search) : Except Panic Vars := do
  let server ← serverVars http request
  let path ← pathVars cwd search.pathInfo
  let headers ← (http.iter request.headers).mapM (headerVar http)
  pure (server ++ path ++ scriptVars search.scriptName ++ headers)

/-- `request.body_mut().data().await.transpose().unwrap().unwrap_or_else(Bytes::new)`: the
next frame of the body. -/
def readBody : List Frame → Except Panic Bytes
  | [] => .ok []
  | .ok chunk :: _ => .ok chunk
  | .error _ :: _ => .error (.unwrap .requestBody)

/-- A call `App::new(wasm).run_cgi(&input, &vars)`. -/
structure Call where
  wasm : Bytes
  input : Bytes
  vars : Vars
  deriving DecidableEq, Repr

/-- `cgi::handler` up to the call that runs the module. -/
def prepare (fs : FileSystem) (cwd : CurrentDir) (request : Request http) :
    Except Panic Call := do
  let search ← search fs request.uri.path
  let vars ← vars http cwd request search
  let body ← readBody request.body
  pure ⟨search.wasm, body, vars⟩

/-- `App::run_cgi`, for a module that is given by what it does: from its bytes, its
standard input and its environment it produces its standard output, or the run fails. -/
def runCgi (unicode : Text.Unicode) (module : Bytes → Bytes → Vars → Option Str) (call : Call) :
    Except Panic (Option (CgiResponse http)) :=
  match module call.wasm call.input call.vars with
  | none => .ok none
  | some stdout => (CgiResponse.fromStr http unicode stdout).map some

/-- `cgi::handler`. -/
def handler (unicode : Text.Unicode) (module : Bytes → Bytes → Vars → Option Str)
    (fs : FileSystem) (cwd : CurrentDir) (request : Request http) :
    Except Panic (CgiResponse http) := do
  let call ← prepare http fs cwd request
  let response ← runCgi http unicode module call
  unwrapAt .guestRun response

end Handler

/-! ### When the module is run -/

section Prepare

variable {http : Http}

/-- The module is run on what the search left in the buffer, with the variables and the
next frame of the body. -/
theorem prepare_eq_ok_iff {fs : FileSystem} {cwd : CurrentDir} {request : Request http}
    {call : Call} :
    prepare http fs cwd request = .ok call ↔
      ∃ search, Cgi.search fs request.uri.path = .ok search ∧ call.wasm = search.wasm ∧
        vars http cwd request search = .ok call.vars ∧
        readBody request.body = .ok call.input := by
  rw [prepare, bind_eq_ok_iff]
  constructor
  · rintro ⟨search, hsearch, h⟩
    obtain ⟨vs, hvars, h⟩ := bind_eq_ok_iff.mp h
    obtain ⟨body, hbody, h⟩ := bind_eq_ok_iff.mp h
    obtain rfl := Except.ok.inj h
    exact ⟨search, hsearch, rfl, hvars, hbody⟩
  · obtain ⟨wasm, input, vs⟩ := call
    rintro ⟨search, hsearch, rfl, hvars, hbody⟩
    exact ⟨search, hsearch, bind_eq_ok_iff.mpr ⟨vs, hvars,
      bind_eq_ok_iff.mpr ⟨input, hbody, rfl⟩⟩⟩

/-- The variables, part by part. -/
theorem vars_eq_ok_iff {cwd : CurrentDir} {request : Request http} {search : Search}
    {vs : Vars} :
    vars http cwd request search = .ok vs ↔
      ∃ server path headers, serverVars http request = .ok server ∧
        pathVars cwd search.pathInfo = .ok path ∧
        List.Forall₂ (fun entry var => headerVar http entry = .ok var)
          (http.iter request.headers) headers ∧
        vs = server ++ path ++ scriptVars search.scriptName ++ headers := by
  rw [vars, bind_eq_ok_iff]
  constructor
  · rintro ⟨server, hserver, h⟩
    obtain ⟨path, hpath, h⟩ := bind_eq_ok_iff.mp h
    obtain ⟨headers, hheaders, h⟩ := bind_eq_ok_iff.mp h
    exact ⟨server, path, headers, hserver, hpath, mapM_eq_ok_iff.mp hheaders,
      (Except.ok.inj h).symm⟩
  · rintro ⟨server, path, headers, hserver, hpath, hheaders, rfl⟩
    exact ⟨server, hserver, bind_eq_ok_iff.mpr ⟨path, hpath,
      bind_eq_ok_iff.mpr ⟨headers, mapM_eq_ok_iff.mpr hheaders, rfl⟩⟩⟩

theorem exists_serverVars_iff {request : Request http} :
    (∃ server, serverVars http request = .ok server) ↔ request.version ≠ .other := by
  rw [serverVars]
  cases request.version <;> simp [serverProtocol]

theorem headerVar_eq_ok_iff {entry : http.HeaderName × http.HeaderValue} {var : Str × Str} :
    headerVar http entry = .ok var ↔
      http.toStr entry.2 = some var.2 ∧ var.1 = headerKey http entry.1 := by
  rw [headerVar, bind_eq_ok_iff]
  constructor
  · rintro ⟨value, hvalue, h⟩
    obtain rfl := Except.ok.inj h
    exact ⟨unwrapAt_eq_ok_iff.mp hvalue, rfl⟩
  · obtain ⟨key, value⟩ := var
    rintro ⟨hvalue, rfl⟩
    exact ⟨value, unwrapAt_eq_ok_iff.mpr hvalue, rfl⟩

/-- The variables for the headers can be built exactly when all values are text. -/
theorem exists_headerVars_iff {entries : List (http.HeaderName × http.HeaderValue)} :
    (∃ headers, List.Forall₂ (fun entry var => headerVar http entry = .ok var) entries headers) ↔
      ∀ entry ∈ entries, (http.toStr entry.2).isSome := by
  rw [exists_forall₂_iff]
  refine forall₂_congr fun entry _ => ?_
  rw [Option.isSome_iff_exists]
  constructor
  · rintro ⟨var, hvar⟩
    exact ⟨var.2, (headerVar_eq_ok_iff.mp hvar).1⟩
  · rintro ⟨value, hvalue⟩
    exact ⟨(headerKey http entry.1, value), headerVar_eq_ok_iff.mpr ⟨hvalue, rfl⟩⟩

/-- The path variables, for a path after the script. -/
theorem pathVars_eq_ok_iff {cwd : CurrentDir} {pathInfo : Option Str} {path : Vars} :
    pathVars cwd pathInfo = .ok path ↔
      (pathInfo = none ∧ path = []) ∨
      ∃ info dir, pathInfo = some info ∧ cwd = .path dir ∧
        path = [("PATH_INFO".toList, info), ("PATH_TRANSLATED".toList, dir ++ info)] := by
  cases pathInfo with
  | none => simp [pathVars, eq_comm]
  | some info =>
      rw [pathVars, bind_eq_ok_iff]
      constructor
      · rintro ⟨dir, hdir, h⟩
        obtain rfl := Except.ok.inj h
        cases cwd with
        | error => exact absurd hdir (by simp [CurrentDir.string])
        | notUnicode => exact absurd hdir (by simp [CurrentDir.string])
        | path dir' =>
            obtain rfl := Except.ok.inj hdir
            exact Or.inr ⟨info, dir', rfl, rfl, rfl⟩
      · rintro (⟨hnone, -⟩ | ⟨info', dir, hinfo, rfl, rfl⟩)
        · exact absurd hnone (by simp)
        · obtain rfl := Option.some.inj hinfo
          exact ⟨dir, rfl, rfl⟩

/-- The variables can be built exactly when the version is known, the current directory can
be used if it is needed, and all header values are text. -/
theorem exists_vars_iff {cwd : CurrentDir} {request : Request http} {search : Search} :
    (∃ vs, vars http cwd request search = .ok vs) ↔
      request.version ≠ .other ∧ (search.pathInfo.isSome → ∃ dir, cwd = .path dir) ∧
        ∀ entry ∈ http.iter request.headers, (http.toStr entry.2).isSome := by
  constructor
  · rintro ⟨vs, hvars⟩
    obtain ⟨server, path, headers, hserver, hpath, hheaders, -⟩ := vars_eq_ok_iff.mp hvars
    refine ⟨exists_serverVars_iff.mp ⟨server, hserver⟩, fun hinfo => ?_,
      exists_headerVars_iff.mp ⟨headers, hheaders⟩⟩
    rcases pathVars_eq_ok_iff.mp hpath with ⟨hnone, -⟩ | ⟨-, dir, -, hdir, -⟩
    · rw [hnone] at hinfo
      exact absurd hinfo Bool.false_ne_true
    · exact ⟨dir, hdir⟩
  · rintro ⟨hversion, hcwd, htext⟩
    obtain ⟨server, hserver⟩ := exists_serverVars_iff.mpr hversion
    obtain ⟨headers, hheaders⟩ := exists_headerVars_iff.mpr htext
    have hpath : ∃ path, pathVars cwd search.pathInfo = .ok path := by
      cases hinfo : search.pathInfo with
      | none => exact ⟨[], rfl⟩
      | some info =>
          obtain ⟨dir, hdir⟩ := hcwd (by rw [hinfo]; rfl)
          exact ⟨_, pathVars_eq_ok_iff.mpr (Or.inr ⟨info, dir, rfl, hdir, rfl⟩)⟩
    obtain ⟨path, hpath⟩ := hpath
    exact ⟨_, vars_eq_ok_iff.mpr ⟨server, path, headers, hserver, hpath, hheaders, rfl⟩⟩

/-- Reading the body fails exactly when its first frame is an error. -/
theorem exists_readBody_iff {frames : List Frame} :
    (∃ body, readBody frames = .ok body) ↔ ∀ err, frames.head? ≠ some (.error err) := by
  rcases frames with - | ⟨frame, frames⟩
  · simp [readBody]
  · cases frame with
    | error err => simp [readBody]
    | ok chunk => simp [readBody]

/-- The variables of a request can be built for what its search finds exactly when the
version is known, the current directory can be used if there is a script, and all header
values are text. -/
theorem exists_searchVars_iff {fs : FileSystem} {cwd : CurrentDir} {request : Request http} :
    (∃ search vs, Cgi.search fs request.uri.path = .ok search ∧
        vars http cwd request search = .ok vs) ↔
      request.version ≠ .other ∧
        ((script fs request.uri.path).isSome → ∃ dir, cwd = .path dir) ∧
        ∀ entry ∈ http.iter request.headers, (http.toStr entry.2).isSome := by
  have hinfo : ∀ search, Cgi.search fs request.uri.path = .ok search →
      search.pathInfo.isSome = (script fs request.uri.path).isSome := by
    intro search hsearch
    rw [search_eq, Except.ok.injEq] at hsearch
    rw [← hsearch, scanPath_found, Option.isSome_map]
  constructor
  · rintro ⟨search, vs, hsearch, hvars⟩
    rw [← hinfo search hsearch]
    exact exists_vars_iff.mp ⟨vs, hvars⟩
  · intro h
    have hsearch := search_eq fs request.uri.path
    rw [← hinfo _ hsearch] at h
    obtain ⟨vs, hvars⟩ := exists_vars_iff.mpr h
    exact ⟨_, vs, hsearch, hvars⟩

/-- **When the module is run**: nothing depends on whether there is a script, but for the
current directory. -/
theorem exists_prepare_iff {fs : FileSystem} {cwd : CurrentDir} {request : Request http} :
    (∃ call, prepare http fs cwd request = .ok call) ↔
      request.version ≠ .other ∧
        ((script fs request.uri.path).isSome → ∃ dir, cwd = .path dir) ∧
        (∀ entry ∈ http.iter request.headers, (http.toStr entry.2).isSome) ∧
        ∀ err, request.body.head? ≠ some (.error err) := by
  constructor
  · rintro ⟨call, hcall⟩
    obtain ⟨search, hsearch, -, hvars, hbody⟩ := prepare_eq_ok_iff.mp hcall
    obtain ⟨hversion, hcwd, htext⟩ :=
      exists_searchVars_iff.mp ⟨search, call.vars, hsearch, hvars⟩
    exact ⟨hversion, hcwd, htext, exists_readBody_iff.mp ⟨call.input, hbody⟩⟩
  · rintro ⟨hversion, hcwd, htext, hframe⟩
    obtain ⟨search, vs, hsearch, hvars⟩ := exists_searchVars_iff.mpr ⟨hversion, hcwd, htext⟩
    obtain ⟨body, hbody⟩ := exists_readBody_iff.mpr hframe
    exact ⟨⟨_, body, vs⟩, prepare_eq_ok_iff.mpr ⟨search, hsearch, rfl, hvars, hbody⟩⟩

end Prepare

/-! ### The variables for the path -/

section PathVars

variable {http : Http}

/-- A header with a variable of its own in the CGI standard. -/
def Special (http : Http) (header : http.HeaderName) : Prop :=
  http.asStr header = "content-type".toList ∨ http.asStr header = "content-length".toList

/-- The name of the variable for a header: one of the two special ones, or one that begins
with `HTTP_`. -/
theorem headerKey_cases (header : http.HeaderName) :
    (http.asStr header = "content-type".toList ∧
        headerKey http header = "CONTENT_TYPE".toList) ∨
      (http.asStr header = "content-length".toList ∧
        headerKey http header = "CONTENT_LENGTH".toList) ∨
      (¬ Special http header ∧ headerKey http header = toCgiHttpHeader http header) := by
  rw [headerKey, Special, not_or]
  by_cases htype : http.asStr header = "content-type".toList
  · exact Or.inl ⟨htype, if_pos htype⟩
  · rw [if_neg htype]
    by_cases hlength : http.asStr header = "content-length".toList
    · exact Or.inr (Or.inl ⟨hlength, if_pos hlength⟩)
    · exact Or.inr (Or.inr ⟨⟨htype, hlength⟩, if_neg hlength⟩)

/-- A name that begins neither with `C` nor with `H` is not the name of the variable for a
header. -/
theorem headerKey_ne {key : Str} (hC : key.head? ≠ some 'C') (hH : key.head? ≠ some 'H')
    (header : http.HeaderName) : headerKey http header ≠ key := by
  rintro rfl
  rcases headerKey_cases header with ⟨-, h⟩ | ⟨-, h⟩ | ⟨-, h⟩
  · rw [h] at hC
    exact hC rfl
  · rw [h] at hC
    exact hC rfl
  · rw [h] at hH
    exact hH rfl

/-- The names of the variables that describe the server and the request line. -/
def serverKeys : List Str :=
  ["GATEWAY_INTERFACE".toList, "SERVER_SOFTWARE".toList, "SERVER_NAME".toList,
    "SERVER_PORT".toList, "SERVER_PROTOCOL".toList, "REQUEST_METHOD".toList,
    "QUERY_STRING".toList]

theorem map_fst_serverVars {request : Request http} {server : Vars}
    (h : serverVars http request = .ok server) : server.map Prod.fst = serverKeys := by
  rw [serverVars] at h
  cases hp : serverProtocol request.version with
  | none => simp [hp] at h
  | some protocol =>
      rw [hp] at h
      obtain rfl := Except.ok.inj h
      rfl

/-- The names of the variables for the headers, one for each entry of the header map. -/
theorem map_fst_headerVars {entries : List (http.HeaderName × http.HeaderValue)} {headers : Vars}
    (h : List.Forall₂ (fun entry var => headerVar http entry = .ok var) entries headers) :
    headers.map Prod.fst = entries.map fun entry => headerKey http entry.1 := by
  induction h with
  | nil => rfl
  | cons hvar _ ih => rw [List.map_cons, List.map_cons, ih, (headerVar_eq_ok_iff.mp hvar).2]

/-- A variable whose name is neither one of the server's nor that of a header has the
values that the path and the script give it. -/
theorem valuesOf_vars {cwd : CurrentDir} {request : Request http} {search : Search} {vs path : Vars}
    (hvars : vars http cwd request search = .ok vs)
    (hpath : pathVars cwd search.pathInfo = .ok path) {key : Str} (hserver : key ∉ serverKeys)
    (hC : key.head? ≠ some 'C') (hH : key.head? ≠ some 'H') :
    Grouping.valuesOf key vs =
      Grouping.valuesOf key path ++ Grouping.valuesOf key (scriptVars search.scriptName) := by
  obtain ⟨server, path', headers, hs, hp, hh, rfl⟩ := vars_eq_ok_iff.mp hvars
  obtain rfl := Except.ok.inj (hpath.symm.trans hp)
  have hnoServer : Grouping.valuesOf key server = [] := by
    refine Grouping.valuesOf_eq_nil_iff.mpr fun p hp heq => hserver ?_
    rw [← map_fst_serverVars hs, ← heq]
    exact List.mem_map_of_mem hp
  have hnoHeaders : Grouping.valuesOf key headers = [] := by
    refine Grouping.valuesOf_eq_nil_iff.mpr fun p hp heq => ?_
    have hkey : p.1 ∈ headers.map Prod.fst := List.mem_map_of_mem hp
    rw [map_fst_headerVars hh] at hkey
    obtain ⟨entry, -, hentry⟩ := List.mem_map.mp hkey
    exact headerKey_ne hC hH entry.1 (hentry.trans heq)
  rw [Grouping.valuesOf_append, Grouping.valuesOf_append, Grouping.valuesOf_append, hnoServer,
    hnoHeaders, List.nil_append, List.append_nil]

variable {cwd : CurrentDir} {request : Request http} {search : Search} {vs : Vars}

theorem valuesOf_scriptName (hvars : vars http cwd request search = .ok vs) :
    Grouping.valuesOf "SCRIPT_NAME".toList vs =
      (search.scriptName.map fun var => '/' :: var).toList := by
  obtain ⟨-, path, -, -, hpath, -⟩ := vars_eq_ok_iff.mp hvars
  rw [valuesOf_vars hvars hpath (by decide) (by decide) (by decide)]
  have hnone : Grouping.valuesOf "SCRIPT_NAME".toList path = [] := by
    rcases pathVars_eq_ok_iff.mp hpath with ⟨-, rfl⟩ | ⟨info, dir, -, -, rfl⟩
    · rfl
    · rfl
  rw [hnone]
  cases search.scriptName with
  | none => rfl
  | some var => rfl

/-- Of the path variables there is one each exactly when there is a path after the
script. -/
theorem valuesOf_pathInfo (hvars : vars http cwd request search = .ok vs) :
    Grouping.valuesOf "PATH_INFO".toList vs = search.pathInfo.toList ∧
      ∃ dir, Grouping.valuesOf "PATH_TRANSLATED".toList vs =
        (search.pathInfo.map fun var => dir ++ var).toList := by
  obtain ⟨-, path, -, -, hpath, -⟩ := vars_eq_ok_iff.mp hvars
  have hscript : Grouping.valuesOf "PATH_INFO".toList (scriptVars search.scriptName) = [] ∧
      Grouping.valuesOf "PATH_TRANSLATED".toList (scriptVars search.scriptName) = [] := by
    cases search.scriptName with
    | none => exact ⟨rfl, rfl⟩
    | some var => exact ⟨rfl, rfl⟩
  rw [valuesOf_vars hvars hpath (by decide) (by decide) (by decide),
    valuesOf_vars hvars hpath (by decide) (by decide) (by decide), hscript.1, hscript.2,
    List.append_nil, List.append_nil]
  rcases pathVars_eq_ok_iff.mp hpath with ⟨hnone, rfl⟩ | ⟨info, dir, hinfo, -, rfl⟩
  · rw [hnone]
    exact ⟨rfl, [], rfl⟩
  · rw [hinfo]
    exact ⟨rfl, dir, rfl⟩

end PathVars

/-- **The path of a request is split between `SCRIPT_NAME` and `PATH_INFO`.** Let the path
begin with a slash. If the search finds a script, the two variables make up the path, the
second one is empty or begins with a slash, the script is readable and no shorter candidate
is, and each path variable is there once. If no candidate is readable, none of them is
there. -/
theorem script_vars (http : Http) (fs : FileSystem) (cwd : CurrentDir) (request : Request http)
    (p : Str) (hpath : request.uri.path = '/' :: p) (search : Search)
    (hsearch : Cgi.search fs request.uri.path = .ok search) (vs : Vars)
    (hvars : vars http cwd request search = .ok vs) :
    (search.scriptName.isSome → ∃ s info dir,
      Grouping.valuesOf "SCRIPT_NAME".toList vs = ['/' :: s] ∧
      Grouping.valuesOf "PATH_INFO".toList vs = [info] ∧
      Grouping.valuesOf "PATH_TRANSLATED".toList vs = [dir ++ info] ∧
      ('/' :: s) ++ info = request.uri.path ∧ (info = [] ∨ info.head? = some '/') ∧
      readable fs s = true ∧
      ∀ s' rest, ('/' :: s') ++ '/' :: rest = request.uri.path → s'.length < s.length →
        readable fs s' = false) ∧
    ((∀ q ∈ candidates request.uri.path, readable fs q.1 = false) →
      Grouping.valuesOf "SCRIPT_NAME".toList vs = [] ∧
      Grouping.valuesOf "PATH_INFO".toList vs = [] ∧
      Grouping.valuesOf "PATH_TRANSLATED".toList vs = []) := by
  have hname := valuesOf_scriptName hvars
  obtain ⟨hinfo, dir, htranslated⟩ := valuesOf_pathInfo hvars
  rw [search_eq, scanPath_found, Except.ok.injEq] at hsearch
  subst hsearch
  cases hscript : script fs request.uri.path with
  | none =>
      rw [hscript] at hname hinfo htranslated
      exact ⟨fun hsome => absurd hsome Bool.false_ne_true,
        fun _ => ⟨hname, hinfo, htranslated⟩⟩
  | some hit =>
      obtain ⟨s, info⟩ := hit
      rw [hscript] at hname hinfo htranslated
      obtain ⟨hread, hmem, hshorter⟩ := script_spec hscript
      have hdrop : dropSlash request.uri.path = p := by rw [hpath, dropSlash, if_pos rfl]
      rw [candidates, hdrop, mem_splits] at hmem
      refine ⟨fun _ => ⟨s, info, dir, hname, hinfo, htranslated, ?_, hmem.2, hread, ?_⟩, ?_⟩
      · rw [List.cons_append, hmem.1, hpath]
      · intro s' rest hfront hlen
        rw [hpath, List.cons_append, List.cons.injEq] at hfront
        refine hshorter (s', '/' :: rest) ?_ hlen
        rw [candidates, hdrop, mem_splits]
        exact ⟨hfront.2, Or.inr rfl⟩
      · intro hnone
        rw [script_eq_none_iff.mpr hnone] at hscript
        exact absurd hscript (by simp)

/-- A request for `/a/b/c`. -/
def deepRequest : Request Http.reference where
  method := "GET".toList
  uri := ⟨"/a/b/c".toList, none⟩
  version := .http11
  headers := Http.reference.emptyMap
  body := []

/-- A file system in which `a` is a directory and `a/b` the only readable file. -/
def deepFs : FileSystem := fun path =>
  if path = "a/b".toList then .ok [0]
  else if path = "a".toList then .readErr [] ⟨.os 21, "Is a directory"⟩
  else .openErr ⟨.os 2, "No such file or directory"⟩

/-- The script of that request is `/a/b`, and `/c` is left over. -/
theorem script_vars_deep :
    ∃ vs s info dir, vars Http.reference (.path "/srv".toList) deepRequest
        ⟨[0], some "a/b".toList, some "/c".toList⟩ = .ok vs ∧
      Grouping.valuesOf "SCRIPT_NAME".toList vs = ['/' :: s] ∧
      Grouping.valuesOf "PATH_INFO".toList vs = [info] ∧
      Grouping.valuesOf "PATH_TRANSLATED".toList vs = [dir ++ info] ∧
      ('/' :: s) ++ info = "/a/b/c".toList ∧ readable deepFs s = true := by
  obtain ⟨s, info, dir, hname, hinfo, htranslated, hsplit, -, hread, -⟩ :=
    (script_vars Http.reference deepFs (.path "/srv".toList) deepRequest "a/b/c".toList rfl
      ⟨[0], some "a/b".toList, some "/c".toList⟩ (by decide) _ rfl).1 rfl
  exact ⟨_, s, info, dir, rfl, hname, hinfo, htranslated, hsplit, hread⟩

end Cgi

end Wgi
