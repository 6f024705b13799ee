import Wgi.CgiVars
import Wgi.Server

/-!
# Two CGI Guests, from the Request to the Reply

`hello_world.c` greets the client under `/hello` and `/goodbye`, and the markdown example turns
the body of the request into a page. Both talk to the server only through their environment and
their streams, so that they can be followed from the headers of a request through the variables,
the guest and the parser of `CgiResponse` to the reply.

What a C or Rust runtime does with buffers is left open: the results are for every guest that is
equivalent to the program text, so that it may cut and order its writes as it likes.

## Main results

* `getenv_method`, `getenv_pathInfo`, `getenv_header`: what a guest finds in its environment.
* `helloWorld_served`: the reply and the log of every request for `hello_world`.
* `markdown_served`: the reply to every request for the markdown example.
-/

namespace Wgi

/-! ### The environment of a guest -/

section Getenv

/-- `getenv`, and `env::var` for the value it finds. -/
def getenv (vars : Vars) (name : Str) : Option Str :=
  (Grouping.valuesOf name vars).head?

variable {http : Http}

/-- The text of the first header that becomes the variable `key`. -/
def headerText (http : Http) (headers : http.HeaderMap) (key : Str) : Option Str :=
  ((http.iter headers).find? fun entry => Cgi.headerKey http entry.1 = key).bind
    fun entry => http.toStr entry.2

/-- The first variable of a name among those of the header entries. -/
theorem head_valuesOf_derived {entries : List (http.HeaderName × http.HeaderValue)}
    {derived : Vars} (h : Cgi.HeaderVars http entries derived) (key : Str) :
    (Grouping.valuesOf key derived).head? =
      (entries.find? fun entry => Cgi.headerKey http entry.1 = key).bind
        fun entry => http.toStr entry.2 := by
  induction h with
  | nil => rfl
  | @cons entry var entries derived hvar _ ih =>
      rw [Grouping.valuesOf_cons, hvar.2, List.find?_cons]
      by_cases hkey : Cgi.headerKey http entry.1 = key
      · simp [hkey, hvar.1]
      · simp [hkey, ih]

variable {cwd : CurrentDir} {request : Request http} {search : Cgi.Search} {vs : Vars}

/-- `REQUEST_METHOD` is the method of the request. -/
theorem getenv_method (h : Cgi.vars http cwd request search = .ok vs) :
    getenv vs "REQUEST_METHOD".toList = some request.method := by
  obtain ⟨server, path, derived, hserver, -, -, rfl, -⟩ := Cgi.vars_split h
  rw [Cgi.serverVars] at hserver
  cases hp : serverProtocol request.version with
  | none => simp [hp] at hserver
  | some protocol =>
      rw [hp] at hserver
      obtain rfl := Except.ok.inj hserver
      rfl

/-- `PATH_INFO` is what the search found behind the script. -/
theorem getenv_pathInfo (h : Cgi.vars http cwd request search = .ok vs) :
    getenv vs "PATH_INFO".toList = search.pathInfo := by
  rw [getenv, (Cgi.valuesOf_pathInfo h).1]
  cases search.pathInfo <;> rfl

/-- A variable that is not one of the server's own is the first header that is called for it. -/
theorem getenv_header (h : Cgi.vars http cwd request search = .ok vs) {key : Str}
    (hkey : key ∉ Cgi.ownKeys) : getenv vs key = headerText http request.headers key := by
  obtain ⟨server, path, derived, -, -, hderived, rfl, hown⟩ := Cgi.vars_split h
  have hnone : Grouping.valuesOf key (server ++ path ++ Cgi.scriptVars search.scriptName) = [] := by
    refine Grouping.valuesOf_eq_nil_iff.mpr fun var hvar heq => hkey ?_
    rw [← heq]
    exact hown var hvar
  rw [getenv, Grouping.valuesOf_append, hnone, List.nil_append, headerText]
  exact head_valuesOf_derived hderived key

end Getenv

/-! ### Requests for a known program -/

section Runs

variable {http : Http} {Hash Module : Type}

/-- The requests that `cgi::handler` gets ready for a guest. All others make it panic. -/
structure Accepted (a : Arrival http) : Prop where
  version : a.request.version ≠ .other
  /-- The current directory is needed once there is a script. -/
  cwd : (script a.fs a.request.uri.path).isSome → ∃ dir, a.cwd = .path dir
  headers : ∀ entry ∈ http.iter a.request.headers, ∀ x ∈ http.valueBytes entry.2,
    isVisibleByte x = true
  /-- The first frame of the body arrives without an error. -/
  body : ∀ err, a.request.body.head? ≠ some (.error err)

theorem exists_prepare_iff_accepted {a : Arrival http} :
    (∃ call, Cgi.prepare http a.fs a.cwd a.request = .ok call) ↔ Accepted a := by
  simp only [Cgi.exists_prepare_iff, http.toStr_isSome_iff]
  exact ⟨fun ⟨version, cwd, headers, body⟩ => ⟨version, cwd, headers, body⟩,
    fun h => ⟨h.version, h.cwd, h.headers, h.body⟩⟩

/-- A request runs the program `main`, up to the buffering of its streams. -/
def Runs (B : Backend http Hash Module) (a : Arrival http) (main : Vars → Process UInt8) : Prop :=
  ∀ call, Cgi.prepare http a.fs a.cwd a.request = .ok call →
    ∃ module guest, B.compiler.fromBinary call.wasm = .ok module ∧
      B.cgi.start module call.vars = .ok guest ∧ guest.Equiv (main call.vars)

/-- A request that is not accepted is not run: the connection is closed, and nothing is logged. -/
theorem servedAlone_of_not_accepted {B : Backend http Hash Module} {a : Arrival http}
    (hrouted : routed a.request.uri.path = true) (h : ¬ Accepted a) :
    ∃ panic, servedAlone B .cgi a = ⟨.closed panic, [], []⟩ := by
  rw [servedAlone, serve, if_pos hrouted, serveCgi]
  cases hcall : Cgi.prepare http a.fs a.cwd a.request with
  | ok call => exact absurd (exists_prepare_iff_accepted.mp ⟨call, hcall⟩) h
  | error panic => exact ⟨panic, rfl⟩

/-- A request for a known program is served from the behaviour of the program text. -/
theorem servedAlone_of_runs {B : Backend http Hash Module} {a : Arrival http} {call : Cgi.Call}
    {main : Vars → Process UInt8} (hrouted : routed a.request.uri.path = true)
    (hcall : Cgi.prepare http a.fs a.cwd a.request = .ok call) (hruns : Runs B a main) :
    servedAlone B .cgi a =
      ⟨.ofRun (answer http B.unicode ((main call.vars).behave call.input)), [],
        LogForwarder.messagesOf ((main call.vars).behave call.input).err⟩ := by
  obtain ⟨module, guest, hbinary, hguest, hequiv⟩ := hruns call hcall
  have hmodule : (App.module B.compiler .none call.wasm fun _ => none).result = .ok module := by
    rw [module_alone, hbinary]
    rfl
  rw [servedAlone, serve, if_pos hrouted, serveCgi]
  simp only [hcall, runCgi_eq hmodule hguest, hequiv.behave_eq]

/-- A server whose modules all run `main`, when the script is a module. -/
theorem runs_running (main : Vars → Process UInt8) (lambda : Bytes × LambdaGuest)
    {a : Arrival Http.reference} (h : (scanPath a.fs a.request.uri.path).wasm = emptyModule) :
    Runs (.running main lambda) a main := by
  intro call hcall
  refine ⟨emptyModule, main call.vars, ?_, rfl, .refl _⟩
  rw [Cgi.wasm_of_prepare hcall, h]
  rfl

end Runs

/-! ### `hello_world.c` -/

namespace HelloWorld

/-- A text that is printed as it stands. -/
def printed (text : Str) : Process UInt8 :=
  .write (Utf8.encode text) .done

/-- `main`, behind the comparison of the method. -/
def greet (vars : Vars) (greeting : Str) : Process UInt8 :=
  let userAgent := (getenv vars "HTTP_USER_AGENT".toList).getD "User".toList
  printed (greeting ++ ' ' :: userAgent ++ "!\n".toList)

/-- `main`. A variable that is not there is a null pointer: `fprintf` prints `(null)` for it, and
`strcmp` reads the string at the address zero, which `null` is. -/
def main (null : Str) (vars : Vars) : Process UInt8 :=
  let method := getenv vars "REQUEST_METHOD".toList
  let path := getenv vars "PATH_INFO".toList
  .log (Utf8.encode ("method: ".toList ++ method.getD "(null)".toList ++ "\n".toList)) <|
    if method.getD null ≠ "GET".toList then printed "Status: 405\n\nMethod Not Allowed\n".toList
    else if path.getD null = "/hello".toList then greet vars "Hello".toList
    else if path.getD null = "/goodbye".toList then greet vars "Goodbye".toList
    else printed "Status: 404\n\nNot Found\n".toList

variable {http : Http}

/-- The response that a client is owed. -/
def response (http : Http) (request : Request http) (info : Str) : CgiResponse http :=
  let userAgent := (headerText http request.headers "HTTP_USER_AGENT".toList).getD "User".toList
  if request.method ≠ "GET".toList then
    ⟨statusOf 405 (by decide), http.emptyMap, "Method Not Allowed\n".toList⟩
  else if info = "/hello".toList then
    ⟨http.statusOk, http.emptyMap, "Hello ".toList ++ userAgent ++ "!\n".toList⟩
  else if info = "/goodbye".toList then
    ⟨http.statusOk, http.emptyMap, "Goodbye ".toList ++ userAgent ++ "!\n".toList⟩
  else ⟨statusOf 404 (by decide), http.emptyMap, "Not Found\n".toList⟩

/-- A status line, an empty line and a text. -/
theorem fromStr_status (unicode : Text.Unicode) (code : UInt16)
    (hcode : 100 ≤ code.toNat ∧ code.toNat ≤ 999) (body : Str) :
    CgiResponse.fromStr http unicode (payload ([.status code hcode] : List (CgiField http)) body) =
      .ok ⟨statusOf code hcode, http.emptyMap, body⟩ := by
  rw [fromStr_payload unicode (List.cons_ne_nil _ _)]
  rfl

/-- A single line is all body. -/
theorem fromStr_line (http : Http) (unicode : Text.Unicode) {line : Str} (h : '\n' ∉ line) :
    CgiResponse.fromStr http unicode (line ++ "\n".toList) =
      .ok ⟨http.statusOk, http.emptyMap, line ++ "\n".toList⟩ := by
  have hsplit : Text.splitOnceList ['\n', '\n'] (line ++ "\n".toList) = none := by
    have hline := Text.splitOnceList_line h []
    exact hline
  rw [CgiResponse.fromStr, hsplit]
  rfl

/-- The text of a header holds no line feed. -/
theorem notMem_headerText {headers : http.HeaderMap} {key text : Str}
    (h : headerText http headers key = some text) : '\n' ∉ text := by
  obtain ⟨entry, -, htext⟩ := Option.bind_eq_some_iff.mp h
  obtain ⟨hbytes, hvisible⟩ := http.toStr_eq_some_iff.mp htext
  rw [hbytes] at hvisible
  intro hmem
  have hfeed : (10 : UInt8) ∈ String.utf8EncodeChar '\n' := by decide
  exact absurd (hvisible 10 (List.mem_flatMap.mpr ⟨_, hmem, hfeed⟩)) (by decide)

/-- A greeting is all body. -/
theorem fromStr_greeting (unicode : Text.Unicode) (headers : http.HeaderMap) {greeting : Str}
    (h : '\n' ∉ greeting) (userAgent : Str)
    (huser : userAgent = (headerText http headers "HTTP_USER_AGENT".toList).getD "User".toList) :
    CgiResponse.fromStr http unicode (greeting ++ ' ' :: userAgent ++ "!\n".toList) =
      .ok ⟨http.statusOk, http.emptyMap, greeting ++ ' ' :: userAgent ++ "!\n".toList⟩ := by
  have hagent : '\n' ∉ userAgent := by
    rw [huser]
    cases htext : headerText http headers "HTTP_USER_AGENT".toList with
    | none => decide
    | some text => exact notMem_headerText htext
  have hline : '\n' ∉ greeting ++ ' ' :: userAgent ++ ['!'] := by
    simp [h, hagent]
  have hfrom := fromStr_line http unicode hline
  simpa [List.append_assoc] using hfrom

/-- A text without a line feed has no byte that is one. -/
theorem newline_notMem_encode {s : Str} (h : '\n' ∉ s) : newline ∉ Utf8.encode s := by
  intro hmem
  obtain ⟨c, hc, hbyte⟩ := List.mem_flatMap.mp hmem
  obtain rfl := Utf8.byte_of_mem_encodeChar (a := '\n') (by decide) hbyte
  exact h hc

/-- What `hello_world` prints for a request. -/
def text (http : Http) (request : Request http) (info : Str) : Str :=
  let userAgent := (headerText http request.headers "HTTP_USER_AGENT".toList).getD "User".toList
  if request.method ≠ "GET".toList then "Status: 405\n\nMethod Not Allowed\n".toList
  else if info = "/hello".toList then "Hello".toList ++ ' ' :: userAgent ++ "!\n".toList
  else if info = "/goodbye".toList then "Goodbye".toList ++ ' ' :: userAgent ++ "!\n".toList
  else "Status: 404\n\nNot Found\n".toList

/-- The printed text parses to the response. -/
theorem fromStr_text (unicode : Text.Unicode) (request : Request http) (info : Str) :
    CgiResponse.fromStr http unicode (text http request info) =
      .ok (response http request info) := by
  simp only [text, response]
  split_ifs with hget hhello hbye
  · exact fromStr_status unicode 405 (by decide) _
  · exact fromStr_greeting unicode request.headers (by decide) _ rfl
  · exact fromStr_greeting unicode request.headers (by decide) _ rfl
  · exact fromStr_status unicode 404 (by decide) _

/-- What `main` does in the environment of a request. -/
theorem main_eq {cwd : CurrentDir} {request : Request http} {search : Cgi.Search} {vs : Vars}
    (h : Cgi.vars http cwd request search = .ok vs) {info : Str}
    (hinfo : search.pathInfo = some info) (null : Str) :
    main null vs = .log (Utf8.encode ("method: ".toList ++ request.method ++ "\n".toList))
      (printed (text http request info)) := by
  have hagent := getenv_header h (show "HTTP_USER_AGENT".toList ∉ Cgi.ownKeys by decide)
  simp only [main, getenv_method h, getenv_pathInfo h, hinfo, greet, hagent, text,
    Option.getD_some]
  split_ifs <;> rfl

/-- **`hello_world`, from the request to the reply**: a request other than `GET` gets a 405, one
for `/hello` or `/goodbye` the greeting with its first user agent, and any other one a 404. The
log has the method. A request that is not accepted is closed without a log. -/
theorem helloWorld_served {Hash Module : Type} (B : Backend http Hash Module)
    (a : Arrival http) (name info null : Str)
    (hrouted : routed a.request.uri.path = true) (hmethod : isToken a.request.method = true)
    (hscript : script a.fs a.request.uri.path = some (name, info))
    (hruns : Runs B a (main null)) :
    (Accepted a → servedAlone B .cgi a = ⟨.cgi (response http a.request info), [],
      [Utf8.encode ("method: ".toList ++ a.request.method)]⟩) ∧
    (¬ Accepted a → ∃ panic, servedAlone B .cgi a = ⟨.closed panic, [], []⟩) := by
  refine ⟨fun haccepted => ?_, servedAlone_of_not_accepted hrouted⟩
  obtain ⟨call, hcall⟩ := exists_prepare_iff_accepted.mpr haccepted
  obtain ⟨search, hsearch, -, hvars, -⟩ := Cgi.prepare_eq_ok_iff.mp hcall
  have hinfo : search.pathInfo = some info := by
    rw [Cgi.search_eq, Except.ok.injEq] at hsearch
    rw [← hsearch, scanPath_found, hscript]
    rfl
  have hline : newline ∉ Utf8.encode ("method: ".toList ++ a.request.method) := by
    refine newline_notMem_encode fun hmem => ?_
    rcases List.mem_append.mp hmem with h | h
    · exact absurd h (by decide)
    · exact absurd (isTokenChar_of_mem hmethod h) (by decide)
  have hlog : LogForwarder.messagesOf
      (Utf8.encode ("method: ".toList ++ a.request.method ++ "\n".toList)) =
        [Utf8.encode ("method: ".toList ++ a.request.method)] := by
    rw [Utf8.encode_append _ "\n".toList]
    exact LogForwarder.messagesOf_line hline []
  rw [servedAlone_of_runs hrouted hcall hruns, main_eq hvars hinfo]
  simp only [printed, Process.behave, answer, if_true, List.append_nil, Utf8.decode_encode,
    readResponse, fromStr_text, hlog]
  rfl

/-- A request for `/a/hello` from a client that gives its name twice. -/
def curl : Arrival Http.reference :=
  { arrivalAt "/a/hello".toList with
    request := { plainRequest "/a/hello".toList with
      headers := [(⟨"user-agent".toList, by decide⟩, ⟨Utf8.encode "curl".toList, rfl⟩),
        (⟨"user-agent".toList, by decide⟩, ⟨Utf8.encode "wget".toList, rfl⟩)] } }

theorem curl_accepted : Accepted curl :=
  exists_prepare_iff_accepted.mp ⟨_, rfl⟩

theorem isToken_userAgent : isToken "user-agent".toList = true ∧
    Text.toAsciiLowercase "user-agent".toList = "user-agent".toList := by decide

theorem isValueByte_latin : ([0xE9] : Bytes).all isValueByte = true := rfl

/-- The same request with a name that is not text. -/
def latin : Arrival Http.reference :=
  { curl with request := { curl.request with
      headers := [(⟨"user-agent".toList, isToken_userAgent⟩, ⟨[0xE9], isValueByte_latin⟩)] } }

theorem latin_not_accepted : ¬ Accepted latin := by
  intro h
  exact absurd (h.headers _ List.mem_cons_self 0xE9 List.mem_cons_self) (by decide)

/-- The first one is greeted by its first name, and the second one is not answered. -/
theorem helloWorld_served_curl :
    servedAlone (.running (main []) ([], .done)) .cgi curl =
        ⟨.cgi ⟨Http.reference.statusOk, Http.reference.emptyMap, "Hello curl!\n".toList⟩, [],
          [Utf8.encode "method: GET".toList]⟩ ∧
      ∃ panic, servedAlone (.running (main []) ([], .done)) .cgi latin =
        ⟨.closed panic, [], []⟩ :=
  ⟨(helloWorld_served (.running (main []) ([], .done)) curl "a".toList "/hello".toList [] rfl
      (by decide) (by decide) (runs_running _ _ rfl)).1 curl_accepted,
    (helloWorld_served (.running (main []) ([], .done)) latin "a".toList "/hello".toList [] rfl
      (by decide) (by decide) (runs_running _ _ rfl)).2 latin_not_accepted⟩

end HelloWorld

/-! ### The markdown example -/

namespace Markdown

/-- Where `_start` panics: in one of its calls of `unwrap`, or in an allocation. -/
inductive Panics where
  | parse
  | alloc
  | readExact
  | fromUtf8

/-- What the example takes from elsewhere: `comrak::markdown_to_html` with its default options,
whether there is room for a buffer of the given size, and the text that a panic writes to the
standard error. -/
structure Crates where
  markdownToHtml : Str → Str
  room : ℕ → Bool
  panicText : Panics → Bytes

/-- `str::parse::<usize>`, with the 32 bits of `wasm32`. -/
def parseUsize (s : Str) : Option ℕ :=
  let digits := match s with
    | '+' :: digits => digits
    | digits => digits
  if digits.isEmpty || !digits.all Char.isDigit then none
  else
    let n := digits.foldl (fun n c => 10 * n + (c.toNat - '0'.toNat)) 0
    if n < UInt32.size then some n else none

/-- The page around the converted text. -/
def page (html : Str) : Str :=
  "<!doctype html>\n<html lang=\"en\">\n<head>\n<meta charset=\"utf-8\">\n".toList ++
    "</head>\n<body>\n".toList ++ html ++ "\n</body>\n".toList

variable (crates : Crates)

/-- A panic: its text, and a trap. -/
def panicked (site : Panics) : Process UInt8 :=
  .log (crates.panicText site) .trap

/-- The lines and the page that `_start` prints. Every piece ends with a line feed, so that the
line buffer of the standard output keeps nothing back. -/
def printPage (output : Str) : Process UInt8 :=
  .write (Utf8.encode "Content-Type: text/html\n".toList) <|
  .write (Utf8.encode ("Content-Length: ".toList ++
    Nat.toDigits 10 (Utf8.encode output).length ++ "\n".toList)) <|
  .write (Utf8.encode "\n".toList) <|
  .write (Utf8.encode output) .done

/-- `_start`, behind the length of the body. -/
def convert (length : ℕ) : Process UInt8 :=
  if length ≠ 0 then
    if crates.room length then
      .readExact length (panicked crates .readExact) fun buf =>
        match Utf8.decode buf with
        | none => panicked crates .fromUtf8
        | some input => printPage (page (crates.markdownToHtml input))
    else panicked crates .alloc
  else .done

/-- `_start`. -/
def start (vars : Vars) : Process UInt8 :=
  match getenv vars "CONTENT_LENGTH".toList with
  | some var =>
      match parseUsize var with
      | none => panicked crates .parse
      | some length => convert crates length
  | none => convert crates 0

/-! #### What a client gets -/

variable {http : Http} {crates}

/-- The two header lines of a page are headers that the `http` crate accepts. -/
structure PageHeaders (http : Http) where
  contentType : CgiHeader http
  contentLength : ℕ → CgiHeader http
  contentType_name : contentType.name = "Content-Type".toList
  contentType_value : contentType.value = "text/html".toList
  contentLength_name : ∀ n, (contentLength n).name = "Content-Length".toList
  contentLength_value : ∀ n, (contentLength n).value = Nat.toDigits 10 n

/-- The response for a page. -/
def PageHeaders.response (H : PageHeaders http) (output : Str) : CgiResponse http :=
  let length := H.contentLength (Utf8.encode output).length
  ⟨http.statusOk, http.insert (http.insert http.emptyMap H.contentType.headerName
    H.contentType.headerValue) length.headerName length.headerValue, output⟩

/-- A printed page is parsed to its response. -/
theorem answer_printPage (H : PageHeaders http) (unicode : Text.Unicode) (output : Str)
    (input : Bytes) :
    answer http unicode ((printPage output).behave input) = .ok (.ok (H.response output)) := by
  have htype : (CgiField.header H.contentType).line = "Content-Type: text/html".toList := by
    have hline : "Content-Type: text/html".toList =
        "Content-Type".toList ++ ':' :: ' ' :: "text/html".toList := by decide
    rw [hline, ← H.contentType_name, ← H.contentType_value]
    rfl
  have hlength : (CgiField.header (H.contentLength (Utf8.encode output).length)).line =
      "Content-Length: ".toList ++ Nat.toDigits 10 (Utf8.encode output).length := by
    have hline : "Content-Length: ".toList = "Content-Length".toList ++ [':', ' '] := by decide
    rw [hline, List.append_assoc, ← H.contentLength_name, ← H.contentLength_value]
    rfl
  have hout : ((printPage output).behave input).out = Utf8.encode (payload
      [.header H.contentType, .header (H.contentLength (Utf8.encode output).length)] output) := by
    simp only [printPage, Process.behave, payload, List.map_cons, List.map_nil, htype, hlength,
      ← Utf8.encode_append, List.append_nil, Text.block, List.flatMap_cons, List.flatMap_nil]
    simp
  have hended : ((printPage output).behave input).ended = true := rfl
  rw [answer, hended, if_pos rfl, hout, Utf8.decode_encode, readResponse,
    fromStr_payload unicode (List.cons_ne_nil _ _)]
  rfl

/-- A body of no bytes: nothing is printed, and the response has neither headers nor a body. -/
theorem answer_convert_zero (unicode : Text.Unicode) (input : Bytes) :
    answer http unicode ((convert crates 0).behave input) =
      .ok (.ok ⟨http.statusOk, http.emptyMap, []⟩) := by
  have hdecode : Utf8.decode [] = some [] := Utf8.decode_encode []
  have hout : (convert crates 0).behave input = ⟨true, input, [], []⟩ := rfl
  rw [hout, answer, if_pos rfl, hdecode]
  rfl

/-- The conversion, from what there is to read. -/
theorem answer_convert (H : PageHeaders http) (unicode : Text.Unicode) {length : ℕ}
    (hlength : length ≠ 0) (input : Bytes) :
    answer http unicode ((convert crates length).behave input) =
      if crates.room length ∧ length ≤ input.length then
        match Utf8.decode (input.take length) with
        | none => .ok (.error .trap)
        | some text => .ok (.ok (H.response (page (crates.markdownToHtml text))))
      else .ok (.error .trap) := by
  rw [convert, if_pos hlength]
  by_cases hroom : crates.room length = true
  · rw [if_pos hroom, Process.behave_readExact]
    simp only [hroom, true_and]
    split_ifs with hle
    · cases Utf8.decode (input.take length) with
      | none => rfl
      | some text => exact answer_printPage H unicode _ _
    · rfl
  · rw [if_neg hroom, if_neg fun h => hroom h.1]
    rfl

/-- The two names are different. -/
theorem PageHeaders.names_ne (H : PageHeaders http) (n : ℕ) :
    H.contentType.headerName ≠ (H.contentLength n).headerName := by
  intro h
  have hiff := http.nameFromStr_eq_iff H.contentType.name_eq (H.contentLength n).name_eq
  rw [H.contentType_name, H.contentLength_name] at hiff
  exact absurd (hiff.mp h) (by decide)

/-- The headers of a page. -/
theorem PageHeaders.getAll_response (H : PageHeaders http) (output : Str) :
    http.getAll (H.response output).headers H.contentType.headerName =
        [H.contentType.headerValue] ∧
      http.getAll (H.response output).headers
          (H.contentLength (Utf8.encode output).length).headerName =
        [(H.contentLength (Utf8.encode output).length).headerValue] := by
  have hne := H.names_ne (Utf8.encode output).length
  rw [PageHeaders.response]
  simp only [http.getAll_insert, if_neg hne, if_true, and_self]

/-- The first of several chunks is as long as all of them together exactly when the others are
empty. -/
theorem length_flatten_le_iff (chunks : List Bytes) :
    chunks.flatten.length ≤ (chunks.head?.getD []).length ↔ ∀ chunk ∈ chunks.tail, chunk = [] := by
  rw [← head_eq_flatten_iff]
  constructor
  · intro hle
    rcases chunks with - | ⟨chunk, chunks⟩
    · rfl
    · rw [List.flatten_cons, List.length_append, List.head?_cons, Option.getD_some] at hle
      have hnil : chunks.flatten = [] := List.eq_nil_of_length_eq_zero (by omega)
      rw [List.flatten_cons, hnil, List.append_nil]
      rfl
  · intro h
    rw [h]

/-- **The markdown example, from the request to the reply**: let the body of a request arrive in
any chunks and its `Content-Length` be their length. An empty body gets an empty response. If all
of the body is in the first chunk and is UTF-8, and there is room for it, the client gets the page
of the text, with its length in bytes as the `Content-Length`. In every other case the guest
panics, and the connection is closed. So it is for a request that is not accepted, without a run
of the guest. -/
theorem markdown_served {Hash Module : Type} (H : PageHeaders http)
    (crates : Crates) (B : Backend http Hash Module) (a : Arrival http)
    (chunks : List Bytes) (var : Str) (hrouted : routed a.request.uri.path = true)
    (hbody : a.request.body = chunks.map .ok)
    (hvar : headerText http a.request.headers "CONTENT_LENGTH".toList = some var)
    (hlength : parseUsize var = some chunks.flatten.length)
    (hruns : Runs B a (start crates)) :
    (Accepted a →
      (chunks.flatten = [] →
        (servedAlone B .cgi a).reply = .cgi ⟨http.statusOk, http.emptyMap, []⟩) ∧
      (∀ text, chunks.flatten ≠ [] → crates.room chunks.flatten.length = true →
        (∀ chunk ∈ chunks.tail, chunk = []) → Utf8.decode chunks.flatten = some text →
        ∃ response, (servedAlone B .cgi a).reply = .cgi response ∧
          response.status = http.statusOk ∧
          response.body = page (crates.markdownToHtml text) ∧
          http.getAll response.headers H.contentType.headerName = [H.contentType.headerValue] ∧
          let length := H.contentLength (Utf8.encode response.body).length
          http.getAll response.headers length.headerName = [length.headerValue]) ∧
      (chunks.flatten ≠ [] → crates.room chunks.flatten.length = false ∨
        (∃ chunk ∈ chunks.tail, chunk ≠ []) ∨ Utf8.decode chunks.flatten = none →
        (servedAlone B .cgi a).reply = .closed (.unwrap .guestRun))) ∧
    (¬ Accepted a → ∃ panic, servedAlone B .cgi a = ⟨.closed panic, [], []⟩) := by
  refine ⟨fun haccepted => ?_, servedAlone_of_not_accepted hrouted⟩
  obtain ⟨call, hcall⟩ := exists_prepare_iff_accepted.mpr haccepted
  obtain ⟨search, -, -, hvars, hread⟩ := Cgi.prepare_eq_ok_iff.mp hcall
  have hinput : call.input = chunks.head?.getD [] := by
    rw [hbody, readBody_chunks] at hread
    exact (Except.ok.inj hread).symm
  have hstart : start crates call.vars = convert crates chunks.flatten.length := by
    have hkey := getenv_header hvars (show "CONTENT_LENGTH".toList ∉ Cgi.ownKeys by decide)
    rw [start, hkey, hvar]
    simp only [hlength]
  have htake : (∀ chunk ∈ chunks.tail, chunk = []) →
      (chunks.head?.getD []).take chunks.flatten.length = chunks.flatten := by
    intro hfirst
    rw [(head_eq_flatten_iff chunks).mpr hfirst, List.take_length]
  rw [servedAlone_of_runs hrouted hcall hruns, hstart, hinput]
  refine ⟨fun hnil => ?_, fun text hne hroom hfirst htext => ?_, fun hne hother => ?_⟩
  · rw [hnil, List.length_nil, answer_convert_zero]
    rfl
  · have hpos : chunks.flatten.length ≠ 0 := fun h => hne (List.eq_nil_of_length_eq_zero h)
    rw [answer_convert H B.unicode hpos,
      if_pos ⟨hroom, (length_flatten_le_iff chunks).mpr hfirst⟩, htake hfirst, htext]
    exact ⟨H.response (page (crates.markdownToHtml text)), rfl, rfl, rfl,
      H.getAll_response (page (crates.markdownToHtml text))⟩
  · have hpos : chunks.flatten.length ≠ 0 := fun h => hne (List.eq_nil_of_length_eq_zero h)
    rw [answer_convert H B.unicode hpos]
    rcases hother with hroom | ⟨chunk, hmem, hchunk⟩ | hnone
    · rw [if_neg fun h => absurd h.1 (by rw [hroom]; exact Bool.false_ne_true)]
      rfl
    · rw [if_neg fun h => hchunk ((length_flatten_le_iff chunks).mp h.2 chunk hmem)]
      rfl
    · split_ifs with h
      · rw [htake ((length_flatten_le_iff chunks).mp h.2), hnone]
        rfl
      · rfl

/-- The bytes of a number are value bytes. -/
theorem isValueByte_toDigits (n : ℕ) :
    (Utf8.encode (Nat.toDigits 10 n)).all isValueByte = true := by
  have hdigit : ∀ c ∈ Nat.toDigits 10 n, 48 ≤ c.toNat ∧ c.toNat ≤ 57 := by
    intro c hc
    have h := Nat.isDigit_of_mem_toDigits (by omega) (by omega) hc
    simp only [Char.isDigit, Bool.and_eq_true, decide_eq_true_eq, UInt32.le_iff_toNat_le,
      ge_iff_le] at h
    exact h
  rw [List.all_eq_true,
    Utf8.encode_ascii fun c hc => Nat.lt_of_le_of_lt (hdigit c hc).2 (by decide)]
  intro x hx
  obtain ⟨c, hc, rfl⟩ := List.mem_map.mp hx
  obtain ⟨hlo, hhi⟩ := hdigit c hc
  have hnat : (UInt8.ofNat c.toNat).toNat = c.toNat := by
    rw [UInt8.toNat_ofNat', Nat.mod_eq_of_lt (by omega)]
  simp only [isValueByte, hnat, Bool.or_eq_true, Bool.and_eq_true, decide_eq_true_eq,
    bne_iff_ne, ne_eq]
  omega

/-- The name `content-length` in lower case. -/
theorem isToken_contentLength : isToken "content-length".toList = true ∧
    Text.toAsciiLowercase "content-length".toList = "content-length".toList := by
  decide

/-- The name `content-type` in lower case. -/
theorem isToken_contentType : isToken "content-type".toList = true ∧
    Text.toAsciiLowercase "content-type".toList = "content-type".toList := by
  decide

theorem isValueByte_textHtml : (Utf8.encode "text/html".toList).all isValueByte = true := rfl

/-- The header `Content-Type` of a page. -/
theorem contentType_accepted :
    Http.reference.nameFromStr "Content-Type".toList =
        some ⟨"content-type".toList, isToken_contentType⟩ ∧
      Http.reference.valueFromStr "text/html".toList =
        some ⟨Utf8.encode "text/html".toList, isValueByte_textHtml⟩ ∧
      Text.toAsciiLowercase "Content-Type".toList ≠ "status".toList ∧
      ∀ c, "text/html".toList.head? = some c → Text.isWhitespace c = false := by
  refine ⟨by decide, rfl, by decide, ?_⟩
  rintro c h
  obtain rfl : 't' = c := Option.some.inj h
  rfl

/-- The header `Content-Length` of a page. -/
theorem contentLength_accepted (n : ℕ) :
    Http.reference.nameFromStr "Content-Length".toList =
        some ⟨"content-length".toList, isToken_contentLength⟩ ∧
      Http.reference.valueFromStr (Nat.toDigits 10 n) =
        some ⟨Utf8.encode (Nat.toDigits 10 n), isValueByte_toDigits n⟩ ∧
      Text.toAsciiLowercase "Content-Length".toList ≠ "status".toList ∧
      ∀ c, (Nat.toDigits 10 n).head? = some c → Text.isWhitespace c = false :=
  ⟨by decide, dif_pos (isValueByte_toDigits n), by decide, head_toDigits n⟩

/-- The two headers of a page. -/
def PageHeaders.reference : PageHeaders Http.reference where
  contentType :=
    { name := "Content-Type".toList
      value := "text/html".toList
      headerName := ⟨"content-type".toList, isToken_contentType⟩
      headerValue := ⟨Utf8.encode "text/html".toList, isValueByte_textHtml⟩
      name_eq := contentType_accepted.1
      value_eq := contentType_accepted.2.1
      not_status := contentType_accepted.2.2.1
      no_space := contentType_accepted.2.2.2 }
  contentLength n :=
    { name := "Content-Length".toList
      value := Nat.toDigits 10 n
      headerName := ⟨"content-length".toList, isToken_contentLength⟩
      headerValue := ⟨Utf8.encode (Nat.toDigits 10 n), isValueByte_toDigits n⟩
      name_eq := (contentLength_accepted n).1
      value_eq := (contentLength_accepted n).2.1
      not_status := (contentLength_accepted n).2.2.1
      no_space := (contentLength_accepted n).2.2.2 }
  contentType_name := rfl
  contentType_value := rfl
  contentLength_name _ := rfl
  contentLength_value _ := rfl

/-- Text in paragraphs, little room, and panics without a text. -/
def Crates.sample : Crates where
  markdownToHtml text := "<p>".toList ++ text ++ "</p>\n".toList
  room length := length < 65536
  panicText _ := []

/-- A body in chunks, and the text of its `Content-Length`. -/
def posted (chunks : List Bytes) (length : Str) (h : (Utf8.encode length).all isValueByte = true) :
    Arrival Http.reference :=
  { arrivalAt "/a".toList with
    request := { plainRequest "/a".toList with
      method := "POST".toList
      headers := [(⟨"content-length".toList, isToken_contentLength⟩, ⟨Utf8.encode length, h⟩)]
      body := chunks.map .ok } }

theorem posted_accepted (chunks : List Bytes) {length : Str}
    (h : (Utf8.encode length).all isValueByte = true)
    (hvisible : ∀ x ∈ Utf8.encode length, isVisibleByte x = true) :
    Accepted (posted chunks length h) where
  version h := by cases h
  cwd _ := ⟨_, rfl⟩
  headers entry hentry x hx := by
    obtain rfl := List.mem_singleton.mp hentry
    exact hvisible x hx
  body err herr := by cases chunks <;> simp [posted] at herr

/-- A body in one chunk gives a page, the same body in two chunks gives nothing, and no body
gives an empty response. -/
theorem markdown_served_hi :
    (∃ response, (servedAlone (.running (start .sample) ([], .done)) .cgi
        (posted [[72, 105]] "2".toList rfl)).reply = .cgi response ∧
      response.status = Http.reference.statusOk ∧
      response.body = page "<p>Hi</p>\n".toList) ∧
    (servedAlone (.running (start .sample) ([], .done)) .cgi
      (posted [[72], [105]] "2".toList rfl)).reply = .closed (.unwrap .guestRun) ∧
    (servedAlone (.running (start .sample) ([], .done)) .cgi
      (posted [] "0".toList rfl)).reply =
        .cgi ⟨Http.reference.statusOk, Http.reference.emptyMap, []⟩ := by
  obtain ⟨-, hpage, -⟩ := (markdown_served PageHeaders.reference .sample
    (.running (start .sample) ([], .done)) (posted [[72, 105]] "2".toList rfl) [[72, 105]]
    "2".toList rfl rfl rfl (by decide) (runs_running _ _ rfl)).1
    (posted_accepted _ rfl (by decide +kernel))
  obtain ⟨-, -, hclosed⟩ := (markdown_served PageHeaders.reference .sample
    (.running (start .sample) ([], .done)) (posted [[72], [105]] "2".toList rfl) [[72], [105]]
    "2".toList rfl rfl rfl (by decide) (runs_running _ _ rfl)).1
    (posted_accepted _ rfl (by decide +kernel))
  obtain ⟨hempty, -⟩ := (markdown_served PageHeaders.reference .sample
    (.running (start .sample) ([], .done)) (posted [] "0".toList rfl) [] "0".toList rfl rfl rfl
    (by decide) (runs_running _ _ rfl)).1 (posted_accepted _ rfl (by decide +kernel))
  obtain ⟨response, hreply, hstatus, hbody, -⟩ :=
    hpage "Hi".toList (by decide) rfl (by decide) (Utf8.decode_encode "Hi".toList)
  exact ⟨⟨response, hreply, hstatus, hbody⟩,
    hclosed (by decide) (Or.inr (Or.inl ⟨[105], by decide⟩)), hempty rfl⟩

end Markdown

end Wgi
