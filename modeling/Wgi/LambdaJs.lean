import Wgi.HeaderOrder
import Wgi.JsBootstrap
import Wgi.LambdaQuery

/-!
# The Sample Lambda

`lambda.js` logs some headers of its event, makes an HTML page of its event and sends it back. A
header of the event is an array, whose text is that of its values with commas between them, and
the text of a header that is not there is `undefined`.

## Main results

* `lambdaJs_served`: what the client gets and what is logged, in terms of the request.
-/

namespace Wgi

/-! ### Values -/

/-- The values of JavaScript that come from JSON, and `undefined`. -/
inductive JsValue where
  | undefined
  | null
  | bool (b : Bool)
  | number (n : ℤ)
  | string (s : Str)
  | array (elems : List JsValue)
  | object (props : List (Str × JsValue))

namespace JsValue

/-- A property that no prototype has, or nothing when reading it throws a `TypeError`. -/
def get : JsValue → Str → Option JsValue
  | .undefined, _ => none
  | .null, _ => none
  | .object props, key => some ((props.lookup key).getD .undefined)
  | _, _ => some .undefined

/-- `a ?? b`. -/
def coalesce : JsValue → JsValue → JsValue
  | .undefined, other => other
  | .null, other => other
  | value, _ => value

mutual

/-- The text of a value in a template. -/
def text : JsValue → Str
  | .undefined => "undefined".toList
  | .null => "null".toList
  | .bool b => if b then "true".toList else "false".toList
  | .number n => (toString n).toList
  | .string s => s
  | .array elems => [','].intercalate (elemTexts elems)
  | .object _ => "[object Object]".toList

/-- The texts of the elements of an array. -/
def elemTexts : List JsValue → List Str
  | [] => []
  | .undefined :: elems => [] :: elemTexts elems
  | .null :: elems => [] :: elemTexts elems
  | elem :: elems => elem.text :: elemTexts elems

end

/-- The object of a hash map of lists. -/
def ofMap (m : HashMap Str (List Str)) : JsValue :=
  .object (m.enumerate.map fun entry => (entry.1, .array (entry.2.map .string)))

/-- A string, or `null`. -/
def ofOption : Option Str → JsValue
  | some s => .string s
  | none => .null

/-- The object that an event is in JSON. -/
def ofEvent (event : LambdaRequest) : JsValue :=
  .object
    [("resource".toList, .string event.resource),
      ("path".toList, .string event.path),
      ("httpMethod".toList, .string event.httpMethod),
      ("headers".toList, ofMap event.headers),
      ("queryStringParameters".toList, ofMap event.queryStringParameters),
      ("pathParameters".toList, ofOption event.pathParameters),
      ("stageVariables".toList, ofOption event.stageVariables),
      ("body".toList, ofOption event.body),
      ("isBase64Encoded".toList, .bool event.isBase64Encoded)]

theorem elemTexts_strings (values : List Str) : elemTexts (values.map .string) = values := by
  induction values with
  | nil => rfl
  | cons value values ih =>
      have hcons : elemTexts (.string value :: values.map .string) =
        value :: elemTexts (values.map .string) := rfl
      rw [List.map_cons, hcons, ih]

/-- Looking a key up in the pairs of a map. -/
theorem lookup_pairs {ν β : Type} (entries : List (Sigma fun _ : Str => ν)) (g : ν → β)
    (key : Str) :
    (entries.map fun e => (e.1, g e.2)).lookup key = (entries.dlookup key).map g := by
  induction entries with
  | nil => rfl
  | cons e entries ih =>
      rw [List.map_cons, List.lookup_cons, ih]
      by_cases hkey : key = e.1
      · subst hkey
        rw [beq_self_eq_true, List.dlookup_cons_eq]
        rfl
      · rw [beq_eq_false_iff_ne.mpr hkey, List.dlookup_cons_ne _ _ hkey]

/-- What a script reads of a map. -/
theorem get_ofMap (m : HashMap Str (List Str)) (key : Str) :
    (ofMap m).get key = some (((m.lookup key).map fun vs => .array (vs.map .string)).getD
      .undefined) := by
  rw [ofMap, get, HashMap.enumerate, List.map_map]
  exact congrArg (fun value => some (value.getD JsValue.undefined))
    (lookup_pairs m.entries (fun vs => JsValue.array (vs.map .string)) key)

/-- The text of an array of strings. -/
theorem text_strings (values : List Str) :
    (JsValue.array (values.map .string)).text = [','].intercalate values := by
  exact congrArg [','].intercalate (elemTexts_strings values)

end JsValue

/-! ### The headers of the event -/

section Headers

variable {http : Http}

/-- The values of a request under a name. -/
def headerValues (headermap : http.HeaderMap) (name : Str) : List Str :=
  match http.nameFromStr name with
  | some n => texts headermap n
  | none => []

/-- A header of a request as a template shows it. -/
def headerInTemplate (headermap : http.HeaderMap) (name : Str) : Str :=
  if headerValues headermap name = [] then "undefined".toList
  else [','].intercalate (headerValues headermap name)

theorem texts_eq_nil_iff {headermap : http.HeaderMap}
    (hstr : ∀ n, ∀ v ∈ http.getAll headermap n, (http.toStr v).isSome) (n : http.HeaderName) :
    texts headermap n = [] ↔ http.getAll headermap n = [] := by
  have hlen := (Fallible.mapM_eq_some_iff.mp (mapM_toStr_eq_texts hstr n)).length_eq
  rw [← List.length_eq_zero_iff, ← hlen, List.length_eq_zero_iff]

/-- The headers of an event under a name in lower case. -/
theorem lookup_headers {headermap : http.HeaderMap} {headers : HashMap Str (List Str)}
    (h : collectHeaders http headermap = .ok headers) {name : Str}
    (hlower : Text.toAsciiLowercase name = name) :
    headers.lookup name = if headerValues headermap name = [] then none
      else some (headerValues headermap name) := by
  have hstr := exists_collectHeaders_iff.mp ⟨headers, h⟩
  obtain ⟨headers', hcollect, hperm⟩ := collectHeaders_eq_ok hstr
  obtain rfl := Except.ok.inj (h.symm.trans hcollect)
  -- an entry under the name is the one of its header
  have hentry : ∀ vs, headers.lookup name = some vs →
      ∃ n, http.nameFromStr name = some n ∧ n ∈ http.keys headermap := by
    intro vs hvs
    have hmem := hperm.mem_iff.mp (HashMap.mem_enumerate_iff (p := (name, vs)).mpr hvs)
    obtain ⟨k, hk, heq⟩ := List.mem_map.mp hmem
    obtain ⟨rfl, -⟩ := Prod.mk.inj heq
    exact ⟨k, http.nameFromStr_asStr k, hk⟩
  cases hname : http.nameFromStr name with
  | none =>
      rw [headerValues, hname, if_pos rfl]
      refine Option.eq_none_iff_forall_not_mem.mpr fun vs hvs => ?_
      obtain ⟨n, hn, -⟩ := hentry vs hvs
      rw [hname] at hn
      cases hn
  | some n =>
      have hasStr : http.asStr n = name := (http.token_of_nameFromStr hname).2.trans hlower
      rw [headerValues, hname]
      by_cases hnil : texts headermap n = []
      · rw [if_pos hnil]
        refine Option.eq_none_iff_forall_not_mem.mpr fun vs hvs => ?_
        obtain ⟨k, hk, hkeys⟩ := hentry vs hvs
        obtain rfl := Option.some.inj (hname.symm.trans hk)
        exact http.mem_keys_iff.mp hkeys ((texts_eq_nil_iff hstr n).mp hnil)
      · rw [if_neg hnil]
        have hkeys : n ∈ http.keys headermap :=
          http.mem_keys_iff.mpr fun hgetAll => hnil ((texts_eq_nil_iff hstr n).mpr hgetAll)
        refine HashMap.mem_enumerate_iff (p := (name, texts headermap n)).mp (hperm.mem_iff.mpr ?_)
        exact List.mem_map.mpr ⟨n, hkeys, by rw [hasStr]⟩

/-- A header of the event, in a template. -/
theorem get_headers {headermap : http.HeaderMap} {headers : HashMap Str (List Str)}
    (h : collectHeaders http headermap = .ok headers) (name : Str)
    (hlower : Text.toAsciiLowercase name = name) :
    ∃ value, (JsValue.ofMap headers).get name = some value ∧
      value.text = headerInTemplate headermap name := by
  refine ⟨_, JsValue.get_ofMap headers name, ?_⟩
  rw [lookup_headers h hlower, headerInTemplate]
  by_cases hnil : headerValues headermap name = []
  · rw [if_pos hnil, if_pos hnil]
    rfl
  · rw [if_neg hnil, if_neg hnil]
    exact JsValue.text_strings _

end Headers

/-! ### The script -/

namespace LambdaJs

section Script

variable {js : QuickJs JsValue} (typeError : js.Exception)

/-- `console.log` of a template. -/
def log (text : Str) (next : JsProgram js) : JsProgram js :=
  .print [.ok (Utf8.encode text)] fun
    | none => next
    | some err => .throw err

/-- `value.key`, with what comes after it. -/
def prop (value : JsValue) (key : String) (next : JsValue → JsProgram js) : JsProgram js :=
  match value.get key.toList with
  | some member => next member
  | none => .throw typeError

/-- The page. -/
def page (method host agent message body : Str) : Str :=
  "<!DOCTYPE html>\n<html lang=\"en\">\n<head>\n  <meta charset=\"utf-8\">\n".toList ++
    "  <title>Hello World</title>\n</head>\n<body>\n  <h1>Hello World!</h1>\n".toList ++
    "  <p>Lambda function triggered!\n  <ul>\n    <li>Http method: ".toList ++ method ++
    "</li>\n    <li>Host: ".toList ++ host ++ "</li>\n    <li>User agent: ".toList ++ agent ++
    "</li>\n    <li>Query string test: ".toList ++ message ++
    "</li>\n  </ul>\n  <!-- SAFETY: This is a demo, cut me some slack -->\n  ".toList ++ body ++
    "\n</body>\n</html>".toList

/-- The object that the handler returns. -/
def responseValue (body : Str) : JsValue :=
  .object
    [("statusCode".toList, .number 200),
      ("headers".toList, .object
        [("Content-Type".toList, .array [.string "text/html".toList])]),
      ("body".toList, .string body)]

/-- `handler`. Sleeping does not show. -/
def handler (event : JsValue) (next : JsValue → JsProgram js) : JsProgram js :=
  log "Lambda function triggered!".toList <|
  prop typeError event "headers" fun headers =>
  prop typeError headers "accept" fun accepts =>
  log ("- Accepts: ".toList ++ accepts.text) <|
  prop typeError event "headers" fun headers =>
  prop typeError headers "user-agent" fun agent =>
  log ("- User agent: ".toList ++ agent.text) <|
  prop typeError event "queryStringParameters" fun query =>
  prop typeError query "message" fun message =>
  let message := message.coalesce (.string "Unset".toList)
  prop typeError event "httpMethod" fun method =>
  prop typeError event "headers" fun headers =>
  prop typeError headers "host" fun host =>
  prop typeError event "headers" fun headers =>
  prop typeError headers "user-agent" fun agent =>
  prop typeError event "body" fun eventBody =>
  let body := page method.text host.text agent.text message.text eventBody.text
  log "Sleeping for 3 seconds...".toList <|
  log body <|
  next (responseValue body)

end Script

/-! ### What the handler means -/

section Means

variable {js : QuickJs JsValue} {typeError : js.Exception} (serde : SerdeJson) (request : Bytes)

/-- A line of the log. -/
def line (text : Str) : Bytes := Utf8.encode text ++ [newline]

theorem means_log (text : Str) (next : JsProgram js) (response : Option LambdaResponse) :
    (log text next).means serde request response =
      { next.means serde request response with
        out := line text ++ (next.means serde request response).out } := by
  have hprint : @jsPrint JsValue js false [.ok (Utf8.encode text)] = (line text, none) := rfl
  rw [log, JsProgram.means, hprint]

theorem prop_eq {value member : JsValue} {key : String} (h : value.get key.toList = some member)
    (next : JsValue → JsProgram js) : prop typeError value key next = next member := by
  rw [prop, h]

/-- The texts that the handler shows. -/
structure Shown where
  accept : Str
  agent : Str
  method : Str
  host : Str
  message : Str
  body : Str

/-- The page for them. -/
def Shown.page (s : Shown) : Str :=
  LambdaJs.page s.method s.host s.agent s.message s.body

/-- What is logged for them. -/
def Shown.logged (s : Shown) : Bytes :=
  line "Lambda function triggered!".toList ++ line ("- Accepts: ".toList ++ s.accept) ++
    line ("- User agent: ".toList ++ s.agent) ++ line "Sleeping for 3 seconds...".toList ++
    line s.page

/-- An event whose properties have the given texts. -/
structure Shows (event : JsValue) (s : Shown) : Prop where
  headers : ∃ headers accept agent host, event.get "headers".toList = some headers ∧
    headers.get "accept".toList = some accept ∧ accept.text = s.accept ∧
    headers.get "user-agent".toList = some agent ∧ agent.text = s.agent ∧
    headers.get "host".toList = some host ∧ host.text = s.host
  query : ∃ query message, event.get "queryStringParameters".toList = some query ∧
    query.get "message".toList = some message ∧
    (message.coalesce (.string "Unset".toList)).text = s.message
  method : ∃ method, event.get "httpMethod".toList = some method ∧ method.text = s.method
  body : ∃ body, event.get "body".toList = some body ∧ body.text = s.body

/-- The handler logs the texts and goes on with the page. -/
theorem handler_eq {event : JsValue} {s : Shown} (h : Shows event s)
    (next : JsValue → JsProgram js) :
    handler typeError event next =
      (log "Lambda function triggered!".toList <| log ("- Accepts: ".toList ++ s.accept) <|
        log ("- User agent: ".toList ++ s.agent) <| log "Sleeping for 3 seconds...".toList <|
        log s.page <| next (responseValue s.page)) := by
  obtain ⟨headers, accept, agent, host, hheaders, haccept, htaccept, hagent, htagent, hhost,
    hthost⟩ := h.headers
  obtain ⟨query, message, hquery, hmessage, htmessage⟩ := h.query
  obtain ⟨method, hmethod, htmethod⟩ := h.method
  obtain ⟨body, hbody, htbody⟩ := h.body
  simp only [handler, prop_eq hheaders, prop_eq haccept, prop_eq hagent, prop_eq hquery,
    prop_eq hmessage, prop_eq hmethod, prop_eq hhost, prop_eq hbody, htaccept, htagent, hthost,
    htmessage, htmethod, htbody]
  rfl

end Means

/-! ### The texts of a request -/

section Request

variable {http : Http} (base64 : Base64.Codec) (form : Urlencoded)

/-- The first value of `message` in the query. -/
def messageOf (uri : Uri) : Str :=
  (Grouping.valuesOf "message".toList ((uri.query.bind form.fromStr).getD [])).head?.getD
    "Unset".toList

/-- What the handler shows of a request with the given body. -/
def shownFor (request : Request http) (body : Bytes) : Shown where
  accept := headerInTemplate request.headers "accept".toList
  agent := headerInTemplate request.headers "user-agent".toList
  method := request.method
  host := headerInTemplate request.headers "host".toList
  message := messageOf form request.uri
  body := (encodeBody base64 body).1

variable {base64 form}

/-- The message of the event. -/
theorem get_message {uri : Uri} {params : HashMap Str (List Str)}
    (h : collectQuery form uri.query = .ok params) :
    ∃ message, (JsValue.ofMap params).get "message".toList = some message ∧
      (message.coalesce (.string "Unset".toList)).text = messageOf form uri := by
  refine ⟨_, JsValue.get_ofMap params _, ?_⟩
  have hlookup : params.lookup "message".toList = (Grouping.valuesOf "message".toList
      ((uri.query.bind form.fromStr).getD [])).head?.map fun v => [v] := by
    cases hquery : uri.query with
    | none =>
        rw [hquery] at h
        obtain rfl := Except.ok.inj h
        rfl
    | some query =>
        rw [hquery] at h
        obtain ⟨qs, hqs⟩ := Option.isSome_iff_exists.mp
          (exists_collectQuery_iff.mp ⟨params, h⟩ query rfl)
        rw [collectQuery_of_fromStr hqs] at h
        obtain rfl := Except.ok.inj h
        rw [HashMap.lookup_orInsertAll, AList.lookup_empty, Option.none_or,
          Grouping.valuesOf_map_snd (fun v => [v]), List.head?_map, Option.bind_some, hqs,
          Option.getD_some]
  rw [hlookup, messageOf]
  cases (Grouping.valuesOf "message".toList ((uri.query.bind form.fromStr).getD [])).head? with
  | none => rfl
  | some value => exact (JsValue.text_strings [value]).trans (List.append_nil value)

/-- The event of a request shows its texts. -/
theorem shows_ofEvent {request : Request http} {body : Bytes} {event : LambdaRequest}
    (h : LambdaRequest.from http base64 form request.method request.uri request.headers body =
      .ok event) : Shows (.ofEvent event) (shownFor base64 form request body) := by
  obtain ⟨hheaders, hparams, hbody, -, -, -, hmethod, -, -⟩ := from_eq_ok_iff.mp h
  obtain ⟨accept, haccept, htaccept⟩ := get_headers hheaders "accept".toList rfl
  obtain ⟨agent, hagent, htagent⟩ := get_headers hheaders "user-agent".toList rfl
  obtain ⟨host, hhost, hthost⟩ := get_headers hheaders "host".toList rfl
  obtain ⟨message, hmessage, htmessage⟩ := get_message hparams
  refine ⟨⟨_, accept, agent, host, rfl, haccept, htaccept, hagent, htagent, hhost, hthost⟩,
    ⟨_, message, rfl, hmessage, htmessage⟩, ⟨_, rfl, hmethod⟩, ⟨_, rfl, ?_⟩⟩
  rw [hbody]
  rfl

end Request

/-! ### The reply -/

/-- The headers that the handler returns. -/
def contentType : HashMap Str (List Str) :=
  AList.insert "Content-Type".toList ["text/html".toList] ∅

/-- The response that the handler returns, as the server reads it. -/
def responseFor (body : Str) : LambdaResponse := ⟨200, contentType, some body, false⟩

/-- The module `lambda.js`, whose evaluation only makes the handler. -/
def load {js : QuickJs JsValue} (typeError : js.Exception)
    (evaluated : JsHandler js → JsProgram js) : JsProgram js :=
  evaluated (handler typeError)

/-- The handler means that its page is sent. -/
theorem means_handler {js : QuickJs JsValue} (typeError : js.Exception) {serde : SerdeJson}
    {request text : Bytes} {event : JsValue} {s : Shown} (h : Shows event s)
    (hparse : js.parseJson request = .ok event)
    (htext : js.stringify (responseValue s.page) = some text) (hnul : 0 ∉ text)
    (hslice : serde.fromSlice text = .ok (responseFor s.page)) :
    (evalBootstrap (load typeError)).means serde request none =
      ⟨.returned, some (responseFor s.page), s.logged, [], []⟩ := by
  have hscript : (evalBootstrap (load typeError)).means serde request none =
      (handler typeError event fun response => .sendResponse response .done).means serde
        request none := by
    rw [evalBootstrap, load, bootstrap, JsProgram.means, hparse]
  have hsent : js.sent (responseValue s.page) = text := by
    rw [QuickJs.sent, htext, Option.getD_some, List.takeWhile_eq_self_iff]
    exact fun b hb => bne_iff_ne.mpr fun hzero => hnul (hzero ▸ hb)
  have hsend : (JsProgram.sendResponse (responseValue s.page) (.done : JsProgram js)).means serde
      request none = ⟨.returned, some (responseFor s.page), [], [], []⟩ := by
    simp only [JsProgram.means, hsent, hslice]
  simp only [hscript, handler_eq h, means_log, hsend, List.append_nil, Shown.logged,
    List.append_assoc]

/-- The response of the handler can be delivered. -/
theorem intoResponse_responseFor {http : Http} (base64 : Base64.Codec) {name : http.HeaderName}
    {value : http.HeaderValue} (hname : http.nameFromStr "Content-Type".toList = some name)
    (hvalue : http.valueFromBytes (Utf8.encode "text/html".toList) = some value) (body : Str) :
    ∃ r, (responseFor body).intoResponse http base64 = .ok r ∧ http.asU16 r.status = 200 ∧
      r.body = Utf8.encode body ∧
      ∀ n, http.getAll r.headers n = if n = name then [value] else [] := by
  have hrange : 100 ≤ (200 : UInt16).toNat ∧ (200 : UInt16).toNat ≤ 999 := by decide
  obtain ⟨status, hstatus, hasU16⟩ := http.exists_status hrange
  have hparses : List.Forall₂ (ParsesTo http) (Grouping.ungroup contentType.enumerate)
      [(name, value)] :=
    .cons ⟨(http.nameFromStr_eq _).symm.trans hname, hvalue⟩ .nil
  refine ⟨⟨status, http.appendPairs http.emptyMap [(name, value)], Utf8.encode body⟩,
    intoResponse_eq_ok_iff.mpr ⟨hstatus, ⟨_, hparses, rfl⟩, rfl⟩, hasU16, rfl, fun n => ?_⟩
  rw [getAll_of_parsesTo, Grouping.valuesOf_cons]
  by_cases hn : n = name
  · rw [if_pos hn, if_pos hn.symm]
    rfl
  · rw [if_neg hn, if_neg (Ne.symm hn)]
    rfl

section Served

variable {http : Http} {Hash Module : Type}

/-- A call runs `lambda.js`, and JSON carries its event to the script and the response back. -/
structure Runs (B : Backend http Hash Module) (a : Arrival http) (heap : Heap)
    (js : QuickJs JsValue) (typeError : js.Exception) (call : Lambda.Call) : Prop where
  script : RunsScript B heap (evalBootstrap (load typeError)) call
  /-- The engine reads what `serde_json` has written. -/
  parseJson_eq : js.parseJson (B.serde.toVec call.event) = .ok (.ofEvent call.event)
  /-- The engine writes the response, with any NUL escaped, and `serde_json` reads it. -/
  stringify_eq : ∃ text,
    js.stringify (responseValue (shownFor B.base64 B.form a.request call.body).page) = some text ∧
      0 ∉ text ∧ B.serde.fromSlice text =
        .ok (responseFor (shownFor B.base64 B.form a.request call.body).page)

/-- **`lambda.js` from the request to the reply**: whatever the headers, the query and the body
of a request are, the client gets the page for them and the log shows the same texts. A header
that is repeated is shown with commas, and a missing one as `undefined`; of the query only the
first `message` counts; the body stands in the page as it is, or in base64 if it is not UTF-8.
A request that is not accepted is not answered, and nothing is logged. -/
theorem lambdaJs_served (B : Backend http Hash Module) (a : Arrival http) (heap : Heap)
    (js : QuickJs JsValue) (typeError : js.Exception) (name : http.HeaderName)
    (value : http.HeaderValue) (hrouted : routed a.request.uri.path = true)
    (hruns : ∀ call, Lambda.prepare http B.base64 B.form B.hyper a.fs a.request = .ok call →
      Runs B a heap js typeError call)
    (hname : http.nameFromStr "Content-Type".toList = some name)
    (hvalue : http.valueFromBytes (Utf8.encode "text/html".toList) = some value) :
    (∀ body, Lambda.Accepted B a body →
      ∃ response, servedAlone B .lambda a = ⟨.lambda response, LogForwarder.messagesOf
          (shownFor B.base64 B.form a.request body).logged, []⟩ ∧
        http.asU16 response.status = 200 ∧
        response.body = Utf8.encode (shownFor B.base64 B.form a.request body).page ∧
        ∀ n, http.getAll response.headers n = if n = name then [value] else []) ∧
    ((¬ ∃ body, Lambda.Accepted B a body) →
      ∃ panic, servedAlone B .lambda a = ⟨.closed panic, [], []⟩) := by
  refine ⟨fun body haccepted => ?_, Lambda.servedAlone_of_not_accepted hrouted⟩
  obtain ⟨call, hcall, rfl⟩ := Lambda.exists_prepare_iff_accepted.mpr haccepted
  obtain ⟨hscript, hparse, text, htext, hnul, hslice⟩ := hruns call hcall
  obtain ⟨search, -, -, -, -, hfrom⟩ := Lambda.prepare_eq_ok_iff.mp hcall
  have hserved := servedAlone_of_runsScript hrouted hcall hscript
  rw [means_handler typeError (shows_ofEvent hfrom) hparse htext hnul hslice] at hserved
  obtain ⟨r, hr, hstatus, hbody, hheaders⟩ := intoResponse_responseFor B.base64 hname hvalue
    (shownFor B.base64 B.form a.request call.body).page
  refine ⟨r, ?_, hstatus, hbody, hheaders⟩
  rw [hserved]
  simp only [JsOutcome.served, Reply.ofLambda, Except.bind, hr]
  rfl

end Served

/-- A request with a message. -/
def greeted : Arrival Http.reference :=
  { arrivalAt "/a".toList with
    request := { plainRequest "/a".toList with
      uri := ⟨"/a".toList, some "message=hi".toList⟩ } }

/-- Its event. -/
def greetedEvent : LambdaRequest :=
  { plainEvent with
    resource := "/a".toList
    path := "/a".toList
    queryStringParameters := AList.insert "message".toList ["hi".toList] ∅ }

/-- The event as `serde_json` writes it. -/
def greetedText : Bytes :=
  Utf8.encode ("\x7b\"resource\":\"/a\",\"path\":\"/a\",\"httpMethod\":\"GET\",".toList ++
    "\"headers\":\x7b\x7d,\"queryStringParameters\":\x7b\"message\":[\"hi\"]\x7d,".toList ++
    "\"pathParameters\":null,\"stageVariables\":null,\"body\":\"\",".toList ++
    "\"isBase64Encoded\":false\x7d".toList)

/-- What is shown of it. -/
def greetedShown : Shown := shownFor Base64.standard .reference greeted.request []

/-- The characters of a page inside a string of JSON. -/
def escaped (s : Str) : Str :=
  s.flatMap fun c =>
    if c = '"' then "\\\"".toList else if c = '\n' then "\\n".toList else [c]

/-- The response as QuickJS writes it. -/
def responseText (body : Str) : Bytes :=
  Utf8.encode ("\x7b\"statusCode\":200,\"headers\":\x7b\"Content-Type\":".toList ++
    "[\"text/html\"]\x7d,\"body\":\"".toList ++ escaped body ++ "\"\x7d".toList)

/-- QuickJS, as far as this request needs it. -/
def engine : QuickJs JsValue where
  Exception := Unit
  outOfMemory _ := false
  tagNull := .number 2
  parseJson text := if text = greetedText then .ok (.ofEvent greetedEvent) else .error ()
  parseJsonAt memory buf len :=
    if rangeOf memory buf len = greetedText then .ok (.ofEvent greetedEvent) else .error ()
  parseJsonAt_eq h _ _ := Or.inl (by rw [h])
  stringify _ := some (responseText greetedShown.page)
  toCString memory _ := appendString memory (responseText greetedShown.page)
  text_of_toCString h hstr := ⟨_, rfl, text_of_appendString h hstr⟩
  le_of_toCString h := le_of_appendString h
  dumpError _ := []

/-- What the guest evaluates: the engine has already put some bytes into its memory. -/
def evaluation : JsProgram engine :=
  .work (· ++ [1, 2, 3, 4]) (fun _ => List.length_append ▸ Nat.le_add_right _ _)
    (evalBootstrap (load ()))

/-- A server for `lambda.js`. -/
def server : Backend Http.reference Bytes Bytes :=
  { Backend.running (fun _ => .done) ([0, 0, 0, 0], Jsl.main .bump evaluation) with
    serde :=
      { toVec _ := greetedText
        fromSlice text :=
          if text = responseText greetedShown.page then .ok (responseFor greetedShown.page)
          else .error [] } }

theorem isToken_accept : isToken "accept".toList = true ∧
    Text.toAsciiLowercase "accept".toList = "accept".toList := by decide

theorem isValueByte_garbled : ([0xE9] : Bytes).all isValueByte = true := rfl

/-- A request with a header that is not text. -/
def garbled : Arrival Http.reference :=
  { greeted with request := { greeted.request with
      headers := [(⟨"accept".toList, isToken_accept⟩, ⟨[0xE9], isValueByte_garbled⟩)] } }

theorem garbled_not_accepted : ¬ ∃ body, Lambda.Accepted server garbled body := by
  rintro ⟨body, h⟩
  exact absurd (h.headers _ List.mem_cons_self 0xE9 List.mem_cons_self) (by decide)

theorem runs_greeted (call : Lambda.Call)
    (hcall : Lambda.prepare Http.reference server.base64 server.form server.hyper greeted.fs
      greeted.request = .ok call) : Runs server greeted .bump engine () call := by
  obtain rfl := Except.ok.inj hcall
  have hslice : server.serde.fromSlice (responseText greetedShown.page) =
      .ok (responseFor greetedShown.page) := by
    simp only [server, if_true]
  exact
    { script := ⟨_, _, evaluation, rfl, rfl, rfl, by decide +kernel, by decide +kernel⟩
      parseJson_eq := by simp only [engine, server, if_true]; rfl
      stringify_eq := ⟨_, rfl, by decide +kernel, hslice⟩ }

/-- The first request is answered with its page, and the second one is not answered. -/
theorem lambdaJs_served_greeted :
    greetedShown.message = "hi".toList ∧ greetedShown.host = "undefined".toList ∧
      (∃ response, servedAlone server .lambda greeted = ⟨.lambda response,
          LogForwarder.messagesOf greetedShown.logged, []⟩ ∧
        response.body = Utf8.encode greetedShown.page) ∧
      ∃ panic, servedAlone server .lambda garbled = ⟨.closed panic, [], []⟩ := by
  obtain ⟨name, hname⟩ := Option.isSome_iff_exists.mp
    (show (Http.reference.nameFromStr "Content-Type".toList).isSome = true from rfl)
  obtain ⟨value, hvalue⟩ := Option.isSome_iff_exists.mp
    (show (Http.reference.valueFromBytes (Utf8.encode "text/html".toList)).isSome = true from rfl)
  have hgreeted := lambdaJs_served server greeted .bump engine () name value rfl runs_greeted hname
    hvalue
  have hgarbled := lambdaJs_served server garbled .bump engine () name value rfl
    (fun call hcall => absurd ⟨_, Lambda.exists_prepare_iff_accepted.mp ⟨call, hcall, rfl⟩⟩
      garbled_not_accepted) hname hvalue
  obtain ⟨response, hserved, -, hbody, -⟩ :=
    hgreeted.1 [] (Lambda.exists_prepare_iff_accepted.mp ⟨_, rfl, rfl⟩)
  exact ⟨rfl, rfl, ⟨response, hserved, hbody⟩, hgarbled.2 garbled_not_accepted⟩

end LambdaJs

end Wgi
