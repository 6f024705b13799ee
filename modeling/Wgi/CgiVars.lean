import Wgi.CgiHandler

/-!
# The Environment of a CGI Guest

The environment that `cgi::handler` builds has two sources: the server, with the request
line and the script that was found, and the headers of the request, which the client
chooses freely. The name of a header's variable is the name of the header in upper case
with `-` turned into `_`, behind `HTTP_`, but for the two headers that the CGI standard
names `CONTENT_TYPE` and `CONTENT_LENGTH`.

## Main results

* `vars_split`: the variables are the server's own followed by one for each header entry.
* `headers_cannot_forge`: the headers have no influence on the server's own variables, and
  no header gives an entry that the environment of a guest cannot hold.
* `headerKey_eq_iff`: two headers share a variable exactly when their names differ only in
  `-` and `_` and neither is one of the two special ones.
* `onePerName_iff`: every header name gets one variable with all its values exactly when
  no name is repeated.
-/

namespace Wgi

namespace Cgi

open Fallible

variable {http : Http}

/-! ### The name of a header's variable -/

/-- `-` becomes `_`. -/
def underscoreChar (c : Char) : Char :=
  if c = '-' then '_' else c

/-- A name with every `-` turned into `_`. -/
def underscored (s : Str) : Str :=
  s.map underscoreChar

theorem toCgiHttpHeader_eq (header : http.HeaderName) :
    toCgiHttpHeader http header =
      "HTTP_".toList ++ underscored (Text.toAsciiUppercase (http.asStr header)) := rfl

/-- A token character becomes a token character of a variable name. The order of the two
mappings does not matter, and in lower case only the underscore is seen of them. -/
theorem underscoreChar_token {c : Char} (h : isTokenChar c = true) :
    isTokenChar (underscoreChar (Text.upperChar c)) = true ∧
      underscoreChar (Text.upperChar c) = Text.upperChar (underscoreChar c) ∧
      Text.lowerChar (underscoreChar (Text.upperChar c)) = underscoreChar (Text.lowerChar c) :=
  forall_tokenChar (P := fun c => isTokenChar (underscoreChar (Text.upperChar c)) = true ∧
    underscoreChar (Text.upperChar c) = Text.upperChar (underscoreChar c) ∧
    Text.lowerChar (underscoreChar (Text.upperChar c)) = underscoreChar (Text.lowerChar c))
    (by decide) h

theorem isTokenChar_asStr (header : http.HeaderName) :
    ∀ c ∈ http.asStr header, isTokenChar c = true :=
  fun _ hc => isTokenChar_of_mem (http.isToken_asStr header).1 hc

/-- Every character of the name of a header's variable is a token character. -/
theorem isTokenChar_toCgiHttpHeader (header : http.HeaderName) :
    (toCgiHttpHeader http header).all isTokenChar = true := by
  have hfront : ("HTTP_".toList).all isTokenChar = true := rfl
  rw [toCgiHttpHeader_eq, List.all_append, hfront, Bool.true_and, List.all_eq_true]
  intro c hc
  obtain ⟨d, hd, rfl⟩ := List.mem_map.mp hc
  obtain ⟨e, he, rfl⟩ := List.mem_map.mp hd
  exact (underscoreChar_token (isTokenChar_asStr header e he)).1

/-- The name of the header is recovered from that of the variable, but for `-` and `_`. -/
theorem lower_underscored_upper (header : http.HeaderName) :
    Text.toAsciiLowercase (underscored (Text.toAsciiUppercase (http.asStr header))) =
      underscored (http.asStr header) := by
  have hlower := (http.isToken_asStr header).2
  calc Text.toAsciiLowercase (underscored (Text.toAsciiUppercase (http.asStr header)))
      = (http.asStr header).map fun c => Text.lowerChar (underscoreChar (Text.upperChar c)) := by
        simp only [Text.toAsciiLowercase, underscored, Text.toAsciiUppercase, List.map_map,
          Function.comp_def]
    _ = (http.asStr header).map fun c => underscoreChar (Text.lowerChar c) :=
        List.map_congr_left fun c hc => (underscoreChar_token (isTokenChar_asStr header c hc)).2.2
    _ = underscored (Text.toAsciiLowercase (http.asStr header)) := by
        simp only [Text.toAsciiLowercase, underscored, List.map_map, Function.comp_def]
    _ = underscored (http.asStr header) := by rw [hlower]

/-- Replacing `-` before or after the upper-casing makes no difference. -/
theorem underscored_upper (header : http.HeaderName) :
    underscored (Text.toAsciiUppercase (http.asStr header)) =
      Text.toAsciiUppercase (underscored (http.asStr header)) := by
  rw [underscored, Text.toAsciiUppercase, Text.toAsciiUppercase, underscored, List.map_map,
    List.map_map]
  exact List.map_congr_left fun c hc =>
    (underscoreChar_token (isTokenChar_asStr header c hc)).2.1

/-- **What `to_cgi_http_header` forgets** of a name is the difference of `-` and `_`. -/
theorem toCgiHttpHeader_eq_iff (m n : http.HeaderName) :
    toCgiHttpHeader http m = toCgiHttpHeader http n ↔
      underscored (http.asStr m) = underscored (http.asStr n) := by
  rw [toCgiHttpHeader_eq, toCgiHttpHeader_eq, List.append_cancel_left_eq]
  constructor
  · intro h
    rw [← lower_underscored_upper m, ← lower_underscored_upper n, h]
  · intro h
    rw [underscored_upper, underscored_upper, h]

theorem headerKey_of_not_special {header : http.HeaderName} (h : ¬ Special http header) :
    headerKey http header = toCgiHttpHeader http header := by
  rcases headerKey_cases header with ⟨hname, -⟩ | ⟨hname, -⟩ | ⟨-, hkey⟩
  · exact absurd (Or.inl hname) h
  · exact absurd (Or.inr hname) h
  · exact hkey

theorem toCgiHttpHeader_ne {key : Str} (hH : key.head? ≠ some 'H') (header : http.HeaderName) :
    toCgiHttpHeader http header ≠ key := by
  rintro rfl
  exact hH rfl

/-- `CONTENT_TYPE` is the variable of that header only. -/
theorem headerKey_eq_contentType_iff {header : http.HeaderName} :
    headerKey http header = "CONTENT_TYPE".toList ↔ http.asStr header = "content-type".toList := by
  constructor
  · intro h
    rcases headerKey_cases header with ⟨hname, -⟩ | ⟨-, hkey⟩ | ⟨-, hkey⟩
    · exact hname
    · exact absurd (hkey.symm.trans h) (by decide)
    · exact absurd (hkey.symm.trans h) (toCgiHttpHeader_ne (by decide) header)
  · intro h
    rw [headerKey, if_pos h]

/-- `CONTENT_LENGTH` is the variable of that header only. -/
theorem headerKey_eq_contentLength_iff {header : http.HeaderName} :
    headerKey http header = "CONTENT_LENGTH".toList ↔
      http.asStr header = "content-length".toList := by
  constructor
  · intro h
    rcases headerKey_cases header with ⟨-, hkey⟩ | ⟨hname, -⟩ | ⟨-, hkey⟩
    · exact absurd (hkey.symm.trans h) (by decide)
    · exact hname
    · exact absurd (hkey.symm.trans h) (toCgiHttpHeader_ne (by decide) header)
  · intro h
    have hne : ¬ http.asStr header = "content-type".toList := by
      rw [h]
      decide
    rw [headerKey, if_neg hne, if_pos h]

/-- A header with a variable of its own shares it with no other header. -/
theorem eq_of_special {m n : http.HeaderName} (hm : Special http m)
    (h : headerKey http m = headerKey http n) : m = n := by
  rcases hm with hm | hm
  · rw [headerKey_eq_contentType_iff.mpr hm] at h
    exact http.asStr_injective (hm.trans (headerKey_eq_contentType_iff.mp h.symm).symm)
  · rw [headerKey_eq_contentLength_iff.mpr hm] at h
    exact http.asStr_injective (hm.trans (headerKey_eq_contentLength_iff.mp h.symm).symm)

/-- **When two headers share a variable**: different names get the same variable exactly
when they differ only in `-` and `_`, and neither is one of the two special ones. -/
theorem headerKey_eq_iff (http : Http) (m n : http.HeaderName) (hne : m ≠ n) :
    headerKey http m = headerKey http n ↔
      underscored (http.asStr m) = underscored (http.asStr n) ∧
        ¬ Special http m ∧ ¬ Special http n := by
  constructor
  · intro h
    have hm : ¬ Special http m := fun hm => hne (eq_of_special hm h)
    have hn : ¬ Special http n := fun hn => hne (eq_of_special hn h.symm).symm
    rw [headerKey_of_not_special hm, headerKey_of_not_special hn] at h
    exact ⟨(toCgiHttpHeader_eq_iff m n).mp h, hm, hn⟩
  · rintro ⟨h, hm, hn⟩
    rw [headerKey_of_not_special hm, headerKey_of_not_special hn]
    exact (toCgiHttpHeader_eq_iff m n).mpr h

/-- The header name `x-real-ip`. -/
def realIp : Http.RefName := ⟨"x-real-ip".toList, by decide⟩

/-- The header name `x_real-ip`. -/
def realIpForged : Http.RefName := ⟨"x_real-ip".toList, by decide⟩

theorem realIp_ne : realIp ≠ realIpForged := by decide

/-- The two differ only in `-` and `_`. -/
theorem headerKey_eq_iff_realIp :
    realIp ≠ realIpForged ∧
      (headerKey Http.reference realIp = headerKey Http.reference realIpForged ↔
        underscored realIp.1 = underscored realIpForged.1 ∧
          ¬ Special Http.reference realIp ∧ ¬ Special Http.reference realIpForged) :=
  ⟨realIp_ne, headerKey_eq_iff Http.reference realIp realIpForged realIp_ne⟩

/-- They get the same variable. -/
theorem headerKey_shared :
    ¬ ∀ (http : Http) (m n : http.HeaderName), m ≠ n → headerKey http m ≠ headerKey http n := by
  intro h
  exact h Http.reference realIp realIpForged realIp_ne (by decide)

/-! ### The server's own variables -/

/-- The names of the variables that do not come from a header. -/
def ownKeys : List Str :=
  serverKeys ++ ["PATH_INFO".toList, "PATH_TRANSLATED".toList, "SCRIPT_NAME".toList]

/-- A name that no header can have: neither one of the two special ones nor one that
begins with `HTTP_`. -/
def isOwn (key : Str) : Bool :=
  key != "CONTENT_TYPE".toList && key != "CONTENT_LENGTH".toList &&
    !"HTTP_".toList.isPrefixOf key

/-- What the environment of a WASI guest can hold: no `=` in a name, and no NUL in a name
or a value. -/
def WasiAccepts (var : Str × Str) : Prop :=
  ('=' ∉ var.1 ∧ '\x00' ∉ var.1) ∧ '\x00' ∉ var.2

/-- The variable of a header is not one of the server's own. -/
theorem isOwn_headerKey (header : http.HeaderName) : isOwn (headerKey http header) = false := by
  rcases headerKey_cases header with ⟨-, h⟩ | ⟨-, h⟩ | ⟨-, h⟩
  · rw [h]
    rfl
  · rw [h]
    rfl
  · rw [h]
    rfl

theorem isTokenChar_headerKey (header : http.HeaderName) :
    (headerKey http header).all isTokenChar = true := by
  rcases headerKey_cases header with ⟨-, h⟩ | ⟨-, h⟩ | ⟨-, h⟩
  · rw [h]
    rfl
  · rw [h]
    rfl
  · rw [h]
    exact isTokenChar_toCgiHttpHeader header

/-- Variables, each the one of its header entry. -/
def HeaderVars (http : Http) (entries : List (http.HeaderName × http.HeaderValue))
    (derived : Vars) : Prop :=
  List.Forall₂ (fun entry var => http.toStr entry.2 = some var.2 ∧ var.1 = headerKey http entry.1)
    entries derived

/-- The variables are the server's own, then one for each header entry. The server's own
depend on the request line, the script and the current directory only. -/
theorem vars_split {cwd : CurrentDir} {request : Request http} {search : Search} {vs : Vars}
    (h : vars http cwd request search = .ok vs) :
    ∃ server path derived, serverVars http request = .ok server ∧
      pathVars cwd search.pathInfo = .ok path ∧
      HeaderVars http (http.iter request.headers) derived ∧
      vs = (server ++ path ++ scriptVars search.scriptName) ++ derived ∧
      ∀ var ∈ server ++ path ++ scriptVars search.scriptName, var.1 ∈ ownKeys := by
  obtain ⟨server, path, derived, hserver, hpath, hderived, rfl⟩ := vars_eq_ok_iff.mp h
  refine ⟨server, path, derived, hserver, hpath,
    hderived.imp fun _ _ hvar => headerVar_eq_ok_iff.mp hvar, rfl, fun var hvar => ?_⟩
  rw [List.mem_append, List.mem_append] at hvar
  rcases hvar with (hvar | hvar) | hvar
  · have hkey : var.1 ∈ server.map Prod.fst := List.mem_map_of_mem hvar
    rw [map_fst_serverVars hserver] at hkey
    exact List.mem_append_left _ hkey
  · rcases pathVars_eq_ok_iff.mp hpath with ⟨-, rfl⟩ | ⟨info, dir, -, -, rfl⟩
    · exact absurd hvar List.not_mem_nil
    · rw [List.mem_cons, List.mem_singleton] at hvar
      rcases hvar with rfl | rfl
      · exact List.mem_append_right _ List.mem_cons_self
      · exact List.mem_append_right _ (List.mem_cons_of_mem _ List.mem_cons_self)
  · cases hname : search.scriptName with
    | none =>
        rw [hname] at hvar
        exact absurd hvar List.not_mem_nil
    | some name =>
        rw [hname] at hvar
        obtain rfl := List.mem_singleton.mp hvar
        exact List.mem_append_right _
          (List.mem_cons_of_mem _ (List.mem_cons_of_mem _ List.mem_cons_self))

theorem serverVars_congr {r₁ r₂ : Request http} (huri : r₁.uri = r₂.uri)
    (hmethod : r₁.method = r₂.method) (hversion : r₁.version = r₂.version) :
    serverVars http r₁ = serverVars http r₂ := by
  rw [serverVars, serverVars, huri, hmethod, hversion]

/-- No variable of a header is one of the server's own. -/
theorem filter_isOwn_derived {entries : List (http.HeaderName × http.HeaderValue)} {derived : Vars}
    (h : HeaderVars http entries derived) : derived.filter (fun var => isOwn var.1) = [] := by
  induction h with
  | nil => rfl
  | cons hvar _ ih =>
      rw [List.filter_cons, hvar.2, isOwn_headerKey, ih]
      rfl

/-- A text that `to_str` returns holds no NUL. -/
theorem notMem_of_toStr {value : http.HeaderValue} {s : Str} (h : http.toStr value = some s) :
    '\x00' ∉ s := by
  intro hmem
  obtain ⟨hbytes, hvisible⟩ := http.toStr_eq_some_iff.mp h
  rw [hbytes] at hvisible
  have hnul : (0 : UInt8) ∈ String.utf8EncodeChar '\x00' := by decide
  exact absurd (hvisible 0 (List.mem_flatMap.mpr ⟨_, hmem, hnul⟩)) (by decide)

/-- A name of token characters holds neither `=` nor NUL. -/
theorem notMem_of_all_isTokenChar {key : Str} (h : key.all isTokenChar = true) :
    '=' ∉ key ∧ '\x00' ∉ key := by
  rw [List.all_eq_true] at h
  exact ⟨fun hmem => absurd (h _ hmem) (by decide), fun hmem => absurd (h _ hmem) (by decide)⟩

/-- Every variable that comes from a header entry can be in the environment of a guest. -/
theorem wasiAccepts_derived {entries : List (http.HeaderName × http.HeaderValue)} {derived : Vars}
    (h : HeaderVars http entries derived) : ∀ var ∈ derived, WasiAccepts var := by
  induction h with
  | nil => exact fun var hvar => absurd hvar List.not_mem_nil
  | @cons entry var entries derived hvar _ ih =>
      refine List.forall_mem_cons.mpr ⟨⟨?_, notMem_of_toStr hvar.1⟩, ih⟩
      rw [hvar.2]
      exact notMem_of_all_isTokenChar (isTokenChar_headerKey entry.1)

/-- The names of the variables of header entries. -/
theorem mem_keys_derived {entries : List (http.HeaderName × http.HeaderValue)} {derived : Vars}
    (h : HeaderVars http entries derived) {key : Str} :
    key ∈ derived.map Prod.fst ↔ ∃ entry ∈ entries, headerKey http entry.1 = key := by
  rw [map_fst_headerVars (h.imp fun _ _ hvar => headerVar_eq_ok_iff.mpr hvar), List.mem_map]

/-- A variable that is not one of the server's own is there exactly when a header of the
request is called for it. -/
theorem mem_keys_vars {cwd : CurrentDir} {request : Request http} {search : Search} {vs : Vars}
    (h : vars http cwd request search = .ok vs) (key : Str) (hkey : key ∉ ownKeys) :
    key ∈ vs.map Prod.fst ↔
      ∃ n, headerKey http n = key ∧ http.getAll request.headers n ≠ [] := by
  obtain ⟨server, path, derived, -, -, hderived, rfl, hown⟩ := vars_split h
  have hnone : key ∉ (server ++ path ++ scriptVars search.scriptName).map Prod.fst := by
    intro hmem
    obtain ⟨var, hvar, rfl⟩ := List.mem_map.mp hmem
    exact hkey (hown var hvar)
  rw [List.map_append, List.mem_append, mem_keys_derived hderived]
  constructor
  · rintro (hmem | ⟨entry, hentry, hkey⟩)
    · exact absurd hmem hnone
    · refine ⟨entry.1, hkey, fun hnil => ?_⟩
      rw [http.getAll_eq_iter, Grouping.valuesOf_eq_nil_iff] at hnil
      exact hnil entry hentry rfl
  · rintro ⟨n, rfl, hne⟩
    obtain ⟨value, hvalue⟩ := List.exists_mem_of_ne_nil _ hne
    rw [http.getAll_eq_iter, Grouping.mem_valuesOf] at hvalue
    exact Or.inr ⟨(n, value), hvalue, rfl⟩

/-- What the headers of a request may do to its variables, and no more. -/
structure HeadersContained (http : Http) (request : Request http) (vs : Vars) : Prop where
  /-- `CONTENT_TYPE` is there exactly when the header is. -/
  contentType : "CONTENT_TYPE".toList ∈ vs.map Prod.fst ↔
    ∃ n, http.asStr n = "content-type".toList ∧ http.getAll request.headers n ≠ []
  /-- `CONTENT_LENGTH` is there exactly when the header is. -/
  contentLength : "CONTENT_LENGTH".toList ∈ vs.map Prod.fst ↔
    ∃ n, http.asStr n = "content-length".toList ∧ http.getAll request.headers n ≠ []
  /-- No name holds a character that ends a name. -/
  keys : ∀ var ∈ vs, '=' ∉ var.1 ∧ '\x00' ∉ var.1
  /-- The variables that come from the headers all are accepted. -/
  derived : ∃ own derived, vs = own ++ derived ∧ (∀ var ∈ own, var.1 ∈ ownKeys) ∧
    HeaderVars http (http.iter request.headers) derived ∧ ∀ var ∈ derived, WasiAccepts var

theorem headersContained {cwd : CurrentDir} {request : Request http} {search : Search} {vs : Vars}
    (h : vars http cwd request search = .ok vs) : HeadersContained http request vs := by
  have htype := mem_keys_vars h "CONTENT_TYPE".toList (by decide)
  have hlength := mem_keys_vars h "CONTENT_LENGTH".toList (by decide)
  simp only [headerKey_eq_contentType_iff] at htype
  simp only [headerKey_eq_contentLength_iff] at hlength
  obtain ⟨server, path, derived, -, -, hderived, rfl, hown⟩ := vars_split h
  have haccepts := wasiAccepts_derived hderived
  have htoken : ownKeys.all (fun key => key.all isTokenChar) = true := rfl
  refine ⟨htype, hlength, fun var hvar => ?_, _, derived, rfl, hown, hderived, haccepts⟩
  rcases List.mem_append.mp hvar with hvar | hvar
  · exact notMem_of_all_isTokenChar (List.all_eq_true.mp htoken _ (hown var hvar))
  · exact (haccepts var hvar).1

/-- **Headers cannot forge the server's variables.** Let two requests agree on the request
line and on the script that is found for them. If the variables of the one can be built and
the header values of the other are text, the variables of the other can be built too, and
the variables whose names no header can have are the same in both. In both, the two special
variables are there exactly when their headers are, and no header gives a variable that a
guest's environment cannot hold. -/
theorem headers_cannot_forge (http : Http) (cwd : CurrentDir) (r₁ r₂ : Request http)
    (search₁ search₂ : Search) (huri : r₁.uri = r₂.uri) (hmethod : r₁.method = r₂.method)
    (hversion : r₁.version = r₂.version) (hname : search₁.scriptName = search₂.scriptName)
    (hinfo : search₁.pathInfo = search₂.pathInfo)
    (htext : ∀ entry ∈ http.iter r₂.headers, (http.toStr entry.2).isSome) (vs₁ : Vars)
    (hvars : vars http cwd r₁ search₁ = .ok vs₁) :
    ∃ vs₂, vars http cwd r₂ search₂ = .ok vs₂ ∧
      vs₁.filter (fun var => isOwn var.1) = vs₂.filter (fun var => isOwn var.1) ∧
      HeadersContained http r₁ vs₁ ∧ HeadersContained http r₂ vs₂ := by
  have hexists : ∃ vs₂, vars http cwd r₂ search₂ = .ok vs₂ := by
    obtain ⟨hknown, hcwd, -⟩ := exists_vars_iff.mp ⟨vs₁, hvars⟩
    rw [hversion] at hknown
    rw [hinfo] at hcwd
    exact exists_vars_iff.mpr ⟨hknown, hcwd, htext⟩
  obtain ⟨vs₂, hvars₂⟩ := hexists
  refine ⟨vs₂, hvars₂, ?_, headersContained hvars, headersContained hvars₂⟩
  obtain ⟨server₁, path₁, derived₁, hserver₁, hpath₁, hderived₁, rfl, -⟩ := vars_split hvars
  obtain ⟨server₂, path₂, derived₂, hserver₂, hpath₂, hderived₂, rfl, -⟩ := vars_split hvars₂
  rw [serverVars_congr huri hmethod hversion] at hserver₁
  rw [hinfo] at hpath₁
  obtain rfl : server₁ = server₂ := Except.ok.inj (hserver₁.symm.trans hserver₂)
  obtain rfl : path₁ = path₂ := Except.ok.inj (hpath₁.symm.trans hpath₂)
  rw [List.filter_append, List.filter_append _ derived₂, filter_isOwn_derived hderived₁,
    filter_isOwn_derived hderived₂, hname]

/-- A request for the same path that carries headers with treacherous names. -/
def forgingRequest : Request Http.reference where
  method := "GET".toList
  uri := ⟨"/a/b/c".toList, none⟩
  version := .http11
  headers := [(⟨"script-name".toList, by decide⟩, ⟨Utf8.encode "/etc".toList, rfl⟩),
    (⟨"content_type".toList, by decide⟩, ⟨Utf8.encode "text/html".toList, rfl⟩)]
  body := []

/-- These headers leave the variables of `deepRequest` alone. -/
theorem headers_cannot_forge_deep :
    ∃ vs₁ vs₂, vars Http.reference (.path "/srv".toList) deepRequest
        ⟨[0], some "a/b".toList, some "/c".toList⟩ = .ok vs₁ ∧
      vars Http.reference (.path "/srv".toList) forgingRequest
        ⟨[0], some "a/b".toList, some "/c".toList⟩ = .ok vs₂ ∧
      vs₁.filter (fun var => isOwn var.1) = vs₂.filter (fun var => isOwn var.1) ∧
      HeadersContained Http.reference deepRequest vs₁ ∧
      HeadersContained Http.reference forgingRequest vs₂ := by
  have htext : forgingRequest.headers.all (fun entry => (Http.reference.toStr entry.2).isSome) =
      true := rfl
  obtain ⟨vs₂, hvars₂, hsame, hdeep, hforging⟩ := headers_cannot_forge Http.reference
    (.path "/srv".toList) deepRequest forgingRequest ⟨[0], some "a/b".toList, some "/c".toList⟩
    ⟨[0], some "a/b".toList, some "/c".toList⟩ rfl rfl rfl rfl rfl (List.all_eq_true.mp htext) _ rfl
  exact ⟨_, vs₂, rfl, hvars₂, hsame, hdeep, hforging⟩

/-! ### One variable for each header name -/

/-- Texts that occur in a value one behind the other. -/
def InOrder : List Str → Str → Prop
  | [], _ => True
  | text :: texts, value => ∃ before after, value = before ++ text ++ after ∧ InOrder texts after

/-- Variables that combine the headers of a map: exactly one for each name of the map, and
its value holds the values received under that name, in order. -/
def OnePerName (http : Http) (headers : http.HeaderMap) (derived : Vars) : Prop :=
  ∃ value : http.HeaderName → Str,
    derived.Perm ((http.keys headers).map fun n => (headerKey http n, value n)) ∧
    ∀ n ∈ http.keys headers, ∃ texts,
      List.Forall₂ (fun v text => http.toStr v = some text) (http.getAll headers n) texts ∧
        InOrder texts (value n)

/-- The variables of a request that come from its headers. -/
def derivedVars (vs : Vars) : Vars :=
  vs.filter fun var => !isOwn var.1

/-- They are the ones built from the header entries. -/
theorem derivedVars_eq {cwd : CurrentDir} {request : Request http} {search : Search} {vs : Vars}
    (h : vars http cwd request search = .ok vs) :
    HeaderVars http (http.iter request.headers) (derivedVars vs) := by
  obtain ⟨server, path, derived, -, -, hderived, rfl, hown⟩ := vars_split h
  have hkeys : ownKeys.all isOwn = true := rfl
  have hnone : derivedVars (server ++ path ++ scriptVars search.scriptName) = [] := by
    refine List.filter_eq_nil_iff.mpr fun var hvar => ?_
    rw [List.all_eq_true.mp hkeys _ (hown var hvar)]
    exact Bool.false_ne_true
  have hall : derivedVars derived = derived := by
    have hfilter := filter_isOwn_derived hderived
    rw [List.filter_eq_nil_iff] at hfilter
    refine List.filter_eq_self.mpr fun var hvar => ?_
    simpa using hfilter var hvar
  rw [derivedVars, List.filter_append, ← derivedVars, hnone, ← derivedVars, hall]
  exact hderived

/-- The variables of header entries, as a map over them. -/
theorem HeaderVars.eq_map {entries : List (http.HeaderName × http.HeaderValue)} {derived : Vars}
    (h : HeaderVars http entries derived) :
    derived = entries.map fun entry =>
      (headerKey http entry.1, (http.toStr entry.2).getD []) := by
  induction h with
  | nil => rfl
  | cons hvar _ ih =>
      rw [List.map_cons, ← ih, hvar.1, ← hvar.2]
      rfl

/-- The text of the first value under a name. -/
def firstText (http : Http) (headers : http.HeaderMap) (n : http.HeaderName) : Str :=
  ((http.getAll headers n).head?.bind http.toStr).getD []

/-- With distinct names every entry is a name with its one value. -/
theorem onePerName_of_nodup {headers : http.HeaderMap} {derived : Vars}
    (h : HeaderVars http (http.iter headers) derived)
    (hnodup : ((http.iter headers).map Prod.fst).Nodup) : OnePerName http headers derived := by
  have hone : ∀ entry ∈ http.iter headers, http.getAll headers entry.1 = [entry.2] := by
    intro entry hentry
    rw [http.getAll_eq_iter]
    exact Grouping.valuesOf_of_nodup hnodup hentry
  have hfirst : ∀ entry ∈ http.iter headers,
      firstText http headers entry.1 = (http.toStr entry.2).getD [] := by
    intro entry hentry
    rw [firstText, hone entry hentry]
    rfl
  have hkeys := http.perm_keys headers
  rw [List.dedup_eq_self.mpr hnodup] at hkeys
  refine ⟨firstText http headers, ?_, fun n hn => ?_⟩
  · refine List.Perm.trans (List.Perm.of_eq ?_) (hkeys.map _).symm
    rw [h.eq_map, List.map_map]
    refine List.map_congr_left fun entry hentry => ?_
    rw [Function.comp_apply, hfirst entry hentry]
  · obtain ⟨entry, hentry, rfl⟩ := List.mem_map.mp (http.mem_keys_iff_mem_iter.mp hn)
    obtain ⟨var, htext, -⟩ := exists_forall₂_iff.mp ⟨derived, h⟩ entry hentry
    rw [hone entry hentry, hfirst entry hentry, htext]
    exact ⟨[var.2], .cons htext .nil, [], [], (List.append_nil _).symm, trivial⟩

/-- One variable for each name leaves no room for a repeated name. -/
theorem nodup_of_onePerName {headers : http.HeaderMap} {derived : Vars}
    (h : HeaderVars http (http.iter headers) derived) (hone : OnePerName http headers derived) :
    ((http.iter headers).map Prod.fst).Nodup := by
  obtain ⟨value, hperm, -⟩ := hone
  have hlen := hperm.length_eq
  rw [h.eq_map, List.length_map, List.length_map] at hlen
  exact http.length_keys_eq_iff.mp hlen.symm

/-- **When headers are combined**: the variables of a request can be built, with exactly one
for each header name that holds all its values in order, exactly when nothing else panics
and no name has two values. -/
theorem onePerName_iff (http : Http) (cwd : CurrentDir) (request : Request http)
    (search : Search) :
    (∃ vs, vars http cwd request search = .ok vs ∧
        OnePerName http request.headers (derivedVars vs)) ↔
      (request.version ≠ .other ∧ (search.pathInfo.isSome → ∃ dir, cwd = .path dir) ∧
        ∀ entry ∈ http.iter request.headers, (http.toStr entry.2).isSome) ∧
      ∀ n, (http.getAll request.headers n).length ≤ 1 := by
  rw [← exists_vars_iff, ← http.nodup_iter_iff]
  constructor
  · rintro ⟨vs, hvars, hone⟩
    exact ⟨⟨vs, hvars⟩, nodup_of_onePerName (derivedVars_eq hvars) hone⟩
  · rintro ⟨⟨vs, hvars⟩, hnodup⟩
    exact ⟨vs, hvars, onePerName_of_nodup (derivedVars_eq hvars) hnodup⟩

/-- A request with two `x-real-ip` headers. -/
def repeatingRequest : Request Http.reference where
  method := "GET".toList
  uri := ⟨"/a/b/c".toList, none⟩
  version := .http11
  headers := [(realIp, ⟨Utf8.encode "10.0.0.1".toList, rfl⟩),
    (realIp, ⟨Utf8.encode "10.0.0.2".toList, rfl⟩)]
  body := []

/-- The repeated header becomes two variables of the same name. -/
theorem repeated_not_combined :
    ¬ ∀ (http : Http) (cwd : CurrentDir) (request : Request http) (search : Search) (vs : Vars),
      vars http cwd request search = .ok vs →
        OnePerName http request.headers (derivedVars vs) := by
  intro h
  obtain ⟨value, hperm, -⟩ := h Http.reference (.path "/srv".toList) repeatingRequest
    ⟨[0], some "a/b".toList, some "/c".toList⟩ _ rfl
  have htwo : 2 = 1 := hperm.length_eq
  omega

end Cgi

end Wgi
