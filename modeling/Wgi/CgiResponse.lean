import Wgi.Http

/-!
# Parsing a CGI Response

A CGI guest prints its response to standard output: header lines, an empty line, and the
body. `CgiResponse::from_str` splits the output at the first empty line, reads the header
block line by line, and sets the status from a `Status` line. Every value it reads is
unwrapped, so a malformed line panics.

## Main results

* `headerLine_line`: one rendered field is read back by one step of the loop.
* `fromStr_payload`: a rendered header block is read back as a whole, whatever the body.
* `foldl_apply`: the block inserts its headers one after the other, so that under every
  name only the *last* line survives (`Http.getAll_insertPairs`).
* `fromStr_roundTrip`: with distinct names, status, headers and body all survive.
-/

namespace Wgi

/-- `CgiResponse`. -/
structure CgiResponse (http : Http) where
  status : http.StatusCode
  headers : http.HeaderMap
  body : Str

section Parse

variable (http : Http) (unicode : Text.Unicode)

/-- The body of the loop over the header lines, on the variables `status` and `headers`. -/
def headerLine (vars : http.StatusCode × http.HeaderMap) (line : Str) :
    Except Panic (http.StatusCode × http.HeaderMap) :=
  match Text.splitOnce ':' line with
  | some (key, value) =>
      let value := Text.trimStart value
      if unicode.toLowercase key = "status".toList then do
        let status ← unwrapAt .statusCode (http.statusFromStr value)
        pure (status, vars.2)
      else do
        let name ← unwrapAt .headerName (http.nameFromStr key)
        let value ← unwrapAt .headerValue (http.valueFromStr value)
        pure (vars.1, http.insert vars.2 name value)
  | none => pure vars

/-- `CgiResponse::from_str`. -/
def CgiResponse.fromStr (payload : Str) : Except Panic (CgiResponse http) :=
  match Text.splitOnceList ['\n', '\n'] payload with
  | some (header, body) => do
      let (status, headers) ← (Text.lines header).foldlM (headerLine http unicode)
        (http.statusOk, http.emptyMap)
      pure ⟨status, headers, body⟩
  | none => pure ⟨http.statusOk, http.emptyMap, payload⟩

end Parse

/-! ### Rendering a response -/

section Render

variable (http : Http)

/-- A header a guest may send: a name and a value the `http` crate accepts, where the name
is not `status` in any case and the value does not begin with white space. -/
structure CgiHeader where
  name : Str
  value : Str
  headerName : http.HeaderName
  headerValue : http.HeaderValue
  name_eq : http.nameFromStr name = some headerName
  value_eq : http.valueFromStr value = some headerValue
  not_status : Text.toAsciiLowercase name ≠ "status".toList
  no_space : ∀ c, value.head? = some c → Text.isWhitespace c = false

/-- A line of a header block. -/
inductive CgiField where
  | status (code : UInt16) (hcode : 100 ≤ code.toNat ∧ code.toNat ≤ 999)
  | header (h : CgiHeader http)

variable {http}

/-- The text of a line, without its line feed. -/
def CgiField.line : CgiField http → Str
  | .status code _ => "Status".toList ++ ':' :: ' ' :: Nat.toDigits 10 code.toNat
  | .header h => h.name ++ ':' :: ' ' :: h.value

/-- What a guest prints: the lines of the header block, an empty line, the body. -/
def payload (fields : List (CgiField http)) (body : Str) : Str :=
  Text.block '\n' (fields.map CgiField.line) ++ '\n' :: body

/-- The status code a number in range stands for. -/
def statusOf (code : UInt16) (hcode : 100 ≤ code.toNat ∧ code.toNat ≤ 999) : http.StatusCode :=
  (http.statusFromU16 code).get (http.statusFromU16_isSome_iff.mpr (by omega))

/-- What a field does to the variables `status` and `headers`. -/
def CgiField.apply (vars : http.StatusCode × http.HeaderMap) :
    CgiField http → http.StatusCode × http.HeaderMap
  | .status code hcode => (statusOf code hcode, vars.2)
  | .header h => (vars.1, http.insert vars.2 h.headerName h.headerValue)

theorem asU16_statusOf (code : UInt16) (hcode : 100 ≤ code.toNat ∧ code.toNat ≤ 999) :
    http.asU16 (statusOf code hcode) = code :=
  http.asU16_of_statusFromU16 (Option.some_get _).symm

/-! ### One line -/

namespace CgiHeader

theorem token (h : CgiHeader http) : isToken h.name = true :=
  (http.token_of_nameFromStr h.name_eq).1

theorem notMem_name (h : CgiHeader http) {c : Char} (hc : isTokenChar c = false) :
    c ∉ h.name := by
  intro hmem
  rw [isTokenChar_of_mem h.token hmem] at hc
  exact absurd hc (by simp)

/-- A character whose bytes are no value bytes does not occur in a value. -/
theorem notMem_value (h : CgiHeader http) {c : Char}
    (hc : ∃ x ∈ String.utf8EncodeChar c, isValueByte x = false) : c ∉ h.value := by
  intro hmem
  obtain ⟨x, hx, hbad⟩ := hc
  have hgood := http.isValueByte_of_valueFromStr h.value_eq x
    (List.mem_flatMap.mpr ⟨c, hmem, hx⟩)
  rw [hgood] at hbad
  exact absurd hbad (by simp)

end CgiHeader

theorem notMem_toDigits {c : Char} (hc : c.isDigit = false) (n : ℕ) :
    c ∉ Nat.toDigits 10 n := by
  intro hmem
  have hdigit := Nat.isDigit_of_mem_toDigits (by omega) (by omega) hmem
  rw [hdigit] at hc
  exact absurd hc (by simp)

/-- A character that is neither in the key nor in the value of a line, nor between them. -/
theorem notMem_line {c : Char} {key value : Str} (hkey : c ∉ key) (hvalue : c ∉ value)
    (hsep : c ∉ [':', ' ']) : c ∉ key ++ ':' :: ' ' :: value := by
  have hline : key ++ ':' :: ' ' :: value = key ++ ([':', ' '] ++ value) := rfl
  rw [hline, List.mem_append, List.mem_append]
  exact not_or.mpr ⟨hkey, not_or.mpr ⟨hsep, hvalue⟩⟩

/-- A line that is not empty and holds no line feed and no carriage return. -/
def LineWf (line : Str) : Prop :=
  line ≠ [] ∧ '\n' ∉ line ∧ '\r' ∉ line

/-- A line made of a nonempty key and a value without line ends. -/
theorem lineWf_field {key value : Str} (hne : key ≠ []) (hkey : '\n' ∉ key ∧ '\r' ∉ key)
    (hvalue : '\n' ∉ value ∧ '\r' ∉ value) : LineWf (key ++ ':' :: ' ' :: value) :=
  ⟨List.append_ne_nil_of_left_ne_nil hne _, notMem_line hkey.1 hvalue.1 (by decide),
    notMem_line hkey.2 hvalue.2 (by decide)⟩

/-- A `Status` line whose value has no line ends. -/
theorem lineWf_status {value : Str} (hvalue : '\n' ∉ value ∧ '\r' ∉ value) :
    LineWf ("Status".toList ++ ':' :: ' ' :: value) :=
  lineWf_field (by decide) (by decide) hvalue

/-- The line of a field holds no line ends. -/
theorem CgiField.line_wf (f : CgiField http) : LineWf f.line := by
  cases f with
  | status code hcode => exact lineWf_status ⟨notMem_toDigits rfl _, notMem_toDigits rfl _⟩
  | header h =>
      have hn : '\n' ∉ h.value := h.notMem_value ⟨10, by decide, rfl⟩
      have hr : '\r' ∉ h.value := h.notMem_value ⟨13, by decide, rfl⟩
      exact lineWf_field (ne_nil_of_isToken h.token) ⟨h.notMem_name rfl, h.notMem_name rfl⟩ ⟨hn, hr⟩

theorem lineWf_of_mem {fields : List (CgiField http)} :
    ∀ l ∈ fields.map CgiField.line, LineWf l := by
  intro l hl
  obtain ⟨f, -, rfl⟩ := List.mem_map.mp hl
  exact f.line_wf

/-- The decimal form of a code in range parses to its status. -/
theorem statusFromStr_digits (code : UInt16) (hcode : 100 ≤ code.toNat ∧ code.toNat ≤ 999) :
    http.statusFromStr (Nat.toDigits 10 code.toNat) = some (statusOf code hcode) := by
  rw [http.statusFromStr_eq_some_iff, asU16_statusOf]

/-- A number does not begin with white space. -/
theorem head_toDigits (n : ℕ) (c : Char) (h : (Nat.toDigits 10 n).head? = some c) :
    Text.isWhitespace c = false := by
  have hmem : c ∈ Nat.toDigits 10 n := List.mem_of_head? h
  have hdigit := Nat.isDigit_of_mem_toDigits (by omega) (by omega) hmem
  simp only [Char.isDigit, Bool.and_eq_true, decide_eq_true_eq, UInt32.le_iff_toNat_le,
    ge_iff_le] at hdigit
  have hlo : 48 ≤ c.toNat := hdigit.1
  have hhi : c.toNat ≤ 57 := hdigit.2
  simp only [Text.isWhitespace, Bool.or_eq_false_iff, Bool.and_eq_false_iff, beq_eq_false_iff_ne,
    decide_eq_false_iff_not]
  omega

/-- What the loop body does on a `Status` line: its value has to be a status code. -/
theorem headerLine_status (unicode : Text.Unicode) (vars : http.StatusCode × http.HeaderMap)
    {value : Str} (hvalue : ∀ c, value.head? = some c → Text.isWhitespace c = false) :
    headerLine http unicode vars ("Status".toList ++ ':' :: ' ' :: value) =
      (unwrapAt .statusCode (http.statusFromStr value)).map fun status => (status, vars.2) := by
  have hkey : unicode.toLowercase "Status".toList = "status".toList := by
    rw [unicode.toLowercase_ascii _ (Text.lt_of_isAscii rfl)]
    rfl
  have hsplit : Text.splitOnce ':' ("Status".toList ++ ':' :: ' ' :: value) =
      some ("Status".toList, ' ' :: value) :=
    Text.splitOnce_append (by decide) _
  simp only [headerLine, hsplit, hkey, if_true, Text.trimStart_space hvalue]
  cases http.statusFromStr value with
  | none => rfl
  | some status => rfl

/-- **One line is read back**: the loop body on a rendered field does what the field
says. -/
theorem headerLine_line (unicode : Text.Unicode) (vars : http.StatusCode × http.HeaderMap)
    (f : CgiField http) : headerLine http unicode vars f.line = .ok (f.apply vars) := by
  cases f with
  | status code hcode =>
      have hline := headerLine_status unicode vars (head_toDigits code.toNat)
      rw [statusFromStr_digits code hcode] at hline
      exact hline
  | header h =>
      have hascii : ∀ c ∈ h.name, c.toNat < 128 := fun c hc =>
        isAscii_of_isTokenChar (isTokenChar_of_mem h.token hc)
      have hkey : ¬ unicode.toLowercase h.name = "status".toList := by
        rw [unicode.toLowercase_ascii _ hascii]
        exact h.not_status
      have hsplit : Text.splitOnce ':' (CgiField.line (.header h)) =
          some (h.name, ' ' :: h.value) :=
        Text.splitOnce_append (h.notMem_name rfl) _
      simp only [headerLine, hsplit, if_neg hkey, Text.trimStart_space h.no_space, h.name_eq,
        h.value_eq, unwrapAt_some]
      rfl

/-! ### The whole block -/

/-- The loop over the lines of a rendered block. -/
theorem foldlM_headerLine (unicode : Text.Unicode) (fields : List (CgiField http))
    (vars : http.StatusCode × http.HeaderMap) :
    (fields.map CgiField.line).foldlM (headerLine http unicode) vars =
      .ok (fields.foldl CgiField.apply vars) := by
  induction fields generalizing vars with
  | nil => rfl
  | cons f fields ih =>
      rw [List.map_cons, List.foldlM_cons, headerLine_line]
      exact ih (f.apply vars)

/-- Output that is a block of nonempty lines, an empty line and a body: the loop runs over
exactly those lines, and the body is left alone. -/
theorem fromStr_block (unicode : Text.Unicode) {ls : List Str} (hls : ls ≠ [])
    (hwf : ∀ l ∈ ls, LineWf l) (body : Str) :
    CgiResponse.fromStr http unicode (Text.block '\n' ls ++ '\n' :: body) =
      (ls.foldlM (headerLine http unicode) (http.statusOk, http.emptyMap)).map
        fun vars => ⟨vars.1, vars.2, body⟩ := by
  have hsplit := Text.splitOnceList_block hls
    (fun l hl => ⟨(hwf l hl).1, (hwf l hl).2.1⟩) body
  rw [CgiResponse.fromStr, hsplit]
  simp only [Text.lines_intercalate hwf]
  cases ls.foldlM (headerLine http unicode) (http.statusOk, http.emptyMap) with
  | error e => rfl
  | ok vars => rfl

/-- **A rendered response is read back**: the first empty line is the one after the header
block, and every line of the block takes effect in order. -/
theorem fromStr_payload (unicode : Text.Unicode) {fields : List (CgiField http)}
    (hfields : fields ≠ []) (body : Str) :
    CgiResponse.fromStr http unicode (payload fields body) =
      .ok ⟨(fields.foldl CgiField.apply (http.statusOk, http.emptyMap)).1,
        (fields.foldl CgiField.apply (http.statusOk, http.emptyMap)).2, body⟩ := by
  rw [payload, fromStr_block unicode (fun h => hfields (List.map_eq_nil_iff.mp h)) lineWf_of_mem,
    foldlM_headerLine]
  rfl

/-- The status codes a block sets, in order. -/
def statuses (fields : List (CgiField http)) : List http.StatusCode :=
  fields.filterMap fun
    | .status code hcode => some (statusOf code hcode)
    | .header _ => none

/-- The headers of a block, in order. -/
def headersOf (fields : List (CgiField http)) : List (CgiHeader http) :=
  fields.filterMap fun
    | .status _ _ => none
    | .header h => some h

theorem statuses_status (code : UInt16) (hcode : 100 ≤ code.toNat ∧ code.toNat ≤ 999)
    (fields : List (CgiField http)) :
    statuses (.status code hcode :: fields) = statusOf code hcode :: statuses fields := rfl

theorem statuses_header (h : CgiHeader http) (fields : List (CgiField http)) :
    statuses (.header h :: fields) = statuses fields := rfl

theorem headersOf_status (code : UInt16) (hcode : 100 ≤ code.toNat ∧ code.toNat ≤ 999)
    (fields : List (CgiField http)) :
    headersOf (.status code hcode :: fields) = headersOf fields := rfl

theorem headersOf_header (h : CgiHeader http) (fields : List (CgiField http)) :
    headersOf (.header h :: fields) = h :: headersOf fields := rfl

/-- A block of header lines sets no status. -/
theorem statuses_map_header (headers : List (CgiHeader http)) :
    statuses (headers.map .header) = [] := by
  induction headers with
  | nil => rfl
  | cons h headers ih => rw [List.map_cons, statuses_header, ih]

theorem headersOf_map_header (headers : List (CgiHeader http)) :
    headersOf (headers.map .header) = headers := by
  induction headers with
  | nil => rfl
  | cons h headers ih => rw [List.map_cons, headersOf_header, ih]

/-- The name and the value of a header, as the `http` crate parses them. -/
def CgiHeader.pair (h : CgiHeader http) : http.HeaderName × http.HeaderValue :=
  (h.headerName, h.headerValue)

/-- A block sets the last of its status codes and inserts its headers in order. -/
theorem foldl_apply (fields : List (CgiField http)) (status : http.StatusCode)
    (m : http.HeaderMap) :
    fields.foldl CgiField.apply (status, m) =
      ((statuses fields).getLastD status,
        http.insertPairs m ((headersOf fields).map CgiHeader.pair)) := by
  induction fields generalizing status m with
  | nil => rfl
  | cons f fields ih =>
      rw [List.foldl_cons]
      cases f with
      | status code hcode =>
          rw [CgiField.apply, ih, statuses_status, headersOf_status, List.getLastD_cons]
      | header h =>
          rw [CgiField.apply, ih, statuses_header, headersOf_header]
          rfl

/-- Headers have different names exactly when the names differ in lower case. -/
theorem nodup_headerName_iff {headers : List (CgiHeader http)} :
    ((headers.map CgiHeader.pair).map Prod.fst).Nodup ↔
      headers.Pairwise fun a b =>
        Text.toAsciiLowercase a.name ≠ Text.toAsciiLowercase b.name := by
  rw [List.map_map, List.Nodup, List.pairwise_map]
  constructor
  · intro h
    refine h.imp fun {a b} hab heq => hab ?_
    exact (http.nameFromStr_eq_iff a.name_eq b.name_eq).mpr heq
  · intro h
    refine h.imp fun {a b} hab heq => hab ?_
    exact (http.nameFromStr_eq_iff a.name_eq b.name_eq).mp heq

/-- **CGI response round trip.** A guest that prints a `Status` line and header lines with
distinct names, in any order, then an empty line and any body, is understood exactly: the
parser does not panic, and returns that status, under every name the one value sent, no
other name, and that body. -/
theorem fromStr_roundTrip (http : Http) (unicode : Text.Unicode) (code : UInt16)
    (hcode : 100 ≤ code.toNat ∧ code.toNat ≤ 999) (headers : List (CgiHeader http))
    (hdistinct : headers.Pairwise fun a b =>
      Text.toAsciiLowercase a.name ≠ Text.toAsciiLowercase b.name)
    (fields : List (CgiField http))
    (hfields : fields.Perm (.status code hcode :: headers.map .header)) (body : Str) :
    ∃ r, CgiResponse.fromStr http unicode (payload fields body) = .ok r ∧
      http.asU16 r.status = code ∧ r.body = body ∧
      (∀ h ∈ headers, http.asStr h.headerName = Text.toAsciiLowercase h.name ∧
        http.valueBytes h.headerValue = Utf8.encode h.value ∧
        http.getAll r.headers h.headerName = [h.headerValue]) ∧
      ∀ n, http.getAll r.headers n ≠ [] → ∃ h ∈ headers, n = h.headerName := by
  have hne : fields ≠ [] := by
    rintro rfl
    exact absurd hfields.length_eq (by simp)
  have hstatus : statuses fields = [statusOf code hcode] := by
    have hperm : (statuses fields).Perm (statuses (.status code hcode :: headers.map .header)) :=
      hfields.filterMap _
    rw [statuses_status, statuses_map_header] at hperm
    exact List.perm_singleton.mp hperm
  have hheaders : (headersOf fields).Perm headers := by
    have hperm : (headersOf fields).Perm (headersOf (.status code hcode :: headers.map .header)) :=
      hfields.filterMap _
    rwa [headersOf_status, headersOf_map_header] at hperm
  have hnodup : (((headersOf fields).map CgiHeader.pair).map Prod.fst).Nodup :=
    ((hheaders.map _).map _).nodup_iff.mpr (nodup_headerName_iff.mpr hdistinct)
  refine ⟨_, fromStr_payload unicode hne body, ?_, rfl, ?_, ?_⟩
  · rw [foldl_apply, hstatus]
    exact asU16_statusOf code hcode
  · intro h hh
    refine ⟨(http.token_of_nameFromStr h.name_eq).2,
      (http.valueBytes_of_valueFromBytes (http.valueFromBytes_of_valueFromStr h.value_eq)).1, ?_⟩
    have hvalues := Grouping.valuesOf_of_nodup hnodup
      (List.mem_map_of_mem (f := CgiHeader.pair) (hheaders.mem_iff.mpr hh))
    rw [foldl_apply, http.getAll_insertPairs, show h.headerName = h.pair.1 from rfl, hvalues]
    rfl
  · intro n hn
    rw [foldl_apply, http.getAll_insertPairs] at hn
    have hsome : Grouping.valuesOf n ((headersOf fields).map CgiHeader.pair) ≠ [] := by
      intro hnil
      rw [hnil] at hn
      exact hn (http.getAll_emptyMap n)
    by_contra hnone
    refine hsome (Grouping.valuesOf_eq_nil_iff.mpr fun p hp heq => hnone ?_)
    obtain ⟨h, hh, rfl⟩ := List.mem_map.mp hp
    exact ⟨h, hheaders.mem_iff.mp hh, heq.symm⟩

end Render

/-- The header `X-Powered-By: wgi`. -/
def poweredBy : CgiHeader Http.reference where
  name := "X-Powered-By".toList
  value := "wgi".toList
  headerName := ⟨"x-powered-by".toList, by decide⟩
  headerValue := ⟨Utf8.encode "wgi".toList, rfl⟩
  name_eq := by decide
  value_eq := rfl
  not_status := by decide
  no_space c h := by
    obtain rfl : 'w' = c := Option.some.inj h
    rfl

/-- The round trip of a response whose `Status` line comes last and whose body begins with
empty lines and looks like a header. -/
theorem fromStr_roundTrip_notFound :
    ∃ r, CgiResponse.fromStr Http.reference Text.Unicode.ascii
        "X-Powered-By: wgi\nStatus: 404\n\n\n\nStatus: 500".toList = .ok r ∧
      Http.reference.asU16 r.status = 404 ∧ r.body = "\n\nStatus: 500".toList ∧
      Http.reference.getAll r.headers poweredBy.headerName = [poweredBy.headerValue] := by
  obtain ⟨r, hr, hstatus, hbody, hheaders, -⟩ := fromStr_roundTrip Http.reference
    Text.Unicode.ascii 404 (by decide) [poweredBy] (List.pairwise_singleton _ _)
    [.header poweredBy, .status 404 (by decide)] (List.Perm.swap _ _ _)
    "\n\nStatus: 500".toList
  exact ⟨r, hr, hstatus, hbody, (hheaders poweredBy List.mem_cons_self).2.2⟩

end Wgi
