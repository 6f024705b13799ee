import Wgi.CgiResponse

/-!
# Which Output of a Guest is Understood

`CgiResponse::from_str` declares that it cannot fail. It unwraps the status code, the name
and the value of every line it reads, so it returns only on output whose header block is
well formed in the sense of the `http` crate. The block ends at the first two adjacent line
feeds, though the lines in it may end in `\r\n`.

## Main results

* `fromStr_ok_iff`: on which output the parser returns.
* `crlf_misread`: a response whose lines end in `\r\n` is never read as the one whose lines
  end in `\n`.
* `reason_misread`: a `Status` line with a reason phrase always panics.
-/

namespace Wgi

open Fallible

variable {http : Http}

/-! ### When the parser returns -/

/-- A field the parser takes: a `Status` whose value is a status code, or a valid name with
a valid value. -/
def AcceptableField (http : Http) (unicode : Text.Unicode) (key value : Str) : Prop :=
  if unicode.toLowercase key = "status".toList then
    (http.statusFromStr (Text.trimStart value)).isSome
  else (http.nameFromStr key).isSome ∧ (http.valueFromStr (Text.trimStart value)).isSome

/-- A line the parser takes: one without a colon, or one with an acceptable field. -/
def Acceptable (http : Http) (unicode : Text.Unicode) (line : Str) : Prop :=
  ∀ key value, Text.splitOnce ':' line = some (key, value) →
    AcceptableField http unicode key value

theorem acceptable_iff {unicode : Text.Unicode} {line key value : Str}
    (h : Text.splitOnce ':' line = some (key, value)) :
    Acceptable http unicode line ↔ AcceptableField http unicode key value := by
  constructor
  · intro hline
    exact hline key value h
  · intro hfield key' value' h'
    obtain ⟨rfl, rfl⟩ := Prod.mk.inj (Option.some.inj (h.symm.trans h'))
    exact hfield

/-- The body of the loop returns exactly on an acceptable line, whatever was read before. -/
theorem exists_headerLine_iff (unicode : Text.Unicode) (vars : http.StatusCode × http.HeaderMap)
    (line : Str) :
    (∃ vars', headerLine http unicode vars line = .ok vars') ↔ Acceptable http unicode line := by
  rw [headerLine]
  cases hsplit : Text.splitOnce ':' line with
  | none =>
      refine ⟨fun _ key value h => ?_, fun _ => ⟨vars, rfl⟩⟩
      rw [hsplit] at h
      exact absurd h (by simp)
  | some p =>
      obtain ⟨key, value⟩ := p
      rw [acceptable_iff hsplit, AcceptableField]
      by_cases hkey : unicode.toLowercase key = "status".toList
      · simp only [if_pos hkey]
        cases http.statusFromStr (Text.trimStart value) with
        | none => simp [bind, Except.bind]
        | some status => simp [pure, Except.pure]
      · simp only [if_neg hkey]
        cases http.nameFromStr key with
        | none => simp [bind, Except.bind]
        | some name =>
            cases http.valueFromStr (Text.trimStart value) with
            | none => simp [bind, Except.bind]
            | some v => simp [pure, Except.pure]

/-- **When the parser returns**: exactly when the output has no empty line, or every line
before the first empty one is acceptable. -/
theorem fromStr_ok_iff (http : Http) (unicode : Text.Unicode) (payload : Str) :
    (∃ r, CgiResponse.fromStr http unicode payload = .ok r) ↔
      ∀ header body, Text.splitOnceList ['\n', '\n'] payload = some (header, body) →
        ∀ line ∈ Text.lines header, Acceptable http unicode line := by
  rw [CgiResponse.fromStr]
  cases hsplit : Text.splitOnceList ['\n', '\n'] payload with
  | none => exact ⟨fun _ _ _ h => absurd h (by simp), fun _ => ⟨_, rfl⟩⟩
  | some p =>
      obtain ⟨header, body⟩ := p
      have hloop : (∃ vars, (Text.lines header).foldlM (headerLine http unicode)
          (http.statusOk, http.emptyMap) = .ok vars) ↔
            ∀ line ∈ Text.lines header, Acceptable http unicode line :=
        exists_foldlM_iff (exists_headerLine_iff unicode)
      constructor
      · rintro ⟨r, hr⟩ header' body' h
        obtain ⟨rfl, rfl⟩ := Prod.mk.inj (Option.some.inj h)
        obtain ⟨vars, hvars, -⟩ := bind_eq_ok_iff.mp hr
        exact hloop.mp ⟨vars, hvars⟩
      · intro h
        obtain ⟨vars, hvars⟩ := hloop.mpr (h header body rfl)
        exact ⟨_, bind_eq_ok_iff.mpr ⟨vars, hvars, rfl⟩⟩

/-- A guest that prints a greeting with a colon in it makes the parser panic. -/
theorem fromStr_panics :
    ¬ ∀ (http : Http) (unicode : Text.Unicode) (payload : Str),
      ∃ r, CgiResponse.fromStr http unicode payload = .ok r := by
  intro h
  obtain ⟨r, hr⟩ := h Http.reference Text.Unicode.ascii "Hello world: hi\n\n".toList
  have hpanic : CgiResponse.fromStr Http.reference Text.Unicode.ascii
      "Hello world: hi\n\n".toList = .error (.unwrap .headerName) := rfl
  rw [hpanic] at hr
  exact nomatch hr

/-! ### Line endings -/

/-- Two outputs are read alike: the parser returns on both, with the same status, headers
and body. -/
def ReadAlike (http : Http) (unicode : Text.Unicode) (p q : Str) : Prop :=
  ∃ r s, CgiResponse.fromStr http unicode p = .ok r ∧
    CgiResponse.fromStr http unicode q = .ok s ∧ r.status = s.status ∧
    (∀ n, http.getAll r.headers n = http.getAll s.headers n) ∧ r.body = s.body

/-- What a guest prints whose header lines and empty line end in `\r\n`. -/
def crlfPayload (fields : List (CgiField http)) (body : Str) : Str :=
  fields.flatMap (fun f => f.line ++ ['\r', '\n']) ++ '\r' :: '\n' :: body

/-- The lines of that block, as seen by a reader who splits at line feeds. -/
def crlfLines (fields : List (CgiField http)) : List Str :=
  (fields.map fun f => f.line ++ ['\r']) ++ [['\r']]

theorem crlfPayload_eq (fields : List (CgiField http)) (body : Str) :
    crlfPayload fields body = Text.block '\n' (crlfLines fields) ++ body := by
  simp [crlfPayload, crlfLines, Text.block, List.flatMap_append, List.flatMap_map]

theorem crlfLines_ne_nil (fields : List (CgiField http)) : crlfLines fields ≠ [] :=
  List.append_ne_nil_of_right_ne_nil _ (List.cons_ne_nil _ _)

/-- None of them is empty: there is no empty line for such a reader. -/
theorem crlfLines_wf (fields : List (CgiField http)) :
    ∀ l ∈ crlfLines fields, l ≠ [] ∧ '\n' ∉ l := by
  intro l hl
  rcases List.mem_append.mp hl with hl | hl
  · obtain ⟨f, -, rfl⟩ := List.mem_map.mp hl
    refine ⟨List.append_ne_nil_of_right_ne_nil _ (List.cons_ne_nil _ _), fun hmem => ?_⟩
    rcases List.mem_append.mp hmem with hmem | hmem
    · exact f.line_wf.2.1 hmem
    · exact absurd (List.mem_singleton.mp hmem) (by decide)
  · rw [List.mem_singleton.mp hl]
    exact ⟨List.cons_ne_nil _ _, by decide⟩

/-- The body that the parser returns is what follows the first two adjacent line feeds, or
everything. -/
theorem body_of_fromStr {unicode : Text.Unicode} {payload : Str} {r : CgiResponse http}
    (h : CgiResponse.fromStr http unicode payload = .ok r) :
    r.body = ((Text.splitOnceList ['\n', '\n'] payload).map Prod.snd).getD payload := by
  rw [CgiResponse.fromStr] at h
  cases hsplit : Text.splitOnceList ['\n', '\n'] payload with
  | none =>
      rw [hsplit] at h
      obtain rfl := Except.ok.inj h
      rfl
  | some p =>
      rw [hsplit] at h
      obtain ⟨vars, -, hr⟩ := bind_eq_ok_iff.mp h
      obtain rfl := Except.ok.inj hr
      rfl

/-- The body of a response with `\r\n` line ends is never returned: what is returned is
longer, when everything is taken for the body, or shorter, when an empty line within the
body is taken for the end of the header block. -/
theorem length_body_of_crlf {unicode : Text.Unicode} {fields : List (CgiField http)} {body : Str}
    {r : CgiResponse http}
    (h : CgiResponse.fromStr http unicode (crlfPayload fields body) = .ok r) :
    r.body.length ≠ body.length := by
  have hbody := body_of_fromStr h
  have hblock := Text.splitOnceList_append_block (crlfLines_ne_nil fields) (crlfLines_wf fields)
    body
  rw [← crlfPayload_eq] at hblock
  rw [hblock] at hbody
  by_cases hhead : body.head? = some '\n'
  · obtain ⟨rest, rfl⟩ := List.head?_eq_some_iff.mp hhead
    rw [if_pos hhead] at hbody
    rw [hbody, List.length_cons]
    exact Nat.ne_of_lt (Nat.lt_succ_self rest.length)
  · rw [if_neg hhead] at hbody
    cases hsplit : Text.splitOnceList ['\n', '\n'] body with
    | none =>
        rw [hsplit] at hbody
        have hlen : r.body.length = (crlfPayload fields body).length := by rw [hbody]; rfl
        rw [crlfPayload, List.length_append, List.length_cons, List.length_cons] at hlen
        omega
    | some p =>
        rw [hsplit] at hbody
        have hlen := congrArg List.length (Text.eq_of_splitOnceList hsplit)
        rw [List.length_append, List.length_append, List.length_cons, List.length_singleton] at hlen
        have hrest : r.body = p.2 := hbody
        rw [hrest]
        omega

/-- **Line endings are never interchangeable**: whatever the header lines and the body are,
a response is read otherwise when its header lines and its empty line end in `\r\n`
instead of `\n`. -/
theorem crlf_misread (http : Http) (unicode : Text.Unicode) (fields : List (CgiField http))
    (hfields : fields ≠ []) (body : Str) :
    ¬ ReadAlike http unicode (payload fields body) (crlfPayload fields body) := by
  rintro ⟨r, s, hr, hs, -, -, hbody⟩
  rw [fromStr_payload unicode hfields, Except.ok.injEq] at hr
  have hlen := length_body_of_crlf hs
  rw [← hbody, ← hr] at hlen
  exact hlen rfl

/-- A response with one header and no body. -/
theorem crlf_misread_poweredBy :
    ([.header poweredBy] : List (CgiField Http.reference)) ≠ [] ∧
      ¬ ReadAlike Http.reference Text.Unicode.ascii (payload [.header poweredBy] [])
        (crlfPayload [.header poweredBy] []) :=
  ⟨List.cons_ne_nil _ _, crlf_misread Http.reference Text.Unicode.ascii [.header poweredBy]
    (List.cons_ne_nil _ _) []⟩

/-- With `\r\n` line ends the whole output is taken for the body. -/
theorem crlf_poweredBy :
    ¬ ∀ (http : Http) (unicode : Text.Unicode) (fields : List (CgiField http)) (body : Str),
      fields ≠ [] → (headersOf fields).Pairwise (fun a b =>
        Text.toAsciiLowercase a.name ≠ Text.toAsciiLowercase b.name) →
      ReadAlike http unicode (payload fields body) (crlfPayload fields body) := by
  intro h
  obtain ⟨r, s, hr, hs, -, -, hbody⟩ := h Http.reference Text.Unicode.ascii [.header poweredBy] []
    (List.cons_ne_nil _ _) (List.pairwise_singleton _ _)
  rw [body_of_fromStr hr, body_of_fromStr hs] at hbody
  exact absurd hbody (by decide)

/-! ### Reason phrases -/

/-- The characters of a reason phrase: visible ASCII and the space. -/
def isReasonChar (c : Char) : Bool :=
  32 ≤ c.toNat && c.toNat ≤ 126

/-- A `Status` line with a reason phrase. -/
def reasonLine (code : UInt16) (reason : Str) : Str :=
  "Status".toList ++ ':' :: ' ' :: (Nat.toDigits 10 code.toNat ++ ' ' :: reason)

/-- What a guest prints whose `Status` line carries a reason phrase, among other headers. -/
def reasonPayload (before after : List (CgiHeader http)) (code : UInt16) (reason body : Str) :
    Str :=
  Text.block '\n' ((before.map .header).map CgiField.line ++
    reasonLine code reason :: (after.map .header).map CgiField.line) ++ '\n' :: body

theorem notMem_reason {reason : Str} (h : reason.all isReasonChar = true) {c : Char}
    (hc : isReasonChar c = false) : c ∉ reason := by
  intro hmem
  rw [List.all_eq_true.mp h c hmem] at hc
  exact absurd hc (by simp)

theorem reasonLine_wf (code : UInt16) {reason : Str} (h : reason.all isReasonChar = true) :
    LineWf (reasonLine code reason) := by
  have hvalue : ∀ c : Char, c.isDigit = false → isReasonChar c = false → c ≠ ' ' →
      c ∉ Nat.toDigits 10 code.toNat ++ ' ' :: reason := by
    intro c hdigit hreason hspace
    rw [List.mem_append, List.mem_cons, not_or, not_or]
    exact ⟨notMem_toDigits hdigit _, hspace, notMem_reason h hreason⟩
  exact lineWf_status ⟨hvalue '\n' rfl rfl (by decide), hvalue '\r' rfl rfl (by decide)⟩

/-- A code with anything behind it is not the text of a status code. -/
theorem statusFromStr_reason (code : UInt16) (reason : Str) :
    http.statusFromStr (Nat.toDigits 10 code.toNat ++ ' ' :: reason) = none := by
  rw [Option.eq_none_iff_forall_ne_some]
  intro status hstatus
  have htext := http.statusFromStr_eq_some_iff.mp hstatus
  refine notMem_toDigits (c := ' ') rfl (http.asU16 status).toNat ?_
  rw [← htext]
  exact List.mem_append_right _ List.mem_cons_self

/-- The loop panics on the line. -/
theorem headerLine_reasonLine (unicode : Text.Unicode) (vars : http.StatusCode × http.HeaderMap)
    (code : UInt16) (reason : Str) :
    headerLine http unicode vars (reasonLine code reason) = .error (.unwrap .statusCode) := by
  have hhead : ∀ c, (Nat.toDigits 10 code.toNat ++ ' ' :: reason).head? = some c →
      Text.isWhitespace c = false := by
    intro c hc
    rw [List.head?_append_of_ne_nil _ Nat.toDigits_ne_nil] at hc
    exact head_toDigits _ c hc
  have hline := headerLine_status unicode vars hhead
  rw [statusFromStr_reason] at hline
  exact hline

/-- **Reason phrases are never accepted**: a response whose `Status` line carries a reason
phrase, even an empty one, makes the parser panic, wherever the line stands and whatever
else is printed; so it is not read as the response that carries the code alone. -/
theorem reason_misread (http : Http) (unicode : Text.Unicode) (code : UInt16)
    (hcode : 100 ≤ code.toNat ∧ code.toNat ≤ 999) (reason : Str)
    (hreason : reason.all isReasonChar = true) (before after : List (CgiHeader http))
    (body : Str) :
    CgiResponse.fromStr http unicode (reasonPayload before after code reason body) =
        .error (.unwrap .statusCode) ∧
      ¬ ReadAlike http unicode
        (payload (before.map .header ++ .status code hcode :: after.map .header) body)
        (reasonPayload before after code reason body) := by
  have hwf : ∀ l ∈ (before.map CgiField.header).map CgiField.line ++
      reasonLine code reason :: (after.map CgiField.header).map CgiField.line, LineWf l := by
    intro l hl
    rw [List.mem_append, List.mem_cons] at hl
    rcases hl with hl | rfl | hl
    · exact lineWf_of_mem l hl
    · exact reasonLine_wf code hreason
    · exact lineWf_of_mem l hl
  have hpanic : CgiResponse.fromStr http unicode (reasonPayload before after code reason body) =
      .error (.unwrap .statusCode) := by
    rw [reasonPayload, fromStr_block unicode
      (List.append_ne_nil_of_right_ne_nil _ (List.cons_ne_nil _ _)) hwf, List.foldlM_append,
      foldlM_headerLine, ok_bind, List.foldlM_cons, headerLine_reasonLine]
    rfl
  refine ⟨hpanic, ?_⟩
  rintro ⟨r, s, -, hs, -⟩
  rw [hpanic] at hs
  exact absurd hs (by simp)

/-- `Status: 404 Not Found` behind another header. -/
theorem reason_misread_notFound :
    CgiResponse.fromStr Http.reference Text.Unicode.ascii
        "X-Powered-By: wgi\nStatus: 404 Not Found\n\n".toList = .error (.unwrap .statusCode) ∧
      ¬ ReadAlike Http.reference Text.Unicode.ascii
        (payload ([poweredBy].map .header ++ [.status 404 (by decide)]) [])
        "X-Powered-By: wgi\nStatus: 404 Not Found\n\n".toList :=
  reason_misread Http.reference Text.Unicode.ascii 404 (by decide) "Not Found".toList rfl
    [poweredBy] [] []

/-- So a reason phrase is not ignored. -/
theorem reason_notFound :
    ¬ ∀ (http : Http) (unicode : Text.Unicode) (code : UInt16)
      (hcode : 100 ≤ code.toNat ∧ code.toNat ≤ 999) (reason : Str)
      (before after : List (CgiHeader http)) (body : Str), reason.all isReasonChar = true →
      (before ++ after).Pairwise (fun a b =>
        Text.toAsciiLowercase a.name ≠ Text.toAsciiLowercase b.name) →
      ReadAlike http unicode
        (payload (before.map .header ++ .status code hcode :: after.map .header) body)
        (reasonPayload before after code reason body) := by
  intro h
  obtain ⟨r, s, -, hs, -⟩ := h Http.reference Text.Unicode.ascii 404 (by decide)
    "Not Found".toList [] [] [] rfl List.Pairwise.nil
  exact nomatch hs

end Wgi
