import Wgi.JsmnTokens

/-!
# The Tokens of JSON

For a text that is JSON the tokens are known exactly: the values and the keys of the document
in the order in which they begin, each with the piece of the text it was written in, and with
its number of children. A key has one child, the value of its member.

Documents are trees with their white space, so that every text of a document is covered. The
leaves carry the proof that the tokenizer can read them: all numbers and all of `true`, `false`
and `null` are primitives here, and so is every other word without a character that ends
primitives.

## Main results

* `stringSpan_units`, `exists_units_of_stringSpan`: the strings of the tokenizer are those of
  JSON.
* `Json.read`, `Elems.read`, `Members.read`: the tokenizer goes over a value, over the elements
  of an array and over the members of an object.
* `parse_json`: a call of `jsmn_parse` on the text of a document makes the tokens of the
  document.
-/

namespace Wgi.Jsmn

open LastIndex

/-! ### Documents -/

/-- A character of white space. -/
def isSpace (c : UInt8) : Bool :=
  c == 9 || c == 13 || c == 10 || c == 32

/-- White space. -/
structure Space where
  text : Bytes
  blank : text.all isSpace = true

/-- A primitive: it is not empty, it does not begin like another value, and none of its
characters ends it. -/
structure Atom where
  text : Bytes
  nonempty : text ≠ []
  first : ∀ c ∈ text.head?, c ≠ 123 ∧ c ≠ 91 ∧ c ≠ 34
  chars : text.all isPrimitiveChar = true

/-- The characters of a string between its quotes, with all its escapes. -/
structure Quoted where
  body : Bytes
  scans : stringSpan .plain (body ++ [34]) = .ok body.length

/-! ### Strings -/

/-- A piece of a JSON string: a character that needs no escape, an escape of one character, or
an escape with four hexadecimal digits. -/
inductive StringUnit where
  | plain (c : UInt8) (hc : c ≠ 0 ∧ c ≠ 34 ∧ c ≠ 92)
  | escape (c : UInt8) (hc : isEscape c = true)
  | unicode (d₁ d₂ d₃ d₄ : UInt8) (hd : [d₁, d₂, d₃, d₄].all isHexDigit = true)

/-- A piece of a string as it is written. -/
def StringUnit.text : StringUnit → Bytes
  | .plain c _ => [c]
  | .escape c _ => [92, c]
  | .unicode d₁ d₂ d₃ d₄ _ => [92, 117, d₁, d₂, d₃, d₄]

/-- A hexadecimal digit is no NUL. -/
theorem ne_zero_of_isHexDigit {c : UInt8} (h : isHexDigit c = true) : c ≠ 0 := by
  rintro rfl
  exact absurd h (by decide)

/-- No piece of a string has a NUL. -/
theorem StringUnit.notMem (unit : StringUnit) : 0 ∉ unit.text := by
  cases unit with
  | plain c hc => simpa [StringUnit.text] using hc.1.symm
  | escape c hc =>
      have hne : (0 : UInt8) ≠ c := by
        rintro rfl
        exact absurd hc (by decide)
      simp [StringUnit.text, hne]
  | unicode d₁ d₂ d₃ d₄ hd =>
      simp only [List.all_cons, List.all_nil, Bool.and_true, Bool.and_eq_true] at hd
      obtain ⟨h₁, h₂, h₃, h₄⟩ := hd
      simp [StringUnit.text, (ne_zero_of_isHexDigit h₁).symm, (ne_zero_of_isHexDigit h₂).symm,
        (ne_zero_of_isHexDigit h₃).symm, (ne_zero_of_isHexDigit h₄).symm]

/-- A digit that the scan of a string goes over. -/
theorem stringSpan_digit {c : UInt8} (h : isHexDigit c = true) (left : ℕ) (cs : Bytes) :
    stringSpan (.digit left) (c :: cs) = (stringSpan (.afterDigit left) cs).map (· + 1) := by
  rw [stringSpan, if_neg (ne_zero_of_isHexDigit h), if_pos h]

/-- **One piece**: the scan of a string goes over it and expects the next. -/
theorem stringSpan_unit (unit : StringUnit) (cs : Bytes) :
    stringSpan .plain (unit.text ++ cs) =
      (stringSpan .plain cs).map (· + unit.text.length) := by
  cases unit with
  | plain c hc => simp [StringUnit.text, stringSpan, hc]
  | escape c hc =>
      simp only [StringUnit.text, List.cons_append, List.nil_append, stringSpan, hc]
      cases stringSpan .plain cs <;> rfl
  | unicode d₁ d₂ d₃ d₄ hd =>
      simp only [List.all_cons, List.all_nil, Bool.and_true, Bool.and_eq_true] at hd
      obtain ⟨h₁, h₂, h₃, h₄⟩ := hd
      have hu : ∀ cs, stringSpan .plain (92 :: 117 :: cs) =
          ((stringSpan (.digit 3) cs).map (· + 1)).map (· + 1) := fun cs => rfl
      simp only [StringUnit.text, List.cons_append, List.nil_append, hu, stringSpan_digit h₁,
        stringSpan_digit h₂, stringSpan_digit h₃, stringSpan_digit h₄, Expect.afterDigit]
      cases stringSpan .plain cs <;> rfl

/-- **Every JSON string** is one for the tokenizer. -/
theorem stringSpan_units (units : List StringUnit) :
    stringSpan .plain (units.flatMap StringUnit.text ++ [34]) =
      .ok (units.flatMap StringUnit.text).length := by
  induction units with
  | nil => rfl
  | cons unit units ih =>
      rw [List.flatMap_cons, List.append_assoc, stringSpan_unit, ih, List.length_append,
        Nat.add_comm]
      rfl

/-- A scan that goes over one character more than another. -/
theorem map_succ_ok {x : Except Err ℕ} {n : ℕ} (h : x.map (· + 1) = .ok (n + 1)) : x = .ok n := by
  obtain ⟨m, hx, hm⟩ := map_succ_eq_ok h
  rw [hx, Nat.succ.inj hm]

/-- A scan that expects a digit and goes over all characters but the last quote goes over a
digit first. -/
theorem digit_of_stringSpan {left : ℕ} {body : Bytes}
    (h : stringSpan (.digit left) (body ++ [34]) = .ok body.length) :
    ∃ d rest, body = d :: rest ∧ isHexDigit d = true ∧
      stringSpan (.afterDigit left) (rest ++ [34]) = .ok rest.length := by
  cases body with
  | nil => simp [stringSpan, isHexDigit] at h
  | cons d rest =>
      rw [List.cons_append, stringSpan] at h
      split_ifs at h with h0 hd
      exact ⟨d, rest, rfl, hd, map_succ_ok h⟩

/-- **Every string of the tokenizer** is one of JSON, in which control characters need no
escape. -/
theorem exists_units_of_stringSpan (body : Bytes)
    (h : stringSpan .plain (body ++ [34]) = .ok body.length) :
    ∃ units : List StringUnit, body = units.flatMap StringUnit.text := by
  induction hn : body.length using Nat.strong_induction_on generalizing body with
  | h n ih =>
      cases body with
      | nil => exact ⟨[], rfl⟩
      | cons c rest =>
          rw [List.length_cons] at hn
          rw [List.cons_append, stringSpan] at h
          split_ifs at h with h0 hquote hslash
          · simp at h
          · -- an escape, of one character or with four digits
            subst hslash
            have hescape := map_succ_ok h
            cases rest with
            | nil => simp [stringSpan, isEscape, Except.map] at hescape
            | cons d rest =>
                rw [List.length_cons] at hn
                rw [List.cons_append, stringSpan] at hescape
                split_ifs at hescape with hd hu
                · obtain ⟨units, rfl⟩ := ih rest.length (by omega) rest (map_succ_ok hescape) rfl
                  exact ⟨.escape d hd :: units, rfl⟩
                · subst hu
                  obtain ⟨d₁, rest₁, rfl, h₁, hspan₁⟩ := digit_of_stringSpan (map_succ_ok hescape)
                  obtain ⟨d₂, rest₂, rfl, h₂, hspan₂⟩ := digit_of_stringSpan hspan₁
                  obtain ⟨d₃, rest₃, rfl, h₃, hspan₃⟩ := digit_of_stringSpan hspan₂
                  obtain ⟨d₄, rest₄, rfl, h₄, hspan₄⟩ := digit_of_stringSpan hspan₃
                  simp only [List.length_cons] at hn
                  obtain ⟨units, rfl⟩ := ih rest₄.length (by omega) rest₄ hspan₄ rfl
                  exact ⟨.unicode d₁ d₂ d₃ d₄ (by simp [h₁, h₂, h₃, h₄]) :: units, rfl⟩
          · obtain ⟨units, rfl⟩ := ih rest.length (by omega) rest (map_succ_ok h) rfl
            exact ⟨.plain c ⟨h0, hquote, hslash⟩ :: units, rfl⟩

/-- No string has a NUL. -/
theorem Quoted.notMem_body (quoted : Quoted) : 0 ∉ quoted.body := by
  obtain ⟨units, hunits⟩ := exists_units_of_stringSpan quoted.body quoted.scans
  rw [hunits, List.mem_flatMap]
  rintro ⟨unit, -, h0⟩
  exact unit.notMem h0

/-- The string with the given pieces. -/
def Quoted.ofUnits (units : List StringUnit) : Quoted :=
  ⟨units.flatMap StringUnit.text, stringSpan_units units⟩

mutual

/-- A JSON value. -/
inductive Json where
  | primitive (atom : Atom)
  | string (quoted : Quoted)
  | array (inner : Space) (elems : Elems)
  | object (inner : Space) (members : Members)

/-- The elements of an array, each with the white space around it. -/
inductive Elems where
  | nil
  | cons (before : Space) (value : Json) (after : Space) (rest : Elems)

/-- The members of an object, each with the white space around its key and its value. -/
inductive Members where
  | nil
  | cons (before : Space) (key : Quoted) (colon : Space) (value : Space) (json : Json)
      (after : Space) (rest : Members)

end

/-- A string with its quotes. -/
def Quoted.text (quoted : Quoted) : Bytes :=
  34 :: quoted.body ++ [34]

mutual

/-- The text of a value. -/
def Json.text : Json → Bytes
  | .primitive atom => atom.text
  | .string quoted => quoted.text
  | .array inner elems => 91 :: (inner.text ++ (elems.text [] ++ [93]))
  | .object inner members => 123 :: (inner.text ++ (members.text [] ++ [125]))

/-- The text of elements, the first of which stands behind `sep`. -/
def Elems.text (sep : Bytes) : Elems → Bytes
  | .nil => []
  | .cons before value after rest =>
      sep ++ (before.text ++ (value.text ++ (after.text ++ rest.text [44])))

/-- The text of members, the first of which stands behind `sep`. -/
def Members.text (sep : Bytes) : Members → Bytes
  | .nil => []
  | .cons before key colon value json after rest =>
      sep ++ (before.text ++ (key.text ++ (colon.text ++ (58 :: (value.text ++
        (json.text ++ (after.text ++ rest.text [44])))))))

end

/-- The number of elements. -/
def Elems.length : Elems → ℕ
  | .nil => 0
  | .cons _ _ _ rest => rest.length + 1

/-- The number of members. -/
def Members.length : Members → ℕ
  | .nil => 0
  | .cons _ _ _ _ _ _ rest => rest.length + 1

/-- The token of a string whose opening quote stands at `pos`. -/
def Quoted.token (quoted : Quoted) (pos size : ℕ) : Token :=
  ⟨.string, pos + 1, pos + 1 + quoted.body.length, size⟩

mutual

/-- The tokens of a value whose text begins at `pos`. -/
def Json.tokens (pos : ℕ) : Json → List Token
  | .primitive atom => [⟨.primitive, pos, pos + atom.text.length, 0⟩]
  | .string quoted => [quoted.token pos 0]
  | .array inner elems =>
      ⟨.array, pos, pos + (Json.array inner elems).text.length, elems.length⟩ ::
        elems.tokens [] (pos + 1 + inner.text.length)
  | .object inner members =>
      ⟨.object, pos, pos + (Json.object inner members).text.length, members.length⟩ ::
        members.tokens [] (pos + 1 + inner.text.length)

/-- The tokens of elements whose text begins at `pos`. -/
def Elems.tokens (sep : Bytes) (pos : ℕ) : Elems → List Token
  | .nil => []
  | .cons before value after rest =>
      let start := pos + sep.length + before.text.length
      value.tokens start ++ rest.tokens [44] (start + value.text.length + after.text.length)

/-- The tokens of members whose text begins at `pos`. -/
def Members.tokens (sep : Bytes) (pos : ℕ) : Members → List Token
  | .nil => []
  | .cons before key colon value json after rest =>
      let start := pos + sep.length + before.text.length
      let next := start + key.text.length + colon.text.length + 1 + value.text.length
      key.token start 1 :: (json.tokens next ++
        rest.tokens [44] (next + json.text.length + after.text.length))

end

/-! ### The tokens of a document have ended -/

mutual

theorem Json.tokens_ended (pos : ℕ) (j : Json) : lastIdx Token.isOpen (j.tokens pos) = none := by
  cases j with
  | primitive atom =>
      rw [Json.tokens, lastIdx, lastIdx, Token.not_isOpen_of_stop (n := pos + atom.text.length)]
      · rfl
      · push_cast
        rfl
  | string quoted =>
      rw [Json.tokens, lastIdx, lastIdx,
        Token.not_isOpen_of_stop (n := pos + 1 + quoted.body.length)]
      · rfl
      · push_cast [Quoted.token]
        rfl
  | array inner elems =>
      rw [Json.tokens, lastIdx, Elems.tokens_ended, Token.not_isOpen_of_stop
        (n := pos + (Json.array inner elems).text.length)]
      · rfl
      · push_cast
        rfl
  | object inner members =>
      rw [Json.tokens, lastIdx, Members.tokens_ended, Token.not_isOpen_of_stop
        (n := pos + (Json.object inner members).text.length)]
      · rfl
      · push_cast
        rfl

theorem Elems.tokens_ended (sep : Bytes) (pos : ℕ) (elems : Elems) :
    lastIdx Token.isOpen (elems.tokens sep pos) = none := by
  cases elems with
  | nil => rfl
  | cons before value after rest =>
      rw [Elems.tokens, lastIdx_append_of_none (Elems.tokens_ended _ _ rest)]
      exact Json.tokens_ended _ value

theorem Members.tokens_ended (sep : Bytes) (pos : ℕ) (members : Members) :
    lastIdx Token.isOpen (members.tokens sep pos) = none := by
  cases members with
  | nil => rfl
  | cons before key colon value json after rest =>
      rw [Members.tokens, lastIdx, lastIdx_append_of_none (Members.tokens_ended _ _ rest),
        Json.tokens_ended _ json,
        Token.not_isOpen_of_stop (n := pos + sep.length + before.text.length + 1 + key.body.length)]
      · rfl
      · push_cast [Quoted.token]
        rfl

end

/-! ### Going over a text -/

section Read

variable {js : Bytes} {cap : ℕ}

/-- What is left behind a piece of the text. -/
theorem drop_of_append {pos : ℕ} {t tail : Bytes} (h : js.drop pos = t ++ tail) :
    js.drop (pos + t.length) = tail := by
  rw [← List.drop_drop, h, List.drop_left]

/-- White space behind a primitive delimits it, as does what stands behind the white space. -/
theorem Space.delimited (ws : Space) {tail : Bytes} (h : Delimited tail) :
    Delimited (ws.text ++ tail) := by
  obtain ⟨text, blank⟩ := ws
  cases text with
  | nil => exact h
  | cons c cs =>
      rw [List.all_cons, Bool.and_eq_true] at blank
      refine Or.inr ?_
      have hc := blank.1
      simp only [isSpace, Bool.or_eq_true, beq_iff_eq] at hc
      rcases hc with ((rfl | rfl) | rfl) | rfl <;> rfl

/-- **White space** is skipped. -/
theorem Space.read (ws : Space) {s : State} {tail : Bytes}
    (hrest : js.drop s.pos = ws.text ++ tail) :
    tokenize js cap s = tokenize js cap { s with pos := s.pos + ws.text.length } := by
  obtain ⟨text, blank⟩ := ws
  induction text generalizing s with
  | nil => rfl
  | cons c cs ih =>
      rw [List.all_cons, Bool.and_eq_true] at blank
      have hc : c = 9 ∨ c = 13 ∨ c = 10 ∨ c = 32 := by
        simpa [isSpace, or_assoc] using blank.1
      have hlex : lex (js.drop s.pos) = .ok .space := by
        rw [hrest]
        exact lex_complete (.space hc (cs ++ tail))
      have hnext : js.drop (s.pos + 1) = cs ++ tail := drop_of_append (t := [c]) hrest
      rw [tokenize_of_ok hlex rfl, ih blank.2 hnext]
      simp only [List.length_cons, Nat.add_assoc, Nat.add_comm 1]

/-- A leaf makes its token. -/
theorem read_leaf {s : State} {type : TokType} {quote len : ℕ}
    (hlex : lex (js.drop s.pos) = .ok (.leaf type quote len)) (hroom : s.toks.length + 1 ≤ cap) :
    tokenize js cap s = tokenize js cap ⟨s.pos + (len + 2 * quote),
      bump s.super s.toks ++ [⟨type, s.pos + quote, s.pos + quote + len, 0⟩], s.super⟩ := by
  refine tokenize_of_ok hlex ?_
  rw [State.advance, if_neg (by omega)]

/-- **A string** is one token. -/
theorem Quoted.read (quoted : Quoted) {s : State} {tail : Bytes}
    (hrest : js.drop s.pos = quoted.text ++ tail) (hroom : s.toks.length + 1 ≤ cap) :
    tokenize js cap s = tokenize js cap ⟨s.pos + quoted.text.length,
      bump s.super s.toks ++ [quoted.token s.pos 0], s.super⟩ := by
  obtain ⟨body, scans⟩ := quoted
  obtain ⟨body', tail', hsplit, hlen, hall⟩ := stringSpan_split scans
  obtain ⟨rfl, -⟩ := List.append_inj hsplit hlen.symm
  have htext : js.drop s.pos = 34 :: (body ++ 34 :: tail) := by
    rw [hrest]
    simp [Quoted.text]
  have hlex : lex (js.drop s.pos) = .ok (.leaf .string 1 body.length) := by
    rw [htext]
    exact lex_complete (.string (hall tail))
  rw [read_leaf hlex hroom]
  simp only [Quoted.text, Quoted.token, List.length_append, List.length_cons, List.length_nil]
  congr 3

/-- **A primitive** is one token. -/
theorem Atom.read (atom : Atom) {s : State} {tail : Bytes}
    (hrest : js.drop s.pos = atom.text ++ tail) (htail : Delimited tail)
    (hroom : s.toks.length + 1 ≤ cap) :
    tokenize js cap s = tokenize js cap ⟨s.pos + atom.text.length,
      bump s.super s.toks ++ [⟨.primitive, s.pos, s.pos + atom.text.length, 0⟩], s.super⟩ := by
  obtain ⟨text, hne, hfirst, hchars⟩ := atom
  cases text with
  | nil => exact absurd rfl hne
  | cons c cs =>
      have hlex : lex (js.drop s.pos) = .ok (.leaf .primitive 0 (c :: cs).length) := by
        rw [hrest]
        refine lex_complete (.primitive (hfirst c rfl) ?_ (Nat.succ_pos _))
        exact primitiveSpan_append hchars htail
      rw [read_leaf hlex hroom]
      simp

/-- More children of the parent leave the open tokens open. -/
theorem lastIdx_bump (super : Option ℕ) (toks : List Token) :
    lastIdx Token.isOpen (bump super toks) = lastIdx Token.isOpen toks := by
  have hspan := lastIdx_map (fun span : Span => span.start != -1 && span.stop == -1) Token.span
  calc lastIdx Token.isOpen (bump super toks)
      = lastIdx (fun span : Span => span.start != -1 && span.stop == -1)
          ((bump super toks).map Token.span) := (hspan _).symm
    _ = lastIdx (fun span : Span => span.start != -1 && span.stop == -1)
          (toks.map Token.span) := by rw [bump_map_span]
    _ = lastIdx Token.isOpen toks := hspan _

/-- One more child of an open container. -/
theorem bump_frame (pre done : List Token) (frame : Token) :
    bump (some pre.length) (pre ++ frame :: done) =
      pre ++ { frame with size := frame.size + 1 } :: done := by
  simp [bump, List.modify_eq_set_getElem?]

/-- **A comma** behind an element or a member: the open container is the parent again. -/
theorem read_comma {s : State} {pre done : List Token} {frame : Token} {tail : Bytes}
    (htoks : s.toks = pre ++ frame :: done) (hopen : frame.isOpen = true)
    (hcontainer : frame.isContainer = true) (hdone : lastIdx Token.isOpen done = none)
    (hsuper : s.super = some pre.length ∨
      ∃ i token, s.super = some i ∧ s.toks[i]? = some token ∧ token.isContainer = false)
    (hrest : js.drop s.pos = 44 :: tail) :
    tokenize js cap s = tokenize js cap ⟨s.pos + 1, s.toks, some pre.length⟩ := by
  have hlex : lex (js.drop s.pos) = .ok .comma := by
    rw [hrest]
    exact lex_complete (.comma tail)
  have hcomma : s.commaSuper = some pre.length := by
    rcases hsuper with hsuper | ⟨i, token, hsuper, htoken, hleaf⟩
    · simp [State.commaSuper, hsuper, htoks, hcontainer]
    · have hnone : lastIdx (fun token => token.isContainer && token.isOpen) done = none := by
        rw [lastIdx_eq_none_iff] at hdone ⊢
        intro t ht
        rw [hdone t ht, Bool.and_false]
      have hlast : lastIdx (fun token => token.isContainer && token.isOpen) s.toks =
          some pre.length := by
        rw [htoks]
        exact lastIdx_middle (by rw [hopen, hcontainer]; rfl) hnone pre
      simp [State.commaSuper, hsuper, htoken, hleaf, hlast]
  rw [tokenize_of_ok hlex rfl, hcomma]

/-- **A closing bracket** behind the elements or the members. -/
theorem read_closing {s : State} {pre done : List Token} {frame : Token} {o c : UInt8}
    {tail : Bytes} (htoks : s.toks = pre ++ frame :: done) (hopen : frame.isOpen = true)
    (hdone : lastIdx Token.isOpen done = none) (hb : brackets frame.type = some (o, c))
    (hrest : js.drop s.pos = c :: tail) :
    tokenize js cap s = tokenize js cap ⟨s.pos + 1,
      pre ++ { frame with stop := s.pos + 1 } :: done, lastIdx Token.isOpen pre⟩ := by
  have hlex : lex (js.drop s.pos) = .ok (.closing frame.type) := by
    rw [hrest]
    generalize frame.type = type at hb
    cases type with
    | object =>
        cases hb
        exact lex_complete (.closeObject tail)
    | array =>
        cases hb
        exact lex_complete (.closeArray tail)
    | undefined | string | primitive => simp [brackets] at hb
  refine tokenize_of_ok hlex ?_
  rw [State.advance_closing htoks hopen hdone, if_pos rfl]

/-- The bracket that opens a container makes a token without an end. -/
theorem read_opening {s : State} {type : TokType} {o c : UInt8} {tail : Bytes}
    (hb : brackets type = some (o, c)) (hrest : js.drop s.pos = o :: tail)
    (hroom : s.toks.length + 1 ≤ cap) :
    tokenize js cap s = tokenize js cap
      ⟨s.pos + 1, bump s.super s.toks ++ [⟨type, s.pos, -1, 0⟩], some s.toks.length⟩ := by
  have hlex : lex (js.drop s.pos) = .ok (.opening type) := by
    rw [hrest]
    cases type with
    | object =>
        cases hb
        exact lex_complete (.openObject tail)
    | array =>
        cases hb
        exact lex_complete (.openArray tail)
    | undefined | string | primitive => simp [brackets] at hb
  refine tokenize_of_ok hlex ?_
  rw [State.advance, if_neg (by omega)]

/-- **A colon** behind a key: the key is the parent of the value. -/
theorem read_colon {s : State} {toks : List Token} {key : Token} {tail : Bytes}
    (htoks : s.toks = toks ++ [key]) (hrest : js.drop s.pos = 58 :: tail) :
    tokenize js cap s = tokenize js cap ⟨s.pos + 1, s.toks, some toks.length⟩ := by
  have hlex : lex (js.drop s.pos) = .ok .colon := by
    rw [hrest]
    exact lex_complete (.colon tail)
  rw [tokenize_of_ok hlex rfl]
  simp [htoks]

/-- The elements of an array are delimited by what stands behind them. -/
theorem Elems.delimited (elems : Elems) {tail : Bytes} (h : Delimited tail) :
    Delimited (elems.text [44] ++ tail) := by
  cases elems with
  | nil => exact h
  | cons => exact Or.inr rfl

theorem Members.delimited (members : Members) {tail : Bytes} (h : Delimited tail) :
    Delimited (members.text [44] ++ tail) := by
  cases members with
  | nil => exact h
  | cons => exact Or.inr rfl

/-- A token that has begun at a position and has no end is open. -/
theorem isOpen_of_begun (type : TokType) (pos size : ℕ) :
    Token.isOpen ⟨type, pos, -1, size⟩ = true := by
  have hne : (pos : ℤ) ≠ -1 := by omega
  simp [Token.isOpen, hne]

/-- **A container**, given what the tokenizer does between its brackets: its token gets its end
and its number of children, and the container around it is the parent again. -/
theorem read_container {s : State} {type : TokType} {o c : UInt8} {inner : Space}
    {inside tail : Bytes} {toks : List Token} {size : ℕ} (hb : brackets type = some (o, c))
    (hrest : js.drop s.pos = o :: (inner.text ++ (inside ++ [c])) ++ tail)
    (hroom : s.toks.length + 1 ≤ cap) (hended : lastIdx Token.isOpen toks = none)
    (hinside : js.drop (s.pos + 1 + inner.text.length) = inside ++ c :: tail →
      ∃ super, tokenize js cap ⟨s.pos + 1 + inner.text.length,
          bump s.super s.toks ++ [⟨type, s.pos, -1, 0⟩], some s.toks.length⟩ =
        tokenize js cap ⟨s.pos + 1 + inner.text.length + inside.length,
          bump s.super s.toks ++ ⟨type, s.pos, -1, size⟩ :: toks, super⟩) :
    tokenize js cap s = tokenize js cap
      ⟨s.pos + (o :: (inner.text ++ (inside ++ [c]))).length, bump s.super s.toks ++
        ⟨type, s.pos, s.pos + (o :: (inner.text ++ (inside ++ [c]))).length, size⟩ :: toks,
        lastIdx Token.isOpen s.toks⟩ := by
  have hinner : js.drop (s.pos + 1) = inner.text ++ (inside ++ [c] ++ tail) := by
    refine drop_of_append (t := [o]) ?_
    rw [hrest]
    simp
  have hbody : js.drop (s.pos + 1 + inner.text.length) = inside ++ (c :: tail) := by
    refine drop_of_append ?_
    rw [hinner]
    simp
  obtain ⟨super, hinside⟩ := hinside hbody
  have hclose : js.drop (s.pos + 1 + inner.text.length + inside.length) = c :: tail :=
    drop_of_append hbody
  have hpos : s.pos + 1 + inner.text.length + inside.length + 1 =
      s.pos + (o :: (inner.text ++ (inside ++ [c]))).length := by
    simp only [List.length_cons, List.length_append, List.length_nil]
    omega
  calc tokenize js cap s
      = tokenize js cap ⟨s.pos + 1, bump s.super s.toks ++ [⟨type, s.pos, -1, 0⟩],
          some s.toks.length⟩ := read_opening hb hrest hroom
    _ = tokenize js cap ⟨s.pos + 1 + inner.text.length,
          bump s.super s.toks ++ [⟨type, s.pos, -1, 0⟩], some s.toks.length⟩ := inner.read hinner
    _ = tokenize js cap ⟨s.pos + 1 + inner.text.length + inside.length,
          bump s.super s.toks ++ ⟨type, s.pos, -1, size⟩ :: toks, super⟩ := hinside
    _ = _ := by
      rw [read_closing (s := ⟨_, bump s.super s.toks ++ ⟨type, s.pos, -1, size⟩ :: toks, super⟩) rfl
        (isOpen_of_begun type s.pos size) hended hb hclose, hpos, lastIdx_bump]
      have hstop : ((s.pos + 1 + inner.text.length + inside.length : ℕ) : ℤ) + 1 =
          (s.pos : ℤ) + ((o :: (inner.text ++ (inside ++ [c]))).length : ℕ) := by
        rw [← Nat.cast_add, ← hpos]
        push_cast
        rfl
      simp only [hstop]

/-- **A member**, given what the tokenizer does with its value: the key is a child of the
object, and the value a child of the key. -/
theorem read_member {s : State} {pre done : List Token} {frame : Token} {key : Quoted}
    {colon value : Space} {json : Json} {tail : Bytes}
    (hjson : ∀ s : State, js.drop s.pos = json.text ++ tail →
      s.toks.length + (json.tokens s.pos).length ≤ cap →
      ∃ super, (super = s.super ∨ super = lastIdx Token.isOpen s.toks) ∧
        tokenize js cap s = tokenize js cap
          ⟨s.pos + json.text.length, bump s.super s.toks ++ json.tokens s.pos, super⟩)
    (htoks : s.toks = pre ++ frame :: done) (hopen : frame.isOpen = true)
    (hdone : lastIdx Token.isOpen done = none) (hsuper : s.super = some pre.length)
    (hrest : js.drop s.pos =
      key.text ++ (colon.text ++ (58 :: (value.text ++ (json.text ++ tail)))))
    {next : ℕ} (hnext : next = s.pos + key.text.length + colon.text.length + 1 + value.text.length)
    (hroom : s.toks.length + (1 + (json.tokens next).length) ≤ cap) :
    ∃ super, (super = some pre.length ∨ super = some s.toks.length) ∧
      tokenize js cap s = tokenize js cap ⟨next + json.text.length,
        pre ++ { frame with size := frame.size + 1 } ::
          (done ++ key.token s.pos 1 :: json.tokens next), super⟩ := by
  have hcolon := drop_of_append hrest
  have hsign := drop_of_append hcolon
  have hvalue := drop_of_append (t := [58]) hsign
  have htext := drop_of_append hvalue
  have hlast : lastIdx Token.isOpen (bump s.super s.toks ++ [key.token s.pos 0]) =
      some pre.length := by
    have hkey : lastIdx Token.isOpen [key.token s.pos 0] = none := by
      rw [lastIdx, lastIdx, Token.not_isOpen_of_stop (n := s.pos + 1 + key.body.length)]
      · rfl
      · push_cast [Quoted.token]
        rfl
    rw [lastIdx_append_of_none hkey, lastIdx_bump, htoks]
    exact lastIdx_middle hopen hdone pre
  -- the key gets its child, and the object has got the key
  have hbump : bump (some s.toks.length) (bump s.super s.toks ++ [key.token s.pos 0]) ++
      json.tokens next = pre ++ { frame with size := frame.size + 1 } ::
        (done ++ key.token s.pos 1 :: json.tokens next) := by
    have hframe := bump_frame (bump s.super s.toks) [] (key.token s.pos 0)
    rw [bump_length] at hframe
    rw [hframe, hsuper, htoks, bump_frame]
    simp [Quoted.token]
  subst hnext
  obtain ⟨super, hparent, hread⟩ := hjson
    ⟨s.pos + key.text.length + colon.text.length + 1 + value.text.length,
      bump s.super s.toks ++ [key.token s.pos 0], some s.toks.length⟩ htext (by
    simp only [List.length_append, bump_length, List.length_singleton]
    omega)
  refine ⟨super, ?_, ?_⟩
  · rcases hparent with h | h
    · exact Or.inr h
    · exact Or.inl (h.trans hlast)
  · calc tokenize js cap s
        = tokenize js cap ⟨s.pos + key.text.length,
            bump s.super s.toks ++ [key.token s.pos 0], s.super⟩ := key.read hrest (by omega)
      _ = tokenize js cap ⟨s.pos + key.text.length + colon.text.length,
            bump s.super s.toks ++ [key.token s.pos 0], s.super⟩ := colon.read hcolon
      _ = tokenize js cap ⟨s.pos + key.text.length + colon.text.length + 1,
            bump s.super s.toks ++ [key.token s.pos 0], some s.toks.length⟩ := by
          rw [read_colon (s := ⟨_, bump s.super s.toks ++ [key.token s.pos 0], s.super⟩) rfl hsign,
            bump_length]
      _ = tokenize js cap ⟨s.pos + key.text.length + colon.text.length + 1 + value.text.length,
            bump s.super s.toks ++ [key.token s.pos 0], some s.toks.length⟩ := value.read hvalue
      _ = _ := by
          rw [hread]
          simp only [hbump]

mutual

/-- **A value** makes its tokens, and one more child for the parent. The parent stays, or the
open container is the parent again. -/
theorem Json.read (j : Json) {s : State} {tail : Bytes}
    (hrest : js.drop s.pos = j.text ++ tail) (htail : Delimited tail)
    (hroom : s.toks.length + (j.tokens s.pos).length ≤ cap) :
    ∃ super, (super = s.super ∨ super = lastIdx Token.isOpen s.toks) ∧
      tokenize js cap s = tokenize js cap
        ⟨s.pos + j.text.length, bump s.super s.toks ++ j.tokens s.pos, super⟩ := by
  cases j with
  | primitive atom =>
      rw [Json.tokens, List.length_singleton] at hroom
      exact ⟨s.super, Or.inl rfl, atom.read hrest htail hroom⟩
  | string quoted =>
      rw [Json.tokens, List.length_singleton] at hroom
      exact ⟨s.super, Or.inl rfl, quoted.read hrest hroom⟩
  | array inner elems =>
      rw [Json.text] at hrest
      rw [Json.tokens, List.length_cons] at hroom
      refine ⟨_, Or.inr rfl, ?_⟩
      rw [Json.tokens, Json.text]
      refine read_container (o := 91) (c := 93) rfl hrest (by omega) (elems.tokens_ended _ _) ?_
      intro hbody
      have hread := Elems.read elems
        (s := ⟨s.pos + 1 + inner.text.length, bump s.super s.toks ++ [⟨.array, s.pos, -1, 0⟩],
          some s.toks.length⟩) rfl
        (isOpen_of_begun .array s.pos 0) rfl rfl (by rw [bump_length]) (Or.inl rfl) hbody
        (Or.inr rfl) (by
          simp only [List.length_append, bump_length, List.length_singleton]
          omega)
      refine ⟨some (bump s.super s.toks).length, hread.trans ?_⟩
      simp
  | object inner members =>
      rw [Json.text] at hrest
      rw [Json.tokens, List.length_cons] at hroom
      refine ⟨_, Or.inr rfl, ?_⟩
      rw [Json.tokens, Json.text]
      refine read_container (o := 123) (c := 125) rfl hrest (by omega) (members.tokens_ended _ _) ?_
      intro hbody
      obtain ⟨super, hread⟩ := Members.read members
        (s := ⟨s.pos + 1 + inner.text.length, bump s.super s.toks ++ [⟨.object, s.pos, -1, 0⟩],
          some s.toks.length⟩) rfl
        (isOpen_of_begun .object s.pos 0) rfl rfl (Or.inl ⟨rfl, by rw [bump_length]⟩) hbody
        (Or.inr rfl) (by
          simp only [List.length_append, bump_length, List.length_singleton]
          omega)
      refine ⟨super, hread.trans ?_⟩
      simp

/-- **The elements** of an array make their tokens, and each is a child of the array. -/
theorem Elems.read (elems : Elems) {s : State} {pre done : List Token} {frame : Token}
    {sep tail : Bytes} (htoks : s.toks = pre ++ frame :: done) (hopen : frame.isOpen = true)
    (hcontainer : frame.isContainer = true) (hdone : lastIdx Token.isOpen done = none)
    (hsuper : s.super = some pre.length) (hsep : sep = [] ∨ sep = [44])
    (hrest : js.drop s.pos = elems.text sep ++ tail) (htail : Delimited tail)
    (hroom : s.toks.length + (elems.tokens sep s.pos).length ≤ cap) :
    tokenize js cap s = tokenize js cap ⟨s.pos + (elems.text sep).length,
      pre ++ { frame with size := frame.size + elems.length } ::
        (done ++ elems.tokens sep s.pos), some pre.length⟩ := by
  cases elems with
  | nil =>
      obtain ⟨pos, toks, super⟩ := s
      simp only at htoks hsuper
      simp [Elems.text, Elems.tokens, Elems.length, htoks, hsuper]
  | cons before value after rest =>
      have hnext : tokenize js cap s =
          tokenize js cap ⟨s.pos + sep.length, s.toks, some pre.length⟩ := by
        rcases hsep with rfl | rfl
        · rw [← hsuper]
          rfl
        · exact read_comma htoks hopen hcontainer hdone (Or.inl hsuper) hrest
      rw [Elems.text] at hrest
      rw [List.append_assoc, List.append_assoc, List.append_assoc, List.append_assoc] at hrest
      rw [Elems.tokens, List.length_append] at hroom
      have hbefore := drop_of_append hrest
      have hvalue := drop_of_append hbefore
      have hafter := drop_of_append hvalue
      have hmore := drop_of_append hafter
      have hlast : lastIdx Token.isOpen s.toks = some pre.length := by
        rw [htoks]
        exact lastIdx_middle hopen hdone pre
      -- the element: its parent is the array, before it and behind it
      obtain ⟨super, hparent, hread⟩ := Json.read value
        (s := ⟨s.pos + sep.length + before.text.length, s.toks, some pre.length⟩) hvalue
        (after.delimited (rest.delimited htail)) (by simp only; omega)
      have hsame : super = some pre.length := by
        rcases hparent with h | h
        · exact h
        · exact h.trans hlast
      subst hsame
      have htoks' : bump (some pre.length) s.toks ++
          value.tokens (s.pos + sep.length + before.text.length) =
          pre ++ { frame with size := frame.size + 1 } ::
            (done ++ value.tokens (s.pos + sep.length + before.text.length)) := by
        rw [htoks, bump_frame]
        simp
      have hdone' : lastIdx Token.isOpen
          (done ++ value.tokens (s.pos + sep.length + before.text.length)) = none := by
        rw [lastIdx_append_of_none (value.tokens_ended _), hdone]
      have hrestread := Elems.read rest
        (s := ⟨s.pos + sep.length + before.text.length + value.text.length + after.text.length,
          bump (some pre.length) s.toks ++
            value.tokens (s.pos + sep.length + before.text.length), some pre.length⟩)
        htoks' hopen hcontainer hdone' rfl (Or.inr rfl) hmore htail (by
          simp only [List.length_append, bump_length]
          omega)
      calc tokenize js cap s
          = tokenize js cap ⟨s.pos + sep.length, s.toks, some pre.length⟩ := hnext
        _ = tokenize js cap ⟨s.pos + sep.length + before.text.length, s.toks,
              some pre.length⟩ := before.read hbefore
        _ = tokenize js cap ⟨s.pos + sep.length + before.text.length + value.text.length,
              bump (some pre.length) s.toks ++
                value.tokens (s.pos + sep.length + before.text.length), some pre.length⟩ := hread
        _ = tokenize js cap ⟨s.pos + sep.length + before.text.length + value.text.length +
              after.text.length, bump (some pre.length) s.toks ++
                value.tokens (s.pos + sep.length + before.text.length), some pre.length⟩ :=
            after.read hafter
        _ = _ := by
            rw [hrestread]
            simp only [Elems.text, Elems.tokens, Elems.length, List.length_append,
              List.append_assoc, Nat.add_assoc, Nat.add_comm 1]

/-- **The members** of an object make their tokens, and each key is a child of the object. -/
theorem Members.read (members : Members) {s : State} {pre done : List Token} {frame : Token}
    {sep tail : Bytes} (htoks : s.toks = pre ++ frame :: done) (hopen : frame.isOpen = true)
    (hcontainer : frame.isContainer = true) (hdone : lastIdx Token.isOpen done = none)
    (hsuper : (sep = [] ∧ s.super = some pre.length) ∨ (sep = [44] ∧
      (s.super = some pre.length ∨
        ∃ i token, s.super = some i ∧ s.toks[i]? = some token ∧ token.isContainer = false)))
    (hrest : js.drop s.pos = members.text sep ++ tail) (htail : Delimited tail)
    (hroom : s.toks.length + (members.tokens sep s.pos).length ≤ cap) :
    ∃ super, tokenize js cap s = tokenize js cap ⟨s.pos + (members.text sep).length,
      pre ++ { frame with size := frame.size + members.length } ::
        (done ++ members.tokens sep s.pos), super⟩ := by
  cases members with
  | nil =>
      obtain ⟨pos, toks, super⟩ := s
      simp only at htoks
      exact ⟨super, by simp [Members.text, Members.tokens, Members.length, htoks]⟩
  | cons before key colon value json after rest =>
      have hnext : tokenize js cap s =
          tokenize js cap ⟨s.pos + sep.length, s.toks, some pre.length⟩ := by
        rcases hsuper with ⟨rfl, hsuper⟩ | ⟨rfl, hsuper⟩
        · rw [← hsuper]
          rfl
        · exact read_comma htoks hopen hcontainer hdone hsuper hrest
      simp only [Members.text, List.append_assoc, List.cons_append] at hrest
      rw [Members.tokens, List.length_cons, List.length_append] at hroom
      have hbefore := drop_of_append hrest
      have hmember := drop_of_append hbefore
      obtain ⟨super, hparent, hread⟩ := read_member
        (s := ⟨s.pos + sep.length + before.text.length, s.toks, some pre.length⟩)
        (fun s hrest hroom =>
          Json.read json hrest (after.delimited (rest.delimited htail)) hroom)
        htoks hopen hdone rfl hmember rfl (by
          simp only
          omega)
      have hafter := drop_of_append (drop_of_append (drop_of_append (t := [58])
        (drop_of_append (drop_of_append hmember))))
      have hmore := drop_of_append hafter
      rw [List.length_singleton] at hafter hmore
      simp only at hread hparent
      have hpos : s.pos + (Members.text sep (.cons before key colon value json after rest)).length =
          s.pos + sep.length + before.text.length + key.text.length + colon.text.length + 1 +
            value.text.length + json.text.length + after.text.length + (rest.text [44]).length := by
        simp only [Members.text, List.length_append, List.length_cons]
        omega
      rw [hpos, Members.tokens, Members.length]
      have hbefore' : tokenize js cap s = tokenize js cap
          ⟨s.pos + sep.length + before.text.length, s.toks, some pre.length⟩ :=
        hnext.trans (before.read hbefore)
      clear hpos hbefore hmember hnext hrest
      generalize s.pos + sep.length + before.text.length = start at *
      generalize start + key.text.length + colon.text.length + 1 + value.text.length = next at *
      have hdone' :
          lastIdx Token.isOpen (done ++ key.token start 1 :: json.tokens next) = none := by
        have hkey : lastIdx Token.isOpen (key.token start 1 :: json.tokens next) = none := by
          rw [lastIdx, json.tokens_ended,
            Token.not_isOpen_of_stop (n := start + 1 + key.body.length)]
          · rfl
          · push_cast [Quoted.token]
            rfl
        rw [lastIdx_append_of_none hkey, hdone]
      have hsuper' : super = some pre.length ∨ ∃ i token, super = some i ∧
          (pre ++ { frame with size := frame.size + 1 } ::
            (done ++ key.token start 1 :: json.tokens next))[i]? = some token ∧
          token.isContainer = false := by
        rcases hparent with h | h
        · exact Or.inl h
        · refine Or.inr ⟨_, key.token start 1, h, ?_, rfl⟩
          rw [htoks, List.length_append, List.length_cons, List.getElem?_append_right (by omega)]
          have hsub : pre.length + (done.length + 1) - pre.length = done.length + 1 := by omega
          rw [hsub, List.getElem?_cons_succ]
          simp
      obtain ⟨super', hrestread⟩ := Members.read rest
        (s := ⟨next + json.text.length + after.text.length,
          pre ++ { frame with size := frame.size + 1 } ::
            (done ++ key.token start 1 :: json.tokens next), super⟩)
        rfl hopen hcontainer hdone' (Or.inr ⟨rfl, hsuper'⟩) hmore htail (by
          rw [htoks] at hroom
          simp only [List.length_append, List.length_cons] at hroom ⊢
          omega)
      refine ⟨super', ?_⟩
      calc tokenize js cap s
          = tokenize js cap ⟨start, s.toks, some pre.length⟩ := hbefore'
        _ = tokenize js cap ⟨next + json.text.length,
              pre ++ { frame with size := frame.size + 1 } ::
                (done ++ key.token start 1 :: json.tokens next), super⟩ := hread
        _ = tokenize js cap ⟨next + json.text.length + after.text.length,
              pre ++ { frame with size := frame.size + 1 } ::
                (done ++ key.token start 1 :: json.tokens next), super⟩ := after.read hafter
        _ = _ := by
            rw [hrestread]
            simp only [List.append_assoc, List.cons_append, Nat.add_assoc, Nat.add_comm 1]

end

end Read

/-! ### Documents as texts -/

/-- The tokenizer goes over the text of a document, with white space around it, from its
beginning to its end. -/
theorem tokenize_json (lead : Space) (j : Json) (trail : Space) {cap : ℕ}
    (hroom : (j.tokens lead.text.length).length ≤ cap) :
    tokenize (lead.text ++ (j.text ++ trail.text)) cap ⟨0, [], none⟩ =
      (.ok (j.tokens lead.text.length).length,
        ⟨(lead.text ++ (j.text ++ trail.text)).length, j.tokens lead.text.length, none⟩) := by
  set js := lead.text ++ (j.text ++ trail.text) with hjs
  have hlead : js.drop 0 = lead.text ++ (j.text ++ trail.text) := rfl
  have hjson := drop_of_append hlead
  have htrail := drop_of_append hjson
  rw [← List.append_nil trail.text] at htrail
  have hdelimited : Delimited trail.text := by
    have h : Delimited (trail.text ++ []) := trail.delimited trivial
    rwa [List.append_nil] at h
  have hspace : ([] : List Token).length + (j.tokens (0 + lead.text.length)).length ≤ cap := by
    simp only [List.length_nil, Nat.zero_add]
    exact hroom
  obtain ⟨super, hparent, hread⟩ :=
    j.read (s := ⟨0 + lead.text.length, [], none⟩) hjson hdelimited hspace
  have hnone : super = none := by
    rcases hparent with h | h
    · exact h
    · exact h
  subst hnone
  have hlen : 0 + lead.text.length + j.text.length + trail.text.length = js.length := by
    simp only [hjs, List.length_append]
    omega
  have hend : js.drop js.length = [] := List.drop_length
  rw [lead.read hlead, hread, trail.read htrail,
    tokenize_of_end (by simp only [hlen, hend]; rfl)]
  simp only [Nat.zero_add] at hlen
  simp only [bump, List.nil_append, Nat.zero_add, State.verdict, j.tokens_ended, if_true, hlen]

/-- **JSON is tokenized as it is nested**: on the text of a document, with white space around
it, a call with an array that has room for the tokens of the document returns their number and
puts them at the head of the array; no number overflows as long as an `int` can index the
text. -/
theorem parse_json (lead : Space) (j : Json) (trail : Space) (array : List Token)
    (hroom : (j.tokens lead.text.length).length ≤ array.length) :
    ∃ parser, parse (lead.text ++ (j.text ++ trail.text)) array.length (init (some array)) =
        .ok (.ok (j.tokens lead.text.length).length, parser) ∧
      parser = { pos := (lead.text ++ (j.text ++ trail.text)).length
                 toknext := (j.tokens lead.text.length).length
                 toksuper := -1
                 tokens := some (j.tokens lead.text.length ++
                   array.drop (j.tokens lead.text.length).length) } ∧
      ((lead.text ++ (j.text ++ trail.text)).length < 2 ^ 31 → parser.FitsInt) := by
  have hparse := parse_array start_valid (lead.text ++ (j.text ++ trail.text))
    (Nat.zero_le array.length)
  have hfits := fun (hint : (lead.text ++ (j.text ++ trail.text)).length < 2 ^ 31) =>
    tokenize_fitsInt hint array.length (array.drop (j.tokens lead.text.length).length)
  rw [tokenize_json lead j trail hroom] at hparse hfits
  exact ⟨_, hparse, rfl, hfits⟩

/-- The object with the member `a`, written with an escape, which is the array of a `1`, in
four tokens. -/
theorem parse_json_member :
    (Json.tokens 0 (.object ⟨[], rfl⟩ (.cons ⟨[], rfl⟩
      (Quoted.ofUnits [.unicode 48 48 54 49 rfl]) ⟨[], rfl⟩ ⟨[32], rfl⟩
      (.array ⟨[], rfl⟩ (.cons ⟨[], rfl⟩ (.primitive ⟨[49], by simp, by simp, rfl⟩) ⟨[], rfl⟩ .nil))
      ⟨[], rfl⟩ .nil))).length ≤ 5 ∧
    ∃ parser, parse [123, 34, 92, 117, 48, 48, 54, 49, 34, 58, 32, 91, 49, 93, 125, 10] 5
        (init (some (List.replicate 5 ⟨.undefined, 0, 0, 0⟩))) = .ok (.ok 4, parser) ∧
      parser = ⟨16, 4, -1, some [⟨.object, 0, 15, 1⟩, ⟨.string, 2, 8, 1⟩, ⟨.array, 11, 14, 1⟩,
        ⟨.primitive, 12, 13, 0⟩, ⟨.undefined, 0, 0, 0⟩]⟩ ∧
      (16 < 2 ^ 31 → parser.FitsInt) := by
  have hroom : (Json.tokens 0 (.object ⟨[], rfl⟩ (.cons ⟨[], rfl⟩
      (Quoted.ofUnits [.unicode 48 48 54 49 rfl]) ⟨[], rfl⟩ ⟨[32], rfl⟩
      (.array ⟨[], rfl⟩ (.cons ⟨[], rfl⟩ (.primitive ⟨[49], by simp, by simp, rfl⟩) ⟨[], rfl⟩ .nil))
      ⟨[], rfl⟩ .nil))).length ≤ 5 := by
    decide
  exact ⟨hroom, parse_json ⟨[], rfl⟩ _ ⟨[10], rfl⟩ (List.replicate 5 ⟨.undefined, 0, 0, 0⟩) hroom⟩

end Wgi.Jsmn
