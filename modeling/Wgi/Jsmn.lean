import Mathlib.Data.Int.Notation
import Wgi.Basic
import Wgi.Loop

/-!
# The JSON Tokenizer of the Lambda Guests

The lambda guest written in C reads its event with `jsmn.h`, a tokenizer that does not
allocate: the caller hands it an array of tokens, and it fills in one token for every
object, array, string and primitive of the text, in the order in which they begin. A parser
that ran out of tokens or of text can be called again. Without an array it only counts.

The guest defines neither `JSMN_STRICT` nor `JSMN_PARENT_LINKS`, and this is the model of
what is left then. Every access to the text and to the token array goes through `charAt`,
`tokenAt` or `setToken`, which fail outside of them; every loop has a budget of iterations.
That neither ever happens is proved, not assumed. Numbers have no width here: that they fit
the types of the source, for a text that an `int` can index, is proved too. A longer text, or an
array with more tokens than an `unsigned int` can count, is outside the model.
-/

namespace Wgi.Jsmn

/-- `jsmntype_t`. -/
inductive TokType where
  | undefined
  | object
  | array
  | string
  | primitive
  deriving DecidableEq, Repr

/-- `enum jsmnerr`. -/
inductive Err where
  /-- `JSMN_ERROR_NOMEM`: not enough tokens were provided. -/
  | nomem
  /-- `JSMN_ERROR_INVAL`: an invalid character. -/
  | inval
  /-- `JSMN_ERROR_PART`: more bytes expected. -/
  | part
  deriving DecidableEq, Repr

/-- `jsmntok_t`. The field `end` of the source is `stop`; `-1` is a position not known yet. -/
structure Token where
  type : TokType
  start : ℤ
  stop : ℤ
  size : ℕ
  deriving DecidableEq, Repr

/-- What a C program must not do. -/
inductive Fault where
  /-- An access outside of the text or of the token array. -/
  | outOfBounds
  /-- A loop that does not end. -/
  | stuck
  deriving DecidableEq, Repr

/-- `jsmn_parser`, together with the token array it works on, if the caller gave one. -/
structure Parser where
  pos : ℕ
  toknext : ℕ
  toksuper : ℤ
  tokens : Option (List Token)
  deriving DecidableEq, Repr

/-- `jsmn_init`, for a parser that will be called with the given array. -/
def init (tokens : Option (List Token)) : Parser where
  pos := 0
  toknext := 0
  toksuper := -1
  tokens := tokens

/-! ### Accesses -/

/-- `js[i]`. -/
def charAt (js : Bytes) (i : ℕ) : Except Fault UInt8 :=
  match js[i]? with
  | some c => .ok c
  | none => .error .outOfBounds

/-- `tokens[i]`. -/
def tokenAt (tokens : List Token) (i : ℕ) : Except Fault Token :=
  match tokens[i]? with
  | some token => .ok token
  | none => .error .outOfBounds

/-- A write to `tokens[i]`. -/
def setToken (tokens : List Token) (i : ℕ) (token : Token) : Except Fault (List Token) :=
  if i < tokens.length then .ok (tokens.set i token) else .error .outOfBounds

/-! ### Leaves -/

/-- `jsmn_alloc_token`: the index of a fresh token, or nothing for NULL. -/
def allocToken (parser : Parser) (tokens : List Token) (numTokens : ℕ) :
    Except Fault (Option (ℕ × Parser × List Token)) :=
  if parser.toknext ≥ numTokens then .ok none
  else do
    let token ← tokenAt tokens parser.toknext
    let tokens ← setToken tokens parser.toknext { token with start := -1, stop := -1, size := 0 }
    pure (some (parser.toknext, { parser with toknext := parser.toknext + 1 }, tokens))

/-- `jsmn_fill_token`. -/
def fillToken (tokens : List Token) (i : ℕ) (type : TokType) (start stop : ℤ) :
    Except Fault (List Token) :=
  setToken tokens i ⟨type, start, stop, 0⟩

/-- The characters that end a primitive: `:`, tab, carriage return, newline, space, `,`, `]`
and `}`. -/
def endsPrimitive (c : UInt8) : Bool :=
  c == 58 || c == 9 || c == 13 || c == 10 || c == 32 || c == 44 || c == 93 || c == 125

/-- One iteration of the loop of `jsmn_parse_primitive`. The loop is left with the position at
which the primitive ends, or with an error. -/
def primitiveStep (js : Bytes) (pos : ℕ) : Except Fault (Loop.Flow ℕ (Except Err ℕ)) :=
  if pos < js.length then do
    let c ← charAt js pos
    if c = 0 then pure (.leave (.ok pos))
    else if endsPrimitive c then pure (.leave (.ok pos))
    else if c < 32 || c ≥ 127 then pure (.leave (.error .inval))
    else pure (.again (pos + 1))
  else pure (.leave (.ok pos))

/-- The loop of `jsmn_parse_primitive`. -/
def primitiveLoop (js : Bytes) (pos : ℕ) : Except Fault (Except Err ℕ) :=
  Loop.exec (fun pos => js.length - pos) .stuck (primitiveStep js) pos

/-- What `jsmn_parse_primitive` and `jsmn_parse_string` do with a leaf they have found: a
token is allocated and filled, unless the caller only counts. The position goes to `next`, and
back to `begin` when there is no token left. -/
def addLeaf (parser : Parser) (numTokens : ℕ) (type : TokType) (start stop begin next : ℕ) :
    Except Fault (Except Err Unit × Parser) :=
  match parser.tokens with
  | none => .ok (.ok (), { parser with pos := next })
  | some tokens => do
      match ← allocToken parser tokens numTokens with
      | none => pure (.error .nomem, { parser with pos := begin })
      | some (i, parser, tokens) => do
          let tokens ← fillToken tokens i type start stop
          pure (.ok (), { parser with pos := next, tokens := some tokens })

/-- `jsmn_parse_primitive`. -/
def parsePrimitive (js : Bytes) (numTokens : ℕ) (parser : Parser) :
    Except Fault (Except Err Unit × Parser) := do
  let start := parser.pos
  match ← primitiveLoop js start with
  | .error err => pure (.error err, { parser with pos := start })
  | .ok pos => addLeaf parser numTokens .primitive start pos start (pos - 1)

/-- A hexadecimal digit. -/
def isHexDigit (c : UInt8) : Bool :=
  (48 ≤ c && c ≤ 57) || (65 ≤ c && c ≤ 70) || (97 ≤ c && c ≤ 102)

/-- The loop over the digits of a `\u` escape, with the number of digits still to come: the
position behind them, or an error. -/
def hexLoop (js : Bytes) : ℕ → ℕ → Except Fault (Except Err ℕ)
  | 0, pos => .ok (.ok pos)
  | left + 1, pos =>
      if pos < js.length then do
        let c ← charAt js pos
        if c = 0 then pure (.ok pos)
        else if isHexDigit c then hexLoop js left (pos + 1)
        else pure (.error .inval)
      else .ok (.ok pos)

/-- The characters that may follow a backslash: a quote, a slash, a backslash, and the letters
`b`, `f`, `r`, `n` and `t`. -/
def isEscape (c : UInt8) : Bool :=
  c == 34 || c == 47 || c == 92 || c == 98 || c == 102 || c == 114 || c == 110 || c == 116

/-- One iteration of the loop of `jsmn_parse_string`. The loop is left with the position of
the closing quote, or with an error. -/
def stringStep (js : Bytes) (pos : ℕ) : Except Fault (Loop.Flow ℕ (Except Err ℕ)) :=
  if pos < js.length then do
    let c ← charAt js pos
    if c = 0 then pure (.leave (.error .part))
    else if c = 34 then pure (.leave (.ok pos))
    else if c = 92 ∧ pos + 1 < js.length then do
      let pos := pos + 1
      let c ← charAt js pos
      if isEscape c then pure (.again (pos + 1))
      else if c = 117 then do
        match ← hexLoop js 4 (pos + 1) with
        | .error err => pure (.leave (.error err))
        | .ok pos => pure (.again (pos - 1 + 1))
      else pure (.leave (.error .inval))
    else pure (.again (pos + 1))
  else pure (.leave (.error .part))

/-- The loop of `jsmn_parse_string`. -/
def stringLoop (js : Bytes) (pos : ℕ) : Except Fault (Except Err ℕ) :=
  Loop.exec (fun pos => js.length - pos) .stuck (stringStep js) pos

/-- `jsmn_parse_string`. -/
def parseString (js : Bytes) (numTokens : ℕ) (parser : Parser) :
    Except Fault (Except Err Unit × Parser) := do
  let start := parser.pos
  match ← stringLoop js (start + 1) with
  | .error err => pure (.error err, { parser with pos := start })
  | .ok pos => addLeaf parser numTokens .string (start + 1) pos start pos

/-! ### Containers -/

/-- A token that has begun and not ended. -/
def Token.isOpen (token : Token) : Bool :=
  token.start != -1 && token.stop == -1

/-- A token of an object or an array. -/
def Token.isContainer (token : Token) : Bool :=
  token.type == .array || token.type == .object

/-- A scan `for (i = n - 1; i >= 0; i--)` for a token: the index at which it stops, or nothing
when `i` reaches `-1`. -/
def scanBack (tokens : List Token) (p : Token → Bool) : ℕ → Except Fault (Option ℕ)
  | 0 => .ok none
  | i + 1 => do
      let token ← tokenAt tokens i
      if p token then pure (some i) else scanBack tokens p i

/-- `tokens[toksuper].size++`, unless `toksuper` is `-1`. -/
def bumpSuper (toksuper : ℤ) (tokens : List Token) : Except Fault (List Token) :=
  if toksuper = -1 then .ok tokens
  else do
    let token ← tokenAt tokens toksuper.toNat
    setToken tokens toksuper.toNat { token with size := token.size + 1 }

/-- The cases `{` and `[`, when there is an array. -/
def openToken (parser : Parser) (tokens : List Token) (numTokens : ℕ) (type : TokType) :
    Except Fault (Except Err Unit × Parser) := do
  match ← allocToken parser tokens numTokens with
  | none => pure (.error .nomem, parser)
  | some (i, parser, tokens) => do
      let tokens ← bumpSuper parser.toksuper tokens
      let token ← tokenAt tokens i
      let tokens ← setToken tokens i { token with type, start := parser.pos }
      pure (.ok (), { parser with toksuper := parser.toknext - 1, tokens := some tokens })

/-- The cases `}` and `]`, when there is an array. -/
def closeToken (parser : Parser) (tokens : List Token) (type : TokType) :
    Except Fault (Except Err Unit × Parser) := do
  match ← scanBack tokens Token.isOpen parser.toknext with
  | none => pure (.error .inval, parser)
  | some i => do
      let token ← tokenAt tokens i
      if token.type ≠ type then pure (.error .inval, parser)
      else do
        let tokens ← setToken tokens i { token with stop := parser.pos + 1 }
        match ← scanBack tokens Token.isOpen (i + 1) with
        | none => pure (.ok (), { parser with toksuper := -1, tokens := some tokens })
        | some i => pure (.ok (), { parser with toksuper := i, tokens := some tokens })

/-- The case `,`, when there is an array: the superior token is a container again. -/
def commaToken (parser : Parser) (tokens : List Token) : Except Fault Parser :=
  if parser.toksuper = -1 then .ok parser
  else do
    let token ← tokenAt tokens parser.toksuper.toNat
    if token.isContainer then pure parser
    else
      match ← scanBack tokens (fun t => t.isContainer && t.isOpen) parser.toknext with
      | none => pure parser
      | some i => pure { parser with toksuper := i }

/-- The end of the cases of strings and primitives: `tokens[toksuper].size++`. -/
def bumpLeaf (parser : Parser) : Except Fault Parser :=
  match parser.tokens with
  | none => .ok parser
  | some tokens => do
      let tokens ← bumpSuper parser.toksuper tokens
      pure { parser with tokens := some tokens }

/-! ### The parser -/

/-- The body of the loop of `jsmn_parse`, for the character `c` at the current position: an
early return, or the number of tokens that were counted. -/
def parseChar (js : Bytes) (numTokens : ℕ) (parser : Parser) (c : UInt8) :
    Except Fault (Except Err ℕ × Parser) :=
  if c = 123 ∨ c = 91 then
    match parser.tokens with
    | none => .ok (.ok 1, parser)
    | some tokens => do
        let (result, parser) ←
          openToken parser tokens numTokens (if c = 123 then .object else .array)
        pure (result.map fun _ => 1, parser)
  else if c = 125 ∨ c = 93 then
    match parser.tokens with
    | none => .ok (.ok 0, parser)
    | some tokens => do
        let (result, parser) ← closeToken parser tokens (if c = 125 then .object else .array)
        pure (result.map fun _ => 0, parser)
  else if c = 34 then do
    match ← parseString js numTokens parser with
    | (.error err, parser) => pure (.error err, parser)
    | (.ok (), parser) => do
        let parser ← bumpLeaf parser
        pure (.ok 1, parser)
  else if c = 9 ∨ c = 13 ∨ c = 10 ∨ c = 32 then .ok (.ok 0, parser)
  else if c = 58 then .ok (.ok 0, { parser with toksuper := parser.toknext - 1 })
  else if c = 44 then
    match parser.tokens with
    | none => .ok (.ok 0, parser)
    | some tokens => do
        let parser ← commaToken parser tokens
        pure (.ok 0, parser)
  else do
    match ← parsePrimitive js numTokens parser with
    | (.error err, parser) => pure (.error err, parser)
    | (.ok (), parser) => do
        let parser ← bumpLeaf parser
        pure (.ok 1, parser)

/-- The end of `jsmn_parse`: the count, unless a token is still open. -/
def finish (parser : Parser) (count : ℕ) : Except Fault (Except Err ℕ) :=
  match parser.tokens with
  | none => .ok (.ok count)
  | some tokens => do
      match ← scanBack tokens Token.isOpen parser.toknext with
      | some _ => pure (.error .part)
      | none => pure (.ok count)

/-- One iteration of the loop of `jsmn_parse`. The loop is left with the result of the
function and the parser. -/
def parseStep (js : Bytes) (numTokens : ℕ) (vars : Parser × ℕ) :
    Except Fault (Loop.Flow (Parser × ℕ) (Except Err ℕ × Parser)) :=
  let (parser, count) := vars
  if parser.pos < js.length then do
    let c ← charAt js parser.pos
    if c = 0 then do
      let result ← finish parser count
      pure (.leave (result, parser))
    else do
      match ← parseChar js numTokens parser c with
      | (.error err, parser) => pure (.leave (.error err, parser))
      | (.ok n, parser) => pure (.again ({ parser with pos := parser.pos + 1 }, count + n))
  else do
    let result ← finish parser count
    pure (.leave (result, parser))

/-- `jsmn_parse`: the number of tokens or an error, and the parser to call it with again. -/
def parse (js : Bytes) (numTokens : ℕ) (parser : Parser) :
    Except Fault (Except Err ℕ × Parser) :=
  Loop.exec (fun vars => js.length - vars.1.pos) .stuck (parseStep js numTokens)
    (parser, parser.toknext)

end Wgi.Jsmn
