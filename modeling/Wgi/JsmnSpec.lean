import Mathlib.Tactic.Ring
import Wgi.Jsmn
import Wgi.LastIndex

/-!
# What the Tokenizer Computes

The abstract level of the JSON tokenizer. It reads a text as a sequence of lexemes and keeps
the list of the tokens made so far and the token that is the parent of the next one; there is
no array, no index that could be wrong and no `-1` but in an open token.

## Main results

* `lex_sound`, `lex_width`: what a text that begins with a lexeme looks like.
* `State.advance_pos`: a step goes behind its lexeme and makes its token.
* `tokenize_length_le`: the room for tokens is respected.
-/

namespace Wgi.Jsmn

open LastIndex

/-! ### Scans of the text that is left -/

/-- The number of characters of the primitive at the head of a text. -/
def primitiveSpan : Bytes → Except Err ℕ
  | [] => .ok 0
  | c :: cs =>
      if c = 0 then .ok 0
      else if endsPrimitive c then .ok 0
      else if c < 32 || c ≥ 127 then .error .inval
      else (primitiveSpan cs).map (· + 1)

/-- What the scan of a string expects next. -/
inductive Expect where
  /-- A character of the string. -/
  | plain
  /-- The character behind a backslash. -/
  | escape
  /-- A digit of a `\u` escape, with the number of digits behind it. -/
  | digit (left : ℕ)
  deriving DecidableEq, Repr

/-- What is expected behind a digit. -/
def Expect.afterDigit : ℕ → Expect
  | 0 => .plain
  | left + 1 => .digit left

/-- The number of characters before the closing quote of a string. -/
def stringSpan : Expect → Bytes → Except Err ℕ
  | _, [] => .error .part
  | .plain, c :: cs =>
      if c = 0 then .error .part
      else if c = 34 then .ok 0
      else if c = 92 then (stringSpan .escape cs).map (· + 1)
      else (stringSpan .plain cs).map (· + 1)
  | .escape, c :: cs =>
      if isEscape c then (stringSpan .plain cs).map (· + 1)
      else if c = 117 then (stringSpan (.digit 3) cs).map (· + 1)
      else .error .inval
  | .digit left, c :: cs =>
      if c = 0 then .error .part
      else if isHexDigit c then (stringSpan (.afterDigit left) cs).map (· + 1)
      else .error .inval

/-! ### Lexemes -/

/-- What a text is made of. -/
inductive Lexeme where
  | opening (type : TokType)
  | closing (type : TokType)
  /-- A string or a primitive of `len` characters, with `quote` characters on either side of
  them that are not part of the token. -/
  | leaf (type : TokType) (quote len : ℕ)
  | space
  | colon
  | comma
  deriving DecidableEq, Repr

/-- The number of characters of a lexeme. -/
def Lexeme.width : Lexeme → ℕ
  | .leaf _ quote len => len + 2 * quote
  | _ => 1

/-- The number of tokens a lexeme makes. -/
def Lexeme.weight : Lexeme → ℕ
  | .opening _ => 1
  | .leaf _ _ _ => 1
  | _ => 0

/-- The lexeme a text begins with. Without one, the text has ended or it has an error. -/
def lex : Bytes → Except (Option Err) Lexeme
  | [] => .error none
  | c :: cs =>
      if c = 0 then .error none
      else if c = 123 ∨ c = 91 then .ok (.opening (if c = 123 then .object else .array))
      else if c = 125 ∨ c = 93 then .ok (.closing (if c = 125 then .object else .array))
      else if c = 34 then
        match stringSpan .plain cs with
        | .ok len => .ok (.leaf .string 1 len)
        | .error err => .error (some err)
      else if c = 9 ∨ c = 13 ∨ c = 10 ∨ c = 32 then .ok .space
      else if c = 58 then .ok .colon
      else if c = 44 then .ok .comma
      else
        match primitiveSpan (c :: cs) with
        | .ok len => .ok (.leaf .primitive 0 len)
        | .error err => .error (some err)

/-- The characters of a primitive. -/
def isPrimitiveChar (c : UInt8) : Bool :=
  c != 0 && !endsPrimitive c && !(c < 32 || c ≥ 127)

/-- A text behind a primitive: it has ended, or a character that ends primitives follows. -/
def Delimited : Bytes → Prop
  | [] => True
  | c :: _ => c = 0 ∨ endsPrimitive c = true

/-- A scan that goes over one more character. -/
theorem map_succ_eq_ok {x : Except Err ℕ} {len : ℕ} (h : x.map (· + 1) = .ok len) :
    ∃ n, x = .ok n ∧ len = n + 1 := by
  cases x with
  | error err => simp [Except.map] at h
  | ok n =>
      simp only [Except.map, Except.ok.injEq] at h
      exact ⟨n, rfl, h.symm⟩

/-- **A primitive** is what its scan went over. -/
theorem primitiveSpan_split {cs : Bytes} {len : ℕ} (h : primitiveSpan cs = .ok len) :
    ∃ text tail, cs = text ++ tail ∧ text.length = len ∧ text.all isPrimitiveChar = true ∧
      Delimited tail := by
  induction cs generalizing len with
  | nil =>
      cases h
      exact ⟨[], [], rfl, rfl, rfl, trivial⟩
  | cons c cs ih =>
      rw [primitiveSpan] at h
      split_ifs at h with h0 hends hinval
      · cases h
        exact ⟨[], c :: cs, rfl, rfl, rfl, Or.inl h0⟩
      · cases h
        exact ⟨[], c :: cs, rfl, rfl, rfl, Or.inr hends⟩
      · obtain ⟨n, hspan, rfl⟩ := map_succ_eq_ok h
        obtain ⟨text, tail, rfl, rfl, hchars, htail⟩ := ih hspan
        refine ⟨c :: text, tail, rfl, rfl, ?_, htail⟩
        simp_all [isPrimitiveChar]

/-- The scan of a primitive stops where it is delimited. -/
theorem primitiveSpan_append {text tail : Bytes} (hchars : text.all isPrimitiveChar = true)
    (htail : Delimited tail) : primitiveSpan (text ++ tail) = .ok text.length := by
  induction text with
  | nil =>
      cases tail with
      | nil => rfl
      | cons c cs =>
          rcases htail with h0 | hends
          · simp [primitiveSpan, h0]
          · simp [primitiveSpan, hends]
  | cons c text ih =>
      rw [List.all_cons, Bool.and_eq_true] at hchars
      obtain ⟨hc, hchars⟩ := hchars
      simp only [isPrimitiveChar, Bool.and_eq_true, bne_iff_ne, Bool.not_eq_true'] at hc
      rw [List.cons_append, primitiveSpan, if_neg hc.1.1, hc.1.2, hc.2, ih hchars]
      rfl

/-- **A string** is what its scan went over: it ends with a quote, and what stands behind the
quote does not matter. -/
theorem stringSpan_split {expect : Expect} {cs : Bytes} {len : ℕ}
    (h : stringSpan expect cs = .ok len) :
    ∃ body tail, cs = body ++ 34 :: tail ∧ body.length = len ∧
      ∀ tail', stringSpan expect (body ++ 34 :: tail') = .ok len := by
  -- a character the scan goes over, whatever it expects before and behind it
  have hcons : ∀ {expect next : Expect} {c : UInt8} {cs : Bytes} {len : ℕ},
      (∀ cs, stringSpan expect (c :: cs) = (stringSpan next cs).map (· + 1)) →
      (∀ {len}, stringSpan next cs = .ok len → ∃ body tail, cs = body ++ 34 :: tail ∧
        body.length = len ∧ ∀ tail', stringSpan next (body ++ 34 :: tail') = .ok len) →
      (stringSpan next cs).map (· + 1) = .ok len →
      ∃ body tail, c :: cs = body ++ 34 :: tail ∧ body.length = len ∧
        ∀ tail', stringSpan expect (body ++ 34 :: tail') = .ok len := by
    intro expect next c cs len hc ih hlen
    obtain ⟨n, hspan, rfl⟩ := map_succ_eq_ok hlen
    obtain ⟨body, tail, rfl, rfl, hall⟩ := ih hspan
    refine ⟨c :: body, tail, rfl, rfl, fun tail' => ?_⟩
    rw [List.cons_append, hc, hall]
    rfl
  fun_induction stringSpan expect cs generalizing len with
  | case1 => simp at h
  | case2 => simp at h
  | case3 cs =>
      cases h
      exact ⟨[], cs, rfl, rfl, fun tail' => rfl⟩
  | case4 cs h0 hquote ih => exact hcons (fun cs => by rw [stringSpan]; rfl) ih h
  | case5 c cs h0 hquote hslash ih =>
      exact hcons (fun cs => by rw [stringSpan, if_neg h0, if_neg hquote, if_neg hslash]) ih h
  | case6 c cs hesc ih => exact hcons (fun cs => by rw [stringSpan, if_pos hesc]) ih h
  | case7 cs hesc ih => exact hcons (fun cs => by rw [stringSpan, if_neg hesc, if_pos rfl]) ih h
  | case8 => simp at h
  | case9 => simp at h
  | case10 left c cs h0 hhex ih =>
      exact hcons (fun cs => by rw [stringSpan, if_neg h0, if_pos hhex]) ih h
  | case11 => simp at h

/-- What a text that begins with a lexeme looks like. -/
inductive Lexes : Bytes → Lexeme → Prop where
  | openObject (cs : Bytes) : Lexes (123 :: cs) (.opening .object)
  | openArray (cs : Bytes) : Lexes (91 :: cs) (.opening .array)
  | closeObject (cs : Bytes) : Lexes (125 :: cs) (.closing .object)
  | closeArray (cs : Bytes) : Lexes (93 :: cs) (.closing .array)
  | string {cs : Bytes} {len : ℕ} (h : stringSpan .plain cs = .ok len) :
      Lexes (34 :: cs) (.leaf .string 1 len)
  | space {c : UInt8} (h : c = 9 ∨ c = 13 ∨ c = 10 ∨ c = 32) (cs : Bytes) :
      Lexes (c :: cs) .space
  | colon (cs : Bytes) : Lexes (58 :: cs) .colon
  | comma (cs : Bytes) : Lexes (44 :: cs) .comma
  | primitive {c : UInt8} {cs : Bytes} {len : ℕ} (hc : c ≠ 123 ∧ c ≠ 91 ∧ c ≠ 34)
      (h : primitiveSpan (c :: cs) = .ok len) (hlen : 0 < len) :
      Lexes (c :: cs) (.leaf .primitive 0 len)

/-- A primitive of a character that does not end primitives is not empty. -/
theorem primitiveSpan_pos {c : UInt8} {cs : Bytes} {len : ℕ} (h0 : c ≠ 0)
    (hends : endsPrimitive c = false) (h : primitiveSpan (c :: cs) = .ok len) : 0 < len := by
  rw [primitiveSpan, if_neg h0, hends] at h
  simp only [Bool.false_eq_true, if_false] at h
  split_ifs at h
  cases hspan : primitiveSpan cs with
  | error err => simp [hspan, Except.map] at h
  | ok n =>
      simp only [hspan, Except.map, Except.ok.injEq] at h
      omega

theorem lex_sound {rest : Bytes} {lx : Lexeme} (h : lex rest = .ok lx) : Lexes rest lx := by
  cases rest with
  | nil => simp [lex] at h
  | cons c cs =>
      simp only [lex] at h
      by_cases h0 : c = 0
      · simp [h0] at h
      by_cases hopen : c = 123 ∨ c = 91
      · rcases hopen with rfl | rfl <;> cases h
        · exact .openObject cs
        · exact .openArray cs
      by_cases hclose : c = 125 ∨ c = 93
      · rcases hclose with rfl | rfl <;> cases h
        · exact .closeObject cs
        · exact .closeArray cs
      rw [if_neg h0, if_neg hopen, if_neg hclose] at h
      by_cases hstr : c = 34
      · subst hstr
        cases hspan : stringSpan .plain cs with
        | error err => simp [hspan] at h
        | ok len =>
            simp only [hspan, if_true, Except.ok.injEq] at h
            exact h ▸ .string hspan
      by_cases hspace : c = 9 ∨ c = 13 ∨ c = 10 ∨ c = 32
      · rw [if_neg hstr, if_pos hspace, Except.ok.injEq] at h
        exact h ▸ .space hspace cs
      rw [if_neg hstr, if_neg hspace] at h
      by_cases hcolon : c = 58
      · subst hcolon
        cases h
        exact .colon cs
      by_cases hcomma : c = 44
      · subst hcomma
        cases h
        exact .comma cs
      rw [if_neg hcolon, if_neg hcomma] at h
      cases hspan : primitiveSpan (c :: cs) with
      | error err => simp [hspan] at h
      | ok len =>
          simp only [hspan, Except.ok.injEq] at h
          have hends : endsPrimitive c = false := by
            simp_all [endsPrimitive]
          exact h ▸ .primitive (by tauto) hspan (primitiveSpan_pos h0 hends hspan)

/-- The first character of a primitive begins no other lexeme. -/
theorem primitiveSpan_head {c : UInt8} {cs : Bytes} {len : ℕ}
    (h : primitiveSpan (c :: cs) = .ok len) (hlen : 0 < len) :
    c ≠ 0 ∧ endsPrimitive c = false := by
  rw [primitiveSpan] at h
  split_ifs at h with h0 hends
  · cases h
    exact absurd hlen (Nat.lt_irrefl 0)
  · cases h
    exact absurd hlen (Nat.lt_irrefl 0)
  · exact ⟨h0, by simpa using hends⟩

theorem lex_complete {rest : Bytes} {lx : Lexeme} (h : Lexes rest lx) : lex rest = .ok lx := by
  cases h with
  | openObject | openArray | closeObject | closeArray | colon | comma => rfl
  | string hspan => simp [lex, hspan]
  | space hspace cs => rcases hspace with rfl | rfl | rfl | rfl <;> rfl
  | primitive hc hspan hlen =>
      obtain ⟨h0, hends⟩ := primitiveSpan_head hspan hlen
      simp only [endsPrimitive, Bool.or_eq_false_iff, beq_eq_false_iff_ne] at hends
      simp_all [lex]

/-- A text only ends at its end or at a NUL character. -/
theorem lex_ne_end {c : UInt8} (h0 : c ≠ 0) (cs : Bytes) : lex (c :: cs) ≠ .error none := by
  intro h
  simp only [lex, if_neg h0] at h
  split_ifs at h
  · cases hspan : stringSpan .plain cs <;> simp [hspan] at h
  · cases hspan : primitiveSpan (c :: cs) <;> simp [hspan] at h

/-- A lexeme has characters, and they lie within the text. -/
theorem lex_width {rest : Bytes} {lx : Lexeme} (h : lex rest = .ok lx) :
    0 < lx.width ∧ lx.width ≤ rest.length := by
  cases lex_sound h with
  | string hspan =>
      obtain ⟨body, tail, rfl, rfl, -⟩ := stringSpan_split hspan
      simp only [Lexeme.width, List.length_cons, List.length_append]
      omega
  | primitive hc hspan hlen =>
      obtain ⟨text, tail, hsplit, rfl, -⟩ := primitiveSpan_split hspan
      rw [hsplit]
      simp only [Lexeme.width, List.length_append]
      omega
  | _ => simp [Lexeme.width]

/-! ### The tokenizer -/

/-- The tokenizer between two lexemes: the position, the tokens so far, and the index of the
one that is the parent of the next. -/
structure State where
  pos : ℕ
  toks : List Token
  super : Option ℕ
  deriving DecidableEq, Repr

/-- One more child for the parent. -/
def bump (super : Option ℕ) (toks : List Token) : List Token :=
  match super with
  | none => toks
  | some i => toks.modify i fun token => { token with size := token.size + 1 }

/-- The parent after a comma: a container again, if there is an open one. -/
def State.commaSuper (s : State) : Option ℕ :=
  match s.super with
  | none => none
  | some i =>
      if (s.toks[i]?).any Token.isContainer then some i
      else (lastIdx (fun token => token.isContainer && token.isOpen) s.toks).or (some i)

/-- What a lexeme does, with room for `cap` tokens. -/
def State.advance (cap : ℕ) (s : State) : Lexeme → Except Err State
  | .opening type =>
      if cap ≤ s.toks.length then .error .nomem
      else .ok ⟨s.pos + 1, bump s.super s.toks ++ [⟨type, s.pos, -1, 0⟩], some s.toks.length⟩
  | .closing type =>
      match lastIdx Token.isOpen s.toks with
      | none => .error .inval
      | some i =>
          if (s.toks[i]?).any fun token => token.type = type then
            let toks := s.toks.modify i fun token => { token with stop := s.pos + 1 }
            .ok ⟨s.pos + 1, toks, lastIdx Token.isOpen toks⟩
          else .error .inval
  | .leaf type quote len =>
      if cap ≤ s.toks.length then .error .nomem
      else
        .ok ⟨s.pos + (len + 2 * quote),
          bump s.super s.toks ++ [⟨type, s.pos + quote, s.pos + quote + len, 0⟩], s.super⟩
  | .space => .ok { s with pos := s.pos + 1 }
  | .colon =>
      .ok { s with
        pos := s.pos + 1
        super := if s.toks.length = 0 then none else some (s.toks.length - 1) }
  | .comma => .ok { s with pos := s.pos + 1, super := s.commaSuper }

@[simp] theorem bump_length (super : Option ℕ) (toks : List Token) :
    (bump super toks).length = toks.length := by
  cases super <;> simp [bump]

/-- **One step**: the position moves behind the lexeme, and its token is made. -/
theorem State.advance_pos {cap : ℕ} {s s' : State} {lx : Lexeme}
    (h : s.advance cap lx = .ok s') :
    s'.pos = s.pos + lx.width ∧ s'.toks.length = s.toks.length + lx.weight := by
  cases lx with
  | opening type =>
      simp only [State.advance] at h
      split_ifs at h
      cases h
      simp [Lexeme.width, Lexeme.weight]
  | closing type =>
      simp only [State.advance] at h
      split at h
      · simp at h
      · split_ifs at h
        cases h
        simp [Lexeme.width, Lexeme.weight]
  | leaf type quote len =>
      simp only [State.advance] at h
      split_ifs at h
      cases h
      simp [Lexeme.width, Lexeme.weight]
  | space | colon | comma =>
      cases h
      exact ⟨rfl, rfl⟩

/-- A token that has ended is not open. -/
theorem Token.not_isOpen_of_stop {token : Token} {n : ℕ} (h : token.stop = n) :
    token.isOpen = false := by
  have hne : token.stop ≠ -1 := by omega
  simp [Token.isOpen, hne]

/-- **A closing bracket** ends the last open token, and the one that was open before it is the
parent again. -/
theorem State.advance_closing {l₁ l₂ : List Token} {token : Token}
    {s : State} (htoks : s.toks = l₁ ++ token :: l₂) (hopen : token.isOpen = true)
    (hrest : lastIdx Token.isOpen l₂ = none) (cap : ℕ) (type : TokType) :
    s.advance cap (.closing type) =
      if token.type = type then
        .ok ⟨s.pos + 1, l₁ ++ { token with stop := s.pos + 1 } :: l₂, lastIdx Token.isOpen l₁⟩
      else .error .inval := by
  have hmodify : ∀ f : Token → Token,
      (l₁ ++ token :: l₂).modify l₁.length f = l₁ ++ f token :: l₂ := by
    intro f
    simp [List.modify_eq_set_getElem?]
  have hended : lastIdx Token.isOpen ({ token with stop := (s.pos : ℤ) + 1 } :: l₂) = none := by
    rw [lastIdx, hrest, Token.not_isOpen_of_stop (n := s.pos + 1) (by push_cast; rfl)]
    rfl
  rw [State.advance, htoks, lastIdx_middle hopen hrest]
  simp only [hmodify, lastIdx_append_of_none hended]
  simp

/-- What a call returns at the end of the text. -/
def State.verdict (s : State) : Except Err ℕ :=
  if lastIdx Token.isOpen s.toks = none then .ok s.toks.length else .error .part

/-- The tokenizer on a text, from a state on. -/
def tokenize (js : Bytes) (cap : ℕ) (s : State) : Except Err ℕ × State :=
  match _hlex : lex (js.drop s.pos) with
  | .error none => (s.verdict, s)
  | .error (some err) => (.error err, s)
  | .ok lx =>
      match _hadv : s.advance cap lx with
      | .error err => (.error err, s)
      | .ok s' => tokenize js cap s'
  termination_by js.length - s.pos
  decreasing_by
    have hwidth := lex_width _hlex
    have hpos := (State.advance_pos _hadv).1
    rw [List.length_drop] at hwidth
    omega

/-- The tokens of a text, counted from a position on. -/
def countFrom (js : Bytes) (pos : ℕ) : Except Err ℕ :=
  match _hlex : lex (js.drop pos) with
  | .error none => .ok 0
  | .error (some err) => .error err
  | .ok lx => (countFrom js (pos + lx.width)).map (· + lx.weight)
  termination_by js.length - pos
  decreasing_by
    have hwidth := lex_width _hlex
    rw [List.length_drop] at hwidth
    omega

section Steps

variable {js : Bytes} {cap : ℕ} {s s' : State} {lx : Lexeme} {err : Err}

/-- The end of the text. -/
theorem tokenize_of_end (h : lex (js.drop s.pos) = .error none) :
    tokenize js cap s = (s.verdict, s) := by
  rw [tokenize, h]

/-- A lexeme with an error. -/
theorem tokenize_of_bad (h : lex (js.drop s.pos) = .error (some err)) :
    tokenize js cap s = (.error err, s) := by
  rw [tokenize, h]

/-- A lexeme that has no place here. -/
theorem tokenize_of_error (h : lex (js.drop s.pos) = .ok lx)
    (hadv : s.advance cap lx = .error err) : tokenize js cap s = (.error err, s) := by
  rw [tokenize, h]
  dsimp only
  rw [hadv]

/-- A lexeme the tokenizer goes on behind. -/
theorem tokenize_of_ok (h : lex (js.drop s.pos) = .ok lx) (hadv : s.advance cap lx = .ok s') :
    tokenize js cap s = tokenize js cap s' := by
  rw [tokenize, h]
  dsimp only
  rw [hadv]

end Steps

/-- A call keeps the tokens it was called with. -/
theorem le_tokenize_length (js : Bytes) (cap : ℕ) (s : State) :
    s.toks.length ≤ (tokenize js cap s).2.toks.length := by
  induction s using tokenize.induct js cap with
  | case1 s h => rw [tokenize_of_end h]
  | case2 s err h => rw [tokenize_of_bad h]
  | case3 s lx h err hadv => rw [tokenize_of_error h hadv]
  | case4 s lx h s' hadv ih =>
      have hlen := (State.advance_pos hadv).2
      rw [tokenize_of_ok h hadv]
      omega

/-- The room for tokens is respected. -/
theorem tokenize_length_le (js : Bytes) (cap : ℕ) (s : State) :
    (tokenize js cap s).2.toks.length ≤ max s.toks.length cap := by
  induction s using tokenize.induct js cap with
  | case1 s h =>
      rw [tokenize_of_end h]
      exact le_max_left _ _
  | case2 s err h =>
      rw [tokenize_of_bad h]
      exact le_max_left _ _
  | case3 s lx h err hadv =>
      rw [tokenize_of_error h hadv]
      exact le_max_left _ _
  | case4 s lx h s' hadv ih =>
      rw [tokenize_of_ok h hadv]
      refine Nat.le_trans ih (max_le ?_ (le_max_right _ _))
      cases lx with
      | opening | leaf =>
          simp only [State.advance] at hadv
          split_ifs at hadv
          cases hadv
          simp only [List.length_append, bump_length, List.length_cons, List.length_nil]
          omega
      | closing | space | colon | comma =>
          have hlen := (State.advance_pos hadv).2
          simp only [Lexeme.weight] at hlen
          omega

end Wgi.Jsmn
