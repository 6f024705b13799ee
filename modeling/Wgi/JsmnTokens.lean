import Wgi.JsmnRefine
import Wgi.Machine

/-!
# The Tokens of a Text

A call of the tokenizer may run out of tokens or of text. The caller then gets more text, or an
array with more room behind the tokens it has, and calls it again, as often as it likes: a
session. Whatever the text is, JSON or not, the tokens of a session are pieces of it that are
nested in each other.

## Main results

* `advance_nested`, `tokenize_nested`: the invariant of the tokens, for a step and for a call.
* `State.fitsInt`: as long as an `int` can index the text, no number overflows.
* `session_nested`: all this holds after every session, and no call of a session makes an
  access outside of the text or of the array.
-/

namespace Wgi.Jsmn

open LastIndex

/-! ### Pieces of the text -/

/-- The piece of the text a token stands for: all of the token but its number of children. -/
structure Span where
  type : TokType
  start : ℤ
  stop : ℤ
  deriving DecidableEq, Repr

/-- The piece of the text a token stands for. -/
def Token.span (token : Token) : Span :=
  ⟨token.type, token.start, token.stop⟩

/-- The brackets of a container. -/
def brackets : TokType → Option (UInt8 × UInt8)
  | .object => some (123, 125)
  | .array => some (91, 93)
  | _ => none

/-- The pieces the tokenizer makes of a text: an open container begins with its bracket, and a
closed one ends with the other; a string stands between quotes, the second of which is the
first that is not escaped; a primitive is not empty and has only characters of primitives. -/
inductive Piece (js : Bytes) : Span → Prop where
  | opened {type : TokType} {o c : UInt8} {start : ℕ} (hb : brackets type = some (o, c))
      (hopen : [o] <+: js.drop start) : Piece js ⟨type, start, -1⟩
  | closed {type : TokType} {o c : UInt8} {start last : ℕ} (hb : brackets type = some (o, c))
      (hopen : [o] <+: js.drop start) (hlt : start < last) (hclose : [c] <+: js.drop last) :
      Piece js ⟨type, start, last + 1⟩
  | string {start : ℕ} {body : Bytes} (hbody : stringSpan .plain (body ++ [34]) = .ok body.length)
      (hat : 34 :: body ++ [34] <+: js.drop start) :
      Piece js ⟨.string, start + 1, start + 1 + body.length⟩
  | primitive {start : ℕ} {text : Bytes} (hne : text ≠ []) (hchars : text.all isPrimitiveChar)
      (hat : text <+: js.drop start) : Piece js ⟨.primitive, start, start + text.length⟩

/-- A piece and one that begins behind its beginning: it is open, or it ends before the other
begins, or it ends after the other ends. -/
def Span.Nested (a b : Span) : Prop :=
  a.start < b.start ∧ (a.stop = -1 ∨ a.stop ≤ b.start ∨ (b.stop ≠ -1 ∧ b.stop ≤ a.stop))

/-- The pieces of the tokens so far: they are in the order in which they begin, behind the
position, and nested in each other. -/
structure WellNested (js : Bytes) (pos : ℕ) (spans : List Span) : Prop where
  pos_le : pos ≤ js.length
  piece : ∀ span ∈ spans, Piece js span
  behind : ∀ span ∈ spans, span.start < pos ∧ span.stop ≤ pos
  nested : spans.Pairwise Span.Nested

/-- More children change no piece. -/
@[simp] theorem bump_map_span (super : Option ℕ) (toks : List Token) :
    (bump super toks).map Token.span = toks.map Token.span := by
  cases super with
  | none => rfl
  | some i =>
      refine List.ext_getElem? fun j => ?_
      rw [bump, List.getElem?_map, List.getElem?_map, List.getElem?_modify]
      by_cases h : i = j
      · cases toks[j]? <;> simp [h, Token.span]
      · cases toks[j]? <;> simp [h]

/-- A prefix of the rest of a text is one of the rest of a longer text. -/
theorem isPrefix_drop_append {js text : Bytes} {start : ℕ} (hne : text ≠ [])
    (h : text <+: js.drop start) (more : Bytes) : text <+: (js ++ more).drop start := by
  have hle : start ≤ js.length := by
    by_contra hgt
    rw [List.drop_eq_nil_of_le (by omega)] at h
    exact hne (List.prefix_nil.mp h)
  rw [List.drop_append_of_le_length hle]
  exact h.trans (List.prefix_append _ _)

/-- Every piece begins somewhere. -/
theorem Piece.start_nonneg {js : Bytes} {span : Span} (h : Piece js span) : 0 ≤ span.start := by
  cases h with
  | opened | closed | primitive => exact Int.natCast_nonneg _
  | string => simp only; omega

/-- No piece ends before the text begins, but an open one. -/
theorem Piece.stop_ge {js : Bytes} {span : Span} (h : Piece js span) : -1 ≤ span.stop := by
  cases h with
  | opened => exact Int.le_refl _
  | closed | primitive | string => simp only; omega

/-- An open piece is a container that begins with its bracket. -/
theorem Piece.of_open {js : Bytes} {type : TokType} {start : ℤ} (h : Piece js ⟨type, start, -1⟩) :
    ∃ o c, ∃ n : ℕ, brackets type = some (o, c) ∧ [o] <+: js.drop n ∧ start = n := by
  generalize hspan : (⟨type, start, -1⟩ : Span) = span at h
  cases h with
  | opened hb hopen =>
      cases hspan
      exact ⟨_, _, _, hb, hopen, rfl⟩
  | closed | string | primitive =>
      simp only [Span.mk.injEq] at hspan
      omega

/-- A piece of a text is a piece of a longer one. -/
theorem Piece.append {js : Bytes} {span : Span} (h : Piece js span) (more : Bytes) :
    Piece (js ++ more) span := by
  cases h with
  | opened hb hopen => exact .opened hb (isPrefix_drop_append (by simp) hopen more)
  | closed hb hopen hlt hclose =>
      exact .closed hb (isPrefix_drop_append (by simp) hopen more) hlt
        (isPrefix_drop_append (by simp) hclose more)
  | string hbody hat => exact .string hbody (isPrefix_drop_append (by simp) hat more)
  | primitive hne hchars hat =>
      exact .primitive hne hchars (isPrefix_drop_append hne hat more)

/-- The invariant survives more text. -/
theorem WellNested.append {js : Bytes} {pos : ℕ} {spans : List Span}
    (h : WellNested js pos spans) (more : Bytes) : WellNested (js ++ more) pos spans where
  pos_le := by
    have := h.pos_le
    rw [List.length_append]
    omega
  piece span hspan := (h.piece span hspan).append more
  behind := h.behind
  nested := h.nested

/-! ### Steps -/

section Step

variable {js : Bytes} {pos : ℕ} {spans : List Span}

/-- The position moves on. -/
theorem WellNested.forward (h : WellNested js pos spans) {pos' : ℕ} (hle : pos ≤ pos')
    (hpos : pos' ≤ js.length) : WellNested js pos' spans where
  pos_le := hpos
  piece := h.piece
  behind span hspan := by
    have := h.behind span hspan
    omega
  nested := h.nested

/-- **A new piece** begins at the position or behind it, so that no other piece overlaps it. -/
theorem WellNested.push (h : WellNested js pos spans) {span : Span} (hspan : Piece js span)
    {pos' : ℕ} (hpos : pos' ≤ js.length) (hstart : pos ≤ span.start) (hlt : span.start < pos')
    (hstop : span.stop ≤ pos') : WellNested js pos' (spans ++ [span]) where
  pos_le := hpos
  piece := by
    intro a ha
    rcases List.mem_append.mp ha with ha | ha
    · exact h.piece a ha
    · exact List.mem_singleton.mp ha ▸ hspan
  behind := by
    intro a ha
    rcases List.mem_append.mp ha with ha | ha
    · have := h.behind a ha
      omega
    · exact List.mem_singleton.mp ha ▸ ⟨hlt, hstop⟩
  nested := by
    refine List.pairwise_append.mpr ⟨h.nested, List.pairwise_singleton _ _, ?_⟩
    intro a ha b hb
    have := h.behind a ha
    rw [List.mem_singleton.mp hb]
    exact ⟨by omega, Or.inr (Or.inl (by omega))⟩

/-- **The last open piece is closed**: the pieces behind it have ended, and those before it
are open or end before it begins. -/
theorem WellNested.close {l₁ l₂ : List Span} {type : TokType} {start : ℤ}
    (h : WellNested js pos (l₁ ++ ⟨type, start, -1⟩ :: l₂)) (hended : ∀ a ∈ l₂, a.stop ≠ -1)
    (hpos : pos < js.length) (hpiece : Piece js ⟨type, start, pos + 1⟩) :
    WellNested js (pos + 1) (l₁ ++ ⟨type, start, pos + 1⟩ :: l₂) where
  pos_le := hpos
  piece := by
    intro a ha
    rcases List.mem_append.mp ha with ha | ha
    · exact h.piece a (List.mem_append_left _ ha)
    · rcases List.mem_cons.mp ha with rfl | ha
      · exact hpiece
      · exact h.piece a (List.mem_append_right _ (List.mem_cons_of_mem _ ha))
  behind := by
    have hold := h.behind ⟨type, start, -1⟩ (by simp)
    intro a ha
    rcases List.mem_append.mp ha with ha | ha
    · have := h.behind a (List.mem_append_left _ ha)
      push_cast
      omega
    · rcases List.mem_cons.mp ha with rfl | ha
      · push_cast
        simp only at hold ⊢
        omega
      · have := h.behind a (List.mem_append_right _ (List.mem_cons_of_mem _ ha))
        push_cast
        omega
  nested := by
    obtain ⟨h₁, h₂, h₁₂⟩ := List.pairwise_append.mp h.nested
    obtain ⟨hhead, htail⟩ := List.pairwise_cons.mp h₂
    refine List.pairwise_append.mpr ⟨h₁, List.pairwise_cons.mpr ⟨?_, htail⟩, ?_⟩
    · intro b hb
      have hbehind := h.behind b (List.mem_append_right _ (List.mem_cons_of_mem _ hb))
      exact ⟨(hhead b hb).1, Or.inr (Or.inr ⟨hended b hb, by simp only; omega⟩)⟩
    · intro a ha b hb
      rcases List.mem_cons.mp hb with rfl | hb
      · have hold := h₁₂ a ha ⟨type, start, -1⟩ (by simp)
        refine ⟨hold.1, ?_⟩
        rcases hold.2 with hopen | hbefore | ⟨hne, -⟩
        · exact Or.inl hopen
        · exact Or.inr (Or.inl hbefore)
        · exact absurd rfl hne
      · exact h₁₂ a ha b (List.mem_cons_of_mem _ hb)

end Step

/-- **One lexeme** keeps the tokens well nested. -/
theorem advance_nested {js : Bytes} {cap : ℕ} {s s' : State} {lx : Lexeme}
    (h : WellNested js s.pos (s.toks.map Token.span)) (hlex : lex (js.drop s.pos) = .ok lx)
    (hadv : s.advance cap lx = .ok s') : WellNested js s'.pos (s'.toks.map Token.span) := by
  obtain ⟨hpos, -⟩ := State.advance_pos hadv
  have hwithin : s'.pos ≤ js.length := by
    have hwidth := (lex_width hlex).2
    have hle := h.pos_le
    rw [List.length_drop] at hwidth
    omega
  have hlexes := lex_sound hlex
  cases lx with
  | opening type =>
      simp only [State.advance] at hadv
      split_ifs at hadv
      cases hadv
      simp only [List.map_append, bump_map_span]
      refine h.push ?_ hwithin (Int.le_refl _) ?_ ?_
      · generalize hrest : js.drop s.pos = rest at hlexes
        cases hlexes with
        | openObject cs => exact .opened (o := 123) (c := 125) rfl ⟨cs, hrest.symm⟩
        | openArray cs => exact .opened (o := 91) (c := 93) rfl ⟨cs, hrest.symm⟩
      · simp [Token.span]
      · simp only [Token.span]
        omega
  | closing type =>
      cases hlast : lastIdx Token.isOpen s.toks with
      | none => simp [State.advance, hlast] at hadv
      | some i =>
          obtain ⟨l₁, token, l₂, hsplit, -, hopen, hrest⟩ := lastIdx_split hlast
          rw [State.advance_closing hsplit hopen hrest] at hadv
          split_ifs at hadv with htype
          cases hadv
          subst htype
          have hspan : token.span = ⟨token.type, token.start, -1⟩ := by
            simp only [Token.isOpen, Bool.and_eq_true, beq_iff_eq] at hopen
            rw [Token.span, hopen.2]
          have hold : WellNested js s.pos
              (l₁.map Token.span ++ ⟨token.type, token.start, -1⟩ :: l₂.map Token.span) := by
            rw [hsplit, List.map_append, List.map_cons, hspan] at h
            exact h
          have hbehind := hold.behind ⟨token.type, token.start, -1⟩ (by simp)
          have hended : ∀ a ∈ l₂.map Token.span, a.stop ≠ -1 := by
            intro a ha
            obtain ⟨t, ht, rfl⟩ := List.mem_map.mp ha
            have hclosed := lastIdx_eq_none_iff.mp hrest t ht
            have hnonneg := (hold.piece t.span
              (List.mem_append_right _ (List.mem_cons_of_mem _ ha))).start_nonneg
            have hstart : t.start ≠ -1 := by
              simp only [Token.span] at hnonneg
              omega
            simpa [Token.isOpen, Token.span, hstart] using hclosed
          rw [List.map_append, List.map_cons]
          refine hold.close hended hwithin ?_
          obtain ⟨o, c, start, hb, hbracket, hstart⟩ :=
            (hold.piece ⟨token.type, token.start, -1⟩ (by simp)).of_open
          rw [hstart] at hbehind ⊢
          refine .closed hb hbracket (by simp only at hbehind; omega) ?_
          generalize token.type = type at hb hlexes
          generalize hrest : js.drop s.pos = rest at hlexes
          cases hlexes with
          | closeObject cs =>
              cases hb
              exact ⟨cs, rfl⟩
          | closeArray cs =>
              cases hb
              exact ⟨cs, rfl⟩
  | leaf type quote len =>
      simp only [State.advance] at hadv
      split_ifs at hadv
      cases hadv
      simp only [List.map_append, bump_map_span]
      refine h.push ?_ hwithin ?_ ?_ ?_
      · generalize hrest : js.drop s.pos = rest at hlexes
        cases hlexes with
        | string hspan =>
            obtain ⟨body, tail, rfl, rfl, hall⟩ := stringSpan_split hspan
            exact .string (hall []) ⟨tail, by simp [hrest]⟩
        | primitive hc hspan hlen =>
            obtain ⟨text, tail, hsplit, rfl, hchars, -⟩ := primitiveSpan_split hspan
            simp only [Token.span, Nat.cast_zero, Int.add_zero]
            exact .primitive (List.ne_nil_of_length_pos hlen) hchars
              ⟨tail, (hrest.trans hsplit).symm⟩
      · simp only [Token.span]
        omega
      · have hwidth := (lex_width hlex).1
        simp only [Token.span, Lexeme.width] at hwidth ⊢
        push_cast
        omega
      · simp only [Token.span]
        push_cast
        omega
  | space | colon | comma =>
      cases hadv
      exact h.forward (Nat.le_succ _) hwithin

/-- **A call** keeps the tokens well nested. -/
theorem tokenize_nested {js : Bytes} {s : State} (cap : ℕ)
    (h : WellNested js s.pos (s.toks.map Token.span)) :
    WellNested js (tokenize js cap s).2.pos ((tokenize js cap s).2.toks.map Token.span) := by
  induction s using tokenize.induct js cap with
  | case1 s hlex => rwa [tokenize_of_end hlex]
  | case2 s err hlex => rwa [tokenize_of_bad hlex]
  | case3 s lx hlex err hadv => rwa [tokenize_of_error hlex hadv]
  | case4 s lx hlex s' hadv ih =>
      rw [tokenize_of_ok hlex hadv]
      exact ih (advance_nested h hlex hadv)

/-- A call keeps a parent that exists. -/
theorem tokenize_valid {js : Bytes} {cap : ℕ} {s : State} (h : s.Valid) :
    (tokenize js cap s).2.Valid := by
  induction s using tokenize.induct js cap with
  | case1 s hlex => rwa [tokenize_of_end hlex]
  | case2 s err hlex => rwa [tokenize_of_bad hlex]
  | case3 s lx hlex err hadv => rwa [tokenize_of_error hlex hadv]
  | case4 s lx hlex s' hadv ih =>
      rw [tokenize_of_ok hlex hadv]
      exact ih (State.advance_valid h hadv)

/-- A call that returns a count has closed all tokens, and it counts all of them. -/
theorem tokenize_ok {js : Bytes} {cap : ℕ} {s : State} {count : ℕ}
    (h : (tokenize js cap s).1 = .ok count) :
    count = (tokenize js cap s).2.toks.length ∧
      lastIdx Token.isOpen (tokenize js cap s).2.toks = none := by
  induction s using tokenize.induct js cap with
  | case1 s hlex =>
      rw [tokenize_of_end hlex] at h ⊢
      simp only [State.verdict] at h
      split_ifs at h with hnone
      cases h
      exact ⟨rfl, hnone⟩
  | case2 s err hlex => simp [tokenize_of_bad hlex] at h
  | case3 s lx hlex err hadv => simp [tokenize_of_error hlex hadv] at h
  | case4 s lx hlex s' hadv ih =>
      rw [tokenize_of_ok hlex hadv] at h ⊢
      exact ih h

/-! ### Sessions -/

/-- A caller between two calls: the text and the parser with its array. -/
structure Session where
  js : Bytes
  parser : Parser
  deriving DecidableEq, Repr

/-- A caller that has more text or a larger array than before, or both, and calls `jsmn_parse`
with them. -/
def session : Machine Session (Bytes × List Token) (Except Err ℕ) Fault where
  step st call := do
    let js := st.js ++ call.1
    let tokens := st.parser.tokens.getD [] ++ call.2
    let (result, parser) ← parse js tokens.length { st.parser with tokens := some tokens }
    pure (result, ⟨js, parser⟩)

/-- The array of a session, all of it. -/
def arrayOf (calls : List (Bytes × List Token)) : List Token :=
  (calls.map Prod.snd).flatten

/-- The text of a session, all of it. -/
def textOf (calls : List (Bytes × List Token)) : Bytes :=
  (calls.map Prod.fst).flatten

/-- A caller before its first call. -/
def Session.start : Session :=
  ⟨[], init (some [])⟩

/-- A caller after some calls: its parser is in the state `s`, and the rest of the array is as
the caller gave it. -/
def Session.At (calls : List (Bytes × List Token)) (st : Session) (s : State) : Prop :=
  s.Valid ∧ s.toks.length ≤ (arrayOf calls).length ∧
    st = ⟨textOf calls, s.parser ((arrayOf calls).drop s.toks.length)⟩

theorem start_valid : State.Valid ⟨0, [], none⟩ :=
  fun _ hi => absurd hi (by simp)

theorem Session.start_at : Session.At [] Session.start ⟨0, [], none⟩ :=
  ⟨start_valid, Nat.le_refl _, rfl⟩

/-- A call with an array that holds the tokens so far at its head. -/
theorem parse_array {s : State} (hv : s.Valid) (js : Bytes) {array : List Token}
    (hle : s.toks.length ≤ array.length) :
    parse js array.length (s.parser (array.drop s.toks.length)) =
      .ok ((tokenize js array.length s).1, (tokenize js array.length s).2.parser
        (array.drop (tokenize js array.length s).2.toks.length)) := by
  have hmono := le_tokenize_length js array.length s
  have hcap : array.length ≤ s.toks.length + (array.drop s.toks.length).length := by
    rw [List.length_drop]
    omega
  rw [parse_eq hv hcap, List.drop_drop, Nat.add_sub_cancel' hmono]

/-- **One call** of a session is a call of the tokenizer with all of the text and all of the
array so far. -/
theorem session_step {calls : List (Bytes × List Token)} {st : Session} {s : State}
    (h : Session.At calls st s) (call : Bytes × List Token) :
    ∃ st', session.step st call = .ok ((tokenize (textOf (calls ++ [call]))
        (arrayOf (calls ++ [call])).length s).1, st') ∧
      Session.At (calls ++ [call]) st'
        (tokenize (textOf (calls ++ [call])) (arrayOf (calls ++ [call])).length s).2 := by
  obtain ⟨hv, hle, rfl⟩ := h
  have htext : textOf calls ++ call.1 = textOf (calls ++ [call]) := by simp [textOf]
  have harray : arrayOf (calls ++ [call]) = arrayOf calls ++ call.2 := by simp [arrayOf]
  have hle' : s.toks.length ≤ (arrayOf (calls ++ [call])).length := by
    rw [harray, List.length_append]
    omega
  -- the array of this call: the tokens so far, and what the caller had behind them
  have hgrown : s.toks ++ (arrayOf calls).drop s.toks.length ++ call.2 =
      s.toks ++ (arrayOf (calls ++ [call])).drop s.toks.length := by
    rw [List.append_assoc, harray, List.drop_append_of_le_length hle]
  have hlen : (s.toks ++ (arrayOf (calls ++ [call])).drop s.toks.length).length =
      (arrayOf (calls ++ [call])).length := by
    rw [List.length_append, List.length_drop]
    omega
  have hparse := parse_array hv (textOf (calls ++ [call])) hle'
  refine ⟨_, ?_, tokenize_valid hv, ?_, rfl⟩
  · simp only [session, State.parser, Option.getD_some, htext, hgrown, hlen] at hparse ⊢
    rw [hparse]
    rfl
  · have hmax := tokenize_length_le (textOf (calls ++ [call])) (arrayOf (calls ++ [call])).length s
    omega

/-- **The rule for sessions**: no call of a session fails, and what every call hands on from
the state of the tokenizer to the next holds after all of them. -/
theorem session_run {P : List (Bytes × List Token) → State → Prop} (hstart : P [] ⟨0, [], none⟩)
    (hstep : ∀ done call s, P done s → P (done ++ [call])
      (tokenize (textOf (done ++ [call])) (arrayOf (done ++ [call])).length s).2)
    (calls : List (Bytes × List Token)) :
    ∃ results st s, session.run Session.start calls = .ok (results, st) ∧
      Session.At calls st s ∧ P calls s := by
  have hrun := session.run_total (R := fun _ _ => True)
    (P := fun rest st => ∃ done s, done ++ rest = calls ∧ Session.At done st s ∧ P done s)
    (s := Session.start) ?_ ⟨[], ⟨0, [], none⟩, List.nil_append calls, Session.start_at, hstart⟩
  · obtain ⟨results, st, hrun, -, done, s, hdone, hat, hP⟩ := hrun
    rw [List.append_nil] at hdone
    exact ⟨results, st, s, hrun, hdone ▸ hat, hdone ▸ hP⟩
  · rintro call rest st ⟨done, s, hdone, hat, hP⟩
    obtain ⟨st', hst', hat'⟩ := session_step hat call
    exact ⟨_, st', hst', trivial, done ++ [call], _, by simpa using hdone, hat',
      hstep done call s hP⟩

/-! ### Widths -/

/-- A number that a C `int` can hold. -/
def FitsInt (z : ℤ) : Prop :=
  -2 ^ 31 ≤ z ∧ z < 2 ^ 31

/-- The numbers of a token fit the fields of `jsmntok_t`. -/
structure Token.FitsInt (token : Token) : Prop where
  start : Jsmn.FitsInt token.start
  stop : Jsmn.FitsInt token.stop
  size : Jsmn.FitsInt token.size

/-- The numbers of a parser and of the tokens it has made fit the fields of `jsmn_parser` and
`jsmntok_t`. -/
structure Parser.FitsInt (parser : Parser) : Prop where
  pos : Jsmn.FitsInt parser.pos
  toknext : Jsmn.FitsInt parser.toknext
  toksuper : Jsmn.FitsInt parser.toksuper
  toks : ∀ token ∈ (parser.tokens.getD []).take parser.toknext, token.FitsInt

/-- Every token has at least one character of its own, and every child is a token. -/
structure State.Small (s : State) : Prop where
  length_le : s.toks.length ≤ s.pos
  size_le : ∀ token ∈ s.toks, token.size ≤ s.toks.length

/-- An element of a list in which one was modified. -/
theorem exists_of_mem_modify {toks : List Token} {i : ℕ} {f : Token → Token} {token : Token}
    (h : token ∈ toks.modify i f) : ∃ old ∈ toks, token = old ∨ token = f old := by
  obtain ⟨j, hj⟩ := List.mem_iff_getElem?.mp h
  rw [List.getElem?_modify, Option.map_eq_map, Option.map_eq_some_iff] at hj
  obtain ⟨old, hold, rfl⟩ := hj
  refine ⟨old, List.mem_of_getElem? hold, ?_⟩
  split_ifs
  · exact Or.inr rfl
  · exact Or.inl rfl

/-- One more child at most for each token. -/
theorem size_le_of_mem_bump {super : Option ℕ} {toks : List Token} {n : ℕ}
    (h : ∀ token ∈ toks, token.size ≤ n) : ∀ token ∈ bump super toks, token.size ≤ n + 1 := by
  intro token htoken
  cases super with
  | none => exact Nat.le_succ_of_le (h token htoken)
  | some i =>
      obtain ⟨old, hold, rfl | rfl⟩ := exists_of_mem_modify htoken
      · exact Nat.le_succ_of_le (h token hold)
      · exact Nat.succ_le_succ (h old hold)

/-- **One lexeme** makes at most one token and has at least one character. -/
theorem State.Small.advance {cap : ℕ} {s s' : State} {lx : Lexeme} (h : s.Small)
    (hwidth : 0 < lx.width) (hadv : s.advance cap lx = .ok s') : s'.Small := by
  obtain ⟨hpos, hlen⟩ := State.advance_pos hadv
  have hle := h.length_le
  refine ⟨by cases lx <;> simp only [Lexeme.weight] at hlen <;> omega, ?_⟩
  cases lx with
  | opening | leaf =>
      simp only [State.advance] at hadv
      split_ifs at hadv
      cases hadv
      intro token htoken
      rw [List.length_append, bump_length]
      rcases List.mem_append.mp htoken with hold | hnew
      · exact size_le_of_mem_bump h.size_le token hold
      · rw [List.mem_singleton.mp hnew]
        exact Nat.zero_le _
  | closing type =>
      simp only [State.advance] at hadv
      split at hadv
      · simp at hadv
      · split_ifs at hadv
        cases hadv
        intro token htoken
        rw [List.length_modify]
        obtain ⟨old, hold, rfl | rfl⟩ := exists_of_mem_modify htoken
        · exact h.size_le token hold
        · exact h.size_le old hold
  | space | colon | comma =>
      cases hadv
      exact h.size_le

theorem tokenize_small {js : Bytes} {s : State} (cap : ℕ) (h : s.Small) :
    (tokenize js cap s).2.Small := by
  induction s using tokenize.induct js cap with
  | case1 s hlex => rwa [tokenize_of_end hlex]
  | case2 s err hlex => rwa [tokenize_of_bad hlex]
  | case3 s lx hlex err hadv => rwa [tokenize_of_error hlex hadv]
  | case4 s lx hlex s' hadv ih =>
      rw [tokenize_of_ok hlex hadv]
      exact ih (h.advance (lex_width hlex).1 hadv)

/-- **No number overflows** in a parser over a text that an `int` can index. -/
theorem State.fitsInt {js : Bytes} {s : State} (hint : js.length < 2 ^ 31) (hv : s.Valid)
    (hsmall : s.Small) (hnested : WellNested js s.pos (s.toks.map Token.span))
    (junk : List Token) : (s.parser junk).FitsInt := by
  have hpos := hnested.pos_le
  have hlen := hsmall.length_le
  refine ⟨?_, ?_, ?_, fun token htoken => ?_⟩
  · simp only [FitsInt, State.parser]
    omega
  · simp only [FitsInt, State.parser]
    omega
  · simp only [FitsInt, State.parser]
    cases hsuper : s.super with
    | none => simp [superIdx]
    | some i =>
        have := hv i hsuper
        simp only [superIdx]
        omega
  · simp only [State.parser, Option.getD_some, List.take_left'] at htoken
    have hmem := List.mem_map_of_mem (f := Token.span) htoken
    have hsize := hsmall.size_le token htoken
    obtain ⟨hstart, hstop⟩ := hnested.behind token.span hmem
    have hpiece := hnested.piece token.span hmem
    have hnonneg := hpiece.start_nonneg
    have hopen := hpiece.stop_ge
    simp only [Token.span] at hstart hstop hnonneg hopen
    constructor <;> simp only [FitsInt] <;> omega

/-- The state before the first call. -/
theorem start_nested (js : Bytes) : WellNested js 0 [] :=
  ⟨Nat.zero_le _, by simp, by simp, List.Pairwise.nil⟩

theorem start_small : State.Small ⟨0, [], none⟩ :=
  ⟨Nat.le_refl _, by simp⟩

/-- No number overflows in one call. -/
theorem tokenize_fitsInt {js : Bytes} (hint : js.length < 2 ^ 31) (cap : ℕ) (junk : List Token) :
    ((tokenize js cap ⟨0, [], none⟩).2.parser junk).FitsInt :=
  State.fitsInt hint (tokenize_valid start_valid) (tokenize_small cap start_small)
    (tokenize_nested cap (start_nested js)) junk

/-- **Memory safety and nesting, over whole sessions**: after any calls with any texts, in
which the array keeps its tokens and only grows, a further call ends and stays within the text
and the array, and no number overflows as long as an `int` can index the text. It leaves the
array behind the tokens as the caller gave it, and the tokens are pieces of the text in the
order in which they begin, nested in each other. A count it returns is the number of tokens,
all of which have ended. -/
theorem session_nested (calls : List (Bytes × List Token)) (call : Bytes × List Token)
    (hint : (textOf (calls ++ [call])).length < 2 ^ 31) :
    ∃ results st result st' toks, session.run Session.start calls = .ok (results, st) ∧
      session.step st call = .ok (result, st') ∧ st'.js = textOf (calls ++ [call]) ∧
      st'.parser.toknext = toks.length ∧ toks.length ≤ (arrayOf (calls ++ [call])).length ∧
      st'.parser.tokens = some (toks ++ (arrayOf (calls ++ [call])).drop toks.length) ∧
      st'.parser.FitsInt ∧ WellNested st'.js st'.parser.pos (toks.map Token.span) ∧
      ∀ count, result = .ok count → count = toks.length ∧ ∀ token ∈ toks, token.stop ≠ -1 := by
  have hmore : ∀ done call (s : State), WellNested (textOf done) s.pos (s.toks.map Token.span) →
      WellNested (textOf (done ++ [call])) s.pos (s.toks.map Token.span) := by
    intro done call s h
    have htext : textOf (done ++ [call]) = textOf done ++ call.1 := by simp [textOf]
    exact htext ▸ h.append call.1
  obtain ⟨results, st, s, hrun, hat, hnested, hsmall⟩ := session_run
    (P := fun done s => WellNested (textOf done) s.pos (s.toks.map Token.span) ∧ s.Small)
    ⟨start_nested _, start_small⟩
    (fun done call s h => ⟨tokenize_nested _ (hmore done call s h.1), tokenize_small _ h.2⟩) calls
  obtain ⟨st', hst', hv, hle, rfl⟩ := session_step hat call
  have hafter := tokenize_nested (arrayOf (calls ++ [call])).length (hmore calls call s hnested)
  refine ⟨results, st, _, _, _, hrun, hst', rfl, rfl, hle, rfl,
    State.fitsInt hint hv (tokenize_small _ hsmall) hafter _, hafter, ?_⟩
  intro count hcount
  obtain ⟨rfl, hnone⟩ := tokenize_ok hcount
  refine ⟨rfl, fun token htoken => ?_⟩
  have hstart := (hafter.piece token.span (List.mem_map_of_mem htoken)).start_nonneg
  have hne : token.start ≠ -1 := by
    simp only [Token.span] at hstart
    omega
  simpa [Token.isOpen, hne] using lastIdx_eq_none_iff.mp hnone token htoken

/-- An array with a number in it: first the opening bracket and the number with room for two
tokens, then the closing bracket with no further room. -/
theorem session_nested_array :
    ∃ results st result st' toks,
      session.run Session.start [([91, 49, 32], List.replicate 2 ⟨.undefined, 0, 0, 0⟩)] =
        .ok (results, st) ∧
      session.step st ([93], []) = .ok (result, st') ∧ st'.js = [91, 49, 32, 93] ∧
      st'.parser.toknext = toks.length ∧ toks.length ≤ 2 ∧
      st'.parser.tokens =
        some (toks ++ (List.replicate 2 ⟨.undefined, 0, 0, 0⟩).drop toks.length) ∧
      st'.parser.FitsInt ∧ WellNested st'.js st'.parser.pos (toks.map Token.span) ∧
      ∀ count, result = .ok count → count = toks.length ∧ ∀ token ∈ toks, token.stop ≠ -1 :=
  session_nested [([91, 49, 32], List.replicate 2 ⟨.undefined, 0, 0, 0⟩)] ([93], []) (by decide)

end Wgi.Jsmn
