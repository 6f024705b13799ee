import Wgi.JsmnTokens

/-!
# Calling the Tokenizer Again

A caller that does not know how many tokens it needs can count them in a first call without an
array, or begin with a small array and call again with a larger one. A caller that reads its
text piece by piece can call again with more of it. In all these cases the result is that of
one call with enough of everything, with two exceptions: a primitive that the end of a piece
cuts in two is two tokens, and the call that counts does not look at the brackets.

## Main results

* `tokenize_resume`, `session_eq_parse`: calls one after another are one call.
* `tokenize_nesting`, `count_agrees`: what a call with an array returns, from what the call
  that counts returns, the brackets of the text and the length of the array.
-/

namespace Wgi.Jsmn

open LastIndex

/-! ### More text and more room -/

/-- From a position on, the lexemes of a text go up to a primitive that touches its end. -/
inductive EndsInPrimitive (js : Bytes) : ℕ → Prop where
  | here {pos len : ℕ} (hlex : lex (js.drop pos) = .ok (.leaf .primitive 0 len))
      (hend : pos + len = js.length) : EndsInPrimitive js pos
  | later {pos : ℕ} {lx : Lexeme} (hlex : lex (js.drop pos) = .ok lx)
      (h : EndsInPrimitive js (pos + lx.width)) : EndsInPrimitive js pos

/-- A cut of a text, with the lexemes from a position on, that no primitive goes across. -/
def CleanCutFrom (js more : Bytes) (pos : ℕ) : Prop :=
  Delimited more ∨ ¬ EndsInPrimitive js pos

/-- A cut of a text that no primitive goes across. It may stand anywhere else: between two
lexemes and also inside a string. -/
def CleanCut (js more : Bytes) : Prop :=
  CleanCutFrom js more 0

/-- **A lexeme stays the same** when the text goes on behind a clean cut. -/
theorem lex_append {js more : Bytes} {pos : ℕ} {lx : Lexeme} (hcut : CleanCutFrom js more pos)
    (h : lex (js.drop pos) = .ok lx) : lex ((js ++ more).drop pos) = .ok lx := by
  have hle : pos ≤ js.length := by
    by_contra hgt
    rw [List.drop_eq_nil_of_le (by omega)] at h
    simp [lex] at h
  rw [List.drop_append_of_le_length hle]
  have hlexes := lex_sound h
  generalize hrest : js.drop pos = rest at hlexes
  refine lex_complete ?_
  cases hlexes with
  | openObject cs => exact .openObject (cs ++ more)
  | openArray cs => exact .openArray (cs ++ more)
  | closeObject cs => exact .closeObject (cs ++ more)
  | closeArray cs => exact .closeArray (cs ++ more)
  | colon cs => exact .colon (cs ++ more)
  | comma cs => exact .comma (cs ++ more)
  | space hspace cs => exact .space hspace (cs ++ more)
  | string hspan =>
      obtain ⟨body, tail, rfl, rfl, hall⟩ := stringSpan_split hspan
      rw [List.cons_append, List.append_assoc]
      exact .string (hall (tail ++ more))
  | primitive hc hspan hlen =>
      obtain ⟨text, tail, hsplit, rfl, hchars, htail⟩ := primitiveSpan_split hspan
      -- what follows the primitive still delimits it
      have hdel : Delimited (tail ++ more) := by
        cases tail with
        | cons c tail => exact htail
        | nil =>
            refine hcut.resolve_right fun hclean => hclean (.here h ?_)
            have hlength := congrArg List.length (hrest.trans hsplit)
            rw [List.length_drop, List.append_nil] at hlength
            omega
      rw [List.cons_append]
      refine .primitive hc ?_ hlen
      rw [← List.cons_append, hsplit, List.append_assoc]
      exact primitiveSpan_append hchars hdel

/-- A clean cut is clean from the next lexeme on. -/
theorem CleanCutFrom.next {js more : Bytes} {pos : ℕ} {lx : Lexeme}
    (h : CleanCutFrom js more pos) (hlex : lex (js.drop pos) = .ok lx) :
    CleanCutFrom js more (pos + lx.width) :=
  h.imp_right fun hclean hends => hclean (.later hlex hends)

/-- More room changes no step that there was room for. -/
theorem State.advance_mono {cap cap' : ℕ} {s s' : State} {lx : Lexeme} (hcap : cap ≤ cap')
    (h : s.advance cap lx = .ok s') : s.advance cap' lx = .ok s' := by
  cases lx with
  | opening | leaf =>
      simp only [State.advance] at h ⊢
      split_ifs at h with hfull
      rw [if_neg (by omega)]
      exact h
  | closing | space | colon | comma => exact h

/-- **Resuming**: a call that goes on where an earlier call stopped, with more text behind a
clean cut or more room or both, does what it would have done from the beginning. -/
theorem tokenize_resume {js more : Bytes} {cap cap' : ℕ} (hcap : cap ≤ cap') (s : State)
    (hcut : CleanCutFrom js more s.pos) :
    tokenize (js ++ more) cap' (tokenize js cap s).2 = tokenize (js ++ more) cap' s := by
  induction s using tokenize.induct js cap with
  | case1 s hlex => rw [tokenize_of_end hlex]
  | case2 s err hlex => rw [tokenize_of_bad hlex]
  | case3 s lx hlex err hadv => rw [tokenize_of_error hlex hadv]
  | case4 s lx hlex s' hadv ih =>
      have hnext : CleanCutFrom js more s'.pos :=
        (State.advance_pos hadv).1 ▸ hcut.next hlex
      rw [tokenize_of_ok hlex hadv, ih hnext,
        tokenize_of_ok (lex_append hcut hlex) (State.advance_mono hcap hadv)]

/-- The calls of a session add text behind clean cuts only. -/
def CleanCuts (calls : List (Bytes × List Token)) : Prop :=
  ∀ done call rest, calls = done ++ call :: rest → CleanCut (textOf done) call.1

/-- **A session is one call**: after any calls, a further call returns what one call with all
of the text and all of the array returns, and leaves the parser and the tokens as that call
leaves them; no number overflows as long as an `int` can index the text. -/
theorem session_eq_parse (calls : List (Bytes × List Token)) (call : Bytes × List Token)
    (hclean : CleanCuts (calls ++ [call]))
    (hint : (textOf (calls ++ [call])).length < 2 ^ 31) :
    ∃ results st result st', session.run Session.start calls = .ok (results, st) ∧
      session.step st call = .ok (result, st') ∧ st'.parser.FitsInt ∧
      parse (textOf (calls ++ [call])) (arrayOf (calls ++ [call])).length
        (init (some (arrayOf (calls ++ [call])))) = .ok (result, st'.parser) := by
  have hresume : ∀ done call, CleanCut (textOf done) call.1 →
      tokenize (textOf (done ++ [call])) (arrayOf (done ++ [call])).length
        (tokenize (textOf done) (arrayOf done).length ⟨0, [], none⟩).2 =
      tokenize (textOf (done ++ [call])) (arrayOf (done ++ [call])).length ⟨0, [], none⟩ := by
    intro done call hcut
    have htext : textOf (done ++ [call]) = textOf done ++ call.1 := by simp [textOf]
    rw [htext]
    exact tokenize_resume (by simp [arrayOf]) _ hcut
  have hstep : ∀ done call s,
      (CleanCuts done → s = (tokenize (textOf done) (arrayOf done).length ⟨0, [], none⟩).2) →
      CleanCuts (done ++ [call]) →
      (tokenize (textOf (done ++ [call])) (arrayOf (done ++ [call])).length s).2 =
        (tokenize (textOf (done ++ [call])) (arrayOf (done ++ [call])).length ⟨0, [], none⟩).2 := by
    intro done call s hs hdone
    have hearlier : CleanCuts done := by
      intro before call' rest hsplit
      exact hdone before call' (rest ++ [call]) (by simp [hsplit])
    rw [hs hearlier, hresume done call (hdone done call [] rfl)]
  obtain ⟨results, st, s, hrun, hat, hs⟩ := session_run
    (P := fun done s => CleanCuts done →
      s = (tokenize (textOf done) (arrayOf done).length ⟨0, [], none⟩).2)
    (fun _ => by rw [tokenize_of_end rfl]) hstep calls
  have hcalls : CleanCuts calls := by
    intro done call' rest hsplit
    exact hclean done call' (rest ++ [call]) (by simp [hsplit])
  obtain ⟨st', hst', -, -, rfl⟩ := session_step hat call
  rw [hs hcalls, hresume calls call (hclean calls call [] rfl)] at hst'
  refine ⟨results, st, _, _, hrun, hst', tokenize_fitsInt hint _ _, ?_⟩
  exact parse_array (s := ⟨0, [], none⟩) start_valid _ (Nat.zero_le _)

/-- An object in four pieces, cut behind its bracket, inside its key and before its colon,
with room for one token at first. -/
theorem session_eq_parse_object :
    ∃ results st result st',
      session.run Session.start [([123], [⟨.undefined, 0, 0, 0⟩]), ([34, 97], []),
        ([34], [⟨.undefined, 0, 0, 0⟩, ⟨.undefined, 0, 0, 0⟩])] = .ok (results, st) ∧
      session.step st ([58, 49, 125], []) = .ok (result, st') ∧ st'.parser.FitsInt ∧
      parse [123, 34, 97, 34, 58, 49, 125] 3
        (init (some (List.replicate 3 ⟨.undefined, 0, 0, 0⟩))) = .ok (result, st'.parser) := by
  -- behind the bracket there is nothing, an open string or a whole one, and no primitive
  have hbracket : ∀ cs, ¬ EndsInPrimitive (123 :: cs) 1 → ¬ EndsInPrimitive (123 :: cs) 0 := by
    intro cs hcs h
    cases h with
    | here hlex => simp [lex] at hlex
    | later hlex h =>
        cases hlex
        exact hcs h
  have hclean : CleanCuts [([123], [⟨.undefined, 0, 0, 0⟩]), ([34, 97], []),
      ([34], [⟨.undefined, 0, 0, 0⟩, ⟨.undefined, 0, 0, 0⟩]), ([58, 49, 125], [])] := by
    intro done call rest hsplit
    rcases done with - | ⟨first, - | ⟨second, - | ⟨third, - | ⟨fourth, done⟩⟩⟩⟩
    · refine Or.inr fun h => ?_
      cases h with
      | here hlex | later hlex => simp [textOf, lex] at hlex
    · cases hsplit
      refine Or.inr (hbracket [] fun h => ?_)
      cases h with
      | here hlex | later hlex => simp [lex] at hlex
    · cases hsplit
      refine Or.inr (hbracket [34, 97] fun h => ?_)
      cases h with
      | here hlex | later hlex => simp [lex, stringSpan, Except.map] at hlex
    · cases hsplit
      exact Or.inl (Or.inr rfl)
    · simp at hsplit
  exact session_eq_parse [([123], [⟨.undefined, 0, 0, 0⟩]), ([34, 97], []),
    ([34], [⟨.undefined, 0, 0, 0⟩, ⟨.undefined, 0, 0, 0⟩])] ([58, 49, 125], []) hclean (by decide)

/-! ### Counting first -/

/-- The containers that are open behind a lexeme, the last one first. There are none when the
lexeme closes a container that was not the last one opened. -/
def nest : Lexeme → List TokType → Option (List TokType)
  | .opening type, opened => some (type :: opened)
  | .closing type, opened => if opened.head? = some type then some opened.tail else none
  | _, opened => some opened

/-- The brackets of a text from a position on: the containers that are open where the text
ends or has an error, unless a bracket closes the wrong one before, and the number of tokens
up to there. -/
def nesting (js : Bytes) (pos : ℕ) (opened : List TokType) : Option (List TokType) × ℕ :=
  match _hlex : lex (js.drop pos) with
  | .error _ => (some opened, 0)
  | .ok lx =>
      match nest lx opened with
      | none => (none, 0)
      | some opened =>
          ((nesting js (pos + lx.width) opened).1,
            (nesting js (pos + lx.width) opened).2 + lx.weight)
  termination_by js.length - pos
  decreasing_by
    all_goals
      have hwidth := lex_width _hlex
      rw [List.length_drop] at hwidth
      omega

/-- What a call with an array adds to the result of the call that counts: the brackets. -/
def bracketVerdict : Option (List TokType) → Except Err ℕ → Except Err ℕ
  | none, _ => .error .inval
  | some [], counted => counted
  | some (_ :: _), .error err => .error err
  | some (_ :: _), .ok _ => .error .part

/-- The types of the open tokens, the last one first. -/
def openTypes (toks : List Token) : List TokType :=
  ((toks.filter Token.isOpen).map Token.type).reverse

section Nesting

variable {js : Bytes} {pos : ℕ} {opened opened' : List TokType} {lx : Lexeme}

theorem nesting_of_error {stop : Option Err} (h : lex (js.drop pos) = .error stop) :
    nesting js pos opened = (some opened, 0) := by
  rw [nesting, h]

theorem nesting_of_none (h : lex (js.drop pos) = .ok lx) (hnest : nest lx opened = none) :
    nesting js pos opened = (none, 0) := by
  rw [nesting, h]
  dsimp only
  rw [hnest]

theorem nesting_of_some (h : lex (js.drop pos) = .ok lx) (hnest : nest lx opened = some opened') :
    nesting js pos opened = ((nesting js (pos + lx.width) opened').1,
      (nesting js (pos + lx.width) opened').2 + lx.weight) := by
  rw [nesting, h]
  dsimp only
  rw [hnest]

theorem countFrom_of_end (h : lex (js.drop pos) = .error none) : countFrom js pos = .ok 0 := by
  rw [countFrom, h]

theorem countFrom_of_bad {err : Err} (h : lex (js.drop pos) = .error (some err)) :
    countFrom js pos = .error err := by
  rw [countFrom, h]

theorem countFrom_of_ok (h : lex (js.drop pos) = .ok lx) :
    countFrom js pos = (countFrom js (pos + lx.width)).map (· + lx.weight) := by
  rw [countFrom, h]

/-- The tokens up to a bracket that closes the wrong container are tokens of the text, and all
of them if there is no such bracket. -/
theorem nesting_count (js : Bytes) (pos : ℕ) (opened : List TokType) :
    ∀ n, countFrom js pos = .ok n → (nesting js pos opened).2 ≤ n ∧
      ((nesting js pos opened).1 ≠ none → (nesting js pos opened).2 = n) := by
  induction pos, opened using nesting.induct js with
  | case1 pos opened stop hlex =>
      intro n hn
      rw [nesting_of_error hlex]
      cases stop with
      | some err => simp [countFrom_of_bad hlex] at hn
      | none =>
          rw [countFrom_of_end hlex, Except.ok.injEq] at hn
          exact ⟨Nat.zero_le n, fun _ => hn⟩
  | case2 pos opened lx hlex hnest =>
      intro n _
      rw [nesting_of_none hlex hnest]
      exact ⟨Nat.zero_le n, fun h => absurd rfl h⟩
  | case3 pos opened lx hlex opened' hnest ih =>
      intro n hn
      rw [countFrom_of_ok hlex] at hn
      rw [nesting_of_some hlex hnest]
      cases hrest : countFrom js (pos + lx.width) with
      | error err => simp [hrest, Except.map] at hn
      | ok m =>
          simp only [hrest, Except.map, Except.ok.injEq] at hn
          obtain ⟨hle, heq⟩ := ih m hrest
          refine ⟨by dsimp only; omega, fun hne => ?_⟩
          have := heq hne
          dsimp only
          omega

/-- A lexeme makes one token at most. -/
theorem Lexeme.weight_le_width {rest : Bytes} (h : lex rest = .ok lx) : lx.weight ≤ lx.width := by
  have hwidth := (lex_width h).1
  have hweight : lx.weight ≤ 1 := by cases lx <;> simp [Lexeme.weight]
  omega

theorem countFrom_le (js : Bytes) (pos : ℕ) :
    ∀ n, countFrom js pos = .ok n → n ≤ js.length - pos := by
  induction pos using countFrom.induct js with
  | case1 pos hlex =>
      intro n hn
      rw [countFrom_of_end hlex, Except.ok.injEq] at hn
      omega
  | case2 pos err hlex =>
      intro n hn
      simp [countFrom_of_bad hlex] at hn
  | case3 pos lx hlex ih =>
      intro n hn
      have hwithin := (lex_width hlex).2
      have hweight := Lexeme.weight_le_width hlex
      rw [List.length_drop] at hwithin
      rw [countFrom_of_ok hlex] at hn
      cases hrest : countFrom js (pos + lx.width) with
      | error err => simp [hrest, Except.map] at hn
      | ok m =>
          simp only [hrest, Except.map, Except.ok.injEq] at hn
          have := ih m hrest
          omega

/-- Every token has a character of its own. -/
theorem nesting_le (js : Bytes) (pos : ℕ) (opened : List TokType) :
    (nesting js pos opened).2 ≤ js.length - pos := by
  induction pos, opened using nesting.induct js with
  | case1 pos opened stop hlex =>
      rw [nesting_of_error hlex]
      exact Nat.zero_le _
  | case2 pos opened lx hlex hnest =>
      rw [nesting_of_none hlex hnest]
      exact Nat.zero_le _
  | case3 pos opened lx hlex opened' hnest ih =>
      have hwithin := (lex_width hlex).2
      have hweight := Lexeme.weight_le_width hlex
      rw [List.length_drop] at hwithin
      rw [nesting_of_some hlex hnest]
      dsimp only
      omega

/-- The open tokens are seen in the pieces of the tokens. -/
theorem openTypes_eq_of_span {toks toks' : List Token}
    (h : toks.map Token.span = toks'.map Token.span) : openTypes toks = openTypes toks' := by
  have hspan : ∀ toks : List Token, openTypes toks =
      (((toks.map Token.span).filter fun a => a.start != -1 && a.stop == -1).map
        Span.type).reverse := by
    intro toks
    rw [openTypes, List.filter_map, List.map_map]
    rfl
  rw [hspan, hspan, h]

theorem openTypes_append (toks : List Token) (token : Token) :
    openTypes (toks ++ [token]) =
      if token.isOpen then token.type :: openTypes toks else openTypes toks := by
  cases h : token.isOpen <;> simp [openTypes, List.filter_append, h]

theorem openTypes_eq_nil_iff {toks : List Token} :
    openTypes toks = [] ↔ lastIdx Token.isOpen toks = none := by
  simp [openTypes, lastIdx_eq_none_iff]

/-- What the last open token is to the tokens around it. -/
theorem openTypes_middle {l₁ l₂ : List Token} (hrest : lastIdx Token.isOpen l₂ = none)
    (token : Token) : openTypes (l₁ ++ token :: l₂) =
      if token.isOpen then token.type :: openTypes l₁ else openTypes l₁ := by
  have hfilter : l₂.filter Token.isOpen = [] := by
    rw [List.filter_eq_nil_iff]
    intro a ha
    simp [lastIdx_eq_none_iff.mp hrest a ha]
  cases h : token.isOpen <;> simp [openTypes, List.filter_append, h, hfilter]

/-- A lexeme that makes a token needs room. -/
theorem State.advance_full {cap : ℕ} {s : State} (hfull : cap ≤ s.toks.length)
    (hweight : lx.weight ≠ 0) (opened : List TokType) :
    s.advance cap lx = .error .nomem ∧ ∃ opened', nest lx opened = some opened' := by
  cases lx with
  | opening type => exact ⟨if_pos hfull, _, rfl⟩
  | leaf type quote len => exact ⟨if_pos hfull, _, rfl⟩
  | closing | space | colon | comma => exact absurd rfl hweight

/-- **One lexeme with room for it** is refused exactly if it closes the wrong container, and
opens and closes its container otherwise. -/
theorem State.advance_nest {cap : ℕ} {s : State}
    (hroom : lx.weight = 0 ∨ s.toks.length < cap) :
    (nest lx (openTypes s.toks) = none ∧ s.advance cap lx = .error .inval) ∨
      ∃ s', nest lx (openTypes s.toks) = some (openTypes s'.toks) ∧
        s.advance cap lx = .ok s' := by
  cases lx with
  | opening type =>
      have hlt : ¬ cap ≤ s.toks.length := by simpa [Lexeme.weight] using hroom
      refine Or.inr ⟨_, ?_, if_neg hlt⟩
      rw [openTypes_append, openTypes_eq_of_span (bump_map_span s.super s.toks)]
      have hne : (s.pos : ℤ) ≠ -1 := by omega
      simp [nest, Token.isOpen, hne]
  | closing type =>
      cases hlast : lastIdx Token.isOpen s.toks with
      | none =>
          have hnil := openTypes_eq_nil_iff.mpr hlast
          exact Or.inl ⟨by simp [nest, hnil], by simp [State.advance, hlast]⟩
      | some i =>
          obtain ⟨l₁, token, l₂, hsplit, -, hopen, hrest⟩ := lastIdx_split hlast
          rw [State.advance_closing hsplit hopen hrest, hsplit, openTypes_middle hrest,
            if_pos hopen, nest, List.head?_cons, List.tail_cons]
          by_cases htype : token.type = type
          · rw [if_pos htype, if_pos (congrArg some htype)]
            refine Or.inr ⟨_, ?_, rfl⟩
            rw [openTypes_middle hrest,
              Token.not_isOpen_of_stop (n := s.pos + 1) (by push_cast; rfl)]
            rfl
          · rw [if_neg htype, if_neg (fun h => htype (Option.some.inj h))]
            exact Or.inl ⟨rfl, rfl⟩
  | leaf type quote len =>
      have hlt : ¬ cap ≤ s.toks.length := by simpa [Lexeme.weight] using hroom
      refine Or.inr ⟨_, ?_, if_neg hlt⟩
      rw [openTypes_append, openTypes_eq_of_span (bump_map_span s.super s.toks),
        Token.not_isOpen_of_stop (n := s.pos + quote + len) (by push_cast; rfl)]
      rfl
  | space => exact Or.inr ⟨{ s with pos := s.pos + 1 }, rfl, rfl⟩
  | colon => exact Or.inr ⟨⟨s.pos + 1, s.toks, _⟩, rfl, rfl⟩
  | comma => exact Or.inr ⟨⟨s.pos + 1, s.toks, _⟩, rfl, rfl⟩

end Nesting

/-- The result of a call with an array: the room, the brackets and the count decide. -/
def resultWith (cap : ℕ) (brackets : Option (List TokType) × ℕ) (made : ℕ)
    (counted : Except Err ℕ) : Except Err ℕ :=
  if made + brackets.2 ≤ cap then bracketVerdict brackets.1 counted else .error .nomem

/-- A call that stops without another token. -/
theorem resultWith_zero {cap made : ℕ} (hle : made ≤ cap) (verdict : Option (List TokType))
    (counted : Except Err ℕ) :
    resultWith cap (verdict, 0) made counted = bracketVerdict verdict counted :=
  if_pos hle

/-- A call that goes on behind a lexeme. -/
theorem resultWith_weight {cap made needed weight : ℕ} (verdict : Option (List TokType))
    (counted : Except Err ℕ) :
    resultWith cap (verdict, needed + weight) made
        ((counted.map (· + weight)).map (made + ·)) =
      resultWith cap (verdict, needed) (made + weight) (counted.map (made + weight + ·)) := by
  have hcounted : (counted.map (· + weight)).map (made + ·) =
      counted.map (made + weight + ·) := by
    cases counted with
    | error err => rfl
    | ok n =>
        simp only [Except.map, Except.ok.injEq]
        omega
  rw [resultWith, resultWith, hcounted, Nat.add_assoc, Nat.add_comm weight]

/-- **A call with an array** makes the tokens up to the first bracket that closes the wrong
container, as long as there is room. -/
theorem tokenize_nesting (js : Bytes) {cap : ℕ} {s : State} (hle : s.toks.length ≤ cap) :
    (tokenize js cap s).1 = resultWith cap (nesting js s.pos (openTypes s.toks)) s.toks.length
        ((countFrom js s.pos).map (s.toks.length + ·)) ∧
      (tokenize js cap s).2.toks.length =
        min (s.toks.length + (nesting js s.pos (openTypes s.toks)).2) cap := by
  induction s using tokenize.induct js cap with
  | case1 s hlex =>
      rw [tokenize_of_end hlex, nesting_of_error hlex, countFrom_of_end hlex]
      refine ⟨?_, by dsimp only; omega⟩
      rw [resultWith_zero hle, State.verdict]
      simp only [← openTypes_eq_nil_iff]
      cases openTypes s.toks with
      | nil => rfl
      | cons type opened => simp [bracketVerdict, Except.map]
  | case2 s err hlex =>
      rw [tokenize_of_bad hlex, nesting_of_error hlex, countFrom_of_bad hlex]
      refine ⟨?_, by dsimp only; omega⟩
      rw [resultWith_zero hle]
      cases openTypes s.toks <;> rfl
  | case3 s lx hlex err hadv =>
      rw [tokenize_of_error hlex hadv]
      by_cases hroom : lx.weight = 0 ∨ s.toks.length < cap
      · -- a bracket that closes the wrong container
        rcases State.advance_nest hroom with ⟨hnest, hinval⟩ | ⟨s', -, hok⟩
        · rw [hadv, Except.error.injEq] at hinval
          subst hinval
          rw [nesting_of_none hlex hnest]
          exact ⟨(resultWith_zero hle none _).symm, by dsimp only; omega⟩
        · simp [hadv] at hok
      · -- no room for the token
        rw [not_or, Nat.not_lt] at hroom
        obtain ⟨hnomem, opened', hnest⟩ :=
          State.advance_full hroom.2 hroom.1 (openTypes s.toks)
        rw [hadv, Except.error.injEq] at hnomem
        subst hnomem
        rw [nesting_of_some hlex hnest]
        have hpos := Nat.pos_of_ne_zero hroom.1
        exact ⟨by rw [resultWith, if_neg (by dsimp only; omega)], by dsimp only; omega⟩
  | case4 s lx hlex s' hadv ih =>
      obtain ⟨hpos, hlen⟩ := State.advance_pos hadv
      by_cases hroom : lx.weight = 0 ∨ s.toks.length < cap
      · rcases State.advance_nest hroom with ⟨-, hinval⟩ | ⟨s'', hnest, hok⟩
        · simp [hadv] at hinval
        rw [hadv, Except.ok.injEq] at hok
        subst hok
        have hweight : lx.weight ≤ 1 := by cases lx <;> simp [Lexeme.weight]
        obtain ⟨hresult, hcount⟩ := ih (by omega)
        rw [tokenize_of_ok hlex hadv, hresult, hcount, nesting_of_some hlex hnest,
          countFrom_of_ok hlex, hpos, hlen]
        exact ⟨(resultWith_weight _ _).symm, by dsimp only; congr 1; omega⟩
      · rw [not_or, Nat.not_lt] at hroom
        have hnomem := (State.advance_full hroom.2 hroom.1 []).1
        simp [hadv] at hnomem

/-- **Counting first**: the call without an array returns a count or an error. A call with an
array needs a number of tokens, the same for every array. If it has them it returns what the
call without an array returned, unless the brackets do not match: `INVAL` for a bracket that
closes the wrong container and `PART` for a container that is not closed. If it does not have
them it fills its array and returns `NOMEM`. The number of tokens it needs is the count, unless
a bracket closes the wrong container or the text has an error. -/
theorem count_agrees (js : Bytes) (hint : js.length < 2 ^ 31) :
    ∃ counted parser, parse js 0 (init none) = .ok (counted, parser) ∧
      (∀ n, counted = .ok n → FitsInt n ∧ (nesting js 0 []).2 ≤ n ∧
        ((nesting js 0 []).1 ≠ none → (nesting js 0 []).2 = n)) ∧
      (nesting js 0 []).2 ≤ js.length ∧
      ∀ array : List Token, ∃ parser', parser'.FitsInt ∧
        parse js array.length (init (some array)) =
          .ok (if (nesting js 0 []).2 ≤ array.length then
              bracketVerdict (nesting js 0 []).1 counted
            else .error .nomem, parser') ∧
        parser'.toknext = min (nesting js 0 []).2 array.length := by
  obtain ⟨parser, hcount⟩ := parse_count_eq js 0 0 0 (-1)
  have hzero : (countFrom js 0).map (fun n => n) = countFrom js 0 := by
    cases countFrom js 0 <;> rfl
  simp only [Nat.zero_add, hzero] at hcount
  refine ⟨_, parser, hcount, fun n hn => ⟨?_, nesting_count js 0 [] n hn⟩, nesting_le js 0 [],
    fun array => ?_⟩
  · have := countFrom_le js 0 n hn
    simp only [FitsInt]
    omega
  · have hparse := parse_array (s := ⟨0, [], none⟩) start_valid js (Nat.zero_le array.length)
    obtain ⟨hresult, hlen⟩ :=
      tokenize_nesting js (s := ⟨0, [], none⟩) (Nat.zero_le array.length)
    refine ⟨_, tokenize_fitsInt hint array.length
      (array.drop (tokenize js array.length ⟨0, [], none⟩).2.toks.length), ?_, ?_⟩
    · refine hparse.trans ?_
      rw [hresult]
      simp only [resultWith, openTypes, List.filter_nil, List.map_nil, List.reverse_nil,
        List.length_nil, Nat.zero_add, hzero]
    · simpa [State.parser, openTypes] using hlen

/-- An object with an array in it needs four tokens. -/
theorem count_agrees_object :
    ∃ parser, parse [123, 34, 97, 34, 58, 91, 49, 93, 125] 0 (init none) = .ok (.ok 4, parser) ∧
      ∀ array : List Token, ∃ parser', parser'.FitsInt ∧
        parse [123, 34, 97, 34, 58, 91, 49, 93, 125] array.length (init (some array)) =
          .ok (if 4 ≤ array.length then .ok 4 else .error .nomem, parser') ∧
        parser'.toknext = min 4 array.length := by
  have hnesting : nesting [123, 34, 97, 34, 58, 91, 49, 93, 125] 0 [] = (some [], 4) := by
    rw [@nesting_of_some _ _ _ _ (.opening .object) rfl rfl,
      @nesting_of_some _ _ _ _ (.leaf .string 1 1) rfl rfl,
      @nesting_of_some _ _ _ _ (.colon) rfl rfl,
      @nesting_of_some _ _ _ _ (.opening .array) rfl rfl,
      @nesting_of_some _ _ _ _ (.leaf .primitive 0 1) rfl rfl,
      @nesting_of_some _ _ _ _ (.closing .array) rfl rfl,
      @nesting_of_some _ _ _ _ (.closing .object) rfl rfl, @nesting_of_error _ _ _ none rfl]
    rfl
  have hfour : (parse [123, 34, 97, 34, 58, 91, 49, 93, 125] 0 (init none)).toOption.map
      Prod.fst = some (.ok 4) := by decide +kernel
  obtain ⟨counted, parser, hcount, -, -, harray⟩ :=
    count_agrees [123, 34, 97, 34, 58, 91, 49, 93, 125] (by decide)
  rw [hcount] at hfour
  obtain rfl := Option.some.inj hfour
  rw [hnesting] at harray
  exact ⟨parser, hcount, harray⟩

end Wgi.Jsmn
