import Wgi.JsmnSpec

/-!
# The Tokenizer Refines Its Specification

`Wgi.JsmnSpec` says what the tokenizer computes; here the code of `jsmn.h` is shown to compute
it. The tokens so far stand at the head of the array of the caller, and whatever the caller had
in the rest of it stays there.

## Main results

* `primitiveLoop_eq`, `stringLoop_eq`: the loops of the source are scans of the text that is
  left.
* `parse_eq`: a call of `jsmn_parse` with an array computes `tokenize`, makes no access outside
  of the text or of the array, ends, and leaves the rest of the array alone.
* `parse_count_eq`: a call without an array computes `countFrom`.
-/

namespace Wgi.Jsmn

open LastIndex

/-! ### The loops -/

/-- A character of the text is the head of what is left there. -/
theorem charAt_of_drop {js cs : Bytes} {pos : ℕ} {c : UInt8} (h : js.drop pos = c :: cs) :
    charAt js pos = .ok c ∧ pos < js.length ∧ js.drop (pos + 1) = cs := by
  have hlt : pos < js.length := by
    rcases Nat.lt_or_ge pos js.length with hlt | hge
    · exact hlt
    · rw [List.drop_eq_nil_of_le hge] at h
      exact absurd h (by simp)
  rw [List.drop_eq_getElem_cons hlt] at h
  obtain ⟨hc, hcs⟩ := List.cons.inj h
  refine ⟨?_, hlt, hcs⟩
  rw [charAt, List.getElem?_eq_getElem hlt, hc]

/-- Where nothing is left, the text has ended. -/
theorem not_lt_of_drop {js : Bytes} {pos : ℕ} (h : js.drop pos = []) : ¬ pos < js.length := by
  have hle := List.drop_eq_nil_iff.mp h
  omega

/-- **The primitive loop** stops where the scan of the text does. -/
theorem primitiveLoop_eq (js : Bytes) (pos : ℕ) :
    primitiveLoop js pos = .ok ((primitiveSpan (js.drop pos)).map (pos + ·)) := by
  refine Loop.exec_eq (f := fun pos => (primitiveSpan (js.drop pos)).map (pos + ·)) ?_ pos
  intro pos
  cases hrest : js.drop pos with
  | nil =>
      refine Or.inl ?_
      rw [primitiveStep, if_neg (not_lt_of_drop hrest)]
      rfl
  | cons c cs =>
      obtain ⟨hc, hlt, hcs⟩ := charAt_of_drop hrest
      rw [primitiveStep, if_pos hlt, hc]
      simp only [bind, Except.bind, pure, Except.pure, primitiveSpan]
      split_ifs with h0 hend hinval
      · exact Or.inl rfl
      · exact Or.inl rfl
      · exact Or.inl rfl
      · refine Or.inr ⟨pos + 1, rfl, by omega, ?_⟩
        rw [hcs]
        cases primitiveSpan cs with
        | error err => rfl
        | ok n =>
            simp only [Except.map, Except.ok.injEq]
            omega

/-- Two shifts of a scan are one. -/
theorem map_shift (x : Except Err ℕ) (m n : ℕ) :
    (x.map (· + m)).map (n + ·) = x.map (n + m + ·) := by
  cases x with
  | error err => rfl
  | ok k =>
      simp only [Except.map, Except.ok.injEq]
      omega

/-- **The loop over hexadecimal digits** is the part of the scan of a string that expects
digits. -/
theorem hexLoop_spec (js : Bytes) (left pos : ℕ) :
    (hexLoop js left pos = .ok (.error .inval) ∧
      stringSpan (.afterDigit left) (js.drop pos) = .error .inval) ∨
    ∃ n, hexLoop js left pos = .ok (.ok (pos + n)) ∧
      stringSpan (.afterDigit left) (js.drop pos) =
        (stringSpan .plain (js.drop (pos + n))).map (· + n) := by
  have hstay : ∀ x : Except Err ℕ, x = x.map (· + 0) := by
    intro x
    cases x <;> simp [Except.map]
  induction left generalizing pos with
  | zero => exact Or.inr ⟨0, rfl, hstay _⟩
  | succ left ih =>
      rw [hexLoop, Expect.afterDigit]
      cases hrest : js.drop pos with
      | nil =>
          rw [if_neg (not_lt_of_drop hrest)]
          refine Or.inr ⟨0, rfl, ?_⟩
          rw [Nat.add_zero, hrest]
          rfl
      | cons c cs =>
          obtain ⟨hc, hlt, hcs⟩ := charAt_of_drop hrest
          rw [if_pos hlt, hc]
          simp only [bind, Except.bind, pure, Except.pure, stringSpan]
          split_ifs with h0 hhex
          · refine Or.inr ⟨0, rfl, ?_⟩
            rw [Nat.add_zero, hrest, stringSpan, if_pos h0]
            rfl
          · rw [← hcs]
            rcases ih (pos + 1) with ⟨hloop, hspan⟩ | ⟨n, hloop, hspan⟩
            · exact Or.inl ⟨hloop, by rw [hspan]; rfl⟩
            · refine Or.inr ⟨n + 1, by rw [hloop, Nat.add_right_comm, Nat.add_assoc], ?_⟩
              rw [hspan, Nat.add_right_comm, Nat.add_assoc]
              cases stringSpan .plain (js.drop (pos + (n + 1))) with
              | error err => rfl
              | ok k =>
                  simp only [Except.map, Except.ok.injEq]
                  omega
          · exact Or.inl ⟨rfl, rfl⟩

/-- **The string loop** stops at the closing quote the scan of the text finds. -/
theorem stringLoop_eq (js : Bytes) (pos : ℕ) :
    stringLoop js pos = .ok ((stringSpan .plain (js.drop pos)).map (pos + ·)) := by
  refine Loop.exec_eq (f := fun pos => (stringSpan .plain (js.drop pos)).map (pos + ·)) ?_ pos
  intro pos
  cases hrest : js.drop pos with
  | nil =>
      refine Or.inl ?_
      rw [stringStep, if_neg (not_lt_of_drop hrest)]
      rfl
  | cons c cs =>
      obtain ⟨hc, hlt, hcs⟩ := charAt_of_drop hrest
      rw [stringStep, if_pos hlt, hc]
      simp only [bind, Except.bind, pure, Except.pure, stringSpan]
      by_cases h0 : c = 0
      · exact Or.inl (by rw [if_pos h0, if_pos h0]; rfl)
      rw [if_neg h0, if_neg h0]
      by_cases hquote : c = 34
      · exact Or.inl (by rw [if_pos hquote, if_pos hquote]; rfl)
      rw [if_neg hquote, if_neg hquote]
      by_cases hslash : c = 92
      · rw [if_pos hslash]
        cases cs with
        | nil =>
            -- a backslash at the end of the text is read as any other character
            rw [if_neg (fun h => not_lt_of_drop hcs h.2)]
            exact Or.inr ⟨pos + 1, rfl, by omega, by rw [hcs]; rfl⟩
        | cons e es =>
            obtain ⟨he, hlt', hes⟩ := charAt_of_drop hcs
            rw [if_pos ⟨hslash, hlt'⟩, he]
            simp only [stringSpan]
            split_ifs with hesc hu
            · refine Or.inr ⟨pos + 1 + 1, rfl, by omega, ?_⟩
              rw [hes, map_shift, map_shift]
            · rcases hexLoop_spec js 4 (pos + 1 + 1) with ⟨hloop, hspan⟩ | ⟨n, hloop, hspan⟩
              · rw [hes] at hspan
                refine Or.inl ?_
                rw [hloop, show stringSpan (.digit 3) es = .error .inval from hspan]
                rfl
              · rw [hes] at hspan
                have hpos : pos + 1 + 1 + n - 1 + 1 = pos + 1 + 1 + n := by omega
                refine Or.inr ⟨pos + 1 + 1 + n, by simp only [hloop, hpos], by omega, ?_⟩
                rw [show stringSpan (.digit 3) es = _ from hspan, map_shift, map_shift, map_shift]
            · exact Or.inl rfl
      · rw [if_neg hslash, if_neg (fun h => hslash h.1)]
        exact Or.inr ⟨pos + 1, rfl, by omega, by rw [hcs, map_shift]⟩

/-! ### The array of the source -/

/-- `toksuper`: `-1` for no parent. -/
def superIdx : Option ℕ → ℤ
  | none => -1
  | some i => i

/-- The parser of the source, with the tokens so far at the head of its array. -/
def State.parser (s : State) (junk : List Token) : Parser where
  pos := s.pos
  toknext := s.toks.length
  toksuper := superIdx s.super
  tokens := some (s.toks ++ junk)

/-- The parent is a token that exists. -/
def State.Valid (s : State) : Prop :=
  ∀ i, s.super = some i → i < s.toks.length

/-- **The backward scans** find the last token with a property. -/
theorem scanBack_eq {tokens : List Token} (p : Token → Bool) {n : ℕ} (h : n ≤ tokens.length) :
    scanBack tokens p n = .ok (lastIdx p (tokens.take n)) := by
  induction n with
  | zero => rfl
  | succ n ih =>
      have hn : n < tokens.length := h
      rw [scanBack, tokenAt, List.getElem?_eq_getElem hn, List.take_succ_eq_append_getElem hn,
        lastIdx_append]
      simp only [bind, Except.bind, pure, Except.pure]
      cases hp : p tokens[n] with
      | true =>
          have hlen : (tokens.take n).length = n := by
            rw [List.length_take]
            omega
          simp [lastIdx, hp, hlen]
      | false =>
          rw [ih (Nat.le_of_lt hn)]
          simp [lastIdx, hp]

/-- A scan of the tokens so far. -/
theorem scanBack_append (toks junk : List Token) (p : Token → Bool) :
    scanBack (toks ++ junk) p toks.length = .ok (lastIdx p toks) := by
  rw [scanBack_eq p (by rw [List.length_append]; omega), List.take_left']
  rfl

/-- The parent gets one more child. -/
theorem bumpSuper_eq {super : Option ℕ} {toks : List Token}
    (h : ∀ i, super = some i → i < toks.length) (junk : List Token) :
    bumpSuper (superIdx super) (toks ++ junk) = .ok (bump super toks ++ junk) := by
  cases super with
  | none => rfl
  | some i =>
      have hi : i < toks.length := h i rfl
      have hne : (superIdx (some i)) ≠ -1 := by
        simp only [superIdx]
        omega
      have hnat : (superIdx (some i)).toNat = i := by simp [superIdx]
      have hlen : i < (toks ++ junk).length := by
        rw [List.length_append]
        omega
      rw [bumpSuper, if_neg hne, hnat, tokenAt, List.getElem?_append_left hi,
        List.getElem?_eq_getElem hi]
      simp only [bind, Except.bind, setToken, if_pos hlen, bump, Except.ok.injEq]
      rw [List.set_append_left _ _ hi, List.modify_eq_set_getElem?, List.getElem?_eq_getElem hi]
      rfl

section Refinement

variable {js : Bytes} {cap : ℕ} {s : State} {junk : List Token}

/-- An allocation takes the next token of the array, if there is room. -/
theorem allocToken_eq (hcap : cap ≤ s.toks.length + junk.length) :
    allocToken (s.parser junk) (s.toks ++ junk) cap =
      if cap ≤ s.toks.length then .ok none
      else .ok (some (s.toks.length,
        { s.parser junk with toknext := s.toks.length + 1 },
        s.toks ++ { junk.headD ⟨.undefined, -1, -1, 0⟩ with start := -1, stop := -1, size := 0 } ::
          junk.drop 1)) := by
  rw [allocToken]
  simp only [State.parser, ge_iff_le]
  split_ifs with hfull
  · rfl
  · cases junk with
    | nil =>
        rw [List.length_nil] at hcap
        omega
    | cons j junk =>
        simp [tokenAt, setToken, bind, Except.bind, pure, Except.pure]

/-- **An opening bracket** with an array. -/
theorem openToken_eq (hv : s.Valid) (hcap : cap ≤ s.toks.length + junk.length) (type : TokType) :
    openToken (s.parser junk) (s.toks ++ junk) cap type = .ok
      (match s.advance cap (.opening type) with
      | .error err => (.error err, s.parser junk)
      | .ok s' => (.ok (), { s'.parser (junk.drop 1) with pos := s.pos })) := by
  rw [openToken, allocToken_eq hcap, State.advance]
  split_ifs with hfull
  · rfl
  · simp only [bind, Except.bind, State.parser, bumpSuper_eq hv]
    simp [tokenAt, setToken, pure, Except.pure, superIdx]

/-- A leaf with an array takes a token. -/
theorem addLeaf_eq (hcap : cap ≤ s.toks.length + junk.length) (type : TokType)
    (start stop next : ℕ) :
    addLeaf (s.parser junk) cap type start stop s.pos next = .ok
      (if cap ≤ s.toks.length then (.error .nomem, s.parser junk)
      else (.ok (),
        State.parser ⟨next, s.toks ++ [⟨type, start, stop, 0⟩], s.super⟩ (junk.drop 1))) := by
  have hsome : (s.parser junk).tokens = some (s.toks ++ junk) := rfl
  rw [addLeaf, hsome]
  simp only [allocToken_eq hcap, bind, Except.bind]
  split_ifs with hfull
  · rfl
  · simp [fillToken, setToken, State.parser, pure, Except.pure]

/-- A new token does not change what its parent is. -/
theorem bump_append {super : Option ℕ} {toks : List Token}
    (h : ∀ i, super = some i → i < toks.length) (more : List Token) :
    bump super (toks ++ more) = bump super toks ++ more := by
  cases super with
  | none => rfl
  | some i =>
      have hi : i < toks.length := h i rfl
      simp only [bump, List.modify_eq_set_getElem?, List.getElem?_append_left hi,
        List.getElem?_eq_getElem hi]
      exact List.set_append_left _ _ hi

/-- The parent of a leaf gets one more child. -/
theorem bumpLeaf_eq (hv : s.Valid) :
    bumpLeaf (s.parser junk) = .ok (State.parser { s with toks := bump s.super s.toks } junk) := by
  have hsome : (s.parser junk).tokens = some (s.toks ++ junk) := rfl
  rw [bumpLeaf, hsome]
  simp only [State.parser, bumpSuper_eq hv, bind, Except.bind, pure, Except.pure, bump_length]

/-- A closing bracket with an array. -/
theorem closeToken_eq (cap : ℕ) (type : TokType) :
    closeToken (s.parser junk) (s.toks ++ junk) type = .ok
      (match s.advance cap (.closing type) with
      | .error err => (.error err, s.parser junk)
      | .ok s' => (.ok (), { s'.parser junk with pos := s.pos })) := by
  have hscan : scanBack (s.toks ++ junk) Token.isOpen (s.parser junk).toknext = _ :=
    scanBack_append s.toks junk Token.isOpen
  rw [closeToken, hscan]
  cases hlast : lastIdx Token.isOpen s.toks with
  | none =>
      rw [State.advance, hlast]
      rfl
  | some i =>
      obtain ⟨l₁, token, l₂, hsplit, rfl, hopen, hrest⟩ := lastIdx_split hlast
      rw [State.advance_closing hsplit hopen hrest]
      have htoken : tokenAt (s.toks ++ junk) l₁.length = .ok token := by
        simp [tokenAt, hsplit]
      have hset : ∀ t, setToken (s.toks ++ junk) l₁.length t = .ok (l₁ ++ t :: (l₂ ++ junk)) := by
        intro t
        simp [setToken, hsplit]
      have hended : Token.isOpen { token with stop := (s.pos : ℤ) + 1 } = false :=
        Token.not_isOpen_of_stop (n := s.pos + 1) (by push_cast; rfl)
      have hback : scanBack (l₁ ++ { token with stop := (s.pos : ℤ) + 1 } :: (l₂ ++ junk))
          Token.isOpen (l₁.length + 1) = .ok (lastIdx Token.isOpen l₁) := by
        rw [scanBack_eq _ (by simp), List.take_length_add_append, lastIdx_append_of_none]
        simp [lastIdx, hended]
      simp only [htoken, hset, bind, Except.bind, ne_eq, ite_not]
      split_ifs with htype
      · rw [show (s.parser junk).pos = s.pos from rfl, hback]
        cases lastIdx Token.isOpen l₁ <;>
          simp [State.parser, hsplit, superIdx, pure, Except.pure]
      · rfl

/-- **A comma** with an array. -/
theorem commaToken_eq (hv : s.Valid) :
    commaToken (s.parser junk) (s.toks ++ junk) =
      .ok (State.parser { s with super := s.commaSuper } junk) := by
  have hscan := scanBack_append s.toks junk (fun token => token.isContainer && token.isOpen)
  rw [commaToken, State.commaSuper]
  cases hsuper : s.super with
  | none => simp [State.parser, hsuper, superIdx]
  | some i =>
      have hi : i < s.toks.length := hv i hsuper
      have hne : superIdx (some i) ≠ -1 := by
        simp only [superIdx]
        omega
      have hnat : (superIdx (some i)).toNat = i := by simp [superIdx]
      simp only [State.parser, hsuper, if_neg hne, tokenAt, hnat, List.getElem?_append_left hi,
        List.getElem?_eq_getElem hi, hscan, bind, Except.bind, Option.any_some, pure, Except.pure]
      split_ifs
      · rfl
      · cases lastIdx (fun token => token.isContainer && token.isOpen) s.toks <;> rfl

/-- A string with an array. -/
theorem parseString_eq (hcap : cap ≤ s.toks.length + junk.length) :
    parseString js cap (s.parser junk) = .ok
      (match stringSpan .plain (js.drop (s.pos + 1)) with
      | .error err => (.error err, s.parser junk)
      | .ok len =>
          if cap ≤ s.toks.length then (.error .nomem, s.parser junk)
          else (.ok (), State.parser ⟨s.pos + 1 + len,
            s.toks ++ [⟨.string, s.pos + 1, s.pos + 1 + len, 0⟩], s.super⟩ (junk.drop 1))) := by
  have hloop : stringLoop js ((s.parser junk).pos + 1) = _ := stringLoop_eq js (s.pos + 1)
  rw [parseString]
  simp only [hloop, bind, Except.bind]
  cases stringSpan .plain (js.drop (s.pos + 1)) with
  | error err => rfl
  | ok len =>
      refine (addLeaf_eq hcap .string (s.pos + 1) (s.pos + 1 + len) (s.pos + 1 + len)).trans ?_
      push_cast
      rfl

/-- A primitive with an array. -/
theorem parsePrimitive_eq (hcap : cap ≤ s.toks.length + junk.length) :
    parsePrimitive js cap (s.parser junk) = .ok
      (match primitiveSpan (js.drop s.pos) with
      | .error err => (.error err, s.parser junk)
      | .ok len =>
          if cap ≤ s.toks.length then (.error .nomem, s.parser junk)
          else (.ok (), State.parser ⟨s.pos + len - 1,
            s.toks ++ [⟨.primitive, s.pos, s.pos + len, 0⟩], s.super⟩ (junk.drop 1))) := by
  have hloop : primitiveLoop js (s.parser junk).pos = _ := primitiveLoop_eq js s.pos
  rw [parsePrimitive]
  simp only [hloop, bind, Except.bind]
  cases primitiveSpan (js.drop s.pos) with
  | error err => rfl
  | ok len =>
      refine (addLeaf_eq hcap .primitive s.pos (s.pos + len) (s.pos + len - 1)).trans ?_
      push_cast
      rfl

/-- The parent of a new leaf gets one more child. -/
theorem bumpLeaf_append (hv : s.Valid) (next : ℕ) (token : Token) :
    bumpLeaf (State.parser ⟨next, s.toks ++ [token], s.super⟩ junk) =
      .ok (State.parser ⟨next, bump s.super s.toks ++ [token], s.super⟩ junk) := by
  have hv' : State.Valid ⟨next, s.toks ++ [token], s.super⟩ := by
    intro i hi
    have := hv i hi
    rw [List.length_append]
    omega
  rw [bumpLeaf_eq hv']
  simp only [bump_append hv]

/-- **One character** of the loop of `jsmn_parse`: the lexeme that begins with it. -/
theorem parseChar_eq (hv : s.Valid) (hcap : cap ≤ s.toks.length + junk.length) {c : UInt8}
    {cs : Bytes} (hrest : js.drop s.pos = c :: cs) (h0 : c ≠ 0) :
    parseChar js cap (s.parser junk) c = .ok
      (match lex (c :: cs) with
      | .error none => (.ok 0, s.parser junk)
      | .error (some err) => (.error err, s.parser junk)
      | .ok lx =>
          match s.advance cap lx with
          | .error err => (.error err, s.parser junk)
          | .ok s' => (.ok lx.weight,
              { s'.parser (junk.drop lx.weight) with pos := s'.pos - 1 })) := by
  have hsome : (s.parser junk).tokens = some (s.toks ++ junk) := rfl
  rw [parseChar, lex, if_neg h0]
  by_cases hopen : c = 123 ∨ c = 91
  · rw [if_pos hopen, if_pos hopen, hsome]
    simp only [openToken_eq hv hcap, bind, Except.bind, State.advance]
    split_ifs <;> rfl
  rw [if_neg hopen, if_neg hopen]
  by_cases hclose : c = 125 ∨ c = 93
  · rw [if_pos hclose, if_pos hclose, hsome]
    simp only [closeToken_eq cap, bind, Except.bind]
    cases hadv : s.advance cap (.closing (if c = 125 then .object else .array)) with
    | error err => rfl
    | ok s' =>
        have hpos := (State.advance_pos hadv).1
        simp only [Lexeme.width] at hpos
        simp [Lexeme.weight, hpos, pure, Except.pure, Except.map]
  rw [if_neg hclose, if_neg hclose]
  by_cases hstr : c = 34
  · rw [if_pos hstr, if_pos hstr, parseString_eq hcap, (charAt_of_drop hrest).2.2]
    cases stringSpan .plain cs with
    | error err => rfl
    | ok len =>
        simp only [State.advance, bind, Except.bind]
        split_ifs
        · rfl
        · have hpos : s.pos + 1 + len = s.pos + (len + 2 * 1) - 1 := by omega
          simp only [bumpLeaf_append hv]
          simp [State.parser, Lexeme.weight, pure, Except.pure, hpos]
  rw [if_neg hstr, if_neg hstr]
  by_cases hspace : c = 9 ∨ c = 13 ∨ c = 10 ∨ c = 32
  · rw [if_pos hspace, if_pos hspace]
    rfl
  rw [if_neg hspace, if_neg hspace]
  by_cases hcolon : c = 58
  · rw [if_pos hcolon, if_pos hcolon]
    simp only [State.advance, State.parser]
    split_ifs with hnone
    · simp [hnone, superIdx, Lexeme.weight]
    · have hcast : ((s.toks.length - 1 : ℕ) : ℤ) = s.toks.length - 1 := by omega
      simp [superIdx, Lexeme.weight, hcast]
  rw [if_neg hcolon, if_neg hcolon]
  by_cases hcomma : c = 44
  · rw [if_pos hcomma, if_pos hcomma, hsome]
    simp only [commaToken_eq hv]
    rfl
  rw [if_neg hcomma, if_neg hcomma, parsePrimitive_eq hcap, hrest]
  cases primitiveSpan (c :: cs) with
  | error err => rfl
  | ok len =>
      simp only [State.advance, bind, Except.bind]
      split_ifs
      · rfl
      · simp only [bumpLeaf_append hv]
        simp [State.parser, Lexeme.weight, pure, Except.pure]

/-- The parent after a comma is a token. -/
theorem State.commaSuper_lt (hv : s.Valid) {i : ℕ} (h : s.commaSuper = some i) :
    i < s.toks.length := by
  rw [State.commaSuper] at h
  cases hsuper : s.super with
  | none => simp [hsuper] at h
  | some j =>
      simp only [hsuper] at h
      have hj := hv j hsuper
      split_ifs at h
      · exact Option.some.inj h ▸ hj
      · cases hlast : lastIdx (fun token => token.isContainer && token.isOpen) s.toks with
        | none =>
            rw [hlast, Option.none_or] at h
            exact Option.some.inj h ▸ hj
        | some k =>
            rw [hlast, Option.some_or] at h
            obtain ⟨l₁, token, l₂, hsplit, hk, -, -⟩ := lastIdx_split hlast
            have := Option.some.inj h
            rw [hsplit, List.length_append, List.length_cons]
            omega

/-- Every step leaves a parent that exists. -/
theorem State.advance_valid {s' : State} {lx : Lexeme} (hv : s.Valid)
    (h : s.advance cap lx = .ok s') : s'.Valid := by
  intro i hi
  have hlen := (State.advance_pos h).2
  cases lx with
  | opening type =>
      simp only [State.advance] at h
      split_ifs at h
      cases h
      cases hi
      simp
  | closing type =>
      simp only [State.advance] at h
      split at h
      · simp at h
      · split_ifs at h
        cases h
        obtain ⟨l₁, token, l₂, hsplit, rfl, -, -⟩ := lastIdx_split hi
        rw [hsplit, List.length_append, List.length_cons]
        omega
  | leaf type quote len =>
      simp only [State.advance] at h
      split_ifs at h
      cases h
      have := hv i hi
      simp only [List.length_append, bump_length]
      omega
  | space =>
      cases h
      exact hv i hi
  | colon =>
      cases h
      simp only [Option.ite_none_left_eq_some, Option.some.injEq] at hi
      simp only
      omega
  | comma =>
      cases h
      exact State.commaSuper_lt hv hi

/-- **One iteration** of the loop of `jsmn_parse` with an array. -/
theorem parseStep_eq (hv : s.Valid) (hcap : cap ≤ s.toks.length + junk.length) :
    parseStep js cap (s.parser junk, s.toks.length) = .ok
      (match lex (js.drop s.pos) with
      | .error none => .leave (s.verdict, s.parser junk)
      | .error (some err) => .leave (.error err, s.parser junk)
      | .ok lx =>
          match s.advance cap lx with
          | .error err => .leave (.error err, s.parser junk)
          | .ok s' => .again (s'.parser (junk.drop lx.weight), s'.toks.length)) := by
  have hfinish : finish (s.parser junk) s.toks.length = .ok s.verdict := by
    have hscan : scanBack (s.toks ++ junk) Token.isOpen (s.parser junk).toknext = _ :=
      scanBack_append s.toks junk Token.isOpen
    simp only [finish, State.parser] at hscan ⊢
    rw [hscan, State.verdict]
    simp only [bind, Except.bind]
    cases lastIdx Token.isOpen s.toks <;> simp [pure, Except.pure]
  rw [parseStep]
  cases hrest : js.drop s.pos with
  | nil =>
      have hge : ¬ (s.parser junk).pos < js.length := not_lt_of_drop hrest
      simp only [if_neg hge, hfinish, bind, Except.bind, lex]
      rfl
  | cons c cs =>
      obtain ⟨hc, hlt, -⟩ := charAt_of_drop hrest
      have hlt' : (s.parser junk).pos < js.length := hlt
      have hc' : charAt js (s.parser junk).pos = .ok c := hc
      simp only [if_pos hlt', hc', bind, Except.bind]
      by_cases h0 : c = 0
      · simp only [if_pos h0, hfinish, lex]
        rfl
      · rw [if_neg h0, parseChar_eq hv hcap hrest h0]
        cases hlex : lex (c :: cs) with
        | error stop =>
            cases stop with
            | none => exact absurd hlex (lex_ne_end h0 cs)
            | some err => rfl
        | ok lx =>
            cases hadv : s.advance cap lx with
            | error err => simp only [hadv]; rfl
            | ok s' =>
                have hpos := (State.advance_pos hadv)
                have hwidth := lex_width hlex
                have hback : s'.pos - 1 + 1 = s'.pos := by omega
                simp only [hadv, State.parser, pure, Except.pure, hback, hpos.2]

/-- **A call with an array** computes `tokenize`: it stays within the text and the array, it
ends, and the rest of the array is as it was. -/
theorem parse_eq (hv : s.Valid) (hcap : cap ≤ s.toks.length + junk.length) :
    parse js cap (s.parser junk) = .ok ((tokenize js cap s).1, (tokenize js cap s).2.parser
      (junk.drop ((tokenize js cap s).2.toks.length - s.toks.length))) := by
  set goal : Except Err ℕ × Parser := ((tokenize js cap s).1, (tokenize js cap s).2.parser
    (junk.drop ((tokenize js cap s).2.toks.length - s.toks.length))) with hgoal
  have hrule : ∃ result, parse js cap (s.parser junk) = .ok result ∧ result = goal := by
    refine Loop.run_spec
      (I := fun vars => ∃ s' : State, s'.Valid ∧ s.toks.length ≤ s'.toks.length ∧
        tokenize js cap s' = tokenize js cap s ∧
        vars = (s'.parser (junk.drop (s'.toks.length - s.toks.length)), s'.toks.length))
      (fun vars => js.length - vars.1.pos) ?_ ⟨s, hv, Nat.le_refl _, rfl, by simp [State.parser]⟩
      (Nat.lt_succ_self _)
    rintro vars ⟨s', hv', hle, hsame, rfl⟩
    have hcap' : cap ≤ s'.toks.length + (junk.drop (s'.toks.length - s.toks.length)).length := by
      rw [List.length_drop]
      omega
    rw [parseStep_eq hv' hcap']
    cases hlex : lex (js.drop s'.pos) with
    | error stop =>
        left
        cases stop with
        | none =>
            rw [tokenize_of_end hlex] at hsame
            exact ⟨_, rfl, by rw [hgoal, ← hsame]⟩
        | some err =>
            rw [tokenize_of_bad hlex] at hsame
            exact ⟨_, rfl, by rw [hgoal, ← hsame]⟩
    | ok lx =>
        cases hadv : s'.advance cap lx with
        | error err =>
            left
            rw [tokenize_of_error hlex hadv] at hsame
            simp only [hadv]
            exact ⟨_, rfl, by rw [hgoal, ← hsame]⟩
        | ok s'' =>
            right
            obtain ⟨hpos, hlen⟩ := State.advance_pos hadv
            obtain ⟨hwidth, hwithin⟩ := lex_width hlex
            rw [List.length_drop] at hwithin
            rw [tokenize_of_ok hlex hadv] at hsame
            simp only [hadv]
            refine ⟨_, rfl, ⟨s'', State.advance_valid hv' hadv, by omega, hsame, ?_⟩, ?_⟩
            · rw [List.drop_drop]
              congr 3
              omega
            · simp only [State.parser]
              omega
  obtain ⟨result, hrun, rfl⟩ := hrule
  exact hrun

end Refinement

/-! ### Counting -/

/-- **One character** of the loop of `jsmn_parse` without an array. -/
theorem parseChar_count {js : Bytes} {pos : ℕ} {c : UInt8} {cs : Bytes}
    (hrest : js.drop pos = c :: cs) (h0 : c ≠ 0) (toknext cap : ℕ) (toksuper : ℤ) :
    ∃ toksuper', parseChar js cap ⟨pos, toknext, toksuper, none⟩ c = .ok
      (match lex (c :: cs) with
      | .error none => (.ok 0, ⟨pos, toknext, toksuper, none⟩)
      | .error (some err) => (.error err, ⟨pos, toknext, toksuper, none⟩)
      | .ok lx => (.ok lx.weight, ⟨pos + lx.width - 1, toknext, toksuper', none⟩)) := by
  rw [parseChar, lex, if_neg h0]
  by_cases hopen : c = 123 ∨ c = 91
  · rw [if_pos hopen, if_pos hopen]
    exact ⟨toksuper, rfl⟩
  rw [if_neg hopen, if_neg hopen]
  by_cases hclose : c = 125 ∨ c = 93
  · rw [if_pos hclose, if_pos hclose]
    exact ⟨toksuper, rfl⟩
  rw [if_neg hclose, if_neg hclose]
  by_cases hstr : c = 34
  · rw [if_pos hstr, if_pos hstr, parseString]
    simp only [stringLoop_eq, (charAt_of_drop hrest).2.2, bind, Except.bind]
    refine ⟨toksuper, ?_⟩
    cases stringSpan .plain cs with
    | error err => rfl
    | ok len =>
        have hpos : pos + 1 + len = pos + (len + 2 * 1) - 1 := by omega
        simp only [Except.map, addLeaf, bumpLeaf, Lexeme.width, Lexeme.weight, hpos]
        rfl
  rw [if_neg hstr, if_neg hstr]
  by_cases hspace : c = 9 ∨ c = 13 ∨ c = 10 ∨ c = 32
  · rw [if_pos hspace, if_pos hspace]
    exact ⟨toksuper, rfl⟩
  rw [if_neg hspace, if_neg hspace]
  by_cases hcolon : c = 58
  · rw [if_pos hcolon, if_pos hcolon]
    exact ⟨toknext - 1, rfl⟩
  rw [if_neg hcolon, if_neg hcolon]
  by_cases hcomma : c = 44
  · rw [if_pos hcomma, if_pos hcomma]
    exact ⟨toksuper, rfl⟩
  rw [if_neg hcomma, if_neg hcomma, parsePrimitive]
  simp only [primitiveLoop_eq, hrest, bind, Except.bind]
  refine ⟨toksuper, ?_⟩
  cases primitiveSpan (c :: cs) with
  | error err => rfl
  | ok len => rfl

/-- One iteration of the loop of `jsmn_parse` without an array. -/
theorem parseStep_count (js : Bytes) (cap pos toknext count : ℕ) (toksuper : ℤ) :
    ∃ toksuper', parseStep js cap (⟨pos, toknext, toksuper, none⟩, count) = .ok
      (match lex (js.drop pos) with
      | .error none => .leave (.ok count, ⟨pos, toknext, toksuper, none⟩)
      | .error (some err) => .leave (.error err, ⟨pos, toknext, toksuper, none⟩)
      | .ok lx => .again (⟨pos + lx.width, toknext, toksuper', none⟩, count + lx.weight)) := by
  rw [parseStep]
  cases hrest : js.drop pos with
  | nil =>
      refine ⟨toksuper, ?_⟩
      simp only [if_neg (not_lt_of_drop hrest)]
      rfl
  | cons c cs =>
      obtain ⟨hc, hlt, -⟩ := charAt_of_drop hrest
      simp only [if_pos hlt, hc, bind, Except.bind]
      by_cases h0 : c = 0
      · refine ⟨toksuper, ?_⟩
        simp only [if_pos h0, lex]
        rfl
      · obtain ⟨toksuper', hchar⟩ := parseChar_count hrest h0 toknext cap toksuper
        refine ⟨toksuper', ?_⟩
        rw [if_neg h0, hchar]
        cases hlex : lex (c :: cs) with
        | error stop =>
            cases stop with
            | none => exact absurd hlex (lex_ne_end h0 cs)
            | some err => rfl
        | ok lx =>
            have hwidth := lex_width hlex
            have hback : pos + lx.width - 1 + 1 = pos + lx.width := by omega
            simp only [pure, Except.pure, hback]

/-- **A call without an array** counts the tokens. -/
theorem parse_count_eq (js : Bytes) (cap pos toknext : ℕ) (toksuper : ℤ) :
    ∃ parser, parse js cap ⟨pos, toknext, toksuper, none⟩ =
      .ok ((countFrom js pos).map (toknext + ·), parser) := by
  have hrule : ∃ result, parse js cap ⟨pos, toknext, toksuper, none⟩ = .ok result ∧
      result.1 = (countFrom js pos).map (toknext + ·) := by
    refine Loop.run_spec
      (I := fun vars => ∃ pos' toksuper' count, vars = (⟨pos', toknext, toksuper', none⟩, count) ∧
        (countFrom js pos').map (count + ·) = (countFrom js pos).map (toknext + ·))
      (fun vars => js.length - vars.1.pos) ?_ ⟨pos, toksuper, toknext, rfl, rfl⟩
      (Nat.lt_succ_self _)
    rintro vars ⟨pos', toksuper', count, rfl, hsame⟩
    obtain ⟨next, hstep⟩ := parseStep_count js cap pos' toknext count toksuper'
    rw [hstep]
    rw [countFrom] at hsame
    cases hlex : lex (js.drop pos') with
    | error stop =>
        left
        cases stop with
        | none =>
            rw [hlex] at hsame
            exact ⟨_, rfl, hsame⟩
        | some err =>
            rw [hlex] at hsame
            exact ⟨_, rfl, hsame⟩
    | ok lx =>
        right
        obtain ⟨hwidth, hwithin⟩ := lex_width hlex
        rw [List.length_drop] at hwithin
        rw [hlex] at hsame
        dsimp only at hsame
        refine ⟨_, rfl, ⟨pos' + lx.width, next, count + lx.weight, rfl, ?_⟩, by dsimp only; omega⟩
        rw [← hsame]
        cases countFrom js (pos' + lx.width) with
        | error err => rfl
        | ok n =>
            simp only [Except.map, Except.ok.injEq]
            omega
  obtain ⟨⟨result, parser⟩, hrun, rfl⟩ := hrule
  exact ⟨parser, hrun⟩

end Wgi.Jsmn
