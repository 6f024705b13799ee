import Mathlib.Data.List.Basic

/-!
# Base64

`Codec` is what a program relies on when it sends bytes through text: decoding undoes
encoding. `standard` is the standard alphabet with padding: three bytes become four
characters of six bits each, and one or two bytes left over at the end are padded with
`=`. The decoder rejects characters outside the alphabet, misplaced padding, and padded
groups whose unused bits are not zero.

## Main results

* `decode_encode`: the standard decoder undoes the standard encoder.
-/

namespace Base64

/-- An encoding of bytes as text that can be undone. -/
structure Codec where
  encode : List UInt8 → List Char
  decode : List Char → Option (List UInt8)
  decode_encode : ∀ b, decode (encode b) = some b

/-- The character for six bits. -/
def sextetChar (n : ℕ) : Char :=
  if n < 26 then Char.ofNat (65 + n)
  else if n < 52 then Char.ofNat (97 + (n - 26))
  else if n < 62 then Char.ofNat (48 + (n - 52))
  else if n = 62 then '+' else '/'

/-- The six bits of a character. -/
def charSextet (c : Char) : Option ℕ :=
  if 65 ≤ c.toNat ∧ c.toNat ≤ 90 then some (c.toNat - 65)
  else if 97 ≤ c.toNat ∧ c.toNat ≤ 122 then some (c.toNat - 97 + 26)
  else if 48 ≤ c.toNat ∧ c.toNat ≤ 57 then some (c.toNat - 48 + 52)
  else if c = '+' then some 62
  else if c = '/' then some 63
  else none

theorem charSextet_sextetChar {n : ℕ} (h : n < 64) :
    charSextet (sextetChar n) = some n ∧ sextetChar n ≠ '=' := by
  have hcases : ∀ n < 64, charSextet (sextetChar n) = some n ∧ sextetChar n ≠ '=' := by
    decide
  exact hcases n h

/-- The standard encoder. -/
def encode : List UInt8 → List Char
  | [] => []
  | [a] => [sextetChar (a.toNat / 4), sextetChar (a.toNat % 4 * 16), '=', '=']
  | [a, b] =>
      [sextetChar (a.toNat / 4), sextetChar (a.toNat % 4 * 16 + b.toNat / 16),
        sextetChar (b.toNat % 16 * 4), '=']
  | a :: b :: c :: rest =>
      sextetChar (a.toNat / 4) :: sextetChar (a.toNat % 4 * 16 + b.toNat / 16) ::
        sextetChar (b.toNat % 16 * 4 + c.toNat / 64) :: sextetChar (c.toNat % 64) ::
        encode rest

/-- The byte of a group with two padding characters. -/
def decodeOne (w x : Char) : Option (List UInt8) := do
  let w ← charSextet w
  let x ← charSextet x
  guard (x % 16 = 0)
  pure [UInt8.ofNat (w * 4 + x / 16)]

/-- The bytes of a group with one padding character. -/
def decodeTwo (w x y : Char) : Option (List UInt8) := do
  let w ← charSextet w
  let x ← charSextet x
  let y ← charSextet y
  guard (y % 4 = 0)
  pure [UInt8.ofNat (w * 4 + x / 16), UInt8.ofNat (x % 16 * 16 + y / 4)]

/-- The bytes of a full group. -/
def decodeThree (w x y z : Char) : Option (List UInt8) := do
  let w ← charSextet w
  let x ← charSextet x
  let y ← charSextet y
  let z ← charSextet z
  pure [UInt8.ofNat (w * 4 + x / 16), UInt8.ofNat (x % 16 * 16 + y / 4),
    UInt8.ofNat (y % 4 * 64 + z)]

/-- The standard decoder. -/
def decode : List Char → Option (List UInt8)
  | [] => some []
  | w :: x :: y :: z :: rest =>
      if z = '=' then
        if rest = [] then
          if y = '=' then decodeOne w x else decodeTwo w x y
        else none
      else do
        let bytes ← decodeThree w x y z
        let later ← decode rest
        pure (bytes ++ later)
  | _ => none

theorem decodeOne_encode (a : UInt8) :
    decodeOne (sextetChar (a.toNat / 4)) (sextetChar (a.toNat % 4 * 16)) = some [a] := by
  have ha := a.toNat_lt
  have hw := (charSextet_sextetChar (n := a.toNat / 4) (by omega)).1
  have hx := (charSextet_sextetChar (n := a.toNat % 4 * 16) (by omega)).1
  have hbits : a.toNat % 4 * 16 % 16 = 0 := by omega
  have hbyte : a.toNat / 4 * 4 + a.toNat % 4 * 16 / 16 = a.toNat := by omega
  simp only [decodeOne, hw, hx, Option.bind_eq_bind, Option.bind_some, hbits, hbyte, guard,
    if_true, UInt8.ofNat_toNat]
  rfl

theorem decodeTwo_encode (a b : UInt8) :
    decodeTwo (sextetChar (a.toNat / 4)) (sextetChar (a.toNat % 4 * 16 + b.toNat / 16))
      (sextetChar (b.toNat % 16 * 4)) = some [a, b] := by
  have ha := a.toNat_lt
  have hb := b.toNat_lt
  have hw := (charSextet_sextetChar (n := a.toNat / 4) (by omega)).1
  have hx := (charSextet_sextetChar (n := a.toNat % 4 * 16 + b.toNat / 16) (by omega)).1
  have hy := (charSextet_sextetChar (n := b.toNat % 16 * 4) (by omega)).1
  have hbits : b.toNat % 16 * 4 % 4 = 0 := by omega
  have hfst : a.toNat / 4 * 4 + (a.toNat % 4 * 16 + b.toNat / 16) / 16 = a.toNat := by omega
  have hsnd : (a.toNat % 4 * 16 + b.toNat / 16) % 16 * 16 + b.toNat % 16 * 4 / 4 = b.toNat := by
    omega
  simp only [decodeTwo, hw, hx, hy, Option.bind_eq_bind, Option.bind_some, hbits, hfst, hsnd,
    guard, if_true, UInt8.ofNat_toNat]
  rfl

theorem decodeThree_encode (a b c : UInt8) :
    decodeThree (sextetChar (a.toNat / 4)) (sextetChar (a.toNat % 4 * 16 + b.toNat / 16))
      (sextetChar (b.toNat % 16 * 4 + c.toNat / 64)) (sextetChar (c.toNat % 64)) =
      some [a, b, c] := by
  have ha := a.toNat_lt
  have hb := b.toNat_lt
  have hc := c.toNat_lt
  have hw := (charSextet_sextetChar (n := a.toNat / 4) (by omega)).1
  have hx := (charSextet_sextetChar (n := a.toNat % 4 * 16 + b.toNat / 16) (by omega)).1
  have hy := (charSextet_sextetChar (n := b.toNat % 16 * 4 + c.toNat / 64) (by omega)).1
  have hz := (charSextet_sextetChar (n := c.toNat % 64) (by omega)).1
  have hfst : a.toNat / 4 * 4 + (a.toNat % 4 * 16 + b.toNat / 16) / 16 = a.toNat := by omega
  have hsnd : (a.toNat % 4 * 16 + b.toNat / 16) % 16 * 16 +
      (b.toNat % 16 * 4 + c.toNat / 64) / 4 = b.toNat := by omega
  have htrd : (b.toNat % 16 * 4 + c.toNat / 64) % 4 * 64 + c.toNat % 64 = c.toNat := by omega
  simp only [decodeThree, hw, hx, hy, hz, Option.bind_eq_bind, Option.bind_some, hfst, hsnd, htrd,
    UInt8.ofNat_toNat]
  rfl

/-- **Decoding undoes encoding.** Induction along the groups of three bytes. -/
theorem decode_encode (b : List UInt8) : decode (encode b) = some b := by
  induction b using encode.induct with
  | case1 => rfl
  | case2 a =>
      simp only [encode, decode, if_true]
      exact decodeOne_encode a
  | case3 a b =>
      have hpad := (charSextet_sextetChar (n := b.toNat % 16 * 4) (by omega)).2
      simp only [encode, decode, if_true, if_neg hpad]
      exact decodeTwo_encode a b
  | case4 a b c rest ih =>
      have hpad := (charSextet_sextetChar (n := c.toNat % 64) (by omega)).2
      simp only [encode, decode, if_neg hpad, decodeThree_encode, ih]
      rfl

/-- The standard alphabet with padding. -/
def standard : Codec where
  encode := encode
  decode := decode
  decode_encode := decode_encode

end Base64
