import Wgi.Segments
import Wgi.Utf8

/-!
# Lossy Decoding of UTF-8

`lossy` decodes all byte strings. A character begins with a byte that says how many bytes follow
it and in which range the first of them lies. Bytes that do not make a character are replaced:
the longest beginning of a character, or one byte, by one U+FFFD.

## Main results

* `lossy_encode`: text is decoded as it is.
* `lossy_append_cons`: an ASCII byte ends whatever stands before it.
* `map_lossy_complete_rest`, `map_lossy_messages`: cutting and decoding can be exchanged.
-/

namespace Utf8

/-- How many bytes a character has that begins with the given byte, or zero if none does. -/
def width (b : ℕ) : ℕ :=
  if b < 0x80 then 1
  else if b < 0xC2 then 0
  else if b < 0xE0 then 2
  else if b < 0xF0 then 3
  else if b < 0xF5 then 4
  else 0

/-- The smallest byte that can follow the first one. -/
def low (b : ℕ) : ℕ :=
  if b = 0xE0 then 0xA0 else if b = 0xF0 then 0x90 else 0x80

/-- The largest byte that can follow the first one. -/
def high (b : ℕ) : ℕ :=
  if b = 0xED then 0x9F else if b = 0xF4 then 0x8F else 0xBF

/-- What the first byte has in front of its payload. -/
def mark (b : ℕ) : ℕ :=
  if b < 0x80 then 0 else if b < 0xE0 then 0xC0 else if b < 0xF0 then 0xE0 else 0xF0

/-- The bytes that continue a character, up to the given number of them, and the bytes behind
them. Only the first has a range of its own. -/
def continuation (lo hi : ℕ) : ℕ → List UInt8 → List UInt8 × List UInt8
  | n + 1, b :: bytes =>
      if lo ≤ b.toNat ∧ b.toNat ≤ hi then
        (b :: (continuation 0x80 0xBF n bytes).1, (continuation 0x80 0xBF n bytes).2)
      else ([], b :: bytes)
  | _, bytes => ([], bytes)

/-- The number that a character's bytes stand for. -/
def scalar (b : UInt8) (cont : List UInt8) : ℕ :=
  cont.foldl (fun v c => v * 64 + (c.toNat - 0x80)) (b.toNat - mark b.toNat)

/-- The character at the head of some bytes, or what replaces them, and the bytes behind. -/
def lossyStep (b : UInt8) (bytes : List UInt8) : Char × List UInt8 :=
  let (cont, rest) :=
    continuation (low b.toNat) (high b.toNat) (width b.toNat - 1) bytes
  (if cont.length + 1 = width b.toNat then Char.ofNat (scalar b cont) else Char.ofNat 0xFFFD, rest)

theorem length_continuation (lo hi n : ℕ) (bytes : List UInt8) :
    (continuation lo hi n bytes).2.length ≤ bytes.length := by
  induction n generalizing lo hi bytes with
  | zero => exact Nat.le_refl _
  | succ n ih =>
      cases bytes with
      | nil => exact Nat.le_refl _
      | cons b bytes =>
          rw [continuation]
          split
          · exact Nat.le_succ_of_le (ih _ _ bytes)
          · exact Nat.le_refl _

/-- `String::from_utf8_lossy`. -/
def lossy : List UInt8 → List Char
  | [] => []
  | b :: bytes => (lossyStep b bytes).1 :: lossy (lossyStep b bytes).2
termination_by bytes => bytes.length
decreasing_by
  exact Nat.lt_succ_of_le (length_continuation _ _ _ bytes)

@[simp] theorem lossy_nil : lossy [] = [] := by
  rw [lossy]

theorem lossy_cons (b : UInt8) (bytes : List UInt8) :
    lossy (b :: bytes) = (lossyStep b bytes).1 :: lossy (lossyStep b bytes).2 := by
  rw [lossy]

/-! ### An ASCII byte -/

/-- An ASCII byte does not continue a character. -/
theorem continuation_append {lo : ℕ} (hlo : 0x80 ≤ lo) (hi n : ℕ) (bytes : List UInt8) {d : UInt8}
    (hd : d.toNat < 0x80) (more : List UInt8) :
    continuation lo hi n (bytes ++ d :: more) =
      ((continuation lo hi n bytes).1, (continuation lo hi n bytes).2 ++ d :: more) := by
  induction n generalizing lo hi bytes with
  | zero => rfl
  | succ n ih =>
      cases bytes with
      | nil =>
          rw [List.nil_append, continuation, if_neg (by omega)]
          rfl
      | cons b bytes =>
          rw [List.cons_append, continuation, continuation]
          by_cases hb : lo ≤ b.toNat ∧ b.toNat ≤ hi
          · rw [if_pos hb, if_pos hb, ih (Nat.le_refl _)]
          · rw [if_neg hb, if_neg hb]
            rfl

theorem low_ge (b : ℕ) : 0x80 ≤ low b := by
  rw [low]
  split_ifs <;> omega

theorem lossyStep_append (b : UInt8) (bytes : List UInt8) {d : UInt8} (hd : d.toNat < 0x80)
    (more : List UInt8) :
    lossyStep b (bytes ++ d :: more) =
      ((lossyStep b bytes).1, (lossyStep b bytes).2 ++ d :: more) := by
  rw [lossyStep, lossyStep, continuation_append (low_ge _) _ _ _ hd]

theorem lossyStep_ascii {d : UInt8} (hd : d.toNat < 0x80) (bytes : List UInt8) :
    lossyStep d bytes = (Char.ofNat d.toNat, bytes) := by
  have hwidth : width d.toNat = 1 := if_pos hd
  have hmark : mark d.toNat = 0 := if_pos hd
  rw [lossyStep, hwidth]
  simp only [Nat.sub_self, continuation, List.length_nil, scalar, List.foldl_nil, hmark,
    Nat.sub_zero, if_true]

/-- **An ASCII byte ends whatever stands before it**, and what follows begins anew. -/
theorem lossy_append_cons (bytes : List UInt8) {d : UInt8} (hd : d.toNat < 0x80)
    (more : List UInt8) :
    lossy (bytes ++ d :: more) = lossy bytes ++ Char.ofNat d.toNat :: lossy more := by
  induction bytes using lossy.induct with
  | case1 => rw [List.nil_append, lossy_cons, lossyStep_ascii hd, lossy_nil, List.nil_append]
  | case2 b bytes ih =>
      rw [List.cons_append, lossy_cons, lossyStep_append b bytes hd, lossy_cons b bytes, ih,
        List.cons_append]

/-! ### Text -/

theorem toNat_byte {n : ℕ} (h : n < 256) : (UInt8.ofNat n).toNat = n := by
  rw [UInt8.toNat_ofNat', Nat.mod_eq_of_lt h]

/-- Bytes that continue a character. -/
def Continues (lo hi : ℕ) : List UInt8 → Prop
  | [] => True
  | b :: cont => (lo ≤ b.toNat ∧ b.toNat ≤ hi) ∧ Continues 0x80 0xBF cont

theorem continuation_of_continues {lo hi : ℕ} {cont : List UInt8} (h : Continues lo hi cont)
    (bytes : List UInt8) : continuation lo hi cont.length (cont ++ bytes) = (cont, bytes) := by
  induction cont generalizing lo hi with
  | nil => rfl
  | cons b cont ih =>
      rw [List.length_cons, List.cons_append, continuation, if_pos h.1, ih h.2]

/-- A step over all the bytes of a character. -/
theorem lossyStep_of_continues {b : UInt8} {cont : List UInt8}
    (hwidth : width b.toNat = cont.length + 1)
    (hcont : Continues (low b.toNat) (high b.toNat) cont) (bytes : List UInt8) :
    lossyStep b (cont ++ bytes) = (Char.ofNat (scalar b cont), bytes) := by
  rw [lossyStep, hwidth, Nat.add_sub_cancel, continuation_of_continues hcont]
  simp only [if_true]

/-- A character of two bytes. -/
theorem lossyStep_two {v : ℕ} (hlo : 0x7F < v) (hhi : v ≤ 0x7FF) (bytes : List UInt8) :
    lossyStep (UInt8.ofNat (v / 64 % 32 + 0xC0)) ([UInt8.ofNat (v % 64 + 0x80)] ++ bytes) =
      (Char.ofNat v, bytes) := by
  have hb := toNat_byte (n := v / 64 % 32 + 0xC0) (by omega)
  have hx := toNat_byte (n := v % 64 + 0x80) (by omega)
  have hv : (v / 64 % 32 + 0xC0 - 0xC0) * 64 + (v % 64 + 0x80 - 0x80) = v := by omega
  rw [lossyStep_of_continues, scalar, List.foldl_cons, List.foldl_nil, hb, hx, mark,
    if_neg (by omega), if_pos (by omega), hv]
  · rw [hb, width, if_neg (by omega), if_neg (by omega), if_pos (by omega)]
    rfl
  · rw [hb, low, high, Continues, hx]
    refine ⟨?_, trivial⟩
    split_ifs <;> omega

/-- A character of three bytes, which is no surrogate. -/
theorem lossyStep_three {v : ℕ} (hlo : 0x7FF < v) (hhi : v ≤ 0xFFFF)
    (hvalid : v < 0xD800 ∨ 0xDFFF < v) (bytes : List UInt8) :
    lossyStep (UInt8.ofNat (v / 4096 % 16 + 0xE0))
        ([UInt8.ofNat (v / 64 % 64 + 0x80), UInt8.ofNat (v % 64 + 0x80)] ++ bytes) =
      (Char.ofNat v, bytes) := by
  have hb := toNat_byte (n := v / 4096 % 16 + 0xE0) (by omega)
  have hx := toNat_byte (n := v / 64 % 64 + 0x80) (by omega)
  have hy := toNat_byte (n := v % 64 + 0x80) (by omega)
  have hv : ((v / 4096 % 16 + 0xE0 - 0xE0) * 64 + (v / 64 % 64 + 0x80 - 0x80)) * 64 +
      (v % 64 + 0x80 - 0x80) = v := by omega
  rw [lossyStep_of_continues, scalar, List.foldl_cons, List.foldl_cons, List.foldl_nil, hb, hx,
    hy, mark, if_neg (by omega), if_neg (by omega), if_pos (by omega), hv]
  · rw [hb, width, if_neg (by omega), if_neg (by omega), if_neg (by omega), if_pos (by omega)]
    rfl
  · rw [hb, low, high, Continues, Continues, hx, hy]
    refine ⟨?_, by omega, trivial⟩
    split_ifs <;> omega

/-- A character of four bytes. -/
theorem lossyStep_four {v : ℕ} (hlo : 0xFFFF < v) (hhi : v < 0x110000) (bytes : List UInt8) :
    lossyStep (UInt8.ofNat (v / 262144 % 8 + 0xF0))
        ([UInt8.ofNat (v / 4096 % 64 + 0x80), UInt8.ofNat (v / 64 % 64 + 0x80),
          UInt8.ofNat (v % 64 + 0x80)] ++ bytes) = (Char.ofNat v, bytes) := by
  have hb := toNat_byte (n := v / 262144 % 8 + 0xF0) (by omega)
  have hx := toNat_byte (n := v / 4096 % 64 + 0x80) (by omega)
  have hy := toNat_byte (n := v / 64 % 64 + 0x80) (by omega)
  have hz := toNat_byte (n := v % 64 + 0x80) (by omega)
  have hv : (((v / 262144 % 8 + 0xF0 - 0xF0) * 64 + (v / 4096 % 64 + 0x80 - 0x80)) * 64 +
      (v / 64 % 64 + 0x80 - 0x80)) * 64 + (v % 64 + 0x80 - 0x80) = v := by omega
  rw [lossyStep_of_continues, scalar, List.foldl_cons, List.foldl_cons, List.foldl_cons,
    List.foldl_nil, hb, hx, hy, hz, mark, if_neg (by omega), if_neg (by omega),
    if_neg (by omega), hv]
  · rw [hb, width, if_neg (by omega), if_neg (by omega), if_neg (by omega), if_neg (by omega),
      if_pos (by omega)]
    rfl
  · rw [hb, low, high, Continues, Continues, Continues, hx, hy, hz]
    refine ⟨?_, by omega, by omega, trivial⟩
    split_ifs <;> omega

/-- The bytes of a character are read as that character. -/
theorem lossyStep_encodeChar (c : Char) (bytes : List UInt8) :
    ∃ b cont, String.utf8EncodeChar c = b :: cont ∧
      lossyStep b (cont ++ bytes) = (c, bytes) := by
  have hvalid : c.val.toNat < 0xD800 ∨ (0xDFFF < c.val.toNat ∧ c.val.toNat < 0x110000) := c.valid
  have hchar : Char.ofNat c.val.toNat = c := Char.ofNat_toNat c
  simp only [String.utf8EncodeChar]
  generalize c.val.toNat = v at hvalid hchar
  subst hchar
  by_cases h1 : v ≤ 0x7F
  · have hb := toNat_byte (n := v) (by omega)
    refine ⟨_, _, if_pos h1, ?_⟩
    rw [List.nil_append, lossyStep_ascii (by omega), hb]
  · rw [if_neg h1]
    by_cases h2 : v ≤ 0x7FF
    · exact ⟨_, _, if_pos h2, lossyStep_two (by omega) h2 bytes⟩
    · rw [if_neg h2]
      by_cases h3 : v ≤ 0xFFFF
      · exact ⟨_, _, if_pos h3, lossyStep_three (by omega) h3 (by omega) bytes⟩
      · exact ⟨_, _, if_neg h3, lossyStep_four (by omega) (by omega) bytes⟩

/-- **Text is decoded as it is.** -/
theorem lossy_encode (s : List Char) : lossy (encode s) = s := by
  induction s with
  | nil => exact lossy_nil
  | cons c s ih =>
      obtain ⟨b, cont, hencode, hstep⟩ := lossyStep_encodeChar c (encode s)
      rw [encode_cons, hencode, List.cons_append, lossy_cons, hstep, ih]

/-! ### Lines -/

/-- A number outside ASCII is no ASCII character. -/
theorem ofNat_ne {n : ℕ} (h : 0x80 ≤ n) {d : Char} (hd : 0 < d.toNat) (hlt : d.toNat < 0x80) :
    Char.ofNat n ≠ d := by
  rintro rfl
  by_cases hvalid : n.isValidChar
  · rw [Char.ofNat, dif_pos hvalid] at hlt
    have hval : (Char.ofNatAux n hvalid).toNat = n := rfl
    omega
  · rw [Char.ofNat, dif_neg hvalid] at hd
    exact absurd hd (by decide)

/-- The first byte that continues a character is in its range. -/
theorem le_of_continuation {lo hi n : ℕ} {bytes cont rest : List UInt8} {c : UInt8}
    (h : continuation lo hi n bytes = (c :: cont, rest)) : lo ≤ c.toNat := by
  cases n with
  | zero => cases h
  | succ n =>
      cases bytes with
      | nil => cases h
      | cons b bytes =>
          by_cases hb : lo ≤ b.toNat ∧ b.toNat ≤ hi
          · rw [continuation, if_pos hb] at h
            obtain ⟨rfl, -⟩ := List.cons.inj (Prod.mk.inj h).1
            exact hb.1
          · rw [continuation, if_neg hb] at h
            cases h

theorem le_foldl (cont : List UInt8) (v : ℕ) :
    v ≤ cont.foldl (fun v c => v * 64 + (c.toNat - 0x80)) v := by
  induction cont generalizing v with
  | nil => exact Nat.le_refl v
  | cons c cont ih =>
      have hstep : v ≤ v * 64 + (c.toNat - 0x80) :=
        Nat.le_trans (Nat.le_mul_of_pos_right v (by decide)) (Nat.le_add_right _ _)
      rw [List.foldl_cons]
      exact Nat.le_trans hstep (ih _)

/-- A character of more than one byte is outside ASCII. -/
theorem le_scalar {b : UInt8} {bytes cont rest : List UInt8}
    (h : continuation (low b.toNat) (high b.toNat) (width b.toNat - 1) bytes = (cont, rest))
    (hlen : cont.length + 1 = width b.toNat) (hb : 0x80 ≤ b.toNat) : 0x80 ≤ scalar b cont := by
  cases cont with
  | nil =>
      rw [width] at hlen
      simp only [List.length_nil] at hlen
      split_ifs at hlen <;> omega
  | cons c cont =>
      have hc := le_of_continuation h
      rw [scalar, List.foldl_cons]
      cases cont with
      | nil =>
          rw [List.foldl_nil, mark]
          rw [width] at hlen
          simp only [List.length_cons, List.length_nil] at hlen
          split_ifs at hlen ⊢ <;> omega
      | cons d cont =>
          rw [List.foldl_cons]
          refine Nat.le_trans ?_ (le_foldl cont _)
          rw [low] at hc
          rw [mark]
          rw [width] at hlen
          simp only [List.length_cons] at hlen
          split_ifs at hlen hc ⊢ <;> omega

theorem mem_of_mem_continuation {lo hi n : ℕ} {bytes : List UInt8} {x : UInt8}
    (h : x ∈ (continuation lo hi n bytes).2) : x ∈ bytes := by
  induction n generalizing lo hi bytes with
  | zero => exact h
  | succ n ih =>
      cases bytes with
      | nil => exact h
      | cons b bytes =>
          by_cases hb : lo ≤ b.toNat ∧ b.toNat ≤ hi
          · rw [continuation, if_pos hb] at h
            exact List.mem_cons_of_mem b (ih h)
          · rwa [continuation, if_neg hb] at h

/-- An ASCII character is decoded only from its byte. -/
theorem lossyStep_ne {d : UInt8} (hpos : 0 < d.toNat) (hd : d.toNat < 0x80) {b : UInt8}
    (hne : d ≠ b) (bytes : List UInt8) : (lossyStep b bytes).1 ≠ Char.ofNat d.toNat := by
  have hchar : (Char.ofNat d.toNat).toNat = d.toNat := toNat_ofNat_of_lt hd
  by_cases hb : b.toNat < 0x80
  · rw [lossyStep_ascii hb]
    intro heq
    have hnat := congrArg Char.toNat heq
    rw [hchar, toNat_ofNat_of_lt hb] at hnat
    exact hne (UInt8.toNat_inj.mp hnat.symm)
  · generalize hcont : continuation (low b.toNat) (high b.toNat) (width b.toNat - 1) bytes = split
    obtain ⟨cont, rest⟩ := split
    rw [lossyStep, hcont]
    by_cases hlen : cont.length + 1 = width b.toNat
    · simp only [if_pos hlen]
      exact ofNat_ne (le_scalar hcont hlen (Nat.not_lt.mp hb)) (by omega) (by omega)
    · simp only [if_neg hlen]
      exact ofNat_ne (by decide) (by omega) (by omega)

theorem notMem_lossy {d : UInt8} (hpos : 0 < d.toNat) (hd : d.toNat < 0x80) {bytes : List UInt8}
    (h : d ∉ bytes) : Char.ofNat d.toNat ∉ lossy bytes := by
  induction bytes using lossy.induct with
  | case1 =>
      rw [lossy_nil]
      exact List.not_mem_nil
  | case2 b bytes ih =>
      rw [List.mem_cons, not_or] at h
      rw [lossy_cons, List.mem_cons, not_or]
      exact ⟨(lossyStep_ne hpos hd h.1 bytes).symm,
        ih fun hmem => h.2 (mem_of_mem_continuation hmem)⟩

theorem isEmpty_lossy (bytes : List UInt8) : (lossy bytes).isEmpty = bytes.isEmpty := by
  cases bytes with
  | nil =>
      rw [lossy_nil]
      rfl
  | cons b bytes => rw [lossy_cons, List.isEmpty_cons, List.isEmpty_cons]

/-- **Cutting and decoding can be exchanged**: the decoded segments of some bytes are the segments
of the decoded bytes. -/
theorem map_lossy_complete_rest {d : UInt8} (hpos : 0 < d.toNat) (hd : d.toNat < 0x80)
    (bytes : List UInt8) :
    (Segments.complete d bytes).map lossy =
        Segments.complete (Char.ofNat d.toNat) (lossy bytes) ∧
      lossy (Segments.rest d bytes) = Segments.rest (Char.ofNat d.toNat) (lossy bytes) := by
  induction bytes using Segments.induction_on d with
  | hopen line hline =>
      obtain ⟨hc, hr⟩ := Segments.complete_rest_of_notMem d hline
      obtain ⟨hc', hr'⟩ := Segments.complete_rest_of_notMem _ (notMem_lossy hpos hd hline)
      rw [hc, hr, hc', hr']
      exact ⟨rfl, rfl⟩
  | hclosed line rest hline ih =>
      obtain ⟨hc, hr⟩ := Segments.complete_rest_append_cons d hline rest
      obtain ⟨hc', hr'⟩ :=
        Segments.complete_rest_append_cons _ (notMem_lossy hpos hd hline) (lossy rest)
      rw [hc, hr, lossy_append_cons line hd, hc', hr', List.map_cons, ih.1, ih.2]
      exact ⟨rfl, rfl⟩

/-- The decoded lines of some bytes are the lines of the decoded bytes. -/
theorem map_lossy_messages {d : UInt8} (hpos : 0 < d.toNat) (hd : d.toNat < 0x80)
    (bytes : List UInt8) :
    (Segments.messages d bytes).map lossy =
      Segments.messages (Char.ofNat d.toNat) (lossy bytes) := by
  obtain ⟨hcomplete, hrest⟩ := map_lossy_complete_rest hpos hd bytes
  rw [Segments.messages, Segments.messages, ← hcomplete, ← hrest, isEmpty_lossy, List.map_append]
  split_ifs <;> rfl

end Utf8
