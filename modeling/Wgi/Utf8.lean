import Mathlib.Data.List.Basic

/-!
# UTF-8 Text and Its Byte Offsets

A text is the list of its characters; its bytes are their UTF-8 encodings in order, with
Lean's own `String.utf8EncodeChar`. Programs that scan a text by bytes and then cut it at
a byte offset rely on the offset being a character boundary. `splitAtByte` is such a cut:
it fails off a boundary.

## Main results

* `decode_encode` and `encode_of_decode`: decoding inverts encoding, and accepts nothing
  else.
* `byte_of_mem_encodeChar`: an ASCII byte inside an encoded character is that character.
  A scan for an ASCII byte therefore never stops inside a longer character.
* `splitAtByte_offsets`: the byte offsets at which an ASCII character is found are all
  boundaries, and cutting there gives the splits of the text before that character.
-/

namespace Utf8

/-- The bytes of a text. -/
def encode (s : List Char) : List UInt8 :=
  s.flatMap String.utf8EncodeChar

/-- The text with these bytes, if they are valid UTF-8. -/
def decode (b : List UInt8) : Option (List Char) :=
  b.toByteArray.utf8Decode?.map Array.toList

@[simp] theorem encode_cons (c : Char) (s : List Char) :
    encode (c :: s) = String.utf8EncodeChar c ++ encode s := rfl

theorem encode_append (s t : List Char) : encode (s ++ t) = encode s ++ encode t :=
  List.flatMap_append

/-- A text has at least as many bytes as characters. -/
theorem length_le_length_encode (s : List Char) : s.length ≤ (encode s).length := by
  induction s with
  | nil => exact Nat.le_refl 0
  | cons c s ih =>
      have hc := c.utf8Size_pos
      rw [encode_cons, List.length_append, String.length_utf8EncodeChar, List.length_cons]
      omega

/-- Of two beginnings of a text, the one with fewer characters has fewer bytes. -/
theorem length_encode_lt {s l r l' r' : List Char} (h : l ++ r = s) (h' : l' ++ r' = s)
    (hlt : l.length < l'.length) : (encode l).length < (encode l').length := by
  obtain ⟨t, rfl⟩ := List.prefix_of_prefix_length_le ⟨r, h⟩ ⟨r', h'⟩ (Nat.le_of_lt hlt)
  have ht := length_le_length_encode t
  rw [encode_append, List.length_append]
  rw [List.length_append] at hlt
  omega

/-- **Round trip**: the bytes of a text decode to that text. -/
@[simp] theorem decode_encode (s : List Char) : decode (encode s) = some s := by
  have h : (encode s).toByteArray = s.utf8Encode := rfl
  rw [decode, h, List.utf8Decode?_utf8Encode, Option.map_some]

/-- Decoding accepts only the bytes of the text it returns. -/
theorem encode_of_decode {b : List UInt8} {s : List Char} (h : decode b = some s) :
    encode s = b := by
  obtain ⟨a, ha, rfl⟩ := Option.map_eq_some_iff.mp h
  have hsome : b.toByteArray.utf8Decode?.isSome := by rw [ha]; rfl
  have hget : b.toByteArray.utf8Decode?.get hsome = a := by simp [ha]
  have hbytes : a.toList.utf8Encode = b.toByteArray := by
    rw [← hget, ByteArray.utf8Encode_get_utf8Decode?]
  have hdata := congrArg (fun x => x.data.toList) hbytes
  simpa [List.utf8Encode, encode] using hdata

/-- Two texts with the same bytes are the same text. -/
theorem encode_injective {s t : List Char} (h : encode s = encode t) : s = t := by
  have hs := decode_encode s
  rw [h, decode_encode] at hs
  exact (Option.some.inj hs).symm

/-! ### ASCII -/

/-- An ASCII character is encoded as itself. -/
theorem encodeChar_ascii {c : Char} (h : c.toNat < 128) :
    String.utf8EncodeChar c = [UInt8.ofNat c.toNat] := by
  have hc : c.val.toNat ≤ 127 := Nat.le_of_lt_succ h
  simp only [String.utf8EncodeChar, if_pos hc]
  rfl

/-- Every byte of a character outside ASCII is at least `0x80`. -/
theorem le_of_mem_encodeChar {c : Char} (h : 128 ≤ c.toNat) {b : UInt8}
    (hb : b ∈ String.utf8EncodeChar c) : 128 ≤ b.toNat := by
  have hc : ¬ c.val.toNat ≤ 127 := Nat.not_le.mpr h
  simp only [String.utf8EncodeChar, if_neg hc] at hb
  split at hb
  · simp only [List.mem_cons, List.not_mem_nil, or_false] at hb
    rcases hb with rfl | rfl <;> simp only [UInt8.toNat_ofNat'] <;> omega
  · split at hb
    · simp only [List.mem_cons, List.not_mem_nil, or_false] at hb
      rcases hb with rfl | rfl | rfl <;> simp only [UInt8.toNat_ofNat'] <;> omega
    · simp only [List.mem_cons, List.not_mem_nil, or_false] at hb
      rcases hb with rfl | rfl | rfl | rfl <;> simp only [UInt8.toNat_ofNat'] <;> omega

/-- **An ASCII byte inside an encoded character is that character.** -/
theorem byte_of_mem_encodeChar {a c : Char} (ha : a.toNat < 128)
    (h : UInt8.ofNat a.toNat ∈ String.utf8EncodeChar c) : c = a := by
  have hbyte : (UInt8.ofNat a.toNat).toNat = a.toNat := by
    rw [UInt8.toNat_ofNat', Nat.mod_eq_of_lt (by omega)]
  rcases Nat.lt_or_ge c.toNat 128 with hc | hc
  · rw [encodeChar_ascii hc, List.mem_singleton] at h
    have hnat := congrArg UInt8.toNat h
    rw [hbyte, UInt8.toNat_ofNat', Nat.mod_eq_of_lt (by omega)] at hnat
    exact (Char.toNat_inj.mp hnat).symm
  · have hle := le_of_mem_encodeChar hc h
    omega

/-- The bytes of an ASCII text are its code points. -/
theorem encode_ascii {s : List Char} (h : ∀ c ∈ s, c.toNat < 128) :
    encode s = s.map fun c => UInt8.ofNat c.toNat := by
  induction s with
  | nil => rfl
  | cons c s ih =>
      rw [encode_cons, encodeChar_ascii (h c List.mem_cons_self),
        ih fun d hd => h d (List.mem_cons_of_mem c hd)]
      rfl

/-- A text is ASCII as soon as all its bytes are. -/
theorem ascii_of_encode {s : List Char} (h : ∀ b ∈ encode s, b.toNat < 128) :
    ∀ c ∈ s, c.toNat < 128 := by
  intro c hc
  by_contra hge
  obtain ⟨b, bs, hb⟩ := List.exists_cons_of_ne_nil (String.utf8EncodeChar_ne_nil (c := c))
  have hmem : b ∈ String.utf8EncodeChar c := hb ▸ List.mem_cons_self
  have hle := le_of_mem_encodeChar (Nat.not_lt.mp hge) hmem
  have hlt := h b (List.mem_flatMap.mpr ⟨c, hc, hmem⟩)
  omega

/-- The text whose code points are the given bytes. -/
def ofAscii (b : List UInt8) : List Char :=
  b.map fun x => Char.ofNat x.toNat

theorem toNat_ofNat_of_lt {n : ℕ} (h : n < 128) : (Char.ofNat n).toNat = n := by
  have hvalid : n.isValidChar := Or.inl (by omega)
  rw [Char.ofNat, dif_pos hvalid]
  rfl

/-- ASCII bytes are the bytes of their text. -/
theorem encode_ofAscii {b : List UInt8} (h : ∀ x ∈ b, x.toNat < 128) :
    encode (ofAscii b) = b := by
  have hascii : ∀ c ∈ ofAscii b, c.toNat < 128 := by
    intro c hc
    obtain ⟨x, hx, rfl⟩ := List.mem_map.mp hc
    rw [toNat_ofNat_of_lt (h x hx)]
    exact h x hx
  rw [encode_ascii hascii, ofAscii, List.map_map]
  refine (List.map_congr_left fun x hx => ?_).trans (List.map_id b)
  rw [Function.comp_apply, toNat_ofNat_of_lt (h x hx), UInt8.ofNat_toNat, id_eq]

/-- An ASCII text is the text of its bytes. -/
theorem ofAscii_encode {s : List Char} (h : ∀ c ∈ s, c.toNat < 128) :
    ofAscii (encode s) = s := by
  refine encode_injective (encode_ofAscii fun x hx => ?_)
  rw [encode_ascii h] at hx
  obtain ⟨c, hc, rfl⟩ := List.mem_map.mp hx
  have hlt := h c hc
  rw [UInt8.toNat_ofNat', Nat.mod_eq_of_lt (by omega)]
  exact hlt

/-! ### Cutting at a byte offset -/

/-- The cut of a text at a byte offset, or nothing when the offset is past the end or
inside a character. -/
def splitAtByte : List Char → ℕ → Option (List Char × List Char)
  | s, 0 => some ([], s)
  | [], _ + 1 => none
  | c :: s, n + 1 =>
      if c.utf8Size ≤ n + 1 then
        (splitAtByte s (n + 1 - c.utf8Size)).map fun p => (c :: p.1, p.2)
      else none

@[simp] theorem splitAtByte_zero (s : List Char) : splitAtByte s 0 = some ([], s) := by
  rw [splitAtByte]

theorem splitAtByte_cons_add (c : Char) (s : List Char) (n : ℕ) :
    splitAtByte (c :: s) (n + c.utf8Size) =
      (splitAtByte s n).map fun p => (c :: p.1, p.2) := by
  obtain ⟨k, hk⟩ : ∃ k, c.utf8Size = k + 1 :=
    ⟨c.utf8Size - 1, by have := c.utf8Size_pos; omega⟩
  have hsub : n + k + 1 - c.utf8Size = n := by omega
  rw [hk, ← Nat.add_assoc, splitAtByte, if_pos (by omega), hsub]

/-- The byte offsets, counted from `k`, at which the ASCII character `a` stands. -/
def offsets (a : Char) (s : List Char) (k : ℕ) : List ℕ :=
  (((encode s).zipIdx k).filter fun p => p.1 == UInt8.ofNat a.toNat).map Prod.snd

/-- The splits of a text before each occurrence of `a`, from left to right. -/
def splitsBefore (a : Char) : List Char → List (List Char × List Char)
  | [] => []
  | c :: s =>
      let later := (splitsBefore a s).map fun p => (c :: p.1, p.2)
      if c = a then ([], c :: s) :: later else later

theorem offsets_cons {a : Char} (ha : a.toNat < 128) (c : Char) (s : List Char) (k : ℕ) :
    offsets a (c :: s) k =
      if c = a then k :: offsets a s (k + c.utf8Size) else offsets a s (k + c.utf8Size) := by
  have hsplit : offsets a (c :: s) k =
      (((String.utf8EncodeChar c).zipIdx k).filter
          fun p => p.1 == UInt8.ofNat a.toNat).map Prod.snd ++
        offsets a s (k + c.utf8Size) := by
    rw [offsets, encode_cons, List.zipIdx_append, List.filter_append, List.map_append,
      String.length_utf8EncodeChar]
    rfl
  by_cases hc : c = a
  · rw [hsplit, if_pos hc, hc, encodeChar_ascii ha]
    simp
  · have hnone : ((String.utf8EncodeChar c).zipIdx k).filter
        (fun p => p.1 == UInt8.ofNat a.toNat) = [] := by
      refine List.filter_eq_nil_iff.mpr fun p hp => ?_
      rw [beq_iff_eq]
      intro hpa
      refine hc (byte_of_mem_encodeChar ha ?_)
      rw [← hpa]
      exact List.fst_mem_of_mem_zipIdx hp
    rw [hsplit, if_neg hc, hnone, List.map_nil, List.nil_append]

/-- Counting offsets from `k` shifts them all by `k`. -/
theorem offsets_add {a : Char} (ha : a.toNat < 128) (s : List Char) (k : ℕ) :
    offsets a s k = (offsets a s 0).map (· + k) := by
  induction s generalizing k with
  | nil => rfl
  | cons c s ih =>
      have hshift : offsets a s (k + c.utf8Size) =
          (offsets a s (0 + c.utf8Size)).map (· + k) := by
        rw [ih (k + c.utf8Size), ih (0 + c.utf8Size), List.map_map]
        refine List.map_congr_left fun n _ => ?_
        simp only [Function.comp_apply]
        omega
      rw [offsets_cons ha, offsets_cons ha, hshift]
      by_cases hc : c = a
      · simp [hc]
      · simp [hc]

/-- **Every offset of an ASCII character is a boundary**, and the cuts there are the
splits of the text before that character. -/
theorem splitAtByte_offsets {a : Char} (ha : a.toNat < 128) (s : List Char) :
    (offsets a s 0).map (splitAtByte s) = (splitsBefore a s).map some := by
  induction s with
  | nil => rfl
  | cons c s ih =>
      have hlater : (offsets a s (0 + c.utf8Size)).map (splitAtByte (c :: s)) =
          ((splitsBefore a s).map fun p => (c :: p.1, p.2)).map some := by
        have hcut : splitAtByte (c :: s) ∘ (· + (0 + c.utf8Size)) =
            (Option.map fun p => (c :: p.1, p.2)) ∘ splitAtByte s := by
          funext n
          rw [Nat.zero_add]
          exact splitAtByte_cons_add c s n
        rw [offsets_add ha, List.map_map, hcut, ← List.map_map, ih, List.map_map,
          List.map_map]
        rfl
      rw [offsets_cons ha, splitsBefore]
      by_cases hc : c = a
      · rw [if_pos hc, if_pos hc, List.map_cons, List.map_cons, hlater]
        rfl
      · rw [if_neg hc, if_neg hc, hlater]

/-! ### The splits before a character -/

/-- The splits before `a` are exactly the ways to cut the text in front of an `a`. -/
theorem mem_splitsBefore {a : Char} {s l r : List Char} :
    (l, r) ∈ splitsBefore a s ↔ l ++ r = s ∧ r.head? = some a := by
  induction s generalizing l with
  | nil =>
      simp only [splitsBefore, List.not_mem_nil, List.append_eq_nil_iff, false_iff]
      rintro ⟨⟨-, rfl⟩, hr⟩
      simp at hr
  | cons c s ih =>
      have hlater : (l, r) ∈ (splitsBefore a s).map (fun p => (c :: p.1, p.2)) ↔
          ∃ l', l = c :: l' ∧ l' ++ r = s ∧ r.head? = some a := by
        rw [List.mem_map]
        constructor
        · rintro ⟨⟨l', r'⟩, hmem, heq⟩
          obtain ⟨rfl, rfl⟩ := Prod.mk.inj heq
          exact ⟨l', rfl, ih.mp hmem⟩
        · rintro ⟨l', rfl, hsplit⟩
          exact ⟨(l', r), ih.mpr hsplit, rfl⟩
      rw [splitsBefore]
      by_cases hc : c = a
      · rw [if_pos hc, List.mem_cons, hlater, Prod.mk.injEq]
        constructor
        · rintro (⟨rfl, rfl⟩ | ⟨l', rfl, hsplit, hr⟩)
          · exact ⟨rfl, by rw [List.head?_cons, hc]⟩
          · exact ⟨by rw [List.cons_append, hsplit], hr⟩
        · rintro ⟨hsplit, hr⟩
          rcases l with - | ⟨x, l'⟩
          · exact Or.inl ⟨rfl, hsplit⟩
          · obtain ⟨rfl, rfl⟩ := List.cons.inj hsplit
            exact Or.inr ⟨l', rfl, rfl, hr⟩
      · rw [if_neg hc, hlater]
        constructor
        · rintro ⟨l', rfl, hsplit, hr⟩
          exact ⟨by rw [List.cons_append, hsplit], hr⟩
        · rintro ⟨hsplit, hr⟩
          rcases l with - | ⟨x, l'⟩
          · rw [List.nil_append] at hsplit
            rw [hsplit, List.head?_cons, Option.some.injEq] at hr
            exact absurd hr hc
          · obtain ⟨rfl, rfl⟩ := List.cons.inj hsplit
            exact ⟨l', rfl, rfl, hr⟩

/-- The splits come in strictly increasing order of the length of their left part. -/
theorem pairwise_splitsBefore (a : Char) (s : List Char) :
    (splitsBefore a s).Pairwise fun p q => p.1.length < q.1.length := by
  induction s with
  | nil => exact List.Pairwise.nil
  | cons c s ih =>
      have hlater : ((splitsBefore a s).map fun p => (c :: p.1, p.2)).Pairwise
          fun p q => p.1.length < q.1.length := by
        refine List.pairwise_map.mpr (ih.imp fun h => ?_)
        simp only [List.length_cons]
        omega
      rw [splitsBefore]
      by_cases hc : c = a
      · rw [if_pos hc]
        refine List.pairwise_cons.mpr ⟨fun q hq => ?_, hlater⟩
        obtain ⟨p, -, rfl⟩ := List.mem_map.mp hq
        simp
      · rw [if_neg hc]
        exact hlater

/-- There is one split for each occurrence of `a`. -/
theorem length_splitsBefore (a : Char) (s : List Char) :
    (splitsBefore a s).length = s.countP fun c => c = a := by
  induction s with
  | nil => rfl
  | cons c s ih =>
      rw [splitsBefore, List.countP_cons]
      by_cases hc : c = a
      · simp [hc, ih]
      · simp [hc, ih]

end Utf8
