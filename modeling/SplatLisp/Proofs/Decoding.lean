import SplatLisp.Text.Utf8

/-!
# Decoding what is encoded

Decoding gives back the characters of a text from its bytes (`Utf8.decode_utf8`). Each character
comes to one, two, three or four bytes, and the decoder, if it is not amid a sequence, takes just
those for it (`Utf8.decodeFrom_char`): the first byte says how many follow, and in which range the
second one is, and each byte brings six bits more.
-/

namespace SplatLisp.Utf8

variable {done : List Char} {bytes : List UInt8} {byte : UInt8} {code low high more : Nat}

/-! ## The decoder, byte by byte -/

theorem decodeFrom_ascii (h : byte.toNat < 0x80) :
    decodeFrom none done (byte :: bytes) =
      decodeFrom none (Char.ofNat byte.toNat :: done) bytes := by
  simp [decodeFrom, h]

theorem decodeFrom_first (h : following byte.toNat = some (low, high, more)) :
    decodeFrom none done (byte :: bytes) =
      decodeFrom (some ⟨leadingBits byte.toNat more, low, high, more⟩) done bytes := by
  have hlarge : ¬ byte.toNat < 0x80 := by
    intro hsmall
    unfold following at h
    repeat rw [if_neg (by omega)] at h
    cases h
  simp [decodeFrom, hlarge, h]

theorem decodeFrom_next (h : low ≤ byte.toNat ∧ byte.toNat ≤ high) :
    decodeFrom (some ⟨code, low, high, more + 1⟩) done (byte :: bytes) =
      decodeFrom (some ⟨code * 0x40 + byte.toNat % 0x40, 0x80, 0xBF, more⟩) done bytes := by
  simp [decodeFrom, h]

theorem decodeFrom_last (h : low ≤ byte.toNat ∧ byte.toNat ≤ high) :
    decodeFrom (some ⟨code, low, high, 0⟩) done (byte :: bytes) =
      decodeFrom none (Char.ofNat (code * 0x40 + byte.toNat % 0x40) :: done) bytes := by
  simp [decodeFrom, h]

/-! ## Characters -/

/-- The bytes of a later part of a sequence. -/
def later (n : Nat) : UInt8 := UInt8.ofNat (n % 64 + 128)

theorem toNat_later (n : Nat) : (later n).toNat = n % 64 + 128 := by
  simp only [later, UInt8.toNat_ofNat']
  omega

/-- A code point is no surrogate, and not too large. -/
theorem toNat_char (c : Char) : c.toNat < 0xD800 ∨ 0xDFFF < c.toNat ∧ c.toNat < 0x110000 := c.valid

theorem following_two {n : Nat} (h : 0x7F < n) (h' : n ≤ 0x7FF) :
    following (n / 64 + 192) = some (0x80, 0xBF, 0) := by
  unfold following
  rw [if_pos (by omega)]

/-- The byte after the first of three rules out what two bytes can say, and surrogates. -/
theorem following_three {n : Nat} (h : 0x7FF < n) (h' : n < 0xD800 ∨ 0xDFFF < n ∧ n ≤ 0xFFFF) :
    ∃ low high, following (n / 4096 + 224) = some (low, high, 1) ∧
      low ≤ n / 64 % 64 + 128 ∧ n / 64 % 64 + 128 ≤ high := by
  unfold following
  rw [if_neg (by omega)]
  split
  · exact ⟨_, _, rfl, by omega, by omega⟩
  · split
    · exact ⟨_, _, rfl, by omega, by omega⟩
    · rw [if_pos (by omega)]
      exact ⟨_, _, rfl, by omega, by omega⟩

/-- The byte after the first of four rules out what three bytes can say, and what is too large. -/
theorem following_four {n : Nat} (h : 0xFFFF < n) (h' : n < 0x110000) :
    ∃ low high, following (n / 262144 + 240) = some (low, high, 2) ∧
      low ≤ n / 4096 % 64 + 128 ∧ n / 4096 % 64 + 128 ≤ high := by
  unfold following
  iterate 4 rw [if_neg (by omega)]
  split
  · exact ⟨_, _, rfl, by omega, by omega⟩
  · split
    · exact ⟨_, _, rfl, by omega, by omega⟩
    · rw [if_pos (by omega)]
      exact ⟨_, _, rfl, by omega, by omega⟩

section Char

variable {c : Char}

theorem decodeFrom_one (h : c.toNat ≤ 0x7F) :
    decodeFrom none done (String.utf8EncodeChar c ++ bytes) =
      decodeFrom none (c :: done) bytes := by
  have hencode : String.utf8EncodeChar c = [UInt8.ofNat c.toNat] := if_pos h
  have hbyte : (UInt8.ofNat c.toNat).toNat = c.toNat := by
    rw [UInt8.toNat_ofNat']
    omega
  rw [hencode, List.singleton_append, decodeFrom_ascii (by omega), hbyte, Char.ofNat_toNat]

theorem decodeFrom_two (h : 0x7F < c.toNat) (h' : c.toNat ≤ 0x7FF) :
    decodeFrom none done (String.utf8EncodeChar c ++ bytes) =
      decodeFrom none (c :: done) bytes := by
  have hencode : String.utf8EncodeChar c =
      [UInt8.ofNat (c.toNat / 64 % 32 + 192), later c.toNat] :=
    (if_neg (Nat.not_le.2 h)).trans (if_pos h')
  have hbyte : (UInt8.ofNat (c.toNat / 64 % 32 + 192)).toNat = c.toNat / 64 + 192 := by
    rw [UInt8.toNat_ofNat']
    omega
  have hcode : (c.toNat / 64 + 192) % 0x20 * 0x40 + (c.toNat % 64 + 128) % 0x40 = c.toNat := by
    omega
  rw [hencode, List.cons_append, List.singleton_append,
    decodeFrom_first (by rw [hbyte]; exact following_two h h'),
    decodeFrom_last (by rw [toNat_later]; omega), hbyte, toNat_later, leadingBits, hcode,
    Char.ofNat_toNat]

theorem decodeFrom_three (h : 0x7FF < c.toNat) (h' : c.toNat ≤ 0xFFFF) :
    decodeFrom none done (String.utf8EncodeChar c ++ bytes) =
      decodeFrom none (c :: done) bytes := by
  have hvalid := toNat_char c
  obtain ⟨low, high, hfollowing, hrange⟩ := following_three (n := c.toNat) h (by omega)
  have hencode : String.utf8EncodeChar c =
      [UInt8.ofNat (c.toNat / 4096 % 16 + 224), later (c.toNat / 64), later c.toNat] :=
    (if_neg (by change ¬ c.toNat ≤ 127; omega)).trans
      ((if_neg (Nat.not_le.2 h)).trans (if_pos h'))
  have hbyte : (UInt8.ofNat (c.toNat / 4096 % 16 + 224)).toNat = c.toNat / 4096 + 224 := by
    rw [UInt8.toNat_ofNat']
    omega
  have hcode : ((c.toNat / 4096 + 224) % 0x10 * 0x40 + (c.toNat / 64 % 64 + 128) % 0x40) * 0x40 +
      (c.toNat % 64 + 128) % 0x40 = c.toNat := by
    omega
  rw [hencode, List.cons_append, List.cons_append, List.singleton_append,
    decodeFrom_first (by rw [hbyte]; exact hfollowing),
    decodeFrom_next (by rw [toNat_later]; exact hrange),
    decodeFrom_last (by rw [toNat_later]; omega), hbyte, toNat_later, toNat_later, leadingBits,
    hcode, Char.ofNat_toNat]

theorem decodeFrom_four (h : 0xFFFF < c.toNat) :
    decodeFrom none done (String.utf8EncodeChar c ++ bytes) =
      decodeFrom none (c :: done) bytes := by
  have hvalid := toNat_char c
  obtain ⟨low, high, hfollowing, hrange⟩ := following_four (n := c.toNat) h (by omega)
  have hencode : String.utf8EncodeChar c =
      [UInt8.ofNat (c.toNat / 262144 % 8 + 240), later (c.toNat / 4096), later (c.toNat / 64),
        later c.toNat] :=
    (if_neg (by change ¬ c.toNat ≤ 127; omega)).trans
      ((if_neg (by change ¬ c.toNat ≤ 2047; omega)).trans (if_neg (Nat.not_le.2 h)))
  have hbyte : (UInt8.ofNat (c.toNat / 262144 % 8 + 240)).toNat = c.toNat / 262144 + 240 := by
    rw [UInt8.toNat_ofNat']
    omega
  have hbits : leadingBits (c.toNat / 262144 + 240) 2 = (c.toNat / 262144 + 240) % 0x08 := rfl
  have hcode : (((c.toNat / 262144 + 240) % 0x08 * 0x40 +
      (c.toNat / 4096 % 64 + 128) % 0x40) * 0x40 + (c.toNat / 64 % 64 + 128) % 0x40) * 0x40 +
        (c.toNat % 64 + 128) % 0x40 = c.toNat := by
    omega
  rw [hencode, List.cons_append, List.cons_append, List.cons_append, List.singleton_append,
    decodeFrom_first (by rw [hbyte]; exact hfollowing),
    decodeFrom_next (by rw [toNat_later]; exact hrange),
    decodeFrom_next (by rw [toNat_later]; omega),
    decodeFrom_last (by rw [toNat_later]; omega), hbyte, toNat_later, toNat_later, toNat_later,
    hbits, hcode, Char.ofNat_toNat]

end Char

/-- What a character is encoded to is decoded to it. -/
theorem decodeFrom_char (c : Char) (done : List Char) (bytes : List UInt8) :
    decodeFrom none done (String.utf8EncodeChar c ++ bytes) =
      decodeFrom none (c :: done) bytes := by
  by_cases hone : c.toNat ≤ 0x7F
  · exact decodeFrom_one hone
  by_cases htwo : c.toNat ≤ 0x7FF
  · exact decodeFrom_two (Nat.not_le.1 hone) htwo
  by_cases hthree : c.toNat ≤ 0xFFFF
  · exact decodeFrom_three (Nat.not_le.1 htwo) hthree
  · exact decodeFrom_four (Nat.not_le.1 hthree)

theorem decodeFrom_chars (cs done : List Char) :
    decodeFrom none done (cs.flatMap String.utf8EncodeChar) = done.reverse ++ cs := by
  induction cs generalizing done with
  | nil => exact (List.append_nil _).symm
  | cons c cs ih =>
    rw [List.flatMap_cons, decodeFrom_char, ih, List.reverse_cons, List.append_assoc]
    rfl

/-! ## Texts -/

theorem toList_loop (bytes : ByteArray) (i : Nat) (front : List UInt8) :
    ByteArray.toList.loop bytes i front = front.reverse ++ bytes.data.toList.drop i := by
  fun_induction ByteArray.toList.loop bytes i front with
  | case1 i front hlt ih =>
    have hget : bytes.data.toList[i] = bytes.get! i := (getElem!_pos bytes.data i hlt).symm
    rw [ih, List.drop_eq_getElem_cons (show i < bytes.data.toList.length from hlt), hget,
      List.reverse_cons, List.append_assoc]
    rfl
  | case2 i front hlt =>
    have hdrop : bytes.data.toList.drop i = [] := List.drop_eq_nil_of_le (Nat.le_of_not_lt hlt)
    rw [hdrop, List.append_nil]

/-- **The bytes of a text are decoded to it.** -/
theorem decode_utf8 (text : String) : decode text.toUTF8 = text.toList := by
  have hbytes : text.toUTF8.toList = text.toList.flatMap String.utf8EncodeChar := by
    change ByteArray.toList text.toByteArray = _
    rw [ByteArray.toList, toList_loop, ← String.utf8Encode_toList]
    simp [List.utf8Encode]
  rw [decode, hbytes, decodeFrom_chars]
  rfl

end SplatLisp.Utf8
