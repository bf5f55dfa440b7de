/-!
# Decoding UTF-8

`Utf8.decode` gives the characters of a sequence of bytes. Where bytes are not well formed, each
maximal part of them that starts a well-formed sequence without completing it counts as one
replacement character, and so does every other byte that cannot start one.
-/

namespace SplatLisp.Utf8

/-- The replacement character, U+FFFD. -/
def replacement : Char := '\uFFFD'

/-- What may follow a first byte: the range of the second byte, and how many bytes come after that
one. Later bytes range from 80 to BF. -/
def following (first : Nat) : Option (Nat × Nat × Nat) :=
  if 0xC2 ≤ first ∧ first ≤ 0xDF then some (0x80, 0xBF, 0)
  else if first = 0xE0 then some (0xA0, 0xBF, 1)
  else if first = 0xED then some (0x80, 0x9F, 1)
  else if 0xE1 ≤ first ∧ first ≤ 0xEF then some (0x80, 0xBF, 1)
  else if first = 0xF0 then some (0x90, 0xBF, 2)
  else if 0xF1 ≤ first ∧ first ≤ 0xF3 then some (0x80, 0xBF, 2)
  else if first = 0xF4 then some (0x80, 0x8F, 2)
  else none

/-- The part of a code point that the first byte of a sequence with `more` further bytes holds. -/
def leadingBits (first more : Nat) : Nat :=
  match more with
  | 0 => first % 0x20
  | 1 => first % 0x10
  | _ => first % 0x08

/-- What a sequence is decoded to while bytes are awaited: its code point so far, the range of the
next byte, and how many come after that one. -/
structure Started where
  code : Nat
  low : Nat
  high : Nat
  more : Nat

/-- Decodes bytes; `open?` is the sequence that has been started, and `done` are the characters
before it, the latest first. -/
def decodeFrom (open? : Option Started) (done : List Char) : List UInt8 → List Char
  | [] => (if open?.isSome then replacement :: done else done).reverse
  | byte :: bytes =>
    let b := byte.toNat
    let start (done : List Char) : Option Started × List Char :=
      if b < 0x80 then (none, Char.ofNat b :: done)
      else match following b with
        | some (low, high, more) => (some ⟨leadingBits b more, low, high, more⟩, done)
        | none => (none, replacement :: done)
    let (next, done) := match open? with
      | none => start done
      | some p =>
        if p.low ≤ b ∧ b ≤ p.high then
          let code := p.code * 0x40 + b % 0x40
          match p.more with
          | 0 => (none, Char.ofNat code :: done)
          | more + 1 => (some ⟨code, 0x80, 0xBF, more⟩, done)
        else start (replacement :: done)
    decodeFrom next done bytes

/-- The characters of a sequence of bytes. -/
def decode (bytes : ByteArray) : List Char := decodeFrom none [] bytes.toList

end SplatLisp.Utf8
