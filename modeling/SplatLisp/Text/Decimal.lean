import SplatLisp.Number

/-!
# Decimal numerals

A numeral is an optional minus sign and at least one ASCII digit. Writing gives the shortest
numeral, without leading zeros; reading accepts every numeral and gives back what was written
(`toInt?_ofInt`). `toInt64?` reads 64-bit integers, and does not compute the integers that long
numerals denote to find them out of range (`toInt64?_eq`).
-/

namespace SplatLisp.Decimal

/-- The shortest numeral of an integer. -/
def ofInt : Int → List Char
  | .ofNat n => Nat.toDigits 10 n
  | .negSucc n => '-' :: Nat.toDigits 10 (n + 1)

/-- Whether characters are digits, at least one. -/
def IsDigits (cs : List Char) : Prop := cs ≠ [] ∧ cs.all Char.isDigit

instance (cs : List Char) : Decidable (IsDigits cs) := inferInstanceAs (Decidable (_ ∧ _))

/-- A sequence of at least one digit, read as a natural number. -/
def toNat? (digits : List Char) : Option Nat :=
  if IsDigits digits then some (Nat.ofDigitChars 10 digits 0) else none

/-- A numeral, read as an integer of any size. -/
def toInt? : List Char → Option Int
  | '-' :: digits => (toNat? digits).map fun n => -(n : Int)
  | digits => (toNat? digits).map fun n => (n : Int)

/-- A bound on the magnitudes that are told apart: no integer of this magnitude is in range. -/
def magnitudeLimit : Nat := 0x8000000000000001

/-- The natural number that digits denote, or `magnitudeLimit` if it is greater. -/
def magnitude (digits : List Char) : Nat :=
  digits.foldl (fun n c => min magnitudeLimit (10 * n + (c.toNat - '0'.toNat))) 0

/-- A numeral, read as a 64-bit integer, if the integer is in range. -/
def toInt64? : List Char → Option (Option Int64)
  | '-' :: digits =>
    if IsDigits digits then some (int64? (-(magnitude digits : Int))) else none
  | digits => if IsDigits digits then some (int64? (magnitude digits)) else none

def text (n : Nat) : String := .ofList (ofInt n)

theorem toNat?_toDigits (n : Nat) : toNat? (Nat.toDigits 10 n) = some n := by
  have hdigit : (Nat.toDigits 10 n).all Char.isDigit = true :=
    List.all_eq_true.2 fun c hc => Nat.isDigit_of_mem_toDigits (by decide) (by decide) hc
  rw [toNat?, if_pos ⟨Nat.toDigits_ne_nil, hdigit⟩, Nat.ofDigitChars_ten_toDigits]

/-- The digits of a natural number do not start with a minus sign. -/
theorem toDigits_ne_minus (n : Nat) (rest : List Char) : Nat.toDigits 10 n ≠ '-' :: rest := by
  intro h
  have hc : '-' ∈ Nat.toDigits 10 n := by rw [h]; exact List.mem_cons_self
  exact absurd (Nat.isDigit_of_mem_toDigits (by decide) (by decide) hc) (by decide)

/-- What is written is read back. -/
theorem toInt?_ofInt (n : Int) : toInt? (ofInt n) = some n := by
  cases n with
  | ofNat n =>
    unfold ofInt toInt?
    split
    · next h => exact absurd h (toDigits_ne_minus n _)
    · rw [toNat?_toDigits]; rfl
  | negSucc n =>
    simp only [ofInt, toInt?, toNat?_toDigits]
    rfl

theorem magnitude_eq (digits : List Char) :
    magnitude digits = min magnitudeLimit (Nat.ofDigitChars 10 digits 0) := by
  have hfold : ∀ (n m : Nat), n = min magnitudeLimit m →
      digits.foldl (fun n c => min magnitudeLimit (10 * n + (c.toNat - '0'.toNat))) n =
        min magnitudeLimit (Nat.ofDigitChars 10 digits m) := by
    induction digits with
    | nil => exact fun n m h => h
    | cons c cs ih =>
      intro n m h
      rw [Nat.ofDigitChars_cons, List.foldl_cons]
      apply ih
      unfold magnitudeLimit at *
      omega
  exact hfold 0 0 rfl

/-- Magnitudes beyond the limit are out of range, whatever they are. -/
theorem int64?_magnitude (digits : List Char) :
    int64? (magnitude digits) = int64? (Nat.ofDigitChars 10 digits 0 : Nat) ∧
      int64? (-(magnitude digits : Int)) = int64? (-(Nat.ofDigitChars 10 digits 0 : Nat)) := by
  have hmin : Int64.minValue.toInt = -9223372036854775808 := rfl
  have hmax : Int64.maxValue.toInt = 9223372036854775807 := rfl
  rw [magnitude_eq]
  rcases Nat.le_total (Nat.ofDigitChars 10 digits 0) magnitudeLimit with hle | hle
  · rw [Nat.min_eq_right hle]
    exact ⟨rfl, rfl⟩
  · rw [Nat.min_eq_left hle]
    unfold magnitudeLimit at *
    constructor
    all_goals
      rw [int64?_eq_none_iff.2, int64?_eq_none_iff.2] <;>
        simp only [InRange, hmin, hmax] <;> omega

/-- A numeral is read as the integer it denotes, if that is in range. -/
theorem toInt64?_eq (cs : List Char) : toInt64? cs = (toInt? cs).map int64? := by
  unfold toInt64? toInt? toNat?
  split
  · split <;> simp [int64?_magnitude]
  · split <;> simp [int64?_magnitude]

end SplatLisp.Decimal
