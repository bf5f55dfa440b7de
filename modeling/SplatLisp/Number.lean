/-!
# Integers of 64 bits

Arithmetic that is exact or says so: an operation gives no result where the mathematical one lies
outside the range of 64-bit integers. Nothing wraps.
-/

namespace SplatLisp

/-- Whether a 64-bit integer can hold an integer. -/
def InRange (n : Int) : Prop := Int64.minValue.toInt ≤ n ∧ n ≤ Int64.maxValue.toInt

instance (n : Int) : Decidable (InRange n) := inferInstanceAs (Decidable (_ ∧ _))

/-- The 64-bit integer with a value, if there is one. -/
def int64? (n : Int) : Option Int64 := if InRange n then some (.ofInt n) else none

theorem inRange_toInt (n : Int64) : InRange n.toInt :=
  ⟨n.minValue_le_toInt, n.toInt_le⟩

/-- The result has the value asked for. -/
theorem toInt_of_int64? {n : Int} {m : Int64} (h : int64? n = some m) : m.toInt = n := by
  unfold int64? at h
  split at h
  · next hn =>
    cases h
    exact Int64.toInt_ofInt_of_le hn.1 (Int.lt_add_one_of_le hn.2)
  · cases h

theorem int64?_toInt (n : Int64) : int64? n.toInt = some n := by
  rw [int64?, if_pos (inRange_toInt n), Int64.ofInt_toInt]

theorem int64?_eq_none_iff {n : Int} : int64? n = none ↔ ¬ InRange n := by
  unfold int64?
  split <;> simp_all

def add? (a b : Int64) : Option Int64 := int64? (a.toInt + b.toInt)

def sub? (a b : Int64) : Option Int64 := int64? (a.toInt - b.toInt)

def neg? (a : Int64) : Option Int64 := int64? (-a.toInt)

/-- The sum of a sequence, if all its partial sums from the left are in range. -/
def sum? (ns : List Int64) : Option Int64 := ns.foldlM add? 0

/-- The first of a sequence less all the others, if all partial differences are in range. A single
integer changes its sign, and an empty sequence gives zero. -/
def difference? : List Int64 → Option Int64
  | [] => some 0
  | [n] => neg? n
  | n :: ns => ns.foldlM sub? n

end SplatLisp
