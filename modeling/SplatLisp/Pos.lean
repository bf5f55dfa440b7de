import SplatLisp.Text.Decimal

/-!
# Source positions

A position names a source and counts rows and columns from one. `Pos.advance` steps over one
character; rows and columns stop growing at `Pos.limit`.
-/

namespace SplatLisp

structure Pos where
  /-- What the text is called: a file name, or a label. -/
  source : String
  row : Nat
  col : Nat
deriving DecidableEq, Inhabited

namespace Pos

/-- The largest row and the largest column. -/
def limit : Nat := 4294967295

def start (source : String) : Pos := ⟨source, 1, 1⟩

/-- The next row or column, if there is one. -/
def bump (n : Nat) : Nat := if n < limit then n + 1 else n

/-- The place after a character: a line feed leads to the first column of the next row, every
other character one column on. -/
def advance (pos : Pos) (c : Char) : Pos :=
  if c = '\n' then { pos with row := bump pos.row, col := 1 } else { pos with col := bump pos.col }

def advanceAll (pos : Pos) (cs : List Char) : Pos := cs.foldl advance pos

@[simp] theorem advanceAll_nil (pos : Pos) : pos.advanceAll [] = pos := rfl

@[simp] theorem advanceAll_cons (pos : Pos) (c : Char) (cs : List Char) :
    pos.advanceAll (c :: cs) = (pos.advance c).advanceAll cs := rfl

theorem advanceAll_append (pos : Pos) (cs ds : List Char) :
    pos.advanceAll (cs ++ ds) = (pos.advanceAll cs).advanceAll ds := by
  simp [advanceAll]

@[simp] theorem advance_source (pos : Pos) (c : Char) : (pos.advance c).source = pos.source := by
  unfold advance
  split <;> rfl

/-- Whether a place does not come before another: rows decide, then columns. The sources are not
looked at. -/
def isAtOrAfter (pos other : Pos) : Bool :=
  other.row < pos.row || (pos.row = other.row && other.col ≤ pos.col)

/-- The place in words, as the header of a read error gives it. -/
def text (pos : Pos) : String :=
  "'" ++ pos.source ++ "'; row " ++ Decimal.text pos.row ++ ", col " ++ Decimal.text pos.col

/-- The place in short: source, row and column between colons. -/
def inspect (pos : Pos) : String :=
  pos.source ++ ":" ++ Decimal.text pos.row ++ ":" ++ Decimal.text pos.col

end Pos

end SplatLisp
