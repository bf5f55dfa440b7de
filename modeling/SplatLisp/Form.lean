import SplatLisp.Pos
import SplatLisp.Symbol

/-!
# Forms

What a text reads as: atoms, groups in round or square brackets, and splats, each with the place of
its first character. A form in round brackets is a call, one in square brackets a vector; `x..` is
a splat, which spreads the items of `x` where it stands among arguments.
-/

namespace SplatLisp

inductive Bracket where
  | round
  | square
deriving DecidableEq, Inhabited

namespace Bracket

def opening : Bracket → Char
  | round => '('
  | square => '['

def closing : Bracket → Char
  | round => ')'
  | square => ']'

end Bracket

/-- A form without parts. -/
inductive Atom where
  | nil
  | bool (b : Bool)
  | int (n : Int64)
  | id (symbol : Symbol)
deriving BEq, Inhabited

/-- A form with its place in the source. -/
inductive Form where
  | atom (atom : Atom) (pos : Pos)
  | group (bracket : Bracket) (items : List Form) (pos : Pos)
  | splat (inner : Form) (pos : Pos)
deriving Inhabited

namespace Form

def pos : Form → Pos
  | atom _ pos => pos
  | group _ _ pos => pos
  | splat _ pos => pos

/-- The identifier that the form is, if it is one. -/
def id? : Form → Option Symbol
  | atom (.id symbol) _ => some symbol
  | _ => none

def items? : Form → Option (List Form)
  | group _ items _ => some items
  | _ => none

end Form

end SplatLisp
