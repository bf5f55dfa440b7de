import SplatLisp.Form

/-!
# Equality of forms

Two forms are the same if they have the same parts at the same places (`Form.same`); symbols count
as the same if their tags are. `Form.sameKind` leaves out the places of the two forms themselves
and compares those of their parts.
-/

namespace SplatLisp.Form

mutual

/-- Whether two forms agree in all but their own places. -/
def sameKind : Form → Form → Bool
  | atom a _, atom b _ => a == b
  | group b xs _, group c ys _ => b == c && sameItems xs ys
  | splat x _, splat y _ => sameKind x y && x.pos == y.pos
  | _, _ => false

/-- Whether two sequences of forms are the same. -/
def sameItems : List Form → List Form → Bool
  | [], [] => true
  | x :: xs, y :: ys => sameKind x y && x.pos == y.pos && sameItems xs ys
  | _, _ => false

end

/-- Whether two forms are the same, places included. -/
def same (f g : Form) : Bool := f.sameKind g && f.pos == g.pos

instance : BEq Form := ⟨same⟩

end SplatLisp.Form
