import SplatLisp.Value

/-!
# Equality of values

Data is compared by structure; functions, primitives and host values by identity, and types by id
(`Value.same`). A function is the same whatever handle it is reached by.
-/

namespace SplatLisp.Value

mutual

/-- Whether two values are equal. -/
def same : Value → Value → Bool
  | nil, nil => true
  | bool a, bool b => a == b
  | int a, int b => a == b
  | vec xs, vec ys => sameItems xs ys
  | splat x, splat y => same x y
  | fn a, fn b => a.fn.identity == b.fn.identity
  | prim a, prim b => a.identity == b.identity
  | type a, type b => a == b
  | host a, host b => a.identity == b.identity
  | _, _ => false

/-- Whether two sequences of values are equal item by item. -/
def sameItems : List Value → List Value → Bool
  | [], [] => true
  | x :: xs, y :: ys => same x y && sameItems xs ys
  | _, _ => false

end

instance : BEq Value := ⟨same⟩

end SplatLisp.Value
