import SplatLisp.Form
import SplatLisp.Rendering
import SplatLisp.Types.Registry

/-!
# Values

What evaluation gives. Data is nil, booleans, integers, and vectors of values; a splat marks an
iterable value whose items are to be spread; functions close over an environment, primitives are
carried out by the evaluator, types are values too, and a host value belongs to a type of the
surrounding program, which may also have primitives of its own. Functions, primitives and host
values carry the identity they were made with, which is all that tells them apart.
-/

namespace SplatLisp

/-- The number that tells one made thing from all others. -/
abbrev Identity := Nat

/-- A handle to a frame of bindings. -/
structure Env where
  index : Nat
deriving DecidableEq, Inhabited

/-- The definition part of a function. -/
structure Fun where
  identity : Identity
  name : Option Symbol
  params : List Symbol
  /-- The parameter that takes the arguments left over, if there is one. -/
  rest : Option Symbol
  body : List Form

namespace Fun

def minArgs (fn : Fun) : Nat := fn.params.length

def maxArgs (fn : Fun) : Option Nat := if fn.rest.isSome then none else some fn.params.length

end Fun

/-- A function with the environment that it was made in. -/
structure Closure where
  fn : Fun
  env : Env

/-- What a primitive does with its argument forms. -/
inductive PrimOp where
  /-- Evaluates the forms in order. -/
  | sequence
  /-- Evaluates the second form or the third, as the first one tells. -/
  | branch
  /-- Evaluates forms with further bindings. -/
  | bindings
  | function
  | typeOf
  | dump
  | add
  | subtract
  | equal
  /-- What the surrounding program has under a code. -/
  | host (code : Nat)
deriving DecidableEq, Inhabited

/-- A primitive: its operation, and how many argument forms it takes. -/
structure Prim where
  identity : Identity
  name : String
  minArgs : Nat
  maxArgs : Option Nat
  op : PrimOp

/-- How a host value behaves. The surrounding program decides about it whenever it is asked; that it
gives the same answers every time is assumed here. -/
structure HostData where
  truthy : Bool
  rendering : Rendering
deriving Inhabited

/-- A value of a host type. -/
structure HostValue where
  identity : Identity
  type : TypeInfo
  data : HostData

/-- Makes a host value; only host types have any. -/
def HostValue.ofType? (identity : Identity) (type : TypeInfo) (data : HostData) :
    Option HostValue :=
  if type.isHost then some ⟨identity, type, data⟩ else none

inductive Value where
  | nil
  | bool (b : Bool)
  | int (n : Int64)
  | vec (items : List Value)
  | splat (inner : Value)
  | fn (closure : Closure)
  | prim (prim : Prim)
  | type (type : TypeInfo)
  | host (value : HostValue)
deriving Inhabited

namespace Value

/-- The built-in kind of a value; host values have none. -/
def kind? : Value → Option Kind
  | nil => some .nil
  | bool _ => some .bool
  | int _ => some .int
  | vec _ => some .vec
  | splat _ => some .splat
  | fn _ => some .fn
  | prim _ => some .prim
  | type _ => some .type
  | host _ => none

def typeId : Value → TypeId
  | host value => value.type.id
  | value => (value.kind?.getD .nil).id

/-- Whether a value counts as true: nil and false do not, and host values decide for themselves. -/
def truthy : Value → Bool
  | nil => false
  | bool b => b
  | host value => value.data.truthy
  | _ => true

def isNil : Value → Bool
  | nil => true
  | _ => false

/-- The integer that a value is, if it is one. -/
def int? : Value → Option Int64
  | int n => some n
  | _ => none

/-- The items of an iterable value: nil has none, a vector its own, a splat those of its value. -/
def items? : Value → Option (List Value)
  | nil => some []
  | vec items => some items
  | splat inner => inner.items?
  | _ => none

end Value

/-- The type of a value in a registry. -/
def TypeRegistry.typeOf (registry : TypeRegistry) : Value → TypeInfo
  | .host value => value.type
  | value => registry.ofKind (value.kind?.getD .nil)

end SplatLisp
