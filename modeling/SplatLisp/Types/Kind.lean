import SplatLisp.Text.Decimal

/-!
# Built-in kinds and type ids

The eight kinds that every value other than a host value belongs to. Their type ids are their places
in `Kind.all`; later ids belong to host types.
-/

namespace SplatLisp

inductive Kind where
  | bool
  | fn
  | int
  | type
  | nil
  | prim
  | splat
  | vec
deriving DecidableEq, Inhabited

/-- A place in the type registry. -/
structure TypeId where
  index : Nat
deriving DecidableEq, Inhabited

namespace Kind

def all : List Kind := [bool, fn, int, type, nil, prim, splat, vec]

/-- The name of a kind, under which it is registered. -/
def name : Kind → String
  | bool => "Bool"
  | fn => "Fun"
  | int => "Int"
  | type => "Meta"
  | nil => "Nil"
  | prim => "Prim"
  | splat => "Splat"
  | vec => "Vec"

def id : Kind → TypeId
  | bool => ⟨0⟩
  | fn => ⟨1⟩
  | int => ⟨2⟩
  | type => ⟨3⟩
  | nil => ⟨4⟩
  | prim => ⟨5⟩
  | splat => ⟨6⟩
  | vec => ⟨7⟩

/-- The kind with an id, if the id belongs to one. -/
def ofId? (id : TypeId) : Option Kind := all[id.index]?

@[simp] theorem ofId?_id (kind : Kind) : ofId? kind.id = some kind := by
  cases kind <;> rfl

/-- A kind's id is its place among all kinds. -/
theorem ofId?_eq_some_iff {kind : Kind} {typeId : TypeId} :
    ofId? typeId = some kind ↔ kind.id = typeId := by
  constructor
  · intro h
    obtain ⟨index⟩ := typeId
    have hlt : index < 8 := (List.getElem?_eq_some_iff.1 h).1
    have : index = 0 ∨ index = 1 ∨ index = 2 ∨ index = 3 ∨ index = 4 ∨ index = 5 ∨ index = 6 ∨
      index = 7 := by omega
    rcases this with rfl | rfl | rfl | rfl | rfl | rfl | rfl | rfl <;> cases h <;> rfl
  · rintro rfl
    exact ofId?_id kind

end Kind

namespace TypeId

/-- The first id of a host type. -/
def firstHost : Nat := 8

def isBuiltin (id : TypeId) : Bool := id.index < firstHost

/-- The id in words: by the name of its kind, or else by its number. -/
def inspect (id : TypeId) : String :=
  "TypeId(" ++ ((Kind.ofId? id).elim (Decimal.text id.index) Kind.name) ++ ")"

end TypeId

end SplatLisp
