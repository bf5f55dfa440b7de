import SplatLisp.Types.Kind
import Std.Data.ExtTreeMap.Lemmas

/-!
# The type registry

All types that a context knows, in the order of their ids: the built-in kinds, then the host types
as they were registered. A second index finds them by their names, of which no two are the same.
-/

namespace SplatLisp

/-- A registered type, which is also the value that stands for it. -/
structure TypeInfo where
  id : TypeId
  name : String
  /-- Whether the type was registered by the host. -/
  isHost : Bool
deriving Inhabited

namespace TypeInfo

/-- Types are compared by id. -/
instance : BEq TypeInfo := ⟨fun a b => a.id = b.id⟩

def ofKind (kind : Kind) : TypeInfo := ⟨kind.id, kind.name, false⟩

def inspect (type : TypeInfo) : String := "Meta(" ++ type.name ++ ", " ++ type.id.inspect ++ ")"

end TypeInfo

/-- Why a type is not registered. -/
inductive RegisterError where
  /-- There is a type of that name. -/
  | duplicate (name : String)
  /-- All type ids are in use. -/
  | full
deriving DecidableEq

def RegisterError.message : RegisterError → String
  | duplicate name => "duplicate type: " ++ name
  | full => "type registry is full"

/-- The registered types; the place of a type is its id. -/
structure TypeRegistry where
  types : Array TypeInfo
  /-- The types by their names. -/
  named : Std.ExtTreeMap String TypeInfo
deriving Inhabited

namespace TypeRegistry

def empty : TypeRegistry := ⟨#[], ∅⟩

/-- Files a type in both indexes. -/
def add (registry : TypeRegistry) (type : TypeInfo) : TypeRegistry :=
  ⟨registry.types.push type, registry.named.insert type.name type⟩

/-- The registry of the built-in kinds. -/
def builtins : TypeRegistry := (Kind.all.map TypeInfo.ofKind).foldl add empty

def size (registry : TypeRegistry) : Nat := registry.types.size

def get? (registry : TypeRegistry) (name : String) : Option TypeInfo := registry.named[name]?

def ofId? (registry : TypeRegistry) (id : TypeId) : Option TypeInfo := registry.types[id.index]?

def ofKind (registry : TypeRegistry) (kind : Kind) : TypeInfo :=
  (registry.ofId? kind.id).getD (.ofKind kind)

/-- The number of type ids that there are. -/
def limit : Nat := 4294967296

/-- Registers a host type under a name that is still free; it gets the next id, if there is one. -/
def register (registry : TypeRegistry) (name : String) :
    Except RegisterError (TypeInfo × TypeRegistry) :=
  match registry.get? name with
  | some _ => .error (.duplicate name)
  | none =>
    if registry.size < limit then
      let type : TypeInfo := ⟨⟨registry.size⟩, name, true⟩
      .ok (type, registry.add type)
    else .error .full

theorem get?_add (registry : TypeRegistry) (type : TypeInfo) (name : String) :
    (registry.add type).get? name = if type.name = name then some type else registry.get? name := by
  simp [get?, add, Std.ExtTreeMap.getElem?_insert]

theorem ofId?_add (registry : TypeRegistry) (type : TypeInfo) (id : TypeId) :
    (registry.add type).ofId? id =
      if id.index = registry.size then some type else registry.ofId? id :=
  Array.getElem?_push

@[simp] theorem size_add (registry : TypeRegistry) (type : TypeInfo) :
    (registry.add type).size = registry.size + 1 :=
  Array.size_push type

theorem ofId?_builtins (kind : Kind) : builtins.ofId? kind.id = some (.ofKind kind) := by
  cases kind <;> rfl

end TypeRegistry

end SplatLisp
