import SplatLisp.Form.Text
import SplatLisp.Value

/-!
# The text of a value

`Value.rendering` writes data as the forms that read back as it, functions by their header,
primitives and types by their names, and leaves host values to themselves. A host value may fail
to render; nothing is written after the first that does, and the whole value fails with it.
-/

namespace SplatLisp

namespace Fun

/-- The parameters as they stand in the header, the rest parameter with its splat mark. -/
def paramTexts (fn : Fun) : List String :=
  fn.params.map Symbol.name ++ fn.rest.toList.map (·.name ++ "..")

/-- The header of a function, with dots for its body. -/
def text (fn : Fun) : String :=
  "(fun " ++ fn.name.elim "" (·.name ++ " ") ++ "(" ++ " ".intercalate fn.paramTexts ++ ") ...)"

end Fun

namespace Value

open Writing (put replay)

mutual

def write : Value → Writing Unit
  | nil => put "_"
  | bool b => put (if b then "T" else "F")
  | int n => put (.ofList (Decimal.ofInt n.toInt))
  | vec items => do
    put "["
    writeItems items
    put "]"
  | splat inner => do
    write inner
    put ".."
  | fn closure => put closure.fn.text
  | prim p => put ("Prim(" ++ p.name ++ ")")
  | type t => put t.name
  | host value => replay value.data.rendering

/-- Writes items with spaces between them. -/
def writeItems : List Value → Writing Unit
  | [] => pure ()
  | item :: items => do
    write item
    writeMore items

/-- Writes further items, each after a space. -/
def writeMore : List Value → Writing Unit
  | [] => pure ()
  | item :: items => do
    put " "
    write item
    writeMore items

end

/-- What rendering a value comes to. -/
def rendering (value : Value) : Rendering := (write value).rendering

def text (value : Value) : String := value.rendering.text

/-- What rendering a sequence of values on one line comes to. -/
def lineRendering (values : List Value) : Rendering := (writeItems values).rendering

end Value

end SplatLisp
