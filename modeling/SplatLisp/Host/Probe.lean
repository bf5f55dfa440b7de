import SplatLisp.Value

/-!
# Probe values

A kind of host data whose values exercise every way in which rendering can end: numbers render
under the name of their type, except that negative ones give up half way and one of them writes to
a sink that takes nothing, and texts refuse at once. Numbers other than zero are truthy.
-/

namespace SplatLisp

inductive Probe where
  | number (n : Int64)
  | text (text : String)
deriving Inhabited

namespace Probe

/-- The number whose rendering is not taken. -/
def unwritable : Int64 := 666

/-- What rendering a probe of a type comes to. -/
def rendering (type : TypeInfo) : Probe → Rendering
  | number n =>
    if n = unwritable then ⟨"", some .sinkRefused⟩
    else if n < 0 then ⟨"partial", some (.valueRefused type.name "negative")⟩
    else .ofText (type.name ++ "(" ++ .ofList (Decimal.ofInt n.toInt) ++ ")")
  | text _ => ⟨"", some (.valueRefused type.name "bad payload")⟩

/-- How a probe of a type behaves. -/
def data (type : TypeInfo) (probe : Probe) : HostData where
  truthy := match probe with
    | number n => n != 0
    | text _ => false
  rendering := probe.rendering type

end Probe

end SplatLisp
