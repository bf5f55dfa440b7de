import SplatLisp.Form

/-!
# The structure of a form, spelled out

`Form.inspect` names the constructor, the parts and the place of every form in a tree. Names are
written as they are.
-/

namespace SplatLisp

def Atom.inspect : Atom → String
  | nil => "Nil"
  | bool b => if b then "Bool(true)" else "Bool(false)"
  | int n => "Int(" ++ .ofList (Decimal.ofInt n.toInt) ++ ")"
  | id symbol => "Id(" ++ symbol.inspect ++ ")"

def Bracket.word : Bracket → String
  | round => "Expr"
  | square => "Vec"

namespace Form

/-- Appends the end of a form's description, its place. -/
def inspectEnd (out : String) (pos : Pos) : String :=
  out ++ ", pos: " ++ pos.inspect ++ " \x7d"

mutual

/-- Appends the description of a form. -/
def inspectTo (out : String) : Form → String
  | atom a pos => inspectEnd (out ++ "Form \x7b kind: " ++ a.inspect) pos
  | group b items pos =>
    let inner := inspectItemsTo (out ++ "Form \x7b kind: " ++ b.word ++ "([") items
    inspectEnd (inner ++ "])") pos
  | splat form pos =>
    inspectEnd ((inspectTo (out ++ "Form \x7b kind: Splat(") form).push ')') pos

/-- Appends the descriptions of items with commas between them. -/
def inspectItemsTo (out : String) : List Form → String
  | [] => out
  | item :: items => inspectMoreTo (inspectTo out item) items

/-- Appends the descriptions of further items, each after a comma. -/
def inspectMoreTo (out : String) : List Form → String
  | [] => out
  | item :: items => inspectMoreTo (inspectTo (out ++ ", ") item) items

end

def inspect (form : Form) : String := inspectTo "" form

end Form

end SplatLisp
