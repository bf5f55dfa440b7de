import SplatLisp.Form

/-!
# The text of a form

`Form.text` writes a form so that it reads back: items stand in their group's brackets with single
spaces between them, and two dots follow what a splat wraps. The work is done by `Form.writeTo`,
which appends to what has been written so far; `Form.chars` says what that comes to, by the parts of
the form alone (`Form.toList_text`).
-/

namespace SplatLisp

def Atom.text : Atom → String
  | nil => "_"
  | bool true => "T"
  | bool false => "F"
  | int n => .ofList (Decimal.ofInt n.toInt)
  | id symbol => symbol.name

namespace Form

mutual

/-- Appends the text of a form. -/
def writeTo (out : String) : Form → String
  | atom a _ => out ++ a.text
  | group b items _ =>
    (writeItemsTo (out.push b.opening) items).push b.closing
  | splat inner _ => writeTo out inner ++ ".."

/-- Appends the texts of items with spaces between them. -/
def writeItemsTo (out : String) : List Form → String
  | [] => out
  | item :: items => writeMoreTo (writeTo out item) items

/-- Appends the texts of further items, each after a space. -/
def writeMoreTo (out : String) : List Form → String
  | [] => out
  | item :: items => writeMoreTo (writeTo (out.push ' ') item) items

end

def text (form : Form) : String := writeTo "" form

mutual

/-- The characters of a form's text. -/
def chars : Form → List Char
  | atom a _ => a.text.toList
  | group b items _ => b.opening :: itemsChars items ++ [b.closing]
  | splat inner _ => inner.chars ++ ['.', '.']

/-- The characters of items with spaces between them. -/
def itemsChars : List Form → List Char
  | [] => []
  | item :: items => item.chars ++ moreChars items

/-- The characters of further items, each after a space. -/
def moreChars : List Form → List Char
  | [] => []
  | item :: items => ' ' :: item.chars ++ moreChars items

end

mutual

theorem toList_writeTo (out : String) :
    (form : Form) → (writeTo out form).toList = out.toList ++ form.chars
  | atom a _ => by simp [writeTo, chars]
  | group b items _ => by simp [writeTo, chars, toList_writeItemsTo]
  | splat inner _ => by simp [writeTo, chars, toList_writeTo]

theorem toList_writeItemsTo (out : String) :
    (items : List Form) → (writeItemsTo out items).toList = out.toList ++ itemsChars items
  | [] => by simp [writeItemsTo, itemsChars]
  | item :: items => by simp [writeItemsTo, itemsChars, toList_writeTo, toList_writeMoreTo]

theorem toList_writeMoreTo (out : String) :
    (items : List Form) → (writeMoreTo out items).toList = out.toList ++ moreChars items
  | [] => by simp [writeMoreTo, moreChars]
  | item :: items => by simp [writeMoreTo, moreChars, toList_writeTo, toList_writeMoreTo]

end

/-- The text of a form has the form's characters. -/
theorem toList_text (form : Form) : form.text.toList = form.chars := by
  simp [text, toList_writeTo]

end Form

end SplatLisp
