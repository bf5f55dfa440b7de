import SplatLisp.Rendering

/-!
# Messages

An error's message is put together from parts. A rendering that failed shows as its failure; a part
that cannot be shown at all spoils the whole message, of which nothing is kept then.
-/

namespace SplatLisp

inductive MessagePart where
  | text (text : String)
  /-- The rendering of a thing. -/
  | rendered (rendering : Rendering)
  /-- A thing that cannot be shown. -/
  | unprintable
deriving Inhabited

namespace MessagePart

/-- The text that a part adds, if it can be shown. -/
def shown? : MessagePart → Option String
  | text s => some s
  | rendered r => some r.text
  | unprintable => none

/-- What rendering a part alone comes to. -/
def result : MessagePart → Except RenderFailure String
  | text s => .ok s
  | rendered r => r.result
  | unprintable => .error .sinkRefused

end MessagePart

/-- The parts of a message in order. -/
abbrev Message := List MessagePart

namespace Message

/-- What stands for a message with a part that cannot be shown. -/
def fallback : String := "<message failed to render>"

def text (message : Message) : String :=
  (message.mapM MessagePart.shown?).elim fallback String.join

end Message

end SplatLisp
