import SplatLisp.Form

/-!
# What stops a reading

A text that is not a sequence of forms is refused at one place for one cause.
-/

namespace SplatLisp

/-- Why a text is refused. -/
inductive ReadCause where
  /-- A closing bracket where none is awaited. -/
  | unexpected (c : Char)
  /-- The text ends inside a group. -/
  | unclosed (bracket : Bracket)
  /-- A splat mark that follows nothing. -/
  | missingTarget
  /-- A numeral outside the range of integers. -/
  | invalidInteger (numeral : String)
  /-- A cause in the words of the surrounding program. -/
  | custom (message : String)
deriving DecidableEq

def ReadCause.message : ReadCause → String
  | unexpected c => "Unexpected char: " ++ .ofList [c]
  | unclosed .round => "Open expression"
  | unclosed .square => "Open vector"
  | missingTarget => "Missing splat target"
  | invalidInteger numeral => "Invalid integer: " ++ numeral
  | custom message => message

/-- A cause and the place where it shows. -/
structure ReadFailure where
  pos : Pos
  cause : ReadCause

end SplatLisp
