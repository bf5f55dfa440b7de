import SplatLisp.Message
import SplatLisp.Reader.Failure
import SplatLisp.Value.Text

/-!
# Errors

What can go wrong, by its cause; the words are chosen in `Cause.message` and `ReadCause.message`
alone. A plain error shows as `Error: ` and its cause in words, a read error as a header with the
place, and its cause on the next line.
-/

namespace SplatLisp

/-- The parts of calls to primitives that have to be of a certain shape. -/
inductive FormRole where
  | letBindings
  | letBinding
  | funParams
  | funParam
  | restParam
deriving DecidableEq, Inhabited

def FormRole.text : FormRole → String
  | letBindings => "let bindings"
  | letBinding => "let binding"
  | funParams => "fun params"
  | funParam => "fun param"
  | restParam => "rest param"

/-- Why evaluation fails. -/
inductive Cause where
  | unknownId (symbol : Symbol)
  | notCallable (value : Value)
  /-- A number of arguments outside the range that the callee takes. -/
  | wrongCount (callee : Value) (min : Nat) (max : Option Nat) (given : Nat)
  | notIterable (value : Value)
  | notInt (value : Value)
  /-- A result outside the range of integers, with the name of the operation. -/
  | overflow (op : String)
  /-- A form of the wrong shape in a role. -/
  | invalid (role : FormRole) (form : Form)
  | missingParams
  | dumpFailed (failure : RenderFailure)
  /-- A file that cannot be read, and why in words. -/
  | loadFailed (file : String) (reason : String)
  /-- A cause in the words of the surrounding program. -/
  | custom (message : String)

/-- The numbers of arguments that a callee takes, in words. -/
def countText (min : Nat) : Option Nat → String
  | none => "at least " ++ Decimal.text min
  | some max =>
    if max = min then Decimal.text min else Decimal.text min ++ " to " ++ Decimal.text max

def Cause.message : Cause → String
  | unknownId symbol => "Unknown id: " ++ symbol.name
  | notCallable value => "Not callable: " ++ value.text
  | wrongCount callee min max given =>
    "Wrong number of arguments to " ++ callee.text ++ ": expected " ++ countText min max ++
      ", got " ++ Decimal.text given
  | notIterable value => "Not iterable: " ++ value.text
  | notInt value => "Expected Int: " ++ value.text
  | overflow op => "Integer overflow in " ++ op
  | invalid role form => "Invalid " ++ role.text ++ ": " ++ form.text
  | missingParams => "Missing fun params"
  | dumpFailed failure => "Dump failed: " ++ failure.message
  | loadFailed file reason => "Failed loading file '" ++ file ++ "': " ++ reason
  | custom message => message

/-- An error: of evaluation, or of reading at a place. -/
inductive Error where
  | plain (cause : Cause)
  | read (failure : ReadFailure)

namespace Error

/-- The error in words, without the place. -/
def message : Error → String
  | plain cause => "Error: " ++ cause.message
  | read failure => failure.cause.message

/-- The error as it is shown. -/
def text : Error → String
  | plain cause => "Error: " ++ cause.message
  | read failure => "Read error in " ++ failure.pos.text ++ ":\n" ++ failure.cause.message

def pos? : Error → Option Pos
  | plain _ => none
  | read failure => some failure.pos

def isRead (error : Error) : Bool := error.pos?.isSome

/-- Errors are compared by what they show: place and message. -/
instance : BEq Error := ⟨fun a b => a.pos? == b.pos? && a.message == b.message⟩

/-- A plain error with a message of the surrounding program. -/
def ofMessage (message : Message) : Error := .plain (.custom message.text)

def ofMessageAt (pos : Pos) (message : Message) : Error := .read ⟨pos, .custom message.text⟩

def part (error : Error) : MessagePart := .rendered (.ofText error.text)

end Error

end SplatLisp
