/-!
# Renderings

Rendering a value can fail, in the value's own name or because the text was not taken, and text may
have been written by then. A `Rendering` keeps both: what was written, and the failure that cut it
short. `Writing` is the monad in which renderings are made.
-/

namespace SplatLisp

/-- Why a rendering was cut short. -/
inductive RenderFailure where
  /-- The text was not taken. -/
  | sinkRefused
  /-- A value of a type refused to be rendered, for a reason in words. -/
  | valueRefused (type reason : String)
deriving DecidableEq, Inhabited

def RenderFailure.message : RenderFailure → String
  | sinkRefused => "output sink rejected write"
  | valueRefused type reason => "failed dumping " ++ type ++ ": " ++ reason

structure Rendering where
  written : String
  /-- The failure that ended the writing, if there was one. -/
  failure : Option RenderFailure
deriving DecidableEq, Inhabited

namespace Rendering

/-- The rendering of a thing that writes a text and does not fail. -/
def ofText (text : String) : Rendering := ⟨text, none⟩

/-- The whole text, or the failure alone. -/
def result (r : Rendering) : Except RenderFailure String :=
  match r.failure with
  | none => .ok r.written
  | some failure => .error failure

/-- The text to show in any case: a failure shows as its message and nothing of what was written. -/
def text (r : Rendering) : String :=
  match r.failure with
  | none => r.written
  | some failure => failure.message

/-- What becomes of a rendering whose text goes where no more than `limit` bytes are taken. -/
def within (limit : Nat) (r : Rendering) : Except RenderFailure Unit :=
  if limit < r.written.utf8ByteSize then .error .sinkRefused
  else match r.failure with
    | none => .ok ()
    | some failure => .error failure

end Rendering

/-- Writing text, with failures; the state is what has been written so far. -/
abbrev Writing := EStateM RenderFailure String

namespace Writing

def put (text : String) : Writing Unit := modify (· ++ text)

/-- Writes all that a rendering wrote, and fails as it did. -/
def replay (r : Rendering) : Writing Unit := do
  put r.written
  if let some failure := r.failure then throw failure

/-- The rendering that a writing makes. -/
def rendering (writing : Writing Unit) : Rendering :=
  match writing "" with
  | .ok () written => ⟨written, none⟩
  | .error failure written => ⟨written, some failure⟩

end Writing

end SplatLisp
