import SplatLisp.Eval.Evaluator
import SplatLisp.Reader
import SplatLisp.Text.Utf8

/-!
# Evaluating texts

A text is read as a whole before any of it is evaluated. A file is evaluated as the text that its
bytes decode to, from the first place of a source with the file's name. What reading a file comes to
is up to the system that the program runs on (`ReadFile`).
-/

namespace SplatLisp

/-- What reading a file by its name comes to: its bytes, or in words why there are none. -/
abbrev ReadFile := String → Except String ByteArray

namespace Eval

/-- Reads all forms of a text that starts at a place. -/
def readChars (pos : Pos) (chars : List Char) : Eval (List Form) := do
  let outcome ← modifyGet fun context =>
    let (outcome, reader) := (Reader.mk chars context.symbols).readAll pos
    (outcome, { context with symbols := reader.symbols })
  match outcome with
  | .ok forms => pure forms
  | .error failure => raise (.read failure)

/-- Reading works on the symbols alone, which are kept also when it fails. -/
theorem readChars_eq (pos : Pos) (chars : List Char) (context : Context) :
    readChars pos chars context =
      match (Reader.mk chars context.symbols).readAll pos with
      | (.ok forms, reader) => .ok forms { context with symbols := reader.symbols }
      | (.error failure, reader) =>
        raise (.read failure) { context with symbols := reader.symbols } := by
  change (match ((Reader.mk chars context.symbols).readAll pos).1 with
    | .ok forms => pure forms
    | .error failure => raise (.read failure) : Eval (List Form))
      { context with symbols := ((Reader.mk chars context.symbols).readAll pos).2.symbols } = _
  cases (Reader.mk chars context.symbols).readAll pos with
  | mk outcome reader => cases outcome <;> rfl

variable [HostPrims]

/-- Reads all forms of a text and evaluates them in order. -/
def evalChars (bound : Nat) (pos : Pos) (chars : List Char) (env : Env) : Eval Value := do
  evalForms (eval bound) (← readChars pos chars) env

/-- A text whose reading fails is not evaluated. -/
theorem evalChars_eq (bound : Nat) (pos : Pos) (chars : List Char) (env : Env)
    (context : Context) :
    evalChars bound pos chars env context =
      match (Reader.mk chars context.symbols).readAll pos with
      | (.ok forms, reader) =>
        evalForms (eval bound) forms env { context with symbols := reader.symbols }
      | (.error failure, reader) =>
        raise (.read failure) { context with symbols := reader.symbols } := by
  change EStateM.bind (readChars pos chars) (evalForms (eval bound) · env) context = _
  rw [EStateM.bind, readChars_eq]
  cases (Reader.mk chars context.symbols).readAll pos with
  | mk outcome reader => cases outcome <;> rfl

/-- Reads all forms of a text and evaluates them in order. -/
def evalText (bound : Nat) (pos : Pos) (text : String) (env : Env) : Eval Value :=
  evalChars bound pos text.toList env

/-- What a text that can be read comes to is what its forms come to. -/
theorem evalText_of_readAll {pos : Pos} {text : String} {context : Context} {forms : List Form}
    {reader : Reader} (h : (Reader.ofText context.symbols text).readAll pos = (.ok forms, reader))
    (bound : Nat) (env : Env) :
    evalText bound pos text env context =
      evalForms (eval bound) forms env { context with symbols := reader.symbols } := by
  have hread : readChars pos text.toList context =
      .ok forms { context with symbols := reader.symbols } := by
    rw [readChars_eq]
    change (match (Reader.ofText context.symbols text).readAll pos with
      | (.ok forms, reader) => EStateM.Result.ok forms { context with symbols := reader.symbols }
      | (.error failure, reader) =>
        raise (.read failure) { context with symbols := reader.symbols }) = _
    rw [h]
  change EStateM.bind (readChars pos text.toList) (evalForms (eval bound) · env) context = _
  rw [EStateM.bind, hread]

/-- Evaluates the contents of a file. -/
def load (bound : Nat) (read : ReadFile) (name : String) (env : Env) : Eval Value :=
  match read name with
  | .ok bytes => evalChars bound (.start name) (Utf8.decode bytes) env
  | .error reason => fail (.loadFailed name reason)

end Eval

end SplatLisp
