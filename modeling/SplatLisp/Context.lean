import SplatLisp.Diagnostics
import SplatLisp.Heap
import SplatLisp.Text.Blank

/-!
# Contexts

All that evaluation works on: symbols, types, frames, the supply of identities, diagnostics, and the
sinks for errors and output, which may be one. A new context has one frame, the root, which binds
the core primitives.
`Eval` is the monad of evaluation; a computation that stops early keeps what it has done to the
context.
-/

namespace SplatLisp

/-- How a context is set up. -/
structure Settings where
  debug : Bool := false
  sinks : Sinks := .standard
  /-- Where errors that abort are written. -/
  sink : SinkRef := .stderr
  out : SinkRef := .stdout

namespace Settings

/-- Whether a setting's text turns it on: `1`, `true` and `on` do, in any case and with blanks
around them. -/
def isOn (value : String) : Bool :=
  ["1", "true", "on"].contains (.ofList ((trimBlanks value).toList.map Char.toLower))

/-- Turns debug mode on or off by the value of the setting, which may be absent. -/
def debugBy (settings : Settings) (value : Option String) : Settings :=
  { settings with debug := value.any isOn }

end Settings

/-- The state of an interpreter. -/
structure Context where
  symbols : SymbolTable
  types : TypeRegistry
  heap : Heap
  /-- The next identity to give. -/
  identities : Identity
  sinks : Sinks
  diagnostics : Diagnostics
  /-- Where output goes, which may be where errors go. -/
  out : SinkRef

def Env.root : Env := ⟨0⟩

namespace Context

/-- The core primitives with their least and greatest numbers of argument forms. -/
def corePrims : List (String × Nat × Option Nat × PrimOp) :=
  [("do", 0, none, .sequence), ("if", 2, some 3, .branch), ("let", 1, none, .bindings),
    ("fun", 1, none, .function), ("type", 1, some 1, .typeOf), ("dump", 0, none, .dump),
    ("+", 0, none, .add), ("-", 1, none, .subtract), ("=", 1, none, .equal)]

/-- Binds one core primitive in the root environment. -/
def install (context : Context) (entry : String × Nat × Option Nat × PrimOp) : Context :=
  let (name, min, max, op) := entry
  let (symbol, symbols) := context.symbols.intern name
  { context with
    symbols
    identities := context.identities + 1
    heap := context.heap.define .root symbol (.prim ⟨context.identities, name, min, max, op⟩) }

def new (settings : Settings) : Context :=
  corePrims.foldl install
    { symbols := .empty
      types := .builtins
      heap := (Heap.empty.alloc none).2
      identities := 0
      sinks := settings.sinks
      diagnostics := ⟨.ofDebug settings.debug, settings.sink⟩
      out := settings.out }

def isDebug (context : Context) : Bool := context.diagnostics.policy.aborts

end Context

/-- Computations on a context. -/
abbrev Eval := EStateM Stop Context

namespace Eval

/-- The context in which a computation ends or stops. -/
def after {α : Type} (x : Eval α) (context : Context) : Context :=
  match x context with
  | .ok _ context' => context'
  | .error _ context' => context'

section After

variable {α β : Type} {x : Eval α} {a : α} {stop : Stop} {c d : Context}

theorem after_of_ok (h : x c = .ok a d) : x.after c = d := by
  rw [after, h]

theorem after_of_error (h : x c = .error stop d) : x.after c = d := by
  rw [after, h]

/-- What follows a computation that ends is done in the context in which that ends. -/
theorem after_bind_of_ok (h : x c = .ok a d) (f : α → Eval β) :
    (x >>= f).after c = (f a).after d := by
  have hbind : (x >>= f) c = f a d := by
    change EStateM.bind x f c = _
    rw [EStateM.bind, h]
  rw [after, hbind, after]

/-- What follows a computation that stops is not done. -/
theorem after_bind_of_error (h : x c = .error stop d) (f : α → Eval β) :
    (x >>= f).after c = d := by
  have hbind : (x >>= f) c = .error stop d := by
    change EStateM.bind x f c = _
    rw [EStateM.bind, h]
  exact after_of_error hbind

end After

/-- Stops with an error, delivered as the context's policy demands. -/
def raise {α : Type} (error : Error) : Eval α := fun context =>
  let (stop, sinks) := context.diagnostics.raise error context.sinks
  .error stop { context with sinks }

theorem raise_eq {α : Type} (error : Error) (context : Context) :
    (raise error : Eval α) context =
      match context.diagnostics.policy with
      | .report => .error (.failed error) context
      | .abort => .error (.aborted error.text)
        { context with
          sinks := context.sinks.writeLine context.diagnostics.sink error.text } := by
  unfold raise Diagnostics.raise
  cases context.diagnostics.policy <;> rfl

/-- Stops with a plain error. -/
def fail {α : Type} (cause : Cause) : Eval α := raise (.plain cause)

def fresh : Eval Identity :=
  modifyGet fun context =>
    (context.identities, { context with identities := context.identities + 1 })

def intern (name : String) : Eval Symbol :=
  modifyGet fun context =>
    let (symbol, symbols) := context.symbols.intern name
    (symbol, { context with symbols })

def alloc (parent : Option Env) : Eval Env :=
  modifyGet fun context =>
    let (env, heap) := context.heap.alloc parent
    (env, { context with heap })

/-- A new frame that falls back to an environment. -/
def child (env : Env) : Eval Env := alloc (some env)

def define (env : Env) (symbol : Symbol) (value : Value) : Eval Unit :=
  modify fun context => { context with heap := context.heap.define env symbol value }

/-- The value of a symbol; it has to have one. -/
def lookup (env : Env) (symbol : Symbol) : Eval Value := do
  match (← get).heap.lookup env symbol with
  | some value => pure value
  | none => fail (.unknownId symbol)

theorem lookup_eq (env : Env) (symbol : Symbol) (context : Context) :
    lookup env symbol context =
      match context.heap.lookup env symbol with
      | some value => .ok value context
      | none => fail (.unknownId symbol) context := by
  change (match context.heap.lookup env symbol with
    | some value => pure value
    | none => fail (.unknownId symbol) : Eval Value) context = _
  cases context.heap.lookup env symbol <;> rfl

def writeLine (text : String) : Eval Unit :=
  modify fun context => { context with sinks := context.sinks.writeLine context.out text }

end Eval

end SplatLisp
