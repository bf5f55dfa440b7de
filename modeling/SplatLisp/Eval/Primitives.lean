import SplatLisp.Eval.Host
import SplatLisp.Number
import SplatLisp.Value.Equality

/-!
# Primitives

What each primitive does with its argument forms, over any evaluator `ev` of single forms. The
number of forms has been checked before; where a form that must be there is not, the computation
stops as broken. What is not a core primitive is left to the surrounding program.
-/

namespace SplatLisp

/-- Evaluates `then` or the form after it, if there is one, as the value of a condition tells. -/
def evalBranch (ev : Evaluator) (env : Env) : List Form → Eval Value
  | condition :: positive :: more => do
    if (← ev condition env).truthy then ev positive env
    else match more with
      | negative :: _ => ev negative env
      | [] => pure .nil
  | _ => throw .broken

/-- Binds identifiers to the values of the forms after them, one after the other; each form is
evaluated with the bindings before it. -/
def evalBindings (ev : Evaluator) (frame : Env) : List Form → Eval Unit
  | target :: form :: forms =>
    match target.id? with
    | none => Eval.fail (.invalid .letBinding target)
    | some symbol => do
      Eval.define frame symbol (← ev form frame)
      evalBindings ev frame forms
  | _ => pure ()

/-- Evaluates the forms after a vector of bindings in a new frame with these bindings. -/
def evalLet (ev : Evaluator) (env : Env) : List Form → Eval Value
  | bindings :: body =>
    match bindings with
    | .group .square pairs _ => do
      if pairs.length % 2 = 0 then
        let frame ← Eval.child env
        evalBindings ev frame pairs
        evalForms ev body frame
      else Eval.fail (.invalid .letBindings bindings)
    | _ => Eval.fail (.invalid .letBindings bindings)
  | [] => throw .broken

structure Params where
  params : List Symbol
  rest : Option Symbol

namespace Params

/-- Reads parameters: identifiers, of which the last may have the splat mark. `params` are those
before, the latest first. A form that is none of these is refused in its role. -/
def ofItemsFrom (params : List Symbol) : List Form → Except (FormRole × Form) Params
  | [] => .ok ⟨params.reverse, none⟩
  | item :: items =>
    match item with
    | .atom (.id symbol) _ => ofItemsFrom (symbol :: params) items
    | .splat inner _ =>
      if items.isEmpty then
        match inner.id? with
        | some symbol => .ok ⟨params.reverse, some symbol⟩
        | none => .error (.restParam, item)
      else .error (.funParam, item)
    | _ => .error (.funParam, item)

/-- The parameters that a form in round brackets lists. -/
def ofForm : Form → Except (FormRole × Form) Params
  | .group .round items _ => ofItemsFrom [] items
  | form => .error (.funParams, form)

end Params

/-- Makes a function of a parameter list and the forms after it. A function with a name is also
bound to it in the environment. -/
def makeFun (name : Option Symbol) (env : Env) : List Form → Eval Value
  | [] => Eval.fail .missingParams
  | params :: body =>
    match Params.ofForm params with
    | .error (role, form) => Eval.fail (.invalid role form)
    | .ok ⟨params, rest⟩ => do
      let fn := Value.fn ⟨⟨← Eval.fresh, name, params, rest, body⟩, env⟩
      if let some symbol := name then Eval.define env symbol fn
      pure fn

/-- Makes a function; an identifier in front of the parameter list is its name. -/
def evalFunction (env : Env) : List Form → Eval Value
  | [] => throw .broken
  | form :: forms =>
    match form.id? with
    | some symbol => makeFun (some symbol) env forms
    | none => makeFun none env (form :: forms)

def evalTypeOf (ev : Evaluator) (env : Env) : List Form → Eval Value
  | [] => throw .broken
  | form :: _ => do
    let value ← ev form env
    pure (.type ((← get).types.typeOf value))

/-- Writes the renderings of the arguments on one line of output. -/
def evalDump (ev : Evaluator) (env : Env) (forms : List Form) : Eval Value := do
  match (Value.lineRendering (← evalArgs ev forms env)).result with
  | .ok line => do
    Eval.writeLine line
    pure .nil
  | .error failure => Eval.fail (.dumpFailed failure)

/-- The values of argument forms, all of which have to be integers. -/
def evalInts (ev : Evaluator) (env : Env) (forms : List Form) : Eval (List Int64) := do
  let values ← evalArgs ev forms env
  match values.find? (·.int?.isNone) with
  | some value => Eval.fail (.notInt value)
  | none => pure (values.filterMap Value.int?)

/-- An integer, or the failure of the operation that has none. -/
def intOr (op : String) : Option Int64 → Eval Value
  | some n => pure (.int n)
  | none => Eval.fail (.overflow op)

/-- Whether all values equal the first one. -/
def allSame : List Value → Bool
  | [] => true
  | value :: values => values.all (·.same value)

/-- Carries a primitive out on its argument forms. -/
def runPrim [HostPrims] (ev : Evaluator) (op : PrimOp) (forms : List Form) (env : Env) :
    Eval Value :=
  match op with
  | .sequence => evalForms ev forms env
  | .branch => evalBranch ev env forms
  | .bindings => evalLet ev env forms
  | .function => evalFunction env forms
  | .typeOf => evalTypeOf ev env forms
  | .dump => evalDump ev env forms
  | .add => do intOr "+" (sum? (← evalInts ev env forms))
  | .subtract => do intOr "-" (difference? (← evalInts ev env forms))
  | .equal => do pure (.bool (allSame (← evalArgs ev forms env)))
  | .host code => HostPrims.run code ev forms env

end SplatLisp
