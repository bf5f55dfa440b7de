import SplatLisp.Context

/-!
# Arguments and calls

Evaluating sequences of forms, and applying functions, over any evaluator `ev` of single forms.
Forms are evaluated from left to right, and the first that stops stops everything. Splats among
arguments are replaced by their items (`evalArgs_cons`), so the number of arguments is known only
afterwards.
-/

namespace SplatLisp

/-- A way to evaluate a form in an environment. -/
abbrev Evaluator := Form → Env → Eval Value

/-- Evaluates forms in order; the value is that of the last one, or else `last`. -/
def evalFormsFrom (ev : Evaluator) (env : Env) (last : Value) : List Form → Eval Value
  | [] => pure last
  | form :: forms => do
    let value ← ev form env
    evalFormsFrom ev env value forms

/-- Evaluates forms in order; the value is that of the last one, nil if there is none. -/
def evalForms (ev : Evaluator) (forms : List Form) (env : Env) : Eval Value :=
  evalFormsFrom ev env .nil forms

@[simp] theorem evalForms_nil (ev : Evaluator) (env : Env) : evalForms ev [] env = pure .nil := rfl

@[simp] theorem evalForms_singleton (ev : Evaluator) (form : Form) (env : Env) :
    evalForms ev [form] env = ev form env := by
  simp [evalForms, evalFormsFrom]

/-- Forms in order can be cut anywhere. -/
theorem evalFormsFrom_append (ev : Evaluator) (env : Env) (last : Value) (fs gs : List Form) :
    evalFormsFrom ev env last (fs ++ gs) =
      (do evalFormsFrom ev env (← evalFormsFrom ev env last fs) gs) := by
  induction fs generalizing last with
  | nil => simp [evalFormsFrom]
  | cons f fs ih => simp [evalFormsFrom, ih]

/-- What a value stands for among arguments: a splat for its items, and others for themselves. -/
def spread : Value → Eval (List Value)
  | .splat inner =>
    match inner.items? with
    | some items => pure items
    | none => Eval.fail (.notIterable inner)
  | value => pure [value]

/-- Evaluates argument forms in order; `values` are those before them, the latest first. -/
def evalArgsFrom (ev : Evaluator) (env : Env) (values : List Value) :
    List Form → Eval (List Value)
  | [] => pure values.reverse
  | form :: forms => do
    let value ← ev form env
    let items ← spread value
    evalArgsFrom ev env (items.reverse ++ values) forms

def evalArgs (ev : Evaluator) (forms : List Form) (env : Env) : Eval (List Value) :=
  evalArgsFrom ev env [] forms

@[simp] theorem evalArgs_nil (ev : Evaluator) (env : Env) : evalArgs ev [] env = pure [] := rfl

/-- The values before come first. -/
theorem evalArgsFrom_eq (ev : Evaluator) (env : Env) (values : List Value) (forms : List Form) :
    evalArgsFrom ev env values forms =
      (do pure (values.reverse ++ (← evalArgs ev forms env))) := by
  unfold evalArgs
  induction forms generalizing values with
  | nil => simp [evalArgsFrom]
  | cons form forms ih =>
    simp only [evalArgsFrom, bind_assoc]
    refine bind_congr fun value => bind_congr fun items => ?_
    rw [ih, ih (items.reverse ++ [])]
    simp

/-- The items of the first argument come before those of the others. -/
theorem evalArgs_cons (ev : Evaluator) (env : Env) (form : Form) (forms : List Form) :
    evalArgs ev (form :: forms) env =
      (do
        let value ← ev form env
        let items ← spread value
        pure (items ++ (← evalArgs ev forms env))) := by
  unfold evalArgs
  simp only [evalArgsFrom]
  refine bind_congr fun value => bind_congr fun items => ?_
  rw [evalArgsFrom_eq]
  simp [evalArgs]

/-- Refuses a number of arguments outside the range that a callee takes. -/
def checkCount (callee : Value) (min : Nat) (max : Option Nat) (given : Nat) : Eval Unit :=
  if given < min ∨ max.any (· < given) then Eval.fail (.wrongCount callee min max given)
  else pure ()

/-- Binds parameters to arguments one by one, and gives back the arguments left over. -/
def bindParams (frame : Env) : List Symbol → List Value → Eval (List Value)
  | [], args => pure args
  | param :: params, arg :: args => do
    Eval.define frame param arg
    bindParams frame params args
  | _ :: _, [] => throw .broken

/-- Applies a function to arguments: its body is evaluated in a new frame, which falls back to the
environment of the function and binds its parameters. `callee` is named if the number of arguments
is wrong. -/
def applyClosure (ev : Evaluator) (callee : Value) (closure : Closure) (args : List Value) :
    Eval Value := do
  let fn := closure.fn
  checkCount callee fn.minArgs fn.maxArgs args.length
  let frame ← Eval.child closure.env
  let more ← bindParams frame fn.params args
  if let some rest := fn.rest then Eval.define frame rest (.vec more)
  evalForms ev fn.body frame

end SplatLisp
