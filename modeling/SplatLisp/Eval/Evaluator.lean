import SplatLisp.Eval.Primitives

/-!
# Evaluation

`eval` evaluates a form in an environment. Its first argument bounds how deep evaluations may nest;
a computation that needs more stops as exhausted. Atoms are their own values, identifiers stand for
what they are bound to, vectors and splats for values of that kind, and a form in round brackets is
a call, whose head decides what is done with the other forms.
-/

namespace SplatLisp

variable [HostPrims]

/-- Evaluates a call; without a head it is nil. Primitives get their argument forms as they are,
functions the values. -/
def evalCall (ev : Evaluator) (env : Env) : List Form → Eval Value
  | [] => pure .nil
  | head :: forms => do
    let callee ← ev head env
    match callee with
    | .prim prim =>
      checkCount callee prim.minArgs prim.maxArgs forms.length
      runPrim ev prim.op forms env
    | .fn closure => applyClosure ev callee closure (← evalArgs ev forms env)
    | _ => Eval.fail (.notCallable callee)

/-- Evaluates the outermost level of a form, and its parts with `ev`. -/
def evalStep (ev : Evaluator) (form : Form) (env : Env) : Eval Value :=
  match form with
  | .atom .nil _ => pure .nil
  | .atom (.bool b) _ => pure (.bool b)
  | .atom (.int n) _ => pure (.int n)
  | .atom (.id symbol) _ => Eval.lookup env symbol
  | .group .square items _ => do pure (.vec (← evalArgs ev items env))
  | .group .round items _ => evalCall ev env items
  | .splat inner _ => do
    let value ← ev inner env
    if value.items?.isSome then pure (.splat value) else Eval.fail (.notIterable value)

/-- Evaluates a form whose evaluation nests less deep than a bound. -/
def eval : Nat → Evaluator
  | 0 => fun _ _ => throw .exhausted
  | bound + 1 => fun form env => evalStep (eval bound) form env

@[simp] theorem eval_zero (form : Form) (env : Env) : eval 0 form env = throw .exhausted := rfl

theorem eval_succ (bound : Nat) : eval (bound + 1) = evalStep (eval bound) := rfl

/-- A bound beyond any nesting that a machine has memory for. -/
def deepest : Nat := 0x3FFFFFFFFFFFFFFF

end SplatLisp
