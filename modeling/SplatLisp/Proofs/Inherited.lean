import SplatLisp.Eval.Evaluator

/-!
# Properties that evaluation inherits from its steps

Evaluation is put together from a few elementary steps: looking a symbol up, binding one, making a
frame, writing a line, failing. A property that all these steps have, and that computations one
after the other keep, is a property of every evaluation; the induction that shows it is made here,
once for all properties (`Inherited.eval`).

A property may depend on the environment that a computation runs in. Functions and `let` run code
in frames made for the purpose, where everything may be bound, whereas evaluation in an environment
only binds named functions there; so there is a second property, of what is done to a new frame,
and `Inherited.scope` leads from it back to the first one. What happens in a new frame has the
first property at every environment, not just at the one that is current (`Inherited.applyClosure`,
`Inherited.evalLet`).

Primitives of the surrounding program are steps of their own, which have the property if all
evaluation that they ask for has it (`Inherited.host`).
-/

namespace SplatLisp

variable [HostPrims]

/-- `P env` is a property of computations in an environment, and `F frame` one of computations that
are the first to use a frame, and all that evaluation consists of has them. -/
structure Inherited (P F : Env → {α : Type} → Eval α → Prop) : Prop where
  pure : ∀ env {α : Type} (a : α), P env (pure a : Eval α)
  bind : ∀ env {α β : Type} {x : Eval α} {f : α → Eval β},
    P env x → (∀ a, P env (f a)) → P env (x >>= f)
  fail : ∀ env {α : Type} (cause : Cause), P env (Eval.fail cause : Eval α)
  exhausted : ∀ env {α : Type}, P env (throw .exhausted : Eval α)
  broken : ∀ env {α : Type}, P env (throw .broken : Eval α)
  lookup : ∀ env symbol, P env (Eval.lookup env symbol)
  fresh : ∀ env, P env Eval.fresh
  typeOf : ∀ env value, P env (do return Value.type ((← get).types.typeOf value) : Eval Value)
  writeLine : ∀ env text, P env (Eval.writeLine text)
  /-- A function may be bound under its own name in the environment that it closes over. -/
  name : ∀ env {fn : Fun} {symbol : Symbol}, fn.name = some symbol →
    P env (Eval.define env symbol (.fn ⟨fn, env⟩))
  define : ∀ frame symbol value, F frame (Eval.define frame symbol value)
  frame_of : ∀ frame {α : Type} {x : Eval α}, P frame x → F frame x
  frame_bind : ∀ frame {α β : Type} {x : Eval α} {f : α → Eval β},
    F frame x → (∀ a, F frame (f a)) → F frame (x >>= f)
  scope : ∀ env outer {α : Type} {f : Env → Eval α},
    (∀ frame, F frame (f frame)) → P env (Eval.child outer >>= f)
  host : ∀ env {ev : Evaluator}, (∀ env form, P env (ev form env)) →
    ∀ code forms, P env (HostPrims.run code ev forms env)

namespace Inherited

variable {P F : Env → {α : Type} → Eval α → Prop} (h : Inherited P F) {ev : Evaluator}
  (hev : ∀ env form, P env (ev form env))

/-! ## Arguments and calls -/

section Calls

include h hev

theorem evalForms (env : Env) (forms : List Form) : P env (evalForms ev forms env) := by
  have hfrom : ∀ last, P env (evalFormsFrom ev env last forms) := by
    induction forms with
    | nil => exact fun last => h.pure env last
    | cons form forms ih => exact fun _ => h.bind env (hev env form) ih
  exact hfrom .nil

omit hev in
theorem spread (env : Env) (value : Value) : P env (spread value) := by
  unfold SplatLisp.spread
  split
  · next inner =>
    cases inner.items? with
    | some items => exact h.pure env items
    | none => exact h.fail env _
  · exact h.pure env _

theorem evalArgs (env : Env) (forms : List Form) : P env (evalArgs ev forms env) := by
  induction forms with
  | nil => exact h.pure env []
  | cons form forms ih =>
    rw [evalArgs_cons]
    refine h.bind env (hev env form) fun value => ?_
    exact h.bind env (h.spread env value) fun _ => h.bind env ih fun _ => h.pure env _

omit hev in
theorem checkCount (env : Env) (callee : Value) (min : Nat) (max : Option Nat) (given : Nat) :
    P env (checkCount callee min max given) := by
  unfold SplatLisp.checkCount
  split
  · exact h.fail env _
  · exact h.pure env ()

omit hev in
theorem bindParams (frame : Env) (params : List Symbol) (args : List Value) :
    F frame (bindParams frame params args) := by
  induction params generalizing args with
  | nil => exact h.frame_of frame (h.pure frame args)
  | cons param params ih =>
    cases args with
    | nil => exact h.frame_of frame (h.broken frame)
    | cons arg args => exact h.frame_bind frame (h.define frame param arg) fun _ => ih args

/-- Parameters are bound, and the body is evaluated, in a new frame. -/
theorem applyClosure (env : Env) (callee : Value) (closure : Closure) (args : List Value) :
    P env (applyClosure ev callee closure args) := by
  refine h.bind env (h.checkCount env _ _ _ _) fun _ => h.scope env closure.env fun frame => ?_
  have hbody : F frame (SplatLisp.evalForms ev closure.fn.body frame) :=
    h.frame_of frame (h.evalForms hev frame closure.fn.body)
  refine h.frame_bind frame (h.bindParams frame closure.fn.params args) fun more => ?_
  cases closure.fn.rest with
  | none => exact hbody
  | some rest => exact h.frame_bind frame (h.define frame rest (.vec more)) fun _ => hbody

end Calls

/-! ## Primitives -/

section Primitives

include h hev

theorem evalBranch (env : Env) (forms : List Form) : P env (evalBranch ev env forms) := by
  unfold SplatLisp.evalBranch
  split
  · next condition positive more =>
    refine h.bind env (hev env condition) fun value => ?_
    by_cases htrue : value.truthy = true
    · rw [if_pos htrue]
      exact hev env positive
    · rw [if_neg htrue]
      cases more with
      | nil => exact h.pure env Value.nil
      | cons negative more => exact hev env negative
  · exact h.broken env

theorem evalBindings (frame : Env) (forms : List Form) :
    F frame (evalBindings ev frame forms) := by
  fun_induction SplatLisp.evalBindings ev frame forms with
  | case1 => exact h.frame_of frame (h.fail frame _)
  | case2 target form forms symbol _ ih =>
    refine h.frame_bind frame (h.frame_of frame (hev frame form)) fun value => ?_
    exact h.frame_bind frame (h.define frame symbol value) fun _ => ih
  | case3 => exact h.frame_of frame (h.pure frame ())

/-- The bindings are made, and the body is evaluated, in a new frame. -/
theorem evalLet (env outer : Env) (forms : List Form) : P env (evalLet ev outer forms) := by
  unfold SplatLisp.evalLet
  split
  · next bindings body =>
    split
    · next pairs pos =>
      by_cases heven : pairs.length % 2 = 0
      · rw [if_pos heven]
        refine h.scope env outer fun frame => ?_
        refine h.frame_bind frame (h.evalBindings hev frame pairs) fun _ => ?_
        exact h.frame_of frame (h.evalForms hev frame body)
      · rw [if_neg heven]
        exact h.fail env _
    · exact h.fail env _
  · exact h.broken env

omit hev in
theorem makeFun (name : Option Symbol) (env : Env) (forms : List Form) :
    P env (makeFun name env forms) := by
  unfold SplatLisp.makeFun
  split
  · exact h.fail env _
  · split
    · exact h.fail env _
    · refine h.bind env (h.fresh env) fun identity => ?_
      cases name with
      | none => exact h.pure env _
      | some symbol => exact h.bind env (h.name env rfl) fun _ => h.pure env _

omit hev in
theorem evalFunction (env : Env) (forms : List Form) : P env (evalFunction env forms) := by
  unfold SplatLisp.evalFunction
  split
  · exact h.broken env
  · split
    · exact h.makeFun _ env _
    · exact h.makeFun _ env _

theorem evalTypeOf (env : Env) (forms : List Form) : P env (evalTypeOf ev env forms) := by
  cases forms with
  | nil => exact h.broken env
  | cons form forms => exact h.bind env (hev env form) (h.typeOf env)

theorem evalDump (env : Env) (forms : List Form) : P env (evalDump ev env forms) := by
  refine h.bind env (h.evalArgs hev env forms) fun values => ?_
  cases (Value.lineRendering values).result with
  | ok line => exact h.bind env (h.writeLine env line) fun _ => h.pure env Value.nil
  | error failure => exact h.fail env (.dumpFailed failure)

theorem evalInts (env : Env) (forms : List Form) : P env (evalInts ev env forms) := by
  refine h.bind env (h.evalArgs hev env forms) fun values => ?_
  cases values.find? (·.int?.isNone) with
  | some value => exact h.fail env (.notInt value)
  | none => exact h.pure env _

omit hev in
theorem intOr (env : Env) (op : String) (n : Option Int64) : P env (intOr op n) := by
  cases n with
  | none => exact h.fail env (.overflow op)
  | some n => exact h.pure env (Value.int n)

theorem runPrim (env : Env) (op : PrimOp) (forms : List Form) :
    P env (runPrim ev op forms env) := by
  cases op with
  | sequence => exact h.evalForms hev env forms
  | branch => exact h.evalBranch hev env forms
  | bindings => exact h.evalLet hev env env forms
  | function => exact h.evalFunction env forms
  | typeOf => exact h.evalTypeOf hev env forms
  | dump => exact h.evalDump hev env forms
  | add => exact h.bind env (h.evalInts hev env forms) fun _ => h.intOr env _ _
  | subtract => exact h.bind env (h.evalInts hev env forms) fun _ => h.intOr env _ _
  | equal => exact h.bind env (h.evalArgs hev env forms) fun _ => h.pure env _
  | host code => exact h.host env hev code forms

end Primitives

/-! ## Evaluation -/

section Evaluation

include h

include hev in
theorem evalCall (env : Env) (forms : List Form) : P env (evalCall ev env forms) := by
  cases forms with
  | nil => exact h.pure env Value.nil
  | cons head forms =>
    refine h.bind env (hev env head) fun callee => ?_
    cases callee with
    | prim prim =>
      exact h.bind env (h.checkCount env _ _ _ _) fun _ => h.runPrim hev env prim.op forms
    | fn closure =>
      refine h.bind env (h.evalArgs hev env forms) fun args => ?_
      exact h.applyClosure hev env _ closure args
    | _ => exact h.fail env _

include hev in
theorem evalStep (env : Env) (form : Form) : P env (evalStep ev form env) := by
  cases form with
  | atom atom pos =>
    cases atom with
    | id symbol => exact h.lookup env symbol
    | _ => exact h.pure env _
  | group bracket items pos =>
    cases bracket with
    | round => exact h.evalCall hev env items
    | square => exact h.bind env (h.evalArgs hev env items) fun _ => h.pure env _
  | splat inner pos =>
    refine h.bind env (hev env inner) fun value => ?_
    by_cases hiter : value.items?.isSome = true
    · rw [if_pos hiter]
      exact h.pure env _
    · rw [if_neg hiter]
      exact h.fail env _

/-- **Evaluation has every property that its steps have.** -/
theorem eval (bound : Nat) (env : Env) (form : Form) : P env (eval bound form env) := by
  induction bound generalizing env form with
  | zero => exact h.exhausted env
  | succ bound ih => exact h.evalStep ih env form

end Evaluation

end Inherited

end SplatLisp
