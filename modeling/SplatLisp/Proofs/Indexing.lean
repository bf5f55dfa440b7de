import SplatLisp.Proofs.Agreement
import SplatLisp.Proofs.Arity

/-!
# Forms and arguments by their indices

An operation that takes forms by their indices, and a call that cuts its arguments where the
parameters end, rely on checks made elsewhere: on the numbers of forms in the table of primitives,
and on the count of the arguments. Here they are written in this way: an index out of range breaks
the computation (`Indexed.item`, `Indexed.itemsFrom`, `Indexed.splitAt`).

Where the values bound in frames are fit, evaluation by indices is evaluation
(`Indexed.agreeOn_eval`), which never breaks. So no index is ever out of range.
-/

namespace SplatLisp

/-- Among fit values there are no primitives of a surrounding program. -/
theorem Eval.hostsAgreeOn_fit (H H' : HostPrims) :
    HostsAgreeOn H H' (fun _ => True) (·.fit = true) :=
  fun hprim hop => absurd hprim (Value.not_fit_of_host hop)

theorem Value.hereditary_fit : Hereditary (fun _ => True) (·.fit = true) where
  items _ _ _ := trivial
  inner _ := .inl trivial
  nil := rfl
  bool _ := rfl
  int _ := rfl
  type _ := rfl
  vec_iff := fitItems_iff
  splat_iff := .rfl
  fn _ := rfl
  body _ _ _ := trivial

/-- Evaluation keeps to fit values, whatever else there is. -/
theorem Eval.tracked_fit (H H' : HostPrims) : TrackedIn H H' (W := Unit) (fun _ => True)
    (fun _ v => v.fit = true) fun _ _ Q x x' => AgreeOn (·.fit = true) (Q ()) x x' :=
  tracked_agreeOn Value.hereditary_fit (hostsAgreeOn_fit H H')

namespace Indexed

variable {α : Type}

/-! ## Access by indices -/

/-- The item at an index, which has to be in range. -/
def item (items : List α) (i : Nat) : Eval α :=
  match items[i]? with
  | some x => pure x
  | none => throw .broken

/-- The items from an index on, which may be the end. -/
def itemsFrom (items : List α) (i : Nat) : Eval (List α) :=
  if i ≤ items.length then pure (items.drop i) else throw .broken

/-- The items before an index and those from it on; the index may be the end. -/
def splitAt (items : List α) (i : Nat) : Eval (List α × List α) :=
  if i ≤ items.length then pure (items.take i, items.drop i) else throw .broken

@[simp] theorem item_zero (x : α) (items : List α) : item (x :: items) 0 = pure x := rfl

@[simp] theorem item_succ (x : α) (items : List α) (i : Nat) :
    item (x :: items) (i + 1) = item items i := rfl

@[simp] theorem itemsFrom_one (x : α) (items : List α) : itemsFrom (x :: items) 1 = pure items :=
  if_pos (Nat.succ_le_succ (Nat.zero_le _))

/-! ## Primitives -/

/-- Evaluates the form at index one or two, as the value of the form at index zero tells. -/
def evalBranch (ev : Evaluator) (env : Env) (forms : List Form) : Eval Value := do
  if (← ev (← item forms 0) env).truthy then ev (← item forms 1) env
  else match forms[2]? with
    | some negative => ev negative env
    | none => pure .nil

/-- Items two by two; one that is left over is left out. -/
def pairs : List α → List (List α)
  | x :: y :: more => [x, y] :: pairs more
  | _ => []

def evalBindings (ev : Evaluator) (frame : Env) : List (List Form) → Eval Unit
  | [] => pure ()
  | pair :: more => do
    match (← item pair 0).id? with
    | none => Eval.fail (.invalid .letBinding (← item pair 0))
    | some symbol => do
      Eval.define frame symbol (← ev (← item pair 1) frame)
      evalBindings ev frame more

def evalLet (ev : Evaluator) (env : Env) (forms : List Form) : Eval Value := do
  let bindings ← item forms 0
  match bindings with
  | .group .square items _ => do
    if items.length % 2 = 0 then
      let frame ← Eval.child env
      evalBindings ev frame (pairs items)
      evalForms ev (← itemsFrom forms 1) frame
    else Eval.fail (.invalid .letBindings bindings)
  | _ => Eval.fail (.invalid .letBindings bindings)

def evalFunction (env : Env) (forms : List Form) : Eval Value := do
  match (← item forms 0).id? with
  | some symbol => makeFun (some symbol) env (← itemsFrom forms 1)
  | none => makeFun none env forms

def evalTypeOf (ev : Evaluator) (env : Env) (forms : List Form) : Eval Value := do
  let value ← ev (← item forms 0) env
  pure (.type ((← get).types.typeOf value))

/-- Carries a primitive out; those that are not listed use no index. -/
def runPrim [HostPrims] (ev : Evaluator) (op : PrimOp) (forms : List Form) (env : Env) :
    Eval Value :=
  match op with
  | .branch => evalBranch ev env forms
  | .bindings => evalLet ev env forms
  | .function => evalFunction env forms
  | .typeOf => evalTypeOf ev env forms
  | op => SplatLisp.runPrim ev op forms env

theorem evalBindings_pairs (ev : Evaluator) (frame : Env) (forms : List Form) :
    evalBindings ev frame (pairs forms) = SplatLisp.evalBindings ev frame forms := by
  fun_induction pairs forms with
  | case1 target form forms ih =>
    rw [evalBindings, SplatLisp.evalBindings]
    cases hid : target.id? with
    | none => simp [hid]
    | some symbol => simp [hid, ih]
  | case2 forms hshort =>
    unfold SplatLisp.evalBindings
    split
    · exact absurd rfl (hshort _ _ _)
    · rfl

theorem evalBranch_eq (ev : Evaluator) (env : Env) (condition positive : Form) (more : List Form) :
    evalBranch ev env (condition :: positive :: more) =
      SplatLisp.evalBranch ev env (condition :: positive :: more) := by
  simp only [evalBranch, SplatLisp.evalBranch, item_zero, item_succ, pure_bind]
  refine bind_congr fun value => ?_
  cases more <;> rfl

theorem evalLet_eq (ev : Evaluator) (env : Env) (bindings : Form) (body : List Form) :
    evalLet ev env (bindings :: body) = SplatLisp.evalLet ev env (bindings :: body) := by
  cases bindings with
  | group bracket items pos =>
    cases bracket with
    | round => rfl
    | square => simp [evalLet, SplatLisp.evalLet, evalBindings_pairs]
  | _ => rfl

theorem evalFunction_eq (env : Env) (form : Form) (more : List Form) :
    evalFunction env (form :: more) = SplatLisp.evalFunction env (form :: more) := by
  cases hid : form.id? with
  | none => simp [evalFunction, SplatLisp.evalFunction, hid]
  | some symbol => simp [evalFunction, SplatLisp.evalFunction, hid]

theorem evalTypeOf_eq (ev : Evaluator) (env : Env) (form : Form) (more : List Form) :
    evalTypeOf ev env (form :: more) = SplatLisp.evalTypeOf ev env (form :: more) := by
  simp only [evalTypeOf, SplatLisp.evalTypeOf, item_zero, pure_bind]

/-- **A primitive does not go beyond the forms that its operation needs**, so it may as well look at
the forms by their indices. -/
theorem runPrim_eq [HostPrims] {op : PrimOp} {forms : List Form} (h : op.needs ≤ forms.length)
    (ev : Evaluator) (env : Env) :
    runPrim ev op forms env = SplatLisp.runPrim ev op forms env := by
  cases op with
  | branch =>
    have hsome : 0 < forms.length := Nat.lt_of_lt_of_le Nat.zero_lt_two h
    obtain ⟨condition, forms, rfl⟩ := List.exists_cons_of_length_pos hsome
    obtain ⟨positive, more, rfl⟩ := List.exists_cons_of_length_pos (Nat.le_of_succ_le_succ h)
    exact evalBranch_eq ev env condition positive more
  | bindings =>
    obtain ⟨bindings, body, rfl⟩ := List.exists_cons_of_length_pos h
    exact evalLet_eq ev env bindings body
  | function =>
    obtain ⟨form, more, rfl⟩ := List.exists_cons_of_length_pos h
    exact evalFunction_eq env form more
  | typeOf =>
    obtain ⟨form, more, rfl⟩ := List.exists_cons_of_length_pos h
    exact evalTypeOf_eq ev env form more
  | _ => rfl

/-! ## Calls -/

/-- Binds symbols to values, one after the other. -/
def defineAll (frame : Env) : List (Symbol × Value) → Eval Unit
  | [] => pure ()
  | (symbol, value) :: more => do
    Eval.define frame symbol value
    defineAll frame more

def applyClosure (ev : Evaluator) (callee : Value) (closure : Closure) (args : List Value) :
    Eval Value := do
  let fn := closure.fn
  checkCount callee fn.minArgs fn.maxArgs args.length
  let frame ← Eval.child closure.env
  let (bound, more) ← splitAt args fn.params.length
  defineAll frame (fn.params.zip bound)
  if let some rest := fn.rest then Eval.define frame rest (.vec more)
  evalForms ev fn.body frame

def evalCall [HostPrims] (ev : Evaluator) (env : Env) : List Form → Eval Value
  | [] => pure .nil
  | head :: forms => do
    let callee ← ev head env
    match callee with
    | .prim prim =>
      checkCount callee prim.minArgs prim.maxArgs forms.length
      runPrim ev prim.op forms env
    | .fn closure => applyClosure ev callee closure (← evalArgs ev forms env)
    | _ => Eval.fail (.notCallable callee)

def evalStep [HostPrims] (ev : Evaluator) (form : Form) (env : Env) : Eval Value :=
  match form with
  | .group .round items _ => evalCall ev env items
  | _ => SplatLisp.evalStep ev form env

/-- Evaluation that goes by indices. -/
def eval [HostPrims] : Nat → Evaluator
  | 0 => fun _ _ => throw .exhausted
  | bound + 1 => fun form env => evalStep (eval bound) form env

/-- The arguments are cut where the parameters end. -/
theorem bindParams_eq (frame : Env) {params : List Symbol} {args : List Value}
    (h : params.length ≤ args.length) : bindParams frame params args = (do
      defineAll frame (params.zip (args.take params.length))
      pure (args.drop params.length)) := by
  induction params generalizing args with
  | nil => simp [bindParams, defineAll]
  | cons param params ih =>
    cases args with
    | nil => exact absurd h (Nat.not_succ_le_zero _)
    | cons arg args => simp [bindParams, defineAll, ih (Nat.le_of_succ_le_succ h)]

/-- The arguments of a call are counted before they are cut. -/
theorem applyClosure_eq (ev : Evaluator) (callee : Value) (closure : Closure) (args : List Value) :
    applyClosure ev callee closure args = SplatLisp.applyClosure ev callee closure args := by
  unfold applyClosure SplatLisp.applyClosure
  dsimp only
  by_cases hcount : closure.fn.params.length ≤ args.length
  · have hsplit : splitAt args closure.fn.params.length =
        pure (args.take closure.fn.params.length, args.drop closure.fn.params.length) :=
      if_pos hcount
    cases closure.fn.rest <;> simp [hsplit, bindParams_eq _ hcount]
  · have hrefused : checkCount callee closure.fn.minArgs closure.fn.maxArgs args.length =
        Eval.fail (.wrongCount callee closure.fn.minArgs closure.fn.maxArgs args.length) :=
      if_pos (.inl (Nat.lt_of_not_le hcount))
    rw [hrefused]
    rfl

/-! ## No index is out of range -/

open Eval (AgreeOn tracked_fit)

variable [H : HostPrims]

section Agreement

variable {ev ev' : Evaluator}
  (hev : ∀ form env, AgreeOn (·.fit = true) (·.fit = true) (ev form env) (ev' form env))

include hev

/-- A primitive has been counted the forms that its operation needs, as it is fit. -/
theorem agreeOn_evalCall (env : Env) (forms : List Form) :
    AgreeOn (·.fit = true) (·.fit = true) (evalCall ev env forms)
      (SplatLisp.evalCall ev' env forms) := by
  have htracked := tracked_fit H H
  cases forms with
  | nil => exact .pure rfl
  | cons head forms =>
    refine (hev head env).bind fun callee hcallee => ?_
    cases callee with
    | prim prim =>
      have hneeds := (Value.fit_prim_iff.1 hcallee).2
      refine AgreeOn.bind (htracked.checkCount (w := ()) _ _ _ _) fun _ hcount => ?_
      rw [runPrim_eq (Nat.le_trans hneeds hcount)]
      apply htracked.runPrim (w := ()) (fun _ _ => trivial) (fun _ form env _ => hev form env)
      · exact fun _ => .throw .broken
      · exact fun code hop => absurd hcallee (Value.not_fit_of_host hop)
    | fn closure =>
      refine AgreeOn.bind (htracked.evalArgs (w := ()) (fun _ _ => trivial)
        (fun _ form env _ => hev form env) env) fun args hargs => ?_
      rw [applyClosure_eq]
      exact htracked.applyClosure (w := ()) (fun _ form env _ => hev form env) _
        (fun _ _ => trivial) hargs
    | _ => exact .fail _

theorem agreeOn_evalStep (form : Form) (env : Env) :
    AgreeOn (·.fit = true) (·.fit = true) (evalStep ev form env)
      (SplatLisp.evalStep ev' form env) := by
  have hstep : AgreeOn (·.fit = true) (·.fit = true) (SplatLisp.evalStep ev form env)
      (SplatLisp.evalStep ev' form env) :=
    (tracked_fit H H).evalStep (w := ()) (fun _ form env _ => hev form env)
      (.inl trivial) env
  cases form with
  | group bracket items pos =>
    cases bracket with
    | round => exact agreeOn_evalCall hev env items
    | square => exact hstep
  | _ => exact hstep

end Agreement

/-- **No index is ever out of range**: where the values that are bound are fit, evaluation by
indices is evaluation. -/
theorem agreeOn_eval (bound : Nat) (form : Form) (env : Env) :
    AgreeOn (·.fit = true) (·.fit = true) (eval bound form env)
      (SplatLisp.eval bound form env) := by
  induction bound generalizing form env with
  | zero => exact .throw .exhausted
  | succ bound ih => exact agreeOn_evalStep ih form env

theorem agreeOn_evalForms (bound : Nat) (forms : List Form) (env : Env) :
    AgreeOn (·.fit = true) (·.fit = true) (evalForms (eval bound) forms env)
      (evalForms (SplatLisp.eval bound) forms env) :=
  (tracked_fit H H).evalForms (w := ()) (fun _ _ => trivial)
    (fun _ form env _ => agreeOn_eval bound form env) env

end Indexed

end SplatLisp
