import SplatLisp.Proofs.Application

/-!
# Calls of core primitives

A core primitive is known by its name: the table of the core primitives has its operation and the
numbers of argument forms that it takes under it (`Prim.IsCore`). A call whose head stands for it
runs the operation (`Eval.eval_core`).

Most operations evaluate all their arguments before anything else. What stops the arguments stops
the call then, and the values decide about the rest (`Eval.ByValue`). They often go by the first
value that is not as it should be, which is the same one however it is found (`first_unique`).
-/

namespace SplatLisp

/-- Whether a primitive is what the table of core primitives has under a name. -/
def Prim.IsCore (prim : Prim) (name : String) : Prop :=
  prim.name = name ∧ Context.corePrims.lookup name = some (prim.minArgs, prim.maxArgs, prim.op)

/-- There is one first element that lacks a property. -/
theorem first_unique {α : Type} {P : α → Prop} {before before' after after' : List α} {x x' : α}
    (h : before ++ x :: after = before' ++ x' :: after') (hbefore : ∀ y ∈ before, P y) (hx : ¬ P x)
    (hbefore' : ∀ y ∈ before', P y) (hx' : ¬ P x') : x = x' := by
  induction before generalizing before' with
  | nil =>
    cases before' with
    | nil => exact (List.cons.inj h).1
    | cons y before' =>
      obtain rfl := (List.cons.inj h).1
      exact absurd (hbefore' x List.mem_cons_self) hx
  | cons y before ih =>
    cases before' with
    | nil =>
      obtain rfl := (List.cons.inj h).1
      exact absurd (hbefore y List.mem_cons_self) hx'
    | cons y' before' =>
      apply ih (List.cons.inj h).2
      · exact fun z hz => hbefore z (List.mem_cons_of_mem _ hz)
      · exact fun z hz => hbefore' z (List.mem_cons_of_mem _ hz)

namespace Eval

variable {ev : Evaluator} {forms : List Form} {env : Env} {b c : Context}

/-- A call runs the core primitive that its head stands for, if that takes so many forms. -/
theorem eval_core [HostPrims] {bound : Nat} {head : Form} {prim : Prim} {name : String} {min : Nat}
    {max : Option Nat} {op : PrimOp} (hhead : eval bound head env b = .ok (.prim prim) c)
    (hprim : prim.IsCore name) (hentry : Context.corePrims.lookup name = some (min, max, op))
    (hcount : min ≤ forms.length ∧ ∀ m ∈ max, forms.length ≤ m) (pos : Pos) :
    eval (bound + 1) (.group .round (head :: forms) pos) env b =
      runPrim (eval bound) op forms env c := by
  have hsame := hprim.2.symm.trans hentry
  simp only [Option.some.injEq, Prod.mk.injEq] at hsame
  obtain ⟨rfl, rfl, rfl⟩ := hsame
  have htakes : prim.Takes forms.length := hcount
  rw [eval_succ, evalStep_prim hhead, if_pos htakes]

/-- Whether a call that comes to `call` evaluates its arguments, which come to `args`, and then ends
as it may with their values. -/
structure ByValue (Ends : Context → List Value → EStateM.Result Stop Context Value → Prop)
    (args : EStateM.Result Stop Context (List Value))
    (call : EStateM.Result Stop Context Value) : Prop where
  stopped : ∀ stop d, args = .error stop d → call = .error stop d
  ended : ∀ values d, args = .ok values d → Ends d values call

theorem byValue_bind {Ends : Context → List Value → EStateM.Result Stop Context Value → Prop}
    {work : List Value → Eval Value} (h : ∀ values d, Ends d values (work values d)) :
    ByValue Ends (evalArgs ev forms env c) ((do work (← evalArgs ev forms env)) c) := by
  change ByValue Ends _ (EStateM.bind _ _ c)
  unfold EStateM.bind
  constructor
  · intro stop d hargs
    rw [hargs]
  · intro values d hargs
    rw [hargs]
    exact h values d

end Eval

end SplatLisp
