import SplatLisp.Proofs.Indexing

/-!
# Primitives that nothing leads to

Where no primitive of the surrounding program is bound, none is ever called, so it does not matter
which there are: evaluation, and whatever else a context is asked, comes to the same for all of them
(`Eval.eval_hostless`, `Request.Fit.run_hostless`). In particular the contexts that fit requests
lead to are the same (`Context.reachable_hostless`). Hence what holds of the core primitives alone
holds of every program in such contexts, also of one that has more primitives.
-/

namespace SplatLisp

variable (H H' : HostPrims) {c : Context}

namespace Eval

/-- **Primitives that are not bound have no say in evaluation.** -/
theorem eval_hostless (hc : c.heap.Fit) (bound : Nat) (form : Form) (env : Env) :
    @eval H bound form env c = @eval H' bound form env c :=
  AgreeOn.eq ((tracked_fit H H').eval bound () form env (.inl trivial)) hc

theorem agreeOn_evalForms_hostless (bound : Nat) (forms : List Form) (env : Env) :
    AgreeOn (·.fit = true) (·.fit = true) (evalForms (@eval H bound) forms env)
      (evalForms (@eval H' bound) forms env) :=
  (tracked_fit H H').evalForms (w := ()) (fun _ _ => trivial)
    (fun w form env hform => (tracked_fit H H').eval bound w form env hform) env

theorem evalForms_hostless (hc : c.heap.Fit) (bound : Nat) (forms : List Form) (env : Env) :
    evalForms (@eval H bound) forms env c = evalForms (@eval H' bound) forms env c :=
  (agreeOn_evalForms_hostless H H' bound forms env).eq hc

theorem evalArgs_hostless (hc : c.heap.Fit) (bound : Nat) (forms : List Form) (env : Env) :
    evalArgs (@eval H bound) forms env c = evalArgs (@eval H' bound) forms env c := by
  refine AgreeOn.eq (P := Value.AllOf (fun _ v => v.fit = true) ()) ?_ hc
  exact (tracked_fit H H').evalArgs (w := ()) (fun _ _ => trivial)
    (fun w form env hform => (tracked_fit H H').eval bound w form env hform) env

theorem applyClosure_hostless (hc : c.heap.Fit) (bound : Nat) (callee : Value) (closure : Closure)
    {args : List Value} (hargs : Value.fitItems args = true) :
    applyClosure (@eval H bound) callee closure args c =
      applyClosure (@eval H' bound) callee closure args c := by
  refine AgreeOn.eq (K := (·.fit = true)) (P := (·.fit = true)) ?_ hc
  exact (tracked_fit H H').applyClosure (w := ())
    (fun w form env hform => (tracked_fit H H').eval bound w form env hform) callee
    (fun _ _ => trivial) (Value.fitItems_iff.1 hargs)

theorem evalChars_hostless (hc : c.heap.Fit) (bound : Nat) (pos : Pos) (chars : List Char)
    (env : Env) : @evalChars H bound pos chars env c = @evalChars H' bound pos chars env c := by
  rw [@evalChars_eq H, @evalChars_eq H']
  cases (Reader.mk chars c.symbols).readAll pos with
  | mk outcome reader =>
    cases outcome with
    | error failure => rfl
    | ok forms =>
      have hd : Heap.Fit { c with symbols := reader.symbols }.heap := hc
      exact evalForms_hostless H H' hd bound forms env

theorem load_hostless (hc : c.heap.Fit) (bound : Nat) (read : ReadFile) (name : String)
    (env : Env) : @load H bound read name env c = @load H' bound read name env c := by
  unfold load
  cases read name with
  | ok bytes => exact evalChars_hostless H H' hc bound (.start name) (Utf8.decode bytes) env
  | error reason => rfl

end Eval

open Eval

theorem Eval.after_congr {α : Type} {x y : Eval α} (h : x c = y c) : x.after c = y.after c := by
  unfold after
  rw [h]

/-- What a fit request does to a fit context does not depend on which primitives there are. -/
theorem Request.Fit.run_hostless (hc : c.heap.Fit) {request : Request} (h : request.Fit) :
    @Request.run H request c = @Request.run H' request c := by
  cases request with
  | form bound f env => exact after_congr (eval_hostless H H' hc bound f env)
  | args bound fs env => exact after_congr (evalArgs_hostless H H' hc bound fs env)
  | call bound fn values =>
    exact after_congr (applyClosure_hostless H H' hc bound (.fn fn) fn h)
  | text bound pos source env =>
    exact after_congr (evalChars_hostless H H' hc bound pos source.toList env)
  | load bound read name env => exact after_congr (load_hostless H H' hc bound read name env)
  | _ => rfl

theorem Context.Reachable.hostless (h : @Reachable H (fun _ request => request.Fit) c) :
    @Reachable H' (fun _ request => request.Fit) c := by
  induction h with
  | new settings => exact .new settings
  | next hbefore request hlegal ih =>
    have hfit := fit_of_reachable ih
    rw [Request.Fit.run_hostless H H' hfit hlegal]
    exact .next ih request hlegal

/-- **The contexts that fit requests lead to do not depend on which primitives there are.** -/
theorem Context.reachable_hostless :
    @Reachable H (fun _ request => request.Fit) c ↔
      @Reachable H' (fun _ request => request.Fit) c :=
  ⟨Reachable.hostless H H', Reachable.hostless H' H⟩

end SplatLisp
