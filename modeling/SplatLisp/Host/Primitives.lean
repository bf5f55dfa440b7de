import SplatLisp.Eval.Host

/-!
# Probe primitives

Primitives of a surrounding program that treat their argument forms in three ways: one counts them
and evaluates none, one refuses the first of them, and one makes a vector of what they come to
(`HostPrims.probes`).
-/

namespace SplatLisp

namespace PrimOp

/-- Counts the forms. -/
def count : PrimOp := .host 0

/-- Refuses the first form. -/
def refuse : PrimOp := .host 1

/-- Makes a vector of the arguments. -/
def collect : PrimOp := .host 2

end PrimOp

/-- What the probe primitives do, by their codes. -/
def runProbe (code : Nat) (ev : Evaluator) (forms : List Form) (env : Env) : Eval Value :=
  match code with
  | 0 => pure (.int (.ofNat forms.length))
  | 1 =>
    match forms with
    | [] => Eval.fail (.custom "host failure")
    | form :: _ => Eval.fail (.custom ("Invalid host form: " ++ form.text))
  | 2 => do pure (.vec (← evalArgs ev forms env))
  | _ => throw .broken

namespace Eval

variable {α β : Type} {ev ev' : Evaluator}

theorem Deepens.evalArgs (h : ∀ form env c, Deepens c (ev form env) (ev' form env))
    (forms : List Form) (env : Env) (c : Context) :
    Deepens c (evalArgs ev forms env) (evalArgs ev' forms env) := by
  induction forms generalizing c with
  | nil => exact .refl _
  | cons form forms ih =>
    rw [evalArgs_cons, evalArgs_cons]
    refine (h form env c).bind fun value d _ => (Deepens.refl (spread value)).bind fun _ e _ => ?_
    exact (ih e).bind fun _ _ _ => .refl _

theorem KeepsFrames.spread (value : Value) : KeepsFrames (spread value) := by
  unfold SplatLisp.spread
  split
  · split
    · exact .pure _
    · exact .fail _
  · exact .pure _

theorem KeepsFrames.evalArgs (h : ∀ form env, KeepsFrames (ev form env)) (forms : List Form)
    (env : Env) : KeepsFrames (evalArgs ev forms env) := by
  induction forms with
  | nil => exact .pure _
  | cons form forms ih =>
    rw [evalArgs_cons]
    exact (h form env).bind fun value => (KeepsFrames.spread value).bind fun _ =>
      ih.bind fun _ => .pure _

end Eval

open Eval

/-- The probe primitives, and no others. -/
@[reducible]
def HostPrims.probes : HostPrims where
  run := runProbe
  deepens h code forms env c := by
    unfold runProbe
    split
    · exact .refl _
    · exact .refl _
    · exact (Deepens.evalArgs h forms env c).bind fun _ _ _ => .refl _
    · exact .refl _
  keepsFrames h code forms env := by
    unfold runProbe
    split
    · exact .pure _
    · split
      · exact .fail _
      · exact .fail _
    · exact (KeepsFrames.evalArgs h forms env).bind fun _ => .pure _
    · exact .throw _

end SplatLisp
