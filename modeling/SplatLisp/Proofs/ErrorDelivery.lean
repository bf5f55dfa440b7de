import SplatLisp.Eval.Source
import SplatLisp.Proofs.Inherited

/-!
# The policy decides how an error is delivered, and nothing else

The same computation is run from one state under both policies. `Delivered` says how the outcomes
correspond: they are the same, except that an error which is handed back under `report` aborts
under `abort`, with the error's text, which the sink for errors has been given as a line; all else
is as it is when the error is handed back. Under `report` nothing is written but output
(`Context.Quiet`), so the sink for errors is left alone unless it is the one for output.

A computation is `Alike` if this holds from every state. Computations one after the other are alike
if each is (`Alike.bind`): the second one is run under both policies from states that differ in the
policy alone, and not at all once the first has delivered an error. The only step that looks at the
policy is `Eval.raise`, so reading, evaluating and loading are all alike (`delivery`).
-/

namespace SplatLisp

open scoped CoreOnly

/-- The context under a policy. -/
def Context.under (context : Context) (policy : Policy) : Context :=
  { context with diagnostics := { context.diagnostics with policy } }

namespace Context

variable (context : Context)

@[simp] theorem under_heap (p : Policy) : (context.under p).heap = context.heap := rfl

@[simp] theorem under_diagnostics (p : Policy) :
    (context.under p).diagnostics = ⟨p, context.diagnostics.sink⟩ := rfl

theorem under_eq_self {context : Context} {p : Policy} (h : context.diagnostics.policy = p) :
    context.under p = context := by
  subst h
  rfl

/-- Of all sinks, at most the one for output has been written to, under `report`. So the one for
errors has not, unless the two are the same. -/
structure Quiet (old new : Context) : Prop where
  diagnostics : new.diagnostics = ⟨.report, old.diagnostics.sink⟩
  out : new.out = old.out
  others : ∀ ref ≠ old.out, new.sinks.get ref = old.sinks.get ref

theorem quiet_of_sinks_eq {old new : Context} (hsinks : new.sinks = old.sinks)
    (hsink : new.diagnostics.sink = old.diagnostics.sink) (hout : new.out = old.out) :
    old.Quiet (new.under .report) where
  diagnostics := by rw [under_diagnostics, hsink]
  out := hout
  others ref _ := congrArg (Sinks.get · ref) hsinks

theorem quiet_under (context : Context) : context.Quiet (context.under .report) :=
  quiet_of_sinks_eq rfl rfl rfl

theorem Quiet.trans {a b c : Context} (hab : a.Quiet b) (hbc : b.Quiet c) : a.Quiet c where
  diagnostics := by rw [hbc.diagnostics, hab.diagnostics]
  out := hbc.out.trans hab.out
  others ref href := (hbc.others ref (hab.out ▸ href)).trans (hab.others ref href)

end Context

namespace Eval

variable {α β : Type}

/-- How the outcome of a run under `report`, from a state, corresponds to the outcome of the run
from the same state under `abort`. -/
inductive Delivered (start : Context) :
    EStateM.Result Stop Context α → EStateM.Result Stop Context α → Prop
  | value (a : α) (final : Context) (hquiet : start.Quiet final) :
    Delivered start (.ok a final) (.ok a (final.under .abort))
  /-- An error is handed back, or else given to the sink for errors before it aborts. -/
  | failure (error : Error) (final : Context) (sinks : Sinks) (hquiet : start.Quiet final)
    (htook : final.sinks.Took start.diagnostics.sink (error.text ++ "\n") sinks) :
    Delivered start (.error (.failed error) final)
      (.error (.aborted error.text) { final.under .abort with sinks })
  | exhausted (final : Context) (hquiet : start.Quiet final) :
    Delivered start (.error .exhausted final) (.error .exhausted (final.under .abort))
  | broken (final : Context) (hquiet : start.Quiet final) :
    Delivered start (.error .broken final) (.error .broken (final.under .abort))

/-- What follows on a quiet run counts from its start. -/
theorem Delivered.from_start {start mid : Context} {r r' : EStateM.Result Stop Context α}
    (hquiet : start.Quiet mid) (h : Delivered mid r r') : Delivered start r r' := by
  cases h with
  | value a final h => exact .value a final (hquiet.trans h)
  | failure error final sinks h htook =>
    rw [hquiet.diagnostics] at htook
    exact .failure error final sinks (hquiet.trans h) htook
  | exhausted final h => exact .exhausted final (hquiet.trans h)
  | broken final h => exact .broken final (hquiet.trans h)

/-- The text of the error that a computation hands back, if it does. -/
def failure? : EStateM.Result Stop Context α → Option String
  | .error (.failed error) _ => some error.text
  | _ => none

/-- What the two sinks show of an error if they are not the same, and the one for errors is a
buffer. -/
theorem Delivered.of_failure {start : Context} {r r' : EStateM.Result Stop Context α}
    {text : String} (h : Delivered start r r') (hr : failure? r = some text)
    (hsinks : start.diagnostics.sink ≠ start.out)
    (hbuffer : (start.sinks.get start.diagnostics.sink).kind = .buffer) :
    ∃ error final sinks, error.text = text ∧ r = .error (.failed error) final ∧
      r' = .error (.aborted text) { final.under .abort with sinks } ∧
      final.sinks.get start.diagnostics.sink = start.sinks.get start.diagnostics.sink ∧
      (sinks.get start.diagnostics.sink).output =
        (start.sinks.get start.diagnostics.sink).output ++ (text ++ "\n") ∧
      sinks.get start.out = final.sinks.get start.out := by
  cases h with
  | failure error final sinks hquiet htook =>
    obtain rfl : error.text = text := Option.some.inj hr
    have hkept := hquiet.others _ hsinks
    refine ⟨error, final, sinks, rfl, rfl, rfl, hkept, ?_, htook.others _ hsinks.symm⟩
    rw [htook.own.output (hkept ▸ hbuffer), hkept]
  | value | exhausted | broken => cases hr

/-- Whether the policy decides how errors of a computation are delivered, and nothing else. -/
def Alike (x : Eval α) : Prop :=
  ∀ context : Context, Delivered context (x (context.under .report)) (x (context.under .abort))

theorem Alike.pure (a : α) : Alike (Pure.pure a) :=
  fun c => .value a (c.under .report) c.quiet_under

theorem Alike.exhausted : Alike (throw .exhausted : Eval α) :=
  fun c => .exhausted (c.under .report) c.quiet_under

theorem Alike.broken : Alike (throw .broken : Eval α) :=
  fun c => .broken (c.under .report) c.quiet_under

theorem Alike.raise (error : Error) : Alike (Eval.raise error : Eval α) :=
  fun c => .failure error (c.under .report) _ c.quiet_under (Sinks.took_writeLine ..)

theorem Alike.fail (cause : Cause) : Alike (Eval.fail cause : Eval α) := Alike.raise (.plain cause)

theorem Alike.bind {x : Eval α} {f : α → Eval β} (hx : Alike x) (hf : ∀ a, Alike (f a)) :
    Alike (x >>= f) := by
  intro c
  have hxc := hx c
  change Delivered _ (EStateM.bind x f (c.under .report)) (EStateM.bind x f (c.under .abort))
  unfold EStateM.bind
  generalize x (c.under .report) = r₁ at hxc
  generalize x (c.under .abort) = r₂ at hxc
  cases hxc with
  | value a final hquiet =>
    -- The second computation starts from states that differ in the policy alone.
    have hfa := hf a final
    rw [Context.under_eq_self (congrArg Diagnostics.policy hquiet.diagnostics)] at hfa
    exact hfa.from_start hquiet
  | failure error final sinks hquiet htook => exact .failure error final sinks hquiet htook
  | exhausted final hquiet => exact .exhausted final hquiet
  | broken final hquiet => exact .broken final hquiet

/-- A step that neither fails nor looks at diagnostics, and writes output at most, is alike. -/
theorem Alike.step {f : Context → α × Context}
    (hvalue : ∀ c p, (f (c.under p)).1 = (f c).1)
    (hnext : ∀ c p, (f (c.under p)).2 = (f c).2.under p)
    (hquiet : ∀ c : Context, c.Quiet ((f c).2.under .report)) : Alike (modifyGet f) := by
  intro c
  change Delivered _ (.ok (f (c.under .report)).1 (f (c.under .report)).2)
    (.ok (f (c.under .abort)).1 (f (c.under .abort)).2)
  rw [hvalue, hvalue, hnext, hnext]
  exact .value (f c).1 ((f c).2.under .report) (hquiet c)

theorem Alike.define (env : Env) (symbol : Symbol) (value : Value) :
    Alike (Eval.define env symbol value) :=
  Alike.step (fun _ _ => rfl) (fun _ _ => rfl) fun _ => Context.quiet_of_sinks_eq rfl rfl rfl

theorem Alike.child (env : Env) : Alike (Eval.child env) :=
  Alike.step (fun _ _ => rfl) (fun _ _ => rfl) fun _ => Context.quiet_of_sinks_eq rfl rfl rfl

theorem Alike.fresh : Alike Eval.fresh :=
  Alike.step (fun _ _ => rfl) (fun _ _ => rfl) fun _ => Context.quiet_of_sinks_eq rfl rfl rfl

theorem Alike.lookup (env : Env) (symbol : Symbol) : Alike (Eval.lookup env symbol) := by
  intro c
  rw [lookup_eq, lookup_eq, Context.under_heap, Context.under_heap]
  cases c.heap.lookup env symbol with
  | some value => exact .value value (c.under .report) c.quiet_under
  | none => exact Alike.fail (.unknownId symbol) c

theorem Alike.writeLine (text : String) : Alike (Eval.writeLine text) := by
  refine Alike.step (fun _ _ => rfl) (fun _ _ => rfl) fun c => ⟨rfl, rfl, fun ref href => ?_⟩
  exact Sinks.get_writeLine_of_ne href c.sinks text

/-- All that evaluation consists of is alike. -/
theorem inherited_alike : Inherited (fun _ _ x => Alike x) (fun _ _ x => Alike x) where
  pure _ _ a := Alike.pure a
  bind _ _ _ _ _ hx hf := Alike.bind hx hf
  fail _ _ cause := Alike.fail cause
  exhausted _ _ := Alike.exhausted
  broken _ _ := Alike.broken
  lookup env symbol := Alike.lookup env symbol
  fresh _ := Alike.fresh
  typeOf _ value := fun c =>
    Delivered.value (Value.type (c.types.typeOf value)) (c.under .report) c.quiet_under
  writeLine _ text := Alike.writeLine text
  name env _ symbol _ := Alike.define env symbol _
  define frame symbol value := Alike.define frame symbol value
  frame_of _ _ _ hx := hx
  frame_bind _ _ _ _ _ hx hf := Alike.bind hx hf
  scope _ outer _ _ hf := Alike.bind (Alike.child outer) hf
  host _ _ _ _ _ := Alike.broken

/-- Reading looks at the text and the symbols alone. -/
theorem Alike.readChars (pos : Pos) (chars : List Char) : Alike (Eval.readChars pos chars) := by
  refine Alike.bind ?_ fun outcome => ?_
  · refine Alike.step (fun _ _ => rfl) (fun _ _ => rfl) fun _ => ?_
    exact Context.quiet_of_sinks_eq rfl rfl rfl
  cases outcome with
  | ok forms => exact Alike.pure forms
  | error failure => exact Alike.raise (.read failure)

theorem Alike.evalChars (bound : Nat) (pos : Pos) (chars : List Char) (env : Env) :
    Alike (Eval.evalChars bound pos chars env) := by
  refine Alike.bind (Alike.readChars pos chars) fun forms => ?_
  exact inherited_alike.evalForms (inherited_alike.eval bound) env forms

/-- **Debug mode changes only how a failure is delivered**, in reading a text, in evaluating one and
in loading a file. -/
theorem delivery (bound : Nat) (read : ReadFile) (pos : Pos) (text name : String) (env : Env) :
    Alike (Eval.readChars pos text.toList) ∧ Alike (evalText bound pos text env) ∧
      Alike (load bound read name env) := by
  refine ⟨Alike.readChars pos text.toList, Alike.evalChars bound pos text.toList env, ?_⟩
  unfold load
  cases read name with
  | ok bytes => exact Alike.evalChars bound (.start name) (Utf8.decode bytes) env
  | error reason => exact Alike.fail (.loadFailed name reason)

/-- A file that dumps a number and then fails, with buffers for errors and for output. Under both
policies the number is shown; the error is shown where it aborts, and nowhere else. -/
theorem delivery_dumped :
    let c := Context.new { sinks := ⟨#[.new .buffer, .new .buffer]⟩ }
    let read : ReadFile := fun _ => .ok "(dump 1) (+ F)".toUTF8
    let run := load 8 read "sum" .root
    ∃ error final sinks, error.text = "Error: Expected Int: F" ∧
      run (c.under .report) = .error (.failed error) final ∧
      run (c.under .abort) =
        .error (.aborted "Error: Expected Int: F") { final.under .abort with sinks } ∧
      (final.sinks.get c.diagnostics.sink).output = "" ∧
      (final.sinks.get c.out).output = "1\n" ∧
      (sinks.get c.diagnostics.sink).output = "Error: Expected Int: F\n" ∧
      (sinks.get c.out).output = "1\n" := by
  intro c read run
  have hfailure : failure? (run (c.under .report)) = some "Error: Expected Int: F" := by
    decide +kernel
  have hshown : ((run.after (c.under .report)).sinks.get c.out).output = "1\n" := by
    decide +kernel
  have hdelivered := (delivery 8 read (.start "sum") "" "sum" .root).2.2 c
  obtain ⟨error, final, sinks, htext, hreport, habort, hkept, herrors, hout⟩ :=
    hdelivered.of_failure hfailure (by decide) rfl
  have hfinal : (final.sinks.get c.out).output = "1\n" := by
    unfold Eval.after at hshown
    rwa [show run (c.under .report) = _ from hreport] at hshown
  refine ⟨error, final, sinks, htext, hreport, habort, ?_, hfinal, herrors, ?_⟩
  · rw [hkept]
    rfl
  · rw [hout, hfinal]

end Eval

end SplatLisp
