import Mathlib.Order.CompleteBooleanAlgebra
import Mathlib.Order.CompletePartialOrder
import SplatLisp.Proofs.Bindings
import SplatLisp.Proofs.Requests
import SplatLisp.Proofs.Tracking

/-!
# No evaluation breaks

An operation looks at some of the forms it is given without asking whether they are there
(`PrimOp.needs`). They are, if its primitive takes no fewer: forms are counted before a primitive
runs, and arguments before a function does. What a primitive of the surrounding program needs is not
known. Whether all primitives in a value are core ones that take what they need is said by
`Value.fit`, and of all values that a heap binds by `Heap.Fit`. Evaluation keeps heaps fit, gives
fit values, and stops only because it nests too deep or because of a plain error, which is delivered
as the policy demands (`Eval.proper_eval`). Being fit is one of the properties that evaluation
tracks (`Eval.tracked_proper`).
-/

namespace SplatLisp

/-- Whether an operation is one of the surrounding program. -/
def PrimOp.isHost : PrimOp → Bool
  | host _ => true
  | _ => false

namespace Value

mutual

/-- Whether the primitives in a value are core ones and take the forms that their operations
need. -/
def fit : Value → Bool
  | prim p => !p.op.isHost && p.op.needs ≤ p.minArgs
  | vec items => fitItems items
  | splat inner => fit inner
  | _ => true

def fitItems : List Value → Bool
  | [] => true
  | item :: items => fit item && fitItems items

end

theorem fitItems_iff {items : List Value} :
    fitItems items = true ↔ ∀ item ∈ items, item.fit = true := by
  induction items with
  | nil => simp [fitItems]
  | cons item items ih => simp [fitItems, ih]

theorem fit_prim_iff {prim : Prim} :
    (Value.prim prim).fit = true ↔ prim.op.isHost = false ∧ prim.op.needs ≤ prim.minArgs := by
  simp [fit]

/-- No primitive of the surrounding program is fit. -/
theorem not_fit_of_host {prim : Prim} {code : Nat} (hop : prim.op = .host code) :
    ¬ (Value.prim prim).fit = true := by
  rw [fit_prim_iff, hop]
  exact fun h => Bool.noConfusion h.1

end Value

/-- Whether all values that a heap binds are fit. -/
def Heap.Fit (heap : Heap) : Prop := heap.Binds (·.fit = true)

/-! ## Computations that end properly -/

/-- What an error stops a computation with. -/
def Policy.stop (policy : Policy) (error : Error) : Stop :=
  match policy with
  | .report => .failed error
  | .abort => .aborted error.text

/-- Why evaluation may stop. -/
inductive Policy.Stops (policy : Policy) : Stop → Prop
  | plain (cause : Cause) : Stops policy (policy.stop (.plain cause))
  | exhausted : Stops policy .exhausted

/-- A context with a fit heap and a policy. -/
structure Context.Fit (policy : Policy) (c : Context) : Prop where
  heap : c.heap.Fit
  policy : c.diagnostics.policy = policy

namespace Eval

variable {α β : Type} {p : Policy} {P : α → Prop} {Q : β → Prop}

/-- A computation has ended with a result that has a property, or has stopped for a reason that is
allowed; the context is fit and has the policy that it had. -/
inductive Ends (p : Policy) (P : α → Prop) : EStateM.Result Stop Context α → Prop
  | ok {a : α} {c : Context} (ha : P a) (hc : c.Fit p) : Ends p P (.ok a c)
  | error {stop : Stop} {c : Context} (hstop : p.Stops stop) (hc : c.Fit p) :
    Ends p P (.error stop c)

/-- Whether a computation ends properly from every fit context. -/
def Proper (P : α → Prop) (x : Eval α) : Prop := ∀ p c, Context.Fit p c → Ends p P (x c)

theorem Proper.pure {a : α} (h : P a) : Proper P (Pure.pure a) := fun _ _ hc => .ok h hc

theorem Proper.bind {x : Eval α} {f : α → Eval β} (hx : Proper P x)
    (hf : ∀ a, P a → Proper Q (f a)) : Proper Q (x >>= f) := by
  intro p c hc
  have hends := hx p c hc
  change Ends p Q (EStateM.bind x f c)
  unfold EStateM.bind
  generalize x c = result at hends
  cases hends with
  | ok ha hd => exact hf _ ha p _ hd
  | error hstop hd => exact .error hstop hd

/-- What ends properly leads from fit heaps to fit heaps, whatever the policy. -/
theorem Proper.after {x : Eval α} (h : Proper P x) {c : Context} (hc : c.heap.Fit) :
    (x.after c).heap.Fit := by
  have hends := h c.diagnostics.policy c ⟨hc, rfl⟩
  unfold Eval.after
  generalize x c = result at hends ⊢
  cases hends with
  | ok _ hd => exact hd.heap
  | error _ hd => exact hd.heap

theorem Proper.exhausted : Proper P (throw .exhausted : Eval α) :=
  fun _ _ hc => .error .exhausted hc

theorem Proper.fail (cause : Cause) : Proper P (Eval.fail cause : Eval α) := by
  rintro p c ⟨hheap, rfl⟩
  have hstop : c.diagnostics.policy.Stops _ := .plain cause
  unfold Eval.fail
  rw [raise_eq]
  cases hpolicy : c.diagnostics.policy with
  | report =>
    rw [hpolicy] at hstop
    exact .error hstop ⟨hheap, hpolicy⟩
  | abort =>
    rw [hpolicy] at hstop
    exact .error hstop ⟨hheap, hpolicy⟩

theorem Proper.lookup (env : Env) (symbol : Symbol) :
    Proper (·.fit = true) (Eval.lookup env symbol) := by
  intro p c hc
  rw [lookup_eq]
  cases hvalue : c.heap.lookup env symbol with
  | none => exact Proper.fail _ p c hc
  | some value => exact .ok (hc.heap.lookup hvalue) hc

theorem Proper.define (env : Env) (symbol : Symbol) {value : Value} (h : value.fit = true) :
    Proper (fun _ => True) (Eval.define env symbol value) :=
  fun _ _ hc => .ok trivial ⟨hc.heap.define env symbol h, hc.policy⟩

theorem Proper.child (env : Env) : Proper (fun _ => True) (Eval.child env) :=
  fun _ _ hc => .ok trivial ⟨hc.heap.alloc (some env), hc.policy⟩

theorem Proper.writeLine (text : String) : Proper (fun _ => True) (Eval.writeLine text) :=
  fun _ _ hc => .ok trivial ⟨hc.heap, hc.policy⟩

/-! ## Evaluation -/

variable [HostPrims]

/-- Evaluation makes fit values of fit values, so no primitive is short of forms. -/
theorem tracked_proper : Tracked (W := Unit) (fun _ v => v.fit = true)
    (fun _ _ Q x => Proper (Q ()) x) where
  mono _ hv := hv
  nil _ := rfl
  bool _ _ := rfl
  int _ _ := rfl
  vec_iff := Value.fitItems_iff
  splat_iff := .rfl
  pure := .pure
  bind hx hf := hx.bind fun a ha => hf () le_rfl a ha
  fail := .fail
  exhausted := .exhausted
  broken hprim hshort := absurd (Value.fit_prim_iff.1 hprim).2 (Nat.not_le.2 hshort)
  lookup := .lookup
  define env symbol _ hvalue := .define env symbol hvalue
  child := .child
  fresh _ _ := fun _ _ hc => .ok rfl ⟨hc.heap, hc.policy⟩
  typeOf _ := fun _ _ hc => .ok rfl hc
  writeLine := .writeLine
  host hprim hop := absurd hprim (Value.not_fit_of_host hop)

/-- **No evaluation breaks**: from a fit context it gives a fit value, nests too deep, or fails. -/
theorem proper_eval (bound : Nat) (form : Form) (env : Env) :
    Proper (·.fit = true) (eval bound form env) :=
  tracked_proper.eval bound () form env

theorem proper_evalForms (bound : Nat) (forms : List Form) (env : Env) :
    Proper (·.fit = true) (evalForms (eval bound) forms env) :=
  tracked_proper.evalForms (tracked_proper.eval bound) (w := ()) forms env

theorem fit_evalChars (bound : Nat) (pos : Pos) (chars : List Char) (env : Env) {c : Context}
    (hc : c.heap.Fit) : ((evalChars bound pos chars env).after c).heap.Fit := by
  have hforms : ∀ (forms : List Form) (d : Context), d.heap.Fit →
      ((evalForms (eval bound) forms env).after d).heap.Fit := by
    intro forms d hd
    exact (proper_evalForms bound forms env).after hd
  unfold Eval.after at hforms ⊢
  rw [evalChars_eq]
  cases (Reader.mk chars c.symbols).readAll pos with
  | mk outcome reader =>
    cases outcome with
    | ok forms => exact hforms forms _ hc
    | error failure => exact hc

end Eval

/-! ## Fit contexts -/

/-- A new context binds core primitives alone, which take what their operations need. -/
theorem Context.fit_new (settings : Settings) :
    (new settings).Fit (.ofDebug settings.debug) := by
  have hneeds : ∀ entry ∈ corePrims,
      entry.2.2.2.isHost = false ∧ entry.2.2.2.needs ≤ entry.2.1 := by decide
  refine new_induction settings ⟨Heap.Binds.empty.alloc none, rfl⟩ fun c hc entry hentry => ?_
  have hprim : ∀ identity, (Value.prim ⟨identity, entry.1, entry.2.1, entry.2.2.1,
      entry.2.2.2⟩).fit = true := fun _ => Value.fit_prim_iff.2 (hneeds entry hentry)
  exact ⟨hc.heap.define .root _ (hprim _), hc.policy⟩

/-- Whether a request brings fit values alone. -/
def Request.Fit : Request → Prop
  | call _ _ values => Value.fitItems values = true
  | define _ _ value => value.fit = true
  | _ => True

variable [HostPrims]

theorem Request.Fit.run {c : Context} {request : Request} (h : request.Fit) (hc : c.heap.Fit) :
    (request.run c).heap.Fit := by
  cases request with
  | form bound f env => exact (Eval.proper_eval bound f env).after hc
  | args bound fs env =>
    exact (Eval.tracked_proper.evalArgs (Eval.tracked_proper.eval bound) (w := ()) fs env).after hc
  | call bound fn values =>
    exact (Eval.tracked_proper.applyClosure (Eval.tracked_proper.eval bound) (w := ()) (.fn fn) fn
      (Value.fitItems_iff.1 h)).after hc
  | text bound pos source env => exact Eval.fit_evalChars bound pos source.toList env hc
  | load bound read name env =>
    change ((Eval.load bound read name env).after c).heap.Fit
    unfold Eval.load
    cases read name with
    | ok bytes => exact Eval.fit_evalChars bound (.start name) (Utf8.decode bytes) env hc
    | error reason =>
      have hfail : Eval.Proper (fun _ : Value => True) (Eval.fail (.loadFailed name reason)) :=
        .fail _
      exact hfail.after hc
  | frame parent => exact hc.alloc parent
  | define env symbol value => exact hc.define env symbol h
  | intern name => exact hc
  | fresh => exact hc
  | register name =>
    obtain ⟨types, hrun⟩ := exists_types_run_register name c
    rw [hrun]
    exact hc
  | configure sinks diagnostics out => exact hc

/-- All contexts are fit that requests with fit values lead to. -/
theorem Context.fit_of_reachable {c : Context} (h : c.Reachable fun _ request => request.Fit) :
    c.heap.Fit := by
  induction h with
  | new settings => exact (fit_new settings).heap
  | next _ request hlegal ih => exact Request.Fit.run hlegal ih

end SplatLisp
