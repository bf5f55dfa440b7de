import Mathlib.Order.CompleteBooleanAlgebra
import Mathlib.Order.CompletePartialOrder
import SplatLisp.Proofs.Bindings
import SplatLisp.Proofs.FrameEffects
import SplatLisp.Proofs.Tracking

/-!
# Evaluators that agree

Where all values that are bound have a property that evaluation hands on (`Value.Hereditary`), all
values that come up have it. Two evaluators that differ only in what they do where the property
fails agree there (`Eval.AgreeOn`); they may know different primitives of a surrounding program, if
these agree there as well (`Eval.HostsAgreeOn`). One that breaks off at the first value without a
property, on whatever level of the evaluation it comes up (`checked`), does what evaluation does if
the values that come up have it (`Eval.agreeOn_checked`).
-/

namespace SplatLisp

/-- Whether the values made of values with the property `K`, and the functions made of forms with
the property `F`, have the property `K`. The parts of forms have the property that these have;
identifiers need none. -/
structure Value.Hereditary (F : Form → Prop) (K : Value → Prop) : Prop where
  items : ∀ {bracket : Bracket} {items : List Form} {pos : Pos}, F (.group bracket items pos) →
    ∀ item ∈ items, F item
  inner : ∀ {inner : Form} {pos : Pos}, F (.splat inner pos) → F inner ∨ inner.id?.isSome = true
  nil : K .nil
  bool : ∀ b, K (.bool b)
  int : ∀ n, K (.int n)
  type : ∀ t, K (.type t)
  vec_iff : ∀ {items : List Value}, K (.vec items) ↔ ∀ v ∈ items, K v
  splat_iff : ∀ {inner : Value}, K (.splat inner) ↔ K inner
  fn : ∀ {closure : Closure}, closure.fn.WrittenIn F → K (.fn closure)
  body : ∀ {closure : Closure}, K (.fn closure) → ∀ form ∈ closure.fn.body, F form

open Classical in
/-- Evaluation that breaks off at a value without a property. -/
noncomputable def checked [HostPrims] (P : Value → Prop) : Nat → Evaluator
  | 0 => fun _ _ => throw .exhausted
  | bound + 1 => fun form env => do
    let value ← evalStep (checked P bound) form env
    if P value then pure value else throw .broken

namespace Eval

variable {α β : Type} {K : Value → Prop} {P : α → Prop} {Q : β → Prop}

/-- How two computations end that do the same: in one context, where all values that are bound have
a property, and with one result, or for one reason. -/
inductive Agreed (K : Value → Prop) (P : α → Prop) :
    EStateM.Result Stop Context α → EStateM.Result Stop Context α → Prop
  | ok {a : α} {c : Context} (ha : P a) (hc : c.heap.Binds K) : Agreed K P (.ok a c) (.ok a c)
  | error (stop : Stop) {c : Context} (hc : c.heap.Binds K) :
    Agreed K P (.error stop c) (.error stop c)

/-- Whether two computations do the same in every context where all values that are bound have a
property. -/
def AgreeOn (K : Value → Prop) (P : α → Prop) (x x' : Eval α) : Prop :=
  ∀ c : Context, c.heap.Binds K → Agreed K P (x c) (x' c)

theorem AgreeOn.eq {x x' : Eval α} (h : AgreeOn K P x x') {c : Context} (hc : c.heap.Binds K) :
    x c = x' c := by
  have hends := h c hc
  generalize x c = result at hends ⊢
  generalize x' c = result' at hends ⊢
  cases hends with
  | ok _ _ => rfl
  | error _ _ => rfl

theorem AgreeOn.of_ok {x x' : Eval α} (h : AgreeOn K P x x') {c d : Context}
    (hc : c.heap.Binds K) {a : α} (hx : x c = .ok a d) : P a := by
  have hends := h c hc
  rw [hx] at hends
  generalize x' c = result' at hends
  cases hends with
  | ok ha _ => exact ha

theorem AgreeOn.after {x x' : Eval α} (h : AgreeOn K P x x') {c : Context}
    (hc : c.heap.Binds K) : (x.after c).heap.Binds K := by
  have hends := h c hc
  unfold Eval.after
  generalize x c = result at hends ⊢
  generalize x' c = result' at hends
  cases hends with
  | ok _ hd => exact hd
  | error _ hd => exact hd

theorem AgreeOn.pure {a : α} (h : P a) : AgreeOn K P (Pure.pure a) (Pure.pure a) :=
  fun _ hc => .ok h hc

theorem AgreeOn.bind {x x' : Eval α} {f f' : α → Eval β} (hx : AgreeOn K P x x')
    (hf : ∀ a, P a → AgreeOn K Q (f a) (f' a)) : AgreeOn K Q (x >>= f) (x' >>= f') := by
  intro c hc
  have hends := hx c hc
  change Agreed K Q (EStateM.bind x f c) (EStateM.bind x' f' c)
  unfold EStateM.bind
  generalize x c = result at hends ⊢
  generalize x' c = result' at hends ⊢
  cases hends with
  | ok ha hd => exact hf _ ha _ hd
  | error stop hd => exact .error stop hd

theorem AgreeOn.throw (stop : Stop) :
    AgreeOn K P (MonadExcept.throw stop) (MonadExcept.throw stop) :=
  fun _ hc => .error stop hc

theorem AgreeOn.fail (cause : Cause) : AgreeOn K P (Eval.fail cause) (Eval.fail cause) :=
  fun _ hc => .error _ hc

theorem AgreeOn.lookup (env : Env) (symbol : Symbol) :
    AgreeOn K K (Eval.lookup env symbol) (Eval.lookup env symbol) := by
  intro c hc
  rw [lookup_eq]
  cases hvalue : c.heap.lookup env symbol with
  | none => exact .error _ hc
  | some value => exact .ok (hc.lookup hvalue) hc

variable {F : Form → Prop} {H H' : HostPrims}

/-- Whether those primitives of two surrounding programs agree that have a property, if evaluation
does. -/
def HostsAgreeOn (H H' : HostPrims) (F : Form → Prop) (K : Value → Prop) : Prop :=
  ∀ {prim : Prim} {code : Nat}, K (.prim prim) → prim.op = .host code → ∀ {ev ev' : Evaluator},
    (∀ form env, F form ∨ form.id?.isSome = true → AgreeOn K K (ev form env) (ev' form env)) →
    ∀ {forms : List Form}, (∀ form ∈ forms, F form) → ∀ env,
      AgreeOn K K (H.run code ev forms env) (H'.run code ev' forms env)

theorem hostsAgreeOn_none : HostsAgreeOn .none .none F K :=
  fun _ _ _ _ _ _ _ _ => .throw .broken

/-- Evaluation agrees with itself, and comes to values with the property. -/
theorem tracked_agreeOn (h : Value.Hereditary F K) (hhost : HostsAgreeOn H H' F K) :
    TrackedIn H H' (W := Unit) F (fun _ => K) fun _ _ Q x x' => AgreeOn K (Q ()) x x' where
  items := h.items
  inner := h.inner
  body := h.body
  mono _ hv := hv
  nil _ := h.nil
  bool _ := h.bool
  int _ := h.int
  vec_iff := h.vec_iff
  splat_iff := h.splat_iff
  pure := .pure
  bind hx hf := hx.bind fun a ha => hf () le_rfl a ha
  fail := .fail
  exhausted := .throw .exhausted
  broken _ _ := .throw .broken
  lookup := .lookup
  define env symbol _ hvalue := fun _ hc => .ok trivial (hc.define env symbol hvalue)
  child env := fun _ hc => .ok trivial (hc.alloc (some env))
  fresh _ _ hmake := fun _ hc => .ok (h.fn (hmake _)) hc
  typeOf _ := fun _ hc => .ok (h.type _) hc
  writeLine _ := fun _ hc => .ok trivial hc
  host hprim hop _ _ hev _ hforms env := hhost hprim hop (hev ()) hforms env

/-- The check makes no difference if all values have a property that implies the one that is
checked. -/
theorem agreeOn_checked [H : HostPrims] (h : Value.Hereditary F K)
    (hhost : HostsAgreeOn H H F K) {P : Value → Prop} (hP : ∀ v, K v → P v)
    (bound : Nat) (form : Form) (env : Env) (hform : F form ∨ form.id?.isSome = true) :
    AgreeOn K K (checked P bound form env) (eval bound form env) := by
  classical
  induction bound generalizing form env with
  | zero => exact .throw .exhausted
  | succ bound ih =>
    intro c hc
    have hstep := (tracked_agreeOn h hhost).evalStep (w := ()) (fun _ => ih) hform env c hc
    change Agreed K K (EStateM.bind (evalStep (checked P bound) form env) _ c) _
    unfold EStateM.bind
    rw [eval_succ]
    generalize evalStep (checked P bound) form env c = result at hstep ⊢
    generalize evalStep (eval bound) form env c = result' at hstep ⊢
    cases hstep with
    | error stop hd => exact .error stop hd
    | ok hvalue hd =>
      dsimp only
      rw [if_pos (hP _ hvalue)]
      exact .ok hvalue hd

end Eval

end SplatLisp
