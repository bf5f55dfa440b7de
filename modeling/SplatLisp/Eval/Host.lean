import SplatLisp.Eval.Calls

/-!
# Primitives of the surrounding program

The surrounding program may bring primitives of its own. They get their argument forms as they are,
with the places in them, an environment, and an evaluator for forms, and do what they like with the
context; a code tells which one is meant. What they do is fixed for a whole program (`HostPrims`),
so it is passed on as an instance. `HostPrims.none` is a program without any.
-/

namespace SplatLisp

namespace Eval

variable {α β : Type}

/-- Whether a computation has ended before its bound on nesting was reached. -/
def Finished : EStateM.Result Stop Context α → Prop
  | .error .exhausted _ => False
  | _ => True

/-- Whether a computation ends as another one does in a context, unless that one is exhausted. -/
def Deepens (c : Context) (x y : Eval α) : Prop := Finished (x c) → y c = x c

namespace Deepens

variable {c : Context}

theorem refl (x : Eval α) : Deepens c x x := fun _ => rfl

theorem trans {x y z : Eval α} (hxy : Deepens c x y) (hyz : Deepens c y z) : Deepens c x z := by
  intro hx
  have hy := hxy hx
  rw [← hy] at hx ⊢
  exact hyz hx

/-- Everything ends as what is exhausted at once. -/
theorem exhausted (y : Eval α) : Deepens c (throw .exhausted) y := False.elim

theorem bind {x y : Eval α} {f g : α → Eval β} (hxy : Deepens c x y)
    (hfg : ∀ a d, x c = .ok a d → Deepens d (f a) (g a)) : Deepens c (x >>= f) (y >>= g) := by
  intro hc
  change Finished (EStateM.bind x f c) at hc
  change EStateM.bind y g c = EStateM.bind x f c
  unfold Deepens at hxy
  unfold EStateM.bind at hc ⊢
  cases hresult : x c with
  | ok a d =>
    rw [hresult] at hc hxy
    rw [hxy trivial]
    exact hfg a d hresult hc
  | error stop d =>
    rw [hresult] at hc hxy
    have hstop : Finished (.error stop d : EStateM.Result Stop Context α) := by
      cases stop with
      | exhausted => exact hc.elim
      | _ => trivial
    rw [hxy hstop]

end Deepens

/-- Whether a computation takes no frame away. -/
def KeepsFrames (x : Eval α) : Prop :=
  ∀ c : Context, c.heap.frames.size ≤ (x.after c).heap.frames.size

theorem KeepsFrames.pure (a : α) : KeepsFrames (Pure.pure a) := fun _ => Nat.le_refl _

theorem KeepsFrames.throw (stop : Stop) : KeepsFrames (MonadExcept.throw stop : Eval α) :=
  fun _ => Nat.le_refl _

theorem KeepsFrames.fail (cause : Cause) : KeepsFrames (Eval.fail cause : Eval α) :=
  fun _ => Nat.le_refl _

theorem KeepsFrames.bind {x : Eval α} {f : α → Eval β} (hx : KeepsFrames x)
    (hf : ∀ a, KeepsFrames (f a)) : KeepsFrames (x >>= f) := by
  intro c
  have hxc := hx c
  cases hresult : x c with
  | ok a d =>
    rw [after_of_ok hresult] at hxc
    rw [after_bind_of_ok hresult]
    exact Nat.le_trans hxc (hf a d)
  | error stop d =>
    rw [after_of_error hresult] at hxc
    rwa [after_bind_of_error hresult]

end Eval

open Eval

/-- What the primitives of the surrounding program do, by their codes. -/
class HostPrims where
  /-- Carries a primitive out on its argument forms in an environment, over any evaluator of single
  forms. -/
  run : Nat → Evaluator → List Form → Env → Eval Value
  /-- How deep evaluations may nest cannot be found out, except by being exhausted. -/
  deepens : ∀ {ev ev' : Evaluator}, (∀ form env c, Deepens c (ev form env) (ev' form env)) →
    ∀ code forms env c, Deepens c (run code ev forms env) (run code ev' forms env)
  /-- Frames can be made and written to, but not taken away. -/
  keepsFrames : ∀ {ev : Evaluator}, (∀ form env, KeepsFrames (ev form env)) →
    ∀ code forms env, KeepsFrames (run code ev forms env)

/-- No primitives but the core ones. -/
@[reducible]
def HostPrims.none : HostPrims where
  run _ _ _ _ := throw .broken
  deepens _ _ _ _ _ := .refl _
  keepsFrames _ _ _ _ _ := Nat.le_refl _

namespace CoreOnly

/-- Where this is opened, evaluation knows the core primitives alone. -/
scoped instance : HostPrims := .none

end CoreOnly

end SplatLisp
