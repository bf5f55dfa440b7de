import SplatLisp.Heap

/-!
# What holds of all values that a heap binds

A property of all values bound in a heap (`Heap.Binds`) holds of what is looked up, stays when a
frame is made, and stays when a value is bound that has it.
-/

namespace SplatLisp.Heap

variable {P : Value → Prop} {heap : Heap} {env : Env} {symbol : Symbol} {value : Value}

/-- Whether all values that are bound in a heap have a property. -/
def Binds (P : Value → Prop) (heap : Heap) : Prop :=
  ∀ ⦃env frame⦄, heap.frame? env = some frame →
    ∀ ⦃symbol slot⦄, frame.get? symbol = some slot → P (slot.value env)

namespace Binds

theorem imp {Q : Value → Prop} (h : heap.Binds P) (hPQ : ∀ v, P v → Q v) : heap.Binds Q :=
  fun _ _ hframe _ _ hslot => hPQ _ (h hframe hslot)

theorem empty : Heap.empty.Binds P := by
  intro env frame hframe
  simp [Heap.empty, Heap.frame?] at hframe

theorem alloc (h : heap.Binds P) (parent : Option Env) : (heap.alloc parent).2.Binds P := by
  intro env frame hframe symbol slot hslot
  rw [frame?_alloc_eq] at hframe
  split at hframe
  · cases hframe
    rw [Frame.get?_empty] at hslot
    cases hslot
  · exact h hframe hslot

theorem define (h : heap.Binds P) (env : Env) (symbol : Symbol) (hvalue : P value) :
    (heap.define env symbol value).Binds P := by
  intro other frame hframe s slot hslot
  rcases frame?_define_eq_some hframe with ⟨rfl, old, hold, rfl⟩ | ⟨-, hold⟩
  · rw [Frame.get?_insert] at hslot
    split at hslot
    · cases hslot
      rwa [Slot.value_ofValue]
    · exact h hold hslot
  · exact h hold hslot

theorem lookup (h : heap.Binds P) (hvalue : heap.lookup env symbol = some value) : P value := by
  fun_induction Heap.lookup heap env symbol with
  | case1 => cases hvalue
  | case2 env frame hframe slot hslot =>
    cases hvalue
    exact h hframe hslot
  | case3 => cases hvalue
  | case4 env frame hframe _ parent _ _ ih => exact ih hvalue
  | case5 => cases hvalue

end Binds

end SplatLisp.Heap
