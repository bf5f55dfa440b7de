import Mathlib.Order.Defs.Unbundled
import SplatLisp.Proofs.Inherited

/-!
# What evaluation does to frames

Evaluation in an environment writes to the frame of that environment alone, and there it only
binds named functions under their own names (`Heap.WritesTo`). Parameters, rest parameters and the
bindings of a `let` go to frames that are made for them, so applying a function and carrying out a
`let` leave all frames as they were (`Heap.Extends`). `eval_frames` says both, of every evaluation
and however it ends.

A computation is `Within` a relation between heaps if every run of it leads from a heap to a
related one. The relations used here are preorders, so computations stay within them one after the
other (`Within.bind`), and whatever is done to a new frame alone extends the heap
(`Within.child`). Hence all evaluation stays within `Heap.WritesTo` (`inherited_writesTo`).
-/

namespace SplatLisp

/-! ## How heaps change -/

/-- How the frame of an environment may change while code runs in it: the parent and all bindings
are kept, and what a symbol is newly bound to is a function of that name, closed over the frame. -/
structure Frame.Later (env : Env) (old new : Frame) : Prop where
  parent : new.parent = old.parent
  bound : ∀ symbol, (old.get? symbol).isSome → (new.get? symbol).isSome
  changed : ∀ symbol, new.get? symbol ≠ old.get? symbol → ∃ slot fn name,
    new.get? symbol = some slot ∧ slot.value env = .fn ⟨fn, env⟩ ∧ fn.name = some name ∧
      (name == symbol) = true

namespace Heap

variable {env : Env} {old mid new : Heap}

/-- All frames of the old heap are frames of the new one, as they were. -/
def Extends (old new : Heap) : Prop :=
  ∀ ⦃e frame⦄, old.frame? e = some frame → new.frame? e = some frame

/-- All frames of the old heap but that of an environment are as they were. -/
def AgreeOff (env : Env) (old new : Heap) : Prop :=
  ∀ ⦃e frame⦄, e ≠ env → old.frame? e = some frame → new.frame? e = some frame

/-- What evaluation in an environment may do to a heap. -/
structure WritesTo (env : Env) (old new : Heap) : Prop where
  off : AgreeOff env old new
  own : ∀ ⦃frame⦄, old.frame? env = some frame →
    ∃ frame', new.frame? env = some frame' ∧ frame.Later env frame'

end Heap

theorem Frame.Later.refl (env : Env) (frame : Frame) : frame.Later env frame :=
  ⟨rfl, fun _ h => h, fun _ h => absurd rfl h⟩

theorem Frame.Later.trans {env : Env} {a b c : Frame} (hab : a.Later env b) (hbc : b.Later env c) :
    a.Later env c := by
  refine ⟨hbc.parent.trans hab.parent, fun s hs => hbc.bound s (hab.bound s hs), fun s hs => ?_⟩
  -- A binding that is left alone later on has been changed before, if at all.
  by_cases h : c.get? s = b.get? s
  · rw [h] at hs ⊢
    exact hab.changed s hs
  · exact hbc.changed s h

/-- A function may be bound under its own name in the frame that it closes over. -/
theorem Frame.later_insert (env : Env) (frame : Frame) {fn : Fun} {symbol : Symbol}
    (hname : fn.name = some symbol) :
    frame.Later env (frame.insert symbol (.ofValue env (.fn ⟨fn, env⟩))) := by
  refine ⟨rfl, fun s hs => ?_, fun s hs => ?_⟩
  · rw [get?_insert]
    split
    · rfl
    · exact hs
  · rw [get?_insert] at hs ⊢
    by_cases htag : symbol.tag = s.tag
    · rw [if_pos htag]
      exact ⟨_, fn, symbol, rfl, Slot.value_ofValue .., hname, Symbol.beq_iff_tag_eq.2 htag⟩
    · rw [if_neg htag] at hs
      exact absurd rfl hs

namespace Heap

variable {env : Env} {old mid new : Heap}

instance : IsPreorder Heap Extends where
  refl _ := fun _ _ h => h
  trans _ _ _ hab hbc := fun _ _ h => hbc (hab h)

instance : IsPreorder Heap (AgreeOff env) where
  refl _ := fun _ _ _ h => h
  trans _ _ _ hab hbc := fun _ _ hne h => hbc hne (hab hne h)

instance : IsPreorder Heap (WritesTo env) where
  refl heap := ⟨refl heap, fun frame h => ⟨frame, h, .refl env frame⟩⟩
  trans a b c hab hbc := by
    refine ⟨IsTrans.trans _ _ _ hab.off hbc.off, fun frame h => ?_⟩
    obtain ⟨frame₁, h₁, hl₁⟩ := hab.own h
    obtain ⟨frame₂, h₂, hl₂⟩ := hbc.own h₁
    exact ⟨frame₂, h₂, hl₁.trans hl₂⟩

theorem Extends.writesTo (h : Extends old new) : WritesTo env old new :=
  ⟨fun _ _ _ hf => h hf, fun frame hf => ⟨frame, h hf, .refl env frame⟩⟩

theorem agreeOff_define (heap : Heap) (env : Env) (symbol : Symbol) (value : Value) :
    AgreeOff env heap (heap.define env symbol value) := by
  intro e frame hne hf
  rw [frame?_define_of_ne hne, hf]

theorem writesTo_define (heap : Heap) (env : Env) {fn : Fun} {symbol : Symbol}
    (hname : fn.name = some symbol) :
    WritesTo env heap (heap.define env symbol (.fn ⟨fn, env⟩)) := by
  refine ⟨agreeOff_define .., fun frame hf => ?_⟩
  rw [frame?_define_self, hf]
  exact ⟨_, rfl, frame.later_insert env hname⟩

/-- No environment leads to the frame that is made next. -/
theorem frame?_next (heap : Heap) (parent : Option Env) :
    heap.frame? (heap.alloc parent).1 = none := by
  simp [alloc, frame?]

/-- What is done to a new frame alone leaves all frames as they were. -/
theorem extends_of_agreeOff_alloc {parent : Option Env}
    (h : AgreeOff (old.alloc parent).1 (old.alloc parent).2 new) : Extends old new := by
  intro e frame hf
  have hne : e ≠ (old.alloc parent).1 := by
    rintro rfl
    rw [frame?_next] at hf
    cases hf
  exact h hne (frame?_alloc hf parent)

end Heap

/-! ## Computations within a relation -/

/-- What evaluation may do to a context whose heap changes in a certain way: no symbol is interned
and no type registered. -/
structure Context.Step (H : Heap → Heap → Prop) (old new : Context) : Prop where
  heap : H old.heap new.heap
  symbols : new.symbols = old.symbols
  types : new.types = old.types

instance {H : Heap → Heap → Prop} [IsPreorder Heap H] : IsPreorder Context (Context.Step H) where
  refl context := ⟨refl context.heap, rfl, rfl⟩
  trans _ _ _ hab hbc := ⟨IsTrans.trans _ _ _ hab.heap hbc.heap, hbc.symbols.trans hab.symbols,
    hbc.types.trans hab.types⟩

namespace Eval

variable {α β : Type} {H : Heap → Heap → Prop}

/-- Whether all runs of a computation change the heap in a certain way. -/
def Within (H : Heap → Heap → Prop) (x : Eval α) : Prop :=
  ∀ context, Context.Step H context (x.after context)

theorem Within.mono {K : Heap → Heap → Prop} {x : Eval α} (h : Within H x)
    (hHK : ∀ {a b}, H a b → K a b) : Within K x :=
  fun c => ⟨hHK (h c).heap, (h c).symbols, (h c).types⟩

variable [IsPreorder Heap H]

theorem Within.pure (a : α) : Within H (Pure.pure a) := fun c => refl c

theorem Within.throw (stop : Stop) : Within H (MonadExcept.throw stop : Eval α) := fun c => refl c

theorem Within.get : Within H (MonadState.get : Eval Context) := fun c => refl c

theorem Within.bind {x : Eval α} {f : α → Eval β} (hx : Within H x) (hf : ∀ a, Within H (f a)) :
    Within H (x >>= f) := by
  intro c
  have hxc := hx c
  cases h : x c with
  | ok a c' =>
    rw [after_of_ok h] at hxc
    rw [after_bind_of_ok h]
    exact IsTrans.trans _ _ _ hxc (hf a c')
  | error stop c' =>
    rw [after_of_error h] at hxc
    rwa [after_bind_of_error h]

theorem Within.fail (cause : Cause) : Within H (Eval.fail cause : Eval α) :=
  fun c => ⟨refl c.heap, rfl, rfl⟩

theorem Within.fresh : Within H Eval.fresh := fun c => ⟨refl c.heap, rfl, rfl⟩

theorem Within.writeLine (text : String) : Within H (Eval.writeLine text) :=
  fun c => ⟨refl c.heap, rfl, rfl⟩

theorem Within.lookup (env : Env) (symbol : Symbol) : Within H (Eval.lookup env symbol) := by
  refine Within.bind Within.get fun c => ?_
  split
  · exact Within.pure _
  · exact Within.fail _

theorem Within.define (env : Env) (symbol : Symbol) (value : Value) :
    Within (Heap.AgreeOff env) (Eval.define env symbol value) :=
  fun c => ⟨Heap.agreeOff_define c.heap env symbol value, rfl, rfl⟩

omit [IsPreorder Heap H] in
/-- What is done to a new frame alone extends the heap. -/
theorem Within.child (env : Env) {f : Env → Eval α}
    (hf : ∀ frame, Within (Heap.AgreeOff frame) (f frame)) :
    Within Heap.Extends (Eval.child env >>= f) := by
  intro c
  have h := hf (c.heap.alloc (some env)).1 { c with heap := (c.heap.alloc (some env)).2 }
  exact ⟨Heap.extends_of_agreeOff_alloc h.heap, h.symbols, h.types⟩

end Eval

/-- Evaluation takes no frame away, whatever primitives there are. -/
theorem inherited_keepsFrames [HostPrims] :
    Inherited (fun _ _ x => Eval.KeepsFrames x) (fun _ _ x => Eval.KeepsFrames x) where
  pure _ _ a := .pure a
  bind _ _ _ _ _ hx hf := hx.bind hf
  fail _ _ cause := .fail cause
  exhausted _ _ := .throw .exhausted
  broken _ _ := .throw .broken
  lookup env symbol := by
    intro c
    unfold Eval.after
    rw [Eval.lookup_eq]
    cases c.heap.lookup env symbol <;> exact Nat.le_refl _
  fresh _ := fun _ => Nat.le_refl _
  typeOf _ _ := fun _ => Nat.le_refl _
  writeLine _ _ := fun _ => Nat.le_refl _
  name env _ symbol _ := fun c => Nat.le_of_eq (Heap.size_define c.heap env symbol _).symm
  define env symbol value := fun c => Nat.le_of_eq (Heap.size_define c.heap env symbol value).symm
  frame_of _ _ _ hx := hx
  frame_bind _ _ _ _ _ hx hf := hx.bind hf
  scope _ outer _ _ hf := by
    refine Eval.KeepsFrames.bind (fun c => ?_) hf
    change c.heap.frames.size ≤ (c.heap.alloc (some outer)).2.frames.size
    rw [Heap.size_alloc]
    exact Nat.le_succ _
  host env _ hev code forms := HostPrims.keepsFrames (fun form e => hev e form) code forms env

/-! ## Evaluation

Primitives of the surrounding program may write wherever they like, so they are left out. -/

open Eval
open scoped CoreOnly

/-- All that evaluation in an environment consists of writes to the frame of this environment
alone, and what is the first to use a frame to that frame alone. -/
theorem inherited_writesTo :
    Inherited (fun env _ x => Within (Heap.WritesTo env) x)
      (fun frame _ x => Within (Heap.AgreeOff frame) x) where
  pure _ _ a := Within.pure a
  bind _ _ _ _ _ hx hf := Within.bind hx hf
  fail _ _ cause := Within.fail cause
  exhausted _ _ := Within.throw .exhausted
  broken _ _ := Within.throw .broken
  lookup _ symbol := Within.lookup _ symbol
  fresh _ := Within.fresh
  typeOf _ _ := Within.bind Within.get fun _ => Within.pure _
  writeLine _ text := Within.writeLine text
  name env _ _ hname := fun c => ⟨Heap.writesTo_define c.heap env hname, rfl, rfl⟩
  define frame symbol value := Within.define frame symbol value
  frame_of _ _ _ hx := hx.mono Heap.WritesTo.off
  frame_bind _ _ _ _ _ hx hf := Within.bind hx hf
  scope _ outer _ _ hf := (Within.child outer hf).mono Heap.Extends.writesTo
  host _ _ _ _ _ := Within.throw .broken

/-- Evaluation interns nothing. -/
theorem Eval.symbols_evalForms (bound : Nat) (forms : List Form) (env : Env) (c : Context) :
    ((evalForms (eval bound) forms env).after c).symbols = c.symbols :=
  (inherited_writesTo.evalForms (inherited_writesTo.eval bound) env forms c).symbols

/-- What writes at most to the frame of an environment, whichever it is, writes to none. -/
theorem extends_of_forall_writesTo {old new : Heap} (h : ∀ env, old.WritesTo env new) :
    old.Extends new := by
  intro e frame hf
  -- Any other environment will do.
  have hne : e ≠ ⟨e.index + 1⟩ := by
    intro heq
    have hindex : e.index = e.index + 1 := congrArg Env.index heq
    omega
  exact (h ⟨e.index + 1⟩).off hne hf

/-- **Evaluation writes only to the frame it runs in**, however it ends: forms in order, a single
form and argument forms write to the frame of their environment at most, where they bind named
functions; applying a function and carrying out a `let` leave all frames as they were. None of the
core primitives makes an exception. -/
theorem eval_frames (bound : Nat) (env : Env) (context : Context) :
    (∀ forms, context.heap.WritesTo env ((evalForms (eval bound) forms env).after context).heap) ∧
    (∀ form, context.heap.WritesTo env ((eval bound form env).after context).heap) ∧
    (∀ forms, context.heap.WritesTo env ((evalArgs (eval bound) forms env).after context).heap) ∧
    (∀ callee closure args,
      context.heap.Extends ((applyClosure (eval bound) callee closure args).after context).heap) ∧
    (∀ forms,
      context.heap.Extends ((runPrim (eval bound) .bindings forms env).after context).heap) := by
  have hev := inherited_writesTo.eval bound
  refine ⟨fun forms => ?_, fun form => ?_, fun forms => ?_, fun callee closure args => ?_,
    fun forms => ?_⟩
  · exact (inherited_writesTo.evalForms hev env forms context).heap
  · exact (hev env form context).heap
  · exact (inherited_writesTo.evalArgs hev env forms context).heap
  · refine extends_of_forall_writesTo fun e => ?_
    exact (inherited_writesTo.applyClosure hev e callee closure args context).heap
  · refine extends_of_forall_writesTo fun e => ?_
    exact (inherited_writesTo.evalLet hev e env forms context).heap

end SplatLisp
