import SplatLisp.Eval.Source
import SplatLisp.Proofs.FrameEffects

/-!
# Contexts that a program can bring about

What the surrounding program can ask of a context (`Request`), and the contexts it can bring about
by asking, from a new one (`Context.Reachable`). Which requests it may make is left open. What all
evaluation does to the heap, requests do (`Request.heap_run`), but for those that make a frame or
bind a symbol themselves.
-/

namespace SplatLisp

/-- What can be asked of a context. -/
inductive Request where
  | form (bound : Nat) (form : Form) (env : Env)
  | args (bound : Nat) (forms : List Form) (env : Env)
  /-- A function is applied to values. -/
  | call (bound : Nat) (closure : Closure) (args : List Value)
  | text (bound : Nat) (pos : Pos) (text : String) (env : Env)
  | load (bound : Nat) (read : ReadFile) (name : String) (env : Env)
  /-- A frame with a parent, or without. -/
  | frame (parent : Option Env)
  | define (env : Env) (symbol : Symbol) (value : Value)
  | intern (name : String)
  /-- An identity for a value of the surrounding program. -/
  | fresh
  | register (name : String)
  /-- The policy, the sinks, and the handles to them are replaced. -/
  | configure (sinks : Sinks) (diagnostics : Diagnostics) (out : SinkRef)

section Run

variable [HostPrims]

/-- The context after a request, however it ends. -/
def Request.run : Request → Context → Context
  | form bound f env, c => (eval bound f env).after c
  | args bound fs env, c => (evalArgs (eval bound) fs env).after c
  | call bound fn values, c => (applyClosure (eval bound) (.fn fn) fn values).after c
  | text bound pos source env, c => (Eval.evalText bound pos source env).after c
  | load bound read name env, c => (Eval.load bound read name env).after c
  | frame parent, c => (Eval.alloc parent).after c
  | define env symbol value, c => (Eval.define env symbol value).after c
  | intern name, c => (Eval.intern name).after c
  | fresh, c => Eval.fresh.after c
  | register name, c =>
    match c.types.register name with
    | .ok (_, types) => { c with types }
    | .error _ => c
  | configure sinks diagnostics out, c => { c with sinks, diagnostics, out }

/-- A registration has a say in the types alone. -/
theorem Request.exists_types_run_register (name : String) (c : Context) :
    ∃ types, (register name).run c = { c with types } := by
  unfold run
  dsimp only
  split
  · exact ⟨_, rfl⟩
  · exact ⟨c.types, rfl⟩

omit [HostPrims] in
/-- A new context has what is kept when core primitives are installed, one after the other. -/
theorem Context.new_induction {I : Context → Prop} (settings : Settings)
    (start : I ⟨.empty, .builtins, (Heap.empty.alloc none).2, 0, settings.sinks,
      ⟨.ofDebug settings.debug, settings.sink⟩, settings.out⟩)
    (install : ∀ c, I c → ∀ entry ∈ corePrims, I (c.install entry)) : I (new settings) :=
  List.foldlRecOn corePrims Context.install start install

/-- The contexts that requests lead to from a new one. -/
inductive Context.Reachable (legal : Context → Request → Prop) : Context → Prop
  | new (settings : Settings) : Reachable legal (.new settings)
  | next {c : Context} (h : Reachable legal c) (request : Request) (hlegal : legal c request) :
    Reachable legal (request.run c)

/-! ## What requests do to the heap -/

section Heap

open Eval

variable {H : Env → Heap → Heap → Prop} [∀ env, IsPreorder Heap (H env)]
  {F : Env → {α : Type} → Eval α → Prop} (h : Inherited (fun env _ x => Within (H env) x) F)

include h

/-- Reading a text does nothing to the heap. -/
theorem Inherited.heap_evalChars (bound : Nat) (pos : Pos) (chars : List Char) (env : Env)
    (c : Context) : H env c.heap ((evalChars bound pos chars env).after c).heap := by
  unfold after
  rw [evalChars_eq]
  cases (Reader.mk chars c.symbols).readAll pos with
  | mk outcome reader =>
    cases outcome with
    | error failure => exact refl c.heap
    | ok forms =>
      exact (h.evalForms (h.eval bound) env forms { c with symbols := reader.symbols }).heap

/-- Requests do to the heap what evaluation does, but for those that make a frame or bind a
symbol. -/
theorem Request.heap_run (request : Request) (c : Context) :
    (∃ env, H env c.heap (request.run c).heap) ∨ (∃ parent, request = .frame parent) ∨
      ∃ env symbol value, request = .define env symbol value := by
  cases request with
  | form bound f env => exact .inl ⟨env, (h.eval bound env f c).heap⟩
  | args bound fs env => exact .inl ⟨env, (h.evalArgs (h.eval bound) env fs c).heap⟩
  | call bound fn values =>
    exact .inl ⟨.root, (h.applyClosure (h.eval bound) .root (.fn fn) fn values c).heap⟩
  | text bound pos source env => exact .inl ⟨env, h.heap_evalChars bound pos source.toList env c⟩
  | load bound read name env =>
    refine .inl ⟨env, ?_⟩
    change H env c.heap ((Eval.load bound read name env).after c).heap
    unfold Eval.load
    cases read name with
    | ok bytes => exact h.heap_evalChars bound (.start name) (Utf8.decode bytes) env c
    | error reason => exact refl c.heap
  | frame parent => exact .inr (.inl ⟨parent, rfl⟩)
  | define env symbol value => exact .inr (.inr ⟨env, symbol, value, rfl⟩)
  | intern name => exact .inl ⟨.root, refl c.heap⟩
  | fresh => exact .inl ⟨.root, refl c.heap⟩
  | register name =>
    obtain ⟨types, hrun⟩ := exists_types_run_register name c
    rw [hrun]
    exact .inl ⟨.root, refl c.heap⟩
  | configure sinks diagnostics out => exact .inl ⟨.root, refl c.heap⟩

end Heap

end Run

open scoped CoreOnly in
/-- Requests that bind no symbol write to one frame at most, and nothing but named functions. -/
theorem Request.writesTo_run (request : Request) (c : Context) :
    (∃ env, c.heap.WritesTo env (request.run c).heap) ∨
      ∃ env symbol value, request = .define env symbol value := by
  rcases request.heap_run inherited_writesTo c with hrun | ⟨parent, rfl⟩ | hdefine
  · exact .inl hrun
  · have hextends : c.heap.Extends ((frame parent).run c).heap :=
      fun _ _ hframe => Heap.frame?_alloc hframe parent
    exact .inl ⟨.root, hextends.writesTo⟩
  · exact .inr hdefine

end SplatLisp
