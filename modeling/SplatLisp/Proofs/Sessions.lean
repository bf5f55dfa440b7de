import Mathlib.Data.List.Forall2
import SplatLisp.Proofs.Origins

/-!
# Equal values are interchangeable

A program that works with a context gets values out of it, makes values of its own, and hands them
back; a `Session` is a context together with the values that the program has. All values that can be
had in a session, those that its frames bind and the parts of others included (`Session.Holds`), are
in one catalog, whatever has happened before (`Session.exists_within`). So equal ones cannot be told
apart: not by their text, their truth, their type or their items, and if they are functions, not by
their definition or the frame that they close over (`Session.interchangeable`).
-/

namespace SplatLisp

open scoped CoreOnly

/-- The result of a computation, if it does not stop. -/
def Eval.result? {α : Type} (x : Eval α) (context : Context) : Option α :=
  match x context with
  | .ok a _ => some a
  | .error _ _ => none

/-- The values that a request is answered with. -/
def Request.answers : Request → Context → List Value
  | form bound f env, c => ((eval bound f env).result? c).toList
  | args bound fs env, c => ((evalArgs (eval bound) fs env).result? c).getD []
  | call bound fn values, c => ((applyClosure (eval bound) (.fn fn) fn values).result? c).toList
  | text bound pos source env, c => ((Eval.evalText bound pos source env).result? c).toList
  | load bound read name env, c => ((Eval.load bound read name env).result? c).toList
  | register name, c =>
    match c.types.register name with
    | .ok (type, _) => [.type type]
    | .error _ => []
  | _, _ => []

/-- Whether all values that a request brings have a property. -/
def Request.Brings (P : Value → Prop) : Request → Prop
  | call _ fn values => P (.fn fn) ∧ ∀ value ∈ values, P value
  | define _ _ value => P value
  | _ => True

/-- A context, and the values that a program working with it has got or made. -/
structure Session where
  context : Context
  values : List Value

/-- The values that can be had in a session: those that the program has and those that are bound in
any frame, their parts, and what can be put together without a new identity. -/
inductive Session.Holds (s : Session) : Value → Prop
  | own {v : Value} (h : v ∈ s.values) : Holds s v
  | bound {env : Env} {frame : Frame} {symbol : Symbol} {slot : Slot}
    (hframe : s.context.heap.frame? env = some frame) (hslot : frame.get? symbol = some slot) :
    Holds s (slot.value env)
  | item {items : List Value} {v : Value} (h : Holds s (.vec items)) (hv : v ∈ items) : Holds s v
  | inner {v : Value} (h : Holds s (.splat v)) : Holds s v
  | nil : Holds s .nil
  | bool (b : Bool) : Holds s (.bool b)
  | int (n : Int64) : Holds s (.int n)
  | type {t : TypeInfo} (h : t ∈ s.context.types.types) : Holds s (.type t)
  | vec {items : List Value} (h : ∀ item ∈ items, Holds s item) : Holds s (.vec items)
  | splat {v : Value} (h : Holds s v) : Holds s (.splat v)

/-- What a program can make with an identity: functions, primitives, and values of host types. -/
inductive Session.Makes (s : Session) (identity : Identity) : Value → Prop
  | fn {closure : Closure} (h : closure.fn.identity = identity) : Makes s identity (.fn closure)
  | prim {p : Prim} (h : p.identity = identity) : Makes s identity (.prim p)
  | host {type : TypeInfo} {data : HostData} {value : HostValue} (h : s.Holds (.type type))
    (hvalue : HostValue.ofType? identity type data = some value) : Makes s identity (.host value)

/-- The sessions that lead from a new context. -/
inductive Session.Reachable : Session → Prop
  | new (settings : Settings) : Reachable ⟨.new settings, []⟩
  /-- A request is made with values that can be had. -/
  | ask {s : Session} (h : Reachable s) (request : Request) (hheld : request.Brings s.Holds) :
    Reachable ⟨request.run s.context, request.answers s.context ++ s.values⟩
  /-- Something is made with an identity of its own. -/
  | make {s : Session} (h : Reachable s) {value : Value}
    (hvalue : s.Makes s.context.identities value) :
    Reachable ⟨Eval.fresh.after s.context, value :: s.values⟩

/-- How values are the same to everyone who looks at them. -/
structure Value.Interchangeable (types : TypeRegistry) (a b : Value) : Prop where
  rendering : a.rendering = b.rendering
  truthy : a.truthy = b.truthy
  type : types.typeOf a = types.typeOf b
  items : Option.Rel (List.Forall₂ fun x y => x.same y = true) a.items? b.items?
  fn : ∀ f g, a = .fn f → b = .fn g → f.fn.name = g.fn.name ∧ f.fn.params = g.fn.params ∧
    f.fn.rest = g.fn.rest ∧ f.fn.body = g.fn.body ∧ f.env = g.env

theorem Value.Interchangeable.refl (types : TypeRegistry) (a : Value) :
    a.Interchangeable types a where
  rendering := rfl
  truthy := rfl
  type := rfl
  items := by
    cases a.items? with
    | none => exact .none
    | some items => exact .some (List.forall₂_same.2 fun x _ => same_equivalence.refl x)
  fn := by
    rintro f g rfl ⟨⟩
    exact ⟨rfl, rfl, rfl, rfl, rfl⟩

/-! ## What requests do to catalogs -/

variable {C : Catalog} {c : Context} {s : Session}

/-- What keeps contexts within catalogs has results that are in the catalog afterwards. -/
theorem Eval.Keeps.outcome {α : Type} {P : Catalog → α → Prop} {x : Eval α} (h : Keeps C P x)
    (hc : c.Within C) :
    ∃ D, C ≤ D ∧ (x.after c).Within D ∧ ∀ a ∈ x.result? c, P D a := by
  have hends := h c hc
  unfold Eval.after Eval.result?
  generalize x c = result at hends ⊢
  cases hends with
  | @ok D a d hCD hd ha =>
    refine ⟨D, hCD, hd, fun b hb => ?_⟩
    cases hb
    exact ha
  | @error D stop d hCD hd => exact ⟨D, hCD, hd, nofun⟩

/-- A request with listed values is answered with listed values. -/
theorem Request.exists_within {request : Request} (h : request.Brings (Value.Listed C))
    (hc : c.Within C) :
    ∃ D, C ≤ D ∧ (request.run c).Within D ∧ ∀ v ∈ request.answers c, v.Listed D := by
  have hlist : ∀ {x : Eval Value}, Eval.Keeps C Value.Listed x →
      ∃ D, C ≤ D ∧ (x.after c).Within D ∧ ∀ v ∈ (x.result? c).toList, v.Listed D := by
    intro x hx
    simpa only [Option.mem_toList, Option.mem_def] using hx.outcome hc
  cases request with
  | form bound f env => exact hlist (Eval.tracked_keeps.eval bound C f env)
  | args bound fs env =>
    obtain ⟨D, hCD, hd, hvalues⟩ :=
      (Eval.tracked_keeps.evalArgs (Eval.tracked_keeps.eval bound) fs env).outcome hc
    refine ⟨D, hCD, hd, fun v hv => ?_⟩
    change v ∈ ((evalArgs (eval bound) fs env).result? c).getD [] at hv
    cases hresult : (evalArgs (eval bound) fs env).result? c with
    | none =>
      rw [hresult] at hv
      cases hv
    | some values =>
      rw [hresult] at hv
      exact hvalues values hresult v hv
  | call bound fn values =>
    exact hlist (Eval.tracked_keeps.applyClosure (Eval.tracked_keeps.eval bound) (.fn fn) fn h.2)
  | text bound pos source env => exact hlist (.evalChars bound pos source.toList env)
  | load bound read name env => exact hlist (.load bound read name env)
  | frame parent => exact ⟨C, le_rfl, hc.alloc parent, nofun⟩
  | define env symbol value => exact ⟨C, le_rfl, hc.define env symbol h, nofun⟩
  | intern name => exact ⟨C, le_rfl, ⟨hc.heap, hc.made, hc.types, hc.consistent⟩, nofun⟩
  | fresh =>
    exact ⟨C, le_rfl, ⟨hc.heap, fun hi => Nat.lt_succ_of_lt (hc.made hi), hc.types,
      hc.consistent⟩, nofun⟩
  | register name =>
    unfold run answers
    dsimp only
    cases hok : c.types.register name with
    | error _ => exact ⟨C, le_rfl, hc, nofun⟩
    | ok registered =>
      obtain ⟨type, types⟩ := registered
      obtain ⟨hCD, hd, htype⟩ := hc.register hok
      exact ⟨_, hCD, hd, List.forall_mem_singleton.2 (.type htype)⟩
  | configure sinks diagnostics out =>
    exact ⟨C, le_rfl, ⟨hc.heap, hc.made, hc.types, hc.consistent⟩, nofun⟩

/-! ## Sessions -/

/-- All that can be had in a session is in a catalog if all that the program has is. -/
theorem Session.Holds.listed {v : Value} (h : s.Holds v) (hc : s.context.Within C)
    (hvalues : ∀ v ∈ s.values, v.Listed C) : v.Listed C := by
  induction h with
  | own h => exact hvalues _ h
  | bound hframe hslot => exact hc.heap hframe hslot
  | item _ hv ih => exact Value.Listed.vec_iff.1 ih _ hv
  | inner _ ih => exact Value.Listed.splat_iff.1 ih
  | nil => exact .nil
  | bool b => exact .bool b
  | int n => exact .int n
  | type h => exact .type (hc.types ▸ h)
  | vec _ ih => exact .vec ih
  | splat _ ih => exact .splat ih

theorem Request.Brings.imp {P Q : Value → Prop} {request : Request} (h : request.Brings P)
    (hPQ : ∀ v, P v → Q v) : request.Brings Q := by
  cases request with
  | call bound fn values => exact ⟨hPQ _ h.1, fun v hv => hPQ v (h.2 v hv)⟩
  | define env symbol value => exact hPQ value h
  | _ => trivial

/-- What is made with the next identity is in the catalog that it is entered in. -/
theorem Session.Makes.listed {D : Catalog} {identity : Identity} {value : Value}
    (h : s.Makes identity value) (hheld : ∀ v, s.Holds v → v.Listed D)
    (hmade : D.made identity = some value) : value.Listed D := by
  cases h with
  | fn hi => exact .fn (hi ▸ hmade)
  | prim hi => exact .prim (hi ▸ hmade)
  | host htype hvalue =>
    unfold HostValue.ofType? at hvalue
    split at hvalue
    · cases hvalue
      cases hheld _ htype with
      | type hmem => exact .host hmade hmem
    · cases hvalue

/-- At all times one catalog has all parts of all values of a session. -/
theorem Session.exists_within (h : s.Reachable) :
    ∃ C, s.context.Within C ∧ ∀ v ∈ s.values, v.Listed C := by
  induction h with
  | new settings =>
    obtain ⟨C, hc⟩ := Context.exists_within_new settings
    exact ⟨C, hc, nofun⟩
  | ask _ request hheld ih =>
    obtain ⟨C, hc, hvalues⟩ := ih
    have hbrings := hheld.imp fun v hv => hv.listed hc hvalues
    obtain ⟨D, hCD, hd, hanswers⟩ := Request.exists_within hbrings hc
    refine ⟨D, hd, fun v hv => ?_⟩
    exact (List.mem_append.1 hv).elim (hanswers v) fun hold => (hvalues v hold).mono hCD
  | @make s _ value hvalue ih =>
    obtain ⟨C, hc, hvalues⟩ := ih
    obtain ⟨hCD, hd⟩ := hc.make value
    refine ⟨_, hd, List.forall_mem_cons.2 ⟨?_, fun v hv => (hvalues v hv).mono hCD⟩⟩
    exact hvalue.listed (fun v hv => (hv.listed hc hvalues).mono hCD) (C.made_add_self ..)

/-- **Equal values are interchangeable**: values that can be had in a session, however it has come
about, are the same to everyone if they are equal. -/
theorem Session.interchangeable (h : s.Reachable) {a b : Value} (ha : s.Holds a) (hb : s.Holds b)
    (hsame : a.same b = true) : a.Interchangeable s.context.types b := by
  obtain ⟨C, hc, hvalues⟩ := exists_within h
  have htypes : C.types.Consistent := hc.types ▸ hc.consistent
  have heq : a = b := (ha.listed hc hvalues).eq_of_same htypes (hb.listed hc hvalues) hsame
  rw [heq]
  exact .refl s.context.types b

/-- A function that the program has made and bound in the frame that it closes over, where it is
kept without its environment, is the same as what is found there. -/
theorem Session.interchangeable_bound :
    let fn : Fun := ⟨9, none, [⟨"x", 9⟩], none, []⟩
    let s : Session := ⟨(Request.define .root ⟨"f", 10⟩ (.fn ⟨fn, .root⟩)).run
      (Eval.fresh.after (.new {})), [.fn ⟨fn, .root⟩]⟩
    s.Reachable ∧ s.Holds (.fn ⟨fn, .root⟩) ∧ s.Holds ((Slot.own fn).value .root) ∧
      (Value.fn ⟨fn, .root⟩).Interchangeable s.context.types ((Slot.own fn).value .root) := by
  intro fn s
  have hmade : Session.Reachable ⟨Eval.fresh.after (.new {}), [.fn ⟨fn, .root⟩]⟩ :=
    .make (.new {}) (.fn rfl)
  have hs : s.Reachable := .ask hmade (.define .root ⟨"f", 10⟩ (.fn ⟨fn, .root⟩))
    (.own List.mem_cons_self)
  have hown : s.Holds (.fn ⟨fn, .root⟩) := .own List.mem_cons_self
  obtain ⟨frame, hframe⟩ : ∃ frame, (Context.new {}).heap.frame? .root = some frame :=
    Option.isSome_iff_exists.1 (Heap.frame?_isSome_iff.2 (by decide))
  have hdefined : s.context.heap.frame? .root =
      some (frame.insert ⟨"f", 10⟩ (.own fn)) := by
    change (Heap.define _ _ _ _).frame? _ = _
    rw [Heap.frame?_define_self]
    exact congrArg _ hframe
  have hbound : s.Holds ((Slot.own fn).value .root) :=
    .bound hdefined (Frame.get?_insert_self frame ⟨"f", 10⟩ (.own fn))
  exact ⟨hs, hown, hbound, interchangeable hs hown hbound (Value.same_equivalence.refl _)⟩

end SplatLisp
