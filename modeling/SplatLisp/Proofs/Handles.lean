import SplatLisp.Proofs.Requests
import SplatLisp.Proofs.Runs

/-!
# Handles that a context has given out

A context numbers the frames and the identities that it gives out, and a value that it has not made
could name others. A context is closed if no value that it binds does, and no frame falls back to a
frame that is not there (`Context.Closed`). Evaluation leads from closed contexts to closed
contexts, and its values have only handles that the context has given out by then; so all requests
that bring no foreign handles lead to closed contexts (`Context.closed_of_reachable`).

That is shown by a run next to itself, in which each handle is linked to itself as soon as it has
been given out.
-/

namespace SplatLisp

open scoped CoreOnly

theorem Context.env_iff_of_eq (c : Context) {a a' b b' : Env}
    (h : a = a' ∧ a.index < c.heap.frames.size) (h' : b = b' ∧ b.index < c.heap.frames.size) :
    a = b ↔ a' = b' := by
  rw [h.1, h'.1]

theorem Context.identity_iff_of_eq (c : Context) {i i' j j' : Identity}
    (h : i = i' ∧ i < c.identities) (h' : j = j' ∧ j < c.identities) : i = j ↔ i' = j' := by
  rw [h.1, h'.1]

/-- The handles that a context has given out, each linked to itself. Symbols are not asked for, as
no frame depends on where they are from. -/
def Links.handles (c : Context) : Links :=
  { same with
    env := fun e e' => e = e' ∧ e.index < c.heap.frames.size
    identity := fun i i' => i = i' ∧ i < c.identities
    env_iff := c.env_iff_of_eq
    identity_iff := c.identity_iff_of_eq }

theorem Links.handles_le {c d : Context} (hframes : c.heap.frames.size ≤ d.heap.frames.size)
    (hidentities : c.identities ≤ d.identities) : handles c ≤ handles d :=
  ⟨fun h => ⟨h.1, Nat.lt_of_lt_of_le h.2 hframes⟩,
    fun h => ⟨h.1, Nat.lt_of_lt_of_le h.2 hidentities⟩, id, id⟩

theorem Links.handles_congr {c d : Context} (hframes : c.heap.frames.size = d.heap.frames.size)
    (hidentities : c.identities = d.identities) : handles c = handles d := by
  simp only [handles, hframes, hidentities]

theorem Links.handles_le_same (c : Context) : handles c ≤ same := ⟨And.left, And.left, id, id⟩

namespace Context

/-- Whether a context has given out all handles of a value. -/
def Holds (c : Context) (value : Value) : Prop := value.Corresponds (.handles c) value

/-- Whether a context has given out all handles in its frames. -/
structure Closed (c : Context) : Prop where
  parent : ∀ ⦃env frame parent⦄, c.heap.frame? env = some frame → frame.parent = some parent →
    parent.index < c.heap.frames.size
  bound : ∀ ⦃env frame symbol slot⦄, c.heap.frame? env = some frame →
    frame.get? symbol = some slot → c.Holds (slot.value env)

namespace Closed

variable {c : Context}

theorem lookup (h : c.Closed) {env : Env} {symbol : Symbol} {value : Value}
    (hvalue : c.heap.lookup env symbol = some value) : c.Holds value := by
  fun_induction Heap.lookup c.heap env symbol with
  | case1 => cases hvalue
  | case2 env frame hframe slot hslot =>
    cases hvalue
    exact h.bound hframe hslot
  | case3 => cases hvalue
  | case4 env frame hframe _ parent _ _ ih => exact ih hvalue
  | case5 => cases hvalue

theorem define (h : c.Closed) (env : Env) (symbol : Symbol) {value : Value}
    (hvalue : c.Holds value) :
    { c with heap := c.heap.define env symbol value }.Closed where
  parent := by
    intro e frame p hframe hparent
    rw [Heap.size_define]
    rcases Heap.frame?_define_eq_some hframe with ⟨-, old, hold, rfl⟩ | ⟨-, hold⟩
    · exact h.parent hold hparent
    · exact h.parent hold hparent
  bound := by
    intro e frame s slot hframe hslot
    have hle : Links.handles c ≤ .handles { c with heap := c.heap.define env symbol value } :=
      Links.handles_le (Nat.le_of_eq (Heap.size_define ..).symm) (Nat.le_refl _)
    refine Value.Corresponds.mono ?_ hle
    rcases Heap.frame?_define_eq_some hframe with ⟨rfl, old, hold, rfl⟩ | ⟨-, hold⟩
    · rw [Frame.get?_insert] at hslot
      split at hslot
      · cases hslot
        rwa [Slot.value_ofValue]
      · exact h.bound hold hslot
    · exact h.bound hold hslot

theorem alloc (h : c.Closed) {parent : Option Env}
    (hparent : ∀ p ∈ parent, p.index < c.heap.frames.size) :
    { c with heap := (c.heap.alloc parent).2 }.Closed where
  parent := by
    intro e frame p hframe hp
    rw [Heap.size_alloc]
    refine Nat.lt_succ_of_lt ?_
    change (c.heap.alloc parent).2.frame? e = some frame at hframe
    rw [Heap.frame?_alloc_eq] at hframe
    split at hframe
    · cases hframe
      exact hparent p hp
    · exact h.parent hframe hp
  bound := by
    intro e frame s slot hframe hslot
    have hle : Links.handles c ≤ .handles { c with heap := (c.heap.alloc parent).2 } :=
      Links.handles_le (Nat.le_of_lt (by rw [Heap.size_alloc]; exact Nat.lt_succ_self _))
        (Nat.le_refl _)
    refine Value.Corresponds.mono ?_ hle
    change (c.heap.alloc parent).2.frame? e = some frame at hframe
    rw [Heap.frame?_alloc_eq] at hframe
    split at hframe
    · cases hframe
      rw [Frame.get?_empty] at hslot
      cases hslot
    · exact h.bound hframe hslot

theorem fresh (h : c.Closed) : { c with identities := c.identities + 1 }.Closed where
  parent := h.parent
  bound _ _ _ _ hframe hslot :=
    (h.bound hframe hslot).mono (Links.handles_le (Nat.le_refl _) (Nat.le_succ _))

end Closed

/-! ## A run next to itself -/

/-- A closed context next to itself, with the handles that it has given out. -/
structure ClosedAt (L : Links) (c c' : Context) : Prop where
  links : L = .handles c
  symbols : c.symbols = c'.symbols
  heap : c.heap = c'.heap
  identities : c.identities = c'.identities
  types : c.types = c'.types
  diagnostics : c.diagnostics = c'.diagnostics
  out : c.out = c'.out
  closed : c.Closed

theorem Closed.at_self {c : Context} (h : c.Closed) : ClosedAt (.handles c) c c :=
  ⟨rfl, rfl, rfl, rfl, rfl, rfl, rfl, h⟩

theorem congruence_closed : Congruence Value.Corresponds ClosedAt where
  types := ClosedAt.types
  diagnostics := ClosedAt.diagnostics
  out := ClosedAt.out
  write hc _ _ :=
    ⟨hc.links, hc.symbols, hc.heap, hc.identities, hc.types, hc.diagnostics, hc.out,
      hc.closed.parent, hc.closed.bound⟩
  lookup := by
    rintro _ c c' env _ s _ ⟨rfl, -, hheap, -, -, -, -, hc⟩ ⟨rfl, -⟩ rfl
    rw [← hheap]
    cases hvalue : c.heap.lookup env s with
    | none => exact .none
    | some value => exact .some (hc.lookup hvalue)
  define := by
    rintro _ c c' env _ s _ value value'
      ⟨rfl, hsymbols, hheap, hid, htypes, hdiagnostics, hout, hc⟩ ⟨rfl, -⟩ rfl hvalue
    obtain rfl : value = value' := (hvalue.mono (Links.handles_le_same c)).eq
    refine ⟨Links.handles_congr (Heap.size_define ..).symm rfl, hsymbols, ?_, hid, htypes,
      hdiagnostics, hout, hc.define env s hvalue⟩
    exact congrArg (·.define env s value) hheap
  alloc := by
    rintro _ c c' parent parent' ⟨rfl, hsymbols, hheap, hid, htypes, hdiagnostics, hout, hc⟩
      hparent
    obtain rfl : parent = parent' := option_rel_eq_iff.1 (option_rel_imp And.left hparent)
    have hown : ∀ p ∈ parent, p.index < c.heap.frames.size := by
      intro p hp
      obtain ⟨p', -, -, hlt⟩ := exists_of_rel hparent hp
      exact hlt
    have hd := hc.alloc hown
    refine ⟨.handles { c with heap := (c.heap.alloc parent).2 },
      Links.handles_le ?_ (Nat.le_refl _),
      ⟨?_, ?_⟩, rfl, hsymbols, ?_, hid, htypes, hdiagnostics, hout, hd⟩
    · rw [Heap.size_alloc]
      exact Nat.le_succ _
    · rw [hheap]
    · rw [Heap.size_alloc]
      exact Nat.lt_succ_self _
    · exact congrArg (fun heap => (heap.alloc parent).2) hheap
  fresh := by
    rintro _ c c' ⟨rfl, hsymbols, hheap, hid, htypes, hdiagnostics, hout, hc⟩
    refine ⟨.handles { c with identities := c.identities + 1 },
      Links.handles_le (Nat.le_refl _) (Nat.le_succ _), ⟨hid, Nat.lt_succ_self _⟩, rfl,
      hsymbols, hheap, congrArg (· + 1) hid, htypes, hdiagnostics, hout, hc.fresh⟩

end Context

open Eval

/-- All that evaluation consists of, next to itself. -/
theorem parallel_closed :
    Parallel Value.Corresponds (fun L => List.Forall₂ (Value.Corresponds L))
      fun L _ Q x x' => RunsIn Context.ClosedAt L Q x x' :=
  parallel_runsIn Value.congruence_corresponds Context.congruence_closed hostsRunIn_coreOnly

/-- **What runs next to itself leads from closed contexts to closed contexts.** -/
theorem closed_after {α : Type} {c : Context} (hc : c.Closed) {Q : Links → α → α → Prop}
    {x : Eval α} (h : RunsIn Context.ClosedAt (.handles c) Q x x) : (x.after c).Closed := by
  obtain ⟨M, -, hd⟩ := h.exists_after hc.at_self
  exact hd.closed

/-- Other symbols make no difference. -/
theorem Context.ClosedAt.withSymbols {L : Links} {c c' : Context} (h : ClosedAt L c c')
    (symbols : SymbolTable) : ClosedAt L { c with symbols } { c' with symbols } :=
  ⟨h.links, rfl, h.heap, h.identities, h.types, h.diagnostics, h.out, h.closed.parent,
    h.closed.bound⟩

namespace Eval

theorem runsIn_closed_readChars (L : Links) (pos : Pos) (chars : List Char) :
    RunsIn Context.ClosedAt L (fun M => List.Forall₂ (Form.Like M.symbol M.pos))
      (readChars pos chars) (readChars pos chars) := by
  intro c c' hc
  rw [readChars_eq, readChars_eq, ← hc.symbols]
  cases (Reader.mk chars c.symbols).readAll pos with
  | mk outcome reader =>
    have hd := hc.withSymbols reader.symbols
    cases outcome with
    | error failure => exact RunsIn.raise Context.congruence_closed ⟨rfl, rfl⟩ _ _ hd
    | ok forms =>
      refine .ok le_rfl (Form.likes_self L.pos_self forms fun s _ => ?_) hd
      rw [hc.links]
      exact rfl

theorem runsIn_closed_evalChars (bound : Nat) (pos : Pos) (chars : List Char) {L : Links}
    {env env' : Env} (henv : L.env env env') :
    RunsIn Context.ClosedAt L Value.Corresponds (evalChars bound pos chars env)
      (evalChars bound pos chars env') := by
  refine parallel_closed.bind (runsIn_closed_readChars L pos chars)
    fun M hLM forms forms' hforms => ?_
  exact parallel_closed.evalForms (parallel_closed.eval bound) hforms (hLM.env henv)

end Eval

/-! ## Requests -/

/-- Whether a context has given out all handles that a request brings. -/
def Request.Handled (c : Context) : Request → Prop
  | form _ _ env | args _ _ env | text _ _ _ env | load _ _ _ env =>
    env.index < c.heap.frames.size
  | call _ fn values => c.Holds (.fn fn) ∧ ∀ value ∈ values, c.Holds value
  | frame parent => ∀ env ∈ parent, env.index < c.heap.frames.size
  | define env _ value => env.index < c.heap.frames.size ∧ c.Holds value
  | _ => True

theorem Context.Holds.fn {c : Context} {closure : Closure} (h : c.Holds (.fn closure)) :
    closure.fn.Like (.handles c) closure.fn ∧ closure.env.index < c.heap.frames.size := by
  cases h with
  | leaf hleaf =>
    cases hleaf with
    | fn hfn henv => exact ⟨hfn, henv.2⟩

theorem Request.Handled.run {c : Context} (hc : c.Closed) {request : Request}
    (h : request.Handled c) : (request.run c).Closed := by
  cases request with
  | form bound f env =>
    have hform : f.Like (Links.handles c).symbol (Links.handles c).pos f := f.like_eq_self
    exact closed_after hc (parallel_closed.eval bound hform ⟨rfl, h⟩)
  | args bound fs env =>
    have hforms : List.Forall₂ (Form.Like (Links.handles c).symbol (Links.handles c).pos) fs fs :=
      Form.likes_eq_self fs
    exact closed_after hc
      (parallel_closed.evalArgs (parallel_closed.eval bound) hforms ⟨rfl, h⟩)
  | call bound fn values =>
    obtain ⟨hcallee, hvalues⟩ := h
    obtain ⟨hfn, henv⟩ := hcallee.fn
    exact closed_after hc (parallel_closed.applyClosure (parallel_closed.eval bound) hcallee hfn
      ⟨rfl, henv⟩ (List.forall₂_same.2 hvalues))
  | text bound pos source env =>
    exact closed_after hc (runsIn_closed_evalChars bound pos source.toList ⟨rfl, h⟩)
  | load bound read name env =>
    unfold Request.run Eval.load
    dsimp only
    cases read name with
    | ok bytes =>
      exact closed_after hc (runsIn_closed_evalChars bound _ (Utf8.decode bytes) ⟨rfl, h⟩)
    | error reason =>
      exact closed_after hc (parallel_closed.fail (Q := Value.Corresponds) (.refl _))
  | frame parent => exact hc.alloc h
  | define env symbol value => exact hc.define env symbol h.2
  | intern name => exact ⟨hc.parent, hc.bound⟩
  | fresh => exact hc.fresh
  | register name =>
    obtain ⟨types, hrun⟩ := exists_types_run_register name c
    rw [hrun]
    exact ⟨hc.parent, hc.bound⟩
  | configure sinks diagnostics out => exact ⟨hc.parent, hc.bound⟩

namespace Context

theorem Closed.install {c : Context} (hc : c.Closed)
    (entry : String × Nat × Option Nat × PrimOp) : (c.install entry).Closed := by
  obtain ⟨name, min, max, op⟩ := entry
  have hd : { c with identities := c.identities + 1 }.Closed := hc.fresh
  have hprim : { c with identities := c.identities + 1 }.Holds
      (.prim ⟨c.identities, name, min, max, op⟩) := by
    refine .leaf (.prim ?_ name min max op)
    exact ⟨rfl, Nat.lt_succ_self _⟩
  have hdefine := hd.define .root (c.symbols.intern name).1 hprim
  exact ⟨hdefine.parent, hdefine.bound⟩

theorem closed_new (settings : Settings) : (new settings).Closed := by
  refine new_induction settings ?_ fun _ hc entry _ => hc.install entry
  -- The root is a new frame among none.
  have hempty : ∀ c : Context, c.heap = .empty → c.Closed := by
    intro c hc
    have hnone : ∀ env, c.heap.frame? env = none := by
      intro env
      simp [hc, Heap.empty, Heap.frame?]
    constructor
    · intro env frame parent hframe
      rw [hnone] at hframe
      cases hframe
    · intro env frame symbol slot hframe
      rw [hnone] at hframe
      cases hframe
  have hno : ∀ p ∈ (none : Option Env), p.index < 0 := by
    intro p hp
    cases hp
  exact (hempty ⟨.empty, .builtins, .empty, 0, settings.sinks,
    ⟨.ofDebug settings.debug, settings.sink⟩, settings.out⟩ rfl).alloc hno

/-- **All contexts that requests lead to are closed**, if these bring only handles that the context
has given out. -/
theorem closed_of_reachable {c : Context} (h : c.Reachable Request.Handled) : c.Closed := by
  induction h with
  | new settings => exact closed_new settings
  | next _ request hlegal ih => exact Request.Handled.run ih hlegal

end Context

end SplatLisp
