import Mathlib.Order.Defs.PartialOrder
import SplatLisp.Proofs.Inherited
import SplatLisp.Proofs.Parameters

/-!
# What is known of all values

Evaluation makes values of values that it is given. So a property of values that whatever is made
of values with the property has as well is a property of every value that evaluation comes to; the
induction that shows it is made here, once for all properties (`TrackedIn.eval`).

What is known may grow on the way, since functions are made that nothing was known of before: the
property depends on a state of knowledge `w`, and what is known stays known (`TrackedIn.mono`).
`R w Q x x'` says of two computations that they do the same, that they keep what is known, and that
their result satisfies `Q` in the state of knowledge in which they end; so evaluators can be
compared as well.

Some operations look at forms without asking whether they are there (`PrimOp.needs`), and the
computation breaks if they are not. That has to be kept only if there is a primitive that takes
fewer forms than its operation needs (`TrackedIn.broken`). In the same way, primitives of the
surrounding program matter only if something is known of one (`TrackedIn.host`). The two evaluators
that are compared may even belong to different programs.

Functions are made of forms, and what is known of a function may depend on them. So the forms that
are evaluated have a property `F`, which their parts have as well, and functions are written in
forms with the property (`Fun.WrittenIn`). Where nothing depends on the forms, all of them have it,
and where nothing is compared, `R` is about one computation (`Tracked`).
-/

namespace SplatLisp

/-- How many forms an operation looks at without asking whether they are there. -/
def PrimOp.needs : PrimOp → Nat
  | .branch => 2
  | .bindings => 1
  | .function => 1
  | .typeOf => 1
  | _ => 0

/-- Whether a property of single values holds of all values of a sequence. -/
def Value.AllOf {W : Type} (K : W → Value → Prop) (w : W) (values : List Value) : Prop :=
  ∀ v ∈ values, K w v

/-- A function whose identifiers and body are taken from forms with a property. -/
structure Fun.WrittenIn (F : Form → Prop) (fn : Fun) : Prop where
  name : ∀ s ∈ fn.name, ∃ pos, F (.atom (.id s) pos)
  params : ∀ s ∈ fn.params, ∃ pos, F (.atom (.id s) pos)
  rest : ∀ s ∈ fn.rest, ∃ pos pos', F (.splat (.atom (.id s) pos) pos')
  body : ∀ form ∈ fn.body, F form

/-- `K` is a property of what evaluation makes of values with the property, functions being made of
forms with the property `F`, and `R` is kept by all that evaluation consists of. -/
structure TrackedIn (H H' : HostPrims) {W : Type} [Preorder W] (F : Form → Prop)
    (K : W → Value → Prop) (R : W → {α : Type} → (W → α → Prop) → Eval α → Eval α → Prop) :
    Prop where
  items : ∀ {bracket : Bracket} {items : List Form} {pos : Pos}, F (.group bracket items pos) →
    ∀ item ∈ items, F item
  inner : ∀ {inner : Form} {pos : Pos}, F (.splat inner pos) → F inner ∨ inner.id?.isSome = true
  body : ∀ {w : W} {closure : Closure}, K w (.fn closure) → ∀ form ∈ closure.fn.body, F form
  mono : ∀ {w w' : W} {v : Value}, w ≤ w' → K w v → K w' v
  nil : ∀ w, K w .nil
  bool : ∀ w b, K w (.bool b)
  int : ∀ w n, K w (.int n)
  vec_iff : ∀ {w : W} {items : List Value}, K w (.vec items) ↔ Value.AllOf K w items
  splat_iff : ∀ {w : W} {inner : Value}, K w (.splat inner) ↔ K w inner
  pure : ∀ {w : W} {α : Type} {Q : W → α → Prop} {a : α}, Q w a → R w Q (pure a) (pure a)
  bind : ∀ {w : W} {α β : Type} {P : W → α → Prop} {Q : W → β → Prop} {x x' : Eval α}
    {f f' : α → Eval β}, R w P x x' → (∀ w', w ≤ w' → ∀ a, P w' a → R w' Q (f a) (f' a)) →
      R w Q (x >>= f) (x' >>= f')
  fail : ∀ {w : W} {α : Type} {Q : W → α → Prop} (cause : Cause),
    R w Q (Eval.fail cause) (Eval.fail cause)
  exhausted : ∀ {w : W} {α : Type} {Q : W → α → Prop}, R w Q (throw .exhausted) (throw .exhausted)
  broken : ∀ {w : W} {α : Type} {Q : W → α → Prop} {prim : Prim}, K w (.prim prim) →
    prim.minArgs < prim.op.needs → R w Q (throw .broken) (throw .broken)
  lookup : ∀ {w : W} (env : Env) (symbol : Symbol),
    R w K (Eval.lookup env symbol) (Eval.lookup env symbol)
  define : ∀ {w : W} (env : Env) (symbol : Symbol) {value : Value}, K w value →
    R w (fun _ _ => True) (Eval.define env symbol value) (Eval.define env symbol value)
  child : ∀ {w : W} (env : Env), R w (fun _ _ => True) (Eval.child env) (Eval.child env)
  /-- A function that is made with a new identity becomes known. -/
  fresh : ∀ {w : W} (make : Identity → Closure), (∀ i, (make i).fn.identity = i) →
    (∀ i, (make i).fn.WrittenIn F) →
      R w (fun w' i => K w' (.fn (make i))) Eval.fresh Eval.fresh
  typeOf : ∀ {w : W} {value : Value}, K w value →
    R w K (do return Value.type ((← get).types.typeOf value))
      (do return Value.type ((← get).types.typeOf value))
  writeLine : ∀ {w : W} (text : String),
    R w (fun _ _ => True) (Eval.writeLine text) (Eval.writeLine text)
  host : ∀ {w : W} {prim : Prim} {code : Nat}, K w (.prim prim) → prim.op = .host code →
    ∀ {ev ev' : Evaluator},
      (∀ w form env, F form ∨ form.id?.isSome = true → R w K (ev form env) (ev' form env)) →
      ∀ {forms : List Form}, (∀ form ∈ forms, F form) → ∀ env,
        R w K (H.run code ev forms env) (H'.run code ev' forms env)

namespace TrackedIn

variable {H H' : HostPrims} {W : Type} [Preorder W] {F : Form → Prop} {K : W → Value → Prop}
  {R : W → {α : Type} → (W → α → Prop) → Eval α → Eval α → Prop} (h : TrackedIn H H' F K R)
  {ev ev' : Evaluator} {w : W} {forms : List Form} (hforms : ∀ form ∈ forms, F form)
  (hev : ∀ w form env, F form ∨ form.id?.isSome = true → R w K (ev form env) (ev' form env))

/-! ## Arguments and calls -/

section Calls

include h

theorem allOf_mono {w' : W} {values : List Value} (hw : w ≤ w') (hvalues : Value.AllOf K w values) :
    Value.AllOf K w' values :=
  fun v hv => h.mono hw (hvalues v hv)

theorem allOf_items? : ∀ (value : Value) {items : List Value}, K w value →
    value.items? = some items → Value.AllOf K w items
  | .nil, _, _, hitems => by
    cases hitems
    exact nofun
  | .vec _, _, hvalue, hitems => by
    cases hitems
    exact h.vec_iff.1 hvalue
  | .splat inner, _, hvalue, hitems => allOf_items? inner (h.splat_iff.1 hvalue) hitems

theorem spread {value : Value} (hvalue : K w value) :
    R w (Value.AllOf K) (spread value) (spread value) := by
  unfold SplatLisp.spread
  split
  · next inner =>
    cases hitems : inner.items? with
    | some items => exact h.pure (h.allOf_items? inner (h.splat_iff.1 hvalue) hitems)
    | none => exact h.fail _
  · exact h.pure (List.forall_mem_singleton.2 hvalue)

/-- The count is known to be right afterwards. -/
theorem checkCount (callee : Value) (min : Nat) (max : Option Nat) (given : Nat) :
    R w (fun _ _ => min ≤ given) (checkCount callee min max given)
      (checkCount callee min max given) := by
  unfold SplatLisp.checkCount
  split
  · exact h.fail _
  · next hcount => exact h.pure (Nat.not_lt.1 fun hlt => hcount (.inl hlt))

/-- Parameters that have arguments are bound to them. -/
theorem bindParams (frame : Env) {params : List Symbol} {args : List Value}
    (hcount : params.length ≤ args.length) (hargs : Value.AllOf K w args) :
    R w (Value.AllOf K) (bindParams frame params args) (bindParams frame params args) := by
  induction params generalizing args w with
  | nil => exact h.pure hargs
  | cons param params ih =>
    cases args with
    | nil => exact absurd hcount (Nat.not_succ_le_zero _)
    | cons arg args =>
      obtain ⟨harg, hmore⟩ := List.forall_mem_cons.1 hargs
      refine h.bind (h.define frame param harg) fun w' hw _ _ => ?_
      exact ih (Nat.le_of_succ_le_succ hcount) (h.allOf_mono hw hmore)

include hev

include hforms in
theorem evalForms (env : Env) : R w K (evalForms ev forms env) (evalForms ev' forms env) := by
  have hfrom : ∀ (w : W) (last : Value), K w last →
      R w K (evalFormsFrom ev env last forms) (evalFormsFrom ev' env last forms) := by
    induction forms with
    | nil => exact fun _ _ hlast => h.pure hlast
    | cons form forms ih =>
      obtain ⟨hform, hmore⟩ := List.forall_mem_cons.1 hforms
      exact fun w _ _ => h.bind (hev w form env (.inl hform)) fun w' _ => ih hmore w'
  exact hfrom w .nil (h.nil w)

include hforms in
theorem evalArgs (env : Env) :
    R w (Value.AllOf K) (evalArgs ev forms env) (evalArgs ev' forms env) := by
  induction forms generalizing w with
  | nil => exact h.pure nofun
  | cons form forms ih =>
    obtain ⟨hform, hmore⟩ := List.forall_mem_cons.1 hforms
    rw [evalArgs_cons, evalArgs_cons]
    refine h.bind (hev w form env (.inl hform)) fun w₁ _ value hvalue => ?_
    refine h.bind (h.spread hvalue) fun w₂ _ items hitems => ?_
    refine h.bind (ih hmore) fun w₃ hw more hmore => h.pure fun v hv => ?_
    exact (List.mem_append.1 hv).elim (h.allOf_mono hw hitems v) (hmore v)

theorem applyClosure (callee : Value) {closure : Closure}
    (hbody : ∀ form ∈ closure.fn.body, F form) {args : List Value}
    (hargs : Value.AllOf K w args) :
    R w K (applyClosure ev callee closure args) (applyClosure ev' callee closure args) := by
  refine h.bind (h.checkCount _ _ _ _) fun w₁ hw₁ _ hcount => ?_
  refine h.bind (h.child closure.env) fun w₂ hw₂ frame _ => ?_
  have hargs := h.allOf_mono (le_trans hw₁ hw₂) hargs
  refine h.bind (h.bindParams frame hcount hargs) fun w₃ _ more hmore => ?_
  cases closure.fn.rest with
  | none => exact h.evalForms hbody hev frame
  | some rest =>
    refine h.bind (h.define frame rest (h.vec_iff.2 hmore)) fun _ _ _ _ => ?_
    exact h.evalForms hbody hev frame

end Calls

/-! ## Primitives -/

section Primitives

include h hforms

omit hforms in
/-- Parameters are written where they are listed. -/
theorem writtenIn_of_ofForm {form : Form} {params : Params} (hform : F form)
    (hlisted : Params.ofForm form = .ok params) :
    (∀ s ∈ params.params, ∃ pos, F (.atom (.id s) pos)) ∧
      ∀ s ∈ params.rest, ∃ pos pos', F (.splat (.atom (.id s) pos) pos') := by
  obtain ⟨items, pos, rfl, ids, last, rfl, hids, hlast⟩ := Params.ofForm_eq_ok_iff.1 hlisted
  have hitems := h.items hform
  constructor
  · intro s hs
    have hmem : some s ∈ ids.map Form.id? := hids ▸ List.mem_map_of_mem hs
    obtain ⟨item, hitem, hid⟩ := List.mem_map.1 hmem
    obtain ⟨pos, rfl⟩ := Form.id?_eq_some_iff.1 hid
    exact ⟨pos, hitems _ (List.mem_append_left _ hitem)⟩
  · intro s hs
    have hmem : some s ∈ last.map Form.splatId? :=
      hlast ▸ List.mem_map_of_mem (Option.mem_toList.2 hs)
    obtain ⟨item, hitem, hid⟩ := List.mem_map.1 hmem
    obtain ⟨pos, pos', rfl⟩ := Form.splatId?_eq_some_iff.1 hid
    exact ⟨pos, pos', hitems _ (List.mem_append_right _ hitem)⟩

/-- The function is known from when it has its identity. -/
theorem makeFun {name : Option Symbol} (hname : ∀ s ∈ name, ∃ pos, F (.atom (.id s) pos))
    (env : Env) : R w K (makeFun name env forms) (makeFun name env forms) := by
  unfold SplatLisp.makeFun
  split
  · exact h.fail _
  · next form body =>
    split
    · exact h.fail _
    · next params rest hlisted =>
      obtain ⟨hform, hbody⟩ := List.forall_mem_cons.1 hforms
      obtain ⟨hparams, hrest⟩ := h.writtenIn_of_ofForm hform hlisted
      refine h.bind (h.fresh (fun i => ⟨⟨i, name, params, rest, body⟩, env⟩) (fun _ => rfl)
        fun _ => ⟨hname, hparams, hrest, hbody⟩) fun w' _ identity hfn => ?_
      cases name with
      | none => exact h.pure hfn
      | some symbol => exact h.bind (h.define env symbol hfn) fun _ hw _ _ => h.pure (h.mono hw hfn)

theorem evalFunction (env : Env)
    (hshort : forms.length < 1 → R w K (throw .broken : Eval Value) (throw .broken)) :
    R w K (evalFunction env forms) (evalFunction env forms) := by
  unfold SplatLisp.evalFunction
  split
  · exact hshort Nat.zero_lt_one
  · next form more =>
    obtain ⟨hform, hmore⟩ := List.forall_mem_cons.1 hforms
    split
    · next symbol hid =>
      refine h.makeFun hmore (fun s hs => ?_) env
      obtain ⟨pos, rfl⟩ := Form.id?_eq_some_iff.1 hid
      cases hs
      exact ⟨pos, hform⟩
    · exact h.makeFun hforms (by simp) env

omit hforms in
theorem intOr (op : String) (n : Option Int64) : R w K (intOr op n) (intOr op n) := by
  cases n with
  | none => exact h.fail _
  | some n => exact h.pure (h.int w n)

include hev

theorem evalBranch (env : Env)
    (hshort : forms.length < 2 → R w K (throw .broken : Eval Value) (throw .broken)) :
    R w K (evalBranch ev env forms) (evalBranch ev' env forms) := by
  unfold SplatLisp.evalBranch
  split
  · next condition positive more =>
    have hform : ∀ form ∈ condition :: positive :: more, F form ∨ form.id?.isSome = true :=
      fun form hmem => .inl (hforms form hmem)
    refine h.bind (hev w condition env (hform _ (by simp))) fun w' _ value _ => ?_
    by_cases htrue : value.truthy = true
    · rw [if_pos htrue, if_pos htrue]
      exact hev w' positive env (hform _ (by simp))
    · rw [if_neg htrue, if_neg htrue]
      cases more with
      | nil => exact h.pure (h.nil w')
      | cons negative more => exact hev w' negative env (hform _ (by simp))
  · next hfew =>
    refine hshort (Nat.lt_of_not_le fun hlong => ?_)
    match forms, hlong with
    | condition :: positive :: more, _ => exact hfew _ _ _ rfl

theorem evalBindings (frame : Env) : R w (fun _ _ => True) (evalBindings ev frame forms)
    (evalBindings ev' frame forms) := by
  fun_induction SplatLisp.evalBindings ev frame forms generalizing w with
  | case1 target form forms hid =>
    rw [SplatLisp.evalBindings, hid]
    exact h.fail _
  | case2 target form forms symbol hid ih =>
    obtain ⟨-, hform, hmore⟩ : F target ∧ F form ∧ ∀ form ∈ forms, F form := by simpa using hforms
    rw [SplatLisp.evalBindings, hid]
    refine h.bind (hev w form frame (.inl hform)) fun _ _ value hvalue => ?_
    exact h.bind (h.define frame symbol hvalue) fun _ _ _ _ => ih hmore
  | case3 forms hshort =>
    have hpure : SplatLisp.evalBindings ev' frame forms = Pure.pure () := by
      unfold SplatLisp.evalBindings
      split
      · exact absurd rfl (hshort _ _ _)
      · rfl
    rw [hpure]
    exact h.pure trivial

theorem evalLet (env : Env)
    (hshort : forms.length < 1 → R w K (throw .broken : Eval Value) (throw .broken)) :
    R w K (evalLet ev env forms) (evalLet ev' env forms) := by
  unfold SplatLisp.evalLet
  split
  · next bindings body =>
    obtain ⟨hbindings, hbody⟩ := List.forall_mem_cons.1 hforms
    split
    · next pairs pos =>
      by_cases heven : pairs.length % 2 = 0
      · rw [if_pos heven, if_pos heven]
        refine h.bind (h.child env) fun _ _ frame _ => ?_
        refine h.bind (h.evalBindings (h.items hbindings) hev frame) fun _ _ _ _ => ?_
        exact h.evalForms hbody hev frame
      · rw [if_neg heven, if_neg heven]
        exact h.fail _
    · exact h.fail _
  · exact hshort Nat.zero_lt_one

theorem evalTypeOf (env : Env)
    (hshort : forms.length < 1 → R w K (throw .broken : Eval Value) (throw .broken)) :
    R w K (evalTypeOf ev env forms) (evalTypeOf ev' env forms) := by
  cases forms with
  | nil => exact hshort Nat.zero_lt_one
  | cons form forms =>
    have hform := hforms form List.mem_cons_self
    exact h.bind (hev w form env (.inl hform)) fun _ _ _ hvalue => h.typeOf hvalue

theorem evalDump (env : Env) : R w K (evalDump ev env forms) (evalDump ev' env forms) := by
  refine h.bind (h.evalArgs hforms hev env) fun w' _ values _ => ?_
  cases (Value.lineRendering values).result with
  | ok line => exact h.bind (h.writeLine line) fun w'' _ _ _ => h.pure (h.nil w'')
  | error failure => exact h.fail _

theorem evalInts (env : Env) :
    R w (fun _ _ => True) (evalInts ev env forms) (evalInts ev' env forms) := by
  refine h.bind (h.evalArgs hforms hev env) fun _ _ values _ => ?_
  cases values.find? (·.int?.isNone) with
  | some value => exact h.fail _
  | none => exact h.pure trivial

/-- An operation may break only if it does not get the forms that it needs. -/
theorem runPrim {op : PrimOp} (env : Env)
    (hshort : forms.length < op.needs → R w K (throw .broken : Eval Value) (throw .broken))
    (hhost : ∀ code, op = .host code →
      R w K (H.run code ev forms env) (H'.run code ev' forms env)) :
    R w K (@SplatLisp.runPrim H ev op forms env) (@SplatLisp.runPrim H' ev' op forms env) := by
  cases op with
  | sequence => exact h.evalForms hforms hev env
  | branch => exact h.evalBranch hforms hev env hshort
  | bindings => exact h.evalLet hforms hev env hshort
  | function => exact h.evalFunction hforms env hshort
  | typeOf => exact h.evalTypeOf hforms hev env hshort
  | dump => exact h.evalDump hforms hev env
  | add => exact h.bind (h.evalInts hforms hev env) fun _ _ _ _ => h.intOr _ _
  | subtract => exact h.bind (h.evalInts hforms hev env) fun _ _ _ _ => h.intOr _ _
  | equal => exact h.bind (h.evalArgs hforms hev env) fun w' _ _ _ => h.pure (h.bool w' _)
  | host code => exact hhost code rfl

end Primitives

/-! ## Evaluation -/

section Evaluation

include h

include hforms hev in
theorem evalCall (env : Env) :
    R w K (@SplatLisp.evalCall H ev env forms) (@SplatLisp.evalCall H' ev' env forms) := by
  cases forms with
  | nil => exact h.pure (h.nil w)
  | cons head forms =>
    obtain ⟨hhead, hforms⟩ := List.forall_mem_cons.1 hforms
    refine h.bind (hev w head env (.inl hhead)) fun w₁ _ callee hcallee => ?_
    cases callee with
    | prim prim =>
      refine h.bind (h.checkCount _ _ _ _) fun w₂ hw _ hcount => ?_
      have hprim := h.mono hw hcallee
      refine h.runPrim hforms hev env (fun hshort => ?_) fun code hop => ?_
      · exact h.broken hprim (Nat.lt_of_le_of_lt hcount hshort)
      · exact h.host hprim hop hev hforms env
    | fn closure =>
      refine h.bind (h.evalArgs hforms hev env) fun _ _ _ hargs => ?_
      exact h.applyClosure hev _ (h.body hcallee) hargs
    | _ => exact h.fail _

include hev in
/-- Evaluators that do the same on all parts of a form do the same on the form. -/
theorem evalStep {form : Form} (hform : F form ∨ form.id?.isSome = true) (env : Env) :
    R w K (@SplatLisp.evalStep H ev form env) (@SplatLisp.evalStep H' ev' form env) := by
  cases form with
  | atom atom pos =>
    cases atom with
    | nil => exact h.pure (h.nil w)
    | bool b => exact h.pure (h.bool w b)
    | int n => exact h.pure (h.int w n)
    | id symbol => exact h.lookup env symbol
  | group bracket items pos =>
    have hitems := h.items (hform.resolve_right Bool.false_ne_true)
    cases bracket with
    | round => exact h.evalCall hitems hev env
    | square =>
      exact h.bind (h.evalArgs hitems hev env) fun _ _ _ hvalues => h.pure (h.vec_iff.2 hvalues)
  | splat inner pos =>
    have hinner := h.inner (hform.resolve_right Bool.false_ne_true)
    refine h.bind (hev w inner env hinner) fun _ _ value hvalue => ?_
    by_cases hiter : value.items?.isSome = true
    · rw [if_pos hiter]
      exact h.pure (h.splat_iff.2 hvalue)
    · rw [if_neg hiter]
      exact h.fail _

/-- **Evaluation keeps what it keeps in each of its steps**: all values that it comes to are known,
if it starts with forms that have the property. Identifiers need none, as they are looked up. -/
theorem eval (bound : Nat) (w : W) (form : Form) (env : Env)
    (hform : F form ∨ form.id?.isSome = true) :
    R w K (@SplatLisp.eval H bound form env) (@SplatLisp.eval H' bound form env) := by
  induction bound generalizing w form env with
  | zero => exact h.exhausted
  | succ bound ih => exact h.evalStep ih hform env

end Evaluation

end TrackedIn

/-! ## Whatever the forms -/

/-- `K` is a property of what evaluation makes of values with the property, whatever the forms, and
`R` is kept by all that evaluation consists of. -/
structure Tracked [HostPrims] {W : Type} [Preorder W] (K : W → Value → Prop)
    (R : W → {α : Type} → (W → α → Prop) → Eval α → Prop) : Prop where
  mono : ∀ {w w' : W} {v : Value}, w ≤ w' → K w v → K w' v
  nil : ∀ w, K w .nil
  bool : ∀ w b, K w (.bool b)
  int : ∀ w n, K w (.int n)
  vec_iff : ∀ {w : W} {items : List Value}, K w (.vec items) ↔ Value.AllOf K w items
  splat_iff : ∀ {w : W} {inner : Value}, K w (.splat inner) ↔ K w inner
  pure : ∀ {w : W} {α : Type} {Q : W → α → Prop} {a : α}, Q w a → R w Q (pure a)
  bind : ∀ {w : W} {α β : Type} {P : W → α → Prop} {Q : W → β → Prop} {x : Eval α}
    {f : α → Eval β}, R w P x → (∀ w', w ≤ w' → ∀ a, P w' a → R w' Q (f a)) → R w Q (x >>= f)
  fail : ∀ {w : W} {α : Type} {Q : W → α → Prop} (cause : Cause), R w Q (Eval.fail cause)
  exhausted : ∀ {w : W} {α : Type} {Q : W → α → Prop}, R w Q (throw .exhausted)
  broken : ∀ {w : W} {α : Type} {Q : W → α → Prop} {prim : Prim}, K w (.prim prim) →
    prim.minArgs < prim.op.needs → R w Q (throw .broken)
  lookup : ∀ {w : W} (env : Env) (symbol : Symbol), R w K (Eval.lookup env symbol)
  define : ∀ {w : W} (env : Env) (symbol : Symbol) {value : Value}, K w value →
    R w (fun _ _ => True) (Eval.define env symbol value)
  child : ∀ {w : W} (env : Env), R w (fun _ _ => True) (Eval.child env)
  /-- A function that is made with a new identity becomes known. -/
  fresh : ∀ {w : W} (make : Identity → Closure), (∀ i, (make i).fn.identity = i) →
    R w (fun w' i => K w' (.fn (make i))) Eval.fresh
  typeOf : ∀ {w : W} {value : Value}, K w value →
    R w K (do return Value.type ((← get).types.typeOf value))
  writeLine : ∀ {w : W} (text : String), R w (fun _ _ => True) (Eval.writeLine text)
  host : ∀ {w : W} {prim : Prim} {code : Nat}, K w (.prim prim) → prim.op = .host code →
    ∀ {ev : Evaluator}, (∀ w form env, R w K (ev form env)) →
      ∀ forms env, R w K (HostPrims.run code ev forms env)

namespace Tracked

variable [H : HostPrims] {W : Type} [Preorder W] {K : W → Value → Prop}
  {R : W → {α : Type} → (W → α → Prop) → Eval α → Prop} (h : Tracked K R) {ev : Evaluator}
  (hev : ∀ w form env, R w K (ev form env)) {w : W}

include h

theorem inAll : TrackedIn H H (fun _ => True) K fun w _ Q x _ => R w Q x where
  items _ _ _ := trivial
  inner _ := .inl trivial
  body _ _ _ := trivial
  mono := h.mono
  nil := h.nil
  bool := h.bool
  int := h.int
  vec_iff := h.vec_iff
  splat_iff := h.splat_iff
  pure := h.pure
  bind := h.bind
  fail := h.fail
  exhausted := h.exhausted
  broken := h.broken
  lookup := h.lookup
  define := h.define
  child := h.child
  fresh make hmake _ := h.fresh make hmake
  typeOf := h.typeOf
  writeLine := h.writeLine
  host hprim hop _ _ hev forms _ env :=
    h.host hprim hop (fun w form e => hev w form e (.inl trivial)) forms env

theorem eval (bound : Nat) (w : W) (form : Form) (env : Env) : R w K (eval bound form env) :=
  h.inAll.eval bound w form env (.inl trivial)

include hev

-- The second evaluator does not matter, so it has to be named.
theorem evalForms (forms : List Form) (env : Env) : R w K (evalForms ev forms env) :=
  @TrackedIn.evalForms _ _ _ _ _ _ _ h.inAll ev ev _ _ (fun _ _ => trivial)
    (fun w form env _ => hev w form env) env

theorem evalArgs (forms : List Form) (env : Env) :
    R w (Value.AllOf K) (evalArgs ev forms env) :=
  @TrackedIn.evalArgs _ _ _ _ _ _ _ h.inAll ev ev _ _ (fun _ _ => trivial)
    (fun w form env _ => hev w form env) env

theorem applyClosure (callee : Value) (closure : Closure) {args : List Value}
    (hargs : Value.AllOf K w args) : R w K (applyClosure ev callee closure args) :=
  @TrackedIn.applyClosure _ _ _ _ _ _ _ h.inAll ev ev _ (fun w form env _ => hev w form env)
    callee _ (fun _ _ => trivial) _ hargs

end Tracked

end SplatLisp
