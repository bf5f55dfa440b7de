import SplatLisp.Proofs.Bindings
import SplatLisp.Proofs.Parallel
import SplatLisp.Proofs.Requests

/-!
# Splats never end up inside of data

A variable may be bound to a splat, and `do`, `if` and functions may give one, but no vector has a
splat among its items, and no splat wraps what cannot be iterated: all values are clean. That no
context ever binds anything else, and no form ever has another value, is an invariant of evaluation
(`Context.clean_of_reachable`).

To say so of everything that happens on the way as well, evaluation is compared with evaluation
under watch (`watched`), which breaks off at the first form, however deep inside, that is evaluated
where something unclean is bound or that has an unclean value. The two do not differ. The proof runs
both on the same form in the same clean context: what they do is related by `Eval.Agree`, and all
steps keep to it (`parallel_agree`).
-/

namespace SplatLisp

open scoped CoreOnly

/-- Whether all values bound in a frame are clean. -/
def Frame.Clean (env : Env) (frame : Frame) : Prop :=
  ∀ ⦃symbol slot⦄, frame.get? symbol = some slot → (slot.value env).clean = true

/-- Whether all values bound in a heap are clean. -/
def Heap.Clean (heap : Heap) : Prop :=
  ∀ ⦃env frame⦄, heap.frame? env = some frame → frame.Clean env

open Classical in
/-- Evaluation that breaks off where an unclean value is bound or comes out. -/
noncomputable def watched : Nat → Evaluator
  | 0 => fun _ _ => throw .exhausted
  | bound + 1 => fun form env => do
    if (← get).heap.Clean then
      let value ← evalStep (watched bound) form env
      if value.clean then pure value else throw .broken
    else throw .broken

/-! ## Clean heaps -/

namespace Heap.Clean

variable {heap : Heap}

theorem binds (h : heap.Clean) : heap.Binds (·.clean = true) := h

theorem alloc (h : heap.Clean) (parent : Option Env) : (heap.alloc parent).2.Clean :=
  h.binds.alloc parent

theorem define (h : heap.Clean) (env : Env) (symbol : Symbol) {value : Value}
    (hvalue : value.clean = true) : (heap.define env symbol value).Clean :=
  h.binds.define env symbol hvalue

theorem lookup (h : heap.Clean) {env : Env} {symbol : Symbol} {value : Value}
    (hvalue : heap.lookup env symbol = some value) : value.clean = true :=
  h.binds.lookup hvalue

end Heap.Clean

/-! ## Computations that agree -/

namespace Eval

variable {α β : Type} {L : Links} {env env' : Env} {symbol symbol' : Symbol}

/-- How two runs that agree end, in one clean context. -/
inductive Tidy (Q : α → α → Prop) :
    EStateM.Result Stop Context α → EStateM.Result Stop Context α → Prop
  | ok {a a' : α} {c : Context} (hQ : Q a a') (hc : c.heap.Clean) : Tidy Q (.ok a c) (.ok a' c)
  | error (stop : Stop) {c : Context} (hc : c.heap.Clean) : Tidy Q (.error stop c) (.error stop c)

/-- Whether two computations agree on clean contexts, if links hold that link all handles to
themselves. -/
def Agree (L : Links) (Q : Links → α → α → Prop) (x x' : Eval α) : Prop :=
  L = .same → ∀ c : Context, c.heap.Clean → Tidy (Q .same) (x c) (x' c)

theorem Agree.bind {P : Links → α → α → Prop} {Q : Links → β → β → Prop} {x x' : Eval α}
    {f f' : α → Eval β} (hx : Agree L P x x')
    (hf : ∀ M, L ≤ M → ∀ a a', P M a a' → Agree M Q (f a) (f' a')) :
    Agree L Q (x >>= f) (x' >>= f') := by
  rintro rfl c hc
  have htidy := hx rfl c hc
  change Tidy _ (EStateM.bind x f c) (EStateM.bind x' f' c)
  unfold EStateM.bind
  generalize x c = result at htidy
  generalize x' c = result' at htidy
  cases htidy with
  | ok hP hd => exact hf .same le_rfl _ _ hP rfl _ hd
  | error stop hd => exact .error stop hd

theorem Agree.fail {Q : Links → α → α → Prop} {cause cause' : Cause} (h : cause.Like L cause') :
    Agree L Q (Eval.fail cause) (Eval.fail cause') := by
  rintro rfl c hc
  rw [h.eq]
  exact .error _ hc

theorem Agree.lookup (henv : L.env env env') (hsymbol : L.symbol symbol symbol') :
    Agree L Value.Like (Eval.lookup env symbol) (Eval.lookup env' symbol') := by
  rintro rfl c hc
  obtain rfl : env = env' := henv
  obtain rfl : symbol = symbol' := hsymbol
  rw [lookup_eq]
  cases hvalue : c.heap.lookup env symbol with
  | none => exact .error _ hc
  | some value => exact .ok (Value.like_same_iff.2 ⟨rfl, hc.lookup hvalue⟩) hc

theorem Agree.define {value value' : Value} (henv : L.env env env')
    (hsymbol : L.symbol symbol symbol') (hvalue : value.Like L value') :
    Agree L (fun _ _ _ => True) (Eval.define env symbol value)
      (Eval.define env' symbol' value') := by
  rintro rfl c hc
  obtain rfl : env = env' := henv
  obtain rfl : symbol = symbol' := hsymbol
  obtain ⟨rfl, hclean⟩ := Value.like_same_iff.1 hvalue
  exact .ok trivial (hc.define env symbol hclean)

theorem Agree.child (henv : L.env env env') :
    Agree L Links.env (Eval.child env) (Eval.child env') := by
  rintro rfl c hc
  obtain rfl : env = env' := henv
  exact .ok rfl (hc.alloc (some env))

end Eval

open Eval

/-- All that evaluation consists of agrees with itself. -/
theorem parallel_agree :
    Parallel Value.Like Value.ItemsLike fun L _ Q x x' => Agree L Q x x' where
  values := Value.congruence_like
  pure hQ := by
    rintro rfl c hc
    exact .ok hQ hc
  bind := Agree.bind
  fail := Agree.fail
  exhausted := fun _ c hc => .error _ hc
  broken := fun _ c hc => .error _ hc
  lookup := Agree.lookup
  fresh := by
    rintro L rfl c hc
    exact .ok rfl hc
  typeOf := by
    rintro L value value' hvalue rfl c hc
    obtain ⟨rfl, -⟩ := Value.like_same_iff.1 hvalue
    exact .ok (.leaf (.type _)) hc
  writeLine text := fun _ c hc => .ok trivial hc
  define := Agree.define
  child := Agree.child
  host _ _ _ _ _ _ _ _ _ := fun _ _ hc => .error _ hc

/-- In a clean context, the watch is on the value alone. -/
theorem watched_succ (bound : Nat) (form : Form) (env : Env) {c : Context} (hc : c.heap.Clean) :
    watched (bound + 1) form env c = (do
      let value ← evalStep (watched bound) form env
      if value.clean then pure value else throw .broken : Eval Value) c := by
  classical
  change (if c.heap.Clean then _ else _ : Eval Value) c = _
  rw [if_pos hc]

/-- Evaluation under watch agrees with evaluation. -/
theorem agree_watched (bound : Nat) {L : Links} {form form' : Form} {env env' : Env}
    (hform : form.Like L.symbol L.pos form') (henv : L.env env env') :
    Agree L Value.Like (eval bound form env) (watched bound form' env') := by
  induction bound generalizing L form form' env env' with
  | zero => exact parallel_agree.exhausted
  | succ bound ih =>
    rintro rfl c hc
    have htidy := parallel_agree.evalStep ih hform henv rfl c hc
    rw [watched_succ bound form' env' hc, eval_succ]
    change Tidy _ _ (EStateM.bind _ _ c)
    unfold EStateM.bind
    generalize evalStep (eval bound) form env c = result at htidy ⊢
    generalize evalStep (watched bound) form' env' c = result' at htidy ⊢
    cases htidy with
    | error stop hd => exact .error stop hd
    | ok hvalue hd =>
      dsimp only
      rw [if_pos (hvalue.eq ▸ hvalue.clean)]
      exact .ok hvalue hd

namespace Eval

/-- Reading leaves all frames as they are. -/
theorem Agree.readChars (L : Links) (pos : Pos) (chars : List Char) :
    Agree L (fun M => List.Forall₂ (Form.Like M.symbol M.pos)) (Eval.readChars pos chars)
      (Eval.readChars pos chars) := by
  rintro rfl c hc
  rw [readChars_eq]
  cases (Reader.mk chars c.symbols).readAll pos with
  | mk outcome reader =>
    cases outcome with
    | ok forms => exact .ok (Form.likes_eq_self forms) hc
    | error failure => exact .error _ hc

theorem Agree.evalChars (bound : Nat) (pos : Pos) (chars : List Char) (env : Env) :
    Agree .same Value.Like (Eval.evalChars bound pos chars env)
      (Eval.evalChars bound pos chars env) := by
  refine parallel_agree.bind (Agree.readChars .same pos chars) fun M hM forms forms' hforms => ?_
  exact parallel_agree.evalForms (parallel_agree.eval bound) hforms (hM.env rfl)

theorem Agree.load (bound : Nat) (read : ReadFile) (name : String) (env : Env) :
    Agree .same Value.Like (Eval.load bound read name env) (Eval.load bound read name env) := by
  unfold Eval.load
  cases read name with
  | ok bytes => exact Agree.evalChars bound (.start name) (Utf8.decode bytes) env
  | error reason => exact Agree.fail (.refl _)

/-- What agrees with itself leads from clean contexts to clean contexts. -/
theorem Agree.after {α : Type} {Q : Links → α → α → Prop} {x : Eval α} (h : Agree .same Q x x)
    {c : Context} (hc : c.heap.Clean) : (x.after c).heap.Clean := by
  have htidy := h rfl c hc
  unfold Eval.after
  generalize x c = result at htidy ⊢
  cases htidy with
  | ok _ hd => exact hd
  | error _ hd => exact hd

end Eval

/-- What a value stands for among arguments is always there, as clean splats are iterable. -/
theorem spread_like {L : Links} {v v' : Value} (h : v.Like L v') :
    ∃ items items', spread v = pure items ∧ spread v' = pure items' ∧
      Value.ItemsLike L items items' := by
  cases hsplat : v.isSplat with
  | false =>
    have hsplat' : v'.isSplat = false := by rw [← h.corresponds.isSplat_eq, hsplat]
    exact ⟨[v], [v'], spread_of_not_splat hsplat, spread_of_not_splat hsplat', .cons h hsplat .nil⟩
  | true =>
    cases h with
    | leaf hleaf => cases hleaf <;> cases hsplat
    | vec _ _ => cases hsplat
    | @splat inner inner' hinner hiter =>
      obtain ⟨items, hitems⟩ := Option.isSome_iff_exists.1 hiter
      obtain ⟨items', hitems', hlike⟩ := exists_of_rel hinner.items?_rel hitems
      exact ⟨items, items', spread_of_items? hitems, spread_of_items? hitems', hlike⟩

/-! ## Requests -/

/-- Whether a request brings no splats into data. -/
def Request.Clean : Request → Prop
  | call _ _ values => Value.cleanItems values = true
  | define _ _ value => value.clean = true
  | _ => True

theorem Value.itemsLike_self {items : List Value} (h : cleanItems items = true) :
    ItemsLike .same items items :=
  ⟨likes_same_self items h, fun item hitem => (cleanItems_iff.1 h item hitem).2⟩

theorem Request.Clean.run {c : Context} {request : Request} (h : request.Clean)
    (hc : c.heap.Clean) : (request.run c).heap.Clean := by
  cases request with
  | form bound f env =>
    exact (parallel_agree.eval bound f.like_eq_self rfl).after hc
  | args bound fs env =>
    exact (parallel_agree.evalArgs (parallel_agree.eval bound) (Form.likes_eq_self fs) rfl).after hc
  | call bound fn values =>
    have hfn : fn.fn.Like .same fn.fn := Fun.like_same_iff.2 rfl
    have hcallee : (Value.fn fn).Corresponds .same (.fn fn) := .leaf (.fn hfn rfl)
    exact (parallel_agree.applyClosure (parallel_agree.eval bound) hcallee hfn rfl
      (Value.itemsLike_self h)).after hc
  | text bound pos source env => exact (Agree.evalChars bound pos source.toList env).after hc
  | load bound read name env => exact (Agree.load bound read name env).after hc
  | frame parent => exact hc.alloc parent
  | define env symbol value => exact hc.define env symbol h
  | intern name => exact hc
  | fresh => exact hc
  | register name =>
    obtain ⟨types, hrun⟩ := exists_types_run_register name c
    rw [hrun]
    exact hc
  | configure sinks diagnostics out => exact hc

theorem Context.clean_new (settings : Settings) : (new settings).heap.Clean := by
  have hempty : Heap.empty.Binds (·.clean = true) := .empty
  refine new_induction (I := (·.heap.Clean)) settings (hempty.alloc none) fun c hc entry _ => ?_
  exact Heap.Clean.define hc .root _ rfl

/-- What holds in a clean context. -/
structure Context.StaysClean (c : Context) : Prop where
  bound : ∀ env frame symbol slot, c.heap.frame? env = some frame →
    frame.get? symbol = some slot → (slot.value env).clean = true
  value : ∀ bound form env value d, eval bound form env c = .ok value d → value.clean = true
  args : ∀ bound forms env values d, evalArgs (eval bound) forms env c = .ok values d →
    ∀ value ∈ values, value.clean = true ∧ value.isSplat = false
  /-- Nothing unclean comes up on the way either. -/
  watched : ∀ bound form env, watched bound form env c = eval bound form env c
  watchedArgs : ∀ bound forms env,
    evalArgs (SplatLisp.watched bound) forms env c = evalArgs (eval bound) forms env c
  /-- No value that can come up fails to spread among arguments. -/
  spread : ∀ value : Value, value.clean = true → ∃ items, spread value = pure items ∧
    ∀ item ∈ items, item.clean = true ∧ item.isSplat = false

theorem Value.ItemsLike.eq {items items' : List Value} (h : ItemsLike .same items items') :
    items = items' := by
  have halike := h.alike.imp fun _ _ hitem => hitem.eq
  rwa [List.forall₂_eq_eq_eq] at halike

theorem Value.ItemsLike.clean {items items' : List Value} (h : ItemsLike .same items items') :
    ∀ item ∈ items, item.clean = true ∧ item.isSplat = false := by
  have hvec := h.vec.clean
  rw [Value.clean] at hvec
  exact cleanItems_iff.1 hvec

/-- **Splats never end up inside of data.** In every context that clean requests lead to, all values
bound are clean, and so are all values of forms and all arguments, which are no splats either. -/
theorem Context.clean_of_reachable {c : Context} (h : c.Reachable fun _ request => request.Clean) :
    c.StaysClean := by
  have hc : c.heap.Clean := by
    induction h with
    | new settings => exact clean_new settings
    | next _ request hlegal ih => exact Request.Clean.run hlegal ih
  have hargs : ∀ bound forms env, Tidy (Value.ItemsLike .same) (evalArgs (eval bound) forms env c)
      (evalArgs (SplatLisp.watched bound) forms env c) := by
    intro bound forms env
    exact parallel_agree.evalArgs (agree_watched bound) (Form.likes_eq_self forms) rfl rfl c hc
  refine ⟨fun env frame symbol slot hframe hslot => hc hframe hslot, ?_, ?_, ?_, ?_, ?_⟩
  · intro bound form env value d heq
    have henv : Links.same.env env env := rfl
    have htidy := parallel_agree.eval bound form.like_eq_self henv rfl c hc
    rw [heq] at htidy
    cases htidy with
    | ok hvalue _ => exact hvalue.clean
  · intro bound forms env values d heq
    have htidy := hargs bound forms env
    rw [heq] at htidy
    generalize evalArgs (SplatLisp.watched bound) forms env c = result at htidy
    cases htidy with
    | ok hvalues _ => exact hvalues.clean
  · intro bound form env
    have henv : Links.same.env env env := rfl
    have htidy := agree_watched bound form.like_eq_self henv rfl c hc
    generalize eval bound form env c = result at htidy ⊢
    generalize SplatLisp.watched bound form env c = result' at htidy ⊢
    cases htidy with
    | ok hvalue _ => rw [hvalue.eq]
    | error _ _ => rfl
  · intro bound forms env
    have htidy := hargs bound forms env
    generalize evalArgs (eval bound) forms env c = result at htidy ⊢
    generalize evalArgs (SplatLisp.watched bound) forms env c = result' at htidy ⊢
    cases htidy with
    | ok hvalues _ => rw [hvalues.eq]
    | error _ _ => rfl
  · intro value hvalue
    obtain ⟨items, items', heq, -, hitems⟩ := spread_like (Value.like_same_iff.2 ⟨rfl, hvalue⟩)
    exact ⟨items, heq, hitems.clean⟩

/-- A splat may be bound, by the surrounding program as well as by the text that is evaluated. -/
theorem Context.clean_of_reachable_splat :
    ((Request.text 64 (.start "scope") "(let [xs (do do..)] [xs xs..])" .root).run
      ((Request.define .root ⟨"do", 0⟩ (.splat (.vec [.int 1, .int 2]))).run
        (.new {}))).StaysClean :=
  clean_of_reachable (.next (.next (.new {}) _ (by rfl)) _ trivial)

end SplatLisp
