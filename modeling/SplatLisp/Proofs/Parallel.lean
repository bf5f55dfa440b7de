import SplatLisp.Proofs.Inherited
import SplatLisp.Proofs.Likeness

/-!
# Evaluation of forms that are alike

Two runs of the evaluator, on forms that are alike and in environments that are linked, do the same
elementary steps one after the other, on things that are alike. So a relation between computations
that relates the same elementary step on things that are alike, and that computations one after the
other keep, relates the two runs; the induction that shows it is made here, once for all relations
(`Parallel.eval`).

Such a relation `R L Q x x'` may depend on the links `L` that hold when the computations start.
They may link new handles on the way, and then `Q` says how what they give is related under the
links that hold in the end.

How values of the two runs are related is left open as well. All that evaluation does with values,
making them and looking at them, has to respect the relation (`Value.Congruence`). Values that
correspond are related in this sense (`Value.congruence_corresponds`), and so are values that are
clean in addition (`Value.congruence_like`).

Primitives of the surrounding program are steps of their own: they are related if they are given
forms that are alike, and evaluation that is related (`Parallel.host`).
-/

namespace SplatLisp

/-! ## How values are related -/

/-- `V` relates values that correspond, and `I` sequences of arguments, and what is made of related
parts is related. -/
structure Value.Congruence (V : Links → Value → Value → Prop)
    (I : Links → List Value → List Value → Prop) : Prop where
  corresponds : ∀ {L : Links} {v v' : Value}, V L v v' → v.Corresponds L v'
  argsCorrespond : ∀ {L : Links} {args args' : List Value}, I L args args' →
    List.Forall₂ (Corresponds L) args args'
  leaf : ∀ {L : Links} {v v' : Value}, v.LeafLike L v' → V L v v'
  vec : ∀ {L : Links} {args args' : List Value}, I L args args' → V L (.vec args) (.vec args')
  splat : ∀ {L : Links} {inner inner' : Value}, V L inner inner' → inner.items?.isSome = true →
    V L (.splat inner) (.splat inner')
  items : ∀ {L : Links} {v v' : Value}, V L v v' → Option.Rel (I L) v.items? v'.items?
  nil : ∀ {L : Links}, I L [] []
  single : ∀ {L : Links} {v v' : Value}, V L v v' → v.isSplat = false → I L [v] [v']
  append : ∀ {L : Links} {args args' more more' : List Value}, I L args args' → I L more more' →
    I L (args ++ more) (args' ++ more')
  uncons : ∀ {L : Links} {v v' : Value} {args args' : List Value}, I L (v :: args) (v' :: args') →
    V L v v' ∧ I L args args'
  mono : ∀ {L M : Links} {args args' : List Value}, I L args args' → L ≤ M → I M args args'

theorem Value.congruence_corresponds :
    Congruence Corresponds fun L => List.Forall₂ (Corresponds L) where
  corresponds := id
  argsCorrespond := id
  leaf := .leaf
  vec := .vec
  splat h _ := .splat h
  items := Corresponds.items?_rel
  nil := .nil
  single h _ := .cons h .nil
  append h hmore := List.rel_append h hmore
  uncons h := List.forall₂_cons.1 h
  mono h hLM := h.imp fun _ _ hv => hv.mono hLM

theorem Value.congruence_like : Congruence Like ItemsLike where
  corresponds := Like.corresponds
  argsCorrespond h := h.alike.imp fun _ _ hv => hv.corresponds
  leaf := .leaf
  vec := ItemsLike.vec
  splat := .splat
  items := Like.items?_rel
  nil := .nil
  single h hplain := .cons h hplain .nil
  append := ItemsLike.append
  uncons h :=
    have halike := List.forall₂_cons.1 h.alike
    ⟨halike.1, halike.2, (List.forall_mem_cons.1 h.plain).2⟩
  mono := ItemsLike.mono

/-! ## What evaluation consists of -/

/-- `R` relates all that evaluation consists of to the same on things that are alike, values being
related by `V` and arguments by `I`. -/
structure Parallel [HostPrims] (V : Links → Value → Value → Prop)
    (I : Links → List Value → List Value → Prop)
    (R : Links → {α : Type} → (Links → α → α → Prop) → Eval α → Eval α → Prop) : Prop where
  values : Value.Congruence V I
  pure : ∀ {L : Links} {α : Type} {Q : Links → α → α → Prop} {a a' : α},
    Q L a a' → R L Q (pure a) (pure a')
  bind : ∀ {L : Links} {α β : Type} {P : Links → α → α → Prop} {Q : Links → β → β → Prop}
    {x x' : Eval α} {f f' : α → Eval β}, R L P x x' →
    (∀ M, L ≤ M → ∀ a a', P M a a' → R M Q (f a) (f' a')) → R L Q (x >>= f) (x' >>= f')
  fail : ∀ {L : Links} {α : Type} {Q : Links → α → α → Prop} {cause cause' : Cause},
    cause.Like L cause' → R L Q (Eval.fail cause) (Eval.fail cause')
  exhausted : ∀ {L : Links} {α : Type} {Q : Links → α → α → Prop},
    R L Q (throw .exhausted) (throw .exhausted)
  broken : ∀ {L : Links} {α : Type} {Q : Links → α → α → Prop},
    R L Q (throw .broken) (throw .broken)
  lookup : ∀ {L : Links} {env env' : Env} {symbol symbol' : Symbol}, L.env env env' →
    L.symbol symbol symbol' → R L V (Eval.lookup env symbol) (Eval.lookup env' symbol')
  fresh : ∀ {L : Links}, R L Links.identity Eval.fresh Eval.fresh
  typeOf : ∀ {L : Links} {value value' : Value}, V L value value' →
    R L V (do return Value.type ((← get).types.typeOf value))
      (do return Value.type ((← get).types.typeOf value'))
  writeLine : ∀ {L : Links} (text : String),
    R L (fun _ _ _ => True) (Eval.writeLine text) (Eval.writeLine text)
  define : ∀ {L : Links} {env env' : Env} {symbol symbol' : Symbol} {value value' : Value},
    L.env env env' → L.symbol symbol symbol' → V L value value' →
    R L (fun _ _ _ => True) (Eval.define env symbol value) (Eval.define env' symbol' value')
  child : ∀ {L : Links} {env env' : Env}, L.env env env' →
    R L Links.env (Eval.child env) (Eval.child env')
  host : ∀ {ev ev' : Evaluator},
    (∀ {L : Links} {form form' : Form} {env env' : Env}, form.Like L.symbol L.pos form' →
      L.env env env' → R L V (ev form env) (ev' form' env')) →
    ∀ {L : Links} {env env' : Env} (code : Nat) {forms forms' : List Form},
      List.Forall₂ (Form.Like L.symbol L.pos) forms forms' → L.env env env' →
      R L V (HostPrims.run code ev forms env) (HostPrims.run code ev' forms' env')

/-- What each of some relations does to the steps, they do together. -/
theorem Parallel.all [HostPrims] {V : Links → Value → Value → Prop}
    {I : Links → List Value → List Value → Prop} {ι : Type} [Nonempty ι]
    {R : ι → Links → {α : Type} → (Links → α → α → Prop) → Eval α → Eval α → Prop}
    (h : ∀ i, Parallel V I (R i)) : Parallel V I fun L _ Q x x' => ∀ i, R i L Q x x' where
  values := (h (Classical.arbitrary ι)).values
  pure hQ i := (h i).pure hQ
  bind hx hf i := (h i).bind (hx i) fun M hLM a a' hP => hf M hLM a a' hP i
  fail hcause i := (h i).fail hcause
  exhausted i := (h i).exhausted
  broken i := (h i).broken
  lookup henv hsymbol i := (h i).lookup henv hsymbol
  fresh i := (h i).fresh
  typeOf hvalue i := (h i).typeOf hvalue
  writeLine text i := (h i).writeLine text
  define henv hsymbol hvalue i := (h i).define henv hsymbol hvalue
  child henv i := (h i).child henv
  host hev _ _ _ code _ _ hforms henv i :=
    (h i).host (fun hform he => hev hform he i) code hforms henv

theorem spread_of_items? {inner : Value} {items : List Value} (h : inner.items? = some items) :
    spread (.splat inner) = pure items := by
  simp only [spread, h]

theorem spread_of_not_splat {value : Value} (h : value.isSplat = false) :
    spread value = pure [value] := by
  cases value with
  | splat inner => cases h
  | _ => rfl

namespace Parallel

variable [HostPrims] {V : Links → Value → Value → Prop} {I : Links → List Value → List Value → Prop}
  {R : Links → {α : Type} → (Links → α → α → Prop) → Eval α → Eval α → Prop}
  (h : Parallel V I R) {ev ev' : Evaluator}
  (hev : ∀ {L : Links} {form form' : Form} {env env' : Env}, form.Like L.symbol L.pos form' →
    L.env env env' → R L V (ev form env) (ev' form' env'))
  {L : Links} {env env' : Env}

/-! ## Arguments and calls -/

section Calls

include h hev

theorem evalForms {forms forms' : List Form}
    (hforms : List.Forall₂ (Form.Like L.symbol L.pos) forms forms') (henv : L.env env env') :
    R L V (evalForms ev forms env) (evalForms ev' forms' env') := by
  have hfrom : ∀ (L : Links) (last last' : Value), V L last last' →
      List.Forall₂ (Form.Like L.symbol L.pos) forms forms' → L.env env env' →
        R L V (evalFormsFrom ev env last forms) (evalFormsFrom ev' env' last' forms') := by
    clear hforms henv
    induction forms generalizing forms' with
    | nil =>
      intro L last last' hlast hforms _
      cases hforms
      exact h.pure hlast
    | cons form forms ih =>
      intro L last last' _ hforms henv
      cases hforms with
      | cons hform hforms =>
        refine h.bind (hev hform henv) fun M hLM value value' hvalue => ?_
        exact ih M value value' hvalue (Form.likes_mono hforms hLM.symbol hLM.pos) (hLM.env henv)
  exact hfrom L .nil .nil (h.values.leaf .nil) hforms henv

omit hev in
theorem spread {v v' : Value} (hv : V L v v') : R L I (spread v) (spread v') := by
  have hcorr := h.values.corresponds hv
  have hrel := h.values.items hv
  cases hsplat : v.isSplat with
  | false =>
    have hsplat' : v'.isSplat = false := by rw [← hcorr.isSplat_eq, hsplat]
    rw [spread_of_not_splat hsplat, spread_of_not_splat hsplat']
    exact h.pure (h.values.single hv hsplat)
  | true =>
    cases hcorr with
    | leaf hleaf => cases hleaf <;> cases hsplat
    | vec _ => cases hsplat
    | @splat inner inner' hinner =>
      unfold SplatLisp.spread
      dsimp only
      -- A splat has the items of what it wraps.
      change Option.Rel (I L) inner.items? inner'.items? at hrel
      cases hitems : inner.items? with
      | none =>
        rw [eq_none_of_rel hrel hitems]
        exact h.fail (.notIterable hinner)
      | some items =>
        obtain ⟨items', hitems', hlike⟩ := exists_of_rel hrel hitems
        rw [hitems']
        exact h.pure hlike

theorem evalArgs {forms forms' : List Form}
    (hforms : List.Forall₂ (Form.Like L.symbol L.pos) forms forms') (henv : L.env env env') :
    R L I (evalArgs ev forms env) (evalArgs ev' forms' env') := by
  induction forms generalizing forms' L with
  | nil =>
    cases hforms
    exact h.pure h.values.nil
  | cons form forms ih =>
    cases hforms with
    | cons hform hforms =>
      rw [evalArgs_cons, evalArgs_cons]
      refine h.bind (hev hform henv) fun M hLM value value' hvalue => ?_
      refine h.bind (h.spread hvalue) fun N hMN items items' hitems => ?_
      have hLN : L ≤ N := le_trans hLM hMN
      have hforms := Form.likes_mono hforms hLN.symbol hLN.pos
      refine h.bind (ih hforms (hLN.env henv)) fun K hNK more more' hmore => ?_
      exact h.pure (h.values.append (h.values.mono hitems hNK) hmore)

omit hev in
theorem checkCount {callee callee' : Value} (hcallee : callee.Corresponds L callee') (min : Nat)
    (max : Option Nat) (given : Nat) :
    R L (fun _ _ _ => True) (checkCount callee min max given)
      (checkCount callee' min max given) := by
  unfold SplatLisp.checkCount
  split
  · exact h.fail (.wrongCount hcallee min max given)
  · exact h.pure trivial

omit hev in
theorem bindParams {params params' : List Symbol} (hparams : List.Forall₂ L.symbol params params')
    {args args' : List Value} (hargs : I L args args') (henv : L.env env env') :
    R L I (bindParams env params args) (bindParams env' params' args') := by
  induction params generalizing params' args args' L with
  | nil =>
    cases hparams
    exact h.pure hargs
  | cons param params ih =>
    cases hparams with
    | cons hparam hparams =>
      cases h.values.argsCorrespond hargs with
      | nil => exact h.broken
      | cons _ _ =>
        obtain ⟨harg, hargs⟩ := h.values.uncons hargs
        refine h.bind (h.define henv hparam harg) fun M hLM _ _ _ => ?_
        exact ih (hparams.imp fun _ _ => hLM.symbol) (h.values.mono hargs hLM) (hLM.env henv)

/-- Parameters are bound, and the body is evaluated, in new frames. -/
theorem applyClosure {callee callee' : Value} (hcallee : callee.Corresponds L callee')
    {closure closure' : Closure} (hfn : closure.fn.Like L closure'.fn)
    (henv : L.env closure.env closure'.env) {args args' : List Value}
    (hargs : I L args args') :
    R L V (applyClosure ev callee closure args)
      (applyClosure ev' callee' closure' args') := by
  have hcount : R L (fun _ _ _ => True)
      (SplatLisp.checkCount callee closure.fn.minArgs closure.fn.maxArgs args.length)
      (SplatLisp.checkCount callee' closure'.fn.minArgs closure'.fn.maxArgs args'.length) := by
    rw [hfn.minArgs_eq, hfn.maxArgs_eq, (h.values.argsCorrespond hargs).length_eq]
    exact h.checkCount hcallee _ _ _
  refine h.bind hcount fun M hLM _ _ _ => ?_
  refine h.bind (h.child (hLM.env henv)) fun N hMN frame frame' hframe => ?_
  have hLN : L ≤ N := le_trans hLM hMN
  have hfn := hfn.mono hLN
  have hbind := h.bindParams hfn.params (h.values.mono hargs hLN) hframe
  refine h.bind hbind fun K hNK more more' hmore => ?_
  have hfn := hfn.mono hNK
  have hframe := hNK.env hframe
  cases hrest : closure.fn.rest with
  | none =>
    rw [eq_none_of_rel hfn.rest hrest]
    exact h.evalForms hev hfn.body hframe
  | some rest =>
    obtain ⟨rest', hrest', hlink⟩ := exists_of_rel hfn.rest hrest
    rw [hrest']
    refine h.bind (h.define hframe hlink (h.values.vec hmore)) fun K' hK _ _ _ => ?_
    exact h.evalForms hev (Form.likes_mono hfn.body hK.symbol hK.pos) (hK.env hframe)

end Calls

/-! ## Primitives -/

section Primitives

include h hev

theorem evalBranch {forms forms' : List Form}
    (hforms : List.Forall₂ (Form.Like L.symbol L.pos) forms forms') (henv : L.env env env') :
    R L V (evalBranch ev env forms) (evalBranch ev' env' forms') := by
  cases hforms with
  | nil => exact h.broken
  | cons hcondition hforms =>
    cases hforms with
    | nil => exact h.broken
    | cons hpositive hmore =>
      refine h.bind (hev hcondition henv) fun M hLM value value' hvalue => ?_
      have henv := hLM.env henv
      rw [(h.values.corresponds hvalue).truthy_eq]
      by_cases htrue : value'.truthy = true
      · rw [if_pos htrue, if_pos htrue]
        exact hev (hpositive.mono hLM.symbol hLM.pos) henv
      · rw [if_neg htrue, if_neg htrue]
        cases hmore with
        | nil => exact h.pure (h.values.leaf .nil)
        | cons hnegative _ => exact hev (hnegative.mono hLM.symbol hLM.pos) henv

theorem evalBindings {forms forms' : List Form}
    (hforms : List.Forall₂ (Form.Like L.symbol L.pos) forms forms') (henv : L.env env env') :
    R L (fun _ _ _ => True) (evalBindings ev env forms) (evalBindings ev' env' forms') := by
  fun_induction SplatLisp.evalBindings ev env forms generalizing forms' L with
  | case1 target form forms hid =>
    cases hforms with
    | cons htarget hforms =>
      cases hforms with
      | cons hform hforms =>
        rw [SplatLisp.evalBindings, eq_none_of_rel htarget.id?_rel hid]
        exact h.fail (.invalid .letBinding htarget)
  | case2 target form forms symbol hid ih =>
    cases hforms with
    | cons htarget hforms =>
      cases hforms with
      | cons hform hforms =>
        obtain ⟨symbol', hid', hsymbol⟩ := exists_of_rel htarget.id?_rel hid
        rw [SplatLisp.evalBindings, hid']
        refine h.bind (hev hform henv) fun M hLM value value' hvalue => ?_
        refine h.bind (h.define (hLM.env henv) (hLM.symbol hsymbol) hvalue) fun N hMN _ _ _ => ?_
        have hLN : L ≤ N := le_trans hLM hMN
        exact ih (Form.likes_mono hforms hLN.symbol hLN.pos) (hLN.env henv)
  | case3 forms hshort =>
    cases hforms with
    | nil => exact h.pure trivial
    | cons _ hforms =>
      cases hforms with
      | nil => exact h.pure trivial
      | cons _ _ => exact absurd rfl (hshort _ _ _)

theorem evalLet {forms forms' : List Form}
    (hforms : List.Forall₂ (Form.Like L.symbol L.pos) forms forms') (henv : L.env env env') :
    R L V (evalLet ev env forms) (evalLet ev' env' forms') := by
  cases hforms with
  | nil => exact h.broken
  | cons hbindings hbody =>
    have hinvalid := h.fail (Q := V) (.invalid .letBindings hbindings)
    cases hbindings with
    | atom _ _ => exact hinvalid
    | splat _ _ => exact hinvalid
    | group bracket hpairs _ =>
      cases bracket with
      | round => exact hinvalid
      | square =>
        unfold SplatLisp.evalLet
        dsimp only
        rw [hpairs.length_eq]
        split
        · refine h.bind (h.child henv) fun M hLM frame frame' hframe => ?_
          have hpairs := Form.likes_mono hpairs hLM.symbol hLM.pos
          refine h.bind (h.evalBindings hev hpairs hframe) fun N hMN _ _ _ => ?_
          have hLN : L ≤ N := le_trans hLM hMN
          exact h.evalForms hev (Form.likes_mono hbody hLN.symbol hLN.pos) (hMN.env hframe)
        · exact hinvalid

end Primitives

end Parallel

/-! ## Functions -/

/-- What two parameter lists come to: parameters that are linked, or a refusal of forms that are
alike. -/
inductive Params.OutcomeLike (L : Links) :
    Except (FormRole × Form) Params → Except (FormRole × Form) Params → Prop
  | ok {params params' : List Symbol} {rest rest' : Option Symbol}
    (hparams : List.Forall₂ L.symbol params params') (hrest : Option.Rel L.symbol rest rest') :
    OutcomeLike L (.ok ⟨params, rest⟩) (.ok ⟨params', rest'⟩)
  | error (role : FormRole) {form form' : Form} (h : form.Like L.symbol L.pos form') :
    OutcomeLike L (.error (role, form)) (.error (role, form'))

theorem Params.ofItemsFrom_like {L : Links} {items items' : List Form}
    {symbols symbols' : List Symbol} (hitems : List.Forall₂ (Form.Like L.symbol L.pos) items items')
    (hsymbols : List.Forall₂ L.symbol symbols symbols') :
    OutcomeLike L (ofItemsFrom symbols items) (ofItemsFrom symbols' items') := by
  induction hitems generalizing symbols symbols' with
  | nil => exact .ok (List.forall₂_reverse_iff.2 hsymbols) .none
  | @cons item item' items items' hitem hitems ih =>
    have hrefuse := OutcomeLike.error .funParam hitem
    cases hitem with
    | @atom atom atom' _ _ hatom _ =>
      cases hatom with
      | id hs => exact ih (.cons hs hsymbols)
      | _ => exact hrefuse
    | group _ _ _ => exact hrefuse
    | @splat inner inner' p p' hinner hpos =>
      unfold ofItemsFrom
      dsimp only
      have hempty : items.isEmpty = items'.isEmpty := by cases hitems <;> rfl
      rw [hempty]
      by_cases hlast : items'.isEmpty = true
      · rw [if_pos hlast, if_pos hlast]
        cases hid : inner.id? with
        | none =>
          rw [eq_none_of_rel hinner.id?_rel hid]
          exact .error .restParam (.splat hinner hpos)
        | some s =>
          obtain ⟨s', hid', hs⟩ := exists_of_rel hinner.id?_rel hid
          rw [hid']
          exact .ok (List.forall₂_reverse_iff.2 hsymbols) (.some hs)
      · rw [if_neg hlast, if_neg hlast]
        exact hrefuse

theorem Params.ofForm_like {L : Links} {form form' : Form} (h : form.Like L.symbol L.pos form') :
    OutcomeLike L (ofForm form) (ofForm form') := by
  have hrefuse := OutcomeLike.error .funParams h
  cases h with
  | atom _ _ => exact hrefuse
  | splat _ _ => exact hrefuse
  | group bracket hitems _ =>
    cases bracket with
    | round => exact ofItemsFrom_like hitems .nil
    | square => exact hrefuse

namespace Parallel

variable [HostPrims] {V : Links → Value → Value → Prop} {I : Links → List Value → List Value → Prop}
  {R : Links → {α : Type} → (Links → α → α → Prop) → Eval α → Eval α → Prop}
  (h : Parallel V I R) {ev ev' : Evaluator}
  (hev : ∀ {L : Links} {form form' : Form} {env env' : Env}, form.Like L.symbol L.pos form' →
    L.env env env' → R L V (ev form env) (ev' form' env'))
  {L : Links} {env env' : Env}

section Functions

include h

theorem makeFun {name name' : Option Symbol} (hname : Option.Rel L.symbol name name')
    {forms forms' : List Form} (hforms : List.Forall₂ (Form.Like L.symbol L.pos) forms forms')
    (henv : L.env env env') :
    R L V (makeFun name env forms) (makeFun name' env' forms') := by
  cases hforms with
  | nil => exact h.fail (.refl .missingParams)
  | @cons form form' body body' hparams hbody =>
    have houtcome := Params.ofForm_like hparams
    unfold SplatLisp.makeFun
    dsimp only
    generalize Params.ofForm form = outcome at houtcome ⊢
    generalize Params.ofForm form' = outcome' at houtcome ⊢
    cases houtcome with
    | error role hform => exact h.fail (.invalid role hform)
    | ok hparams hrest =>
      refine h.bind h.fresh fun M hLM identity identity' hidentity => ?_
      have hname := option_rel_imp hLM.symbol hname
      have hrest := option_rel_imp hLM.symbol hrest
      have hparams := hparams.imp fun _ _ => hLM.symbol
      have hfn : Fun.Like M ⟨identity, name, _, _, body⟩ ⟨identity', name', _, _, body'⟩ :=
        ⟨hidentity, hname, hparams, hrest, Form.likes_mono hbody hLM.symbol hLM.pos⟩
      have hvalue : Value.LeafLike M (.fn ⟨_, env⟩) (.fn ⟨_, env'⟩) := .fn hfn (hLM.env henv)
      cases hname with
      | none => exact h.pure (h.values.leaf hvalue)
      | some hs =>
        refine h.bind (h.define (hLM.env henv) hs (h.values.leaf hvalue)) fun N hMN _ _ _ => ?_
        exact h.pure (h.values.leaf (hvalue.mono hMN))

theorem evalFunction {forms forms' : List Form}
    (hforms : List.Forall₂ (Form.Like L.symbol L.pos) forms forms') (henv : L.env env env') :
    R L V (evalFunction env forms) (evalFunction env' forms') := by
  cases hforms with
  | nil => exact h.broken
  | @cons form form' forms forms' hform hforms =>
    unfold SplatLisp.evalFunction
    dsimp only
    cases hid : form.id? with
    | none =>
      rw [eq_none_of_rel hform.id?_rel hid]
      exact h.makeFun .none (.cons hform hforms) henv
    | some symbol =>
      obtain ⟨symbol', hid', hsymbol⟩ := exists_of_rel hform.id?_rel hid
      rw [hid']
      exact h.makeFun (.some hsymbol) hforms henv

end Functions

/-! ## Other primitives -/

section Primitives

include h hev

theorem evalTypeOf {forms forms' : List Form}
    (hforms : List.Forall₂ (Form.Like L.symbol L.pos) forms forms') (henv : L.env env env') :
    R L V (evalTypeOf ev env forms) (evalTypeOf ev' env' forms') := by
  cases hforms with
  | nil => exact h.broken
  | cons hform _ => exact h.bind (hev hform henv) fun M _ value value' hvalue => h.typeOf hvalue

theorem evalDump {forms forms' : List Form}
    (hforms : List.Forall₂ (Form.Like L.symbol L.pos) forms forms') (henv : L.env env env') :
    R L V (evalDump ev env forms) (evalDump ev' env' forms') := by
  refine h.bind (h.evalArgs hev hforms henv) fun M _ values values' hvalues => ?_
  rw [Value.lineRendering_eq (h.values.argsCorrespond hvalues)]
  cases (Value.lineRendering values').result with
  | ok line => exact h.bind (h.writeLine line) fun _ _ _ _ _ => h.pure (h.values.leaf .nil)
  | error failure => exact h.fail (.refl (.dumpFailed failure))

omit [HostPrims] h hev in
/-- The first value that is no integer, if there is one, is alike. -/
theorem find?_rel {values values' : List Value}
    (hvalues : List.Forall₂ (Value.Corresponds L) values values') :
    Option.Rel (Value.Corresponds L) (values.find? (·.int?.isNone))
      (values'.find? (·.int?.isNone)) := by
  induction hvalues with
  | nil => exact .none
  | cons hvalue _ ih =>
    rw [List.find?_cons, List.find?_cons, hvalue.int?_eq]
    split
    · exact .some hvalue
    · exact ih

omit [HostPrims] h hev in
theorem ints_eq {values values' : List Value}
    (hvalues : List.Forall₂ (Value.Corresponds L) values values') :
    values.filterMap Value.int? = values'.filterMap Value.int? := by
  induction hvalues with
  | nil => rfl
  | cons hvalue _ ih => rw [List.filterMap_cons, List.filterMap_cons, hvalue.int?_eq, ih]

omit [HostPrims] h hev in
theorem allSame_eq {values values' : List Value}
    (hvalues : List.Forall₂ (Value.Corresponds L) values values') :
    allSame values = allSame values' := by
  cases hvalues with
  | nil => rfl
  | @cons first first' values values' hfirst hvalues =>
    change values.all (·.same first) = values'.all (·.same first')
    induction hvalues with
    | nil => rfl
    | cons hvalue _ ih => rw [List.all_cons, List.all_cons, hvalue.same_eq hfirst, ih]

/-- Arguments that are alike are the same integers. -/
theorem evalInts {forms forms' : List Form}
    (hforms : List.Forall₂ (Form.Like L.symbol L.pos) forms forms') (henv : L.env env env') :
    R L (fun _ ns ns' => ns = ns') (evalInts ev env forms) (evalInts ev' env' forms') := by
  refine h.bind (h.evalArgs hev hforms henv) fun M _ values values' hvalues => ?_
  have hvalues := h.values.argsCorrespond hvalues
  rw [ints_eq hvalues]
  cases hfind : values.find? (·.int?.isNone) with
  | none =>
    rw [eq_none_of_rel (find?_rel hvalues) hfind]
    exact h.pure rfl
  | some value =>
    obtain ⟨value', hfind', hvalue⟩ := exists_of_rel (find?_rel hvalues) hfind
    rw [hfind']
    exact h.fail (.notInt hvalue)

omit hev in
theorem intOr (op : String) (n : Option Int64) :
    R L V (intOr op n) (intOr op n) := by
  cases n with
  | none => exact h.fail (.refl (.overflow op))
  | some n => exact h.pure (h.values.leaf (.int n))

theorem runPrim (op : PrimOp) {forms forms' : List Form}
    (hforms : List.Forall₂ (Form.Like L.symbol L.pos) forms forms') (henv : L.env env env') :
    R L V (runPrim ev op forms env) (runPrim ev' op forms' env') := by
  cases op with
  | sequence => exact h.evalForms hev hforms henv
  | branch => exact h.evalBranch hev hforms henv
  | bindings => exact h.evalLet hev hforms henv
  | function => exact h.evalFunction hforms henv
  | typeOf => exact h.evalTypeOf hev hforms henv
  | dump => exact h.evalDump hev hforms henv
  | add =>
    refine h.bind (h.evalInts hev hforms henv) fun M _ ns ns' hns => ?_
    rw [hns]
    exact h.intOr _ _
  | subtract =>
    refine h.bind (h.evalInts hev hforms henv) fun M _ ns ns' hns => ?_
    rw [hns]
    exact h.intOr _ _
  | equal =>
    refine h.bind (h.evalArgs hev hforms henv) fun M _ values values' hvalues => ?_
    rw [allSame_eq (h.values.argsCorrespond hvalues)]
    exact h.pure (h.values.leaf (.bool _))
  | host code => exact h.host hev code hforms henv

end Primitives

/-! ## Evaluation -/

section Evaluation

include h hev

theorem evalCall {forms forms' : List Form}
    (hforms : List.Forall₂ (Form.Like L.symbol L.pos) forms forms') (henv : L.env env env') :
    R L V (evalCall ev env forms) (evalCall ev' env' forms') := by
  cases hforms with
  | nil => exact h.pure (h.values.leaf .nil)
  | cons hhead hforms =>
    refine h.bind (hev hhead henv) fun M hLM callee callee' hcallee => ?_
    have hforms := Form.likes_mono hforms hLM.symbol hLM.pos
    have henv := hLM.env henv
    have hcallee := h.values.corresponds hcallee
    have hrefuse := h.fail (Q := V) (.notCallable hcallee)
    cases hcallee with
    | vec _ => exact hrefuse
    | splat _ => exact hrefuse
    | leaf hleaf =>
      have hlike := Value.Corresponds.leaf hleaf
      cases hleaf with
      | prim hi name min max op =>
        dsimp only
        rw [hforms.length_eq]
        refine h.bind (h.checkCount hlike _ _ _) fun N hMN _ _ _ => ?_
        exact h.runPrim hev op (Form.likes_mono hforms hMN.symbol hMN.pos) (hMN.env henv)
      | fn hfn hclosed =>
        refine h.bind (h.evalArgs hev hforms henv) fun N hMN args args' hargs => ?_
        exact h.applyClosure hev (hlike.mono hMN) (hfn.mono hMN) (hMN.env hclosed) hargs
      | _ => exact hrefuse

theorem evalStep {form form' : Form} (hform : form.Like L.symbol L.pos form')
    (henv : L.env env env') :
    R L V (evalStep ev form env) (evalStep ev' form' env') := by
  cases hform with
  | atom hatom _ =>
    cases hatom with
    | nil => exact h.pure (h.values.leaf .nil)
    | bool b => exact h.pure (h.values.leaf (.bool b))
    | int n => exact h.pure (h.values.leaf (.int n))
    | id hs => exact h.lookup henv hs
  | group bracket hitems _ =>
    cases bracket with
    | round => exact h.evalCall hev hitems henv
    | square =>
      exact h.bind (h.evalArgs hev hitems henv) fun M _ values values' hvalues =>
        h.pure (h.values.vec hvalues)
  | splat hinner _ =>
    refine h.bind (hev hinner henv) fun M _ value value' hvalue => ?_
    have hsome := isSome_of_rel (h.values.items hvalue)
    rw [hsome]
    by_cases hiter : value'.items?.isSome = true
    · rw [if_pos hiter, if_pos hiter]
      exact h.pure (h.values.splat hvalue (hsome.trans hiter))
    · rw [if_neg hiter, if_neg hiter]
      exact h.fail (.notIterable (h.values.corresponds hvalue))

omit hev in
/-- **Evaluation of forms that are alike is related by every relation that the steps keep.** -/
theorem eval (bound : Nat) {form form' : Form} (hform : form.Like L.symbol L.pos form')
    (henv : L.env env env') :
    R L V (eval bound form env) (eval bound form' env') := by
  induction bound generalizing L form form' env env' with
  | zero => exact h.exhausted
  | succ bound ih => exact h.evalStep ih hform henv

end Evaluation

end Parallel

end SplatLisp
