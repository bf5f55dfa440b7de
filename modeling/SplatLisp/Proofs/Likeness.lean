import Mathlib.Order.Defs.PartialOrder
import SplatLisp.Error
import SplatLisp.Proofs.LikeForms
import SplatLisp.Value.Equality

/-!
# Values of two runs

Two runs of the same code differ in what handles they are given: which frames their environments
lead to, which identities their functions have, which tags their symbols. `Links` says which handles
of the one run stand for which of the other. Values correspond under links if they differ in linked
handles alone (`Value.Corresponds`), and nothing that can be observed of a value tells it from one
that corresponds: neither its text, nor whether it counts as true, nor what it is equal to.

Values are alike (`Value.Like`) if they are clean as well: no splat is an item of a vector, and what
a splat wraps is iterable (`Value.clean`). With links of all handles to themselves and nothing else,
likeness is equality of clean values (`Value.like_same_iff`).
-/

namespace SplatLisp

/-! ## Links -/

/-- Which handles of one run stand for which of another. Handles that are linked are equal to one
another in one run exactly if they are in the other. -/
structure Links where
  env : Env → Env → Prop
  identity : Identity → Identity → Prop
  symbol : Symbol → Symbol → Prop
  pos : Pos → Pos → Prop
  env_iff : ∀ {a a' b b'}, env a a' → env b b' → (a = b ↔ a' = b')
  identity_iff : ∀ {i i' j j'}, identity i i' → identity j j' → (i = j ↔ i' = j')
  tag_iff : ∀ {s s' t t'}, symbol s s' → symbol t t' → (s.tag = t.tag ↔ s'.tag = t'.tag)
  name_eq : ∀ {s s'}, symbol s s' → s.name = s'.name
  pos_self : ∀ p, pos p p

namespace Links

/-- Whether all that is linked by some links is linked by others. -/
structure Below (L M : Links) : Prop where
  env : ∀ {a a'}, L.env a a' → M.env a a'
  identity : ∀ {i i'}, L.identity i i' → M.identity i i'
  symbol : ∀ {s s'}, L.symbol s s' → M.symbol s s'
  pos : ∀ {p p'}, L.pos p p' → M.pos p p'

instance : Preorder Links where
  le := Below
  le_refl _ := ⟨id, id, id, id⟩
  le_trans _ _ _ h h' :=
    ⟨h'.env ∘ h.env, h'.identity ∘ h.identity, h'.symbol ∘ h.symbol, h'.pos ∘ h.pos⟩

/-- All handles linked to themselves. -/
def same : Links where
  env := Eq
  identity := Eq
  symbol := Eq
  pos := Eq
  env_iff h h' := by rw [h, h']
  identity_iff h h' := by rw [h, h']
  tag_iff h h' := by rw [h, h']
  name_eq h := by rw [h]
  pos_self _ := rfl

end Links

variable {L M : Links}

/-! ## Clean values -/

namespace Value

def isSplat : Value → Bool
  | splat _ => true
  | _ => false

mutual

/-- Whether splats stand nowhere but where their items can be spread: none is an item of a vector,
and each wraps something iterable. -/
def clean : Value → Bool
  | vec items => cleanItems items
  | splat inner => inner.items?.isSome && inner.clean
  | _ => true

/-- Whether all items are clean and none of them is a splat. -/
def cleanItems : List Value → Bool
  | [] => true
  | item :: items => !item.isSplat && item.clean && cleanItems items

end

theorem cleanItems_iff {items : List Value} :
    cleanItems items = true ↔ ∀ item ∈ items, item.clean = true ∧ item.isSplat = false := by
  induction items with
  | nil => simp [cleanItems]
  | cons item items ih => simp [cleanItems, ih, and_comm]

end Value

/-! ## Values that correspond -/

/-- Functions that differ in linked handles alone. -/
structure Fun.Like (L : Links) (fn fn' : Fun) : Prop where
  identity : L.identity fn.identity fn'.identity
  name : Option.Rel L.symbol fn.name fn'.name
  params : List.Forall₂ L.symbol fn.params fn'.params
  rest : Option.Rel L.symbol fn.rest fn'.rest
  body : List.Forall₂ (Form.Like L.symbol L.pos) fn.body fn'.body

/-- Values without parts that differ in linked handles alone. -/
inductive Value.LeafLike (L : Links) : Value → Value → Prop
  | nil : LeafLike L .nil .nil
  | bool (b : Bool) : LeafLike L (.bool b) (.bool b)
  | int (n : Int64) : LeafLike L (.int n) (.int n)
  | fn {closure closure' : Closure} (h : closure.fn.Like L closure'.fn)
    (henv : L.env closure.env closure'.env) : LeafLike L (.fn closure) (.fn closure')
  | prim {i i' : Identity} (h : L.identity i i') (name : String) (min : Nat) (max : Option Nat)
    (op : PrimOp) : LeafLike L (.prim ⟨i, name, min, max, op⟩) (.prim ⟨i', name, min, max, op⟩)
  | type (t : TypeInfo) : LeafLike L (.type t) (.type t)
  | host {i i' : Identity} (h : L.identity i i') (t : TypeInfo) (data : HostData) :
    LeafLike L (.host ⟨i, t, data⟩) (.host ⟨i', t, data⟩)

/-- Values that differ in linked handles alone. -/
inductive Value.Corresponds (L : Links) : Value → Value → Prop
  | leaf {v v' : Value} (h : v.LeafLike L v') : Corresponds L v v'
  | vec {items items' : List Value} (h : List.Forall₂ (Corresponds L) items items') :
    Corresponds L (.vec items) (.vec items')
  | splat {inner inner' : Value} (h : Corresponds L inner inner') :
    Corresponds L (.splat inner) (.splat inner')

/-- Clean values that differ in linked handles alone. -/
inductive Value.Like (L : Links) : Value → Value → Prop
  | leaf {v v' : Value} (h : v.LeafLike L v') : Like L v v'
  | vec {items items' : List Value} (h : List.Forall₂ (Like L) items items')
    (hplain : ∀ item ∈ items, item.isSplat = false) : Like L (.vec items) (.vec items')
  | splat {inner inner' : Value} (h : Like L inner inner') (hiter : inner.items?.isSome = true) :
    Like L (.splat inner) (.splat inner')

/-- Items of vectors, and arguments. -/
structure Value.ItemsLike (L : Links) (items items' : List Value) : Prop where
  alike : List.Forall₂ (Value.Like L) items items'
  plain : ∀ item ∈ items, item.isSplat = false

theorem Fun.Like.mono {fn fn' : Fun} (h : fn.Like L fn') (hLM : L ≤ M) : fn.Like M fn' where
  identity := hLM.identity h.identity
  name := option_rel_imp hLM.symbol h.name
  params := h.params.imp fun _ _ => hLM.symbol
  rest := option_rel_imp hLM.symbol h.rest
  body := Form.likes_mono h.body hLM.symbol hLM.pos

/-- Functions whose handles are linked to themselves alone differ in their bodies at most. -/
theorem Fun.Like.eq_of_handles {fn fn' : Fun} (h : fn.Like L fn')
    (hidentity : ∀ {i i'}, L.identity i i' → i = i') (hsymbol : ∀ {s s'}, L.symbol s s' → s = s') :
    fn = { fn' with body := fn.body } := by
  obtain ⟨identity, name, params, rest, body⟩ := fn
  obtain rfl : identity = fn'.identity := hidentity h.identity
  obtain rfl : name = fn'.name := option_rel_eq_iff.1 (option_rel_imp hsymbol h.name)
  obtain rfl : rest = fn'.rest := option_rel_eq_iff.1 (option_rel_imp hsymbol h.rest)
  have hparams : List.Forall₂ (· = ·) params fn'.params := h.params.imp fun _ _ => hsymbol
  rw [List.forall₂_eq_eq_eq] at hparams
  rw [hparams]

/-- Functions with the same handles are the same. -/
theorem Fun.like_same_iff {fn fn' : Fun} : fn.Like .same fn' ↔ fn = fn' := by
  constructor
  · intro h
    have hbody : List.Forall₂ (· = ·) fn.body fn'.body := h.body.imp fun _ _ hf => hf.eq
    rw [List.forall₂_eq_eq_eq] at hbody
    rw [h.eq_of_handles id id, hbody]
  · rintro rfl
    have hparams : List.Forall₂ Links.same.symbol fn.params fn.params :=
      List.forall₂_same.2 fun _ _ => rfl
    exact ⟨rfl, option_rel_eq_iff.2 rfl, hparams, option_rel_eq_iff.2 rfl,
      Form.likes_eq_self fn.body⟩

theorem Links.names_eq {symbols symbols' : List Symbol}
    (h : List.Forall₂ L.symbol symbols symbols') : symbols.map Symbol.name =
      symbols'.map Symbol.name := by
  induction h with
  | nil => rfl
  | cons hs _ ih => rw [List.map_cons, List.map_cons, L.name_eq hs, ih]

theorem Fun.Like.minArgs_eq {fn fn' : Fun} (h : fn.Like L fn') : fn.minArgs = fn'.minArgs :=
  h.params.length_eq

theorem Fun.Like.maxArgs_eq {fn fn' : Fun} (h : fn.Like L fn') : fn.maxArgs = fn'.maxArgs := by
  rw [Fun.maxArgs, Fun.maxArgs, isSome_of_rel h.rest, h.params.length_eq]

/-- Functions that are alike have one header. -/
theorem Fun.Like.text_eq {fn fn' : Fun} (h : fn.Like L fn') : fn.text = fn'.text := by
  have hname : ∀ {x y : Option Symbol}, Option.Rel L.symbol x y →
      x.elim "" (·.name ++ " ") = y.elim "" (·.name ++ " ") := by
    intro x y hxy
    cases hxy with
    | none => rfl
    | some hs => exact congrArg (· ++ " ") (L.name_eq hs)
  have hrest : ∀ {x y : Option Symbol}, Option.Rel L.symbol x y →
      x.toList.map (·.name ++ "..") = y.toList.map (·.name ++ "..") := by
    intro x y hxy
    cases hxy with
    | none => rfl
    | some hs => simp only [Option.toList_some, List.map_singleton, L.name_eq hs]
  rw [Fun.text, Fun.text, Fun.paramTexts, Fun.paramTexts, hname h.name, hrest h.rest,
    Links.names_eq h.params]

namespace Value

/-- What holds of values without parts, and of vectors and splats if it holds of their parts, holds
of all values that are alike. -/
@[elab_as_elim]
theorem Like.parts {P : Value → Value → Prop} {v v' : Value} (h : v.Like L v')
    (leaf : ∀ {v v'}, v.LeafLike L v' → P v v')
    (vec : ∀ {items items'}, ItemsLike L items items' → List.Forall₂ P items items' →
      P (.vec items) (.vec items'))
    (splat : ∀ {inner inner'}, inner.Like L inner' → inner.items?.isSome = true →
      P inner inner' → P (.splat inner) (.splat inner')) : P v v' :=
  @Like.rec L (fun v v' _ => P v v') (fun items items' _ => List.Forall₂ P items items') leaf
    (fun h hplain ih => vec ⟨h, hplain⟩ ih) (fun h hiter ih => splat h hiter ih) .nil
    (fun _ _ ih ihs => .cons ih ihs) v v' h

@[elab_as_elim]
theorem Corresponds.parts {P : Value → Value → Prop} {v v' : Value} (h : v.Corresponds L v')
    (leaf : ∀ {v v'}, v.LeafLike L v' → P v v')
    (vec : ∀ {items items'}, List.Forall₂ P items items' → P (.vec items) (.vec items'))
    (splat : ∀ {inner inner'}, P inner inner' → P (.splat inner) (.splat inner')) : P v v' :=
  @Corresponds.rec L (fun v v' _ => P v v') (fun items items' _ => List.Forall₂ P items items')
    leaf (fun _ ih => vec ih) (fun _ ih => splat ih) .nil (fun _ _ ih ihs => .cons ih ihs) v v' h

theorem Like.corresponds {v v' : Value} (h : v.Like L v') : v.Corresponds L v' :=
  h.parts .leaf (fun _ ih => .vec ih) (fun _ _ ih => .splat ih)

theorem LeafLike.mono {v v' : Value} (h : v.LeafLike L v') (hLM : L ≤ M) : v.LeafLike M v' := by
  cases h with
  | nil => exact .nil
  | bool b => exact .bool b
  | int n => exact .int n
  | fn hfn henv => exact .fn (hfn.mono hLM) (hLM.env henv)
  | prim hi name min max op => exact .prim (hLM.identity hi) name min max op
  | type t => exact .type t
  | host hi t data => exact .host (hLM.identity hi) t data

theorem Corresponds.mono {v v' : Value} (h : v.Corresponds L v') (hLM : L ≤ M) :
    v.Corresponds M v' :=
  h.parts (fun hleaf => .leaf (hleaf.mono hLM)) (fun ih => .vec ih) (fun ih => .splat ih)

theorem Like.mono {v v' : Value} (h : v.Like L v') (hLM : L ≤ M) : v.Like M v' :=
  h.parts (fun hleaf => .leaf (hleaf.mono hLM)) (fun hitems ih => .vec ih hitems.plain)
    (fun _ hiter ih => .splat ih hiter)

theorem ItemsLike.mono {items items' : List Value} (h : ItemsLike L items items') (hLM : L ≤ M) :
    ItemsLike M items items' :=
  ⟨h.alike.imp fun _ _ hitem => hitem.mono hLM, h.plain⟩

theorem ItemsLike.nil : ItemsLike L [] [] := ⟨.nil, nofun⟩

theorem ItemsLike.cons {v v' : Value} {items items' : List Value} (h : v.Like L v')
    (hplain : v.isSplat = false) (hitems : ItemsLike L items items') :
    ItemsLike L (v :: items) (v' :: items') :=
  ⟨.cons h hitems.alike, List.forall_mem_cons.2 ⟨hplain, hitems.plain⟩⟩

theorem ItemsLike.append {items items' more more' : List Value} (h : ItemsLike L items items')
    (hmore : ItemsLike L more more') : ItemsLike L (items ++ more) (items' ++ more') :=
  ⟨List.rel_append h.alike hmore.alike, List.forall_mem_append.2 ⟨h.plain, hmore.plain⟩⟩

theorem ItemsLike.vec {items items' : List Value} (h : ItemsLike L items items') :
    (Value.vec items).Like L (.vec items') :=
  .vec h.alike h.plain

/-! ## What can be observed of values -/

theorem Corresponds.isSplat_eq {v v' : Value} (h : v.Corresponds L v') :
    v.isSplat = v'.isSplat := by
  cases h with
  | leaf h => cases h <;> rfl
  | vec _ => rfl
  | splat _ => rfl

theorem Corresponds.truthy_eq {v v' : Value} (h : v.Corresponds L v') : v.truthy = v'.truthy := by
  cases h with
  | leaf h => cases h <;> rfl
  | vec _ => rfl
  | splat _ => rfl

theorem Corresponds.int?_eq {v v' : Value} (h : v.Corresponds L v') : v.int? = v'.int? := by
  cases h with
  | leaf h => cases h <;> rfl
  | vec _ => rfl
  | splat _ => rfl

theorem Corresponds.typeOf_eq {v v' : Value} (h : v.Corresponds L v') (types : TypeRegistry) :
    types.typeOf v = types.typeOf v' := by
  cases h with
  | leaf h => cases h <;> rfl
  | vec _ => rfl
  | splat _ => rfl

theorem Corresponds.items?_rel {v v' : Value} (h : v.Corresponds L v') :
    Option.Rel (List.Forall₂ (Corresponds L)) v.items? v'.items? := by
  have hboth : v.Corresponds L v' ∧
      Option.Rel (List.Forall₂ (Corresponds L)) v.items? v'.items? := by
    refine h.parts ?_ ?_ ?_
    · intro v v' hleaf
      refine ⟨.leaf hleaf, ?_⟩
      cases hleaf with
      | nil => exact .some .nil
      | _ => exact .none
    · intro items items' hitems
      have halike := hitems.imp fun _ _ hitem => hitem.1
      exact ⟨.vec halike, .some halike⟩
    · intro inner inner' hinner
      exact ⟨.splat hinner.1, hinner.2⟩
  exact hboth.2

theorem Like.items?_rel {v v' : Value} (h : v.Like L v') :
    Option.Rel (ItemsLike L) v.items? v'.items? := by
  refine h.parts ?_ (fun hitems _ => .some hitems) (fun _ _ ih => ih)
  intro v v' hleaf
  cases hleaf with
  | nil => exact .some .nil
  | _ => exact .none

theorem writeMore_congr {items items' : List Value}
    (h : List.Forall₂ (fun v v' => write v = write v') items items') :
    writeMore items = writeMore items' := by
  induction h with
  | nil => rfl
  | cons hitem _ ih => rw [writeMore, writeMore, hitem, ih]

theorem writeItems_congr {items items' : List Value}
    (h : List.Forall₂ (fun v v' => write v = write v') items items') :
    writeItems items = writeItems items' := by
  cases h with
  | nil => rfl
  | cons hitem hitems => rw [writeItems, writeItems, hitem, writeMore_congr hitems]

/-- Values that correspond are written alike. -/
theorem Corresponds.write_eq {v v' : Value} (h : v.Corresponds L v') : write v = write v' := by
  refine h.parts ?_ ?_ ?_
  · intro v v' hleaf
    cases hleaf with
    | fn hfn _ => rw [write, write, hfn.text_eq]
    | _ => rfl
  · intro items items' hitems
    rw [write, write, writeItems_congr hitems]
  · intro inner inner' hinner
    rw [write, write, hinner]

theorem Corresponds.rendering_eq {v v' : Value} (h : v.Corresponds L v') :
    v.rendering = v'.rendering := by
  rw [rendering, rendering, h.write_eq]

theorem Corresponds.text_eq {v v' : Value} (h : v.Corresponds L v') : v.text = v'.text := by
  rw [text, text, h.rendering_eq]

theorem lineRendering_eq {items items' : List Value}
    (h : List.Forall₂ (Corresponds L) items items') :
    lineRendering items = lineRendering items' := by
  rw [lineRendering, lineRendering, writeItems_congr (h.imp fun _ _ hitem => hitem.write_eq)]

theorem sameItems_congr {xs xs' ys ys' : List Value}
    (h : List.Forall₂ (fun x x' => ∀ {y y'}, y.Corresponds L y' → same x y = same x' y') xs xs')
    (hys : List.Forall₂ (Corresponds L) ys ys') : sameItems xs ys = sameItems xs' ys' := by
  induction h generalizing ys ys' with
  | nil => cases hys <;> rfl
  | cons hx _ ih =>
    cases hys with
    | nil => rfl
    | cons hy hys => rw [sameItems, sameItems, hx hy, ih hys]

theorem LeafLike.same_eq {v v' w w' : Value} (h : v.LeafLike L v') (hw : w.Corresponds L w') :
    same v w = same v' w' := by
  have hidentity : ∀ {i i' j j'}, L.identity i i' → L.identity j j' → (i == j) = (i' == j') := by
    intro i i' j j' hi hj
    rw [Bool.eq_iff_iff, beq_iff_eq, beq_iff_eq]
    exact L.identity_iff hi hj
  cases hw with
  | leaf hw =>
    cases h with
    | fn hfn _ =>
      cases hw with
      | fn hgn _ => exact hidentity hfn.identity hgn.identity
      | _ => rfl
    | prim hi _ _ _ _ =>
      cases hw with
      | prim hj _ _ _ _ => exact hidentity hi hj
      | _ => rfl
    | host hi _ _ =>
      cases hw with
      | host hj _ _ => exact hidentity hi hj
      | _ => rfl
    | _ => cases hw <;> rfl
  | vec _ => cases h <;> rfl
  | splat _ => cases h <;> rfl

/-- Values that correspond are equal to the same values. -/
theorem Corresponds.same_eq {v v' w w' : Value} (h : v.Corresponds L v')
    (hw : w.Corresponds L w') : same v w = same v' w' := by
  refine h.parts (P := fun v v' => ∀ {w w'}, w.Corresponds L w' → same v w = same v' w')
    ?_ ?_ ?_ hw
  · intro v v' hleaf w w' hw
    exact hleaf.same_eq hw
  · intro items items' hitems w w' hw
    cases hw with
    | leaf hw => cases hw <;> rfl
    | vec hw => exact sameItems_congr hitems hw
    | splat _ => rfl
  · intro inner inner' hinner w w' hw
    cases hw with
    | leaf hw => cases hw <;> rfl
    | vec _ => rfl
    | splat hw => exact hinner hw

/-! ## Likeness of a value to itself -/

theorem Like.clean {v v' : Value} (h : v.Like L v') : v.clean = true := by
  have hboth : v.clean = true ∧ v.Like L v' := by
    refine h.parts ?_ ?_ ?_
    · intro v v' hleaf
      refine ⟨?_, .leaf hleaf⟩
      cases hleaf <;> rfl
    · intro items items' hitems ih
      refine ⟨?_, hitems.vec⟩
      have hclean := ((List.forall₂_and_left _ _).1 ih).1
      rw [Value.clean, cleanItems_iff]
      exact fun item hitem => ⟨hclean item hitem, hitems.plain item hitem⟩
    · intro inner inner' hinner hiter ih
      refine ⟨?_, .splat hinner hiter⟩
      rw [Value.clean, hiter, ih.1]
      rfl
  exact hboth.1

theorem Corresponds.eq {v v' : Value} (h : v.Corresponds .same v') : v = v' := by
  refine h.parts ?_ ?_ ?_
  · intro v v' hleaf
    cases hleaf with
    | @fn closure closure' hfn henv =>
      obtain ⟨fn, env⟩ := closure
      obtain ⟨fn', env'⟩ := closure'
      rw [show fn = fn' from Fun.like_same_iff.1 hfn, show env = env' from henv]
    | @prim i i' hi name min max op => rw [show i = i' from hi]
    | @host i i' hi t data => rw [show i = i' from hi]
    | _ => rfl
  · intro items items' hitems
    rw [List.forall₂_eq_eq_eq] at hitems
    rw [hitems]
  · intro inner inner' hinner
    rw [hinner]

theorem Like.eq {v v' : Value} (h : v.Like .same v') : v = v' := h.corresponds.eq

mutual

theorem like_same_self : (v : Value) → v.clean = true → v.Like .same v
  | .nil, _ => .leaf .nil
  | .bool b, _ => .leaf (.bool b)
  | .int n, _ => .leaf (.int n)
  | .vec items, h =>
    .vec (likes_same_self items h) fun item hitem => (cleanItems_iff.1 h item hitem).2
  | .splat inner, h => by
    rw [clean, Bool.and_eq_true] at h
    exact .splat (like_same_self inner h.2) h.1
  | .fn closure, _ => .leaf (.fn (Fun.like_same_iff.2 rfl) rfl)
  | .prim ⟨_, name, min, max, op⟩, _ => .leaf (.prim rfl name min max op)
  | .type t, _ => .leaf (.type t)
  | .host ⟨_, t, data⟩, _ => .leaf (.host rfl t data)

theorem likes_same_self : (items : List Value) → cleanItems items = true →
    List.Forall₂ (Like .same) items items
  | [], _ => .nil
  | item :: items, h => by
    rw [cleanItems, Bool.and_eq_true, Bool.and_eq_true] at h
    exact .cons (like_same_self item h.1.2) (likes_same_self items h.2)

end

/-- With all handles linked to themselves and nothing else, likeness is equality of clean values. -/
theorem like_same_iff {v v' : Value} : v.Like .same v' ↔ v = v' ∧ v.clean = true := by
  constructor
  · intro h
    exact ⟨h.eq, h.clean⟩
  · rintro ⟨rfl, hclean⟩
    exact like_same_self v hclean

end Value

/-! ## Causes of failure -/

/-- Causes that differ in linked handles alone. -/
inductive Cause.Like (L : Links) : Cause → Cause → Prop
  | unknownId {s s' : Symbol} (h : L.symbol s s') : Like L (.unknownId s) (.unknownId s')
  | notCallable {v v' : Value} (h : v.Corresponds L v') : Like L (.notCallable v) (.notCallable v')
  | wrongCount {v v' : Value} (h : v.Corresponds L v') (min : Nat) (max : Option Nat)
    (given : Nat) : Like L (.wrongCount v min max given) (.wrongCount v' min max given)
  | notIterable {v v' : Value} (h : v.Corresponds L v') : Like L (.notIterable v) (.notIterable v')
  | notInt {v v' : Value} (h : v.Corresponds L v') : Like L (.notInt v) (.notInt v')
  | invalid (role : FormRole) {f f' : Form} (h : f.Like L.symbol L.pos f') :
    Like L (.invalid role f) (.invalid role f')
  /-- Other causes name no handles. -/
  | refl (cause : Cause) : Like L cause cause

/-- Causes that are alike have one message. -/
theorem Cause.Like.message_eq {cause cause' : Cause} (h : cause.Like L cause') :
    cause.message = cause'.message := by
  cases h with
  | unknownId hs => exact congrArg ("Unknown id: " ++ ·) (L.name_eq hs)
  | notCallable h => exact congrArg ("Not callable: " ++ ·) h.text_eq
  | notIterable h => exact congrArg ("Not iterable: " ++ ·) h.text_eq
  | notInt h => exact congrArg ("Expected Int: " ++ ·) h.text_eq
  | wrongCount h min max given =>
    exact congrArg (fun text => "Wrong number of arguments to " ++ text ++ ": expected " ++
      countText min max ++ ", got " ++ Decimal.text given) h.text_eq
  | invalid role h =>
    exact congrArg (fun text => "Invalid " ++ role.text ++ ": " ++ text) (h.text_eq L.name_eq)
  | refl => rfl

theorem Cause.Like.eq {cause cause' : Cause} (h : cause.Like .same cause') : cause = cause' := by
  cases h with
  | @unknownId s s' hs => rw [show s = s' from hs]
  | notCallable h | notIterable h | notInt h => rw [h.eq]
  | wrongCount h min max given => rw [h.eq]
  | invalid role h => rw [h.eq]
  | refl => rfl

end SplatLisp
