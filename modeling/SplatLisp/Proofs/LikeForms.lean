import Mathlib.Data.List.Forall2
import SplatLisp.Form.Text
import SplatLisp.Proofs.Grammar

/-!
# Forms that are alike

Forms of one shape whose symbols are related part by part, and whose places are
(`Form.Like S Q`). What the shape alone decides is the same then: the tree and the text, if related
symbols have one name.
-/

namespace SplatLisp

/-! ## Related optional things -/

section Options

variable {α β : Type} {R S : α → β → Prop} {x : Option α} {y : Option β}

theorem option_rel_imp (hRS : ∀ {a b}, R a b → S a b) (h : Option.Rel R x y) :
    Option.Rel S x y := by
  cases h with
  | none => exact .none
  | some h => exact .some (hRS h)

theorem option_rel_self {R : α → α → Prop} (h : ∀ a, R a a) (x : Option α) : Option.Rel R x x := by
  cases x with
  | none => exact .none
  | some a => exact .some (h a)

theorem option_rel_eq_iff {x y : Option α} : Option.Rel (· = ·) x y ↔ x = y := by
  constructor
  · intro h
    cases h with
    | none => rfl
    | some h => rw [h]
  · rintro rfl
    exact option_rel_self (fun _ => rfl) x

theorem eq_none_of_rel (h : Option.Rel R x y) (hx : x = none) : y = none := by
  subst hx
  cases h
  rfl

theorem exists_of_rel {a : α} (h : Option.Rel R x y) (hx : x = some a) :
    ∃ b, y = some b ∧ R a b := by
  subst hx
  cases h with
  | some h => exact ⟨_, rfl, h⟩

theorem map_eq_of_rel {γ : Type} {f : α → γ} {g : β → γ} (h : Option.Rel R x y)
    (hfg : ∀ {a b}, R a b → f a = g b) : x.map f = y.map g := by
  cases h with
  | none => rfl
  | some h => exact congrArg some (hfg h)

theorem isSome_of_rel (h : Option.Rel R x y) : x.isSome = y.isSome := by
  cases h <;> rfl

end Options

/-! ## Likeness -/

inductive Atom.Like (S : Symbol → Symbol → Prop) : Atom → Atom → Prop
  | nil : Like S .nil .nil
  | bool (b : Bool) : Like S (.bool b) (.bool b)
  | int (n : Int64) : Like S (.int n) (.int n)
  | id {s s' : Symbol} (h : S s s') : Like S (.id s) (.id s')

/-- Forms that differ in related symbols and places alone. -/
inductive Form.Like (S : Symbol → Symbol → Prop) (Q : Pos → Pos → Prop) : Form → Form → Prop
  | atom {a a' : Atom} {p p' : Pos} (h : a.Like S a') (hpos : Q p p') :
    Like S Q (.atom a p) (.atom a' p')
  | group (bracket : Bracket) {items items' : List Form} {p p' : Pos}
    (h : List.Forall₂ (Like S Q) items items') (hpos : Q p p') :
    Like S Q (.group bracket items p) (.group bracket items' p')
  | splat {inner inner' : Form} {p p' : Pos} (h : Like S Q inner inner') (hpos : Q p p') :
    Like S Q (.splat inner p) (.splat inner' p')

/-- Symbols that differ in their tags at most. -/
def Symbol.SameName (s s' : Symbol) : Prop := s.name = s'.name

namespace Form

variable {S T : Symbol → Symbol → Prop} {Q Q' : Pos → Pos → Prop} {f f' : Form}

/-- What holds of atoms, and of groups and splats if it holds of their parts, holds of all forms
that are alike. -/
@[elab_as_elim]
theorem Like.parts {P : Form → Form → Prop} (h : f.Like S Q f')
    (atom : ∀ {a a' p p'}, a.Like S a' → Q p p' → P (.atom a p) (.atom a' p'))
    (group : ∀ {bracket items items' p p'}, List.Forall₂ P items items' → Q p p' →
      P (.group bracket items p) (.group bracket items' p'))
    (splat : ∀ {inner inner' p p'}, P inner inner' → Q p p' →
      P (.splat inner p) (.splat inner' p')) : P f f' :=
  @Like.rec S Q (fun f f' _ => P f f') (fun items items' _ => List.Forall₂ P items items')
    (fun ha hpos => atom ha hpos) (fun _ _ _ _ _ _ hpos ih => group ih hpos)
    (fun _ hpos ih => splat ih hpos) .nil (fun _ _ ih ihs => .cons ih ihs) f f' h

theorem likes_of_parts {items items' : List Form}
    (h : List.Forall₂ (fun f f' => (∀ s ∈ f.symbols, ∀ s' ∈ f'.symbols, S s s' → T s s') →
      f.Like T Q f') items items')
    (hS : ∀ s ∈ itemSymbols items, ∀ s' ∈ itemSymbols items', S s s' → T s s') :
    List.Forall₂ (Like T Q) items items' := by
  induction h with
  | nil => exact .nil
  | cons hitem _ ih =>
    refine .cons (hitem fun s hs s' hs' => ?_) (ih fun s hs s' hs' => ?_)
    · exact hS s (List.mem_append_left _ hs) s' (List.mem_append_left _ hs')
    · exact hS s (List.mem_append_right _ hs) s' (List.mem_append_right _ hs')

/-- Likeness is as good as what relates the symbols that occur. -/
theorem Like.link (h : f.Like S Q f') (hQ : ∀ {p p'}, Q p p' → Q' p p')
    (hS : ∀ s ∈ f.symbols, ∀ s' ∈ f'.symbols, S s s' → T s s') : f.Like T Q' f' := by
  refine h.parts (P := fun f f' => (∀ s ∈ f.symbols, ∀ s' ∈ f'.symbols, S s s' → T s s') →
    f.Like T Q' f') ?_ ?_ ?_ hS
  · intro a a' p p' ha hpos hS
    refine .atom ?_ (hQ hpos)
    cases ha with
    | nil => exact .nil
    | bool b => exact .bool b
    | int n => exact .int n
    | id hs => exact .id (hS _ List.mem_cons_self _ List.mem_cons_self hs)
  · intro bracket items items' p p' hitems hpos hS
    exact .group bracket (likes_of_parts hitems hS) (hQ hpos)
  · intro inner inner' p p' hinner hpos hS
    exact .splat (hinner hS) (hQ hpos)

theorem likes_link {items items' : List Form} (h : List.Forall₂ (Like S Q) items items')
    (hQ : ∀ {p p'}, Q p p' → Q' p p')
    (hS : ∀ s ∈ itemSymbols items, ∀ s' ∈ itemSymbols items', S s s' → T s s') :
    List.Forall₂ (Like T Q') items items' :=
  likes_of_parts (h.imp fun _ _ hf => hf.link hQ) hS

theorem Like.mono (h : f.Like S Q f') (hS : ∀ {s s'}, S s s' → T s s')
    (hQ : ∀ {p p'}, Q p p' → Q' p p') : f.Like T Q' f' :=
  h.link hQ fun _ _ _ _ hs => hS hs

theorem likes_mono {forms forms' : List Form} (h : List.Forall₂ (Like S Q) forms forms')
    (hS : ∀ {s s'}, S s s' → T s s') (hQ : ∀ {p p'}, Q p p' → Q' p p') :
    List.Forall₂ (Like T Q') forms forms' :=
  h.imp fun _ _ hf => hf.mono hS hQ

theorem Like.id?_rel (h : f.Like S Q f') : Option.Rel S f.id? f'.id? := by
  cases h with
  | atom ha _ =>
    cases ha with
    | id hs => exact .some hs
    | _ => exact .none
  | group _ _ _ => exact .none
  | splat _ _ => exact .none

/-! ## What the shape decides -/

theorem trees_congr {items items' : List Form}
    (h : List.Forall₂ (fun f f' => f.tree = f'.tree) items items') :
    trees items = trees items' := by
  induction h with
  | nil => rfl
  | cons hitem _ ih => rw [trees, trees, hitem, ih]

theorem Like.tree_eq (h : f.Like S Q f') (hS : ∀ {s s'}, S s s' → s.name = s'.name) :
    f.tree = f'.tree := by
  refine h.parts ?_ ?_ ?_
  · intro a a' p p' ha _
    cases ha with
    | id hs => exact congrArg Tree.id (hS hs)
    | _ => rfl
  · intro bracket items items' p p' hitems _
    rw [tree, tree, trees_congr hitems]
  · intro inner inner' p p' hinner _
    rw [tree, tree, hinner]

theorem moreChars_congr {items items' : List Form}
    (h : List.Forall₂ (fun f f' => f.chars = f'.chars) items items') :
    moreChars items = moreChars items' := by
  induction h with
  | nil => rfl
  | cons hitem _ ih => rw [moreChars, moreChars, hitem, ih]

theorem itemsChars_congr {items items' : List Form}
    (h : List.Forall₂ (fun f f' => f.chars = f'.chars) items items') :
    itemsChars items = itemsChars items' := by
  cases h with
  | nil => rfl
  | cons hitem hitems => rw [itemsChars, itemsChars, hitem, moreChars_congr hitems]

theorem Like.chars_eq (h : f.Like S Q f') (hS : ∀ {s s'}, S s s' → s.name = s'.name) :
    f.chars = f'.chars := by
  refine h.parts ?_ ?_ ?_
  · intro a a' p p' ha _
    cases ha with
    | id hs => simp only [chars, Atom.text, hS hs]
    | _ => rfl
  · intro bracket items items' p p' hitems _
    rw [chars, chars, itemsChars_congr hitems]
  · intro inner inner' p p' hinner _
    rw [chars, chars, hinner]

/-- Forms that are alike have one text. -/
theorem Like.text_eq (h : f.Like S Q f') (hS : ∀ {s s'}, S s s' → s.name = s'.name) :
    f.text = f'.text :=
  String.toList_injective (by rw [toList_text, toList_text, h.chars_eq hS])

/-! ## Likeness of a form to itself -/

theorem Like.eq (h : f.Like Eq Eq f') : f = f' := by
  refine h.parts ?_ ?_ ?_
  · rintro a _ p _ ha rfl
    cases ha with
    | id hs => rw [hs]
    | _ => rfl
  · rintro bracket items items' p _ hitems rfl
    rw [List.forall₂_eq_eq_eq] at hitems
    rw [hitems]
  · rintro inner _ p _ rfl rfl
    rfl

mutual

/-- A form whose symbols are related to themselves is like itself. -/
theorem like_self (hQ : ∀ p, Q p p) : (f : Form) → (∀ s ∈ f.symbols, S s s) → f.Like S Q f
  | .atom a p, h => by
    refine .atom ?_ (hQ p)
    cases a with
    | id s => exact .id (h s List.mem_cons_self)
    | nil => exact .nil
    | bool b => exact .bool b
    | int n => exact .int n
  | .group bracket items p, h => .group bracket (likes_self hQ items h) (hQ p)
  | .splat inner p, h => .splat (like_self hQ inner h) (hQ p)

theorem likes_self (hQ : ∀ p, Q p p) : (forms : List Form) →
    (∀ s ∈ itemSymbols forms, S s s) → List.Forall₂ (Like S Q) forms forms
  | [], _ => .nil
  | f :: fs, h => .cons (like_self hQ f fun s hs => h s (List.mem_append_left _ hs))
    (likes_self hQ fs fun s hs => h s (List.mem_append_right _ hs))

end

theorem like_eq_self (f : Form) : f.Like Eq Eq f := like_self (fun _ => rfl) f fun _ _ => rfl

theorem likes_eq_self (forms : List Form) : List.Forall₂ (Like Eq Eq) forms forms :=
  likes_self (fun _ => rfl) forms fun _ _ => rfl

end Form

end SplatLisp
