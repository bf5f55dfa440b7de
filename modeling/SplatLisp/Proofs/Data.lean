import SplatLisp.Eval.Source
import SplatLisp.Proofs.Interning
import SplatLisp.Proofs.RoundTrip
import SplatLisp.Proofs.Sameness

/-!
# Data is its own program

The rendering of data is a text that evaluates to the same data, wherever it is evaluated: no frame
has a say, and nothing is changed (`Eval.evalText_rendering`). The same goes for splats of nil and
of vectors of data.

Rendering data writes the text of a form (`Value.form`, `Value.write_eq`). That form is canonical
and has no identifiers, so reading its text gives the form back, at other places, and interns
nothing. Its evaluation gives the data (`Value.eval_of_tree`) if it may nest as deep as the data is
high.
-/

namespace SplatLisp

namespace Value

/-! ## Data -/

mutual

/-- Whether a value is nil, a boolean, an integer, or a vector of such values to any depth. -/
def isData : Value → Bool
  | nil => true
  | bool _ => true
  | int _ => true
  | vec items => areData items
  | _ => false

def areData : List Value → Bool
  | [] => true
  | item :: items => item.isData && areData items

end

theorem areData_cons {item : Value} {items : List Value} :
    areData (item :: items) = true ↔ item.isData = true ∧ areData items = true :=
  Bool.and_eq_true_iff

/-- Whether a value is data, or a splat of nil or of a vector of data. -/
def isLiteral : Value → Bool
  | splat inner => inner.isData && inner.items?.isSome
  | value => value.isData

mutual

/-- How deep the evaluation of a literal nests. -/
def height : Value → Nat
  | vec items => heights items + 1
  | splat inner => inner.height + 1
  | _ => 1

/-- The greatest height of values. -/
def heights : List Value → Nat
  | [] => 0
  | item :: items => max item.height (heights items)

end

mutual

/-- The form that a literal is written as; what is none is given that of nil. -/
def form : Value → Form
  | bool b => .atom (.bool b) default
  | int n => .atom (.int n) default
  | vec items => .group .square (forms items) default
  | splat inner => .splat inner.form default
  | _ => .atom .nil default

def forms : List Value → List Form
  | [] => []
  | item :: items => item.form :: forms items

end

/-! ## Writing data -/

mutual

/-- Data is written as its form. -/
theorem write_eq : (v : Value) → v.isData = true → ∀ out,
    write v out = .ok () (v.form.writeTo out)
  | .nil, _, _ => rfl
  | .bool b, _, _ => by cases b <;> rfl
  | .int _, _, _ => rfl
  | .vec items, h, out => by
    -- The brackets are texts on one side and characters on the other, which makes no difference.
    rw [write]
    change EStateM.bind (writeItems items) (fun _ => Writing.put "]") (out ++ "[") = _
    rw [EStateM.bind, writeItems_eq items h]
    rfl

theorem writeItems_eq : (items : List Value) → areData items = true → ∀ out,
    writeItems items out = .ok () (Form.writeItemsTo out (forms items))
  | [], _, _ => rfl
  | item :: items, h, out => by
    obtain ⟨hitem, hitems⟩ := areData_cons.1 h
    rw [writeItems]
    change EStateM.bind (write item) (fun _ => writeMore items) out = _
    rw [EStateM.bind, write_eq item hitem]
    exact writeMore_eq items hitems _

theorem writeMore_eq : (items : List Value) → areData items = true → ∀ out,
    writeMore items out = .ok () (Form.writeMoreTo out (forms items))
  | [], _, _ => rfl
  | item :: items, h, out => by
    obtain ⟨hitem, hitems⟩ := areData_cons.1 h
    rw [writeMore]
    change EStateM.bind (write item) (fun _ => writeMore items) (out ++ " ") = _
    rw [EStateM.bind, write_eq item hitem]
    exact writeMore_eq items hitems _

end

/-- A literal that is no data is the splat of some. -/
theorem isLiteral_cases {v : Value} (h : v.isLiteral = true) :
    v.isData = true ∨
      ∃ inner, v = .splat inner ∧ inner.isData = true ∧ inner.items?.isSome = true := by
  cases v with
  | splat inner =>
    obtain ⟨hdata, hiter⟩ := Bool.and_eq_true_iff.1 h
    exact .inr ⟨inner, rfl, hdata, hiter⟩
  | _ => exact .inl h

/-- The rendering of a literal is the text of its form. -/
theorem rendering_of_literal {v : Value} (h : v.isLiteral = true) :
    v.rendering = .ofText v.form.text := by
  have hwrite : write v "" = .ok () v.form.text := by
    rcases isLiteral_cases h with hdata | ⟨inner, rfl, hdata, -⟩
    · exact write_eq v hdata ""
    · rw [write]
      change EStateM.bind (write inner) (fun _ => Writing.put "..") "" = _
      rw [EStateM.bind, write_eq inner hdata]
      rfl
  rw [rendering, Writing.rendering, hwrite]
  rfl

/-! ## Reading data -/

mutual

theorem canonical_form : (v : Value) → v.isData = true → v.form.tree.Canonical
  | .nil, _ => .nil
  | .bool b, _ => .bool b
  | .int n, _ => .int n
  | .vec items, h => .group .square (canonical_forms items h)

theorem canonical_forms : (items : List Value) → areData items = true →
    ∀ t ∈ Form.trees (forms items), t.Canonical
  | [], _ => nofun
  | item :: items, h => by
    obtain ⟨hitem, hitems⟩ := areData_cons.1 h
    rw [forms, Form.trees, List.forall_mem_cons]
    exact ⟨canonical_form item hitem, canonical_forms items hitems⟩

end

mutual

theorem names_form : (v : Value) → v.isData = true → v.form.tree.names = []
  | .nil, _ => rfl
  | .bool _, _ => rfl
  | .int _, _ => rfl
  | .vec items, h => names_forms items h

theorem names_forms : (items : List Value) → areData items = true →
    Tree.namesOf (Form.trees (forms items)) = []
  | [], _ => rfl
  | item :: items, h => by
    obtain ⟨hitem, hitems⟩ := areData_cons.1 h
    rw [forms, Form.trees, Tree.namesOf, names_form item hitem, names_forms items hitems]
    rfl

end

/-- The text of a literal reads as one form, and nothing is interned. -/
theorem readAll_of_literal {v : Value} (h : v.isLiteral = true) (table : SymbolTable) (pos : Pos) :
    ∃ form reader, (Reader.ofText table v.form.text).readAll pos = (.ok [form], reader) ∧
      form.tree = v.form.tree ∧ reader.symbols = table := by
  have htree : v.form.tree.Canonical ∧ v.form.tree.names = [] := by
    rcases isLiteral_cases h with hdata | ⟨inner, rfl, hdata, -⟩
    · exact ⟨canonical_form v hdata, names_form v hdata⟩
    · refine ⟨.splat (fun t ht => ?_) (canonical_form inner hdata), names_form inner hdata⟩
      cases inner with
      | splat _ => cases hdata
      | _ => cases ht
  have hreads := (Form.spells v.form htree.1).reads
  rw [← Form.toList_text] at hreads
  obtain ⟨forms, reader, hread, htrees⟩ := Reader.exists_readAll_of_reads hreads table pos
  have hsymbols := Reader.symbols_of_readAll hread
  rw [htrees, Tree.namesOf, htree.2] at hsymbols
  obtain ⟨form, rfl, hform⟩ := List.map_eq_singleton_iff.1 htrees
  exact ⟨form, reader, hread, hform, hsymbols⟩

/-! ## Evaluating data -/

section Evaluation

variable [HostPrims] {env : Env}

mutual

/-- **A form with the tree of data evaluates to the data** and does nothing else. -/
theorem eval_of_tree : (v : Value) → v.isData = true → ∀ {bound form}, v.height ≤ bound →
    form.tree = v.form.tree → eval bound form env = pure v
  -- No value has height zero, and the tree leaves one kind of form for each kind of data.
  | .vec items, h, bound + 1, .group .square forms _, hbound, htree => by
    have hitems : evalArgs (eval bound) forms env = pure items :=
      evalArgs_of_trees items h (Nat.le_of_succ_le_succ hbound) (Tree.group.inj htree).2
    rw [eval_succ, evalStep, hitems, pure_bind]
  | .nil, _, bound + 1, .atom .nil _, _, _ => rfl
  | .bool b, _, bound + 1, .atom (.bool _) _, _, htree => by
    cases htree
    rfl
  | .int n, _, bound + 1, .atom (.int _) _, _, htree => by
    cases htree
    rfl

theorem evalArgs_of_trees : (items : List Value) → areData items = true →
    ∀ {bound forms}, heights items ≤ bound → Form.trees forms = Form.trees (Value.forms items) →
      evalArgs (eval bound) forms env = pure items
  | [], _, _, [], _, _ => rfl
  | item :: items, h, bound, form :: forms, hbound, htrees => by
    obtain ⟨hitem, hitems⟩ := areData_cons.1 h
    obtain ⟨htree, htrees⟩ := List.cons.inj htrees
    have hspread : spread item = pure [item] := by
      cases item with
      | splat _ => cases hitem
      | _ => rfl
    rw [heights, Nat.max_le] at hbound
    rw [evalArgs_cons, eval_of_tree item hitem hbound.1 htree, pure_bind, hspread, pure_bind,
      evalArgs_of_trees items hitems hbound.2 htrees, pure_bind]
    rfl

end

theorem eval_of_literal {v : Value} (h : v.isLiteral = true) {bound : Nat}
    (hbound : v.height ≤ bound) {form : Form} (htree : form.tree = v.form.tree) :
    eval bound form env = pure v := by
  rcases isLiteral_cases h with hdata | ⟨inner, rfl, hdata, hiter⟩
  · exact eval_of_tree v hdata hbound htree
  · cases bound with
    | zero => exact absurd hbound (Nat.not_succ_le_zero _)
    | succ bound =>
      cases form with
      | splat form pos =>
        have hinner : eval bound form env = pure inner :=
          eval_of_tree inner hdata (Nat.le_of_succ_le_succ hbound) (Tree.splat.inj htree)
        rw [eval_succ, evalStep, hinner, pure_bind, if_pos hiter]
      | atom a pos => cases a <;> cases htree
      | group bracket items pos => cases htree

end Evaluation

end Value

namespace Eval

/-- **Data survives dumping and evaluation.** A value that is data, or a splat of nil or of a vector
of data, has a rendering, which evaluates to that very value, from any place, in any environment and
context, and leaves the whole context as it was. -/
theorem evalText_rendering [HostPrims] {v : Value} (h : v.isLiteral = true) :
    ∃ text, v.rendering.result = .ok text ∧ v.same v = true ∧
      ∀ bound, v.height ≤ bound → ∀ (pos : Pos) (env : Env) (c : Context),
        evalText bound pos text env c = .ok v c := by
  refine ⟨v.form.text, ?_, Value.same_equivalence.refl v, fun bound hbound pos env c => ?_⟩
  · rw [Value.rendering_of_literal h]
    rfl
  · obtain ⟨form, reader, hread, htree, hsymbols⟩ := Value.readAll_of_literal h c.symbols pos
    rw [evalText_of_readAll hread, hsymbols, evalForms, evalFormsFrom,
      Value.eval_of_literal h hbound htree, pure_bind]
    rfl

open scoped CoreOnly in
/-- A splat of vectors in vectors with the least integer. -/
theorem evalText_rendering_nested :
    let v := Value.splat (.vec [.vec [], .vec [.int Int64.minValue, .bool false], .nil])
    v.isLiteral = true ∧ v.rendering.result = .ok "[[] [-9223372036854775808 F] _].." ∧
      evalText 64 (.start "data") "[[] [-9223372036854775808 F] _].." .root (.new {}) =
        .ok v (.new {}) := by
  intro v
  have hrendering : v.rendering.result = .ok "[[] [-9223372036854775808 F] _].." := by rfl
  obtain ⟨text, htext, -, heval⟩ := evalText_rendering (v := v) rfl
  rw [hrendering] at htext
  cases htext
  exact ⟨rfl, hrendering, heval 64 (by decide) (.start "data") .root (.new {})⟩

end Eval

end SplatLisp
