import SplatLisp.Proofs.Agreement
import SplatLisp.Proofs.Requests
import SplatLisp.Proofs.Rereading
import SplatLisp.Proofs.RoundTrip

/-!
# Functions are written in forms that were read

What a function consists of, its name, its parameters and its body, stands in the form that it was
made of. So if all forms come from texts, functions consist of what texts read as: canonical forms
over the symbols of the table (`Form.ReadIn`). All functions in a value do, then
(`Value.WrittenIn`), and in every context that a program brings about with texts, all values that
are bound are such values (`Context.binds_writtenIn_of_reachable`).
-/

namespace SplatLisp

open scoped CoreOnly

/-! ## Forms that were read -/

/-- A form as reading gives it: canonical, and over the symbols of a table. -/
structure Form.ReadIn (table : SymbolTable) (form : Form) : Prop where
  canonical : form.tree.Canonical
  owns : table.Owns form.symbols

namespace Form.ReadIn

variable {table later : SymbolTable}

theorem mono {form : Form} (h : form.ReadIn table) (hext : table.Extends later) :
    form.ReadIn later :=
  ⟨h.canonical, h.owns.mono hext⟩

theorem items {bracket : Bracket} {items : List Form} {pos : Pos}
    (h : (group bracket items pos).ReadIn table) : ∀ item ∈ items, item.ReadIn table := by
  intro item hitem
  constructor
  · cases h.canonical with
    | group _ hitems =>
      refine hitems item.tree ?_
      rw [trees_eq_map]
      exact List.mem_map_of_mem hitem
  · intro s hs
    refine h.owns s ?_
    rw [symbols, itemSymbols_eq_flatMap]
    exact List.mem_flatMap_of_mem hitem hs

/-- What a splat wraps could have been read without the mark, but for identifiers, which may end in
dots of their own. -/
theorem inner {inner : Form} {pos : Pos} (h : (splat inner pos).ReadIn table) :
    inner.ReadIn table ∨ inner.id?.isSome = true := by
  obtain ⟨hcanonical, howns⟩ := h
  rw [tree] at hcanonical
  generalize htree : inner.tree = t at hcanonical
  cases hcanonical with
  | splat _ hinner => exact .inl ⟨htree ▸ hinner, howns⟩
  | splatId _ =>
    right
    cases inner with
    | atom atom pos =>
      cases atom with
      | id s => rfl
      | _ => cases htree
    | _ => cases htree

theorem id_iff {s : Symbol} {pos : Pos} : (atom (.id s) pos).ReadIn table ↔
    (Tree.id s.name).Canonical ∧ table.get? s.name = some s := by
  constructor
  · exact fun h => ⟨h.canonical, h.owns s List.mem_cons_self⟩
  · exact fun ⟨hcanonical, hs⟩ => ⟨hcanonical, List.forall_mem_singleton.2 hs⟩

theorem splatId_iff {s : Symbol} {pos pos' : Pos} : (splat (atom (.id s) pos) pos').ReadIn table ↔
    (Tree.splat (.id s.name)).Canonical ∧ table.get? s.name = some s := by
  constructor
  · exact fun h => ⟨h.canonical, h.owns s List.mem_cons_self⟩
  · exact fun ⟨hcanonical, hs⟩ => ⟨hcanonical, List.forall_mem_singleton.2 hs⟩

end Form.ReadIn

theorem Reader.readIn_of_readAll {table : SymbolTable} {chars : List Char} {pos : Pos}
    {forms : List Form} {reader : Reader}
    (h : (Reader.mk chars table).readAll pos = (.ok forms, reader)) :
    ∀ form ∈ forms, form.ReadIn reader.symbols := by
  have htext : (ofText table (.ofList chars)).readAll pos = (.ok forms, reader) := by
    rwa [ofText, String.toList_ofList]
  obtain ⟨-, -, howns⟩ := reads_of_readAll htext
  exact fun form hform => ⟨canonical_of_readAll htext form hform,
    fun s hs => howns s (List.mem_flatMap_of_mem hform hs)⟩

/-! ## Values -/

theorem Fun.WrittenIn.mono {F G : Form → Prop} {fn : Fun} (h : fn.WrittenIn F)
    (hFG : ∀ form, F form → G form) : fn.WrittenIn G where
  name s hs := (h.name s hs).imp fun _ => hFG _
  params s hs := (h.params s hs).imp fun _ => hFG _
  rest s hs := (h.rest s hs).imp fun _ hpos => hpos.imp fun _ => hFG _
  body form hform := hFG form (h.body form hform)

namespace Value

mutual

/-- The functions in a value, from left to right. -/
def functions : Value → List Closure
  | vec items => functionsOf items
  | splat inner => inner.functions
  | fn closure => [closure]
  | _ => []

def functionsOf : List Value → List Closure
  | [] => []
  | item :: items => item.functions ++ functionsOf items

end

theorem functionsOf_eq_flatMap (items : List Value) :
    functionsOf items = items.flatMap functions := by
  induction items with
  | nil => rfl
  | cons item items ih => rw [functionsOf, ih, List.flatMap_cons]

/-- Whether all functions in a value consist of forms that were read. -/
def WrittenIn (table : SymbolTable) (v : Value) : Prop :=
  ∀ closure ∈ v.functions, closure.fn.WrittenIn (Form.ReadIn table)

theorem WrittenIn.mono {table later : SymbolTable} {v : Value} (h : v.WrittenIn table)
    (hext : table.Extends later) : v.WrittenIn later :=
  fun closure hclosure => (h closure hclosure).mono fun _ hform => hform.mono hext

theorem writtenIn_fn {table : SymbolTable} {closure : Closure} :
    (fn closure).WrittenIn table ↔ closure.fn.WrittenIn (Form.ReadIn table) :=
  List.forall_mem_singleton

/-- Evaluation of forms that were read makes functions of such forms alone. -/
theorem hereditary_writtenIn (table : SymbolTable) :
    Hereditary (Form.ReadIn table) (WrittenIn table) where
  items h := h.items
  inner h := h.inner
  nil := nofun
  bool _ := nofun
  int _ := nofun
  type _ := nofun
  vec_iff := by
    intro items
    simp only [WrittenIn, functions, functionsOf_eq_flatMap, List.mem_flatMap]
    constructor
    · exact fun h item hitem closure hclosure => h closure ⟨item, hitem, hclosure⟩
    · rintro h closure ⟨item, hitem, hclosure⟩
      exact h item hitem closure hclosure
  splat_iff := .rfl
  fn := writtenIn_fn.2
  body h := (writtenIn_fn.1 h).body

end Value

/-! ## Contexts -/

/-- Whether a request brings nothing but what texts could have brought. -/
def Request.FromTexts (c : Context) : Request → Prop
  | form _ f _ => f.ReadIn c.symbols
  | args _ fs _ => ∀ f ∈ fs, f.ReadIn c.symbols
  | call _ closure values =>
    closure.fn.WrittenIn (Form.ReadIn c.symbols) ∧ ∀ v ∈ values, v.WrittenIn c.symbols
  | define _ _ value => value.WrittenIn c.symbols
  | _ => True

namespace Eval

/-- What agrees with itself and leaves the symbols as they are keeps what is bound written. -/
theorem AgreeOn.after_writtenIn {α : Type} {P : α → Prop} {x : Eval α} {c : Context}
    (h : AgreeOn (Value.WrittenIn c.symbols) P x x)
    (hc : c.heap.Binds (Value.WrittenIn c.symbols))
    (hsymbols : (x.after c).symbols = c.symbols) :
    (x.after c).heap.Binds (Value.WrittenIn (x.after c).symbols) := by
  rw [hsymbols]
  exact h.after hc

variable {table : SymbolTable} {c : Context}

theorem agreeOn_eval (table : SymbolTable) (bound : Nat) (form : Form) (env : Env)
    (hform : form.ReadIn table ∨ form.id?.isSome = true) :
    AgreeOn (Value.WrittenIn table) (Value.WrittenIn table) (eval bound form env)
      (eval bound form env) :=
  (tracked_agreeOn (Value.hereditary_writtenIn table) hostsAgreeOn_none).eval bound () form env
    hform

theorem agreeOn_evalForms {forms : List Form} (hforms : ∀ form ∈ forms, form.ReadIn table)
    (bound : Nat) (env : Env) :
    AgreeOn (Value.WrittenIn table) (Value.WrittenIn table) (evalForms (eval bound) forms env)
      (evalForms (eval bound) forms env) :=
  (tracked_agreeOn (Value.hereditary_writtenIn table) hostsAgreeOn_none).evalForms (w := ()) hforms
    (fun _ => agreeOn_eval table bound) env

theorem binds_writtenIn_evalChars (bound : Nat) (pos : Pos) (chars : List Char) (env : Env)
    (hc : c.heap.Binds (Value.WrittenIn c.symbols)) :
    ((evalChars bound pos chars env).after c).heap.Binds
      (Value.WrittenIn ((evalChars bound pos chars env).after c).symbols) := by
  obtain ⟨-, hext, -⟩ := Reader.readAll_tables chars pos c.symbols c.symbols
  have heq := evalChars_eq bound pos chars env c
  cases hread : (Reader.mk chars c.symbols).readAll pos with
  | mk outcome reader =>
    rw [hread] at hext heq
    have hbinds : c.heap.Binds (Value.WrittenIn reader.symbols) := hc.imp fun _ hv => hv.mono hext
    unfold Eval.after
    rw [heq]
    cases outcome with
    | ok forms =>
      have hforms := Reader.readIn_of_readAll hread
      refine AgreeOn.after_writtenIn (agreeOn_evalForms hforms bound env) hbinds ?_
      exact symbols_evalForms bound forms env _
    | error failure => exact hbinds

end Eval

open Eval in
theorem Request.FromTexts.run {c : Context} {request : Request} (h : request.FromTexts c)
    (hc : c.heap.Binds (Value.WrittenIn c.symbols)) :
    (request.run c).heap.Binds (Value.WrittenIn (request.run c).symbols) := by
  have htracked := tracked_agreeOn (Value.hereditary_writtenIn c.symbols) hostsAgreeOn_none
  have hev := fun (_ : Unit) => agreeOn_eval c.symbols
  cases request with
  | form bound f env =>
    exact (agreeOn_eval c.symbols bound f env (.inl h)).after_writtenIn hc
      (inherited_writesTo.eval bound env f c).symbols
  | args bound fs env =>
    refine (htracked.evalArgs (w := ()) h (hev · bound) env).after_writtenIn hc ?_
    exact (inherited_writesTo.evalArgs (inherited_writesTo.eval bound) env fs c).symbols
  | call bound fn values =>
    refine (htracked.applyClosure (w := ()) (hev · bound) (.fn fn) h.1.body
      h.2).after_writtenIn hc ?_
    exact (inherited_writesTo.applyClosure (inherited_writesTo.eval bound) fn.env _ fn values
      c).symbols
  | text bound pos source env => exact binds_writtenIn_evalChars bound pos source.toList env hc
  | load bound read name env =>
    change ((Eval.load bound read name env).after c).heap.Binds
      (Value.WrittenIn ((Eval.load bound read name env).after c).symbols)
    unfold Eval.load
    cases read name with
    | ok bytes => exact binds_writtenIn_evalChars bound (.start name) (Utf8.decode bytes) env hc
    | error reason => exact hc
  | frame parent => exact hc.alloc parent
  | define env symbol value => exact hc.define env symbol h
  | intern name => exact hc.imp fun _ hv => hv.mono (c.symbols.extends_intern name)
  | fresh => exact hc
  | register name =>
    obtain ⟨types, hrun⟩ := exists_types_run_register name c
    rw [hrun]
    exact hc
  | configure sinks diagnostics out => exact hc

/-- All functions that are bound consist of forms that were read, if no request brings others. -/
theorem Context.binds_writtenIn_of_reachable {c : Context} (h : c.Reachable Request.FromTexts) :
    c.heap.Binds (Value.WrittenIn c.symbols) := by
  induction h with
  | new settings =>
    refine new_induction (I := fun c => c.heap.Binds (Value.WrittenIn c.symbols)) settings
      (Heap.Binds.empty.alloc none) fun c hc entry _ => ?_
    have hinstalled := hc.imp fun _ hv => hv.mono (c.symbols.extends_intern entry.1)
    exact hinstalled.define .root _ nofun
  | next _ request hlegal ih => exact Request.FromTexts.run hlegal ih

end SplatLisp
