import SplatLisp.Proofs.CoreCalls
import SplatLisp.Proofs.Reprinting
import SplatLisp.Proofs.SymbolTables
import SplatLisp.Proofs.Written

/-!
# Function headers print and parse back

A function is rendered as its header: the word `fun`, its name if it has one, its parameters in
round brackets, and three dots for its body. As a text the header is a call of `fun`, whose body is
the splat of an identifier, a single dot (`Fun.header`). So it makes a function again, with the same
header, wherever `fun` stands for the core primitive (`Closure.ReadsBack`).

That does not go without saying for names that end in dots. Such a name cannot be a parameter, but
it can be the rest parameter, where the mark comes behind its own dots. The header of a function
that was made of a form that was read is itself such a form (`Fun.readIn_header`), and so its text
is read as the header. The header that was read and the one that was written differ in places alone,
which have no say in evaluation.
-/

namespace SplatLisp

open scoped CoreOnly

/-! ## Names in forms -/

namespace Form

mutual

theorem names_tree : (form : Form) → form.tree.names = form.symbols.map Symbol.name
  | atom a _ => by cases a <;> rfl
  | group _ items _ => namesOf_trees items
  | splat inner _ => names_tree inner

theorem namesOf_trees : (items : List Form) →
    Tree.namesOf (trees items) = (itemSymbols items).map Symbol.name
  | [] => rfl
  | item :: items => by
    rw [trees, Tree.namesOf, itemSymbols, List.map_append, names_tree, namesOf_trees]

end

/-- An identifier as a form. -/
def ofId (s : Symbol) : Form := .atom (.id s) default

theorem ReadIn.group {table : SymbolTable} {items : List Form}
    (h : ∀ item ∈ items, item.ReadIn table) (bracket : Bracket) (pos : Pos) :
    (Form.group bracket items pos).ReadIn table := by
  constructor
  · refine .group bracket fun t ht => ?_
    rw [trees_eq_map] at ht
    obtain ⟨item, hitem, rfl⟩ := List.mem_map.1 ht
    exact (h item hitem).canonical
  · intro s hs
    rw [symbols, itemSymbols_eq_flatMap] at hs
    obtain ⟨item, hitem, hs⟩ := List.mem_flatMap.1 hs
    exact (h item hitem).owns s hs

theorem readIn_ofId {table : SymbolTable} {name : String} {s : Symbol} (hname : Spelled name)
    (hs : table.get? name = some s) :
    (Form.splat (ofId s) default).ReadIn table ∧
      (¬ splatMark <:+ name.toList → (ofId s).ReadIn table) := by
  obtain rfl := (SymbolTable.get?_eq_some_iff.1 hs).2
  exact ⟨ReadIn.splatId_iff.2 ⟨.splatId hname, hs⟩,
    fun hmark => ReadIn.id_iff.2 ⟨.id hname hmark, hs⟩⟩

theorem ReadIn.unplaced_eq {table : SymbolTable} {form form' : Form} (h : form.ReadIn table)
    (h' : form'.ReadIn table) (htree : form.tree = form'.tree) : form.unplaced = form'.unplaced :=
  Form.unplaced_eq form form' h.owns h'.owns htree

end Form

/-! ## Headers -/

namespace Fun

/-- The parameters of a function as forms. -/
def paramForms (fn : Fun) : List Form :=
  fn.params.map .ofId ++ fn.rest.toList.map fun s => .splat (.ofId s) default

/-- What stands behind the word `fun` in the header of a function. -/
def headerForms (fn : Fun) (dot : Symbol) : List Form :=
  fn.name.toList.map .ofId ++ [.group .round fn.paramForms default, .splat (.ofId dot) default]

theorem headerForms_ne_nil (fn : Fun) {dot : Symbol} : fn.headerForms dot ≠ [] := by
  simp [headerForms]

/-- The form that the text of a function is the text of. -/
def header (fn : Fun) (keyword dot : Symbol) : Form :=
  .group .round (.ofId keyword :: fn.headerForms dot) default

variable {fn : Fun} {keyword dot : Symbol}

theorem map_text_paramForms (fn : Fun) : fn.paramForms.map Form.text = fn.paramTexts := by
  simp [paramForms, paramTexts, Form.ofId, Form.text, Form.writeTo, Atom.text, Function.comp_def]

theorem toList_text (hkeyword : keyword.name = "fun") (hdot : dot.name = ".") :
    fn.text.toList = (fn.header keyword dot).chars := by
  have hparams : (" ".intercalate fn.paramTexts).toList = Form.itemsChars fn.paramForms := by
    rw [← map_text_paramForms, Form.toList_intercalate_text]
  cases hname : fn.name with
  | none =>
    simp [text, header, headerForms, hname, Form.ofId, Form.chars, Form.itemsChars,
      Form.moreChars, Atom.text, hkeyword, hdot, hparams, Bracket.opening, Bracket.closing]
  | some s =>
    simp [text, header, headerForms, hname, Form.ofId, Form.chars, Form.itemsChars,
      Form.moreChars, Atom.text, hkeyword, hdot, hparams, Bracket.opening, Bracket.closing]

/-- Tags are not part of trees. -/
theorem tree_header_congr {keyword' dot' : Symbol} (hkeyword : keyword.name = keyword'.name)
    (hdot : dot.name = dot'.name) :
    (fn.header keyword dot).tree = (fn.header keyword' dot').tree := by
  simp [header, headerForms, Form.tree, Form.trees_eq_map, Form.ofId, Atom.tree, hkeyword, hdot]

theorem spelled_fun : Spelled "fun" := by
  have hrun : IsRun ['f', 'u', 'n'] := by
    refine ⟨List.cons_ne_nil _ _, ?_⟩
    simp only [List.forall_mem_cons]
    exact ⟨by decide, by decide, by decide, nofun⟩
  exact ⟨hrun, isName_of_toInt? (by decide) rfl⟩

theorem spelled_dot : Spelled "." :=
  ⟨isRun_singleton not_delimits_dot, isName_of_toInt? (by decide) rfl⟩

/-- **The header of a function could have been read**, if the function was made of a form that
was. -/
theorem readIn_header {table : SymbolTable} (h : fn.WrittenIn (Form.ReadIn table))
    (hkeyword : table.get? "fun" = some keyword) (hdot : table.get? "." = some dot) :
    (fn.header keyword dot).ReadIn table := by
  have hname : ∀ s ∈ fn.name, (Form.ofId s).ReadIn table := by
    intro s hs
    obtain ⟨pos, hread⟩ := h.name s hs
    exact Form.ReadIn.id_iff.2 (Form.ReadIn.id_iff.1 hread)
  have hparam : ∀ s ∈ fn.params, (Form.ofId s).ReadIn table := by
    intro s hs
    obtain ⟨pos, hread⟩ := h.params s hs
    exact Form.ReadIn.id_iff.2 (Form.ReadIn.id_iff.1 hread)
  have hrest : ∀ s ∈ fn.rest, (Form.splat (.ofId s) default).ReadIn table := by
    intro s hs
    obtain ⟨pos, pos', hread⟩ := h.rest s hs
    exact Form.ReadIn.splatId_iff.2 (Form.ReadIn.splatId_iff.1 hread)
  have hparams : (Form.group .round fn.paramForms default).ReadIn table := by
    refine .group (fun item hitem => ?_) _ _
    simp only [paramForms, List.mem_append, List.mem_map, Option.mem_toList] at hitem
    rcases hitem with ⟨s, hs, rfl⟩ | ⟨s, hs, rfl⟩
    · exact hparam s hs
    · exact hrest s hs
  refine .group (fun item hitem => ?_) _ _
  simp only [headerForms, List.mem_cons, List.mem_append, List.mem_map, Option.mem_toList,
    List.not_mem_nil, or_false] at hitem
  rcases hitem with rfl | ⟨s, hs, rfl⟩ | rfl | rfl
  · exact (Form.readIn_ofId spelled_fun hkeyword).2 (by decide)
  · exact hname s hs
  · exact hparams
  · exact (Form.readIn_ofId spelled_dot hdot).1

/-- The parameters are listed as they are. -/
theorem ofForm_paramForms (fn : Fun) (pos : Pos) :
    Params.ofForm (.group .round fn.paramForms pos) = .ok ⟨fn.params, fn.rest⟩ := by
  refine Params.ofForm_eq_ok_iff.2 ⟨_, pos, rfl, _, _, rfl, ?_, ?_⟩
  · rw [List.map_map]
    rfl
  · rw [List.map_map]
    rfl

end Fun

/-! ## Evaluation -/

/-- Functions with the same name and parameters. -/
structure Fun.SameHeader (fn fn' : Fun) : Prop where
  name : fn.name = fn'.name
  params : fn.params = fn'.params
  rest : fn.rest = fn'.rest

theorem Fun.SameHeader.trans {fn fn' fn'' : Fun} (h : fn.SameHeader fn')
    (h' : fn'.SameHeader fn'') : fn.SameHeader fn'' :=
  ⟨h.name.trans h'.name, h.params.trans h'.params, h.rest.trans h'.rest⟩

theorem Fun.SameHeader.text_eq {fn fn' : Fun} (h : fn.SameHeader fn') : fn.text = fn'.text := by
  rw [text, text, paramTexts, paramTexts, h.name, h.params, h.rest]

/-- Whether the text of a function makes a function with the same header, in any context that has
the symbols of a table, and in any environment where `fun` stands for the core primitive, whatever
other primitives there are. The name of the dot is all that may be new to the context; so a tag has
to be left for it, or it has one. -/
def Closure.ReadsBack (table : SymbolTable) (closure : Closure) : Prop :=
  ∃ text, (Value.fn closure).rendering.result = .ok text ∧
    ∀ [HostPrims] (e : Context) (keyword : Symbol) (env : Env) (prim : Prim),
      table.Extends e.symbols → e.symbols.get? "fun" = some keyword →
        e.heap.lookup env keyword = some (.prim prim) → prim.IsCore "fun" →
          ∀ bound pos, ∃ back d, Eval.evalText (bound + 2) pos text env e = .ok (.fn back) d ∧
            back.fn.SameHeader closure.fn ∧ (Value.fn back).rendering.result = .ok text ∧
              d.symbols = (e.symbols.intern ".").2

namespace Eval

variable {fn : Fun} {keyword dot : Symbol} {env : Env}

/-- What stands behind the word in a header makes a function with this header. -/
theorem evalFunction_headerForms (fn : Fun) (dot : Symbol) (env : Env) (c : Context) :
    ∃ back d, evalFunction env (fn.headerForms dot) c = .ok (.fn back) d ∧
      back.fn.SameHeader fn := by
  have hmake : ∀ (name : Option Symbol) (body : List Form),
      ∃ i d, makeFun name env (.group .round fn.paramForms default :: body) c =
        .ok (.fn ⟨⟨i, name, fn.params, fn.rest, body⟩, env⟩) d := by
    intro name body
    unfold makeFun
    dsimp only
    rw [fn.ofForm_paramForms]
    cases name with
    | none => exact ⟨_, _, rfl⟩
    | some s => exact ⟨_, _, rfl⟩
  unfold Fun.headerForms
  cases hname : fn.name with
  | none =>
    obtain ⟨i, d, hd⟩ := hmake none [.splat (.ofId dot) default]
    exact ⟨_, d, hd, hname.symm, rfl, rfl⟩
  | some s =>
    obtain ⟨i, d, hd⟩ := hmake (some s) [.splat (.ofId dot) default]
    exact ⟨_, d, hd, hname.symm, rfl, rfl⟩

/-- A call of the core primitive makes a function of the forms, whatever other primitives there
are. -/
theorem eval_fun [HostPrims] {e : Context} {prim : Prim}
    (hlookup : e.heap.lookup env keyword = some (.prim prim)) (hprim : prim.IsCore "fun")
    {forms : List Form} (hne : forms ≠ []) (bound : Nat) (p q : Pos) :
    eval (bound + 2) (.group .round (.atom (.id keyword) p :: forms) q) env e =
      evalFunction env forms e := by
  have hhead : eval (bound + 1) (.atom (.id keyword) p) env e = .ok (.prim prim) e := by
    change Eval.lookup env keyword e = _
    rw [lookup_eq, hlookup]
  have hcount : 1 ≤ forms.length ∧ ∀ m ∈ (none : Option Nat), forms.length ≤ m :=
    ⟨List.length_pos_iff.2 hne, nofun⟩
  exact eval_core hhead hprim rfl hcount q

theorem evalForms_header {e : Context} {prim : Prim}
    (hlookup : e.heap.lookup env keyword = some (.prim prim)) (hprim : prim.IsCore "fun")
    (fn : Fun) (dot : Symbol) (bound : Nat) :
    ∃ back d, evalForms (eval (bound + 2)) [fn.header keyword dot] env e = .ok (.fn back) d ∧
      back.fn.SameHeader fn := by
  obtain ⟨back, d, hback, hsame⟩ := evalFunction_headerForms fn dot env e
  refine ⟨back, d, ?_, hsame⟩
  rw [evalForms_singleton, ← hback]
  exact eval_fun hlookup hprim fn.headerForms_ne_nil bound default default

/-- What differs from a header in places alone is a call of the same word. -/
theorem exists_call_of_unplaced_eq {f : Form} {fn : Fun}
    (hf : f.unplaced = (fn.header keyword dot).unplaced) :
    ∃ forms p q, f = .group .round (.atom (.id keyword) p :: forms) q ∧ forms ≠ [] := by
  cases f with
  | group bracket items q =>
    obtain ⟨rfl, hitems, -⟩ := Form.group.inj hf
    rw [Form.unplacedItems_eq_map, Form.unplacedItems_eq_map, List.map_cons] at hitems
    obtain ⟨head, forms, rfl, hhead, hforms⟩ := List.map_eq_cons_iff.1 hitems
    cases head with
    | atom a p =>
      obtain ⟨rfl, -⟩ := Form.atom.inj hhead
      refine ⟨forms, p, q, rfl, ?_⟩
      rintro rfl
      exact fn.headerForms_ne_nil (List.map_eq_nil_iff.1 hforms.symm)
    | group | splat => cases hhead
  | atom | splat => cases hf

/-- Other primitives have no say in what a header comes to. -/
theorem evalForms_header_hostless (H H' : HostPrims) {e : Context} {prim : Prim}
    (hlookup : e.heap.lookup env keyword = some (.prim prim)) (hprim : prim.IsCore "fun") {f : Form}
    {fn : Fun} (hf : f.unplaced = (fn.header keyword dot).unplaced) (bound : Nat) :
    evalForms (@eval H (bound + 2)) [f] env e = evalForms (@eval H' (bound + 2)) [f] env e := by
  obtain ⟨forms, p, q, rfl, hne⟩ := exists_call_of_unplaced_eq hf
  rw [evalForms_singleton, evalForms_singleton, @eval_fun _ _ H _ _ hlookup hprim _ hne,
    @eval_fun _ _ H' _ _ hlookup hprim _ hne]

/-- What differs from a function in places alone is a function with the same header. -/
theorem exists_fn_of_unplaced_eq {v : Value} {closure : Closure}
    (h : v.unplaced = (Value.fn closure).unplaced) :
    ∃ back, v = .fn back ∧ back.fn.SameHeader closure.fn := by
  cases v with
  | fn back =>
    have hfn : back.fn.unplaced = closure.fn.unplaced := (Closure.mk.inj (Value.fn.inj h)).1
    obtain ⟨-, hname, hparams, hrest, -⟩ := Fun.mk.inj hfn
    exact ⟨back, rfl, hname, hparams, hrest⟩
  | _ => cases h

/-- Reading the text of a function made of a form that was read interns the dot at most. -/
theorem internAll_header {fn : Fun} {table : SymbolTable}
    (h : fn.WrittenIn (Form.ReadIn table)) (hkeyword : table.get? "fun" = some keyword)
    (hdot : dot.name = ".") :
    table.internAll (fn.header keyword dot).tree.names = (table.intern ".").2 := by
  have hext := table.extends_intern "."
  have hread := Fun.readIn_header (h.mono fun _ hf => hf.mono hext) (hext hkeyword)
    (table.get?_intern ".")
  rw [Fun.tree_header_congr rfl (hdot.trans (table.intern_name ".").symm), Form.names_tree]
  refine SymbolTable.internAll_eq_intern (fun name hname => ?_) ?_
  · obtain ⟨s, hs, rfl⟩ := List.mem_map.1 hname
    refine SymbolTable.mem_names_intern_iff.1 ?_
    by_contra hnone
    rw [← SymbolTable.get?_eq_none_iff, hread.owns s hs] at hnone
    cases hnone
  · refine List.mem_map.2 ⟨(table.intern ".").1, ?_, table.intern_name "."⟩
    simp [Fun.header, Fun.headerForms, Form.symbols, Form.itemSymbols_eq_flatMap, Form.ofId,
      Atom.symbols]

/-- The text of a function made of a form that was read is read as its header, places aside. -/
theorem exists_readAll_text {fn : Fun} {table : SymbolTable}
    (h : fn.WrittenIn (Form.ReadIn table)) (hkeyword : table.get? "fun" = some keyword)
    (pos : Pos) : ∃ f reader dot,
      (Reader.ofText table fn.text).readAll pos = (.ok [f], reader) ∧
        f.unplaced = (fn.header keyword dot).unplaced ∧
          reader.symbols = (table.intern ".").2 := by
  have hname := (SymbolTable.get?_eq_some_iff.1 hkeyword).2
  -- The dot gets its tag when the text is read. Trees have no tags, so any will do for the text.
  obtain ⟨dot₀, hdot₀⟩ : ∃ dot₀ : Symbol, dot₀.name = "." := ⟨⟨".", 0⟩, rfl⟩
  have hcanonical : (fn.header keyword dot₀).tree.Canonical := by
    have hext := table.extends_intern "."
    have hread := Fun.readIn_header (h.mono fun _ hf => hf.mono hext) (hext hkeyword)
      (table.get?_intern ".")
    rw [Fun.tree_header_congr rfl (hdot₀.trans (table.intern_name ".").symm)]
    exact hread.canonical
  have hreads : Reads fn.text.toList [(fn.header keyword dot₀).tree] := by
    rw [Fun.toList_text hname hdot₀]
    exact (Form.spells _ hcanonical).reads
  obtain ⟨forms, reader, hread, htrees⟩ := Reader.exists_readAll_of_reads hreads table pos
  obtain ⟨f, rfl, htree⟩ := List.map_eq_singleton_iff.1 htrees
  obtain ⟨-, hext, -⟩ := Reader.reads_of_readAll hread
  have hf := Reader.readIn_of_readAll hread f List.mem_cons_self
  obtain ⟨dot, hmem, hdot⟩ : ∃ dot ∈ f.symbols, dot.name = "." := by
    rw [← List.mem_map, ← Form.names_tree, htree, Form.names_tree, ← hdot₀]
    refine List.mem_map_of_mem ?_
    simp [Fun.header, Fun.headerForms, Form.symbols, Form.itemSymbols_eq_flatMap, Form.ofId,
      Atom.symbols]
  have hget : reader.symbols.get? "." = some dot := hdot ▸ hf.owns dot hmem
  have hheader := Fun.readIn_header (h.mono fun _ hf => hf.mono hext) (hext hkeyword) hget
  refine ⟨f, reader, dot, hread, hf.unplaced_eq hheader ?_, ?_⟩
  · rw [htree, Fun.tree_header_congr rfl (hdot₀.trans hdot.symm)]
  · rw [Reader.symbols_of_readAll hread, ← internAll_header h hkeyword hdot₀, List.map_singleton,
      htree, Tree.namesOf, Tree.namesOf, List.append_nil]
    rfl

/-- A text that comes to a value can be read. -/
theorem exists_readAll_of_evalText {bound : Nat} {pos : Pos} {text : String} {c d : Context}
    {v : Value} (h : evalText bound pos text env c = .ok v d) :
    ∃ forms reader, (Reader.ofText c.symbols text).readAll pos = (.ok forms, reader) := by
  unfold evalText at h
  rw [evalChars_eq] at h
  unfold Reader.ofText
  generalize (Reader.mk text.toList c.symbols).readAll pos = result at h
  obtain ⟨outcome, reader⟩ := result
  cases outcome with
  | ok forms => exact ⟨forms, reader, rfl⟩
  | error failure => cases h

/-- What differs from a header in places alone makes a function with this header, and interns
nothing. -/
theorem evalForms_of_unplaced_eq {e : Context} {prim : Prim}
    (hlookup : e.heap.lookup env keyword = some (.prim prim)) (hprim : prim.IsCore "fun") {f : Form}
    {fn : Fun} (hf : f.unplaced = (fn.header keyword dot).unplaced) (bound : Nat) :
    ∃ back d, evalForms (eval (bound + 2)) [f] env e = .ok (.fn back) d ∧
      back.fn.SameHeader fn ∧ d.symbols = e.symbols := by
  obtain ⟨made, d, hmade, hsame⟩ := evalForms_header hlookup hprim fn dot bound
  have hforms : Form.unplacedItems [f] = Form.unplacedItems [fn.header keyword dot] :=
    congrArg ([·]) hf
  have hplaces :=
    evalForms_sameButPlaces placeBlind_coreOnly hforms (bound + 2) env (.refl e)
  have hkept := symbols_evalForms (bound + 2) [f] env e
  unfold Eval.after at hkept
  rw [hmade] at hplaces
  generalize evalForms (eval (bound + 2)) [f] env e = result at hplaces hkept ⊢
  cases hplaces with
  | value hvalue _ =>
    obtain ⟨back, rfl, hback⟩ := exists_fn_of_unplaced_eq hvalue
    exact ⟨back, _, rfl, hback.trans hsame, hkept⟩

/-- **The header of a function that was made of a form that was read makes such a function
again.** -/
theorem readsBack_of_writtenIn {table : SymbolTable} {closure : Closure}
    (h : closure.fn.WrittenIn (Form.ReadIn table)) : closure.ReadsBack table := by
  refine ⟨closure.fn.text, rfl, ?_⟩
  intro H e keyword env prim hext hkeyword hlookup hprim bound pos
  obtain ⟨f, reader, dot, hread, hunplaced, hsymbols⟩ :=
    exists_readAll_text (h.mono fun _ hf => hf.mono hext) hkeyword pos
  obtain ⟨back, d, hback, hheader, hkept⟩ :=
    evalForms_of_unplaced_eq (e := { e with symbols := reader.symbols }) hlookup hprim hunplaced
      bound
  have hcore := evalForms_header_hostless (e := { e with symbols := reader.symbols }) H .none
    hlookup hprim hunplaced bound
  refine ⟨back, d, ?_, hheader, congrArg Except.ok hheader.text_eq, hkept.trans hsymbols⟩
  rw [evalText_of_readAll hread, hcore]
  exact hback

end Eval

/-! ## Contexts -/

/-- What holds in a context that texts have brought about. -/
structure Context.HeadersReadBack (c : Context) : Prop where
  bound : ∀ env s v, c.heap.lookup env s = some v →
    ∀ closure ∈ v.functions, closure.ReadsBack c.symbols
  value : ∀ bound pos text env v d, Eval.evalText bound pos text env c = .ok v d →
    ∀ closure ∈ v.functions, closure.ReadsBack d.symbols
  /-- No other functions come up on the way either, on whatever level of the evaluation. -/
  onTheWay : ∀ bound pos text env forms reader,
    (Reader.ofText c.symbols text).readAll pos = (.ok forms, reader) →
      evalForms
          (checked (fun v => ∀ closure ∈ v.functions, closure.ReadsBack reader.symbols) bound)
          forms env { c with symbols := reader.symbols } =
        Eval.evalText bound pos text env c

open Eval in
/-- **Function headers print and parse back.** A form lists parameters if it is in round brackets
and its items are identifiers, the last of which may be splatted. The text of every function that
evaluating texts brings about, whether it is bound, is part of a value, or just comes up on the way,
makes a function with the same name and parameters again, wherever `fun` stands for the core
primitive. -/
theorem functionHeaders_readBack :
    (∀ form params, Params.ofForm form = .ok params ↔
      ∃ items pos, form = .group .round items pos ∧ params.ListedBy items) ∧
    ∀ c : Context, c.Reachable Request.FromTexts → c.HeadersReadBack := by
  refine ⟨fun _ _ => Params.ofForm_eq_ok_iff, fun c hc => ?_⟩
  have hbinds := Context.binds_writtenIn_of_reachable hc
  have hread : ∀ {pos text forms reader},
      (Reader.ofText c.symbols text).readAll pos = (.ok forms, reader) →
        (∀ form ∈ forms, form.ReadIn reader.symbols) ∧
          c.heap.Binds (Value.WrittenIn reader.symbols) := by
    intro pos text forms reader h
    obtain ⟨-, hext, -⟩ := Reader.reads_of_readAll h
    exact ⟨Reader.readIn_of_readAll h, hbinds.imp fun _ hv => hv.mono hext⟩
  refine ⟨?_, ?_, ?_⟩
  · intro env s v hv closure hclosure
    exact readsBack_of_writtenIn (hbinds.lookup hv closure hclosure)
  · intro bound pos text env v d h closure hclosure
    obtain ⟨forms, reader, hforms⟩ := exists_readAll_of_evalText h
    obtain ⟨hwritten, hheap⟩ := hread hforms
    rw [evalText_of_readAll hforms] at h
    have hv := (agreeOn_evalForms hwritten bound env).of_ok
      (c := { c with symbols := reader.symbols }) hheap h
    have hsymbols := symbols_evalForms bound forms env { c with symbols := reader.symbols }
    unfold Eval.after at hsymbols
    rw [h] at hsymbols
    change d.symbols = reader.symbols at hsymbols
    rw [hsymbols]
    exact readsBack_of_writtenIn (hv closure hclosure)
  · intro bound pos text env forms reader h
    obtain ⟨hforms, hwritten⟩ := hread h
    have hhereditary := Value.hereditary_writtenIn reader.symbols
    have hchecked := agreeOn_checked hhereditary hostsAgreeOn_none
      (P := fun v => ∀ closure ∈ v.functions, closure.ReadsBack reader.symbols)
      (fun v hv closure hclosure => readsBack_of_writtenIn (hv closure hclosure)) bound
    have hagree := (tracked_agreeOn hhereditary hostsAgreeOn_none).evalForms (w := ()) hforms
      (fun _ => hchecked) env
    rw [evalText_of_readAll h]
    exact hagree.eq hwritten

/-- A function whose rest parameter ends in dots, bound in a new context. -/
theorem functionHeaders_readBack_dotted :
    ((Request.text 64 (.start "dots") "(fun f (a x....) (dump a))" .root).run
      (.new {})).HeadersReadBack :=
  functionHeaders_readBack.2 _ (.next (.new {}) _ trivial)

end SplatLisp
