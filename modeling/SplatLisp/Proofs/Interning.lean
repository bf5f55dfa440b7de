import SplatLisp.Proofs.Reading

/-!
# What reading interns

Reading a text interns the names in its trees, one after the other in the order of the text, and
nothing else (`Reader.symbols_of_readAll`). So the table that it leaves is determined by the trees:
texts that are read as the same trees give the same symbols.

The reader does not wait for a form to be complete: an identifier is interned as soon as it is met.
Between two steps, the names that have been interned are those of the items of the open groups, the
outermost group first (`openNames`).
-/

namespace SplatLisp

/-! ## Names in order -/

namespace Tree

mutual

/-- The names in a tree, in the order of the text. -/
def names : Tree → List String
  | id name => [name]
  | group _ items => namesOf items
  | splat inner => inner.names
  | _ => []

/-- The names in trees, in the order of the text. -/
def namesOf : List Tree → List String
  | [] => []
  | item :: items => item.names ++ namesOf items

end

theorem namesOf_append (ts us : List Tree) : namesOf (ts ++ us) = namesOf ts ++ namesOf us := by
  induction ts with
  | nil => rfl
  | cons t ts ih => rw [List.cons_append, namesOf, namesOf, ih, List.append_assoc]

end Tree

/-- Interns names one after the other. -/
def SymbolTable.internAll (table : SymbolTable) (names : List String) : SymbolTable :=
  names.foldl (fun table name => (table.intern name).2) table

theorem SymbolTable.internAll_append (table : SymbolTable) (names more : List String) :
    table.internAll (names ++ more) = (table.internAll names).internAll more :=
  List.foldl_append

namespace Reader

theorem symbols_of_atomOfRun {table table' : SymbolTable} {cs : List Char} {a : Atom}
    (h : atomOfRun table cs = (.ok a, table')) : table' = table.internAll a.tree.names := by
  by_cases hliteral : cs ∈ [['_'], ['T'], ['F']]
  · simp only [List.mem_cons, List.not_mem_nil, or_false] at hliteral
    rcases hliteral with rfl | rfl | rfl <;> cases h <;> rfl
  · rw [atomOfRun_of_not_literal table hliteral] at h
    cases hn : Decimal.toInt64? cs with
    | none =>
      rw [hn] at h
      cases h
      rw [Atom.tree, SymbolTable.intern_name]
      rfl
    | some n =>
      rw [hn] at h
      cases n <;> cases h
      rfl

theorem symbols_of_formOfRun {table table' : SymbolTable} {cs : List Char} {pos : Pos}
    {form : Form} (h : formOfRun table cs pos = (.ok form, table')) :
    table' = table.internAll form.tree.names := by
  have hatom : ∀ {cs wrap}, ((atomOfRun table cs).1.map wrap, (atomOfRun table cs).2) =
      (.ok form, table') → (∀ a, (wrap a).tree.names = a.tree.names) →
      table' = table.internAll form.tree.names := by
    intro cs wrap h hwrap
    cases ha : atomOfRun table cs with
    | mk outcome symbols =>
      rw [ha] at h
      cases outcome with
      | error cause => cases h
      | ok a =>
        cases h
        rw [hwrap]
        exact symbols_of_atomOfRun ha
  unfold formOfRun at h
  split at h
  · cases h
  · exact hatom h fun _ => rfl
  · exact hatom h fun _ => rfl

/-! ## Names that have been met -/

/-- The names in the items of open groups, in the order of the text. -/
def openNames : List OpenGroup → List String
  | [] => []
  | group :: outer => openNames outer ++ Tree.namesOf (Form.trees group.items.reverse)

theorem openNames_add (group : OpenGroup) (outer : List OpenGroup) (form : Form) :
    openNames (group.add form :: outer) = openNames (group :: outer) ++ form.tree.names := by
  have hitems : Form.trees (group.add form).items.reverse =
      Form.trees group.items.reverse ++ [form.tree] := by
    rw [Form.trees_eq_map, Form.trees_eq_map, OpenGroup.add, List.reverse_cons, List.map_append]
    rfl
  rw [openNames, openNames, hitems, Tree.namesOf_append, List.append_assoc]
  simp only [Tree.namesOf, List.append_nil]

/-- The symbols of a state are those at the start and the names met since. -/
def Records (start : SymbolTable) (s : State) : Prop :=
  s.symbols = start.internAll (openNames s.groups)

theorem Completes.symbols_eq {start : SymbolTable} {s : State} {form : Form}
    {outer : List OpenGroup} {symbols : SymbolTable} {next : Cursor}
    (h : Completes s form outer symbols next) (hs : Records start s) :
    symbols = start.internAll (openNames outer ++ form.tree.names) := by
  unfold Records at hs
  cases h with
  | @closing group _ splatted _ hgroups _ =>
    rw [hs, hgroups]
    -- A closing bracket brings no name, but those of its group now belong to the form.
    cases splatted <;> rfl
  | run _ hform => rw [symbols_of_formOfRun hform, hs, SymbolTable.internAll_append]

theorem Records.step {start : SymbolTable} {s s' : State} (h : Records start s)
    (hstep : Step s s') : Records start s' := by
  cases hstep with
  | opening _ =>
    change s.symbols = start.internAll (openNames s.groups ++ [])
    rw [List.append_nil]
    exact h
  | item hcompletes =>
    unfold Records
    rw [openNames_add]
    exact hcompletes.symbols_eq h

theorem Records.steps {start : SymbolTable} {s s' : State} (h : Records start s)
    (hsteps : Steps s s') : Records start s' := by
  induction hsteps with
  | refl => exact h
  | tail _ hstep ih => exact ih.step hstep

/-! ## Readings -/

variable {reader reader' : Reader} {pos : Pos}

theorem records_start (reader : Reader) (pos : Pos) : Records reader.symbols (reader.start pos) :=
  rfl

theorem symbols_of_read {next : Pos} {form : Form}
    (h : reader.read pos = (.form form next, reader')) :
    reader'.symbols = reader.symbols.internAll form.tree.names := by
  obtain ⟨s, hsteps, hcompletes⟩ := exists_completes_of_read (s := reader.start pos) h
  exact hcompletes.symbols_eq ((records_start reader pos).steps hsteps)

/-- Nothing is interned where no form is left. -/
theorem symbols_of_finished (h : reader.read pos = (.finished, reader')) :
    reader'.symbols = reader.symbols := by
  obtain ⟨s, hsteps, hends⟩ := exists_ends (reader.start pos)
  rw [show (reader.start pos).read = (.finished, reader') from h] at hends
  have hrecords := (records_start reader pos).steps hsteps
  cases hends with
  | finished hgroups _ =>
    unfold Records at hrecords
    rw [hgroups] at hrecords
    exact hrecords

theorem symbols_of_readAllFrom {done all : List Form}
    (h : reader.readAllFrom pos done = (.ok all, reader')) :
    ∃ forms, all = done.reverse ++ forms ∧
      reader'.symbols = reader.symbols.internAll (Tree.namesOf (Form.trees forms)) := by
  fun_induction readAllFrom reader pos done with
  | case1 reader pos done form next reader₁ hread ih =>
    obtain ⟨forms, rfl, hsymbols⟩ := ih h
    refine ⟨form :: forms, ?_, ?_⟩
    · rw [List.reverse_cons, List.append_assoc, List.singleton_append]
    · rw [hsymbols, symbols_of_read hread, ← SymbolTable.internAll_append]
      rfl
  | case2 reader pos done reader₁ hread =>
    cases h
    exact ⟨[], (List.append_nil _).symm, symbols_of_finished hread⟩
  | case3 reader pos done failure reader₁ hread => cases h

/-- **Reading interns the names in the trees**, in the order of the text, and nothing else. -/
theorem symbols_of_readAll {forms : List Form} (h : reader.readAll pos = (.ok forms, reader')) :
    reader'.symbols = reader.symbols.internAll (Tree.namesOf (forms.map Form.tree)) := by
  obtain ⟨forms', hforms, hsymbols⟩ := symbols_of_readAllFrom h
  rw [List.reverse_nil, List.nil_append] at hforms
  rw [hsymbols, hforms, Form.trees_eq_map]

end Reader

end SplatLisp
