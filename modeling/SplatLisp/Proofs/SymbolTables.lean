import Mathlib.Logic.ExistsUnique
import SplatLisp.Proofs.Mentions

/-!
# Symbols over the life of a table

Names and tags of a table correspond one to one, whatever has been interned, looked up or read
before: the tags in use are those below the size, and a symbol can be told by its name as well as by
its tag (`SymbolTable.Exact`). A table only ever grows at its end, by names that it does not have
yet, each where it comes first (`SymbolTable.missing`). Interning grows it by one name at most, a
reading by the names that it meets, however it ends (`SymbolTable.Grows`), and nothing else by any.
-/

namespace SplatLisp

/-- What can be asked of a symbol table. -/
inductive SymbolOp where
  | intern (name : String)
  | tryIntern (name : String)
  | get (name : String)
  | ofTag (tag : Nat)
  | size
  /-- One form is read from what is left of a text. -/
  | read (pos : Pos) (rest : List Char)
  /-- All forms are read from what is left of a text. -/
  | readAll (pos : Pos) (rest : List Char)

inductive SymbolAnswer where
  | symbol (s : Symbol)
  | found (s : Option Symbol)
  | size (n : Nat)
  | reading (reading : Reading)
  | forms (outcome : Except ReadFailure (List Form))

namespace SymbolTable

variable {table : SymbolTable} {s t : Symbol} {name : String}

def perform (table : SymbolTable) : SymbolOp → SymbolAnswer × SymbolTable
  | .intern name =>
    let (symbol, table) := table.intern name
    (.symbol symbol, table)
  | .tryIntern name =>
    let (found, table) := table.tryIntern name
    (.found found, table)
  | .get name => (.found (table.get? name), table)
  | .ofTag tag => (.found (table.ofTag? tag), table)
  | .size => (.size table.size, table)
  | .read pos rest =>
    let (reading, reader) := (Reader.mk rest table).read pos
    (.reading reading, reader.symbols)
  | .readAll pos rest =>
    let (outcome, reader) := (Reader.mk rest table).readAll pos
    (.forms outcome, reader.symbols)

/-- Performs operations in order and collects the answers. -/
def run (table : SymbolTable) : List SymbolOp → List SymbolAnswer × SymbolTable
  | [] => ([], table)
  | op :: ops =>
    let (answer, table) := table.perform op
    let (answers, table) := table.run ops
    (answer :: answers, table)

/-! ## The symbols of a table -/

/-- Whether a table has a symbol: its name is at the place of its tag. -/
def Has (table : SymbolTable) (s : Symbol) : Prop := table.names[s.tag]? = some s.name

theorem has_of_ofTag? {tag : Nat} (h : table.ofTag? tag = some s) : table.Has s ∧ s.tag = tag := by
  obtain ⟨hname, rfl⟩ := ofTag?_eq_some_iff.1 h
  exact ⟨hname, rfl⟩

theorem Has.ofTag? (h : table.Has s) : table.ofTag? s.tag = some s :=
  ofTag?_eq_some_iff.2 ⟨h, rfl⟩

theorem Has.get? (h : table.Has s) : table.get? s.name = some s :=
  get?_eq_some_iff.2 ⟨h.ofTag?, rfl⟩

theorem Has.eq_of_tag (hs : table.Has s) (ht : table.Has t) (h : s.tag = t.tag) : s = t := by
  have hfound := hs.ofTag?
  rw [h, ht.ofTag?] at hfound
  exact (Option.some.inj hfound).symm

theorem Has.eq_of_name (hs : table.Has s) (ht : table.Has t) (h : s.name = t.name) : s = t := by
  have hfound := hs.get?
  rw [h, ht.get?] at hfound
  exact (Option.some.inj hfound).symm

/-- Names and tags of a table correspond one to one, and both find the symbol. -/
structure Exact (table : SymbolTable) : Prop where
  /-- The tags in use are those below the size. -/
  tags : ∀ tag, (∃ s, table.Has s ∧ s.tag = tag) ↔ tag < table.size
  ofTag : ∀ tag s, table.ofTag? tag = some s ↔
    tag < table.size ∧ (table.Has s ∧ s.tag = tag) ∧ ∀ t, table.Has t → t.tag = tag → t = s
  named : ∀ name s, table.get? name = some s ↔
    (table.Has s ∧ s.name = name) ∧ ∀ t, table.Has t → t.name = name → t = s
  same : ∀ s t, table.Has s → table.Has t → ((s == t) = true ↔ s.name = t.name)

theorem exact (table : SymbolTable) : table.Exact where
  tags := by
    intro tag
    constructor
    · rintro ⟨s, hs, rfl⟩
      exact (Array.getElem?_eq_some_iff.1 hs).1
    · intro htag
      exact ⟨⟨table.names[tag], tag⟩, Array.getElem?_eq_getElem htag, rfl⟩
  ofTag := by
    intro tag s
    constructor
    · intro hs
      obtain ⟨hhas, rfl⟩ := has_of_ofTag? hs
      have hlt := (Array.getElem?_eq_some_iff.1 hhas).1
      exact ⟨hlt, ⟨hhas, rfl⟩, fun t ht htag => ht.eq_of_tag hhas htag⟩
    · rintro ⟨-, ⟨hhas, rfl⟩, -⟩
      exact hhas.ofTag?
  named := by
    intro name s
    constructor
    · intro hs
      obtain ⟨htag, rfl⟩ := get?_eq_some_iff.1 hs
      have hhas := (has_of_ofTag? htag).1
      exact ⟨⟨hhas, rfl⟩, fun t ht hname => ht.eq_of_name hhas hname⟩
    · rintro ⟨⟨hhas, rfl⟩, -⟩
      exact hhas.get?
  same := by
    intro s t hs ht
    rw [Symbol.beq_iff_tag_eq]
    exact ⟨fun h => congrArg Symbol.name (hs.eq_of_tag ht h),
      fun h => congrArg Symbol.tag (hs.eq_of_name ht h)⟩

/-! ## Names that are new -/

/-- The names that a table does not have yet, each where it comes first. -/
def missing (table : SymbolTable) (names : List String) : List String :=
  (names.filter (· ∉ table.names)).eraseDups

theorem intern_of_mem (h : name ∈ table.names) : (table.intern name).2 = table := by
  cases hname : table.get? name with
  | some s => rw [intern_of_some hname]
  | none => exact absurd h (get?_eq_none_iff.1 hname)

theorem names_intern_of_not_mem (h : name ∉ table.names) :
    (table.intern name).2.names = table.names.push name := by
  rw [intern_of_none (get?_eq_none_iff.2 h)]
  rfl

/-- A name that is new is missing only once. -/
theorem missing_cons (table : SymbolTable) (name : String) (names : List String) :
    table.missing (name :: names) =
      table.missing [name] ++ (table.intern name).2.missing names := by
  unfold missing
  by_cases h : name ∈ table.names
  · rw [intern_of_mem h, List.filter_cons_of_neg (by simpa using h),
      List.filter_cons_of_neg (by simpa using h)]
    rfl
  · rw [List.filter_cons_of_pos (by simpa using h), List.filter_cons_of_pos (by simpa using h),
      List.eraseDups_cons, List.filter_filter, names_intern_of_not_mem h]
    have hpush : ∀ other ∈ names, (!other == name && decide (other ∉ table.names)) =
        decide (other ∉ table.names.push name) := by
      intro other _
      by_cases heq : other = name <;> simp [Array.mem_push, heq]
    rw [List.filter_congr hpush]
    rfl

theorem names_intern (table : SymbolTable) (name : String) :
    (table.intern name).2.names.toList = table.names.toList ++ table.missing [name] := by
  unfold missing
  by_cases h : name ∈ table.names
  · rw [intern_of_mem h, List.filter_cons_of_neg (by simpa using h)]
    exact (List.append_nil _).symm
  · rw [names_intern_of_not_mem h, List.filter_cons_of_pos (by simpa using h), Array.toList_push]
    rfl

theorem mem_names_intern_iff {other : String} :
    other ∈ (table.intern name).2.names ↔ other ∈ table.names ∨ other = name := by
  by_cases h : name ∈ table.names
  · rw [intern_of_mem h, or_iff_left_of_imp]
    rintro rfl
    exact h
  · rw [names_intern_of_not_mem h, Array.mem_push]

theorem internAll_of_forall_mem {names : List String} (h : ∀ name ∈ names, name ∈ table.names) :
    table.internAll names = table := by
  induction names with
  | nil => rfl
  | cons name names ih =>
    obtain ⟨hname, hnames⟩ := List.forall_mem_cons.1 h
    change (table.intern name).2.internAll names = table
    rw [intern_of_mem hname, ih hnames]

/-- A table that has all of some names, but for one name among them, gets that one. -/
theorem internAll_eq_intern {names : List String}
    (h : ∀ other ∈ names, other ∈ table.names ∨ other = name) (hname : name ∈ names) :
    table.internAll names = (table.intern name).2 := by
  induction names with
  | nil => cases hname
  | cons first names ih =>
    obtain ⟨hfirst, hmore⟩ := List.forall_mem_cons.1 h
    change (table.intern first).2.internAll names = _
    by_cases heq : first = name
    · subst heq
      exact internAll_of_forall_mem fun other hother => mem_names_intern_iff.2 (hmore other hother)
    · have hold := intern_of_mem (hfirst.resolve_right heq)
      rw [hold]
      exact ih hmore ((List.mem_cons.1 hname).resolve_left (Ne.symm heq))

theorem names_internAll (table : SymbolTable) (names : List String) :
    (table.internAll names).names.toList = table.names.toList ++ table.missing names := by
  induction names generalizing table with
  | nil => exact (List.append_nil _).symm
  | cons name names ih =>
    rw [missing_cons, ← List.append_assoc, ← names_intern]
    exact ih (table.intern name).2

/-! ## Operations -/

/-- Whether what a reading of a text has interned are the names that it has met: those of the
lexemes between the text and what the reading has left of it. How it has ended goes with these
lexemes and this rest. -/
def Interns (table : SymbolTable) (text : List Char) (after : Reader)
    (Ended : List Char → List Lexeme → Prop) : Prop :=
  ∃! ls, LexesTo text ls after.rest ∧ Ended after.rest ls ∧ after.symbols.names.toList =
    table.names.toList ++ table.missing (ls.flatMap Lexeme.names)

theorem interns_of_met {text : List Char} {after : Reader} {Ended : List Char → List Lexeme → Prop}
    {ls : List Lexeme} (hls : LexesTo text ls after.rest) (hended : Ended after.rest ls)
    (hsymbols : after.symbols = table.internAll (ls.flatMap Lexeme.names)) :
    table.Interns text after Ended := by
  refine ⟨ls, ⟨hls, hended, ?_⟩, fun ms hms => hms.1.unique hls⟩
  rw [hsymbols, names_internAll]

theorem interns_read (table : SymbolTable) (pos : Pos) (text : List Char) :
    table.Interns text ((Reader.mk text table).read pos).2 fun rest ls =>
      Reading.Behind rest ls ((Reader.mk text table).read pos).1 := by
  obtain ⟨ls, hls, hsymbols, hbehind⟩ := Reader.met_of_read ⟨text, table⟩ pos
  exact interns_of_met hls hbehind hsymbols

theorem interns_readAll (table : SymbolTable) (pos : Pos) (text : List Char) :
    table.Interns text ((Reader.mk text table).readAll pos).2 fun rest ls =>
      AllBehind rest ls ((Reader.mk text table).readAll pos).1 := by
  obtain ⟨ls, hls, hsymbols, hbehind⟩ := Reader.met_of_readAllFrom ⟨text, table⟩ pos []
  exact interns_of_met hls (hbehind [] .nil) hsymbols

theorem exists_names_tryIntern (table : SymbolTable) (name : String) :
    ∃ more, (table.tryIntern name).2.names.toList = table.names.toList ++ more := by
  unfold tryIntern
  split
  · exact ⟨_, table.names_intern name⟩
  · exact ⟨[], (List.append_nil _).symm⟩

/-- An operation adds names at the end, if it adds any. -/
theorem exists_names_perform (table : SymbolTable) (op : SymbolOp) :
    ∃ more, (table.perform op).2.names.toList = table.names.toList ++ more := by
  cases op with
  | intern name => exact ⟨_, table.names_intern name⟩
  | tryIntern name => exact table.exists_names_tryIntern name
  | read pos rest =>
    obtain ⟨ls, ⟨-, -, hnames⟩, -⟩ := table.interns_read pos rest
    exact ⟨_, hnames⟩
  | readAll pos rest =>
    obtain ⟨ls, ⟨-, -, hnames⟩, -⟩ := table.interns_readAll pos rest
    exact ⟨_, hnames⟩
  | _ => exact ⟨[], (List.append_nil _).symm⟩

theorem exists_names_run (table : SymbolTable) (ops : List SymbolOp) :
    ∃ more, (table.run ops).2.names.toList = table.names.toList ++ more := by
  induction ops generalizing table with
  | nil => exact ⟨[], (List.append_nil _).symm⟩
  | cons op ops ih =>
    obtain ⟨first, hfirst⟩ := table.exists_names_perform op
    obtain ⟨more, hmore⟩ := ih (table.perform op).2
    refine ⟨first ++ more, ?_⟩
    rw [← List.append_assoc, ← hfirst]
    exact hmore

/-- A symbol stays when names are added at the end. -/
theorem Has.append {later : SymbolTable} {more : List String} (h : table.Has s)
    (hlater : later.names.toList = table.names.toList ++ more) : later.Has s := by
  have hlt : s.tag < table.names.toList.length := (Array.getElem?_eq_some_iff.1 h).1
  unfold Has at h ⊢
  rw [← Array.getElem?_toList] at h ⊢
  rw [hlater, List.getElem?_append_left hlt, h]

/-- What operations do to a table. -/
structure Grows (table : SymbolTable) : Prop where
  intern : ∀ name, (table.intern name).2.Has (table.intern name).1 ∧
    (table.intern name).1.name = name ∧
      (table.intern name).2.names.toList = table.names.toList ++ table.missing [name]
  /-- A name is refused exactly if it would have come without a tag, and nothing changes then. -/
  tryIntern : ∀ name, table.WithinLimit →
    ((table.intern name).2.WithinLimit ∧
      table.tryIntern name = (some (table.intern name).1, (table.intern name).2)) ∨
    (¬ (table.intern name).2.WithinLimit ∧ table.tryIntern name = (none, table))
  get : ∀ name, (table.perform (.get name)).2 = table
  ofTag : ∀ tag, (table.perform (.ofTag tag)).2 = table
  size : (table.perform .size).2 = table
  read : ∀ pos text, table.Interns text ((Reader.mk text table).read pos).2 fun rest ls =>
    Reading.Behind rest ls ((Reader.mk text table).read pos).1
  readAll : ∀ pos text, table.Interns text ((Reader.mk text table).readAll pos).2 fun rest ls =>
    AllBehind rest ls ((Reader.mk text table).readAll pos).1
  /-- All symbols stay as they are. -/
  keeps : ∀ ops s, table.Has s → (table.run ops).2.Has s

theorem grows (table : SymbolTable) : table.Grows where
  intern name := by
    obtain ⟨htag, hname⟩ := get?_eq_some_iff.1 (table.get?_intern name)
    exact ⟨(has_of_ofTag? htag).1, hname, table.names_intern name⟩
  tryIntern name hlimit := tryIntern_eq hlimit name
  get _ := rfl
  ofTag _ := rfl
  size := rfl
  read := table.interns_read
  readAll := table.interns_readAll
  keeps := by
    intro ops s hs
    obtain ⟨more, hmore⟩ := table.exists_names_run ops
    exact hs.append hmore

/-- **Interning stays a bijection, and only identifiers drive it.** At any time of any run, names
and tags of the table correspond one to one, a reading adds the names that it meets before it ends,
with a form, with a failure or at the end of the text, and that are new, in the order of the text,
and no symbol ever changes. -/
theorem run_exact (table : SymbolTable) (ops : List SymbolOp) :
    (table.run ops).2.Exact ∧ (table.run ops).2.Grows :=
  ⟨exact _, grows _⟩

end SymbolTable

end SplatLisp
