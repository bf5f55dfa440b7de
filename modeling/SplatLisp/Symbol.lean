import SplatLisp.Text.Decimal
import Std.Data.ExtTreeMap.Lemmas

/-!
# Symbols

A symbol is a name together with the tag that a `SymbolTable` gave to it. Tags count from zero in
the order in which names are first interned, and stay (`ofTag?_intern`, `get?_intern_of_some`); so
symbols of one table are the same exactly if their tags are, and tags are all that is compared.

There are as many tags as a 32-bit number has values (`SymbolTable.limit`). Interning one more name
is refused (`SymbolTable.tryIntern`), and a text with such a name in it cannot be read. All that
interns without asking is meant for tables that are not exhausted: `SymbolTable.intern` goes on
counting, and what is done with it is what would be done as long as the table that comes of it is
within the limit.
-/

namespace SplatLisp

structure Symbol where
  name : String
  tag : Nat
deriving Inhabited

namespace Symbol

/-- Symbols are compared by tag. -/
instance : BEq Symbol := ⟨fun s t => s.tag == t.tag⟩

theorem beq_iff_tag_eq {s t : Symbol} : (s == t) = true ↔ s.tag = t.tag := by
  change (s.tag == t.tag) = true ↔ s.tag = t.tag
  exact beq_iff_eq

def inspectTag (tag : Nat) : String := "Tag(" ++ Decimal.text tag ++ ")"

def inspect (s : Symbol) : String := "Sym(" ++ s.name ++ ", " ++ Decimal.text s.tag ++ ")"

end Symbol

/-- The names interned so far; the place of a name is its tag. -/
structure SymbolTable where
  names : Array String
  /-- The tags by their names. -/
  tags : Std.ExtTreeMap String Nat
  tags_eq_some_iff : ∀ {name : String} {tag : Nat}, tags[name]? = some tag ↔ names[tag]? = some name

namespace SymbolTable

def empty : SymbolTable := ⟨#[], ∅, by simp⟩

instance : Inhabited SymbolTable := ⟨empty⟩

def size (table : SymbolTable) : Nat := table.names.size

/-- The symbol of a name, if the name has been interned. -/
def get? (table : SymbolTable) (name : String) : Option Symbol :=
  table.tags[name]?.map fun tag => ⟨name, tag⟩

/-- The symbol with a tag, if the tag is in use. -/
def ofTag? (table : SymbolTable) (tag : Nat) : Option Symbol :=
  table.names[tag]?.map fun name => ⟨name, tag⟩

/-- A new name and the next tag keep names and tags in step. -/
theorem insert_eq_some_iff (table : SymbolTable) {name : String} (h : table.tags[name]? = none)
    {other : String} {tag : Nat} :
    (table.tags.insert name table.size)[other]? = some tag ↔
      (table.names.push name)[tag]? = some other := by
  have hold := @table.tags_eq_some_iff other tag
  rw [Std.ExtTreeMap.getElem?_insert, Array.getElem?_push]
  simp only [Std.LawfulEqCmp.compare_eq_iff_eq, size]
  split
  · next heq => subst heq; grind
  · grind

def add (table : SymbolTable) (name : String) (h : table.tags[name]? = none) : SymbolTable :=
  let tag := table.size
  ⟨table.names.push name, table.tags.insert name tag, table.insert_eq_some_iff h⟩

/-- The symbol of a name, with the table that has it. A new name gets the next tag. -/
def intern (table : SymbolTable) (name : String) : Symbol × SymbolTable :=
  match h : table.tags[name]? with
  | some tag => (⟨name, tag⟩, table)
  | none => (⟨name, table.size⟩, table.add name h)

/-- How many tags there are. -/
def limit : Nat := 4294967296

/-- Whether all names of a table have tags. -/
def WithinLimit (table : SymbolTable) : Prop := table.size ≤ limit

/-- The symbol of a name, unless the name is new and no tag is left for it. -/
def tryIntern (table : SymbolTable) (name : String) : Option Symbol × SymbolTable :=
  if (table.get? name).isSome ∨ table.size < limit then
    let (symbol, table) := table.intern name
    (some symbol, table)
  else (none, table)

theorem ofTag?_eq_some_iff {table : SymbolTable} {tag : Nat} {s : Symbol} :
    table.ofTag? tag = some s ↔ table.names[tag]? = some s.name ∧ s.tag = tag := by
  unfold ofTag?
  rw [Option.map_eq_some_iff]
  constructor
  · rintro ⟨name, hname, rfl⟩
    exact ⟨hname, rfl⟩
  · rintro ⟨hname, rfl⟩
    exact ⟨s.name, hname, rfl⟩

/-- The symbol of a name is the one in use under that name. -/
theorem get?_eq_some_iff {table : SymbolTable} {name : String} {s : Symbol} :
    table.get? name = some s ↔ table.ofTag? s.tag = some s ∧ s.name = name := by
  rw [ofTag?_eq_some_iff, ← table.tags_eq_some_iff, get?, Option.map_eq_some_iff]
  constructor
  · rintro ⟨tag, htag, rfl⟩
    exact ⟨⟨htag, rfl⟩, rfl⟩
  · rintro ⟨⟨htag, -⟩, rfl⟩
    exact ⟨s.tag, htag, rfl⟩

/-- The names without a symbol are those that are not in the table. -/
theorem get?_eq_none_iff {table : SymbolTable} {name : String} :
    table.get? name = none ↔ name ∉ table.names := by
  rw [get?, Option.map_eq_none_iff, Option.eq_none_iff_forall_ne_some, Array.mem_iff_getElem?]
  simp only [ne_eq, table.tags_eq_some_iff, not_exists]

theorem intern_of_some {table : SymbolTable} {name : String} {s : Symbol}
    (h : table.get? name = some s) : table.intern name = (s, table) := by
  obtain ⟨tag, htag, rfl⟩ := Option.map_eq_some_iff.1 h
  unfold intern
  split <;> simp_all

theorem intern_of_none {table : SymbolTable} {name : String} (h : table.get? name = none) :
    table.intern name =
      (⟨name, table.size⟩, table.add name (Option.map_eq_none_iff.1 h)) := by
  have htags := Option.map_eq_none_iff.1 h
  unfold intern
  split <;> simp_all

/-- No symbol changes when another name is interned. -/
theorem ofTag?_intern {table : SymbolTable} {tag : Nat} {s : Symbol}
    (h : table.ofTag? tag = some s) (name : String) :
    (table.intern name).2.ofTag? tag = some s := by
  cases hname : table.get? name with
  | some t => rwa [intern_of_some hname]
  | none =>
    obtain ⟨hold, htag⟩ := ofTag?_eq_some_iff.1 h
    have hlt := (Array.getElem?_eq_some_iff.1 hold).1
    rw [intern_of_none hname]
    refine ofTag?_eq_some_iff.2 ⟨?_, htag⟩
    rw [add, Array.getElem?_push_lt hlt, ← Array.getElem?_eq_getElem hlt, hold]

/-- A name that has been interned keeps its symbol when another is. -/
theorem get?_intern_of_some {table : SymbolTable} {name : String} {s : Symbol}
    (h : table.get? name = some s) (other : String) :
    (table.intern other).2.get? name = some s := by
  obtain ⟨htag, hname⟩ := get?_eq_some_iff.1 h
  exact get?_eq_some_iff.2 ⟨ofTag?_intern htag other, hname⟩

/-- Interning a name gives the symbol that the name has from then on. -/
theorem get?_intern (table : SymbolTable) (name : String) :
    (table.intern name).2.get? name = some (table.intern name).1 := by
  cases hname : table.get? name with
  | some t => rwa [intern_of_some hname]
  | none => simp [intern_of_none hname, get?, add]

theorem size_intern_of_none {table : SymbolTable} {name : String} (h : table.get? name = none) :
    (table.intern name).2.size = table.size + 1 := by
  rw [intern_of_none h]
  exact Array.size_push name

/-- **Interning is what it would be without a limit** until a name is refused, and this is so
exactly if the name would have come without a tag. -/
theorem tryIntern_eq {table : SymbolTable} (h : table.WithinLimit) (name : String) :
    ((table.intern name).2.WithinLimit ∧
      table.tryIntern name = (some (table.intern name).1, (table.intern name).2)) ∨
    (¬ (table.intern name).2.WithinLimit ∧ table.tryIntern name = (none, table)) := by
  unfold tryIntern
  cases hname : table.get? name with
  | some s =>
    refine .inl ⟨?_, if_pos (.inl rfl)⟩
    rwa [intern_of_some hname]
  | none =>
    have hsize := size_intern_of_none hname
    unfold WithinLimit at h ⊢
    rw [hsize]
    by_cases hroom : table.size < limit
    · exact .inl ⟨hroom, if_pos (.inr hroom)⟩
    · refine .inr ⟨by omega, if_neg ?_⟩
      rintro (hsome | hlt)
      · cases hsome
      · exact hroom hlt

end SymbolTable

end SplatLisp
