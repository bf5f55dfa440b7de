import SplatLisp.Reader.Failure
import SplatLisp.Reader.Token

/-!
# The reader

`Reader.read` takes one form from the front of a text. Groups that are still open wait on a stack,
so nesting costs no recursion: each step takes one token, and a form that is complete goes to the
innermost open group, or out if there is none. `Reader.readAll` reads on to the end of the text.
Reading interns the identifiers it meets, also those before a failure, and leaves the rest of the
text where it stopped. A form that is read has used up text (`length_of_read`).
-/

namespace SplatLisp

/-- What is left of a text, and the symbols met so far. -/
structure Reader where
  rest : List Char
  symbols : SymbolTable

/-- What one reading comes to. -/
inductive Reading where
  /-- A form, and the place directly after it. -/
  | form (form : Form) (next : Pos)
  /-- Nothing but blanks and comments was left. -/
  | finished
  | failed (failure : ReadFailure)

/-- A group whose closing bracket is still awaited. -/
structure OpenGroup where
  bracket : Bracket
  /-- The place of the opening bracket. -/
  start : Pos
  /-- The items so far, the latest first. -/
  items : List Form

namespace OpenGroup

def add (group : OpenGroup) (item : Form) : OpenGroup :=
  { group with items := item :: group.items }

/-- The form that the group becomes at its closing bracket. -/
def close (group : OpenGroup) (splatted : Bool) : Form :=
  let form := .group group.bracket group.items.reverse group.start
  if splatted then .splat form group.start else form

end OpenGroup

namespace Reader

/-- A reader at the start of a text. -/
def ofText (symbols : SymbolTable) (text : String) : Reader := ⟨text.toList, symbols⟩

/-- The part of a run before its splat mark, if it ends in one. -/
def splatTarget? (run : List Char) : Option (List Char) :=
  match run.reverse with
  | '.' :: '.' :: target => some target.reverse
  | _ => none

/-- The atom that a run without splat mark stands for. Numerals are integers, `_`, `T` and `F` are
nil, true and false, and everything else is an identifier, which is interned. -/
def atomOfRun (symbols : SymbolTable) (run : List Char) : Except ReadCause Atom × SymbolTable :=
  match run with
  | ['_'] => (.ok .nil, symbols)
  | ['T'] => (.ok (.bool true), symbols)
  | ['F'] => (.ok (.bool false), symbols)
  | _ =>
    match Decimal.toInt64? run with
    | some (some n) => (.ok (.int n), symbols)
    | some none => (.error (.invalidInteger (.ofList run)), symbols)
    | none =>
      let (symbol, symbols) := symbols.intern (.ofList run)
      (.ok (.id symbol), symbols)

/-- The form that a run at a place stands for: an atom, or a splat of one. -/
def formOfRun (symbols : SymbolTable) (run : List Char) (pos : Pos) :
    Except ReadCause Form × SymbolTable :=
  match splatTarget? run with
  | some [] => (.error .missingTarget, symbols)
  | some target =>
    let (atom, symbols) := atomOfRun symbols target
    (atom.map fun atom => .splat (.atom atom pos) pos, symbols)
  | none =>
    let (atom, symbols) := atomOfRun symbols run
    (atom.map (.atom · pos), symbols)

/-- Gives a form to the innermost open group; without one the form stands alone. -/
def place (form : Form) : List OpenGroup → Form ⊕ List OpenGroup
  | [] => .inl form
  | group :: outer => .inr (group.add form :: outer)

/-- Reads on at a cursor until the outermost of the open groups is complete. -/
def readFrom (symbols : SymbolTable) (groups : List OpenGroup) (cursor : Cursor) :
    Reading × Reader :=
  let here := cursor.skipBlanks
  match _h : here.token? with
  | none =>
    let reader := ⟨[], symbols⟩
    match groups with
    | [] => (.finished, reader)
    | group :: _ => (.failed ⟨here.pos, .unclosed group.bracket⟩, reader)
  | some (.opening bracket, next) =>
    readFrom symbols (⟨bracket, here.pos, []⟩ :: groups) next
  | some (.closing bracket splatted, next) =>
    let unexpected := (.failed ⟨here.pos, .unexpected bracket.closing⟩, ⟨here.rest, symbols⟩)
    match groups with
    | [] => unexpected
    | group :: outer =>
      if group.bracket = bracket then
        match place (group.close splatted) outer with
        | .inl form => (.form form next.pos, ⟨next.rest, symbols⟩)
        | .inr groups => readFrom symbols groups next
      else unexpected
  | some (.run run, next) =>
    match formOfRun symbols run here.pos with
    | (.error cause, symbols) => (.failed ⟨here.pos, cause⟩, ⟨next.rest, symbols⟩)
    | (.ok form, symbols) =>
      match place form groups with
      | .inl form => (.form form next.pos, ⟨next.rest, symbols⟩)
      | .inr groups => readFrom symbols groups next
termination_by cursor.rest.length
decreasing_by all_goals
  exact Nat.lt_of_lt_of_le (Cursor.length_of_token? _h) cursor.length_skipBlanks_le

/-- Reads the next form of a text whose rest starts at a place. -/
def read (reader : Reader) (pos : Pos) : Reading × Reader :=
  readFrom reader.symbols [] ⟨reader.rest, pos⟩

theorem length_of_readFrom {symbols : SymbolTable} {groups : List OpenGroup} {cursor : Cursor}
    {form : Form} {next : Pos} {reader : Reader}
    (h : readFrom symbols groups cursor = (.form form next, reader)) :
    reader.rest.length < cursor.rest.length := by
  have hstep : ∀ {cursor after : Cursor} {token : Token},
      cursor.skipBlanks.token? = some (token, after) →
        after.rest.length < cursor.rest.length := fun ht =>
    Nat.lt_of_lt_of_le (Cursor.length_of_token? ht) (Cursor.length_skipBlanks_le _)
  fun_induction readFrom symbols groups cursor <;> simp_all
  all_goals grind

/-- A form that is read has used up text. -/
theorem length_of_read {reader reader' : Reader} {pos next : Pos} {form : Form}
    (h : reader.read pos = (.form form next, reader')) :
    reader'.rest.length < reader.rest.length :=
  length_of_readFrom h

/-- Reads on to the end of a text; `forms` are those read before, the latest first. -/
def readAllFrom (reader : Reader) (pos : Pos) (forms : List Form) :
    Except ReadFailure (List Form) × Reader :=
  match _h : reader.read pos with
  | (.form form next, reader) => readAllFrom reader next (form :: forms)
  | (.finished, reader) => (.ok forms.reverse, reader)
  | (.failed failure, reader) => (.error failure, reader)
termination_by reader.rest.length
decreasing_by exact length_of_read _h

/-- Reads all forms of a text whose rest starts at a place. -/
def readAll (reader : Reader) (pos : Pos) : Except ReadFailure (List Form) × Reader :=
  readAllFrom reader pos []

end Reader

end SplatLisp
