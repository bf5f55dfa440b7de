import SplatLisp.Form
import SplatLisp.Text.Blank

/-!
# The grammar of texts

What a text reads as, said without a reader. Blanks, commas and comments aside, a text splits into
lexemes: brackets, runs of characters between delimiters, and splat marks, which are the two dots
that directly follow a closing bracket (`Lexes`). A sequence of lexemes derives a sequence of trees
(`Derives`): a group derives from the lexemes between its brackets, and a run stands for an atom or
for the splat of one (`RunReads`, `Atomic`). A text reads as the trees that its lexemes derive
(`Reads`).

A `Tree` is a form without places and tags; `Form.tree` forgets them, and `Form.symbols` lists the
identifiers of a form in the order of the text.
-/

namespace SplatLisp

/-! ## Lexemes -/

/-- Whether a character ends a run. -/
def Delimits (c : Char) : Prop := isBlank c = true ∨ c ∈ ['(', ')', '[', ']', ',', ';']

instance : DecidablePred Delimits := fun _ => inferInstanceAs (Decidable (_ ∨ _))

/-- The two dots. -/
def splatMark : List Char := ['.', '.']

/-- A part of a text. -/
inductive Lexeme where
  | opening (bracket : Bracket)
  | closing (bracket : Bracket)
  /-- Two dots that directly follow a closing bracket. -/
  | mark
  | run (cs : List Char)

/-- Splitting a text into lexemes from left to right. The flag tells whether a closing bracket
stands directly before the text. -/
inductive Lexes : Bool → List Char → List Lexeme → Prop
  | done {closed : Bool} : Lexes closed [] []
  | blank {closed : Bool} {c : Char} {cs : List Char} {ls : List Lexeme}
    (hc : isBlank c = true ∨ c = ',') (h : Lexes false cs ls) : Lexes closed (c :: cs) ls
  /-- A comment up to the next line feed. -/
  | comment {closed : Bool} {body cs : List Char} {ls : List Lexeme} (hbody : '\n' ∉ body)
    (h : Lexes false cs ls) : Lexes closed (';' :: (body ++ '\n' :: cs)) ls
  /-- A comment up to the end of the text. -/
  | lastComment {closed : Bool} {body : List Char} (hbody : '\n' ∉ body) :
    Lexes closed (';' :: body) []
  | opening {closed : Bool} (bracket : Bracket) {cs : List Char} {ls : List Lexeme}
    (h : Lexes false cs ls) : Lexes closed (bracket.opening :: cs) (.opening bracket :: ls)
  | closing {closed : Bool} (bracket : Bracket) {cs : List Char} {ls : List Lexeme}
    (h : Lexes true cs ls) : Lexes closed (bracket.closing :: cs) (.closing bracket :: ls)
  /-- The dots are taken off the front of a run, of which a part may be left. -/
  | mark {cs : List Char} {ls : List Lexeme} (h : Lexes false cs ls) :
    Lexes true ('.' :: '.' :: cs) (.mark :: ls)
  /-- A run goes on to the next delimiter. -/
  | run {closed : Bool} {c : Char} {more cs : List Char} {ls : List Lexeme}
    (hrun : ∀ d ∈ c :: more, ¬ Delimits d) (hend : ∀ d ∈ cs.head?, Delimits d)
    (hmark : closed = true → ¬ splatMark <+: c :: more) (h : Lexes false cs ls) :
    Lexes closed (c :: (more ++ cs)) (.run (c :: more) :: ls)

/-! ## Trees -/

/-- A form without places and tags. -/
inductive Tree where
  | nil
  | bool (b : Bool)
  | int (n : Int64)
  | id (name : String)
  | group (bracket : Bracket) (items : List Tree)
  | splat (inner : Tree)

/-- Numerals, an optional minus sign and at least one digit, with the integers they denote. -/
inductive Numeral : List Char → Int → Prop
  | positive {digits : List Char} (hne : digits ≠ []) (hdigit : ∀ d ∈ digits, d.isDigit = true) :
    Numeral digits (Nat.ofDigitChars 10 digits 0 : Nat)
  | negative {digits : List Char} (hne : digits ≠ []) (hdigit : ∀ d ∈ digits, d.isDigit = true) :
    Numeral ('-' :: digits) (-(Nat.ofDigitChars 10 digits 0 : Nat))

/-- Characters that are neither a literal nor a numeral. -/
structure IsName (cs : List Char) : Prop where
  not_literal : cs ∉ [['_'], ['T'], ['F']]
  not_numeral : ∀ n, ¬ Numeral cs n

/-- What characters without a splat mark stand for. Numerals out of range stand for nothing. -/
inductive Atomic : List Char → Tree → Prop
  | nil : Atomic ['_'] .nil
  | true : Atomic ['T'] (.bool true)
  | false : Atomic ['F'] (.bool false)
  | int {cs : List Char} (n : Int64) (h : Numeral cs n.toInt) : Atomic cs (.int n)
  | id {cs : List Char} (h : IsName cs) : Atomic cs (.id (.ofList cs))

/-- What a run stands for; a mark alone stands for nothing. -/
inductive RunReads : List Char → Tree → Prop
  | atom {cs : List Char} {t : Tree} (hmark : ¬ splatMark <:+ cs) (h : Atomic cs t) : RunReads cs t
  | splat {cs : List Char} {t : Tree} (hne : cs ≠ []) (h : Atomic cs t) :
    RunReads (cs ++ splatMark) (.splat t)

/-! ## Derivations -/

/-- The trees that lexemes derive. -/
inductive Derives : List Lexeme → List Tree → Prop
  | nil : Derives [] []
  | run {cs : List Char} {t : Tree} {ls : List Lexeme} {ts : List Tree} (hrun : RunReads cs t)
    (h : Derives ls ts) : Derives (.run cs :: ls) (t :: ts)
  | group (bracket : Bracket) {inner ls : List Lexeme} {items ts : List Tree}
    (hinner : Derives inner items) (h : Derives ls ts) :
    Derives (.opening bracket :: (inner ++ .closing bracket :: ls)) (.group bracket items :: ts)
  | splatted (bracket : Bracket) {inner ls : List Lexeme} {items ts : List Tree}
    (hinner : Derives inner items) (h : Derives ls ts) :
    Derives (.opening bracket :: (inner ++ .closing bracket :: .mark :: ls))
      (.splat (.group bracket items) :: ts)

/-- The trees that a text reads as. -/
def Reads (text : List Char) (ts : List Tree) : Prop := ∃ ls, Lexes false text ls ∧ Derives ls ts

theorem Derives.append {ls ms : List Lexeme} {ts us : List Tree} (h : Derives ls ts)
    (h' : Derives ms us) : Derives (ls ++ ms) (ts ++ us) := by
  induction h with
  | nil => exact h'
  | run hrun _ ih => exact .run hrun ih
  | group bracket hinner _ _ ih =>
    rw [List.cons_append, List.append_assoc]
    exact .group bracket hinner ih
  | splatted bracket hinner _ _ ih =>
    rw [List.cons_append, List.append_assoc]
    exact .splatted bracket hinner ih

/-! ## Forms as trees -/

/-- An atom without its tag. -/
def Atom.tree : Atom → Tree
  | nil => .nil
  | bool b => .bool b
  | int n => .int n
  | id symbol => .id symbol.name

/-- The identifier that an atom is, if it is one. -/
def Atom.symbols : Atom → List Symbol
  | id symbol => [symbol]
  | _ => []

namespace Form

mutual

/-- The form without places and tags. -/
def tree : Form → Tree
  | atom a _ => a.tree
  | group bracket items _ => .group bracket (trees items)
  | splat inner _ => .splat inner.tree

/-- Forms without places and tags. -/
def trees : List Form → List Tree
  | [] => []
  | item :: items => item.tree :: trees items

end

mutual

/-- The identifiers of a form, in the order of the text. -/
def symbols : Form → List Symbol
  | atom a _ => a.symbols
  | group _ items _ => itemSymbols items
  | splat inner _ => inner.symbols

/-- The identifiers of forms, in the order of the text. -/
def itemSymbols : List Form → List Symbol
  | [] => []
  | item :: items => item.symbols ++ itemSymbols items

end

theorem trees_eq_map (items : List Form) : trees items = items.map tree := by
  induction items with
  | nil => rfl
  | cons item items ih => rw [trees, ih, List.map_cons]

theorem itemSymbols_eq_flatMap (items : List Form) : itemSymbols items = items.flatMap symbols := by
  induction items with
  | nil => rfl
  | cons item items ih => rw [itemSymbols, ih, List.flatMap_cons]

end Form

end SplatLisp
