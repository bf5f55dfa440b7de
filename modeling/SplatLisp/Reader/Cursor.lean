import SplatLisp.Pos
import SplatLisp.Text.Blank

/-!
# Cursors over a text

A cursor is what is left of a text and the place where it starts. `Cursor.skipBlanks` steps over
what stands between forms: blanks, commas, and comments, which start at a semicolon and end after
the next line feed. Each step moves the place along with the text (`skipBlanks_consumes`).
-/

namespace SplatLisp

/-- The rest of a text and the place of its first character. -/
structure Cursor where
  rest : List Char
  pos : Pos
deriving Inhabited

/-- Whether a character ends a run of characters: blanks, brackets, commas and semicolons do. -/
def isDelimiter (c : Char) : Bool :=
  isBlank c || c = '(' || c = ')' || c = '[' || c = ']' || c = ',' || c = ';'

namespace Cursor

/-- Steps over blanks, commas and comments; `comment` tells whether a comment is open. -/
def skipBlanksFrom (comment : Bool) : List Char → Pos → Cursor
  | [], pos => ⟨[], pos⟩
  | c :: cs, pos =>
    if comment then skipBlanksFrom (c ≠ '\n') cs (pos.advance c)
    else if c = ';' then skipBlanksFrom true cs (pos.advance c)
    else if isBlank c || c = ',' then skipBlanksFrom false cs (pos.advance c)
    else ⟨c :: cs, pos⟩

/-- The cursor at the next character that belongs to a form, or at the end of the text. -/
def skipBlanks (cursor : Cursor) : Cursor := skipBlanksFrom false cursor.rest cursor.pos

/-- What is stepped over is a first part of the text, and the place moves over all of it. -/
theorem skipBlanksFrom_consumes (comment : Bool) (cs : List Char) (pos : Pos) :
    ∃ skipped, cs = skipped ++ (skipBlanksFrom comment cs pos).rest ∧
      (skipBlanksFrom comment cs pos).pos = pos.advanceAll skipped := by
  induction cs generalizing comment pos with
  | nil => exact ⟨[], rfl, rfl⟩
  | cons c cs ih =>
    unfold skipBlanksFrom
    split
    · obtain ⟨skipped, hrest, hpos⟩ := ih (c ≠ '\n') (pos.advance c)
      exact ⟨c :: skipped, congrArg (c :: ·) hrest, hpos⟩
    · split
      · obtain ⟨skipped, hrest, hpos⟩ := ih true (pos.advance c)
        exact ⟨c :: skipped, congrArg (c :: ·) hrest, hpos⟩
      · split
        · obtain ⟨skipped, hrest, hpos⟩ := ih false (pos.advance c)
          exact ⟨c :: skipped, congrArg (c :: ·) hrest, hpos⟩
        · exact ⟨[], rfl, rfl⟩

theorem skipBlanks_consumes (cursor : Cursor) :
    ∃ skipped, cursor.rest = skipped ++ cursor.skipBlanks.rest ∧
      cursor.skipBlanks.pos = cursor.pos.advanceAll skipped :=
  skipBlanksFrom_consumes false cursor.rest cursor.pos

theorem length_skipBlanks_le (cursor : Cursor) :
    cursor.skipBlanks.rest.length ≤ cursor.rest.length := by
  obtain ⟨skipped, hrest, -⟩ := cursor.skipBlanks_consumes
  rw [hrest, List.length_append]
  exact Nat.le_add_left ..

end Cursor

end SplatLisp
