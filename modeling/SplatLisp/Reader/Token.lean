import SplatLisp.Form
import SplatLisp.Reader.Cursor

/-!
# Tokens

The parts that a text consists of beside what `Cursor.skipBlanks` steps over: brackets, and runs of
characters up to the next delimiter. Two dots directly after a closing bracket belong to it. Every
token takes at least one character (`length_of_token?`).
-/

namespace SplatLisp

inductive Token where
  | opening (bracket : Bracket)
  /-- A closing bracket, and whether the splat mark follows it. -/
  | closing (bracket : Bracket) (splatted : Bool)
  | run (text : List Char)
deriving DecidableEq

namespace Cursor

/-- The closing bracket before the cursor as a token, with the splat mark if it comes next. -/
def closing (bracket : Bracket) : Cursor → Token × Cursor
  | ⟨'.' :: '.' :: cs, pos⟩ => (.closing bracket true, ⟨cs, (pos.advance '.').advance '.'⟩)
  | cursor => (.closing bracket false, cursor)

/-- The run that starts with a character before the cursor. -/
def run (first : Char) (cursor : Cursor) : Token × Cursor :=
  let more := cursor.rest.takeWhile (!isDelimiter ·)
  (.run (first :: more),
    ⟨cursor.rest.dropWhile (!isDelimiter ·), cursor.pos.advanceAll more⟩)

/-- The token at a cursor and the cursor after it; none at the end of the text. -/
def token? : Cursor → Option (Token × Cursor)
  | ⟨[], _⟩ => none
  | ⟨c :: cs, pos⟩ =>
    let after : Cursor := ⟨cs, pos.advance c⟩
    match c with
    | '(' => some (.opening .round, after)
    | '[' => some (.opening .square, after)
    | ')' => some (after.closing .round)
    | ']' => some (after.closing .square)
    | _ => some (after.run c)

theorem length_closing_le (bracket : Bracket) (cursor : Cursor) :
    (cursor.closing bracket).2.rest.length ≤ cursor.rest.length := by
  unfold closing
  split
  · exact Nat.le_add_right _ 2
  · exact Nat.le_refl _

theorem length_run_le (first : Char) (cursor : Cursor) :
    (cursor.run first).2.rest.length ≤ cursor.rest.length :=
  (List.dropWhile_sublist _).length_le

/-- A token leaves less of the text than there was. -/
theorem length_of_token? {cursor after : Cursor} {token : Token}
    (h : cursor.token? = some (token, after)) : after.rest.length < cursor.rest.length := by
  obtain ⟨rest, pos⟩ := cursor
  cases rest with
  | nil => cases h
  | cons c cs =>
    have hlt : ∀ {found : Token × Cursor}, found.2.rest.length ≤ cs.length →
        some found = some (token, after) → after.rest.length < (c :: cs).length := by
      intro found hle heq
      cases heq
      exact Nat.lt_succ_of_le hle
    simp only [token?] at h
    split at h
    · exact hlt (Nat.le_refl _) h
    · exact hlt (Nat.le_refl _) h
    · exact hlt (length_closing_le ..) h
    · exact hlt (length_closing_le ..) h
    · exact hlt (length_run_le ..) h

end Cursor

end SplatLisp
