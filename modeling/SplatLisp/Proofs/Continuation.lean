import SplatLisp.Proofs.Layout

/-!
# Texts that go on behind a line feed

A text is read; then it is read once more, with a line feed and more text behind it. Nothing at its
end takes in what follows: a run ends at a line feed, a comment with it, and a closing bracket finds
no mark there. So each form that is read the first time is read the second time as well, at the same
place and with the same symbols (`Reader.read_followedBy`). Where the first reading comes to the end
of the text, the second one is the reading of what follows the line feed
(`Reader.read_followedBy_of_finished`). Hence reading all forms of the longer text is reading those
of the first part and then those of the other (`Reader.readAllFrom_followedBy`).
-/

namespace SplatLisp

variable {more : List Char}

/-! ## Cursors -/

namespace Cursor

/-- The cursor, when a line feed and more text follow behind its text. -/
def followedBy (cursor : Cursor) (more : List Char) : Cursor :=
  { cursor with rest := cursor.rest ++ '\n' :: more }

/-- What is stepped over ends before the line feed, or right behind it if nothing but blanks and
comments is there. -/
theorem skipBlanksFrom_lineFeed (more : List Char) (comment : Bool) (cs : List Char) (pos : Pos) :
    skipBlanksFrom comment (cs ++ '\n' :: more) pos =
      if (skipBlanksFrom comment cs pos).rest = [] then
        skipBlanksFrom false more ((pos.advanceAll cs).advance '\n')
      else (skipBlanksFrom comment cs pos).followedBy more := by
  induction cs generalizing comment pos with
  | nil => cases comment <;> rfl
  | cons c cs ih =>
    rw [List.cons_append, skipBlanksFrom, skipBlanksFrom, Pos.advanceAll_cons]
    split
    · exact ih _ _
    · split
      · exact ih _ _
      · split
        · exact ih _ _
        · rw [if_neg (List.cons_ne_nil c cs)]
          rfl

theorem skipBlanks_followedBy {cursor : Cursor} (h : cursor.skipBlanks.rest ≠ []) :
    (cursor.followedBy more).skipBlanks = cursor.skipBlanks.followedBy more := by
  rw [skipBlanks, followedBy, skipBlanksFrom_lineFeed]
  exact if_neg h

theorem skipBlanks_followedBy_of_end {cursor : Cursor} (h : cursor.skipBlanks.rest = []) :
    (cursor.followedBy more).skipBlanks =
      skipBlanks ⟨more, (cursor.pos.advanceAll cursor.rest).advance '\n'⟩ := by
  rw [skipBlanks, followedBy, skipBlanksFrom_lineFeed]
  exact if_pos h

/-- A line feed is no part of a mark. -/
theorem closing_followedBy (more : List Char) (bracket : Bracket) (cursor : Cursor) :
    (cursor.followedBy more).closing bracket =
      ((cursor.closing bracket).1, (cursor.closing bracket).2.followedBy more) := by
  obtain ⟨cs, pos⟩ := cursor
  rcases closing_eq bracket cs pos with ⟨rest, next, rfl, -⟩ | ⟨hmark, heq⟩
  · rfl
  · rw [heq]
    rcases closing_eq bracket (cs ++ '\n' :: more) pos with ⟨rest, next, hrest, -⟩ | ⟨-, heq'⟩
    · refine absurd ?_ hmark
      cases cs with
      | nil => cases hrest
      | cons a cs =>
        cases cs with
        | nil => cases hrest
        | cons b cs =>
          cases hrest
          exact splatMark_isPrefix_iff.2 ⟨cs, rfl⟩
    · exact heq'

/-- A run ends at a line feed. -/
theorem run_followedBy (more : List Char) (first : Char) (cursor : Cursor) :
    (cursor.followedBy more).run first =
      ((cursor.run first).1, (cursor.run first).2.followedBy more) := by
  obtain ⟨cs, pos⟩ := cursor
  let inside := fun d => !isDelimiter d
  have hfeed : ¬ inside '\n' = true := by decide
  have htake : (cs ++ '\n' :: more).takeWhile inside = cs.takeWhile inside := by
    rw [List.takeWhile_append, List.takeWhile_cons_of_neg hfeed, List.append_nil]
    split
    · next hlength => exact ((List.takeWhile_prefix _).eq_of_length hlength).symm
    · rfl
  have hdrop : (cs ++ '\n' :: more).dropWhile inside = cs.dropWhile inside ++ '\n' :: more := by
    rw [List.dropWhile_append, List.dropWhile_cons_of_neg hfeed]
    split
    · next hempty => rw [List.isEmpty_iff.1 hempty, List.nil_append]
    · rfl
  unfold run followedBy
  rw [htake, hdrop]

/-- The token at a cursor is there as well when the text goes on. -/
theorem token?_followedBy {cursor next : Cursor} {token : Token}
    (hskip : ∀ c ∈ cursor.rest.head?, ¬ Skips c) (h : cursor.token? = some (token, next)) :
    (cursor.followedBy more).token? = some (token, next.followedBy more) := by
  obtain ⟨cs, pos⟩ := cursor
  cases cs with
  | nil => cases h
  | cons c cs =>
    rcases bracket_or_run (hskip c rfl) with ⟨bracket, rfl⟩ | ⟨bracket, rfl⟩ | hc
    · rw [token?_opening] at h
      cases h
      exact token?_opening bracket _ pos
    · rw [token?_closing] at h
      have hclosing := closing_followedBy more bracket ⟨cs, pos.advance bracket.closing⟩
      rw [Option.some.inj h] at hclosing
      exact (token?_closing bracket _ pos).trans (congrArg some hclosing)
    · rw [token?_run hc] at h
      have hrun := run_followedBy more c ⟨cs, pos.advance c⟩
      rw [Option.some.inj h] at hrun
      exact (token?_run hc _ pos).trans (congrArg some hrun)

end Cursor

namespace Reader

/-! ## Steps -/

/-- The state, when a line feed and more text follow behind the text. -/
def State.followedBy (s : State) (more : List Char) : State :=
  { s with cursor := s.cursor.followedBy more }

/-- The reader, when a line feed and more text follow behind the text. -/
def followedBy (reader : Reader) (more : List Char) : Reader :=
  { reader with rest := reader.rest ++ '\n' :: more }

section Steps

variable {s s' : State}

/-- The next token stays the next one. -/
theorem State.next_followedBy (more : List Char) {token : Token} {next : Cursor}
    (ht : s.here.token? = some (token, next)) :
    (s.followedBy more).here = s.here.followedBy more ∧
      (s.followedBy more).here.token? = some (token, next.followedBy more) := by
  have hne : s.here.rest ≠ [] := by
    intro hnil
    have hlt := Cursor.length_of_token? ht
    rw [hnil] at hlt
    exact Nat.not_lt_zero _ hlt
  have hhere : (s.followedBy more).here = s.here.followedBy more :=
    Cursor.skipBlanks_followedBy hne
  refine ⟨hhere, ?_⟩
  rw [hhere]
  exact Cursor.token?_followedBy s.cursor.not_skips_skipBlanks ht

theorem Completes.followedBy {form : Form} {outer : List OpenGroup} {symbols : SymbolTable}
    {next : Cursor} (h : Completes s form outer symbols next) :
    Completes (s.followedBy more) form outer symbols (next.followedBy more) := by
  cases h with
  | closing hgroups ht => exact .closing hgroups (State.next_followedBy more ht).2
  | run ht hform =>
    obtain ⟨hhere, ht'⟩ := State.next_followedBy more ht
    refine .run ht' ?_
    rw [hhere]
    exact hform

theorem Step.followedBy (h : Step s s') : Step (s.followedBy more) (s'.followedBy more) := by
  cases h with
  | @opening bracket next ht =>
    obtain ⟨hhere, ht'⟩ := State.next_followedBy more ht
    have hpos : (s.followedBy more).here.pos = s.here.pos := by rw [hhere]; rfl
    have hstep := Step.opening ht'
    rw [hpos] at hstep
    exact hstep
  | item h => exact .item h.followedBy

theorem Steps.followedBy (more : List Char) (h : Steps s s') :
    Steps (s.followedBy more) (s'.followedBy more) := by
  induction h with
  | refl => exact .refl
  | tail _ hstep ih => exact ih.tail hstep.followedBy

/-- A step leads into a group. -/
theorem Step.groups_ne_nil (h : Step s s') : s'.groups ≠ [] := by
  cases h <;> exact List.cons_ne_nil _ _

/-- Outside of all groups no step has been made. -/
theorem Steps.eq_of_groups (h : Steps s s') (hgroups : s'.groups = []) : s' = s := by
  cases h with
  | refl => rfl
  | tail _ hstep => exact absurd hgroups hstep.groups_ne_nil

/-- What is stepped over first has no say in what is read. -/
theorem read_eq_of_skipBlanks {symbols : SymbolTable} {groups : List OpenGroup}
    {cursor cursor' : Cursor} (h : cursor.skipBlanks = cursor'.skipBlanks) :
    readFrom symbols groups cursor = readFrom symbols groups cursor' := by
  rw [readFrom, readFrom, h]

end Steps

/-! ## Readings -/

variable {reader last : Reader} {pos next : Pos} {form : Form}

theorem read_followedBy (h : reader.read pos = (.form form next, last)) :
    (reader.followedBy more).read pos = (.form form next, last.followedBy more) := by
  obtain ⟨s, hsteps, hcompletes⟩ := exists_completes_of_read (s := reader.start pos) h
  have hread := (read_of_steps (Steps.followedBy more hsteps)).trans
    (read_of_completes hcompletes.followedBy)
  exact hread

/-- At its end, the text goes on behind the line feed. -/
theorem read_followedBy_of_finished (h : reader.read pos = (.finished, last)) :
    (reader.followedBy more).read pos =
      Reader.read ⟨more, last.symbols⟩ ((pos.advanceAll reader.rest).advance '\n') := by
  obtain ⟨s, hsteps, hends⟩ := exists_ends (reader.start pos)
  rw [show (reader.start pos).read = (.finished, last) from h] at hends
  cases hends with
  | finished hgroups ht =>
    obtain rfl := Steps.eq_of_groups hsteps hgroups
    have hrest := Cursor.rest_eq_nil_of_token? ht
    exact read_eq_of_skipBlanks (Cursor.skipBlanks_followedBy_of_end hrest)

/-- The place behind a form is that of what is left. -/
theorem advanceAll_of_read (h : reader.read pos = (.form form next, last)) :
    next.advanceAll last.rest = pos.advanceAll reader.rest := by
  let source : Source := ⟨reader.rest, pos⟩
  have hplace : ∀ rest, rest <:+ source.text →
      (source.placeOf rest).advanceAll rest = source.placeOf [] := by
    intro rest hsuffix
    rw [← List.append_nil rest] at hsuffix
    rw [Source.placeOf_append hsuffix, List.append_nil]
  have hgives : source.Gives reader.rest (reader.read pos).1 (reader.read pos).2.rest :=
    Source.gives_of_read List.suffix_rfl source.placeOf_text.symm
  rw [h] at hgives
  obtain ⟨hlayout, hnext⟩ := hgives.layout
  change source.Layout reader.rest [form] last.rest at hlayout
  change next = source.placeOf last.rest at hnext
  rw [hnext, hplace last.rest hlayout.suffix, ← hplace reader.rest List.suffix_rfl]
  exact congrArg (·.advanceAll reader.rest) source.placeOf_text

/-- **Reading a text that goes on** behind a line feed is reading it to its end, and then reading
what follows from the place behind the line feed. -/
theorem readAllFrom_followedBy {done forms : List Form}
    (h : reader.readAllFrom pos done = (.ok forms, last)) :
    (reader.followedBy more).readAllFrom pos done =
      readAllFrom ⟨more, last.symbols⟩ ((pos.advanceAll reader.rest).advance '\n')
        forms.reverse := by
  fun_induction readAllFrom reader pos done with
  | case1 reader pos done form next mid hread ih =>
    rw [readAllFrom_eq, read_followedBy hread, ← advanceAll_of_read hread]
    exact ih h
  | case2 reader pos done mid hread =>
    cases h
    rw [readAllFrom_eq, read_followedBy_of_finished hread, readAllFrom_eq, List.reverse_reverse]
  | case3 reader pos done failure mid hread => cases h

/-- Forms read before come first. -/
theorem readAllFrom_append (reader : Reader) (pos : Pos) (done front : List Form) :
    reader.readAllFrom pos (done ++ front) =
      ((reader.readAllFrom pos done).1.map (front.reverse ++ ·),
        (reader.readAllFrom pos done).2) := by
  fun_induction readAllFrom reader pos done with
  | case1 reader pos done form next mid hread ih =>
    rw [readAllFrom_eq, hread]
    exact ih
  | case2 reader pos done mid hread =>
    rw [readAllFrom_eq, hread, List.reverse_append]
    rfl
  | case3 reader pos done failure mid hread =>
    rw [readAllFrom_eq, hread]
    rfl

end Reader

end SplatLisp
