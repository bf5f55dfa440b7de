import Mathlib.Data.String.Basic
import SplatLisp.Proofs.Lexing
import SplatLisp.Proofs.ReaderSteps

/-!
# Reading by byte offsets

A reader that holds a text as a whole and an offset into its bytes looks at the rest of the text by
slicing it, which is possible at the boundaries of characters alone
(`sliceFrom?_eq_some_iff`). Here the reader is written in this way, and whatever it slices elsewhere
makes it fail (`Offsets.readAll?`).

It never fails: an offset is moved over whole characters of the text, so that it stands in front of
a rest of the text at any time (`Offsets.At`), and the reader does what reading the rest itself does
(`Offsets.readAll?_eq`).
-/

namespace SplatLisp

/-! ## Slices -/

/-- What is left of a text from a byte offset on. There is no such rest beyond the end of the text,
or inside of a character. -/
def sliceFrom? (text : List Char) (offset : Nat) : Option (List Char) :=
  if offset = 0 then some text
  else match text with
    | [] => none
    | c :: cs => if c.utf8Size ≤ offset then sliceFrom? cs (offset - c.utf8Size) else none

/-- The part of a text between two byte offsets. -/
def slice? (text : List Char) (start stop : Nat) : Option (List Char) := do
  let front ← sliceFrom? text start
  let back ← sliceFrom? text stop
  if start ≤ stop then some (front.take (front.length - back.length)) else none

theorem sliceFrom?_eq_some_iff {text rest : List Char} {offset : Nat} :
    sliceFrom? text offset = some rest ↔
      ∃ taken, text = taken ++ rest ∧ String.utf8Len taken = offset := by
  induction text generalizing offset with
  | nil =>
    unfold sliceFrom?
    by_cases hzero : offset = 0
    · simp [hzero]
    · have hne : 0 ≠ offset := Ne.symm hzero
      simp [hzero, hne]
  | cons c cs ih =>
    have hsize := c.utf8Size_pos
    have hcons : (∃ taken, c :: cs = taken ++ rest ∧ String.utf8Len taken = offset) ↔
        (offset = 0 ∧ c :: cs = rest) ∨
          ∃ taken, cs = taken ++ rest ∧ String.utf8Len taken + c.utf8Size = offset := by
      constructor
      · rintro ⟨taken, htext, hoffset⟩
        cases taken with
        | nil => exact .inl ⟨hoffset.symm, htext⟩
        | cons d taken =>
          obtain ⟨rfl, hmore⟩ := List.cons.inj htext
          exact .inr ⟨taken, hmore, by simpa using hoffset⟩
      · rintro (⟨rfl, rfl⟩ | ⟨taken, rfl, rfl⟩)
        · exact ⟨[], rfl, rfl⟩
        · exact ⟨c :: taken, rfl, by simp⟩
    rw [hcons]
    unfold sliceFrom?
    by_cases hzero : offset = 0
    · subst hzero
      simp
      omega
    by_cases hle : c.utf8Size ≤ offset
    · have hsub : ∀ n, n = offset - c.utf8Size ↔ n + c.utf8Size = offset := by omega
      simp [hzero, hle, ih, hsub]
    · simp [hzero, hle]
      intro taken _
      omega

theorem slice?_eq {text front back part : List Char} {start stop : Nat}
    (hfront : sliceFrom? text start = some front) (hback : sliceFrom? text stop = some back)
    (hpart : front = part ++ back) : slice? text start stop = some part := by
  obtain ⟨taken, htext, rfl⟩ := sliceFrom?_eq_some_iff.1 hfront
  obtain ⟨more, htext', rfl⟩ := sliceFrom?_eq_some_iff.1 hback
  subst hpart
  obtain rfl : more = taken ++ part := by
    rw [htext, ← List.append_assoc] at htext'
    exact (List.append_cancel_right htext').symm
  have hle : String.utf8Len taken ≤ String.utf8Len (taken ++ part) := by simp
  simp only [slice?, hfront, hback, Option.bind_eq_bind, Option.bind_some, if_pos hle,
    List.length_append, Nat.add_sub_cancel, List.take_left]

namespace Offsets

/-! ## Scanning -/

/-- A byte offset into a text, and the place there. -/
structure Scan where
  offset : Nat
  pos : Pos

/-- Moves over a character. -/
def Scan.advance (s : Scan) (c : Char) : Scan := ⟨s.offset + c.utf8Size, s.pos.advance c⟩

variable (text : List Char)

/-- The character that comes next, if any is left. -/
def peek? (s : Scan) : Option (Option Char) := do
  let rest ← sliceFrom? text s.offset
  some rest.head?

/-- Moves over the character that comes next, if any is left. -/
def bump? (s : Scan) : Option Scan := do
  match ← peek? text s with
  | some c => some (s.advance c)
  | none => some s

/-- Moves over blanks, commas and comments, at most so many characters. -/
def skipFrom? : Nat → Bool → Scan → Option Scan
  | 0, _, _ => none
  | most + 1, comment, s => do
    match ← peek? text s with
    | none => some s
    | some c =>
      if comment then skipFrom? most (c ≠ '\n') (← bump? text s)
      else if c = ';' then skipFrom? most true (← bump? text s)
      else if isBlank c || c = ',' then skipFrom? most false (← bump? text s)
      else some s

def skipBlanks? (s : Scan) : Option Scan := skipFrom? text (text.length + 1) false s

/-- Moves to the next delimiter, over at most so many characters. -/
def runFrom? : Nat → Scan → Option Scan
  | 0, _ => none
  | most + 1, s => do
    match ← peek? text s with
    | none => some s
    | some c => if isDelimiter c then some s else runFrom? most (← bump? text s)

/-- The run of characters that comes next. -/
def run? (s : Scan) : Option (Token × Scan) := do
  let stop ← runFrom? text (text.length + 1) s
  let run ← slice? text s.offset stop.offset
  some (.run run, stop)

/-- The token of a closing bracket that has been moved over, with the splat mark if it comes
next. -/
def closing? (bracket : Bracket) (s : Scan) : Option (Token × Scan) := do
  let rest ← sliceFrom? text s.offset
  if splatMark.isPrefixOf rest then
    some (.closing bracket true, ← bump? text (← bump? text s))
  else some (.closing bracket false, s)

/-- The token that comes next, if anything is left. -/
def token? (s : Scan) : Option (Option (Token × Scan)) := do
  match ← peek? text s with
  | none => some none
  | some '(' => some (some (.opening .round, ← bump? text s))
  | some '[' => some (some (.opening .square, ← bump? text s))
  | some ')' => some (some (← closing? text .round (← bump? text s)))
  | some ']' => some (some (← closing? text .square (← bump? text s)))
  | some _ => some (some (← run? text s))

/-- Reads on, over at most so many tokens, until the outermost of the open groups is complete. -/
def readFrom? : Nat → SymbolTable → List OpenGroup → Scan → Option (Reading × Nat × SymbolTable)
  | 0, _, _, _ => none
  | most + 1, symbols, groups, s => do
    let here ← skipBlanks? text s
    match ← token? text here with
    | none =>
      match groups with
      | [] => some (.finished, here.offset, symbols)
      | group :: _ => some (.failed ⟨here.pos, .unclosed group.bracket⟩, here.offset, symbols)
    | some (.opening bracket, next) =>
      readFrom? most symbols (⟨bracket, here.pos, []⟩ :: groups) next
    | some (.closing bracket splatted, next) =>
      let unexpected := some (.failed ⟨here.pos, .unexpected bracket.closing⟩, here.offset, symbols)
      match groups with
      | [] => unexpected
      | group :: outer =>
        if group.bracket = bracket then
          match Reader.place (group.close splatted) outer with
          | .inl form => some (.form form next.pos, next.offset, symbols)
          | .inr groups => readFrom? most symbols groups next
        else unexpected
    | some (.run run, next) =>
      match Reader.formOfRun symbols run here.pos with
      | (.error cause, symbols) => some (.failed ⟨here.pos, cause⟩, next.offset, symbols)
      | (.ok form, symbols) =>
        match Reader.place form groups with
        | .inl form => some (.form form next.pos, next.offset, symbols)
        | .inr groups => readFrom? most symbols groups next

/-- Reads on to the end of the text, at most so many forms. -/
def readAllFrom? : Nat → SymbolTable → Scan → List Form →
    Option (Except ReadFailure (List Form) × SymbolTable)
  | 0, _, _, _ => none
  | most + 1, symbols, s, forms => do
    match ← readFrom? text (text.length + 1) symbols [] s with
    | (.form form next, offset, symbols) => readAllFrom? most symbols ⟨offset, next⟩ (form :: forms)
    | (.finished, _, symbols) => some (.ok forms.reverse, symbols)
    | (.failed failure, _, symbols) => some (.error failure, symbols)

/-- Reads all forms of a text that starts at a place. -/
def readAll? (symbols : SymbolTable) (pos : Pos) :
    Option (Except ReadFailure (List Form) × SymbolTable) :=
  readAllFrom? text (text.length + 1) symbols ⟨0, pos⟩ []

/-! ## Scans and cursors -/

/-- A scan stands where a cursor does: its offset is in front of what is left of the text. -/
structure At (s : Scan) (cursor : Cursor) : Prop where
  slice : sliceFrom? text s.offset = some cursor.rest
  pos : s.pos = cursor.pos

variable {text} {s : Scan} {cursor : Cursor}

theorem At.length_le (h : At text s cursor) : cursor.rest.length ≤ text.length := by
  obtain ⟨taken, rfl, -⟩ := sliceFrom?_eq_some_iff.1 h.slice
  simp

theorem At.peek? (h : At text s cursor) : peek? text s = some cursor.rest.head? := by
  simp [Offsets.peek?, h.slice]

/-- Moving over a character keeps the offset at a boundary. -/
theorem At.advance {c : Char} {cs : List Char} {pos : Pos} (h : At text s ⟨c :: cs, pos⟩) :
    At text (s.advance c) ⟨cs, pos.advance c⟩ := by
  obtain ⟨taken, htext, hsize⟩ := sliceFrom?_eq_some_iff.1 h.slice
  refine ⟨sliceFrom?_eq_some_iff.2 ⟨taken ++ [c], by simpa using htext, ?_⟩, ?_⟩
  · simp [Scan.advance, hsize]
  · rw [Scan.advance, h.pos]

theorem At.bump? {c : Char} {cs : List Char} {pos : Pos} (h : At text s ⟨c :: cs, pos⟩) :
    bump? text s = some (s.advance c) := by
  simp [Offsets.bump?, h.peek?]

theorem At.skipFrom? (h : At text s cursor) {most : Nat} (hmost : cursor.rest.length < most)
    (comment : Bool) : ∃ next, skipFrom? text most comment s = some next ∧
      At text next (Cursor.skipBlanksFrom comment cursor.rest cursor.pos) := by
  induction most generalizing s cursor comment with
  | zero => exact absurd hmost (Nat.not_lt_zero _)
  | succ most ih =>
    obtain ⟨rest, pos⟩ := cursor
    cases rest with
    | nil => exact ⟨s, by simp [Offsets.skipFrom?, h.peek?], h⟩
    | cons c cs =>
      have hmore := ih h.advance (Nat.lt_of_succ_lt_succ hmost)
      simp only [Offsets.skipFrom?, h.peek?, h.bump?, Cursor.skipBlanksFrom, List.head?_cons,
        Option.bind_eq_bind, Option.bind_some]
      by_cases hcomment : comment
      · simpa only [if_pos hcomment] using hmore _
      by_cases hsemi : c = ';'
      · simpa only [if_neg hcomment, if_pos hsemi] using hmore _
      by_cases hblank : (isBlank c || c = ',') = true
      · simpa only [if_neg hcomment, if_neg hsemi, if_pos hblank] using hmore _
      · simp only [if_neg hcomment, if_neg hsemi, if_neg hblank]
        exact ⟨s, rfl, h⟩

theorem At.skipBlanks? (h : At text s cursor) :
    ∃ here, skipBlanks? text s = some here ∧ At text here cursor.skipBlanks :=
  h.skipFrom? (Nat.lt_succ_of_le h.length_le) false

theorem At.runFrom? (h : At text s cursor) {most : Nat} (hmost : cursor.rest.length < most) :
    ∃ stop, runFrom? text most s = some stop ∧
      At text stop ⟨cursor.rest.dropWhile (!isDelimiter ·),
        cursor.pos.advanceAll (cursor.rest.takeWhile (!isDelimiter ·))⟩ := by
  induction most generalizing s cursor with
  | zero => exact absurd hmost (Nat.not_lt_zero _)
  | succ most ih =>
    obtain ⟨rest, pos⟩ := cursor
    cases rest with
    | nil => exact ⟨s, by simp [Offsets.runFrom?, h.peek?], h⟩
    | cons c cs =>
      simp only [Offsets.runFrom?, h.peek?, h.bump?, List.head?_cons, Option.bind_eq_bind,
        Option.bind_some]
      by_cases hend : isDelimiter c = true
      · simp only [List.takeWhile_cons, List.dropWhile_cons, hend]
        exact ⟨s, rfl, h⟩
      · simp only [List.takeWhile_cons, List.dropWhile_cons, hend]
        exact ih h.advance (Nat.lt_of_succ_lt_succ hmost)

/-! ## Tokens -/

/-- A run starts and ends at boundaries. -/
theorem At.run? {c : Char} {cs : List Char} {pos : Pos} (h : At text s ⟨c :: cs, pos⟩)
    (hc : ¬ Delimits c) :
    ∃ after, run? text s = some ((Cursor.run c ⟨cs, pos.advance c⟩).1, after) ∧
      At text after (Cursor.run c ⟨cs, pos.advance c⟩).2 := by
  obtain ⟨stop, hstop, hat⟩ := h.runFrom? (Nat.lt_succ_of_le h.length_le)
  have hpass : isDelimiter c = false := by simpa [← isDelimiter_iff] using hc
  simp only [List.takeWhile_cons, List.dropWhile_cons, hpass, Bool.not_false, if_true] at hat
  have hslice : slice? text s.offset stop.offset = some (c :: cs.takeWhile (!isDelimiter ·)) := by
    apply slice?_eq h.slice hat.slice
    rw [List.cons_append, List.takeWhile_append_dropWhile]
  refine ⟨stop, ?_, hat⟩
  simp [Offsets.run?, hstop, hslice, Cursor.run]

/-- A mark takes two characters. -/
theorem At.closing? (h : At text s cursor) (bracket : Bracket) :
    ∃ after, closing? text bracket s = some ((cursor.closing bracket).1, after) ∧
      At text after (cursor.closing bracket).2 := by
  obtain ⟨rest, pos⟩ := cursor
  by_cases hmark : splatMark <+: rest
  · obtain ⟨more, rfl⟩ := splatMark_isPrefix_iff.1 hmark
    refine ⟨_, ?_, h.advance.advance⟩
    simp [Offsets.closing?, h.slice, hmark, h.bump?, h.advance.bump?, Cursor.closing]
  · have hnone : Cursor.closing bracket ⟨rest, pos⟩ = (.closing bracket false, ⟨rest, pos⟩) := by
      rcases Cursor.closing_eq bracket rest pos with ⟨more, _, rfl, -⟩ | ⟨-, heq⟩
      · exact absurd (splatMark_isPrefix_iff.2 ⟨more, rfl⟩) hmark
      · exact heq
    rw [hnone]
    refine ⟨s, ?_, h⟩
    simp [Offsets.closing?, h.slice, hmark]

theorem At.token?_eq_none (h : At text s cursor) (ht : cursor.token? = none) :
    token? text s = some none := by
  simp [Offsets.token?, h.peek?, Cursor.rest_eq_nil_of_token? ht]

theorem At.token?_run {c : Char} {cs : List Char} {pos : Pos} (h : At text s ⟨c :: cs, pos⟩)
    (hc : ¬ Delimits c) : token? text s = (Offsets.run? text s).map some := by
  have hne : ∀ d, Delimits d → c ≠ d := fun d hd he => hc (he ▸ hd)
  simp only [Offsets.token?, h.peek?, List.head?_cons, Option.bind_eq_bind, Option.bind_some]
  split
  · next heq => cases heq
  · next heq => exact absurd (Option.some.inj heq) (hne '(' (by decide))
  · next heq => exact absurd (Option.some.inj heq) (hne '[' (by decide))
  · next heq => exact absurd (Option.some.inj heq) (hne ')' (by decide))
  · next heq => exact absurd (Option.some.inj heq) (hne ']' (by decide))
  · cases Offsets.run? text s <;> rfl

/-- The token that comes next where nothing is to be stepped over. -/
theorem At.token? {next : Cursor} {token : Token} (h : At text s cursor)
    (hskips : ∀ c ∈ cursor.rest.head?, ¬ Skips c) (ht : cursor.token? = some (token, next)) :
    ∃ after, token? text s = some (some (token, after)) ∧ At text after next := by
  obtain ⟨rest, pos⟩ := cursor
  cases rest with
  | nil => cases ht
  | cons c cs =>
    rcases bracket_or_run (hskips c rfl) with ⟨bracket, rfl⟩ | ⟨bracket, rfl⟩ | hc
    · rw [Cursor.token?_opening] at ht
      cases ht
      refine ⟨_, ?_, h.advance⟩
      cases bracket <;> simp [Offsets.token?, h.peek?, h.bump?, Bracket.opening]
    · rw [Cursor.token?_closing] at ht
      obtain ⟨after, hclosing, hat⟩ := h.advance.closing? bracket
      rw [Option.some.inj ht] at hclosing hat
      refine ⟨after, ?_, hat⟩
      cases bracket <;> simp_all [Offsets.token?, h.peek?, h.bump?, Bracket.closing]
    · rw [Cursor.token?_run hc] at ht
      obtain ⟨after, hrun, hat⟩ := h.run? hc
      rw [Option.some.inj ht] at hrun hat
      refine ⟨after, ?_, hat⟩
      rw [h.token?_run hc, hrun, Option.map_some]

/-! ## Forms -/

open Reader (State Step Steps Ends Completes)

/-- The token that comes next behind what is stepped over. -/
theorem At.exists_token {next : Cursor} {token : Token} (h : At text s cursor)
    (ht : cursor.skipBlanks.token? = some (token, next)) :
    ∃ here after, Offsets.skipBlanks? text s = some here ∧ At text here cursor.skipBlanks ∧
      Offsets.token? text here = some (some (token, after)) ∧ At text after next := by
  obtain ⟨here, hskip, hhere⟩ := h.skipBlanks?
  obtain ⟨after, htoken, hafter⟩ := hhere.token? cursor.not_skips_skipBlanks ht
  exact ⟨here, after, hskip, hhere, htoken, hafter⟩

/-- What a reading by offsets comes to: what reading the rest comes to, at the offset of what that
leaves. -/
def Reads (text : List Char) (found : Option (Reading × Nat × SymbolTable))
    (expected : Reading × Reader) : Prop :=
  ∃ offset, found = some (expected.1, offset, expected.2.symbols) ∧
    sliceFrom? text offset = some expected.2.rest

variable {state state' : State}

/-- A step of the reader is one by offsets, and the offset stays at a boundary. -/
theorem At.readFrom?_step (h : At text s state.cursor) (hstep : Step state state') (most : Nat) :
    ∃ s', readFrom? text (most + 1) state.symbols state.groups s =
        readFrom? text most state'.symbols state'.groups s' ∧ At text s' state'.cursor := by
  obtain ⟨symbols, groups, cursor⟩ := state
  cases hstep with
  | opening ht =>
    obtain ⟨here, after, hskip, hhere, htoken, hafter⟩ := h.exists_token ht
    refine ⟨after, ?_, hafter⟩
    simp [readFrom?, hskip, htoken, State.here, hhere.pos]
  | item hcompletes =>
    cases hcompletes with
    | closing hgroups ht =>
      cases hgroups
      obtain ⟨here, after, hskip, hhere, htoken, hafter⟩ := h.exists_token ht
      refine ⟨after, ?_, hafter⟩
      simp [readFrom?, hskip, htoken, Reader.place]
    | run ht hform =>
      obtain ⟨here, after, hskip, hhere, htoken, hafter⟩ := h.exists_token ht
      refine ⟨after, ?_, hafter⟩
      simp only [State.here] at hform
      simp [readFrom?, hskip, htoken, hform, Reader.place, hhere.pos]

theorem At.readFrom?_ends (h : At text s state.cursor) {o : Reading × Reader}
    (hends : Ends state o) (most : Nat) :
    Reads text (readFrom? text (most + 1) state.symbols state.groups s) o := by
  obtain ⟨symbols, groups, cursor⟩ := state
  cases hends with
  | form hcompletes =>
    cases hcompletes with
    | closing hgroups ht =>
      cases hgroups
      obtain ⟨here, after, hskip, hhere, htoken, hafter⟩ := h.exists_token ht
      refine ⟨after.offset, ?_, hafter.slice⟩
      simp [readFrom?, hskip, htoken, Reader.place, hafter.pos]
    | run ht hform =>
      obtain ⟨here, after, hskip, hhere, htoken, hafter⟩ := h.exists_token ht
      refine ⟨after.offset, ?_, hafter.slice⟩
      simp only [State.here] at hform
      simp [readFrom?, hskip, htoken, hform, Reader.place, hhere.pos, hafter.pos]
  | finished hgroups ht =>
    cases hgroups
    obtain ⟨here, hskip, hhere⟩ := h.skipBlanks?
    refine ⟨here.offset, ?_, hhere.slice.trans (congrArg some (Cursor.rest_eq_nil_of_token? ht))⟩
    simp [readFrom?, hskip, hhere.token?_eq_none ht]
  | unclosed hgroups ht =>
    cases hgroups
    obtain ⟨here, hskip, hhere⟩ := h.skipBlanks?
    refine ⟨here.offset, ?_, hhere.slice.trans (congrArg some (Cursor.rest_eq_nil_of_token? ht))⟩
    simp [readFrom?, hskip, hhere.token?_eq_none ht, State.here, hhere.pos]
  | unexpected ht hgroups =>
    obtain ⟨here, after, hskip, hhere, htoken, hafter⟩ := h.exists_token ht
    refine ⟨here.offset, ?_, hhere.slice⟩
    cases groups with
    | nil => simp [readFrom?, hskip, htoken, State.here, hhere.pos]
    | cons group outer =>
      have hne := hgroups group rfl
      simp [readFrom?, hskip, htoken, State.here, hhere.pos, hne]
  | badRun ht hform =>
    obtain ⟨here, after, hskip, hhere, htoken, hafter⟩ := h.exists_token ht
    refine ⟨after.offset, ?_, hafter.slice⟩
    simp only [State.here] at hform
    simp [readFrom?, hskip, htoken, hform, State.here, hhere.pos]

/-- Every step takes a token. -/
theorem length_of_step (hstep : Step state state') :
    state'.cursor.rest.length < state.cursor.rest.length := by
  obtain ⟨symbols, groups, cursor⟩ := state
  have hle := cursor.length_skipBlanks_le
  cases hstep with
  | opening ht => exact Nat.lt_of_lt_of_le (Cursor.length_of_token? ht) hle
  | item hcompletes =>
    cases hcompletes with
    | closing _ ht => exact Nat.lt_of_lt_of_le (Cursor.length_of_token? ht) hle
    | run ht _ => exact Nat.lt_of_lt_of_le (Cursor.length_of_token? ht) hle

/-- **A form is read by offsets as it is read from the rest of the text.** -/
theorem At.readFrom? (h : At text s state.cursor) {most : Nat}
    (hmost : state.cursor.rest.length < most) :
    Reads text (readFrom? text most state.symbols state.groups s) state.read := by
  obtain ⟨last, hsteps, hends⟩ := Reader.exists_ends state
  -- By induction on the steps: each of them takes a token, so `most` lasts.
  induction hsteps using Relation.ReflTransGen.head_induction_on generalizing s most with
  | refl =>
    obtain ⟨most, rfl⟩ := Nat.exists_eq_succ_of_ne_zero (Nat.ne_zero_of_lt hmost)
    exact h.readFrom?_ends hends most
  | head hstep _ ih =>
    obtain ⟨most, rfl⟩ := Nat.exists_eq_succ_of_ne_zero (Nat.ne_zero_of_lt hmost)
    obtain ⟨s', heq, hat⟩ := h.readFrom?_step hstep most
    rw [heq, Reader.read_of_step hstep]
    rw [Reader.read_of_step hstep] at hends
    exact ih hat (Nat.lt_of_lt_of_le (length_of_step hstep) (Nat.le_of_lt_succ hmost)) hends

theorem At.read? {reader : Reader} {pos : Pos} (h : At text s ⟨reader.rest, pos⟩) :
    Reads text (Offsets.readFrom? text (text.length + 1) reader.symbols [] s)
      (reader.read pos) := by
  have hstate : At text s (State.mk reader.symbols [] ⟨reader.rest, pos⟩).cursor := h
  exact hstate.readFrom? (Nat.lt_succ_of_le h.length_le)

theorem At.readAllFrom? {reader : Reader} {pos : Pos} (h : At text s ⟨reader.rest, pos⟩)
    {most : Nat} (hmost : reader.rest.length < most) (forms : List Form) :
    readAllFrom? text most reader.symbols s forms =
      some ((reader.readAllFrom pos forms).1, (reader.readAllFrom pos forms).2.symbols) := by
  induction most generalizing reader pos s forms with
  | zero => exact absurd hmost (Nat.not_lt_zero _)
  | succ most ih =>
    obtain ⟨offset, hfound, hslice⟩ := h.read?
    rw [Reader.readAllFrom_eq]
    cases hread : reader.read pos with
    | mk reading reader' =>
      rw [hread] at hfound hslice
      cases reading with
      | form form next =>
        have hless := Nat.lt_of_lt_of_le (Reader.length_of_read hread) (Nat.le_of_lt_succ hmost)
        have hnext : At text ⟨offset, next⟩ ⟨reader'.rest, next⟩ := ⟨hslice, rfl⟩
        simp [Offsets.readAllFrom?, hfound, ih hnext hless]
      | finished => simp [Offsets.readAllFrom?, hfound]
      | failed failure => simp [Offsets.readAllFrom?, hfound]

/-- **Reading by offsets never slices anywhere but at the boundaries of characters**, and does what
reading does. -/
theorem readAll?_eq (text : List Char) (symbols : SymbolTable) (pos : Pos) :
    readAll? text symbols pos = some (((⟨text, symbols⟩ : Reader).readAll pos).1,
      ((⟨text, symbols⟩ : Reader).readAll pos).2.symbols) := by
  have hstart : At text ⟨0, pos⟩ ⟨(Reader.mk text symbols).rest, pos⟩ := by
    refine ⟨?_, rfl⟩
    unfold sliceFrom?
    exact if_pos rfl
  exact hstart.readAllFrom? (Nat.lt_succ_self _) []

end Offsets

end SplatLisp
