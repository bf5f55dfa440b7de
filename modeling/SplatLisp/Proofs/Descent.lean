import SplatLisp.Proofs.Mentions
import SplatLisp.Proofs.Offsets
import SplatLisp.Proofs.Places

/-!
# The reader by recursive descent

A reader may also follow the nesting of groups: it reads one form, for a group one item after the
other, and each item in the same way. Here this is written out over byte offsets, with loops one in
another: over comments, over what stands between forms, over the characters of a run, over the items
of a group and over the forms of a text. Every loop and the nesting have a bound, and what is left
undone at a bound is no result; neither is an item that finds nothing to read although something
was left.

Bounds of one more than the characters of the text are enough, so that no loop goes on forever, and
an item always finds something. For every result there are steps of the reader that lead there,
whatever groups are open around the form (`Descent.Comes`, `Descent.ItemsCome`). They take
characters of the text at each level of nesting and each turn of a loop.
-/

namespace SplatLisp

namespace Descent

open Offsets
open Reader (State Step Steps Ends Completes)

/-! ## The reader -/

section Reader

variable (text : List Char)

/-- Moves over a comment and the line feed behind it. -/
def comment? : Nat → Scan → Option Scan
  | 0, _ => none
  | most + 1, s => do
    match ← peek? text s with
    | none => some s
    | some c =>
      let next ← bump? text s
      if c = '\n' then some next else comment? most next

/-- Moves over blanks, commas and comments. -/
def skip? : Nat → Scan → Option Scan
  | 0, _ => none
  | most + 1, s => do
    match ← peek? text s with
    | none => some s
    | some c =>
      if c = ';' then skip? most (← comment? text (text.length + 1) s)
      else if isBlank c || c = ',' then skip? most (← bump? text s)
      else some s

/-- Wraps a form in a splat if the mark follows it. -/
def splat? (form : Form) (s : Scan) : Option (Form × Scan) := do
  let rest ← sliceFrom? text s.offset
  if splatMark.isPrefixOf rest then
    some (.splat form form.pos, ← bump? text (← bump? text s))
  else some (form, s)

/-- What reading by descent comes to, with the symbols met and the offset. -/
abbrev Found (α : Type) : Type := Except ReadFailure α × SymbolTable × Scan

/-- Reads a run. -/
def atom? (symbols : SymbolTable) (s : Scan) : Option (Found (Option Form)) := do
  let stop ← runFrom? text (text.length + 1) s
  let run ← slice? text s.offset stop.offset
  match Reader.formOfRun symbols run s.pos with
  | (.ok form, symbols) => some (.ok (some form), symbols, stop)
  | (.error cause, symbols) => some (.error ⟨s.pos, cause⟩, symbols, stop)

/-- Reads the items of a group and its closing bracket, each item with a given reader. The items so
far come in reverse. -/
def items? (next? : SymbolTable → Scan → Option (Found (Option Form))) (bracket : Bracket) :
    Nat → SymbolTable → Scan → List Form → Option (Found (List Form))
  | 0, _, _, _ => none
  | most + 1, symbols, s, items => do
    let s ← skip? text (text.length + 1) s
    match ← peek? text s with
    | none => some (.error ⟨s.pos, .unclosed bracket⟩, symbols, s)
    | some c =>
      if c = bracket.closing then some (.ok items.reverse, symbols, ← bump? text s)
      else
        match ← next? symbols s with
        | (.ok (some item), symbols, s) => items? next? bracket most symbols s (item :: items)
        -- A character is left, so there is something to read.
        | (.ok none, _, _) => none
        | (.error failure, symbols, s) => some (.error failure, symbols, s)

/-- Reads a group from its opening bracket on. -/
def group? (next? : SymbolTable → Scan → Option (Found (Option Form))) (bracket : Bracket)
    (symbols : SymbolTable) (s : Scan) : Option (Found (Option Form)) := do
  match ← items? text next? bracket (text.length + 1) symbols (← bump? text s) [] with
  | (.ok items, symbols, close) =>
    let (form, stop) ← splat? text (.group bracket items s.pos) close
    some (.ok (some form), symbols, stop)
  | (.error failure, symbols, stop) => some (.error failure, symbols, stop)

/-- Reads the next form, if anything but blanks and comments is left. -/
def next? : Nat → SymbolTable → Scan → Option (Found (Option Form))
  | 0, _, _ => none
  | depth + 1, symbols, s => do
    let s ← skip? text (text.length + 1) s
    match ← peek? text s with
    | none => some (.ok none, symbols, s)
    | some c =>
      if c = '(' then group? text (next? depth) .round symbols s
      else if c = '[' then group? text (next? depth) .square symbols s
      else if c = ')' ∨ c = ']' then some (.error ⟨s.pos, .unexpected c⟩, symbols, s)
      else atom? text symbols s

/-- One reading. -/
def read? (symbols : SymbolTable) (s : Scan) : Option (Reading × SymbolTable × Nat) := do
  match ← next? text (text.length + 1) symbols s with
  | (.ok (some form), symbols, s) => some (.form form s.pos, symbols, s.offset)
  | (.ok none, symbols, s) => some (.finished, symbols, s.offset)
  | (.error failure, symbols, s) => some (.failed failure, symbols, s.offset)

/-- Reads on to the end of the text, at most so many forms; `forms` are those read before, the
latest first. -/
def readAllFrom? : Nat → SymbolTable → Scan → List Form →
    Option (Except ReadFailure (List Form) × SymbolTable)
  | most, symbols, s, forms => do
    match ← read? text symbols s with
    | (.form form pos, symbols, offset) =>
      match most with
      | 0 => none
      | most + 1 => readAllFrom? most symbols ⟨offset, pos⟩ (form :: forms)
    | (.finished, symbols, _) => some (.ok forms.reverse, symbols)
    | (.failed failure, symbols, _) => some (.error failure, symbols)

end Reader

/-! ## Between forms -/

variable {text : List Char} {s : Scan} {cursor : Cursor}

theorem comment?_at (h : At text s cursor) {most : Nat} (hmost : cursor.rest.length < most) :
    ∃ next after, comment? text most s = some next ∧ At text next after ∧
      Cursor.skipBlanksFrom true cursor.rest cursor.pos = after.skipBlanks ∧
      after.rest.length ≤ cursor.rest.length ∧
      (cursor.rest ≠ [] → after.rest.length < cursor.rest.length) := by
  induction most generalizing s cursor with
  | zero => exact absurd hmost (Nat.not_lt_zero _)
  | succ most ih =>
    obtain ⟨rest, pos⟩ := cursor
    cases rest with
    | nil => exact ⟨s, ⟨[], pos⟩, by simp [comment?, h.peek?], h, rfl, Nat.le_refl _, absurd rfl⟩
    | cons c cs =>
      simp only [comment?, h.peek?, h.bump?, List.head?_cons, Option.bind_eq_bind,
        Option.bind_some]
      by_cases hfeed : c = '\n'
      · subst hfeed
        have hless : cs.length < ('\n' :: cs).length := Nat.lt_succ_self _
        exact ⟨_, _, if_pos rfl, h.advance, rfl, Nat.le_of_lt hless, fun _ => hless⟩
      · obtain ⟨next, after, hnext, hat, hskip, hle, -⟩ :=
          ih h.advance (Nat.lt_of_succ_lt_succ hmost)
        have hless : after.rest.length < (c :: cs).length := Nat.lt_succ_of_le hle
        refine ⟨next, after, (if_neg hfeed).trans hnext, hat, ?_, Nat.le_of_lt hless,
          fun _ => hless⟩
        rw [← hskip]
        simp [Cursor.skipBlanksFrom, hfeed]

theorem skip?_at (h : At text s cursor) {most : Nat} (hmost : cursor.rest.length < most) :
    ∃ here, skip? text most s = some here ∧ At text here cursor.skipBlanks := by
  induction most generalizing s cursor with
  | zero => exact absurd hmost (Nat.not_lt_zero _)
  | succ most ih =>
    obtain ⟨rest, pos⟩ := cursor
    cases rest with
    | nil => exact ⟨s, by simp [skip?, h.peek?], h⟩
    | cons c cs =>
      simp only [skip?, h.peek?, h.bump?, List.head?_cons, Option.bind_eq_bind, Option.bind_some]
      by_cases hsemi : c = ';'
      · subst hsemi
        obtain ⟨next, after, hnext, hat, hskip, -, hless⟩ :=
          comment?_at h (Nat.lt_succ_of_le h.length_le)
        have hbound : after.rest.length < most :=
          Nat.lt_of_lt_of_le (hless (List.cons_ne_nil _ _)) (Nat.le_of_lt_succ hmost)
        obtain ⟨here, hhere, hat'⟩ := ih hat hbound
        have hstart : Cursor.skipBlanks ⟨';' :: cs, pos⟩ = after.skipBlanks := hskip
        rw [hstart]
        refine ⟨here, ?_, hat'⟩
        simp only [if_pos, hnext, Option.bind_some, hhere]
      · by_cases hblank : (isBlank c || c = ',') = true
        · obtain ⟨here, hhere, hat⟩ := ih h.advance (Nat.lt_of_succ_lt_succ hmost)
          rw [Cursor.skipBlanks, Cursor.skipBlanksFrom_of_blank (by simpa using hblank)]
          refine ⟨here, ?_, hat⟩
          simp only [if_neg hsemi, if_pos hblank, hhere]
        · have hskips : ¬ Skips c := by
            rintro (h | h)
            · exact hblank (by simpa using h)
            · exact hsemi h
          rw [Cursor.skipBlanks, Cursor.skipBlanksFrom_of_not_skips hskips]
          exact ⟨s, by simp only [if_neg hsemi, if_neg hblank], h⟩

theorem token?_of_rest_eq_nil {cursor : Cursor} (h : cursor.rest = []) : cursor.token? = none := by
  obtain ⟨rest, pos⟩ := cursor
  cases h
  rfl

/-- What is stepped over at a place without blanks is nothing. -/
theorem skipBlanks_skipBlanks (cursor : Cursor) :
    cursor.skipBlanks.skipBlanks = cursor.skipBlanks := by
  have hskips := cursor.not_skips_skipBlanks
  generalize cursor.skipBlanks = here at *
  obtain ⟨rest, pos⟩ := here
  cases rest with
  | nil => rfl
  | cons c cs => exact Cursor.skipBlanksFrom_of_not_skips (hskips c rfl) cs pos

/-- The mark behind a closing bracket. -/
theorem splat?_at (group : OpenGroup) (h : At text s cursor) :
    ∃ splatted next after, cursor.closing group.bracket = (.closing group.bracket splatted, next) ∧
      splat? text (group.close false) s = some (group.close splatted, after) ∧
      At text after next := by
  obtain ⟨rest, pos⟩ := cursor
  rcases Cursor.closing_eq group.bracket rest pos with ⟨more, next, rfl, -⟩ | ⟨hmark, heq⟩
  · refine ⟨true, _, _, rfl, ?_, h.advance.advance⟩
    simp [splat?, h.slice, splatMark, h.bump?, h.advance.bump?, OpenGroup.close, Form.pos]
  · refine ⟨false, _, s, heq, ?_, h⟩
    simp [splat?, h.slice, hmark]

/-! ## One form -/

/-- What reading the next form by descent comes to, wherever the form stands. A form is completed
inside of any open groups. A failure is one there unless it is the closing bracket that the
innermost group awaits. -/
inductive Comes (text : List Char) (symbols : SymbolTable) (cursor : Cursor) :
    Found (Option Form) → Prop
  | form {form : Form} {symbols' : SymbolTable} {s : Scan} {next : Cursor} (hat : At text s next)
    (h : ∀ groups, ∃ state, Steps ⟨symbols, groups, cursor⟩ state ∧
      Completes state form groups symbols' next) :
    Comes text symbols cursor (.ok (some form), symbols', s)
  | nothing {s : Scan} (h : cursor.skipBlanks.token? = none) (hat : At text s cursor.skipBlanks) :
    Comes text symbols cursor (.ok none, symbols, s)
  | failed {failure : ReadFailure} {symbols' : SymbolTable} {s : Scan} {rest : List Char}
    (hat : sliceFrom? text s.offset = some rest)
    (h : ∀ groups : List OpenGroup, (∀ group ∈ groups.head?,
        cursor.skipBlanks.rest.head? ≠ some group.bracket.closing) →
      ∃ state, Steps ⟨symbols, groups, cursor⟩ state ∧
        Ends state (.failed failure, ⟨rest, symbols'⟩)) :
    Comes text symbols cursor (.error failure, symbols', s)

/-- What reading the items of a group by descent comes to, behind those read before, whatever
groups are around it. -/
inductive ItemsCome (text : List Char) (symbols : SymbolTable) (group : OpenGroup)
    (cursor : Cursor) : Found (List Form) → Prop
  | closed {items : List Form} {symbols' : SymbolTable} {s : Scan} {rest : List Char} {pos : Pos}
    (hat : At text s ⟨rest, pos.advance group.bracket.closing⟩)
    (h : ∀ outer, ∃ state, Steps ⟨symbols, group :: outer, cursor⟩ state ∧
      state.symbols = symbols' ∧ state.groups = { group with items := items.reverse } :: outer ∧
        state.here = ⟨group.bracket.closing :: rest, pos⟩) :
    ItemsCome text symbols group cursor (.ok items, symbols', s)
  | failed {failure : ReadFailure} {symbols' : SymbolTable} {s : Scan} {rest : List Char}
    (hat : sliceFrom? text s.offset = some rest)
    (h : ∀ outer, ∃ state, Steps ⟨symbols, group :: outer, cursor⟩ state ∧
      Ends state (.failed failure, ⟨rest, symbols'⟩)) :
    ItemsCome text symbols group cursor (.error failure, symbols', s)

/-- A reader of items that reads whatever lies in less than so many characters. -/
def ReadsWithin (text : List Char) (depth : Nat)
    (next? : SymbolTable → Scan → Option (Found (Option Form))) : Prop :=
  ∀ ⦃s : Scan⦄ ⦃before cursor : Cursor⦄ (symbols : SymbolTable), At text s before →
    before.skipBlanks = cursor.skipBlanks → cursor.skipBlanks.rest.length < depth →
      ∃ found, next? symbols s = some found ∧ Comes text symbols cursor found

theorem length_of_steps {state state' : State} (h : Steps state state') :
    state'.cursor.rest.length ≤ state.cursor.rest.length := by
  induction h with
  | refl => exact Nat.le_refl _
  | tail _ hstep ih => exact Nat.le_trans (Nat.le_of_lt (length_of_step hstep)) ih

/-- Behind an item, the other items are read. -/
theorem ItemsCome.of_item {symbols symbols' : SymbolTable} {group : OpenGroup} {item : Form}
    {next : Cursor} {found : Found (List Form)}
    (hitem : ∀ groups, ∃ state, Steps ⟨symbols, groups, cursor⟩ state ∧
      Completes state item groups symbols' next)
    (h : ItemsCome text symbols' (group.add item) next found) :
    ItemsCome text symbols group cursor found := by
  have hsteps : ∀ outer, Steps ⟨symbols, group :: outer, cursor⟩
      ⟨symbols', group.add item :: outer, next⟩ := by
    intro outer
    obtain ⟨state, hsteps, hcompletes⟩ := hitem (group :: outer)
    exact hsteps.tail (.item hcompletes)
  cases h with
  | closed hat h =>
    refine .closed hat fun outer => ?_
    obtain ⟨state, hmore, hlast⟩ := h outer
    exact ⟨state, (hsteps outer).trans hmore, hlast⟩
  | failed hat h =>
    refine .failed hat fun outer => ?_
    obtain ⟨state, hmore, hends⟩ := h outer
    exact ⟨state, (hsteps outer).trans hmore, hends⟩

/-- An item takes characters. -/
theorem length_of_item {symbols symbols' : SymbolTable} {item : Form} {next : Cursor}
    (hitem : ∀ groups, ∃ state, Steps ⟨symbols, groups, cursor⟩ state ∧
      Completes state item groups symbols' next) : next.rest.length < cursor.rest.length := by
  -- Any group will do, as an item is a step inside of one only.
  obtain ⟨state, hsteps, hcompletes⟩ := hitem [⟨.round, cursor.pos, []⟩]
  exact Nat.lt_of_lt_of_le (length_of_step (.item hcompletes)) (length_of_steps hsteps)

/-- **The loop over the items of a group comes to an end**, as each turn takes characters. -/
theorem items?_comes {next? : SymbolTable → Scan → Option (Found (Option Form))} {depth : Nat}
    (hnext : ReadsWithin text depth next?) (symbols : SymbolTable) (group : OpenGroup)
    (h : At text s cursor) {most : Nat} (hmost : cursor.rest.length < most)
    (hdepth : cursor.rest.length < depth) :
    ∃ found, items? text next? group.bracket most symbols s group.items = some found ∧
      ItemsCome text symbols group cursor found := by
  induction most generalizing s cursor symbols group with
  | zero => exact absurd hmost (Nat.not_lt_zero _)
  | succ most ih =>
    obtain ⟨here, hskip, hhere⟩ := skip?_at h (Nat.lt_succ_of_le h.length_le)
    have hle := cursor.length_skipBlanks_le
    simp only [items?, hskip, hhere.peek?, Option.bind_eq_bind, Option.bind_some]
    cases hrest : cursor.skipBlanks.rest with
    | nil =>
      have ht : cursor.skipBlanks.token? = none := token?_of_rest_eq_nil hrest
      refine ⟨_, rfl, .failed (hhere.slice.trans (congrArg some hrest)) fun outer => ?_⟩
      rw [hhere.pos]
      exact ⟨_, .refl, .unclosed rfl ht⟩
    | cons c cs =>
      simp only [List.head?_cons]
      by_cases hclose : c = group.bracket.closing
      · have hcursor :
            cursor.skipBlanks = ⟨group.bracket.closing :: cs, cursor.skipBlanks.pos⟩ := by
          rw [← hclose, ← hrest]
        rw [hcursor] at hhere
        refine ⟨_, by rw [if_pos hclose, hhere.bump?]; rfl, .closed hhere.advance fun outer => ?_⟩
        refine ⟨_, .refl, rfl, ?_, hcursor⟩
        rw [List.reverse_reverse]
      · rw [if_neg hclose]
        obtain ⟨found, hfound, hcomes⟩ := hnext symbols hhere (skipBlanks_skipBlanks cursor)
          (Nat.lt_of_le_of_lt hle hdepth)
        rw [hfound]
        cases hcomes with
        | @form item symbols' s' next hat hitem =>
          have hless := length_of_item hitem
          obtain ⟨items, hitems, hcome⟩ := ih symbols' (group.add item) hat
            (Nat.lt_of_lt_of_le hless (Nat.le_of_lt_succ hmost)) (Nat.lt_trans hless hdepth)
          exact ⟨items, hitems, hcome.of_item hitem⟩
        | nothing ht _ =>
          have hnil := Cursor.rest_eq_nil_of_token? ht
          rw [hrest] at hnil
          cases hnil
        | failed hat hfails =>
          refine ⟨_, rfl, .failed hat fun outer => hfails _ fun g hg => ?_⟩
          cases hg
          rw [hrest]
          exact fun hhead => hclose (Option.some.inj hhead)

theorem group?_comes {next? : SymbolTable → Scan → Option (Found (Option Form))} {depth : Nat}
    (hnext : ReadsWithin text depth next?) (bracket : Bracket) (symbols : SymbolTable)
    {cs : List Char} {pos : Pos} (hcursor : cursor.skipBlanks = ⟨bracket.opening :: cs, pos⟩)
    (h : At text s ⟨bracket.opening :: cs, pos⟩) (hdepth : cs.length < depth) :
    ∃ found, group? text next? bracket symbols s = some found ∧
      Comes text symbols cursor found := by
  have hopen : ∀ groups, Step ⟨symbols, groups, cursor⟩
      ⟨symbols, ⟨bracket, pos, []⟩ :: groups, ⟨cs, pos.advance bracket.opening⟩⟩ := by
    intro groups
    have hhere : (State.mk symbols groups cursor).here = ⟨bracket.opening :: cs, pos⟩ := hcursor
    have hstep := Step.opening (s := ⟨symbols, groups, cursor⟩)
      ((congrArg Cursor.token? hhere).trans (Cursor.token?_opening bracket cs pos))
    rw [hhere] at hstep
    exact hstep
  have hmost : cs.length < text.length + 1 :=
    Nat.lt_of_lt_of_le (Nat.lt_succ_self _) (Nat.le_succ_of_le h.length_le)
  obtain ⟨found, hfound, hcome⟩ :=
    items?_comes hnext symbols ⟨bracket, pos, []⟩ h.advance hmost hdepth
  change items? text next? bracket _ symbols _ [] = some found at hfound
  simp only [group?, h.bump?, Option.bind_eq_bind, Option.bind_some, hfound]
  cases hcome with
  | @closed items symbols' close rest stop hat hclosed =>
    let group : OpenGroup := ⟨bracket, pos, items.reverse⟩
    obtain ⟨splatted, next, after, hclosing, hsplat, hafter⟩ := splat?_at group hat
    have hgroup : Form.group bracket items s.pos = group.close false := by
      rw [OpenGroup.close, List.reverse_reverse, h.pos]
      rfl
    refine ⟨(.ok (some (group.close splatted)), symbols', after), ?_, .form hafter fun groups => ?_⟩
    · simp only [hgroup, hsplat, Option.bind_some]
    obtain ⟨state, hsteps, rfl, hgroups, hhere⟩ := hclosed groups
    refine ⟨state, .head (hopen groups) hsteps, .closing hgroups ?_⟩
    rw [hhere]
    exact (Cursor.token?_closing bracket rest stop).trans (congrArg some hclosing)
  | failed hat hfails =>
    refine ⟨_, rfl, .failed hat fun groups _ => ?_⟩
    obtain ⟨state, hsteps, hends⟩ := hfails groups
    exact ⟨state, .head (hopen groups) hsteps, hends⟩

theorem atom?_comes (symbols : SymbolTable) {c : Char} {cs : List Char} {pos : Pos}
    (hc : ¬ Delimits c) (hcursor : cursor.skipBlanks = ⟨c :: cs, pos⟩)
    (h : At text s ⟨c :: cs, pos⟩) :
    ∃ found, atom? text symbols s = some found ∧ Comes text symbols cursor found := by
  obtain ⟨after, hrun, hafter⟩ := h.run? hc
  obtain ⟨stop, hstop, run, hslice, heq⟩ : ∃ stop, runFrom? text (text.length + 1) s = some stop ∧
      ∃ run, slice? text s.offset stop.offset = some run ∧
        (Token.run run, stop) = ((Cursor.run c ⟨cs, pos.advance c⟩).1, after) := by
    simpa [run?, Option.bind_eq_some_iff] using hrun
  obtain ⟨htoken, rfl⟩ := Prod.mk.inj heq
  have hhere : ∀ groups, (State.mk symbols groups cursor).here = ⟨c :: cs, pos⟩ := fun _ => hcursor
  have ht : ∀ groups, (State.mk symbols groups cursor).here.token? =
      some (.run run, (Cursor.run c ⟨cs, pos.advance c⟩).2) := by
    intro groups
    rw [hhere, Cursor.token?_run hc]
    exact congrArg some (Prod.ext htoken.symm rfl)
  simp only [atom?, hstop, hslice, Option.bind_eq_bind, Option.bind_some, h.pos]
  cases hform : Reader.formOfRun symbols run pos with
  | mk outcome symbols' =>
    cases outcome with
    | ok form =>
      refine ⟨_, rfl, .form hafter fun groups => ⟨_, .refl, .run (ht groups) ?_⟩⟩
      rw [hhere]
      exact hform
    | error cause =>
      refine ⟨_, rfl, .failed hafter.slice fun groups _ => ⟨_, .refl, ?_⟩⟩
      have hends := Ends.badRun (ht groups) (by rw [hhere]; exact hform)
      rw [hhere] at hends
      exact hends

/-- A closing bracket is refused, except by a group that awaits it. -/
theorem unexpected_comes (symbols : SymbolTable) (bracket : Bracket) {cs : List Char} {pos : Pos}
    (hcursor : cursor.skipBlanks = ⟨bracket.closing :: cs, pos⟩)
    (h : At text s ⟨bracket.closing :: cs, pos⟩) :
    Comes text symbols cursor (.error ⟨pos, .unexpected bracket.closing⟩, symbols, s) := by
  refine .failed h.slice fun groups hgroups => ⟨_, .refl, ?_⟩
  have hhere : (State.mk symbols groups cursor).here = ⟨bracket.closing :: cs, pos⟩ := hcursor
  obtain ⟨splatted, next, -, hclosing, -⟩ := splat?_at ⟨bracket, pos, []⟩ h.advance
  have ht : (State.mk symbols groups cursor).here.token? =
      some (.closing bracket splatted, next) := by
    rw [hhere, Cursor.token?_closing]
    exact congrArg some hclosing
  have hends := Ends.unexpected ht fun group hgroup hsame =>
    hgroups group hgroup (by rw [hcursor, hsame]; rfl)
  rw [hhere] at hends
  exact hends

/-- **Every form is read within its number of characters.** -/
theorem next?_comes (text : List Char) (depth : Nat) :
    ReadsWithin text depth (next? text depth) := by
  induction depth with
  | zero => exact fun _ _ _ _ _ _ hdepth => absurd hdepth (Nat.not_lt_zero _)
  | succ depth ih =>
    intro s before cursor symbols h hsame hdepth
    obtain ⟨here, hskip, hhere⟩ := skip?_at h (Nat.lt_succ_of_le h.length_le)
    have hskips := cursor.not_skips_skipBlanks
    rw [hsame] at hhere
    simp only [next?, hskip, hhere.peek?, Option.bind_eq_bind, Option.bind_some]
    generalize hcursor : cursor.skipBlanks = there at *
    obtain ⟨rest, pos⟩ := there
    cases rest with
    | nil => exact ⟨_, rfl, .nothing (by rw [hcursor]; rfl) (by rw [hcursor]; exact hhere)⟩
    | cons c cs =>
      have hinside : cs.length < depth := Nat.lt_of_succ_lt_succ hdepth
      rcases bracket_or_run (hskips c rfl) with ⟨bracket, rfl⟩ | ⟨bracket, rfl⟩ | hc
      · obtain ⟨found, hfound, hcomes⟩ := group?_comes ih bracket symbols hcursor hhere hinside
        refine ⟨found, ?_, hcomes⟩
        cases bracket <;> exact hfound
      · refine ⟨_, ?_, unexpected_comes symbols bracket hcursor hhere⟩
        rw [← show here.pos = pos from hhere.pos]
        cases bracket <;> rfl
      · obtain ⟨found, hfound, hcomes⟩ := atom?_comes symbols hc hcursor hhere
        refine ⟨found, ?_, hcomes⟩
        have hne : ∀ d, Delimits d → c ≠ d := fun d hd he => hc (he ▸ hd)
        have hopening := hne '(' (by decide)
        have hopening' := hne '[' (by decide)
        have hclosing := hne ')' (by decide)
        have hclosing' := hne ']' (by decide)
        simp only [List.head?_cons, if_neg hopening, if_neg hopening', hclosing, hclosing',
          or_self, if_false, hfound]

/-! ## Readings -/

theorem read?_eq {reader : Reader} {pos : Pos} (h : At text s ⟨reader.rest, pos⟩) :
    ∃ offset, read? text reader.symbols s =
        some ((reader.read pos).1, (reader.read pos).2.symbols, offset) ∧
      sliceFrom? text offset = some (reader.read pos).2.rest := by
  have hdepth : (Cursor.mk reader.rest pos).skipBlanks.rest.length < text.length + 1 :=
    Nat.lt_succ_of_le (Nat.le_trans (Cursor.length_skipBlanks_le _) h.length_le)
  obtain ⟨found, hfound, hcomes⟩ := next?_comes text _ reader.symbols h rfl hdepth
  simp only [read?, hfound, Option.bind_eq_bind, Option.bind_some]
  cases hcomes with
  | form hat hform =>
    obtain ⟨state, hsteps, hcompletes⟩ := hform []
    have hread : reader.read pos = _ :=
      (Reader.read_of_steps hsteps).trans (Reader.read_of_completes hcompletes)
    rw [hread]
    exact ⟨_, by simp only [hat.pos], hat.slice⟩
  | nothing ht hat =>
    have hread : reader.read pos = _ := Reader.read_of_end (s := reader.start pos) rfl ht
    rw [hread]
    exact ⟨_, rfl, hat.slice.trans (congrArg some (Cursor.rest_eq_nil_of_token? ht))⟩
  | failed hat hfails =>
    obtain ⟨state, hsteps, hends⟩ := hfails [] nofun
    have hread : reader.read pos = _ :=
      (Reader.read_of_steps hsteps).trans (Reader.read_of_ends hends)
    rw [hread]
    exact ⟨_, rfl, hat⟩

theorem readAllFrom?_eq {reader : Reader} {pos : Pos} (h : At text s ⟨reader.rest, pos⟩)
    {most : Nat} (hmost : reader.rest.length ≤ most) (forms : List Form) :
    readAllFrom? text most reader.symbols s forms =
      some ((reader.readAllFrom pos forms).1, (reader.readAllFrom pos forms).2.symbols) := by
  induction most generalizing reader pos s forms with
  | zero =>
    obtain ⟨offset, hfound, hslice⟩ := read?_eq h
    rw [readAllFrom?, hfound, Reader.readAllFrom_eq]
    cases hread : reader.read pos with
    | mk reading after =>
      cases reading with
      | form form next => exact absurd (Reader.length_of_read hread) (by omega)
      | finished => rfl
      | failed failure => rfl
  | succ most ih =>
    obtain ⟨offset, hfound, hslice⟩ := read?_eq h
    rw [readAllFrom?, hfound, Reader.readAllFrom_eq]
    cases hread : reader.read pos with
    | mk reading after =>
      rw [hread] at hslice
      cases reading with
      | form form next =>
        have hless := Nat.lt_of_lt_of_le (Reader.length_of_read hread) hmost
        have hnext : At text ⟨offset, next⟩ ⟨after.rest, next⟩ := ⟨hslice, rfl⟩
        exact ih hnext (Nat.le_of_lt_succ hless) (form :: forms)
      | finished => rfl
      | failed failure => rfl

end Descent

namespace Reader

/-! ## Progress -/

/-- The readers of a text: one at its start, and what any reading leaves, from any place and
whatever it came to. -/
inductive Reached (table : SymbolTable) (text : String) : Reader → Prop
  | start : Reached table text (ofText table text)
  | read {reader : Reader} (h : Reached table text reader) (pos : Pos) :
    Reached table text (reader.read pos).2

/-- The number of bytes of a text in front of what is left of it. -/
def offset (text : String) (reader : Reader) : Nat :=
  text.utf8ByteSize - String.utf8Len reader.rest

section Progress

variable {table : SymbolTable} {text : String} {reader : Reader} {pos : Pos}

theorem rest_suffix_of_read (reader : Reader) (pos : Pos) :
    (reader.read pos).2.rest <:+ reader.rest := by
  obtain ⟨ls, hlex, -⟩ := met_of_read reader pos
  exact hlex.suffix

theorem Reached.suffix (h : Reached table text reader) : reader.rest <:+ text.toList := by
  induction h with
  | start => exact List.suffix_rfl
  | read _ pos ih => exact (rest_suffix_of_read _ pos).trans ih

/-- The rest of the text is at its offset and nowhere else. -/
theorem sliceFrom?_iff_offset (h : reader.rest <:+ text.toList) {k : Nat} :
    sliceFrom? text.toList k = some reader.rest ↔ k = reader.offset text := by
  have hsize : String.utf8Len text.toList = text.utf8ByteSize := by simp
  have hoffset : ∀ taken, text.toList = taken ++ reader.rest →
      String.utf8Len taken = reader.offset text := by
    intro taken htext
    rw [offset, ← hsize, htext]
    simp
  rw [sliceFrom?_eq_some_iff]
  constructor
  · rintro ⟨taken, htext, rfl⟩
    exact hoffset taken htext
  · rintro rfl
    obtain ⟨taken, htext⟩ := h
    exact ⟨taken, htext.symm, hoffset taken htext.symm⟩

theorem utf8Len_le_of_suffix {rest cs : List Char} (h : rest <:+ cs) :
    String.utf8Len rest ≤ String.utf8Len cs := by
  obtain ⟨taken, rfl⟩ := h
  simp

/-- The offset moves over what has been taken. -/
theorem offset_of_suffix {after : Reader} (h : reader.rest <:+ text.toList)
    (hafter : after.rest <:+ reader.rest) :
    reader.offset text ≤ after.offset text ∧
      (after.rest.length < reader.rest.length → reader.offset text < after.offset text) := by
  have hsize : String.utf8Len text.toList = text.utf8ByteSize := by simp
  have hwhole := utf8Len_le_of_suffix h
  have hle := utf8Len_le_of_suffix hafter
  rw [hsize] at hwhole
  refine ⟨Nat.sub_le_sub_left hle _, fun hless => ?_⟩
  have hlt : String.utf8Len after.rest < String.utf8Len reader.rest := by
    obtain ⟨taken, htaken⟩ := hafter
    rw [← htaken] at hless ⊢
    cases taken with
    | nil => exact absurd hless (Nat.lt_irrefl _)
    | cons c taken =>
      have hpos := c.utf8Size_pos
      simp only [List.cons_append, String.utf8Len_cons, String.utf8Len_append]
      omega
  unfold offset
  omega

/-- Nothing but blanks and comments is stepped over to the end. -/
theorem skipBlanks_of_skipped {cs : List Char} (h : Skipped cs []) (pos : Pos) :
    (Cursor.skipBlanksFrom false cs pos).rest = [] := by
  generalize hlast : ([] : List Char) = last at h
  induction h generalizing pos with
  | nothing =>
    rw [← hlast]
    rfl
  | blank hc _ ih =>
    rw [Cursor.skipBlanksFrom_of_blank hc]
    exact ih _ hlast
  | @comment body cs _ hbody _ ih =>
    obtain ⟨pos', hpos⟩ := Cursor.skipBlanksFrom_comment hbody cs (pos.advance ';')
    have hstart : Cursor.skipBlanksFrom false (';' :: (body ++ '\n' :: cs)) pos =
      Cursor.skipBlanksFrom true (body ++ '\n' :: cs) (pos.advance ';') := rfl
    rw [hstart, hpos]
    exact ih pos' hlast
  | lastComment hbody => exact Cursor.skipBlanksFrom_lastComment hbody (pos.advance ';')

/-- One reading takes what lies in the text. -/
theorem gives_of_rest (reader : Reader) (pos : Pos) :
    (Source.mk reader.rest pos).Gives reader.rest (reader.read pos).1 (reader.read pos).2.rest :=
  Source.gives_of_read List.suffix_rfl (Source.mk reader.rest pos).placeOf_text.symm

theorem read_eq_finished_iff :
    (reader.read pos).1 = .finished ↔ Skipped reader.rest [] := by
  constructor
  · intro h
    have hgives := gives_of_rest reader pos
    rw [h] at hgives
    exact hgives.skipped
  · intro h
    have hrest : (reader.start pos).here.rest = [] := skipBlanks_of_skipped h pos
    have ht : (reader.start pos).here.token? = none := Descent.token?_of_rest_eq_nil hrest
    have hread : reader.read pos = _ := read_of_end (s := reader.start pos) rfl ht
    rw [hread]

theorem atomic_of_runReads {run : List Char} {a : Atom} (h : RunReads run a.tree) :
    Atomic run a.tree := by
  generalize ha : a.tree = t at h
  cases h with
  | atom _ hatomic => exact hatomic
  | splat _ _ => cases a <;> cases ha

/-- A form that is one atom, or the splat of one, is spelled by at least one character. -/
theorem spelled_of_read {form : Form} {next : Pos} {after : Reader}
    (h : reader.read pos = (.form form next, after)) :
    (∀ a place, form = .atom a place → ∃ run, run ≠ [] ∧ Atomic run a.tree ∧
        Skipped reader.rest (run ++ after.rest)) ∧
      ∀ a place place', form = .splat (.atom a place) place' → ∃ run, run ≠ [] ∧
        Atomic run a.tree ∧ Skipped reader.rest (run ++ splatMark ++ after.rest) := by
  have hgives := gives_of_rest reader pos
  rw [h] at hgives
  obtain ⟨hlayout, -⟩ := hgives.layout
  change (Source.mk reader.rest pos).Layout reader.rest [form] after.rest at hlayout
  generalize after.rest = last at hlayout
  constructor
  · rintro a place rfl
    cases hlayout with
    | @atom _ run rest _ _ _ hskip hrun hend hreads hlast =>
      cases hlast
      exact ⟨run, hrun.ne_nil, atomic_of_runReads hreads, hskip⟩
  · rintro a place place' rfl
    cases hlayout with
    | @splatAtom _ run rest _ _ _ hskip hrun hend hreads hlast =>
      cases hlast
      cases hreads with
      | atom _ hatomic => cases hatomic
      | @splat target _ hne hatomic => exact ⟨target, hne, hatomic, hskip⟩

/-- There are no more forms than characters. -/
theorem ReadsOn.length_le {forms : List Form} {last : Reader} {stop : Pos}
    (h : reader.ReadsOn pos forms last stop) :
    last.rest.length + forms.length ≤ reader.rest.length := by
  induction h with
  | nil => exact Nat.le_refl _
  | cons hread _ ih =>
    have hless := length_of_read hread
    rw [List.length_cons]
    omega

/-- **Reading makes progress and stops.** From any reader of a text, at any place, the reader by
recursive descent comes to the same as `Reader.read`, within its bounds and without an item that
finds nothing. The offset does not go back or beyond the end of the text. A form has taken at least
one character, and an atom is spelled by at least one. The end is reported if nothing but blanks,
commas and comments is left, and only then. There are no more forms to read than characters are
left, so that many readings of forms and one more read all of them. -/
theorem progress (h : Reached table text reader) (pos : Pos) :
    Descent.read? text.toList reader.symbols ⟨reader.offset text, pos⟩ =
        some ((reader.read pos).1, (reader.read pos).2.symbols, (reader.read pos).2.offset text) ∧
      reader.offset text ≤ (reader.read pos).2.offset text ∧
      (reader.read pos).2.offset text ≤ text.utf8ByteSize ∧
      (∀ form next after, reader.read pos = (.form form next, after) →
        reader.offset text < after.offset text ∧ after.rest.length < reader.rest.length ∧
          (∀ a place, form = .atom a place → ∃ run, run ≠ [] ∧ Atomic run a.tree ∧
            Skipped reader.rest (run ++ after.rest)) ∧
          ∀ a place place', form = .splat (.atom a place) place' → ∃ run, run ≠ [] ∧
            Atomic run a.tree ∧ Skipped reader.rest (run ++ splatMark ++ after.rest)) ∧
      ((reader.read pos).1 = .finished ↔ Skipped reader.rest []) ∧
      (∀ forms last stop, reader.ReadsOn pos forms last stop →
        forms.length ≤ reader.rest.length) ∧
      Descent.readAllFrom? text.toList reader.rest.length reader.symbols
          ⟨reader.offset text, pos⟩ [] =
        some ((reader.readAll pos).1, (reader.readAll pos).2.symbols) := by
  have hsuffix := h.suffix
  have hafter := (h.read pos).suffix
  have hat : Offsets.At text.toList ⟨reader.offset text, pos⟩ ⟨reader.rest, pos⟩ :=
    ⟨(sliceFrom?_iff_offset hsuffix).2 rfl, rfl⟩
  have hforward := offset_of_suffix hsuffix (rest_suffix_of_read reader pos)
  refine ⟨?_, hforward.1, Nat.sub_le _ _, fun form next after hread => ?_, read_eq_finished_iff,
    fun forms last stop hon => Nat.le_trans (Nat.le_add_left _ _) hon.length_le,
    Descent.readAllFrom?_eq hat (Nat.le_refl _) []⟩
  · obtain ⟨offset, hread, hslice⟩ := Descent.read?_eq hat
    rw [(sliceFrom?_iff_offset hafter).1 hslice] at hread
    exact hread
  · have hless := length_of_read hread
    rw [hread] at hforward
    exact ⟨hforward.2 hless, hless, spelled_of_read hread⟩

end Progress

/-- Behind a mark that has no target, and is left out of what is read next, a form is read. -/
theorem progress_afterFailure :
    let start := ofText .empty ".. 7"
    let failed := start.read (.start "main")
    let last := failed.2.read (.start "main")
    Reached .empty ".. 7" failed.2 ∧
      failed.1 = .failed ⟨.start "main", .missingTarget⟩ ∧ failed.2.offset ".. 7" = 2 ∧
      last.1 = .form (.atom (.int 7) ⟨"main", 1, 2⟩) ⟨"main", 1, 3⟩ ∧
        last.2.offset ".. 7" = 4 := by
  intro start failed last
  have hstart : Reached .empty ".. 7" start := .start
  have hfailed : Reached .empty ".. 7" failed.2 := hstart.read (.start "main")
  obtain ⟨hread, -⟩ := progress hstart (.start "main")
  obtain ⟨hnext, -⟩ := progress hfailed (.start "main")
  have hfirst : Descent.read? ".. 7".toList .empty ⟨0, .start "main"⟩ =
      some (.failed ⟨.start "main", .missingTarget⟩, .empty, 2) := rfl
  have hsecond : Descent.read? ".. 7".toList .empty ⟨2, .start "main"⟩ =
      some (.form (.atom (.int 7) ⟨"main", 1, 2⟩) ⟨"main", 1, 3⟩, .empty, 4) := rfl
  obtain ⟨hreading, hafter⟩ := Prod.mk.inj (Option.some.inj (hread.symm.trans hfirst))
  obtain ⟨hsymbols, hoffset⟩ := Prod.mk.inj hafter
  rw [hsymbols, hoffset, hsecond] at hnext
  obtain ⟨hform, hlast⟩ := Prod.mk.inj (Option.some.inj hnext)
  exact ⟨hfailed, hreading, hoffset, hform.symm, (Prod.mk.inj hlast).2.symm⟩

end Reader

end SplatLisp
