import Mathlib.Logic.Relation
import SplatLisp.Reader

/-!
# The reader step by step

Reading one form is a run of a small machine. Its state holds the symbols, the open groups and a
cursor; a token that opens a group, or completes a form inside of one, leads to the next state
(`Step`), and a form that is completed outside of all groups is the one that is read
(`exists_completes_of_read`, `read_of_completes`). What a step keeps holds of the whole reading.
-/

namespace SplatLisp.Reader

/-- What reading goes on from. -/
structure State where
  symbols : SymbolTable
  groups : List OpenGroup
  cursor : Cursor

namespace State

/-- The cursor at the next token. -/
def here (s : State) : Cursor := s.cursor.skipBlanks

/-- Reads on until the outermost of the open groups is complete. -/
def read (s : State) : Reading × Reader := readFrom s.symbols s.groups s.cursor

end State

/-- A form is completed by the next token of a state. The groups are those that it stands in, and
the symbols and the cursor are those after it. -/
inductive Completes (s : State) : Form → List OpenGroup → SymbolTable → Cursor → Prop
  | closing {group : OpenGroup} {outer : List OpenGroup} {splatted : Bool} {next : Cursor}
    (hgroups : s.groups = group :: outer)
    (ht : s.here.token? = some (.closing group.bracket splatted, next)) :
    Completes s (group.close splatted) outer s.symbols next
  | run {cs : List Char} {form : Form} {symbols : SymbolTable} {next : Cursor}
    (ht : s.here.token? = some (.run cs, next))
    (hform : formOfRun s.symbols cs s.here.pos = (.ok form, symbols)) :
    Completes s form s.groups symbols next

/-- One token leads from a state to the next. -/
inductive Step (s : State) : State → Prop
  | opening {bracket : Bracket} {next : Cursor}
    (ht : s.here.token? = some (.opening bracket, next)) :
    Step s ⟨s.symbols, ⟨bracket, s.here.pos, []⟩ :: s.groups, next⟩
  | item {form : Form} {group : OpenGroup} {outer : List OpenGroup} {symbols : SymbolTable}
    {next : Cursor} (h : Completes s form (group :: outer) symbols next) :
    Step s ⟨symbols, group.add form :: outer, next⟩

/-- Any number of tokens lead from a state to another. -/
abbrev Steps : State → State → Prop := Relation.ReflTransGen Step

/-- How the next token of a state, or the end of the text, brings the reading to an end. -/
inductive Ends (s : State) : Reading × Reader → Prop
  | form {form : Form} {symbols : SymbolTable} {next : Cursor}
    (h : Completes s form [] symbols next) :
    Ends s (.form form next.pos, ⟨next.rest, symbols⟩)
  | finished (hgroups : s.groups = []) (ht : s.here.token? = none) :
    Ends s (.finished, ⟨[], s.symbols⟩)
  | unclosed {group : OpenGroup} {outer : List OpenGroup} (hgroups : s.groups = group :: outer)
    (ht : s.here.token? = none) :
    Ends s (.failed ⟨s.here.pos, .unclosed group.bracket⟩, ⟨[], s.symbols⟩)
  /-- No group is open, or the innermost one has another bracket. -/
  | unexpected {bracket : Bracket} {splatted : Bool} {next : Cursor}
    (ht : s.here.token? = some (.closing bracket splatted, next))
    (hgroups : ∀ group ∈ s.groups.head?, group.bracket ≠ bracket) :
    Ends s (.failed ⟨s.here.pos, .unexpected bracket.closing⟩, ⟨s.here.rest, s.symbols⟩)
  | badRun {cs : List Char} {cause : ReadCause} {symbols : SymbolTable} {next : Cursor}
    (ht : s.here.token? = some (.run cs, next))
    (hform : formOfRun s.symbols cs s.here.pos = (.error cause, symbols)) :
    Ends s (.failed ⟨s.here.pos, cause⟩, ⟨next.rest, symbols⟩)

theorem place_eq_inl {form form' : Form} {groups : List OpenGroup}
    (h : place form groups = .inl form') : groups = [] ∧ form' = form := by
  cases groups with
  | nil =>
    cases h
    exact ⟨rfl, rfl⟩
  | cons group outer => cases h

theorem place_eq_inr {form : Form} {groups groups' : List OpenGroup}
    (h : place form groups = .inr groups') :
    ∃ group outer, groups = group :: outer ∧ groups' = group.add form :: outer := by
  cases groups with
  | nil => cases h
  | cons group outer =>
    cases h
    exact ⟨group, outer, rfl, rfl⟩

theorem read_of_completes {s : State} {form : Form} {symbols : SymbolTable} {next : Cursor}
    (h : Completes s form [] symbols next) :
    s.read = (.form form next.pos, ⟨next.rest, symbols⟩) := by
  obtain ⟨symbols₀, groups, cursor⟩ := s
  cases h with
  | closing hgroups ht =>
    cases hgroups
    simp only [State.here] at ht
    rw [State.read, readFrom]
    grind [place]
  | run ht hform =>
    simp only [State.here] at ht hform
    rw [State.read, readFrom]
    grind [place]

theorem read_of_step {s s' : State} (h : Step s s') : s.read = s'.read := by
  obtain ⟨symbols₀, groups, cursor⟩ := s
  cases h with
  | opening ht =>
    simp only [State.here] at ht
    rw [State.read, readFrom]
    grind [State.read, State.here]
  | item h =>
    cases h with
    | closing hgroups ht =>
      cases hgroups
      simp only [State.here] at ht
      rw [State.read, readFrom]
      grind [State.read, State.here, place]
    | run ht hform =>
      simp only [State.here] at ht hform
      rw [State.read, readFrom]
      grind [State.read, State.here, place]

theorem read_of_steps {s s' : State} (h : Steps s s') : s.read = s'.read := by
  induction h with
  | refl => rfl
  | tail _ hstep ih => exact ih.trans (read_of_step hstep)

theorem read_of_end {s : State} (hgroups : s.groups = []) (ht : s.here.token? = none) :
    s.read = (.finished, ⟨[], s.symbols⟩) := by
  obtain ⟨symbols, groups, cursor⟩ := s
  cases hgroups
  simp only [State.here] at ht
  rw [State.read, readFrom]
  grind

theorem read_of_ends {s : State} {o : Reading × Reader} (h : Ends s o) : s.read = o := by
  cases h with
  | form hform => exact read_of_completes hform
  | finished hgroups ht => exact read_of_end hgroups ht
  | unclosed hgroups ht =>
    obtain ⟨symbols, groups, cursor⟩ := s
    cases hgroups
    simp only [State.here] at ht ⊢
    rw [State.read, readFrom]
    grind
  | @unexpected bracket _ _ ht hgroups =>
    obtain ⟨symbols, groups, cursor⟩ := s
    simp only [State.here] at ht ⊢
    rw [State.read, readFrom]
    cases groups with
    | nil => grind
    | cons group outer =>
      have hne : group.bracket ≠ bracket := hgroups group rfl
      grind
  | badRun ht hform =>
    obtain ⟨symbols, groups, cursor⟩ := s
    simp only [State.here] at ht hform ⊢
    rw [State.read, readFrom]
    grind

/-- **Every reading is a number of steps and an end.** -/
theorem exists_ends (s : State) : ∃ s', Steps s s' ∧ Ends s' s.read := by
  obtain ⟨symbols, groups, cursor⟩ := s
  simp only [State.read]
  fun_induction readFrom symbols groups cursor with
  | case1 symbols cursor _ ht => exact ⟨_, .refl, .finished rfl ht⟩
  | case2 symbols cursor _ ht _ group outer => exact ⟨_, .refl, .unclosed rfl ht⟩
  | case3 symbols groups cursor _ bracket next ht ih =>
    obtain ⟨s', hsteps, hends⟩ := ih
    exact ⟨s', .head (.opening ht) hsteps, hends⟩
  | case4 symbols cursor _ bracket splatted next ht =>
    exact ⟨_, .refl, .unexpected ht fun group hgroup => by cases hgroup⟩
  | case5 symbols cursor _ splatted next group outer form hplace ht =>
    obtain ⟨rfl, rfl⟩ := place_eq_inl hplace
    exact ⟨_, .refl, .form (.closing rfl ht)⟩
  | case6 symbols cursor _ splatted next group outer groups hplace ht ih =>
    obtain ⟨g, rest, rfl, rfl⟩ := place_eq_inr hplace
    obtain ⟨s', hsteps, hends⟩ := ih
    exact ⟨s', .head (.item (.closing rfl ht)) hsteps, hends⟩
  | case7 symbols cursor _ bracket splatted next ht _ group outer hne =>
    refine ⟨_, .refl, .unexpected ht fun g hg => ?_⟩
    cases hg
    exact hne
  | case8 symbols groups cursor _ cs next ht cause symbols' hform =>
    exact ⟨_, .refl, .badRun ht hform⟩
  | case9 symbols groups cursor _ cs next ht form symbols' hform form' hplace =>
    obtain ⟨rfl, rfl⟩ := place_eq_inl hplace
    exact ⟨_, .refl, .form (.run ht hform)⟩
  | case10 symbols groups cursor _ cs next ht form symbols' hform groups' hplace ih =>
    obtain ⟨g, rest, rfl, rfl⟩ := place_eq_inr hplace
    obtain ⟨s', hsteps, hends⟩ := ih
    exact ⟨s', .head (.item (.run ht hform)) hsteps, hends⟩

/-- A form that is read has been completed outside of all groups. -/
theorem exists_completes_of_read {s : State} {form : Form} {next : Pos} {reader : Reader}
    (h : s.read = (.form form next, reader)) :
    ∃ s', Steps s s' ∧ Completes s' form [] reader.symbols ⟨reader.rest, next⟩ := by
  obtain ⟨s', hsteps, hends⟩ := exists_ends s
  rw [h] at hends
  cases hends with
  | form hcompletes => exact ⟨s', hsteps, hcompletes⟩

/-- Reading all forms is one reading and reading on. -/
theorem readAllFrom_eq (reader : Reader) (pos : Pos) (done : List Form) :
    reader.readAllFrom pos done = match reader.read pos with
      | (.form form next, reader) => reader.readAllFrom next (form :: done)
      | (.finished, reader) => (.ok done.reverse, reader)
      | (.failed failure, reader) => (.error failure, reader) := by
  rw [readAllFrom]
  split <;> simp_all

end SplatLisp.Reader
