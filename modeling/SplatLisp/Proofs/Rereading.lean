import SplatLisp.Proofs.LikeForms
import SplatLisp.Proofs.Reading

/-!
# Reading one text twice

The same text is read from two places, with two symbol tables. The readings agree in all but places
and tags: they give forms with the same trees, or fail for the same cause, and leave the same rest
of the text (`Reader.read_alike`, `Reader.readAll_alike`). So neither the place where a text starts
nor the names interned before have a say in what it reads as.

How the places and the tables of the two readings are related is left open: `Q` is any relation that
advancing over one character keeps, and `S` any that interning one name keeps. Where `Q` relates
the places at the start, it relates those of the forms, part by part.
-/

namespace SplatLisp

namespace Reader

variable {S : SymbolTable → SymbolTable → Prop} {Q : Pos → Pos → Prop}

/-! ## States of the two readings -/

structure CursorsAlike (Q : Pos → Pos → Prop) (c c' : Cursor) : Prop where
  rest : c.rest = c'.rest
  pos : Q c.pos c'.pos

structure GroupsAlike (Q : Pos → Pos → Prop) (g g' : OpenGroup) : Prop where
  bracket : g.bracket = g'.bracket
  start : Q g.start g'.start
  items : List.Forall₂ (Form.Like Symbol.SameName Q) g.items g'.items

structure StatesAlike (S : SymbolTable → SymbolTable → Prop) (Q : Pos → Pos → Prop)
    (s s' : State) : Prop where
  symbols : S s.symbols s'.symbols
  groups : List.Forall₂ (GroupsAlike Q) s.groups s'.groups
  cursor : CursorsAlike Q s.cursor s'.cursor

inductive ReadingsAlike (Q : Pos → Pos → Prop) : Reading → Reading → Prop
  | form {form form' : Form} {next next' : Pos} (hform : form.Like Symbol.SameName Q form')
    (hnext : Q next next') : ReadingsAlike Q (.form form next) (.form form' next')
  | finished : ReadingsAlike Q .finished .finished
  | failed {pos pos' : Pos} (cause : ReadCause) (hpos : Q pos pos') :
    ReadingsAlike Q (.failed ⟨pos, cause⟩) (.failed ⟨pos', cause⟩)

/-- What is left of the text after two readings, and the tables then. -/
structure ReadersAlike (S : SymbolTable → SymbolTable → Prop) (reader reader' : Reader) :
    Prop where
  rest : reader.rest = reader'.rest
  symbols : S reader.symbols reader'.symbols

/-! ## Tokens -/

section Cursors

variable (hQ : ∀ {p p' : Pos} (c : Char), Q p p' → Q (p.advance c) (p'.advance c))

include hQ

theorem advanceAll_alike {p p' : Pos} (cs : List Char) (h : Q p p') :
    Q (p.advanceAll cs) (p'.advanceAll cs) := by
  induction cs generalizing p p' with
  | nil => exact h
  | cons c cs ih => exact ih (hQ c h)

theorem skipBlanks_alike {c c' : Cursor} (h : CursorsAlike Q c c') :
    CursorsAlike Q c.skipBlanks c'.skipBlanks := by
  obtain ⟨rest, pos⟩ := c
  obtain ⟨rest', pos'⟩ := c'
  obtain ⟨rfl, hpos⟩ := h
  have hfrom : ∀ comment, CursorsAlike Q (Cursor.skipBlanksFrom comment rest pos)
      (Cursor.skipBlanksFrom comment rest pos') := by
    induction rest generalizing pos pos' with
    | nil => exact fun _ => ⟨rfl, hpos⟩
    | cons d rest ih =>
      intro comment
      have hnext := ih _ _ (hQ d hpos)
      unfold Cursor.skipBlanksFrom
      split
      · exact hnext _
      · split
        · exact hnext _
        · split
          · exact hnext _
          · exact ⟨rfl, hpos⟩
  exact hfrom false

theorem closing_alike (bracket : Bracket) {c c' : Cursor} (h : CursorsAlike Q c c') :
    (c.closing bracket).1 = (c'.closing bracket).1 ∧
      CursorsAlike Q (c.closing bracket).2 (c'.closing bracket).2 := by
  obtain ⟨rest, pos⟩ := c
  obtain ⟨rest', pos'⟩ := c'
  obtain ⟨rfl, hpos⟩ := h
  rcases Cursor.closing_eq bracket rest pos with ⟨after, -, rfl, -⟩ | ⟨hmark, heq⟩
  · exact ⟨rfl, rfl, hQ '.' (hQ '.' hpos)⟩
  · rcases Cursor.closing_eq bracket rest pos' with ⟨after, -, rfl, -⟩ | ⟨-, heq'⟩
    · exact absurd (splatMark_isPrefix_iff.2 ⟨after, rfl⟩) hmark
    · rw [heq, heq']
      exact ⟨rfl, rfl, hpos⟩

theorem token?_alike {c c' : Cursor} (h : CursorsAlike Q c c') :
    (c.token? = none ∧ c'.token? = none) ∨ ∃ token next next',
      c.token? = some (token, next) ∧ c'.token? = some (token, next') ∧
        CursorsAlike Q next next' := by
  obtain ⟨rest, pos⟩ := c
  obtain ⟨rest', pos'⟩ := c'
  obtain ⟨rfl, hpos⟩ := h
  cases rest with
  | nil => exact .inl ⟨rfl, rfl⟩
  | cons d rest =>
    have hafter : CursorsAlike Q ⟨rest, pos.advance d⟩ ⟨rest, pos'.advance d⟩ := ⟨rfl, hQ d hpos⟩
    have hclosing : ∀ bracket, ∃ token next next',
        some (Cursor.closing bracket ⟨rest, pos.advance d⟩) = some (token, next) ∧
        some (Cursor.closing bracket ⟨rest, pos'.advance d⟩) = some (token, next') ∧
          CursorsAlike Q next next' := by
      intro bracket
      obtain ⟨htoken, hnext⟩ := closing_alike hQ bracket hafter
      generalize Cursor.closing bracket ⟨rest, pos.advance d⟩ = o at htoken hnext ⊢
      generalize Cursor.closing bracket ⟨rest, pos'.advance d⟩ = o' at htoken hnext ⊢
      exact ⟨o.1, o.2, o'.2, rfl, congrArg some (Prod.ext htoken.symm rfl), hnext⟩
    right
    unfold Cursor.token?
    dsimp only
    split
    · exact ⟨_, _, _, rfl, rfl, hafter⟩
    · exact ⟨_, _, _, rfl, rfl, hafter⟩
    · exact hclosing .round
    · exact hclosing .square
    · exact ⟨_, _, _, rfl, rfl, rfl, advanceAll_alike hQ _ (hQ d hpos)⟩

end Cursors

/-! ## Runs -/

section Runs

variable (hS : ∀ {t t' : SymbolTable} (name : String),
  S t t' → S (t.intern name).2 (t'.intern name).2)

include hS

theorem atomOfRun_alike {t t' : SymbolTable} (h : S t t') (cs : List Char) :
    S (atomOfRun t cs).2 (atomOfRun t' cs).2 ∧
      ((∃ cause, (atomOfRun t cs).1 = .error cause ∧ (atomOfRun t' cs).1 = .error cause) ∨
        ∃ a a', (atomOfRun t cs).1 = .ok a ∧ (atomOfRun t' cs).1 = .ok a' ∧
          a.Like Symbol.SameName a') := by
  by_cases hliteral : cs ∈ [['_'], ['T'], ['F']]
  · simp only [List.mem_cons, List.not_mem_nil, or_false] at hliteral
    rcases hliteral with rfl | rfl | rfl
    · exact ⟨h, .inr ⟨_, _, rfl, rfl, .nil⟩⟩
    · exact ⟨h, .inr ⟨_, _, rfl, rfl, .bool true⟩⟩
    · exact ⟨h, .inr ⟨_, _, rfl, rfl, .bool false⟩⟩
  · rw [atomOfRun_of_not_literal t hliteral, atomOfRun_of_not_literal t' hliteral]
    cases Decimal.toInt64? cs with
    | some n =>
      cases n with
      | some n => exact ⟨h, .inr ⟨_, _, rfl, rfl, .int n⟩⟩
      | none => exact ⟨h, .inl ⟨_, rfl, rfl⟩⟩
    | none =>
      have hname : Symbol.SameName (t.intern (.ofList cs)).1 (t'.intern (.ofList cs)).1 := by
        rw [Symbol.SameName, SymbolTable.intern_name, SymbolTable.intern_name]
      exact ⟨hS _ h, .inr ⟨_, _, rfl, rfl, .id hname⟩⟩

/-- A run stands for forms that are alike, or for nothing for the same cause. -/
theorem formOfRun_alike {t t' : SymbolTable} (h : S t t') (cs : List Char) {pos pos' : Pos}
    (hpos : Q pos pos') :
    S (formOfRun t cs pos).2 (formOfRun t' cs pos').2 ∧
      ((∃ cause, (formOfRun t cs pos).1 = .error cause ∧
          (formOfRun t' cs pos').1 = .error cause) ∨
        ∃ form form', (formOfRun t cs pos).1 = .ok form ∧ (formOfRun t' cs pos').1 = .ok form' ∧
          form.Like Symbol.SameName Q form') := by
  unfold formOfRun
  split
  · exact ⟨h, .inl ⟨_, rfl, rfl⟩⟩
  · next target _ _ =>
    obtain ⟨hsymbols, hatom⟩ := atomOfRun_alike hS h target
    refine ⟨hsymbols, ?_⟩
    dsimp only
    rcases hatom with ⟨cause, he, he'⟩ | ⟨a, a', ha, ha', halike⟩
    · rw [he, he']
      exact .inl ⟨cause, rfl, rfl⟩
    · rw [ha, ha']
      exact .inr ⟨_, _, rfl, rfl, .splat (.atom halike hpos) hpos⟩
  · obtain ⟨hsymbols, hatom⟩ := atomOfRun_alike hS h cs
    refine ⟨hsymbols, ?_⟩
    dsimp only
    rcases hatom with ⟨cause, he, he'⟩ | ⟨a, a', ha, ha', halike⟩
    · rw [he, he']
      exact .inl ⟨cause, rfl, rfl⟩
    · rw [ha, ha']
      exact .inr ⟨_, _, rfl, rfl, .atom halike hpos⟩

end Runs

/-! ## Steps -/

section Steps

variable (hS : ∀ {t t' : SymbolTable} (name : String),
  S t t' → S (t.intern name).2 (t'.intern name).2)
variable (hQ : ∀ {p p' : Pos} (c : Char), Q p p' → Q (p.advance c) (p'.advance c))

theorem GroupsAlike.close {g g' : OpenGroup} (h : GroupsAlike Q g g') (splatted : Bool) :
    (g.close splatted).Like Symbol.SameName Q (g'.close splatted) := by
  have hform := Form.Like.group g.bracket (List.forall₂_reverse_iff.2 h.items) h.start
  rw [OpenGroup.close, OpenGroup.close, ← h.bracket]
  cases splatted with
  | false => exact hform
  | true => exact .splat hform h.start

include hQ

theorem StatesAlike.here {s s' : State} (h : StatesAlike S Q s s') :
    CursorsAlike Q s.here s'.here :=
  skipBlanks_alike hQ h.cursor

/-- The next tokens are the same. -/
theorem StatesAlike.next {s s' : State} (h : StatesAlike S Q s s') {token : Token} {next : Cursor}
    (ht : s.here.token? = some (token, next)) :
    ∃ next', s'.here.token? = some (token, next') ∧ CursorsAlike Q next next' := by
  rcases token?_alike hQ (h.here hQ) with ⟨hnone, -⟩ | ⟨token', next₁, next', ht₁, ht', hnext⟩
  · rw [hnone] at ht
    cases ht
  · rw [ht₁] at ht
    cases ht
    exact ⟨next', ht', hnext⟩

theorem StatesAlike.end {s s' : State} (h : StatesAlike S Q s s') (ht : s.here.token? = none) :
    s'.here.token? = none := by
  rcases token?_alike hQ (h.here hQ) with ⟨-, hnone⟩ | ⟨token', next₁, next', ht₁, -, -⟩
  · exact hnone
  · rw [ht₁] at ht
    cases ht

include hS

/-- What the next token completes in one reading, it completes in the other. -/
theorem StatesAlike.completes {s s' : State} (h : StatesAlike S Q s s') {form : Form}
    {outer : List OpenGroup} {symbols : SymbolTable} {next : Cursor}
    (hform : Completes s form outer symbols next) :
    ∃ form' outer' symbols' next', Completes s' form' outer' symbols' next' ∧
      form.Like Symbol.SameName Q form' ∧ List.Forall₂ (GroupsAlike Q) outer outer' ∧
        S symbols symbols' ∧ CursorsAlike Q next next' := by
  cases hform with
  | @closing group outer splatted next hgroups ht =>
    obtain ⟨next', ht', hnext⟩ := h.next hQ ht
    have hstacks := h.groups
    rw [hgroups, List.forall₂_cons_left_iff] at hstacks
    obtain ⟨group', outer', hgroup, houter, hgroups'⟩ := hstacks
    rw [hgroup.bracket] at ht'
    exact ⟨_, _, _, next', .closing hgroups' ht', hgroup.close splatted, houter, h.symbols, hnext⟩
  | @run cs form symbols next ht hform =>
    obtain ⟨next', ht', hnext⟩ := h.next hQ ht
    obtain ⟨hsymbols, ⟨_, he, -⟩ | ⟨_, form', ho, ho', halike⟩⟩ :=
      formOfRun_alike hS h.symbols cs (h.here hQ).pos
    · rw [hform] at he
      cases he
    · rw [hform] at hsymbols ho
      cases ho
      exact ⟨form', _, _, next', .run ht' (Prod.ext ho' rfl), halike, h.groups, hsymbols, hnext⟩

theorem StatesAlike.step {s s' t : State} (h : StatesAlike S Q s s') (hstep : Step s t) :
    ∃ t', Step s' t' ∧ StatesAlike S Q t t' := by
  cases hstep with
  | @opening bracket next ht =>
    obtain ⟨next', ht', hnext⟩ := h.next hQ ht
    have hgroup : GroupsAlike Q ⟨bracket, s.here.pos, []⟩ ⟨bracket, s'.here.pos, []⟩ :=
      ⟨rfl, (h.here hQ).pos, .nil⟩
    exact ⟨_, .opening ht', h.symbols, .cons hgroup h.groups, hnext⟩
  | item hform =>
    obtain ⟨form', outer', symbols', next', hform', halike, hgroups, hsymbols, hnext⟩ :=
      h.completes hS hQ hform
    cases hgroups with
    | cons hgroup houter =>
      have hadd := List.Forall₂.cons halike hgroup.items
      exact ⟨_, .item hform', hsymbols, .cons ⟨hgroup.bracket, hgroup.start, hadd⟩ houter, hnext⟩

theorem StatesAlike.steps {s s' t : State} (h : StatesAlike S Q s s') (hsteps : Steps s t) :
    ∃ t', Steps s' t' ∧ StatesAlike S Q t t' := by
  induction hsteps with
  | refl => exact ⟨s', .refl, h⟩
  | tail _ hstep ih =>
    obtain ⟨u', hsteps', hu⟩ := ih
    obtain ⟨t', hstep', ht⟩ := hu.step hS hQ hstep
    exact ⟨t', hsteps'.tail hstep', ht⟩

theorem StatesAlike.ends {s s' : State} (h : StatesAlike S Q s s') {o : Reading × Reader}
    (hends : Ends s o) :
    ∃ o', Ends s' o' ∧ ReadingsAlike Q o.1 o'.1 ∧ ReadersAlike S o.2 o'.2 := by
  have hhere := h.here hQ
  cases hends with
  | form hform =>
    obtain ⟨form', outer', symbols', next', hform', halike, hgroups, hsymbols, hnext⟩ :=
      h.completes hS hQ hform
    cases hgroups
    exact ⟨_, .form hform', .form halike hnext.pos, hnext.rest, hsymbols⟩
  | finished hgroups ht =>
    have hstacks := h.groups
    rw [hgroups, List.forall₂_nil_left_iff] at hstacks
    exact ⟨_, .finished hstacks (h.end hQ ht), .finished, rfl, h.symbols⟩
  | unclosed hgroups ht =>
    have hstacks := h.groups
    rw [hgroups, List.forall₂_cons_left_iff] at hstacks
    obtain ⟨group', outer', hgroup, -, hgroups'⟩ := hstacks
    refine ⟨_, .unclosed hgroups' (h.end hQ ht), ?_, rfl, h.symbols⟩
    rw [hgroup.bracket]
    exact .failed _ hhere.pos
  | @unexpected bracket splatted next ht hgroups =>
    obtain ⟨next', ht', hnext⟩ := h.next hQ ht
    refine ⟨_, .unexpected ht' ?_, .failed _ hhere.pos, hhere.rest, h.symbols⟩
    intro group' hgroup'
    have hstacks := h.groups
    cases hstack' : s'.groups with
    | nil =>
      rw [hstack'] at hgroup'
      cases hgroup'
    | cons first outer =>
      rw [hstack'] at hgroup'
      cases hgroup'
      rw [hstack', List.forall₂_cons_right_iff] at hstacks
      obtain ⟨group, outer', hgroup, -, hstack⟩ := hstacks
      rw [← hgroup.bracket]
      exact hgroups group (by rw [hstack]; rfl)
  | @badRun cs cause symbols next ht hform =>
    obtain ⟨next', ht', hnext⟩ := h.next hQ ht
    obtain ⟨hsymbols, ⟨_, he, he'⟩ | ⟨_, _, ho, -, -⟩⟩ :=
      formOfRun_alike hS h.symbols cs hhere.pos
    · rw [hform] at hsymbols he
      cases he
      exact ⟨_, .badRun ht' (Prod.ext he' rfl), .failed _ hhere.pos, hnext.rest, hsymbols⟩
    · rw [hform] at ho
      cases ho

/-! ## Readings -/

/-- **One text is read alike from two places, with two tables.** -/
theorem read_alike {reader reader' : Reader} {pos pos' : Pos} (h : ReadersAlike S reader reader')
    (hpos : Q pos pos') :
    ReadingsAlike Q (reader.read pos).1 (reader'.read pos').1 ∧
      ReadersAlike S (reader.read pos).2 (reader'.read pos').2 := by
  have hstart : StatesAlike S Q (reader.start pos) (reader'.start pos') :=
    ⟨h.symbols, .nil, h.rest, hpos⟩
  obtain ⟨s, hsteps, hends⟩ := exists_ends (reader.start pos)
  obtain ⟨s', hsteps', hs⟩ := hstart.steps hS hQ hsteps
  obtain ⟨o', hends', ho⟩ := hs.ends hS hQ hends
  have hread : (reader'.start pos').read = o' := (read_of_steps hsteps').trans (read_of_ends hends')
  rw [← hread] at ho
  exact ho

/-- What reading all forms comes to in two readings. -/
inductive OutcomesAlike (Q : Pos → Pos → Prop) :
    Except ReadFailure (List Form) → Except ReadFailure (List Form) → Prop
  | ok {forms forms' : List Form} (h : List.Forall₂ (Form.Like Symbol.SameName Q) forms forms') :
    OutcomesAlike Q (.ok forms) (.ok forms')
  | error {pos pos' : Pos} (cause : ReadCause) (hpos : Q pos pos') :
    OutcomesAlike Q (.error ⟨pos, cause⟩) (.error ⟨pos', cause⟩)

theorem readAllFrom_alike {reader reader' : Reader} {pos pos' : Pos} {done done' : List Form}
    (h : ReadersAlike S reader reader') (hpos : Q pos pos')
    (hdone : List.Forall₂ (Form.Like Symbol.SameName Q) done done') :
    OutcomesAlike Q (reader.readAllFrom pos done).1 (reader'.readAllFrom pos' done').1 ∧
      ReadersAlike S (reader.readAllFrom pos done).2 (reader'.readAllFrom pos' done').2 := by
  fun_induction readAllFrom reader pos done generalizing reader' pos' done' with
  | case1 reader pos done form next after hread ih =>
    obtain ⟨hreading, hafter⟩ := read_alike hS hQ h hpos
    rw [hread] at hreading hafter
    rw [readAllFrom_eq reader']
    cases hread' : reader'.read pos' with
    | mk reading' after' =>
      rw [hread'] at hreading hafter
      cases hreading with
      | form hform hnext => exact ih hafter hnext (.cons hform hdone)
  | case2 reader pos done after hread =>
    obtain ⟨hreading, hafter⟩ := read_alike hS hQ h hpos
    rw [hread] at hreading hafter
    rw [readAllFrom_eq reader']
    cases hread' : reader'.read pos' with
    | mk reading' after' =>
      rw [hread'] at hreading hafter
      cases hreading
      exact ⟨.ok (List.forall₂_reverse_iff.2 hdone), hafter⟩
  | case3 reader pos done failure after hread =>
    obtain ⟨hreading, hafter⟩ := read_alike hS hQ h hpos
    rw [hread] at hreading hafter
    rw [readAllFrom_eq reader']
    cases hread' : reader'.read pos' with
    | mk reading' after' =>
      rw [hread'] at hreading hafter
      cases hreading with
      | failed cause hpos => exact ⟨.error cause hpos, hafter⟩

/-- **All forms of a text are read alike from two places, with two tables.** -/
theorem readAll_alike {reader reader' : Reader} {pos pos' : Pos}
    (h : ReadersAlike S reader reader') (hpos : Q pos pos') :
    OutcomesAlike Q (reader.readAll pos).1 (reader'.readAll pos').1 ∧
      ReadersAlike S (reader.readAll pos).2 (reader'.readAll pos').2 :=
  readAllFrom_alike hS hQ h hpos .nil

end Steps

/-- With two tables, a text is read alike from one place, and both tables keep their symbols. -/
theorem readAll_tables (chars : List Char) (pos : Pos) (table table' : SymbolTable) :
    OutcomesAlike Eq ((Reader.mk chars table).readAll pos).1
        ((Reader.mk chars table').readAll pos).1 ∧
      table.Extends ((Reader.mk chars table).readAll pos).2.symbols ∧
        table'.Extends ((Reader.mk chars table').readAll pos).2.symbols := by
  have hreaders : ReadersAlike (fun t t' => table.Extends t ∧ table'.Extends t')
      ⟨chars, table⟩ ⟨chars, table'⟩ := ⟨rfl, fun _ _ h => h, fun _ _ h => h⟩
  have hintern : ∀ {t t' : SymbolTable} (name : String), table.Extends t ∧ table'.Extends t' →
      table.Extends (t.intern name).2 ∧ table'.Extends (t'.intern name).2 := by
    intro t t' name h
    exact ⟨fun _ _ hs => t.extends_intern name (h.1 hs),
      fun _ _ hs => t'.extends_intern name (h.2 hs)⟩
  obtain ⟨houtcome, hafter⟩ := readAll_alike hintern (fun _ h => by rw [h]) hreaders (Eq.refl pos)
  exact ⟨houtcome, hafter.symbols⟩

end Reader

end SplatLisp
