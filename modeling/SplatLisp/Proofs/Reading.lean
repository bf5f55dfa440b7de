import SplatLisp.Proofs.Lexing
import SplatLisp.Proofs.ReaderSteps

/-!
# The reader reads what the grammar derives

`readAll_iff_reads`: reading a text gives forms exactly if the text reads as trees, and then the
forms have these trees and their identifiers are interned.

One direction follows the reader (`reads_of_readAll`). Between two steps, the lexemes that have
been taken are those of the open groups, each of which stands behind its opening bracket and has
derived its items so far (`Opened`); a form that is completed derives from what it took. The other
direction follows the derivation (`steps_of_derives`): the reader steps through the lexemes of the
items of a group, whatever else is open, and has the trees of the items then.
-/

namespace SplatLisp

/-! ## Atoms and runs -/

theorem isDigits_iff {digits : List Char} :
    Decimal.IsDigits digits ↔ digits ≠ [] ∧ ∀ d ∈ digits, d.isDigit = true :=
  and_congr Iff.rfl List.all_eq_true

theorem toNat?_eq_some_iff {digits : List Char} {n : Nat} :
    Decimal.toNat? digits = some n ↔
      (digits ≠ [] ∧ ∀ d ∈ digits, d.isDigit = true) ∧ Nat.ofDigitChars 10 digits 0 = n := by
  rw [← isDigits_iff]
  unfold Decimal.toNat?
  split <;> simp_all

/-- Numerals are read as the integers they denote. -/
theorem numeral_iff {cs : List Char} {n : Int} : Numeral cs n ↔ Decimal.toInt? cs = some n := by
  constructor
  · intro h
    cases h with
    | positive hne hdigit =>
      have hread := toNat?_eq_some_iff.2 ⟨⟨hne, hdigit⟩, rfl⟩
      unfold Decimal.toInt?
      split
      · -- A minus sign is no digit.
        exact absurd (hdigit '-' List.mem_cons_self) (by decide)
      · rw [hread]
        rfl
    | negative hne hdigit =>
      have hread := toNat?_eq_some_iff.2 ⟨⟨hne, hdigit⟩, rfl⟩
      rw [Decimal.toInt?, hread]
      rfl
  · intro h
    unfold Decimal.toInt? at h
    split at h
    · next digits =>
      cases hread : Decimal.toNat? digits with
      | none =>
        rw [hread] at h
        cases h
      | some m =>
        rw [hread] at h
        cases h
        obtain ⟨⟨hne, hdigit⟩, rfl⟩ := toNat?_eq_some_iff.1 hread
        exact .negative hne hdigit
    · cases hread : Decimal.toNat? cs with
      | none =>
        rw [hread] at h
        cases h
      | some m =>
        rw [hread] at h
        cases h
        obtain ⟨⟨hne, hdigit⟩, rfl⟩ := toNat?_eq_some_iff.1 hread
        exact .positive hne hdigit

theorem not_numeral_of_literal {cs : List Char} {n : Int} (h : cs ∈ [['_'], ['T'], ['F']]) :
    ¬ Numeral cs n := by
  have hnone : ∀ cs ∈ [['_'], ['T'], ['F']], Decimal.toInt? cs = none := by decide
  rw [numeral_iff, hnone cs h]
  exact fun he => by cases he

theorem isName_of_toInt? {cs : List Char} (hliteral : cs ∉ [['_'], ['T'], ['F']])
    (hn : Decimal.toInt? cs = none) : IsName cs := by
  refine ⟨hliteral, fun n h => ?_⟩
  rw [numeral_iff, hn] at h
  cases h

/-- All symbols of a table are symbols of another. -/
def SymbolTable.Extends (old new : SymbolTable) : Prop :=
  ∀ ⦃name s⦄, old.get? name = some s → new.get? name = some s

/-- Whether the identifiers are symbols of a table. -/
def SymbolTable.Owns (table : SymbolTable) (symbols : List Symbol) : Prop :=
  ∀ s ∈ symbols, table.get? s.name = some s

theorem SymbolTable.Owns.tag_lt_limit {table : SymbolTable} {symbols : List Symbol}
    (h : table.Owns symbols) (hlimit : table.WithinLimit) : ∀ s ∈ symbols, s.tag < limit := by
  intro s hs
  have hname := (ofTag?_eq_some_iff.1 (get?_eq_some_iff.1 (h s hs)).1).1
  exact Nat.lt_of_lt_of_le (Array.getElem?_eq_some_iff.1 hname).1 hlimit

theorem SymbolTable.Owns.mono {old new : SymbolTable} {symbols : List Symbol}
    (h : old.Owns symbols) (hext : old.Extends new) : new.Owns symbols :=
  fun s hs => hext (h s hs)

theorem SymbolTable.extends_intern (table : SymbolTable) (name : String) :
    table.Extends (table.intern name).2 :=
  fun _ _ h => get?_intern_of_some h name

theorem SymbolTable.intern_name (table : SymbolTable) (name : String) :
    (table.intern name).1.name = name :=
  (get?_eq_some_iff.1 (table.get?_intern name)).2

namespace Reader

theorem atomOfRun_of_not_literal (table : SymbolTable) {cs : List Char}
    (h : cs ∉ [['_'], ['T'], ['F']]) :
    atomOfRun table cs = match Decimal.toInt64? cs with
      | some (some n) => (.ok (.int n), table)
      | some none => (.error (.invalidInteger (.ofList cs)), table)
      | none => (.ok (.id (table.intern (.ofList cs)).1), (table.intern (.ofList cs)).2) := by
  simp only [List.mem_cons, List.not_mem_nil, or_false, not_or] at h
  obtain ⟨hnil, htrue, hfalse⟩ := h
  unfold atomOfRun
  split
  · exact absurd rfl hnil
  · exact absurd rfl htrue
  · exact absurd rfl hfalse
  · rfl

theorem atomic_of_atomOfRun {table table' : SymbolTable} {cs : List Char} {a : Atom}
    (h : atomOfRun table cs = (.ok a, table')) :
    Atomic cs a.tree ∧ table.Extends table' ∧ table'.Owns a.symbols := by
  have hself : table.Extends table := fun _ _ hs => hs
  by_cases hliteral : cs ∈ [['_'], ['T'], ['F']]
  · simp only [List.mem_cons, List.not_mem_nil, or_false] at hliteral
    rcases hliteral with rfl | rfl | rfl
    · cases h
      exact ⟨.nil, hself, nofun⟩
    · cases h
      exact ⟨.true, hself, nofun⟩
    · cases h
      exact ⟨.false, hself, nofun⟩
  · rw [atomOfRun_of_not_literal table hliteral, Decimal.toInt64?_eq] at h
    cases hn : Decimal.toInt? cs with
    | some n =>
      rw [hn, Option.map_some] at h
      cases hm : int64? n with
      | none =>
        rw [hm] at h
        cases h
      | some m =>
        rw [hm] at h
        cases h
        refine ⟨.int m ?_, hself, nofun⟩
        rw [toInt_of_int64? hm]
        exact numeral_iff.2 hn
    | none =>
      rw [hn] at h
      cases h
      have hname := isName_of_toInt? hliteral hn
      refine ⟨?_, table.extends_intern _, fun s hs => ?_⟩
      · rw [Atom.tree, SymbolTable.intern_name]
        exact .id hname
      · obtain rfl := List.mem_singleton.1 hs
        rw [SymbolTable.intern_name]
        exact table.get?_intern _

theorem atomOfRun_of_atomic {cs : List Char} {t : Tree} (h : Atomic cs t) (table : SymbolTable) :
    ∃ a table', atomOfRun table cs = (.ok a, table') ∧ a.tree = t := by
  cases h with
  | nil => exact ⟨.nil, table, rfl, rfl⟩
  | true => exact ⟨.bool true, table, rfl, rfl⟩
  | false => exact ⟨.bool false, table, rfl, rfl⟩
  | int n hn =>
    have hliteral : cs ∉ [['_'], ['T'], ['F']] := fun hmem => not_numeral_of_literal hmem hn
    refine ⟨.int n, table, ?_, rfl⟩
    rw [atomOfRun_of_not_literal table hliteral, Decimal.toInt64?_eq, numeral_iff.1 hn,
      Option.map_some, int64?_toInt]
  | id hname =>
    have hnone : Decimal.toInt? cs = none := by
      rw [Option.eq_none_iff_forall_ne_some]
      intro n hn
      exact hname.not_numeral n (numeral_iff.2 hn)
    rw [atomOfRun_of_not_literal table hname.not_literal, Decimal.toInt64?_eq, hnone,
      Option.map_none]
    exact ⟨_, _, rfl, congrArg Tree.id (SymbolTable.intern_name table _)⟩

theorem splatTarget?_eq_some_iff {cs target : List Char} :
    splatTarget? cs = some target ↔ cs = target ++ splatMark := by
  unfold splatTarget?
  constructor
  · intro h
    split at h
    · next target' hrev =>
      cases h
      have := congrArg List.reverse hrev
      simpa [splatMark] using this
    · cases h
  · rintro rfl
    simp [splatMark]

theorem splatTarget?_eq_none_iff {cs : List Char} :
    splatTarget? cs = none ↔ ¬ splatMark <:+ cs := by
  rw [Option.eq_none_iff_forall_ne_some]
  constructor
  · rintro h ⟨target, htarget⟩
    exact h target (splatTarget?_eq_some_iff.2 htarget.symm)
  · intro h target htarget
    exact h ⟨target, (splatTarget?_eq_some_iff.1 htarget).symm⟩

theorem runReads_of_formOfRun {table table' : SymbolTable} {cs : List Char} {pos : Pos}
    {form : Form} (h : formOfRun table cs pos = (.ok form, table')) :
    RunReads cs form.tree ∧ table.Extends table' ∧ table'.Owns form.symbols := by
  unfold formOfRun at h
  split at h
  · cases h
  · next target hne htarget =>
    obtain rfl := splatTarget?_eq_some_iff.1 htarget
    cases ha : atomOfRun table target with
    | mk outcome symbols =>
      rw [ha] at h
      cases outcome with
      | error cause => cases h
      | ok a =>
        cases h
        obtain ⟨hatomic, hext, howns⟩ := atomic_of_atomOfRun ha
        exact ⟨.splat (fun he => hne (by rw [← he])) hatomic, hext, howns⟩
  · next hnone =>
    cases ha : atomOfRun table cs with
    | mk outcome symbols =>
      rw [ha] at h
      cases outcome with
      | error cause => cases h
      | ok a =>
        cases h
        obtain ⟨hatomic, hext, howns⟩ := atomic_of_atomOfRun ha
        exact ⟨.atom (splatTarget?_eq_none_iff.1 hnone) hatomic, hext, howns⟩

theorem formOfRun_of_runReads {cs : List Char} {t : Tree} (h : RunReads cs t)
    (table : SymbolTable) (pos : Pos) :
    ∃ form table', formOfRun table cs pos = (.ok form, table') ∧ form.tree = t := by
  unfold formOfRun
  cases h with
  | atom hmark hatomic =>
    obtain ⟨a, table', ha, rfl⟩ := atomOfRun_of_atomic hatomic table
    rw [splatTarget?_eq_none_iff.2 hmark, ha]
    exact ⟨_, _, rfl, rfl⟩
  | @splat target _ hne hatomic =>
    obtain ⟨a, table', ha, rfl⟩ := atomOfRun_of_atomic hatomic table
    rw [splatTarget?_eq_some_iff.2 rfl]
    cases target with
    | nil => exact absurd rfl hne
    | cons c target =>
      simp only [ha]
      exact ⟨_, _, rfl, rfl⟩

/-! ## From readings to derivations -/

/-- The lexemes that have been taken when groups are open: each group stands behind its opening
bracket and has derived its items so far. -/
inductive Opened : List OpenGroup → List Lexeme → Prop
  | nil : Opened [] []
  | cons {group : OpenGroup} {outer : List OpenGroup} {before inner : List Lexeme}
    (houter : Opened outer before) (hitems : Derives inner (Form.trees group.items.reverse)) :
    Opened (group :: outer) (before ++ .opening group.bracket :: inner)

theorem Opened.add {group : OpenGroup} {outer : List OpenGroup} {ls ms : List Lexeme}
    {form : Form} (h : Opened (group :: outer) ls) (hform : Derives ms [form.tree]) :
    Opened (group.add form :: outer) (ls ++ ms) := by
  cases h with
  | @cons _ _ before inner houter hitems =>
    rw [List.append_assoc, List.cons_append]
    refine .cons houter ?_
    have happend := hitems.append hform
    rwa [Form.trees_eq_map, ← List.map_singleton, ← List.map_append, ← List.reverse_cons,
      ← Form.trees_eq_map] at happend

theorem derives_close {group : OpenGroup} {inner : List Lexeme} (splatted : Bool)
    (h : Derives inner (Form.trees group.items.reverse)) :
    Derives (.opening group.bracket :: (inner ++ (Token.closing group.bracket splatted).lexemes))
      [(group.close splatted).tree] := by
  cases splatted with
  | false => exact .group group.bracket h .nil
  | true => exact .splatted group.bracket h .nil

/-- A form that is completed derives from lexemes taken last. -/
theorem Completes.derives {s : State} {form : Form} {outer : List OpenGroup}
    {symbols : SymbolTable} {next : Cursor} {ls : List Lexeme}
    (h : Completes s form outer symbols next) (hopened : Opened s.groups ls) :
    ∃ before ms token, Opened outer before ∧ Derives ms [form.tree] ∧
      s.here.token? = some (token, next) ∧ ls ++ token.lexemes = before ++ ms := by
  cases h with
  | closing hgroups ht =>
    rw [hgroups] at hopened
    cases hopened with
    | @cons _ _ before inner houter hitems =>
      refine ⟨before, _, _, houter, derives_close _ hitems, ht, ?_⟩
      rw [List.append_assoc, List.cons_append]
  | run ht hform =>
    exact ⟨ls, _, _, hopened, .run (runReads_of_formOfRun hform).1 .nil, ht, rfl⟩

/-- From the start to a state, the lexemes of the open groups have been taken. -/
def Taken (start : Cursor) (s : State) : Prop :=
  ∃ ls, Opened s.groups ls ∧ ∀ ms, Lexes false s.cursor.rest ms → Lexes false start.rest (ls ++ ms)

theorem Taken.step {start : Cursor} {s s' : State} (h : Taken start s) (hstep : Step s s') :
    Taken start s' := by
  obtain ⟨ls, hopened, hlex⟩ := h
  cases hstep with
  | @opening bracket next ht =>
    refine ⟨ls ++ [.opening bracket], .cons hopened .nil, fun ms hms => ?_⟩
    rw [List.append_assoc]
    exact hlex _ (lexes_of_token ht hms)
  | item hcompletes =>
    obtain ⟨before, ms, token, hbefore, hform, ht, heq⟩ := hcompletes.derives hopened
    refine ⟨before ++ ms, hbefore.add hform, fun more hmore => ?_⟩
    rw [← heq, List.append_assoc]
    exact hlex _ (lexes_of_token ht hmore)

theorem Taken.steps {start : Cursor} {s s' : State} (h : Taken start s) (hsteps : Steps s s') :
    Taken start s' := by
  induction hsteps with
  | refl => exact h
  | tail _ hstep ih => exact ih.step hstep

/-- The symbols at the start are symbols of the state, and so are all identifiers met. -/
structure Interned (start : SymbolTable) (s : State) : Prop where
  ext : start.Extends s.symbols
  owns : ∀ group ∈ s.groups, s.symbols.Owns (Form.itemSymbols group.items)

theorem Completes.interned {start : SymbolTable} {s : State} {form : Form}
    {outer : List OpenGroup} {symbols : SymbolTable} {next : Cursor}
    (h : Completes s form outer symbols next) (hs : Interned start s) :
    start.Extends symbols ∧ symbols.Owns form.symbols ∧
      ∀ group ∈ outer, symbols.Owns (Form.itemSymbols group.items) := by
  cases h with
  | @closing group _ splatted _ hgroups ht =>
    have howns := hs.owns group (by rw [hgroups]; exact List.mem_cons_self)
    refine ⟨hs.ext, fun symbol hmem => howns symbol ?_, fun g hg => hs.owns g ?_⟩
    · have hclose : (group.close splatted).symbols = Form.itemSymbols group.items.reverse := by
        cases splatted <;> rfl
      rw [hclose, Form.itemSymbols_eq_flatMap, List.mem_flatMap] at hmem
      rw [Form.itemSymbols_eq_flatMap, List.mem_flatMap]
      obtain ⟨item, hitem, hsymbol⟩ := hmem
      exact ⟨item, List.mem_reverse.1 hitem, hsymbol⟩
    · rw [hgroups]
      exact List.mem_cons_of_mem group hg
  | run ht hform =>
    obtain ⟨-, hext, howns⟩ := runReads_of_formOfRun hform
    exact ⟨fun _ _ h => hext (hs.ext h), howns, fun g hg => (hs.owns g hg).mono hext⟩

theorem Interned.step {start : SymbolTable} {s s' : State} (h : Interned start s)
    (hstep : Step s s') : Interned start s' := by
  cases hstep with
  | opening ht =>
    refine ⟨h.ext, fun group hgroup => ?_⟩
    rcases List.mem_cons.1 hgroup with rfl | hgroup
    · exact fun symbol hsymbol => by cases hsymbol
    · exact h.owns group hgroup
  | @item form group outer symbols next hcompletes =>
    obtain ⟨hext, hform, hgroups⟩ := hcompletes.interned h
    refine ⟨hext, fun g hg => ?_⟩
    rcases List.mem_cons.1 hg with rfl | hg
    · intro symbol hsymbol
      rcases List.mem_append.1 hsymbol with hsymbol | hsymbol
      · exact hform symbol hsymbol
      · exact hgroups group List.mem_cons_self symbol hsymbol
    · exact hgroups g (List.mem_cons_of_mem group hg)

theorem Interned.steps {start : SymbolTable} {s s' : State} (h : Interned start s)
    (hsteps : Steps s s') : Interned start s' := by
  induction hsteps with
  | refl => exact h
  | tail _ hstep ih => exact ih.step hstep

/-- The state in which reading a form starts. -/
def start (reader : Reader) (pos : Pos) : State := ⟨reader.symbols, [], ⟨reader.rest, pos⟩⟩

theorem taken_start (reader : Reader) (pos : Pos) :
    Taken ⟨reader.rest, pos⟩ (reader.start pos) :=
  ⟨[], .nil, fun _ h => h⟩

theorem interned_start (reader : Reader) (pos : Pos) :
    Interned reader.symbols (reader.start pos) :=
  ⟨fun _ _ h => h, fun _ h => by cases h⟩

/-- A form that is read derives from the lexemes in front of what is left. -/
theorem derives_of_read {reader reader' : Reader} {pos next : Pos} {form : Form}
    (h : reader.read pos = (.form form next, reader')) :
    ∃ ls, Derives ls [form.tree] ∧
      ∀ ms, Lexes false reader'.rest ms → Lexes false reader.rest (ls ++ ms) := by
  obtain ⟨s, hsteps, hcompletes⟩ := exists_completes_of_read (s := reader.start pos) h
  obtain ⟨ls, hopened, hlex⟩ := (taken_start reader pos).steps hsteps
  obtain ⟨before, ms, token, hbefore, hform, ht, heq⟩ := hcompletes.derives hopened
  cases hbefore
  refine ⟨ms, hform, fun more hmore => ?_⟩
  rw [List.nil_append] at heq
  rw [← heq, List.append_assoc]
  exact hlex _ (lexes_of_token ht hmore)

theorem interned_of_read {reader reader' : Reader} {pos next : Pos} {form : Form}
    (h : reader.read pos = (.form form next, reader')) :
    reader.symbols.Extends reader'.symbols ∧ reader'.symbols.Owns form.symbols := by
  obtain ⟨s, hsteps, hcompletes⟩ := exists_completes_of_read (s := reader.start pos) h
  obtain ⟨hext, howns, -⟩ := hcompletes.interned ((interned_start reader pos).steps hsteps)
  exact ⟨hext, howns⟩

/-- Reading comes to the end of the text if it has no lexemes. -/
theorem lexes_of_finished {reader reader' : Reader} {pos : Pos}
    (h : reader.read pos = (.finished, reader')) :
    Lexes false reader.rest [] ∧ reader.symbols.Extends reader'.symbols := by
  obtain ⟨s, hsteps, hends⟩ := exists_ends (reader.start pos)
  rw [show (reader.start pos).read = (.finished, reader') from h] at hends
  cases hends with
  | finished hgroups ht =>
    obtain ⟨ls, hopened, hlex⟩ := (taken_start reader pos).steps hsteps
    rw [hgroups] at hopened
    cases hopened
    exact ⟨hlex [] (lexes_of_end ht), ((interned_start reader pos).steps hsteps).ext⟩

/-- The forms that are read to the end of a text derive from its lexemes. -/
theorem derives_of_readAllFrom {reader reader' : Reader} {pos : Pos} {done all : List Form}
    (h : reader.readAllFrom pos done = (.ok all, reader')) :
    ∃ ls forms, all = done.reverse ++ forms ∧ Lexes false reader.rest ls ∧
      Derives ls (Form.trees forms) ∧ reader.symbols.Extends reader'.symbols ∧
        reader'.symbols.Owns (Form.itemSymbols forms) := by
  fun_induction readAllFrom reader pos done with
  | case1 reader pos done form next reader₁ hread ih =>
    obtain ⟨ls, forms, rfl, hlex, hderives, hext, howns⟩ := ih h
    obtain ⟨ms, hform, hfront⟩ := derives_of_read hread
    obtain ⟨hext₁, howns₁⟩ := interned_of_read hread
    refine ⟨ms ++ ls, form :: forms, ?_, hfront ls hlex, hform.append hderives,
      fun _ _ hs => hext (hext₁ hs), fun s hs => ?_⟩
    · rw [List.reverse_cons, List.append_assoc, List.singleton_append]
    · rcases List.mem_append.1 hs with hs | hs
      · exact hext (howns₁ s hs)
      · exact howns s hs
  | case2 reader pos done reader₁ hread =>
    cases h
    obtain ⟨hlex, hext⟩ := lexes_of_finished hread
    exact ⟨[], [], (List.append_nil _).symm, hlex, .nil, hext, fun s hs => by cases hs⟩
  | case3 reader pos done failure reader₁ hread => cases h

/-! ## From derivations to readings -/

/-- Whether the reader, wherever it meets the lexemes, completes a form with this tree behind them.
No mark may follow, as it would belong to the form. -/
def Yields (ls : List Lexeme) (t : Tree) : Prop :=
  ∀ ⦃s : State⦄ ⦃after : List Lexeme⦄, after.head? ≠ some .mark →
    Lexes false s.cursor.rest (ls ++ after) →
      ∃ s' form symbols next, Steps s s' ∧ Completes s' form s.groups symbols next ∧
        form.tree = t ∧ Lexes false next.rest after

/-- Whether the reader, inside of any group, steps through the lexemes to the end of the group and
has items with these trees then. -/
def StepsThrough (ls : List Lexeme) (ts : List Tree) : Prop :=
  ∀ ⦃s : State⦄ ⦃group : OpenGroup⦄ ⦃outer : List OpenGroup⦄ ⦃bracket : Bracket⦄
    ⦃after : List Lexeme⦄, s.groups = group :: outer →
    Lexes false s.cursor.rest (ls ++ .closing bracket :: after) →
      ∃ s' items, Steps s s' ∧ s'.groups = { group with items := items ++ group.items } :: outer ∧
        Form.trees items.reverse = ts ∧ Lexes false s'.cursor.rest (.closing bracket :: after)

theorem Yields.run {cs : List Char} {t : Tree} (h : RunReads cs t) : Yields [.run cs] t := by
  intro s after _ hlex
  obtain ⟨next, ht, hnext⟩ := exists_next_of_lexes (.run cs) hlex nofun
  obtain ⟨form, symbols, hform, htree⟩ := formOfRun_of_runReads h s.symbols s.here.pos
  exact ⟨s, form, symbols, next, .refl, .run ht hform, htree, hnext⟩

/-- A group is completed at its closing bracket, together with the mark if there is one. -/
theorem Yields.group {inner : List Lexeme} {items : List Tree} (bracket : Bracket)
    (splatted : Bool) (h : StepsThrough inner items) :
    Yields (.opening bracket :: (inner ++ (Token.closing bracket splatted).lexemes))
      (if splatted then .splat (.group bracket items) else .group bracket items) := by
  intro s after hafter hlex
  rw [List.cons_append, List.append_assoc] at hlex
  obtain ⟨next, ht, hnext⟩ := exists_next_of_lexes (.opening bracket) hlex nofun
  -- The group waits on the stack, behind the groups that were open, while its items are read.
  obtain ⟨s', forms, hsteps, hgroups, htrees, hs'⟩ :=
    h (s := ⟨s.symbols, ⟨bracket, s.here.pos, []⟩ :: s.groups, next⟩) rfl hnext
  obtain ⟨last, hclose, hlast⟩ :=
    exists_next_of_lexes (.closing bracket splatted) hs' fun _ _ => hafter
  refine ⟨s', _, s'.symbols, last, .head (.opening ht) hsteps, .closing hgroups hclose, ?_, hlast⟩
  rw [List.append_nil]
  subst htrees
  cases splatted <;> rfl

theorem StepsThrough.nil : StepsThrough [] [] :=
  fun s _ _ _ _ hgroups hlex => ⟨s, [], .refl, hgroups, rfl, hlex⟩

theorem StepsThrough.cons {ls ms : List Lexeme} {t : Tree} {ts : List Tree} (hls : Yields ls t)
    (hmark : ms.head? ≠ some .mark) (hms : StepsThrough ms ts) :
    StepsThrough (ls ++ ms) (t :: ts) := by
  intro s group outer bracket after hgroups hlex
  rw [List.append_assoc] at hlex
  have hafter : (ms ++ .closing bracket :: after).head? ≠ some .mark := by
    cases ms with
    | nil => nofun
    | cons m ms => exact hmark
  obtain ⟨s₁, form, symbols, next, hsteps, hcompletes, rfl, hnext⟩ := hls hafter hlex
  rw [hgroups] at hcompletes
  obtain ⟨s', items, hsteps', hgroups', htrees, hs'⟩ :=
    hms (s := ⟨symbols, group.add form :: outer, next⟩) rfl hnext
  refine ⟨s', items ++ [form], (hsteps.tail (.item hcompletes)).trans hsteps', ?_, ?_, hs'⟩
  · rw [hgroups', List.append_assoc]
    rfl
  · rw [List.reverse_append, List.reverse_singleton, List.singleton_append, Form.trees, htrees]

end Reader

/-- A derivation starts with a form. -/
theorem Derives.head?_ne_mark {ls : List Lexeme} {ts : List Tree} (h : Derives ls ts) :
    ls.head? ≠ some .mark := by
  cases h <;> nofun

namespace Reader

/-- **The reader steps through whatever derives.** -/
theorem steps_of_derives {ls : List Lexeme} {ts : List Tree} (h : Derives ls ts) :
    StepsThrough ls ts := by
  induction h with
  | nil => exact .nil
  | run hrun h ih => exact .cons (.run hrun) h.head?_ne_mark ih
  | group bracket _ h ihinner ih =>
    have hcons := StepsThrough.cons (.group bracket false ihinner) h.head?_ne_mark ih
    rwa [List.cons_append, List.append_assoc] at hcons
  | splatted bracket _ h ihinner ih =>
    have hcons := StepsThrough.cons (.group bracket true ihinner) h.head?_ne_mark ih
    rwa [List.cons_append, List.append_assoc] at hcons

/-- What derives a tree and more yields the tree, and the rest derives the others. -/
theorem exists_yields_of_derives {ls : List Lexeme} {t : Tree} {ts : List Tree}
    (h : Derives ls (t :: ts)) :
    ∃ front after, ls = front ++ after ∧ Yields front t ∧ Derives after ts := by
  cases h with
  | run hrun h => exact ⟨_, _, List.singleton_append.symm, .run hrun, h⟩
  | group bracket hinner h =>
    refine ⟨_, _, ?_, .group bracket false (steps_of_derives hinner), h⟩
    rw [List.cons_append, List.append_assoc]
    rfl
  | splatted bracket hinner h =>
    refine ⟨_, _, ?_, .group bracket true (steps_of_derives hinner), h⟩
    rw [List.cons_append, List.append_assoc]
    rfl

/-- A text whose lexemes derive trees is read as forms with these trees. -/
theorem readAllFrom_of_derives {ls : List Lexeme} {ts : List Tree} (h : Derives ls ts)
    (reader : Reader) (pos : Pos) (done : List Form) (hlex : Lexes false reader.rest ls) :
    ∃ forms reader', reader.readAllFrom pos done = (.ok (done.reverse ++ forms), reader') ∧
      Form.trees forms = ts := by
  -- One reading for each tree; the derivation is taken apart as it goes.
  induction ts generalizing ls reader pos done with
  | nil =>
    cases h
    have hend : (reader.start pos).here.token? = none := by
      change Lexes false (reader.start pos).cursor.rest [] at hlex
      rcases hlex.exists_token with ⟨ht, -⟩ | ⟨token, next, ms, -, hnil, -⟩
      · exact ht
      · cases token <;> cases hnil
    have hread : reader.read pos = (.finished, ⟨[], reader.symbols⟩) :=
      read_of_end (s := reader.start pos) rfl hend
    refine ⟨[], ⟨[], reader.symbols⟩, ?_, rfl⟩
    rw [readAllFrom, List.append_nil]
    split <;> simp_all
  | cons t ts ih =>
    obtain ⟨front, after, rfl, hyields, hafter⟩ := exists_yields_of_derives h
    obtain ⟨s, form, symbols, next, hsteps, hcompletes, rfl, hnext⟩ :=
      hyields (s := reader.start pos) hafter.head?_ne_mark hlex
    have hread : reader.read pos = (.form form next.pos, ⟨next.rest, symbols⟩) :=
      (read_of_steps hsteps).trans (read_of_completes hcompletes)
    obtain ⟨forms, reader', hall, rfl⟩ :=
      ih hafter ⟨next.rest, symbols⟩ next.pos (form :: done) hnext
    refine ⟨form :: forms, reader', ?_, rfl⟩
    rw [List.reverse_cons, List.append_assoc, List.singleton_append] at hall
    rw [readAllFrom]
    split <;> simp_all

/-- What is read is derived, and its identifiers are the interned ones. -/
theorem reads_of_readAll {table : SymbolTable} {text : String} {pos : Pos} {forms : List Form}
    {reader : Reader} (h : (ofText table text).readAll pos = (.ok forms, reader)) :
    Reads text.toList (forms.map Form.tree) ∧ table.Extends reader.symbols ∧
      reader.symbols.Owns (forms.flatMap Form.symbols) := by
  obtain ⟨ls, forms', hforms, hlex, hderives, hext, howns⟩ := derives_of_readAllFrom h
  rw [List.reverse_nil, List.nil_append] at hforms
  subst hforms
  rw [Form.trees_eq_map] at hderives
  rw [Form.itemSymbols_eq_flatMap] at howns
  exact ⟨⟨ls, hlex, hderives⟩, hext, howns⟩

theorem exists_readAll_of_reads {text : String} {ts : List Tree} (h : Reads text.toList ts)
    (table : SymbolTable) (pos : Pos) :
    ∃ forms reader, (ofText table text).readAll pos = (.ok forms, reader) ∧
      forms.map Form.tree = ts := by
  obtain ⟨ls, hlex, hderives⟩ := h
  obtain ⟨forms, reader, hread, htrees⟩ :=
    readAllFrom_of_derives hderives (ofText table text) pos [] hlex
  rw [Form.trees_eq_map] at htrees
  exact ⟨forms, reader, hread, htrees⟩

/-- **The reader accepts what the grammar derives, and builds its trees.** A text is read as forms
exactly if it reads as their trees; their identifiers are the interned ones, and each has one of the
tags that there are, unless the table is exhausted. -/
theorem readAll_iff_reads (table : SymbolTable) (text : String) (pos : Pos) (ts : List Tree) :
    (∃ forms reader, (ofText table text).readAll pos = (.ok forms, reader) ∧
        forms.map Form.tree = ts ∧ reader.symbols.Owns (forms.flatMap Form.symbols) ∧
        (reader.symbols.WithinLimit →
          ∀ s ∈ forms.flatMap Form.symbols, s.tag < SymbolTable.limit)) ↔
      Reads text.toList ts := by
  constructor
  · rintro ⟨forms, reader, hread, rfl, -⟩
    exact (reads_of_readAll hread).1
  · intro h
    obtain ⟨forms, reader, hread, htrees⟩ := exists_readAll_of_reads h table pos
    obtain ⟨-, -, howns⟩ := reads_of_readAll hread
    exact ⟨forms, reader, hread, htrees, howns, howns.tag_lt_limit⟩

end Reader

end SplatLisp
