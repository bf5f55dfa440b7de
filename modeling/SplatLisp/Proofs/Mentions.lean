import SplatLisp.Proofs.Interning
import SplatLisp.Proofs.Layout

/-!
# What a reading interns, however it ends

A reading may fail behind any number of identifiers, so what it interns cannot be told from forms.
It can from the lexemes between the text and what the reading leaves of it (`LexesTo`): every run
that spells a name brings this name, with or without a splat mark, and nothing else brings any
(`Lexeme.names`). Reading interns just these names, in the order of the text (`met_of_read`,
`met_of_readAllFrom`). How the reading has ended shows in the same lexemes (`Reading.Behind`,
`AllBehind`): they derive what has been read, or end with what is refused.
-/

namespace SplatLisp

/-! ## The names in lexemes -/

theorem isName_iff {cs : List Char} :
    IsName cs ↔ cs ∉ [['_'], ['T'], ['F']] ∧ Decimal.toInt? cs = none := by
  constructor
  · intro h
    refine ⟨h.not_literal, Option.eq_none_iff_forall_ne_some.2 fun n hn => ?_⟩
    exact h.not_numeral n (numeral_iff.2 hn)
  · rintro ⟨hliteral, hn⟩
    exact isName_of_toInt? hliteral hn

instance : DecidablePred IsName := fun _ => decidable_of_iff _ isName_iff.symm

/-- The part of a run that its atom is spelled with: all but a splat mark at its end. -/
def spelling (cs : List Char) : List Char :=
  if splatMark <:+ cs then cs.dropLast.dropLast else cs

/-- The name that a lexeme brings, if it brings one. A mark alone spells nothing. -/
def Lexeme.names : Lexeme → List String
  | run cs => if cs ≠ splatMark ∧ IsName (spelling cs) then [.ofList (spelling cs)] else []
  | _ => []

theorem spelling_of_not_mark {cs : List Char} (h : ¬ splatMark <:+ cs) : spelling cs = cs :=
  if_neg h

theorem spelling_append_mark (cs : List Char) : spelling (cs ++ splatMark) = cs := by
  rw [spelling, if_pos (List.suffix_append cs splatMark)]
  simp [splatMark]

theorem Atomic.names_eq {cs : List Char} {t : Tree} (h : Atomic cs t) :
    (if IsName cs then [String.ofList cs] else []) = t.names := by
  cases h with
  | id h => exact if_pos h
  | int n h => exact if_neg fun hname => hname.not_numeral _ h
  | _ => exact if_neg (by decide)

/-- A run brings the name in what it stands for. -/
theorem RunReads.names_eq {cs : List Char} {t : Tree} (h : RunReads cs t) :
    (Lexeme.run cs).names = t.names := by
  cases h with
  | atom hmark hatomic =>
    have hne : cs ≠ splatMark := fun heq => hmark (heq ▸ List.suffix_rfl)
    rw [← hatomic.names_eq, Lexeme.names, spelling_of_not_mark hmark]
    simp only [hne, ne_eq, not_false_eq_true, true_and]
  | @splat target t hne hatomic =>
    have hne' : target ++ splatMark ≠ splatMark := fun heq => hne (List.append_left_eq_self.1 heq)
    rw [Tree.names, ← hatomic.names_eq, Lexeme.names, spelling_append_mark]
    simp only [hne', ne_eq, not_false_eq_true, true_and]

/-- Lexemes bring the names in the trees that they derive. -/
theorem Derives.names_eq {ls : List Lexeme} {ts : List Tree} (h : Derives ls ts) :
    ls.flatMap Lexeme.names = Tree.namesOf ts := by
  induction h with
  | nil => rfl
  | run hrun _ ih => rw [List.flatMap_cons, Tree.namesOf, hrun.names_eq, ih]
  | group bracket _ _ ihinner ih =>
    rw [List.flatMap_cons, List.flatMap_append, List.flatMap_cons, ihinner, ih]
    rfl
  | splatted bracket _ _ ihinner ih =>
    rw [List.flatMap_cons, List.flatMap_append, List.flatMap_cons, List.flatMap_cons, ihinner, ih]
    rfl

/-! ## The lexemes of a part of a text -/

theorem Lexes.unique {text : List Char} {ls ms : List Lexeme} (h : Lexes false text ls)
    (h' : Lexes false text ms) : ls = ms := by
  -- Both start with the next token, so the induction is on the length of the text.
  induction hn : text.length using Nat.strongRecOn generalizing text ls ms with
  | _ n ih =>
    subst hn
    change Lexes false (Cursor.mk text default).rest ls at h
    change Lexes false (Cursor.mk text default).rest ms at h'
    rcases h.exists_token with ⟨ht, rfl⟩ | ⟨token, next, ls', ht, rfl, hls⟩
    · rcases h'.exists_token with ⟨-, rfl⟩ | ⟨token', next', ms', ht', -, -⟩
      · rfl
      · rw [ht] at ht'
        cases ht'
    · rcases h'.exists_token with ⟨ht', -⟩ | ⟨token', next', ms', ht', rfl, hms⟩
      · rw [ht] at ht'
        cases ht'
      · rw [ht] at ht'
        cases ht'
        have hlt := Nat.lt_of_lt_of_le (Cursor.length_of_token? ht) (Cursor.length_skipBlanks_le _)
        rw [ih _ hlt hls hms rfl]

/-- The lexemes of a text in front of a rest of it: whatever the lexemes of the rest are, those of
the text are these and they. -/
structure LexesTo (text : List Char) (ls : List Lexeme) (rest : List Char) : Prop where
  suffix : rest <:+ text
  lexes : ∀ ⦃ms⦄, Lexes false rest ms → Lexes false text (ls ++ ms)

theorem LexesTo.trans {text mid rest : List Char} {ls ms : List Lexeme} (h : LexesTo text ls mid)
    (h' : LexesTo mid ms rest) : LexesTo text (ls ++ ms) rest := by
  refine ⟨h'.suffix.trans h.suffix, fun more hmore => ?_⟩
  rw [List.append_assoc]
  exact h.lexes (h'.lexes hmore)

/-- They are determined by the text and the rest. -/
theorem LexesTo.unique {text rest : List Char} {ls ms : List Lexeme} (h : LexesTo text ls rest)
    (h' : LexesTo text ms rest) : ls = ms := by
  obtain ⟨more, hmore⟩ := exists_lexes ⟨rest, default⟩
  exact List.append_cancel_right ((h.lexes hmore).unique (h'.lexes hmore))

/-! ## How a reading ends behind lexemes -/

/-- How a reading has ended that has met lexemes in front of a rest of its text. -/
inductive Reading.Behind (rest : List Char) : List Lexeme → Reading → Prop
  | form {ls : List Lexeme} {form : Form} {next : Pos} (h : Derives ls [form.tree]) :
    Behind rest ls (.form form next)
  | finished (hrest : rest = []) : Behind rest [] .finished
  /-- A group is open at the end of the text. -/
  | unclosed {before inner : List Lexeme} {items : List Tree} {bracket : Bracket} {pos : Pos}
    (hinner : Derives inner items) (hrest : rest = []) :
    Behind rest (before ++ .opening bracket :: inner) (.failed ⟨pos, .unclosed bracket⟩)
  /-- The closing bracket comes next, and has not been taken. -/
  | unexpected {ls more : List Lexeme} {bracket : Bracket} {pos : Pos}
    (hrest : Lexes false rest (.closing bracket :: more)) :
    Behind rest ls (.failed ⟨pos, .unexpected bracket.closing⟩)
  | missingTarget {before : List Lexeme} {pos : Pos} :
    Behind rest (before ++ [.run splatMark]) (.failed ⟨pos, .missingTarget⟩)
  | invalidInteger {before : List Lexeme} {cs numeral : List Char} {n : Int} {pos : Pos}
    (hcs : cs = numeral ∨ cs = numeral ++ splatMark) (hn : Numeral numeral n)
    (hrange : ¬ InRange n) :
    Behind rest (before ++ [.run cs]) (.failed ⟨pos, .invalidInteger (.ofList numeral)⟩)

/-- How reading all forms has ended: at the end of the text, or behind some forms in a failure. -/
inductive AllBehind (rest : List Char) :
    List Lexeme → Except ReadFailure (List Form) → Prop
  | forms {ls : List Lexeme} {forms : List Form} (h : Derives ls (forms.map Form.tree))
    (hrest : rest = []) : AllBehind rest ls (.ok forms)
  | failed {before ls : List Lexeme} {trees : List Tree} {failure : ReadFailure}
    (hbefore : Derives before trees) (h : Reading.Behind rest ls (.failed failure)) :
    AllBehind rest (before ++ ls) (.error failure)

namespace Reader

/-! ## Runs that are refused -/

theorem symbols_of_refusedAtom {table table' : SymbolTable} {cs : List Char} {cause : ReadCause}
    (h : atomOfRun table cs = (.error cause, table')) : table' = table := by
  by_cases hliteral : cs ∈ [['_'], ['T'], ['F']]
  · simp only [List.mem_cons, List.not_mem_nil, or_false] at hliteral
    rcases hliteral with rfl | rfl | rfl <;> cases h
  · rw [atomOfRun_of_not_literal table hliteral] at h
    cases hn : Decimal.toInt64? cs with
    | none =>
      rw [hn] at h
      cases h
    | some n =>
      rw [hn] at h
      cases n <;> cases h
      rfl

theorem symbols_of_refusedRun {table table' : SymbolTable} {cs : List Char} {pos : Pos}
    {cause : ReadCause} (h : formOfRun table cs pos = (.error cause, table')) : table' = table := by
  have hatom : ∀ {cs : List Char} {wrap : Atom → Form},
      ((atomOfRun table cs).1.map wrap, (atomOfRun table cs).2) = (.error cause, table') →
        table' = table := by
    intro cs wrap h
    cases ha : atomOfRun table cs with
    | mk outcome symbols =>
      rw [ha] at h
      cases outcome with
      | ok a => cases h
      | error cause' =>
        cases h
        exact symbols_of_refusedAtom ha
  unfold formOfRun at h
  split at h
  · cases h
    rfl
  · exact hatom h
  · exact hatom h

/-- A run that is refused brings no name. -/
theorem names_of_refusedRun {table table' : SymbolTable} {cs : List Char} {pos : Pos}
    {cause : ReadCause} (h : formOfRun table cs pos = (.error cause, table')) :
    (Lexeme.run cs).names = [] := by
  refine if_neg ?_
  rintro ⟨hne, hname⟩
  rcases cause_of_formOfRun h with ⟨rfl, -⟩ | ⟨numeral, n, rfl | rfl, hn, -, -⟩
  · exact hne rfl
  · rw [spelling_of_not_mark hn.not_mark] at hname
    exact hname.not_numeral n hn
  · rw [spelling_append_mark] at hname
    exact hname.not_numeral n hn

/-! ## Readings -/

theorem openNames_eq {groups : List OpenGroup} {ls : List Lexeme} (h : Opened groups ls) :
    openNames groups = ls.flatMap Lexeme.names := by
  induction h with
  | nil => rfl
  | cons _ hitems ih =>
    rw [openNames, ih, List.flatMap_append, List.flatMap_cons, hitems.names_eq]
    rfl

theorem behind_of_refusedRun {table table' : SymbolTable} {cs rest : List Char} {pos : Pos}
    {cause : ReadCause} (h : formOfRun table cs pos = (.error cause, table'))
    (before : List Lexeme) :
    Reading.Behind rest (before ++ [.run cs]) (.failed ⟨pos, cause⟩) := by
  rcases cause_of_formOfRun h with ⟨rfl, rfl⟩ | ⟨numeral, n, hcs, hn, hrange, rfl⟩
  · exact .missingTarget
  · exact .invalidInteger hcs hn hrange

/-- However a reading ends, the names in the lexemes that it has taken have been interned. -/
theorem met_of_ends {start : Cursor} {table : SymbolTable} {s : State} (htaken : Taken start s)
    (hrecords : Records table s) {reading : Reading} {reader : Reader}
    (hends : Ends s (reading, reader)) :
    ∃ ls, (∀ ms, Lexes false reader.rest ms → Lexes false start.rest (ls ++ ms)) ∧
      reader.symbols = table.internAll (ls.flatMap Lexeme.names) ∧
        Reading.Behind reader.rest ls reading := by
  obtain ⟨ls, hopened, hlex⟩ := htaken
  have hsymbols : s.symbols = table.internAll (ls.flatMap Lexeme.names) := by
    rw [← openNames_eq hopened]
    exact hrecords
  have hend : s.here.token? = none → ∀ ms, Lexes false [] ms →
      Lexes false start.rest (ls ++ ms) := by
    intro ht ms hms
    cases hms
    exact hlex [] (lexes_of_end ht)
  cases hends with
  | form hcompletes =>
    obtain ⟨before, ms, token, hbefore, hform, ht, heq⟩ := hcompletes.derives hopened
    cases hbefore
    rw [List.nil_append] at heq
    refine ⟨ls ++ token.lexemes, fun more hmore => ?_, ?_, .form (heq ▸ hform)⟩
    · rw [List.append_assoc]
      exact hlex _ (lexes_of_token ht hmore)
    · rw [heq, hform.names_eq]
      change _ = table.internAll (_ ++ [])
      rw [List.append_nil]
      exact hcompletes.symbols_eq hrecords
  | finished hgroups ht =>
    rw [hgroups] at hopened
    cases hopened
    exact ⟨[], hend ht, hsymbols, .finished rfl⟩
  | unclosed hgroups ht =>
    refine ⟨ls, hend ht, hsymbols, ?_⟩
    rw [hgroups] at hopened
    cases hopened with
    | cons _ hitems => exact .unclosed hitems rfl
  | @unexpected bracket splatted next ht hgroups =>
    refine ⟨ls, fun ms hms => hlex ms (lexes_skipBlanks_iff.1 hms), hsymbols, ?_⟩
    obtain ⟨more, hmore⟩ := exists_lexes next
    exact .unexpected (lexes_skipBlanks_iff.2 (lexes_of_token ht hmore))
  | @badRun cs cause symbols next ht hform =>
    refine ⟨ls ++ [.run cs], fun ms hms => ?_, ?_, behind_of_refusedRun hform ls⟩
    · rw [List.append_assoc]
      exact hlex _ (lexes_of_token ht hms)
    · rw [symbols_of_refusedRun hform, hsymbols, List.flatMap_append, List.flatMap_singleton,
        names_of_refusedRun hform, List.append_nil]

/-- What a reading leaves is a rest of the text. -/
theorem rest_suffix_of_ends {source : Source} {cs : List Char} {s : State}
    (h : source.Follows cs s) {reading : Reading} {reader : Reader}
    (hends : Ends s (reading, reader)) : reader.rest <:+ source.text := by
  cases hends with
  | form hcompletes => exact (h.completes hcompletes).1
  | finished _ _ => exact List.nil_suffix
  | unclosed _ _ => exact List.nil_suffix
  | unexpected _ _ => exact h.here.1
  | badRun ht _ => exact (h.next ht).2.1

/-- **One reading interns the names that it meets**, in the order of the text, and nothing else,
before it ends as the text tells. -/
theorem met_of_read (reader : Reader) (pos : Pos) :
    ∃ ls, LexesTo reader.rest ls (reader.read pos).2.rest ∧
      (reader.read pos).2.symbols = reader.symbols.internAll (ls.flatMap Lexeme.names) ∧
        Reading.Behind (reader.read pos).2.rest ls (reader.read pos).1 := by
  obtain ⟨s, hsteps, hends⟩ := exists_ends (reader.start pos)
  obtain ⟨ls, hlex, hsymbols, hbehind⟩ := met_of_ends ((taken_start reader pos).steps hsteps)
    ((records_start reader pos).steps hsteps) hends
  have hstart : Source.Follows ⟨reader.rest, pos⟩ reader.rest (reader.start pos) :=
    ⟨List.suffix_rfl, (Source.mk reader.rest pos).placeOf_text.symm, .none⟩
  exact ⟨ls, ⟨rest_suffix_of_ends (hstart.steps hsteps) hends, hlex⟩, hsymbols, hbehind⟩

/-- Reading on to the end of a text, or to a failure, interns the names that it meets. The forms
that have been read before come first. -/
theorem met_of_readAllFrom (reader : Reader) (pos : Pos) (done : List Form) :
    ∃ ls, LexesTo reader.rest ls (reader.readAllFrom pos done).2.rest ∧
      (reader.readAllFrom pos done).2.symbols =
          reader.symbols.internAll (ls.flatMap Lexeme.names) ∧
        ∀ before, Derives before (done.reverse.map Form.tree) →
          AllBehind (reader.readAllFrom pos done).2.rest (before ++ ls)
            (reader.readAllFrom pos done).1 := by
  fun_induction readAllFrom reader pos done with
  | case1 reader pos done form next reader₁ hread ih =>
    obtain ⟨ls, hlex, hsymbols, hbehind⟩ := met_of_read reader pos
    obtain ⟨ms, hmore, hlast, hall⟩ := ih
    rw [hread] at hlex hsymbols hbehind
    refine ⟨ls ++ ms, hlex.trans hmore, ?_, fun before hbefore => ?_⟩
    · rw [hlast, hsymbols, List.flatMap_append, SymbolTable.internAll_append]
    · cases hbehind with
      | form hform =>
        rw [← List.append_assoc]
        refine hall _ ?_
        rw [List.reverse_cons, List.map_append]
        exact hbefore.append hform
  | case2 reader pos done reader₁ hread =>
    obtain ⟨ls, hlex, hsymbols, hbehind⟩ := met_of_read reader pos
    rw [hread] at hlex hsymbols hbehind
    refine ⟨ls, hlex, hsymbols, fun before hbefore => ?_⟩
    cases hbehind with
    | finished hrest =>
      rw [List.append_nil]
      exact .forms hbefore hrest
  | case3 reader pos done failure reader₁ hread =>
    obtain ⟨ls, hlex, hsymbols, hbehind⟩ := met_of_read reader pos
    rw [hread] at hlex hsymbols hbehind
    exact ⟨ls, hlex, hsymbols, fun before hbefore => .failed hbefore hbehind⟩

end Reader

end SplatLisp
