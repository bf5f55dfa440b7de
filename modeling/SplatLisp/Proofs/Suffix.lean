import SplatLisp.Proofs.Continuation

/-!
# A splat mark behind a form

A text can be one form, from its first character to its last (`Reader.IsForm`); the mark then
follows the form directly. `Reader.readAll_mark` says what comes of it. The mark makes a splat of
every form that is none. It is looked for once behind a form, so a second mark is not one: behind a
splatted group it is a run of its own, which has no target, and in a run it leaves the first mark to
the name of an identifier.

The steps of a reading do not look behind the closing bracket that is to come, so they are the same
when the text goes on behind it (`Reader.Steps.extend`). Only the last token, a closing bracket or a
run, finds the mark.
-/

namespace SplatLisp

/-! ## Tokens in front of more text -/

/-- A token is found where its characters are, if what follows does not belong to it. -/
theorem Cursor.token?_chars {token : Token} {rest : List Char} (h : token.EndsBefore rest)
    (pos : Pos) :
    token? ⟨token.chars ++ rest, pos⟩ = some (token, ⟨rest, pos.advanceAll token.chars⟩) := by
  cases token with
  | opening bracket => exact token?_opening bracket rest pos
  | closing bracket splatted =>
    refine (token?_closing bracket _ pos).trans ?_
    cases splatted with
    | true => rfl
    | false =>
      rcases closing_eq bracket rest (pos.advance bracket.closing) with ⟨more, _, rfl, _⟩ | ⟨_, heq⟩
      · exact absurd (splatMark_isPrefix_iff.2 ⟨more, rfl⟩) (h rfl)
      · exact congrArg some heq
  | run cs =>
    obtain ⟨hrun, hend⟩ := h
    cases cs with
    | nil => exact absurd rfl hrun.ne_nil
    | cons c cs =>
      refine (token?_run (hrun.not_delimits c List.mem_cons_self) _ pos).trans (congrArg some ?_)
      exact run_append (fun d hd => hrun.not_delimits d (List.mem_cons_of_mem c hd)) hend _

/-- Behind a delimiter that follows the token, the text may go on. -/
theorem Token.EndsBefore.append {token : Token} {rest : List Char} (h : token.EndsBefore rest)
    (hdelimiter : ∃ d ∈ rest, Delimits d) (more : List Char) : token.EndsBefore (rest ++ more) := by
  obtain ⟨d, hd, hdelimits⟩ := hdelimiter
  cases token with
  | opening bracket => trivial
  | closing bracket splatted =>
    intro hsplatted hmark
    rcases List.prefix_or_prefix_of_prefix hmark (List.prefix_append rest more) with hpre | hpre
    · exact h hsplatted hpre
    · have hdot : d = '.' := by simpa [splatMark] using hpre.subset hd
      exact not_delimits_dot (hdot ▸ hdelimits)
  | run cs =>
    obtain ⟨hrun, hend⟩ := h
    refine ⟨hrun, ?_⟩
    cases rest with
    | nil => cases hd
    | cons c rest => exact hend

namespace Cursor

/-- The cursor, when more text stands directly behind its text. -/
def extend (cursor : Cursor) (more : List Char) : Cursor :=
  { cursor with rest := cursor.rest ++ more }

theorem skipBlanksFrom_append {comment : Bool} {cs : List Char} {pos : Pos} (more : List Char)
    (h : (skipBlanksFrom comment cs pos).rest ≠ []) :
    skipBlanksFrom comment (cs ++ more) pos = (skipBlanksFrom comment cs pos).extend more := by
  induction cs generalizing comment pos with
  | nil => exact absurd rfl h
  | cons c cs ih =>
    rw [skipBlanksFrom] at h ⊢
    rw [List.cons_append, skipBlanksFrom]
    split
    · next hcomment =>
      rw [if_pos hcomment] at h
      exact ih h
    · next hcomment =>
      rw [if_neg hcomment] at h
      split
      · next hsemi =>
        rw [if_pos hsemi] at h
        exact ih h
      · next hsemi =>
        rw [if_neg hsemi] at h
        split
        · next hblank =>
          rw [if_pos hblank] at h
          exact ih h
        · rfl

end Cursor

namespace Reader

/-! ## Steps in front of more text -/

/-- The state, when more text stands directly behind its text. -/
def State.extend (s : State) (more : List Char) : State :=
  { s with cursor := s.cursor.extend more }

section Steps

variable {s s' : State} {token : Token} {next : Cursor}

theorem State.chars_of_next (ht : s.here.token? = some (token, next)) :
    s.here.rest = token.chars ++ next.rest ∧ next.pos = s.here.pos.advanceAll token.chars ∧
      token.EndsBefore next.rest :=
  Cursor.chars_of_token? s.cursor.not_skips_skipBlanks ht

theorem State.here_suffix (s : State) : s.here.rest <:+ s.cursor.rest :=
  (skipped_skipBlanks s.cursor).suffix

theorem State.here_extend (more : List Char) (h : s.here.rest ≠ []) :
    (s.extend more).here = s.here.extend more :=
  Cursor.skipBlanksFrom_append more h

/-- A token that ends in front of a delimiter stays the next one. -/
theorem State.next_extend (more : List Char) (ht : s.here.token? = some (token, next))
    (hdelimiter : ∃ d ∈ next.rest, Delimits d) :
    (s.extend more).here = s.here.extend more ∧
      (s.extend more).here.token? = some (token, next.extend more) := by
  obtain ⟨hrest, hpos, hends⟩ := State.chars_of_next ht
  have hne : s.here.rest ≠ [] := by
    obtain ⟨d, hd, -⟩ := hdelimiter
    rw [hrest]
    exact List.append_ne_nil_of_right_ne_nil _ (List.ne_nil_of_mem hd)
  have hhere := State.here_extend more hne
  refine ⟨hhere, ?_⟩
  have htoken := Cursor.token?_chars (hends.append hdelimiter more) s.here.pos
  rw [← List.append_assoc, ← hrest, ← hpos] at htoken
  rw [hhere]
  exact htoken

theorem State.next_suffix (ht : s.here.token? = some (token, next)) :
    next.rest <:+ s.cursor.rest := by
  have hsuffix := s.here_suffix
  rw [(State.chars_of_next ht).1] at hsuffix
  exact (List.suffix_append token.chars next.rest).trans hsuffix

section Completes

variable {form : Form} {outer : List OpenGroup} {symbols : SymbolTable}

theorem Completes.exists_token (h : Completes s form outer symbols next) :
    ∃ token, s.here.token? = some (token, next) := by
  cases h with
  | closing _ ht => exact ⟨_, ht⟩
  | run ht _ => exact ⟨_, ht⟩

theorem Completes.extend (more : List Char) (h : Completes s form outer symbols next)
    (hdelimiter : ∃ d ∈ next.rest, Delimits d) :
    Completes (s.extend more) form outer symbols (next.extend more) := by
  cases h with
  | closing hgroups ht => exact .closing hgroups (State.next_extend more ht hdelimiter).2
  | run ht hform =>
    obtain ⟨hhere, ht'⟩ := State.next_extend more ht hdelimiter
    refine .run ht' ?_
    rw [hhere]
    exact hform

end Completes

theorem Step.suffix (h : Step s s') : s'.cursor.rest <:+ s.cursor.rest := by
  cases h with
  | opening ht => exact State.next_suffix ht
  | item h =>
    obtain ⟨token, ht⟩ := h.exists_token
    exact State.next_suffix ht

theorem Step.extend (more : List Char) (h : Step s s')
    (hdelimiter : ∃ d ∈ s'.cursor.rest, Delimits d) : Step (s.extend more) (s'.extend more) := by
  cases h with
  | opening ht =>
    obtain ⟨hhere, ht'⟩ := State.next_extend more ht hdelimiter
    have hstep := Step.opening ht'
    rw [hhere] at hstep
    exact hstep
  | item h => exact .item (h.extend more hdelimiter)

/-- **Steps are the same when the text goes on** behind a delimiter that is still to come. -/
theorem Steps.extend (more : List Char) (h : Steps s s')
    (hdelimiter : ∃ d ∈ s'.cursor.rest, Delimits d) : Steps (s.extend more) (s'.extend more) := by
  induction h with
  | refl => exact .refl
  | tail _ hstep ih =>
    obtain ⟨d, hd, hdelimits⟩ := hdelimiter
    exact (ih ⟨d, hstep.suffix.subset hd, hdelimits⟩).tail (hstep.extend more ⟨d, hd, hdelimits⟩)

/-- The closing bracket at the end of the text takes one mark that follows. -/
theorem State.closing_extend {bracket : Bracket} {splatted : Bool} {pos : Pos}
    (ht : s.here.token? = some (.closing bracket splatted, ⟨[], pos⟩)) :
    (s.extend splatMark).here.token? = some (.closing bracket true,
      if splatted then ⟨splatMark, pos⟩ else ⟨[], pos.advanceAll splatMark⟩) := by
  obtain ⟨hrest, hpos, -⟩ := State.chars_of_next ht
  change pos = _ at hpos
  have hhere : (s.extend splatMark).here = s.here.extend splatMark :=
    State.here_extend splatMark (by rw [hrest]; exact nofun)
  have hends : ∀ rest, (Token.closing bracket true).EndsBefore rest := nofun
  rw [hhere, Cursor.extend, hrest, hpos]
  cases splatted with
  | false => exact Cursor.token?_chars (hends []) s.here.pos
  | true => exact Cursor.token?_chars (hends splatMark) s.here.pos

end Steps

/-! ## Runs with a mark -/

section Runs

variable (table : SymbolTable) {cs : List Char} (pos : Pos)

theorem formOfRun_of_not_mark {form : Form} {symbols : SymbolTable} (h : ¬ splatMark <:+ cs) :
    formOfRun table cs pos = (.ok form, symbols) ↔
      ∃ a, atomOfRun table cs = (.ok a, symbols) ∧ form = .atom a pos := by
  rw [formOfRun, splatTarget?_eq_none_iff.2 h]
  rcases atomOfRun table cs with ⟨cause | a, symbols'⟩
  · exact ⟨nofun, nofun⟩
  · constructor
    · rintro ⟨⟩
      exact ⟨a, rfl, rfl⟩
    · rintro ⟨a, ⟨⟩, rfl⟩
      rfl

theorem formOfRun_mark {form : Form} {symbols : SymbolTable} (hne : cs ≠ []) :
    formOfRun table (cs ++ splatMark) pos = (.ok form, symbols) ↔
      ∃ a, atomOfRun table cs = (.ok a, symbols) ∧ form = .splat (.atom a pos) pos := by
  rw [formOfRun, splatTarget?_eq_some_iff.2 rfl]
  cases cs with
  | nil => exact absurd rfl hne
  | cons c cs =>
    dsimp only
    rcases atomOfRun table (c :: cs) with ⟨cause | a, symbols'⟩
    · exact ⟨nofun, nofun⟩
    · constructor
      · rintro ⟨⟩
        exact ⟨a, rfl, rfl⟩
      · rintro ⟨a, ⟨⟩, rfl⟩
        rfl

/-- With a mark at its end, a spelling is no literal and no numeral. -/
theorem atomOfRun_mark (h : splatMark <:+ cs) :
    atomOfRun table cs =
      (.ok (.id (table.intern (.ofList cs)).1), (table.intern (.ofList cs)).2) := by
  have hliteral : cs ∉ [['_'], ['T'], ['F']] := by
    intro hmem
    have hlong := h.length_le
    simp only [List.mem_cons, List.not_mem_nil, or_false] at hmem
    rcases hmem with rfl | rfl | rfl <;> exact absurd hlong (by decide)
  have hnone : Decimal.toInt? cs = none :=
    Option.eq_none_iff_forall_ne_some.2 fun n hn => (numeral_iff.2 hn).not_mark h
  rw [atomOfRun_of_not_literal table hliteral, Decimal.toInt64?_eq, hnone, Option.map_none]

/-- A text that is one run. -/
theorem token?_start (hrun : IsRun cs) :
    (start ⟨cs, table⟩ pos).here = ⟨cs, pos⟩ ∧
      (start ⟨cs, table⟩ pos).here.token? = some (.run cs, ⟨[], pos.advanceAll cs⟩) := by
  have hhere : (start ⟨cs, table⟩ pos).here = ⟨cs, pos⟩ := by
    cases cs with
    | nil => exact absurd rfl hrun.ne_nil
    | cons c cs =>
      refine Cursor.skipBlanksFrom_of_not_skips (fun hskips => ?_) cs pos
      exact hrun.not_delimits c List.mem_cons_self hskips.delimits
  have hends : (Token.run cs).EndsBefore [] := ⟨hrun, nofun⟩
  have htoken := Cursor.token?_chars hends pos
  rw [List.append_nil] at htoken
  rw [hhere]
  exact ⟨rfl, htoken⟩

theorem read_of_run {form : Form} {symbols : SymbolTable} (hrun : IsRun cs)
    (h : formOfRun table cs pos = (.ok form, symbols)) :
    Reader.read ⟨cs, table⟩ pos = (.form form (pos.advanceAll cs), ⟨[], symbols⟩) := by
  obtain ⟨hhere, ht⟩ := token?_start table pos hrun
  have hcompletes : Completes (start ⟨cs, table⟩ pos) form [] symbols ⟨[], pos.advanceAll cs⟩ :=
    .run ht (by rw [hhere]; exact h)
  exact read_of_completes hcompletes

/-- A mark alone has no target. -/
theorem read_mark :
    Reader.read ⟨splatMark, table⟩ pos = (.failed ⟨pos, .missingTarget⟩, ⟨[], table⟩) := by
  have hrun : IsRun splatMark := by
    refine ⟨nofun, fun d hd => ?_⟩
    obtain rfl : d = '.' := by simpa [splatMark] using hd
    exact not_delimits_dot
  obtain ⟨hhere, ht⟩ := token?_start table pos hrun
  have hends : Ends (start ⟨splatMark, table⟩ pos) (.failed ⟨_, .missingTarget⟩, ⟨_, table⟩) :=
    .badRun ht rfl
  rw [hhere] at hends
  exact read_of_ends hends

end Runs

/-! ## Texts that are one form -/

/-- Whether a text is one form, from its first character to its last. The symbols are those after
it has been read. -/
structure IsForm (table : SymbolTable) (text : String) (pos : Pos) (form : Form)
    (symbols : SymbolTable) : Prop where
  /-- Nothing that is stepped over comes in front of the form. -/
  head : ∀ c ∈ text.toList.head?, ¬ Skips c
  /-- Nothing is left behind it. -/
  read : ∃ next, (ofText table text).read pos = (.form form next, ⟨[], symbols⟩)

theorem readAll_of_read {reader : Reader} {pos next : Pos} {form : Form} {symbols : SymbolTable}
    (h : reader.read pos = (.form form next, ⟨[], symbols⟩)) :
    reader.readAll pos = (.ok [form], ⟨[], symbols⟩) := by
  have hend : Reader.read ⟨[], symbols⟩ next = (.finished, ⟨[], symbols⟩) :=
    read_of_end (s := start ⟨[], symbols⟩ next) rfl rfl
  rw [readAll, readAllFrom_eq, h]
  dsimp only
  rw [readAllFrom_eq, hend]
  rfl

section IsForm

variable {table symbols : SymbolTable} {text : String} {pos : Pos} {form : Form}

theorem IsForm.readAll (h : IsForm table text pos form symbols) :
    (ofText table text).readAll pos = (.ok [form], ⟨[], symbols⟩) := by
  obtain ⟨next, hread⟩ := h.read
  exact readAll_of_read hread

/-- The text is a run, or its last token closes a group. -/
theorem IsForm.run_or_group (h : IsForm table text pos form symbols) :
    (IsRun text.toList ∧ formOfRun table text.toList pos = (.ok form, symbols)) ∨
      ∃ s group splatted, Steps ((ofText table text).start pos) s ∧ s.symbols = symbols ∧
        s.groups = [group] ∧ form = group.close splatted ∧
        s.here.token? =
          some (.closing group.bracket splatted, ⟨[], pos.advanceAll text.toList⟩) := by
  obtain ⟨next, hread⟩ := h.read
  obtain rfl : next = pos.advanceAll text.toList := advanceAll_of_read hread
  obtain ⟨s, hsteps, hcompletes⟩ :=
    exists_completes_of_read (s := (ofText table text).start pos) hread
  obtain ⟨symbols', groups, cursor⟩ := s
  cases hcompletes with
  | closing hgroups ht => exact .inr ⟨_, _, _, hsteps, rfl, hgroups, rfl, ht⟩
  | @run cs _ _ _ ht hform =>
    -- Outside of all groups no step has been made, and the run starts the text.
    have hstart := Steps.eq_of_groups hsteps rfl
    rw [hstart] at ht hform
    have hhere : ((ofText table text).start pos).here = ⟨text.toList, pos⟩ := by
      have hhead := h.head
      change Cursor.skipBlanksFrom false text.toList pos = _
      cases hcs : text.toList with
      | nil => rfl
      | cons c cs =>
        rw [hcs] at hhead
        exact Cursor.skipBlanksFrom_of_not_skips (hhead c rfl) cs pos
    obtain ⟨hrest, -, hrun, -⟩ := State.chars_of_next ht
    rw [hhere] at hform hrest
    change text.toList = cs ++ [] at hrest
    rw [List.append_nil] at hrest
    rw [hrest]
    exact .inl ⟨hrun, hform⟩

/-- Behind a run the mark makes a splat of the atom, and a second mark ends a name. -/
theorem readAll_mark_of_run (hrun : IsRun text.toList)
    (hform : formOfRun table text.toList pos = (.ok form, symbols)) :
    (∃ a, form = .atom a pos ∧
        (ofText table (text ++ "..")).readAll pos = (.ok [.splat form pos], ⟨[], symbols⟩)) ∨
      ∃ a, form = .splat (.atom a pos) pos ∧
        (ofText table (text ++ "..")).readAll pos =
          (.ok [.splat (.atom (.id (table.intern text).1) pos) pos],
            ⟨[], (table.intern text).2⟩) := by
  have hread : ∀ {a symbols'}, atomOfRun table text.toList = (.ok a, symbols') →
      (ofText table (text ++ "..")).readAll pos =
        (.ok [.splat (.atom a pos) pos], ⟨[], symbols'⟩) := by
    intro a symbols' ha
    have hmarked := (formOfRun_mark table pos hrun.ne_nil).2 ⟨a, ha, rfl⟩
    have hall := readAll_of_read (read_of_run table pos (isRun_append_mark hrun) hmarked)
    rw [ofText, String.toList_append]
    exact hall
  by_cases hmark : splatMark <:+ text.toList
  · obtain ⟨a, rfl⟩ : ∃ a, form = .splat (.atom a pos) pos := by
      obtain ⟨target, htarget⟩ := hmark
      rw [← htarget] at hform
      cases target with
      | nil => cases hform
      | cons c target =>
        obtain ⟨a, -, rfl⟩ := (formOfRun_mark table pos (List.cons_ne_nil c target)).1 hform
        exact ⟨a, rfl⟩
    have hatom := atomOfRun_mark table hmark
    rw [String.ofList_toList] at hatom
    exact .inr ⟨a, rfl, hread hatom⟩
  · obtain ⟨a, ha, rfl⟩ := (formOfRun_of_not_mark table pos hmark).1 hform
    exact .inl ⟨a, rfl, hread ha⟩

/-- Behind a group the mark makes a splat of it, and a second mark is left over. -/
theorem readAll_mark_of_group {s : State} {group : OpenGroup} {splatted : Bool}
    (hsteps : Steps ((ofText table text).start pos) s) (hgroups : s.groups = [group])
    (ht : s.here.token? =
      some (.closing group.bracket splatted, ⟨[], pos.advanceAll text.toList⟩)) :
    (ofText table (text ++ "..")).readAll pos =
      if splatted then
        (.error ⟨pos.advanceAll text.toList, .missingTarget⟩, ⟨[], s.symbols⟩)
      else (.ok [group.close true], ⟨[], s.symbols⟩) := by
  have hclosing : ∃ d ∈ s.cursor.rest, Delimits d := by
    obtain ⟨hrest, -, -⟩ := State.chars_of_next ht
    refine ⟨group.bracket.closing, s.here_suffix.subset ?_, group.bracket.delimits_closing⟩
    rw [hrest]
    exact List.mem_cons_self
  have hstart : (ofText table (text ++ "..")).start pos =
      ((ofText table text).start pos).extend splatMark := by
    rw [ofText, String.toList_append]
    rfl
  have hread : (ofText table (text ++ "..")).read pos = _ :=
    ((congrArg State.read hstart).trans (read_of_steps (hsteps.extend splatMark hclosing))).trans
      (read_of_completes (.closing hgroups (State.closing_extend ht)))
  cases splatted with
  | false => exact readAll_of_read hread
  | true =>
    have hmarked : (ofText table (text ++ "..")).read pos =
        (.form (group.close true) (pos.advanceAll text.toList), ⟨splatMark, s.symbols⟩) := hread
    rw [readAll, readAllFrom_eq, hmarked]
    dsimp only
    rw [readAllFrom_eq, read_mark]
    rfl

/-- **The splat mark, once.** When the mark follows a text that is one form and no splat, it makes
a splat of the form. A text that is a splat already is not read as a splat of a splat: if it is a
run, all of it is the name of an identifier, of which the mark makes a splat, and behind a splatted
group the mark has no target. -/
theorem readAll_mark (h : IsForm table text pos form symbols) :
    (ofText table (text ++ "..")).readAll pos =
        (match form with
          | .splat (.atom _ _) _ =>
            (.ok [.splat (.atom (.id (table.intern text).1) pos) pos], ⟨[], (table.intern text).2⟩)
          | .splat _ _ => (.error ⟨pos.advanceAll text.toList, .missingTarget⟩, ⟨[], symbols⟩)
          | form => (.ok [.splat form form.pos], ⟨[], symbols⟩)) ∧
      ((∃ reader, (ofText table (text ++ "..")).readAll pos =
          (.ok [.splat form form.pos], reader)) ↔ ∀ inner at', form ≠ .splat inner at') := by
  rcases h.run_or_group with ⟨hrun, hform⟩ | ⟨s, group, splatted, hsteps, rfl, hgroups, rfl, ht⟩
  · rcases readAll_mark_of_run hrun hform with ⟨a, rfl, hall⟩ | ⟨a, rfl, hall⟩
    · exact ⟨hall, fun _ => nofun, fun _ => ⟨_, hall⟩⟩
    · refine ⟨hall, fun ⟨reader, hsplat⟩ => ?_, fun hne => absurd rfl (hne _ _)⟩
      rw [hall] at hsplat
      cases hsplat
  · have hall := readAll_mark_of_group hsteps hgroups ht
    cases splatted with
    | false => exact ⟨hall, fun _ => nofun, fun _ => ⟨_, hall⟩⟩
    | true =>
      refine ⟨hall, fun ⟨reader, hsplat⟩ => ?_, fun hne => absurd rfl (hne _ _)⟩
      rw [hall] at hsplat
      cases hsplat

end IsForm

/-- Of the two marks behind an identifier, the first is part of the name. -/
theorem readAll_mark_identifier :
    let x := SymbolTable.empty.intern "x"
    let dotted := SymbolTable.empty.intern "x.."
    let pos := Pos.start "main"
    IsForm .empty "x.." pos (.splat (.atom (.id x.1) pos) pos) x.2 ∧
      (ofText .empty ("x.." ++ "..")).readAll pos =
        (.ok [.splat (.atom (.id dotted.1) pos) pos], ⟨[], dotted.2⟩) := by
  intro x dotted pos
  have hrun : IsRun "x..".toList := isRun_append_mark (isRun_singleton (by decide))
  have hform : IsForm .empty "x.." pos (.splat (.atom (.id x.1) pos) pos) x.2 := by
    refine ⟨fun c hc hskips => ?_, _, read_of_run .empty pos hrun rfl⟩
    exact hrun.not_delimits c (List.mem_of_mem_head? hc) hskips.delimits
  exact ⟨hform, (readAll_mark hform).1⟩

/-- A splatted group followed by the mark is not a splat of a splat; it is refused. -/
theorem readAll_mark_unit :
    let pos := Pos.start "main"
    let unit := Form.splat (.group .round [] pos) pos
    IsForm .empty "().." pos unit .empty ∧
      (ofText .empty ("().." ++ "..")).readAll pos =
        (.error ⟨⟨"main", 1, 5⟩, .missingTarget⟩, ⟨[], .empty⟩) ∧
      ¬ ∀ (table symbols : SymbolTable) (text : String) (pos : Pos) (form : Form),
        IsForm table text pos form symbols →
          ∃ reader, (ofText table (text ++ "..")).readAll pos =
            (.ok [.splat form form.pos], reader) := by
  intro pos unit
  let inside : State := ⟨.empty, [⟨.round, pos, []⟩], ⟨[')', '.', '.'], ⟨"main", 1, 2⟩⟩⟩
  have hopen : Steps ((ofText .empty "()..").start pos) inside := .single (.opening rfl)
  have hclose : inside.here.token? = some (.closing .round true, ⟨[], ⟨"main", 1, 5⟩⟩) := rfl
  have hunit : Completes inside ((OpenGroup.mk .round pos []).close true) [] .empty
      ⟨[], ⟨"main", 1, 5⟩⟩ := .closing rfl hclose
  have hform : IsForm .empty "().." pos unit .empty := by
    refine ⟨fun c hc => ?_, _, (read_of_steps hopen).trans (read_of_completes hunit)⟩
    obtain rfl : '(' = c := Option.some.inj hc
    exact Bracket.not_skips_opening .round
  have hall : (ofText .empty ("().." ++ "..")).readAll pos = _ :=
    readAll_mark_of_group hopen rfl hclose
  refine ⟨hform, hall, fun h => ?_⟩
  obtain ⟨reader, hsplat⟩ := h .empty .empty "().." pos unit hform
  rw [hall] at hsplat
  cases hsplat

end Reader

end SplatLisp
