import SplatLisp.Proofs.Grammar
import SplatLisp.Reader.Token

/-!
# Tokens and lexemes

A cursor finds the lexemes of a text: stepping over blanks changes nothing about the lexemes of
what is left (`lexes_skipBlanks_iff`), and the token that comes next stands for one lexeme, or for
a closing bracket and its mark (`Lexes.exists_token`, `lexes_of_token`). Every text has lexemes
(`exists_lexes`).
-/

namespace SplatLisp

/-! ## Characters -/

theorem isDelimiter_iff {c : Char} : isDelimiter c = true ↔ Delimits c := by
  simp [isDelimiter, Delimits, or_assoc]

theorem Bracket.delimits_opening (bracket : Bracket) : Delimits bracket.opening := by
  cases bracket <;> decide

theorem Bracket.delimits_closing (bracket : Bracket) : Delimits bracket.closing := by
  cases bracket <;> decide

theorem not_delimits_dot : ¬ Delimits '.' := by decide

/-- Whether the character starts something to be stepped over. -/
def Skips (c : Char) : Prop := (isBlank c = true ∨ c = ',') ∨ c = ';'

theorem Skips.delimits {c : Char} (h : Skips c) : Delimits c := by
  rcases h with (hblank | rfl) | rfl
  · exact .inl hblank
  · exact .inr (by decide)
  · exact .inr (by decide)

theorem Bracket.not_skips_opening (bracket : Bracket) : ¬ Skips bracket.opening := by
  unfold Skips
  cases bracket <;> decide

theorem Bracket.not_skips_closing (bracket : Bracket) : ¬ Skips bracket.closing := by
  unfold Skips
  cases bracket <;> decide

/-- What a character that is not stepped over starts. -/
theorem bracket_or_run {c : Char} (h : ¬ Skips c) :
    (∃ bracket : Bracket, c = bracket.opening) ∨ (∃ bracket : Bracket, c = bracket.closing) ∨
      ¬ Delimits c := by
  by_cases hd : Delimits c
  · simp only [Skips, not_or] at h
    rcases hd with hblank | hmem
    · exact absurd hblank h.1.1
    · simp only [List.mem_cons, List.not_mem_nil, or_false] at hmem
      rcases hmem with rfl | rfl | rfl | rfl | rfl | rfl
      · exact .inl ⟨.round, rfl⟩
      · exact .inr (.inl ⟨.round, rfl⟩)
      · exact .inl ⟨.square, rfl⟩
      · exact .inr (.inl ⟨.square, rfl⟩)
      · exact absurd rfl h.1.2
      · exact absurd rfl h.2
  · exact .inr (.inr hd)

namespace Cursor

/-! ## Stepping over blanks -/

theorem skipBlanksFrom_comment {body : List Char} (hbody : '\n' ∉ body) (cs : List Char)
    (pos : Pos) : ∃ pos', skipBlanksFrom true (body ++ '\n' :: cs) pos =
      skipBlanksFrom false cs pos' := by
  induction body generalizing pos with
  | nil => exact ⟨pos.advance '\n', rfl⟩
  | cons c body ih =>
    have hc : c ≠ '\n' := fun h => hbody (h ▸ List.mem_cons_self)
    obtain ⟨pos', hpos⟩ := ih (fun h => hbody (List.mem_cons_of_mem c h)) (pos.advance c)
    refine ⟨pos', ?_⟩
    rw [List.cons_append, skipBlanksFrom]
    simp only [↓reduceIte, ne_eq, hc, not_false_eq_true, decide_true]
    exact hpos

theorem skipBlanksFrom_lastComment {body : List Char} (hbody : '\n' ∉ body) (pos : Pos) :
    (skipBlanksFrom true body pos).rest = [] := by
  induction body generalizing pos with
  | nil => rfl
  | cons c body ih =>
    have hc : c ≠ '\n' := fun h => hbody (h ▸ List.mem_cons_self)
    rw [skipBlanksFrom]
    simp only [↓reduceIte, ne_eq, hc, not_false_eq_true, decide_true]
    exact ih (fun h => hbody (List.mem_cons_of_mem c h)) (pos.advance c)

theorem skipBlanksFrom_of_blank {c : Char} (hc : isBlank c = true ∨ c = ',') (cs : List Char)
    (pos : Pos) : skipBlanksFrom false (c :: cs) pos = skipBlanksFrom false cs (pos.advance c) := by
  have hsemi : c ≠ ';' := by
    rintro rfl
    exact absurd hc (by decide)
  rw [skipBlanksFrom]
  simp [hsemi, hc]

theorem skipBlanksFrom_of_not_skips {c : Char} (hc : ¬ Skips c) (cs : List Char) (pos : Pos) :
    skipBlanksFrom false (c :: cs) pos = ⟨c :: cs, pos⟩ := by
  simp only [Skips, not_or] at hc
  rw [skipBlanksFrom]
  simp [hc.1.1, hc.1.2, hc.2]

theorem not_skips_skipBlanksFrom (comment : Bool) (cs : List Char) (pos : Pos) :
    ∀ c ∈ (skipBlanksFrom comment cs pos).rest.head?, ¬ Skips c := by
  induction cs generalizing comment pos with
  | nil =>
    intro c hc
    cases hc
  | cons c cs ih =>
    rw [skipBlanksFrom]
    split
    · exact ih _ _
    · split
      · exact ih _ _
      · split
        · exact ih _ _
        · next hcomment hsemi hblank =>
          intro d hd
          obtain rfl : c = d := by simpa using hd
          simp only [Bool.or_eq_true, decide_eq_true_eq] at hblank
          rintro (h | h)
          · exact hblank h
          · exact hsemi h

/-- What is stepped over ends before a token. -/
theorem not_skips_skipBlanks (cursor : Cursor) :
    ∀ c ∈ cursor.skipBlanks.rest.head?, ¬ Skips c :=
  not_skips_skipBlanksFrom false cursor.rest cursor.pos

end Cursor

/-- The text after a semicolon is a comment up to its first line feed, if there is one. -/
theorem Lexes.comment_inv {closed : Bool} {cs : List Char} {ls : List Lexeme}
    (h : Lexes closed (';' :: cs) ls) :
    (∃ body rest, '\n' ∉ body ∧ cs = body ++ '\n' :: rest ∧ Lexes false rest ls) ∨
      ('\n' ∉ cs ∧ ls = []) := by
  generalize htext : ';' :: cs = text at h
  cases h with
  | done => cases htext
  | blank hc _ =>
    cases htext
    exact absurd hc (by decide)
  | comment hbody hrest =>
    cases htext
    exact .inl ⟨_, _, hbody, rfl, hrest⟩
  | lastComment hbody =>
    cases htext
    exact .inr ⟨hbody, rfl⟩
  | opening bracket _ => cases bracket <;> cases htext
  | closing bracket _ => cases bracket <;> cases htext
  | mark _ => cases htext
  | run hrun _ _ _ =>
    cases htext
    exact absurd (by decide) (hrun ';' List.mem_cons_self)

theorem lexes_of_skipBlanksFrom {ls : List Lexeme} (cs : List Char) :
    ∀ pos, (Lexes false (Cursor.skipBlanksFrom false cs pos).rest ls → Lexes false cs ls) ∧
      (Lexes false (Cursor.skipBlanksFrom true cs pos).rest ls → Lexes false (';' :: cs) ls) := by
  induction cs with
  | nil =>
    refine fun pos => ⟨fun h => h, fun h => ?_⟩
    cases h
    exact .lastComment (List.not_mem_nil)
  | cons c cs ih =>
    refine fun pos => ⟨fun h => ?_, fun h => ?_⟩
    · by_cases hc : Skips c
      · rcases hc with hblank | rfl
        · rw [Cursor.skipBlanksFrom_of_blank hblank] at h
          exact .blank hblank ((ih _).1 h)
        · exact (ih _).2 h
      · rw [Cursor.skipBlanksFrom_of_not_skips hc] at h
        exact h
    · by_cases hc : c = '\n'
      · subst hc
        exact .comment (List.not_mem_nil) ((ih _).1 h)
      · rw [Cursor.skipBlanksFrom] at h
        simp only [↓reduceIte, ne_eq, hc, not_false_eq_true, decide_true] at h
        -- A longer comment: the characters before its end are one more.
        rcases ((ih _).2 h).comment_inv with ⟨body, rest, hbody, rfl, hrest⟩ | ⟨hbody, rfl⟩
        · have hbody' : '\n' ∉ c :: body :=
            fun hmem => (List.mem_cons.1 hmem).elim (fun he => hc he.symm) hbody
          exact .comment hbody' hrest
        · refine .lastComment ?_
          exact fun hmem => (List.mem_cons.1 hmem).elim (fun he => hc he.symm) hbody

theorem Lexes.skipBlanksFrom {cs : List Char} {ls : List Lexeme} {closed : Bool}
    (h : Lexes closed cs ls) (hclosed : closed = false) (pos : Pos) :
    Lexes false (Cursor.skipBlanksFrom false cs pos).rest ls := by
  induction h generalizing pos with
  | done => exact .done
  | blank hc _ ih =>
    rw [Cursor.skipBlanksFrom_of_blank hc]
    exact ih rfl _
  | @comment _ body cs _ hbody _ ih =>
    obtain ⟨pos', hpos⟩ := Cursor.skipBlanksFrom_comment hbody cs (pos.advance ';')
    have hstart : Cursor.skipBlanksFrom false (';' :: (body ++ '\n' :: cs)) pos =
      Cursor.skipBlanksFrom true (body ++ '\n' :: cs) (pos.advance ';') := rfl
    rw [hstart, hpos]
    exact ih rfl _
  | @lastComment _ body hbody =>
    have hstart : Cursor.skipBlanksFrom false (';' :: body) pos =
      Cursor.skipBlanksFrom true body (pos.advance ';') := rfl
    rw [hstart, Cursor.skipBlanksFrom_lastComment hbody]
    exact .done
  | opening bracket hrest _ =>
    rw [Cursor.skipBlanksFrom_of_not_skips bracket.not_skips_opening]
    exact .opening bracket hrest
  | closing bracket hrest _ =>
    rw [Cursor.skipBlanksFrom_of_not_skips bracket.not_skips_closing]
    exact .closing bracket hrest
  | mark _ _ => cases hclosed
  | run hrun hend _ hrest _ =>
    have hskip := fun hs : Skips _ => hrun _ List.mem_cons_self hs.delimits
    rw [Cursor.skipBlanksFrom_of_not_skips hskip]
    exact .run hrun hend (fun h => Bool.noConfusion h) hrest

/-- Stepping over blanks changes nothing about the lexemes. -/
theorem lexes_skipBlanks_iff {cursor : Cursor} {ls : List Lexeme} :
    Lexes false cursor.skipBlanks.rest ls ↔ Lexes false cursor.rest ls :=
  ⟨(lexes_of_skipBlanksFrom cursor.rest cursor.pos).1, fun h => h.skipBlanksFrom rfl cursor.pos⟩

/-! ## Splat marks -/

theorem splatMark_isPrefix_iff {cs : List Char} :
    splatMark <+: cs ↔ ∃ rest, cs = '.' :: '.' :: rest :=
  ⟨fun ⟨rest, h⟩ => ⟨rest, h.symm⟩, fun ⟨rest, h⟩ => ⟨rest, h.symm⟩⟩

/-- A mark cannot begin in a run and end behind it. -/
theorem splatMark_isPrefix_of_append {c : Char} {more cs : List Char}
    (hend : ∀ d ∈ cs.head?, Delimits d) (h : splatMark <+: c :: (more ++ cs)) :
    splatMark <+: c :: more := by
  obtain ⟨rest, hrest⟩ := splatMark_isPrefix_iff.1 h
  cases more with
  | nil =>
    obtain ⟨rfl, htail⟩ := List.cons.inj hrest
    rw [List.nil_append] at htail
    exact absurd (hend '.' (by rw [htail]; rfl)) not_delimits_dot
  | cons d more =>
    simp only [List.cons_append, List.cons.injEq] at hrest
    obtain ⟨rfl, rfl, -⟩ := hrest
    exact splatMark_isPrefix_iff.2 ⟨more, rfl⟩

/-- Directly behind a closing bracket, a mark comes first or nothing is different. -/
theorem Lexes.of_closed {cs : List Char} {ls : List Lexeme} (h : Lexes true cs ls) :
    (∃ rest ms, cs = '.' :: '.' :: rest ∧ ls = .mark :: ms ∧ Lexes false rest ms) ∨
      (¬ splatMark <+: cs ∧ Lexes false cs ls) := by
  have hdot : ∀ {c : Char} {rest : List Char}, Delimits c → ¬ splatMark <+: c :: rest := by
    rintro c rest hc ⟨more, hmore⟩
    cases hmore
    exact not_delimits_dot hc
  cases h with
  | done => exact .inr ⟨fun h => absurd h.length_le (by decide), .done⟩
  | blank hc hrest => exact .inr ⟨hdot (Skips.delimits (.inl hc)), .blank hc hrest⟩
  | comment hbody hrest => exact .inr ⟨hdot (Skips.delimits (.inr rfl)), .comment hbody hrest⟩
  | lastComment hbody => exact .inr ⟨hdot (Skips.delimits (.inr rfl)), .lastComment hbody⟩
  | opening bracket hrest => exact .inr ⟨hdot bracket.delimits_opening, .opening bracket hrest⟩
  | closing bracket hrest => exact .inr ⟨hdot bracket.delimits_closing, .closing bracket hrest⟩
  | mark hrest => exact .inl ⟨_, _, rfl, rfl, hrest⟩
  | run hrun hend hmark hrest =>
    refine .inr ⟨fun h => hmark rfl (splatMark_isPrefix_of_append hend h), ?_⟩
    exact .run hrun hend (fun h => Bool.noConfusion h) hrest

theorem Lexes.closed_of_not_mark {cs : List Char} {ls : List Lexeme} (hmark : ¬ splatMark <+: cs)
    (h : Lexes false cs ls) : Lexes true cs ls := by
  cases h with
  | done => exact .done
  | blank hc hrest => exact .blank hc hrest
  | comment hbody hrest => exact .comment hbody hrest
  | lastComment hbody => exact .lastComment hbody
  | opening bracket hrest => exact .opening bracket hrest
  | closing bracket hrest => exact .closing bracket hrest
  | run hrun hend _ hrest =>
    exact .run hrun hend (fun _ hpre => hmark (hpre.trans (List.prefix_append _ _))) hrest

/-! ## Tokens -/

/-- The lexemes that a token stands for. -/
def Token.lexemes : Token → List Lexeme
  | opening bracket => [.opening bracket]
  | closing bracket splatted => .closing bracket :: if splatted then [.mark] else []
  | run cs => [.run cs]

namespace Cursor

theorem closing_eq (bracket : Bracket) (cs : List Char) (pos : Pos) :
    (∃ rest next, cs = '.' :: '.' :: rest ∧
        closing bracket ⟨cs, pos⟩ = (.closing bracket true, ⟨rest, next⟩)) ∨
      (¬ splatMark <+: cs ∧ closing bracket ⟨cs, pos⟩ = (.closing bracket false, ⟨cs, pos⟩)) := by
  by_cases h : splatMark <+: cs
  · obtain ⟨rest, rfl⟩ := splatMark_isPrefix_iff.1 h
    exact .inl ⟨rest, _, rfl, rfl⟩
  · refine .inr ⟨h, ?_⟩
    unfold closing
    split
    · next heq =>
      cases heq
      exact absurd (splatMark_isPrefix_iff.2 ⟨_, rfl⟩) h
    · rfl

/-- A token is found everywhere but at the end of the text. -/
theorem rest_eq_nil_of_token? {cursor : Cursor} (h : cursor.token? = none) : cursor.rest = [] := by
  obtain ⟨rest, pos⟩ := cursor
  cases rest with
  | nil => rfl
  | cons c cs =>
    simp only [token?] at h
    split at h <;> cases h

theorem token?_opening (bracket : Bracket) (cs : List Char) (pos : Pos) :
    token? ⟨bracket.opening :: cs, pos⟩ =
      some (.opening bracket, ⟨cs, pos.advance bracket.opening⟩) := by
  cases bracket <;> rfl

theorem token?_closing (bracket : Bracket) (cs : List Char) (pos : Pos) :
    token? ⟨bracket.closing :: cs, pos⟩ =
      some (closing bracket ⟨cs, pos.advance bracket.closing⟩) := by
  cases bracket <;> rfl

theorem token?_run {c : Char} (hc : ¬ Delimits c) (cs : List Char) (pos : Pos) :
    token? ⟨c :: cs, pos⟩ = some (run c ⟨cs, pos.advance c⟩) := by
  have hne : ∀ d, Delimits d → c ≠ d := fun d hd he => hc (he ▸ hd)
  simp only [token?]
  split
  · exact absurd rfl (hne '(' (by decide))
  · exact absurd rfl (hne '[' (by decide))
  · exact absurd rfl (hne ')' (by decide))
  · exact absurd rfl (hne ']' (by decide))
  · rfl

theorem run_append {c : Char} {more cs : List Char} (hrun : ∀ d ∈ more, ¬ Delimits d)
    (hend : ∀ d ∈ cs.head?, Delimits d) (pos : Pos) :
    run c ⟨more ++ cs, pos⟩ = (.run (c :: more), ⟨cs, pos.advanceAll more⟩) := by
  have hmore : ∀ d ∈ more, (!isDelimiter d) = true := by
    intro d hd
    have := hrun d hd
    rw [← isDelimiter_iff] at this
    simpa using this
  have htake : cs.takeWhile (!isDelimiter ·) = [] := by
    cases cs with
    | nil => rfl
    | cons d cs =>
      rw [List.takeWhile_cons_of_neg]
      simp [isDelimiter_iff.2 (hend d rfl)]
  have hdrop : cs.dropWhile (!isDelimiter ·) = cs := by
    cases cs with
    | nil => rfl
    | cons d cs =>
      rw [List.dropWhile_cons_of_neg]
      simp [isDelimiter_iff.2 (hend d rfl)]
  simp only [run]
  rw [List.takeWhile_append_of_pos hmore, List.dropWhile_append_of_pos hmore, htake, hdrop,
    List.append_nil]

end Cursor

/-! ## The lexemes of the next token -/

/-- Behind a closing bracket, the cursor takes a mark exactly if the lexemes have one. -/
theorem Lexes.exists_closing {cs : List Char} {ms : List Lexeme} (bracket : Bracket)
    (h : Lexes true cs ms) (pos : Pos) : ∃ splatted next ms',
      Cursor.closing bracket ⟨cs, pos⟩ = (.closing bracket splatted, next) ∧
        .closing bracket :: ms = (Token.closing bracket splatted).lexemes ++ ms' ∧
          Lexes false next.rest ms' := by
  rcases Cursor.closing_eq bracket cs pos with ⟨rest, next, rfl, heq⟩ | ⟨hmark, heq⟩
  · rcases h.of_closed with ⟨rest', ms', hcs, rfl, hms⟩ | ⟨hmark, -⟩
    · cases hcs
      exact ⟨true, _, ms', heq, rfl, hms⟩
    · exact absurd (splatMark_isPrefix_iff.2 ⟨rest, rfl⟩) hmark
  · rcases h.of_closed with ⟨rest', ms', rfl, -, -⟩ | ⟨-, hms⟩
    · exact absurd (splatMark_isPrefix_iff.2 ⟨rest', rfl⟩) hmark
    · exact ⟨false, _, ms, heq, rfl, hms⟩

theorem lexes_of_closing {bracket : Bracket} {cs : List Char} {pos : Pos} {token : Token}
    {next : Cursor} {ms : List Lexeme}
    (ht : Cursor.closing bracket ⟨cs, pos⟩ = (token, next)) (h : Lexes false next.rest ms) :
    Lexes false (bracket.closing :: cs) (token.lexemes ++ ms) := by
  rcases Cursor.closing_eq bracket cs pos with ⟨rest, next', rfl, heq⟩ | ⟨hmark, heq⟩
  · rw [heq] at ht
    cases ht
    exact .closing bracket (.mark h)
  · rw [heq] at ht
    cases ht
    exact .closing bracket (h.closed_of_not_mark hmark)

theorem lexes_of_run {c : Char} (hc : ¬ Delimits c) {cs : List Char} {pos : Pos} {token : Token}
    {next : Cursor} {ms : List Lexeme} (ht : Cursor.run c ⟨cs, pos⟩ = (token, next))
    (h : Lexes false next.rest ms) : Lexes false (c :: cs) (token.lexemes ++ ms) := by
  cases ht
  have hrun : ∀ d ∈ c :: cs.takeWhile (!isDelimiter ·), ¬ Delimits d := by
    intro d hd
    rcases List.mem_cons.1 hd with rfl | hd
    · exact hc
    · have hall := List.all_eq_true.1 (List.all_takeWhile (l := cs)) d hd
      rw [← isDelimiter_iff]
      simpa using hall
  have hend : ∀ d ∈ (cs.dropWhile (!isDelimiter ·)).head?, Delimits d := by
    intro d hd
    have hstop := List.head?_dropWhile_not (!isDelimiter ·) cs
    rw [hd] at hstop
    rw [← isDelimiter_iff]
    simpa using hstop
  have hlex : Lexes false _ _ := .run hrun hend (fun h => Bool.noConfusion h) h
  rw [List.takeWhile_append_dropWhile] at hlex
  exact hlex

/-- The first lexemes of a text are those of the token that comes next. -/
theorem Lexes.exists_token {cursor : Cursor} {ls : List Lexeme} (h : Lexes false cursor.rest ls) :
    (cursor.skipBlanks.token? = none ∧ ls = []) ∨ ∃ token next ms,
      cursor.skipBlanks.token? = some (token, next) ∧ ls = token.lexemes ++ ms ∧
        Lexes false next.rest ms := by
  have hskip := cursor.not_skips_skipBlanks
  rw [← lexes_skipBlanks_iff] at h
  generalize cursor.skipBlanks = here at *
  obtain ⟨rest, pos⟩ := here
  cases h with
  | done => exact .inl ⟨rfl, rfl⟩
  | blank hc _ => exact absurd (.inl hc) (hskip _ rfl)
  | comment _ _ => exact absurd (.inr rfl) (hskip _ rfl)
  | lastComment _ => exact absurd (.inr rfl) (hskip _ rfl)
  | opening bracket hrest =>
    exact .inr ⟨_, _, _, Cursor.token?_opening bracket _ pos, rfl, hrest⟩
  | closing bracket hrest =>
    obtain ⟨splatted, next, ms, heq, hls, hms⟩ :=
      hrest.exists_closing bracket (pos.advance bracket.closing)
    refine .inr ⟨_, next, ms, ?_, hls, hms⟩
    rw [Cursor.token?_closing, heq]
  | run hrun hend _ hrest =>
    refine .inr ?_
    rw [Cursor.token?_run (hrun _ List.mem_cons_self),
      Cursor.run_append (fun d hd => hrun d (List.mem_cons_of_mem _ hd)) hend]
    exact ⟨_, _, _, rfl, rfl, hrest⟩

/-- The lexemes of the token that comes next are the first ones of the text. -/
theorem lexes_of_token {cursor next : Cursor} {token : Token} {ms : List Lexeme}
    (ht : cursor.skipBlanks.token? = some (token, next)) (h : Lexes false next.rest ms) :
    Lexes false cursor.rest (token.lexemes ++ ms) := by
  have hskip := cursor.not_skips_skipBlanks
  rw [← lexes_skipBlanks_iff]
  generalize cursor.skipBlanks = here at *
  obtain ⟨rest, pos⟩ := here
  cases rest with
  | nil => cases ht
  | cons c cs =>
    rcases bracket_or_run (hskip c rfl) with ⟨bracket, rfl⟩ | ⟨bracket, rfl⟩ | hc
    · rw [Cursor.token?_opening] at ht
      cases ht
      exact .opening bracket h
    · rw [Cursor.token?_closing] at ht
      exact lexes_of_closing (Option.some.inj ht) h
    · rw [Cursor.token?_run hc] at ht
      exact lexes_of_run hc (Option.some.inj ht) h

theorem lexes_of_end {cursor : Cursor} (ht : cursor.skipBlanks.token? = none) :
    Lexes false cursor.rest [] := by
  rw [← lexes_skipBlanks_iff, Cursor.rest_eq_nil_of_token? ht]
  exact .done

/-- A mark stands behind a closing bracket only. -/
theorem Lexes.head?_ne_mark {text : List Char} {ls : List Lexeme} (h : Lexes false text ls) :
    ls.head? ≠ some .mark := by
  intro hmark
  change Lexes false (Cursor.mk text default).rest ls at h
  rcases h.exists_token with ⟨-, rfl⟩ | ⟨token, next, ms, -, rfl, -⟩
  · cases hmark
  · cases token <;> cases hmark

/-- The lexemes in front of a text are those of the token that comes next; without a mark, a
closing bracket is one that no mark follows. -/
theorem exists_next_of_lexes (token : Token) {cursor : Cursor} {ls : List Lexeme}
    (h : Lexes false cursor.rest (token.lexemes ++ ls))
    (hmark : ∀ bracket, token = .closing bracket false → ls.head? ≠ some .mark) :
    ∃ next, cursor.skipBlanks.token? = some (token, next) ∧ Lexes false next.rest ls := by
  rcases h.exists_token with ⟨-, hnil⟩ | ⟨token', next, ms, ht, heq, hms⟩
  · cases token <;> cases hnil
  · have hmark' := hms.head?_ne_mark
    -- Only a mark tells two tokens with the same first lexeme apart.
    suffices htoken : token' = token ∧ ms = ls by
      obtain ⟨rfl, rfl⟩ := htoken
      exact ⟨next, ht, hms⟩
    cases token <;> cases token' <;> simp only [Token.lexemes] at heq <;> grind

/-- Every text has lexemes. -/
theorem exists_lexes (cursor : Cursor) : ∃ ls, Lexes false cursor.rest ls := by
  induction hn : cursor.rest.length using Nat.strongRecOn generalizing cursor with
  | _ n ih =>
    cases ht : cursor.skipBlanks.token? with
    | none => exact ⟨[], lexes_of_end ht⟩
    | some found =>
      obtain ⟨token, next⟩ := found
      have hlt := Cursor.length_of_token? ht
      have hle := cursor.length_skipBlanks_le
      obtain ⟨ms, hms⟩ := ih next.rest.length (by omega) next rfl
      exact ⟨_, lexes_of_token ht hms⟩

end SplatLisp
