import SplatLisp.Proofs.RoundTrip

/-!
# Where forms stand in a text

The grammar of texts with places. A `Source` is a text with the place where it starts, and
`Source.place` is the place of the character with an index: the first place, advanced over the
characters in front of that one. `Source.Layout` says how forms lie in a text one behind the other,
and at which place each form and each part of it is: that of its own first character, which for a
splat is the first character of what it wraps. `Source.Gives` says what one reading comes to, and at
which place it fails if it does.

The relations go from one rest of the text to another, and the index of a character is the number of
characters in front of it (`Source.placeOf`).

The reader does what they say (`Source.gives_of_read`). Its state always stands at a rest of the
text, holds the place of that rest, and holds open groups whose items lie between their opening
brackets and that rest (`Source.Follows`); each step keeps this.
-/

namespace SplatLisp

/-! ## What stands between forms -/

/-- Blanks, commas and comments lead from a text to a rest of it. -/
inductive Skipped : List Char → List Char → Prop
  | nothing {cs : List Char} : Skipped cs cs
  | blank {c : Char} {cs rest : List Char} (hc : isBlank c = true ∨ c = ',')
    (h : Skipped cs rest) : Skipped (c :: cs) rest
  /-- A comment goes on to the next line feed. -/
  | comment {body cs rest : List Char} (hbody : '\n' ∉ body) (h : Skipped cs rest) :
    Skipped (';' :: (body ++ '\n' :: cs)) rest
  | lastComment {body : List Char} (hbody : '\n' ∉ body) : Skipped (';' :: body) []

/-- Inside of a comment, stepping over blanks goes on behind the next line feed. -/
theorem skipped_skipBlanksFrom (cs : List Char) : ∀ pos,
    Skipped cs (Cursor.skipBlanksFrom false cs pos).rest ∧
      ((∃ body rest, '\n' ∉ body ∧ cs = body ++ '\n' :: rest ∧
          Skipped rest (Cursor.skipBlanksFrom true cs pos).rest) ∨
        ('\n' ∉ cs ∧ (Cursor.skipBlanksFrom true cs pos).rest = [])) := by
  induction cs with
  | nil =>
    intro pos
    exact ⟨.nothing, .inr ⟨List.not_mem_nil, rfl⟩⟩
  | cons c cs ih =>
    intro pos
    constructor
    · by_cases hc : Skips c
      · rcases hc with hblank | rfl
        · rw [Cursor.skipBlanksFrom_of_blank hblank]
          exact .blank hblank (ih _).1
        · have hcomment := (ih (pos.advance ';')).2
          change Skipped _ (Cursor.skipBlanksFrom true cs (pos.advance ';')).rest
          rcases hcomment with ⟨body, rest, hbody, rfl, hrest⟩ | ⟨hbody, hrest⟩
          · exact .comment hbody hrest
          · rw [hrest]
            exact .lastComment hbody
      · rw [Cursor.skipBlanksFrom_of_not_skips hc]
        exact .nothing
    · by_cases hc : c = '\n'
      · subst hc
        exact .inl ⟨[], cs, List.not_mem_nil, rfl, (ih _).1⟩
      · have hstep : Cursor.skipBlanksFrom true (c :: cs) pos =
            Cursor.skipBlanksFrom true cs (pos.advance c) := by
          simp [Cursor.skipBlanksFrom, hc]
        have hmem : ∀ {ds : List Char}, '\n' ∉ ds → '\n' ∉ c :: ds := by
          intro ds hds h
          exact (List.mem_cons.1 h).elim (fun he => hc he.symm) hds
        rw [hstep]
        rcases (ih (pos.advance c)).2 with ⟨body, rest, hbody, rfl, hrest⟩ | ⟨hbody, hrest⟩
        · exact .inl ⟨c :: body, rest, hmem hbody, rfl, hrest⟩
        · exact .inr ⟨hmem hbody, hrest⟩

theorem skipped_skipBlanks (cursor : Cursor) : Skipped cursor.rest cursor.skipBlanks.rest :=
  (skipped_skipBlanksFrom cursor.rest cursor.pos).1

theorem Skipped.suffix {cs rest : List Char} (h : Skipped cs rest) : rest <:+ cs := by
  induction h with
  | nothing => exact List.suffix_rfl
  | @blank c cs rest hc _ ih => exact ih.trans (List.suffix_cons c cs)
  | @comment body cs rest hbody _ ih =>
    have hcomment : cs <:+ ';' :: (body ++ '\n' :: cs) := ⟨';' :: (body ++ ['\n']), by simp⟩
    exact ih.trans hcomment
  | lastComment hbody => exact List.nil_suffix

/-! ## The characters of tokens -/

/-- The characters that a token takes. -/
def Token.chars : Token → List Char
  | opening bracket => [bracket.opening]
  | closing bracket splatted => bracket.closing :: if splatted then splatMark else []
  | run cs => cs

/-- What cannot follow a token, as it would belong to the token. -/
def Token.EndsBefore (rest : List Char) : Token → Prop
  | opening _ => True
  | closing _ splatted => splatted = false → ¬ splatMark <+: rest
  | run cs => IsRun cs ∧ ∀ d ∈ rest.head?, Delimits d

theorem Cursor.endsBefore_run {c : Char} (hc : ¬ Delimits c) (cs : List Char) (pos : Pos) :
    (run c ⟨cs, pos⟩).1.EndsBefore (run c ⟨cs, pos⟩).2.rest := by
  refine ⟨⟨List.cons_ne_nil _ _, ?_⟩, ?_⟩
  · intro d hd
    rcases List.mem_cons.1 hd with rfl | hd
    · exact hc
    · have hall := List.all_eq_true.1 (List.all_takeWhile (l := cs)) d hd
      rw [← isDelimiter_iff]
      simpa using hall
  · intro d hd
    have hstop := List.head?_dropWhile_not (!isDelimiter ·) cs
    change d ∈ (cs.dropWhile (!isDelimiter ·)).head? at hd
    rw [hd] at hstop
    rw [← isDelimiter_iff]
    simpa using hstop

/-- A token takes its characters from the front of the text, and the place moves over them. -/
theorem Cursor.chars_of_token? {cursor next : Cursor} {token : Token}
    (hskip : ∀ c ∈ cursor.rest.head?, ¬ Skips c) (ht : cursor.token? = some (token, next)) :
    cursor.rest = token.chars ++ next.rest ∧
      next.pos = cursor.pos.advanceAll token.chars ∧ token.EndsBefore next.rest := by
  obtain ⟨rest, pos⟩ := cursor
  cases rest with
  | nil => cases ht
  | cons c cs =>
    rcases bracket_or_run (hskip c rfl) with ⟨bracket, rfl⟩ | ⟨bracket, rfl⟩ | hc
    · rw [token?_opening] at ht
      cases ht
      exact ⟨rfl, rfl, trivial⟩
    · rw [token?_closing] at ht
      rcases closing_eq bracket cs (pos.advance bracket.closing) with
        ⟨rest, next', rfl, -⟩ | ⟨hmark, heq⟩
      · cases ht
        exact ⟨rfl, rfl, nofun⟩
      · rw [heq] at ht
        cases ht
        exact ⟨rfl, rfl, fun _ => hmark⟩
    · rw [token?_run hc] at ht
      have hends := endsBefore_run hc cs (pos.advance c)
      cases ht
      refine ⟨?_, rfl, hends⟩
      change c :: cs = c :: (_ ++ _)
      rw [List.takeWhile_append_dropWhile]

/-! ## Sources -/

/-- A text and the place where it starts. -/
structure Source where
  text : List Char
  start : Pos

namespace Source

/-- The place of the character with an index. -/
def place (source : Source) (k : Nat) : Pos := source.start.advanceAll (source.text.take k)

/-- The place where a rest of the text starts. -/
def placeOf (source : Source) (rest : List Char) : Pos :=
  source.place (source.text.length - rest.length)

variable {source : Source}

@[simp] theorem placeOf_text (source : Source) : source.placeOf source.text = source.start := by
  simp [placeOf, place]

theorem placeOf_append {taken rest : List Char} (h : taken ++ rest <:+ source.text) :
    source.placeOf rest = (source.placeOf (taken ++ rest)).advanceAll taken := by
  obtain ⟨front, htext⟩ := h
  have hlong : source.text.length - (taken ++ rest).length = front.length := by
    simp only [← htext, List.length_append]
    omega
  have hshort : source.text.length - rest.length = (front ++ taken).length := by
    simp only [← htext, List.length_append]
    omega
  unfold placeOf place
  rw [hlong, hshort, ← Pos.advanceAll_append, ← htext, List.take_left, ← List.append_assoc,
    List.take_left]

/-- Forms that lie one behind the other, from a rest of the text to a shorter one. -/
inductive Layout (source : Source) : List Char → List Form → List Char → Prop
  | nil {rest : List Char} : Layout source rest [] rest
  | atom {cs run rest last : List Char} {a : Atom} {forms : List Form}
    (hskip : Skipped cs (run ++ rest)) (hrun : IsRun run) (hend : ∀ d ∈ rest.head?, Delimits d)
    (hreads : RunReads run a.tree) (h : Layout source rest forms last) :
    Layout source cs (.atom a (source.placeOf (run ++ rest)) :: forms) last
  /-- A run that is a splat is at the same place as its target. -/
  | splatAtom {cs run rest last : List Char} {a : Atom} {forms : List Form}
    (hskip : Skipped cs (run ++ rest)) (hrun : IsRun run) (hend : ∀ d ∈ rest.head?, Delimits d)
    (hreads : RunReads run (.splat a.tree)) (h : Layout source rest forms last) :
    Layout source cs (.splat (.atom a (source.placeOf (run ++ rest)))
      (source.placeOf (run ++ rest)) :: forms) last
  | group (bracket : Bracket) {cs inner back rest last : List Char} {items forms : List Form}
    (hskip : Skipped cs (bracket.opening :: inner)) (hitems : Layout source inner items back)
    (hclose : Skipped back (bracket.closing :: rest)) (hmark : ¬ splatMark <+: rest)
    (h : Layout source rest forms last) :
    Layout source cs (.group bracket items (source.placeOf (bracket.opening :: inner)) :: forms)
      last
  | splatGroup (bracket : Bracket) {cs inner back rest last : List Char} {items forms : List Form}
    (hskip : Skipped cs (bracket.opening :: inner)) (hitems : Layout source inner items back)
    (hclose : Skipped back (bracket.closing :: (splatMark ++ rest)))
    (h : Layout source rest forms last) :
    Layout source cs (.splat (.group bracket items (source.placeOf (bracket.opening :: inner)))
      (source.placeOf (bracket.opening :: inner)) :: forms) last

/-- Groups that are open at a rest of the text, the innermost first, when a form has been begun
from another rest. The items of a group lie behind its opening bracket. -/
inductive Opened (source : Source) (cs : List Char) : List OpenGroup → List Char → Prop
  | none : Opened source cs [] cs
  | group (bracket : Bracket) {outer : List OpenGroup} {before inner rest : List Char}
    {items : List Form} (h : Opened source cs outer before)
    (hskip : Skipped before (bracket.opening :: inner)) (hitems : source.Layout inner items rest) :
    Opened source cs
      (⟨bracket, source.placeOf (bracket.opening :: inner), items.reverse⟩ :: outer) rest

/-- What reading a form from a rest of the text comes to, and what is left of the text then. -/
inductive Gives (source : Source) (cs : List Char) : Reading → List Char → Prop
  /-- The place given back is the one directly behind the form. -/
  | form {form : Form} {rest : List Char} (h : source.Layout cs [form] rest) :
    Gives source cs (.form form (source.placeOf rest)) rest
  | finished (h : Skipped cs []) : Gives source cs .finished []
  /-- A closing bracket that closes none of the groups, or not the innermost, is where it is. -/
  | unexpected (bracket : Bracket) {groups : List OpenGroup} {before rest : List Char}
    (h : source.Opened cs groups before) (hskip : Skipped before (bracket.closing :: rest))
    (hgroups : ∀ group ∈ groups.head?, group.bracket ≠ bracket) :
    Gives source cs
      (.failed ⟨source.placeOf (bracket.closing :: rest), .unexpected bracket.closing⟩)
      (bracket.closing :: rest)
  /-- A group that is not closed shows at the end of the text. -/
  | unclosed {group : OpenGroup} {outer : List OpenGroup} {before : List Char}
    (h : source.Opened cs (group :: outer) before) (hskip : Skipped before []) :
    Gives source cs (.failed ⟨source.place source.text.length, .unclosed group.bracket⟩) []
  /-- A run that is wrong is where it starts. -/
  | missingTarget {groups : List OpenGroup} {before rest : List Char}
    (h : source.Opened cs groups before) (hskip : Skipped before (splatMark ++ rest))
    (hend : ∀ d ∈ rest.head?, Delimits d) :
    Gives source cs (.failed ⟨source.placeOf (splatMark ++ rest), .missingTarget⟩) rest
  | invalidInteger {groups : List OpenGroup} {before run numeral rest : List Char} {n : Int}
    (h : source.Opened cs groups before) (hskip : Skipped before (run ++ rest))
    (hend : ∀ d ∈ rest.head?, Delimits d) (hrun : run = numeral ∨ run = numeral ++ splatMark)
    (hn : Numeral numeral n) (hrange : ¬ InRange n) :
    Gives source cs (.failed ⟨source.placeOf (run ++ rest), .invalidInteger (.ofList numeral)⟩)
      rest

theorem Layout.append {cs mid last : List Char} {forms more : List Form}
    (h : source.Layout cs forms mid) (hmore : source.Layout mid more last) :
    source.Layout cs (forms ++ more) last := by
  induction h with
  | nil => exact hmore
  | atom hskip hrun hend hreads _ ih => exact .atom hskip hrun hend hreads (ih hmore)
  | splatAtom hskip hrun hend hreads _ ih => exact .splatAtom hskip hrun hend hreads (ih hmore)
  | group bracket hskip hitems hclose hmark _ _ ih =>
    exact .group bracket hskip hitems hclose hmark (ih hmore)
  | splatGroup bracket hskip hitems hclose _ _ ih =>
    exact .splatGroup bracket hskip hitems hclose (ih hmore)

/-- What is left behind forms is a rest of the text. -/
theorem Layout.suffix {cs rest : List Char} {forms : List Form} (h : source.Layout cs forms rest) :
    rest <:+ cs := by
  induction h with
  | nil => exact List.suffix_rfl
  | @atom _ run rest _ _ _ hskip _ _ _ _ ih =>
    exact ih.trans ((List.suffix_append run rest).trans hskip.suffix)
  | @splatAtom _ run rest _ _ _ hskip _ _ _ _ ih =>
    exact ih.trans ((List.suffix_append run rest).trans hskip.suffix)
  | group bracket hskip _ hclose _ _ ihitems ih =>
    have hafter := (List.suffix_cons bracket.closing _).trans hclose.suffix
    have hinner := (List.suffix_cons bracket.opening _).trans hskip.suffix
    exact ih.trans (hafter.trans (ihitems.trans hinner))
  | @splatGroup bracket _ _ _ rest _ _ _ hskip _ hclose _ ihitems ih =>
    have hmark : rest <:+ bracket.closing :: (splatMark ++ rest) :=
      ⟨bracket.closing :: splatMark, rfl⟩
    have hinner := (List.suffix_cons bracket.opening _).trans hskip.suffix
    exact ih.trans ((hmark.trans hclose.suffix).trans (ihitems.trans hinner))

theorem Gives.layout {cs rest : List Char} {form : Form} {next : Pos}
    (h : source.Gives cs (.form form next) rest) :
    source.Layout cs [form] rest ∧ next = source.placeOf rest := by
  cases h with
  | form hform => exact ⟨hform, rfl⟩

theorem Gives.skipped {cs rest : List Char} (h : source.Gives cs .finished rest) :
    Skipped cs [] := by
  cases h with
  | finished hskip => exact hskip

/-- A form behind the items of an open group is one of them. -/
theorem Opened.add {cs before rest : List Char} {group : OpenGroup} {outer : List OpenGroup}
    {form : Form} (h : source.Opened cs (group :: outer) before)
    (hform : source.Layout before [form] rest) :
    source.Opened cs (group.add form :: outer) rest := by
  cases h with
  | @group bracket _ _ inner _ items h hskip hitems =>
    have hadd := Opened.group bracket h hskip (hitems.append hform)
    rwa [List.reverse_append] at hadd

end Source

/-! ## Runs at a place -/

namespace Reader

theorem form_of_formOfRun {table table' : SymbolTable} {cs : List Char} {pos : Pos} {form : Form}
    (h : formOfRun table cs pos = (.ok form, table')) :
    ∃ a, form = .atom a pos ∨ form = .splat (.atom a pos) pos := by
  unfold formOfRun at h
  split at h
  · cases h
  · next target _ _ =>
    cases ha : atomOfRun table target with
    | mk outcome symbols =>
      rw [ha] at h
      cases outcome with
      | error cause => cases h
      | ok a =>
        cases h
        exact ⟨a, .inr rfl⟩
  · cases ha : atomOfRun table cs with
    | mk outcome symbols =>
      rw [ha] at h
      cases outcome with
      | error cause => cases h
      | ok a =>
        cases h
        exact ⟨a, .inl rfl⟩

/-- Only numerals out of range stand for nothing. -/
theorem numeral_of_atomOfRun {table table' : SymbolTable} {cs : List Char} {cause : ReadCause}
    (h : atomOfRun table cs = (.error cause, table')) :
    ∃ n, Numeral cs n ∧ ¬ InRange n ∧ cause = .invalidInteger (.ofList cs) := by
  by_cases hliteral : cs ∈ [['_'], ['T'], ['F']]
  · simp only [List.mem_cons, List.not_mem_nil, or_false] at hliteral
    rcases hliteral with rfl | rfl | rfl <;> cases h
  · rw [atomOfRun_of_not_literal table hliteral, Decimal.toInt64?_eq] at h
    cases hn : Decimal.toInt? cs with
    | none =>
      rw [hn] at h
      cases h
    | some n =>
      rw [hn, Option.map_some] at h
      cases hm : int64? n with
      | some m =>
        rw [hm] at h
        cases h
      | none =>
        rw [hm] at h
        cases h
        exact ⟨n, numeral_iff.2 hn, int64?_eq_none_iff.1 hm, rfl⟩

theorem cause_of_formOfRun {table table' : SymbolTable} {cs : List Char} {pos : Pos}
    {cause : ReadCause} (h : formOfRun table cs pos = (.error cause, table')) :
    (cs = splatMark ∧ cause = .missingTarget) ∨
      ∃ numeral n, (cs = numeral ∨ cs = numeral ++ splatMark) ∧ Numeral numeral n ∧ ¬ InRange n ∧
        cause = .invalidInteger (.ofList numeral) := by
  unfold formOfRun at h
  split at h
  · next htarget =>
    cases h
    exact .inl ⟨splatTarget?_eq_some_iff.1 htarget, rfl⟩
  · next target _ htarget =>
    cases ha : atomOfRun table target with
    | mk outcome symbols =>
      rw [ha] at h
      cases outcome with
      | ok a => cases h
      | error cause' =>
        cases h
        obtain ⟨n, hn, hrange, hcause⟩ := numeral_of_atomOfRun ha
        exact .inr ⟨target, n, .inr (splatTarget?_eq_some_iff.1 htarget), hn, hrange, hcause⟩
  · cases ha : atomOfRun table cs with
    | mk outcome symbols =>
      rw [ha] at h
      cases outcome with
      | ok a => cases h
      | error cause' =>
        cases h
        obtain ⟨n, hn, hrange, hcause⟩ := numeral_of_atomOfRun ha
        exact .inr ⟨cs, n, .inl rfl, hn, hrange, hcause⟩

end Reader

/-! ## The reader follows the text -/

namespace Source

open Reader

variable {source : Source}

/-- A state of the reader stands at a rest of the text, at the place of that rest. -/
structure Follows (source : Source) (cs : List Char) (s : State) : Prop where
  suffix : s.cursor.rest <:+ source.text
  pos : s.cursor.pos = source.placeOf s.cursor.rest
  opened : source.Opened cs s.groups s.cursor.rest

namespace Follows

variable {cs : List Char} {s s' : State}

/-- The next token is at the place of its first character. -/
theorem here (h : source.Follows cs s) :
    s.here.rest <:+ source.text ∧ s.here.pos = source.placeOf s.here.rest ∧
      Skipped s.cursor.rest s.here.rest := by
  obtain ⟨skipped, hrest, hpos⟩ := s.cursor.skipBlanks_consumes
  have hsuffix := h.suffix
  rw [hrest] at hsuffix
  refine ⟨(List.suffix_append skipped _).trans hsuffix, ?_, skipped_skipBlanks s.cursor⟩
  have happend := placeOf_append hsuffix
  rw [← hrest, ← h.pos] at happend
  exact hpos.trans happend.symm

/-- Behind the next token, the cursor is at the place of what is left. -/
theorem next (h : source.Follows cs s) {token : Token} {next : Cursor}
    (ht : s.here.token? = some (token, next)) :
    s.here.rest = token.chars ++ next.rest ∧ next.rest <:+ source.text ∧
      next.pos = source.placeOf next.rest ∧ token.EndsBefore next.rest := by
  obtain ⟨hsuffix, hpos, -⟩ := h.here
  obtain ⟨hrest, hnext, hends⟩ :=
    Cursor.chars_of_token? s.cursor.not_skips_skipBlanks ht
  have hrest' : s.here.rest = token.chars ++ next.rest := hrest
  rw [hrest'] at hsuffix hpos
  refine ⟨hrest', (List.suffix_append token.chars _).trans hsuffix, ?_, hends⟩
  have happend := placeOf_append hsuffix
  rw [← hpos] at happend
  exact hnext.trans happend.symm

/-- The end of the text is reached when no token is left. -/
theorem here_of_end (h : source.Follows cs s) (ht : s.here.token? = none) :
    Skipped s.cursor.rest [] ∧ s.here.pos = source.place source.text.length := by
  obtain ⟨-, hpos, hskip⟩ := h.here
  have hnil : s.here.rest = [] := Cursor.rest_eq_nil_of_token? ht
  rw [hnil] at hskip hpos
  exact ⟨hskip, hpos⟩

/-- A form that is completed lies behind what its group holds before. -/
theorem completes (h : source.Follows cs s) {form : Form} {outer : List OpenGroup}
    {symbols : SymbolTable} {next : Cursor} (hform : Completes s form outer symbols next) :
    next.rest <:+ source.text ∧ next.pos = source.placeOf next.rest ∧
      ∃ before, source.Opened cs outer before ∧ source.Layout before [form] next.rest := by
  obtain ⟨-, hpos, hskip⟩ := h.here
  cases hform with
  | @closing group _ splatted _ hgroups ht =>
    obtain ⟨hrest, hsuffix, hnext, hends⟩ := h.next ht
    have hopened := h.opened
    rw [hgroups] at hopened
    rw [hrest] at hskip
    refine ⟨hsuffix, hnext, ?_⟩
    cases hopened with
    | @group bracket _ before inner _ items houter hopen hitems =>
      refine ⟨before, houter, ?_⟩
      cases splatted with
      | false =>
        have hlayout := Layout.group bracket hopen hitems hskip (hends rfl) .nil
        simpa [OpenGroup.close] using hlayout
      | true =>
        have hlayout := Layout.splatGroup bracket hopen hitems hskip .nil
        simpa [OpenGroup.close] using hlayout
  | @run run _ _ _ ht hform =>
    obtain ⟨hrest, hsuffix, hnext, hrun, hend⟩ := h.next ht
    obtain ⟨hreads, -, -⟩ := runReads_of_formOfRun hform
    rw [hrest] at hskip hpos
    refine ⟨hsuffix, hnext, s.cursor.rest, h.opened, ?_⟩
    obtain ⟨a, rfl | rfl⟩ := form_of_formOfRun hform
    · rw [hpos]
      exact .atom hskip hrun hend hreads .nil
    · rw [hpos]
      exact .splatAtom hskip hrun hend hreads .nil

/-- Each step keeps to the text. -/
theorem step (h : source.Follows cs s) (hstep : Step s s') : source.Follows cs s' := by
  cases hstep with
  | @opening bracket next ht =>
    obtain ⟨hrest, hsuffix, hnext, -⟩ := h.next ht
    obtain ⟨-, hpos, hskip⟩ := h.here
    rw [hrest] at hskip hpos
    refine ⟨hsuffix, hnext, ?_⟩
    have hitems : source.Layout next.rest [] next.rest := .nil
    have hopened := Opened.group bracket h.opened hskip hitems
    change source.Opened cs (⟨bracket, s.here.pos, []⟩ :: s.groups) next.rest
    rw [hpos]
    exact hopened
  | item hform =>
    obtain ⟨hsuffix, hnext, before, hopened, hlayout⟩ := h.completes hform
    exact ⟨hsuffix, hnext, hopened.add hlayout⟩

theorem steps (h : source.Follows cs s) (hsteps : Steps s s') : source.Follows cs s' := by
  induction hsteps with
  | refl => exact h
  | tail _ hstep ih => exact ih.step hstep

/-- A state that keeps to the text ends the reading as the text has it. -/
theorem gives (h : source.Follows cs s) {reading : Reading} {reader : Reader}
    (hends : Ends s (reading, reader)) : source.Gives cs reading reader.rest := by
  cases hends with
  | form hform =>
    obtain ⟨-, hnext, before, hopened, hlayout⟩ := h.completes hform
    cases hopened
    rw [hnext]
    exact .form hlayout
  | finished hgroups ht =>
    have hopened := h.opened
    rw [hgroups] at hopened
    obtain ⟨hskip, -⟩ := h.here_of_end ht
    cases hopened
    exact .finished hskip
  | @unclosed group outer hgroups ht =>
    have hopened := h.opened
    rw [hgroups] at hopened
    obtain ⟨hskip, hpos⟩ := h.here_of_end ht
    rw [hpos]
    exact .unclosed hopened hskip
  | @unexpected bracket splatted next ht hgroups =>
    obtain ⟨-, hpos, hskip⟩ := h.here
    obtain ⟨hrest, -, -, -⟩ := h.next ht
    rw [hrest] at hskip hpos
    rw [hpos, hrest]
    exact .unexpected bracket h.opened hskip hgroups
  | @badRun run cause symbols next ht hform =>
    obtain ⟨hrest, -, -, -, hend⟩ := h.next ht
    obtain ⟨-, hpos, hskip⟩ := h.here
    rw [hrest] at hskip hpos
    rw [hpos]
    rcases cause_of_formOfRun hform with ⟨rfl, rfl⟩ | ⟨numeral, n, hrun, hn, hrange, rfl⟩
    · exact .missingTarget h.opened hskip hend
    · exact .invalidInteger h.opened hskip hend hrun hn hrange

end Follows

/-- **One reading gives what lies in the text**, with its places. -/
theorem gives_of_read {reader : Reader} {pos : Pos} (hsuffix : reader.rest <:+ source.text)
    (hpos : pos = source.placeOf reader.rest) :
    source.Gives reader.rest (reader.read pos).1 (reader.read pos).2.rest := by
  have hstart : source.Follows reader.rest (reader.start pos) := ⟨hsuffix, hpos, .none⟩
  obtain ⟨s, hsteps, hends⟩ := exists_ends (reader.start pos)
  exact (hstart.steps hsteps).gives hends

end Source

end SplatLisp
