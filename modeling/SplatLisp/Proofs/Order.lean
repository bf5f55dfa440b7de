import SplatLisp.Proofs.Places

/-!
# Places in the order of the text

Readings one behind the other show places: the place passed to each reading, those of the form and
of its parts, the place that is passed on, and in the end that of a failure (`Reader.trail`). They
are places of rests of the text, each a rest of the one before (`Falls`), so what a place does over
the characters between two rests is what it does from the earlier to the later one.

Rows never go back, and below the last row a later place is at or after an earlier one
(`Pos.isAtOrAfter_advanceAll`). In the last row it need not be: a line feed still leads to the first
column there, and finds no row to lead to (`Reader.trail_lastRow`). So the trail goes forward as
long as the line feeds of the text fit into the rows that are left (`Reader.trail_forward`).
-/

namespace SplatLisp

/-! ## One place and a later one -/

namespace Pos

variable {a b c : Pos}

theorem isAtOrAfter_iff :
    b.isAtOrAfter a = true ↔ a.row < b.row ∨ b.row = a.row ∧ a.col ≤ b.col := by
  simp [isAtOrAfter]

theorem isAtOrAfter_self (a : Pos) : a.isAtOrAfter a = true :=
  isAtOrAfter_iff.2 (.inr ⟨rfl, Nat.le_refl _⟩)

theorem isAtOrAfter_trans (hab : b.isAtOrAfter a = true) (hbc : c.isAtOrAfter b = true) :
    c.isAtOrAfter a = true := by
  rw [isAtOrAfter_iff] at *
  omega

theorem le_bump (n : Nat) : n ≤ bump n := by
  unfold bump
  split <;> omega

theorem bump_of_lt {n : Nat} (h : n < limit) : bump n = n + 1 := if_pos h

theorem bump_le_succ (n : Nat) : bump n ≤ n + 1 := by
  unfold bump
  split <;> omega

theorem advance_lineFeed (a : Pos) : a.advance '\n' = { a with row := bump a.row, col := 1 } := rfl

theorem advance_of_ne {d : Char} (a : Pos) (h : d ≠ '\n') :
    a.advance d = { a with col := bump a.col } := if_neg h

theorem row_le_advance (a : Pos) (d : Char) : a.row ≤ (a.advance d).row := by
  by_cases h : d = '\n'
  · rw [h, advance_lineFeed]
    exact le_bump a.row
  · have hsame : (a.advance d).row = a.row := by rw [advance_of_ne a h]
    exact Nat.le_of_eq hsame.symm

theorem row_le_advanceAll (a : Pos) (cs : List Char) : a.row ≤ (a.advanceAll cs).row := by
  induction cs generalizing a with
  | nil => exact Nat.le_refl _
  | cons d cs ih => exact Nat.le_trans (row_le_advance a d) (ih (a.advance d))

/-- Each line feed leads one row on at most. -/
theorem row_advanceAll_le (a : Pos) (cs : List Char) :
    (a.advanceAll cs).row ≤ a.row + cs.count '\n' := by
  induction cs generalizing a with
  | nil => exact Nat.le_refl _
  | cons d cs ih =>
    have hrest := ih (a.advance d)
    rw [advanceAll_cons]
    by_cases h : d = '\n'
    · subst h
      have hnext : (a.advance '\n').row ≤ a.row + 1 := bump_le_succ a.row
      rw [List.count_cons_self]
      omega
    · have hnext : (a.advance d).row = a.row := by rw [advance_of_ne a h]
      rw [List.count_cons_of_ne h]
      omega

/-- Over characters other than line feeds, or below the last row, a place goes forward. -/
theorem isAtOrAfter_advanceAll {a : Pos} {cs : List Char} (h : '\n' ∉ cs ∨ a.row < limit) :
    (a.advanceAll cs).isAtOrAfter a = true := by
  induction cs generalizing a with
  | nil => exact isAtOrAfter_self a
  | cons d cs ih =>
    rw [advanceAll_cons]
    by_cases hd : d = '\n'
    · -- The row grows here, and does not shrink again, whatever the column does.
      subst hd
      have hrow := h.resolve_left (not_not_intro List.mem_cons_self)
      have hlater := row_le_advanceAll (a.advance '\n') cs
      have hnext : (a.advance '\n').row = a.row + 1 := bump_of_lt hrow
      rw [isAtOrAfter_iff]
      omega
    · have hnext : a.advance d = { a with col := bump a.col } := advance_of_ne a hd
      have hstep : (a.advance d).isAtOrAfter a = true := by
        rw [hnext]
        exact isAtOrAfter_iff.2 (.inr ⟨rfl, le_bump a.col⟩)
      refine isAtOrAfter_trans hstep (ih ?_)
      rw [hnext]
      exact h.imp_left fun hmem hcs => hmem (List.mem_cons_of_mem d hcs)

end Pos

/-! ## The places that readings show -/

namespace Form

mutual

/-- The places of a form and of its parts, in the order of the text. -/
def places : Form → List Pos
  | .atom _ pos => [pos]
  | .group _ items pos => pos :: placesItems items
  | .splat inner pos => pos :: places inner

def placesItems : List Form → List Pos
  | [] => []
  | item :: items => places item ++ placesItems items

end

end Form

/-- The places that readings one behind the other show, at most so many of them: for each reading
the one that it starts from, and then those of the form that it gives, or that of its failure. Each
reading starts from the place that the one before has passed on. -/
def Reader.trail (reader : Reader) (pos : Pos) : Nat → List Pos
  | 0 => [pos]
  | n + 1 =>
    match reader.read pos with
    | (.form form next, reader) => pos :: (form.places ++ reader.trail next n)
    | (.finished, _) => [pos]
    | (.failed failure, _) => [pos, failure.pos]

/-! ## Rests of a text -/

/-- Rests of a text, each a rest of the one before, and what is left behind the last of them. -/
inductive Falls : List Char → List (List Char) → List Char → Prop
  | nil {cs rest : List Char} (h : rest <:+ cs) : Falls cs [] rest
  | cons {cs here rest : List Char} {rests : List (List Char)} (h : here <:+ cs)
    (hrests : Falls here rests rest) : Falls cs (here :: rests) rest

namespace Falls

variable {cs mid rest : List Char} {rests more : List (List Char)}

theorem suffix (h : Falls cs rests rest) : rest <:+ cs := by
  induction h with
  | nil h => exact h
  | cons h _ ih => exact ih.trans h

theorem from_longer (h : Falls mid rests rest) (hmid : mid <:+ cs) : Falls cs rests rest := by
  cases h with
  | nil h => exact .nil (h.trans hmid)
  | cons h hrests => exact .cons (h.trans hmid) hrests

theorem append (h : Falls cs rests mid) (hmore : Falls mid more rest) :
    Falls cs (rests ++ more) rest := by
  induction h with
  | nil h => exact hmore.from_longer h
  | cons h _ ih => exact .cons h (ih hmore)

theorem suffix_of_mem (h : Falls cs rests rest) : ∀ here ∈ rests, here <:+ cs := by
  induction h with
  | nil _ => exact fun _ hmem => absurd hmem List.not_mem_nil
  | cons h _ ih =>
    intro here hmem
    rcases List.mem_cons.1 hmem with rfl | hmem
    · exact h
    · exact (ih here hmem).trans h

/-- A later one of the rests is a rest of an earlier one. -/
theorem pairwise (h : Falls cs rests rest) :
    rests.Pairwise fun earlier later => later <:+ earlier := by
  induction h with
  | nil _ => exact .nil
  | cons _ hrests ih => exact .cons hrests.suffix_of_mem ih

end Falls

namespace Source

variable {source : Source}

/-- Places are shown in the order of the text if they are those of rests that fall. -/
def Shows (source : Source) (cs : List Char) (places : List Pos) (rest : List Char) : Prop :=
  ∃ rests, Falls cs rests rest ∧ places = rests.map source.placeOf

namespace Shows

variable {cs here mid rest : List Char} {places more : List Pos}

theorem nil (h : rest <:+ cs) : source.Shows cs [] rest := ⟨[], .nil h, rfl⟩

theorem cons (h : here <:+ cs) (hplaces : source.Shows here places rest) :
    source.Shows cs (source.placeOf here :: places) rest := by
  obtain ⟨rests, hfalls, rfl⟩ := hplaces
  exact ⟨here :: rests, .cons h hfalls, rfl⟩

/-- A splat is at the place of what it wraps. -/
theorem twice {pos : Pos} (h : source.Shows cs (pos :: places) rest) :
    source.Shows cs (pos :: pos :: places) rest := by
  obtain ⟨rests, hfalls, heq⟩ := h
  cases hfalls with
  | nil => cases heq
  | @cons _ here _ rests hhere hrests =>
    obtain ⟨rfl, rfl⟩ := List.cons.inj heq
    exact ⟨here :: here :: rests, .cons hhere (.cons List.suffix_rfl hrests), rfl⟩

theorem from_longer (h : source.Shows mid places rest) (hmid : mid <:+ cs) :
    source.Shows cs places rest := by
  obtain ⟨rests, hfalls, rfl⟩ := h
  exact ⟨rests, hfalls.from_longer hmid, rfl⟩

theorem append (h : source.Shows cs places mid) (hmore : source.Shows mid more rest) :
    source.Shows cs (places ++ more) rest := by
  obtain ⟨rests, hfalls, rfl⟩ := h
  obtain ⟨rests', hfalls', rfl⟩ := hmore
  exact ⟨rests ++ rests', hfalls.append hfalls', List.map_append.symm⟩

theorem stop (h : source.Shows cs places mid) (hrest : rest <:+ mid) :
    source.Shows cs places rest := by
  have hmore := h.append (nil hrest)
  rwa [List.append_nil] at hmore

end Shows

/-- The places of forms in a text come in its order. -/
theorem Layout.shows {cs rest : List Char} {forms : List Form} (h : source.Layout cs forms rest) :
    source.Shows cs (Form.placesItems forms) rest := by
  induction h with
  | nil => exact .nil List.suffix_rfl
  | @atom cs run rest _ _ _ hskip _ _ _ _ ih =>
    have hatom : source.Shows cs [source.placeOf (run ++ rest)] rest :=
      .cons hskip.suffix (.nil (List.suffix_append run rest))
    exact hatom.append ih
  | @splatAtom cs run rest _ _ _ hskip _ _ _ _ ih =>
    have hatom : source.Shows cs [source.placeOf (run ++ rest)] rest :=
      .cons hskip.suffix (.nil (List.suffix_append run rest))
    exact hatom.twice.append ih
  | @group bracket cs inner back rest _ items _ hskip _ hclose _ _ ihitems ih =>
    have hback := (List.suffix_cons bracket.closing rest).trans hclose.suffix
    have hgroup : source.Shows cs (Form.places (.group bracket items _)) rest :=
      .cons hskip.suffix ((ihitems.stop hback).from_longer (List.suffix_cons _ inner))
    exact hgroup.append ih
  | @splatGroup bracket cs inner back rest _ items _ hskip _ hclose _ ihitems ih =>
    have hmark : rest <:+ bracket.closing :: (splatMark ++ rest) :=
      ⟨bracket.closing :: splatMark, rfl⟩
    have hback := hmark.trans hclose.suffix
    have hgroup : source.Shows cs (Form.places (.group bracket items _)) rest :=
      .cons hskip.suffix ((ihitems.stop hback).from_longer (List.suffix_cons _ inner))
    exact hgroup.twice.append ih

theorem Opened.suffix {cs before : List Char} {groups : List OpenGroup}
    (h : source.Opened cs groups before) : before <:+ cs := by
  induction h with
  | none => exact List.suffix_rfl
  | group bracket _ hskip hitems ih =>
    exact ((hitems.suffix.trans (List.suffix_cons _ _)).trans hskip.suffix).trans ih

/-- A reading fails at a rest of what it reads. -/
theorem Gives.exists_place {cs rest : List Char} {failure : ReadFailure}
    (h : source.Gives cs (.failed failure) rest) :
    ∃ here, here <:+ cs ∧ failure.pos = source.placeOf here := by
  cases h with
  | unexpected _ hopened hskip _ => exact ⟨_, hskip.suffix.trans hopened.suffix, rfl⟩
  | unclosed hopened hskip => exact ⟨[], List.nil_suffix, rfl⟩
  | missingTarget hopened hskip _ => exact ⟨_, hskip.suffix.trans hopened.suffix, rfl⟩
  | invalidInteger hopened hskip _ _ _ _ => exact ⟨_, hskip.suffix.trans hopened.suffix, rfl⟩

/-- Readings that start in a text show places in its order. -/
theorem shows_trail (n : Nat) : ∀ {reader : Reader} {pos : Pos}, reader.rest <:+ source.text →
    pos = source.placeOf reader.rest →
      ∃ rest, source.Shows reader.rest (reader.trail pos n) rest := by
  induction n with
  | zero =>
    rintro reader _ _ rfl
    exact ⟨reader.rest, .cons List.suffix_rfl (.nil List.suffix_rfl)⟩
  | succ n ih =>
    intro reader pos hsuffix hpos
    have hgives := gives_of_read hsuffix hpos
    unfold Reader.trail
    split
    · next form next after hread =>
      rw [hread] at hgives
      obtain ⟨hlayout, hnext⟩ := hgives.layout
      obtain ⟨rest, hmore⟩ := ih (hlayout.suffix.trans hsuffix) hnext
      have hform := hlayout.shows.append hmore
      rw [Form.placesItems, Form.placesItems, List.append_nil] at hform
      rw [hpos]
      exact ⟨rest, .cons List.suffix_rfl hform⟩
    · rw [hpos]
      exact ⟨reader.rest, .cons List.suffix_rfl (.nil List.suffix_rfl)⟩
    · next failure after hread =>
      rw [hread] at hgives
      obtain ⟨here, hhere, hfailure⟩ := hgives.exists_place
      rw [hpos, hfailure]
      exact ⟨here, .cons List.suffix_rfl (.cons hhere (.nil List.suffix_rfl))⟩

/-- What holds of the places of a rest and of any rest of that holds of a place that is shown and
of any that is shown later. -/
theorem Shows.pairwise {cs rest : List Char} {places : List Pos} {R : Pos → Pos → Prop}
    (h : source.Shows cs places rest) (hcs : cs <:+ source.text)
    (hR : ∀ taken later, taken ++ later <:+ source.text →
      R (source.placeOf (taken ++ later)) (source.placeOf later)) :
    places.Pairwise R := by
  obtain ⟨rests, hfalls, rfl⟩ := h
  rw [List.pairwise_map]
  refine hfalls.pairwise.imp_of_mem ?_
  rintro _ later hmem - ⟨taken, rfl⟩
  exact hR taken later ((hfalls.suffix_of_mem _ hmem).trans hcs)

/-- A rest that still has a line feed is below the last row if the rows are enough for all. -/
theorem row_lt_of_lineFeed {taken later : List Char}
    (h : taken ++ later <:+ source.text) (hmem : '\n' ∈ taken)
    (hrows : source.start.row + source.text.count '\n' ≤ Pos.limit) :
    (source.placeOf (taken ++ later)).row < Pos.limit := by
  obtain ⟨front, htext⟩ := h
  have hfront : front ++ (taken ++ later) <:+ source.text := ⟨[], htext⟩
  have hplace := placeOf_append hfront
  rw [htext, placeOf_text] at hplace
  have hrow := Pos.row_advanceAll_le source.start front
  have hcount : front.count '\n' + taken.count '\n' ≤ source.text.count '\n' := by
    rw [← htext, List.count_append, List.count_append]
    omega
  have hone := List.count_pos_iff.2 hmem
  rw [hplace]
  omega

end Source

/-! ## The trail -/

namespace Reader

/-- **Places go forward below the last row.** Of two places that readings show, from wherever the
text starts, the later one is in no earlier row, and at or after the earlier one unless that is in
the last row. If the rows that are left are enough for the line feeds of the text, the later one is
at or after the earlier one in any case. -/
theorem trail_forward (reader : Reader) (pos : Pos) (n : Nat) :
    (reader.trail pos n).Pairwise (fun earlier later =>
      earlier.row ≤ later.row ∧
        (earlier.row < Pos.limit → later.isAtOrAfter earlier = true)) ∧
    (pos.row + reader.rest.count '\n' ≤ Pos.limit →
      (reader.trail pos n).Pairwise fun earlier later => later.isAtOrAfter earlier = true) := by
  have hstart := (Source.placeOf_text ⟨reader.rest, pos⟩).symm
  obtain ⟨rest, hshows⟩ := Source.shows_trail n List.suffix_rfl hstart
  refine ⟨hshows.pairwise List.suffix_rfl ?_, fun hrows => hshows.pairwise List.suffix_rfl ?_⟩
  · intro taken later hsuffix
    rw [Source.placeOf_append hsuffix]
    exact ⟨Pos.row_le_advanceAll _ taken, fun hrow => Pos.isAtOrAfter_advanceAll (.inr hrow)⟩
  · intro taken later hsuffix
    rw [Source.placeOf_append hsuffix]
    refine Pos.isAtOrAfter_advanceAll ?_
    by_cases hmem : '\n' ∈ taken
    · exact .inr (Source.row_lt_of_lineFeed hsuffix hmem hrows)
    · exact .inl hmem

/-- In the last row, a line feed leads back to the first column. -/
theorem trail_lastRow :
    (ofText .empty "a\nb").trail ⟨"test", Pos.limit, 5⟩ 2 =
      [⟨"test", Pos.limit, 5⟩, ⟨"test", Pos.limit, 5⟩, ⟨"test", Pos.limit, 6⟩,
        ⟨"test", Pos.limit, 1⟩, ⟨"test", Pos.limit, 2⟩] ∧
    ¬ ∀ (reader : Reader) (pos : Pos) (n : Nat), 1 ≤ pos.row → pos.row ≤ Pos.limit →
      1 ≤ pos.col → pos.col ≤ Pos.limit →
        (reader.trail pos n).Pairwise fun earlier later => later.isAtOrAfter earlier = true := by
  have htrail : ∀ table, (ofText table "a\nb").trail ⟨"test", Pos.limit, 5⟩ 2 =
      [⟨"test", Pos.limit, 5⟩, ⟨"test", Pos.limit, 5⟩, ⟨"test", Pos.limit, 6⟩,
        ⟨"test", Pos.limit, 1⟩, ⟨"test", Pos.limit, 2⟩] := by
    intro table
    have hfirst : Completes ((ofText table "a\nb").start ⟨"test", Pos.limit, 5⟩)
        (.atom (.id (table.intern "a").1) ⟨"test", Pos.limit, 5⟩) [] (table.intern "a").2
        ⟨['\n', 'b'], ⟨"test", Pos.limit, 6⟩⟩ := .run rfl rfl
    have hread : (ofText table "a\nb").read ⟨"test", Pos.limit, 5⟩ = _ :=
      read_of_completes hfirst
    generalize (table.intern "a").2 = table at hread
    have hsecond : Completes ((Reader.mk ['\n', 'b'] table).start ⟨"test", Pos.limit, 6⟩)
        (.atom (.id (table.intern "b").1) ⟨"test", Pos.limit, 1⟩) [] (table.intern "b").2
        ⟨[], ⟨"test", Pos.limit, 2⟩⟩ := .run rfl rfl
    have hnext : (Reader.mk ['\n', 'b'] table).read ⟨"test", Pos.limit, 6⟩ = _ :=
      read_of_completes hsecond
    rw [trail, hread]
    dsimp only
    rw [trail, hnext]
    rfl
  refine ⟨htrail .empty, fun h => ?_⟩
  have hforward := h (ofText .empty "a\nb") ⟨"test", Pos.limit, 5⟩ 2 (by decide) (by decide)
    (by decide) (by decide)
  rw [htrail] at hforward
  revert hforward
  decide

end Reader

end SplatLisp
