import SplatLisp.Proofs.Layout
import SplatLisp.Proofs.Rereading

/-!
# Places are exact

Reading on from the place where a text starts, each reading from where the one before has left off
(`Reader.ReadsOn`), gives the forms that lie in the text, and comes to what the text gives there
(`Source.places_exact`). The place where the text starts moves all places and nothing else.
-/

namespace SplatLisp

/-- A reading without places. -/
def Reading.unplaced : Reading → Reading
  | form item _ => .form item.unplaced default
  | finished => .finished
  | failed failure => .failed ⟨default, failure.cause⟩

namespace Reader

variable {reader last : Reader} {pos stop : Pos} {forms : List Form}

/-- Readings of forms, one behind the other. What is left at the end, and its place, come last. -/
inductive ReadsOn : Reader → Pos → List Form → Reader → Pos → Prop
  | nil {reader : Reader} {pos : Pos} : ReadsOn reader pos [] reader pos
  | cons {reader mid last : Reader} {pos next stop : Pos} {form : Form} {forms : List Form}
    (hread : reader.read pos = (.form form next, mid)) (h : ReadsOn mid next forms last stop) :
    ReadsOn reader pos (form :: forms) last stop

/-- All forms are read by reading on to an end or to a failure. -/
theorem exists_readsOn (reader : Reader) (pos : Pos) (done : List Form) :
    ∃ forms last stop, reader.ReadsOn pos forms last stop ∧
      (((last.read stop).1 = .finished ∧ reader.readAllFrom pos done =
          (.ok (done.reverse ++ forms), (last.read stop).2)) ∨
        ∃ failure, (last.read stop).1 = .failed failure ∧ reader.readAllFrom pos done =
          (.error failure, (last.read stop).2)) := by
  fun_induction readAllFrom reader pos done with
  | case1 reader pos done form next mid hread ih =>
    obtain ⟨forms, last, stop, hon, hend⟩ := ih
    refine ⟨form :: forms, last, stop, .cons hread hon, ?_⟩
    rw [List.reverse_cons, List.append_assoc, List.singleton_append] at hend
    exact hend
  | case2 reader pos done mid hread =>
    refine ⟨[], reader, pos, .nil, .inl ?_⟩
    rw [hread, List.append_nil]
    exact ⟨rfl, rfl⟩
  | case3 reader pos done failure mid hread =>
    refine ⟨[], reader, pos, .nil, .inr ⟨failure, ?_⟩⟩
    rw [hread]
    exact ⟨rfl, rfl⟩

/-! ## Another place to start from -/

/-- Places with nothing in common. -/
def Anywhere (_ _ : Pos) : Prop := True

section Anywhere

variable (reader : Reader) (pos pos' : Pos)

theorem read_anywhere :
    ReadingsAlike Anywhere (reader.read pos).1 (reader.read pos').1 ∧
      ReadersAlike Eq (reader.read pos).2 (reader.read pos').2 := by
  have hself : ReadersAlike Eq reader reader := ⟨rfl, rfl⟩
  have hpos : Anywhere pos pos' := trivial
  exact read_alike (fun name h => by rw [h]) (fun _ h => h) hself hpos

theorem readAll_anywhere :
    OutcomesAlike Anywhere (reader.readAll pos).1 (reader.readAll pos').1 ∧
      ReadersAlike Eq (reader.readAll pos).2 (reader.readAll pos').2 := by
  have hself : ReadersAlike Eq reader reader := ⟨rfl, rfl⟩
  have hpos : Anywhere pos pos' := trivial
  exact readAll_alike (fun name h => by rw [h]) (fun _ h => h) hself hpos

theorem ReadersAlike.eq {reader reader' : Reader} (h : ReadersAlike Eq reader reader') :
    reader = reader' := by
  obtain ⟨rest, symbols⟩ := reader
  obtain ⟨rest', symbols'⟩ := reader'
  obtain ⟨hrest, hsymbols⟩ := h
  rw [show rest = rest' from hrest, show symbols = symbols' from hsymbols]

/-- The place has no say in what one reading comes to. -/
theorem read_unplaced :
    (reader.read pos').1.unplaced = (reader.read pos).1.unplaced ∧
      (reader.read pos').2 = (reader.read pos).2 := by
  obtain ⟨hreading, hreaders⟩ := read_anywhere reader pos pos'
  have hafter := hreaders.eq
  refine ⟨?_, hafter.symm⟩
  cases hread : reader.read pos with
  | mk reading after =>
    cases hread' : reader.read pos' with
    | mk reading' after' =>
      rw [hread, hread'] at hreading hafter
      cases hreading with
      | form hform _ =>
        obtain ⟨-, howns⟩ := interned_of_read hread
        obtain ⟨-, howns'⟩ := interned_of_read hread'
        rw [← show after = after' from hafter] at howns'
        simp only [Reading.unplaced, Form.unplaced_eq _ _ howns' howns (hform.tree_eq id).symm]
      | finished => rfl
      | failed cause _ => rfl

/-- The place has no say in what all readings come to. -/
theorem readAll_unplaced (table : SymbolTable) (text : List Char) :
    (((Reader.mk text table).readAll pos').1.mapError ReadFailure.cause).map
        (List.map Form.unplaced) =
      (((Reader.mk text table).readAll pos).1.mapError ReadFailure.cause).map
        (List.map Form.unplaced) ∧
      ((Reader.mk text table).readAll pos').2 = ((Reader.mk text table).readAll pos).2 := by
  obtain ⟨houtcome, hreaders⟩ := readAll_anywhere ⟨text, table⟩ pos pos'
  have hafter := hreaders.eq
  refine ⟨?_, hafter.symm⟩
  cases hread : (Reader.mk text table).readAll pos with
  | mk outcome after =>
    cases hread' : (Reader.mk text table).readAll pos' with
    | mk outcome' after' =>
      rw [hread, hread'] at houtcome hafter
      cases houtcome with
      | @ok forms forms' hforms =>
        obtain ⟨ls, _, rfl, -, -, -, howns⟩ := derives_of_readAllFrom hread
        obtain ⟨ls', _, rfl, -, -, -, howns'⟩ := derives_of_readAllFrom hread'
        rw [← show after = after' from hafter] at howns'
        have htrees := Form.trees_congr (hforms.imp fun _ _ hform => hform.tree_eq id)
        have hsame := Form.unplacedItems_eq _ _ howns' howns htrees.symm
        simp only [Form.unplacedItems_eq_map] at hsame
        exact congrArg Except.ok hsame
      | error cause _ => rfl

end Anywhere

theorem ReadsOn.elsewhere (h : reader.ReadsOn pos forms last stop) (pos' : Pos) :
    ∃ forms' stop', reader.ReadsOn pos' forms' last stop' ∧
      forms'.map Form.unplaced = forms.map Form.unplaced := by
  induction h generalizing pos' with
  | nil => exact ⟨[], pos', .nil, rfl⟩
  | @cons reader mid last pos next stop form forms hread _ ih =>
    obtain ⟨hreading, hmid⟩ := read_unplaced reader pos pos'
    cases hread' : reader.read pos' with
    | mk reading' mid' =>
      rw [hread, hread'] at hreading hmid
      cases hmid
      cases reading' with
      | form form' next' =>
        obtain ⟨forms', stop', hon, hforms⟩ := ih next'
        refine ⟨form' :: forms', stop', .cons hread' hon, ?_⟩
        rw [List.map_cons, List.map_cons, hforms, (Reading.form.inj hreading).1]
      | finished => cases hreading
      | failed failure => cases hreading

end Reader

/-! ## The places -/

namespace Source

open Reader

/-- A reader at the start of the text. -/
def reader (source : Source) (table : SymbolTable) : Reader := ⟨source.text, table⟩

variable {source : Source}

/-- Forms that are read one behind the other lie so in the text. -/
theorem layout_of_readsOn {reader last : Reader} {pos stop : Pos} {forms : List Form}
    (h : reader.ReadsOn pos forms last stop) (hsuffix : reader.rest <:+ source.text)
    (hpos : pos = source.placeOf reader.rest) :
    source.Layout reader.rest forms last.rest ∧ stop = source.placeOf last.rest := by
  induction h with
  | nil => exact ⟨.nil, hpos⟩
  | @cons reader mid last pos next stop form forms hread _ ih =>
    have hgives := gives_of_read hsuffix hpos
    rw [hread] at hgives
    obtain ⟨hform, hnext⟩ := hgives.layout
    obtain ⟨hforms, hstop⟩ := ih (hform.suffix.trans hsuffix) hnext
    exact ⟨hform.append hforms, hstop⟩

/-- **Places are exact.** Whatever has been read from a text, one reading behind the other, lies in
the text with the places of its characters; the place that is passed on is the one directly behind;
and what comes next is what the text gives there, at its place if it is a failure. So it is when all
forms are read. From another place, the same is read but for places. -/
theorem places_exact (source : Source) (table : SymbolTable) :
    (∀ forms last stop, (source.reader table).ReadsOn source.start forms last stop →
      source.Layout source.text forms last.rest ∧ last.rest <:+ source.text ∧
        stop = source.placeOf last.rest ∧
        source.Gives last.rest (last.read stop).1 (last.read stop).2.rest) ∧
    (∀ forms last, (source.reader table).readAll source.start = (.ok forms, last) →
      ∃ rest, source.Layout source.text forms rest ∧ Skipped rest []) ∧
    (∀ failure last, (source.reader table).readAll source.start = (.error failure, last) →
      ∃ forms rest, source.Layout source.text forms rest ∧
        source.Gives rest (.failed failure) last.rest) ∧
    ∀ start,
      (∀ forms last stop, (source.reader table).ReadsOn source.start forms last stop →
        ∃ forms' stop', (source.reader table).ReadsOn start forms' last stop' ∧
          forms'.map Form.unplaced = forms.map Form.unplaced ∧
          (last.read stop').1.unplaced = (last.read stop).1.unplaced ∧
          (last.read stop').2 = (last.read stop).2) ∧
      (((source.reader table).readAll start).1.mapError ReadFailure.cause).map
          (List.map Form.unplaced) =
        (((source.reader table).readAll source.start).1.mapError ReadFailure.cause).map
          (List.map Form.unplaced) ∧
      ((source.reader table).readAll start).2 = ((source.reader table).readAll source.start).2 := by
  have hreads : ∀ forms last stop, (source.reader table).ReadsOn source.start forms last stop →
      source.Layout source.text forms last.rest ∧ last.rest <:+ source.text ∧
        stop = source.placeOf last.rest ∧
        source.Gives last.rest (last.read stop).1 (last.read stop).2.rest := by
    intro forms last stop h
    obtain ⟨hlayout, hstop⟩ := layout_of_readsOn h List.suffix_rfl source.placeOf_text.symm
    have hsuffix := hlayout.suffix
    exact ⟨hlayout, hsuffix, hstop, gives_of_read hsuffix hstop⟩
  obtain ⟨forms, last, stop, hon, hend⟩ := exists_readsOn (source.reader table) source.start []
  obtain ⟨hlayout, -, -, hgives⟩ := hreads forms last stop hon
  refine ⟨hreads, ?_, ?_, fun start => ⟨?_, readAll_unplaced source.start start table source.text⟩⟩
  · intro forms' last' hall
    rcases hend with ⟨hfinished, heq⟩ | ⟨failure, -, heq⟩
    · cases hall.symm.trans heq
      rw [hfinished] at hgives
      exact ⟨last.rest, hlayout, hgives.skipped⟩
    · cases hall.symm.trans heq
  · intro failure' last' hall
    rcases hend with ⟨-, heq⟩ | ⟨failure, hfailed, heq⟩
    · cases hall.symm.trans heq
    · cases hall.symm.trans heq
      rw [hfailed] at hgives
      exact ⟨forms, last.rest, hlayout, hgives⟩
  · intro forms' last' stop' h
    obtain ⟨forms'', stop'', hon', hforms⟩ := h.elsewhere start
    obtain ⟨hreading, hreader⟩ := read_unplaced last' stop' stop''
    exact ⟨forms'', stop'', hon', hforms, hreading, hreader⟩

end Source

end SplatLisp
