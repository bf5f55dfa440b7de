import SplatLisp.Proofs.Decoding
import SplatLisp.Proofs.Hostless
import SplatLisp.Proofs.SymbolTables

/-!
# Reading, loading and evaluating are separate phases

A text is read as a whole, then evaluated. If it cannot be read, the symbols that reading has met
are interned and nothing else has happened; if it can be read, what follows is evaluation, which
interns nothing and gives no read errors. A file that cannot be read is a plain error and leaves the
context as it was; any other file is the text that its bytes decode to, from the first place of a
source with the file's name (`Context.phased`). That is so whatever reading files comes to on a
system.

Primitives of the surrounding program may intern symbols and make read errors, so contexts are asked
to be fit.
-/

namespace SplatLisp

namespace Eval

/-- How a computation may have ended that has read a text: with a value, or with a plain error, or
too deep for its bound; and the symbols are those that reading has left. -/
inductive Evaluated (symbols : SymbolTable) : EStateM.Result Stop Context Value → Prop
  | value (v : Value) {d : Context} (hd : d.symbols = symbols) : Evaluated symbols (.ok v d)
  | failed (error : Error) {d : Context} (hd : d.symbols = symbols) (hplain : error.isRead = false)
    (message : String) (htext : error.text = "Error: " ++ message) :
    Evaluated symbols (.error (.failed error) d)
  | exhausted {d : Context} (hd : d.symbols = symbols) : Evaluated symbols (.error .exhausted d)

variable [H : HostPrims] {c d : Context} {pos : Pos} {text : String} {forms : List Form}
  {reader : Reader} {failure : ReadFailure}

omit H in
/-- Under the policy that hands errors back, what is raised is what stops. -/
theorem raise_of_report {α : Type} (hpolicy : c.diagnostics.policy = .report) (error : Error) :
    (raise error : Eval α) c = .error (.failed error) c := by
  rw [raise_eq, hpolicy]

/-- Evaluation interns nothing, and gives no read errors. -/
theorem evaluated_evalForms (bound : Nat) (forms : List Form) (env : Env) (hc : c.Fit .report) :
    Evaluated c.symbols (evalForms (eval bound) forms env c) := by
  have hends := proper_evalForms bound forms env .report c hc
  have hsymbols : ((evalForms (eval bound) forms env).after c).symbols = c.symbols := by
    rw [after_congr (evalForms_hostless H .none hc.heap bound forms env)]
    exact symbols_evalForms bound forms env c
  unfold Eval.after at hsymbols
  generalize evalForms (eval bound) forms env c = result at hends hsymbols
  cases hends with
  | ok _ _ => exact .value _ hsymbols
  | error hstop _ =>
    cases hstop with
    | plain cause => exact .failed (.plain cause) hsymbols rfl cause.message rfl
    | exhausted => exact .exhausted hsymbols

theorem evaluated_evalText (hc : c.Fit .report)
    (h : (Reader.ofText c.symbols text).readAll pos = (.ok forms, reader)) (bound : Nat)
    (env : Env) : Evaluated reader.symbols (evalText bound pos text env c) := by
  have hfit : Context.Fit .report { c with symbols := reader.symbols } := ⟨hc.heap, hc.policy⟩
  rw [evalText_of_readAll h bound env]
  exact evaluated_evalForms bound forms env hfit

theorem evalText_of_refused (hpolicy : c.diagnostics.policy = .report)
    (h : (Reader.ofText c.symbols text).readAll pos = (.error failure, reader)) (bound : Nat)
    (env : Env) :
    evalText bound pos text env c =
      .error (.failed (.read failure)) { c with symbols := reader.symbols } := by
  have hread : (Reader.mk text.toList c.symbols).readAll pos = (.error failure, reader) := h
  have heq := evalChars_eq bound pos text.toList env c
  rw [hread] at heq
  exact heq.trans (raise_of_report (c := { c with symbols := reader.symbols }) hpolicy _)

/-- A read error is that of reading. -/
theorem refused_of_evalText (hc : c.Fit .report) {bound : Nat} {env : Env}
    (h : evalText bound pos text env c = .error (.failed (.read failure)) d) :
    ∃ reader, (Reader.ofText c.symbols text).readAll pos = (.error failure, reader) ∧
      d = { c with symbols := reader.symbols } := by
  cases hread : (Reader.ofText c.symbols text).readAll pos with
  | mk outcome reader =>
    cases outcome with
    | ok forms =>
      have hevaluated := evaluated_evalText hc hread bound env
      rw [h] at hevaluated
      cases hevaluated with
      | failed _ _ hplain _ _ => cases hplain
    | error failure' =>
      rw [evalText_of_refused hc.policy hread] at h
      cases h
      exact ⟨reader, rfl, rfl⟩

/-- A file that can be read is evaluated as the text that its bytes decode to. -/
theorem load_of_read {read : ReadFile} {name : String} {bytes : ByteArray}
    (h : read name = .ok bytes) (bound : Nat) (env : Env) :
    load bound read name env = evalText bound ⟨name, 1, 1⟩ (.ofList (Utf8.decode bytes)) env := by
  unfold load evalText
  rw [h, String.toList_ofList]
  rfl

end Eval

/-- What evaluating texts and loading files comes to in a context, up to a depth. -/
structure Context.Phased [HostPrims] (bound : Nat) (c : Context) : Prop where
  /-- The symbols that are met in reading are new ones at the end. -/
  grows : ∀ pos text, ∃ more,
    ((Reader.ofText c.symbols text).readAll pos).2.symbols.names.toList =
      c.symbols.names.toList ++ more
  /-- Read errors are those of reading, and then symbols are all that has changed. -/
  refused : ∀ pos text env failure d,
    Eval.evalText bound pos text env c = .error (.failed (.read failure)) d ↔
      ∃ reader, (Reader.ofText c.symbols text).readAll pos = (.error failure, reader) ∧
        d = { c with symbols := reader.symbols }
  /-- What has been read is evaluated with the symbols that reading has left. -/
  evaluated : ∀ pos text env forms reader,
    (Reader.ofText c.symbols text).readAll pos = (.ok forms, reader) →
      Eval.evalText bound pos text env c =
        evalForms (eval bound) forms env { c with symbols := reader.symbols } ∧
      Eval.Evaluated reader.symbols (Eval.evalText bound pos text env c)
  /-- A file that cannot be read has done nothing. -/
  missing : ∀ (read : ReadFile) name env reason, read name = .error reason →
    Eval.load bound read name env c = .error (.failed (.plain (.loadFailed name reason))) c
  loaded : ∀ (read : ReadFile) name env bytes, read name = .ok bytes →
    Eval.load bound read name env c =
      Eval.evalText bound ⟨name, 1, 1⟩ (.ofList (Utf8.decode bytes)) env c
  /-- The bytes of a text are decoded to it. -/
  loadedText : ∀ (read : ReadFile) name env text, read name = .ok text.toUTF8 →
    Eval.load bound read name env c = Eval.evalText bound ⟨name, 1, 1⟩ text env c

/-- **Reading, loading and evaluating are separate phases**, in every context where primitives are
core ones that get the forms that they need, and errors are handed back. -/
theorem Context.phased [HostPrims] (bound : Nat) {c : Context} (hc : c.heap.Fit)
    (hpolicy : c.diagnostics.policy = .report) : c.Phased bound where
  grows := by
    intro pos text
    obtain ⟨ls, ⟨-, -, hnames⟩, -⟩ := c.symbols.interns_readAll pos text.toList
    exact ⟨_, hnames⟩
  refused := by
    intro pos text env failure d
    constructor
    · exact Eval.refused_of_evalText ⟨hc, hpolicy⟩
    · rintro ⟨reader, hread, rfl⟩
      exact Eval.evalText_of_refused hpolicy hread bound env
  evaluated := by
    intro pos text env forms reader hread
    exact ⟨Eval.evalText_of_readAll hread bound env,
      Eval.evaluated_evalText ⟨hc, hpolicy⟩ hread bound env⟩
  missing := by
    intro read name env reason hfile
    unfold Eval.load
    rw [hfile]
    exact Eval.raise_of_report hpolicy _
  loaded := by
    intro read name env bytes hfile
    rw [Eval.load_of_read hfile]
  loadedText := by
    intro read name env text hfile
    rw [Eval.load_of_read hfile, Utf8.decode_utf8, String.ofList_toList]

open scoped CoreOnly in
/-- A bracket too many at the end keeps all of a file from being evaluated: `f` has been interned,
but not looked up, which would have failed. The same text under a name of its own ends likewise. A
file at an absolute path that can be read as a number is evaluated to it, and one that is refused by
the system is a plain error. -/
theorem Context.phased_lateError :
    let read : ReadFile := fun name =>
      if name = "late" then .ok "f)".toUTF8
      else if name = "/data/seven" then .ok "7".toUTF8
      else .error "Permission denied (os error 13)"
    let refused : EStateM.Result Stop Context Value :=
      .error (.failed (.read ⟨⟨"late", 1, 2⟩, .unexpected ')'⟩))
        { new {} with symbols := ((new {}).symbols.intern "f").2 }
    (new {}).heap.Fit ∧ (new {}).diagnostics.policy = .report ∧ (new {}).Phased 64 ∧
      read "late" = .ok "f)".toUTF8 ∧ read "/data/seven" = .ok "7".toUTF8 ∧
      Eval.evalText 64 (.start "late") "f)" .root (new {}) = refused ∧
      Eval.load 64 read "late" .root (new {}) = refused ∧
      Eval.load 64 read "/data/seven" .root (new {}) = .ok (.int 7) (new {}) ∧
      Eval.load 64 read "/data/eight" .root (new {}) =
        .error (.failed (.plain (.loadFailed "/data/eight" "Permission denied (os error 13)")))
          (new {}) := by
  intro read refused
  have hfit : (new {}).heap.Fit := fit_of_reachable (.new {})
  have hpolicy : (new {}).diagnostics.policy = .report := (fit_new {}).policy
  have hphased := phased 64 hfit hpolicy
  have hlate : read "late" = .ok "f)".toUTF8 := if_pos rfl
  have hdigit : read "/data/seven" = .ok "7".toUTF8 := by
    dsimp only [read]
    rw [if_neg (by decide), if_pos rfl]
  have hmissing : read "/data/eight" = .error "Permission denied (os error 13)" := by
    dsimp only [read]
    rw [if_neg (by decide), if_neg (by decide)]
  have htext : Eval.evalText 64 (.start "late") "f)" .root (new {}) = refused := by
    refine (hphased.refused _ _ _ _ _).2 ⟨⟨[')'], _⟩, ?_, rfl⟩
    generalize (new {}).symbols = table
    have hfirst : Reader.Completes ((Reader.ofText table "f)").start (.start "late"))
        (.atom (.id (table.intern "f").1) ⟨"late", 1, 1⟩) [] (table.intern "f").2
        ⟨[')'], ⟨"late", 1, 2⟩⟩ := .run rfl rfl
    have hread : (Reader.ofText table "f)").read (.start "late") = _ :=
      Reader.read_of_completes hfirst
    let next : Reader.State := (Reader.mk [')'] (table.intern "f").2).start ⟨"late", 1, 2⟩
    have hbracket : next.here.token? = some (.closing .round false, ⟨[], ⟨"late", 1, 3⟩⟩) := rfl
    have hlast : (Reader.mk [')'] (table.intern "f").2).read ⟨"late", 1, 2⟩ = _ :=
      Reader.read_of_ends (.unexpected hbracket nofun)
    rw [Reader.readAll, Reader.readAllFrom_eq, hread]
    dsimp only
    rw [Reader.readAllFrom_eq, hlast]
    rfl
  have hseven : (Reader.ofText (new {}).symbols "7").readAll ⟨"/data/seven", 1, 1⟩ =
      (.ok [.atom (.int 7) ⟨"/data/seven", 1, 1⟩], ⟨[], (new {}).symbols⟩) := by
    generalize (new {}).symbols = table
    have hfirst : Reader.Completes ((Reader.ofText table "7").start ⟨"/data/seven", 1, 1⟩)
        (.atom (.int 7) ⟨"/data/seven", 1, 1⟩) [] table ⟨[], ⟨"/data/seven", 1, 2⟩⟩ :=
      .run rfl rfl
    have hread : (Reader.ofText table "7").read ⟨"/data/seven", 1, 1⟩ = _ :=
      Reader.read_of_completes hfirst
    have hlast : (Reader.mk [] table).read ⟨"/data/seven", 1, 2⟩ = (.finished, ⟨[], table⟩) :=
      Reader.read_of_ends (s := ⟨table, [], ⟨[], ⟨"/data/seven", 1, 2⟩⟩⟩) (.finished rfl rfl)
    rw [Reader.readAll, Reader.readAllFrom_eq, hread]
    dsimp only
    rw [Reader.readAllFrom_eq, hlast]
    rfl
  refine ⟨hfit, hpolicy, hphased, hlate, hdigit, htext, ?_, ?_, hphased.missing _ _ _ _ hmissing⟩
  · exact (hphased.loadedText _ _ _ _ hlate).trans htext
  · exact (hphased.loadedText _ _ _ _ hdigit).trans (hphased.evaluated _ _ _ _ _ hseven).1

end SplatLisp
