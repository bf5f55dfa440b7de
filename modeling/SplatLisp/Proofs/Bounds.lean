import SplatLisp.Proofs.Indexing
import SplatLisp.Proofs.Offsets
import SplatLisp.Proofs.Phases

/-!
# Everything stays in bounds

An interpreter that reads texts by byte offsets, and takes forms and arguments by their indices,
breaks where it cuts a character in two or goes beyond the end of a list (`Indexed.evalText`). From
a context where the primitives take the forms that their operations need, as the core primitives do,
it never breaks: it does what evaluating texts does, and if it stops, then for an error or because
evaluations nest too deep (`Context.inBounds_of_reachable`).
-/

namespace SplatLisp

namespace Indexed

/-- Reads all forms of a text that starts at a place, by offsets. -/
def readChars (pos : Pos) (chars : List Char) : Eval (List Form) := do
  match Offsets.readAll? chars (← get).symbols pos with
  | none => throw .broken
  | some (outcome, symbols) => do
    modify fun context => { context with symbols }
    match outcome with
    | .ok forms => pure forms
    | .error failure => Eval.raise (.read failure)

/-- Reads all forms of a text by offsets, and evaluates them in order by indices. -/
def evalText [HostPrims] (bound : Nat) (pos : Pos) (text : String) (env : Env) : Eval Value := do
  evalForms (eval bound) (← readChars pos text.toList) env

/-- Reading by offsets does what reading does, in every context. -/
theorem readChars_eq (pos : Pos) (chars : List Char) :
    readChars pos chars = Eval.readChars pos chars := by
  funext c
  rw [Eval.readChars_eq]
  change (match Offsets.readAll? chars c.symbols pos with
    | none => throw .broken
    | some (outcome, symbols) => do
      modify fun context => { context with symbols }
      match outcome with
      | .ok forms => pure forms
      | .error failure => Eval.raise (.read failure) : Eval (List Form)) c = _
  rw [Offsets.readAll?_eq]
  cases (Reader.mk chars c.symbols).readAll pos with
  | mk outcome reader => cases outcome <;> rfl

theorem agreeOn_readChars (pos : Pos) (chars : List Char) :
    Eval.AgreeOn (·.fit = true) (fun _ => True) (readChars pos chars)
      (Eval.readChars pos chars) := by
  intro c hc
  rw [readChars_eq, Eval.readChars_eq]
  cases (Reader.mk chars c.symbols).readAll pos with
  | mk outcome reader =>
    cases outcome with
    | ok forms => exact .ok trivial hc
    | error failure => exact .error _ hc

theorem agreeOn_evalText [HostPrims] (bound : Nat) (pos : Pos) (text : String) (env : Env) :
    Eval.AgreeOn (·.fit = true) (·.fit = true) (evalText bound pos text env)
      (Eval.evalText bound pos text env) :=
  (agreeOn_readChars pos text.toList).bind fun forms _ => agreeOn_evalForms bound forms env

end Indexed

/-- What is certain of evaluating texts in a context, up to a depth. -/
structure Context.InBounds [HostPrims] (bound : Nat) (c : Context) : Prop where
  /-- Reading slices at the boundaries of characters alone. -/
  reading : ∀ pos text, Indexed.readChars pos text c = Eval.readChars pos text c
  /-- Evaluating takes forms and arguments that are there alone. -/
  form : ∀ form env, Indexed.eval bound form env c = eval bound form env c
  text : ∀ pos text env,
    Indexed.evalText bound pos text env c = Eval.evalText bound pos text env c
  stops : ∀ pos text env stop d, Indexed.evalText bound pos text env c = .error stop d →
    (∃ error, stop = .failed error) ∨ stop = .exhausted

/-- Evaluating a text stops for an error that it hands back, or because it nests too deep. -/
theorem Eval.stops_evalText [HostPrims] {c d : Context} (hc : c.Fit .report) {bound : Nat}
    {pos : Pos} {text : String} {env : Env} {stop : Stop}
    (h : Eval.evalText bound pos text env c = .error stop d) :
    (∃ error, stop = .failed error) ∨ stop = .exhausted := by
  cases hread : (Reader.ofText c.symbols text).readAll pos with
  | mk outcome reader =>
    cases outcome with
    | ok forms =>
      have hends := evaluated_evalText hc hread bound env
      rw [h] at hends
      cases hends with
      | failed error _ _ _ _ => exact .inl ⟨error, rfl⟩
      | exhausted _ => exact .inr rfl
    | error failure =>
      rw [evalText_of_refused hc.policy hread] at h
      cases h
      exact .inl ⟨_, rfl⟩

/-- **Everything stays in bounds**, in every context that requests with fit values lead to, if
errors are handed back. -/
theorem Context.inBounds_of_reachable [HostPrims] (bound : Nat) {c : Context}
    (h : c.Reachable fun _ request => request.Fit) (hpolicy : c.diagnostics.policy = .report) :
    c.InBounds bound := by
  have hfit := fit_of_reachable h
  have htext : ∀ pos text env,
      Indexed.evalText bound pos text env c = Eval.evalText bound pos text env c :=
    fun pos text env => (Indexed.agreeOn_evalText bound pos text env).eq hfit
  refine ⟨fun pos text => ?_, fun form env => ?_, htext, fun pos text env stop d hstop => ?_⟩
  · rw [Indexed.readChars_eq]
  · exact (Indexed.agreeOn_eval bound form env).eq hfit
  · rw [htext] at hstop
    exact Eval.stops_evalText ⟨hfit, hpolicy⟩ hstop

open scoped CoreOnly in
/-- A context that has aborted is told to hand errors back from now on. The bracket too many stands
behind a character of two bytes. -/
theorem Context.inBounds_of_reachable_resumed :
    let aborted := (Request.text 64 (.start "first") "(if T)" .root).run (new { debug := true })
    let resumed := (Request.configure .standard ⟨.report, .stderr⟩ .stdout).run aborted
    (resumed.Reachable fun _ request => request.Fit) ∧ resumed.diagnostics.policy = .report ∧
      resumed.InBounds 64 ∧
      Indexed.readChars (.start "second") ['é', ')'] resumed =
        .error (.failed (.read ⟨⟨"second", 1, 2⟩, .unexpected ')'⟩))
          { resumed with symbols := (resumed.symbols.intern "é").2 } := by
  intro aborted resumed
  have hreachable : resumed.Reachable fun _ request => request.Fit :=
    .next (.next (.new _) _ trivial) _ trivial
  refine ⟨hreachable, rfl, inBounds_of_reachable 64 hreachable rfl, ?_⟩
  generalize aborted = c at resumed
  rfl

end SplatLisp
