import Mathlib.Data.List.Forall2
import SplatLisp.Proofs.CoreCalls
import SplatLisp.Host.Probe
import SplatLisp.Proofs.Runs

/-!
# Rendering succeeds as a whole or fails as a whole

Only host values can fail to render, and they may have written text before they do. A value renders
if all host values in it do, and then its text is put together from theirs (`Value.wholeText`);
otherwise it fails as the first of them does from the left, and nothing of what was written until
then shows (`Value.RendersWhole`). The proof follows what a writing adds to the text before it, or
how it fails (`Writing.Adds`), which writings one after the other compose.

`dump` writes the texts of all its arguments as one line, or no part of that line at all. What that
means for a call is said by `Eval.dump_whole`, in terms of what the sinks hold afterwards.
-/

namespace SplatLisp

/-! ## Writings -/

namespace Writing

/-- Whether a writing adds a text to what has been written before, or fails; then it does not matter
what has been written. -/
def Adds (w : Writing Unit) (text : String) : Option RenderFailure → Prop
  | none => ∀ out, w out = .ok () (out ++ text)
  | some failure => ∀ out, ∃ written, w out = .error failure written

variable {w w' : Writing Unit} {text text' : String} {failure failure' : Option RenderFailure}

theorem adds_put (text : String) : (put text).Adds text none := fun _ => rfl

theorem adds_pure : Adds (pure ()) "" none := by
  intro out
  simp [pure, EStateM.pure]

theorem adds_replay (r : Rendering) : (replay r).Adds r.written r.failure := by
  obtain ⟨written, failure⟩ := r
  cases failure with
  | none => exact fun out => rfl
  | some failure => exact fun out => ⟨out ++ written, rfl⟩

/-- Of two writings one after the other, the first to fail decides. -/
theorem Adds.bind (h : w.Adds text failure) (h' : w'.Adds text' failure') :
    Adds (w >>= fun _ => w') (text ++ text') (failure.or failure') := by
  have hbind : ∀ out, (w >>= fun _ => w') out = EStateM.bind w (fun _ => w') out := fun _ => rfl
  cases failure with
  | some f =>
    intro out
    obtain ⟨written, hw⟩ := h out
    exact ⟨written, by rw [hbind, EStateM.bind, hw]⟩
  | none =>
    cases failure' with
    | some f =>
      intro out
      obtain ⟨written, hw⟩ := h' (out ++ text)
      refine ⟨written, ?_⟩
      rw [hbind, EStateM.bind, h out]
      exact hw
    | none =>
      intro out
      rw [hbind, EStateM.bind, h out, ← String.append_assoc]
      exact h' (out ++ text)

/-- The rendering made by a writing has the whole text or the failure. -/
theorem Adds.result (h : w.Adds text failure) :
    w.rendering.result = failure.elim (.ok text) .error := by
  cases failure with
  | none =>
    rw [rendering, h ""]
    simp [Rendering.result]
  | some failure =>
    obtain ⟨written, hw⟩ := h ""
    rw [rendering, hw]
    rfl

end Writing

/-! ## Values -/

/-- How the first of some host values fails that does. -/
def firstFailure (hosts : List HostValue) : Option RenderFailure :=
  hosts.findSome? (·.data.rendering.failure)

theorem firstFailure_append (hosts more : List HostValue) :
    firstFailure (hosts ++ more) = (firstFailure hosts).or (firstFailure more) :=
  List.findSome?_append

namespace Value

mutual

/-- The host values in a value, from left to right. -/
def hosts : Value → List HostValue
  | vec items => hostsOf items
  | splat inner => inner.hosts
  | host value => [value]
  | _ => []

/-- The host values in values, from left to right. -/
def hostsOf : List Value → List HostValue
  | [] => []
  | item :: items => item.hosts ++ hostsOf items

end

mutual

/-- The text of a value, put together from the texts of its parts. -/
def wholeText : Value → String
  | nil => "_"
  | bool b => if b then "T" else "F"
  | int n => .ofList (Decimal.ofInt n.toInt)
  | vec items => "[" ++ " ".intercalate (wholeTexts items) ++ "]"
  | splat inner => inner.wholeText ++ ".."
  | fn closure => closure.fn.text
  | prim p => "Prim(" ++ p.name ++ ")"
  | type t => t.name
  | host value => value.data.rendering.written

def wholeTexts : List Value → List String
  | [] => []
  | item :: items => item.wholeText :: wholeTexts items

end

/-- Texts, each after a space. -/
def spaced (texts : List String) : String := texts.foldr (fun text more => " " ++ text ++ more) ""

theorem intercalate_cons_eq (text : String) (texts : List String) :
    " ".intercalate (text :: texts) = text ++ spaced texts := by
  induction texts generalizing text with
  | nil => simp [spaced]
  | cons next texts ih =>
    rw [String.intercalate_cons_cons, ih]
    simp [spaced, String.append_assoc]

mutual

/-- **A value is written as a whole, or fails as its first host value that does.** -/
theorem adds_write : (v : Value) → (write v).Adds v.wholeText (firstFailure v.hosts)
  | nil => Writing.adds_put _
  | bool _ => Writing.adds_put _
  | int _ => Writing.adds_put _
  | vec items => by
    have h := (Writing.adds_put "[").bind ((adds_writeItems items).bind (Writing.adds_put "]"))
    simpa [write, wholeText, hosts, String.append_assoc] using h
  | splat inner => by
    have h := (adds_write inner).bind (Writing.adds_put "..")
    simpa [write, wholeText, hosts] using h
  | fn _ => Writing.adds_put _
  | prim _ => Writing.adds_put _
  | type _ => Writing.adds_put _
  | host value => by
    have h := Writing.adds_replay value.data.rendering
    simpa [write, wholeText, hosts, firstFailure, List.findSome?] using h

theorem adds_writeItems : (items : List Value) →
    (writeItems items).Adds (" ".intercalate (wholeTexts items)) (firstFailure (hostsOf items))
  | [] => by
    rw [writeItems, wholeTexts, String.intercalate_nil]
    exact Writing.adds_pure
  | item :: items => by
    rw [writeItems, wholeTexts, intercalate_cons_eq, hostsOf, firstFailure_append]
    exact (adds_write item).bind (adds_writeMore items)

theorem adds_writeMore : (items : List Value) →
    (writeMore items).Adds (spaced (wholeTexts items)) (firstFailure (hostsOf items))
  | [] => by
    rw [writeMore]
    exact Writing.adds_pure
  | item :: items => by
    have h := (Writing.adds_put " ").bind ((adds_write item).bind (adds_writeMore items))
    rw [writeMore, hostsOf, firstFailure_append]
    simpa [wholeTexts, spaced, String.append_assoc] using h

end

theorem result_rendering (v : Value) :
    v.rendering.result = (firstFailure v.hosts).elim (.ok v.wholeText) .error :=
  (adds_write v).result

theorem result_lineRendering (values : List Value) : (lineRendering values).result =
    (firstFailure (hostsOf values)).elim (.ok (" ".intercalate (wholeTexts values))) .error :=
  (adds_writeItems values).result

/-- Values all render, and the text of each is the whole one, or they fail as the first of them
does that fails. -/
theorem renderings_cases (values : List Value) :
    firstFailure (hostsOf values) = none ∧
        List.Forall₂ (fun v text => v.rendering.result = .ok text) values (wholeTexts values) ∨
      ∃ before v after failure, values = before ++ v :: after ∧
        firstFailure (hostsOf values) = some failure ∧ v.rendering.result = .error failure ∧
          ∀ u ∈ before, ∃ text, u.rendering.result = .ok text := by
  induction values with
  | nil => exact .inl ⟨rfl, .nil⟩
  | cons v values ih =>
    have hv := result_rendering v
    rw [hostsOf, firstFailure_append]
    cases hfirst : firstFailure v.hosts with
    | some failure =>
      rw [hfirst] at hv
      exact .inr ⟨[], v, values, failure, rfl, rfl, hv, nofun⟩
    | none =>
      rw [hfirst] at hv
      rcases ih with ⟨hnone, htexts⟩ | ⟨before, u, after, failure, rfl, hsome, hu, hbefore⟩
      · exact .inl ⟨hnone, .cons hv htexts⟩
      · refine .inr ⟨v :: before, u, after, failure, rfl, hsome, hu, ?_⟩
        exact List.forall_mem_cons.2 ⟨⟨_, hv⟩, hbefore⟩

/-- How rendering a value ends, and what is shown of the value. -/
structure RendersWhole (v : Value) : Prop where
  ok_iff : ∀ text, v.rendering.result = .ok text ↔
    (∀ h ∈ v.hosts, h.data.rendering.failure = none) ∧ text = v.wholeText
  /-- The first host value that fails decides. -/
  error_iff : ∀ failure, v.rendering.result = .error failure ↔
    ∃ before h after, v.hosts = before ++ h :: after ∧
      h.data.rendering.failure = some failure ∧ ∀ g ∈ before, g.data.rendering.failure = none
  /-- A value that fails shows as its failure alone. -/
  text_eq : v.text =
    match v.rendering.result with
    | .ok text => text
    | .error failure => failure.message

theorem rendersWhole (v : Value) : v.RendersWhole := by
  have hnone : firstFailure v.hosts = none ↔ ∀ h ∈ v.hosts, h.data.rendering.failure = none :=
    List.findSome?_eq_none_iff
  have hsome : ∀ failure, firstFailure v.hosts = some failure ↔
      ∃ before h after, v.hosts = before ++ h :: after ∧
        h.data.rendering.failure = some failure ∧ ∀ g ∈ before, g.data.rendering.failure = none :=
    fun _ => List.findSome?_eq_some_iff
  refine ⟨fun text => ?_, fun failure => ?_, ?_⟩
  · rw [← hnone, result_rendering]
    cases firstFailure v.hosts <;> simp [eq_comm]
  · rw [← hsome, result_rendering]
    cases firstFailure v.hosts <;> simp
  · unfold text Rendering.text Rendering.result
    cases v.rendering.failure <;> rfl

end Value

/-! ## The primitive -/

namespace Eval

/-- What `dump` does with the values of its arguments in a context. -/
inductive Dumps (d : Context) : List Value → EStateM.Result Stop Context Value → Prop
  /-- The sink for output takes the line, and nothing else changes. -/
  | line {values : List Value} {texts : List String} {sinks : Sinks}
    (h : List.Forall₂ (fun v text => v.rendering.result = .ok text) values texts)
    (htook : d.sinks.Took d.out (" ".intercalate texts ++ "\n") sinks) :
    Dumps d values (.ok .nil { d with sinks })
  /-- The first value that cannot be rendered decides, and nothing is written. -/
  | failed {before after : List Value} {v : Value} {failure : RenderFailure}
    (hbefore : ∀ u ∈ before, ∃ text, u.rendering.result = .ok text)
    (hv : v.rendering.result = .error failure) :
    Dumps d (before ++ v :: after) (fail (.dumpFailed failure) d)

theorem not_exists_text {v : Value} {failure : RenderFailure}
    (h : v.rendering.result = .error failure) : ¬ ∃ text, v.rendering.result = .ok text := by
  simp [h]

/-- What becomes of values that can all be rendered. -/
theorem Dumps.of_texts {d : Context} {values : List Value} {texts : List String}
    {r : EStateM.Result Stop Context Value} (h : Dumps d values r)
    (htexts : List.Forall₂ (fun v text => v.rendering.result = .ok text) values texts) :
    ∃ sinks, r = .ok .nil { d with sinks } ∧
      d.sinks.Took d.out (" ".intercalate texts ++ "\n") sinks := by
  cases h with
  | @line _ texts' sinks htexts' htook =>
    obtain rfl : texts' = texts := by
      refine List.right_unique_forall₂' (fun v text text' htext htext' => ?_) htexts' htexts
      exact Except.ok.inj (htext.symm.trans htext')
    exact ⟨sinks, rfl, htook⟩
  | failed _ hv =>
    have hall := ((List.forall₂_and_left _ _).1
      (htexts.imp fun v text htext => And.intro (Exists.intro text htext) htext)).1
    exact absurd (hall _ (by simp)) (not_exists_text hv)

/-- What becomes of values of which one cannot be rendered. -/
theorem Dumps.of_failed {d : Context} {before after : List Value} {v : Value}
    {failure : RenderFailure} {r : EStateM.Result Stop Context Value}
    (h : Dumps d (before ++ v :: after) r)
    (hbefore : ∀ u ∈ before, ∃ text, u.rendering.result = .ok text)
    (hv : v.rendering.result = .error failure) : r = fail (.dumpFailed failure) d := by
  generalize hvalues : before ++ v :: after = values at h
  cases h with
  | line htexts =>
    have hall : ∀ u ∈ values, ∃ text, u.rendering.result = .ok text :=
      ((List.forall₂_and_left _ _).1 (htexts.imp fun _ text htext => ⟨⟨text, htext⟩, htext⟩)).1
    exact absurd (hall v (by simp [← hvalues])) (not_exists_text hv)
  | failed hbefore' hv' =>
    obtain rfl :=
      first_unique hvalues hbefore (not_exists_text hv) hbefore' (not_exists_text hv')
    cases hv.symm.trans hv'
    rfl

/-- A line is written if all values can be rendered. -/
theorem dumps_lineRendering (values : List Value) (d : Context) :
    Dumps d values
      ((match (Value.lineRendering values).result with
        | .ok line => do
          writeLine line
          pure .nil
        | .error failure => fail (.dumpFailed failure) : Eval Value) d) := by
  rw [Value.result_lineRendering]
  rcases Value.renderings_cases values with
    ⟨hnone, htexts⟩ | ⟨before, v, after, failure, hvalues, hsome, hv, hbefore⟩
  · rw [hnone]
    exact .line htexts (Sinks.took_writeLine ..)
  · rw [hsome, hvalues]
    exact .failed hbefore hv

/-- How a failed `dump` is delivered: it is handed back and nothing is done, or else it aborts, and
the sink for errors alone is given its text. -/
structure DumpFails (failure : RenderFailure) (d : Context) : Prop where
  report : d.diagnostics.policy = .report → ∃ error,
    error.text = "Error: Dump failed: " ++ failure.message ∧
      (fail (.dumpFailed failure) : Eval Value) d = .error (.failed error) d
  abort : d.diagnostics.policy = .abort → ∃ text sinks,
    text = "Error: Dump failed: " ++ failure.message ∧
      (fail (.dumpFailed failure) : Eval Value) d = .error (.aborted text) { d with sinks } ∧
        d.sinks.Took d.diagnostics.sink (text ++ "\n") sinks

theorem dumpFails (failure : RenderFailure) (d : Context) : DumpFails failure d := by
  have htext : (Error.plain (.dumpFailed failure)).text =
      "Error: Dump failed: " ++ failure.message := by
    have hlead : "Error: " ++ "Dump failed: " = "Error: Dump failed: " := by decide
    change "Error: " ++ ("Dump failed: " ++ failure.message) = _
    rw [← String.append_assoc, hlead]
  constructor
  · intro hpolicy
    refine ⟨.plain (.dumpFailed failure), htext, ?_⟩
    rw [fail, raise_eq, hpolicy]
  · intro hpolicy
    refine ⟨_, _, htext, ?_, Sinks.took_writeLine ..⟩
    rw [fail, raise_eq, hpolicy]

/-- **Rendering succeeds as a whole or not at all**, and so does `dump`. A value renders, as the
text put together from those of its host values, if all of these render; otherwise it fails as the
first of them that does, and shows as that failure. A call of the core primitive `dump` stops where
its arguments do; then the sink for output is given the texts of all values with spaces between them
and a line feed, or the call fails as the first value that cannot be rendered and gives that sink
nothing. -/
theorem dump_whole [HostPrims] :
    (∀ v : Value, v.RendersWhole) ∧
    (∀ bound head forms env pos prim b c, eval bound head env b = .ok (.prim prim) c →
      prim.IsCore "dump" →
      ByValue Dumps (evalArgs (eval bound) forms env c)
        (eval (bound + 1) (.group .round (head :: forms) pos) env b)) ∧
    ∀ failure d, DumpFails failure d := by
  refine ⟨Value.rendersWhole, fun bound head forms env pos prim b c hhead hprim => ?_, dumpFails⟩
  rw [eval_core hhead hprim rfl (by simp)]
  exact byValue_bind (dumps_lineRendering · ·)

open scoped CoreOnly in
/-- A truth value and a host value are dumped, and the buffer for output shows their line behind
what it has shown before. With another host value, which gives up half way, nothing is written,
although the rendering has come to that value. -/
theorem dump_whole_partial :
    let p := Pos.start "call"
    let prim : Prim := ⟨0, "dump", 0, none, .dump⟩
    let type : TypeInfo := ⟨⟨8⟩, "Probe", true⟩
    let good : Value := .host ⟨1, type, (Probe.number 5).data type⟩
    let bad : Value := .vec [.host ⟨2, type, (Probe.number (-1)).data type⟩]
    let heap := (((Heap.empty.alloc none).2.define .root ⟨"x", 1⟩ good).define .root ⟨"y", 2⟩
      bad).define .root ⟨"dump", 0⟩ (.prim prim)
    let c : Context :=
      ⟨.empty, .builtins, heap, 3, ⟨#[.new .buffer, ⟨.buffer, "> "⟩]⟩, .default, .stdout⟩
    let head := Form.atom (.id ⟨"dump", 0⟩) p
    let call := fun symbol => Form.group .round [head, .atom (.bool true) p, .atom (.id symbol) p] p
    eval 1 head .root c = .ok (.prim prim) c ∧ prim.IsCore "dump" ∧ c.outSink.output = "> " ∧
      (∃ sinks, eval 2 (call ⟨"x", 1⟩) .root c = .ok .nil { c with sinks } ∧
        (sinks.get c.out).output = "> T Probe(5)\n" ∧
        (sinks.get c.diagnostics.sink).output = "") ∧
      (Value.lineRendering [.bool true, bad]).written = "T [partial" ∧
      ∃ error, error.text = "Error: Dump failed: failed dumping Probe: negative" ∧
        eval 2 (call ⟨"y", 2⟩) .root c = .error (.failed error) c := by
  intro p prim type good bad heap c head call
  have hframe : (Heap.empty.alloc none).2.frame? .root = some (.empty none) :=
    Heap.frame?_alloc_self .empty none
  have hdump : c.heap.lookup .root ⟨"dump", 0⟩ = some (.prim prim) := by
    apply Heap.lookup_define_self
    rw [Heap.frame?_define_self, Heap.frame?_define_self, hframe]
    rfl
  have hx : c.heap.lookup .root ⟨"x", 1⟩ = some good := by
    unfold Heap.lookup
    simp [c, heap, Heap.frame?_define_self, hframe, Frame.get?_insert, Slot.ofValue, Slot.value,
      good]
  have hy : c.heap.lookup .root ⟨"y", 2⟩ = some bad := by
    unfold Heap.lookup
    simp [c, heap, Heap.frame?_define_self, hframe, Frame.get?_insert, Slot.ofValue, Slot.value,
      bad]
  have hhead : eval 1 head .root c = .ok (.prim prim) c := by
    change Eval.lookup .root ⟨"dump", 0⟩ c = _
    rw [lookup_eq, hdump]
  have hargs : ∀ symbol value, c.heap.lookup .root symbol = some value → value.isSplat = false →
      evalArgs (eval 1) [.atom (.bool true) p, .atom (.id symbol) p] .root c =
        .ok [.bool true, value] c := by
    intro symbol value hvalue hplain
    have hitem : eval 1 (.atom (.id symbol) p) .root c = .ok value c := by
      change Eval.lookup .root symbol c = _
      rw [lookup_eq, hvalue]
    change EStateM.bind (eval 1 (.atom (.id symbol) p) .root) _ c = _
    unfold EStateM.bind
    rw [hitem]
    cases value <;> first | rfl | cases hplain
  have hprim : prim.IsCore "dump" := ⟨rfl, rfl⟩
  have hcall := fun forms => dump_whole.2.1 1 head forms .root p prim c c hhead hprim
  have hline : Dumps c [.bool true, good] _ := (hcall _).ended _ c (hargs ⟨"x", 1⟩ good hx rfl)
  have hfailed : Dumps c ([.bool true] ++ bad :: []) _ :=
    (hcall _).ended _ c (hargs ⟨"y", 2⟩ bad hy rfl)
  have htexts : List.Forall₂ (fun v text => v.rendering.result = .ok text) [.bool true, good]
      ["T", "Probe(5)"] := .cons rfl (.cons rfl .nil)
  obtain ⟨sinks, hok, htook⟩ := hline.of_texts htexts
  have hnone : ∀ u ∈ [Value.bool true], ∃ text, u.rendering.result = .ok text := by
    simpa using ⟨"T", rfl⟩
  obtain ⟨error, htext, hfail⟩ := (dump_whole.2.2 (.valueRefused "Probe" "negative") c).report rfl
  refine ⟨hhead, hprim, rfl, ⟨sinks, hok, ?_, ?_⟩, by rfl, error, htext, ?_⟩
  · exact htook.own.output rfl
  · rw [htook.others c.diagnostics.sink (by decide)]
    rfl
  · exact (hfailed.of_failed hnone rfl).trans hfail

end Eval

end SplatLisp
