import SplatLisp.Proofs.FrameEffects
import SplatLisp.Proofs.Parallel

/-!
# Two runs side by side

Two computations run from contexts that a relation `C` relates under some links (`Eval.RunsIn`).
Both end with things that `Q` relates, or both stop for the same cause; and `C` relates the contexts
that they end in, where more handles may be linked. What `C` relates has to give symbols related
values, and has to stay related when something is bound, made or written (`Context.Congruence`).
Then evaluation of forms that are alike runs side by side (`parallel_runsIn`).

What two runs have done to their contexts since they started is the same as far as it shows: as many
frames and identities have been made, each linked to the one that the other run has made at the same
time, and the same texts have been written to the sinks (`Context.Grown`). That is kept by every
step, whatever else `C` asks for (`Context.Congruence.since`), so the outcomes cannot be told apart
(`Eval.EndsIn.sameOutcome_of`).
-/

namespace SplatLisp

variable {L M : Links}

/-! ## What two runs have done -/

/-- Two counters have gone on by the same number, and the numbers given out meanwhile are
related. -/
def Counted (r : Nat → Nat → Prop) (n n' m m' : Nat) : Prop :=
  ∃ k, m = n + k ∧ m' = n' + k ∧ ∀ i < k, r (n + i) (n' + i)

theorem Counted.refl (r : Nat → Nat → Prop) (n n' : Nat) : Counted r n n' n n' :=
  ⟨0, rfl, rfl, fun i hi => absurd hi (Nat.not_lt_zero i)⟩

theorem Counted.one {r : Nat → Nat → Prop} {n n' : Nat} (h : r n n') :
    Counted r n n' (n + 1) (n' + 1) := by
  refine ⟨1, rfl, rfl, fun i hi => ?_⟩
  obtain rfl : i = 0 := by omega
  exact h

theorem Counted.trans {r : Nat → Nat → Prop} {n n' m m' l l' : Nat} (h : Counted r n n' m m')
    (h' : Counted r m m' l l') : Counted r n n' l l' := by
  obtain ⟨k, rfl, rfl, hk⟩ := h
  obtain ⟨j, rfl, rfl, hj⟩ := h'
  refine ⟨k + j, by omega, by omega, fun i hi => ?_⟩
  by_cases hik : i < k
  · exact hk i hik
  · have hlast := hj (i - k) (by omega)
    rwa [show n + k + (i - k) = n + i by omega, show n' + k + (i - k) = n' + i by omega] at hlast

theorem Counted.mono {r q : Nat → Nat → Prop} {n n' m m' : Nat} (h : Counted r n n' m m')
    (hrq : ∀ {i j}, r i j → q i j) : Counted q n n' m m' := by
  obtain ⟨k, hm, hm', hk⟩ := h
  exact ⟨k, hm, hm', fun i hi => hrq (hk i hi)⟩

theorem Counted.le {r : Nat → Nat → Prop} {n n' m m' : Nat} (h : Counted r n n' m m') :
    n ≤ m := by
  obtain ⟨k, rfl, -, -⟩ := h
  exact Nat.le_add_right n k

/-- The same text has been written to two sinks. -/
def Sink.Written (s s' t t' : Sink) : Prop := ∃ text, s.Took text t ∧ s'.Took text t'

theorem Sink.Written.refl (s s' : Sink) : Written s s' s s' := ⟨"", .none s, .none s'⟩

theorem Sink.Written.trans {s s' t t' u u' : Sink} (h : Written s s' t t')
    (h' : Written t t' u u') : Written s s' u u' := by
  obtain ⟨text, ht, ht'⟩ := h
  obtain ⟨more, hu, hu'⟩ := h'
  exact ⟨text ++ more, ht.trans hu, ht'.trans hu'⟩

/-- The same texts have been written to two stores of sinks, handle by handle. -/
def Sinks.Written (s s' t t' : Sinks) : Prop :=
  ∀ ref, Sink.Written (s.get ref) (s'.get ref) (t.get ref) (t'.get ref)

theorem Sinks.Written.refl (s s' : Sinks) : Written s s' s s' := fun _ => .refl ..

theorem Sinks.Written.trans {s s' t t' u u' : Sinks} (h : Written s s' t t')
    (h' : Written t t' u u') : Written s s' u u' := fun ref => (h ref).trans (h' ref)

theorem Sinks.written_writeLine (s s' : Sinks) (ref : SinkRef) (text : String) :
    Written s s' (s.writeLine ref text) (s'.writeLine ref text) := by
  intro other
  by_cases h : other = ref
  · subst h
    rw [get_writeLine_self, get_writeLine_self]
    exact ⟨text ++ "\n", Sink.took_write .., Sink.took_write ..⟩
  · rw [get_writeLine_of_ne h, get_writeLine_of_ne h]
    exact .refl ..

/-- What two runs side by side have done to their contexts. -/
structure Context.Grown (L : Links) (c c' d d' : Context) : Prop where
  types : d.types = c.types
  diagnostics : d.diagnostics = c.diagnostics
  out : d.out = c.out
  frames : Counted (fun i i' => L.env ⟨i⟩ ⟨i'⟩) c.heap.frames.size c'.heap.frames.size
    d.heap.frames.size d'.heap.frames.size
  identities : Counted L.identity c.identities c'.identities d.identities d'.identities
  sinks : Sinks.Written c.sinks c'.sinks d.sinks d'.sinks

namespace Context.Grown

variable {c c' d d' e e' : Context}

theorem refl (L : Links) (c c' : Context) : Grown L c c' c c' :=
  ⟨rfl, rfl, rfl, .refl .., .refl .., .refl _ _⟩

theorem mono (h : Grown L c c' d d') (hLM : L ≤ M) : Grown M c c' d d' :=
  ⟨h.types, h.diagnostics, h.out, h.frames.mono hLM.env, h.identities.mono hLM.identity, h.sinks⟩

theorem trans (h : Grown L c c' d d') (h' : Grown L d d' e e') : Grown L c c' e e' :=
  ⟨h'.types.trans h.types, h'.diagnostics.trans h.diagnostics, h'.out.trans h.out,
    h.frames.trans h'.frames, h.identities.trans h'.identities, h.sinks.trans h'.sinks⟩

end Context.Grown

/-- Errors with one place and one message. -/
structure Error.Like (e e' : Error) : Prop where
  pos : e.pos? = e'.pos?
  message : e.message = e'.message

theorem Error.Like.text_eq {e e' : Error} (h : e.Like e') : e.text = e'.text := by
  obtain ⟨hpos, hmessage⟩ := h
  cases e with
  | plain cause =>
    cases e' with
    | plain cause' => exact hmessage
    | read failure' => cases hpos
  | read failure =>
    cases e' with
    | plain cause' => cases hpos
    | read failure' =>
      have hplace : failure.pos = failure'.pos := Option.some.inj hpos
      have hcause : failure.cause.message = failure'.cause.message := hmessage
      change _ ++ failure.pos.text ++ _ ++ failure.cause.message = _
      rw [hplace, hcause]
      rfl

inductive Stop.Like : Stop → Stop → Prop
  | failed {e e' : Error} (h : e.Like e') : Like (.failed e) (.failed e')
  | aborted (text : String) : Like (.aborted text) (.aborted text)
  | exhausted : Like .exhausted .exhausted
  | broken : Like .broken .broken

/-! ## Related contexts -/

/-- `C` relates contexts that give linked symbols values related by `V`, and stays when related
values are bound, when texts are written, and when frames and identities are made, which it may
link. -/
structure Context.Congruence (V : Links → Value → Value → Prop)
    (C : Links → Context → Context → Prop) : Prop where
  types : ∀ {L : Links} {c c' : Context}, C L c c' → c.types = c'.types
  diagnostics : ∀ {L : Links} {c c' : Context}, C L c c' → c.diagnostics = c'.diagnostics
  out : ∀ {L : Links} {c c' : Context}, C L c c' → c.out = c'.out
  write : ∀ {L : Links} {c c' : Context} {ref ref' : SinkRef}, C L c c' → ref = ref' →
    ∀ text : String, C L { c with sinks := c.sinks.writeLine ref text }
      { c' with sinks := c'.sinks.writeLine ref' text }
  lookup : ∀ {L : Links} {c c' : Context} {env env' : Env} {s s' : Symbol}, C L c c' →
    L.env env env' → L.symbol s s' →
    Option.Rel (V L) (c.heap.lookup env s) (c'.heap.lookup env' s')
  define : ∀ {L : Links} {c c' : Context} {env env' : Env} {s s' : Symbol} {value value' : Value},
    C L c c' → L.env env env' → L.symbol s s' → V L value value' →
    C L { c with heap := c.heap.define env s value }
      { c' with heap := c'.heap.define env' s' value' }
  alloc : ∀ {L : Links} {c c' : Context} {parent parent' : Option Env}, C L c c' →
    Option.Rel L.env parent parent' →
    ∃ M, L ≤ M ∧ M.env ⟨c.heap.frames.size⟩ ⟨c'.heap.frames.size⟩ ∧
      C M { c with heap := (c.heap.alloc parent).2 } { c' with heap := (c'.heap.alloc parent').2 }
  fresh : ∀ {L : Links} {c c' : Context}, C L c c' →
    ∃ M, L ≤ M ∧ M.identity c.identities c'.identities ∧
      C M { c with identities := c.identities + 1 } { c' with identities := c'.identities + 1 }

/-- Contexts that `C` relates, of two runs that have gone side by side since they started from
others. -/
def Context.Since (C : Links → Context → Context → Prop) (b b' : Context) (L : Links)
    (c c' : Context) : Prop := C L c c' ∧ Grown L b b' c c'

/-- **Two runs keep doing the same as far as it shows**, whatever else relates their contexts. -/
theorem Context.Congruence.since {V : Links → Value → Value → Prop}
    {C : Links → Context → Context → Prop} (h : Congruence V C) (b b' : Context) :
    Congruence V (Since C b b') where
  types hc := h.types hc.1
  diagnostics hc := h.diagnostics hc.1
  out hc := h.out hc.1
  write {L c c' ref ref'} hc href text := by
    subst href
    refine ⟨h.write hc.1 rfl text, hc.2.trans ⟨rfl, rfl, rfl, .refl .., .refl .., ?_⟩⟩
    exact Sinks.written_writeLine _ _ ref text
  lookup hc := h.lookup hc.1
  define hc henv hs hvalue := by
    refine ⟨h.define hc.1 henv hs hvalue, hc.2.trans ⟨rfl, rfl, rfl, ?_, .refl .., .refl _ _⟩⟩
    rw [Heap.size_define, Heap.size_define]
    exact .refl ..
  alloc {L c c' parent parent'} hc hparent := by
    obtain ⟨M, hLM, hlink, hd⟩ := h.alloc hc.1 hparent
    refine ⟨M, hLM, hlink, hd, (hc.2.mono hLM).trans ⟨rfl, rfl, rfl, ?_, .refl .., .refl _ _⟩⟩
    rw [Heap.size_alloc, Heap.size_alloc]
    exact .one hlink
  fresh hc := by
    obtain ⟨M, hLM, hlink, hd⟩ := h.fresh hc.1
    refine ⟨M, hLM, hlink, hd, (hc.2.mono hLM).trans ?_⟩
    exact ⟨rfl, rfl, rfl, .refl .., .one hlink, .refl _ _⟩

namespace Eval

variable {α β : Type} {V : Links → Value → Value → Prop} {C : Links → Context → Context → Prop}

/-! ## Runs -/

/-- How two runs side by side end. -/
inductive EndsIn (C : Links → Context → Context → Prop) (L : Links) (Q : Links → α → α → Prop) :
    EStateM.Result Stop Context α → EStateM.Result Stop Context α → Prop
  | ok {M : Links} {a a' : α} {d d' : Context} (hLM : L ≤ M) (hQ : Q M a a') (hd : C M d d') :
    EndsIn C L Q (.ok a d) (.ok a' d')
  | error {M : Links} {stop stop' : Stop} {d d' : Context} (hLM : L ≤ M) (hstop : stop.Like stop')
    (hd : C M d d') : EndsIn C L Q (.error stop d) (.error stop' d')

/-- Links that are made later on are made nevertheless. -/
theorem EndsIn.mono {Q : Links → α → α → Prop} {r r' : EStateM.Result Stop Context α}
    (h : EndsIn C M Q r r') (hLM : L ≤ M) : EndsIn C L Q r r' := by
  cases h with
  | ok hMN hQ he => exact .ok (le_trans hLM hMN) hQ he
  | error hMN hstop he => exact .error (le_trans hLM hMN) hstop he

/-- Whether two computations run side by side from contexts that `C` relates. -/
def RunsIn (C : Links → Context → Context → Prop) (L : Links) (Q : Links → α → α → Prop)
    (x x' : Eval α) : Prop :=
  ∀ c c' : Context, C L c c' → EndsIn C L Q (x c) (x' c')

/-- What two runs side by side lead to, however they end. -/
theorem RunsIn.exists_after {Q : Links → α → α → Prop} {x x' : Eval α} (h : RunsIn C L Q x x')
    {c c' : Context} (hc : C L c c') : ∃ M, L ≤ M ∧ C M (x.after c) (x'.after c') := by
  have hends := h c c' hc
  unfold Eval.after
  generalize x c = result at hends ⊢
  generalize x' c' = result' at hends ⊢
  cases hends with
  | ok hLM _ hd => exact ⟨_, hLM, hd⟩
  | error hLM _ hd => exact ⟨_, hLM, hd⟩

theorem RunsIn.pure {Q : Links → α → α → Prop} {a a' : α} (hQ : Q L a a') :
    RunsIn C L Q (Pure.pure a) (Pure.pure a') :=
  fun _ _ hc => .ok le_rfl hQ hc

theorem RunsIn.throw {Q : Links → α → α → Prop} {stop stop' : Stop} (h : stop.Like stop') :
    RunsIn C L Q (MonadExcept.throw stop) (MonadExcept.throw stop') :=
  fun _ _ hc => .error le_rfl h hc

theorem RunsIn.bind {P : Links → α → α → Prop} {Q : Links → β → β → Prop} {x x' : Eval α}
    {f f' : α → Eval β} (hx : RunsIn C L P x x')
    (hf : ∀ M, L ≤ M → ∀ a a', P M a a' → RunsIn C M Q (f a) (f' a')) :
    RunsIn C L Q (x >>= f) (x' >>= f') := by
  intro c c' hc
  have hends := hx c c' hc
  change EndsIn C L Q (EStateM.bind x f c) (EStateM.bind x' f' c')
  unfold EStateM.bind
  generalize x c = result at hends
  generalize x' c' = result' at hends
  cases hends with
  | error hLM hstop hd => exact .error hLM hstop hd
  | @ok M a a' d d' hLM hP hd => exact (hf M hLM a a' hP d d' hd).mono hLM

section Steps

variable (hC : Context.Congruence V C) {env env' : Env} {s s' : Symbol} {value value' : Value}

include hC

/-- Errors are delivered alike, as the policy and the handle are the same. -/
theorem RunsIn.raise {Q : Links → α → α → Prop} {e e' : Error} (h : e.Like e') :
    RunsIn C L Q (Eval.raise e) (Eval.raise e') := by
  intro c c' hc
  have hdiagnostics := hC.diagnostics hc
  have hsink := congrArg Diagnostics.sink hdiagnostics
  rw [raise_eq, raise_eq, ← congrArg Diagnostics.policy hdiagnostics, ← h.text_eq]
  cases c.diagnostics.policy with
  | report => exact .error le_rfl (.failed h) hc
  | abort => exact .error le_rfl (.aborted e.text) (hC.write hc hsink e.text)

theorem RunsIn.fail {Q : Links → α → α → Prop} {cause cause' : Cause} (h : cause.Like L cause') :
    RunsIn C L Q (Eval.fail cause) (Eval.fail cause') :=
  RunsIn.raise hC ⟨rfl, congrArg ("Error: " ++ ·) h.message_eq⟩

theorem RunsIn.lookup (henv : L.env env env') (hs : L.symbol s s') :
    RunsIn C L V (Eval.lookup env s) (Eval.lookup env' s') := by
  intro c c' hc
  rw [lookup_eq, lookup_eq]
  have hrel := hC.lookup hc henv hs
  cases hvalue : c.heap.lookup env s with
  | none =>
    rw [eq_none_of_rel hrel hvalue]
    exact RunsIn.fail hC (.unknownId hs) c c' hc
  | some value =>
    obtain ⟨value', hvalue', hV⟩ := exists_of_rel hrel hvalue
    rw [hvalue']
    exact .ok le_rfl hV hc

theorem RunsIn.typeOf {Q : Links → Value → Value → Prop} (h : value.Corresponds L value')
    (htype : ∀ t, Q L (.type t) (.type t)) :
    RunsIn C L Q (do return Value.type ((← get).types.typeOf value))
      (do return Value.type ((← get).types.typeOf value')) := by
  intro c c' hc
  have heq : c.types.typeOf value = c'.types.typeOf value' := by
    rw [← hC.types hc, h.typeOf_eq]
  change EndsIn C L Q (.ok (.type (c.types.typeOf value)) c)
    (.ok (.type (c'.types.typeOf value')) c')
  rw [heq]
  exact .ok le_rfl (htype _) hc

theorem RunsIn.writeLine (text : String) :
    RunsIn C L (fun _ _ _ => True) (Eval.writeLine text) (Eval.writeLine text) :=
  fun _ _ hc => .ok le_rfl trivial (hC.write hc (hC.out hc) text)

theorem RunsIn.define (henv : L.env env env') (hs : L.symbol s s') (h : V L value value') :
    RunsIn C L (fun _ _ _ => True) (Eval.define env s value) (Eval.define env' s' value') :=
  fun _ _ hc => .ok le_rfl trivial (hC.define hc henv hs h)

/-- New frames are linked. -/
theorem RunsIn.alloc {parent parent' : Option Env} (hparent : Option.Rel L.env parent parent') :
    RunsIn C L Links.env (Eval.alloc parent) (Eval.alloc parent') := by
  intro c c' hc
  obtain ⟨M, hLM, hlink, hd⟩ := hC.alloc hc hparent
  exact .ok hLM hlink hd

/-- New identities are linked. -/
theorem RunsIn.fresh : RunsIn C L Links.identity Eval.fresh Eval.fresh := by
  intro c c' hc
  obtain ⟨M, hLM, hlink, hd⟩ := hC.fresh hc
  exact .ok hLM hlink hd

end Steps

/-- Whether primitives of the surrounding program run side by side, if evaluation does. -/
def HostsRunIn [HostPrims] (V : Links → Value → Value → Prop)
    (C : Links → Context → Context → Prop) : Prop :=
  ∀ {ev ev' : Evaluator},
    (∀ {L : Links} {form form' : Form} {env env' : Env}, form.Like L.symbol L.pos form' →
      L.env env env' → RunsIn C L V (ev form env) (ev' form' env')) →
    ∀ {L : Links} {env env' : Env} (code : Nat) {forms forms' : List Form},
      List.Forall₂ (Form.Like L.symbol L.pos) forms forms' → L.env env env' →
      RunsIn C L V (HostPrims.run code ev forms env) (HostPrims.run code ev' forms' env')

open scoped CoreOnly in
/-- Where there are no such primitives, they do. -/
theorem hostsRunIn_coreOnly : HostsRunIn V C := fun _ _ _ _ _ _ _ _ _ => RunsIn.throw .broken

end Eval

open Eval

/-- **All that evaluation consists of runs side by side** on things that are alike. -/
theorem parallel_runsIn [HostPrims] {V : Links → Value → Value → Prop}
    {I : Links → List Value → List Value → Prop} {C : Links → Context → Context → Prop}
    (hV : Value.Congruence V I) (hC : Context.Congruence V C) (hhost : HostsRunIn V C) :
    Parallel V I fun L _ Q x x' => RunsIn C L Q x x' where
  values := hV
  pure := RunsIn.pure
  bind := RunsIn.bind
  fail := RunsIn.fail hC
  exhausted := RunsIn.throw .exhausted
  broken := RunsIn.throw .broken
  lookup := RunsIn.lookup hC
  fresh := RunsIn.fresh hC
  typeOf h := RunsIn.typeOf hC (hV.corresponds h) fun t => hV.leaf (.type t)
  writeLine := RunsIn.writeLine hC
  define := RunsIn.define hC
  child henv := RunsIn.alloc hC (.some henv)
  host := hhost

/-! ## Outcomes -/

/-- The sink for output. -/
def Context.outSink (c : Context) : Sink := c.sinks.get c.out

namespace Eval

/-- Outcomes of two runs that cannot be told apart: values with one rendering, one type and one
truth value, or stops for one cause; and the same text has been written to the outputs. -/
inductive SameOutcome (c c' : Context) :
    EStateM.Result Stop Context Value → EStateM.Result Stop Context Value → Prop
  | value {v v' : Value} {d d' : Context} (hrendering : v.rendering = v'.rendering)
    (htype : d.types.typeOf v = d'.types.typeOf v') (htruthy : v.truthy = v'.truthy)
    (hout : Sink.Written c.outSink c'.outSink d.outSink d'.outSink) :
    SameOutcome c c' (.ok v d) (.ok v' d')
  | stop {stop stop' : Stop} {d d' : Context} (hstop : stop.Like stop')
    (hout : Sink.Written c.outSink c'.outSink d.outSink d'.outSink) :
    SameOutcome c c' (.error stop d) (.error stop' d')

/-- Runs side by side from contexts with one output have outcomes that cannot be told apart. -/
theorem EndsIn.sameOutcome_of {V : Links → Value → Value → Prop}
    {C : Links → Context → Context → Prop} (hV : ∀ {M v v'}, V M v v' → v.Corresponds M v')
    (hC : Context.Congruence V C) {c c' : Context} (hstart : c.out = c'.out)
    {r r' : EStateM.Result Stop Context Value} (h : EndsIn (Context.Since C c c') L V r r') :
    SameOutcome c c' r r' := by
  have hout : ∀ {M d d'}, Context.Since C c c' M d d' →
      Sink.Written c.outSink c'.outSink d.outSink d'.outSink := by
    intro M d d' hd
    have hwritten := hd.2.sinks c.out
    unfold Context.outSink
    rw [← hC.out hd.1, hd.2.out, ← hstart]
    exact hwritten
  cases h with
  | error _ hstop hd => exact .stop hstop (hout hd)
  | @ok M v v' d d' _ hvalue hd =>
    have hvalue := hV hvalue
    refine .value hvalue.rendering_eq ?_ hvalue.truthy_eq (hout hd)
    rw [hC.types hd.1, hvalue.typeOf_eq]

end Eval

end SplatLisp
