import Mathlib.Data.List.Induction
import SplatLisp.Proofs.FrameEffects

/-!
# Arguments are bound exactly once

A function that gets too few arguments, or too many, is refused before anything is done. Otherwise
its body is evaluated in one new frame, a child of the environment that the function closes over,
which binds the arguments and nothing else: the first of them to the parameters in order, so that a
parameter that occurs twice keeps the later argument, and all others, as a vector, to the rest
parameter, which wins over a parameter of its name (`Fun.Binds`).

A primitive is refused by the number of its argument forms, which are evaluated, if at all, when it
runs. `Eval.calls_exact` says both.
-/

namespace SplatLisp

/-- Whether a function does not take a number of arguments. -/
def Fun.Refuses (fn : Fun) (given : Nat) : Prop :=
  given < fn.params.length ∨ fn.rest.isNone ∧ fn.params.length < given

instance (fn : Fun) (given : Nat) : Decidable (fn.Refuses given) :=
  inferInstanceAs (Decidable (_ ∨ _))

/-- What a function binds a symbol to, of arguments that go to its parameters and those that are
left over: the rest parameter to a vector of the latter, any other parameter to the argument at the
last place where it occurs. -/
inductive Fun.Binds (fn : Fun) (bound more : List Value) (s : Symbol) : Value → Prop
  | rest {r : Symbol} (hr : r ∈ fn.rest) (htag : r.tag = s.tag) : Binds fn bound more s (.vec more)
  | param {i : Nat} {p : Symbol} {v : Value} (hrest : ∀ r ∈ fn.rest, r.tag ≠ s.tag)
    (hp : fn.params[i]? = some p) (htag : p.tag = s.tag) (hv : bound[i]? = some v)
    (hlast : ∀ j q, i < j → fn.params[j]? = some q → q.tag ≠ s.tag) : Binds fn bound more s v

/-- Whether a heap is another one with one frame more, which is the frame of a call. -/
structure Heap.Entered (old : Heap) (closure : Closure) (bound more : List Value) (frame : Env)
    (new : Heap) : Prop where
  fresh : frame.index = old.frames.size
  size : new.frames.size = old.frames.size + 1
  kept : ∀ e ≠ frame, new.frame? e = old.frame? e
  own : ∃ f, new.frame? frame = some f ∧ f.parent = some closure.env ∧
    ∀ s v, (f.get? s).map (Slot.value frame) = some v ↔ closure.fn.Binds bound more s v

/-- Whether a primitive takes a number of argument forms. -/
def Prim.Takes (prim : Prim) (given : Nat) : Prop :=
  prim.minArgs ≤ given ∧ ∀ max ∈ prim.maxArgs, given ≤ max

instance (prim : Prim) (given : Nat) : Decidable (prim.Takes given) :=
  inferInstanceAs (Decidable (_ ∧ _))

/-! ## Counts -/

theorem checkCount_of_takes {min given : Nat} {max : Option Nat}
    (h : min ≤ given ∧ ∀ m ∈ max, given ≤ m) (callee : Value) :
    checkCount callee min max given = pure () := by
  obtain ⟨hmin, hmax⟩ := h
  unfold checkCount
  rw [if_neg]
  cases max with
  | none => simp [hmin]
  | some m =>
    have hm : given ≤ m := hmax m rfl
    simp [hmin, hm]

theorem checkCount_of_not_takes {min given : Nat} {max : Option Nat}
    (h : ¬ (min ≤ given ∧ ∀ m ∈ max, given ≤ m)) (callee : Value) :
    checkCount callee min max given = Eval.fail (.wrongCount callee min max given) := by
  unfold checkCount
  rw [if_pos]
  cases max with
  | none => simpa using h
  | some m =>
    simp only [Option.mem_some_iff, forall_eq', Option.any_some, decide_eq_true_eq] at h ⊢
    omega

theorem Fun.refuses_iff {fn : Fun} {given : Nat} :
    fn.Refuses given ↔ ¬ (fn.minArgs ≤ given ∧ ∀ max ∈ fn.maxArgs, given ≤ max) := by
  unfold Refuses minArgs maxArgs
  cases fn.rest with
  | none => simp; omega
  | some r => simp

/-! ## Frames of calls -/

namespace Heap

/-- Binds symbols one after the other. -/
def defineAll (heap : Heap) (env : Env) (bindings : List (Symbol × Value)) : Heap :=
  bindings.foldl (fun heap binding => heap.define env binding.1 binding.2) heap

@[simp] theorem defineAll_nil (heap : Heap) (env : Env) : heap.defineAll env [] = heap := rfl

@[simp] theorem defineAll_cons (heap : Heap) (env : Env) (binding : Symbol × Value)
    (bindings : List (Symbol × Value)) : heap.defineAll env (binding :: bindings) =
      (heap.define env binding.1 binding.2).defineAll env bindings := rfl

theorem defineAll_append (heap : Heap) (env : Env) (bindings more : List (Symbol × Value)) :
    heap.defineAll env (bindings ++ more) = (heap.defineAll env bindings).defineAll env more :=
  List.foldl_append

@[simp] theorem size_defineAll (heap : Heap) (env : Env) (bindings : List (Symbol × Value)) :
    (heap.defineAll env bindings).frames.size = heap.frames.size := by
  induction bindings generalizing heap with
  | nil => rfl
  | cons binding bindings ih => simp [ih]

theorem frame?_defineAll_of_ne {env other : Env} (h : env ≠ other) (heap : Heap)
    (bindings : List (Symbol × Value)) :
    (heap.defineAll other bindings).frame? env = heap.frame? env := by
  induction bindings generalizing heap with
  | nil => rfl
  | cons binding bindings ih => rw [defineAll_cons, ih, frame?_define_of_ne h]

/-- Whether a value is the last one that bindings give a symbol, at a place among them. -/
def LastAt (bindings : List (Symbol × Value)) (s : Symbol) (v : Value) (i : Nat) : Prop :=
  ∃ symbol, bindings[i]? = some (symbol, v) ∧ symbol.tag = s.tag ∧
    ∀ j later, i < j → bindings[j]? = some later → later.1.tag ≠ s.tag

theorem getElem?_append_last {α : Type} {items : List α} {last x : α} {i : Nat} :
    (items ++ [last])[i]? = some x ↔ items[i]? = some x ∨ (i = items.length ∧ last = x) := by
  rcases Nat.lt_trichotomy i items.length with hlt | rfl | hgt
  · simp [List.getElem?_append_left hlt, Nat.ne_of_lt hlt]
  · simp
  · have hle := Nat.le_of_lt hgt
    have hsub : i - items.length ≠ 0 := Nat.sub_ne_zero_of_lt hgt
    simp [List.getElem?_append_right hle, hle, Nat.ne_of_gt hgt, hsub]

theorem exists_lastAt_append {bindings : List (Symbol × Value)} {last : Symbol × Value}
    {s : Symbol} {v : Value} :
    (∃ i, LastAt (bindings ++ [last]) s v i) ↔
      if last.1.tag = s.tag then last.2 = v else ∃ i, LastAt bindings s v i := by
  unfold LastAt
  simp only [getElem?_append_last]
  split
  · next htag =>
    constructor
    · rintro ⟨i, symbol, hi | ⟨rfl, rfl⟩, -, hlast⟩
      · obtain ⟨hlt, -⟩ := List.getElem?_eq_some_iff.1 hi
        exact absurd htag (hlast _ last hlt (.inr ⟨rfl, rfl⟩))
      · rfl
    · rintro rfl
      refine ⟨bindings.length, last.1, .inr ⟨rfl, rfl⟩, htag, fun j later hj hlater => ?_⟩
      rcases hlater with hlater | ⟨rfl, -⟩
      · exact absurd (List.getElem?_eq_some_iff.1 hlater).1 (Nat.lt_asymm hj)
      · exact absurd hj (Nat.lt_irrefl _)
  · next htag =>
    constructor
    · rintro ⟨i, symbol, hi | ⟨-, rfl⟩, hs, hlast⟩
      · exact ⟨i, symbol, hi, hs, fun j later hj hlater => hlast j later hj (.inl hlater)⟩
      · exact absurd hs htag
    · rintro ⟨i, symbol, hi, hs, hlast⟩
      refine ⟨i, symbol, .inl hi, hs, fun j later hj hlater => ?_⟩
      rcases hlater with hlater | ⟨-, rfl⟩
      · exact hlast j later hj hlater
      · exact htag

/-- Bindings made one after the other in a new frame: the last one of a symbol holds, and nothing
else is bound. -/
theorem exists_frame?_defineAll {heap : Heap} {env : Env} {parent : Option Env}
    (h : heap.frame? env = some (.empty parent)) (bindings : List (Symbol × Value)) :
    ∃ frame, (heap.defineAll env bindings).frame? env = some frame ∧ frame.parent = parent ∧
      ∀ s v, (frame.get? s).map (Slot.value env) = some v ↔ ∃ i, LastAt bindings s v i := by
  -- The induction is on the bindings from the last one on, which is the one that holds.
  induction bindings using List.reverseRecOn with
  | nil => exact ⟨.empty parent, h, rfl, by simp [LastAt]⟩
  | append_singleton bindings last ih =>
    obtain ⟨frame, hframe, hparent, hget⟩ := ih
    refine ⟨frame.insert last.1 (.ofValue env last.2), ?_, hparent, fun s v => ?_⟩
    · rw [defineAll_append, defineAll_cons, defineAll_nil, frame?_define_self, hframe]
      rfl
    · rw [Frame.get?_insert, exists_lastAt_append]
      by_cases htag : last.1.tag = s.tag
      · simp [htag]
      · simp [htag, hget]

end Heap

namespace Eval

/-- The arguments that go to parameters are bound in order, and the others are handed back. -/
theorem bindParams_append (frame : Env) {params : List Symbol} {bound : List Value}
    (h : params.length = bound.length) (more : List Value) (c : Context) :
    bindParams frame params (bound ++ more) c =
      .ok more { c with heap := c.heap.defineAll frame (params.zip bound) } := by
  induction params generalizing bound c with
  | nil =>
    cases bound with
    | nil => rfl
    | cons arg bound => simp at h
  | cons param params ih =>
    cases bound with
    | nil => simp at h
    | cons arg bound =>
      have hlength : params.length = bound.length := by simpa using h
      exact ih hlength { c with heap := c.heap.define frame param arg }

end Eval

/-! ## Bindings of parameters -/

namespace Fun

variable {fn : Fun} {bound more : List Value} {s : Symbol} {v : Value}

/-- The last place of a symbol among the parameters is the last one among their bindings. -/
theorem lastAt_zip_iff (h : fn.params.length = bound.length) :
    (∃ i, Heap.LastAt (fn.params.zip bound) s v i) ↔
      ∃ i, ∃ p : Symbol, fn.params[i]? = some p ∧ p.tag = s.tag ∧ bound[i]? = some v ∧
        ∀ (j : Nat) (q : Symbol), i < j → fn.params[j]? = some q → q.tag ≠ s.tag := by
  refine exists_congr fun i => exists_congr fun p => ?_
  rw [List.getElem?_zip_eq_some]
  constructor
  · rintro ⟨⟨hp, hv⟩, htag, hlast⟩
    refine ⟨hp, htag, hv, fun j q hj hq => ?_⟩
    -- Every parameter has an argument, so the later occurrence is among the bindings too.
    have hlt : j < bound.length := h ▸ (List.getElem?_eq_some_iff.1 hq).1
    exact hlast j (q, bound[j]) hj
      (List.getElem?_zip_eq_some.2 ⟨hq, List.getElem?_eq_getElem hlt⟩)
  · rintro ⟨hp, htag, hv, hlast⟩
    refine ⟨⟨hp, hv⟩, htag, fun j later hj hlater => ?_⟩
    exact hlast j later.1 hj (List.getElem?_zip_eq_some.1 hlater).1

/-- Without a rest parameter the last occurrence of a parameter decides. -/
theorem binds_iff_of_rest_none (hrest : fn.rest = none) (h : fn.params.length = bound.length) :
    fn.Binds bound more s v ↔ ∃ i, Heap.LastAt (fn.params.zip bound) s v i := by
  rw [lastAt_zip_iff h]
  constructor
  · intro hb
    cases hb with
    | rest hr => simp [hrest] at hr
    | param _ hp htag hv hlast => exact ⟨_, _, hp, htag, hv, hlast⟩
  · rintro ⟨i, p, hp, htag, hv, hlast⟩
    exact .param (by simp [hrest]) hp htag hv hlast

/-- The rest parameter is bound last, so it wins over a parameter of its name. -/
theorem binds_iff_of_rest_some {r : Symbol} (hrest : fn.rest = some r)
    (h : fn.params.length = bound.length) :
    fn.Binds bound more s v ↔
      if r.tag = s.tag then .vec more = v
      else ∃ i, Heap.LastAt (fn.params.zip bound) s v i := by
  by_cases htag : r.tag = s.tag
  · rw [if_pos htag]
    constructor
    · intro hb
      cases hb with
      | rest => rfl
      | param hne => exact absurd htag (hne r hrest)
    · rintro rfl
      exact .rest hrest htag
  · rw [if_neg htag, lastAt_zip_iff h]
    constructor
    · intro hb
      cases hb with
      | rest hr ht =>
        rw [hrest, Option.mem_some_iff] at hr
        exact absurd (hr ▸ ht) htag
      | param _ hp ht hv hlast => exact ⟨_, _, hp, ht, hv, hlast⟩
    · rintro ⟨i, p, hp, ht, hv, hlast⟩
      refine .param (fun q hq => ?_) hp ht hv hlast
      rw [hrest, Option.mem_some_iff] at hq
      exact hq ▸ htag

end Fun

namespace Heap

/-- A new frame in which the parameters are bound, and then the rest parameter, is the frame of the
call. -/
theorem entered_defineAll (heap : Heap) {closure : Closure} {bound more : List Value}
    (h : closure.fn.params.length = bound.length) :
    heap.Entered closure bound more ⟨heap.frames.size⟩
      (((heap.alloc (some closure.env)).2.defineAll ⟨heap.frames.size⟩
        (closure.fn.params.zip bound)).defineAll ⟨heap.frames.size⟩
          (closure.fn.rest.toList.map (·, .vec more))) := by
  obtain ⟨frame, hframe, hparent, hget⟩ := exists_frame?_defineAll
    (frame?_alloc_self heap (some closure.env)) (closure.fn.params.zip bound)
  refine ⟨rfl, by simp, fun e he => ?_, ?_⟩
  · rw [frame?_defineAll_of_ne he, frame?_defineAll_of_ne he, frame?_alloc_eq, if_neg]
    exact fun hindex => he (by cases e; simp_all)
  · cases hrest : closure.fn.rest with
    | none =>
      refine ⟨frame, hframe, hparent, fun s v => ?_⟩
      rw [Fun.binds_iff_of_rest_none hrest h]
      exact hget s v
    | some r =>
      refine ⟨frame.insert r (.ofValue ⟨heap.frames.size⟩ (.vec more)), ?_, hparent, fun s v => ?_⟩
      · change (define _ _ r (.vec more)).frame? _ = _
        rw [frame?_define_self]
        exact congrArg _ hframe
      · rw [Fun.binds_iff_of_rest_some hrest h, Frame.get?_insert]
        by_cases htag : r.tag = s.tag
        · simp [htag]
        · rw [if_neg htag, if_neg htag]
          exact hget s v

end Heap

/-! ## Calls -/

namespace Eval

/-- What a function does that takes its arguments: they are split in two, the frame of the call is
made, and the body is evaluated there. -/
theorem applyClosure_of_not_refuses {closure : Closure} {args : List Value}
    (h : ¬ closure.fn.Refuses args.length) (c : Context) :
    ∃ bound more frame new, args = bound ++ more ∧ closure.fn.params.length = bound.length ∧
      (closure.fn.rest = none → more = []) ∧ c.heap.Entered closure bound more frame new ∧
      ∀ ev callee, applyClosure ev callee closure args c =
        evalForms ev closure.fn.body frame { c with heap := new } := by
  have hcount := not_not.1 (mt Fun.refuses_iff.2 h)
  obtain ⟨hmin, hmax⟩ := not_or.1 h
  have hlength : closure.fn.params.length = (args.take closure.fn.params.length).length := by
    rw [List.length_take]
    omega
  refine ⟨args.take closure.fn.params.length, args.drop closure.fn.params.length, _, _,
    (List.take_append_drop ..).symm, hlength, fun hrest => ?_,
    c.heap.entered_defineAll hlength, fun ev callee => ?_⟩
  · rw [List.drop_eq_nil_iff]
    exact Nat.le_of_not_lt fun hlt => hmax ⟨by rw [hrest]; rfl, hlt⟩
  · unfold applyClosure
    rw [checkCount_of_takes hcount]
    -- The frame is made, and the parameters are bound in it.
    have hbind := bindParams_append ⟨c.heap.frames.size⟩ hlength
      (args.drop closure.fn.params.length)
      { c with heap := (c.heap.alloc (some closure.env)).2 }
    rw [List.take_append_drop] at hbind
    change EStateM.bind (bindParams ⟨c.heap.frames.size⟩ closure.fn.params args) _
      { c with heap := (c.heap.alloc (some closure.env)).2 } = _
    unfold EStateM.bind
    rw [hbind]
    cases closure.fn.rest <;> rfl

/-- A function that does not take its arguments runs nothing. -/
theorem applyClosure_of_refuses {closure : Closure} {args : List Value}
    (h : closure.fn.Refuses args.length) (ev : Evaluator) (callee : Value) (c : Context) :
    applyClosure ev callee closure args c =
      Eval.fail (.wrongCount callee closure.fn.minArgs closure.fn.maxArgs args.length) c := by
  unfold applyClosure
  rw [checkCount_of_not_takes (Fun.refuses_iff.1 h)]
  rfl

section Hosted

variable [HostPrims]

/-- A call that makes its frame is not mistaken for one that is refused: the frame stays. -/
theorem evalForms_entered_ne_fail {bound : Nat} {closure : Closure} {taken more : List Value}
    {frame : Env} {new : Heap} {c : Context} (h : c.heap.Entered closure taken more frame new)
    (forms : List Form) (cause : Cause) :
    evalForms (eval bound) forms frame { c with heap := new } ≠ Eval.fail cause c := by
  intro heq
  have hkept := inherited_keepsFrames.evalForms (inherited_keepsFrames.eval bound) frame forms
    { c with heap := new }
  unfold after at hkept
  rw [heq] at hkept
  -- After the failure the heap is the one before the call, which had one frame less.
  have hold : new.frames.size ≤ c.heap.frames.size := hkept
  have hsize := h.size
  omega

/-- What the application of a function to arguments does in a context. -/
structure Applied (bound : Nat) (callee : Value) (closure : Closure) (args : List Value)
    (c : Context) : Prop where
  /-- It stops at once with the error about the number of arguments, with all frames as they were,
  exactly if the function refuses that number. -/
  refused : applyClosure (eval bound) callee closure args c =
      Eval.fail (.wrongCount callee closure.fn.minArgs closure.fn.maxArgs args.length) c ↔
    closure.fn.Refuses args.length
  /-- A refusal leaves everything but what sinks hold as it was. -/
  untouched : closure.fn.Refuses args.length → ∃ stop sinks,
    applyClosure (eval bound) callee closure args c = .error stop { c with sinks }
  /-- Otherwise the body is evaluated in the frame of the call, and nothing is done before. -/
  entered : ¬ closure.fn.Refuses args.length → ∃ taken more frame new, args = taken ++ more ∧
    taken.length = closure.fn.params.length ∧ (closure.fn.rest = none → more = []) ∧
    c.heap.Entered closure taken more frame new ∧
    applyClosure (eval bound) callee closure args c =
      evalForms (eval bound) closure.fn.body frame { c with heap := new }

theorem applied (bound : Nat) (callee : Value) (closure : Closure) (args : List Value)
    (c : Context) : Applied bound callee closure args c := by
  refine ⟨⟨fun heq => ?_, fun h => applyClosure_of_refuses h _ callee c⟩,
    fun h => ⟨_, _, applyClosure_of_refuses h _ callee c⟩, fun h => ?_⟩
  · by_contra h
    obtain ⟨taken, more, frame, new, -, -, -, hentered, hbody⟩ := applyClosure_of_not_refuses h c
    rw [hbody] at heq
    exact evalForms_entered_ne_fail hentered _ _ heq
  · obtain ⟨taken, more, frame, new, hargs, hlength, hrest, hentered, hbody⟩ :=
      applyClosure_of_not_refuses h c
    exact ⟨taken, more, frame, new, hargs, hlength.symm, hrest, hentered, hbody _ callee⟩

/-- The call of a primitive goes on with the context that its head leaves, and with the argument
forms as they are, if the primitive takes so many. -/
theorem evalStep_prim {ev : Evaluator} {head : Form} {env : Env} {c d : Context} {prim : Prim}
    (hhead : ev head env c = .ok (.prim prim) d) (forms : List Form) (pos : Pos) :
    evalStep ev (.group .round (head :: forms) pos) env c =
      if prim.Takes forms.length then runPrim ev prim.op forms env d
      else Eval.fail (.wrongCount (.prim prim) prim.minArgs prim.maxArgs forms.length) d := by
  have hcall : evalStep ev (.group .round (head :: forms) pos) env c =
      (do
        checkCount (.prim prim) prim.minArgs prim.maxArgs forms.length
        runPrim ev prim.op forms env) d := by
    change EStateM.bind (ev head env) _ c = _
    unfold EStateM.bind
    rw [hhead]
  rw [hcall]
  split
  · next htakes =>
    rw [checkCount_of_takes htakes]
    rfl
  · next htakes =>
    rw [checkCount_of_not_takes htakes]
    rfl

/-- **Calls take their arguments exactly once.** A function refuses a number of values, and then
does nothing, or evaluates its body in one new frame that binds these values and nothing else
(`Applied`). A primitive is carried out exactly if it takes the number of its argument forms;
otherwise none of the forms is evaluated, whatever evaluator there is for them. -/
theorem calls_exact :
    (∀ bound callee closure args c, Applied bound callee closure args c) ∧
    ∀ (ev : Evaluator) head forms pos env prim c d, ev head env c = .ok (.prim prim) d →
      evalStep ev (.group .round (head :: forms) pos) env c =
        if prim.Takes forms.length then runPrim ev prim.op forms env d
        else Eval.fail (.wrongCount (.prim prim) prim.minArgs prim.maxArgs forms.length) d :=
  ⟨applied, fun _ _ forms pos _ _ _ _ hhead => evalStep_prim hhead forms pos⟩

end Hosted

open scoped CoreOnly in
/-- A branch with a condition only is refused without a look at the condition, which would end in an
error of its own. -/
theorem calls_exact_branch :
    let p := Pos.start "call"
    let prim : Prim := ⟨0, "if", 2, some 3, .branch⟩
    let heap := (Heap.empty.alloc none).2.define .root ⟨"if", 0⟩ (.prim prim)
    let c : Context := ⟨.empty, .builtins, heap, 1, .standard, .default, .stdout⟩
    let head := Form.atom (.id ⟨"if", 0⟩) p
    let condition := Form.atom (.id ⟨"unbound", 1⟩) p
    eval 1 head .root c = .ok (.prim prim) c ∧ ¬ prim.Takes [condition].length ∧
      evalStep (eval 1) (.group .round [head, condition] p) .root c =
        Eval.fail (.wrongCount (.prim prim) 2 (some 3) 1) c := by
  intro p prim heap c head condition
  have hlookup : c.heap.lookup .root ⟨"if", 0⟩ = some (.prim prim) :=
    Heap.lookup_define_self (Heap.frame?_alloc_self .empty none) _ _
  have hhead : eval 1 head .root c = .ok (.prim prim) c := by
    change Eval.lookup .root ⟨"if", 0⟩ c = _
    rw [lookup_eq, hlookup]
  have htakes : ¬ prim.Takes [condition].length := by decide
  refine ⟨hhead, htakes, ?_⟩
  rw [calls_exact.2 (eval 1) head [condition] p .root prim c c hhead, if_neg htakes]
  rfl

end Eval

end SplatLisp
