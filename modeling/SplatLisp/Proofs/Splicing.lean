import SplatLisp.Proofs.Depth

/-!
# A literal vector that is spread

`[1 2]..` among arguments stands for `1 2`: a literal vector that is spread where it stands gives
the values that its items give there themselves, in the same order and with the same effects, and
evaluation stops at the same item for the same error (`Eval.splicing`). That is so in a vector and
among the arguments of a function, which counts values. Primitives count forms, and see them, so it
is so for those alone that evaluate all their arguments and take as many forms as there are either
way.

Evaluating the spread vector takes two levels more than evaluating its items, which is all the
difference (`Eval.close_evalArgs_splice`).
-/

namespace SplatLisp

/-- A literal vector that is spread. -/
def Form.splice (items : List Form) (pos inner : Pos) : Form :=
  .splat (.group .square items inner) pos

/-- Argument forms can be cut anywhere. -/
theorem evalArgs_append (ev : Evaluator) (env : Env) (fs gs : List Form) :
    evalArgs ev (fs ++ gs) env = (do
      let values ← evalArgs ev fs env
      let more ← evalArgs ev gs env
      pure (values ++ more)) := by
  induction fs with
  | nil => simp
  | cons f fs ih =>
    rw [List.cons_append, evalArgs_cons, evalArgs_cons, ih]
    simp only [bind_assoc, pure_bind, List.append_assoc]

theorem evalArgs_splice [HostPrims] (bound : Nat) (items : List Form) (pos inner : Pos)
    (env : Env) :
    evalArgs (eval (bound + 2)) [.splice items pos inner] env =
      evalArgs (eval bound) items env := by
  have hvec : ∀ values, spread (Value.splat (.vec values)) = pure values := fun _ => rfl
  have hsplice : eval (bound + 2) (.splice items pos inner) env = (do
      let values ← evalArgs (eval bound) items env
      pure (Value.splat (.vec values))) := by
    change (do
      let value ← (do pure (.vec (← evalArgs (eval bound) items env)) : Eval Value)
      if value.items?.isSome then pure (.splat value) else Eval.fail (.notIterable value) :
        Eval Value) = _
    simp [Value.items?]
  rw [evalArgs_cons, hsplice]
  simp [hvec]

/-- Whether a core primitive works on the values of its arguments alone, given argument forms that
do not have to be more than there are. -/
def Prim.OnValues (prim : Prim) (forms : List Form) : Prop :=
  (prim.name, prim.minArgs, prim.maxArgs, prim.op) ∈ Context.corePrims ∧
    (prim.name = "+" ∨ prim.name = "dump" ∨ (prim.name = "-" ∨ prim.name = "=") ∧ forms ≠ [])

/-- Neither their number nor their form matters to such a primitive. -/
theorem Prim.OnValues.takes {prim : Prim} {forms : List Form} (h : prim.OnValues forms) :
    (∀ callee, checkCount callee prim.minArgs prim.maxArgs forms.length = pure ()) ∧
      (prim.op = .add ∨ prim.op = .subtract ∨ prim.op = .dump ∨ prim.op = .equal) := by
  obtain ⟨identity, name, min, max, op⟩ := prim
  obtain ⟨hcore, hname⟩ := h
  have hsome : forms ≠ [] → ¬ forms.length < 1 := by
    cases forms <;> simp
  simp only [Context.corePrims, List.mem_cons, Prod.mk.injEq, List.not_mem_nil, or_false] at hcore
  rcases hcore with ⟨rfl, rfl, rfl, rfl⟩ | ⟨rfl, rfl, rfl, rfl⟩ | ⟨rfl, rfl, rfl, rfl⟩ |
    ⟨rfl, rfl, rfl, rfl⟩ | ⟨rfl, rfl, rfl, rfl⟩ | ⟨rfl, rfl, rfl, rfl⟩ | ⟨rfl, rfl, rfl, rfl⟩ |
    ⟨rfl, rfl, rfl, rfl⟩ | ⟨rfl, rfl, rfl, rfl⟩ <;> simp_all [checkCount]

namespace Eval

section Evaluation

variable [HostPrims] {c : Context} {env : Env} {k : Nat}

theorem deepening_eval (form : Form) (env : Env) : Deepening (eval · form env) :=
  fun _ _ hle c => deepens_eval hle form env c

theorem deepening_evalArgs (forms : List Form) (env : Env) :
    Deepening fun bound => evalArgs (eval bound) forms env :=
  fun _ _ hle c => deepens_evalArgs hle forms env c

theorem deepening_applyClosure (callee : Value) (closure : Closure) (args : List Value) :
    Deepening fun bound => applyClosure (eval bound) callee closure args :=
  fun _ _ hle c => deepens_applyClosure hle callee closure args c

/-- A spread literal vector stands for its items, at a depth of two levels more. -/
theorem close_splice (items : List Form) (pos inner : Pos) (env : Env) (c : Context) :
    Close 2 c (fun bound => evalArgs (eval bound) [.splice items pos inner] env)
      fun bound => evalArgs (eval bound) items env := by
  intro bound
  have hle : bound ≤ bound + 2 := by omega
  have hdeeper := deepens_evalArgs hle items env c
  have hsplice := deepens_evalArgs hle [.splice items pos inner] env c
  rw [evalArgs_splice] at hsplice
  refine ⟨hsplice.trans hdeeper, ?_⟩
  dsimp only
  rw [evalArgs_splice]
  exact .refl _

/-- Argument forms before and behind the vector make no difference. -/
theorem close_evalArgs_splice (pre items post : List Form) (pos inner : Pos) (env : Env)
    (c : Context) :
    Close 2 c (fun bound => evalArgs (eval bound) (pre ++ .splice items pos inner :: post) env)
      fun bound => evalArgs (eval bound) (pre ++ (items ++ post)) env := by
  have hcons : pre ++ Form.splice items pos inner :: post =
      pre ++ ([.splice items pos inner] ++ post) := rfl
  rw [hcons]
  simp only [evalArgs_append]
  apply (Close.of_deepening (deepening_evalArgs pre env) 2 c).bind
  intro before d _
  apply Close.map
  apply (close_splice items pos inner env d).bind
  intro values e _
  exact (Close.of_deepening (deepening_evalArgs post env) 2 e).map _

/-! ## Calls -/

section Calls

variable {forms forms' : List Form}
  (hargs : ∀ c, Close k c (fun bound => evalArgs (eval bound) forms env)
    fun bound => evalArgs (eval bound) forms' env)

include hargs

/-- Functions count values. -/
theorem close_applyArgs (callee : Value) (closure : Closure) (c : Context) :
    Close k c
      (fun bound => evalArgs (eval bound) forms env >>= applyClosure (eval bound) callee closure)
      (fun bound =>
        evalArgs (eval bound) forms' env >>= applyClosure (eval bound) callee closure) :=
  (hargs c).bind fun args d _ =>
    .of_deepening (deepening_applyClosure callee closure args) k d

theorem close_evalInts (c : Context) :
    Close k c (fun bound => evalInts (eval bound) env forms)
      fun bound => evalInts (eval bound) env forms' := by
  unfold evalInts
  exact (hargs c).map _

theorem close_evalDump (c : Context) :
    Close k c (fun bound => evalDump (eval bound) env forms)
      fun bound => evalDump (eval bound) env forms' := by
  unfold evalDump
  exact (hargs c).map _

/-- Of the primitives, some work on values alone. -/
theorem close_callPrim {prim : Prim} (h : prim.OnValues forms) (h' : prim.OnValues forms')
    (callee : Value) (c : Context) :
    Close k c
      (fun bound => checkCount callee prim.minArgs prim.maxArgs forms.length >>= fun _ =>
        runPrim (eval bound) prim.op forms env)
      (fun bound => checkCount callee prim.minArgs prim.maxArgs forms'.length >>= fun _ =>
        runPrim (eval bound) prim.op forms' env) := by
  obtain ⟨hcount, hop⟩ := h.takes
  rw [hcount, h'.takes.1]
  simp only [pure_bind]
  rcases hop with hop | hop | hop | hop
  · rw [hop]
    exact (close_evalInts hargs c).map _
  · rw [hop]
    exact (close_evalInts hargs c).map _
  · rw [hop]
    exact close_evalDump hargs c
  · rw [hop]
    exact (hargs c).map _

theorem close_evalCall {head : Form}
    (hhead : ∀ prim d, ComesTo (eval · head env) c (.ok (.prim prim) d) →
      prim.OnValues forms ∧ prim.OnValues forms') :
    Close k c (fun bound => evalCall (eval bound) env (head :: forms))
      fun bound => evalCall (eval bound) env (head :: forms') := by
  unfold evalCall
  apply (Close.of_deepening (deepening_eval head env) k c).bind
  intro callee d hcallee
  cases callee with
  | prim prim =>
    obtain ⟨h, h'⟩ := hhead prim d hcallee
    exact close_callPrim hargs h h' _ d
  | fn closure => exact close_applyArgs hargs _ closure d
  | _ => exact .refl k d _

end Calls

end Evaluation

/-! ## What a spread literal vector comes to -/

/-- Whether two computations come to the same in a context. -/
def SameResults {α : Type} (c : Context) (x y : Nat → Eval α) : Prop :=
  ∀ r, ComesTo x c r ↔ ComesTo y c r

/-- What becomes of a literal vector that is spread, and of its items in its place. -/
structure Splicing [HostPrims] (c : Context) (env : Env) (pre items post : List Form)
    (splice : Form) :
    Prop where
  args : SameResults c (fun bound => evalArgs (eval bound) (pre ++ splice :: post) env)
    fun bound => evalArgs (eval bound) (pre ++ (items ++ post)) env
  vector : ∀ pos pos', SameResults c (eval · (.group .square (pre ++ splice :: post) pos) env)
    (eval · (.group .square (pre ++ (items ++ post)) pos') env)
  /-- A call of a function; if it is a primitive that is called, it has to be one that works on
  values. -/
  call : ∀ head, (∀ prim d, ComesTo (eval · head env) c (.ok (.prim prim) d) →
      prim.OnValues (pre ++ (items ++ post))) →
    ∀ pos pos', SameResults c (eval · (.group .round (head :: (pre ++ splice :: post)) pos) env)
      (eval · (.group .round (head :: (pre ++ (items ++ post))) pos') env)

/-- **Spreading a literal vector is the same as writing its items in its place.** -/
theorem splicing [HostPrims] (c : Context) (env : Env) (pre items post : List Form)
    (pos inner : Pos) :
    Splicing c env pre items post (.splice items pos inner) := by
  have hargs := close_evalArgs_splice pre items post pos inner env
  refine ⟨fun r => (hargs c).comesTo_iff, fun p p' r => ?_, fun head hhead p p' r => ?_⟩
  · exact ((hargs c).map _).eval.comesTo_iff
  · refine (close_evalCall hargs fun prim d hprim => ?_).eval.comesTo_iff
    obtain ⟨hcore, hname⟩ := hhead prim d hprim
    have hsome : pre ++ Form.splice items pos inner :: post ≠ [] := by simp
    refine ⟨⟨hcore, ?_⟩, hcore, hname⟩
    tauto

open scoped CoreOnly in
/-- A function of one parameter is refused the two items of a vector that is spread, as it is
refused two arguments. -/
theorem splicing_wrongCount :
    let p := Pos.start "call"
    let f : Closure := ⟨⟨0, none, [⟨"x", 1⟩], none, []⟩, .root⟩
    let heap := (Heap.empty.alloc none).2.define .root ⟨"f", 0⟩ (.fn f)
    let c : Context := ⟨.empty, .builtins, heap, 1, .standard, .default, .stdout⟩
    let head := Form.atom (.id ⟨"f", 0⟩) p
    let items := [Form.atom (.int 1) p, .atom (.int 2) p]
    (∀ prim d, ComesTo (eval · head .root) c (.ok (.prim prim) d) →
        prim.OnValues ([] ++ (items ++ []))) ∧
      ComesTo (eval · (.group .round [head, .splice items p p] p) .root) c
        (.error (.failed (.plain (.wrongCount (.fn f) 1 (some 1) 2))) c) := by
  intro p f heap c head items
  have hlookup : c.heap.lookup .root ⟨"f", 0⟩ = some (.fn f) :=
    Heap.lookup_define_self (Heap.frame?_alloc_self .empty none) _ _
  have hhead : ∀ bound, eval (bound + 1) head .root c = .ok (.fn f) c := by
    intro bound
    change Eval.lookup .root ⟨"f", 0⟩ c = _
    rw [lookup_eq, hlookup]
  have hprim : ∀ prim d, ComesTo (eval · head .root) c (.ok (.prim prim) d) →
      prim.OnValues ([] ++ (items ++ [])) := by
    rintro prim d ⟨-, bound, hbound⟩
    cases bound with
    | zero => cases hbound
    | succ bound => cases (hhead bound).symm.trans hbound
  refine ⟨hprim, ((splicing c .root [] items [] p p).call head hprim p p _).2 ⟨trivial, 2, ?_⟩⟩
  change EStateM.bind (eval 1 head .root) _ c = _
  unfold EStateM.bind
  rw [hhead]
  rfl

end Eval

end SplatLisp
