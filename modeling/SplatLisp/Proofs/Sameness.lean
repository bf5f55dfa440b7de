import SplatLisp.Eval.Evaluator
import SplatLisp.Proofs.Application

/-!
# Equality is an equivalence

Equality compares data part by part and everything else by a number, so it sees no more of a value
than its imprint: the data, with numbers in place of what is not data. Equality of values is
equality of imprints (`Value.same_iff`), hence an equivalence, for values of all kinds in any
nesting.

The primitive `=` compares its arguments with the first of them alone. As equality is an
equivalence, that tells whether they are all equal to one another (`allSame_iff`), which depends
neither on their order nor on how often each occurs (`Eval.equal_exact`).
-/

namespace SplatLisp

/-- All that equality sees of a value. -/
inductive Imprint where
  | nil
  | bool (b : Bool)
  | int (n : Int64)
  | vec (items : List Imprint)
  | splat (inner : Imprint)
  | fn (identity : Identity)
  | prim (identity : Identity)
  | type (id : TypeId)
  | host (identity : Identity)

namespace Value

mutual

def imprint : Value → Imprint
  | nil => .nil
  | bool b => .bool b
  | int n => .int n
  | vec items => .vec (imprints items)
  | splat inner => .splat (imprint inner)
  | fn closure => .fn closure.fn.identity
  | prim p => .prim p.identity
  | type t => .type t.id
  | host value => .host value.identity

def imprints : List Value → List Imprint
  | [] => []
  | item :: items => imprint item :: imprints items

end

mutual

/-- Values are equal if equality sees the same of them. -/
theorem same_iff : ∀ v w : Value, v.same w = true ↔ v.imprint = w.imprint
  | vec xs, vec ys => by rw [same, imprint, imprint, Imprint.vec.injEq, sameItems_iff xs ys]
  | splat x, splat y => by rw [same, imprint, imprint, Imprint.splat.injEq, same_iff x y]
  | type t, type u => by simp [same, imprint, BEq.beq]
  | nil, w | bool _, w | int _, w | fn _, w | prim _, w | host _, w => by
    cases w <;> simp [same, imprint]
  | vec _, nil | vec _, bool _ | vec _, int _ | vec _, splat _ | vec _, fn _ | vec _, prim _
  | vec _, type _ | vec _, host _ => by simp [same, imprint]
  | splat _, nil | splat _, bool _ | splat _, int _ | splat _, vec _ | splat _, fn _
  | splat _, prim _ | splat _, type _ | splat _, host _ => by simp [same, imprint]
  | type _, nil | type _, bool _ | type _, int _ | type _, vec _ | type _, splat _ | type _, fn _
  | type _, prim _ | type _, host _ => by simp [same, imprint]

theorem sameItems_iff : ∀ xs ys : List Value, sameItems xs ys = true ↔ imprints xs = imprints ys
  | [], [] | [], _ :: _ | _ :: _, [] => by simp [sameItems, imprints]
  | x :: xs, y :: ys => by
    rw [sameItems, Bool.and_eq_true, same_iff x y, sameItems_iff xs ys, imprints, imprints,
      List.cons.injEq]

end

theorem same_equivalence : Equivalence fun v w : Value => v.same w = true where
  refl v := (same_iff v v).2 rfl
  symm h := (same_iff _ _).2 ((same_iff _ _).1 h).symm
  trans h h' := (same_iff _ _).2 (((same_iff _ _).1 h).trans ((same_iff _ _).1 h'))

end Value

/-! ## The primitive -/

/-- Values that all equal the first one all equal one another. -/
theorem allSame_iff {values : List Value} :
    allSame values = true ↔ ∀ v ∈ values, ∀ w ∈ values, v.same w = true := by
  cases values with
  | nil => simp [allSame]
  | cons first values =>
    rw [allSame, List.all_eq_true]
    constructor
    · intro h
      have hfirst : ∀ v ∈ first :: values, v.same first = true :=
        List.forall_mem_cons.2 ⟨Value.same_equivalence.refl first, h⟩
      intro v hv w hw
      exact Value.same_equivalence.trans (hfirst v hv)
        (Value.same_equivalence.symm (hfirst w hw))
    · intro h v hv
      exact h v (List.mem_cons_of_mem first hv) first List.mem_cons_self

/-- Neither the order of values nor repetitions matter to whether they are all equal. -/
theorem allSame_congr {values others : List Value} (h : ∀ v, v ∈ others ↔ v ∈ values) :
    allSame others = allSame values := by
  rw [Bool.eq_iff_iff, allSame_iff, allSame_iff]
  simp only [h]

namespace Eval

theorem runPrim_equal [HostPrims] {ev : Evaluator} {forms : List Form} {env : Env}
    {values : List Value} {c d : Context} (h : evalArgs ev forms env c = .ok values d) :
    runPrim ev .equal forms env c = .ok (.bool (allSame values)) d := by
  change EStateM.bind (evalArgs ev forms env) _ c = _
  unfold EStateM.bind
  rw [h]
  rfl

/-- **Equality is an equivalence, and `=` tells whether all its arguments are equal to one
another**: whatever forms come to the values, a call with them gives the same answer as one with
others that come to the same values in another order or another number of times. A call without
argument forms is refused if the primitive takes at least one. -/
theorem equal_exact [HostPrims] :
    (Equivalence fun v w : Value => v.same w = true) ∧
    ∀ bound forms env values c d, evalArgs (eval bound) forms env c = .ok values d →
      ∃ answer : Bool,
        (answer = true ↔ ∀ v ∈ values, ∀ w ∈ values, v.same w = true) ∧
        runPrim (eval bound) .equal forms env c = .ok (.bool answer) d ∧
        (∀ head prim pos b, prim.op = .equal → eval bound head env b = .ok (.prim prim) c →
          eval (bound + 1) (.group .round (head :: forms) pos) env b =
            if prim.Takes forms.length then .ok (.bool answer) d
            else Eval.fail (.wrongCount (.prim prim) prim.minArgs prim.maxArgs forms.length) c) ∧
        ∀ bound' forms' env' values' c' d',
          evalArgs (eval bound') forms' env' c' = .ok values' d' →
          (∀ v, v ∈ values' ↔ v ∈ values) →
          runPrim (eval bound') .equal forms' env' c' = .ok (.bool answer) d' := by
  refine ⟨Value.same_equivalence, fun bound forms env values c d hvalues => ?_⟩
  refine ⟨allSame values, allSame_iff, runPrim_equal hvalues, ?_, ?_⟩
  · intro head prim pos b hop hhead
    rw [eval_succ, evalStep_prim hhead, hop, runPrim_equal hvalues]
  · intro bound' forms' env' values' c' d' hvalues' hmem
    rw [runPrim_equal hvalues', allSame_congr hmem]

open scoped CoreOnly in
/-- Two vectors with equal items are equal; a third one that is not spoils the answer. -/
theorem equal_exact_vectors :
    let p := Pos.start "call"
    let vec (n : Int64) := Form.group .square [.atom (.int n) p] p
    let c : Context := .new {}
    evalArgs (eval 2) [vec 1, vec 1, vec 2] .root c =
        .ok [.vec [.int 1], .vec [.int 1], .vec [.int 2]] c ∧
      runPrim (eval 2) .equal [vec 1, vec 1, vec 2] .root c = .ok (.bool false) c := by
  intro p vec c
  have hvalues : evalArgs (eval 2) [vec 1, vec 1, vec 2] .root c =
      .ok [.vec [.int 1], .vec [.int 1], .vec [.int 2]] c := rfl
  obtain ⟨answer, hanswer, hresult, -⟩ := equal_exact.2 2 _ .root _ c c hvalues
  have hfalse : answer = false := by
    rw [← Bool.not_eq_true, hanswer]
    intro h
    exact absurd (h (.vec [.int 1]) (by simp) (.vec [.int 2]) (by simp)) (by decide)
  exact ⟨hvalues, hfalse ▸ hresult⟩

end Eval

end SplatLisp
