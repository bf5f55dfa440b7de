import Mathlib.Algebra.BigOperators.Group.List.Basic
import Mathlib.Algebra.Ring.Int.Defs
import SplatLisp.Proofs.CoreCalls

/-!
# Arithmetic is exact or says why not

A call of `+` or `-` evaluates its arguments, and what stops that stops the call. Then all of them
have to be integers: the leftmost that is none is named, whatever the others come to. Then the
operation goes through the integers from the left. Its result is the mathematical one, if that and
all the results on the way are in range, and an overflow otherwise (`Eval.arithmetic_exact`). So
nothing wraps, and orders of the same integers can differ in whether they add up, but not in what
to.

The steps from the left are one fold for both operations (`foldlM_int64?_iff`).
-/

namespace SplatLisp

/-! ## Sums and differences -/

theorem inRange_iff {n : Int} : InRange n ↔ -2 ^ 63 ≤ n ∧ n ≤ 2 ^ 63 - 1 := Iff.rfl

theorem int64?_eq_some_iff {n : Int} {m : Int64} : int64? n = some m ↔ m.toInt = n := by
  constructor
  · exact toInt_of_int64?
  · rintro rfl
    exact int64?_toInt m

/-- The mathematical sum of integers. -/
def total (ns : List Int64) : Int := (ns.map Int64.toInt).sum

@[simp] theorem total_nil : total [] = 0 := rfl

@[simp] theorem total_cons (n : Int64) (ns : List Int64) :
    total (n :: ns) = n.toInt + total ns := by
  simp [total]

/-- The order of integers does not matter to their sum. -/
theorem total_perm {ns ms : List Int64} (h : ns.Perm ms) : total ns = total ms :=
  (h.map Int64.toInt).sum_eq

/-- Whether all sums from the left are in range. -/
def SumFits (ns : List Int64) : Prop := ∀ part, part <+: ns → InRange (total part)

/-- The mathematical difference: the first integer less all others, the negative of a single one,
and zero if there is none. -/
def difference : List Int64 → Int
  | [] => 0
  | [n] => -n.toInt
  | n :: ns => n.toInt - total ns

/-- Whether all differences from the left are in range. A single integer has to have a negative. -/
def DifferenceFits : List Int64 → Prop
  | [] => True
  | [n] => n ≠ Int64.minValue
  | n :: ns => ∀ part, part <+: ns → InRange (n.toInt - total part)

/-- Integers are taken in one after the other exactly if all results on the way are in range, and
then the last one is the mathematical result. -/
theorem foldlM_int64?_iff (f : Int → Int → Int) {a m : Int64} {ns : List Int64} :
    ns.foldlM (fun a n => int64? (f a.toInt n.toInt)) a = some m ↔
      (∀ part, part <+: ns → InRange ((part.map Int64.toInt).foldl f a.toInt)) ∧
        m.toInt = (ns.map Int64.toInt).foldl f a.toInt := by
  induction ns generalizing a with
  | nil => simp [List.prefix_nil, inRange_toInt, Int64.toInt_inj, eq_comm]
  | cons n ns ih =>
    rw [List.foldlM_cons]
    by_cases hfirst : InRange (f a.toInt n.toInt)
    · obtain ⟨b, hb⟩ : ∃ b, int64? (f a.toInt n.toInt) = some b :=
        Option.ne_none_iff_exists'.1 fun hnone => int64?_eq_none_iff.1 hnone hfirst
      have hvalue := toInt_of_int64? hb
      have hparts : (∀ part, part <+: n :: ns →
            InRange ((part.map Int64.toInt).foldl f a.toInt)) ↔
          ∀ part, part <+: ns → InRange ((part.map Int64.toInt).foldl f b.toInt) := by
        simp only [List.prefix_cons_iff, hvalue]
        constructor
        · intro h part hpart
          exact h (n :: part) (.inr ⟨part, rfl, hpart⟩)
        · rintro h part (rfl | ⟨more, rfl, hmore⟩)
          · exact inRange_toInt a
          · exact h more hmore
      rw [hb, hparts, List.map_cons, List.foldl_cons, ← hvalue]
      exact ih
    · have hnone := int64?_eq_none_iff.2 hfirst
      have hbad : ¬ ∀ part, part <+: n :: ns →
          InRange ((part.map Int64.toInt).foldl f a.toInt) := by
        intro h
        exact hfirst (h [n] (by simp))
      simp [hnone, hbad]

theorem foldl_add (n : Int) (ns : List Int64) :
    (ns.map Int64.toInt).foldl (· + ·) n = n + total ns := by
  induction ns generalizing n with
  | nil => simp
  | cons m ns ih =>
    simp [ih]
    omega

theorem foldl_sub (n : Int) (ns : List Int64) :
    (ns.map Int64.toInt).foldl (· - ·) n = n - total ns := by
  induction ns generalizing n with
  | nil => simp
  | cons m ns ih =>
    simp [ih]
    omega

/-- Whether an operation gives the mathematical result wherever it is defined. -/
structure IsExact (operation : List Int64 → Option Int64) (fits : List Int64 → Prop)
    (value : List Int64 → Int) : Prop where
  eq_some_iff : ∀ {ns : List Int64} {m : Int64},
    operation ns = some m ↔ fits ns ∧ m.toInt = value ns
  inRange : ∀ {ns : List Int64}, fits ns → InRange (value ns)

/-- It is defined where the mathematical result fits. -/
theorem IsExact.not_fits_of_eq_none {operation : List Int64 → Option Int64}
    {fits : List Int64 → Prop} {value : List Int64 → Int} (h : IsExact operation fits value)
    {ns : List Int64} (hnone : operation ns = none) : ¬ fits ns := by
  intro hfits
  have hvalue := (int64?_eq_none_iff.not_left).2 (h.inRange hfits)
  obtain ⟨m, hm⟩ := Option.ne_none_iff_exists'.1 hvalue
  rw [h.eq_some_iff.2 ⟨hfits, toInt_of_int64? hm⟩] at hnone
  cases hnone

theorem isExact_sum? : IsExact sum? SumFits total where
  eq_some_iff := by
    intro ns m
    have hfold : sum? ns = some m ↔ _ := foldlM_int64?_iff (· + ·)
    simpa [foldl_add, SumFits] using hfold
  inRange h := h _ List.prefix_rfl

/-- The least integer is the only one without a negative. -/
theorem inRange_neg_iff {n : Int64} : InRange (-n.toInt) ↔ n ≠ Int64.minValue := by
  have hmin : n = Int64.minValue ↔ n.toInt = -2 ^ 63 := Int64.toInt_inj.symm
  have hn := inRange_iff.1 (inRange_toInt n)
  rw [inRange_iff, ne_eq, hmin]
  omega

theorem isExact_difference? : IsExact difference? DifferenceFits difference where
  eq_some_iff := by
    intro ns m
    rcases ns with _ | ⟨n, _ | ⟨k, ns⟩⟩
    · simp [difference?, DifferenceFits, difference, ← Int64.toInt_inj, eq_comm]
    · have hneg : difference? [n] = some m ↔ m.toInt = -n.toInt := int64?_eq_some_iff
      rw [hneg, DifferenceFits, difference, ← inRange_neg_iff]
      exact ⟨fun h => ⟨h ▸ inRange_toInt m, h⟩, And.right⟩
    · have hfold : difference? (n :: k :: ns) = some m ↔ _ := foldlM_int64?_iff (· - ·)
      simp only [foldl_sub] at hfold
      exact hfold
  inRange := by
    intro ns h
    rcases ns with _ | ⟨n, _ | ⟨k, ns⟩⟩
    · decide
    · exact inRange_neg_iff.2 h
    · exact h _ List.prefix_rfl

/-! ## Calls -/

namespace Eval

/-- What an operation on integers comes to in a context, by the values of its arguments. -/
inductive Computes (op : String) (fits : List Int64 → Prop) (value : List Int64 → Int)
    (d : Context) : List Value → EStateM.Result Stop Context Value → Prop
  /-- The leftmost value that is no integer is named, whatever the others come to. -/
  | notInt {before after : List Value} {v : Value} (hbefore : ∀ u ∈ before, u.int?.isSome = true)
    (hv : v.int? = none) :
    Computes op fits value d (before ++ v :: after) (fail (.notInt v) d)
  | exact {ns : List Int64} {n : Int64} (hfits : fits ns) (hn : n.toInt = value ns) :
    Computes op fits value d (ns.map .int) (.ok (.int n) d)
  | overflow {ns : List Int64} (h : ¬ fits ns) :
    Computes op fits value d (ns.map .int) (fail (.overflow op) d)

/-- Values without one that is no integer are integers. -/
theorem eq_map_int_of_find? {values : List Value}
    (h : values.find? (fun v => v.int?.isNone) = none) :
    (values.filterMap Value.int?).map .int = values := by
  induction values with
  | nil => rfl
  | cons v values ih =>
    cases v <;> simp_all [Value.int?]

variable {operation : List Int64 → Option Int64} {fits : List Int64 → Prop}
  {value : List Int64 → Int} {ev : Evaluator} {env : Env} {forms : List Form} {c : Context}

/-- An operation that is exact computes its result from the integers that it gets. -/
theorem computes_of_isExact (h : IsExact operation fits value) (op : String) (values : List Value)
    (d : Context) :
    Computes op fits value d values
      ((match values.find? (·.int?.isNone) with
        | some v => fail (.notInt v)
        | none => intOr op (operation (values.filterMap Value.int?)) : Eval Value) d) := by
  cases hfind : values.find? (·.int?.isNone) with
  | some v =>
    obtain ⟨hv, before, after, rfl, hbefore⟩ := List.find?_eq_some_iff_append.1 hfind
    refine .notInt (fun u hu => ?_) (by simpa using hv)
    simpa using hbefore u hu
  | none =>
    have hvalues := eq_map_int_of_find? hfind
    generalize values.filterMap Value.int? = ns at hvalues
    subst hvalues
    cases hresult : operation ns with
    | some n =>
      obtain ⟨hfits, hn⟩ := h.eq_some_iff.1 hresult
      exact .exact hfits hn
    | none => exact .overflow (h.not_fits_of_eq_none hresult)

theorem byValue_of_isExact (h : IsExact operation fits value) (op : String) :
    ByValue (Computes op fits value) (evalArgs ev forms env c)
      ((do intOr op (operation (← evalInts ev env forms)) : Eval Value) c) := by
  have hcall : (do intOr op (operation (← evalInts ev env forms)) : Eval Value) = (do
      let values ← evalArgs ev forms env
      match values.find? (·.int?.isNone) with
      | some v => fail (.notInt v)
      | none => intOr op (operation (values.filterMap Value.int?))) := by
    simp only [evalInts, bind_assoc]
    refine bind_congr fun values => ?_
    cases values.find? (·.int?.isNone) with
    | some v => rfl
    | none => rfl
  rw [hcall]
  exact byValue_bind (computes_of_isExact h op)

/-- What is computed from integers alone. -/
theorem Computes.of_ints {op : String} {ns : List Int64} {d : Context}
    {r : EStateM.Result Stop Context Value} (h : Computes op fits value d (ns.map .int) r) :
    (fits ns ∧ ∃ n : Int64, n.toInt = value ns ∧ r = .ok (.int n) d) ∨
      (¬ fits ns ∧ r = fail (.overflow op) d) := by
  have hints : ∀ v ∈ ns.map Value.int, v.int?.isSome = true := by simp [Value.int?]
  have hinj : Function.Injective (List.map Value.int) :=
    List.map_injective_iff.2 fun _ _ => Value.int.inj
  generalize hvalues : ns.map Value.int = values at h hints
  cases h with
  | @notInt before after v hbefore hv =>
    have hint := hints v (by simp)
    simp [hv] at hint
  | exact hfits hn =>
    obtain rfl := hinj hvalues
    exact .inl ⟨hfits, _, hn, rfl⟩
  | overflow hfits =>
    obtain rfl := hinj hvalues
    exact .inr ⟨hfits, rfl⟩

/-- What is computed from values of which one is no integer. -/
theorem Computes.of_notInt {op : String} {before after : List Value} {v : Value} {d : Context}
    {r : EStateM.Result Stop Context Value}
    (h : Computes op fits value d (before ++ v :: after) r)
    (hbefore : ∀ u ∈ before, u.int?.isSome = true) (hv : v.int? = none) :
    r = fail (.notInt v) d := by
  have hsome : ¬ ∀ u ∈ before ++ v :: after, u.int?.isSome = true := by
    intro hints
    have hint := hints v (by simp)
    simp [hv] at hint
  generalize hvalues : before ++ v :: after = values at h hsome
  cases h with
  | notInt hbefore' hv' =>
    rw [first_unique hvalues hbefore (by simp [hv]) hbefore' (by simp [hv'])]
  | exact _ _ => simp [Value.int?] at hsome
  | overflow _ => simp [Value.int?] at hsome

/-- Integers that have a sum have their mathematical sum. -/
theorem exists_of_runPrim_add [HostPrims] {ns : List Int64} {d e : Context} {v : Value}
    (hargs : evalArgs ev forms env c = .ok (ns.map .int) d)
    (h : runPrim ev .add forms env c = .ok v e) : ∃ n, v = .int n ∧ n.toInt = total ns := by
  have hcall : ByValue (Computes "+" SumFits total) _ (runPrim ev .add forms env c) :=
    byValue_of_isExact isExact_sum? "+"
  rcases (hcall.ended _ d hargs).of_ints with ⟨-, n, hn, heq⟩ | ⟨-, heq⟩
  · rw [h] at heq
    cases heq
    exact ⟨n, rfl, hn⟩
  · rw [h] at heq
    simp [fail, raise] at heq

/-- **Arithmetic is exact or reports why it is not.** A call of the core primitive `+`, or of `-`
with at least one argument form, stops where its arguments do; then it refuses the leftmost value
that is no integer; then it gives the mathematical sum or difference, if all results on the way are
in range, and an overflow otherwise. Two orders of the same integers that both have a sum have the
same one. -/
theorem arithmetic_exact [HostPrims] :
    (∀ bound head forms env pos prim b c, eval bound head env b = .ok (.prim prim) c →
      (prim.IsCore "+" →
        ByValue (Computes "+" SumFits total) (evalArgs (eval bound) forms env c)
          (eval (bound + 1) (.group .round (head :: forms) pos) env b)) ∧
      (prim.IsCore "-" → forms ≠ [] →
        ByValue (Computes "-" DifferenceFits difference) (evalArgs (eval bound) forms env c)
          (eval (bound + 1) (.group .round (head :: forms) pos) env b))) ∧
    ∀ bound forms env c (ns : List Int64) d v e,
      evalArgs (eval bound) forms env c = .ok (ns.map .int) d →
      runPrim (eval bound) .add forms env c = .ok v e →
      ∀ bound' forms' env' c' (ms : List Int64) d' v' e',
        evalArgs (eval bound') forms' env' c' = .ok (ms.map .int) d' →
        runPrim (eval bound') .add forms' env' c' = .ok v' e' → ns.Perm ms → v = v' := by
  refine ⟨fun bound head forms env pos prim b c hhead => ⟨fun hprim => ?_, fun hprim hforms => ?_⟩,
    ?_⟩
  · rw [eval_core hhead hprim rfl (by simp)]
    exact byValue_of_isExact isExact_sum? "+"
  · have hlength : 1 ≤ forms.length := List.length_pos_iff.2 hforms
    rw [eval_core hhead hprim rfl (by simpa using hlength)]
    exact byValue_of_isExact isExact_difference? "-"
  · intro bound forms env c ns d v e hargs hcall bound' forms' env' c' ms d' v' e' hargs' hcall'
      hperm
    obtain ⟨n, rfl, hn⟩ := exists_of_runPrim_add hargs hcall
    obtain ⟨m, rfl, hm⟩ := exists_of_runPrim_add hargs' hcall'
    rw [Int64.toInt_inj.1 (hn.trans ((total_perm hperm).trans hm.symm))]

open scoped CoreOnly in
/-- The sum of the greatest integer, one and minus one would be in range, but the first two of them
have none; a boolean behind them is refused before that matters. -/
theorem arithmetic_exact_partial :
    let p := Pos.start "call"
    let prim : Prim := ⟨0, "+", 0, none, .add⟩
    let heap := (Heap.empty.alloc none).2.define .root ⟨"+", 0⟩ (.prim prim)
    let c : Context := ⟨.empty, .builtins, heap, 1, .standard, .default, .stdout⟩
    let head := Form.atom (.id ⟨"+", 0⟩) p
    let ints := [Form.atom (.int Int64.maxValue) p, .atom (.int 1) p, .atom (.int (-1)) p]
    eval 1 head .root c = .ok (.prim prim) c ∧ prim.IsCore "+" ∧
      InRange (total [Int64.maxValue, 1, -1]) ∧
      eval 2 (.group .round (head :: ints) p) .root c = fail (.overflow "+") c ∧
      eval 2 (.group .round (head :: (ints ++ [.atom (.bool true) p])) p) .root c =
        fail (.notInt (.bool true)) c := by
  intro p prim heap c head ints
  have hlookup : c.heap.lookup .root ⟨"+", 0⟩ = some (.prim prim) :=
    Heap.lookup_define_self (Heap.frame?_alloc_self .empty none) _ _
  have hhead : eval 1 head .root c = .ok (.prim prim) c := by
    change Eval.lookup .root ⟨"+", 0⟩ c = _
    rw [lookup_eq, hlookup]
  have hprim : prim.IsCore "+" := ⟨rfl, rfl⟩
  have hints := (arithmetic_exact.1 1 head ints .root p prim c c hhead).1 hprim
  have hmore := (arithmetic_exact.1 1 head (ints ++ [.atom (.bool true) p]) .root p prim c c
    hhead).1 hprim
  refine ⟨hhead, hprim, by decide, ?_, ?_⟩
  · have hcomputed : Computes "+" SumFits total c ([Int64.maxValue, 1, -1].map .int) _ :=
      hints.ended _ c rfl
    rcases hcomputed.of_ints with ⟨hfits, -⟩ | ⟨-, h⟩
    · exact absurd (hfits [Int64.maxValue, 1] (by simp)) (by decide)
    · exact h
  · have hcomputed : Computes "+" SumFits total c
        ([.int Int64.maxValue, .int 1, .int (-1)] ++ .bool true :: []) _ := hmore.ended _ c rfl
    exact hcomputed.of_notInt (by decide) rfl

end Eval

end SplatLisp
