import SplatLisp.Proofs.Correspondence
import SplatLisp.Proofs.Handles
import SplatLisp.Proofs.Sound

/-!
# Functions have no memory

A function that is applied to arguments, and then to the same arguments again, comes to the same
both times (`Eval.apply_again`), whatever functions its body defines and whatever closures it makes.
The second call runs in a context that has the frames and identities of the first one in addition.
They cannot be reached, as applying a function leaves all frames as they were. What the second call
makes is numbered from a later number on, so it is known in advance which frames and identities of
the two calls go together (`Links.shift`), and the calls run side by side under these links.
-/

namespace SplatLisp

open scoped CoreOnly

/-! ## Handles of two calls -/

/-- Numbers given out by two runs that have started to count at `n` and at `n'`: the numbers below
`n` go with themselves, and those that the runs give out go together in order. -/
def Shifted (n n' a a' : Nat) : Prop := (a = a' ∧ a < n) ∨ ∃ k, a = n + k ∧ a' = n' + k

theorem Shifted.eq_iff {n n' a a' b b' : Nat} (hle : n ≤ n') (ha : Shifted n n' a a')
    (hb : Shifted n n' b b') : a = b ↔ a' = b' := by
  obtain ⟨rfl, ha⟩ | ⟨k, rfl, rfl⟩ := ha
  · obtain ⟨rfl, hb⟩ | ⟨j, rfl, rfl⟩ := hb <;> omega
  · obtain ⟨rfl, hb⟩ | ⟨j, rfl, rfl⟩ := hb <;> omega

theorem Shifted.env_eq_iff {n n' : Nat} {a a' b b' : Env} (hle : n ≤ n')
    (ha : Shifted n n' a.index a'.index) (hb : Shifted n n' b.index b'.index) :
    a = b ↔ a' = b' := by
  have hindex := Shifted.eq_iff hle ha hb
  obtain ⟨i⟩ := a
  obtain ⟨i'⟩ := a'
  obtain ⟨j⟩ := b
  obtain ⟨j'⟩ := b'
  rwa [Env.mk.injEq, Env.mk.injEq]

/-- What two runs make that start from a context and from a later one. -/
def Links.shift (c d : Context) (hframes : c.heap.frames.size ≤ d.heap.frames.size)
    (hidentities : c.identities ≤ d.identities) : Links :=
  { same with
    env := fun e e' => Shifted c.heap.frames.size d.heap.frames.size e.index e'.index
    identity := Shifted c.identities d.identities
    env_iff := Shifted.env_eq_iff hframes
    identity_iff := Shifted.eq_iff hidentities }

theorem Links.handles_le_shift {c d : Context}
    (hframes : c.heap.frames.size ≤ d.heap.frames.size)
    (hidentities : c.identities ≤ d.identities) : handles c ≤ shift c d hframes hidentities where
  env h := .inl ⟨congrArg Env.index h.1, h.2⟩
  identity h := .inl h
  symbol := id
  pos := id

/-- A closed context corresponds to every later one that has its frames. -/
theorem Context.Closed.corresponds_shift {c d : Context} (hc : c.Closed)
    (hextends : c.heap.Extends d.heap) (hframes : c.heap.frames.size ≤ d.heap.frames.size)
    (hidentities : c.identities ≤ d.identities) (htypes : c.types = d.types)
    (hdiagnostics : c.diagnostics = d.diagnostics) (hout : c.out = d.out) :
    c.Corresponds (.shift c d hframes hidentities) d where
  heap := by
    have hle := Links.handles_le_shift hframes hidentities
    rintro ⟨index⟩ ⟨index'⟩ he
    obtain ⟨heq, hlt⟩ | ⟨k, heq, heq'⟩ := he
    · obtain rfl : index = index' := heq
      obtain ⟨frame, hframe⟩ := Option.isSome_iff_exists.1 (Heap.frame?_isSome_iff.2 hlt)
      rw [hframe, hextends hframe]
      refine .some ⟨?_, fun {s s'} hs => ?_⟩
      · cases hparent : frame.parent with
        | none => exact .none
        | some p => exact .some ⟨hle.env ⟨rfl, hc.parent hframe hparent⟩, Iff.rfl⟩
      · obtain rfl : s = s' := hs
        cases hslot : frame.get? s with
        | none => exact .none
        | some slot => exact .some ((hc.bound hframe hslot).mono hle)
    · -- Neither of the frames has been made.
      have hnone : ∀ {heap : Heap} {n : Nat}, n = heap.frames.size + k →
          heap.frame? ⟨n⟩ = none := by
        rintro heap n rfl
        simp [Heap.frame?]
      rw [hnone heq, hnone heq']
      exact .none
  frames k := .inr ⟨k, rfl, rfl⟩
  identities k := .inr ⟨k, rfl, rfl⟩
  types := htypes
  diagnostics := hdiagnostics
  out := hout

/-! ## Calls -/

namespace Eval

/-- All that evaluation consists of runs side by side under links made in advance, and does the same
since two contexts. -/
theorem parallel_corresponding (K : Links) (b b' : Context) :
    Parallel Value.Corresponds (fun L => List.Forall₂ (Value.Corresponds L))
      fun L _ Q x x' => RunsIn (Context.Since (Context.CorrespondsAt K) b b') L Q x x' :=
  parallel_runsIn Value.congruence_corresponds ((Context.congruence_corresponds K).since b b')
    hostsRunIn_coreOnly

/-- What any call does to the counters of its context. -/
theorem grown_applyClosure (bound : Nat) (callee : Value) (closure : Closure) (args : List Value)
    (c : Context) : Context.Grown .same c c
      ((applyClosure (eval bound) callee closure args).after c)
      ((applyClosure (eval bound) callee closure args).after c) := by
  have hself := Links.same_reflexive
  have hparallel := parallel_corresponding .same c c
  have hruns := hparallel.applyClosure (hparallel.eval bound) (Value.corresponds_self hself callee)
    (closure.fn.like_self hself) rfl (Value.correspond_self hself args)
  have hc := Context.corresponds_self hself (fun hs => congrArg Symbol.tag hs) c
  obtain ⟨M, -, ⟨rfl, -⟩, hgrown⟩ := hruns.exists_after ⟨⟨rfl, hc⟩, .refl _ c c⟩
  exact hgrown

/-- **Functions have no memory.** In a context that has given out all handles in its frames, a
function is applied to arguments; however that ends, applying the same function to the same
arguments again comes to the same: to values that show as the same, or to a stop for the same cause,
with the same text written. In particular the second call ends within any nesting that the first one
has ended within. That host values answer alike in both calls is what `HostData` assumes of them. -/
theorem apply_again {c : Context} (hc : c.Closed) (bound : Nat) {f : Closure}
    (hf : c.Holds (.fn f)) {args : List Value} (hargs : ∀ arg ∈ args, c.Holds arg) :
    SameOutcome c ((applyClosure (eval bound) (.fn f) f args).after c)
      (applyClosure (eval bound) (.fn f) f args c)
      (applyClosure (eval bound) (.fn f) f args
        ((applyClosure (eval bound) (.fn f) f args).after c)) := by
  have hgrown := grown_applyClosure bound (.fn f) f args c
  have hframes := hgrown.frames.le
  have hidentities := hgrown.identities.le
  have hextends : c.heap.Extends ((applyClosure (eval bound) (.fn f) f args).after c).heap := by
    refine extends_of_forall_writesTo fun env => ?_
    exact (inherited_writesTo.applyClosure (inherited_writesTo.eval bound) env (.fn f) f args
      c).heap
  have hd := hc.corresponds_shift hextends hframes hidentities hgrown.types.symm
    hgrown.diagnostics.symm hgrown.out.symm
  have hle := Links.handles_le_shift hframes hidentities
  obtain ⟨hfn, henv⟩ := hf.fn
  have hparallel := parallel_corresponding (.shift c _ hframes hidentities) c
    ((applyClosure (eval bound) (.fn f) f args).after c)
  have hruns := hparallel.applyClosure (hparallel.eval bound) (hf.mono hle) (hfn.mono hle)
    (hle.env ⟨rfl, henv⟩) (List.forall₂_same.2 fun arg harg => (hargs arg harg).mono hle)
  have hends := hruns c _ ⟨⟨rfl, hd⟩, .refl ..⟩
  exact hends.sameOutcome_of id (Context.congruence_corresponds _) hgrown.out.symm

/-- A function that writes its argument, defines a function, and gives that one back. -/
def keeper (identity : Identity) : Closure :=
  let p := Pos.start "keeper"
  let x := Form.atom (.id ⟨"x", 9⟩) p
  ⟨⟨identity, none, [⟨"x", 9⟩], none,
    [.group .round [.atom (.id ⟨"dump", 5⟩) p, x] p,
      .group .round [.atom (.id ⟨"fun", 3⟩) p, .atom (.id ⟨"g", 10⟩) p, .group .round [] p, x] p]⟩,
    .root⟩

theorem apply_again_new :
    SameOutcome (Request.fresh.run (.new {}))
      ((applyClosure (eval 64) (.fn (keeper (Context.new {}).identities))
        (keeper (Context.new {}).identities) [.vec [.int 1]]).after (Request.fresh.run (.new {})))
      (applyClosure (eval 64) (.fn (keeper (Context.new {}).identities))
        (keeper (Context.new {}).identities) [.vec [.int 1]] (Request.fresh.run (.new {})))
      (applyClosure (eval 64) (.fn (keeper (Context.new {}).identities))
        (keeper (Context.new {}).identities) [.vec [.int 1]]
        ((applyClosure (eval 64) (.fn (keeper (Context.new {}).identities))
          (keeper (Context.new {}).identities) [.vec [.int 1]]).after
          (Request.fresh.run (.new {})))) := by
  have hroot : Env.root.index < (Request.fresh.run (.new {})).heap.frames.size :=
    (Context.sound_new {}).root
  have hf : (Request.fresh.run (.new {})).Holds (.fn (keeper (Context.new {}).identities)) := by
    refine .leaf (.fn ⟨?_, .none, .cons rfl .nil, .none, Form.likes_eq_self _⟩ ⟨rfl, hroot⟩)
    exact ⟨rfl, Nat.lt_succ_self _⟩
  refine apply_again (Context.closed_of_reachable (.next (.new {}) .fresh trivial)) 64 hf ?_
  intro arg harg
  obtain rfl := List.mem_singleton.1 harg
  exact .vec (.cons (.leaf (.int 1)) .nil)

end Eval

end SplatLisp
