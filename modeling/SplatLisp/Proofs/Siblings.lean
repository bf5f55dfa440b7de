import SplatLisp.Proofs.Sound

/-!
# Code in sibling scopes

Two texts are evaluated in two new children of the root. What comes of the second one is the same
whether or not the first has been evaluated before (`Eval.siblings_apart`): the first can neither
change a frame that the second one sees, nor can the second tell the tags, the frames and the
identities that the first has used up.

The two runs of the second text are compared in lockstep. They start from contexts that differ in
what the first text has done. These are alike, as the links leave out the environment of the first
text (`Links.keeping`), and its frame is the only one that the first text has written to.
-/

namespace SplatLisp

open scoped CoreOnly

namespace Eval

variable {α : Type}

/-! ## What a text does -/

/-- Evaluating a text writes to the frame of its environment alone. -/
theorem evalChars_writesTo (bound : Nat) (pos : Pos) (chars : List Char) (env : Env)
    (c : Context) : c.heap.WritesTo env ((evalChars bound pos chars env).after c).heap :=
  inherited_writesTo.heap_evalChars bound pos chars env c

/-- Runs in lockstep have outcomes that cannot be told apart. -/
theorem Lockstep.sameOutcome {L : Links} {x x' : Eval Value} (h : Lockstep L Value.Like x x')
    {c c' : Context} (hc : c.Like L c') : SameOutcome c c' (x c) (x' c') :=
  (h c c' c c' ⟨hc, .refl L c c'⟩).sameOutcome_of Value.Like.corresponds Context.congruence_like
    hc.out

end Eval

open Eval

/-! ## Sibling scopes -/

/-- A run that writes to one frame alone leaves a context alike wherever that frame is not
linked. -/
theorem Context.Like.apart {L : Links} {c d : Context} (h : c.Like L c) {env : Env}
    (hapart : ∀ {e e'}, L.env e e' → e' ≠ env) (hwrites : c.heap.WritesTo env d.heap)
    (hlater : c.Later d) : c.Like L d where
  heap := by
    intro e e' he
    obtain ⟨frame, frame', hframe, hframe', hlike⟩ := h.heap he
    exact ⟨frame, frame', hframe, hwrites.off (hapart he) hframe', hlike⟩
  identity hi := ⟨(h.identity hi).1, Nat.lt_of_lt_of_le (h.identity hi).2 hlater.identities⟩
  symbol := by
    intro s s'
    rw [h.symbol]
    constructor
    · intro hs
      exact hs.mono (fun _ _ ht => ht) hlater.symbols
    · intro hs
      have hright := hlater.symbols (hs.name ▸ hs.left)
      rw [hs.right] at hright
      obtain rfl := Option.some.inj hright
      exact SymbolTable.shared_self hs.left
  types := hlater.types.symm
  diagnostics := hlater.diagnostics.symm
  out := hlater.out.symm

/-- Two environments that have been made as children of the root of a context. -/
structure Context.Siblings (c d : Context) (e₁ e₂ : Env) : Prop where
  old : ∀ {e frame}, c.heap.frame? e = some frame → d.heap.frame? e = some frame
  symbols : d.symbols = c.symbols
  identities : d.identities = c.identities
  new₁ : c.heap.frames.size ≤ e₁.index
  new₂ : c.heap.frames.size ≤ e₂.index
  frame₁ : d.heap.frame? e₁ = some (.empty (some .root))
  frame₂ : d.heap.frame? e₂ = some (.empty (some .root))
  ne : e₁ ≠ e₂

theorem Context.Siblings.swap {c d : Context} {e₁ e₂ : Env} (h : c.Siblings d e₁ e₂) :
    c.Siblings d e₂ e₁ :=
  ⟨h.old, h.symbols, h.identities, h.new₂, h.new₁, h.frame₂, h.frame₁, h.ne.symm⟩

theorem Context.siblings_of_child {c c' d : Context} {a b : Env}
    (ha : child .root c = .ok a c') (hb : child .root c' = .ok b d) : c.Siblings d a b := by
  have hchild : ∀ c : Context, child .root c =
      .ok ⟨c.heap.frames.size⟩ { c with heap := (c.heap.alloc (some .root)).2 } := fun _ => rfl
  rw [hchild] at ha
  cases ha
  rw [hchild] at hb
  cases hb
  have hsize : (c.heap.alloc (some .root)).2.frames.size = c.heap.frames.size + 1 := by
    simp [Heap.alloc]
  refine ⟨?_, rfl, rfl, Nat.le_refl _, ?_, ?_, Heap.frame?_alloc_self _ _, ?_⟩
  · intro e frame hframe
    exact Heap.frame?_alloc (Heap.frame?_alloc hframe _) _
  · change c.heap.frames.size ≤ (c.heap.alloc (some .root)).2.frames.size
    omega
  · exact Heap.frame?_alloc (Heap.frame?_alloc_self c.heap _) _
  · intro heq
    have hindex := congrArg Env.index heq
    change c.heap.frames.size = (c.heap.alloc (some .root)).2.frames.size at hindex
    omega

/-- The handles of a context, and one environment more. -/
def Links.keeping (c : Context) (env : Env) : Links :=
  { Links.self c with
    env := fun e e' => e = e' ∧ (e.index < c.heap.frames.size ∨ e = env)
    env_iff := fun h h' => by rw [h.1, h'.1] }

/-- With the other sibling left out, the context is like itself. -/
theorem Context.Siblings.like_keeping {c d : Context} {e₁ e₂ : Env} (h : c.Siblings d e₁ e₂)
    (hc : c.Sound) : d.Like (.keeping c e₂) d := by
  have hle : Links.self c ≤ .keeping c e₂ := ⟨fun he => ⟨he.1, .inl he.2⟩, id, id, id⟩
  have hroot := hc.root
  have hindex : Env.root.index < e₂.index := Nat.lt_of_lt_of_le hroot h.new₂
  refine ⟨?_, ?_, ?_, rfl, rfl, rfl⟩
  · rintro e _ ⟨rfl, hlt | rfl⟩
    · obtain ⟨frame, frame', hframe, hframe', hlike⟩ := hc.like.heap ⟨rfl, hlt⟩
      exact ⟨frame, frame', h.old hframe, h.old hframe', hlike.mono hle⟩
    · exact ⟨_, _, h.frame₂, h.frame₂, .empty (.some ⟨⟨rfl, .inl hroot⟩, hindex, hindex⟩)⟩
  · rintro i _ ⟨rfl, hi⟩
    rw [h.identities]
    exact ⟨hi, hi⟩
  · intro s s'
    rw [h.symbols]
    exact Iff.rfl

theorem Context.Siblings.apart {c d : Context} {e₁ e₂ : Env} (h : c.Siblings d e₁ e₂)
    {e e' : Env} (he : (Links.keeping c e₂).env e e') : e' ≠ e₁ := by
  obtain ⟨rfl, hlt | rfl⟩ := he
  · rintro rfl
    exact absurd hlt (Nat.not_lt.2 h.new₁)
  · exact h.ne.symm

namespace Eval

/-- **Code in one scope cannot be observed from a sibling scope.** Two environments are new
children of the root, in a context that requests have led to; a text is evaluated in the one of
them, and comes to what it comes to. What a text then comes to in the other, and what it writes, is
what it would come to and write without the first. Host values are assumed to answer alike whenever
they are asked for their text or their truth (`HostData`). -/
theorem siblings_apart {c c' d : Context} (hc : c.Reachable Request.Held) {a b e₁ e₂ : Env}
    (ha : child .root c = .ok a c') (hb : child .root c' = .ok b d)
    (he : (e₁ = a ∧ e₂ = b) ∨ (e₁ = b ∧ e₂ = a)) (bound₁ bound₂ : Nat) (pos₁ pos₂ : Pos)
    (s₁ s₂ : String) :
    SameOutcome d ((evalText bound₁ pos₁ s₁ e₁).after d) (evalText bound₂ pos₂ s₂ e₂ d)
      (evalText bound₂ pos₂ s₂ e₂ ((evalText bound₁ pos₁ s₁ e₁).after d)) := by
  have hsound := Context.sound_of_reachable hc
  have hsiblings : c.Siblings d e₁ e₂ := by
    have hmade := Context.siblings_of_child ha hb
    rcases he with ⟨rfl, rfl⟩ | ⟨rfl, rfl⟩
    · exact hmade
    · exact hmade.swap
  have hsound' : d.Sound := by
    have hc' := sound_after hsound (Lockstep.child hsound.link_root)
    rw [after_of_ok ha] at hc'
    have hd := sound_after hc' (Lockstep.child hc'.link_root)
    rwa [after_of_ok hb] at hd
  have hlt : e₁.index < d.heap.frames.size := (Array.getElem?_eq_some_iff.1 hsiblings.frame₁).1
  -- The two runs of the second text start from contexts that are alike.
  have hlater : d.Later ((evalText bound₁ pos₁ s₁ e₁).after d) :=
    later_after hsound' (Lockstep.evalChars bound₁ pos₁ s₁.toList ⟨rfl, hlt⟩)
  have hlike := (hsiblings.like_keeping hsound).apart hsiblings.apart
    (evalChars_writesTo bound₁ pos₁ s₁.toList e₁ d) hlater
  have hlockstep : Lockstep (.keeping c e₂) Value.Like (evalText bound₂ pos₂ s₂ e₂)
      (evalText bound₂ pos₂ s₂ e₂) :=
    Lockstep.evalChars bound₂ pos₂ s₂.toList ⟨rfl, .inr rfl⟩
  exact hlockstep.sameOutcome hlike

/-- In a new context, what a text defines for itself is not there for the text of its sibling. -/
theorem siblings_apart_new :
    SameOutcome ((Request.frame (some .root)).run ((Request.frame (some .root)).run (.new {})))
      ((evalText 64 (.start "one") "(fun f (x) (dump x)) (f 1)" ⟨1⟩).after
        ((Request.frame (some .root)).run ((Request.frame (some .root)).run (.new {}))))
      (evalText 64 (.start "two") "(f 1)" ⟨2⟩
        ((Request.frame (some .root)).run ((Request.frame (some .root)).run (.new {}))))
      (evalText 64 (.start "two") "(f 1)" ⟨2⟩
        ((evalText 64 (.start "one") "(fun f (x) (dump x)) (f 1)" ⟨1⟩).after
          ((Request.frame (some .root)).run ((Request.frame (some .root)).run (.new {}))))) :=
  siblings_apart (.new {}) rfl rfl (.inl ⟨rfl, rfl⟩) 64 64 (.start "one") (.start "two") _ _

end Eval

end SplatLisp
