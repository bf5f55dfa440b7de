import SplatLisp.Proofs.Runs

/-!
# Links made in advance

Frames and identities are numbered in the order in which they are made, so it can be said in advance
which of those that one run will make go with which of those that another will. With links that say
so, no handle has to be linked on the way. Two contexts correspond under such links if linked
environments lead to frames that bind linked symbols to values that correspond, or to none, and if
all that they will make is linked (`Context.Corresponds`). They stay so at every step, under these
very links (`Context.congruence_corresponds`), whatever the contexts bind: the values may be
unclean, and their handles may lead nowhere.
-/

namespace SplatLisp

variable {K : Links}

/-! ## Frames -/

/-- Frames that lead to linked frames, which are older in both cases or in none, and that bind
linked symbols to values that correspond. -/
structure Frame.Corresponds (K : Links) (env env' : Env) (frame frame' : Frame) : Prop where
  parent : Option.Rel (fun p p' => K.env p p' ∧ (p.index < env.index ↔ p'.index < env'.index))
    frame.parent frame'.parent
  slots : ∀ {s s'}, K.symbol s s' →
    Option.Rel (fun slot slot' => (slot.value env).Corresponds K (slot'.value env'))
      (frame.get? s) (frame'.get? s')

namespace Frame.Corresponds

variable {env env' : Env} {frame frame' : Frame}

theorem empty {parent parent' : Option Env}
    (h : Option.Rel (fun p p' => K.env p p' ∧ (p.index < env.index ↔ p'.index < env'.index))
      parent parent') : (Frame.empty parent).Corresponds K env env' (.empty parent') where
  parent := h
  slots _ := by
    rw [get?_empty, get?_empty]
    exact .none

theorem insert (h : frame.Corresponds K env env' frame') {s s' : Symbol} (hs : K.symbol s s')
    {value value' : Value} (hvalue : value.Corresponds K value') :
    (frame.insert s (.ofValue env value)).Corresponds K env env'
      (frame'.insert s' (.ofValue env' value')) where
  parent := h.parent
  slots {t t'} ht := by
    rw [get?_insert, get?_insert]
    by_cases htag : s.tag = t.tag
    · rw [if_pos htag, if_pos ((K.tag_iff hs ht).1 htag)]
      refine .some ?_
      rwa [Slot.value_ofValue, Slot.value_ofValue]
    · rw [if_neg htag, if_neg fun htag' => htag ((K.tag_iff hs ht).2 htag')]
      exact h.slots ht

end Frame.Corresponds

/-! ## Heaps -/

/-- Heaps in which linked environments lead to frames that correspond, or to none. -/
def Heap.Corresponds (K : Links) (heap heap' : Heap) : Prop :=
  ∀ ⦃env env'⦄, K.env env env' →
    Option.Rel (Frame.Corresponds K env env') (heap.frame? env) (heap'.frame? env')

namespace Heap.Corresponds

variable {heap heap' : Heap} {env env' : Env}

theorem index_lt_iff (h : heap.Corresponds K heap') (henv : K.env env env') :
    env.index < heap.frames.size ↔ env'.index < heap'.frames.size := by
  rw [← frame?_isSome_iff, ← frame?_isSome_iff, isSome_of_rel (h henv)]

theorem lookup (h : heap.Corresponds K heap') (henv : K.env env env') {s s' : Symbol}
    (hs : K.symbol s s') :
    Option.Rel (Value.Corresponds K) (heap.lookup env s) (heap'.lookup env' s') := by
  -- The search goes on in linked parents, and is given up in both heaps at a time.
  induction hn : env.index using Nat.strongRecOn generalizing env env' with
  | ind n ih =>
    subst hn
    unfold Heap.lookup
    cases hframe : heap.frame? env with
    | none =>
      rw [eq_none_of_rel (h henv) hframe]
      exact .none
    | some frame =>
      obtain ⟨frame', hframe', hcorr⟩ := exists_of_rel (h henv) hframe
      rw [hframe']
      dsimp only
      cases hslot : frame.get? s with
      | some slot =>
        obtain ⟨slot', hslot', hvalue⟩ := exists_of_rel (hcorr.slots hs) hslot
        rw [hslot']
        exact .some hvalue
      | none =>
        rw [eq_none_of_rel (hcorr.slots hs) hslot]
        dsimp only
        cases hparent : frame.parent with
        | none =>
          rw [eq_none_of_rel hcorr.parent hparent]
          exact .none
        | some p =>
          obtain ⟨p', hparent', hp, hiff⟩ := exists_of_rel hcorr.parent hparent
          rw [hparent']
          dsimp only
          by_cases hlt : p.index < env.index
          · rw [if_pos hlt, if_pos (hiff.1 hlt)]
            exact ih p.index hlt hp rfl
          · rw [if_neg hlt, if_neg fun hlt' => hlt (hiff.2 hlt')]
            exact .none

theorem define (h : heap.Corresponds K heap') (henv : K.env env env') {s s' : Symbol}
    (hs : K.symbol s s') {value value' : Value} (hvalue : value.Corresponds K value') :
    (heap.define env s value).Corresponds K (heap'.define env' s' value') := by
  intro e e' he
  by_cases heq : e = env
  · have heq' : e' = env' := (K.env_iff he henv).1 heq
    subst heq heq'
    rw [frame?_define_self, frame?_define_self]
    cases hframe : heap.frame? e with
    | none =>
      rw [eq_none_of_rel (h he) hframe]
      exact .none
    | some frame =>
      obtain ⟨frame', hframe', hcorr⟩ := exists_of_rel (h he) hframe
      rw [hframe']
      exact .some (hcorr.insert hs hvalue)
  · have hne' : e' ≠ env' := fun heq' => heq ((K.env_iff he henv).2 heq')
    rw [frame?_define_of_ne heq, frame?_define_of_ne hne']
    exact h he

theorem alloc (h : heap.Corresponds K heap')
    (hnext : K.env ⟨heap.frames.size⟩ ⟨heap'.frames.size⟩) {parent parent' : Option Env}
    (hparent : Option.Rel K.env parent parent') :
    (heap.alloc parent).2.Corresponds K (heap'.alloc parent').2 := by
  intro e e' he
  rw [frame?_alloc_eq, frame?_alloc_eq]
  have hindex : ∀ (e : Env) (n : Nat), e.index = n ↔ e = ⟨n⟩ := by
    rintro ⟨index⟩ n
    simp
  by_cases heq : e = ⟨heap.frames.size⟩
  · have heq' : e' = ⟨heap'.frames.size⟩ := (K.env_iff he hnext).1 heq
    rw [if_pos ((hindex ..).2 heq), if_pos ((hindex ..).2 heq')]
    refine .some (.empty (option_rel_imp (fun hp => ⟨hp, ?_⟩) hparent))
    rw [heq, heq']
    exact h.index_lt_iff hp
  · have hne' : e' ≠ ⟨heap'.frames.size⟩ := fun heq' => heq ((K.env_iff he hnext).2 heq')
    rw [if_neg fun hsize => heq ((hindex ..).1 hsize),
      if_neg fun hsize => hne' ((hindex ..).1 hsize)]
    exact h he

end Heap.Corresponds

/-! ## Contexts -/

/-- Contexts from which two runs go side by side under the same links throughout. -/
structure Context.Corresponds (K : Links) (c c' : Context) : Prop where
  heap : c.heap.Corresponds K c'.heap
  /-- The frames that will be made are linked in order. -/
  frames : ∀ k, K.env ⟨c.heap.frames.size + k⟩ ⟨c'.heap.frames.size + k⟩
  identities : ∀ k, K.identity (c.identities + k) (c'.identities + k)
  types : c.types = c'.types
  diagnostics : c.diagnostics = c'.diagnostics
  out : c.out = c'.out

/-- The relation of contexts that correspond under certain links, and of none under others. -/
def Context.CorrespondsAt (K L : Links) (c c' : Context) : Prop := L = K ∧ c.Corresponds K c'

theorem Context.congruence_corresponds (K : Links) :
    Congruence Value.Corresponds (CorrespondsAt K) where
  types hc := hc.2.types
  diagnostics hc := hc.2.diagnostics
  out hc := hc.2.out
  write hc _ _ :=
    ⟨hc.1, hc.2.heap, hc.2.frames, hc.2.identities, hc.2.types, hc.2.diagnostics, hc.2.out⟩
  lookup := by
    rintro _ c c' env env' s s' ⟨rfl, hc⟩ henv hs
    exact hc.heap.lookup henv hs
  define := by
    rintro _ c c' env env' s s' value value' ⟨rfl, hc⟩ henv hs hvalue
    refine ⟨rfl, hc.heap.define henv hs hvalue, fun k => ?_, hc.identities, hc.types,
      hc.diagnostics, hc.out⟩
    rw [Heap.size_define, Heap.size_define]
    exact hc.frames k
  alloc := by
    rintro L c c' parent parent' ⟨rfl, hc⟩ hparent
    refine ⟨L, le_rfl, hc.frames 0, rfl, hc.heap.alloc (hc.frames 0) hparent, fun k => ?_,
      hc.identities, hc.types, hc.diagnostics, hc.out⟩
    rw [Heap.size_alloc, Heap.size_alloc, Nat.add_assoc, Nat.add_assoc]
    exact hc.frames (1 + k)
  fresh := by
    rintro L c c' ⟨rfl, hc⟩
    refine ⟨L, le_rfl, hc.identities 0, rfl, hc.heap, hc.frames, fun k => ?_, hc.types,
      hc.diagnostics, hc.out⟩
    change L.identity (c.identities + 1 + k) (c'.identities + 1 + k)
    rw [Nat.add_assoc, Nat.add_assoc]
    exact hc.identities (1 + k)

/-! ## Correspondence of a thing to itself -/

/-- Whether links link all handles to themselves. -/
structure Links.Reflexive (K : Links) : Prop where
  env : ∀ e, K.env e e
  identity : ∀ i, K.identity i i
  symbol : ∀ s, K.symbol s s

theorem Links.same_reflexive : Links.same.Reflexive :=
  ⟨fun _ => rfl, fun _ => rfl, fun _ => rfl⟩

theorem Fun.like_self (hK : K.Reflexive) (fn : Fun) : fn.Like K fn where
  identity := hK.identity _
  name := option_rel_self hK.symbol _
  params := List.forall₂_same.2 fun s _ => hK.symbol s
  rest := option_rel_self hK.symbol _
  body := Form.likes_self K.pos_self fn.body fun s _ => hK.symbol s

namespace Value

mutual

theorem corresponds_self (hK : K.Reflexive) : (v : Value) → v.Corresponds K v
  | .nil => .leaf .nil
  | .bool b => .leaf (.bool b)
  | .int n => .leaf (.int n)
  | .vec items => .vec (correspond_self hK items)
  | .splat inner => .splat (corresponds_self hK inner)
  | .fn closure => .leaf (.fn (closure.fn.like_self hK) (hK.env _))
  | .prim ⟨i, name, min, max, op⟩ => .leaf (.prim (hK.identity i) name min max op)
  | .type t => .leaf (.type t)
  | .host ⟨i, t, data⟩ => .leaf (.host (hK.identity i) t data)

theorem correspond_self (hK : K.Reflexive) :
    (items : List Value) → List.Forall₂ (Corresponds K) items items
  | [] => .nil
  | item :: items => .cons (corresponds_self hK item) (correspond_self hK items)

end

end Value

/-- Under links of all handles to themselves every context corresponds to itself, provided that the
symbols linked are the same. -/
theorem Context.corresponds_self (hK : K.Reflexive)
    (hsymbol : ∀ {s s'}, K.symbol s s' → s.tag = s'.tag) (c : Context) : c.Corresponds K c where
  heap := by
    intro e e' he
    obtain rfl : e = e' := (K.env_iff (hK.env e) he).1 rfl
    refine option_rel_self (fun frame => ⟨?_, fun {s s'} hs => ?_⟩) _
    · exact option_rel_self (fun p => ⟨hK.env p, Iff.rfl⟩) _
    · have hget : frame.get? s = frame.get? s' := by rw [Frame.get?, Frame.get?, hsymbol hs]
      rw [hget]
      refine option_rel_self (fun slot => ?_) _
      exact Value.corresponds_self hK (slot.value e)
  frames k := hK.env _
  identities k := hK.identity _
  types := rfl
  diagnostics := rfl
  out := rfl

end SplatLisp
