import SplatLisp.Proofs.Runs

/-!
# Two runs in lockstep

Two runs of the same code start from contexts that are alike: linked environments lead to frames
that bind linked symbols to values that are alike (`Context.Like`). They stay alike step by step
(`Context.congruence_like`), where each frame and each identity that the one run makes is linked to
the one that the other makes at the same time. So evaluation of forms that are alike runs in
lockstep (`parallel_lockstep`).

A symbol that is not linked is bound in neither of two frames that are alike, so frames stay alike
when more symbols are linked.
-/

namespace SplatLisp

variable {L M : Links}

/-! ## Frames -/

/-- Frames that bind linked symbols to values that are alike and lead to linked older frames. -/
structure Frame.Like (L : Links) (env env' : Env) (frame frame' : Frame) : Prop where
  parent : Option.Rel (fun p p' => L.env p p' ∧ p.index < env.index ∧ p'.index < env'.index)
    frame.parent frame'.parent
  bound : ∀ {symbol slot}, frame.get? symbol = some slot → ∃ s s' slot', L.symbol s s' ∧
    s.tag = symbol.tag ∧ frame'.get? s' = some slot' ∧ (slot.value env).Like L (slot'.value env')
  bound' : ∀ {symbol' slot'}, frame'.get? symbol' = some slot' → ∃ s s', L.symbol s s' ∧
    s'.tag = symbol'.tag ∧ (frame.get? s).isSome = true

namespace Frame

variable {env env' : Env} {frame frame' : Frame}

theorem get?_congr (frame : Frame) {s t : Symbol} (h : s.tag = t.tag) :
    frame.get? s = frame.get? t := by
  rw [get?, get?, h]

theorem Like.mono (h : frame.Like L env env' frame') (hLM : L ≤ M) :
    frame.Like M env env' frame' where
  parent := option_rel_imp (fun hp => ⟨hLM.env hp.1, hp.2⟩) h.parent
  bound hslot := by
    obtain ⟨s, s', slot', hs, htag, hslot', hvalue⟩ := h.bound hslot
    exact ⟨s, s', slot', hLM.symbol hs, htag, hslot', hvalue.mono hLM⟩
  bound' hslot' := by
    obtain ⟨s, s', hs, htag, hslot⟩ := h.bound' hslot'
    exact ⟨s, s', hLM.symbol hs, htag, hslot⟩

/-- Linked symbols are bound to values that are alike, or not at all. -/
theorem Like.get?_rel (h : frame.Like L env env' frame') {s s' : Symbol} (hs : L.symbol s s') :
    Option.Rel (fun slot slot' => (slot.value env).Like L (slot'.value env')) (frame.get? s)
      (frame'.get? s') := by
  cases hslot : frame.get? s with
  | some slot =>
    obtain ⟨t, t', slot', ht, htag, hslot', hvalue⟩ := h.bound hslot
    rw [frame'.get?_congr ((L.tag_iff ht hs).1 htag)] at hslot'
    rw [hslot']
    exact .some hvalue
  | none =>
    cases hslot' : frame'.get? s' with
    | none => exact .none
    | some slot' =>
      obtain ⟨t, t', ht, htag, hbound⟩ := h.bound' hslot'
      rw [frame.get?_congr ((L.tag_iff ht hs).2 htag), hslot] at hbound
      cases hbound

theorem Like.insert (h : frame.Like L env env' frame') {s s' : Symbol} (hs : L.symbol s s')
    {value value' : Value} (hvalue : value.Like L value') :
    (frame.insert s (.ofValue env value)).Like L env env'
      (frame'.insert s' (.ofValue env' value')) where
  parent := h.parent
  bound := by
    intro t slot hslot
    rw [get?_insert] at hslot
    by_cases htag : s.tag = t.tag
    · rw [if_pos htag] at hslot
      cases hslot
      refine ⟨s, s', _, hs, htag, get?_insert_self .., ?_⟩
      rwa [Slot.value_ofValue, Slot.value_ofValue]
    · rw [if_neg htag] at hslot
      obtain ⟨u, u', slot', hu, htag', hslot', hlike⟩ := h.bound hslot
      refine ⟨u, u', slot', hu, htag', ?_, hlike⟩
      rw [get?_insert, if_neg]
      · exact hslot'
      · intro heq
        exact htag (((L.tag_iff hs hu).2 heq).trans htag')
  bound' := by
    intro t' slot' hslot'
    rw [get?_insert] at hslot'
    by_cases htag : s'.tag = t'.tag
    · exact ⟨s, s', hs, htag, by rw [get?_insert_self]; rfl⟩
    · rw [if_neg htag] at hslot'
      obtain ⟨u, u', hu, htag', hbound⟩ := h.bound' hslot'
      refine ⟨u, u', hu, htag', ?_⟩
      rw [get?_insert]
      split
      · rfl
      · exact hbound

theorem Like.empty {parent parent' : Option Env}
    (h : Option.Rel (fun p p' => L.env p p' ∧ p.index < env.index ∧ p'.index < env'.index) parent
      parent') : (Frame.empty parent).Like L env env' (.empty parent') where
  parent := h
  bound hslot := by
    rw [get?_empty] at hslot
    cases hslot
  bound' hslot := by
    rw [get?_empty] at hslot
    cases hslot

end Frame

/-! ## Heaps -/

/-- Heaps in which linked environments lead to frames that are alike. -/
def Heap.Like (L : Links) (heap heap' : Heap) : Prop :=
  ∀ ⦃env env'⦄, L.env env env' → ∃ frame frame', heap.frame? env = some frame ∧
    heap'.frame? env' = some frame' ∧ frame.Like L env env' frame'

namespace Heap.Like

variable {heap heap' : Heap} {env env' : Env}

theorem index_lt (h : heap.Like L heap') (henv : L.env env env') :
    env.index < heap.frames.size ∧ env'.index < heap'.frames.size := by
  obtain ⟨frame, frame', hframe, hframe', -⟩ := h henv
  exact ⟨(Array.getElem?_eq_some_iff.1 hframe).1, (Array.getElem?_eq_some_iff.1 hframe').1⟩

theorem lookup (h : heap.Like L heap') (henv : L.env env env') {s s' : Symbol}
    (hs : L.symbol s s') :
    Option.Rel (Value.Like L) (heap.lookup env s) (heap'.lookup env' s') := by
  -- The parents of linked frames are linked, and older.
  induction hn : env.index using Nat.strongRecOn generalizing env env' with
  | ind n ih =>
    subst hn
    obtain ⟨frame, frame', hframe, hframe', hlike⟩ := h henv
    unfold Heap.lookup
    rw [hframe, hframe']
    dsimp only
    cases hslot : frame.get? s with
    | some slot =>
      obtain ⟨slot', hslot', hvalue⟩ := exists_of_rel (hlike.get?_rel hs) hslot
      rw [hslot']
      exact .some hvalue
    | none =>
      rw [eq_none_of_rel (hlike.get?_rel hs) hslot]
      dsimp only
      cases hparent : frame.parent with
      | none =>
        rw [eq_none_of_rel hlike.parent hparent]
        exact .none
      | some p =>
        obtain ⟨p', hparent', hp, hlt, hlt'⟩ := exists_of_rel hlike.parent hparent
        rw [hparent']
        dsimp only
        rw [if_pos hlt, if_pos hlt']
        exact ih p.index hlt hp rfl

theorem define (h : heap.Like L heap') (henv : L.env env env') {s s' : Symbol} (hs : L.symbol s s')
    {value value' : Value} (hvalue : value.Like L value') :
    (heap.define env s value).Like L (heap'.define env' s' value') := by
  intro e e' he
  obtain ⟨frame, frame', hframe, hframe', hlike⟩ := h he
  by_cases heq : e = env
  · have heq' : e' = env' := (L.env_iff he henv).1 heq
    subst heq heq'
    refine ⟨_, _, ?_, ?_, hlike.insert hs hvalue⟩
    · rw [frame?_define_self, hframe]
      rfl
    · rw [frame?_define_self, hframe']
      rfl
  · have hne' : e' ≠ env' := fun heq' => heq ((L.env_iff he henv).2 heq')
    refine ⟨frame, frame', ?_, ?_, hlike⟩
    · rw [frame?_define_of_ne heq, hframe]
    · rw [frame?_define_of_ne hne', hframe']

theorem mono_of_env (h : heap.Like L heap') (hLM : L ≤ M)
    (henv : ∀ {e e'}, M.env e e' → L.env e e') : heap.Like M heap' := by
  intro e e' he
  obtain ⟨frame, frame', hframe, hframe', hlike⟩ := h (henv he)
  exact ⟨frame, frame', hframe, hframe', hlike.mono hLM⟩

end Heap.Like

/-! ## New handles -/

/-- A relation that is one to one stays so when two new things are related. -/
theorem iff_of_link {α : Type} {r : α → α → Prop} {a a' : α}
    (hr : ∀ {b b' d d'}, r b b' → r d d' → (b = d ↔ b' = d'))
    (hnew : ∀ {b b'}, r b b' → b ≠ a ∧ b' ≠ a') {b b' d d' : α}
    (hb : r b b' ∨ b = a ∧ b' = a') (hd : r d d' ∨ d = a ∧ d' = a') : b = d ↔ b' = d' := by
  rcases hb with hb | ⟨rfl, rfl⟩
  · rcases hd with hd | ⟨rfl, rfl⟩
    · exact hr hb hd
    · exact iff_of_false (hnew hb).1 (hnew hb).2
  · rcases hd with hd | ⟨rfl, rfl⟩
    · exact iff_of_false (hnew hd).1.symm (hnew hd).2.symm
    · exact iff_of_true rfl rfl

namespace Links

/-- The links together with one between two new environments. -/
def linkEnv (L : Links) (a a' : Env) (hnew : ∀ {b b'}, L.env b b' → b ≠ a ∧ b' ≠ a') : Links :=
  { L with
    env := fun b b' => L.env b b' ∨ b = a ∧ b' = a'
    env_iff := iff_of_link L.env_iff hnew }

/-- The links together with one between two new identities. -/
def linkIdentity (L : Links) (i i' : Identity)
    (hnew : ∀ {j j'}, L.identity j j' → j ≠ i ∧ j' ≠ i') : Links :=
  { L with
    identity := fun j j' => L.identity j j' ∨ j = i ∧ j' = i'
    identity_iff := iff_of_link L.identity_iff hnew }

theorem le_linkEnv (L : Links) (a a' : Env) (hnew : ∀ {b b'}, L.env b b' → b ≠ a ∧ b' ≠ a') :
    L ≤ L.linkEnv a a' hnew :=
  ⟨.inl, id, id, id⟩

theorem le_linkIdentity (L : Links) (i i' : Identity)
    (hnew : ∀ {j j'}, L.identity j j' → j ≠ i ∧ j' ≠ i') : L ≤ L.linkIdentity i i' hnew :=
  ⟨id, .inl, id, id⟩

end Links

/-- A new frame in each of two heaps. -/
theorem Heap.Like.alloc {heap heap' : Heap} {parent parent' : Option Env}
    (h : heap.Like L heap') (hparent : Option.Rel L.env parent parent') (hLM : L ≤ M)
    (hM : ∀ {e e'}, M.env e e' → L.env e e' ∨
      e = ⟨heap.frames.size⟩ ∧ e' = ⟨heap'.frames.size⟩) :
    (heap.alloc parent).2.Like M (heap'.alloc parent').2 := by
  intro e e' he
  rcases hM he with he | ⟨rfl, rfl⟩
  · obtain ⟨frame, frame', hframe, hframe', hlike⟩ := h he
    exact ⟨frame, frame', frame?_alloc hframe _, frame?_alloc hframe' _, hlike.mono hLM⟩
  · refine ⟨_, _, frame?_alloc_self heap _, frame?_alloc_self heap' _, .empty ?_⟩
    exact option_rel_imp (fun hp => ⟨hLM.env hp, h.index_lt hp⟩) hparent

/-! ## Contexts -/

/-- The symbols of one name in two tables. -/
structure SymbolTable.Shared (table table' : SymbolTable) (s s' : Symbol) : Prop where
  name : s.name = s'.name
  left : table.get? s.name = some s
  right : table'.get? s'.name = some s'

/-- Contexts from which two runs can go in lockstep. -/
structure Context.Like (L : Links) (c c' : Context) : Prop where
  heap : c.heap.Like L c'.heap
  identity : ∀ {i i'}, L.identity i i' → i < c.identities ∧ i' < c'.identities
  symbol : ∀ {s s'}, L.symbol s s' ↔ c.symbols.Shared c'.symbols s s'
  types : c.types = c'.types
  diagnostics : c.diagnostics = c'.diagnostics
  out : c.out = c'.out

namespace Context.Like

variable {c c' : Context}

/-- New frames are linked. -/
theorem alloc (h : c.Like L c') {parent parent' : Option Env}
    (hparent : Option.Rel L.env parent parent') :
    ∃ M, L ≤ M ∧ M.env ⟨c.heap.frames.size⟩ ⟨c'.heap.frames.size⟩ ∧
      { c with heap := (c.heap.alloc parent).2 }.Like M
        { c' with heap := (c'.heap.alloc parent').2 } := by
  have hnew : ∀ {e e'}, L.env e e' →
      e ≠ ⟨c.heap.frames.size⟩ ∧ e' ≠ ⟨c'.heap.frames.size⟩ := by
    intro e e' he
    obtain ⟨hlt, hlt'⟩ := h.heap.index_lt he
    constructor
    · rintro rfl
      exact Nat.lt_irrefl _ hlt
    · rintro rfl
      exact Nat.lt_irrefl _ hlt'
  have hLM := L.le_linkEnv _ _ hnew
  have hheap := h.heap.alloc hparent hLM id
  exact ⟨_, hLM, .inr ⟨rfl, rfl⟩, hheap, h.identity, h.symbol, h.types, h.diagnostics, h.out⟩

/-- New identities are linked. -/
theorem fresh (h : c.Like L c') :
    ∃ M, L ≤ M ∧ M.identity c.identities c'.identities ∧
      { c with identities := c.identities + 1 }.Like M
        { c' with identities := c'.identities + 1 } := by
  have hnew : ∀ {i i'}, L.identity i i' → i ≠ c.identities ∧ i' ≠ c'.identities := by
    intro i i' hi
    obtain ⟨hlt, hlt'⟩ := h.identity hi
    exact ⟨Nat.ne_of_lt hlt, Nat.ne_of_lt hlt'⟩
  have hLM := L.le_linkIdentity _ _ hnew
  refine ⟨_, hLM, .inr ⟨rfl, rfl⟩, h.heap.mono_of_env hLM id, ?_, h.symbol, h.types,
    h.diagnostics, h.out⟩
  intro i i' hi
  change i < c.identities + 1 ∧ i' < c'.identities + 1
  rcases hi with hi | ⟨rfl, rfl⟩
  · obtain ⟨hlt, hlt'⟩ := h.identity hi
    exact ⟨Nat.lt_succ_of_lt hlt, Nat.lt_succ_of_lt hlt'⟩
  · exact ⟨Nat.lt_succ_self _, Nat.lt_succ_self _⟩

end Context.Like

theorem Context.congruence_like : Congruence Value.Like Context.Like where
  types := Context.Like.types
  diagnostics := Context.Like.diagnostics
  out := Context.Like.out
  write hc _ _ := ⟨hc.heap, hc.identity, hc.symbol, hc.types, hc.diagnostics, hc.out⟩
  lookup hc henv hs := hc.heap.lookup henv hs
  define hc henv hs hvalue :=
    ⟨hc.heap.define henv hs hvalue, hc.identity, hc.symbol, hc.types, hc.diagnostics, hc.out⟩
  alloc hc hparent := hc.alloc hparent
  fresh := Context.Like.fresh

/-! ## Runs -/

namespace Eval

/-- Whether two computations run in lockstep from contexts that are alike, and do the same to them,
wherever they have started. -/
abbrev Lockstep {α : Type} (L : Links) (Q : Links → α → α → Prop) (x x' : Eval α) : Prop :=
  ∀ b b' : Context, RunsIn (Context.Since Context.Like b b') L Q x x'

theorem congruence_since_like (b b' : Context) :
    Context.Congruence Value.Like (Context.Since Context.Like b b') :=
  Context.congruence_like.since b b'

/-- What two runs in lockstep lead to and have done, however they end. -/
theorem Lockstep.exists_after {α : Type} {Q : Links → α → α → Prop} {x x' : Eval α}
    (h : Lockstep L Q x x') {c c' : Context} (hc : c.Like L c') :
    ∃ M, L ≤ M ∧ (x.after c).Like M (x'.after c') ∧
      Context.Grown M c c' (x.after c) (x'.after c') :=
  RunsIn.exists_after (h c c') ⟨hc, .refl L c c'⟩

theorem Lockstep.alloc {parent parent' : Option Env} (hparent : Option.Rel L.env parent parent') :
    Lockstep L Links.env (Eval.alloc parent) (Eval.alloc parent') :=
  fun b b' => RunsIn.alloc (congruence_since_like b b') hparent

theorem Lockstep.child {env env' : Env} (henv : L.env env env') :
    Lockstep L Links.env (Eval.child env) (Eval.child env') :=
  Lockstep.alloc (.some henv)

end Eval

open Eval

instance : Nonempty Context := ⟨.new {}⟩

open scoped CoreOnly in
/-- **All that evaluation consists of runs in lockstep** on things that are alike. -/
theorem parallel_lockstep :
    Parallel Value.Like Value.ItemsLike fun L _ Q x x' => Lockstep L Q x x' :=
  .all fun b => .all fun b' =>
    parallel_runsIn Value.congruence_like (congruence_since_like b b') hostsRunIn_coreOnly

end SplatLisp
