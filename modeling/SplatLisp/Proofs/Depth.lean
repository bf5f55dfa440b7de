import SplatLisp.Proofs.Correspondence

/-!
# Bounds on nesting

The bound on how deep evaluations may nest decides whether an evaluation is carried out to its end,
and not what it comes to: one that has ended within a bound ends in the same way within every
greater one (`Eval.deepens_eval`). So a form comes to one thing at most, if it may nest deep enough
(`Eval.ComesTo.unique`).

Two computations that need different depths for the same work come to the same things, if each ends
as the other does as soon as it may nest a few levels deeper (`Eval.Close.comesTo_iff`). Being close
in this sense is kept by computations one after the other (`Eval.Close.bind`).
-/

namespace SplatLisp

namespace Eval

variable {α β : Type}

/-! ## Deeper evaluation -/

/-- How a computation ends that may nest deeper than another one. -/
inductive Reaches (Q : α → α → Prop) :
    EStateM.Result Stop Context α → EStateM.Result Stop Context α → Prop
  | exhausted (d : Context) (r : EStateM.Result Stop Context α) :
    Reaches Q (.error .exhausted d) r
  | ok {a a' : α} (hQ : Q a a') (d : Context) : Reaches Q (.ok a d) (.ok a' d)
  | error (stop : Stop) (d : Context) : Reaches Q (.error stop d) (.error stop d)

/-- Whether a computation reaches in every context what another one does, if links hold that link
all handles to themselves. -/
def AllReach (L : Links) (Q : Links → α → α → Prop) (x x' : Eval α) : Prop :=
  L = .same → ∀ c, Reaches (Q .same) (x c) (x' c)

/-- What ends as another computation does, unless that one is exhausted, reaches it. -/
theorem reaches_of_deepens {Q : α → α → Prop} (hQ : ∀ a, Q a a) {x y : Eval α} {c : Context}
    (h : Deepens c x y) : Reaches Q (x c) (y c) := by
  unfold Deepens at h
  cases hx : x c with
  | ok a d =>
    rw [hx] at h
    rw [h trivial]
    exact .ok (hQ a) d
  | error stop d =>
    rw [hx] at h
    cases stop with
    | exhausted => exact .exhausted d _
    | _ =>
      rw [h trivial]
      exact .error _ d

theorem AllReach.deepens {Q : Links → α → α → Prop} {x x' : Eval α} (h : AllReach .same Q x x')
    (heq : ∀ a a', Q .same a a' → a = a') (c : Context) : Deepens c x x' := by
  intro hc
  have hreach := h rfl c
  generalize x c = result at hc hreach ⊢
  generalize x' c = result' at hreach ⊢
  cases hreach with
  | exhausted d _ => exact hc.elim
  | ok hQ d => rw [heq _ _ hQ]
  | error stop d => rfl

theorem AllReach.bind {L : Links} {P : Links → α → α → Prop} {Q : Links → β → β → Prop}
    {x x' : Eval α} {f f' : α → Eval β} (hx : AllReach L P x x')
    (hf : ∀ M, L ≤ M → ∀ a a', P M a a' → AllReach M Q (f a) (f' a')) :
    AllReach L Q (x >>= f) (x' >>= f') := by
  rintro rfl c
  have hreach := hx rfl c
  change Reaches _ (EStateM.bind x f c) (EStateM.bind x' f' c)
  unfold EStateM.bind
  generalize x c = result at hreach
  generalize x' c = result' at hreach
  cases hreach with
  | exhausted d _ => exact .exhausted d _
  | ok hP d => exact hf .same le_rfl _ _ hP rfl d
  | error stop d => exact .error stop d

section Evaluation

variable [HostPrims]

/-- All that evaluation consists of reaches what it does. -/
theorem parallel_allReach :
    Parallel Value.Corresponds (fun L => List.Forall₂ (Value.Corresponds L))
      fun L _ Q x x' => AllReach L Q x x' where
  values := Value.congruence_corresponds
  pure hQ := by
    rintro rfl c
    exact .ok hQ c
  bind := AllReach.bind
  fail h := by
    rintro rfl c
    rw [h.eq]
    exact .error _ _
  exhausted := fun _ c => .exhausted c _
  broken := fun _ c => .error .broken c
  lookup henv hsymbol := by
    rintro rfl c
    cases henv
    cases hsymbol
    rw [lookup_eq]
    cases c.heap.lookup _ _ with
    | none => exact .error _ _
    | some value => exact .ok (Value.corresponds_self Links.same_reflexive value) c
  fresh := by
    rintro L rfl c
    exact .ok rfl _
  typeOf h := by
    rintro rfl c
    rw [h.eq]
    exact .ok (.leaf (.type _)) c
  writeLine text := fun _ c => .ok trivial _
  define henv hsymbol hvalue := by
    rintro rfl c
    cases henv
    cases hsymbol
    rw [hvalue.eq]
    exact .ok trivial _
  child henv := by
    rintro rfl c
    cases henv
    exact .ok rfl _
  host {ev ev'} hev {L env env'} code {forms forms'} hforms henv := by
    rintro rfl c
    obtain rfl : env = env' := henv
    have heq := hforms.imp fun _ _ hform => hform.eq
    rw [List.forall₂_eq_eq_eq] at heq
    subst heq
    have hdeepens : ∀ form env c, Deepens c (ev form env) (ev' form env) := fun form env c =>
      AllReach.deepens (hev form.like_eq_self (show Links.same.env env env from rfl))
        (fun _ _ h => h.eq) c
    exact reaches_of_deepens (Value.corresponds_self Links.same_reflexive)
      (HostPrims.deepens hdeepens code forms env c)

variable {bound bound' : Nat}

/-- Evaluation reaches what it does within a smaller bound. -/
theorem allReach_eval (hle : bound ≤ bound') {L : Links} {form form' : Form} {env env' : Env}
    (hform : form.Like L.symbol L.pos form') (henv : L.env env env') :
    AllReach L Value.Corresponds (eval bound form env) (eval bound' form' env') := by
  induction bound generalizing bound' L form form' env env' with
  | zero => exact fun _ c => .exhausted c _
  | succ bound ih =>
    cases bound' with
    | zero => exact absurd hle (Nat.not_succ_le_zero bound)
    | succ bound' =>
      exact parallel_allReach.evalStep (ih (Nat.le_of_succ_le_succ hle)) hform henv

/-- **What has ended within a bound ends in the same way within every greater one.** -/
theorem deepens_eval (hle : bound ≤ bound') (form : Form) (env : Env) (c : Context) :
    Deepens c (eval bound form env) (eval bound' form env) :=
  (allReach_eval hle form.like_eq_self rfl).deepens (fun _ _ h => h.eq) c

theorem deepens_evalArgs (hle : bound ≤ bound') (forms : List Form) (env : Env) (c : Context) :
    Deepens c (evalArgs (eval bound) forms env) (evalArgs (eval bound') forms env) := by
  apply (parallel_allReach.evalArgs (allReach_eval hle) (Form.likes_eq_self forms) rfl).deepens
  intro values values' h
  have heq := h.imp fun _ _ hvalue => hvalue.eq
  rwa [List.forall₂_eq_eq_eq] at heq

theorem deepens_applyClosure (hle : bound ≤ bound') (callee : Value) (closure : Closure)
    (args : List Value) (c : Context) :
    Deepens c (applyClosure (eval bound) callee closure args)
      (applyClosure (eval bound') callee closure args) := by
  have hself := Links.same_reflexive
  apply (parallel_allReach.applyClosure (allReach_eval hle) (Value.corresponds_self hself callee)
    (closure.fn.like_self hself) rfl (Value.correspond_self hself args)).deepens
  exact fun _ _ h => h.eq

end Evaluation

/-! ## What a computation comes to -/

variable {x y : Nat → Eval α} {f g : α → Nat → Eval β} {c : Context} {k : Nat}
  {r r' : EStateM.Result Stop Context α}

/-- Whether a computation ends in a certain way if it may nest deep enough. -/
def ComesTo (x : Nat → Eval α) (c : Context) (r : EStateM.Result Stop Context α) : Prop :=
  Finished r ∧ ∃ bound, x bound c = r

/-- Whether greater bounds do not change how a computation ends. -/
def Deepening (x : Nat → Eval α) : Prop := ∀ ⦃n m⦄, n ≤ m → ∀ c, Deepens c (x n) (x m)

theorem ComesTo.unique (hx : Deepening x) (h : ComesTo x c r) (h' : ComesTo x c r') : r = r' := by
  obtain ⟨hfinished, n, rfl⟩ := h
  obtain ⟨hfinished', m, rfl⟩ := h'
  rcases Nat.le_total n m with hle | hle
  · exact (hx hle c hfinished).symm
  · exact hx hle c hfinished'

/-- Whether two computations each end as the other does when they may nest `k` levels deeper. -/
def Close (k : Nat) (c : Context) (x y : Nat → Eval α) : Prop :=
  ∀ bound, Deepens c (x bound) (y (bound + k)) ∧ Deepens c (y bound) (x (bound + k))

namespace Close

theorem of_deepening (hx : Deepening x) (k : Nat) (c : Context) : Close k c x x := by
  intro bound
  have hle : bound ≤ bound + k := by omega
  exact ⟨hx hle c, hx hle c⟩

theorem refl (k : Nat) (c : Context) (x : Eval α) : Close k c (fun _ => x) fun _ => x :=
  fun _ => ⟨.refl x, .refl x⟩

/-- Close computations come to the same. -/
theorem comesTo_iff (hxy : Close k c x y) : ComesTo x c r ↔ ComesTo y c r := by
  constructor
  · rintro ⟨hfinished, bound, rfl⟩
    exact ⟨hfinished, bound + k, (hxy bound).1 hfinished⟩
  · rintro ⟨hfinished, bound, rfl⟩
    exact ⟨hfinished, bound + k, (hxy bound).2 hfinished⟩

theorem bind (hxy : Close k c x y)
    (hfg : ∀ a d, ComesTo x c (.ok a d) → Close k d (f a) (g a)) :
    Close k c (fun bound => x bound >>= (f · bound)) fun bound => y bound >>= (g · bound) := by
  intro bound
  constructor
  · apply (hxy bound).1.bind
    intro a d hok
    exact (hfg a d ⟨trivial, bound, hok⟩ bound).1
  · apply (hxy bound).2.bind
    intro a d hok
    exact (hfg a d (hxy.comesTo_iff.2 ⟨trivial, bound, hok⟩) bound).2

/-- What goes on in the same way stays close. -/
theorem map (hxy : Close k c x y) (f : α → Eval β) :
    Close k c (fun bound => x bound >>= f) fun bound => y bound >>= f :=
  hxy.bind fun a d _ => refl k d (f a)

/-- Forms are close if their outermost levels are. -/
theorem eval [HostPrims] {form form' : Form} {env : Env}
    (h : Close k c (fun bound => evalStep (SplatLisp.eval bound) form env)
      fun bound => evalStep (SplatLisp.eval bound) form' env) :
    Close k c (SplatLisp.eval · form env) (SplatLisp.eval · form' env) := by
  intro bound
  cases bound with
  | zero => exact ⟨.exhausted _, .exhausted _⟩
  | succ bound =>
    dsimp only
    rw [Nat.add_right_comm]
    exact h bound

end Close

end Eval

end SplatLisp
