import SplatLisp.Heap

/-!
# Frames as plain maps

A heap stores a function that is bound in the frame it closes over without its environment. Nobody
can tell: every sequence of operations on frames has the answers that it has on a `PlainHeap`,
where a frame is a list of bindings of symbols to complete values, the latest first, and a parent
that never changes (`run_eq_plain`).

On a plain heap, a symbol is looked up along the chain of parents, which is said to be a finite list
(`PlainHeap.Chain`); nothing there depends on parents being older than their children. That they
are is an invariant of heaps (`PlainHeap.Mirrors`), so every chain is finite and the search of
`Heap.lookup` never gives up before its end.
-/

namespace SplatLisp

/-! ## Operations and answers -/

inductive FrameOp where
  /-- Makes a frame without parent. -/
  | new
  | child (env : Env)
  | define (env : Env) (symbol : Symbol) (value : Value)
  | lookup (env : Env) (symbol : Symbol)
  | isLocal (env : Env) (symbol : Symbol)
  | parent (env : Env)

inductive FrameAnswer where
  | env (env : Env)
  | done
  | found (value : Option Value)
  | isLocal (b : Bool)
  | parent (env : Option Env)

namespace FrameOp

/-- The environment that an operation works on. -/
def env? : FrameOp → Option Env
  | new => none
  | child env => some env
  | define env _ _ => some env
  | lookup env _ => some env
  | isLocal env _ => some env
  | parent env => some env

/-- How many frames an operation makes. -/
def makes : FrameOp → Nat
  | new => 1
  | child _ => 1
  | _ => 0

/-- Whether operations work on frames that exist by then, if a number of frames exists before. The
values that are bound may be any. -/
def AllExist : Nat → List FrameOp → Prop
  | _, [] => True
  | n, op :: ops => (∀ env ∈ op.env?, env.index < n) ∧ AllExist (n + op.makes) ops

end FrameOp

def Heap.perform (heap : Heap) : FrameOp → FrameAnswer × Heap
  | .new => (.env (heap.alloc none).1, (heap.alloc none).2)
  | .child env => (.env (heap.alloc (some env)).1, (heap.alloc (some env)).2)
  | .define env symbol value => (.done, heap.define env symbol value)
  | .lookup env symbol => (.found (heap.lookup env symbol), heap)
  | .isLocal env symbol => (.isLocal (heap.isLocal env symbol), heap)
  | .parent env => (.parent (heap.parent? env), heap)

/-- Performs operations in order and collects the answers. -/
def Heap.run (heap : Heap) : List FrameOp → List FrameAnswer × Heap
  | [] => ([], heap)
  | op :: ops =>
    let (answer, heap) := heap.perform op
    let (answers, heap) := heap.run ops
    (answer :: answers, heap)

/-! ## Plain frames -/

structure PlainFrame where
  /-- The bindings, the latest first. -/
  bindings : List (Symbol × Value)
  parent : Option Env

def PlainFrame.get? (frame : PlainFrame) (symbol : Symbol) : Option Value :=
  (frame.bindings.find? fun binding => binding.1 == symbol).map Prod.snd

structure PlainHeap where
  frames : Array PlainFrame

namespace PlainHeap

def empty : PlainHeap := ⟨#[]⟩

def frame? (plain : PlainHeap) (env : Env) : Option PlainFrame := plain.frames[env.index]?

/-- What a symbol is bound to in a frame itself. -/
def get? (plain : PlainHeap) (env : Env) (symbol : Symbol) : Option Value :=
  (plain.frame? env).bind fun frame => frame.get? symbol

def alloc (plain : PlainHeap) (parent : Option Env) : PlainHeap :=
  ⟨plain.frames.push ⟨[], parent⟩⟩

def define (plain : PlainHeap) (env : Env) (symbol : Symbol) (value : Value) : PlainHeap :=
  ⟨plain.frames.modify env.index fun frame =>
    { frame with bindings := (symbol, value) :: frame.bindings }⟩

/-- The frames that a search goes through, from a frame to the last of its parents. -/
inductive Chain (plain : PlainHeap) : Env → List Env → Prop
  | last {env : Env} {frame : PlainFrame} (hframe : plain.frame? env = some frame)
    (hparent : frame.parent = none) : Chain plain env [env]
  | cons {env parent : Env} {frame : PlainFrame} {envs : List Env}
    (hframe : plain.frame? env = some frame) (hparent : frame.parent = some parent)
    (h : Chain plain parent envs) : Chain plain env (env :: envs)

/-- What an operation answers, and the heap after it. -/
inductive Performs (plain : PlainHeap) : FrameOp → FrameAnswer → PlainHeap → Prop
  | new : Performs plain .new (.env ⟨plain.frames.size⟩) (plain.alloc none)
  | child (env : Env) :
    Performs plain (.child env) (.env ⟨plain.frames.size⟩) (plain.alloc (some env))
  | define (env : Env) (symbol : Symbol) (value : Value) :
    Performs plain (.define env symbol value) .done (plain.define env symbol value)
  /-- The nearest frame that binds the symbol has the value. -/
  | lookup {env : Env} {chain : List Env} (symbol : Symbol) (h : plain.Chain env chain) :
    Performs plain (.lookup env symbol)
      (.found (chain.findSome? fun frame => plain.get? frame symbol)) plain
  | isLocal (env : Env) (symbol : Symbol) :
    Performs plain (.isLocal env symbol) (.isLocal (plain.get? env symbol).isSome) plain
  | parent (env : Env) :
    Performs plain (.parent env) (.parent ((plain.frame? env).bind PlainFrame.parent)) plain

/-- What operations in order answer, and the heap after them. -/
inductive Runs : PlainHeap → List FrameOp → List FrameAnswer → PlainHeap → Prop
  | nil (plain : PlainHeap) : Runs plain [] [] plain
  | cons {plain mid last : PlainHeap} {op : FrameOp} {ops : List FrameOp} {answer : FrameAnswer}
    {answers : List FrameAnswer} (hop : plain.Performs op answer mid)
    (hops : Runs mid ops answers last) : Runs plain (op :: ops) (answer :: answers) last

theorem Chain.unique {plain : PlainHeap} {env : Env} {chain chain' : List Env}
    (h : plain.Chain env chain) (h' : plain.Chain env chain') : chain = chain' := by
  induction h generalizing chain' with
  | last hframe hparent =>
    cases h' with
    | last _ _ => rfl
    | cons hframe' hparent' _ =>
      rw [hframe] at hframe'
      cases hframe'
      rw [hparent] at hparent'
      cases hparent'
  | cons hframe hparent _ ih =>
    cases h' with
    | last hframe' hparent' =>
      rw [hframe] at hframe'
      cases hframe'
      rw [hparent] at hparent'
      cases hparent'
    | cons hframe' hparent' h' =>
      rw [hframe] at hframe'
      cases hframe'
      rw [hparent] at hparent'
      cases hparent'
      rw [ih h']

/-- An operation has one answer at most. -/
theorem Performs.unique {plain next next' : PlainHeap} {op : FrameOp} {answer answer' : FrameAnswer}
    (h : plain.Performs op answer next) (h' : plain.Performs op answer' next') :
    answer = answer' ∧ next = next' := by
  cases h with
  | lookup symbol hchain =>
    cases h' with
    | lookup _ hchain' =>
      rw [hchain.unique hchain']
      exact ⟨rfl, rfl⟩
  | _ =>
    cases h'
    exact ⟨rfl, rfl⟩

theorem Runs.unique {plain last last' : PlainHeap} {ops : List FrameOp}
    {answers answers' : List FrameAnswer} (h : plain.Runs ops answers last)
    (h' : plain.Runs ops answers' last') : answers = answers' := by
  induction h generalizing answers' with
  | nil =>
    cases h'
    rfl
  | cons hop _ ih =>
    cases h' with
    | cons hop' hops' =>
      obtain ⟨rfl, rfl⟩ := hop.unique hop'
      rw [ih hops']

end PlainHeap

/-! ## Heaps mirror plain heaps -/

/-- A heap and a plain heap have the same frames, and parents are older than their children. -/
structure PlainHeap.Mirrors (plain : PlainHeap) (heap : Heap) : Prop where
  size : plain.frames.size = heap.frames.size
  frame : ∀ ⦃env frame⦄, heap.frame? env = some frame → ∃ same,
    plain.frame? env = some same ∧ same.parent = frame.parent ∧
      ∀ symbol, same.get? symbol = (frame.get? symbol).map (Slot.value env)
  older : ∀ ⦃env frame parent⦄, heap.frame? env = some frame → frame.parent = some parent →
    parent.index < env.index

namespace PlainHeap

theorem frame?_alloc (plain : PlainHeap) (parent : Option Env) (env : Env) :
    (plain.alloc parent).frame? env =
      if env.index = plain.frames.size then some ⟨[], parent⟩ else plain.frame? env :=
  Array.getElem?_push

theorem frame?_define (plain : PlainHeap) (env other : Env) (symbol : Symbol) (value : Value) :
    (plain.define other symbol value).frame? env =
      if other = env then
        (plain.frame? env).map fun frame => ⟨(symbol, value) :: frame.bindings, frame.parent⟩
      else plain.frame? env := by
  by_cases h : other = env
  · simp [frame?, define, Array.getElem?_modify, h]
  · have hne : other.index ≠ env.index := fun heq => h (by cases env; cases other; simp_all)
    simp [frame?, define, Array.getElem?_modify, h, hne]

namespace Mirrors

variable {plain : PlainHeap} {heap : Heap}

theorem empty : Mirrors .empty .empty := by
  refine ⟨rfl, ?_, ?_⟩
  · intro env frame h
    simp [Heap.frame?, Heap.empty] at h
  · intro env frame parent h
    simp [Heap.frame?, Heap.empty] at h

theorem isSome_frame? (h : plain.Mirrors heap) (env : Env) :
    (plain.frame? env).isSome = (heap.frame? env).isSome := by
  rw [Bool.eq_iff_iff]
  simp [frame?, Heap.frame?, h.size]

/-- The same values are bound in every frame. -/
theorem get? (h : plain.Mirrors heap) (env : Env) (symbol : Symbol) :
    plain.get? env symbol =
      (heap.frame? env).bind fun frame => (frame.get? symbol).map (Slot.value env) := by
  unfold PlainHeap.get?
  cases hframe : heap.frame? env with
  | none =>
    have hnone := h.isSome_frame? env
    rw [hframe, Option.isSome_none, Option.isSome_eq_false_iff, Option.isNone_iff_eq_none] at hnone
    rw [hnone]
    rfl
  | some frame =>
    obtain ⟨same, hsame, -, hget⟩ := h.frame hframe
    rw [hsame]
    exact hget symbol

/-- A new frame is the same in both heaps, as long as its parent exists. -/
theorem alloc (h : plain.Mirrors heap) {parent : Option Env}
    (hparent : ∀ env ∈ parent, env.index < heap.frames.size) :
    (plain.alloc parent).Mirrors (heap.alloc parent).2 := by
  refine ⟨?_, ?_, ?_⟩
  · simp [PlainHeap.alloc, Heap.alloc, h.size]
  · intro env frame hframe
    rw [Heap.frame?_alloc_eq] at hframe
    rw [frame?_alloc, h.size]
    split at hframe
    · next hnew =>
      cases hframe
      refine ⟨⟨[], parent⟩, if_pos hnew, rfl, fun symbol => ?_⟩
      rw [Frame.get?_empty]
      rfl
    · next hold =>
      obtain ⟨same, hsame⟩ := h.frame hframe
      exact ⟨same, by rw [if_neg hold]; exact hsame.1, hsame.2⟩
  · intro env frame older hframe holder
    rw [Heap.frame?_alloc_eq] at hframe
    split at hframe
    · next hnew =>
      cases hframe
      rw [Frame.parent_empty] at holder
      have hlt : older.index < heap.frames.size := hparent older holder
      omega
    · exact h.older hframe holder

/-- A binding is the same in both heaps, however it is stored. -/
theorem define (h : plain.Mirrors heap) (env : Env) (symbol : Symbol) (value : Value) :
    (plain.define env symbol value).Mirrors (heap.define env symbol value) := by
  refine ⟨?_, ?_, ?_⟩
  · simp [PlainHeap.define, Heap.define, h.size]
  · intro other frame hframe
    rw [frame?_define]
    rcases Heap.frame?_define_eq_some hframe with ⟨rfl, old, hold, rfl⟩ | ⟨hne, hold⟩
    · obtain ⟨same, hsame, hparent, hget⟩ := h.frame hold
      rw [if_pos rfl, hsame]
      refine ⟨_, rfl, hparent, fun s => ?_⟩
      rw [Frame.get?_insert]
      by_cases htag : symbol.tag = s.tag
      · have hbeq : (symbol == s) = true := Symbol.beq_iff_tag_eq.2 htag
        simp [PlainFrame.get?, hbeq, htag]
      · have hbeq : (symbol == s) = false := by
          rw [← Bool.not_eq_true, Symbol.beq_iff_tag_eq]
          exact htag
        have hother : same.get? s = (old.get? s).map (Slot.value other) := hget s
        simpa [PlainFrame.get?, hbeq, htag] using hother
    · rw [if_neg (Ne.symm hne)]
      exact h.frame hold
  · intro other frame parent hframe hparent
    rcases Heap.frame?_define_eq_some hframe with ⟨rfl, old, hold, rfl⟩ | ⟨-, hold⟩
    · exact h.older hold hparent
    · exact h.older hold hparent

/-- The chain of a frame is finite, and the search goes through all of it. -/
theorem exists_chain (h : plain.Mirrors heap) {env : Env} (henv : env.index < heap.frames.size) :
    ∃ chain, plain.Chain env chain ∧
      ∀ symbol, heap.lookup env symbol =
        chain.findSome? fun frame => plain.get? frame symbol := by
  -- Parents are older, so the induction is on the age of the frame.
  induction hn : env.index using Nat.strongRecOn generalizing env with
  | _ n ih =>
    subst hn
    have hframe : heap.frame? env = some heap.frames[env.index] := Array.getElem?_eq_getElem henv
    generalize heap.frames[env.index] = frame at hframe
    obtain ⟨same, hsame, hparent, -⟩ := h.frame hframe
    cases hp : frame.parent with
    | none =>
      refine ⟨[env], .last hsame (hparent.trans hp), fun symbol => ?_⟩
      rw [Heap.lookup, hframe, List.findSome?_singleton, h.get?, hframe]
      cases hget : frame.get? symbol <;> simp [hget, hp]
    | some parent =>
      have hlt : parent.index < env.index := h.older hframe hp
      obtain ⟨chain, hchain, hlookup⟩ := ih parent.index hlt (by omega) rfl
      refine ⟨env :: chain, .cons hsame (hparent.trans hp) hchain, fun symbol => ?_⟩
      rw [Heap.lookup, hframe, List.findSome?_cons, h.get?, hframe]
      cases hget : frame.get? symbol <;> simp [hget, hp, hlt, hlookup symbol]

/-- An operation on a frame that exists has the same answer on both heaps. -/
theorem perform (h : plain.Mirrors heap) {op : FrameOp}
    (hop : ∀ env ∈ op.env?, env.index < heap.frames.size) :
    ∃ next, plain.Performs op (heap.perform op).1 next ∧ next.Mirrors (heap.perform op).2 ∧
      (heap.perform op).2.frames.size = heap.frames.size + op.makes := by
  cases op with
  | new =>
    refine ⟨plain.alloc none, ?_, h.alloc nofun, by simp [Heap.perform, Heap.alloc, FrameOp.makes]⟩
    have hnew : plain.Performs .new (.env ⟨plain.frames.size⟩) (plain.alloc none) := .new
    rwa [h.size] at hnew
  | child env =>
    refine ⟨plain.alloc (some env), ?_, h.alloc hop,
      by simp [Heap.perform, Heap.alloc, FrameOp.makes]⟩
    have hchild : plain.Performs (.child env) (.env ⟨plain.frames.size⟩) (plain.alloc (some env)) :=
      .child env
    rwa [h.size] at hchild
  | define env symbol value =>
    refine ⟨plain.define env symbol value, .define env symbol value, h.define env symbol value, ?_⟩
    simp [Heap.perform, Heap.define, FrameOp.makes]
  | lookup env symbol =>
    obtain ⟨chain, hchain, hlookup⟩ := h.exists_chain (hop env rfl)
    refine ⟨plain, ?_, h, rfl⟩
    rw [Heap.perform, hlookup symbol]
    exact .lookup symbol hchain
  | isLocal env symbol =>
    have hlocal : heap.isLocal env symbol = (plain.get? env symbol).isSome := by
      rw [h.get?, Heap.isLocal]
      cases heap.frame? env <;> simp
    refine ⟨plain, ?_, h, rfl⟩
    rw [Heap.perform, hlocal]
    exact .isLocal env symbol
  | parent env =>
    have hparent : heap.parent? env = (plain.frame? env).bind PlainFrame.parent := by
      have henv : env.index < heap.frames.size := hop env rfl
      have hframe : heap.frame? env = some heap.frames[env.index] :=
        Array.getElem?_eq_getElem henv
      obtain ⟨same, hsame, hparent, -⟩ := h.frame hframe
      rw [Heap.parent?, hframe, hsame]
      exact hparent.symm
    refine ⟨plain, ?_, h, rfl⟩
    rw [Heap.perform, hparent]
    exact .parent env

theorem run (h : plain.Mirrors heap) {ops : List FrameOp}
    (hops : FrameOp.AllExist heap.frames.size ops) :
    ∃ last, plain.Runs ops (heap.run ops).1 last ∧ last.Mirrors (heap.run ops).2 := by
  induction ops generalizing plain heap with
  | nil => exact ⟨plain, .nil plain, h⟩
  | cons op ops ih =>
    obtain ⟨next, hop, hnext, hsize⟩ := h.perform hops.1
    have hrest := hops.2
    rw [← hsize] at hrest
    obtain ⟨last, hruns, hlast⟩ := ih hnext hrest
    exact ⟨last, .cons hop hruns, hlast⟩

end Mirrors

end PlainHeap

/-- **Storing functions without their environment changes no answer.** Any operations on frames
that exist have the answers of the plain frames, and the plain frames have no others. -/
theorem Heap.run_eq_plain (ops : List FrameOp) (h : FrameOp.AllExist 0 ops)
    (answers : List FrameAnswer) :
    (∃ last, PlainHeap.empty.Runs ops answers last) ↔ answers = (Heap.empty.run ops).1 := by
  obtain ⟨last, hruns, -⟩ := PlainHeap.Mirrors.empty.run h
  constructor
  · rintro ⟨last', hruns'⟩
    exact hruns'.unique hruns
  · rintro rfl
    exact ⟨last, hruns⟩

/-- A function that has been looked up is bound again in a child of the frame that it closes over,
and a function of the child in its parent. -/
theorem Heap.run_eq_plain_rebound :
    let f : Symbol := ⟨"f", 0⟩
    let g : Symbol := ⟨"g", 1⟩
    let outer : Value := .fn ⟨⟨0, some f, [], none, []⟩, ⟨0⟩⟩
    let inner : Value := .fn ⟨⟨1, some g, [], none, []⟩, ⟨1⟩⟩
    let ops : List FrameOp := [.new, .child ⟨0⟩, .define ⟨0⟩ f outer, .lookup ⟨1⟩ f,
      .define ⟨1⟩ f outer, .define ⟨1⟩ g inner, .define ⟨0⟩ g inner, .lookup ⟨1⟩ f, .lookup ⟨0⟩ g,
      .isLocal ⟨1⟩ f, .parent ⟨1⟩]
    FrameOp.AllExist 0 ops ∧ ∃ last, PlainHeap.empty.Runs ops [.env ⟨0⟩, .env ⟨1⟩, .done,
      .found (some outer), .done, .done, .done, .found (some outer), .found (some inner),
      .isLocal true, .parent (some ⟨0⟩)] last := by
  intro f g outer inner ops
  have hops : FrameOp.AllExist 0 ops := by
    simp [ops, FrameOp.AllExist, FrameOp.env?, FrameOp.makes]
  refine ⟨hops, (Heap.run_eq_plain ops hops _).2 ?_⟩
  simp [ops, f, g, outer, inner, Heap.run, Heap.perform, Heap.alloc, Heap.define, Heap.empty,
    Heap.lookup, Heap.isLocal, Heap.parent?, Heap.frame?, Frame.get?_insert, Slot.ofValue,
    Slot.value]

end SplatLisp
