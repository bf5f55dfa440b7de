import SplatLisp.Value
import Std.Data.ExtTreeMap.Lemmas

/-!
# Frames and environments

A frame binds symbols, by their tags, and leads to an older frame, its parent. An `Env` is a handle
to a frame; looking a symbol up goes from the frame through its parents. A function that is bound
in the very frame it closes over is stored without its environment, which comes back when it is
looked up, so no slot of a frame holds a handle to that frame for the sake of a function bound in
it.
-/

namespace SplatLisp

/-- What a symbol is bound to in a frame. -/
inductive Slot where
  | whole (value : Value)
  /-- A function that closes over the frame of this slot. -/
  | own (fn : Fun)

namespace Slot

/-- A value as it is stored in a frame. -/
def ofValue (env : Env) : Value → Slot
  | .fn closure => if closure.env = env then own closure.fn else whole (.fn closure)
  | value => whole value

/-- The value stored in a frame. -/
def value (env : Env) : Slot → Value
  | whole value => value
  | own fn => .fn ⟨fn, env⟩

/-- What is stored comes back. -/
@[simp] theorem value_ofValue (env : Env) (value : Value) :
    (ofValue env value).value env = value := by
  unfold ofValue
  split
  · split
    · next closure h => subst h; rfl
    · rfl
  · rfl

end Slot

/-- Bindings of symbols, and the frame to look in for others. -/
structure Frame where
  /-- The slots of the bound symbols by their tags. -/
  slots : Std.ExtTreeMap Nat Slot
  parent : Option Env

namespace Frame

def empty (parent : Option Env) : Frame := ⟨∅, parent⟩

@[inline] def get? (frame : Frame) (symbol : Symbol) : Option Slot := frame.slots[symbol.tag]?

/-- Binds a symbol, in place of what it was bound to. -/
def insert (frame : Frame) (symbol : Symbol) (slot : Slot) : Frame :=
  { frame with slots := frame.slots.insert symbol.tag slot }

@[simp] theorem get?_empty (parent : Option Env) (symbol : Symbol) :
    (empty parent).get? symbol = none := by
  simp [get?, empty]

@[simp] theorem parent_empty (parent : Option Env) : (empty parent).parent = parent := rfl

theorem get?_insert (frame : Frame) (symbol other : Symbol) (slot : Slot) :
    (frame.insert other slot).get? symbol =
      if other.tag = symbol.tag then some slot else frame.get? symbol := by
  simp [get?, insert, Std.ExtTreeMap.getElem?_insert]

@[simp] theorem get?_insert_self (frame : Frame) (symbol : Symbol) (slot : Slot) :
    (frame.insert symbol slot).get? symbol = some slot := by
  simp [get?_insert]

@[simp] theorem parent_insert (frame : Frame) (symbol : Symbol) (slot : Slot) :
    (frame.insert symbol slot).parent = frame.parent := rfl

end Frame

/-- All frames made so far; an `Env` is a place among them. -/
structure Heap where
  frames : Array Frame

namespace Heap

def empty : Heap := ⟨#[]⟩

@[inline] def frame? (heap : Heap) (env : Env) : Option Frame := heap.frames[env.index]?

/-- Makes a frame without bindings. -/
def alloc (heap : Heap) (parent : Option Env) : Env × Heap :=
  (⟨heap.frames.size⟩, ⟨heap.frames.push (.empty parent)⟩)

def define (heap : Heap) (env : Env) (symbol : Symbol) (value : Value) : Heap :=
  ⟨heap.frames.modify env.index fun frame => frame.insert symbol (.ofValue env value)⟩

/-- The value of a symbol in the nearest frame that binds it. A parent is older than its children,
which is what bounds the search. -/
def lookup (heap : Heap) (env : Env) (symbol : Symbol) : Option Value :=
  match heap.frame? env with
  | none => none
  | some frame =>
    match frame.get? symbol with
    | some slot => some (slot.value env)
    | none =>
      match frame.parent with
      | none => none
      | some parent => if parent.index < env.index then heap.lookup parent symbol else none
termination_by env.index

@[simp] theorem size_alloc (heap : Heap) (parent : Option Env) :
    (heap.alloc parent).2.frames.size = heap.frames.size + 1 := by
  simp [alloc]

@[simp] theorem size_define (heap : Heap) (env : Env) (symbol : Symbol) (value : Value) :
    (heap.define env symbol value).frames.size = heap.frames.size := by
  simp [define]

theorem frame?_isSome_iff {heap : Heap} {env : Env} :
    (heap.frame? env).isSome = true ↔ env.index < heap.frames.size := by
  simp [frame?]

theorem frame?_alloc_self (heap : Heap) (parent : Option Env) :
    (heap.alloc parent).2.frame? (heap.alloc parent).1 = some (.empty parent) := by
  simp [alloc, frame?]

theorem frame?_alloc_eq (heap : Heap) (parent : Option Env) (env : Env) :
    (heap.alloc parent).2.frame? env =
      if env.index = heap.frames.size then some (.empty parent) else heap.frame? env :=
  Array.getElem?_push

/-- Making a frame leaves those that are there as they are. -/
theorem frame?_alloc {heap : Heap} {env : Env} {frame : Frame} (h : heap.frame? env = some frame)
    (parent : Option Env) : (heap.alloc parent).2.frame? env = some frame := by
  have hlt := (Array.getElem?_eq_some_iff.1 h).1
  simp only [frame?, alloc] at h ⊢
  rw [Array.getElem?_push_lt hlt, ← Array.getElem?_eq_getElem hlt, h]

theorem frame?_define_self (heap : Heap) (env : Env) (symbol : Symbol) (value : Value) :
    (heap.define env symbol value).frame? env =
      (heap.frame? env).map fun frame => frame.insert symbol (.ofValue env value) := by
  simp [define, frame?, Array.getElem?_modify]

/-- Binding a symbol touches one frame alone. -/
theorem frame?_define_of_ne {env other : Env} (h : env ≠ other) (heap : Heap) (symbol : Symbol)
    (value : Value) : (heap.define other symbol value).frame? env = heap.frame? env := by
  have hne : other.index ≠ env.index := fun heq => h (by cases env; cases other; simp_all)
  simp [define, frame?, Array.getElem?_modify, hne]

/-- The frames after a binding: the one of the environment with the symbol, and the others. -/
theorem frame?_define_eq_some {heap : Heap} {env other : Env} {symbol : Symbol} {value : Value}
    {frame : Frame} (h : (heap.define env symbol value).frame? other = some frame) :
    (other = env ∧ ∃ old, heap.frame? env = some old ∧
      frame = old.insert symbol (.ofValue env value)) ∨
    (other ≠ env ∧ heap.frame? other = some frame) := by
  by_cases heq : other = env
  · subst heq
    rw [frame?_define_self, Option.map_eq_some_iff] at h
    obtain ⟨old, hold, rfl⟩ := h
    exact .inl ⟨rfl, old, hold, rfl⟩
  · rw [frame?_define_of_ne heq] at h
    exact .inr ⟨heq, h⟩

/-- What is bound is found. -/
theorem lookup_define_self {heap : Heap} {env : Env} {frame : Frame}
    (h : heap.frame? env = some frame) (symbol : Symbol) (value : Value) :
    (heap.define env symbol value).lookup env symbol = some value := by
  unfold lookup
  simp [frame?_define_self, h, Frame.get?_insert_self]

/-- Whether a symbol is bound in the frame of an environment itself. -/
def isLocal (heap : Heap) (env : Env) (symbol : Symbol) : Bool :=
  (heap.frame? env).any fun frame => (frame.get? symbol).isSome

/-- The environment that a search goes on in. -/
def parent? (heap : Heap) (env : Env) : Option Env := (heap.frame? env).bind Frame.parent

/-- The size of a frame and whether it has a parent, in words. -/
def inspect (heap : Heap) (env : Env) : String :=
  let frame := (heap.frame? env).getD (.empty none)
  "Env \x7b bindings: " ++ Decimal.text frame.slots.size ++ ", has_parent: " ++
    (if frame.parent.isSome then "true" else "false") ++ " \x7d"

end Heap

end SplatLisp
