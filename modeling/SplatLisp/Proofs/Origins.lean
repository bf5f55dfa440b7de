import SplatLisp.Proofs.Bindings
import SplatLisp.Proofs.Registration
import SplatLisp.Proofs.Requests
import SplatLisp.Proofs.Sameness
import SplatLisp.Proofs.Tracking

/-!
# What an identity stands for

Functions, primitives and host values are compared by identity, and types by id. That this is enough
is due to how they come about: an identity is given out once, and one thing is made with it. A
`Catalog` says what has been made with each identity so far, and which types there are. The values
all of whose parts are in a catalog (`Value.Listed`) are the same if they are equal
(`Value.Listed.eq_of_same`).

Evaluation comes to listed values only, if the catalog grows with the functions that it makes
(`Eval.tracked_keeps`).
-/

namespace SplatLisp

open scoped CoreOnly

/-- What has been made with each identity, and all types. -/
structure Catalog where
  made : Identity → Option Value
  types : TypeRegistry

namespace Catalog

/-- Whether all that is in a catalog is in another one. -/
structure Below (C D : Catalog) : Prop where
  made : ∀ {i v}, C.made i = some v → D.made i = some v
  types : ∀ {type}, type ∈ C.types.types → type ∈ D.types.types

instance : Preorder Catalog where
  le := Below
  le_refl _ := ⟨id, id⟩
  le_trans _ _ _ h h' := ⟨h'.made ∘ h.made, h'.types ∘ h.types⟩

/-- One more thing, with its identity. -/
def add (C : Catalog) (identity : Identity) (value : Value) : Catalog where
  made i := if i = identity then some value else C.made i
  types := C.types

theorem made_add_self (C : Catalog) (identity : Identity) (value : Value) :
    (C.add identity value).made identity = some value :=
  if_pos rfl

/-- Nothing is lost if the identity is new. -/
theorem le_add {C : Catalog} {identity : Identity} (h : C.made identity = none) (value : Value) :
    C ≤ C.add identity value := by
  refine ⟨fun {i v} hi => ?_, id⟩
  have hne : i ≠ identity := by
    rintro rfl
    rw [h] at hi
    cases hi
  exact (if_neg hne).trans hi

end Catalog

/-- Values all of whose parts are in a catalog. -/
inductive Value.Listed (C : Catalog) : Value → Prop
  | nil : Listed C .nil
  | bool (b : Bool) : Listed C (.bool b)
  | int (n : Int64) : Listed C (.int n)
  | vec {items : List Value} (h : ∀ item ∈ items, Listed C item) : Listed C (.vec items)
  | splat {inner : Value} (h : Listed C inner) : Listed C (.splat inner)
  | fn {closure : Closure} (h : C.made closure.fn.identity = some (.fn closure)) :
    Listed C (.fn closure)
  | prim {p : Prim} (h : C.made p.identity = some (.prim p)) : Listed C (.prim p)
  | type {t : TypeInfo} (h : t ∈ C.types.types) : Listed C (.type t)
  | host {value : HostValue} (h : C.made value.identity = some (.host value))
    (htype : value.type ∈ C.types.types) : Listed C (.host value)

namespace Value.Listed

variable {C D : Catalog} {a b : Value}

theorem mono (hCD : C ≤ D) (h : a.Listed C) : a.Listed D := by
  induction h with
  | nil => exact .nil
  | bool b => exact .bool b
  | int n => exact .int n
  | vec _ ih => exact .vec ih
  | splat _ ih => exact .splat ih
  | fn h => exact .fn (hCD.made h)
  | prim h => exact .prim (hCD.made h)
  | type h => exact .type (hCD.types h)
  | host h htype => exact .host (hCD.made h) (hCD.types htype)

theorem vec_iff {items : List Value} : (Value.vec items).Listed C ↔ AllOf Listed C items := by
  constructor
  · rintro (_ | _ | _ | h)
    exact h
  · exact .vec

theorem splat_iff {inner : Value} : (Value.splat inner).Listed C ↔ inner.Listed C := by
  constructor
  · rintro (_ | _ | _ | _ | h)
    exact h
  · exact .splat

end Value.Listed

/-! ## Values and their imprints -/

namespace Catalog

mutual

/-- The value that leaves an imprint. -/
def restore (C : Catalog) : Imprint → Value
  | .nil => .nil
  | .bool b => .bool b
  | .int n => .int n
  | .vec items => .vec (restoreItems C items)
  | .splat inner => .splat (restore C inner)
  | .fn identity | .prim identity | .host identity => (C.made identity).getD .nil
  | .type id => (C.types.ofId? id).elim .nil .type

def restoreItems (C : Catalog) : List Imprint → List Value
  | [] => []
  | item :: items => restore C item :: restoreItems C items

end

end Catalog

namespace Value.Listed

variable {C : Catalog} {a b : Value}

/-- What has been made with an identity is one value, and a consistent registry has one type of an
id; so the imprint tells all of a listed value. -/
theorem restore_imprint (htypes : C.types.Consistent) (h : a.Listed C) :
    C.restore a.imprint = a := by
  induction h with
  | nil => rfl
  | bool b => rfl
  | int n => rfl
  | @vec items _ ih =>
    have hitems : C.restoreItems (imprints items) = items := by
      clear * - ih
      induction items with
      | nil => rfl
      | cons item items ihitems =>
        obtain ⟨hitem, hmore⟩ := List.forall_mem_cons.1 ih
        rw [imprints, Catalog.restoreItems, hitem, ihitems hmore]
    rw [imprint, Catalog.restore, hitems]
  | splat _ ih => rw [imprint, Catalog.restore, ih]
  | fn h => rw [imprint, Catalog.restore, h, Option.getD_some]
  | prim h => rw [imprint, Catalog.restore, h, Option.getD_some]
  | type h => rw [imprint, Catalog.restore, htypes.ofId?_iff.2 ⟨h, rfl⟩, Option.elim_some]
  | host h _ => rw [imprint, Catalog.restore, h, Option.getD_some]

/-- **Equal values are the same**, if all their parts are in a catalog. -/
theorem eq_of_same (htypes : C.types.Consistent) (ha : a.Listed C) (hb : b.Listed C)
    (h : a.same b = true) : a = b :=
  calc a = C.restore a.imprint := (ha.restore_imprint htypes).symm
    _ = C.restore b.imprint := by rw [(same_iff a b).1 h]
    _ = b := hb.restore_imprint htypes

end Value.Listed

/-! ## Contexts -/

/-- A context whose values have all their parts in a catalog, and whose next identity is new. -/
structure Context.Within (C : Catalog) (c : Context) : Prop where
  heap : c.heap.Binds (Value.Listed C)
  made : ∀ {i v}, C.made i = some v → i < c.identities
  types : c.types = C.types
  consistent : c.types.Consistent

namespace Context.Within

variable {C : Catalog} {c : Context}

/-- What is made with the next identity can be entered in the catalog. -/
theorem make (h : c.Within C) (value : Value) :
    C ≤ C.add c.identities value ∧
      { c with identities := c.identities + 1 }.Within (C.add c.identities value) := by
  have hnew : C.made c.identities = none := by
    rw [Option.eq_none_iff_forall_ne_some]
    intro v hv
    exact absurd (h.made hv) (Nat.lt_irrefl _)
  have hle := Catalog.le_add hnew value
  refine ⟨hle, h.heap.imp fun v hv => hv.mono hle, fun {i v} hi => ?_, h.types, h.consistent⟩
  by_cases heq : i = c.identities
  · rw [heq]
    exact Nat.lt_succ_self _
  · have hold : C.made i = some v := (if_neg heq).symm.trans hi
    exact Nat.lt_succ_of_lt (h.made hold)

theorem define (h : c.Within C) (env : Env) (symbol : Symbol) {value : Value}
    (hvalue : value.Listed C) :
    { c with heap := c.heap.define env symbol value }.Within C :=
  ⟨h.heap.define env symbol hvalue, h.made, h.types, h.consistent⟩

theorem alloc (h : c.Within C) (parent : Option Env) :
    { c with heap := (c.heap.alloc parent).2 }.Within C :=
  ⟨h.heap.alloc parent, h.made, h.types, h.consistent⟩

/-- Types that are registered are entered in the catalog. -/
theorem register (h : c.Within C) {name : String} {type : TypeInfo} {types : TypeRegistry}
    (hok : c.types.register name = .ok (type, types)) :
    C ≤ { C with types } ∧ { c with types }.Within { C with types } ∧ type ∈ types.types := by
  have hperform : c.types.perform (.register name) = (.registered (.ok type), types) := by
    simp only [TypeRegistry.perform, hok]
  have hle : C ≤ { C with types } := by
    refine ⟨id, fun {t} ht => ?_⟩
    have hmem := TypeRegistry.mem_perform (h.types ▸ ht) (.register name)
    rwa [hperform] at hmem
  refine ⟨hle, ⟨h.heap.imp fun v hv => hv.mono hle, h.made, rfl, ?_⟩, ?_⟩
  · have hconsistent := h.consistent.perform (.register name)
    rwa [hperform] at hconsistent
  · have hmem := TypeRegistry.mem_of_perform_eq c.types (.register name) (congrArg _ hperform)
    rwa [hperform] at hmem

end Context.Within

/-! ## Evaluation -/

namespace Eval

variable {α β : Type} {C : Catalog} {P : Catalog → α → Prop} {Q : Catalog → β → Prop}

/-- A computation has ended, or stopped, in a context that is within a larger catalog, in which its
result has a property. -/
inductive Extends (C : Catalog) (P : Catalog → α → Prop) :
    EStateM.Result Stop Context α → Prop
  | ok {D : Catalog} {a : α} {c : Context} (hCD : C ≤ D) (hc : c.Within D) (ha : P D a) :
    Extends C P (.ok a c)
  | error {D : Catalog} {stop : Stop} {c : Context} (hCD : C ≤ D) (hc : c.Within D) :
    Extends C P (.error stop c)

/-- Whether a computation leads from any context within a catalog to one within a larger catalog. -/
def Keeps (C : Catalog) (P : Catalog → α → Prop) (x : Eval α) : Prop :=
  ∀ c : Context, c.Within C → Extends C P (x c)

theorem Keeps.pure {a : α} (h : P C a) : Keeps C P (Pure.pure a) := fun _ hc => .ok le_rfl hc h

theorem Keeps.bind {x : Eval α} {f : α → Eval β} (hx : Keeps C P x)
    (hf : ∀ D, C ≤ D → ∀ a, P D a → Keeps D Q (f a)) : Keeps C Q (x >>= f) := by
  intro c hc
  have hends := hx c hc
  change Extends C Q (EStateM.bind x f c)
  unfold EStateM.bind
  generalize x c = result at hends
  cases hends with
  | error hCD hd => exact .error hCD hd
  | ok hCD hd ha =>
    have hmore := hf _ hCD _ ha _ hd
    dsimp only
    generalize f _ _ = result at hmore ⊢
    cases hmore with
    | ok hDE he hb => exact .ok (le_trans hCD hDE) he hb
    | error hDE he => exact .error (le_trans hCD hDE) he

theorem Keeps.raise (error : Error) : Keeps C P (Eval.raise error : Eval α) :=
  fun c hc => by
    rw [raise_eq]
    cases c.diagnostics.policy with
    | report => exact .error le_rfl hc
    | abort => exact .error le_rfl ⟨hc.heap, hc.made, hc.types, hc.consistent⟩

theorem Keeps.lookup (env : Env) (symbol : Symbol) :
    Keeps C Value.Listed (Eval.lookup env symbol) := by
  intro c hc
  rw [lookup_eq]
  cases hvalue : c.heap.lookup env symbol with
  | none => exact Keeps.raise _ c hc
  | some value => exact .ok le_rfl hc (hc.heap.lookup hvalue)

/-- Types of values are in the registry. -/
theorem Keeps.typeOf {value : Value} (h : value.Listed C) :
    Keeps C Value.Listed (do return Value.type ((← get).types.typeOf value)) := by
  intro c hc
  have hhost : ∀ host, value = .host host → host.type ∈ c.types.types := by
    rintro host rfl
    cases h with
    | host _ htype => exact hc.types ▸ htype
  have hfound := (hc.consistent.typeOf hhost).1
  exact .ok le_rfl hc (.type (hc.types ▸ (hc.consistent.ofId?_iff.1 hfound).1))

/-- Functions that are made are entered in the catalog, under their new identities. -/
theorem Keeps.fresh (make : Identity → Closure) (hmake : ∀ i, (make i).fn.identity = i) :
    Keeps C (fun D i => (Value.fn (make i)).Listed D) Eval.fresh := by
  intro c hc
  obtain ⟨hle, hd⟩ := hc.make (.fn (make c.identities))
  exact .ok hle hd (.fn ((hmake _).symm ▸ C.made_add_self ..))

/-- Evaluation comes to values alone that are in the catalog by then. -/
theorem tracked_keeps : Tracked Value.Listed fun C _ P x => Keeps C P x where
  mono := Value.Listed.mono
  nil _ := .nil
  bool _ := .bool
  int _ := .int
  vec_iff := Value.Listed.vec_iff
  splat_iff := Value.Listed.splat_iff
  pure := .pure
  bind hx hf := hx.bind hf
  fail _ := .raise _
  exhausted := fun _ hc => .error le_rfl hc
  broken _ _ := fun _ hc => .error le_rfl hc
  lookup := .lookup
  define env symbol _ hvalue := fun _ hc => .ok le_rfl (hc.define env symbol hvalue) trivial
  child env := fun _ hc => .ok le_rfl (hc.alloc (some env)) trivial
  fresh := .fresh
  typeOf := .typeOf
  writeLine _ := fun _ hc =>
    .ok le_rfl ⟨hc.heap, hc.made, hc.types, hc.consistent⟩ trivial
  host _ _ _ _ _ _ := fun _ hc => .error le_rfl hc

theorem Keeps.readChars (pos : Pos) (chars : List Char) :
    Keeps C (fun _ _ => True) (Eval.readChars pos chars) := by
  intro c hc
  rw [readChars_eq]
  cases (Reader.mk chars c.symbols).readAll pos with
  | mk outcome reader =>
    have hread : { c with symbols := reader.symbols }.Within C :=
      ⟨hc.heap, hc.made, hc.types, hc.consistent⟩
    cases outcome with
    | ok forms => exact .ok le_rfl hread trivial
    | error failure => exact Keeps.raise _ _ hread

theorem Keeps.evalChars (bound : Nat) (pos : Pos) (chars : List Char) (env : Env) :
    Keeps C Value.Listed (Eval.evalChars bound pos chars env) :=
  (Keeps.readChars pos chars).bind fun _ _ forms _ =>
    tracked_keeps.evalForms (tracked_keeps.eval bound) forms env

theorem Keeps.load (bound : Nat) (read : ReadFile) (name : String) (env : Env) :
    Keeps C Value.Listed (Eval.load bound read name env) := by
  unfold Eval.load
  cases read name with
  | ok bytes => exact .evalChars bound _ _ env
  | error reason => exact .raise _

end Eval

/-- In a new context there are core primitives, each with an identity of its own. -/
theorem Context.exists_within_new (settings : Settings) : ∃ C, (new settings).Within C := by
  refine new_induction (I := fun c => ∃ C, c.Within C) settings ?_ fun c hc entry _ => ?_
  · exact ⟨⟨fun _ => none, .builtins⟩, Heap.Binds.empty.alloc none, nofun, rfl,
      TypeRegistry.consistent_builtins⟩
  · obtain ⟨C, hc⟩ := hc
    obtain ⟨-, hd⟩ := hc.make
      (.prim ⟨c.identities, entry.1, entry.2.1, entry.2.2.1, entry.2.2.2⟩)
    refine ⟨_, hd.heap.define .root _ (.prim (Catalog.made_add_self ..)), hd.made, hd.types,
      hd.consistent⟩

end SplatLisp
