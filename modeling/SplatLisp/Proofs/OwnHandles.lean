import SplatLisp.Proofs.Application
import SplatLisp.Proofs.Handles

/-!
# Frames with handles to themselves

A function that is bound in the frame that it closes over is stored there without its environment,
and the frame gets no handle to itself. That is done for a value that is such a function, but not
for one that has it inside (`Value.Buries`): a vector or a splat is stored as it is, with all the
handles in it. So a frame can come to keep itself, and all it takes is a `let` that binds a vector
with a function in it (`Context.keepsItself_let`).

What holds instead is `Context.ownHandles`. The slots of all frames are as binding leaves them
(`Heap.Stored`), so only buried functions matter. Evaluation binds nothing but named functions in a
frame that is there already; and the values that a call binds in its frame are older than the frame,
so they have no handle to it.
-/

namespace SplatLisp

open scoped CoreOnly

/-! ## Handles in values and slots -/

namespace Value

mutual

/-- Whether a value is, or has inside, a function that closes over an environment. -/
def encloses (env : Env) : Value → Bool
  | fn closure => closure.env = env
  | vec items => itemsEnclose env items
  | splat inner => encloses env inner
  | _ => false

def itemsEnclose (env : Env) : List Value → Bool
  | [] => false
  | item :: items => encloses env item || itemsEnclose env items

end

theorem itemsEnclose_iff {env : Env} {items : List Value} :
    itemsEnclose env items = true ↔ ∃ item ∈ items, item.encloses env = true := by
  induction items with
  | nil => simp [itemsEnclose]
  | cons item items ih => simp [itemsEnclose, ih]

/-- Whether a value has a function inside that closes over an environment, but is no function. -/
def Buries (env : Env) (value : Value) : Prop :=
  value.encloses env = true ∧ value.kind? ≠ some .fn

end Value

/-- Whether a slot has a handle to an environment in it. -/
def Slot.keeps (env : Env) : Slot → Bool
  | whole value => value.encloses env
  | own _ => false

theorem Slot.encloses_of_keeps {env : Env} {slot : Slot} (h : slot.keeps env = true) :
    (slot.value env).encloses env = true := by
  cases slot with
  | whole value => exact h
  | own fn => cases h

/-- Only buried functions are stored with the environment of the frame. -/
theorem Slot.keeps_ofValue {env : Env} {value : Value} :
    (ofValue env value).keeps env = true ↔ value.Buries env := by
  unfold Value.Buries
  cases value with
  | fn closure =>
    rw [ofValue]
    split
    · simp [keeps, Value.kind?]
    · next hne => simp [keeps, Value.encloses, Value.kind?, hne]
  | _ => simp [ofValue, keeps, Value.kind?]

namespace Heap

/-- Whether a symbol is bound in the frame of an environment by a slot that keeps this frame. -/
def keepsAt (heap : Heap) (env : Env) (symbol : Symbol) : Bool :=
  (heap.frame? env).any fun frame => (frame.get? symbol).any (·.keeps env)

/-- Whether a frame has a handle to itself. -/
def KeepsItself (heap : Heap) (env : Env) : Prop := ∃ symbol, heap.keepsAt env symbol = true

variable {heap : Heap} {env : Env} {symbol : Symbol}

theorem keepsAt_iff : heap.keepsAt env symbol = true ↔ ∃ frame slot,
    heap.frame? env = some frame ∧ frame.get? symbol = some slot ∧ slot.keeps env = true := by
  simp only [keepsAt, Option.any_eq_true]
  constructor
  · rintro ⟨frame, hframe, slot, hslot, hkeeps⟩
    exact ⟨frame, slot, hframe, hslot, hkeeps⟩
  · rintro ⟨frame, slot, hframe, hslot, hkeeps⟩
    exact ⟨frame, hframe, slot, hslot, hkeeps⟩

/-! ## Slots as binding leaves them -/

/-- Whether all values in a heap are stored as binding them stores them. -/
def Stored (heap : Heap) : Prop :=
  ∀ ⦃env frame⦄, heap.frame? env = some frame →
    ∀ ⦃symbol slot⦄, frame.get? symbol = some slot → slot = .ofValue env (slot.value env)

/-- How heaps change that are as binding leaves them. -/
def StaysStored (old new : Heap) : Prop := old.Stored → new.Stored

instance : IsPreorder Heap StaysStored where
  refl _ := id
  trans _ _ _ h h' := h' ∘ h

theorem stored_empty : Heap.empty.Stored := by
  intro env frame hframe
  simp [Heap.empty, frame?] at hframe

theorem Stored.alloc (h : heap.Stored) (parent : Option Env) : (heap.alloc parent).2.Stored := by
  intro e frame hframe s slot hslot
  rw [frame?_alloc_eq] at hframe
  split at hframe
  · cases hframe
    rw [Frame.get?_empty] at hslot
    cases hslot
  · exact h hframe hslot

theorem Stored.define (h : heap.Stored) (env : Env) (symbol : Symbol) (value : Value) :
    (heap.define env symbol value).Stored := by
  intro e frame hframe s slot hslot
  rcases frame?_define_eq_some hframe with ⟨rfl, older, hold, rfl⟩ | ⟨-, hold⟩
  · rw [Frame.get?_insert] at hslot
    split at hslot
    · cases hslot
      rw [Slot.value_ofValue]
    · exact h hold hslot
  · exact h hold hslot

/-- Where all slots are as binding leaves them, a slot keeps its frame for a buried function. -/
theorem Stored.keeps_iff (h : heap.Stored) {frame : Frame} {slot : Slot}
    (hframe : heap.frame? env = some frame) (hslot : frame.get? symbol = some slot) :
    slot.keeps env = true ↔ (slot.value env).Buries env := by
  rw [← Slot.keeps_ofValue, ← h hframe hslot]

end Heap

open Eval

/-- All that evaluation consists of leaves slots as binding leaves them. -/
theorem inherited_staysStored :
    Inherited (fun _ _ x => Within Heap.StaysStored x)
      (fun _ _ x => Within Heap.StaysStored x) where
  pure _ _ a := Within.pure a
  bind _ _ _ _ _ hx hf := Within.bind hx hf
  fail _ _ cause := Within.fail cause
  exhausted _ _ := Within.throw .exhausted
  broken _ _ := Within.throw .broken
  lookup _ symbol := Within.lookup _ symbol
  fresh _ := Within.fresh
  typeOf _ _ := Within.bind Within.get fun _ => Within.pure _
  writeLine _ text := Within.writeLine text
  name env _ symbol _ := fun _ => ⟨fun h => h.define env symbol _, rfl, rfl⟩
  define frame symbol value := fun _ => ⟨fun h => h.define frame symbol value, rfl, rfl⟩
  frame_of _ _ _ hx := hx
  frame_bind _ _ _ _ _ hx hf := Within.bind hx hf
  scope _ outer _ _ hf := by
    have hchild : Within Heap.StaysStored (child outer) :=
      fun _ => ⟨fun h => h.alloc (some outer), rfl, rfl⟩
    exact Within.bind hchild hf
  host _ _ _ _ _ := Within.throw .broken

theorem Request.stored_run {c : Context} (h : c.heap.Stored) (request : Request) :
    (request.run c).heap.Stored := by
  rcases request.heap_run inherited_staysStored c with
    ⟨-, hrun⟩ | ⟨parent, rfl⟩ | ⟨env, symbol, value, rfl⟩
  · exact hrun h
  · exact h.alloc parent
  · exact h.define env symbol value

namespace Context

theorem stored_new (settings : Settings) : (new settings).heap.Stored :=
  new_induction (I := (·.heap.Stored)) settings (Heap.stored_empty.alloc none)
    fun _ hc _ _ => hc.define .root _ _

/-- The slots of a context are as binding leaves them, whatever has been asked of it. -/
theorem stored_of_reachable {c : Context} {legal : Context → Request → Prop}
    (h : c.Reachable legal) : c.heap.Stored := by
  induction h with
  | new settings => exact stored_new settings
  | next _ request _ ih => exact Request.stored_run ih request

end Context

/-! ## What requests add -/

namespace Heap

variable {heap old new : Heap} {env : Env} {symbol : Symbol}

/-- Evaluation adds no slot to a frame that keeps the frame: all that it adds are functions of the
frame in which it runs. -/
theorem WritesTo.keepsAt {other : Env} (h : old.WritesTo other new) (hnew : new.Stored)
    (henv : env.index < old.frames.size) (hkeeps : new.keepsAt env symbol = true) :
    old.keepsAt env symbol = true := by
  obtain ⟨frame, hframe⟩ := Option.isSome_iff_exists.1 (frame?_isSome_iff.2 henv)
  obtain ⟨frame', slot, hframe', hslot, hslotKeeps⟩ := keepsAt_iff.1 hkeeps
  refine keepsAt_iff.2 ⟨frame, slot, hframe, ?_, hslotKeeps⟩
  by_cases hother : env = other
  · subst hother
    obtain ⟨_, hsame, hlater⟩ := h.own hframe
    obtain rfl := Option.some.inj (hframe'.symm.trans hsame)
    by_contra hne
    rw [← hslot] at hne
    obtain ⟨_, fn, -, hslot', hvalue, -⟩ := hlater.changed symbol (Ne.symm hne)
    obtain rfl := Option.some.inj (hslot.symm.trans hslot')
    have hburied := (hnew.keeps_iff hframe' hslot).1 hslotKeeps
    rw [hvalue] at hburied
    exact hburied.2 rfl
  · obtain rfl := Option.some.inj ((h.off hother hframe).symm.trans hframe')
    exact hslot

/-- What a binding changes about a slot that keeps its frame. -/
theorem keepsAt_define {other : Env} {same : Symbol} {value : Value}
    (h : (heap.define other same value).keepsAt env symbol = true) :
    heap.keepsAt env symbol = true ∨ other = env ∧ same.tag = symbol.tag ∧ value.Buries env := by
  obtain ⟨frame, slot, hframe, hslot, hkeeps⟩ := keepsAt_iff.1 h
  rcases frame?_define_eq_some hframe with ⟨rfl, older, hold, rfl⟩ | ⟨-, hold⟩
  · rw [Frame.get?_insert] at hslot
    split at hslot
    · next htag =>
      cases hslot
      exact .inr ⟨rfl, htag, Slot.keeps_ofValue.1 hkeeps⟩
    · exact .inl (keepsAt_iff.2 ⟨older, slot, hold, hslot, hkeeps⟩)
  · exact .inl (keepsAt_iff.2 ⟨frame, slot, hold, hslot, hkeeps⟩)

end Heap

/-! ## Calls -/

namespace Context

variable {c : Context} {env : Env}

mutual

/-- A context has no value with a handle to a frame that is not there yet. -/
theorem Holds.index_lt : (value : Value) → c.Holds value → value.encloses env = true →
    env.index < c.heap.frames.size
  | .fn closure, hvalue, hencloses => by
    rw [Value.encloses, decide_eq_true_eq] at hencloses
    exact hencloses ▸ hvalue.fn.2
  | .vec items, hvalue, hencloses => by
    cases hvalue with
    | leaf hleaf => cases hleaf
    | vec hitems => exact Holds.itemsIndex_lt items hitems hencloses
  | .splat inner, hvalue, hencloses => by
    cases hvalue with
    | leaf hleaf => cases hleaf
    | splat hinner => exact Holds.index_lt inner hinner hencloses

theorem Holds.itemsIndex_lt : (items : List Value) →
    List.Forall₂ (Value.Corresponds (.handles c)) items items →
      Value.itemsEnclose env items = true → env.index < c.heap.frames.size
  | item :: items, .cons hitem hitems, hencloses => by
    rw [Value.itemsEnclose, Bool.or_eq_true] at hencloses
    rcases hencloses with hfirst | hlater
    · exact Holds.index_lt item hitem hfirst
    · exact Holds.itemsIndex_lt items hitems hlater

end

end Context

/-- What a call binds has handles from its arguments alone. -/
theorem Fun.Binds.exists_encloses {fn : Fun} {taken more : List Value} {symbol : Symbol}
    {value : Value} {env : Env} (h : fn.Binds taken more symbol value)
    (hencloses : value.encloses env = true) :
    ∃ arg ∈ taken ++ more, arg.encloses env = true := by
  cases h with
  | rest =>
    rw [Value.encloses, Value.itemsEnclose_iff] at hencloses
    obtain ⟨arg, harg, hencloses⟩ := hencloses
    exact ⟨arg, List.mem_append_right taken harg, hencloses⟩
  | param _ _ _ hvalue _ =>
    exact ⟨value, List.mem_append_left more (List.mem_of_getElem? hvalue), hencloses⟩

/-- A frame that a call has just made does not keep itself, whatever arguments it binds, if these
have handles to older frames alone. -/
theorem Heap.Entered.not_keepsItself {old new : Heap} {closure : Closure}
    {taken more : List Value} {frame : Env} (h : old.Entered closure taken more frame new)
    (hargs : ∀ arg ∈ taken ++ more, ∀ env, arg.encloses env = true →
      env.index < old.frames.size) : ¬ new.KeepsItself frame := by
  rintro ⟨symbol, hkeeps⟩
  obtain ⟨bindings, slot, hframe, hslot, hkeeps⟩ := keepsAt_iff.1 hkeeps
  obtain ⟨_, hsame, -, hbinds⟩ := h.own
  obtain rfl := Option.some.inj (hframe.symm.trans hsame)
  have hbound : (bindings.get? symbol).map (Slot.value frame) = some (slot.value frame) := by
    rw [hslot]
    rfl
  obtain ⟨arg, harg, hencloses⟩ :=
    ((hbinds _ _).1 hbound).exists_encloses (Slot.encloses_of_keeps hkeeps)
  have hlt := hargs arg harg frame hencloses
  have hfresh := h.fresh
  omega

namespace Context

variable {c : Context}

/-- The frame of a call does not keep itself, however the call ends. -/
theorem not_keepsItself_call {bound : Nat} {closure : Closure} {args : List Value}
    (hstored : c.heap.Stored) (hargs : ∀ arg ∈ args, c.Holds arg) :
    ¬ ((Request.call bound closure args).run c).heap.KeepsItself ⟨c.heap.frames.size⟩ := by
  rintro ⟨symbol, hkeeps⟩
  have hafter := Request.stored_run hstored (.call bound closure args)
  change Heap.keepsAt ((applyClosure (eval bound) (.fn closure) closure args).after c).heap _ _ =
    true at hkeeps
  change Heap.Stored ((applyClosure (eval bound) (.fn closure) closure args).after c).heap at hafter
  by_cases hrefuses : closure.fn.Refuses args.length
  · -- The call has made no frame.
    obtain ⟨frame, slot, hframe, -⟩ := Heap.keepsAt_iff.1 hkeeps
    unfold after at hframe
    rw [applyClosure_of_refuses hrefuses] at hframe
    have hnone := c.heap.frame?_next none
    cases hnone.symm.trans hframe
  · obtain ⟨taken, more, frame, new, rfl, -, -, hentered, hbody⟩ :=
      applyClosure_of_not_refuses hrefuses c
    have hrun : (applyClosure (eval bound) (.fn closure) closure (taken ++ more)).after c =
        (evalForms (eval bound) closure.fn.body frame).after { c with heap := new } := by
      unfold after
      rw [hbody]
    rw [hrun] at hkeeps hafter
    obtain rfl : frame = ⟨c.heap.frames.size⟩ := congrArg Env.mk hentered.fresh
    have hwrites := inherited_writesTo.evalForms (inherited_writesTo.eval bound)
      ⟨c.heap.frames.size⟩ closure.fn.body { c with heap := new }
    have hsize : c.heap.frames.size < new.frames.size := by
      rw [hentered.size]
      exact Nat.lt_succ_self _
    refine hentered.not_keepsItself ?_ ⟨symbol, hwrites.heap.keepsAt hafter hsize hkeeps⟩
    exact fun arg harg env => Holds.index_lt arg (hargs arg harg)

/-! ## Frames that keep themselves -/

/-- Which frames of a context keep themselves, and which are going to. -/
structure OwnHandles (c : Context) : Prop where
  /-- A slot has a handle to its frame in it exactly if its value buries a function of the frame;
  for the value itself, the frame has none. -/
  slot : ∀ ⦃env frame symbol slot⦄, c.heap.frame? env = some frame →
    frame.get? symbol = some slot → (slot.keeps env = true ↔ (slot.value env).Buries env)
  /-- A frame does not come to keep itself unless the program binds such a value in it. -/
  request : ∀ (request : Request) ⦃env symbol⦄, env.index < c.heap.frames.size →
    (request.run c).heap.keepsAt env symbol = true → c.heap.keepsAt env symbol = true ∨
      ∃ same value, request = .define env same value ∧ same.tag = symbol.tag ∧ value.Buries env
  /-- The frame of a call does not keep itself. -/
  call : ∀ ⦃bound closure args⦄, (Request.call bound closure args).Handled c →
    ¬ ((Request.call bound closure args).run c).heap.KeepsItself ⟨c.heap.frames.size⟩

/-- **Only buried functions make a frame keep itself.** Evaluation does not bring any to a frame
that is there already, and a call does not bring any to its own. -/
theorem ownHandles (hc : c.Reachable Request.Handled) : c.OwnHandles where
  slot _ _ _ _ hframe hslot := (stored_of_reachable hc).keeps_iff hframe hslot
  request := by
    intro request env symbol henv hkeeps
    have hafter := Request.stored_run (stored_of_reachable hc) request
    rcases request.writesTo_run c with ⟨other, hwrites⟩ | ⟨other, same, value, rfl⟩
    · exact .inl (hwrites.keepsAt hafter henv hkeeps)
    · rcases Heap.keepsAt_define hkeeps with hold | ⟨rfl, htag, hburies⟩
      · exact .inl hold
      · exact .inr ⟨same, value, rfl, htag, hburies⟩
  call _ _ _ hhandled := not_keepsItself_call (stored_of_reachable hc) hhandled.2

/-- A function with a name is bound in the frame that it closes over, which does not keep itself for
that. -/
theorem ownHandles_named :
    let c := (Request.text 8 (.start "main") "(fun f () 1)" .root).run (.new {})
    c.OwnHandles ∧ c.heap.isLocal .root ⟨"f", 9⟩ = true ∧
      c.heap.keepsAt .root ⟨"f", 9⟩ = false := by
  refine ⟨ownHandles (.next (.new {}) _ ?_), by decide +kernel, by decide +kernel⟩
  change Env.root.index < (new {}).heap.frames.size
  decide

/-- A `let` that binds a vector with a function in it leaves a frame that keeps itself. -/
theorem keepsItself_let :
    (let c := (Request.text 8 (.start "main") "(let [v [(fun () 1)]] v)" .root).run (.new {})
     c.Reachable Request.Handled ∧ c.heap.keepsAt ⟨1⟩ ⟨"v", 9⟩ = true) ∧
    ¬ ∀ c : Context, c.Reachable Request.Handled → ∀ env, ¬ c.heap.KeepsItself env := by
  have hroot : Env.root.index < (new {}).heap.frames.size := by decide
  have hreachable : ((Request.text 8 (.start "main") "(let [v [(fun () 1)]] v)" .root).run
      (.new {})).Reachable Request.Handled := .next (.new {}) _ hroot
  have hkeeps : ((Request.text 8 (.start "main") "(let [v [(fun () 1)]] v)" .root).run
      (.new {})).heap.keepsAt ⟨1⟩ ⟨"v", 9⟩ = true := by decide +kernel
  exact ⟨⟨hreachable, hkeeps⟩, fun h => h _ hreachable ⟨1⟩ ⟨⟨"v", 9⟩, hkeeps⟩⟩

end Context

end SplatLisp
