import SplatLisp.Eval.Source
import SplatLisp.Host.Primitives
import SplatLisp.Proofs.Correspondence
import SplatLisp.Proofs.Interning
import SplatLisp.Proofs.RoundTrip

/-!
# Reprinting a program

A text is read, and its forms are written down again, one to a line. Comments, commas, lines and the
spelling of integers are lost, but evaluating the new text comes to the same as evaluating the old
one, from whatever place (`Eval.evalText_lines`).

The new text is read as the same trees, since what is read is canonical (`reads_lines`). Trees
decide which names are interned, and in which order, so the forms are the same but for their places
(`Reader.sameButPlaces_of_readAll`). Places have no say in evaluation. Things are the same when
places are taken away exactly if they correspond under links of all handles to themselves and of all
places to one another (`Value.unplaced_eq_iff`, `Context.sameButPlaces_iff`), so two runs that
differ in places alone go side by side.

Primitives of the surrounding program get their forms with the places in them. They are asked to be
blind to these (`HostPrims.PlaceBlind`); one that is not can tell the new text from the old.
-/

namespace SplatLisp

/-! ## Places taken away -/

namespace Form

theorem unplacedItems_congr {items items' : List Form}
    (h : List.Forall₂ (fun f f' => f.unplaced = f'.unplaced) items items') :
    unplacedItems items = unplacedItems items' := by
  induction h with
  | nil => rfl
  | cons hitem _ ih => rw [unplacedItems, unplacedItems, hitem, ih]

theorem Like.unplaced_eq {Q : Pos → Pos → Prop} {f f' : Form} (h : f.Like Eq Q f') :
    f.unplaced = f'.unplaced := by
  refine h.parts ?_ ?_ ?_
  · intro a a' p p' ha _
    cases ha with
    | id hs => rw [unplaced, unplaced, hs]
    | _ => rfl
  · intro bracket items items' p p' hitems _
    rw [unplaced, unplaced, unplacedItems_congr hitems]
  · intro inner inner' p p' hinner _
    rw [unplaced, unplaced, hinner]

mutual

theorem like_of_unplaced_eq {Q : Pos → Pos → Prop} (hQ : ∀ p p', Q p p') :
    (f f' : Form) → f.unplaced = f'.unplaced → f.Like Eq Q f'
  | .atom a p, .atom a' p', h => by
    obtain rfl : a = a' := (Form.atom.inj h).1
    refine .atom ?_ (hQ p p')
    cases a with
    | id s => exact .id rfl
    | nil => exact .nil
    | bool b => exact .bool b
    | int n => exact .int n
  | .group bracket items p, .group bracket' items' p', h => by
    obtain ⟨rfl, hitems, -⟩ := Form.group.inj h
    exact .group bracket (likes_of_unplaced_eq hQ items items' hitems) (hQ p p')
  | .splat inner p, .splat inner' p', h =>
    .splat (like_of_unplaced_eq hQ inner inner' (Form.splat.inj h).1) (hQ p p')

theorem likes_of_unplaced_eq {Q : Pos → Pos → Prop} (hQ : ∀ p p', Q p p') :
    (fs fs' : List Form) → unplacedItems fs = unplacedItems fs' → List.Forall₂ (Like Eq Q) fs fs'
  | [], [], _ => .nil
  | f :: fs, f' :: fs', h => by
    obtain ⟨hf, hfs⟩ := List.cons.inj h
    exact .cons (like_of_unplaced_eq hQ f f' hf) (likes_of_unplaced_eq hQ fs fs' hfs)

end

end Form

/-- All handles linked to themselves, and all places to one another. -/
def Links.places : Links := { same with pos := fun _ _ => True, pos_self := fun _ => trivial }

/-- The function with all parts of its body at one place. -/
def Fun.unplaced (fn : Fun) : Fun := { fn with body := Form.unplacedItems fn.body }

theorem Fun.Like.unplaced_eq {fn fn' : Fun} (h : fn.Like .places fn') :
    fn.unplaced = fn'.unplaced := by
  have hbody : Form.unplacedItems fn.body = Form.unplacedItems fn'.body :=
    Form.unplacedItems_congr (h.body.imp fun _ _ hf => hf.unplaced_eq)
  rw [h.eq_of_handles id id, unplaced, unplaced, hbody]

theorem Fun.like_of_unplaced_eq {fn fn' : Fun} (h : fn.unplaced = fn'.unplaced) :
    fn.Like .places fn' := by
  obtain ⟨hidentity, hname, hparams, hrest, hbody⟩ := Fun.mk.inj h
  refine ⟨hidentity, option_rel_eq_iff.2 hname, ?_, option_rel_eq_iff.2 hrest, ?_⟩
  · rw [hparams]
    exact List.forall₂_same.2 fun _ _ => rfl
  · exact Form.likes_of_unplaced_eq (fun _ _ => trivial) fn.body fn'.body hbody

namespace Value

mutual

/-- The value with all parts of the bodies of functions at one place. -/
def unplaced : Value → Value
  | vec items => .vec (unplacedItems items)
  | splat inner => .splat inner.unplaced
  | fn closure => .fn ⟨closure.fn.unplaced, closure.env⟩
  | value => value

def unplacedItems : List Value → List Value
  | [] => []
  | item :: items => item.unplaced :: unplacedItems items

end

theorem unplacedItems_congr {items items' : List Value}
    (h : List.Forall₂ (fun v v' => v.unplaced = v'.unplaced) items items') :
    unplacedItems items = unplacedItems items' := by
  induction h with
  | nil => rfl
  | cons hitem _ ih => rw [unplacedItems, unplacedItems, hitem, ih]

theorem Corresponds.unplaced_eq {v v' : Value} (h : v.Corresponds .places v') :
    v.unplaced = v'.unplaced := by
  refine h.parts ?_ ?_ ?_
  · intro v v' hleaf
    cases hleaf with
    | @fn closure closure' hfn henv =>
      have henv : closure.env = closure'.env := henv
      rw [unplaced, unplaced, hfn.unplaced_eq, henv]
    | @prim i i' hi name min max op => rw [show i = i' from hi]
    | @host i i' hi t data => rw [show i = i' from hi]
    | _ => rfl
  · intro items items' hitems
    rw [unplaced, unplaced, unplacedItems_congr hitems]
  · intro inner inner' hinner
    rw [unplaced, unplaced, hinner]

/-- Values that are the same without places, and of which one has no parts, correspond. -/
theorem corresponds_leaf {v v' : Value} (hv : ∀ items, v ≠ .vec items) (hs : ∀ w, v ≠ .splat w)
    (h : v.unplaced = v'.unplaced) : v.Corresponds .places v' := by
  refine .leaf ?_
  cases v with
  | vec items => exact absurd rfl (hv items)
  | splat inner => exact absurd rfl (hs inner)
  | fn closure =>
    cases v' with
    | fn closure' =>
      obtain ⟨hfn, henv⟩ := Closure.mk.inj (Value.fn.inj h)
      exact .fn (Fun.like_of_unplaced_eq hfn) henv
    | _ => cases h
  | prim p =>
    cases v' with
    | prim p' =>
      obtain rfl := Value.prim.inj h
      exact .prim rfl p.name p.minArgs p.maxArgs p.op
    | _ => cases h
  | host value =>
    cases v' with
    | host value' =>
      obtain rfl := Value.host.inj h
      exact .host rfl value.type value.data
    | _ => cases h
  | nil | bool b | int n | type t =>
    cases v' <;> cases h
    constructor

mutual

theorem corresponds_of_unplaced_eq :
    (v v' : Value) → v.unplaced = v'.unplaced → v.Corresponds .places v'
  | .vec items, v', h => by
    cases v' with
    | vec items' => exact .vec (correspond_of_unplaced_eq items items' (Value.vec.inj h))
    | _ => cases h
  | .splat inner, v', h => by
    cases v' with
    | splat inner' => exact .splat (corresponds_of_unplaced_eq inner inner' (Value.splat.inj h))
    | _ => cases h
  | .nil, _, h | .bool _, _, h | .int _, _, h | .fn _, _, h | .prim _, _, h | .type _, _, h
  | .host _, _, h => corresponds_leaf nofun nofun h

theorem correspond_of_unplaced_eq : (items items' : List Value) →
    unplacedItems items = unplacedItems items' → List.Forall₂ (Corresponds .places) items items'
  | [], [], _ => .nil
  | item :: items, item' :: items', h => by
    obtain ⟨hitem, hitems⟩ := List.cons.inj h
    exact .cons (corresponds_of_unplaced_eq item item' hitem)
      (correspond_of_unplaced_eq items items' hitems)

end

/-- **Values are the same but for places exactly if they correspond** when all places are linked. -/
theorem unplaced_eq_iff {v v' : Value} :
    v.unplaced = v'.unplaced ↔ v.Corresponds .places v' :=
  ⟨corresponds_of_unplaced_eq v v', Corresponds.unplaced_eq⟩

end Value

/-! ## Forms one to a line -/

namespace Form

/-- The texts of forms, one to a line. -/
def lines (forms : List Form) : String := "\n".intercalate (forms.map text)

theorem spells_lines : (forms : List Form) → (∀ t ∈ trees forms, t.Canonical) →
    Spells (lines forms).toList (trees forms)
  | [], _ => .nil
  | [form], h => by
    rw [lines, List.map_singleton, String.intercalate_singleton, toList_text]
    exact form.spells (h _ List.mem_cons_self)
  | form :: next :: forms, h => by
    obtain ⟨hform, hforms⟩ := List.forall_mem_cons.1 h
    have hmore : Spells ('\n' :: (lines (next :: forms)).toList) (trees (next :: forms)) :=
      .blank (.inl (by decide)) (spells_lines (next :: forms) hforms)
    have hchars : (lines (form :: next :: forms)).toList =
        form.chars ++ '\n' :: (lines (next :: forms)).toList := by
      rw [lines, List.map_cons, List.map_cons, String.intercalate_cons_cons, ← List.map_cons]
      simp [lines, toList_text]
    rw [hchars]
    refine .cons (form.spells hform) hmore fun d hd => ?_
    cases hd
    decide

end Form

/-- The lines of forms that have been read are read as the same trees. -/
theorem reads_lines {text : List Char} {forms : List Form} (h : Reads text (forms.map Form.tree)) :
    Reads (Form.lines forms).toList (forms.map Form.tree) := by
  have hcanonical := h.canonical
  rw [← Form.trees_eq_map] at hcanonical ⊢
  exact (Form.spells_lines forms hcanonical).reads

/-- Texts with the same trees are read as forms that differ in places alone, and with the same names
interned. -/
theorem Reader.sameButPlaces_of_readAll {table : SymbolTable} {text text' : String}
    {pos pos' : Pos} {forms forms' : List Form} {reader reader' : Reader}
    (h : (ofText table text).readAll pos = (.ok forms, reader))
    (h' : (ofText table text').readAll pos' = (.ok forms', reader'))
    (htrees : forms.map Form.tree = forms'.map Form.tree) :
    Form.unplacedItems forms = Form.unplacedItems forms' ∧ reader.symbols = reader'.symbols := by
  have hsymbols : reader.symbols = reader'.symbols := by
    rw [symbols_of_readAll h, symbols_of_readAll h', htrees]
    rfl
  obtain ⟨-, -, howns⟩ := reads_of_readAll h
  obtain ⟨-, -, howns'⟩ := reads_of_readAll h'
  rw [← hsymbols] at howns'
  rw [← Form.itemSymbols_eq_flatMap] at howns howns'
  rw [← Form.trees_eq_map, ← Form.trees_eq_map] at htrees
  exact ⟨Form.unplacedItems_eq forms forms' howns howns' htrees, hsymbols⟩

/-! ## Contexts -/

/-- What a frame itself binds a symbol to. -/
def Heap.bound? (heap : Heap) (env : Env) (symbol : Symbol) : Option Value :=
  (heap.frame? env).bind fun frame => (frame.get? symbol).map (Slot.value env)

/-- Contexts that differ at most in the places in the bodies of the functions bound in frames. -/
structure Context.SameButPlaces (c c' : Context) : Prop where
  symbols : c.symbols = c'.symbols
  types : c.types = c'.types
  identities : c.identities = c'.identities
  sinks : c.sinks = c'.sinks
  diagnostics : c.diagnostics = c'.diagnostics
  out : c.out = c'.out
  frames : c.heap.frames.size = c'.heap.frames.size
  parents : ∀ env, c.heap.parent? env = c'.heap.parent? env
  bound : ∀ env symbol, (c.heap.bound? env symbol).map Value.unplaced =
    (c'.heap.bound? env symbol).map Value.unplaced

theorem Slot.rel_of_unplaced_eq {env : Env} {x x' : Option Slot}
    (h : (x.map (value env)).map Value.unplaced = (x'.map (value env)).map Value.unplaced) :
    Option.Rel (fun slot slot' => (slot.value env).Corresponds .places (slot'.value env)) x x' := by
  cases x with
  | none =>
    cases x' with
    | none => exact .none
    | some slot' => cases h
  | some slot =>
    cases x' with
    | none => cases h
    | some slot' => exact .some (Value.unplaced_eq_iff.1 (Option.some.inj h))

namespace Context

theorem Corresponds.sameButPlaces {c c' : Context} (h : c.Corresponds .places c')
    (hsymbols : c.symbols = c'.symbols) (hsinks : c.sinks = c'.sinks) : c.SameButPlaces c' where
  symbols := hsymbols
  types := h.types
  identities := h.identities 0
  sinks := hsinks
  diagnostics := h.diagnostics
  out := h.out
  frames := congrArg Env.index (h.frames 0)
  parents env := by
    have hrel := h.heap (show Links.places.env env env from rfl)
    unfold Heap.parent?
    generalize c.heap.frame? env = x at hrel
    generalize c'.heap.frame? env = x' at hrel
    cases hrel with
    | none => rfl
    | some hframe => exact option_rel_eq_iff.1 (option_rel_imp And.left hframe.parent)
  bound env symbol := by
    have hrel := h.heap (show Links.places.env env env from rfl)
    unfold Heap.bound?
    generalize c.heap.frame? env = x at hrel
    generalize c'.heap.frame? env = x' at hrel
    cases hrel with
    | none => rfl
    | some hframe =>
      rw [Option.bind_some, Option.bind_some, Option.map_map, Option.map_map]
      exact map_eq_of_rel (hframe.slots rfl) Value.Corresponds.unplaced_eq

theorem SameButPlaces.corresponds {c c' : Context} (h : c.SameButPlaces c') :
    c.Corresponds .places c' where
  heap := by
    intro env env' henv
    obtain rfl : env = env' := henv
    have hsome : (c.heap.frame? env).isSome = (c'.heap.frame? env).isSome := by
      rw [Bool.eq_iff_iff, Heap.frame?_isSome_iff, Heap.frame?_isSome_iff, h.frames]
    have hparent := h.parents env
    have hbound := h.bound env
    unfold Heap.parent? at hparent
    unfold Heap.bound? at hbound
    generalize c.heap.frame? env = x at hsome hparent hbound ⊢
    generalize c'.heap.frame? env = x' at hsome hparent hbound ⊢
    cases x with
    | none =>
      cases x' with
      | none => exact .none
      | some frame' => cases hsome
    | some frame =>
      cases x' with
      | none => cases hsome
      | some frame' =>
        refine .some ⟨?_, fun {s s'} hs => ?_⟩
        · rw [show frame.parent = frame'.parent from hparent]
          exact option_rel_self (fun p => ⟨rfl, Iff.rfl⟩) _
        · obtain rfl : s = s' := hs
          exact Slot.rel_of_unplaced_eq (hbound s)
  frames k := congrArg (fun size => Env.mk (size + k)) h.frames
  identities k := congrArg (· + k) h.identities
  types := h.types
  diagnostics := h.diagnostics
  out := h.out

/-- **Contexts are the same but for places exactly if they correspond** when all places are linked,
symbols and sinks apart. -/
theorem sameButPlaces_iff {c c' : Context} : c.SameButPlaces c' ↔
    c.Corresponds .places c' ∧ c.symbols = c'.symbols ∧ c.sinks = c'.sinks := by
  constructor
  · intro h
    exact ⟨h.corresponds, h.symbols, h.sinks⟩
  · rintro ⟨h, hsymbols, hsinks⟩
    exact h.sameButPlaces hsymbols hsinks

theorem SameButPlaces.refl (c : Context) : c.SameButPlaces c where
  symbols := rfl
  types := rfl
  identities := rfl
  sinks := rfl
  diagnostics := rfl
  out := rfl
  frames := rfl
  parents _ := rfl
  bound _ _ := rfl

/-- The relation of contexts that are the same but for places, under links of all places. -/
def PlacesAside (L : Links) (c c' : Context) : Prop := L = .places ∧ c.SameButPlaces c'

/-- What is done to a frame or to the supply of identities does not show elsewhere. -/
theorem placesAside_of {L M : Links} {c c' d d' : Context} (h : PlacesAside L c c')
    (hd : CorrespondsAt .places M d d') (hsymbols : d.symbols = c.symbols)
    (hsymbols' : d'.symbols = c'.symbols) (hsinks : d.sinks = c.sinks)
    (hsinks' : d'.sinks = c'.sinks) : PlacesAside M d d' := by
  refine ⟨hd.1, sameButPlaces_iff.2 ⟨hd.2, ?_, ?_⟩⟩
  · rw [hsymbols, hsymbols', h.2.symbols]
  · rw [hsinks, hsinks', h.2.sinks]

theorem PlacesAside.correspondsAt {L : Links} {c c' : Context} (h : PlacesAside L c c') :
    CorrespondsAt .places L c c' :=
  ⟨h.1, (sameButPlaces_iff.1 h.2).1⟩

theorem congruence_placesAside : Congruence Value.Corresponds PlacesAside where
  types hc := hc.2.types
  diagnostics hc := hc.2.diagnostics
  out hc := hc.2.out
  write {L c c' ref ref'} hc href text := by
    subst href
    have hsinks := congrArg (·.writeLine ref text) hc.2.sinks
    exact ⟨hc.1, { hc.2 with sinks := hsinks }⟩
  lookup hc := (congruence_corresponds .places).lookup hc.correspondsAt
  define hc henv hs hvalue :=
    placesAside_of hc ((congruence_corresponds .places).define hc.correspondsAt henv hs hvalue)
      rfl rfl rfl rfl
  alloc hc hparent := by
    obtain ⟨M, hLM, hlink, hd⟩ :=
      (congruence_corresponds .places).alloc hc.correspondsAt hparent
    exact ⟨M, hLM, hlink, placesAside_of hc hd rfl rfl rfl rfl⟩
  fresh hc := by
    obtain ⟨M, hLM, hlink, hd⟩ := (congruence_corresponds .places).fresh hc.correspondsAt
    exact ⟨M, hLM, hlink, placesAside_of hc hd rfl rfl rfl rfl⟩

end Context

/-! ## Evaluation -/

namespace Eval

/-- Outcomes that differ in places alone: values with the same parts but for places in the bodies of
functions, or stops with the same error; and contexts with the same bindings in all frames, again
but for such places, and the same symbols and output. -/
inductive SameButPlaces :
    EStateM.Result Stop Context Value → EStateM.Result Stop Context Value → Prop
  | value {v v' : Value} {d d' : Context} (hvalue : v.unplaced = v'.unplaced)
    (hafter : d.SameButPlaces d') : SameButPlaces (.ok v d) (.ok v' d')
  | stop {stop stop' : Stop} {d d' : Context} (hstop : stop.Like stop')
    (hafter : d.SameButPlaces d') : SameButPlaces (.error stop d) (.error stop' d')

/-- Runs side by side are those with outcomes that differ in places alone. -/
theorem endsIn_placesAside_iff {r r' : EStateM.Result Stop Context Value} :
    EndsIn Context.PlacesAside .places Value.Corresponds r r' ↔ SameButPlaces r r' := by
  constructor
  · intro h
    cases h with
    | ok _ hvalue hd =>
      obtain ⟨rfl, hd⟩ := hd
      exact .value hvalue.unplaced_eq hd
    | error _ hstop hd => exact .stop hstop hd.2
  · intro h
    cases h with
    | value hvalue hafter => exact .ok le_rfl (Value.unplaced_eq_iff.1 hvalue) ⟨rfl, hafter⟩
    | stop hstop hafter => exact .error le_rfl hstop ⟨rfl, hafter⟩

end Eval

open Eval

/-- Whether places have no say in what the primitives of the surrounding program do: on forms and in
contexts that differ in places alone, over evaluators that come to the same, they come to the
same. -/
def HostPrims.PlaceBlind [HostPrims] : Prop :=
  ∀ {ev ev' : Evaluator},
    (∀ {form form' : Form}, form.unplaced = form'.unplaced → ∀ (env : Env) {c c' : Context},
      c.SameButPlaces c' → Eval.SameButPlaces (ev form env c) (ev' form' env c')) →
    ∀ (code : Nat) {forms forms' : List Form},
      Form.unplacedItems forms = Form.unplacedItems forms' → ∀ (env : Env) {c c' : Context},
      c.SameButPlaces c' →
        Eval.SameButPlaces (HostPrims.run code ev forms env c)
          (HostPrims.run code ev' forms' env c')

namespace Eval

theorem hostsRunIn_of_placeBlind [HostPrims] (h : HostPrims.PlaceBlind) :
    HostsRunIn Value.Corresponds Context.PlacesAside := by
  intro ev ev' hev L env env' code forms forms' hforms henv c c' ⟨hL, hc⟩
  subst hL
  obtain rfl : env = env' := henv
  refine endsIn_placesAside_iff.2 (h ?_ code ?_ env hc)
  · intro form form' hform env d d' hd
    have hlike : form.Like Eq (fun _ _ => True) form' :=
      Form.like_of_unplaced_eq (fun _ _ => trivial) form form' hform
    exact endsIn_placesAside_iff.1 (hev hlike rfl d d' ⟨rfl, hd⟩)
  · exact Form.unplacedItems_congr (hforms.imp fun _ _ hform => hform.unplaced_eq)

theorem placeBlind_of_hostsRunIn [HostPrims]
    (h : HostsRunIn Value.Corresponds Context.PlacesAside) : HostPrims.PlaceBlind := by
  intro ev ev' hev code forms forms' hforms env c c' hc
  have hlike : List.Forall₂ (Form.Like Links.places.symbol Links.places.pos) forms forms' :=
    Form.likes_of_unplaced_eq (fun _ _ => trivial) forms forms' hforms
  refine endsIn_placesAside_iff.1 (h ?_ code hlike rfl c c' ⟨rfl, hc⟩)
  rintro L form form' env env' hform henv d d' ⟨rfl, hd⟩
  obtain rfl : env = env' := henv
  exact endsIn_placesAside_iff.2 (hev hform.unplaced_eq env hd)

open scoped CoreOnly in
theorem placeBlind_coreOnly : HostPrims.PlaceBlind := placeBlind_of_hostsRunIn hostsRunIn_coreOnly

theorem hostsRunIn_probes :
    @HostsRunIn .probes Value.Corresponds Context.PlacesAside := by
  intro ev ev' hev L env env' code forms forms' hforms henv
  change RunsIn _ L _ (runProbe code ev forms env) (runProbe code ev' forms' env')
  unfold runProbe
  split
  · rw [hforms.length_eq]
    exact .pure (.leaf (.int _))
  · cases hforms with
    | nil => exact .fail Context.congruence_placesAside (.refl _)
    | cons hform _ =>
      dsimp only
      rw [hform.text_eq L.name_eq]
      exact .fail Context.congruence_placesAside (.refl _)
  · let _ : HostPrims := .none
    have hparallel := parallel_runsIn Value.congruence_corresponds Context.congruence_placesAside
      hostsRunIn_coreOnly
    refine (hparallel.evalArgs hev hforms henv).bind fun M _ args args' hargs => ?_
    exact .pure (.vec hargs)
  · exact .throw .broken

theorem placeBlind_probes : @HostPrims.PlaceBlind .probes :=
  @placeBlind_of_hostsRunIn .probes hostsRunIn_probes

/-- Places have no say in what forms come to. -/
theorem evalForms_sameButPlaces [HostPrims] (hhost : HostPrims.PlaceBlind)
    {forms forms' : List Form} (h : Form.unplacedItems forms = Form.unplacedItems forms')
    (bound : Nat) (env : Env) {c c' : Context} (hc : c.SameButPlaces c') :
    SameButPlaces (evalForms (eval bound) forms env c)
      (evalForms (eval bound) forms' env c') := by
  have hforms : List.Forall₂ (Form.Like Links.places.symbol Links.places.pos) forms forms' :=
    Form.likes_of_unplaced_eq (fun _ _ => trivial) forms forms' h
  have hparallel := parallel_runsIn Value.congruence_corresponds Context.congruence_placesAside
    (hostsRunIn_of_placeBlind hhost)
  have henv : Links.places.env env env := rfl
  have hruns := hparallel.evalForms (hparallel.eval bound) hforms henv
  exact endsIn_placesAside_iff.1 (hruns c c' ⟨rfl, hc⟩)

/-- **Reprinting a program keeps what it means.** A text is read as forms. Evaluating the texts of
the forms, one to a line, comes to the same as evaluating the text, in whatever context and
environment, and from whatever places: to the same value or the same error, with the same bindings
in every frame, the same symbols, and the same output, places in the bodies of functions aside. The
surrounding program may have primitives of its own that are blind to places. -/
theorem evalText_lines [HostPrims] (hhost : HostPrims.PlaceBlind) {c : Context} {pos : Pos}
    {text : String} {forms : List Form} {reader : Reader}
    (h : (Reader.ofText c.symbols text).readAll pos = (.ok forms, reader))
    (old new : Pos) (bound : Nat) (env : Env) :
    SameButPlaces (evalText bound old text env c)
      (evalText bound new (Form.lines forms) env c) := by
  obtain ⟨hreads, -⟩ := Reader.reads_of_readAll h
  obtain ⟨before, reader₁, hbefore, htrees⟩ := Reader.exists_readAll_of_reads hreads c.symbols old
  obtain ⟨after, reader₂, hafter, htrees'⟩ :=
    Reader.exists_readAll_of_reads (reads_lines hreads) c.symbols new
  obtain ⟨hforms, hsymbols⟩ :=
    Reader.sameButPlaces_of_readAll hbefore hafter (htrees.trans htrees'.symm)
  rw [evalText_of_readAll hbefore, evalText_of_readAll hafter, hsymbols]
  exact evalForms_sameButPlaces hhost hforms bound env (.refl _)

/-- Not all primitives are blind to places: one that gives the row of its first form is not. -/
theorem not_placeBlind_rows {H : HostPrims}
    (h : ∀ ev form forms env, H.run 0 ev (form :: forms) env = pure (.int (.ofNat form.pos.row))) :
    ¬ @HostPrims.PlaceBlind H := by
  intro hblind
  let above := Form.atom .nil ⟨"rows", 1, 1⟩
  let below := Form.atom .nil ⟨"rows", 2, 1⟩
  have hforms : Form.unplacedItems [above] = Form.unplacedItems [below] := rfl
  have hsame := @hblind (fun _ _ => throw .exhausted) (fun _ _ => throw .exhausted)
    (fun _ _ _ _ hc => .stop .exhausted hc) 0 _ _ hforms .root _ _ (.refl (.new {}))
  rw [h, h] at hsame
  cases hsame with
  | value hvalue _ => exact absurd (Value.int.inj hvalue) (by decide)

/-- A call of a primitive of the surrounding program. -/
theorem evalText_lines_comment :
    let _ : HostPrims := .probes
    let c := (Context.new {}).install ("count", 0, none, .count)
    HostPrims.PlaceBlind ∧ ∃ forms reader,
      (Reader.ofText c.symbols "(count, 007) ; (").readAll (.start "old") = (.ok forms, reader) ∧
        Form.lines forms = "(count 7)" ∧
        SameButPlaces (evalText 64 (.start "old") "(count, 007) ; (" .root c)
          (evalText 64 (.start "new") "(count 7)" .root c) := by
  intro _ c
  have hcount : IsRun ['c', 'o', 'u', 'n', 't'] := by
    refine ⟨List.cons_ne_nil _ _, ?_⟩
    simp only [List.forall_mem_cons]
    exact ⟨by decide, by decide, by decide, by decide, by decide, nofun⟩
  have hname : IsName "count".toList := isName_of_toInt? (by decide) rfl
  have hseven : Numeral ['0', '0', '7'] (7 : Int64).toInt := by
    rw [numeral_iff]
    rfl
  have hreads : Reads "(count, 007) ; (".toList [.group .round [.id "count", .int 7]] := by
    have hcomment : Lexes true " ; (".toList [] := .blank (.inl rfl) (.lastComment (by decide))
    have hclosing : Lexes false ") ; (".toList [.closing .round] := .closing .round hcomment
    have hnumeral : Lexes false "007) ; (".toList [.run ['0', '0', '7'], .closing .round] := by
      refine .run hseven.isRun.not_delimits ?_ nofun hclosing
      rintro _ ⟨⟩
      decide
    have hinner : Lexes false "count, 007) ; (".toList
        [.run "count".toList, .run ['0', '0', '7'], .closing .round] := by
      refine .run hcount.not_delimits ?_ nofun (.blank (.inr rfl) (.blank (.inl rfl) hnumeral))
      rintro _ ⟨⟩
      decide
    have hitems : Derives [.run "count".toList, .run ['0', '0', '7']] [.id "count", .int 7] :=
      .run (.atom (by decide) (.id hname)) (.run (.atom hseven.not_mark (.int 7 hseven)) .nil)
    have hgroup := Derives.group .round hitems .nil
    exact ⟨_, .opening .round hinner, hgroup⟩
  obtain ⟨forms, reader, hread, htrees⟩ :=
    Reader.exists_readAll_of_reads hreads c.symbols (.start "old")
  obtain ⟨f, rfl, hf⟩ := List.map_eq_singleton_iff.1 htrees
  have hlines : Form.lines [f] = "(count 7)" := by
    rcases f with ⟨_ | _ | _ | _, _⟩ | ⟨bracket, items, p⟩ | _
    case group =>
      obtain ⟨rfl, hitems⟩ := Tree.group.inj hf
      rw [Form.trees_eq_map] at hitems
      obtain ⟨x, rest, rfl, hx, hrest⟩ := List.map_eq_cons_iff.1 hitems
      obtain ⟨y, rfl, hy⟩ := List.map_eq_singleton_iff.1 hrest
      rcases y with ⟨_ | _ | n | _, r⟩ | _ | _ <;> cases hy
      rcases x with ⟨_ | _ | _ | ⟨name, tag⟩, q⟩ | _ | _
      case atom.id =>
        obtain rfl : name = "count" := Tree.id.inj hx
        rfl
      all_goals cases hx
    all_goals cases hf
  have hsame := evalText_lines placeBlind_probes hread (.start "old") (.start "new") 64 .root
  rw [hlines] at hsame
  exact ⟨placeBlind_probes, [f], reader, hread, hlines, hsame⟩

end Eval

end SplatLisp
