import SplatLisp.Proofs.Lockstep
import SplatLisp.Proofs.Requests
import SplatLisp.Proofs.Rereading

/-!
# Sound contexts

A context is sound if it is like itself, all its handles being linked to themselves: the handles in
all values that it binds are its own. Whatever runs in lockstep with itself leads from sound
contexts to sound contexts (`sound_after`), and so do all requests that give the context only what
is its own (`Request.Held.run`); hence all contexts that these lead to are sound
(`Context.sound_of_reachable`).

Reading runs in lockstep as well, in contexts with different symbol tables; the symbols of one name
are linked afterwards (`Eval.Lockstep.readChars`).
-/

namespace SplatLisp

open scoped CoreOnly

variable {L : Links}

/-! ## Symbol tables that grow -/

namespace SymbolTable

variable {table table' : SymbolTable} {s s' t t' : Symbol}

/-- The symbols of a table have one tag if they have one name. -/
theorem tag_eq_iff (hs : table.get? s.name = some s) (ht : table.get? t.name = some t) :
    s.tag = t.tag ↔ s.name = t.name := by
  constructor
  · intro h
    have hsname := (ofTag?_eq_some_iff.1 (get?_eq_some_iff.1 hs).1).1
    have htname := (ofTag?_eq_some_iff.1 (get?_eq_some_iff.1 ht).1).1
    rw [h, htname] at hsname
    exact (Option.some.inj hsname).symm
  · intro h
    rw [h, ht] at hs
    rw [Option.some.inj hs]

theorem Shared.tag_iff (hs : table.Shared table' s s') (ht : table.Shared table' t t') :
    s.tag = t.tag ↔ s'.tag = t'.tag := by
  rw [tag_eq_iff hs.left ht.left, tag_eq_iff hs.right ht.right, hs.name, ht.name]

theorem shared_self (h : table.get? s.name = some s) : table.Shared table s s := ⟨rfl, h, h⟩

theorem Shared.mono {new new' : SymbolTable} (h : table.Shared table' s s')
    (hext : table.Extends new) (hext' : table'.Extends new') : new.Shared new' s s' :=
  ⟨h.name, hext h.left, hext' h.right⟩

end SymbolTable

/-- The links with other symbols: those of one name in two tables. -/
def Links.withTables (L : Links) (table table' : SymbolTable) : Links :=
  { L with
    symbol := table.Shared table'
    tag_iff := SymbolTable.Shared.tag_iff
    name_eq := SymbolTable.Shared.name }

/-- Contexts stay alike when their tables grow. -/
theorem Context.Like.withTables {c c' : Context} (h : c.Like L c') {table table' : SymbolTable}
    (hext : c.symbols.Extends table) (hext' : c'.symbols.Extends table') :
    L ≤ L.withTables table table' ∧
      { c with symbols := table }.Like (L.withTables table table')
        { c' with symbols := table' } := by
  have hle : L ≤ L.withTables table table' :=
    ⟨id, id, fun hs => (h.symbol.1 hs).mono hext hext', id⟩
  exact ⟨hle, h.heap.mono_of_env hle id, h.identity, Iff.rfl, h.types, h.diagnostics, h.out⟩

/-! ## Reading in lockstep -/

/-- Symbols have no say in what two runs have done. -/
theorem Context.Grown.relabel {b b' c c' : Context} (h : Grown L b b' c c')
    {symbols symbols' : SymbolTable} :
    Grown L b b' { c with symbols } { c' with symbols := symbols' } :=
  ⟨h.types, h.diagnostics, h.out, h.frames, h.identities, h.sinks⟩

namespace Eval

/-- The same text is read as forms that are alike. -/
theorem Lockstep.readChars (L : Links) (pos : Pos) (chars : List Char) :
    Lockstep L (fun M => List.Forall₂ (Form.Like M.symbol M.pos)) (Eval.readChars pos chars)
      (Eval.readChars pos chars) := by
  rintro b b' c c' ⟨hc, hgrown⟩
  obtain ⟨houtcome, hext, hext'⟩ := Reader.readAll_tables chars pos c.symbols c'.symbols
  rw [readChars_eq, readChars_eq]
  cases hread : (Reader.mk chars c.symbols).readAll pos with
  | mk outcome reader =>
    cases hread' : (Reader.mk chars c'.symbols).readAll pos with
    | mk outcome' reader' =>
      rw [hread, hread'] at houtcome
      rw [hread] at hext
      rw [hread'] at hext'
      obtain ⟨hle, hd⟩ := hc.withTables hext hext'
      have hd : Context.Since Context.Like b b' _ { c with symbols := reader.symbols }
          { c' with symbols := reader'.symbols } := ⟨hd, (hgrown.mono hle).relabel⟩
      cases houtcome with
      | @ok forms forms' hforms =>
        obtain ⟨_, _, rfl, -, -, -, howns⟩ := Reader.derives_of_readAllFrom hread
        obtain ⟨_, _, rfl, -, -, -, howns'⟩ := Reader.derives_of_readAllFrom hread'
        refine .ok hle ?_ hd
        refine Form.likes_link hforms (fun {p _} h => h ▸ L.pos_self p) ?_
        exact fun s hs s' hs' hname => ⟨hname, howns s hs, howns' s' hs'⟩
      | error cause hpos =>
        obtain rfl := hpos
        exact (RunsIn.raise (congruence_since_like b b') ⟨rfl, rfl⟩ _ _ hd).mono hle

theorem Lockstep.evalChars (bound : Nat) (pos : Pos) (chars : List Char) {env env' : Env}
    (henv : L.env env env') :
    Lockstep L Value.Like (Eval.evalChars bound pos chars env)
      (Eval.evalChars bound pos chars env') := by
  refine parallel_lockstep.bind (Lockstep.readChars L pos chars) fun M hLM forms forms' hforms => ?_
  exact parallel_lockstep.evalForms (parallel_lockstep.eval bound) hforms (hLM.env henv)

theorem Lockstep.load (bound : Nat) (read : ReadFile) (name : String) {env env' : Env}
    (henv : L.env env env') :
    Lockstep L Value.Like (Eval.load bound read name env) (Eval.load bound read name env') := by
  unfold Eval.load
  cases read name with
  | ok bytes => exact Lockstep.evalChars bound (.start name) (Utf8.decode bytes) henv
  | error reason => exact parallel_lockstep.fail (.refl _)

/-- The symbols of one name are linked once they are interned. -/
theorem Lockstep.intern (L : Links) (name : String) :
    Lockstep L Links.symbol (Eval.intern name) (Eval.intern name) := by
  rintro b b' c c' ⟨hc, hgrown⟩
  obtain ⟨hle, hd⟩ :=
    hc.withTables (c.symbols.extends_intern name) (c'.symbols.extends_intern name)
  have hshared : (c.symbols.intern name).2.Shared (c'.symbols.intern name).2
      (c.symbols.intern name).1 (c'.symbols.intern name).1 := by
    refine ⟨?_, ?_, ?_⟩
    · rw [SymbolTable.intern_name, SymbolTable.intern_name]
    · rw [SymbolTable.intern_name]
      exact c.symbols.get?_intern name
    · rw [SymbolTable.intern_name]
      exact c'.symbols.get?_intern name
  exact .ok hle hshared ⟨hd, (hgrown.mono hle).relabel⟩

end Eval

/-! ## Sound contexts -/

/-- The handles of a context, each linked to itself. -/
def Links.self (c : Context) : Links where
  env e e' := e = e' ∧ e.index < c.heap.frames.size
  identity i i' := i = i' ∧ i < c.identities
  symbol := c.symbols.Shared c.symbols
  pos _ _ := True
  env_iff h h' := by rw [h.1, h'.1]
  identity_iff h h' := by rw [h.1, h'.1]
  tag_iff := SymbolTable.Shared.tag_iff
  name_eq := SymbolTable.Shared.name
  pos_self _ := trivial

/-- Types, sinks and the handles to them have no say in what a context binds. -/
theorem Context.Like.relabel {c : Context} (h : c.Like L c) {types : TypeRegistry} {sinks : Sinks}
    {diagnostics : Diagnostics} {out : SinkRef} :
    { c with types, sinks, diagnostics, out }.Like L { c with types, sinks, diagnostics, out } :=
  ⟨h.heap, h.identity, h.symbol, rfl, rfl, rfl⟩

/-- Whether all handles that a context binds are its own. -/
structure Context.Sound (c : Context) : Prop where
  like : c.Like (.self c) c
  root : 0 < c.heap.frames.size

theorem Context.Sound.link_root {c : Context} (hc : c.Sound) : (Links.self c).env .root .root :=
  ⟨rfl, hc.root⟩

theorem Counted.all {r : Nat → Nat → Prop} {n m : Nat} (h : Counted r n n m m)
    (hold : ∀ i < n, r i i) : ∀ i < m, r i i := by
  obtain ⟨k, rfl, -, hk⟩ := h
  intro i hi
  by_cases hin : i < n
  · exact hold i hin
  · have hnew := hk (i - n) (by omega)
    rwa [show n + (i - n) = i by omega] at hnew

/-- Where a context has run in lockstep with itself, all its handles are linked to themselves, and
to nothing else. -/
theorem Context.Sound.of_grown {c d : Context} (hc : c.Sound) {M : Links} (hle : .self c ≤ M)
    (hd : d.Like M d) (hgrown : Context.Grown M c c d d) : d.Sound := by
  have henvs : ∀ e : Env, e.index < d.heap.frames.size → M.env e e := fun e he =>
    hgrown.frames.all (fun i hi => hle.env ⟨rfl, hi⟩) e.index he
  have hidentities : ∀ i < d.identities, M.identity i i :=
    hgrown.identities.all fun i hi => hle.identity ⟨rfl, hi⟩
  have hself : M ≤ .self d := by
    refine ⟨fun {e e'} he => ?_, fun {i i'} hi => ?_, hd.symbol.1, fun _ => trivial⟩
    · have hlt := (hd.heap.index_lt he).1
      exact ⟨(M.env_iff (henvs e hlt) he).1 rfl, hlt⟩
    · have hlt := (hd.identity hi).1
      exact ⟨(M.identity_iff (hidentities i hlt) hi).1 rfl, hlt⟩
  have hback : .self d ≤ M := by
    refine ⟨?_, ?_, hd.symbol.2, fun {p p'} _ => ?_⟩
    · rintro e _ ⟨rfl, he⟩
      exact henvs e he
    · rintro i _ ⟨rfl, hi⟩
      exact hidentities i hi
    · exact hle.pos trivial
  refine ⟨⟨?_, ?_, Iff.rfl, rfl, rfl, rfl⟩, ?_⟩
  · intro e e' he
    obtain ⟨frame, frame', hframe, hframe', hlike⟩ := hd.heap (hback.env he)
    exact ⟨frame, frame', hframe, hframe', hlike.mono hself⟩
  · rintro i _ ⟨rfl, hi⟩
    exact ⟨hi, hi⟩
  · obtain ⟨k, hsize, -, -⟩ := hgrown.frames
    have hroot := hc.root
    omega

open Eval

/-- **What runs in lockstep with itself leads from sound contexts to sound contexts.** -/
theorem sound_after {α : Type} {c : Context} (hc : c.Sound) {Q : Links → α → α → Prop}
    {x : Eval α} (h : Lockstep (.self c) Q x x) : (x.after c).Sound := by
  obtain ⟨M, hle, hd, hgrown⟩ := h.exists_after hc.like
  exact hc.of_grown hle hd hgrown

/-- What evaluation leaves as it is in a context: all that is there stays. -/
structure Context.Later (c d : Context) : Prop where
  symbols : c.symbols.Extends d.symbols
  identities : c.identities ≤ d.identities
  types : d.types = c.types
  diagnostics : d.diagnostics = c.diagnostics
  out : d.out = c.out

theorem later_after {α : Type} {c : Context} (hc : c.Sound) {Q : Links → α → α → Prop}
    {x : Eval α} (h : Lockstep (.self c) Q x x) : c.Later (x.after c) := by
  obtain ⟨M, hle, hd, hgrown⟩ := h.exists_after hc.like
  refine ⟨?_, ?_, hgrown.types, hgrown.diagnostics, hgrown.out⟩
  · intro name s hs
    have hname := (SymbolTable.get?_eq_some_iff.1 hs).2
    rw [← hname] at hs ⊢
    exact (hd.symbol.1 (hle.symbol (SymbolTable.shared_self hs))).right
  · obtain ⟨k, hk, -, -⟩ := hgrown.identities
    exact hk ▸ Nat.le_add_right _ _

/-! ## Requests -/

/-- Whether a request gives a context only what is its own: environments that lead to its frames,
symbols of its table, and clean values with its handles. -/
def Request.Held (c : Context) : Request → Prop
  | form _ f env => c.symbols.Owns f.symbols ∧ env.index < c.heap.frames.size
  | args _ fs env => c.symbols.Owns (Form.itemSymbols fs) ∧ env.index < c.heap.frames.size
  | call _ fn values => fn.fn.Like (.self c) fn.fn ∧ fn.env.index < c.heap.frames.size ∧
    Value.ItemsLike (.self c) values values
  | text _ _ _ env => env.index < c.heap.frames.size
  | load _ _ _ env => env.index < c.heap.frames.size
  | frame parent => ∀ env ∈ parent, env.index < c.heap.frames.size
  | define env symbol value => env.index < c.heap.frames.size ∧
    c.symbols.get? symbol.name = some symbol ∧ value.Like (.self c) value
  | _ => True

theorem Request.Held.run {c : Context} (hc : c.Sound) {request : Request} (h : request.Held c) :
    (request.run c).Sound := by
  cases request with
  | form bound f env =>
    obtain ⟨howns, henv⟩ := h
    have hform : f.Like (Links.self c).symbol (Links.self c).pos f :=
      f.like_self (fun _ => trivial) fun s hs => SymbolTable.shared_self (howns s hs)
    exact sound_after hc (parallel_lockstep.eval bound hform ⟨rfl, henv⟩)
  | args bound fs env =>
    obtain ⟨howns, henv⟩ := h
    have hforms : List.Forall₂ (Form.Like (Links.self c).symbol (Links.self c).pos) fs fs :=
      Form.likes_self (fun _ => trivial) fs fun s hs => SymbolTable.shared_self (howns s hs)
    exact sound_after hc (parallel_lockstep.evalArgs (parallel_lockstep.eval bound) hforms
      ⟨rfl, henv⟩)
  | call bound fn values =>
    obtain ⟨hfn, henv, hvalues⟩ := h
    have hlink : (Links.self c).env fn.env fn.env := ⟨rfl, henv⟩
    exact sound_after hc (parallel_lockstep.applyClosure (parallel_lockstep.eval bound)
      (.leaf (.fn hfn hlink)) hfn hlink hvalues)
  | text bound pos source env =>
    exact sound_after hc (Lockstep.evalChars bound pos source.toList ⟨rfl, h⟩)
  | load bound read name env => exact sound_after hc (Lockstep.load bound read name ⟨rfl, h⟩)
  | frame parent =>
    have hparent : Option.Rel (Links.self c).env parent parent := by
      cases parent with
      | none => exact .none
      | some env => exact .some ⟨rfl, h env rfl⟩
    exact sound_after hc (Lockstep.alloc hparent)
  | define env symbol value =>
    obtain ⟨henv, hsymbol, hvalue⟩ := h
    exact sound_after hc
      (parallel_lockstep.define ⟨rfl, henv⟩ (SymbolTable.shared_self hsymbol) hvalue)
  | intern name => exact sound_after hc (Lockstep.intern _ name)
  | fresh => exact sound_after hc parallel_lockstep.fresh
  | register name =>
    obtain ⟨types, hrun⟩ := exists_types_run_register name c
    rw [hrun]
    exact ⟨hc.like.relabel, hc.root⟩
  | configure sinks diagnostics out => exact ⟨hc.like.relabel, hc.root⟩

namespace Context

/-- Binding a core primitive is interning its name, and defining it with a new identity. -/
theorem Sound.install {c : Context} (hc : c.Sound) (entry : String × Nat × Option Nat × PrimOp) :
    (c.install entry).Sound := by
  obtain ⟨name, min, max, op⟩ := entry
  have hinstall : c.install (name, min, max, op) = (do
      let symbol ← Eval.intern name
      let identity ← Eval.fresh
      Eval.define .root symbol (.prim ⟨identity, name, min, max, op⟩) : Eval Unit).after c := rfl
  rw [hinstall]
  refine sound_after hc (Q := fun _ _ _ => True) ?_
  refine parallel_lockstep.bind (Lockstep.intern _ name) fun M hM s s' hs => ?_
  refine parallel_lockstep.bind parallel_lockstep.fresh fun N hN i i' hi => ?_
  exact parallel_lockstep.define (hN.env (hM.env hc.link_root)) (hN.symbol hs)
    (.leaf (.prim hi name min max op))

theorem sound_new (settings : Settings) : (new settings).Sound := by
  refine new_induction settings ⟨⟨?_, ?_, Iff.rfl, rfl, rfl, rfl⟩, Nat.zero_lt_one⟩
    fun _ hc entry _ => hc.install entry
  · -- The only frame is empty and has no parent.
    rintro ⟨index⟩ _ ⟨rfl, hlt⟩
    obtain rfl : index = 0 := Nat.lt_one_iff.1 hlt
    refine ⟨.empty none, .empty none, rfl, rfl, .none, ?_, ?_⟩
    · intro symbol slot hslot
      rw [Frame.get?_empty] at hslot
      cases hslot
    · intro symbol slot hslot
      rw [Frame.get?_empty] at hslot
      cases hslot
  · rintro i _ ⟨rfl, hi⟩
    exact ⟨hi, hi⟩

/-- **All contexts that requests lead to are sound**, if these give a context only its own. -/
theorem sound_of_reachable {c : Context} (h : c.Reachable Request.Held) : c.Sound := by
  induction h with
  | new settings => exact sound_new settings
  | next _ request hlegal ih => exact Request.Held.run ih hlegal

end Context

end SplatLisp
