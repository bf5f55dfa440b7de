import SplatLisp.Value

/-!
# Types over the life of a registry

A registry has two indexes, by id and by name, and besides them every kind of value knows its id by
itself. They agree at all times: whatever is asked of a registry, in whatever order, its types are
at the places that are their ids, those found by name are the same ones, and the built-in kinds keep
the first places and their names (`TypeRegistry.Consistent`). So a value has one type, whichever way
it is found, and keeps it (`TypeRegistry.run_consistent`).

Only a registration changes anything, and it files one type at the end of both indexes
(`register_eq_ok_iff`); that keeps a registry consistent since the name was free.
-/

namespace SplatLisp

/-- What can be asked of a registry. -/
inductive TypeOp where
  | register (name : String)
  | get (name : String)
  | ofId (id : TypeId)
  | ofKind (kind : Kind)
  | size

inductive TypeAnswer where
  | registered (outcome : Except RegisterError TypeInfo)
  | found (type : Option TypeInfo)
  | type (type : TypeInfo)
  | size (n : Nat)

namespace TypeRegistry

variable {registry registry' : TypeRegistry} {name : String} {type : TypeInfo}

def perform (registry : TypeRegistry) : TypeOp → TypeAnswer × TypeRegistry
  | .register name =>
    match registry.register name with
    | .ok (type, registry) => (.registered (.ok type), registry)
    | .error error => (.registered (.error error), registry)
  | .get name => (.found (registry.get? name), registry)
  | .ofId id => (.found (registry.ofId? id), registry)
  | .ofKind kind => (.type (registry.ofKind kind), registry)
  | .size => (.size registry.size, registry)

/-- Performs operations in order and collects the answers. -/
def run (registry : TypeRegistry) : List TypeOp → List TypeAnswer × TypeRegistry
  | [] => ([], registry)
  | op :: ops =>
    let (answer, registry) := registry.perform op
    let (answers, registry) := registry.run ops
    (answer :: answers, registry)

/-! ## Registrations -/

/-- A free name is registered, with the next id, at the end of both indexes, as long as there are
ids. -/
theorem register_eq_ok_iff :
    registry.register name = .ok (type, registry') ↔
      registry.get? name = none ∧ registry.size < limit ∧
        type = ⟨⟨registry.size⟩, name, true⟩ ∧ registry' = registry.add type := by
  unfold register
  cases hname : registry.get? name with
  | some old => simp
  | none =>
    dsimp only
    split
    · next hsize =>
      rw [Except.ok.injEq, Prod.mk.injEq]
      constructor
      · rintro ⟨rfl, rfl⟩
        exact ⟨rfl, hsize, rfl, rfl⟩
      · rintro ⟨-, -, rfl, rfl⟩
        exact ⟨rfl, rfl⟩
    · next hsize => simp [hsize]

/-- A name that is taken is refused. -/
theorem perform_register_of_some (h : registry.get? name = some type) :
    registry.perform (.register name) = (.registered (.error (.duplicate name)), registry) := by
  simp only [perform, register, h]

theorem perform_register_of_lt (h : registry.get? name = none) (hsize : registry.size < limit) :
    registry.perform (.register name) =
      (.registered (.ok ⟨⟨registry.size⟩, name, true⟩),
        registry.add ⟨⟨registry.size⟩, name, true⟩) := by
  simp only [perform, register, h, if_pos hsize]

/-- Where no id is left, new names are refused as well. -/
theorem perform_register_of_full (h : registry.get? name = none) (hsize : limit ≤ registry.size) :
    registry.perform (.register name) = (.registered (.error .full), registry) := by
  simp only [perform, register, h, if_neg (Nat.not_lt.2 hsize)]

/-- An operation leaves the registry as it was, or registers one more type under a free name. -/
theorem perform_cases (registry : TypeRegistry) (op : TypeOp) :
    ((registry.perform op).2 = registry ∧
        ∀ type, (registry.perform op).1 ≠ .registered (.ok type)) ∨
      ∃ name, registry.get? name = none ∧
        registry.perform op = (.registered (.ok ⟨⟨registry.size⟩, name, true⟩),
          registry.add ⟨⟨registry.size⟩, name, true⟩) := by
  cases op with
  | register name =>
    cases hname : registry.get? name with
    | some type =>
      rw [perform_register_of_some hname]
      exact .inl ⟨rfl, nofun⟩
    | none =>
      rcases Nat.lt_or_ge registry.size limit with hsize | hsize
      · exact .inr ⟨name, hname, perform_register_of_lt hname hsize⟩
      · rw [perform_register_of_full hname hsize]
        exact .inl ⟨rfl, nofun⟩
  | _ => exact .inl ⟨rfl, nofun⟩

/-! ## Consistent registries -/

/-- Whether the indexes of a registry are in step: each type is at the place that is its id, and the
types found by name are the same ones. -/
structure Indexed (registry : TypeRegistry) : Prop where
  id : ∀ ⦃i : Nat⦄ ⦃type : TypeInfo⦄, registry.types[i]? = some type → type.id = ⟨i⟩
  named : ∀ {name : String} {type : TypeInfo},
    registry.get? name = some type ↔ type ∈ registry.types ∧ type.name = name

/-- Whether the indexes of a registry are in step and the built-in kinds have their ids. -/
structure Consistent (registry : TypeRegistry) : Prop extends Indexed registry where
  kind : ∀ kind, registry.ofId? kind.id = some (.ofKind kind)

theorem mem_add {new : TypeInfo} :
    type ∈ (registry.add new).types ↔ type ∈ registry.types ∨ type = new :=
  Array.mem_push

theorem indexed_empty : empty.Indexed where
  id := nofun
  named := by simp [get?, empty]

/-- One more type with the next id, under a free name, keeps the indexes in step. -/
theorem Indexed.add {new : TypeInfo} (h : registry.Indexed) (hfree : registry.get? new.name = none)
    (hid : new.id = ⟨registry.size⟩) : (registry.add new).Indexed where
  id := by
    intro i type htype
    change (registry.types.push new)[i]? = some type at htype
    rw [Array.getElem?_push] at htype
    split at htype
    · next hi =>
      cases htype
      rw [hid, hi]
      rfl
    · exact h.id htype
  named := by
    intro name type
    rw [get?_add, mem_add]
    by_cases hname : new.name = name
    · rw [if_pos hname]
      constructor
      · rintro ⟨⟩
        exact ⟨.inr rfl, hname⟩
      · rintro ⟨hold | rfl, hname'⟩
        · -- An old type of this name would have been found.
          have hfound := h.named.2 ⟨hold, hname'⟩
          rw [← hname, hfree] at hfound
          cases hfound
        · rfl
    · rw [if_neg hname, h.named]
      constructor
      · rintro ⟨hold, hname'⟩
        exact ⟨.inl hold, hname'⟩
      · rintro ⟨hold | rfl, hname'⟩
        · exact ⟨hold, hname'⟩
        · exact absurd hname' hname

/-- Types with the next ids and different free names can be filed one after the other. -/
theorem Indexed.foldl_add {types : List TypeInfo} (h : registry.Indexed)
    (hnames : (types.map TypeInfo.name).Nodup)
    (hfree : ∀ type ∈ types, registry.get? type.name = none)
    (hids : ∀ (i : Nat) (type : TypeInfo), types[i]? = some type → type.id = ⟨registry.size + i⟩) :
    (types.foldl TypeRegistry.add registry).Indexed := by
  induction types generalizing registry with
  | nil => exact h
  | cons type types ih =>
    obtain ⟨hnew, hnames⟩ := List.nodup_cons.1 hnames
    refine ih (h.add (hfree type List.mem_cons_self) (hids 0 type rfl)) hnames ?_ ?_
    · intro other hother
      have hne : type.name ≠ other.name :=
        fun heq => hnew (heq ▸ List.mem_map_of_mem hother)
      rw [get?_add, if_neg hne]
      exact hfree other (List.mem_cons_of_mem _ hother)
    · intro i other hother
      rw [hids (i + 1) other hother, size_add, Nat.add_right_comm, Nat.add_assoc]

theorem consistent_builtins : builtins.Consistent where
  toIndexed := by
    refine indexed_empty.foldl_add (by decide) (fun type _ => by simp [get?, empty]) ?_
    intro i type htype
    rw [List.getElem?_map, Option.map_eq_some_iff] at htype
    obtain ⟨kind, hkind, rfl⟩ := htype
    rw [show empty.size + i = i from Nat.zero_add i]
    exact Kind.ofId?_eq_some_iff.1 (show Kind.ofId? ⟨i⟩ = some kind from hkind)
  kind := ofId?_builtins

namespace Consistent

theorem perform (h : registry.Consistent) (op : TypeOp) : (registry.perform op).2.Consistent := by
  rcases registry.perform_cases op with ⟨hsame, -⟩ | ⟨name, hfree, heq⟩
  · rw [hsame]
    exact h
  · rw [heq]
    refine ⟨h.toIndexed.add hfree rfl, fun kind => ?_⟩
    have hold := h.kind kind
    have hlt : kind.id.index < registry.size := (Array.getElem?_eq_some_iff.1 hold).1
    rw [ofId?_add, if_neg (Nat.ne_of_lt hlt), hold]

theorem run (h : registry.Consistent) (ops : List TypeOp) : (registry.run ops).2.Consistent := by
  induction ops generalizing registry with
  | nil => exact h
  | cons op ops ih => exact ih (h.perform op)

theorem ofId?_iff (h : registry.Consistent) {id : TypeId} :
    registry.ofId? id = some type ↔ type ∈ registry.types ∧ type.id = id := by
  constructor
  · intro hid
    exact ⟨Array.mem_of_getElem? hid, h.id hid⟩
  · rintro ⟨hmem, rfl⟩
    obtain ⟨i, hi⟩ := Array.mem_iff_getElem?.1 hmem
    rw [ofId?, h.id hi, hi]

theorem eq_of_id {other : TypeInfo} (h : registry.Consistent) (htype : type ∈ registry.types)
    (hother : other ∈ registry.types) (hid : type.id = other.id) : type = other :=
  Option.some.inj ((h.ofId?_iff.2 ⟨htype, hid⟩).symm.trans (h.ofId?_iff.2 ⟨hother, rfl⟩))

theorem eq_of_name {other : TypeInfo} (h : registry.Consistent) (htype : type ∈ registry.types)
    (hother : other ∈ registry.types) (hname : type.name = other.name) : type = other :=
  Option.some.inj ((h.named.2 ⟨htype, hname⟩).symm.trans (h.named.2 ⟨hother, rfl⟩))

theorem ofKind_eq (h : registry.Consistent) (kind : Kind) :
    registry.ofKind kind = .ofKind kind := by
  rw [ofKind, h.kind kind, Option.getD_some]

theorem get?_kind (h : registry.Consistent) (kind : Kind) :
    registry.get? kind.name = some (.ofKind kind) :=
  h.named.2 ⟨(h.ofId?_iff.1 (h.kind kind)).1, rfl⟩

end Consistent

/-! ## Over a run -/

/-- No type is ever lost or changed. -/
theorem mem_perform (h : type ∈ registry.types) (op : TypeOp) :
    type ∈ (registry.perform op).2.types := by
  rcases registry.perform_cases op with ⟨hsame, -⟩ | ⟨name, -, heq⟩
  · rwa [hsame]
  · rw [heq]
    exact mem_add.2 (.inl h)

theorem mem_run (h : type ∈ registry.types) (ops : List TypeOp) :
    type ∈ (registry.run ops).2.types := by
  induction ops generalizing registry with
  | nil => exact h
  | cons op ops ih => exact ih (mem_perform h op)

theorem mem_of_perform_eq (registry : TypeRegistry) (op : TypeOp)
    (h : (registry.perform op).1 = .registered (.ok type)) :
    type ∈ (registry.perform op).2.types := by
  rcases registry.perform_cases op with ⟨-, hother⟩ | ⟨name, -, heq⟩
  · exact absurd h (hother type)
  · rw [heq] at h ⊢
    cases h
    exact mem_add.2 (.inr rfl)

/-- What has been registered in a run is in the registry that the run leaves. -/
theorem mem_of_registered {ops : List TypeOp}
    (h : .registered (.ok type) ∈ (registry.run ops).1) : type ∈ (registry.run ops).2.types := by
  induction ops generalizing registry with
  | nil => cases h
  | cons op ops ih =>
    rcases List.mem_cons.1 h with hanswer | hlater
    · exact mem_run (mem_of_perform_eq registry op hanswer.symm) ops
    · exact ih hlater

/-- A type that a value belongs to is registered, under the id that the value knows. -/
theorem Consistent.typeOf (h : registry.Consistent) {value : Value}
    (hhost : ∀ host, value = .host host → host.type ∈ registry.types) :
    registry.ofId? (registry.typeOf value).id = some (registry.typeOf value) ∧
      (registry.typeOf value).id = value.typeId := by
  have hkind : ∀ kind, registry.ofId? (registry.ofKind kind).id = some (registry.ofKind kind) ∧
      (registry.ofKind kind).id = kind.id := by
    intro kind
    rw [h.ofKind_eq kind]
    exact ⟨h.kind kind, rfl⟩
  cases value with
  | host host => exact ⟨h.ofId?_iff.2 ⟨hhost host rfl, rfl⟩, rfl⟩
  | _ => exact hkind _

/-! ## What a registry answers -/

/-- Both indexes of a registry are exact. -/
structure Exact (registry : TypeRegistry) : Prop where
  /-- The ids in use are those below the size. -/
  ids : ∀ i, (∃ type ∈ registry.types, type.id = ⟨i⟩) ↔ i < registry.size
  ofId : ∀ id type, registry.ofId? id = some type ↔
    (type ∈ registry.types ∧ type.id = id) ∧ ∀ other ∈ registry.types, other.id = id → other = type
  named : ∀ name type, registry.get? name = some type ↔
    (type ∈ registry.types ∧ type.name = name) ∧
      ∀ other ∈ registry.types, other.name = name → other = type
  /-- The first places belong to the built-in kinds. -/
  first : registry.types.toList.take TypeId.firstHost = Kind.all.map .ofKind
  kind : ∀ kind, registry.ofKind kind = .ofKind kind ∧
    registry.ofId? kind.id = some (.ofKind kind) ∧ registry.get? kind.name = some (.ofKind kind)

/-- What operations do to the types of a registry. -/
structure Grows (registry : TypeRegistry) : Prop where
  /-- A name is registered exactly if no type has it and there is an id for it, with the next id and
  behind all others. -/
  registered : ∀ name type registry', registry.register name = .ok (type, registry') ↔
    (∀ other ∈ registry.types, other.name ≠ name) ∧ registry.size < limit ∧
      type = ⟨⟨registry.size⟩, name, true⟩ ∧ registry' = registry.add type
  refused : ∀ name, (∃ other ∈ registry.types, other.name = name) →
    registry.perform (.register name) = (.registered (.error (.duplicate name)), registry)
  full : ∀ name, (∀ other ∈ registry.types, other.name ≠ name) → limit ≤ registry.size →
    registry.perform (.register name) = (.registered (.error .full), registry)
  reads : ∀ op, (∀ name, op ≠ .register name) → (registry.perform op).2 = registry
  /-- What is found is found for good. -/
  keeps : ∀ ops,
    (∀ id type, registry.ofId? id = some type → (registry.run ops).2.ofId? id = some type) ∧
    ∀ name type, registry.get? name = some type → (registry.run ops).2.get? name = some type

namespace Consistent

theorem get?_eq_none_iff (h : registry.Consistent) :
    registry.get? name = none ↔ ∀ other ∈ registry.types, other.name ≠ name := by
  rw [Option.eq_none_iff_forall_ne_some]
  exact forall_congr' fun other => by rw [ne_eq, h.named, not_and]

theorem exact (h : registry.Consistent) : registry.Exact where
  ids := by
    intro i
    constructor
    · rintro ⟨type, hmem, hid⟩
      have hfound := h.ofId?_iff.2 ⟨hmem, hid⟩
      exact (Array.getElem?_eq_some_iff.1 hfound).1
    · intro hi
      have htype : registry.types[i]? = some registry.types[i] := Array.getElem?_eq_getElem hi
      exact ⟨registry.types[i], Array.getElem_mem hi, h.id htype⟩
  ofId := by
    intro id type
    rw [h.ofId?_iff]
    exact ⟨fun hid => ⟨hid, fun other hother heq => h.eq_of_id hother hid.1 (heq.trans hid.2.symm)⟩,
      And.left⟩
  named := by
    intro name type
    rw [h.named]
    exact ⟨fun hname => ⟨hname, fun other hother heq =>
      h.eq_of_name hother hname.1 (heq.trans hname.2.symm)⟩, And.left⟩
  first := by
    refine List.ext_getElem? fun i => ?_
    rw [List.getElem?_take, List.getElem?_map, Array.getElem?_toList]
    split
    · next hi =>
      obtain ⟨kind, hkind⟩ : ∃ kind, Kind.all[i]? = some kind :=
        ⟨_, List.getElem?_eq_getElem (show i < Kind.all.length from hi)⟩
      have hid := Kind.ofId?_eq_some_iff.1 (show Kind.ofId? ⟨i⟩ = some kind from hkind)
      have hfirst := h.kind kind
      rw [hid] at hfirst
      rw [hkind, Option.map_some]
      exact hfirst
    · next hi =>
      rw [List.getElem?_eq_none (Nat.le_of_not_lt hi), Option.map_none]
  kind kind := ⟨h.ofKind_eq kind, h.kind kind, h.get?_kind kind⟩

theorem grows (h : registry.Consistent) : registry.Grows where
  registered := by
    intro name type registry'
    rw [register_eq_ok_iff, h.get?_eq_none_iff]
  refused := by
    rintro name ⟨other, hmem, hname⟩
    exact perform_register_of_some (h.named.2 ⟨hmem, hname⟩)
  full _ hfree hsize := perform_register_of_full (h.get?_eq_none_iff.2 hfree) hsize
  reads := by
    intro op hop
    cases op with
    | register name => exact absurd rfl (hop name)
    | _ => rfl
  keeps := by
    intro ops
    have hlater := h.run ops
    refine ⟨fun id type hid => ?_, fun name type hname => ?_⟩
    · obtain ⟨hmem, hid⟩ := h.ofId?_iff.1 hid
      exact hlater.ofId?_iff.2 ⟨mem_run hmem ops, hid⟩
    · obtain ⟨hmem, hname⟩ := h.named.1 hname
      exact hlater.named.2 ⟨mem_run hmem ops, hname⟩

end Consistent

/-- **The registry stays consistent over any run.** Whatever has been asked of a registry that
started with the built-in kinds, its indexes are exact, and it grows by new names alone, as long as
there are ids, which never changes a type. A value, if it belongs to a type that has been
registered, has from then on the type that its id stands for, which is the id that the value
knows. -/
theorem run_consistent (ops : List TypeOp) :
    (builtins.run ops).2.Exact ∧ (builtins.run ops).2.Grows ∧
      ∀ value : Value,
        (∀ host, value = .host host → .registered (.ok host.type) ∈ (builtins.run ops).1) →
        ∀ more later, ((builtins.run ops).2.run more).2 = later →
          later.ofId? (later.typeOf value).id = some (later.typeOf value) ∧
            (later.typeOf value).id = value.typeId ∧
            later.typeOf value = (builtins.run ops).2.typeOf value := by
  have h := consistent_builtins.run ops
  refine ⟨h.exact, h.grows, ?_⟩
  rintro value hhost more later rfl
  have hlater := h.run more
  have hmem : ∀ host, value = .host host → host.type ∈ (builtins.run ops).2.types :=
    fun host heq => mem_of_registered (hhost host heq)
  obtain ⟨hfound, hid⟩ := hlater.typeOf fun host heq => mem_run (hmem host heq) more
  refine ⟨hfound, hid, ?_⟩
  -- The type at that time has the same id, and is still there.
  obtain ⟨hfound', hid'⟩ := h.typeOf hmem
  have hsame := (h.grows.keeps more).1 _ _ hfound'
  rw [hid', ← hid, hfound] at hsame
  exact Option.some.inj hsame

end TypeRegistry

end SplatLisp
