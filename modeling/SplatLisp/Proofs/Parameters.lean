import SplatLisp.Eval.Primitives

/-!
# Parameter lists

Which forms list parameters, and which parameters they list: a form in round brackets does if its
items are identifiers, but for the last one, which may be a splat of an identifier. The identifiers
are the parameters, in order, and the splatted one is the rest parameter
(`Params.ofForm_eq_ok_iff`).
-/

namespace SplatLisp

/-- The identifier that a form is a splat of, if it is one. -/
def Form.splatId? : Form → Option Symbol
  | splat inner _ => inner.id?
  | _ => none

theorem Form.id?_eq_some_iff {form : Form} {s : Symbol} :
    form.id? = some s ↔ ∃ pos, form = .atom (.id s) pos := by
  constructor
  · intro h
    cases form with
    | atom atom pos =>
      cases atom with
      | id symbol =>
        cases h
        exact ⟨pos, rfl⟩
      | _ => cases h
    | _ => cases h
  · rintro ⟨pos, rfl⟩
    rfl

theorem Form.splatId?_eq_some_iff {form : Form} {s : Symbol} :
    form.splatId? = some s ↔ ∃ pos pos', form = .splat (.atom (.id s) pos) pos' := by
  constructor
  · intro h
    cases form with
    | splat inner pos' =>
      obtain ⟨pos, rfl⟩ := id?_eq_some_iff.1 h
      exact ⟨pos, pos', rfl⟩
    | _ => cases h
  · rintro ⟨pos, pos', rfl⟩
    rfl

namespace Params

/-- Whether items list parameters: identifiers in order, and behind them a splat of the rest
parameter, if there is one. -/
def ListedBy (params : Params) (items : List Form) : Prop :=
  ∃ ids last, items = ids ++ last ∧ ids.map Form.id? = params.params.map some ∧
    last.map Form.splatId? = params.rest.toList.map some

theorem listedBy_nil {params : Params} : params.ListedBy [] ↔ params = ⟨[], none⟩ := by
  constructor
  · rintro ⟨ids, last, hitems, hids, hlast⟩
    obtain ⟨rfl, rfl⟩ := List.append_eq_nil_iff.1 hitems.symm
    obtain ⟨params, rest⟩ := params
    cases rest with
    | none => simpa using hids
    | some r => cases hlast
  · rintro rfl
    exact ⟨[], [], rfl, rfl, rfl⟩

theorem listedBy_id_cons {params : Params} {s : Symbol} {pos : Pos} {items : List Form} :
    params.ListedBy (.atom (.id s) pos :: items) ↔
      ∃ more : Params, params = ⟨s :: more.params, more.rest⟩ ∧ more.ListedBy items := by
  constructor
  · rintro ⟨ids, last, hitems, hids, hlast⟩
    obtain ⟨params, rest⟩ := params
    cases ids with
    | nil =>
      -- No identifier is a splat.
      obtain rfl : _ = last := hitems
      cases rest <;> cases hlast
    | cons id ids =>
      obtain ⟨rfl, rfl⟩ := List.cons.inj hitems
      cases params with
      | nil => cases hids
      | cons t params =>
        obtain ⟨ht, hmore⟩ := List.cons.inj hids
        cases ht
        exact ⟨⟨params, rest⟩, rfl, ids, last, rfl, hmore, hlast⟩
  · rintro ⟨more, rfl, ids, last, rfl, hids, hlast⟩
    exact ⟨.atom (.id s) pos :: ids, last, rfl, congrArg (some s :: ·) hids, hlast⟩

/-- Anything but an identifier is the last item and the splat of one. -/
theorem listedBy_cons_of_id?_eq_none {params : Params} {item : Form} {items : List Form}
    (hitem : item.id? = none) : params.ListedBy (item :: items) ↔
      items = [] ∧ ∃ s, item.splatId? = some s ∧ params = ⟨[], some s⟩ := by
  constructor
  · rintro ⟨ids, last, hitems, hids, hlast⟩
    obtain ⟨params, rest⟩ := params
    cases ids with
    | nil =>
      obtain rfl : _ = last := hitems
      cases rest with
      | none => cases hlast
      | some s =>
        obtain ⟨hs, hnil⟩ := List.cons.inj hlast
        obtain rfl : params = [] := List.map_eq_nil_iff.1 hids.symm
        exact ⟨List.map_eq_nil_iff.1 hnil, s, hs, rfl⟩
    | cons id ids =>
      obtain ⟨rfl, -⟩ := List.cons.inj hitems
      cases params with
      | nil => cases hids
      | cons t params =>
        rw [List.map_cons, hitem] at hids
        cases hids
  · rintro ⟨rfl, s, hs, rfl⟩
    exact ⟨[], [item], rfl, rfl, congrArg ([·]) hs⟩

theorem ofItemsFrom_eq_ok_iff {before : List Symbol} {items : List Form} {params : Params} :
    ofItemsFrom before items = .ok params ↔
      ∃ more : Params, more.ListedBy items ∧
        params = ⟨before.reverse ++ more.params, more.rest⟩ := by
  induction items generalizing before with
  | nil => simp [ofItemsFrom, listedBy_nil, eq_comm]
  | cons item items ih =>
    cases hitem : item.id? with
    | some s =>
      obtain ⟨pos, rfl⟩ := Form.id?_eq_some_iff.1 hitem
      rw [ofItemsFrom, ih]
      simp only [listedBy_id_cons, List.reverse_cons, List.append_assoc, List.singleton_append]
      constructor
      · rintro ⟨more, hmore, rfl⟩
        exact ⟨_, ⟨more, rfl, hmore⟩, rfl⟩
      · rintro ⟨_, ⟨more, rfl, hmore⟩, rfl⟩
        exact ⟨more, hmore, rfl⟩
    | none =>
      simp only [listedBy_cons_of_id?_eq_none hitem]
      cases item with
      | atom atom pos =>
        cases atom with
        | id s => cases hitem
        | _ => simp [ofItemsFrom, Form.splatId?]
      | group bracket parts pos => simp [ofItemsFrom, Form.splatId?]
      | splat inner pos =>
        unfold ofItemsFrom
        cases items with
        | cons next items => simp
        | nil => cases hinner : inner.id? <;> simp [Form.splatId?, hinner, eq_comm]

/-- **A form lists parameters** if it is in round brackets and its items are identifiers, the last
of which may be splatted. -/
theorem ofForm_eq_ok_iff {form : Form} {params : Params} :
    ofForm form = .ok params ↔ ∃ items pos, form = .group .round items pos ∧
      params.ListedBy items := by
  cases form with
  | group bracket items pos =>
    cases bracket with
    | round => simp [ofForm, ofItemsFrom_eq_ok_iff]
    | square => simp [ofForm]
  | _ => simp [ofForm]

end Params

end SplatLisp
