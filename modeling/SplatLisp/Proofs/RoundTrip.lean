import SplatLisp.Form.Text
import SplatLisp.Proofs.Reading

/-!
# Forms are read back from their texts

`readAll_text`: the texts of forms, with a space between them, are read as the same forms at other
places exactly if the forms are canonical, and every form that is read is canonical.

A form is canonical (`Tree.Canonical`) if its identifiers are spelled by runs. The splat mark makes
the difference: an identifier that ends in two dots is read as a splat, so it can only stand in a
splat, where its own dots come before those of the mark; and a splat in a splat would be read as
the splat of an identifier, or leave dots over behind a group.

What is read is canonical since derivations give nothing else (`Derives.canonical`). A canonical
form is read back since its text splits into lexemes that derive its tree, whatever comes behind it
after a delimiter (`Spells`, `Form.spells`). Trees leave out the tags of symbols, but these are
those of the table (`Form.unplaced_eq`).
-/

namespace SplatLisp

/-! ## Canonical trees -/

/-- Characters that make up one run. -/
structure IsRun (cs : List Char) : Prop where
  ne_nil : cs ≠ []
  not_delimits : ∀ d ∈ cs, ¬ Delimits d

/-- A name that a run spells. -/
structure Spelled (name : String) : Prop extends IsRun name.toList, IsName name.toList

/-- The trees that texts read as. -/
inductive Tree.Canonical : Tree → Prop
  | nil : Canonical .nil
  | bool (b : Bool) : Canonical (.bool b)
  | int (n : Int64) : Canonical (.int n)
  | id {name : String} (h : Spelled name) (hmark : ¬ splatMark <:+ name.toList) :
    Canonical (.id name)
  | group (bracket : Bracket) {items : List Tree} (h : ∀ t ∈ items, Canonical t) :
    Canonical (.group bracket items)
  | splat {inner : Tree} (hinner : ∀ t, inner ≠ .splat t) (h : Canonical inner) :
    Canonical (.splat inner)
  /-- In a splat, an identifier may end in two dots of its own. -/
  | splatId {name : String} (h : Spelled name) : Canonical (.splat (.id name))

/-! ## What is read is canonical -/

theorem Lexes.isRun {closed : Bool} {text cs : List Char} {ls : List Lexeme}
    (h : Lexes closed text ls) (hmem : .run cs ∈ ls) : IsRun cs := by
  induction h with
  | done => cases hmem
  | blank _ _ ih => exact ih hmem
  | comment _ _ ih => exact ih hmem
  | lastComment _ => cases hmem
  | opening bracket _ ih => exact ih (by simpa using hmem)
  | closing bracket _ ih => exact ih (by simpa using hmem)
  | mark _ ih => exact ih (by simpa using hmem)
  | run hrun _ _ _ ih =>
    rcases List.mem_cons.1 hmem with he | hmem
    · cases he
      exact ⟨List.cons_ne_nil _ _, hrun⟩
    · exact ih hmem

theorem Spelled.of_run {cs : List Char} (hrun : IsRun cs) (h : IsName cs) :
    Spelled (.ofList cs) := by
  rw [← String.toList_ofList (l := cs)] at hrun h
  exact ⟨hrun, h.not_literal, h.not_numeral⟩

theorem RunReads.canonical {cs : List Char} {t : Tree} (h : RunReads cs t) (hrun : IsRun cs) :
    t.Canonical := by
  cases h with
  | atom hmark hatomic =>
    cases hatomic with
    | nil => exact .nil
    | true => exact .bool true
    | false => exact .bool false
    | int n _ => exact .int n
    | id hname => exact .id (.of_run hrun hname) (by rwa [String.toList_ofList])
  | splat hne hatomic =>
    have htarget : IsRun _ := ⟨hne, fun d hd => hrun.not_delimits d (List.mem_append_left _ hd)⟩
    cases hatomic with
    | nil => exact .splat nofun .nil
    | true => exact .splat nofun (.bool true)
    | false => exact .splat nofun (.bool false)
    | int n _ => exact .splat nofun (.int n)
    | id hname => exact .splatId (.of_run htarget hname)

/-- **Derivations give canonical trees.** -/
theorem Derives.canonical {ls : List Lexeme} {ts : List Tree} (h : Derives ls ts)
    (hrun : ∀ cs, .run cs ∈ ls → IsRun cs) : ∀ t ∈ ts, t.Canonical := by
  induction h with
  | nil => exact fun t ht => by cases ht
  | run hreads _ ih =>
    rw [List.forall_mem_cons]
    exact ⟨hreads.canonical (hrun _ List.mem_cons_self),
      ih fun cs hcs => hrun cs (List.mem_cons_of_mem _ hcs)⟩
  | group bracket _ _ ihinner ih =>
    rw [List.forall_mem_cons]
    refine ⟨.group bracket (ihinner fun cs hcs => hrun cs ?_), ih fun cs hcs => hrun cs ?_⟩ <;>
      simp [hcs]
  | splatted bracket _ _ ihinner ih =>
    rw [List.forall_mem_cons]
    refine ⟨.splat nofun (.group bracket (ihinner fun cs hcs => hrun cs ?_)),
      ih fun cs hcs => hrun cs ?_⟩ <;> simp [hcs]

theorem Reads.canonical {text : List Char} {ts : List Tree} (h : Reads text ts) :
    ∀ t ∈ ts, t.Canonical := by
  obtain ⟨ls, hlex, hderives⟩ := h
  exact hderives.canonical fun cs hcs => hlex.isRun hcs

theorem Reader.canonical_of_read {reader reader' : Reader} {pos next : Pos} {form : Form}
    (h : reader.read pos = (.form form next, reader')) : form.tree.Canonical := by
  obtain ⟨ls, hderives, hfront⟩ := derives_of_read h
  obtain ⟨ms, hms⟩ := exists_lexes ⟨reader'.rest, next⟩
  have hlex := hfront ms hms
  refine hderives.canonical (fun cs hcs => hlex.isRun ?_) form.tree (List.mem_singleton_self _)
  exact List.mem_append_left ms hcs

/-! ## What is canonical is read back -/

/-- Whether the characters split into lexemes that derive the trees, whatever follows after a
delimiter. -/
def Spells (cs : List Char) (ts : List Tree) : Prop :=
  ∃ ls, Derives ls ts ∧ ∀ ⦃rest after⦄, (∀ d ∈ rest.head?, Delimits d) →
    Lexes false rest after → Lexes false (cs ++ rest) (ls ++ after)

theorem Spells.reads {cs : List Char} {ts : List Tree} (h : Spells cs ts) : Reads cs ts := by
  obtain ⟨ls, hderives, hlex⟩ := h
  have hall : Lexes false (cs ++ []) (ls ++ []) := hlex (fun d hd => by cases hd) .done
  rw [List.append_nil, List.append_nil] at hall
  exact ⟨ls, hall, hderives⟩

theorem Spells.nil : Spells [] [] := ⟨[], .nil, fun _ _ _ h => h⟩

/-- What is spelled ends at a delimiter. -/
theorem Spells.cons {cs ds : List Char} {t : Tree} {ts : List Tree} (hcs : Spells cs [t])
    (hds : Spells ds ts) (hend : ∀ d ∈ ds.head?, Delimits d) : Spells (cs ++ ds) (t :: ts) := by
  obtain ⟨ls, hls, hlex⟩ := hcs
  obtain ⟨ms, hms, hmore⟩ := hds
  refine ⟨ls ++ ms, hls.append hms, fun rest after hrest hafter => ?_⟩
  rw [List.append_assoc, List.append_assoc]
  refine hlex ?_ (hmore hrest hafter)
  cases ds with
  | nil => exact hrest
  | cons d ds => exact hend

theorem Spells.blank {c : Char} {cs : List Char} {ts : List Tree} (hc : isBlank c = true ∨ c = ',')
    (h : Spells cs ts) : Spells (c :: cs) ts := by
  obtain ⟨ls, hls, hlex⟩ := h
  exact ⟨ls, hls, fun rest after hrest hafter => .blank hc (hlex hrest hafter)⟩

theorem Spells.run {cs : List Char} {t : Tree} (hrun : IsRun cs) (h : RunReads cs t) :
    Spells cs [t] := by
  refine ⟨[.run cs], .run h .nil, fun rest after hrest hafter => ?_⟩
  cases cs with
  | nil => exact absurd rfl hrun.ne_nil
  | cons c cs => exact .run hrun.not_delimits hrest nofun hafter

theorem isRun_append_mark {cs : List Char} (h : IsRun cs) : IsRun (cs ++ splatMark) := by
  refine ⟨List.append_ne_nil_of_left_ne_nil h.ne_nil _, fun d hd => ?_⟩
  rcases List.mem_append.1 hd with hd | hd
  · exact h.not_delimits d hd
  · have hdot : d = '.' := by simpa [splatMark] using hd
    rw [hdot]
    exact not_delimits_dot

theorem Spells.splatRun {cs : List Char} {t : Tree} (hrun : IsRun cs) (h : Atomic cs t) :
    Spells (cs ++ splatMark) [.splat t] :=
  .run (isRun_append_mark hrun) (.splat hrun.ne_nil h)

/-- A closing bracket ends an item, and no mark starts at a delimiter. -/
theorem Spells.group {cs : List Char} {items : List Tree} (bracket : Bracket)
    (h : Spells cs items) :
    Spells (bracket.opening :: (cs ++ [bracket.closing])) [.group bracket items] ∧
      Spells (bracket.opening :: (cs ++ [bracket.closing]) ++ splatMark)
        [.splat (.group bracket items)] := by
  obtain ⟨ls, hls, hlex⟩ := h
  have hclosing : ∀ (rest : List Char), ∀ d ∈ (bracket.closing :: rest).head?, Delimits d := by
    intro rest d hd
    cases hd
    exact bracket.delimits_closing
  refine ⟨⟨_, .group bracket hls .nil, fun rest after hrest hafter => ?_⟩,
    ⟨_, .splatted bracket hls .nil, fun rest after hrest hafter => ?_⟩⟩
  · have hmark : ¬ splatMark <+: rest := by
      rintro ⟨more, rfl⟩
      exact not_delimits_dot (hrest '.' rfl)
    have hinner := hlex (hclosing rest) (.closing bracket (hafter.closed_of_not_mark hmark))
    have hall : Lexes false _ _ := .opening bracket hinner
    simpa using hall
  · have hinner := hlex (hclosing _) (.closing bracket (.mark hafter))
    have hall : Lexes false _ _ := .opening bracket hinner
    simpa [splatMark] using hall

/-! ## Texts of forms -/

theorem not_delimits_of_isDigit {d : Char} (h : d.isDigit = true) : ¬ Delimits d := by
  have hrange : 48 ≤ d.toNat ∧ d.toNat ≤ 57 := by
    simpa [Char.isDigit, UInt32.le_iff_toNat_le] using h
  rintro (hblank | hmem)
  · simp only [isBlank, blankRanges, List.any_cons, List.any_nil, Bool.or_eq_true,
      Bool.and_eq_true, decide_eq_true_eq, Bool.false_eq_true, or_false] at hblank
    omega
  · simp only [List.mem_cons, List.not_mem_nil, or_false] at hmem
    rcases hmem with rfl | rfl | rfl | rfl | rfl | rfl <;> cases h

theorem Numeral.of_mem {cs : List Char} {n : Int} (h : Numeral cs n) :
    ∀ d ∈ cs, d = '-' ∨ d.isDigit = true := by
  cases h with
  | positive _ hdigit => exact fun d hd => .inr (hdigit d hd)
  | negative _ hdigit =>
    intro d hd
    rcases List.mem_cons.1 hd with rfl | hd
    · exact .inl rfl
    · exact .inr (hdigit d hd)

theorem Numeral.isRun {cs : List Char} {n : Int} (h : Numeral cs n) : IsRun cs := by
  constructor
  · cases h with
    | positive hne _ => exact hne
    | negative _ _ => exact List.cons_ne_nil _ _
  · intro d hd
    rcases h.of_mem d hd with rfl | hdigit
    · decide
    · exact not_delimits_of_isDigit hdigit

theorem Numeral.not_mark {cs : List Char} {n : Int} (h : Numeral cs n) : ¬ splatMark <:+ cs := by
  intro hmark
  rcases h.of_mem '.' (hmark.subset List.mem_cons_self) with he | he
  · exact absurd he (by decide)
  · cases he

theorem numeral_ofInt (n : Int) : Numeral (Decimal.ofInt n) n :=
  numeral_iff.2 (Decimal.toInt?_ofInt n)

theorem isRun_singleton {c : Char} (h : ¬ Delimits c) : IsRun [c] := by
  refine ⟨List.cons_ne_nil _ _, fun d hd => ?_⟩
  rwa [List.mem_singleton.1 hd]

/-- The text of an atom is a run that stands for the atom. -/
theorem Atom.text_atomic (a : Atom) (h : ∀ s, a = .id s → Spelled s.name) :
    IsRun a.text.toList ∧ Atomic a.text.toList a.tree := by
  cases a with
  | nil => exact ⟨isRun_singleton (by decide), .nil⟩
  | bool b =>
    cases b with
    | true => exact ⟨isRun_singleton (by decide), .true⟩
    | false => exact ⟨isRun_singleton (by decide), .false⟩
  | int n =>
    rw [text, String.toList_ofList]
    exact ⟨(numeral_ofInt _).isRun, .int n (numeral_ofInt _)⟩
  | id s =>
    have hname := h s rfl
    refine ⟨hname.toIsRun, ?_⟩
    have hid := Atomic.id hname.toIsName
    rwa [String.ofList_toList] at hid

theorem Atom.spells (a : Atom) (h : a.tree.Canonical) : Spells a.text.toList [a.tree] := by
  have hspelled : ∀ s, a = .id s → Spelled s.name := by
    rintro s rfl
    cases h with
    | id hname _ => exact hname
  have hmark : ¬ splatMark <:+ a.text.toList := by
    cases a with
    | nil => decide
    | bool b => cases b <;> decide
    | int n =>
      rw [text, String.toList_ofList]
      exact (numeral_ofInt _).not_mark
    | id s =>
      cases h with
      | id _ hmark => exact hmark
  obtain ⟨hrun, hatomic⟩ := a.text_atomic hspelled
  exact .run hrun (.atom hmark hatomic)

theorem Atom.spells_splat (a : Atom) (h : (Tree.splat a.tree).Canonical) :
    Spells (a.text.toList ++ splatMark) [.splat a.tree] := by
  have hspelled : ∀ s, a = .id s → Spelled s.name := by
    rintro s rfl
    cases h with
    | splat _ h =>
      cases h with
      | id hname _ => exact hname
    | splatId hname => exact hname
  obtain ⟨hrun, hatomic⟩ := a.text_atomic hspelled
  exact .splatRun hrun hatomic

namespace Form

theorem delimits_head?_moreChars (items : List Form) :
    ∀ d ∈ (moreChars items).head?, Delimits d := by
  cases items with
  | nil =>
    intro d hd
    cases hd
  | cons item items =>
    intro d hd
    cases hd
    decide

mutual

/-- **The text of a canonical form is read as the form's tree.** -/
theorem spells : (form : Form) → form.tree.Canonical → Spells form.chars [form.tree]
  | atom a _, h => a.spells h
  | group bracket items _, h => by
    cases h with
    | group _ hitems => exact (Spells.group bracket (spells_items items hitems)).1
  | splat (atom a _) _, h => a.spells_splat h
  | splat (group bracket items _) _, h => by
    -- Behind a group the mark is a lexeme of its own, so the two are spelled together.
    cases h with
    | splat _ h =>
      cases h with
      | group _ hitems => exact (Spells.group bracket (spells_items items hitems)).2
  | splat (splat _ _) _, h => by
    cases h with
    | splat hinner _ => exact absurd rfl (hinner _)

theorem spells_items : (items : List Form) → (∀ t ∈ trees items, t.Canonical) →
    Spells (itemsChars items) (trees items)
  | [], _ => .nil
  | item :: items, h => by
    obtain ⟨hitem, hitems⟩ := List.forall_mem_cons.1 h
    exact .cons (spells item hitem) (spells_more items hitems) (delimits_head?_moreChars items)

theorem spells_more : (items : List Form) → (∀ t ∈ trees items, t.Canonical) →
    Spells (moreChars items) (trees items)
  | [], _ => .nil
  | item :: items, h => by
    obtain ⟨hitem, hitems⟩ := List.forall_mem_cons.1 h
    refine .blank (.inl (by decide)) ?_
    exact .cons (spells item hitem) (spells_more items hitems) (delimits_head?_moreChars items)

end

/-- The texts of forms with spaces between them have the characters of items. -/
theorem toList_intercalate_text (forms : List Form) :
    (" ".intercalate (forms.map text)).toList = itemsChars forms := by
  cases forms with
  | nil => rfl
  | cons form forms =>
    rw [List.map_cons, itemsChars]
    induction forms generalizing form with
    | nil => simp [moreChars, toList_text]
    | cons next forms ih =>
      rw [List.map_cons, String.intercalate_cons_cons, String.toList_append, ih, moreChars]
      simp [toList_text]

/-! ## Forms without places -/

mutual

/-- The form with all its parts at one place. -/
def unplaced : Form → Form
  | atom a _ => .atom a default
  | group bracket items _ => .group bracket (unplacedItems items) default
  | splat inner _ => .splat inner.unplaced default

/-- Forms with all their parts at one place. -/
def unplacedItems : List Form → List Form
  | [] => []
  | item :: items => item.unplaced :: unplacedItems items

end

theorem unplacedItems_eq_map (items : List Form) : unplacedItems items = items.map unplaced := by
  induction items with
  | nil => rfl
  | cons item items ih => rw [unplacedItems, ih, List.map_cons]

mutual

theorem tree_unplaced : (form : Form) → form.unplaced.tree = form.tree
  | atom _ _ => rfl
  | group bracket items _ => by rw [unplaced, tree, tree, trees_unplacedItems]
  | splat inner _ => by rw [unplaced, tree, tree, tree_unplaced]

theorem trees_unplacedItems : (items : List Form) → trees (unplacedItems items) = trees items
  | [] => rfl
  | item :: items => by
    rw [unplacedItems, trees, trees, tree_unplaced, trees_unplacedItems]

end

end Form

/-- Names determine the symbols of a table. -/
theorem Atom.eq_of_tree_eq {table : SymbolTable} {a b : Atom} (ha : table.Owns a.symbols)
    (hb : table.Owns b.symbols) (h : a.tree = b.tree) : a = b := by
  cases a with
  | nil =>
    cases b <;> cases h
    rfl
  | bool =>
    cases b <;> cases h
    rfl
  | int =>
    cases b <;> cases h
    rfl
  | id s =>
    cases b with
    | nil => cases h
    | bool => cases h
    | int => cases h
    | id t =>
      have hname : s.name = t.name := Tree.id.inj h
      have hs := ha s List.mem_cons_self
      have ht := hb t List.mem_cons_self
      rw [hname, ht] at hs
      rw [Option.some.inj hs]

namespace Form

mutual

theorem unplaced_eq {table : SymbolTable} : (f g : Form) → table.Owns f.symbols →
    table.Owns g.symbols → f.tree = g.tree → f.unplaced = g.unplaced
  | atom a _, atom b _, hf, hg, h => by
    rw [unplaced, unplaced, Atom.eq_of_tree_eq hf hg h]
  | group b xs _, group c ys _, hf, hg, h => by
    obtain ⟨rfl, hitems⟩ := Tree.group.inj h
    rw [unplaced, unplaced, unplacedItems_eq xs ys hf hg hitems]
  | splat f _, splat g _, hf, hg, h => by
    rw [unplaced, unplaced, unplaced_eq f g hf hg (Tree.splat.inj h)]
  | atom a _, group _ _ _, _, _, h => by cases a <;> cases h
  | atom a _, splat _ _, _, _, h => by cases a <;> cases h
  | group _ _ _, atom b _, _, _, h => by cases b <;> cases h
  | splat _ _, atom b _, _, _, h => by cases b <;> cases h
  | group _ _ _, splat _ _, _, _, h => by cases h
  | splat _ _, group _ _ _, _, _, h => by cases h

theorem unplacedItems_eq {table : SymbolTable} : (fs gs : List Form) →
    table.Owns (itemSymbols fs) → table.Owns (itemSymbols gs) → trees fs = trees gs →
      unplacedItems fs = unplacedItems gs
  | [], [], _, _, _ => rfl
  | f :: fs, g :: gs, hfs, hgs, h => by
    obtain ⟨hf, hfs⟩ := List.forall_mem_append.1 hfs
    obtain ⟨hg, hgs⟩ := List.forall_mem_append.1 hgs
    obtain ⟨htree, htrees⟩ := List.cons.inj h
    rw [unplacedItems, unplacedItems, unplaced_eq f g hf hg htree,
      unplacedItems_eq fs gs hfs hgs htrees]
  | [], _ :: _, _, _, h => by cases h
  | _ :: _, [], _, _, h => by cases h

end

end Form

namespace Reader

/-- Reading the texts of canonical forms gives the forms, at other places. -/
theorem exists_readAll_of_canonical {table : SymbolTable} {forms : List Form}
    (howns : table.Owns (forms.flatMap Form.symbols))
    (h : ∀ form ∈ forms, form.tree.Canonical) (pos : Pos) :
    ∃ back reader, (ofText table (" ".intercalate (forms.map Form.text))).readAll pos =
        (.ok back, reader) ∧ back.map Form.unplaced = forms.map Form.unplaced := by
  have hreads : Reads (" ".intercalate (forms.map Form.text)).toList (Form.trees forms) := by
    rw [Form.toList_intercalate_text]
    refine (Form.spells_items forms fun t ht => ?_).reads
    rw [Form.trees_eq_map] at ht
    obtain ⟨form, hform, rfl⟩ := List.mem_map.1 ht
    exact h form hform
  obtain ⟨back, reader, hread, htrees⟩ := exists_readAll_of_reads hreads table pos
  obtain ⟨-, hext, hback⟩ := reads_of_readAll hread
  refine ⟨back, reader, hread, ?_⟩
  rw [← Form.itemSymbols_eq_flatMap] at howns hback
  rw [← Form.trees_eq_map] at htrees
  rw [← Form.unplacedItems_eq_map, ← Form.unplacedItems_eq_map]
  exact Form.unplacedItems_eq back forms hback (howns.mono hext) htrees

theorem canonical_of_readAll {table : SymbolTable} {text : String} {pos : Pos}
    {forms : List Form} {reader : Reader}
    (h : (ofText table text).readAll pos = (.ok forms, reader)) :
    ∀ form ∈ forms, form.tree.Canonical := by
  obtain ⟨hreads, -⟩ := reads_of_readAll h
  exact fun form hform => hreads.canonical _ (List.mem_map_of_mem hform)

/-- **Reading and writing are inverse to each other on canonical forms, and on no others.** Forms
over the symbols of a table are read back from their texts, up to their places, exactly if all of
them are canonical. Whatever is read is canonical, by `readAll` or by `read`, so its text is read
as the same forms again. -/
theorem readAll_text (table : SymbolTable) (pos : Pos) :
    (∀ forms : List Form, table.Owns (forms.flatMap Form.symbols) →
      ((∃ back reader, (ofText table (" ".intercalate (forms.map Form.text))).readAll pos =
          (.ok back, reader) ∧ back.map Form.unplaced = forms.map Form.unplaced) ↔
        ∀ form ∈ forms, form.tree.Canonical)) ∧
    (∀ text forms reader, (ofText table text).readAll pos = (.ok forms, reader) →
      (∀ form ∈ forms, form.tree.Canonical) ∧
      ∀ pos', ∃ back reader',
        (ofText reader.symbols (" ".intercalate (forms.map Form.text))).readAll pos' =
            (.ok back, reader') ∧
          back.map Form.unplaced = forms.map Form.unplaced) ∧
    (∀ rest form next reader, (Reader.mk rest table).read pos = (.form form next, reader) →
      form.tree.Canonical) := by
  refine ⟨fun forms howns => ⟨?_, fun h => exists_readAll_of_canonical howns h pos⟩, ?_, ?_⟩
  · rintro ⟨back, reader, hread, hsame⟩ form hform
    -- What was read back is canonical, and places have no part in that.
    have hmem : form.unplaced ∈ back.map Form.unplaced := by
      rw [hsame]
      exact List.mem_map_of_mem hform
    obtain ⟨item, hitem, heq⟩ := List.mem_map.1 hmem
    have hcanonical := canonical_of_readAll hread item hitem
    rwa [← Form.tree_unplaced item, heq, Form.tree_unplaced] at hcanonical
  · intro text forms reader hread
    have hcanonical := canonical_of_readAll hread
    obtain ⟨-, -, howns⟩ := reads_of_readAll hread
    exact ⟨hcanonical, fun pos' => exists_readAll_of_canonical howns hcanonical pos'⟩
  · intro rest form next reader hread
    exact canonical_of_read hread

/-- An identifier that ends in two dots is read back in a splat, next to the splat of a group with
the least integer. -/
theorem readAll_text_dotted :
    let table := (SymbolTable.empty.intern "x..").2
    let dotted := Form.splat (.atom (.id ⟨"x..", 0⟩) default) default
    let vector := Form.splat (.group .square [.atom (.int Int64.minValue) default] default) default
    table.Owns (dotted.symbols ++ vector.symbols) ∧
      ∃ back reader, (ofText table "x.... [-9223372036854775808]..").readAll default =
        (.ok back, reader) ∧ back.map Form.unplaced = [dotted.unplaced, vector.unplaced] := by
  intro table dotted vector
  have hempty : SymbolTable.empty.get? "x.." = none := by
    rw [SymbolTable.get?_eq_none_iff]
    exact Array.not_mem_empty _
  have hget : table.get? "x.." = some ⟨"x..", 0⟩ := by
    rw [SymbolTable.get?_intern, SymbolTable.intern_of_none hempty]
    rfl
  have howns : table.Owns (dotted.symbols ++ vector.symbols) := by
    intro s hs
    obtain rfl := List.mem_singleton.1 hs
    exact hget
  have hname : Spelled "x.." := by
    have hnone : Decimal.toInt? "x..".toList = none := by decide
    refine ⟨isRun_append_mark (isRun_singleton (by decide)), ⟨by decide, fun n hn => ?_⟩⟩
    rw [numeral_iff, hnone] at hn
    cases hn
  have hcanonical : ∀ form ∈ [dotted, vector], form.tree.Canonical := by
    simp only [List.forall_mem_cons]
    refine ⟨.splatId hname, .splat nofun (.group .square fun t ht => ?_), nofun⟩
    obtain rfl := List.mem_singleton.1 ht
    exact .int _
  exact ⟨howns, ((readAll_text table default).1 [dotted, vector] howns).2 hcanonical⟩

end Reader

end SplatLisp
