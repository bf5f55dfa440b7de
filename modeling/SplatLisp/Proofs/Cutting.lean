import SplatLisp.Eval.Source
import SplatLisp.Proofs.Continuation
import SplatLisp.Proofs.FrameEffects

/-!
# A source can be cut between forms

Two texts with a line feed between them are read as the forms of the first and then those of the
second, if the first can be read (`Reader.readAll_lineFeed`). If both can, evaluating the whole is
evaluating the one and, unless that stops, the other after it (`Eval.cut_between_forms`).

As a text is read before any of it is evaluated, the symbols of the second text are there already
when the forms of the first are evaluated in the whole. Evaluation is not aware of them: it neither
looks at the symbol table nor changes it (`inherited_unaware`).
-/

namespace SplatLisp

open scoped CoreOnly

/-! ## Reading -/

/-- The forms of a second text come behind those of the first, or it fails where the second does. -/
theorem Reader.readAll_lineFeed {table : SymbolTable} {pos next : Pos} {first : String}
    {forms : List Form} {last : Reader}
    (h : (ofText table first).readAll pos = (.ok forms, last))
    (hnext : next = pos.advanceAll (first ++ "\n").toList) (second : String) :
    (ofText table (first ++ "\n" ++ second)).readAll pos =
      (((ofText last.symbols second).readAll next).1.map (forms ++ ·),
        ((ofText last.symbols second).readAll next).2) := by
  have htext : ofText table (first ++ "\n" ++ second) =
      (ofText table first).followedBy second.toList := by
    simp [ofText, followedBy]
  have hplace : next = (pos.advanceAll first.toList).advance '\n' := by
    rw [hnext, String.toList_append, Pos.advanceAll_append]
    rfl
  rw [htext, readAll, readAllFrom_followedBy h, hplace]
  have happend := readAllFrom_append (ofText last.symbols second)
    ((pos.advanceAll first.toList).advance '\n') [] forms.reverse
  rwa [List.nil_append, List.reverse_reverse] at happend

/-! ## Evaluation and the symbol table -/

namespace Eval

variable {α β : Type}

/-- How a computation ends, in contexts with another symbol table. -/
def withSymbols (table : SymbolTable) :
    EStateM.Result Stop Context α → EStateM.Result Stop Context α
  | .ok a c => .ok a { c with symbols := table }
  | .error stop c => .error stop { c with symbols := table }

/-- Whether a computation comes to the same with every symbol table, and hands the table on. -/
def Unaware (x : Eval α) : Prop :=
  ∀ (c : Context) (table : SymbolTable), x { c with symbols := table } = withSymbols table (x c)

theorem Unaware.bind {x : Eval α} {f : α → Eval β} (hx : Unaware x) (hf : ∀ a, Unaware (f a)) :
    Unaware (x >>= f) := by
  intro c table
  change EStateM.bind x f _ = withSymbols table (EStateM.bind x f c)
  unfold EStateM.bind
  rw [hx c table]
  cases x c with
  | ok a d => exact hf a d table
  | error stop d => rfl

theorem Unaware.lookup (env : Env) (symbol : Symbol) : Unaware (Eval.lookup env symbol) := by
  intro c table
  rw [lookup_eq, lookup_eq]
  dsimp only
  cases c.heap.lookup env symbol <;> rfl

end Eval

open Eval

/-- All that evaluation consists of is unaware of the symbol table. -/
theorem inherited_unaware : Inherited (fun _ _ x => Unaware x) (fun _ _ x => Unaware x) where
  pure _ _ _ := fun _ _ => rfl
  bind _ _ _ _ _ hx hf := hx.bind hf
  fail _ _ _ := fun _ _ => rfl
  exhausted _ _ := fun _ _ => rfl
  broken _ _ := fun _ _ => rfl
  lookup _ symbol := Unaware.lookup _ symbol
  fresh _ := fun _ _ => rfl
  typeOf _ _ := fun _ _ => rfl
  writeLine _ _ := fun _ _ => rfl
  name _ _ _ _ := fun _ _ => rfl
  define _ _ _ := fun _ _ => rfl
  frame_of _ _ _ hx := hx
  frame_bind _ _ _ _ _ hx hf := hx.bind hf
  scope _ _ _ _ hf := Unaware.bind (fun _ _ => rfl) hf
  host _ _ _ _ _ := fun _ _ => rfl

/-! ## Texts one after the other -/

namespace Eval

theorem evalFormsFrom_unaware (bound : Nat) (env : Env) (last : Value) (forms : List Form) :
    Unaware (evalFormsFrom (eval bound) env last forms) := by
  induction forms generalizing last with
  | nil => exact fun _ _ => rfl
  | cons form forms ih => exact (inherited_unaware.eval bound env form).bind ih

/-- The value before matters only if there are no forms. -/
theorem evalFormsFrom_eq (ev : Evaluator) (env : Env) (last : Value) (forms : List Form)
    (c : Context) :
    evalFormsFrom ev env last forms c =
      match evalForms ev forms env c with
      | .ok value d => .ok (if forms.isEmpty then last else value) d
      | .error stop d => .error stop d := by
  cases forms with
  | nil => rfl
  | cons form forms =>
    change evalForms ev (form :: forms) env c = _
    cases evalForms ev (form :: forms) env c <;> rfl

/-- **A source can be cut between forms.** A first text is read, from a place, as forms; a second
text stands behind it and a line feed. The whole is read as the forms of the first text and those of
the second, which are read from the place behind the line feed with the symbols of the first, or it
fails as the second text does there. If it does not, evaluating the whole is evaluating the first
text and then the second: it stops where the first one does, with the symbols of both texts interned
already; otherwise it comes to what the second one comes to, or to the value of the first if the
second holds no form. -/
theorem cut_between_forms {table : SymbolTable} {p q : Pos} {s₁ : String} {fs₁ : List Form}
    {r₁ : Reader} (h₁ : (Reader.ofText table s₁).readAll p = (.ok fs₁, r₁))
    (hq : q = p.advanceAll (s₁ ++ "\n").toList) (s₂ : String) :
    (Reader.ofText table (s₁ ++ "\n" ++ s₂)).readAll p =
        (((Reader.ofText r₁.symbols s₂).readAll q).1.map (fs₁ ++ ·),
          ((Reader.ofText r₁.symbols s₂).readAll q).2) ∧
      ∀ fs₂ r₂, (Reader.ofText r₁.symbols s₂).readAll q = (.ok fs₂, r₂) →
        ∀ (bound : Nat) (env : Env) (c : Context), c.symbols = table →
          evalText bound p (s₁ ++ "\n" ++ s₂) env c =
            match evalText bound p s₁ env c with
            | .error stop d => .error stop { d with symbols := r₂.symbols }
            | .ok v₁ d =>
              match evalText bound q s₂ env d with
              | .ok v₂ e => .ok (if fs₂.isEmpty then v₁ else v₂) e
              | .error stop e => .error stop e := by
  have hread := Reader.readAll_lineFeed h₁ hq s₂
  refine ⟨hread, ?_⟩
  rintro fs₂ r₂ h₂ bound env c rfl
  rw [h₂] at hread
  rw [evalText_of_readAll hread, evalText_of_readAll h₁]
  -- The forms of the first text are evaluated with all symbols interned.
  have hfirst :=
    evalFormsFrom_unaware bound env .nil fs₁ { c with symbols := r₁.symbols } r₂.symbols
  have hkept := symbols_evalForms bound fs₁ env { c with symbols := r₁.symbols }
  unfold evalForms at hkept ⊢
  rw [evalFormsFrom_append]
  change EStateM.bind _ _ { c with symbols := r₂.symbols } = _
  unfold EStateM.bind
  change evalFormsFrom (eval bound) env .nil fs₁ { c with symbols := r₂.symbols } = _ at hfirst
  rw [hfirst]
  unfold Eval.after at hkept
  cases hvalue : evalFormsFrom (eval bound) env .nil fs₁ { c with symbols := r₁.symbols } with
  | error stop d => rfl
  | ok v₁ d =>
    rw [hvalue] at hkept
    have hsymbols : d.symbols = r₁.symbols := hkept
    rw [← hsymbols] at h₂
    dsimp only [withSymbols]
    rw [evalFormsFrom_eq, evalText_of_readAll h₂]

/-- A comment that is open at the cut takes in nothing of the second text. -/
theorem cut_between_forms_comment :
    ∃ fs₁ r₁ fs₂ r₂,
      (Reader.ofText (Context.new {}).symbols "x ; (").readAll (.start "cut") = (.ok fs₁, r₁) ∧
      (Reader.ofText r₁.symbols "2").readAll ⟨"cut", 2, 1⟩ = (.ok fs₂, r₂) ∧
      (Reader.ofText (Context.new {}).symbols ("x ; (" ++ "\n" ++ "2")).readAll (.start "cut") =
        (((Reader.ofText r₁.symbols "2").readAll ⟨"cut", 2, 1⟩).1.map (fs₁ ++ ·),
          ((Reader.ofText r₁.symbols "2").readAll ⟨"cut", 2, 1⟩).2) ∧
      evalText 64 (.start "cut") ("x ; (" ++ "\n" ++ "2") .root (.new {}) =
        match evalText 64 (.start "cut") "x ; (" .root (.new {}) with
        | .error stop d => .error stop { d with symbols := r₂.symbols }
        | .ok v₁ d =>
          match evalText 64 ⟨"cut", 2, 1⟩ "2" .root d with
          | .ok v₂ e => .ok (if fs₂.isEmpty then v₁ else v₂) e
          | .error stop e => .error stop e := by
  have hrun : ∀ c : Char, ¬ Delimits c → ∀ d ∈ [c], ¬ Delimits d := by
    intro c hc d hd
    rwa [List.mem_singleton.1 hd]
  have hname : IsName ['x'] := isName_of_toInt? (by decide) rfl
  have hfirst : Reads "x ; (".toList [.id (.ofList ['x'])] := by
    refine ⟨[.run ['x']], ?_, .run (.atom (by decide) (.id hname)) .nil⟩
    have hrest : Lexes false " ; (".toList [] := .blank (.inl rfl) (.lastComment (by decide))
    have hend : ∀ d ∈ " ; (".toList.head?, Delimits d := by
      rintro _ ⟨⟩
      decide
    exact .run (hrun 'x' (by decide)) hend nofun hrest
  have hsecond : Reads "2".toList [.int 2] := by
    refine ⟨[.run ['2']], ?_, .run (.atom (by decide) (.int 2 ?_)) .nil⟩
    · exact .run (hrun '2' (by decide)) nofun nofun .done
    · rw [numeral_iff]
      rfl
  obtain ⟨fs₁, r₁, h₁, -⟩ := Reader.exists_readAll_of_reads hfirst (Context.new {}).symbols
    (.start "cut")
  obtain ⟨fs₂, r₂, h₂, -⟩ := Reader.exists_readAll_of_reads hsecond r₁.symbols ⟨"cut", 2, 1⟩
  obtain ⟨hread, heval⟩ := cut_between_forms h₁ (q := ⟨"cut", 2, 1⟩) (by rfl) "2"
  exact ⟨fs₁, r₁, fs₂, r₂, h₁, h₂, hread, heval fs₂ r₂ h₂ 64 .root (.new {}) rfl⟩

end Eval

end SplatLisp
