import RegisterForm.Proofs.Lowering.Composed
import RegisterForm.Proofs.Lowering.Yields
import RegisterForm.Proofs.Registration.Precedence
/-!
# Listed names

The names that the lowering of a module notes are exactly those that its statements export: an
exporting statement notes its own, and nothing inside a statement notes any. So the list that stands
before the function that forwards names has these names and those of other re-exports.
-/
namespace RegisterForm
open Lowering

namespace Lowering
variable {α β : Type} {x : Lowering α} {f : α → Lowering β} {names names' : List String}

/-! ## Steps -/

/-- The exports that a step notes, besides those that are noted before it. -/
def Notes (x : Lowering α) (names : List String) : Prop :=
  ∀ ⦃p a p'⦄, x.run p = .ok (a, p') →
    ∀ name, name ∈ p'.exportedNames ↔ name ∈ p.exportedNames ∨ name ∈ names

/-- By induction along the steps. -/
theorem Composed.exportedNames_eq {p p' : Progress} {a : α} (h : Composed False x)
    (hr : x.run p = .ok (a, p')) : p'.exportedNames = p.exportedNames := by
  induction h generalizing p p' with
  | pure | uniqueDefault | declareTemporary | addVariables | addFunction | addFunctionExport
    | requireRest =>
    cases hr
    rfl
  | throw => cases hr
  | bind _ _ ihx ihf =>
    obtain ⟨b, q, hfirst, hrest⟩ := run_bind_eq_ok hr
    exact (ihf b hrest).trans (ihx hfirst)
  | deeper s _ ih =>
    obtain ⟨-, q, hx, rfl⟩ := run_deeper_eq_ok hr
    have hsame := ih hx
    exact hsame
  | inFunction _ ih =>
    obtain ⟨q, hx, -, rfl⟩ := run_inFunction_eq_ok hr
    have hsame := ih hx
    exact hsame
  | addExportedName name h => exact h.elim

theorem Composed.notes (h : Composed False x) : Notes x [] := by
  intro p a p' hr name
  rw [h.exportedNames_eq hr]
  simp

namespace Notes

theorem bind (hx : Notes x names) (hf : ∀ a, Notes (f a) names') :
    Notes (x >>= f) (names ++ names') := by
  intro p b p' hr name
  obtain ⟨a, q, hfirst, hrest⟩ := run_bind_eq_ok hr
  rw [hf a hrest, hx hfirst, List.mem_append, or_assoc]

/-- A step that notes nothing comes last. -/
theorem followed (hx : Notes x names) (hf : ∀ a, Composed False (f a)) :
    Notes (x >>= f) names := by
  rw [← List.append_nil names]
  exact hx.bind fun a => (hf a).notes

theorem map {g : α → β} (hx : Notes x names) : Notes (x >>= fun a => pure (g a)) names :=
  hx.followed fun a => .pure (g a)

/-- A step that notes nothing comes first. -/
theorem after (hx : Composed False x) (hf : ∀ a, Notes (f a) names) : Notes (x >>= f) names :=
  hx.notes.bind hf

/-- What the first step makes may be relied on in the second. -/
theorem after_yields {R : Progress → Progress → Prop} {Q : α → Prop} (hx : Composed False x)
    (hshape : Yields R x Q) (hf : ∀ a, Q a → Notes (f a) names) : Notes (x >>= f) names := by
  intro p b p' hr name
  obtain ⟨a, q, hfirst, hrest⟩ := run_bind_eq_ok hr
  rw [hf a (hshape hfirst).2 hrest, hx.exportedNames_eq hfirst]

theorem deeper (s : Setting) (hx : Notes x names) : Notes (deeper s x) names := by
  intro p a p' hr
  obtain ⟨-, q, hx', rfl⟩ := run_deeper_eq_ok hr
  have hnotes := hx hx'
  exact hnotes

theorem ite_of {c : Prop} {_ : Decidable c} {y : Lowering α} (hx : c → Notes x names)
    (hy : ¬ c → Notes y names) : Notes (if c then x else y) names := by
  split
  · next h => exact hx h
  · next h => exact hy h

theorem addExportedName (name : String) : Notes (addExportedName name) [name] := by
  intro p a p' hr other
  cases hr
  dsimp only
  split
  · next hold =>
    rw [List.contains_iff_mem] at hold
    simpa using fun h => h ▸ hold
  · simp

theorem addExportedNames : ∀ names : List String, Notes (addExportedNames names) names
  | [] => (Composed.pure _).notes
  | name :: names => (addExportedName name).bind fun _ => addExportedNames names

end Notes
end Lowering

/-! ## Statements -/

/-- A function or class that is exported has a name, unless it is the default export. -/
def Stmt.NamesExport : Stmt → Prop
  | .function modifiers f =>
    modifiers.isExported = true → modifiers.isDefault = false → f.name ≠ none
  | .classDecl modifiers c =>
    modifiers.isExported = true → modifiers.isDefault = false → c.name ≠ none
  | _ => True

instance (st : Stmt) : Decidable st.NamesExport := by
  unfold Stmt.NamesExport
  split <;> infer_instance

namespace Lowering
variable {s : Setting}

theorem notes_exportCall (modifiers : Modifiers) (name : String) :
    Notes (exportCall s modifiers name) (if modifiers.isDefault then [] else [name]) := by
  unfold exportCall
  cases modifiers.isDefault with
  | true => exact (Composed.pure _).notes
  | false => exact (Notes.addExportedName name).map

theorem notes_hoistFunction {modifiers : Modifiers} {f : Func}
    (hnamed : modifiers.isExported = true → modifiers.isDefault = false → f.name ≠ none) :
    Notes (hoistFunction s modifiers f) (modifiers.noted f.name) := by
  cases hexported : modifiers.isExported with
  | false =>
    have hnothing : modifiers.noted f.name = [] := by
      rw [Modifiers.noted, hexported]
      rfl
    rw [hnothing]
    exact (Composed.hoistFunction s modifiers (by simp [hexported]) f).notes
  | true =>
    have hcalls : ∀ x : Ident, Notes (do
        addFunctionExport (← exportCall s modifiers x.name)
        hoist (·.addFunction (.function {} { f with name := some x })))
        (if modifiers.isDefault then [] else [x.name]) := fun x =>
      (notes_exportCall modifiers x.name).followed fun call =>
        (Composed.addFunctionExport call).bind fun _ => .addFunction _
    unfold hoistFunction Modifiers.noted
    rw [hexported]
    cases hname : f.name with
    | some x =>
      have hsame : (if (true && !modifiers.isDefault) = true then
          (some x).toList.map (·.name) else []) = if modifiers.isDefault then [] else [x.name] := by
        cases modifiers.isDefault <;> rfl
      rw [hsame]
      exact hcalls x
    | none =>
      have hdefault : modifiers.isDefault = true := by
        by_contra hother
        exact hnamed hexported (by simpa using hother) hname
      change Notes ((Ident.synthetic <$> hoistGet (·.unique "default")) >>= _) _
      rw [bind_map_left, hdefault]
      refine .after .uniqueDefault fun name => ?_
      have hcall := hcalls (.synthetic name)
      rw [hdefault] at hcall
      exact hcall

theorem notes_exportSpecifiers : ∀ specs : List ExportSpecifier,
    Notes (exportSpecifiers s specs) ((specs.filter s.names.specifierIsValue).map (·.exportedName))
  | [] => (Composed.pure _).notes
  | spec :: specs => by
    have hfirst : Notes (exportSpecifier s spec)
        (if s.names.specifierIsValue spec then [spec.exportedName] else []) := by
      unfold exportSpecifier
      cases s.names.specifierIsValue spec with
      | false => exact (Composed.pure _).notes
      | true =>
        exact (Notes.addExportedName spec.exportedName).followed fun _ =>
          .ite (.pure _) (.ite (Composed.addFunctionExport _).map (.pure _))
    have hnames : ((spec :: specs).filter s.names.specifierIsValue).map (·.exportedName) =
        (if s.names.specifierIsValue spec then [spec.exportedName] else []) ++
          (specs.filter s.names.specifierIsValue).map (·.exportedName) := by
      cases hvalue : s.names.specifierIsValue spec <;> simp [hvalue]
    rw [hnames]
    exact hfirst.bind fun _ => (notes_exportSpecifiers specs).map

theorem notes_classAssignment (modifiers : Modifiers) (name : String) (c : Class) :
    Notes (classAssignment s modifiers name c)
      (if modifiers.isExported && !modifiers.isDefault then [name] else []) := by
  unfold classAssignment
  cases modifiers.isExported with
  | false => exact (Composed.pure _).notes
  | true =>
    have hsame : (if (true && !modifiers.isDefault) = true then [name] else []) =
        if modifiers.isDefault then [] else [name] := by
      cases modifiers.isDefault <;> rfl
    rw [hsame]
    exact (notes_exportCall modifiers name).map

/-- A statement of the module notes the names that it exports. -/
theorem notes_lower {st : Stmt} (hinner : AllInner st.visits.tail) (hnamed : st.NamesExport) :
    Notes (st.lower s .topLevel) (s.noted st) := by
  have hplain : st.isModuleSyntax = false → Notes (st.lower s .topLevel) [] := by
    intro hst
    refine (st.lower_composes .topLevel (.inr (.inr ?_))).notes
    rw [st.visits_cons, allInner_cons]
    exact ⟨by simp [Visit.isInner, hst], hinner⟩
  cases st with
  | var modifiers list =>
    cases hexported : modifiers.isExported with
    | false =>
      rw [Setting.noted, hexported]
      exact hplain hexported
    | true =>
      refine .deeper s (.ite_of (fun _ => .ite_of (fun _ => ?_) fun hnot => (hnot hexported).elim)
        fun hplace => (hplace rfl).elim)
      rw [Setting.noted, if_pos hexported]
      exact (Notes.addExportedNames _).followed fun _ => list.hoisted_composes.map
  | function modifiers f =>
    refine .deeper s (.after_yields f.lower_composes (f.lower_name s) fun f' hname =>
      .ite_of (fun _ => ?_) fun hplace => (hplace rfl).elim)
    rw [Setting.noted, ← hname]
    exact (notes_hoistFunction (hname ▸ hnamed)).map
  | classDecl modifiers c =>
    refine .deeper s (.ite_of (fun _ => ?_) fun hplace => (hplace rfl).elim)
    have hassigned : ∀ name, Notes (do classAssignment s modifiers name (← c.lower s))
        (if modifiers.isExported && !modifiers.isDefault then [name] else []) := fun name =>
      .after c.lower_composes fun c => notes_classAssignment modifiers name c
    rw [Setting.noted, Modifiers.noted]
    cases hname : c.name with
    | some x =>
      have hheld : Yields Any (hoistClassName (some x)) (· = x.name) := by
        intro p a p' hr
        cases hr
        exact ⟨trivial, rfl⟩
      exact .after_yields (Composed.hoistClassName _) hheld fun name hname => hname ▸ hassigned name
    | none =>
      have hnothing : (modifiers.isExported && !modifiers.isDefault) = false := by
        by_contra hother
        simp only [Bool.not_eq_false, Bool.and_eq_true, Bool.not_eq_true'] at hother
        exact hnamed hother.1 hother.2 hname
      refine .after (Composed.hoistClassName _) fun name => ?_
      have hassigned' := hassigned name
      rw [hnothing] at hassigned' ⊢
      exact hassigned'
  | importEquals site isExported name kind value =>
    refine .deeper s (.ite_of (fun _ => ?_) fun hplace => (hplace rfl).elim)
    rw [Setting.noted]
    cases s.names.importEqualsIsValue kind value with
    | false =>
      rw [Bool.and_false]
      exact (Composed.pure _).notes
    | true =>
      rw [Bool.and_true]
      refine .after (.addVariable name.name) fun _ => ?_
      cases kind with
      | require =>
        cases isExported with
        | false => exact (Composed.pure _).notes
        | true => exact (Notes.addExportedName name.name).map
      | entity =>
        cases isExported with
        | false => exact (value.lower_composes true).map.notes
        | true =>
          exact (Notes.addExportedName name.name).followed fun _ => (value.lower_composes true).map
  | exportFrom site clause specifier isTypeOnly =>
    refine .deeper s (.ite_of (fun _ => ?_) fun hplace => (hplace rfl).elim)
    rcases clause with _ | specs | x <;> rcases specifier with _ | e <;> cases isTypeOnly <;>
      first
        | exact notes_exportSpecifiers _
        | exact (Composed.pure _).notes
  | exportValue site form value =>
    exact (Composed.deeper s (.ite (.ite (.pure _) (value.lower_composes true).map) (.pure _))).notes
  | importFrom site clause specifier isTypeOnly =>
    exact (Composed.deeper s (.ite (Composed.addVariables _).map (.pure _))).notes
  | _ => exact hplain rfl

theorem notes_lowerStmts : ∀ {sts : List Stmt}, (∀ st ∈ sts, AllInner st.visits.tail) →
    (∀ st ∈ sts, st.NamesExport) → Notes (lowerStmts s .topLevel sts) (sts.flatMap s.noted)
  | [], _, _ => (Composed.pure _).notes
  | st :: sts, hinner, hnamed => by
    obtain ⟨hst, hsts⟩ := List.forall_mem_cons.mp hinner
    obtain ⟨hst', hsts'⟩ := List.forall_mem_cons.mp hnamed
    exact (notes_lower hst hst').bind fun _ => (notes_lowerStmts hsts hsts').map

end Lowering

/-! ## Re-exports -/

/-- The names that a statement re-exports from another module. -/
def Stmt.reexported : Stmt → List String
  | .exportFrom _ (some clause) (some _) false => StarExport.namesOf clause
  | _ => []

namespace StarExport

theorem namesOf_of_isTypeOnly {clause : ExportClause} (h : clause.isTypeOnly = true) :
    namesOf clause = [] := by
  cases clause with
  | star x => cases h
  | named specifiers =>
    have hall : ∀ spec ∈ specifiers, spec.isTypeOnly = true := by
      simpa using (Bool.and_eq_true_iff.mp h).2
    have hnothing : specifiers.filter (!·.isTypeOnly) = [] :=
      List.filter_eq_nil_iff.mpr fun spec hspec => by simp [hall spec hspec]
    rw [namesOf, hnothing, List.map_nil]

/-- The names that the dependencies re-export are those that the statements of the file do. -/
theorem mem_clauseNames {file : SourceFile} {groups : List Dependency}
    (hfiles : Dependency.Files file file.dependences groups) {name : String} :
    name ∈ (clauses groups).flatMap namesOf ↔ ∃ st ∈ file.statements, name ∈ st.reexported := by
  constructor
  · intro hname
    obtain ⟨clause, hclause, hname⟩ := List.mem_flatMap.mp hname
    obtain ⟨d, hd, hform⟩ := List.mem_filterMap.mp hclause
    obtain ⟨group, hgroup, hd⟩ := List.mem_flatMap.mp hd
    rw [hfiles.filed group hgroup] at hd
    obtain ⟨st, hst, hdepends⟩ := List.mem_filterMap.mp (List.mem_of_mem_filter hd)
    refine ⟨st, hst, ?_⟩
    rcases Stmt.dependence?_eq_some hdepends with ⟨_, _, -, hd⟩ | ⟨_, _, -, hd⟩ | ⟨clause?, rfl, hd⟩
    · rw [hd] at hform
      cases hform
    · rw [hd] at hform
      cases hform
    · rw [hd] at hform
      obtain rfl : clause? = some clause := hform
      exact hname
  · rintro ⟨st, hst, hname⟩
    unfold Stmt.reexported at hname
    split at hname
    · next site clause specifier =>
      have hvalue : clause.isTypeOnly = false := by
        by_contra htype
        rw [namesOf_of_isTypeOnly (by simpa using htype)] at hname
        cases hname
      have hdepends : Stmt.dependence? (.exportFrom site (some clause) (some specifier) false) =
          some ⟨site, specifier, .exporting (some clause)⟩ := by
        simp [Stmt.dependence?, hvalue]
      have hmem : ⟨site, specifier, .exporting (some clause)⟩ ∈ file.dependences :=
        List.mem_filterMap.mpr ⟨_, hst, hdepends⟩
      obtain ⟨text, htext⟩ := Option.isSome_iff_exists.mp (hfiles.readable _ hmem)
      have hnamed : text ∈ groups.map (·.name) := by
        rw [hfiles.names, List.mem_eraseDups]
        exact List.mem_filterMap.mpr ⟨_, hmem, htext⟩
      obtain ⟨group, hgroup, rfl⟩ := List.mem_map.mp hnamed
      have huse : ⟨site, specifier, .exporting (some clause)⟩ ∈ group.uses := by
        rw [hfiles.filed group hgroup]
        exact List.mem_filter.mpr ⟨hmem, by simpa using htext⟩
      exact List.mem_flatMap.mpr ⟨clause, mem_clauses hgroup huse rfl, hname⟩
    · cases hname

end StarExport
end RegisterForm
