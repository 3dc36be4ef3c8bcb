import RegisterForm.Interface
import RegisterForm.Proofs.Scope.Clause
/-!
# Recorded export names

The interface of a module records an export name with the identifier that declares what is
exported. A declaration records its name with the identifier it declares, and a local clause
records its name with the identifier that declared the named symbol first.
-/
namespace RegisterForm

/-- The export name that a statement gives to a name it declares. -/
def Stmt.exportName : Stmt → String → String
  | .function modifiers _, name | .classDecl modifiers _, name =>
    Interface.exportNameOf modifiers name
  | _, name => name

/-- What a declaration records. -/
def Stmt.recorded (t : NameTable) : Stmt → List (NodeId × String)
  | .importEquals _ isExported name kind value =>
    if isExported && t.importEqualsIsValue kind value then [(name.id, name.name)] else []
  | .var modifiers list =>
    if modifiers.isExported then list.boundIdents.map fun x => (x.id, x.name) else []
  | .function modifiers f =>
    if modifiers.isExported then
      f.name.toList.map fun x => (x.id, Interface.exportNameOf modifiers x.name)
    else []
  | .classDecl modifiers c =>
    if modifiers.isExported then
      c.name.toList.map fun x => (x.id, Interface.exportNameOf modifiers x.name)
    else []
  | _ => []

namespace Interface
variable {t : NameTable} {i : Interface} {d : NodeId} {name : String}

theorem mem_addExport {d' : NodeId} {name' : String} :
    (d, name) ∈ (i.addExport d' name').exports ↔
      (d, name) ∈ i.exports ∨ d = d' ∧ name = name' := by
  unfold addExport
  split
  · next h =>
    have hin : (d', name') ∈ i.exports := by simpa using h
    constructor
    · exact .inl
    · rintro (h | ⟨rfl, rfl⟩)
      · exact h
      · exact hin
  · simp

theorem mem_addSpecifier {spec : ExportSpecifier} :
    (d, name) ∈ (addSpecifier t i spec).exports ↔ (d, name) ∈ i.exports ∨
      (t.specifierIsValue spec = true ∧ t.valueDeclaration? spec.source = some d ∧
        spec.exportedName = name) := by
  unfold addSpecifier
  by_cases hv : t.specifierIsValue spec = true
  · rw [if_pos hv]
    cases hd : t.valueDeclaration? spec.source with
    | none => simp
    | some d' =>
      dsimp only
      rw [mem_addExport]
      simp only [hv, true_and, Option.some.injEq]
      exact or_congr Iff.rfl (and_congr eq_comm eq_comm)
  · rw [if_neg hv]
    simp [hv]

theorem mem_foldl_addSpecifier (specs : List ExportSpecifier) :
    (d, name) ∈ (specs.foldl (addSpecifier t) i).exports ↔ (d, name) ∈ i.exports ∨
      ∃ spec ∈ specs, t.specifierIsValue spec = true ∧
        t.valueDeclaration? spec.source = some d ∧ spec.exportedName = name := by
  induction specs generalizing i with
  | nil => simp
  | cons spec specs ih =>
    rw [List.foldl_cons, ih, mem_addSpecifier]
    simp only [List.mem_cons, exists_eq_or_imp, or_assoc]

theorem mem_foldl_addExport (xs : List Ident) :
    (d, name) ∈ (xs.foldl (fun i x => i.addExport x.id x.name) i).exports ↔
      (d, name) ∈ i.exports ∨ (d, name) ∈ xs.map fun x => (x.id, x.name) := by
  induction xs generalizing i with
  | nil => simp
  | cons x xs ih =>
    rw [List.foldl_cons, ih, mem_addExport]
    simp only [List.map_cons, List.mem_cons, Prod.mk.injEq, or_assoc]

theorem mem_addNamed {modifiers : Modifiers} {x : Ident} :
    (d, name) ∈ (i.addNamed modifiers x).exports ↔ (d, name) ∈ i.exports ∨
      (modifiers.isExported = true ∧ d = x.id ∧ name = exportNameOf modifiers x.name) := by
  unfold addNamed
  by_cases he : modifiers.isExported = true
  · rw [if_pos he, mem_addExport]
    simp [he]
  · rw [if_neg he]
    simp [he]

@[simp] theorem exports_addFunction (i : Interface) (d : NodeId) :
    (i.addFunction d).exports = i.exports := by
  unfold addFunction
  split <;> rfl

/-- A statement adds what it records, and a local clause what its names record. -/
theorem mem_addStmt {s : Stmt} :
    (d, name) ∈ (i.addStmt t s).exports ↔ (d, name) ∈ i.exports ∨ (d, name) ∈ s.recorded t ∨
      ∃ spec ∈ NameTable.exportedSpecifiers [s], t.specifierIsValue spec = true ∧
        t.valueDeclaration? spec.source = some d ∧ spec.exportedName = name := by
  have hplain : ∀ {s : Stmt}, s.recorded t = [] → NameTable.exportedSpecifiers [s] = [] →
      ((d, name) ∈ i.exports ↔ (d, name) ∈ i.exports ∨ (d, name) ∈ s.recorded t ∨
        ∃ spec ∈ NameTable.exportedSpecifiers [s], t.specifierIsValue spec = true ∧
          t.valueDeclaration? spec.source = some d ∧ spec.exportedName = name) := by
    intro s hr he
    simp [hr, he]
  have hdecl : ∀ {s : Stmt}, NameTable.exportedSpecifiers [s] = [] →
      ((d, name) ∈ i.exports ∨ (d, name) ∈ s.recorded t ↔
        (d, name) ∈ i.exports ∨ (d, name) ∈ s.recorded t ∨
          ∃ spec ∈ NameTable.exportedSpecifiers [s], t.specifierIsValue spec = true ∧
            t.valueDeclaration? spec.source = some d ∧ spec.exportedName = name) := by
    intro s he
    simp [he]
  cases s with
  | importFrom site clause specifier isTypeOnly =>
    have hsame : (i.addStmt t (.importFrom site clause specifier isTypeOnly)).exports =
        i.exports := by
      simp only [addStmt]
      split <;> rfl
    rw [hsame]
    exact hplain rfl rfl
  | importEquals site isExported x kind value =>
    refine Iff.trans ?_ (hdecl rfl)
    cases kind with
    | require =>
      simp only [addStmt, Stmt.recorded, NameTable.importEqualsIsValue, Bool.and_true]
      split <;> simp [mem_addExport, addDependence]
    | entity =>
      simp only [addStmt, Stmt.recorded]
      by_cases he : (isExported && t.importEqualsIsValue .entity value) = true
      · rw [if_pos he, if_pos he]
        simp [mem_addExport]
      · rw [if_neg he, if_neg he]
        simp
  | exportFrom site clause specifier isTypeOnly =>
    cases isTypeOnly with
    | true =>
      refine hplain rfl ?_
      simp [NameTable.exportedSpecifiers]
    | false =>
      cases specifier with
      | some specifier =>
        have hsame : (i.addStmt t (.exportFrom site clause (some specifier) false)).exports =
            i.exports := by
          simp only [addStmt]
          split <;> rfl
        rw [hsame]
        refine hplain rfl ?_
        simp [NameTable.exportedSpecifiers]
      | none =>
        cases clause with
        | none => exact hplain rfl rfl
        | some clause =>
          cases clause with
          | star x => exact hplain rfl rfl
          | named specs =>
            simp only [addStmt, mem_foldl_addSpecifier, Stmt.recorded, List.not_mem_nil, false_or,
              NameTable.exportedSpecifiers, List.flatMap_cons, List.flatMap_nil, List.append_nil]
            refine or_congr Iff.rfl (exists_congr fun spec => ?_)
            rw [List.mem_filter, and_assoc]
            refine and_congr Iff.rfl ?_
            constructor
            · intro h
              have hnot : spec.isTypeOnly = false := by
                have hv := h.1
                simp only [NameTable.specifierIsValue, Bool.and_eq_true] at hv
                simpa using hv.1
              exact ⟨by simp [hnot], h⟩
            · exact And.right
  | exportValue site form value => cases form <;> exact hplain rfl rfl
  | var modifiers list =>
    refine Iff.trans ?_ (hdecl rfl)
    simp only [addStmt, Stmt.recorded]
    split
    · exact mem_foldl_addExport _
    · simp
  | function modifiers f =>
    refine Iff.trans ?_ (hdecl rfl)
    simp only [addStmt, Stmt.recorded]
    cases f.name with
    | none => simp
    | some x =>
      dsimp only
      rw [mem_addNamed, exports_addFunction]
      split <;> simp_all
  | classDecl modifiers c =>
    refine Iff.trans ?_ (hdecl rfl)
    simp only [addStmt, Stmt.recorded]
    cases c.name with
    | none => simp
    | some x =>
      dsimp only
      rw [mem_addNamed]
      split <;> simp_all
  | _ => exact hplain rfl rfl

/-- What the interface of a module records. -/
theorem mem_ofFile {file : SourceFile} :
    (d, name) ∈ (ofFile t file).exports ↔
      (∃ s ∈ file.statements, (d, name) ∈ s.recorded t) ∨
        ∃ spec ∈ NameTable.exportedSpecifiers file.statements, t.specifierIsValue spec = true ∧
          t.valueDeclaration? spec.source = some d ∧ spec.exportedName = name := by
  have hall : ∀ (stmts : List Stmt) (i : Interface),
      (d, name) ∈ (stmts.foldl (addStmt t) i).exports ↔ (d, name) ∈ i.exports ∨
        (∃ s ∈ stmts, (d, name) ∈ s.recorded t) ∨
        ∃ spec ∈ NameTable.exportedSpecifiers stmts, t.specifierIsValue spec = true ∧
          t.valueDeclaration? spec.source = some d ∧ spec.exportedName = name := by
    intro stmts
    induction stmts with
    | nil => simp [NameTable.exportedSpecifiers]
    | cons s stmts ih =>
      intro i
      have happend : NameTable.exportedSpecifiers (s :: stmts) =
          NameTable.exportedSpecifiers [s] ++ NameTable.exportedSpecifiers stmts := by
        simp [NameTable.exportedSpecifiers]
      rw [List.foldl_cons, ih, mem_addStmt, happend]
      simp only [List.mem_cons, List.mem_append, or_and_right, exists_or]
      grind
  rw [ofFile, hall]
  simp

theorem mem_namesOf : name ∈ i.namesOf d ↔ (d, name) ∈ i.exports := by
  simp only [namesOf, List.mem_map, List.mem_filter, beq_iff_eq]
  constructor
  · rintro ⟨⟨d', name'⟩, ⟨hm, rfl⟩, rfl⟩
    exact hm
  · exact fun h => ⟨(d, name), ⟨h, rfl⟩, rfl⟩

/-! ## Each name once -/

theorem nodup_addExport (h : i.exports.Nodup) (d : NodeId) (name : String) :
    (i.addExport d name).exports.Nodup := by
  unfold addExport
  split
  · exact h
  · next hnew =>
    refine List.nodup_append'.mpr ⟨h, List.nodup_singleton _, ?_⟩
    simpa using hnew

theorem nodup_addNamed (h : i.exports.Nodup) (modifiers : Modifiers) (x : Ident) :
    (i.addNamed modifiers x).exports.Nodup := by
  unfold addNamed
  split
  · exact nodup_addExport h _ _
  · exact h

theorem nodup_addSpecifier (h : i.exports.Nodup) (spec : ExportSpecifier) :
    (i.addSpecifier t spec).exports.Nodup := by
  unfold addSpecifier
  split
  · dsimp only
    split
    · exact h
    · refine nodup_addExport ?_ _ _
      exact h
  · exact h

theorem nodup_addStmt (h : i.exports.Nodup) (s : Stmt) : (i.addStmt t s).exports.Nodup := by
  cases s with
  | importFrom site clause specifier isTypeOnly =>
    simp only [addStmt]
    split <;> exact h
  | importEquals site isExported x kind value =>
    cases kind <;> simp only [addStmt] <;> split
    · refine nodup_addExport ?_ _ _
      exact h
    · exact h
    · exact nodup_addExport h _ _
    · exact h
  | exportFrom site clause specifier isTypeOnly =>
    cases isTypeOnly with
    | true => exact h
    | false =>
      cases specifier with
      | some specifier =>
        simp only [addStmt]
        split <;> exact h
      | none =>
        cases clause with
        | none => exact h
        | some clause =>
          cases clause with
          | star x => exact h
          | named specs =>
            exact List.foldlRecOn (motive := fun i : Interface => i.exports.Nodup) specs (addSpecifier t) h
              fun _ h spec _ => nodup_addSpecifier h spec
  | exportValue site form value => cases form <;> exact h
  | var modifiers list =>
    simp only [addStmt]
    split
    · exact List.foldlRecOn (motive := fun i : Interface => i.exports.Nodup) list.boundIdents _ h
        fun _ h x _ => nodup_addExport h _ _
    · exact h
  | function modifiers f =>
    simp only [addStmt]
    split
    · exact h
    · exact nodup_addNamed (by rwa [exports_addFunction]) _ _
  | classDecl modifiers c =>
    simp only [addStmt]
    split
    · exact h
    · exact nodup_addNamed h _ _
  | _ => exact h

theorem nodup_ofFile (t : NameTable) (file : SourceFile) : (ofFile t file).exports.Nodup :=
  List.foldlRecOn (motive := fun i : Interface => i.exports.Nodup) file.statements (addStmt t) List.nodup_nil
    fun _ h s _ => nodup_addStmt h s

theorem nodup_namesOf (h : i.exports.Nodup) (d : NodeId) : (i.namesOf d).Nodup := by
  refine List.Nodup.map_on ?_ (h.filter _)
  rintro ⟨d₁, name⟩ h₁ ⟨d₂, _⟩ h₂ rfl
  have hd₁ := (List.mem_filter.mp h₁).2
  have hd₂ := (List.mem_filter.mp h₂).2
  simp only [beq_iff_eq] at hd₁ hd₂
  rw [hd₁, hd₂]

end Interface
end RegisterForm
