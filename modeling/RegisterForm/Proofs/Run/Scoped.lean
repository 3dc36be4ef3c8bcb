import RegisterForm.Proofs.Export.Everywhere
import RegisterForm.Proofs.Resolve.Parameters
import RegisterForm.Proofs.Run.Agrees
import RegisterForm.Proofs.Run.Fragment
import RegisterForm.Proofs.Script.Holders
/-!
# Names and what they are lowered to

In a module that declares each name once, an identifier is lowered by what its name means in the
scopes around it: a variable of a block is left alone, a variable of the module is published under
the names that it is exported under, and an import is read off the holder of its module.
-/
namespace RegisterForm
open NameTable

variable {file : SourceFile} {options : Options} {x : Ident} {b : Binding} {bs : List Binding}

/-! ## Declarations of the module -/

theorem filter_name (honce : (bs.map (·.ident.name)).Nodup) (hb : b ∈ bs) :
    bs.filter (·.ident.name == b.ident.name) = [b] := by
  induction bs with
  | nil => cases hb
  | cons c bs ih =>
    obtain ⟨hc, hbs⟩ := List.nodup_cons.mp honce
    rcases List.mem_cons.mp hb with rfl | hb
    · have hnone : bs.filter (·.ident.name == b.ident.name) = [] := by
        rw [List.filter_eq_nil_iff]
        intro d hd he
        exact hc (List.mem_map.mpr ⟨d, hd, by simpa using he⟩)
      rw [List.filter_cons_of_pos (by simp), hnone]
    · have hne : c.ident.name ≠ b.ident.name := fun he =>
        hc (List.mem_map.mpr ⟨b, hb, he.symm⟩)
      rw [List.filter_cons_of_neg (by simpa using hne), ih hbs hb]

theorem SourceFile.binding?_eq (honce : (file.bindings.map (·.ident.name)).Nodup)
    (hb : b ∈ file.bindings) : file.binding? b.ident.name = some b := by
  rw [binding?, ← List.head?_filter, filter_name honce hb]
  rfl

theorem SourceFile.mem_of_binding? {name : String} (h : file.binding? name = some b) :
    b ∈ file.bindings ∧ b.ident.name = name :=
  ⟨List.mem_of_find?_eq_some h, by simpa using List.find?_some h⟩

/-- Only imports have an origin in another module. -/
theorem Stmt.origin_of_not_import {s : Stmt} (hb : b ∈ s.moduleBindings)
    (h : b.roles.isImport = false) (hs : AllInner s.visits.tail) : b.origin = none := by
  rcases List.mem_append.mp hb with hb | hb
  · exact Stmt.origin_varBindings hs hb
  · cases s with
    | var modifiers list => exact VarList.origin_eq_none (.inr hb)
    | function modifiers f => exact origin_bindingsOf hb
    | classDecl modifiers c => exact origin_bindingsOf hb
    | ambient name isExported => exact origin_bindingsOf hb
    | importEquals site isExported name kind value =>
      rw [List.mem_singleton.mp hb] at h
      cases h
    | importFrom site clause specifier isTypeOnly =>
      obtain ⟨c, -, hb⟩ := List.mem_flatMap.mp (show b ∈ clause.toList.flatMap _ from hb)
      rcases List.mem_append.mp hb with hb | hb
      · obtain ⟨y, -, rfl⟩ := List.mem_map.mp hb
        cases h
      · split at hb
        · cases hb
        · rw [List.mem_singleton.mp hb] at h
          cases h
        · obtain ⟨spec, -, rfl⟩ := List.mem_map.mp hb
          cases h
    | _ => cases hb

theorem SourceFile.mem_variableNames {name : String} (h : name ∈ file.variableNames) :
    ∃ b ∈ file.bindings, b.ident.name = name ∧ b.roles.isImport = false := by
  obtain ⟨b, hb, rfl⟩ := List.mem_map.mp h
  obtain ⟨hb, himport⟩ := List.mem_filter.mp hb
  exact ⟨b, hb, rfl, by simpa using himport⟩

theorem SourceFile.importOrigin?_of_variable (hf : file.IsFlat) (hb : b ∈ file.bindings)
    (h : b.roles.isImport = false) : b.importOrigin? = none := by
  obtain ⟨s, hs, hb⟩ := SourceFile.mem_bindings.mp hb
  rw [Binding.importOrigin?, Stmt.origin_of_not_import hb h (hf s hs), ite_self]

/-- The symbol of a name that the module declares once is made by its declaration. -/
theorem symbolOf?_binding (hw : file.WellNumbered)
    (honce : (file.bindings.map (·.ident.name)).Nodup) (hb : b ∈ file.bindings) :
    ∃ isNamed, (ofFile file).symbolOf? b.ident = some ((Symbol.declared 0 b).marked isNamed) := by
  have hreal := hw.not_synthetic (SourceFile.ident_mem_visits hb)
  have hfor := symbolFor_of_unique (k := 0) (filter_name honce hb)
  rw [← (declared_holds hw).symbol] at hfor
  obtain ⟨id, hlook, hdeclared⟩ := Option.bind_eq_some_iff.mp hfor
  obtain ⟨s, hread, -, -, -, hsame⟩ := (readThrough_within file).symbol hdeclared
  obtain rfl := hsame Nat.zero_lt_one
  have hident : (ofFile file).ofIdent.lookup b.ident.id = some id := by
    rw [lookup_of_binding hw hb, ofFile_lookupIn, hlook]
  exact ⟨_, symbolOf?_of_lookup hreal hident (by rw [ofFile_symbol, hread]; rfl)⟩

theorem importOf?_binding (hw : file.WellNumbered)
    (honce : (file.bindings.map (·.ident.name)).Nodup) (hb : b ∈ file.bindings) :
    (ofFile file).importOf? b.ident = b.importOrigin? := by
  obtain ⟨isNamed, hs⟩ := symbolOf?_binding hw honce hb
  have htype : ((Symbol.declared 0 b).marked isNamed).roles.isTypeOnly = b.roles.isTypeOnly := by
    unfold Symbol.marked
    split <;> rfl
  rw [importOf?, hs, Option.bind_some, htype, Symbol.marked_origin]
  rfl

/-! ## Identifiers -/

/-- The names that some scopes declare. -/
def Scopes.names (scopes : Scopes) : List (List String) := scopes.map (·.map (·.ident.name))

/-- What the blocks around a reference declare is not declared by the module. -/
theorem SourceFile.blocks_apart (hw : file.WellNumbered) {u : NameUse} (hu : u ∈ file.uses)
    (hdepth : u.depth ≤ maxTreeDepth) {blocks : Scopes}
    (hscopes : u.scopes = blocks ++ [file.bindings]) {cs : List Binding} (hcs : cs ∈ blocks)
    {c : Binding} (hc : c ∈ cs) (hb : b ∈ file.bindings) : b.ident.id ≠ c.ident.id := by
  have htrace : (u.ident, u.scopes) ∈
      BindStep.trace (stmtsBindSteps file.statements 0) [⟨.module, file.bindings⟩] :=
    (follows_stmts file.statements).traced hu hdepth
  rw [(follows_stmts file.statements).relative] at htrace
  obtain ⟨⟨y, inner⟩, hinner, he⟩ := List.mem_map.mp htrace
  obtain ⟨rfl, hsame⟩ := Prod.mk.inj he
  obtain rfl : inner = blocks := List.append_cancel_right (hsame.trans hscopes)
  have hdeclared : c.ident ∈ BindStep.declared (stmtsBindSteps file.statements 0) :=
    (BindStep.declared_of_mem_trace hinner hcs hc).resolve_right fun ⟨_, hf, _⟩ => by cases hf
  exact fun he => binding_not_declared hw hb (he ▸ List.mem_map_of_mem hdeclared)

/-- What the table tells of an identifier is what the scopes around it tell. -/
structure Setting.Tells (s : Setting) (scopes : List (List String)) (x : Ident) : Prop where
  real : x.id.isSynthetic = false
  inner : x.name ∈ scopes.flatten → s.names.importOf? x = none ∧ s.exportNames x = []
  outer : x.name ∉ scopes.flatten → ∀ b, s.file.binding? x.name = some b →
    s.names.importOf? x = b.importOrigin? ∧ s.exportNames x = s.exportNames b.ident

/-- The export names of an identifier are those of its symbol. -/
theorem Setting.exportNames_congr {s : Setting} {x y : Ident}
    (hsymbol : s.names.symbolOf? x = s.names.symbolOf? y)
    (hsynthetic : x.id.isSynthetic = y.id.isSynthetic) (hname : x.name = y.name) :
    s.exportNames x = s.exportNames y := by
  unfold exportNames exporterOf? importOf? valueDeclaration?
  rw [hsymbol, hsynthetic, hname]

/-- What no declaration of the module declares is neither imported nor exported. -/
theorem plain_of_declaration (hw : file.WellNumbered) (hf : file.IsFlat) {s : Symbol}
    (hs : (ofFile file).symbolOf? x = some s)
    (hd : ∀ b ∈ file.bindings, b.ident.id ≠ s.declaration) :
    (ofFile file).importOf? x = none ∧ (ofFile file).exporterOf? x = none := by
  obtain ⟨-, id, -, hid⟩ := symbolOf?_eq_some hs
  have hscope : s.scope ≠ 0 := fun h₀ => by
    obtain ⟨b, hb, -, hdecl⟩ := declaration_of_module hw hid h₀
    exact hd b hb hdecl.symm
  obtain ⟨hexported, horigin⟩ := plain_of_inner hw hf hid hscope
  simp [importOf?, exporterOf?, hs, hexported, horigin]

theorem Scopes.find?_isSome_iff {scopes : Scopes} {name : String} :
    (scopes.find? name).isSome = true ↔ name ∈ scopes.names.flatten := by
  rw [find?, List.findSome?_isSome_iff, names, ← List.flatMap_def, List.mem_flatMap]
  simp

theorem SourceFile.ident_mem_of_use {u : NameUse} (hu : u ∈ file.uses) :
    u.ident ∈ identsIn file.visits := by
  have hcount := file.count_declared u.ident
  have huse : 0 < (file.uses.map (·.ident)).count u.ident :=
    List.count_pos_iff.mpr (List.mem_map_of_mem hu)
  exact List.count_pos_iff.mp (by omega)

/-- Of a reference that the binder reaches, the table tells what the scopes tell. -/
theorem tells_of_use (hw : file.WellNumbered) (hf : file.IsFlat)
    (honce : (file.bindings.map (·.ident.name)).Nodup) {u : NameUse} (hu : u ∈ file.uses)
    (hreached : u.depth ≤ maxTreeDepth ∨ (ofFile file).symbolOf? u.ident ≠ none) {blocks : Scopes}
    (hscopes : u.scopes = blocks ++ [file.bindings]) :
    (Setting.ofFile options (ofFile file) file).1.Tells blocks.names u.ident := by
  have hdepth : u.depth ≤ maxTreeDepth := by
    rcases hreached with h | h
    · exact h
    · by_contra hdeep
      exact h (symbolOf?_of_tooDeep hw hu (Nat.lt_of_not_le hdeep))
  have hmeans := (readThrough_means hw hu hdepth).symbolOf hw
  have hfind : u.scopes.find? u.ident.name =
      (blocks.find? u.ident.name).or (file.binding? u.ident.name) := by
    rw [hscopes, Scopes.find?, List.findSome?_append]
    congr 1
    simp [SourceFile.binding?]
  refine ⟨hw.not_synthetic (SourceFile.ident_mem_of_use hu), fun hin => ?_, fun hout b hb => ?_⟩
  · obtain ⟨c, hc⟩ := Option.isSome_iff_exists.mp (Scopes.find?_isSome_iff.mpr hin)
    rw [hfind, hc, Option.some_or] at hmeans
    obtain ⟨s, hs, -, -, hdecl⟩ := hmeans
    obtain ⟨cs, hcs, hfound⟩ := List.exists_of_findSome?_eq_some hc
    obtain ⟨himport, hexporter⟩ := plain_of_declaration hw hf hs fun b hb => by
      rw [hdecl]
      exact SourceFile.blocks_apart hw hu hdepth hscopes hcs (List.mem_of_find?_eq_some hfound) hb
    have hexporter' : (Setting.ofFile options (ofFile file) file).1.names.exporterOf? u.ident =
        none := hexporter
    exact ⟨himport, if_pos (by simp [hexporter'])⟩
  · have hnone : blocks.find? u.ident.name = none := by
      rw [← Option.not_isSome_iff_eq_none, Scopes.find?_isSome_iff]
      exact hout
    have hb' : file.binding? u.ident.name = some b := hb
    obtain ⟨hmem, hname⟩ := SourceFile.mem_of_binding? hb'
    rw [hfind, hnone, Option.none_or, hb'] at hmeans
    obtain ⟨s, hs, hsb, -, -⟩ := hmeans
    have himport : (ofFile file).importOf? u.ident = (ofFile file).importOf? b.ident := by
      rw [importOf?, importOf?, hs, hsb]
    refine ⟨himport.trans (importOf?_binding hw honce hmem),
      Setting.exportNames_congr (hs.trans hsb.symm) ?_ hname.symm⟩
    rw [(symbolOf?_eq_some hs).1, (symbolOf?_eq_some hsb).1]

/-- Where a declaration of the module is not hidden, the table tells what it declares. -/
theorem tells_of_binding (hw : file.WellNumbered)
    (honce : (file.bindings.map (·.ident.name)).Nodup) (hb : b ∈ file.bindings)
    {scopes : List (List String)} (hout : b.ident.name ∉ scopes.flatten) :
    (Setting.ofFile options (ofFile file) file).1.Tells scopes b.ident where
  real := hw.not_synthetic (SourceFile.ident_mem_visits hb)
  inner hin := absurd hin hout
  outer _ c hc := by
    have hfound : file.binding? b.ident.name = some b := SourceFile.binding?_eq honce hb
    obtain rfl : b = c := Option.some.inj (hfound.symm.trans hc)
    exact ⟨importOf?_binding hw honce hb, rfl⟩

end RegisterForm
