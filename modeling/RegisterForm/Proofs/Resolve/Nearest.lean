import Mathlib.Data.List.Perm.Subperm
import RegisterForm.Scope.Query
import RegisterForm.Proofs.Resolve.Frames
import RegisterForm.Proofs.Resolve.Tree
/-!
# The nearest declaration

In the table of a file, a reference stands for what its name means in the scopes around it: for
the symbol that the innermost scope with a declaration of the name holds, wherever in that scope
the declaration stands, and for nothing if there is none.
-/
namespace RegisterForm
open BindStep

/-- Identifiers that are told apart are so when each is taken at most as often. -/
theorem nodup_of_count {xs ys : List Ident} (h : (ys.map (·.id)).Nodup)
    (hx : ∀ x, xs.count x ≤ ys.count x) : (xs.map (·.id)).Nodup := by
  obtain ⟨zs, hperm, hsub⟩ := List.subperm_ext_iff.mpr fun x _ => hx x
  exact (hperm.map _).nodup_iff.mp (h.sublist (hsub.map _))

namespace SourceFile
variable {file : SourceFile}

/-- The references of a file outside its parameter lists. -/
def uses (file : SourceFile) : List NameUse := stmtsUses file.statements [file.bindings] 0

/-- What the steps of a file declare, and its references, are identifiers of the file, none twice. -/
theorem count_declared (file : SourceFile) (x : Ident) :
    (declared file.bindSteps).count x + (file.uses.map (·.ident)).count x ≤
      (identsIn file.visits).count x := by
  have hcount := (follows_stmts file.statements).counted [file.bindings] 0 x
  simp only [bindSteps, declared_cons, declaringBody, declared_append, declared_declaring,
    declared_declaringVars, BindStep.binding?, Option.toList_none, List.map_nil, List.nil_append,
    List.count_append, List.map_append] at hcount ⊢
  have huses : file.uses = stmtsUses file.statements [file.bindings] 0 := rfl
  have hvisits : file.visits = stmtsVisits file.statements := rfl
  rw [huses, hvisits]
  omega

/-- What the steps of a file resolve, and its references that are too deep for it, are identifiers
of the file, none twice. -/
theorem count_resolved (file : SourceFile) (x : Ident) :
    (resolved file.bindSteps).count x + (tooDeep file.uses).count x ≤
      (identsIn file.visits).count x := by
  have hcount := (follows_stmts file.statements).once [file.bindings] x (Nat.zero_le _)
  have huses : file.uses = stmtsUses file.statements [file.bindings] 0 := rfl
  have hvisits : file.visits = stmtsVisits file.statements := rfl
  rw [huses, hvisits]
  simpa [bindSteps, declaringBody, BindStep.resolved?] using hcount

/-- Identifiers of the file, none counted more often than it stands there, are told apart. -/
theorem WellNumbered.nodup_of_count (h : file.WellNumbered) {xs : List Ident}
    (hx : ∀ x, xs.count x ≤ (identsIn file.visits).count x) : (xs.map (·.id)).Nodup :=
  RegisterForm.nodup_of_count h.identIds hx

theorem WellNumbered.declared_uses (h : file.WellNumbered) :
    ((declared file.bindSteps ++ file.uses.map (·.ident)).map (·.id)).Nodup :=
  h.nodup_of_count fun x => by
    rw [List.count_append]
    exact file.count_declared x

end SourceFile

namespace NameTable
variable {file : SourceFile}

theorem runAll_steps (file : SourceFile) :
    runAll file.bindSteps { file := some file.id } = readThrough file := by
  have hfill : runAll (declaringBody true file.statements)
      (({ file := some file.id } : NameTable).enter .module) = declared file := by
    rw [← declareBody_module, declareBody, declaringBody, runAll_append, runAll_declaring,
      runAll_declaringVars]
  have hdepth : (declared file).depth = 0 := by
    rw [← hfill, depth_runAll]
    rfl
  rw [SourceFile.bindSteps, runAll_cons, runAll_append]
  change runAll _ (runAll _ (({ file := some file.id } : NameTable).enter .module)) = _
  rw [hfill, readThrough, (follows_stmts file.statements).bind, hdepth]

theorem readThrough_eq (file : SourceFile) :
    readThrough file = runAll (stmtsBindSteps file.statements 0) (declared file) := by
  have hdepth : (declared file).depth = 0 := (declared_within file).depth
  rw [readThrough, (follows_stmts file.statements).bind, hdepth]

theorem readThrough_means (hw : file.WellNumbered) {u : NameUse} (hu : u ∈ file.uses)
    (hd : u.depth ≤ maxTreeDepth) : (readThrough file).Means u.ident u.scopes := by
  have hstart : ({ file := some file.id } : NameTable).Mirrors [] := ⟨wf_empty _, .nil⟩
  have hnodup := hw.declared_uses
  rw [List.map_append] at hnodup
  have htrace : (u.ident, u.scopes) ∈ trace file.bindSteps [] := by
    have hopen : framesAfter (declaringBody true file.statements) [⟨.module, []⟩] =
        [⟨.module, file.bindings⟩] := by
      simp only [declaringBody, framesAfter_append, framesAfter_declaring,
        framesAfter_declaringVars _ _ _ .module rfl]
      rfl
    have hmem : (u.ident, u.scopes) ∈
        trace (stmtsBindSteps file.statements 0) [⟨.module, file.bindings⟩] :=
      (follows_stmts file.statements).traced hu hd
    simp only [SourceFile.bindSteps, trace, trace_append, BindStep.frames, hopen, List.mem_append]
    exact .inr (.inr hmem)
  rw [← runAll_steps]
  refine hstart.means (fun f hf => by cases hf) hnodup.of_append_left
    (hw.nodup_of_count fun x => Nat.le_of_add_right_le (file.count_resolved x)) htrace (fun hm => ?_) rfl
  exact List.disjoint_of_nodup_append hnodup hm
    (List.mem_map_of_mem (List.mem_map_of_mem hu))

/-- Only identifiers of the file stand for something. -/
theorem not_synthetic_of_lookup (hw : file.WellNumbered) {y : NodeId} {id : SymbolId}
    (hl : (readThrough file).ofIdent.lookup y = some id) : y.isSynthetic = false := by
  have hall := (declared_within file).trans
    ((readThrough_within file).mono (Nat.zero_le _) (List.Subset.refl _) fun h => h)
  have hmem : (y, id) ∈ (readThrough file).ofIdent := by
    obtain ⟨l₁, l₂, heq, -⟩ := List.lookup_eq_some_iff.mp hl
    simp [heq]
  rcases hall.entry hmem with hnone | ⟨x, hx, hid, -⟩
  · simp [enter] at hnone
  · rw [← show x.id = y from hid]
    exact hw.not_synthetic (by simpa using hx)

/-- A meaning that the table of names keeps to the end. -/
theorem Means.symbolOf (hw : file.WellNumbered) {x : Ident} {scopes : Scopes}
    (hmeans : (readThrough file).Means x scopes) :
    match scopes.find? x.name with
    | none => (ofFile file).symbolOf? x = none
    | some b => ∃ s, (ofFile file).symbolOf? x = some s ∧
        (ofFile file).symbolOf? b.ident = some s ∧ s.name = x.name ∧
        s.declaration = b.ident.id := by
  unfold Means at hmeans
  cases hfind : scopes.find? x.name with
  | none =>
    rw [hfind] at hmeans
    simp [symbolOf?, ofFile_ofIdent, hmeans]
  | some b =>
    rw [hfind] at hmeans
    obtain ⟨id, hid, hnames⟩ := hmeans
    obtain ⟨s, hs, hname, hdecl⟩ := hnames.symbol
    obtain ⟨s', hs', hname', hdecl'⟩ : ∃ s', (ofFile file).symbol? id = some s' ∧
        s'.name = s.name ∧ s'.declaration = s.declaration :=
      ⟨_, by rw [ofFile_symbol, hs]; rfl, by simp, by simp⟩
    have hstands : ∀ y : Ident, (readThrough file).ofIdent.lookup y.id = some id →
        (ofFile file).symbolOf? y = some s' := by
      intro y hy
      simp [symbolOf?, ofFile_ofIdent, not_synthetic_of_lookup hw hy, hy, hs']
    have hb : b.ident.name = x.name := by
      obtain ⟨bs, -, hb⟩ := List.exists_of_findSome?_eq_some hfind
      simpa using List.find?_some hb
    exact ⟨s', hstands _ hid, hstands _ hnames.ident, (hname'.trans hname).trans hb,
      hdecl'.trans hdecl⟩

/-- A reference that is too deep stands for nothing. -/
theorem symbolOf?_of_tooDeep (hw : file.WellNumbered) {u : NameUse} (hu : u ∈ file.uses)
    (hd : maxTreeDepth < u.depth) : (ofFile file).symbolOf? u.ident = none := by
  have hdeep : u.ident ∈ tooDeep file.uses :=
    List.mem_map_of_mem (List.mem_filter.mpr ⟨hu, by simpa using hd⟩)
  have hdeclared : u.ident.id ∉ (BindStep.declared file.bindSteps).map (·.id) := by
    have hnodup := hw.declared_uses
    rw [List.map_append] at hnodup
    exact fun hm => List.disjoint_of_nodup_append hnodup hm
      (List.mem_map_of_mem (List.mem_map_of_mem hu))
  have hresolved : u.ident.id ∉ (BindStep.resolved file.bindSteps).map (·.id) := by
    have hnodup : ((BindStep.resolved file.bindSteps ++ tooDeep file.uses).map (·.id)).Nodup :=
      hw.nodup_of_count fun x => by
        rw [List.count_append]
        exact file.count_resolved x
    rw [List.map_append] at hnodup
    exact fun hm => List.disjoint_of_nodup_append hnodup hm (List.mem_map_of_mem hdeep)
  have hlook : (ofFile file).ofIdent.lookup u.ident.id = none := by
    rw [ofFile_ofIdent, ← runAll_steps, lookup_runAll_of_untouched _ _ hdeclared hresolved]
    rfl
  simp [symbolOf?, hlook]

/-- What the module declares is not declared again while its statements are read. -/
theorem binding_not_declared (hw : file.WellNumbered) {b : Binding} (hb : b ∈ file.bindings) :
    b.ident.id ∉ (BindStep.declared (stmtsBindSteps file.statements 0)).map (·.id) := by
  intro hm
  have hnodup := hw.declared_uses
  rw [List.map_append, SourceFile.bindSteps, declared_cons, declared_append] at hnodup
  have hfirst : b.ident ∈ BindStep.declared (declaringBody true file.statements) := by
    rw [declaringBody, declared_append, declared_declaring, declared_declaringVars,
      ← List.map_append]
    exact List.mem_map_of_mem hb
  have hboth := hnodup.of_append_left
  rw [List.map_append, List.map_append] at hboth
  exact List.disjoint_of_nodup_append hboth.of_append_right (List.mem_map_of_mem hfirst) hm

/-- What the module declares stands for what its scope holds. -/
theorem lookup_of_binding (hw : file.WellNumbered) {b : Binding} (hb : b ∈ file.bindings) :
    (ofFile file).ofIdent.lookup b.ident.id = (ofFile file).lookupIn 0 b.ident.name := by
  have hheld := (declared_holds hw).ident b hb
  rw [ofFile_lookupIn, ofFile_ofIdent, readThrough_eq, ← hheld]
  refine lookup_runAll_of_isSome _ _ (binding_not_declared hw hb) ?_
  rw [hheld, (declared_holds hw).lookupIn_isSome]
  exact List.any_eq_true.mpr ⟨b, hb, by simp⟩

/-- **Nearest declaration.** A reference stands for the symbol that the innermost scope around it
with a declaration of its name holds, and for none exactly if no scope around it has one. -/
theorem ofFile_nearest (hw : file.WellNumbered) {u : NameUse} (hu : u ∈ file.uses)
    (hd : u.depth ≤ maxTreeDepth) :
    match u.scopes.find? u.ident.name with
    | none => (ofFile file).symbolOf? u.ident = none
    | some b => ∃ s, (ofFile file).symbolOf? u.ident = some s ∧
        (ofFile file).symbolOf? b.ident = some s ∧ s.name = u.ident.name ∧
        s.declaration = b.ident.id :=
  (readThrough_means hw hu hd).symbolOf hw

end NameTable

/-- `f(); { f(); function f() { x; } var x; }` -/
def calledEarly : SourceFile where
  id := .numbered 20
  name := "m.ts"
  statements := [
    .expr (.call (.ident ⟨.numbered 0, "f"⟩) [] false),
    .block [
      .expr (.call (.ident ⟨.numbered 1, "f"⟩) [] false),
      .function {} ⟨some ⟨.numbered 2, "f"⟩, [], [.expr (.ident ⟨.numbered 3, "x"⟩)], false, false⟩,
      .var {} ⟨.var, [⟨.ident ⟨.numbered 4, "x"⟩, none⟩]⟩]]

theorem calledEarly_wellNumbered : calledEarly.WellNumbered := ⟨by decide, by decide⟩

/-- The call in the block, which sees the block's function and the module's variable. -/
def earlyCall : NameUse where
  ident := ⟨.numbered 1, "f"⟩
  scopes := [[⟨⟨.numbered 2, "f"⟩, { isFunction := true }, none⟩],
    [⟨⟨.numbered 4, "x"⟩, { isVariable := true }, none⟩]]
  depth := 4

theorem earlyCall_mem : earlyCall ∈ calledEarly.uses := List.mem_of_getElem? (i := 1) rfl

/-- The function is called before it is declared. -/
theorem ofFile_nearest_calledEarly : earlyCall ∈ calledEarly.uses ∧ ∃ s,
    (NameTable.ofFile calledEarly).symbolOf? ⟨.numbered 1, "f"⟩ = some s ∧
      (NameTable.ofFile calledEarly).symbolOf? ⟨.numbered 2, "f"⟩ = some s ∧ s.name = "f" ∧
      s.declaration = .numbered 2 :=
  ⟨earlyCall_mem, NameTable.ofFile_nearest calledEarly_wellNumbered earlyCall_mem (by decide)⟩

/-- `try {} catch ({ a: a = d }) { let d; }` -/
def catchFallback : SourceFile where
  id := .numbered 20
  name := "m.ts"
  statements := [.tryCatch []
    (some ⟨some (.object [.keyed (.name "a") (.ident ⟨.numbered 0, "a"⟩)
      (some (.ident ⟨.numbered 1, "d"⟩))] none),
      [.var {} ⟨.let, [⟨.ident ⟨.numbered 2, "d"⟩, none⟩]⟩]⟩) none]

/-- What the clause's parameter and the clause's body declare together. -/
def catchScope : List Binding :=
  [⟨⟨.numbered 0, "a"⟩, { isCaught := true }, none⟩,
    ⟨⟨.numbered 2, "d"⟩, { isLexical := true }, none⟩]

/-- A fallback in the parameter of a clause does not see what the clause's body declares, although
that belongs to the same scope. -/
theorem catch_parameter_misses_body :
    catchFallback.WellNumbered ∧
      (NameTable.ofFile catchFallback).scopes.toList.map (·.kind) = [.module, .block, .catch] ∧
      (catchScope.map fun b => ((NameTable.ofFile catchFallback).symbolOf? b.ident).map (·.scope)) =
        [some 2, some 2] ∧
      Scopes.find? [catchScope, catchFallback.bindings] "d" =
        some ⟨⟨.numbered 2, "d"⟩, { isLexical := true }, none⟩ ∧
      (NameTable.ofFile catchFallback).symbolOf? ⟨.numbered 1, "d"⟩ = none :=
  ⟨⟨by decide, by decide⟩, rfl, rfl, rfl, rfl⟩

end RegisterForm
