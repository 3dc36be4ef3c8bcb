import RegisterForm.Proofs.Fresh.Module
/-!
# Hygiene

While fewer names are in use than are tried for one, no name that is made up for a module is made
up twice, and none occurs in the file, be it as an identifier, a property, a label or the name of
an import or export. So a binding that the module did not have captures nothing.
-/
namespace RegisterForm
open Lowering Vocabulary

/-- Every text of a file that names something. -/
def SourceFile.texts (file : SourceFile) : List String := file.visits.filterMap Visit.text?

theorem SourceFile.isUsed_iff (file : SourceFile) (name : String) :
    (Hoisting.ofFile file).supply.isUsed name = true ↔ name ∈ file.texts := by
  change file.names.contains name = true ↔ _
  rw [SourceFile.names, Std.TreeSet.contains_ofList, List.contains_iff_mem]
  rfl

/-- An identifier of a file is one of its texts. -/
theorem SourceFile.mem_texts {file : SourceFile} {x : Ident} (h : x ∈ identsIn file.visits) :
    x.name ∈ file.texts := by
  obtain ⟨v, hv, hx⟩ := List.mem_filterMap.mp h
  refine List.mem_filterMap.mpr ⟨v, hv, ?_⟩
  cases v with
  | ident y =>
    cases hx
    rfl
  | _ => cases hx

/-- The names in use once a file is lowered. -/
def supplyAfter (options : Options) (names : NameTable) (file : SourceFile) :
    Except LowerError NameSupply := do
  let (s, hoisting) := Setting.ofFile options names file
  let groups ← Dependency.group file s.interface.dependences
  let (_, p) ← (lowerStmts s .topLevel file.statements).run { hoisting }
  return (s.setterPart groups p).2.supply

/-! ## Names by their use -/

/-- The names that are made up for a module, by what they are for. -/
structure Generated where
  exporter : String
  context : String
  /-- The variables that hold the modules of statements with no name for their module. -/
  holders : List String
  /-- The temporaries, and the names of functions and classes exported without one. -/
  inner : List String
  /-- The helper for star exports, and the names that it leaves out. -/
  stars : List String
  /-- The parameters of the setters. -/
  parameters : List String

namespace Generated

def names (g : Generated) : List String :=
  g.exporter :: g.context :: (g.holders ++ g.inner ++ g.stars ++ g.parameters)

theorem mem_names {g : Generated} {name : String} : name ∈ g.names ↔
    name = g.exporter ∨ name = g.context ∨ name ∈ g.holders ∨ name ∈ g.inner ∨ name ∈ g.stars ∨
      name ∈ g.parameters := by
  simp [names]

variable {options : Options} {t : NameTable} {file : SourceFile}

/-- The names are those of a lowered module. -/
structure Of (g : Generated) (options : Options) (t : NameTable) (file : SourceFile)
    (lowered : Lowered) : Prop where
  function : ∃ f, lowered.statement.factory? = some f ∧
    f.params = [.ofName g.exporter, .ofName g.context]
  holders : List.Forall₂
    (fun d name => (d.site.id, name) ∈ (Setting.ofFile options t file).1.holders)
    ((Interface.ofFile t file).dependences.filter (·.isDerived)) g.holders
  /-- All that the supply gives out for the statements, for the helpers and for the setters. -/
  run : ∃ groups execute p,
    Dependency.group file (Interface.ofFile t file).dependences = .ok groups ∧
      lowered = (Setting.ofFile options t file).1.assemble groups execute p ∧
      (lowerStmts (Setting.ofFile options t file).1 .topLevel file.statements).run
        { hoisting := (Setting.ofFile options t file).2 } = .ok (execute, p) ∧
      (Setting.ofFile options t file).2.supply.Gives g.inner p.hoisting.supply ∧
      ((Setting.ofFile options t file).1.starPart groups p).2.1.filterMap Stmt.declaredName? =
        g.stars
  parameters : ∃ setters, lowered.setters? = some setters ∧
    (setters.flatMap Expr.parameterNames).Sublist g.parameters

end Generated

/-! ## One supply -/

section run
variable {options : Options} {t : NameTable} {file : SourceFile} {lowered : Lowered}
  {execute : List Stmt} {p : Progress}

/-- What is in use when the statements are lowered is in use at the end. -/
theorem gives_supplyAfter {supply : NameSupply} (h : supplyAfter options t file = .ok supply)
    (hrun : (lowerStmts (Setting.ofFile options t file).1 .topLevel file.statements).run
      { hoisting := (Setting.ofFile options t file).2 } = .ok (execute, p)) :
    ∃ names, p.hoisting.supply.Gives names supply := by
  unfold supplyAfter at h
  simp only [bind, Except.bind, hrun] at h
  split at h
  · cases h
  · next groups _ =>
    cases h
    have hstars := StarExport.gives_define (Setting.ofFile options t file).1 p.exportedNames groups
      p.hoisting.pop.2
    rw [Hoisting.supply_pop] at hstars
    obtain ⟨parameters, hparameters, -⟩ := Setting.gives_setters
      (Setting.ofFile options t file).1
      ((Setting.ofFile options t file).1.starPart groups p).1 groups
      ((Setting.ofFile options t file).1.starPart groups p).2.2
    exact ⟨_, hstars.append hparameters⟩

/-- Before the statements are lowered, the supply has given out the parameters of the registered
function and the holders. A holder that is not made up is a text of the file. -/
theorem gives_setting (options : Options) (t : NameTable) (file : SourceFile) : ∃ holders,
    (Hoisting.ofFile file).supply.Gives
        ((Setting.ofFile options t file).1.exporter ::
          (Setting.ofFile options t file).1.context :: holders)
        (Setting.ofFile options t file).2.supply ∧
      List.Forall₂ (fun d name => (d.site.id, name) ∈ (Setting.ofFile options t file).1.holders)
        ((Interface.ofFile t file).dependences.filter (·.isDerived)) holders ∧
      ∀ declaration holder,
        (Setting.ofFile options t file).1.holders.lookup declaration = some holder →
          holder ∈ holders ∨ holder ∈ file.texts := by
  obtain ⟨holders, hholders, hderived, hentries⟩ := holdersOf_gives
    (Interface.ofFile t file).dependences
    (((Hoisting.ofFile file).unique "exports").2.unique "context").2.push
  refine ⟨holders, .unique "exports" (.unique "context" hholders), hderived, ?_⟩
  intro declaration holder hlookup
  obtain ⟨before, after, hmem, -⟩ := List.lookup_eq_some_iff.mp hlookup
  have hentry : (declaration, holder) ∈ (Setting.ofFile options t file).1.holders := by
    rw [hmem]
    exact List.mem_append_right _ (List.mem_cons_self ..)
  refine (hentries _ hentry).imp_right fun ⟨d, hd, hown⟩ => ?_
  obtain ⟨x, hx, rfl⟩ := Option.map_eq_some_iff.mp hown
  rw [Interface.dependences_ofFile] at hd
  obtain ⟨st, hst, hdepends⟩ := List.mem_filterMap.mp hd
  have hmem := Stmt.mem_of_ownHolder? hdepends hx
  exact SourceFile.mem_texts (identsIn_subset (stmt_visits_subset hst) hmem)

/-- All names come from the supply that avoids the names of the file, and a holder that is not made
up is a text of the file. -/
theorem exists_generated (h : lower options t file = .ok lowered) :
    ∃ (g : Generated) (supply : NameSupply), g.Of options t file lowered ∧
      supplyAfter options t file = .ok supply ∧
      (Hoisting.ofFile file).supply.Gives g.names supply ∧
      ∀ declaration holder,
        (Setting.ofFile options t file).1.holders.lookup declaration = some holder →
          holder ∈ g.holders ∨ holder ∈ file.texts := by
  obtain ⟨groups, execute, p, hgroups, hrun, rfl⟩ := lower_parts h
  obtain ⟨holders, hholders, hderived, hheld⟩ := gives_setting options t file
  obtain ⟨inner, hinner⟩ := (lowerStmts_leads hrun).gives
  have hstars := StarExport.gives_define (Setting.ofFile options t file).1 p.exportedNames groups
    p.hoisting.pop.2
  rw [Hoisting.supply_pop] at hstars
  obtain ⟨parameters, hparameters, hsublist⟩ := Setting.gives_setters
    (Setting.ofFile options t file).1
    ((Setting.ofFile options t file).1.starPart groups p).1 groups
    ((Setting.ofFile options t file).1.starPart groups p).2.2
  refine ⟨⟨_, _, holders, inner, _, parameters⟩,
    ((Setting.ofFile options t file).1.setterPart groups p).2.supply, ⟨⟨_, Setting.factory?_assemble _ _ _ _, rfl⟩,
    hderived, ⟨groups, execute, p, hgroups, rfl, hrun, hinner, rfl⟩,
    ⟨_, Setting.setters?_assemble _ _ _ _, hsublist⟩⟩, ?_, ?_, hheld⟩
  · unfold supplyAfter
    simp only [hgroups, hrun, bind, Except.bind]
    rfl
  · exact ((hholders.append hinner).append hstars).append hparameters

end run

/-! ## Fixed names -/

/-- The variable at the start of a path. -/
def pathHead (path : String) : String := String.ofList (Text.split '.' path.toList).1

/-- The names that are the same for every module: those that the helpers are written with, and the
object that modules are registered with. -/
def fixedNames (options : Options) : List String :=
  pathHead options.registerFunction :: helperGlobal :: restName :: helperLocals

theorem Vocabulary.covers_ofPath {V : Vocabulary} (path : String) :
    V.Covers (Expr.ofPath path).visits ↔ V.mentions (pathHead path) := by
  have hparts : ∀ (parts : List (List Char)) (e : Expr),
      V.Covers (parts.foldl (fun e part => e.dot (String.ofList part)) e).visits ↔
        V.Covers e.visits := by
    intro parts
    induction parts with
    | nil => exact fun _ => Iff.rfl
    | cons part parts ih => exact fun e => (ih _).trans (covers_dot e _)
  unfold Expr.ofPath pathHead
  exact (hparts _ _).trans (covers_ofName _)

/-- A call that registers a function says no more than the function and the path. -/
theorem Vocabulary.covers_registration {V : Vocabulary} {s : Setting} {groups : List Dependency}
    {body : List Stmt}
    (hcalls : ∀ x, (Expr.ofPath s.options.registerFunction).skipParens.ident? = some x → V.calls x)
    (hpath : V.mentions (pathHead s.options.registerFunction))
    (hparams : ∀ name ∈ [s.exporter, s.context], V.binds (.synthetic name) ∧ V.mentions name)
    (hbody : V.Covers (stmtsVisits body)) : V.Covers (s.registration groups body).visits := by
  have hstrings : ∀ names : List String, V.Covers (exprsVisits (names.map .ofString)) := by
    refine fun names => covers_exprsVisits fun e he => ?_
    obtain ⟨name, -, rfl⟩ := List.mem_map.mp he
    exact covers_ofString name
  have hnames := hstrings (groups.map (·.name))
  rw [List.map_map] at hnames
  have hexporter := hparams s.exporter (by simp)
  have hcontext := hparams s.context (by simp)
  rw [Setting.registration, covers_exprStmt, Expr.apply, covers_call, covers_ofPath]
  refine ⟨hcalls, hpath, ?_⟩
  rw [exprsVisits_append, covers_append]
  refine ⟨hstrings _, ?_⟩
  simp only [exprsVisits, covers_append, covers_arrayOf, covers_functionOf, paramsVisits,
    covers_paramOfName, covers_nil, and_true]
  exact ⟨hnames, ⟨hexporter, hcontext⟩, hbody⟩

/-! ## Hygiene -/

/-- What is made up for a module, what the file says and what is the same for every module. -/
def Generated.vocabulary (g : Generated) (options : Options) (file : SourceFile) : Vocabulary where
  mentions name := name ∈ g.names ∨ name ∈ file.texts ∨ name ∈ fixedNames options
  binds _ := True
  calls _ := True

section hygiene
variable {options : Options} {t : NameTable} {file : SourceFile} {lowered : Lowered}
  {g : Generated} {supply : NameSupply}

theorem Generated.mentions_fixed {name : String} (h : name ∈ fixedNames options) :
    (g.vocabulary options file).mentions name := .inr (.inr h)

/-- A file is written in its own texts. -/
theorem Generated.covers_source : (g.vocabulary options file).Covers file.visits := fun v hv => by
  refine ⟨fun x hx => .inr (.inl ?_), fun _ _ => trivial, fun _ _ => trivial⟩
  exact SourceFile.mem_texts (List.mem_filterMap.mpr ⟨v, hv, hx⟩)

namespace Generated.Of

theorem exporter_eq (hg : g.Of options t file lowered) :
    g.exporter = (Setting.ofFile options t file).1.exporter ∧
      g.context = (Setting.ofFile options t file).1.context := by
  obtain ⟨groups, execute, p, -, rfl, -⟩ := hg.run
  obtain ⟨f, hfactory, hparams⟩ := hg.function
  rw [Setting.factory?_assemble, Option.some.injEq] at hfactory
  rw [← hfactory] at hparams
  simp only [Param.ofName, Param.ofPattern, List.cons.injEq, Param.mk.injEq, Pattern.ident.injEq,
    Ident.synthetic, Ident.mk.injEq, true_and, and_true] at hparams
  exact ⟨hparams.1.symm, hparams.2.symm⟩

/-- The vocabulary of the made-up names knows all names of the run. -/
theorem knownTo (hg : g.Of options t file lowered)
    (hsupply : supplyAfter options t file = .ok supply)
    (hgives : (Hoisting.ofFile file).supply.Gives g.names supply)
    (hholders : ∀ declaration holder,
      (Setting.ofFile options t file).1.holders.lookup declaration = some holder →
        holder ∈ g.holders ∨ holder ∈ file.texts) :
    ∃ groups execute p,
      Dependency.group file (Interface.ofFile t file).dependences = .ok groups ∧
        lowered = (Setting.ofFile options t file).1.assemble groups execute p ∧
        (lowerStmts (Setting.ofFile options t file).1 .topLevel file.statements).run
          { hoisting := (Setting.ofFile options t file).2 } = .ok (execute, p) ∧
        (Setting.ofFile options t file).1.KnownTo (g.vocabulary options file) groups p := by
  obtain ⟨hexporter, hcontext⟩ := hg.exporter_eq
  obtain ⟨groups, execute, p, hgroups, hlowered, hrun, -, hstars⟩ := hg.run
  obtain ⟨setters, hsetters, hsublist⟩ := hg.parameters
  rw [hlowered, Setting.setters?_assemble] at hsetters
  obtain rfl := Option.some.inj hsetters
  have hheld : ∀ declaration holder,
      (Setting.ofFile options t file).1.holders.lookup declaration = some holder →
        (g.vocabulary options file).mentions holder := by
    intro declaration holder hlookup
    rcases hholders declaration holder hlookup with h | h
    · exact .inl (mem_names.mpr (.inr (.inr (.inl h))))
    · exact .inr (.inl h)
  have hglobal : helperGlobal ∈ fixedNames options := by simp [fixedNames]
  have hrest : restName ∈ fixedNames options := by simp [fixedNames]
  have hlocals : helperLocals ⊆ fixedNames options := by
    intro name h
    simp [fixedNames, h]
  refine ⟨groups, execute, p, hgroups, hlowered, hrun, ?_⟩
  constructor
  case spoken =>
    refine ⟨?_, trivial, ?_, fun d h hl => ⟨hheld d h hl, trivial⟩, mentions_fixed hrest,
      fun _ _ => trivial⟩
    · exact .inl (mem_names.mpr (.inl hexporter.symm))
    · exact .inl (mem_names.mpr (.inr (.inl hcontext.symm)))
  case helpers =>
    exact ⟨fun name h => ⟨trivial, mentions_fixed (hlocals h)⟩, mentions_fixed hglobal⟩
  case source => exact covers_source
  case vars => exact fun _ _ _ _ => trivial
  case top =>
    intro st hst name hname
    refine ⟨trivial, ?_⟩
    rcases Setting.topNames_cases hname with ⟨x, hx, rfl⟩ | ⟨declaration, hlookup⟩
    · exact .inr (.inl (SourceFile.mem_texts (identsIn_subset (stmt_visits_subset hst) hx)))
    · exact hheld declaration name hlookup
  case inUse =>
    refine ⟨fun name hused => ?_, fun _ => trivial⟩
    obtain ⟨later, hlater⟩ := gives_supplyAfter hsupply hrun
    have hfinal := (hlater.isUsed_iff name).mpr (.inr hused)
    rcases (hgives.isUsed_iff name).mp hfinal with h | h
    · exact .inl h
    · exact .inr (.inl ((file.isUsed_iff name).mp h))
  case stars =>
    intro name h
    rw [hstars] at h
    exact ⟨trivial, .inl (mem_names.mpr (.inr (.inr (.inr (.inr (.inl h))))))⟩
  case starCalls => exact fun _ _ => trivial
  case parameters =>
    intro name h
    have hgiven := hsublist.subset h
    exact ⟨trivial, .inl (mem_names.mpr (.inr (.inr (.inr (.inr (.inr hgiven))))))⟩

/-- The names that are made up for a module, those of its file and those of the helpers are all that
the lowered module is written with. -/
theorem mem_vocabulary (hg : g.Of options t file lowered)
    (hsupply : supplyAfter options t file = .ok supply)
    (hgives : (Hoisting.ofFile file).supply.Gives g.names supply)
    (hholders : ∀ declaration holder,
      (Setting.ofFile options t file).1.holders.lookup declaration = some holder →
        holder ∈ g.holders ∨ holder ∈ file.texts) :
    ∀ x ∈ identsIn lowered.statement.visits,
      x.name ∈ g.names ∨ x.name ∈ file.texts ∨ x.name ∈ fixedNames options := by
  obtain ⟨groups, execute, p, hgroups, rfl, hrun, hknown⟩ := hg.knownTo hsupply hgives hholders
  have hbody := hknown.covers_body hgroups hrun trivial
  have hcovers : (g.vocabulary options file).Covers
      ((Setting.ofFile options t file).1.assemble groups execute p).statement.visits := by
    rw [Setting.assemble_eq]
    refine covers_registration (fun _ _ => trivial) (mentions_fixed (List.mem_cons_self ..)) ?_ hbody
    intro name hname
    rcases List.mem_cons.mp hname with rfl | hname
    · exact ⟨trivial, hknown.spoken.exporter⟩
    · obtain rfl := List.mem_singleton.mp hname
      exact ⟨trivial, hknown.spoken.context⟩
  exact fun x hx => mentions_of_mem_identsIn hcovers hx

end Generated.Of

/-- `import { a } from "m"; export * from "m"; export default function () {}
var [m_1, _a] = exports_1(a);` -/
def crowdedModule : SourceFile where
  id := .numbered 20
  name := "crowded.ts"
  statements := [
    .importFrom ⟨.numbered 10, {}⟩
      (some ⟨none, some (.named [⟨none, ⟨.numbered 0, "a"⟩, false⟩])⟩) (.ofString "m") false,
    .exportFrom ⟨.numbered 11, {}⟩ none (some (.ofString "m")) false,
    .function { isExported := true, isDefault := true } ⟨none, [], [], false, false⟩,
    .var {} ⟨.var, [⟨.array [some ⟨.ident ⟨.numbered 1, "m_1"⟩, none⟩,
        some ⟨.ident ⟨.numbered 2, "_a"⟩, none⟩] none,
      some (.call (.ident ⟨.numbered 3, "exports_1"⟩) [.ident ⟨.numbered 4, "a"⟩] false)⟩]⟩]

end hygiene
end RegisterForm
