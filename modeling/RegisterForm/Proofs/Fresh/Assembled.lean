import RegisterForm.Proofs.Fresh.Lowered
import RegisterForm.Proofs.Registration.Parts
/-!
# Names of a registered module

What is put around the lowered statements of a module: the setters, the helpers that it defines
for itself and the function that is registered. Each part keeps to a vocabulary that knows its
names, and draws on the supply as told here.
-/
namespace RegisterForm
open Lowering Vocabulary

/-! ## Helpers -/

/-- The variables of the helpers, and the one that holds the name of the module. -/
def helperLocals : List String := ["s", "e", "t", "p", "i", "m", "n", "exports", "__moduleName"]

/-- The global that the helpers read. -/
def helperGlobal : String := "Object"

/-- A vocabulary knows the names that the helpers are written with. -/
structure Vocabulary.KnowsHelpers (V : Vocabulary) : Prop where
  locals : ∀ name ∈ helperLocals, V.binds (.synthetic name) ∧ V.mentions name
  globals : V.mentions helperGlobal

namespace Vocabulary.KnowsHelpers
variable {V : Vocabulary} (hV : V.KnowsHelpers)
include hV

theorem covers_local (name : String) (h : name ∈ helperLocals) :
    V.Covers (Expr.ofName name).visits :=
  (covers_ofName name).mpr (hV.locals name h).2

theorem covers_prototypeCall (method : String) {owner key : Expr} (howner : V.Covers owner.visits)
    (hkey : V.Covers key.visits) : V.Covers (Expr.prototypeCall method owner key).visits := by
  have hpath : Expr.ofPath "Object.prototype" = (Expr.ofName helperGlobal).dot "prototype" := rfl
  rw [Expr.prototypeCall, covers_applyDot, covers_dot, hpath, covers_dot, covers_ofName]
  exact ⟨hV.globals, by simp [exprsVisits, howner, hkey]⟩

theorem covers_notExcluded {key : Expr} (h : V.Covers key.visits) :
    V.Covers (Rest.notExcluded key).visits := by
  rw [Rest.notExcluded, covers_binary, covers_applyDot]
  exact ⟨⟨hV.covers_local _ (by decide), by simpa [exprsVisits] using h⟩, covers_ofNumber "0"⟩

theorem covers_copyProperty {key : Expr} (h : V.Covers key.visits) :
    V.Covers (Rest.copyProperty key).visits := by
  have ht := hV.covers_local "t" (by decide)
  have hs := hV.covers_local "s" (by decide)
  rw [Rest.copyProperty, covers_exprStmt, covers_assignTo, covers_exprPattern, covers_lookup,
    covers_lookup]
  exact ⟨⟨ht, h⟩, hs, h⟩

theorem covers_varHead (name : String) (h : name ∈ helperLocals) :
    V.Covers (ForHead.var ⟨.var, [.ofName name none]⟩).visits := by
  rw [ForHead.visits, VarList.visits, declaratorsVisits, declaratorsVisits, List.append_nil,
    covers_declaratorOfName]
  exact ⟨hV.locals name h, covers_nil⟩

theorem covers_copyStrings : V.Covers Rest.copyStrings.visits := by
  have hkey := hV.covers_local "p" (by decide)
  have hs := hV.covers_local "s" (by decide)
  have howned := hV.covers_prototypeCall "hasOwnProperty" hs hkey
  have hexcluded := hV.covers_notExcluded hkey
  have hcopy := hV.covers_copyProperty hkey
  have hhead := hV.covers_varHead "p" (by decide)
  rw [Rest.copyStrings, covers_forIn, covers_ifThen, covers_binary]
  exact ⟨hhead, hs, ⟨howned, hexcluded⟩, hcopy⟩

theorem covers_copySymbols : V.Covers Rest.copySymbols.visits := by
  have hs := hV.covers_local "s" (by decide)
  have hp := hV.covers_local "p" (by decide)
  have hi := hV.covers_local "i" (by decide)
  have hkey : V.Covers ((Expr.ofName "p").lookup (.ofName "i")).visits :=
    (covers_lookup _ _).mpr ⟨hp, hi⟩
  have howned := hV.covers_prototypeCall "propertyIsEnumerable" hs hkey
  have hexcluded := hV.covers_notExcluded hkey
  have hcopy := hV.covers_copyProperty hkey
  have hobject : V.Covers (Expr.ofName "Object").visits := (covers_ofName _).mpr hV.globals
  have hpath : V.Covers (Expr.ofPath "Object.getOwnPropertySymbols").visits := by
    have heq : Expr.ofPath "Object.getOwnPropertySymbols" =
        (Expr.ofName "Object").dot "getOwnPropertySymbols" := rfl
    rw [heq, covers_dot]
    exact hobject
  have hkeys : V.Covers
      (((Expr.ofName "Object").dot "getOwnPropertySymbols").apply [.ofName "s"]).visits := by
    rw [covers_applyDot]
    exact ⟨hobject, by simpa [exprsVisits] using hs⟩
  have hbinds := And.intro (hV.locals "i" (by decide)) (hV.locals "p" (by decide))
  simpa [Rest.copySymbols, ForInit.visits, VarList.visits, declaratorsVisits, exprVisits?,
    stmtsVisits, hpath, hkeys, howned, hexcluded, hcopy, hs, hp, hi] using hbinds

/-- What the helper for object rests is set to. -/
theorem covers_restValue :
    ∃ value, Rest.define = .varInit restName (some value) ∧ V.Covers value.visits := by
  refine ⟨_, rfl, ?_⟩
  have hs := hV.locals "s" (by decide)
  have he := hV.locals "e" (by decide)
  have ht := hV.locals "t" (by decide)
  simp [paramsVisits, stmtsVisits, exprVisits?, propertiesVisits, hV.covers_copyStrings,
    hV.covers_copySymbols, hs, he, ht]

theorem covers_rest (hrest : V.binds (.synthetic restName) ∧ V.mentions restName) :
    V.Covers Rest.define.visits := by
  obtain ⟨value, heq, hvalue⟩ := hV.covers_restValue
  rw [heq, covers_varInit]
  exact ⟨hrest, hvalue⟩

/-! ## Star exports -/

/-- A name that is given out is one that may be declared, called and mentioned. -/
theorem covers_starHelper {s : Setting} (hs : s.SpokenIn V) {name : String}
    (ownNames : Option String) (hname : V.binds (.synthetic name) ∧ V.mentions name)
    (hown : ∀ map, ownNames = some map → V.mentions map) :
    V.Covers (StarExport.helper s name ownNames).visits := by
  have hm := hV.locals "m" (by decide)
  have hn := hV.locals "n" (by decide)
  have hexports := hV.locals "exports" (by decide)
  have hkey := hV.covers_local "n" (by decide)
  have hhead := hV.covers_varHead "n" (by decide)
  have hpath : Expr.ofPath "Object.prototype.hasOwnProperty.call" =
      (((Expr.ofName helperGlobal).dot "prototype").dot "hasOwnProperty").dot "call" := rfl
  have htest : V.Covers ((Expr.ofPath "Object.prototype.hasOwnProperty.call").apply
      [.ofName "m", .ofName "n"]).visits := by
    rw [hpath, covers_applyDot, covers_dot, covers_dot, covers_ofName]
    exact ⟨hV.globals, by simp [exprsVisits, hm, hn]⟩
  have hpublish : V.Covers ((Expr.ofName s.exporter).apply [.ofName "exports"]).visits := by
    rw [covers_applyName]
    exact ⟨hs.publishes, hs.exporter, by simp [exprsVisits, hexports]⟩
  unfold StarExport.helper
  cases ownNames with
  | none =>
    simp [Stmt.functionNamed, covers_func, paramsVisits, stmtsVisits, exprVisits?,
      propertiesVisits, hhead, htest, hpublish, hname, hm, hn, hexports]
  | some map =>
    have hskip : V.Covers (((Expr.ofName map).dot "hasOwnProperty").apply [.ofName "n"]).visits := by
      rw [covers_applyDot, covers_ofName]
      exact ⟨hown map rfl, by simpa [exprsVisits] using hkey⟩
    simp [Stmt.functionNamed, covers_func, paramsVisits, stmtsVisits, exprVisits?,
      propertiesVisits, Expr.negate, hskip, hhead, htest, hpublish, hname, hm, hn, hexports]

end Vocabulary.KnowsHelpers

/-- The name that a helper of the module is declared by. -/
def Stmt.declaredName? : Stmt → Option String
  | .var _ ⟨_, [⟨.ident x, _⟩]⟩ => some x.name
  | .function _ f => f.name.map (·.name)
  | _ => none

namespace StarExport
variable {s : Setting} {V : Vocabulary}

/-- The names that the helpers for star exports are declared by are those given out for them. -/
theorem gives_define (s : Setting) (exportedNames : List String) (groups : List Dependency)
    (h : Hoisting) :
    h.supply.Gives ((define s exportedNames groups h).2.1.filterMap Stmt.declaredName?)
      (define s exportedNames groups h).2.2.supply := by
  unfold define
  split
  · exact .nothing _
  · dsimp only
    split
    · exact .unique "exportStar" (.nothing _)
    · exact .unique "exportedNames" (.unique "exportStar" (.nothing _))

/-- The setters call a helper that is declared. -/
theorem mem_declaredNames {exportedNames : List String} {groups : List Dependency} {h : Hoisting}
    {name : String} (hname : (define s exportedNames groups h).1 = some name) :
    name ∈ (define s exportedNames groups h).2.1.filterMap Stmt.declaredName? := by
  unfold define at hname ⊢
  split at hname
  · cases hname
  · next hstar =>
    rw [if_neg hstar]
    dsimp only at hname ⊢
    split at hname <;> next hempty => cases hname; simp [hempty, helper, Stmt.functionNamed,
      Stmt.declaredName?]

theorem covers_define (hs : s.SpokenIn V) (hV : V.KnowsHelpers) {exportedNames : List String}
    {groups : List Dependency} {h : Hoisting}
    (hnames : ∀ name ∈ (define s exportedNames groups h).2.1.filterMap Stmt.declaredName?,
      V.binds (.synthetic name) ∧ V.mentions name) :
    V.Covers (stmtsVisits (define s exportedNames groups h).2.1) := by
  unfold define at hnames ⊢
  split
  · exact covers_nil
  · next hstar =>
    rw [if_neg hstar] at hnames
    dsimp only at hnames ⊢
    split
    · next hempty =>
      rw [if_pos hempty] at hnames
      have hname := hnames _ (List.mem_singleton_self _)
      have hhelper := hV.covers_starHelper hs none hname fun _ heq => nomatch heq
      simpa [stmtsVisits] using hhelper
    · next hempty =>
      rw [if_neg hempty] at hnames
      have hmap := hnames _ (List.mem_cons_self ..)
      have hname := hnames _ (List.mem_cons_of_mem _ (List.mem_singleton_self _))
      have hhelper := hV.covers_starHelper hs (some _) hname fun _ heq =>
        Option.some.inj heq ▸ hmap.2
      have hrecord : ∀ names : List String, V.Covers (Expr.object
          (names.map fun name => .ofString name (.ofBool true))).visits := by
        intro names
        refine (covers_object _).mpr (covers_propertiesVisits fun p hp => ?_)
        obtain ⟨name, -, rfl⟩ := List.mem_map.mp hp
        simp [Property.ofString, Property.visits, Key.visits]
      rw [stmtsVisits, covers_append, covers_varInit]
      exact ⟨⟨hmap, hrecord _⟩, by simpa [stmtsVisits] using hhelper⟩

end StarExport

/-! ## Setters -/

/-- The variables in which a setter keeps the module that a statement names. -/
def Setting.keptNames (s : Setting) (d : Dependence) : List String :=
  match d.form with
  | .importing (some _) => (s.holders.lookup d.site.id).toList
  | .equals name _ => [name.name]
  | _ => []

def Expr.parameterNames : Expr → List String
  | .function f => f.params.flatMap (·.pattern.boundNames)
  | _ => []

namespace Setting
variable {s : Setting} {V : Vocabulary}

/-- An object literal with string keys. -/
theorem covers_record {ps : List Property}
    (h : ∀ p ∈ ps, ∃ name value, p = .ofString name value ∧ V.Covers value.visits) :
    V.Covers (Expr.object ps).visits := by
  refine (covers_object ps).mpr (covers_propertiesVisits fun p hp => ?_)
  obtain ⟨name, value, rfl, hvalue⟩ := h p hp
  simpa [Property.ofString, Property.visits, Key.visits] using hvalue

theorem covers_publishAll (hs : s.SpokenIn V) {ps : List Property}
    (h : ∀ p ∈ ps, ∃ name value, p = .ofString name value ∧ V.Covers value.visits) :
    V.Covers (stmtsVisits (s.publishAll ps)) := by
  unfold publishAll
  split
  · exact covers_nil
  · rw [stmtsVisits, covers_append, covers_exprStmt, covers_applyName]
    refine ⟨⟨hs.publishes, hs.exporter, ?_⟩, covers_nil⟩
    simpa [exprsVisits] using covers_record h

theorem covers_importedValue {parameter : String} (h : V.mentions parameter) (kind : ImportKind) :
    V.Covers (importedValue parameter kind).visits := by
  cases kind <;> simp [importedValue, h]

theorem covers_keep {name parameter : String} (hname : V.binds (.synthetic name) ∧ V.mentions name)
    (h : V.mentions parameter) : V.Covers (keep name parameter).visits := by
  simp [keep, hname, h]

theorem reexports_covers {declaration : NodeId} {parameter : String} (h : V.mentions parameter)
    {x : Ident} {p : Property} (hp : p ∈ s.reexports declaration parameter x) :
    ∃ name value, p = .ofString name value ∧ V.Covers value.visits := by
  unfold reexports at hp
  split at hp
  · cases hp
  · next origin _ =>
    split at hp
    · obtain ⟨spec, -, rfl⟩ := List.mem_map.mp hp
      exact ⟨spec.exportedName, _, rfl, covers_importedValue h origin.kind⟩
    · cases hp

theorem covers_serve (hs : s.SpokenIn V) {star : Option String} {parameter : String}
    {d : Dependence} (hparameter : V.mentions parameter)
    (hstar : ∀ name, star = some name → V.calls (.synthetic name) ∧ V.mentions name)
    (hkept : ∀ name ∈ s.keptNames d, V.binds (.synthetic name) ∧ V.mentions name) :
    V.Covers (stmtsVisits (s.serve star parameter d)) := by
  have hread : V.Covers (Expr.ofName parameter).visits := (covers_ofName _).mpr hparameter
  unfold keptNames at hkept
  unfold serve
  cases hform : d.form with
  | importing clause =>
    rw [hform] at hkept
    cases clause with
    | none => exact covers_nil
    | some clause =>
      dsimp only
      rw [NameTable.stmtsVisits_append, covers_append]
      refine ⟨covers_stmtsVisits fun st hst => ?_, covers_publishAll hs fun p hp => ?_⟩
      · obtain ⟨name, hname, rfl⟩ := List.mem_map.mp hst
        exact covers_keep (hkept name hname) hparameter
      · obtain ⟨x, -, hp⟩ := List.mem_flatMap.mp hp
        exact reexports_covers hparameter hp
  | equals name isExported =>
    rw [hform] at hkept
    have hkeep := covers_keep (hkept name.name (List.mem_singleton_self _)) hparameter
    have hreexports : V.Covers
        (stmtsVisits (s.publishAll (s.reexports d.site.id parameter name))) :=
      covers_publishAll hs fun p hp => reexports_covers hparameter hp
    dsimp only
    rw [List.cons_append, stmtsVisits, NameTable.stmtsVisits_append, covers_append, covers_append]
    refine ⟨hkeep, ?_, hreexports⟩
    split
    · simpa [stmtsVisits] using hs.covers_publish name.name hread
    · exact covers_nil
  | exporting clause =>
    cases clause with
    | none =>
      refine covers_stmtsVisits fun st hst => ?_
      obtain ⟨helper, hhelper, rfl⟩ := List.mem_map.mp hst
      obtain ⟨hcalls, hmentions⟩ := hstar helper (Option.mem_toList.mp hhelper)
      rw [covers_exprStmt, covers_applyName]
      exact ⟨hcalls, hmentions, by simpa [exprsVisits] using hparameter⟩
    | some clause =>
      cases clause with
      | named specifiers =>
        refine covers_publishAll hs fun p hp => ?_
        obtain ⟨spec, -, rfl⟩ := List.mem_map.mp hp
        exact ⟨spec.exportedName, _, rfl, by simp [hparameter]⟩
      | star x => simpa [stmtsVisits] using hs.covers_publish x.name hread

theorem gives_parameterBase (s : Setting) : ∀ (uses : List Dependence) (h : Hoisting),
    ∃ seeds, h.supply.Gives seeds (s.parameterBase uses h).2.supply
  | [], h => ⟨[], .nothing _⟩
  | d :: ds, h => by
    unfold parameterBase
    split
    · exact ⟨[], .nothing _⟩
    · exact ⟨_, .unique _ (.nothing _)⟩
    · exact gives_parameterBase s ds h

/-- The parameters of the setters are given out one after another. -/
theorem gives_setters (s : Setting) (star : Option String) : ∀ (groups : List Dependency)
    (h : Hoisting), ∃ given, h.supply.Gives given (s.setters star groups h).2.supply ∧
      ((s.setters star groups h).1.flatMap Expr.parameterNames).Sublist given
  | [], h => ⟨[], .nothing _, List.nil_sublist _⟩
  | d :: ds, h => by
    obtain ⟨seeds, hseeds⟩ := gives_parameterBase s d.uses h
    have hparameter := NameSupply.Gives.unique (s.parameterBase d.uses h).1
      (.nothing ((s.parameterBase d.uses h).2.supply.unique (s.parameterBase d.uses h).1).2)
    obtain ⟨given, hgiven, hnames⟩ := gives_setters s star ds (s.setter star d h).2
    refine ⟨_, (hseeds.append hparameter).append hgiven, ?_⟩
    refine List.Sublist.append ?_ hnames
    exact (List.Sublist.refl [_]).trans (List.sublist_append_right seeds _)

theorem covers_setters (hs : s.SpokenIn V) {star : Option String}
    (hstar : ∀ name, star = some name → V.calls (.synthetic name) ∧ V.mentions name) :
    ∀ (groups : List Dependency) (h : Hoisting),
      (∀ group ∈ groups, ∀ d ∈ group.uses, ∀ name ∈ s.keptNames d,
        V.binds (.synthetic name) ∧ V.mentions name) →
      (∀ name ∈ (s.setters star groups h).1.flatMap Expr.parameterNames,
        V.binds (.synthetic name) ∧ V.mentions name) →
      V.Covers (exprsVisits (s.setters star groups h).1)
  | [], _, _, _ => covers_nil
  | group :: groups, h, hkept, hnames => by
    obtain ⟨hgroup, hgroups⟩ := List.forall_mem_cons.mp hkept
    rw [setters] at hnames ⊢
    have hfirst := hnames ((s.parameterBase group.uses h).2.unique (s.parameterBase group.uses h).1).1
      (List.mem_append_left _ (List.mem_singleton_self _))
    have hmore := covers_setters hs hstar groups (s.setter star group h).2 hgroups fun name hname =>
      hnames name (List.mem_append_right _ hname)
    refine (covers_append _ _).mpr ⟨?_, hmore⟩
    refine (covers_functionOf _ _).mpr ?_
    have hparameter := (covers_append _ _).mpr ⟨(covers_paramOfName _).mpr hfirst, covers_nil⟩
    refine ⟨hparameter, covers_stmtsVisits fun st hst => ?_⟩
    obtain ⟨d, hd, hst⟩ := List.mem_flatMap.mp hst
    have hserve := covers_serve hs hfirst.2 hstar (hgroup d hd)
    exact fun v hv => hserve v (stmt_visits_subset hst hv)

/-! ## The registered function -/

/-- Whether the helper for object rests is defined or not, the rest of the prologue is the same. -/
theorem prologue_eq (s : Setting) (frame : Frame) (functionExports : List Stmt)
    (needsRest : Bool) : s.prologue frame functionExports needsRest =
      s.prologue frame functionExports false ++ if needsRest then [Rest.define] else [] := by
  simp [prologue]

theorem covers_prologue (hs : s.SpokenIn V) (hV : V.KnowsHelpers) {frame : Frame}
    {functionExports : List Stmt} (hframe : Progress.FrameKept V frame)
    (hexports : ∀ st ∈ functionExports, V.Covers st.visits) :
    V.Covers (stmtsVisits (s.prologue frame functionExports false)) := by
  have hvars : V.Covers (stmtsVisits frame.variableStmt?.toList) := by
    unfold Frame.variableStmt?
    split
    · exact covers_nil
    · simpa [stmtsVisits] using covers_varNames hframe.1
  simp only [prologue, NameTable.stmtsVisits_append, covers_append]
  refine ⟨⟨⟨⟨⟨?_, hvars⟩, ?_⟩, covers_stmtsVisits hframe.2⟩, covers_stmtsVisits hexports⟩, covers_nil⟩
  · split <;> simp [stmtsVisits]
  · split
    · have hname := hV.locals "__moduleName" (by decide)
      simp [stmtsVisits, exprVisits?, hname, hs.context]
    · exact covers_nil

theorem covers_result {setters : List Expr} {execute : List Stmt}
    (hsetters : V.Covers (exprsVisits setters)) (hexecute : V.Covers (stmtsVisits execute)) :
    V.Covers (result setters execute).visits := by
  simp [result, propertiesVisits, Property.ofName, Property.visits, Key.visits, paramsVisits,
    hsetters, hexecute]

end Setting

/-! ## Holders -/

namespace Dependence

/-- The identifier under which a statement itself holds the module that it names. -/
def ownHolder? (d : Dependence) : Option Ident :=
  match d.form with
  | .importing (some ⟨none, some (.star x)⟩) => some x
  | .equals name _ => some name
  | .exporting (some (.star x)) => some x
  | _ => none

/-- Whether the module that a statement names is held under a made-up name. -/
def isDerived (d : Dependence) : Bool :=
  match d.form with
  | .importing none | .importing (some ⟨none, some (.star _)⟩) => false
  | .importing (some _) => true
  | _ => false

/-- A holder is made up, and then drawn from the supply, or it is the statement's own. -/
theorem holder?_cases (d : Dependence) (h : Hoisting) :
    (d.isDerived = true ∧ d.holder? h = (some (d.freshHolder h).1, (d.freshHolder h).2)) ∨
      d.isDerived = false ∧ d.holder? h = (d.ownHolder?.map (·.name), h) := by
  obtain ⟨site, specifier, form⟩ := d
  unfold isDerived holder? ownHolder?
  match form with
  | .importing none => exact .inr ⟨rfl, rfl⟩
  | .importing (some ⟨none, some (.star x)⟩) => exact .inr ⟨rfl, rfl⟩
  | .importing (some ⟨none, none⟩) => exact .inl ⟨rfl, rfl⟩
  | .importing (some ⟨none, some (.named specifiers)⟩) => exact .inl ⟨rfl, rfl⟩
  | .importing (some ⟨some x, bindings⟩) => exact .inl ⟨rfl, rfl⟩
  | .equals name isExported => exact .inr ⟨rfl, rfl⟩
  | .exporting (some (.star x)) => exact .inr ⟨rfl, rfl⟩
  | .exporting (some (.named specifiers)) => exact .inr ⟨rfl, rfl⟩
  | .exporting none => exact .inr ⟨rfl, rfl⟩

end Dependence

/-- The made-up holders are drawn from the supply one after another, and a holder that is not made
up is an identifier of its statement. -/
theorem holdersOf_gives (uses : List Dependence) (h : Hoisting) : ∃ names,
    h.supply.Gives names (holdersOf uses h).2.supply ∧
      List.Forall₂ (fun d name => (d.site.id, name) ∈ (holdersOf uses h).1)
        (uses.filter (·.isDerived)) names ∧
      ∀ entry ∈ (holdersOf uses h).1, entry.2 ∈ names ∨
        ∃ d ∈ uses, d.ownHolder?.map (·.name) = some entry.2 := by
  -- The induction is on the statements, from any holders before them.
  suffices hfold : ∀ (uses : List Dependence) (r : List (NodeId × String) × Hoisting),
      ∃ names, let r' := uses.foldl Dependence.enterHolder r
        r.2.supply.Gives names r'.2.supply ∧ r.1 ⊆ r'.1 ∧
          List.Forall₂ (fun d name => (d.site.id, name) ∈ r'.1)
            (uses.filter (·.isDerived)) names ∧
          ∀ entry ∈ r'.1, entry ∈ r.1 ∨ entry.2 ∈ names ∨
            ∃ d ∈ uses, d.ownHolder?.map (·.name) = some entry.2 by
    obtain ⟨names, hgives, -, hnames, hentries⟩ := hfold uses ([], h)
    exact ⟨names, hgives, hnames, fun entry he =>
      (hentries entry he).resolve_left List.not_mem_nil⟩
  intro uses
  induction uses with
  | nil => exact fun r => ⟨[], .nothing _, fun _ he => he, .nil, fun _ he => .inl he⟩
  | cons d uses ih =>
    rintro ⟨holders, h⟩
    rw [List.foldl_cons, Dependence.enterHolder]
    rcases d.holder?_cases h with ⟨hderived, hholder⟩ | ⟨hown, hholder⟩
    · obtain ⟨names, hgives, hkept, hnames, hentries⟩ :=
        ih ((d.site.id, (d.freshHolder h).1) :: holders, (d.freshHolder h).2)
      refine ⟨(d.freshHolder h).1 :: names, ?_⟩
      dsimp only at hgives hkept hnames hentries ⊢
      rw [hholder, List.filter_cons_of_pos hderived]
      refine ⟨.unique _ hgives, fun _ he => hkept (List.mem_cons_of_mem _ he),
        .cons (hkept (List.mem_cons_self ..)) hnames, fun entry he => ?_⟩
      rcases hentries entry he with hbefore | hname | ⟨d', hd', hd'own⟩
      · rcases List.mem_cons.mp hbefore with rfl | hbefore
        · exact .inr (.inl (List.mem_cons_self ..))
        · exact .inl hbefore
      · exact .inr (.inl (List.mem_cons_of_mem _ hname))
      · exact .inr (.inr ⟨d', List.mem_cons_of_mem _ hd', hd'own⟩)
    · have hfilter : (d :: uses).filter (·.isDerived) = uses.filter (·.isDerived) :=
        List.filter_cons_of_neg (by simp [hown])
      cases hd : d.ownHolder? with
      | none =>
        obtain ⟨names, hgives, hkept, hnames, hentries⟩ := ih (holders, h)
        refine ⟨names, ?_⟩
        dsimp only at hgives hkept hnames hentries ⊢
        rw [hholder, hd, hfilter]
        refine ⟨hgives, hkept, hnames, fun entry he => ?_⟩
        refine (hentries entry he).imp_right (Or.imp_right ?_)
        rintro ⟨d', hd', hd'own⟩
        exact ⟨d', List.mem_cons_of_mem _ hd', hd'own⟩
      | some x =>
        obtain ⟨names, hgives, hkept, hnames, hentries⟩ := ih ((d.site.id, x.name) :: holders, h)
        refine ⟨names, ?_⟩
        dsimp only at hgives hkept hnames hentries ⊢
        rw [hholder, hd, hfilter]
        refine ⟨hgives, fun _ he => hkept (List.mem_cons_of_mem _ he), hnames, fun entry he => ?_⟩
        rcases hentries entry he with hbefore | hname | ⟨d', hd', hd'own⟩
        · rcases List.mem_cons.mp hbefore with rfl | hbefore
          · exact .inr (.inr ⟨d, List.mem_cons_self .., by rw [hd]; rfl⟩)
          · exact .inl hbefore
        · exact .inr (.inl hname)
        · exact .inr (.inr ⟨d', List.mem_cons_of_mem _ hd', hd'own⟩)

end RegisterForm
