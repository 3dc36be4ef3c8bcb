import RegisterForm.Proofs.Fresh.Module
import RegisterForm.Proofs.Fresh.Scoped
import RegisterForm.Proofs.Fresh.Source
import RegisterForm.Proofs.Resolve.Ambient
/-!
# References to helpers

The helper for object rests and the global that the helpers read have fixed names. No name that is
made up for a module is one of them, so a reference to a helper means the helper, and a reference
to the global means the global, unless the module itself binds the name around the reference.
-/
namespace RegisterForm
open Lowering Vocabulary

/-! ## Fixed names are not made up -/

/-- The names that are the same for every module. -/
def helperNames : List String := [restName, helperGlobal]

theorem NameSupply.IsMadeUp.not_mem_helperNames {name : String} (h : NameSupply.IsMadeUp name) :
    name ∉ helperNames := by
  -- A made-up name ends in a digit or has two characters.
  have hform : (∃ c, name.toList.getLast? = some c ∧ c.isDigit = true) ∨ name.toList.length = 2 := by
    rcases h with ⟨stem, n, rfl⟩ | ⟨n, rfl⟩
    · exact .inl (getLast?_numbered stem n)
    · rcases Nat.lt_or_ge n 26 with hn | hn
      · refine .inr ?_
        rw [toList_temporaryName_of_lt hn]
        rfl
      · refine .inl ?_
        rw [show temporaryName n = numbered "_" (n + 1) from if_neg (by omega)]
        exact getLast?_numbered _ _
  simp only [helperNames, List.mem_cons, List.not_mem_nil, or_false, not_or]
  refine ⟨fun hrest => ?_, fun hglobal => ?_⟩
  · rw [hrest] at hform
    rcases hform with ⟨c, hc, hdigit⟩ | hlength
    · obtain rfl : 't' = c := Option.some.inj hc
      cases hdigit
    · cases hlength
  · rw [hglobal] at hform
    rcases hform with ⟨c, hc, hdigit⟩ | hlength
    · obtain rfl : 't' = c := Option.some.inj hc
      cases hdigit
    · cases hlength

namespace Setting

/-- The names that a module gives to variables of the registered function. -/
def hoistedNames (s : Setting) : List String :=
  s.file.statements.flatMap (fun st => s.topNames st ++ st.varBindings.map (·.ident.name))
    ++ s.holders.map (·.2)

/-- An identifier of the source, or one that stands for a variable that the module hoists. -/
def IsOwn (s : Setting) (x : Ident) : Prop :=
  x ∈ identsIn s.file.visits ∨ x.id.isSynthetic = true ∧ x.name ∈ s.hoistedNames

/-- Only the module itself binds the fixed names, and only where an object rest is taken apart is
its helper called. -/
def helperVocabulary (s : Setting) (needsRest : Bool) : Vocabulary where
  mentions _ := True
  binds x := x.name ∈ helperNames → s.IsOwn x
  calls x := x = .synthetic restName → needsRest = true ∨ s.IsOwn x

variable {s : Setting}

theorem isOwn_hoisted {name : String} (h : name ∈ s.hoistedNames) : s.IsOwn (.synthetic name) :=
  .inr ⟨rfl, h⟩

theorem isOwn_lookup {declaration : NodeId} {holder : String}
    (h : s.holders.lookup declaration = some holder) : s.IsOwn (.synthetic holder) := by
  obtain ⟨before, after, heq, -⟩ := List.lookup_eq_some_iff.mp h
  refine isOwn_hoisted (List.mem_append_right _ (List.mem_map.mpr ⟨(declaration, holder), ?_, rfl⟩))
  rw [heq]
  exact List.mem_append_right _ (List.mem_cons_self ..)

theorem helperVocabulary_binds {name : String} (needsRest : Bool) (h : name ∉ helperNames) :
    (s.helperVocabulary needsRest).binds (.synthetic name) := fun hname => absurd hname h

theorem helperVocabulary_calls {name : String} (needsRest : Bool) (h : name ∉ helperNames) :
    (s.helperVocabulary needsRest).calls (.synthetic name) := by
  intro heq
  obtain rfl : name = restName := congrArg Ident.name heq
  exact absurd (List.mem_cons_self ..) h

end Setting

section run
variable {options : Options} {t : NameTable} {file : SourceFile} {lowered : Lowered}
  {groups : List Dependency} {execute : List Stmt} {p : Progress}

/-- What the supply gives out for the helpers and the setters is made up. -/
theorem Setting.helperVocabulary_knows (p : Progress) (groups : List Dependency) :
    (Setting.ofFile options t file).1.KnownTo
      ((Setting.ofFile options t file).1.helperVocabulary p.needsRest) groups p := by
  set s := (Setting.ofFile options t file).1 with hs
  have hexporter : s.exporter ∉ helperNames :=
    ((Hoisting.ofFile file).supply.isMadeUp_unique "exports").not_mem_helperNames
  have hstars : ∀ name ∈ (s.starPart groups p).2.1.filterMap Stmt.declaredName?,
      name ∉ helperNames := fun name hname =>
    ((StarExport.gives_define s p.exportedNames groups p.hoisting.pop.2).isMadeUp name
      hname).not_mem_helperNames
  obtain ⟨given, hgiven, hsublist⟩ := Setting.gives_setters s (s.starPart groups p).1 groups
    (s.starPart groups p).2.2
  have hmember : ∀ st ∈ file.statements,
      ∀ name ∈ s.topNames st ++ st.varBindings.map (·.ident.name), name ∈ s.hoistedNames :=
    fun st hst name hname => List.mem_append_left _ (List.mem_flatMap.mpr ⟨st, hst, hname⟩)
  constructor
  case spoken =>
    refine ⟨trivial, helperVocabulary_calls _ hexporter, trivial, fun d holder hlookup => ?_,
      trivial, fun name hname => helperVocabulary_binds _ hname.not_mem_helperNames⟩
    exact ⟨trivial, fun _ => .inr (isOwn_lookup hlookup)⟩
  case helpers =>
    refine ⟨fun name hname => ⟨helperVocabulary_binds _ ?_, trivial⟩, trivial⟩
    revert name
    decide
  case source =>
    refine covers_known_stmts _ fun x hx => ⟨trivial, fun _ => .inl hx, fun _ => .inr (.inl hx)⟩
  case vars =>
    intro st hst b hb _
    exact isOwn_hoisted (hmember st hst _ (List.mem_append_right _ (List.mem_map.mpr ⟨b, hb, rfl⟩)))
  case top =>
    intro st hst name hname
    exact ⟨fun _ => isOwn_hoisted (hmember st hst _ (List.mem_append_left _ hname)), trivial⟩
  case inUse => exact ⟨fun _ _ => trivial, fun h _ => .inl h⟩
  case stars => exact fun name hname => ⟨helperVocabulary_binds _ (hstars name hname), trivial⟩
  case starCalls =>
    exact fun name hname => helperVocabulary_calls _ (hstars name (StarExport.mem_declaredNames hname))
  case parameters =>
    intro name hname
    have hmade := hgiven.isMadeUp name (hsublist.subset hname)
    exact ⟨helperVocabulary_binds _ hmade.not_mem_helperNames, trivial⟩

end run

/-! ## Resolution -/

/-- The helper for object rests, as the registered function declares it. -/
def restBinding : Binding := ⟨.synthetic restName, { isVariable := true }, none⟩

theorem bodyBindings_rest : bodyBindings [Rest.define] = [restBinding] := rfl

theorem mem_bodyBindings_append {before after : List Stmt} {b : Binding} :
    b ∈ bodyBindings (before ++ after) ↔ b ∈ bodyBindings before ∨ b ∈ bodyBindings after := by
  simp only [bodyBindings, blockLexicalBindings, blockVarBindings_append,
    List.flatMap_append, List.mem_append]
  tauto

theorem stmtsUses_append (before after : List Stmt) (sc : Scopes) (d : Nat) :
    stmtsUses (before ++ after) sc d = stmtsUses before sc d ++ stmtsUses after sc d := by
  induction before with
  | nil => rfl
  | cons st before ih => rw [List.cons_append, stmtsUses, stmtsUses, ih, List.append_assoc]

/-- What a name means that only the module itself and the outermost scope may bind. -/
theorem Scopes.find?_bounded {V : Vocabulary} {inner : Scopes} {top : List Binding} {name : String}
    {b : Binding} (hinner : ∀ bs ∈ inner, V.Binds bs)
    (hfound : Scopes.find? (inner ++ [top]) name = some b) :
    b.ident.name = name ∧ (V.binds b.ident ∨ b ∈ top) := by
  obtain ⟨bs, hbs, hb⟩ := List.exists_of_findSome?_eq_some hfound
  refine ⟨by simpa using List.find?_some hb, ?_⟩
  have hmem := List.mem_of_find?_eq_some hb
  rcases List.mem_append.mp hbs with h | h
  · exact .inl (hinner bs h b hmem)
  · obtain rfl := List.mem_singleton.mp h
    exact .inr hmem

/-- How the fixed names of a registered function are declared and resolved. -/
structure Setting.ResolvesHelpers (s : Setting) (f : Func) : Prop where
  /-- Where a made-up call of the helper stands anywhere, the function declares the helper, unless
  the module has a variable of that name. -/
  declared : ∀ v ∈ f.visits, v.called? = some (.synthetic restName) →
    Rest.define ∈ f.body ∨ s.IsOwn (.synthetic restName)
  /-- All other bindings of the fixed names are the module's own. -/
  bindings : ∀ u ∈ f.uses false [] 0, ∀ bs ∈ u.scopes, ∀ b ∈ bs, b.ident.name ∈ helperNames →
    s.IsOwn b.ident ∨ b = restBinding
  /-- A reference to the helper finds the helper, or a binding of the module's own around it. -/
  rest : Rest.define ∈ f.body → ∀ u ∈ f.uses false [] 0, u.ident.name = restName →
    ∃ b, u.scopes.find? restName = some b ∧ (b = restBinding ∨ s.IsOwn b.ident)
  /-- A reference to the global finds nothing, or a binding of the module's own around it. -/
  global : ∀ u ∈ f.uses false [] 0, u.ident.name = helperGlobal →
    ∀ b, u.scopes.find? helperGlobal = some b → s.IsOwn b.ident

section resolution
variable {options : Options} {t : NameTable} {file : SourceFile} {lowered : Lowered}
  {s : Setting} {f : Func}

/-- The scope of a registered function: what is bound in it may be bound, or is the helper. -/
structure Func.Bounded (f : Func) (V : Vocabulary) : Prop where
  name : f.name = none
  top : ∀ b ∈ paramBindings f.params ++ bodyBindings f.body, V.binds b.ident ∨ b = restBinding
  uses : V.Bounds [paramBindings f.params ++ bodyBindings f.body]
    (stmtsUses f.body [paramBindings f.params ++ bodyBindings f.body] 0)

/-- Whether a body defines the helper or not, its references see only what may be bound. -/
theorem bounded_of_parts {V : Vocabulary} {params : List Param} {before after : List Stmt}
    {needsRest : Bool} (hV : V.KnowsHelpers) (hparams : V.Covers (paramsVisits params))
    (hbefore : V.Covers (stmtsVisits before)) (hafter : V.Covers (stmtsVisits after)) :
    Func.Bounded ⟨none, params, before ++ (if needsRest then [Rest.define] else []) ++ after,
      false, false⟩ V := by
  refine ⟨rfl, fun b hb => ?_, ?_⟩
  · rcases List.mem_append.mp hb with hparam | hbody
    · exact .inl (binds_paramBindings params hparams b hparam)
    · rcases mem_bodyBindings_append.mp hbody with hbody | hafterwards
      · rcases mem_bodyBindings_append.mp hbody with hfirst | hrest
        · exact .inl (binds_bodyBindings hbefore b hfirst)
        · cases needsRest with
          | false => cases hrest
          | true => exact .inr (List.mem_singleton.mp hrest)
      · exact .inl (binds_bodyBindings hafter b hafterwards)
  · simp only [stmtsUses_append, bounds_append]
    refine ⟨⟨bounds_stmtsUses _ _ _ hbefore, ?_⟩, bounds_stmtsUses _ _ _ hafter⟩
    cases needsRest with
    | false => exact bounds_nil
    | true =>
      obtain ⟨value, heq, hvalue⟩ := hV.covers_restValue
      rw [if_pos rfl, heq]
      have huses := value.bounds_uses [paramBindings params ++ bodyBindings (before ++
        (if true = true then [Stmt.varInit restName (some value)] else []) ++ after)] 1 hvalue
      simpa [stmtsUses, Stmt.uses_var, Stmt.varInit, VarList.uses, declaratorsUses,
        Declarator.ofName, Declarator.uses, Pattern.uses, exprUses?] using huses

/-- A reference finds a binding of the module's own, or the helper. -/
theorem Func.Bounded.own {needsRest : Bool} (hf : f.Bounded (s.helperVocabulary needsRest))
    {u : NameUse} (hu : u ∈ f.uses false [] 0) {name : String} (hname : name ∈ helperNames)
    {b : Binding} (hb : u.scopes.find? name = some b) :
    b.ident.name = name ∧ (s.IsOwn b.ident ∨ b = restBinding) := by
  obtain ⟨fname, params, body, isAsync, isGenerator⟩ := f
  obtain rfl : fname = none := hf.name
  obtain ⟨inner, hscopes, hinner⟩ := hf.uses u hu
  rw [hscopes] at hb
  obtain ⟨heq, hbound⟩ := Scopes.find?_bounded hinner hb
  refine ⟨heq, ?_⟩
  rcases hbound with hbinds | htop
  · exact .inl (hbinds (heq ▸ hname))
  · exact (hf.top b htop).imp_left fun hbinds => hbinds (heq ▸ hname)

theorem resolvesHelpers_of_bounded {needsRest : Bool}
    (hf : f.Bounded (s.helperVocabulary needsRest))
    (hdeclared : ∀ v ∈ f.visits, v.called? = some (.synthetic restName) →
      Rest.define ∈ f.body ∨ s.IsOwn (.synthetic restName)) : s.ResolvesHelpers f where
  declared := hdeclared
  bindings := by
    intro u hu bs hbs b hb hname
    obtain ⟨fname, params, body, isAsync, isGenerator⟩ := f
    obtain rfl : fname = none := hf.name
    obtain ⟨inner, hscopes, hinner⟩ := hf.uses u hu
    rw [hscopes] at hbs
    rcases List.mem_append.mp hbs with h | h
    · exact .inl (hinner bs h b hb hname)
    · obtain rfl := List.mem_singleton.mp h
      exact (hf.top b hb).imp_left fun hbinds => hbinds hname
  rest := by
    intro hdefine u hu hident
    have hrest : restName ∈ helperNames := List.mem_cons_self ..
    have hsome : (u.scopes.find? restName).isSome := by
      obtain ⟨fname, params, body, isAsync, isGenerator⟩ := f
      obtain rfl : fname = none := hf.name
      obtain ⟨inner, hscopes, hinner⟩ := hf.uses u hu
      have hmem : restBinding ∈ bodyBindings body := by
        obtain ⟨before, after, rfl⟩ := List.append_of_mem hdefine
        rw [← List.singleton_append]
        exact mem_bodyBindings_append.mpr (.inr (mem_bodyBindings_append.mpr
          (.inl (List.mem_singleton.mpr rfl))))
      rw [hscopes, Scopes.find?, List.findSome?_isSome_iff]
      refine ⟨_, List.mem_append_right _ (List.mem_singleton.mpr rfl), ?_⟩
      rw [List.find?_isSome]
      exact ⟨restBinding, List.mem_append_right _ hmem, rfl⟩
    obtain ⟨b, hb⟩ := Option.isSome_iff_exists.mp hsome
    exact ⟨b, hb, (hf.own hu hrest hb).2.symm⟩
  global := by
    intro u hu hident b hb
    have hglobal : helperGlobal ∈ helperNames := List.mem_cons_of_mem _ (List.mem_cons_self ..)
    obtain ⟨hname, hown | rfl⟩ := hf.own hu hglobal hb
    · exact hown
    · exact absurd hname (by decide)

/-- `export var r; function f(__rest) { ({ ...r } = o); }` -/
def shadowedHelperModule : SourceFile where
  id := .numbered 20
  name := "m.ts"
  statements := [
    .var { isExported := true } ⟨.var, [⟨.ident ⟨.numbered 0, "r"⟩, none⟩]⟩,
    .function {} ⟨some ⟨.numbered 1, "f"⟩, [⟨.ident ⟨.numbered 2, "__rest"⟩, none, false⟩],
      [.expr (.assign .plain (.object [] (some (.ident ⟨.numbered 3, "r"⟩)))
        (.ident ⟨.numbered 4, "o"⟩))], false, false⟩]

end resolution

end RegisterForm
