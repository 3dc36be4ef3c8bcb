import RegisterForm.Proofs.Fresh.Assembled
import RegisterForm.Proofs.Hoist.Lowered
import RegisterForm.Proofs.Registration.Clauses
/-!
# Hoisted names and the scope of the module

The names that the statements of a file hoist are the names of certain symbols of the module's
scope: of variables, classes and functions, of import assignments that give a value, and of imports
that bind a namespace and nothing else.
-/
namespace RegisterForm
open Lowering

/-! ## Kinds of symbols -/

/-- Declared by `var`, `let` or `const`, or as a class or function. -/
def Roles.isHoisted (r : Roles) : Bool := r.isVariable || r.isLexical || r.isClass || r.isFunction

theorem Roles.isHoisted_union (r r' : Roles) :
    (r.union r').isHoisted = (r.isHoisted || r'.isHoisted) := by
  simp only [isHoisted, union]
  grind

@[simp] theorem Symbol.marked_isHoisted (isNamed : Bool) (s : Symbol) :
    (s.marked isNamed).roles.isHoisted = s.roles.isHoisted := by
  unfold Symbol.marked
  split <;> rfl

/-- The symbols of a module's scope that the registered function declares under their names. -/
inductive SourceFile.HoistsSymbol (file : SourceFile) (symbol : Symbol) : Prop
  | declared (h : symbol.roles.isHoisted = true)
  /-- An import assignment that gives a value. -/
  | assignment {site : Site} {isExported : Bool} {x : Ident} {kind : Reference} {value : Expr}
    (hst : .importEquals site isExported x kind value ∈ file.statements)
    (hvalue : (NameTable.ofFile file).importEqualsIsValue kind value = true)
    (hx : x.id = symbol.declaration)
  /-- An import, of values, that binds a namespace and nothing else. -/
  | star {site : Site} {x : Ident} {specifier : Expr}
    (hst : .importFrom site (some ⟨none, some (.star x)⟩) specifier false ∈ file.statements)
    (hx : x.id = symbol.declaration)

/-! ## Identifiers that are hoisted -/

/-- The identifiers of a top-level statement that become variables of the module, those of its
inner `var`s aside. -/
def Stmt.ownVars (t : NameTable) : Stmt → List Ident
  | .var _ list => list.boundIdents
  | .classDecl _ c => c.name.toList
  | .importFrom _ (some ⟨none, some (.star x)⟩) _ false => [x]
  | .importEquals _ _ x kind value => if t.importEqualsIsValue kind value then [x] else []
  | _ => []

namespace SourceFile

/-- The identifiers of a file that become variables of the module. -/
def hoistedVars (file : SourceFile) : List Ident :=
  file.statements.flatMap fun st =>
    st.varBindings.map (·.ident) ++ st.ownVars (NameTable.ofFile file)

/-- The names of the functions that stand directly in the module. -/
def hoistedFunctions (file : SourceFile) : List Ident :=
  file.statements.filterMap Stmt.functionName?

end SourceFile

/-! ## Their declarations -/

section bindings
variable {file : SourceFile} {st : Stmt} {t : NameTable} {x : Ident} {b : Binding}

/-! ### `var` bindings -/

/-- Declared by `var` and in no other way. -/
def Binding.IsVar (b : Binding) : Prop := ∃ isExported, b.roles = { isVariable := true, isExported }

theorem Binding.IsVar.isHoisted (h : b.IsVar) : b.roles.isHoisted = true := by
  obtain ⟨isExported, hroles⟩ := h
  rw [hroles]
  rfl

theorem Binding.IsVar.isFunction (h : b.IsVar) : b.roles.isFunction = false := by
  obtain ⟨isExported, hroles⟩ := h
  rw [hroles]

theorem VarList.isVar_varBindings (isExported : Bool) (list : VarList) :
    ∀ b ∈ list.varBindings isExported, b.IsVar := by
  intro b hb
  unfold VarList.varBindings at hb
  split at hb
  · cases hb
  · obtain ⟨x, -, rfl⟩ := List.mem_map.mp hb
    exact ⟨isExported, rfl⟩

theorem ForInit.isVar_varBindings : (init : ForInit) → ∀ b ∈ init.varBindings, b.IsVar
  | .var list => list.isVar_varBindings false
  | .absent | .expr _ => List.forall_mem_nil _

theorem ForHead.isVar_varBindings (head : ForHead) : ∀ b ∈ head.varBindings, b.IsVar := by
  cases head with
  | var list => exact list.isVar_varBindings false
  | pattern _ => exact List.forall_mem_nil _

mutual

theorem Stmt.isVar_varBindings : (st : Stmt) → ∀ b ∈ st.varBindings, b.IsVar
  | .var modifiers list => list.isVar_varBindings modifiers.isExported
  | .block body => isVar_blockVarBindings body
  | .ifThen _ yes => yes.isVar_varBindings
  | .ifElse _ yes no => List.forall_mem_append.mpr ⟨yes.isVar_varBindings, no.isVar_varBindings⟩
  | .forLoop init _ _ body =>
    List.forall_mem_append.mpr ⟨init.isVar_varBindings, body.isVar_varBindings⟩
  | .forIn head _ body | .forOf head _ body _ =>
    List.forall_mem_append.mpr ⟨head.isVar_varBindings, body.isVar_varBindings⟩
  | .whileLoop _ body | .doWhile body _ | .labeled _ body | .withObject _ body =>
    body.isVar_varBindings
  | .tryCatch body handler finalizer =>
    List.forall_mem_append.mpr ⟨List.forall_mem_append.mpr ⟨isVar_blockVarBindings body,
      isVar_catchVarBindings handler⟩, isVar_finallyVarBindings finalizer⟩
  | .switch _ cases => isVar_casesVarBindings cases
  | .expr _ | .function _ _ | .classDecl _ _ | .importFrom _ _ _ _ | .importEquals _ _ _ _ _
  | .exportFrom _ _ _ _ | .exportValue _ _ _ | .ambient _ _ | .ret _ | .throw _ | .breakTo _
  | .continueTo _ | .empty | .debugger => List.forall_mem_nil _
termination_by structural st => st

theorem isVar_blockVarBindings : (sts : List Stmt) → ∀ b ∈ blockVarBindings sts, b.IsVar
  | [] => List.forall_mem_nil _
  | st :: sts => List.forall_mem_append.mpr ⟨st.isVar_varBindings, isVar_blockVarBindings sts⟩
termination_by structural sts => sts

theorem isVar_catchVarBindings : (c : Option Catch) → ∀ b ∈ catchVarBindings c, b.IsVar
  | none => List.forall_mem_nil _
  | some ⟨_, body⟩ => isVar_blockVarBindings body
termination_by structural c => c

theorem isVar_finallyVarBindings : (body : Option (List Stmt)) →
    ∀ b ∈ finallyVarBindings body, b.IsVar
  | none => List.forall_mem_nil _
  | some body => isVar_blockVarBindings body
termination_by structural body => body

theorem isVar_casesVarBindings : (cs : List Case) → ∀ b ∈ casesVarBindings cs, b.IsVar
  | [] => List.forall_mem_nil _
  | ⟨_, body⟩ :: cs =>
    List.forall_mem_append.mpr ⟨isVar_blockVarBindings body, isVar_casesVarBindings cs⟩
termination_by structural cs => cs

end

theorem exists_bindingsOf {roles : Roles} {xs : List Ident} (hx : x ∈ xs) :
    ⟨x, roles, none⟩ ∈ bindingsOf roles xs := List.mem_map.mpr ⟨x, hx, rfl⟩

/-- A variable or class that a statement hoists is declared by it, and so is what an import
hoists. -/
theorem Stmt.exists_binding_of_ownVars (hx : x ∈ st.ownVars t) :
    (∃ b ∈ st.moduleBindings, b.ident = x ∧ b.roles.isFunction = false ∧
        b.roles.isHoisted = true) ∨
      (∃ b ∈ st.lexicalBindings true, b.ident = x ∧ b.roles.isFunction = false) ∧
        ((∃ site specifier, st = .importFrom site (some ⟨none, some (.star x)⟩) specifier false) ∨
          ∃ site isExported kind value, st = .importEquals site isExported x kind value ∧
            t.importEqualsIsValue kind value = true) := by
  unfold Stmt.ownVars at hx
  split at hx
  · next modifiers list =>
    obtain ⟨kind, declarators⟩ := list
    cases kind
    · exact .inl ⟨_, List.mem_append_left _ (exists_bindingsOf hx), rfl, rfl, rfl⟩
    · exact .inl ⟨_, List.mem_append_right _ (exists_bindingsOf hx), rfl, rfl, rfl⟩
    · exact .inl ⟨_, List.mem_append_right _ (exists_bindingsOf hx), rfl, rfl, rfl⟩
  · next modifiers c =>
    exact .inl ⟨_, List.mem_append_right _ (exists_bindingsOf hx), rfl, rfl, rfl⟩
  · next site y specifier =>
    obtain rfl := List.mem_singleton.mp hx
    refine .inr ⟨⟨_, List.mem_singleton_self _, rfl, rfl⟩, .inl ⟨site, specifier, rfl⟩⟩
  · next site isExported y kind value =>
    split at hx
    · next hvalue =>
      obtain rfl := List.mem_singleton.mp hx
      exact .inr ⟨⟨_, List.mem_singleton_self _, rfl, rfl⟩,
        .inr ⟨site, isExported, kind, value, rfl, hvalue⟩⟩
    · cases hx
  · cases hx

/-- An import declares no variable of its own. -/
theorem ImportClause.isHoisted_bindingsOf {c : ImportClause} {d : NodeId} {isTypeOnly : Bool}
    (hb : b ∈ c.bindingsOf d isTypeOnly) : b.roles.isHoisted = false := by
  obtain ⟨default, bindings⟩ := c
  rcases List.mem_append.mp hb with h | h
  · obtain ⟨x, -, rfl⟩ := List.mem_map.mp h
    rfl
  · cases bindings with
    | none => cases h
    | some bindings =>
      cases bindings with
      | star x =>
        obtain rfl := List.mem_singleton.mp h
        rfl
      | named specifiers =>
        obtain ⟨spec, -, rfl⟩ := List.mem_map.mp h
        rfl

/-- A declared variable, class or function is hoisted. -/
theorem Stmt.mem_hoisted_of_binding (hb : b ∈ st.moduleBindings)
    (hroles : b.roles.isHoisted = true) :
    b.ident ∈ st.varBindings.map (·.ident) ++ st.ownVars t ∨ st.functionName? = some b.ident := by
  rcases List.mem_append.mp hb with hvar | hlexical
  · exact .inl (List.mem_append_left _ (List.mem_map_of_mem hvar))
  · cases st with
    | var modifiers list =>
      refine .inl (List.mem_append_right _ ?_)
      change b ∈ list.lexicalBindings modifiers.isExported at hlexical
      unfold VarList.lexicalBindings at hlexical
      split at hlexical
      · obtain ⟨x, hx, rfl⟩ := List.mem_map.mp hlexical
        exact hx
      · cases hlexical
    | function modifiers f =>
      obtain ⟨x, hx, rfl⟩ := List.mem_map.mp hlexical
      exact .inr (Option.mem_toList.mp hx)
    | classDecl modifiers c =>
      obtain ⟨x, hx, rfl⟩ := List.mem_map.mp hlexical
      exact .inl (List.mem_append_right _ hx)
    | importFrom site clause specifier isTypeOnly =>
      obtain ⟨c, -, hc⟩ := List.mem_flatMap.mp
        (show b ∈ clause.toList.flatMap (·.bindingsOf site.id isTypeOnly) from hlexical)
      rw [c.isHoisted_bindingsOf hc] at hroles
      cases hroles
    | importEquals site isExported name kind value =>
      obtain rfl := List.mem_singleton.mp (show b ∈ [_] from hlexical)
      cases hroles
    | ambient name isExported =>
      obtain rfl := List.mem_singleton.mp (show b ∈ [_] from hlexical)
      cases hroles
    | _ => cases hlexical

end bindings

/-! ## Their symbols -/

section symbols
variable {file : SourceFile} {x : Ident} {name : String} {symbol : Symbol}

namespace NameTable

/-- The module's scope holds what the declarations of the module make, marked as far as a local
clause names it. -/
theorem moduleSymbol?_ofFile (hids : ((identsIn file.visits).map (·.id)).Nodup) (name : String) :
    ∃ isNamed, (ofFile file).moduleSymbol? name =
      (symbolFor 0 name file.bindings).map (.marked isNamed) := by
  rw [moduleSymbol?, ofFile_lookupIn, ← (declared_holds_of_nodup hids).symbol name]
  cases hin : (declared file).lookupIn 0 name with
  | none => exact ⟨false, rfl⟩
  | some id =>
    obtain ⟨s, hs, -, hscope⟩ := (declared_within file).wf.symbol_of_lookupIn hin
    obtain ⟨s', hs', -, -, -, hsame⟩ := (readThrough_within file).symbol hs
    obtain rfl : s' = s := hsame (hscope ▸ Nat.zero_lt_one)
    refine ⟨(exportedSpecifiers file.statements).any fun spec =>
      (ofFile file).ofSpecifier.lookup spec.id == some id, ?_⟩
    rw [Option.bind_some, Option.bind_some, ofFile_symbol, hs', hs]

end NameTable

namespace SourceFile

/-- A variable is hoisted under a name that the module declares as something else than a
function. -/
theorem exists_binding_of_hoistedVars (hx : x ∈ file.hoistedVars) :
    ∃ b ∈ file.bindings, b.ident = x ∧ b.roles.isFunction = false := by
  obtain ⟨st, hst, hx⟩ := List.mem_flatMap.mp hx
  rcases List.mem_append.mp hx with hvar | hown
  · obtain ⟨b, hb, rfl⟩ := List.mem_map.mp hvar
    exact ⟨b, mem_bindings.mpr ⟨st, hst, List.mem_append_left _ hb⟩, rfl,
      (st.isVar_varBindings b hb).isFunction⟩
  · rcases Stmt.exists_binding_of_ownVars hown with ⟨b, hb, rfl, hrole, -⟩ |
      ⟨⟨b, hb, rfl, hrole⟩, -⟩
    · exact ⟨b, mem_bindings.mpr ⟨st, hst, hb⟩, rfl, hrole⟩
    · exact ⟨b, mem_bindings.mpr ⟨st, hst, List.mem_append_right _ hb⟩, rfl, hrole⟩

theorem exists_binding_of_hoistedFunctions (hx : x ∈ file.hoistedFunctions) :
    ∃ b ∈ blockLexicalBindings true file.statements, b.ident = x ∧ b.roles.isFunction = true := by
  obtain ⟨st, hst, hname⟩ := List.mem_filterMap.mp hx
  cases st with
  | function modifiers f =>
    exact ⟨_, List.mem_flatMap.mpr ⟨_, hst, exists_bindingsOf (Option.mem_toList.mpr hname)⟩, rfl,
      rfl⟩
  | _ => cases hname

/-- No name is hoisted both for a variable and for a function, and none for two functions. -/
theorem DeclaresOnce.hoisted (hd : file.DeclaresOnce) :
    (file.hoistedFunctions.map (·.name)).Nodup ∧
      ∀ x ∈ file.hoistedVars, ∀ y ∈ file.hoistedFunctions, x.name ≠ y.name := by
  refine ⟨hd.lexical.sublist ?_, fun x hx y hy hname => ?_⟩
  · rw [hoistedFunctions, blockLexicalBindings]
    induction file.statements with
    | nil => exact .refl _
    | cons st sts ih =>
      have hone : (st.functionName?.toList.map (·.name)).Sublist
          ((st.lexicalBindings true).map (·.ident.name)) := by
        cases st with
        | function modifiers f =>
          have hnames : ((Stmt.function modifiers f).lexicalBindings true).map (·.ident.name) =
              f.name.toList.map (·.name) := by
            simp [Stmt.lexicalBindings, bindingsOf]
          rw [hnames]
          exact .refl _
        | _ => exact List.nil_sublist _
      have hboth := hone.append ih
      rw [List.flatMap_cons, List.map_append]
      cases hname : st.functionName? <;> simpa [hname] using hboth
  · obtain ⟨b, hb, rfl, hvariable⟩ := exists_binding_of_hoistedVars hx
    obtain ⟨c, hc, rfl, hfunction⟩ := exists_binding_of_hoistedFunctions hy
    rw [hd.eq_of_name hb hc hname, hfunction] at hvariable
    cases hvariable

/-- A declaration of a name makes a symbol, which is first declared by the only lexical declaration
of the name if there is one. -/
theorem exists_symbolFor {b : Binding} (hb : b ∈ file.bindings) : ∃ made,
    symbolFor 0 b.ident.name file.bindings = some made ∧
      (file.DeclaresOnce → b ∈ blockLexicalBindings true file.statements →
        made.declaration = b.ident.id) := by
  have hsome : (symbolFor 0 b.ident.name file.bindings).isSome = true := by
    rw [symbolFor_isSome]
    exact List.any_eq_true.mpr ⟨b, hb, beq_self_eq_true _⟩
  obtain ⟨made, hmade⟩ := Option.isSome_iff_exists.mp hsome
  refine ⟨made, hmade, fun hd hlexical => ?_⟩
  obtain ⟨-, -, c, hfirst, hdeclaration⟩ := symbolFor_eq_some hmade
  have hname : c.ident.name = b.ident.name := by simpa using List.find?_some hfirst
  rw [hdeclaration, hd.eq_of_name (List.mem_of_find?_eq_some hfirst) hlexical hname]

/-- What a made symbol is tells what some declaration of its name is. -/
theorem isHoisted_symbolFor {made : Symbol} (h : symbolFor 0 name file.bindings = some made) :
    made.roles.isHoisted = true ↔
      ∃ b ∈ file.bindings, b.ident.name = name ∧ b.roles.isHoisted = true := by
  rw [symbolFor_any Roles.isHoisted_union h, List.any_eq_true]
  simp only [Bool.and_eq_true, beq_iff_eq]

/-- What is hoisted has a symbol of the module's scope. -/
theorem exists_symbol_of_hoisted (hids : ((identsIn file.visits).map (·.id)).Nodup)
    (hd : file.DeclaresOnce) (hx : x ∈ file.hoistedVars ++ file.hoistedFunctions) :
    ∃ symbol, (NameTable.ofFile file).moduleSymbol? x.name = some symbol ∧
      file.HoistsSymbol symbol := by
  obtain ⟨isNamed, hmodule⟩ := NameTable.moduleSymbol?_ofFile hids x.name
  rw [hmodule]
  have hdeclared : ∀ b ∈ file.bindings, b.ident = x → b.roles.isHoisted = true →
      ∃ symbol, (symbolFor 0 x.name file.bindings).map (.marked isNamed) = some symbol ∧
        file.HoistsSymbol symbol := by
    rintro b hb rfl hrole
    obtain ⟨made, hmade, -⟩ := exists_symbolFor hb
    refine ⟨made.marked isNamed, by rw [hmade]; rfl, .declared ?_⟩
    rw [Symbol.marked_isHoisted]
    exact (isHoisted_symbolFor hmade).mpr ⟨b, hb, rfl, hrole⟩
  rcases List.mem_append.mp hx with hvar | hfunction
  · obtain ⟨st, hst, hvar⟩ := List.mem_flatMap.mp hvar
    rcases List.mem_append.mp hvar with hinner | hown
    · obtain ⟨b, hb, hident⟩ := List.mem_map.mp hinner
      exact hdeclared b (mem_bindings.mpr ⟨st, hst, List.mem_append_left _ hb⟩) hident
        (st.isVar_varBindings b hb).isHoisted
    · rcases Stmt.exists_binding_of_ownVars hown with ⟨b, hb, hident, -, hrole⟩ |
        ⟨⟨b, hb, rfl, -⟩, himport⟩
      · exact hdeclared b (mem_bindings.mpr ⟨st, hst, hb⟩) hident hrole
      · have hlexical : b ∈ blockLexicalBindings true file.statements :=
          List.mem_flatMap.mpr ⟨st, hst, hb⟩
        obtain ⟨made, hmade, hdeclaration⟩ := exists_symbolFor (List.mem_append_right _ hlexical)
        have hid : b.ident.id = (made.marked isNamed).declaration := by
          rw [Symbol.marked_declaration, hdeclaration hd hlexical]
        refine ⟨made.marked isNamed, by rw [hmade]; rfl, ?_⟩
        rcases himport with ⟨site, specifier, rfl⟩ | ⟨site, isExported, kind, value, rfl, hvalue⟩
        · exact .star hst hid
        · exact .assignment hst hvalue hid
  · obtain ⟨b, hb, hident, hrole⟩ := exists_binding_of_hoistedFunctions hfunction
    refine hdeclared b (List.mem_append_right _ hb) hident ?_
    rw [Roles.isHoisted, hrole, Bool.or_true]

/-- A symbol that is hoisted is hoisted under an identifier of its name. -/
theorem exists_hoisted_of_symbol (hids : ((identsIn file.visits).map (·.id)).Nodup)
    (hsymbol : (NameTable.ofFile file).moduleSymbol? name = some symbol)
    (hhoists : file.HoistsSymbol symbol) :
    ∃ x ∈ file.hoistedVars ++ file.hoistedFunctions, x.name = name := by
  obtain ⟨isNamed, hmodule⟩ := NameTable.moduleSymbol?_ofFile hids name
  rw [hmodule] at hsymbol
  obtain ⟨made, hmade, rfl⟩ := Option.map_eq_some_iff.mp hsymbol
  obtain ⟨-, -, c, hfirst, hdeclaration⟩ := symbolFor_eq_some hmade
  have hc := List.mem_of_find?_eq_some hfirst
  have hcname : c.ident.name = name := by simpa using List.find?_some hfirst
  -- An identifier with the symbol's identity is the one that declares the symbol.
  have hown : ∀ st ∈ file.statements, ∀ x ∈ st.ownVars (NameTable.ofFile file),
      x.id = (made.marked isNamed).declaration →
      ∃ x ∈ file.hoistedVars ++ file.hoistedFunctions, x.name = name := by
    intro st hst x hx hid
    have hmem : x ∈ file.hoistedVars :=
      List.mem_flatMap.mpr ⟨st, hst, List.mem_append_right _ hx⟩
    obtain ⟨b, hb, rfl, -⟩ := exists_binding_of_hoistedVars hmem
    rw [Symbol.marked_declaration, hdeclaration] at hid
    have hsame : b.ident = c.ident :=
      List.inj_on_of_nodup_map hids (ident_mem_visits hb) (ident_mem_visits hc) hid
    exact ⟨b.ident, List.mem_append_left _ hmem, hsame ▸ hcname⟩
  cases hhoists with
  | declared h =>
    rw [Symbol.marked_isHoisted] at h
    obtain ⟨b, hb, hname, hrole⟩ := (isHoisted_symbolFor hmade).mp h
    obtain ⟨st, hst, hb⟩ := mem_bindings.mp hb
    refine ⟨b.ident, ?_, hname⟩
    rcases Stmt.mem_hoisted_of_binding (t := NameTable.ofFile file) hb hrole with hvar | hfunction
    · exact List.mem_append_left _ (List.mem_flatMap.mpr ⟨st, hst, hvar⟩)
    · exact List.mem_append_right _ (List.mem_filterMap.mpr ⟨st, hst, hfunction⟩)
  | assignment hst hvalue hx => exact hown _ hst _ (by simp [Stmt.ownVars, hvalue]) hx
  | star hst hx => exact hown _ hst _ (List.mem_singleton_self _) hx

/-- What is hoisted under a name of the file is what certain symbols of the module's scope stand
for. -/
theorem mem_hoisted_iff (hids : ((identsIn file.visits).map (·.id)).Nodup) (hd : file.DeclaresOnce)
    (name : String) :
    (∃ x ∈ file.hoistedVars ++ file.hoistedFunctions, x.name = name) ↔
      ∃ symbol, (NameTable.ofFile file).moduleSymbol? name = some symbol ∧
        file.HoistsSymbol symbol := by
  constructor
  · rintro ⟨x, hx, rfl⟩
    exact exists_symbol_of_hoisted hids hd hx
  · rintro ⟨symbol, hsymbol, hhoists⟩
    exact exists_hoisted_of_symbol hids hsymbol hhoists

end SourceFile
end symbols
end RegisterForm
