import RegisterForm.Proofs.Tree.WellFormed
import RegisterForm.Scope.Declaration
/-!
# Functions around an occurrence

Every identifier of a tree with the functions that it stands in. What a function body declares
with `var` is in scope in the body, but not in the parameter list of the same function.
-/
namespace RegisterForm

/-- A function, a method, an arrow function or a static block that an identifier stands in. -/
structure Enclosure where
  /-- What its body declares with `var`. -/
  vars : List String
  /-- Whether the identifier stands in the body, and not in the parameter list. -/
  inBody : Bool
  deriving DecidableEq

/-- An occurrence of an identifier, and the functions around it, the innermost first. -/
structure Sight where
  name : String
  around : List Enclosure
  deriving DecidableEq

namespace Sight

/-- A `var` declares the name, and is in scope. -/
def InScope (u : Sight) : Prop := ∃ e ∈ u.around, e.inBody = true ∧ u.name ∈ e.vars

instance (u : Sight) : Decidable u.InScope := inferInstanceAs (Decidable (∃ e ∈ u.around, _))

/-- The occurrence stands in the parameter list of a function whose body declares the name. -/
def InParameters (u : Sight) : Prop := ∃ e ∈ u.around, e.inBody = false ∧ u.name ∈ e.vars

/-- A function around declares the name, wherever in it the name occurs. -/
def Declared (u : Sight) : Prop := ∃ e ∈ u.around, u.name ∈ e.vars

theorem declared_iff (u : Sight) : u.Declared ↔ u.InScope ∨ u.InParameters := by
  constructor
  · rintro ⟨e, he, hname⟩
    cases hbody : e.inBody with
    | true => exact .inl ⟨e, he, hbody, hname⟩
    | false => exact .inr ⟨e, he, hbody, hname⟩
  · rintro (⟨e, he, -, hname⟩ | ⟨e, he, -, hname⟩) <;> exact ⟨e, he, hname⟩

end Sight

/-- What the statements of a function body declare with `var`. -/
def bodyVars (body : List Stmt) : List String := (blockVarBindings body).map (·.ident.name)

/-- Identifiers that stand where the given functions are around. -/
def sightsOf (xs : List Ident) (around : List Enclosure) : List Sight := xs.map (⟨·.name, around⟩)

mutual

def Expr.sights : Expr → List Enclosure → List Sight
  | .ident x, around => sightsOf [x] around
  | .literal _, _ | .this, _ | .super, _ | .importMeta, _ => []
  | .template _ parts, around => exprsSights parts around
  | .tagged tag _ parts, around => tag.sights around ++ exprsSights parts around
  | .array elements, around => slotsSights elements around
  | .object properties, around => propertiesSights properties around
  | .function f, around => f.sights around
  | .arrow params body _, around =>
    paramsSights params (⟨bodyVars body.statements, false⟩ :: around)
      ++ body.sights (⟨bodyVars body.statements, true⟩ :: around)
  | .classExpr c, around => c.sights around
  | .unary _ arg, around => arg.sights around
  | .update _ _ arg, around => arg.sights around
  | .binary _ left right, around => left.sights around ++ right.sights around
  | .assign _ target value, around => target.sights around ++ value.sights around
  | .conditional test yes no, around =>
    test.sights around ++ yes.sights around ++ no.sights around
  | .call callee args _, around => callee.sights around ++ exprsSights args around
  | .newBare callee, around => callee.sights around
  | .newCall callee args, around => callee.sights around ++ exprsSights args around
  | .member owner _ _, around => owner.sights around
  | .index owner key _, around => owner.sights around ++ key.sights around
  | .sequence exprs, around => exprsSights exprs around
  | .paren inner, around => inner.sights around
  | .yield arg _, around => exprSights? arg around
  | .await arg, around => arg.sights around
  | .spread arg, around => arg.sights around
  | .importCall specifier, around => specifier.sights around

def exprsSights : List Expr → List Enclosure → List Sight
  | [], _ => []
  | e :: es, around => e.sights around ++ exprsSights es around

def exprSights? : Option Expr → List Enclosure → List Sight
  | none, _ => []
  | some e, around => e.sights around

def slotsSights : List (Option Expr) → List Enclosure → List Sight
  | [], _ => []
  | e :: es, around => exprSights? e around ++ slotsSights es around

def Key.sights : Key → List Enclosure → List Sight
  | .computed e, around => e.sights around
  | _, _ => []

def Property.sights : Property → List Enclosure → List Sight
  | .keyed key value, around => key.sights around ++ value.sights around
  | .shorthand x, around => sightsOf [x] around
  | .method key _ f, around => key.sights around ++ f.sights around
  | .spread e, around => e.sights around

def propertiesSights : List Property → List Enclosure → List Sight
  | [], _ => []
  | p :: ps, around => p.sights around ++ propertiesSights ps around

def Pattern.sights : Pattern → List Enclosure → List Sight
  | .ident x, around => sightsOf [x] around
  | .expr e, around => e.sights around
  | .object properties rest, around =>
    patternPropertiesSights properties around ++ patternSights? rest around
  | .array elements rest, around =>
    patternSlotsSights elements around ++ patternSights? rest around

def patternSights? : Option Pattern → List Enclosure → List Sight
  | none, _ => []
  | some p, around => p.sights around

def PatternProperty.sights : PatternProperty → List Enclosure → List Sight
  | .keyed key target fallback, around =>
    key.sights around ++ target.sights around ++ exprSights? fallback around
  | .shorthand x fallback, around => sightsOf [x] around ++ exprSights? fallback around

def patternPropertiesSights : List PatternProperty → List Enclosure → List Sight
  | [], _ => []
  | p :: ps, around => p.sights around ++ patternPropertiesSights ps around

def PatternElement.sights : PatternElement → List Enclosure → List Sight
  | ⟨target, fallback⟩, around => target.sights around ++ exprSights? fallback around

def patternSlotSights : Option PatternElement → List Enclosure → List Sight
  | none, _ => []
  | some e, around => e.sights around

def patternSlotsSights : List (Option PatternElement) → List Enclosure → List Sight
  | [], _ => []
  | e :: es, around => patternSlotSights e around ++ patternSlotsSights es around

def Param.sights : Param → List Enclosure → List Sight
  | ⟨pattern, fallback, _⟩, around => pattern.sights around ++ exprSights? fallback around

def paramsSights : List Param → List Enclosure → List Sight
  | [], _ => []
  | p :: ps, around => p.sights around ++ paramsSights ps around

/-- The name of a function stands outside of it. -/
def Func.sights : Func → List Enclosure → List Sight
  | ⟨name, params, body, _, _⟩, around =>
    sightsOf name.toList around
      ++ paramsSights params (⟨bodyVars body, false⟩ :: around)
      ++ stmtsSights body (⟨bodyVars body, true⟩ :: around)

/-- The functions around the body include its own. -/
def ArrowBody.sights : ArrowBody → List Enclosure → List Sight
  | .block body, around => stmtsSights body around
  | .expr e, around => e.sights around

def Class.sights : Class → List Enclosure → List Sight
  | ⟨name, base, members⟩, around =>
    sightsOf name.toList around ++ exprSights? base around ++ membersSights members around

def ClassMember.sights : ClassMember → List Enclosure → List Sight
  | .method key _ _ f, around => key.sights around ++ f.sights around
  | .field key _ value, around => key.sights around ++ exprSights? value around
  | .staticBlock body, around => stmtsSights body (⟨bodyVars body, true⟩ :: around)

def membersSights : List ClassMember → List Enclosure → List Sight
  | [], _ => []
  | m :: ms, around => m.sights around ++ membersSights ms around

def Declarator.sights : Declarator → List Enclosure → List Sight
  | ⟨target, init⟩, around => target.sights around ++ exprSights? init around

def declaratorsSights : List Declarator → List Enclosure → List Sight
  | [], _ => []
  | d :: ds, around => d.sights around ++ declaratorsSights ds around

def VarList.sights : VarList → List Enclosure → List Sight
  | ⟨_, declarators⟩, around => declaratorsSights declarators around

def ForInit.sights : ForInit → List Enclosure → List Sight
  | .absent, _ => []
  | .var list, around => list.sights around
  | .expr e, around => e.sights around

def ForHead.sights : ForHead → List Enclosure → List Sight
  | .var list, around => list.sights around
  | .pattern p, around => p.sights around

def Catch.sights : Catch → List Enclosure → List Sight
  | ⟨param, body⟩, around => patternSights? param around ++ stmtsSights body around

def catchSights? : Option Catch → List Enclosure → List Sight
  | none, _ => []
  | some c, around => c.sights around

def Case.sights : Case → List Enclosure → List Sight
  | ⟨test, body⟩, around => exprSights? test around ++ stmtsSights body around

def casesSights : List Case → List Enclosure → List Sight
  | [], _ => []
  | c :: cs, around => c.sights around ++ casesSights cs around

def stmtsSights : List Stmt → List Enclosure → List Sight
  | [], _ => []
  | st :: sts, around => st.sights around ++ stmtsSights sts around

def blockSights? : Option (List Stmt) → List Enclosure → List Sight
  | none, _ => []
  | some body, around => stmtsSights body around

def Stmt.sights : Stmt → List Enclosure → List Sight
  | .expr e, around => e.sights around
  | .var _ list, around => list.sights around
  | .function _ f, around => f.sights around
  | .classDecl _ c, around => c.sights around
  | .importFrom _ clause specifier _, around =>
    sightsOf (identsIn (clause.toList.flatMap (·.visits))) around ++ specifier.sights around
  | .importEquals _ _ name _ value, around => sightsOf [name] around ++ value.sights around
  | .exportFrom _ clause specifier _, around =>
    sightsOf (identsIn (clause.toList.flatMap (·.visits))) around ++ exprSights? specifier around
  | .exportValue _ _ value, around => value.sights around
  | .ambient name _, around => sightsOf [name] around
  | .block body, around => stmtsSights body around
  | .ifThen test yes, around => test.sights around ++ yes.sights around
  | .ifElse test yes no, around => test.sights around ++ yes.sights around ++ no.sights around
  | .forLoop init test update body, around =>
    init.sights around ++ exprSights? test around ++ exprSights? update around ++ body.sights around
  | .forIn head object body, around =>
    head.sights around ++ object.sights around ++ body.sights around
  | .forOf head iterable body _, around =>
    head.sights around ++ iterable.sights around ++ body.sights around
  | .whileLoop test body, around => test.sights around ++ body.sights around
  | .doWhile body test, around => test.sights around ++ body.sights around
  | .tryCatch body handler finalizer, around =>
    stmtsSights body around ++ catchSights? handler around ++ blockSights? finalizer around
  | .switch subject cases, around => subject.sights around ++ casesSights cases around
  | .labeled _ body, around => body.sights around
  | .withObject object body, around => object.sights around ++ body.sights around
  | .ret arg, around => exprSights? arg around
  | .throw arg, around => arg.sights around
  | .breakTo _, _ | .continueTo _, _ | .empty, _ | .debugger, _ => []

end

/-! ## All occurrences -/

@[simp] theorem names_sightsOf (xs : List Ident) (around : List Enclosure) :
    (sightsOf xs around).map Sight.name = xs.map Ident.name := by
  simp [sightsOf]

/-- The occurrences are the identifiers among the visits, in order. -/
def Sight.Names (us : List Sight) (vs : List Visit) : Prop :=
  us.map Sight.name = (identsIn vs).map Ident.name

namespace Sight.Names
variable {us us' : List Sight} {vs ws : List Visit}

theorem append (h : Names us vs) (h' : Names us' ws) : Names (us ++ us') (vs ++ ws) := by
  rw [Names, List.map_append, identsIn_append, List.map_append, h, h']

/-- A node is no identifier. -/
theorem node {v : Visit} (hv : v.ident? = none) (h : Names us vs) : Names us (v :: vs) := by
  rw [Names, identsIn, List.filterMap_cons_none hv]
  exact h

theorem ident (x : Ident) (around : List Enclosure) (h : Names us vs) :
    Names (sightsOf [x] around ++ us) (.ident x :: vs) := congrArg (x.name :: ·) h

theorem idents (xs : List Ident) (around : List Enclosure) :
    Names (sightsOf xs around) (xs.map .ident) := by
  rw [Names, names_sightsOf, identsIn_map_ident]

theorem property (name : String) (h : Names us vs) : Names us (vs ++ [.name name]) := by
  rw [Names, identsIn_append, identsIn_name, identsIn_nil, List.append_nil]
  exact h

theorem names (label : Option String) : Names [] (label.toList.map .name) := by
  cases label <;> rfl

theorem clause (visits : List Visit) (around : List Enclosure) :
    Names (sightsOf (identsIn visits) around) visits := names_sightsOf _ around

end Sight.Names

open Sight (Names)

mutual

/-- The occurrences are the identifiers of the tree, in order. -/
theorem Expr.names_sights : (e : Expr) → (around : List Enclosure) →
    Names (e.sights around) e.visits
  | .ident _, _ | .literal _, _ | .this, _ | .super, _ | .importMeta, _ => rfl
  | .template _ parts, around => .node rfl (names_exprsSights parts around)
  | .tagged tag _ parts, around =>
    .node rfl (.append (tag.names_sights around) (names_exprsSights parts around))
  | .array elements, around => .node rfl (names_slotsSights elements around)
  | .object properties, around => .node rfl (names_propertiesSights properties around)
  | .function f, around => .node rfl (f.names_sights around)
  | .arrow params body _, _ =>
    .node rfl (.append (names_paramsSights params _) (body.names_sights _))
  | .classExpr c, around => .node rfl (c.names_sights around)
  | .unary _ arg, around | .update _ _ arg, around => .node rfl (arg.names_sights around)
  | .binary _ left right, around =>
    .node rfl (.append (left.names_sights around) (right.names_sights around))
  | .assign _ target value, around =>
    .node rfl (.append (target.names_sights around) (value.names_sights around))
  | .conditional test yes no, around =>
    .node rfl (.append (.append (test.names_sights around) (yes.names_sights around))
      (no.names_sights around))
  | .call callee args _, around | .newCall callee args, around =>
    .node rfl (.append (callee.names_sights around) (names_exprsSights args around))
  | .newBare callee, around => .node rfl (callee.names_sights around)
  | .member owner name _, around => .node rfl (.property name (owner.names_sights around))
  | .index owner key _, around =>
    .node rfl (.append (owner.names_sights around) (key.names_sights around))
  | .sequence exprs, around => .node rfl (names_exprsSights exprs around)
  | .paren inner, around => .node rfl (inner.names_sights around)
  | .yield arg _, around => .node rfl (names_exprSights? arg around)
  | .await arg, around | .spread arg, around | .importCall arg, around =>
    .node rfl (arg.names_sights around)
termination_by structural e => e

theorem names_exprsSights : (es : List Expr) → (around : List Enclosure) →
    Names (exprsSights es around) (exprsVisits es)
  | [], _ => rfl
  | e :: es, around => .append (e.names_sights around) (names_exprsSights es around)
termination_by structural es => es

theorem names_exprSights? : (e : Option Expr) → (around : List Enclosure) →
    Names (exprSights? e around) (exprVisits? e)
  | none, _ => rfl
  | some e, around => e.names_sights around
termination_by structural e => e

theorem names_slotsSights : (es : List (Option Expr)) → (around : List Enclosure) →
    Names (slotsSights es around) (slotsVisits es)
  | [], _ => rfl
  | e :: es, around => .append (names_exprSights? e around) (names_slotsSights es around)
termination_by structural es => es

theorem Key.names_sights : (key : Key) → (around : List Enclosure) →
    Names (key.sights around) key.visits
  | .name _, _ | .string _, _ | .number _, _ => rfl
  | .computed e, around => e.names_sights around
termination_by structural key => key

theorem Property.names_sights : (p : Property) → (around : List Enclosure) →
    Names (p.sights around) p.visits
  | .keyed key value, around => .append (key.names_sights around) (value.names_sights around)
  | .shorthand _, _ => rfl
  | .method key _ f, around => .append (key.names_sights around) (f.names_sights around)
  | .spread e, around => e.names_sights around
termination_by structural p => p

theorem names_propertiesSights : (ps : List Property) → (around : List Enclosure) →
    Names (propertiesSights ps around) (propertiesVisits ps)
  | [], _ => rfl
  | p :: ps, around => .append (p.names_sights around) (names_propertiesSights ps around)
termination_by structural ps => ps

theorem Pattern.names_sights : (p : Pattern) → (around : List Enclosure) →
    Names (p.sights around) p.visits
  | .ident _, _ => rfl
  | .expr e, around => .node rfl (e.names_sights around)
  | .object properties rest, around =>
    .node rfl (.append (names_patternPropertiesSights properties around)
      (names_patternSights? rest around))
  | .array elements rest, around =>
    .node rfl (.append (names_patternSlotsSights elements around)
      (names_patternSights? rest around))
termination_by structural p => p

theorem names_patternSights? : (p : Option Pattern) → (around : List Enclosure) →
    Names (patternSights? p around) (patternVisits? p)
  | none, _ => rfl
  | some p, around => p.names_sights around
termination_by structural p => p

theorem PatternProperty.names_sights : (p : PatternProperty) → (around : List Enclosure) →
    Names (p.sights around) p.visits
  | .keyed key target fallback, around =>
    .append (.append (key.names_sights around) (target.names_sights around))
      (names_exprSights? fallback around)
  | .shorthand x fallback, around => .ident x around (names_exprSights? fallback around)
termination_by structural p => p

theorem names_patternPropertiesSights : (ps : List PatternProperty) → (around : List Enclosure) →
    Names (patternPropertiesSights ps around) (patternPropertiesVisits ps)
  | [], _ => rfl
  | p :: ps, around => .append (p.names_sights around) (names_patternPropertiesSights ps around)
termination_by structural ps => ps

theorem PatternElement.names_sights : (e : PatternElement) → (around : List Enclosure) →
    Names (e.sights around) e.visits
  | ⟨target, fallback⟩, around =>
    .append (target.names_sights around) (names_exprSights? fallback around)
termination_by structural e => e

theorem names_patternSlotSights : (e : Option PatternElement) → (around : List Enclosure) →
    Names (patternSlotSights e around) (patternSlotVisits e)
  | none, _ => rfl
  | some e, around => e.names_sights around
termination_by structural e => e

theorem names_patternSlotsSights : (es : List (Option PatternElement)) →
    (around : List Enclosure) → Names (patternSlotsSights es around) (patternSlotsVisits es)
  | [], _ => rfl
  | e :: es, around =>
    .append (names_patternSlotSights e around) (names_patternSlotsSights es around)
termination_by structural es => es

theorem Param.names_sights : (p : Param) → (around : List Enclosure) →
    Names (p.sights around) p.visits
  | ⟨pattern, fallback, _⟩, around =>
    .append (pattern.names_sights around) (names_exprSights? fallback around)
termination_by structural p => p

theorem names_paramsSights : (ps : List Param) → (around : List Enclosure) →
    Names (paramsSights ps around) (paramsVisits ps)
  | [], _ => rfl
  | p :: ps, around => .append (p.names_sights around) (names_paramsSights ps around)
termination_by structural ps => ps

theorem Func.names_sights : (f : Func) → (around : List Enclosure) →
    Names (f.sights around) f.visits
  | ⟨_, params, body, _, _⟩, around =>
    .node rfl (.append (.append (.idents _ around) (names_paramsSights params _))
      (names_stmtsSights body _))
termination_by structural f => f

theorem ArrowBody.names_sights : (body : ArrowBody) → (around : List Enclosure) →
    Names (body.sights around) body.visits
  | .block body, around => names_stmtsSights body around
  | .expr e, around => e.names_sights around
termination_by structural body => body

theorem Class.names_sights : (c : Class) → (around : List Enclosure) →
    Names (c.sights around) c.visits
  | ⟨_, base, members⟩, around =>
    .node rfl (.append (.append (.idents _ around) (names_exprSights? base around))
      (names_membersSights members around))
termination_by structural c => c

theorem ClassMember.names_sights : (m : ClassMember) → (around : List Enclosure) →
    Names (m.sights around) m.visits
  | .method key _ _ f, around => .append (key.names_sights around) (f.names_sights around)
  | .field key _ value, around =>
    .append (key.names_sights around) (names_exprSights? value around)
  | .staticBlock body, _ => names_stmtsSights body _
termination_by structural m => m

theorem names_membersSights : (ms : List ClassMember) → (around : List Enclosure) →
    Names (membersSights ms around) (membersVisits ms)
  | [], _ => rfl
  | m :: ms, around => .append (m.names_sights around) (names_membersSights ms around)
termination_by structural ms => ms

theorem Declarator.names_sights : (d : Declarator) → (around : List Enclosure) →
    Names (d.sights around) d.visits
  | ⟨target, init⟩, around =>
    .append (target.names_sights around) (names_exprSights? init around)
termination_by structural d => d

theorem names_declaratorsSights : (ds : List Declarator) → (around : List Enclosure) →
    Names (declaratorsSights ds around) (declaratorsVisits ds)
  | [], _ => rfl
  | d :: ds, around => .append (d.names_sights around) (names_declaratorsSights ds around)
termination_by structural ds => ds

theorem VarList.names_sights : (list : VarList) → (around : List Enclosure) →
    Names (list.sights around) list.visits
  | ⟨_, declarators⟩, around => names_declaratorsSights declarators around
termination_by structural list => list

theorem ForInit.names_sights : (init : ForInit) → (around : List Enclosure) →
    Names (init.sights around) init.visits
  | .absent, _ => rfl
  | .var list, around => list.names_sights around
  | .expr e, around => e.names_sights around
termination_by structural init => init

theorem ForHead.names_sights : (head : ForHead) → (around : List Enclosure) →
    Names (head.sights around) head.visits
  | .var list, around => list.names_sights around
  | .pattern p, around => p.names_sights around
termination_by structural head => head

theorem Catch.names_sights : (c : Catch) → (around : List Enclosure) →
    Names (c.sights around) c.visits
  | ⟨param, body⟩, around =>
    .append (names_patternSights? param around) (names_stmtsSights body around)
termination_by structural c => c

theorem names_catchSights? : (c : Option Catch) → (around : List Enclosure) →
    Names (catchSights? c around) (catchVisits? c)
  | none, _ => rfl
  | some c, around => c.names_sights around
termination_by structural c => c

theorem Case.names_sights : (c : Case) → (around : List Enclosure) →
    Names (c.sights around) c.visits
  | ⟨test, body⟩, around =>
    .append (names_exprSights? test around) (names_stmtsSights body around)
termination_by structural c => c

theorem names_casesSights : (cs : List Case) → (around : List Enclosure) →
    Names (casesSights cs around) (casesVisits cs)
  | [], _ => rfl
  | c :: cs, around => .append (c.names_sights around) (names_casesSights cs around)
termination_by structural cs => cs

theorem names_stmtsSights : (sts : List Stmt) → (around : List Enclosure) →
    Names (stmtsSights sts around) (stmtsVisits sts)
  | [], _ => rfl
  | st :: sts, around => .append (st.names_sights around) (names_stmtsSights sts around)
termination_by structural sts => sts

theorem names_blockSights? : (body : Option (List Stmt)) → (around : List Enclosure) →
    Names (blockSights? body around) (blockVisits? body)
  | none, _ => rfl
  | some body, around => names_stmtsSights body around
termination_by structural body => body

theorem Stmt.names_sights : (st : Stmt) → (around : List Enclosure) →
    Names (st.sights around) st.visits
  | .expr e, around => .node rfl (e.names_sights around)
  | .var _ list, around => .node rfl (list.names_sights around)
  | .function _ f, around => .node rfl (f.names_sights around)
  | .classDecl _ c, around => .node rfl (c.names_sights around)
  | .importFrom _ _ specifier _, around =>
    .node rfl (.append (.clause _ around) (specifier.names_sights around))
  | .importEquals _ _ name _ value, around =>
    .node rfl (.ident name around (value.names_sights around))
  | .exportFrom _ _ specifier _, around =>
    .node rfl (.append (.clause _ around) (names_exprSights? specifier around))
  | .exportValue _ _ value, around => .node rfl (value.names_sights around)
  | .ambient _ _, _ => rfl
  | .block body, around => .node rfl (names_stmtsSights body around)
  | .ifThen test yes, around =>
    .node rfl (.append (test.names_sights around) (yes.names_sights around))
  | .ifElse test yes no, around =>
    .node rfl (.append (.append (test.names_sights around) (yes.names_sights around))
      (no.names_sights around))
  | .forLoop init test update body, around =>
    .node rfl (.append (.append (.append (init.names_sights around)
      (names_exprSights? test around)) (names_exprSights? update around))
      (body.names_sights around))
  | .forIn head object body, around =>
    .node rfl (.append (.append (head.names_sights around) (object.names_sights around))
      (body.names_sights around))
  | .forOf head iterable body _, around =>
    .node rfl (.append (.append (head.names_sights around) (iterable.names_sights around))
      (body.names_sights around))
  | .whileLoop test body, around | .doWhile body test, around =>
    .node rfl (.append (test.names_sights around) (body.names_sights around))
  | .tryCatch body handler finalizer, around =>
    .node rfl (.append (.append (names_stmtsSights body around)
      (names_catchSights? handler around)) (names_blockSights? finalizer around))
  | .switch subject cases, around =>
    .node rfl (.append (subject.names_sights around) (names_casesSights cases around))
  | .labeled _ body, around => .node rfl (.node rfl (body.names_sights around))
  | .withObject object body, around =>
    .node rfl (.append (object.names_sights around) (body.names_sights around))
  | .ret arg, around => .node rfl (names_exprSights? arg around)
  | .throw arg, around => .node rfl (arg.names_sights around)
  | .breakTo label, _ | .continueTo label, _ => .node rfl (.names label)
  | .empty, _ | .debugger, _ => rfl
termination_by structural st => st

end

theorem stmtsSights_append (sts sts' : List Stmt) (around : List Enclosure) :
    stmtsSights (sts ++ sts') around = stmtsSights sts around ++ stmtsSights sts' around := by
  induction sts with
  | nil => rfl
  | cons st sts ih => rw [List.cons_append, stmtsSights, ih, stmtsSights, List.append_assoc]

theorem exprsSights_append (es es' : List Expr) (around : List Enclosure) :
    exprsSights (es ++ es') around = exprsSights es around ++ exprsSights es' around := by
  induction es with
  | nil => rfl
  | cons e es ih => rw [List.cons_append, exprsSights, ih, exprsSights, List.append_assoc]

end RegisterForm
