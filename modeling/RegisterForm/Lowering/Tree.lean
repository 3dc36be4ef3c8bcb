import RegisterForm.Lowering.TopLevel
/-!
# Lowered trees

How each kind of node is lowered. Reads of imports become properties of the imported
module, writes to exports are published, and patterns that write to exports are taken apart
into one assignment for each name. Parts are lowered in source order, which fixes the
order of the fresh names.
-/
namespace RegisterForm

/-- `value === void 0 ? fallback : value` -/
def orFallback (value fallback : Expr) : Expr :=
  .conditional (.binary .strictEq value .voidZero) fallback value

/-- `typeof key === "symbol" ? key : key + ""` -/
def propertyKey (key : Expr) : Expr :=
  .conditional (.binary .strictEq (.unary .typeOf key) (.ofString "symbol")) key
    (.binary .add key (.ofString ""))

/-- The name that the helper for object rests is bound to. -/
def restName : String := "__rest"

/-- `__rest(value, [keys])` -/
def restCall (value : Expr) (keys : List Expr) : Expr :=
  (Expr.ofName restName).apply [value, .arrayOf keys]

/-- `value.slice(index)` -/
def restSlice (value : Expr) (index : Nat) : Expr :=
  (value.dot "slice").apply [.ofNumber (toString index)]

/-- What binds a given value: the assignments that take it apart. -/
abbrev Taking := Expr → Lowering (List Expr)

/-- A value that is read once stays as it is; one that is read more often, or not at all, is
held by a variable. -/
def stabilizeUnlessOne (count : Nat) (bound : List String) (value : Expr) :
    Lowering (List Expr × Expr) :=
  if count = 1 then return ([], value) else Lowering.stabilize bound value

/-- A loop body that starts with the given statements. -/
def loopBody (exports body : List Stmt) : Stmt :=
  if exports.isEmpty then .ofList body else .block (exports ++ body)

/-- A loop body that is a block. The given statements join those of the block; without any, the
block stays a statement, one level deeper. -/
def blockBody (s : Setting) (exports : List Stmt) (body : Lowering (List Stmt)) : Lowering Stmt :=
  if exports.isEmpty then Lowering.deeper s (return .block (← body))
  else return .block (exports ++ (← body))

/-- The calls that publish what a loop head assigned. -/
def headExports (s : Setting) (target : Pattern) : List Stmt :=
  target.boundIdents.flatMap fun x =>
    (s.exportNames x).map fun name => .expr (s.publish name (.ofName x.name))

/-- An arrow function's body with declarations at its top. -/
def ArrowBody.withDeclarations (declarations : List Stmt) (body : ArrowBody) : ArrowBody :=
  match declarations, body with
  | [], body => body
  | d :: ds, .block stmts => .block (d :: ds ++ stmts)
  | d :: ds, .expr e => .block (d :: ds ++ [.ret (some e)])

open Lowering

mutual

/-- The value of an expression may go unused, and then nothing is added to keep it. -/
def Expr.lower (s : Setting) (isUsed : Bool) (e : Expr) : Lowering Expr :=
  deeper s (match e with
    | .ident x => return s.read x
    | .literal value => return .literal value
    | .this => return .this
    | .super => return .super
    | .template chunks parts => return .template chunks (← lowerExprs s parts)
    | .tagged tag chunks parts =>
      return .tagged (← tag.lower s true) chunks (← lowerExprs s parts)
    | .array elements => return .array (← lowerSlots s elements)
    | .object properties => return .object (← lowerProperties s properties)
    | .function f => return .function (← f.lower s)
    | .arrow params body isAsync => do
      let ((params, body), declarations) ← inFunction do
        return (← lowerParams s params, ← body.lower s)
      return .arrow params (body.withDeclarations declarations) isAsync
    | .classExpr c => return .classExpr (← c.lower s)
    | .unary op arg => return .unary op (← arg.lower s true)
    | .update op isPrefix arg =>
      match s.publishedUpdate? op isPrefix isUsed arg with
      | some e => return e
      | none => return .update op isPrefix (← arg.lower s true)
    | .binary op left right => return .binary op (← left.lower s true) (← right.lower s true)
    | .assign op target value => do
      if op == .plain && target.isDestructuring && s.hasExportedLeaf target then
        let value ← value.lower s true
        let bound := target.boundNames
        let (held, value) ← if isUsed then stabilize bound value else pure ([], value)
        let exprs ← target.flatten s bound 0 value
        let result := if isUsed then [value] else []
        return (Expr.ofList (held ++ exprs ++ result)).getD value
      else
        let target ← target.lower s
        return s.publishedTo target (.assign op target (← value.lower s true))
    | .conditional test yes no =>
      return .conditional (← test.lower s true) (← yes.lower s isUsed) (← no.lower s isUsed)
    | .call callee args isOptional =>
      return .call (← callee.lower s true) (← lowerExprs s args) isOptional
    | .newBare callee => return .newBare (← callee.lower s true)
    | .newCall callee args => return .newCall (← callee.lower s true) (← lowerExprs s args)
    | .member owner name isOptional => return .member (← owner.lower s true) name isOptional
    | .index owner key isOptional =>
      return .index (← owner.lower s true) (← key.lower s true) isOptional
    | .sequence exprs => return .sequence (← lowerSequence s isUsed exprs)
    | .paren inner => return .paren (← inner.lower s isUsed)
    | .yield arg isDelegate => return .yield (← lowerExpr? s arg) isDelegate
    | .await arg => return .await (← arg.lower s true)
    | .spread arg => return .spread (← arg.lower s true)
    | .importCall specifier =>
      return ((Expr.ofName s.context).dot "import").apply [← specifier.lower s true]
    | .importMeta => return (Expr.ofName s.context).dot "meta")

def lowerExprs (s : Setting) : List Expr → Lowering (List Expr)
  | [] => return []
  | e :: es => return (← e.lower s true) :: (← lowerExprs s es)

/-- Only the last value of a sequence can be used. -/
def lowerSequence (s : Setting) (isUsed : Bool) : List Expr → Lowering (List Expr)
  | [] => return []
  | e :: es =>
    return (← e.lower s (isUsed && es.isEmpty)) :: (← lowerSequence s isUsed es)

def lowerExpr? (s : Setting) : Option Expr → Lowering (Option Expr)
  | none => return none
  | some e => return some (← e.lower s true)

def lowerSlots (s : Setting) : List (Option Expr) → Lowering (List (Option Expr))
  | [] => return []
  | e :: es => return (← lowerExpr? s e) :: (← lowerSlots s es)

def Key.lower (s : Setting) : Key → Lowering Key
  | .computed e => return .computed (← e.lower s true)
  | key => return key

def Property.lower (s : Setting) : Property → Lowering Property
  | .keyed key value => return .keyed (← key.lower s) (← value.lower s true)
  | .shorthand x => return s.readShorthand x
  | .method key kind f => return .method (← key.lower s) kind (← f.lower s)
  | .spread e => return .spread (← e.lower s true)

def lowerProperties (s : Setting) : List Property → Lowering (List Property)
  | [] => return []
  | p :: ps => return (← p.lower s) :: (← lowerProperties s ps)

-- Patterns that stay patterns.

def Pattern.lower (s : Setting) : Pattern → Lowering Pattern
  | .ident x => return .ident x
  | .expr e => return .expr (← e.lower s true)
  | .object properties rest =>
    return .object (← lowerPatternProperties s properties) (← lowerPattern? s rest)
  | .array elements rest =>
    return .array (← lowerPatternSlots s elements) (← lowerPattern? s rest)

def lowerPattern? (s : Setting) : Option Pattern → Lowering (Option Pattern)
  | none => return none
  | some p => return some (← p.lower s)

def PatternProperty.lower (s : Setting) : PatternProperty → Lowering PatternProperty
  | .keyed key target fallback =>
    return .keyed (← key.lower s) (← target.lower s) (← lowerExpr? s fallback)
  | .shorthand x fallback => return .shorthand x (← lowerExpr? s fallback)

def lowerPatternProperties (s : Setting) :
    List PatternProperty → Lowering (List PatternProperty)
  | [] => return []
  | p :: ps => return (← p.lower s) :: (← lowerPatternProperties s ps)

def PatternElement.lower (s : Setting) : PatternElement → Lowering PatternElement
  | ⟨target, fallback⟩ => return ⟨← target.lower s, ← lowerExpr? s fallback⟩

def lowerPatternSlot (s : Setting) : Option PatternElement → Lowering (Option PatternElement)
  | none => return none
  | some e => return some (← e.lower s)

def lowerPatternSlots (s : Setting) :
    List (Option PatternElement) → Lowering (List (Option PatternElement))
  | [] => return []
  | e :: es => return (← lowerPatternSlot s e) :: (← lowerPatternSlots s es)

-- Patterns that are taken apart.

/-- The assignments that bind a pattern to a value, in source order. -/
def Pattern.flatten (s : Setting) (bound : List String) (depth : Nat) : Pattern → Taking
  | .ident x => fun value => do
    guardPatternDepth s depth
    return [s.bindingAssignment x value]
  | .expr e => fun value => do
    guardPatternDepth s depth
    return [.assignTo (.expr (← e.lower s true)) value]
  | .object properties rest => fun value => do
    guardPatternDepth s depth
    let (held, value) ← stabilizeUnlessOne (properties.length + rest.toList.length) bound value
    let (exprs, keys) ← flattenProperties s bound (depth + 1) rest.isSome properties value
    if rest.isSome then requireRest
    let remaining ← flattenRest s bound (depth + 1) rest (restCall value keys)
    return held ++ exprs ++ remaining
  | .array elements rest => fun value => do
    guardPatternDepth s depth
    let (held, value) ← stabilizeUnlessOne (elements.length + rest.toList.length) bound value
    let exprs ← flattenSlots s bound (depth + 1) 0 elements value
    let remaining ← flattenRest s bound (depth + 1) rest (restSlice value elements.length)
    return held ++ exprs ++ remaining

def flattenRest (s : Setting) (bound : List String) (depth : Nat) : Option Pattern → Taking
  | none => fun _ => return []
  | some target => target.flatten s bound depth

/-- What stands in for a missing value, and what must be evaluated before. -/
def flattenFallback (s : Setting) (bound : List String) :
    Option Expr → Expr → Lowering (List Expr × Expr)
  | none => fun value => return ([], value)
  | some fallback => fun value => do
    let (held, value) ← stabilize bound value
    return (held, orFallback value (← fallback.lower s true))

/-- The property of a value under a key, and the key as the rest of the pattern leaves it out. -/
def Key.flatten (s : Setting) (bound : List String) (hasRest : Bool) :
    Key → Expr → Lowering (List Expr × Expr × Expr)
  | .name text => fun value => return ([], value.dot text, .ofString text)
  | .string text => fun value =>
    return ([], if Text.isIdentifierName text then value.dot text
      else value.lookup (.ofString text), .ofString text)
  | .number source => fun value =>
    return ([], value.lookup (.ofNumber source), .ofString source)
  | .computed e => fun value => do
    let key ← e.lower s true
    if hasRest then
      let (held, key) ← stabilize bound key
      return (held, value.lookup key, propertyKey key)
    else return ([], value.lookup key, key)

def PatternProperty.flatten (s : Setting) (bound : List String) (depth : Nat) (hasRest : Bool) :
    PatternProperty → Expr → Lowering (List Expr × Expr)
  | .keyed key target fallback => fun value => do
    let (held, value, excluded) ← key.flatten s bound hasRest value
    let (before, value) ← flattenFallback s bound fallback value
    let exprs ← target.flatten s bound depth value
    return (held ++ before ++ exprs, excluded)
  | .shorthand x fallback => fun value => do
    let (before, value) ← flattenFallback s bound fallback (value.dot x.name)
    guardPatternDepth s depth
    return (before ++ [s.bindingAssignment x value], .ofString x.name)

def flattenProperties (s : Setting) (bound : List String) (depth : Nat) (hasRest : Bool) :
    List PatternProperty → Expr → Lowering (List Expr × List Expr)
  | [] => fun _ => return ([], [])
  | p :: ps => fun value => do
    let (exprs, key) ← p.flatten s bound depth hasRest value
    let (more, keys) ← flattenProperties s bound depth hasRest ps value
    return (exprs ++ more, key :: keys)

def PatternElement.flatten (s : Setting) (bound : List String) (depth : Nat) :
    PatternElement → Taking
  | ⟨target, fallback⟩ => fun value => do
    let (before, value) ← flattenFallback s bound fallback value
    return before ++ (← target.flatten s bound depth value)

def flattenSlot (s : Setting) (bound : List String) (depth : Nat) :
    Option PatternElement → Taking
  | none => fun _ => return []
  | some e => e.flatten s bound depth

/-- The elements from the given index on. -/
def flattenSlots (s : Setting) (bound : List String) (depth index : Nat) :
    List (Option PatternElement) → Taking
  | [] => fun _ => return []
  | e :: es => fun value => do
    let exprs ← flattenSlot s bound depth e (value.lookup (.ofNumber (toString index)))
    return exprs ++ (← flattenSlots s bound depth (index + 1) es value)

-- Functions and classes.

def Param.lower (s : Setting) : Param → Lowering Param
  | ⟨pattern, fallback, isRest⟩ =>
    return ⟨← pattern.lower s, ← lowerExpr? s fallback, isRest⟩

def lowerParams (s : Setting) : List Param → Lowering (List Param)
  | [] => return []
  | p :: ps => return (← p.lower s) :: (← lowerParams s ps)

/-- The temporaries that a function needs are declared at the top of its body. -/
def Func.lower (s : Setting) : Func → Lowering Func
  | ⟨name, params, body, isAsync, isGenerator⟩ => do
    let ((params, body), declarations) ← inFunction do
      return (← lowerParams s params, ← lowerStmts s .function body)
    return ⟨name, params, declarations ++ body, isAsync, isGenerator⟩

def ArrowBody.lower (s : Setting) : ArrowBody → Lowering ArrowBody
  | .block body => return .block (← lowerStmts s .function body)
  | .expr e => return .expr (← e.lower s true)

def Class.lower (s : Setting) : Class → Lowering Class
  | ⟨name, base, members⟩ => return ⟨name, ← lowerExpr? s base, ← lowerMembers s members⟩

def ClassMember.lower (s : Setting) : ClassMember → Lowering ClassMember
  | .method key kind isStatic f => return .method (← key.lower s) kind isStatic (← f.lower s)
  | .field key isStatic value => return .field (← key.lower s) isStatic (← lowerExpr? s value)
  | .staticBlock body => do
    let (body, declarations) ← inFunction (lowerStmts s .function body)
    return .staticBlock (declarations ++ body)

def lowerMembers (s : Setting) : List ClassMember → Lowering (List ClassMember)
  | [] => return []
  | m :: ms => return (← m.lower s) :: (← lowerMembers s ms)

-- Declaration lists.

/-- A declaration that stays a declaration. -/
def Declarator.lower (s : Setting) : Declarator → Lowering Declarator
  | ⟨target, init⟩ => return ⟨← target.lower s, ← lowerExpr? s init⟩

def lowerDeclarators (s : Setting) : List Declarator → Lowering (List Declarator)
  | [] => return []
  | d :: ds => return (← d.lower s) :: (← lowerDeclarators s ds)

def VarList.lower (s : Setting) : VarList → Lowering VarList
  | ⟨kind, declarators⟩ => return ⟨kind, ← lowerDeclarators s declarators⟩

/-- Hoists the names of a declaration; what is left is its assignments. -/
def Declarator.hoisted (s : Setting) : Declarator → Lowering (List Expr)
  | ⟨target, none⟩ => do
    hoist (·.addVariables target.boundNames)
    return []
  | ⟨target, some init⟩ => do
    hoist (·.addVariables target.boundNames)
    let value ← init.lower s true
    target.flatten s target.boundNames 0 value

def hoistedDeclarators (s : Setting) : List Declarator → Lowering (List Expr)
  | [] => return []
  | d :: ds => do
    let exprs ← d.hoisted s
    return exprs ++ (← hoistedDeclarators s ds)

def VarList.hoisted (s : Setting) : VarList → Lowering (List Expr)
  | ⟨_, declarators⟩ => hoistedDeclarators s declarators

-- Statements.

def ForInit.lower (s : Setting) (place : Place) : ForInit → Lowering ForInit
  | .absent => return .absent
  | .var list => do
    if place.hoistsVars && list.kind == .var then
      match Expr.ofList (← list.hoisted s) with
      | none => return .absent
      | some e => return .expr e
    else return .var (← list.lower s)
  | .expr e => return .expr (← e.lower s false)

/-- A hoisted `var` in the head of a loop becomes an assignment target; the statements
publish what each round assigns. -/
def ForHead.lower (s : Setting) (place : Place) : ForHead → Lowering (ForHead × List Stmt)
  | .var ⟨kind, []⟩ => return (.var ⟨kind, []⟩, [])
  | .var ⟨kind, ⟨target, init⟩ :: ds⟩ => do
    if place.hoistsVars && kind == .var then
      hoist (·.addVariables target.boundNames)
      return (.pattern (← target.lower s), headExports s target)
    else
      let d : Declarator := ⟨← target.lower s, ← lowerExpr? s init⟩
      return (.var ⟨kind, d :: (← lowerDeclarators s ds)⟩, [])
  | .pattern p => return (.pattern (← p.lower s), [])

def Catch.lower (s : Setting) (place : Place) : Catch → Lowering Catch
  | ⟨param, body⟩ => return ⟨← lowerPattern? s param, ← lowerStmts s place body⟩

def lowerCatch? (s : Setting) (place : Place) : Option Catch → Lowering (Option Catch)
  | none => return none
  | some c => return some (← c.lower s place)

def lowerBlock? (s : Setting) (place : Place) :
    Option (List Stmt) → Lowering (Option (List Stmt))
  | none => return none
  | some body => return some (← lowerStmts s place body)

def Case.lower (s : Setting) (place : Place) : Case → Lowering Case
  | ⟨test, body⟩ => return ⟨← lowerExpr? s test, ← lowerStmts s place body⟩

def lowerCases (s : Setting) (place : Place) : List Case → Lowering (List Case)
  | [] => return []
  | c :: cs => return (← c.lower s place) :: (← lowerCases s place cs)

def lowerStmts (s : Setting) (place : Place) : List Stmt → Lowering (List Stmt)
  | [] => return []
  | st :: sts => do
    let stmts ← st.lower s place
    return stmts ++ (← lowerStmts s place sts)

/-- A statement may leave nothing, or more than one statement. Module declarations mean
something at the top level only. -/
def Stmt.lower (s : Setting) (place : Place) (st : Stmt) : Lowering (List Stmt) :=
  deeper s (match st with
    | .expr e => return [.expr (← e.lower s false)]
    | .var modifiers list => do
      if place.takesApart list.kind then
        if modifiers.isExported then addExportedNames (list.boundIdents.map Ident.name)
        return (Expr.ofList (← list.hoisted s)).toList.map .expr
      else return [.var modifiers (← list.lower s)]
    | .function modifiers f => do
      let f ← f.lower s
      if place = .topLevel then
        hoistFunction s modifiers f
        return []
      else return [.function modifiers f]
    | .classDecl modifiers c => do
      if place = .topLevel then
        let name ← hoistClassName c.name
        classAssignment s modifiers name (← c.lower s)
      else return [.classDecl modifiers (← c.lower s)]
    | .importFrom site clause specifier isTypeOnly => do
      if place = .topLevel then
        hoist (·.addVariables (s.holders.lookup site.id).toList)
        return []
      else return [.importFrom site clause specifier isTypeOnly]
    | .importEquals site isExported name kind value => do
      if place = .topLevel then
        if !s.names.importEqualsIsValue kind value then return []
        hoist (·.addVariable name.name)
        if isExported then addExportedName name.name
        match kind with
        | .require => return []
        | .entity => return [.expr (s.bindingAssignment name (← value.lower s true))]
      else return [.importEquals site isExported name kind value]
    | .exportFrom site clause specifier isTypeOnly => do
      if place = .topLevel then
        match clause, specifier, isTypeOnly with
        | some (.named specifiers), none, false => exportSpecifiers s specifiers
        | _, _, _ => return []
      else return [.exportFrom site clause specifier isTypeOnly]
    | .exportValue site form value => do
      if place = .topLevel then
        if !s.names.expressionIsValue value then return []
        return [.expr (s.publish "default" (← value.lower s true))]
      else return [.exportValue site form value]
    | .ambient _ _ => return []
    | .block body => return [.block (← lowerStmts s place.inner body)]
    | .ifThen test yes =>
      return [.ifThen (← test.lower s true) (.ofList (← yes.lower s place.inner))]
    | .ifElse test yes no =>
      return [.ifElse (← test.lower s true) (.ofList (← yes.lower s place.inner))
        (.ofList (← no.lower s place.inner))]
    | .forLoop init test update body => do
      let init ← init.lower s place
      let test ← lowerExpr? s test
      let update ← lowerUnused? s update
      return [.forLoop init test update (.ofList (← body.lower s place.inner))]
    | .forIn head object (.block inner) => do
      let (head, exports) ← head.lower s place
      let object ← object.lower s true
      return [.forIn head object (← blockBody s exports (lowerStmts s place.inner inner))]
    | .forIn head object body => do
      let (head, exports) ← head.lower s place
      let object ← object.lower s true
      return [.forIn head object (loopBody exports (← body.lower s place.inner))]
    | .forOf head iterable (.block inner) isAwait => do
      let (head, exports) ← head.lower s place
      let iterable ← iterable.lower s true
      return [.forOf head iterable (← blockBody s exports (lowerStmts s place.inner inner)) isAwait]
    | .forOf head iterable body isAwait => do
      let (head, exports) ← head.lower s place
      let iterable ← iterable.lower s true
      return [.forOf head iterable (loopBody exports (← body.lower s place.inner)) isAwait]
    | .whileLoop test body =>
      return [.whileLoop (← test.lower s true) (.ofList (← body.lower s place.inner))]
    | .doWhile body test => do
      let body ← body.lower s place.inner
      return [.doWhile (.ofList body) (← test.lower s true)]
    | .tryCatch body handler finalizer =>
      return [.tryCatch (← lowerStmts s place.inner body)
        (← lowerCatch? s place.inner handler) (← lowerBlock? s place.inner finalizer)]
    | .switch subject cases =>
      return [.switch (← subject.lower s true) (← lowerCases s place.inner cases)]
    | .labeled label body => return [.labeled label (.ofList (← body.lower s place.inner))]
    | .withObject object body =>
      return [.withObject (← object.lower s true) (.ofList (← body.lower s place.inner))]
    | .ret arg => return [.ret (← lowerExpr? s arg)]
    | .throw arg => return [.throw (← arg.lower s true)]
    | .breakTo label => return [.breakTo label]
    | .continueTo label => return [.continueTo label]
    | .empty => return [.empty]
    | .debugger => return [.debugger])

/-- An expression whose value goes unused. -/
def lowerUnused? (s : Setting) : Option Expr → Lowering (Option Expr)
  | none => return none
  | some e => return some (← e.lower s false)

end

end RegisterForm
