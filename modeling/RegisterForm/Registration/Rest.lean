import RegisterForm.Tree.Construct
import RegisterForm.Lowering.Tree
/-!
# The rest of an object pattern

The function that a registered module defines for itself when one of its object patterns has
a rest: it copies a value without the properties that the pattern names.
-/
namespace RegisterForm

namespace Expr

/-- `Object.prototype.method.call(owner, key)` -/
def prototypeCall (method : String) (owner key : Expr) : Expr :=
  (((ofPath "Object.prototype").dot method).dot "call").apply [owner, key]

end Expr

namespace Rest

/-- `e.indexOf(key) < 0` -/
def notExcluded (key : Expr) : Expr :=
  .binary .lt (((Expr.ofName "e").dot "indexOf").apply [key]) (.ofNumber "0")

/-- `t[key] = s[key];` -/
def copyProperty (key : Expr) : Stmt :=
  .expr (.assignTo (.expr ((Expr.ofName "t").lookup key)) ((Expr.ofName "s").lookup key))

/-- Copies the enumerable properties with a string for a key. -/
def copyStrings : Stmt :=
  let key := Expr.ofName "p"
  .forIn (.var ⟨.var, [.ofName "p" none]⟩) (.ofName "s")
    (.ifThen
      (.binary .and (.prototypeCall "hasOwnProperty" (.ofName "s") key) (notExcluded key))
      (copyProperty key))

/-- Copies the enumerable properties with a symbol for a key, where there are symbols. -/
def copySymbols : Stmt :=
  let key := (Expr.ofName "p").lookup (.ofName "i")
  let hasSymbols : Expr :=
    .binary .and (.binary .ne (.ofName "s") (.literal .null))
      (.binary .strictEq (.unary .typeOf (.ofPath "Object.getOwnPropertySymbols"))
        (.ofString "function"))
  let keys : Expr := ((Expr.ofName "Object").dot "getOwnPropertySymbols").apply [.ofName "s"]
  .ifThen hasSymbols
    (.forLoop (.var ⟨.var, [.ofName "i" (some (.ofNumber "0")), .ofName "p" (some keys)]⟩)
      (some (.binary .lt (.ofName "i") ((Expr.ofName "p").dot "length")))
      (some (.update .increment false (.ofName "i")))
      (.block [.ifThen
        (.binary .and (notExcluded key) (.prototypeCall "propertyIsEnumerable" (.ofName "s") key))
        (copyProperty key)]))

/-- `var __rest = (this && this.__rest) || function (s, e) { ... };` -/
def define : Stmt :=
  let existing : Expr := .paren (.binary .and .this (Expr.this.dot restName))
  let copier := Expr.functionOf none [.ofName "s", .ofName "e"]
    [.varInit "t" (some (.object [])), copyStrings, copySymbols, .ret (some (.ofName "t"))]
  .varInit restName (some (.binary .or existing copier))

end Rest
end RegisterForm
