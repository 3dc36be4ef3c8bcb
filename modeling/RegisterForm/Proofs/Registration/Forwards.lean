import RegisterForm.Proofs.Dynamic.Forwarding
import RegisterForm.Proofs.Registration.Listed
/-!
# Forwarded names

A module that forwards all names of another has a function for it. Called on the other module's
object, the function passes on the object's own properties that loops see, `default` and the names
that the module exports itself left out. It asks the list of these names by a method of the list,
though, so a module that exports `hasOwnProperty` forwards nothing and throws.
-/
namespace RegisterForm
open Lowering NameTable RegisterForm.Dynamic

namespace StarExport
/-- The function and, where there are names that take precedence, the list of these. -/
theorem define_eq {s : Setting} (hstar : s.interface.hasStar = true) (exportedNames : List String)
    (groups : List Dependency) (h : Hoisting) : ∃ name names,
    ((names = [] ∧ (define s exportedNames groups h).2.1 =
        [.function {} (forwarder s.exporter name none)]) ∨
      ∃ n, (define s exportedNames groups h).2.1 =
        [.varInit (NameSupply.numbered "exportedNames_" n)
            (some (.object (names.map fun name => .ofString name (.ofBool true)))),
          .function {} (forwarder s.exporter name (some (NameSupply.numbered "exportedNames_" n)))]) ∧
    names.Nodup ∧
    ∀ key, key ∈ names ↔ key ∈ ownNames exportedNames groups ∧ key ≠ "default" := by
  unfold define
  rw [if_neg (by simp [hstar])]
  dsimp only
  split
  · next hnothing =>
    simp only [Bool.and_eq_true, List.isEmpty_iff] at hnothing
    refine ⟨_, [], .inl ⟨rfl, rfl⟩, List.nodup_nil, fun key => ?_⟩
    simp [ownNames, hnothing.1.1, hnothing.2]
  · exact ⟨_, precedence (ownNames exportedNames groups), .inr ⟨_, rfl⟩, nodup_precedence _,
      fun key => mem_precedence⟩

end StarExport

/-- The object that the registered function publishes through has a name of its own. -/
theorem Setting.exists_exporter (options : Options) (t : NameTable) (file : SourceFile) :
    ∃ n, (Setting.ofFile options t file).1.exporter = NameSupply.numbered "exports_" n := ⟨_, rfl⟩

theorem exporter_not_mem_locals (n : Nat) :
    NameSupply.numbered "exports_" n ∉ ["m", "exports", "n"] := by
  intro h
  have hletter : (NameSupply.numbered "exports_" n).toList[7]? = some '_' := by
    simp [NameSupply.numbered]
  simp only [List.mem_cons, List.not_mem_nil, or_false] at h
  rcases h with h | h | h <;> (rw [h] at hletter; exact absurd hletter (by decide))

theorem list_not_mem_locals (n k : Nat) : NameSupply.numbered "exportedNames_" n ∉
    ["m", "exports", "n", "Object", NameSupply.numbered "exports_" k] := by
  intro h
  have hletter : (NameSupply.numbered "exportedNames_" n).toList[6]? = some 'e' := by
    simp [NameSupply.numbered]
  simp only [List.mem_cons, List.not_mem_nil, or_false] at h
  rcases h with h | h | h | h | h
  all_goals rw [h] at hletter
  case inr.inr.inr.inr => simp [NameSupply.numbered] at hletter
  all_goals exact absurd hletter (by decide)

/-- A module that forwards all names of another lists exactly the names, other than `default`, that
its statements export or re-export. The function that it defines, called on an object, passes on all
own properties of the object that loops see, each with its value, but for `default` and the listed
names. It throws and passes on nothing if `hasOwnProperty` is listed and there is some key to ask
about. -/
theorem lower_forwards {file : SourceFile} {options : Options} {lowered : Lowered}
    (hf : file.IsFlat) (hnamed : ∀ st ∈ file.statements, st.NamesExport) {site : Site}
    {specifier : Expr}
    (hstar : .exportFrom site none (some specifier) false ∈ file.statements)
    (h : lower options (ofFile file) file = .ok lowered) :
    ∃ f opening helper closing name names, lowered.statement.factory? = some f ∧
      f.body = opening ++ helper ++ closing ∧
      (∀ key, key ∈ names ↔ key ≠ "default" ∧ ∃ st ∈ file.statements,
        key ∈ (Setting.ofFile options (ofFile file) file).1.noted st ∨ key ∈ st.reexported) ∧
      ∀ (R : Realm) (base : Heap) (vars : String → Option Value) (m : Nat) (o : Obj),
        R.Intact base → base.objects[m]? = some o → o.IsPlain →
        vars "Object" = some (.object R.object) →
        vars (Setting.ofFile options (ofFile file) file).1.exporter = some (.object R.exporter) →
          Forwarded R base o names ((forward R helper name m).outcome ⟨vars, base⟩) := by
  obtain ⟨groups, execute, p, hfiles, hrun, rfl⟩ := lower_files h
  set s := (Setting.ofFile options (ofFile file) file).1 with hs
  have hforwards : s.interface.hasStar = true := Interface.hasStar_ofFile hstar
  obtain ⟨name, names, hdefined, hnodup, hnames⟩ := StarExport.define_eq hforwards p.exportedNames
    groups p.hoisting.pop.2
  obtain ⟨k, hexporter⟩ := Setting.exists_exporter options (ofFile file) file
  have hnoted := notes_lowerStmts hf hnamed hrun
  refine ⟨_, _, (s.starPart groups p).2.1, _, name, names, s.factory?_assemble groups execute p, rfl,
    fun key => ?_, fun R base vars m o hR ho hplain hobject hvar => ?_⟩
  · rw [hnames, StarExport.ownNames, List.mem_append, hnoted, StarExport.mem_clauseNames hfiles,
      and_comm]
    refine and_congr_right fun _ => ?_
    simp only [List.not_mem_nil, false_or, List.mem_flatMap]
    grind
  · have hfree : s.exporter ∉ ["m", "exports", "n"] ∧ vars s.exporter = some (.object R.exporter) :=
      ⟨by rw [hs, hexporter]; exact exporter_not_mem_locals k, hvar⟩
    unfold Setting.starPart
    rcases hdefined with ⟨rfl, hhelper⟩ | ⟨n, hhelper⟩
    · rw [hhelper]
      exact forwarded_none hR ho hplain hobject hfree name
    · rw [hhelper]
      refine forwarded_map hR ho hplain hobject hfree hnodup ?_ name
      rw [hs, hexporter]
      exact list_not_mem_locals n k

/-! ## Runs -/

/-- The built-in objects come first, and errors are an object after them. -/
def plainRealm : Realm where
  object := 0
  objectPrototype := 1
  functionPrototype := 2
  hasOwnProperty := 3
  functionCall := 4
  exporter := 5
  typeError := .object 6
  referenceError := .object 6

/-- The built-in objects and another module's object, which has no prototype. -/
def plainHeap (slots : List Slot) : Heap where
  objects := [⟨[⟨"prototype", .value (.object 1), false⟩], some 2⟩,
    ⟨[⟨"hasOwnProperty", .value (.object 3), false⟩, ⟨"__proto__", .prototypeAccess, false⟩], none⟩,
    ⟨[⟨"call", .value (.object 4), false⟩], some 1⟩, ⟨[], some 2⟩, ⟨[], some 2⟩, ⟨[], some 2⟩,
    ⟨[], some 1⟩, ⟨slots, none⟩]

def plainVars (x : String) : Option Value :=
  if x = "Object" then some (.object 0) else if x = "exports_1" then some (.object 5) else none

theorem plainRealm_intact (slots : List Slot) : plainRealm.Intact (plainHeap slots) where
  prototype := rfl
  method := rfl
  root := rfl
  access key hkey := by
    by_cases hmethod : "hasOwnProperty" = key
    · subst hmethod
      cases hkey
    · by_contra hother
      have hnone : (plainHeap slots).own? plainRealm.objectPrototype key = none := by
        rw [Heap.own?, show (plainHeap slots).objects[plainRealm.objectPrototype]? = some
          ⟨[⟨"hasOwnProperty", .value (.object 3), false⟩, ⟨"__proto__", .prototypeAccess, false⟩],
            none⟩ from rfl, Option.bind_some, Obj.content?_eq_none]
        simp [Ne.symm hmethod, hother]
      rw [hnone] at hkey
      cases hkey
  inherits := rfl
  noCall := rfl
  call := rfl
  isNoCall := by decide
  exporter := by decide

/-- `export * from "m"; export { y } from "n"; export var x = 1;` -/
def starModule : SourceFile where
  id := .numbered 30
  name := "m.ts"
  statements := [
    .exportFrom ⟨.numbered 10, {}⟩ none (some (.ofString "m")) false,
    .exportFrom ⟨.numbered 11, {}⟩ (some (.named [⟨.numbered 20, ⟨.numbered 0, "y"⟩, none, false⟩]))
      (some (.ofString "n")) false,
    .var { isExported := true } ⟨.var, [⟨.ident ⟨.numbered 1, "x"⟩, some (.ofNumber "1")⟩]⟩]

/-- An object whose every property loops see. -/
def plainSlots (keys : List String) : List Slot :=
  keys.map fun key => ⟨key, .value (.string key), true⟩

/-- Of `x`, `default`, `y` and `z`, it is `z` that is left to pass on. -/
theorem lower_forwards_rest : starModule.IsFlat ∧
    (∀ st ∈ starModule.statements, st.NamesExport) ∧
    .exportFrom ⟨.numbered 10, {}⟩ none (some (.ofString "m")) false ∈ starModule.statements ∧
    ∃ lowered, lower {} (ofFile starModule) starModule = .ok lowered ∧
      ∃ f opening helper closing name names, lowered.statement.factory? = some f ∧
        f.body = opening ++ helper ++ closing ∧
        (∀ key, key ∈ names ↔ key ≠ "default" ∧ ∃ st ∈ starModule.statements,
          key ∈ (Setting.ofFile {} (ofFile starModule) starModule).1.noted st ∨
            key ∈ st.reexported) ∧
        Forwarded plainRealm (plainHeap (plainSlots ["x", "default", "y", "z"]))
          ⟨plainSlots ["x", "default", "y", "z"], none⟩ names
          ((forward plainRealm helper name 7).outcome
            ⟨plainVars, plainHeap (plainSlots ["x", "default", "y", "z"])⟩) := by
  have hf : starModule.IsFlat := by
    unfold SourceFile.IsFlat AllInner
    decide
  have hnamed : ∀ st ∈ starModule.statements, st.NamesExport := by decide
  have hstar : .exportFrom ⟨.numbered 10, {}⟩ none (some (.ofString "m")) false ∈
      starModule.statements := List.mem_cons_self
  have hplain : Obj.IsPlain ⟨plainSlots ["x", "default", "y", "z"], none⟩ := {
    keysOnce := by decide
    values := by
      intro s hs _
      obtain ⟨key, hkey, rfl⟩ := List.mem_map.mp hs
      exact ⟨by rintro rfl; exact absurd hkey (by decide), _, rfl⟩ }
  have hlowered : ∃ lowered, lower {} (ofFile starModule) starModule = .ok lowered := ⟨_, rfl⟩
  obtain ⟨lowered, hlowered⟩ := hlowered
  obtain ⟨f, opening, helper, closing, name, names, hfactory, hbody, hnames, hruns⟩ :=
    lower_forwards hf hnamed hstar hlowered
  exact ⟨hf, hnamed, hstar, lowered, hlowered, f, opening, helper, closing, name, names, hfactory, hbody, hnames,
    hruns plainRealm _ plainVars 7 _ (plainRealm_intact _) rfl hplain rfl rfl⟩

/-- `export * from "m"; export var hasOwnProperty = 1;` -/
def hidingModule : SourceFile where
  id := .numbered 30
  name := "m.ts"
  statements := [
    .exportFrom ⟨.numbered 10, {}⟩ none (some (.ofString "m")) false,
    .var { isExported := true }
      ⟨.var, [⟨.ident ⟨.numbered 1, "hasOwnProperty"⟩, some (.ofNumber "1")⟩]⟩]

/-- The function throws for an object with a property `x`, and passes on nothing. -/
theorem forward_hasOwnProperty_throws :
    ∃ lowered, lower {} (ofFile hidingModule) hidingModule = .ok lowered ∧
      ∃ f opening helper closing, lowered.statement.factory? = some f ∧
        f.body = opening ++ helper ++ closing ∧ (functionIn? helper "exportStar_1").isSome ∧
        ((forward plainRealm helper "exportStar_1" 7).outcome
          ⟨plainVars, plainHeap (plainSlots ["x"])⟩).1 = .error plainRealm.typeError ∧
        ((forward plainRealm helper "exportStar_1" 7).outcome
          ⟨plainVars, plainHeap (plainSlots ["x"])⟩).2.rest.passed = [] :=
  ⟨_, rfl, _, [.expr (.ofString "use strict"), .varNames ["hasOwnProperty"],
      .varInit "__moduleName" (some (.binary .and (.ofName "context_1")
        ((Expr.ofName "context_1").dot "id")))],
    [.varInit "exportedNames_1"
        (some (.object [.ofString "hasOwnProperty" (.ofBool true)])),
      .function {} (forwarder "exports_1" "exportStar_1" (some "exportedNames_1"))],
    _, rfl, rfl, rfl, rfl, rfl⟩

end RegisterForm
