import RegisterForm.Proofs.Depth.Lowered
import RegisterForm.Proofs.Lowering.Execute
import RegisterForm.Proofs.Lowering.Loops
import RegisterForm.Proofs.Resolve.Uses
/-!
# Publications in loops

A loop over the keys or the values of an object writes in every round. A `var` list in its head is
hoisted, and its names are then published at the start of the body; what a block of the body
declares itself stands between these calls and the variables that the head writes to.
-/
namespace RegisterForm

open Lowering

/-! ## Loops of the module -/

/-- The head and the body of a loop over the keys or the values of an object. -/
def Stmt.loop? : Stmt → Option (ForHead × Stmt)
  | .forIn head _ body => some (head, body)
  | .forOf head _ body _ => some (head, body)
  | _ => none

/-- What a `var` list in the head of such a loop gives a value to in each round. -/
def ForHead.varTarget? : ForHead → Option Pattern
  | .var ⟨.var, ⟨target, _⟩ :: _⟩ => some target
  | _ => none

mutual

/-- A statement and those inside it, at any depth of blocks but not inside functions. -/
def Stmt.within : Stmt → List Stmt
  | .block body => .block body :: stmtsWithin body
  | .ifThen test yes => .ifThen test yes :: yes.within
  | .ifElse test yes no => .ifElse test yes no :: (yes.within ++ no.within)
  | .forLoop init test update body => .forLoop init test update body :: body.within
  | .forIn head object body => .forIn head object body :: body.within
  | .forOf head iterable body isAwait => .forOf head iterable body isAwait :: body.within
  | .whileLoop test body => .whileLoop test body :: body.within
  | .doWhile body test => .doWhile body test :: body.within
  | .labeled label body => .labeled label body :: body.within
  | .withObject object body => .withObject object body :: body.within
  | .tryCatch body handler finalizer =>
    .tryCatch body handler finalizer ::
      (stmtsWithin body ++ catchWithin handler ++ finallyWithin finalizer)
  | .switch subject cases => .switch subject cases :: casesWithin cases
  | st => [st]

def stmtsWithin : List Stmt → List Stmt
  | [] => []
  | st :: sts => st.within ++ stmtsWithin sts

def catchWithin : Option Catch → List Stmt
  | none => []
  | some ⟨_, body⟩ => stmtsWithin body

def finallyWithin : Option (List Stmt) → List Stmt
  | none => []
  | some body => stmtsWithin body

def casesWithin : List Case → List Stmt
  | [] => []
  | ⟨_, body⟩ :: cases => stmtsWithin body ++ casesWithin cases

end

theorem Stmt.mem_within (st : Stmt) : st ∈ st.within := by
  cases st <;> exact List.mem_cons_self

theorem stmtsWithin_append (sts sts' : List Stmt) :
    stmtsWithin (sts ++ sts') = stmtsWithin sts ++ stmtsWithin sts' := by
  induction sts with
  | nil => rfl
  | cons st sts ih => rw [List.cons_append, stmtsWithin, ih, stmtsWithin, List.append_assoc]

theorem within_ofList : ∀ sts : List Stmt, stmtsWithin sts ⊆ (Stmt.ofList sts).within
  | [] => List.nil_subset _
  | [_] => List.append_subset.mpr ⟨List.Subset.refl _, List.nil_subset _⟩
  | _ :: _ :: _ => List.subset_cons_self _ _

/-! ## What the loops of a lowered tree start with -/

/-- A statement outside functions is what lowering makes of another one. -/
def Setting.Makes (s : Setting) (st st' : Stmt) : Prop :=
  ∃ (place : Place) (p p' : Progress), place.hoistsVars = true ∧
    (st.lower s place).run p = .ok ([st'], p')

/-- Each loop with a hoisted head that writes to exported names has become a loop that starts with
the calls for them. -/
def Setting.Announces (s : Setting) (sts sts' : List Stmt) : Prop :=
  ∀ st ∈ sts, ∀ head body target, st.loop? = some (head, body) → head.varTarget? = some target →
    headExports s target ≠ [] → ∃ st' ∈ sts', s.Makes st st' ∧ ∃ pattern rest,
      st'.loop? = some (.pattern pattern, .block (headExports s target ++ rest))

namespace Setting.Announces

variable {s : Setting} {st : Stmt} {sts sts' made made' : List Stmt}

theorem mono (h : s.Announces sts made) (hmade : made ⊆ made') : s.Announces sts made' := by
  intro st hst head body target hloop htarget hne
  obtain ⟨st', hst', hmost⟩ := h st hst head body target hloop htarget hne
  exact ⟨st', hmade hst', hmost⟩

theorem append (h : s.Announces sts made) (h' : s.Announces sts' made) :
    s.Announces (sts ++ sts') made := by
  intro st hst
  obtain hst | hst := List.mem_append.mp hst
  · exact h st hst
  · exact h' st hst

theorem nil (made : List Stmt) : s.Announces [] made := nofun

/-- A statement that is no loop asks for nothing itself. -/
theorem cons (hst : st.loop? = none) (h : s.Announces sts made) : s.Announces (st :: sts) made := by
  intro st' hst' head body target hloop
  obtain rfl | hst' := List.mem_cons.mp hst'
  · rw [hst] at hloop
    cases hloop
  · exact h st' hst' head body target hloop

/-- Such a statement is announced by what is inside the one it becomes. -/
theorem node {st' : Stmt} (hst : st.loop? = none) (h : s.Announces sts made)
    (hmade : made ⊆ st'.within.tail) : s.Announces (st :: sts) (stmtsWithin [st']) :=
  (h.mono fun _ h => List.mem_append_left _ (List.mem_of_mem_tail (hmade h))).cons hst

end Setting.Announces

section parts
variable {s : Setting} {place : Place} {sts made exports : List Stmt}

theorem within_subset_loopBody (exports made : List Stmt) :
    stmtsWithin made ⊆ (loopBody exports made).within := by
  unfold loopBody
  split
  · exact within_ofList made
  · refine List.subset_cons_of_subset _ ?_
    rw [stmtsWithin_append]
    exact List.subset_append_right _ _

theorem loopBody_of_ne_nil (hne : exports ≠ []) (made : List Stmt) :
    loopBody exports made = .block (exports ++ made) := by
  rw [loopBody, if_neg (by simpa using hne)]

/-- The body of a loop: what it holds is announced, and the calls stand at its start. -/
def Setting.AnnouncesBody (s : Setting) (sts exports : List Stmt) (body' : Stmt) : Prop :=
  s.Announces sts body'.within ∧ (exports ≠ [] → ∃ rest, body' = .block (exports ++ rest))

theorem Setting.Announces.loopBody (h : s.Announces sts (stmtsWithin made))
    (exports : List Stmt) : s.AnnouncesBody sts exports (loopBody exports made) :=
  ⟨h.mono (within_subset_loopBody exports made), fun hne => ⟨made, loopBody_of_ne_nil hne made⟩⟩

theorem blockBody_announces {body : Lowering (List Stmt)}
    (hbody : Yields Any body fun sts' => s.Announces sts (stmtsWithin sts'))
    (exports : List Stmt) : Yields Any (blockBody s exports body) (s.AnnouncesBody sts exports) := by
  unfold blockBody
  refine .ite (fun hnil => ?_) fun _ => hbody.bind fun sts' h => .pure ⟨?_, fun _ => ⟨sts', rfl⟩⟩
  · refine .deeper s (hbody.bind fun sts' h => .pure ⟨?_, fun hne => ?_⟩)
    · exact h.mono (List.subset_cons_self _ _)
    · exact absurd (by simpa using hnil) hne
  · refine h.mono (List.subset_cons_of_subset _ ?_)
    rw [stmtsWithin_append]
    exact List.subset_append_right _ _

/-- The statements of a block are announced as those of the loop's body are. -/
theorem yields_announces_block {body : Lowering (List Stmt)} {inner : List Stmt}
    (hbody : Yields Any body fun sts' => s.Announces (stmtsWithin inner) (stmtsWithin sts')) :
    Yields Any body fun sts' => s.Announces (Stmt.block inner).within (stmtsWithin sts') :=
  hbody.mono fun _ h => .cons rfl h

theorem ForHead.varTarget?_eq_some {head : ForHead} {target : Pattern}
    (h : head.varTarget? = some target) : ∃ init ds, head = .var ⟨.var, ⟨target, init⟩ :: ds⟩ := by
  obtain ⟨_ | _ | _, _ | ⟨⟨target₀, init⟩, ds⟩⟩ | _ := head <;> cases h
  exact ⟨init, ds, rfl⟩

theorem ForHead.lower_varTarget (hplace : place.hoistsVars = true) (head : ForHead) :
    Yields Any (head.lower s place) fun r => ∀ target, head.varTarget? = some target →
      r.2 = headExports s target ∧ ∃ pattern, r.1 = .pattern pattern := by
  intro p r p' hrun
  refine ⟨trivial, fun target htarget => ?_⟩
  obtain ⟨init, ds, rfl⟩ := ForHead.varTarget?_eq_some htarget
  have hmade : Yields Any (ForHead.lower s place (.var ⟨.var, ⟨target, init⟩ :: ds⟩)) fun r =>
      r.2 = headExports s target ∧ ∃ pattern, r.1 = .pattern pattern := by
    refine .ite (fun _ => ?_) fun hno => absurd (by simp [hplace]) hno
    exact (yields_any _).bind fun _ _ => (yields_any _).bind fun pattern _ => .pure ⟨rfl, pattern, rfl⟩
  exact (hmade hrun).2

theorem lowerLoopBody_announces {body : Stmt} (exports : List Stmt)
    (hblock : ∀ inner, body = .block inner → Yields Any (lowerStmts s place inner) fun sts' =>
      s.Announces (stmtsWithin inner) (stmtsWithin sts'))
    (hbody : Yields Any (body.lower s place)
      fun sts' => s.Announces body.within (stmtsWithin sts')) :
    Yields Any (lowerLoopBody s place exports body) (s.AnnouncesBody body.within exports) := by
  cases body with
  | block inner => exact blockBody_announces (yields_announces_block (hblock inner rfl)) exports
  | _ => exact hbody.bind fun made h => .pure (h.loopBody exports)

/-- What an enumerating loop is lowered to, of either kind. -/
theorem ForHead.yields_loop {body : Stmt} (hplace : place.hoistsVars = true) (head : ForHead)
    (object : Expr) (loop : ForHead → Expr → Stmt → Stmt)
    (hblock : ∀ inner, body = .block inner → Yields Any (lowerStmts s place.inner inner) fun sts' =>
      s.Announces (stmtsWithin inner) (stmtsWithin sts'))
    (hbody : Yields Any (body.lower s place.inner) fun sts' =>
      s.Announces body.within (stmtsWithin sts')) :
    Yields Any (do
      let (head, exports) ← head.lower s place
      let object ← object.lower s true
      return [loop head object (← lowerLoopBody s place.inner exports body)]) fun sts' =>
        ∃ (r : ForHead × List Stmt) (object' : Expr) (body' : Stmt),
          sts' = [loop r.1 object' body'] ∧ (∀ target, head.varTarget? = some target →
            r.2 = headExports s target ∧ ∃ pattern, r.1 = .pattern pattern) ∧
          s.AnnouncesBody body.within r.2 body' :=
  (head.lower_varTarget hplace).bind fun r hr => (yields_any _).bind fun object' _ =>
    (lowerLoopBody_announces r.2 hblock hbody).bind fun body' h =>
      .pure ⟨r, object', body', rfl, hr, h⟩

/-- A loop is announced if the calls of its head stand at the start of its body. -/
theorem Setting.Announces.loop {st st' body body' : Stmt} {head : ForHead}
    {r : ForHead × List Stmt} (hmakes : s.Makes st st') (hloop : st.loop? = some (head, body))
    (hloop' : st'.loop? = some (r.1, body')) (hwithin : body'.within ⊆ st'.within)
    (hhead : ∀ target, head.varTarget? = some target →
      r.2 = headExports s target ∧ ∃ pattern, r.1 = .pattern pattern)
    (hbody : s.AnnouncesBody body.within r.2 body') :
    s.Announces (st :: body.within) (stmtsWithin [st']) := by
  intro st₀ hst₀ head₀ body₀ target hloop₀ htarget hne
  rw [stmtsWithin, stmtsWithin, List.append_nil]
  obtain rfl | hst₀ := List.mem_cons.mp hst₀
  · obtain ⟨rfl, rfl⟩ : head = head₀ ∧ body = body₀ := by simpa [hloop] using hloop₀
    obtain ⟨hexports, pattern, hpattern⟩ := hhead target htarget
    obtain ⟨rest, rfl⟩ := hbody.2 (hexports ▸ hne)
    exact ⟨st', st'.mem_within, hmakes, pattern, rest, by rw [hloop', hpattern, hexports]⟩
  · obtain ⟨st'', hst'', hmost⟩ := hbody.1 st₀ hst₀ head₀ body₀ target hloop₀ htarget hne
    exact ⟨st'', hwithin hst'', hmost⟩

end parts

/-! ## Lowering -/

theorem Place.hoistsVars_inner {place : Place} (h : place.hoistsVars = true) :
    place.inner.hoistsVars = true := by
  cases place with
  | function => cases h
  | topLevel | moduleBlock => rfl

section lowering
variable {s : Setting}

mutual

theorem Catch.lower_announces {place : Place} (hplace : place.hoistsVars = true) : (c : Catch) →
    Yields Any (c.lower s place) fun c' => s.Announces (catchWithin (some c)) (catchWithin (some c'))
  | ⟨_, body⟩ =>
    (yields_any _).bind fun _ _ => (lowerStmts_announces hplace body).bind fun _ h => .pure h

theorem lowerCatch?_announces {place : Place} (hplace : place.hoistsVars = true) :
    (handler : Option Catch) → Yields Any (lowerCatch? s place handler) fun handler' =>
      s.Announces (catchWithin handler) (catchWithin handler')
  | none => .pure (.nil _)
  | some c => (c.lower_announces hplace).bind fun _ h => .pure h

theorem lowerBlock?_announces {place : Place} (hplace : place.hoistsVars = true) :
    (body : Option (List Stmt)) → Yields Any (lowerBlock? s place body) fun body' =>
      s.Announces (finallyWithin body) (finallyWithin body')
  | none => .pure (.nil _)
  | some body => (lowerStmts_announces hplace body).bind fun _ h => .pure h

theorem lowerCases_announces {place : Place} (hplace : place.hoistsVars = true) :
    (cases : List Case) → Yields Any (lowerCases s place cases) fun cases' =>
      s.Announces (casesWithin cases) (casesWithin cases')
  | [] => .pure (.nil _)
  | ⟨test, body⟩ :: cs => by
    refine (Case.lower_announces hplace ⟨test, body⟩).bind fun c' hc => ?_
    refine (lowerCases_announces hplace cs).bind fun cs' hcs => .pure ?_
    obtain ⟨test', body'⟩ := c'
    exact (hc.mono (List.subset_append_left _ _)).append (hcs.mono (List.subset_append_right _ _))

theorem Case.lower_announces {place : Place} (hplace : place.hoistsVars = true) : (c : Case) →
    Yields Any (c.lower s place) fun c' =>
      s.Announces (stmtsWithin c.body) (stmtsWithin c'.body)
  | ⟨_, body⟩ =>
    (yields_any _).bind fun _ _ => (lowerStmts_announces hplace body).bind fun _ h => .pure h

theorem lowerStmts_announces {place : Place} (hplace : place.hoistsVars = true) :
    (sts : List Stmt) → Yields Any (lowerStmts s place sts) fun sts' =>
      s.Announces (stmtsWithin sts) (stmtsWithin sts')
  | [] => .pure (.nil _)
  | st :: sts => by
    refine (st.lower_announces hplace).bind fun made h => ?_
    refine (lowerStmts_announces hplace sts).bind fun more hmore => .pure ?_
    rw [stmtsWithin_append]
    exact (h.mono (List.subset_append_left _ _)).append
      (hmore.mono (List.subset_append_right _ _))

/-- The statements of a loop body that is a block. -/
theorem Stmt.block_announces {place : Place} (hplace : place.hoistsVars = true) (st : Stmt) :
    ∀ inner, st = .block inner → Yields Any (lowerStmts s place.inner inner) fun sts' =>
      s.Announces (stmtsWithin inner) (stmtsWithin sts') := by
  cases st with
  | block inner =>
    rintro _ ⟨⟩
    exact lowerStmts_announces (Place.hoistsVars_inner hplace) inner
  | _ => nofun

theorem Stmt.lower_announces {place : Place} (hplace : place.hoistsVars = true) : (st : Stmt) →
    Yields Any (st.lower s place) fun sts' => s.Announces st.within (stmtsWithin sts')
  | .block body => by
    have hbody := lowerStmts_announces (Place.hoistsVars_inner hplace) body
    exact .deeper s (hbody.bind fun _ h => .pure (.node rfl h (List.Subset.refl _)))
  | .ifThen test yes => by
    have hyes := yes.lower_announces (Place.hoistsVars_inner hplace)
    exact .deeper s ((yields_any _).bind fun _ _ => hyes.bind fun yes' h =>
      .pure (.node rfl h (within_ofList yes')))
  | .ifElse test yes no => by
    have hyes := yes.lower_announces (Place.hoistsVars_inner hplace)
    have hno := no.lower_announces (Place.hoistsVars_inner hplace)
    refine .deeper s ((yields_any _).bind fun _ _ => hyes.bind fun yes' hyes' =>
      hno.bind fun no' hno' => .pure (.node rfl (.append ?_ ?_) (List.Subset.refl _)))
    · exact hyes'.mono (List.subset_append_of_subset_left _ (within_ofList yes'))
    · exact hno'.mono (List.subset_append_of_subset_right _ (within_ofList no'))
  | .forLoop init test update body => by
    have hbody := body.lower_announces (Place.hoistsVars_inner hplace)
    exact .deeper s ((yields_any _).bind fun _ _ => (yields_any _).bind fun _ _ =>
      (yields_any _).bind fun _ _ => hbody.bind fun body' h =>
      .pure (.node rfl h (within_ofList body')))
  | .forIn head object body => by
    have hblock := body.block_announces hplace
    have hbody := body.lower_announces (Place.hoistsVars_inner hplace)
    have hlowered := (head.yields_loop hplace object .forIn hblock hbody).deeper s
    rw [← Stmt.lower_forIn] at hlowered
    intro p sts' p' hrun
    obtain ⟨r, object', body', rfl, hhead, hbody⟩ := (hlowered hrun).2
    exact ⟨trivial, .loop ⟨place, p, p', hplace, hrun⟩ rfl rfl (List.subset_cons_self _ _) hhead hbody⟩
  | .forOf head iterable body isAwait => by
    have hblock := body.block_announces hplace
    have hbody := body.lower_announces (Place.hoistsVars_inner hplace)
    have hlowered := (head.yields_loop hplace iterable (.forOf · · · isAwait) hblock
      hbody).deeper s
    rw [← Stmt.lower_forOf] at hlowered
    intro p sts' p' hrun
    obtain ⟨r, iterable', body', rfl, hhead, hbody⟩ := (hlowered hrun).2
    exact ⟨trivial, .loop ⟨place, p, p', hplace, hrun⟩ rfl rfl (List.subset_cons_self _ _) hhead hbody⟩
  | .whileLoop test body => by
    have hbody := body.lower_announces (Place.hoistsVars_inner hplace)
    exact .deeper s ((yields_any _).bind fun _ _ => hbody.bind fun body' h =>
      .pure (.node rfl h (within_ofList body')))
  | .doWhile body test => by
    have hbody := body.lower_announces (Place.hoistsVars_inner hplace)
    exact .deeper s (hbody.bind fun body' h => (yields_any _).bind fun _ _ =>
      .pure (.node rfl h (within_ofList body')))
  | .labeled label body => by
    have hbody := body.lower_announces (Place.hoistsVars_inner hplace)
    exact .deeper s (hbody.bind fun body' h => .pure (.node rfl h (within_ofList body')))
  | .withObject object body => by
    have hbody := body.lower_announces (Place.hoistsVars_inner hplace)
    exact .deeper s ((yields_any _).bind fun _ _ => hbody.bind fun body' h =>
      .pure (.node rfl h (within_ofList body')))
  | .tryCatch body handler finalizer => by
    have hinner := Place.hoistsVars_inner hplace
    refine .deeper s ((lowerStmts_announces hinner body).bind fun body' hbody =>
      (lowerCatch?_announces hinner handler).bind fun handler' hhandler =>
      (lowerBlock?_announces hinner finalizer).bind fun finalizer' hfinalizer =>
      .pure (.node rfl (.append (.append ?_ ?_) ?_) (List.Subset.refl _)))
    · exact hbody.mono (List.subset_append_of_subset_left _ (List.subset_append_left _ _))
    · exact hhandler.mono (List.subset_append_of_subset_left _ (List.subset_append_right _ _))
    · exact hfinalizer.mono (List.subset_append_right _ _)
  | .switch subject cases => by
    have hcases := lowerCases_announces (Place.hoistsVars_inner hplace) cases
    exact .deeper s ((yields_any _).bind fun _ _ => hcases.bind fun _ h =>
      .pure (.node rfl h (List.Subset.refl _)))
  | .expr _ | .var _ _ | .function _ _ | .classDecl _ _ | .importFrom _ _ _ _
  | .importEquals _ _ _ _ _ | .exportFrom _ _ _ _ | .exportValue _ _ _ | .ambient _ _ | .ret _
  | .throw _ | .breakTo _ | .continueTo _ | .empty | .debugger =>
    (yields_any _).mono fun _ _ => .cons rfl (.nil _)

end

end lowering

/-! ## What the calls read -/

section reads
variable {s : Setting} {target : Pattern} {rest : List Stmt}

theorem mem_headExports {st : Stmt} : st ∈ headExports s target ↔
    ∃ x ∈ target.boundIdents, ∃ name ∈ s.exportNames x,
      st = .expr (s.publish name (.ofName x.name)) := by
  simp [headExports, List.mem_flatMap, eq_comm]

/-- The calls declare nothing. -/
theorem blockLexicalBindings_headExports (inModule : Bool) :
    blockLexicalBindings inModule (headExports s target) = [] := by
  rw [blockLexicalBindings, List.flatMap_eq_nil_iff]
  intro st hst
  obtain ⟨x, -, name, -, rfl⟩ := mem_headExports.mp hst
  rfl

theorem mem_stmtsUses {st : Stmt} {sts : List Stmt} (hst : st ∈ sts) {u : NameUse} {scopes : Scopes}
    {depth : Nat} (hu : u ∈ st.uses scopes depth) : u ∈ stmtsUses sts scopes depth := by
  induction sts with
  | nil => cases hst
  | cons st' sts ih =>
    rw [stmtsUses, List.mem_append]
    obtain rfl | hst := List.mem_cons.mp hst
    · exact .inl hu
    · exact .inr (ih hst)

/-- A call reads the variable of its name. -/
theorem mem_uses_publish (s : Setting) (name text : String) (scopes : Scopes) (depth : Nat) :
    ⟨.synthetic text, scopes, depth + 3⟩ ∈
      (Stmt.expr (s.publish name (.ofName text))).uses scopes depth :=
  .tail _ (.head _)

theorem Scopes.find?_cons_of_not_mem {bs : List Binding} {name : String}
    (h : name ∉ bs.map (·.ident.name)) (around : Scopes) :
    Scopes.find? (bs :: around) name = around.find? name := by
  have hnone : bs.find? (·.ident.name == name) = none := by
    rw [List.find?_eq_none]
    intro b hb heq
    exact h (List.mem_map.mpr ⟨b, hb, by simpa using heq⟩)
  rw [Scopes.find?, List.findSome?_cons, hnone]
  rfl

theorem Scopes.find?_cons_of_mem {bs : List Binding} {name : String}
    (h : name ∈ bs.map (·.ident.name)) (around : Scopes) :
    ∃ b ∈ bs, Scopes.find? (bs :: around) name = some b := by
  obtain ⟨b, hb, hname⟩ := List.mem_map.mp h
  obtain ⟨b', hb'⟩ := Option.isSome_iff_exists.mp
    (List.find?_isSome.mpr ⟨b, hb, by simpa using hname⟩ :
      (bs.find? (·.ident.name == name)).isSome)
  refine ⟨b', List.mem_of_find?_eq_some hb', ?_⟩
  rw [Scopes.find?, List.findSome?_cons, hb']

end reads

/-- Every loop over keys or values that stands outside functions and has a hoisted `var` list in its
head publishes what the head writes to: the body that lowering makes of it starts with a call for
every name of every variable. The variable that a call reads means what it means around the loop,
where the head writes to it, if the rest of the body declares no such name in the same block, and
else it means what the rest declares. -/
theorem lower_publishesHeads {options : Options} {names : NameTable} {file : SourceFile}
    {lowered : Lowered} (h : lower options names file = .ok lowered) :
    let s := (Setting.ofFile options names file).1
    ∃ execute, lowered.execute? = some execute ∧
      ∀ st ∈ stmtsWithin file.statements, ∀ head body target, st.loop? = some (head, body) →
        head.varTarget? = some target → headExports s target ≠ [] →
        ∃ st' ∈ stmtsWithin execute, s.Makes st st' ∧ ∃ pattern rest,
          st'.loop? = some (.pattern pattern, .block (headExports s target ++ rest)) ∧
          ∀ x ∈ target.boundIdents, ∀ name ∈ s.exportNames x,
            .expr (s.publish name (.ofName x.name)) ∈ headExports s target ∧
            ∀ (around : Scopes) (depth : Nat),
              ∃ u ∈ (Stmt.block (headExports s target ++ rest)).uses around depth,
                u.ident = .synthetic x.name ∧
                (x.name ∉ (blockLexicalBindings false rest).map (·.ident.name) →
                  u.scopes.find? x.name = around.find? x.name) ∧
                (x.name ∈ (blockLexicalBindings false rest).map (·.ident.name) →
                  ∃ b ∈ blockLexicalBindings false rest, u.scopes.find? x.name = some b) := by
  intro s
  obtain ⟨groups, execute, p, hrun, rfl⟩ := lower_eq_ok h
  refine ⟨execute, Setting.execute?_assemble s groups execute p, ?_⟩
  intro st hst head body target hloop htarget hne
  have hannounced := (lowerStmts_announces rfl file.statements hrun).2
  obtain ⟨st', hst', hmakes, pattern, rest, hloop'⟩ :=
    hannounced st hst head body target hloop htarget hne
  refine ⟨st', hst', hmakes, pattern, rest, hloop', ?_⟩
  intro x hx name hname
  have hmem : .expr (s.publish name (.ofName x.name)) ∈ headExports s target :=
    mem_headExports.mpr ⟨x, hx, name, hname, rfl⟩
  refine ⟨hmem, fun around depth => ?_⟩
  have hblock : blockLexicalBindings false (headExports s target ++ rest) =
      blockLexicalBindings false rest := by
    rw [blockLexicalBindings, List.flatMap_append]
    change blockLexicalBindings false (headExports s target) ++ blockLexicalBindings false rest = _
    rw [blockLexicalBindings_headExports, List.nil_append]
  refine ⟨⟨.synthetic x.name, blockLexicalBindings false rest :: around, depth + 1 + 3⟩, ?_, rfl,
    fun hout => Scopes.find?_cons_of_not_mem hout around,
    fun hin => Scopes.find?_cons_of_mem hin around⟩
  rw [Stmt.uses_block, hblock]
  exact mem_stmtsUses (List.mem_append_left _ hmem) (mem_uses_publish s name x.name _ _)

/-- `export var x;` and a loop -/
def exportedAndLoop (loop : Stmt) : SourceFile where
  id := .numbered 10
  name := "m.ts"
  statements := [.var { isExported := true } ⟨.var, [⟨.ident ⟨.numbered 0, "x"⟩, none⟩]⟩, loop]

/-- `for (var x of y) { let name; }` -/
def varLoop (name : String) : Stmt :=
  .forOf (.var ⟨.var, [⟨.ident ⟨.numbered 1, "x"⟩, none⟩]⟩) (.ident ⟨.numbered 2, "y"⟩)
    (.block [.var {} ⟨.let, [⟨.ident ⟨.numbered 3, name⟩, none⟩]⟩]) false

/-- The body of a loop starts with the one call of its head. -/
theorem lower_publishesHeads_var : ∃ lowered execute,
    lower {} (.ofFile (exportedAndLoop (varLoop "z"))) (exportedAndLoop (varLoop "z")) =
        .ok lowered ∧
      lowered.execute? = some execute ∧ ∃ st' ∈ stmtsWithin execute, ∃ pattern rest,
        st'.loop? = some (.pattern pattern,
          .block (.expr ((Expr.ofName "exports_1").apply [.ofString "x", .ofName "x"]) :: rest)) := by
  have hlowered : ∃ lowered, lower {} (.ofFile (exportedAndLoop (varLoop "z")))
      (exportedAndLoop (varLoop "z")) = .ok lowered := ⟨_, rfl⟩
  obtain ⟨lowered, h⟩ := hlowered
  obtain ⟨execute, hexecute, hloops⟩ := lower_publishesHeads h
  obtain ⟨st', hst', -, pattern, rest, hloop, -⟩ := hloops (varLoop "z")
    (.tail _ (.head _)) _ _ _ rfl rfl (by decide)
  exact ⟨lowered, execute, h, hexecute, st', hst', pattern, rest, hloop⟩

/-- A head that is a plain pattern publishes nothing, and what the call of a hoisted head reads is
what the block of the body declares. -/
theorem loop_head_unpublished :
    let plain := exportedAndLoop (.forOf (.pattern (.ident ⟨.numbered 1, "x"⟩))
      (.ident ⟨.numbered 2, "y"⟩) (.block []) false)
    let captured := exportedAndLoop (varLoop "x")
    plain.WellNumbered ∧ captured.WellNumbered ∧ ∃ lowered lowered',
      lower {} (.ofFile plain) plain = .ok lowered ∧
      lower {} (.ofFile captured) captured = .ok lowered' ∧
      (Setting.ofFile {} (.ofFile plain) plain).1.exportNames ⟨.numbered 1, "x"⟩ = ["x"] ∧
      lowered.execute? = some [.forOf (.pattern (.ident ⟨.numbered 1, "x"⟩))
        (.ident ⟨.numbered 2, "y"⟩) (.block []) false] ∧
      lowered'.execute? = some [.forOf (.pattern (.ident ⟨.numbered 1, "x"⟩))
        (.ident ⟨.numbered 2, "y"⟩)
        (.block [.expr ((Expr.ofName "exports_1").apply [.ofString "x", .ofName "x"]),
          .var {} ⟨.let, [⟨.ident ⟨.numbered 3, "x"⟩, none⟩]⟩]) false] :=
  ⟨⟨by decide, by decide⟩, ⟨by decide, by decide⟩, _, _, rfl, rfl, rfl, rfl, rfl⟩

end RegisterForm
