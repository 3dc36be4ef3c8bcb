import RegisterForm.Proofs.Fresh.Supply
import RegisterForm.Proofs.Lowering.Composed
import RegisterForm.Proofs.Lowering.Yields
/-!
# What lowering does not depend on

What lowering makes of a tree depends on the names that may still be given out, and on nothing that
was collected or noted before. In particular it does not matter whether a temporary that the supply
has passed is in use, as it is never tried again.
-/
namespace RegisterForm
open Lowering

namespace NameSupply
variable {supply supply' : NameSupply}

theorem le_freeTemporary (supply : NameSupply) (bound n : Nat) :
    n ≤ supply.freeTemporary bound n := by
  induction bound generalizing n with
  | zero => exact Nat.le_refl n
  | succ bound ih =>
    unfold freeTemporary
    split
    · exact Nat.le_trans (Nat.le_succ n) (ih (n + 1))
    · exact Nat.le_refl n

/-- What the search passes over is in use. -/
theorem isUsed_of_lt_freeTemporary {bound n m : Nat} (hle : n ≤ m)
    (hlt : m < supply.freeTemporary bound n) : supply.isUsed (temporaryName m) = true := by
  induction bound generalizing n with
  | zero => exact absurd hlt (Nat.not_lt.mpr hle)
  | succ bound ih =>
    unfold freeTemporary at hlt
    split at hlt
    · next hused =>
      rcases Nat.eq_or_lt_of_le hle with rfl | hlt'
      · exact hused
      · exact ih hlt' hlt
    · exact absurd hlt (Nat.not_lt.mpr hle)

/-- The search ends at the first temporary that is free, whatever bound it was given. -/
theorem freeTemporary_congr {bound bound' n : Nat}
    (hagree : ∀ m, n ≤ m → supply.isUsed (temporaryName m) = supply'.isUsed (temporaryName m))
    (hfree : supply.isUsed (temporaryName (supply.freeTemporary bound n)) = false)
    (hfree' : supply'.isUsed (temporaryName (supply'.freeTemporary bound' n)) = false) :
    supply.freeTemporary bound n = supply'.freeTemporary bound' n := by
  rcases Nat.lt_trichotomy (supply.freeTemporary bound n) (supply'.freeTemporary bound' n) with
    hlt | heq | hlt
  · have hused := isUsed_of_lt_freeTemporary (supply.le_freeTemporary bound n) hlt
    rw [← hagree _ (supply.le_freeTemporary bound n), hfree] at hused
    cases hused
  · exact heq
  · have hused := isUsed_of_lt_freeTemporary (supply'.le_freeTemporary bound' n) hlt
    rw [hagree _ (supply'.le_freeTemporary bound' n), hfree'] at hused
    cases hused

/-- Supplies that agree on the names of one stem number it alike. -/
theorem freeNumber_congr {stem : String}
    (hagree : ∀ n, supply.isUsed (numbered stem n) = supply'.isUsed (numbered stem n))
    (attempts n : Nat) :
    supply.freeNumber stem attempts n = supply'.freeNumber stem attempts n := by
  induction attempts generalizing n with
  | zero => rfl
  | succ attempts ih => rw [freeNumber, freeNumber, hagree, ih]

theorem temporaryName_ne_numbered_default (m n : Nat) :
    temporaryName m ≠ numbered (numberedStem "default") n := by
  intro h
  have hhead : (temporaryName m).toList.head? = some '_' := by
    rcases Nat.lt_or_ge m 26 with hm | hm
    · rw [toList_temporaryName_of_lt hm, List.head?_cons]
    · rw [toList_temporaryName_of_le hm, List.head?_cons]
  have hdefault : numberedStem "default" = "default_" := by decide
  rw [h, hdefault, numbered, String.toList_append] at hhead
  simp at hhead

/-- The names that a supply has passed are the temporaries that it has tried. -/
def Passed (supply : NameSupply) (name : String) : Prop :=
  ∃ n < supply.temporaries, name = temporaryName n

/-- The supplies go on alike: some names that both have passed are not in use in the second. -/
structure Resembles (passed : String → Prop) (supply supply' : NameSupply) : Prop where
  temporaries : supply.temporaries = supply'.temporaries
  isUsed : ∀ name, ¬passed name → supply.isUsed name = supply'.isUsed name
  passed : ∀ name, passed name → supply.Passed name ∧ supply'.isUsed name = false

namespace Resembles
variable {passed : String → Prop} (h : supply.Resembles passed supply')
include h

/-- The same name is given out, and the supplies go on alike. -/
theorem temporary : supply.temporary.1 = supply'.temporary.1 ∧
    supply.temporary.2.Resembles passed supply'.temporary.2 := by
  have hagree : ∀ m, supply.temporaries ≤ m →
      supply.isUsed (temporaryName m) = supply'.isUsed (temporaryName m) := by
    refine fun m hm => h.isUsed _ fun hpassed => ?_
    obtain ⟨⟨n, hn, heq⟩, -⟩ := h.passed _ hpassed
    have := temporaryName_injective heq
    omega
  have hfirst : supply.freeTemporary supply.used.size supply.temporaries =
      supply'.freeTemporary supply'.used.size supply'.temporaries := by
    have hfree' := supply'.isUsed_temporary_before
    rw [NameSupply.temporary, ← h.temporaries] at hfree'
    rw [← h.temporaries]
    exact freeTemporary_congr hagree supply.isUsed_temporary_before hfree'
  have hname : supply.temporary.1 = supply'.temporary.1 := congrArg temporaryName hfirst
  refine ⟨hname, congrArg (· + 1) hfirst, fun name hname' => ?_, fun name hpassed => ?_⟩
  · have hused : supply.temporary.2.isUsed name =
        (supply.temporary.1 == name || supply.isUsed name) := isUsed_use supply _ _
    have hused' : supply'.temporary.2.isUsed name =
        (supply'.temporary.1 == name || supply'.isUsed name) := isUsed_use supply' _ _
    rw [hused, hused', hname, h.isUsed name hname']
  · obtain ⟨⟨n, hn, rfl⟩, hunused⟩ := h.passed _ hpassed
    have hle := supply.le_freeTemporary supply.used.size supply.temporaries
    have hlt := Nat.lt_of_lt_of_le hn hle
    have hne : supply.temporary.1 ≠ temporaryName n := fun heq =>
      Nat.ne_of_gt hlt (temporaryName_injective heq)
    have hused' : supply'.temporary.2.isUsed (temporaryName n) =
        (supply'.temporary.1 == temporaryName n || supply'.isUsed (temporaryName n)) :=
      isUsed_use supply' _ _
    refine ⟨⟨n, Nat.lt_succ_of_lt hlt, rfl⟩, ?_⟩
    rw [hused', ← hname, hunused, Bool.or_false]
    exact beq_eq_false_iff_ne.mpr hne

theorem uniqueDefault : (supply.unique "default").1 = (supply'.unique "default").1 ∧
    (supply.unique "default").2.Resembles passed (supply'.unique "default").2 := by
  have hagree : ∀ n, supply.isUsed (numbered (numberedStem "default") n) =
      supply'.isUsed (numbered (numberedStem "default") n) := by
    refine fun n => h.isUsed _ fun hpassed => ?_
    obtain ⟨⟨m, -, heq⟩, -⟩ := h.passed _ hpassed
    exact temporaryName_ne_numbered_default m n heq.symm
  have hname : (supply.unique "default").1 = (supply'.unique "default").1 :=
    congrArg (numbered _) (freeNumber_congr hagree maxNameAttempts 1)
  have hused : ∀ name, (supply.unique "default").2.isUsed name =
      ((supply.unique "default").1 == name || supply.isUsed name) := isUsed_use supply _
  have hused' : ∀ name, (supply'.unique "default").2.isUsed name =
      ((supply'.unique "default").1 == name || supply'.isUsed name) := isUsed_use supply' _
  refine ⟨hname, h.temporaries, fun name hname' => ?_, fun name hpassed => ?_⟩
  · rw [hused, hused', hname, h.isUsed name hname']
  · obtain ⟨⟨n, hn, rfl⟩, hunused⟩ := h.passed _ hpassed
    refine ⟨⟨n, hn, rfl⟩, ?_⟩
    rw [hused', hunused, Bool.or_false]
    exact beq_eq_false_iff_ne.mpr (temporaryName_ne_numbered_default n _).symm

end Resembles
end NameSupply

/-! ## Collections -/

/-- The innermost collections, as many as were opened since, are the same. -/
structure Hoisting.Resembles (passed : String → Prop) (opened : Nat) (h h' : Hoisting) : Prop where
  supply : h.supply.Resembles passed h'.supply
  frames : h.frames.take opened = h'.frames.take opened
  opened : opened ≤ h.frames.length ∧ opened ≤ h'.frames.length

namespace Hoisting.Resembles
variable {passed : String → Prop} {opened : Nat} {h h' : Hoisting}

theorem modifyTop (hlike : h.Resembles passed opened h') (change : Frame → Frame) :
    (h.modifyTop change).Resembles passed opened (h'.modifyTop change) := by
  have hsupply : ∀ h : Hoisting, (h.modifyTop change).supply = h.supply := fun h => by
    unfold Hoisting.modifyTop
    split <;> rfl
  refine ⟨by rw [hsupply, hsupply]; exact hlike.supply, ?_, ?_⟩
  · have hframes := hlike.frames
    have hopened := hlike.opened
    cases opened with
    | zero => rw [List.take_zero, List.take_zero]
    | succ n =>
      unfold Hoisting.modifyTop
      cases hf : h.frames with
      | nil => simp [hf] at hopened
      | cons frame frames =>
        cases hf' : h'.frames with
        | nil => simp [hf'] at hopened
        | cons frame' frames' =>
          rw [hf, hf', List.take_succ_cons, List.take_succ_cons, List.cons.injEq] at hframes
          rw [List.take_succ_cons, List.take_succ_cons, hframes.1, hframes.2]
  · exact ⟨Nat.le_trans hlike.opened.1 (Nat.le_of_eq (h.depth_modifyTop change).symm),
      Nat.le_trans hlike.opened.2 (Nat.le_of_eq (h'.depth_modifyTop change).symm)⟩

theorem addVariable (hlike : h.Resembles passed opened h') (name : String) :
    (h.addVariable name).Resembles passed opened (h'.addVariable name) := hlike.modifyTop _

theorem addVariables (hlike : h.Resembles passed opened h') (names : List String) :
    (h.addVariables names).Resembles passed opened (h'.addVariables names) := by
  unfold Hoisting.addVariables
  induction names generalizing h h' with
  | nil => exact hlike
  | cons name names ih => exact ih (hlike.addVariable name)

theorem push (hlike : h.Resembles passed opened h') :
    h.push.Resembles passed (opened + 1) h'.push where
  supply := hlike.supply
  frames := congrArg (({} : Frame) :: ·) hlike.frames
  opened := ⟨Nat.succ_le_succ hlike.opened.1, Nat.succ_le_succ hlike.opened.2⟩

/-- What was opened since ends in the same collection. -/
theorem pop (hlike : h.Resembles passed (opened + 1) h') :
    h.pop.1 = h'.pop.1 ∧ h.pop.2.Resembles passed opened h'.pop.2 := by
  have hframes := hlike.frames
  have hopened := hlike.opened
  unfold Hoisting.pop
  cases hf : h.frames with
  | nil => simp [hf] at hopened
  | cons frame frames =>
    cases hf' : h'.frames with
    | nil => simp [hf'] at hopened
    | cons frame' frames' =>
      rw [hf, hf', List.take_succ_cons, List.take_succ_cons, List.cons.injEq] at hframes
      rw [hf, hf'] at hopened
      exact ⟨hframes.1, hlike.supply, hframes.2, Nat.le_of_succ_le_succ hopened.1,
        Nat.le_of_succ_le_succ hopened.2⟩

end Hoisting.Resembles

/-! ## Steps -/

/-- Trees are as deep, and names are given out alike. What is noted for the module may differ. -/
structure Progress.Resembles (passed : String → Prop) (opened : Nat) (p q : Progress) : Prop where
  depth : p.depth = q.depth
  hoisting : p.hoisting.Resembles passed opened q.hoisting

namespace Lowering
variable {passed : String → Prop} {α : Type} {x : Lowering α}

/-- A step that runs from one progress runs from the other too, and gives the same. By induction
along the steps; a function's parts run with one more collection in common. -/
theorem Composed.run_resembles {N : Prop} (hx : Composed N x) {opened : Nat} {p q p' : Progress} {a : α}
    (hlike : p.Resembles passed opened q) (hr : x.run p = .ok (a, p')) :
    ∃ q', x.run q = .ok (a, q') ∧ p'.Resembles passed opened q' := by
  induction hx generalizing opened p q p' with
  | pure b =>
    cases hr
    exact ⟨q, rfl, hlike⟩
  | throw e => cases hr
  | bind _ _ ihx ihf =>
    obtain ⟨b, p₁, hfirst, hrest⟩ := run_bind_eq_ok hr
    obtain ⟨q₁, hfirst', hlike₁⟩ := ihx hlike hfirst
    obtain ⟨q', hrest', hlike'⟩ := ihf b hlike₁ hrest
    exact ⟨q', (run_bind_of_ok hfirst').trans hrest', hlike'⟩
  | deeper s _ ih =>
    obtain ⟨hdepth, p₁, hrun, rfl⟩ := run_deeper_eq_ok hr
    have hbelow : Progress.Resembles passed opened { p with depth := p.depth + 1 }
        { q with depth := q.depth + 1 } := ⟨congrArg (· + 1) hlike.depth, hlike.hoisting⟩
    obtain ⟨q₁, hrun', hlike₁⟩ := ih hbelow hrun
    exact ⟨_, run_deeper_of_ok (hlike.depth ▸ hdepth) hrun',
      congrArg (· - 1) hlike₁.depth, hlike₁.hoisting⟩
  | inFunction _ ih =>
    obtain ⟨a, declarations⟩ := a
    obtain ⟨p₁, hrun, rfl, rfl⟩ := run_inFunction_eq_ok hr
    have hinside : Progress.Resembles passed (opened + 1) { p with hoisting := p.hoisting.push }
        { q with hoisting := q.hoisting.push } := ⟨hlike.depth, hlike.hoisting.push⟩
    obtain ⟨q₁, hrun', hlike₁⟩ := ih hinside hrun
    obtain ⟨hframe, hrest⟩ := hlike₁.hoisting.pop
    rw [hframe]
    exact ⟨{ q₁ with hoisting := q₁.hoisting.pop.2 }, run_inFunction_of_ok hrun', hlike₁.depth,
      hrest⟩
  | uniqueDefault =>
    cases hr
    obtain ⟨hname, hsupply⟩ := hlike.hoisting.supply.uniqueDefault
    refine ⟨{ q with hoisting := (q.hoisting.unique "default").2 }, ?_, hlike.depth, hsupply,
      hlike.hoisting.frames, hlike.hoisting.opened⟩
    exact congrArg (fun name => Except.ok
      (name, { q with hoisting := (q.hoisting.unique "default").2 })) hname.symm
  | declareTemporary =>
    cases hr
    obtain ⟨hname, hsupply⟩ := hlike.hoisting.supply.temporary
    have htemporary : p.hoisting.temporary.2.Resembles passed opened q.hoisting.temporary.2 :=
      ⟨hsupply, hlike.hoisting.frames, hlike.hoisting.opened⟩
    have hdeclared := htemporary.addVariable p.hoisting.temporary.1
    refine ⟨{ q with hoisting := q.hoisting.temporary.2.addVariable p.hoisting.temporary.1 }, ?_,
      hlike.depth, hdeclared⟩
    exact congrArg (fun name => Except.ok
      (name, { q with hoisting := q.hoisting.temporary.2.addVariable name })) hname.symm
  | addVariables names =>
    cases hr
    exact ⟨_, rfl, hlike.depth, hlike.hoisting.addVariables names⟩
  | addFunction st =>
    cases hr
    exact ⟨_, rfl, hlike.depth, hlike.hoisting.modifyTop _⟩
  | addExportedName name =>
    cases hr
    refine ⟨_, rfl, ?_⟩
    dsimp only
    split <;> split <;> exact ⟨hlike.depth, hlike.hoisting⟩
  | addFunctionExport call | requireRest =>
    cases hr
    exact ⟨_, rfl, hlike.depth, hlike.hoisting⟩

end Lowering
end RegisterForm
