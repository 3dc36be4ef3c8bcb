import RegisterForm.Proofs.Fresh.Vocabulary
import RegisterForm.Proofs.Lowering.Loops
/-!
# Accounts of lowering steps

How a lowering step draws on the supply of names, and what vocabulary its result and all that it
sets aside keep to. The account of a step is for a vocabulary that knows every name in use at the
end: which names these are is settled only once the step has run. A step that fails does so because
the tree is too deep.
-/
namespace RegisterForm
open Vocabulary

/-! ## Reads and publications -/

/-- A vocabulary knows the names that a setting writes. -/
structure Setting.SpokenIn (s : Setting) (V : Vocabulary) : Prop where
  exporter : V.mentions s.exporter
  publishes : V.calls (.synthetic s.exporter)
  context : V.mentions s.context
  holders : ∀ declaration holder, s.holders.lookup declaration = some holder →
    V.mentions holder ∧ V.calls (.synthetic holder)
  rest : V.mentions restName
  madeUp : ∀ name, NameSupply.IsMadeUp name → V.binds (.synthetic name)

namespace Setting.SpokenIn
variable {s : Setting} {V : Vocabulary} (hs : s.SpokenIn V)
include hs

theorem covers_publish (name : String) {value : Expr} (h : V.Covers value.visits) :
    V.Covers (s.publish name value).visits := by
  rw [publish, covers_applyName]
  exact ⟨hs.publishes, hs.exporter, by simpa [exprsVisits] using h⟩

theorem covers_published (x : Ident) {value : Expr} (h : V.Covers value.visits) :
    V.Covers (s.published x value).visits := by
  unfold published
  generalize s.exportNames x = names
  induction names generalizing value with
  | nil => exact h
  | cons name names ih => exact ih (hs.covers_publish name h)

theorem covers_publishedTo (target : Pattern) {value : Expr} (h : V.Covers value.visits) :
    V.Covers (s.publishedTo target value).visits := by
  unfold publishedTo
  split
  · exact hs.covers_published _ h
  · exact h

theorem covers_bindingAssignment {x : Ident} {value : Expr} (hx : V.binds x ∧ V.mentions x.name)
    (h : V.Covers value.visits) : V.Covers (s.bindingAssignment x value).visits :=
  hs.covers_published x ((covers_assignTo _ _).mpr ⟨(covers_identPattern x).mpr hx, h⟩)

theorem covers_publishedUpdate? {op : UpdateOp} {isPrefix isUsed : Bool} {arg e : Expr}
    (harg : V.Covers arg.visits) (h : s.publishedUpdate? op isPrefix isUsed arg = some e) :
    V.Covers e.visits := by
  have hskip : ∀ e : Expr, V.Covers e.visits → V.Covers e.skipParens.visits := by
    intro e
    induction e using Expr.skipParens.induct with
    | case1 inner ih => exact fun h => ih ((covers_paren inner).mp h)
    | case2 e hne =>
      intro h
      rwa [Expr.skipParens.eq_2 e hne]
  unfold publishedUpdate? at h
  split at h
  · next x hx =>
    have hident := hskip arg harg
    rw [hx] at hident
    split at h
    · cases h
    · have hupdated : V.Covers (s.published x (.update op true (.ident x))).visits :=
        hs.covers_published x ((covers_update _ _ _).mpr hident)
      split at h <;> cases h
      · exact hupdated
      · exact (covers_binary _ _ _).mpr ⟨hupdated, covers_ofNumber _⟩
  · cases h

/-- An import is read off the variable that holds its module, or is that variable. -/
theorem covers_read {x : Ident} (h : V.mentions x.name) : V.Covers (s.read x).visits := by
  unfold read
  split
  · exact (covers_identExpr x).mpr h
  · next origin _ =>
    split
    · exact (covers_identExpr x).mpr h
    · next holder hholder =>
      have hmentions := (hs.holders _ _ hholder).1
      have hproperty : ∀ name, V.Covers (s.importedProperty holder name).visits := by
        intro name
        unfold importedProperty
        split <;> simp [hmentions]
      split
      · exact hproperty _
      · exact hproperty _
      all_goals
        split
        · exact (covers_identExpr x).mpr h
        · exact (covers_ofName holder).mpr hmentions

/-- What is read as an identifier is that identifier or the variable that holds a module. -/
theorem calls_read {x y : Ident} (hx : V.calls x) (h : s.read x = .ident y) : V.calls y := by
  unfold read importedProperty at h
  repeat' split at h
  all_goals cases h
  all_goals first
    | exact hx
    | exact (hs.holders _ _ ‹_›).2

theorem covers_readShorthand {x : Ident} (h : V.mentions x.name) :
    V.Covers (s.readShorthand x).visits := by
  have hread := hs.covers_read h
  unfold readShorthand
  split
  · next y hy =>
    rw [hy] at hread
    split
    · simp [Property.visits, h]
    · simpa [Property.ofName, Property.visits, Key.visits] using hread
  · simpa [Property.ofName, Property.visits, Key.visits] using hread

theorem covers_restCall {value : Expr} {keys : List Expr} (hrest : V.calls (.synthetic restName))
    (h : V.Covers value.visits) (hkeys : V.Covers (exprsVisits keys)) :
    V.Covers (restCall value keys).visits := by
  rw [restCall, covers_applyName]
  exact ⟨hrest, hs.rest, by simp [exprsVisits, h, hkeys]⟩

theorem covers_headExports {target : Pattern}
    (h : ∀ x ∈ target.boundIdents, V.mentions x.name) :
    V.Covers (stmtsVisits (headExports s target)) := by
  refine covers_stmtsVisits fun st hst => ?_
  obtain ⟨x, hx, hst⟩ := List.mem_flatMap.mp hst
  obtain ⟨name, -, rfl⟩ := List.mem_map.mp hst
  rw [covers_exprStmt]
  exact hs.covers_publish name ((covers_ofName x.name).mpr (h x hx))

end Setting.SpokenIn

namespace Vocabulary
variable {V : Vocabulary}

theorem covers_orFallback {value fallback : Expr} (h : V.Covers value.visits)
    (hfallback : V.Covers fallback.visits) : V.Covers (orFallback value fallback).visits := by
  simp [orFallback, Expr.voidZero, h, hfallback]

theorem covers_propertyKey {key : Expr} (h : V.Covers key.visits) :
    V.Covers (propertyKey key).visits := by
  simp [propertyKey, h]

theorem covers_restSlice {value : Expr} (index : Nat) (h : V.Covers value.visits) :
    V.Covers (restSlice value index).visits := by
  rw [restSlice, covers_applyDot]
  exact ⟨h, by simp [exprsVisits]⟩

end Vocabulary

/-! ## Progress -/

/-- The functions are the same, and each declares at least the variables that it did. -/
def Hoisting.Widens (h h' : Hoisting) : Prop :=
  List.Forall₂ (fun f f' : Frame => f.vars ⊆ f'.vars) h.frames h'.frames

namespace Hoisting.Widens
variable {h h' h'' : Hoisting}

theorem refl (h : Hoisting) : h.Widens h := List.forall₂_same.mpr fun _ _ => List.Subset.refl _

theorem trans (hfirst : h.Widens h') (hrest : h'.Widens h'') : h.Widens h'' := by
  unfold Widens at *
  generalize h.frames = l at *
  generalize h'.frames = l' at *
  generalize h''.frames = l'' at *
  induction hfirst generalizing l'' with
  | nil => exact hrest
  | cons hhead _ ih =>
    cases hrest with
    | cons hhead' htail' => exact .cons (List.Subset.trans hhead hhead') (ih _ htail')

theorem modifyTop (h : Hoisting) {change : Frame → Frame}
    (hchange : ∀ frame, frame.vars ⊆ (change frame).vars) : h.Widens (h.modifyTop change) := by
  unfold Hoisting.modifyTop
  split
  · exact refl h
  · next frame frames hf =>
    unfold Widens
    rw [hf]
    exact .cons (hchange frame) (List.forall₂_same.mpr fun _ _ => List.Subset.refl _)

theorem addVariable (h : Hoisting) (name : String) : h.Widens (h.addVariable name) := by
  refine modifyTop h fun frame => ?_
  split
  · exact List.Subset.refl _
  · exact List.subset_append_left _ _

theorem addVariables (h : Hoisting) (names : List String) : h.Widens (h.addVariables names) := by
  unfold Hoisting.addVariables
  induction names generalizing h with
  | nil => exact refl h
  | cons name names ih => exact (addVariable h name).trans (ih _)

/-- A function that ends leaves those around it wider. -/
theorem of_push (hwidens : h.push.Widens h') : h.Widens h'.pop.2 := by
  unfold Widens push at hwidens
  unfold Widens pop
  cases hf : h'.frames with
  | nil =>
    rw [hf] at hwidens
    cases hwidens
  | cons frame frames =>
    rw [hf] at hwidens
    cases hwidens with
    | cons _ htail => exact htail

theorem ne_nil (hwidens : h.Widens h') (hne : h.frames ≠ []) : h'.frames ≠ [] := by
  intro hnil
  have hlength := hwidens.length_eq
  rw [hnil] at hlength
  exact hne (List.eq_nil_of_length_eq_zero hlength)

/-- What the innermost function declared, it still declares. -/
theorem pop (hwidens : h.Widens h') : h.pop.1.vars ⊆ h'.pop.1.vars := by
  unfold Widens at hwidens
  unfold Hoisting.pop
  generalize h.frames = l at *
  generalize h'.frames = l' at *
  cases hwidens with
  | nil => exact List.Subset.refl _
  | cons hhead _ => exact hhead

end Hoisting.Widens

namespace Progress

/-- A later progress of the same run: names may have been given out and declared since. -/
structure Leads (p p' : Progress) : Prop where
  gives : ∃ names, p.hoisting.supply.Gives names p'.hoisting.supply
  widens : p.hoisting.Widens p'.hoisting
  rest : p.needsRest = true → p'.needsRest = true
  exports : p.functionExports <+: p'.functionExports

/-- A vocabulary knows every name in use, and the helper for object rests if there is one. -/
def KnownTo (V : Vocabulary) (p : Progress) : Prop :=
  (∀ name, p.hoisting.supply.isUsed name = true → V.mentions name) ∧
    (p.needsRest = true → V.calls (.synthetic restName))

/-- What is set aside for the top of a function keeps to a vocabulary. -/
def FrameKept (V : Vocabulary) (frame : Frame) : Prop :=
  (∀ name ∈ frame.vars, V.binds (.synthetic name) ∧ V.mentions name) ∧
    ∀ st ∈ frame.functions, V.Covers st.visits

/-- All that is set aside keeps to a vocabulary. -/
def Kept (V : Vocabulary) (p : Progress) : Prop :=
  (∀ frame ∈ p.hoisting.frames, FrameKept V frame) ∧
    ∀ st ∈ p.functionExports, V.Covers st.visits

variable {V : Vocabulary} {p p' p'' : Progress}

theorem Leads.refl (p : Progress) : p.Leads p :=
  ⟨⟨[], .nothing _⟩, .refl _, id, List.prefix_rfl⟩

theorem Leads.trans (h : p.Leads p') (h' : p'.Leads p'') : p.Leads p'' := by
  obtain ⟨⟨names, hnames⟩, hwidens, hrest, hexports⟩ := h
  obtain ⟨⟨names', hnames'⟩, hwidens', hrest', hexports'⟩ := h'
  exact ⟨⟨_, hnames.append hnames'⟩, hwidens.trans hwidens', hrest' ∘ hrest,
    hexports.trans hexports'⟩

/-- What is in use stays in use, so that a vocabulary of the end is one of every step before. -/
theorem Leads.knownTo (h : p.Leads p') (hknown : p'.KnownTo V) : p.KnownTo V := by
  obtain ⟨names, hnames⟩ := h.gives
  exact ⟨fun name hname => hknown.1 name ((hnames.isUsed_iff name).mpr (.inr hname)),
    hknown.2 ∘ h.rest⟩

theorem frameKept_statements {frame : Frame} (h : FrameKept V frame) :
    V.Covers (stmtsVisits frame.statements) := by
  refine covers_stmtsVisits fun st hst => ?_
  rcases List.mem_append.mp hst with hvars | hfunction
  · unfold Frame.variableStmt? at hvars
    split at hvars
    · cases hvars
    · obtain rfl := List.mem_singleton.mp hvars
      exact covers_varNames h.1
  · exact h.2 st hfunction

end Progress

namespace Hoisting

/-- A change of the innermost collection that keeps to a vocabulary. -/
theorem forall_modifyTop {K : Frame → Prop} {h : Hoisting} {change : Frame → Frame}
    (hframes : ∀ frame ∈ h.frames, K frame) (hchange : ∀ frame, K frame → K (change frame)) :
    ∀ frame ∈ (h.modifyTop change).frames, K frame := by
  unfold modifyTop
  split
  · exact hframes
  · next frame frames hf =>
    rw [hf] at hframes
    obtain ⟨hframe, hrest⟩ := List.forall_mem_cons.mp hframes
    exact List.forall_mem_cons.mpr ⟨hchange frame hframe, hrest⟩

theorem supply_modifyTop (h : Hoisting) (change : Frame → Frame) :
    (h.modifyTop change).supply = h.supply := by
  unfold modifyTop
  split <;> rfl

theorem supply_pop (h : Hoisting) : h.pop.2.supply = h.supply := by
  unfold pop
  split <;> rfl

theorem supply_addVariable (h : Hoisting) (name : String) :
    (h.addVariable name).supply = h.supply := h.supply_modifyTop _

theorem supply_addVariables (h : Hoisting) (names : List String) :
    (h.addVariables names).supply = h.supply := by
  unfold addVariables
  induction names generalizing h with
  | nil => rfl
  | cons name names ih => exact (ih _).trans (h.supply_addVariable name)

variable {V : Vocabulary} {h : Hoisting}

theorem frameKept_addVariable {name : String} (hname : V.binds (.synthetic name) ∧ V.mentions name)
    (hframes : ∀ frame ∈ h.frames, Progress.FrameKept V frame) :
    ∀ frame ∈ (h.addVariable name).frames, Progress.FrameKept V frame := by
  refine forall_modifyTop hframes fun frame hframe => ?_
  split
  · exact hframe
  · refine ⟨fun n hn => ?_, hframe.2⟩
    rcases List.mem_append.mp hn with hold | hnew
    · exact hframe.1 n hold
    · obtain rfl := List.mem_singleton.mp hnew
      exact hname

theorem frameKept_addVariables {names : List String}
    (hnames : ∀ name ∈ names, V.binds (.synthetic name) ∧ V.mentions name)
    (hframes : ∀ frame ∈ h.frames, Progress.FrameKept V frame) :
    ∀ frame ∈ (h.addVariables names).frames, Progress.FrameKept V frame := by
  unfold addVariables
  induction names generalizing h with
  | nil => exact hframes
  | cons name names ih =>
    obtain ⟨hname, hnames⟩ := List.forall_mem_cons.mp hnames
    exact ih hnames (frameKept_addVariable hname hframes)

end Hoisting

/-! ## Accounts -/

namespace Lowering

/-- A step draws on the supply and widens the collections only, and what it gives and sets aside
keeps to every vocabulary that knows the names in use at its end, provided that `P`. -/
structure Accounts (V : Vocabulary) (P : Prop) {α : Type} (x : Lowering α) (Q : α → Prop) :
    Prop where
  ok : ∀ ⦃p a p'⦄, x.run p = .ok (a, p') →
    p.Leads p' ∧ (p'.KnownTo V → P → p.Kept V → p'.Kept V ∧ Q a)
  /-- It fails only where the tree is too deep. -/
  error : ∀ ⦃p e⦄, x.run p = .error e → ∃ file, e = .tooDeep file

namespace Accounts
variable {V : Vocabulary} {P : Prop} {α β : Type} {x : Lowering α} {f : α → Lowering β}
  {Q : α → Prop} {Q' : β → Prop}

/-- A step that changes the progress and does not fail. -/
theorem of_state {g : Progress → α × Progress} (hx : ∀ p, x.run p = .ok (g p))
    (hg : ∀ p, p.Leads (g p).2 ∧
      ((g p).2.KnownTo V → P → p.Kept V → (g p).2.Kept V ∧ Q (g p).1)) : Accounts V P x Q where
  ok p a p' hr := by
    have hp := hg p
    rwa [Except.ok.inj ((hx p).symm.trans hr)] at hp
  error p e hr := by
    rw [hx] at hr
    cases hr

theorem pure {a : α} (h : P → Q a) : Accounts V P (pure a : Lowering α) Q :=
  .of_state (fun _ => rfl) fun p => ⟨.refl p, fun _ hP hkept => ⟨hkept, h hP⟩⟩

/-- What the first step gives may be relied on where the account of the second is drawn up. -/
theorem bind (hx : Accounts V P x Q) (hf : ∀ a, Accounts V (P ∧ Q a) (f a) Q') :
    Accounts V P (x >>= f) Q' where
  ok p b p' hr := by
    obtain ⟨a, q, h₁, h₂⟩ := run_bind_eq_ok hr
    obtain ⟨hleads, hfirst⟩ := hx.ok h₁
    obtain ⟨hleads', hrest⟩ := (hf a).ok h₂
    refine ⟨hleads.trans hleads', fun hknown hP hkept => ?_⟩
    obtain ⟨hkept', hQ⟩ := hfirst (hleads'.knownTo hknown) hP hkept
    exact hrest hknown ⟨hP, hQ⟩ hkept'
  error p e hr := by
    rw [StateT.run_bind] at hr
    cases hxr : x.run p with
    | error e' =>
      rw [hxr] at hr
      cases hr
      exact hx.error hxr
    | ok r =>
      rw [hxr] at hr
      exact (hf r.1).error hr

theorem mono {S : α → Prop} (h : Accounts V P x Q) (hQ : ∀ a, P → Q a → S a) :
    Accounts V P x S where
  ok p a p' hr := by
    obtain ⟨hleads, hrun⟩ := h.ok hr
    refine ⟨hleads, fun hknown hP hkept => ?_⟩
    obtain ⟨hkept', ha⟩ := hrun hknown hP hkept
    exact ⟨hkept', hQ a hP ha⟩
  error := h.error

/-- What was relied on may be asked for in another form. -/
theorem weaken {P' : Prop} (h : Accounts V P x Q) (hP : P' → P) : Accounts V P' x Q where
  ok p a p' hr := by
    obtain ⟨hleads, hrun⟩ := h.ok hr
    exact ⟨hleads, fun hknown hP' => hrun hknown (hP hP')⟩
  error := h.error

theorem tooDeep (file : String) : Accounts V P (throw (.tooDeep file) : Lowering α) Q where
  ok p a p' hr := by cases hr
  error p e hr := by
    cases hr
    exact ⟨file, rfl⟩

theorem ite {c : Prop} [Decidable c] {y : Lowering α} (hx : c → Accounts V P x Q)
    (hy : ¬c → Accounts V P y Q) : Accounts V P (if c then x else y) Q := by
  by_cases h : c
  · rw [if_pos h]
    exact hx h
  · rw [if_neg h]
    exact hy h

/-- The depth is no part of what an account is about. -/
theorem deeper (s : Setting) (h : Accounts V P x Q) : Accounts V P (deeper s x) Q := by
  have hread : Accounts V P (get : Lowering Progress) fun _ => True :=
    .of_state (fun _ => rfl) fun p => ⟨.refl p, fun _ _ hkept => ⟨hkept, trivial⟩⟩
  have hset : ∀ (P : Prop) (depth : Nat → Nat),
      Accounts V P (modify fun p => { p with depth := depth p.depth }) fun _ => True := by
    intro P depth
    refine .of_state (fun _ => rfl) fun p => ⟨?_, fun _ _ hkept => ⟨hkept, trivial⟩⟩
    exact ⟨⟨[], .nothing _⟩, .refl _, id, List.prefix_rfl⟩
  unfold Lowering.deeper
  refine hread.bind fun p => .ite (fun _ => ?_) fun _ => .tooDeep _
  refine (hset _ (· + 1)).bind fun _ => ?_
  refine (h.weaken fun hP => hP.1.1).bind fun a => ?_
  exact (hset _ (· - 1)).bind fun _ => .pure fun hP => hP.1.2

/-- A fact about all results of a step, whatever the vocabulary, may be relied on too. -/
theorem also {S : α → Prop} (h : Accounts V P x Q) (hS : Yields Any x S) :
    Accounts V P x fun a => Q a ∧ S a where
  ok p a p' hr := by
    obtain ⟨hleads, hrun⟩ := h.ok hr
    refine ⟨hleads, fun hknown hP hkept => ?_⟩
    obtain ⟨hkept', ha⟩ := hrun hknown hP hkept
    exact ⟨hkept', ha, (hS hr).2⟩
  error := h.error

end Accounts

/-! ## Steps -/

section steps
variable {V : Vocabulary} {P : Prop} {s : Setting}

theorem accounts_guardPatternDepth (depth : Nat) :
    Accounts V P (guardPatternDepth s depth) fun _ => True := by
  unfold guardPatternDepth
  exact .ite (fun _ => .pure fun _ => trivial) fun _ => .tooDeep _

theorem accounts_requireRest :
    Accounts V P requireRest fun _ => V.calls (.synthetic restName) :=
  .of_state (fun _ => rfl) fun _ =>
    ⟨⟨⟨[], .nothing _⟩, .refl _, fun _ => rfl, List.prefix_rfl⟩, fun hknown _ hkept =>
      ⟨hkept, hknown.2 rfl⟩⟩

theorem accounts_unique (hs : s.SpokenIn V) (base : String) :
    Accounts V P (hoistGet (·.unique base)) fun name =>
      V.binds (.synthetic name) ∧ V.mentions name := by
  refine .of_state (fun _ => rfl) fun p => ?_
  refine ⟨⟨⟨_, .unique base (.nothing _)⟩, .refl _, id, List.prefix_rfl⟩, fun hknown _ hkept =>
    ⟨hkept, ?_, ?_⟩⟩
  · exact hs.madeUp _ (p.hoisting.supply.isMadeUp_unique base)
  · exact hknown.1 _ (p.hoisting.supply.isUsed_unique base)

theorem accounts_declareTemporary (hs : s.SpokenIn V) :
    Accounts V P (hoistGet (·.declareTemporary)) fun name =>
      V.binds (.synthetic name) ∧ V.mentions name := by
  refine .of_state (fun _ => rfl) fun p => ?_
  have hsupply : p.hoisting.declareTemporary.2.supply = p.hoisting.supply.temporary.2 :=
    Hoisting.supply_addVariable _ _
  have hwidens : p.hoisting.Widens p.hoisting.declareTemporary.2 :=
    Hoisting.Widens.addVariable p.hoisting.temporary.2 _
  refine ⟨⟨⟨[p.hoisting.supply.temporary.1], ?_⟩, hwidens, id, List.prefix_rfl⟩,
    fun hknown _ hkept => ?_⟩
  · change p.hoisting.supply.Gives _ p.hoisting.declareTemporary.2.supply
    rw [hsupply]
    exact .temporary (.nothing _)
  · have hused := p.hoisting.supply.isUsed_temporary
    rw [← hsupply] at hused
    have hname : V.binds (.synthetic p.hoisting.declareTemporary.1) ∧
        V.mentions p.hoisting.declareTemporary.1 :=
      ⟨hs.madeUp _ p.hoisting.supply.isMadeUp_temporary, hknown.1 _ hused⟩
    exact ⟨⟨Hoisting.frameKept_addVariable hname hkept.1, hkept.2⟩, hname⟩

theorem accounts_addVariables {names : List String}
    (h : P → ∀ name ∈ names, V.binds (.synthetic name) ∧ V.mentions name) :
    Accounts V P (hoist (·.addVariables names)) fun _ => True := by
  refine .of_state (fun _ => rfl) fun p => ?_
  refine ⟨⟨⟨[], ?_⟩, .addVariables _ names, id, List.prefix_rfl⟩, fun _ hP hkept =>
    ⟨⟨Hoisting.frameKept_addVariables (h hP) hkept.1, hkept.2⟩, trivial⟩⟩
  rw [show (p.hoisting.addVariables names).supply = _ from p.hoisting.supply_addVariables names]
  exact .nothing _

theorem accounts_addVariable {name : String}
    (h : P → V.binds (.synthetic name) ∧ V.mentions name) :
    Accounts V P (hoist (·.addVariable name)) fun _ => True := by
  have hnames : P → ∀ n ∈ [name], V.binds (.synthetic n) ∧ V.mentions n := fun hP _ hn =>
    List.mem_singleton.mp hn ▸ h hP
  exact accounts_addVariables hnames

theorem accounts_addFunction {st : Stmt} (h : P → V.Covers st.visits) :
    Accounts V P (hoist (·.addFunction st)) fun _ => True := by
  refine .of_state (fun _ => rfl) fun p => ?_
  have hwidens : p.hoisting.Widens (p.hoisting.addFunction st) :=
    .modifyTop _ fun _ => List.Subset.refl _
  refine ⟨⟨⟨[], ?_⟩, hwidens, id, List.prefix_rfl⟩, fun _ hP hkept =>
    ⟨⟨?_, hkept.2⟩, trivial⟩⟩
  · rw [show (p.hoisting.addFunction st).supply = _ from p.hoisting.supply_modifyTop _]
    exact .nothing _
  · refine Hoisting.forall_modifyTop hkept.1 fun frame hframe => ⟨hframe.1, fun st' hst' => ?_⟩
    rcases List.mem_append.mp hst' with hold | hnew
    · exact hframe.2 st' hold
    · exact List.mem_singleton.mp hnew ▸ h hP

theorem accounts_addExportedName (name : String) :
    Accounts V P (addExportedName name) fun _ => True := by
  refine .of_state (fun _ => rfl) fun p => ?_
  dsimp only
  split <;> exact ⟨⟨⟨[], .nothing _⟩, .refl _, id, List.prefix_rfl⟩, fun _ _ hkept =>
    ⟨hkept, trivial⟩⟩

theorem accounts_addExportedNames : ∀ names : List String,
    ∀ {P : Prop}, Accounts V P (addExportedNames names) fun _ => True
  | [], _ => .pure fun _ => trivial
  | name :: names, _ =>
    (accounts_addExportedName name).bind fun _ => accounts_addExportedNames names

theorem accounts_addFunctionExport {call : Expr} (h : P → V.Covers call.visits) :
    Accounts V P (addFunctionExport call) fun _ => True := by
  refine .of_state (fun _ => rfl) fun _ => ?_
  refine ⟨⟨⟨[], .nothing _⟩, .refl _, id, List.prefix_append _ _⟩, fun _ hP hkept =>
    ⟨⟨hkept.1, fun st hst => ?_⟩, trivial⟩⟩
  rcases List.mem_append.mp hst with hold | hnew
  · exact hkept.2 st hold
  · exact List.mem_singleton.mp hnew ▸ (covers_exprStmt call).mpr (h hP)

/-- A function's parts keep to the vocabulary, and so do the declarations for its top. -/
theorem accounts_inFunction {α : Type} {x : Lowering α} {Q : α → Prop} (h : Accounts V P x Q) :
    Accounts V P (inFunction x) fun r => Q r.1 ∧ V.Covers (stmtsVisits r.2) where
  ok p r p' hr := by
    obtain ⟨_, q, hpush, hr⟩ := run_bind_eq_ok hr
    cases hpush
    obtain ⟨a, q', hx, hr⟩ := run_bind_eq_ok hr
    obtain ⟨frame, q'', hpop, hr⟩ := run_bind_eq_ok hr
    cases hpop
    cases hr
    obtain ⟨hleads, hrun⟩ := h.ok hx
    have hsupply : q'.hoisting.pop.2.supply = q'.hoisting.supply := q'.hoisting.supply_pop
    have hleads' : p.Leads { q' with hoisting := q'.hoisting.pop.2 } := by
      refine ⟨?_, hleads.widens.of_push, hleads.rest, hleads.exports⟩
      change ∃ names, p.hoisting.supply.Gives names q'.hoisting.pop.2.supply
      rw [hsupply]
      exact hleads.gives
    refine ⟨hleads', fun hknown hP hkept => ?_⟩
    have hknown' : q'.KnownTo V := by
      refine ⟨fun name hname => hknown.1 name ?_, hknown.2⟩
      rw [← hsupply] at hname
      exact hname
    have hempty : Progress.FrameKept V {} := ⟨nofun, nofun⟩
    obtain ⟨⟨hframes, hexports⟩, hQ⟩ :=
      hrun hknown' hP ⟨List.forall_mem_cons.mpr ⟨hempty, hkept.1⟩, hkept.2⟩
    have hpopped : Progress.FrameKept V q'.hoisting.pop.1 ∧
        ∀ frame ∈ q'.hoisting.pop.2.frames, Progress.FrameKept V frame := by
      unfold Hoisting.pop
      split
      · exact ⟨hempty, hframes⟩
      · next frame frames hf =>
        rw [hf] at hframes
        exact List.forall_mem_cons.mp hframes
    exact ⟨⟨hpopped.2, hexports⟩, hQ, Progress.frameKept_statements hpopped.1⟩
  error p e hr := by
    have hrun : (inFunction x).run p =
        x.run { p with hoisting := p.hoisting.push } >>= fun r =>
          .ok ((r.1, r.2.hoisting.pop.1.statements),
            { r.2 with hoisting := r.2.hoisting.pop.2 }) := rfl
    rw [hrun] at hr
    cases hx : x.run { p with hoisting := p.hoisting.push } with
    | error e' =>
      rw [hx] at hr
      cases hr
      exact h.error hx
    | ok r =>
      rw [hx] at hr
      cases hr

theorem accounts_stabilize (hs : s.SpokenIn V) (bound : List String) {value : Expr}
    (h : P → V.Covers value.visits) :
    Accounts V P (stabilize bound value) fun r =>
      V.Covers (exprsVisits r.1) ∧ V.Covers r.2.visits := by
  unfold stabilize
  refine .ite (fun _ => .pure fun hP => ⟨covers_nil, h hP⟩) fun _ => ?_
  refine (accounts_declareTemporary hs).bind fun name => .pure fun ⟨hP, hname⟩ => ⟨?_, ?_⟩
  · simpa [exprsVisits] using ⟨hname, h hP⟩
  · exact (covers_ofName name).mpr hname.2

theorem accounts_stabilizeUnlessOne (hs : s.SpokenIn V) (count : Nat) (bound : List String)
    {value : Expr} (h : P → V.Covers value.visits) :
    Accounts V P (stabilizeUnlessOne count bound value) fun r =>
      V.Covers (exprsVisits r.1) ∧ V.Covers r.2.visits := by
  unfold stabilizeUnlessOne
  exact .ite (fun _ => .pure fun hP => ⟨covers_nil, h hP⟩) fun _ => accounts_stabilize hs bound h

/-! ## Declarations of the module -/

theorem accounts_exportCall (hs : s.SpokenIn V) (modifiers : Modifiers) {name : String}
    (h : P → V.mentions name) :
    Accounts V P (exportCall s modifiers name) fun call => V.Covers call.visits := by
  have hcall : P → V.Covers
      (s.publish (Interface.exportNameOf modifiers name) (.ofName name)).visits := fun hP =>
    hs.covers_publish _ ((covers_ofName name).mpr (h hP))
  unfold exportCall
  refine .ite (fun _ => ?_) fun _ => .pure hcall
  exact (accounts_addExportedName name).bind fun _ => .pure fun ⟨hP, _⟩ => hcall hP

theorem accounts_hoistFunction (hs : s.SpokenIn V) (modifiers : Modifiers) {f : Func}
    (hf : P → V.Covers f.visits) :
    Accounts V P (hoistFunction s modifiers f) fun _ => True := by
  obtain ⟨name, params, body, isAsync, isGenerator⟩ := f
  simp only [covers_func] at hf
  unfold hoistFunction
  have hrest : ∀ (x : Ident) {P' : Prop}, (P' → (V.binds x ∧ V.mentions x.name) ∧
        V.Covers (paramsVisits params) ∧ V.Covers (stmtsVisits body)) →
      Accounts V P' (do
        if modifiers.isExported then addFunctionExport (← exportCall s modifiers x.name)
        hoist (·.addFunction (.function {} ⟨some x, params, body, isAsync, isGenerator⟩)))
        fun _ => True := by
    intro x P' hx
    have hfunction : P' → V.Covers
        (Stmt.function {} ⟨some x, params, body, isAsync, isGenerator⟩).visits := by
      intro hP
      rw [covers_functionStmt, covers_func]
      exact ⟨fun y hy => Option.some.inj hy ▸ (hx hP).1, (hx hP).2⟩
    refine .ite (fun _ => ?_) fun _ => accounts_addFunction hfunction
    refine (accounts_exportCall hs modifiers fun hP => (hx hP).1.2).bind fun call => ?_
    refine (accounts_addFunctionExport fun hP => hP.2).bind fun _ => ?_
    exact accounts_addFunction fun hP => hfunction hP.1.1
  cases name with
  | some x => exact hrest x fun hP => ⟨(hf hP).1 x rfl, (hf hP).2⟩
  | none =>
    have hname : Accounts V P (Ident.synthetic <$> hoistGet (·.unique "default")) fun x =>
        V.binds x ∧ V.mentions x.name := by
      rw [← bind_pure_comp]
      exact (accounts_unique hs "default").bind fun name => .pure fun hP => hP.2
    exact hname.bind fun x => hrest x fun hP => ⟨hP.2, (hf hP.1).2⟩

theorem accounts_hoistClassName (hs : s.SpokenIn V) {name : Option Ident}
    (h : P → ∀ x, name = some x → V.binds (.synthetic x.name) ∧ V.mentions x.name) :
    Accounts V P (hoistClassName name) fun name => V.binds (.synthetic name) ∧ V.mentions name := by
  have hadd : ∀ (name : String) {P' : Prop}, (P' → V.binds (.synthetic name) ∧ V.mentions name) →
      Accounts V P' (do
        hoist (·.addVariable name)
        return name) fun name => V.binds (.synthetic name) ∧ V.mentions name := fun name _ hname =>
    (accounts_addVariable hname).bind fun _ => .pure fun hP => hname hP.1
  unfold hoistClassName
  cases name with
  | some x => exact hadd x.name fun hP => h hP x rfl
  | none => exact (accounts_unique hs "default").bind fun name => hadd name fun hP => hP.2

theorem accounts_classAssignment (hs : s.SpokenIn V) (modifiers : Modifiers) {name : String}
    {c : Class} (hname : P → V.binds (.synthetic name) ∧ V.mentions name)
    (hc : P → V.Covers c.visits) :
    Accounts V P (classAssignment s modifiers name c) fun sts => V.Covers (stmtsVisits sts) := by
  have hassign : P → V.Covers (Expr.assignName name (.classExpr c)).visits := by
    intro hP
    rw [covers_assignName]
    exact ⟨hname hP, (covers_node rfl (by simp [Expr.called?])).mpr (hc hP)⟩
  unfold classAssignment
  refine .ite (fun _ => ?_) fun _ => .pure fun hP => ?_
  · refine (accounts_exportCall hs modifiers fun hP => (hname hP).2).bind fun call => ?_
    refine .pure ?_
    rintro ⟨hP, hcall⟩
    simp [stmtsVisits, hassign hP, hcall]
  · simp [stmtsVisits, hassign hP]

theorem accounts_exportSpecifier (hs : s.SpokenIn V) {spec : ExportSpecifier}
    (h : V.mentions spec.source.name) :
    Accounts V P (exportSpecifier s spec) fun sts => V.Covers (stmtsVisits sts) := by
  unfold exportSpecifier
  refine .ite (fun _ => .pure fun _ => covers_nil) fun _ => ?_
  refine (accounts_addExportedName _).bind fun _ => ?_
  refine .ite (fun _ => .pure fun _ => covers_nil) fun _ => .ite (fun _ => ?_) fun _ => ?_
  · have hcall := hs.covers_publish spec.exportedName ((covers_ofName spec.source.name).mpr h)
    exact (accounts_addFunctionExport fun _ => hcall).bind fun _ => .pure fun _ => covers_nil
  · have hcall := hs.covers_publish spec.exportedName ((covers_identExpr spec.source).mpr h)
    exact .pure fun _ => by simpa [stmtsVisits] using hcall

theorem accounts_exportSpecifiers (hs : s.SpokenIn V) : ∀ specs : List ExportSpecifier,
    (∀ spec ∈ specs, V.mentions spec.source.name) → ∀ {P : Prop},
      Accounts V P (exportSpecifiers s specs) fun sts => V.Covers (stmtsVisits sts)
  | [], _, _ => .pure fun _ => covers_nil
  | spec :: specs, h, _ => by
    obtain ⟨hspec, hspecs⟩ := List.forall_mem_cons.mp h
    refine (accounts_exportSpecifier hs hspec).bind fun sts => ?_
    refine (accounts_exportSpecifiers hs specs hspecs).bind fun more => .pure fun hP => ?_
    rw [NameTable.stmtsVisits_append, covers_append]
    exact ⟨hP.1.2, hP.2⟩

/-! ## Statements inside statements -/

theorem covers_loopBody {exports body : List Stmt} (hexports : V.Covers (stmtsVisits exports))
    (hbody : V.Covers (stmtsVisits body)) : V.Covers (loopBody exports body).visits := by
  unfold loopBody
  split
  · exact covers_stmtOfList hbody
  · rw [covers_block, NameTable.stmtsVisits_append, covers_append]
    exact ⟨hexports, hbody⟩

theorem accounts_blockBody {exports : List Stmt} {body : Lowering (List Stmt)}
    (hexports : P → V.Covers (stmtsVisits exports))
    (hbody : Accounts V P body fun sts => V.Covers (stmtsVisits sts)) :
    Accounts V P (blockBody s exports body) fun st => V.Covers st.visits := by
  unfold blockBody
  refine .ite (fun _ => .deeper s ?_) fun _ => ?_
  · exact hbody.bind fun body => .pure fun hP => (covers_block body).mpr hP.2
  · refine hbody.bind fun body => .pure fun hP => ?_
    rw [covers_block, NameTable.stmtsVisits_append, covers_append]
    exact ⟨hexports hP.1, hP.2⟩

theorem accounts_lowerLoopBody {place : Place} {exports : List Stmt} {body : Stmt}
    (hexports : P → V.Covers (stmtsVisits exports))
    (hblock : ∀ inner, body = .block inner →
      Accounts V P (lowerStmts s place inner) fun sts => V.Covers (stmtsVisits sts))
    (hbody : Accounts V P (body.lower s place) fun sts => V.Covers (stmtsVisits sts)) :
    Accounts V P (lowerLoopBody s place exports body) fun st => V.Covers st.visits := by
  cases body with
  | block inner => exact accounts_blockBody hexports (hblock inner rfl)
  | _ => exact hbody.bind fun _ => .pure fun hP => covers_loopBody (hexports hP.1) hP.2

theorem covers_withDeclarations {body : ArrowBody} {declarations : List Stmt}
    (hbody : V.Covers body.visits) (hdeclarations : V.Covers (stmtsVisits declarations)) :
    V.Covers (body.withDeclarations declarations).visits := by
  unfold ArrowBody.withDeclarations
  split
  · exact hbody
  · change V.Covers (stmtsVisits _)
    rw [NameTable.stmtsVisits_append, covers_append]
    exact ⟨hdeclarations, hbody⟩
  · change V.Covers (stmtsVisits _)
    rw [NameTable.stmtsVisits_append, covers_append]
    exact ⟨hdeclarations, (covers_append _ _).mpr ⟨(covers_ret _).mpr hbody, covers_nil⟩⟩

end steps
end Lowering
end RegisterForm
