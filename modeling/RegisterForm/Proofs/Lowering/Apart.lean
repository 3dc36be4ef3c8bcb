import RegisterForm.Proofs.Fresh.Lowered
import RegisterForm.Proofs.Fresh.Module
import RegisterForm.Proofs.Lowering.Frames
import RegisterForm.Proofs.Lowering.Resembles
import RegisterForm.Proofs.Temporary.Step
/-!
# Temporaries that are left alone

While a tree is taken apart, temporaries are drawn and expressions are lowered in turn. A lowered
expression mentions the temporaries that were drawn for it and no others: those drawn before are
passed and not tried again, and those drawn later were not in use when it was done.
-/
namespace RegisterForm
open Lowering Vocabulary

/-! ## Supplies -/

namespace NameSupply
variable {supply supply' : NameSupply}

/-- The supply as if one name had never been used. -/
def forget (t : String) (supply : NameSupply) : NameSupply :=
  { supply with used := supply.used.erase t }

theorem isUsed_forget (supply : NameSupply) (t name : String) :
    (supply.forget t).isUsed name = (t != name && supply.isUsed name) := by
  simp only [forget, isUsed, Std.TreeSet.contains_erase]
  congr 1
  rw [Bool.eq_iff_iff]
  simp

theorem resembles_forget {t : String} (h : supply.Passed t) :
    supply.Resembles (· = t) (supply.forget t) where
  temporaries := rfl
  isUsed name hname := by simp [isUsed_forget, bne, Ne.symm hname]
  passed name hname := ⟨hname ▸ h, by simp [isUsed_forget, hname]⟩

theorem resembles_refl (supply : NameSupply) : supply.Resembles (fun _ => False) supply :=
  ⟨rfl, fun _ _ => rfl, nofun⟩

theorem Gives.temporaries_le {names : List String} (h : Gives supply names supply') :
    supply.temporaries ≤ supply'.temporaries := by
  induction h with
  | nothing => exact Nat.le_refl _
  | unique base _ ih => exact ih
  | @temporary supply _ _ _ ih =>
    refine Nat.le_trans (Nat.le_trans ?_ (Nat.le_succ _)) ih
    exact supply.le_freeTemporary supply.used.size supply.temporaries

/-- The supply goes on and gives out temporaries, each of them new. -/
structure Draws (supply : NameSupply) (ts : List String) (supply' : NameSupply) : Prop where
  nodup : ts.Nodup
  unused : ∀ t ∈ ts, supply.isUsed t = false
  used : ∀ t ∈ ts, supply'.isUsed t = true
  passed : ∀ t ∈ ts, supply'.Passed t
  keeps : ∀ name, supply.isUsed name = true → supply'.isUsed name = true
  le : supply.temporaries ≤ supply'.temporaries

theorem Passed.mono {name : String} (h : supply.Passed name)
    (hle : supply.temporaries ≤ supply'.temporaries) : supply'.Passed name :=
  h.imp fun _ hn => ⟨Nat.lt_of_lt_of_le hn.1 hle, hn.2⟩

theorem Gives.draws {names : List String} (h : Gives supply names supply') :
    supply.Draws [] supply' where
  nodup := List.nodup_nil
  unused := nofun
  used := nofun
  passed := nofun
  keeps name hname := (h.isUsed_iff name).mpr (.inr hname)
  le := h.temporaries_le

theorem draws_temporary (supply : NameSupply) :
    supply.Draws [supply.temporary.1] supply.temporary.2 := by
  have hgives : Gives supply [supply.temporary.1] supply.temporary.2 := .temporary (.nothing _)
  refine ⟨List.nodup_singleton _, ?_, ?_, ?_, hgives.draws.keeps, hgives.draws.le⟩
  · exact List.forall_mem_singleton.mpr supply.isUsed_temporary_before
  · exact List.forall_mem_singleton.mpr supply.isUsed_temporary
  · exact List.forall_mem_singleton.mpr ⟨_, Nat.lt_succ_self _, rfl⟩

namespace Draws
variable {supply'' : NameSupply} {ts ts' : List String}

theorem unused_of_unused (h : supply.Draws ts supply') {name : String}
    (hname : supply'.isUsed name = false) : supply.isUsed name = false := by
  by_contra hused
  rw [h.keeps name (by simpa using hused)] at hname
  cases hname

/-- What is given out later was not in use before. -/
theorem append (h : supply.Draws ts supply') (h' : supply'.Draws ts' supply'') :
    supply.Draws (ts ++ ts') supply'' where
  nodup := h.nodup.append h'.nodup fun t ht ht' => by
    have hused := h.used t ht
    rw [h'.unused t ht'] at hused
    cases hused
  unused := List.forall_mem_append.mpr
    ⟨h.unused, fun t ht => h.unused_of_unused (h'.unused t ht)⟩
  used := List.forall_mem_append.mpr ⟨fun t ht => h'.keeps t (h.used t ht), h'.used⟩
  passed := List.forall_mem_append.mpr ⟨fun t ht => (h.passed t ht).mono h'.le, h'.passed⟩
  keeps name hname := h'.keeps name (h.keeps name hname)
  le := Nat.le_trans h.le h'.le

end Draws
end NameSupply

/-! ## One lowered expression -/

theorem Vocabulary.covers_sparing_mono {T T' : String → Prop} (h : ∀ name, T name → T' name)
    {vs : List Visit} (hvs : (sparing T').Covers vs) : (sparing T).Covers vs := fun v hv =>
  ⟨fun x hx hT => (hvs v hv).mentions x hx (h _ hT), fun _ _ => trivial, fun _ _ => trivial⟩

theorem Setting.SpokenIn.sparing_mono {s : Setting} {T T' : String → Prop}
    (h : ∀ name, T name → T' name) (hs : s.SpokenIn (sparing T')) : s.SpokenIn (sparing T) where
  exporter hT := hs.exporter (h _ hT)
  publishes := trivial
  context hT := hs.context (h _ hT)
  holders declaration holder hlookup :=
    ⟨fun hT => (hs.holders declaration holder hlookup).1 (h _ hT), trivial⟩
  rest hT := hs.rest (h _ hT)
  madeUp _ _ := trivial

namespace Progress

/-- The progress with another supply, with nothing collected and nothing noted. -/
def withSupply (supply : NameSupply) (p : Progress) : Progress :=
  { p with hoisting := { supply }, functionExports := [] }

theorem resembles_withSupply {passed : String → Prop} {p : Progress} {supply : NameSupply}
    (h : p.hoisting.supply.Resembles passed supply) :
    p.Resembles passed 0 (p.withSupply supply) :=
  ⟨rfl, h, rfl, Nat.zero_le _, Nat.zero_le _⟩

end Progress

variable {s : Setting} {free : String → Prop}

/-- A temporary that was passed before, or that is not in use in the end, is not mentioned. -/
theorem Expr.lower_spares (hs : s.SpokenIn (sparing free)) {e e' : Expr} {isUsed : Bool}
    (he : (sparing free).Covers e.visits) {p p' : Progress}
    (hr : (e.lower s isUsed).run p = .ok (e', p')) {t : String} (ht : free t)
    (hapart : p.hoisting.supply.Passed t ∨ p'.hoisting.supply.isUsed t = false) :
    (sparing (· = t)).Covers e'.visits := by
  have hfree : ∀ name, name = t → free name := fun name hname => hname ▸ ht
  -- The expression is lowered alike from a supply that never uses the temporary.
  have halike : ∃ passed supply, p.hoisting.supply.Resembles passed supply ∧
      ∀ supply', p'.hoisting.supply.Resembles passed supply' → supply'.isUsed t = false := by
    rcases hapart with hpassed | hunused
    · exact ⟨_, _, NameSupply.resembles_forget hpassed, fun supply' h => (h.passed t rfl).2⟩
    · refine ⟨_, _, NameSupply.resembles_refl _, fun supply' h => ?_⟩
      rw [← h.isUsed t not_false, hunused]
  obtain ⟨passed, supply, hlike, hunused⟩ := halike
  obtain ⟨q', hr', hlike'⟩ :=
    (e.lower_composed isUsed).run_resembles (Progress.resembles_withSupply hlike) hr
  have hknown : q'.KnownTo (sparing (· = t)) := by
    refine ⟨fun name hname heq => ?_, fun _ => trivial⟩
    rw [heq, hunused _ hlike'.hoisting.supply] at hname
    cases hname
  have haccount := e.lower_covers (hs.sparing_mono hfree) (P := True) isUsed
    (covers_sparing_mono hfree he)
  exact ((haccount.ok hr').2 hknown trivial ⟨nofun, nofun⟩).2

/-! ## Steps in turn -/

namespace Progress

/-- Temporaries are drawn, and are declared in the innermost function. -/
structure Draws (p : Progress) (ts : List String) (p' : Progress) : Prop where
  supply : p.hoisting.supply.Draws ts p'.hoisting.supply
  declared : ∀ ⦃frame frames⦄, p.hoisting.frames = frame :: frames →
    ∃ frame', p'.hoisting.frames = frame' :: frames ∧ frame.ExtendsTo frame' ∧
      ∀ t ∈ ts, t ∈ frame'.vars

/-- Temporaries are drawn and trees are made in turn; each tree leaves alone every temporary that
was drawn here or before, or that is still to be drawn. -/
structure Makes (free : String → Prop) (p : Progress) (ts : List String) (vs : List Visit)
    (p' : Progress) : Prop where
  draws : p.Draws ts p'
  spares : ∀ t, free t →
    p.hoisting.supply.Passed t ∨ t ∈ ts ∨ p'.hoisting.supply.isUsed t = false →
      (sparing (· = t)).Covers vs

variable {p p' p'' : Progress} {ts ts' : List String} {vs vs' : List Visit}

theorem Draws.append (h : p.Draws ts p') (h' : p'.Draws ts' p'') : p.Draws (ts ++ ts') p'' where
  supply := h.supply.append h'.supply
  declared frame frames hframes := by
    obtain ⟨frame', hframes', hext, hts⟩ := h.declared hframes
    obtain ⟨frame'', hframes'', hext', hts'⟩ := h'.declared hframes'
    refine ⟨frame'', hframes'', hext.trans hext', List.forall_mem_append.mpr ⟨?_, hts'⟩⟩
    exact fun t ht => hext'.prefix_vars.subset (hts t ht)

namespace Makes

/-- Trees that are taken over from the source. -/
theorem source (p : Progress) (h : (sparing free).Covers vs) : p.Makes free [] vs p where
  draws := ⟨(NameSupply.Gives.nothing _).draws, fun frame _ hframes =>
    ⟨frame, hframes, .refl frame, nofun⟩⟩
  spares _ ht _ := covers_sparing_mono (fun _ hname => hname ▸ ht) h

theorem nothing (free : String → Prop) (p : Progress) : p.Makes free [] [] p := source p covers_nil

theorem mono (h : p.Makes free ts vs p')
    (hvs : ∀ t, (sparing (· = t)).Covers vs → (sparing (· = t)).Covers vs') :
    p.Makes free ts vs' p' :=
  ⟨h.draws, fun t ht hapart => hvs t (h.spares t ht hapart)⟩

theorem append (h : p.Makes free ts vs p') (h' : p'.Makes free ts' vs' p'') :
    p.Makes free (ts ++ ts') (vs ++ vs') p'' where
  draws := h.draws.append h'.draws
  spares t ht hapart := by
    have hbefore : p.hoisting.supply.Passed t ∨ t ∈ ts ∨ p'.hoisting.supply.isUsed t = false := by
      rcases hapart with hpassed | hts | hunused
      · exact .inl hpassed
      · rcases List.mem_append.mp hts with hts | hts
        · exact .inr (.inl hts)
        · exact .inr (.inr (h'.draws.supply.unused t hts))
      · exact .inr (.inr (h'.draws.supply.unused_of_unused hunused))
    have hafter : p'.hoisting.supply.Passed t ∨ t ∈ ts' ∨
        p''.hoisting.supply.isUsed t = false := by
      rcases hapart with hpassed | hts | hunused
      · exact .inl (hpassed.mono h.draws.supply.le)
      · rcases List.mem_append.mp hts with hts | hts
        · exact .inl (h.draws.supply.passed t hts)
        · exact .inr (.inl hts)
      · exact .inr (.inr hunused)
    exact (covers_append _ _).mpr ⟨h.spares t ht hbefore, h'.spares t ht hafter⟩

theorem lowered (hs : s.SpokenIn (sparing free)) {e e' : Expr} {isUsed : Bool}
    (he : (sparing free).Covers e.visits) (hr : (e.lower s isUsed).run p = .ok (e', p')) :
    p.Makes free [] e'.visits p' := by
  have hleads := ((e.lower_covers s.spokenIn_all (P := True) isUsed (covers_all _)).ok hr).1
  obtain ⟨names, hgives⟩ := hleads.gives
  refine ⟨⟨hgives.draws, fun frame frames hframes => ?_⟩, fun t ht hapart => ?_⟩
  · obtain ⟨frame', hframes', hext⟩ := (e.lower_composed isUsed).keepsFrames hr hframes
    exact ⟨frame', hframes', hext, nofun⟩
  · exact e.lower_spares hs he hr ht (hapart.imp_right fun h => h.resolve_left List.not_mem_nil)

theorem temporary (free : String → Prop) (p : Progress) :
    p.Makes free [p.hoisting.declareTemporary.1] []
      { p with hoisting := p.hoisting.declareTemporary.2 } where
  draws := by
    refine ⟨?_, fun frame frames hframes => ?_⟩
    · have hsupply : p.hoisting.declareTemporary.2.supply = p.hoisting.supply.temporary.2 :=
        Hoisting.supply_addVariable _ _
      rw [hsupply]
      exact p.hoisting.supply.draws_temporary
    · obtain ⟨frame', hframes', hext⟩ := Hoisting.ExtendsTo.declareTemporary p.hoisting hframes
      refine ⟨frame', hframes', hext, List.forall_mem_singleton.mpr ?_⟩
      have hopen : p.hoisting.temporary.2.frames ≠ [] := by
        rw [show p.hoisting.temporary.2.frames = p.hoisting.frames from rfl, hframes]
        exact List.cons_ne_nil _ _
      have hmem : p.hoisting.declareTemporary.1 ∈ p.hoisting.declareTemporary.2.pop.1.vars :=
        Hoisting.mem_addVariable hopen p.hoisting.temporary.1
      rwa [Hoisting.pop, hframes'] at hmem
  spares _ _ _ := covers_nil

/-- That a helper for rests is needed is noted, which changes nothing here. -/
theorem noted (free : String → Prop) (p : Progress) :
    p.Makes free [] [] { p with needsRest := true } :=
  have hnothing := nothing free p
  ⟨⟨hnothing.draws.supply, hnothing.draws.declared⟩, fun _ _ _ => covers_nil⟩

end Makes
end Progress
end RegisterForm
