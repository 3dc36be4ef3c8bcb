import Mathlib.Data.List.Perm.Subperm
import RegisterForm.Proofs.Script.Module
/-!
# Names given out

The names that a supply gives out one after another. While the numbers have not run out, each of
them is new: it is no name of the file, and it was not given out before.
-/
namespace RegisterForm.NameSupply

/-! ## Candidates -/

/-- A number can be read back from its digits. -/
theorem toString_nat_injective : Function.Injective (toString : Nat → String) := by
  intro m n h
  have hdigits : Nat.toDigits 10 m = Nat.toDigits 10 n := by
    simpa only [Nat.toString_eq_repr, Nat.toList_repr] using congrArg String.toList h
  rw [← Nat.ofDigitChars_ten_toDigits (n := m), hdigits, Nat.ofDigitChars_ten_toDigits]

theorem numbered_injective (stem : String) : Function.Injective (numbered stem) := by
  intro m n h
  have hchars := congrArg String.toList h
  simp only [numbered, String.toList_append] at hchars
  exact toString_nat_injective (String.toList_injective (List.append_cancel_left hchars))

theorem isDigit_of_mem_toString {n : Nat} {c : Char} (h : c ∈ (toString n).toList) :
    c.isDigit = true := by
  rw [Nat.toString_eq_repr, Nat.toList_repr] at h
  exact Nat.isDigit_of_mem_toDigits (by decide) (by decide) h

/-- The last character of a numbered name is a digit. -/
theorem getLast?_numbered (stem : String) (n : Nat) :
    ∃ c, (numbered stem n).toList.getLast? = some c ∧ c.isDigit = true := by
  have hne : (toString n).toList ≠ [] := by simp
  refine ⟨(toString n).toList.getLast hne, ?_, isDigit_of_mem_toString (List.getLast_mem hne)⟩
  rw [numbered, String.toList_append, List.getLast?_append_of_ne_nil _ hne,
    List.getLast?_eq_some_getLast hne]

theorem toList_temporaryName_of_lt {n : Nat} (h : n < 26) :
    (temporaryName n).toList = ['_', Char.ofNat ('a'.toNat + n)] := by
  rw [temporaryName, if_pos h, String.toList_ofList]

theorem toList_temporaryName_of_le {n : Nat} (h : 26 ≤ n) :
    (temporaryName n).toList = '_' :: (toString (n + 1)).toList := by
  rw [temporaryName, if_neg (by omega), String.toList_append]
  rfl

theorem letter_injective : ∀ m n : Fin 26,
    Char.ofNat ('a'.toNat + m) = Char.ofNat ('a'.toNat + n) → m = n := by
  decide

theorem isDigit_letter : ∀ n : Fin 26, (Char.ofNat ('a'.toNat + n)).isDigit = false := by
  decide

/-- A letter is no number, so that the two kinds of temporaries never meet. -/
theorem temporaryName_ne_of_lt_of_le {m n : Nat} (hm : m < 26) (hn : 26 ≤ n) :
    temporaryName m ≠ temporaryName n := by
  intro h
  have hchars := congrArg String.toList h
  rw [toList_temporaryName_of_lt hm, toList_temporaryName_of_le hn] at hchars
  have hdigit : (Char.ofNat ('a'.toNat + m)).isDigit = true := by
    apply isDigit_of_mem_toString (n := n + 1)
    rw [← (List.cons.inj hchars).2]
    exact List.mem_singleton_self _
  have hletter := isDigit_letter ⟨m, hm⟩
  rw [hdigit] at hletter
  cases hletter

theorem temporaryName_injective : Function.Injective temporaryName := by
  intro m n h
  rcases Nat.lt_or_ge m 26 with hm | hm <;> rcases Nat.lt_or_ge n 26 with hn | hn
  · have hchars := congrArg String.toList h
    rw [toList_temporaryName_of_lt hm, toList_temporaryName_of_lt hn] at hchars
    have hletters := (List.cons.inj (List.cons.inj hchars).2).1
    simpa using letter_injective ⟨m, hm⟩ ⟨n, hn⟩ hletters
  · exact absurd h (temporaryName_ne_of_lt_of_le hm hn)
  · exact absurd h.symm (temporaryName_ne_of_lt_of_le hn hm)
  · have hchars := congrArg String.toList h
    rw [toList_temporaryName_of_le hm, toList_temporaryName_of_le hn] at hchars
    have hnumbers := toString_nat_injective (String.toList_injective (List.cons.inj hchars).2)
    omega

/-! ## Free names -/

/-- Different names in use are no more than the names in use. -/
theorem le_size_of_isUsed (supply : NameSupply) {name : Nat → String}
    (hinj : Function.Injective name) (start count : Nat)
    (h : ∀ i < count, supply.isUsed (name (start + i)) = true) : count ≤ supply.used.size := by
  have hnodup : ((List.range count).map fun i => name (start + i)).Nodup := by
    refine List.Nodup.map (fun i j hij => ?_) List.nodup_range
    have := hinj hij
    omega
  have hsubset : ((List.range count).map fun i => name (start + i)) ⊆ supply.used.toList := by
    intro n hn
    obtain ⟨i, hi, rfl⟩ := List.mem_map.mp hn
    exact Std.TreeSet.mem_toList.mpr (h i (List.mem_range.mp hi))
  have hlength := (List.subperm_of_subset hnodup hsubset).length_le
  rwa [List.length_map, List.length_range, Std.TreeSet.length_toList] at hlength

/-- The search ends at a free number, or every number that it tried is taken. -/
theorem freeNumber_spec (supply : NameSupply) (stem : String) (attempts n : Nat) :
    supply.isUsed (numbered stem (supply.freeNumber stem attempts n)) = false ∨
      ∀ i < attempts, supply.isUsed (numbered stem (n + i)) = true := by
  induction attempts generalizing n with
  | zero => exact .inr fun i hi => absurd hi (Nat.not_lt_zero i)
  | succ attempts ih =>
    unfold freeNumber
    split
    · next hused =>
      refine (ih (n + 1)).imp_right fun hall i hi => ?_
      cases i with
      | zero => exact hused
      | succ i => simpa only [Nat.add_comm i 1, Nat.add_assoc] using hall i (by omega)
    · next hfree => exact .inl (by simpa using hfree)

/-- Of the temporaries tried one is free, as they are one more than the names in use. -/
theorem freeTemporary_spec (supply : NameSupply) (bound n : Nat) :
    supply.isUsed (temporaryName (supply.freeTemporary bound n)) = false ∨
      ∀ i < bound + 1, supply.isUsed (temporaryName (n + i)) = true := by
  induction bound generalizing n with
  | zero =>
    unfold freeTemporary
    by_cases hused : supply.isUsed (temporaryName n) = true
    · refine .inr fun i hi => ?_
      obtain rfl : i = 0 := by omega
      exact hused
    · exact .inl (by simpa using hused)
  | succ bound ih =>
    unfold freeTemporary
    split
    · next hused =>
      refine (ih (n + 1)).imp_right fun hall i hi => ?_
      cases i with
      | zero => exact hused
      | succ i => simpa only [Nat.add_comm i 1, Nat.add_assoc] using hall i (by omega)
    · next hfree => exact .inl (by simpa using hfree)

/-- A name made from a wanted one is new while fewer names are in use than are tried. -/
theorem isUsed_unique_before (supply : NameSupply) (base : String)
    (h : supply.used.size < maxNameAttempts) : supply.isUsed (supply.unique base).1 = false := by
  refine (supply.freeNumber_spec (numberedStem base) maxNameAttempts 1).resolve_right fun hall => ?_
  have hsize := supply.le_size_of_isUsed (numbered_injective _) 1 maxNameAttempts hall
  omega

/-- A temporary is always new. -/
theorem isUsed_temporary_before (supply : NameSupply) :
    supply.isUsed supply.temporary.1 = false := by
  refine (supply.freeTemporary_spec supply.used.size supply.temporaries).resolve_right
    fun hall => ?_
  have hsize := supply.le_size_of_isUsed temporaryName_injective _ _ hall
  omega

/-! ## Runs -/

/-- What a supply gives out on its way to another, in order. -/
inductive Gives : NameSupply → List String → NameSupply → Prop
  | nothing (supply : NameSupply) : Gives supply [] supply
  | unique {supply supply' : NameSupply} {names : List String} (base : String)
    (rest : Gives (supply.unique base).2 names supply') :
    Gives supply ((supply.unique base).1 :: names) supply'
  | temporary {supply supply' : NameSupply} {names : List String}
    (rest : Gives supply.temporary.2 names supply') :
    Gives supply (supply.temporary.1 :: names) supply'

/-- The form of the names that a supply makes. -/
def IsMadeUp (name : String) : Prop :=
  (∃ stem n, name = numbered stem n) ∨ ∃ n, name = temporaryName n

theorem isMadeUp_unique (supply : NameSupply) (base : String) :
    IsMadeUp (supply.unique base).1 := .inl ⟨_, _, rfl⟩

theorem isMadeUp_temporary (supply : NameSupply) : IsMadeUp supply.temporary.1 := .inr ⟨_, rfl⟩

namespace Gives
variable {supply supply' supply'' : NameSupply} {names names' : List String}

theorem append (h : Gives supply names supply') (h' : Gives supply' names' supply'') :
    Gives supply (names ++ names') supply'' := by
  induction h with
  | nothing => exact h'
  | unique base _ ih => exact .unique base (ih h')
  | temporary _ ih => exact .temporary (ih h')

/-- What is in use afterwards was in use before or has been given out. -/
theorem isUsed_iff (h : Gives supply names supply') (name : String) :
    supply'.isUsed name = true ↔ name ∈ names ∨ supply.isUsed name = true := by
  induction h with
  | nothing => simp
  | @unique supply _ names base _ ih =>
    have hstep : (supply.unique base).2.isUsed name =
        ((supply.unique base).1 == name || supply.isUsed name) := isUsed_use _ _ _
    rw [ih, hstep, Bool.or_eq_true, beq_iff_eq, List.mem_cons, eq_comm (a := name)]
    tauto
  | @temporary supply _ names _ ih =>
    have hstep : supply.temporary.2.isUsed name =
        (supply.temporary.1 == name || supply.isUsed name) := isUsed_use supply _ _
    rw [ih, hstep, Bool.or_eq_true, beq_iff_eq, List.mem_cons, eq_comm (a := name)]
    tauto

theorem isMadeUp (h : Gives supply names supply') : ∀ name ∈ names, IsMadeUp name := by
  induction h with
  | nothing => nofun
  | unique base _ ih => exact List.forall_mem_cons.mpr ⟨isMadeUp_unique _ base, ih⟩
  | temporary _ ih => exact List.forall_mem_cons.mpr ⟨isMadeUp_temporary _, ih⟩

theorem size_le (h : Gives supply names supply') : supply.used.size ≤ supply'.used.size := by
  induction h with
  | nothing => exact Nat.le_refl _
  | unique base _ ih => exact Nat.le_trans Std.TreeSet.size_le_size_insert ih
  | temporary _ ih => exact Nat.le_trans Std.TreeSet.size_le_size_insert ih

/-- While the numbers have not run out, what is given out is new and never given out again. -/
theorem fresh (h : Gives supply names supply') (hsize : supply'.used.size < maxNameAttempts) :
    names.Nodup ∧ ∀ name ∈ names, supply.isUsed name = false := by
  -- A name given out is in use from then on, and nothing given out later was in use by then.
  induction h with
  | nothing => exact ⟨List.nodup_nil, nofun⟩
  | @unique supply _ names base rest ih =>
    obtain ⟨hnodup, hnew⟩ := ih hsize
    have hbefore : supply.used.size ≤ (supply.unique base).2.used.size :=
      Std.TreeSet.size_le_size_insert
    have hfirst := supply.isUsed_unique_before base
      (Nat.lt_of_le_of_lt (Nat.le_trans hbefore rest.size_le) hsize)
    refine ⟨List.nodup_cons.mpr ⟨fun hmem => ?_, hnodup⟩, List.forall_mem_cons.mpr ⟨hfirst, ?_⟩⟩
    · have hagain := hnew _ hmem
      rw [isUsed_unique] at hagain
      cases hagain
    · intro name hname
      have hlater := hnew name hname
      rw [show (supply.unique base).2.isUsed name = _ from isUsed_use _ _ _] at hlater
      exact (Bool.or_eq_false_iff.mp hlater).2
  | @temporary supply _ names rest ih =>
    obtain ⟨hnodup, hnew⟩ := ih hsize
    refine ⟨List.nodup_cons.mpr ⟨fun hmem => ?_, hnodup⟩,
      List.forall_mem_cons.mpr ⟨supply.isUsed_temporary_before, ?_⟩⟩
    · have hagain := hnew _ hmem
      rw [isUsed_temporary] at hagain
      cases hagain
    · intro name hname
      have hlater := hnew name hname
      rw [show supply.temporary.2.isUsed name = _ from isUsed_use supply _ _] at hlater
      exact (Bool.or_eq_false_iff.mp hlater).2

end Gives
end RegisterForm.NameSupply
