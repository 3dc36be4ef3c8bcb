import RegisterForm.Proofs.Fresh.Supply
/-!
# Requests for names

Any requests for names, one after another and of both kinds. Each is answered with a name that was
unused and is used from then on. There is one exception, which is exact: a wanted name whose numbers
are all taken is answered with the last of them.
-/
namespace RegisterForm
open NameSupply

namespace NameSupply

/-! ## The least free number -/

/-- The search ends at the first free number, or one behind the last that it tried. -/
theorem freeNumber_least (supply : NameSupply) (stem : String) (attempts n : Nat) :
    ∃ k, supply.freeNumber stem attempts n = k ∧ n ≤ k ∧ k ≤ n + attempts ∧
      (∀ m, n ≤ m → m < k → supply.isUsed (numbered stem m) = true) ∧
      (k < n + attempts → supply.isUsed (numbered stem k) = false) := by
  induction attempts generalizing n with
  | zero => exact ⟨n, rfl, Nat.le_refl n, Nat.le_refl n, fun m h₁ h₂ => by omega, fun h => by omega⟩
  | succ attempts ih =>
    unfold freeNumber
    split
    · next hused =>
      obtain ⟨k, hk, hle, hbound, hall, hfree⟩ := ih (n + 1)
      refine ⟨k, hk, by omega, by omega, fun m hm hmk => ?_, fun h => hfree (by omega)⟩
      by_cases hfirst : m = n
      · rw [hfirst]
        exact hused
      · exact hall m (by omega) hmk
    · next hfree =>
      exact ⟨n, rfl, Nat.le_refl n, by omega, fun m h₁ h₂ => by omega, fun _ => by simpa using hfree⟩

theorem freeTemporary_least (supply : NameSupply) (bound n : Nat) :
    n ≤ supply.freeTemporary bound n ∧
      ∀ m, n ≤ m → m < supply.freeTemporary bound n →
        supply.isUsed (temporaryName m) = true := by
  induction bound generalizing n with
  | zero => exact ⟨Nat.le_refl n, fun m h₁ h₂ => by unfold freeTemporary at h₂; omega⟩
  | succ bound ih =>
    unfold freeTemporary
    split
    · next hused =>
      obtain ⟨hle, hall⟩ := ih (n + 1)
      refine ⟨by omega, fun m hm hmk => ?_⟩
      by_cases hfirst : m = n
      · rw [hfirst]
        exact hused
      · exact hall m (by omega) hmk
    · exact ⟨Nat.le_refl n, fun m h₁ h₂ => by omega⟩

/-- A wanted name gets the least number that is free. -/
theorem unique_least (supply : NameSupply) (base : String) :
    ∃ n, (supply.unique base).1 = numbered (numberedStem base) n ∧ 1 ≤ n ∧
      n ≤ maxNameAttempts + 1 ∧
      (∀ m, 1 ≤ m → m < n → supply.isUsed (numbered (numberedStem base) m) = true) ∧
      (n < maxNameAttempts + 1 → supply.isUsed (supply.unique base).1 = false) := by
  obtain ⟨n, hn, hle, hbound, hall, hfree⟩ :=
    supply.freeNumber_least (numberedStem base) maxNameAttempts 1
  have hname : (supply.unique base).1 = numbered (numberedStem base) n := by
    rw [← hn]
    rfl
  refine ⟨n, hname, hle, by omega, hall, fun h => ?_⟩
  rw [hname]
  exact hfree (by omega)

end NameSupply

/-! ## Requests -/

/-- A request for a name. -/
inductive NameRequest where
  | unique (base : String)
  | temporary
  /-- A temporary that is declared in the innermost function. -/
  | declareTemporary

namespace NameRequest

def answer : NameRequest → Hoisting → String × Hoisting
  | unique base, h => h.unique base
  | temporary, h => h.temporary
  | declareTemporary, h => h.declareTemporary

/-- The numbers of the temporaries that are tried to answer a request. -/
def tried (r : NameRequest) (h : Hoisting) : List Nat :=
  match r with
  | unique _ => []
  | temporary | declareTemporary =>
    List.range' h.supply.temporaries
      ((r.answer h).2.supply.temporaries - h.supply.temporaries)

/-- All numbers that a wanted name is tried with are taken. -/
def Exhausted (r : NameRequest) (h : Hoisting) : Prop :=
  match r with
  | unique base => ∀ n, 1 ≤ n → n ≤ maxNameAttempts + 1 →
      h.supply.isUsed (numbered (numberedStem base) n) = true
  | temporary | declareTemporary => False

variable (r : NameRequest) (h : Hoisting)

/-- A request leaves the supply that gave the name. -/
theorem supply_answer : (r.answer h).2.supply =
    match r with
    | unique base => (h.supply.unique base).2
    | temporary | declareTemporary => h.supply.temporary.2 := by
  cases r with
  | unique base => rfl
  | temporary => rfl
  | declareTemporary =>
    have hdeclared : ∀ (name : String) (h : Hoisting), (h.addVariable name).supply = h.supply := by
      intro name h
      unfold Hoisting.addVariable Hoisting.modifyTop
      split <;> rfl
    exact hdeclared _ _

theorem name_answer : (r.answer h).1 =
    match r with
    | unique base => (h.supply.unique base).1
    | temporary | declareTemporary => h.supply.temporary.1 := by
  cases r <;> rfl

/-- An answer is one step of the supply. -/
theorem gives_answer : Gives h.supply [(r.answer h).1] (r.answer h).2.supply := by
  rw [supply_answer, name_answer]
  cases r with
  | unique base => exact .unique base (.nothing _)
  | temporary | declareTemporary => exact .temporary (.nothing _)

/-- A name is given out a second time exactly if all its numbers are taken. -/
theorem isUsed_answer_iff : h.supply.isUsed (r.answer h).1 = true ↔ r.Exhausted h := by
  rw [name_answer]
  cases r with
  | unique base =>
    obtain ⟨n, hname, hle, hbound, hall, hfree⟩ := h.supply.unique_least base
    constructor
    · intro hused m hm hmbound
      have hlast : n = maxNameAttempts + 1 := by
        by_contra hne
        rw [hfree (by omega)] at hused
        cases hused
      by_cases hmn : m = n
      · rw [hmn, ← hname]
        exact hused
      · exact hall m hm (by omega)
    · intro hexhausted
      show h.supply.isUsed (h.supply.unique base).1 = true
      rw [hname]
      exact hexhausted n hle hbound
  | temporary | declareTemporary =>
    show h.supply.isUsed h.supply.temporary.1 = true ↔ False
    rw [h.supply.isUsed_temporary_before]
    simp

/-- A temporary is the first one that is free, of those not tried before. -/
theorem temporary_least : ∃ k, h.supply.temporary.1 = temporaryName k ∧
    h.supply.temporary.2.temporaries = k + 1 ∧ h.supply.temporaries ≤ k ∧
    ∀ m, h.supply.temporaries ≤ m → m < k → h.supply.isUsed (temporaryName m) = true := by
  obtain ⟨hle, hall⟩ := h.supply.freeTemporary_least h.supply.used.size h.supply.temporaries
  exact ⟨_, rfl, rfl, hle, hall⟩

end NameRequest

/-! ## One after another -/

/-- The answers to some requests, one after another. -/
def answers : List NameRequest → Hoisting → List String × Hoisting
  | [], h => ([], h)
  | r :: rs, h =>
    let (name, h) := r.answer h
    let (names, h) := answers rs h
    (name :: names, h)

/-- The numbers of the temporaries that are tried to answer some requests. -/
def triedTemporaries : List NameRequest → Hoisting → List Nat
  | [], _ => []
  | r :: rs, h => r.tried h ++ triedTemporaries rs (r.answer h).2

section answers
variable (rs rs' : List NameRequest) (h : Hoisting)

theorem answers_append : answers (rs ++ rs') h =
    ((answers rs h).1 ++ (answers rs' (answers rs h).2).1, (answers rs' (answers rs h).2).2) := by
  induction rs generalizing h with
  | nil => rfl
  | cons r rs ih => simp [answers, ih]

/-- A run of requests is a run of the supply. -/
theorem gives_answers : Gives h.supply (answers rs h).1 (answers rs h).2.supply := by
  induction rs generalizing h with
  | nil => exact .nothing _
  | cons r rs ih => exact (r.gives_answer h).append (ih (r.answer h).2)

/-- What is tried is counted: no number is tried twice, and none is left out. -/
theorem mem_triedTemporaries (k : Nat) : k ∈ triedTemporaries rs h ↔
    h.supply.temporaries ≤ k ∧ k < (answers rs h).2.supply.temporaries := by
  induction rs generalizing h with
  | nil =>
    show k ∈ [] ↔ h.supply.temporaries ≤ k ∧ k < h.supply.temporaries
    simp
  | cons r rs ih =>
    have hrest : (answers (r :: rs) h).2 = (answers rs (r.answer h).2).2 := rfl
    have hcount : ∀ rs (h : Hoisting),
        h.supply.temporaries ≤ (answers rs h).2.supply.temporaries := by
      intro rs
      induction rs with
      | nil => exact fun h => Nat.le_refl _
      | cons r rs ih =>
        intro h
        refine Nat.le_trans ?_ (ih (r.answer h).2)
        rw [r.supply_answer]
        cases r with
        | unique base => exact Nat.le_refl _
        | temporary | declareTemporary =>
          obtain ⟨k, -, hk, hle, -⟩ := NameRequest.temporary_least h
          show _ ≤ h.supply.temporary.2.temporaries
          omega
    have hlater := hcount rs (r.answer h).2
    have hnow := hcount [r] h
    rw [triedTemporaries, List.mem_append, ih, hrest]
    have hstep : (answers [r] h).2 = (r.answer h).2 := rfl
    rw [hstep] at hnow
    cases r with
    | unique base =>
      have hsame : ((NameRequest.unique base).answer h).2.supply.temporaries =
          h.supply.temporaries := rfl
      simp [NameRequest.tried, hsame]
    | temporary | declareTemporary =>
      simp only [NameRequest.tried, List.mem_range'_1]
      omega

end answers

/-- **Every name is fresh.** Whatever names are in use and whatever was asked for before, a request
is answered with a name that is used from then on, and that was unused before, unless a name is
wanted whose numbers are all taken, and then it is a used one. The number of a wanted name is the
least that is free, and a temporary is the first that is free of those not tried yet. No two names
of a run are the same, unless a wanted name ran out of numbers. -/
theorem answers_fresh (used : Std.TreeSet String) (frames : List Frame)
    (earlier later : List NameRequest) (r : NameRequest) :
    let start : Hoisting := { supply := { used }, frames }
    let before := (answers earlier start).2
    let name := (r.answer before).1
    let after := (answers later (r.answer before).2).2
    (before.supply.isUsed name = true ↔ r.Exhausted before) ∧
      (name ∈ (answers earlier start).1 → r.Exhausted before) ∧
      after.supply.isUsed name = true ∧
      (match r with
        | .unique base => ∃ n, name = numbered (numberedStem base) n ∧ 1 ≤ n ∧
            n ≤ maxNameAttempts + 1 ∧ ∀ m, 1 ≤ m → m < n →
              before.supply.isUsed (numbered (numberedStem base) m) = true
        | .temporary | .declareTemporary => ∃ k, name = temporaryName k ∧
            k ∉ triedTemporaries earlier start ∧ ∀ m < k,
              m ∈ triedTemporaries earlier start ∨
                before.supply.isUsed (temporaryName m) = true) ∧
      ((answers (earlier ++ r :: later) start).1.Nodup ∨
        ∃ rs r' rs', earlier ++ r :: later = rs ++ r' :: rs' ∧
          r'.Exhausted (answers rs start).2) := by
  intro start before name after
  refine ⟨r.isUsed_answer_iff before, fun hmem => ?_, ?_, ?_, ?_⟩
  · exact (r.isUsed_answer_iff before).mp
      (((gives_answers earlier start).isUsed_iff name).mpr (.inl hmem))
  · refine ((gives_answers later (r.answer before).2).isUsed_iff name).mpr (.inr ?_)
    exact ((r.gives_answer before).isUsed_iff name).mpr (.inl (List.mem_singleton_self _))
  · have htried : ∀ k, k ∈ triedTemporaries earlier start ↔ k < before.supply.temporaries :=
      fun k => (mem_triedTemporaries earlier start k).trans (by simp [start, before])
    have hfirst : ∃ k, before.supply.temporary.1 = temporaryName k ∧
        k ∉ triedTemporaries earlier start ∧ ∀ m < k, m ∈ triedTemporaries earlier start ∨
          before.supply.isUsed (temporaryName m) = true := by
      obtain ⟨k, hname, -, hle, hall⟩ := NameRequest.temporary_least before
      refine ⟨k, hname, fun hmem => ?_, fun m hm => ?_⟩
      · rw [htried] at hmem
        omega
      · rw [htried]
        exact (Nat.lt_or_ge m _).imp_right fun hge => hall m hge hm
    cases r with
    | unique base =>
      obtain ⟨n, hname, hle, hbound, hall, -⟩ := before.supply.unique_least base
      exact ⟨n, hname, hle, hbound, hall⟩
    | temporary => exact hfirst
    | declareTemporary => exact hfirst
  · -- Induction on the run: the last name is new, or its request is the exception.
    generalize earlier ++ r :: later = requests
    induction requests using List.reverseRecOn with
    | nil => exact .inl List.nodup_nil
    | append_singleton rs r' ih =>
      rcases ih with hnodup | ⟨qs, q, qs', rfl, hq⟩
      · by_cases hexhausted : r'.Exhausted (answers rs start).2
        · exact .inr ⟨rs, r', [], rfl, hexhausted⟩
        · refine .inl ?_
          rw [answers_append]
          refine List.nodup_append.mpr ⟨hnodup, List.nodup_singleton _, ?_⟩
          rintro a ha b hb rfl
          obtain rfl : a = (r'.answer (answers rs start).2).1 := List.mem_singleton.mp hb
          refine hexhausted ((r'.isUsed_answer_iff _).mp ?_)
          exact ((gives_answers rs start).isUsed_iff _).mpr (.inl ha)
      · exact .inr ⟨qs, q, qs' ++ [r'], by simp, hq⟩

end RegisterForm
