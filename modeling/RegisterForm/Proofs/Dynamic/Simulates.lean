import RegisterForm.Proofs.Dynamic.Local
import RegisterForm.Proofs.Dynamic.Take
/-!
# Runs side by side

One computation keeps values in temporaries, another one passes them on itself. Both start from the
same store, the temporaries aside; some of these, and some other variables that nothing writes to,
have known values.
-/
namespace RegisterForm.Dynamic
open Vocabulary

variable {σ α β : Type}

/-- The variables have their values back when the computation is done. -/
def Keeps (kept : List String) (x : Run σ α) : Prop :=
  ∀ store, ∀ name ∈ kept, (x.outcome store).2.vars name = store.vars name

namespace Keeps
variable {kept : List String} {x : Run σ α} {f : α → Run σ β}

theorem pure (a : α) : Keeps kept (pure a : Run σ α) := fun _ _ _ => rfl

theorem throw (e : Value) : Keeps kept (throw e : Run σ α) := fun _ _ _ => rfl

theorem bind (hx : Keeps kept x) (hf : ∀ a, Keeps kept (f a)) : Keeps kept (x >>= f) := by
  intro store name hname
  have hstep := hx store name hname
  rcases hout : x.outcome store with ⟨r, store'⟩
  rw [hout] at hstep
  cases r with
  | ok a =>
    rw [Run.outcome_bind_of_ok hout]
    exact (hf a store' name hname).trans hstep
  | error e =>
    rw [Run.outcome_bind_of_error hout]
    exact hstep

theorem read (w : World σ) (name : String) : Keeps kept (read w name) := by
  intro store name' _
  cases hv : store.vars name with
  | none => rw [outcome_read_of_none hv]
  | some v => rw [outcome_read_of_some hv]

theorem write {name : String} (h : name ∉ kept) (v : Value) :
    Keeps kept (write name v : Run σ Unit) := by
  intro store name' hname'
  rw [outcome_write]
  refine if_neg fun he => h ?_
  rwa [← he]

end Keeps

section
variable (ts kept : List String)

/-- The values of some temporaries and of some variables that are kept. -/
def Known (K : List (String × Value)) (store : Store σ) : Prop :=
  ∀ p ∈ K, (p.1 ∈ ts ∨ p.1 ∈ kept) ∧ store.vars p.1 = some p.2

/-- Where the values are known, the computations do the same, and write to no temporary and to no
variable that is kept. -/
def Matches (K : List (String × Value)) (x y : Run σ α) : Prop :=
  ∀ f store, Known ts kept K (store.holding ts f) →
    x.outcome (store.holding ts f) = ((y.outcome store).1, (y.outcome store).2.holding ts f) ∧
      ∀ name ∈ kept, (y.outcome store).2.vars name = store.vars name

/-- Where the values are known, the computations do the same, the temporaries aside. -/
def Simulates (K : List (String × Value)) (x y : Run σ α) : Prop :=
  ∀ f store, Known ts kept K (store.holding ts f) →
    ∃ f', x.outcome (store.holding ts f) = ((y.outcome store).1, (y.outcome store).2.holding ts f')

end

variable {ts kept : List String} {K K' : List (String × Value)} {x y : Run σ α}

theorem Known.mono {store : Store σ} (h : Known ts kept K' store) (hK : K ⊆ K') :
    Known ts kept K store := fun p hp => h p (hK hp)

theorem Known.step {f : String → Option Value} {store store' : Store σ}
    (h : Known ts kept K (store.holding ts f))
    (hkept : ∀ name ∈ kept, store'.vars name = store.vars name) :
    Known ts kept K (store'.holding ts f) := by
  intro p hp
  obtain ⟨hnamed, hvalue⟩ := h p hp
  refine ⟨hnamed, ?_⟩
  by_cases hts : p.1 ∈ ts
  · rwa [Store.vars_holding_of_mem hts] at hvalue ⊢
  · rw [Store.vars_holding_of_not_mem hts] at hvalue ⊢
    rw [hkept p.1 (hnamed.resolve_left hts), hvalue]

namespace Matches

theorem mono (h : Matches ts kept K x y) (hK : K ⊆ K') : Matches ts kept K' x y :=
  fun _ _ hknown => h _ _ (hknown.mono hK)

theorem pure (a : α) : Matches ts kept K (pure a : Run σ α) (pure a) := by
  intro f store _
  exact ⟨rfl, fun _ _ => rfl⟩

/-- What leaves the temporaries alone and keeps the variables. -/
theorem of_local {Q : α → Prop} (hlocal : Local ts Q x) (hkeeps : Keeps kept x) :
    Matches ts kept K x x := fun f store _ => ⟨hlocal.outcome f store, hkeeps store⟩

theorem read (w : World σ) {name : String} {v : Value} (h : (name, v) ∈ K) :
    Matches ts kept K (read w name) (Pure.pure v) := fun _ _ hknown =>
  ⟨outcome_read_of_some (hknown _ h).2, fun _ _ => rfl⟩

theorem bind_of {f g : α → Run σ β} {Q : α → Prop} (h : Matches ts kept K x y)
    (hQ : ∀ store a store', y.outcome store = (.ok a, store') → Q a)
    (hf : ∀ a, Q a → Matches ts kept K (f a) (g a)) : Matches ts kept K (x >>= f) (y >>= g) := by
  intro t store hknown
  obtain ⟨hout, hkept⟩ := h t store hknown
  rcases hy : y.outcome store with ⟨r, store'⟩
  rw [hy] at hout hkept
  cases r with
  | ok a =>
    obtain ⟨hout', hkept'⟩ := hf a (hQ store a store' hy) t store' (hknown.step hkept)
    rw [Run.outcome_bind_of_ok hout, Run.outcome_bind_of_ok hy]
    exact ⟨hout', fun name hname => (hkept' name hname).trans (hkept name hname)⟩
  | error e =>
    rw [Run.outcome_bind_of_error hout, Run.outcome_bind_of_error hy]
    exact ⟨rfl, hkept⟩

theorem bind {f g : α → Run σ β} (h : Matches ts kept K x y)
    (hf : ∀ a, Matches ts kept K (f a) (g a)) : Matches ts kept K (x >>= f) (y >>= g) :=
  h.bind_of (Q := fun _ => True) (fun _ _ _ _ => trivial) fun a _ => hf a

end Matches

namespace Simulates

theorem of_matches (h : Matches ts kept K x y) : Simulates ts kept K x y := fun f store hknown =>
  ⟨f, (h f store hknown).1⟩

theorem bind {f g : α → Run σ β} (h : Matches ts kept K x y)
    (hf : ∀ a, Simulates ts kept K (f a) (g a)) : Simulates ts kept K (x >>= f) (y >>= g) := by
  intro t store hknown
  obtain ⟨hout, hkept⟩ := h t store hknown
  rcases hy : y.outcome store with ⟨r, store'⟩
  rw [hy] at hout hkept
  cases r with
  | ok a =>
    obtain ⟨t', hout'⟩ := hf a t store' (hknown.step hkept)
    rw [Run.outcome_bind_of_ok hout, Run.outcome_bind_of_ok hy]
    exact ⟨t', hout'⟩
  | error e =>
    rw [Run.outcome_bind_of_error hout, Run.outcome_bind_of_error hy]
    exact ⟨t, rfl⟩

/-- What one computation writes to a temporary, the other one remembers. -/
theorem hold {x y : Run σ Value} {f : Run σ β} {g : Value → Run σ β} {t : String}
    (h : Matches ts kept K x y) (ht : t ∈ ts) (hnew : ∀ p ∈ K, p.1 ≠ t)
    (hf : ∀ v, Simulates ts kept ((t, v) :: K) f (g v)) :
    Simulates ts kept K (x >>= fun v => write t v >>= fun _ => f) (y >>= g) := by
  intro i store hknown
  obtain ⟨hout, hkept⟩ := h i store hknown
  rcases hy : y.outcome store with ⟨r, store'⟩
  rw [hy] at hout hkept
  cases r with
  | ok v =>
    have hset : (store'.holding ts i).set t v =
        store'.holding ts fun name => if name = t then some v else i name := by
      refine congrArg (Store.mk · store'.rest) (funext fun name => ?_)
      by_cases hname : name = t
      · subst hname
        simp [ht]
      · simp [Store.holding, hname]
    have hknown' := hknown.step hkept
    have hknown'' : Known ts kept ((t, v) :: K) ((store'.holding ts i).set t v) := by
      refine List.forall_mem_cons.mpr ⟨⟨.inl ht, if_pos rfl⟩, fun p hp => ?_⟩
      exact ⟨(hknown' p hp).1, (if_neg (hnew p hp)).trans (hknown' p hp).2⟩
    rw [hset] at hknown''
    obtain ⟨i', hout'⟩ := hf v _ store' hknown''
    refine ⟨i', ?_⟩
    rw [Run.outcome_bind_of_ok hout, Run.outcome_bind_of_ok hy,
      Run.outcome_bind_of_ok (outcome_write t v _), hset, hout']
  | error e =>
    rw [Run.outcome_bind_of_error hout, Run.outcome_bind_of_error hy]
    exact ⟨i, rfl⟩

/-- A value that a variable is known to have need not be computed. -/
theorem settled {e y : Run σ Value} {x : Run σ β} {g : Value → Run σ β} {v : Value}
    (hv : Matches ts kept K e (Pure.pure v)) (h : Matches ts kept K e y)
    (hx : Simulates ts kept K x (g v)) : Simulates ts kept K x (y >>= g) := by
  intro i store hknown
  obtain ⟨hout, -⟩ := hv i store hknown
  obtain ⟨hout', -⟩ := h i store hknown
  rcases hy : y.outcome store with ⟨r, store'⟩
  rw [hout, hy] at hout'
  obtain ⟨rfl, hstore⟩ := Prod.mk.inj hout'
  have hstore : store.holding ts i = store'.holding ts i := hstore
  rw [Run.outcome_bind_of_ok hy, hstore]
  exact hx i store' (hstore ▸ hknown)

end Simulates
end RegisterForm.Dynamic
