import RegisterForm.Proofs.Dynamic.Kept
import RegisterForm.Proofs.Dynamic.Shells
/-!
# Assignments do what the pattern means

The assignments that a pattern is taken apart into, evaluated one after another, do what taking the
value apart means, the temporaries aside: all that a level of the pattern reads, it reads from the
value that its source had. This needs the variables that are used again to keep their values for as
long as the pattern takes.
-/
namespace RegisterForm.Dynamic
open Vocabulary

variable {σ α β : Type}

/-! ## What the parts of a pattern do -/

/-- A world in which temporaries are left alone and variables are kept. -/
structure Ambience (w : World σ) (s : Setting) (ts kept : List String) : Prop where
  isLocal : w.Local ts
  keeps : w.Keeps kept
  spoken : s.SpokenIn (sparing (· ∈ ts))

section
variable {w : World σ} {s : Setting} {ts kept : List String} (hw : Ambience w s ts kept)
  {K K' : List (String × Value)} {e m : Run σ Value}

namespace Matches

theorem rfl_of {x : Run σ α} (hlocal : Local ts (fun _ => True) x) (hkeeps : Keeps kept x) :
    Matches ts kept K x x := of_local hlocal hkeeps

/-- What gives a known value may be followed by what is done with that value. -/
theorem bind_pure {x : Run σ α} {a : α} {f : α → Run σ β} {y : Run σ β}
    (h : Matches ts kept K x (Pure.pure a)) (hf : Matches ts kept K (f a) y) :
    Matches ts kept K (x >>= f) y := by
  have hall : Matches ts kept K (x >>= f) (Pure.pure a >>= fun _ => y) := by
    refine h.bind_of (Q := fun b => b = a) (fun _ _ _ hout => by cases hout; rfl) ?_
    rintro _ rfl
    exact hf
  rwa [pure_bind] at hall

theorem read_self {name : String} (h : name ∉ ts) :
    Matches ts kept K (Dynamic.read w name) (Dynamic.read w name) :=
  rfl_of (.read w h) (.read w name)

theorem write_self {name : String} (h : name ∉ ts) (hkept : name ∉ kept) (v : Value) :
    Matches ts kept K (Dynamic.write name v : Run σ Unit) (Dynamic.write name v) :=
  rfl_of (.write h v) (.write hkept v)

include hw

theorem getProperty (owner key : Value) :
    Matches ts kept K (w.getProperty owner key) (w.getProperty owner key) :=
  rfl_of (hw.isLocal.getProperty owner key) (hw.keeps.getProperty owner key)

theorem call (callee receiver : Value) (args : List Value) :
    Matches ts kept K (w.call callee receiver args) (w.call callee receiver args) :=
  rfl_of (hw.isLocal.call callee receiver args) (hw.keeps.call callee receiver args)

theorem property (h : Matches ts kept K e m) (key : Value) :
    Matches ts kept K (property w e key) (property w m key) :=
  h.bind fun _ => getProperty hw _ _

theorem publishing (name : String) (h : Matches ts kept K e m) :
    Matches ts kept K (publishing w s name e) (publishing w s name m) :=
  (read_self hw.spoken.exporter).bind fun _ => h.bind fun _ => call hw _ _ _

theorem bindTo {x : Ident} (hx : x.name ∉ ts) (hkept : x.name ∉ kept) (h : Matches ts kept K e m) :
    Matches ts kept K (bindTo w s x e) (bindTo w s x m) := by
  have hall : ∀ (names : List String) {e m : Run σ Value}, Matches ts kept K e m →
      Matches ts kept K (names.foldl (fun m name => Dynamic.publishing w s name m) e)
        (names.foldl (fun m name => Dynamic.publishing w s name m) m) := by
    intro names
    induction names with
    | nil => exact fun h => h
    | cons name names ih => exact fun h => ih (publishing hw name h)
  exact hall _ (h.bind fun v => (write_self hx hkept v).bind fun _ => .pure v)

theorem put {r : Referent} (hr : r.Avoids ts) (hkept : r.Avoids kept) (v : Value) :
    Matches ts kept K (w.put v r) (w.put v r) := by
  cases r with
  | named name => exact write_self hr hkept v
  | property owner key =>
    exact rfl_of (hw.isLocal.putProperty owner key v) (hw.keeps.putProperty owner key v)
  | value _ => exact rfl_of (.throw _) (.throw _)

theorem storeTo {target : Expr} (htarget : Spares ts target.visits)
    (hkeeps : LeafKeeps w kept (.target target)) (h : Matches ts kept K e m) :
    Matches ts kept K (storeTo w target e) (storeTo w target m) := by
  have hrefer := local_refer hw.isLocal target htarget
  refine (of_local hrefer hkeeps.1).bind_of (Q := fun r => r.Avoids ts ∧ r.Avoids kept)
    (fun store r store' hout => ⟨hrefer.result store r store' hout, hkeeps.2 store r store' hout⟩)
    fun r hr => h.bind fun v => (put hw hr.1 hr.2 v).bind fun _ => .pure v

theorem array (vs : List Value) : Matches ts kept K (w.array vs) (w.array vs) :=
  rfl_of (hw.isLocal.array vs) (hw.keeps.array vs)

theorem remaining (h : Matches ts kept K e m) {ks ms : List (Run σ Value)}
    (hkeys : List.Forall₂ (Matches ts kept K) ks ms) :
    Matches ts kept K (remaining w e ks) (remaining w m ms) := by
  have hall : ∀ {ks ms : List (Run σ Value)}, List.Forall₂ (Matches ts kept K) ks ms →
      Matches ts kept K (ks.mapM id) (ms.mapM id) := by
    intro ks ms hkeys
    induction hkeys with
    | nil => exact .pure []
    | cons hk _ ih =>
      rw [List.mapM_cons, List.mapM_cons]
      exact hk.bind fun v => ih.bind fun vs => .pure (v :: vs)
  exact (read_self hw.spoken.rest).bind fun _ => h.bind fun _ => (hall hkeys).bind fun _ =>
    (array hw _).bind fun _ => call hw _ _ _

theorem elementsFrom (h : Matches ts kept K e m) (index : Nat) :
    Matches ts kept K (elementsFrom w e index) (elementsFrom w m index) :=
  h.bind fun _ => (getProperty hw _ _).bind fun _ => call hw _ _ _

theorem keyOf (k : Value) : Matches ts kept K (keyOf w k) (keyOf w k) := by
  refine rfl_of (.ite (.pure trivial) (hw.isLocal.applyBinary .add k (.string ""))) ?_
  unfold Dynamic.keyOf World.add
  split
  · exact .pure k
  · split
    · split
      · exact .pure _
      · exact hw.keeps.binary _ _ _
    · exact hw.keeps.binary _ _ _

theorem eval {e : Expr} (he : Spares ts e.visits) (hkeeps : Keeps kept (Dynamic.eval w e)) :
    Matches ts kept K (Dynamic.eval w e) (Dynamic.eval w e) :=
  rfl_of (local_eval hw.isLocal he) hkeeps

end Matches

/-! ## Values that are held -/

/-- Some more values are known, of temporaries among `us`. -/
structure Grows (K : List (String × Value)) (us : List String) (K' : List (String × Value)) :
    Prop where
  subset : K ⊆ K'
  named : ∀ p ∈ K', p ∈ K ∨ p.1 ∈ us

theorem Grows.refl (K : List (String × Value)) (us : List String) : Grows K us K :=
  ⟨fun _ h => h, fun _ h => .inl h⟩

theorem Grows.trans {K K' K'' : List (String × Value)} {us us' : List String} (h : Grows K us K')
    (h' : Grows K' us' K'') : Grows K (us ++ us') K'' :=
  ⟨fun _ hp => h'.subset (h.subset hp), fun p hp => by
    rcases h'.named p hp with hp | hp
    · exact (h.named p hp).imp_right (List.mem_append_left _)
    · exact .inr (List.mem_append_right _ hp)⟩

/-- Temporaries that are assigned in turn, none of which has a known value. -/
structure Vacant (ts : List String) (K : List (String × Value)) (us : List String) : Prop where
  nodup : us.Nodup
  subset : us ⊆ ts
  unknown : ∀ p ∈ K, p.1 ∉ us

theorem Vacant.left {us us' : List String} (h : Vacant ts K (us ++ us')) : Vacant ts K us where
  nodup := h.nodup.of_append_left
  subset := fun _ hu => h.subset (List.mem_append_left _ hu)
  unknown p hp hu := h.unknown p hp (List.mem_append_left _ hu)

theorem Vacant.right {us us' : List String} (h : Vacant ts K (us ++ us')) (hK : Grows K us K') :
    Vacant ts K' us' where
  nodup := h.nodup.of_append_right
  subset := fun _ hu => h.subset (List.mem_append_right _ hu)
  unknown p hp hu := by
    rcases hK.named p hp with hp | hp
    · exact h.unknown p hp (List.mem_append_right _ hu)
    · exact List.disjoint_of_nodup_append h.nodup hp hu

/-- An expression for a value that a pattern takes: it does what gives the value, and if it is a
variable that may be used again, the value of that variable is known. -/
structure Stands (w : World σ) (ts kept bound : List String) (K : List (String × Value)) (e : Expr)
    (m : Run σ Value) : Prop where
  single : isSpread e = false
  settled : ∀ x, e = .ident x → e.isReusable bound = true → ∃ v, (x.name, v) ∈ K
  same : Matches ts kept K (eval w e) m

namespace Stands
variable {bound : List String} {value : Expr}

theorem mono (h : Stands w ts kept bound K value m) (hK : K ⊆ K') :
    Stands w ts kept bound K' value m :=
  ⟨h.single, fun x he hx => (h.settled x he hx).imp fun _ hmem => hK hmem, h.same.mono hK⟩

/-- A variable with a known value. -/
theorem ident {x : Ident} {v : Value} (h : (x.name, v) ∈ K) :
    Stands w ts kept bound K (.ident x) (pure v) where
  single := rfl
  settled y he _ := by
    cases he
    exact ⟨v, h⟩
  same := Matches.read w h

theorem member {owner : Expr} {name : String} (h : Matches ts kept K (eval w (owner.dot name)) m) :
    Stands w ts kept bound K (owner.dot name) m := ⟨rfl, by rintro _ ⟨⟩, h⟩

theorem lookup {owner key : Expr} (h : Matches ts kept K (eval w (owner.lookup key)) m) :
    Stands w ts kept bound K (owner.lookup key) m := ⟨rfl, by rintro _ ⟨⟩, h⟩

end Stands

theorem evalAll_singleton (e : Expr) : evalAll w [e] = (do let _ ← eval w e) := rfl

/-- What a value is held in is a name. -/
theorem held_isName {bound us : List String} {value value' : Expr} {held : List Expr}
    (h : Held bound value held value' us) : ∃ x, value' = .ident x := by
  cases h with
  | reused hreusable =>
    cases value with
    | ident x => exact ⟨x, rfl⟩
    | _ => cases hreusable
  | temporary t => exact ⟨_, rfl⟩

section Steps
variable {bound us : List String} {value value' : Expr} {held : List Expr} {x : Run σ β}

theorem simulates_held (h : Held bound value held value' us) {g : Value → Run σ β}
    (hus : Vacant ts K us)
    (hsettled : ∀ x, value = .ident x → value.isReusable bound = true → ∃ v, (x.name, v) ∈ K)
    (hsame : Matches ts kept K (eval w value) m)
    (hf : ∀ K' v, Grows K us K' → Stands w ts kept bound K' value' (pure v) →
      Simulates ts kept K' x (g v)) :
    Simulates ts kept K (do evalAll w held; x) (m >>= g) := by
  cases h with
  | reused hreusable =>
    cases value with
    | ident y =>
      obtain ⟨v, hv⟩ := hsettled y rfl hreusable
      exact .settled (Matches.read w hv) hsame (hf K v (.refl K []) (.ident hv))
    | _ => cases hreusable
  | temporary t hreusable =>
    rw [evalAll_singleton, eval_assignName]
    simp only [bind_assoc, pure_bind]
    refine Simulates.hold hsame (hus.subset (by simp)) (fun p hp he => ?_) fun v => ?_
    · exact hus.unknown p hp (by simp [he])
    · refine hf _ v ⟨List.subset_cons_self _ _, ?_⟩ (.ident (List.mem_cons_self ..))
      exact List.forall_mem_cons.mpr ⟨.inr (by simp), fun p hp => .inl hp⟩

theorem simulates_heldUnlessOne {count : Nat} (h : HeldUnlessOne bound count value held value' us)
    {g : Run σ Value → Run σ β} (hus : Vacant ts K us) (hvalue : Stands w ts kept bound K value m)
    (hf : ∀ K' m', Grows K us K' → Stands w ts kept bound K' value' m' →
      Simulates ts kept K' x (g m')) :
    Simulates ts kept K (do evalAll w held; x) (holdUnlessOne count m >>= g) := by
  cases h with
  | once hone =>
    rw [holdUnlessOne, if_pos hone]
    exact hf K m (.refl K []) hvalue
  | held hcount h =>
    rw [holdUnlessOne, if_neg hcount, hold]
    simp only [bind_assoc, pure_bind]
    exact simulates_held h hus hvalue.settled hvalue.same fun K' v hK' hv => hf K' (pure v) hK' hv

include hw

theorem simulates_fallsBack {fallback fallback' : Option Expr} {access : Expr}
    (h : FallsBack s bound fallback fallback' value held access us)
    {g : Run σ Value → Run σ β} (hus : Vacant ts K us) (hvalue : Stands w ts kept bound K value m)
    (hspares : Spares ts (exprVisits? fallback'))
    (hkeeps : ∀ e ∈ fallback'.toList, Keeps kept (eval w e))
    (hf : ∀ K' m', Grows K us K' → Stands w ts kept bound K' access m' →
      Simulates ts kept K' x (g m')) :
    Simulates ts kept K (do evalAll w held; x) (fallBack w m fallback' >>= g) := by
  cases h with
  | none => exact hf K m (.refl K []) hvalue
  | @some _ fallback' _ _ _ _ h hlowers =>
    rw [fallBack]
    simp only [bind_assoc, pure_bind]
    refine simulates_held h hus hvalue.settled hvalue.same fun K' v hK' hv => hf K' _ hK' ⟨rfl, by rintro _ ⟨⟩, ?_⟩
    rw [eval_orFallback]
    refine hv.same.bind_pure ?_
    split
    · exact .eval hw hspares (hkeeps _ (by simp))
    · exact hv.same

theorem simulates_readsKey {hasRest : Bool} {key key' : Key} {access excluded : Expr}
    (h : ReadsKey s bound hasRest key key' value held access excluded us)
    {g : Run σ Value × Run σ Value → Run σ β} (hus : Vacant ts K us)
    (hvalue : Stands w ts kept bound K value m) (hspares : Spares ts key'.visits)
    (hkeeps : ∀ e, key' = .computed e → Keeps kept (eval w e))
    (hsettled : ∀ e, hasRest = true → key' = .computed e → ∀ x, e = .ident x →
      e.isReusable bound = true → ∃ v, (x.name, v) ∈ K)
    (hf : ∀ K' r, Grows K us K' → Stands w ts kept bound K' access r.1 →
      Matches ts kept K' (eval w excluded) r.2 → Simulates ts kept K' x (g r)) :
    Simulates ts kept K (do evalAll w held; x) (readKey w (asWritten w) hasRest m key' >>= g) := by
  cases h with
  | name text =>
    refine hf K (_, _) (.refl K []) (.member ?_) (.pure _)
    rw [eval_dot]
    exact .property hw hvalue.same _
  | string text =>
    refine hf K (_, _) (.refl K []) ⟨?_, ?_, ?_⟩ (.pure _)
    · split <;> rfl
    · split <;> rintro _ ⟨⟩
    · rw [eval_ite_ofString]
      exact .property hw hvalue.same _
  | number source =>
    refine hf K (_, _) (.refl K []) (.lookup ?_) (.pure _)
    rw [eval_lookup_ofNumber]
    exact .property hw hvalue.same _
  | computed hlowers =>
    have hkey : Matches ts kept K (eval w excluded) _ := .eval hw hspares (hkeeps excluded rfl)
    refine hf K (_, _) (.refl K []) (.lookup ?_) hkey
    rw [eval_lookup]
    exact hvalue.same.bind fun _ => hkey.bind fun _ => .getProperty hw _ _
  | @held _ _ e' y _ _ hlowers h =>
    have hkey : Matches ts kept K (eval w e') _ := .eval hw hspares (hkeeps e' rfl)
    obtain ⟨z, rfl⟩ := held_isName h
    rw [readKey, if_pos rfl]
    simp only [bind_assoc, pure_bind]
    refine simulates_held h hus (hsettled e' rfl rfl) hkey fun K' k hK' hk => ?_
    refine hf K' (_, _) hK' (.lookup ?_) ?_
    · rw [eval_lookup]
      exact (hvalue.same.mono hK'.subset).bind fun v =>
        hk.same.bind_pure (.getProperty hw v k)
    · rw [eval_propertyKey]
      exact hk.same.bind_pure (.keyOf hw k)

end Steps
/-! ## Parts -/

def partCount : Part → Nat
  | .properties _ ps => ps.length
  | .slots _ es => es.length
  | .rest p => p.toList.length
  | _ => 0

def partHasRest : Part → Bool
  | .property hasRest _ | .properties hasRest _ => hasRest
  | _ => false

theorem count_of_takesApart {bound us : List String} {part part' : Part} {value : Expr}
    {exprs keys : List Expr} (h : TakesApart s bound part part' value exprs keys us) :
    partCount part' = partCount part := by
  induction h with
  | properties _ _ _ ih => exact congrArg (· + 1) ih
  | slots _ _ _ ih => exact congrArg (· + 1) ih
  | _ => rfl

/-- The keys that a rest leaves out are single values. -/
theorem isSpread_of_takesApart {bound us : List String} {part part' : Part} {value : Expr}
    {exprs keys : List Expr} (h : TakesApart s bound part part' value exprs keys us)
    (hrest : partHasRest part = true) : ∀ key ∈ keys, isSpread key = false := by
  induction h with
  | keyed hkey _ _ _ =>
    cases hkey with
    | computed => cases hrest
    | _ => exact List.forall_mem_singleton.mpr rfl
  | properties _ _ ihp ihps => exact List.forall_mem_append.mpr ⟨ihp hrest, ihps hrest⟩
  | shorthand => exact List.forall_mem_singleton.mpr rfl
  | _ =>
    intro key hkey
    cases hkey

section
variable (w s) (exclude : Exclusion σ) (m : Run σ Value)

theorem takePart_object (ps : List PatternProperty) (rest : Option Pattern) :
    takePart w s exclude m (.pattern (.object ps rest)) = (do
      let m ← holdUnlessOne (ps.length + rest.toList.length) m
      let keys ← takePart w s exclude m (.properties rest.isSome ps)
      takePart w s exclude (remaining w m keys) (.rest rest)) := by
  simp only [takePart, take, bind_assoc]

theorem takePart_array (es : List (Option PatternElement)) (rest : Option Pattern) :
    takePart w s exclude m (.pattern (.array es rest)) = (do
      let m ← holdUnlessOne (es.length + rest.toList.length) m
      let _ ← takePart w s exclude m (.slots 0 es)
      takePart w s exclude (elementsFrom w m es.length) (.rest rest)) := by
  simp only [takePart, take, bind_assoc, pure_bind]

theorem takePart_keyed (hasRest : Bool) (key : Key) (target : Pattern) (fallback : Option Expr) :
    takePart w s exclude m (.property hasRest (.keyed key target fallback)) = (do
      let r ← readKey w exclude hasRest m key
      let access ← fallBack w r.1 fallback
      let _ ← takePart w s exclude access (.pattern target)
      return [r.2]) := by
  simp only [takePart, takeProperty, bind_assoc, pure_bind]

theorem takePart_shorthand (hasRest : Bool) (x : Ident) (fallback : Option Expr) :
    takePart w s exclude m (.property hasRest (.shorthand x fallback)) = (do
      let access ← fallBack w (property w m (.string x.name)) fallback
      let _ ← bindTo w s x access
      return [exclude (.name x.name) (.string x.name)]) := by
  simp only [takePart, takeProperty, bind_assoc, pure_bind]

theorem takePart_properties (hasRest : Bool) (p : PatternProperty) (ps : List PatternProperty) :
    takePart w s exclude m (.properties hasRest (p :: ps)) = (do
      let keys ← takePart w s exclude m (.property hasRest p)
      let keys' ← takePart w s exclude m (.properties hasRest ps)
      return keys ++ keys') := by
  simp only [takePart, takeProperties, bind_assoc, pure_bind, List.singleton_append]

theorem takePart_element (target : Pattern) (fallback : Option Expr) :
    takePart w s exclude m (.slot (some ⟨target, fallback⟩)) = (do
      let access ← fallBack w m fallback
      takePart w s exclude access (.pattern target)) := by
  simp only [takePart, takeSlot, takeElement, bind_assoc]

theorem takePart_slots (index : Nat) (e : Option PatternElement)
    (es : List (Option PatternElement)) :
    takePart w s exclude m (.slots index (e :: es)) = (do
      let _ ← takePart w s exclude (element w m index) (.slot e)
      takePart w s exclude m (.slots (index + 1) es)) := by
  simp only [takePart, takeSlots, bind_assoc, pure_bind]

end

include hw

/-- By induction on how the part is taken apart. Whatever comes after the part knows the values of
the temporaries that the part has assigned. -/
theorem simulates_takePart {bound us : List String} {part part' : Part} {value : Expr}
    {exprs keys : List Expr} (h : TakesApart s bound part part' value exprs keys us) :
    ∀ {K : List (String × Value)} {m : Run σ Value} {x : Run σ β} {g : List (Run σ Value) → Run σ β},
      (∀ name ∈ kept, ∃ v, (name, v) ∈ K) → Vacant ts K us → Spares ts part'.visits →
      PartKeeps w bound kept part' → Stands w ts kept bound K value m →
      (∀ K' ms, Grows K us K' →
        List.Forall₂ (fun key m => Matches ts kept K' (eval w key) m) keys ms →
        Simulates ts kept K' x (g ms)) →
      Simulates ts kept K (do evalAll w exprs; x) (takePart w s (asWritten w) m part' >>= g) := by
  have hnamed_mono : ∀ {K K' : List (String × Value)} {us : List String}, Grows K us K' →
      (∀ name ∈ kept, ∃ v, (name, v) ∈ K) → ∀ name ∈ kept, ∃ v, (name, v) ∈ K' :=
    fun hK hnamed name hname => (hnamed name hname).imp fun _ hv => hK.subset hv
  induction h with
  | ident y value =>
    intro K m x g hnamed hus hspares hkeeps hvalue hf
    obtain ⟨-, hy⟩ := (covers_identPattern y).mp hspares
    have hkept : y.name ∉ kept := hkeeps.leaves (.ident y) (by simp [Part.leaves, Pattern.leaves])
    simp only [evalAll_singleton, eval_bindingAssignment, takePart, take, bind_assoc, pure_bind]
    exact .bind (.bindTo hw hy hkept hvalue.same) fun _ => hf K [] (.refl K []) .nil
  | @expr e e' value hlowers =>
    intro K m x g hnamed hus hspares hkeeps hvalue hf
    have htarget := (covers_exprPattern e').mp hspares
    have hkept : LeafKeeps w kept (.target e') :=
      hkeeps.leaves (.target e') (by simp [Part.leaves, Pattern.leaves])
    simp only [evalAll_singleton, eval_assignTo_expr, takePart, take, bind_assoc, pure_bind]
    exact .bind (.storeTo hw htarget hkept hvalue.same) fun _ => hf K [] (.refl K []) .nil
  | @object ps ps' rest rest' value y held exprs remaining keys us us' us'' hheld hps hrest ihps ihrest =>
    intro K m x g hnamed hus hspares hkeeps hvalue hf
    obtain ⟨hps', hrest'⟩ := (covers_append _ _).mp ((covers_cons _ _).mp hspares).2
    have hlength : ps'.length = ps.length := count_of_takesApart hps
    have hlength' : rest'.toList.length = rest.toList.length := count_of_takesApart hrest
    have hsome : rest.isSome = rest'.isSome := by
      cases rest <;> cases rest' <;> first | rfl | cases hlength'
    rw [hsome] at ihps
    rw [takePart_object, evalAll_append, evalAll_append, hlength, hlength']
    simp only [bind_assoc]
    refine simulates_heldUnlessOne hheld hus.left.left hvalue fun K₁ m₁ hK₁ hm₁ => ?_
    refine ihps (hnamed_mono hK₁ hnamed) (hus.left.right hK₁) hps' (hkeeps.sub
      (List.subset_append_left _ _) (List.subset_append_left _ _) (List.subset_append_left _ _))
      hm₁ fun K₂ ks hK₂ hks => ?_
    have hgrows := hK₁.trans hK₂
    cases hrest with
    | noRest =>
      exact hf K₂ [] ⟨hgrows.subset, fun p hp => (hgrows.named p hp).imp_right
        (List.mem_append_left _)⟩ .nil
    | @someRest p p' _ _ _ hp =>
      refine ihrest (hnamed_mono hgrows hnamed) (hus.right hgrows) hrest' (hkeeps.sub
        (List.subset_append_right _ _) (List.subset_append_right _ _)
        (List.subset_append_right _ _)) ⟨rfl, by rintro _ ⟨⟩, ?_⟩
        fun K₃ ms hK₃ hms => hf K₃ ms (hgrows.trans hK₃) hms
      rw [eval_restCall w hm₁.single (isSpread_of_takesApart hps rfl)]
      exact .remaining hw (hm₁.same.mono hK₂.subset) (List.forall₂_map_left_iff.mpr hks)
  | @array es es' rest rest' value y held exprs remaining us us' us'' hheld hes hrest ihes ihrest =>
    intro K m x g hnamed hus hspares hkeeps hvalue hf
    obtain ⟨hes', hrest'⟩ := (covers_append _ _).mp ((covers_cons _ _).mp hspares).2
    have hlength : es'.length = es.length := count_of_takesApart hes
    have hlength' : rest'.toList.length = rest.toList.length := count_of_takesApart hrest
    rw [takePart_array, evalAll_append, evalAll_append, hlength, hlength']
    simp only [bind_assoc]
    refine simulates_heldUnlessOne hheld hus.left.left hvalue fun K₁ m₁ hK₁ hm₁ => ?_
    refine ihes (hnamed_mono hK₁ hnamed) (hus.left.right hK₁) hes' (hkeeps.sub
      (List.subset_append_left _ _) (List.subset_append_left _ _) (List.subset_append_left _ _))
      hm₁ fun K₂ _ hK₂ _ => ?_
    have hgrows := hK₁.trans hK₂
    refine ihrest (hnamed_mono hgrows hnamed) (hus.right hgrows) hrest' (hkeeps.sub
      (List.subset_append_right _ _) (List.subset_append_right _ _)
      (List.subset_append_right _ _)) ⟨rfl, by rintro _ ⟨⟩, ?_⟩
      fun K₃ ms hK₃ hms => hf K₃ ms (hgrows.trans hK₃) hms
    rw [eval_restSlice]
    exact .elementsFrom hw (hm₁.same.mono hK₂.subset) _
  | noRest value =>
    intro K m x g hnamed hus hspares hkeeps hvalue hf
    exact hf K [] (.refl K []) .nil
  | someRest h ih =>
    intro K m x g hnamed hus hspares hkeeps hvalue hf
    exact ih hnamed hus hspares ⟨hkeeps.leaves, hkeeps.sources, hkeeps.heldKeys⟩ hvalue hf
  | @keyed hasRest key key' target target' fallback fallback' value access access' excluded held
      before exprs us us' us'' hkey hfallback htarget ih =>
    intro K m x g hnamed hus hspares hkeeps hvalue hf
    obtain ⟨hparts, hfallback'⟩ := (covers_append _ _).mp hspares
    obtain ⟨hkey', htarget'⟩ := (covers_append _ _).mp hparts
    rw [takePart_keyed, evalAll_append, evalAll_append]
    simp only [bind_assoc]
    refine simulates_readsKey hw hkey hus.left.left hvalue hkey' ?_ ?_ fun K₁ r hK₁ hr₁ hr₂ => ?_
    · rintro e rfl
      exact hkeeps.sources e (by simp [partSources, propertySources, keySources])
    · rintro e rfl rfl y rfl hreusable
      exact hnamed _ (hkeeps.heldKeys _ (by simp [partHeldKeys, propertyHeldKeys, keySources]) y
        rfl hreusable)
    refine simulates_fallsBack hw hfallback (hus.left.right hK₁) hr₁ hfallback' ?_
      fun K₂ m₂ hK₂ hm₂ => ?_
    · exact fun e he => hkeeps.sources e (List.mem_append_left _ (List.mem_append_right _ he))
    have hgrows := hK₁.trans hK₂
    refine ih (hnamed_mono hgrows hnamed) (hus.right hgrows) htarget' (hkeeps.sub
      (List.Subset.refl _) (List.subset_append_right _ _) (List.subset_append_right _ _)) hm₂
      fun K₃ _ hK₃ _ => ?_
    simp only [pure_bind]
    exact hf K₃ [r.2] (hgrows.trans hK₃)
      (.cons (hr₂.mono fun p hp => hK₃.subset (hK₂.subset hp)) .nil)
  | @shorthand hasRest fallback fallback' value access before us y hfallback =>
    intro K m x g hnamed hus hspares hkeeps hvalue hf
    obtain ⟨hy, hfallback'⟩ := (covers_cons _ _).mp hspares
    have hkept : y.name ∉ kept := hkeeps.leaves (.ident y) (List.mem_singleton_self _)
    rw [takePart_shorthand, evalAll_append, evalAll_singleton, eval_bindingAssignment]
    simp only [bind_assoc, pure_bind]
    refine simulates_fallsBack hw hfallback hus (.member ?_) hfallback' ?_
      fun K₁ m₁ hK₁ hm₁ => ?_
    · rw [eval_dot]
      exact .property hw hvalue.same _
    · exact hkeeps.sources
    · exact .bind (.bindTo hw ((admits_ident y).mp hy) hkept hm₁.same) fun _ =>
        hf K₁ _ hK₁ (.cons (.pure _) .nil)
  | noProperties value =>
    intro K m x g hnamed hus hspares hkeeps hvalue hf
    exact hf K [] (.refl K []) .nil
  | @properties hasRest p p' ps ps' value exprs more keys keys' us us' hp hps ihp ihps =>
    intro K m x g hnamed hus hspares hkeeps hvalue hf
    obtain ⟨hp', hps'⟩ := (covers_append _ _).mp hspares
    rw [takePart_properties, evalAll_append]
    simp only [bind_assoc, pure_bind]
    refine ihp hnamed hus.left hp' (hkeeps.sub (List.subset_append_left _ _)
      (List.subset_append_left _ _) (List.subset_append_left _ _)) hvalue fun K₁ ks hK₁ hks => ?_
    refine ihps (hnamed_mono hK₁ hnamed) (hus.right hK₁) hps' (hkeeps.sub
      (List.subset_append_right _ _) (List.subset_append_right _ _) (List.subset_append_right _ _))
      (hvalue.mono hK₁.subset) fun K₂ ks' hK₂ hks' => hf K₂ _ (hK₁.trans hK₂) ?_
    exact List.rel_append (hks.imp fun _ _ hk => hk.mono hK₂.subset) hks'
  | hole value =>
    intro K m x g hnamed hus hspares hkeeps hvalue hf
    exact hf K [] (.refl K []) .nil
  | @element target target' fallback fallback' value access before exprs us us' hfallback htarget ih =>
    intro K m x g hnamed hus hspares hkeeps hvalue hf
    obtain ⟨htarget', hfallback'⟩ := (covers_append _ _).mp hspares
    rw [takePart_element, evalAll_append]
    simp only [bind_assoc]
    refine simulates_fallsBack hw hfallback hus.left hvalue hfallback' ?_ fun K₁ m₁ hK₁ hm₁ => ?_
    · exact fun e he => hkeeps.sources e (List.mem_append_left _ he)
    exact ih (hnamed_mono hK₁ hnamed) (hus.right hK₁) htarget' (hkeeps.sub (List.Subset.refl _)
      (List.subset_append_right _ _) (List.Subset.refl _)) hm₁
      fun K₂ ms hK₂ hms => hf K₂ ms (hK₁.trans hK₂) hms
  | noSlots index value =>
    intro K m x g hnamed hus hspares hkeeps hvalue hf
    exact hf K [] (.refl K []) .nil
  | @slots index e e' es es' value exprs more us us' he hes ihe ihes =>
    intro K m x g hnamed hus hspares hkeeps hvalue hf
    obtain ⟨he', hes'⟩ := (covers_append _ _).mp hspares
    rw [takePart_slots, evalAll_append]
    simp only [bind_assoc]
    refine ihe hnamed hus.left he' (hkeeps.sub (List.subset_append_left _ _)
      (List.subset_append_left _ _) (List.subset_append_left _ _)) (.lookup ?_) fun K₁ _ hK₁ _ => ?_
    · rw [eval_lookup_ofNumber]
      exact .property hw hvalue.same _
    exact ihes (hnamed_mono hK₁ hnamed) (hus.right hK₁) hes' (hkeeps.sub
      (List.subset_append_right _ _) (List.subset_append_right _ _) (List.subset_append_right _ _))
      (hvalue.mono hK₁.subset) fun K₂ ms hK₂ hms => hf K₂ ms (hK₁.trans hK₂) hms

end
end RegisterForm.Dynamic
