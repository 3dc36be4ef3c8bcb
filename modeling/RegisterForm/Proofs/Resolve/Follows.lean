import RegisterForm.Proofs.Scope.Module
import RegisterForm.Proofs.Resolve.Steps
import RegisterForm.Proofs.Resolve.Uses
/-!
# The steps of a part and its references

The steps of a part can be run on the open scopes alone, as far as these hold bindings. Run in that
way, the steps of every part close the scopes that they open, and where they resolve a reference,
the bindings in the open scopes are those that the reference sees.
-/
namespace RegisterForm

/-- An open scope, as far as the steps tell what it holds. -/
structure OpenScope where
  kind : ScopeKind
  bindings : List Binding

namespace OpenScope

def scopes (fr : List OpenScope) : Scopes := fr.map (·.bindings)

def declare (b : Binding) : List OpenScope → List OpenScope
  | [] => []
  | f :: fr => { f with bindings := f.bindings ++ [b] } :: fr

def declareVar (b : Binding) : List OpenScope → List OpenScope
  | [] => []
  | f :: fr =>
    if f.kind.holdsVars then { f with bindings := f.bindings ++ [b] } :: fr
    else f :: declareVar b fr

end OpenScope

namespace BindStep

def frames : BindStep → List OpenScope → List OpenScope
  | enter kind, fr => ⟨kind, []⟩ :: fr
  | leave, fr => fr.tail
  | declare b, fr => OpenScope.declare b fr
  | declareVar b, fr => OpenScope.declareVar b fr
  | resolve _, fr | refer _, fr => fr

def framesAfter (σ : List BindStep) (fr : List OpenScope) : List OpenScope :=
  σ.foldl (fun fr step => step.frames fr) fr

/-- The identifiers that the steps resolve, with the bindings in the open scopes. -/
def trace : List BindStep → List OpenScope → List (Ident × Scopes)
  | [], _ => []
  | step :: σ, fr =>
    step.resolved?.toList.map (·, OpenScope.scopes fr) ++ trace σ (step.frames fr)

section lists
variable (σ τ : List BindStep) (fr : List OpenScope)

@[simp] theorem framesAfter_nil : framesAfter [] fr = fr := rfl

@[simp] theorem framesAfter_cons (step : BindStep) :
    framesAfter (step :: σ) fr = framesAfter σ (step.frames fr) := rfl

@[simp] theorem framesAfter_append :
    framesAfter (σ ++ τ) fr = framesAfter τ (framesAfter σ fr) := List.foldl_append

@[simp] theorem trace_append : trace (σ ++ τ) fr = trace σ fr ++ trace τ (framesAfter σ fr) := by
  induction σ generalizing fr with
  | nil => rfl
  | cons step σ ih => simp [trace, ih]

theorem map_fst_trace : (trace σ fr).map Prod.fst = resolved σ := by
  induction σ generalizing fr with
  | nil => rfl
  | cons step σ ih =>
    rw [trace, resolved_cons, List.map_append, ih, List.map_map]
    simp [Function.comp_def]

theorem trace_of_resolved {σ : List BindStep} (h : resolved σ = []) : trace σ fr = [] :=
  List.map_eq_nil_iff.mp ((map_fst_trace σ fr).trans h)

/-- What is around the steps stands around everything that they resolve. -/
def Relative (σ : List BindStep) : Prop :=
  ∀ fr, trace σ fr = (trace σ []).map fun r => (r.1, r.2 ++ OpenScope.scopes fr)

end lists

section declaring
variable (bs cs : List Binding) (fr : List OpenScope) (kind : ScopeKind)

theorem framesAfter_declaring :
    framesAfter (declaring bs) (⟨kind, cs⟩ :: fr) = ⟨kind, cs ++ bs⟩ :: fr := by
  induction bs generalizing cs with
  | nil => simp [declaring]
  | cons b bs ih =>
    have hstep : framesAfter (declaring (b :: bs)) (⟨kind, cs⟩ :: fr) =
        framesAfter (declaring bs) (⟨kind, cs ++ [b]⟩ :: fr) := rfl
    rw [hstep, ih]
    simp

theorem framesAfter_declaringVars (h : kind.holdsVars = true) :
    framesAfter (declaringVars bs) (⟨kind, cs⟩ :: fr) = ⟨kind, cs ++ bs⟩ :: fr := by
  induction bs generalizing cs with
  | nil => simp [declaringVars]
  | cons b bs ih =>
    have hstep : framesAfter (declaringVars (b :: bs)) (⟨kind, cs⟩ :: fr) =
        framesAfter (declaringVars bs) (⟨kind, cs ++ [b]⟩ :: fr) := by
      change framesAfter (declaringVars bs) (OpenScope.declareVar b _) = _
      simp [OpenScope.declareVar, h]
    rw [hstep, ih]
    simp

@[simp] theorem declared_declaring : declared (declaring bs) = bs.map (·.ident) := by
  induction bs with
  | nil => rfl
  | cons b bs ih => exact congrArg (b.ident :: ·) ih

@[simp] theorem declared_declaringVars : declared (declaringVars bs) = bs.map (·.ident) := by
  induction bs with
  | nil => rfl
  | cons b bs ih => exact congrArg (b.ident :: ·) ih

@[simp] theorem resolved_declaring : resolved (declaring bs) = [] := by
  induction bs with
  | nil => rfl
  | cons b bs ih => exact ih

@[simp] theorem resolved_declaringVars : resolved (declaringVars bs) = [] := by
  induction bs with
  | nil => rfl
  | cons b bs ih => exact ih

section
variable {kind : ScopeKind} {σ : List BindStep}

@[simp] theorem resolved_inside : resolved (inside kind σ) = resolved σ := by
  simp [inside, BindStep.resolved?]

@[simp] theorem resolved_insideIf (wanted : Bool) :
    resolved (insideIf wanted kind σ) = resolved σ := by
  cases wanted <;> simp [insideIf]

@[simp] theorem resolved_insideName (isExpression : Bool) (name : Option Ident) (roles : Roles) :
    resolved (insideName isExpression name roles σ) = resolved σ := by
  cases name <;> cases isExpression <;> simp [insideName, BindStep.resolved?]

@[simp] theorem resolved_declaringBody (inModule : Bool) (body : List Stmt) :
    resolved (declaringBody inModule body) = [] := by
  simp [declaringBody]

end

theorem runAll_declaring (t : NameTable) : runAll (declaring bs) t = t.declareAll bs := by
  induction bs generalizing t with
  | nil => rfl
  | cons b bs ih => exact ih (t.declare b)

theorem runAll_declaringVars (t : NameTable) : runAll (declaringVars bs) t = t.declareVars bs := by
  induction bs generalizing t with
  | nil => rfl
  | cons b bs ih => exact ih (t.declareVar b)

end declaring

/-! ## Opening a scope -/

/-- The steps `π` fill a scope of some kind that was just opened with the bindings `bs`. -/
structure Fills (kind : ScopeKind) (bs : List Binding) (g : NameTable → NameTable)
    (π : List BindStep) : Prop where
  bind : ∀ t, g t = runAll π t
  frames : ∀ fr, framesAfter π (⟨kind, []⟩ :: fr) = ⟨kind, bs⟩ :: fr
  declared : declared π = bs.map (·.ident)
  resolved : resolved π = []

namespace Fills
variable {kind : ScopeKind}

theorem declaring (bs : List Binding) :
    Fills kind bs (·.declareAll bs) (BindStep.declaring bs) where
  bind t := (runAll_declaring bs t).symm
  frames fr := framesAfter_declaring bs [] fr kind
  declared := declared_declaring bs
  resolved := resolved_declaring bs

/-- The parameters of a function and what its body declares share a scope. -/
theorem body (params : List Binding) (stmts : List Stmt) :
    Fills .function (params ++ bodyBindings stmts)
      (fun t => (t.declareAll params).declareBody false stmts)
      (BindStep.declaring params ++ declaringBody false stmts) where
  bind t := by
    simp only [NameTable.declareBody, declaringBody, runAll_append, runAll_declaring,
      runAll_declaringVars]
  frames fr := by
    simp only [declaringBody, framesAfter_append, framesAfter_declaring,
      framesAfter_declaringVars _ _ _ .function rfl]
    simp [bodyBindings]
  declared := by simp [declaringBody, bodyBindings]
  resolved := by simp [declaringBody]

end Fills
end BindStep

open BindStep NameTable

/-- The references that no table tells of. -/
def tooDeep (us : List NameUse) : List Ident :=
  (us.filter fun u => maxTreeDepth < u.depth).map (·.ident)

@[simp] theorem tooDeep_nil : tooDeep [] = [] := rfl

@[simp] theorem tooDeep_append (us vs : List NameUse) :
    tooDeep (us ++ vs) = tooDeep us ++ tooDeep vs := by
  simp [tooDeep]

theorem count_tooDeep (us : List NameUse) (x : Ident) :
    (tooDeep us).count x ≤ (us.map (·.ident)).count x :=
  ((List.filter_sublist).map _).count_le x

theorem tooDeep_of_le {us : List NameUse} (h : ∀ u ∈ us, u.depth ≤ maxTreeDepth) :
    tooDeep us = [] := by
  rw [tooDeep, List.map_eq_nil_iff, List.filter_eq_nil_iff]
  exact fun u hu => by simpa using h u hu

/-- The steps `σ` are what `f` does to bind a part of the tree with the visits `vs`, the references
`us` and the identifiers `own`, which are declared around the part. -/
structure Follows (vs : List Visit) (own : List Ident) (f : NameTable → NameTable)
    (σ : Nat → List BindStep) (us : Scopes → Nat → List NameUse) : Prop where
  bind : ∀ t, f t = runAll (σ t.depth) t
  closed : ∀ d fr, framesAfter (σ d) fr = fr
  relative : ∀ d, Relative (σ d)
  /-- A reference that is not too deep is resolved where its scopes are open. -/
  traced : ∀ {d fr u}, u ∈ us (OpenScope.scopes fr) d → u.depth ≤ maxTreeDepth →
    (u.ident, u.scopes) ∈ trace (σ d) fr
  deep : ∀ {s d u}, u ∈ us s d → d ≤ u.depth
  /-- No identifier is declared twice, and none that is declared is a reference. -/
  counted : ∀ s d x, (declared (σ d)).count x + ((us s d).map (·.ident)).count x + own.count x ≤
    (identsIn vs).count x
  /-- No identifier is resolved twice, and no reference that is too deep is. -/
  once : ∀ s {d} x, d ≤ maxTreeDepth →
    (resolved (σ d)).count x + (tooDeep (us s d)).count x ≤ (identsIn vs).count x

namespace Follows
variable {vs vs' : List Visit} {own own' : List Ident} {f f' g : NameTable → NameTable}
  {σ σ' : Nat → List BindStep} {us us' : Scopes → Nat → List NameUse} {kind : ScopeKind}
  {bs : List Binding} {π : List BindStep}

theorem own_subset (h : Follows vs own f σ us) : own ⊆ identsIn vs := by
  intro x hx
  have hcount := h.counted [] 0 x
  have hpos := List.count_pos_iff.mpr hx
  exact List.count_pos_iff.mp (by omega)

theorem declared_subset (h : Follows vs own f σ us) (d : Nat) :
    BindStep.declared (σ d) ⊆ identsIn vs := by
  intro x hx
  have hcount := h.counted [] d x
  have hpos := List.count_pos_iff.mpr hx
  exact List.count_pos_iff.mp (by omega)

theorem resolved_subset (h : Follows vs own f σ us) {d : Nat} (hd : d ≤ maxTreeDepth) :
    BindStep.resolved (σ d) ⊆ identsIn vs := by
  intro x hx
  have hcount := h.once [] x hd
  have hpos := List.count_pos_iff.mpr hx
  exact List.count_pos_iff.mp (by omega)

/-- A part of which only names are read, and these by what stands around it. -/
theorem skip (ho : ∀ x, own.count x ≤ (identsIn vs).count x) :
    Follows vs own id (fun _ => []) fun _ _ => [] where
  bind _ := rfl
  closed _ _ := rfl
  relative _ _ := rfl
  traced h := by simp at h
  deep h := by simp at h
  counted _ _ x := by simpa using ho x
  once _ _ _ _ := by simp

theorem leaf : Follows vs [] id (fun _ => []) fun _ _ => [] := skip fun _ => Nat.zero_le _

theorem mono (h : Follows vs own f σ us)
    (hv : ∀ x, (identsIn vs).count x ≤ (identsIn vs').count x)
    (ho : ∀ x, own'.count x ≤ own.count x) : Follows vs' own' f σ us :=
  { h with
    counted := fun s d x => by
      have hc := h.counted s d x
      have hv := hv x
      have ho := ho x
      omega
    once := fun s _ x hd => Nat.le_trans (h.once s x hd) (hv x) }

/-- The same steps with some references left out. -/
theorem drop (h : Follows vs own f σ us) : Follows vs own f σ fun _ _ => [] :=
  { h with
    traced := fun hu => by simp at hu
    deep := fun hu => by simp at hu
    counted := fun s d x => by
      have hc := h.counted s d x
      simp only [List.map_nil, List.count_nil]
      omega
    once := fun s _ x hd => by
      have hc := h.once s x hd
      simp only [tooDeep_nil, List.count_nil]
      omega }

theorem of_eq (h : Follows vs own f σ us) (hf : ∀ t, f' t = f t) (hσ : ∀ d, σ' d = σ d)
    (hu : ∀ s d, us' s d = us s d) : Follows vs own f' σ' us' := by
  rw [funext hf, funext hσ, funext fun s => funext (hu s)]
  exact h

theorem resolve (x : Ident) :
    Follows [.ident x] [] (·.resolve x) (fun _ => [.resolve x]) fun s d => [⟨x, s, d⟩] where
  bind _ := rfl
  closed _ _ := rfl
  relative _ _ := rfl
  traced h _ := by
    obtain rfl := List.mem_singleton.mp h
    simp [trace, BindStep.resolved?]
  deep h := by
    obtain rfl := List.mem_singleton.mp h
    exact Nat.le_refl _
  counted _ _ y := by simp [BindStep.binding?]
  once s d y hd := by
    have hnone : tooDeep [⟨x, s, d⟩] = [] := tooDeep_of_le (by simpa using hd)
    simp [BindStep.resolved?, hnone]

/-- An identifier that is declared around a pattern is resolved in it all the same. -/
theorem declared (x : Ident) :
    Follows [.ident x] [x] (·.resolve x) (fun _ => [.resolve x]) fun _ _ => [] where
  bind _ := rfl
  closed _ _ := rfl
  relative _ _ := rfl
  traced h := by simp at h
  deep h := by simp at h
  counted _ _ y := by simp [BindStep.binding?]
  once _ _ y _ := by simp [BindStep.resolved?]

theorem comp (h : Follows vs own f σ us) (h' : Follows vs' own' f' σ' us') :
    Follows (vs ++ vs') (own ++ own') (fun t => f' (f t)) (fun d => σ d ++ σ' d)
      fun s d => us s d ++ us' s d where
  bind t := by
    have hdepth : (f t).depth = t.depth := by rw [h.bind, depth_runAll]
    rw [runAll_append, ← h.bind, h'.bind, hdepth]
  closed d fr := by rw [framesAfter_append, h.closed, h'.closed]
  relative d fr := by
    rw [trace_append, trace_append, h.closed, h.closed, h.relative d fr, h'.relative d fr,
      List.map_append]
  traced {d fr u} hu hd := by
    rw [trace_append, h.closed, List.mem_append]
    exact (List.mem_append.mp hu).imp (h.traced · hd) (h'.traced · hd)
  deep hu := (List.mem_append.mp hu).elim h.deep h'.deep
  counted s d x := by
    have h₁ := h.counted s d x
    have h₂ := h'.counted s d x
    simp only [declared_append, List.map_append, identsIn_append, List.count_append]
    omega
  once s d x hd := by
    have h₁ := h.once s x hd
    have h₂ := h'.once s x hd
    simp only [resolved_append, tooDeep_append, identsIn_append, List.count_append]
    omega

/-- What binds nothing of its own is a part like its inside, one level deeper. -/
theorem deeper (h : Follows vs own f σ us) :
    Follows vs own (·.deeper f) (fun d => nested d σ) fun s d => us s (d + 1) where
  bind t := by
    dsimp only [NameTable.deeper, nested]
    split
    · rw [h.bind]
      dsimp only
      rw [runAll_withDepth]
      dsimp only
      rw [Nat.add_sub_cancel, ← runAll_withDepth]
    · rfl
  closed d fr := by
    unfold nested
    split
    · exact h.closed _ fr
    · rfl
  relative d := by
    unfold nested
    split
    · exact h.relative _
    · exact fun _ => rfl
  traced {d fr u} hu hd := by
    have hlt : d < maxTreeDepth := Nat.lt_of_lt_of_le (h.deep hu) hd
    rw [nested, if_pos hlt]
    exact h.traced hu hd
  deep hu := Nat.le_of_succ_le (h.deep hu)
  counted s d x := by
    have hc := h.counted s (d + 1) x
    unfold nested
    split
    · exact hc
    · simp only [declared_nil, List.count_nil]
      omega
  once s d x _ := by
    unfold nested
    split
    · next hlt => exact h.once s x hlt
    · have hc := h.counted s (d + 1) x
      have hdeep := count_tooDeep (us s (d + 1)) x
      simp only [resolved_nil, List.count_nil]
      omega

theorem node {v : Visit} (hv : v.ident? = none) (h : Follows vs own f σ us) :
    Follows (v :: vs) own (·.deeper f) (nested · σ) fun s d => us s (d + 1) := by
  have hidents : identsIn (v :: vs) = identsIn vs := by
    unfold identsIn
    rw [List.filterMap_cons, hv]
  refine h.deeper.mono (fun x => Nat.le_of_eq ?_) fun x => Nat.le_refl _
  rw [hidents]

/-- A scope for what a part declares in it. -/
theorem inside (hπ : Fills kind bs g π) (h : Follows vs (bs.map (·.ident) ++ own) f σ us) :
    Follows vs own (·.inScope kind fun t => f (g t)) (fun d => inside kind (π ++ σ d))
      fun s d => us (bs :: s) d where
  bind t := by
    have hdepth : (g (t.enter kind)).depth = t.depth := by
      rw [hπ.bind, depth_runAll]
      rfl
    simp only [NameTable.inScope, BindStep.inside, runAll_cons, runAll_append, runAll_nil]
    rw [h.bind, hdepth, hπ.bind]
    rfl
  closed d fr := by
    simp only [BindStep.inside, framesAfter_cons, framesAfter_append, BindStep.frames,
      hπ.frames, h.closed, framesAfter_nil, List.tail_cons]
  relative d fr := by
    have hinside : ∀ gs, trace (BindStep.inside kind (π ++ σ d)) gs =
        trace (σ d) (⟨kind, bs⟩ :: gs) := by
      intro gs
      simp [BindStep.inside, trace, BindStep.frames, BindStep.resolved?, hπ.frames,
        trace_of_resolved _ hπ.resolved]
    rw [hinside, hinside, h.relative d, h.relative d [_]]
    simp [OpenScope.scopes, Function.comp_def]
  traced {d fr u} hu hd := by
    have hmem : (u.ident, u.scopes) ∈ trace (σ d) (⟨kind, bs⟩ :: fr) := h.traced hu hd
    simp only [BindStep.inside, trace, trace_append, BindStep.frames, hπ.frames,
      List.mem_append]
    exact .inr (.inl (.inr hmem))
  deep hu := h.deep hu
  counted s d x := by
    have hc := h.counted (bs :: s) d x
    simp only [List.count_append] at hc
    simp only [BindStep.inside, declared_cons, declared_append, declared_nil, hπ.declared,
      BindStep.binding?, Option.toList_none, List.map_nil, List.nil_append, List.append_nil,
      List.count_append]
    omega
  once s d x hd := by
    have hc := h.once (bs :: s) x hd
    simpa [BindStep.inside, hπ.resolved, BindStep.resolved?] using hc

/-- A loop with a lexical head has a scope for it. -/
theorem insideIf {wanted : Bool} (hw : wanted = false → bs = [])
    (h : Follows vs (bs.map (·.ident) ++ own) f σ us) :
    Follows vs own (·.inScopeIf wanted .block fun t => f (t.declareAll bs))
      (fun d => insideIf wanted .block (declaring bs ++ σ d))
      fun s d => us (s.openedIf wanted bs) d := by
  cases wanted with
  | true => exact h.inside (.declaring bs)
  | false =>
    obtain rfl := hw rfl
    exact h

/-- The names of a local export clause are references like others. -/
theorem refer (spec : ExportSpecifier) :
    Follows spec.visits [] (·.bindSpecifier spec) (fun _ => [.refer spec])
      fun s d => [⟨spec.source, s, d⟩] := by
  have hidents : identsIn spec.visits = [spec.source] := by
    have h := identsIn_specifiers [spec]
    simpa using h
  exact {
    bind := fun _ => rfl
    closed := fun _ _ => rfl
    relative := fun _ _ => rfl
    traced := fun h _ => by
      obtain rfl := List.mem_singleton.mp h
      simp [trace, BindStep.resolved?]
    deep := fun h => by
      obtain rfl := List.mem_singleton.mp h
      exact Nat.le_refl _
    counted := fun _ _ x => by simp [BindStep.binding?, hidents]
    once := fun s d x hd => by
      have hnone : tooDeep [⟨spec.source, s, d⟩] = [] := tooDeep_of_le (by simpa using hd)
      simp [BindStep.resolved?, hidents, hnone] }

theorem referAll : (specs : List ExportSpecifier) →
    Follows (specs.flatMap (·.visits)) [] (·.bindSpecifiers specs) (fun _ => specs.map .refer)
      fun s d => specs.map fun spec => ⟨spec.source, s, d⟩
  | [] => leaf
  | spec :: specs => (refer spec).comp (referAll specs)

/-- One more name that is declared around a part. -/
theorem named (y : Ident) (h : Follows vs own f σ us) :
    Follows (.ident y :: vs) ([y] ++ own) f σ us :=
  { h with
    counted := fun s d x => by
      have hc := h.counted s d x
      simp only [List.count_append, identsIn_ident, List.count_cons, List.count_nil]
      omega
    once := fun s _ x hd => by
      have hc := h.once s x hd
      simp only [identsIn_ident, List.count_cons]
      omega }

/-- The name of an expression has a scope of its own; that of a declaration is declared around it. -/
theorem insideName (roles : Roles) (isExpression : Bool) (name : Option Ident)
    (h : Follows vs own f σ us) :
    Follows (name.toList.map .ident ++ vs) ((if isExpression then [] else name.toList) ++ own)
      (·.inNameScope isExpression name roles f)
      (fun d => insideName isExpression name roles (σ d))
      fun s d => us (s.named isExpression name roles) d := by
  cases name with
  | none => exact h.mono (fun x => Nat.le_refl _) fun x => by simp
  | some y =>
    cases isExpression with
    | true => exact (h.named y).inside (.declaring [⟨y, roles, none⟩])
    | false => exact h.named y

end Follows
end RegisterForm
