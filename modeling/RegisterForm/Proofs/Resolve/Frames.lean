import RegisterForm.Proofs.Resolve.Follows
/-!
# Frames and tables

While steps are run on a table, its open scopes hold what the frames of the steps tell: each name
that a frame binds stands for the symbol which its first binding there declares. An identifier that
is resolved once and never declared keeps the meaning that it had where it was resolved.
-/
namespace RegisterForm
open BindStep

namespace NameTable
variable {t t' : NameTable} {k : ScopeId} {f : OpenScope} {fr : List OpenScope} {b : Binding} {x : Ident}

/-- A binding is the first one of its symbol. -/
structure Names (t : NameTable) (b : Binding) (id : SymbolId) : Prop where
  ident : t.ofIdent.lookup b.ident.id = some id
  symbol : ∃ s, t.symbol? id = some s ∧ s.name = b.ident.name ∧ s.declaration = b.ident.id

/-- A scope holds for each name what the first binding of that name declares. -/
structure Shows (t : NameTable) (k : ScopeId) (f : OpenScope) : Prop where
  scope : ∃ scope, t.scope? k = some scope ∧ scope.kind = f.kind
  missing : ∀ name, f.bindings.find? (·.ident.name == name) = none → t.lookupIn k name = none
  found : ∀ name b, f.bindings.find? (·.ident.name == name) = some b →
    ∃ id, t.lookupIn k name = some id ∧ t.Names b id

/-- The open scopes hold what the frames tell. -/
structure Mirrors (t : NameTable) (fr : List OpenScope) : Prop where
  wf : t.Wf
  all : List.Forall₂ t.Shows t.openScopes fr

/-- An identifier stands for the symbol that its name means in some scopes. -/
def Means (t : NameTable) (x : Ident) (scopes : Scopes) : Prop :=
  match scopes.find? x.name with
  | none => t.ofIdent.lookup x.id = none
  | some b => ∃ id, t.ofIdent.lookup x.id = some id ∧ t.Names b id

/-! ## What a step keeps -/

theorem Names.keep {id : SymbolId} (h : t.Names b id)
    (hi : t.ofIdent.lookup b.ident.id = some id → t'.ofIdent.lookup b.ident.id = some id)
    (hs : ∀ {s}, t.symbol? id = some s →
      ∃ s', t'.symbol? id = some s' ∧ s'.name = s.name ∧ s'.declaration = s.declaration) :
    t'.Names b id := by
  obtain ⟨s, hsym, hname, hdecl⟩ := h.symbol
  obtain ⟨s', hsym', hname', hdecl'⟩ := hs hsym
  exact ⟨hi h.ident, s', hsym', hname'.trans hname, hdecl'.trans hdecl⟩

theorem Shows.keep (h : t.Shows k f)
    (hk : ∀ {scope}, t.scope? k = some scope →
      ∃ scope', t'.scope? k = some scope' ∧ scope'.kind = scope.kind)
    (hl : ∀ name, t'.lookupIn k name = t.lookupIn k name)
    (hi : ∀ b ∈ f.bindings, ∀ id, t.ofIdent.lookup b.ident.id = some id →
      t'.ofIdent.lookup b.ident.id = some id)
    (hs : ∀ {id s}, t.symbol? id = some s →
      ∃ s', t'.symbol? id = some s' ∧ s'.name = s.name ∧ s'.declaration = s.declaration) :
    t'.Shows k f where
  scope := by
    obtain ⟨scope, hscope, hkind⟩ := h.scope
    obtain ⟨scope', hscope', hkind'⟩ := hk hscope
    exact ⟨scope', hscope', hkind'.trans hkind⟩
  missing name hnone := (hl name).trans (h.missing name hnone)
  found name b hb := by
    obtain ⟨id, hid, hnames⟩ := h.found name b hb
    exact ⟨id, (hl name).trans hid, hnames.keep (hi b (List.mem_of_find?_eq_some hb) id) hs⟩

theorem forall₂_of_mem {α β : Type} {R S : α → β → Prop} : ∀ {as : List α} {bs : List β},
    List.Forall₂ R as bs → (∀ a b, a ∈ as → b ∈ bs → R a b → S a b) → List.Forall₂ S as bs
  | _, _, .nil, _ => .nil
  | _, _, .cons h hrest, hall =>
    .cons (hall _ _ (by simp) (by simp) h)
      (forall₂_of_mem hrest fun a b ha hb => hall a b (by simp [ha]) (by simp [hb]))

theorem lookup_cons {α : Type} (y z : NodeId) (v : α) (l : List (NodeId × α)) :
    ((z, v) :: l).lookup y = if y = z then some v else l.lookup y := by
  by_cases h : y = z
  · simp [h]
  · simp [h, List.lookup_cons, beq_eq_false_iff_ne.mpr h]

/-! ## Resolving -/

/-- Resolving gives an identifier a meaning if it has none yet. -/
theorem resolve_lookup (x : Ident) (y : NodeId) (t : NameTable) :
    (t.resolve x).ofIdent.lookup y =
      if y = x.id then (t.ofIdent.lookup y).or (t.lookup? x.name) else t.ofIdent.lookup y := by
  unfold NameTable.resolve
  cases hold : t.ofIdent.lookup x.id with
  | some id =>
    by_cases hy : y = x.id <;> simp [hy, hold]
  | none =>
    cases hl : t.lookup? x.name with
    | none => by_cases hy : y = x.id <;> simp [hy, hold]
    | some id =>
      by_cases hy : y = x.id
      · simp [hy, hold]
      · simp [hy, lookup_cons]

theorem resolve_arenas (x : Ident) (t : NameTable) : (t.resolve x).scopes = t.scopes ∧
    (t.resolve x).symbols = t.symbols ∧ (t.resolve x).openScopes = t.openScopes := by
  unfold NameTable.resolve
  split
  · exact ⟨rfl, rfl, rfl⟩
  · split <;> exact ⟨rfl, rfl, rfl⟩

theorem bindSpecifier_eq (spec : ExportSpecifier) (t : NameTable) :
    ∃ refs, t.bindSpecifier spec = { t.resolve spec.source with ofSpecifier := refs } := by
  unfold NameTable.bindSpecifier
  dsimp only
  split <;> exact ⟨_, rfl⟩

/-! ## Declaring -/

section declareIn
variable {scope : Scope} (hscope : t.scope? k = some scope)
include hscope

theorem declareIn_lookupIn (j : ScopeId) (name : String) : (t.declareIn b k).lookupIn j name =
    if j = k ∧ name = b.ident.name then some ((t.lookupIn k name).getD t.symbols.size)
    else t.lookupIn j name := by
  have hin : ∀ name, t.lookupIn k name = scope.symbols.lookup name := fun name => by
    rw [lookupIn, hscope]
    rfl
  unfold declareIn
  rw [hscope]
  dsimp only
  cases hlook : scope.symbols.lookup b.ident.name with
  | some id =>
    change t.lookupIn j name = _
    split
    · next h => rw [h.1, hin, h.2, hlook]; rfl
    · rfl
  | none =>
    have hscope' : t.scopes[k]? = some scope := hscope
    by_cases hj : j = k
    · subst hj
      by_cases hn : name = b.ident.name
      · simp [lookupIn, scope?, Array.getElem?_modify, hscope', hn, hlook]
      · simp [lookupIn, scope?, Array.getElem?_modify, hscope', hn, List.lookup_cons,
          beq_eq_false_iff_ne.mpr hn]
    · simp [lookupIn, scope?, Array.getElem?_modify, hj, Ne.symm hj]

theorem declareIn_lookup (y : NodeId) : (t.declareIn b k).ofIdent.lookup y =
    if y = b.ident.id then some ((t.lookupIn k b.ident.name).getD t.symbols.size)
    else t.ofIdent.lookup y := by
  have hin : t.lookupIn k b.ident.name = scope.symbols.lookup b.ident.name := by
    rw [lookupIn, hscope]
    rfl
  unfold declareIn
  rw [hin, hscope]
  dsimp only
  cases scope.symbols.lookup b.ident.name <;> exact lookup_cons ..

/-- A name that is new to its scope has the symbol that its declaration makes. -/
theorem declareIn_names (hnew : t.lookupIn k b.ident.name = none) :
    (t.declareIn b k).Names b t.symbols.size := by
  have hlook : scope.symbols.lookup b.ident.name = none := by
    rw [lookupIn, hscope] at hnew
    exact hnew
  refine ⟨?_, ?_⟩
  · rw [declareIn_lookup hscope, if_pos rfl, hnew]
    rfl
  · have hdeclare : (t.declareIn b k).symbol? t.symbols.size = some (.declared k b) := by
      unfold declareIn
      rw [hscope]
      dsimp only
      rw [hlook]
      simp [symbol?, Symbol.declared]
    exact ⟨_, hdeclare, rfl, rfl⟩

end declareIn

/-- A frame in whose scope one more name is declared. -/
theorem Shows.declare (ht : t.Wf) (h : t.Shows k f) (hb : ∀ c ∈ f.bindings, c.ident.id ≠ b.ident.id) :
    (t.declareIn b k).Shows k { f with bindings := f.bindings ++ [b] } := by
  obtain ⟨scope, hscope, hkind⟩ := h.scope
  have hw : Within 0 [.ident b.ident] b.IsPlain t (t.declareIn b k) :=
    within_declareIn ht (Nat.zero_le _) (by simp)
  have hkeep : ∀ c ∈ f.bindings, ∀ id, t.Names c id → (t.declareIn b k).Names c id := by
    intro c hc id hnames
    refine hnames.keep (fun hid => ?_) fun hs => ?_
    · rwa [declareIn_lookup hscope, if_neg (hb c hc)]
    · obtain ⟨s', hs', hname, -, hdecl, -⟩ := hw.symbol hs
      exact ⟨s', hs', hname, hdecl⟩
  refine ⟨?_, fun name hnone => ?_, fun name c hc => ?_⟩
  · obtain ⟨scope', hscope', hkind'⟩ := hw.kind hscope
    exact ⟨scope', hscope', hkind'.trans hkind⟩
  · obtain ⟨hold, hlast⟩ : f.bindings.find? (·.ident.name == name) = none ∧
        b.ident.name ≠ name := by
      simpa [List.find?_append] using hnone
    rw [declareIn_lookupIn hscope, if_neg (fun he => hlast he.2.symm)]
    exact h.missing name hold
  · dsimp only at hc
    rw [List.find?_append] at hc
    cases hold : f.bindings.find? (·.ident.name == name) with
    | some c' =>
      rw [hold] at hc
      obtain rfl : c' = c := by simpa using hc
      obtain ⟨id, hid, hnames⟩ := h.found name c' hold
      refine ⟨id, ?_, hkeep c' (List.mem_of_find?_eq_some hold) id hnames⟩
      rw [declareIn_lookupIn hscope]
      split
      · rw [hid]; rfl
      · exact hid
    | none =>
      rw [hold, Option.none_or] at hc
      obtain ⟨hname, rfl⟩ : b.ident.name = name ∧ b = c := by
        by_cases hname : b.ident.name = name <;> simp_all
      have hnew : t.lookupIn k b.ident.name = none := hname ▸ h.missing name hold
      refine ⟨t.symbols.size, ?_, declareIn_names hscope hnew⟩
      rw [declareIn_lookupIn hscope, if_pos ⟨rfl, hname.symm⟩, ← hname, hnew]
      rfl

/-- The other scopes are kept as they are. -/
theorem Shows.declare_other {j : ScopeId} (ht : t.Wf) (h : t.Shows j f) (hj : j ≠ k)
    (hb : ∀ c ∈ f.bindings, c.ident.id ≠ b.ident.id) : (t.declareIn b k).Shows j f := by
  cases hscope : t.scope? k with
  | none =>
    have hsame : t.declareIn b k = t := by
      unfold declareIn
      rw [hscope]
    rwa [hsame]
  | some scope =>
    have hw : Within 0 [.ident b.ident] b.IsPlain t (t.declareIn b k) :=
      within_declareIn ht (Nat.zero_le _) (by simp)
    refine h.keep (fun hs => hw.kind hs) (fun name => ?_) (fun c hc id hid => ?_) fun hs => ?_
    · rw [declareIn_lookupIn hscope, if_neg (fun he => hj he.1)]
    · rwa [declareIn_lookup hscope, if_neg (hb c hc)]
    · obtain ⟨s', hs', hname, -, hdecl, -⟩ := hw.symbol hs
      exact ⟨s', hs', hname, hdecl⟩

/-! ## One step -/

theorem IsChain.lt_head : ∀ {i : ScopeId} {rest : List ScopeId}, t.IsChain (i :: rest) →
    ∀ j ∈ rest, j < i
  | i, l :: rest, ⟨_, hlt, hrest⟩, j, hj => by
    have hl : l < i := hlt l (by simp)
    rcases List.mem_cons.mp hj with rfl | hj
    · exact hl
    · exact Nat.lt_trans (hrest.lt_head j hj) hl

theorem IsChain.nodup : ∀ {l : List ScopeId}, t.IsChain l → l.Nodup
  | [], _ => .nil
  | _ :: _, h =>
    List.nodup_cons.mpr ⟨fun hm => Nat.lt_irrefl _ (h.lt_head _ hm), h.tail.nodup⟩

/-- No binding of a frame has the identity of `b`. -/
def Unbound (b : Binding) (fr : List OpenScope) : Prop :=
  ∀ f ∈ fr, ∀ c ∈ f.bindings, c.ident.id ≠ b.ident.id

theorem Mirrors.enter (h : t.Mirrors fr) (kind : ScopeKind) :
    (t.enter kind).Mirrors (⟨kind, []⟩ :: fr) := by
  refine ⟨h.wf.enter kind, .cons ⟨⟨_, scope?_enter_new kind t, rfl⟩, fun name _ => ?_, ?_⟩ ?_⟩
  · rw [lookupIn, scope?_enter_new]
    rfl
  · intro name b hb
    cases hb
  · refine h.all.imp fun k f hk => ?_
    obtain ⟨scope, hscope, -⟩ := hk.scope
    have hold : (t.enter kind).scope? k = t.scope? k := scope?_enter_old kind (scope?_lt hscope)
    refine hk.keep (fun hs => ⟨_, hold.trans hs, rfl⟩) (fun name => ?_) (fun _ _ _ hid => hid)
      fun hs => ⟨_, hs, rfl, rfl⟩
    rw [lookupIn, hold, lookupIn]

theorem Mirrors.leave (h : t.Mirrors fr) : t.leave.Mirrors fr.tail := by
  refine ⟨h.wf.leave, ?_⟩
  have htail : ∀ {ids : List ScopeId}, List.Forall₂ t.Shows ids fr →
      List.Forall₂ t.Shows ids.tail fr.tail
    | _, .nil => .nil
    | _, .cons _ hrest => hrest
  exact (htail h.all).imp fun k f hk => hk.keep (fun hs => ⟨_, hs, rfl⟩) (fun _ => rfl)
    (fun _ _ _ hid => hid) fun hs => ⟨_, hs, rfl, rfl⟩

/-- Nothing but the meaning of identifiers without a meaning is changed. -/
theorem Mirrors.of_arenas (h : t.Mirrors fr) (hs : t'.scopes = t.scopes)
    (hy : t'.symbols = t.symbols) (ho : t'.openScopes = t.openScopes)
    (hi : ∀ {y id}, t.ofIdent.lookup y = some id → t'.ofIdent.lookup y = some id) :
    t'.Mirrors fr := by
  have hscope : ∀ i, t'.scope? i = t.scope? i := fun i => congrArg (·[i]?) hs
  refine ⟨h.wf.of_arenas hs hy (ho ▸ Wf.isChain_of_scopes h.wf.opened hs), ?_⟩
  rw [ho]
  refine h.all.imp fun k f hk => hk.keep (fun hsc => ⟨_, (hscope _).trans hsc, rfl⟩)
    (fun name => ?_) (fun _ _ _ hid => hi hid) fun hsy => ⟨_, ?_, rfl, rfl⟩
  · rw [lookupIn, hscope, lookupIn]
  · exact (congrArg (·[_]?) hy).trans hsy

theorem Mirrors.resolve (h : t.Mirrors fr) (x : Ident) : (t.resolve x).Mirrors fr := by
  obtain ⟨hs, hy, ho⟩ := resolve_arenas x t
  refine h.of_arenas hs hy ho fun {y id} hid => ?_
  rw [resolve_lookup, hid]
  simp

theorem Mirrors.declare (h : t.Mirrors fr) (hb : Unbound b fr) :
    (t.declare b).Mirrors (OpenScope.declare b fr) := by
  unfold NameTable.declare
  have hall := h.all
  cases hopen : t.openScopes with
  | nil =>
    rw [hopen] at hall
    cases hall
    refine ⟨h.wf, ?_⟩
    change List.Forall₂ t.Shows t.openScopes []
    rw [hopen]
    exact .nil
  | cons k rest =>
    have hw : Within 0 [.ident b.ident] b.IsPlain t (t.declareIn b k) :=
      within_declareIn h.wf (Nat.zero_le _) (by simp)
    rw [hopen] at hall
    obtain _ | ⟨hfirst, hrest⟩ := hall
    have hchain := h.wf.opened
    rw [hopen] at hchain
    refine ⟨hw.wf, ?_⟩
    rw [List.head?_cons, hw.openScopes, hopen]
    refine .cons (hfirst.declare h.wf (hb _ (by simp))) ?_
    refine forall₂_of_mem hrest fun j f hj hf hshows => ?_
    exact hshows.declare_other h.wf (Nat.ne_of_lt (hchain.lt_head j hj)) (hb f (by simp [hf]))

/-- A scope that holds variables takes the declaration; those further in are passed over. -/
theorem shows_declareVar (ht : t.Wf) : ∀ {ids : List ScopeId} {fr : List OpenScope}, ids.Nodup →
    List.Forall₂ t.Shows ids fr → Unbound b fr →
    match ids.find? fun id => (t.scope? id).any (·.kind.holdsVars) with
    | none => OpenScope.declareVar b fr = fr
    | some k => List.Forall₂ (t.declareIn b k).Shows ids (OpenScope.declareVar b fr) := by
  intro ids fr hnodup hshows
  induction hshows with
  | nil => exact fun _ => rfl
  | @cons k f rest fr hfirst hrest ih =>
    intro hb
    obtain ⟨hk, hnodup⟩ := List.nodup_cons.mp hnodup
    obtain ⟨scope, hscope, hkind⟩ := hfirst.scope
    have hholds : (t.scope? k).any (·.kind.holdsVars) = f.kind.holdsVars := by
      rw [hscope, Option.any_some, hkind]
    have hb' : Unbound b fr := fun g hg => hb g (by simp [hg])
    rw [List.find?_cons, hholds]
    cases hvars : f.kind.holdsVars with
    | true =>
      simp only [OpenScope.declareVar, hvars, if_true]
      refine .cons (hfirst.declare ht (hb f (by simp))) ?_
      refine forall₂_of_mem hrest fun j g hj hg hshows => ?_
      exact hshows.declare_other ht (fun he => hk (he ▸ hj)) (hb' g hg)
    | false =>
      have ih := ih hnodup hb'
      simp only [OpenScope.declareVar, hvars, Bool.false_eq_true, if_false]
      cases hfind : rest.find? fun id => (t.scope? id).any (·.kind.holdsVars) with
      | none =>
        rw [hfind] at ih
        exact congrArg (f :: ·) ih
      | some j =>
        rw [hfind] at ih
        have hj : j ∈ rest := List.mem_of_find?_eq_some hfind
        exact .cons (hfirst.declare_other ht (fun he => hk (he ▸ hj)) (hb f (by simp))) ih

theorem Mirrors.declareVar (h : t.Mirrors fr) (hb : Unbound b fr) :
    (t.declareVar b).Mirrors (OpenScope.declareVar b fr) := by
  have hall := shows_declareVar h.wf h.wf.opened.nodup h.all hb
  unfold NameTable.declareVar varScope?
  cases hfind : t.openScopes.find? fun id => (t.scope? id).any (·.kind.holdsVars) with
  | none =>
    rw [hfind] at hall
    dsimp only at hall ⊢
    rwa [hall]
  | some k =>
    rw [hfind] at hall
    have hw : Within 0 [.ident b.ident] b.IsPlain t (t.declareIn b k) :=
      within_declareIn h.wf (Nat.zero_le _) (by simp)
    exact ⟨hw.wf, by rw [hw.openScopes]; exact hall⟩

/-- Each step does to the open scopes what it does to the frames. -/
theorem Mirrors.run (h : t.Mirrors fr) : (step : BindStep) →
    (∀ b, step.binding? = some b → Unbound b fr) → (step.run t).Mirrors (step.frames fr)
  | .enter kind, _ => h.enter kind
  | .leave, _ => h.leave
  | .declare b, hb => h.declare (hb b rfl)
  | .declareVar b, hb => h.declareVar (hb b rfl)
  | .resolve x, _ => h.resolve x
  | .refer spec, _ => by
    obtain ⟨refs, href⟩ := bindSpecifier_eq spec t
    have hr : (BindStep.refer spec).run t = { t.resolve spec.source with ofSpecifier := refs } := href
    rw [hr]
    exact (h.resolve spec.source).of_arenas rfl rfl rfl fun hid => hid

/-! ## What a step does to meanings -/

theorem Mirrors.lookup (h : t.Mirrors fr) (name : String) :
    match (OpenScope.scopes fr).find? name with
    | none => t.lookup? name = none
    | some b => ∃ id, t.lookup? name = some id ∧ t.Names b id := by
  have hall : ∀ {ids : List ScopeId} {fr : List OpenScope}, List.Forall₂ t.Shows ids fr →
      match (OpenScope.scopes fr).find? name with
      | none => ids.findSome? (t.lookupIn · name) = none
      | some b => ∃ id, ids.findSome? (t.lookupIn · name) = some id ∧ t.Names b id := by
    intro ids fr hall
    induction hall with
    | nil => rfl
    | @cons k f ids fr hfirst hrest ih =>
      simp only [OpenScope.scopes, Scopes.find?, List.map_cons, List.findSome?_cons] at ih ⊢
      cases hfind : f.bindings.find? (·.ident.name == name) with
      | none =>
        rw [hfirst.missing name hfind]
        exact ih
      | some b =>
        obtain ⟨id, hid, hnames⟩ := hfirst.found name b hfind
        rw [hid]
        exact ⟨id, rfl, hnames⟩
  rw [h.wf.lookup?_eq]
  exact hall h.all

/-- A meaning that a declaration does not change. -/
theorem declareIn_lookup_of_ne {y : NodeId} (hy : b.ident.id ≠ y) :
    (t.declareIn b k).ofIdent.lookup y = t.ofIdent.lookup y := by
  cases hscope : t.scope? k with
  | none =>
    unfold declareIn
    rw [hscope]
  | some scope => rw [declareIn_lookup hscope, if_neg hy.symm]

/-- What the steps of each sort do. -/
theorem run_cases (step : BindStep) (t : NameTable) :
    (∃ b, step.binding? = some b ∧ step.resolved? = none ∧
        (step.run t = t ∨ ∃ k, step.run t = t.declareIn b k)) ∨
      (∃ x refs, step.resolved? = some x ∧ step.binding? = none ∧
        step.run t = { t.resolve x with ofSpecifier := refs }) ∨
      (step.binding? = none ∧ step.resolved? = none ∧
        ((∃ kind, step.run t = t.enter kind) ∨ step.run t = t.leave)) := by
  cases step with
  | enter kind => exact .inr (.inr ⟨rfl, rfl, .inl ⟨kind, rfl⟩⟩)
  | leave => exact .inr (.inr ⟨rfl, rfl, .inr rfl⟩)
  | resolve x => exact .inr (.inl ⟨x, (t.resolve x).ofSpecifier, rfl, rfl, rfl⟩)
  | refer spec =>
    obtain ⟨refs, href⟩ := bindSpecifier_eq spec t
    exact .inr (.inl ⟨spec.source, refs, rfl, rfl, href⟩)
  | declare b =>
    refine .inl ⟨b, rfl, rfl, ?_⟩
    change t.declare b = t ∨ ∃ k, t.declare b = t.declareIn b k
    unfold NameTable.declare
    split
    · exact .inl rfl
    · exact .inr ⟨_, rfl⟩
  | declareVar b =>
    refine .inl ⟨b, rfl, rfl, ?_⟩
    change t.declareVar b = t ∨ ∃ k, t.declareVar b = t.declareIn b k
    unfold NameTable.declareVar
    split
    · exact .inl rfl
    · exact .inr ⟨_, rfl⟩

theorem run_wf (ht : t.Wf) (step : BindStep) : (step.run t).Wf := by
  rcases run_cases step t with ⟨b, -, -, hr | ⟨k, hr⟩⟩ | ⟨x, refs, -, -, hr⟩ |
    ⟨-, -, ⟨kind, hr⟩ | hr⟩ <;> rw [hr]
  · exact ht
  · have hw : Within 0 [.ident b.ident] b.IsPlain t (t.declareIn b k) :=
      within_declareIn ht (Nat.zero_le _) (by simp)
    exact hw.wf
  · have hw : Within 0 [.ident x] True t (t.resolve x) := within_resolve ht (by simp)
    exact hw.wf.of_arenas rfl rfl (Wf.isChain_of_scopes hw.wf.opened rfl)
  · exact ht.enter kind
  · exact ht.leave

/-- A step changes the meaning of no identifier but its own, and resolving changes none that there
is. -/
theorem lookup_run {y : NodeId} (step : BindStep)
    (hb : ∀ b, step.binding? = some b → b.ident.id ≠ y)
    (hx : (∀ x, step.resolved? = some x → x.id ≠ y) ∨ (t.ofIdent.lookup y).isSome) :
    (step.run t).ofIdent.lookup y = t.ofIdent.lookup y := by
  rcases run_cases step t with ⟨b, hsome, -, hr | ⟨k, hr⟩⟩ | ⟨x, refs, hsome, -, hr⟩ |
    ⟨-, -, ⟨kind, hr⟩ | hr⟩ <;> rw [hr]
  · exact declareIn_lookup_of_ne (hb b hsome)
  · change (t.resolve x).ofIdent.lookup y = _
    rw [resolve_lookup]
    rcases hx with hx | hy
    · rw [if_neg (hx x hsome).symm]
    · obtain ⟨id, hid⟩ := Option.isSome_iff_exists.mp hy
      simp [hid]
  · rfl
  · rfl

/-- An identifier that is neither declared nor resolved stands for nothing new. -/
theorem lookup_runAll_of_untouched {y : NodeId} : ∀ (σ : List BindStep) (t : NameTable),
    y ∉ (BindStep.declared σ).map (·.id) → y ∉ (BindStep.resolved σ).map (·.id) →
    (runAll σ t).ofIdent.lookup y = t.ofIdent.lookup y
  | [], _, _, _ => rfl
  | step :: σ, t, hd, hr => by
    rw [declared_cons, List.map_append, List.mem_append, not_or] at hd
    rw [resolved_cons, List.map_append, List.mem_append, not_or] at hr
    have hstep : (step.run t).ofIdent.lookup y = t.ofIdent.lookup y := by
      refine lookup_run step (fun b hb he => hd.1 ?_) (.inl fun x hx he => hr.1 ?_)
      · simp [hb, he]
      · simp [hx, he]
    rw [runAll_cons, lookup_runAll_of_untouched σ _ hd.2 hr.2, hstep]

/-- An identifier that stands for something and is not declared again goes on to stand for it. -/
theorem lookup_runAll_of_isSome {y : NodeId} : ∀ (σ : List BindStep) (t : NameTable),
    y ∉ (BindStep.declared σ).map (·.id) → (t.ofIdent.lookup y).isSome = true →
    (runAll σ t).ofIdent.lookup y = t.ofIdent.lookup y
  | [], _, _, _ => rfl
  | step :: σ, t, hd, hy => by
    rw [declared_cons, List.map_append, List.mem_append, not_or] at hd
    have hstep : (step.run t).ofIdent.lookup y = t.ofIdent.lookup y := by
      refine lookup_run step (fun b hb he => hd.1 ?_) (.inr hy)
      simp [hb, he]
    rw [runAll_cons, lookup_runAll_of_isSome σ _ hd.2 (hstep ▸ hy), hstep]

theorem symbol_run (ht : t.Wf) {id : SymbolId} {s : Symbol} (hs : t.symbol? id = some s)
    (step : BindStep) : ∃ s', (step.run t).symbol? id = some s' ∧ s'.name = s.name ∧
      s'.declaration = s.declaration := by
  rcases run_cases step t with ⟨b, -, -, hr | ⟨k, hr⟩⟩ | ⟨x, refs, -, -, hr⟩ |
    ⟨-, -, ⟨kind, hr⟩ | hr⟩ <;> rw [hr]
  · exact ⟨s, hs, rfl, rfl⟩
  · have hw : Within 0 [.ident b.ident] b.IsPlain t (t.declareIn b k) :=
      within_declareIn ht (Nat.zero_le _) (by simp)
    obtain ⟨s', hs', hname, -, hdecl, -⟩ := hw.symbol hs
    exact ⟨s', hs', hname, hdecl⟩
  · exact ⟨s, (congrArg (·[id]?) (resolve_arenas x t).2.1).trans hs, rfl, rfl⟩
  · exact ⟨s, hs, rfl, rfl⟩
  · exact ⟨s, hs, rfl, rfl⟩

/-- Resolving makes an identifier mean what its name means in the open scopes. -/
theorem Mirrors.resolved (h : t.Mirrors fr) {step : BindStep} (hx : step.resolved? = some x)
    (hnone : t.ofIdent.lookup x.id = none) : (step.run t).Means x (OpenScope.scopes fr) := by
  obtain ⟨refs, hrun, hb⟩ : ∃ refs, step.run t = { t.resolve x with ofSpecifier := refs } ∧
      step.binding? = none := by
    rcases run_cases step t with ⟨b, -, hno, -⟩ | ⟨y, refs, hy, hb, hr⟩ | ⟨-, hno, -⟩
    · rw [hx] at hno
      cases hno
    · obtain rfl : x = y := Option.some.inj (hx.symm.trans hy)
      exact ⟨refs, hr, hb⟩
    · rw [hx] at hno
      cases hno
  have hlook : (step.run t).ofIdent.lookup x.id = t.lookup? x.name := by
    rw [hrun]
    change (t.resolve x).ofIdent.lookup x.id = _
    rw [resolve_lookup, if_pos rfl, hnone, Option.none_or]
  have hmeans := h.lookup x.name
  unfold Means
  cases hfind : (OpenScope.scopes fr).find? x.name with
  | none =>
    rw [hfind] at hmeans
    exact hlook.trans hmeans
  | some b =>
    rw [hfind] at hmeans
    obtain ⟨id, hid, hnames⟩ := hmeans
    refine ⟨id, hlook.trans hid, hnames.keep (fun hl => ?_) fun hs => symbol_run h.wf hs step⟩
    rwa [lookup_run step (fun c hc => by rw [hb] at hc; cases hc) (.inr (by simp [hl]))]

theorem mem_of_find? {name : String} (h : (OpenScope.scopes fr).find? name = some b) :
    ∃ f ∈ fr, b ∈ f.bindings := by
  obtain ⟨bs, hbs, hb⟩ := List.exists_of_findSome?_eq_some h
  obtain ⟨f, hf, rfl⟩ := List.mem_map.mp hbs
  exact ⟨f, hf, List.mem_of_find?_eq_some hb⟩

/-! ## A run -/

variable {σ : List BindStep} {scopes : Scopes}

/-- No binding of a frame has an identity that the steps declare. -/
def Apart (fr : List OpenScope) (σ : List BindStep) : Prop :=
  ∀ f ∈ fr, ∀ b ∈ f.bindings, b.ident.id ∉ (BindStep.declared σ).map (·.id)

theorem Apart.unbound {step : BindStep} (h : Apart fr (step :: σ)) {b : Binding}
    (hb : step.binding? = some b) : Unbound b fr := by
  intro f hf c hc he
  refine h f hf c hc ?_
  simp [hb, he]

theorem Apart.tail {step : BindStep} (h : Apart fr (step :: σ))
    (hd : ((BindStep.declared (step :: σ)).map (·.id)).Nodup) : Apart (step.frames fr) σ := by
  have hold : Apart fr σ := by
    intro f hf b hb hm
    refine h f hf b hb ?_
    rw [declared_cons, List.map_append]
    exact List.mem_append_right _ hm
  have hnew : ∀ b, step.binding? = some b → b.ident.id ∉ (BindStep.declared σ).map (·.id) := by
    intro b hb hm
    rw [declared_cons, hb] at hd
    exact (List.nodup_cons.mp hd).1 hm
  have hsnoc : ∀ {f : OpenScope} {b : Binding}, f ∈ fr → step.binding? = some b →
      ∀ c ∈ f.bindings ++ [b], c.ident.id ∉ (BindStep.declared σ).map (·.id) := by
    intro f b hf hb c hc
    rcases List.mem_append.mp hc with hc | hc
    · exact hold f hf c hc
    · rw [List.mem_singleton.mp hc]
      exact hnew b hb
  cases step with
  | enter kind =>
    intro f hf b hb
    rcases List.mem_cons.mp hf with rfl | hf
    · cases hb
    · exact hold f hf b hb
  | leave => exact fun f hf => hold f (List.mem_of_mem_tail hf)
  | resolve x => exact hold
  | refer spec => exact hold
  | declare b =>
    cases fr with
    | nil => exact hold
    | cons f fr =>
      intro g hg c hc
      rcases List.mem_cons.mp hg with rfl | hg
      · exact hsnoc (List.mem_cons_self ..) rfl c hc
      · exact hold g (by simp [hg]) c hc
  | declareVar b =>
    have hall : ∀ gs : List OpenScope, gs ⊆ fr → ∀ g ∈ OpenScope.declareVar b gs, ∀ c ∈ g.bindings,
        c.ident.id ∉ (BindStep.declared σ).map (·.id) := by
      intro gs hgs
      induction gs with
      | nil => exact fun g hg => by cases hg
      | cons f gs ih =>
        intro g hg c hc
        have hrest := ih (List.subset_of_cons_subset hgs)
        rw [OpenScope.declareVar] at hg
        split at hg
        · rcases List.mem_cons.mp hg with rfl | hg
          · exact hsnoc (hgs (by simp)) rfl c hc
          · exact hold g (hgs (by simp [hg])) c hc
        · rcases List.mem_cons.mp hg with rfl | hg
          · exact hold _ (hgs (by simp)) c hc
          · exact hrest g hg c hc
    exact hall fr (List.Subset.refl _)

theorem ne_of_not_declared {step : BindStep} {y : NodeId}
    (hy : y ∉ (BindStep.declared (step :: σ)).map (·.id)) {b : Binding} (hb : step.binding? = some b) :
    b.ident.id ≠ y := by
  rintro rfl
  exact hy (by simp [hb])

theorem not_declared_tail {step : BindStep} {y : NodeId}
    (hy : y ∉ (BindStep.declared (step :: σ)).map (·.id)) : y ∉ (BindStep.declared σ).map (·.id) := by
  rw [declared_cons, List.map_append, List.mem_append] at hy
  exact fun hm => hy (.inr hm)

/-- What was resolved already and is not declared later is settled. -/
theorem Means.runAll : ∀ {σ : List BindStep} {t : NameTable}, t.Wf →
    (∀ b, scopes.find? x.name = some b → b.ident.id ∉ (BindStep.declared σ).map (·.id)) →
    x.id ∉ (BindStep.declared σ).map (·.id) → x.id ∉ (BindStep.resolved σ).map (·.id) → t.Means x scopes →
    (runAll σ t).Means x scopes
  | [], _, _, _, _, _, h => h
  | step :: σ, t, ht, hb, hx, hr, h => by
    have hr' : x.id ∉ (BindStep.resolved σ).map (·.id) ∧ ∀ y, step.resolved? = some y → y.id ≠ x.id := by
      rw [resolved_cons, List.map_append, List.mem_append, not_or] at hr
      refine ⟨hr.2, fun y hy he => hr.1 ?_⟩
      simp [hy, he]
    have hsame : (step.run t).ofIdent.lookup x.id = t.ofIdent.lookup x.id :=
      lookup_run step (fun b hb => ne_of_not_declared hx hb) (.inl hr'.2)
    rw [runAll_cons]
    refine Means.runAll (run_wf ht step) (fun b hfind => not_declared_tail (hb b hfind))
      (not_declared_tail hx) hr'.1 ?_
    unfold Means at h ⊢
    cases hfind : scopes.find? x.name with
    | none =>
      rw [hfind] at h
      exact hsame.trans h
    | some b =>
      rw [hfind] at h
      obtain ⟨id, hid, hnames⟩ := h
      refine ⟨id, hsame.trans hid, hnames.keep (fun hl => ?_) fun hs => symbol_run ht hs step⟩
      rwa [lookup_run step (fun c hc => ne_of_not_declared (hb b hfind) hc) (.inr (by simp [hl]))]

/-- An identifier that is resolved once and never declared means in the end what its name means in
the scopes that are open where it is resolved. -/
theorem Mirrors.means : ∀ {σ : List BindStep} {t : NameTable} {fr : List OpenScope}, t.Mirrors fr →
    Apart fr σ → ((BindStep.declared σ).map (·.id)).Nodup → ((BindStep.resolved σ).map (·.id)).Nodup →
    (x, scopes) ∈ trace σ fr → x.id ∉ (BindStep.declared σ).map (·.id) → t.ofIdent.lookup x.id = none →
    (runAll σ t).Means x scopes
  | step :: σ, t, fr, h, hapart, hd, hr, hx, hfresh, hnone => by
    have hrun : (step.run t).Mirrors (step.frames fr) :=
      h.run step fun b hb => hapart.unbound hb
    have hapart' := hapart.tail hd
    have hd' : ((BindStep.declared σ).map (·.id)).Nodup := by
      rw [declared_cons, List.map_append] at hd
      exact hd.of_append_right
    rw [resolved_cons, List.map_append] at hr
    rw [runAll_cons]
    rw [trace] at hx
    rcases List.mem_append.mp hx with hx | hx
    · -- The identifier is resolved by this step and by none of those that follow.
      obtain ⟨y, hy, he⟩ := List.mem_map.mp hx
      obtain ⟨rfl, rfl⟩ : y = x ∧ OpenScope.scopes fr = scopes := by simpa using he
      rw [Option.mem_toList] at hy
      have hlater : y.id ∉ (BindStep.resolved σ).map (·.id) := fun hm =>
        List.disjoint_of_nodup_append hr (by simp [hy]) hm
      refine Means.runAll hrun.wf (fun b hfind => ?_) (not_declared_tail hfresh) hlater ?_
      · obtain ⟨f, hf, hb⟩ := mem_of_find? hfind
        exact fun hm => hapart f hf b hb (by rw [declared_cons]; simp [hm])
      · exact h.resolved hy hnone
    · have hother : ∀ y, step.resolved? = some y → y.id ≠ x.id := by
        intro y hy he
        have hm : x ∈ BindStep.resolved σ := by
          rw [← map_fst_trace σ (step.frames fr)]
          exact List.mem_map_of_mem hx
        exact List.disjoint_of_nodup_append hr (a := x.id) (by simp [hy, he])
          (List.mem_map_of_mem hm)
      refine hrun.means hapart' hd' hr.of_append_right hx (not_declared_tail hfresh) ?_
      rw [lookup_run step (fun b hb => ne_of_not_declared hfresh hb) (.inl hother), hnone]

end NameTable
end RegisterForm
