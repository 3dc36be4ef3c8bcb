import RegisterForm.Proofs.Scope.Arena
import RegisterForm.Proofs.Tree.WellFormed
/-!
# What binding changes

While a part of the tree is bound, only scopes from some number on gain declarations, only
identifiers of that part come to stand for symbols, and open scopes and depth are restored.
-/
namespace RegisterForm

/-- A binding that neither exports nor imports its name. -/
def Binding.IsPlain (b : Binding) : Prop := b.roles.isExported = false ∧ b.origin = none

namespace NameTable

/-- `t'` comes from `t` by declaring in scopes from `k` on and by letting identifiers of `vs`
stand for symbols. If `plain` holds, nothing exported or imported was declared. -/
structure Within (k : ScopeId) (vs : List Visit) (plain : Prop) (t t' : NameTable) : Prop where
  wf : t'.Wf
  file : t'.file = t.file
  openScopes : t'.openScopes = t.openScopes
  depth : t'.depth = t.depth
  size : t.scopes.size ≤ t'.scopes.size
  scope : ∀ {i scope}, i < k → t.scope? i = some scope → t'.scope? i = some scope
  kind : ∀ {i scope}, t.scope? i = some scope →
    ∃ scope', t'.scope? i = some scope' ∧ scope'.kind = scope.kind
  symbol : ∀ {id s}, t.symbol? id = some s → ∃ s', t'.symbol? id = some s' ∧ s'.name = s.name ∧
    s'.scope = s.scope ∧ s'.declaration = s.declaration ∧ (s.scope < k → s' = s)
  fresh : ∀ {id s'}, t.symbol? id = none → t'.symbol? id = some s' → k ≤ s'.scope
  plain : plain → ∀ {id s'}, t'.symbol? id = some s' →
    (s'.roles.isExported = false ∧ s'.origin = none) ∨
      ∃ s, t.symbol? id = some s ∧ s.roles.isExported = s'.roles.isExported ∧ s.origin = s'.origin
  ident : ∀ {id}, (∀ x ∈ identsIn vs, x.id ≠ id) → t'.ofIdent.lookup id = t.ofIdent.lookup id
  entry : ∀ {e}, e ∈ t'.ofIdent → e ∈ t.ofIdent ∨
    ∃ x ∈ identsIn vs, x.id = e.1 ∧ ∃ s, t'.symbol? e.2 = some s ∧ s.name = x.name
  specifier : ∀ {id}, (∀ s ∈ specifiersIn vs, s.id ≠ id) →
    t'.ofSpecifier.lookup id = t.ofSpecifier.lookup id

variable {k : ScopeId} {vs ws : List Visit} {plain plain' : Prop} {t t' t'' : NameTable}

theorem Within.refl (h : t.Wf) : Within k vs plain t t where
  wf := h
  file := rfl
  openScopes := rfl
  depth := rfl
  size := Nat.le_refl _
  scope _ h := h
  kind h := ⟨_, h, rfl⟩
  symbol h := ⟨_, h, rfl, rfl, rfl, fun _ => rfl⟩
  fresh h h' := by rw [h] at h'; cases h'
  plain _ {_ _} h := .inr ⟨_, h, rfl, rfl⟩
  ident _ := rfl
  entry h := .inl h
  specifier _ := rfl

/-- More identifiers, fewer scopes kept and less said about declarations. -/
theorem Within.mono {k' : ScopeId} (h : Within k vs plain t t') (hk : k' ≤ k) (hv : vs ⊆ ws)
    (hp : plain' → plain) : Within k' ws plain' t t' :=
  { h with
    scope := fun hi => h.scope (Nat.lt_of_lt_of_le hi hk)
    symbol := fun hs => by
      obtain ⟨s', h₁, h₂, h₃, h₄, h₅⟩ := h.symbol hs
      exact ⟨s', h₁, h₂, h₃, h₄, fun hlt => h₅ (Nat.lt_of_lt_of_le hlt hk)⟩
    fresh := fun hn hs => Nat.le_trans hk (h.fresh hn hs)
    plain := fun p => h.plain (hp p)
    ident := fun hx => h.ident fun x hm => hx x (identsIn_subset hv hm)
    entry := fun he => by
      rcases h.entry he with he | ⟨x, hx, hrest⟩
      · exact .inl he
      · exact .inr ⟨x, identsIn_subset hv hx, hrest⟩
    specifier := fun hs => h.specifier fun s hm => hs s (specifiersIn_subset hv hm) }

theorem Within.trans (h : Within k vs plain t t') (h' : Within k ws plain' t' t'') :
    Within k (vs ++ ws) (plain ∧ plain') t t'' where
  wf := h'.wf
  file := h'.file.trans h.file
  openScopes := h'.openScopes.trans h.openScopes
  depth := h'.depth.trans h.depth
  size := Nat.le_trans h.size h'.size
  scope hi hs := h'.scope hi (h.scope hi hs)
  kind hs := by
    obtain ⟨s₁, hs₁, hk₁⟩ := h.kind hs
    obtain ⟨s₂, hs₂, hk₂⟩ := h'.kind hs₁
    exact ⟨s₂, hs₂, hk₂.trans hk₁⟩
  symbol hs := by
    obtain ⟨s₁, h₁, hn, hsc, hd, he⟩ := h.symbol hs
    obtain ⟨s₂, h₂, hn', hsc', hd', he'⟩ := h'.symbol h₁
    refine ⟨s₂, h₂, hn'.trans hn, hsc'.trans hsc, hd'.trans hd, fun hlt => ?_⟩
    rw [he' (by rw [hsc]; exact hlt), he hlt]
  fresh {id s'} hn hs := by
    cases hm : t'.symbol? id with
    | none => exact h'.fresh hm hs
    | some m =>
      obtain ⟨s₂, h₂, _, hsc, _⟩ := h'.symbol hm
      rw [hs] at h₂
      cases h₂
      rw [hsc]
      exact h.fresh hn hm
  plain := by
    intro ⟨p, p'⟩ id s' hs
    rcases h'.plain p' hs with hloc | ⟨m, hm, hex, hor⟩
    · exact .inl hloc
    · rcases h.plain p hm with ⟨h₁, h₂⟩ | ⟨s, hs₁, hex', hor'⟩
      · exact .inl ⟨hex ▸ h₁, hor ▸ h₂⟩
      · exact .inr ⟨s, hs₁, hex'.trans hex, hor'.trans hor⟩
  ident hx := by
    rw [h'.ident fun x hm => hx x (by simp [hm]), h.ident fun x hm => hx x (by simp [hm])]
  entry he := by
    rcases h'.entry he with he | ⟨x, hx, hrest⟩
    · rcases h.entry he with he | ⟨x, hx, hid, s, hs, hn⟩
      · exact .inl he
      · obtain ⟨s', hs', hn', _⟩ := h'.symbol hs
        exact .inr ⟨x, by simp [hx], hid, s', hs', hn'.trans hn⟩
    · exact .inr ⟨x, by simp [hx], hrest⟩
  specifier hs := by
    rw [h'.specifier fun s hm => hs s (by simp [hm]), h.specifier fun s hm => hs s (by simp [hm])]

/-! ## Resolving and declaring -/

/-- A change of what identifiers stand for, and of nothing else but counters. -/
theorem within_of_arenas (h : t.Wf) (hs : t'.scopes = t.scopes) (hy : t'.symbols = t.symbols)
    (ho : t'.openScopes = t.openScopes) (hf : t'.file = t.file) (hd : t'.depth = t.depth)
    (hsp : t'.ofSpecifier = t.ofSpecifier)
    (ident : ∀ {id}, (∀ x ∈ identsIn vs, x.id ≠ id) → t'.ofIdent.lookup id = t.ofIdent.lookup id)
    (entry : ∀ {e}, e ∈ t'.ofIdent → e ∈ t.ofIdent ∨
      ∃ x ∈ identsIn vs, x.id = e.1 ∧ ∃ s, t'.symbol? e.2 = some s ∧ s.name = x.name) :
    Within k vs plain t t' := by
  have hscope : ∀ i, t'.scope? i = t.scope? i := fun i => congrArg (·[i]?) hs
  have hsymbol : ∀ i, t'.symbol? i = t.symbol? i := fun i => congrArg (·[i]?) hy
  have hr : Within k vs plain t t := .refl h
  exact {
    wf := h.of_arenas hs hy (ho ▸ Wf.isChain_of_scopes h.opened hs)
    file := hf, openScopes := ho, depth := hd, size := Nat.le_of_eq (congrArg Array.size hs.symm)
    scope := fun hi hsc => (hscope _).trans hsc
    kind := fun hsc => ⟨_, (hscope _).trans hsc, rfl⟩
    symbol := fun hsy => ⟨_, (hsymbol _).trans hsy, rfl, rfl, rfl, fun _ => rfl⟩
    fresh := fun hn hsy => hr.fresh hn ((hsymbol _).symm.trans hsy)
    plain := fun p _ _ hsy => hr.plain p ((hsymbol _).symm.trans hsy)
    ident := ident, entry := entry, specifier := fun _ => by rw [hsp] }

theorem within_resolve (h : t.Wf) {x : Ident} (hx : x ∈ identsIn vs) :
    Within k vs plain t (t.resolve x) := by
  unfold resolve
  by_cases hsome : (t.ofIdent.lookup x.id).isSome
  · rw [if_pos hsome]
    exact .refl h
  · rw [if_neg hsome]
    cases hl : t.lookup? x.name with
    | none => exact within_of_arenas h rfl rfl rfl rfl rfl rfl (fun _ => rfl) (fun he => .inl he)
    | some id =>
      refine within_of_arenas h rfl rfl rfl rfl rfl rfl (fun {i} hi => ?_) (fun {e} he => ?_)
      · have hne : (i == x.id) = false := beq_eq_false_iff_ne.mpr (Ne.symm (hi x hx))
        simp [List.lookup_cons, hne]
      · rcases List.mem_cons.mp he with rfl | he
        · exact .inr ⟨x, hx, rfl, h.lookup?_name hl⟩
        · exact .inl he

/-- A change of what export names refer to, and of nothing else. -/
theorem within_refer (h : t.Wf) {s : ExportSpecifier} (hs : s ∈ specifiersIn vs) (id : SymbolId) :
    Within k vs plain t { t with ofSpecifier := (s.id, id) :: t.ofSpecifier } := by
  have hw : Wf { t with ofSpecifier := (s.id, id) :: t.ofSpecifier } :=
    h.of_arenas rfl rfl (Wf.isChain_of_scopes h.opened rfl)
  refine { (Within.refl h : Within k vs plain t t) with wf := hw, specifier := fun {i} hi => ?_ }
  have hne : (i == s.id) = false := beq_eq_false_iff_ne.mpr (Ne.symm (hi s hs))
  simp [List.lookup_cons, hne]

/-- A name already declared in a scope gains roles and maybe an origin; nothing else changes. -/
theorem within_redeclare (h : t.Wf) {b : Binding} {i : ScopeId} {id : SymbolId} {scope : Scope}
    (hscope : t.scope? i = some scope) (hlook : scope.symbols.lookup b.ident.name = some id)
    (hk : k ≤ i) (hx : b.ident ∈ identsIn vs)
    (ht : { t with
      symbols := t.symbols.modify id fun s =>
        { s with roles := s.roles.union b.roles, origin := b.origin.or s.origin }
      ofIdent := (b.ident.id, id) :: t.ofIdent } = t') : Within k vs b.IsPlain t t' := by
  obtain ⟨old, hold, hname, hin⟩ := h.stored hscope hlook
  let new : Symbol :=
    { old with roles := old.roles.union b.roles, origin := b.origin.or old.origin }
  have hsc : ∀ j, t'.scope? j = t.scope? j := fun j => by rw [← ht]; rfl
  have hnew : t'.symbol? id = some new := by
    rw [← ht]
    simp only [symbol?, Array.getElem?_modify, if_true]
    exact congrArg (Option.map _) hold
  have hother : ∀ {j}, j ≠ id → t'.symbol? j = t.symbol? j := fun {j} hj => by
    rw [← ht]
    simp only [symbol?, Array.getElem?_modify, if_neg (Ne.symm hj)]
  have hident : t'.ofIdent = (b.ident.id, id) :: t.ofIdent := by rw [← ht]
  refine {
    file := by rw [← ht], openScopes := by rw [← ht], depth := by rw [← ht]
    size := by subst ht; exact Nat.le_refl _, wf := ⟨?_, ?_, ?_⟩
    scope := fun _ hs => (hsc _).trans hs, kind := fun hs => ⟨_, (hsc _).trans hs, rfl⟩
    symbol := ?_, fresh := ?_, plain := ?_, ident := ?_, entry := ?_
    specifier := fun _ => by rw [← ht] }
  · intro j sc name id' hs hl
    rw [hsc] at hs
    obtain ⟨s, hs', hn, hi⟩ := h.stored hs hl
    by_cases he : id' = id
    · subst he
      rw [hold] at hs'
      cases hs'
      exact ⟨new, hnew, hn, hi⟩
    · exact ⟨s, (hother he).trans hs', hn, hi⟩
  · intro id' s hs
    rw [hsc]
    by_cases he : id' = id
    · subst he
      rw [hnew] at hs
      cases hs
      have hheld := h.held hold
      exact hheld
    · rw [hother he] at hs
      exact h.held hs
  · rw [← ht]
    exact Wf.isChain_of_scopes h.opened rfl
  · intro id' s hs
    by_cases he : id' = id
    · subst he
      rw [hold] at hs
      cases hs
      exact ⟨new, hnew, rfl, rfl, rfl, fun hlt => absurd hlt (hin ▸ Nat.not_lt.mpr hk)⟩
    · exact ⟨s, (hother he).trans hs, rfl, rfl, rfl, fun _ => rfl⟩
  · intro id' s' hn hs
    by_cases he : id' = id
    · subst he
      rw [hold] at hn
      cases hn
    · rw [hother he, hn] at hs
      cases hs
  · rintro ⟨hexp, horigin⟩ id' s' hs
    by_cases he : id' = id
    · subst he
      rw [hnew] at hs
      cases hs
      exact .inr ⟨old, hold, by simp [new, Roles.union, hexp], by simp [new, horigin]⟩
    · rw [hother he] at hs
      exact .inr ⟨s', hs, rfl, rfl⟩
  · intro id' hid
    have hne : (id' == b.ident.id) = false := beq_eq_false_iff_ne.mpr (Ne.symm (hid _ hx))
    simp [hident, List.lookup_cons, hne]
  · intro e he
    rw [hident] at he
    rcases List.mem_cons.mp he with rfl | he
    · exact .inr ⟨b.ident, hx, rfl, new, hnew, hname⟩
    · exact .inl he

/-- A name new to a scope gets a symbol of its own. -/
theorem within_newSymbol (h : t.Wf) {b : Binding} {i : ScopeId} {scope : Scope}
    (hscope : t.scope? i = some scope) (hlook : scope.symbols.lookup b.ident.name = none)
    (hk : k ≤ i) (hx : b.ident ∈ identsIn vs)
    (ht : { t with
      symbols := t.symbols.push ⟨b.ident.name, b.roles, b.ident.id, i, b.origin⟩
      scopes := t.scopes.modify i fun s =>
        { s with symbols := (b.ident.name, t.symbols.size) :: s.symbols }
      ofIdent := (b.ident.id, t.symbols.size) :: t.ofIdent } = t') :
    Within k vs b.IsPlain t t' := by
  let new : Symbol := ⟨b.ident.name, b.roles, b.ident.id, i, b.origin⟩
  let scope' : Scope := { scope with symbols := (b.ident.name, t.symbols.size) :: scope.symbols }
  have hthis : t'.scope? i = some scope' := by
    rw [← ht]
    simp only [scope?, Array.getElem?_modify, if_true]
    exact congrArg (Option.map _) hscope
  have hother : ∀ {j}, j ≠ i → t'.scope? j = t.scope? j := fun {j} hj => by
    rw [← ht]
    simp only [scope?, Array.getElem?_modify, if_neg (Ne.symm hj)]
  have hnew : t'.symbol? t.symbols.size = some new := by
    rw [← ht]
    simp [symbol?, new]
  have hold : ∀ {id s}, t.symbol? id = some s → t'.symbol? id = some s := by
    intro id s hs
    have hlt := (Array.getElem?_eq_some_iff.mp hs).1
    rw [← ht]
    simp only [symbol?, Array.getElem?_push, if_neg (Nat.ne_of_lt hlt)]
    exact hs
  have hback : ∀ {id s}, t'.symbol? id = some s →
      (id = t.symbols.size ∧ s = new) ∨ t.symbol? id = some s := by
    intro id s hs
    by_cases he : id = t.symbols.size
    · subst he
      rw [hnew] at hs
      exact .inl ⟨rfl, (Option.some.inj hs).symm⟩
    · rw [← ht] at hs
      simp only [symbol?, Array.getElem?_push, if_neg he] at hs
      exact .inr hs
  have hident : t'.ofIdent = (b.ident.id, t.symbols.size) :: t.ofIdent := by rw [← ht]
  refine {
    file := by rw [← ht], openScopes := by rw [← ht], depth := by rw [← ht]
    size := by rw [← ht]; simp, wf := ⟨?_, ?_, ?_⟩, scope := ?_, kind := ?_
    symbol := fun hs => ⟨_, hold hs, rfl, rfl, rfl, fun _ => rfl⟩
    fresh := ?_, plain := ?_, ident := ?_, entry := ?_, specifier := fun _ => by rw [← ht] }
  · intro j sc name id' hs hl
    by_cases he : j = i
    · subst he
      rw [hthis] at hs
      cases hs
      by_cases hn : name = b.ident.name
      · subst hn
        simp only [scope', List.lookup_cons_self, Option.some.injEq] at hl
        subst hl
        exact ⟨new, hnew, rfl, rfl⟩
      · have hne : (name == b.ident.name) = false := beq_eq_false_iff_ne.mpr hn
        simp only [scope', List.lookup_cons, hne] at hl
        obtain ⟨s, hs, hrest⟩ := h.stored hscope hl
        exact ⟨s, hold hs, hrest⟩
    · rw [hother he] at hs
      obtain ⟨s, hs', hrest⟩ := h.stored hs hl
      exact ⟨s, hold hs', hrest⟩
  · intro id s hs
    rcases hback hs with ⟨rfl, rfl⟩ | hs
    · exact ⟨scope', hthis, List.lookup_cons_self⟩
    · obtain ⟨sc, hsc, hl⟩ := h.held hs
      by_cases he : s.scope = i
      · rw [he, hscope] at hsc
        cases hsc
        have hne : (s.name == b.ident.name) = false := by
          rw [beq_eq_false_iff_ne]
          intro hn
          rw [hn, hlook] at hl
          cases hl
        refine ⟨scope', he ▸ hthis, ?_⟩
        simp only [scope', List.lookup_cons, hne, hl]
      · exact ⟨sc, (hother he).trans hsc, hl⟩
  · have ho : t'.openScopes = t.openScopes := by rw [← ht]
    rw [ho]
    refine h.opened.congr fun j _ a ha => ?_
    by_cases he : j = i
    · subst he
      rw [hscope] at ha
      cases ha
      exact ⟨scope', hthis, rfl⟩
    · exact ⟨a, (hother he).trans ha, rfl⟩
  · intro j sc hj hs
    exact (hother (Nat.ne_of_lt (Nat.lt_of_lt_of_le hj hk))).trans hs
  · intro j sc hs
    by_cases he : j = i
    · subst he
      rw [hscope] at hs
      cases hs
      exact ⟨scope', hthis, rfl⟩
    · exact ⟨sc, (hother he).trans hs, rfl⟩
  · intro id s' hn hs
    rcases hback hs with ⟨rfl, rfl⟩ | hs
    · exact hk
    · rw [hs] at hn
      cases hn
  · rintro ⟨hexp, horigin⟩ id s' hs
    rcases hback hs with ⟨rfl, rfl⟩ | hs
    · exact .inl ⟨hexp, horigin⟩
    · exact .inr ⟨s', hs, rfl, rfl⟩
  · intro id hid
    have hne : (id == b.ident.id) = false := beq_eq_false_iff_ne.mpr (Ne.symm (hid _ hx))
    simp [hident, List.lookup_cons, hne]
  · intro e he
    rw [hident] at he
    rcases List.mem_cons.mp he with rfl | he
    · exact .inr ⟨b.ident, hx, rfl, new, hnew, rfl⟩
    · exact .inl he

theorem within_declareIn (h : t.Wf) {b : Binding} {i : ScopeId} (hk : k ≤ i)
    (hx : b.ident ∈ identsIn vs) : Within k vs b.IsPlain t (t.declareIn b i) := by
  unfold declareIn
  cases hscope : t.scope? i with
  | none => exact .refl h
  | some scope =>
    dsimp only
    cases hlook : scope.symbols.lookup b.ident.name with
    | some id => exact within_redeclare h hscope hlook hk hx rfl
    | none => exact within_newSymbol h hscope hlook hk hx rfl

theorem within_declare (h : t.Wf) {b : Binding} (hk : ∀ i ∈ t.openScopes.head?, k ≤ i)
    (hx : b.ident ∈ identsIn vs) : Within k vs b.IsPlain t (t.declare b) := by
  unfold declare
  cases hopen : t.openScopes.head? with
  | none => exact .refl h
  | some i => exact within_declareIn h (hk i hopen) hx

theorem within_declareAll {bs : List Binding} : ∀ {t : NameTable}, t.Wf →
    (∀ i ∈ t.openScopes.head?, k ≤ i) → (∀ b ∈ bs, b.ident ∈ identsIn vs) →
    Within k vs (∀ b ∈ bs, b.IsPlain) t (t.declareAll bs) := by
  induction bs with
  | nil => exact fun h _ _ => .refl h
  | cons b bs ih =>
    intro t h hk hx
    have hfirst := within_declare h hk (hx b (by simp))
    have hrest := ih hfirst.wf (by rw [hfirst.openScopes]; exact hk) fun c hc => hx c (by simp [hc])
    refine (hfirst.trans hrest).mono (Nat.le_refl _) (by simp) fun hp => ?_
    exact ⟨hp b (by simp), fun c hc => hp c (by simp [hc])⟩

end NameTable
end RegisterForm
