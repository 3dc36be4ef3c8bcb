import RegisterForm.Scope.Bind
/-!
# The arenas of a name table

What every table keeps that is built by entering scopes, declaring and resolving: each symbol
is stored under its own name in the scope it records, scopes lie in older ones, and the open
scopes are the chain around the innermost one.
-/
namespace RegisterForm.NameTable

/-- A stack of scopes, each the parent of the one before it. -/
def IsChain (t : NameTable) : List ScopeId → Prop
  | [] => True
  | i :: rest => (∃ scope, t.scope? i = some scope ∧ scope.parent = rest.head?) ∧
      (∀ j ∈ rest.head?, j < i) ∧ t.IsChain rest

structure Wf (t : NameTable) : Prop where
  /-- What a scope holds is a symbol of that name that records the scope. -/
  stored : ∀ {i scope name id}, t.scope? i = some scope → scope.symbols.lookup name = some id →
    ∃ symbol, t.symbol? id = some symbol ∧ symbol.name = name ∧ symbol.scope = i
  /-- Every symbol is held by the scope it records. -/
  held : ∀ {id symbol}, t.symbol? id = some symbol →
    ∃ scope, t.scope? symbol.scope = some scope ∧ scope.symbols.lookup symbol.name = some id
  opened : t.IsChain t.openScopes

variable {t : NameTable}

theorem scope?_lt {i : ScopeId} {scope : Scope} (h : t.scope? i = some scope) :
    i < t.scopes.size := (Array.getElem?_eq_some_iff.mp h).1

theorem scope?_of_lt {i : ScopeId} (h : i < t.scopes.size) : ∃ scope, t.scope? i = some scope :=
  ⟨t.scopes[i], Array.getElem?_eq_getElem h⟩

/-- Two symbols of one name in one scope are one. -/
theorem Wf.symbol_unique (h : t.Wf) {id id' : SymbolId} {a b : Symbol}
    (ha : t.symbol? id = some a) (hb : t.symbol? id' = some b) (hn : a.name = b.name)
    (hs : a.scope = b.scope) : id = id' := by
  obtain ⟨scope, hscope, hlook⟩ := h.held ha
  obtain ⟨scope', hscope', hlook'⟩ := h.held hb
  rw [hs, hscope'] at hscope
  cases hscope
  rw [hn, hlook'] at hlook
  exact (Option.some.inj hlook).symm

theorem IsChain.congr {t' : NameTable} : ∀ {l : List ScopeId}, t.IsChain l →
    (∀ i ∈ l, ∀ a, t.scope? i = some a → ∃ b, t'.scope? i = some b ∧ b.parent = a.parent) →
    t'.IsChain l
  | [], _, _ => trivial
  | i :: rest, ⟨⟨scope, hscope, hparent⟩, hlt, hrest⟩, hsame => by
    obtain ⟨b, hb, hbp⟩ := hsame i (by simp) scope hscope
    exact ⟨⟨b, hb, hbp.trans hparent⟩, hlt, hrest.congr fun j hj => hsame j (by simp [hj])⟩

theorem IsChain.lt_size : ∀ {l : List ScopeId}, t.IsChain l → ∀ i ∈ l, i < t.scopes.size
  | i :: _, ⟨⟨_, hscope, _⟩, _, hrest⟩, j, hj => by
    rcases List.mem_cons.mp hj with rfl | hj
    · exact scope?_lt hscope
    · exact hrest.lt_size j hj

/-- Going from parent to parent visits exactly the stack. -/
theorem IsChain.scopesFrom : ∀ {i : ScopeId} {rest : List ScopeId} {bound : Nat},
    t.IsChain (i :: rest) → i < bound → t.scopesFrom bound i = i :: rest
  | i, rest, bound + 1, ⟨⟨scope, hscope, hparent⟩, hlt, hrest⟩, hb => by
    simp only [NameTable.scopesFrom, hscope]
    cases rest with
    | nil => simp_all
    | cons j rest =>
      have hj : j < i := hlt j (by simp)
      simp only [List.head?_cons] at hparent
      rw [hparent]
      exact congrArg (i :: ·) (hrest.scopesFrom (Nat.lt_of_lt_of_le hj (Nat.le_of_lt_succ hb)))

/-- A name means what the innermost open scope that declares it says. -/
theorem Wf.lookup?_eq (h : t.Wf) (name : String) :
    t.lookup? name = t.openScopes.findSome? fun i => (t.scope? i).bind (·.symbols.lookup name) := by
  unfold lookup?
  have hc := h.opened
  cases hopen : t.openScopes with
  | nil => simp
  | cons i rest =>
    rw [hopen] at hc
    simp [chain, hc.scopesFrom (Nat.lt_succ_self i)]

theorem Wf.lookup?_name (h : t.Wf) {name : String} {id : SymbolId} (hl : t.lookup? name = some id) :
    ∃ symbol, t.symbol? id = some symbol ∧ symbol.name = name := by
  rw [h.lookup?_eq, List.findSome?_eq_some_iff] at hl
  obtain ⟨_, i, _, _, hi, _⟩ := hl
  obtain ⟨scope, hscope, hlook⟩ := Option.bind_eq_some_iff.mp hi
  obtain ⟨symbol, hs, hn, _⟩ := h.stored hscope hlook
  exact ⟨symbol, hs, hn⟩

theorem wf_empty (file : Option NodeId) : ({ file } : NameTable).Wf where
  stored h := by simp [scope?] at h
  held h := by simp [symbol?] at h
  opened := trivial

/-- A table with the same arenas and a shorter or equal stack is well formed as well. -/
theorem Wf.of_arenas (h : t.Wf) {t' : NameTable} (hs : t'.scopes = t.scopes)
    (hy : t'.symbols = t.symbols) (ho : t'.IsChain t'.openScopes) : t'.Wf where
  stored := by
    intro i scope name id hscope hlook
    simp only [scope?, symbol?, hs, hy] at hscope ⊢
    exact h.stored hscope hlook
  held := by
    intro id symbol hsym
    simp only [scope?, symbol?, hs, hy] at hsym ⊢
    exact h.held hsym
  opened := ho

theorem Wf.isChain_of_scopes {l : List ScopeId} (h : t.IsChain l) {t' : NameTable}
    (hs : t'.scopes = t.scopes) : t'.IsChain l :=
  h.congr fun i _ a ha => ⟨a, by simpa only [scope?, hs] using ha, rfl⟩

/-! ## Scopes -/

theorem scope?_enter_new (kind : ScopeKind) (t : NameTable) :
    (t.enter kind).scope? t.scopes.size = some { kind, parent := t.openScopes.head? } := by
  simp [enter, scope?]

theorem scope?_enter_old (kind : ScopeKind) {i : ScopeId} (h : i < t.scopes.size) :
    (t.enter kind).scope? i = t.scope? i := by
  simp [enter, scope?, Array.getElem?_push, Nat.ne_of_lt h]

theorem Wf.enter (h : t.Wf) (kind : ScopeKind) : (t.enter kind).Wf where
  stored := by
    intro i scope name id hscope hlook
    by_cases hi : i < t.scopes.size
    · rw [scope?_enter_old kind hi] at hscope
      exact h.stored hscope hlook
    · have hlt := scope?_lt hscope
      have hi' : i = t.scopes.size := by
        simp only [NameTable.enter, Array.size_push] at hlt
        exact Nat.le_antisymm (Nat.le_of_lt_succ hlt) (Nat.not_lt.mp hi)
      subst hi'
      rw [scope?_enter_new] at hscope
      cases hscope
      simp at hlook
  held := by
    intro id symbol hsym
    obtain ⟨scope, hscope, hlook⟩ := h.held hsym
    exact ⟨scope, (scope?_enter_old kind (scope?_lt hscope)).trans hscope, hlook⟩
  opened := by
    refine ⟨⟨_, scope?_enter_new kind t, rfl⟩, ?_, ?_⟩
    · intro j hj
      exact h.opened.lt_size j (List.mem_of_mem_head? hj)
    · exact h.opened.congr fun i hi a ha =>
        ⟨a, (scope?_enter_old kind (h.opened.lt_size i hi)).trans ha, rfl⟩

theorem IsChain.tail : ∀ {l : List ScopeId}, t.IsChain l → t.IsChain l.tail
  | [], _ => trivial
  | _ :: _, ⟨_, _, h⟩ => h

theorem Wf.leave (h : t.Wf) : t.leave.Wf :=
  h.of_arenas rfl rfl (Wf.isChain_of_scopes h.opened.tail rfl)

end RegisterForm.NameTable
