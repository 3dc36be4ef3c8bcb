import Mathlib.Data.List.Induction
import RegisterForm.Proofs.Scope.Bound
/-!
# What a scope holds

A scope that is filled from a list of declarations holds one symbol for each name among them.
The first declaration of a name makes its symbol, and the others add their roles to it.
-/
namespace RegisterForm

/-- The symbol that the first declaration of a name makes. -/
def Symbol.declared (k : ScopeId) (b : Binding) : Symbol :=
  ⟨b.ident.name, b.roles, b.ident.id, k, b.origin⟩

/-- What another declaration of its name makes of a symbol. -/
def Symbol.redeclared (s : Symbol) (b : Binding) : Symbol :=
  { s with roles := s.roles.union b.roles, origin := b.origin.or s.origin }

/-- What any declaration in the scope makes of the symbol of a name. -/
def Symbol.after (k : ScopeId) (name : String) (s : Option Symbol) (b : Binding) : Option Symbol :=
  if b.ident.name = name then
    some (match s with
      | none => .declared k b
      | some s => s.redeclared b)
  else s

section after
variable {k : ScopeId} {name : String} {b : Binding}

theorem Symbol.after_of_ne (h : b.ident.name ≠ name) (s : Option Symbol) :
    Symbol.after k name s b = s := if_neg h

theorem Symbol.after_none (h : b.ident.name = name) :
    Symbol.after k name none b = some (.declared k b) := if_pos h

theorem Symbol.after_some (h : b.ident.name = name) (s : Symbol) :
    Symbol.after k name (some s) b = some (s.redeclared b) := if_pos h

end after

/-- The symbol that some declarations in one scope make of a name. -/
def symbolFor (k : ScopeId) (name : String) (bs : List Binding) : Option Symbol :=
  bs.foldl (Symbol.after k name) none

section symbolFor
variable {k : ScopeId} {name : String} {bs : List Binding} {b : Binding} {s : Symbol}

theorem symbolFor_concat (k : ScopeId) (name : String) (bs : List Binding) (b : Binding) :
    symbolFor k name (bs ++ [b]) = Symbol.after k name (symbolFor k name bs) b := by
  simp [symbolFor]

theorem symbolFor_isSome : (symbolFor k name bs).isSome = bs.any (·.ident.name == name) := by
  induction bs using List.reverseRecOn with
  | nil => rfl
  | append_singleton bs b ih =>
    rw [symbolFor_concat, List.any_append, ← ih]
    by_cases hb : b.ident.name = name
    · simp [Symbol.after, hb]
    · simp [Symbol.after_of_ne hb, hb]

theorem symbolFor_eq_none (h : symbolFor k name bs = none) : ∀ b ∈ bs, b.ident.name ≠ name := by
  intro b hb hn
  have hany : (symbolFor k name bs).isSome = bs.any (·.ident.name == name) := symbolFor_isSome
  rw [h, Option.isSome_none] at hany
  exact Bool.eq_false_iff.mp hany.symm (List.any_eq_true.mpr ⟨b, hb, by simp [hn]⟩)

/-- A symbol is declared by the first declaration of its name. -/
theorem symbolFor_eq_some (h : symbolFor k name bs = some s) : s.name = name ∧ s.scope = k ∧
    ∃ b, bs.find? (·.ident.name == name) = some b ∧ s.declaration = b.ident.id := by
  induction bs using List.reverseRecOn generalizing s with
  | nil => cases h
  | append_singleton bs b ih =>
    rw [symbolFor_concat] at h
    by_cases hb : b.ident.name = name
    · cases hold : symbolFor k name bs with
      | none =>
        have hnone : bs.find? (·.ident.name == name) = none := by
          simpa using symbolFor_eq_none hold
        rw [hold, Symbol.after_none hb] at h
        cases h
        exact ⟨hb, rfl, b, by simp [List.find?_append, hnone, hb], rfl⟩
      | some old =>
        obtain ⟨hn, hk, c, hc, hd⟩ := ih hold
        rw [hold, Symbol.after_some hb] at h
        cases h
        exact ⟨hn, hk, c, by simp [List.find?_append, hc], hd⟩
    · rw [Symbol.after_of_ne hb] at h
      obtain ⟨hn, hk, c, hc, hd⟩ := ih h
      exact ⟨hn, hk, c, by simp [List.find?_append, hc], hd⟩

/-- A symbol has a role if one of its declarations has it. -/
theorem symbolFor_any {f : Roles → Bool} (hf : ∀ r r', f (r.union r') = (f r || f r'))
    (h : symbolFor k name bs = some s) :
    f s.roles = bs.any fun b => b.ident.name == name && f b.roles := by
  induction bs using List.reverseRecOn generalizing s with
  | nil => cases h
  | append_singleton bs b ih =>
    rw [symbolFor_concat] at h
    by_cases hb : b.ident.name = name
    · cases hold : symbolFor k name bs with
      | none =>
        have hother : (bs.any fun b => b.ident.name == name && f b.roles) = false := by
          rw [List.any_eq_false]
          intro c hc hboth
          exact symbolFor_eq_none hold c hc (by simpa using (Bool.and_eq_true_iff.mp hboth).1)
        rw [hold, Symbol.after_none hb] at h
        cases h
        simp [Symbol.declared, hother, hb]
      | some old =>
        rw [hold, Symbol.after_some hb] at h
        cases h
        simp [Symbol.redeclared, hf, ih hold, hb]
    · rw [Symbol.after_of_ne hb] at h
      simp [ih h, hb]

/-- A symbol is exported if one of its declarations is. -/
theorem symbolFor_isExported (h : symbolFor k name bs = some s) :
    s.roles.isExported = bs.any fun b => b.ident.name == name && b.roles.isExported :=
  symbolFor_any (fun _ _ => rfl) h

/-- Declarations of other names do not matter. -/
theorem symbolFor_filter (k : ScopeId) (name : String) (bs : List Binding) :
    symbolFor k name (bs.filter (·.ident.name == name)) = symbolFor k name bs := by
  induction bs using List.reverseRecOn with
  | nil => rfl
  | append_singleton bs b ih =>
    rw [symbolFor_concat, List.filter_append]
    by_cases hb : b.ident.name = name
    · have hlast : [b].filter (·.ident.name == name) = [b] := by simp [hb]
      rw [hlast, symbolFor_concat, ih]
    · have hlast : [b].filter (·.ident.name == name) = [] := by simp [hb]
      rw [hlast, List.append_nil, ih, Symbol.after_of_ne hb]

/-- A name that one declaration alone declares has the symbol which that one makes. -/
theorem symbolFor_of_unique (h : bs.filter (·.ident.name == name) = [b]) :
    symbolFor k name bs = some (.declared k b) := by
  have hm : b ∈ bs.filter (·.ident.name == name) := by simp [h]
  have hb : b.ident.name = name := by simpa using (List.mem_filter.mp hm).2
  rw [← symbolFor_filter, h]
  exact Symbol.after_none hb

end symbolFor

namespace NameTable
variable {t : NameTable} {k : ScopeId} {bs cs : List Binding} {b : Binding}

/-- The symbol of a name that a scope itself declares. -/
def lookupIn (t : NameTable) (k : ScopeId) (name : String) : Option SymbolId :=
  (t.scope? k).bind (·.symbols.lookup name)

/-- The innermost scope was filled from `bs` and from nothing else. -/
structure Holds (t : NameTable) (k : ScopeId) (bs : List Binding) : Prop where
  wf : t.Wf
  isOpen : t.openScopes.head? = some k
  symbol : ∀ name, (t.lookupIn k name).bind t.symbol? = symbolFor k name bs
  ident : ∀ b ∈ bs, t.ofIdent.lookup b.ident.id = t.lookupIn k b.ident.name

theorem Holds.scope (h : t.Holds k bs) : ∃ scope, t.scope? k = some scope :=
  scope?_of_lt (h.wf.opened.lt_size k (List.mem_of_mem_head? h.isOpen))

theorem Wf.symbol_of_lookupIn (h : t.Wf) {name : String} {id : SymbolId}
    (hl : t.lookupIn k name = some id) :
    ∃ s, t.symbol? id = some s ∧ s.name = name ∧ s.scope = k := by
  obtain ⟨scope, hscope, hlook⟩ := Option.bind_eq_some_iff.mp hl
  exact h.stored hscope hlook

theorem Wf.lookupIn_of_symbol (h : t.Wf) {id : SymbolId} {s : Symbol}
    (hs : t.symbol? id = some s) : t.lookupIn s.scope s.name = some id := by
  obtain ⟨scope, hscope, hlook⟩ := h.held hs
  simp [lookupIn, hscope, hlook]

/-- Each declared name has a symbol. -/
theorem Holds.lookupIn_isSome (h : t.Holds k bs) (name : String) :
    (t.lookupIn k name).isSome = bs.any (·.ident.name == name) := by
  rw [← symbolFor_isSome (k := k), ← h.symbol name]
  cases hl : t.lookupIn k name with
  | none => rfl
  | some id =>
    obtain ⟨s, hs, -⟩ := h.wf.symbol_of_lookupIn hl
    simp [hs]

theorem Holds.symbol_eq (h : t.Holds k bs) {id : SymbolId} {s : Symbol} (hs : t.symbol? id = some s)
    (hk : s.scope = k) : symbolFor k s.name bs = some s := by
  have hl := h.wf.lookupIn_of_symbol hs
  rw [hk] at hl
  rw [← h.symbol, hl]
  exact hs

theorem Holds.enter (h : t.Wf) (kind : ScopeKind) : (t.enter kind).Holds t.scopes.size [] where
  wf := h.enter kind
  isOpen := rfl
  symbol name := by
    rw [lookupIn, scope?_enter_new]
    rfl
  ident := by simp

/-- One more declaration in the scope. Two declarations of one identity must agree on the name. -/
theorem Holds.declare (h : t.Holds k bs)
    (hid : ∀ c ∈ bs, c.ident.id = b.ident.id → c.ident.name = b.ident.name) :
    (t.declare b).Holds k (bs ++ [b]) := by
  have hw : Within k [.ident b.ident] b.IsPlain t (t.declare b) :=
    within_declare h.wf (fun i hi => by rw [h.isOpen] at hi; exact Nat.le_of_eq (Option.some.inj hi))
      (by simp)
  obtain ⟨scope, hscope⟩ := h.scope
  have hdeclare : t.declare b = t.declareIn b k := by rw [NameTable.declare, h.isOpen]
  have holdIdent : ∀ c ∈ bs, c.ident.id ≠ b.ident.id →
      (t.declare b).ofIdent.lookup c.ident.id = t.lookupIn k c.ident.name := by
    intro c hc hne
    rw [hw.ident (by simpa using fun h => hne h.symm)]
    exact h.ident c hc
  cases hlook : scope.symbols.lookup b.ident.name with
  | some id =>
    have hb : t.lookupIn k b.ident.name = some id := by simp [lookupIn, hscope, hlook]
    have hnew : t.declareIn b k = { t with
        symbols := t.symbols.modify id (·.redeclared b)
        ofIdent := (b.ident.id, id) :: t.ofIdent } := by
      simp only [declareIn, hscope, hlook]
      rfl
    have hin : ∀ name, (t.declare b).lookupIn k name = t.lookupIn k name := fun name => by
      rw [hdeclare, hnew]
      rfl
    refine {
      wf := hw.wf
      isOpen := hw.openScopes ▸ h.isOpen
      symbol := fun name => ?_
      ident := fun c hc => ?_ }
    · rw [symbolFor_concat, ← h.symbol name, hin]
      by_cases hn : b.ident.name = name
      · obtain ⟨s, hs, -⟩ := h.wf.symbol_of_lookupIn hb
        have hs' : t.symbols[id]? = some s := hs
        subst hn
        have hnew' : (t.declareIn b k).symbol? id = some (s.redeclared b) := by
          rw [hnew]
          simp [symbol?, Array.getElem?_modify, hs']
        rw [hb, Option.bind_some, Option.bind_some, hs, Symbol.after_some rfl, hdeclare, hnew']
      · rw [Symbol.after_of_ne hn]
        cases hl : t.lookupIn k name with
        | none => rfl
        | some j =>
          have hj : id ≠ j := by
            rintro rfl
            obtain ⟨s, hs, hname, -⟩ := h.wf.symbol_of_lookupIn hl
            obtain ⟨s', hs', hname', -⟩ := h.wf.symbol_of_lookupIn hb
            rw [hs] at hs'
            cases hs'
            exact hn (hname'.symm.trans hname)
          rw [hdeclare, hnew]
          simp [symbol?, Array.getElem?_modify, hj]
    · rw [hin]
      by_cases he : c.ident.id = b.ident.id
      · have hcb : c.ident.name = b.ident.name := by
          rcases List.mem_append.mp hc with hc | hc
          · exact hid c hc he
          · rw [List.mem_singleton.mp hc]
        rw [hdeclare, hnew, hcb, hb]
        simp [he]
      · rcases List.mem_append.mp hc with hc | hc
        · exact holdIdent c hc he
        · exact absurd (congrArg (·.ident.id) (List.mem_singleton.mp hc)) he
  | none =>
    have hb : t.lookupIn k b.ident.name = none := by simp [lookupIn, hscope, hlook]
    have hnew : t.declareIn b k = { t with
        symbols := t.symbols.push (.declared k b)
        scopes := t.scopes.modify k fun s =>
          { s with symbols := (b.ident.name, t.symbols.size) :: s.symbols }
        ofIdent := (b.ident.id, t.symbols.size) :: t.ofIdent } := by
      simp only [declareIn, hscope, hlook]
      rfl
    have hin : ∀ name, (t.declare b).lookupIn k name =
        if b.ident.name = name then some t.symbols.size else t.lookupIn k name := fun name => by
      have hscope' : t.scopes[k]? = some scope := hscope
      rw [hdeclare, hnew]
      simp only [lookupIn, scope?, Array.getElem?_modify, hscope', if_true, Option.map_some,
        Option.bind_some, List.lookup_cons]
      by_cases hn : b.ident.name = name
      · simp [hn]
      · simp [hn, beq_eq_false_iff_ne.mpr (Ne.symm hn)]
    refine {
      wf := hw.wf
      isOpen := hw.openScopes ▸ h.isOpen
      symbol := fun name => ?_
      ident := fun c hc => ?_ }
    · rw [symbolFor_concat, ← h.symbol name, hin]
      by_cases hn : b.ident.name = name
      · subst hn
        rw [if_pos rfl, hb, Option.bind_none, Symbol.after_none rfl, hdeclare, hnew]
        simp [symbol?]
      · rw [Symbol.after_of_ne hn, if_neg hn]
        cases hl : t.lookupIn k name with
        | none => rfl
        | some j =>
          obtain ⟨s, hs, -⟩ := h.wf.symbol_of_lookupIn hl
          have hj : j < t.symbols.size := (Array.getElem?_eq_some_iff.mp hs).1
          rw [hdeclare, hnew]
          simp [symbol?, Array.getElem?_push, Nat.ne_of_lt hj]
    · rw [hin]
      by_cases he : c.ident.id = b.ident.id
      · have hcb : c.ident.name = b.ident.name := by
          rcases List.mem_append.mp hc with hc | hc
          · exact hid c hc he
          · rw [List.mem_singleton.mp hc]
        rw [hdeclare, hnew, hcb, if_pos rfl]
        simp [he]
      · rcases List.mem_append.mp hc with hc | hc
        · have hne : b.ident.name ≠ c.ident.name := by
            intro hbc
            have hsome := h.lookupIn_isSome b.ident.name
            rw [hb, Option.isSome_none] at hsome
            exact Bool.eq_false_iff.mp hsome.symm (List.any_eq_true.mpr ⟨c, hc, by simp [hbc]⟩)
          rw [if_neg hne]
          exact holdIdent c hc he
        · exact absurd (congrArg (·.ident.id) (List.mem_singleton.mp hc)) he

theorem Holds.declareAll : ∀ {t : NameTable} {bs : List Binding} (cs : List Binding),
    t.Holds k bs →
    (∀ b ∈ bs ++ cs, ∀ c ∈ bs ++ cs, b.ident.id = c.ident.id → b.ident.name = c.ident.name) →
    (t.declareAll cs).Holds k (bs ++ cs)
  | _, _, [], h, _ => by rwa [List.append_nil]
  | t, bs, c :: cs, h, hid => by
    have hfirst := h.declare (b := c) fun b hb => hid b (by simp [hb]) c (by simp)
    have hrest := hfirst.declareAll cs (by simpa using hid)
    simpa [NameTable.declareAll] using hrest

end NameTable
end RegisterForm
