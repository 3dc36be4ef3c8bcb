import RegisterForm.Proofs.Run.Machine
/-!
# Runs side by side

Two steps agree if from memories that are alike both succeed and leave memories that are alike. The
blocks are then the same, and so are the writes; the second record also tells what was published:
each write to a name of the module is followed by its publications.
-/
namespace RegisterForm

/-- The names under which a write is published, where the blocks around declare the given names. -/
def namesAt (names : String → List String) (scopes : List (List String)) (x : String) :
    List String :=
  if x ∈ scopes.flatten then [] else names x

/-- The second record is the first one with publications, the newest first: each write to an
outermost variable is published under its names, one after the other. An export clause publishes
what its variable holds. -/
inductive Reflects (names : String → List String) : List Event → List Event → Prop
  | nil : Reflects names [] []
  | wrote {events events' : List Event} (level : Nat) (x : String) (v : Value)
      (h : Reflects names events events') :
      Reflects names (.wrote level x v :: events)
        (((if level = 0 then names x else []).map (.published · v)).reverse
          ++ .wrote level x v :: events')
  | clause {events events' : List Event} (x name : String) (hn : name ∈ names x)
      (h : Reflects names events events') :
      Reflects names events (.published name (currentValue x events) :: events')

/-- The blocks are the same and declare the given names. -/
structure Alike (names : String → List String) (scopes : List (List String)) (m m' : Memory) :
    Prop where
  blocks : m'.blocks = m.blocks
  scopes : m.blocks.map (·.map Prod.fst) = scopes
  events : Reflects names m.events m'.events

def Agrees {α β : Type} (names : String → List String) (scopes : List (List String))
    (Q : α → β → Prop) (r : Run α) (r' : Run β) : Prop :=
  ∀ m m', Alike names scopes m m' → ∃ a n b n', r.run m = some (a, n) ∧ r'.run m' = some (b, n') ∧
    Alike names scopes n n' ∧ Q a b

variable {names : String → List String} {scopes : List (List String)} {x : String} {v : Value}
  {events events' : List Event}

/-! ## Records -/

section records

@[simp] theorem currentValue_published (name : String) :
    currentValue x (.published name v :: events) = currentValue x events := rfl

theorem currentValue_publications (ns : List String) :
    currentValue x ((ns.map (.published · v)).reverse ++ events) = currentValue x events := by
  induction ns generalizing events with
  | nil => rfl
  | cons n ns ih =>
    rw [List.map_cons, List.reverse_cons, List.append_assoc]
    exact ih

theorem currentValue_wrote (level : Nat) (y : String)
    (h : currentValue x events' = currentValue x events) :
    currentValue x (.wrote level y v :: events') = currentValue x (.wrote level y v :: events) := by
  unfold currentValue at h ⊢
  cases level with
  | succ level => exact h
  | zero =>
    by_cases hy : y = x
    · simp [hy]
    · simpa [List.findSome?_cons, hy] using h

theorem Reflects.currentValue (h : Reflects names events events') (x : String) :
    currentValue x events' = currentValue x events := by
  induction h with
  | nil => rfl
  | wrote level y v h ih => rw [currentValue_publications, currentValue_wrote level y ih]
  | clause y name hn h ih => exact ih

theorem Reflects.writes (h : Reflects names events events') :
    events'.filter Event.isWrite = events.filter Event.isWrite := by
  induction h with
  | nil => rfl
  | wrote level x v h ih =>
    have hnone : ∀ ns : List String,
        (ns.map (Event.published · v)).reverse.filter Event.isWrite = [] := by
      simp [List.filter_eq_nil_iff, Event.isWrite]
    rw [List.filter_append, hnone, List.nil_append, List.filter_cons_of_pos rfl,
      List.filter_cons_of_pos rfl, ih]
  | clause x name hn h ih => simpa [Event.isWrite] using ih

/-- What was done up to some moment is reflected by what the other run did up to one. -/
theorem Reflects.start (h : Reflects names events events') {before : List Event}
    (hb : before <:+ events) : ∃ before', before' <:+ events' ∧ Reflects names before before' := by
  induction h with
  | nil =>
    obtain rfl := List.suffix_nil.mp hb
    exact ⟨[], List.suffix_refl _, .nil⟩
  | wrote level x v h ih =>
    rcases List.suffix_cons_iff.mp hb with rfl | hb
    · exact ⟨_, List.suffix_refl _, .wrote level x v h⟩
    · obtain ⟨before', hb', hreflects⟩ := ih hb
      exact ⟨before', (hb'.trans (List.suffix_cons _ _)).trans (List.suffix_append _ _), hreflects⟩
  | clause x name hn h ih =>
    obtain ⟨before', hb', hreflects⟩ := ih hb
    exact ⟨before', hb'.trans (List.suffix_cons _ _), hreflects⟩

end records

/-! ## Blocks -/

section blocks
variable {blocks : List BlockVars}

theorem lookup_isSome_iff {block : BlockVars} :
    (block.lookup x).isSome = true ↔ x ∈ block.map Prod.fst := by
  induction block with
  | nil => simp
  | cons p block ih =>
    rw [List.lookup_cons]
    by_cases hp : x = p.1
    · simp [hp]
    · rw [beq_false_of_ne hp, List.map_cons, List.mem_cons, ih]
      simp [hp]

theorem Memory.find?_isSome_iff {m : Memory} :
    (m.find? x).isSome = true ↔ x ∈ (m.blocks.map (·.map Prod.fst)).flatten := by
  rw [find?, List.findSome?_isSome_iff, ← List.flatMap_def, List.mem_flatMap]
  simp only [lookup_isSome_iff]

theorem Memory.assign?_of_not_mem (h : x ∉ (blocks.map (·.map Prod.fst)).flatten) :
    assign? x v blocks = none := by
  induction blocks with
  | nil => rfl
  | cons block blocks ih =>
    rw [List.map_cons, List.flatten_cons, List.mem_append, not_or] at h
    have hblock : (block.lookup x).isSome = false := by
      rw [Bool.eq_false_iff, ne_eq, lookup_isSome_iff]
      exact h.1
    simp [assign?, hblock, ih h.2]

/-- A write changes no names. -/
theorem Memory.assign?_of_mem (h : x ∈ (blocks.map (·.map Prod.fst)).flatten) :
    ∃ level blocks', assign? x v blocks = some (level + 1, blocks') ∧
      blocks'.map (·.map Prod.fst) = blocks.map (·.map Prod.fst) := by
  induction blocks with
  | nil => simp at h
  | cons block blocks ih =>
    by_cases hblock : (block.lookup x).isSome = true
    · refine ⟨blocks.length, _, if_pos hblock, ?_⟩
      have hnames : (block.map fun p => if p.1 = x then (x, v) else p).map Prod.fst =
          block.map Prod.fst := by
        rw [List.map_map]
        refine List.map_congr_left fun p _ => ?_
        simp only [Function.comp_apply]
        split <;> simp_all
      rw [List.map_cons, List.map_cons, hnames]
    · have hrest : x ∈ (blocks.map (·.map Prod.fst)).flatten := by
        rw [List.map_cons, List.flatten_cons, List.mem_append] at h
        exact h.resolve_left fun hx => hblock (lookup_isSome_iff.mpr hx)
      obtain ⟨level, blocks', hassign, hnames⟩ := ih hrest
      refine ⟨level, block :: blocks', ?_, by rw [List.map_cons, List.map_cons, hnames]⟩
      rw [assign?, if_neg hblock, hassign]
      rfl

end blocks

/-! ## Steps -/

namespace Agrees
variable {α β γ δ : Type} {Q : α → β → Prop} {Q' : γ → δ → Prop} {r : Run α} {r' : Run β}
  {f : α → Run γ} {f' : β → Run δ}

theorem pure {a : α} {b : β} (h : Q a b) : Agrees names scopes Q (pure a) (pure b) :=
  fun m m' hm => ⟨a, m, b, m', rfl, rfl, hm, h⟩

theorem bind (h : Agrees names scopes Q r r')
    (hf : ∀ a b, Q a b → Agrees names scopes Q' (f a) (f' b)) :
    Agrees names scopes Q' (r >>= f) (r' >>= f') := by
  intro m m' hm
  obtain ⟨a, n, b, n', hr, hr', hn, hQ⟩ := h m m' hm
  obtain ⟨c, o, d, o', hc, hd, ho, hQ'⟩ := hf a b hQ n n' hn
  refine ⟨c, o, d, o', ?_, ?_, ho, hQ'⟩
  · rw [StateT.run_bind, hr]
    exact hc
  · rw [StateT.run_bind, hr']
    exact hd

/-- A step after one that stands for no step. -/
theorem after {a : α} {r : Run γ} (h : Agrees names scopes Q (Pure.pure a) r')
    (hf : ∀ b, Q a b → Agrees names scopes Q' r (f' b)) :
    Agrees names scopes Q' r (r' >>= f') := by
  intro m m' hm
  obtain ⟨_, _, b, n', hr, hr', hn, hQ⟩ := h m m' hm
  cases hr
  obtain ⟨c, o, d, o', hc, hd, ho, hQ'⟩ := hf b hQ m n' hn
  refine ⟨c, o, d, o', hc, ?_, ho, hQ'⟩
  rw [StateT.run_bind, hr']
  exact hd

theorem mono {S : α → β → Prop} (h : Agrees names scopes Q r r') (hQ : ∀ a b, Q a b → S a b) :
    Agrees names scopes S r r' := by
  intro m m' hm
  obtain ⟨a, n, b, n', hr, hr', hn, hab⟩ := h m m' hm
  exact ⟨a, n, b, n', hr, hr', hn, hQ a b hab⟩

theorem lift {a : α} {b : β} (h : Q a b) :
    Agrees names scopes Q (StateT.lift (some a)) (StateT.lift (some b)) :=
  fun m m' hm => ⟨a, m, b, m', rfl, rfl, hm, h⟩

theorem ite {c c' : Bool} {r₁ : Run α} {r₁' : Run β} (hc : c' = c)
    (h : Agrees names scopes Q r r') (h₁ : Agrees names scopes Q r₁ r₁') :
    Agrees names scopes Q (if c then r else r₁) (if c' then r' else r₁') := by
  subst hc
  cases c'
  · exact h₁
  · exact h

theorem inBlock {block : List String} (h : Agrees names (block :: scopes) Q r r') :
    Agrees names scopes Q (Run.inBlock block r) (Run.inBlock block r') := by
  intro m m' hm
  have hopen : Alike names (block :: scopes)
      { m with blocks := block.map (·, .undefined) :: m.blocks }
      { m' with blocks := block.map (·, .undefined) :: m'.blocks } := by
    refine ⟨congrArg (_ :: ·) hm.blocks, ?_, hm.events⟩
    simp [hm.scopes, Function.comp_def]
  obtain ⟨a, n, b, n', hr, hr', hn, hab⟩ := h _ _ hopen
  refine ⟨a, { n with blocks := n.blocks.tail }, b, { n' with blocks := n'.blocks.tail }, ?_, ?_,
    ⟨congrArg List.tail hn.blocks, ?_, hn.events⟩, hab⟩
  · change (r.run _ >>= fun p => _) = _
    rw [hr]
    rfl
  · change (r'.run _ >>= fun p => _) = _
    rw [hr']
    rfl
  · rw [List.map_tail, hn.scopes]
    rfl

theorem inBlockIf {wanted : Bool} {block : List String}
    (h : Agrees names (if wanted then block :: scopes else scopes) Q r r') :
    Agrees names scopes Q (Run.inBlockIf wanted block r) (Run.inBlockIf wanted block r') := by
  cases wanted
  · exact h
  · exact inBlock h

/-- Loops agree round by round. -/
theorem repeatWhile {test test' : Run Value} {body body' : Run Bool} {after after' : Run Unit}
    (htest : Agrees names scopes (fun v v' => v' = v) test test')
    (hbody : Agrees names scopes (fun b b' => b' = b) body body')
    (hafter : Agrees names scopes (fun _ _ => True) after after') (rounds : Nat) :
    Agrees names scopes (fun b b' => b' = b) (Run.repeatWhile test body after rounds)
      (Run.repeatWhile test' body' after' rounds) := by
  induction rounds with
  | zero => exact pure rfl
  | succ rounds ih =>
    unfold Run.repeatWhile
    refine bind htest fun v v' hv => ite (congrArg _ hv) ?_ (pure rfl)
    exact bind hbody fun b b' hb => ite hb (bind hafter fun _ _ _ => ih) (pure rfl)

end Agrees

/-! ## Reads and writes -/

/-- Publishes a value under some names, in their order. -/
def Run.publishAll : List String → Value → Run Unit
  | [], _ => return
  | name :: names, v => do
    Run.publish name v
    Run.publishAll names v

/-- Writes a variable and publishes the value. -/
def Linkage.writeOut (l : Linkage) (names : List String) (x : String) (v : Value) : Run Unit := do
  l.write x v
  Run.publishAll names v

theorem Linkage.writeOut_nil (l : Linkage) : l.writeOut [] = l.write := by
  funext x v
  exact bind_pure_unit

theorem Run.run_publishAll (ns : List String) (v : Value) (m : Memory) :
    (Run.publishAll ns v).run m =
      some ((), { m with events := (ns.map (.published · v)).reverse ++ m.events }) := by
  induction ns generalizing m with
  | nil => rfl
  | cons n ns ih =>
    change (Run.publishAll ns v).run _ = _
    rw [ih]
    simp

section linkage
variable {l l' : Linkage}

theorem Alike.find? {m m' : Memory} (h : Alike names scopes m m') (x : String) :
    m'.find? x = m.find? x := by
  rw [Memory.find?, h.blocks]
  rfl

theorem Alike.find?_eq_none {m m' : Memory} (h : Alike names scopes m m')
    (hx : x ∉ scopes.flatten) : m.find? x = none := by
  rw [← Option.not_isSome_iff_eq_none, Memory.find?_isSome_iff, h.scopes]
  exact hx

/-- A variable is not confused with another module. -/
theorem agrees_read (hx : x ∈ scopes.flatten ∨ x ∈ l.outer) (hl : l.outer ⊆ l'.outer)
    (hown : x ∈ l.outer → ∀ w, l.foreign w x none = none ∧ l'.foreign w x none = none) :
    Agrees names scopes (fun v v' => v' = v) (l.read x) (l'.read x) := by
  intro m m' hm
  have hfind := hm.find? x
  cases hv : m.find? x with
  | some v =>
    refine ⟨v, m, v, m', ?_, ?_, hm, rfl⟩
    · simp only [Linkage.read, StateT.run, hv]
    · simp only [Linkage.read, StateT.run, hfind, hv]
  | none =>
    have houter : x ∈ l.outer := by
      refine hx.resolve_left fun h => ?_
      rw [← hm.scopes, ← Memory.find?_isSome_iff, hv] at h
      cases h
    obtain ⟨hnone, -⟩ := hown houter m.writes
    obtain ⟨-, hnone'⟩ := hown houter m'.writes
    refine ⟨currentValue x m.events, m, currentValue x m'.events, m', ?_, ?_, hm,
      hm.events.currentValue x⟩
    · simp only [Linkage.read, StateT.run, hv, hnone, if_pos houter]
    · simp only [Linkage.read, StateT.run, hfind, hv, hnone', if_pos (hl houter)]

section foreign
variable {value : List Event → Value} {holder : String} {property : Option String}

theorem Linkage.run_read_foreign {m : Memory} (hx : m.find? x = none) {v : Value}
    (h : l.foreign m.writes x none = some v) : (l.read x).run m = some (v, m) := by
  simp only [Linkage.read, StateT.run, hx, h]

/-- An import is read by its own name, and off the holder of its module. -/
theorem agrees_readForeign (hx : x ∉ scopes.flatten)
    (hforeign : ∀ w, l.foreign w x none = some (value w))
    (hforeign' : ∀ w, l'.foreign w holder property = some (value w)) :
    Agrees names scopes (fun v v' => v' = v) (l.read x) (l'.readForeign holder property) := by
  intro m m' hm
  refine ⟨value m.writes, m, value m'.writes, m', ?_, ?_, hm, congrArg value hm.events.writes⟩
  · exact l.run_read_foreign (hm.find?_eq_none hx) (hforeign _)
  · simp only [Linkage.readForeign, StateT.run, hforeign']
    rfl

/-- A module that is held under its own name is read by it. -/
theorem agrees_read_foreign (hx : x ∉ scopes.flatten)
    (hforeign : ∀ w, l.foreign w x none = some (value w))
    (hforeign' : ∀ w, l'.foreign w x none = some (value w)) :
    Agrees names scopes (fun v v' => v' = v) (l.read x) (l'.read x) := by
  intro m m' hm
  have hfind := hm.find?_eq_none hx
  refine ⟨value m.writes, m, value m'.writes, m', ?_, ?_, hm, congrArg value hm.events.writes⟩
  · exact l.run_read_foreign hfind (hforeign _)
  · exact l'.run_read_foreign ((hm.find? x).trans hfind) (hforeign' _)

end foreign

/-- A write is published where it is one to a name of the module. -/
theorem agrees_write (hx : x ∈ scopes.flatten ∨ x ∈ l.outer) (hl : l.outer ⊆ l'.outer) (v : Value) :
    Agrees names scopes (fun _ _ => True) (l.write x v)
      (l'.writeOut (namesAt names scopes x) x v) := by
  intro m m' hm
  have hrun : ∀ n, (l'.write x v).run m' = some ((), n) →
      (l'.writeOut (namesAt names scopes x) x v).run m' = some ((), { n with
        events := ((namesAt names scopes x).map (.published · v)).reverse ++ n.events }) := by
    intro n hn
    rw [Linkage.writeOut, StateT.run_bind, hn]
    exact Run.run_publishAll _ v n
  by_cases hin : x ∈ scopes.flatten
  · have hblocks : x ∈ (m.blocks.map (·.map Prod.fst)).flatten := by rwa [hm.scopes]
    obtain ⟨level, blocks, hassign, hnames⟩ := Memory.assign?_of_mem (v := v) hblocks
    refine ⟨(), ⟨blocks, .wrote (level + 1) x v :: m.events⟩, (), _, ?_,
      hrun ⟨blocks, .wrote (level + 1) x v :: m'.events⟩ ?_, ⟨rfl, hnames.trans hm.scopes, ?_⟩,
      trivial⟩
    · simp only [Linkage.write, StateT.run, hassign]
    · simp only [Linkage.write, StateT.run, hm.blocks, hassign]
    · rw [namesAt, if_pos hin]
      exact .wrote (level + 1) x v hm.events
  · have hassign : Memory.assign? x v m.blocks = none :=
      Memory.assign?_of_not_mem (by rwa [hm.scopes])
    have houter : x ∈ l.outer := hx.resolve_left hin
    refine ⟨(), { m with events := .wrote 0 x v :: m.events }, (), _, ?_,
      hrun { m' with events := .wrote 0 x v :: m'.events } ?_, ⟨hm.blocks, hm.scopes, ?_⟩, trivial⟩
    · simp only [Linkage.write, StateT.run, hassign, if_pos houter]
    · simp only [Linkage.write, StateT.run, hm.blocks, hassign, if_pos (hl houter)]
    · rw [namesAt, if_neg hin]
      exact .wrote 0 x v hm.events

end linkage

/-! ## Assignments and updates -/

section writes
variable {read read' value value' : Run Value} {write write' : Value → Run Unit}

theorem agrees_assign {op : AssignOp} (hop : op = .plain ∨ op.binary?.isSome = true)
    (hread : Agrees names scopes (fun v v' => v' = v) read read')
    (hvalue : Agrees names scopes (fun v v' => v' = v) value value')
    (hwrite : ∀ v, Agrees names scopes (fun _ _ => True) (write v) (write' v)) :
    Agrees names scopes (fun v v' => v' = v) (Run.assign op read value write)
      (Run.assign op read' value' write') := by
  unfold Run.assign
  cases hb : op.binary? with
  | none =>
    have hplain : op = .plain := hop.resolve_right (by simp [hb])
    dsimp only
    rw [if_pos hplain, if_pos hplain]
    refine .bind hvalue fun v v' hv => ?_
    subst hv
    exact .bind (hwrite v') fun _ _ _ => .pure rfl
  | some binary =>
    have hbinary : binary.isArithmetic = true := by
      cases op <;> cases hb <;> rfl
    refine .bind hread fun old old' hold => .bind hvalue fun v v' hv => ?_
    subst hold hv
    obtain ⟨w, hw⟩ := BinaryOp.compute?_isSome hbinary old' v'
    rw [hw]
    have hlift : Agrees names scopes (fun v v' => v' = v) (StateT.lift (some w))
        (StateT.lift (some w)) := .lift rfl
    refine .bind hlift fun w w' hw => ?_
    subst hw
    exact .bind (hwrite w') fun _ _ _ => .pure rfl

/-- Where the operator stands matters to the value only. -/
theorem agrees_update {op : UpdateOp} {isPrefix isPrefix' : Bool}
    (hread : Agrees names scopes (fun v v' => v' = v) read read')
    (hwrite : ∀ v, Agrees names scopes (fun _ _ => True) (write v) (write' v)) :
    Agrees names scopes (fun v v' => isPrefix' = isPrefix → v' = v)
      (Run.update op isPrefix read write) (Run.update op isPrefix' read' write') := by
  refine .bind hread fun old old' hold => ?_
  subst hold
  refine .bind (hwrite _) fun _ _ _ => .pure ?_
  rintro rfl
  rfl

end writes
end RegisterForm
