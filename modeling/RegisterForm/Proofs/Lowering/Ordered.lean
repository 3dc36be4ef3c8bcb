import RegisterForm.Proofs.Export.Publication
import RegisterForm.Proofs.Fresh.Helpers
import RegisterForm.Proofs.Lowering.TakesApart
/-!
# Patterns bind each name once and in order

A pattern that is taken apart assigns its targets one after another, as the source has them, and
between these assignments it assigns the temporaries that it draws, each before it is read.
-/
namespace RegisterForm
open Lowering Vocabulary

/-! ## Leaves -/

/-- A target of a pattern that is no pattern itself. -/
inductive Leaf where
  | ident (x : Ident)
  | target (e : Expr)

def Leaf.ident? : Leaf → Option Ident
  | .ident x => some x
  | .target _ => none

mutual

/-- The targets, in source order. -/
def Pattern.leaves : Pattern → List Leaf
  | .ident x => [.ident x]
  | .expr e => [.target e]
  | .object ps rest => propertiesLeaves ps ++ restLeaves rest
  | .array es rest => slotsLeaves es ++ restLeaves rest

def restLeaves : Option Pattern → List Leaf
  | none => []
  | some p => p.leaves

def PatternProperty.leaves : PatternProperty → List Leaf
  | .keyed _ target _ => target.leaves
  | .shorthand x _ => [.ident x]

def propertiesLeaves : List PatternProperty → List Leaf
  | [] => []
  | p :: ps => p.leaves ++ propertiesLeaves ps

def PatternElement.leaves : PatternElement → List Leaf
  | ⟨target, _⟩ => target.leaves

def slotLeaves : Option PatternElement → List Leaf
  | none => []
  | some e => e.leaves

def slotsLeaves : List (Option PatternElement) → List Leaf
  | [] => []
  | e :: es => slotLeaves e ++ slotsLeaves es

end

mutual

/-- The identifiers among the targets are those that the pattern binds. -/
theorem Pattern.filterMap_leaves : (p : Pattern) → p.leaves.filterMap Leaf.ident? = p.boundIdents
  | .ident _ | .expr _ => rfl
  | .object ps rest => by
    rw [Pattern.leaves, List.filterMap_append, filterMap_propertiesLeaves ps,
      filterMap_restLeaves rest, Pattern.boundIdents]
  | .array es rest => by
    rw [Pattern.leaves, List.filterMap_append, filterMap_slotsLeaves es,
      filterMap_restLeaves rest, Pattern.boundIdents]
termination_by structural p => p

theorem filterMap_restLeaves : (rest : Option Pattern) →
    (restLeaves rest).filterMap Leaf.ident? = restIdents rest
  | none => rfl
  | some p => p.filterMap_leaves
termination_by structural rest => rest

theorem PatternProperty.filterMap_leaves : (p : PatternProperty) →
    p.leaves.filterMap Leaf.ident? = p.boundIdents
  | .keyed _ target _ => target.filterMap_leaves
  | .shorthand _ _ => rfl
termination_by structural p => p

theorem filterMap_propertiesLeaves : (ps : List PatternProperty) →
    (propertiesLeaves ps).filterMap Leaf.ident? = propertyIdents ps
  | [] => rfl
  | p :: ps => by
    rw [propertiesLeaves, List.filterMap_append, p.filterMap_leaves,
      filterMap_propertiesLeaves ps, propertyIdents]
termination_by structural ps => ps

theorem PatternElement.filterMap_leaves : (e : PatternElement) →
    e.leaves.filterMap Leaf.ident? = e.boundIdents
  | ⟨target, _⟩ => target.filterMap_leaves
termination_by structural e => e

theorem filterMap_slotLeaves : (e : Option PatternElement) →
    (slotLeaves e).filterMap Leaf.ident? = slotIdents e
  | none => rfl
  | some e => e.filterMap_leaves
termination_by structural e => e

theorem filterMap_slotsLeaves : (es : List (Option PatternElement)) →
    (slotsLeaves es).filterMap Leaf.ident? = elementIdents es
  | [] => rfl
  | e :: es => by
    rw [slotsLeaves, List.filterMap_append, filterMap_slotLeaves e, filterMap_slotsLeaves es,
      elementIdents]
termination_by structural es => es

end

def Part.leaves : Part → List Leaf
  | .pattern p => p.leaves
  | .rest p => restLeaves p
  | .property _ p => p.leaves
  | .properties _ ps => propertiesLeaves ps
  | .slot e => slotLeaves e
  | .slots _ es => slotsLeaves es

/-! ## Assignments in order -/

/-- A tree mentions none of the names. -/
def Spares (names : List String) (vs : List Visit) : Prop := (sparing (· ∈ names)).Covers vs

theorem Spares.mono {names names' : List String} {vs : List Visit} (h : Spares names vs)
    (hnames : names' <:+ names) : Spares names' vs :=
  covers_sparing_mono (fun _ hname => hnames.subset hname) h

/-- Assignments to some targets in order, and among them assignments to temporaries in order. No
assignment mentions a temporary that is assigned later, and no value mentions the temporary that it
is assigned to. -/
inductive Setting.BindsInOrder (s : Setting) : List Leaf → List String → List Expr → Prop
  | nil : s.BindsInOrder [] [] []
  | temporary {t : String} {value : Expr} {leaves : List Leaf} {ts : List String} {es : List Expr}
    (h : Spares (t :: ts) value.visits) (rest : s.BindsInOrder leaves ts es) :
    s.BindsInOrder leaves (t :: ts) (.assignName t value :: es)
  | ident {x : Ident} {value : Expr} {leaves : List Leaf} {ts : List String} {es : List Expr}
    (h : Spares ts (s.bindingAssignment x value).visits) (rest : s.BindsInOrder leaves ts es) :
    s.BindsInOrder (.ident x :: leaves) ts (s.bindingAssignment x value :: es)
  | target {e e' value : Expr} {leaves : List Leaf} {ts : List String} {es : List Expr}
    (hlower : Lowers s e e') (h : Spares ts (Expr.assignTo (.expr e') value).visits)
    (rest : s.BindsInOrder leaves ts es) :
    s.BindsInOrder (.target e :: leaves) ts (.assignTo (.expr e') value :: es)

/-- Assignments that may stand in front of others, which assign the temporaries `later`. -/
def Setting.Precedes (s : Setting) (leaves : List Leaf) (ts later : List String) (es : List Expr) :
    Prop :=
  ∀ ⦃leaves' es'⦄, s.BindsInOrder leaves' later es' →
    s.BindsInOrder (leaves ++ leaves') (ts ++ later) (es ++ es')

namespace Setting.Precedes
variable {s : Setting} {leaves leaves' : List Leaf} {ts us later : List String}
  {es es' : List Expr}

theorem nothing (s : Setting) (later : List String) : s.Precedes [] [] later [] := fun _ _ h => h

theorem append (h : s.Precedes leaves ts (us ++ later) es) (h' : s.Precedes leaves' us later es') :
    s.Precedes (leaves ++ leaves') (ts ++ us) later (es ++ es') := by
  intro leaves'' es'' hrest
  rw [List.append_assoc, List.append_assoc, List.append_assoc]
  exact h (h' hrest)

end Setting.Precedes

/-- Names that are different, and that the setting does not use. -/
structure Setting.Avoids (s : Setting) (names : List String) : Prop where
  nodup : names.Nodup
  spoken : s.SpokenIn (sparing (· ∈ names))

theorem Setting.Avoids.mono {s : Setting} {names names' : List String} (h : s.Avoids names)
    (hnames : names' <:+ names) : s.Avoids names' :=
  ⟨h.nodup.sublist hnames.sublist, h.spoken.sparing_mono fun _ hname => hnames.subset hname⟩

theorem Setting.Avoids.precedes_ident {s : Setting} {later : List String} {x : Ident} {value : Expr}
    (hs : s.Avoids later) (hx : x.name ∉ later) (hvalue : Spares later value.visits) :
    s.Precedes [.ident x] [] later [s.bindingAssignment x value] := fun _ _ hrest =>
  .ident (hs.spoken.covers_bindingAssignment ⟨trivial, hx⟩ hvalue) hrest

section Steps
variable {s : Setting} {bound ts later : List String} {value : Expr}
  (hs : s.Avoids (ts ++ later)) (hvalue : Spares (ts ++ later) value.visits)
include hs hvalue

theorem Held.precedes {held : List Expr} {m : Expr} (h : Held bound value held m ts) :
    Spares later m.visits ∧ s.Precedes [] ts later held := by
  cases h with
  | reused => exact ⟨hvalue, .nothing s later⟩
  | temporary t =>
    have hlater : t ∉ later := (List.nodup_cons.mp hs.nodup).1
    exact ⟨(covers_ofName t).mpr hlater, fun _ _ hrest => .temporary hvalue hrest⟩

theorem HeldUnlessOne.precedes {count : Nat} {held : List Expr} {m : Expr}
    (h : HeldUnlessOne bound count value held m ts) :
    Spares later m.visits ∧ s.Precedes [] ts later held := by
  cases h with
  | once => exact ⟨hvalue, .nothing s later⟩
  | held _ h => exact h.precedes hs hvalue

theorem FallsBack.precedes {fallback fallback' : Option Expr} {held : List Expr} {m : Expr}
    (h : FallsBack s bound fallback fallback' value held m ts)
    (hfallback : Spares (ts ++ later) (exprVisits? fallback')) :
    Spares later m.visits ∧ s.Precedes [] ts later held := by
  cases h with
  | none => exact ⟨hvalue, .nothing s later⟩
  | some hheld =>
    obtain ⟨hm, hprecedes⟩ := hheld.precedes hs hvalue
    exact ⟨covers_orFallback hm (hfallback.mono (List.suffix_append ts later)), hprecedes⟩

theorem ReadsKey.precedes {hasRest : Bool} {key key' : Key} {held : List Expr}
    {access excluded : Expr}
    (h : ReadsKey s bound hasRest key key' value held access excluded ts)
    (hkey : Spares (ts ++ later) key'.visits) :
    (Spares later access.visits ∧ Spares later excluded.visits) ∧ s.Precedes [] ts later held := by
  have hsuffix := List.suffix_append ts later
  have hvalue' := hvalue.mono hsuffix
  have hkey' := hkey.mono hsuffix
  cases h with
  | name text => exact ⟨⟨(covers_dot value text).mpr hvalue', covers_ofString text⟩, .nothing s _⟩
  | string text =>
    refine ⟨⟨?_, covers_ofString text⟩, .nothing s _⟩
    split
    · exact (covers_dot value text).mpr hvalue'
    · exact (covers_lookup _ _).mpr ⟨hvalue', covers_ofString text⟩
  | number source =>
    exact ⟨⟨(covers_lookup _ _).mpr ⟨hvalue', covers_ofNumber source⟩, covers_ofString source⟩,
      .nothing s _⟩
  | computed => exact ⟨⟨(covers_lookup _ _).mpr ⟨hvalue', hkey'⟩, hkey'⟩, .nothing s _⟩
  | held _ hheld =>
    obtain ⟨hm, hprecedes⟩ := hheld.precedes hs hkey
    exact ⟨⟨(covers_lookup _ _).mpr ⟨hvalue', hm⟩, covers_propertyKey hm⟩, hprecedes⟩

end Steps

section Parts
variable {s : Setting} {bound ts : List String} {part part' : Part} {value : Expr}
  {exprs keys : List Expr}

/-- By induction on how the part is taken apart. What comes later mentions what a part holds by
temporaries only, and these are assigned in that part. -/
theorem TakesApart.precedes (h : TakesApart s bound part part' value exprs keys ts) :
    ∀ {later : List String}, s.Avoids (ts ++ later) → Spares (ts ++ later) part'.visits →
      Spares (ts ++ later) value.visits →
      (∀ key ∈ keys, Spares later key.visits) ∧ s.Precedes part.leaves ts later exprs := by
  induction h with
  | ident x value =>
    intro later hs hpart hvalue
    exact ⟨nofun, hs.precedes_ident ((covers_identPattern x).mp hpart).2 hvalue⟩
  | expr value hlower =>
    intro later hs hpart hvalue
    refine ⟨nofun, fun leaves' es' hrest => .target hlower ?_ hrest⟩
    exact (covers_assignTo _ _).mpr ⟨hpart, hvalue⟩
  | @object _ ps' _ rest' _ _ _ _ _ _ ts us vs hheld _ _ ihps ihrest =>
    intro later hs hpart hvalue
    rw [List.append_assoc, List.append_assoc] at hs hpart hvalue
    have hus : us ++ (vs ++ later) <:+ ts ++ (us ++ (vs ++ later)) := List.suffix_append _ _
    have hvs : vs ++ later <:+ us ++ (vs ++ later) := List.suffix_append _ _
    obtain ⟨hps', hrest'⟩ := (covers_append _ _).mp ((covers_cons _ _).mp hpart).2
    obtain ⟨hm, hheld⟩ := hheld.precedes hs hvalue
    obtain ⟨hkeys, hps⟩ := ihps (hs.mono hus) (Spares.mono hps' hus) hm
    have hcall := (hs.mono (hvs.trans hus)).spoken.covers_restCall trivial (hm.mono hvs)
      (covers_exprsVisits hkeys)
    obtain ⟨-, hrest⟩ := ihrest (hs.mono (hvs.trans hus)) (Spares.mono hrest' (hvs.trans hus)) hcall
    exact ⟨nofun, (hheld.append hps).append hrest⟩
  | @array _ es' _ rest' _ _ _ _ _ ts us vs hheld _ _ ihes ihrest =>
    intro later hs hpart hvalue
    rw [List.append_assoc, List.append_assoc] at hs hpart hvalue
    have hus : us ++ (vs ++ later) <:+ ts ++ (us ++ (vs ++ later)) := List.suffix_append _ _
    have hvs : vs ++ later <:+ us ++ (vs ++ later) := List.suffix_append _ _
    obtain ⟨hes', hrest'⟩ := (covers_append _ _).mp ((covers_cons _ _).mp hpart).2
    obtain ⟨hm, hheld⟩ := hheld.precedes hs hvalue
    obtain ⟨-, hes⟩ := ihes (hs.mono hus) (Spares.mono hes' hus) hm
    obtain ⟨-, hrest⟩ := ihrest (hs.mono (hvs.trans hus)) (Spares.mono hrest' (hvs.trans hus))
      (covers_restSlice _ (hm.mono hvs))
    exact ⟨nofun, (hheld.append hes).append hrest⟩
  | noRest value => exact fun _ _ _ => ⟨nofun, .nothing s _⟩
  | someRest _ ih => exact ih
  | @keyed _ _ _ _ _ _ _ _ _ _ _ _ _ _ ts us vs hkey hfallback _ ih =>
    intro later hs hpart hvalue
    rw [List.append_assoc, List.append_assoc] at hs hpart hvalue
    have hus : us ++ (vs ++ later) <:+ ts ++ (us ++ (vs ++ later)) := List.suffix_append _ _
    have hvs : vs ++ later <:+ us ++ (vs ++ later) := List.suffix_append _ _
    obtain ⟨hparts, hfallback'⟩ := (covers_append _ _).mp hpart
    obtain ⟨hkey', htarget'⟩ := (covers_append _ _).mp hparts
    obtain ⟨⟨haccess, hexcluded⟩, hheld⟩ := hkey.precedes hs hvalue hkey'
    obtain ⟨haccess', hbefore⟩ := hfallback.precedes (hs.mono hus) haccess
      (Spares.mono hfallback' hus)
    obtain ⟨-, htarget⟩ := ih (hs.mono (hvs.trans hus)) (Spares.mono htarget' (hvs.trans hus))
      haccess'
    exact ⟨List.forall_mem_singleton.mpr (hexcluded.mono (List.suffix_append_of_suffix
      (List.suffix_append _ _))), (hheld.append hbefore).append htarget⟩
  | @shorthand _ _ _ _ _ _ ts x hfallback =>
    intro later hs hpart hvalue
    obtain ⟨hx, hfallback'⟩ := (covers_cons _ _).mp hpart
    obtain ⟨haccess, hbefore⟩ := hfallback.precedes hs ((covers_dot _ _).mpr hvalue) hfallback'
    have hsuffix := List.suffix_append ts later
    have hx' := Spares.mono ((covers_identExpr x).mpr ((admits_ident x).mp hx)) hsuffix
    have hbind := (hs.mono hsuffix).precedes_ident ((covers_identExpr x).mp hx') haccess
    have hall : s.Precedes _ (ts ++ []) later _ := hbefore.append hbind
    rw [List.append_nil] at hall
    exact ⟨List.forall_mem_singleton.mpr (covers_ofString _), hall⟩
  | noProperties value => exact fun _ _ _ => ⟨nofun, .nothing s _⟩
  | @properties _ _ _ _ _ _ _ _ _ _ ts us _ _ ihp ihps =>
    intro later hs hpart hvalue
    rw [List.append_assoc] at hs hpart hvalue
    have hus : us ++ later <:+ ts ++ (us ++ later) := List.suffix_append _ _
    obtain ⟨hp', hps'⟩ := (covers_append _ _).mp hpart
    obtain ⟨hkeys, hp⟩ := ihp hs hp' hvalue
    obtain ⟨hkeys', hps⟩ := ihps (hs.mono hus) (Spares.mono hps' hus) (hvalue.mono hus)
    refine ⟨List.forall_mem_append.mpr ⟨fun key hkey => ?_, hkeys'⟩, hp.append hps⟩
    exact (hkeys key hkey).mono (List.suffix_append _ _)
  | hole value => exact fun _ _ _ => ⟨nofun, .nothing s _⟩
  | @element _ _ _ _ _ _ _ _ ts us hfallback _ ih =>
    intro later hs hpart hvalue
    rw [List.append_assoc] at hs hpart hvalue
    have hus : us ++ later <:+ ts ++ (us ++ later) := List.suffix_append _ _
    obtain ⟨htarget', hfallback'⟩ := (covers_append _ _).mp hpart
    obtain ⟨haccess, hbefore⟩ := hfallback.precedes hs hvalue hfallback'
    obtain ⟨-, htarget⟩ := ih (hs.mono hus) (Spares.mono htarget' hus) haccess
    exact ⟨nofun, hbefore.append htarget⟩
  | noSlots index value => exact fun _ _ _ => ⟨nofun, .nothing s _⟩
  | @slots _ _ _ _ _ _ _ _ ts us _ _ ihe ihes =>
    intro later hs hpart hvalue
    rw [List.append_assoc] at hs hpart hvalue
    have hus : us ++ later <:+ ts ++ (us ++ later) := List.suffix_append _ _
    obtain ⟨he', hes'⟩ := (covers_append _ _).mp hpart
    obtain ⟨-, he⟩ := ihe hs he' ((covers_lookup _ _).mpr ⟨hvalue, covers_ofNumber _⟩)
    obtain ⟨-, hes⟩ := ihes (hs.mono hus) (Spares.mono hes' hus) (hvalue.mono hus)
    exact ⟨nofun, he.append hes⟩

end Parts

/-! ## Identifiers of the source -/

/-- The identifier of the source that an expression assigns as it stands, looking through the calls
of the exporter, and the names that these publish it under, the innermost first. -/
def Setting.binding? (s : Setting) (e : Expr) : Option (Ident × List String) :=
  match e.peel s.exporter with
  | (names, .assign .plain (.ident x) _) => if x.id.isSynthetic then none else some (x, names)
  | _ => none

namespace Setting
variable {s : Setting}

theorem binding?_bindingAssignment {x : Ident} (hx : x.id.isSynthetic = false) (value : Expr) :
    s.binding? (s.bindingAssignment x value) = some (x, s.exportNames x) := by
  have hpeel : (s.bindingAssignment x value).peel s.exporter =
      (s.exportNames x, .assignTo (.ident x) value) := peel_published x rfl
  rw [binding?, hpeel]
  exact if_neg (by rw [hx]; exact Bool.false_ne_true)

/-- Assignments in order bind the identifiers among their targets, each under its names. -/
theorem BindsInOrder.bindings {leaves : List Leaf} {ts : List String} {es : List Expr}
    (h : s.BindsInOrder leaves ts es)
    (hsource : ∀ x ∈ leaves.filterMap Leaf.ident?, x.id.isSynthetic = false) :
    es.filterMap s.binding? = (leaves.filterMap Leaf.ident?).map fun x => (x, s.exportNames x) := by
  induction h with
  | nil => rfl
  | temporary _ _ ih => exact ih hsource
  | target _ _ _ ih => exact ih hsource
  | @ident x value _ _ _ _ _ ih =>
    obtain ⟨hx, hsource⟩ := List.forall_mem_cons.mp hsource
    have hbinding := binding?_bindingAssignment (s := s) hx value
    rw [List.filterMap_cons_some hbinding, ih hsource]
    rfl

end Setting

/-! ## Patterns -/

/-- The names that a setting writes and those of a tree are in use, so that none is drawn. -/
structure Progress.Knows (p : Progress) (s : Setting) (vs : List Visit) : Prop where
  exporter : p.hoisting.supply.isUsed s.exporter = true
  context : p.hoisting.supply.isUsed s.context = true
  holders : ∀ declaration holder, s.holders.lookup declaration = some holder →
    p.hoisting.supply.isUsed holder = true
  names : ∀ x ∈ identsIn vs, p.hoisting.supply.isUsed x.name = true

namespace Progress

/-- A name that may be drawn: it is not in use, and it is not the helper for object rests. -/
def IsFree (p : Progress) (name : String) : Prop :=
  p.hoisting.supply.isUsed name = false ∧ name ≠ restName

variable {p p' : Progress} {s : Setting} {vs ws : List Visit} {names ts : List String}

theorem not_isFree {name : String} (h : p.hoisting.supply.isUsed name = true) : ¬p.IsFree name := by
  rintro ⟨hunused, -⟩
  rw [h] at hunused
  cases hunused

theorem Knows.spokenIn (h : p.Knows s vs) : s.SpokenIn (sparing p.IsFree) where
  exporter := not_isFree h.exporter
  publishes := trivial
  context := not_isFree h.context
  holders declaration holder hlookup :=
    ⟨not_isFree (h.holders declaration holder hlookup), trivial⟩
  rest hfree := hfree.2 rfl
  madeUp _ _ := trivial

theorem Knows.covers (h : p.Knows s vs) : (sparing p.IsFree).Covers vs := fun v hv =>
  ⟨fun x hx => not_isFree (h.names x (List.mem_filterMap.mpr ⟨v, hv, hx⟩)), fun _ _ => trivial,
    fun _ _ => trivial⟩

/-- Temporaries that are drawn are free before. -/
theorem Draws.isFree (h : p.Draws ts p') : ∀ t ∈ ts, p.IsFree t := by
  refine fun t ht => ⟨h.supply.unused t ht, fun hrest => ?_⟩
  obtain ⟨n, -, rfl⟩ := h.supply.passed t ht
  exact NameSupply.IsMadeUp.not_mem_helperNames (.inr ⟨n, rfl⟩) (by simp [hrest, helperNames])

end Progress

/-- `export var { k: [a = 1, o.m], ...b } = c;` -/
def nestedDefaults : Pattern :=
  .object [.keyed (.name "k") (.array [some ⟨.ident ⟨.numbered 0, "a"⟩, some (.ofNumber "1")⟩,
    some ⟨.expr ((Expr.ident ⟨.numbered 1, "o"⟩).dot "m"), none⟩] none) none]
    (some (.ident ⟨.numbered 2, "b"⟩))

@[inherit_doc nestedDefaults]
def nestedDefaultsFile : SourceFile where
  id := .numbered 10
  name := "m.ts"
  statements := [.var { isExported := true }
    ⟨.var, [⟨nestedDefaults, some (.ident ⟨.numbered 3, "c"⟩)⟩]⟩]

end RegisterForm
