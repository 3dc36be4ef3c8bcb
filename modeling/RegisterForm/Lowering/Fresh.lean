import RegisterForm.Limit
import Std.Data.TreeSet
/-!
# Fresh names

Names that occur nowhere in a file and that were not given out before. A wanted name gets
the least free number; temporaries are short and counted through.
-/
namespace RegisterForm

structure NameSupply where
  /-- Every name of the file and every name given out. -/
  used : Std.TreeSet String := {}
  /-- Temporaries tried so far. -/
  temporaries : Nat := 0

namespace NameSupply

def isUsed (supply : NameSupply) (name : String) : Bool := supply.used.contains name

def use (name : String) (supply : NameSupply) : NameSupply :=
  { supply with used := supply.used.insert name }

/-- Using a name uses that name and no other. -/
theorem isUsed_use (supply : NameSupply) (a b : String) :
    (supply.use a).isUsed b = (a == b || supply.isUsed b) := by
  simp only [use, isUsed, Std.TreeSet.contains_insert]
  congr 1
  rw [Bool.eq_iff_iff]
  simp

/-- The wanted name as the numbers follow it, with one underscore between. -/
def numberedStem (base : String) : String :=
  if base.toList.getLast? == some '_' then base else base ++ "_"

def numbered (stem : String) (n : Nat) : String := stem ++ toString n

/-- The first number from `n` on whose name is free; after `attempts` numbers the next one. -/
def freeNumber (supply : NameSupply) (stem : String) : Nat → Nat → Nat
  | 0, n => n
  | attempts + 1, n =>
    if supply.isUsed (numbered stem n) then supply.freeNumber stem attempts (n + 1) else n

/-- A name that starts with the wanted one. -/
def unique (base : String) (supply : NameSupply) : String × NameSupply :=
  let stem := numberedStem base
  let name := numbered stem (supply.freeNumber stem maxNameAttempts 1)
  (name, supply.use name)

theorem isUsed_unique (supply : NameSupply) (base : String) :
    (supply.unique base).2.isUsed (supply.unique base).1 = true := by
  simp [unique, isUsed_use]

/-- The temporaries in order: `_a` to `_z`, then `_27` and on. -/
def temporaryName (n : Nat) : String :=
  if n < 26 then String.ofList ['_', Char.ofNat ('a'.toNat + n)] else "_" ++ toString (n + 1)

/-- The first temporary from the `n`-th on whose name is free, among `bound` of them. -/
def freeTemporary (supply : NameSupply) : Nat → Nat → Nat
  | 0, n => n
  | bound + 1, n =>
    if supply.isUsed (temporaryName n) then supply.freeTemporary bound (n + 1) else n

/-- A fresh temporary. The used names are too few to hold every temporary tried. -/
def temporary (supply : NameSupply) : String × NameSupply :=
  let n := supply.freeTemporary supply.used.size supply.temporaries
  let name := temporaryName n
  (name, { supply.use name with temporaries := n + 1 })

theorem isUsed_temporary (supply : NameSupply) :
    supply.temporary.2.isUsed supply.temporary.1 = true := by
  simp [temporary, isUsed, use]

end NameSupply
end RegisterForm
