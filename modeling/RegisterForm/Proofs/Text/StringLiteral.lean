import RegisterForm.Text.Quoted
import Mathlib.Tactic.IntervalCases
/-!
# String literals

A string literal of the language, between double quotes and in strict code, stands for a list of
code units of sixteen bits. Reading goes character by character: what an escape means is known
from the characters before, and a zero that is escaped stands for the null character only if no
digit follows. The text printed for a string reads back as that string, and as no other, unless
the string holds a digit right after a null character.
-/
namespace RegisterForm.Text

/-- The code units of a code point: one, or a pair of surrogates. -/
def codeUnits (n : Nat) : List Nat :=
  if n < 0x10000 then [n]
  else [0xD800 + (n - 0x10000) / 0x400, 0xDC00 + (n - 0x10000) % 0x400]

/-- The code units of a text. -/
def textUnits (cs : List Char) : List Nat := cs.flatMap fun c => codeUnits c.toNat

/-! ## Reading -/

def hexDigit? (c : Char) : Option Nat :=
  if c.isDigit then some (c.toNat - '0'.toNat)
  else if 'a' ≤ c ∧ c ≤ 'f' then some (c.toNat - 'a'.toNat + 10)
  else if 'A' ≤ c ∧ c ≤ 'F' then some (c.toNat - 'A'.toNat + 10)
  else none

/-- The code units that a character stands for behind a backslash, where it is neither a digit,
the mark of a hexadecimal escape nor the end of a line. -/
def escapedUnits : Char → List Nat
  | 'b' => [0x08]
  | 't' => [0x09]
  | 'n' => [0x0A]
  | 'v' => [0x0B]
  | 'f' => [0x0C]
  | 'r' => [0x0D]
  | c => codeUnits c.toNat

/-- Characters that a backslash joins to the line before. -/
def isLineEnd (c : Char) : Bool :=
  c == '\n' || c == '\r' || c.toNat == 0x2028 || c.toNat == 0x2029

/-- Where in a literal the reader is. -/
inductive Reading where
  | text
  | afterNull
  /-- A line end of two characters may still get its second one. -/
  | afterReturn
  | escape
  | unicode
  /-- Before the last `left` digits of a code unit. -/
  | hex (left value : Nat)
  /-- Among the digits of a code point between braces. -/
  | point (hasDigits : Bool) (value : Nat)

inductive Step where
  | reject
  | close
  | read (units : List Nat) (next : Reading)

/-- A digit of a code unit that takes `left` more. -/
def hexStep (left value : Nat) (c : Char) : Step :=
  match hexDigit? c with
  | none => .reject
  | some d =>
    if left = 1 then .read [value * 16 + d] .text else .read [] (.hex (left - 1) (value * 16 + d))

def textStep (c : Char) : Step :=
  if c = '\x22' then .close
  else if c = '\\' then .read [] .escape
  else if c = '\n' ∨ c = '\r' then .reject
  else .read (codeUnits c.toNat) .text

/-- In strict code no digit but zero is escaped, and zero only where no digit follows. -/
def escapeStep (c : Char) : Step :=
  if c = '0' then .read [0] .afterNull
  else if c.isDigit then .reject
  else if c = 'x' then .read [] (.hex 2 0)
  else if c = 'u' then .read [] .unicode
  else if c = '\r' then .read [] .afterReturn
  else if isLineEnd c then .read [] .text
  else .read (escapedUnits c) .text

def pointStep (hasDigits : Bool) (value : Nat) (c : Char) : Step :=
  if c = '\x7d' then
    if hasDigits && value ≤ 0x10FFFF then .read (codeUnits value) .text else .reject
  else
    match hexDigit? c with
    | none => .reject
    | some d => .read [] (.point true (value * 16 + d))

def Reading.step : Reading → Char → Step
  | text, c => textStep c
  | afterNull, c => if c.isDigit then .reject else textStep c
  | afterReturn, c => if c = '\n' then .read [] .text else textStep c
  | escape, c => escapeStep c
  | unicode, c => if c = '\x7b' then .read [] (.point false 0) else hexStep 4 0 c
  | hex left value, c => hexStep left value c
  | point hasDigits value, c => pointStep hasDigits value c

/-- More code units before those that were read. -/
def before (units : List Nat) (read : Option (List Nat × List Char)) :
    Option (List Nat × List Char) :=
  read.map fun (more, rest) => (units ++ more, rest)

/-- Reads to the closing quote, and gives what stands behind it. -/
def readFrom : Reading → List Char → Option (List Nat × List Char)
  | _, [] => none
  | reading, c :: cs =>
    match reading.step c with
    | .reject => none
    | .close => some ([], cs)
    | .read units next => before units (readFrom next cs)

/-- Reads one literal, and gives what stands behind it. -/
def readLiteral : List Char → Option (List Nat × List Char)
  | '\x22' :: cs => readFrom .text cs
  | _ => none

example : readLiteral "\"\\x41\\u0042\\u\x7b43\x7d\\\nD\" + e".toList
    = some ([0x41, 0x42, 0x43, 0x44], " + e".toList) := by
  decide +kernel

/-! ## Code units tell texts apart -/

/-- No character is a surrogate, so that the first units of a text tell its first character. -/
theorem codeUnits_append_inj {c d : Char} {us vs : List Nat}
    (h : codeUnits c.toNat ++ us = codeUnits d.toNat ++ vs) : c = d ∧ us = vs := by
  have hvalid : ∀ c : Char, c.toNat < 0xD800 ∨ 0xDFFF < c.toNat ∧ c.toNat < 0x110000 := fun c =>
    c.valid
  have hc := hvalid c
  have hd := hvalid d
  suffices hnat : c.toNat = d.toNat by
    obtain rfl : c = d := Char.toNat_inj.mp hnat
    exact ⟨rfl, List.append_cancel_left h⟩
  simp only [codeUnits] at h
  split at h <;> split at h <;> simp only [List.cons_append, List.nil_append, List.cons.injEq] at h <;>
    omega

theorem textUnits_inj {cs ds : List Char} (h : textUnits cs = textUnits ds) : cs = ds := by
  have hne : ∀ n, codeUnits n ≠ [] := fun n => by
    rw [codeUnits]
    split <;> simp
  induction cs generalizing ds with
  | nil =>
    cases ds with
    | nil => rfl
    | cons d ds => exact absurd (List.append_eq_nil_iff.mp h.symm).1 (hne _)
  | cons c cs ih =>
    cases ds with
    | nil => exact absurd (List.append_eq_nil_iff.mp h).1 (hne _)
    | cons d ds =>
      obtain ⟨rfl, hrest⟩ := codeUnits_append_inj h
      rw [ih hrest]

/-! ## What is printed reads back -/

/-- The reading between two characters of a text. -/
def between (wasNull : Bool) : Reading := if wasNull then .afterNull else .text

theorem readFrom_cons (reading : Reading) (c : Char) (cs : List Char) :
    readFrom reading (c :: cs) =
      match reading.step c with
      | .reject => none
      | .close => some ([], cs)
      | .read units next => before units (readFrom next cs) := rfl

theorem step_between (wasNull : Bool) (c : Char) :
    (between wasNull).step c = if wasNull && c.isDigit then .reject else textStep c := by
  cases wasNull <;> rfl

/-- A backslash leads to the escape, also behind a null character. -/
theorem readFrom_backslash (wasNull : Bool) (cs : List Char) :
    readFrom (between wasNull) ('\\' :: cs) = readFrom .escape cs := by
  have hstep : (between wasNull).step '\\' = .read [] .escape := by
    cases wasNull <;> rfl
  rw [readFrom_cons, hstep]
  simp [before]

theorem hexDigit?_upperDigits (n : Nat) :
    hexDigit? (upperDigits.getD (n % 16) '0') = some (n % 16) := by
  have hlt : n % 16 < 16 := Nat.mod_lt _ (by decide)
  generalize n % 16 = d at hlt
  interval_cases d <;> rfl

theorem upperDigits_ne_brace (n : Nat) : upperDigits.getD (n % 16) '0' ≠ '\x7b' := by
  intro h
  have hdigit := hexDigit?_upperDigits n
  rw [h] at hdigit
  cases hdigit

@[simp] theorem before_nil (read : Option (List Nat × List Char)) : before [] read = read := by
  cases read <;> rfl

/-- One digit of a code unit. -/
theorem readFrom_digit (left value n : Nat) (cs : List Char) :
    readFrom (.hex left value) (upperDigits.getD (n % 16) '0' :: cs) =
      if left = 1 then before [value * 16 + n % 16] (readFrom .text cs)
      else readFrom (.hex (left - 1) (value * 16 + n % 16)) cs := by
  rw [readFrom_cons, Reading.step, hexStep, hexDigit?_upperDigits]
  by_cases hlast : left = 1
  · simp only [if_pos hlast]
  · simp only [if_neg hlast, before_nil]

theorem readFrom_unicode (n : Nat) (cs : List Char) :
    readFrom .unicode (upperDigits.getD (n % 16) '0' :: cs) =
      readFrom (.hex 4 0) (upperDigits.getD (n % 16) '0' :: cs) := by
  rw [readFrom_cons, Reading.step, if_neg (upperDigits_ne_brace n)]
  rfl

/-- Four digits read back as the code unit that they were written for. -/
theorem readFrom_hex {n : Nat} (hn : n < 0x10000) (cs : List Char) :
    readFrom .unicode (hex upperDigits 4 n ++ cs) = before [n] (readFrom .text cs) := by
  have hvalue : (((0 * 16 + n / 16 / 16 / 16 % 16) * 16 + n / 16 / 16 % 16) * 16 + n / 16 % 16) * 16
      + n % 16 = n := by omega
  simp only [hex, List.nil_append, List.cons_append]
  rw [readFrom_unicode, readFrom_digit, if_neg (by decide), readFrom_digit, if_neg (by decide),
    readFrom_digit, if_neg (by decide), readFrom_digit, if_pos rfl, hvalue]

/-- A printed character stands for itself. It is refused if it is a digit behind a null
character. -/
theorem readFrom_escapeCode (wasNull : Bool) (c : Char) (cs : List Char) :
    readFrom (between wasNull) (escapeCode c ++ cs) =
      if wasNull && c.isDigit then none
      else before (codeUnits c.toNat) (readFrom (between (c == '\x00')) cs) := by
  -- A backslash and one more character.
  have hshort : ∀ (d : Char) (cs : List Char), c.isDigit = false → (c == '\x00') = false →
      escapeStep d = .read (codeUnits c.toNat) .text →
      readFrom (between wasNull) ('\\' :: d :: cs) =
        if wasNull && c.isDigit then none
        else before (codeUnits c.toNat) (readFrom (between (c == '\x00')) cs) := by
    intro d cs hdigit hnull hstep
    rw [readFrom_backslash, readFrom_cons, Reading.step, hstep, hdigit, hnull, Bool.and_false]
    rfl
  unfold escapeCode
  split
  · next h => subst h; exact hshort _ _ rfl rfl rfl
  split
  · next h => subst h; exact hshort _ _ rfl rfl rfl
  split
  · next h => subst h; exact hshort _ _ rfl rfl rfl
  split
  · next h => subst h; exact hshort _ _ rfl rfl rfl
  split
  · next h => subst h; exact hshort _ _ rfl rfl rfl
  split
  · next h =>
    subst h
    exact (readFrom_backslash _ _).trans (by cases wasNull <;> rfl)
  split
  · next hnull h =>
    have hdigit : c.isDigit = false := by
      have hval : c.val.toNat = c.toNat := rfl
      have hzero : ('0' : Char).val.toNat = 48 := rfl
      have hnine : ('9' : Char).val.toNat = 57 := rfl
      simp only [Char.isDigit, ge_iff_le, UInt32.le_iff_toNat_le, hval, Bool.and_eq_false_iff,
        decide_eq_false_iff_not]
      omega
    have hunits : codeUnits c.toNat = [c.toNat] := by
      rw [codeUnits, if_pos (by omega)]
    have hbeq : (c == '\x00') = false := by simpa using hnull
    have hescape : escapeStep 'u' = .read [] .unicode := rfl
    rw [hdigit, hbeq, Bool.and_false, if_neg (by decide), hunits, List.cons_append,
      List.cons_append, readFrom_backslash, readFrom_cons, Reading.step, hescape]
    exact (before_nil _).trans (readFrom_hex (by omega) cs)
  · next hquote hback hnl hret _ hnull _ =>
    have hstep : textStep c = .read (codeUnits c.toNat) .text := by
      simp [textStep, *]
    have hbeq : (c == '\x00') = false := by simpa using hnull
    rw [List.singleton_append, readFrom_cons, step_between, hbeq]
    by_cases hrefused : (wasNull && c.isDigit) = true
    · rw [if_pos hrefused, if_pos hrefused]
    · rw [if_neg hrefused, if_neg hrefused, hstep]
      rfl

/-- Whether a digit stands right behind a null character. -/
def digitAfterNull : List Char → Bool
  | [] => false
  | c :: cs => (c == '\x00' && cs.head?.any Char.isDigit) || digitAfterNull cs

theorem readFrom_printed (wasNull : Bool) (cs rest : List Char) :
    readFrom (between wasNull) (cs.flatMap escapeCode ++ '\x22' :: rest) =
      if (wasNull && cs.head?.any Char.isDigit) || digitAfterNull cs then none
      else some (textUnits cs, rest) := by
  induction cs generalizing wasNull with
  | nil => cases wasNull <;> rfl
  | cons c cs ih =>
    rw [List.flatMap_cons, List.append_assoc, readFrom_escapeCode, ih, List.head?_cons,
      Option.any_some, digitAfterNull]
    by_cases hrefused : (wasNull && c.isDigit) = true
    · rw [if_pos hrefused, hrefused, Bool.true_or, if_pos rfl]
    · rw [if_neg hrefused, Bool.not_eq_true _ |>.mp hrefused, Bool.false_or]
      split
      · rfl
      · rfl

/-- The text between quotes that is printed for a string is one string literal, whatever follows
it, and it stands for that string and no other; except that a string with a digit right behind a
null character is printed as no literal at all. -/
theorem readLiteral_quote (s : String) (rest : List Char) :
    (readLiteral (quote escapeCode s ++ rest) = none ↔ digitAfterNull s.toList = true)
    ∧ ∀ t : String, readLiteral (quote escapeCode s ++ rest) = some (textUnits t.toList, rest) ↔
        t = s ∧ digitAfterNull s.toList = false := by
  have hread : readLiteral (quote escapeCode s ++ rest) =
      if digitAfterNull s.toList then none else some (textUnits s.toList, rest) := by
    have h := readFrom_printed false s.toList rest
    rw [Bool.false_and, Bool.false_or] at h
    rw [← h]
    simp [quote, readLiteral, between]
  rw [hread]
  cases digitAfterNull s.toList with
  | true => simp
  | false =>
    refine ⟨by simp, fun t => ⟨fun h => ⟨?_, rfl⟩, ?_⟩⟩
    · have hunits : textUnits s.toList = textUnits t.toList := by simpa using h
      exact String.toList_inj.mp (textUnits_inj hunits).symm
    · rintro ⟨rfl, -⟩
      rfl

/-- The null character and the digit one are printed as an octal escape, which strict code does
not have. -/
theorem nullBeforeDigit_unreadable :
    String.ofList (quote escapeCode "\x001") = "\"\\01\""
      ∧ readLiteral (quote escapeCode "\x001") = none
      ∧ readLiteral "\"\\u00001\"".toList = some (textUnits "\x001".toList, []) := by
  decide +kernel

end RegisterForm.Text
