import RegisterForm.Batch
/-!
# Sessions over several files

A session is used for one file after the other. Whatever the files before were and whether or not
they could be lowered, each file is bound and lowered as it is on its own.
-/
namespace RegisterForm

open NameTable

theorem NameTable.rebind_eq_ofFile (file : SourceFile) (t : NameTable) :
    t.rebind file = ofFile file := by
  rw [ofFile, rebind_eq, rebind_eq]

namespace Session

variable {options : Options} {file : SourceFile} {files : List SourceFile}

/-- One step: the file is lowered with names of its own only, and the session is done with it. -/
theorem lowerNext_eq (file : SourceFile) (s : Session) (h : s.isInFile = false) :
    s.lowerNext file h =
      (lower s.options (ofFile file) file, { options := s.options, names := ofFile file }) := by
  simp only [lowerNext, bind, rebind_eq_ofFile]
  rfl

theorem options_lowerNext (file : SourceFile) (s : Session) (h : s.isInFile = false) :
    (s.lowerNext file h).2.options = s.options := by
  rw [lowerNext_eq]

/-- The step does not depend on what the session did before. -/
theorem lowerNext_fresh (file : SourceFile) (s : Session) (h : s.isInFile = false) :
    s.lowerNext file h = lowerNext file { options := s.options } (isInFile_mk ..) := by
  rw [lowerNext_eq, lowerNext_eq]

/-- A whole run is the list of its steps, each on a session of its own. -/
theorem lowerEach_eq (files : List SourceFile) (s : Session) (h : s.isInFile = false) :
    s.lowerEach files h = files.map fun file => lowerNext file { options := s.options } (isInFile_mk ..) := by
  induction files generalizing s with
  | nil => rfl
  | cons file files ih =>
    rw [lowerEach, ih, options_lowerNext, lowerNext_fresh, List.map_cons]

end Session

namespace Batch

variable {options : Options} {file : SourceFile} {files : List SourceFile}

/-- The session of a batch makes no difference to the next file. -/
theorem lowerNext_fst (file : SourceFile) (s : Session) (h : s.isInFile = false) :
    (lowerNext file s h).1 = lowerFile s.options file := by
  unfold lowerFile lowerNext
  rw [Session.lowerNext_fresh file { s with names := {} } h]

theorem options_lowerNext (file : SourceFile) (s : Session) (h : s.isInFile = false) :
    (lowerNext file s h).2.options = s.options :=
  Session.options_lowerNext file _ h

theorem lowerRest_ok {results : List LoweredFile} (s : Session) (h : s.isInFile = false)
    (hfiles : files.map (lowerFile s.options) = results.map .ok) :
    lowerRest s h files = .ok results := by
  induction files generalizing s results with
  | nil =>
    obtain rfl : results = [] := by simpa using hfiles.symm
    rfl
  | cons file files ih =>
    obtain ⟨result, results, rfl⟩ : ∃ r rs, results = r :: rs := by
      cases results with
      | nil => cases hfiles
      | cons r rs => exact ⟨r, rs, rfl⟩
    obtain ⟨hfile, hrest⟩ := List.cons.inj hfiles
    rw [lowerRest, lowerNext_fst, hfile]
    dsimp only
    rw [ih _ _ (by rwa [options_lowerNext])]
    rfl

theorem lowerRest_error {before after : List SourceFile} {e : BatchError} (s : Session)
    (h : s.isInFile = false) (hbefore : ∀ f ∈ before, ∃ r, lowerFile s.options f = .ok r)
    (hfile : lowerFile s.options file = .error e) :
    lowerRest s h (before ++ file :: after) = .error e := by
  induction before generalizing s with
  | nil => rw [List.nil_append, lowerRest, lowerNext_fst, hfile]
  | cons f before ih =>
    obtain ⟨⟨r, hr⟩, hrest⟩ := List.forall_mem_cons.mp hbefore
    rw [List.cons_append, lowerRest, lowerNext_fst, hr]
    dsimp only
    rw [ih _ _ (by rwa [options_lowerNext]) (by rwa [options_lowerNext])]
    rfl

end Batch

/-- Nothing leaks from one file to the next. In a session that has lowered any files, and holds the
names of any, each further file gives what it gives in a session of its own: its result, which is that
of its own names, and with these names the same symbols, scopes, counts and resolved identifiers. The
session is in no file after any of them, so that no file is taken up inside another. A batch then
gives the results of its files in order, or the error of the first file that fails. -/
theorem Session.lowerEach_isolated (s : Session) (h : s.isInFile = false)
    (files : List SourceFile) :
    s.lowerEach files h = (files.map fun file => lowerNext file { options := s.options } (isInFile_mk ..)) ∧
    (s.lowerEach files h).map (fun r => (r.1, r.2.names)) =
      files.map (fun file => (lower s.options (ofFile file) file, ofFile file)) ∧
    (∀ r ∈ s.lowerEach files h, r.2.isInFile = false) ∧
    (∀ results, files.map (Batch.lowerFile s.options) = results.map .ok →
      Batch.lowerFiles s.options files = .ok results) ∧
    ∀ before file after e, files = before ++ file :: after →
      (∀ f ∈ before, ∃ r, Batch.lowerFile s.options f = .ok r) →
      Batch.lowerFile s.options file = .error e →
      Batch.lowerFiles s.options files = .error e := by
  refine ⟨lowerEach_eq files s h, ?_, ?_, ?_, ?_⟩
  · rw [lowerEach_eq, List.map_map]
    apply List.map_congr_left
    intro file _
    rw [Function.comp_apply, lowerNext_eq]
  · intro r hr
    rw [lowerEach_eq] at hr
    obtain ⟨file, -, rfl⟩ := List.mem_map.mp hr
    rfl
  · intro results hfiles
    exact Batch.lowerRest_ok { options := s.options } rfl hfiles
  · rintro before file after e rfl hbefore hfile
    exact Batch.lowerRest_error { options := s.options } rfl hbefore hfile

/-- `import m;`, with a name where the specifier should be -/
def unreadableImport : SourceFile where
  id := .numbered 1
  name := "a.ts"
  statements := [.importFrom ⟨.numbered 2, {}⟩ none (.ident ⟨.numbered 3, "m"⟩) false]

/-- `export var x = 1;` -/
def exportedOne : SourceFile where
  id := .numbered 4
  name := "b.ts"
  statements := [.var { isExported := true }
    ⟨.var, [⟨.ident ⟨.numbered 5, "x"⟩, some (.literal (.number "1"))⟩]⟩]

/-- A session that could not lower a file, and then lowers two more. -/
theorem Session.lowerEach_isolated_afterError :
    let s := (Session.lowerNext unreadableImport { options := {} } rfl).2
    s.isInFile = false ∧
      (s.lowerEach [exportedOne, unreadableImport] rfl).map (fun r => (r.1, r.2.names)) =
        [(lower {} (ofFile exportedOne) exportedOne, ofFile exportedOne),
          (lower {} (ofFile unreadableImport) unreadableImport, ofFile unreadableImport)] ∧
      Batch.lowerFiles {} [exportedOne, unreadableImport] =
        .error (.lowering "a.ts" (.unreadableSpecifier "a.ts" {})) := by
  intro s
  obtain ⟨-, hresults, -, -, herror⟩ :=
    Session.lowerEach_isolated s rfl [exportedOne, unreadableImport]
  refine ⟨rfl, hresults, herror [exportedOne] unreadableImport [] _ rfl ?_ rfl⟩
  intro f hf
  obtain rfl : f = exportedOne := by simpa using hf
  exact ⟨_, rfl⟩

end RegisterForm
