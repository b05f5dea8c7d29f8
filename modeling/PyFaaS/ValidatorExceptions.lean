import PyFaaS.DenyRules

/-!
# Exceptions in the code validator

`validate_archive` catches a `SyntaxError` and nothing else. `zipfile`, `ast.parse`
and the visit of a deep tree may raise, and whether the loop gets to the file in
question depends on the sizes and the violations of the files before.
-/

namespace PyFaaS.ValidatorExceptions
open PythonSyntax
open CodeValidator (ValidationResult ValidationViolation SyntaxError Python Member listed flagIf visitCall visitMethod
  visitMethod_eq maxFileSize maxFiles suspicious)

structure Entry (E : Type) where
  name : Text
  fileSize : ℕ
  read : Except E (List UInt8)

/-- `interrupt` is the exception, if any, that ends the visit of a tree. -/
structure Libraries (E : Type) where
  isZipfile : List UInt8 → Bool
  zipFile : List UInt8 → Except E (List (Entry E))
  decode : List UInt8 → Text
  parse : Text → Text → Except (SyntaxError ⊕ E) Node
  interrupt : Node → Option E

section
variable {E : Type} (lib : Libraries E)

def validateSource (source filename : Text) (r : ValidationResult) : Except E ValidationResult :=
  match lib.parse source filename with
  | .error (.inl exc) =>
    .ok (r.addViolation filename (exc.lineno.getD 0) (exc.offset.getD 0) ("Syntax error: ".toList ++ exc.msg))
  | .error (.inr e) => .error e
  | .ok tree =>
    match lib.interrupt tree with
    | some e => .error e
    | none => .ok (tree.visit (visitMethod filename) r)

def getinfo (members : List (Entry E)) (member : Entry E) : Entry E :=
  (members.filter fun m => decide (m.name = member.name)).getLast?.getD member

def checkFiles (members : List (Entry E)) : List (Entry E) → ValidationResult → Except E ValidationResult
  | [], r => .ok r
  | member :: rest, r =>
    let info := getinfo members member
    if maxFileSize < info.fileSize then .ok (r.fail ("File ".toList ++ member.name ++ " exceeds size limit".toList))
    else do
      let data ← info.read
      let r ← validateSource lib (lib.decode data) member.name { r with filesChecked := r.filesChecked + 1 }
      -- too many violations
      if !r.isValid && decide (10 < r.violations.length) then .ok r else checkFiles members rest r

def isPython (member : Entry E) : Bool := decide (".py".toList <:+ member.name)

def validateArchive (archiveBytes : List UInt8) : Except E ValidationResult :=
  let result : ValidationResult := ⟨true, [], 0, none⟩
  if lib.isZipfile archiveBytes then do
    let members ← lib.zipFile archiveBytes
    if maxFiles < members.length then
      .ok (result.fail ("Archive contains too many files: ".toList ++ (toString members.length).toList ++
        " > ".toList ++ (toString maxFiles).toList))
    else
      match (members.map Entry.name).find? suspicious with
      | some name => .ok (result.fail ("Suspicious path in archive: ".toList ++ name))
      | none =>
        let pyFiles := members.filter isPython
        if pyFiles.isEmpty then .ok (result.fail "Archive contains no Python (.py) files".toList)
        else checkFiles lib members pyFiles result
  else .ok (result.fail "Uploaded file is not a valid ZIP archive".toList)

end

/-! ## Libraries that raise nothing -/

section
variable (E : Type) (python : Python) (zip : List UInt8 → Option (List Member))

def entry (m : Member) : Entry E := ⟨m.name, m.fileSize, .ok m.data⟩

def faultless : Libraries E where
  isZipfile b := (zip b).isSome
  zipFile b := .ok (((zip b).getD []).map (entry E))
  decode := python.decode
  parse source filename := (python.parse source filename).mapError Sum.inl
  interrupt _ := none

variable {E} {python} {zip}

theorem validateSource_faultless {source filename : Text} {r : ValidationResult} :
    validateSource (faultless E python zip) source filename r =
      .ok (CodeValidator.validateSource python source filename r) := by
  simp only [validateSource, CodeValidator.validateSource, faultless]
  cases python.parse source filename with
  | error exc => rfl
  | ok tree => rfl

theorem getinfo_entry {members : List Member} {m : Member} :
    getinfo (members.map (entry E)) (entry E m) = entry E (CodeValidator.getinfo members m) := by
  unfold getinfo CodeValidator.getinfo
  rw [List.filter_map, List.getLast?_map, Option.getD_map]
  rfl

theorem checkFiles_faultless {members files : List Member} {r : ValidationResult} :
    checkFiles (faultless E python zip) (members.map (entry E)) (files.map (entry E)) r =
      .ok (CodeValidator.checkFiles python members files r) := by
  induction files generalizing r with
  | nil => rfl
  | cons m files ih =>
    have hdecode : (faultless E python zip).decode = python.decode := rfl
    rw [List.map_cons, checkFiles, CodeValidator.checkFiles, getinfo_entry]
    simp only [entry, bind, Except.bind, validateSource_faultless, hdecode, ih]
    split_ifs <;> rfl

theorem validateArchive_faultless (b : List UInt8) :
    validateArchive (faultless E python zip) b = .ok (CodeValidator.validateArchive python (zip b)) := by
  have hnames : ∀ members : List Member, (members.map (entry E)).map Entry.name = members.map Member.name := by
    intro members
    simp [entry]
  have hpython : ∀ members : List Member, (members.map (entry E)).filter isPython =
      (members.filter CodeValidator.isPython).map (entry E) := by
    intro members
    rw [List.filter_map]
    rfl
  simp only [validateArchive, CodeValidator.validateArchive]
  cases hzip : zip b with
  | none => simp [faultless, hzip]
  | some members =>
    have hopen : (faultless E python zip).zipFile b = .ok (members.map (entry E)) := by simp [faultless, hzip]
    have hisZip : (faultless E python zip).isZipfile b = true := by simp [faultless, hzip]
    simp only [hisZip, hopen, if_true, bind, Except.bind, List.length_map, hnames, hpython, List.isEmpty_map,
      checkFiles_faultless]
    cases (members.map Member.name).find? suspicious with
    | some name => split_ifs <;> rfl
    | none => split_ifs <;> rfl

end

/-! ## What one file reports -/

def report (r : ValidationResult) (vs : List ValidationViolation) : ValidationResult :=
  { r with violations := r.violations ++ vs, isValid := r.isValid && vs.isEmpty }

def Reports (f : ValidationResult → ValidationResult) : Prop := ∃ vs, ∀ r, f r = report r vs

theorem report_nil (r : ValidationResult) : report r [] = r := by simp [report]

theorem report_report (r : ValidationResult) (vs ws : List ValidationViolation) :
    report (report r vs) ws = report r (vs ++ ws) := by
  have hempty : (vs ++ ws).isEmpty = (vs.isEmpty && ws.isEmpty) := by cases vs <;> rfl
  simp only [report, List.append_assoc, Bool.and_assoc, hempty]

theorem addViolation_eq (r : ValidationResult) (file : Text) (line col : ℕ) (message : Text) :
    r.addViolation file line col message = report r [⟨file, line, col, message, "ERROR".toList⟩] := by
  simp [report, ValidationResult.addViolation]

section
variable {file : Text} {node : Node} {f g : ValidationResult → ValidationResult}

theorem Reports.refl : Reports id := ⟨[], fun r => (report_nil r).symm⟩

theorem Reports.trans (hf : Reports f) (hg : Reports g) : Reports fun r => g (f r) := by
  obtain ⟨vs, hvs⟩ := hf
  obtain ⟨ws, hws⟩ := hg
  exact ⟨vs ++ ws, fun r => (hws _).trans (hvs r ▸ report_report r vs ws)⟩

theorem Reports.foldl {β : Type} {note : ValidationResult → β → ValidationResult} (xs : List β)
    (h : ∀ x, Reports fun r => note r x) : Reports fun r => xs.foldl note r := by
  induction xs with
  | nil => exact Reports.refl
  | cons x xs ih => exact (h x).trans ih

theorem Reports.flagIf (c : Bool) (message : Text) : Reports fun r => flagIf file node r c message := by
  cases c with
  | false => exact Reports.refl
  | true => exact ⟨_, fun r => addViolation_eq r file node.label.lineno node.label.colOffset message⟩

theorem Reports.visitMethod (file : Text) (node : Node) : Reports fun r => visitMethod file node id r := by
  unfold CodeValidator.visitMethod
  split
  · exact Reports.foldl _ fun a => Reports.flagIf _ _
  · exact Reports.flagIf _ _
  · unfold CodeValidator.visitCall
    split
    · exact (Reports.flagIf _ _).trans (Reports.flagIf _ _)
    · exact Reports.flagIf _ _
    · exact Reports.refl
  · exact Reports.flagIf _ _
  · exact Reports.flagIf _ _
  · exact Reports.foldl _ fun name => Reports.flagIf _ _
  · exact Reports.refl

theorem Reports.visit (file : Text) (tree : Node) : Reports fun r => tree.visit (CodeValidator.visitMethod file) r := by
  obtain ⟨vs, hvs⟩ := Reports.foldl tree.subtrees fun node => Reports.visitMethod file node
  exact ⟨vs, fun r => (SyntaxTree.visit_eq (visitMethod_eq file) tree r).trans (hvs r)⟩

end

section
variable {E : Type} (lib : Libraries E) (members : List (Entry E))

def sourceReport (source filename : Text) : Except E (List ValidationViolation) :=
  (validateSource lib source filename ⟨true, [], 0, none⟩).map ValidationResult.violations

/-- The violations of the file that is read under the name of `member`, or the exception on it. -/
def fileReport (member : Entry E) : Except E (List ValidationViolation) := do
  let data ← (getinfo members member).read
  sourceReport lib (lib.decode data) member.name

def violations (member : Entry E) : List ValidationViolation := (fileReport lib members member).toOption.getD []

def Fits (member : Entry E) : Prop := (getinfo members member).fileSize ≤ maxFileSize

def Reached (seen : ℕ) (files : List (Entry E)) (m : Entry E) : Prop :=
  ∃ before after, files = before ++ m :: after ∧ (∀ f ∈ before ++ [m], Fits members f) ∧
    seen + (before.flatMap (violations lib members)).length ≤ 10

variable {lib} {members} {source filename : Text} {r : ValidationResult} {m f : Entry E} {files : List (Entry E)}
  {vs : List ValidationViolation} {e : E} {seen : ℕ}

theorem validateSource_eq (source filename : Text) (r : ValidationResult) :
    validateSource lib source filename r = (sourceReport lib source filename).map (report r) := by
  unfold sourceReport validateSource
  cases lib.parse source filename with
  | error exc =>
    cases exc with
    | inl exc => simp [Except.map, addViolation_eq, report]
    | inr e => rfl
  | ok tree =>
    cases hinterrupt : lib.interrupt tree with
    | some e => simp [Except.map, hinterrupt]
    | none =>
      obtain ⟨vs, hvs⟩ := Reports.visit filename tree
      simp only at hvs
      simp [Except.map, hinterrupt, hvs, report]

theorem checkFiles_large (h : ¬ Fits members f) :
    checkFiles lib members (f :: files) r =
      .ok (r.fail ("File ".toList ++ f.name ++ " exceeds size limit".toList)) := by
  rw [checkFiles]
  exact if_pos (Nat.lt_of_not_le h)

theorem checkFiles_raised (hfits : Fits members f) (h : fileReport lib members f = .error e) :
    checkFiles lib members (f :: files) r = .error e := by
  rw [checkFiles]
  simp only [if_neg (Nat.not_lt_of_le hfits), bind, Except.bind]
  simp only [fileReport, bind, Except.bind] at h
  cases hread : (getinfo members f).read with
  | error e' =>
    rw [hread] at h
    cases h
    rfl
  | ok data =>
    simp only [hread] at h
    simp only [validateSource_eq, h, Except.map]

theorem checkFiles_reported (hfits : Fits members f) (h : fileReport lib members f = .ok vs) :
    checkFiles lib members (f :: files) r =
      let r := report { r with filesChecked := r.filesChecked + 1 } vs
      if !r.isValid && decide (10 < r.violations.length) then .ok r else checkFiles lib members files r := by
  rw [checkFiles]
  simp only [if_neg (Nat.not_lt_of_le hfits), bind, Except.bind]
  simp only [fileReport, bind, Except.bind] at h
  cases hread : (getinfo members f).read with
  | error e' =>
    rw [hread] at h
    cases h
  | ok data =>
    simp only [hread] at h
    simp only [validateSource_eq, h, Except.map]

/-! ## When the loop answers -/

theorem reached_cons : Reached lib members seen (f :: files) m ↔ Fits members f ∧
    ((m = f ∧ seen ≤ 10) ∨ Reached lib members (seen + (violations lib members f).length) files m) := by
  constructor
  · intro ⟨before, after, hfiles, hfits, hseen⟩
    cases before with
    | nil =>
      obtain ⟨rfl, rfl⟩ := List.cons.inj hfiles
      exact ⟨hfits f (by simp), Or.inl ⟨rfl, by simpa using hseen⟩⟩
    | cons g before =>
      obtain ⟨rfl, rfl⟩ := List.cons.inj hfiles
      refine ⟨hfits f (by simp), Or.inr ⟨before, after, rfl, fun g hg => hfits g (List.mem_cons_of_mem _ hg), ?_⟩⟩
      simp only [List.flatMap_cons, List.length_append] at hseen
      omega
  · intro ⟨hfits, h⟩
    cases h with
    | inl h =>
      obtain ⟨rfl, hseen⟩ := h
      exact ⟨[], files, rfl, by simpa using hfits, by simpa using hseen⟩
    | inr h =>
      obtain ⟨before, after, rfl, hbefore, hseen⟩ := h
      refine ⟨f :: before, after, rfl, List.forall_mem_cons.mpr ⟨hfits, hbefore⟩, ?_⟩
      simp only [List.flatMap_cons, List.length_append]
      omega

def Coherent (r : ValidationResult) : Prop := r.isValid = true ↔ r.violations = []

theorem Coherent.report (h : Coherent r) (n : ℕ) (vs : List ValidationViolation) :
    Coherent (report { r with filesChecked := n } vs) := by
  simp only [Coherent, ValidatorExceptions.report, Bool.and_eq_true, List.isEmpty_iff, List.append_eq_nil_iff]
  exact and_congr_left fun _ => h

theorem Coherent.many (h : Coherent r) :
    (!r.isValid && decide (10 < r.violations.length)) = true ↔ 10 < r.violations.length := by
  have hvalid : r.isValid = true ↔ r.violations = [] := h
  rw [Bool.and_eq_true, decide_eq_true_iff, Bool.not_eq_true', ← Bool.not_eq_true, hvalid]
  refine and_iff_right_of_imp fun hmany hnil => ?_
  simp [hnil] at hmany

theorem checkFiles_answers (hr : Coherent r) (hfew : r.violations.length ≤ 10) :
    (∃ r', checkFiles lib members files r = .ok r') ↔
      ∀ m, Reached lib members r.violations.length files m → ∃ vs, fileReport lib members m = .ok vs := by
  induction files generalizing r with
  | nil =>
    refine iff_of_true ⟨r, rfl⟩ fun m h => ?_
    obtain ⟨before, after, hfiles, -⟩ := h
    simp at hfiles
  | cons f files ih =>
    simp only [reached_cons]
    by_cases hfits : Fits members f
    · cases hreport : fileReport lib members f with
      | error e =>
        rw [checkFiles_raised hfits hreport]
        refine iff_of_false (by simp) fun h => ?_
        obtain ⟨vs, hvs⟩ := h f ⟨hfits, Or.inl ⟨rfl, hfew⟩⟩
        rw [hreport] at hvs
        cases hvs
      | ok vs =>
        have hlength : (violations lib members f).length = vs.length := by
          rw [violations, hreport]
          rfl
        have hcoherent := hr.report (r.filesChecked + 1) vs
        have hcount : (report { r with filesChecked := r.filesChecked + 1 } vs).violations.length =
            r.violations.length + vs.length := List.length_append
        rw [checkFiles_reported hfits hreport]
        dsimp only
        by_cases hmany : 10 < r.violations.length + vs.length
        · rw [if_pos (hcoherent.many.mpr (hcount ▸ hmany))]
          refine iff_of_true ⟨_, rfl⟩ fun m h => ?_
          cases h.2 with
          | inl h => exact ⟨vs, h.1 ▸ hreport⟩
          | inr h =>
            obtain ⟨before, after, -, -, hseen⟩ := h
            omega
        · have hnext := hcoherent.many.not.mpr (hcount ▸ hmany)
          rw [if_neg hnext, ih hcoherent (by omega), hcount, hlength]
          constructor
          · intro h m hm
            cases hm.2 with
            | inl hm => exact ⟨vs, hm.1 ▸ hreport⟩
            | inr hm => exact h m hm
          · exact fun h m hm => h m ⟨hfits, Or.inr hm⟩
    · rw [checkFiles_large hfits]
      exact iff_of_true ⟨_, rfl⟩ fun m h => absurd h.1 hfits

theorem checkFiles_isValid {r' : ValidationResult} (hr : Coherent r) (h : checkFiles lib members files r = .ok r') :
    r'.isValid = true ↔ r.isValid = true ∧ ∀ f ∈ files, Fits members f ∧ fileReport lib members f = .ok [] := by
  induction files generalizing r with
  | nil =>
    cases h
    simp
  | cons f files ih =>
    rw [List.forall_mem_cons]
    by_cases hfits : Fits members f
    · cases hreport : fileReport lib members f with
      | error e =>
        rw [checkFiles_raised hfits hreport] at h
        cases h
      | ok vs =>
        have hcoherent := hr.report (r.filesChecked + 1) vs
        have hvalid : (report { r with filesChecked := r.filesChecked + 1 } vs).isValid = true ↔
            r.isValid = true ∧ vs = [] := by simp [report]
        rw [checkFiles_reported hfits hreport] at h
        dsimp only at h
        split_ifs at h with hmany
        · -- the early exit leaves an invalid result
          cases h
          have hinvalid := (Bool.and_eq_true_iff.mp hmany).1
          have hfalse : ¬ (r.isValid = true ∧ vs = []) := by
            rw [← hvalid]
            simpa using hinvalid
          rw [hvalid]
          refine iff_of_false hfalse fun h => hfalse ⟨h.1, ?_⟩
          simpa using h.2.1.2
        · rw [ih hcoherent h, hvalid, and_assoc]
          simp [hfits]
    · rw [checkFiles_large hfits] at h
      cases h
      simp [ValidationResult.fail, hfits]

/-! ## Archives -/

variable (lib) (members) in
def Unreadable (m : Entry E) : Prop :=
  (∀ data, (getinfo members m).read ≠ .ok data) ∨ isPython m = true ∧ ∀ vs, fileReport lib members m ≠ .ok vs

variable (lib) in
def Troubled (archiveBytes : List UInt8) : Prop :=
  lib.isZipfile archiveBytes = true ∧
    ∀ members, lib.zipFile archiveBytes = .ok members → ∃ m ∈ members, Unreadable lib members m

variable (members) in
def RejectedByNames : Prop :=
  maxFiles < members.length ∨ (∃ m ∈ members, suspicious m.name = true) ∨ ∀ m ∈ members, isPython m = false

theorem validateArchive_rejected {b : List UInt8} (hzip : lib.isZipfile b = true) (hopen : lib.zipFile b = .ok members)
    (h : RejectedByNames members) : ∃ r, validateArchive lib b = .ok r ∧ r.isValid = false := by
  simp only [validateArchive, hzip, hopen, if_true, bind, Except.bind]
  split_ifs with hmany hempty
  · exact ⟨_, rfl, rfl⟩
  · split <;> exact ⟨_, rfl, rfl⟩
  · cases hfind : (members.map Entry.name).find? suspicious with
    | some name => exact ⟨_, rfl, rfl⟩
    | none =>
      -- neither the names nor the number of files rejects the archive
      exfalso
      have hnames : ∀ m ∈ members, suspicious m.name = false := by simpa using hfind
      rcases h with h | ⟨m, hm, h⟩ | h
      · exact hmany h
      · simp [hnames m hm] at h
      · exact hempty (by simpa using h)

theorem validateArchive_checked {b : List UInt8} (hzip : lib.isZipfile b = true) (hopen : lib.zipFile b = .ok members)
    (h : ¬ RejectedByNames members) :
    validateArchive lib b = checkFiles lib members (members.filter isPython) ⟨true, [], 0, none⟩ := by
  simp only [RejectedByNames, not_or, not_exists, not_and] at h
  obtain ⟨hmany, hnames, hpython⟩ := h
  have hfind : (members.map Entry.name).find? suspicious = none := by simpa using hnames
  have hfiles : ¬ (members.filter isPython).isEmpty = true := by simpa using hpython
  simp [validateArchive, hzip, hopen, bind, Except.bind, hmany, hfind, hfiles]

theorem names_of_accepted {b : List UInt8} (hr : validateArchive lib b = .ok r) (hvalid : r.isValid = true)
    (hopen : lib.zipFile b = .ok members) : ¬ RejectedByNames members := by
  intro h
  by_cases hzip : lib.isZipfile b = true
  · obtain ⟨r', hr', hinvalid⟩ := validateArchive_rejected hzip hopen h
    rw [hr] at hr'
    cases hr'
    simp [hvalid] at hinvalid
  · rw [validateArchive, if_neg hzip] at hr
    cases hr
    cases hvalid

theorem plain_of_accepted {b : List UInt8} (hr : validateArchive lib b = .ok r) (hvalid : r.isValid = true)
    (hopen : lib.zipFile b = .ok members) (hdistinct : (members.map Entry.name).Nodup) :
    ∀ m ∈ members, getinfo members m = m ∧ suspicious m.name = false := by
  intro m hm
  refine ⟨CodeValidator.last_named hdistinct hm, ?_⟩
  by_contra hsuspicious
  exact names_of_accepted hr hvalid hopen (Or.inr (Or.inl ⟨m, hm, by simpa using hsuspicious⟩))

theorem checkFiles_settles :
    (∃ r, checkFiles lib members (members.filter isPython) ⟨true, [], 0, none⟩ = .ok r ∧
      ((∃ m ∈ members, Unreadable lib members m) → r.isValid = false)) ↔
      (∀ m, Reached lib members 0 (members.filter isPython) m → ∃ vs, fileReport lib members m = .ok vs) ∧
        ((∀ f ∈ members.filter isPython, Fits members f ∧ fileReport lib members f = .ok []) →
          ∀ m ∈ members, ∃ data, (getinfo members m).read = .ok data) := by
  have hstart : Coherent ⟨true, [], 0, none⟩ := by simp [Coherent]
  have hanswers : (∃ r, checkFiles lib members (members.filter isPython) ⟨true, [], 0, none⟩ = .ok r) ↔
      ∀ m, Reached lib members 0 (members.filter isPython) m → ∃ vs, fileReport lib members m = .ok vs :=
    checkFiles_answers hstart (Nat.zero_le _)
  constructor
  · intro h
    obtain ⟨r, hr, htrouble⟩ := h
    refine ⟨hanswers.mp ⟨r, hr⟩, fun hclean m hm => ?_⟩
    have hvalid : r.isValid = true := (checkFiles_isValid hstart hr).mpr ⟨rfl, hclean⟩
    by_contra hread
    have hinvalid := htrouble ⟨m, hm, Or.inl (not_exists.mp hread)⟩
    simp [hvalid] at hinvalid
  · intro h
    obtain ⟨hraises, hwhole⟩ := h
    obtain ⟨r, hr⟩ := hanswers.mpr hraises
    refine ⟨r, hr, fun ⟨m, hm, hunreadable⟩ => ?_⟩
    by_contra hvalid
    have hclean := ((checkFiles_isValid hstart hr).mp (by simpa using hvalid)).2
    obtain ⟨data, hread⟩ := hwhole hclean m hm
    cases hunreadable with
    | inl h => exact h data hread
    | inr h => exact h.2 [] (hclean m (List.mem_filter.mpr ⟨hm, h.1⟩)).2

/-- A verdict comes back, negative for an archive in trouble, exactly if the bytes are no archive, or the archive
opens and either falls by its names, or raises on no file that is reached and is whole if nothing is reported. -/
theorem validateArchive_answers_iff {E : Type} (lib : Libraries E) (archiveBytes : List UInt8) :
    (∃ r, validateArchive lib archiveBytes = .ok r ∧ (Troubled lib archiveBytes → r.isValid = false)) ↔
      (lib.isZipfile archiveBytes = true → ∃ members, lib.zipFile archiveBytes = .ok members ∧
        (RejectedByNames members ∨
          (∀ m, Reached lib members 0 (members.filter isPython) m → ∃ vs, fileReport lib members m = .ok vs) ∧
          ((∀ f ∈ members.filter isPython, Fits members f ∧ fileReport lib members f = .ok []) →
            ∀ m ∈ members, ∃ data, (getinfo members m).read = .ok data))) := by
  by_cases hzip : lib.isZipfile archiveBytes = true
  · simp only [hzip, true_imp_iff]
    cases hopen : lib.zipFile archiveBytes with
    | error e =>
      simp [validateArchive, hzip, hopen, bind, Except.bind]
    | ok members =>
      simp only [Except.ok.injEq, exists_eq_left', Troubled, hzip, hopen, true_and, forall_eq']
      by_cases hnames : RejectedByNames members
      · obtain ⟨r, hr, hinvalid⟩ := validateArchive_rejected hzip hopen hnames
        exact iff_of_true ⟨r, hr, fun _ => hinvalid⟩ (Or.inl hnames)
      · rw [validateArchive_checked hzip hopen hnames, or_iff_right hnames]
        exact checkFiles_settles
  · have hnone : ∃ r, validateArchive lib archiveBytes = .ok r := by
      simp [validateArchive, hzip]
    obtain ⟨r, hr⟩ := hnone
    exact iff_of_true ⟨r, hr, fun h => absurd h.1 hzip⟩ fun h => absurd h hzip

def badChecksum : Libraries Unit where
  isZipfile _ := true
  zipFile _ := .ok [⟨"handler.py".toList, 1, .error ()⟩]
  decode _ := []
  parse _ _ := .ok (.node ⟨.module, 0, 0⟩ [])
  interrupt _ := none

theorem validateArchive_raises : ¬ ∀ archiveBytes : List UInt8, ∃ r, validateArchive badChecksum archiveBytes = .ok r ∧
    (Troubled badChecksum archiveBytes → r.isValid = false) := by
  have hraised : validateArchive badChecksum [] = .error () := by
    have hnames : ¬ RejectedByNames [(⟨"handler.py".toList, 1, .error ()⟩ : Entry Unit)] := by
      simp only [RejectedByNames, List.mem_singleton, exists_eq_left, forall_eq]
      decide
    have hfits : Fits [(⟨"handler.py".toList, 1, .error ()⟩ : Entry Unit)] ⟨"handler.py".toList, 1, .error ()⟩ := by
      unfold Fits
      decide
    rw [validateArchive_checked rfl rfl hnames]
    exact checkFiles_raised hfits rfl
  intro h
  obtain ⟨r, hr, -⟩ := h []
  rw [hraised] at hr
  cases hr

end

end PyFaaS.ValidatorExceptions
