import PyFaaS.ArchiveExtraction
import PyFaaS.Entrypoints
import PyFaaS.Glob
import PyFaaS.Routers.Executions

/-!
# From a local folder to the directory of the runner

`sopm deploy` packs the files of a folder that `.sopmignore` does not name, and the
runner extracts the archive. Every path stays what it is on the way, unless it
contains two dots in a row or lies where the runner keeps its own files.
-/

namespace PyFaaS.Deployments
open ArchiveExtraction Directories TextLines ValidatorExceptions
open Api (strip)
open CodeValidator (suspicious)

/-! ## `fnmatch` -/

def inSet : Text → Char → Bool
  | a :: '-' :: b :: rest, c => (decide (a ≤ c) && decide (c ≤ b)) || inSet rest c
  | a :: rest, c => decide (a = c) || inSet rest c
  | [], _ => false

def bracket : Text → Char → Bool
  | '!' :: rest, c => !inSet rest c
  | stuff, c => inSet stuff c

def splitPrefix (c : Char) : Text → Text × Text
  | d :: rest => if d = c then ([d], rest) else ([], d :: rest)
  | [] => ([], [])

/-- What stands behind `[` up to its `]`, which is neither the first character nor the
one behind the first `!`, and the rest. -/
def closing (s : Text) : Option (Text × Text) :=
  let (bang, s) := splitPrefix '!' s
  let (first, s) := splitPrefix ']' s
  match s.dropWhile fun c => decide (c ≠ ']') with
  | [] => none
  | _ :: rest => some (bang ++ first ++ s.takeWhile fun c => decide (c ≠ ']'), rest)

def translate : ℕ → Text → List (Glob.Token Char)
  | 0, _ | _, [] => []
  | n + 1, c :: rest =>
    if c = '*' then .star :: translate n rest
    else if c = '?' then .one (fun _ => true) :: translate n rest
    else if c = '[' then
      match closing rest with
      | none => .one (fun d => decide (d = '[')) :: translate n rest
      | some (stuff, rest) => .one (bracket stuff) :: translate n rest
    else .one (fun d => decide (d = c)) :: translate n rest

def fnmatch (name pat : Text) : Bool := Glob.run (translate pat.length pat) name

/-! ## `cli/sopm.py` -/

def Proper (name : Text) : Prop := name ≠ [] ∧ '/' ∉ name ∧ name ≠ ".".toList ∧ name ≠ "..".toList

structure Folder where
  tree : Directory Text Data
  listing : List (List Text)
  listed : ∀ path, path ∈ listing ↔ path ≠ [] ∧ (tree path).isSome = true
  once : listing.Nodup
  above : ∀ path, (tree path).isSome = true → ∀ q, q <+: path → q ≠ path → tree q = some .directory
  names : ∀ path, (tree path).isSome = true → ∀ name ∈ path, Proper name

def asPosix (path : List Text) : Text := ['/'].intercalate path

def pathName (rel : Text) : Text := (rel.splitOn '/').getLast?.getD []

/-- Reading the file may raise. A line is looked at for `#` before it is stripped. -/
def ignorePatterns (readText : Data → Option Text) (root : Folder) : Option (List Text) :=
  match root.tree [".sopmignore".toList] with
  | none => some []
  | some .directory => none
  | some (.file data) => (readText data).map fun text =>
    ((splitlines text).filter fun line => !(strip line).isEmpty && !decide ("#".toList <+: line)).map strip

def shouldIgnore (rel : Text) (patterns : List Text) : Bool :=
  patterns.any fun pat => fnmatch rel pat || fnmatch (pathName rel) pat

def packed (patterns : List Text) (root : Folder) (file : List Text) : Option (List Text × Data) :=
  match root.tree file with
  | some (.file data) => if shouldIgnore (asPosix file) patterns then none else some (file, data)
  | _ => none

def included (patterns : List Text) (root : Folder) : List (List Text × Data) :=
  root.listing.filterMap (packed patterns root)

def zipFolder (readText : Data → Option Text) (root : Folder) : Option (List (Text × Data)) :=
  (ignorePatterns readText root).map fun patterns => (included patterns root).map fun x => (asPosix x.1, x.2)

/-! ## The archive -/

/-- `zipfile` reads back the members that it has written. -/
def member {E : Type} (x : Text × Data) : Entry E := ⟨x.1, x.2.length, .ok x.2⟩

structure Written {E : Type} (p : ArchiveExtraction.Platform E) (archiveBytes : Data)
    (contents : List (Text × Data)) : Prop where
  zip : p.isZipfile archiveBytes = true
  members : p.zipFile archiveBytes = .ok (contents.map member)

def Included (patterns : List Text) (root : Folder) (path : List Text) (data : Data) : Prop :=
  path ≠ [] ∧ root.tree path = some (.file data) ∧ shouldIgnore (asPosix path) patterns = false

variable {E : Type} {p : ArchiveExtraction.Platform E} {readText : Data → Option Text} {patterns : List Text}
  {root : Folder} {path : List Text} {data : Data}

theorem fnmatch_iff {name pat : Text} : fnmatch name pat = true ↔ Glob.Matches (translate pat.length pat) name :=
  Glob.run_iff

theorem shouldIgnore_iff {rel : Text} : shouldIgnore rel patterns = true ↔ ∃ pat ∈ patterns,
    Glob.Matches (translate pat.length pat) rel ∨ Glob.Matches (translate pat.length pat) (pathName rel) := by
  simp only [shouldIgnore, List.any_eq_true, Bool.or_eq_true, fnmatch_iff]

theorem packed_iff {file : List Text} {x : List Text × Data} : packed patterns root file = some x ↔
    x.1 = file ∧ root.tree x.1 = some (.file x.2) ∧ shouldIgnore (asPosix x.1) patterns = false := by
  obtain ⟨path, data⟩ := x
  unfold packed
  cases hitem : root.tree file with
  | none =>
    refine iff_of_false (by simp) fun h => ?_
    obtain ⟨rfl, h, -⟩ := h
    rw [hitem] at h
    cases h
  | some item =>
    cases item with
    | directory =>
      refine iff_of_false (by simp) fun h => ?_
      obtain ⟨rfl, h, -⟩ := h
      rw [hitem] at h
      cases h
    | file content =>
      simp only
      constructor
      · intro h
        split_ifs at h with hignored
        obtain ⟨rfl, rfl⟩ := Prod.mk.inj (Option.some.inj h)
        exact ⟨rfl, hitem, by simpa using hignored⟩
      · rintro ⟨rfl, h, hignored⟩
        rw [hitem] at h
        obtain rfl : content = data := Item.file.inj (Option.some.inj h)
        simp [hignored]

theorem mem_included : (path, data) ∈ included patterns root ↔ Included patterns root path data := by
  rw [included, List.mem_filterMap]
  constructor
  · rintro ⟨file, hfile, hpacked⟩
    obtain ⟨rfl, hincluded⟩ := packed_iff.mp hpacked
    exact ⟨((root.listed _).mp hfile).1, hincluded⟩
  · rintro ⟨hne, hincluded⟩
    exact ⟨path, (root.listed path).mpr ⟨hne, by simp [hincluded.1]⟩, packed_iff.mpr ⟨rfl, hincluded⟩⟩

theorem included_paths_nodup : ((included patterns root).map Prod.fst).Nodup := by
  have hsame : ((included patterns root).map Prod.fst).Sublist root.listing := by
    unfold included
    induction root.listing with
    | nil => exact List.Sublist.refl _
    | cons file rest ih =>
      rw [List.filterMap_cons]
      cases hpacked : packed patterns root file with
      | none => exact ih.cons _
      | some x =>
        rw [List.map_cons, (packed_iff.mp hpacked).1]
        exact ih.cons_cons _
  exact root.once.sublist hsame

theorem splitOn_asPosix (hne : path ≠ []) (hnames : ∀ name ∈ path, Proper name) :
    (asPosix path).splitOn '/' = path :=
  List.splitOn_intercalate '/' (fun name hname => (hnames name hname).2.1) hne

theorem components_asPosix (hne : path ≠ []) (hnames : ∀ name ∈ path, Proper name) :
    components (asPosix path) = path := by
  rw [components, splitOn_asPosix hne hnames, List.filter_eq_self]
  intro name hname
  obtain ⟨hempty, -, hdot, hdots⟩ := hnames name hname
  simp only [Bool.not_eq_true']
  rw [CodeValidator.listed_eq_false]
  simp only [CodeValidator.texts, List.map_cons, List.map_nil, List.mem_cons, List.not_mem_nil, or_false, not_or]
  exact ⟨hempty, hdot, hdots⟩

theorem isDir_asPosix (hne : path ≠ []) (hnames : ∀ name ∈ path, Proper name) : isDir (asPosix path) = false := by
  rw [isDir, decide_eq_false_iff_not]
  rintro ⟨x, hx⟩
  have hlast : (asPosix path).splitOn '/' = x.splitOn '/' ++ [[]] := by
    rw [← hx]
    exact Entrypoints.splitOn_append_cons (List.not_mem_nil)
  rw [splitOn_asPosix hne hnames] at hlast
  exact (hnames [] (by rw [hlast]; simp)).1 rfl

/-! ## The members in the runner -/

def memberOf (x : List Text × Data) : Entry E := member (asPosix x.1, x.2)

theorem zipFolder_members {contents : List (Text × Data)} (hpatterns : ignorePatterns readText root = some patterns)
    (hzip : zipFolder readText root = some contents) :
    contents.map member = ((included patterns root).map memberOf : List (Entry E)) := by
  rw [zipFolder, hpatterns, Option.map_some] at hzip
  rw [← Option.some.inj hzip, List.map_map]
  rfl

structure Files (root : Folder) (files : List (List Text × Data)) : Prop where
  file : ∀ x ∈ files, x.1 ≠ [] ∧ root.tree x.1 = some (.file x.2)
  once : (files.map Prod.fst).Nodup

theorem included_files (patterns : List Text) (root : Folder) : Files root (included patterns root) :=
  ⟨fun _ hx => ⟨(mem_included.mp hx).1, (mem_included.mp hx).2.1⟩, included_paths_nodup⟩

variable {files : List (List Text × Data)} {x y : List Text × Data}

theorem Files.names (h : Files root files) (hx : x ∈ files) : ∀ name ∈ x.1, Proper name :=
  root.names x.1 (by simp [(h.file x hx).2])

theorem Files.components (h : Files root files) (hx : x ∈ files) :
    ArchiveExtraction.components (memberOf x : Entry E).name = x.1 :=
  components_asPosix (h.file x hx).1 (h.names hx)

theorem Files.isDir (h : Files root files) (hx : x ∈ files) :
    ArchiveExtraction.isDir (memberOf x : Entry E).name = false :=
  isDir_asPosix (h.file x hx).1 (h.names hx)

theorem Files.tail (h : Files root (x :: files)) : Files root files :=
  ⟨fun y hy => h.file y (List.mem_cons_of_mem _ hy), (List.nodup_cons.mp h.once).2⟩

theorem Files.separate (h : Files root files) (hx : x ∈ files) (hy : y ∈ files) (hne : x.1 ≠ y.1) :
    ¬ x.1 <+: y.1 := by
  intro hbelow
  have hdirectory := root.above y.1 (by simp [(h.file y hy).2]) x.1 hbelow hne
  rw [(h.file x hx).2] at hdirectory
  cases hdirectory

theorem Files.apart (h : Files root files) : (files.map memberOf : List (Entry E)).Pairwise Apart := by
  induction files with
  | nil => exact List.Pairwise.nil
  | cons x files ih =>
    refine List.pairwise_cons.mpr ⟨?_, ih h.tail⟩
    rw [List.forall_mem_map]
    intro y hy
    have hx : x ∈ x :: files := List.mem_cons_self ..
    have hy' : y ∈ x :: files := List.mem_cons_of_mem _ hy
    have hne : x.1 ≠ y.1 := by
      intro heq
      have hnotin := (List.nodup_cons.mp h.once).1
      rw [heq] at hnotin
      exact hnotin (List.mem_map_of_mem hy)
    rw [Apart, h.components hx, h.components hy']
    exact ⟨fun _ => h.separate hx hy' hne, fun _ => h.separate hy' hx (Ne.symm hne)⟩

theorem Files.received (h : Files root files) (hown : ∀ x ∈ files, x.1 ≠ [archiveName]) :
    receivedAll p true (files.map memberOf) = .ok (files.map fun x => (x.1, Item.file x.2)) := by
  induction files with
  | nil => rfl
  | cons x files ih =>
    have hx : x ∈ x :: files := List.mem_cons_self ..
    have hintact : stillIntact true (memberOf x : Entry E) = true := by
      simp [stillIntact, h.components hx, hown x hx]
    have hitem : ArchiveExtraction.received p true (memberOf x) = .ok (.file x.2) := by
      rw [ArchiveExtraction.received_file (h.isDir hx), hintact]
      rfl
    have hrest := ih h.tail fun y hy => hown y (List.mem_cons_of_mem _ hy)
    rw [List.map_cons, List.map_cons]
    refine ArchiveExtraction.bind_ok_iff.mpr ⟨_, hitem, ?_⟩
    rw [hintact]
    refine ArchiveExtraction.bind_ok_iff.mpr ⟨_, hrest, ?_⟩
    rw [h.components hx]
    rfl

theorem Files.room (h : Files root files) {archiveBytes : Data} (hown : ∀ x ∈ files, ¬ [archiveName] <+: x.1)
    (hx : x ∈ files) : Room (stored fresh archiveBytes) x.1 true :=
  room_fresh (h.file x hx).1 (hown x hx)

theorem stored_file {archiveBytes content : Data} {q : List Text} :
    stored fresh archiveBytes q = some (.file content) ↔ q = [archiveName] ∧ content = archiveBytes := by
  by_cases hq : q = [archiveName]
  · subst hq
    simp [stored, eq_comm]
  · rw [stored, Function.update_of_ne hq]
    simp [fresh, hq]

theorem stored_directory {archiveBytes : Data} {q : List Text} :
    stored fresh archiveBytes q = some .directory ↔ q = [] := by
  by_cases hq : q = [archiveName]
  · subst hq
    simp [stored]
  · rw [stored, Function.update_of_ne hq]
    simp [fresh]

/-! ## The round trip -/

theorem plain_members (hplain : ∀ path data, Included patterns root path data → suspicious (asPosix path) = false) :
    ∀ m ∈ ((included patterns root).map memberOf : List (Entry E)),
      getinfo ((included patterns root).map memberOf) m = m ∧ suspicious m.name = false := by
  have hfiles := included_files patterns root
  have hdistinct : (((included patterns root).map memberOf : List (Entry E)).map Entry.name).Nodup := by
    rw [List.map_map]
    apply List.Nodup.of_map ArchiveExtraction.components
    rw [List.map_map]
    have hpaths : (included patterns root).map (ArchiveExtraction.components ∘ (Entry.name ∘ memberOf (E := E))) =
        (included patterns root).map Prod.fst :=
      List.map_congr_left fun x hx => hfiles.components hx
    rw [hpaths]
    exact hfiles.once
  intro m hm
  refine ⟨CodeValidator.last_named hdistinct hm, ?_⟩
  obtain ⟨x, hx, rfl⟩ := List.mem_map.mp hm
  exact hplain x.1 x.2 (mem_included.mp hx)

/-! ## What the runner places -/

def items (files : List (List Text × Data)) : List (List Text × Item Data) := files.map fun x => (x.1, .file x.2)

def deployed (archiveBytes stamp : Data) (files : List (List Text × Data)) : Directory Text Data :=
  Function.update (placedAll (stored fresh archiveBytes) (items files)) [markerName] (some (.file stamp))

theorem mem_items : (path, Item.file data) ∈ items (included patterns root) ↔ Included patterns root path data := by
  rw [← mem_included]
  simp [items]

theorem below_items : (∃ x ∈ items (included patterns root), path <+: x.1 ∧ (path = x.1 → x.2.isFile = false)) ↔
    ∃ below data, Included patterns root below data ∧ path <+: below ∧ path ≠ below := by
  simp only [items, List.mem_map, Prod.exists, exists_and_right, ← mem_included]
  constructor
  · rintro ⟨below, item, ⟨x, data, hx, hpair⟩, hprefix, hself⟩
    obtain ⟨rfl, rfl⟩ := Prod.mk.inj hpair
    exact ⟨x, ⟨data, hx⟩, hprefix, fun heq => by simpa [Item.isFile] using hself heq⟩
  · rintro ⟨below, ⟨data, hx⟩, hprefix, hne⟩
    exact ⟨below, .file data, ⟨below, data, hx, rfl⟩, hprefix, fun heq => absurd heq hne⟩

def SparesOwn (files : List (List Text × Data)) : Prop :=
  ∀ x ∈ files, ¬ [archiveName] <+: x.1 ∧ ¬ [markerName] <+: x.1

theorem Files.rooms (h : Files root files) {archiveBytes : Data} (hspares : SparesOwn files) :
    ∀ x ∈ items files, Room (stored fresh archiveBytes) x.1 x.2.isFile := by
  unfold items
  rw [List.forall_mem_map]
  exact fun x hx => h.room (fun y hy => (hspares y hy).1) hx

theorem Files.receivedItems (h : Files root files) (hspares : SparesOwn files) :
    receivedAll p true (files.map memberOf) = .ok (items files) :=
  h.received fun x hx heq => (hspares x hx).1 (heq ▸ List.prefix_rfl)

theorem Files.compatible (h : Files root files) : (items files).Pairwise Compatible := by
  unfold items
  rw [List.pairwise_map]
  refine ((List.pairwise_map.mp (h.apart (E := Unit))).imp_of_mem fun hx hy hapart => ?_)
  rw [Apart, h.components hx, h.components hy] at hapart
  exact ⟨fun _ => hapart.1 (h.isDir hx), fun _ => hapart.2 (h.isDir hy)⟩

variable {archiveBytes stamp : Data}

theorem deployed_file (hspares : SparesOwn (included patterns root)) :
    deployed archiveBytes stamp (included patterns root) path = some (.file data) ↔ Included patterns root path data ∨
      path = [archiveName] ∧ data = archiveBytes ∨ path = [markerName] ∧ data = stamp := by
  have hfiles := included_files patterns root
  unfold deployed
  by_cases hpath : path = [markerName]
  · subst hpath
    have hnot : ¬ Included patterns root [markerName] data :=
      fun h => (hspares _ (mem_included.mpr h)).2 List.prefix_rfl
    have hne : ([markerName] : List Text) ≠ [archiveName] := by decide
    simp [hnot, hne, eq_comm]
  · have hclear : (∀ x ∈ items (included patterns root), ¬ [archiveName] <+: x.1) := by
      unfold items
      rw [List.forall_mem_map]
      exact fun x hx => (hspares x hx).1
    rw [Function.update_of_ne hpath, placedAll_eq_file hfiles.compatible (hfiles.rooms hspares), mem_items, stored_file]
    refine or_congr Iff.rfl ⟨fun h => Or.inl h.2, fun h => ?_⟩
    rcases h with ⟨rfl, hdata⟩ | ⟨hmarked, -⟩
    · exact ⟨hclear, rfl, hdata⟩
    · exact absurd hmarked hpath

theorem deployed_directory (hspares : SparesOwn (included patterns root)) :
    deployed archiveBytes stamp (included patterns root) path = some .directory ↔
      path = [] ∨ ∃ below data, Included patterns root below data ∧ path <+: below ∧ path ≠ below := by
  have hfiles := included_files patterns root
  unfold deployed
  by_cases hpath : path = [markerName]
  · subst hpath
    rw [Function.update_self]
    refine iff_of_false (by simp) ?_
    rintro (h | ⟨below, data, hincluded, hprefix, -⟩)
    · cases h
    · exact (hspares _ (mem_included.mpr hincluded)).2 hprefix
  · rw [Function.update_of_ne hpath, placedAll_eq_directory hfiles.compatible (hfiles.rooms hspares), stored_directory,
      below_items]

theorem fetchSource_deploys (hopen : p.zipFile archiveBytes = .ok ((included patterns root).map memberOf))
    (hadmits : ∀ path data, Included patterns root path data → p.admits path = .ok ())
    (hspares : SparesOwn (included patterns root))
    (hplain : ∀ path data, Included patterns root path data → suspicious (asPosix path) = false) :
    fetchSource p archiveBytes stamp fresh = .ok (deployed archiveBytes stamp (included patterns root)) := by
  have hfiles := included_files patterns root
  have hfree : placedAll (stored fresh archiveBytes) (items (included patterns root)) [markerName] ≠
      some .directory := by
    rw [ne_eq, placedAll_eq_directory hfiles.compatible (hfiles.rooms hspares), stored_directory, below_items]
    rintro (h | ⟨below, data, hincluded, hbelow, -⟩)
    · cases h
    · exact (hspares _ (mem_included.mpr hincluded)).2 hbelow
  refine (fetchSource_ok_iff hopen rfl (plain_members hplain) hfiles.apart).mpr
    ⟨by simp [fresh], ?_, ?_, _, hfiles.receivedItems hspares, hfree, rfl⟩
  · rw [List.forall_mem_map]
    intro x hx
    rw [hfiles.components hx]
    exact hadmits x.1 x.2 (mem_included.mp hx)
  · rw [List.forall_mem_map]
    intro x hx
    rw [hfiles.components hx, hfiles.isDir hx]
    exact hfiles.room (fun y hy => (hspares y hy).1) hx

/-- The directory of the runner holds the included files under their paths, the archive,
the marker and nothing else, if no file needs a place of the last two. A file with two
dots in a row in its path makes the platform reject the archive. -/
theorem folder_deployed {p : ArchiveExtraction.Platform E} {archiveBytes stamp : Data}
    {contents : List (Text × Data)} (hpatterns : ignorePatterns readText root = some patterns)
    (hzip : zipFolder readText root = some contents) (hwritten : Written p archiveBytes contents)
    (hadmits : ∀ path data, Included patterns root path data → p.admits path = .ok ())
    (hown : ∀ path data, Included patterns root path data → ¬ [archiveName] <+: path ∧ ¬ [markerName] <+: path) :
    ((∀ path data, Included patterns root path data → suspicious (asPosix path) = false) →
      ∃ t, fetchSource p archiveBytes stamp fresh = .ok t ∧
        (∀ path data, t path = some (.file data) ↔ Included patterns root path data ∨
          path = [archiveName] ∧ data = archiveBytes ∨ path = [markerName] ∧ data = stamp) ∧
        (∀ path, t path = some .directory ↔
          path = [] ∨ ∃ below data, Included patterns root below data ∧ path <+: below ∧ path ≠ below)) ∧
    ((∃ path data, Included patterns root path data ∧ suspicious (asPosix path) = true) →
      ∃ r, validateArchive p.toLibraries archiveBytes = .ok r ∧ r.isValid = false) := by
  have hopen := hwritten.members
  rw [zipFolder_members hpatterns hzip] at hopen
  have hspares : SparesOwn (included patterns root) := fun x hx => hown x.1 x.2 (mem_included.mp hx)
  constructor
  · intro hplain
    exact ⟨_, fetchSource_deploys hopen hadmits hspares hplain, fun _ _ => deployed_file hspares,
      fun _ => deployed_directory hspares⟩
  · rintro ⟨path, data, hincluded, hsuspicious⟩
    refine validateArchive_rejected hwritten.zip hopen (Or.inr (Or.inl ⟨memberOf (path, data), ?_, hsuspicious⟩))
    exact List.mem_map_of_mem (mem_included.mpr hincluded)

/-! ## A sample -/

def handlerPath : List Text := ["handler.py".toList]

def logPath : List Text := ["debug.log".toList]

def ignorePath : List Text := [".sopmignore".toList]

def ignoreFile : Data := [42, 46, 108, 111, 103, 10, 46, 42, 10]

def sampleTree : Directory Text Data := fun path =>
  if path = [] then some .directory
  else if path = handlerPath then some (.file [10])
  else if path = logPath then some (.file [33])
  else if path = ignorePath then some (.file ignoreFile)
  else none

theorem sampleTree_isSome {path : List Text} :
    (sampleTree path).isSome = true ↔ path = [] ∨ path = handlerPath ∨ path = logPath ∨ path = ignorePath := by
  unfold sampleTree
  split_ifs with hroot hhandler hlog hignore <;> simp [*]

theorem nil_of_prefix_singleton {q : List Text} {name : Text} (hq : q <+: [name]) (hne : q ≠ [name]) : q = [] := by
  rcases List.prefix_cons_iff.mp hq with hnil | ⟨t, ht, hrest⟩
  · exact hnil
  · exact absurd (by rw [ht, List.prefix_nil.mp hrest]) hne

def sampleFolder : Folder where
  tree := sampleTree
  listing := [logPath, handlerPath, ignorePath]
  listed path := by
    have hne : handlerPath ≠ [] ∧ logPath ≠ [] ∧ ignorePath ≠ [] := by decide
    rw [sampleTree_isSome, List.mem_cons, List.mem_pair]
    constructor
    · rintro (rfl | rfl | rfl)
      · exact ⟨hne.2.1, Or.inr (Or.inr (Or.inl rfl))⟩
      · exact ⟨hne.1, Or.inr (Or.inl rfl)⟩
      · exact ⟨hne.2.2, Or.inr (Or.inr (Or.inr rfl))⟩
    · rintro ⟨hpath, h⟩
      rcases h.resolve_left hpath with h | h | h
      · exact Or.inr (Or.inl h)
      · exact Or.inl h
      · exact Or.inr (Or.inr h)
  once := by decide
  above path hpath q hq hne := by
    have hroot : q = [] := by
      rcases sampleTree_isSome.mp hpath with rfl | rfl | rfl | rfl
      · exact List.prefix_nil.mp hq
      · exact nil_of_prefix_singleton hq hne
      · exact nil_of_prefix_singleton hq hne
      · exact nil_of_prefix_singleton hq hne
    rw [hroot]
    rfl
  names path hpath name hname := by
    rcases sampleTree_isSome.mp hpath with rfl | rfl | rfl | rfl
    · cases hname
    · rw [List.mem_singleton.mp hname]
      exact ⟨by decide, by decide, by decide, by decide⟩
    · rw [List.mem_singleton.mp hname]
      exact ⟨by decide, by decide, by decide, by decide⟩
    · rw [List.mem_singleton.mp hname]
      exact ⟨by decide, by decide, by decide, by decide⟩

def asciiText (data : Data) : Option Text := some (data.map fun b => Char.ofNat b.toNat)

def samplePatterns : List Text := ["*.log".toList, ".*".toList]

example : shouldIgnore "sub/debug.log".toList samplePatterns = true := by decide

theorem sample_included {path : List Text} {data : Data} :
    Included samplePatterns sampleFolder path data ↔ path = handlerPath ∧ data = [10] := by
  have hkept : shouldIgnore (asPosix handlerPath) samplePatterns = false := by decide
  have hlog : shouldIgnore (asPosix logPath) samplePatterns = true := by decide
  have hignore : shouldIgnore (asPosix ignorePath) samplePatterns = true := by decide
  have hne : handlerPath ≠ [] := by decide
  constructor
  · rintro ⟨hpath, hfile, hshould⟩
    have htree : sampleTree path = some (.file data) := hfile
    rcases sampleTree_isSome.mp (by rw [htree]; rfl) with rfl | rfl | rfl | rfl
    · exact absurd rfl hpath
    · have hsame : sampleTree handlerPath = some (.file [10]) := by simp [sampleTree, hne]
      rw [htree] at hsame
      exact ⟨rfl, Item.file.inj (Option.some.inj hsame)⟩
    · rw [hlog] at hshould
      cases hshould
    · rw [hignore] at hshould
      cases hshould
  · rintro ⟨rfl, rfl⟩
    refine ⟨hne, ?_, hkept⟩
    change sampleTree handlerPath = _
    simp [sampleTree, hne]

def sampleContents : List (Text × Data) := [("handler.py".toList, [10])]

def deployPlatform : ArchiveExtraction.Platform Unit := samplePlatform (sampleContents.map member)

theorem folder_deployed_sample : ∃ t, fetchSource deployPlatform [80, 75] [49] fresh = .ok t ∧
    (∀ path data, t path = some (.file data) ↔ Included samplePatterns sampleFolder path data ∨
      path = [archiveName] ∧ data = [80, 75] ∨ path = [markerName] ∧ data = [49]) ∧
    (∀ path, t path = some .directory ↔ path = [] ∨
      ∃ below data, Included samplePatterns sampleFolder below data ∧ path <+: below ∧ path ≠ below) := by
  have hpatterns : ignorePatterns asciiText sampleFolder = some samplePatterns := by decide
  have hzip : zipFolder asciiText sampleFolder = some sampleContents := by decide
  refine (folder_deployed (p := deployPlatform) hpatterns hzip ⟨rfl, rfl⟩ (fun _ _ _ => rfl) ?_).1 ?_
  · intro path data hincluded
    rw [(sample_included.mp hincluded).1]
    decide
  · intro path data hincluded
    rw [(sample_included.mp hincluded).1]
    decide

end PyFaaS.Deployments
