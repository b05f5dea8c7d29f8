import PyFaaS.Directories
import PyFaaS.ValidatorExceptions

/-!
# The extraction of an archive

`_download_artifact` and `_extract_archive` of `sandbox/runner.py`. The archive lies
as `source.zip` in the directory that it is extracted to, and `zipfile` reads each
member when its turn comes. At the end the runner writes its marker there as well.
-/

namespace PyFaaS.ArchiveExtraction
open Directories ValidatorExceptions
open CodeValidator (ValidationResult listed suspicious texts)

abbrev Data := List UInt8

/-- `admits` is the file system's answer to a path, and `stale` is what `zipfile`
reads of a member once the archive has been opened for writing. -/
structure Platform (E : Type) extends Libraries E where
  os : Fault → E
  admits : List Text → Except E Unit
  stale : Entry E → Except E Data

structure WorkDir where
  tree : Directory Text Data
  intact : Bool

def archiveName : Text := "source.zip".toList

def markerName : Text := ".sopm-extracted".toList

def components (name : Text) : List Text :=
  (name.splitOn '/').filter fun part => !listed ([] :: texts [".", ".."]) part

def isDir (name : Text) : Bool := decide ("/".toList <:+ name)

section
variable {E : Type} (p : Platform E)

/-- The archive stays intact until a file is opened in its place. -/
def stillIntact (intact : Bool) (info : Entry E) : Bool :=
  intact && (isDir info.name || decide (components info.name ≠ [archiveName]))

def received (intact : Bool) (info : Entry E) : Except E (Item Data) :=
  if isDir info.name then .ok .directory
  else (if stillIntact intact info then info.read else p.stale info).map Item.file

def extract (info : Entry E) (w : WorkDir) : Except E WorkDir := do
  p.admits (components info.name)
  let item ← received p w.intact info
  let tree ← (place w.tree (components info.name) item).mapError p.os
  return ⟨tree, stillIntact w.intact info⟩

def extractArchive (members : List (Entry E)) : List (Entry E) → WorkDir → Except E WorkDir
  | [], w => .ok w
  | member :: rest, w =>
    if decide ("..".toList <:+: member.name) || decide ("/".toList <+: member.name) then extractArchive members rest w
    else do
      let w ← extract p (getinfo members member) w
      extractArchive members rest w

/-- `stamp` is the text of the time that goes into the marker. -/
def fetchSource (archiveBytes stamp : Data) (tree : Directory Text Data) : Except E (Directory Text Data) := do
  let tree ← (write tree [archiveName] archiveBytes).mapError p.os
  let members ← p.zipFile archiveBytes
  let w ← extractArchive p members members ⟨tree, true⟩
  (write w.tree [markerName] stamp).mapError p.os

/-! ## The loop -/

def receivedAll : Bool → List (Entry E) → Except E (List (List Text × Item Data))
  | _, [] => .ok []
  | intact, m :: rest => do
    let item ← received p intact m
    let items ← receivedAll (stillIntact intact m) rest
    return (components m.name, item) :: items

variable {p}

theorem bind_ok_iff {α β : Type} {x : Except E α} {f : α → Except E β} {b : β} :
    x >>= f = .ok b ↔ ∃ a, x = .ok a ∧ f a = .ok b := by
  cases x <;> simp [bind, Except.bind]

theorem mapError_ok_iff {F α : Type} {x : Except F α} {f : F → E} {a : α} : x.mapError f = .ok a ↔ x = .ok a := by
  cases x <;> simp [Except.mapError]

variable {members rest : List (Entry E)} {m : Entry E} {w w' : WorkDir} {intact : Bool} {item : Item Data}
  {items : List (List Text × Item Data)} {t : Directory Text Data}

theorem received_isFile (h : received p intact m = .ok item) : item.isFile = !isDir m.name := by
  unfold received at h
  cases hdir : isDir m.name with
  | true =>
    rw [hdir] at h
    cases h
    rfl
  | false =>
    rw [hdir] at h
    cases hread : (if stillIntact intact m then m.read else p.stale m) with
    | error e => simp [hread, Except.map] at h
    | ok data =>
      obtain rfl : Item.file data = item := by simpa [hread, Except.map] using h
      rfl

theorem extract_ok_iff : extract p m w = .ok w' ↔ p.admits (components m.name) = .ok () ∧
    ∃ item, received p w.intact m = .ok item ∧ Room w.tree (components m.name) (!isDir m.name) ∧
      w' = ⟨placed w.tree (components m.name) item, stillIntact w.intact m⟩ := by
  simp only [extract, bind_ok_iff, mapError_ok_iff, place_iff, Unique.exists_iff]
  apply and_congr_right
  intro _
  constructor
  · intro h
    obtain ⟨item, hitem, tree, ⟨hroom, htree⟩, hw⟩ := h
    subst htree
    cases hw
    exact ⟨item, hitem, received_isFile hitem ▸ hroom, rfl⟩
  · intro h
    obtain ⟨item, hitem, hroom, hw⟩ := h
    exact ⟨item, hitem, _, ⟨received_isFile hitem ▸ hroom, rfl⟩, hw ▸ rfl⟩

theorem receivedAll_shape (h : receivedAll p intact rest = .ok items) :
    items.map (fun x => (x.1, x.2.isFile)) = rest.map fun m => (components m.name, !isDir m.name) := by
  induction rest generalizing intact items with
  | nil =>
    cases h
    rfl
  | cons m rest ih =>
    simp only [receivedAll, bind_ok_iff] at h
    obtain ⟨item, hitem, more, hmore, hitems⟩ := h
    cases hitems
    rw [List.map_cons, List.map_cons, ih hmore, received_isFile hitem]

def Apart (m m' : Entry E) : Prop :=
  (isDir m.name = false → ¬ components m.name <+: components m'.name) ∧
    (isDir m'.name = false → ¬ components m'.name <+: components m.name)

theorem receivedAll_compatible (hapart : rest.Pairwise Apart) (h : receivedAll p intact rest = .ok items) :
    items.Pairwise Compatible := by
  have hshape : (items.map fun x => (x.1, x.2.isFile)).Pairwise fun x y =>
      (x.2 = true → ¬ x.1 <+: y.1) ∧ (y.2 = true → ¬ y.1 <+: x.1) := by
    rw [receivedAll_shape h, List.pairwise_map]
    refine hapart.imp fun h => ?_
    simpa only [Apart, Bool.not_eq_true'] using h
  rw [List.pairwise_map] at hshape
  exact hshape

theorem receivedAll_room (h : receivedAll p intact rest = .ok items) :
    (∀ x ∈ items, Room t x.1 x.2.isFile) ↔ ∀ m ∈ rest, Room t (components m.name) (!isDir m.name) := by
  have hshape : (∀ y ∈ items.map fun x => (x.1, x.2.isFile), Room t y.1 y.2) ↔
      ∀ y ∈ rest.map fun m => (components m.name, !isDir m.name), Room t y.1 y.2 := by
    rw [receivedAll_shape h]
  rwa [List.forall_mem_map, List.forall_mem_map] at hshape

theorem extractArchive_ok_iff (hplain : ∀ m ∈ rest, getinfo members m = m ∧ suspicious m.name = false)
    (hapart : rest.Pairwise Apart) : (∃ w', extractArchive p members rest w = .ok w' ∧ w'.tree = t) ↔
      (∀ m ∈ rest, p.admits (components m.name) = .ok ()) ∧
      (∀ m ∈ rest, Room w.tree (components m.name) (!isDir m.name)) ∧
      ∃ items, receivedAll p w.intact rest = .ok items ∧ t = placedAll w.tree items := by
  induction rest generalizing w with
  | nil => simp [extractArchive, receivedAll, placedAll, eq_comm]
  | cons m rest ih =>
    obtain ⟨⟨hinfo, hname⟩, hrestplain⟩ := List.forall_mem_cons.mp hplain
    obtain ⟨hm, hrestapart⟩ := List.pairwise_cons.mp hapart
    have hstep : extractArchive p members (m :: rest) w = extract p m w >>= extractArchive p members rest := by
      rw [suspicious, Bool.or_comm] at hname
      rw [extractArchive, hname, hinfo]
      rfl
    have hroom : ∀ item, item.isFile = !isDir m.name → Room w.tree (components m.name) (!isDir m.name) →
        ((∀ m' ∈ rest, Room (placed w.tree (components m.name) item) (components m'.name) (!isDir m'.name)) ↔
          ∀ m' ∈ rest, Room w.tree (components m'.name) (!isDir m'.name)) := by
      intro item hitem hroom
      apply forall₂_congr
      intro m' hm'
      apply room_placed_iff (hitem ▸ hroom)
      · simpa [hitem] using (hm m' hm').1
      · simpa using (hm m' hm').2
    rw [hstep, List.forall_mem_cons, List.forall_mem_cons]
    simp only [bind_ok_iff, extract_ok_iff, receivedAll]
    constructor
    · intro h
      obtain ⟨w', ⟨w₁, ⟨hadmits, item, hitem, hmroom, hw₁⟩, hrest⟩, htree⟩ := h
      obtain ⟨hadmitsAll, hrooms, items, hitems, ht⟩ := (ih hrestplain hrestapart).mp ⟨w', hrest, htree⟩
      subst hw₁
      have hrooms' := (hroom item (received_isFile hitem) hmroom).mp hrooms
      exact ⟨⟨hadmits, hadmitsAll⟩, ⟨hmroom, hrooms'⟩, _, ⟨item, hitem, items, hitems, rfl⟩, ht⟩
    · intro h
      obtain ⟨⟨hadmits, hadmitsAll⟩, ⟨hmroom, hrooms⟩, all, ⟨item, hitem, items, hitems, hall⟩, ht⟩ := h
      cases hall
      have hrooms' := (hroom item (received_isFile hitem) hmroom).mpr hrooms
      obtain ⟨w', hrest, htree⟩ := (ih (w := ⟨_, stillIntact w.intact m⟩) hrestplain hrestapart).mpr
        ⟨hadmitsAll, hrooms', items, hitems, ht⟩
      exact ⟨w', ⟨_, ⟨hadmits, item, hitem, hmroom, rfl⟩, hrest⟩, htree⟩

/-! ## The members as they are read -/

variable (p) in
/-- A file that is read when the archive is no longer intact is read as it was, but what
goes to the path of the marker only has to be read. -/
def Genuine (intact : Bool) (rest : List (Entry E)) : Prop :=
  ∀ before m after, rest = before ++ m :: after → isDir m.name = false →
    (intact = false ∨ ∃ b ∈ before ++ [m], isDir b.name = false ∧ components b.name = [archiveName]) →
      ∃ data, p.stale m = .ok data ∧ (components m.name ≠ [markerName] → m.read = .ok data)

theorem stillIntact_eq_false : stillIntact intact m = false ↔
    intact = false ∨ isDir m.name = false ∧ components m.name = [archiveName] := by
  cases intact <;> simp [stillIntact]

theorem genuine_cons : Genuine p intact (m :: rest) ↔
    (isDir m.name = false → stillIntact intact m = false →
      ∃ data, p.stale m = .ok data ∧ (components m.name ≠ [markerName] → m.read = .ok data)) ∧
    Genuine p (stillIntact intact m) rest := by
  constructor
  · intro h
    refine ⟨fun hdir hstale => h [] m rest rfl hdir ?_, fun before m' after hrest hdir hstale => ?_⟩
    · simpa [stillIntact_eq_false] using hstale
    · apply h (m :: before) m' after (hrest ▸ rfl) hdir
      rw [stillIntact_eq_false, or_assoc] at hstale
      refine hstale.imp_right fun hstale => ?_
      simpa only [List.cons_append, List.mem_cons, or_and_right, exists_or, exists_eq_left] using hstale
  · intro ⟨hm, hrest⟩ before m' after hmembers hdir hstale
    cases before with
    | nil =>
      obtain ⟨rfl, rfl⟩ := List.cons.inj hmembers
      exact hm hdir (stillIntact_eq_false.mpr (by simpa using hstale))
    | cons b before =>
      obtain ⟨rfl, rfl⟩ := List.cons.inj hmembers
      apply hrest before m' after rfl hdir
      rw [stillIntact_eq_false, or_assoc]
      refine hstale.imp_right fun hstale => ?_
      simpa only [List.cons_append, List.mem_cons, or_and_right, exists_or, exists_eq_left] using hstale

theorem received_file {data : Data} (hdir : isDir m.name = false) :
    received p intact m = .ok (.file data) ↔
      (if stillIntact intact m then m.read else p.stale m) = .ok data := by
  rw [received, hdir]
  cases (if stillIntact intact m then m.read else p.stale m) <;> simp [Except.map]

theorem receivedAll_genuine (hread : ∀ m ∈ rest, isDir m.name = false → ∃ data, m.read = .ok data)
    (hgenuine : Genuine p intact rest) : ∃ items, receivedAll p intact rest = .ok items ∧
      ∀ m ∈ rest, isDir m.name = false → components m.name ≠ [markerName] →
        ∃ data, m.read = .ok data ∧ (components m.name, Item.file data) ∈ items := by
  induction rest generalizing intact with
  | nil => exact ⟨[], rfl, by simp⟩
  | cons m rest ih =>
    obtain ⟨hm, hrest⟩ := genuine_cons.mp hgenuine
    obtain ⟨hmread, hrestread⟩ := List.forall_mem_cons.mp hread
    obtain ⟨items, hitems, hcontent⟩ := ih hrestread hrest
    have hitem : ∃ item, received p intact m = .ok item ∧ (isDir m.name = false →
        components m.name ≠ [markerName] → ∃ data, m.read = .ok data ∧ item = .file data) := by
      cases hdir : isDir m.name with
      | true => exact ⟨.directory, by simp [received, hdir], by simp⟩
      | false =>
        cases hintact : stillIntact intact m with
        | true =>
          obtain ⟨data, hdata⟩ := hmread hdir
          exact ⟨.file data, (received_file hdir).mpr (by simpa [hintact] using hdata), fun _ _ => ⟨data, hdata, rfl⟩⟩
        | false =>
          obtain ⟨data, hstale, hsame⟩ := hm hdir hintact
          exact ⟨.file data, (received_file hdir).mpr (by simpa [hintact] using hstale),
            fun _ hmarker => ⟨data, hsame hmarker, rfl⟩⟩
    obtain ⟨item, hreceived, hown⟩ := hitem
    have hall : receivedAll p intact (m :: rest) = .ok ((components m.name, item) :: items) :=
      bind_ok_iff.mpr ⟨item, hreceived, bind_ok_iff.mpr ⟨items, hitems, rfl⟩⟩
    refine ⟨_, hall, ?_⟩
    rw [List.forall_mem_cons]
    constructor
    · intro hdir hmarker
      obtain ⟨data, hdata, heq⟩ := hown hdir hmarker
      exact ⟨data, hdata, heq ▸ List.mem_cons_self⟩
    · intro m' hm' hdir hmarker
      obtain ⟨data, hdata, hmem⟩ := hcontent m' hm' hdir hmarker
      exact ⟨data, hdata, List.mem_cons_of_mem _ hmem⟩

theorem genuine_of_received (hitems : receivedAll p intact rest = .ok items)
    (htree : ∀ x ∈ items, x.2.isFile = true → t x.1 = some x.2)
    (hcontent : ∀ m ∈ rest, isDir m.name = false → components m.name ≠ [markerName] →
      ∃ data, m.read = .ok data ∧ t (components m.name) = some (.file data)) : Genuine p intact rest := by
  induction rest generalizing intact items with
  | nil =>
    intro before m after hrest
    simp at hrest
  | cons m rest ih =>
    simp only [receivedAll, bind_ok_iff] at hitems
    obtain ⟨item, hitem, more, hmore, hall⟩ := hitems
    cases hall
    obtain ⟨hm, hrest⟩ := List.forall_mem_cons.mp hcontent
    obtain ⟨hplace, hplaces⟩ := List.forall_mem_cons.mp htree
    refine genuine_cons.mpr ⟨fun hdir hstale => ?_, ih hmore hplaces hrest⟩
    have hfile := received_isFile hitem
    cases item with
    | directory => simp [hdir, Item.isFile] at hfile
    | file data =>
      have hdata : p.stale m = .ok data := by simpa [hstale] using (received_file hdir).mp hitem
      refine ⟨data, hdata, fun hmarker => ?_⟩
      obtain ⟨own, hread, hown⟩ := hm hdir hmarker
      have hsame : some (Item.file own) = some (Item.file data) := hown.symm.trans (hplace rfl)
      cases hsame
      exact hread

/-! ## Faithful extraction -/

def stored (t : Directory Text Data) (archiveBytes : Data) : Directory Text Data :=
  Function.update t [archiveName] (some (.file archiveBytes))

def Inside (path : List Text) : Prop := path ≠ [] ∧ "..".toList ∉ path

variable (p) in
structure Extractable (archiveBytes stamp : Data) (t : Directory Text Data) (members : List (Entry E)) : Prop where
  archive : t [archiveName] ≠ some .directory
  marker : t [markerName] ≠ some .directory
  admits : ∀ m ∈ members, p.admits (components m.name) = .ok ()
  room : ∀ m ∈ members, Room (stored t archiveBytes) (components m.name) (!isDir m.name)
  readable : ∀ m ∈ members, isDir m.name = false → ∃ data, m.read = .ok data
  genuine : Genuine p true members
  unmarked : ∀ m ∈ members, [markerName] <+: components m.name →
    components m.name = [markerName] ∧ isDir m.name = false ∧ m.read = .ok stamp

theorem fetchSource_ok_iff {archiveBytes stamp : Data} {t t' : Directory Text Data}
    (hopen : p.zipFile archiveBytes = .ok members) (hroot : t [] = some .directory)
    (hplain : ∀ m ∈ members, getinfo members m = m ∧ suspicious m.name = false) (hapart : members.Pairwise Apart) :
    fetchSource p archiveBytes stamp t = .ok t' ↔ t [archiveName] ≠ some .directory ∧
      (∀ m ∈ members, p.admits (components m.name) = .ok ()) ∧
      (∀ m ∈ members, Room (stored t archiveBytes) (components m.name) (!isDir m.name)) ∧
      ∃ items, receivedAll p true members = .ok items ∧
        placedAll (stored t archiveBytes) items [markerName] ≠ some .directory ∧
        t' = Function.update (placedAll (stored t archiveBytes) items) [markerName] (some (.file stamp)) := by
  have hloop : ∀ tree, (∃ w, extractArchive p members members ⟨stored t archiveBytes, true⟩ = .ok w ∧ w.tree = tree) ↔
      (∀ m ∈ members, p.admits (components m.name) = .ok ()) ∧
      (∀ m ∈ members, Room (stored t archiveBytes) (components m.name) (!isDir m.name)) ∧
      ∃ items, receivedAll p true members = .ok items ∧ tree = placedAll (stored t archiveBytes) items :=
    fun tree => extractArchive_ok_iff hplain hapart
  have hdownload : ∀ t₁, write t [archiveName] archiveBytes = .ok t₁ ↔
      t [archiveName] ≠ some .directory ∧ t₁ = stored t archiveBytes := fun t₁ => write_iff hroot
  have hbelow : ∀ items, receivedAll p true members = .ok items →
      (∀ m ∈ members, Room (stored t archiveBytes) (components m.name) (!isDir m.name)) →
        placedAll (stored t archiveBytes) items [] = some .directory := by
    intro items hitems hrooms
    rw [placedAll_eq_directory (receivedAll_compatible hapart hitems) ((receivedAll_room hitems).mpr hrooms)]
    left
    rw [stored, Function.update_of_ne (by simp)]
    exact hroot
  simp only [fetchSource, bind_ok_iff, mapError_ok_iff, hdownload, hopen, Except.ok.injEq, exists_eq_left']
  constructor
  · intro ⟨t₁, ⟨harchive, ht₁⟩, w, hw, hmarker⟩
    subst ht₁
    obtain ⟨hadmits, hrooms, items, hitems, htree⟩ := (hloop w.tree).mp ⟨w, hw, rfl⟩
    rw [htree] at hmarker
    have hwrite := (write_iff (hbelow items hitems hrooms)).mp hmarker
    exact ⟨harchive, hadmits, hrooms, items, hitems, hwrite⟩
  · intro ⟨harchive, hadmits, hrooms, items, hitems, hwrite⟩
    obtain ⟨w, hw, htree⟩ := (hloop _).mpr ⟨hadmits, hrooms, items, hitems, rfl⟩
    refine ⟨_, ⟨harchive, rfl⟩, w, hw, ?_⟩
    rw [htree]
    exact (write_iff (hbelow items hitems hrooms)).mpr hwrite

theorem marker_directory {tree : Directory Text Data} (hapart : members.Pairwise Apart)
    (hrooms : ∀ m ∈ members, Room tree (components m.name) (!isDir m.name))
    (hitems : receivedAll p intact members = .ok items) : placedAll tree items [markerName] ≠ some .directory ↔
      tree [markerName] ≠ some .directory ∧ ∀ m ∈ members, [markerName] <+: components m.name →
        components m.name = [markerName] ∧ isDir m.name = false := by
  have hshape : (∀ y ∈ items.map fun x => (x.1, x.2.isFile), [markerName] <+: y.1 → y.1 = [markerName] ∧ y.2 = true) ↔
      ∀ y ∈ members.map fun m => (components m.name, !isDir m.name),
        [markerName] <+: y.1 → y.1 = [markerName] ∧ y.2 = true := by
    rw [receivedAll_shape hitems]
  rw [List.forall_mem_map, List.forall_mem_map] at hshape
  simp only [Bool.not_eq_true'] at hshape
  rw [← hshape, ne_eq,
    placedAll_eq_directory (receivedAll_compatible hapart hitems) ((receivedAll_room hitems).mpr hrooms), not_or]
  refine and_congr_right fun _ => ?_
  simp only [not_exists, not_and, Classical.not_imp, Bool.not_eq_false, @eq_comm _ [markerName]]

theorem components_proper (name : Text) : "..".toList ∉ components name := by
  simp [components, listed, texts]

section
variable {archiveBytes stamp : Data} (hopen : p.zipFile archiveBytes = .ok members)
  (hroot : t [] = some .directory) (hplain : ∀ m ∈ members, getinfo members m = m ∧ suspicious m.name = false)
  (hapart : members.Pairwise Apart)
include hopen hroot hplain hapart

theorem extractable_of_fetched {t' : Directory Text Data} (h : fetchSource p archiveBytes stamp t = .ok t')
    (hfiles : ∀ m ∈ members, isDir m.name = false →
      Inside (components m.name) ∧ ∃ data, m.read = .ok data ∧ t' (components m.name) = some (.file data)) :
    Extractable p archiveBytes stamp t members := by
  obtain ⟨harchive, hadmits, hrooms, items, hitems, hmarker, ht'⟩ := (fetchSource_ok_iff hopen hroot hplain hapart).mp h
  subst ht'
  obtain ⟨hfree, hunmarked⟩ := (marker_directory hapart hrooms hitems).mp hmarker
  have hne : ([markerName] : List Text) ≠ [archiveName] := by decide
  refine ⟨harchive, ?_, hadmits, hrooms, ?_, ?_, ?_⟩
  · rwa [stored, Function.update_of_ne hne] at hfree
  · intro m hm hdir
    obtain ⟨-, data, hread, -⟩ := hfiles m hm hdir
    exact ⟨data, hread⟩
  · apply genuine_of_received hitems (t := placedAll (stored t archiveBytes) items)
    · exact fun x hx hfile => placedAll_file (receivedAll_compatible hapart hitems) hx hfile
    · intro m hm hdir hpath
      obtain ⟨-, data, hread, hplace⟩ := hfiles m hm hdir
      rw [Function.update_of_ne hpath] at hplace
      exact ⟨data, hread, hplace⟩
  · intro m hm hbelow
    obtain ⟨hpath, hdir⟩ := hunmarked m hm hbelow
    obtain ⟨-, data, hread, hplace⟩ := hfiles m hm hdir
    rw [hpath, Function.update_self] at hplace
    cases hplace
    exact ⟨hpath, hdir, hread⟩

theorem Extractable.fetched (h : Extractable p archiveBytes stamp t members) :
    ∃ t', fetchSource p archiveBytes stamp t = .ok t' ∧ ∀ m ∈ members, isDir m.name = false →
      Inside (components m.name) ∧ ∃ data, m.read = .ok data ∧ t' (components m.name) = some (.file data) := by
  obtain ⟨items, hitems, hcontent⟩ := receivedAll_genuine h.readable h.genuine
  have hcompatible := receivedAll_compatible hapart hitems
  have hne : ([markerName] : List Text) ≠ [archiveName] := by decide
  have hfree : stored t archiveBytes [markerName] ≠ some .directory := by
    rw [stored, Function.update_of_ne hne]
    exact h.marker
  have hmarker := (marker_directory hapart h.room hitems).mpr
    ⟨hfree, fun m hm hbelow => ⟨(h.unmarked m hm hbelow).1, (h.unmarked m hm hbelow).2.1⟩⟩
  refine ⟨_, (fetchSource_ok_iff hopen hroot hplain hapart).mpr
    ⟨h.archive, h.admits, h.room, items, hitems, hmarker, rfl⟩, fun m hm hdir => ?_⟩
  refine ⟨⟨((h.room m hm).file (by simpa using hdir)).1, components_proper m.name⟩, ?_⟩
  by_cases hpath : components m.name = [markerName]
  · refine ⟨stamp, (h.unmarked m hm (hpath ▸ List.prefix_rfl)).2.2, ?_⟩
    rw [hpath, Function.update_self]
  · obtain ⟨data, hread, hmem⟩ := hcontent m hm hdir hpath
    refine ⟨data, hread, ?_⟩
    rw [Function.update_of_ne hpath]
    exact placedAll_file hcompatible hmem rfl

end

/-- An accepted archive of distinct names whose paths keep apart is extracted, with every file in its place and its
content in it, exactly if its members read, find room beside `source.zip` and what was there before, are not read
from an archive that one of them has overwritten, and leave the path of the marker alone. -/
theorem fetchSource_faithful_iff {E : Type} (p : Platform E) (archiveBytes stamp : Data) (members : List (Entry E))
    (t : Directory Text Data) (r : ValidationResult)
    (haccepted : validateArchive p.toLibraries archiveBytes = .ok r ∧ r.isValid = true)
    (hopen : p.zipFile archiveBytes = .ok members) (hdistinct : (members.map Entry.name).Nodup)
    (hapart : members.Pairwise Apart) (hroot : t [] = some .directory) :
    (∃ t', fetchSource p archiveBytes stamp t = .ok t' ∧ ∀ m ∈ members, isDir m.name = false →
      Inside (components m.name) ∧ ∃ data, m.read = .ok data ∧ t' (components m.name) = some (.file data)) ↔
        Extractable p archiveBytes stamp t members := by
  have hplain := plain_of_accepted haccepted.1 haccepted.2 hopen hdistinct
  constructor
  · intro h
    obtain ⟨t', hok, hfiles⟩ := h
    exact extractable_of_fetched hopen hroot hplain hapart hok hfiles
  · exact fun h => h.fetched hopen hroot hplain hapart

def samplePlatform (members : List (Entry Unit)) : Platform Unit where
  isZipfile _ := true
  zipFile _ := .ok members
  decode _ := []
  parse _ _ := .ok (.node ⟨.module, 0, 0⟩ [])
  interrupt _ := none
  os _ := ()
  admits _ := .ok ()
  stale _ := .error ()

def handler : Entry Unit := ⟨"handler.py".toList, 1, .ok [10]⟩

theorem room_fresh {archiveBytes : Data} {path : List Text} {asFile : Bool} (hne : path ≠ [])
    (h : ¬ [archiveName] <+: path) : Room (stored fresh archiveBytes) path asFile := by
  have hfree : ∀ q, q <+: path → stored fresh archiveBytes q = fresh q := by
    intro q hq
    rw [stored, Function.update_of_ne]
    rintro rfl
    exact h hq
  have hplain : ∀ q, q <+: path → isFile (stored fresh archiveBytes) q = false := by
    intro q hq
    rw [isFile, hfree q hq, fresh]
    split <;> rfl
  refine ⟨fun q hq _ => hplain q hq, fun _ => ⟨hne, ?_⟩, fun _ => hplain path List.prefix_rfl⟩
  rw [hfree path List.prefix_rfl, fresh, if_neg hne]
  simp

theorem genuine_of_intact {E : Type} {p : Platform E} {members : List (Entry E)}
    (h : ∀ m ∈ members, components m.name ≠ [archiveName]) : Genuine p true members := by
  rintro before m after rfl - (hstale | ⟨b, hb, -, hname⟩)
  · cases hstale
  · refine absurd hname (h b ?_)
    rw [List.append_cons]
    exact List.mem_append_left _ hb

def nestedMembers : List (Entry Unit) :=
  [handler, ⟨"lib/".toList, 0, .ok []⟩, ⟨"lib/util.py".toList, 2, .ok [120, 10]⟩, ⟨"data.csv".toList, 1, .ok [49]⟩]

theorem fetchSource_faithful_iff_nested :
    ∃ t', fetchSource (samplePlatform nestedMembers) [80, 75] [49] fresh = .ok t' ∧
    ∀ m ∈ nestedMembers, isDir m.name = false →
      Inside (components m.name) ∧ ∃ data, m.read = .ok data ∧ t' (components m.name) = some (.file data) := by
  have haccepted : validateArchive (samplePlatform nestedMembers).toLibraries [80, 75] = .ok ⟨true, [], 2, none⟩ := by
    decide
  have hapart : nestedMembers.Pairwise Apart := by
    unfold Apart
    decide
  have hplaces : ∀ m ∈ nestedMembers, components m.name ≠ [] ∧ ¬ [archiveName] <+: components m.name ∧
      ¬ [markerName] <+: components m.name := by decide
  have hreads : ∀ m ∈ nestedMembers, isDir m.name = false → ∃ data, m.read = .ok data := by
    simp only [nestedMembers, List.forall_mem_cons]
    exact ⟨fun _ => ⟨_, rfl⟩, fun _ => ⟨_, rfl⟩, fun _ => ⟨_, rfl⟩, fun _ => ⟨_, rfl⟩,
      fun _ hnil => absurd hnil List.not_mem_nil⟩
  apply (fetchSource_faithful_iff (samplePlatform nestedMembers) [80, 75] [49] nestedMembers fresh _
    ⟨haccepted, rfl⟩ rfl (by decide) hapart rfl).mpr
  refine ⟨by decide, by decide, fun _ _ => rfl, fun m hm => ?_, hreads, genuine_of_intact fun m hm => ?_,
    fun m hm h => ?_⟩
  · exact room_fresh (hplaces m hm).1 (hplaces m hm).2.1
  · exact fun hname => (hplaces m hm).2.1 (hname ▸ List.prefix_rfl)
  · exact absurd h (hplaces m hm).2.2

/-- An accepted member `.sopm-extracted` ends as the marker. -/
theorem fetchSource_marks : ∃ members r, validateArchive (samplePlatform members).toLibraries [80, 75] = .ok r ∧
    r.isValid = true ∧ (members.map Entry.name).Nodup ∧ members.Pairwise Apart ∧
    ¬ ∃ t', fetchSource (samplePlatform members) [80, 75] [49] fresh = .ok t' ∧ ∀ m ∈ members, isDir m.name = false →
      Inside (components m.name) ∧ ∃ data, m.read = .ok data ∧ t' (components m.name) = some (.file data) := by
  have hpath : components markerName = [markerName] := by decide
  have hapart : [handler, ⟨markerName, 1, .ok [120]⟩].Pairwise Apart := by
    rw [List.pairwise_pair]
    exact ⟨by decide, by decide⟩
  have haccepted : validateArchive (samplePlatform [handler, ⟨markerName, 1, .ok [120]⟩]).toLibraries [80, 75] =
      .ok ⟨true, [], 1, none⟩ := by decide
  have hplain := plain_of_accepted haccepted rfl rfl (by decide)
  refine ⟨[handler, ⟨markerName, 1, .ok [120]⟩], _, haccepted, rfl, by decide, hapart, ?_⟩
  intro ⟨t', hok, hfiles⟩
  obtain ⟨-, -, -, items, -, -, ht'⟩ := (fetchSource_ok_iff rfl rfl hplain hapart).mp hok
  obtain ⟨-, data, hread, hplace⟩ := hfiles ⟨markerName, 1, .ok [120]⟩ (by simp) (by decide)
  rw [ht', hpath, Function.update_self] at hplace
  cases hread
  cases hplace

end

end PyFaaS.ArchiveExtraction
