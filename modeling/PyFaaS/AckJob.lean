import Mathlib.Algebra.Order.Ring.Rat
import PyFaaS.CursorScan
import PyFaaS.Platform
import PyFaaS.Retry
import PyFaaS.ScoredSet

/-!
# `ack_job`

The acknowledgement looks for its job in the processing set page by page. A member
that is no JSON document or no object is skipped. Any other exception of
`json.loads` leaves the loop, and the retry begins with a new scan.
-/

namespace PyFaaS.AckJob
open CursorScan (Server Pages scan scan_eq)
open Retry (retryWithin retryWithin_mem)

abbrev Entry := Text × ℚ

section
variable (codec : JsonCodec) (jobId : Text)

/-- The member that an entry lets `zrem` take away, or the exception that leaves the loop. -/
def examine (entry : Entry) : Option (Except Text Text) :=
  match codec.loads entry.1 with
  | .error .decodeError => none
  | .error (.raised exc) => some (.error exc)
  | .ok data => if data.get? "job_id".toList = some (.str jobId) then some (.ok entry.1) else none

def conclude (s : ScoredSet Text ℚ) : Option (Except Text Text) → Except Text Unit × ScoredSet Text ℚ
  | none => (.ok (), s)
  | some (.ok member) => (.ok (), s.remove member)
  | some (.error exc) => (.error exc, s)

def attempt (fuel : ℕ) (zscan : Server Entry) (s : ScoredSet Text ℚ) :
    Option (Except Text Unit × ScoredSet Text ℚ) :=
  (scan zscan (examine codec jobId) fuel 0 0).map (conclude s)

/-- `ack_job` behind `redis_retry`, with the replies of the server to each attempt. -/
def ackJob (fuel : ℕ) (zscan₁ zscan₂ zscan₃ : Server Entry) (s : ScoredSet Text ℚ) :
    Option (Except Text Unit × ScoredSet Text ℚ) :=
  retryWithin (attempt codec jobId fuel) zscan₁ [zscan₂, zscan₃] s

def Names (m : Text) : Prop := ∃ data, codec.loads m = .ok data ∧ data.get? "job_id".toList = some (.str jobId)

/-- `json.loads` raises another exception than `JSONDecodeError`. -/
def Poisons (m : Text) : Prop := ∃ exc, codec.loads m = .error (.raised exc)

/-- No member that poisons comes before the member of the job. -/
def Clear (entries : List Entry) : Prop :=
  ∀ before entry after, entries = before ++ entry :: after → Poisons codec entry.1 →
    ∃ other ∈ before, Names codec jobId other.1

end

/-- The replies of `ZSCAN` to a scan of the set. It may visit a member again. -/
structure Scan (s : ScoredSet Text ℚ) where
  zscan : Server Entry
  pages : List (List Entry)
  ends : Pages zscan 0 0 pages
  visits : ∀ entry, entry ∈ pages.flatten ↔ entry ∈ s

def Scan.visited {s : ScoredSet Text ℚ} (scan : Scan s) : List Entry := scan.pages.flatten

variable {codec : JsonCodec} {jobId : Text} {s t : ScoredSet Text ℚ} {entry : Entry} {entries : List Entry} {fuel : ℕ}

/-! ## One entry -/

theorem examine_ok_iff {m : Text} :
    examine codec jobId entry = some (.ok m) ↔ m = entry.1 ∧ Names codec jobId entry.1 := by
  unfold examine Names
  cases hloads : codec.loads entry.1 with
  | error err => cases err <;> simp
  | ok data =>
    simp only [Except.ok.injEq, exists_eq_left']
    split_ifs with hid
    · simp only [Option.some.injEq, Except.ok.injEq, hid, and_true]
      exact eq_comm
    · simp only [hid, and_false]

theorem examine_error_iff {exc : Text} :
    examine codec jobId entry = some (.error exc) ↔ codec.loads entry.1 = .error (.raised exc) := by
  unfold examine
  cases hloads : codec.loads entry.1 with
  | error err => cases err <;> simp
  | ok data =>
    simp only [reduceCtorEq, iff_false]
    split_ifs <;> simp

theorem clear_iff : Clear codec jobId entries ↔
    ∀ exc, entries.findSome? (examine codec jobId) ≠ some (.error exc) := by
  constructor
  · intro h exc hfound
    obtain ⟨before, entry, after, hentries, hraises, hskipped⟩ := List.findSome?_eq_some_iff.mp hfound
    obtain ⟨other, hother, hnames⟩ := h before entry after hentries ⟨exc, examine_error_iff.mp hraises⟩
    have hnone := hskipped other hother
    rw [examine_ok_iff.mpr ⟨rfl, hnames⟩] at hnone
    cases hnone
  · intro h before entry after hentries hpoisons
    obtain ⟨exc, hloads⟩ := hpoisons
    cases hbefore : before.findSome? (examine codec jobId) with
    | none => simp [hentries, hbefore, examine_error_iff.mpr hloads] at h
    | some r =>
      cases r with
      | error exc' => simp [hentries, hbefore] at h
      | ok m =>
        obtain ⟨other, hother, hfound⟩ := List.exists_of_findSome?_eq_some hbefore
        exact ⟨other, hother, (examine_ok_iff.mp hfound).2⟩

/-! ## One call -/

theorem attempt_eq (scan : Scan s) (hfuel : scan.pages.length ≤ fuel) :
    attempt codec jobId fuel scan.zscan s = some (conclude s (scan.visited.findSome? (examine codec jobId))) := by
  rw [attempt, scan_eq scan.ends hfuel]
  rfl

theorem conclude_error_iff {r : Option (Except Text Text)} {exc : Text} :
    (conclude s r).1 = .error exc ↔ r = some (.error exc) := by
  cases r with
  | none => simp [conclude]
  | some r => cases r <;> simp [conclude]

theorem conclude_ok_iff {r : Option (Except Text Text)} :
    (conclude s r).1 = .ok () ↔ ∀ exc, r ≠ some (.error exc) := by
  cases r with
  | none => simp [conclude]
  | some r => cases r <;> simp [conclude]

variable (codec) (jobId) in
theorem ackJob_mem (first second third : Scan s)
    (hfuel : ∀ scan ∈ [first, second, third], scan.pages.length ≤ fuel) :
    ∃ scan ∈ [first, second, third], ackJob codec jobId fuel first.zscan second.zscan third.zscan s =
        some (conclude s (scan.visited.findSome? (examine codec jobId))) ∧
      ((∃ other ∈ [first, second, third], Clear codec jobId other.visited) → Clear codec jobId scan.visited) := by
  have hattempt : ∀ scan ∈ [first, second, third], attempt codec jobId fuel scan.zscan s =
      some (conclude s (scan.visited.findSome? (examine codec jobId))) :=
    fun scan hscan => attempt_eq scan (hfuel scan hscan)
  have hkept : ∀ a ∈ [first, second, third].map Scan.zscan, ∀ e t,
      attempt codec jobId fuel a s = some (.error e, t) → t = s := by
    rw [List.forall_mem_map]
    intro scan hscan e t h
    rw [hattempt scan hscan] at h
    have herror : (conclude s (scan.visited.findSome? (examine codec jobId))).1 = .error e :=
      congrArg Prod.fst (Option.some.inj h)
    rw [conclude_error_iff.mp herror] at h
    exact (congrArg Prod.snd (Option.some.inj h)).symm
  have hends : ∀ a ∈ [first, second, third].map Scan.zscan, (attempt codec jobId fuel a s).isSome = true := by
    rw [List.forall_mem_map]
    exact fun scan hscan => by rw [hattempt scan hscan, Option.isSome_some]
  obtain ⟨a, ha, hrun, hbest⟩ := retryWithin_mem hends hkept
  have hscans : a ∈ [first, second, third].map Scan.zscan := ha
  obtain ⟨scan, hscan, rfl⟩ := List.mem_map.mp hscans
  rw [hattempt scan hscan] at hrun hbest
  refine ⟨scan, hscan, hrun, fun hclear => ?_⟩
  obtain ⟨other, hother, hclear⟩ := hclear
  have hok : (conclude s (other.visited.findSome? (examine codec jobId))).1 = .ok () :=
    conclude_ok_iff.mpr (clear_iff.mp hclear)
  obtain ⟨r, t, hanswer⟩ := hbest other.zscan (List.mem_map_of_mem hother) () _
    ((hattempt other hother).trans (congrArg some (Prod.ext hok rfl)))
  exact clear_iff.mpr (conclude_ok_iff.mp (congrArg Prod.fst (Option.some.inj hanswer)))

def Acked (codec : JsonCodec) (jobId : Text) (s t : ScoredSet Text ℚ) : Prop :=
  ∀ entry, entry ∈ t ↔ entry ∈ s ∧ ¬ Names codec jobId entry.1

theorem conclude_acked (hunique : ∀ m n, s.Holds m → s.Holds n → Names codec jobId m → Names codec jobId n → m = n)
    (scan : Scan s) (hclear : Clear codec jobId scan.visited) :
    Acked codec jobId s (conclude s (scan.visited.findSome? (examine codec jobId))).2 := by
  intro entry
  cases hfound : scan.visited.findSome? (examine codec jobId) with
  | none =>
    refine ⟨fun hentry => ⟨hentry, fun hnames => ?_⟩, fun h => h.1⟩
    have hnone := List.findSome?_eq_none_iff.mp hfound entry ((scan.visits entry).mpr hentry)
    rw [examine_ok_iff.mpr ⟨rfl, hnames⟩] at hnone
    cases hnone
  | some r =>
    cases r with
    | error exc => exact absurd hfound (clear_iff.mp hclear exc)
    | ok m =>
      obtain ⟨named, hmem, hexamine⟩ := List.exists_of_findSome?_eq_some hfound
      obtain ⟨rfl, hnames⟩ := examine_ok_iff.mp hexamine
      have hheld : s.Holds named.1 := ScoredSet.holds_of_mem ((scan.visits named).mp hmem)
      simp only [conclude, ScoredSet.mem_remove]
      refine and_congr_right fun hentry => not_congr ⟨fun heq => heq ▸ hnames, fun hown => ?_⟩
      exact hunique entry.1 named.1 (ScoredSet.holds_of_mem hentry) hheld hown hnames

theorem conclude_idle (hnone : ∀ entry ∈ s, ¬ Names codec jobId entry.1) (scan : Scan s) :
    (conclude s (scan.visited.findSome? (examine codec jobId))).2 = s := by
  cases hfound : scan.visited.findSome? (examine codec jobId) with
  | none => rfl
  | some r =>
    cases r with
    | error exc => rfl
    | ok m =>
      obtain ⟨named, hmem, hexamine⟩ := List.exists_of_findSome?_eq_some hfound
      exact absurd (examine_ok_iff.mp hexamine).2 (hnone named ((scan.visits named).mp hmem))

def Settles (codec : JsonCodec) (jobId : Text) {s : ScoredSet Text ℚ} (first second third : Scan s) : Prop :=
  ∃ n, ∀ fuel ≥ n, ∃ t, ackJob codec jobId fuel first.zscan second.zscan third.zscan s = some (.ok (), t) ∧
    Acked codec jobId s t ∧ ∀ first' second' third' : Scan t, ∃ n', ∀ fuel' ≥ n', ∃ r,
      ackJob codec jobId fuel' first'.zscan second'.zscan third'.zscan t = some (r, t)

theorem pages_le (first second third : Scan s) : ∃ n, ∀ fuel ≥ n, ∀ scan ∈ [first, second, third],
    scan.pages.length ≤ fuel := by
  refine ⟨first.pages.length + second.pages.length + third.pages.length, fun fuel hfuel => ?_⟩
  simp only [List.forall_mem_cons, List.not_mem_nil, false_imp_iff, implies_true, and_true]
  omega

theorem ackJob_idle (hnone : ∀ entry ∈ s, ¬ Names codec jobId entry.1) (first second third : Scan s) :
    ∃ n, ∀ fuel ≥ n, ∃ r, ackJob codec jobId fuel first.zscan second.zscan third.zscan s = some (r, s) := by
  obtain ⟨n, hn⟩ := pages_le first second third
  refine ⟨n, fun fuel hfuel => ?_⟩
  obtain ⟨scan, -, hrun, -⟩ := ackJob_mem codec jobId first second third (hn fuel hfuel)
  exact ⟨_, hrun.trans (congrArg some (Prod.ext rfl (conclude_idle hnone scan)))⟩

theorem clear_of_settles {first second third : Scan s} (h : Settles codec jobId first second third) :
    ∃ scan ∈ [first, second, third], Clear codec jobId scan.visited := by
  obtain ⟨n, hn⟩ := pages_le first second third
  obtain ⟨m, hm⟩ := h
  obtain ⟨t, hrun, -⟩ := hm (max m n) (le_max_left m n)
  obtain ⟨scan, hscan, hends, -⟩ := ackJob_mem codec jobId first second third (hn (max m n) (le_max_right m n))
  rw [hends] at hrun
  exact ⟨scan, hscan, clear_iff.mpr (conclude_ok_iff.mp (congrArg Prod.fst (Option.some.inj hrun)))⟩

/-- The call does what it should exactly if in one of the three scans no member on
which `json.loads` raises anything but `JSONDecodeError` comes before the job. -/
theorem ackJob_settles_iff (codec : JsonCodec) (jobId : Text) (s : ScoredSet Text ℚ) (first second third : Scan s)
    (hunique : ∀ m n, s.Holds m → s.Holds n → Names codec jobId m → Names codec jobId n → m = n) :
    Settles codec jobId first second third ↔ ∃ scan ∈ [first, second, third], Clear codec jobId scan.visited := by
  constructor
  · exact clear_of_settles
  · intro hclear
    obtain ⟨n, hn⟩ := pages_le first second third
    refine ⟨n, fun fuel hfuel => ?_⟩
    obtain ⟨scan, -, hends, hbest⟩ := ackJob_mem codec jobId first second third (hn fuel hfuel)
    have hscan : Clear codec jobId scan.visited := hbest hclear
    have hacked := conclude_acked hunique scan hscan
    have hok : (conclude s (scan.visited.findSome? (examine codec jobId))).1 = .ok () :=
      conclude_ok_iff.mpr (clear_iff.mp hscan)
    exact ⟨_, hends.trans (congrArg some (Prod.ext hok rfl)), hacked,
      ackJob_idle fun entry hentry => ((hacked entry).mp hentry).2⟩

/-! ## The processing set of the platform -/

theorem acked_holds_iff {processing : SortedSet Job} {job : Job} {encode : Job → Text}
    (hencoded : ∀ m, s.Holds m ↔ ∃ other, processing.Holds other ∧ encode other = m)
    (hnames : ∀ other, processing.Holds other → (Names codec jobId (encode other) ↔ other.jobId = job.jobId))
    (hunique : ∀ a b, processing.Holds a → processing.Holds b → a.jobId = b.jobId → a = b)
    (h : Acked codec jobId s t) (m : Text) :
    t.Holds m ↔ ∃ other, (Platform.acked processing job).Holds other ∧ encode other = m := by
  have hleft : ∀ other, (Platform.acked processing job).Holds other ↔
      processing.Holds other ∧ other.jobId ≠ job.jobId := by
    intro other
    unfold Platform.acked
    cases hfound : processing.find? fun entry => entry.1.jobId = job.jobId with
    | none =>
      have hnone := List.find?_eq_none.mp hfound
      exact (and_iff_left_of_imp fun ⟨score, hmem⟩ => by simpa using hnone _ hmem).symm
    | some entry =>
      have hid : entry.1.jobId = job.jobId := by simpa using List.find?_some hfound
      have hentry : processing.Holds entry.1 := ⟨entry.2, List.mem_of_find?_eq_some hfound⟩
      simp only [SortedSet.holds_zrem]
      constructor
      · intro hother
        exact ⟨hother.2, fun hsame => hother.1 (hunique _ _ hother.2 hentry (hsame.trans hid.symm))⟩
      · intro hother
        exact ⟨fun hsame => hother.2 (hsame ▸ hid), hother.1⟩
  have hkept : t.Holds m ↔ s.Holds m ∧ ¬ Names codec jobId m := by
    constructor
    · intro ht
      obtain ⟨score, hmem⟩ := ht
      obtain ⟨hold, hnot⟩ := (h (m, score)).mp hmem
      exact ⟨⟨score, hold⟩, hnot⟩
    · intro hs
      obtain ⟨⟨score, hmem⟩, hnot⟩ := hs
      exact ⟨score, (h (m, score)).mpr ⟨hmem, hnot⟩⟩
  rw [hkept, hencoded]
  constructor
  · intro hm
    obtain ⟨⟨other, hother, rfl⟩, hnot⟩ := hm
    exact ⟨other, (hleft other).mpr ⟨hother, fun hid => hnot ((hnames other hother).mpr hid)⟩, rfl⟩
  · intro hm
    obtain ⟨other, hother, rfl⟩ := hm
    obtain ⟨hold, hid⟩ := (hleft other).mp hother
    exact ⟨⟨other, hold, rfl⟩, fun hown => hid ((hnames other hold).mp hown)⟩

/-! ## Samples -/

def onePage (entries : List Entry) (s : ScoredSet Text ℚ) (h : ∀ entry, entry ∈ entries ↔ entry ∈ s) : Scan s where
  zscan _ _ := (0, entries)
  pages := [entries]
  ends := .last rfl
  visits entry := by simpa using h entry

def sampleMember : Text := "\x7b\"job_id\": \"7\"\x7d".toList

def sampleSet : ScoredSet Text ℚ := (ScoredSet.empty.add sampleMember 1).add "[]".toList 2

def sampleScan : Scan sampleSet := onePage sampleSet.entries sampleSet fun _ => Iff.rfl

def sampleCodec : JsonCodec :=
  .ofTable [(.obj [("job_id".toList, .str "7".toList)], sampleMember), (.arr [], "[]".toList)]

theorem ackJob_settles_sample : Settles sampleCodec "7".toList sampleScan sampleScan sampleScan := by
  have hclear : Clear sampleCodec "7".toList sampleScan.visited := by
    intro before entry after _ hpoisons
    obtain ⟨exc, hloads⟩ := hpoisons
    unfold sampleCodec JsonCodec.ofTable at hloads
    simp only at hloads
    split at hloads
    · cases hloads
    · cases hloads
  refine (ackJob_settles_iff sampleCodec "7".toList sampleSet sampleScan sampleScan sampleScan ?_).mpr
    ⟨sampleScan, by simp, hclear⟩
  have hheld : ∀ m, sampleSet.Holds m → Names sampleCodec "7".toList m → m = sampleMember := by
    intro m hm hnames
    rcases ScoredSet.holds_add.mp hm with harray | hm
    · obtain ⟨data, hloads, hid⟩ := hnames
      rw [harray] at hloads
      obtain rfl : Json.arr [] = data := Except.ok.inj hloads
      cases hid
    · exact (ScoredSet.holds_add.mp hm).resolve_right fun hempty => by cases hempty.choose_spec
  exact fun m n hm hn hnamesm hnamesn => (hheld m hm hnamesm).trans (hheld n hn hnamesn).symm

def longInteger : Text := List.replicate 5000 '1'

def limitedCodec : JsonCodec where
  dumps _ := []
  loads x :=
    if x = longInteger then .error (.raised "Exceeds the limit (4300 digits) for integer string conversion".toList)
    else .error .decodeError

def poisonedSet : ScoredSet Text ℚ := ScoredSet.empty.add longInteger 0

def poisonedScan : Scan poisonedSet := onePage poisonedSet.entries poisonedSet fun _ => Iff.rfl

theorem ackJob_raises : ¬ ∀ (codec : JsonCodec) (jobId : Text) (s : ScoredSet Text ℚ) (first second third : Scan s),
    (∀ m n, s.Holds m → s.Holds n → Names codec jobId m → Names codec jobId n → m = n) →
      Settles codec jobId first second third := by
  intro hclaim
  have hloads : limitedCodec.loads longInteger =
      .error (.raised "Exceeds the limit (4300 digits) for integer string conversion".toList) := by
    simp only [limitedCodec, if_true]
  have hnames : ∀ m, ¬ Names limitedCodec [] m := by
    rintro m ⟨data, hdata, -⟩
    simp only [limitedCodec] at hdata
    split_ifs at hdata
  have hsettles := hclaim limitedCodec [] poisonedSet poisonedScan poisonedScan poisonedScan
    fun m n _ _ hm => absurd hm (hnames m)
  obtain ⟨scan, -, hclear⟩ := clear_of_settles hsettles
  have hmem : (longInteger, 0) ∈ scan.visited := (scan.visits _).mpr (ScoredSet.mem_add.mpr (Or.inl rfl))
  obtain ⟨before, after, hvisited⟩ := List.append_of_mem hmem
  obtain ⟨other, -, hother⟩ := hclear before _ after hvisited ⟨_, hloads⟩
  exact hnames other.1 hother

end PyFaaS.AckJob
