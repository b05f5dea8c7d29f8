import PyFaaS.ArchiveExtraction
import PyFaaS.Delimiters

/-!
# The body of an upload

`http` of `cli/sopm.py` writes form fields and files between lines with a random boundary
and looks at no content for it. A reader of the format gets back what was written exactly
if no content contains the delimiter.
-/

namespace PyFaaS.Multipart
open ArchiveExtraction (Data)
open Delimiters

def encode (t : Text) : Data := t.flatMap String.utf8EncodeChar

def crlf : Data := [13, 10]

def dashes : Data := [45, 45]

/-! ## `http` -/

structure File where
  name : Text
  filename : Text
  content : Data

def fieldChunk (boundary : Text) (x : Text × Text) : Data :=
  encode ("--".toList ++ boundary ++ "\r\nContent-Disposition: form-data; ".toList ++ "name=\"".toList ++ x.1 ++
    "\"\r\n\r\n".toList ++ x.2 ++ "\r\n".toList)

def fileChunk (boundary : Text) (x : File) : Data :=
  encode ("--".toList ++ boundary ++ "\r\nContent-Disposition: form-data; name=\"".toList ++ x.name ++ "\"; ".toList ++
    "filename=\"".toList ++ x.filename ++ "\"\r\nContent-Type: application/zip\r\n\r\n".toList) ++ x.content ++ crlf

def multipartBody (boundary : Text) (data : List (Text × Text)) (files : List File) : Data :=
  data.flatMap (fieldChunk boundary) ++ files.flatMap (fileChunk boundary) ++
    encode ("--".toList ++ boundary ++ "--\r\n".toList)

/-! ## Reading the format -/

structure Part where
  headers : List Data
  content : Data

def readHeaders : ℕ → Data → Option (List Data × Data)
  | 0, _ => none
  | n + 1, s =>
    match cut crlf s with
    | none => none
    | some ([], rest) => some ([], rest)
    | some (line, rest) => (readHeaders n rest).map fun p => (line :: p.1, p.2)

def readPart (piece : Data) : Option Part :=
  if crlf <+: piece then (readHeaders piece.length (piece.drop crlf.length)).map fun p => ⟨p.1, p.2⟩ else none

def readParts : List Data → Option (List Part)
  | [] => none
  | [last] => if dashes <+: last then some [] else none
  | piece :: rest => (readPart piece).bind fun p => (readParts rest).map fun ps => p :: ps

def delimiter (boundary : Text) : Data := crlf ++ dashes ++ encode boundary

/-- The delimiter of the first part has its line break in front of the body. -/
def readBody (boundary : Text) (body : Data) : Option (List Part) :=
  match split (delimiter boundary) (crlf ++ body).length (crlf ++ body) with
  | [] :: pieces => readParts pieces
  | _ => none

/-! ## What is written -/

def fieldPart (x : Text × Text) : Part :=
  ⟨[encode ("Content-Disposition: form-data; name=\"".toList ++ x.1 ++ "\"".toList)], encode x.2⟩

def filePart (x : File) : Part :=
  ⟨[encode ("Content-Disposition: form-data; name=\"".toList ++ x.name ++ "\"; filename=\"".toList ++ x.filename ++
      "\"".toList), encode "Content-Type: application/zip".toList], x.content⟩

def parts (data : List (Text × Text)) (files : List File) : List Part := data.map fieldPart ++ files.map filePart

def Part.piece (p : Part) : Data := crlf ++ p.headers.flatMap (fun line => line ++ crlf) ++ crlf ++ p.content

def closing : Data := dashes ++ crlf

variable {boundary : Text} {data : List (Text × Text)} {files : List File} {p : Part} {a b : Text}

theorem encode_append : encode (a ++ b) = encode a ++ encode b := List.flatMap_append

theorem encode_dashes : encode "--".toList = dashes := rfl

theorem encode_crlf : encode "\r\n".toList = crlf := rfl

theorem fieldChunk_eq (x : Text × Text) :
    crlf ++ fieldChunk boundary x = delimiter boundary ++ (fieldPart x).piece ++ crlf := by
  have hhead : encode "\r\nContent-Disposition: form-data; ".toList ++ encode "name=\"".toList =
      crlf ++ encode "Content-Disposition: form-data; name=\"".toList := by decide
  have htail : encode "\"\r\n\r\n".toList = encode "\"".toList ++ crlf ++ crlf := by decide
  simp only [fieldChunk, delimiter, fieldPart, Part.piece, encode_append, encode_dashes, encode_crlf, htail,
    List.flatMap_cons, List.flatMap_nil, List.append_nil, List.append_assoc]
  rw [← List.append_assoc (encode "\r\nContent-Disposition: form-data; ".toList), hhead, List.append_assoc]

theorem fileChunk_eq (x : File) :
    crlf ++ fileChunk boundary x = delimiter boundary ++ (filePart x).piece ++ crlf := by
  have hhead : encode "\r\nContent-Disposition: form-data; name=\"".toList =
      crlf ++ encode "Content-Disposition: form-data; name=\"".toList := by decide
  have hmiddle : encode "\"; ".toList ++ encode "filename=\"".toList = encode "\"; filename=\"".toList := by
    decide
  have htail : encode "\"\r\nContent-Type: application/zip\r\n\r\n".toList =
      encode "\"".toList ++ crlf ++ encode "Content-Type: application/zip".toList ++ crlf ++ crlf := by decide
  simp only [fileChunk, delimiter, filePart, Part.piece, encode_append, encode_dashes, hhead, htail, ← hmiddle,
    List.flatMap_cons, List.flatMap_nil, List.append_nil, List.append_assoc]

theorem chunks_eq {τ : Type} {chunk : τ → Data} {part : τ → Part}
    (h : ∀ x, crlf ++ chunk x = delimiter boundary ++ (part x).piece ++ crlf) (xs : List τ) :
    crlf ++ xs.flatMap chunk = (xs.map part).flatMap (fun p => delimiter boundary ++ p.piece) ++ crlf := by
  induction xs with
  | nil => rfl
  | cons x xs ih =>
    rw [List.map_cons, List.flatMap_cons, List.flatMap_cons, ← List.append_assoc, h, List.append_assoc, ih,
      ← List.append_assoc]

theorem multipartBody_eq : crlf ++ multipartBody boundary data files =
    (delimiter boundary).intercalate ([] :: ((parts data files).map Part.piece ++ [closing])) := by
  have hclosing : crlf ++ encode ("--".toList ++ boundary ++ "--\r\n".toList) = delimiter boundary ++ closing := by
    have hend : encode "--\r\n".toList = closing := by decide
    rw [encode_append, encode_append, encode_dashes, hend]
    simp only [delimiter, List.append_assoc]
  have hpieces : ((parts data files).map Part.piece).flatMap (fun y => delimiter boundary ++ y) =
      (data.map fieldPart).flatMap (fun p => delimiter boundary ++ p.piece) ++
        (files.map filePart).flatMap (fun p => delimiter boundary ++ p.piece) := by
    rw [List.flatMap_map, parts, List.flatMap_append]
  calc crlf ++ multipartBody boundary data files
    _ = crlf ++ data.flatMap (fieldChunk boundary) ++ (files.flatMap (fileChunk boundary) ++
          encode ("--".toList ++ boundary ++ "--\r\n".toList)) := by
      rw [multipartBody, List.append_assoc, ← List.append_assoc crlf]
    _ = (data.map fieldPart).flatMap (fun p => delimiter boundary ++ p.piece) ++
          (crlf ++ files.flatMap (fileChunk boundary) ++ encode ("--".toList ++ boundary ++ "--\r\n".toList)) := by
      rw [chunks_eq fieldChunk_eq, List.append_assoc, ← List.append_assoc crlf]
    _ = (data.map fieldPart).flatMap (fun p => delimiter boundary ++ p.piece) ++
          ((files.map filePart).flatMap (fun p => delimiter boundary ++ p.piece) ++
            (delimiter boundary ++ closing)) := by
      rw [chunks_eq fileChunk_eq, List.append_assoc, hclosing]
    _ = (delimiter boundary).intercalate ([] :: ((parts data files).map Part.piece ++ [closing])) := by
      rw [intercalate_eq, List.flatMap_append, List.flatMap_singleton, hpieces, List.nil_append, List.append_assoc]

/-! ## The delimiter in a piece -/

theorem byte_return {n : ℕ} (h : UInt8.ofNat n = 13) : n % 256 = 13 := by
  have hnat := congrArg UInt8.toNat h
  simpa using hnat

theorem return_encoded {ch : Char} (h : (13 : UInt8) ∈ String.utf8EncodeChar ch) : ch = '\r' := by
  unfold String.utf8EncodeChar at h
  simp only at h
  split_ifs at h with hone htwo hthree
  · have hbyte := byte_return (List.mem_singleton.mp h).symm
    apply Char.ext
    apply UInt32.toNat_inj.mp
    change ch.val.toNat = 13
    omega
  · simp only [List.mem_cons, List.not_mem_nil, or_false] at h
    rcases h with h | h <;> have hbyte := byte_return h.symm <;> omega
  · simp only [List.mem_cons, List.not_mem_nil, or_false] at h
    rcases h with h | h | h <;> have hbyte := byte_return h.symm <;> omega
  · simp only [List.mem_cons, List.not_mem_nil, or_false] at h
    rcases h with h | h | h | h <;> have hbyte := byte_return h.symm <;> omega

theorem notMem_encode (h : '\r' ∉ a) : (13 : UInt8) ∉ encode a := by
  intro hmem
  obtain ⟨ch, hch, hbyte⟩ := List.mem_flatMap.mp hmem
  exact h (return_encoded hbyte ▸ hch)

structure Plain (line : Data) : Prop where
  noReturn : 13 ∉ line
  first : ∃ c rest, line = c :: rest ∧ c ≠ 45

theorem delimiter_break {c : UInt8} {y : Data} (hc : c ≠ 45) :
    delimiter boundary <:+: crlf ++ (c :: y) ↔ delimiter boundary <:+: c :: y := by
  have hdelimiter : delimiter boundary = 13 :: 10 :: 45 :: 45 :: encode boundary := rfl
  rw [hdelimiter]
  change 13 :: 10 :: 45 :: 45 :: encode boundary <:+: 13 :: 10 :: c :: y ↔ _
  rw [List.infix_cons_iff, or_iff_right, List.infix_cons_iff, or_iff_right]
  · intro h
    exact absurd (List.cons_prefix_cons.mp h).1 (by decide)
  · intro h
    obtain ⟨-, h⟩ := List.cons_prefix_cons.mp h
    obtain ⟨-, h⟩ := List.cons_prefix_cons.mp h
    exact hc (List.cons_prefix_cons.mp h).1.symm

theorem delimiter_line {line y : Data} (h : Plain line) :
    delimiter boundary <:+: crlf ++ (line ++ y) ↔ delimiter boundary <:+: y := by
  obtain ⟨c, rest, rfl, hc⟩ := h.first
  rw [List.cons_append, delimiter_break hc, ← List.cons_append]
  exact infix_append_iff h.noReturn

def Part.Plain (p : Part) : Prop := ∀ line ∈ p.headers, Multipart.Plain line

theorem delimiter_piece (h : p.Plain) :
    delimiter boundary <:+: p.piece ↔ delimiter boundary <:+: crlf ++ p.content := by
  obtain ⟨headers, content⟩ := p
  unfold Part.piece
  simp only
  induction headers with
  | nil => exact delimiter_break (by decide)
  | cons line lines ih =>
    obtain ⟨hline, hlines⟩ := List.forall_mem_cons.mp h
    rw [List.flatMap_cons]
    simp only [List.append_assoc] at ih ⊢
    rw [delimiter_line hline]
    exact ih hlines

/-! ## Reading a piece back -/

theorem crlf_plain {line : Data} (h : Plain line) : ¬ crlf <:+: line := fun hinside =>
  h.noReturn (hinside.subset (List.mem_cons_self ..))

theorem readHeaders_lines {lines : List Data} {content : Data} {n : ℕ} (h : ∀ line ∈ lines, Plain line)
    (hn : lines.length < n) :
    readHeaders n (lines.flatMap (fun line => line ++ crlf) ++ crlf ++ content) = some (lines, content) := by
  have hten : (13 : UInt8) ∉ [(10 : UInt8)] := by decide
  induction lines generalizing n with
  | nil =>
    obtain ⟨m, rfl⟩ := Nat.exists_eq_succ_of_ne_zero (Nat.ne_of_gt hn)
    have hcut : cut crlf ([] ++ crlf ++ content) = some ([], content) :=
      cut_append hten (fun hnil => List.cons_ne_nil _ _ (List.infix_nil.mp hnil))
    rw [List.flatMap_nil, readHeaders, hcut]
  | cons line lines ih =>
    obtain ⟨m, rfl⟩ := Nat.exists_eq_succ_of_ne_zero (Nat.ne_of_gt (Nat.zero_lt_of_lt hn))
    obtain ⟨hline, hlines⟩ := List.forall_mem_cons.mp h
    have hcut : cut crlf (line ++ crlf ++ (lines.flatMap (fun line => line ++ crlf) ++ crlf ++ content)) =
        some (line, lines.flatMap (fun line => line ++ crlf) ++ crlf ++ content) :=
      cut_append hten (crlf_plain hline)
    obtain ⟨c, rest, rfl, -⟩ := hline.first
    rw [List.flatMap_cons, List.append_assoc, List.append_assoc, ← List.append_assoc (lines.flatMap _), readHeaders,
      hcut]
    simp only
    rw [ih hlines (Nat.lt_of_succ_lt_succ hn)]
    rfl

theorem readPart_piece (h : p.Plain) : readPart p.piece = some p := by
  have hdrop : p.piece.drop crlf.length = p.headers.flatMap (fun line => line ++ crlf) ++ crlf ++ p.content := by
    rw [Part.piece, List.append_assoc, List.append_assoc, List.drop_left, List.append_assoc]
  have hlength : p.headers.length < p.piece.length := by
    have hlines : p.headers.length ≤ (p.headers.flatMap fun line => line ++ crlf).length := by
      induction p.headers with
      | nil => exact Nat.zero_le _
      | cons line lines ih =>
        simp only [List.flatMap_cons, List.length_append, List.length_cons, crlf, List.length_nil] at ih ⊢
        omega
    simp only [Part.piece, List.length_append, crlf, List.length_cons, List.length_nil] at hlines ⊢
    omega
  rw [readPart, if_pos, hdrop, readHeaders_lines h hlength]
  · rfl
  · rw [Part.piece, List.append_assoc, List.append_assoc]
    exact List.prefix_append ..

theorem readHeaders_suffix {n : ℕ} {s content : Data} {lines : List Data}
    (h : readHeaders n s = some (lines, content)) :
    ∃ front, s = front ++ crlf ++ content := by
  induction n generalizing s lines with
  | zero => cases h
  | succ n ih =>
    rw [readHeaders] at h
    cases hcut : cut crlf s with
    | none => simp [hcut] at h
    | some q =>
      obtain ⟨line, rest⟩ := q
      obtain ⟨hs, -⟩ := cut_some (List.cons_ne_nil _ _) hcut
      rw [hcut] at h
      cases line with
      | nil =>
        simp only [Option.some.injEq, Prod.mk.injEq] at h
        exact ⟨[], h.2 ▸ hs⟩
      | cons c line =>
        obtain ⟨r, hr, hpair⟩ := Option.map_eq_some_iff.mp h
        obtain ⟨-, rfl⟩ := Prod.mk.inj hpair
        obtain ⟨front, hfront⟩ := ih hr
        exact ⟨c :: line ++ crlf ++ front, by rw [hs, hfront]; simp only [crlf, List.append_assoc]⟩

theorem readPart_suffix {piece : Data} (h : readPart piece = some p) : crlf ++ p.content <:+: piece := by
  unfold readPart at h
  split_ifs at h
  obtain ⟨q, hq, rfl⟩ := Option.map_eq_some_iff.mp h
  obtain ⟨front, hfront⟩ := readHeaders_suffix hq
  have hsuffix : crlf ++ q.2 <:+ piece.drop crlf.length := ⟨front, by rw [hfront, List.append_assoc]⟩
  exact (hsuffix.trans (List.drop_suffix ..)).isInfix

/-! ## Reading a body back -/

theorem readParts_pieces {ps : List Part} (h : ∀ p ∈ ps, p.Plain) :
    readParts (ps.map Part.piece ++ [closing]) = some ps := by
  induction ps with
  | nil => rfl
  | cons p ps ih =>
    obtain ⟨hp, hps⟩ := List.forall_mem_cons.mp h
    have hrest : ∃ q qs, ps.map Part.piece ++ [closing] = q :: qs := List.exists_cons_of_ne_nil (by simp)
    obtain ⟨q, qs, hcons⟩ := hrest
    rw [List.map_cons, List.cons_append, hcons, readParts, readPart_piece hp, ← hcons, ih hps]
    · rfl
    · intro hnil
      cases hnil

theorem readParts_contents {pieces : List Data} {ps : List Part} (h : readParts pieces = some ps) :
    ∀ p ∈ ps, ∃ piece ∈ pieces, crlf ++ p.content <:+: piece := by
  induction pieces generalizing ps with
  | nil => cases h
  | cons piece rest ih =>
    cases rest with
    | nil =>
      rw [readParts] at h
      split_ifs at h
      rw [← Option.some.inj h]
      exact List.forall_mem_nil _
    | cons next rest =>
      rw [readParts] at h
      · obtain ⟨p, hp, h⟩ := Option.bind_eq_some_iff.mp h
        obtain ⟨qs, hqs, rfl⟩ := Option.map_eq_some_iff.mp h
        intro q hq
        rcases List.mem_cons.mp hq with rfl | hq
        · exact ⟨piece, List.mem_cons_self, readPart_suffix hp⟩
        · obtain ⟨piece', hmem, hinside⟩ := ih hqs q hq
          exact ⟨piece', List.mem_cons_of_mem _ hmem, hinside⟩
      · intro hnil
        cases hnil

theorem plain_header {t : Text} (h : '\r' ∉ t) (hfirst : 'C' ∈ t.head?) : Plain (encode t) := by
  obtain ⟨rest, rfl⟩ := List.head?_eq_some_iff.mp hfirst
  exact ⟨notMem_encode h, 67, encode rest, rfl, by decide⟩

theorem fieldPart_plain {x : Text × Text} (h : '\r' ∉ x.1) : (fieldPart x).Plain := by
  intro line hline
  rw [fieldPart, List.mem_singleton] at hline
  rw [hline]
  apply plain_header
  · simp only [List.mem_append, not_or]
    exact ⟨⟨by decide, h⟩, by decide⟩
  · rfl

theorem filePart_plain {x : File} (hname : '\r' ∉ x.name) (hfilename : '\r' ∉ x.filename) : (filePart x).Plain := by
  intro line hline
  simp only [filePart, List.mem_cons, List.not_mem_nil, or_false] at hline
  rcases hline with rfl | rfl
  · apply plain_header
    · simp only [List.mem_append, not_or]
      exact ⟨⟨⟨⟨by decide, hname⟩, by decide⟩, hfilename⟩, by decide⟩
    · rfl
  · exact plain_header (by decide) rfl

theorem parts_plain (hdata : ∀ x ∈ data, '\r' ∉ x.1) (hfiles : ∀ x ∈ files, '\r' ∉ x.name ∧ '\r' ∉ x.filename) :
    ∀ p ∈ parts data files, p.Plain := by
  intro p hp
  rcases List.mem_append.mp hp with hp | hp
  · obtain ⟨x, hx, rfl⟩ := List.mem_map.mp hp
    exact fieldPart_plain (hdata x hx)
  · obtain ⟨x, hx, rfl⟩ := List.mem_map.mp hp
    exact filePart_plain (hfiles x hx).1 (hfiles x hx).2

theorem delimiter_once (h : '\r' ∉ boundary) : (13 : UInt8) ∉ 10 :: 45 :: 45 :: encode boundary := by
  simp only [List.mem_cons, not_or]
  exact ⟨by decide, by decide, by decide, notMem_encode h⟩

/-- What is sent is read back exactly if the delimiter stands in no content. -/
theorem readBody_multipartBody (hboundary : '\r' ∉ boundary) (hdata : ∀ x ∈ data, '\r' ∉ x.1)
    (hfiles : ∀ x ∈ files, '\r' ∉ x.name ∧ '\r' ∉ x.filename) :
    readBody boundary (multipartBody boundary data files) = some (parts data files) ↔
      ∀ p ∈ parts data files, ¬ delimiter boundary <:+: crlf ++ p.content := by
  have hplain := parts_plain hdata hfiles
  have hdelimiter : delimiter boundary = 13 :: 10 :: 45 :: 45 :: encode boundary := rfl
  have hnonempty : delimiter boundary ≠ [] := List.cons_ne_nil _ _
  constructor
  · intro hread p hp hinside
    unfold readBody at hread
    split at hread
    · rename_i pieces hsplit
      obtain ⟨piece, hpiece, hcontent⟩ := readParts_contents hread p hp
      apply split_free hnonempty le_rfl piece
      · rw [hsplit]
        exact List.mem_cons_of_mem _ hpiece
      · exact hinside.trans hcontent
    · cases hread
  · intro hfree
    have hpieces : ∀ y ∈ (parts data files).map Part.piece ++ [closing], ¬ delimiter boundary <:+: y := by
      intro y hy
      rcases List.mem_append.mp hy with hy | hy
      · obtain ⟨p, hp, rfl⟩ := List.mem_map.mp hy
        exact fun h => hfree p hp ((delimiter_piece (hplain p hp)).mp h)
      · rw [List.mem_singleton.mp hy]
        intro h
        have hcrlf : delimiter boundary <:+: crlf := (infix_append_iff (by decide)).mp h
        have hlength := hcrlf.length_le
        simp only [hdelimiter, crlf, List.length_cons, List.length_nil] at hlength
        omega
    have hlength : ((parts data files).map Part.piece ++ [closing]).length ≤
        (crlf ++ multipartBody boundary data files).length := by
      rw [multipartBody_eq]
      exact length_le_intercalate hnonempty
    have hsplit : split (delimiter boundary) (crlf ++ multipartBody boundary data files).length
        (crlf ++ multipartBody boundary data files) = [] :: ((parts data files).map Part.piece ++ [closing]) := by
      rw [multipartBody_eq] at hlength ⊢
      exact split_join (delimiter_once hboundary) (fun h => hnonempty (List.infix_nil.mp h)) hpieces hlength
    rw [readBody, hsplit]
    exact readParts_pieces hplain

/-- A line break and two dashes in the archive are no delimiter yet. -/
theorem readBody_multipartBody_sample :
    let archive : File := ⟨"archive".toList, "sopm-deploy-x1.zip".toList, [80, 75, 13, 10, 45, 45, 45, 45, 115, 13, 10]⟩
    let data := [("entrypoint".toList, "main".toList), ("timeout".toList, "30".toList)]
    readBody "----sopm_k3".toList (multipartBody "----sopm_k3".toList data [archive]) = some (parts data [archive]) :=
  (readBody_multipartBody (by decide) (by decide) (by decide)).mpr (by decide)

end PyFaaS.Multipart
