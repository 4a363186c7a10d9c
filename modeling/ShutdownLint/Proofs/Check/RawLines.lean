import ShutdownLint.Proofs.BuildFile.LineEdits
import ShutdownLint.Proofs.Check.Stages
import ShutdownLint.Proofs.Text.ByteLines
/-!
Findings on the lines of a build file as its bytes have them.

A build file is read as text in which malformed bytes have been replaced. Nothing of that reaches
over the end of a line: the findings are those on the lines of the bytes, each decoded on its own.
So the number of a finding counts line feeds in the file, and what other lines are made of does not
matter.
-/

set_option autoImplicit false

namespace ShutdownLint

open Text Text.Utf8

namespace BuildFile

variable {file : String} {f : Finding} {k : Nat} {bytes front front' line line' : List UInt8}

/-! ### Lines of bytes -/

/-- A whole line of some bytes, with the bytes in front of it. -/
def IsLineBehind (bytes front line : List UInt8) : Prop :=
  ∃ back, bytes = front ++ line ++ back ∧ 0x0A ∉ line ∧
    (front = [] ∨ front.getLast? = some 0x0A) ∧ (back = [] ∨ back.head? = some 0x0A)

/-- A line as it is read behind some bytes: the first of all loses a mark. -/
def readBehindBytes (front line : List UInt8) : List UInt8 :=
  if front = [] then Utf8.withoutMark line else line

theorem IsLineBehind.getElem? (h : IsLineBehind bytes front line) :
    (bytes.splitOn 0x0A)[front.count 0x0A]? = some line := by
  obtain ⟨back, rfl, hline, hfront, hback⟩ := h
  have hfirst : ((line ++ back).splitOn 0x0A)[0]? = some line := by
    rcases hback with rfl | hback
    · rw [List.append_nil, List.splitOn_eq_singleton hline]
      rfl
    · obtain ⟨back, rfl⟩ := List.head?_eq_some_iff.mp hback
      rw [List.splitOn_append_cons_self, List.splitOn_eq_singleton hline]
      rfl
  rcases hfront with rfl | hfront
  · exact hfirst
  · obtain ⟨front, rfl⟩ := List.getLast?_eq_some_iff.mp hfront
    have hcount : (front ++ [0x0A]).count 0x0A = (front.splitOn 0x0A).length := by
      rw [length_splitOn, List.count_append, List.count_singleton_self]
    rw [List.append_assoc, List.append_assoc, List.singleton_append,
      List.splitOn_append_cons_self, hcount, List.getElem?_append_right (Nat.le_refl _),
      Nat.sub_self, hfirst]

theorem IsLineBehind.behind_cut (h : IsLineBehind bytes front line) (first : List UInt8) :
    IsLineBehind (first ++ 0x0A :: bytes) (first ++ 0x0A :: front) line := by
  obtain ⟨back, rfl, hline, hfront, hback⟩ := h
  refine ⟨back, by simp, hline, Or.inr ?_, hback⟩
  rcases hfront with rfl | hfront
  · rw [List.getLast?_concat]
  · rw [List.getLast?_append, List.getLast?_cons, hfront]
    rfl

theorem exists_isLineBehind (h : (bytes.splitOn 0x0A)[k]? = some line) :
    ∃ front, IsLineBehind bytes front line ∧ front.count 0x0A = k := by
  induction bytes using pieces_induction (0x0A : UInt8) generalizing k with
  | last piece hpiece =>
    rw [List.splitOn_eq_singleton hpiece] at h
    cases k with
    | zero =>
      obtain rfl : piece = line := by simpa using h
      exact ⟨[], ⟨[], by simp, hpiece, Or.inl rfl, Or.inl rfl⟩, rfl⟩
    | succ k => cases h
  | cut piece rest hpiece ih =>
    rw [List.splitOn_append_cons_self, List.splitOn_eq_singleton hpiece,
      List.singleton_append] at h
    cases k with
    | zero =>
      obtain rfl : piece = line := by simpa using h
      exact ⟨[], ⟨0x0A :: rest, rfl, hpiece, Or.inl rfl, Or.inr rfl⟩, rfl⟩
    | succ k =>
      obtain ⟨front, hbehind, hcount⟩ := ih h
      refine ⟨piece ++ 0x0A :: front, hbehind.behind_cut piece, ?_⟩
      rw [List.count_append, List.count_eq_zero_of_not_mem hpiece, List.count_cons_self, hcount,
        Nat.zero_add]

/-! ### Findings -/

theorem withoutMark_lossy (bytes : List UInt8) :
    BuildFile.withoutMark (lossy bytes).toList = (lossy (Utf8.withoutMark bytes)).toList := by
  by_cases h : mark <+: bytes
  · obtain ⟨rest, rfl⟩ := h
    rw [withoutMark_mark_append, toList_lossy, decode_mark_append, toList_lossy]
    rfl
  · rw [withoutMark_eq_self fun hhead ↦ h (head?_lossy_iff.mp hhead), Utf8.withoutMark_eq_self h]

theorem findingsFrom_eq_flatMap (ls : List (List Char)) :
    findingsFrom file (UInt32.ofNat k) ls =
      (ls.zipIdx k).flatMap fun (line, number) ↦ (lineFinding? file number line).toList := by
  induction ls generalizing k with
  | nil => rfl
  | cons line ls ih => rw [findingsFrom_cons, ih, List.zipIdx_cons, List.flatMap_cons]

/-- The findings on a build file by the lines of its bytes. -/
theorem findings_lossy (bytes : List UInt8) : findings (lossy bytes) file =
    ((byteLines (Utf8.withoutMark bytes)).zipIdx 1).flatMap fun (line, number) ↦
      (lineFinding? file number (lossy line).toList).toList := by
  rw [findings_eq, withoutMark_lossy, linePieces_lossy]
  refine (findingsFrom_eq_flatMap (k := 1) _).trans ?_
  rw [List.zipIdx_map, List.flatMap_map]
  rfl

/-! ### Findings line by line -/

/-- The finding on a line of bytes that stands behind some others, if there is one. -/
def rawFinding? (file : String) (front line : List UInt8) : Option Finding :=
  lineFinding? file (front.count 0x0A + 1) (lossy (readBehindBytes front line)).toList

theorem IsLineBehind.count_eq_zero_iff (h : IsLineBehind bytes front line) :
    front.count 0x0A = 0 ↔ front = [] := by
  obtain ⟨-, -, -, hfront, -⟩ := h
  constructor
  · intro hcount
    exact hfront.resolve_right fun hlast ↦
      List.count_eq_zero.mp hcount (List.mem_of_getLast? hlast)
  · rintro rfl
    rfl

theorem IsLineBehind.getElem?_withoutMark (h : IsLineBehind bytes front line) :
    ((Utf8.withoutMark bytes).splitOn 0x0A)[front.count 0x0A]? =
      some (readBehindBytes front line) := by
  rw [Utf8.splitOn_withoutMark, List.getElem?_modifyHead, h.getElem?, Option.map_some,
    readBehindBytes]
  simp only [h.count_eq_zero_iff]
  split_ifs <;> rfl

/-- Apart from an empty piece at the end the lines are the pieces. -/
theorem getElem?_byteLines_iff (hline : line ≠ []) :
    (byteLines bytes)[k]? = some line ↔ (bytes.splitOn 0x0A)[k]? = some line := by
  unfold byteLines
  simp only
  split_ifs with hlast
  · obtain ⟨pieces, hpieces⟩ := List.getLast?_eq_some_iff.mp hlast
    rw [hpieces, List.dropLast_concat, List.getElem?_append]
    split_ifs with hlt
    · rfl
    · rw [List.getElem?_eq_none (Nat.le_of_not_lt hlt)]
      refine ⟨nofun, fun h ↦ absurd ?_ hline⟩
      exact List.mem_singleton.mp (List.mem_of_getElem? h)
  · rfl

theorem mem_flatMap_zipIdx_iff {ls : List (List UInt8)} :
    (f ∈ (ls.zipIdx 1).flatMap fun (line, number) ↦
      (lineFinding? file number (lossy line).toList).toList) ↔
      ∃ k line, ls[k]? = some line ∧ lineFinding? file (k + 1) (lossy line).toList = some f := by
  rw [List.mem_flatMap]
  constructor
  · rintro ⟨⟨line, number⟩, hmem, hf⟩
    obtain ⟨hle, hline⟩ := List.mk_mem_zipIdx_iff_le_and_getElem?_sub.mp hmem
    refine ⟨number - 1, line, hline, ?_⟩
    rw [Nat.sub_add_cancel hle]
    exact Option.mem_toList.mp hf
  · rintro ⟨k, line, hline, hf⟩
    exact ⟨(line, k + 1), List.mk_mem_zipIdx_iff_le_and_getElem?_sub.mpr ⟨by omega, hline⟩,
      Option.mem_toList.mpr hf⟩

theorem ne_nil_of_lineFinding? {number : Nat}
    (h : lineFinding? file number (lossy line).toList = some f) : line ≠ [] := by
  rintro rfl
  cases h

/-- The findings are those on the lines of the bytes, wherever these stand. -/
theorem mem_findings_lossy_iff : f ∈ findings (lossy bytes) file ↔
    ∃ front line, IsLineBehind bytes front line ∧ rawFinding? file front line = some f := by
  rw [findings_lossy, mem_flatMap_zipIdx_iff]
  constructor
  · rintro ⟨k, raw, hraw, hf⟩
    have hpiece := (getElem?_byteLines_iff (ne_nil_of_lineFinding? hf)).mp hraw
    rw [Utf8.splitOn_withoutMark, List.getElem?_modifyHead] at hpiece
    obtain ⟨line, hline⟩ : ∃ line, (bytes.splitOn 0x0A)[k]? = some line := by
      cases h : (bytes.splitOn 0x0A)[k]? with
      | none => simp [h] at hpiece
      | some line => exact ⟨line, rfl⟩
    obtain ⟨front, hbehind, rfl⟩ := exists_isLineBehind hline
    rw [← List.getElem?_modifyHead, ← Utf8.splitOn_withoutMark, hbehind.getElem?_withoutMark]
      at hpiece
    exact ⟨front, line, hbehind, by rw [rawFinding?, Option.some.inj hpiece, hf]⟩
  · rintro ⟨front, line, hbehind, hf⟩
    exact ⟨_, _, (getElem?_byteLines_iff (ne_nil_of_lineFinding? hf)).mpr
      hbehind.getElem?_withoutMark, hf⟩

/-- The number of a finding counts the line feeds in front of its line. -/
theorem isOn_of_rawFinding? (hlines : (byteLines (Utf8.withoutMark bytes)).length < 2 ^ 32)
    (h : IsLineBehind bytes front line) (hf : rawFinding? file front line = some f) :
    IsOn (· = front.count 0x0A + 1) f := by
  have hraw := (getElem?_byteLines_iff (ne_nil_of_lineFinding? hf)).mpr h.getElem?_withoutMark
  have hlt := (List.getElem?_eq_some_iff.mp hraw).1
  obtain ⟨r, -, rfl⟩ := Option.map_eq_some_iff.mp hf
  exact ⟨_, rfl, UInt32.toNat_ofNat_of_lt' (show front.count 0x0A + 1 < 2 ^ 32 by omega)⟩

/-- A line answers for the findings with its number. -/
theorem mem_findings_on_line_iff (hlines : (byteLines (Utf8.withoutMark bytes)).length < 2 ^ 32)
    (h : IsLineBehind bytes front line) (hf : IsOn (· = front.count 0x0A + 1) f) :
    f ∈ findings (lossy bytes) file ↔ rawFinding? file front line = some f := by
  rw [mem_findings_lossy_iff]
  refine ⟨?_, fun hfound ↦ ⟨front, line, h, hfound⟩⟩
  rintro ⟨front', line', h', hfound⟩
  obtain ⟨number, hnumber, hvalue⟩ := hf
  obtain ⟨number', hnumber', hvalue'⟩ := isOn_of_rawFinding? hlines h' hfound
  have hcount : front.count 0x0A = front'.count 0x0A := by
    have hsame : number = number' := Option.some.inj (hnumber.symm.trans hnumber')
    subst hsame
    omega
  have hread := h.getElem?_withoutMark
  rw [hcount, h'.getElem?_withoutMark] at hread
  rw [rawFinding?, hcount, ← Option.some.inj hread]
  exact hfound

end BuildFile

/-! ### The law -/

open BuildFile

/-- A build file with less than 2^32 lines, in bytes. The findings are those on its lines, each
decoded on its own. Their numbers count the line feeds in front of their lines. A line that stands
behind as many line feeds in another file, wherever that is and whatever its other lines are, has
the same finding there. -/
theorem Check.analyze_rawLines_law {fs : FileSystem} {path : Path} {bytes : List UInt8}
    (hread : fs.read path = .ok bytes)
    (hlines : (byteLines (Utf8.withoutMark bytes)).length < 2 ^ 32) :
    ∃ found, analyze fs ⟨path, .buildFile⟩ = .ok found ∧
      (found = ((byteLines (Utf8.withoutMark bytes)).zipIdx 1).flatMap fun (line, number) ↦
        (lineFinding? path.text number (lossy line).toList).toList) ∧
      (∀ f ∈ found, ∃ front line, IsLineBehind bytes front line ∧
        rawFinding? path.text front line = some f ∧ IsOn (· = front.count 0x0A + 1) f) ∧
      ∀ (fs' : FileSystem) (bytes' front front' line : List UInt8),
        fs'.read path = .ok bytes' → (byteLines (Utf8.withoutMark bytes')).length < 2 ^ 32 →
        IsLineBehind bytes front line → IsLineBehind bytes' front' line →
        front'.count 0x0A = front.count 0x0A →
        ∃ found', analyze fs' ⟨path, .buildFile⟩ = .ok found' ∧
          ∀ f, IsOn (· = front.count 0x0A + 1) f → (f ∈ found' ↔ f ∈ found) := by
  refine ⟨_, analyze_eq_ok_iff.mpr ⟨bytes, hread, rfl⟩, findings_lossy bytes, ?_, ?_⟩
  · intro f hf
    obtain ⟨front, line, hbehind, hfound⟩ := mem_findings_lossy_iff.mp hf
    exact ⟨front, line, hbehind, hfound, isOn_of_rawFinding? hlines hbehind hfound⟩
  · intro fs' bytes' front front' line hread' hlines' hbehind hbehind' hcount
    refine ⟨_, analyze_eq_ok_iff.mpr ⟨bytes', hread', rfl⟩, fun f hf ↦ ?_⟩
    have hsame : readBehindBytes front' line = readBehindBytes front line := by
      simp only [readBehindBytes, ← hbehind.count_eq_zero_iff, ← hbehind'.count_eq_zero_iff, hcount]
    refine (mem_findings_on_line_iff hlines' hbehind' (hcount.symm ▸ hf)).trans ?_
    refine Iff.trans ?_ (mem_findings_on_line_iff hlines hbehind hf).symm
    rw [rawFinding?, hsame, hcount]
    rfl

/-- A directory with a build file. -/
def withBuildFile (bytes : List UInt8) : FileSystem where
  root := .directory [("Dockerfile", .file bytes)]
  workingDirectory := []

theorem read_withBuildFile (bytes : List UInt8) :
    (withBuildFile bytes).read (Path.ofText "Dockerfile") = .ok bytes :=
  rfl

/-- The third line of two files. In front of it stand a mark and a comment and the beginning of a
character of three bytes, or a null that is too long and the beginning of one of four bytes. -/
theorem Check.analyze_rawLines_law_truncated :
    let path := Path.ofText "Dockerfile"
    let line := encode "ENTRYPOINT b"
    let front := mark ++ [0x23, 0x0A, 0xE2, 0x82, 0x0A]
    let front' := [0xC0, 0x80, 0x0A, 0xF0, 0x9F, 0x0A]
    (withBuildFile (front ++ line)).read path = .ok (front ++ line) ∧
      (byteLines (Utf8.withoutMark (front ++ line))).length < 2 ^ 32 ∧
      ∃ found found', analyze (withBuildFile (front ++ line)) ⟨path, .buildFile⟩ = .ok found ∧
        analyze (withBuildFile (front' ++ line)) ⟨path, .buildFile⟩ = .ok found' ∧
        Rule.shellEntrypoint.atLine path.text 3 ∈ found ∧
        Rule.shellEntrypoint.atLine path.text 3 ∈ found' := by
  intro path line front front'
  have hread : (withBuildFile (front ++ line)).read path = .ok (front ++ line) :=
    read_withBuildFile (front ++ line)
  have hread' : (withBuildFile (front' ++ line)).read path = .ok (front' ++ line) :=
    read_withBuildFile (front' ++ line)
  have hlines : (byteLines (Utf8.withoutMark (front ++ line))).length < 2 ^ 32 := by decide
  have hlines' : (byteLines (Utf8.withoutMark (front' ++ line))).length < 2 ^ 32 := by decide
  have hline : 0x0A ∉ line := by decide +kernel
  have hbehind : IsLineBehind (front ++ line) front line :=
    ⟨[], (List.append_nil _).symm, hline, Or.inr (by decide +kernel), Or.inl rfl⟩
  have hbehind' : IsLineBehind (front' ++ line) front' line :=
    ⟨[], (List.append_nil _).symm, hline, Or.inr (by decide), Or.inl rfl⟩
  obtain ⟨found, hfound, hall, -, hsame⟩ := analyze_rawLines_law hread hlines
  obtain ⟨found', hfound', hiff⟩ :=
    hsame _ _ front front' line hread' hlines' hbehind hbehind' (by decide +kernel)
  have hmem : Rule.shellEntrypoint.atLine path.text 3 ∈ found := by
    rw [hall]
    decide +kernel
  have hon : IsOn (· = front.count 0x0A + 1) (Rule.shellEntrypoint.atLine path.text 3) :=
    ⟨3, rfl, by decide +kernel⟩
  exact ⟨hread, hlines, found, found', hfound, hfound', hmem, (hiff _ hon).mpr hmem⟩

end ShutdownLint
