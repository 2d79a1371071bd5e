import Recognizer.Command.CommandLine
import Recognizer.Files.Tree
import Recognizer.Proofs.Json.Recognition

/-!
# What a check reports

The files are given by the bytes that are read at paths. A file is accepted if its bytes are the
UTF-8 form of a JSON text. `Reports` deals out the paths of a check to two lists of lines, one line
for each path and in their order; the streams of the program are such lists, and its exit code tells
whether the second one is empty (`runCommandLine_check`).
-/

namespace Recognizer

namespace Files

/-- The bytes that are read at a path. -/
abbrev Reader : Type :=
  String → Except ReadError ByteArray

/-- The text that is read at a path. -/
def Reader.text (files : Reader) (path : String) : Except ReadError String :=
  files path >>= decode

/-- A file that can be read has the text of its bytes. -/
lemma Reader.text_eq {files : Reader} {path : String} {bytes : ByteArray}
    (h : files path = .ok bytes) : files.text path = decode bytes := by
  rw [text, h]
  rfl

/-- A file that cannot be read has no text, for the same reason. -/
lemma Reader.text_eq_error {files : Reader} {path : String} {error : ReadError}
    (h : files path = .error error) : files.text path = .error error := by
  rw [text, h]
  rfl

/-- The files of a tree are read so. -/
example (t : Tree) : t.readText = Reader.text t.readBytes := rfl

/-- Bytes are decoded to the text whose UTF-8 form they are, if there is one. -/
lemma decode_cases (bytes : ByteArray) :
    (∃ text : String, bytes = text.toUTF8 ∧ decode bytes = .ok text) ∨
      (∀ text : String, bytes ≠ text.toUTF8) ∧ decode bytes = .error .invalidUtf8 := by
  rw [decode]
  cases h : String.fromUTF8? bytes with
  | some text =>
    refine .inl ⟨text, ?_, rfl⟩
    rw [String.fromUTF8?] at h
    split at h
    · cases h
      rfl
    · cases h
  | none =>
    refine .inr ⟨?_, rfl⟩
    rintro text rfl
    rw [String.fromUTF8?, String.toUTF8_eq_toByteArray, dif_pos text.isValidUTF8] at h
    cases h

end Files

namespace Json

/-- With all options on, the texts of RFC 8259 match and all others are rejected. -/
lemma recognize_document (t : List Char) :
    (Rfc8259.IsText t ∧ ∃ consumed remainder,
      recognize .rfc8259 .document false (.whole 0 t) = .ok (.matched consumed remainder)) ∨
    ¬ Rfc8259.IsText t ∧ ∃ e,
      recognize .rfc8259 .document false (.whole 0 t) = .ok (.rejected e) := by
  have spells := Slice.spells_whole 0 t
  obtain ⟨v, ha, _⟩ := Start.document.exists_answers .rfc8259 t
  have outcome := recognize_eq ha spells
  generalize v.outcome (.whole 0 t) (.whole 0 t) = out at outcome
  obtain ⟨result, _⟩ := Start.result_of_recognize spells outcome
  rw [← isDocument_rfc8259]
  cases out with
  | matched consumed remainder =>
    obtain ⟨split, document, nothing⟩ := result.accepts
    rw [nothing, List.append_nil] at split
    exact .inl ⟨split ▸ document, consumed, remainder, outcome⟩
  | rejected e =>
    refine .inr ⟨fun document => ?_, e, outcome⟩
    rw [← List.append_nil t] at result
    exact result.not_accepts ⟨document, rfl⟩

end Json

namespace Command

open Files

variable {files : Reader} {path reason : String} {paths out err : List String}

/-- The file at the path can be read, and is the UTF-8 form of a JSON text. -/
def Accepts (files : Reader) (path : String) : Prop :=
  ∃ text : String, files path = .ok text.toUTF8 ∧ Json.Rfc8259.IsText text.toList

/-- The reason that is given for the file at the path: where and why the text is rejected, that the
bytes are no text, or why they cannot be read. -/
inductive Explains (files : Reader) (path : String) : String → Prop where
  | rejected {text : String} {e : Rejection} : files path = .ok text.toUTF8 →
    Json.recognize .rfc8259 .document false (.ofString 0 text) = .ok (.rejected e) →
    Explains files path e.describe
  | undecodable {bytes : ByteArray} : files path = .ok bytes →
    (∀ text : String, bytes ≠ text.toUTF8) →
    Explains files path ("'" ++ path ++ "' contains invalid UTF-8 data")
  | unreadable {error : ReadError} : files path = .error error →
    Explains files path (Failure.ofRead path error).message

/-- The lines for accepted paths and the lines for all others. -/
inductive Reports (files : Reader) : List String → List String → List String → Prop where
  | nil : Reports files [] [] []
  | accepted {path : String} {paths out err : List String} : Accepts files path →
    Reports files paths out err → Reports files (path :: paths) (("ok " ++ path) :: out) err
  | refused {path reason : String} {paths out err : List String} : ¬ Accepts files path →
    Explains files path reason → Reports files paths out err →
    Reports files (path :: paths) out ((path ++ ": " ++ reason) :: err)

/-- There is one line for each path. -/
lemma Reports.length_add (h : Reports files paths out err) :
    out.length + err.length = paths.length := by
  induction h with
  | nil => rfl
  | accepted _ _ ih =>
    rw [List.length_cons, List.length_cons, ← ih]
    omega
  | refused _ _ _ ih =>
    rw [List.length_cons, List.length_cons, ← ih]
    omega

/-- The second list is empty if and only if all paths are accepted. -/
lemma Reports.eq_nil_iff (h : Reports files paths out err) :
    err = [] ↔ ∀ path ∈ paths, Accepts files path := by
  induction h with
  | nil => simp
  | accepted accepts _ ih => rw [ih, List.forall_mem_cons, and_iff_right accepts]
  | refused refused _ _ _ => simp [refused]

/-- What becomes of one file, and the line for it. -/
lemma checkFile_cases (files : Reader) (path : String) :
    (Accepts files path ∧ checkFile files.text path = .ok .accepted) ∨
    ¬ Accepts files path ∧ ∃ verdict reason, checkFile files.text path = .ok verdict ∧
      verdict.isAccepted = false ∧ Explains files path reason ∧
      FileReport.render ⟨path, verdict⟩ = path ++ ": " ++ reason := by
  rw [checkFile]
  cases hb : files path with
  | error error =>
    rw [Reader.text_eq_error hb]
    refine .inr ⟨?_, _, _, rfl, rfl, .unreadable hb, rfl⟩
    rintro ⟨text, h, _⟩
    cases hb.symm.trans h
  | ok bytes =>
    rw [Reader.text_eq hb]
    rcases decode_cases bytes with ⟨text, rfl, hd⟩ | ⟨none, hd⟩
    · rw [hd]
      have whole : Slice.ofString 0 text = .whole 0 text.toList := rfl
      rcases Json.recognize_document text.toList with ⟨isText, c, r, hr⟩ | ⟨notText, e, hr⟩
      · refine .inl ⟨⟨text, hb, isText⟩, ?_⟩
        simp only [whole, hr]
      -- UTF-8 has one text for these bytes, so no other text could be accepted.
      · refine .inr ⟨?_, .rejected e, e.describe, ?_, rfl, .rejected hb hr, rfl⟩
        · rintro ⟨text', h, isText⟩
          rw [hb, Except.ok.injEq, String.toUTF8_eq_toByteArray, String.toUTF8_eq_toByteArray,
            String.toByteArray_inj] at h
          exact notText (h ▸ isText)
        · simp only [whole, hr]
    · rw [hd]
      refine .inr ⟨?_, _, _, rfl, rfl, .undecodable hb none, rfl⟩
      rintro ⟨text, h, _⟩
      exact none text (Except.ok.inj (hb.symm.trans h))

/-- The reports on some paths, dealt out to two streams. -/
lemma checkFiles_reports (files : Reader) (paths : List String) :
    ∃ reports, checkFiles files.text paths = .ok reports ∧
      Reports files paths
        ((reports.filter (·.verdict.isAccepted)).map FileReport.render)
        ((reports.filter (!·.verdict.isAccepted)).map FileReport.render) := by
  induction paths with
  | nil => exact ⟨[], rfl, .nil⟩
  | cons path paths ih =>
    obtain ⟨reports, hr, dealt⟩ := ih
    rcases checkFile_cases files path with ⟨accepts, hv⟩ | ⟨refused, v, reason, hv, not, ex, line⟩
    · refine ⟨⟨path, .accepted⟩ :: reports, ?_, ?_⟩
      · rw [checkFiles] at hr ⊢
        rw [List.mapM_cons, hv, hr]
        rfl
      · exact .accepted accepts dealt
    · refine ⟨⟨path, v⟩ :: reports, ?_, ?_⟩
      · rw [checkFiles] at hr ⊢
        rw [List.mapM_cons, hv, hr]
        rfl
      · rw [List.filter_cons_of_neg (by simp [not]), List.filter_cons_of_pos (by simp [not]),
          List.map_cons, line]
        exact .refused refused ex dealt

/-- A check of at least one path writes one line for each path, in their order: for the accepted
ones on one stream, for the others with a reason on the other. Each line is followed by a line feed,
and nothing else is written. It exits with 0 if all are accepted, and with 1 otherwise. -/
theorem runCommandLine_check (files : Reader) (path : String) (paths : List String) :
    ∃ out err code, Reports files (path :: paths) out err ∧
      runCommandLine files.text ("check" :: path :: paths) =
        ⟨String.join (out.map (· ++ "\n")), String.join (err.map (· ++ "\n")), code⟩ ∧
      out.length + err.length = (path :: paths).length ∧
      (code = 0 ↔ ∀ p ∈ path :: paths, Accepts files p) ∧
      (code = 1 ↔ ¬ ∀ p ∈ path :: paths, Accepts files p) := by
  obtain ⟨reports, hr, dealt⟩ := checkFiles_reports files (path :: paths)
  have all : reports.all (·.verdict.isAccepted) = true ↔
      ∀ p ∈ path :: paths, Accepts files p := by
    rw [← dealt.eq_nil_iff]
    simp
  refine ⟨_, _, (showReports reports).code, dealt, ?_, dealt.length_add, ?_⟩
  · rw [runCommandLine, if_pos rfl, runCheck, if_neg (List.cons_ne_nil path paths), hr]
    rfl
  · rw [← all, showReports]
    cases reports.all (·.verdict.isAccepted) <;> simp

end Command

end Recognizer
