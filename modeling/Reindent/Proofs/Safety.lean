import Reindent.Formatter
import Reindent.Proofs.Blank
import Reindent.Proofs.Limits
import Reindent.Proofs.Scan.Lossless
import Reindent.Proofs.Scope

/-! Reindenting changes the white space around lines and nothing else. -/
namespace Reindent
open Bytes Text

namespace Line

@[simp] theorem trim_indent (width : Int64) (l : Line) : trim (l.indent width) = trim l.raw := by
  unfold indent
  split_ifs
  · rfl
  · exact trim_trim l.raw
  · have h := trim_append_append (m := l.text) (allBlank_replicate (l.margin width))
      (show allBlank [] = true from rfl)
    rw [List.append_nil] at h
    rw [h]
    exact trim_trim l.raw

theorem newline_notMem_indent (width : Int64) {l : Line} (h : newline ∉ l.raw) :
    newline ∉ l.indent width := by
  unfold indent
  split_ifs
  · exact h
  · exact fun hn => h (mem_of_mem_trim hn)
  · rw [List.mem_append, not_or]
    refine ⟨fun hn => ?_, fun hn => h (mem_of_mem_trim hn)⟩
    exact absurd (List.eq_of_mem_replicate hn) (by decide)

end Line

namespace Verify

/-- Lines that differ in white space only are compared without complaint. -/
theorem compareLines_of_trim (number : Nat) {as bs : List Bytes}
    (h : as.map trim = bs.map trim) : compareLines number as bs = .ok (bs != as) := by
  induction as generalizing bs number with
  | nil =>
    obtain rfl : bs = [] := by simpa using h.symm
    rfl
  | cons a as ih =>
    cases bs with
    | nil => exact absurd h (by simp)
    | cons b bs =>
      rw [List.map_cons, List.map_cons] at h
      obtain ⟨hab, hrest⟩ := List.cons.inj h
      rw [compareLines, ih _ hrest]
      by_cases he : a = b
      · subst he
        rw [if_pos rfl, bne, bne, List.cons_beq_cons, beq_self_eq_true, Bool.true_and]
      · rw [if_neg he, if_pos hab]
        have hne : b ≠ a := Ne.symm he
        simp [bind, Except.bind, hne]

end Verify

theorem verify_of_trim {source result : Bytes}
    (h : (lines result).map trim = (lines source).map trim) :
    verify source result = .ok (result != source) := by
  have hlength : (lines source).length = (lines result).length := by
    rw [← List.length_map trim, ← h, List.length_map]
  have hne : (lines result != lines source) = (result != source) := by
    have hiff : lines result = lines source ↔ result = source := by
      constructor
      · intro heq
        rw [← joinLines_lines result, heq, joinLines_lines]
      · exact congrArg lines
    rw [Bool.eq_iff_iff, bne_iff_ne, bne_iff_ne, ne_eq, ne_eq, hiff]
  unfold verify
  dsimp only
  rw [if_neg (not_not.2 hlength), Verify.compareLines_of_trim 1 h.symm, hne]
  rfl

section Parsing
variable {settings : Scan.Settings} {modes : ModeStack} {source : Bytes} {ls : List Line}

theorem parse_eq_ok_iff : parse settings modes source = .ok ls ↔
    ∃ read, tokenize settings modes source = .ok read ∧ Scope.assign read = .ok ls := by
  rw [parse_eq]
  cases tokenize settings modes source with
  | error overrun => simp
  | ok read =>
    dsimp only
    cases ha : Scope.assign read with
    | error e => simp [Except.mapError, ha]
    | ok assigned => simp [Except.mapError, ha]

/-- Whatever lines are read, their texts are those of the document. -/
theorem raws_of_parse (h : parse settings modes source = .ok ls) :
    ls.map Line.raw = lines source := by
  obtain ⟨read, hread, hassign⟩ := parse_eq_ok_iff.1 h
  rw [Scope.raws_of_assign hassign, (Scan.tokenize_covers hread).raw]

end Parsing

namespace Formatter

theorem raws_of_lines {f : Formatter} {source : Bytes} {ls : List Line}
    (h : f.lines source = .ok ls) : ls.map Line.raw = Bytes.lines source := by
  unfold lines at h
  split_ifs at h
  · exact raws_of_parse h

theorem lines_of_indent {f : Formatter} {source out : Bytes} (h : f.indent source = .ok out) :
    ∃ ls : List Line, ls.map Line.raw = Bytes.lines source ∧
      f.lines source = .ok ls ∧ out = joinLines (ls.map (·.indent f.tabWidth)) := by
  unfold indent at h
  cases hl : f.lines source with
  | error e =>
    rw [hl] at h
    exact absurd h (by simp [bind, Except.bind])
  | ok ls =>
    rw [hl] at h
    exact ⟨ls, raws_of_lines hl, rfl, (Except.ok.inj h).symm⟩

theorem lines_made {source : Bytes} {ls : List Line} {make : Line → Bytes}
    (hraw : ls.map Line.raw = Bytes.lines source)
    (hmake : ∀ l : Line, newline ∉ l.raw → newline ∉ make l) :
    Bytes.lines (joinLines (ls.map make)) = ls.map make := by
  apply lines_joinLines
  · intro hnil
    rw [List.map_eq_nil_iff] at hnil
    rw [hnil] at hraw
    exact lines_ne_nil source hraw.symm
  · intro x hx
    obtain ⟨l, hl, rfl⟩ := List.mem_map.1 hx
    apply hmake
    apply newline_notMem_of_mem_lines (s := source)
    rw [← hraw]
    exact List.mem_map_of_mem hl

/-- The lines of a result are the lines of its source, each with other white space around it. -/
theorem lines_indent {f : Formatter} {source out : Bytes} {ls : List Line}
    (hraw : ls.map Line.raw = Bytes.lines source)
    (hout : out = joinLines (ls.map (·.indent f.tabWidth))) :
    Bytes.lines out = ls.map (·.indent f.tabWidth) := by
  rw [hout]
  exact lines_made hraw fun l => Line.newline_notMem_indent f.tabWidth

theorem trims_of_indent {f : Formatter} {source out : Bytes} (h : f.indent source = .ok out) :
    (Bytes.lines out).map trim = (Bytes.lines source).map trim := by
  obtain ⟨ls, hraw, -, hout⟩ := lines_of_indent h
  rw [lines_indent hraw hout, ← hraw, List.map_map, List.map_map]
  exact List.map_congr_left fun l _ => l.trim_indent f.tabWidth

theorem format_of_indent {f : Formatter} {source out : Bytes} {limits? : Option Limits}
    (h : f.indent source limits? = .ok out) :
    f.format source limits? = .ok { content := out, changed := out != source } := by
  have htrim := trims_of_indent ((f.indent_within source limits?).of_ok h)
  unfold format
  rw [h]
  simp only [bind, Except.bind, verify_of_trim htrim, Except.mapError]

/-- Without a result there is nothing to verify. -/
theorem format_of_error {f : Formatter} {source : Bytes} {limits? : Option Limits} {e : Failure}
    (h : f.indent source limits? = .error e) : f.format source limits? = .error e := by
  unfold format
  rw [h]
  rfl

theorem indent_ne_corrupted (f : Formatter) (source : Bytes) (how : Corruption) :
    f.indent source ≠ .error (.error (.corrupted how)) := by
  intro h
  unfold indent lines at h
  split_ifs at h
  · exact absurd h (by simp [bind, Except.bind])
  · rw [parse_eq] at h
    split at h
    · exact absurd h (by simp [bind, Except.bind])
    · next read hread =>
      cases ha : Scope.assign read with
      | error e =>
        rw [ha] at h
        exact absurd h (by simp [bind, Except.bind, Except.mapError])
      | ok assigned =>
        rw [ha] at h
        exact absurd h (by simp [bind, Except.bind, Except.mapError])

/-- A result has the lines of its source up to the white space around them. It passes its
verification, which never ends in a corruption. -/
theorem indent_keeps_text (f : Formatter) (source : Bytes) :
    (∀ out, f.indent source = .ok out →
      (Bytes.lines out).length = (Bytes.lines source).length ∧
      (Bytes.lines out).map trim = (Bytes.lines source).map trim ∧
      verify source out = .ok (out != source) ∧
      f.format source = .ok { content := out, changed := out != source }) ∧
    ∀ how, f.format source ≠ .error (.error (.corrupted how)) := by
  constructor
  · intro out h
    have htrim := trims_of_indent h
    refine ⟨?_, htrim, verify_of_trim htrim, format_of_indent h⟩
    rw [← List.length_map trim, htrim, List.length_map]
  · intro how
    cases h : f.indent source with
    | ok out =>
      rw [format_of_indent h]
      simp
    | error e =>
      rw [format_of_error h]
      intro he
      rw [Except.error.inj he] at h
      exact f.indent_ne_corrupted source how h

/-- Blanks of several kinds around lines, one of which ends with a stray byte. -/
def raggedSource : Bytes := ascii "\ta\x0b\n <p>" ++ [0xFF, 10] ++ ascii "</p>" ++ [0xC2, 0xA0]

theorem indent_keeps_text_raggedSource :
    ∃ out, ({ tabWidth := 2 } : Formatter).indent raggedSource = .ok out ∧
      (Bytes.lines out).length = 3 ∧
      (Bytes.lines out).map trim = (Bytes.lines raggedSource).map trim ∧
      verify raggedSource out = .ok true := by
  have hok : (({ tabWidth := 2 } : Formatter).indent raggedSource).toOption.any
      (· != raggedSource) = true := by
    decide +kernel
  cases h : ({ tabWidth := 2 } : Formatter).indent raggedSource with
  | error e =>
    rw [h] at hok
    exact absurd hok (by simp [Except.toOption])
  | ok out =>
    rw [h] at hok
    obtain ⟨hlength, htrim, hverify, -⟩ := (indent_keeps_text _ _).1 out h
    have hne : (out != raggedSource) = true := hok
    rw [hne] at hverify
    exact ⟨out, rfl, hlength.trans (by decide +kernel), htrim, hverify⟩

end Formatter
end Reindent
