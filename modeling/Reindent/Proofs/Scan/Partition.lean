import Reindent.Proofs.Scan.Whole

/-! Reading is lossless: the tokens of a document are a partition of its text. -/
namespace Reindent.Scan
open Bytes

/-- A document cut into lines and tokens. The lines are numbered from one. -/
structure Partition (source : Bytes) (lines : List Line) : Prop where
  joined : joinLines (lines.map Line.raw) = source
  length : lines.length = source.count newline + 1
  number : lines.map Line.number = (List.range lines.length).map fun i => Int64.ofNat (i + 1)
  token : ∀ l ∈ lines, ∀ t ∈ l.tokens, t.text ≠ [] ∧ newline ∉ t.text ∧ t.line = l.number

theorem Covers.partition {source : Bytes} {lines : List Line}
    (h : Covers 1 (Bytes.lines source) lines) : Partition source lines := by
  have hlength : lines.length = (Bytes.lines source).length := by
    rw [← h.raw, List.length_map]
  refine ⟨?_, ?_, ?_, ?_⟩
  · rw [h.raw, joinLines_lines]
  · rw [hlength, length_lines]
  · rw [h.number, hlength]
    apply List.map_congr_left
    intro i _
    rw [Int64.ofNat_add, Int64.add_comm]
    rfl
  · intro l hl t ht
    obtain ⟨hne, hline⟩ := h.labelled l hl t ht
    refine ⟨hne, ?_, hline⟩
    intro hn
    have hraw : l.raw ∈ Bytes.lines source := by
      rw [← h.raw]
      exact List.mem_map_of_mem hl
    exact newline_notMem_of_mem_lines hraw (List.mem_flatMap.2 ⟨t, ht, hn⟩)

/-- A run over the whole text takes at least one byte with every step, and its lines are a partition
of the text. -/
theorem run_partitions (settings : Settings) (modes : ModeStack) (source : Bytes)
    {lines : List Line} (h : tokenize settings modes source = .ok lines) :
    (Whole.run settings { modes } { number := 1 } source).2 = .ok lines ∧
    (∀ state line rest after, (Whole.step settings state line rest).Leaves after →
      ∃ taken, taken ≠ [] ∧ rest = taken ++ after) ∧
    Partition source lines := by
  refine ⟨?_, ?_, ?_⟩
  · rw [← Whole.tokenize_eq_run, h]
  · exact fun _ _ _ _ => Whole.exists_taken_of_step
  · exact (tokenize_covers h).partition

/-- A script inside markup whose comment is cut short and read again, and a comment over a line
end. -/
def scriptSource : Bytes := ascii "// a </script>\n\x7b# b\nc #\x7d"

theorem run_partitions_scriptSource :
    ∃ lines, tokenize {} { active := .script {}, returns := [.markup] } scriptSource = .ok lines ∧
      lines.map (·.tokens.map Token.text) =
        [[ascii "// a ", ascii "</script>"], [ascii "\x7b#", ascii " b"],
         [ascii "c ", ascii "#\x7d"]] ∧
      (Whole.run {} { modes := { active := .script {}, returns := [.markup] } } { number := 1 }
        scriptSource).2 = .ok lines ∧
      Partition scriptSource lines := by
  have htexts : (tokenize {} { active := .script {}, returns := [.markup] } scriptSource).toOption.map
      (·.map (·.tokens.map Token.text)) =
        some [[ascii "// a ", ascii "</script>"], [ascii "\x7b#", ascii " b"],
          [ascii "c ", ascii "#\x7d"]] := by
    decide +kernel
  cases h : tokenize {} { active := .script {}, returns := [.markup] } scriptSource with
  | error overrun =>
    rw [h] at htexts
    exact absurd htexts (by simp [Except.toOption])
  | ok lines =>
    rw [h] at htexts
    obtain ⟨hrun, -, hpart⟩ := run_partitions {} _ _ h
    exact ⟨lines, rfl, Option.some.inj htexts, hrun, hpart⟩

end Reindent.Scan
