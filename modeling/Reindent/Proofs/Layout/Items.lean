import Reindent.Proofs.Blank
import Reindent.Proofs.Forest
import Reindent.Proofs.Lookahead
import Reindent.Proofs.Pattern.Preferred
import Reindent.Text.Bytes

/-! The items of a tree as lines of a document: each fills its line, and the end tag of a block is
found wherever the block is. -/
namespace Reindent
open Bytes Pattern

namespace Item

theorem newline_notMem_tag {word : Bytes} (h : ∀ b ∈ word, isWord b = true) :
    newline ∉ tag word := by
  intro hn
  have hmem : newline ∈ word := by
    simpa [tag, ascii, newline] using hn
  exact absurd (h newline hmem) (by decide)

theorem newline_notMem_bytes (item : Item) : newline ∉ item.bytes := by
  have hletter : ∀ b, isLetter b = true ∨ isDigit b = true → b ≠ newline := by
    rintro b h rfl
    exact absurd h (by decide)
  cases item with
  | text line => exact line.plain.1
  | void name =>
    have hlower : ∀ w ∈ Markup.voidElements, newline ∉ w := by decide
    intro hn
    have hmem : newline ∈ name.bytes := by
      simpa [bytes, ascii, newline] using hn
    exact hlower _ name.void (List.mem_map.2 ⟨newline, hmem, rfl⟩)
  | openElement name =>
    intro hn
    have hmem : newline ∈ name.bytes := by
      simpa [bytes, ascii, newline] using hn
    exact hletter _ (name.alphanumeric_bytes _ hmem) rfl
  | closeElement name =>
    intro hn
    have hmem : newline ∈ name.bytes := by
      simpa [bytes, ascii, newline] using hn
    exact hletter _ (name.alphanumeric_bytes _ hmem) rfl
  | openBlock name => exact newline_notMem_tag name.word
  | branch => exact newline_notMem_tag isWord_else
  | closeBlock name => exact newline_notMem_tag name.word_end

theorem bytes_ne_nil (item : Item) : item.bytes ≠ [] := by
  cases item with
  | text line => exact line.nonempty
  | _ => exact List.cons_ne_nil _ _

private theorem trim_tag (word : Bytes) : Text.trim (tag word) = tag word := by
  have hsplit : tag word = 123 :: (37 :: 32 :: (word ++ [32, 37]) ++ [125]) := by
    simp [tag, ascii]
  rw [hsplit]
  exact Text.trim_of_visible_ends (by decide) (by decide) (by decide) (by decide)

theorem trim_bytes (item : Item) : Text.trim item.bytes = item.bytes := by
  have hangle : ∀ inner : Bytes, Text.trim (60 :: (inner ++ [62])) = 60 :: (inner ++ [62]) :=
    fun _ => Text.trim_of_visible_ends (by decide) (by decide) (by decide) (by decide)
  cases item with
  | text line => exact line.trimmed
  | void name => exact hangle name.bytes
  | openElement name => exact hangle name.bytes
  | closeElement name => exact hangle (47 :: name.bytes)
  | openBlock name => exact trim_tag _
  | branch => exact trim_tag _
  | closeBlock name => exact trim_tag _

end Item

theorem endTagAt_closeBlock (name : BlockName) (rest : Bytes) :
    EndTagAt [] name.bytes ((Item.closeBlock name).bytes ++ rest) := by
  have hsplit : (Item.closeBlock name).bytes ++ rest =
      [123, 37] ++ ([32] ++ ([101, 110, 100] ++ (name.bytes ++ 32 :: 37 :: 125 :: rest))) := by
    simp [Item.bytes, Item.tag, ascii]
  obtain ⟨tail, htail⟩ : ∃ tail, tail = 32 :: 37 :: 125 :: rest := ⟨_, rfl⟩
  rw [← htail] at hsplit
  have hsign : ∀ s : Span, s ∈ (Pattern.optional (.oneOf "-+")).ends none s :=
    fun s => mem_ends_eitherRight prefers_empty.mem
  have hspace : (⟨[32, 37, 123], [101, 110, 100] ++ (name.bytes ++ tail)⟩ : Span) ∈
      space.ends none ⟨[37, 123], [32] ++ ([101, 110, 100] ++ (name.bytes ++ tail))⟩ :=
    mem_ends_run_iff.2 ⟨[32], List.all_eq_true.1 rfl, rfl, rfl⟩
  have hend : (⟨[100, 110, 101, 32, 37, 123], name.bytes ++ tail⟩ : Span) ∈
      (literal "end" ++ Pattern.optional (.literal "_")).ends none
        ⟨[32, 37, 123], [101, 110, 100] ++ (name.bytes ++ tail)⟩ :=
    mem_ends_seq (prefers_word [101, 110, 100]).mem (mem_ends_eitherRight prefers_empty.mem)
  have hname : (⟨name.bytes.reverse ++ [100, 110, 101, 32, 37, 123], tail⟩ : Span) ∈
      (word name.bytes).ends none ⟨[100, 110, 101, 32, 37, 123], name.bytes ++ tail⟩ :=
    (prefers_word name.bytes).mem
  have hedge : (⟨name.bytes.reverse ++ [100, 110, 101, 32, 37, 123], tail⟩ : Span) ∈
      wordEdge.ends none ⟨name.bytes.reverse ++ [100, 110, 101, 32, 37, 123], tail⟩ := by
    obtain ⟨front, last, hl⟩ := List.eq_nil_or_concat name.bytes |>.resolve_left name.nonempty
    have hw : isWord last = true := name.word last (by rw [hl]; simp)
    rw [ends, htail, hl]
    simp [atEdge, hw, show isWord 32 = false from rfl]
  unfold EndTagAt endTagPattern
  dsimp only
  rw [if_pos (show (Blocks.endOf [] name.bytes).isEmpty = true from rfl), hsplit]
  refine isSome_match?_of_mem (mem_ends_seq (mem_ends_seq (mem_ends_seq (mem_ends_seq
    (prefers_word [123, 37]).mem (hsign _)) hspace)
    (mem_ends_seq (mem_ends_eitherLeft hend) hname)) hedge) ?_
  simp

theorem exists_append_of_mem_joinLines {l : Bytes} {ls : List Bytes} (h : l ∈ ls) :
    ∃ front back, joinLines ls = front ++ (l ++ back) := by
  induction ls with
  | nil => exact absurd h (by simp)
  | cons m ms ih =>
    rcases List.mem_cons.1 h with rfl | h
    · cases ms with
      | nil => exact ⟨[], [], by simp [joinLines]⟩
      | cons n ns => exact ⟨[], newline :: joinLines (n :: ns), rfl⟩
    · obtain ⟨front, back, hj⟩ := ih h
      refine ⟨m ++ newline :: front, back, ?_⟩
      rw [joinLines_cons (List.ne_nil_of_mem h), hj]
      simp

/-- A block whose end tag stands on a line below is told from its name alone. -/
theorem isSome_findEndTag_of_mem {name : BlockName} {margin : Bytes} {ls : List Bytes}
    (h : margin ++ (Item.closeBlock name).bytes ∈ ls) :
    (findEndTag [] name.bytes (newline :: joinLines ls)).isSome = true := by
  obtain ⟨front, back, hj⟩ := exists_append_of_mem_joinLines h
  rw [isSome_findEndTag_iff]
  refine ⟨(Item.closeBlock name).bytes ++ back, ⟨newline :: (front ++ margin), ?_⟩,
    endTagAt_closeBlock name back⟩
  rw [hj]
  simp

end Reindent
