import Reindent.Proofs.Forest
import Reindent.Proofs.Lookahead

/-! Reading template tags: the memory of end tags has no influence, and tags of one word. -/
namespace Reindent.Template
open Bytes Lookahead

/-- With a memory that is right, a tag is read as with an empty one. -/
theorem readBlock_of_sound {blocks : Blocks} {document ahead : Bytes} {memory : Lookahead}
    (h : Sound blocks document memory) (hr : ahead <:+ document) (tag : Bytes) :
    (readBlock blocks memory tag ahead).1 = (readBlock blocks [] tag ahead).1 ∧
      (readBlock blocks memory tag ahead).2.1 = (readBlock blocks [] tag ahead).2.1 ∧
      Sound blocks document (readBlock blocks memory tag ahead).2.2 := by
  unfold readBlock
  split
  · exact ⟨rfl, rfl, h⟩
  · next name hname =>
    split
    · exact ⟨rfl, rfl, h⟩
    · split_ifs
      · exact ⟨rfl, rfl, h⟩
      · exact ⟨rfl, rfl, h⟩
      · obtain ⟨hanswer, hsound⟩ := hasEnd_of_sound h hr name
        obtain ⟨hsearch, -⟩ := hasEnd_of_sound (sound_nil blocks document) hr name
        dsimp only
        rw [hanswer, hsearch]
        exact ⟨rfl, rfl, hsound⟩
      · exact ⟨rfl, rfl, h⟩

/-- The text of a tag only decides about tags that are tested. -/
theorem mayOpen_of_untested {blocks : Blocks} {name tag : Bytes} (hname : tagName? tag = some name)
    (hraw : RawBlock.ofName? name = none) (hbranch : branches.contains name = false)
    (hend : isEndTag blocks name = false) (h : isTested blocks tag = false) :
    mayOpen name tag = true := by
  have hother : name ∉ ambiguous := by
    have hbranch' : name ∉ branches := by simpa using hbranch
    simpa [isTested, hname, hraw, hbranch', hend] using h
  simp only [ambiguous, List.map_cons, List.map_nil, List.mem_cons, List.not_mem_nil, or_false,
    not_or] at hother
  simp [mayOpen, hother]

theorem read_of_sound {blocks : Blocks} {document ahead : Bytes} {memory : Lookahead}
    (h : Sound blocks document memory) (hr : ahead <:+ document) (lexeme : Lexeme) (text : Bytes) :
    (read blocks memory lexeme text ahead).1 = (read blocks [] lexeme text ahead).1 ∧
      (read blocks memory lexeme text ahead).2.1 = (read blocks [] lexeme text ahead).2.1 ∧
      Sound blocks document (read blocks memory lexeme text ahead).2.2 := by
  unfold read
  split
  · exact readBlock_of_sound h hr text
  · exact ⟨rfl, rfl, h⟩
  · exact ⟨rfl, rfl, h⟩
  · exact ⟨rfl, rfl, h⟩

theorem tagName?_tag {name : Bytes} (hne : name ≠ []) (h : ∀ b ∈ name, isWord b = true) :
    tagName? (Item.tag name) = some name := by
  have hcons : Item.tag name = 123 :: 37 :: 32 :: (name ++ [32, 37, 125]) := by
    simp [Item.tag, ascii]
  have hafter : after? (ascii "\x7b%") (Item.tag name) = some (32 :: (name ++ [32, 37, 125])) := by
    rw [hcons]
    rfl
  have hspace : (32 :: (name ++ [32, 37, 125])).dropWhile isSpace = name ++ [32, 37, 125] := by
    obtain ⟨b, others, rfl⟩ := List.exists_cons_of_ne_nil hne
    have hb : isSpace b = false := by
      have hw := h b List.mem_cons_self
      by_contra hs
      simp only [isSpace, Bool.not_eq_false, Bool.or_eq_true, beq_iff_eq] at hs
      rcases hs with (((rfl | rfl) | rfl) | rfl) | rfl
      all_goals exact absurd hw (by decide)
    rw [List.dropWhile_cons_of_pos (by rfl), List.cons_append, List.dropWhile_cons_of_neg]
    rw [hb]
    exact Bool.false_ne_true
  have hword : (name ++ [32, 37, 125]).takeWhile isWord = name := by
    rw [List.takeWhile_append_of_pos h]
    simp [show isWord 32 = false from rfl]
  unfold tagName?
  rw [hafter]
  simp only [bind, Option.bind]
  rw [show dropSign (32 :: (name ++ [32, 37, 125])) = 32 :: (name ++ [32, 37, 125]) from rfl,
    hspace, hword, if_neg]
  simpa using hne

private theorem ofName?_eq_none {name : Bytes} (h : name ∉ rawTags) :
    RawBlock.ofName? name = none := by
  unfold RawBlock.ofName?
  rw [List.find?_eq_none]
  intro block hb he
  rw [beq_iff_eq] at he
  exact h (he ▸ List.mem_map_of_mem hb)

theorem readBlock_openBlock (name : BlockName) {ahead : Bytes}
    (h : (findEndTag [] name.bytes ahead).isSome = true) :
    (readBlock [] [] (Item.tag name.bytes) ahead).1 = .opening (Item.tag name.bytes) .template ∧
      (readBlock [] [] (Item.tag name.bytes) ahead).2.1 = none := by
  have hordinary := name.ordinary
  simp only [List.mem_append, not_or] at hordinary
  obtain ⟨⟨hbranch, hraw⟩, hambiguous⟩ := hordinary
  have hend : isEndTag [] name.bytes = false := by
    have hprefix : (ascii "end").isPrefixOf name.bytes = false := by
      rw [Bool.eq_false_iff, ne_eq, List.isPrefixOf_iff_prefix]
      exact name.opening
    simp [isEndTag, Blocks.isEnd, hprefix]
  have hopen : mayOpen name.bytes (Item.tag name.bytes) = true := by
    have hne : ∀ w ∈ ambiguousTags, (name.bytes == w) = false := by
      intro w hw
      rw [beq_eq_false_iff_ne]
      rintro rfl
      exact hambiguous hw
    unfold mayOpen
    rw [hne (ascii "set") (by decide), hne (ascii "placeholder") (by decide),
      hne (ascii "video") (by decide)]
    rfl
  have hfound : (hasEnd [] [] name.bytes ahead).1 = true := by
    rw [(hasEnd_of_sound (sound_nil [] ahead) (List.suffix_refl ahead) name.bytes).1, h]
  unfold readBlock
  rw [tagName?_tag name.nonempty name.word]
  dsimp only
  rw [ofName?_eq_none hraw]
  dsimp only
  rw [if_neg (by simpa using hbranch), hend, if_neg Bool.false_ne_true, hopen, if_pos rfl, hfound]
  exact ⟨rfl, rfl⟩

theorem readBlock_branch (ahead : Bytes) :
    (readBlock [] [] (Item.tag (ascii "else")) ahead).1 =
        .reopening (Item.tag (ascii "else")) .template ∧
      (readBlock [] [] (Item.tag (ascii "else")) ahead).2.1 = none := by
  unfold readBlock
  rw [tagName?_tag (by decide) isWord_else]
  exact ⟨rfl, rfl⟩

theorem readBlock_closeBlock (name : BlockName) (ahead : Bytes) :
    (readBlock [] [] (Item.tag (ascii "end" ++ name.bytes)) ahead).1 =
        .closing (Item.tag (ascii "end" ++ name.bytes)) .template ∧
      (readBlock [] [] (Item.tag (ascii "end" ++ name.bytes)) ahead).2.1 = none := by
  have hraw : ascii "end" ++ name.bytes ∉ rawTags := by
    simp [rawTags, RawBlock.name, ascii]
  have hbranch : ascii "end" ++ name.bytes ∉ branches := by
    simp [branches, ascii]
  have hend : isEndTag [] (ascii "end" ++ name.bytes) = true := by
    simp [isEndTag]
  unfold readBlock
  rw [tagName?_tag (by simp [ascii]) name.word_end]
  dsimp only
  rw [ofName?_eq_none hraw]
  dsimp only
  rw [if_neg (by simpa using hbranch), hend, if_pos rfl]
  exact ⟨rfl, rfl⟩

end Reindent.Template
