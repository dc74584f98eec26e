import Reindent.Proofs.Blank
import Reindent.Proofs.Forest
import Reindent.Proofs.Pattern.Preferred

/-! The lexemes that markup finds in the lines of a tree. -/
namespace Reindent
open Bytes Pattern

namespace Markup

def inName (b : UInt8) : Bool := isWord b || (ascii ".:-").contains b

theorem inName_of_alphanumeric {b : UInt8} (h : isLetter b = true ∨ isDigit b = true) :
    inName b = true := by
  rcases h with hl | hd
  · simp [inName, isWord, hl]
  · simp [inName, isWord, hd]

/-- Markup and template syntax start with an angle bracket or a brace. -/
theorem mayStart_rules {b : UInt8} (hangle : b ≠ 60) (hbrace : b ≠ 123) :
    ∀ r ∈ rules, r.2.mayStart b = false := by
  intro r hr
  simp only [rules, Rules.template, tags, List.mem_append, List.mem_cons, List.not_mem_nil,
    or_false] at hr
  rcases hr with (rfl | rfl | rfl | rfl) | rfl | rfl | rfl | rfl | rfl
  all_goals
    simp [literal, ascii, word, byte, mayStart, nullable, HAppend.hAppend, Append.append, hangle,
      hbrace]

theorem search_margin {margin : Bytes} (h : ∀ b ∈ margin, isGap b = true) (text : Bytes) :
    search rules none (margin ++ text) = (search rules none text).map (·.shift margin) := by
  have hskip : ∀ b ∈ margin, ∀ r ∈ rules, r.2.mayStart b = false := by
    intro b hb
    have hg := h b hb
    apply mayStart_rules
    · rintro rfl
      exact absurd hg (by decide)
    · rintro rfl
      exact absurd hg (by decide)
  have hword : (margin.getLast?.or none).any isWord = (none : Option UInt8).any isWord := by
    rw [Option.or_none, Option.any_none, Option.any_eq_false]
    intro b hb
    have hg := h b (List.mem_of_getLast? hb)
    simp only [isGap, Bool.or_eq_true, beq_iff_eq] at hg
    rcases hg with rfl | rfl
    · decide
    · decide
  rw [search_skip hskip, search_before_congr hword]

theorem search_text (line : TextLine) {margin : Bytes} (h : ∀ b ∈ margin, isGap b = true) :
    search rules none (margin ++ line.bytes) = none := by
  have hnone : search rules none line.bytes = none := by
    apply search_eq_none_of_mayStart
    intro b hb
    apply mayStart_rules
    · rintro rfl
      exact line.plain.2.1 hb
    · rintro rfl
      exact line.plain.2.2 hb
  rw [search_margin h, hnone]
  rfl

private theorem template_fails {rest : Bytes} :
    ∀ r ∈ Rules.template, r.2.match? none (60 :: rest) = none := by
  intro r hr
  apply match?_eq_none_of_mayStart
  revert r
  decide

private theorem prefers_name {first : UInt8} {others taken rest : Bytes}
    (hletter : isLetter first = true)
    (hothers : ∀ b ∈ others, inName b = true) :
    Prefers none name ⟨taken, first :: (others ++ 62 :: rest)⟩
      ⟨others.reverse ++ first :: taken, 62 :: rest⟩ := by
  refine (prefers_one hletter).seq (prefers_run hothers ?_)
  intro b hb
  obtain rfl : 62 = b := by simpa using hb
  decide

theorem search_tagStart {first : UInt8} {others : Bytes} (hletter : isLetter first = true)
    (hothers : ∀ b ∈ others, inName b = true) (rest : Bytes) :
    search rules none (60 :: first :: (others ++ 62 :: rest)) =
      some ⟨[], .tagStart, 60 :: first :: others, 62 :: rest⟩ := by
  have hbang : first ≠ 33 := by
    rintro rfl
    exact absurd hletter (by decide)
  have hslash : first ≠ 47 := by
    rintro rfl
    exact absurd hletter (by decide)
  have hstart : Prefers none (.literal "<" ++ name) ⟨[], 60 :: first :: (others ++ 62 :: rest)⟩
      ⟨others.reverse ++ first :: [60], 62 :: rest⟩ :=
    (prefers_word [60]).seq (prefers_name hletter hothers)
  have hpick : pick? rules none (60 :: first :: (others ++ 62 :: rest)) =
      some (.tagStart, ⟨others.reverse ++ first :: [60], 62 :: rest⟩) := by
    refine pick?_of_match (Rules.template ++ tags.take 4) [] ?_
      (hstart.match? (by simp))
    intro r hr
    rw [List.mem_append] at hr
    rcases hr with hr | hr
    · exact template_fails r hr
    · simp only [tags, List.take_succ_cons, List.take_zero, List.mem_cons, List.not_mem_nil,
        or_false] at hr
      have hcomment : ¬ ascii "<!--" <+: 60 :: first :: (others ++ 62 :: rest) := by
        simp [ascii, Ne.symm hbang]
      have hend : ¬ ascii "</" <+: 60 :: first :: (others ++ 62 :: rest) := by
        simp [ascii, Ne.symm hslash]
      rcases hr with rfl | rfl | rfl | rfl
      · exact (((fails_word hcomment).seq.seq.seq).seq).match?
      · exact (fails_word hcomment).match?
      · exact (((fails_word hend).seq).seq.seq).match?
      · exact ((fails_word hend).seq).match?
  rw [search_cons_of_some hpick]
  simp

theorem search_endTag {first : UInt8} {others : Bytes} (hletter : isLetter first = true)
    (hothers : ∀ b ∈ others, inName b = true) :
    search rules none (60 :: 47 :: first :: (others ++ [62])) =
      some ⟨[], .endTag, 60 :: 47 :: first :: (others ++ [62]), []⟩ := by
  have hgap : Prefers none gap ⟨others.reverse ++ first :: [47, 60], [62]⟩
      ⟨others.reverse ++ first :: [47, 60], [62]⟩ := by
    apply prefers_run (w := []) (by simp)
    intro b hb
    obtain rfl : 62 = b := by simpa using hb
    rfl
  have hend : Prefers none (.literal "</" ++ name ++ .gap ++ .literal ">")
      ⟨[], 60 :: 47 :: first :: (others ++ [62])⟩ ⟨62 :: (others.reverse ++ first :: [47, 60]), []⟩ :=
    (((prefers_word [60, 47]).seq (prefers_name hletter hothers)).seq hgap).seq (prefers_word [62])
  have hpick : pick? rules none (60 :: 47 :: first :: (others ++ [62])) =
      some (.endTag, ⟨62 :: (others.reverse ++ first :: [47, 60]), []⟩) := by
    refine pick?_of_match (Rules.template ++ tags.take 2) (tags.drop 3) ?_
      (hend.match? (by simp))
    intro r hr
    rw [List.mem_append] at hr
    rcases hr with hr | hr
    · exact template_fails r hr
    · simp only [tags, List.take_succ_cons, List.take_zero, List.mem_cons, List.not_mem_nil,
        or_false] at hr
      have hcomment : ¬ ascii "<!--" <+: 60 :: 47 :: first :: (others ++ [62]) := by
        simp [ascii]
      rcases hr with rfl | rfl
      · exact (((fails_word hcomment).seq.seq.seq).seq).match?
      · exact (fails_word hcomment).match?
  rw [search_cons_of_some hpick]
  simp

/-- A template tag as a whole: a delimiter inside it would need a percent sign. -/
theorem search_tag {name : Bytes} (h : ∀ b ∈ name, isWord b = true) :
    search rules none (Item.tag name) = some ⟨[], .templateBlock, Item.tag name, []⟩ := by
  have hinner : ∀ b ∈ 32 :: (name ++ [32]), b ≠ 37 ∧ inLine b = true := by
    intro b hb
    have hb' : b = 32 ∨ b ∈ name := by
      simp only [List.mem_cons, List.mem_append, List.not_mem_nil, or_false] at hb
      tauto
    rcases hb' with rfl | hb
    · decide
    · have hw := h b hb
      constructor
      · rintro rfl
        exact absurd hw (by decide)
      · by_contra hn
        obtain rfl : b = newline := by simpa [inLine, except] using hn
        exact absurd hw (by decide)
  have hfail : ∀ x y, 32 :: (name ++ [32]) = x ++ y → y ≠ [] →
      Fails none (.literal "%\x7d") ⟨x.reverse ++ [37, 123], y ++ [37, 125]⟩ := by
    intro x y hxy hy
    obtain ⟨c, y', rfl⟩ := List.exists_cons_of_ne_nil hy
    have hc : c ≠ 37 := by
      apply (hinner c _).1
      rw [hxy]
      exact List.mem_append_right _ List.mem_cons_self
    apply fails_word
    simp [ascii, Ne.symm hc]
  have hmatch : Prefers none (.literal "\x7b%" ++ .upTo ++ .literal "%\x7d")
      ⟨[], Item.tag name⟩ ⟨[125, 37] ++ ((32 :: (name ++ [32])).reverse ++ [37, 123]), []⟩ := by
    have hsplit : Item.tag name = [123, 37] ++ (32 :: (name ++ [32]) ++ [37, 125]) := by
      simp [Item.tag, ascii]
    rw [hsplit]
    apply Prefers.assoc
    refine (prefers_word [123, 37]).seq (prefers_upTo ?_ hfail (prefers_word [37, 125]))
    exact fun b hb => (hinner b hb).2
  have hpick : pick? rules none (Item.tag name) =
      some (.templateBlock, ⟨[125, 37] ++ ((32 :: (name ++ [32])).reverse ++ [37, 123]), []⟩) :=
    pick?_of_match [] (Rules.template.tail ++ tags) (by simp) (hmatch.match? (by simp))
  have hcons : Item.tag name = 123 :: 37 :: 32 :: (name ++ [32, 37, 125]) := by
    simp [Item.tag, ascii]
  rw [hcons] at hpick ⊢
  rw [search_cons_of_some hpick]
  simp

end Markup
end Reindent
