import Reindent.Proofs.Layout.Lexemes
import Reindent.Proofs.Scan.Lossless
import Reindent.Proofs.Scope
import Reindent.Proofs.Template

/-! The tokens of the lines of a tree. -/
namespace Reindent
open Bytes Pattern

namespace Item

def lead (margin : Bytes) : List Token :=
  if margin.isEmpty then [] else [.plain margin .markup]

/-- What the line of an item reads as. The gap in front of a text belongs to the text. -/
def tokens (margin : Bytes) : Item → List Token
  | text line => [.plain (margin ++ line.bytes) .markup]
  | void name => lead margin ++ [.opening (60 :: name.bytes) .markup, .closing [62] .markup]
  | openElement name => lead margin ++ [.opening (60 :: name.bytes) .markup, .plain [62] .markup]
  | closeElement name => lead margin ++ [.closing (closeElement name).bytes .markup]
  | openBlock name => lead margin ++ [.opening (openBlock name).bytes .template]
  | branch => lead margin ++ [.reopening branch.bytes .template]
  | closeBlock name => lead margin ++ [.closing (closeBlock name).bytes .template]

end Item

def Line.ofTokens (number : Int64) (tokens : List Token) : Line :=
  { number, tokens := tokens.map (.numbered number) }

theorem Line.append_ofTokens (number : Int64) (tokens : List Token) (t : Token) :
    (Line.ofTokens number tokens).append t = .ofTokens number (tokens ++ [t]) := by
  simp [Line.append, Line.ofTokens, Token.numbered]

namespace Scan

def between (memory : Lookahead) : State := { modes := { active := .markup }, memory }

def inTag (tag : OpenTag) (memory : Lookahead) : State :=
  { modes := { active := .tag tag, returns := [.markup], start := 1 }, memory }

private theorem readGap_between (settings : Settings) (memory : Lookahead) (number : Int64)
    (margin rest : Bytes) :
    readGap settings (between memory) { number } margin rest =
      (.ofTokens number (Item.lead margin), between memory) := by
  unfold readGap Item.lead
  split_ifs
  · rfl
  · rfl

private theorem readLine_text (settings : Settings) (below : Bytes) (memory : Lookahead)
    (number : Int64) {margin : Bytes} (hm : ∀ b ∈ margin, isGap b = true) (line : TextLine) :
    readLine settings below (between memory) { number } (margin ++ line.bytes) =
      (between memory, .ok (.ofTokens number ((Item.text line).tokens margin))) := by
  have hs : search ((between memory).modes.active.rules (between memory).modes.embedded) none
      (margin ++ line.bytes) = none := Markup.search_text line hm
  apply readLine_of_finished
  unfold step
  rw [hs]
  dsimp only
  unfold readGap
  rw [if_neg (by simp [line.nonempty])]
  rfl

private theorem readLine_between_nil (settings : Settings) (below : Bytes) (memory : Lookahead)
    (line : Line) :
    readLine settings below (between memory) line [] = (between memory, .ok line) :=
  readLine_of_finished rfl

private theorem step_between (settings : Settings) (below : Bytes) (memory : Lookahead)
    (number : Int64) {margin text matched rest : Bytes} {lexeme : Lexeme}
    (hm : ∀ b ∈ margin, isGap b = true)
    (hs : search Markup.rules none text = some ⟨[], lexeme, matched, rest⟩) :
    step settings below (between memory) { number } (margin ++ text) =
      let line := Line.ofTokens number (Item.lead margin)
      let read := readLexeme settings below (between memory) ⟨settings.tabWidth, line, rest⟩ lexeme
        matched
      .next read.2 (line.append read.1) rest := by
  have hmargin : search ((between memory).modes.active.rules (between memory).modes.embedded) none
      (margin ++ text) = some ⟨margin ++ [], lexeme, matched, rest⟩ := by
    change search Markup.rules none _ = _
    rw [Markup.search_margin hm, hs]
    rfl
  have he : (between memory).modes.active.extent (between memory).modes.embedded lexeme matched =
      .ok matched.length := rfl
  unfold step
  rw [hmargin]
  dsimp only
  rw [List.append_nil, readGap_between, he]
  dsimp only
  rw [List.drop_length, List.take_length, List.nil_append]

private theorem step_tagStart (settings : Settings) (below : Bytes) (memory : Lookahead)
    (number : Int64) {margin : Bytes} (hm : ∀ b ∈ margin, isGap b = true) {first : UInt8}
    {others : Bytes} (hletter : isLetter first = true)
    (hothers : ∀ b ∈ others, Markup.inName b = true) :
    step settings below (between memory) { number }
        (margin ++ 60 :: first :: (others ++ [62])) =
      .next (inTag { name := Markup.elementName (first :: others), source := 60 :: first :: others }
          memory)
        (.ofTokens number (Item.lead margin ++ [.opening (60 :: first :: others) .markup]))
        [62] := by
  rw [step_between settings below memory number hm (Markup.search_tagStart hletter hothers []),
    ← Line.append_ofTokens]
  rfl

private theorem elementName_append {first : UInt8} {others : Bytes} (hletter : isLetter first = true)
    (hothers : ∀ b ∈ others, Markup.inName b = true) {rest : Bytes}
    (hrest : rest = [] ∨ ∃ more, rest = 62 :: more) :
    Markup.elementName (first :: (others ++ rest)) = (first :: others).map toLower := by
  have hname : ∀ b ∈ first :: others, (!(ascii " \t\r\n>/").contains b) = true := by
    intro b hb
    have hin : Markup.inName b = true := by
      rcases List.mem_cons.1 hb with rfl | hb
      · exact Markup.inName_of_alphanumeric (Or.inl hletter)
      · exact hothers b hb
    have hnone : (ascii " \t\r\n>/").any Markup.inName = false := by decide
    rw [Bool.not_eq_true', Bool.eq_false_iff]
    intro hc
    exact List.any_eq_false.1 hnone b (by simpa using hc) hin
  unfold Markup.elementName
  rw [← List.cons_append, List.takeWhile_append_of_pos hname]
  rcases hrest with rfl | ⟨more, rfl⟩
  · rw [List.takeWhile_nil, List.append_nil]
  · rw [List.takeWhile_cons_of_neg (by decide), List.append_nil]

private theorem elementName_of_name {first : UInt8} {others : Bytes}
    (hletter : isLetter first = true) (hothers : ∀ b ∈ others, Markup.inName b = true) :
    Markup.elementName (first :: others) = (first :: others).map toLower := by
  have h := elementName_append hletter hothers (Or.inl rfl)
  rw [List.append_nil] at h
  exact h

/-- The bracket of an element without content closes the tag. -/
private theorem step_voidEnd (settings : Settings) (below : Bytes) (memory : Lookahead)
    (tag : OpenTag) (line : Line) (h : tag.name ∈ Markup.voidElements) :
    step settings below (inTag tag memory) line [62] =
      .next (between memory) (line.append (.closing [62] .markup)) [] := by
  have hc : Markup.voidElements.contains tag.name = true := by simpa using h
  have hs : search ((inTag tag memory).modes.active.rules (inTag tag memory).modes.embedded) none
      [62] = some ⟨[], .tagEnd, [62], []⟩ := rfl
  unfold step
  rw [hs]
  simp only [readGap, List.isEmpty_nil, if_true, Mode.extent, inTag, List.length_singleton,
    List.drop_one, List.tail_cons, List.take_one, readLexeme, Lexeme.isTemplate, Mode.read,
    OpenTag.read, OpenTag.finish, hc]
  rfl

private theorem ordinary_name {name : Bytes} (h : name ∉ Markup.voidElements ++ foreignElements) :
    Markup.voidElements.contains name = false ∧ Preformatted.ofName? name = none ∧
      (name == ascii "style") = false ∧ (name == ascii "script") = false := by
  rw [List.mem_append, not_or] at h
  have hforeign : ∀ w ∈ foreignElements, (name == w) = false := by
    intro w hw
    rw [beq_eq_false_iff_ne]
    exact fun he => h.2 (he ▸ hw)
  refine ⟨by simpa using h.1, ?_, hforeign _ (by decide), hforeign _ (by decide)⟩
  unfold Preformatted.ofName?
  rw [List.find?_eq_none]
  intro element _ he
  rw [beq_iff_eq] at he
  refine h.2 (he ▸ ?_)
  cases element with
  | pre => decide
  | textarea => decide

private theorem step_tagEnd (settings : Settings) (below : Bytes) (memory : Lookahead)
    (tag : OpenTag) {line : Line} (hline : line.isBlank = false)
    (hvoid : Markup.voidElements.contains tag.name = false)
    (hpre : Preformatted.ofName? tag.name = none) :
    step settings below (inTag tag memory) line [62] =
      .next ⟨(inTag tag memory).modes.apply { tag with source := tag.source ++ [62] }.content,
          memory⟩
        (line.append (.plain [62] .markup)) [] := by
  have hs : search ((inTag tag memory).modes.active.rules (inTag tag memory).modes.embedded) none
      [62] = some ⟨[], .tagEnd, [62], []⟩ := rfl
  unfold step
  rw [hs]
  simp only [readGap, List.isEmpty_nil, if_true, Mode.extent, inTag, List.length_singleton,
    List.drop_one, List.tail_cons, List.take_one, readLexeme, Lexeme.isTemplate, Mode.read,
    OpenTag.read, OpenTag.finish, hvoid, hpre, Sight.atStart, hline]
  rfl

private theorem isBlank_opening (number : Int64) (tokens : List Token) (text : Bytes)
    (kind : Kind) :
    (Line.ofTokens number (tokens ++ [.opening (60 :: text) kind])).isBlank = false := by
  have hb : Text.allBlank (60 :: text) = false :=
    Text.allBlank_cons_of_visible text (by decide) (by decide)
  simp [Line.isBlank, Line.ofTokens, Token.isBlank, Token.numbered, Token.opening, hb]

/-- An opening tag as a whole. What comes behind it is read in the mode of its content. -/
theorem readLine_opening (settings : Settings) (below : Bytes) (memory : Lookahead)
    (number : Int64) {margin : Bytes} (hm : ∀ b ∈ margin, isGap b = true) {first : UInt8}
    {others : Bytes} (hletter : isLetter first = true)
    (hothers : ∀ b ∈ others, Markup.inName b = true) {tag : OpenTag}
    (htag : tag = { name := (first :: others).map toLower, source := 60 :: first :: others })
    (hvoid : Markup.voidElements.contains tag.name = false)
    (hpre : Preformatted.ofName? tag.name = none) :
    readLine settings below (between memory) { number }
        (margin ++ 60 :: first :: (others ++ [62])) =
      readLine settings below
        ⟨(inTag tag memory).modes.apply { tag with source := tag.source ++ [62] }.content, memory⟩
        (.ofTokens number
          (Item.lead margin ++ [.opening (60 :: first :: others) .markup, .plain [62] .markup]))
        [] := by
  have hstart := step_tagStart settings below memory number hm hletter hothers
  rw [elementName_of_name hletter hothers, ← htag] at hstart
  have hend := step_tagEnd settings below memory tag
    (isBlank_opening number (Item.lead margin) (first :: others) .markup) hvoid hpre
  rw [readLine_of_next hstart, readLine_of_next hend, Line.append_ofTokens, List.append_assoc]
  rfl

theorem readLine_ordinary (settings : Settings) (below : Bytes) (memory : Lookahead)
    (number : Int64) {margin : Bytes} (hm : ∀ b ∈ margin, isGap b = true) {first : UInt8}
    {others : Bytes} (hletter : isLetter first = true)
    (hothers : ∀ b ∈ others, Markup.inName b = true)
    (hordinary : (first :: others).map toLower ∉ Markup.voidElements ++ foreignElements) :
    readLine settings below (between memory) { number }
        (margin ++ 60 :: first :: (others ++ [62])) =
      (between memory, .ok (.ofTokens number (Item.lead margin ++
        [.opening (60 :: first :: others) .markup, .plain [62] .markup]))) := by
  obtain ⟨hvoid, hpre, hstyle, hscript⟩ := ordinary_name hordinary
  rw [readLine_opening settings below memory number hm hletter hothers rfl hvoid hpre]
  dsimp only [OpenTag.content]
  rw [hstyle, hscript]
  exact readLine_between_nil settings below memory _

private theorem readLine_openElement (settings : Settings) (below : Bytes) (memory : Lookahead)
    (number : Int64) {margin : Bytes} (hm : ∀ b ∈ margin, isGap b = true) (name : ElementName) :
    readLine settings below (between memory) { number } (margin ++ (Item.openElement name).bytes) =
      (between memory, .ok (.ofTokens number ((Item.openElement name).tokens margin))) := by
  have hbytes : (Item.openElement name).bytes = 60 :: name.first :: (name.others ++ [62]) := by
    simp [Item.bytes, ElementName.bytes, ascii]
  rw [hbytes]
  exact readLine_ordinary settings below memory number hm name.letter
    (fun b hb => Markup.inName_of_alphanumeric (name.alphanumeric b hb)) name.ordinary

private theorem letters_of_void (name : VoidName) :
    ∃ first others, name.bytes = first :: others ∧ isLetter first = true ∧
      ∀ b ∈ others, Markup.inName b = true := by
  have hlower : ∀ w ∈ Markup.voidElements, w ≠ [] ∧ w.all isLower = true := by decide
  obtain ⟨hne, hall⟩ := hlower _ name.void
  rw [List.all_eq_true] at hall
  have hletter : ∀ b ∈ name.bytes, isLetter b = true := by
    intro b hb
    have hl := hall _ (List.mem_map_of_mem hb)
    unfold toLower at hl
    split_ifs at hl with hu
    · simp [isLetter, hu]
    · simp [isLetter, hl]
  cases hb : name.bytes with
  | nil => exact absurd (by rw [hb]; rfl) hne
  | cons first others =>
    rw [hb] at hletter
    refine ⟨first, others, rfl, hletter first List.mem_cons_self, ?_⟩
    intro b hb
    exact Markup.inName_of_alphanumeric (Or.inl (hletter b (List.mem_cons_of_mem _ hb)))

private theorem readLine_void (settings : Settings) (below : Bytes) (memory : Lookahead)
    (number : Int64) {margin : Bytes} (hm : ∀ b ∈ margin, isGap b = true) (name : VoidName) :
    readLine settings below (between memory) { number } (margin ++ (Item.void name).bytes) =
      (between memory, .ok (.ofTokens number ((Item.void name).tokens margin))) := by
  obtain ⟨first, others, hcons, hletter, hothers⟩ := letters_of_void name
  have hname : Markup.elementName (first :: others) = name.bytes.map toLower := by
    rw [elementName_of_name hletter hothers, hcons]
  have hstart := step_tagStart settings below memory number hm hletter hothers
  have hend := step_voidEnd settings below memory
    { name := Markup.elementName (first :: others), source := 60 :: first :: others }
    (.ofTokens number (Item.lead margin ++ [.opening (60 :: first :: others) .markup]))
    (by rw [hname]; exact name.void)
  have hbytes : (Item.void name).bytes = 60 :: first :: (others ++ [62]) := by
    simp [Item.bytes, hcons, ascii]
  rw [hbytes, readLine_of_next hstart, readLine_of_next hend, readLine_between_nil,
    Line.append_ofTokens, List.append_assoc, Item.tokens, hcons]
  rfl

theorem readLine_closing (settings : Settings) (below : Bytes) (memory : Lookahead)
    (number : Int64) {margin : Bytes} (hm : ∀ b ∈ margin, isGap b = true) {first : UInt8}
    {others : Bytes} (hletter : isLetter first = true)
    (hothers : ∀ b ∈ others, Markup.inName b = true)
    (hordinary : (first :: others).map toLower ∉ Markup.voidElements ++ foreignElements) :
    readLine settings below (between memory) { number }
        (margin ++ 60 :: 47 :: first :: (others ++ [62])) =
      (between memory, .ok (.ofTokens number (Item.lead margin ++
        [.closing (60 :: 47 :: first :: (others ++ [62])) .markup]))) := by
  obtain ⟨hvoid, hpre, -, -⟩ := ordinary_name hordinary
  have htoken : Markup.endToken (60 :: 47 :: first :: (others ++ [62])) =
      .closing (60 :: 47 :: first :: (others ++ [62])) .markup := by
    unfold Markup.endToken
    change (if Markup.voidElements.contains (Markup.elementName (first :: (others ++ [62]))) ||
      (Preformatted.ofName? (Markup.elementName (first :: (others ++ [62])))).isSome then _ else _) = _
    rw [elementName_append hletter hothers (Or.inr ⟨[], rfl⟩), hvoid, hpre]
    rfl
  have hstep : step settings below (between memory) { number }
      (margin ++ 60 :: 47 :: first :: (others ++ [62])) =
        .next (between memory) (.ofTokens number (Item.lead margin ++
          [.closing (60 :: 47 :: first :: (others ++ [62])) .markup])) [] := by
    rw [step_between settings below memory number hm (Markup.search_endTag hletter hothers),
      ← htoken, ← Line.append_ofTokens]
    rfl
  rw [readLine_of_next hstep, readLine_between_nil]

private theorem readLine_closeElement (settings : Settings) (below : Bytes) (memory : Lookahead)
    (number : Int64) {margin : Bytes} (hm : ∀ b ∈ margin, isGap b = true) (name : ElementName) :
    readLine settings below (between memory) { number }
        (margin ++ (Item.closeElement name).bytes) =
      (between memory, .ok (.ofTokens number ((Item.closeElement name).tokens margin))) := by
  have hbytes : (Item.closeElement name).bytes = 60 :: 47 :: name.first :: (name.others ++ [62]) := by
    simp [Item.bytes, ElementName.bytes, ascii]
  rw [Item.tokens, hbytes]
  exact readLine_closing settings below memory number hm name.letter
    (fun b hb => Markup.inName_of_alphanumeric (name.alphanumeric b hb)) name.ordinary

private theorem readLine_tag {settings : Settings} (hblocks : settings.blocks = [])
    {below document word : Bytes} {memory : Lookahead} (number : Int64) {margin : Bytes}
    (hsound : Lookahead.Sound [] document memory) (hbelow : below <:+ document)
    (hm : ∀ b ∈ margin, isGap b = true) (hword : ∀ b ∈ word, isWord b = true) {t : Token}
    (ht : (Template.readBlock [] [] (Item.tag word) below).1 = t ∧
      (Template.readBlock [] [] (Item.tag word) below).2.1 = none) :
    ∃ memory', Lookahead.Sound [] document memory' ∧
      readLine settings below (between memory) { number } (margin ++ Item.tag word) =
        (between memory', .ok (.ofTokens number (Item.lead margin ++ [t]))) := by
  obtain ⟨htoken, hregion, hsound'⟩ := Template.readBlock_of_sound hsound hbelow (Item.tag word)
  rw [ht.1] at htoken
  rw [ht.2] at hregion
  refine ⟨_, hsound', ?_⟩
  have hstep : step settings below (between memory) { number } (margin ++ Item.tag word) =
      .next (between (Template.readBlock [] memory (Item.tag word) below).2.2)
        (.ofTokens number (Item.lead margin ++ [t])) [] := by
    rw [step_between settings below memory number hm (Markup.search_tag hword),
      ← Line.append_ofTokens]
    simp only [readLexeme, Lexeme.isTemplate, if_true, Template.read, hblocks, List.nil_append]
    simp only [between, htoken, hregion]
    rfl
  rw [readLine_of_next hstep, readLine_between_nil]

/-- The line of an item is read as its tokens. A block needs its end tag below. -/
theorem readLine_item {settings : Settings} (hblocks : settings.blocks = [])
    {below document : Bytes} {memory : Lookahead} (number : Int64) {margin : Bytes}
    (hsound : Lookahead.Sound [] document memory) (hbelow : below <:+ document)
    (hm : ∀ b ∈ margin, isGap b = true) (item : Item)
    (hend : ∀ name, item = .openBlock name → (findEndTag [] name.bytes below).isSome = true) :
    ∃ memory', Lookahead.Sound [] document memory' ∧
      readLine settings below (between memory) { number } (margin ++ item.bytes) =
        (between memory', .ok (.ofTokens number (item.tokens margin))) := by
  cases item with
  | text line => exact ⟨memory, hsound, readLine_text settings below memory number hm line⟩
  | void name => exact ⟨memory, hsound, readLine_void settings below memory number hm name⟩
  | openElement name =>
    exact ⟨memory, hsound, readLine_openElement settings below memory number hm name⟩
  | closeElement name =>
    exact ⟨memory, hsound, readLine_closeElement settings below memory number hm name⟩
  | openBlock name =>
    exact readLine_tag hblocks number hsound hbelow hm name.word
      (Template.readBlock_openBlock name (hend name rfl))
  | branch =>
    exact readLine_tag hblocks number hsound hbelow hm isWord_else
      (Template.readBlock_branch below)
  | closeBlock name =>
    exact readLine_tag hblocks number hsound hbelow hm name.word_end
      (Template.readBlock_closeBlock name below)

end Scan
end Reindent
