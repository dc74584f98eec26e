import Reindent.Formatter
import Reindent.Proofs.Embedding.EndTags
import Reindent.Proofs.Embedding.Nesting
import Reindent.Proofs.Safety

/-! Documents inside an element of a page. They come out as they do alone, one level deeper. -/
namespace Reindent
open Bytes Pattern Scan Scope Lookahead

namespace Markup

def IsName (element : Bytes) : Prop := ⟨element.reverse, []⟩ ∈ name.ends none ⟨[], element⟩

theorem IsName.exists_first {element : Bytes} (h : IsName element) :
    ∃ first others, element = first :: others ∧ isLetter first = true ∧
      ∀ b ∈ others, inName b = true := by
  obtain ⟨m, hm, htail⟩ := List.mem_flatMap.1 h
  cases element with
  | nil => exact absurd hm (by simp [ends])
  | cons first others =>
    simp only [ends] at hm
    split_ifs at hm with hletter
    · obtain rfl := List.mem_singleton.1 hm
      obtain ⟨w, hw, -, hrest⟩ := mem_ends_run_iff.1 htail
      obtain rfl : others = w := by simpa using hrest
      exact ⟨first, others, rfl, hletter, hw⟩
    · exact absurd hm (by simp)

end Markup

namespace Language

/-- An element that may stand around a source. Style sheets and scripts have elements of their own,
which end where a closing tag starts. -/
def Hosts (source element : Bytes) : Language → Prop
  | .html => Markup.IsName element ∧ element.map toLower ∉ Markup.voidElements ++ foreignElements
  | .css => element = ascii "style" ∧ ¬ ascii "</" <:+: source
  | .javaScript => element = ascii "script" ∧ ¬ ascii "</" <:+: source
  | .text => False

def base : Language → List Mode
  | .css | .javaScript => [.markup]
  | _ => []

variable {source element : Bytes} {language : Language}

theorem Hosts.exists_first (h : language.Hosts source element) :
    ∃ first others, element = first :: others ∧ isLetter first = true ∧
      ∀ b ∈ others, Markup.inName b = true := by
  cases language with
  | html => exact h.1.exists_first
  | css => exact ⟨_, _, h.1, by decide, List.all_eq_true.1 (by decide)⟩
  | javaScript => exact ⟨_, _, h.1, by decide, List.all_eq_true.1 (by decide)⟩
  | text => exact h.elim

theorem Hosts.clear (h : language.Hosts source element) : Clear language.base source := by
  cases language with
  | html => exact Or.inl rfl
  | css => exact Or.inr h.2
  | javaScript => exact Or.inr h.2
  | text => exact h.elim

theorem Hosts.readLine_first (h : language.Hosts source element) (settings : Settings)
    (below : Bytes) :
    readLine settings below (between []) { number := 1 } (60 :: (element ++ [62])) =
      (State.above language.base [] { modes := language.start },
        .ok (.ofTokens 1 [.opening (60 :: element) .markup, .plain [62] .markup])) := by
  have hm : ∀ b ∈ ([] : Bytes), isGap b = true := by simp
  obtain ⟨first, others, rfl, hletter, hothers⟩ := h.exists_first
  cases language with
  | html => exact readLine_ordinary settings below [] 1 hm hletter hothers h.2
  | css =>
    obtain ⟨rfl, rfl⟩ := List.cons.inj h.1
    refine (readLine_opening settings below [] 1 hm hletter hothers rfl rfl rfl).trans ?_
    exact readLine_of_finished rfl
  | javaScript =>
    obtain ⟨rfl, rfl⟩ := List.cons.inj h.1
    refine (readLine_opening settings below [] 1 hm hletter hothers rfl rfl rfl).trans ?_
    exact readLine_of_finished rfl
  | text => exact h.elim

theorem Hosts.readLine_last (h : language.Hosts source element) (settings : Settings)
    {modes : ModeStack} (hfresh : modes.Fresh) (hreturns : modes.returns = [])
    (hname : modes.active.name = language.start.active.name) (memory memory' : Lookahead)
    (number : Int64) :
    ∃ final, readLine settings [] (State.above language.base memory' ⟨modes, memory⟩) { number }
        (60 :: 47 :: (element ++ [62])) =
      (final, .ok (Line.append { number } (.closing (60 :: 47 :: (element ++ [62])) .markup))) := by
  have hm : ∀ b ∈ ([] : Bytes), isGap b = true := by simp
  obtain ⟨first, others, rfl, hletter, hothers⟩ := h.exists_first
  obtain ⟨active, returns, count, left⟩ := modes
  obtain ⟨rfl, rfl⟩ := hfresh
  subst hreturns
  cases language with
  | html =>
    cases active with
    | markup => exact ⟨_, readLine_closing settings [] memory' number hm hletter hothers h.2⟩
    | _ => exact absurd hname (by simp [Language.start, Mode.name])
  | css =>
    cases active with
    | style s =>
      obtain ⟨rfl, rfl⟩ := List.cons.inj h.1
      exact ⟨_, (readLine_of_next rfl).trans (readLine_of_finished rfl)⟩
    | _ => exact absurd hname (by simp [Language.start, Mode.name])
  | javaScript =>
    cases active with
    | script s =>
      obtain ⟨rfl, rfl⟩ := List.cons.inj h.1
      exact ⟨_, (readLine_of_next rfl).trans (readLine_of_finished rfl)⟩
    | _ => exact absurd hname (by simp [Language.start, Mode.name])
  | text => exact h.elim

theorem Hosts.inName (h : language.Hosts source element) :
    ∀ b ∈ element, Markup.inName b = true := by
  obtain ⟨first, others, rfl, hletter, hothers⟩ := h.exists_first
  intro b hb
  rcases List.mem_cons.1 hb with rfl | hb
  · exact Markup.inName_of_alphanumeric (Or.inl hletter)
  · exact hothers b hb

theorem Hosts.unnoticed (h : language.Hosts source element) {blocks : Blocks}
    (hblocks : ∀ block ∈ blocks, ∀ b ∈ block.2, isWord b = true) :
    Unnoticed blocks (newline :: 60 :: 47 :: (element ++ [62])) := by
  have hplain : ∀ {word : Bytes}, (∀ b ∈ word, isWord b = true) → newline ∉ word ∧ 60 ∉ word :=
    fun hword => ⟨fun hb => absurd (hword _ hb) (by decide),
      fun hb => absurd (hword _ hb) (by decide)⟩
  have hbrace : 123 ∉ 47 :: (element ++ [62]) := by
    have helement : 123 ∉ element := fun hb => absurd (h.inName _ hb) (by decide)
    simp [helement]
  intro tag name ahead hname
  obtain ⟨hne, hword⟩ := Template.word_of_opens? hname
  exact isSome_findEndTag_append (fun block hb => hplain (hblocks block hb)) hne (hplain hword)
    hbrace ahead

end Language

namespace Scan

/-- A document inside an element is read between the two tags as it is read alone. -/
theorem tokenize_wrapped {settings : Settings} {language : Language} {source element : Bytes}
    {lines : List Line} (hblocks : ∀ block ∈ settings.blocks, ∀ b ∈ block.2, isWord b = true)
    (hhosts : language.Hosts source element)
    (hends : (run settings language.start source).1.active.name = language.start.active.name)
    (h : tokenize settings language.start source = .ok lines) :
    ∃ lines' n, tokenize settings Language.html.start
        (60 :: (element ++ [62]) ++ newline ::
          (source ++ newline :: 60 :: 47 :: (element ++ [62]))) =
      .ok (.ofTokens 1 [.opening (60 :: element) .markup, .plain [62] .markup] ::
        (lines' ++ [.ofTokens n [.closing (60 :: 47 :: (element ++ [62])) .markup]])) ∧
      List.Forall₂ (fun l l' => ∃ n, l' = l.renumber n) lines lines' := by
  have hnewline : newline ∉ element := fun hb => absurd (hhosts.inName _ hb) (by decide)
  have hinside : Inside language.start.active.name settings.blocks source
      (source ++ newline :: 60 :: 47 :: (element ++ [62])) { modes := language.start } [] :=
    ⟨language.formed_start, by cases language <;> exact ⟨rfl, rfl⟩, sound_nil _ _, sound_nil _ _⟩
  have houter : language.start.active.name.isOuter = true := by cases language <;> rfl
  -- behind the opening tag both runs read the same; the last line needs the start mode back
  obtain ⟨final, lines', n, hread, hlines⟩ := readLines_above 2 (hhosts.unnoticed hblocks)
    (by simpa [newline] using hnewline) hinside hhosts.clear (List.suffix_refl source)
    (List.suffix_refl _) (Prod.ext rfl h) fun memory number hlast =>
      hhosts.readLine_last settings hlast.fresh (hlast.formed.returns_eq_nil houter hends) hends _
        memory number
  have hfirst : ∀ below, readLine settings below { modes := Language.html.start } { number := 1 }
      (60 :: (element ++ [62])) = _ := hhosts.readLine_first settings
  refine ⟨lines', n, ?_, hlines⟩
  unfold tokenize run
  rw [linesBelow_append_newline (by simpa [newline] using hnewline), readLines_cons, hfirst]
  dsimp only
  rw [show (1 : Int64) + 1 = 2 from rfl, hread]
  rfl

end Scan

namespace Formatter

/-- A page, a style sheet or a script keeps its tokens, offsets and verbatim lines inside an element
that may hold it, and every line that shows gets one level deeper. -/
theorem lines_wrapped {tabWidth : Int64} {blocks : Blocks} {language : Language}
    {source element : Bytes} {inner : List Line}
    (hblocks : ∀ block ∈ blocks, ∀ b ∈ block.2, isWord b = true)
    (hhosts : language.Hosts source element)
    (hends : (run { tabWidth, blocks } language.start source).1.active.name =
      language.start.active.name)
    (h : ({ tabWidth, blocks, language } : Formatter).lines source = .ok inner) :
    ∃ first inner' last, ({ tabWidth, blocks } : Formatter).lines
        (ascii "<" ++ element ++ ascii ">\n" ++ source ++ ascii "\n</" ++ element ++ ascii ">") =
      .ok (first :: (inner' ++ [last])) ∧ List.Forall₂ Line.Deeper inner inner' := by
  have hpage : ascii "<" ++ element ++ ascii ">\n" ++ source ++ ascii "\n</" ++ element ++
      ascii ">" = 60 :: (element ++ [62]) ++ newline ::
        (source ++ newline :: 60 :: 47 :: (element ++ [62])) := by
    simp [ascii, newline]
  have hm : ∀ b ∈ ([] : Bytes), isGap b = true := by simp
  unfold Formatter.lines at h ⊢
  dsimp only at h ⊢
  split_ifs at h ⊢ with hwidth
  obtain ⟨read, hread, hassign⟩ := parse_eq_ok_iff.1 h
  obtain ⟨read', n, hread', hlines⟩ := tokenize_wrapped hblocks hhosts hends hread
  obtain ⟨outer, hkind, hlevel, hopens⟩ := passes_opening [] 1 hm element
  have hcloses := passes_closing [] n hm (47 :: (element ++ [62])) hkind
  obtain ⟨first, inner', last, hassign', hdeeper⟩ :=
    assign_within hopens hlevel hcloses hlines hassign
  refine ⟨first, inner', last, ?_, hdeeper⟩
  rw [hpage, parse_eq_ok_iff]
  exact ⟨_, hread', hassign'⟩

/-- A style sheet of a rule inside a block of its own. -/
theorem lines_wrapped_rule :
    ∃ first inner' last,
      ({ tabWidth := 2, blocks := [(ascii "box", ascii "endbox")] } : Formatter).lines
          (ascii "<style>\n\x7b% box %\x7d\na\x7b\x7d\n\x7b% endbox %\x7d\n</style>") =
        .ok (first :: (inner' ++ [last])) ∧
      List.Forall₂ Line.Deeper
        [{ number := 1, tokens :=
            [{ Token.opening (ascii "\x7b% box %\x7d") .template with line := 1 }] },
         { number := 2, level := 1, tokens :=
            [{ Token.plain (ascii "a") .style with line := 2 },
             { Token.opening (ascii "\x7b") .style with level := 1, line := 2 },
             { Token.closing (ascii "\x7d") .style with line := 2 }] },
         { number := 3, tokens :=
            [{ Token.closing (ascii "\x7b% endbox %\x7d") .template with line := 3 }] }] inner' :=
  @lines_wrapped 2 [(ascii "box", ascii "endbox")] .css
    (ascii "\x7b% box %\x7d\na\x7b\x7d\n\x7b% endbox %\x7d") (ascii "style") _
    (by decide +kernel) ⟨rfl, by decide +kernel⟩ (by decide +kernel) (by decide +kernel)

end Formatter

end Reindent
