import Reindent.Proofs.Isolation.Sites
import Reindent.Proofs.Scan.Tokens
import Reindent.Proofs.Template

/-! Template tokens of a run. The search for end tags keeps a memory that no answer shows: every tag is
read as if it were the first one of its document. -/
namespace Reindent
open Bytes Pattern

namespace Lookahead

/-- The answers to questions one after the other, each about the end tags of a name behind a place
in the source. -/
def answers (blocks : Blocks) (source : Bytes) : Lookahead → List (Bytes × Nat) → List Bool
  | _, [] => []
  | memory, (name, place) :: queries =>
    let (found, memory) := memory.hasEnd blocks name (source.drop place)
    found :: answers blocks source memory queries

/-- Every answer is that of a search at its place, whatever was asked before. -/
theorem answers_of_sound {blocks : Blocks} {source : Bytes} {memory : Lookahead}
    (h : Sound blocks source memory) (queries : List (Bytes × Nat)) :
    answers blocks source memory queries = queries.map fun q =>
      (endTagPattern q.1 (blocks.endOf q.1)).occursIn (source.drop q.2) := by
  induction queries generalizing memory with
  | nil => rfl
  | cons q queries ih =>
    obtain ⟨name, place⟩ := q
    obtain ⟨hanswer, hsound⟩ := hasEnd_of_sound h (List.drop_suffix place source) name
    rw [answers, List.map_cons, ← ih hsound]
    dsimp only
    rw [hanswer]
    unfold findEndTag occursIn
    rw [Option.isSome_map]

end Lookahead

/-- Only template syntax makes template tokens. -/
theorem Mode.kind_readText_ne (sight : Sight) (mode : Mode) (text : Bytes) :
    (mode.readText sight text).1.kind ≠ .template := by
  unfold readText
  split
  · exact Kind.noConfusion
  · rw [kind_settle]
    cases mode <;> exact Kind.noConfusion

private theorem ScriptState.kind_read_ne (sight : Sight) (s : ScriptState) (lexeme : Lexeme)
    (text : Bytes) : (s.read sight lexeme text).1.kind ≠ .template := by
  have hsettle : ∀ (s : ScriptState) t, (s.settle sight t).1.kind = t.kind :=
    fun s => Mode.kind_settle sight (.script s)
  have hplain : (Token.plain text .script).kind ≠ .template := Kind.noConfusion
  unfold read
  dsimp only
  split
  case h_1 => split_ifs <;> (rw [hsettle]; exact hplain)
  case h_4 => exact Kind.noConfusion
  case h_6 =>
    rw [hsettle]
    unfold label
    split
    · split_ifs <;> exact Kind.noConfusion
    · exact hplain
  case h_7 =>
    unfold dot
    dsimp only
    split_ifs <;> exact hplain
  case h_8 =>
    unfold openBracket
    dsimp only
    split_ifs
    · exact Kind.noConfusion
    · rw [hsettle]
      exact Kind.noConfusion
  case h_9 =>
    unfold closeBracket
    split
    · exact Kind.noConfusion
    · dsimp only
      split_ifs <;> exact Kind.noConfusion
  all_goals
    rw [hsettle]
    exact hplain

theorem Mode.kind_read_ne (sight : Sight) (mode : Mode) (lexeme : Lexeme) (text : Bytes) :
    (mode.read sight lexeme text).1.kind ≠ .template := by
  cases mode with
  | text => exact Kind.noConfusion
  | markup =>
    change (Markup.read sight lexeme text).1.kind ≠ _
    unfold Markup.read Markup.endToken
    split <;> (try dsimp only) <;> (try split_ifs) <;> exact Kind.noConfusion
  | tag o =>
    have hsettle : ∀ t, (o.settle sight t).1.kind = t.kind := kind_settle sight (.tag o)
    change (o.read sight lexeme text).1.kind ≠ _
    unfold OpenTag.read
    split
    · exact Kind.noConfusion
    · unfold OpenTag.finish
      split
      · exact Kind.noConfusion
      · split
        · exact Kind.noConfusion
        · dsimp only
          split_ifs <;> exact Kind.noConfusion
    · dsimp only
      rw [hsettle]
      exact Kind.noConfusion
  | endTag => exact Kind.noConfusion
  | style s =>
    have hsettle : ∀ t, (s.settle sight t).kind = t.kind := kind_settle sight (.style s)
    change (s.read sight lexeme text).1.kind ≠ _
    unfold StyleState.read
    dsimp only
    split <;> (try rw [hsettle]) <;> exact Kind.noConfusion
  | script s => exact s.kind_read_ne sight lexeme text
  | verbatim r => exact Kind.noConfusion

theorem Mode.mem_template_of_mem_rules {mode : Mode} {embedded : Bool} {lexeme : Lexeme}
    {p : Pattern} (h : (lexeme, p) ∈ mode.rules embedded) (ht : lexeme.isTemplate = true) :
    (lexeme, p) ∈ Rules.template := by
  have hplain : mode.isVerbatim = false :=
    Scan.isVerbatim_of_isTemplate (List.mem_map_of_mem (f := Prod.fst) h) ht
  have hfilter : (mode.rules embedded).filter (·.1.isTemplate) ⊆ Rules.template := by
    cases mode with
    | text => exact List.Subset.refl _
    | markup => exact List.Subset.refl _
    | tag o => exact List.Subset.refl _
    | endTag => exact List.nil_subset _
    | style s => cases embedded <;> exact List.Subset.refl _
    | script s => cases embedded <;> exact List.Subset.refl _
    | verbatim r => exact absurd hplain (by simp [isVerbatim])
  exact hfilter (List.mem_filter.2 ⟨h, ht⟩)

namespace Template

/-- The token is what a rule of template syntax finds in front of `ahead`, read without a memory of the
tags before it. -/
def ReadAlone (blocks : Blocks) (t : Token) (ahead : Bytes) : Prop :=
  ∃ lexeme p before, (lexeme, p) ∈ Rules.template ∧
    p.match? before (t.text ++ ahead) = some ⟨t.text.reverse, ahead⟩ ∧
    t = { (read blocks [] lexeme t.text ahead).1 with offset := t.offset, line := t.line }

namespace ReadAlone
variable {blocks : Blocks} {t : Token} {ahead : Bytes}

theorem tag (h : ReadAlone blocks t ahead) (hstart : ascii "\x7b%" <+: t.text) :
    t = { (readBlock blocks [] t.text ahead).1 with offset := t.offset, line := t.line } := by
  obtain ⟨lexeme, p, before, hrule, hmatch, ht⟩ := h
  have hother : ∀ second : UInt8, second ≠ 37 → ¬ [123, second] <+: t.text ++ ahead := by
    intro second hsecond hw
    obtain ⟨more, hmore⟩ := hstart
    rw [← hmore] at hw
    obtain ⟨-, hw⟩ := List.cons_prefix_cons.1 hw
    exact hsecond (List.cons_prefix_cons.1 hw).1
  have hblock : lexeme = .templateBlock := by
    by_contra hne
    have hfails : Fails before p ⟨[], t.text ++ ahead⟩ := by
      simp only [Rules.template, List.mem_cons, Prod.mk.injEq, List.not_mem_nil, or_false] at hrule
      rcases hrule with ⟨rfl, -⟩ | ⟨-, rfl⟩ | ⟨-, rfl⟩ | ⟨-, rfl⟩
      · exact absurd rfl hne
      · exact Fails.seq (Fails.seq (fails_word (hother 123 (by decide))))
      · exact Fails.seq (Fails.seq (fails_word (hother 35 (by decide))))
      · exact fails_word (hother 35 (by decide))
    rw [hfails.match?] at hmatch
    exact absurd hmatch (by simp)
  rw [hblock] at ht
  exact ht

theorem last (h : ReadAlone blocks t ahead) :
    ∃ b, t.text.getLast? = some b ∧ isWord b = false := by
  obtain ⟨lexeme, p, before, hrule, hmatch, -⟩ := h
  obtain ⟨hne, -⟩ := match?_split hmatch
  obtain ⟨w, htook⟩ := exists_took (List.mem_of_find?_eq_some hmatch)
  have hw : t.text = w := by
    have htaken := htook.taken
    rw [List.append_nil] at htaken
    exact List.reverse_injective htaken
  obtain ⟨b, hb⟩ := Option.isSome_iff_exists.1 (List.getLast?_isSome.2 (by simpa using hne))
  refine ⟨b, hb, ?_⟩
  have hend : p.mayEnd b = true := htook.finish b (by rw [← hw, hb]; rfl)
  have happend : ∀ p q : Pattern, p ++ q = .seq p q := fun _ _ => rfl
  have hdelimiter : b = 125 ∨ b = 35 := by
    simp only [Rules.template, List.mem_cons, Prod.mk.injEq, List.not_mem_nil, or_false] at hrule
    rcases hrule with ⟨-, rfl⟩ | ⟨-, rfl⟩ | ⟨-, rfl⟩ | ⟨-, rfl⟩
    · exact Or.inl (by simpa [happend, literal, ascii, word, byte, mayEnd, nullable] using hend)
    · exact Or.inl (by simpa [happend, literal, ascii, word, byte, mayEnd, nullable] using hend)
    · exact Or.inl (by simpa [happend, literal, ascii, word, byte, mayEnd, nullable] using hend)
    · exact Or.inr (by simpa [happend, literal, ascii, word, byte, mayEnd, nullable] using hend)
  rcases hdelimiter with rfl | rfl
  · rfl
  · rfl

end ReadAlone
end Template

namespace Scan.Whole
variable {settings : Settings} {state : State} {source : Bytes}

private theorem extent_of_isTemplate {modes : ModeStack} {lexeme : Lexeme} (matched : Bytes)
    (h : lexeme.isTemplate = true) : extent modes lexeme matched = .ok matched.length := by
  unfold extent Mode.extent
  split
  · exact absurd h (by simp [Lexeme.isTemplate])
  · rfl

/-- What is remembered of the tags in front of a lexeme does not show in its token. -/
private theorem readAlone_readLexeme (h : Lookahead.Sound settings.blocks source state.memory)
    (sight : Sight) {lexeme : Lexeme} {matched rest : Bytes} (number : Int64)
    (hsource : matched ++ rest <:+ source) (hfound : Finds state.modes lexeme matched rest)
    (hsight : sight.rest = rest) (ht : lexeme.isTemplate = true) :
    Template.ReadAlone settings.blocks
      ((readLexeme settings [] state sight lexeme matched).1.numbered number) rest := by
  obtain ⟨p, before, hrule, hmatch⟩ := hfound
  have hrest : rest <:+ source := (List.suffix_append _ _).trans hsource
  have hread := (Template.read_of_sound h hrest lexeme matched).1
  obtain ⟨offset, hoffset⟩ := Mode.exists_settle sight state.modes.active
    (Template.read settings.blocks [] lexeme matched rest).1
  have htoken : (readLexeme settings [] state sight lexeme matched).1 =
      { (Template.read settings.blocks [] lexeme matched rest).1 with offset } := by
    unfold readLexeme
    dsimp only
    rw [if_pos ht, List.append_nil, hsight, hread, hoffset]
  have htext : ((readLexeme settings [] state sight lexeme matched).1.numbered number).text =
      matched := text_readLexeme _ _ _ _ _ _
  refine ⟨lexeme, p, before, Mode.mem_template_of_mem_rules hrule ht, ?_, ?_⟩
  · rw [htext]
    exact hmatch
  · rw [htext, htoken]
    rfl

private theorem sound_readLexeme (h : Lookahead.Sound settings.blocks source state.memory)
    {sight : Sight} (hsight : sight.rest <:+ source) (lexeme : Lexeme) (text : Bytes) :
    Lookahead.Sound settings.blocks source
      (readLexeme settings [] state sight lexeme text).2.memory := by
  unfold readLexeme
  dsimp only
  split_ifs
  · rw [List.append_nil]
    exact (Template.read_of_sound h hsight lexeme text).2.2
  · exact h

/-- Along a run every template token is read as if no tag had been read before. -/
theorem course_template (settings : Settings) (modes : ModeStack) (source : Bytes) :
    Course (fun r ahead => r.token.kind = .template →
      Template.ReadAlone settings.blocks r.token ahead) modes source
      (events settings { modes } { number := 1 } source) := by
  refine course_events _ (fun state => Lookahead.Sound settings.blocks source state.memory) source
    { modes } ?_ ?_ (Lookahead.sound_nil _ _) (List.suffix_refl _) _
  · intro state sight text more number hsound _ _ _
    exact ⟨fun hkind => absurd hkind (Mode.kind_readText_ne _ _ _), hsound⟩
  · intro state sight lexeme matched rest n number hsound hsource hfound hn hsight
    have hbehind : matched.drop n ++ rest <:+ source := by
      refine List.IsSuffix.trans ⟨matched.take n, ?_⟩ hsource
      rw [← List.append_assoc, List.take_append_drop]
    refine ⟨fun hkind => ?_, sound_readLexeme hsound (by rwa [hsight]) _ _⟩
    have ht : lexeme.isTemplate = true := by
      by_contra hno
      refine absurd hkind ?_
      unfold readLexeme
      dsimp only
      rw [if_neg hno]
      exact Mode.kind_read_ne _ _ _ _
    obtain rfl : matched.length = n := by
      rw [extent_of_isTemplate matched ht] at hn
      exact Except.ok.inj hn
    rw [List.drop_length, List.nil_append] at hsight ⊢
    rw [List.take_length]
    exact readAlone_readLexeme hsound sight number hsource hfound hsight ht

end Scan.Whole

/-- The memory of end tags is exact: it answers any questions in any order like a search at each of the
places. So in every run a tag is read as if no tag had been read before it: its own text and the
text behind it decide. -/
theorem lookahead_exact (blocks : Blocks) (source : Bytes) :
    (∀ queries : List (Bytes × Nat), Lookahead.answers blocks source [] queries =
      queries.map fun q => (endTagPattern q.1 (blocks.endOf q.1)).occursIn (source.drop q.2)) ∧
    ∀ (tabWidth : Int64) (modes : ModeStack) (lines later : List Line) (t : Token),
      tokenize { tabWidth, blocks } modes source = .ok lines → t.StandsIn lines later →
      t.kind = .template → ascii "\x7b%" <+: t.text →
      t = { (Template.readBlock blocks [] t.text (joinLines (later.map Line.raw))).1 with
        offset := t.offset, line := t.line } := by
  refine ⟨Lookahead.answers_of_sound (Lookahead.sound_nil blocks source), ?_⟩
  intro tabWidth modes lines later t hlines hstands hkind htag
  obtain ⟨hfill, hraw⟩ := Scan.fill_events hlines
  rw [← hraw] at hfill
  obtain ⟨r, -, rfl, hread, -⟩ := (Scan.Whole.course_template _ _ _).stands hfill hstands
  exact (hread hkind).tag htag

/-- A loop, its end, and a tag of the same name that has no end. -/
def loops : Bytes := ascii "\x7b% for a %\x7d\n\x7b% endfor %\x7d\x7b% for b %\x7d"

def openLoop : Token := { Token.opening (ascii "\x7b% for a %\x7d") .template with line := 1 }

def closeLoop : Token := { Token.closing (ascii "\x7b% endfor %\x7d") .template with line := 2 }

def loneLoop : Token := { Token.plain (ascii "\x7b% for b %\x7d") .template with line := 2 }

def loopLines : List Line :=
  [{ number := 1, tokens := [openLoop] }, { number := 2, tokens := [closeLoop, loneLoop] }]

/-- The end tag of the first loop is remembered when the last tag is read. -/
theorem lookahead_exact_loops :
    Lookahead.answers [] loops [] [(ascii "for", 12), (ascii "for", 24), (ascii "for", 0)] =
      [true, false, true] ∧
    tokenize {} { active := .markup } loops = .ok loopLines ∧
    loneLoop.StandsIn loopLines [{ number := 2 }] ∧
    loneLoop = { (Template.readBlock [] [] loneLoop.text []).1 with line := 2 } := by
  obtain ⟨hanswers, htags⟩ := lookahead_exact [] loops
  have hlines : tokenize {} { active := .markup } loops = .ok loopLines := by decide +kernel
  have hstands : loneLoop.StandsIn loopLines [{ number := 2 }] :=
    ⟨[{ number := 1, tokens := [openLoop] }], { number := 2, tokens := [closeLoop, loneLoop] }, [],
      [closeLoop], [], rfl, rfl, rfl⟩
  refine ⟨?_, hlines, hstands, ?_⟩
  · rw [hanswers]
    decide +kernel
  · exact htags 4 { active := .markup } loopLines _ loneLoop hlines hstands rfl (by decide)

end Reindent
