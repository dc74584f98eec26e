import Reindent.Proofs.Respacing.Questions
import Reindent.Proofs.Scan.Verbatim

/-! Reading gaps and lexemes of two lines side by side. -/
namespace Reindent
open Bytes Pattern Text

variable {c : Contrast} {torn : Bool}

namespace Mode

theorem nests_settle (sight : Sight) (mode : Mode) (t : Token) :
    (mode.settle sight t).1.nests = t.nests := by
  unfold settle
  split
  · unfold OpenTag.settle
    dsimp only
    split_ifs <;> rfl
  · unfold StyleState.settle
    split_ifs <;> rfl
  · unfold ScriptState.settle
    split_ifs <;> rfl
  · rfl

theorem nests_readText (sight : Sight) (mode : Mode) (text : Bytes) :
    (mode.readText sight text).1.nests = false := by
  unfold readText
  split
  · rfl
  · rw [nests_settle]
    rfl

theorem readText_nil (sight : Sight) (mode : Mode) : (mode.readText sight []).2 = mode := by
  have hleads : ∀ kind, sight.leads (.plain [] kind) = false := by
    intro kind
    have hblank : (Token.plain [] kind).isBlank = true := rfl
    rw [Sight.leads, hblank, Bool.not_true, Bool.and_false]
  cases mode with
  | tag o =>
    obtain ⟨name, offset, source⟩ := o
    simp only [readText, settle, OpenTag.settle, Token.plain, List.append_nil]
  | script s =>
    simp only [readText, settle, ScriptState.settle, hleads, Bool.false_eq_true, if_false, kind]
  | _ => rfl

end Mode

namespace Scan

theorem readGap_nil (settings : Settings) (state : State) (line : Line) (rest : Bytes) :
    readGap settings state line [] rest = (line, state) := rfl

theorem readGap_of_ne {text : Bytes} (h : text ≠ []) (settings : Settings) (state : State)
    (line : Line) (rest : Bytes) :
    readGap settings state line text rest =
      (line.append (state.modes.active.readText ⟨settings.tabWidth, line, rest⟩ text).1,
        { state with
          modes := state.modes.setActive
            (state.modes.active.readText ⟨settings.tabWidth, line, rest⟩ text).2 }) := by
  rw [readGap, if_neg (by simpa using h)]

theorem memory_readGap (settings : Settings) (state : State) (line : Line)
    (text rest : Bytes) : (readGap settings state line text rest).2.memory = state.memory := by
  unfold readGap
  split_ifs
  · rfl
  · rfl

theorem exists_script_readGap {state : State} {script : ScriptState}
    (h : state.modes.active = .script script) (settings : Settings) (line : Line)
    (text rest : Bytes) :
    ∃ script, (readGap settings state line text rest).2.modes.active = .script script := by
  by_cases ht : text = []
  · subst ht
    exact ⟨script, h⟩
  · rw [readGap_of_ne ht, h]
    exact ⟨_, rfl⟩

/-- The text between lexemes is read alike if it differs in white space. -/
theorem like_readGap {state₁ state₂ : State} (hmodes : state₁.modes.Like c torn state₂.modes)
    {line₁ line₂ : Line} (hline : line₁.Like c line₂) (blocks : Blocks) {text₁ text₂ : Bytes}
    (htext : state₁.modes.active.Respaces c torn text₁ text₂) (rest₁ rest₂ : Bytes) :
    (readGap ⟨c.first, blocks⟩ state₁ line₁ text₁ rest₁).1.Like c
        (readGap ⟨c.second, blocks⟩ state₂ line₂ text₂ rest₂).1 ∧
      (readGap ⟨c.first, blocks⟩ state₁ line₁ text₁ rest₁).2.modes.Like c torn
        (readGap ⟨c.second, blocks⟩ state₂ line₂ text₂ rest₂).2.modes := by
  have hsight : Sight.Like c ⟨c.first, line₁, rest₁⟩ ⟨c.second, line₂, rest₂⟩ :=
    ⟨rfl, rfl, hline⟩
  obtain ⟨htoken, hmode⟩ := hmodes.active.readText hsight htext
  have hfirst := state₁.modes.active.text_readText ⟨c.first, line₁, rest₁⟩ text₁
  have hsecond := state₂.modes.active.text_readText ⟨c.second, line₂, rest₂⟩ text₂
  by_cases h₁ : text₁ = []
  · subst h₁
    rw [Mode.readText_nil] at hmode
    rw [readGap_nil]
    by_cases h₂ : text₂ = []
    · subst h₂
      exact ⟨hline, hmodes⟩
    · rw [readGap_of_ne h₂]
      refine ⟨(hline.symm.appendLeft (Mode.nests_readText _ _ _) fun _ => ?_).symm,
        hmode, hmodes.returns⟩
      rw [Token.isBlank, hsecond, ← htext.blank]
      rfl
  · rw [readGap_of_ne h₁]
    by_cases h₂ : text₂ = []
    · subst h₂
      rw [Mode.readText_nil] at hmode
      refine ⟨hline.appendLeft (Mode.nests_readText _ _ _) fun _ => ?_, hmode, hmodes.returns⟩
      rw [Token.isBlank, hfirst, htext.blank]
      rfl
    · rw [readGap_of_ne h₂]
      exact ⟨hline.append htoken, hmodes.setActive hmode⟩

/-- A lexeme is read alike if the same end tags are ahead, the first attribute of a tag stands in the
same place, and a script holds markup in both runs or in none. -/
theorem like_readLexeme {blocks : Blocks} {document₁ document₂ below₁ below₂ rest₁ rest₂ : Bytes}
    {state₁ state₂ : State} {line₁ line₂ : Line} {lexeme : Lexeme} {text : Bytes}
    (hmodes : state₁.modes.Like c torn state₂.modes) (hline : line₁.Like c line₂)
    (hcolumn : line₁.column = line₂.column)
    (hsound₁ : Lookahead.Sound blocks document₁ state₁.memory)
    (hsound₂ : Lookahead.Sound blocks document₂ state₂.memory)
    (hahead₁ : rest₁ ++ below₁ <:+ document₁) (hahead₂ : rest₂ ++ below₂ <:+ document₂)
    (hlabel : state₁.modes.active = .markup → lexeme.isTemplate = false →
      lexeme ∈ Markup.tags.map Prod.fst)
    (hends : lexeme = .templateBlock → ∀ name, Template.opens? blocks text = some name →
      (findEndTag blocks name (rest₁ ++ below₁)).isSome =
        (findEndTag blocks name (rest₂ ++ below₂)).isSome)
    (hgap : state₁.modes.active = .markup → lexeme = .tagStart →
      Markup.attributeGap? rest₁ = Markup.attributeGap? rest₂)
    (hscript : ∀ o₁ o₂, state₁.modes.active = .tag o₁ → state₂.modes.active = .tag o₂ →
      lexeme = .tagEnd → o₁.isScript = true → OpenTag.templateScript.occursIn (o₁.source ++ text) =
        OpenTag.templateScript.occursIn (o₂.source ++ text)) :
    let read₁ := readLexeme ⟨c.first, blocks⟩ below₁ state₁ ⟨c.first, line₁, rest₁⟩ lexeme text
    let read₂ := readLexeme ⟨c.second, blocks⟩ below₂ state₂ ⟨c.second, line₂, rest₂⟩ lexeme text
    read₁.1.Like c read₂.1 ∧ read₁.2.modes.Like c torn read₂.2.modes ∧
      Lookahead.Sound blocks document₁ read₁.2.memory ∧
      Lookahead.Sound blocks document₂ read₂.2.memory := by
  have hsight : Sight.Like c ⟨c.first, line₁, rest₁⟩ ⟨c.second, line₂, rest₂⟩ :=
    ⟨rfl, rfl, hline⟩
  dsimp only
  unfold readLexeme
  dsimp only
  by_cases htemplate : lexeme.isTemplate = true
  · rw [if_pos htemplate, if_pos htemplate]
    obtain ⟨htoken₁, hregion₁, hmemory₁⟩ := Template.read_of_sound hsound₁ hahead₁ lexeme text
    obtain ⟨htoken₂, hregion₂, hmemory₂⟩ := Template.read_of_sound hsound₂ hahead₂ lexeme text
    obtain ⟨htoken, hregion⟩ := Template.read_congr hends
    rw [← htoken₁, ← htoken₂] at htoken
    rw [← hregion₁, ← hregion₂] at hregion
    rw [htoken, hregion]
    generalize Template.read blocks state₂.memory lexeme text (rest₂ ++ below₂) = result at *
    obtain ⟨hsettled, hself⟩ := hmodes.active.settle hsight (Token.like_refl c result.1)
      (Mode.respaces_refl c torn _ result.1.text)
    refine ⟨hsettled, hmodes.apply ?_, hmemory₁, hmemory₂⟩
    cases result.2.1 with
    | some region => exact .enter hself (.verbatim region)
    | none => exact .keep hself
  · rw [if_neg htemplate, if_neg htemplate]
    have hopen : state₁.modes.active = .markup → lexeme = .tagStart →
        (Markup.openTag ⟨c.first, line₁, rest₁⟩ text).Like c torn
          (Markup.openTag ⟨c.second, line₂, rest₂⟩ text) :=
      fun hactive hlexeme => Markup.like_openTag hsight hcolumn (hgap hactive hlexeme) text
    obtain ⟨htoken, hmove⟩ := hmodes.active.read hsight
      (fun h => hlabel h (by simpa using htemplate)) hopen hscript
    exact ⟨htoken, hmodes.apply hmove, hsound₁, hsound₂⟩

section Verbatim
variable {settings : Settings} {state : State} {region : Region}
  (h : state.modes.active = .verbatim region)
include h

private theorem setActive_verbatim : state.modes.setActive (.verbatim region) = state.modes := by
  rw [← h]
  rfl

theorem readGap_verbatim (line : Line) (text rest : Bytes) :
    readGap settings state line text rest =
      (if text = [] then line else line.append (.verbatim text), state) := by
  by_cases ht : text = []
  · subst ht
    rfl
  · rw [readGap_of_ne ht, h, if_neg ht]
    dsimp only [Mode.readText]
    rw [setActive_verbatim h]

theorem readLexeme_escape (below : Bytes) (sight : Sight) (text : Bytes) :
    readLexeme settings below state sight .escape text = (.verbatim text, state) := by
  have hmodes := setActive_verbatim h
  unfold readLexeme
  rw [h]
  change (Token.verbatim text, { state with modes := state.modes.setActive (.verbatim region) }) = _
  rw [hmodes]

end Verbatim

section Step
variable {settings : Settings} {below : Bytes} {state : State} {line : Line} {rest : Bytes}

theorem step_of_none
    (h : search (state.modes.active.rules state.modes.embedded) none rest = none) :
    step settings below state line rest =
      .finished (readGap settings state line rest []).2 (readGap settings state line rest []).1 := by
  unfold step
  rw [h]

theorem step_of_some {hit : Hit Lexeme}
    (h : search (state.modes.active.rules state.modes.embedded) none rest = some hit) :
    step settings below state line rest =
      let gap := readGap settings state line hit.skipped (hit.matched ++ hit.rest)
      match gap.2.modes.active.extent gap.2.modes.embedded hit.label hit.matched with
      | .error overrun => .failed gap.2 overrun
      | .ok n =>
        let after := hit.matched.drop n ++ hit.rest
        let read := readLexeme settings below gap.2 ⟨settings.tabWidth, gap.1, after⟩ hit.label
          (hit.matched.take n)
        .next read.2 (gap.1.append read.1) after := by
  unfold step
  generalize search (state.modes.active.rules state.modes.embedded) none rest = found at h
  subst h
  rfl

theorem stepQuestions_of_none
    (h : search (state.modes.active.rules state.modes.embedded) none rest = none) :
    stepQuestions settings torn below state line rest = [] := by
  unfold stepQuestions
  rw [h]

theorem stepQuestions_of_some {hit : Hit Lexeme}
    (h : search (state.modes.active.rules state.modes.embedded) none rest = some hit) :
    stepQuestions settings torn below state line rest =
      lexemeQuestions torn settings.blocks below
        (readGap settings state line hit.skipped (hit.matched ++ hit.rest)).2.modes hit.label
        hit.matched hit.rest := by
  unfold stepQuestions
  rw [h]

end Step

theorem suffix_of_split {skipped matched rest whole below document : Bytes}
    (hsplit : skipped ++ matched ++ rest = whole) (h : whole ++ below <:+ document) (n : Nat) :
    matched.drop n ++ rest ++ below <:+ document := by
  refine List.IsSuffix.trans ⟨skipped ++ matched.take n, ?_⟩ h
  rw [← hsplit]
  simp only [List.append_assoc]
  rw [← List.append_assoc (matched.take n), List.take_append_drop]

end Scan
end Reindent
