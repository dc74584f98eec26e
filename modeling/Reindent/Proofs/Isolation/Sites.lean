import Reindent.Proofs.Respacing.Lexemes
import Reindent.Proofs.Scan.Events

/-! Where the tokens of a page lie: in its markup, in an opening tag, or in the style sheet or script
that an element holds; and what a token of each kind can be. -/
namespace Reindent
open Bytes Text

def Kind.isCode : Kind → Bool
  | .style | .script | .switch | .case => true
  | _ => false

/-- Code is a style sheet or a script; an element that holds code is known by its name. -/
inductive Site where
  | outside
  | inTag (element : Bytes)
  | inCode (element : Bytes)
  deriving DecidableEq, Repr

def ModeName.site : ModeName → Site
  | .tag element => .inTag element
  | .style => .inCode (ascii "style")
  | .script => .inCode (ascii "script")
  | _ => .outside

/-- A verbatim region lies where the mode around it lies. -/
def ModeStack.site (modes : ModeStack) : Site :=
  match modes.active, modes.returns with
  | .verbatim _, mode :: _ => mode.name.site
  | mode, _ => mode.name.site

def Token.closesMarkup (t : Token) : Bool := t.dedents && !t.indents && t.kind == .markup

def Token.opensMarkup (t : Token) : Bool := t.indents && !t.dedents && t.kind == .markup

/-- What a token can be by the site in front of it and the site behind it. -/
inductive Moves (t : Token) : Site → Site → Prop where
  | plain {site : Site} (h : t.nests = false) : Moves t site site
  | template {site : Site} (h : t.kind = .template) : Moves t site site
  | opens (h : t.opensMarkup = true) : Moves t .outside (.inTag (Markup.elementName (t.text.drop 1)))
  | closes (h : t.closesMarkup = true) : Moves t .outside .outside
  | closesTag {element : Bytes} (h : t.closesMarkup = true) : Moves t (.inTag element) .outside
  | leavesTag {element : Bytes} (h : t.nests = false) : Moves t (.inTag element) .outside
  | entersCode {element : Bytes} (h : t.nests = false) : Moves t (.inTag element) (.inCode element)
  | code {element : Bytes} (h : t.kind.isCode = true) : Moves t (.inCode element) (.inCode element)
  | closesCode {element : Bytes} (h : t.closesMarkup = true) : Moves t (.inCode element) .outside

theorem Moves.numbered {t : Token} {site site' : Site} (h : Moves t site site')
    (number : Int64) :
    Moves (t.numbered number) site site' := by
  cases h with
  | plain h => exact .plain h
  | template h => exact .template h
  | opens h => exact .opens h
  | closes h => exact .closes h
  | closesTag h => exact .closesTag h
  | leavesTag h => exact .leavesTag h
  | entersCode h => exact .entersCode h
  | code h => exact .code h
  | closesCode h => exact .closesCode h

/-- A token lies where it can lie, and white space changes nothing. -/
structure Scan.Reading.Fits (r : Reading) : Prop where
  moves : Moves r.token r.before.site r.after.site
  blank : r.token.isBlank = true → r.after.site = r.before.site

namespace ModeStack
variable {modes : ModeStack} {mode : Mode}

theorem site_of_plain (h : modes.active.isVerbatim = false) :
    modes.site = modes.active.name.site := by
  obtain ⟨active, returns, count, left⟩ := modes
  cases active with
  | verbatim r => exact absurd h (by simp [Mode.isVerbatim])
  | _ => cases returns <;> rfl

theorem site_setActive (h : mode.name = modes.active.name) :
    (modes.setActive mode).site = modes.site := by
  obtain ⟨active, returns, count, left⟩ := modes
  cases active with
  | verbatim r =>
    cases mode with
    | verbatim r' => cases returns <;> rfl
    | _ => exact absurd h (by simp [Mode.name])
  | _ =>
    cases mode with
    | verbatim r' => exact absurd h (by simp [Mode.name])
    | _ =>
      have hsite := congrArg ModeName.site h
      cases returns <;> exact hsite

theorem site_enter (self : Mode) (r : Region) :
    (modes.apply (.enter self (.verbatim r))).site = self.name.site := rfl

end ModeStack

namespace Template

theorem kind_read (blocks : Blocks) (memory : Lookahead) (lexeme : Lexeme) (text ahead : Bytes) :
    (read blocks memory lexeme text ahead).1.kind = .template := by
  unfold read
  split
  · unfold readBlock
    split
    · rfl
    · split
      · rfl
      · split_ifs
        · rfl
        · rfl
        · dsimp only
          split_ifs <;> rfl
        · rfl
  · rfl
  · rfl
  · rfl

end Template

theorem Mode.exists_settle (sight : Sight) (mode : Mode) (t : Token) :
    ∃ offset, (mode.settle sight t).1 = { t with offset } := by
  unfold settle
  split
  · unfold OpenTag.settle
    dsimp only
    split_ifs
    · exact ⟨_, rfl⟩
    · exact ⟨t.offset, rfl⟩
  · unfold StyleState.settle
    split_ifs
    · exact ⟨_, rfl⟩
    · exact ⟨t.offset, rfl⟩
  · unfold ScriptState.settle
    split_ifs
    · exact ⟨_, rfl⟩
    · exact ⟨t.offset, rfl⟩
  · exact ⟨t.offset, rfl⟩

theorem Mode.kind_settle (sight : Sight) (mode : Mode) (t : Token) :
    (mode.settle sight t).1.kind = t.kind := by
  obtain ⟨offset, h⟩ := exists_settle sight mode t
  rw [h]

/-- What a lexeme of code can be: the closing tag behind the code, or a token that nests, if at all,
as a token of code. -/
inductive CodeMove (code : ModeName) (t : Token) : Move → Prop where
  | closes (h : t.closesMarkup = true) : CodeMove code t .leave
  | keep {self : Mode} (h : self.name = code) (ht : t.nests = false ∨ t.kind.isCode = true) :
    CodeMove code t (.keep self)
  | region {self : Mode} {r : Region} (h : self.name = code) (ht : t.nests = false) :
    CodeMove code t (.enter self (.verbatim r))

theorem StyleState.codeMove_read (sight : Sight) (s : StyleState) (lexeme : Lexeme)
    (text : Bytes) : CodeMove .style (s.read sight lexeme text).1 (s.read sight lexeme text).2 := by
  have hnests : ∀ t, (s.settle sight t).nests = t.nests := Mode.nests_settle sight (.style s)
  have hkind : ∀ t, (s.settle sight t).kind = t.kind := Mode.kind_settle sight (.style s)
  unfold read
  dsimp only
  split
  case h_1 => exact .region rfl (hnests _)
  case h_2 => exact .region rfl (hnests _)
  case h_3 => exact .closes rfl
  case h_4 => exact .keep rfl (Or.inr (by rw [hkind]; rfl))
  case h_5 => exact .keep rfl (Or.inr rfl)
  all_goals exact .keep rfl (Or.inl (hnests _))

theorem ScriptState.codeMove_read (sight : Sight) (s : ScriptState) (lexeme : Lexeme)
    (text : Bytes) : CodeMove .script (s.read sight lexeme text).1 (s.read sight lexeme text).2 := by
  have hnests : ∀ (s : ScriptState) t, (s.settle sight t).1.nests = t.nests :=
    fun s => Mode.nests_settle sight (.script s)
  have hkind : ∀ (s : ScriptState) t, (s.settle sight t).1.kind = t.kind :=
    fun s => Mode.kind_settle sight (.script s)
  unfold read
  dsimp only
  split
  case h_1 =>
    split_ifs
    · exact .region rfl (hnests _ _)
    · exact .keep rfl (Or.inl (hnests _ _))
  case h_2 => exact .region rfl (hnests _ _)
  case h_3 => exact .region rfl (hnests _ _)
  case h_4 => exact .closes rfl
  case h_6 =>
    refine .keep rfl ?_
    rw [hnests, hkind]
    unfold label
    split
    · split_ifs
      · exact Or.inr rfl
      · exact Or.inr rfl
      · exact Or.inl rfl
    · exact Or.inl rfl
  case h_7 =>
    refine .keep rfl (Or.inl ?_)
    unfold dot
    dsimp only
    split_ifs <;> rfl
  case h_8 =>
    refine .keep rfl (Or.inr ?_)
    unfold openBracket
    dsimp only
    split_ifs
    · rfl
    · rw [hkind]
      rfl
  case h_9 =>
    refine .keep rfl (Or.inr ?_)
    unfold closeBracket
    split
    · rfl
    · dsimp only
      split_ifs <;> rfl
  all_goals exact .keep rfl (Or.inl (hnests _ _))

namespace Scan
variable {settings : Settings} {state : State}

theorem site_leave {stack : ModeStack} {mode : Mode} {returns : List Mode}
    (h : stack.returns = mode :: returns) (hm : mode.isVerbatim = false) :
    stack.leave.site = mode.name.site := by
  obtain ⟨hactive, -⟩ := ModeStack.leave_of_cons h
  rw [ModeStack.site_of_plain (by rw [hactive]; exact hm), hactive]

theorem moves_markup (sight : Sight) (lexeme : Lexeme) (text : Bytes) (count : Nat)
    (left : List Mode) :
    Moves (Markup.read sight lexeme text).1 .outside
      ((⟨.markup, [], count, left⟩ : ModeStack).apply (Markup.read sight lexeme text).2).site := by
  have hend : (Markup.endToken text).nests = false ∨
      (Markup.endToken text).closesMarkup = true := by
    unfold Markup.endToken
    dsimp only
    split_ifs
    · exact Or.inl rfl
    · exact Or.inr rfl
  unfold Markup.read
  split
  · exact .plain rfl
  · exact .plain rfl
  · exact hend.elim .plain .closes
  · exact hend.elim .plain .closes
  · exact .opens rfl

/-- Behind its opening tag, an element holds code or markup. -/
theorem moves_content (o : OpenTag) {t : Token} (ht : t.nests = false) (mode : Mode) (count : Nat)
    (left : List Mode) :
    Moves t (.inTag o.name)
      ((⟨mode, [.markup], count, left⟩ : ModeStack).apply o.content).site := by
  have hleave : (⟨mode, [.markup], count, left⟩ : ModeStack).leave.site =
      Mode.markup.name.site := site_leave rfl rfl
  unfold OpenTag.content
  split_ifs with hstyle hscript htemplate
  · rw [beq_iff_eq] at hstyle
    rw [hstyle]
    exact .entersCode ht
  · rw [ModeStack.apply, hleave]
    exact .leavesTag ht
  · rw [beq_iff_eq] at hscript
    rw [hscript]
    exact .entersCode ht
  · rw [ModeStack.apply, hleave]
    exact .leavesTag ht

theorem moves_tag (sight : Sight) (o : OpenTag) (lexeme : Lexeme) (text : Bytes) (count : Nat)
    (left : List Mode) :
    Moves (o.read sight lexeme text).1 (.inTag o.name)
      ((⟨.tag o, [.markup], count, left⟩ : ModeStack).apply (o.read sight lexeme text).2).site := by
  have hleave : (⟨.tag o, [.markup], count, left⟩ : ModeStack).leave.site =
      Mode.markup.name.site := site_leave rfl rfl
  unfold OpenTag.read
  split
  · rw [ModeStack.apply, hleave]
    exact .closesTag rfl
  · unfold OpenTag.finish
    split
    · rw [ModeStack.apply, hleave]
      exact .closesTag rfl
    · split
      · exact .closesTag rfl
      · apply moves_content { o with source := o.source ++ text }
        split_ifs <;> rfl
  · exact .plain (Mode.nests_settle sight (.tag o) _)

theorem moves_code {mode : Mode} {element : Bytes} (hplain : mode.isVerbatim = false)
    (hsite : mode.name.site = .inCode element) {t : Token} {move : Move} (h : CodeMove mode.name t move)
    (count : Nat) (left : List Mode) :
    Moves t (.inCode element)
      ((⟨mode, [.markup], count, left⟩ : ModeStack).apply move).site := by
  cases h with
  | closes ht =>
    have hleave : (⟨mode, [.markup], count, left⟩ : ModeStack).leave.site =
        Mode.markup.name.site := site_leave rfl rfl
    rw [ModeStack.apply, hleave]
    exact .closesCode ht
  | @keep self hname ht =>
    have hstay : ((⟨mode, [.markup], count, left⟩ : ModeStack).setActive self).site =
        .inCode element := by
      rw [ModeStack.site_setActive hname, ModeStack.site_of_plain hplain]
      exact hsite
    rw [ModeStack.apply, hstay]
    exact ht.elim .plain .code
  | region hname ht =>
    rw [ModeStack.site_enter, hname, hsite]
    exact .plain ht

/-- A lexeme that is no template syntax lies where it can lie. -/
theorem moves_read {modes : ModeStack} (h : modes.Formed .markup) (sight : Sight)
    (lexeme : Lexeme) (text : Bytes) :
    Moves (modes.active.read sight lexeme text).1 modes.site
      (modes.apply (modes.active.read sight lexeme text).2).site := by
  obtain ⟨active, returns, count, left⟩ := modes
  cases h with
  | outer hs hname =>
    cases active with
    | markup => exact moves_markup sight lexeme text count left
    | _ => exact absurd hname (by simp [Mode.name])
  | inner hs hname =>
    cases active with
    | tag o => exact moves_tag sight o lexeme text count left
    | endTag =>
      have hleave : (⟨.endTag, [.markup], count, left⟩ : ModeStack).leave.site =
          Mode.markup.name.site := site_leave rfl rfl
      change Moves (.plain text .markup) .outside (ModeStack.leave _).site
      rw [hleave]
      exact .plain rfl
    | style s =>
      have hmove : CodeMove (Mode.style s).name _ _ := s.codeMove_read sight lexeme text
      exact moves_code rfl rfl hmove count left
    | script s =>
      have hmove : CodeMove (Mode.script s).name _ _ := s.codeMove_read sight lexeme text
      exact moves_code rfl rfl hmove count left
    | _ => exact absurd hname (by simp [Mode.name, ModeName.isInner])
  | @region mode returns r h hholds =>
    have hmode : mode.isVerbatim = false := by
      cases mode with
      | verbatim r' => exact absurd hholds (by simp [Mode.name, ModeName.holdsRegions])
      | _ => rfl
    have hleave : (⟨.verbatim r, mode :: returns, count, left⟩ : ModeStack).leave.site =
        mode.name.site := site_leave rfl hmode
    change Moves (.verbatim text) mode.name.site
      ((⟨.verbatim r, mode :: returns, count, left⟩ : ModeStack).apply
        (if lexeme = .escape then .keep (.verbatim r) else .leave)).site
    split_ifs
    · exact .plain rfl
    · rw [ModeStack.apply, hleave]
      exact .plain rfl

theorem moves_template {mode : Mode} {t : Token} (h : t.kind = .template) (modes : ModeStack)
    (hv : modes.active.isVerbatim = false) (hname : mode.name = modes.active.name)
    (region? : Option Region) :
    Moves t modes.site (modes.apply (match region? with
      | some region => .enter mode (.verbatim region)
      | none => .keep mode)).site := by
  have hsite : (modes.apply (match region? with
      | some region => .enter mode (.verbatim region)
      | none => .keep mode)).site = modes.site := by
    cases region? with
    | some region =>
      rw [ModeStack.site_enter, hname, ModeStack.site_of_plain hv]
    | none => exact ModeStack.site_setActive hname
  rw [hsite]
  exact .template h

theorem moves_readLexeme (h : state.modes.Formed .markup) (sight : Sight) {lexeme : Lexeme}
    (hl : lexeme ∈ (state.modes.active.rules state.modes.embedded).map Prod.fst) (text : Bytes) :
    Moves (readLexeme settings [] state sight lexeme text).1 state.modes.site
      (readLexeme settings [] state sight lexeme text).2.modes.site := by
  unfold readLexeme
  dsimp only
  split_ifs with ht
  · have hkind := Mode.kind_settle sight state.modes.active
      (Template.read settings.blocks state.memory lexeme text (sight.rest ++ [])).1
    rw [Template.kind_read] at hkind
    exact moves_template hkind state.modes (isVerbatim_of_isTemplate hl ht)
      (Mode.name_settle _ _ _) _
  · exact moves_read h sight lexeme text

/-- Along a run from markup, every token lies where it can lie. -/
theorem trace_fits (h : state.modes.Formed .markup) (line : Line) (rest : Bytes) :
    Trace Reading.Fits state.modes (Whole.events settings state line rest) := by
  refine Whole.trace_events (fun modes sight text number _ => ?_)
    (fun state sight lexeme b text number hf hl hb => ?_) h line rest
  · have hsite := ModeStack.site_setActive (Mode.name_readText sight modes.active text)
    refine ⟨?_, fun _ => hsite⟩
    dsimp only
    rw [hsite]
    exact .plain (Mode.nests_readText sight modes.active text)
  · constructor
    · have hmoves := @moves_readLexeme settings state hf sight lexeme hl (b :: text)
      exact hmoves.numbered number
    · intro hblank
      have htext := text_readLexeme settings [] state sight lexeme (b :: text)
      have hall : allBlank (b :: text) = true := by
        rw [← htext]
        exact hblank
      exact absurd ((isInert_of_allBlank hall List.mem_cons_self).symm.trans hb) (by simp)

end Scan
end Reindent
