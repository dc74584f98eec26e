import Mathlib.Data.List.Forall2
import Reindent.Proofs.Embedding.Closers
import Reindent.Proofs.Respacing.Lexemes
import Reindent.Proofs.Scan.Modes

/-! Reading a document inside another: with modes below those of the document, from a later line on,
and with a last line behind it. -/
namespace Reindent
open Bytes Pattern Lookahead

def Line.renumber (number : Int64) (l : Line) : Line :=
  { l with number, tokens := l.tokens.map (.numbered number) }

namespace Line
variable (number : Int64) (l : Line)

@[simp] theorem isBlank_renumber : (l.renumber number).isBlank = l.isBlank := by
  unfold isBlank renumber
  rw [List.all_map]
  rfl

@[simp] theorem raw_renumber : (l.renumber number).raw = l.raw := by
  unfold raw renumber
  rw [List.flatMap_map]
  rfl

@[simp] theorem column_renumber : (l.renumber number).column = l.column := by
  unfold column
  rw [raw_renumber]

theorem renumber_append (t : Token) :
    (l.append t).renumber number = (l.renumber number).append t := by
  simp [renumber, append, Token.numbered]

end Line

def Sight.renumber (number : Int64) (sight : Sight) : Sight :=
  { sight with line := sight.line.renumber number }

section Sights
variable (number : Int64) (sight : Sight)

@[simp] theorem Sight.tabWidth_renumber : (sight.renumber number).tabWidth = sight.tabWidth := rfl

@[simp] theorem Sight.atStart_renumber : (sight.renumber number).atStart = sight.atStart :=
  sight.line.isBlank_renumber number

@[simp] theorem Sight.leads_renumber (t : Token) :
    (sight.renumber number).leads t = sight.leads t := by
  rw [leads, leads, atStart_renumber]

theorem OpenTag.settle_renumber (o : OpenTag) (t : Token) :
    o.settle (sight.renumber number) t = o.settle sight t := by
  unfold settle
  rw [Sight.leads_renumber]

theorem StyleState.settle_renumber (s : StyleState) (t : Token) :
    s.settle (sight.renumber number) t = s.settle sight t := by
  unfold settle
  rw [Sight.leads_renumber]
  rfl

theorem ScriptState.settle_renumber (s : ScriptState) (t : Token) :
    s.settle (sight.renumber number) t = s.settle sight t := by
  unfold settle
  rw [Sight.leads_renumber]

namespace Mode

theorem settle_renumber (mode : Mode) (t : Token) :
    mode.settle (sight.renumber number) t = mode.settle sight t := by
  cases mode with
  | tag o => simp only [settle, o.settle_renumber]
  | style s => simp only [settle, s.settle_renumber]
  | script s => simp only [settle, s.settle_renumber]
  | _ => rfl

theorem readText_renumber (mode : Mode) (text : Bytes) :
    mode.readText (sight.renumber number) text = mode.readText sight text := by
  unfold readText
  rw [settle_renumber]

theorem read_renumber (mode : Mode) (lexeme : Lexeme) (text : Bytes) :
    mode.read (sight.renumber number) lexeme text = mode.read sight lexeme text := by
  cases mode with
  | markup =>
    have htag : Markup.openTag (sight.renumber number) text = Markup.openTag sight text := by
      unfold Markup.openTag Sight.renumber
      dsimp only
      rw [Line.column_renumber]
    cases lexeme <;> simp only [read, Markup.read, htag]
  | tag o =>
    have hfinish : o.finish (sight.renumber number) text = o.finish sight text := by
      unfold OpenTag.finish
      rw [Sight.atStart_renumber]
      rfl
    cases lexeme <;> simp only [read, OpenTag.read, hfinish, o.settle_renumber]
  | style s => cases lexeme <;> simp only [read, StyleState.read, s.settle_renumber]
  | script s =>
    cases lexeme <;>
      simp only [read, ScriptState.read, ScriptState.dot, ScriptState.openBracket,
        ScriptState.closeBracket, ScriptState.settle_renumber, Sight.atStart_renumber,
        Sight.tabWidth_renumber]
  | _ => rfl

end Mode

end Sights

namespace ModeStack
variable {stack : ModeStack} {base : List Mode}

/-- The stack with more modes below it. -/
def above (base : List Mode) (stack : ModeStack) : ModeStack :=
  { stack with returns := stack.returns ++ base }

@[simp] theorem active_above : (stack.above base).active = stack.active := rfl

/-- The run started in a single mode, which was not left. -/
def Fresh (stack : ModeStack) : Prop := stack.start = 1 ∧ stack.left = []

/-- Moves do not reach the modes below, as long as the outermost mode is not left. -/
theorem apply_above {move : Move} (hfresh : stack.Fresh)
    (hleave : move = .leave → stack.returns ≠ []) :
    (stack.above base).apply move = (stack.apply move).above base ∧ (stack.apply move).Fresh := by
  cases move with
  | keep self => exact ⟨rfl, hfresh⟩
  | enter self inner => exact ⟨rfl, hfresh⟩
  | leave =>
    obtain ⟨active, returns, count, left⟩ := stack
    cases returns with
    | nil => exact absurd rfl (hleave rfl)
    | cons mode returns =>
      have hstart : count = 1 := hfresh.1
      have hleft : ∀ rest, leave ⟨active, mode :: rest, count, left⟩ = ⟨mode, rest, count, left⟩ :=
        fun rest => if_neg (by dsimp only; omega)
      change leave ⟨active, mode :: (returns ++ base), count, left⟩ =
        above base (leave ⟨active, mode :: returns, count, left⟩) ∧
          (leave ⟨active, mode :: returns, count, left⟩).Fresh
      rw [hleft, hleft]
      exact ⟨rfl, hfresh⟩

end ModeStack

theorem Template.word_of_opens? {blocks : Blocks} {tag name : Bytes}
    (h : opens? blocks tag = some name) : name ≠ [] ∧ ∀ b ∈ name, isWord b = true := by
  unfold opens? at h
  obtain ⟨hname, -⟩ := Option.filter_eq_some_iff.1 h
  unfold tagName? at hname
  obtain ⟨inner, -, hname⟩ := Option.bind_eq_some_iff.1 hname
  dsimp only at hname
  split_ifs at hname with hempty
  obtain rfl := Option.some.inj hname
  exact ⟨by simpa using hempty, List.all_eq_true.1 List.all_takeWhile⟩

namespace Scan

def State.above (base : List Mode) (memory : Lookahead) (state : State) : State :=
  ⟨state.modes.above base, memory⟩

/-- What comes behind a document has no part in the search for end tags. -/
def Unnoticed (blocks : Blocks) (tail : Bytes) : Prop :=
  ∀ tag name ahead, Template.opens? blocks tag = some name →
    (findEndTag blocks name (ahead ++ tail)).isSome = (findEndTag blocks name ahead).isSome

/-- A state of a run over a document, and the memory of a run over the document inside another. -/
structure Inside (start : ModeName) (blocks : Blocks) (document₁ document₂ : Bytes) (state : State)
    (memory : Lookahead) : Prop where
  formed : state.modes.Formed start
  fresh : state.modes.Fresh
  sound₁ : Sound blocks document₁ state.memory
  sound₂ : Sound blocks document₂ memory

/-- Either no modes are below, or no closing tag starts in the text. -/
def Clear (base : List Mode) (text : Bytes) : Prop := base = [] ∨ ¬ ascii "</" <:+: text

theorem Clear.of_infix {base : List Mode} {text part : Bytes} (h : Clear base text)
    (hp : part <:+: text) : Clear base part :=
  h.imp_right fun hno hin => hno (hin.trans hp)

section Above
variable {settings : Settings} {below tail : Bytes} {state state' : State} {memory : Lookahead}
  {line line' : Line} {rest rest' : Bytes} {base : List Mode} {start : ModeName}
  {document₁ document₂ : Bytes} (number : Int64)

theorem search_above (h : Clear base rest) :
    search ((state.above base memory).modes.active.rules (state.above base memory).modes.embedded)
        none rest =
      search (state.modes.active.rules state.modes.embedded) none rest := by
  rcases h with rfl | hno
  · have hmodes : (state.above [] memory).modes = state.modes := by
      simp [State.above, ModeStack.above]
    rw [hmodes]
  · rw [Mode.search_rules hno, Mode.search_rules hno state.modes.active]
    rfl

theorem extent_above {text : Bytes} (h : Clear base text) (lexeme : Lexeme) :
    (state.above base memory).modes.active.extent (state.above base memory).modes.embedded lexeme
        text =
      state.modes.active.extent state.modes.embedded lexeme text := by
  rcases h with rfl | hno
  · have hmodes : (state.above [] memory).modes = state.modes := by
      simp [State.above, ModeStack.above]
    rw [hmodes]
  · rw [Mode.extent_of_not_infix hno, Mode.extent_of_not_infix hno]

theorem readGap_above (text more : Bytes) :
    readGap settings (state.above base memory) (line.renumber number) text more =
      ((readGap settings state line text more).1.renumber number,
        (readGap settings state line text more).2.above base memory) := by
  unfold readGap
  split_ifs
  · rfl
  · have hread := Mode.readText_renumber number ⟨settings.tabWidth, line, more⟩
      state.modes.active text
    dsimp only
    rw [Line.renumber_append, ← hread]
    rfl

theorem inside_readGap (h : Inside start settings.blocks document₁ document₂ state memory)
    (text more : Bytes) :
    Inside start settings.blocks document₁ document₂ (readGap settings state line text more).2
      memory := by
  refine ⟨formed_readGap h.formed text more, ?_, ?_, h.sound₂⟩
  · unfold readGap
    split_ifs
    · exact h.fresh
    · exact h.fresh
  · rw [memory_readGap]
    exact h.sound₁

variable (hsettings : Unnoticed settings.blocks tail)
include hsettings

theorem readLexeme_above (h : Inside start settings.blocks document₁ document₂ state memory)
    {lexeme : Lexeme}
    (hl : lexeme ∈ (state.modes.active.rules state.modes.embedded).map Prod.fst)
    (hahead₁ : rest ++ below <:+ document₁) (hahead₂ : rest ++ (below ++ tail) <:+ document₂)
    (text : Bytes) :
    let read := readLexeme settings below state ⟨settings.tabWidth, line, rest⟩ lexeme text
    ∃ memory', readLexeme settings (below ++ tail) (state.above base memory)
        ⟨settings.tabWidth, line.renumber number, rest⟩ lexeme text =
      (read.1, read.2.above base memory') ∧
      Inside start settings.blocks document₁ document₂ read.2 memory' := by
  have hformed : (readLexeme settings below state ⟨settings.tabWidth, line, rest⟩ lexeme
      text).2.modes.Formed start := formed_readLexeme h.formed hl _ _
  have hsight : (⟨settings.tabWidth, line.renumber number, rest⟩ : Sight) =
      Sight.renumber number ⟨settings.tabWidth, line, rest⟩ := rfl
  have hmove : ∀ {move : Move}, (move = .leave → state.modes.returns ≠ []) →
      (state.modes.above base).apply move = (state.modes.apply move).above base ∧
        (state.modes.apply move).Fresh := fun hleave => ModeStack.apply_above h.fresh hleave
  dsimp only
  unfold readLexeme State.above at *
  by_cases ht : lexeme.isTemplate = true
  · obtain ⟨htoken₁, hregion₁, hsound₁⟩ := Template.read_of_sound h.sound₁ hahead₁ lexeme text
    obtain ⟨htoken₂, hregion₂, hsound₂⟩ := Template.read_of_sound h.sound₂ hahead₂ lexeme text
    have hends : lexeme = .templateBlock → ∀ name, Template.opens? settings.blocks text = some name →
        (findEndTag settings.blocks name (rest ++ (below ++ tail))).isSome =
          (findEndTag settings.blocks name (rest ++ below)).isSome := by
      intro _ name hname
      rw [← List.append_assoc]
      exact hsettings text name (rest ++ below) hname
    obtain ⟨htoken, hregion⟩ := Template.read_congr hends
    rw [← htoken₁, ← htoken₂] at htoken
    rw [← hregion₁, ← hregion₂] at hregion
    clear htoken₁ htoken₂ hregion₁ hregion₂
    simp only [if_pos ht] at hformed ⊢
    generalize Template.read settings.blocks state.memory lexeme text (rest ++ below) = read₁ at *
    generalize Template.read settings.blocks memory lexeme text (rest ++ (below ++ tail)) = read₂
      at *
    obtain ⟨t, region, memory₁⟩ := read₁
    obtain ⟨t₂, region₂, memory₂⟩ := read₂
    dsimp only at htoken hregion hsound₁ hsound₂ hformed ⊢
    subst htoken hregion
    rw [hsight, ModeStack.active_above, Mode.settle_renumber]
    -- a tag stays in its mode or enters a region
    cases region₂ with
    | none =>
      obtain ⟨happly, hfresh⟩ := @hmove (.keep _) (by simp)
      exact ⟨memory₂, by rw [happly], hformed, hfresh, hsound₁, hsound₂⟩
    | some region =>
      obtain ⟨happly, hfresh⟩ := @hmove (.enter _ (.verbatim region)) (by simp)
      exact ⟨memory₂, by rw [happly], hformed, hfresh, hsound₁, hsound₂⟩
  · rw [if_neg ht] at hformed ⊢
    rw [if_neg ht, hsight, ModeStack.active_above, Mode.read_renumber]
    have hleave : (state.modes.active.read ⟨settings.tabWidth, line, rest⟩ lexeme text).2 = .leave →
        state.modes.returns ≠ [] := by
      intro hm
      apply h.formed.returns_ne_nil
      rw [← hm]
      exact Mode.makes_read hl _ _
    obtain ⟨happly, hfresh⟩ := hmove hleave
    dsimp only at hformed ⊢
    rw [happly]
    exact ⟨memory, rfl, hformed, hfresh, h.sound₁, h.sound₂⟩

omit hsettings in
theorem finished_above (h : Inside start settings.blocks document₁ document₂ state memory)
    (hclear : Clear base rest)
    (hs : step settings below state line rest = .finished state' line') :
    step settings (below ++ tail) (state.above base memory) (line.renumber number) rest =
        .finished (state'.above base memory) (line'.renumber number) ∧
      Inside start settings.blocks document₁ document₂ state' memory := by
  cases hsearch : search (state.modes.active.rules state.modes.embedded) none rest with
  | none =>
    have hsearch' := @search_above state memory rest base hclear
    rw [hsearch] at hsearch'
    rw [step_of_none hsearch] at hs
    obtain ⟨rfl, rfl⟩ := Step.finished.inj hs
    rw [step_of_none hsearch', readGap_above]
    exact ⟨rfl, inside_readGap h rest []⟩
  | some hit =>
    rw [step_of_some hsearch] at hs
    dsimp only at hs
    split at hs
    · exact absurd hs (by simp)
    · exact absurd hs (by simp)

theorem next_above (h : Inside start settings.blocks document₁ document₂ state memory)
    (hclear : Clear base rest) (hahead₁ : rest ++ below <:+ document₁)
    (hahead₂ : rest ++ (below ++ tail) <:+ document₂)
    (hs : step settings below state line rest = .next state' line' rest') :
    ∃ memory', step settings (below ++ tail) (state.above base memory) (line.renumber number) rest =
        .next (state'.above base memory') (line'.renumber number) rest' ∧
      Inside start settings.blocks document₁ document₂ state' memory' := by
  cases hsearch : search (state.modes.active.rules state.modes.embedded) none rest with
  | none =>
    rw [step_of_none hsearch] at hs
    exact absurd hs (by simp)
  | some hit =>
    have hsearch' := @search_above state memory rest base hclear
    rw [hsearch] at hsearch'
    obtain ⟨-, hsplit⟩ := search_split hsearch
    have hmem := label_mem_readGap hsearch settings line (hit.matched ++ hit.rest)
    have hgap := @inside_readGap settings state memory line start document₁ document₂ h hit.skipped
      (hit.matched ++ hit.rest)
    have hmatched : Clear base hit.matched := by
      apply hclear.of_infix
      rw [← hsplit]
      exact ⟨hit.skipped, hit.rest, rfl⟩
    rw [step_of_some hsearch] at hs
    rw [step_of_some hsearch', readGap_above]
    generalize readGap settings state line hit.skipped (hit.matched ++ hit.rest) = gap at *
    obtain ⟨line₁, state₁⟩ := gap
    dsimp only at hmem hgap hs ⊢
    rw [extent_above hmatched]
    split at hs
    · exact absurd hs (by simp)
    · next n he =>
      obtain ⟨rfl, rfl, rfl⟩ := Step.next.inj hs
      obtain ⟨memory', hread, hinside⟩ := @readLexeme_above settings below tail state₁ memory line₁ _
        base start document₁ document₂ number hsettings hgap _ hmem
        (suffix_of_split hsplit hahead₁ n) (suffix_of_split hsplit hahead₂ n) (hit.matched.take n)
      rw [hread, Line.renumber_append]
      exact ⟨memory', rfl, hinside⟩

/-- A line that can be read is read alike inside another document. -/
theorem readLine_above (h : Inside start settings.blocks document₁ document₂ state memory)
    (hclear : Clear base rest) (hahead₁ : rest ++ below <:+ document₁)
    (hahead₂ : rest ++ (below ++ tail) <:+ document₂)
    (hread : readLine settings below state line rest = (state', .ok line')) :
    ∃ memory', readLine settings (below ++ tail) (state.above base memory) (line.renumber number)
        rest = (state'.above base memory', .ok (line'.renumber number)) ∧
      Inside start settings.blocks document₁ document₂ state' memory' := by
  induction hn : rest.length using Nat.strongRecOn generalizing state line rest memory with
  | _ n ih =>
    cases hs : step settings below state line rest with
    | finished state₁ line₁ =>
      rw [readLine_of_finished hs] at hread
      obtain ⟨rfl, hl⟩ := Prod.mk.inj hread
      obtain rfl := Except.ok.inj hl
      obtain ⟨hstep, hinside⟩ := finished_above number h hclear hs
      exact ⟨memory, readLine_of_finished hstep, hinside⟩
    | failed state₁ overrun =>
      rw [readLine_of_failed hs] at hread
      exact absurd (Prod.mk.inj hread).2 (by simp)
    | next state₁ line₁ rest₁ =>
      rw [readLine_of_next hs] at hread
      obtain ⟨memory₁, hstep, hinside⟩ := next_above number hsettings h hclear hahead₁ hahead₂ hs
      rw [readLine_of_next hstep]
      have hlt := length_lt_of_step hs
      obtain ⟨w, -, rfl⟩ := step_grows hs
      have hrest : rest₁ <:+ w ++ rest₁ := List.suffix_append w rest₁
      rw [List.append_assoc] at hahead₁ hahead₂
      exact ih rest₁.length (by omega) hinside (hclear.of_infix hrest.isInfix)
        ((List.suffix_append w _).trans hahead₁) ((List.suffix_append w _).trans hahead₂) hread rfl

end Above

/-- The lines of a document that can be read are read alike in front of a last line that can be read,
but for their numbers. -/
theorem readLines_above {settings : Settings} {base : List Mode} {start : ModeName}
    {document₁ document₂ source last : Bytes} {state state' : State} {memory : Lookahead}
    {number : Int64} (number₂ : Int64) {lines : List Line} {close : Token}
    (hsettings : Unnoticed settings.blocks (newline :: last)) (hlast : newline ∉ last)
    (h : Inside start settings.blocks document₁ document₂ state memory)
    (hclear : Clear base source) (hahead₁ : source <:+ document₁)
    (hahead₂ : source ++ newline :: last <:+ document₂)
    (hread : readLines settings state number (linesBelow source) = (state', .ok lines))
    (hend : ∀ memory number, Inside start settings.blocks document₁ document₂ state' memory →
      ∃ final, readLine settings [] (state'.above base memory) { number } last =
        (final, .ok (Line.append { number } close))) :
    ∃ final lines₂ n, readLines settings (state.above base memory) number₂
        (linesBelow (source ++ newline :: last)) =
          (final, .ok (lines₂ ++ [Line.append { number := n } close])) ∧
      List.Forall₂ (fun l l₂ => ∃ n, l₂ = l.renumber n) lines lines₂ := by
  induction source using lines_induction generalizing state memory number number₂ lines with
  | single l hl =>
    rw [linesBelow_of_notMem hl, readLines_cons] at hread
    split at hread
    · exact absurd (Prod.mk.inj hread).2 (by simp)
    · next state₁ line hline =>
      dsimp only [readLines, readLinesWith] at hread
      obtain ⟨rfl, hlines⟩ := Prod.mk.inj hread
      obtain rfl := Except.ok.inj hlines
      obtain ⟨memory₁, hline₂, hinside⟩ := readLine_above number₂ hsettings h hclear
        (by simpa using hahead₁) (by simpa using hahead₂) hline
      obtain ⟨final, hfinal⟩ := hend memory₁ (number₂ + 1) hinside
      refine ⟨final, [line.renumber number₂], number₂ + 1, ?_, ?_⟩
      · rw [linesBelow_append_newline hl, linesBelow_of_notMem hlast, readLines_cons]
        change readLine settings (newline :: last) (state.above base memory) { number := number₂ } l =
          _ at hline₂
        rw [hline₂]
        dsimp only
        rw [readLines_cons, hfinal]
        rfl
      · exact .cons ⟨number₂, rfl⟩ .nil
  | more l rest hl ih =>
    rw [linesBelow_append_newline hl, readLines_cons] at hread
    split at hread
    · exact absurd (Prod.mk.inj hread).2 (by simp)
    · next state₁ line hline =>
      split at hread
      · exact absurd (Prod.mk.inj hread).2 (by simp)
      · next state₂ rest₂ hrest =>
        obtain ⟨rfl, hlines⟩ := Prod.mk.inj hread
        obtain rfl := Except.ok.inj hlines
        have hrest₁ : rest <:+ l ++ newline :: rest := ⟨l ++ [newline], by simp⟩
        have hrest₂ : rest ++ newline :: last <:+ l ++ newline :: rest ++ newline :: last :=
          ⟨l ++ [newline], by simp⟩
        obtain ⟨memory₁, hline₂, hinside⟩ := readLine_above number₂ hsettings h
          (hclear.of_infix (List.prefix_append l _).isInfix) hahead₁ (by simpa using hahead₂) hline
        obtain ⟨final, lines₂, n, hlines₂, hall⟩ := ih (number₂ + 1) hinside
          (hclear.of_infix hrest₁.isInfix) (hrest₁.trans hahead₁) (hrest₂.trans hahead₂) hrest
        refine ⟨final, line.renumber number₂ :: lines₂, n, ?_, ?_⟩
        · rw [List.append_assoc, List.cons_append, linesBelow_append_newline hl, readLines_cons]
          change readLine settings (newline :: (rest ++ newline :: last)) (state.above base memory)
            { number := number₂ } l = _ at hline₂
          rw [hline₂]
          dsimp only
          rw [hlines₂]
          rfl
        · exact .cons ⟨number₂, rfl⟩ hall

end Scan

end Reindent
