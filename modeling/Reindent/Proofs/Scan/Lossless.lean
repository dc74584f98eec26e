import Reindent.Proofs.Lines

/-! Reading keeps every byte: tokens hold the text they were made of, in order. -/
namespace Reindent

namespace Template

@[simp] theorem text_readBlock (blocks : Blocks) (memory : Lookahead) (tag ahead : Bytes) :
    (readBlock blocks memory tag ahead).1.text = tag := by
  unfold readBlock
  split
  · rfl
  · split
    · rfl
    · split_ifs
      · rfl
      · rfl
      · dsimp only
        split_ifs <;> rfl
      · rfl

@[simp] theorem text_read (blocks : Blocks) (memory : Lookahead) (lexeme : Lexeme)
    (text ahead : Bytes) : (read blocks memory lexeme text ahead).1.text = text := by
  unfold read
  split
  · exact text_readBlock blocks memory text ahead
  · rfl
  · rfl
  · rfl

end Template

namespace OpenTag

@[simp] theorem text_settle (sight : Sight) (tag : OpenTag) (t : Token) :
    (settle sight tag t).1.text = t.text := by
  unfold settle
  dsimp only
  split_ifs <;> rfl

@[simp] theorem text_finish (sight : Sight) (tag : OpenTag) (text : Bytes) :
    (finish sight tag text).1.text = text := by
  unfold finish
  split
  · rfl
  · split
    · rfl
    · dsimp only
      split <;> rfl

@[simp] theorem text_read (sight : Sight) (tag : OpenTag) (lexeme : Lexeme) (text : Bytes) :
    (read sight tag lexeme text).1.text = text := by
  unfold read
  split
  · rfl
  · exact text_finish sight tag text
  · exact text_settle sight tag _

end OpenTag

namespace Markup

@[simp] theorem text_endToken (text : Bytes) : (endToken text).text = text := by
  unfold endToken
  dsimp only
  split_ifs <;> rfl

@[simp] theorem text_read (sight : Sight) (lexeme : Lexeme) (text : Bytes) :
    (read sight lexeme text).1.text = text := by
  unfold read
  split
  · rfl
  · rfl
  · exact text_endToken text
  · exact text_endToken text
  · rfl

end Markup

namespace StyleState

@[simp] theorem text_settle (sight : Sight) (s : StyleState) (t : Token) :
    (s.settle sight t).text = t.text := by
  unfold settle
  split_ifs <;> rfl

@[simp] theorem text_read (sight : Sight) (s : StyleState) (lexeme : Lexeme) (text : Bytes) :
    (s.read sight lexeme text).1.text = text := by
  unfold read
  dsimp only
  split <;> simp [Token.plain, Token.opening, Token.closing]

end StyleState

namespace ScriptState

@[simp] theorem text_settle (sight : Sight) (s : ScriptState) (t : Token) :
    (s.settle sight t).1.text = t.text := by
  unfold settle
  split_ifs <;> rfl

@[simp] theorem text_label (s : ScriptState) (text : Bytes) : (s.label text).1.text = text := by
  unfold label
  split
  · split_ifs <;> rfl
  · rfl

@[simp] theorem text_dot (sight : Sight) (s : ScriptState) (text : Bytes) :
    (s.dot sight text).1.text = text := by
  unfold dot
  dsimp only
  split_ifs <;> rfl

@[simp] theorem text_openBracket (sight : Sight) (s : ScriptState) (text : Bytes) :
    (s.openBracket sight text).1.text = text := by
  have h := text_settle sight s (.opening text .script)
  unfold openBracket
  dsimp only
  split_ifs
  · exact h
  · exact h

@[simp] theorem text_closeBracket (sight : Sight) (s : ScriptState) (text : Bytes) :
    (s.closeBracket sight text).1.text = text := by
  unfold closeBracket
  split
  · rfl
  · dsimp only
    split_ifs <;> rfl

@[simp] theorem text_read (sight : Sight) (s : ScriptState) (lexeme : Lexeme) (text : Bytes) :
    (s.read sight lexeme text).1.text = text := by
  unfold read
  dsimp only
  split
  · split_ifs
    · exact text_settle sight s _
    · exact text_settle sight s _
  · exact text_settle sight s _
  · exact text_settle sight s _
  · rfl
  · exact text_settle sight _ _
  · exact (text_settle sight _ _).trans (text_label s text)
  · exact text_dot sight s text
  · exact text_openBracket sight s text
  · exact text_closeBracket sight s text
  · exact text_settle sight s _

end ScriptState

namespace Mode

@[simp] theorem text_settle (sight : Sight) (mode : Mode) (t : Token) :
    (mode.settle sight t).1.text = t.text := by
  unfold settle
  split
  · exact OpenTag.text_settle sight _ t
  · exact StyleState.text_settle sight _ t
  · exact ScriptState.text_settle sight _ t
  · rfl

@[simp] theorem text_readText (sight : Sight) (mode : Mode) (text : Bytes) :
    (mode.readText sight text).1.text = text := by
  unfold readText
  split
  · rfl
  · exact text_settle sight _ _

@[simp] theorem text_read (sight : Sight) (mode : Mode) (lexeme : Lexeme) (text : Bytes) :
    (mode.read sight lexeme text).1.text = text := by
  unfold read
  split
  · rfl
  · exact Markup.text_read sight lexeme text
  · exact OpenTag.text_read sight _ lexeme text
  · rfl
  · exact StyleState.text_read sight _ lexeme text
  · exact ScriptState.text_read sight _ lexeme text
  · rfl

end Mode

namespace Line

@[simp] theorem raw_append (l : Line) (t : Token) : (l.append t).raw = l.raw ++ t.text := by
  unfold raw append
  rw [List.flatMap_append]
  simp

@[simp] theorem number_append (l : Line) (t : Token) : (l.append t).number = l.number := rfl

/-- Every token has a text and knows its line. -/
def Labelled (l : Line) : Prop := ∀ t ∈ l.tokens, t.text ≠ [] ∧ t.line = l.number

theorem Labelled.append {l : Line} {t : Token} (h : l.Labelled) (ht : t.text ≠ []) :
    (l.append t).Labelled := by
  intro x hx
  rcases List.mem_append.1 hx with hx | hx
  · exact h x hx
  · obtain rfl := List.mem_singleton.1 hx
    exact ⟨ht, rfl⟩

end Line

namespace Scan

@[simp] theorem text_readLexeme (settings : Settings) (below : Bytes) (state : State)
    (sight : Sight) (lexeme : Lexeme) (text : Bytes) :
    (readLexeme settings below state sight lexeme text).1.text = text := by
  unfold readLexeme
  dsimp only
  split_ifs
  · exact (Mode.text_settle _ _ _).trans (Template.text_read _ _ _ _ _)
  · exact Mode.text_read _ _ _ _

/-- A line grows by what is read of it: nothing is lost, and its tokens stay labelled. -/
structure Grows (line line' : Line) (text : Bytes) : Prop where
  raw : line'.raw = line.raw ++ text
  number : line'.number = line.number
  labelled : line.Labelled → line'.Labelled

namespace Grows

theorem refl (line : Line) : Grows line line [] := ⟨(List.append_nil _).symm, rfl, id⟩

theorem trans {a b c : Line} {v w : Bytes} (h₁ : Grows a b v) (h₂ : Grows b c w) :
    Grows a c (v ++ w) where
  raw := by rw [h₂.raw, h₁.raw, List.append_assoc]
  number := h₂.number.trans h₁.number
  labelled := h₂.labelled ∘ h₁.labelled

theorem append (line : Line) {t : Token} (h : t.text ≠ []) :
    Grows line (line.append t) t.text :=
  ⟨line.raw_append t, rfl, fun hl => hl.append h⟩

end Grows

theorem readGap_grows (settings : Settings) (state : State) (line : Line) (text rest : Bytes) :
    Grows line (readGap settings state line text rest).1 text := by
  unfold readGap
  split_ifs with h
  · rw [List.isEmpty_iff.1 h]
    exact .refl line
  · have ht := Mode.text_readText ⟨settings.tabWidth, line, rest⟩ state.modes.active text
    have hg := Grows.append line
      (t := (state.modes.active.readText ⟨settings.tabWidth, line, rest⟩ text).1)
      (by rw [ht]; simpa using h)
    rw [ht] at hg
    exact hg

/-- One step moves text from the rest of the line into its tokens. -/
theorem step_grows {settings : Settings} {below : Bytes} {state state' : State}
    {line line' : Line} {rest rest' : Bytes}
    (h : step settings below state line rest = .next state' line' rest') :
    ∃ w, Grows line line' w ∧ rest = w ++ rest' := by
  simp only [step] at h
  split at h
  · exact absurd h (by simp)
  · next hit hs =>
    split at h
    · exact absurd h (by simp)
    · next n he =>
      obtain ⟨-, rfl, rfl⟩ := Step.next.inj h
      obtain ⟨hm, hr⟩ := Pattern.search_split hs
      have hn := Mode.extent_pos hm he
      have hne : hit.matched.take n ≠ [] := by
        rw [ne_eq, List.take_eq_nil_iff, not_or]
        exact ⟨by omega, hm⟩
      refine ⟨hit.skipped ++ hit.matched.take n, ?_, ?_⟩
      · have hgap := readGap_grows settings state line hit.skipped (hit.matched ++ hit.rest)
        have hlex := text_readLexeme settings below
          (readGap settings state line hit.skipped (hit.matched ++ hit.rest)).2
          ⟨settings.tabWidth, (readGap settings state line hit.skipped
            (hit.matched ++ hit.rest)).1, hit.matched.drop n ++ hit.rest⟩ hit.label
          (hit.matched.take n)
        refine hgap.trans ?_
        nth_rewrite 2 [← hlex]
        exact Grows.append _ (by rw [hlex]; exact hne)
      · rw [← hr, List.append_assoc, List.append_assoc, ← List.append_assoc (hit.matched.take n),
          List.take_append_drop]

theorem finished_grows {settings : Settings} {below : Bytes} {state state' : State}
    {line line' : Line} {rest : Bytes}
    (h : step settings below state line rest = .finished state' line') :
    Grows line line' rest := by
  simp only [step] at h
  split at h
  · obtain ⟨-, rfl⟩ := Step.finished.inj h
    exact readGap_grows settings state line rest []
  · split at h
    · exact absurd h (by simp)
    · exact absurd h (by simp)

theorem readLine_of_finished {settings : Settings} {below : Bytes} {state state' : State}
    {line line' : Line} {rest : Bytes}
    (h : step settings below state line rest = .finished state' line') :
    readLine settings below state line rest = (state', .ok line') := by
  rw [readLine, readLineWith]
  dsimp only [Guard.plain]
  split <;> simp_all

theorem readLine_of_failed {settings : Settings} {below : Bytes} {state state' : State}
    {line : Line} {rest : Bytes} {overrun : Overrun}
    (h : step settings below state line rest = .failed state' overrun) :
    readLine settings below state line rest = (state', .error overrun) := by
  rw [readLine, readLineWith]
  dsimp only [Guard.plain]
  split <;> simp_all

theorem readLine_of_next {settings : Settings} {below : Bytes} {state state' : State}
    {line line' : Line} {rest rest' : Bytes}
    (h : step settings below state line rest = .next state' line' rest') :
    readLine settings below state line rest = readLine settings below state' line' rest' := by
  rw [readLine, readLineWith]
  dsimp only [Guard.plain]
  split <;> simp_all [readLine, Guard.plain]

/-- A document without text is one line without tokens. -/
theorem tokenize_nil (settings : Settings) (modes : ModeStack) :
    tokenize settings modes [] = .ok [{ number := 1 }] := by
  have hline : readLine settings [] { modes } { number := 1 } [] =
      ({ modes }, .ok { number := 1 }) := readLine_of_finished rfl
  have hlines : readLines settings { modes } 1 [([], [])] =
      ({ modes }, .ok [{ number := 1 }]) := by
    rw [readLines_cons, hline]
    rfl
  unfold tokenize run
  change (readLines settings { modes } 1 [([], [])]).2 = _
  rw [hlines]

theorem readLine_grows {settings : Settings} {below : Bytes} {state state' : State}
    {line line' : Line} {rest : Bytes}
    (h : readLine settings below state line rest = (state', .ok line')) :
    Grows line line' rest := by
  induction hn : rest.length using Nat.strongRecOn generalizing state line rest with
  | _ n ih =>
    cases hs : step settings below state line rest with
    | finished state₁ line₁ =>
      rw [readLine_of_finished hs] at h
      obtain ⟨rfl, hl⟩ := Prod.mk.inj h
      obtain rfl := Except.ok.inj hl
      exact finished_grows hs
    | failed state₁ overrun =>
      rw [readLine_of_failed hs] at h
      exact absurd (Prod.mk.inj h).2 (by simp)
    | next state₁ line₁ rest₁ =>
      rw [readLine_of_next hs] at h
      obtain ⟨w, hw, rfl⟩ := step_grows hs
      have hlt := length_lt_of_step hs
      exact hw.trans (ih rest₁.length (by omega) h rfl)

/-- What `readLines` makes of texts: their lines in order, numbered from `number` on. -/
structure Covers (number : Int64) (texts : List Bytes) (lines : List Line) : Prop where
  raw : lines.map Line.raw = texts
  number : lines.map Line.number =
    (List.range texts.length).map fun i => number + Int64.ofNat i
  labelled : ∀ l ∈ lines, l.Labelled

theorem readLines_covers {settings : Settings} {state state' : State} {number : Int64}
    {texts : List (Bytes × Bytes)} {lines : List Line}
    (h : readLines settings state number texts = (state', .ok lines)) :
    Covers number (texts.map Prod.fst) lines := by
  induction texts generalizing state state' number lines with
  | nil =>
    obtain ⟨-, hl⟩ := Prod.mk.inj h
    obtain rfl := Except.ok.inj hl
    exact ⟨rfl, rfl, by simp⟩
  | cons text texts ih =>
    obtain ⟨text, below⟩ := text
    rw [readLines_cons] at h
    split at h
    · exact absurd (Prod.mk.inj h).2 (by simp)
    · next state₁ line hline =>
      split at h
      · exact absurd (Prod.mk.inj h).2 (by simp)
      · next state₂ rest hrest =>
        obtain ⟨-, hl⟩ := Prod.mk.inj h
        obtain rfl := Except.ok.inj hl
        have hg := readLine_grows hline
        have hc := ih hrest
        refine ⟨?_, ?_, ?_⟩
        · rw [List.map_cons, List.map_cons, hc.raw, hg.raw]
          rfl
        · rw [List.map_cons, hc.number, hg.number, List.map_cons, List.length_cons,
            List.range_succ_eq_map, List.map_cons, List.map_map]
          refine congrArg₂ List.cons (Int64.add_zero _).symm ?_
          apply List.map_congr_left
          intro i _
          rw [Function.comp_apply, Nat.succ_eq_add_one, Int64.ofNat_add, Int64.add_assoc,
            Int64.add_comm 1]
          rfl
        · intro l hl
          rcases List.mem_cons.1 hl with rfl | hl
          · exact hg.labelled (by simp [Line.Labelled])
          · exact hc.labelled l hl

theorem tokenize_covers {settings : Settings} {modes : ModeStack} {source : Bytes}
    {lines : List Line} (h : tokenize settings modes source = .ok lines) :
    Covers 1 (Bytes.lines source) lines := by
  rw [← map_fst_linesBelow]
  exact readLines_covers (Prod.ext rfl h)

end Scan
end Reindent
