import Reindent.Proofs.Isolation.Sites

/-! Where offsets come from. A token gets its offset from the mode that it is read in; the modes
keep offsets, copy them, and compute one where a tag opens and one where a line of a script starts
with a dot. -/
namespace Reindent
open Text

def ModeStack.modes (stack : ModeStack) : List Mode := stack.active :: stack.returns

/-- The modes that a move puts in the place of the active one. -/
def Move.modes : Move → List Mode
  | .keep self => [self]
  | .enter self inner => [inner, self]
  | .leave => []

namespace ModeStack
variable {stack : ModeStack} {move : Move} {mode : Mode}

theorem mem_modes_of_apply (h : mode ∈ (stack.apply move).modes) :
    mode ∈ move.modes ∨ mode ∈ stack.modes := by
  cases move with
  | keep self =>
    rcases List.mem_cons.1 h with heq | hin
    · exact Or.inl (List.mem_singleton.2 heq)
    · exact Or.inr (List.mem_cons_of_mem _ hin)
  | enter self inner =>
    rcases List.mem_cons.1 h with heq | hin
    · exact Or.inl (List.mem_cons.2 (Or.inl heq))
    · rcases List.mem_cons.1 hin with heq | hin
      · rw [heq]
        exact Or.inl (by simp [Move.modes])
      · exact Or.inr (List.mem_cons_of_mem _ hin)
  | leave =>
    right
    cases hreturns : stack.returns with
    | nil =>
      have hstay : stack.apply .leave = stack := by
        unfold apply leave
        rw [hreturns]
      rwa [hstay] at h
    | cons outer returns =>
      obtain ⟨hactive, hrest⟩ := leave_of_cons hreturns
      unfold modes apply at h
      dsimp only at h
      rw [hactive, hrest, ← hreturns] at h
      exact List.mem_cons_of_mem _ h

theorem mem_modes_apply (stack : ModeStack) (h : mode ∈ move.modes) :
    mode ∈ (stack.apply move).modes := by
  cases move with
  | keep self =>
    rw [List.mem_singleton.1 h]
    exact List.mem_cons_self
  | enter self inner =>
    rcases List.mem_cons.1 h with heq | hin
    · rw [heq]
      exact List.mem_cons_self
    · rw [List.mem_singleton.1 hin]
      exact List.mem_cons_of_mem _ List.mem_cons_self
  | leave => exact absurd h (by simp [Move.modes])

end ModeStack

namespace ScriptState

def offsets (s : ScriptState) : List Int64 := s.frames.map Frame.offset

theorem base_eq (s : ScriptState) : s.base = s.offsets.head?.getD 0 := by
  unfold base offsets
  rw [List.head?_map]

/-- What a text makes of the offsets of a script. The line keeps its offset, inherits one or starts
with the text and gets one more tab; a bracket has the offset of its line. -/
structure Shifts (sight : Sight) (text : Bytes) (s s' : ScriptState) : Prop where
  line : s'.lineOffset = s.lineOffset ∨ s'.lineOffset = s.base ∨
    (sight.atStart = true ∧ allBlank text = false ∧ s'.lineOffset = s.base + sight.tabWidth)
  frames : ∀ x ∈ s'.offsets, x = s'.lineOffset ∨ x ∈ s.offsets

/-- A token and the state behind it. The token has the offset of the line or none. -/
structure Turns (sight : Sight) (s : ScriptState) (r : Token × ScriptState) : Prop where
  shifts : Shifts sight r.1.text s r.2
  token : r.1.offset = 0 ∨ r.1.offset = r.2.lineOffset

variable {s s' : ScriptState} {sight : Sight} {t : Token}

theorem Shifts.refl (sight : Sight) (text : Bytes) (s : ScriptState) : Shifts sight text s s :=
  ⟨Or.inl rfl, fun _ hx => Or.inr hx⟩

theorem turns_settle (hline : s'.lineOffset = s.lineOffset) (hframes : s'.offsets = s.offsets)
    (ht : t.offset = 0) : Turns sight s (s'.settle sight t) := by
  have hbase : s'.base = s.base := by rw [base_eq, base_eq, hframes]
  unfold settle
  split_ifs
  · refine ⟨⟨Or.inr (Or.inl hbase), fun x hx => Or.inr ?_⟩, Or.inr rfl⟩
    rw [← hframes]
    exact hx
  · refine ⟨⟨Or.inl hline, fun x hx => Or.inr ?_⟩, Or.inl ht⟩
    rw [← hframes]
    exact hx

theorem turns_label (text : Bytes) :
    Turns sight s ((s.label text).2.settle sight (s.label text).1) := by
  have hlabel : (s.label text).2.lineOffset = s.lineOffset ∧
      (s.label text).2.offsets = s.offsets ∧ (s.label text).1.offset = 0 := by
    unfold label
    split
    · next f frames hframes =>
      split_ifs
      · exact ⟨rfl, by simp [offsets, hframes], rfl⟩
      · exact ⟨rfl, by simp [offsets, hframes], rfl⟩
      · exact ⟨rfl, rfl, rfl⟩
    · exact ⟨rfl, rfl, rfl⟩
  exact turns_settle hlabel.1 hlabel.2.1 hlabel.2.2

theorem turns_dot {text : Bytes} (hv : allBlank text = false) :
    Turns sight s (s.dot sight text) := by
  unfold dot
  dsimp only
  split_ifs with hstart
  · exact ⟨⟨Or.inr (Or.inr ⟨hstart, hv, rfl⟩), fun _ hx => Or.inr hx⟩, Or.inr rfl⟩
  · exact ⟨.refl sight _ s, Or.inl rfl⟩

theorem turns_openBracket (text : Bytes) : Turns sight s (s.openBracket sight text) := by
  have hturns : Turns sight s (s.settle sight (.opening text .script)) := turns_settle rfl rfl rfl
  have hopened : ∀ x, x = (s.settle sight (.opening text .script)).2.lineOffset ∨
      x ∈ (s.settle sight (.opening text .script)).2.offsets →
      x = (s.settle sight (.opening text .script)).2.lineOffset ∨ x ∈ s.offsets := by
    intro x hx
    rcases hx with heq | hx
    · exact Or.inl heq
    · exact hturns.shifts.frames x hx
  unfold openBracket
  dsimp only
  split_ifs
  · exact ⟨⟨hturns.shifts.line, fun x hx => hopened x (List.mem_cons.1 hx)⟩, hturns.token⟩
  · exact ⟨⟨hturns.shifts.line, fun x hx => hopened x (List.mem_cons.1 hx)⟩, hturns.token⟩

theorem turns_closeBracket (text : Bytes) : Turns sight s (s.closeBracket sight text) := by
  unfold closeBracket
  split
  · exact ⟨.refl sight _ s, Or.inl rfl⟩
  · next f frames hframes =>
    have hbase : s.base = f.offset := by
      unfold base
      rw [hframes]
      rfl
    have hinner : ∀ x ∈ frames.map Frame.offset, x ∈ s.offsets := by
      intro x hx
      unfold offsets
      rw [hframes]
      exact List.mem_cons_of_mem _ hx
    dsimp only
    by_cases hstart : sight.atStart = true
    · rw [if_pos hstart]
      exact ⟨⟨Or.inr (Or.inl hbase.symm), fun x hx => Or.inr (hinner x hx)⟩, Or.inr rfl⟩
    · rw [if_neg hstart]
      exact ⟨⟨Or.inl rfl, fun x hx => Or.inr (hinner x hx)⟩, Or.inl rfl⟩

end ScriptState

/-- What a mode is that follows some modes: a script starts without offsets or takes them over, and
a tag opens or stays. All other modes have no offsets. -/
def Mode.Follows (sight : Sight) (text : Bytes) (before : List Mode) : Mode → Prop
  | .script s' => s' = {} ∨ ∃ s, .script s ∈ before ∧ s.Shifts sight text s'
  | .tag o' => o'.offset = (Markup.openTag sight text).offset ∨
      ∃ o, .tag o ∈ before ∧ o'.offset = o.offset
  | _ => True

/-- Where the offset of a token comes from, by the modes in front of it and behind it. -/
inductive Token.Shifted (width : Int64) (before after : List Mode) (t : Token) : Prop where
  | none (h : t.offset = 0)
  | tab (h : t.offset = width)
  | back (h : t.offset = -width)
  | tag {o : OpenTag} (ho : .tag o ∈ before) (h : t.offset = o.offset)
  | script {s : ScriptState} (hs : .script s ∈ after) (h : t.offset = s.lineOffset)

/-- The offset of a token comes from where it comes from among more modes. -/
theorem Token.Shifted.mono {width : Int64} {before before' after after' : List Mode} {t : Token}
    (h : t.Shifted width before after) (hbefore : before ⊆ before') (hafter : after ⊆ after') :
    t.Shifted width before' after' := by
  cases h with
  | none h => exact .none h
  | tab h => exact .tab h
  | back h => exact .back h
  | tag ho h => exact .tag (hbefore ho) h
  | script hs h => exact .script (hafter hs) h

/-- A token that is read in a mode, and the modes that follow it. -/
structure Mode.Reads (sight : Sight) (before after : List Mode) (t : Token) : Prop where
  modes : ∀ mode ∈ after, mode.Follows sight t.text before
  token : t.Shifted sight.tabWidth before after

namespace Mode
variable {sight : Sight} {text : Bytes} {before before' after : List Mode} {mode : Mode} {t : Token}

theorem follows_of_mem (sight : Sight) (text : Bytes) (h : mode ∈ before) :
    mode.Follows sight text before := by
  cases mode with
  | script s => exact Or.inr ⟨s, h, .refl sight text s⟩
  | tag o => exact Or.inr ⟨o, h, rfl⟩
  | _ => exact trivial

theorem Follows.mono (h : mode.Follows sight text before) (hsub : before ⊆ before') :
    mode.Follows sight text before' := by
  cases mode with
  | script s' => exact h.imp_right fun ⟨s, hs, hshifts⟩ => ⟨s, hsub hs, hshifts⟩
  | tag o' => exact h.imp_right fun ⟨o, ho, hoffset⟩ => ⟨o, hsub ho, hoffset⟩
  | _ => exact trivial

/-- A token without an offset, in front of modes without any. -/
theorem reads_of_plain (ht : t.offset = 0) (h : ∀ mode ∈ after, mode.Follows sight t.text before) :
    Reads sight before after t := ⟨h, .none ht⟩

end Mode

theorem ScriptState.Turns.reads {sight : Sight} {s : ScriptState} {r : Token × ScriptState}
    {after : List Mode} (h : s.Turns sight r) (hafter : .script r.2 ∈ after)
    (hother : ∀ mode ∈ after, mode = .script r.2 ∨ ∃ region, mode = .verbatim region) :
    Mode.Reads sight [.script s] after r.1 := by
  refine ⟨fun mode hmode => ?_, ?_⟩
  · rcases hother mode hmode with heq | ⟨region, heq⟩
    · rw [heq]
      exact Or.inr ⟨s, List.mem_singleton.2 rfl, h.shifts⟩
    · rw [heq]
      exact trivial
  · rcases h.token with hnone | hline
    · exact .none hnone
    · exact .script hafter hline

namespace ScriptState
variable {sight : Sight} {s : ScriptState} {r : Token × ScriptState}

theorem Turns.keep (h : s.Turns sight r) :
    Mode.Reads sight [.script s] (Move.keep (.script r.2)).modes r.1 :=
  h.reads List.mem_cons_self fun _ hmode => Or.inl (List.mem_singleton.1 hmode)

theorem Turns.enter (h : s.Turns sight r) (region : Region) :
    Mode.Reads sight [.script s] (Move.enter (.script r.2) (.verbatim region)).modes r.1 := by
  refine h.reads (by simp [Move.modes]) fun mode hmode => ?_
  rcases List.mem_cons.1 hmode with heq | hmode
  · exact Or.inr ⟨region, heq⟩
  · exact Or.inl (List.mem_singleton.1 hmode)

theorem reads_read (sight : Sight) (s : ScriptState) (lexeme : Lexeme) {text : Bytes}
    (hv : allBlank text = false) :
    Mode.Reads sight [.script s] (s.read sight lexeme text).2.modes
      (s.read sight lexeme text).1 := by
  have hplain : s.Turns sight (s.settle sight (.plain text .script)) := turns_settle rfl rfl rfl
  unfold read
  dsimp only
  split
  case h_1 =>
    split_ifs
    · exact hplain.enter _
    · exact hplain.keep
  case h_2 => exact hplain.enter _
  case h_3 => exact hplain.enter _
  case h_4 => exact Mode.reads_of_plain rfl fun _ hmode => absurd hmode (by simp [Move.modes])
  case h_5 =>
    have hword : s.Turns sight ({ s with switching := true }.settle sight (.plain text .script)) :=
      turns_settle rfl rfl rfl
    exact hword.keep
  case h_6 => exact (turns_label text).keep
  case h_7 => exact (turns_dot hv).keep
  case h_8 => exact (turns_openBracket text).keep
  case h_9 => exact (turns_closeBracket text).keep
  case h_10 => exact hplain.keep

end ScriptState

theorem StyleState.reads_read (sight : Sight) (s : StyleState) (lexeme : Lexeme) (text : Bytes)
    (before : List Mode) :
    Mode.Reads sight before (s.read sight lexeme text).2.modes (s.read sight lexeme text).1 := by
  have hsettle : ∀ {t : Token} {after : List Mode}, t.offset = 0 →
      (∀ mode ∈ after, ∀ text, mode.Follows sight text before) →
      Mode.Reads sight before after (s.settle sight t) := by
    intro t after ht hafter
    refine ⟨fun mode hmode => hafter mode hmode _, ?_⟩
    unfold settle
    split_ifs
    · exact .tab rfl
    · exact .none ht
  unfold read
  dsimp only
  split
  case h_3 => exact Mode.reads_of_plain rfl (by simp [Move.modes])
  case h_5 => exact Mode.reads_of_plain rfl (by simp [Move.modes, Mode.Follows])
  all_goals exact hsettle rfl (by simp [Move.modes, Mode.Follows])

theorem Markup.reads_read (sight : Sight) (lexeme : Lexeme) (text : Bytes) (before : List Mode) :
    Mode.Reads sight before (Markup.read sight lexeme text).2.modes
      (Markup.read sight lexeme text).1 := by
  have hend : (Markup.endToken text).offset = 0 := by
    unfold Markup.endToken
    dsimp only
    split_ifs <;> rfl
  unfold Markup.read
  split
  · exact Mode.reads_of_plain rfl (by simp [Move.modes, Mode.Follows])
  · exact Mode.reads_of_plain rfl (by simp [Move.modes, Mode.Follows])
  · exact Mode.reads_of_plain hend (by simp [Move.modes, Mode.Follows])
  · exact Mode.reads_of_plain hend (by simp [Move.modes, Mode.Follows])
  · refine Mode.reads_of_plain rfl fun mode hmode => ?_
    rcases List.mem_cons.1 hmode with heq | hmode
    · rw [heq]
      exact Or.inl rfl
    · rw [List.mem_singleton.1 hmode]
      exact trivial

namespace OpenTag

/-- Behind a tag no offset is known. -/
theorem follows_content (sight : Sight) (o : OpenTag) (text : Bytes) (before : List Mode) :
    ∀ mode ∈ o.content.modes, mode.Follows sight text before := by
  unfold content
  split_ifs <;> simp [Move.modes, Mode.Follows]

theorem reads_finish (sight : Sight) (o : OpenTag) (text : Bytes) (before : List Mode) :
    Mode.Reads sight before (o.finish sight text).2.modes (o.finish sight text).1 := by
  unfold finish
  split
  · exact Mode.reads_of_plain rfl (by simp [Move.modes])
  · split
    · exact Mode.reads_of_plain rfl (by simp [Move.modes, Mode.Follows])
    · refine ⟨follows_content sight _ _ before, ?_⟩
      dsimp only
      split_ifs
      · exact .back rfl
      · exact .none rfl

theorem reads_settle (sight : Sight) (o : OpenTag) {t : Token} (ht : t.offset = 0) :
    Mode.Reads sight [.tag o] [.tag (o.settle sight t).2] (o.settle sight t).1 := by
  have hmem : Mode.tag o ∈ [Mode.tag o] := List.mem_singleton.2 rfl
  refine ⟨fun mode hmode => ?_, ?_⟩
  · rw [List.mem_singleton.1 hmode]
    exact Or.inr ⟨o, hmem, rfl⟩
  · unfold settle
    dsimp only
    split_ifs
    · exact .tag hmem rfl
    · exact .none ht

theorem reads_read (sight : Sight) (o : OpenTag) (lexeme : Lexeme) (text : Bytes) :
    Mode.Reads sight [.tag o] (o.read sight lexeme text).2.modes (o.read sight lexeme text).1 := by
  unfold read
  split
  · exact Mode.reads_of_plain rfl (by simp [Move.modes])
  · exact reads_finish sight o text _
  · exact reads_settle sight o rfl

end OpenTag

namespace Mode

theorem reads_settle (sight : Sight) (mode : Mode) {t : Token} (ht : t.offset = 0) :
    Reads sight [mode] [(mode.settle sight t).2] (mode.settle sight t).1 := by
  cases mode with
  | tag o => exact o.reads_settle sight ht
  | script s =>
    have hturns : s.Turns sight (s.settle sight t) := ScriptState.turns_settle rfl rfl ht
    exact hturns.keep
  | style s =>
    refine ⟨by simp [settle, Follows], ?_⟩
    unfold settle StyleState.settle
    dsimp only
    split_ifs
    · exact .tab rfl
    · exact .none ht
  | _ => exact reads_of_plain ht (by simp [settle, Follows])

theorem reads_readText (sight : Sight) (mode : Mode) (text : Bytes) :
    Reads sight [mode] [(mode.readText sight text).2] (mode.readText sight text).1 := by
  cases mode with
  | verbatim r => exact reads_of_plain rfl (by simp [readText, Follows])
  | _ => exact reads_settle sight _ rfl

theorem reads_read (sight : Sight) (mode : Mode) (lexeme : Lexeme) {text : Bytes}
    (hv : allBlank text = false) :
    Reads sight [mode] (mode.read sight lexeme text).2.modes (mode.read sight lexeme text).1 := by
  cases mode with
  | text => exact reads_of_plain rfl (by simp [read, Move.modes, Follows])
  | markup => exact Markup.reads_read sight lexeme text _
  | tag o => exact o.reads_read sight lexeme text
  | endTag => exact reads_of_plain rfl (by simp [read, Move.modes])
  | style s => exact s.reads_read sight lexeme text _
  | script s => exact s.reads_read sight lexeme hv
  | verbatim r =>
    refine reads_of_plain rfl ?_
    unfold read
    dsimp only
    split_ifs <;> simp [Move.modes, Follows]

theorem Reads.apply {stack : ModeStack} (move : Move) {t : Token} {sight : Sight}
    (h : Reads sight [stack.active] move.modes t) :
    Reads sight stack.modes (stack.apply move).modes t := by
  have hsub : [stack.active] ⊆ stack.modes := by
    intro mode hmode
    rw [List.mem_singleton.1 hmode]
    exact List.mem_cons_self
  refine ⟨fun mode hmode => ?_, h.token.mono hsub fun _ => stack.mem_modes_apply⟩
  rcases ModeStack.mem_modes_of_apply hmode with hmove | hkept
  · exact (h.modes mode hmove).mono hsub
  · exact follows_of_mem sight _ hkept

end Mode

theorem Template.offset_read (blocks : Blocks) (memory : Lookahead) (lexeme : Lexeme)
    (text ahead : Bytes) : (read blocks memory lexeme text ahead).1.offset = 0 := by
  unfold read
  split
  · unfold readBlock
    split
    · rfl
    · split
      · rfl
      · split_ifs
        · rfl
        · rfl
        · dsimp only
          split_ifs <;> rfl
        · rfl
  · rfl
  · rfl
  · rfl

namespace Scan

theorem reads_readText (sight : Sight) (modes : ModeStack) (text : Bytes) :
    Mode.Reads sight modes.modes (modes.setActive (modes.active.readText sight text).2).modes
      (modes.active.readText sight text).1 :=
  (modes.active.reads_readText sight text).apply (.keep _)

theorem reads_readLexeme (settings : Settings) (below : Bytes) (state : State) (sight : Sight)
    (lexeme : Lexeme) {text : Bytes} (hv : allBlank text = false) :
    Mode.Reads sight state.modes.modes
      (readLexeme settings below state sight lexeme text).2.modes.modes
      (readLexeme settings below state sight lexeme text).1 := by
  unfold readLexeme
  dsimp only
  split_ifs with ht
  · have hoffset := Template.offset_read settings.blocks state.memory lexeme text
      (sight.rest ++ below)
    generalize Template.read settings.blocks state.memory lexeme text (sight.rest ++ below) = read
      at hoffset
    obtain ⟨t, region?, memory⟩ := read
    have hsettle := state.modes.active.reads_settle sight hoffset
    cases region? with
    | none => exact hsettle.apply (.keep _)
    | some region =>
      have henter : Mode.Reads sight [state.modes.active]
          (Move.enter (state.modes.active.settle sight t).2 (.verbatim region)).modes
          (state.modes.active.settle sight t).1 := by
        refine ⟨fun mode hmode => ?_, ?_⟩
        · rcases List.mem_cons.1 hmode with heq | hmode
          · rw [heq]
            exact trivial
          · exact hsettle.modes mode hmode
        · exact hsettle.token.mono (fun _ => id) fun _ => List.mem_cons_of_mem _
      exact henter.apply _
  · exact (state.modes.active.reads_read sight lexeme hv).apply _

end Scan
end Reindent
