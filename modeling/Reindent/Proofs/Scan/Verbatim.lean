import Reindent.Proofs.Pattern.Search
import Reindent.Proofs.Scan.Lossless

/-! Which lines are verbatim: those that start in a verbatim region. -/
namespace Reindent

def Mode.isVerbatim : Mode → Bool
  | .verbatim _ => true
  | _ => false

def Line.startsVerbatim (l : Line) : Bool := l.tokens.head?.any Token.ignore

namespace Template

theorem ignore_read (blocks : Blocks) (memory : Lookahead) (lexeme : Lexeme)
    (text ahead : Bytes) : (read blocks memory lexeme text ahead).1.ignore = false := by
  unfold read
  split
  · unfold readBlock
    split
    · rfl
    · split
      · rfl
      · split_ifs
        · rfl
        · rfl
        · dsimp only
          split_ifs <;> rfl
        · rfl
  · rfl
  · rfl
  · rfl

end Template

theorem Markup.ignore_read (sight : Sight) (lexeme : Lexeme) (text : Bytes) :
    (read sight lexeme text).1.ignore = false := by
  have hend : (endToken text).ignore = false := by
    unfold endToken
    dsimp only
    split_ifs <;> rfl
  unfold read
  split
  · rfl
  · rfl
  · exact hend
  · exact hend
  · rfl

theorem OpenTag.ignore_read (sight : Sight) (tag : OpenTag) (lexeme : Lexeme) (text : Bytes) :
    (tag.read sight lexeme text).1.ignore = false := by
  unfold read
  split
  · rfl
  · unfold finish
    split
    · rfl
    · split
      · rfl
      · dsimp only
        split_ifs <;> rfl
  · unfold settle
    dsimp only
    split_ifs <;> rfl

theorem StyleState.ignore_read (sight : Sight) (s : StyleState) (lexeme : Lexeme) (text : Bytes) :
    (s.read sight lexeme text).1.ignore = false := by
  have hsettle : ∀ t, (s.settle sight t).ignore = t.ignore := by
    intro t
    unfold settle
    split_ifs <;> rfl
  unfold read
  dsimp only
  split
  all_goals
    first
    | rfl
    | exact hsettle _

theorem ScriptState.ignore_read (sight : Sight) (s : ScriptState) (lexeme : Lexeme)
    (text : Bytes) : (s.read sight lexeme text).1.ignore = false := by
  have hsettle : ∀ (s : ScriptState) t, (s.settle sight t).1.ignore = t.ignore := by
    intro s t
    unfold settle
    split_ifs <;> rfl
  unfold read
  dsimp only
  split
  · split_ifs
    · exact hsettle _ _
    · exact hsettle _ _
  · exact hsettle _ _
  · exact hsettle _ _
  · rfl
  · exact hsettle _ _
  · rw [hsettle]
    unfold label
    split
    · split_ifs <;> rfl
    · rfl
  · unfold dot
    dsimp only
    split_ifs <;> rfl
  · have hopen := hsettle s (.opening text .script)
    unfold openBracket
    dsimp only
    split_ifs
    · exact hopen
    · exact hopen
  · unfold closeBracket
    split
    · rfl
    · dsimp only
      split_ifs <;> rfl
  · exact hsettle _ _

namespace Mode

theorem ignore_settle (sight : Sight) (mode : Mode) (t : Token) :
    (mode.settle sight t).1.ignore = t.ignore := by
  unfold settle
  split
  · unfold OpenTag.settle
    dsimp only
    split_ifs <;> rfl
  · unfold StyleState.settle
    split_ifs <;> rfl
  · unfold ScriptState.settle
    split_ifs <;> rfl
  · rfl

theorem ignore_readText (sight : Sight) (mode : Mode) (text : Bytes) :
    (mode.readText sight text).1.ignore = mode.isVerbatim := by
  cases mode with
  | verbatim r => rfl
  | _ => exact ignore_settle sight _ _

theorem ignore_read (sight : Sight) (mode : Mode) (lexeme : Lexeme) (text : Bytes) :
    (mode.read sight lexeme text).1.ignore = mode.isVerbatim := by
  cases mode with
  | text => rfl
  | markup => exact Markup.ignore_read sight lexeme text
  | tag o => exact o.ignore_read sight lexeme text
  | endTag => rfl
  | style s => exact s.ignore_read sight lexeme text
  | script s => exact s.ignore_read sight lexeme text
  | verbatim r => rfl

end Mode

namespace Scan
variable {settings : Settings} {below : Bytes} {state state' : State} {line line' : Line}
  {rest rest' : Bytes} {verbatim : Bool}

def Leads (verbatim : Bool) (state : State) (line : Line) : Prop :=
  if line.tokens = [] then state.modes.active.isVerbatim = verbatim
  else line.startsVerbatim = verbatim

private theorem leads_append {t : Token} (h : Leads verbatim state line)
    (ht : t.ignore = state.modes.active.isVerbatim) (state' : State) :
    Leads verbatim state' (line.append t) := by
  unfold Leads at *
  rw [if_neg (by simp [Line.append])]
  unfold Line.startsVerbatim Line.append at *
  cases hl : line.tokens with
  | nil =>
    rw [hl, if_pos rfl] at h
    exact ht.trans h
  | cons x xs =>
    rw [hl, if_neg (by simp)] at h
    exact h

private theorem leads_readGap (h : Leads verbatim state line) (text rest : Bytes) :
    Leads verbatim (readGap settings state line text rest).2
      (readGap settings state line text rest).1 := by
  unfold readGap
  split_ifs
  · exact h
  · exact leads_append h (Mode.ignore_readText _ _ _) _

theorem rules_readGap (settings : Settings) (state : State) (line : Line) (text rest : Bytes)
    (embedded : Bool) : (readGap settings state line text rest).2.modes.active.rules embedded =
      state.modes.active.rules embedded := by
  unfold readGap
  split_ifs
  · rfl
  · change (Mode.readText _ _ _).2.rules embedded = _
    cases state.modes.active <;> rfl

theorem isVerbatim_of_isTemplate {mode : Mode} {embedded : Bool} {lexeme : Lexeme}
    (h : lexeme ∈ (mode.rules embedded).map Prod.fst) (ht : lexeme.isTemplate = true) :
    mode.isVerbatim = false := by
  cases mode with
  | verbatim region =>
    have hlabel : lexeme = .escape ∨ lexeme = .regionEnd := by
      change lexeme ∈ region.rules.map Prod.fst at h
      unfold Region.rules at h
      split at h
      · simpa using h
      · right
        simpa using h
    rcases hlabel with rfl | rfl
    · exact absurd ht (by simp [Lexeme.isTemplate])
    · exact absurd ht (by simp [Lexeme.isTemplate])
  | _ => rfl

theorem ignore_readLexeme (sight : Sight) {lexeme : Lexeme} (text : Bytes)
    (h : lexeme.isTemplate = true → state.modes.active.isVerbatim = false) :
    (readLexeme settings below state sight lexeme text).1.ignore =
      state.modes.active.isVerbatim := by
  unfold readLexeme
  dsimp only
  split_ifs with ht
  · rw [h ht]
    exact (Mode.ignore_settle _ _ _).trans (Template.ignore_read _ _ _ _ _)
  · exact Mode.ignore_read _ _ _ _

theorem Leads.step (h : Leads verbatim state line)
    (hs : step settings below state line rest = .next state' line' rest') :
    Leads verbatim state' line' := by
  simp only [Scan.step] at hs
  split at hs
  · exact absurd hs (by simp)
  · next hit hit? =>
    split at hs
    · exact absurd hs (by simp)
    · obtain ⟨rfl, rfl, -⟩ := Step.next.inj hs
      have hmem := Pattern.label_mem_of_search hit?
      rw [← rules_readGap settings state line hit.skipped (hit.matched ++ hit.rest)] at hmem
      exact leads_append (leads_readGap h _ _)
        (ignore_readLexeme _ _ (isVerbatim_of_isTemplate hmem)) _

theorem Leads.finished (h : Leads verbatim state line)
    (hs : Scan.step settings below state line rest = .finished state' line') :
    Leads verbatim state' line' := by
  simp only [Scan.step] at hs
  split at hs
  · obtain ⟨rfl, rfl⟩ := Step.finished.inj hs
    exact leads_readGap h rest []
  · split at hs
    · exact absurd hs (by simp)
    · exact absurd hs (by simp)

theorem Leads.readLine (h : Leads verbatim state line)
    (hr : readLine settings below state line rest = (state', .ok line')) :
    Leads verbatim state' line' := by
  induction hn : rest.length using Nat.strongRecOn generalizing state line rest with
  | _ n ih =>
    cases hs : Scan.step settings below state line rest with
    | finished state₁ line₁ =>
      rw [readLine_of_finished hs] at hr
      obtain ⟨rfl, hl⟩ := Prod.mk.inj hr
      obtain rfl := Except.ok.inj hl
      exact h.finished hs
    | failed state₁ overrun =>
      rw [readLine_of_failed hs] at hr
      exact absurd (Prod.mk.inj hr).2 (by simp)
    | next state₁ line₁ rest₁ =>
      rw [readLine_of_next hs] at hr
      have hlt := length_lt_of_step hs
      exact ih rest₁.length (by omega) (h.step hs) hr rfl

/-- A line is verbatim if it starts in a verbatim region and is not empty. -/
theorem startsVerbatim_readLine {number : Int64}
    (h : Scan.readLine settings below state { number } rest = (state', .ok line)) :
    line.startsVerbatim = (state.modes.active.isVerbatim && !rest.isEmpty) := by
  have hleads : Leads state.modes.active.isVerbatim state { number } := by
    unfold Leads
    rw [if_pos rfl]
  have hgrows := readLine_grows h
  have hraw : line.raw = rest := hgrows.raw
  have hlabelled := hgrows.labelled (by simp [Line.Labelled])
  have hlast := hleads.readLine h
  unfold Leads at hlast
  cases hl : line.tokens with
  | nil =>
    have hempty : rest = [] := by
      rw [← hraw, Line.raw, hl]
      rfl
    rw [hempty, Line.startsVerbatim, hl]
    simp
  | cons t ts =>
    have hne : rest ≠ [] := by
      have ht := (hlabelled t (by rw [hl]; exact List.mem_cons_self)).1
      rw [← hraw, Line.raw, hl, List.flatMap_cons]
      simp [ht]
    rw [hl, if_neg (by simp)] at hlast
    rw [hlast]
    simp [hne]

end Scan
end Reindent
