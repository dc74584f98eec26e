import Reindent.Language
import Reindent.Proofs.Scan.Verbatim

/-! Which modes can be active together. A document starts in text, markup, a style sheet or a script;
tags and embedded style sheets and scripts lie in markup, and verbatim regions lie in anything but
each other. -/
namespace Reindent

namespace ModeName

def isOuter : ModeName → Bool
  | .text | .markup | .style | .script => true
  | _ => false

def isInner : ModeName → Bool
  | .tag _ | .endTag | .style | .script => true
  | _ => false

def holdsRegions : ModeName → Bool
  | .endTag | .comment _ => false
  | _ => true

/-- The mode ends by itself. Style sheets and scripts do so only if they are embedded. -/
def ends (embedded : Bool) : ModeName → Bool
  | .text | .markup => false
  | .style | .script => embedded
  | _ => true

end ModeName

namespace Mode

/-- The ways in which a mode goes on after a lexeme. -/
inductive Makes (embedded : Bool) (mode : Mode) : Move → Prop where
  | keep {self : Mode} (h : self.name = mode.name) : Makes embedded mode (.keep self)
  | region {self : Mode} (r : Region) (h : self.name = mode.name)
    (hm : mode.name.holdsRegions = true) : Makes embedded mode (.enter self (.verbatim r))
  | tag {inner : Mode} (hm : mode = .markup) (h : inner.name.isInner = true) :
    Makes embedded mode (.enter .markup inner)
  | content {o : OpenTag} {inner : Mode} (hm : mode = .tag o)
    (h : inner.name.isInner = true ∨ inner.isVerbatim = true) : Makes embedded mode (.keep inner)
  | leave (h : mode.name.ends embedded = true) : Makes embedded mode .leave

theorem name_settle (sight : Sight) (mode : Mode) (t : Token) :
    (mode.settle sight t).2.name = mode.name := by
  cases mode <;> rfl

theorem name_readText (sight : Sight) (mode : Mode) (text : Bytes) :
    (mode.readText sight text).2.name = mode.name := by
  cases mode with
  | verbatim r => rfl
  | _ => exact name_settle sight _ _

theorem isVerbatim_iff {mode : Mode} : mode.isVerbatim = true ↔ ∃ r, mode = .verbatim r := by
  cases mode <;> simp [isVerbatim]

section Reads
variable {embedded : Bool} {lexeme : Lexeme}

/-- Template syntax is not recognised in verbatim regions and closing tags. -/
theorem holdsRegions_of_isTemplate {mode : Mode}
    (h : lexeme ∈ (mode.rules embedded).map Prod.fst) (ht : lexeme.isTemplate = true) :
    mode.name.holdsRegions = true := by
  cases mode with
  | verbatim r =>
    have hverbatim := Scan.isVerbatim_of_isTemplate h ht
    exact absurd hverbatim (by simp [isVerbatim])
  | endTag =>
    have hend : lexeme = .tagEnd := by simpa [rules, Markup.endTagRules] using h
    rw [hend] at ht
    exact absurd ht (by simp [Lexeme.isTemplate])
  | _ => rfl

private theorem makes_markup (sight : Sight) (text : Bytes) :
    Makes embedded .markup (Markup.read sight lexeme text).2 := by
  unfold Markup.read
  split
  · exact .region _ rfl rfl
  · exact .region _ rfl rfl
  · exact .keep rfl
  · exact .tag rfl rfl
  · exact .tag rfl rfl

private theorem makes_tag (sight : Sight) (o : OpenTag) (text : Bytes) :
    Makes embedded (.tag o) (o.read sight lexeme text).2 := by
  unfold OpenTag.read
  split
  · exact .leave rfl
  · unfold OpenTag.finish
    split
    · exact .leave rfl
    · split
      · exact .content rfl (Or.inr rfl)
      · dsimp only
        unfold OpenTag.content
        split_ifs
        · exact .content rfl (Or.inl rfl)
        · exact .leave rfl
        · exact .content rfl (Or.inl rfl)
        · exact .leave rfl
  · exact .keep rfl

private theorem makes_style (sight : Sight) (s : StyleState) (text : Bytes)
    (h : lexeme = .closer → embedded = true) :
    Makes embedded (.style s) (s.read sight lexeme text).2 := by
  unfold StyleState.read
  dsimp only
  split
  case h_3 => exact .leave (h rfl)
  case h_1 => exact .region _ rfl rfl
  case h_2 => exact .region _ rfl rfl
  all_goals exact .keep rfl

private theorem makes_script (sight : Sight) (s : ScriptState) (text : Bytes)
    (h : lexeme = .closer → embedded = true) :
    Makes embedded (.script s) (s.read sight lexeme text).2 := by
  unfold ScriptState.read
  dsimp only
  split
  case h_4 => exact .leave (h rfl)
  case h_1 =>
    split_ifs
    · exact .region _ rfl rfl
    · exact .keep rfl
  case h_2 => exact .region _ rfl rfl
  case h_3 => exact .region _ rfl rfl
  all_goals exact .keep rfl

/-- A lexeme that a mode recognises leads to one of these moves. -/
theorem makes_read {mode : Mode} (h : lexeme ∈ (mode.rules embedded).map Prod.fst) (sight : Sight)
    (text : Bytes) : mode.Makes embedded (mode.read sight lexeme text).2 := by
  cases mode with
  | text => exact .keep rfl
  | markup => exact makes_markup sight text
  | tag o => exact makes_tag sight o text
  | endTag => exact .leave rfl
  | style s =>
    apply makes_style
    rintro rfl
    cases embedded with
    | true => rfl
    | false => exact absurd h (by simp [rules, StyleState.rules, Rules.template,
        StyleState.comments, Rules.strings, Rules.brackets, StyleState.marks])
  | script s =>
    apply makes_script
    rintro rfl
    cases embedded with
    | true => rfl
    | false => exact absurd h (by simp [rules, ScriptState.rules, Rules.template,
        ScriptState.comments, Rules.strings, Rules.brackets, ScriptState.backtick,
        ScriptState.words])
  | verbatim r =>
    change Makes embedded (.verbatim r) (if lexeme = .escape then .keep (.verbatim r) else .leave)
    split_ifs
    · exact .keep rfl
    · exact .leave rfl

end Reads

end Mode

namespace ModeStack

theorem leave_of_cons {stack : ModeStack} {mode : Mode} {returns : List Mode}
    (h : stack.returns = mode :: returns) :
    stack.leave.active = mode ∧ stack.leave.returns = returns := by
  unfold leave
  rw [h]
  dsimp only
  split_ifs
  · exact ⟨rfl, rfl⟩
  · exact ⟨rfl, rfl⟩

/-- The modes that lie in each other in a document that starts in a mode of this name. -/
inductive Shape (start : ModeName) : Mode → List Mode → Prop where
  | outer {mode : Mode} (hs : start.isOuter = true) (h : mode.name = start) : Shape start mode []
  | inner {mode : Mode} (hs : start = .markup) (h : mode.name.isInner = true) :
    Shape start mode [.markup]
  | region {mode : Mode} {returns : List Mode} (r : Region) (h : Shape start mode returns)
    (hm : mode.name.holdsRegions = true) : Shape start (.verbatim r) (mode :: returns)

def Formed (start : ModeName) (stack : ModeStack) : Prop :=
  Shape start stack.active stack.returns

variable {start : ModeName} {stack : ModeStack}

/-- The shape of a stack does not depend on what the modes know. -/
theorem Shape.rename {mode mode' : Mode} {returns : List Mode} (h : Shape start mode returns)
    (hname : mode'.name = mode.name) : Shape start mode' returns := by
  cases h with
  | outer hs h => exact .outer hs (hname.trans h)
  | inner hs h => exact .inner hs (by rw [hname]; exact h)
  | region r h hm =>
    cases mode' with
    | verbatim r' => exact .region r' h hm
    | _ => exact absurd hname (by simp [Mode.name])

/-- The outermost mode of a document is not left. -/
theorem Formed.returns_ne_nil (h : stack.Formed start)
    (hm : stack.active.Makes stack.embedded .leave) : stack.returns ≠ [] := by
  obtain ⟨active, returns, count, left⟩ := stack
  cases h with
  | outer hs hname =>
    cases hm with
    | leave hends =>
      dsimp only at hends hname
      rw [hname] at hends
      cases start <;> simp [ModeName.ends, ModeName.isOuter, embedded] at hends hs
  | inner hs hname => simp
  | region r h hm => simp

/-- In the mode in which a document starts there is nothing to return to. -/
theorem Formed.returns_eq_nil (h : stack.Formed start) (hs : start.isOuter = true)
    (hname : stack.active.name = start) : stack.returns = [] := by
  obtain ⟨active, returns, count, left⟩ := stack
  dsimp only at hname
  subst hname
  cases h with
  | outer _ _ => rfl
  | inner hmarkup hinner => exact absurd hinner (by simp [hmarkup, ModeName.isInner])
  | region r _ _ => exact absurd hs (by simp [Mode.name, ModeName.isOuter])

/-- Every move keeps the stack in shape. -/
theorem Formed.apply {move : Move} (h : stack.Formed start)
    (hm : stack.active.Makes stack.embedded move) : (stack.apply move).Formed start := by
  obtain ⟨active, returns, count, left⟩ := stack
  cases hm with
  | keep hname => exact Shape.rename h hname
  | region r hname hholds =>
    refine .region r (Shape.rename h hname) ?_
    rw [hname]
    exact hholds
  | tag hmode hinner =>
    dsimp only at hmode
    subst hmode
    cases h with
    | outer hs hname => exact .inner hname.symm hinner
    | inner hs hname => exact absurd hname (by simp [Mode.name, ModeName.isInner])
  | content hmode hinner =>
    dsimp only at hmode
    subst hmode
    cases h with
    | outer hs hname =>
      rw [← hname] at hs
      exact absurd hs (by simp [Mode.name, ModeName.isOuter])
    | inner hs hname =>
      rcases hinner with hinner | hverbatim
      · exact .inner hs hinner
      · obtain ⟨r, rfl⟩ := Mode.isVerbatim_iff.1 hverbatim
        subst hs
        exact .region r (.outer rfl rfl) rfl
  | leave hends =>
    cases h with
    | outer hs hname => exact absurd rfl (Formed.returns_ne_nil (.outer hs hname) (.leave hends))
    | inner hs hname =>
      obtain ⟨hactive, hreturns⟩ := @leave_of_cons ⟨active, [.markup], count, left⟩ _ _ rfl
      unfold Formed ModeStack.apply
      dsimp only
      rw [hactive, hreturns]
      subst hs
      exact .outer rfl rfl
    | @region mode returns r h hm =>
      obtain ⟨hactive, hreturns⟩ :=
        @leave_of_cons ⟨.verbatim r, mode :: returns, count, left⟩ _ _ rfl
      unfold Formed ModeStack.apply
      dsimp only
      rw [hactive, hreturns]
      exact h

end ModeStack

namespace Scan
variable {settings : Settings} {below : Bytes} {state state' : State} {line line' : Line}
  {rest rest' : Bytes} {start : ModeName}

theorem formed_readGap (h : state.modes.Formed start) (text rest : Bytes) :
    (readGap settings state line text rest).2.modes.Formed start := by
  unfold readGap
  split_ifs
  · exact h
  · exact ModeStack.Shape.rename h (Mode.name_readText _ _ _)

/-- Text between lexemes leaves the mode in place. -/
theorem isVerbatim_readGap (settings : Settings) (state : State) (line : Line)
    (text rest : Bytes) : (readGap settings state line text rest).2.modes.active.isVerbatim =
      state.modes.active.isVerbatim := by
  unfold readGap
  split_ifs
  · rfl
  · change (Mode.readText _ _ _).2.isVerbatim = _
    cases state.modes.active <;> rfl

theorem name_readGap (settings : Settings) (state : State) (line : Line) (text rest : Bytes) :
    (readGap settings state line text rest).2.modes.active.name = state.modes.active.name := by
  unfold readGap
  split_ifs
  · rfl
  · exact Mode.name_readText _ _ _

theorem embedded_readGap (settings : Settings) (state : State) (line : Line) (text rest : Bytes) :
    (readGap settings state line text rest).2.modes.embedded = state.modes.embedded := by
  unfold readGap
  split_ifs
  · rfl
  · rfl

theorem label_mem_readGap {hit : Pattern.Hit Lexeme}
    (h : Pattern.search (state.modes.active.rules state.modes.embedded) none rest = some hit)
    (settings : Settings) (line : Line) (more : Bytes) :
    let modes := (readGap settings state line hit.skipped more).2.modes
    hit.label ∈ (modes.active.rules modes.embedded).map Prod.fst := by
  dsimp only
  rw [rules_readGap, embedded_readGap]
  exact Pattern.label_mem_of_search h

theorem formed_readLexeme (h : state.modes.Formed start) {lexeme : Lexeme}
    (hl : lexeme ∈ (state.modes.active.rules state.modes.embedded).map Prod.fst) (sight : Sight)
    (text : Bytes) :
    (readLexeme settings below state sight lexeme text).2.modes.Formed start := by
  unfold readLexeme
  dsimp only
  split_ifs with ht
  · have hholds := Mode.holdsRegions_of_isTemplate hl ht
    apply h.apply
    split
    · exact .region _ (Mode.name_settle _ _ _) hholds
    · exact .keep (Mode.name_settle _ _ _)
  · exact h.apply (Mode.makes_read hl _ _)

theorem formed_step (h : state.modes.Formed start)
    (hs : step settings below state line rest = .next state' line' rest') :
    state'.modes.Formed start := by
  simp only [step] at hs
  split at hs
  · exact absurd hs (by simp)
  · next hit hit? =>
    split at hs
    · exact absurd hs (by simp)
    · obtain ⟨rfl, -, -⟩ := Step.next.inj hs
      exact formed_readLexeme (formed_readGap h _ _) (label_mem_readGap hit? _ _ _) _ _

theorem formed_readLine (h : state.modes.Formed start) :
    (readLine settings below state line rest).1.modes.Formed start := by
  induction hn : rest.length using Nat.strongRecOn generalizing state line rest with
  | _ n ih =>
    cases hs : step settings below state line rest with
    | finished state₁ line₁ =>
      rw [readLine_of_finished hs]
      simp only [step] at hs
      split at hs
      · obtain ⟨rfl, -⟩ := Step.finished.inj hs
        exact formed_readGap h rest []
      · split at hs
        · exact absurd hs (by simp)
        · exact absurd hs (by simp)
    | failed state₁ overrun =>
      rw [readLine_of_failed hs]
      simp only [step] at hs
      split at hs
      · exact absurd hs (by simp)
      · split at hs
        · obtain ⟨rfl, -⟩ := Step.failed.inj hs
          exact formed_readGap h _ _
        · exact absurd hs (by simp)
    | next state₁ line₁ rest₁ =>
      rw [readLine_of_next hs]
      have hlt := length_lt_of_step hs
      exact ih rest₁.length (by omega) (formed_step h hs) rfl

end Scan

theorem Language.formed_start (language : Language) :
    language.start.Formed language.start.active.name := by
  cases language <;> exact .outer rfl rfl

end Reindent
