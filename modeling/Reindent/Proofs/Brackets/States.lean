import Reindent.Proofs.Brackets.Balance
import Reindent.Proofs.Brackets.Words

/-! The state of a script along a run: what every token makes of the open brackets, of the offset of
the line and of a switch statement that has begun. -/
namespace Reindent
open Bytes Pattern Text

/-- The token decides about the indentation of its line. Nothing visible stands in front of it if it
`leads`. -/
def Token.heads (leads : Bool) (t : Token) : Bool := leads && !t.isBlank && !t.ignore

namespace ScriptState

/-- What a token makes of the state of a script. -/
structure Step (leads : Bool) (t : Token) (s s' : ScriptState) : Prop where
  frames : Frame.Step t s.frames s'.frames
  opened : t.opensBracket = true → s'.frames =
    { offset := s'.lineOffset, hard := s.switching && t.opensBrace } :: s.frames
  surplus : t.closesBracket = true → s.frames = [] → t.indents = false ∧ t.kind = .script
  aligned : t.closesBracket = true → leads = true → ∀ f ∈ s.frames.head?, t.offset = f.offset
  label : t.isLabel = true → (t.kind = .case ↔ ∃ f ∈ s.frames.head?, f.hard = true)
  switching : s'.switching = (t.isSwitch || (s.switching && !t.opensBrace))
  settled : t.heads leads = true → (t.closesBracket = true → s.frames ≠ []) →
    s'.lineOffset = t.offset
  kept : t.heads leads = false → s'.lineOffset = s.lineOffset

theorem Step.numbered {leads : Bool} {t : Token} {s s' : ScriptState} (h : Step leads t s s')
    (number : Int64) : Step leads (t.numbered number) s s' :=
  ⟨h.frames.moved _ _, h.opened, h.surplus, h.aligned, h.label, h.switching, h.settled, h.kept⟩

theorem step_verbatim (leads : Bool) (text : Bytes) (s : ScriptState) :
    Step leads (.verbatim text) s s where
  frames := Frame.step_verbatim text s.frames
  opened h := absurd h Bool.false_ne_true
  surplus h := absurd h Bool.false_ne_true
  aligned h := absurd h Bool.false_ne_true
  label h := absurd h Bool.false_ne_true
  switching := by simp [Token.isSwitch, Token.opensBrace, Token.verbatim]
  settled h := absurd h (by simp [Token.heads, Token.verbatim])
  kept _ := rfl

/-- An opening bracket is the body of a switch statement if it is the first brace behind the word. -/
theorem Step.of_opens {leads : Bool} {t : Token} {s s' : ScriptState} (h : Step leads t s s')
    (ho : t.opensBracket = true) : t.indents = true ∧ t.dedents = false ∧
      t.kind = if s.switching && t.opensBrace then .switch else .script := by
  have hframes := h.frames
  have hopened := h.opened ho
  generalize s.frames = fs at hframes hopened
  generalize s'.frames = fs' at hframes hopened
  cases hframes with
  | passes _ hno _ => exact absurd (hno.symm.trans ho) Bool.false_ne_true
  | opens f _ _ hi hd hk =>
    obtain ⟨rfl, -⟩ := List.cons.inj hopened
    exact ⟨hi, hd, hk⟩
  | closes hc _ _ _ =>
    exact absurd ((Token.opensBracket_of_closesBracket hc).symm.trans ho) Bool.false_ne_true
  | surplus hc _ =>
    exact absurd ((Token.opensBracket_of_closesBracket hc).symm.trans ho) Bool.false_ne_true
  | label _ hno _ _ _ _ _ => exact absurd (hno.symm.trans ho) Bool.false_ne_true

variable {s s' : ScriptState} {sight : Sight} {t : Token} {text : Bytes}

theorem heads_eq (sight : Sight) (h : t.ignore = false) : t.heads sight.atStart = sight.leads t := by
  simp [Token.heads, Sight.leads, h]

/-- What a token that is no bracket makes of the state, except for the offset of the line. -/
structure Passes (t : Token) (s s' : ScriptState) : Prop where
  frames : Frame.Step t s.frames s'.frames
  text : t.text ∉ openers ++ closers
  ignore : t.ignore = false
  label : t.isLabel = true → (t.kind = .case ↔ ∃ f ∈ s.frames.head?, f.hard = true)
  switching : s'.switching = (t.isSwitch || s.switching)

section Passes
variable {leads : Bool}

theorem Passes.step (h : Passes t s s') (offset : Int64)
    (hsettled : t.heads leads = true → s'.lineOffset = offset)
    (hkept : t.heads leads = false → s'.lineOffset = s.lineOffset) :
    Step leads { t with offset } s s' := by
  have hno := h.text
  rw [List.mem_append, not_or] at hno
  have ho : t.opensBracket = false := by simp [Token.opensBracket, hno.1]
  have hc : t.closesBracket = false := by simp [Token.closesBracket, hno.2]
  have hbrace : t.opensBrace = false := by
    have hmem : ascii "\x7b" ∈ openers := by decide
    have hne : t.text ≠ ascii "\x7b" := fun heq => hno.1 (heq ▸ hmem)
    simp [Token.opensBrace, hne]
  have hswitching := h.switching
  rw [← Bool.and_true s.switching, ← Bool.not_false, ← hbrace] at hswitching
  refine ⟨h.frames.moved _ _, ?_, ?_, ?_, h.label, hswitching, fun hh _ => hsettled hh, hkept⟩
  · exact fun hopens => absurd (ho.symm.trans hopens) Bool.false_ne_true
  · exact fun hcloses => absurd (hc.symm.trans hcloses) Bool.false_ne_true
  · exact fun hcloses => absurd (hc.symm.trans hcloses) Bool.false_ne_true

theorem Passes.settle (h : Passes t s s') (hoffset : s'.lineOffset = s.lineOffset) (sight : Sight) :
    Step sight.atStart (s'.settle sight t).1 s (s'.settle sight t).2 := by
  have hheads := heads_eq sight h.ignore
  unfold ScriptState.settle
  split_ifs with hleads
  · have hpasses : Passes t s { s' with lineOffset := s'.base } :=
      ⟨h.frames, h.text, h.ignore, h.label, h.switching⟩
    refine hpasses.step s'.base (fun _ => rfl) fun hno => ?_
    exact absurd (hno.symm.trans (hheads.trans hleads)) Bool.false_ne_true
  · refine h.step t.offset (fun hyes => ?_) fun _ => hoffset
    exact absurd (hheads.symm.trans hyes) hleads

/-- Tokens that are neither brackets nor words. Template tags are none either. -/
theorem passes_of_notMem (hn : t.nests = false ∨ t.kind = .template) (hi : t.ignore = false)
    (hno : t.text ∉ openers ++ closers) (hw : t.text ∉ switchWords) : Passes t s s := by
  rw [switchWords, List.mem_cons, not_or] at hw
  refine ⟨Frame.step_of_notMem hn hno _, hno, hi, fun h => ?_, ?_⟩
  · exact absurd h (by simp [Token.isLabel, hw.2])
  · simp [Token.isSwitch, hw.1]

theorem passes_plain (hno : text ∉ openers ++ closers) (hw : text ∉ switchWords) :
    Passes (.plain text .script) s s := passes_of_notMem (Or.inl rfl) rfl hno hw

theorem passes_switchWord :
    Passes (.plain (ascii "switch") .script) s { s with switching := true } := by
  have hno : ascii "switch" ∉ openers ++ closers := by decide
  exact ⟨step_plain hno _, hno, rfl, fun h => absurd h (by decide), rfl⟩

/-- A word in front of a label counts if the innermost bracket is the body of a switch statement. -/
private theorem kind_label (s : ScriptState) (text : Bytes) :
    (s.label text).1.kind = .case ↔ ∃ f ∈ s.frames.head?, f.hard = true := by
  unfold label
  split
  · next f frames hframes =>
    split_ifs with hhard hcase
    · simp [hframes, hhard, Token.reopening]
    · simp [hframes, hhard, Token.opening]
    · simp [hframes, hhard, Token.plain]
  · next hframes => simp [hframes, Token.plain]

private theorem fields_label (s : ScriptState) (text : Bytes) :
    (s.label text).1.text = text ∧ (s.label text).1.ignore = false ∧
      (s.label text).2.switching = s.switching ∧
      (s.label text).2.lineOffset = s.lineOffset := by
  unfold label
  split
  · split_ifs <;> exact ⟨rfl, rfl, rfl, rfl⟩
  · exact ⟨rfl, rfl, rfl, rfl⟩

theorem passes_label (ht : text ∈ labelWords) :
    Passes (s.label text).1 s (s.label text).2 := by
  have hall : ∀ text ∈ labelWords, text ∉ openers ++ closers ∧ allBlank text = false ∧
      text ≠ ascii "switch" := by
    decide +kernel
  obtain ⟨hno, hv, hne⟩ := hall text ht
  obtain ⟨htext, hignore, hswitching, -⟩ := fields_label s text
  refine ⟨step_label hno hv, by rwa [htext], hignore, fun _ => kind_label s text, ?_⟩
  rw [hswitching, Token.isSwitch, htext, beq_eq_false_iff_ne.2 hne, Bool.and_false, Bool.false_or]

end Passes

theorem step_of_dot (hno : text ∉ openers ++ closers) (hw : text ∉ switchWords)
    (hv : allBlank text = false) : Step sight.atStart (s.dot sight text).1 s (s.dot sight text).2 := by
  have hheads : (Token.plain text .script).heads sight.atStart = sight.atStart := by
    simp [Token.heads, Token.isBlank, Token.plain, hv]
  have hpasses : ∀ offset, Passes (.plain text .script) s { s with lineOffset := offset } := by
    intro offset
    obtain ⟨hframes, htext, hi, hlabel, hswitching⟩ := passes_plain (s := s) hno hw
    exact ⟨hframes, htext, hi, hlabel, hswitching⟩
  unfold dot
  dsimp only
  split_ifs with hstart
  · refine (hpasses _).step _ (fun _ => rfl) fun h => ?_
    exact absurd (h.symm.trans (hheads.trans hstart)) Bool.false_ne_true
  · refine (hpasses s.lineOffset).step 0 (fun h => ?_) fun _ => rfl
    exact absurd (hheads.symm.trans h) hstart

/-- An opening bracket at once: first it is put in its place, then its frame is kept. -/
private theorem openBracket_eq (s : ScriptState) (sight : Sight) (text : Bytes) :
    s.openBracket sight text =
      let hard := s.switching && text == ascii "\x7b"
      let leads := sight.leads (.opening text .script)
      let lineOffset := if leads then s.base else s.lineOffset
      ({ text, kind := if hard then .switch else .script, indents := true,
         offset := if leads then s.base else 0 },
       { frames := { offset := lineOffset, hard } :: s.frames,
         switching := s.switching && !(text == ascii "\x7b"), lineOffset }) := by
  obtain ⟨frames, switching, lineOffset⟩ := s
  unfold openBracket settle
  cases sight.leads (.opening text .script) with
  | true => cases switching <;> cases text == ascii "\x7b" <;> rfl
  | false => cases switching <;> cases text == ascii "\x7b" <;> rfl

theorem step_of_openBracket (ht : text ∈ openers) :
    Step sight.atStart (s.openBracket sight text).1 s (s.openBracket sight text).2 := by
  have hframes : Frame.Step (s.openBracket sight text).1 s.frames
      (s.openBracket sight text).2.frames := step_openBracket ht
  have hall : ∀ text ∈ openers, closers.contains text = false ∧ labelWords.contains text = false ∧
      (text == ascii "switch") = false := by
    decide
  obtain ⟨hclose, hlabel, hswitch⟩ := hall text ht
  have hheads := heads_eq (t := .opening text .script) sight rfl
  rw [openBracket_eq] at hframes ⊢
  refine ⟨hframes, fun _ => rfl, fun h => ?_, fun h => ?_, fun h => ?_, ?_, fun h _ => ?_,
    fun h => ?_⟩
  · exact absurd (hclose.symm.trans h) Bool.false_ne_true
  · exact absurd (hclose.symm.trans h) Bool.false_ne_true
  · exact absurd (hlabel.symm.trans h) Bool.false_ne_true
  · simp [Token.isSwitch, Token.opensBrace, hswitch]
  · have hleads : sight.leads (.opening text .script) = true := hheads.symm.trans h
    dsimp only
    rw [hleads]
    rfl
  · have hleads : sight.leads (.opening text .script) = false := hheads.symm.trans h
    dsimp only
    rw [hleads]
    rfl

private theorem closeBracket_cons (f : Frame) (frames : List Frame) (switching : Bool)
    (lineOffset : Int64) (sight : Sight) (text : Bytes) :
    closeBracket sight ⟨f :: frames, switching, lineOffset⟩ text =
      ({ text, kind := f.kind, dedents := true, offset := if sight.atStart then f.offset else 0 },
       ⟨frames, switching, if sight.atStart then f.offset else lineOffset⟩) := by
  unfold closeBracket
  cases sight.atStart <;> rfl

theorem step_of_closeBracket (ht : text ∈ closers) :
    Step sight.atStart (s.closeBracket sight text).1 s (s.closeBracket sight text).2 := by
  have hframes : Frame.Step (s.closeBracket sight text).1 s.frames
      (s.closeBracket sight text).2.frames := step_closeBracket ht
  have hall : ∀ text ∈ closers, openers.contains text = false ∧ labelWords.contains text = false ∧
      (text == ascii "switch") = false ∧ (text == ascii "\x7b") = false ∧
      allBlank text = false := by
    decide +kernel
  obtain ⟨hopen, hlabel, hswitch, hbrace, hv⟩ := hall text ht
  have hopens : ∀ {kind offset},
      ({ text, kind, offset, dedents := true } : Token).opensBracket = false := hopen
  have hsame : ∀ {kind offset},
      ({ text, kind, offset, dedents := true } : Token).isLabel = false := hlabel
  have hswitching : ∀ {kind offset} (switching : Bool), switching =
      (({ text, kind, offset, dedents := true } : Token).isSwitch || (switching &&
        !({ text, kind, offset, dedents := true } : Token).opensBrace)) := by
    simp [Token.isSwitch, Token.opensBrace, hswitch, hbrace]
  have hheads : ∀ {kind offset}, ({ text, kind, offset, dedents := true } : Token).heads
      sight.atStart = sight.atStart := by
    simp [Token.heads, Token.isBlank, hv]
  have hcloses : ∀ {kind offset},
      ({ text, kind, offset, dedents := true } : Token).closesBracket = true := by
    simpa [Token.closesBracket] using ht
  obtain ⟨frames, switching, lineOffset⟩ := s
  cases frames with
  | nil =>
    refine ⟨hframes, fun h => absurd (hopens.symm.trans h) Bool.false_ne_true, fun _ _ => ⟨rfl, rfl⟩,
      fun _ _ f hf => absurd hf (by simp), fun h => absurd (hsame.symm.trans h) Bool.false_ne_true,
      hswitching _, fun _ h => absurd rfl (h hcloses), fun _ => rfl⟩
  | cons f frames =>
    rw [closeBracket_cons] at hframes ⊢
    refine ⟨hframes, fun h => absurd (hopens.symm.trans h) Bool.false_ne_true,
      fun _ h => absurd h (by simp), fun _ hleads x hx => ?_,
      fun h => absurd (hsame.symm.trans h) Bool.false_ne_true, hswitching _, fun h _ => ?_,
      fun h => ?_⟩
    · obtain rfl : f = x := by simpa using hx
      exact if_pos hleads
    · have hstart : sight.atStart = true := hheads.symm.trans h
      simp only [hstart, if_true]
    · have hstart : sight.atStart = false := hheads.symm.trans h
      simp [hstart]

inductive Continues (s : ScriptState) : Move → Prop where
  | keep : Continues s (.keep (.script s))
  | region (r : Region) : Continues s (.enter (.script s) (.verbatim r))

theorem step_of_read (s : ScriptState) (sight : Sight) {lexeme : Lexeme} (hl : lexeme ≠ .closer)
    (hspells : lexeme.Spells text) (hmeans : lexeme.Says text) (hv : allBlank text = false) :
    ∃ s', Step sight.atStart (s.read sight lexeme text).1 s s' ∧
      Continues s' (s.read sight lexeme text).2 := by
  have hplain : text ∉ openers ++ closers → text ∉ switchWords →
      Step sight.atStart (s.settle sight (.plain text .script)).1 s
        (s.settle sight (.plain text .script)).2 :=
    fun hno hw => (passes_plain hno hw).settle rfl sight
  unfold read
  dsimp only
  split
  case h_1 =>
    split_ifs
    · exact ⟨_, hplain hspells hmeans, .region _⟩
    · exact ⟨_, hplain hspells hmeans, .keep⟩
  case h_2 => exact ⟨_, hplain hspells hmeans, .region _⟩
  case h_3 => exact ⟨_, hplain hspells hmeans, .region _⟩
  case h_4 => exact absurd rfl hl
  case h_5 =>
    have hword : text = ascii "switch" := hmeans
    subst hword
    exact ⟨_, passes_switchWord.settle rfl sight, .keep⟩
  case h_6 => exact ⟨_, (passes_label hmeans).settle (fields_label s text).2.2.2 sight, .keep⟩
  case h_7 => exact ⟨_, step_of_dot hspells hmeans hv, .keep⟩
  case h_8 => exact ⟨_, step_of_openBracket hspells, .keep⟩
  case h_9 => exact ⟨_, step_of_closeBracket hspells, .keep⟩
  case h_10 =>
    exact ⟨_, hplain (hspells.notMem (by assumption) (by assumption))
      (hmeans.notMem (by assumption) (by assumption)), .keep⟩

end ScriptState

/-- The state of the script that is active, or that a verbatim region lies in. -/
def ModeStack.script (modes : ModeStack) : ScriptState :=
  match modes.active, modes.returns with
  | .script s, _ => s
  | _, .script s :: _ => s
  | _, _ => {}

theorem ScriptState.Continues.script_apply {s : ScriptState} {move : Move} (h : Continues s move)
    (modes : ModeStack) : (modes.apply move).script = s := by
  cases h with
  | keep => rfl
  | region r => rfl

namespace Scan

/-- How a token of a script was read, between `lead` and `more` on its line. -/
structure Reading.InScript (lead : List Token) (more : Bytes) (r : Reading) : Prop
    extends r.Shown more where
  step : ScriptState.Step (lead.all Token.isBlank) r.token r.before.script r.after.script

section Steps
variable {settings : Settings} {below : Bytes} {state : State} {text more : Bytes}

private theorem step_readText (h : state.modes.Formed .script)
    (hskips : Skips state.modes text more) (sight : Sight) :
    ScriptState.Step sight.atStart (state.modes.active.readText sight text).1 state.modes.script
      (state.modes.setActive (state.modes.active.readText sight text).2).script := by
  obtain ⟨⟨active, returns, count, left⟩, memory⟩ := state
  obtain ⟨s, rfl, rfl⟩ | ⟨r, s, rfl, rfl⟩ := h.script_cases
  · have hno := Whole.notMem_of_passesOver rfl hskips.passesOver
    have hw := hskips.notMem_switchWords rfl rfl
    exact (ScriptState.passes_plain (s := s) hno hw).settle rfl sight
  · exact ScriptState.step_verbatim _ text s

private theorem inScript_template {s : ScriptState} {count : Nat} {left : List Mode}
    {memory : Lookahead} {lexeme : Lexeme} (ht : lexeme.isTemplate = true) (sight : Sight)
    (hno : text ∉ openers ++ closers) (hw : text ∉ switchWords) :
    ScriptState.Step sight.atStart
      (readLexeme settings below ⟨⟨.script s, [], count, left⟩, memory⟩ sight lexeme text).1 s
      (readLexeme settings below ⟨⟨.script s, [], count, left⟩, memory⟩ sight lexeme
        text).2.modes.script := by
  have hpasses : ScriptState.Passes
      (Template.read settings.blocks memory lexeme text (sight.rest ++ below)).1 s s := by
    refine ScriptState.passes_of_notMem (Or.inr (Template.kind_read _ _ _ _ _))
      (Template.ignore_read _ _ _ _ _) ?_ ?_
    · rwa [Template.text_read]
    · rwa [Template.text_read]
  unfold readLexeme
  dsimp only
  rw [if_pos ht]
  generalize Template.read settings.blocks memory lexeme text (sight.rest ++ below) = read at hpasses
  obtain ⟨t, region?, memory⟩ := read
  have hsettled := hpasses.settle rfl sight
  cases region? with
  | none => exact hsettled
  | some region => exact hsettled

/-- A script waits behind a verbatim region, and goes on in its state when the region ends. -/
private theorem script_region (r : Region) (s : ScriptState) (count : Nat) (left : List Mode)
    (lexeme : Lexeme) : (ModeStack.apply ⟨.verbatim r, [.script s], count, left⟩
      (if lexeme = .escape then .keep (.verbatim r) else .leave)).script = s := by
  split_ifs
  · rfl
  · unfold ModeStack.apply ModeStack.leave
    dsimp only
    split_ifs <;> rfl

private theorem step_readLexeme {lexeme : Lexeme} {matched rest : Bytes}
    (h : state.modes.Formed .script) (sight : Sight) (hfinds : Finds state.modes lexeme matched rest) :
    ScriptState.Step sight.atStart (readLexeme settings below state sight lexeme matched).1
      state.modes.script (readLexeme settings below state sight lexeme matched).2.modes.script := by
  have hlabel := hfinds.label_mem
  obtain ⟨b, tail, hmatched, hb⟩ := hfinds.exists_head
  have hv : allBlank matched = false := allBlank_of_mem (by rw [hmatched]; simp) hb
  obtain ⟨p, before, hrule, hmatch⟩ := hfinds
  obtain ⟨⟨active, returns, count, left⟩, memory⟩ := state
  obtain ⟨s, rfl, rfl⟩ | ⟨r, s, rfl, rfl⟩ := h.script_cases
  · have hspells : lexeme.Spells matched := ScriptState.spells_of_match hrule hmatch
    have hmeans : lexeme.Says matched := ScriptState.says_of_match hrule hmatch
    by_cases ht : lexeme.isTemplate = true
    · have hne : ∀ other : Lexeme, other.isTemplate = false → lexeme ≠ other := by
        rintro other hother rfl
        exact absurd (ht.symm.trans hother) (by simp)
      exact inScript_template ht sight (hspells.notMem (hne _ rfl) (hne _ rfl))
        (hmeans.notMem (hne _ rfl) (hne _ rfl))
    · have hcloser : ∀ r ∈ ScriptState.rules false, r.1 ≠ .closer := by decide
      obtain ⟨s', hstep, hgoes⟩ :=
        ScriptState.step_of_read s sight (hcloser _ hrule) hspells hmeans hv
      rw [← hgoes.script_apply ⟨.script s, [], count, left⟩] at hstep
      unfold readLexeme
      dsimp only
      rw [if_neg ht]
      exact hstep
  · have ht : ¬ lexeme.isTemplate = true := by
      intro ht
      have hplain := isVerbatim_of_isTemplate hlabel ht
      exact absurd hplain (by simp [Mode.isVerbatim])
    have hstep := ScriptState.step_verbatim sight.atStart matched s
    nth_rewrite 2 [← script_region r s count left lexeme] at hstep
    unfold readLexeme
    dsimp only
    rw [if_neg ht]
    exact hstep

/-- A script that stands on its own, token by token. -/
theorem sustains_script (settings : Settings) :
    Sustains settings Reading.InScript (fun state _ => state.modes.Formed .script) where
  gap state line text more h _ hskips := by
    have hstep := step_readText h hskips ⟨settings.tabWidth, line, more⟩
    exact ⟨⟨shown_gap hskips _ _, hstep.numbered line.number⟩,
      ModeStack.Shape.rename h (Mode.name_readText _ _ _)⟩
  lexeme below state line lexeme matched rest n h hfinds hn := by
    have hshown := @shown_lexeme settings below state lexeme matched rest n hfinds hn
      ⟨settings.tabWidth, line, matched.drop n ++ rest⟩ line.number (matched.drop n ++ rest)
    obtain rfl : matched.length = n := by
      rw [Whole.extent_of_formed h] at hn
      exact Except.ok.inj hn
    rw [List.take_length] at hshown ⊢
    have hstep := @step_readLexeme settings below state lexeme matched rest h
      ⟨settings.tabWidth, line, matched.drop matched.length ++ rest⟩ hfinds
    exact ⟨⟨hshown, hstep.numbered line.number⟩, formed_readLexeme h hfinds.label_mem _ _⟩
  newline _ _ _ h := h

end Steps

theorem exists_linesRun_script {settings : Settings} {source : Bytes} {lines : List Line}
    (h : tokenize settings { active := .script {} } source = .ok lines) :
    ∃ final, LinesRun Reading.InScript { active := .script {} } lines final :=
  (sustains_script settings).tokenize (fun _ => ModeStack.Shape.outer rfl rfl) h

end Scan
namespace ScriptState

inductive Steps : ScriptState → List Token → ScriptState → Prop where
  | nil (s : ScriptState) : Steps s [] s
  | cons {leads : Bool} {t : Token} {tokens : List Token} {s between s' : ScriptState}
    (h : Step leads t s between) (hs : Steps between tokens s') : Steps s (t :: tokens) s'

namespace Steps
variable {s s' : ScriptState} {tokens front back : List Token}

theorem split (h : Steps s (front ++ back) s') :
    ∃ between, Steps s front between ∧ Steps between back s' := by
  induction front generalizing s with
  | nil => exact ⟨s, .nil s, h⟩
  | cons t front ih =>
    cases h with
    | cons ht hs =>
      obtain ⟨between, hfront, hback⟩ := ih hs
      exact ⟨between, .cons ht hfront, hback⟩

theorem frames (h : Steps s tokens s') : Frame.Steps s.frames tokens s'.frames := by
  induction h with
  | nil s => exact .nil s.frames
  | cons ht _ ih => exact .cons ht.frames ih

/-- A switch statement that has begun waits for a brace. -/
theorem switching (h : Steps s tokens s') (hno : ∀ t ∈ tokens, t.isSwitch = false) :
    s'.switching = (s.switching && tokens.all (!·.opensBrace)) := by
  induction h with
  | nil s => rw [List.all_nil, Bool.and_true]
  | @cons _ t _ _ _ _ ht _ ih =>
    rw [ih fun x hx => hno x (List.mem_cons_of_mem _ hx), ht.switching,
      hno t List.mem_cons_self, Bool.false_or, List.all_cons, Bool.and_assoc]

end Steps
end ScriptState

/-- What stays of an open bracket until it is closed: the offset of its line, and whether it is the
body of a switch statement. -/
def Frame.lasting (f : Frame) : Int64 × Bool := (f.offset, f.hard)

/-- The brackets that are open on both sides of some tokens. Those tokens close only what they have
opened, and the `depth` innermost brackets in front of them. -/
theorem Frame.Steps.lasting {fs fs' : List Frame} {tokens : List Token} {depth depth' : Nat}
    (h : Steps fs tokens fs') (hd : depthAfter? depth tokens = some depth') :
    (fs'.drop depth').map Frame.lasting = (fs.drop depth).map Frame.lasting := by
  induction h generalizing depth with
  | nil fs =>
    have hdepth : depth = depth' := Option.some.inj hd
    rw [hdepth]
  | @cons t tokens fs between fs' ht _ ih =>
    rw [depthAfter?_cons] at hd
    obtain ⟨next, hnext, hd⟩ := Option.bind_eq_some_iff.1 hd
    rw [ih hd]
    unfold bracketDepth? at hnext
    cases ht with
    | passes _ ho hc =>
      have hsame : depth = next := by simpa [ho, hc] using hnext
      rw [hsame]
    | opens f _ ho _ _ _ =>
      have hdeeper : depth + 1 = next := by simpa [ho] using hnext
      rw [← hdeeper, List.drop_succ_cons]
    | closes hc _ _ _ =>
      simp only [Token.opensBracket_of_closesBracket hc, hc, if_true, Bool.false_eq_true,
        if_false] at hnext
      cases depth with
      | zero => exact absurd hnext (by simp)
      | succ depth =>
        rw [← Option.some.inj hnext, List.drop_succ_cons]
    | surplus _ _ => rw [List.drop_nil, List.drop_nil]
    | label _ ho hc _ _ _ _ =>
      have hsame : depth = next := by simpa [ho, hc] using hnext
      rw [← hsame]
      cases depth with
      | zero => rfl
      | succ depth => rfl

namespace Scan

private theorem Chain.steps {modes final : ModeStack} {tokens : List Token}
    (h : Chain (fun r => ∃ lead more, r.InScript lead more) modes tokens final) :
    ScriptState.Steps modes.script tokens final.script := by
  induction h with
  | nil modes => exact .nil _
  | cons hr _ ih =>
    obtain ⟨lead, more, hr⟩ := hr
    exact .cons hr.step ih

theorem LinesRun.steps {modes final : ModeStack} {lines : List Line}
    (h : LinesRun Reading.InScript modes lines final) :
    ScriptState.Steps modes.script (lines.flatMap Line.tokens) final.script :=
  (h.chain fun lead more _ hr => ⟨lead, more, hr⟩).steps

end Scan
end Reindent
