import Reindent.Proofs.Scan.Tokens

/-! Where modes return to. Whatever is read, there is a mode to go on in: tags and embedded style
sheets and scripts return to markup, and a verbatim region returns to the mode around it, which it
gives back as it was. -/
namespace Reindent
open Bytes

namespace Mode

/-- The second mode has the brackets, the frames and the flags of the first one, which is a style
sheet or a script. Of a script, the offset of the current line may differ. -/
inductive SameState : Mode → Mode → Prop where
  | style (s : StyleState) : SameState (.style s) (.style s)
  | script {s s' : ScriptState} (hframes : s'.frames = s.frames)
    (hswitching : s'.switching = s.switching) : SameState (.script s) (.script s')

def isCode : Mode → Bool
  | .style _ | .script _ => true
  | _ => false

theorem sameState_scriptSettle (sight : Sight) (s : ScriptState) (t : Token) :
    SameState (.script s) (.script (s.settle sight t).2) := by
  unfold ScriptState.settle
  split_ifs
  · exact .script rfl rfl
  · exact .script rfl rfl

theorem sameState_settle {mode : Mode} (h : mode.isCode = true) (sight : Sight) (t : Token) :
    SameState mode (mode.settle sight t).2 := by
  cases mode with
  | style s => exact .style s
  | script s => exact sameState_scriptSettle sight s t
  | _ => exact absurd h (by simp [isCode])

/-- A region that starts in a style sheet or a script lies in front of its present state. -/
theorem sameState_read {mode self inner : Mode} (h : mode.isCode = true) {sight : Sight}
    {lexeme : Lexeme} {text : Bytes}
    (hm : (mode.read sight lexeme text).2 = .enter self inner) : SameState mode self := by
  cases mode with
  | style s =>
    change (s.read sight lexeme text).2 = _ at hm
    unfold StyleState.read at hm
    dsimp only at hm
    split at hm
    case h_1 =>
      obtain ⟨rfl, -⟩ := Move.enter.inj hm
      exact .style s
    case h_2 =>
      obtain ⟨rfl, -⟩ := Move.enter.inj hm
      exact .style s
    all_goals exact absurd hm (by simp)
  | script s =>
    change (s.read sight lexeme text).2 = _ at hm
    unfold ScriptState.read at hm
    dsimp only at hm
    split at hm
    case h_1 =>
      split_ifs at hm
      obtain ⟨rfl, -⟩ := Move.enter.inj hm
      exact sameState_scriptSettle sight s _
    case h_2 =>
      obtain ⟨rfl, -⟩ := Move.enter.inj hm
      exact sameState_scriptSettle sight s _
    case h_3 =>
      obtain ⟨rfl, -⟩ := Move.enter.inj hm
      exact sameState_scriptSettle sight s _
    all_goals exact absurd hm (by simp)
  | _ => exact absurd h (by simp [isCode])

end Mode

namespace ModeStack

/-- The mode lies on the stack. When it ends, it returns to `back?`, if that is any mode. -/
def Returns (stack : ModeStack) (mode : Mode) (back? : Option Mode) : Prop :=
  ∃ i : Nat, (stack.active :: stack.returns)[i]? = some mode ∧
    (stack.active :: stack.returns)[i + 1]? = back?

/-- If the active mode ends with a lexeme that it recognises, there is a mode to go on in. Template
syntax ends no mode. -/
def GoesOn (stack : ModeStack) : Prop :=
  ∀ (sight : Sight) (lexeme : Lexeme) (text : Bytes),
    lexeme ∈ (stack.active.rules stack.embedded).map Prod.fst →
    (stack.active.read sight lexeme text).2 = .leave → stack.returns ≠ []

/-- What holds of the modes of a document that starts in a mode of the given name. A style sheet or
a script in which it starts is never left but for a verbatim region. -/
structure Sound (start : ModeName) (stack : ModeStack) : Prop where
  goesOn : stack.GoesOn
  tag : ∀ o back?, stack.Returns (.tag o) back? → back? = some .markup
  endTag : ∀ back?, stack.Returns .endTag back? → back? = some .markup
  style : ∀ s back?, stack.Returns (.style s) back? →
    back? = some .markup ∨ back? = none ∧ start = .style
  script : ∀ s back?, stack.Returns (.script s) back? →
    back? = some .markup ∨ back? = none ∧ start = .script
  region : ∀ r back?, stack.Returns (.verbatim r) back? →
    ∃ back, back? = some back ∧ back.isVerbatim = false ∧ back ≠ .endTag
  outermost : start = .style ∨ start = .script →
    stack.active.name = start ∧ stack.returns = [] ∨
      ∃ r mode, stack.active = .verbatim r ∧ mode.name = start ∧ stack.returns = [mode]

variable {start : ModeName} {stack : ModeStack}

/-- Modes by their names, and where they return to. -/
inductive Backs (start : ModeName) (mode : Mode) : Option Mode → Prop where
  | outer (hs : start.isOuter = true) (h : mode.name = start) : Backs start mode none
  | inner (h : mode.name.isInner = true) : Backs start mode (some .markup)
  | region {back : Mode} (h : mode.isVerbatim = true) (hb : back.name.holdsRegions = true) :
    Backs start mode (some back)

theorem Shape.backs {active mode : Mode} {returns : List Mode} (h : Shape start active returns)
    {i : Nat} (hi : (active :: returns)[i]? = some mode) :
    Backs start mode (active :: returns)[i + 1]? := by
  induction h generalizing i with
  | outer hs hname =>
    cases i with
    | zero =>
      obtain rfl := Option.some.inj hi
      exact .outer hs hname
    | succ i => exact absurd hi (by simp)
  | inner hs hname =>
    match i with
    | 0 =>
      obtain rfl := Option.some.inj hi
      exact .inner hname
    | 1 =>
      obtain rfl := Option.some.inj hi
      exact .outer (by rw [hs]; rfl) hs.symm
    | i + 2 => exact absurd hi (by simp)
  | region r h hholds ih =>
    cases i with
    | zero =>
      obtain rfl := Option.some.inj hi
      exact .region rfl hholds
    | succ i => exact ih hi

theorem Shape.outermost {active : Mode} {returns : List Mode} (h : Shape start active returns)
    (hstart : start = .style ∨ start = .script) :
    active.name = start ∧ returns = [] ∨
      ∃ r mode, active = .verbatim r ∧ mode.name = start ∧ returns = [mode] := by
  have hne : start ≠ .markup := by
    rcases hstart with rfl | rfl
    · simp
    · simp
  cases h with
  | outer hs hname => exact Or.inl ⟨hname, rfl⟩
  | inner hs hname => exact absurd hs hne
  | @region mode returns r h hholds =>
    refine Or.inr ⟨r, mode, rfl, ?_⟩
    cases h with
    | outer hs hname => exact ⟨hname, rfl⟩
    | inner hs hname => exact absurd hs hne
    | region r h hm => exact absurd hholds (by simp [Mode.name, ModeName.holdsRegions])

namespace Backs
variable {mode : Mode} {back? : Option Mode}

/-- What can lie only in markup returns to it. -/
theorem eq_markup (h : Backs start mode back?) (ho : mode.name.isOuter = false)
    (hv : mode.isVerbatim = false) : back? = some .markup := by
  cases h with
  | outer hs hname => exact absurd (ho.symm.trans (hname ▸ hs)) Bool.false_ne_true
  | inner hname => rfl
  | region hverbatim hb => exact absurd (hv.symm.trans hverbatim) Bool.false_ne_true

theorem markup_or_none (h : Backs start mode back?) (hv : mode.isVerbatim = false) :
    back? = some .markup ∨ back? = none ∧ start = mode.name := by
  cases h with
  | outer hs hname => exact Or.inr ⟨rfl, hname.symm⟩
  | inner hname => exact Or.inl rfl
  | region hverbatim hb => exact absurd (hv.symm.trans hverbatim) Bool.false_ne_true

theorem exists_back {r : Region} (h : Backs start (.verbatim r) back?) :
    ∃ back, back? = some back ∧ back.isVerbatim = false ∧ back ≠ .endTag := by
  cases h with
  | outer hs hname => exact absurd hs (by rw [← hname]; simp [Mode.name, ModeName.isOuter])
  | inner hname => exact absurd hname (by simp [Mode.name, ModeName.isInner])
  | @region back hv hb =>
    refine ⟨back, rfl, ?_⟩
    cases back with
    | endTag => exact absurd hb (by simp [Mode.name, ModeName.holdsRegions])
    | verbatim r => exact absurd hb (by simp [Mode.name, ModeName.holdsRegions])
    | _ => exact ⟨rfl, by simp⟩

end Backs

theorem Formed.sound (h : stack.Formed start) : stack.Sound start := by
  have hbacks : ∀ {mode back?}, stack.Returns mode back? → Backs start mode back? := by
    rintro mode _ ⟨i, hi, rfl⟩
    exact Shape.backs h hi
  constructor
  case goesOn =>
    intro sight lexeme text hl hleave
    have hmakes := Mode.makes_read hl sight text
    rw [hleave] at hmakes
    exact h.returns_ne_nil hmakes
  case tag => exact fun o back? hreturns => (hbacks hreturns).eq_markup rfl rfl
  case endTag => exact fun back? hreturns => (hbacks hreturns).eq_markup rfl rfl
  case style => exact fun s back? hreturns => (hbacks hreturns).markup_or_none rfl
  case script => exact fun s back? hreturns => (hbacks hreturns).markup_or_none rfl
  case region => exact fun r back? hreturns => (hbacks hreturns).exists_back
  case outermost => exact Shape.outermost h

/-- What a token makes of the modes around a verbatim region. It starts in front of the present
state of a style sheet or a script, and while it goes on, the modes around it wait. -/
structure Suspends (before after : ModeStack) : Prop where
  enters : before.active.isCode = true → after.active.isVerbatim = true →
    ∃ self, Mode.SameState before.active self ∧ after.returns = self :: before.returns
  stays : before.active.isVerbatim = true → after.active.isVerbatim = true →
    after.returns = before.returns
  leaves : before.active.isVerbatim = true → after.active.isVerbatim = false →
    before.returns = after.active :: after.returns

private theorem isVerbatim_eq_of_name {mode mode' : Mode} (h : mode'.name = mode.name) :
    mode'.isVerbatim = mode.isVerbatim := by
  cases mode <;> cases mode' <;> simp_all [Mode.name, Mode.isVerbatim]

private theorem isVerbatim_of_isCode {mode : Mode} (h : mode.isCode = true) :
    mode.isVerbatim = false := by
  cases mode with
  | verbatim r => exact absurd h (by simp [Mode.isCode])
  | _ => rfl

theorem suspends_setActive {self : Mode} (h : self.name = stack.active.name) :
    Suspends stack (stack.setActive self) := by
  have hsame : (stack.setActive self).active.isVerbatim = stack.active.isVerbatim :=
    isVerbatim_eq_of_name h
  constructor
  case enters =>
    intro hcode hverbatim
    have hno := isVerbatim_of_isCode hcode
    exact absurd (hno.symm.trans (hsame.symm.trans hverbatim)) Bool.false_ne_true
  case stays => exact fun _ _ => rfl
  case leaves =>
    intro hverbatim hno
    exact absurd (hno.symm.trans (hsame.trans hverbatim)) Bool.false_ne_true

theorem Formed.suspends_leave (h : stack.Formed start) (hne : stack.returns ≠ []) :
    Suspends stack stack.leave := by
  obtain ⟨mode, returns, hreturns⟩ := List.exists_cons_of_ne_nil hne
  obtain ⟨hactive, hbehind⟩ := leave_of_cons hreturns
  have hback : Backs start stack.active (some mode) := by
    have hbacks := Shape.backs h (i := 0) rfl
    rw [hreturns] at hbacks
    exact hbacks
  constructor
  case enters =>
    intro hcode hverbatim
    rcases hback.markup_or_none (isVerbatim_of_isCode hcode) with hmarkup | ⟨hnone, -⟩
    · rw [hactive, Option.some.inj hmarkup] at hverbatim
      exact absurd hverbatim Bool.false_ne_true
    · exact absurd hnone (by simp)
  case stays =>
    intro hregion hverbatim
    obtain ⟨r, hr⟩ := Mode.isVerbatim_iff.1 hregion
    rw [hr] at hback
    obtain ⟨back, hsome, hno, -⟩ := hback.exists_back
    rw [hactive, Option.some.inj hsome] at hverbatim
    exact absurd (hno.symm.trans hverbatim) Bool.false_ne_true
  case leaves =>
    intro _ _
    rw [hactive, hbehind, hreturns]

theorem Formed.suspends_apply {move : Move} (h : stack.Formed start)
    (hm : stack.active.Makes stack.embedded move)
    (hself : stack.active.isCode = true → ∀ self inner, move = .enter self inner →
      Mode.SameState stack.active self) : Suspends stack (stack.apply move) := by
  have hleave := h.returns_ne_nil
  cases hm with
  | keep hname => exact suspends_setActive hname
  | @region self r hname hholds =>
    constructor
    case enters => exact fun hcode _ => ⟨self, hself hcode _ _ rfl, rfl⟩
    case stays =>
      intro hregion _
      obtain ⟨r, hr⟩ := Mode.isVerbatim_iff.1 hregion
      rw [hr] at hholds
      exact absurd hholds Bool.false_ne_true
    case leaves =>
      intro _ hno
      exact absurd hno (show ¬ true = false from Bool.noConfusion)
  | tag hmode hinner =>
    constructor
    case enters => exact fun hcode _ => absurd hcode (by simp [hmode, Mode.isCode])
    case stays => exact fun hregion _ => absurd hregion (by simp [hmode, Mode.isVerbatim])
    case leaves => exact fun hregion _ => absurd hregion (by simp [hmode, Mode.isVerbatim])
  | content hmode hinner =>
    constructor
    case enters => exact fun hcode _ => absurd hcode (by simp [hmode, Mode.isCode])
    case stays => exact fun hregion _ => absurd hregion (by simp [hmode, Mode.isVerbatim])
    case leaves => exact fun hregion _ => absurd hregion (by simp [hmode, Mode.isVerbatim])
  | leave hends => exact h.suspends_leave (hleave (.leave hends))

end ModeStack

namespace Scan
variable {settings : Settings} {state : State} {start : ModeName}

theorem suspends_readLexeme (h : state.modes.Formed start) {lexeme : Lexeme}
    (hl : lexeme ∈ (state.modes.active.rules state.modes.embedded).map Prod.fst) (sight : Sight)
    (text : Bytes) :
    ModeStack.Suspends state.modes (readLexeme settings [] state sight lexeme text).2.modes := by
  unfold readLexeme
  dsimp only
  split_ifs with ht
  · have hholds := Mode.holdsRegions_of_isTemplate hl ht
    have hname := Mode.name_settle sight state.modes.active
      (Template.read settings.blocks state.memory lexeme text (sight.rest ++ [])).1
    cases (Template.read settings.blocks state.memory lexeme text (sight.rest ++ [])).2.1 with
    | none => exact ModeStack.suspends_setActive hname
    | some region =>
      refine h.suspends_apply (.region region hname hholds) fun hcode self inner hmove => ?_
      obtain ⟨rfl, -⟩ := Move.enter.inj hmove
      exact Mode.sameState_settle hcode _ _
  · exact h.suspends_apply (Mode.makes_read hl sight text) fun hcode _ _ hmove =>
      Mode.sameState_read hcode hmove

structure Reading.Sound (start : ModeName) (r : Reading) : Prop where
  before : r.before.Formed start
  after : r.after.Formed start
  suspends : ModeStack.Suspends r.before r.after

/-- Along a run, the modes are sound and wait behind verbatim regions. -/
theorem trace_sound (h : state.modes.Formed start) (line : Line) (rest : Bytes) :
    Trace (Reading.Sound start) state.modes (Whole.events settings state line rest) := by
  refine Whole.trace_events (fun modes sight text number hf => ?_)
    (fun state sight lexeme b text number hf hl _ => ?_) h line rest
  · have hname := Mode.name_readText sight modes.active text
    exact ⟨hf, ModeStack.Shape.rename hf hname, ModeStack.suspends_setActive hname⟩
  · exact ⟨hf, formed_readLexeme hf hl _ _, suspends_readLexeme hf hl _ _⟩

section Traces
variable {modes : ModeStack} {R : Reading → Prop} {es more : List Event} {r : Reading}

theorem Trace.of_mem (h : Trace R modes es) (hr : .token r ∈ es) : R r := by
  induction h with
  | nil modes => exact absurd hr (by simp)
  | lineEnd h ih =>
    rcases List.mem_cons.1 hr with heq | hr
    · exact absurd heq (by simp)
    · exact ih hr
  | token hread h ih =>
    rcases List.mem_cons.1 hr with heq | hr
    · rw [Event.token.inj heq]
      exact hread
    · exact ih hr

theorem Trace.split (h : Trace R modes (es ++ .token r :: more)) : Trace R r.after more := by
  induction es generalizing modes with
  | nil =>
    cases h with
    | token hr h => exact h
  | cons e es ih =>
    rw [List.cons_append] at h
    cases h with
    | lineEnd h => exact ih h
    | token hr h => exact ih h

/-- A region that goes on up to a token is still the active mode there, with the same modes behind
it. -/
theorem Trace.region (h : Trace (Reading.Sound start) modes (es ++ .token r :: more))
    (hmodes : modes.active.isVerbatim = true)
    (hes : ∀ r, .token r ∈ es → r.after.active.isVerbatim = true) :
    r.before.active.isVerbatim = true ∧ r.before.returns = modes.returns := by
  induction es generalizing modes with
  | nil =>
    cases h with
    | token hr h => exact ⟨hmodes, rfl⟩
  | cons e es ih =>
    rw [List.cons_append] at h
    cases h with
    | lineEnd h => exact ih h hmodes fun r hr => hes r (List.mem_cons_of_mem _ hr)
    | @token first _ hfirst h =>
      have hstays := hes first List.mem_cons_self
      obtain ⟨hverbatim, hreturns⟩ := ih h hstays fun r hr => hes r (List.mem_cons_of_mem _ hr)
      exact ⟨hverbatim, hreturns.trans (hfirst.suspends.stays hmodes hstays)⟩

end Traces

/-- Whatever document is read, in front of the first token and behind every token there is an active
mode that can go on, tags return to markup, style sheets and scripts return to markup unless the
document starts with them, and verbatim regions return to a mode that is neither a region nor a
closing tag. When a region that started in a style sheet or a script ends, that mode goes on with
the brackets, frames and flags it had when the region started. -/
theorem run_resumes (settings : Settings) (language : Language) (source : Bytes) :
    let start := language.start.active.name
    let events := Whole.events settings { modes := language.start } { number := 1 } source
    (∀ lines, tokenize settings language.start source = .ok lines →
      lines.map Line.tokens = (Event.byLine events).map (·.map Reading.token)) ∧
    language.start.Sound start ∧
    (∀ r, .token r ∈ events → r.before.Sound start ∧ r.after.Sound start) ∧
    ∀ before inside after enters leaves,
      events = before ++ .token enters :: (inside ++ .token leaves :: after) →
      enters.before.active.isCode = true → enters.after.active.isVerbatim = true →
      (∀ r, .token r ∈ inside → r.after.active.isVerbatim = true) →
      leaves.after.active.isVerbatim = false →
      ∃ self, Mode.SameState enters.before.active self ∧
        enters.after.returns = self :: enters.before.returns ∧
        leaves.after.active = self ∧ leaves.after.returns = enters.before.returns := by
  have hformed := language.formed_start
  have htrace := @trace_sound settings { modes := language.start } _ hformed { number := 1 } source
  refine ⟨fun lines hlines => (fill_events hlines).1, hformed.sound, fun r hr => ?_, ?_⟩
  · have hread := htrace.of_mem hr
    exact ⟨hread.before.sound, hread.after.sound⟩
  · intro before inside after enters leaves hevents hcode hverbatim hinside hleaves
    have henters : Reading.Sound _ enters := htrace.of_mem (by rw [hevents]; simp)
    have hend : Reading.Sound _ leaves := htrace.of_mem (by rw [hevents]; simp)
    rw [hevents] at htrace
    obtain ⟨hregion, hwaits⟩ := htrace.split.region hverbatim hinside
    obtain ⟨self, hsame, hbehind⟩ := henters.suspends.enters hcode hverbatim
    have hback := hend.suspends.leaves hregion hleaves
    rw [hwaits, hbehind] at hback
    obtain ⟨hself, hreturns⟩ := List.cons.inj hback
    exact ⟨self, hsame, hbehind, hself.symm, hreturns.symm⟩

def labelledScript : Bytes := ascii "switch(a)\x7bcase 1:\n/*\n b*/\x7d"

def labelledState : ModeStack :=
  { active := .script { frames := [{ offset := 0, hard := true, caseOpen := true }] } }

def labelledOpener : Reading where
  before := labelledState
  token := { text := ascii "/*", kind := .script, line := 2 }
  after := { active := .verbatim .codeComment, returns := [labelledState.active], start := 1 }

def labelledText : Reading where
  before := labelledOpener.after
  token := { text := ascii " b", kind := .text, ignore := true, line := 3 }
  after := labelledOpener.after

def labelledCloser : Reading where
  before := labelledOpener.after
  token := { text := ascii "*/", kind := .text, ignore := true, line := 3 }
  after := labelledState

def labelledEvents : List Event :=
  Whole.events {} { modes := Language.javaScript.start } { number := 1 } labelledScript

theorem run_resumes_label :
    labelledEvents = labelledEvents.take 8 ++ .token labelledOpener ::
      ([.lineEnd, .token labelledText] ++ .token labelledCloser :: labelledEvents.drop 12) ∧
    labelledOpener.before.Sound .script ∧ labelledOpener.after.Sound .script ∧
    ∃ self, Mode.SameState labelledState.active self ∧ labelledOpener.after.returns = [self] ∧
      labelledCloser.after.active = self ∧ labelledCloser.after.returns = [] := by
  have hevents : labelledEvents = labelledEvents.take 8 ++ .token labelledOpener ::
      ([.lineEnd, .token labelledText] ++ .token labelledCloser :: labelledEvents.drop 12) := by
    decide +kernel
  have hinside : ∀ r, .token r ∈ [Event.lineEnd, .token labelledText] →
      r.after.active.isVerbatim = true := by
    intro r hr
    obtain rfl : r = labelledText := by simpa using hr
    rfl
  obtain ⟨-, -, hsound, hresumes⟩ := run_resumes {} .javaScript labelledScript
  have hopener : .token labelledOpener ∈ labelledEvents := by
    rw [hevents]
    simp
  refine ⟨hevents, (hsound _ hopener).1, (hsound _ hopener).2, ?_⟩
  exact hresumes _ _ _ _ _ hevents rfl rfl hinside rfl

end Scan
end Reindent
