import Reindent.Proofs.Isolation.Sites
import Reindent.Proofs.Scan.Tokens

/-! The open brackets of a script. A script keeps a frame for each of them, and here is what every
token of a run makes of the frames. -/
namespace Reindent
open Bytes Text Pattern

namespace Pattern

def shortest : Pattern → Nat
  | .empty => 0
  | .one _ => 1
  | .run _ _ => 0
  | .seq p q => p.shortest + q.shortest
  | .either p q => min p.shortest q.shortest
  | .many _ => 0
  | .avoid _ => 0
  | .wordEdge => 0

theorem shortest_le {before : Option UInt8} {p : Pattern} {s e : Span}
    (he : e ∈ p.ends before s) : s.taken.length + p.shortest ≤ e.taken.length := by
  have hgrows : ∀ {p : Pattern} {s e : Span}, e ∈ p.ends before s →
      s.taken.length ≤ e.taken.length := by
    intro p s e he
    obtain ⟨w, hw⟩ := exists_took he
    rw [hw.taken, List.length_append]
    omega
  induction p generalizing s e with
  | one accepts =>
    obtain ⟨w, hw⟩ := exists_took he
    have hne : w ≠ [] := fun h => absurd (hw.empty h) Bool.false_ne_true
    have hpos := List.length_pos_iff.2 hne
    rw [hw.taken, List.length_append, List.length_reverse, shortest]
    omega
  | seq p q ihp ihq =>
    obtain ⟨m, hm, he⟩ := List.mem_flatMap.1 he
    have hp := ihp hm
    have hq := ihq he
    rw [shortest]
    omega
  | either p q ihp ihq =>
    rw [shortest]
    rcases List.mem_append.1 he with he | he
    · have hp := ihp he
      omega
    · have hq := ihq he
      omega
  | _ => exact hgrows he

end Pattern

/-- The brackets that open and close, as tokens spell them. -/
def openers : List Bytes := ["\x7b", "(", "["].map ascii

def closers : List Bytes := ["\x7d", ")", "]"].map ascii

namespace Token

def opensBracket (t : Token) : Bool := !t.ignore && openers.contains t.text

def closesBracket (t : Token) : Bool := !t.ignore && closers.contains t.text

end Token

namespace Frame

def kind (f : Frame) : Kind := if f.hard then .switch else .script

/-- What a token makes of the open brackets of a script. -/
inductive Step (t : Token) : List Frame → List Frame → Prop where
  | passes {fs : List Frame} (ht : t.nests = false ∨ t.kind = .template)
    (ho : t.opensBracket = false) (hc : t.closesBracket = false) : Step t fs fs
  | opens {fs : List Frame} (f : Frame) (hf : f.caseOpen = false) (ho : t.opensBracket = true)
    (hi : t.indents = true) (hd : t.dedents = false) (hk : t.kind = f.kind) : Step t fs (f :: fs)
  | closes {f : Frame} {fs : List Frame} (hc : t.closesBracket = true) (hi : t.indents = false)
    (hd : t.dedents = true) (hk : t.kind = f.kind) : Step t (f :: fs) fs
  | surplus (hc : t.closesBracket = true) (hd : t.dedents = true) : Step t [] []
  | label {f : Frame} {fs : List Frame} (hf : f.hard = true) (ho : t.opensBracket = false)
    (hc : t.closesBracket = false) (hv : t.isBlank = false) (hi : t.indents = true)
    (hd : t.dedents = f.caseOpen) (hk : t.kind = .case) :
    Step t (f :: fs) ({ f with caseOpen := true } :: fs)

theorem Step.moved {t : Token} {fs fs' : List Frame} (h : Step t fs fs') (offset line : Int64) :
    Step { t with offset, line } fs fs' := by
  cases h with
  | passes ht ho hc => exact .passes ht ho hc
  | opens f hf ho hi hd hk => exact .opens f hf ho hi hd hk
  | closes hc hi hd hk => exact .closes hc hi hd hk
  | surplus hc hd => exact .surplus hc hd
  | label hf ho hc hv hi hd hk => exact .label hf ho hc hv hi hd hk

/-- A token that is no bracket and does not nest leaves the frames alone. So do template tags. -/
theorem step_of_notMem {t : Token} (ht : t.nests = false ∨ t.kind = .template)
    (h : t.text ∉ openers ++ closers) (fs : List Frame) : Step t fs fs := by
  rw [List.mem_append, not_or] at h
  refine .passes ht ?_ ?_
  · simp [Token.opensBracket, h.1]
  · simp [Token.closesBracket, h.2]

theorem step_verbatim (text : Bytes) (fs : List Frame) : Step (.verbatim text) fs fs :=
  .passes (Or.inl rfl) rfl rfl

end Frame

/-- What is known of the text of a lexeme in a script. -/
def Lexeme.Spells (text : Bytes) : Lexeme → Prop
  | .openBracket => text ∈ openers
  | .closeBracket => text ∈ closers
  | .caseWord => text ∉ openers ++ closers ∧ allBlank text = false
  | _ => text ∉ openers ++ closers

theorem Lexeme.Spells.notMem {text : Bytes} {lexeme : Lexeme} (h : lexeme.Spells text)
    (ho : lexeme ≠ .openBracket) (hc : lexeme ≠ .closeBracket) : text ∉ openers ++ closers := by
  cases lexeme with
  | openBracket => exact absurd rfl ho
  | closeBracket => exact absurd rfl hc
  | caseWord => exact h.1
  | _ => exact h

namespace ScriptState
variable {s : ScriptState} {sight : Sight} {text : Bytes}

/-- How a script goes on after a token that made `fs` of its frames. -/
inductive Goes (fs : List Frame) : Move → Prop where
  | keep {s : ScriptState} (h : s.frames = fs) : Goes fs (.keep (.script s))
  | region {s : ScriptState} (r : Region) (h : s.frames = fs) :
    Goes fs (.enter (.script s) (.verbatim r))

theorem frames_settle (s : ScriptState) (sight : Sight) (t : Token) :
    (s.settle sight t).2.frames = s.frames := by
  unfold settle
  split_ifs <;> rfl

theorem step_settle {t : Token} {fs fs' : List Frame} (h : Frame.Step t fs fs')
    (s : ScriptState) (sight : Sight) : Frame.Step (s.settle sight t).1 fs fs' := by
  obtain ⟨offset, hoffset⟩ := Mode.exists_settle sight (.script s) t
  have hsettle : (s.settle sight t).1 = { t with offset } := hoffset
  rw [hsettle]
  exact h.moved offset t.line

theorem step_plain (h : text ∉ openers ++ closers) (fs : List Frame) :
    Frame.Step (.plain text .script) fs fs := Frame.step_of_notMem (Or.inl rfl) h fs

theorem step_label (h : text ∉ openers ++ closers) (hv : allBlank text = false) :
    Frame.Step (s.label text).1 s.frames (s.label text).2.frames := by
  have hplain := step_plain h
  rw [List.mem_append, not_or] at h
  unfold label
  split
  · next f frames hframes =>
    split_ifs with hhard hcase
    · rw [hframes]
      refine .label hhard ?_ ?_ hv rfl hcase.symm rfl
      · simpa [Token.opensBracket, Token.reopening] using h.1
      · simpa [Token.closesBracket, Token.reopening] using h.2
    · rw [hframes]
      refine .label hhard ?_ ?_ hv rfl (Bool.eq_false_iff.2 hcase).symm rfl
      · simpa [Token.opensBracket, Token.opening] using h.1
      · simpa [Token.closesBracket, Token.opening] using h.2
    · exact hplain _
  · exact hplain _

theorem step_openBracket (h : text ∈ openers) :
    Frame.Step (s.openBracket sight text).1 s.frames (s.openBracket sight text).2.frames := by
  have ho : openers.contains text = true := List.contains_iff_mem.2 h
  obtain ⟨offset, hoffset⟩ := Mode.exists_settle sight (.script s) (.opening text .script)
  have hframes := s.frames_settle sight (.opening text .script)
  have htoken : (s.settle sight (.opening text .script)).1 =
      { Token.opening text .script with offset } := hoffset
  unfold openBracket
  generalize s.settle sight (.opening text .script) = settled at hframes htoken
  obtain ⟨t, s'⟩ := settled
  dsimp only at hframes htoken ⊢
  subst htoken
  rw [← hframes]
  split_ifs
  · exact .opens _ rfl ho rfl rfl rfl
  · exact .opens _ rfl ho rfl rfl rfl

theorem step_closeBracket (h : text ∈ closers) :
    Frame.Step (s.closeBracket sight text).1 s.frames (s.closeBracket sight text).2.frames := by
  have hc : ∀ kind, (Token.closing text kind).closesBracket = true := by
    intro kind
    simpa [Token.closesBracket, Token.closing] using h
  unfold closeBracket
  split
  · next hframes =>
    rw [hframes]
    exact .surplus (hc _) rfl
  · next f frames hframes =>
    rw [hframes]
    have hstep : Frame.Step (.closing text (if f.hard then .switch else .script)) (f :: frames)
        frames := .closes (hc _) rfl rfl rfl
    dsimp only
    cases sight.atStart with
    | true => exact hstep.moved _ _
    | false => exact hstep

theorem step_read (s : ScriptState) (sight : Sight) {lexeme : Lexeme} (hl : lexeme ≠ .closer)
    (ht : lexeme.Spells text) : ∃ fs, Frame.Step (s.read sight lexeme text).1 s.frames fs ∧
      Goes fs (s.read sight lexeme text).2 := by
  have hplain : text ∉ openers ++ closers → ∀ s' : ScriptState,
      Frame.Step (s'.settle sight (.plain text .script)).1 s.frames s.frames :=
    fun hno s' => step_settle (step_plain hno _) s' sight
  unfold read
  dsimp only
  split
  case h_1 =>
    split_ifs
    · exact ⟨_, hplain ht s, .region _ (frames_settle _ _ _)⟩
    · exact ⟨_, hplain ht s, .keep (frames_settle _ _ _)⟩
  case h_2 => exact ⟨_, hplain ht s, .region _ (frames_settle _ _ _)⟩
  case h_3 => exact ⟨_, hplain ht s, .region _ (frames_settle _ _ _)⟩
  case h_4 => exact absurd rfl hl
  case h_5 => exact ⟨_, hplain ht { s with switching := true }, .keep (frames_settle _ _ _)⟩
  case h_6 => exact ⟨_, step_settle (step_label ht.1 ht.2) _ _, .keep (frames_settle _ _ _)⟩
  case h_7 =>
    unfold dot
    dsimp only
    split_ifs
    · exact ⟨_, (step_plain ht _).moved _ _, .keep rfl⟩
    · exact ⟨_, step_plain ht _, .keep rfl⟩
  case h_8 => exact ⟨_, step_openBracket ht, .keep rfl⟩
  case h_9 => exact ⟨_, step_closeBracket ht, .keep rfl⟩
  case h_10 =>
    exact ⟨_, hplain (ht.notMem (by assumption) (by assumption)) s, .keep (frames_settle _ _ _)⟩

private theorem eq_singleton_of_one {accepts : UInt8 → Bool} {before : Option UInt8}
    {matched rest : Bytes}
    (h : (Pattern.one accepts).match? before (matched ++ rest) = some ⟨matched.reverse, rest⟩) :
    ∃ b, matched = [b] ∧ accepts b = true := by
  obtain ⟨b, more, rfl⟩ : ∃ b more, matched = b :: more :=
    List.exists_cons_of_ne_nil (by simpa using (match?_split h).1)
  have hend := List.mem_of_find?_eq_some h
  rw [List.cons_append, ends] at hend
  dsimp only at hend
  split_ifs at hend with hb
  · have hspan := List.mem_singleton.1 hend
    have htaken : (b :: more).reverse = [b] := congrArg Span.taken hspan
    exact ⟨b, by simpa using htaken, hb⟩
  · exact absurd hend (by simp)

/-- Of the lexemes of a script only brackets are spelled like brackets, and labels show. -/
theorem spells_of_match {lexeme : Lexeme} {p : Pattern} {before : Option UInt8}
    {matched rest : Bytes} (hr : (lexeme, p) ∈ rules false)
    (h : p.match? before (matched ++ rest) = some ⟨matched.reverse, rest⟩) :
    lexeme.Spells matched := by
  have hends := List.mem_of_find?_eq_some h
  have hlong : p.shortest ≤ matched.length := by
    simpa using shortest_le hends
  obtain ⟨w, hw⟩ := exists_took hends
  obtain rfl : matched = w := by simpa using hw.taken
  have hne : matched ≠ [] := by simpa using (match?_split h).1
  -- what starts like a bracket and is none is template syntax, and longer than a bracket
  have hshort : ∀ r ∈ rules false, r.1 ≠ .openBracket → r.1 ≠ .closeBracket →
      ∀ text ∈ openers ++ closers, ∀ b ∈ text.head?, r.2.mayStart b = true →
        text.length < r.2.shortest := by
    decide +kernel
  have hother : lexeme ≠ .openBracket → lexeme ≠ .closeBracket →
      matched ∉ openers ++ closers := by
    intro ho hc hmem
    obtain ⟨b, more, rfl⟩ := List.exists_cons_of_ne_nil hne
    have hlt := hshort _ hr ho hc _ hmem b rfl (hw.start b rfl)
    dsimp only at hlt
    omega
  cases lexeme with
  | openBracket =>
    obtain rfl : p = .oneOf "\x7b([" := by
      simpa [rules, Rules.template, comments, Rules.strings, Rules.brackets, backtick, words]
        using hr
    obtain ⟨b, rfl, hb⟩ := eq_singleton_of_one h
    have hall : ∀ b ∈ ascii "\x7b([", [b] ∈ openers := by decide +kernel
    exact hall b (List.contains_iff_mem.1 hb)
  | closeBracket =>
    obtain rfl : p = .oneOf "\x7d)]" := by
      simpa [rules, Rules.template, comments, Rules.strings, Rules.brackets, backtick, words]
        using hr
    obtain ⟨b, rfl, hb⟩ := eq_singleton_of_one h
    have hall : ∀ b ∈ ascii "\x7d)]", [b] ∈ closers := by decide +kernel
    exact hall b (List.contains_iff_mem.1 hb)
  | caseWord =>
    refine ⟨hother (by simp) (by simp), ?_⟩
    obtain ⟨b, more, rfl⟩ := List.exists_cons_of_ne_nil hne
    have hstart := hw.start b rfl
    have hletter : b = 99 ∨ b = 100 := by
      obtain rfl : p =
          .wordEdge ++ .either (.literal "case") (.literal "default") ++ .wordEdge := by
        simpa [rules, Rules.template, comments, Rules.strings, Rules.brackets, backtick, words]
          using hr
      have happend : ∀ p q : Pattern, p ++ q = .seq p q := fun _ _ => rfl
      simpa [happend, literal, ascii, word, byte, mayStart, nullable] using hstart
    rcases hletter with rfl | rfl
    · exact allBlank_cons_of_visible more (by decide) (by decide)
    · exact allBlank_cons_of_visible more (by decide) (by decide)
  | _ => exact hother (by simp) (by simp)

end ScriptState

namespace ModeStack
variable {modes : ModeStack}

/-- The open brackets of the script that is active, or that a verbatim region lies in. -/
def frames (modes : ModeStack) : List Frame :=
  match modes.active, modes.returns with
  | .script s, _ => s.frames
  | _, .script s :: _ => s.frames
  | _, _ => []

theorem Formed.script_cases (h : modes.Formed .script) :
    (∃ s, modes.active = .script s ∧ modes.returns = []) ∨
      ∃ r s, modes.active = .verbatim r ∧ modes.returns = [.script s] := by
  have houter : ∀ {mode : Mode} {returns : List Mode}, Shape .script mode returns →
      mode.name.holdsRegions = true → (∃ s, mode = .script s) ∧ returns = [] := by
    intro mode returns h hm
    cases h with
    | outer hs hname =>
      cases mode with
      | script s => exact ⟨⟨s, rfl⟩, rfl⟩
      | _ => exact absurd hname (by simp [Mode.name])
    | inner hs hname => exact absurd hs (by simp)
    | region r h hm' => exact absurd hm (by simp [Mode.name, ModeName.holdsRegions])
  obtain ⟨active, returns, count, left⟩ := modes
  by_cases hm : active.name.holdsRegions = true
  · obtain ⟨⟨s, rfl⟩, rfl⟩ := houter h hm
    exact Or.inl ⟨s, rfl, rfl⟩
  · cases h with
    | outer hs hname => exact absurd (by rw [hname]; rfl) hm
    | inner hs hname => exact absurd hs (by simp)
    | region r h hm' =>
      obtain ⟨⟨s, rfl⟩, rfl⟩ := houter h hm'
      exact Or.inr ⟨r, s, rfl, rfl⟩

end ModeStack

theorem ScriptState.Goes.frames_apply {fs : List Frame} {move : Move} (h : Goes fs move)
    (modes : ModeStack) : (modes.apply move).frames = fs := by
  cases h with
  | keep h => exact h
  | region r h => exact h

namespace Scan.Whole
variable {settings : Settings} {state : State}

theorem notMem_of_passesOver {modes : ModeStack} {s : ScriptState} {text : Bytes}
    (hs : modes.active = .script s) (h : PassesOver modes text) : text ∉ openers ++ closers := by
  intro hmem
  have hall : ∀ text ∈ openers ++ closers, ∃ b ∈ text, (ascii "\x7b([").contains b = true ∨
      (ascii "\x7d)]").contains b = true := by
    decide
  have hrules : ∀ r ∈ Rules.brackets, r ∈ modes.active.rules modes.embedded := by
    intro r hr
    rw [hs]
    exact List.mem_append_right _ hr
  obtain ⟨b, hb, hopen | hclose⟩ := hall text hmem
  · have hno := h _ _ (hrules (.openBracket, .oneOf "\x7b([") (by simp [Rules.brackets])) b hb
    exact absurd (hopen.symm.trans hno) (by simp)
  · have hno := h _ _ (hrules (.closeBracket, .oneOf "\x7d)]") (by simp [Rules.brackets])) b hb
    exact absurd (hclose.symm.trans hno) (by simp)

private theorem step_readText {modes : ModeStack} (h : modes.Formed .script) (sight : Sight)
    {text : Bytes} (hpass : PassesOver modes text) :
    Frame.Step (modes.active.readText sight text).1 modes.frames
      (modes.setActive (modes.active.readText sight text).2).frames := by
  have hno := fun s hs => notMem_of_passesOver (s := s) hs hpass
  obtain ⟨active, returns, count, left⟩ := modes
  obtain ⟨s, rfl, rfl⟩ | ⟨r, s, rfl, rfl⟩ := h.script_cases
  · change Frame.Step (s.settle sight (.plain text .script)).1 s.frames
      (s.settle sight (.plain text .script)).2.frames
    rw [ScriptState.frames_settle]
    exact ScriptState.step_settle (ScriptState.step_plain (hno s rfl) _) s sight
  · exact Frame.step_verbatim text s.frames

private theorem step_template {modes : ModeStack} {s : ScriptState} (hs : modes.active = .script s)
    (memory : Lookahead) (sight : Sight) {lexeme : Lexeme} (ht : lexeme.isTemplate = true)
    {text : Bytes} (htext : text ∉ openers ++ closers) :
    Frame.Step (readLexeme settings [] ⟨modes, memory⟩ sight lexeme text).1 s.frames
      (readLexeme settings [] ⟨modes, memory⟩ sight lexeme text).2.modes.frames := by
  have hstep : Frame.Step (Template.read settings.blocks memory lexeme text (sight.rest ++ [])).1
      s.frames s.frames :=
    Frame.step_of_notMem (Or.inr (Template.kind_read _ _ _ _ _)) (by rwa [Template.text_read]) _
  unfold readLexeme
  dsimp only
  rw [if_pos ht, hs]
  generalize Template.read settings.blocks memory lexeme text (sight.rest ++ []) = read at hstep
  obtain ⟨t, region?, memory⟩ := read
  have hsettled : Frame.Step (s.settle sight t).1 s.frames (s.settle sight t).2.frames := by
    rw [ScriptState.frames_settle]
    exact ScriptState.step_settle hstep s sight
  cases region? with
  | none => exact hsettled
  | some region => exact hsettled

/-- A script waits behind a verbatim region, and goes on with its frames when the region ends. -/
private theorem frames_region (r : Region) (s : ScriptState) (count : Nat) (left : List Mode)
    (lexeme : Lexeme) : (ModeStack.apply ⟨.verbatim r, [.script s], count, left⟩
      (if lexeme = .escape then .keep (.verbatim r) else .leave)).frames = s.frames := by
  split_ifs
  · rfl
  · unfold ModeStack.apply ModeStack.leave
    dsimp only
    split_ifs <;> rfl

private theorem step_readLexeme (h : state.modes.Formed .script) (sight : Sight) {lexeme : Lexeme}
    {matched rest : Bytes} (hfound : Finds state.modes lexeme matched rest) :
    Frame.Step (readLexeme settings [] state sight lexeme matched).1 state.modes.frames
      (readLexeme settings [] state sight lexeme matched).2.modes.frames := by
  have hlabel := hfound.label_mem
  obtain ⟨p, before, hrule, hmatch⟩ := hfound
  obtain ⟨⟨active, returns, count, left⟩, memory⟩ := state
  obtain ⟨s, rfl, rfl⟩ | ⟨r, s, rfl, rfl⟩ := h.script_cases
  · have hspells : lexeme.Spells matched := ScriptState.spells_of_match hrule hmatch
    by_cases ht : lexeme.isTemplate = true
    · refine step_template rfl memory sight ht (hspells.notMem ?_ ?_)
      · rintro rfl
        exact absurd ht (by simp [Lexeme.isTemplate])
      · rintro rfl
        exact absurd ht (by simp [Lexeme.isTemplate])
    · have hcloser : ∀ r ∈ ScriptState.rules false, r.1 ≠ .closer := by decide
      obtain ⟨fs, hstep, hgoes⟩ := ScriptState.step_read s sight (hcloser _ hrule) hspells
      unfold readLexeme
      dsimp only
      rw [if_neg ht]
      have hframes := hgoes.frames_apply ⟨.script s, [], count, left⟩
      rw [← hframes] at hstep
      exact hstep
  · have ht : ¬ lexeme.isTemplate = true := by
      intro ht
      have hplain := isVerbatim_of_isTemplate hlabel ht
      exact absurd hplain (by simp [Mode.isVerbatim])
    have hstep := Frame.step_verbatim matched s.frames
    nth_rewrite 2 [← frames_region r s count left lexeme] at hstep
    unfold readLexeme
    dsimp only
    rw [if_neg ht]
    exact hstep

/-- A script that stands on its own takes its comments whole. -/
theorem extent_of_formed {modes : ModeStack} (h : modes.Formed .script) (lexeme : Lexeme)
    (text : Bytes) : extent modes lexeme text = .ok text.length := by
  obtain ⟨active, returns, count, left⟩ := modes
  obtain ⟨s, rfl, rfl⟩ | ⟨r, s, rfl, rfl⟩ := h.script_cases
  · cases lexeme <;> rfl
  · rfl

theorem exists_run (h : state.modes.Formed .script) (line : Line) (rest : Bytes) :
    ∃ final lines, run settings state line rest = (final, .ok lines) := by
  induction state, line, rest using run_induction settings with
  | finished state line rest hnext => exact ⟨_, _, run_of_finished (step_of_none hnext)⟩
  | lineEnd state line rest hit hnext hlabel ih =>
    obtain ⟨final, lines, hrun⟩ := ih (formed_readGap h _ _)
    refine ⟨final, (readGap settings state line hit.skipped []).1 :: lines, ?_⟩
    rw [run_of_lineEnd (step_of_lineEnd hnext hlabel), hrun]
  | failed state line rest hit found overrun hnext hlabel hn =>
    rw [extent_of_formed h] at hn
    exact absurd hn (by simp)
  | lexeme state line rest hit found n hnext hlabel hn ih =>
    obtain ⟨final, lines, hrun⟩ := ih (formed_readLexeme (formed_readGap h _ _) (by
      rw [rules_readGap, embedded_readGap]
      exact (finds_of_next hnext hlabel).label_mem) _ _)
    exact ⟨final, lines, (run_of_next (step_of_lexeme hnext hlabel hn)).trans hrun⟩

/-- Every token of a script makes of the frames what it makes of the brackets. -/
theorem course_frames (settings : Settings) (source : Bytes) :
    Course (fun r _ => Frame.Step r.token r.before.frames r.after.frames) { active := .script {} }
      source (events settings { modes := { active := .script {} } } { number := 1 } source) := by
  refine course_events _ (fun state => state.modes.Formed .script) source
    { modes := { active := .script {} } } ?_ ?_ (ModeStack.Shape.outer rfl rfl)
    (List.suffix_refl _) _
  · intro state sight text more number hformed _ _ hpass
    exact ⟨(step_readText hformed sight hpass).moved _ _,
      ModeStack.Shape.rename hformed (Mode.name_readText _ _ _)⟩
  · intro state sight lexeme matched rest n number hformed _ hfound hn _
    refine ⟨?_, formed_readLexeme hformed hfound.label_mem _ _⟩
    obtain rfl : matched.length = n := by
      rw [extent_of_formed hformed] at hn
      exact Except.ok.inj hn
    rw [List.take_length]
    exact (step_readLexeme hformed sight hfound).moved _ _

end Scan.Whole

inductive Frame.Steps : List Frame → List Token → List Frame → Prop where
  | nil (fs : List Frame) : Steps fs [] fs
  | cons {t : Token} {tokens : List Token} {fs between fs' : List Frame} (h : Step t fs between)
    (hs : Steps between tokens fs') : Steps fs (t :: tokens) fs'

theorem Frame.Steps.split {front back : List Token} {fs fs' : List Frame}
    (h : Steps fs (front ++ back) fs') :
    ∃ between, Steps fs front between ∧ Steps between back fs' := by
  induction front generalizing fs with
  | nil => exact ⟨fs, .nil fs, h⟩
  | cons t front ih =>
    cases h with
    | cons ht hs =>
      obtain ⟨between, hfront, hback⟩ := ih hs
      exact ⟨between, .cons ht hfront, hback⟩

namespace Scan

private theorem flatten_byLine_token (r : Reading) (es : List Event) :
    (Event.byLine (.token r :: es)).flatten = r :: (Event.byLine es).flatten := by
  obtain ⟨l, ls, hby⟩ := Event.exists_byLine es
  rw [Event.byLine, hby]
  rfl

theorem Course.steps {modes : ModeStack} {rest : Bytes} {es : List Event}
    (h : Course (fun r _ => Frame.Step r.token r.before.frames r.after.frames) modes rest es) :
    ∃ fs, Frame.Steps modes.frames ((Event.byLine es).flatten.map Reading.token) fs := by
  induction h with
  | stop modes rest => exact ⟨_, .nil _⟩
  | lineEnd _ ih => exact ih
  | token hr _ ih =>
    obtain ⟨fs, hs⟩ := ih
    refine ⟨fs, ?_⟩
    rw [flatten_byLine_token, List.map_cons]
    exact .cons hr hs

/-- A script that stands on its own is read to its end, and its tokens move along its frames. -/
theorem exists_steps (settings : Settings) (source : Bytes) :
    ∃ lines fs, tokenize settings { active := .script {} } source = .ok lines ∧
      Frame.Steps [] (lines.flatMap Line.tokens) fs := by
  have hformed : (State.mk { active := .script {} } []).modes.Formed .script := .outer rfl rfl
  obtain ⟨final, lines, hrun⟩ := @Whole.exists_run settings _ hformed { number := 1 } source
  have hlines : tokenize settings { active := .script {} } source = .ok lines := by
    rw [Whole.tokenize_eq_run, hrun]
  obtain ⟨fs, hsteps⟩ := (Whole.course_frames settings source).steps
  obtain ⟨hfill, -⟩ := fill_events hlines
  have htokens : lines.flatMap Line.tokens = (Event.byLine (Whole.events settings
      { modes := { active := .script {} } } { number := 1 } source)).flatten.map Reading.token := by
    rw [List.flatMap_def, hfill, List.map_flatten]
  refine ⟨lines, fs, hlines, ?_⟩
  rw [htokens]
  exact hsteps

end Scan
end Reindent
