import Reindent.Proofs.Scan.RegionStarts
import Reindent.Proofs.Scan.Whole
import Reindent.Proofs.Scope

/-! The events of a run: its tokens one after the other, each with the modes in front of it and behind
it, and the ends of lines. -/
namespace Reindent.Scan
open Bytes Text

/-- A token of the document and the modes around it. -/
structure Reading where
  before : ModeStack
  token : Token
  after : ModeStack
  deriving DecidableEq

inductive Event where
  | token (r : Reading)
  | lineEnd
  deriving DecidableEq

namespace Event

def text : Event → Bytes
  | .token r => r.token.text
  | .lineEnd => [newline]

def spelled (es : List Event) : Bytes := es.flatMap text

/-- The readings of every line. There is always a last line. -/
def byLine : List Event → List (List Reading)
  | [] => [[]]
  | .lineEnd :: es => [] :: byLine es
  | .token r :: es =>
    match byLine es with
    | [] => [[r]]
    | l :: ls => (r :: l) :: ls

theorem exists_byLine (es : List Event) : ∃ l ls, byLine es = l :: ls := by
  cases es with
  | nil => exact ⟨[], [], rfl⟩
  | cons e es =>
    cases e with
    | lineEnd => exact ⟨[], byLine es, rfl⟩
    | token r =>
      rw [byLine]
      cases byLine es with
      | nil => exact ⟨[r], [], rfl⟩
      | cons l ls => exact ⟨r :: l, ls, rfl⟩

/-- Readings in front of events come first on their first line. -/
theorem byLine_append {es : List Event} {l : List Reading} {ls : List (List Reading)}
    (h : byLine es = l :: ls) (rs : List Reading) :
    byLine (rs.map .token ++ es) = (rs ++ l) :: ls := by
  induction rs with
  | nil => exact h
  | cons r rs ih => rw [List.map_cons, List.cons_append, byLine, ih, List.cons_append]

end Event

/-- Lines that hold readings, the first of which goes on with a line. -/
def linesFrom (line : Line) : List (List Reading) → List Line
  | [] => []
  | rs :: rest =>
    { line with tokens := line.tokens ++ rs.map Reading.token } :: linesFrom line.next rest

theorem tokens_linesFrom {line : Line} (h : line.tokens = []) (rows : List (List Reading)) :
    (linesFrom line rows).map Line.tokens = rows.map (·.map Reading.token) := by
  induction rows generalizing line with
  | nil => rfl
  | cons rs rows ih =>
    have hrest : (linesFrom line.next rows).map Line.tokens = _ := ih rfl
    rw [linesFrom, List.map_cons, List.map_cons, hrest, h, List.nil_append]

/-- The readings follow one another, each from the modes that the one before it left. -/
inductive Trace (R : Reading → Prop) : ModeStack → List Event → Prop where
  | nil (modes : ModeStack) : Trace R modes []
  | lineEnd {modes : ModeStack} {es : List Event} (h : Trace R modes es) :
    Trace R modes (.lineEnd :: es)
  | token {r : Reading} {es : List Event} (hr : R r) (h : Trace R r.after es) :
    Trace R r.before (.token r :: es)

namespace Whole

/-- The next lexeme or newline of a document. -/
def next? (modes : ModeStack) (rest : Bytes) : Option (Pattern.Hit (Option Lexeme)) :=
  Pattern.search (rules modes.active modes.embedded) none rest

def extent (modes : ModeStack) (lexeme : Lexeme) (text : Bytes) : Except Overrun Nat :=
  modes.active.extent modes.embedded lexeme text

/-- The reading of the text between lexemes, if there is any. -/
def gapReadings (settings : Settings) (state : State) (line : Line) (text : Bytes) :
    List Reading :=
  if text.isEmpty then []
  else
    let (t, mode) := state.modes.active.readText ⟨settings.tabWidth, line, []⟩ text
    [⟨state.modes, t.numbered line.number, state.modes.setActive mode⟩]

def gapEvents (settings : Settings) (state : State) (line : Line) (text : Bytes) : List Event :=
  (gapReadings settings state line text).map .token

/-- A lexeme of which `n` bytes are taken, behind the text in front of it: its reading, and the state
and the line behind it. -/
def takeLexeme (settings : Settings) (state : State) (line : Line)
    (hit : Pattern.Hit (Option Lexeme)) (lexeme : Lexeme) (n : Nat) : Reading × State × Line :=
  let (line, state) := readGap settings state line hit.skipped (hit.matched ++ hit.rest)
  let (t, after) := readLexeme settings [] state
    ⟨settings.tabWidth, line, hit.matched.drop n ++ hit.rest⟩ lexeme (hit.matched.take n)
  (⟨state.modes, t.numbered line.number, after.modes⟩, after, line.append t)

def stepEvents (settings : Settings) (state : State) (line : Line) (rest : Bytes) : List Event :=
  match next? state.modes rest with
  | none => gapEvents settings state line rest
  | some hit =>
    gapEvents settings state line hit.skipped ++
    match hit.label with
    | none => [.lineEnd]
    | some lexeme =>
      match extent state.modes lexeme hit.matched with
      | .error _ => []
      | .ok n => [.token (takeLexeme settings state line hit lexeme n).1]

/-- The events of a run, up to its end or to a lexeme that cannot be taken. -/
def events (settings : Settings) (state : State) (line : Line) (rest : Bytes) : List Event :=
  stepEvents settings state line rest ++
  match h : step settings state line rest with
  | .finished _ _ => []
  | .failed _ _ => []
  | .lineEnd state line rest' =>
    have : rest'.length < rest.length := length_lt_of_leaves ⟨_, _, Or.inr h⟩
    events settings state line.next rest'
  | .next state line rest' =>
    have : rest'.length < rest.length := length_lt_of_leaves ⟨_, _, Or.inl h⟩
    events settings state line rest'
termination_by rest.length

section Steps
variable {settings : Settings} {state : State} {line : Line} {rest : Bytes}
  {hit : Pattern.Hit (Option Lexeme)} {lexeme : Lexeme} {n : Nat}

/-- Text between lexemes does not change how much of a lexeme is taken. -/
theorem extent_readGap (settings : Settings) (state : State) (line : Line) (text rest : Bytes)
    (lexeme : Lexeme) (matched : Bytes) :
    extent (readGap settings state line text rest).2.modes lexeme matched =
      extent state.modes lexeme matched := by
  unfold readGap extent
  split_ifs
  · rfl
  · change (Mode.readText _ _ _).2.extent _ _ _ = _
    cases state.modes.active with
    | script s => cases lexeme <;> rfl
    | _ => rfl

theorem step_of_none (h : next? state.modes rest = none) :
    step settings state line rest =
      .finished (readGap settings state line rest []).2 (readGap settings state line rest []).1 := by
  unfold next? at h
  unfold step
  rw [h]

theorem step_of_lineEnd (h : next? state.modes rest = some hit) (hl : hit.label = none) :
    step settings state line rest =
      .lineEnd (readGap settings state line hit.skipped []).2
        (readGap settings state line hit.skipped []).1 hit.rest := by
  unfold next? at h
  unfold step
  rw [h]
  dsimp only
  rw [hl, readGap_rest settings state line hit.skipped _ []]

theorem step_of_error (h : next? state.modes rest = some hit) (hl : hit.label = some lexeme)
    {overrun : Overrun} (hn : extent state.modes lexeme hit.matched = .error overrun) :
    step settings state line rest =
      .failed (readGap settings state line hit.skipped []).2 overrun := by
  rw [← extent_readGap settings state line hit.skipped (hit.matched ++ hit.rest)] at hn
  unfold next? at h
  unfold extent at hn
  unfold step
  rw [h]
  dsimp only
  rw [hl]
  dsimp only
  rw [hn, readGap_rest settings state line hit.skipped _ []]

theorem step_of_lexeme (h : next? state.modes rest = some hit) (hl : hit.label = some lexeme)
    (hn : extent state.modes lexeme hit.matched = .ok n) :
    step settings state line rest =
      .next (takeLexeme settings state line hit lexeme n).2.1
        (takeLexeme settings state line hit lexeme n).2.2 (hit.matched.drop n ++ hit.rest) := by
  rw [← extent_readGap settings state line hit.skipped (hit.matched ++ hit.rest)] at hn
  unfold next? at h
  unfold extent at hn
  unfold step
  rw [h]
  dsimp only
  rw [hl]
  dsimp only
  rw [hn]
  rfl

theorem events_eq (settings : Settings) (state : State) (line : Line) (rest : Bytes) :
    events settings state line rest = stepEvents settings state line rest ++
      match step settings state line rest with
      | .finished _ _ => []
      | .failed _ _ => []
      | .lineEnd state line rest => events settings state line.next rest
      | .next state line rest => events settings state line rest := by
  rw [events]
  split <;> simp_all

theorem events_of_none (h : next? state.modes rest = none) :
    events settings state line rest = gapEvents settings state line rest := by
  rw [events_eq, step_of_none h, stepEvents, h, List.append_nil]

theorem events_of_lineEnd (h : next? state.modes rest = some hit) (hl : hit.label = none) :
    events settings state line rest = gapEvents settings state line hit.skipped ++
      .lineEnd :: events settings (readGap settings state line hit.skipped []).2
        (readGap settings state line hit.skipped []).1.next hit.rest := by
  rw [events_eq, step_of_lineEnd h hl, stepEvents, h]
  dsimp only
  rw [hl, List.append_assoc]
  rfl

theorem events_of_error (h : next? state.modes rest = some hit) (hl : hit.label = some lexeme)
    {overrun : Overrun} (hn : extent state.modes lexeme hit.matched = .error overrun) :
    events settings state line rest = gapEvents settings state line hit.skipped := by
  rw [events_eq, step_of_error h hl hn, stepEvents, h]
  dsimp only
  rw [hl]
  dsimp only
  rw [hn, List.append_nil, List.append_nil]

theorem events_of_lexeme (h : next? state.modes rest = some hit) (hl : hit.label = some lexeme)
    (hn : extent state.modes lexeme hit.matched = .ok n) :
    events settings state line rest = gapEvents settings state line hit.skipped ++
      .token (takeLexeme settings state line hit lexeme n).1 ::
        events settings (takeLexeme settings state line hit lexeme n).2.1
          (takeLexeme settings state line hit lexeme n).2.2 (hit.matched.drop n ++ hit.rest) := by
  rw [events_eq, step_of_lexeme h hl hn, stepEvents, h]
  dsimp only
  rw [hl]
  dsimp only
  rw [hn, List.append_assoc]
  rfl

theorem run_induction (settings : Settings) {motive : State → Line → Bytes → Prop}
    (finished : ∀ state line rest, next? state.modes rest = none → motive state line rest)
    (lineEnd : ∀ state line rest hit, next? state.modes rest = some hit → hit.label = none →
      motive (readGap settings state line hit.skipped []).2
        (readGap settings state line hit.skipped []).1.next hit.rest →
      motive state line rest)
    (failed : ∀ state line rest hit lexeme overrun, next? state.modes rest = some hit →
      hit.label = some lexeme → extent state.modes lexeme hit.matched = .error overrun →
      motive state line rest)
    (lexeme : ∀ state line rest hit lexeme n, next? state.modes rest = some hit →
      hit.label = some lexeme → extent state.modes lexeme hit.matched = .ok n →
      motive (takeLexeme settings state line hit lexeme n).2.1
        (takeLexeme settings state line hit lexeme n).2.2 (hit.matched.drop n ++ hit.rest) →
      motive state line rest)
    (state : State) (line : Line) (rest : Bytes) : motive state line rest := by
  induction hlength : rest.length using Nat.strongRecOn generalizing state line rest with
  | _ m ih =>
    cases h : next? state.modes rest with
    | none => exact finished state line rest h
    | some hit =>
      cases hl : hit.label with
      | none =>
        have hstep : step settings state line rest = _ := step_of_lineEnd h hl
        have hless := length_lt_of_leaves ⟨_, _, Or.inr hstep⟩
        exact lineEnd state line rest hit h hl (ih _ (by omega) _ _ _ rfl)
      | some found =>
        cases hn : extent state.modes found hit.matched with
        | error overrun => exact failed state line rest hit found overrun h hl hn
        | ok n =>
          have hstep : step settings state line rest = _ := step_of_lexeme h hl hn
          have hless := length_lt_of_leaves ⟨_, _, Or.inl hstep⟩
          exact lexeme state line rest hit found n h hl hn (ih _ (by omega) _ _ _ rfl)

theorem line_readGap (settings : Settings) (state : State) (line : Line) (text rest : Bytes) :
    (readGap settings state line text rest).1 = { line with
      tokens := line.tokens ++ (gapReadings settings state line text).map Reading.token } := by
  rw [readGap_rest settings state line text rest []]
  unfold readGap gapReadings
  split_ifs
  · exact congrArg (fun tokens => { line with tokens }) (List.append_nil _).symm
  · rfl

theorem line_takeLexeme (settings : Settings) (state : State) (line : Line)
    (hit : Pattern.Hit (Option Lexeme)) (lexeme : Lexeme) (n : Nat) :
    (takeLexeme settings state line hit lexeme n).2.2 = { line with
      tokens := line.tokens ++ (gapReadings settings state line hit.skipped).map Reading.token ++
        [(takeLexeme settings state line hit lexeme n).1.token] } := by
  have hgap := line_readGap settings state line hit.skipped (hit.matched ++ hit.rest)
  have hline : (takeLexeme settings state line hit lexeme n).2.2 =
      { (readGap settings state line hit.skipped (hit.matched ++ hit.rest)).1 with
        tokens := (readGap settings state line hit.skipped (hit.matched ++ hit.rest)).1.tokens ++
          [(takeLexeme settings state line hit lexeme n).1.token] } := rfl
  rw [hline, hgap]

/-- The lines of a run hold the tokens of its events. -/
theorem lines_run {final : State} {lines : List Line}
    (h : run settings state line rest = (final, .ok lines)) :
    lines = linesFrom line (Event.byLine (events settings state line rest)) := by
  induction state, line, rest using run_induction settings generalizing lines with
  | finished state line rest hnext =>
    rw [run_of_finished (step_of_none hnext)] at h
    obtain ⟨-, hl⟩ := Prod.mk.inj h
    obtain rfl := Except.ok.inj hl
    have hnil : Event.byLine [] = [[]] := rfl
    have hlines := Event.byLine_append hnil (gapReadings settings state line rest)
    rw [List.append_nil, List.append_nil] at hlines
    rw [events_of_none hnext, gapEvents, hlines, line_readGap]
    rfl
  | lineEnd state line rest hit hnext hlabel ih =>
    rw [run_of_lineEnd (step_of_lineEnd hnext hlabel)] at h
    split at h
    · exact absurd (Prod.mk.inj h).2 (by simp)
    · next state₁ more hmore =>
      obtain ⟨rfl, hl⟩ := Prod.mk.inj h
      obtain rfl := Except.ok.inj hl
      have hnewline : Event.byLine (.lineEnd :: events settings
          (readGap settings state line hit.skipped []).2
          (readGap settings state line hit.skipped []).1.next hit.rest) = [] :: Event.byLine _ := rfl
      have hend := Event.byLine_append hnewline (gapReadings settings state line hit.skipped)
      rw [events_of_lineEnd hnext hlabel, gapEvents, hend, linesFrom, ih hmore, line_readGap,
        List.append_nil]
      rfl
  | failed state line rest hit lexeme overrun hnext hlabel hn =>
    rw [run_of_failed (step_of_error hnext hlabel hn)] at h
    exact absurd (Prod.mk.inj h).2 (by simp)
  | lexeme state line rest hit lexeme n hnext hlabel hn ih =>
    rw [run_of_next (step_of_lexeme hnext hlabel hn)] at h
    obtain ⟨l, ls, hby⟩ := Event.exists_byLine (events settings
      (takeLexeme settings state line hit lexeme n).2.1
      (takeLexeme settings state line hit lexeme n).2.2 (hit.matched.drop n ++ hit.rest))
    have hlexeme := Event.byLine_append hby [(takeLexeme settings state line hit lexeme n).1]
    have hlines := Event.byLine_append hlexeme (gapReadings settings state line hit.skipped)
    rw [events_of_lexeme hnext hlabel hn]
    change _ = linesFrom line (Event.byLine (_ ++ ([_].map Event.token ++ _)))
    rw [gapEvents, hlines, ih h, hby, linesFrom, linesFrom, line_takeLexeme]
    simp [Line.next]

/-- A lexeme that is found is one of the mode's, and it starts with a visible byte. -/
theorem lexeme_of_next {modes : ModeStack} (h : next? modes rest = some hit)
    (hl : hit.label = some lexeme) :
    lexeme ∈ (modes.active.rules modes.embedded).map Prod.fst ∧
      ∃ b more, hit.matched = b :: more ∧ isInert b = false := by
  obtain ⟨p, hp, hstart, -⟩ := Pattern.exists_rule_of_search h
  have hmem : (lexeme, p) ∈ modes.active.rules modes.embedded := by
    rw [hl] at hp
    rcases List.mem_cons.1 hp with hp | hp
    · exact absurd (Prod.mk.inj hp).1 (by simp)
    · obtain ⟨⟨found, q⟩, hq, heq⟩ := List.mem_map.1 hp
      obtain ⟨hfound, rfl⟩ := Prod.mk.inj heq
      rw [← Option.some.inj hfound]
      exact hq
  refine ⟨List.mem_map.2 ⟨_, hmem, rfl⟩, ?_⟩
  obtain ⟨b, more, hb⟩ := List.exists_cons_of_ne_nil (Pattern.search_split h).1
  refine ⟨b, more, hb, ?_⟩
  by_contra hinert
  have hnone := modes.active.mayStart_rules modes.embedded (by simpa using hinert) _ hmem
  exact absurd (hnone.symm.trans (hstart b (by rw [hb]; rfl))) (by simp)

/-- What has no label is a newline. -/
theorem newline_of_next {modes : ModeStack} (h : next? modes rest = some hit)
    (hl : hit.label = none) : hit.matched = [newline] := by
  obtain ⟨⟨label, p⟩, hp, he⟩ := List.exists_of_findSome?_eq_some (Pattern.pick?_of_search h)
  obtain ⟨e, hmatch, heq⟩ := Option.map_eq_some_iff.1 he
  obtain ⟨rfl, rfl⟩ := Prod.mk.inj heq
  have hnewline : p = .byte newline := by
    rw [hl] at hp
    rcases List.mem_cons.1 hp with hp | hp
    · exact (Prod.mk.inj hp).2
    · obtain ⟨r, -, heq⟩ := List.mem_map.1 hp
      exact absurd (Prod.mk.inj heq).1 (by simp)
  obtain ⟨hne, -⟩ := Pattern.match?_split hmatch
  have hmem := List.mem_of_find?_eq_some hmatch
  obtain ⟨b, tail, hb⟩ := List.exists_cons_of_ne_nil (Pattern.search_split h).1
  rw [hnewline, Pattern.byte, Pattern.ends, hb] at hmem
  dsimp only [List.cons_append] at hmem
  split_ifs at hmem with hbyte
  · obtain ⟨htaken, -⟩ := Span.mk.inj (List.mem_singleton.1 hmem)
    rw [beq_iff_eq] at hbyte
    rw [hb, ← List.reverse_reverse (b :: tail), htaken, hbyte]
    rfl
  · exact absurd hmem (by simp)

theorem formed_takeLexeme {start : ModeName} (hf : state.modes.Formed start)
    (h : next? state.modes rest = some hit) (hl : hit.label = some lexeme) (settings : Settings)
    (line : Line) (n : Nat) :
    (takeLexeme settings state line hit lexeme n).2.1.modes.Formed start := by
  have hmem := (lexeme_of_next h hl).1
  rw [← rules_readGap settings state line hit.skipped (hit.matched ++ hit.rest),
    ← embedded_readGap settings state line hit.skipped (hit.matched ++ hit.rest)] at hmem
  exact formed_readLexeme (formed_readGap hf _ _) hmem _ _

/-- What holds of every reading that can be made in modes of the right shape holds along a run. -/
theorem trace_events {start : ModeName} {R : Reading → Prop}
    (gap : ∀ (modes : ModeStack) sight text number, modes.Formed start →
      R ⟨modes, (modes.active.readText sight text).1.numbered number,
        modes.setActive (modes.active.readText sight text).2⟩)
    (lexeme : ∀ (state : State) sight lexeme b text number, state.modes.Formed start →
      lexeme ∈ (state.modes.active.rules state.modes.embedded).map Prod.fst → isInert b = false →
      R ⟨state.modes, (readLexeme settings [] state sight lexeme (b :: text)).1.numbered number,
        (readLexeme settings [] state sight lexeme (b :: text)).2.modes⟩)
    (hf : state.modes.Formed start) (line : Line) (rest : Bytes) :
    Trace R state.modes (events settings state line rest) := by
  have hgaps : ∀ (state : State) (line : Line) (text more : Bytes) (es : List Event),
      state.modes.Formed start →
      Trace R (readGap settings state line text more).2.modes es →
      Trace R state.modes (gapEvents settings state line text ++ es) := by
    intro state line text more es hf htrace
    rw [readGap_rest settings state line text more []] at htrace
    unfold readGap at htrace
    unfold gapEvents gapReadings
    split_ifs at htrace ⊢
    · exact htrace
    · exact .token (gap state.modes _ _ _ hf) htrace
  induction state, line, rest using run_induction settings with
  | finished state line rest hnext =>
    rw [events_of_none hnext, ← List.append_nil (gapEvents settings state line rest)]
    exact hgaps state line rest [] [] hf (.nil _)
  | lineEnd state line rest hit hnext hlabel ih =>
    rw [events_of_lineEnd hnext hlabel]
    exact hgaps _ _ _ [] _ hf (.lineEnd (ih (formed_readGap hf _ _)))
  | failed state line rest hit lexeme overrun hnext hlabel hn =>
    rw [events_of_error hnext hlabel hn, ← List.append_nil (gapEvents _ _ _ _)]
    exact hgaps _ _ _ [] [] hf (.nil _)
  | lexeme state line rest hit found n hnext hlabel hn ih =>
    obtain ⟨hmem, b, more, hmatched, hb⟩ := lexeme_of_next hnext hlabel
    have hn' : 0 < n := Mode.extent_pos (Pattern.search_split hnext).1 hn
    rw [← rules_readGap settings state line hit.skipped (hit.matched ++ hit.rest),
      ← embedded_readGap settings state line hit.skipped (hit.matched ++ hit.rest)] at hmem
    rw [events_of_lexeme hnext hlabel hn]
    refine hgaps state line hit.skipped (hit.matched ++ hit.rest) _ hf
      (show Trace R (takeLexeme settings state line hit found n).1.before _ from
        .token ?_ (ih ?_))
    · obtain ⟨k, rfl⟩ := Nat.exists_eq_succ_of_ne_zero (Nat.pos_iff_ne_zero.1 hn')
      have htake : hit.matched.take (k + 1) = b :: more.take k := by rw [hmatched]; rfl
      have hread := lexeme (readGap settings state line hit.skipped (hit.matched ++ hit.rest)).2
        ⟨settings.tabWidth, (readGap settings state line hit.skipped
          (hit.matched ++ hit.rest)).1, hit.matched.drop (k + 1) ++ hit.rest⟩ found b (more.take k)
        (readGap settings state line hit.skipped (hit.matched ++ hit.rest)).1.number
        (formed_readGap hf _ _) hmem hb
      rw [← htake] at hread
      exact hread
    · exact formed_takeLexeme hf hnext hlabel settings line n

/-- A run up to the reading of a lexeme: the events in front of it, and where the run stands behind
it. -/
inductive Through (settings : Settings) :
    State → Line → Bytes → List Event → Reading → State → Line → Bytes → Prop where
  | here {state : State} {line : Line} {rest : Bytes} {hit : Pattern.Hit (Option Lexeme)}
    {lexeme : Lexeme} {n : Nat} (hnext : next? state.modes rest = some hit)
    (hlabel : hit.label = some lexeme) (hn : extent state.modes lexeme hit.matched = .ok n) :
    Through settings state line rest (gapEvents settings state line hit.skipped)
      (takeLexeme settings state line hit lexeme n).1
      (takeLexeme settings state line hit lexeme n).2.1
      (takeLexeme settings state line hit lexeme n).2.2 (hit.matched.drop n ++ hit.rest)
  | lineEnd {state state' : State} {line line' : Line} {rest rest' : Bytes}
    {hit : Pattern.Hit (Option Lexeme)} {before : List Event} {r : Reading}
    (hnext : next? state.modes rest = some hit) (hlabel : hit.label = none)
    (h : Through settings (readGap settings state line hit.skipped []).2
      (readGap settings state line hit.skipped []).1.next hit.rest before r state' line' rest') :
    Through settings state line rest
      (gapEvents settings state line hit.skipped ++ .lineEnd :: before) r state' line' rest'
  | lexeme {state state' : State} {line line' : Line} {rest rest' : Bytes}
    {hit : Pattern.Hit (Option Lexeme)} {lexeme : Lexeme} {n : Nat} {before : List Event}
    {r : Reading} (hnext : next? state.modes rest = some hit) (hlabel : hit.label = some lexeme)
    (hn : extent state.modes lexeme hit.matched = .ok n)
    (h : Through settings (takeLexeme settings state line hit lexeme n).2.1
      (takeLexeme settings state line hit lexeme n).2.2 (hit.matched.drop n ++ hit.rest) before r
      state' line' rest') :
    Through settings state line rest (gapEvents settings state line hit.skipped ++
      .token (takeLexeme settings state line hit lexeme n).1 :: before) r state' line' rest'

/-- Text between lexemes leads neither into a verbatim region nor out of one. -/
theorem isVerbatim_of_mem_gapEvents {text : Bytes} {r : Reading}
    (h : .token r ∈ gapEvents settings state line text) :
    r.before = state.modes ∧
      r.after.active.isVerbatim = r.before.active.isVerbatim := by
  obtain ⟨r', hr, heq⟩ := List.mem_map.1 h
  obtain rfl := Event.token.inj heq
  unfold gapReadings at hr
  split_ifs at hr
  · exact absurd hr (by simp)
  · obtain rfl := List.mem_singleton.1 hr
    refine ⟨rfl, ?_⟩
    change (state.modes.active.readText _ text).2.isVerbatim = state.modes.active.isVerbatim
    cases state.modes.active <;> rfl

/-- A run that comes to a reading between a region and its surroundings goes through it. -/
theorem through_of_events {before more : List Event} {r : Reading}
    (h : events settings state line rest = before ++ .token r :: more)
    (hr : r.after.active.isVerbatim ≠ r.before.active.isVerbatim) :
    ∃ state' line' rest', Through settings state line rest before r state' line' rest' ∧
      more = events settings state' line' rest' := by
  -- the reading is not that of the text between lexemes
  have hbehind : ∀ (state : State) (line : Line) (text : Bytes) (before : List Event)
      (e : Event) (es : List Event),
      gapEvents settings state line text ++ e :: es = before ++ .token r :: more →
      ∃ tail, before = gapEvents settings state line text ++ tail ∧
        e :: es = tail ++ .token r :: more := by
    intro state line text before e es heq
    rcases List.append_eq_append_iff.1 heq with ⟨tail, hbefore, hes⟩ | ⟨tail, hgap, hes⟩
    · exact ⟨tail, hbefore, hes⟩
    · cases tail with
      | nil => exact ⟨[], by rw [hgap, List.append_nil, List.append_nil], hes.symm⟩
      | cons x tail =>
        obtain ⟨rfl, -⟩ := List.cons.inj hes
        have hmem : .token r ∈ gapEvents settings state line text := by
          rw [hgap]
          simp
        exact absurd (isVerbatim_of_mem_gapEvents hmem).2 hr
  induction state, line, rest using run_induction settings generalizing before with
  | finished state line rest hnext =>
    rw [events_of_none hnext] at h
    have hmem : .token r ∈ gapEvents settings state line rest := by
      rw [h]
      simp
    exact absurd (isVerbatim_of_mem_gapEvents hmem).2 hr
  | failed state line rest hit found overrun hnext hlabel hn =>
    rw [events_of_error hnext hlabel hn] at h
    have hmem : .token r ∈ gapEvents settings state line hit.skipped := by
      rw [h]
      simp
    exact absurd (isVerbatim_of_mem_gapEvents hmem).2 hr
  | lineEnd state line rest hit hnext hlabel ih =>
    rw [events_of_lineEnd hnext hlabel] at h
    obtain ⟨tail, rfl, hes⟩ := hbehind _ _ _ _ _ _ h
    cases tail with
    | nil => exact absurd (List.cons.inj hes).1 (by simp)
    | cons x tail =>
      obtain ⟨rfl, htail⟩ := List.cons.inj hes
      obtain ⟨state', line', rest', hthrough, hmore⟩ := ih htail
      exact ⟨state', line', rest', .lineEnd hnext hlabel hthrough, hmore⟩
  | lexeme state line rest hit found n hnext hlabel hn ih =>
    rw [events_of_lexeme hnext hlabel hn] at h
    obtain ⟨tail, rfl, hes⟩ := hbehind _ _ _ _ _ _ h
    cases tail with
    | nil =>
      obtain ⟨htoken, hmore⟩ := List.cons.inj hes
      obtain rfl := Event.token.inj htoken
      rw [List.append_nil]
      exact ⟨_, _, _, .here hnext hlabel hn, hmore.symm⟩
    | cons x tail =>
      obtain ⟨rfl, htail⟩ := List.cons.inj hes
      obtain ⟨state', line', rest', hthrough, hmore⟩ := ih htail
      exact ⟨state', line', rest', .lexeme hnext hlabel hn hthrough, hmore⟩

/-- The events of a run spell what it reads. -/
theorem spelled_gapEvents (settings : Settings) (state : State) (line : Line) (text : Bytes) :
    Event.spelled (gapEvents settings state line text) = text := by
  unfold gapEvents gapReadings
  split_ifs with h
  · exact (List.isEmpty_iff.1 h).symm
  · have htext := Mode.text_readText ⟨settings.tabWidth, line, []⟩ state.modes.active text
    change (Mode.readText _ _ text).1.text ++ [] = text
    rw [htext, List.append_nil]

theorem text_takeLexeme (settings : Settings) (state : State) (line : Line)
    (hit : Pattern.Hit (Option Lexeme)) (lexeme : Lexeme) (n : Nat) :
    (takeLexeme settings state line hit lexeme n).1.token.text = hit.matched.take n :=
  text_readLexeme settings [] _ _ lexeme (hit.matched.take n)

theorem split_taken {modes : ModeStack} {hit : Pattern.Hit (Option Lexeme)}
    (h : next? modes rest = some hit) (n : Nat) :
    rest = hit.skipped ++ (hit.matched.take n ++ (hit.matched.drop n ++ hit.rest)) := by
  rw [← (Pattern.search_split h).2, ← List.append_assoc (hit.matched.take n), List.take_append_drop,
    List.append_assoc]

theorem Through.spelled {state' : State} {line' : Line} {rest' : Bytes} {before : List Event}
    {r : Reading} (h : Through settings state line rest before r state' line' rest') :
    rest = Event.spelled before ++ r.token.text ++ rest' := by
  induction h with
  | here hnext hlabel hn =>
    rw [spelled_gapEvents, text_takeLexeme, List.append_assoc]
    exact split_taken hnext _
  | lineEnd hnext hlabel h ih =>
    have hnewline := newline_of_next hnext hlabel
    rw [Event.spelled, List.flatMap_append, List.flatMap_cons, ← Event.spelled, ← Event.spelled,
      spelled_gapEvents]
    rw [← (Pattern.search_split hnext).2, hnewline, ih]
    simp [Event.text]
  | @lexeme state state' line line' rest rest' hit found n before r hnext hlabel hn h ih =>
    rw [Event.spelled, List.flatMap_append, List.flatMap_cons, ← Event.spelled, ← Event.spelled,
      spelled_gapEvents, Event.text, text_takeLexeme]
    refine (split_taken hnext n).trans ?_
    rw [ih]
    simp

end Steps

end Whole
end Reindent.Scan
