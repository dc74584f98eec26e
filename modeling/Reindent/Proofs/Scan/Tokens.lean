import Reindent.Proofs.Scan.Events

/-! Every token of a run: how it was found, and what is left to read behind it. -/
namespace Reindent
open Bytes Pattern

namespace Pattern
variable {α : Type} {rules : List (α × Pattern)} {label : α} {accepts : UInt8 → Bool}

private theorem accepts_of_pick? {before : Option UInt8} {b : UInt8} {rest : Bytes}
    (h : pick? rules before (b :: rest) = none) (hr : (label, .one accepts) ∈ rules) :
    accepts b = false := by
  have hnone : (Pattern.one accepts).match? before (b :: rest) = none :=
    pick?_eq_none_iff.1 h _ hr
  by_contra hb
  rw [Bool.not_eq_false] at hb
  have hone : (Pattern.one accepts).match? before (b :: rest) = some ⟨[b], rest⟩ := by
    simp [match?, ends, hb]
  rw [hone] at hnone
  exact absurd hnone (by simp)

/-- A byte that a rule accepts alone is not passed over. -/
theorem accepts_of_mem_skipped {before : Option UInt8} {s : Bytes} {hit : Hit α}
    (h : search rules before s = some hit) (hr : (label, .one accepts) ∈ rules) {b : UInt8}
    (hb : b ∈ hit.skipped) : accepts b = false := by
  induction s generalizing before hit with
  | nil => exact absurd h (by simp [search])
  | cons c rest ih =>
    cases hpick : pick? rules before (c :: rest) with
    | some found =>
      rw [search_cons_of_some hpick] at h
      obtain rfl := Option.some.inj h
      exact absurd hb (by simp)
    | none =>
      rw [search_cons_of_none hpick] at h
      obtain ⟨later, hlater, rfl⟩ := Option.map_eq_some_iff.1 h
      rcases List.mem_cons.1 hb with rfl | hb
      · exact accepts_of_pick? hpick hr
      · exact ih hlater hb

theorem accepts_of_search_none {before : Option UInt8} {s : Bytes}
    (h : search rules before s = none) (hr : (label, .one accepts) ∈ rules) {b : UInt8}
    (hb : b ∈ s) : accepts b = false := by
  induction s generalizing before with
  | nil => exact absurd hb (by simp)
  | cons c rest ih =>
    cases hpick : pick? rules before (c :: rest) with
    | some found =>
      rw [search_cons_of_some hpick] at h
      exact absurd h (by simp)
    | none =>
      rw [search_cons_of_none hpick, Option.map_eq_none_iff] at h
      rcases List.mem_cons.1 hb with rfl | hb
      · exact accepts_of_pick? hpick hr
      · exact ih h hb

end Pattern

/-- The token stands in the lines. Behind it come `later`: the rest of its line and the lines below. -/
def Token.StandsIn (t : Token) (lines later : List Line) : Prop :=
  ∃ front line back before after, lines = front ++ line :: back ∧
    line.tokens = before ++ t :: after ∧ later = { line with tokens := after } :: back

namespace Scan

namespace Event

/-- The readings of events are the tokens of lines. -/
def Fill (es : List Event) (lines : List Line) : Prop :=
  lines.map Line.tokens = (byLine es).map (·.map Reading.token)

private theorem joinLines_append_head (front l : Bytes) (ls : List Bytes) :
    joinLines ((front ++ l) :: ls) = front ++ joinLines (l :: ls) := by
  cases ls with
  | nil => rfl
  | cons m ms => simp [joinLines]

private theorem spelled_eq_joinLines (es : List Event) :
    spelled es = joinLines ((byLine es).map (·.flatMap (·.token.text))) := by
  induction es with
  | nil => rfl
  | cons e es ih =>
    obtain ⟨l, ls, hby⟩ := exists_byLine es
    change e.text ++ spelled es = _
    cases e with
    | lineEnd =>
      rw [byLine, List.map_cons, joinLines_cons (by simp [hby]), ← ih]
      rfl
    | token r =>
      rw [byLine, ih, hby]
      exact (joinLines_append_head _ _ _).symm

/-- Events spell the text of the lines that they fill. -/
theorem Fill.spelled {es : List Event} {lines : List Line} (h : Fill es lines) :
    spelled es = joinLines (lines.map Line.raw) := by
  have hraw : lines.map Line.raw = (lines.map Line.tokens).map (·.flatMap Token.text) := by
    rw [List.map_map]
    rfl
  rw [spelled_eq_joinLines, hraw, h, List.map_map]
  simp only [Function.comp_def, List.flatMap_map]

private theorem exists_split_of_byLine {es : List Event} {front back : List (List Reading)}
    {before after : List Reading} {r : Reading}
    (h : byLine es = front ++ (before ++ r :: after) :: back) :
    ∃ es₁ es₂, es = es₁ ++ .token r :: es₂ ∧ byLine es₂ = after :: back := by
  induction es generalizing front before with
  | nil =>
    cases front with
    | nil => exact absurd (List.cons.inj h).1 (by simp)
    | cons x front => exact absurd (List.cons.inj h).2 (by simp)
  | cons e es ih =>
    cases e with
    | lineEnd =>
      cases front with
      | nil => exact absurd (List.cons.inj h).1 (by simp)
      | cons x front =>
        obtain ⟨es₁, es₂, rfl, hback⟩ := ih (List.cons.inj h).2
        exact ⟨.lineEnd :: es₁, es₂, rfl, hback⟩
    | token r' =>
      obtain ⟨l, ls, hby⟩ := exists_byLine es
      rw [byLine, hby] at h
      cases front with
      | cons x front =>
        obtain ⟨-, hls⟩ := List.cons.inj h
        obtain ⟨es₁, es₂, rfl, hback⟩ :=
          ih (show byLine es = (l :: front) ++ (before ++ r :: after) :: back by rw [hby, hls]; rfl)
        exact ⟨.token r' :: es₁, es₂, rfl, hback⟩
      | nil =>
        obtain ⟨hl, hls⟩ := List.cons.inj h
        cases before with
        | nil =>
          obtain ⟨rfl, rfl⟩ := List.cons.inj hl
          exact ⟨[], es, rfl, by rw [hby, hls]⟩
        | cons x before =>
          obtain ⟨-, rfl⟩ := List.cons.inj hl
          obtain ⟨es₁, es₂, rfl, hback⟩ :=
            ih (show byLine es = [] ++ (before ++ r :: after) :: back by rw [hby, hls]; rfl)
          exact ⟨.token r' :: es₁, es₂, rfl, hback⟩

/-- The reading of a token that stands in the lines, and the events behind it. -/
theorem Fill.split {es : List Event} {lines later : List Line} {t : Token} (h : Fill es lines)
    (ht : t.StandsIn lines later) :
    ∃ es₁ r es₂, es = es₁ ++ .token r :: es₂ ∧ r.token = t ∧ Fill es₂ later := by
  obtain ⟨front, line, back, before, after, rfl, htokens, rfl⟩ := ht
  unfold Fill at h
  rw [List.map_append, List.map_cons, htokens] at h
  obtain ⟨rows, rest, hby, -, hrest⟩ := List.map_eq_append_iff.1 h.symm
  obtain ⟨row, below, rfl, hrow, hbelow⟩ := List.map_eq_cons_iff.1 hrest
  obtain ⟨before', rest', rfl, -, hrest'⟩ := List.map_eq_append_iff.1 hrow
  obtain ⟨r, after', rfl, hr, hafter⟩ := List.map_eq_cons_iff.1 hrest'
  obtain ⟨es₁, es₂, hes, hby₂⟩ := exists_split_of_byLine hby
  refine ⟨es₁, r, es₂, hes, hr, ?_⟩
  unfold Fill
  rw [hby₂, List.map_cons, List.map_cons, hafter, hbelow]

theorem exists_standsIn {lines : List Line} {t : Token} (h : t ∈ lines.flatMap Line.tokens) :
    ∃ later, t.StandsIn lines later := by
  obtain ⟨line, hline, ht⟩ := List.mem_flatMap.1 h
  obtain ⟨front, back, hlines⟩ := List.append_of_mem hline
  obtain ⟨before, after, htokens⟩ := List.append_of_mem ht
  exact ⟨_, front, line, back, before, after, hlines, htokens, rfl⟩

end Event

def Finds (modes : ModeStack) (lexeme : Lexeme) (matched rest : Bytes) : Prop :=
  ∃ p before, (lexeme, p) ∈ modes.active.rules modes.embedded ∧
    p.match? before (matched ++ rest) = some ⟨matched.reverse, rest⟩

theorem Finds.label_mem {modes : ModeStack} {lexeme : Lexeme} {matched rest : Bytes}
    (h : Finds modes lexeme matched rest) :
    lexeme ∈ (modes.active.rules modes.embedded).map Prod.fst := by
  obtain ⟨p, before, hrule, -⟩ := h
  exact List.mem_map_of_mem (f := Prod.fst) hrule

def PassesOver (modes : ModeStack) (text : Bytes) : Prop :=
  ∀ lexeme accepts, (lexeme, .one accepts) ∈ modes.active.rules modes.embedded →
    ∀ b ∈ text, accepts b = false

/-- A run along which `P` holds of every reading and the text behind it. The text that is left when a
run stops in the middle has no events. -/
inductive Course (P : Reading → Bytes → Prop) : ModeStack → Bytes → List Event → Prop where
  | stop (modes : ModeStack) (rest : Bytes) : Course P modes rest []
  | lineEnd {modes : ModeStack} {rest : Bytes} {es : List Event} (h : Course P modes rest es) :
    Course P modes (newline :: rest) (.lineEnd :: es)
  | token {r : Reading} {rest : Bytes} {es : List Event} (hr : P r rest)
    (h : Course P r.after rest es) : Course P r.before (r.token.text ++ rest) (.token r :: es)

namespace Course
variable {P : Reading → Bytes → Prop} {modes : ModeStack} {source : Bytes}

theorem split {before after : List Event} {r : Reading}
    (h : Course P modes source (before ++ .token r :: after)) :
    ∃ rest, source = Event.spelled before ++ r.token.text ++ rest ∧ P r rest ∧
      Course P r.after rest after := by
  induction before generalizing modes source with
  | nil =>
    rw [List.nil_append] at h
    cases h with
    | token hr h => exact ⟨_, rfl, hr, h⟩
  | cons e before ih =>
    rw [List.cons_append] at h
    cases h with
    | lineEnd h =>
      obtain ⟨rest, hsource, hr, hafter⟩ := ih h
      exact ⟨rest, by rw [hsource]; simp [Event.spelled, Event.text], hr, hafter⟩
    | token _ h =>
      obtain ⟨rest, hsource, hr, hafter⟩ := ih h
      exact ⟨rest, by rw [hsource]; simp [Event.spelled, Event.text], hr, hafter⟩

/-- What holds of a token that stands in the lines of a run, and of the run behind it. -/
theorem stands {es : List Event} {lines later : List Line} {t : Token}
    (h : Course P modes (joinLines (lines.map Line.raw)) es) (hes : Event.Fill es lines)
    (ht : t.StandsIn lines later) :
    ∃ r es', r.token = t ∧ P r (joinLines (later.map Line.raw)) ∧
      Course P r.after (joinLines (later.map Line.raw)) es' ∧ Event.Fill es' later ∧
      t.text ++ joinLines (later.map Line.raw) <:+ joinLines (lines.map Line.raw) := by
  obtain ⟨es₁, r, es₂, rfl, rfl, hlater⟩ := hes.split ht
  obtain ⟨rest, hsource, hr, hafter⟩ := h.split
  have hspelled : Event.spelled es₁ ++ r.token.text ++ Event.spelled es₂ =
      Event.spelled es₁ ++ r.token.text ++ rest := by
    rw [← hsource, ← hes.spelled]
    simp [Event.spelled, Event.text]
  obtain rfl := List.append_cancel_left hspelled
  rw [hlater.spelled] at hr hafter hsource
  refine ⟨r, es₂, rfl, hr, hafter, hlater, Event.spelled es₁, ?_⟩
  rw [hsource, List.append_assoc]

end Course

/-- The events of a document fill its lines. -/
theorem fill_events {settings : Settings} {modes : ModeStack} {source : Bytes} {lines : List Line}
    (h : tokenize settings modes source = .ok lines) :
    Event.Fill (Whole.events settings { modes } { number := 1 } source) lines ∧
      joinLines (lines.map Line.raw) = source := by
  have hcovers := tokenize_covers h
  rw [Whole.tokenize_eq_run] at h
  constructor
  · unfold Event.Fill
    rw [Whole.lines_run (Prod.ext rfl h), tokens_linesFrom rfl]
  · rw [hcovers.raw, joinLines_lines]

namespace Whole
variable {settings : Settings} {state : State} {line : Line} {rest : Bytes}
  {hit : Hit (Option Lexeme)} {lexeme : Lexeme}

theorem finds_of_next {modes : ModeStack} (h : next? modes rest = some hit)
    (hl : hit.label = some lexeme) : Finds modes lexeme hit.matched hit.rest := by
  obtain ⟨⟨label, p⟩, hr, he⟩ := List.exists_of_findSome?_eq_some (pick?_of_search h)
  obtain ⟨e, hmatch, heq⟩ := Option.map_eq_some_iff.1 he
  obtain ⟨hlabel, rfl⟩ := Prod.mk.inj heq
  dsimp only at hlabel hmatch
  rw [hlabel, hl] at hr
  rcases List.mem_cons.1 hr with hr | hr
  · exact absurd (Prod.mk.inj hr).1 (by simp)
  · obtain ⟨⟨found, q⟩, hq, heq⟩ := List.mem_map.1 hr
    obtain ⟨hfound, rfl⟩ := Prod.mk.inj heq
    obtain rfl := Option.some.inj hfound
    exact ⟨q, _, hq, hmatch⟩

private theorem mem_rules {modes : ModeStack} {accepts : UInt8 → Bool}
    (h : (lexeme, .one accepts) ∈ modes.active.rules modes.embedded) :
    (some lexeme, .one accepts) ∈ rules modes.active modes.embedded :=
  List.mem_cons_of_mem _ (List.mem_map_of_mem (f := fun r => (some r.1, r.2)) h)

theorem passesOver_of_next {modes : ModeStack} (h : next? modes rest = some hit) :
    PassesOver modes hit.skipped :=
  fun _ _ hr _ hb => accepts_of_mem_skipped h (mem_rules hr) hb

theorem passesOver_of_none {modes : ModeStack} (h : next? modes rest = none) :
    PassesOver modes rest :=
  fun _ _ hr _ hb => accepts_of_search_none h (mem_rules hr) hb

theorem split_found {modes : ModeStack} (h : next? modes rest = some hit) :
    rest = hit.skipped ++ (hit.matched ++ hit.rest) := by
  rw [← List.append_assoc, (search_split h).2]

/-- What every reading establishes holds along a run, if it keeps the invariant of the states. -/
theorem course_events (P : Reading → Bytes → Prop) (Inv : State → Prop) (source : Bytes)
    (state : State)
    (gap : ∀ (state : State) sight text more number, Inv state → text ++ more <:+ source →
      text ≠ [] → PassesOver state.modes text →
      P ⟨state.modes, (state.modes.active.readText sight text).1.numbered number,
        state.modes.setActive (state.modes.active.readText sight text).2⟩ more ∧
      Inv { state with
        modes := state.modes.setActive (state.modes.active.readText sight text).2 })
    (lexeme : ∀ (state : State) (sight : Sight) lexeme matched rest n number, Inv state →
      matched ++ rest <:+ source → Finds state.modes lexeme matched rest →
      extent state.modes lexeme matched = .ok n → sight.rest = matched.drop n ++ rest →
      P ⟨state.modes,
        (readLexeme settings [] state sight lexeme (matched.take n)).1.numbered number,
        (readLexeme settings [] state sight lexeme (matched.take n)).2.modes⟩
        (matched.drop n ++ rest) ∧
      Inv (readLexeme settings [] state sight lexeme (matched.take n)).2)
    (hinv : Inv state) (hrest : rest <:+ source) (line : Line) :
    Course P state.modes rest (events settings state line rest) := by
  -- the text in front of what is found, and then the rest of the run
  have hgaps : ∀ (state : State) (line : Line) (text more behind : Bytes) (es : List Event),
      Inv state → text ++ more <:+ source → PassesOver state.modes text →
      (Inv (readGap settings state line text behind).2 →
        Course P (readGap settings state line text behind).2.modes more es) →
      Course P state.modes (text ++ more) (gapEvents settings state line text ++ es) := by
    intro state line text more behind es hinv hsource hpass hmore
    rw [readGap_rest settings state line text behind []] at hmore
    unfold readGap at hmore
    unfold gapEvents gapReadings
    split_ifs at hmore ⊢ with htext
    · rw [List.isEmpty_iff.1 htext]
      exact hmore hinv
    · obtain ⟨hread, hkept⟩ := gap state ⟨settings.tabWidth, line, []⟩ text more line.number hinv
        hsource (by simpa using htext) hpass
      have hcourse := Course.token hread (hmore hkept)
      have hspelled : ((state.modes.active.readText ⟨settings.tabWidth, line, []⟩ text).1.numbered
          line.number).text = text := Mode.text_readText _ _ _
      rw [hspelled] at hcourse
      exact hcourse
  induction state, line, rest using run_induction settings with
  | finished state line rest hnext =>
    have hgap := hgaps state line rest [] [] [] hinv (by simpa using hrest)
      (passesOver_of_none hnext) fun _ => .stop _ _
    rw [events_of_none hnext]
    simpa using hgap
  | lineEnd state line rest hit hnext hlabel ih =>
    have hsplit : hit.skipped ++ (newline :: hit.rest) = rest := by
      rw [← (search_split hnext).2, newline_of_next hnext hlabel]
      simp
    rw [← hsplit] at hrest
    rw [events_of_lineEnd hnext hlabel, ← hsplit]
    refine hgaps _ _ _ _ [] _ hinv hrest (passesOver_of_next hnext) fun hkept =>
      .lineEnd (ih hkept ?_)
    exact ((List.suffix_cons _ _).trans (List.suffix_append _ _)).trans hrest
  | failed state line rest hit found overrun hnext hlabel hn =>
    rw [split_found hnext] at hrest
    rw [events_of_error hnext hlabel hn, ← List.append_nil (gapEvents _ _ _ _), split_found hnext]
    exact hgaps _ _ _ _ [] _ hinv hrest (passesOver_of_next hnext) fun _ => .stop _ _
  | lexeme state line rest hit found n hnext hlabel hn ih =>
    rw [split_found hnext] at hrest
    have hsuffix : hit.matched ++ hit.rest <:+ source := (List.suffix_append _ _).trans hrest
    rw [events_of_lexeme hnext hlabel hn, split_found hnext]
    refine hgaps _ _ _ _ (hit.matched ++ hit.rest) _ hinv hrest (passesOver_of_next hnext)
      fun hkept => ?_
    have hfound : Finds (readGap settings state line hit.skipped (hit.matched ++ hit.rest)).2.modes
        found hit.matched hit.rest := by
      obtain ⟨p, before, hp, hmatch⟩ := finds_of_next hnext hlabel
      refine ⟨p, before, ?_, hmatch⟩
      rw [rules_readGap, embedded_readGap]
      exact hp
    obtain ⟨hread, hnew⟩ := lexeme _ ⟨settings.tabWidth, _, hit.matched.drop n ++ hit.rest⟩ found
      hit.matched hit.rest n _ hkept hsuffix hfound (by rw [extent_readGap]; exact hn) rfl
    have htaken : hit.matched.take n ++ (hit.matched.drop n ++ hit.rest) =
        hit.matched ++ hit.rest := by
      rw [← List.append_assoc, List.take_append_drop]
    have hbehind : hit.matched.drop n ++ hit.rest <:+ source :=
      List.IsSuffix.trans ⟨_, htaken⟩ hsuffix
    have hcourse : Course P _ ((takeLexeme settings state line hit found n).1.token.text ++ _)
        (.token (takeLexeme settings state line hit found n).1 :: _) :=
      .token hread (ih hnew hbehind)
    rw [text_takeLexeme, htaken] at hcourse
    exact hcourse

end Whole
end Scan
end Reindent
