import Reindent.Proofs.Scan.Tokens

/-! Invariants of runs over whole documents. Every token is read on a line with a known index,
behind the tokens in front of it there, and with all the text of the document behind it. -/
namespace Reindent.Scan.Whole
open Bytes Text

/-- What every reading establishes, by the index of its line, the line in front of it and the text
behind it, and what it keeps. -/
structure Keeps (settings : Settings) (R : Nat → Line → Bytes → Reading → Prop)
    (Inv : Nat → State → Line → Bytes → Prop) : Prop where
  gap : ∀ (i : Nat) (state : State) (line : Line) (text more : Bytes),
    Inv i state line (text ++ more) →
    let read := state.modes.active.readText ⟨settings.tabWidth, line, more⟩ text
    R i line more ⟨state.modes, read.1.numbered line.number, state.modes.setActive read.2⟩ ∧
      Inv i { state with modes := state.modes.setActive read.2 } (line.append read.1) more
  lexeme : ∀ (i : Nat) (state : State) (line : Line) (lexeme : Lexeme) (text more : Bytes),
    Inv i state line (text ++ more) → allBlank text = false →
    let read := readLexeme settings [] state ⟨settings.tabWidth, line, more⟩ lexeme text
    R i line more ⟨state.modes, read.1.numbered line.number, read.2.modes⟩ ∧
      Inv i read.2 (line.append read.1) more
  newline : ∀ (i : Nat) (state : State) (line : Line) (rest : Bytes),
    Inv i state line (newline :: rest) → Inv (i + 1) state line.next rest

/-- Events along which `R` holds of every reading. They start behind the tokens of `line`, which has
the index `i`, and spell what stands at the front of `rest`. -/
inductive Along (R : Nat → Line → Bytes → Reading → Prop) :
    Nat → Line → Bytes → List Event → Prop where
  | nil (i : Nat) (line : Line) (rest : Bytes) : Along R i line rest []
  | lineEnd {i : Nat} {line : Line} {rest : Bytes} {es : List Event}
    (h : Along R (i + 1) line.next rest es) : Along R i line (newline :: rest) (.lineEnd :: es)
  | token {i : Nat} {line : Line} {rest more : Bytes} {r : Reading} {es : List Event}
    (hrest : rest = r.token.text ++ more) (hr : R i line more r)
    (h : Along R i { line with tokens := line.tokens ++ [r.token] } more es) :
    Along R i line rest (.token r :: es)

variable {settings : Settings} {R : Nat → Line → Bytes → Reading → Prop}
  {Inv : Nat → State → Line → Bytes → Prop} {i : Nat} {state : State} {line : Line}

theorem Along.row {rest : Bytes} {es : List Event} (h : Along R i line rest es) {j : Nat}
    {row : List Reading} (hrow : (Event.byLine es)[j]? = some row) {r : Reading} (hr : r ∈ row) :
    ∃ line more, R (i + j) line more r := by
  induction h generalizing j row with
  | nil i line rest =>
    have hnil : row = [] := by
      cases j with
      | zero => exact (Option.some.inj hrow).symm
      | succ j => exact absurd hrow (by simp [Event.byLine])
    rw [hnil] at hr
    exact absurd hr (by simp)
  | @lineEnd i line rest es _ ih =>
    cases j with
    | zero =>
      rw [← Option.some.inj hrow] at hr
      exact absurd hr (by simp)
    | succ j =>
      obtain ⟨line', more, hread⟩ := ih hrow hr
      have hindex : i + 1 + j = i + (j + 1) := by omega
      rw [hindex] at hread
      exact ⟨line', more, hread⟩
  | @token i line rest more r' es _ hread _ ih =>
    obtain ⟨l, ls, hby⟩ := Event.exists_byLine es
    rw [Event.byLine, hby] at hrow
    cases j with
    | zero =>
      rw [← Option.some.inj hrow] at hr
      rcases List.mem_cons.1 hr with heq | hr
      · rw [heq]
        exact ⟨line, more, hread⟩
      · exact ih (j := 0) (by rw [hby]; rfl) hr
    | succ j => exact ih (j := j + 1) (by rw [hby]; exact hrow) hr

theorem Keeps.gapEvents (h : Keeps settings R Inv) {text more : Bytes} (rest' : Bytes)
    {es : List Event} (hinv : Inv i state line (text ++ more))
    (hrest : Inv i (readGap settings state line text rest').2
        (readGap settings state line text rest').1 more →
      Along R i (readGap settings state line text rest').1 more es) :
    Along R i line (text ++ more) (gapEvents settings state line text ++ es) := by
  rw [readGap_rest settings state line text rest' more] at hrest
  unfold readGap at hrest
  unfold Whole.gapEvents gapReadings
  have hsame : state.modes.active.readText ⟨settings.tabWidth, line, []⟩ text =
      state.modes.active.readText ⟨settings.tabWidth, line, more⟩ text := by
    cases state.modes.active <;> rfl
  rw [hsame]
  split_ifs at hrest ⊢ with hempty
  · rw [List.isEmpty_iff.1 hempty] at hinv ⊢
    exact hrest hinv
  · obtain ⟨hread, hkept⟩ := h.gap i state line text more hinv
    refine .token ?_ hread (hrest hkept)
    exact congrArg (· ++ more) (Mode.text_readText ⟨settings.tabWidth, line, more⟩ _ text).symm

/-- What every reading keeps holds along a run. -/
theorem Keeps.events (h : Keeps settings R Inv) {rest : Bytes} (hinv : Inv i state line rest) :
    Along R i line rest (events settings state line rest) := by
  induction state, line, rest using run_induction settings generalizing i with
  | finished state line rest hnext =>
    rw [events_of_none hnext, ← List.append_nil (Whole.gapEvents settings state line rest)]
    rw [← List.append_nil rest] at hinv
    have hgap := h.gapEvents [] hinv fun _ => .nil _ _ _
    rw [List.append_nil] at hgap
    exact hgap
  | lineEnd state line rest hit hnext hlabel ih =>
    have hsplit := (Pattern.search_split hnext).2
    rw [newline_of_next hnext hlabel, List.append_assoc] at hsplit
    rw [events_of_lineEnd hnext hlabel, ← hsplit]
    rw [← hsplit] at hinv
    exact h.gapEvents [] hinv fun hkept => .lineEnd (ih (h.newline _ _ _ _ hkept))
  | failed state line rest hit lexeme overrun hnext hlabel hn =>
    have hsplit := (Pattern.search_split hnext).2
    rw [List.append_assoc] at hsplit
    rw [events_of_error hnext hlabel hn, ← List.append_nil (Whole.gapEvents _ _ _ _), ← hsplit]
    rw [← hsplit] at hinv
    exact h.gapEvents [] hinv fun _ => .nil _ _ _
  | lexeme state line rest hit found n hnext hlabel hn ih =>
    have hvisible : allBlank (hit.matched.take n) = false := by
      obtain ⟨-, b, more, hmatched, hb⟩ := lexeme_of_next hnext hlabel
      have hpos := Mode.extent_pos (Pattern.search_split hnext).1 hn
      obtain ⟨k, hk⟩ := Nat.exists_eq_succ_of_ne_zero (Nat.pos_iff_ne_zero.1 hpos)
      rw [hmatched, hk, List.take_succ_cons]
      exact allBlank_of_mem List.mem_cons_self hb
    rw [events_of_lexeme hnext hlabel hn]
    rw [split_taken hnext n] at hinv
    rw [split_taken hnext n]
    refine h.gapEvents (hit.matched ++ hit.rest) hinv fun hkept => ?_
    obtain ⟨hread, hkept'⟩ := h.lexeme i _ _ found _ _ hkept hvisible
    refine .token ?_ hread (ih hkept')
    rw [text_takeLexeme]

/-- What every reading keeps holds of every token of the lines. -/
theorem Keeps.tokens (h : Keeps settings R Inv) {modes : ModeStack} {source : Bytes}
    {lines : List Line} (hinv : Inv 0 { modes } { number := 1 } source)
    (hread : tokenize settings modes source = .ok lines) {i : Nat} {line : Line} {t : Token}
    (hline : lines[i]? = some line) (ht : t ∈ line.tokens) :
    ∃ r line more, r.token = t ∧ R i line more r := by
  have hfill : (Event.byLine (Whole.events settings { modes } { number := 1 } source)).map
      (·.map Reading.token) = lines.map Line.tokens := (fill_events hread).1.symm
  have hrows := congrArg (·[i]?) hfill
  simp only [List.getElem?_map, hline, Option.map_some] at hrows
  obtain ⟨row, hrow, htokens⟩ := Option.map_eq_some_iff.1 hrows
  rw [← htokens] at ht
  obtain ⟨r, hr, hrt⟩ := List.mem_map.1 ht
  obtain ⟨line', more, hR⟩ := (h.events hinv).row hrow hr
  rw [Nat.zero_add] at hR
  exact ⟨r, line', more, hrt, hR⟩

end Reindent.Scan.Whole
