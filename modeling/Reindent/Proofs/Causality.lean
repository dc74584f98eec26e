import Reindent.Proofs.Scan.Whole
import Reindent.Proofs.Standalone

/-! What follows a line has no part in it, as long as no template tag asks for its end tag: the lines
of a text are read, placed and rendered the same when more lines are put behind it. -/
namespace Reindent
open Bytes

theorem Bytes.joinLines_append {ls ms : List Bytes} (hl : ls ≠ []) (hm : ms ≠ []) :
    joinLines (ls ++ ms) = joinLines ls ++ newline :: joinLines ms := by
  induction ls with
  | nil => exact absurd rfl hl
  | cons l ls ih =>
    cases ls with
    | nil => exact joinLines_cons hm
    | cons k ks =>
      have hne : k :: ks ++ ms ≠ [] := by simp
      have hfront : joinLines (l :: k :: ks) = l ++ newline :: joinLines (k :: ks) :=
        joinLines_cons (by simp)
      rw [List.cons_append, joinLines_cons hne, ih (by simp), hfront, List.append_assoc,
        List.cons_append]

/-- Only template tags ask for what is ahead. -/
theorem Template.read_ahead {lexeme : Lexeme} (h : lexeme ≠ .templateBlock) (blocks : Blocks)
    (memory : Lookahead) (text ahead ahead' : Bytes) :
    read blocks memory lexeme text ahead = read blocks memory lexeme text ahead' := by
  cases lexeme with
  | templateBlock => exact absurd rfl h
  | _ => rfl

namespace Scan
variable {settings : Settings} {state : State}

/-- Without template tags, a step on a line is the same whatever is below the line. -/
theorem step_below {rest : Bytes} (h : ¬ HoldsTag rest) (line : Line) (below below' : Bytes) :
    step settings below state line rest = step settings below' state line rest := by
  unfold step
  cases hs : Pattern.search (state.modes.active.rules state.modes.embedded) none rest with
  | none => rfl
  | some hit =>
    have hlabel : hit.label ≠ .templateBlock := fun hl => h (holdsTag_of_search hs hl)
    dsimp only
    cases (readGap settings state line hit.skipped (hit.matched ++ hit.rest)).2.modes.active.extent
        (readGap settings state line hit.skipped (hit.matched ++ hit.rest)).2.modes.embedded
        hit.label hit.matched with
    | error overrun => rfl
    | ok n =>
      unfold readLexeme
      dsimp only
      rw [Template.read_ahead hlabel _ _ _ _ (hit.matched.drop n ++ hit.rest ++ below')]

theorem readLine_below {rest : Bytes} (h : ¬ HoldsTag rest) (line : Line) (below below' : Bytes) :
    readLine settings below state line rest = readLine settings below' state line rest := by
  induction hn : rest.length using Nat.strongRecOn generalizing state line rest with
  | _ n ih =>
    have hstep : step settings below state line rest = step settings below' state line rest :=
      step_below h line below below'
    cases hs : step settings below state line rest with
    | finished state₁ line₁ =>
      rw [readLine_of_finished hs, readLine_of_finished (hstep.symm.trans hs)]
    | failed state₁ overrun =>
      rw [readLine_of_failed hs, readLine_of_failed (hstep.symm.trans hs)]
    | next state₁ line₁ rest₁ =>
      have hlt := length_lt_of_step hs
      have hrest : ¬ HoldsTag rest₁ := by
        obtain ⟨w, -, rfl⟩ := step_grows hs
        exact fun htag => h (htag.trans (List.suffix_append w _).isInfix)
      rw [readLine_of_next hs, readLine_of_next (hstep.symm.trans hs)]
      exact ih rest₁.length (by omega) hrest line₁ rfl

theorem readLines_front {front back : Bytes} (h : ¬ HoldsTag front) {number : Int64}
    {final : State} {all : List Line}
    (hread : readLines settings state number (linesBelow (front ++ newline :: back)) =
      (final, .ok all)) :
    ∃ between lines more, readLines settings state number (linesBelow front) =
      (between, .ok lines) ∧ all = lines ++ more := by
  induction front using lines_induction generalizing state number all with
  | single l hl =>
    rw [linesBelow_append_newline hl, readLines_cons] at hread
    split at hread
    · exact absurd (Prod.mk.inj hread).2 (by simp)
    · next state₁ line hline =>
      split at hread
      · exact absurd (Prod.mk.inj hread).2 (by simp)
      · next state₂ more hmore =>
        obtain ⟨-, hall⟩ := Prod.mk.inj hread
        rw [readLine_below h _ _ []] at hline
        refine ⟨state₁, [line], more, ?_, (Except.ok.inj hall).symm⟩
        rw [linesBelow_of_notMem hl, readLines_cons, hline]
        rfl
  | more l rest hl ih =>
    have hfront : ¬ HoldsTag l := fun htag => h (htag.trans (List.prefix_append l _).isInfix)
    have hrest : ¬ HoldsTag rest :=
      fun htag => h (htag.trans ⟨l ++ [newline], [], by simp⟩)
    rw [List.append_assoc, List.cons_append, linesBelow_append_newline hl, readLines_cons] at hread
    split at hread
    · exact absurd (Prod.mk.inj hread).2 (by simp)
    · next state₁ line hline =>
      split at hread
      · exact absurd (Prod.mk.inj hread).2 (by simp)
      · next state₂ others hothers =>
        obtain ⟨rfl, hall⟩ := Prod.mk.inj hread
        obtain ⟨between, lines, more, hlines, rfl⟩ := ih hrest hothers
        rw [readLine_below hfront _ _ (newline :: rest)] at hline
        refine ⟨between, line :: lines, more, ?_, (Except.ok.inj hall).symm⟩
        rw [linesBelow_append_newline hl, readLines_cons, hline]
        dsimp only
        rw [hlines]

theorem tokenize_front {modes : ModeStack} {front back : Bytes} (h : ¬ HoldsTag front)
    {all : List Line} (hread : tokenize settings modes (front ++ newline :: back) = .ok all) :
    ∃ lines more, tokenize settings modes front = .ok lines ∧ all = lines ++ more := by
  obtain ⟨between, lines, more, hlines, rfl⟩ := readLines_front h (Prod.ext rfl hread)
  exact ⟨lines, more, congrArg Prod.snd hlines, rfl⟩

end Scan

namespace Scope

theorem assign_eq_ok_iff {lines placed : List Line} :
    assign lines = .ok placed ↔ (passLines [] lines).error? = none ∧
      (passLines [] lines).stack = [] ∧ (passLines [] lines).lines = placed := by
  rw [assign_eq]
  cases (passLines [] lines).error? with
  | some e => simp
  | none =>
    cases (passLines [] lines).stack with
    | nil => simp
    | cons t stack => simp

/-- Lines that nest by themselves are placed the same with more lines behind them. -/
theorem assign_front {lines more placed all : List Line} (h : assign lines = .ok placed)
    (hall : assign (lines ++ more) = .ok all) : ∃ others, all = placed ++ others := by
  obtain ⟨herror, -, rfl⟩ := assign_eq_ok_iff.1 h
  obtain ⟨-, -, rfl⟩ := assign_eq_ok_iff.1 hall
  rw [passLines_append herror]
  exact ⟨_, rfl⟩

end Scope

namespace Formatter
open Scan

theorem indent_front {f : Formatter} {front back out all : Bytes} (h : ¬ HoldsTag front)
    (hout : f.indent front = .ok out) (hall : f.indent (front ++ newline :: back) = .ok all) :
    out ++ [newline] <+: all := by
  obtain ⟨placed, hraw, hlines, rfl⟩ := lines_of_indent hout
  obtain ⟨placed', hraw', hlines', rfl⟩ := lines_of_indent hall
  unfold Formatter.lines at hlines hlines'
  split_ifs at hlines hlines'
  obtain ⟨read, hread, hassign⟩ := parse_eq_ok_iff.1 hlines
  obtain ⟨read', hread', hassign'⟩ := parse_eq_ok_iff.1 hlines'
  obtain ⟨read₁, more, hread₁, rfl⟩ := tokenize_front h hread'
  obtain rfl := Except.ok.inj (hread.symm.trans hread₁)
  obtain ⟨others, rfl⟩ := Scope.assign_front hassign hassign'
  have hfront : placed ≠ [] := by
    rintro rfl
    exact lines_ne_nil front hraw.symm
  have hothers : others ≠ [] := by
    rintro rfl
    have hcount : (Bytes.lines front).length = (Bytes.lines (front ++ newline :: back)).length := by
      rw [← hraw, ← hraw', List.append_nil]
    rw [length_lines, length_lines, List.count_append, List.count_cons_self] at hcount
    omega
  rw [List.map_append, joinLines_append (by simpa using hfront) (by simpa using hothers)]
  exact ⟨_, by rw [List.append_assoc]; rfl⟩

/-- A text without template tags that stands in front of another is read as it is read alone, also by
a search that runs over all of the text ahead, and if both documents come out, the first result is the
front of the second. -/
theorem indent_causal (language : Language) (settings : Settings) {front : Bytes} (back : Bytes)
    (h : ¬ ascii "\x7b%" <:+: front) :
    (∀ all, tokenize settings language.start (front ++ newline :: back) = .ok all →
      (Whole.run settings { modes := language.start } { number := 1 }
        (front ++ newline :: back)).2 = .ok all ∧
      ∃ lines, tokenize settings language.start front = .ok lines ∧
        lines.length = front.count newline + 1 ∧ lines <+: all) ∧
    let f : Formatter := { tabWidth := settings.tabWidth, blocks := settings.blocks, language }
    ∀ out all, f.indent front = .ok out → f.indent (front ++ newline :: back) = .ok all →
      out ++ [newline] <+: all := by
  refine ⟨fun all hall => ⟨?_, ?_⟩, fun out all hout hall => indent_front h hout hall⟩
  · rw [← Whole.tokenize_eq_run, hall]
  · obtain ⟨lines, more, hlines, rfl⟩ := tokenize_front h hall
    refine ⟨lines, hlines, ?_, List.prefix_append lines more⟩
    rw [← length_lines, ← (tokenize_covers hlines).raw, List.length_map]

/-- An element whose tag goes on behind a blank at the end of a line, and another element below. -/
theorem indent_causal_element :
    (∃ lines all, tokenize {} Language.html.start (ascii "<p \nid=a>\n</p>") = .ok lines ∧
      tokenize {} Language.html.start (ascii "<p \nid=a>\n</p>" ++ newline :: ascii "<b>\n</b>") =
        .ok all ∧ lines <+: all) ∧
    ({} : Formatter).indent (ascii "<p \nid=a>\n</p>") = .ok (ascii "<p\n    id=a>\n</p>") ∧
    ascii "<p\n    id=a>\n</p>" ++ [newline] <+: ascii "<p\n    id=a>\n</p>\n<b>\n</b>" := by
  have hfront : ¬ ascii "\x7b%" <:+: ascii "<p \nid=a>\n</p>" := by decide +kernel
  obtain ⟨hread, hindent⟩ := indent_causal .html {} (ascii "<b>\n</b>") hfront
  have hout : ({} : Formatter).indent (ascii "<p \nid=a>\n</p>") =
      .ok (ascii "<p\n    id=a>\n</p>") := by
    decide +kernel
  have hok : (tokenize {} Language.html.start
      (ascii "<p \nid=a>\n</p>" ++ newline :: ascii "<b>\n</b>")).isOk = true := by
    decide +kernel
  refine ⟨?_, hout, hindent _ _ hout (by decide +kernel)⟩
  cases hall : tokenize {} Language.html.start
      (ascii "<p \nid=a>\n</p>" ++ newline :: ascii "<b>\n</b>") with
  | error overrun =>
    rw [hall] at hok
    exact absurd hok (by simp [Except.isOk, Except.toBool])
  | ok all =>
    obtain ⟨-, lines, hlines, -, hstart⟩ := hread all hall
    exact ⟨lines, all, hlines, rfl, hstart⟩

end Formatter
end Reindent
