import Mathlib.Data.List.Infix
import Reindent.Proofs.Noninterference.Cuts
import Reindent.Proofs.Noninterference.Rows

/-! The content of a verbatim region has no influence on the rest of the document. -/
namespace Reindent
open Bytes Text Scan

namespace Scan

/-- The event does not leave the region. -/
def Event.StaysIn (region : Region) : Event → Prop
  | .token r => r.after.active = .verbatim region
  | .lineEnd => True

instance (region : Region) : DecidablePred (Event.StaysIn region)
  | .token r => inferInstanceAs (Decidable (r.after.active = .verbatim region))
  | .lineEnd => inferInstanceAs (Decidable True)

/-- A document in three parts: a text at whose end a verbatim region starts, what the region holds,
and a text at whose start the region ends. The token `opener` leads into the region and `closer` out
of it. -/
@[mk_iff]
structure Encloses (settings : Settings) (language : Language) (region : Region)
    (front inside back : Bytes) (before : List Event) (opener : Reading) (middle : List Event)
    (closer : Reading) (after : List Event) : Prop where
  events : Whole.events settings { modes := language.start } { number := 1 }
    (front ++ inside ++ back) = before ++ .token opener :: (middle ++ .token closer :: after)
  front : Event.spelled before ++ opener.token.text = front
  inside : Event.spelled middle = inside
  enters : opener.before.active.isVerbatim = false ∧ opener.after.active = .verbatim region
  stays : ∀ e ∈ middle, e.StaysIn region
  leaves : closer.before.active = .verbatim region ∧ closer.after.active.isVerbatim = false

instance (settings : Settings) (language : Language) (region : Region) (front inside back : Bytes)
    (before : List Event) (opener : Reading) (middle : List Event) (closer : Reading)
    (after : List Event) :
    Decidable
      (Encloses settings language region front inside back before opener middle closer after) :=
  decidable_of_iff' _ (encloses_iff settings language region front inside back before opener middle
    closer after)

namespace Whole
variable {settings : Settings} {state state' : State} {line line' : Line} {rest rest' : Bytes}
  {before : List Event} {r : Reading}

theorem Through.isOk_run (h : Through settings state line rest before r state' line' rest') :
    (run settings state line rest).2.isOk = (run settings state' line' rest').2.isOk := by
  induction h with
  | here hnext hlabel hn => rw [run_of_next (step_of_lexeme hnext hlabel hn)]
  | lineEnd hnext hlabel _ ih => rw [isOk_run_of_lineEnd (step_of_lineEnd hnext hlabel), ih]
  | lexeme hnext hlabel hn _ ih => rw [run_of_next (step_of_lexeme hnext hlabel hn), ih]

/-- A run that starts with one mode leaves no other behind. -/
theorem Through.start_le (h : Through settings state line rest before r state' line' rest')
    (hs : state.modes.start ≤ 1) : state'.modes.start ≤ 1 := by
  have hself : ∀ state : State, state.modes.start ≤ 1 → state.Alike state :=
    fun state hstate => ⟨rfl, rfl, hstate⟩
  have hline : ∀ line : Line, line.Alike false line :=
    fun line => ⟨rfl, rfl, fun htrue => absurd htrue (by simp), fun _ => rfl⟩
  induction h with
  | here hnext hlabel hn => exact (takeLexeme_alike (hself _ hs) (hline _) _ _ _).2.1.start
  | lineEnd hnext hlabel _ ih => exact ih (readGap_alike (hself _ hs) (hline _) _ _).1.start
  | lexeme hnext hlabel hn _ ih =>
    exact ih (takeLexeme_alike (hself _ hs) (hline _) _ _ _).2.1.start

theorem Through.visible (h : Through settings state line rest before r state' line' rest')
    {start : ModeName} (hf : state.modes.Formed start) : r.token.isBlank = false := by
  obtain ⟨state₀, line₀, rest₀, hit, lexeme, n, -, hnext, hlabel, hn, htaken, -⟩ := h.last hf
  obtain rfl : r = _ := congrArg Prod.fst htaken
  rw [Token.isBlank, text_takeLexeme]
  exact visible_of_next hnext hlabel (Mode.extent_pos (Pattern.search_split hnext).1 hn)

theorem Through.after_eq (h : Through settings state line rest before r state' line' rest')
    {start : ModeName} (hf : state.modes.Formed start) :
    state'.modes = r.after ∧ state'.modes.Formed start := by
  obtain ⟨state₀, line₀, rest₀, hit, lexeme, n, hf₀, hnext, hlabel, hn, htaken, -⟩ := h.last hf
  obtain ⟨rfl, hrest⟩ := Prod.mk.inj htaken
  obtain ⟨rfl, -⟩ := Prod.mk.inj hrest
  exact ⟨rfl, formed_takeLexeme hf₀ hnext hlabel settings line₀ n⟩

end Whole

open Whole

namespace Encloses
variable {settings : Settings} {language : Language} {region : Region}
  {front inside inside' back : Bytes} {before before' middle middle' after after' : List Event}
  {opener opener' closer closer' : Reading}

theorem enters_opener
    (h : Encloses settings language region front inside back before opener middle closer after) :
    opener.Enters := by
  refine ⟨h.enters.1, ?_⟩
  rw [h.enters.2]
  rfl

/-- The run stands at the start of the region, and crosses it. -/
theorem crosses
    (h : Encloses settings language region front inside back before opener middle closer after) :
    ∃ state line state' line' rest',
      Through settings { modes := language.start } { number := 1 } (front ++ (inside ++ back)) before
        opener state line (inside ++ back) ∧
      Through settings state line (inside ++ back) middle closer state' line' rest' ∧
      Crosses region state line middle closer state' line' rest' ∧
      closer.token.text ++ rest' = back ∧ state'.modes.start ≤ 1 ∧
      opener.token.isBlank = false ∧ closer.token.isBlank = false ∧
      after = Whole.events settings state' line' rest' := by
  have hf := language.formed_start
  have hstart : language.start.start ≤ 1 := by cases language <;> exact Nat.le_refl 1
  obtain ⟨state, line, rest, hopener, hmore⟩ := through_of_events h.events (by
    rw [h.enters.1, h.enters.2]
    simp [Mode.isVerbatim])
  have hrest : rest = inside ++ back := by
    have hspelled := hopener.spelled
    rw [h.front, List.append_assoc] at hspelled
    exact (List.append_cancel_left hspelled).symm
  subst hrest
  obtain ⟨state', line', rest', hcloser, hafter⟩ := through_of_events hmore.symm (by
    rw [h.leaves.1, h.leaves.2]
    simp [Mode.isVerbatim])
  obtain ⟨hmodes, hf'⟩ := hopener.after_eq hf
  have hactive : state.modes.active = .verbatim region := by rw [hmodes, h.enters.2]
  have hcrosses := hcloser.crosses hf' hactive (fun r hr => h.stays _ hr) h.leaves.2
  have hback := hcloser.spelled
  rw [h.inside, List.append_assoc] at hback
  rw [List.append_assoc] at hopener
  exact ⟨state, line, state', line', rest', hopener, hcloser, hcrosses,
    (List.append_cancel_left hback).symm, hcloser.start_le (hopener.start_le hstart),
    hopener.visible hf, hcloser.visible hf', hafter⟩

theorem counts
    (h : Encloses settings language region front inside back before opener middle closer after) :
    (before ++ [Event.token opener]).count .lineEnd = front.count newline ∧
      middle.count .lineEnd = inside.count newline := by
  have hline : ∀ r, Event.token r ∈
      before ++ .token opener :: (middle ++ .token closer :: after) → newline ∉ r.token.text := by
    intro r hr
    rw [← h.events] at hr
    exact newline_notMem_of_mem_events hr
  constructor
  · rw [← h.front, ← Event.count_spelled]
    · simp [Event.spelled, Event.text]
    · intro r hr
      apply hline r
      rw [List.mem_append, List.mem_singleton] at hr
      rcases hr with hr | hr
      · exact List.mem_append_left _ hr
      · rw [hr]
        simp
  · rw [← h.inside, Event.count_spelled]
    intro r hr
    apply hline r
    simp [hr]

theorem lines_eq
    (h : Encloses settings language region front inside back before opener middle closer after)
    {lines : List Line}
    (hread : tokenize settings language.start (front ++ inside ++ back) = .ok lines) :
    lines = linesFrom { number := 1 } (Event.byLine
      ((before ++ [.token opener]) ++ (middle ++ .token closer :: after))) := by
  rw [tokenize_eq_run] at hread
  have hlines := lines_run (Prod.ext rfl hread)
  rw [hlines, h.events, List.append_assoc, List.singleton_append]

theorem tokens_eq
    (h : Encloses settings language region front inside back before opener middle closer after)
    {lines : List Line}
    (hread : tokenize settings language.start (front ++ inside ++ back) = .ok lines) :
    lines.map Line.tokens = (Event.byLine
      (before ++ .token opener :: (middle ++ .token closer :: after))).map (·.map Reading.token) := by
  rw [h.lines_eq hread, tokens_linesFrom rfl, List.append_assoc, List.singleton_append]

/-- Two documents that differ in what a region holds are read alike around the region. -/
theorem same
    (h : Encloses settings language region front inside back before opener middle closer after)
    (h' : Encloses settings language region front inside' back before' opener' middle' closer'
      after')
    (hcount : inside'.count newline = inside.count newline)
    (htag : ¬ HoldsTag (front ++ inside ++ back)) (htag' : ¬ HoldsTag (front ++ inside' ++ back))
    (hshrinks : ShrinksAlike (before ++ [.token opener]) (inside ++ back) (inside' ++ back)) :
    before' = before ∧ opener' = opener ∧ closer' = closer ∧ Event.Alike true after after' ∧
      (tokenize settings language.start (front ++ inside' ++ back)).isOk =
        (tokenize settings language.start (front ++ inside ++ back)).isOk := by
  obtain ⟨state, line, state₁, line₁, rest₁, hopener, hcloser, hcrosses, hback, hstart, -, -, rfl⟩ :=
    h.crosses
  obtain ⟨state', line', state₂, line₂, rest₂, hopener', hcloser', hcrosses', hback', -, -, -, rfl⟩ :=
    h'.crosses
  rw [List.append_assoc] at htag htag'
  have hcuts := hopener.cutsAlike hopener' language.formed_start h.enters_opener h'.enters_opener
    hshrinks
  obtain ⟨rfl, rfl, rfl, rfl⟩ := hopener.same rfl hopener' language.formed_start h.enters_opener
    h'.enters_opener hcuts htag htag'
  have hcount' : middle'.count .lineEnd = middle.count .lineEnd := by
    rw [h.counts.2, h'.counts.2, hcount]
  obtain ⟨rfl, rfl, hnumber, rfl⟩ :=
    hcrosses.same hcrosses' (hback'.trans hback.symm) hcount'
  have hlines : line₁.Alike true line₂ :=
    ⟨hnumber, hcrosses'.visible.trans hcrosses.visible.symm, fun _ => hcrosses.visible,
      fun hbelow => absurd hbelow (by simp)⟩
  obtain ⟨halike, hok, -⟩ := @run_alike settings _ _ _ _ _ ⟨rfl, rfl, hstart⟩ hlines rest₂
  refine ⟨rfl, rfl, rfl, halike, ?_⟩
  rw [tokenize_eq_run, tokenize_eq_run, List.append_assoc, List.append_assoc, hopener.isOk_run,
    hopener'.isOk_run, hcloser.isOk_run, hcloser'.isOk_run]
  exact hok

/-- Around a region, lines look the same to the scope pass whatever the region holds. -/
theorem veils
    (h : Encloses settings language region front inside back before opener middle closer after)
    (h' : Encloses settings language region front inside' back before opener middle' closer after')
    (hcount : inside'.count newline = inside.count newline) (halike : Event.Alike true after after')
    {lines lines' : List Line}
    (hread : tokenize settings language.start (front ++ inside ++ back) = .ok lines)
    (hread' : tokenize settings language.start (front ++ inside' ++ back) = .ok lines') :
    Scope.Veils (fun i => i ≤ front.count newline ∨ front.count newline + inside.count newline ≤ i)
      lines lines' := by
  obtain ⟨_, _, _, _, _, -, -, hcrosses, -, -, hopener, hcloser, -⟩ := h.crosses
  obtain ⟨_, _, _, _, _, -, -, hcrosses', -⟩ := h'.crosses
  have hcount' : middle'.count .lineEnd = middle.count .lineEnd := by
    rw [h.counts.2, h'.counts.2, hcount]
  have hmute : closer.token.Mute := by
    rw [hcrosses.closer_eq]
    exact Token.mute_verbatim _ _
  have hshown : ∃ t ∈ Event.tokens ((before ++ [Event.token opener]).count .lineEnd)
      (before ++ [.token opener]), t.isBlank = false := by
    refine ⟨opener.token, ?_, hopener⟩
    rw [List.count_append, List.count_cons_of_ne (by simp), List.count_nil, Nat.add_zero,
      Event.tokens_append, if_pos (Nat.le_refl _), Nat.sub_self, Event.tokens_zero_token]
    simp
  rw [h.lines_eq hread, h'.lines_eq hread', ← h.counts.1, ← h.counts.2]
  exact Event.veils_lines hshown hcrosses.mute hcrosses'.mute hcount' hmute hcloser halike 1

end Encloses

/-- What a verbatim region holds has no influence on the rest of a document without template tags, as
long as it does not move the cut of a line comment that gets shorter in lower case. -/
theorem verbatim_noninterference (settings : Settings) (language : Language) (region : Region)
    {front inside inside' back : Bytes} {before before' middle middle' after after' : List Event}
    {opener opener' closer closer' : Reading}
    (h : Encloses settings language region front inside back before opener middle closer after)
    (h' : Encloses settings language region front inside' back before' opener' middle' closer'
      after')
    (hcount : inside'.count newline = inside.count newline)
    (htag : ¬ ascii "\x7b%" <:+: front ++ inside ++ back)
    (htag' : ¬ ascii "\x7b%" <:+: front ++ inside' ++ back)
    (hshrinks : ShrinksAlike (before ++ [.token opener]) (inside ++ back) (inside' ++ back)) :
    before' = before ∧ opener' = opener ∧ closer' = closer ∧ Event.Alike true after after' ∧
    (tokenize settings language.start (front ++ inside' ++ back)).isOk =
      (tokenize settings language.start (front ++ inside ++ back)).isOk ∧
    ∀ lines lines', tokenize settings language.start (front ++ inside ++ back) = .ok lines →
      tokenize settings language.start (front ++ inside' ++ back) = .ok lines' →
      lines.map Line.tokens = (Event.byLine
        (before ++ .token opener :: (middle ++ .token closer :: after))).map
          (·.map Reading.token) ∧
      lines'.map Line.tokens = (Event.byLine
        (before ++ .token opener :: (middle' ++ .token closer :: after'))).map
          (·.map Reading.token) ∧
      lines'.length = lines.length ∧
      (Scope.pass [] lines').error?.map ScopeError.report =
        (Scope.pass [] lines).error?.map ScopeError.report ∧
      ∀ i, i ≤ front.count newline ∨ front.count newline + inside.count newline ≤ i →
        (Scope.pass [] lines').lines[i]?.map Line.place =
          (Scope.pass [] lines).lines[i]?.map Line.place := by
  obtain ⟨rfl, rfl, rfl, halike, hok⟩ := h.same h' hcount htag htag' hshrinks
  refine ⟨rfl, rfl, rfl, halike, hok, fun lines lines' hread hread' => ?_⟩
  have hveils := h.veils h' hcount halike hread hread'
  obtain ⟨herror, hplaces⟩ := Scope.pass_veils hveils
  exact ⟨h.tokens_eq hread, h'.tokens_eq hread', hveils.length, herror, hplaces⟩

def pageEvents (front inside back : Bytes) : List Event :=
  Whole.events {} { modes := Language.html.start } { number := 1 } (front ++ inside ++ back)

/-- A script with a comment that gets shorter in lower case and is cut, and the start of a comment. -/
def commentFront : Bytes :=
  ascii "<script>//" ++ [0xE2, 0x84, 0xAA] ++ ascii "</script><p><!--"

/-- An element starts on the line where the comment ends, and its tag goes on below. -/
def commentBack : Bytes := ascii "--><i a\nid=b>\n</i></p>"

def commentOpener : Reading where
  before := Language.html.start
  token := { text := ascii "<!--", kind := .markup, line := 1 }
  after := { active := .verbatim .markupComment, returns := [.markup], start := 1 }

def commentCloser : Reading where
  before := commentOpener.after
  token := { text := ascii "-->", kind := .text, ignore := true, line := 3 }
  after := Language.html.start

def commentEvents (inside : Bytes) : List Event := pageEvents commentFront inside commentBack

def InComment (inside : Bytes) : Prop :=
  Encloses {} .html .markupComment commentFront inside commentBack ((commentEvents inside).take 7)
    commentOpener (((commentEvents inside).drop 8).take 4) commentCloser
    ((commentEvents inside).drop 13)

theorem verbatim_noninterference_comment :
    InComment (ascii " <b>\n  x\n") ∧ InComment (ascii "</p>\n\n\x60 ") ∧
    ShrinksAlike ((commentEvents (ascii " <b>\n  x\n")).take 7 ++ [.token commentOpener])
      (ascii " <b>\n  x\n" ++ commentBack) (ascii "</p>\n\n\x60 " ++ commentBack) ∧
    Event.Alike true ((commentEvents (ascii " <b>\n  x\n")).drop 13)
      ((commentEvents (ascii "</p>\n\n\x60 ")).drop 13) ∧
    ∃ lines lines',
      tokenize {} Language.html.start (commentFront ++ ascii " <b>\n  x\n" ++ commentBack) =
        .ok lines ∧
      tokenize {} Language.html.start (commentFront ++ ascii "</p>\n\n\x60 " ++ commentBack) =
        .ok lines' ∧
      ∀ i, i ≤ 0 ∨ 2 ≤ i →
        (Scope.pass [] lines').lines[i]?.map Line.place =
          (Scope.pass [] lines).lines[i]?.map Line.place := by
  have h : InComment (ascii " <b>\n  x\n") := by
    unfold InComment
    decide +kernel
  have h' : InComment (ascii "</p>\n\n\x60 ") := by
    unfold InComment
    decide +kernel
  have hshrinks : ShrinksAlike
      ((commentEvents (ascii " <b>\n  x\n")).take 7 ++ [.token commentOpener])
      (ascii " <b>\n  x\n" ++ commentBack) (ascii "</p>\n\n\x60 " ++ commentBack) := by
    decide +kernel
  obtain ⟨-, -, -, halike, hok, hlines⟩ := verbatim_noninterference {} .html .markupComment h h'
    (by decide +kernel) (by decide +kernel) (by decide +kernel) hshrinks
  refine ⟨h, h', hshrinks, halike, ?_⟩
  have hread : (tokenize {} Language.html.start
      (commentFront ++ ascii " <b>\n  x\n" ++ commentBack)).isOk = true := by
    decide +kernel
  rw [hread] at hok
  cases hlines₁ : tokenize {} Language.html.start
      (commentFront ++ ascii " <b>\n  x\n" ++ commentBack) with
  | error overrun =>
    rw [hlines₁] at hread
    exact absurd hread Bool.false_ne_true
  | ok lines =>
    cases hlines₂ : tokenize {} Language.html.start
        (commentFront ++ ascii "</p>\n\n\x60 " ++ commentBack) with
    | error overrun =>
      rw [hlines₂] at hok
      exact absurd hok Bool.false_ne_true
    | ok lines' =>
      obtain ⟨-, -, -, -, hplaces⟩ := hlines lines lines' hlines₁ hlines₂
      exact ⟨lines, lines', rfl, rfl, hplaces⟩

/-- Four Kelvin signs, a bracket and five Kelvin signs in a script. Their lower-case form is so much
shorter that a closing tag behind the text cuts the comment in front of the bracket, or behind it if
there is a letter more. -/
def kelvinFront : Bytes :=
  ascii "<script>//" ++ (List.replicate 4 [0xE2, 0x84, 0xAA]).flatten ++ ascii "\x7b" ++
    (List.replicate 5 [0xE2, 0x84, 0xAA]).flatten ++ ascii "/*"

def kelvinBack : Bytes := ascii "*/\x7d</script>"

/-- The comment in the script starts and ends with some brackets open. -/
def kelvinOpener (frames : List Frame) : Reading where
  before := { active := .script { frames }, returns := [.markup], start := 1 }
  token := { text := ascii "/*", kind := .script, line := 1 }
  after := { active := .verbatim .codeComment, returns := [.script { frames }, .markup], start := 1 }

def kelvinCloser (frames : List Frame) : Reading where
  before := (kelvinOpener frames).after
  token := { text := ascii "*/", kind := .text, ignore := true, line := 1 }
  after := (kelvinOpener frames).before

def kelvinEvents (inside : Bytes) : List Event := pageEvents kelvinFront inside kelvinBack

theorem verbatim_noninterference_kelvin :
    Encloses {} .html .codeComment kelvinFront (ascii "</script>") kelvinBack
      ((kelvinEvents (ascii "</script>")).take 5) (kelvinOpener [{ offset := 0 }])
      (((kelvinEvents (ascii "</script>")).drop 6).take 1) (kelvinCloser [{ offset := 0 }])
      ((kelvinEvents (ascii "</script>")).drop 8) ∧
    Encloses {} .html .codeComment kelvinFront (ascii "a</script>") kelvinBack
      ((kelvinEvents (ascii "a</script>")).take 4) (kelvinOpener [])
      (((kelvinEvents (ascii "a</script>")).drop 5).take 1) (kelvinCloser [])
      ((kelvinEvents (ascii "a</script>")).drop 7) ∧
    (ascii "a</script>").count newline = (ascii "</script>").count newline ∧
    ¬ ascii "\x7b%" <:+: kelvinFront ++ ascii "</script>" ++ kelvinBack ∧
    ¬ ascii "\x7b%" <:+: kelvinFront ++ ascii "a</script>" ++ kelvinBack ∧
    (kelvinEvents (ascii "a</script>")).take 4 ≠ (kelvinEvents (ascii "</script>")).take 5 ∧
    (parse {} Language.html.start (kelvinFront ++ ascii "</script>" ++ kelvinBack)).isOk = true ∧
    (parse {} Language.html.start (kelvinFront ++ ascii "a</script>" ++ kelvinBack)).isOk = false := by
  decide +kernel

end Scan
end Reindent
