import Mathlib.Data.List.Forall2
import Reindent.Proofs.Respacing.Steps
import Reindent.Proofs.Scan.Whole

/-! Reading two documents side by side whose lines differ in the white space around them. -/
namespace Reindent.Scan
open Bytes Text Lookahead

variable {c : Contrast} {blocks : Blocks} {document₁ document₂ : Bytes}

inductive Outcome (c : Contrast) (blocks : Blocks) (document₁ document₂ : Bytes) :
    State × Except Overrun Line → State × Except Overrun Line → Prop where
  | read {state₁ state₂ : State} {line₁ line₂ : Line}
    (h : Level c true blocks document₁ document₂ state₁ state₂ line₁ line₂) :
    Outcome c blocks document₁ document₂ (state₁, .ok line₁) (state₂, .ok line₂)
  | failed {state₁ state₂ : State} {overrun₁ overrun₂ : Overrun} :
    Outcome c blocks document₁ document₂ (state₁, .error overrun₁) (state₂, .error overrun₂)

section Line
variable {torn : Bool} {below₁ below₂ : Bytes} {state₁ state₂ : State} {line₁ line₂ : Line}
  {rest₁ rest₂ : Bytes}
  (h : Abreast c torn blocks document₁ document₂ below₁ below₂ state₁ state₂ line₁ line₂ rest₁ rest₂)
include h

/-- Two lines that differ in the white space around them are read alike. -/
theorem Abreast.outcome (hasked : c.same ∨
      ∀ q ∈ lineQuestions ⟨c.first, blocks⟩ torn below₁ state₁ line₁ rest₁, q.Steady) :
    Outcome c blocks document₁ document₂ (readLine ⟨c.first, blocks⟩ below₁ state₁ line₁ rest₁)
      (readLine ⟨c.second, blocks⟩ below₂ state₂ line₂ rest₂) := by
  induction hn : rest₁.length using Nat.strongRecOn
    generalizing state₁ state₂ line₁ line₂ rest₁ rest₂ with
  | _ n ih =>
    have hpaired := h.paired (hasked.imp_right fun hq q hmem => hq q (mem_lineQuestions_of_step hmem))
    generalize hs₁ : step ⟨c.first, blocks⟩ below₁ state₁ line₁ rest₁ = step₁ at hpaired
    generalize hs₂ : step ⟨c.second, blocks⟩ below₂ state₂ line₂ rest₂ = step₂ at hpaired
    cases hpaired with
    | finished hlevel =>
      rw [readLine_of_finished hs₁, readLine_of_finished hs₂]
      exact .read hlevel
    | failed =>
      rw [readLine_of_failed hs₁, readLine_of_failed hs₂]
      exact .failed
    | next hnext =>
      have hlt := length_lt_of_step hs₁
      rw [readLine_of_next hs₁, readLine_of_next hs₂]
      refine ih _ (by omega) hnext (hasked.imp_right fun hq q hmem => hq q ?_) rfl
      rw [lineQuestions_of_next hs₁]
      exact List.mem_append_right _ hmem
    | behind hc hr hlevel =>
      rw [readLine_of_next hs₁, hr, readLine_of_finished hs₂]
      exact .read hlevel

theorem Abreast.lineQuestions_eq (hc : c.same) :
    lineQuestions ⟨c.first, blocks⟩ torn below₁ state₁ line₁ rest₁ =
      lineQuestions ⟨c.second, blocks⟩ torn below₂ state₂ line₂ rest₂ := by
  induction hn : rest₁.length using Nat.strongRecOn
    generalizing state₁ state₂ line₁ line₂ rest₁ rest₂ with
  | _ n ih =>
    have hpaired := h.paired (Or.inl hc)
    have hstep := h.stepQuestions_eq hc
    generalize hs₁ : step ⟨c.first, blocks⟩ below₁ state₁ line₁ rest₁ = step₁ at hpaired
    generalize hs₂ : step ⟨c.second, blocks⟩ below₂ state₂ line₂ rest₂ = step₂ at hpaired
    cases hpaired with
    | finished hlevel =>
      rw [lineQuestions_of_finished hs₁, lineQuestions_of_finished hs₂, hstep]
    | failed => rw [lineQuestions_of_failed hs₁, lineQuestions_of_failed hs₂, hstep]
    | next hnext =>
      have hlt := length_lt_of_step hs₁
      rw [lineQuestions_of_next hs₁, lineQuestions_of_next hs₂, hstep, ih _ (by omega) hnext rfl]
    | behind hne => exact absurd hc hne

end Line

/-- Lines that differ in the white space around them. -/
inductive Respaced (c : Contrast) : Bytes → Bytes → Prop where
  | intro {lead₁ lead₂ trail : Bytes} (text : Bytes) (h₁ : allBlank lead₁ = true)
    (h₂ : ∀ b ∈ lead₂, isSpace b = true) (ht : allBlank trail = true)
    (hsame : c.same → lead₁ = lead₂ ∧ trail = []) :
    Respaced c (lead₁ ++ (text ++ trail)) (lead₂ ++ text)

theorem respaced_refl (c : Contrast) (text : Bytes) : Respaced c text text := by
  have h : Respaced c ([] ++ (text ++ [])) ([] ++ text) :=
    .intro text rfl (by simp) rfl fun _ => ⟨rfl, rfl⟩
  simpa using h

theorem Respaced.eq {text₁ text₂ : Bytes} (h : Respaced c text₁ text₂) (hc : c.same) :
    text₁ = text₂ := by
  obtain ⟨text, -, -, -, hsame⟩ := h
  obtain ⟨rfl, rfl⟩ := hsame hc
  rw [List.append_nil]

def furtherLines (lines : List Bytes) : Bytes := lines.flatMap (newline :: ·)

theorem below_furtherLines {lines₁ lines₂ : List Bytes}
    (h : List.Forall₂ (Respaced c) lines₁ lines₂) :
    Below c (furtherLines lines₁) (furtherLines lines₂) := by
  induction h with
  | nil =>
    refine ⟨fun _ => rfl, fun ht => ?_⟩
    simpa [furtherLines] using Spread.done ht
  | @cons text₁ text₂ lines₁ lines₂ hl _ ih =>
    refine ⟨fun hc => ?_, fun {trail} ht => ?_⟩
    · change newline :: text₁ ++ furtherLines lines₁ = newline :: text₂ ++ furtherLines lines₂
      rw [hl.eq hc, ih.same hc]
    · obtain @⟨lead₁, lead₂, behind, text, h₁, h₂, hbehind, -⟩ := hl
      have hmargin : allBlank (trail ++ newline :: lead₁) = true := by
        rw [allBlank_append_of_left ht, ← List.singleton_append, allBlank_append_of_left, h₁]
        exact allBlank_of_isSpace (by decide +kernel)
      have hspread := Spread.margin hmargin (by simp)
        (List.forall_mem_cons.2 ⟨rfl, h₂⟩) (List.cons_ne_nil newline _)
        ((ih.spread hbehind).append_left text)
      simpa [furtherLines] using hspread

def withBelow : List Bytes → List (Bytes × Bytes)
  | [] => []
  | l :: ls => (l, furtherLines ls) :: withBelow ls

private theorem furtherLines_lines (s : Bytes) : furtherLines (Bytes.lines s) = newline :: s := by
  induction s using lines_induction with
  | single l hl =>
    rw [lines_of_notMem hl]
    simp [furtherLines]
  | more l rest hl ih =>
    rw [lines_append_newline hl]
    change newline :: l ++ furtherLines (Bytes.lines rest) = _
    rw [ih]
    rfl

theorem linesBelow_eq (s : Bytes) : linesBelow s = withBelow (Bytes.lines s) := by
  induction s using lines_induction with
  | single l hl =>
    rw [linesBelow_of_notMem hl, lines_of_notMem hl]
    rfl
  | more l rest hl ih =>
    rw [linesBelow_append_newline hl, lines_append_newline hl, withBelow, furtherLines_lines, ih]

/-- Lines that differ in the white space around them, as do the lines that follow them. -/
structure Alongside (c : Contrast) (p₁ p₂ : Bytes × Bytes) : Prop where
  respaced : Respaced c p₁.1 p₂.1
  below : Below c p₁.2 p₂.2

theorem alongside_withBelow {lines₁ lines₂ : List Bytes}
    (h : List.Forall₂ (Respaced c) lines₁ lines₂) :
    List.Forall₂ (Alongside c) (withBelow lines₁) (withBelow lines₂) := by
  induction h with
  | nil => exact .nil
  | cons hl hls ih => exact .cons ⟨hl, below_furtherLines hls⟩ ih

theorem Alongside.abreast {p₁ p₂ : Bytes × Bytes} (h : Alongside c p₁ p₂) {state₁ state₂ : State}
    (hmodes : state₁.modes.Like c true state₂.modes) (hsound₁ : Sound blocks document₁ state₁.memory)
    (hsound₂ : Sound blocks document₂ state₂.memory) (hahead₁ : p₁.1 ++ p₁.2 <:+ document₁)
    (hnewline : newline ∉ p₁.1) (hahead₂ : p₂.1 ++ p₂.2 <:+ document₂) (number : Int64) :
    Abreast c state₁.modes.inScriptTag blocks document₁ document₂ p₁.2 p₂.2 state₁ state₂ { number }
      { number } p₁.1 p₂.1 := by
  refine ⟨hmodes.untorn, Line.like_empty c number, hsound₁, hsound₂, hahead₁, hahead₂, hnewline,
    h.below, ?_⟩
  obtain ⟨text₁, below₁⟩ := p₁
  obtain ⟨text₂, below₂⟩ := p₂
  obtain ⟨⟨text, h₁, h₂, ht, hsame⟩, -⟩ := h
  have hraw : ({ number } : Line).raw = [] := rfl
  refine .ahead text ⟨h₁, allBlank_of_isSpace h₂, ht, hsame, fun hw hin => ?_⟩
    ⟨_, _, [], h₁, allBlank_of_isSpace h₂, by simp [hraw], by simp [hraw]⟩
  rcases hw with hc | htorn
  · exact (hsame hc).1
  · rw [ModeStack.inScriptTag, hin] at htorn
    exact absurd htorn (by simp)

/-- Lines of two runs that have the same effect on nesting and are verbatim for the same reason. -/
structure Matched (c : Contrast) (line₁ line₂ : Line) : Prop where
  like : line₁.Like c line₂
  verbatim : ∃ verbatim, line₁.startsVerbatim = (verbatim && !line₁.raw.isEmpty) ∧
    line₂.startsVerbatim = (verbatim && !line₂.raw.isEmpty)

private theorem isVerbatim_of_like {torn : Bool} {m₁ m₂ : Mode} (h : m₁.Like c torn m₂) :
    m₁.isVerbatim = m₂.isVerbatim := by
  cases h <;> rfl

section Lines
variable {texts₁ texts₂ : List (Bytes × Bytes)} {state₁ state₂ : State} {number : Int64}
  (hmodes : state₁.modes.Like c true state₂.modes) (hsound₁ : Sound blocks document₁ state₁.memory)
  (hsound₂ : Sound blocks document₂ state₂.memory)
  (htexts : List.Forall₂ (Alongside c) texts₁ texts₂)
  (hdocument₁ : ∀ p ∈ texts₁, p.1 ++ p.2 <:+ document₁ ∧ newline ∉ p.1)
  (hdocument₂ : ∀ p ∈ texts₂, p.1 ++ p.2 <:+ document₂)
include hmodes hsound₁ hsound₂ htexts hdocument₁ hdocument₂

/-- The lines of two runs match, if the lines of the documents differ in the white space around them
and all that is asked has a steady answer. -/
theorem matched_readLines (hasked : c.same ∨
      ∀ q ∈ linesQuestions ⟨c.first, blocks⟩ state₁ number texts₁, q.Steady)
    {last₁ : State} {lines₁ : List Line}
    (hr : readLines ⟨c.first, blocks⟩ state₁ number texts₁ = (last₁, .ok lines₁)) :
    ∃ last₂ lines₂, readLines ⟨c.second, blocks⟩ state₂ number texts₂ = (last₂, .ok lines₂) ∧
      List.Forall₂ (Matched c) lines₁ lines₂ := by
  induction htexts generalizing state₁ state₂ number last₁ lines₁ with
  | nil =>
    obtain ⟨-, hl⟩ := Prod.mk.inj hr
    obtain rfl := Except.ok.inj hl
    exact ⟨state₂, [], rfl, .nil⟩
  | @cons p₁ p₂ texts₁ texts₂ hp htexts ih =>
    obtain ⟨hahead₁, hnewline⟩ := hdocument₁ _ List.mem_cons_self
    have habreast := hp.abreast hmodes hsound₁ hsound₂ hahead₁ hnewline
      (hdocument₂ _ List.mem_cons_self) number
    obtain ⟨text₁, below₁⟩ := p₁
    obtain ⟨text₂, below₂⟩ := p₂
    have houtcome := habreast.outcome
      (hasked.imp_right fun hq q hmem => hq q (List.mem_append_left _ hmem))
    rw [readLines_cons] at hr
    generalize hr₁ : readLine ⟨c.first, blocks⟩ below₁ state₁ { number } text₁ = r₁ at hr houtcome
    generalize hr₂ : readLine ⟨c.second, blocks⟩ below₂ state₂ { number } text₂ = r₂ at houtcome
    cases houtcome with
    | failed => exact absurd (Prod.mk.inj hr).2 (by simp)
    | @read state₁' state₂' line₁ line₂ hlevel =>
      dsimp only at hr
      split at hr
      · exact absurd (Prod.mk.inj hr).2 (by simp)
      · next last lines hlines =>
        obtain ⟨-, hl⟩ := Prod.mk.inj hr
        obtain rfl := Except.ok.inj hl
        obtain ⟨last₂, lines₂, hlines₂, hmatched⟩ := ih hlevel.modes hlevel.sound₁ hlevel.sound₂
          (fun p hp => hdocument₁ p (List.mem_cons_of_mem _ hp))
          (fun p hp => hdocument₂ p (List.mem_cons_of_mem _ hp))
          (hasked.imp_right fun hq q hmem => by
            apply hq q
            rw [linesQuestions, hr₁]
            exact List.mem_append_right _ hmem) hlines
        refine ⟨last₂, line₂ :: lines₂, ?_, .cons ⟨hlevel.line, ?_⟩ hmatched⟩
        · rw [readLines_cons, hr₂]
          dsimp only
          rw [hlines₂]
        · have hraw₁ : line₁.raw = text₁ := (readLine_grows hr₁).raw
          have hraw₂ : line₂.raw = text₂ := (readLine_grows hr₂).raw
          refine ⟨state₁.modes.active.isVerbatim, ?_, ?_⟩
          · rw [startsVerbatim_readLine hr₁, hraw₁]
          · rw [startsVerbatim_readLine hr₂, hraw₂, isVerbatim_of_like hmodes.active]

theorem linesQuestions_eq (hc : c.same) :
    linesQuestions ⟨c.first, blocks⟩ state₁ number texts₁ =
      linesQuestions ⟨c.second, blocks⟩ state₂ number texts₂ := by
  induction htexts generalizing state₁ state₂ number with
  | nil => rfl
  | @cons p₁ p₂ texts₁ texts₂ hp htexts ih =>
    obtain ⟨hahead₁, hnewline⟩ := hdocument₁ _ List.mem_cons_self
    have habreast := hp.abreast hmodes hsound₁ hsound₂ hahead₁ hnewline
      (hdocument₂ _ List.mem_cons_self) number
    obtain ⟨text₁, below₁⟩ := p₁
    obtain ⟨text₂, below₂⟩ := p₂
    have houtcome := habreast.outcome (Or.inl hc)
    rw [linesQuestions, linesQuestions, habreast.lineQuestions_eq hc, hmodes.inScriptTag]
    generalize readLine ⟨c.first, blocks⟩ below₁ state₁ { number } text₁ = r₁ at houtcome
    generalize readLine ⟨c.second, blocks⟩ below₂ state₂ { number } text₂ = r₂ at houtcome
    cases houtcome with
    | failed => rfl
    | read hlevel =>
      dsimp only
      rw [ih hlevel.modes hlevel.sound₁ hlevel.sound₂
        (fun p hp => hdocument₁ p (List.mem_cons_of_mem _ hp))
        (fun p hp => hdocument₂ p (List.mem_cons_of_mem _ hp))]

end Lines

theorem suffix_of_mem_linesBelow {s : Bytes} :
    ∀ p ∈ linesBelow s, p.1 ++ p.2 <:+ s ∧ newline ∉ p.1 := by
  induction s using lines_induction with
  | single l hl =>
    rw [linesBelow_of_notMem hl]
    simpa using hl
  | more l rest hl ih =>
    rw [linesBelow_append_newline hl]
    intro p hp
    rcases List.mem_cons.1 hp with rfl | hp
    · exact ⟨List.suffix_refl _, hl⟩
    · obtain ⟨hsuffix, hnewline⟩ := ih p hp
      refine ⟨hsuffix.trans ?_, hnewline⟩
      exact ⟨l ++ [newline], by simp⟩

theorem below_of_mem_linesBelow {s : Bytes} : ∀ p ∈ linesBelow s, Whole.Below p.2 := by
  induction s using lines_induction with
  | single l hl =>
    rw [linesBelow_of_notMem hl]
    simp [Whole.Below]
  | more l rest hl ih =>
    rw [linesBelow_append_newline hl, List.forall_mem_cons]
    exact ⟨by simp [Whole.Below], ih⟩

section Asked
variable {settings : Settings} {P : Question → Prop} {Inv : State → Prop}
  (hkeeps : ∀ {below : Bytes} {state state' : State} {line line' : Line} {rest rest' : Bytes},
    Inv state → step settings below state line rest = .next state' line' rest' → Inv state')
include hkeeps

/-- What holds of the questions of every step on a line holds of those of the line. -/
theorem forall_lineQuestions {torn : Bool} {below : Bytes} {state : State} {line : Line}
    {rest : Bytes} (h : Inv state)
    (hstep : ∀ (state : State) (line : Line) (rest' : Bytes), Inv state → rest' <:+ rest →
      ∀ q ∈ stepQuestions settings torn below state line rest', P q) :
    ∀ q ∈ lineQuestions settings torn below state line rest, P q := by
  induction hn : rest.length using Nat.strongRecOn generalizing state line rest with
  | _ n ih =>
    have hfirst := hstep state line rest h (List.suffix_refl _)
    cases hnext : step settings below state line rest with
    | finished => rwa [lineQuestions_of_finished hnext]
    | failed => rwa [lineQuestions_of_failed hnext]
    | next state' line' rest' =>
      have hlt := length_lt_of_step hnext
      obtain ⟨w, -, rfl⟩ := step_grows hnext
      rw [lineQuestions_of_next hnext, List.forall_mem_append]
      refine ⟨hfirst, ih _ (by omega) (hkeeps h hnext) (fun state line rest hstate hs => ?_) rfl⟩
      exact hstep state line rest hstate (hs.trans (List.suffix_append _ _))

/-- What holds of the questions of every step in a document holds of all that is asked about it, if
steps and line ends keep what the states are known for. -/
theorem forall_questions
    (hread : ∀ {below : Bytes} {state : State} {line : Line} {rest : Bytes}, Inv state →
      Inv (readLine settings below state line rest).1)
    {modes : ModeStack} {source : Bytes} (h : Inv { modes })
    (hstep : ∀ (torn : Bool) (below : Bytes) (state : State) (line : Line) (rest : Bytes),
      Inv state → rest ++ below <:+ source → newline ∉ rest → Whole.Below below →
        ∀ q ∈ stepQuestions settings torn below state line rest, P q) :
    ∀ q ∈ questions settings modes source, P q := by
  have hlines : ∀ (texts : List (Bytes × Bytes)) (state : State) (number : Int64), Inv state →
      (∀ p ∈ texts, p ∈ linesBelow source) →
        ∀ q ∈ linesQuestions settings state number texts, P q := by
    intro texts
    induction texts with
    | nil => exact fun _ _ _ _ => List.forall_mem_nil _
    | cons p texts ih =>
      intro state number hstate htexts
      rw [List.forall_mem_cons] at htexts
      obtain ⟨hs, hline⟩ := suffix_of_mem_linesBelow p htexts.1
      have hb := below_of_mem_linesBelow p htexts.1
      obtain ⟨text, below⟩ := p
      rw [linesQuestions, List.forall_mem_append]
      constructor
      · refine forall_lineQuestions hkeeps hstate fun state line rest hstate hrest => ?_
        obtain ⟨front, rfl⟩ := hrest
        rw [List.append_assoc] at hs
        exact hstep _ below state line rest hstate ((List.suffix_append _ _).trans hs)
          (fun hmem => hline (List.mem_append_right _ hmem)) hb
      · have hafter := @hread below state { number } text hstate
        split
        · next state' line' hread =>
          rw [hread] at hafter
          exact ih state' _ hafter htexts.2
        · exact List.forall_mem_nil _
  exact hlines _ { modes } 1 h fun _ hp => hp

end Asked

theorem matched_tokenize {source₁ source₂ : Bytes} (modes : ModeStack)
    (htexts : List.Forall₂ (Respaced c) (Bytes.lines source₁) (Bytes.lines source₂))
    (hasked : c.same ∨ ∀ q ∈ questions ⟨c.first, blocks⟩ modes source₁, q.Steady)
    {lines₁ : List Line} (h : tokenize ⟨c.first, blocks⟩ modes source₁ = .ok lines₁) :
    ∃ lines₂, tokenize ⟨c.second, blocks⟩ modes source₂ = .ok lines₂ ∧
      List.Forall₂ (Matched c) lines₁ lines₂ := by
  have halong := alongside_withBelow htexts
  rw [← linesBelow_eq, ← linesBelow_eq] at halong
  have hmodes : ({ modes } : State).modes.Like c true ({ modes } : State).modes :=
    ModeStack.like_refl c true modes
  obtain ⟨last₂, lines₂, hlines₂, hmatched⟩ := matched_readLines hmodes (sound_nil blocks source₁)
    (sound_nil blocks source₂) halong suffix_of_mem_linesBelow
    (fun p hp => (suffix_of_mem_linesBelow p hp).1) hasked (Prod.ext rfl h)
  exact ⟨lines₂, congrArg Prod.snd hlines₂, hmatched⟩

/-- What is asked about a document does not depend on the tab width. -/
theorem questions_eq (blocks : Blocks) (modes : ModeStack) (source : Bytes) (v w : Int64) :
    questions ⟨v, blocks⟩ modes source = questions ⟨w, blocks⟩ modes source := by
  have halong := alongside_withBelow (c := ⟨v, w, True⟩) (List.forall₂_same.2 fun text _ =>
    respaced_refl _ text : List.Forall₂ _ (Bytes.lines source) (Bytes.lines source))
  rw [← linesBelow_eq] at halong
  have hmodes : ({ modes } : State).modes.Like ⟨v, w, True⟩ true ({ modes } : State).modes :=
    ModeStack.like_refl _ true modes
  exact linesQuestions_eq hmodes (sound_nil blocks source) (sound_nil blocks source) halong
    suffix_of_mem_linesBelow (fun p hp => (suffix_of_mem_linesBelow p hp).1) trivial

end Reindent.Scan
