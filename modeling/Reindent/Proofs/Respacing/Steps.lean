import Reindent.Proofs.Respacing.Lexemes
import Reindent.Proofs.Respacing.ScriptTypes
import Reindent.Proofs.Respacing.Spread

/-! One step in each of two lines that differ in the white space around them. -/
namespace Reindent.Scan
open Bytes Pattern Text Lookahead

variable {c : Contrast} {torn : Bool} {mode : Mode}

/-- White space in front of two lines and behind the first of them. It is the same in the same text,
and in front of what stands in the tag of a script on one line. -/
structure Margins (c : Contrast) (torn : Bool) (mode : Mode) (lead₁ lead₂ trail : Bytes) : Prop where
  first : allBlank lead₁ = true
  second : allBlank lead₂ = true
  behind : allBlank trail = true
  same : c.same → lead₁ = lead₂ ∧ trail = []
  whole : c.Whole torn → mode.inScriptTag = true → lead₁ = lead₂

theorem Margins.inside {lead₁ lead₂ trail : Bytes} (h : Margins c torn mode lead₁ lead₂ trail)
    (mode' : Mode) : Margins c torn mode' [] [] trail :=
  ⟨rfl, rfl, h.behind, fun hc => ⟨rfl, (h.same hc).2⟩, fun _ _ => rfl⟩

def Aligned (raw₁ raw₂ : Bytes) : Prop :=
  ∃ lead₁ lead₂ done, allBlank lead₁ = true ∧ allBlank lead₂ = true ∧
    raw₁ = lead₁ ++ done ∧ raw₂ = lead₂ ++ done

theorem Aligned.append {raw₁ raw₂ : Bytes} (h : Aligned raw₁ raw₂) (text : Bytes) :
    Aligned (raw₁ ++ text) (raw₂ ++ text) := by
  obtain ⟨lead₁, lead₂, done, h₁, h₂, rfl, rfl⟩ := h
  exact ⟨lead₁, lead₂, done ++ text, h₁, h₂, List.append_assoc _ _ _, List.append_assoc _ _ _⟩

theorem Aligned.column {line₁ line₂ : Line} (h : Aligned line₁.raw line₂.raw) :
    line₁.column = line₂.column := by
  obtain ⟨lead₁, lead₂, done, h₁, h₂, hraw₁, hraw₂⟩ := h
  unfold Line.column
  rw [hraw₁, hraw₂, trimLeft_append h₁, trimLeft_append h₂]

/-- Two lines being read: `raw₁` and `raw₂` are in their tokens, and what is left differs in the
white space around it. -/
inductive Place (c : Contrast) (torn : Bool) (mode : Mode) (raw₁ raw₂ : Bytes) :
    Bytes → Bytes → Prop where
  | ahead {lead₁ lead₂ trail : Bytes} (text : Bytes) (hm : Margins c torn mode lead₁ lead₂ trail)
    (ha : Aligned (raw₁ ++ lead₁) (raw₂ ++ lead₂)) :
    Place c torn mode raw₁ raw₂ (lead₁ ++ (text ++ trail)) (lead₂ ++ text)
  | finished : Place c torn mode raw₁ raw₂ [] []

inductive Searched (c : Contrast) (torn : Bool) (mode : Mode) (raw₁ raw₂ rest₁ rest₂ : Bytes) :
    Option (Hit Lexeme) → Option (Hit Lexeme) → Prop where
  | nothing (h : mode.Respaces c true rest₁ rest₂) :
    Searched c torn mode raw₁ raw₂ rest₁ rest₂ none none
  | same {lead₁ lead₂ trail : Bytes} (h : Hit Lexeme) (hm : Margins c torn mode lead₁ lead₂ trail)
    (ha : Aligned (raw₁ ++ lead₁) (raw₂ ++ lead₂)) :
    Searched c torn mode raw₁ raw₂ rest₁ rest₂ (some ((h.extend trail).shift lead₁))
      (some (h.shift lead₂))
  | comment {lead₁ lead₂ trail : Bytes} (state : ScriptState) (skipped text : Bytes)
    (hmode : mode = .script state) (hm : Margins c torn mode lead₁ lead₂ trail)
    (ha : Aligned (raw₁ ++ lead₁) (raw₂ ++ lead₂)) :
    Searched c torn mode raw₁ raw₂ rest₁ rest₂
      (some ⟨lead₁ ++ skipped, .lineComment, text ++ trail, []⟩)
      (some ⟨lead₂ ++ skipped, .lineComment, text, []⟩)
  | escape {lead₁ lead₂ trail : Bytes} (skipped taken rest : Bytes)
    (hmode : mode = .verbatim .templateLiteral) (hm : Margins c torn mode lead₁ lead₂ trail)
    (ht : trail = taken ++ rest) (hr : rest₂ = lead₂ ++ (skipped ++ [92])) :
    Searched c torn mode raw₁ raw₂ rest₁ rest₂
      (some ⟨lead₁ ++ skipped, .escape, 92 :: taken, rest⟩) none

private theorem search_lead (mode : Mode) (embedded : Bool) {lead : Bytes}
    (h : allBlank lead = true) (s : Bytes) :
    search (mode.rules embedded) none (lead ++ s) =
      (search (mode.rules embedded) none s).map (·.shift lead) := by
  have hword : (lead.getLast?.or none).any isWord = (none : Option UInt8).any isWord := by
    rw [Option.or_none, Option.any_none, Option.any_eq_false]
    intro b hb
    rw [isWord_of_isInert (isInert_of_allBlank h (List.mem_of_getLast? hb))]
  rw [search_skip fun b hb => mode.mayStart_rules embedded (isInert_of_allBlank h hb),
    search_before_congr hword]

theorem Place.searched {raw₁ raw₂ rest₁ rest₂ : Bytes}
    (h : Place c torn mode raw₁ raw₂ rest₁ rest₂) (hn : newline ∉ rest₁) (embedded : Bool) :
    Searched c torn mode raw₁ raw₂ rest₁ rest₂ (search (mode.rules embedded) none rest₁)
      (search (mode.rules embedded) none rest₂) := by
  cases h with
  | finished => exact .nothing (mode.respaces_refl c true [])
  | @ahead lead₁ lead₂ trail text hm ha =>
    have hfound := found_append mode embedded (fun h => hn (List.mem_append_right _ h)) hm.behind
      none
    rw [search_lead mode embedded hm.first, search_lead mode embedded hm.second]
    generalize search (mode.rules embedded) none (text ++ trail) = f₁ at hfound
    generalize search (mode.rules embedded) none text = f₂ at hfound
    cases hfound with
    | nothing =>
      refine .nothing ⟨?_, ?_, fun hw _ => ?_⟩
      · rw [allBlank_append_of_left hm.first, allBlank_append_of_left hm.second,
          allBlank_append_of_right hm.behind]
      · simp only [visible_append, visible_of_allBlank hm.first, visible_of_allBlank hm.second,
          visible_of_allBlank hm.behind, List.append_nil]
      · obtain ⟨rfl, rfl⟩ := hm.same (hw.resolve_right (by simp))
        rw [List.append_nil]
    | same h => exact .same h hm ha
    | comment state skipped text hmode hs => exact .comment state skipped text hmode hm ha
    | escape skipped taken rest hmode hs ht =>
      exact .escape skipped taken rest hmode hm ht (by rw [hs])

/-- What follows two lines, the first of which has other white space at its end. -/
structure Below (c : Contrast) (below₁ below₂ : Bytes) : Prop where
  same : c.same → below₁ = below₂
  spread : ∀ {trail : Bytes}, allBlank trail = true → Spread (trail ++ below₁) below₂

structure Abreast (c : Contrast) (torn : Bool) (blocks : Blocks)
    (document₁ document₂ below₁ below₂ : Bytes) (state₁ state₂ : State) (line₁ line₂ : Line)
    (rest₁ rest₂ : Bytes) : Prop where
  modes : state₁.modes.Like c torn state₂.modes
  line : line₁.Like c line₂
  sound₁ : Sound blocks document₁ state₁.memory
  sound₂ : Sound blocks document₂ state₂.memory
  ahead₁ : rest₁ ++ below₁ <:+ document₁
  ahead₂ : rest₂ ++ below₂ <:+ document₂
  newline : newline ∉ rest₁
  below : Below c below₁ below₂
  place : Place c torn state₁.modes.active line₁.raw line₂.raw rest₁ rest₂

structure Level (c : Contrast) (torn : Bool) (blocks : Blocks) (document₁ document₂ : Bytes)
    (state₁ state₂ : State) (line₁ line₂ : Line) : Prop where
  modes : state₁.modes.Like c torn state₂.modes
  line : line₁.Like c line₂
  sound₁ : Sound blocks document₁ state₁.memory
  sound₂ : Sound blocks document₂ state₂.memory

section Step
variable {blocks : Blocks} {document₁ document₂ below₁ below₂ : Bytes} {state₁ state₂ : State}
  {line₁ line₂ : Line} {rest₁ rest₂ : Bytes}
  (h : Abreast c torn blocks document₁ document₂ below₁ below₂ state₁ state₂ line₁ line₂ rest₁ rest₂)
include h

theorem Abreast.searched : Searched c torn state₁.modes.active line₁.raw line₂.raw rest₁ rest₂
    (search (state₁.modes.active.rules state₁.modes.embedded) none rest₁)
    (search (state₂.modes.active.rules state₂.modes.embedded) none rest₂) := by
  rw [← h.modes.embedded, ← h.modes.active.rules]
  exact h.place.searched h.newline _

theorem Abreast.gap {torn' : Bool} (hmodes : state₁.modes.Like c torn' state₂.modes)
    {text₁ text₂ : Bytes} (htext : state₁.modes.active.Respaces c torn' text₁ text₂)
    (more₁ more₂ : Bytes) :
    Level c torn' blocks document₁ document₂ (readGap ⟨c.first, blocks⟩ state₁ line₁ text₁ more₁).2
      (readGap ⟨c.second, blocks⟩ state₂ line₂ text₂ more₂).2
      (readGap ⟨c.first, blocks⟩ state₁ line₁ text₁ more₁).1
      (readGap ⟨c.second, blocks⟩ state₂ line₂ text₂ more₂).1 := by
  obtain ⟨hline, hmodes⟩ := like_readGap hmodes h.line blocks htext more₁ more₂
  refine ⟨hmodes, hline, ?_, ?_⟩
  · rw [memory_readGap]
    exact h.sound₁
  · rw [memory_readGap]
    exact h.sound₂

omit h in
theorem Margins.gap {lead₁ lead₂ trail : Bytes} (hm : Margins c torn mode lead₁ lead₂ trail)
    (skipped : Bytes) : mode.Respaces c torn (lead₁ ++ skipped) (lead₂ ++ skipped) where
  blank := by rw [allBlank_append_of_left hm.first, allBlank_append_of_left hm.second]
  visible := by
    rw [visible_append, visible_append, visible_of_allBlank hm.first,
      visible_of_allBlank hm.second]
  whole hw hin := by rw [hm.whole hw hin]

theorem Abreast.front {lead₁ lead₂ trail : Bytes}
    (hm : Margins c torn state₁.modes.active lead₁ lead₂ trail)
    (halign : Aligned (line₁.raw ++ lead₁) (line₂.raw ++ lead₂)) (skipped more₁ more₂ : Bytes) :
    let gap₁ := readGap ⟨c.first, blocks⟩ state₁ line₁ (lead₁ ++ skipped) more₁
    let gap₂ := readGap ⟨c.second, blocks⟩ state₂ line₂ (lead₂ ++ skipped) more₂
    Level c torn blocks document₁ document₂ gap₁.2 gap₂.2 gap₁.1 gap₂.1 ∧
      Aligned gap₁.1.raw gap₂.1.raw := by
  refine ⟨h.gap h.modes (hm.gap skipped) more₁ more₂, ?_⟩
  rw [(readGap_grows _ state₁ line₁ (lead₁ ++ skipped) more₁).raw,
    (readGap_grows _ state₂ line₂ (lead₂ ++ skipped) more₂).raw, ← List.append_assoc,
    ← List.append_assoc]
  exact halign.append skipped

omit h in
theorem Place.eq {raw₁ raw₂ : Bytes} (h : Place c torn mode raw₁ raw₂ rest₁ rest₂) (hc : c.same) :
    rest₁ = rest₂ := by
  cases h with
  | finished => rfl
  | ahead text hm ha =>
    obtain ⟨rfl, rfl⟩ := hm.same hc
    rw [List.append_nil]

theorem Abreast.search_eq (hc : c.same) :
    search (state₁.modes.active.rules state₁.modes.embedded) none rest₁ =
      search (state₂.modes.active.rules state₂.modes.embedded) none rest₂ := by
  rw [← h.modes.embedded, ← h.modes.active.rules, h.place.eq hc]

/-- In the same text the same is asked. -/
theorem Abreast.stepQuestions_eq (hc : c.same) :
    stepQuestions ⟨c.first, blocks⟩ torn below₁ state₁ line₁ rest₁ =
      stepQuestions ⟨c.second, blocks⟩ torn below₂ state₂ line₂ rest₂ := by
  have hsearch := h.search_eq hc
  cases hs : search (state₂.modes.active.rules state₂.modes.embedded) none rest₂ with
  | none => rw [stepQuestions_of_none (hsearch.trans hs), stepQuestions_of_none hs]
  | some hit =>
    have hgap := h.gap h.modes (Mode.respaces_refl c torn _ hit.skipped) (hit.matched ++ hit.rest)
      (hit.matched ++ hit.rest)
    rw [stepQuestions_of_some (hsearch.trans hs), stepQuestions_of_some hs, ← h.below.same hc]
    exact lexemeQuestions_of_same hc hgap.modes blocks below₁ hit.label hit.matched hit.rest

end Step

section Lexeme
variable {blocks : Blocks} {document₁ document₂ below₁ below₂ : Bytes} {state₁ state₂ : State}
  {line₁ line₂ : Line} {lexeme : Lexeme} {rest trail text : Bytes}

section Asked
variable (hasked : c.same ∨ ∀ q ∈ lexemeQuestions torn blocks below₁ state₁.modes lexeme text
  (rest ++ trail), q.Steady)
include hasked

private theorem findEndTag_eq (htrail : allBlank trail = true) (hsame : c.same → trail = [])
    (hbelow : Below c below₁ below₂) (hlexeme : lexeme = .templateBlock) {name : Bytes}
    (hname : Template.opens? blocks text = some name) :
    (findEndTag blocks name (rest ++ trail ++ below₁)).isSome =
      (findEndTag blocks name (rest ++ below₂)).isSome := by
  subst hlexeme
  by_cases hc : c.same
  · rw [hbelow.same hc, hsame hc, List.append_nil]
  · obtain ⟨hne, hword⟩ := Template.isWord_of_opens? hname
    have hmem : Question.endTag (blocks.endOf name) (rest ++ trail ++ below₁) ∈
        lexemeQuestions torn blocks below₁ state₁.modes .templateBlock text (rest ++ trail) := by
      simp [lexemeQuestions, hname]
    apply isSome_findEndTag_of_spread hne hword (hasked.resolve_left hc _ hmem)
    rw [List.append_assoc]
    exact (hbelow.spread htrail).append_left rest

private theorem attributeGap?_eq (htrail : allBlank trail = true) (hsame : c.same → trail = [])
    (hmarkup : state₁.modes.active = .markup) (hlexeme : lexeme = .tagStart) :
    Markup.attributeGap? (rest ++ trail) = Markup.attributeGap? rest := by
  subst hlexeme
  by_cases hc : c.same
  · rw [hsame hc, List.append_nil]
  · have hmem : Question.attributeGap (rest ++ trail) ∈
        lexemeQuestions torn blocks below₁ state₁.modes .tagStart text (rest ++ trail) := by
      simp [lexemeQuestions, hmarkup]
    exact Markup.attributeGap?_append htrail (hasked.resolve_left hc _ hmem)

private theorem templateScript_eq (hmodes : state₁.modes.Like c torn state₂.modes) {o₁ o₂ : OpenTag}
    (h₁ : state₁.modes.active = .tag o₁) (h₂ : state₂.modes.active = .tag o₂)
    (hlexeme : lexeme = .tagEnd) (hscript : o₁.isScript = true) :
    OpenTag.templateScript.occursIn (o₁.source ++ text) =
      OpenTag.templateScript.occursIn (o₂.source ++ text) := by
  subst hlexeme
  have hlike := hmodes.active
  rw [h₁, h₂] at hlike
  cases hlike with
  | tag ho =>
    by_cases hwhole : c.Whole torn
    · rw [ho.whole hwhole hscript]
    · rw [Contrast.Whole, not_or, Bool.not_eq_false] at hwhole
      have hmem : Question.script (o₁.source ++ text) ∈
          lexemeQuestions torn blocks below₁ state₁.modes .tagEnd text (rest ++ trail) := by
        simp [lexemeQuestions, h₁, hscript, hwhole.2]
      have hsteady := hasked.resolve_left hwhole.1 _ hmem
      have hvisible : (Question.script (o₂.source ++ text)).Steady := by
        rw [Question.Steady, visible_append] at hsteady ⊢
        rwa [← ho.visible]
      rw [OpenTag.occursIn_templateScript hsteady, OpenTag.occursIn_templateScript hvisible]

end Asked

theorem Level.next (h : Level c torn blocks document₁ document₂ state₁ state₂ line₁ line₂)
    (halign : Aligned line₁.raw line₂.raw) (hm : Margins c torn mode [] [] trail)
    (hahead₁ : rest ++ trail ++ below₁ <:+ document₁) (hahead₂ : rest ++ below₂ <:+ document₂)
    (hnewline : newline ∉ rest ++ trail) (hbelow : Below c below₁ below₂)
    (hlabel : state₁.modes.active = .markup → lexeme.isTemplate = false →
      lexeme ∈ Markup.tags.map Prod.fst)
    (hasked : lexeme ≠ .lineComment → c.same ∨ ∀ q ∈ lexemeQuestions torn blocks below₁ state₁.modes
      lexeme text (rest ++ trail), q.Steady) :
    let read₁ := readLexeme ⟨c.first, blocks⟩ below₁ state₁ ⟨c.first, line₁, rest ++ trail⟩ lexeme
      text
    let read₂ := readLexeme ⟨c.second, blocks⟩ below₂ state₂ ⟨c.second, line₂, rest⟩ lexeme text
    Abreast c torn blocks document₁ document₂ below₁ below₂ read₁.2 read₂.2 (line₁.append read₁.1)
      (line₂.append read₂.1) (rest ++ trail) rest := by
  have htrail : c.same → trail = [] := fun hc => (hm.same hc).2
  obtain ⟨htoken, hmodes, hsound₁, hsound₂⟩ := like_readLexeme h.modes h.line halign.column h.sound₁
    h.sound₂ hahead₁ hahead₂ hlabel
    (fun hl _ hname => findEndTag_eq (hasked (by simp [hl])) hm.behind htrail hbelow hl hname)
    (fun hmarkup hl => attributeGap?_eq (hasked (by simp [hl])) hm.behind htrail hmarkup hl)
    (fun _ _ h₁ h₂ hl hscript => templateScript_eq (hasked (by simp [hl])) h.modes h₁ h₂ hl hscript)
  refine ⟨hmodes, h.line.append htoken, hsound₁, hsound₂, hahead₁, hahead₂, hnewline, hbelow, ?_⟩
  refine Place.ahead rest (hm.inside _) ?_
  rw [List.append_nil, List.append_nil, Line.raw_append, Line.raw_append, text_readLexeme,
    text_readLexeme]
  exact halign.append text

theorem Level.comment (h : Level c torn blocks document₁ document₂ state₁ state₂ line₁ line₂)
    {script : ScriptState} (hscript : state₁.modes.active = .script script) {text₁ text₂ : Bytes}
    (hb : allBlank text₁ = allBlank text₂)
    (hoff : ScriptState.formatOff.startsText text₁ = ScriptState.formatOff.startsText text₂)
    (hahead₁ : [] ++ below₁ <:+ document₁) (hahead₂ : [] ++ below₂ <:+ document₂)
    (hbelow : Below c below₁ below₂) :
    let read₁ := readLexeme ⟨c.first, blocks⟩ below₁ state₁ ⟨c.first, line₁, []⟩ .lineComment text₁
    let read₂ := readLexeme ⟨c.second, blocks⟩ below₂ state₂ ⟨c.second, line₂, []⟩ .lineComment
      text₂
    Abreast c torn blocks document₁ document₂ below₁ below₂ read₁.2 read₂.2 (line₁.append read₁.1)
      (line₂.append read₂.1) [] [] := by
  have hsight : Sight.Like c ⟨c.first, line₁, []⟩ ⟨c.second, line₂, []⟩ := ⟨rfl, rfl, h.line⟩
  have hactive := h.modes.active
  rw [hscript] at hactive
  cases hsecond : state₂.modes.active <;> rw [hsecond] at hactive <;> cases hactive
  next hstate =>
    obtain ⟨htoken, hmove⟩ := hstate.read_lineComment hsight hb hoff
    dsimp only [readLexeme, Lexeme.isTemplate]
    rw [hscript, hsecond]
    exact ⟨h.modes.apply hmove, h.line.append htoken, h.sound₁, h.sound₂, hahead₁, hahead₂,
      List.not_mem_nil, hbelow, .finished⟩

end Lexeme

private theorem mem_tags_of_mem_rules {lexeme : Lexeme}
    (h : lexeme ∈ Markup.rules.map Prod.fst) (ht : lexeme.isTemplate = false) :
    lexeme ∈ Markup.tags.map Prod.fst := by
  have htemplate : ∀ l ∈ Rules.template.map Prod.fst, l.isTemplate = true := by
    simp [Rules.template, Lexeme.isTemplate]
  rw [Markup.rules, List.map_append, List.mem_append] at h
  rcases h with h | h
  · rw [htemplate lexeme h] at ht
    exact absurd ht (by simp)
  · exact h

private theorem newline_of_split {skipped matched rest whole : Bytes}
    (hsplit : skipped ++ matched ++ rest = whole) (h : newline ∉ whole) (n : Nat) :
    newline ∉ matched.drop n ++ rest := by
  intro hmem
  apply h
  rw [← hsplit, List.append_assoc]
  apply List.mem_append_right
  rcases List.mem_append.1 hmem with hmem | hmem
  · exact List.mem_append_left _ (List.mem_of_mem_drop hmem)
  · exact List.mem_append_right _ hmem

/-- One step of two runs. Where the first one takes white space for an escape, it is one step behind
at the end of the line. -/
inductive Paired (c : Contrast) (torn : Bool) (blocks : Blocks)
    (document₁ document₂ below₁ below₂ : Bytes) : Step → Step → Prop where
  | finished {state₁ state₂ : State} {line₁ line₂ : Line}
    (h : Level c true blocks document₁ document₂ state₁ state₂ line₁ line₂) :
    Paired c torn blocks document₁ document₂ below₁ below₂ (.finished state₁ line₁)
      (.finished state₂ line₂)
  | failed {state₁ state₂ : State} {overrun₁ overrun₂ : Overrun} :
    Paired c torn blocks document₁ document₂ below₁ below₂ (.failed state₁ overrun₁)
      (.failed state₂ overrun₂)
  | next {state₁ state₂ : State} {line₁ line₂ : Line} {rest₁ rest₂ : Bytes}
    (h : Abreast c torn blocks document₁ document₂ below₁ below₂ state₁ state₂ line₁ line₂ rest₁ rest₂) :
    Paired c torn blocks document₁ document₂ below₁ below₂ (.next state₁ line₁ rest₁)
      (.next state₂ line₂ rest₂)
  | behind {state₁ state₂ last : State} {line₁ line₂ whole : Line} {rest : Bytes}
    (hc : ¬ c.same) (hr : readLine ⟨c.first, blocks⟩ below₁ state₁ line₁ rest = (last, .ok whole))
    (h : Level c true blocks document₁ document₂ last state₂ whole line₂) :
    Paired c torn blocks document₁ document₂ below₁ below₂ (.next state₁ line₁ rest)
      (.finished state₂ line₂)

section Step
variable {blocks : Blocks} {document₁ document₂ below₁ below₂ : Bytes} {state₁ state₂ : State}
  {line₁ line₂ : Line} {rest₁ rest₂ : Bytes}
  (h : Abreast c torn blocks document₁ document₂ below₁ below₂ state₁ state₂ line₁ line₂ rest₁ rest₂)
include h

private theorem Abreast.paired_same {lead₁ lead₂ trail : Bytes} {hit : Hit Lexeme}
    (hs₁ : search (state₁.modes.active.rules state₁.modes.embedded) none rest₁ =
      some ((hit.extend trail).shift lead₁))
    (hs₂ : search (state₂.modes.active.rules state₂.modes.embedded) none rest₂ =
      some (hit.shift lead₂))
    (hm : Margins c torn state₁.modes.active lead₁ lead₂ trail)
    (halign : Aligned (line₁.raw ++ lead₁) (line₂.raw ++ lead₂))
    (hasked : c.same ∨ ∀ q ∈ stepQuestions ⟨c.first, blocks⟩ torn below₁ state₁ line₁ rest₁,
      q.Steady) :
    Paired c torn blocks document₁ document₂ below₁ below₂
      (step ⟨c.first, blocks⟩ below₁ state₁ line₁ rest₁)
      (step ⟨c.second, blocks⟩ below₂ state₂ line₂ rest₂) := by
  obtain ⟨skipped, lexeme, matched, rest⟩ := hit
  obtain ⟨-, hsplit₁⟩ := search_split hs₁
  obtain ⟨-, hsplit₂⟩ := search_split hs₂
  have hmem := label_mem_of_search hs₁
  rw [stepQuestions_of_some hs₁] at hasked
  rw [step_of_some hs₁, step_of_some hs₂]
  simp only [Hit.shift, Hit.extend] at *
  obtain ⟨hgap, hafter⟩ := h.front hm halign skipped (matched ++ (rest ++ trail)) (matched ++ rest)
  rw [← rules_readGap ⟨c.first, blocks⟩ state₁ line₁ (lead₁ ++ skipped)
    (matched ++ (rest ++ trail))] at hmem
  generalize readGap ⟨c.first, blocks⟩ state₁ line₁ (lead₁ ++ skipped)
    (matched ++ (rest ++ trail)) = gap₁ at *
  generalize readGap ⟨c.second, blocks⟩ state₂ line₂ (lead₂ ++ skipped)
    (matched ++ rest) = gap₂ at *
  rw [hgap.modes.active.extent, hgap.modes.embedded]
  cases he : gap₂.2.modes.active.extent gap₂.2.modes.embedded lexeme matched with
  | error overrun => exact .failed
  | ok n =>
    have hlexeme : lexeme ≠ .lineComment → c.same ∨ ∀ q ∈ lexemeQuestions torn blocks below₁
        gap₁.2.modes lexeme (matched.take n) (matched.drop n ++ rest ++ trail), q.Steady := by
      intro hcomment
      rw [Mode.extent_of_ne _ _ hcomment] at he
      obtain rfl := Except.ok.inj he
      rw [List.take_length, List.drop_length]
      exact hasked
    have hlabel : gap₁.2.modes.active = .markup → lexeme.isTemplate = false →
        lexeme ∈ Markup.tags.map Prod.fst := by
      intro hmarkup htemplate
      rw [hmarkup] at hmem
      exact mem_tags_of_mem_rules hmem htemplate
    have hahead₁ := suffix_of_split hsplit₁ h.ahead₁ n
    have hahead₂ := suffix_of_split hsplit₂ h.ahead₂ n
    have hnewline := newline_of_split hsplit₁ h.newline n
    rw [← List.append_assoc] at hahead₁ hnewline
    dsimp only
    rw [← List.append_assoc]
    exact .next (hgap.next hafter (hm.inside .text) hahead₁ hahead₂ hnewline h.below hlabel hlexeme)

private theorem Abreast.paired_comment {lead₁ lead₂ trail skipped text : Bytes}
    {script : ScriptState} (hmode : state₁.modes.active = .script script)
    (hs₁ : search (state₁.modes.active.rules state₁.modes.embedded) none rest₁ =
      some ⟨lead₁ ++ skipped, .lineComment, text ++ trail, []⟩)
    (hs₂ : search (state₂.modes.active.rules state₂.modes.embedded) none rest₂ =
      some ⟨lead₂ ++ skipped, .lineComment, text, []⟩)
    (hm : Margins c torn state₁.modes.active lead₁ lead₂ trail)
    (halign : Aligned (line₁.raw ++ lead₁) (line₂.raw ++ lead₂))
    (hasked : c.same ∨ ∀ q ∈ stepQuestions ⟨c.first, blocks⟩ torn below₁ state₁ line₁ rest₁,
      q.Steady) :
    Paired c torn blocks document₁ document₂ below₁ below₂
      (step ⟨c.first, blocks⟩ below₁ state₁ line₁ rest₁)
      (step ⟨c.second, blocks⟩ below₂ state₂ line₂ rest₂) := by
  obtain ⟨-, hsplit₁⟩ := search_split hs₁
  obtain ⟨-, hsplit₂⟩ := search_split hs₂
  rw [stepQuestions_of_some hs₁] at hasked
  rw [step_of_some hs₁, step_of_some hs₂]
  simp only at *
  obtain ⟨hgap, hafter⟩ := h.front hm halign skipped (text ++ trail ++ []) (text ++ [])
  obtain ⟨script₁, hscript₁⟩ := exists_script_readGap hmode ⟨c.first, blocks⟩ line₁
    (lead₁ ++ skipped) (text ++ trail ++ [])
  generalize readGap ⟨c.first, blocks⟩ state₁ line₁ (lead₁ ++ skipped)
    (text ++ trail ++ []) = gap₁ at *
  generalize readGap ⟨c.second, blocks⟩ state₂ line₂ (lead₂ ++ skipped)
    (text ++ []) = gap₂ at *
  rw [← hgap.modes.active.extent, ← hgap.modes.embedded, hscript₁]
  simp only [Mode.extent]
  have hcut : trail = [] ∨ (gap₁.2.modes.embedded = true → ∀ i ∈ find? (ascii "</script")
      (lowercase (text ++ trail)), i ≤ (trim (text ++ trail)).length) := by
    refine hasked.imp (fun hc => (hm.same hc).2) fun hsteady hembedded => ?_
    exact hsteady (.comment (text ++ trail)) (by simp [lexemeQuestions, hscript₁, hembedded])
  rcases ScriptState.commentLength_append hm.behind hcut with ⟨h₁, h₂⟩ | ⟨n, hn, h₁, h₂⟩ | ⟨h₁, h₂⟩
  · -- the comment takes the rest of the line
    have hahead₁ := suffix_of_split hsplit₁ h.ahead₁ (text ++ trail).length
    have hahead₂ := suffix_of_split hsplit₂ h.ahead₂ text.length
    rw [List.drop_length, List.append_nil] at hahead₁ hahead₂
    rw [h₁, h₂]
    dsimp only
    rw [List.take_length, List.take_length, List.drop_length, List.drop_length, List.append_nil]
    exact .next (hgap.comment hscript₁ (allBlank_append_of_right hm.behind)
      (ScriptState.startsText_formatOff hm.behind) hahead₁ hahead₂ h.below)
  · -- it is cut in front of a closing tag
    have hahead₁ := suffix_of_split hsplit₁ h.ahead₁ n
    have hahead₂ := suffix_of_split hsplit₂ h.ahead₂ n
    have hnewline := newline_of_split hsplit₁ h.newline n
    rw [List.append_nil, List.drop_append_of_le_length hn] at hahead₁ hnewline
    rw [List.append_nil] at hahead₂
    rw [h₁, h₂]
    dsimp only
    rw [List.take_append_of_le_length hn, List.drop_append_of_le_length hn, List.append_nil,
      List.append_nil]
    refine .next (hgap.next hafter (hm.inside .text) hahead₁ hahead₂ hnewline h.below ?_
      (fun hl => absurd rfl hl))
    intro hmarkup
    rw [hscript₁] at hmarkup
    exact absurd hmarkup (by simp)
  · rw [h₁, h₂]
    exact .failed

private theorem Abreast.paired_escape {lead₁ lead₂ trail skipped taken rest : Bytes}
    (hmode : state₁.modes.active = .verbatim .templateLiteral)
    (hs₁ : search (state₁.modes.active.rules state₁.modes.embedded) none rest₁ =
      some ⟨lead₁ ++ skipped, .escape, 92 :: taken, rest⟩)
    (hs₂ : search (state₂.modes.active.rules state₂.modes.embedded) none rest₂ = none)
    (hm : Margins c torn state₁.modes.active lead₁ lead₂ trail) (ht : trail = taken ++ rest)
    (hr : rest₂ = lead₂ ++ (skipped ++ [92])) :
    Paired c torn blocks document₁ document₂ below₁ below₂
      (step ⟨c.first, blocks⟩ below₁ state₁ line₁ rest₁)
      (step ⟨c.second, blocks⟩ below₂ state₂ line₂ rest₂) := by
  have hactive := h.modes.active
  rw [hmode] at hactive
  have hmode₂ : state₂.modes.active = .verbatim .templateLiteral := by
    generalize state₂.modes.active = m₂ at hactive
    cases hactive
    rfl
  have hnone : search (state₁.modes.active.rules state₁.modes.embedded) none rest = none := by
    refine search_eq_none_of_mayStart (fun b hb => Mode.mayStart_rules _ _ ?_) none
    exact isInert_of_allBlank hm.behind (by rw [ht]; exact List.mem_append_right _ hb)
  have hescape : allBlank (92 :: taken) = false :=
    allBlank_cons_of_visible taken (by decide) (by decide)
  have hwhole : allBlank rest₂ = false := by
    rw [hr, ← List.append_assoc]
    exact allBlank_append_of_visible _ [] (by decide) (by decide)
  have hne : rest₂ ≠ [] := by
    rw [hr]
    simp
  rw [step_of_some hs₁, step_of_none hs₂]
  simp only [readGap_verbatim hmode, readGap_verbatim hmode₂, readLexeme_escape hmode,
    Mode.extent_of_ne _ _ (show Lexeme.escape ≠ .lineComment by simp), List.take_length,
    List.drop_length, List.nil_append, if_neg hne]
  refine .behind (fun hc => ?_) (readLine_of_finished (step_of_none hnone)) ?_
  · exact absurd (hs₁.symm.trans ((h.search_eq hc).trans hs₂)) (by simp)
  rw [readGap_verbatim hmode]
  refine ⟨h.modes.tear, ?_, h.sound₁, h.sound₂⟩
  have hline : ((if lead₁ ++ skipped = [] then line₁
      else line₁.append (.verbatim (lead₁ ++ skipped))).append (.verbatim (92 :: taken))).Like c
      (line₂.append (.verbatim rest₂)) := by
    split_ifs
    · exact h.line.append (Token.like_verbatim (hescape.trans hwhole.symm))
    · exact h.line.appendVerbatim _ hescape hwhole
  by_cases hrest : rest = []
  · rw [if_pos hrest]
    exact hline
  · rw [if_neg hrest]
    apply hline.appendLeft rfl
    intro hb
    have hvisible : (Token.verbatim (92 :: taken)).isBlank = false := hescape
    rw [Line.isBlank_append, hvisible, Bool.and_false] at hb
    exact absurd hb (by simp)

/-- One step in two lines that differ in the white space around them. -/
theorem Abreast.paired
    (hasked : c.same ∨ ∀ q ∈ stepQuestions ⟨c.first, blocks⟩ torn below₁ state₁ line₁ rest₁,
      q.Steady) :
    Paired c torn blocks document₁ document₂ below₁ below₂
      (step ⟨c.first, blocks⟩ below₁ state₁ line₁ rest₁)
      (step ⟨c.second, blocks⟩ below₂ state₂ line₂ rest₂) := by
  have hsearched := h.searched
  generalize hs₁ : search (state₁.modes.active.rules _) none rest₁ = f₁ at hsearched
  generalize hs₂ : search (state₂.modes.active.rules _) none rest₂ = f₂ at hsearched
  cases hsearched with
  | nothing htext =>
    rw [step_of_none hs₁, step_of_none hs₂]
    exact .finished (h.gap h.modes.tear htext [] [])
  | same hit hm halign => exact h.paired_same hs₁ hs₂ hm halign hasked
  | comment script skipped text hmode hm halign =>
    exact h.paired_comment hmode hs₁ hs₂ hm halign hasked
  | escape skipped taken rest hmode hm ht hr => exact h.paired_escape hmode hs₁ hs₂ hm ht hr

end Step

end Reindent.Scan
