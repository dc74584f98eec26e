import Reindent.Proofs.Noninterference.Inside

/-! Behind a verbatim region, two runs in the same modes go on alike. What they may see in front of
them on their line is different, so tags that open there remember different columns; nothing else
does. -/
namespace Reindent
open Bytes Pattern Text Scan

def Token.unshifted (t : Token) : Token := { t with offset := 0 }

/-- The mode without the column that an opening tag remembers. -/
def Mode.unshifted : Mode → Mode
  | .tag o => .tag { o with offset := 0 }
  | mode => mode

def Move.unshifted : Move → Move
  | .keep self => .keep self.unshifted
  | .enter self inner => .enter self.unshifted inner.unshifted
  | .leave => .leave

def ModeStack.unshifted (stack : ModeStack) : ModeStack :=
  { stack with active := stack.active.unshifted, returns := stack.returns.map Mode.unshifted }

def Mode.isTag : Mode → Bool
  | .tag _ => true
  | _ => false

/-- A tag is open, or was open where a region in it started. -/
def ModeStack.InTag (stack : ModeStack) : Prop :=
  ∃ mode ∈ stack.active :: stack.returns, mode.isTag = true

namespace Mode
variable {mode mode' : Mode}

theorem unshifted_eq_iff : mode'.unshifted = mode.unshifted ↔
    mode' = mode ∨ ∃ o offset, mode = .tag o ∧ mode' = .tag { o with offset } := by
  constructor
  · intro h
    cases mode with
    | tag o =>
      cases mode' with
      | tag o' =>
        obtain ⟨hname, -, hsource⟩ := OpenTag.mk.inj (Mode.tag.inj h)
        refine Or.inr ⟨o, o'.offset, rfl, ?_⟩
        obtain ⟨name, offset, source⟩ := o'
        obtain rfl := hname
        obtain rfl := hsource
        rfl
      | _ => exact absurd h (by simp [unshifted])
    | _ =>
      cases mode' with
      | tag o' => exact absurd h (by simp [unshifted])
      | _ => exact Or.inl h
  · rintro (rfl | ⟨o, offset, rfl, rfl⟩)
    · rfl
    · rfl

theorem isTag_of_unshifted (h : mode'.unshifted = mode.unshifted) (hne : mode' ≠ mode) :
    mode.isTag = true := by
  obtain heq | ⟨o, offset, rfl, -⟩ := unshifted_eq_iff.1 h
  · exact absurd heq hne
  · rfl

theorem rules_of_unshifted (h : mode'.unshifted = mode.unshifted) (embedded : Bool) :
    mode'.rules embedded = mode.rules embedded := by
  obtain rfl | ⟨o, offset, rfl, rfl⟩ := unshifted_eq_iff.1 h
  · rfl
  · rfl

theorem extent_of_unshifted (h : mode'.unshifted = mode.unshifted) (embedded : Bool)
    (lexeme : Lexeme) (text : Bytes) :
    mode'.extent embedded lexeme text = mode.extent embedded lexeme text := by
  obtain rfl | ⟨o, offset, rfl, rfl⟩ := unshifted_eq_iff.1 h
  · rfl
  · rfl

theorem isTag_readText (sight : Sight) (mode : Mode) (text : Bytes) :
    (mode.readText sight text).2.isTag = mode.isTag := by
  cases mode <;> rfl

end Mode

/-- The same is ahead on two lines, and something shows in front of it on both or on none. -/
structure Sight.Alike (sight sight' : Sight) : Prop where
  tabWidth : sight'.tabWidth = sight.tabWidth
  rest : sight'.rest = sight.rest
  atStart : sight'.atStart = sight.atStart

/-- The tokens are the same, but for the offset of one that starts a line of a tag. -/
def Token.Near (mode : Mode) (sight : Sight) (t t' : Token) : Prop :=
  t' = t ∨ mode.isTag = true ∧ sight.atStart = true ∧ t'.unshifted = t.unshifted

section Reads
variable {sight sight' : Sight} {mode mode' : Mode}

theorem Token.Near.text {t t' : Token} (h : Token.Near mode sight t t') : t'.text = t.text := by
  rcases h with rfl | ⟨-, -, h⟩
  · rfl
  · exact (Token.mk.inj h).1

theorem Sight.Alike.leads (hs : sight.Alike sight') (t : Token) : sight'.leads t = sight.leads t := by
  unfold Sight.leads
  rw [hs.atStart]

namespace Mode

/-- Where a token is put depends on the line in front of it only by whether something shows there. -/
theorem settle_of_alike (hs : sight.Alike sight') (mode : Mode) (t : Token) :
    mode.settle sight' t = mode.settle sight t := by
  cases mode with
  | tag o =>
    simp only [settle, OpenTag.settle, hs.leads]
  | style s =>
    simp only [settle, StyleState.settle, hs.leads, hs.tabWidth]
  | script s =>
    simp only [settle, ScriptState.settle, hs.leads]
  | _ => rfl

theorem readText_of_alike (hs : sight.Alike sight') (mode : Mode) (text : Bytes) :
    mode.readText sight' text = mode.readText sight text := by
  cases mode with
  | verbatim r => rfl
  | _ =>
    unfold readText
    exact settle_of_alike hs _ _

theorem settle_near (h : mode'.unshifted = mode.unshifted) (hs : sight.Alike sight') (t : Token) :
    (mode'.settle sight' t).2.unshifted = (mode.settle sight t).2.unshifted ∧
      Token.Near mode sight (mode.settle sight t).1 (mode'.settle sight' t).1 := by
  rw [settle_of_alike hs]
  obtain rfl | ⟨o, offset, rfl, rfl⟩ := unshifted_eq_iff.1 h
  · exact ⟨rfl, Or.inl rfl⟩
  · refine ⟨rfl, ?_⟩
    unfold Token.Near settle OpenTag.settle
    dsimp only
    cases hstart : sight.atStart with
    | false =>
      left
      simp [Sight.leads, hstart]
    | true =>
      right
      refine ⟨rfl, rfl, ?_⟩
      split_ifs
      · rfl
      · rfl

theorem readText_near (h : mode'.unshifted = mode.unshifted) (hs : sight.Alike sight')
    (text : Bytes) :
    (mode'.readText sight' text).2.unshifted = (mode.readText sight text).2.unshifted ∧
      Token.Near mode sight (mode.readText sight text).1 (mode'.readText sight' text).1 := by
  obtain rfl | ⟨o, offset, rfl, rfl⟩ := unshifted_eq_iff.1 h
  · cases mode' with
    | verbatim r => exact ⟨rfl, Or.inl rfl⟩
    | _ => exact settle_near rfl hs _
  · exact settle_near h hs _

end Mode

/-- A tag remembers the column of its first attribute, and nothing else that depends on the text in
front of it. -/
theorem Markup.read_near (sight sight' : Sight) (lexeme : Lexeme) (text : Bytes) :
    (Markup.read sight' lexeme text).2.unshifted = (Markup.read sight lexeme text).2.unshifted ∧
      (Markup.read sight' lexeme text).1 = (Markup.read sight lexeme text).1 := by
  unfold Markup.read
  split
  all_goals exact ⟨rfl, rfl⟩

theorem OpenTag.read_of_alike (hs : sight.Alike sight') (o : OpenTag) (lexeme : Lexeme)
    (text : Bytes) : o.read sight' lexeme text = o.read sight lexeme text := by
  simp only [OpenTag.read, OpenTag.finish, OpenTag.settle, hs.leads, hs.atStart, hs.tabWidth]

theorem StyleState.read_of_alike (hs : sight.Alike sight') (s : StyleState) (lexeme : Lexeme)
    (text : Bytes) : s.read sight' lexeme text = s.read sight lexeme text := by
  simp only [StyleState.read, StyleState.settle, hs.leads, hs.tabWidth]

theorem ScriptState.read_of_alike (hs : sight.Alike sight') (s : ScriptState) (lexeme : Lexeme)
    (text : Bytes) : s.read sight' lexeme text = s.read sight lexeme text := by
  have hsettle : ∀ (s : ScriptState) t, s.settle sight' t = s.settle sight t := by
    intro s t
    unfold ScriptState.settle
    rw [hs.leads]
  have hdot : s.dot sight' text = s.dot sight text := by
    unfold ScriptState.dot
    rw [hs.atStart, hs.tabWidth]
  have hopen : s.openBracket sight' text = s.openBracket sight text := by
    unfold ScriptState.openBracket
    rw [hsettle]
  have hclose : s.closeBracket sight' text = s.closeBracket sight text := by
    unfold ScriptState.closeBracket
    rw [hs.atStart]
  unfold ScriptState.read
  dsimp only
  rw [hdot, hopen, hclose]
  simp only [hsettle]

/-- What follows a tag does not depend on the column of its first attribute. -/
theorem OpenTag.read_near (sight : Sight) (o : OpenTag) (offset : Int64) (lexeme : Lexeme)
    (text : Bytes) :
    (({ o with offset } : OpenTag).read sight lexeme text).2.unshifted =
        (o.read sight lexeme text).2.unshifted ∧
      Token.Near (.tag o) sight (o.read sight lexeme text).1
        (({ o with offset } : OpenTag).read sight lexeme text).1 := by
  unfold OpenTag.read
  split
  · exact ⟨rfl, Or.inl rfl⟩
  · exact ⟨rfl, Or.inl rfl⟩
  · have htag : Mode.unshifted (.tag { o with offset }) = Mode.unshifted (.tag o) := rfl
    obtain ⟨hmode, htoken⟩ := Mode.settle_near htag ⟨rfl, rfl, rfl⟩ (.plain text .markup)
    exact ⟨congrArg Move.keep hmode, htoken⟩

namespace Mode

theorem read_of_alike (hs : sight.Alike sight')
    (hcolumn : mode = .markup → sight'.line.column = sight.line.column) (lexeme : Lexeme)
    (text : Bytes) : mode.read sight' lexeme text = mode.read sight lexeme text := by
  cases mode with
  | markup =>
    have hopen : Markup.openTag sight' text = Markup.openTag sight text := by
      unfold Markup.openTag
      rw [hs.rest, hs.tabWidth, hcolumn rfl]
    unfold Mode.read Markup.read
    dsimp only
    rw [hopen]
  | tag o => exact OpenTag.read_of_alike hs o lexeme text
  | style s => exact StyleState.read_of_alike hs s lexeme text
  | script s => exact ScriptState.read_of_alike hs s lexeme text
  | _ => rfl

theorem read_near (h : mode'.unshifted = mode.unshifted) (hs : sight.Alike sight')
    (lexeme : Lexeme) (text : Bytes) :
    (mode'.read sight' lexeme text).2.unshifted = (mode.read sight lexeme text).2.unshifted ∧
      Token.Near mode sight (mode.read sight lexeme text).1 (mode'.read sight' lexeme text).1 := by
  by_cases hm : mode = .markup
  · subst hm
    obtain rfl | ⟨o, offset, htag, -⟩ := unshifted_eq_iff.1 h
    · obtain ⟨hmove, htoken⟩ := Markup.read_near sight sight' lexeme text
      exact ⟨hmove, Or.inl htoken⟩
    · exact absurd htag (by simp)
  · obtain rfl | ⟨o, offset, rfl, rfl⟩ := unshifted_eq_iff.1 h
    · rw [read_of_alike hs (fun heq => absurd heq hm)]
      exact ⟨rfl, Or.inl rfl⟩
    · rw [read_of_alike hs (fun heq => absurd heq (by simp))]
      exact OpenTag.read_near sight o offset lexeme text

end Mode

end Reads

namespace ModeStack

/-- In a run that starts with one mode, columns have no effect on how the modes follow each other. -/
theorem unshifted_apply {stack : ModeStack} (h : stack.start ≤ 1) (move : Move) :
    (stack.apply move).unshifted = stack.unshifted.apply move.unshifted ∧
      (stack.apply move).start ≤ 1 := by
  obtain ⟨active, returns, start, left⟩ := stack
  cases move with
  | keep self => exact ⟨rfl, h⟩
  | enter self inner => exact ⟨rfl, h⟩
  | leave =>
    cases returns with
    | nil => exact ⟨rfl, h⟩
    | cons mode returns =>
      dsimp only at h
      have hkept : ∀ n, ¬ n + 1 < start := by omega
      simp only [apply, leave, unshifted, Move.unshifted, List.map_cons, List.length_map, hkept,
        if_false]
      exact ⟨trivial, h⟩

theorem embedded_of_unshifted {stack stack' : ModeStack}
    (h : stack'.unshifted = stack.unshifted) : stack'.embedded = stack.embedded := by
  have hreturns := congrArg (fun s : ModeStack => s.returns.isEmpty) h
  unfold embedded
  rw [unshifted, unshifted, List.isEmpty_map, List.isEmpty_map] at hreturns
  rw [hreturns]

theorem inTag_of_unshifted {stack stack' : ModeStack} (h : stack'.unshifted = stack.unshifted)
    (hne : stack' ≠ stack) : stack.InTag := by
  obtain ⟨active, returns, start, left⟩ := stack
  obtain ⟨active', returns', start', left'⟩ := stack'
  obtain ⟨hactive, hreturns, hstart, hleft⟩ := ModeStack.mk.inj h
  dsimp only at hactive hreturns hstart hleft
  by_contra hnone
  have hplain : ∀ mode ∈ active :: returns, mode.isTag = false :=
    fun mode hmem => eq_false_of_ne_true fun htag => hnone ⟨mode, hmem, htag⟩
  have hmodes : List.map Mode.unshifted (active' :: returns') =
      List.map Mode.unshifted (active :: returns) := by
    rw [List.map_cons, List.map_cons, hactive, hreturns]
  have hsame : active' :: returns' = active :: returns := by
    generalize active' :: returns' = modes' at hmodes
    generalize active :: returns = modes at hmodes hplain
    induction modes generalizing modes' with
    | nil => exact List.map_eq_nil_iff.1 hmodes
    | cons mode modes ih =>
      cases modes' with
      | nil => exact absurd hmodes (by simp)
      | cons mode' modes' =>
        obtain ⟨hmode, hrest⟩ := List.cons.inj hmodes
        have heq : mode' = mode := by
          by_contra hne
          have htag := Mode.isTag_of_unshifted hmode hne
          rw [hplain mode List.mem_cons_self] at htag
          exact absurd htag Bool.false_ne_true
        rw [heq, ih modes' hrest fun m hm => hplain m (List.mem_cons_of_mem _ hm)]
  obtain ⟨rfl, rfl⟩ := List.cons.inj hsame
  obtain rfl := hstart
  obtain rfl := hleft
  exact hne rfl

end ModeStack

/-- Lines of two runs with the same number. On the line where a region ends something shows in both;
below it, both hold the same text. -/
structure Line.Alike (own : Bool) (line line' : Line) : Prop where
  number : line'.number = line.number
  isBlank : line'.isBlank = line.isBlank
  shows : own = true → line.isBlank = false
  raw : own = false → line'.raw = line.raw

namespace Line.Alike
variable {own : Bool} {line line' : Line}

theorem append (h : line.Alike own line') {t t' : Token} (ht : t'.text = t.text) :
    (line.append t).Alike own (line'.append t') where
  number := h.number
  isBlank := by
    rw [isBlank_append, isBlank_append, h.isBlank, Token.isBlank, ht]
    rfl
  shows := fun howm => by rw [isBlank_append, h.shows howm, Bool.false_and]
  raw := fun howm => by rw [raw_append, raw_append, h.raw howm, ht]

theorem next (h : line.Alike own line') : line.next.Alike false line'.next :=
  ⟨congrArg (· + 1) h.number, rfl, fun htrue => absurd htrue Bool.false_ne_true, fun _ => rfl⟩

theorem sight (h : line.Alike own line') (width : Int64) (rest : Bytes) :
    Sight.Alike ⟨width, line, rest⟩ ⟨width, line', rest⟩ := ⟨rfl, rfl, h.isBlank⟩

end Line.Alike

namespace Scan

/-- The states of two runs that differ at most in the column that an open tag remembers. -/
structure State.Alike (state state' : State) : Prop where
  modes : state'.modes.unshifted = state.modes.unshifted
  memory : state'.memory = state.memory
  start : state.modes.start ≤ 1

/-- Two readings with the same token. Below the line where a region ends, tokens of an open tag may
have different offsets. -/
def Reading.Alike (own : Bool) (r r' : Reading) : Prop :=
  r'.token = r.token ∨
    own = false ∧ r.before.active.isTag = true ∧ r'.token.unshifted = r.token.unshifted

section Steps
variable {settings : Settings} {state state' : State} {line line' : Line} {own : Bool}

theorem State.Alike.active (hs : state.Alike state') :
    state'.modes.active.unshifted = state.modes.active.unshifted := by
  have hmode := congrArg ModeStack.active hs.modes
  exact hmode

theorem State.Alike.start_eq (hs : state.Alike state') :
    state'.modes.start = state.modes.start := by
  have hstart := congrArg ModeStack.start hs.modes
  exact hstart

theorem State.Alike.apply (hs : state.Alike state') {move move' : Move}
    (hm : move'.unshifted = move.unshifted) {memory : Lookahead} :
    State.Alike ⟨state.modes.apply move, memory⟩ ⟨state'.modes.apply move', memory⟩ := by
  obtain ⟨hmodes, hstart⟩ := ModeStack.unshifted_apply hs.start move
  obtain ⟨hmodes', -⟩ := ModeStack.unshifted_apply (hs.start_eq ▸ hs.start) move'
  refine ⟨?_, rfl, hstart⟩
  rw [hmodes', hmodes, hs.modes, hm]

/-- On the line where a region ends something shows in front of every token. -/
theorem Reading.alike_of_near {modes modes' after after' : ModeStack} {width : Int64} {rest : Bytes}
    {t t' : Token} (h : Token.Near modes.active ⟨width, line, rest⟩ t t')
    (hl : line.Alike own line') :
    Reading.Alike own ⟨modes, t.numbered line.number, after⟩
      ⟨modes', t'.numbered line'.number, after'⟩ := by
  rw [hl.number]
  rcases h with rfl | ⟨htag, hstart, h⟩
  · exact Or.inl rfl
  · cases own with
    | true => exact absurd ((hl.shows rfl).symm.trans hstart) Bool.false_ne_true
    | false =>
      refine Or.inr ⟨rfl, htag, ?_⟩
      have hnumbered := congrArg (Token.numbered line.number) h
      exact hnumbered

theorem readLexeme_alike (hs : state.Alike state') (hl : line.Alike own line') (rest : Bytes)
    (lexeme : Lexeme) (text : Bytes) :
    let sight : Sight := ⟨settings.tabWidth, line, rest⟩
    let sight' : Sight := ⟨settings.tabWidth, line', rest⟩
    (readLexeme settings [] state sight lexeme text).2.Alike
        (readLexeme settings [] state' sight' lexeme text).2 ∧
      Token.Near state.modes.active sight (readLexeme settings [] state sight lexeme text).1
        (readLexeme settings [] state' sight' lexeme text).1 := by
  have hsight := hl.sight settings.tabWidth rest
  dsimp only
  unfold readLexeme
  dsimp only
  split_ifs with htemplate
  · rw [hs.memory]
    obtain ⟨hmode, htoken⟩ := Mode.settle_near hs.active hsight
      (Template.read settings.blocks state.memory lexeme text (rest ++ [])).1
    refine ⟨hs.apply ?_, htoken⟩
    split
    · exact congrArg (Move.enter · _) hmode
    · exact congrArg Move.keep hmode
  · obtain ⟨hmove, htoken⟩ := Mode.read_near hs.active hsight lexeme text
    refine ⟨?_, htoken⟩
    have happly := @State.Alike.apply _ _ hs _ _ hmove state.memory
    rw [hs.memory]
    exact happly

theorem readGap_alike (hs : state.Alike state') (hl : line.Alike own line') (text rest : Bytes) :
    (readGap settings state line text rest).2.Alike (readGap settings state' line' text rest).2 ∧
      (readGap settings state line text rest).1.Alike own
        (readGap settings state' line' text rest).1 := by
  obtain ⟨hmode, htoken⟩ :=
    Mode.readText_near hs.active (hl.sight settings.tabWidth rest) text
  unfold readGap
  split_ifs
  · exact ⟨hs, hl⟩
  · refine ⟨?_, hl.append htoken.text⟩
    have hmove : (Move.keep _).unshifted = (Move.keep _).unshifted := congrArg Move.keep hmode
    have hkeep := @State.Alike.apply _ _ hs _ _ hmove state.memory
    rw [hs.memory]
    exact hkeep

/-- Below the line where a region ends, runs in the same state read the same. -/
theorem readLexeme_same (hl : line.Alike false line') (rest : Bytes) (lexeme : Lexeme)
    (text : Bytes) :
    readLexeme settings [] state ⟨settings.tabWidth, line', rest⟩ lexeme text =
      readLexeme settings [] state ⟨settings.tabWidth, line, rest⟩ lexeme text := by
  have hsight := hl.sight settings.tabWidth rest
  have hcolumn : line'.column = line.column := by
    unfold Line.column
    rw [hl.raw rfl]
  unfold readLexeme
  dsimp only
  rw [Mode.settle_of_alike hsight, Mode.read_of_alike hsight fun _ => hcolumn]

namespace Whole
variable {hit : Hit (Option Lexeme)} {lexeme : Lexeme} {n : Nat}

theorem next?_alike (hs : state.Alike state') (rest : Bytes) :
    next? state'.modes rest = next? state.modes rest := by
  unfold next? rules
  rw [ModeStack.embedded_of_unshifted hs.modes, Mode.rules_of_unshifted hs.active]

theorem extent_alike (hs : state.Alike state') (lexeme : Lexeme) (text : Bytes) :
    extent state'.modes lexeme text = extent state.modes lexeme text := by
  unfold extent
  rw [ModeStack.embedded_of_unshifted hs.modes, Mode.extent_of_unshifted hs.active]

theorem gapReadings_alike (hs : state.Alike state') (hl : line.Alike own line') (text : Bytes) :
    List.Forall₂ (Reading.Alike own) (gapReadings settings state line text)
      (gapReadings settings state' line' text) := by
  obtain ⟨-, htoken⟩ := Mode.readText_near hs.active (hl.sight settings.tabWidth []) text
  unfold gapReadings
  split_ifs
  · exact .nil
  · exact .cons (Reading.alike_of_near htoken hl) .nil

theorem gapReadings_same (hl : line.Alike false line') (text : Bytes) :
    gapReadings settings state line' text = gapReadings settings state line text := by
  unfold gapReadings
  rw [Mode.readText_of_alike (hl.sight settings.tabWidth []), hl.number]

theorem takeLexeme_alike (hs : state.Alike state') (hl : line.Alike own line')
    (hit : Hit (Option Lexeme)) (lexeme : Lexeme) (n : Nat) :
    (takeLexeme settings state line hit lexeme n).1.Alike own
        (takeLexeme settings state' line' hit lexeme n).1 ∧
      (takeLexeme settings state line hit lexeme n).2.1.Alike
        (takeLexeme settings state' line' hit lexeme n).2.1 ∧
      (takeLexeme settings state line hit lexeme n).2.2.Alike own
        (takeLexeme settings state' line' hit lexeme n).2.2 := by
  obtain ⟨hstate, hline⟩ :=
    @readGap_alike settings _ _ _ _ _ hs hl hit.skipped (hit.matched ++ hit.rest)
  obtain ⟨hafter, htoken⟩ := @readLexeme_alike settings _ _ _ _ _ hstate hline
    (hit.matched.drop n ++ hit.rest) lexeme (hit.matched.take n)
  exact ⟨Reading.alike_of_near htoken hline, hafter, hline.append htoken.text⟩

theorem readGap_same (hl : line.Alike own line') (text rest : Bytes) :
    (readGap settings state line' text rest).2 = (readGap settings state line text rest).2 := by
  unfold readGap
  rw [Mode.readText_of_alike (hl.sight settings.tabWidth rest)]
  split_ifs
  · rfl
  · rfl

theorem takeLexeme_same_below (hs : state.modes.start ≤ 1) (hl : line.Alike false line')
    (hit : Hit (Option Lexeme)) (lexeme : Lexeme) (n : Nat) :
    (takeLexeme settings state line' hit lexeme n).1 =
        (takeLexeme settings state line hit lexeme n).1 ∧
      (takeLexeme settings state line' hit lexeme n).2.1 =
        (takeLexeme settings state line hit lexeme n).2.1 := by
  have hself : state.Alike state := ⟨rfl, rfl, hs⟩
  obtain ⟨-, hline⟩ :=
    @readGap_alike settings _ _ _ _ _ hself hl hit.skipped (hit.matched ++ hit.rest)
  have hread := @readLexeme_same settings
    (readGap settings state line hit.skipped (hit.matched ++ hit.rest)).2 _ _ hline
    (hit.matched.drop n ++ hit.rest) lexeme (hit.matched.take n)
  unfold takeLexeme
  dsimp only
  rw [readGap_same hl, hread, hline.number]
  exact ⟨rfl, rfl⟩

end Whole

end Steps

/-- The events of two runs behind a verbatim region. On the line where the region ends they have the
same tokens. Below it they are the same, but for the offsets of a tag that is open from there on. -/
inductive Event.Alike : Bool → List Event → List Event → Prop where
  | same (own : Bool) (es : List Event) : Alike own es es
  | token {own : Bool} {r r' : Reading} {es es' : List Event} (hr : r.Alike own r')
    (htag : own = false → r.before.InTag) (h : Alike own es es') :
    Alike own (.token r :: es) (.token r' :: es')
  | lineEnd {own : Bool} {es es' : List Event} (h : Alike false es es') :
    Alike own (.lineEnd :: es) (.lineEnd :: es')

theorem Event.Alike.append {own : Bool} {rs rs' : List Reading} {es es' : List Event}
    (hrs : List.Forall₂ (Reading.Alike own) rs rs') (htag : own = false → ∀ r ∈ rs, r.before.InTag)
    (h : Alike own es es') : Alike own (rs.map .token ++ es) (rs'.map .token ++ es') := by
  induction hrs with
  | nil => exact h
  | @cons r r' rs rs' hr hrs ih =>
    exact .token hr (fun hown => htag hown r List.mem_cons_self)
      (ih fun hown r hmem => htag hown r (List.mem_cons_of_mem _ hmem))

namespace Whole
variable {settings : Settings}

theorem inTag_readGap {state : State} {line : Line} (h : state.modes.InTag) (text rest : Bytes) :
    (readGap settings state line text rest).2.modes.InTag := by
  unfold readGap
  split_ifs
  · exact h
  · obtain ⟨mode, hmem, htag⟩ := h
    rcases List.mem_cons.1 hmem with rfl | hmem
    · exact ⟨_, List.mem_cons_self, (Mode.isTag_readText _ _ _).trans htag⟩
    · exact ⟨mode, List.mem_cons_of_mem _ hmem, htag⟩

theorem before_of_mem_gapReadings {state : State} {line : Line} {text : Bytes} {r : Reading}
    (h : r ∈ gapReadings settings state line text) : r.before = state.modes :=
  (isVerbatim_of_mem_gapEvents (List.mem_map_of_mem h)).1

theorem gapEvents_alike {state state' : State} {line line' : Line} {own : Bool}
    (hs : state.Alike state') (hl : line.Alike own line') (htag : own = false → state.modes.InTag)
    (text : Bytes) {es es' : List Event} (h : Event.Alike own es es') :
    Event.Alike own (gapEvents settings state line text ++ es)
      (gapEvents settings state' line' text ++ es') := by
  refine Event.Alike.append (gapReadings_alike hs hl text) (fun hown r hr => ?_) h
  rw [before_of_mem_gapReadings hr]
  exact htag hown

/-- Whether a run comes to its end is decided behind the line. -/
theorem isOk_run_of_lineEnd {state state₁ : State} {line line₁ : Line} {rest rest₁ : Bytes}
    (h : step settings state line rest = .lineEnd state₁ line₁ rest₁) :
    (run settings state line rest).2.isOk = (run settings state₁ line₁.next rest₁).2.isOk := by
  rw [run_of_lineEnd h]
  obtain ⟨state₂, result⟩ := run settings state₁ line₁.next rest₁
  cases result with
  | error overrun => rfl
  | ok lines => rfl

/-- Runs in different states are in a tag. -/
theorem alike_of_inTag {state state' : State} {own : Bool} (hs : state.Alike state')
    {es es' : List Event} (hsame : own = false → state' = state → es' = es)
    (h : (own = false → state.modes.InTag) → Event.Alike own es es') : Event.Alike own es es' := by
  by_cases heq : own = false ∧ state' = state
  · rw [hsame heq.1 heq.2]
    exact .same own es
  · refine h fun hown => ModeStack.inTag_of_unshifted hs.modes fun hmodes => heq ⟨hown, ?_⟩
    exact congr (congrArg State.mk hmodes) hs.memory

/-- Behind a region two runs go on alike, and both come to their end or none does. -/
theorem run_alike {state state' : State} {line line' : Line} {own : Bool}
    (hs : state.Alike state') (hl : line.Alike own line') (rest : Bytes) :
    Event.Alike own (events settings state line rest) (events settings state' line' rest) ∧
      (run settings state' line' rest).2.isOk = (run settings state line rest).2.isOk ∧
      (own = false → state' = state →
        events settings state' line' rest = events settings state line rest) := by
  induction state, line, rest using run_induction settings generalizing state' line' own with
  | finished state line rest hnext =>
    have hnext' := (next?_alike hs rest).trans hnext
    have hsame : own = false → state' = state →
        events settings state' line' rest = events settings state line rest := by
      rintro rfl rfl
      rw [events_of_none hnext, events_of_none hnext, gapEvents, gapEvents, gapReadings_same hl]
    refine ⟨alike_of_inTag hs hsame fun htag => ?_, ?_, hsame⟩
    · rw [events_of_none hnext, events_of_none hnext', ← List.append_nil (gapEvents _ _ _ _),
        ← List.append_nil (gapEvents settings state' _ _)]
      exact gapEvents_alike hs hl htag rest (.same own [])
    · rw [run_of_finished (step_of_none hnext), run_of_finished (step_of_none hnext')]
      rfl
  | failed state line rest hit lexeme overrun hnext hlabel hn =>
    have hnext' := (next?_alike hs rest).trans hnext
    have hn' := (extent_alike hs lexeme hit.matched).trans hn
    have hsame : own = false → state' = state →
        events settings state' line' rest = events settings state line rest := by
      rintro rfl rfl
      rw [events_of_error hnext hlabel hn, events_of_error hnext hlabel hn, gapEvents, gapEvents,
        gapReadings_same hl]
    refine ⟨alike_of_inTag hs hsame fun htag => ?_, ?_, hsame⟩
    · rw [events_of_error hnext hlabel hn, events_of_error hnext' hlabel hn',
        ← List.append_nil (gapEvents _ _ _ _), ← List.append_nil (gapEvents settings state' _ _)]
      exact gapEvents_alike hs hl htag hit.skipped (.same own [])
    · rw [run_of_failed (step_of_error hnext hlabel hn),
        run_of_failed (step_of_error hnext' hlabel hn')]
  | lineEnd state line rest hit hnext hlabel ih =>
    have hnext' := (next?_alike hs rest).trans hnext
    obtain ⟨hstate, hline⟩ := @readGap_alike settings _ _ _ _ _ hs hl hit.skipped []
    obtain ⟨hevents, hok, hrest⟩ := ih hstate hline.next
    have hsame : own = false → state' = state →
        events settings state' line' rest = events settings state line rest := by
      rintro rfl rfl
      rw [events_of_lineEnd hnext hlabel, events_of_lineEnd hnext hlabel, gapEvents, gapEvents,
        gapReadings_same hl, hrest rfl (readGap_same hl _ _)]
    refine ⟨alike_of_inTag hs hsame fun htag => ?_, ?_, hsame⟩
    · rw [events_of_lineEnd hnext hlabel, events_of_lineEnd hnext' hlabel]
      exact gapEvents_alike hs hl htag hit.skipped (.lineEnd hevents)
    · rw [isOk_run_of_lineEnd (step_of_lineEnd hnext hlabel),
        isOk_run_of_lineEnd (step_of_lineEnd hnext' hlabel)]
      exact hok
  | lexeme state line rest hit lexeme n hnext hlabel hn ih =>
    have hnext' := (next?_alike hs rest).trans hnext
    have hn' := (extent_alike hs lexeme hit.matched).trans hn
    obtain ⟨hreading, hstate, hline⟩ := @takeLexeme_alike settings _ _ _ _ _ hs hl hit lexeme n
    obtain ⟨hevents, hok, hrest⟩ := ih hstate hline
    have hsame : own = false → state' = state →
        events settings state' line' rest = events settings state line rest := by
      rintro rfl rfl
      obtain ⟨hreading, hstate⟩ := @takeLexeme_same_below settings _ _ _ hs.start hl hit lexeme n
      rw [events_of_lexeme hnext hlabel hn, events_of_lexeme hnext hlabel hn, gapEvents, gapEvents,
        gapReadings_same hl, hreading, hrest rfl hstate]
    refine ⟨alike_of_inTag hs hsame fun htag => ?_, ?_, hsame⟩
    · rw [events_of_lexeme hnext hlabel hn, events_of_lexeme hnext' hlabel hn']
      exact gapEvents_alike hs hl htag hit.skipped
        (.token hreading (fun hown => inTag_readGap (htag hown) _ _) hevents)
    · rw [run_of_next (step_of_lexeme hnext hlabel hn),
        run_of_next (step_of_lexeme hnext' hlabel hn')]
      exact hok

end Whole

end Scan

end Reindent
