import Reindent.Proofs.Respacing.Lexemes
import Reindent.Proofs.Scan.Tokens

/-! Runs line by line: every token with the tokens in front of it on its line and the text behind it
there. -/
namespace Reindent.Scan
open Bytes Pattern Text

/-- The search for the next lexeme of a line passes over `text`, behind which `more` is left. -/
def Skips (modes : ModeStack) (text more : Bytes) : Prop :=
  match search (modes.active.rules modes.embedded) none (text ++ more) with
  | none => more = []
  | some hit => hit.skipped = text

theorem Skips.passesOver {modes : ModeStack} {text more : Bytes} (h : Skips modes text more) :
    PassesOver modes text := by
  intro lexeme accepts hr b hb
  unfold Skips at h
  split at h
  · next hnone => exact accepts_of_search_none hnone hr (List.mem_append_left _ hb)
  · next hit hsome =>
    subst h
    exact accepts_of_mem_skipped hsome hr hb

theorem exists_match_of_search {rules : Rules} {before : Option UInt8} {s : Bytes} {hit : Hit Lexeme}
    (h : search rules before s = some hit) : ∃ p before, (hit.label, p) ∈ rules ∧
      p.match? before (hit.matched ++ hit.rest) = some ⟨hit.matched.reverse, hit.rest⟩ := by
  obtain ⟨⟨label, p⟩, hr, he⟩ := List.exists_of_findSome?_eq_some (pick?_of_search h)
  obtain ⟨e, hmatch, heq⟩ := Option.map_eq_some_iff.1 he
  obtain ⟨rfl, rfl⟩ := Prod.mk.inj heq
  exact ⟨p, _, hr, hmatch⟩

/-- What every reading establishes, with the tokens in front of it on its line and the text behind it,
and what it keeps. -/
structure Sustains (settings : Settings) (R : List Token → Bytes → Reading → Prop)
    (Inv : State → Line → Prop) : Prop where
  gap : ∀ (state : State) (line : Line) (text more : Bytes), Inv state line → text ≠ [] →
    Skips state.modes text more →
    let read := state.modes.active.readText ⟨settings.tabWidth, line, more⟩ text
    R line.tokens more
        ⟨state.modes, read.1.numbered line.number, state.modes.setActive read.2⟩ ∧
      Inv { state with modes := state.modes.setActive read.2 } (line.append read.1)
  lexeme : ∀ (below : Bytes) (state : State) (line : Line) (lexeme : Lexeme) (matched rest : Bytes)
    (n : Nat), Inv state line → Finds state.modes lexeme matched rest →
    Whole.extent state.modes lexeme matched = .ok n →
    let read := readLexeme settings below state
      ⟨settings.tabWidth, line, matched.drop n ++ rest⟩ lexeme (matched.take n)
    R line.tokens (matched.drop n ++ rest)
        ⟨state.modes, read.1.numbered line.number, read.2.modes⟩ ∧
      Inv read.2 (line.append read.1)
  newline : ∀ (state : State) (line : Line) (number : Int64), Inv state line → Inv state { number }

/-- A run over tokens of a line, along which `R` holds of every reading. The tokens stand behind
`lead`, and `more` follows them. -/
inductive LineRun (R : List Token → Bytes → Reading → Prop) :
    List Token → ModeStack → List Token → Bytes → ModeStack → Prop where
  | nil (lead : List Token) (modes : ModeStack) (more : Bytes) : LineRun R lead modes [] more modes
  | cons {lead tokens : List Token} {r : Reading} {more : Bytes} {final : ModeStack}
    (hr : R lead (tokens.flatMap Token.text ++ more) r)
    (h : LineRun R (lead ++ [r.token]) r.after tokens more final) :
    LineRun R lead r.before (r.token :: tokens) more final

inductive LinesRun (R : List Token → Bytes → Reading → Prop) :
    ModeStack → List Line → ModeStack → Prop where
  | nil (modes : ModeStack) : LinesRun R modes [] modes
  | cons {modes between final : ModeStack} {line : Line} {lines : List Line}
    (hl : LineRun R [] modes line.tokens [] between) (h : LinesRun R between lines final) :
    LinesRun R modes (line :: lines) final

variable {settings : Settings} {R : List Token → Bytes → Reading → Prop}
  {Inv : State → Line → Prop}

theorem Sustains.readGap (h : Sustains settings R Inv) {state : State} {line : Line}
    {text more : Bytes} (hinv : Inv state line) (hskips : Skips state.modes text more) :
    Inv (readGap settings state line text more).2 (readGap settings state line text more).1 := by
  unfold Scan.readGap
  split_ifs with hempty
  · exact hinv
  · exact (h.gap state line text more hinv (by simpa using hempty) hskips).2

private theorem lineRun_readGap (h : Sustains settings R Inv) {state : State} {line : Line}
    {text more : Bytes} {tokens : List Token} {final : ModeStack} (hinv : Inv state line)
    (hskips : Skips state.modes text more) (htokens : tokens.flatMap Token.text = more)
    (hrun : LineRun R (readGap settings state line text more).1.tokens
      (readGap settings state line text more).2.modes tokens [] final) :
    ∃ gap, (readGap settings state line text more).1.tokens = line.tokens ++ gap ∧
      LineRun R line.tokens state.modes (gap ++ tokens) [] final ∧
      (gap ++ tokens).flatMap Token.text = text ++ more := by
  unfold readGap at hrun ⊢
  split_ifs at hrun ⊢ with hempty
  · rw [List.isEmpty_iff.1 hempty]
    exact ⟨[], (List.append_nil _).symm, hrun, htokens⟩
  · obtain ⟨hread, -⟩ := h.gap state line text more hinv (by simpa using hempty) hskips
    dsimp only at hread hrun ⊢
    have hbehind : tokens.flatMap Token.text ++ [] = more := by rw [htokens, List.append_nil]
    rw [← hbehind] at hread
    refine ⟨[_], rfl, .cons hread hrun, ?_⟩
    rw [List.singleton_append, List.flatMap_cons, htokens]
    exact congrArg (· ++ more) (Mode.text_readText _ _ _)

theorem Sustains.readLine (h : Sustains settings R Inv) {below : Bytes}
    {state state' : State} {line line' : Line} {rest : Bytes} (hinv : Inv state line)
    (hread : readLine settings below state line rest = (state', .ok line')) :
    Inv state' line' ∧ ∃ tokens, line'.tokens = line.tokens ++ tokens ∧
      LineRun R line.tokens state.modes tokens [] state'.modes ∧
      tokens.flatMap Token.text = rest := by
  induction hn : rest.length using Nat.strongRecOn generalizing state line rest with
  | _ n ih =>
    cases hsearch : search (state.modes.active.rules state.modes.embedded) none rest with
    | none =>
      rw [readLine_of_finished (step_of_none hsearch)] at hread
      obtain ⟨rfl, hline⟩ := Prod.mk.inj hread
      obtain rfl := Except.ok.inj hline
      have hskips : Skips state.modes rest [] := by
        unfold Skips
        rw [List.append_nil, hsearch]
      obtain ⟨gap, hgap, hrun, htext⟩ := lineRun_readGap h hinv hskips rfl (.nil _ _ _)
      rw [List.append_nil] at hrun htext
      exact ⟨h.readGap hinv hskips, gap, hgap, hrun, htext.trans (List.append_nil _)⟩
    | some hit =>
      obtain ⟨-, hsplit⟩ := search_split hsearch
      rw [List.append_assoc] at hsplit
      have hskips : Skips state.modes hit.skipped (hit.matched ++ hit.rest) := by
        unfold Skips
        rw [hsplit, hsearch]
      have hkept := h.readGap hinv hskips
      have hstep : step settings below state line rest = _ := step_of_some hsearch
      have hfinds : Finds (Scan.readGap settings state line hit.skipped
          (hit.matched ++ hit.rest)).2.modes hit.label hit.matched hit.rest := by
        unfold Finds
        rw [rules_readGap, embedded_readGap]
        exact exists_match_of_search hsearch
      generalize hgap : Scan.readGap settings state line hit.skipped (hit.matched ++ hit.rest) = gap
        at hkept hstep hfinds
      dsimp only at hstep
      cases hextent : gap.2.modes.active.extent gap.2.modes.embedded hit.label hit.matched with
      | error overrun =>
        rw [hextent] at hstep
        rw [readLine_of_failed hstep] at hread
        exact absurd (Prod.mk.inj hread).2 (by simp)
      | ok taken =>
        rw [hextent] at hstep
        obtain ⟨hr, hinv'⟩ := h.lexeme below gap.2 gap.1 hit.label hit.matched hit.rest taken hkept
          hfinds hextent
        have hspelled : (readLexeme settings below gap.2 ⟨settings.tabWidth, gap.1,
            hit.matched.drop taken ++ hit.rest⟩ hit.label (hit.matched.take taken)).1.text =
            hit.matched.take taken := text_readLexeme _ _ _ _ _ _
        have hlt := length_lt_of_step hstep
        rw [readLine_of_next hstep] at hread
        generalize readLexeme settings below gap.2 ⟨settings.tabWidth, gap.1,
          hit.matched.drop taken ++ hit.rest⟩ hit.label (hit.matched.take taken) = read
          at hr hinv' hread hspelled
        obtain ⟨hlast, tokens, htokens, hrun, htext⟩ := ih _ (by omega) hinv' hread rfl
        rw [← htext, ← List.append_nil (tokens.flatMap _)] at hr
        have hmore : (read.1.numbered gap.1.number :: tokens).flatMap Token.text =
            hit.matched ++ hit.rest := by
          rw [List.flatMap_cons, htext, ← List.append_assoc]
          change read.1.text ++ _ ++ _ = _
          rw [hspelled, List.take_append_drop]
        subst hgap
        obtain ⟨front, hfront, hwhole, hspell⟩ :=
          lineRun_readGap h hinv hskips hmore (.cons hr hrun)
        refine ⟨hlast, _, ?_, hwhole, hspell.trans hsplit⟩
        rw [htokens, Line.append, hfront, List.append_assoc, List.append_assoc]
        rfl

/-- Reading lines keeps the invariant, and gives a run over their tokens. -/
theorem Sustains.readLines (h : Sustains settings R Inv) {state state' : State} {number : Int64}
    {texts : List (Bytes × Bytes)} {lines : List Line} (hinv : ∀ number, Inv state { number })
    (hread : readLines settings state number texts = (state', .ok lines)) :
    LinesRun R state.modes lines state'.modes := by
  induction texts generalizing state number lines with
  | nil =>
    obtain ⟨rfl, hlines⟩ := Prod.mk.inj hread
    obtain rfl := Except.ok.inj hlines
    exact .nil _
  | cons text texts ih =>
    obtain ⟨text, below⟩ := text
    rw [Scan.readLines_cons] at hread
    split at hread
    · exact absurd (Prod.mk.inj hread).2 (by simp)
    · next state₁ line hline =>
      split at hread
      · exact absurd (Prod.mk.inj hread).2 (by simp)
      · next state₂ more hmore =>
        obtain ⟨rfl, hlines⟩ := Prod.mk.inj hread
        obtain rfl := Except.ok.inj hlines
        obtain ⟨hkept, tokens, htokens, hrun, -⟩ := h.readLine (hinv number) hline
        rw [List.nil_append] at htokens
        subst htokens
        exact .cons hrun (ih (fun number => h.newline _ _ number hkept) hmore)

/-- A document is read by a run over its lines. -/
theorem Sustains.tokenize (h : Sustains settings R Inv) {modes : ModeStack} {source : Bytes}
    {lines : List Line} (hinv : ∀ number, Inv { modes } { number })
    (hread : tokenize settings modes source = .ok lines) :
    ∃ final, LinesRun R modes lines final :=
  ⟨_, h.readLines hinv (Prod.ext rfl hread)⟩

section Splits
variable {lead front back : List Token} {modes final : ModeStack} {more : Bytes}

theorem LineRun.split (h : LineRun R lead modes (front ++ back) more final) :
    ∃ between, LineRun R lead modes front (back.flatMap Token.text ++ more) between ∧
      LineRun R (lead ++ front) between back more final := by
  induction front generalizing lead modes with
  | nil => exact ⟨modes, .nil _ _ _, by rw [List.append_nil]; exact h⟩
  | cons t front ih =>
    rw [List.cons_append] at h
    cases h with
    | @cons _ _ r _ _ hr h =>
      obtain ⟨between, hfront, hback⟩ := ih h
      rw [List.flatMap_append, List.append_assoc] at hr
      refine ⟨between, .cons hr hfront, ?_⟩
      rw [List.append_assoc] at hback
      exact hback

theorem LineRun.at {t : Token} (h : LineRun R lead modes (front ++ t :: back) more final) :
    ∃ r : Reading, r.token = t ∧
      LineRun R lead modes front ((t :: back).flatMap Token.text ++ more) r.before ∧
      R (lead ++ front) (back.flatMap Token.text ++ more) r ∧
      LineRun R (lead ++ front ++ [t]) r.after back more final := by
  obtain ⟨between, hfront, hback⟩ := h.split
  cases hback with
  | @cons _ _ r _ _ hr h => exact ⟨r, rfl, hfront, hr, h⟩

theorem LinesRun.split {front back : List Line} (h : LinesRun R modes (front ++ back) final) :
    ∃ between, LinesRun R modes front between ∧ LinesRun R between back final := by
  induction front generalizing modes with
  | nil => exact ⟨modes, .nil _, h⟩
  | cons line front ih =>
    cases h with
    | cons hl h =>
      obtain ⟨between, hfront, hback⟩ := ih h
      exact ⟨between, .cons hl hfront, hback⟩

theorem LinesRun.at {above below : List Line} {line : Line}
    (h : LinesRun R modes (above ++ line :: below) final) :
    ∃ start stop, LinesRun R modes above start ∧ LineRun R [] start line.tokens [] stop ∧
      LinesRun R stop below final := by
  obtain ⟨start, habove, hbelow⟩ := h.split
  cases hbelow with
  | cons hl h => exact ⟨start, _, habove, hl, h⟩

end Splits

/-- Readings of tokens one after the other, wherever their lines end. -/
inductive Chain (R : Reading → Prop) : ModeStack → List Token → ModeStack → Prop where
  | nil (modes : ModeStack) : Chain R modes [] modes
  | cons {r : Reading} {tokens : List Token} {final : ModeStack} (hr : R r)
    (h : Chain R r.after tokens final) : Chain R r.before (r.token :: tokens) final

section Chains
variable {Q : Reading → Prop} {modes between final : ModeStack} {tokens tokens' : List Token}

theorem Chain.append (h : Chain Q modes tokens between) (h' : Chain Q between tokens' final) :
    Chain Q modes (tokens ++ tokens') final := by
  induction h with
  | nil modes => exact h'
  | cons hr _ ih => exact .cons hr (ih h')

theorem LineRun.chain {lead : List Token} {more : Bytes} (h : LineRun R lead modes tokens more final)
    (hQ : ∀ lead more r, R lead more r → Q r) : Chain Q modes tokens final := by
  induction h with
  | nil lead modes more => exact .nil modes
  | cons hr _ ih => exact .cons (hQ _ _ _ hr) ih

theorem LinesRun.chain {lines : List Line} (h : LinesRun R modes lines final)
    (hQ : ∀ lead more r, R lead more r → Q r) :
    Chain Q modes (lines.flatMap Line.tokens) final := by
  induction h with
  | nil modes => exact .nil modes
  | cons hl _ ih =>
    rw [List.flatMap_cons]
    exact (hl.chain hQ).append ih

end Chains

/-- What is to be seen of a token in front of `more`: whether it is verbatim, and that it shows on its
line unless it is white space. -/
structure Reading.Shown (more : Bytes) (r : Reading) : Prop where
  ignore : r.token.ignore = r.before.active.isVerbatim
  blank : r.token.isBlank = true → r.after.active.isVerbatim = r.before.active.isVerbatim
  visible : r.token.isBlank = false → ∀ front, allBlank front = true →
    allBlank (front ++ (r.token.text ++ more)) = false

section Shown
variable {settings : Settings} {below : Bytes} {state : State} {line : Line} {lexeme : Lexeme}
  {text more matched rest : Bytes} {n : Nat}

theorem Finds.exists_head {modes : ModeStack} (h : Finds modes lexeme matched rest) :
    ∃ b tail, matched = b :: tail ∧ isInert b = false := by
  obtain ⟨p, before, hrule, hmatch⟩ := h
  obtain ⟨b, tail, rfl, hstart⟩ := exists_head_of_match? hmatch
  refine ⟨b, tail, rfl, ?_⟩
  rw [Bool.eq_false_iff]
  intro hb
  have hno := modes.active.mayStart_rules modes.embedded hb _ hrule
  exact absurd (hstart.symm.trans hno) (by simp)

theorem Finds.exists_head_take {modes : ModeStack} (h : Finds modes lexeme matched rest)
    (hn : Whole.extent modes lexeme matched = .ok n) :
    ∃ b tail, matched.take n = b :: tail ∧ isInert b = false := by
  obtain ⟨b, tail, rfl, hb⟩ := h.exists_head
  have hpos : 0 < n := Mode.extent_pos (by simp) hn
  obtain ⟨k, rfl⟩ : ∃ k, n = k + 1 := ⟨n - 1, by omega⟩
  exact ⟨b, tail.take k, List.take_succ_cons, hb⟩

theorem Finds.visible {modes : ModeStack} (h : Finds modes lexeme matched rest)
    (hn : Whole.extent modes lexeme matched = .ok n) (front back : Bytes) :
    allBlank (front ++ (matched.take n ++ back)) = false := by
  obtain ⟨b, tail, htake, hb⟩ := h.exists_head_take hn
  rw [htake]
  exact allBlank_of_mem (by simp) hb

/-- Text in front of a lexeme is read as it stands. -/
theorem Skips.visible {modes : ModeStack} (h : Skips modes text more) (ht : allBlank text = false)
    {front : Bytes} (hfront : allBlank front = true) : allBlank (front ++ (text ++ more)) = false := by
  have hhead : ∀ b ∈ more.head?, Utf8.isTail b = false := by
    intro b hb
    unfold Skips at h
    split at h
    · rw [h] at hb
      exact absurd hb (by simp)
    · next hit hsearch =>
      obtain ⟨x, tail, hmatched, hx⟩ := Finds.exists_head (exists_match_of_search hsearch)
      obtain ⟨-, hsplit⟩ := search_split hsearch
      rw [List.append_assoc, h] at hsplit
      obtain rfl : x = b := by
        rw [← List.append_cancel_left hsplit, hmatched] at hb
        simpa using hb
      exact isTail_of_ascii (lt_of_isInert hx)
  rw [allBlank_append_of_left hfront, allBlank, Utf8.decode_append_of_head hhead, List.all_append]
  exact Bool.and_eq_false_iff.2 (Or.inl ht)

theorem shown_gap (hskips : Skips state.modes text more) (sight : Sight) (number : Int64) :
    Reading.Shown more ⟨state.modes, (state.modes.active.readText sight text).1.numbered number,
      state.modes.setActive (state.modes.active.readText sight text).2⟩ where
  ignore := Mode.ignore_readText _ _ _
  blank _ := by
    change (state.modes.active.readText sight text).2.isVerbatim = state.modes.active.isVerbatim
    cases state.modes.active <;> rfl
  visible hv front hfront := by
    have htext : ((state.modes.active.readText sight text).1.numbered number).text = text :=
      Mode.text_readText _ _ _
    rw [Token.isBlank, htext] at hv
    rw [htext]
    exact hskips.visible hv hfront

theorem shown_lexeme (hfinds : Finds state.modes lexeme matched rest)
    (hn : Whole.extent state.modes lexeme matched = .ok n) (sight : Sight) (number : Int64)
    (more : Bytes) : Reading.Shown more ⟨state.modes,
      (readLexeme settings below state sight lexeme (matched.take n)).1.numbered number,
      (readLexeme settings below state sight lexeme (matched.take n)).2.modes⟩ := by
  have htext : ((readLexeme settings below state sight lexeme (matched.take n)).1.numbered
      number).text = matched.take n := text_readLexeme _ _ _ _ _ _
  refine ⟨?_, fun hblank => ?_, fun _ front _ => ?_⟩
  · exact ignore_readLexeme _ _ fun ht => isVerbatim_of_isTemplate hfinds.label_mem ht
  · have hvisible := hfinds.visible hn [] []
    rw [List.nil_append, List.append_nil] at hvisible
    rw [Token.isBlank, htext, hvisible] at hblank
    exact absurd hblank Bool.false_ne_true
  · rw [htext]
    exact hfinds.visible hn front more

end Shown

section First
variable {R : List Token → Bytes → Reading → Prop} {modes final : ModeStack} {l : Line} {t : Token}
  (hR : ∀ lead more r, R lead more r → r.Shown more)
include hR

/-- White space neither opens nor closes a verbatim region. -/
theorem LineRun.isVerbatim {lead tokens : List Token} {more : Bytes}
    (h : LineRun R lead modes tokens more final) (hb : ∀ t ∈ tokens, t.isBlank = true) :
    final.active.isVerbatim = modes.active.isVerbatim := by
  induction h with
  | nil lead modes more => rfl
  | cons hr _ ih =>
    rw [ih fun t ht => hb t (List.mem_cons_of_mem _ ht)]
    exact (hR _ _ _ hr).blank (hb _ List.mem_cons_self)

/-- A line starts verbatim if a verbatim region is open there. -/
theorem LineRun.startsVerbatim (h : LineRun R [] modes l.tokens [] final) (hne : l.tokens ≠ []) :
    l.startsVerbatim = modes.active.isVerbatim := by
  unfold Line.startsVerbatim
  generalize l.tokens = tokens at h hne
  cases h with
  | nil => exact absurd rfl hne
  | cons hr _ => exact (hR _ _ _ hr).ignore

/-- A line with visible text, cut at its first visible token. -/
theorem LineRun.first (h : LineRun R [] modes l.tokens [] final) (ht : l.first? = some t) :
    ∃ (lead rest : List Token) (r : Reading), l.tokens = lead ++ t :: rest ∧ r.token = t ∧
      (∀ x ∈ lead, x.isBlank = true) ∧ t.isBlank = false ∧
      LineRun R [] modes lead ((t :: rest).flatMap Token.text) r.before ∧
      R lead (rest.flatMap Token.text) r ∧ r.before.active.isVerbatim = l.startsVerbatim ∧
      LineRun R (lead ++ [t]) r.after rest [] final := by
  obtain ⟨hv, lead, rest, hsplit, hlead⟩ := List.find?_eq_some_iff_append.1 ht
  have hblank : ∀ x ∈ lead, x.isBlank = true := fun x hx => by simpa using hlead x hx
  have hstart := h.startsVerbatim hR (by rw [hsplit]; simp)
  rw [hsplit] at h
  obtain ⟨r, hr, hfront, hread, hrest⟩ := h.at
  rw [List.append_nil] at hfront hread
  exact ⟨lead, rest, r, hsplit, hr, hblank, by simpa using hv, hfront, hread,
    (hfront.isVerbatim hR hblank).trans hstart.symm, hrest⟩

/-- A line with a visible token does not come out empty. -/
theorem LineRun.text_ne_nil (h : LineRun R [] modes l.tokens [] final) (ht : l.first? = some t) :
    l.text ≠ [] := by
  obtain ⟨lead, rest, r, hsplit, rfl, hlead, hv, -, hread, -, -⟩ := h.first hR ht
  have hfront : allBlank (lead.flatMap Token.text) = true := by
    clear hsplit hread
    induction lead with
    | nil => rfl
    | cons x lead ih =>
      have hx : allBlank x.text = true := hlead x List.mem_cons_self
      rw [List.flatMap_cons, allBlank_append_of_left hx]
      exact ih fun y hy => hlead y (List.mem_cons_of_mem _ hy)
  have hvisible := (hR _ _ _ hread).visible hv _ hfront
  have hraw : l.raw = lead.flatMap Token.text ++ (r.token.text ++ rest.flatMap Token.text) := by
    unfold Line.raw
    rw [hsplit, List.flatMap_append, List.flatMap_cons]
  intro hnil
  obtain ⟨a, b, hs, ha, hb⟩ := exists_eq_append_trim l.raw
  have htrim : trim l.raw = [] := hnil
  rw [htrim, List.append_nil] at hs
  rw [← hraw, hs, allBlank_append_of_left ha, hb] at hvisible
  exact absurd hvisible (by simp)

end First

end Reindent.Scan
