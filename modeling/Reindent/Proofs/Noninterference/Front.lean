import Reindent.Proofs.Causality
import Reindent.Proofs.Noninterference.Hits

/-! Up to the start of a verbatim region, two documents are read alike that are the same up to there.
Only the tag of an element looks further, and only as far as its first attribute. -/
namespace Reindent
open Bytes Pattern Text Scan

theorem Edge.append {tail text : Bytes} (h : Edge tail text) (ht : tail ≠ []) (front : Bytes) :
    Edge (front ++ tail) text := by
  refine h.imp_left fun ⟨c, hc, hm⟩ => ⟨c, ?_, hm⟩
  rw [List.getLast?_append_of_ne_nil _ ht, hc]

namespace Markup

/-- The gap in front of the first attribute does not depend on what is behind a mark, unless the mark
is a slash in the place of the attribute. -/
theorem attributeGap?_of_mark {tail : Bytes} {c : UInt8} (hlast : tail.getLast? = some c)
    (hc : Region.isMark c = true) (hslash : tail.dropWhile isGap ≠ [47]) (text text' : Bytes) :
    attributeGap? (tail ++ text) = attributeGap? (tail ++ text') := by
  have hgap : isGap c = false := by
    have hall : ∀ c ∈ ascii "#\x7d->*/\x60", isGap c = false := by decide +kernel
    exact hall c (List.contains_iff_mem.1 hc)
  obtain ⟨gap, d, rest, rfl, hgaps, hd⟩ : ∃ gap d rest, tail = gap ++ d :: rest ∧
      (∀ b ∈ gap, isGap b = true) ∧ isGap d = false := by
    have hne : tail.dropWhile isGap ≠ [] := by
      intro hnil
      rw [List.dropWhile_eq_nil_iff] at hnil
      have hmem := hnil c (List.mem_of_getLast? hlast)
      exact absurd (hgap.symm.trans hmem) Bool.false_ne_true
    obtain ⟨d, rest, hrest⟩ := List.exists_cons_of_ne_nil hne
    have hhead := List.head_dropWhile_not isGap hne
    refine ⟨tail.takeWhile isGap, d, rest, ?_, List.all_eq_true.1 List.all_takeWhile, ?_⟩
    · rw [← hrest, List.takeWhile_append_dropWhile]
    · simpa [hrest] using hhead
  have htake : ∀ text, (gap ++ d :: rest ++ text).takeWhile isGap = gap := by
    intro text
    rw [List.append_assoc, List.takeWhile_append_of_pos hgaps, List.cons_append,
      List.takeWhile_cons_of_neg (by simp [hd]), List.append_nil]
  have hdrop : ∀ text, (gap ++ d :: rest ++ text).dropWhile isGap = d :: (rest ++ text) := by
    intro text
    rw [List.append_assoc, List.dropWhile_append_of_pos hgaps, List.cons_append,
      List.dropWhile_cons_of_neg (by simp [hd])]
  have hslash' : rest = [] → d ≠ 47 := by
    rintro rfl rfl
    have hself := hdrop []
    rw [List.append_nil] at hself
    exact hslash hself
  unfold attributeGap?
  dsimp only
  rw [htake, htake, hdrop, hdrop]
  split_ifs
  · rfl
  · cases rest with
    | nil =>
      have hne := hslash' rfl
      grind
    | cons e rest => grind

end Markup

theorem Mode.extent_le {embedded : Bool} {mode : Mode} {lexeme : Lexeme} {text : Bytes} {n : Nat}
    (h : mode.extent embedded lexeme text = .ok n) : n ≤ text.length := by
  unfold extent at h
  split at h
  · unfold ScriptState.commentLength at h
    split_ifs at h
    · exact (Except.ok.inj h).ge
    split at h
    · exact (Except.ok.inj h).ge
    · exact (Except.ok.inj h).ge
    · split_ifs at h with hlong
      exact (Except.ok.inj h) ▸ hlong
  · exact (Except.ok.inj h).ge

namespace Scan

/-- The reading leads from another mode into a verbatim region. -/
def Reading.Enters (r : Reading) : Prop :=
  r.before.active.isVerbatim = false ∧ r.after.active.isVerbatim = true

/-- A lexeme that is no template tag is read without regard to the text behind it, but for the gap in
front of the first attribute of a tag. -/
theorem readLexeme_rest {settings : Settings} {state : State} {lexeme : Lexeme}
    (hl : lexeme ∈ (state.modes.active.rules state.modes.embedded).map Prod.fst)
    (ht : lexeme ≠ .templateBlock) (width : Int64) (line : Line) {rest rest' : Bytes}
    (hg : lexeme = .tagStart → Markup.attributeGap? rest = Markup.attributeGap? rest')
    (text : Bytes) :
    readLexeme settings [] state ⟨width, line, rest⟩ lexeme text =
      readLexeme settings [] state ⟨width, line, rest'⟩ lexeme text := by
  have hsettle : ∀ t, state.modes.active.settle ⟨width, line, rest⟩ t =
      state.modes.active.settle ⟨width, line, rest'⟩ t := by
    intro t
    cases state.modes.active <;> rfl
  have hread : lexeme.isTemplate = false → state.modes.active.read ⟨width, line, rest⟩ lexeme text =
      state.modes.active.read ⟨width, line, rest'⟩ lexeme text := by
    intro htemplate
    cases hmode : state.modes.active with
    | markup =>
      rw [hmode] at hl
      have hopen : lexeme = .tagStart → Markup.openTag ⟨width, line, rest⟩ text =
          Markup.openTag ⟨width, line, rest'⟩ text := by
        intro htag
        unfold Markup.openTag
        dsimp only
        rw [hg htag]
      simp only [Mode.rules, Markup.rules, Rules.template, Markup.tags, List.map_append,
        List.map_cons, List.map_nil, List.mem_append, List.mem_cons, List.not_mem_nil,
        or_false] at hl
      rcases hl with (rfl | rfl | rfl | rfl) | rfl | rfl | rfl | rfl | rfl
      case inr.inr.inr.inr.inr => simp only [Mode.read, Markup.read, hopen rfl]
      all_goals first | rfl | exact absurd htemplate (by simp [Lexeme.isTemplate])
    | _ => rfl
  unfold readLexeme
  dsimp only
  split_ifs with htemplate
  · rw [Template.read_ahead ht _ _ _ _ (rest' ++ []), hsettle]
  · rw [hread (by simpa using htemplate)]

namespace Whole
variable {settings : Settings} {state : State} {line : Line}

theorem label_ne_templateBlock {modes : ModeStack} {rest : Bytes} {hit : Hit (Option Lexeme)}
    {lexeme : Lexeme} (h : next? modes rest = some hit) (hl : hit.label = some lexeme)
    (htag : ¬ HoldsTag rest) : lexeme ≠ .templateBlock := by
  rintro rfl
  obtain ⟨x, below, found, rfl, -, -, hfound, rfl⟩ := line_of_next h hl
  have hholds := holdsTag_of_search hfound (Option.some.inj hl)
  exact htag (hholds.trans (List.prefix_append x below).isInfix)

theorem takeLexeme_same {rest : Bytes} {hit hit' : Hit (Option Lexeme)} {lexeme : Lexeme} {n : Nat}
    (hnext : next? state.modes rest = some hit) (hlabel : hit.label = some lexeme)
    (htag : ¬ HoldsTag rest) (hskipped : hit'.skipped = hit.skipped)
    (htake : hit'.matched.take n = hit.matched.take n)
    (hg : lexeme = .tagStart → Markup.attributeGap? (hit.matched.drop n ++ hit.rest) =
      Markup.attributeGap? (hit'.matched.drop n ++ hit'.rest)) :
    takeLexeme settings state line hit' lexeme n = takeLexeme settings state line hit lexeme n := by
  have hmem := (lexeme_of_next hnext hlabel).1
  rw [← rules_readGap settings state line hit.skipped [],
    ← embedded_readGap settings state line hit.skipped []] at hmem
  have hread := @readLexeme_rest settings (readGap settings state line hit.skipped []).2 lexeme hmem
    (label_ne_templateBlock hnext hlabel htag) settings.tabWidth
    (readGap settings state line hit.skipped []).1 _ _ hg (hit.matched.take n)
  unfold takeLexeme
  rw [readGap_rest settings state line hit.skipped (hit.matched ++ hit.rest) [],
    readGap_rest settings state line hit'.skipped (hit'.matched ++ hit'.rest) [], hskipped, htake]
  dsimp only
  rw [hread]

section Entering
variable {state' : State} {line' : Line} {rest rest' : Bytes} {before : List Event} {r : Reading}

theorem Through.last (h : Through settings state line rest before r state' line' rest')
    {start : ModeName} (hf : state.modes.Formed start) :
    ∃ state₀ line₀ rest₀ hit lexeme n, state₀.modes.Formed start ∧
      next? state₀.modes rest₀ = some hit ∧ hit.label = some lexeme ∧
      extent state₀.modes lexeme hit.matched = .ok n ∧
      (r, state', line') = takeLexeme settings state₀ line₀ hit lexeme n ∧
      rest' = hit.matched.drop n ++ hit.rest := by
  induction h with
  | @here state line rest hit lexeme n hnext hlabel hn =>
    exact ⟨state, line, rest, hit, lexeme, n, hf, hnext, hlabel, hn, rfl, rfl⟩
  | lineEnd _ _ _ ih => exact ih (formed_readGap hf _ _)
  | lexeme hnext hlabel _ _ ih => exact ih (formed_takeLexeme hf hnext hlabel _ _ _)

theorem Through.text_ne_nil (h : Through settings state line rest before r state' line' rest') :
    r.token.text ≠ [] := by
  induction h with
  | here hnext hlabel hn =>
    have hpos := Mode.extent_pos (search_split hnext).1 hn
    rw [text_takeLexeme, ne_eq, List.take_eq_nil_iff, not_or]
    exact ⟨by omega, (search_split hnext).1⟩
  | lineEnd _ _ _ ih => exact ih
  | lexeme _ _ _ _ ih => exact ih

/-- A region starts where a line ends, or behind a lexeme that starts regions and is no line
comment. -/
theorem Through.opens (h : Through settings state line rest before r state' line' rest')
    {start : ModeName} (hf : state.modes.Formed start) (hr : r.Enters) :
    Below rest' ∨ ∃ (mode : Mode) (embedded : Bool) (x : Bytes) (found : Hit Lexeme),
      mode.isVerbatim = false ∧ search (mode.rules embedded) none x = some found ∧
      found.label.startsRegion = true ∧ found.label ≠ .lineComment ∧
      found.matched = r.token.text := by
  obtain ⟨state₀, line₀, rest₀, hit, lexeme, n, hf₀, hnext, hlabel, hn, htaken, rfl⟩ := h.last hf
  obtain rfl : r = _ := congrArg Prod.fst htaken
  rw [text_takeLexeme]
  obtain ⟨x, below, found, rfl, hx, hbelow, hfound, rfl⟩ := line_of_next hnext hlabel
  obtain rfl : found.label = lexeme := Option.some.inj hlabel
  rw [← rules_readGap settings state₀ line₀ found.skipped (found.matched ++ (found.rest ++ below)),
    ← embedded_readGap settings state₀ line₀ found.skipped
      (found.matched ++ (found.rest ++ below))] at hfound
  rw [← extent_readGap settings state₀ line₀ found.skipped
    (found.matched ++ (found.rest ++ below))] at hn
  rcases opener_of_readLexeme (formed_readGap hf₀ _ _) hr.1 hfound hx hn _ hr.2 with
    hend | ⟨hstarts, hc, hwhole⟩
  · left
    have hrest : found.matched.drop n ++ (found.rest ++ below) = below := by
      rw [← List.append_assoc, hend, List.nil_append]
    change Below (found.matched.drop n ++ (found.rest ++ below))
    rw [hrest]
    exact hbelow
  · right
    refine ⟨_, _, x, found, hr.1, hfound, hstarts, hc, ?_⟩
    rw [hwhole]
    exact List.take_length.symm

theorem Through.edge (h : Through settings state line rest before r state' line' rest')
    {start : ModeName} (hf : state.modes.Formed start) (hr : r.Enters) :
    Edge (Event.spelled before ++ r.token.text) rest' := by
  refine Edge.append ?_ h.text_ne_nil _
  rcases h.opens hf hr with hbelow | ⟨mode, embedded, x, found, hv, hfound, hstarts, hc, htext⟩
  · exact Or.inr hbelow
  · rw [← htext]
    exact Or.inl (Mode.isMark_of_search hv hfound hstarts hc)

/-- A run through a text takes something of it first. It stops short of its end, if the run starts in
a region and ends where another starts. -/
theorem Through.first (h : Through settings state line rest before r state' line' rest')
    {front : Bytes} (hrest : rest = front ++ rest') :
    ∃ hit n, next? state.modes rest = some hit ∧ Takes state.modes hit n ∧
      hit.skipped.length + n ≤ front.length ∧
      (r.Enters → state.modes.active.isVerbatim = true →
        hit.skipped.length + n < front.length) := by
  cases h with
  | @here _ _ _ hit lexeme n hnext hlabel hn =>
    have hlength := length_of_next (hrest ▸ hnext)
    have hle := Mode.extent_le hn
    rw [List.length_append, List.length_drop] at hlength
    refine ⟨hit, n, hnext, by rw [Takes, hlabel]; exact hn, by omega, fun hr hv => ?_⟩
    have hgap := isVerbatim_readGap settings state line hit.skipped (hit.matched ++ hit.rest)
    exact absurd (hgap.symm.trans hr.1) (by simp [hv])
  | @lineEnd _ _ _ _ _ _ hit before _ hnext hlabel h =>
    have hlength := length_of_next (hrest ▸ hnext)
    have hmore := congrArg List.length h.spelled
    have hpos := List.length_pos_iff.2 h.text_ne_nil
    rw [newline_of_next hnext hlabel, List.length_singleton] at hlength
    rw [List.length_append, List.length_append] at hmore
    exact ⟨hit, 1, hnext, by rw [Takes, hlabel], by omega, fun _ _ => by omega⟩
  | @lexeme _ _ _ _ _ _ hit lexeme n before _ hnext hlabel hn h =>
    have hlength := length_of_next (hrest ▸ hnext)
    have hmore := congrArg List.length h.spelled
    have hpos := List.length_pos_iff.2 h.text_ne_nil
    have hle := Mode.extent_le hn
    rw [List.length_append, List.length_append, List.length_append, List.length_drop] at hmore
    refine ⟨hit, n, hnext, by rw [Takes, hlabel]; exact hn, by omega, fun _ _ => by omega⟩

theorem takes_iff_of_lexeme {modes : ModeStack} {hit : Hit (Option Lexeme)} {lexeme : Lexeme} {n : Nat}
    (hl : hit.label = some lexeme) :
    Takes modes hit n ↔ extent modes lexeme hit.matched = .ok n := by
  rw [Takes, hl]

theorem Takes.unique {modes : ModeStack} {hit : Hit (Option Lexeme)} {m n : Nat}
    (hm : Takes modes hit m) (hn : Takes modes hit n) : m = n := by
  cases hlabel : hit.label with
  | none =>
    rw [Takes, hlabel] at hm hn
    exact hm.trans hn.symm
  | some lexeme =>
    rw [takes_iff_of_lexeme hlabel] at hm hn
    exact Except.ok.inj (hm.symm.trans hn)

/-- A run whose next lexeme is known ends with it or goes on behind it. -/
theorem Through.of_lexeme (h : Through settings state line rest before r state' line' rest')
    {hit : Hit (Option Lexeme)} {lexeme : Lexeme} {n : Nat}
    (hnext : next? state.modes rest = some hit) (hlabel : hit.label = some lexeme)
    (hn : extent state.modes lexeme hit.matched = .ok n) :
    (before = gapEvents settings state line hit.skipped ∧
      (r, state', line') = takeLexeme settings state line hit lexeme n ∧
      rest' = hit.matched.drop n ++ hit.rest) ∨
    ∃ more, before = gapEvents settings state line hit.skipped ++
        .token (takeLexeme settings state line hit lexeme n).1 :: more ∧
      Through settings (takeLexeme settings state line hit lexeme n).2.1
        (takeLexeme settings state line hit lexeme n).2.2 (hit.matched.drop n ++ hit.rest) more r
        state' line' rest' := by
  cases h with
  | here hnext' hlabel' hn' =>
    obtain rfl := Option.some.inj (hnext.symm.trans hnext')
    obtain rfl := Option.some.inj (hlabel.symm.trans hlabel')
    obtain rfl := Except.ok.inj (hn.symm.trans hn')
    exact Or.inl ⟨rfl, rfl, rfl⟩
  | lineEnd hnext' hlabel' _ =>
    obtain rfl := Option.some.inj (hnext.symm.trans hnext')
    exact absurd (hlabel.symm.trans hlabel') (by simp)
  | lexeme hnext' hlabel' hn' h =>
    obtain rfl := Option.some.inj (hnext.symm.trans hnext')
    obtain rfl := Option.some.inj (hlabel.symm.trans hlabel')
    obtain rfl := Except.ok.inj (hn.symm.trans hn')
    exact Or.inr ⟨_, rfl, h⟩

theorem Through.front_eq {front : Bytes}
    (h : Through settings state line (front ++ rest') before r state' line' rest') :
    front = Event.spelled before ++ r.token.text :=
  List.append_cancel_right h.spelled

theorem Through.spelled_concat {front : Bytes}
    (h : Through settings state line (front ++ rest') before r state' line' rest') :
    Event.spelled (before ++ [.token r]) = front := by
  rw [h.front_eq]
  simp [Event.spelled, Event.text]

/-- A line comment of an embedded script that a run takes next, with all the run reads behind it. -/
theorem Through.mem_lineComments (h : Through settings state line rest before r state' line' rest')
    {front comment : Bytes} (hrest : rest = front ++ rest') {hit : Hit (Option Lexeme)} {n : Nat}
    (hnext : next? state.modes rest = some hit) (hlabel : hit.label = some .lineComment)
    (hn : Takes state.modes hit n) (hembedded : state.modes.embedded = true)
    (hfront : front = hit.skipped ++ comment) (hline : newline ∉ comment) :
    comment ∈ Event.lineComments (before ++ [.token r]) := by
  rw [Takes, hlabel] at hn
  obtain ⟨es, hes⟩ : ∃ es, before ++ [.token r] = gapEvents settings state line hit.skipped ++
      .token (takeLexeme settings state line hit .lineComment n).1 :: es := by
    rcases h.of_lexeme hnext hlabel hn with ⟨rfl, htaken, -⟩ | ⟨more, rfl, -⟩
    · obtain rfl : r = _ := congrArg Prod.fst htaken
      exact ⟨[], rfl⟩
    · exact ⟨more ++ [.token r], by rw [List.append_assoc, List.cons_append]⟩
  have hspelled : Event.spelled (before ++ [.token r]) = front := Through.spelled_concat (hrest ▸ h)
  have hcomment : Event.spelled
      (.token (takeLexeme settings state line hit .lineComment n).1 :: es) = comment := by
    rw [hes, Event.spelled, List.flatMap_append, ← Event.spelled, ← Event.spelled,
      spelled_gapEvents, hfront] at hspelled
    exact List.append_cancel_left hspelled
  obtain ⟨⟨s, hmode⟩, hslashes, -⟩ := comment_of_next hnext hlabel
  have hcut : 2 ≤ n := by
    unfold extent at hn
    rw [hmode] at hn
    exact ScriptState.two_le_commentLength hslashes hn
  rw [hes, ← hcomment]
  refine Event.lineComments_append _ _ (Event.mem_lineComments ?_ (hcomment ▸ hline))
  have hname := name_readGap settings state line hit.skipped (hit.matched ++ hit.rest)
  have hinner := embedded_readGap settings state line hit.skipped (hit.matched ++ hit.rest)
  rw [hmode] at hname
  rw [hembedded] at hinner
  have hprefix : (ascii "//").isPrefixOf (hit.matched.take n) = true :=
    List.isPrefixOf_iff_prefix.2 (List.prefix_take_iff.2 ⟨hslashes, hcut⟩)
  rw [Reading.isLineComment, text_takeLexeme, hprefix, Bool.and_true, Bool.and_eq_true, beq_iff_eq]
  exact ⟨hname, hinner⟩

theorem Through.of_lexeme_whole (h : Through settings state line rest before r state' line' rest')
    {front : Bytes} (hrest : rest = front ++ rest') {hit : Hit (Option Lexeme)} {lexeme : Lexeme}
    {n : Nat} (hnext : next? state.modes rest = some hit) (hlabel : hit.label = some lexeme)
    (hn : extent state.modes lexeme hit.matched = .ok n)
    (hwhole : hit.skipped.length + n = front.length) :
    before = gapEvents settings state line hit.skipped ∧
      (r, state', line') = takeLexeme settings state line hit lexeme n := by
  rcases h.of_lexeme hnext hlabel hn with ⟨hbefore, htaken, -⟩ | ⟨more, -, hmore⟩
  · exact ⟨hbefore, htaken⟩
  · exfalso
    have hpos := List.length_pos_iff.2 hmore.text_ne_nil
    have hbehind := congrArg List.length hmore.spelled
    have hlength := length_of_next (hrest ▸ hnext)
    have hle := Mode.extent_le hn
    simp only [List.length_append, List.length_drop] at hbehind hlength
    omega

theorem Through.of_lexeme_part (h : Through settings state line rest before r state' line' rest')
    {front : Bytes} (hrest : rest = front ++ rest') {hit : Hit (Option Lexeme)} {lexeme : Lexeme}
    {n : Nat} (hnext : next? state.modes rest = some hit) (hlabel : hit.label = some lexeme)
    (hn : extent state.modes lexeme hit.matched = .ok n)
    (hpart : hit.skipped.length + n < front.length) :
    ∃ more, before = gapEvents settings state line hit.skipped ++
        .token (takeLexeme settings state line hit lexeme n).1 :: more ∧
      Through settings (takeLexeme settings state line hit lexeme n).2.1
        (takeLexeme settings state line hit lexeme n).2.2 (hit.matched.drop n ++ hit.rest) more r
        state' line' rest' := by
  refine (h.of_lexeme hnext hlabel hn).resolve_left ?_
  rintro ⟨-, -, htaken⟩
  have hlength := length_of_next (hrest ▸ hnext)
  have hbehind := congrArg List.length htaken
  have hle := Mode.extent_le hn
  rw [List.length_append, List.length_drop] at hbehind
  omega

theorem Through.of_newline (h : Through settings state line rest before r state' line' rest')
    {hit : Hit (Option Lexeme)} (hnext : next? state.modes rest = some hit)
    (hlabel : hit.label = none) :
    ∃ more, before = gapEvents settings state line hit.skipped ++ .lineEnd :: more ∧
      Through settings (readGap settings state line hit.skipped []).2
        (readGap settings state line hit.skipped []).1.next hit.rest more r state' line' rest' := by
  cases h with
  | here hnext' hlabel' _ =>
    obtain rfl := Option.some.inj (hnext.symm.trans hnext')
    exact absurd (hlabel.symm.trans hlabel') (by simp)
  | lineEnd hnext' hlabel' h =>
    obtain rfl := Option.some.inj (hnext.symm.trans hnext')
    exact ⟨_, rfl, h⟩
  | lexeme hnext' hlabel' _ _ =>
    obtain rfl := Option.some.inj (hnext.symm.trans hnext')
    exact absurd (hlabel.symm.trans hlabel') (by simp)

theorem head_of_next {modes : ModeStack} {hit : Hit (Option Lexeme)}
    (h : next? modes rest = some hit) : ∃ b more, hit.matched = b :: more ∧ isGap b = false := by
  cases hlabel : hit.label with
  | none => exact ⟨newline, [], newline_of_next h hlabel, rfl⟩
  | some lexeme =>
    obtain ⟨-, b, more, hb, hinert⟩ := lexeme_of_next h hlabel
    refine ⟨b, more, hb, ?_⟩
    by_contra hgap
    have hblank : allBlank [b] = true := allBlank_of_isGap (by simpa using hgap)
    have hinert' := isInert_of_allBlank hblank List.mem_cons_self
    exact absurd (hinert.symm.trans hinert') Bool.false_ne_true

/-- In a tag, no region starts behind a slash that follows the name. -/
theorem Through.slash (h : Through settings state line rest before r state' line' rest')
    {o : OpenTag} (ho : state.modes.active = .tag o) {tail : Bytes} (hrest : rest = tail ++ rest') :
    tail.dropWhile isGap ≠ [47] := by
  intro hslash
  obtain ⟨hit, n, hnext, hn, hin, -⟩ := h.first hrest
  rw [hrest] at hnext
  have hgaps : ∀ b ∈ tail.takeWhile isGap, isGap b = true := List.all_eq_true.1 List.all_takeWhile
  have htail : tail = tail.takeWhile isGap ++ [47] := by
    rw [← hslash, List.takeWhile_append_dropWhile]
  -- what is found starts with the slash
  obtain ⟨b, more, hb, hgap⟩ := head_of_next hnext
  obtain ⟨part, hpart, hmatched⟩ := split_of_next hnext (by omega)
  have hlabel : hit.label ≠ some .lineComment := by
    intro hl
    obtain ⟨⟨s, hmode⟩, -⟩ := comment_of_next hnext hl
    exact absurd (ho.symm.trans hmode) (by simp)
  have hwhole := hn.whole hnext hlabel
  have hprefix : hit.matched <+: part := by
    refine List.prefix_of_prefix_length_le ?_ (List.prefix_append part rest') ?_
    · rw [← hmatched]
      exact List.prefix_append _ _
    · have hlength := congrArg List.length hpart
      rw [List.length_append] at hlength
      omega
  have hpart' : part = [47] := by
    obtain ⟨tail', hpart'⟩ := hprefix
    rw [hb, List.cons_append] at hpart'
    rw [htail] at hpart
    rcases List.append_eq_append_iff.1 hpart with ⟨v, -, hv⟩ | ⟨v, hv, hv'⟩
    · cases v with
      | nil => exact hv.symm
      | cons d v =>
        have hnil : part = [] := (List.append_eq_nil_iff.1 (List.cons.inj hv).2.symm).2
        rw [hnil] at hpart'
        exact absurd hpart' (by simp)
    · cases v with
      | nil => exact hv'
      | cons d v =>
        rw [← hpart'] at hv'
        have hgap' := hgaps b (by rw [hv, (List.cons.inj hv').1]; simp)
        exact absurd (hgap.symm.trans hgap') Bool.false_ne_true
  have hsingle : hit.matched = [47] := by
    rw [hpart', hb] at hprefix
    obtain ⟨tail', heq⟩ := hprefix
    obtain ⟨rfl, hnil⟩ := List.cons.inj heq
    rw [hb, (List.append_eq_nil_iff.1 hnil).1]
  -- but no rule of a tag ends with a slash
  have hend : ∀ r ∈ rules (.tag o) state.modes.embedded, r.2.mayEnd 47 = false := by
    change ∀ r ∈ (none, .byte newline) :: OpenTag.rules.map fun r => (some r.1, r.2), _
    decide
  unfold next? at hnext
  rw [ho] at hnext
  obtain ⟨p, hp, -, hlast⟩ := exists_rule_of_search hnext
  have hlast' := hlast 47 (by rw [hsingle]; rfl)
  exact absurd ((hend _ hp).symm.trans hlast') Bool.false_ne_true

end Entering

section Together
variable {state₁ state₂ : State} {line₁ line₂ : Line} {front text₁ text₂ : Bytes}
  {before₁ before₂ : List Event} {r₁ r₂ : Reading} {start : ModeName}

/-- Two runs to the start of a region behind the same text take the same first. -/
theorem Through.first_same
    (h₁ : Through settings state line (front ++ text₁) before₁ r₁ state₁ line₁ text₁)
    (h₂ : Through settings state line (front ++ text₂) before₂ r₂ state₂ line₂ text₂)
    (hf : state.modes.Formed start) (hr₁ : r₁.Enters) (hr₂ : r₂.Enters)
    (hcuts : CutsAlike (before₁ ++ [.token r₁]) text₁ text₂) {hit₁ : Hit (Option Lexeme)} {n : Nat}
    (hnext₁ : next? state.modes (front ++ text₁) = some hit₁) (hn : Takes state.modes hit₁ n) :
    ∃ hit₂, next? state.modes (front ++ text₂) = some hit₂ ∧ Takes state.modes hit₂ n ∧
      hit₂.skipped = hit₁.skipped ∧ hit₂.label = hit₁.label ∧
      hit₂.matched.take n = hit₁.matched.take n := by
  have hedge₁ := h₁.edge hf hr₁
  have hedge₂ := h₂.edge hf hr₂
  rw [← h₁.front_eq] at hedge₁
  rw [← h₂.front_eq] at hedge₂
  obtain ⟨found, n₁, hfound, hn₁, hin₁, hv₁⟩ := h₁.first rfl
  obtain ⟨hit₂, n₂, hnext₂, hn₂, hin₂, hv₂⟩ := h₂.first rfl
  obtain rfl := Option.some.inj (hnext₁.symm.trans hfound)
  obtain rfl := hn.unique hn₁
  have hcut : hit₁.label = some .lineComment → state.modes.embedded = true →
      ∀ comment, front = hit₁.skipped ++ comment → newline ∉ comment →
        CutAlike comment text₁ text₂ :=
    fun hl hembedded comment hfront hline =>
      hcuts comment (h₁.mem_lineComments rfl hnext₁ hl hn hembedded hfront hline)
  obtain ⟨hskipped, hlabel, rfl, htake⟩ := taken_same hedge₁ hedge₂ hcut hnext₁ hnext₂ hn hn₂
    hin₁ hin₂ fun hv => ⟨hv₁ hr₁ hv, hv₂ hr₂ hv⟩
  exact ⟨hit₂, hnext₂, hn₂, hskipped, hlabel, htake⟩

theorem active_tagStart {rest : Bytes} {hit : Hit (Option Lexeme)} {n : Nat}
    (hnext : next? state.modes rest = some hit) (hlabel : hit.label = some .tagStart) :
    ∃ o, (takeLexeme settings state line hit .tagStart n).2.1.modes.active = .tag o := by
  have hmem := (lexeme_of_next hnext hlabel).1
  have hmode : state.modes.active = .markup := by
    cases hactive : state.modes.active with
    | markup => rfl
    | verbatim region =>
      rw [hactive] at hmem
      cases region <;> simp [Mode.rules, Region.rules] at hmem
    | style s =>
      rw [hactive] at hmem
      cases hembedded : state.modes.embedded <;>
        simp [hembedded, Mode.rules, StyleState.rules, Rules.template, StyleState.comments,
          Rules.strings, StyleState.closer, Rules.brackets, StyleState.marks] at hmem
    | script s =>
      rw [hactive] at hmem
      cases hembedded : state.modes.embedded <;>
        simp [hembedded, Mode.rules, ScriptState.rules, Rules.template, ScriptState.comments,
          Rules.strings, ScriptState.closer, Rules.brackets, ScriptState.backtick,
          ScriptState.words] at hmem
    | _ =>
      rw [hactive] at hmem
      simp [Mode.rules, Rules.template, Markup.endTagRules, OpenTag.rules, OpenTag.parts] at hmem
  have hgap : (readGap settings state line hit.skipped (hit.matched ++ hit.rest)).2.modes.active =
      .markup := by
    unfold readGap
    split_ifs
    · exact hmode
    · change (state.modes.active.readText _ _).2 = .markup
      rw [hmode]
      rfl
  unfold takeLexeme readLexeme
  dsimp only
  rw [hgap]
  exact ⟨_, rfl⟩

/-- The first attribute of a tag is in the same place in both. -/
theorem attributeGap?_same {tail : Bytes} {o : OpenTag} (ho : state.modes.active = .tag o)
    (h₁ : Through settings state line (tail ++ text₁) before₁ r₁ state₁ line₁ text₁)
    (he₁ : Edge tail text₁) (he₂ : Edge tail text₂) :
    Markup.attributeGap? (tail ++ text₁) = Markup.attributeGap? (tail ++ text₂) := by
  by_cases hmark : ∃ c, tail.getLast? = some c ∧ Region.isMark c = true
  · obtain ⟨c, hlast, hc⟩ := hmark
    exact Markup.attributeGap?_of_mark hlast hc (h₁.slash ho rfl) text₁ text₂
  · rw [attributeGap?_append (he₁.resolve_left hmark), attributeGap?_append (he₂.resolve_left hmark)]

/-- Behind the same start of a text without template tags, the same is left, again without tags. -/
private theorem left_same {taken tail₁ tail₂ : Bytes}
    (h₁ : front ++ text₁ = taken ++ (tail₁ ++ text₁))
    (h₂ : front ++ text₂ = taken ++ (tail₂ ++ text₂))
    (htag₁ : ¬ HoldsTag (front ++ text₁)) (htag₂ : ¬ HoldsTag (front ++ text₂)) :
    tail₂ = tail₁ ∧ ¬ HoldsTag (tail₁ ++ text₁) ∧ ¬ HoldsTag (tail₁ ++ text₂) := by
  have hfront : ∀ {tail text : Bytes}, front ++ text = taken ++ (tail ++ text) →
      front = taken ++ tail := by
    intro tail text h
    rw [← List.append_assoc] at h
    exact List.append_cancel_right h
  obtain rfl := List.append_cancel_left ((hfront h₂).symm.trans (hfront h₁))
  rw [h₁] at htag₁
  rw [h₂] at htag₂
  exact ⟨rfl, fun hholds => htag₁ (hholds.trans (List.suffix_append _ _).isInfix),
    fun hholds => htag₂ (hholds.trans (List.suffix_append _ _).isInfix)⟩

theorem ne_tagStart_of_enters {hit : Hit (Option Lexeme)} {lexeme : Lexeme} {n : Nat}
    (hf : state.modes.Formed start) (hr : (takeLexeme settings state line hit lexeme n).1.Enters) :
    lexeme ≠ .tagStart := by
  rintro rfl
  have hinto : (readLexeme settings []
      (readGap settings state line hit.skipped (hit.matched ++ hit.rest)).2
      ⟨settings.tabWidth, (readGap settings state line hit.skipped
        (hit.matched ++ hit.rest)).1, hit.matched.drop n ++ hit.rest⟩ .tagStart
      (hit.matched.take n)).2.modes.active.isVerbatim = true := hr.2
  have hstarts := startsRegion_of_readLexeme (formed_readGap hf _ _) hr.1 _ _ hinto
  exact absurd hstarts (by simp [Lexeme.startsRegion])

/-- Two runs behind the same lexeme have read it alike, and have the same left in front of the region
that they come to. -/
theorem Through.lexeme_same {hit₁ hit₂ : Hit (Option Lexeme)} {lexeme : Lexeme} {n : Nat}
    (hf : state.modes.Formed start) (hr₁ : r₁.Enters) (hr₂ : r₂.Enters)
    (hnext₁ : next? state.modes (front ++ text₁) = some hit₁) (hlabel₁ : hit₁.label = some lexeme)
    (h₁ : Through settings (takeLexeme settings state line hit₁ lexeme n).2.1
      (takeLexeme settings state line hit₁ lexeme n).2.2 (hit₁.matched.drop n ++ hit₁.rest) before₁
      r₁ state₁ line₁ text₁)
    (hnext₂ : next? state.modes (front ++ text₂) = some hit₂) (hlabel₂ : hit₂.label = some lexeme)
    (h₂ : Through settings (takeLexeme settings state line hit₂ lexeme n).2.1
      (takeLexeme settings state line hit₂ lexeme n).2.2 (hit₂.matched.drop n ++ hit₂.rest) before₂
      r₂ state₂ line₂ text₂)
    (hskipped : hit₂.skipped = hit₁.skipped) (htake : hit₂.matched.take n = hit₁.matched.take n)
    (htag₁ : ¬ HoldsTag (front ++ text₁)) (htag₂ : ¬ HoldsTag (front ++ text₂)) :
    takeLexeme settings state line hit₂ lexeme n = takeLexeme settings state line hit₁ lexeme n ∧
    ∃ tail, hit₁.matched.drop n ++ hit₁.rest = tail ++ text₁ ∧
      hit₂.matched.drop n ++ hit₂.rest = tail ++ text₂ ∧
      ¬ HoldsTag (tail ++ text₁) ∧ ¬ HoldsTag (tail ++ text₂) := by
  have hspelled₁ := h₁.spelled
  have hspelled₂ := h₂.spelled
  have hsplit₁ := split_taken hnext₁ n
  have hsplit₂ := split_taken hnext₂ n
  rw [hspelled₁, ← List.append_assoc] at hsplit₁
  rw [hspelled₂, hskipped, htake, ← List.append_assoc] at hsplit₂
  obtain ⟨htail, hleft₁, hleft₂⟩ := left_same hsplit₁ hsplit₂ htag₁ htag₂
  have hedge₁ := h₁.edge (formed_takeLexeme hf hnext₁ hlabel₁ settings line n) hr₁
  have hedge₂ := h₂.edge (formed_takeLexeme hf hnext₂ hlabel₂ settings line n) hr₂
  rw [htail] at hspelled₂ hedge₂
  refine ⟨?_, _, hspelled₁, hspelled₂, hleft₁, hleft₂⟩
  refine takeLexeme_same hnext₁ hlabel₁ htag₁ hskipped htake fun htag => ?_
  subst htag
  obtain ⟨o, ho⟩ := @active_tagStart settings _ line _ _ n hnext₁ hlabel₁
  rw [hspelled₁, hspelled₂]
  exact attributeGap?_same ho (hspelled₁ ▸ h₁) hedge₁ hedge₂

private theorem suffix_behind (gap es last : List Event) (e : Event) :
    es ++ last <:+ gap ++ e :: es ++ last := by
  rw [List.append_assoc, List.cons_append]
  exact (List.suffix_cons _ _).trans (List.suffix_append _ _)

/-- Two documents that are the same up to the start of a verbatim region are read alike up to there. -/
theorem Through.same {rest : Bytes}
    (h₁ : Through settings state line rest before₁ r₁ state₁ line₁ text₁)
    (hrest : rest = front ++ text₁)
    (h₂ : Through settings state line (front ++ text₂) before₂ r₂ state₂ line₂ text₂)
    (hf : state.modes.Formed start) (hr₁ : r₁.Enters) (hr₂ : r₂.Enters)
    (hcuts : CutsAlike (before₁ ++ [.token r₁]) text₁ text₂) (htag₁ : ¬ HoldsTag (front ++ text₁))
    (htag₂ : ¬ HoldsTag (front ++ text₂)) :
    before₂ = before₁ ∧ r₂ = r₁ ∧ state₂ = state₁ ∧ line₂ = line₁ := by
  induction h₁ generalizing front before₂ with
  | @here state line rest hit₁ lexeme n hnext₁ hlabel₁ hn₁ =>
    subst hrest
    obtain ⟨hit₂, hnext₂, htakes₂, hskipped, hlabel, htake⟩ :=
      (Through.here hnext₁ hlabel₁ hn₁).first_same h₂ hf hr₁ hr₂ hcuts hnext₁
        ((takes_iff_of_lexeme hlabel₁).2 hn₁)
    have hlabel₂ := hlabel.trans hlabel₁
    have hsame : takeLexeme settings state line hit₂ lexeme n =
        takeLexeme settings state line hit₁ lexeme n :=
      takeLexeme_same hnext₁ hlabel₁ htag₁ hskipped htake
        fun htag => absurd htag (ne_tagStart_of_enters hf hr₁)
    have hwhole : hit₂.skipped.length + n = front.length := by
      have hlength := length_of_next hnext₁
      have hle := Mode.extent_le hn₁
      rw [hskipped]
      rw [List.length_append, List.length_drop] at hlength
      omega
    obtain ⟨hbefore, htaken⟩ :=
      h₂.of_lexeme_whole rfl hnext₂ hlabel₂ ((takes_iff_of_lexeme hlabel₂).1 htakes₂) hwhole
    rw [hsame] at htaken
    obtain ⟨hr, hstate⟩ := Prod.mk.inj htaken
    obtain ⟨hstate, hline⟩ := Prod.mk.inj hstate
    exact ⟨by rw [hbefore, hskipped], hr, hstate, hline⟩
  | @lineEnd state state₁ line line₁ rest text₁ hit₁ before₁ r₁ hnext₁ hlabel₁ h₁ ih =>
    subst hrest
    obtain ⟨hit₂, hnext₂, -, hskipped, hlabel, -⟩ :=
      (Through.lineEnd hnext₁ hlabel₁ h₁).first_same h₂ hf hr₁ hr₂ hcuts hnext₁
        (show Takes state.modes hit₁ 1 by rw [Takes, hlabel₁])
    obtain ⟨more, rfl, hmore⟩ := h₂.of_newline hnext₂ (hlabel.trans hlabel₁)
    have hsplit₁ := (search_split hnext₁).2
    have hsplit₂ := (search_split hnext₂).2
    rw [newline_of_next hnext₁ hlabel₁, h₁.spelled] at hsplit₁
    rw [newline_of_next hnext₂ (hlabel.trans hlabel₁), hmore.spelled, hskipped] at hsplit₂
    obtain ⟨htail, hleft₁, hleft₂⟩ := left_same hsplit₁.symm hsplit₂.symm htag₁ htag₂
    rw [hmore.spelled, htail, hskipped] at hmore
    obtain ⟨rfl, hreached⟩ := ih h₁.spelled hmore (formed_readGap hf _ _) hr₁
      (hcuts.suffix (suffix_behind _ _ _ _)) hleft₁ hleft₂
    rw [hskipped]
    exact ⟨rfl, hreached⟩
  | @lexeme state state₁ line line₁ rest text₁ hit₁ lexeme n before₁ r₁ hnext₁ hlabel₁ hn₁ h₁ ih =>
    subst hrest
    obtain ⟨hit₂, hnext₂, htakes₂, hskipped, hlabel, htake⟩ :=
      (Through.lexeme hnext₁ hlabel₁ hn₁ h₁).first_same h₂ hf hr₁ hr₂ hcuts hnext₁
        ((takes_iff_of_lexeme hlabel₁).2 hn₁)
    have hlabel₂ := hlabel.trans hlabel₁
    have hpart : hit₂.skipped.length + n < front.length := by
      have hlength := length_of_next hnext₁
      have hbehind := congrArg List.length h₁.spelled
      have hpos := List.length_pos_iff.2 h₁.text_ne_nil
      have hle := Mode.extent_le hn₁
      rw [hskipped]
      simp only [List.length_append, List.length_drop] at hbehind
      omega
    obtain ⟨more, hbefore, hmore⟩ :=
      h₂.of_lexeme_part rfl hnext₂ hlabel₂ ((takes_iff_of_lexeme hlabel₂).1 htakes₂) hpart
    obtain ⟨hsame, tail, htail₁, htail₂, hleft₁, hleft₂⟩ :=
      Through.lexeme_same hf hr₁ hr₂ hnext₁ hlabel₁ h₁ hnext₂ hlabel₂ hmore hskipped htake htag₁
        htag₂
    rw [htail₂, hsame] at hmore
    obtain ⟨rfl, hreached⟩ := ih htail₁ hmore (formed_takeLexeme hf hnext₁ hlabel₁ settings line n)
      hr₁ (hcuts.suffix (suffix_behind _ _ _ _)) hleft₁ hleft₂
    rw [hbefore, hskipped, hsame]
    exact ⟨rfl, hreached⟩

end Together

end Whole
end Scan
end Reindent
