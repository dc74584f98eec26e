import Reindent.Proofs.Blank
import Reindent.Proofs.Embedding.Closers
import Reindent.Proofs.Respacing.Search
import Reindent.Proofs.Scan.Modes

/-! Where verbatim regions start: behind a lexeme that ends with one of a few marks, or behind a line
comment, which then takes all of its line. -/
namespace Reindent
open Bytes Pattern Text

/-- A verbatim region may start behind the lexeme. -/
def Lexeme.startsRegion : Lexeme → Bool
  | .templateBlock | .templateComment | .templateCommentStart | .formatOff | .commentStart
  | .tagEnd | .backtick | .lineComment => true
  | _ => false

/-- The last bytes of the lexemes that start regions, line comments apart. -/
def Region.isMark (b : UInt8) : Bool := (ascii "#\x7d->*/\x60").contains b

/-- The active mode becomes a verbatim region. -/
def Move.startsRegion : Move → Bool
  | .keep self => self.isVerbatim
  | .enter _ inner => inner.isVerbatim
  | .leave => false

/-- Marks are visible bytes of ASCII, and no part of a word. -/
theorem Region.isMark_visible {b : UInt8} (h : isMark b = true) :
    b < 0x80 ∧ isInert b = false ∧ isBlank (Char.ofNat b.toNat) = false ∧ isWord b = false := by
  have hall : ∀ b ∈ ascii "#\x7d->*/\x60", b < 0x80 ∧ isInert b = false ∧
      isBlank (Char.ofNat b.toNat) = false ∧ isWord b = false := by
    decide +kernel
  exact hall b (List.contains_iff_mem.1 h)

theorem Bytes.prefix_drop_of_find? {part s : Bytes} {n : Nat} (h : find? part s = some n) :
    part <+: s.drop n := by
  induction s generalizing n with
  | nil =>
    rw [find?] at h
    split_ifs at h with he
    rw [List.isEmpty_iff.1 he]
    exact List.nil_prefix
  | cons b rest ih =>
    rw [find?] at h
    split_ifs at h with hp
    · obtain rfl := Option.some.inj h
      exact List.isPrefixOf_iff_prefix.1 hp
    · obtain ⟨i, hi, rfl⟩ := Option.map_eq_some_iff.1 h
      exact ih hi

theorem Text.lowercase_cons {b : UInt8} (h : b < 0x80) (s : Bytes) :
    lowercase (b :: s) = toLower b :: lowercase s := by
  have hall : ∀ n < 128, (lowerSymbol (.char (Char.ofNat n))).bytes =
      [toLower (UInt8.ofNat n)] := by
    decide +kernel
  have hlower := hall b.toNat (UInt8.lt_iff_toNat_lt.1 h)
  rw [UInt8.ofNat_toNat] at hlower
  unfold lowercase
  rw [Utf8.decode_cons, first_ascii s h, List.map_cons, Utf8.encode, List.flatMap_cons, hlower]
  rfl

/-- Bytes of ASCII that are no capital letters are their own lower-case form. -/
theorem Text.lowercase_cons_of_ascii {b : UInt8} (h : b < 0x80) (hu : isUpper b = false)
    (s : Bytes) : lowercase (b :: s) = b :: lowercase s := by
  rw [lowercase_cons h, toLower, hu, if_neg Bool.false_ne_true]

/-- The lower-case form of a text starts with an angle bracket only if the text does. -/
theorem Text.head_of_lowercase {s rest : Bytes} (h : lowercase s = 60 :: rest) :
    s.head? = some 60 := by
  cases s with
  | nil => exact absurd h (by simp [lowercase, Utf8.encode])
  | cons b s =>
    have hbytes := Utf8.bytes_fst_first b s
    have hfirst : 60 ∈ (lowerSymbol (Utf8.first b s).1).bytes := by
      unfold lowercase at h
      rw [Utf8.decode_cons, List.map_cons, Utf8.encode, List.flatMap_cons] at h
      cases hx : (lowerSymbol (Utf8.first b s).1).bytes with
      | nil => exact absurd hx (bytes_lowerSymbol_ne_nil _)
      | cons c more =>
        rw [hx] at h
        rw [(List.cons.inj h).1]
        exact List.mem_cons_self
    have hsingle := (eq_of_mem_lowerSymbol (by decide) (by decide) hfirst).2
    rw [hsingle] at hbytes
    rw [List.head?_cons, (List.cons.inj hbytes).1]

namespace ScriptState

/-- A comment that turns formatting off is ASCII without capital letters, and no word goes on behind
it. -/
theorem took_formatOff {before : Option UInt8} {text : Bytes} {e : Span}
    (h : e ∈ formatOff.ends before ⟨[], text⟩) : ∃ w, text = w ++ e.rest ∧ e.taken = w.reverse ∧
      (∀ b ∈ w, b < 0x80 ∧ isUpper b = false) ∧ e.rest.head?.any isWord = false := by
  have htake : ∀ n < 256, formatOff.mayTake (UInt8.ofNat n) = true →
      UInt8.ofNat n < 0x80 ∧ isUpper (UInt8.ofNat n) = false := by
    decide +kernel
  obtain ⟨w, hw⟩ := exists_took h
  refine ⟨w, hw.rest, by simpa using hw.taken, fun b hb => ?_, ?_⟩
  · have hbyte := htake b.toNat (UInt8.toNat_lt b)
    rw [UInt8.ofNat_toNat] at hbyte
    exact hbyte (hw.within b hb)
  · obtain ⟨m, hm, he⟩ := List.mem_flatMap.1 h
    obtain ⟨v, hv⟩ := exists_took hm
    have hne : v ≠ [] := fun hnil => absurd (hv.empty hnil) (by decide)
    have hlast : v.getLast hne = 102 := by
      simpa [literal, ascii, word, byte, mayEnd, nullable, HAppend.hAppend, Append.append] using
        hv.finish _ (List.getLast?_eq_getLast_of_ne_nil hne)
    have hhead : m.taken.head? = some 102 := by
      rw [hv.taken, List.append_nil, List.head?_reverse, List.getLast?_eq_getLast_of_ne_nil hne,
        hlast]
    rw [ends, hhead] at he
    split_ifs at he with hedge
    · rw [List.mem_singleton.1 he]
      simpa [atEdge, isWord, isLetter, isLower] using hedge
    · exact absurd he (by simp)

/-- A match is found again where other text follows, if no word goes on in either. -/
theorem mem_ends_formatOff {w more more' : Bytes} {before : Option UInt8}
    (hm : more.head?.any isWord = false) (hm' : more'.head?.any isWord = false)
    (h : ⟨w.reverse, more⟩ ∈ formatOff.ends before ⟨[], w ++ more⟩) :
    ⟨w.reverse, more'⟩ ∈ formatOff.ends before ⟨[], w ++ more'⟩ := by
  have hinside : (⟨w.reverse, more⟩ : Span) ∈
      (formatOff.ends before ((⟨[], w⟩ : Span).extend more)).filter (Span.leaves more.length) :=
    List.mem_filter.2 ⟨h, Span.leaves_iff.2 (Nat.le_refl _)⟩
  rw [filter_ends_extend (bare_formatOff.settles _) fun _ => hm] at hinside
  obtain ⟨⟨taken, rest⟩, he, heq⟩ := List.mem_map.1 hinside
  obtain ⟨rfl, hrest⟩ := Span.mk.inj heq
  obtain rfl : rest = [] := by simpa using hrest
  have hmoved : (⟨w.reverse, more'⟩ : Span) ∈
      (formatOff.ends before ((⟨[], w⟩ : Span).extend more')).filter
        (Span.leaves more'.length) := by
    rw [filter_ends_extend (bare_formatOff.settles _) fun _ => hm']
    exact List.mem_map.2 ⟨_, he, rfl⟩
  exact (List.mem_filter.1 hmoved).1

private theorem lowercase_append_of_ascii {w : Bytes}
    (h : ∀ b ∈ w, b < 0x80 ∧ isUpper b = false) (s : Bytes) :
    lowercase (w ++ s) = w ++ lowercase s := by
  induction w with
  | nil => rfl
  | cons b w ih =>
    obtain ⟨hb, hu⟩ := h b List.mem_cons_self
    rw [List.cons_append, lowercase_cons_of_ascii hb hu,
      ih fun x hx => h x (List.mem_cons_of_mem _ hx), List.cons_append]

/-- A line comment that turns formatting off is not cut. -/
theorem length_of_formatOff {embedded : Bool} {text : Bytes} {n : Nat}
    (h : commentLength embedded text = .ok n)
    (ho : formatOff.startsText (text.take n) = true) : n = text.length := by
  unfold commentLength at h
  split_ifs at h with hwhole
  · exact (Except.ok.inj h).symm
  split at h
  · exact (Except.ok.inj h).symm
  · exact (Except.ok.inj h).symm
  · next i hfind =>
    split_ifs at h with hlong
    obtain rfl := Except.ok.inj h
    exfalso
    apply hwhole
    obtain ⟨e, he⟩ := Option.isSome_iff_exists.1 ho
    obtain ⟨w, hsplit, htaken, hascii, hedge⟩ := took_formatOff (List.mem_of_find?_eq_some he)
    have hne := (match?_split he).1
    obtain ⟨taken, rest⟩ := e
    dsimp only at hsplit htaken hedge hne
    subst htaken
    have htext : text = w ++ (rest ++ text.drop (i + 1)) := by
      rw [← List.append_assoc, ← hsplit, List.take_append_drop]
    -- the cut lies behind the comment's own text, or a closing tag starts there
    have hbehind : (rest ++ text.drop (i + 1)).head?.any isWord = false := by
      cases rest with
      | cons b rest => exact hedge
      | nil =>
        rw [List.append_nil] at hsplit
        have hlength : w.length = i + 1 := by
          rw [← hsplit, List.length_take, Nat.min_eq_left hlong]
        have htag : ascii "</script" <+: (lowercase text).drop (i + 1) :=
          prefix_drop_of_find? hfind
        rw [htext, lowercase_append_of_ascii hascii, ← hlength, List.drop_left,
          List.nil_append] at htag
        obtain ⟨tail, htail⟩ := htag
        rw [List.nil_append, ← hlength, head_of_lowercase htail.symm]
        rfl
    have hmem := List.mem_of_find?_eq_some he
    rw [hsplit] at hmem
    have hmoved := mem_ends_formatOff hedge hbehind hmem
    rw [← htext] at hmoved
    rw [startsText, isSome_match?_of_mem hmoved hne, Bool.or_true]

theorem rest_of_lineComment {embedded : Bool} {mode : Mode} {before : Option UInt8} {s : Bytes}
    {hit : Hit Lexeme} (h : search (mode.rules embedded) before s = some hit)
    (hl : hit.label = .lineComment) (hs : newline ∉ s) :
    (∃ state, mode = .script state) ∧ hit.rest = [] ∧ ascii "//" <+: hit.matched := by
  obtain ⟨⟨label, p⟩, hr, he⟩ := List.exists_of_findSome?_eq_some (pick?_of_search h)
  obtain ⟨e, hmatch, heq⟩ := Option.map_eq_some_iff.1 he
  obtain ⟨rfl, rfl⟩ := Prod.mk.inj heq
  rw [hl] at hr
  have hp : (∃ state, mode = .script state) ∧ p = lineComment := by
    cases mode with
    | verbatim region => cases region <;> simp [Mode.rules, Region.rules] at hr
    | style s =>
      cases embedded <;> simp [Mode.rules, StyleState.rules, Rules.template, StyleState.comments,
        Rules.strings, StyleState.closer, Rules.brackets, StyleState.marks] at hr
    | script s =>
      refine ⟨⟨s, rfl⟩, ?_⟩
      cases embedded <;> simpa [Mode.rules, ScriptState.rules, Rules.template, ScriptState.comments,
        Rules.strings, ScriptState.closer, Rules.brackets, ScriptState.backtick,
        ScriptState.words, lineComment] using hr
    | _ => simp [Mode.rules, Markup.rules, Rules.template, Markup.tags, Markup.endTagRules,
        OpenTag.rules, OpenTag.parts] at hr
  refine ⟨hp.1, ?_⟩
  have hline : newline ∉ hit.matched ++ hit.rest := by
    rw [← (search_split h).2, List.append_assoc] at hs
    exact fun hmem => hs (List.mem_append_right _ hmem)
  rw [hp.2, match?_lineComment hline] at hmatch
  split_ifs at hmatch with hslashes
  have hrest := (Span.mk.inj (Option.some.inj hmatch)).2.symm
  rw [hrest, List.append_nil] at hslashes
  exact ⟨hrest, hslashes⟩

end ScriptState

/-- What is found starts and ends as its rule allows. -/
theorem Pattern.exists_rule_of_search {α : Type} {rules : List (α × Pattern)}
    {before : Option UInt8} {s : Bytes} {h : Hit α} (hs : search rules before s = some h) :
    ∃ p, (h.label, p) ∈ rules ∧ (∀ b ∈ h.matched.head?, p.mayStart b = true) ∧
      ∀ b ∈ h.matched.getLast?, p.mayEnd b = true := by
  obtain ⟨⟨label, p⟩, hr, he⟩ := List.exists_of_findSome?_eq_some (pick?_of_search hs)
  obtain ⟨e, hmatch, heq⟩ := Option.map_eq_some_iff.1 he
  obtain ⟨rfl, rfl⟩ := Prod.mk.inj heq
  obtain ⟨w, hw⟩ := exists_took (List.mem_of_find?_eq_some hmatch)
  have htaken : h.matched = w := by simpa using hw.taken
  rw [htaken]
  exact ⟨p, hr, hw.start, hw.finish⟩

namespace Mode
variable {embedded : Bool} {lexeme : Lexeme}

/-- Every match of the rule ends with a mark, if the rule is for a lexeme that starts regions and is
no line comment. -/
private def EndsMarked (r : Lexeme × Pattern) : Prop :=
  r.1.startsRegion = true → r.1 ≠ .lineComment →
    ∀ n < 256, r.2.mayEnd (UInt8.ofNat n) = true → Region.isMark (UInt8.ofNat n) = true

private instance (r : Lexeme × Pattern) : Decidable (EndsMarked r) :=
  inferInstanceAs (Decidable (_ → _ → _))

private theorem endsMarked_rules {mode : Mode} (hv : mode.isVerbatim = false) (embedded : Bool) :
    ∀ r ∈ mode.rules embedded, EndsMarked r := by
  cases mode with
  | text =>
    change ∀ r ∈ Rules.template, _
    decide +kernel
  | markup =>
    change ∀ r ∈ Markup.rules, _
    decide +kernel
  | tag o =>
    change ∀ r ∈ OpenTag.rules, _
    decide +kernel
  | endTag =>
    change ∀ r ∈ Markup.endTagRules, _
    decide +kernel
  | style s =>
    change ∀ r ∈ StyleState.rules embedded, _
    revert embedded
    decide +kernel
  | script s =>
    change ∀ r ∈ ScriptState.rules embedded, _
    revert embedded
    decide +kernel
  | verbatim region => exact absurd hv (by simp [isVerbatim])

/-- A lexeme that starts a region ends with a mark, unless it is a line comment. -/
theorem isMark_of_search {mode : Mode} (hv : mode.isVerbatim = false) {before : Option UInt8}
    {s : Bytes} {hit : Hit Lexeme} (h : search (mode.rules embedded) before s = some hit)
    (hl : hit.label.startsRegion = true) (hc : hit.label ≠ .lineComment) :
    ∃ b, hit.matched.getLast? = some b ∧ Region.isMark b = true := by
  obtain ⟨p, hp, -, hends⟩ := exists_rule_of_search h
  have hne := (search_split h).1
  have hlast := List.getLast?_eq_getLast_of_ne_nil hne
  refine ⟨_, hlast, ?_⟩
  have hb := hends _ hlast
  have hmarked := endsMarked_rules hv embedded _ hp hl hc
    (hit.matched.getLast hne).toNat (UInt8.toNat_lt _)
  rw [UInt8.ofNat_toNat] at hmarked
  exact hmarked hb

theorem startsRegion_read {mode : Mode} (hv : mode.isVerbatim = false) (sight : Sight)
    (text : Bytes) (h : (mode.read sight lexeme text).2.startsRegion = true) :
    lexeme.startsRegion = true := by
  cases mode with
  | text => exact absurd h (by simp [read, Move.startsRegion, isVerbatim])
  | markup =>
    change (Markup.read sight lexeme text).2.startsRegion = true at h
    unfold Markup.read at h
    split at h
    · rfl
    · rfl
    all_goals exact absurd h (by simp [Move.startsRegion, isVerbatim])
  | tag o =>
    change (o.read sight lexeme text).2.startsRegion = true at h
    unfold OpenTag.read at h
    split at h
    · exact absurd h (by simp [Move.startsRegion])
    · rfl
    · exact absurd h (by simp [Move.startsRegion, isVerbatim])
  | endTag => exact absurd h (by simp [read, Move.startsRegion])
  | style s =>
    change (s.read sight lexeme text).2.startsRegion = true at h
    unfold StyleState.read at h
    dsimp only at h
    split at h
    · rfl
    · rfl
    all_goals exact absurd h (by simp [Move.startsRegion, isVerbatim])
  | script s =>
    change (s.read sight lexeme text).2.startsRegion = true at h
    unfold ScriptState.read at h
    dsimp only at h
    split at h
    · rfl
    · rfl
    · rfl
    all_goals exact absurd h (by simp [Move.startsRegion, isVerbatim])
  | verbatim r => exact absurd hv (by simp [isVerbatim])

end Mode

theorem ModeStack.startsRegion_of_apply {start : ModeName} {stack : ModeStack}
    (h : stack.Formed start) (hv : stack.active.isVerbatim = false) {move : Move}
    (hm : (stack.apply move).active.isVerbatim = true) : move.startsRegion = true := by
  cases move with
  | keep self => exact hm
  | enter self inner => exact hm
  | leave =>
    exfalso
    obtain ⟨active, returns, count, left⟩ := stack
    cases h with
    | outer hs hname => exact absurd (hv.symm.trans hm) Bool.false_ne_true
    | inner hs hname =>
      obtain ⟨hactive, -⟩ := @leave_of_cons ⟨active, [.markup], count, left⟩ _ _ rfl
      rw [apply, hactive] at hm
      exact absurd hm (by simp [Mode.isVerbatim])
    | region r h hholds => exact absurd hv (by simp [Mode.isVerbatim])

theorem Template.startsRegion_read {blocks : Blocks} {memory : Lookahead} {lexeme : Lexeme}
    {text ahead : Bytes} {region : Region}
    (h : (read blocks memory lexeme text ahead).2.1 = some region) : lexeme.startsRegion = true := by
  cases lexeme <;> first | rfl | exact absurd h (by simp [read])

/-- Only lexemes that start regions lead from another mode into a region. -/
theorem Scan.startsRegion_of_readLexeme {settings : Settings} {below : Bytes} {state : State}
    {start : ModeName} (h : state.modes.Formed start)
    (hv : state.modes.active.isVerbatim = false) (sight : Sight) {lexeme : Lexeme} (text : Bytes)
    (hr : (readLexeme settings below state sight lexeme text).2.modes.active.isVerbatim = true) :
    lexeme.startsRegion = true := by
  unfold readLexeme at hr
  dsimp only at hr
  split_ifs at hr with ht
  · have hmove := ModeStack.startsRegion_of_apply h hv hr
    split at hmove
    · next region hregion => exact Template.startsRegion_read hregion
    · have hsettled : ∀ t, (state.modes.active.settle sight t).2.isVerbatim = false := by
        intro t
        cases hmode : state.modes.active with
        | verbatim r =>
          rw [hmode] at hv
          exact absurd hv (by simp [Mode.isVerbatim])
        | _ => rfl
      exact absurd ((hsettled _).symm.trans hmove) Bool.false_ne_true
  · exact Mode.startsRegion_read hv sight text (ModeStack.startsRegion_of_apply h hv hr)

section Openers
variable {settings : Settings} {below s : Bytes} {state : State} {start : ModeName}
  {before : Option UInt8} {hit : Hit Lexeme} {n : Nat}

/-- Where a lexeme of a line starts a region, the line ends, or it is no line comment and taken
whole. -/
theorem Scan.opener_of_readLexeme (h : state.modes.Formed start)
    (hv : state.modes.active.isVerbatim = false)
    (hs : search (state.modes.active.rules state.modes.embedded) before s = some hit)
    (hline : newline ∉ s)
    (hn : state.modes.active.extent state.modes.embedded hit.label hit.matched = .ok n)
    (sight : Sight) (hr : (readLexeme settings below state sight hit.label
      (hit.matched.take n)).2.modes.active.isVerbatim = true) :
    hit.matched.drop n ++ hit.rest = [] ∨
      hit.label.startsRegion = true ∧ hit.label ≠ .lineComment ∧ n = hit.matched.length := by
  have hstarts := startsRegion_of_readLexeme h hv sight _ hr
  by_cases hc : hit.label = .lineComment
  · left
    obtain ⟨⟨script, hmode⟩, hrest, -⟩ := ScriptState.rest_of_lineComment hs hc hline
    rw [hc, hmode] at hn
    have hoff : ScriptState.formatOff.startsText (hit.matched.take n) = true := by
      by_contra hoff
      apply absurd hr
      simp [readLexeme, hc, Lexeme.isTemplate, hmode, Mode.read, ScriptState.read, hoff,
        ModeStack.apply, ModeStack.setActive, Mode.isVerbatim]
    have hlength := ScriptState.length_of_formatOff hn hoff
    rw [hrest, hlength, List.drop_length, List.append_nil]
  · right
    refine ⟨hstarts, hc, ?_⟩
    unfold Mode.extent at hn
    split at hn
    · next hlabel => exact absurd hlabel hc
    · exact (Except.ok.inj hn).symm

/-- Where a lexeme of a line starts a region, it ends with a mark or the line ends. -/
theorem Scan.mark_of_readLexeme (h : state.modes.Formed start)
    (hv : state.modes.active.isVerbatim = false)
    (hs : search (state.modes.active.rules state.modes.embedded) before s = some hit)
    (hline : newline ∉ s)
    (hn : state.modes.active.extent state.modes.embedded hit.label hit.matched = .ok n)
    (sight : Sight) (hr : (readLexeme settings below state sight hit.label
      (hit.matched.take n)).2.modes.active.isVerbatim = true) :
    hit.matched.drop n ++ hit.rest = [] ∨
      ∃ b, (hit.matched.take n).getLast? = some b ∧ Region.isMark b = true := by
  rcases opener_of_readLexeme h hv hs hline hn sight hr with hend | ⟨hstarts, hc, hwhole⟩
  · exact Or.inl hend
  · rw [hwhole, List.take_length]
    exact Or.inr (Mode.isMark_of_search hv hs hstarts hc)

end Openers

end Reindent
