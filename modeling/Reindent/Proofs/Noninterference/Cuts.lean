import Reindent.Proofs.Noninterference.Front

/-! Where line comments are cut in front of a verbatim region. A comment is cut where a closing tag
starts in its lower-case form; unless that form is shorter than the comment, tags behind the start of
the region are out of reach. -/
namespace Reindent
open Bytes Pattern Text Scan

/-- The line comments of embedded scripts on the last line of a run that get shorter in lower case are
cut alike with one text behind the run and with another. -/
def ShrinksAlike (es : List Event) (text text' : Bytes) : Prop :=
  ∀ comment ∈ Event.lineComments es, (lowercase comment).length < comment.length →
    CutAlike comment text text'

instance (es : List Event) (text text' : Bytes) : Decidable (ShrinksAlike es text text') :=
  inferInstanceAs (Decidable (∀ comment ∈ Event.lineComments es, _))

theorem Bytes.find?_append_of_le {part front more : Bytes} {n : Nat}
    (h : find? part (front ++ more) = some n) (hn : n + part.length ≤ front.length)
    (more' : Bytes) : find? part (front ++ more') = some n := by
  induction front generalizing n with
  | nil =>
    have hpart : part = [] := List.eq_nil_of_length_eq_zero (by rw [List.length_nil] at hn; omega)
    have hzero : n = 0 := by rw [List.length_nil] at hn; omega
    subst hpart hzero
    cases more' with
    | nil => rfl
    | cons b more' => rfl
  | cons b front ih =>
    have hmoved : ∀ more more', part.length ≤ (b :: front).length →
        part <+: b :: (front ++ more) → part <+: b :: (front ++ more') := by
      intro more more' hlength hpart
      have hshort : part <+: b :: front :=
        List.prefix_of_prefix_length_le hpart (List.prefix_append (b :: front) more) hlength
      exact hshort.trans (List.prefix_append (b :: front) more')
    rw [List.cons_append, find?] at h ⊢
    split_ifs at h with hfirst
    · obtain rfl := Option.some.inj h
      rw [List.isPrefixOf_iff_prefix] at hfirst
      rw [if_pos (List.isPrefixOf_iff_prefix.2 (hmoved _ _ (by omega) hfirst))]
    · obtain ⟨k, hk, rfl⟩ := Option.map_eq_some_iff.1 h
      rw [List.length_cons] at hn
      rw [if_neg, ih hk (by omega)]
      · rfl
      · rw [List.isPrefixOf_iff_prefix] at hfirst ⊢
        exact fun hpart => hfirst (hmoved _ _ (by rw [List.length_cons]; omega) hpart)

/-- Lower case goes character by character, so it splits in front of a byte of ASCII. -/
theorem Text.lowercase_append_cons {c : UInt8} (hc : c < 0x80) (hu : isUpper c = false)
    (front more : Bytes) : lowercase (front ++ c :: more) = lowercase front ++ c :: lowercase more := by
  have hdecode : Utf8.decode (front ++ c :: more) = Utf8.decode front ++ Utf8.decode (c :: more) :=
    Utf8.decode_append_of_head (by simpa using isTail_of_ascii hc)
  rw [← lowercase_cons_of_ascii hc hu]
  unfold lowercase
  rw [hdecode, List.map_append, Utf8.encode, Utf8.encode, Utf8.encode, List.flatMap_append]

theorem Text.mem_of_mem_lowercase {s : Bytes} (h : 60 ∈ lowercase s) : 60 ∈ s := by
  obtain ⟨y, hy, hmem⟩ := List.mem_flatMap.1 h
  obtain ⟨x, hx, rfl⟩ := List.mem_map.1 hy
  have hbytes := (eq_of_mem_lowerSymbol (by decide) (by decide) hmem).2
  rw [← Utf8.encode_decode s]
  exact List.mem_flatMap.2 ⟨x, hx, by rw [hbytes]; exact List.mem_cons_self⟩

namespace Mode

private theorem mayEnd_slash {mode : Mode} (hv : mode.isVerbatim = false) (embedded : Bool) :
    ∀ r ∈ mode.rules embedded, r.1.startsRegion = true → r.1 ≠ .lineComment →
      r.2.mayEnd 47 = true → r.1 = .formatOff ∧ ∃ s, mode = .style s := by
  have hnone : ∀ rules : Rules, (∀ r ∈ rules, r.1.startsRegion = true → r.1 ≠ .lineComment →
      r.2.mayEnd 47 = false) → ∀ r ∈ rules, r.1.startsRegion = true → r.1 ≠ .lineComment →
      r.2.mayEnd 47 = true → r.1 = .formatOff ∧ ∃ s, mode = .style s := by
    intro rules h r hr hl hc hend
    exact absurd ((h r hr hl hc).symm.trans hend) Bool.false_ne_true
  cases mode with
  | text => exact hnone Rules.template (by decide)
  | markup => exact hnone Markup.rules (by decide)
  | tag o => exact hnone OpenTag.rules (by decide)
  | endTag => exact hnone Markup.endTagRules (by decide)
  | script s =>
    refine hnone (ScriptState.rules embedded) ?_
    revert embedded
    decide
  | style s =>
    have hstyle : ∀ embedded, ∀ r ∈ StyleState.rules embedded, r.1.startsRegion = true →
        r.1 ≠ .lineComment → r.2.mayEnd 47 = true → r.1 = .formatOff := by
      decide
    exact fun r hr hl hc hend => ⟨hstyle embedded r hr hl hc hend, s, rfl⟩
  | verbatim region => exact absurd hv (by simp [isVerbatim])

/-- A lexeme that starts a region and ends with a slash ends with a star in front of it. -/
theorem star_of_search {mode : Mode} (hv : mode.isVerbatim = false) {embedded : Bool}
    {before : Option UInt8} {s : Bytes} {hit : Hit Lexeme}
    (h : search (mode.rules embedded) before s = some hit) (hl : hit.label.startsRegion = true)
    (hc : hit.label ≠ .lineComment) (hlast : hit.matched.getLast? = some 47) :
    ascii "*/" <:+ hit.matched := by
  obtain ⟨⟨label, p⟩, hr, he⟩ := List.exists_of_findSome?_eq_some (pick?_of_search h)
  obtain ⟨e, hmatch, heq⟩ := Option.map_eq_some_iff.1 he
  obtain ⟨rfl, rfl⟩ := Prod.mk.inj heq
  have hmem := List.mem_of_find?_eq_some hmatch
  obtain ⟨w, hw⟩ := exists_took hmem
  have hwhole : hit.matched = w := by simpa using hw.taken
  have hend := hw.finish 47 (by rw [← hwhole]; exact hlast)
  obtain ⟨hlabel, s, rfl⟩ := mayEnd_slash hv embedded _ hr hl hc hend
  dsimp only at hlabel
  rw [hlabel] at hr
  have hp : p = .literal "/*" ++ .gap ++ .literal "fmt:off" ++ .gap ++ .literal "*/" := by
    cases embedded <;> simpa [Mode.rules, StyleState.rules, Rules.template, StyleState.comments,
      Rules.strings, StyleState.closer, Rules.brackets, StyleState.marks] using hr
  rw [hp] at hmem
  obtain ⟨m, -, hm⟩ := List.mem_flatMap.1 hmem
  have htaken := (mem_ends_word_iff.1 hm).1
  dsimp only at htaken
  rw [← List.reverse_reverse hit.matched, htaken, List.reverse_append, List.reverse_reverse]
  exact List.suffix_append _ _

end Mode

namespace ScriptState

/-- A comment that is cut in front of its end is cut where a closing tag starts in its lower-case
form. -/
theorem commentLength_eq_ok_iff {text : Bytes} {n : Nat} (hn : n < text.length) (hpos : 0 < n) :
    commentLength true text = .ok n ↔
      formatOff.startsText text = false ∧ find? (ascii "</script") (lowercase text) = some n := by
  unfold commentLength
  rw [Bool.not_true, Bool.false_or]
  cases formatOff.startsText text with
  | true =>
    rw [if_pos rfl]
    exact ⟨fun h => absurd (Except.ok.inj h) (by omega), fun h => absurd h.1 (by simp)⟩
  | false =>
    rw [if_neg Bool.false_ne_true]
    split
    · next hfind =>
      exact ⟨fun h => absurd (Except.ok.inj h) (by omega), fun h => absurd (hfind.symm.trans h.2)
        (by simp)⟩
    · next hfind =>
      refine ⟨fun h => absurd (Except.ok.inj h) (by omega), fun h => ?_⟩
      have hzero := Option.some.inj (hfind.symm.trans h.2)
      omega
    · next i hfind =>
      rw [hfind]
      split_ifs with hlong
      · simp
      · refine ⟨fun h => absurd h (by simp), fun h => ?_⟩
        have hsucc := Option.some.inj h.2
        omega

section Cut
variable {front more : Bytes} {c : UInt8} {n : Nat}

theorem lowercase_mark (hc : Region.isMark c = true) (front more : Bytes) :
    lowercase (front ++ c :: more) = lowercase front ++ c :: lowercase more := by
  have hall : ∀ b ∈ ascii "#\x7d->*/\x60", isUpper b = false := by decide +kernel
  exact lowercase_append_cons (Region.isMark_visible hc).1 (hall c (List.contains_iff_mem.1 hc)) _ _

/-- A closing tag that starts in front of a mark ends there, unless the mark is its slash. -/
theorem tag_in_front (hc : Region.isMark c = true) (hstar : c = 47 → front.getLast? = some 42)
    (hn : n < (lowercase (front ++ [c])).length)
    (h : find? (ascii "</script") (lowercase (front ++ c :: more)) = some n) :
    n + (ascii "</script").length ≤ (lowercase (front ++ [c])).length := by
  have htag := prefix_drop_of_find? h
  have hnil : lowercase [] = [] := rfl
  have hspelled : ascii "</script" = 60 :: 47 :: ascii "script" := rfl
  rw [lowercase_mark hc, hnil, List.length_append, List.length_singleton] at hn ⊢
  rw [lowercase_mark hc, List.drop_append_of_le_length (by omega)] at htag
  by_contra hlong
  -- the tag goes on behind the mark
  obtain ⟨tail, htail⟩ : (lowercase front).drop n ++ [c] <+: ascii "</script" := by
    refine List.prefix_of_prefix_length_le ⟨lowercase more, ?_⟩ htag ?_
    · rw [List.append_assoc, List.singleton_append]
    · rw [List.length_append, List.length_drop, List.length_singleton]
      omega
  rw [hspelled] at htail
  cases hv : (lowercase front).drop n with
  | nil =>
    rw [hv] at htail
    rw [(List.cons.inj htail).1] at hc
    exact absurd hc (by decide)
  | cons a v =>
    rw [hv] at htail
    obtain ⟨rfl, hrest⟩ := List.cons.inj htail
    cases v with
    | nil =>
      obtain ⟨rest, hfront⟩ := List.getLast?_eq_some_iff.1 (hstar (List.cons.inj hrest).1)
      have hlast : (lowercase front).getLast? = some 42 := by
        rw [hfront, lowercase_mark rfl, hnil, List.getLast?_concat]
      rw [← List.take_append_drop n (lowercase front), hv, List.getLast?_concat] at hlast
      exact absurd hlast (by simp)
    | cons b v =>
      have hall : ∀ b ∈ ascii "script", Region.isMark b = false := by decide +kernel
      have hmem : c ∈ ascii "script" := by
        rw [← (List.cons.inj hrest).2]
        simp
      exact absurd ((hall c hmem).symm.trans hc) Bool.false_ne_true

/-- What follows a text with an angle bracket does not turn a line comment into one that turns
formatting off. -/
theorem startsText_in_front (htag : 60 ∈ front) (more' : Bytes)
    (h : formatOff.startsText (front ++ more) = true) :
    formatOff.startsText (front ++ more') = true := by
  obtain ⟨⟨taken, rest⟩, he⟩ := Option.isSome_iff_exists.1 h
  have hmem := List.mem_of_find?_eq_some he
  have hne := (match?_split he).1
  obtain ⟨w, hsplit, htaken, -, hedge⟩ := took_formatOff hmem
  obtain ⟨w', hw⟩ := exists_took hmem
  dsimp only at hsplit htaken hedge hne
  subst htaken
  have hwithin : 60 ∉ w := by
    intro hin
    have hsame : w' = w := by simpa using hw.taken.symm
    exact absurd (hw.within 60 (hsame ▸ hin)) (by decide)
  -- the match ends in front of the angle bracket
  obtain ⟨b, v, rfl⟩ : ∃ b v, front = w ++ b :: v := by
    rcases List.append_eq_append_iff.1 hsplit with ⟨v, rfl, -⟩ | ⟨v, hv, -⟩
    · exact absurd (List.mem_append_left _ htag) hwithin
    · cases v with
      | nil =>
        rw [List.append_nil] at hv
        exact absurd (hv ▸ htag) hwithin
      | cons b v => exact ⟨b, v, hv⟩
  have hrest : rest = b :: v ++ more := by
    rw [List.append_assoc] at hsplit
    exact (List.append_cancel_left hsplit).symm
  rw [hrest, List.append_assoc] at hmem
  rw [hrest] at hedge
  have hmoved : ⟨w.reverse, b :: v ++ more'⟩ ∈ formatOff.ends none ⟨[], w ++ (b :: v ++ more')⟩ :=
    mem_ends_formatOff hedge hedge hmem
  rw [startsText, List.append_assoc]
  exact isSome_match?_of_mem hmoved hne

/-- A cut in front of a mark does not depend on what follows the mark, if the comment in front of it
is not shorter in lower case. -/
theorem commentLength_of_mark (hc : Region.isMark c = true)
    (hstar : c = 47 → front.getLast? = some 42)
    (hkeeps : (front ++ [c]).length ≤ (lowercase (front ++ [c])).length)
    (hslashes : ascii "//" <+: front ++ [c]) (hn : n < (front ++ [c]).length) (more' : Bytes)
    (h : commentLength true (front ++ [c] ++ more) = .ok n) :
    commentLength true (front ++ [c] ++ more') = .ok n := by
  have hpos := two_le_commentLength (hslashes.trans (List.prefix_append _ more)) h
  have hlength : ∀ more : Bytes, n < (front ++ [c] ++ more).length := by
    intro more
    rw [List.length_append]
    omega
  rw [commentLength_eq_ok_iff (hlength more) (by omega)] at h
  rw [commentLength_eq_ok_iff (hlength more') (by omega)]
  obtain ⟨hon, hfind⟩ := h
  have hmoved : ∀ more, lowercase (front ++ [c] ++ more) =
      lowercase (front ++ [c]) ++ lowercase more := by
    intro more
    rw [List.append_assoc, List.singleton_append, lowercase_mark hc, lowercase_mark hc,
      List.append_assoc]
    rfl
  have hinside : n + (ascii "</script").length ≤ (lowercase (front ++ [c])).length := by
    rw [List.append_assoc, List.singleton_append] at hfind
    exact tag_in_front hc hstar (by omega) hfind
  have hfind' := hfind
  rw [hmoved] at hfind' ⊢
  have hbracket : 60 ∈ front ++ [c] := by
    have htag := prefix_drop_of_find? hfind'
    rw [List.drop_append_of_le_length (by omega)] at htag
    have hwhole : ascii "</script" <+: (lowercase (front ++ [c])).drop n := by
      refine List.prefix_of_prefix_length_le htag (List.prefix_append _ _) ?_
      rw [List.length_drop]
      omega
    have hmem : 60 ∈ ascii "</script" := by decide
    exact mem_of_mem_lowercase (List.mem_of_mem_drop (hwhole.subset hmem))
  refine ⟨?_, Bytes.find?_append_of_le hfind' hinside _⟩
  by_contra hoff
  have hoff' := startsText_in_front hbracket more (by simpa using hoff)
  exact absurd (hon.symm.trans hoff') Bool.false_ne_true

end Cut

end ScriptState

/-- The text ends with a mark, and with a star in front of it if the mark is a slash. -/
def EndsMarked (front : Bytes) : Prop :=
  ∃ rest c, front = rest ++ [c] ∧ Region.isMark c = true ∧ (c = 47 → rest.getLast? = some 42)

theorem EndsMarked.append {tail : Bytes} (h : EndsMarked tail) (front : Bytes) :
    EndsMarked (front ++ tail) := by
  obtain ⟨rest, c, rfl, hc, hstar⟩ := h
  refine ⟨front ++ rest, c, (List.append_assoc _ _ _).symm, hc, fun hslash => ?_⟩
  rw [List.getLast?_append, hstar hslash, Option.some_or]

theorem EndsMarked.suffix {front tail : Bytes} (h : EndsMarked front) (hs : tail <:+ front)
    (ht : 1 < tail.length) : EndsMarked tail := by
  obtain ⟨rest, c, rfl, hc, hstar⟩ := h
  obtain ⟨more, hmore⟩ := hs
  obtain rfl | ⟨inner, d, rfl⟩ := List.eq_nil_or_concat tail
  · exact absurd ht (by simp)
  · rw [List.concat_eq_append] at ht hmore ⊢
    rw [← List.append_assoc] at hmore
    obtain ⟨rfl, hd⟩ := List.append_inj' hmore rfl
    have hne : inner ≠ [] := by
      rintro rfl
      exact absurd ht (by simp)
    refine ⟨inner, c, by rw [hd], hc, fun hslash => ?_⟩
    rw [← hstar hslash, List.getLast?_append_of_ne_nil _ hne]

/-- What stands behind a mark moves only cuts in comments that get shorter. -/
theorem EndsMarked.cutsAlike {es : List Event} {text text' : Bytes} (h : EndsMarked (Event.spelled es))
    (hshrinks : ShrinksAlike es text text') : CutsAlike es text text' := by
  intro comment hmem n hn
  by_cases hshort : (lowercase comment).length < comment.length
  · exact hshrinks comment hmem hshort n hn
  · have hkept := Nat.le_of_not_lt hshort
    obtain ⟨hs, hslashes⟩ := Event.suffix_of_mem_lineComments hmem
    obtain ⟨rest, c, rfl, hc, hstar⟩ := h.suffix hs hslashes.length_le
    constructor
    · exact ScriptState.commentLength_of_mark hc hstar hkept hslashes hn _
    · exact ScriptState.commentLength_of_mark hc hstar hkept hslashes hn _

namespace Scan.Whole
variable {settings : Settings} {state state' : State} {line line' : Line} {rest rest' : Bytes}
  {before : List Event} {r : Reading} {start : ModeName}

theorem Through.endsMarked (h : Through settings state line rest before r state' line' rest')
    (hf : state.modes.Formed start) (hr : r.Enters) :
    Below rest' ∨ EndsMarked (Event.spelled before ++ r.token.text) := by
  refine (h.opens hf hr).imp_right ?_
  rintro ⟨mode, embedded, x, found, hv, hfound, hstarts, hc, htext⟩
  apply EndsMarked.append
  rw [← htext]
  obtain ⟨c, hlast, hmark⟩ := Mode.isMark_of_search hv hfound hstarts hc
  obtain ⟨rest, hrest⟩ := List.getLast?_eq_some_iff.1 hlast
  refine ⟨rest, c, hrest, hmark, ?_⟩
  rintro rfl
  obtain ⟨more, hmore⟩ := Mode.star_of_search hv hfound hstarts hc hlast
  have hstar : more ++ [42] ++ [47] = rest ++ [47] := by
    rw [← hrest, ← hmore, List.append_assoc]
    rfl
  rw [← List.append_cancel_right hstar, List.getLast?_concat]

/-- Two regions that start behind the same text leave the line comments in front of them alike. -/
theorem Through.cutsAlike {state₁ state₂ : State} {line₁ line₂ : Line} {front text₁ text₂ : Bytes}
    {before₁ before₂ : List Event} {r₁ r₂ : Reading}
    (h₁ : Through settings state line (front ++ text₁) before₁ r₁ state₁ line₁ text₁)
    (h₂ : Through settings state line (front ++ text₂) before₂ r₂ state₂ line₂ text₂)
    (hf : state.modes.Formed start) (hr₁ : r₁.Enters) (hr₂ : r₂.Enters)
    (hshrinks : ShrinksAlike (before₁ ++ [.token r₁]) text₁ text₂) :
    CutsAlike (before₁ ++ [.token r₁]) text₁ text₂ := by
  have hmarked₁ := h₁.endsMarked hf hr₁
  have hmarked₂ := h₂.endsMarked hf hr₂
  rw [← h₁.front_eq] at hmarked₁
  rw [← h₂.front_eq] at hmarked₂
  by_cases hmarked : EndsMarked front
  · exact EndsMarked.cutsAlike (h₁.spelled_concat ▸ hmarked) hshrinks
  · have hnone : ∀ text, Below text → firstLine text = [] := fun text hbelow =>
      firstLine_append List.not_mem_nil hbelow
    intro comment _ n _
    rw [hnone _ (hmarked₁.resolve_right hmarked), hnone _ (hmarked₂.resolve_right hmarked)]

end Scan.Whole

end Reindent
