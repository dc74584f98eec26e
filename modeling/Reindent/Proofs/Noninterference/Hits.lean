import Reindent.Proofs.Pattern.Confined
import Reindent.Proofs.Scan.Events

/-! The lexemes in front of a verbatim region. Those that end in front of it are found whatever the
region holds, and so are line comments that are cut in front of it, if the cut is the same. -/
namespace Reindent
open Bytes Pattern Text Scan

/-- The rest of the line at the start of a text. -/
def Bytes.firstLine (s : Bytes) : Bytes := s.takeWhile (· != newline)

/-- A region may start behind the text: it ends with a mark, or its line ends. -/
def Edge (front text : Bytes) : Prop :=
  (∃ c, front.getLast? = some c ∧ Region.isMark c = true) ∨ Whole.Below text

/-- A line comment of an embedded script is cut alike with one text behind it and with another. -/
def CutAlike (comment text text' : Bytes) : Prop :=
  ∀ n < comment.length,
    (ScriptState.commentLength true (comment ++ firstLine text) = .ok n ↔
      ScriptState.commentLength true (comment ++ firstLine text') = .ok n)

instance (comment text text' : Bytes) : Decidable (CutAlike comment text text') :=
  inferInstanceAs (Decidable (∀ n < comment.length, _))

namespace Scan

/-- The token is a line comment of an embedded script. -/
def Reading.isLineComment (r : Reading) : Bool :=
  r.before.active.name == .script && r.before.embedded && (ascii "//").isPrefixOf r.token.text

namespace Event

/-- The line comments of embedded scripts on the last line of a run, with all that is read behind
them. -/
def lineComments : List Event → List Bytes
  | [] => []
  | .lineEnd :: es => lineComments es
  | .token r :: es =>
    let text := spelled (.token r :: es)
    if r.isLineComment && !text.contains newline then text :: lineComments es else lineComments es

theorem lineComments_append (es es' : List Event) : lineComments es' ⊆ lineComments (es ++ es') := by
  induction es with
  | nil => exact fun _ h => h
  | cons e es ih =>
    cases e with
    | lineEnd => exact ih
    | token r =>
      rw [List.cons_append, lineComments]
      split_ifs
      · exact List.Subset.trans ih (List.subset_cons_self _ _)
      · exact ih

theorem mem_lineComments {r : Reading} {es : List Event} (hr : r.isLineComment = true)
    (hline : newline ∉ spelled (.token r :: es)) :
    spelled (.token r :: es) ∈ lineComments (.token r :: es) := by
  have hcontains : (spelled (.token r :: es)).contains newline = false := by simpa using hline
  rw [lineComments, hr, hcontains]
  exact List.mem_cons_self

theorem suffix_of_mem_lineComments {es : List Event} {comment : Bytes}
    (h : comment ∈ lineComments es) :
    comment <:+ spelled es ∧ ascii "//" <+: comment := by
  induction es with
  | nil => exact absurd h List.not_mem_nil
  | cons e es ih =>
    have hbehind : comment ∈ lineComments es →
        comment <:+ spelled (e :: es) ∧ ascii "//" <+: comment :=
      fun hmem => ⟨(ih hmem).1.trans (List.suffix_append _ _), (ih hmem).2⟩
    cases e with
    | lineEnd => exact hbehind h
    | token r =>
      rw [lineComments] at h
      split_ifs at h with hr
      · rcases List.mem_cons.1 h with rfl | hmem
        · refine ⟨List.suffix_refl _, ?_⟩
          rw [Bool.and_eq_true, Reading.isLineComment, Bool.and_eq_true,
            List.isPrefixOf_iff_prefix] at hr
          exact hr.1.2.trans (List.prefix_append _ _)
        · exact hbehind hmem
      · exact hbehind h

end Event
end Scan

/-- The line comments of embedded scripts on the last line of a run are cut alike with one text behind
the run and with another. -/
def CutsAlike (es : List Scan.Event) (text text' : Bytes) : Prop :=
  ∀ comment ∈ Scan.Event.lineComments es, CutAlike comment text text'

theorem Edge.suffix {front tail text : Bytes} (h : Edge (front ++ tail) text) (ht : tail ≠ []) :
    Edge tail text := by
  refine h.imp_left fun ⟨c, hc, hm⟩ => ⟨c, ?_, hm⟩
  rw [← hc, List.getLast?_append_of_ne_nil _ ht]

theorem CutsAlike.suffix {es es' : List Scan.Event} {text text' : Bytes}
    (h : CutsAlike es text text') (hs : es' <:+ es) : CutsAlike es' text text' := by
  obtain ⟨front, rfl⟩ := hs
  exact fun comment hmem => h comment (Scan.Event.lineComments_append front es' hmem)

namespace Mode

/-- The pattern does not notice what stands behind a mark at which a match ends. -/
private def settledByMarks (r : Lexeme × Pattern) : Bool :=
  r.2.isPlain ||
    (ascii "#\x7d->*/\x60").all fun c => r.2.settles (some c) && !r.2.mayEnd c

private theorem settledByMarks_rules {mode : Mode} (hv : mode.isVerbatim = false)
    (embedded : Bool) : ∀ r ∈ mode.rules embedded, settledByMarks r = true := by
  cases mode with
  | text =>
    change ∀ r ∈ Rules.template, _
    decide
  | markup =>
    change ∀ r ∈ Markup.rules, _
    decide
  | tag o =>
    change ∀ r ∈ OpenTag.rules, _
    decide
  | endTag =>
    change ∀ r ∈ Markup.endTagRules, _
    decide
  | style s =>
    change ∀ r ∈ StyleState.rules embedded, _
    revert embedded
    decide
  | script s =>
    change ∀ r ∈ ScriptState.rules embedded, _
    revert embedded
    decide
  | verbatim region => exact absurd hv (by simp [isVerbatim])

private theorem settles_region (region : Region) {c : UInt8} (hc : Region.isMark c = true) :
    ∀ r ∈ region.rules, r.2.settles (some c) = true := by
  have hall : ∀ r ∈ region.rules, ∀ c ∈ ascii "#\x7d->*/\x60", r.2.settles (some c) = true := by
    cases region with
    | block tag => cases tag <;> decide +kernel
    | element name => cases name <;> decide +kernel
    | _ => decide +kernel
  exact fun r hr => hall r hr c (List.contains_iff_mem.1 hc)

/-- Outside regions, lexemes that end in front of a mark or with it do not depend on what is behind
it. -/
theorem confined_of_mark {mode : Mode} (hv : mode.isVerbatim = false) (embedded : Bool) {x : Bytes}
    {c : UInt8} (hx : x.getLast? = some c) (hc : Region.isMark c = true) (text : Bytes) :
    ∀ r ∈ Whole.rules mode embedded, r.2.Confined x text := by
  intro r hr
  rcases List.mem_cons.1 hr with rfl | hr
  · exact confined_of_isPlain rfl x text
  obtain ⟨rule, hrule, rfl⟩ := List.mem_map.1 hr
  have hsettled := settledByMarks_rules hv embedded rule hrule
  rw [settledByMarks, Bool.or_eq_true, List.all_eq_true] at hsettled
  rcases hsettled with hplain | hmarks
  · exact confined_of_isPlain hplain x text
  · have hmark := hmarks c (List.contains_iff_mem.1 hc)
    rw [Bool.and_eq_true, Bool.not_eq_true'] at hmark
    exact confined_of_mayEnd hmark.1 (Region.isMark_visible hc).2.2.2 hmark.2 hx text

theorem confined_of_below (mode : Mode) (embedded : Bool) {below : Bytes}
    (hb : Whole.Below below) (x : Bytes) :
    ∀ r ∈ Whole.rules mode embedded, r.2.Confined x below := by
  intro r hr
  rcases List.mem_cons.1 hr with rfl | hr
  · exact confined_of_isPlain rfl x below
  obtain ⟨rule, hrule, rfl⟩ := List.mem_map.1 hr
  exact (mode.ignores_below embedded hb rule hrule).confined x

/-- In a region, lexemes that end in front of a mark do not depend on what is behind it. -/
theorem confined_region (region : Region) (embedded : Bool) {c : UInt8}
    (hc : Region.isMark c = true) (x text : Bytes) :
    ∀ r ∈ Whole.rules (.verbatim region) embedded, r.2.Confined x (c :: text) := by
  intro r hr
  rcases List.mem_cons.1 hr with rfl | hr
  · exact confined_of_isPlain rfl x _
  obtain ⟨rule, hrule, rfl⟩ := List.mem_map.1 hr
  have hsettles : rule.2.settles (c :: text).head? = true := settles_region region hc rule hrule
  have hword : (c :: text).head?.any isWord = false := (Region.isMark_visible hc).2.2.2
  exact confined_of_settles hsettles (fun _ => hword) x

end Mode

/-- A cut in a line comment leaves its slashes. -/
theorem ScriptState.two_le_commentLength {embedded : Bool} {text : Bytes} {n : Nat}
    (hs : ascii "//" <+: text) (h : commentLength embedded text = .ok n) : 2 ≤ n := by
  obtain ⟨rest, rfl⟩ := hs
  have hlength : 2 ≤ (ascii "//" ++ rest).length := by simp [ascii]
  unfold commentLength at h
  split_ifs at h
  · rw [← Except.ok.inj h]
    exact hlength
  split at h
  · rw [← Except.ok.inj h]
    exact hlength
  · rw [← Except.ok.inj h]
    exact hlength
  · next i hfind =>
    split_ifs at h
    obtain rfl := Except.ok.inj h
    have htag := prefix_drop_of_find? hfind
    have hlower : lowercase (ascii "//" ++ rest) = 47 :: 47 :: lowercase rest := by
      change lowercase (47 :: 47 :: rest) = _
      rw [lowercase_cons_of_ascii (by decide) (by decide),
        lowercase_cons_of_ascii (by decide) (by decide)]
    rw [hlower] at htag
    cases i with
    | zero =>
      obtain ⟨more, hmore⟩ := htag
      exact absurd (List.cons.inj hmore).1 (by decide)
    | succ i => omega

namespace Scan.Whole
variable {modes : ModeStack} {rest : Bytes} {hit : Hit (Option Lexeme)}

theorem exists_firstLine (s : Bytes) :
    ∃ below, s = firstLine s ++ below ∧ newline ∉ firstLine s ∧ Below below := by
  refine ⟨s.dropWhile (· != newline), List.takeWhile_append_dropWhile.symm, ?_, ?_⟩
  · intro hmem
    exact absurd (List.all_eq_true.1 List.all_takeWhile _ hmem) (by simp)
  · intro b hb
    have hnot := List.head?_dropWhile_not (· != newline) s
    rw [Option.mem_def.1 hb] at hnot
    simpa using hnot

theorem firstLine_append {x below : Bytes} (hx : newline ∉ x) (hb : Below below) :
    firstLine (x ++ below) = x := by
  have hline : ∀ b ∈ x, (b != newline) = true := by
    intro b hmem
    rw [bne_iff_ne]
    rintro rfl
    exact hx hmem
  unfold firstLine
  rw [List.takeWhile_append_of_pos hline]
  cases below with
  | nil => exact List.append_nil x
  | cons b below =>
    obtain rfl := hb b rfl
    rw [List.takeWhile_cons_of_neg (by simp), List.append_nil]

theorem firstLine_of_mem {x : Bytes} (hx : newline ∈ x) (more : Bytes) :
    firstLine (x ++ more) = firstLine x := by
  obtain ⟨below, hsplit, hline, hbelow⟩ := exists_firstLine x
  obtain ⟨b, below, rfl⟩ : ∃ b rest, below = b :: rest := by
    apply List.exists_cons_of_ne_nil
    rintro rfl
    rw [hsplit, List.append_nil] at hx
    exact hline hx
  have hmore : Below (b :: below ++ more) := hbelow
  nth_rewrite 1 [hsplit]
  rw [List.append_assoc, firstLine_append hline hmore]

theorem firstLine_behind {x : Bytes} (hx : newline ∉ x) (more : Bytes) :
    firstLine (x ++ more) = x ++ firstLine more := by
  obtain ⟨below, hsplit, hline, hbelow⟩ := exists_firstLine more
  have hall : newline ∉ x ++ firstLine more := by
    intro hmem
    exact (List.mem_append.1 hmem).elim hx hline
  nth_rewrite 1 [hsplit]
  rw [← List.append_assoc, firstLine_append hall hbelow]

/-- What is found in a document is found on its first line. -/
theorem line_of_next {lexeme : Lexeme} (h : next? modes rest = some hit)
    (hl : hit.label = some lexeme) :
    ∃ x below found, rest = x ++ below ∧ newline ∉ x ∧ Below below ∧
      search (modes.active.rules modes.embedded) none x = some found ∧
      hit = relabel (found.extend below) := by
  obtain ⟨below, hrest, hx, hbelow⟩ := exists_firstLine rest
  unfold next? at h
  rw [hrest, search_rules hx hbelow] at h
  split at h
  · next found hfound =>
    exact ⟨_, below, found, hrest, hx, hbelow, hfound, (Option.some.inj h).symm⟩
  · split at h
    · exact absurd h (by simp)
    · rw [← Option.some.inj h] at hl
      exact absurd hl (by simp)

/-- A line comment starts with slashes and takes the rest of the line, in a script only. -/
theorem comment_of_next (h : next? modes rest = some hit) (hl : hit.label = some .lineComment) :
    (∃ s, modes.active = .script s) ∧ ascii "//" <+: hit.matched ∧
      hit.matched = firstLine (hit.matched ++ hit.rest) ∧ newline ∉ hit.matched := by
  obtain ⟨x, below, found, rfl, hx, hbelow, hfound, rfl⟩ := line_of_next h hl
  have hlabel : found.label = .lineComment := Option.some.inj hl
  obtain ⟨hmode, hrest, hslashes⟩ := ScriptState.rest_of_lineComment hfound hlabel hx
  have hline : newline ∉ found.matched := by
    rw [← (search_split hfound).2, hrest, List.append_nil] at hx
    exact fun hmem => hx (List.mem_append_right _ hmem)
  refine ⟨hmode, hslashes, ?_, hline⟩
  change found.matched = firstLine (found.matched ++ (found.rest ++ below))
  rw [hrest, List.nil_append, firstLine_append hline hbelow]

/-- How much of what is found is taken: a newline, or as much of a lexeme as its mode says. -/
def Takes (modes : ModeStack) (hit : Hit (Option Lexeme)) (n : Nat) : Prop :=
  match hit.label with
  | none => n = 1
  | some lexeme => extent modes lexeme hit.matched = .ok n

theorem Takes.whole {n : Nat} (h : next? modes rest = some hit) (hn : Takes modes hit n)
    (hl : hit.label ≠ some .lineComment) : n = hit.matched.length := by
  unfold Takes at hn
  split at hn
  · next hlabel => rw [hn, newline_of_next h hlabel, List.length_singleton]
  · next lexeme hlabel =>
    unfold extent Mode.extent at hn
    split at hn
    · exact absurd hlabel hl
    · exact (Except.ok.inj hn).symm

section Front
variable {front text : Bytes} {n : Nat}

theorem length_of_next (h : next? modes (front ++ text) = some hit) :
    hit.skipped.length + hit.matched.length + hit.rest.length = front.length + text.length := by
  have hlength := congrArg List.length (search_split h).2
  rw [List.length_append, List.length_append, List.length_append] at hlength
  exact hlength

theorem split_of_next (h : next? modes (front ++ text) = some hit)
    (hin : hit.skipped.length ≤ front.length) :
    ∃ tail, front = hit.skipped ++ tail ∧ hit.matched ++ hit.rest = tail ++ text := by
  have hsplit := (search_split h).2
  rw [List.append_assoc] at hsplit
  have hskipped : hit.skipped <+: front := by
    refine List.prefix_of_prefix_length_le ?_ (List.prefix_append front text) hin
    rw [← hsplit]
    exact List.prefix_append _ _
  obtain ⟨tail, rfl⟩ := hskipped
  rw [List.append_assoc] at hsplit
  exact ⟨tail, rfl, List.append_cancel_left hsplit⟩

/-- The part of a line comment that is taken holds its slashes. -/
theorem slashes_of_taken (h : next? modes (front ++ text) = some hit)
    (hl : hit.label = some .lineComment) (hn : Takes modes hit n) {comment : Bytes}
    (htail : hit.matched ++ hit.rest = comment ++ text) (hin : n ≤ comment.length) :
    ascii "//" <+: comment := by
  obtain ⟨⟨s, hmode⟩, hslashes, -⟩ := comment_of_next h hl
  have hcut : 2 ≤ n := by
    rw [Takes, hl] at hn
    unfold extent at hn
    rw [hmode] at hn
    exact ScriptState.two_le_commentLength hslashes hn
  refine List.prefix_of_prefix_length_le ?_ (List.prefix_append comment text) (hcut.trans hin)
  rw [← htail]
  exact hslashes.trans (List.prefix_append _ _)

/-- In a script, a line comment is found where it starts. -/
theorem search_comment (s : ScriptState) (embedded : Bool) (before : Option UInt8) {comment : Bytes}
    (hline : newline ∉ comment) (hslashes : ascii "//" <+: comment) :
    search (rules (.script s) embedded) before comment =
      some ⟨[], some .lineComment, comment, []⟩ := by
  have hrules : rules (.script s) embedded =
      ((none, .byte newline) :: Rules.template.map fun r => (some r.1, r.2)) ++
        (some .lineComment, ScriptState.lineComment) ::
          (ScriptState.laterRules embedded).map fun r => (some r.1, r.2) := by
    unfold rules
    rw [Mode.rules, ScriptState.rules_eq, List.map_append, List.map_cons]
    rfl
  have hmatch := ScriptState.match?_lineComment hline before
  rw [if_pos hslashes] at hmatch
  obtain ⟨rest, rfl⟩ := hslashes
  have hfront : ∀ r ∈ ((none, .byte newline) :: Rules.template.map fun r => (some r.1, r.2) :
      List (Option Lexeme × Pattern)), r.2.mayStart 47 = false := by
    decide
  have hpick : pick? (rules (.script s) embedded) before (47 :: 47 :: rest) =
      some (some .lineComment, ⟨(ascii "//" ++ rest).reverse, []⟩) := by
    rw [hrules]
    exact pick?_of_match _ _
      (fun r hr => match?_eq_none_of_mayStart (hfront r hr) before (47 :: rest)) hmatch
  have hfound := search_cons_of_some hpick
  rw [List.reverse_reverse] at hfound
  exact hfound

/-- What is taken of the front part of a text is found in it alone, if its lexemes are confined to it.
A line comment is found there too, but not to its end. -/
theorem next_of_confined
    (hc : ∀ r ∈ rules modes.active modes.embedded, r.2.Confined front text)
    (h : next? modes (front ++ text) = some hit) (hn : Takes modes hit n)
    (hin : hit.skipped.length + n ≤ front.length) :
    ∃ found, next? modes front = some found ∧ found.skipped = hit.skipped ∧
      found.label = hit.label ∧ (hit.label ≠ some .lineComment → found.matched = hit.matched) := by
  have hlength := length_of_next h
  by_cases hwithin : text.length ≤ hit.rest.length
  · obtain ⟨found, hfound, rfl⟩ := search_of_confined hc h hwithin
    exact ⟨found, hfound, rfl, rfl, fun _ => rfl⟩
  · have hl : hit.label = some .lineComment := by
      by_contra hl
      have hwhole := hn.whole h hl
      omega
    obtain ⟨⟨s, hmode⟩, hslashes, -, hline⟩ := comment_of_next h hl
    obtain ⟨comment, hfront, htail⟩ := split_of_next h (by omega)
    have hsum : front.length = hit.skipped.length + comment.length := by
      rw [hfront, List.length_append]
    have hcomment : comment <+: hit.matched := by
      refine List.prefix_of_prefix_length_le (List.prefix_append comment text) ?_ (by omega)
      rw [← htail]
      exact List.prefix_append _ _
    have hslashes' := slashes_of_taken h hl hn htail (by omega)
    have hline' : newline ∉ comment := fun hmem => hline (hcomment.subset hmem)
    have hfound := search_skipped hc h hfront
    rw [hmode, search_comment s _ _ hline' hslashes'] at hfound
    refine ⟨_, by rw [next?, hmode, hfound]; rfl, ?_, hl.symm, fun hne => absurd hl hne⟩
    exact List.append_nil _

theorem taken_of_confined {text' : Bytes} {hit' : Hit (Option Lexeme)} {n' : Nat}
    (hc : ∀ r ∈ rules modes.active modes.embedded, r.2.Confined front text)
    (hc' : ∀ r ∈ rules modes.active modes.embedded, r.2.Confined front text')
    (h : next? modes (front ++ text) = some hit) (h' : next? modes (front ++ text') = some hit')
    (hn : Takes modes hit n) (hn' : Takes modes hit' n')
    (hin : hit.skipped.length + n ≤ front.length)
    (hin' : hit'.skipped.length + n' ≤ front.length) :
    hit'.skipped = hit.skipped ∧ hit'.label = hit.label ∧
      (hit.label ≠ some .lineComment → hit'.matched = hit.matched) := by
  obtain ⟨found, hfound, hskipped, hlabel, hmatched⟩ := next_of_confined hc h hn hin
  obtain ⟨found', hfound', hskipped', hlabel', hmatched'⟩ := next_of_confined hc' h' hn' hin'
  obtain rfl := Option.some.inj (hfound.symm.trans hfound')
  refine ⟨hskipped'.symm.trans hskipped, hlabel'.symm.trans hlabel, fun hl => ?_⟩
  rw [← hmatched hl, hmatched' (by rw [← hlabel', hlabel]; exact hl)]

/-- Line comments in front of two texts are cut in the same place. -/
theorem comment_same {text' : Bytes} {hit' : Hit (Option Lexeme)} {n' : Nat}
    (hcut : modes.embedded = true → ∀ comment, front = hit.skipped ++ comment → newline ∉ comment →
      CutAlike comment text text')
    (h : next? modes (front ++ text) = some hit) (h' : next? modes (front ++ text') = some hit')
    (hl : hit.label = some .lineComment) (hl' : hit'.label = some .lineComment)
    (hskipped : hit'.skipped = hit.skipped) (hn : Takes modes hit n) (hn' : Takes modes hit' n')
    (hin : hit.skipped.length + n ≤ front.length)
    (hin' : hit'.skipped.length + n' ≤ front.length) :
    n' = n ∧ hit'.matched.take n = hit.matched.take n := by
  obtain ⟨⟨s, hmode⟩, -, hmatched, -⟩ := comment_of_next h hl
  obtain ⟨-, -, hmatched', -⟩ := comment_of_next h' hl'
  obtain ⟨comment, rfl, htail⟩ := split_of_next h (by omega)
  obtain ⟨comment', hfront, htail'⟩ := split_of_next h' (by omega)
  rw [hskipped] at hfront hin'
  obtain rfl := List.append_cancel_left hfront
  rw [List.length_append] at hin hin'
  rw [htail] at hmatched
  rw [htail'] at hmatched'
  rw [Takes, hl] at hn
  rw [Takes, hl'] at hn'
  unfold extent at hn hn'
  rw [hmode] at hn hn'
  change ScriptState.commentLength modes.embedded _ = _ at hn hn'
  by_cases hnewline : newline ∈ comment
  · have hsame : hit'.matched = hit.matched := by
      rw [hmatched, hmatched', firstLine_of_mem hnewline, firstLine_of_mem hnewline]
    rw [hsame, hn] at hn'
    exact ⟨(Except.ok.inj hn').symm, by rw [hsame]⟩
  · rw [firstLine_behind hnewline] at hmatched hmatched'
    have hcut : n' = n := by
      rw [hmatched] at hn
      rw [hmatched'] at hn'
      cases hembedded : modes.embedded with
      | false =>
        rw [hembedded] at hn hn'
        have hlength := Except.ok.inj hn
        have hlength' := Except.ok.inj hn'
        rw [List.length_append] at hlength hlength'
        omega
      | true =>
        rw [hembedded] at hn hn'
        have halike := hcut hembedded comment rfl hnewline
        rcases Nat.lt_or_ge n comment.length with hlt | hge
        · rw [(halike n hlt).1 hn] at hn'
          exact (Except.ok.inj hn').symm
        · rcases Nat.lt_or_ge n' comment.length with hlt | hge'
          · rw [(halike n' hlt).2 hn'] at hn
            exact Except.ok.inj hn
          · omega
    refine ⟨hcut, ?_⟩
    rw [hmatched, hmatched', List.take_append_of_le_length (by omega),
      List.take_append_of_le_length (by omega)]

/-- Two texts behind an edge, and what is taken in front of it with one of them and with the other. -/
theorem taken_same {text' : Bytes} {hit' : Hit (Option Lexeme)} {n' : Nat} (he : Edge front text)
    (he' : Edge front text')
    (hcut : hit.label = some .lineComment → modes.embedded = true →
      ∀ comment, front = hit.skipped ++ comment → newline ∉ comment → CutAlike comment text text')
    (h : next? modes (front ++ text) = some hit) (h' : next? modes (front ++ text') = some hit')
    (hn : Takes modes hit n) (hn' : Takes modes hit' n')
    (hin : hit.skipped.length + n ≤ front.length) (hin' : hit'.skipped.length + n' ≤ front.length)
    (hv : modes.active.isVerbatim = true → hit.skipped.length + n < front.length ∧
      hit'.skipped.length + n' < front.length) :
    hit'.skipped = hit.skipped ∧ hit'.label = hit.label ∧ n' = n ∧
      hit'.matched.take n = hit.matched.take n := by
  have hsame : hit'.skipped = hit.skipped ∧ hit'.label = hit.label ∧
      (hit.label ≠ some .lineComment → hit'.matched = hit.matched) := by
    by_cases hmark : ∃ c, front.getLast? = some c ∧ Region.isMark c = true
    · obtain ⟨c, hlast, hc⟩ := hmark
      cases hverbatim : modes.active.isVerbatim with
      | false =>
        exact taken_of_confined (Mode.confined_of_mark hverbatim _ hlast hc text)
          (Mode.confined_of_mark hverbatim _ hlast hc text') h h' hn hn' hin hin'
      | true =>
        obtain ⟨region, hregion⟩ := Mode.isVerbatim_iff.1 hverbatim
        obtain ⟨hlt, hlt'⟩ := hv hverbatim
        obtain ⟨inner, rfl⟩ := List.getLast?_eq_some_iff.1 hlast
        rw [List.length_append, List.length_singleton] at hlt hlt'
        rw [List.append_assoc] at h h'
        refine taken_of_confined ?_ ?_ h h' hn hn' (by omega) (by omega)
        · rw [hregion]
          exact Mode.confined_region region _ hc inner text
        · rw [hregion]
          exact Mode.confined_region region _ hc inner text'
    · exact taken_of_confined (Mode.confined_of_below _ _ (he.resolve_left hmark) front)
        (Mode.confined_of_below _ _ (he'.resolve_left hmark) front) h h' hn hn' hin hin'
  obtain ⟨hskipped, hlabel, hmatched⟩ := hsame
  refine ⟨hskipped, hlabel, ?_⟩
  by_cases hl : hit.label = some .lineComment
  · exact comment_same (hcut hl) h h' hl (hlabel.trans hl) hskipped hn hn' hin hin'
  · have hwhole := hn.whole h hl
    have hwhole' := hn'.whole h' (by rw [hlabel]; exact hl)
    rw [hmatched hl] at hwhole' ⊢
    exact ⟨hwhole'.trans hwhole.symm, rfl⟩

end Front

end Scan.Whole
end Reindent
