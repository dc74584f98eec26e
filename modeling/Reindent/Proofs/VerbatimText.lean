import Reindent.Proofs.Reindentation
import Reindent.Proofs.Scan.RegionStarts

/-! What becomes of verbatim text. A line that starts in a region comes out as it is. The line on which
a region starts keeps the verbatim text at its end, but for white space behind it, which is lost. -/
namespace Reindent
open Bytes Pattern Text

namespace Text
variable {s t : Bytes} {b : UInt8}

def endsBlank (s : Bytes) : Bool := (Utf8.decode s).getLast?.any blank

theorem exists_blank_of_endsBlank (h : endsBlank s = true) :
    ∃ front x, s = front ++ x ∧ x ≠ [] ∧ allBlank x = true := by
  have hne : Utf8.decode s ≠ [] := by
    intro hnil
    rw [endsBlank, hnil] at h
    exact absurd h (by simp)
  have hsplit := (List.dropLast_append_getLast hne).symm
  have hblank : blank ((Utf8.decode s).getLast hne) = true := by
    rw [endsBlank, List.getLast?_eq_getLast_of_ne_nil hne] at h
    exact h
  have hdecode := (Utf8.decode_encode_of_eq_append hsplit).2
  refine ⟨Utf8.encode (Utf8.decode s).dropLast, Utf8.encode [(Utf8.decode s).getLast hne],
    ?_, ?_, ?_⟩
  · conv_lhs => rw [← Utf8.encode_decode s, hsplit]
    exact List.flatMap_append
  · intro hnil
    rw [hnil] at hdecode
    exact absurd hdecode (by simp)
  · rw [allBlank_iff, hdecode]
    simpa using hblank

theorem endsBlank_append (ht : t ≠ []) (h : Utf8.decode (s ++ t) = Utf8.decode s ++ Utf8.decode t) :
    endsBlank (s ++ t) = endsBlank t := by
  have hne : Utf8.decode t ≠ [] := by
    intro hnil
    apply ht
    rw [← Utf8.encode_decode t, hnil]
    rfl
  rw [endsBlank, h, List.getLast?_append_of_ne_nil _ hne]
  rfl

theorem endsBlank_of_suffix (h : s <:+ t) (hs : endsBlank s = true) : endsBlank t = true := by
  obtain ⟨front, rfl⟩ := h
  obtain ⟨start, x, rfl, hx, hblank⟩ := exists_blank_of_endsBlank hs
  have hlast : ∀ front, endsBlank (front ++ x) = endsBlank x :=
    fun front => endsBlank_append hx (decode_append_allBlank hblank)
  rw [hlast] at hs
  rw [← List.append_assoc, hlast]
  exact hs

theorem endsBlank_of_allBlank (hs : s ≠ []) (h : allBlank s = true) : endsBlank s = true := by
  have hne : Utf8.decode s ≠ [] := by
    intro hnil
    apply hs
    rw [← Utf8.encode_decode s, hnil]
    rfl
  rw [endsBlank, List.getLast?_eq_getLast_of_ne_nil hne]
  exact allBlank_iff.1 h _ (List.getLast_mem hne)

theorem endsBlank_trim (s : Bytes) : endsBlank (trim s) = false := by
  rw [endsBlank, decode_trim, strip, List.getLast?_reverse]
  have hhead := List.head?_dropWhile_not blank ((Utf8.decode s).dropWhile blank).reverse
  cases hx : (((Utf8.decode s).dropWhile blank).reverse.dropWhile blank).head? with
  | none => rfl
  | some x =>
    rw [hx] at hhead
    simpa using hhead

theorem decode_append_of_ascii (hb : b < 0x80) (front t : Bytes) :
    Utf8.decode (front ++ [b] ++ t) = Utf8.decode (front ++ [b]) ++ Utf8.decode t := by
  have hsplit : ∀ t, Utf8.decode (front ++ b :: t) =
      Utf8.decode front ++ .char (Char.ofNat b.toNat) :: Utf8.decode t := by
    intro t
    rw [Utf8.decode_append_of_head (by simpa using isTail_of_ascii hb), Utf8.decode_cons,
      first_ascii t hb]
    rfl
  rw [List.append_assoc, List.singleton_append, hsplit, hsplit, Utf8.decode_nil, List.append_assoc]
  rfl

/-- Behind a visible byte, a text that does not end with white space is not trimmed. -/
theorem suffix_trim (front : Bytes) (hb : b < 0x80) (hv : isInert b = false)
    (ht : endsBlank t = false) : t <:+ trim (front ++ [b] ++ t) := by
  by_cases hnil : t = []
  · rw [hnil]
    exact List.nil_suffix
  obtain ⟨lead, trail, hsplit, hlead, htrail⟩ := exists_eq_append_trim (front ++ [b] ++ t)
  have hends : endsBlank (front ++ [b] ++ t) = false := by
    rw [endsBlank_append hnil (decode_append_of_ascii hb front t)]
    exact ht
  have hwhole : trail = [] := by
    by_contra hne
    rw [hsplit, endsBlank_of_suffix (List.suffix_append _ _)
      (endsBlank_of_allBlank hne htrail)] at hends
    exact absurd hends (by simp)
  rw [hwhole, List.append_nil] at hsplit
  rcases List.append_eq_append_iff.1 hsplit with ⟨v, hv', -⟩ | ⟨v, -, hv'⟩
  · have hmem : b ∈ lead := by
      rw [hv']
      simp
    exact absurd ((isInert_of_allBlank hlead hmem).symm.trans hv) (by simp)
  · rw [hv']
    exact List.suffix_append v t

end Text

namespace Line

def endsVerbatim (l : Line) : Bool := l.tokens.getLast?.any Token.ignore

def verbatimEnd (l : Line) : Bytes :=
  (l.tokens.reverse.takeWhile Token.ignore).reverse.flatMap Token.text

def lastPlain? (l : Line) : Option Token := l.tokens.reverse.find? (!·.ignore)

theorem endsVerbatim_append (l : Line) (t : Token) : (l.append t).endsVerbatim = t.ignore := by
  simp [endsVerbatim, append]

theorem lastPlain?_append (l : Line) (t : Token) :
    (l.append t).lastPlain? = if t.ignore then l.lastPlain? else some (t.numbered l.number) := by
  unfold lastPlain? append
  rw [List.reverse_append, List.reverse_singleton, List.singleton_append]
  split_ifs with ht
  · exact List.find?_cons_of_neg (by simpa using ht)
  · exact List.find?_cons_of_pos (by simpa using ht)

theorem raw_of_lastPlain {l : Line} {t : Token} (h : l.lastPlain? = some t) :
    ∃ front, l.raw = front ++ t.text ++ l.verbatimEnd := by
  unfold lastPlain? at h
  rw [List.find?_not_eq_head?_dropWhile] at h
  obtain ⟨rest, hrest⟩ := List.head?_eq_some_iff.1 h
  have htokens : l.tokens =
      rest.reverse ++ [t] ++ (l.tokens.reverse.takeWhile Token.ignore).reverse := by
    apply List.reverse_injective
    rw [List.reverse_append, List.reverse_append, List.reverse_reverse, List.reverse_reverse,
      List.reverse_singleton, List.singleton_append, ← hrest, List.takeWhile_append_dropWhile]
  refine ⟨rest.reverse.flatMap Token.text, ?_⟩
  conv_lhs => rw [raw, htokens]
  rw [List.flatMap_append, List.flatMap_append, List.flatMap_singleton]
  rfl

theorem verbatimEnd_suffix (l : Line) : l.verbatimEnd <:+ l.raw := by
  have hend : (l.tokens.reverse.takeWhile Token.ignore).reverse <:+ l.tokens := by
    have hprefix := List.reverse_suffix.2 (l.tokens.reverse.takeWhile_prefix Token.ignore)
    rw [List.reverse_reverse] at hprefix
    exact hprefix
  obtain ⟨front, hfront⟩ := hend
  refine ⟨front.flatMap Token.text, ?_⟩
  rw [verbatimEnd, ← List.flatMap_append, hfront]
  rfl

theorem exists_lastPlain {l : Line} (hs : l.startsVerbatim = false) (he : l.endsVerbatim = true) :
    ∃ t, l.lastPlain? = some t := by
  unfold startsVerbatim at hs
  unfold endsVerbatim at he
  cases hl : l.tokens with
  | nil =>
    rw [hl] at he
    exact absurd he (by simp)
  | cons t rest =>
    rw [hl] at hs
    apply Option.isSome_iff_exists.1
    rw [lastPlain?, List.find?_isSome]
    refine ⟨t, by simp [hl], ?_⟩
    simpa using hs

/-- The last token that is not verbatim ends with a mark. -/
def Sealed (l : Line) : Prop :=
  ∀ t, l.lastPlain? = some t → ∃ b, t.text.getLast? = some b ∧ Region.isMark b = true

theorem Sealed.append {l : Line} {t : Token} (h : l.Sealed) (ht : t.ignore = true) :
    (l.append t).Sealed := by
  unfold Sealed
  rw [lastPlain?_append, if_pos ht]
  exact h

/-- The line ends with verbatim text, or the rest of it starts with such text. -/
def Continues (l : Line) (active : Mode) (rest : Bytes) : Prop :=
  l.endsVerbatim = true ∨ active.isVerbatim = true ∧ rest ≠ []

end Line

namespace Scan
variable {settings : Settings} {below rest rest' : Bytes} {state state' : State}
  {line line' : Line} {start : ModeName}

/-- Verbatim text on the line so far stands behind a mark. -/
def Tight (state : State) (line : Line) (rest : Bytes) : Prop :=
  line.Continues state.modes.active rest → line.Sealed

theorem tight_readGap (settings : Settings) {text : Bytes} (h : Tight state line (text ++ rest))
    (more : Bytes) :
    Tight (readGap settings state line text more).2 (readGap settings state line text more).1
      rest := by
  intro hcont
  have hverbatim := isVerbatim_readGap settings state line text more
  unfold Line.Continues at hcont
  rw [hverbatim] at hcont
  unfold readGap at hcont ⊢
  split_ifs at hcont ⊢ with hempty
  · rw [List.isEmpty_iff.1 hempty, List.nil_append] at h
    exact h hcont
  · have hne : text ++ rest ≠ [] := by
      intro hnil
      exact hempty (List.isEmpty_iff.2 (List.append_eq_nil_iff.1 hnil).1)
    have hignore := Mode.ignore_readText ⟨settings.tabWidth, line, more⟩ state.modes.active text
    dsimp only at hcont ⊢
    rw [Line.endsVerbatim_append, hignore] at hcont
    have hactive : state.modes.active.isVerbatim = true := hcont.elim id And.left
    exact Line.Sealed.append (h (Or.inr ⟨hactive, hne⟩)) (hignore.trans hactive)

theorem tight_readLexeme (h : Tight state line rest) (hf : state.modes.Formed start)
    {hit : Hit Lexeme} {s : Bytes} {before : Option UInt8} {n : Nat}
    (hs : search (state.modes.active.rules state.modes.embedded) before s = some hit)
    (hline : newline ∉ s) (hrest : rest ≠ [])
    (hn : state.modes.active.extent state.modes.embedded hit.label hit.matched = .ok n)
    (sight : Sight) :
    let read := readLexeme settings below state sight hit.label (hit.matched.take n)
    Tight read.2 (line.append read.1) (hit.matched.drop n ++ hit.rest) := by
  intro read hcont
  have hignore : read.1.ignore = state.modes.active.isVerbatim :=
    ignore_readLexeme _ _ (isVerbatim_of_isTemplate (label_mem_of_search hs))
  unfold Line.Continues at hcont
  rw [Line.endsVerbatim_append, hignore] at hcont
  cases hactive : state.modes.active.isVerbatim with
  | true => exact Line.Sealed.append (h (Or.inr ⟨hactive, hrest⟩)) (hignore.trans hactive)
  | false =>
    rw [hactive] at hcont hignore
    obtain ⟨hinto, hmore⟩ := hcont.resolve_left (by simp)
    obtain hnone | ⟨b, hlast, hb⟩ := mark_of_readLexeme hf hactive hs hline hn sight hinto
    · exact absurd hnone hmore
    · intro t ht
      rw [Line.lastPlain?_append, if_neg (by simp [hignore])] at ht
      have htext : read.1.text = hit.matched.take n := text_readLexeme _ _ _ _ _ _
      obtain rfl := Option.some.inj ht
      exact ⟨b, (congrArg List.getLast? htext).trans hlast, hb⟩

theorem Tight.step (h : Tight state line rest) (hf : state.modes.Formed start)
    (hline : newline ∉ rest)
    (hs : step settings below state line rest = .next state' line' rest') :
    Tight state' line' rest' := by
  simp only [Scan.step] at hs
  split at hs
  · exact absurd hs (by simp)
  · next hit hit? =>
    split at hs
    · exact absurd hs (by simp)
    · next n hn =>
      obtain ⟨rfl, rfl, rfl⟩ := Step.next.inj hs
      obtain ⟨hne, hsplit⟩ := search_split hit?
      rw [List.append_assoc] at hsplit
      have hgap := tight_readGap settings (by rw [hsplit]; exact h) (hit.matched ++ hit.rest)
      rw [← rules_readGap settings state line hit.skipped (hit.matched ++ hit.rest),
        ← embedded_readGap settings state line hit.skipped (hit.matched ++ hit.rest)] at hit?
      exact tight_readLexeme hgap (formed_readGap hf _ _) hit? hline (by simp [hne]) hn _

theorem Tight.finished (h : Tight state line rest)
    (hs : Scan.step settings below state line rest = .finished state' line') :
    Tight state' line' [] := by
  simp only [Scan.step] at hs
  split at hs
  · obtain ⟨rfl, rfl⟩ := Step.finished.inj hs
    exact tight_readGap settings (by rw [List.append_nil]; exact h) []
  · split at hs
    · exact absurd hs (by simp)
    · exact absurd hs (by simp)

theorem Tight.readLine (h : Tight state line rest) (hf : state.modes.Formed start)
    (hline : newline ∉ rest)
    (hr : readLine settings below state line rest = (state', .ok line')) :
    Tight state' line' [] := by
  induction hn : rest.length using Nat.strongRecOn generalizing state line rest with
  | _ n ih =>
    cases hs : Scan.step settings below state line rest with
    | finished state₁ line₁ =>
      rw [readLine_of_finished hs] at hr
      obtain ⟨rfl, hl⟩ := Prod.mk.inj hr
      obtain rfl := Except.ok.inj hl
      exact h.finished hs
    | failed state₁ overrun =>
      rw [readLine_of_failed hs] at hr
      exact absurd (Prod.mk.inj hr).2 (by simp)
    | next state₁ line₁ rest₁ =>
      rw [readLine_of_next hs] at hr
      have hlt := length_lt_of_step hs
      have hrest : newline ∉ rest₁ := by
        obtain ⟨w, -, rfl⟩ := step_grows hs
        exact fun hmem => hline (List.mem_append_right w hmem)
      exact ih rest₁.length (by omega) (h.step hf hline hs) (formed_step hf hs) hrest hr rfl

theorem sealed_readLines {number : Int64} {texts : List (Bytes × Bytes)} {lines : List Line}
    (hf : state.modes.Formed start) (htexts : ∀ p ∈ texts, newline ∉ p.1)
    (h : readLines settings state number texts = (state', .ok lines)) :
    ∀ l ∈ lines, l.endsVerbatim = true → l.Sealed := by
  induction texts generalizing state number lines with
  | nil =>
    obtain ⟨-, hl⟩ := Prod.mk.inj h
    rw [← Except.ok.inj hl]
    simp
  | cons p texts ih =>
    obtain ⟨text, below⟩ := p
    rw [readLines_cons] at h
    split at h
    · exact absurd (Prod.mk.inj h).2 (by simp)
    · next state₁ line hread =>
      split at h
      · exact absurd (Prod.mk.inj h).2 (by simp)
      · next state₂ rest hrest =>
        obtain ⟨rfl, hl⟩ := Prod.mk.inj h
        obtain rfl := Except.ok.inj hl
        have hfirst : Tight state { number } text := fun _ t ht => absurd ht (by simp [Line.lastPlain?])
        have hline := hfirst.readLine hf (htexts _ List.mem_cons_self) hread
        have hformed : state₁.modes.Formed start := by
          have hnext : (readLine settings below state { number } text).1.modes.Formed start :=
            formed_readLine hf
          rw [hread] at hnext
          exact hnext
        intro l hmem hends
        rcases List.mem_cons.1 hmem with rfl | hmem
        · exact hline (Or.inl hends)
        · exact ih hformed (fun p hp => htexts p (List.mem_cons_of_mem _ hp)) hrest l hmem hends

/-- In a document, the text in front of verbatim text at the end of a line ends with a mark. -/
theorem sealed_tokenize {modes : ModeStack} (hf : modes.Formed start) {source : Bytes}
    {lines : List Line} (h : tokenize settings modes source = .ok lines) :
    ∀ l ∈ lines, l.endsVerbatim = true → l.Sealed := by
  refine sealed_readLines hf (fun p hp => ?_) (Prod.ext rfl h)
  have hline : p.1 ∈ Bytes.lines source := by
    rw [← map_fst_linesBelow]
    exact List.mem_map_of_mem hp
  exact newline_notMem_of_mem_lines hline

end Scan

namespace Line

/-- A line that is not verbatim comes out without the white space around it, behind its margin. -/
theorem indent_of_ignore {l : Line} (h : l.ignore = false) (width : Int64) :
    ∃ margin, l.indent width = margin ++ trim l.raw ∧ allBlank margin = true ∧
      (trim l.raw = [] → margin = []) := by
  unfold indent
  rw [if_neg (by simp [h])]
  split_ifs with hempty
  · exact ⟨[], rfl, rfl, fun _ => rfl⟩
  · refine ⟨_, rfl, allBlank_replicate _, fun hnil => ?_⟩
    exact absurd (Or.inl (List.isEmpty_iff.2 hnil)) hempty

/-- What comes out of a line: the whole of it, if it starts verbatim, and otherwise the verbatim text
at its end exactly if that text does not end with white space. -/
structure Kept (l : Line) (out : Bytes) : Prop where
  whole : l.startsVerbatim = true → out = l.raw
  finish : l.endsVerbatim = true →
    (l.verbatimEnd <:+ out ↔ l.startsVerbatim = true ∨ endsBlank l.verbatimEnd = false)

theorem kept_indent {l placed : Line} (h : Scope.Placed l placed)
    (hsealed : l.endsVerbatim = true → l.Sealed) (width : Int64) :
    l.Kept (placed.indent width) := by
  have hwhole : l.startsVerbatim = true → placed.indent width = l.raw := by
    intro hstarts
    unfold indent
    rw [if_pos (h.ignore.trans hstarts), h.raw]
  refine ⟨hwhole, fun hends => ?_⟩
  cases hstarts : l.startsVerbatim with
  | true =>
    rw [hwhole hstarts]
    exact iff_of_true l.verbatimEnd_suffix (Or.inl rfl)
  | false =>
    obtain ⟨margin, hindent, hblank, hnil⟩ := indent_of_ignore (h.ignore.trans hstarts) width
    rw [h.raw] at hindent hnil
    rw [hindent]
    constructor
    · intro hsuffix
      right
      by_contra hblank'
      have hlast := endsBlank_of_suffix hsuffix (by simpa using hblank')
      by_cases htrim : trim l.raw = []
      · rw [htrim, hnil htrim] at hlast
        exact absurd hlast (by simp [endsBlank])
      · rw [endsBlank_append htrim (decode_append_of_allBlank hblank), endsBlank_trim] at hlast
        exact absurd hlast (by simp)
    · intro hvisible
      obtain ⟨t, ht⟩ := exists_lastPlain hstarts hends
      obtain ⟨front, hraw⟩ := raw_of_lastPlain ht
      obtain ⟨b, hb, hmark⟩ := hsealed hends t ht
      obtain ⟨hascii, hinert, -, -⟩ := Region.isMark_visible hmark
      obtain ⟨text, htext⟩ := List.getLast?_eq_some_iff.1 hb
      rw [hraw, htext, ← List.append_assoc]
      have htail := suffix_trim (front ++ text) hascii hinert (hvisible.resolve_left (by simp))
      exact htail.trans (List.suffix_append margin _)

end Line

namespace Formatter

/-- In a document that comes out, every line is kept up to white space behind verbatim text on the line
where a region starts. -/
theorem verbatim_kept (f : Formatter) {source out : Bytes} (h : f.indent source = .ok out) :
    ∃ lines, tokenize { tabWidth := f.tabWidth, blocks := f.blocks } f.language.start source =
        .ok lines ∧ List.Forall₂ Line.Kept lines (Bytes.lines out) := by
  obtain ⟨placed, hraw, hlines, hout⟩ := lines_of_indent h
  unfold Formatter.lines at hlines
  split_ifs at hlines
  obtain ⟨read, hread, hassign⟩ := parse_eq_ok_iff.1 hlines
  refine ⟨read, hread, ?_⟩
  rw [lines_indent hraw hout, List.forall₂_map_right_iff]
  have hsealed := Scan.sealed_tokenize f.language.formed_start hread
  have hplaced := Scope.placed_of_assign hassign
  rw [List.forall₂_iff_zip] at hplaced ⊢
  refine ⟨hplaced.1, fun {l placed} hmem => ?_⟩
  exact Line.kept_indent (hplaced.2 hmem) (hsealed l (List.of_mem_zip hmem).1) f.tabWidth

/-- A comment that starts behind a word and goes on over lines with white space around them. -/
theorem verbatim_kept_comment :
    ∃ lines, tokenize {} Language.html.start (ascii " a <!-- b\n  c \n d --> e ") = .ok lines ∧
      List.Forall₂ Line.Kept lines [ascii "a <!-- b", ascii "  c ", ascii " d --> e "] := by
  have hout : ({} : Formatter).indent (ascii " a <!-- b\n  c \n d --> e ") =
      .ok (ascii "a <!-- b\n  c \n d --> e ") := by
    decide +kernel
  have hlines : Bytes.lines (ascii "a <!-- b\n  c \n d --> e ") =
      [ascii "a <!-- b", ascii "  c ", ascii " d --> e "] := by
    decide
  rw [← hlines]
  exact verbatim_kept {} hout

/-- White space behind preformatted text is lost on the line of the tag in front of it. -/
theorem verbatim_kept_blankEnd :
    ({} : Formatter).indent (ascii "<pre>a  \nb</pre>") = .ok (ascii "<pre>a\nb</pre>") ∧
    ∃ l more, tokenize {} Language.html.start (ascii "<pre>a  \nb</pre>") = .ok (l :: more) ∧
      l.endsVerbatim = true ∧ ¬ l.verbatimEnd <:+ ascii "<pre>a" := by
  have hread : (tokenize {} Language.html.start (ascii "<pre>a  \nb</pre>")).toOption.any
      (·.head?.any fun l => l.endsVerbatim && l.verbatimEnd == ascii "a  ") = true := by
    decide +kernel
  refine ⟨by decide +kernel, ?_⟩
  cases h : tokenize {} Language.html.start (ascii "<pre>a  \nb</pre>") with
  | error overrun =>
    rw [h] at hread
    exact absurd hread (by simp [Except.toOption])
  | ok lines =>
    rw [h] at hread
    cases lines with
    | nil => exact absurd hread (by simp [Except.toOption])
    | cons l more =>
      have hend : (l.endsVerbatim && l.verbatimEnd == ascii "a  ") = true := hread
      rw [Bool.and_eq_true, beq_iff_eq] at hend
      refine ⟨l, more, rfl, hend.1, ?_⟩
      rw [hend.2]
      decide

end Formatter
end Reindent
