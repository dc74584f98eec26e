import Reindent.Proofs.Brackets.Frames
import Reindent.Proofs.Scan.LineRuns

/-! The words that tell about switch statements. A token outside verbatim text that is spelled like one
of them was read as that word: the text between lexemes is never one of them. -/
namespace Reindent
open Bytes Pattern

namespace Pattern
variable {before : Option UInt8} {s e : Span}

def wholeWord (p : Pattern) : Pattern := .wordEdge ++ p ++ .wordEdge

theorem mem_of_mem_wholeWord {p : Pattern} (h : e ∈ (wholeWord p).ends before s) :
    e ∈ p.ends before s := by
  have hedge : ∀ {s e : Span}, e ∈ Pattern.wordEdge.ends before s → e = s := by
    intro s e he
    rw [ends] at he
    split_ifs at he
    · exact List.mem_singleton.1 he
    · exact absurd he (by simp)
  obtain ⟨m, hm, he⟩ := List.mem_flatMap.1 h
  obtain ⟨m', hm', hm⟩ := List.mem_flatMap.1 hm
  rw [hedge he]
  rw [hedge hm'] at hm
  exact hm

theorem fails_wholeWord {p : Pattern} {last b : UInt8} (hlast : isWord last = true)
    (hb : isWord b = true) (rest : Bytes) : Fails (some last) (wholeWord p) ⟨[], b :: rest⟩ := by
  have hedge : Fails (some last) .wordEdge ⟨[], b :: rest⟩ := by
    simp [Fails, ends, atEdge, hlast, hb]
  exact hedge.seq.seq

theorem isSome_match?_wholeWord {p : Pattern} {w rest : Bytes}
    (h : (⟨w.reverse ++ [], rest⟩ : Span) ∈ p.ends none ⟨[], w ++ rest⟩) (hne : w ≠ [])
    (hw : ∀ b ∈ w, isWord b = true) (hrest : ∀ b ∈ rest.head?, isWord b = false) :
    ((wholeWord p).match? none (w ++ rest)).isSome = true := by
  obtain ⟨b, tail, rfl⟩ := List.exists_cons_of_ne_nil hne
  have hstart : (⟨[], b :: tail ++ rest⟩ : Span) ∈
      Pattern.wordEdge.ends none ⟨[], b :: tail ++ rest⟩ := by
    simp [ends, atEdge, hw b List.mem_cons_self]
  have hend : (⟨(b :: tail).reverse ++ [], rest⟩ : Span) ∈
      Pattern.wordEdge.ends none ⟨(b :: tail).reverse ++ [], rest⟩ := by
    obtain ⟨last, hlast⟩ : ∃ last, (b :: tail).getLast? = some last :=
      Option.isSome_iff_exists.1 (by simp)
    have hword : isWord last = true := hw last (List.mem_of_getLast? hlast)
    have hhead : ((b :: tail).reverse ++ []).head? = some last := by
      rw [List.append_nil, List.head?_reverse, hlast]
    have hnext : rest.head?.any isWord = false := by
      cases rest with
      | nil => rfl
      | cons c rest => exact hrest c rfl
    rw [ends]
    dsimp only
    rw [hhead, Option.some_or, atEdge, hnext, Option.any_some, hword]
    exact List.mem_singleton.2 rfl
  exact isSome_match?_of_mem (mem_ends_seq (mem_ends_seq hstart h) hend) (by simp)

end Pattern

def labelWords : List Bytes := ["case", "default"].map ascii

/-- The words that tell about switch statements. -/
def switchWords : List Bytes := ascii "switch" :: labelWords

namespace Token

def isSwitch (t : Token) : Bool := !t.ignore && t.text == ascii "switch"

def isLabel (t : Token) : Bool := !t.ignore && labelWords.contains t.text

def opensBrace (t : Token) : Bool := !t.ignore && t.text == ascii "\x7b"

end Token

/-- Which words the text of a lexeme may be. -/
def Lexeme.Says (text : Bytes) : Lexeme → Prop
  | .switchWord => text = ascii "switch"
  | .caseWord => text ∈ labelWords
  | _ => text ∉ switchWords

theorem Lexeme.Says.notMem {text : Bytes} {lexeme : Lexeme} (h : lexeme.Says text)
    (hs : lexeme ≠ .switchWord) (hc : lexeme ≠ .caseWord) : text ∉ switchWords := by
  cases lexeme with
  | switchWord => exact absurd rfl hs
  | caseWord => exact absurd rfl hc
  | _ => exact h

namespace ScriptState

private theorem eq_of_mem_rules {lexeme : Lexeme} {p : Pattern} (hr : (lexeme, p) ∈ rules false) :
    (lexeme = .switchWord → p = wholeWord (.literal "switch")) ∧
      (lexeme = .caseWord → p = wholeWord (.either (.literal "case") (.literal "default"))) := by
  constructor
  · rintro rfl
    simpa [rules, Rules.template, comments, Rules.strings, Rules.brackets, backtick, words,
      wholeWord] using hr
  · rintro rfl
    simpa [rules, Rules.template, comments, Rules.strings, Rules.brackets, backtick, words,
      wholeWord] using hr

theorem says_of_match {lexeme : Lexeme} {p : Pattern} {before : Option UInt8}
    {matched rest : Bytes} (hr : (lexeme, p) ∈ rules false)
    (h : p.match? before (matched ++ rest) = some ⟨matched.reverse, rest⟩) :
    lexeme.Says matched := by
  have hends := List.mem_of_find?_eq_some h
  have hwhole : ∀ {w : Bytes}, (⟨matched.reverse, rest⟩ : Span) ∈ (word w).ends before
      ⟨[], matched ++ rest⟩ → matched = w := by
    intro w he
    simpa using (mem_ends_word_iff.1 he).1
  have hother : ∀ r ∈ rules false, r.1 ≠ .switchWord → r.1 ≠ .caseWord →
      ∀ text ∈ switchWords, ∀ b ∈ text.head?, r.2.mayStart b = false := by
    decide +kernel
  have hno : lexeme ≠ .switchWord → lexeme ≠ .caseWord → matched ∉ switchWords := by
    intro hs hc hmem
    obtain ⟨b, more, rfl, hstart⟩ := exists_head_of_match? h
    rw [hother _ hr hs hc _ hmem b rfl] at hstart
    exact absurd hstart Bool.false_ne_true
  cases lexeme with
  | switchWord =>
    rw [(eq_of_mem_rules hr).1 rfl] at hends
    exact hwhole (mem_of_mem_wholeWord hends)
  | caseWord =>
    rw [(eq_of_mem_rules hr).2 rfl] at hends
    change matched ∈ labelWords
    rcases List.mem_append.1 (mem_of_mem_wholeWord hends) with he | he
    · rw [hwhole he]
      decide
    · rw [hwhole he]
      decide
  | _ => exact hno (by simp) (by simp)

private theorem exists_rule {text : Bytes} (h : text ∈ switchWords) (rest : Bytes) :
    ∃ lexeme p, (lexeme, wholeWord p) ∈ rules false ∧
      (⟨text.reverse ++ [], rest⟩ : Span) ∈ p.ends none ⟨[], text ++ rest⟩ := by
  have hrules : ∀ r ∈ words, r ∈ rules false :=
    fun r hr => List.mem_append_left _ (List.mem_append_right _ hr)
  have hword : ∀ w : Bytes, (⟨w.reverse ++ [], rest⟩ : Span) ∈ (word w).ends none ⟨[], w ++ rest⟩ :=
    fun w => (prefers_word w).mem
  simp only [switchWords, labelWords, List.map_cons, List.map_nil, List.mem_cons,
    List.not_mem_nil, or_false] at h
  rcases h with rfl | rfl | rfl
  · exact ⟨.switchWord, .literal "switch", hrules _ (by simp [words, wholeWord]), hword _⟩
  · exact ⟨.caseWord, .either (.literal "case") (.literal "default"),
      hrules _ (by simp [words, wholeWord]), mem_ends_eitherLeft (hword _)⟩
  · exact ⟨.caseWord, .either (.literal "case") (.literal "default"),
      hrules _ (by simp [words, wholeWord]), mem_ends_eitherRight (hword _)⟩

/-- The only lexemes that start like a word are whole words. -/
private theorem wholeWord_of_mayStart {lexeme : Lexeme} {p : Pattern}
    (hr : (lexeme, p) ∈ rules false) {b : UInt8} (hb : isWord b = true)
    (hstart : p.mayStart b = true) : ∃ q, p = wholeWord q := by
  have hall : ∀ n < 256, isWord (UInt8.ofNat n) = true → ∀ r ∈ rules false,
      r.1 ≠ .switchWord → r.1 ≠ .caseWord → r.2.mayStart (UInt8.ofNat n) = false := by
    decide +kernel
  have hno := hall b.toNat b.toNat_lt
  rw [UInt8.ofNat_toNat] at hno
  by_cases hs : lexeme = .switchWord
  · exact ⟨_, (eq_of_mem_rules hr).1 hs⟩
  · by_cases hc : lexeme = .caseWord
    · exact ⟨_, (eq_of_mem_rules hr).2 hc⟩
    · rw [hno hb _ hr hs hc] at hstart
      exact absurd hstart Bool.false_ne_true

end ScriptState

/-- The text between lexemes of a script is none of the words. Alone it would have been found as a
lexeme, and no lexeme starts in the middle of a word. -/
theorem Scan.Skips.notMem_switchWords {modes : ModeStack} {s : ScriptState} {text more : Bytes}
    (h : Skips modes text more) (hs : modes.active = .script s) (hr : modes.returns = []) :
    text ∉ switchWords := by
  intro hmem
  have hrules : modes.active.rules modes.embedded = ScriptState.rules false := by
    rw [hs, ModeStack.embedded, hr]
    rfl
  have hne : text ≠ [] := by
    rintro rfl
    exact absurd hmem (by decide)
  have hword : ∀ b ∈ text, isWord b = true := by
    have hall : ∀ text ∈ switchWords, ∀ b ∈ text, isWord b = true := by decide +kernel
    exact hall text hmem
  unfold Skips at h
  rw [hrules] at h
  by_cases hnext : ∀ b ∈ more.head?, isWord b = false
  · obtain ⟨lexeme, p, hrule, hends⟩ := ScriptState.exists_rule hmem more
    have hmatch := isSome_match?_wholeWord hends hne hword hnext
    obtain ⟨b, tail, rfl⟩ := List.exists_cons_of_ne_nil hne
    cases hpick : pick? (ScriptState.rules false) none (b :: (tail ++ more)) with
    | none =>
      rw [List.cons_append, pick?_eq_none_iff.1 hpick _ hrule] at hmatch
      exact absurd hmatch (by simp)
    | some found =>
      rw [List.cons_append, search_cons_of_some hpick] at h
      exact absurd h (by simp)
  · push Not at hnext
    obtain ⟨b, hb, hbword⟩ := hnext
    rw [Bool.ne_false_iff] at hbword
    obtain ⟨rest, rfl⟩ := List.head?_eq_some_iff.1 hb
    split at h
    · exact absurd h (by simp)
    · next hit hsearch =>
      subst h
      obtain ⟨last, hlast⟩ : ∃ last, hit.skipped.getLast? = some last :=
        Option.isSome_iff_exists.1 (by simpa using hne)
      have hpick := pick?_of_search hsearch
      obtain ⟨-, hsplit⟩ := search_split hsearch
      rw [List.append_assoc] at hsplit
      rw [List.append_cancel_left hsplit, hlast, Option.some_or] at hpick
      obtain ⟨⟨label, q⟩, hr, he⟩ := List.exists_of_findSome?_eq_some hpick
      obtain ⟨e, hmatch, -⟩ := Option.map_eq_some_iff.1 he
      dsimp only at hmatch
      have hstart : q.mayStart b = true := by
        by_contra hno
        rw [Bool.not_eq_true] at hno
        rw [match?_eq_none_of_mayStart hno] at hmatch
        exact absurd hmatch (by simp)
      obtain ⟨p, rfl⟩ := ScriptState.wholeWord_of_mayStart hr hbword hstart
      have hfails := fails_wholeWord (p := p) (hword last (List.mem_of_getLast? hlast)) hbword rest
      rw [hfails.match?] at hmatch
      exact absurd hmatch (by simp)

end Reindent
