import Reindent.Mode.Reading
import Reindent.Proofs.Pattern.Preferred
import Reindent.Proofs.Utf8

/-! Style sheets and scripts without closing tags: whether they are embedded makes no difference to
what is recognised in them. -/
namespace Reindent
open Bytes Pattern

namespace Pattern
variable {α : Type}

/-- A rule that matches nowhere in a text can be left out. -/
theorem search_without {p : Pattern} {s : Bytes}
    (h : ∀ before t, t <:+ s → p.match? before t = none) (front back : List (α × Pattern)) (label : α)
    (before : Option UInt8) :
    search (front ++ [(label, p)] ++ back) before s = search (front ++ [] ++ back) before s := by
  have hpick : ∀ before t, t <:+ s → pick? (front ++ [(label, p)] ++ back) before t =
      pick? (front ++ [] ++ back) before t := by
    intro before t ht
    unfold pick?
    simp only [List.findSome?_append, List.findSome?_cons, List.findSome?_nil, h before t ht,
      Option.map_none]
  induction s generalizing before with
  | nil => rfl
  | cons b rest ih =>
    have hrest : rest <:+ b :: rest := List.suffix_cons b rest
    rw [search, search, hpick before _ (List.suffix_refl _),
      ih (fun before t ht => h before t (ht.trans hrest)) (some b)
        fun before t ht => hpick before t (ht.trans hrest)]

theorem match?_closing {element s : Bytes} (h : ¬ ascii "</" <:+: s) (before : Option UInt8) :
    (Rules.closing element).match? before s = none := by
  have hfails : ¬ ascii "</" <+: s := fun hstarts => h hstarts.isInfix
  exact (Fails.seq (Fails.seq (Fails.seq (fails_word hfails)))).match?

end Pattern

theorem Mode.search_rules {s : Bytes} (h : ¬ ascii "</" <:+: s) (mode : Mode) (embedded : Bool)
    (before : Option UInt8) :
    search (mode.rules embedded) before s = search (mode.rules false) before s := by
  have hnone : ∀ element before t, t <:+ s → (Rules.closing element).match? before t = none :=
    fun element before t ht => match?_closing (fun hin => h (hin.trans ht.isInfix)) before
  cases embedded with
  | false => rfl
  | true =>
    cases mode with
    | style _ =>
      have hskip := search_without (hnone (ascii "style"))
        (Rules.template ++ StyleState.comments ++ Rules.strings)
        (Rules.brackets ++ StyleState.marks) Lexeme.closer before
      simpa only [rules, StyleState.rules, StyleState.closer, if_true, Bool.false_eq_true, if_false,
        List.append_assoc] using hskip
    | script _ =>
      have hskip := search_without (hnone (ascii "script"))
        (Rules.template ++ ScriptState.comments ++ Rules.strings ++ ScriptState.backtick)
        (ScriptState.words ++ Rules.brackets) Lexeme.closer before
      simpa only [rules, ScriptState.rules, ScriptState.closer, if_true, Bool.false_eq_true,
        if_false, List.append_assoc] using hskip
    | _ => rfl

namespace Utf8

theorem encodeChar_of_ascii {c : Char} {b : UInt8} (hb : b < 0x80)
    (h : b ∈ String.utf8EncodeChar c) : String.utf8EncodeChar c = [b] ∧ c.toNat = b.toNat := by
  rw [UInt8.lt_iff_toNat_lt] at hb
  have htail : isTail b = false := by
    simp only [isTail, UInt8.le_iff_toNat_le, Bool.and_eq_false_iff, decide_eq_false_iff_not]
    exact Or.inl (Nat.not_le.2 hb)
  have htrailing : trailing b = 0 := by
    rw [trailing, if_pos]
    rw [UInt8.lt_iff_toNat_lt]
    exact Nat.lt_trans hb (by decide)
  have hsingle : String.utf8EncodeChar c = [b] := by
    cases hc : String.utf8EncodeChar c with
    | nil => exact absurd hc String.utf8EncodeChar_ne_nil
    | cons x more =>
      obtain ⟨-, hlen, htails⟩ := encodeChar_shape hc
      rw [hc] at h
      rcases List.mem_cons.1 h with rfl | hmem
      · rw [htrailing, List.length_eq_zero_iff] at hlen
        rw [hlen]
      · exact absurd (htail.symm.trans (htails b hmem)) Bool.false_ne_true
  refine ⟨hsingle, ?_⟩
  unfold String.utf8EncodeChar at hsingle
  dsimp only at hsingle
  split_ifs at hsingle with hsmall
  · rw [← (List.cons.inj hsingle).1, UInt8.toNat_ofNat']
    change c.val.toNat = _
    omega
  all_goals exact absurd (List.cons.inj hsingle).2 (by simp)

end Utf8

namespace Text

theorem toNat_ofNat {n : Nat} (h : 0 < (Char.ofNat n).toNat) :
    (Char.ofNat n).toNat = n := by
  by_cases hn : n.isValidChar
  · rw [Char.ofNat, dif_pos hn]
    rfl
  · rw [Char.ofNat, dif_neg hn] at h
    exact absurd h (by decide)

/-- Lower-case letters are not among the first characters. -/
private theorem toNat_of_lowerChar {c : Char} (hpos : 0 < (lowerChar c).toNat)
    (h : (lowerChar c).toNat < 65) : c.toNat = (lowerChar c).toNat := by
  have hhigh : ∀ r ∈ caseRuns, 65 ≤ (r.low : Int) + r.shift := by
    decide +kernel
  unfold lowerChar at hpos h ⊢
  cases hr : caseRuns.find? (·.holds c.toNat) with
  | none => rfl
  | some r =>
    rw [hr] at hpos h
    dsimp only at hpos h ⊢
    have hlow := hhigh r (List.mem_of_find?_eq_some hr)
    have hholds := List.find?_some hr
    simp only [CaseRun.holds, Bool.and_eq_true, decide_eq_true_eq] at hholds
    rw [toNat_ofNat hpos] at h ⊢
    omega

/-- A byte of ASCII that is no letter is in the lower-case form of its own character only. -/
theorem eq_of_mem_lowerSymbol {x : Symbol} {b : UInt8} (hpos : 0 < b) (hb : b < 65)
    (h : b ∈ (lowerSymbol x).bytes) : (lowerSymbol x).bytes = [b] ∧ x.bytes = [b] := by
  have hascii : b < 0x80 := by
    rw [UInt8.lt_iff_toNat_lt] at hb ⊢
    exact Nat.lt_trans hb (by decide)
  rw [UInt8.lt_iff_toNat_lt] at hpos hb
  cases x with
  | stray x =>
    have hreplaced : (0xFFFD : Nat) = b.toNat :=
      (Utf8.encodeChar_of_ascii (c := Char.ofNat 0xFFFD) hascii h).2
    rw [← hreplaced] at hb
    exact absurd hb (by decide)
  | char c =>
    obtain ⟨hsingle, hvalue⟩ := Utf8.encodeChar_of_ascii hascii h
    refine ⟨hsingle, ?_⟩
    have hsame : c = lowerChar c := by
      apply Char.toNat_inj.1
      apply toNat_of_lowerChar
      · rw [hvalue]
        exact hpos
      · rw [hvalue]
        exact hb
    rw [← hsame] at hsingle
    exact hsingle

theorem bytes_lowerSymbol_ne_nil (x : Symbol) : (lowerSymbol x).bytes ≠ [] := by
  obtain ⟨c, hc⟩ : ∃ c, lowerSymbol x = .char c := by
    cases x <;> exact ⟨_, rfl⟩
  rw [hc]
  exact String.utf8EncodeChar_ne_nil

private theorem infix_encode {symbols : List Symbol}
    (h : [60, 47] <:+: Utf8.encode (symbols.map lowerSymbol)) :
    [60, 47] <:+: Utf8.encode symbols := by
  induction symbols with
  | nil => exact h
  | cons x symbols ih =>
    have hcons : ∀ y ys, Utf8.encode (y :: ys) = y.bytes ++ Utf8.encode ys :=
      fun y ys => List.flatMap_cons
    have hlater : [60, 47] <:+: Utf8.encode (symbols.map lowerSymbol) →
        [60, 47] <:+: Utf8.encode (x :: symbols) := by
      intro hrest
      rw [hcons]
      exact (ih hrest).trans (List.suffix_append _ _).isInfix
    rw [List.map_cons, hcons] at h
    rcases List.infix_append_iff.1 h with h | h | ⟨front, back, hsplit, hfront, hback⟩
    · -- no character holds two bytes of ASCII
      have hbytes := (eq_of_mem_lowerSymbol (by decide) (by decide) (h.subset List.mem_cons_self)).1
      rw [hbytes] at h
      exact absurd h.length_le (by decide)
    · exact hlater h
    · cases front with
      | nil =>
        rw [List.nil_append] at hsplit
        exact hlater (hsplit ▸ hback.isInfix)
      | cons a front =>
        obtain ⟨rfl, hrest⟩ := List.cons.inj hsplit
        obtain ⟨hlower, hbytes⟩ :=
          eq_of_mem_lowerSymbol (by decide) (by decide) (hfront.subset List.mem_cons_self)
        obtain rfl : front = [] := by
          rw [hlower] at hfront
          simpa using hfront.length_le
        obtain rfl : back = [47] := hrest.symm
        cases symbols with
        | nil => exact absurd hback (by simp [Utf8.encode])
        | cons y symbols =>
          have hslash : 47 ∈ (lowerSymbol y).bytes := by
            rw [List.map_cons, hcons] at hback
            cases hy : (lowerSymbol y).bytes with
            | nil => exact absurd hy (bytes_lowerSymbol_ne_nil y)
            | cons b more =>
              rw [hy, List.cons_append] at hback
              rw [(List.cons_prefix_cons.1 hback).1]
              exact List.mem_cons_self
          have hbytes' := (eq_of_mem_lowerSymbol (by decide) (by decide) hslash).2
          rw [hcons, hcons, hbytes, hbytes']
          exact (List.prefix_append [60, 47] _).isInfix

/-- No closing tag starts in the lower-case form of a text, unless one starts in the text. -/
theorem infix_of_lowercase {text : Bytes} (h : ascii "</" <:+: lowercase text) :
    ascii "</" <:+: text := by
  rw [← Utf8.encode_decode text]
  exact infix_encode h

end Text

private theorem find?_eq_none_of_not_infix {part s : Bytes} (hne : part ≠ []) (h : ¬ part <:+: s) :
    find? part s = none := by
  induction s with
  | nil => rw [find?, if_neg (by simpa using hne)]
  | cons b rest ih =>
    rw [List.infix_cons_iff, not_or] at h
    rw [find?, if_neg (by simpa using h.1), ih h.2]
    rfl

theorem Mode.extent_of_not_infix {text : Bytes} (h : ¬ ascii "</" <:+: text) (embedded : Bool)
    (mode : Mode) (lexeme : Lexeme) : mode.extent embedded lexeme text = .ok text.length := by
  have hcut : find? (ascii "</script") (Text.lowercase text) = none := by
    apply find?_eq_none_of_not_infix (by decide)
    intro hin
    have hstart : ascii "</" <+: ascii "</script" := by decide
    exact h (Text.infix_of_lowercase (hstart.isInfix.trans hin))
  unfold extent
  split
  · unfold ScriptState.commentLength
    rw [hcut]
    split_ifs
    · rfl
    · rfl
  · rfl

end Reindent
