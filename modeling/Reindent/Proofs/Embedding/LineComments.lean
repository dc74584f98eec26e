import Reindent.Proofs.Noninterference.Cuts
import Reindent.Proofs.Scan.LineRuns

/-! Line comments of embedded scripts. A comment is cut in front of a closing tag, but the place of the
tag is taken from the lower-case form of the comment. The cut is in the right place exactly if the text
in front of the tag is as long in lower case as it is. -/
namespace Reindent
open Bytes Pattern Text

namespace Bytes

/-- A text falls into `front` and `back` at the first place from which on `starts` holds. -/
structure CutsAt (starts : Bytes → Prop) (front back : Bytes) : Prop where
  holds : starts back
  first : ∀ n < front.length, ¬ starts ((front ++ back).drop n)

variable {part s front back : Bytes}

theorem CutsAt.length_le {starts : Bytes → Prop} (h : CutsAt starts front back)
    {front' back' : Bytes} (hs : front ++ back = front' ++ back') (hback : starts back') :
    front.length ≤ front'.length := by
  by_contra hlt
  refine h.first front'.length (by omega) ?_
  rw [hs, List.drop_left]
  exact hback

theorem exists_find?_le (h : part <+: back) (front : Bytes) :
    ∃ n ≤ front.length, find? part (front ++ back) = some n := by
  induction front with
  | nil =>
    refine ⟨0, Nat.le_refl 0, ?_⟩
    cases back with
    | nil => rw [List.prefix_nil.1 h]; rfl
    | cons b back => rw [List.nil_append, find?, if_pos (List.isPrefixOf_iff_prefix.2 h)]
  | cons b front ih =>
    obtain ⟨n, hn, hfind⟩ := ih
    rw [List.cons_append, find?]
    split_ifs
    · exact ⟨0, Nat.zero_le _, rfl⟩
    · exact ⟨n + 1, by rw [List.length_cons]; omega, by rw [hfind]; rfl⟩

theorem exists_split_of_find? {n : Nat} (hne : part ≠ []) (h : find? part s = some n) :
    ∃ front back, s = front ++ back ∧ front.length = n ∧ part <+: back := by
  have hpart := prefix_drop_of_find? h
  have hlt : n < s.length := by
    by_contra hlong
    rw [List.drop_eq_nil_of_le (by omega)] at hpart
    exact hne (List.prefix_nil.1 hpart)
  exact ⟨s.take n, s.drop n, (List.take_append_drop n s).symm, List.length_take_of_le (by omega),
    hpart⟩

theorem find?_of_cutsAt (hne : part ≠ []) (h : CutsAt (part <+: ·) front back) :
    find? part (front ++ back) = some front.length := by
  obtain ⟨n, hn, hfind⟩ := exists_find?_le h.holds front
  obtain ⟨front', back', hsplit, rfl, hpart⟩ := exists_split_of_find? hne hfind
  rw [hfind, Nat.le_antisymm hn (h.length_le hsplit hpart)]

end Bytes

namespace Text

/-- The closing tag of a script in lower case, and spelled with the dotted capital I, whose lower-case
form is an i. -/
def closingTags : List Bytes := [ascii "</script", ascii "</scr" ++ [0xC4, 0xB0] ++ ascii "pt"]

/-- A closing tag starts here, in any mixture of cases. -/
def ClosesScript (s : Bytes) : Prop := ∃ tag ∈ closingTags, tag <+: s.map toLower

instance (s : Bytes) : Decidable (ClosesScript s) :=
  inferInstanceAs (Decidable (∃ tag ∈ closingTags, tag <+: s.map toLower))

/-- Two characters that are no ASCII have an ASCII letter as their lower-case form: the dotted capital
I and the Kelvin sign. -/
theorem toNat_of_lowerChar_ascii {c : Char} (hpos : 0 < (lowerChar c).toNat)
    (h : (lowerChar c).toNat < 0x80) (hc : 0x80 ≤ c.toNat) :
    (c.toNat = 0x130 ∧ (lowerChar c).toNat = 105) ∨ (lowerChar c).toNat = 107 := by
  have hall : ∀ r ∈ caseRuns, r.high < 0x80 ∨ 0x80 ≤ (r.low : Int) + r.shift ∨
      (r.low = 0x130 ∧ r.high = 0x130 ∧ r.shift = -199) ∨
      (r.low = 0x212A ∧ r.high = 0x212A ∧ r.shift = -8383) := by
    decide +kernel
  unfold lowerChar at hpos h ⊢
  cases hr : caseRuns.find? (·.holds c.toNat) with
  | none =>
    rw [hr] at h
    dsimp only at h
    omega
  | some r =>
    rw [hr] at hpos h
    dsimp only at hpos h ⊢
    have hrun := hall r (List.mem_of_find?_eq_some hr)
    have hholds := List.find?_some hr
    simp only [CaseRun.holds, Bool.and_eq_true, decide_eq_true_eq] at hholds
    rw [toNat_ofNat hpos] at h ⊢
    omega

section Prefixes
variable {c : UInt8} {w v s : Bytes}

/-- What a character that is no ASCII is in lower case. -/
private theorem lowerSymbol_head {b : UInt8} (hb : ¬ b < 0x80) (hc : 0 < c) (hascii : c < 0x80)
    (hk : c ≠ 107) (h : c :: w <+: lowercase (b :: s)) :
    c = 105 ∧ ∃ rest, b :: s = 0xC4 :: 0xB0 :: rest ∧ w <+: lowercase rest := by
  have hbytes := Utf8.bytes_fst_first b s
  unfold lowercase at h
  rw [Utf8.decode_cons, List.map_cons, Utf8.encode, List.flatMap_cons] at h
  generalize Utf8.first b s = first at hbytes h
  obtain ⟨x, k⟩ := first
  dsimp only at hbytes h
  have hmem : c ∈ (lowerSymbol x).bytes := by
    cases hx : (lowerSymbol x).bytes with
    | nil => exact absurd hx (bytes_lowerSymbol_ne_nil x)
    | cons a more =>
      rw [hx, List.cons_append] at h
      rw [(List.cons_prefix_cons.1 h).1]
      exact List.mem_cons_self
  cases x with
  | stray a =>
    have hreplaced : (0xFFFD : Nat) = c.toNat :=
      (@Utf8.encodeChar_of_ascii (Char.ofNat 0xFFFD) c hascii hmem).2
    rw [UInt8.lt_iff_toNat_lt, ← hreplaced] at hascii
    exact absurd hascii (by decide)
  | char ch =>
    obtain ⟨hsingle, hvalue⟩ := Utf8.encodeChar_of_ascii hascii hmem
    rw [UInt8.lt_iff_toNat_lt] at hc hascii hb
    have hch : 0x80 ≤ ch.toNat := by
      by_contra hlt
      have hsmall : String.utf8EncodeChar ch = [UInt8.ofNat ch.toNat] := by
        unfold String.utf8EncodeChar
        exact if_pos (by change ch.toNat ≤ 127; omega)
      have hfirst : b = UInt8.ofNat ch.toNat :=
        (List.cons.inj (hbytes.symm.trans hsmall)).1
      rw [hfirst, UInt8.toNat_ofNat'] at hb
      change ¬ _ < 128 at hb
      omega
    rw [← hvalue] at hc hascii
    rcases toNat_of_lowerChar_ascii hc hascii hch with ⟨hdotted, hi⟩ | hkelvin
    · obtain rfl : ch = Char.ofNat 0x130 := Char.toNat_inj.1 hdotted
      obtain rfl : c = 105 := UInt8.toNat_inj.1 (hvalue.symm.trans hi)
      have hspelled : (Symbol.char (Char.ofNat 0x130)).bytes = [0xC4, 0xB0] := by decide
      have hi' : (lowerSymbol (.char (Char.ofNat 0x130))).bytes = [105] := hsingle
      rw [hspelled] at hbytes
      obtain ⟨rfl, hrest⟩ := List.cons.inj hbytes
      rw [hi', List.singleton_append] at h
      refine ⟨rfl, s.drop k, ?_, (List.cons_prefix_cons.1 h).2⟩
      conv_lhs => rw [← List.take_append_drop k s, ← hrest]
      rfl
    · have hvalue' : c.toNat = (107 : UInt8).toNat := hvalue.symm.trans hkelvin
      exact absurd (UInt8.toNat_inj.1 hvalue') hk

theorem cons_prefix_lowercase (hc : 0 < c) (hascii : c < 0x80) (hk : c ≠ 107) :
    c :: w <+: lowercase s ↔ ∃ rest, w <+: lowercase rest ∧
      ((∃ b, s = b :: rest ∧ toLower b = c) ∨ (c = 105 ∧ s = 0xC4 :: 0xB0 :: rest)) := by
  constructor
  · intro h
    cases s with
    | nil => exact absurd h (by simp [lowercase, Utf8.encode])
    | cons b s =>
      by_cases hb : b < 0x80
      · rw [lowercase_cons hb, List.cons_prefix_cons] at h
        exact ⟨s, h.2, Or.inl ⟨b, rfl, h.1.symm⟩⟩
      · obtain ⟨hi, rest, hs, hw⟩ := lowerSymbol_head hb hc hascii hk h
        exact ⟨rest, hw, Or.inr ⟨hi, hs⟩⟩
  · rintro ⟨rest, hw, ⟨b, rfl, rfl⟩ | ⟨rfl, rfl⟩⟩
    · have hall : ∀ n < 256, toLower (UInt8.ofNat n) < 0x80 → UInt8.ofNat n < 0x80 := by
        decide +kernel
      have hb : b < 0x80 := by
        have hbyte := hall b.toNat (UInt8.toNat_lt b)
        rw [UInt8.ofNat_toNat] at hbyte
        exact hbyte hascii
      rw [lowercase_cons hb, List.cons_prefix_cons]
      exact ⟨rfl, hw⟩
    · have hfirst : Utf8.first 0xC4 (0xB0 :: rest) = (.char (Char.ofNat 0x130), 1) := by
        have hmore : (0xB0 :: rest).take (Utf8.trailing 0xC4) = [0xB0] := rfl
        unfold Utf8.first
        rw [hmore]
        decide +kernel
      have hi : (lowerSymbol (.char (Char.ofNat 0x130))).bytes = [105] := by decide +kernel
      have hlower : lowercase (0xC4 :: 0xB0 :: rest) = 105 :: lowercase rest := by
        unfold lowercase
        rw [Utf8.decode_cons, hfirst, List.map_cons, Utf8.encode, List.flatMap_cons, hi]
        rfl
      rw [hlower, List.cons_prefix_cons]
      exact ⟨rfl, hw⟩

/-- A word without i and k at the start of a text in lower case. -/
theorem append_prefix_lowercase (hw : ∀ c ∈ w, 0 < c ∧ c < 0x80 ∧ c ≠ 105 ∧ c ≠ 107) :
    w ++ v <+: lowercase s ↔ ∃ rest, v <+: lowercase rest ∧ ∃ front, s = front ++ rest ∧
      front.map toLower = w := by
  induction w generalizing s with
  | nil =>
    constructor
    · exact fun h => ⟨s, h, [], rfl, rfl⟩
    · rintro ⟨rest, h, front, rfl, hfront⟩
      rw [List.map_eq_nil_iff.1 hfront]
      exact h
  | cons c w ih =>
    obtain ⟨hc, hascii, hi, hk⟩ := hw c List.mem_cons_self
    rw [List.cons_append, cons_prefix_lowercase hc hascii hk]
    simp only [ih fun x hx => hw x (List.mem_cons_of_mem _ hx)]
    constructor
    · rintro ⟨_, ⟨rest, hv, front, rfl, hfront⟩, ⟨b, rfl, hb⟩ | ⟨rfl, -⟩⟩
      · exact ⟨rest, hv, b :: front, rfl, by rw [List.map_cons, hb, hfront]⟩
      · exact absurd rfl hi
    · rintro ⟨rest, hv, front, rfl, hfront⟩
      obtain ⟨b, front, rfl, hb, hfront⟩ := List.map_eq_cons_iff.1 hfront
      exact ⟨front ++ rest, ⟨rest, hv, front, rfl, hfront⟩, Or.inl ⟨b, rfl, hb⟩⟩

/-- Where a closing tag starts in lower case, one starts in the text. -/
theorem prefix_lowercase_iff : ascii "</script" <+: lowercase s ↔ ClosesScript s := by
  have hfront : ∀ c ∈ ascii "</scr", 0 < c ∧ c < 0x80 ∧ c ≠ 105 ∧ c ≠ 107 := by decide +kernel
  have hback : ∀ c ∈ ascii "pt", 0 < c ∧ c < 0x80 ∧ c ≠ 105 ∧ c ≠ 107 := by decide +kernel
  have hletters : ascii "</script" = ascii "</scr" ++ 105 :: (ascii "pt" ++ []) := by decide
  rw [hletters, append_prefix_lowercase hfront]
  constructor
  · rintro ⟨middle, hmiddle, front, rfl, hf⟩
    obtain ⟨tail, htail, hi⟩ :=
      (cons_prefix_lowercase (by decide) (by decide) (by decide)).1 hmiddle
    obtain ⟨rest, -, back, rfl, hb⟩ := (append_prefix_lowercase hback).1 htail
    rcases hi with ⟨b, rfl, hi⟩ | ⟨-, rfl⟩
    · refine ⟨ascii "</script", List.mem_cons_self, rest.map toLower, ?_⟩
      rw [List.map_append, List.map_cons, List.map_append, hf, hi, hb]
      rfl
    · refine ⟨_, List.mem_cons_of_mem _ List.mem_cons_self, rest.map toLower, ?_⟩
      rw [List.map_append, List.map_cons, List.map_cons, List.map_append, hf, hb]
      rfl
  · rintro ⟨tag, htag, tail, htail⟩
    have hcapital : ∀ n < 256, ∀ c ∈ [0xC4, 0xB0], toLower (UInt8.ofNat n) = c →
        UInt8.ofNat n = c := by
      decide +kernel
    have hsame : ∀ b, ∀ c ∈ [0xC4, 0xB0], toLower b = c → b = c := by
      intro b c hc
      have hbyte := hcapital b.toNat (UInt8.toNat_lt b) c hc
      rwa [UInt8.ofNat_toNat] at hbyte
    obtain ⟨i, hi, hsplit⟩ : ∃ i ∈ [[105], [0xC4, 0xB0]],
        s.map toLower = ascii "</scr" ++ (i ++ (ascii "pt" ++ tail)) := by
      simp only [closingTags, List.mem_cons, List.not_mem_nil, or_false] at htag
      rcases htag with rfl | rfl
      · exact ⟨_, List.mem_cons_self, htail.symm⟩
      · exact ⟨_, List.mem_cons_of_mem _ List.mem_cons_self, htail.symm⟩
    obtain ⟨front, middle, rfl, hf, hmiddle⟩ := List.map_eq_append_iff.1 hsplit
    obtain ⟨letter, behind, rfl, hletter, hbehind⟩ := List.map_eq_append_iff.1 hmiddle
    obtain ⟨back, rest, rfl, hb, -⟩ := List.map_eq_append_iff.1 hbehind
    refine ⟨_, (cons_prefix_lowercase (by decide) (by decide) (by decide)).2 ⟨back ++ rest, ?_, ?_⟩,
      front, rfl, hf⟩
    · exact (append_prefix_lowercase hback).2 ⟨rest, List.nil_prefix, back, rfl, hb⟩
    · simp only [List.mem_cons, List.not_mem_nil, or_false] at hi
      rcases hi with rfl | rfl
      · obtain ⟨b, rfl, hb⟩ := List.map_eq_singleton_iff.1 hletter
        exact Or.inl ⟨b, rfl, hb⟩
      · obtain ⟨a, more, rfl, ha, hmore⟩ := List.map_eq_cons_iff.1 hletter
        obtain ⟨b, rfl, hb⟩ := List.map_eq_singleton_iff.1 hmore
        rw [hsame a _ (by simp) ha, hsame b _ (by simp) hb]
        exact Or.inr ⟨rfl, rfl⟩

end Prefixes

private theorem exists_split_of_encode {xs : List Symbol} {u v : Bytes}
    (h : Utf8.encode (xs.map lowerSymbol) = u ++ 60 :: v) :
    ∃ front x back, xs = front ++ x :: back ∧ x.bytes = [60] ∧
      Utf8.encode (front.map lowerSymbol) = u ∧ Utf8.encode (back.map lowerSymbol) = v := by
  induction xs generalizing u with
  | nil => exact absurd h (by simp [Utf8.encode])
  | cons x xs ih =>
    have hcons : ∀ x (xs : List Symbol), Utf8.encode ((x :: xs).map lowerSymbol) =
        (lowerSymbol x).bytes ++ Utf8.encode (xs.map lowerSymbol) := fun x xs => List.flatMap_cons
    have hplace : (∃ more, u = (lowerSymbol x).bytes ++ more ∧
        Utf8.encode (xs.map lowerSymbol) = more ++ 60 :: v) ∨
        ∃ part, (lowerSymbol x).bytes = u ++ 60 :: part ∧
          v = part ++ Utf8.encode (xs.map lowerSymbol) := by
      rw [hcons] at h
      rcases List.append_eq_append_iff.1 h with ⟨more, hu, hrest⟩ | ⟨part, hpart, hrest⟩
      · exact Or.inl ⟨more, hu, hrest⟩
      · cases part with
        | nil => exact Or.inl ⟨[], by rw [hpart, List.append_nil, List.append_nil], hrest.symm⟩
        | cons a part =>
          obtain ⟨rfl, hv⟩ := List.cons.inj hrest
          exact Or.inr ⟨part, hpart, hv⟩
    rcases hplace with ⟨more, hu, hrest⟩ | ⟨part, hpart, rfl⟩
    · obtain ⟨front, y, back, rfl, hy, hfront, hback⟩ := ih hrest
      exact ⟨x :: front, y, back, rfl, hy, by rw [hcons, hfront, hu], hback⟩
    · obtain ⟨hlower, hbytes⟩ := @eq_of_mem_lowerSymbol x 60 (by decide) (by decide)
        (by rw [hpart]; simp)
      rw [hlower] at hpart
      obtain ⟨rfl, rfl⟩ : u = [] ∧ part = [] := by
        cases u with
        | nil => exact ⟨rfl, (List.cons.inj hpart).2.symm⟩
        | cons b u => exact absurd (List.cons.inj hpart).2 (by simp)
      exact ⟨[], x, xs, rfl, hbytes, rfl, rfl⟩

/-- An angle bracket in lower case stands where one stands in the text. -/
theorem exists_split_of_lowercase {s u v : Bytes} (h : lowercase s = u ++ 60 :: v) :
    ∃ front back, s = front ++ 60 :: back ∧ lowercase front = u ∧ lowercase back = v := by
  obtain ⟨front, x, back, hsplit, hx, hfront, hback⟩ := exists_split_of_encode h
  obtain ⟨hdecode, hbehind⟩ := Utf8.decode_encode_of_eq_append hsplit
  have hdecode' := (Utf8.decode_encode_of_eq_append (hbehind.trans (List.singleton_append).symm)).2
  refine ⟨Utf8.encode front, Utf8.encode back, ?_, ?_, ?_⟩
  · rw [← Utf8.encode_decode s, hsplit, Utf8.encode, List.flatMap_append, List.flatMap_cons, hx]
    rfl
  · rw [lowercase, hdecode, hfront]
  · rw [lowercase, hdecode', hback]

theorem ClosesScript.exists_cons {s : Bytes} (h : ClosesScript s) : ∃ rest, s = 60 :: rest := by
  have htag := prefix_lowercase_iff.2 h
  obtain ⟨tail, htail⟩ := htag
  obtain ⟨rest, hrest⟩ := List.head?_eq_some_iff.1 (head_of_lowercase htail.symm)
  exact ⟨rest, hrest⟩

theorem cutsAt_lowercase {front back : Bytes} (h : CutsAt ClosesScript front back) :
    lowercase (front ++ back) = lowercase front ++ lowercase back ∧
      CutsAt (ascii "</script" <+: ·) (lowercase front) (lowercase back) := by
  obtain ⟨back, rfl⟩ := h.holds.exists_cons
  have happend : ∀ front back, lowercase (front ++ 60 :: back) =
      lowercase front ++ lowercase (60 :: back) := by
    intro front back
    rw [lowercase_append_cons (by decide) (by decide), lowercase_cons_of_ascii (by decide) (by decide)]
  refine ⟨happend _ _, prefix_lowercase_iff.2 h.holds, fun n hn ⟨tail, htail⟩ => ?_⟩
  rw [← happend] at htail
  have hcut := List.take_append_drop n (lowercase (front ++ 60 :: back))
  rw [← htail] at hcut
  obtain ⟨front', back', hsplit, hfront, hback⟩ := exists_split_of_lowercase hcut.symm
  have hcloses : ClosesScript (60 :: back') := by
    rw [← prefix_lowercase_iff, lowercase_cons_of_ascii (by decide) (by decide), hback]
    exact ⟨tail, rfl⟩
  have hle := h.length_le hsplit hcloses
  have hlower : (lowercase front).length ≤ (lowercase front').length := by
    obtain ⟨more, rfl⟩ := List.prefix_of_prefix_length_le ⟨_, hsplit⟩
      (List.prefix_append front' (60 :: back')) hle
    cases more with
    | nil => rw [List.append_nil]
    | cons a more =>
      rw [List.append_assoc] at hsplit
      obtain ⟨rfl, -⟩ := List.cons.inj (List.append_cancel_left hsplit)
      rw [happend, List.length_append]
      exact Nat.le_add_right _ _
  rw [hfront, List.length_take] at hlower
  omega

end Text

namespace ScriptState
variable {front back text : Bytes}

theorem commentLength_of_cutsAt (h : CutsAt ClosesScript front back) (hne : front ≠ [])
    (hoff : formatOff.startsText (front ++ back) = false) :
    commentLength true (front ++ back) =
      if (lowercase front).length ≤ (front ++ back).length then .ok (lowercase front).length
      else .error {} := by
  obtain ⟨happend, hcuts⟩ := cutsAt_lowercase h
  have hfind := find?_of_cutsAt (by decide) hcuts
  rw [← happend] at hfind
  have hpos : (lowercase front).length ≠ 0 := by
    obtain ⟨b, front, rfl⟩ := List.exists_cons_of_ne_nil hne
    rw [lowercase, Utf8.decode_cons, List.map_cons, Utf8.encode, List.flatMap_cons,
      List.length_append]
    have hbytes := List.length_pos_iff.2 (bytes_lowerSymbol_ne_nil (Utf8.first b front).1)
    omega
  obtain ⟨n, hn⟩ := Nat.exists_eq_succ_of_ne_zero hpos
  unfold commentLength
  rw [hoff, hfind, hn]
  rfl

theorem commentLength_of_none (h : ∀ front back, text = front ++ back → ¬ ClosesScript back)
    (hoff : formatOff.startsText text = false) : commentLength true text = .ok text.length := by
  have hfind : find? (ascii "</script") (lowercase text) = none := by
    rw [Option.eq_none_iff_forall_ne_some]
    intro n hn
    obtain ⟨u, v, huv, -, tail, rfl⟩ := exists_split_of_find? (by decide) hn
    obtain ⟨front, back, hsplit, -, hback⟩ := exists_split_of_lowercase huv
    refine h front _ hsplit (prefix_lowercase_iff.1 ?_)
    rw [lowercase_cons_of_ascii (by decide) (by decide), hback]
    exact ⟨tail, rfl⟩
  unfold commentLength
  rw [hoff, hfind]
  rfl

end ScriptState

namespace Scan

/-- The step takes a token of this text, and goes on in front of `left`. -/
def Step.Reads (s : Step) (text left : Bytes) : Prop :=
  ∃ state line t, s = .next state (Line.append line t) left ∧ t.text = text

def Step.Fails (s : Step) : Prop := ∃ state overrun, s = .failed state overrun

theorem Step.Reads.left_eq {s : Step} {text text' left left' : Bytes} (h : s.Reads text left)
    (h' : s.Reads text' left') : left = left' := by
  obtain ⟨_, _, _, hs, -⟩ := h
  obtain ⟨_, _, _, hs', -⟩ := h'
  exact (Step.next.inj (hs.symm.trans hs')).2.2

theorem Step.Reads.not_fails {s : Step} {text left : Bytes} (h : s.Reads text left) : ¬ s.Fails := by
  obtain ⟨_, _, _, hs, -⟩ := h
  rintro ⟨_, _, hs'⟩
  exact absurd (hs.symm.trans hs') (by simp)

variable {settings : Settings} {below : Bytes} {state : State} {line : Line} {rest : Bytes}
  {hit : Hit Lexeme} {script : ScriptState}

theorem not_closesScript_of_lineComment (hactive : state.modes.active = .script script)
    (hfound : search (state.modes.active.rules state.modes.embedded) none rest = some hit)
    (hlabel : hit.label = .lineComment) : ¬ ClosesScript hit.matched := by
  intro hcloses
  obtain ⟨p, before, hrule, hmatch⟩ := exists_match_of_search hfound
  obtain ⟨b, tail, hmatched, hstart⟩ := exists_head_of_match? hmatch
  obtain ⟨more, hmore⟩ := hcloses.exists_cons
  obtain ⟨rfl, -⟩ := List.cons.inj (hmatched.symm.trans hmore)
  have hall : ∀ embedded, ∀ r ∈ ScriptState.rules embedded, r.1 = .lineComment →
      r.2.mayStart 60 = false := by
    decide
  rw [hactive] at hrule
  exact absurd (hstart.symm.trans (hall _ _ hrule hlabel)) (by simp)

theorem step_lineComment (hactive : state.modes.active = .script script)
    (hembedded : state.modes.embedded = true)
    (hfound : search (state.modes.active.rules state.modes.embedded) none rest = some hit)
    (hlabel : hit.label = .lineComment) :
    (∀ n, ScriptState.commentLength true hit.matched = .ok n →
      (step settings below state line rest).Reads (hit.matched.take n)
        (hit.matched.drop n ++ hit.rest)) ∧
      (ScriptState.commentLength true hit.matched = .error {} →
        (step settings below state line rest).Fails) := by
  have hextent := Whole.extent_readGap settings state line hit.skipped (hit.matched ++ hit.rest)
    hit.label hit.matched
  have hcomment : Whole.extent state.modes hit.label hit.matched =
      ScriptState.commentLength true hit.matched := by
    unfold Whole.extent
    rw [hactive, hembedded, hlabel]
    rfl
  rw [hcomment] at hextent
  unfold Whole.extent at hextent
  have hstep := @step_of_some settings below state line rest hit hfound
  dsimp only at hstep
  rw [hextent] at hstep
  constructor
  · intro n hn
    rw [hn] at hstep
    exact ⟨_, _, _, hstep, text_readLexeme _ _ _ _ _ _⟩
  · intro hn
    rw [hn] at hstep
    exact ⟨_, _, hstep⟩

/-- A line comment of an embedded script. If a closing tag starts in it, the comment is read up to the
first one exactly if the text in front of the tag is as long in lower case as it is, and it cannot be
read exactly if that text is longer in lower case than the whole comment. A comment without closing tags
is read as a whole. -/
theorem line_comment_cut (hactive : state.modes.active = .script script)
    (hembedded : state.modes.embedded = true)
    (hfound : search (state.modes.active.rules state.modes.embedded) none rest = some hit)
    (hlabel : hit.label = .lineComment)
    (hoff : ScriptState.formatOff.startsText hit.matched = false) :
    (∀ front back, hit.matched = front ++ back → CutsAt ClosesScript front back →
      ((step settings below state line rest).Reads front (back ++ hit.rest) ↔
        (lowercase front).length = front.length) ∧
      ((step settings below state line rest).Fails ↔
        hit.matched.length < (lowercase front).length)) ∧
    ((∀ front back, hit.matched = front ++ back → ¬ ClosesScript back) →
      (step settings below state line rest).Reads hit.matched hit.rest) := by
  obtain ⟨hreads, hfails⟩ := @step_lineComment settings below state line rest hit script hactive
    hembedded hfound hlabel
  generalize step settings below state line rest = next at hreads hfails
  constructor
  · intro front back hsplit hcuts
    have hne : front ≠ [] := by
      rintro rfl
      rw [List.nil_append] at hsplit
      exact not_closesScript_of_lineComment hactive hfound hlabel (hsplit ▸ hcuts.holds)
    have hlength := ScriptState.commentLength_of_cutsAt hcuts hne (hsplit ▸ hoff)
    rw [← hsplit] at hlength
    have hle : front.length ≤ hit.matched.length := by
      rw [hsplit, List.length_append]
      omega
    by_cases hfits : (lowercase front).length ≤ hit.matched.length
    · rw [if_pos hfits] at hlength
      have hread := hreads _ hlength
      refine ⟨⟨fun h => ?_, fun hsame => ?_⟩, fun h => absurd h hread.not_fails, fun h => ?_⟩
      · have hleft := congrArg List.length (hread.left_eq h)
        rw [hsplit] at hleft hfits
        simp only [List.length_append, List.length_drop] at hleft hfits
        omega
      · rwa [hsame, hsplit, List.take_left, List.drop_left] at hread
      · omega
    · rw [if_neg hfits] at hlength
      have hfailed := hfails hlength
      exact ⟨⟨fun h => absurd hfailed h.not_fails, fun hsame => by omega⟩, fun _ => by omega,
        fun _ => hfailed⟩
  · intro hnone
    have hread := hreads _ (ScriptState.commentLength_of_none hnone hoff)
    rwa [List.take_length, List.drop_length, List.nil_append] at hread

def inScriptElement : State := { modes := { active := .script {}, returns := [.markup] } }

theorem line_comment_cut_plain :
    CutsAt ClosesScript (ascii "// x") (ascii "</SCRIPT>") ∧
      (step {} [] inScriptElement { number := 1 } (ascii "// x</SCRIPT>")).Reads (ascii "// x")
        (ascii "</SCRIPT>") := by
  have hcuts : CutsAt ClosesScript (ascii "// x") (ascii "</SCRIPT>") :=
    ⟨by decide +kernel, by decide +kernel⟩
  have hfound : search (inScriptElement.modes.active.rules inScriptElement.modes.embedded) none
      (ascii "// x</SCRIPT>") = some ⟨[], .lineComment, ascii "// x</SCRIPT>", []⟩ := rfl
  have hread := ((@line_comment_cut {} [] inScriptElement { number := 1 } _ _ {} rfl rfl hfound rfl
    (by decide +kernel)).1 _ _ rfl hcuts).1.2 (by decide +kernel)
  exact ⟨hcuts, hread⟩

/-- The Kelvin sign takes three bytes, and its lower-case form is a k. -/
def kelvinComment : Bytes := ascii "//" ++ [0xE2, 0x84, 0xAA]

/-- A byte that belongs to no character is replaced by a character of three bytes. -/
def strayComment : Bytes := ascii "//" ++ [0xFF]

/-- Letters of two bytes whose lower-case forms take three. -/
def growingComment : Bytes := ascii "//" ++ (List.replicate 10 [0xC8, 0xBA]).flatten

def dottedComment : Bytes := ascii "//</scr" ++ [0xC4, 0xB0] ++ ascii "pt"

/-- The cut in front of a closing tag can come too early, too late and behind the end of the comment,
and a comment can be cut though no closing tag starts in it. -/
theorem line_comment_cut_misplaced :
    (∀ comment ∈ [kelvinComment, strayComment],
      CutsAt (ascii "</script" <+: ·.map toLower) comment (ascii "</script>") ∧
      ¬ (step {} [] inScriptElement { number := 1 } (comment ++ ascii "</script>")).Reads comment
        (ascii "</script>")) ∧
    (step {} [] inScriptElement { number := 1 } (growingComment ++ ascii "</script>")).Fails ∧
    (¬ ascii "</script" <:+: dottedComment.map toLower ∧
      ¬ (step {} [] inScriptElement { number := 1 } dottedComment).Reads dottedComment []) := by
  have hstep : ∀ comment, search (inScriptElement.modes.active.rules true) none comment =
      some ⟨[], .lineComment, comment, []⟩ → _ :=
    fun comment hfound => @step_lineComment {} [] inScriptElement { number := 1 } comment _ {} rfl
      rfl hfound rfl
  refine ⟨?_, ?_, by decide +kernel, fun h => ?_⟩
  · simp only [List.forall_mem_cons, List.not_mem_nil, false_implies, implies_true, and_true]
    refine ⟨⟨⟨by decide +kernel, by decide +kernel⟩, fun h => ?_⟩,
      ⟨by decide +kernel, by decide +kernel⟩, fun h => ?_⟩
    · have hread := (hstep (kelvinComment ++ ascii "</script>") rfl).1 3 (by decide +kernel)
      exact absurd (hread.left_eq h) (by decide)
    · have hread := (hstep (strayComment ++ ascii "</script>") rfl).1 5 (by decide +kernel)
      exact absurd (hread.left_eq h) (by decide)
  · exact (hstep (growingComment ++ ascii "</script>") rfl).2 (by decide +kernel)
  · have hread := (hstep dottedComment rfl).1 2 (by decide +kernel)
    exact absurd (hread.left_eq h) (by decide)

end Scan

end Reindent
