import Mathlib.Data.List.TakeWhile
import Reindent.Proofs.Utf8
import Reindent.Text.Blank

/-! Texts and the white space around them. -/
namespace Reindent.Text
open Utf8

section Strip
variable {α : Type} {p : α → Bool}

theorem exists_eq_append_strip (p : α → Bool) (s : List α) :
    ∃ a b, s = a ++ strip p s ++ b ∧ (∀ x ∈ a, p x = true) ∧ ∀ x ∈ b, p x = true := by
  refine ⟨s.takeWhile p, ((s.dropWhile p).reverse.takeWhile p).reverse, ?_, ?_, ?_⟩
  · rw [strip, List.append_assoc, ← List.reverse_append, List.takeWhile_append_dropWhile,
      List.reverse_reverse, List.takeWhile_append_dropWhile]
  · intro x hx
    exact List.all_eq_true.1 List.all_takeWhile x hx
  · intro x hx
    exact List.all_eq_true.1 List.all_takeWhile x (List.mem_reverse.1 hx)

theorem strip_eq_nil (s : List α) (h : ∀ x ∈ s, p x = true) : strip p s = [] := by
  rw [strip, List.dropWhile_eq_nil_iff.2 h]
  rfl

theorem strip_append_append {a m b : List α} (ha : ∀ x ∈ a, p x = true)
    (hb : ∀ x ∈ b, p x = true) : strip p (a ++ m ++ b) = strip p m := by
  by_cases hm : ∀ x ∈ m, p x = true
  · rw [strip_eq_nil m hm, strip_eq_nil]
    intro x hx
    simp only [List.mem_append] at hx
    rcases hx with (hx | hx) | hx
    · exact ha x hx
    · exact hm x hx
    · exact hb x hx
  · have hd : (m ++ b).dropWhile p = m.dropWhile p ++ b := by
      rw [List.dropWhile_append, if_neg]
      simpa [List.dropWhile_eq_nil_iff] using hm
    rw [strip, List.append_assoc, List.dropWhile_append_of_pos ha, hd, List.reverse_append,
      List.dropWhile_append_of_pos (by simpa using hb)]
    rfl

theorem strip_strip (s : List α) : strip p (strip p s) = strip p s := by
  obtain ⟨a, b, hs, ha, hb⟩ := exists_eq_append_strip p s
  have h := strip_append_append (m := strip p s) ha hb
  rw [← hs] at h
  exact h.symm

end Strip

/-- A byte of white space, or one that belongs to a character of several bytes. -/
def isInert (b : UInt8) : Bool := (9 ≤ b && b ≤ 13) || b == 32 || 0x80 ≤ b

theorem char_of_blank {x : Symbol} (h : blank x = true) : ∃ c, x = .char c ∧ isBlank c = true := by
  cases x with
  | char c => exact ⟨c, rfl, h⟩
  | stray b => exact absurd h (by simp [blank, Symbol.satisfies])

theorem allBlank_iff {s : Bytes} : allBlank s = true ↔ ∀ x ∈ decode s, blank x = true := by
  rw [allBlank, List.all_eq_true]

theorem decode_append_of_allBlank {s more : Bytes} (h : allBlank s = true) :
    decode (s ++ more) = decode s ++ decode more := by
  apply decode_append_of_chars
  intro x hx
  obtain ⟨c, hc, -⟩ := char_of_blank (allBlank_iff.1 h x hx)
  exact ⟨c, hc⟩

theorem isTail_head_of_allBlank {s : Bytes} (h : allBlank s = true) :
    ∀ x ∈ s.head?, isTail x = false := by
  cases s with
  | nil => simp
  | cons b rest =>
    intro x hx
    obtain rfl : b = x := by simpa using hx
    rw [allBlank_iff, decode_cons] at h
    rcases first_cases b rest with ⟨c, more, hf, he, -, -⟩ | hs
    · exact (encodeChar_shape he).1
    · rw [hs] at h
      exact absurd (h _ List.mem_cons_self) (by simp [blank, Symbol.satisfies])

theorem decode_append_allBlank {s more : Bytes} (h : allBlank more = true) :
    decode (s ++ more) = decode s ++ decode more :=
  decode_append_of_head (isTail_head_of_allBlank h)

theorem allBlank_append_of_left {s more : Bytes} (h : allBlank s = true) :
    allBlank (s ++ more) = allBlank more := by
  unfold allBlank at *
  rw [decode_append_of_allBlank h, List.all_append, h, Bool.true_and]

theorem allBlank_append_of_right {s more : Bytes} (h : allBlank more = true) :
    allBlank (s ++ more) = allBlank s := by
  unfold allBlank at *
  rw [decode_append_allBlank h, List.all_append, h, Bool.and_true]

private theorem decode_encode_strip (s : Bytes) :
    decode (encode (strip blank (decode s))) = strip blank (decode s) := by
  obtain ⟨a, b, hs, -, -⟩ := exists_eq_append_strip blank (decode s)
  rw [List.append_assoc] at hs
  obtain ⟨-, h⟩ := decode_encode_of_eq_append hs
  exact (decode_encode_of_eq_append h).1

theorem decode_trim (s : Bytes) : decode (trim s) = strip blank (decode s) :=
  decode_encode_strip s

/-- A text is what is left of it without white space, with white space around it. -/
theorem exists_eq_append_trim (s : Bytes) :
    ∃ a b, s = a ++ trim s ++ b ∧ allBlank a = true ∧ allBlank b = true := by
  obtain ⟨a, b, hs, ha, hb⟩ := exists_eq_append_strip blank (decode s)
  have hdecode : decode (encode a) = a ∧ decode (encode b) = b := by
    have h := decode_encode_of_eq_append (hs.trans (List.append_assoc _ _ _))
    exact ⟨h.1, (decode_encode_of_eq_append h.2).2⟩
  refine ⟨encode a, encode b, ?_, ?_, ?_⟩
  · calc s = encode (a ++ strip blank (decode s) ++ b) := by rw [← hs, encode_decode]
      _ = encode a ++ trim s ++ encode b := by simp only [encode, List.flatMap_append, trim]
  · rw [allBlank_iff, hdecode.1]
    exact ha
  · rw [allBlank_iff, hdecode.2]
    exact hb

/-- White space around a text does not change what is left without it. -/
theorem trim_append_append {a m b : Bytes} (ha : allBlank a = true) (hb : allBlank b = true) :
    trim (a ++ m ++ b) = trim m := by
  unfold trim
  rw [decode_append_allBlank hb, decode_append_of_allBlank ha,
    strip_append_append (allBlank_iff.1 ha) (allBlank_iff.1 hb)]

@[simp] theorem trim_trim (s : Bytes) : trim (trim s) = trim s := by
  rw [trim, decode_trim, strip_strip]
  rfl

theorem trim_eq_nil_of_allBlank {s : Bytes} (h : allBlank s = true) : trim s = [] := by
  rw [trim, strip_eq_nil _ (allBlank_iff.1 h)]
  rfl

theorem trimLeft_append {a s : Bytes} (ha : allBlank a = true) :
    trimLeft (a ++ s) = trimLeft s := by
  unfold trimLeft
  rw [decode_append_of_allBlank ha, List.dropWhile_append_of_pos (allBlank_iff.1 ha)]

theorem mem_of_mem_trim {s : Bytes} {x : UInt8} (h : x ∈ trim s) : x ∈ s := by
  obtain ⟨a, b, hs, -, -⟩ := exists_eq_append_trim s
  rw [hs]
  exact List.mem_append_left _ (List.mem_append_right _ h)

theorem trim_eq_iff {s : Bytes} : trim s = s ↔ strip blank (decode s) = decode s := by
  constructor
  · intro h
    rw [← decode_trim, h]
  · intro h
    rw [trim, h, encode_decode]

theorem first_ascii {b : UInt8} (rest : Bytes) (h : b < 0x80) :
    first b rest = (.char (Char.ofNat b.toNat), 0) := by
  have ht : trailing b = 0 := by
    rw [trailing, if_pos]
    rw [UInt8.lt_iff_toNat_lt] at *
    exact Nat.lt_trans h (by decide)
  have hv : value b [] = b.toNat := by
    rw [value, if_pos]
    · rfl
    · rw [UInt8.lt_iff_toNat_lt] at *
      exact Nat.lt_trans h (by decide)
  have he : String.utf8EncodeChar (Char.ofNat b.toNat) = [b] := by
    rw [UInt8.lt_iff_toNat_lt] at h
    have hn : (Char.ofNat b.toNat).val.toNat = b.toNat := by
      rw [Char.ofNat, dif_pos (Or.inl (Nat.lt_trans h (by decide)))]
      rfl
    unfold String.utf8EncodeChar
    dsimp only
    rw [hn, if_pos (Nat.le_of_lt_succ h), UInt8.ofNat_toNat]
  unfold first
  rw [ht, List.take_zero]
  dsimp only
  rw [hv, if_pos he]
  rfl

theorem allBlank_of_ascii {s : Bytes} (h : ∀ b ∈ s, b < 0x80 ∧ isBlank (Char.ofNat b.toNat) = true) :
    allBlank s = true := by
  induction s with
  | nil => rfl
  | cons b rest ih =>
    obtain ⟨hb, hc⟩ := h b List.mem_cons_self
    rw [allBlank_iff, decode_cons, first_ascii rest hb]
    intro x hx
    rcases List.mem_cons.1 hx with rfl | hx
    · exact hc
    · exact allBlank_iff.1 (ih fun y hy => h y (List.mem_cons_of_mem _ hy)) x hx

theorem allBlank_cons_of_visible {b : UInt8} (rest : Bytes) (h : b < 0x80)
    (hb : isBlank (Char.ofNat b.toNat) = false) : allBlank (b :: rest) = false := by
  have hblank : blank (.char (Char.ofNat b.toNat)) = false := hb
  rw [allBlank, decode_cons, first_ascii rest h, List.all_cons, hblank, Bool.false_and]

theorem isTail_of_ascii {b : UInt8} (h : b < 0x80) : isTail b = false := by
  rw [UInt8.lt_iff_toNat_lt] at h
  rw [isTail, Bool.and_eq_false_iff]
  left
  rw [decide_eq_false_iff_not, UInt8.le_iff_toNat_le]
  exact Nat.not_le.2 h

theorem allBlank_append_of_visible {b : UInt8} (s rest : Bytes) (h : b < 0x80)
    (hb : isBlank (Char.ofNat b.toNat) = false) : allBlank (s ++ b :: rest) = false := by
  have hcons := allBlank_cons_of_visible rest h hb
  unfold allBlank at *
  rw [decode_append_of_head (by simpa using isTail_of_ascii h), List.all_append, hcons,
    Bool.and_false]

theorem trim_of_visible_ends {a b : UInt8} {inner : Bytes} (ha : a < 0x80) (hb : b < 0x80)
    (hav : isBlank (Char.ofNat a.toNat) = false) (hbv : isBlank (Char.ofNat b.toNat) = false) :
    trim (a :: (inner ++ [b])) = a :: (inner ++ [b]) := by
  have hlast : decode (inner ++ [b]) = decode inner ++ [.char (Char.ofNat b.toNat)] := by
    rw [decode_append_of_head, decode_cons, first_ascii [] hb]
    · rfl
    · simpa using isTail_of_ascii hb
  have hdecode : decode (a :: (inner ++ [b])) =
      .char (Char.ofNat a.toNat) :: (decode inner ++ [.char (Char.ofNat b.toNat)]) := by
    rw [decode_cons, first_ascii _ ha, List.drop_zero, hlast]
  have hablank : blank (.char (Char.ofNat a.toNat)) = false := hav
  have hbblank : blank (.char (Char.ofNat b.toNat)) = false := hbv
  rw [trim_eq_iff, hdecode, strip, List.dropWhile_cons_of_neg (by rw [hablank]; simp)]
  rw [← List.cons_append, List.reverse_append, List.reverse_singleton, List.singleton_append,
    List.dropWhile_cons_of_neg (by rw [hbblank]; simp), ← List.singleton_append,
    List.reverse_append, List.reverse_reverse]
  rfl

theorem allBlank_of_isGap {s : Bytes} (h : ∀ b ∈ s, Bytes.isGap b = true) : allBlank s = true := by
  apply allBlank_of_ascii
  intro b hb
  have hg := h b hb
  simp only [Bytes.isGap, Bool.or_eq_true, beq_iff_eq] at hg
  rcases hg with rfl | rfl
  · decide
  · decide

theorem allBlank_replicate (n : Nat) : allBlank (List.replicate n 32) = true := by
  apply allBlank_of_isGap
  intro b hb
  rw [List.eq_of_mem_replicate hb]
  rfl

private theorem isInert_of_isBlank {c : Char} (h : isBlank c = true) {b : UInt8}
    (hb : b ∈ String.utf8EncodeChar c) : isInert b = true := by
  unfold String.utf8EncodeChar at hb
  dsimp only at hb
  simp only [isBlank, Char.toNat, Bool.or_eq_true, Bool.and_eq_true, decide_eq_true_eq,
    beq_iff_eq] at h
  split_ifs at hb
  all_goals
    simp only [List.mem_cons, List.not_mem_nil, or_false] at hb
    simp only [isInert, UInt8.le_iff_toNat_le, Bool.or_eq_true, Bool.and_eq_true,
      decide_eq_true_eq, beq_iff_eq, ← UInt8.toNat_inj]
  · subst hb
    simp only [UInt8.toNat_ofNat', UInt8.toNat_ofNat]
    omega
  · rcases hb with rfl | rfl
    all_goals
      simp only [UInt8.toNat_ofNat', UInt8.toNat_ofNat]
      omega
  · rcases hb with rfl | rfl | rfl
    all_goals
      simp only [UInt8.toNat_ofNat', UInt8.toNat_ofNat]
      omega
  · omega

theorem isInert_of_allBlank {s : Bytes} (h : allBlank s = true) {b : UInt8} (hb : b ∈ s) :
    isInert b = true := by
  rw [← encode_decode s] at hb
  obtain ⟨x, hx, hbx⟩ := List.mem_flatMap.1 hb
  obtain ⟨c, rfl, hc⟩ := char_of_blank (allBlank_iff.1 h x hx)
  exact isInert_of_isBlank hc hbx

theorem allBlank_of_mem {s : Bytes} {b : UInt8} (hb : b ∈ s) (h : isInert b = false) :
    allBlank s = false := by
  rw [Bool.eq_false_iff]
  intro hs
  exact absurd ((isInert_of_allBlank hs hb).symm.trans h) (by simp)

/-- What is left of a text without white space and without the characters of several bytes. -/
def visible (s : Bytes) : Bytes := s.filter (!isInert ·)

theorem visible_append (s t : Bytes) : visible (s ++ t) = visible s ++ visible t :=
  List.filter_append s t

theorem visible_of_allBlank {s : Bytes} (h : allBlank s = true) : visible s = [] := by
  rw [visible, List.filter_eq_nil_iff]
  intro b hb
  rw [isInert_of_allBlank h hb]
  exact Bool.false_ne_true

theorem lt_of_isInert {b : UInt8} (h : isInert b = false) : b < 0x80 := by
  simp only [isInert, Bool.or_eq_false_iff, decide_eq_false_iff_not] at h
  exact UInt8.not_le.1 h.2

end Reindent.Text
