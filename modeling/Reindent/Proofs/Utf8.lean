import Mathlib.Data.List.Basic
import Reindent.Text.Utf8

/-! Decoding of texts that are put together. A character never takes bytes of its neighbours, so
decoding commutes with appending wherever the second text does not start inside a character. -/
namespace Reindent.Utf8

/-- Bytes that only stand inside a character. -/
def isTail (b : UInt8) : Bool := 0x80 ≤ b && b < 0xC0

/-- The first byte of a character tells how many follow it, and it never stands inside one. -/
theorem encodeChar_shape {c : Char} {b : UInt8} {more : Bytes}
    (h : String.utf8EncodeChar c = b :: more) :
    isTail b = false ∧ more.length = trailing b ∧ ∀ x ∈ more, isTail x = true := by
  unfold String.utf8EncodeChar at h
  dsimp only at h
  split_ifs at h
  all_goals
    obtain ⟨rfl, rfl⟩ := List.cons.inj h
    simp only [isTail, trailing, UInt8.le_iff_toNat_le, UInt8.lt_iff_toNat_lt, UInt8.toNat_ofNat,
      List.length_cons, List.length_nil, List.mem_cons, List.not_mem_nil, or_false,
      forall_eq_or_imp, forall_eq, Bool.and_eq_false_iff, Bool.and_eq_true, decide_eq_true_eq,
      decide_eq_false_iff_not, UInt8.toNat_ofNat']
  · exact ⟨by omega, by split_ifs <;> omega, by simp⟩
  · exact ⟨by omega, by split_ifs <;> omega, by omega⟩
  · exact ⟨by omega, by split_ifs <;> omega, by omega⟩
  · exact ⟨by omega, by split_ifs <;> omega, by omega⟩

theorem first_cases (b : UInt8) (rest : Bytes) :
    (∃ c more, first b rest = (.char c, more.length) ∧ String.utf8EncodeChar c = b :: more ∧
      more = rest.take (trailing b) ∧ more.length = trailing b) ∨
    first b rest = (.stray b, 0) := by
  unfold first
  dsimp only
  split_ifs with h
  · left
    exact ⟨_, _, rfl, h, rfl, (encodeChar_shape h).2.1⟩
  · right
    rfl

theorem first_append_of_le {b : UInt8} {rest more : Bytes}
    (h : (first b (rest ++ more)).2 ≤ rest.length) : first b (rest ++ more) = first b rest := by
  rcases first_cases b (rest ++ more) with ⟨c, tail, hf, he, ht, hl⟩ | hs
  · rw [hf] at h
    dsimp only at h
    have htake : rest.take (trailing b) = tail := by
      rw [ht, List.take_append_of_le_length (by omega)]
    rw [hf]
    unfold first
    dsimp only
    have hc : Char.ofNat (value b tail) = c := by
      unfold first at hf
      dsimp only at hf
      split_ifs at hf
      · rw [ht]
        exact Symbol.char.inj (congrArg Prod.fst hf)
      · exact absurd hf (by simp)
    rw [htake, hc, if_pos he]
  · rw [hs]
    rcases first_cases b rest with ⟨c, tail, hf, he, ht, hl⟩ | hs'
    · -- a whole character stays one when more bytes follow
      exfalso
      have hle : trailing b ≤ rest.length := by
        rw [← hl, ht, List.length_take]
        exact Nat.min_le_right _ _
      unfold first at hs hf
      dsimp only at hs hf
      rw [List.take_append_of_le_length hle] at hs
      split_ifs at hs hf
      all_goals simp at hs hf
    · exact hs'.symm

theorem first_append_of_char {b : UInt8} {rest more : Bytes} {c : Char}
    (h : (first b rest).1 = .char c) : first b (rest ++ more) = first b rest := by
  rcases first_cases b rest with ⟨c, tail, hf, he, ht, hl⟩ | hs
  · have hle : trailing b ≤ rest.length := by
      rw [← hl, ht, List.length_take]
      exact Nat.min_le_right _ _
    unfold first
    rw [List.take_append_of_le_length hle]
  · rw [hs] at h
    exact absurd h (by simp)

/-- A text that does not start inside a character adds nothing to the character in front of it. -/
theorem first_append_of_head {b : UInt8} {rest more : Bytes}
    (h : ∀ x ∈ more.head?, isTail x = false) : first b (rest ++ more) = first b rest := by
  apply first_append_of_le
  rcases first_cases b (rest ++ more) with ⟨c, tail, hf, he, ht, hl⟩ | hs
  · rw [hf]
    by_contra hlt
    dsimp only at hlt
    cases more with
    | nil =>
      rw [ht] at hlt
      simp only [List.append_nil, List.length_take] at hlt
      omega
    | cons x more =>
      have hx : x ∈ tail := by
        rw [ht, List.mem_take_iff_getElem]
        exact ⟨rest.length, by simp only [List.length_append, List.length_cons]; omega, by simp⟩
      have hx' := (encodeChar_shape he).2.2 x hx
      rw [h x rfl] at hx'
      exact absurd hx' (by simp)
  · rw [hs]
    exact Nat.zero_le _

theorem decodeFrom_eq (s : Bytes) (skip : Nat) : decodeFrom skip s = decode (s.drop skip) := by
  induction s generalizing skip with
  | nil => simp [decode, decodeFrom]
  | cons b rest ih =>
    cases skip with
    | zero => rfl
    | succ skip => simpa [decodeFrom] using ih skip

@[simp] theorem decode_nil : decode [] = [] := rfl

theorem decode_cons (b : UInt8) (rest : Bytes) :
    decode (b :: rest) = (first b rest).1 :: decode (rest.drop (first b rest).2) := by
  change _ :: decodeFrom _ rest = _
  rw [decodeFrom_eq]

theorem snd_first_le (b : UInt8) (rest : Bytes) : (first b rest).2 ≤ rest.length := by
  rcases first_cases b rest with ⟨c, tail, hf, he, ht, hl⟩ | hs
  · rw [hf, ht, List.length_take]
    exact Nat.min_le_right _ _
  · rw [hs]
    exact Nat.zero_le _

theorem bytes_fst_first (b : UInt8) (rest : Bytes) :
    (first b rest).1.bytes = b :: rest.take (first b rest).2 := by
  rcases first_cases b rest with ⟨c, tail, hf, he, ht, hl⟩ | hs
  · rw [hf, hl, ← ht]
    exact he
  · rw [hs]
    rfl

theorem decode_append_of_head {s more : Bytes} (h : ∀ x ∈ more.head?, isTail x = false) :
    decode (s ++ more) = decode s ++ decode more := by
  induction hn : s.length using Nat.strongRecOn generalizing s with
  | _ n ih =>
    cases s with
    | nil => rfl
    | cons b rest =>
      rw [List.cons_append, decode_cons, decode_cons, first_append_of_head h,
        List.drop_append_of_le_length (snd_first_le b rest)]
      rw [ih _ (by rw [← hn, List.length_drop, List.length_cons]; omega) rfl]
      rfl

theorem decode_append_of_chars {s more : Bytes}
    (h : ∀ x ∈ decode s, ∃ c, x = .char c) : decode (s ++ more) = decode s ++ decode more := by
  induction hn : s.length using Nat.strongRecOn generalizing s with
  | _ n ih =>
    cases s with
    | nil => rfl
    | cons b rest =>
      rw [decode_cons] at h
      obtain ⟨c, hc⟩ := h _ List.mem_cons_self
      rw [List.cons_append, decode_cons, decode_cons, first_append_of_char hc,
        List.drop_append_of_le_length (snd_first_le b rest)]
      rw [ih _ (by rw [← hn, List.length_drop, List.length_cons]; omega)
        (fun x hx => h x (List.mem_cons_of_mem _ hx)) rfl]
      rfl

/-- The two parts of a text that is cut between characters decode as they did in the whole. -/
theorem decode_encode_of_eq_append {s : Bytes} {p q : List Symbol} (h : decode s = p ++ q) :
    decode (encode p) = p ∧ decode (encode q) = q := by
  induction p generalizing s with
  | nil =>
    refine ⟨rfl, ?_⟩
    rw [← List.nil_append q, ← h, encode_decode]
  | cons x p ih =>
    cases s with
    | nil => exact absurd h (by simp)
    | cons b rest =>
      rw [decode_cons, List.cons_append] at h
      obtain ⟨hx, ht⟩ := List.cons.inj h
      obtain ⟨hp, hq⟩ := ih ht
      refine ⟨?_, hq⟩
      have hsplit : rest = rest.take (first b rest).2 ++ encode p ++ encode q := by
        have he : encode p ++ encode q = rest.drop (first b rest).2 := by
          rw [← encode_decode (rest.drop (first b rest).2), ht]
          simp [encode]
        rw [List.append_assoc, he, List.take_append_drop]
      have hlen : (rest.take (first b rest).2).length = (first b rest).2 := by
        rw [List.length_take]
        exact Nat.min_eq_left (snd_first_le b rest)
      have hfirst : first b (rest.take (first b rest).2 ++ encode p) = first b rest := by
        nth_rewrite 3 [hsplit]
        symm
        apply first_append_of_le
        rw [← hsplit, List.length_append, hlen]
        omega
      change decode (x.bytes ++ encode p) = _
      rw [← hx, bytes_fst_first, List.cons_append, decode_cons, hfirst]
      nth_rewrite 1 [← hlen]
      rw [List.drop_left, hp]

end Reindent.Utf8
