import Mathlib.Algebra.Group.Nat.Defs
import Reindent.Proofs.Embedding.Closers
import Reindent.Text.Quoted

/-! Quoted texts can be read back. Inside quotes an escape starts with a backslash and the text ends
with a double quote; any other byte stands for itself. Reading does not depend on the characters
that were taken for printable. -/
namespace Reindent.Text
open Bytes Utf8

def digitValue (b : UInt8) : Nat := if b < 58 then b.toNat - 48 else b.toNat - 87

def number (digits : Bytes) : Nat := digits.foldl (fun n b => n * 16 + digitValue b) 0

/-- The byte that a backslash and one more byte stand for. -/
def unescape (b : UInt8) : UInt8 :=
  ((List.range 14).find? fun n => shortEscape? n = some b).elim b Nat.toUInt8

/-- What stands behind a backslash: the bytes it means, and how many bytes spell them. -/
def escaped : Bytes → Bytes × Nat
  | [] => ([], 0)
  | b :: rest =>
    if b = 120 then ([(number (rest.take 2)).toUInt8], 3)
    else if b = 117 then (String.utf8EncodeChar (Char.ofNat (number (rest.take 4))), 5)
    else if b = 85 then (String.utf8EncodeChar (Char.ofNat (number (rest.take 8))), 9)
    else ([unescape b], 1)

/-- The quoted texts after the next `skip` bytes, put together. The flag tells whether reading
starts inside quotes. -/
def unquoteFrom : Bool → Nat → Bytes → Bytes
  | _, _, [] => []
  | inside, skip + 1, _ :: rest => unquoteFrom inside skip rest
  | false, 0, b :: rest => unquoteFrom (b == 34) 0 rest
  | true, 0, b :: rest =>
    if b = 34 then unquoteFrom false 0 rest
    else if b = 92 then (escaped rest).1 ++ unquoteFrom true (escaped rest).2 rest
    else b :: unquoteFrom true 0 rest

def unquote (s : Bytes) : Bytes := unquoteFrom false 0 s

section Digits

private theorem hexDigit_facts {n : Nat} (h : n < 16) :
    digitValue (hexDigit n) = n ∧ newline ≠ hexDigit n := by
  have hall : ∀ m : Fin 16, digitValue (hexDigit m) = m ∧ newline ≠ hexDigit m := by decide
  exact hall ⟨n, h⟩

@[simp] theorem length_hex (digits n : Nat) : (hex digits n).length = digits := by
  induction digits with
  | zero => rfl
  | succ digits ih => rw [hex, List.length_cons, ih]

theorem newline_notMem_hex (digits n : Nat) : newline ∉ hex digits n := by
  induction digits with
  | zero => exact List.not_mem_nil
  | succ digits ih =>
    have hdigit := (hexDigit_facts (Nat.mod_lt (n / Nat.pow 16 digits) (by decide : 0 < 16))).2
    rw [hex, List.mem_cons, not_or]
    exact ⟨hdigit, ih⟩

private theorem foldl_hex (digits n start : Nat) :
    (hex digits n).foldl (fun n b => n * 16 + digitValue b) start =
      start * 16 ^ digits + n % 16 ^ digits := by
  induction digits generalizing start with
  | zero => rw [hex, List.foldl_nil, Nat.pow_zero, Nat.mul_one, Nat.mod_one, Nat.add_zero]
  | succ digits ih =>
    have hdigit := (hexDigit_facts (Nat.mod_lt (n / 16 ^ digits) (by decide : 0 < 16))).1
    rw [hex, List.foldl_cons, ih]
    change (start * 16 + digitValue (hexDigit (n / 16 ^ digits % 16))) * _ + _ = _
    rw [hdigit, Nat.mod_pow_succ, Nat.pow_succ, Nat.add_mul, Nat.mul_assoc, Nat.mul_comm 16,
      Nat.mul_comm (n / 16 ^ digits % 16)]
    omega

theorem number_hex {digits n : Nat} (h : n < 16 ^ digits) : number (hex digits n) = n := by
  rw [number, foldl_hex, Nat.zero_mul, Nat.zero_add, Nat.mod_eq_of_lt h]

end Digits

section Reading

theorem unquoteFrom_drop (inside : Bool) (skip : Nat) (s : Bytes) :
    unquoteFrom inside skip s = unquoteFrom inside 0 (s.drop skip) := by
  induction s generalizing skip with
  | nil => rw [List.drop_nil, unquoteFrom, unquoteFrom]
  | cons b rest ih =>
    cases skip with
    | zero => rfl
    | succ skip => rw [unquoteFrom, ih, List.drop_succ_cons]

theorem unquote_append {front : Bytes} (h : 34 ∉ front) (rest : Bytes) :
    unquote (front ++ rest) = unquote rest := by
  induction front with
  | nil => rfl
  | cons b front ih =>
    rw [List.mem_cons, not_or] at h
    have hopen : (b == 34) = false := beq_eq_false_iff_ne.2 (Ne.symm h.1)
    rw [List.cons_append, unquote, unquoteFrom, hopen]
    exact ih h.2

theorem unquote_of_notMem {s : Bytes} (h : 34 ∉ s) : unquote s = [] := by
  rw [← List.append_nil s, unquote_append h]
  rfl

theorem unquoteFrom_append {part : Bytes} (h : ∀ b ∈ part, b ≠ 34 ∧ b ≠ 92) (rest : Bytes) :
    unquoteFrom true 0 (part ++ rest) = part ++ unquoteFrom true 0 rest := by
  induction part with
  | nil => rfl
  | cons b part ih =>
    obtain ⟨hquote, hslash⟩ := h b List.mem_cons_self
    rw [List.cons_append, unquoteFrom, if_neg hquote, if_neg hslash,
      ih fun x hx => h x (List.mem_cons_of_mem _ hx)]
    rfl

/-- An escape stands for what its bytes mean, whatever follows it. -/
theorem unquoteFrom_escape (spelling rest : Bytes) {meaning : Bytes}
    (h : escaped (spelling ++ rest) = (meaning, spelling.length)) :
    unquoteFrom true 0 (92 :: (spelling ++ rest)) = meaning ++ unquoteFrom true 0 rest := by
  rw [unquoteFrom, if_neg (by decide), if_pos rfl, h, unquoteFrom_drop, List.drop_left]

private theorem take_hex (digits n : Nat) (rest : Bytes) :
    (hex digits n ++ rest).take digits = hex digits n :=
  List.take_left' (length_hex digits n)

theorem unquoteFrom_byte {n : Nat} (h : n < 256) (rest : Bytes) :
    unquoteFrom true 0 (92 :: 120 :: hex 2 n ++ rest) = [n.toUInt8] ++ unquoteFrom true 0 rest := by
  apply unquoteFrom_escape (120 :: hex 2 n)
  rw [List.cons_append, escaped, if_pos rfl, take_hex, number_hex h, List.length_cons, length_hex]

theorem unquoteFrom_short {c : Char} (h : c.toNat < 65536) (rest : Bytes) :
    unquoteFrom true 0 (92 :: 117 :: hex 4 c.toNat ++ rest) =
      String.utf8EncodeChar c ++ unquoteFrom true 0 rest := by
  apply unquoteFrom_escape (117 :: hex 4 c.toNat)
  rw [List.cons_append, escaped, if_neg (by decide), if_pos rfl, take_hex, number_hex h,
    Char.ofNat_toNat, List.length_cons, length_hex]

theorem unquoteFrom_long (c : Char) (rest : Bytes) :
    unquoteFrom true 0 (92 :: 85 :: hex 8 c.toNat ++ rest) =
      String.utf8EncodeChar c ++ unquoteFrom true 0 rest := by
  have hc : c.toNat < 16 ^ 8 := by
    rcases c.valid with h | ⟨-, h⟩
    · exact Nat.lt_trans h (by decide)
    · exact Nat.lt_trans h (by decide)
  apply unquoteFrom_escape (85 :: hex 8 c.toNat)
  rw [List.cons_append, escaped, if_neg (by decide), if_neg (by decide), if_pos rfl, take_hex,
    number_hex hc, Char.ofNat_toNat, List.length_cons, length_hex]

end Reading

section Characters

/-- The letter of a short escape means its control character again. -/
private theorem unescape_of_shortEscape? {c : Char} {letter : UInt8}
    (h : shortEscape? c.toNat = some letter) :
    String.utf8EncodeChar c = [unescape letter] ∧ letter ∉ [newline, 85, 117, 120] := by
  have hlow : c.toNat < 14 := by
    by_contra hge
    unfold shortEscape? at h
    split at h
    case h_8 => exact absurd h (by simp)
    all_goals omega
  have hall : ∀ n < 14, (shortEscape? n).all (fun letter =>
      String.utf8EncodeChar (Char.ofNat n) == [unescape letter] &&
        !List.contains [newline, 85, 117, 120] letter) = true := by
    decide
  have hletter := hall c.toNat hlow
  rw [h, Char.ofNat_toNat, Option.all_some, Bool.and_eq_true, beq_iff_eq] at hletter
  exact ⟨hletter.1, by simpa using hletter.2⟩

private theorem bytes_of_ne {c : Char} (h : ¬ (c = '"' ∨ c = '\\')) :
    ∀ b ∈ String.utf8EncodeChar c, b ≠ 34 ∧ b ≠ 92 := by
  rw [not_or] at h
  intro b hb
  constructor
  · rintro rfl
    have hc := (encodeChar_of_ascii (by decide) hb).2
    exact h.1 (Char.toNat_inj.1 hc)
  · rintro rfl
    have hc := (encodeChar_of_ascii (by decide) hb).2
    exact h.2 (Char.toNat_inj.1 hc)

private theorem encodeChar_of_lt {c : Char} (h : c.toNat < 128) :
    String.utf8EncodeChar c = [c.toNat.toUInt8] := by
  unfold String.utf8EncodeChar
  dsimp only
  exact if_pos (Nat.le_of_lt_succ h)

/-- The ways a character is written: with its own bytes, with a letter or with its number. -/
inductive Spelling (c : Char) : Bytes → Prop
  | literal : (∀ b ∈ String.utf8EncodeChar c, b ≠ 34 ∧ b ≠ 92) →
      Spelling c (String.utf8EncodeChar c)
  | letter (b : UInt8) : String.utf8EncodeChar c = [unescape b] → b ∉ [newline, 85, 117, 120] →
      Spelling c [92, b]
  | byte : c.toNat < 128 → Spelling c (92 :: 120 :: hex 2 c.toNat)
  | short : c.toNat < 65536 → Spelling c (92 :: 117 :: hex 4 c.toNat)
  | long : Spelling c (92 :: 85 :: hex 8 c.toNat)

theorem spelling_quoteChar (printable : Char → Bool) (c : Char) :
    Spelling c (quoteChar printable c) := by
  by_cases hmark : c = '"' ∨ c = '\\'
  · rw [quoteChar, if_pos hmark]
    rcases hmark with rfl | rfl
    · exact .letter 34 (by decide) (by decide)
    · exact .letter 92 (by decide) (by decide)
  · rw [quoteChar, if_neg hmark]
    by_cases hprintable : printable c = true
    · rw [if_pos hprintable]
      exact .literal (bytes_of_ne hmark)
    · rw [if_neg hprintable]
      cases hletter : shortEscape? c.toNat with
      | some b =>
        obtain ⟨hbytes, hb⟩ := unescape_of_shortEscape? hletter
        exact .letter b hbytes hb
      | none =>
        dsimp only
        split_ifs with hcontrol hshort
        · exact .byte (by omega)
        · exact .short hshort
        · exact .long

/-- However a character is written, it is read back. -/
theorem Spelling.unquoteFrom {c : Char} {spelling : Bytes} (h : Spelling c spelling)
    (rest : Bytes) : unquoteFrom true 0 (spelling ++ rest) =
      String.utf8EncodeChar c ++ unquoteFrom true 0 rest := by
  cases h with
  | literal hplain => exact unquoteFrom_append hplain rest
  | letter b hbytes hb =>
    simp only [List.mem_cons, List.not_mem_nil, or_false, not_or] at hb
    obtain ⟨-, hlong, hshort, hbyte⟩ := hb
    apply unquoteFrom_escape [b]
    rw [List.singleton_append, escaped, if_neg hbyte, if_neg hshort, if_neg hlong, hbytes]
    rfl
  | byte hlow =>
    rw [encodeChar_of_lt hlow]
    exact unquoteFrom_byte (by omega) rest
  | short hlow => exact unquoteFrom_short hlow rest
  | long => exact unquoteFrom_long c rest

theorem Spelling.newline_notMem {c : Char} {spelling : Bytes} (h : Spelling c spelling)
    (hc : newline ∉ String.utf8EncodeChar c) : newline ∉ spelling := by
  have hnumber : ∀ kind ≠ newline, ∀ digits, newline ∉ 92 :: kind :: hex digits c.toNat := by
    intro kind hkind digits
    rw [List.mem_cons, List.mem_cons, not_or, not_or]
    exact ⟨by decide, Ne.symm hkind, newline_notMem_hex digits c.toNat⟩
  cases h with
  | literal _ => exact hc
  | letter b _ hb =>
    rw [List.mem_cons, not_or, List.mem_singleton]
    constructor
    · decide
    · rintro rfl
      exact hb List.mem_cons_self
  | byte _ => exact hnumber 120 (by decide) 2
  | short _ => exact hnumber 117 (by decide) 4
  | long => exact hnumber 85 (by decide) 8

theorem unquoteFrom_quoteSymbol (printable : Char → Bool) (x : Symbol) (rest : Bytes) :
    unquoteFrom true 0 (quoteSymbol printable x ++ rest) = x.bytes ++ unquoteFrom true 0 rest := by
  cases x with
  | char c => exact (spelling_quoteChar printable c).unquoteFrom rest
  | stray b =>
    have h := unquoteFrom_byte b.toNat_lt rest
    rw [Nat.toUInt8_eq, UInt8.ofNat_toNat] at h
    exact h

theorem newline_notMem_quoteSymbol (printable : Char → Bool) {x : Symbol}
    (h : newline ∉ x.bytes) : newline ∉ quoteSymbol printable x := by
  cases x with
  | char c => exact (spelling_quoteChar printable c).newline_notMem h
  | stray b =>
    have hdigits := newline_notMem_hex 2 b.toNat
    rw [quoteSymbol, List.mem_cons, List.mem_cons, not_or, not_or]
    exact ⟨by decide, by decide, hdigits⟩

end Characters

section Texts
variable (printable : Char → Bool)

private theorem unquoteFrom_flatMap (symbols : List Symbol) (rest : Bytes) :
    unquoteFrom true 0 (symbols.flatMap (quoteSymbol printable) ++ rest) =
      encode symbols ++ unquoteFrom true 0 rest := by
  induction symbols with
  | nil => rfl
  | cons x symbols ih =>
    rw [List.flatMap_cons, List.append_assoc, unquoteFrom_quoteSymbol, ih, encode, encode,
      List.flatMap_cons, List.append_assoc]

/-- A quoted text is read back and reading goes on behind it. -/
theorem unquote_quoteWith (s rest : Bytes) :
    unquote (quoteWith printable s ++ rest) = s ++ unquote rest := by
  calc unquote (quoteWith printable s ++ rest)
      = unquoteFrom true 0 ((decode s).flatMap (quoteSymbol printable) ++ ([34] ++ rest)) := by
        rw [← List.append_assoc]
        rfl
    _ = encode (decode s) ++ unquoteFrom true 0 ([34] ++ rest) := unquoteFrom_flatMap printable _ _
    _ = s ++ unquote rest := by
        rw [encode_decode]
        rfl

/-- Quotes add no newlines, whatever is printable. -/
theorem newline_notMem_quoteWith {s : Bytes} (h : newline ∉ s) :
    newline ∉ quoteWith printable s := by
  have hsymbols : ∀ x ∈ decode s, newline ∉ x.bytes := by
    intro x hx hmem
    apply h
    rw [← encode_decode s]
    exact List.mem_flatMap.2 ⟨x, hx, hmem⟩
  have hbody : newline ∉ (decode s).flatMap (quoteSymbol printable) := by
    intro hmem
    obtain ⟨x, hx, hin⟩ := List.mem_flatMap.1 hmem
    exact newline_notMem_quoteSymbol printable (hsymbols x hx) hin
  rw [quoteWith, List.cons_append, List.mem_cons, List.mem_append, not_or, not_or]
  exact ⟨by decide, hbody, by decide⟩

end Texts
end Reindent.Text
