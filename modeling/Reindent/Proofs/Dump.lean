import Reindent.Proofs.Quoting
import Reindent.Proofs.Safety

/-! Dumps hold all of their documents. Outside the quoted texts there are no quotes and no newlines,
so the texts of the tokens can be read back from every line of a dump. -/
namespace Reindent
open Bytes Text

namespace Dump

/-- Text that neither starts a quoted text nor ends a line. -/
def Plain (s : Bytes) : Prop := 34 ∉ s ∧ newline ∉ s

instance (s : Bytes) : Decidable (Plain s) := inferInstanceAs (Decidable (_ ∧ _))

theorem plain_append {a b : Bytes} : Plain (a ++ b) ↔ Plain a ∧ Plain b := by
  simp only [Plain, List.mem_append, not_or]
  tauto

theorem Plain.cons {x : UInt8} {s : Bytes} (hx : Plain [x]) (hs : Plain s) : Plain (x :: s) :=
  plain_append.2 ⟨hx, hs⟩

theorem plain_ite {p : Prop} [Decidable p] {a b : Bytes} (ha : Plain a) (hb : Plain b) :
    Plain (if p then a else b) := by
  split_ifs
  · exact ha
  · exact hb

theorem plain_natural (n : Nat) : Plain (Decimal.natural n) := by
  have hdigits : ∀ b ∈ Decimal.natural n, 48 ≤ b.toNat := by
    intro b hb
    obtain ⟨c, hc, rfl⟩ := List.mem_map.1 hb
    have hdigit := Nat.isDigit_of_mem_toDigits (by decide) (by decide) hc
    obtain ⟨hlow, hhigh⟩ := Char.isDigit_iff_toNat.1 hdigit
    have hzero : '0'.toNat = 48 := rfl
    have hnine : '9'.toNat = 57 := rfl
    rw [Nat.toUInt8_eq, UInt8.toNat_ofNat']
    omega
  constructor
  · intro hb
    exact absurd (hdigits _ hb) (by decide)
  · intro hb
    exact absurd (hdigits _ hb) (by decide)

theorem plain_integer (n : Int64) : Plain (Decimal.integer n) := by
  unfold Decimal.integer
  exact plain_ite (.cons (by decide) (plain_natural _)) (plain_natural _)

theorem plain_signed (n : Int64) : Plain (Decimal.signed n) := by
  unfold Decimal.signed
  split_ifs
  · exact .cons (by decide) (plain_natural _)
  · exact .cons (by decide) (plain_natural _)

theorem plain_padded (width : Nat) (n : Int64) : Plain (Decimal.padded width n) := by
  have hspaces : ∀ count, Plain (List.replicate count 32) := by
    intro count
    constructor
    · intro h
      exact absurd (List.eq_of_mem_replicate h) (by decide)
    · intro h
      exact absurd (List.eq_of_mem_replicate h) (by decide)
  exact plain_append.2 ⟨hspaces _, plain_integer n⟩

theorem plain_variant (t : Token) : Plain t.variant := by
  unfold Token.variant
  split
  all_goals decide

theorem plain_name (kind : Kind) : Plain kind.name := by
  cases kind with
  | other code _ =>
    exact plain_append.2 ⟨plain_append.2 ⟨by decide, plain_integer code⟩, by decide⟩
  | _ => decide

end Dump

namespace Token
open Dump
variable (printable : Char → Bool) (t : Token)

theorem exists_describeWith : ∃ front back, Plain front ∧ Plain back ∧
    t.describeWith printable = front ++ quoteWith printable t.text ++ back := by
  have hfront : Plain (t.variant ++ ascii "(" ++ t.kind.name ++ ascii ":") := by
    simp only [plain_append]
    exact ⟨⟨⟨plain_variant t, by decide⟩, plain_name t.kind⟩, by decide⟩
  have hback : Plain (ascii ")" ++ (if t.ignore then ascii "!" else []) ++
      (if t.offset = 0 then [] else Decimal.signed t.offset)) := by
    simp only [plain_append]
    exact ⟨⟨by decide, plain_ite (by decide) (by decide)⟩,
      plain_ite (by decide) (plain_signed t.offset)⟩
  refine ⟨_, _, hfront, hback, ?_⟩
  simp only [describeWith, List.append_assoc]

theorem unquote_describeWith (rest : Bytes) :
    unquote (t.describeWith printable ++ rest) = t.text ++ unquote rest := by
  obtain ⟨front, back, hfront, hback, heq⟩ := t.exists_describeWith printable
  rw [heq, List.append_assoc, List.append_assoc, unquote_append hfront.1,
    unquote_quoteWith, unquote_append hback.1]

theorem newline_notMem_describeWith {t : Token} (h : newline ∉ t.text) :
    newline ∉ t.describeWith printable := by
  obtain ⟨front, back, hfront, hback, heq⟩ := t.exists_describeWith printable
  rw [heq, List.mem_append, List.mem_append, not_or, not_or]
  exact ⟨⟨hfront.2, newline_notMem_quoteWith printable h⟩, hback.2⟩

theorem unquote_join (ts : List Token) (rest : Bytes) :
    unquote (join (ascii ", ") (ts.map (describeWith printable)) ++ rest) =
      ts.flatMap Token.text ++ unquote rest := by
  induction ts with
  | nil => rfl
  | cons t ts ih =>
    cases ts with
    | nil =>
      rw [List.flatMap_cons, List.flatMap_nil, List.append_nil]
      exact t.unquote_describeWith printable rest
    | cons u us =>
      rw [List.map_cons, List.map_cons, join, List.append_assoc, List.append_assoc,
        unquote_describeWith, unquote_append (by decide), ← List.map_cons, ih,
        ← List.append_assoc, ← List.flatMap_cons]
      exact List.cons_ne_nil _ _

theorem newline_notMem_join {ts : List Token} (h : ∀ t ∈ ts, newline ∉ t.text) :
    newline ∉ join (ascii ", ") (ts.map (describeWith printable)) := by
  induction ts with
  | nil => exact List.not_mem_nil
  | cons t ts ih =>
    have ht := newline_notMem_describeWith printable (h t List.mem_cons_self)
    cases ts with
    | nil => exact ht
    | cons u us =>
      have hrest := ih fun x hx => h x (List.mem_cons_of_mem _ hx)
      rw [List.map_cons, List.map_cons, join, List.mem_append, List.mem_append, not_or, not_or]
      · exact ⟨⟨ht, by decide⟩, hrest⟩
      · exact List.cons_ne_nil _ _

end Token

namespace Line
open Dump
variable (printable : Char → Bool) (l : Line)

theorem exists_describeWith : ∃ front, Plain front ∧ l.describeWith printable =
    front ++ join (ascii ", ") (l.tokens.map (Token.describeWith printable)) ++ ascii "]" := by
  have hfront : Plain (Decimal.padded 3 l.number ++ ascii " " ++ Decimal.padded 2 l.level ++
      Decimal.signed l.offset ++ (if l.ignore then ascii "!" else ascii " ") ++ ascii " [") := by
    simp only [plain_append]
    exact ⟨⟨⟨⟨⟨plain_padded 3 l.number, by decide⟩, plain_padded 2 l.level⟩,
      plain_signed l.offset⟩, plain_ite (by decide) (by decide)⟩, by decide⟩
  exact ⟨_, hfront, rfl⟩

/-- The bytes of a line are read back from its description. -/
theorem unquote_describeWith : unquote (l.describeWith printable) = l.raw := by
  obtain ⟨front, hfront, heq⟩ := l.exists_describeWith printable
  rw [heq, List.append_assoc, unquote_append hfront.1, Token.unquote_join,
    unquote_of_notMem (by decide), List.append_nil, raw]

theorem newline_notMem_describeWith {l : Line} (h : newline ∉ l.raw) :
    newline ∉ l.describeWith printable := by
  have htokens : ∀ t ∈ l.tokens, newline ∉ t.text := fun t ht hmem =>
    h (List.mem_flatMap.2 ⟨t, ht, hmem⟩)
  have hjoin := Token.newline_notMem_join printable htokens
  obtain ⟨front, hfront, heq⟩ := l.exists_describeWith printable
  rw [heq, List.mem_append, List.mem_append, not_or, not_or]
  exact ⟨⟨hfront.2, hjoin⟩, by decide⟩

end Line

namespace Formatter
variable {f : Formatter} {printable : Char → Bool} {source dump : Bytes}

/-- A dump describes the lines of its source in their order, one on each of its own lines. -/
theorem lines_debugWith (h : f.debugWith printable source = .ok dump) :
    ∃ ls : List Line, ls.map Line.raw = Bytes.lines source ∧
      Bytes.lines dump = ls.map (Line.describeWith printable) := by
  unfold debugWith at h
  cases hl : f.lines source with
  | error e =>
    rw [hl] at h
    exact absurd h (by simp [bind, Except.bind])
  | ok ls =>
    rw [hl] at h
    have hraw := raws_of_lines hl
    have hlines := lines_made hraw fun l => Line.newline_notMem_describeWith printable
    refine ⟨ls, hraw, ?_⟩
    rw [← Except.ok.inj h]
    exact hlines

/-- Every line of the source is read back from the line of the dump at its place. -/
theorem unquote_debugWith (h : f.debugWith printable source = .ok dump) :
    (Bytes.lines dump).map unquote = Bytes.lines source := by
  obtain ⟨ls, hraw, hdump⟩ := lines_debugWith h
  rw [hdump, ← hraw, List.map_map]
  apply List.map_congr_left
  intro l _
  rw [Function.comp_apply, Line.unquote_describeWith]

/-- A dump has as many lines as its source, from which the lines of the source are read back. No
two sources have the same dump. It does not matter which characters are taken for printable. -/
theorem debug_lossless (f : Formatter) (printable : Char → Bool) :
    (∀ source dump, f.debugWith printable source = .ok dump →
      (Bytes.lines dump).length = (Bytes.lines source).length ∧
      (Bytes.lines dump).map unquote = Bytes.lines source) ∧
    ∀ source₁ source₂ dump, f.debugWith printable source₁ = .ok dump →
      f.debugWith printable source₂ = .ok dump → source₁ = source₂ := by
  constructor
  · intro source dump h
    have hread := unquote_debugWith h
    constructor
    · rw [← hread, List.length_map]
    · exact hread
  · intro source₁ source₂ dump h₁ h₂
    calc source₁ = joinLines (Bytes.lines source₁) := (joinLines_lines source₁).symm
      _ = joinLines ((Bytes.lines dump).map unquote) := by rw [unquote_debugWith h₁]
      _ = joinLines (Bytes.lines source₂) := by rw [unquote_debugWith h₂]
      _ = source₂ := joinLines_lines source₂

/-- Quotes, a comma and a bracket in a text that looks like a dump, a backslash and a stray byte. -/
def quotedSource : Bytes :=
  ascii "<p title=\"\\n\">Open(TEXT:\"a\"), [" ++ [0xFF, 10] ++ ascii "</p>"

theorem debug_lossless_quotedSource :
    ∃ dump, ({} : Formatter).debug quotedSource = .ok dump ∧ (Bytes.lines dump).length = 2 ∧
      (Bytes.lines dump).map unquote = Bytes.lines quotedSource ∧
      ∀ source, ({} : Formatter).debug source = .ok dump → source = quotedSource := by
  have hok : (({} : Formatter).debug quotedSource).toOption.isSome = true := by
    decide +kernel
  obtain ⟨hread, hunique⟩ := debug_lossless {} isPrintable
  cases h : ({} : Formatter).debug quotedSource with
  | error e =>
    rw [h] at hok
    exact absurd hok (by simp [Except.toOption])
  | ok dump =>
    obtain ⟨hlength, hlines⟩ := hread quotedSource dump h
    have htwo : (Bytes.lines quotedSource).length = 2 := by decide +kernel
    exact ⟨dump, rfl, hlength.trans htwo, hlines,
      fun source hsource => hunique source quotedSource dump hsource h⟩

end Formatter
end Reindent
