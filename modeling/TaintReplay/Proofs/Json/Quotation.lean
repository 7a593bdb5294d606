import TaintReplay.Proofs.Json.Layout

/-!
# Quoted texts are read

Every spelling of a character leads reading and skipping behind it, and reading adds the bytes of the character
(`SpellsChar.read_eq`, `SpellsChar.skip_eq`). So all spellings of a text give the text (`read_quotation`), and skipping
finds the end of each of them (`skip_quotation`).
-/

namespace TaintReplay.Json

open Quotation

/-! ## Hexadecimal digits -/

theorem SpellsDigit.hexDigit?_eq {n : Nat} {b : UInt8} (hn : n < 16) (h : SpellsDigit n b) : hexDigit? b = some n := by
  have hlower : ∀ n < 16, hexDigit? (UInt8.ofNat (Nat.digitChar n).toNat) = some n := by decide
  have hupper : ∀ n < 16, hexDigit? (UInt8.ofNat (Nat.digitChar n).toUpper.toNat) = some n := by decide
  rcases h with h | h
  · rw [← hlower n hn, ← h, UInt8.ofNat_toNat]
  · rw [← hupper n hn, ← h, UInt8.ofNat_toNat]

theorem hexEscape_of_spellsDigit {n : Nat} {a b c d : UInt8} (hn : n < 0x10000) (ha : SpellsDigit (n / 4096 % 16) a)
    (hb : SpellsDigit (n / 256 % 16) b) (hc : SpellsDigit (n / 16 % 16) c) (hd : SpellsDigit (n % 16) d) (offset : Nat)
    (tail : List UInt8) : hexEscape offset (a :: b :: c :: d :: tail) = .ok (n, tail) := by
  have hvalue : n / 4096 % 16 * 4096 + n / 256 % 16 * 256 + n / 16 % 16 * 16 + n % 16 = n := by omega
  unfold hexEscape
  simp only [ha.hexDigit?_eq (Nat.mod_lt _ (by decide)), hb.hexDigit?_eq (Nat.mod_lt _ (by decide)),
    hc.hexDigit?_eq (Nat.mod_lt _ (by decide)), hd.hexDigit?_eq (Nat.mod_lt _ (by decide)), hvalue]

/-! ## Skipping -/

/-- A byte that stands for itself inside quotes. -/
def IsPlain (b : UInt8) : Prop := b ≠ quote ∧ b ≠ backslash ∧ ¬b < 0x20

theorem isPlain_of_toNat {b : UInt8} (hcontrol : 0x20 ≤ b.toNat) (hquote : b.toNat ≠ 0x22) (hslash : b.toNat ≠ 0x5c) :
    IsPlain b := by
  refine ⟨?_, ?_, ?_⟩
  · rintro rfl
    exact hquote rfl
  · rintro rfl
    exact hslash rfl
  · rw [UInt8.lt_iff_toNat_lt]
    exact Nat.not_lt.2 hcontrol

theorem isPlain_of_mem_utf8EncodeChar {c : Char} (hcontrol : 0x20 ≤ c.toNat) (hquote : c ≠ '"') (hslash : c ≠ '\\')
    {b : UInt8} (hb : b ∈ String.utf8EncodeChar c) : IsPlain b := by
  rcases utf8EncodeChar_cases c with ⟨hlow, hbytes⟩ | ⟨-, hbytes⟩
  · rw [hbytes, List.mem_singleton] at hb
    have hvalue : b.toNat = c.toNat := by
      rw [hb, UInt8.toNat_ofNat']
      omega
    refine isPlain_of_toNat (by omega) ?_ ?_
    · intro h
      exact hquote (Char.toNat_inj.1 (hvalue.symm.trans h))
    · intro h
      exact hslash (Char.toNat_inj.1 (hvalue.symm.trans h))
  · have hhigh := hbytes b hb
    exact isPlain_of_toNat (by omega) (by omega) (by omega)

theorem skip_close (offset : Nat) (tail : List UInt8) : skip offset (quote :: tail) = .ok (offset + 1) := by
  cases tail <;> rw [skip, if_pos rfl]

theorem skip_cons {b : UInt8} (h : IsPlain b) (offset : Nat) (tail : List UInt8) :
    skip offset (b :: tail) = skip (offset + 1) tail := by
  obtain ⟨hquote, hslash, hcontrol⟩ := h
  rw [skip.eq_def]
  simp only [hquote, hslash, hcontrol, if_false]

theorem skip_append {bytes : List UInt8} (h : ∀ b ∈ bytes, IsPlain b) (tail : List UInt8) : ∀ offset : Nat,
    skip offset (bytes ++ tail) = skip (offset + bytes.length) tail := by
  induction bytes with
  | nil => exact fun _ => rfl
  | cons b bytes ih =>
    intro offset
    rw [List.cons_append, skip_cons (h b List.mem_cons_self), ih fun b hb => h b (List.mem_cons_of_mem _ hb),
      List.length_cons, Nat.add_right_comm, Nat.add_assoc]

theorem skip_letter {l b : UInt8} (hl : letterEscape? l = some b) (hu : l ≠ letterU) (offset : Nat)
    (tail : List UInt8) : skip offset (backslash :: l :: tail) = skip (offset + 2) tail := by
  rw [skip, if_neg (by decide), if_pos rfl, if_neg hu, if_pos (by rw [hl]; rfl)]

theorem skip_unit {n : Nat} {bytes : List UInt8} (hn : n < 0x10000) (h : SpellsUnit n bytes) (offset : Nat)
    (tail : List UInt8) : skip offset (bytes ++ tail) = skip (offset + bytes.length) tail := by
  obtain ⟨a, b, c, d, rfl, ha, hb, hc, hd⟩ := h
  have hhex := hexEscape_of_spellsDigit hn ha hb hc hd (offset + 2) tail
  show skip offset (backslash :: letterU :: a :: b :: c :: d :: tail) = _
  rw [skip, if_neg (by decide), if_pos rfl, if_pos rfl]
  split
  · rename_i rest hrest
    rw [hhex] at hrest
    obtain ⟨-, rfl⟩ := Prod.mk.inj (Except.ok.inj hrest)
    rfl
  · rename_i p hp
    rw [hhex] at hp
    cases hp

/-! ## Reading -/

theorem read_close {s : String} {front : List UInt8} (h : decode? front.reverse = some s) (offset : Nat)
    (tail : List UInt8) : Quotation.read offset front (quote :: tail) = .ok s := by
  cases tail <;> rw [Quotation.read, if_pos rfl, h]

theorem read_cons {b : UInt8} (h : IsPlain b) (offset : Nat) (front tail : List UInt8) :
    Quotation.read offset front (b :: tail) = Quotation.read (offset + 1) (b :: front) tail := by
  obtain ⟨hquote, hslash, hcontrol⟩ := h
  rw [Quotation.read.eq_def]
  simp only [hquote, hslash, hcontrol, if_false]

theorem read_append {bytes : List UInt8} (h : ∀ b ∈ bytes, IsPlain b) (tail : List UInt8) :
    ∀ (offset : Nat) (front : List UInt8), Quotation.read offset front (bytes ++ tail) =
      Quotation.read (offset + bytes.length) (bytes.reverse ++ front) tail := by
  induction bytes with
  | nil => exact fun _ _ => rfl
  | cons b bytes ih =>
    intro offset front
    rw [List.cons_append, read_cons (h b List.mem_cons_self), ih fun b hb => h b (List.mem_cons_of_mem _ hb),
      List.length_cons, List.reverse_cons, List.append_assoc, List.singleton_append, Nat.add_right_comm, Nat.add_assoc]

theorem read_letter {l b : UInt8} (hl : letterEscape? l = some b) (hu : l ≠ letterU) (offset : Nat)
    (front tail : List UInt8) :
    Quotation.read offset front (backslash :: l :: tail) = Quotation.read (offset + 2) (b :: front) tail := by
  rw [Quotation.read, if_neg (by decide), if_pos rfl, if_neg hu, hl]

/-- A number behind a backslash is read as `numberEscape` reads it. -/
theorem read_number {offset count : Nat} {out front rest tail : List UInt8}
    (h : numberEscape (offset + 2) rest = .ok (out, count, tail)) :
    Quotation.read offset front (backslash :: letterU :: rest) =
      Quotation.read (offset + 2 + count) (out.reverse ++ front) tail := by
  rw [Quotation.read, if_neg (by decide), if_pos rfl, if_pos rfl]
  split
  · rename_i out' count' tail' hread
    rw [h] at hread
    obtain ⟨rfl, heq⟩ := Prod.mk.inj (Except.ok.inj hread)
    obtain ⟨rfl, rfl⟩ := Prod.mk.inj heq
    rfl
  · rename_i p hp
    rw [h] at hp
    cases hp

/-- No character has the number of a surrogate. -/
theorem toNat_valid (c : Char) : c.toNat < 0xd800 ∨ 0xdfff < c.toNat ∧ c.toNat < 0x110000 := c.valid

theorem read_unit {c : Char} {bytes : List UInt8} (hc : c.toNat < 0x10000) (h : SpellsUnit c.toNat bytes)
    (offset : Nat) (front tail : List UInt8) : Quotation.read offset front (bytes ++ tail) =
      Quotation.read (offset + bytes.length) ((String.utf8EncodeChar c).reverse ++ front) tail := by
  obtain ⟨a, b, e, d, rfl, ha, hb, he, hd⟩ := h
  have hhex := hexEscape_of_spellsDigit hc ha hb he hd (offset + 2) tail
  have hvalid := toNat_valid c
  have hnumber : numberEscape (offset + 2) (a :: b :: e :: d :: tail) = .ok (String.utf8EncodeChar c, 4, tail) := by
    unfold numberEscape
    rw [hhex]
    dsimp only
    rw [if_neg (by omega), if_neg (by omega), encode_toNat]
  exact read_number hnumber

theorem read_halves {c : Char} {high low : List UInt8} (hc : 0x10000 ≤ c.toNat)
    (hhigh : SpellsUnit (0xd800 + (c.toNat - 0x10000) / 0x400) high)
    (hlow : SpellsUnit (0xdc00 + (c.toNat - 0x10000) % 0x400) low) (offset : Nat) (front tail : List UInt8) :
    Quotation.read offset front (high ++ low ++ tail) =
      Quotation.read (offset + (high ++ low).length) ((String.utf8EncodeChar c).reverse ++ front) tail := by
  have hvalid := toNat_valid c
  generalize hh : 0xd800 + (c.toNat - 0x10000) / 0x400 = h at hhigh
  generalize hl : 0xdc00 + (c.toNat - 0x10000) % 0x400 = l at hlow
  have hjoin : joinSurrogates h l = c.toNat := by
    unfold joinSurrogates
    omega
  obtain ⟨a, b, e, d, rfl, ha, hb, he, hd⟩ := hhigh
  obtain ⟨a', b', e', d', rfl, ha', hb', he', hd'⟩ := hlow
  have hhex := hexEscape_of_spellsDigit (by omega) ha hb he hd (offset + 2)
    (backslash :: letterU :: a' :: b' :: e' :: d' :: tail)
  have hhex' := hexEscape_of_spellsDigit (by omega) ha' hb' he' hd' (offset + 2 + 4 + 2) tail
  have hsecond : secondHalf (offset + 2 + 4) (backslash :: letterU :: a' :: b' :: e' :: d' :: tail) =
      .ok (l, tail) := by
    have hrange : 0xdc00 ≤ l ∧ l ≤ 0xdfff := by omega
    unfold secondHalf
    simp only [ne_eq, not_true_eq_false, if_false, hhex', hrange, and_self, if_true]
  have hnumber : numberEscape (offset + 2) (a :: b :: e :: d :: backslash :: letterU :: a' :: b' :: e' :: d' :: tail) =
      .ok (String.utf8EncodeChar c, 10, tail) := by
    unfold numberEscape
    rw [hhex]
    dsimp only
    rw [if_neg (by omega), if_pos (by omega), hsecond]
    dsimp only
    rw [hjoin, encode_toNat]
  exact read_number hnumber

/-! ## Characters and texts -/

theorem letterEscape?_of_mem_letters : ∀ p ∈ letters, letterEscape? p.2.toUInt8 = some (UInt8.ofNat p.1.toNat) ∧
    p.2.toUInt8 ≠ letterU ∧ p.1.toNat < 0x80 := by
  decide

/-- Every spelling of a character is read as its bytes. -/
theorem SpellsChar.read_eq {c : Char} {bytes : List UInt8} (h : SpellsChar c bytes) (offset : Nat)
    (front tail : List UInt8) : Quotation.read offset front (bytes ++ tail) =
      Quotation.read (offset + bytes.length) ((String.utf8EncodeChar c).reverse ++ front) tail := by
  cases h with
  | plain hcontrol hquote hslash =>
    exact read_append (fun b hb => isPlain_of_mem_utf8EncodeChar hcontrol hquote hslash hb) tail offset front
  | letter hmem =>
    obtain ⟨hletter, hu, hlow⟩ := letterEscape?_of_mem_letters _ hmem
    rcases utf8EncodeChar_cases c with ⟨-, hbytes⟩ | ⟨hhigh, -⟩
    · rw [hbytes]
      exact read_letter hletter hu offset front tail
    · exact absurd hhigh (Nat.not_le.2 hlow)
  | unit hc h => exact read_unit hc h offset front tail
  | halves hc hhigh hlow => exact read_halves hc hhigh hlow offset front tail

/-- Every spelling of a character is skipped. -/
theorem SpellsChar.skip_eq {c : Char} {bytes : List UInt8} (h : SpellsChar c bytes) (offset : Nat)
    (tail : List UInt8) : skip offset (bytes ++ tail) = skip (offset + bytes.length) tail := by
  cases h with
  | plain hcontrol hquote hslash =>
    exact skip_append (fun b hb => isPlain_of_mem_utf8EncodeChar hcontrol hquote hslash hb) tail offset
  | letter hmem =>
    obtain ⟨hletter, hu, -⟩ := letterEscape?_of_mem_letters _ hmem
    exact skip_letter hletter hu offset tail
  | unit hc h => exact skip_unit hc h offset tail
  | halves hc hhigh hlow =>
    have hvalid := toNat_valid c
    rw [List.append_assoc, skip_unit (by omega) hhigh, skip_unit (by omega) hlow, List.length_append, Nat.add_assoc]

variable {cs : List Char} {spellings : List (List UInt8)}

theorem read_spellings (h : List.Forall₂ SpellsChar cs spellings) (tail : List UInt8) :
    ∀ (offset : Nat) (front : List UInt8), Quotation.read offset front (spellings.flatten ++ tail) =
      Quotation.read (offset + spellings.flatten.length)
        ((cs.flatMap String.utf8EncodeChar).reverse ++ front) tail := by
  induction h with
  | nil => exact fun _ _ => rfl
  | cons hc _ ih =>
    intro offset front
    rw [List.flatten_cons, List.append_assoc, hc.read_eq, ih, List.length_append, List.flatMap_cons,
      List.reverse_append, List.append_assoc, Nat.add_assoc]

theorem skip_spellings (h : List.Forall₂ SpellsChar cs spellings) (tail : List UInt8) : ∀ offset : Nat,
    skip offset (spellings.flatten ++ tail) = skip (offset + spellings.flatten.length) tail := by
  induction h with
  | nil => exact fun _ => rfl
  | cons hc _ ih =>
    intro offset
    rw [List.flatten_cons, List.append_assoc, hc.skip_eq, ih, List.length_append, Nat.add_assoc]

/-- A quoted text is read, however its characters are spelled. -/
theorem read_quotation {s : String} (h : List.Forall₂ SpellsChar s.toList spellings) (offset : Nat)
    (after : List UInt8) : Quotation.read offset [] (spellings.flatten ++ quote :: after) = .ok s := by
  rw [read_spellings h]
  refine read_close ?_ _ _
  rw [List.append_nil, List.reverse_reverse, ← bytesOf_eq_flatMap]
  exact decode?_bytesOf s

/-- The end of a quoted text is found, however its characters are spelled. -/
theorem skip_quotation (h : List.Forall₂ SpellsChar cs spellings) (offset : Nat) (after : List UInt8) :
    skip offset (spellings.flatten ++ quote :: after) = .ok (offset + spellings.flatten.length + 1) := by
  rw [skip_spellings h, skip_close]

end TaintReplay.Json
