import TaintReplay.Proofs.Json.Numeral
import TaintReplay.Proofs.Json.Quotation
import TaintReplay.Proofs.Json.Reader

/-!
# The tokens of a text

The bytes of a piece are one token that shows the piece, whatever stands behind it as long as it ends a numeral
(`Spells.tokensFrom_eq`). No two scalars of a value stand side by side (`apart_lexemes`), so the tokens of any text of a
value show its pieces (`tokens_of_laid`). A reader that takes the pieces thus reads the text (`Reader.Takes.run`).
-/

namespace TaintReplay.Json

/-! ## Pieces side by side -/

/-- No two scalars stand side by side. -/
inductive Apart : List Lexeme → Prop
  | nil : Apart []
  | mark (m : Mark) {ls : List Lexeme} (h : Apart ls) : Apart (.mark m :: ls)
  | last (v : Value) : Apart [.scalar v]
  | scalar (v : Value) {m : Mark} {ls : List Lexeme} (h : Apart (.mark m :: ls)) : Apart (.scalar v :: .mark m :: ls)

/-- Pieces that begin with a mark may follow any others. -/
theorem Apart.append {ls rest : List Lexeme} {m : Mark} (h : Apart ls) (hrest : Apart (.mark m :: rest)) :
    Apart (ls ++ .mark m :: rest) := by
  induction h with
  | nil => exact hrest
  | mark m _ ih => exact .mark m ih
  | last v => exact .scalar v hrest
  | scalar v _ ih => exact .scalar v ih

theorem apart_continued {parts : List (List Lexeme)} (h : ∀ part ∈ parts, Apart part) (close : Mark) :
    ∃ m rest, continued parts ++ [.mark close] = .mark m :: rest ∧ Apart (.mark m :: rest) := by
  induction parts with
  | nil => exact ⟨close, [], rfl, .mark close .nil⟩
  | cons part parts ih =>
    obtain ⟨m, rest, heq, hrest⟩ := ih fun part hpart => h part (List.mem_cons_of_mem _ hpart)
    refine ⟨.comma, part ++ .mark m :: rest, ?_, .mark _ ((h part List.mem_cons_self).append hrest)⟩
    rw [continued, List.cons_append, List.append_assoc, heq]

theorem apart_separated {parts : List (List Lexeme)} (h : ∀ part ∈ parts, Apart part) (close : Mark) :
    Apart (separated parts ++ [.mark close]) := by
  cases parts with
  | nil => exact .mark close .nil
  | cons part parts =>
    obtain ⟨m, rest, heq, hrest⟩ := apart_continued (fun part hpart => h part (List.mem_cons_of_mem _ hpart)) close
    rw [separated, List.append_assoc, heq]
    exact (h part List.mem_cons_self).append hrest

theorem apart_lexemes (v : Value) : Apart v.lexemes := by
  induction v using Value.nested_induction with
  | null | bool | number | text => exact .last _
  | array items ih =>
    rw [Value.lexemes, Value.itemLexemes_eq_map]
    refine .mark _ (apart_separated ?_ _)
    intro part hpart
    obtain ⟨v, hmem, rfl⟩ := List.mem_map.1 hpart
    exact ih v hmem
  | object members ih =>
    rw [Value.lexemes, Value.memberLexemes_eq_map]
    refine .mark _ (apart_separated ?_ _)
    intro part hpart
    obtain ⟨m, hmem, rfl⟩ := List.mem_map.1 hpart
    exact .scalar _ (.mark _ (ih m hmem))

/-! ## One token -/

/-- What may follow a scalar: nothing, a blank or a mark. -/
def Delimits (after : List UInt8) : Prop := ∀ b ∈ after.head?, isBlank b = true ∨ (Mark.ofByte? b).isSome = true

/-- A property of all bytes, checked one by one. -/
theorem forall_byte {P : UInt8 → Prop} (h : ∀ n < 256, P (UInt8.ofNat n)) (b : UInt8) : P b := by
  have hb := h b.toNat b.toNat_lt
  rwa [UInt8.ofNat_toNat] at hb

theorem Delimits.endsNumeral {after : List UInt8} (h : Delimits after) : ∀ b ∈ after.head?, EndsNumeral b := by
  have hall : ∀ n < 256, isBlank (UInt8.ofNat n) = true ∨ (Mark.ofByte? (UInt8.ofNat n)).isSome = true →
      isDigit (UInt8.ofNat n) = false ∧ UInt8.ofNat n ≠ 0x2e ∧ UInt8.ofNat n ≠ 0x65 ∧ UInt8.ofNat n ≠ 0x45 := by
    decide +kernel
  intro b hb
  exact forall_byte (P := fun b => isBlank b = true ∨ (Mark.ofByte? b).isSome = true → EndsNumeral b) hall b (h b hb)

/-- A numeral begins with a byte that begins nothing else. -/
theorem shapeAt_of_numeral {b : UInt8} (hb : b = 0x2d ∨ isDigit b = true) (offset : Nat) (rest : List UInt8) :
    isBlank b = false ∧ shapeAt offset b rest = .scalar (numberScalar offset (b :: rest)) := by
  have hall : ∀ n < 256, UInt8.ofNat n = 0x2d ∨ isDigit (UInt8.ofNat n) = true →
      isBlank (UInt8.ofNat n) = false ∧ Mark.ofByte? (UInt8.ofNat n) = none ∧
        (word? (UInt8.ofNat n)).isNone = true ∧ UInt8.ofNat n ≠ Quotation.quote := by
    decide +kernel
  obtain ⟨hblank, hmark, hword, hquote⟩ := forall_byte (P := fun b => b = 0x2d ∨ isDigit b = true →
    isBlank b = false ∧ Mark.ofByte? b = none ∧ (word? b).isNone = true ∧ b ≠ Quotation.quote) hall b hb
  refine ⟨hblank, ?_⟩
  unfold shapeAt
  rw [hmark, Option.isNone_iff_eq_none.1 hword]
  dsimp only
  rw [if_neg hquote, if_pos (by simpa using hb)]

variable {offset : Nat} {b : UInt8} {body after : List UInt8} {l : Lexeme}

/-- A first byte with what it takes is one token. -/
theorem tokensFrom_cons {shape : Shape} (hblank : isBlank b = false) (hshape : shapeAt offset b (body ++ after) = shape)
    (hextent : shape.extent? offset = some body.length) (hl : shape.Shows l) : ∃ t : Token, t.shape.Shows l ∧
      tokensFrom offset (b :: body ++ after) = t :: tokensFrom (offset + (b :: body).length) after := by
  refine ⟨⟨shape, offset, offset + 1 + body.length⟩, hl, ?_⟩
  have hstop : offset + 1 + body.length = offset + (b :: body).length := by
    rw [List.length_cons]
    omega
  rw [List.cons_append, tokensFrom, if_neg (by rw [hblank]; simp)]
  simp only [hshape, hextent, List.drop_left, hstop]

theorem extent?_scalar {s : Scalar} (h : s.stop = .ok (offset + (b :: body).length)) :
    (Shape.scalar s).extent? offset = some body.length := by
  have hlength : offset + (b :: body).length - offset - 1 = body.length := by
    rw [List.length_cons]
    omega
  simp only [Shape.extent?, h, hlength]

theorem readWord_append (expected after : List UInt8) : ∀ offset : Nat,
    readWord expected offset (expected ++ after) = .ok (offset + expected.length) := by
  induction expected with
  | nil =>
    intro offset
    cases after <;> rfl
  | cons e expected ih =>
    intro offset
    rw [List.cons_append, readWord, if_pos rfl, ih, List.length_cons, Nat.add_right_comm, Nat.add_assoc]

/-- A word is one token. -/
theorem tokensFrom_word {v : Value} {rest : String} (hblank : isBlank b = false) (hmark : Mark.ofByte? b = none)
    (hword : word? b = some (bytesOf rest, v)) (htext : v.isText = false) (offset : Nat) (after : List UInt8) :
    ∃ t : Token, t.shape.Shows (.scalar v) ∧ tokensFrom offset (b :: bytesOf rest ++ after) =
      t :: tokensFrom (offset + (b :: bytesOf rest).length) after := by
  have hread := readWord_append (bytesOf rest) after (offset + 1)
  have hstop : offset + 1 + (bytesOf rest).length = offset + (b :: bytesOf rest).length := by
    rw [List.length_cons]
    omega
  have hshape : shapeAt offset b (bytesOf rest ++ after) =
      .scalar (wordScalar (bytesOf rest) v (offset + 1) (bytesOf rest ++ after)) := by
    unfold shapeAt
    rw [hmark, hword]
  rw [hstop] at hread
  refine tokensFrom_cons hblank hshape (extent?_scalar hread) (.scalar hread htext.symm fun _ => ?_)
  unfold wordScalar
  dsimp only
  rw [hread]
  rfl

theorem numberScalar_of_scan {bytes : List UInt8} {n : Numeral} {count : Nat} (h : Numeral.scan bytes = .ok (n, count))
    (offset : Nat) : (numberScalar offset bytes).isText = false ∧
      (numberScalar offset bytes).stop = .ok (offset + count) ∧
      ∀ x, n.value = .ok x → (numberScalar offset bytes).value = .ok (.number x) := by
  unfold numberScalar
  rw [h]
  refine ⟨rfl, rfl, ?_⟩
  intro x hx
  dsimp only
  rw [hx]

/-- A numeral is one token. -/
theorem tokensFrom_numeral {v : Value} {n : Numeral} {spelling : List UInt8} (h : n.Spells spelling)
    (hafter : Delimits after) (htext : v.isText = false)
    (hvalue : (Lexeme.scalar v).isFraction = false → ∃ x, n.value = .ok x ∧ v = .number x) (offset : Nat) :
    ∃ t : Token, t.shape.Shows (.scalar v) ∧
      tokensFrom offset (spelling ++ after) = t :: tokensFrom (offset + spelling.length) after := by
  have hscan := Numeral.scan_eq hafter.endsNumeral h
  obtain ⟨b, body, rfl, hb⟩ := h.exists_cons
  obtain ⟨hblank, hshape⟩ := shapeAt_of_numeral hb offset (body ++ after)
  obtain ⟨hnumber, hstop, hread⟩ := numberScalar_of_scan hscan offset
  refine tokensFrom_cons hblank hshape (extent?_scalar hstop) (.scalar hstop (hnumber.trans htext.symm) ?_)
  intro hfraction
  obtain ⟨x, hx, rfl⟩ := hvalue hfraction
  exact hread x hx

/-- A quoted text is one token. -/
theorem tokensFrom_text {s : String} {spellings : List (List UInt8)} (h : List.Forall₂ SpellsChar s.toList spellings)
    (offset : Nat) (after : List UInt8) : ∃ t : Token, t.shape.Shows (.scalar (.text s)) ∧
      tokensFrom offset (0x22 :: (spellings.flatten ++ [0x22]) ++ after) =
        t :: tokensFrom (offset + (0x22 :: (spellings.flatten ++ [0x22])).length) after := by
  have happend : spellings.flatten ++ [0x22] ++ after = spellings.flatten ++ Quotation.quote :: after := by
    rw [List.append_assoc]
    rfl
  have hstop : offset + 1 + spellings.flatten.length + 1 =
      offset + (0x22 :: (spellings.flatten ++ [0x22]) : List UInt8).length := by
    rw [List.length_cons, List.length_append, List.length_singleton]
    omega
  have hskip := skip_quotation h (offset + 1) after
  have hread := read_quotation h (offset + 1) after
  have hshape : shapeAt offset 0x22 (spellings.flatten ++ [0x22] ++ after) =
      .scalar (textScalar (offset + 1) (spellings.flatten ++ [0x22] ++ after)) := rfl
  rw [← happend] at hskip hread
  rw [hstop] at hskip
  refine tokensFrom_cons rfl hshape (extent?_scalar hskip) (.scalar hskip rfl fun _ => ?_)
  unfold textScalar
  dsimp only
  rw [hread]
  rfl

theorem tokensFrom_mark (m : Mark) (offset : Nat) (after : List UInt8) : ∃ t : Token, t.shape.Shows (.mark m) ∧
    tokensFrom offset ([m.byte] ++ after) = t :: tokensFrom (offset + [m.byte].length) after := by
  have hshape : shapeAt offset m.byte ([] ++ after) = .mark m := by cases m <;> rfl
  have hblank : isBlank m.byte = false := by cases m <;> rfl
  exact tokensFrom_cons hblank hshape rfl (.mark m)

/-- The bytes of a piece are one token. A scalar has to be delimited. -/
theorem Spells.tokensFrom_eq {spelling : List UInt8} (h : Spells l spelling)
    (hafter : ∀ v, l = .scalar v → Delimits after) (offset : Nat) : ∃ t : Token, t.shape.Shows l ∧
      tokensFrom offset (spelling ++ after) = t :: tokensFrom (offset + spelling.length) after := by
  have hnull : bytesOf "null" = 0x6e :: bytesOf "ull" := bytesOf_cons 'n' ['u', 'l', 'l']
  have htrue : bytesOf "true" = 0x74 :: bytesOf "rue" := bytesOf_cons 't' ['r', 'u', 'e']
  have hfalse : bytesOf "false" = 0x66 :: bytesOf "alse" := bytesOf_cons 'f' ['a', 'l', 's', 'e']
  cases h with
  | mark m => exact tokensFrom_mark m offset after
  | null =>
    rw [hnull]
    exact tokensFrom_word rfl rfl rfl rfl offset after
  | bool b =>
    cases b with
    | true =>
      rw [if_pos rfl, htrue]
      exact tokensFrom_word rfl rfl rfl rfl offset after
    | false =>
      rw [if_neg (by simp), hfalse]
      exact tokensFrom_word rfl rfl rfl rfl offset after
  | integer hlower hupper =>
    refine tokensFrom_numeral (Numeral.spells_toString _) (hafter _ rfl) rfl ?_ offset
    intro _
    exact ⟨_, Numeral.value_ofInt hlower hupper, rfl⟩
  | fraction x h =>
    refine tokensFrom_numeral h (hafter _ rfl) rfl ?_ offset
    intro hfraction
    cases hfraction
  | text h => exact tokensFrom_text h offset after

/-! ## All tokens -/

/-- What is laid out from a mark on delimits what stands in front. -/
theorem Laid.delimits {ls : List Lexeme} {bytes : List UInt8} (h : Laid ls bytes) (hls : ∀ v, .scalar v ∉ ls.head?) :
    Delimits bytes := by
  intro b hb
  cases h with
  | nil => cases hb
  | blank hblank h =>
    obtain rfl := Option.some.inj hb
    exact .inl hblank
  | @lexeme l ls spelling bytes hl h =>
    cases hl with
    | mark m =>
      obtain rfl := Option.some.inj hb
      right
      cases m <;> rfl
    | _ => exact absurd rfl (hls _)

/-- The tokens of a text show its pieces. -/
theorem tokens_of_laid {ls : List Lexeme} {bytes : List UInt8} (h : Laid ls bytes) (hls : Apart ls) :
    ∀ offset : Nat, List.Forall₂ (fun t l => t.shape.Shows l) (tokensFrom offset bytes) ls := by
  induction h with
  | nil =>
    intro offset
    rw [tokensFrom]
    exact .nil
  | blank hblank h ih =>
    intro offset
    rw [tokensFrom, if_pos hblank]
    exact ih hls _
  | @lexeme l ls spelling bytes hl h ih =>
    intro offset
    have hrest : Apart ls := by
      cases hls with
      | mark m hls => exact hls
      | last v => exact .nil
      | scalar v hls => exact hls
    have hdelimits : ∀ v, l = .scalar v → Delimits bytes := by
      rintro v rfl
      refine h.delimits fun w hw => ?_
      cases hls with
      | last v => cases hw
      | scalar v hls => cases hw
    obtain ⟨t, ht, htokens⟩ := hl.tokensFrom_eq hdelimits offset
    rw [htokens]
    exact .cons ht (ih hrest _)

/-- A reader that takes the pieces of a value reads every text of it. -/
theorem Reader.Takes.run {α : Type} {r : Reader α} {v : Value} {x : α} {bytes : List UInt8}
    (h : r.Takes v.lexemes x []) (hv : v.HasText bytes) : r.run bytes = .ok x := by
  obtain ⟨s, hrun, hs⟩ := h ⟨tokens bytes, 0, bytes.length⟩ (tokens_of_laid hv (apart_lexemes v) 0)
  have hpeek : Reader.peek s = .ok none { s with here := s.finish } := by
    cases s
    cases hs
    rfl
  unfold Reader.run
  dsimp only
  rw [Reader.bind_of_ok hrun, Reader.bind_of_ok hpeek]
  rfl

end TaintReplay.Json
