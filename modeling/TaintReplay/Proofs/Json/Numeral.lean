import TaintReplay.Proofs.Json.Layout

/-!
# Numerals are read

A numeral is scanned up to its end, if no digit, point or exponent follows (`Numeral.scan_eq`). The text of an integer
is a numeral (`Numeral.spells_toString`), and its value is the integer as long as that has 64 bits
(`Numeral.value_ofInt`).
-/

namespace TaintReplay.Json

/-- A byte that cannot go on with a numeral. -/
def EndsNumeral (b : UInt8) : Prop := isDigit b = false ∧ b ≠ 0x2e ∧ b ≠ 0x65 ∧ b ≠ 0x45

theorem spanDigits_append {digits tail : List UInt8} (h : ∀ b ∈ digits, isDigit b = true)
    (htail : ∀ b ∈ tail.head?, isDigit b = false) : spanDigits (digits ++ tail) = (digits, tail) := by
  have htail' : tail.takeWhile isDigit = [] ∧ tail.dropWhile isDigit = tail := by
    cases tail with
    | nil => exact ⟨rfl, rfl⟩
    | cons b tail => simp [htail b rfl]
  rw [spanDigits, List.takeWhile_append_of_pos h, List.dropWhile_append_of_pos h, htail'.1, htail'.2, List.append_nil]

namespace Numeral

/-- Behind the digits in front of a point comes something else, so they are found whole. -/
theorem SpellsFraction.head {fraction : Option (List UInt8)} {point tail : List UInt8}
    (h : SpellsFraction fraction point) (htail : ∀ b ∈ tail.head?, isDigit b = false) :
    ∀ b ∈ (point ++ tail).head?, isDigit b = false := by
  intro b hb
  cases h with
  | none => exact htail b hb
  | some h =>
    obtain rfl := Option.some.inj hb
    rfl

variable {after : List UInt8} (hafter : ∀ b ∈ after.head?, EndsNumeral b)
include hafter

theorem scanExponent_eq {bytes sign digits : List UInt8} {negative : Bool}
    (hsign : (negative, sign) = (false, []) ∨ (negative, sign) = (false, [0x2b]) ∨ (negative, sign) = (true, [0x2d]))
    (h : Digits digits) : scanExponent bytes (sign ++ digits ++ after) = .ok ((negative, digits), after) := by
  obtain ⟨hne, hdigits⟩ := h
  have hspan := spanDigits_append hdigits fun b hb => (hafter b hb).1
  obtain ⟨d, digits, rfl⟩ := List.exists_cons_of_ne_nil hne
  have hd := hdigits d List.mem_cons_self
  unfold scanExponent
  rcases hsign with hsign | hsign | hsign
  · obtain ⟨rfl, rfl⟩ := Prod.mk.inj hsign
    have hplus : d ≠ 0x2b := by
      rintro rfl
      cases hd
    have hminus : d ≠ 0x2d := by
      rintro rfl
      cases hd
    rw [List.cons_append] at hspan
    simp [hplus, hminus, hspan]
  · obtain ⟨rfl, rfl⟩ := Prod.mk.inj hsign
    simp only [List.cons_append, List.nil_append] at hspan ⊢
    rw [hspan]
  · obtain ⟨rfl, rfl⟩ := Prod.mk.inj hsign
    simp only [List.cons_append, List.nil_append] at hspan ⊢
    rw [hspan]

theorem scanTail_eq {exponent : Option (Bool × List UInt8)} {power : List UInt8} (h : SpellsExponent exponent power)
    (bytes : List UInt8) {n : Numeral} (hn : n.exponent = none) :
    scanTail bytes n (power ++ after) = .ok ({ n with exponent }, bytes.length - after.length) := by
  cases h with
  | none =>
    have hsame : { n with exponent := none } = n := by
      rw [← hn]
    rw [List.nil_append, hsame]
    unfold scanTail
    split
    · exact absurd rfl (hafter _ rfl).2.2.1
    · exact absurd rfl (hafter _ rfl).2.2.2
    · rfl
  | some he hsign hdigits =>
    have hexponent : scanExponent bytes _ = _ := scanExponent_eq hafter hsign hdigits
    unfold scanTail
    rcases he with rfl | rfl
    · simp only [List.cons_append, hexponent]
      rfl
    · simp only [List.cons_append, hexponent]
      rfl

/-- And so it is with the digits behind the point. -/
theorem SpellsExponent.head {exponent : Option (Bool × List UInt8)} {power : List UInt8}
    (h : SpellsExponent exponent power) : ∀ b ∈ (power ++ after).head?, isDigit b = false ∧ b ≠ 0x2e := by
  intro b hb
  cases h with
  | none => exact ⟨(hafter b hb).1, (hafter b hb).2.1⟩
  | some he =>
    obtain rfl := Option.some.inj hb
    rcases he with rfl | rfl <;> decide

/-- A numeral is scanned up to its end. -/
theorem scan_eq {n : Numeral} {bytes : List UInt8} (h : n.Spells bytes) :
    scan (bytes ++ after) = .ok (n, bytes.length) := by
  obtain ⟨negative, whole, fraction, exponent⟩ := n
  cases h with
  | @mk point power hwhole hzero hpoint hpower =>
  obtain ⟨hne, hdigits⟩ := hwhole
  obtain ⟨d, digits, rfl⟩ := List.exists_cons_of_ne_nil hne
  have hminus : d ≠ 0x2d := by
    rintro rfl
    cases hdigits _ List.mem_cons_self
  have hlead : ∀ b rest, d :: digits = 0x30 :: b :: rest → False := by
    intro b rest heq
    obtain ⟨rfl, rfl⟩ := List.cons.inj heq
    cases hzero rfl
  have hpowerHead := hpower.head hafter
  have hpointHead := hpoint.head fun b hb => (hpowerHead b hb).1
  have hspan : spanDigits (d :: (digits ++ (point ++ (power ++ after)))) = (d :: digits, point ++ (power ++ after)) :=
    spanDigits_append hdigits hpointHead
  generalize hbytes : (if negative = true then [0x2d] else []) ++ (d :: digits ++ (point ++ power)) = bytes
  have hrest : bytes ++ after =
      (if negative = true then [0x2d] else []) ++ (d :: (digits ++ (point ++ (power ++ after)))) := by
    rw [← hbytes]
    simp only [List.append_assoc, List.cons_append]
  have hlength : (bytes ++ after).length - after.length = bytes.length := by
    rw [List.length_append, Nat.add_sub_cancel]
  unfold scan
  split
  rename_i sign front hsign
  have hfront : sign = negative ∧ front = d :: (digits ++ (point ++ (power ++ after))) := by
    cases negative with
    | true =>
      rw [hrest] at hsign
      obtain ⟨rfl, rfl⟩ := Prod.mk.inj hsign
      exact ⟨rfl, rfl⟩
    | false =>
      split at hsign
      · rename_i h
        rw [hrest] at h
        exact absurd (List.cons.inj h).1 hminus
      · obtain ⟨rfl, rfl⟩ := Prod.mk.inj hsign
        exact ⟨rfl, hrest⟩
  obtain ⟨rfl, rfl⟩ := hfront
  rw [hspan, ← hlength]
  cases hpoint with
  | none =>
    split
    · rename_i heq
      cases heq
    · rename_i heq
      exact (hlead _ _ (Prod.mk.inj heq).1).elim
    · rename_i heq
      exact absurd rfl (hpowerHead 0x2e (by rw [← List.nil_append (power ++ after), (Prod.mk.inj heq).2]; rfl)).2
    · rename_i heq
      obtain ⟨rfl, rfl⟩ := Prod.mk.inj heq
      exact scanTail_eq hafter hpower _ rfl
  | @some fraction hfraction =>
    have hinner := spanDigits_append hfraction.2 fun b hb => (hpowerHead b hb).1
    obtain ⟨f, fs, rfl⟩ := List.exists_cons_of_ne_nil hfraction.1
    split
    · rename_i heq
      cases heq
    · rename_i heq
      exact (hlead _ _ (Prod.mk.inj heq).1).elim
    · rename_i back _ _ heq
      obtain ⟨rfl, hpoint⟩ := Prod.mk.inj heq
      have hback : f :: fs ++ (power ++ after) = back := (List.cons.inj hpoint).2
      rw [← hback, hinner]
      exact scanTail_eq hafter hpower _ rfl
    · rename_i hother heq
      exact (hother _ (Prod.mk.inj heq).2.symm).elim

end Numeral

/-- A numeral begins with its sign or with a digit. -/
theorem Numeral.Spells.exists_cons {n : Numeral} {bytes : List UInt8} (h : n.Spells bytes) :
    ∃ b body, bytes = b :: body ∧ (b = 0x2d ∨ isDigit b = true) := by
  cases h with
  | @mk point power hwhole =>
    obtain ⟨d, digits, hdigits⟩ := List.exists_cons_of_ne_nil hwhole.1
    have hd := hwhole.2 d (by rw [hdigits]; exact List.mem_cons_self)
    rw [hdigits]
    cases n.negative with
    | true => exact ⟨_, _, rfl, .inl rfl⟩
    | false => exact ⟨d, _, rfl, .inr hd⟩

/-! ## Integers -/

/-- The bytes of decimal digits. -/
def digitBytes (cs : List Char) : List UInt8 := cs.map fun c => UInt8.ofNat c.toNat

theorem toNat_of_isDigit {c : Char} (h : c.isDigit = true) : 0x30 ≤ c.toNat ∧ c.toNat ≤ 0x39 := by
  rw [Char.isDigit, Bool.and_eq_true, decide_eq_true_eq, decide_eq_true_eq] at h
  exact ⟨UInt32.le_iff_toNat_le.1 h.1, UInt32.le_iff_toNat_le.1 h.2⟩

theorem toNat_digitByte {c : Char} (h : c.isDigit = true) : (UInt8.ofNat c.toNat).toNat = c.toNat := by
  have hbound := toNat_of_isDigit h
  rw [UInt8.toNat_ofNat']
  omega

theorem isDigit_toDigits {m : Nat} : ∀ c ∈ Nat.toDigits 10 m, c.isDigit = true := by
  intro c hc
  exact Nat.isDigit_of_mem_toDigits (by decide) (by decide) hc

theorem bytesOf_toString (m : Nat) : bytesOf (toString m) = digitBytes (Nat.toDigits 10 m) := by
  rw [Nat.toString_eq_ofList_toDigits]
  refine bytesOf_ofList_ascii ?_
  intro c hc
  have hbound := toNat_of_isDigit (isDigit_toDigits c hc)
  omega

theorem digits_digitBytes (m : Nat) : Digits (digitBytes (Nat.toDigits 10 m)) := by
  constructor
  · rw [digitBytes, Ne, List.map_eq_nil_iff]
    exact Nat.toDigits_ne_nil
  · intro b hb
    obtain ⟨c, hc, rfl⟩ := List.mem_map.1 hb
    have hdigit := isDigit_toDigits c hc
    have hbound := toNat_of_isDigit hdigit
    have hvalue := toNat_digitByte hdigit
    rw [isDigit, Bool.and_eq_true, decide_eq_true_eq, decide_eq_true_eq, UInt8.le_iff_toNat_le, UInt8.le_iff_toNat_le,
      hvalue]
    exact hbound

/-- The digits of a number have no zero in front. -/
theorem head?_toDigits {m : Nat} (hm : 0 < m) : (Nat.toDigits 10 m).head? ≠ some '0' := by
  induction m using Nat.strongRecOn with
  | ind m ih =>
    rw [Nat.toDigits_eq_if (by decide)]
    split
    · rename_i hlt
      have hdigit : ∀ n < 10, 0 < n → Nat.digitChar n ≠ '0' := by decide
      intro h
      exact hdigit m hlt hm (Option.some.inj h)
    · rw [List.head?_append_of_ne_nil _ Nat.toDigits_ne_nil]
      exact ih (m / 10) (by omega) (by omega)

theorem digitBytes_of_head? {m : Nat} (h : (digitBytes (Nat.toDigits 10 m)).head? = some 0x30) :
    digitBytes (Nat.toDigits 10 m) = [0x30] := by
  rcases Nat.eq_zero_or_pos m with rfl | hm
  · rfl
  · obtain ⟨c, rest, hdigits⟩ := List.exists_cons_of_ne_nil (Nat.toDigits_ne_nil (n := m) (b := 10))
    have hhead := head?_toDigits hm
    have hc := toNat_digitByte (isDigit_toDigits (m := m) c (by rw [hdigits]; exact List.mem_cons_self))
    rw [hdigits, digitBytes, List.map_cons, List.head?_cons, Option.some.injEq] at h
    rw [hdigits, List.head?_cons] at hhead
    rw [h] at hc
    exact absurd (congrArg some (Char.toNat_inj.1 hc.symm)) hhead

theorem le_ofDigitChars (cs : List Char) (a : Nat) : a ≤ Nat.ofDigitChars 10 cs a := by
  have hpow : 0 < 10 ^ cs.length := Nat.pow_pos (by decide)
  rw [Nat.ofDigitChars_eq_ofDigitChars_zero]
  exact Nat.le_trans (Nat.le_mul_of_pos_left a hpow) (Nat.le_add_right _ _)

namespace Numeral

/-- Digits are gathered whole as long as they stand for a number of 64 bits. -/
theorem gather_eq {cs : List Char} (hcs : ∀ c ∈ cs, c.isDigit = true) : ∀ a : Nat,
    Nat.ofDigitChars 10 cs a < UInt64.size → gather a (digitBytes cs) = (Nat.ofDigitChars 10 cs a, 0) := by
  induction cs with
  | nil => exact fun _ _ => rfl
  | cons c cs ih =>
    intro a ha
    have hdigit : a * 10 + digit (UInt8.ofNat c.toNat) = 10 * a + (c.toNat - '0'.toNat) := by
      rw [digit, toNat_digitByte (hcs c List.mem_cons_self), Nat.mul_comm]
      rfl
    rw [Nat.ofDigitChars_cons] at ha ⊢
    have hnext := Nat.lt_of_le_of_lt (le_ofDigitChars cs _) ha
    show gather a (UInt8.ofNat c.toNat :: digitBytes cs) = _
    rw [gather, hdigit, if_pos hnext]
    exact ih (fun c hc => hcs c (List.mem_cons_of_mem _ hc)) _ ha

/-- The numeral of an integer. -/
def ofInt (n : Int) : Numeral := ⟨n < 0, digitBytes (Nat.toDigits 10 n.natAbs), none, none⟩

theorem spells_toString (n : Int) : (ofInt n).Spells (bytesOf (toString n)) := by
  have hspells := Spells.mk (n := ofInt n) (digits_digitBytes _) digitBytes_of_head? .none .none
  have hbytes : bytesOf (toString n) = (if (ofInt n).negative then [0x2d] else []) ++ (ofInt n).whole := by
    cases n with
    | ofNat m => exact bytesOf_toString m
    | negSucc m =>
      have hnegative : (ofInt (Int.negSucc m)).negative = true := decide_eq_true (Int.negSucc_lt_zero m)
      have hminus : bytesOf "-" = [0x2d] := bytesOf_ofList ['-']
      show bytesOf ("-" ++ toString (m + 1)) = _
      rw [hnegative, if_pos rfl, bytesOf_append, bytesOf_toString, hminus]
      rfl
  rw [hbytes]
  rwa [List.append_nil, List.append_nil] at hspells

/-- An integer of 64 bits, with or without a sign, is the value of its numeral. -/
theorem value_ofInt {n : Int} (hlower : -0x8000000000000000 ≤ n) (hupper : n < 0x10000000000000000) :
    (ofInt n).value = .ok (.integer n) := by
  have hvalue : Nat.ofDigitChars 10 (Nat.toDigits 10 n.natAbs) 0 = n.natAbs := Nat.ofDigitChars_ten_toDigits
  have hsize : n.natAbs < UInt64.size := by
    show n.natAbs < 0x10000000000000000
    omega
  have hgather := gather_eq (isDigit_toDigits (m := n.natAbs)) 0 (by rw [hvalue]; exact hsize)
  rw [hvalue] at hgather
  unfold value
  simp only [ofInt, hgather, Option.isNone_none, decide_true, Bool.and_self, if_true, Bool.not_eq_true',
    decide_eq_false_iff_not]
  by_cases hn : n < 0
  · have hrange : 1 ≤ n.natAbs ∧ n.natAbs ≤ UInt64.size / 2 := by
      show 1 ≤ n.natAbs ∧ n.natAbs ≤ 0x8000000000000000
      omega
    have hnegative : -(n.natAbs : Int) = n := by omega
    rw [if_neg (not_not_intro hn), if_pos hrange, hnegative]
    rfl
  · have hpositive : (n.natAbs : Int) = n := by omega
    rw [if_pos hn, hpositive]
    rfl

end Numeral

end TaintReplay.Json
