import Mathlib.Data.List.Forall2
import Mathlib.Data.List.Nodup
import TaintReplay.Json.Token
import TaintReplay.Proofs.Json.Bytes

/-!
# Texts of values

Many texts stand for one value: blanks may stand between all its pieces, and a quoted text may be spelled with escapes.
`Value.lexemes` are the pieces of a value, `Spells` says which bytes spell a piece, and `Laid` which bytes lay out
pieces one behind the other. An integer has one spelling. How the digits of a fraction are spelled is left open: any
numeral will do.
-/

namespace TaintReplay.Json

/-- A piece of a text: a mark, or a value that is no list and no object. -/
inductive Lexeme where
  | mark (m : Mark)
  | scalar (v : Value)

/-- Parts behind a first one, each with a comma in front. -/
def continued : List (List Lexeme) → List Lexeme
  | [] => []
  | part :: parts => .mark .comma :: (part ++ continued parts)

/-- Parts with commas between them. -/
def separated : List (List Lexeme) → List Lexeme
  | [] => []
  | part :: parts => part ++ continued parts

/-- Is the piece a number that is no integer? -/
def Lexeme.isFraction : Lexeme → Bool
  | scalar (.number (.fraction _)) => true
  | _ => false

/-- May a value begin with this piece? -/
def Lexeme.opens : Lexeme → Bool
  | mark .openList | mark .openObject | scalar _ => true
  | _ => false

/-- The pieces begin as a value does. -/
def Opening (ls : List Lexeme) : Prop := ∃ l rest, ls = l :: rest ∧ l.opens = true

theorem Opening.append {part : List Lexeme} (h : Opening part) (rest : List Lexeme) : Opening (part ++ rest) := by
  obtain ⟨l, tail, rfl, hl⟩ := h
  exact ⟨l, tail ++ rest, rfl, hl⟩

/-! ## Finding by name -/

section

variable {α : Type} {name : α → String} {xs : List α} {key : String}

theorem find?_eq_none_of_notMem (h : key ∉ xs.map name) : xs.find? (name · == key) = none := by
  rw [List.find?_eq_none]
  intro x hx
  rw [beq_iff_eq]
  rintro rfl
  exact h (List.mem_map_of_mem hx)

theorem exists_find?_of_mem (h : key ∈ xs.map name) : ∃ x ∈ xs, name x = key ∧ xs.find? (name · == key) = some x := by
  obtain ⟨y, hy, rfl⟩ := List.mem_map.1 h
  cases hfind : xs.find? (name · == name y) with
  | none => exact absurd (beq_self_eq_true (name y)) (List.find?_eq_none.1 hfind y hy)
  | some x => exact ⟨x, List.mem_of_find?_eq_some hfind, by simpa using List.find?_some hfind, rfl⟩

end

/-! ## Pieces of values -/

namespace Value

mutual

/-- The pieces of a value. -/
def lexemes : Value → List Lexeme
  | null => [.scalar null]
  | bool b => [.scalar (bool b)]
  | number n => [.scalar (number n)]
  | text s => [.scalar (text s)]
  | array items => .mark .openList :: (separated (itemLexemes items) ++ [.mark .closeList])
  | object members => .mark .openObject :: (separated (memberLexemes members) ++ [.mark .closeObject])

def itemLexemes : List Value → List (List Lexeme)
  | [] => []
  | v :: rest => v.lexemes :: itemLexemes rest

def memberLexemes : List (String × Value) → List (List Lexeme)
  | [] => []
  | (key, v) :: rest => (.scalar (.text key) :: .mark .colon :: v.lexemes) :: memberLexemes rest

end

theorem itemLexemes_eq_map (items : List Value) : itemLexemes items = items.map lexemes := by
  induction items with
  | nil => rfl
  | cons v items ih => rw [itemLexemes, ih, List.map_cons]

/-- The pieces of a member. -/
def ofMember (m : String × Value) : List Lexeme := .scalar (.text m.1) :: .mark .colon :: m.2.lexemes

theorem memberLexemes_eq_map (members : List (String × Value)) : memberLexemes members = members.map ofMember := by
  induction members with
  | nil => rfl
  | cons m members ih => rw [memberLexemes, ih, List.map_cons, ofMember]

theorem opening_lexemes (v : Value) : Opening v.lexemes := by
  cases v with
  | null | bool | number | text => exact ⟨_, _, rfl, rfl⟩
  | array items => exact ⟨_, _, by rw [lexemes], rfl⟩
  | object members => exact ⟨_, _, by rw [lexemes], rfl⟩

/-! ### How deeply values are nested -/

mutual

/-- How many lists and objects stand around the innermost piece. -/
def depth : Value → Nat
  | array items => depthOfItems items + 1
  | object members => depthOfMembers members + 1
  | _ => 0

def depthOfItems : List Value → Nat
  | [] => 0
  | v :: rest => max v.depth (depthOfItems rest)

def depthOfMembers : List (String × Value) → Nat
  | [] => 0
  | (_, v) :: rest => max v.depth (depthOfMembers rest)

end

theorem depth_le_of_mem_items {v : Value} {items : List Value} (h : v ∈ items) : v.depth ≤ depthOfItems items := by
  induction items with
  | nil => cases h
  | cons w items ih =>
    rw [depthOfItems]
    rcases List.mem_cons.1 h with rfl | h
    · exact Nat.le_max_left _ _
    · exact Nat.le_trans (ih h) (Nat.le_max_right _ _)

theorem depth_le_of_mem_members {m : String × Value} {members : List (String × Value)} (h : m ∈ members) :
    m.2.depth ≤ depthOfMembers members := by
  induction members with
  | nil => cases h
  | cons w members ih =>
    rw [depthOfMembers]
    rcases List.mem_cons.1 h with rfl | h
    · exact Nat.le_max_left _ _
    · exact Nat.le_trans (ih h) (Nat.le_max_right _ _)

theorem depthOfItems_le {n : Nat} {items : List Value} (h : ∀ v ∈ items, v.depth ≤ n) : depthOfItems items ≤ n := by
  induction items with
  | nil => exact Nat.zero_le n
  | cons v items ih =>
    rw [depthOfItems]
    exact Nat.max_le.2 ⟨h v List.mem_cons_self, ih fun w hw => h w (List.mem_cons_of_mem _ hw)⟩

theorem depthOfMembers_le {n : Nat} {members : List (String × Value)} (h : ∀ m ∈ members, m.2.depth ≤ n) :
    depthOfMembers members ≤ n := by
  induction members with
  | nil => exact Nat.zero_le n
  | cons m members ih =>
    rw [depthOfMembers]
    exact Nat.max_le.2 ⟨h m List.mem_cons_self, ih fun w hw => h w (List.mem_cons_of_mem _ hw)⟩

/-- Induction on what is inside a value. -/
@[elab_as_elim] theorem nested_induction {P : Value → Prop} (null : P null) (bool : ∀ b, P (bool b))
    (number : ∀ n, P (number n)) (text : ∀ s, P (text s))
    (array : ∀ items : List Value, (∀ v ∈ items, P v) → P (array items))
    (object : ∀ members : List (String × Value), (∀ m ∈ members, P m.2) → P (object members)) (v : Value) : P v := by
  have hdepth : ∀ depth : Nat, ∀ v : Value, v.depth ≤ depth → P v := by
    intro depth
    induction depth with
    | zero =>
      intro v hv
      cases v with
      | null => exact null
      | bool b => exact bool b
      | number n => exact number n
      | text s => exact text s
      | array | object => simp [Value.depth] at hv
    | succ depth ih =>
      intro v hv
      cases v with
      | null => exact null
      | bool b => exact bool b
      | number n => exact number n
      | text s => exact text s
      | array items =>
        rw [Value.depth] at hv
        exact array items fun v hmem => ih v (by have := depth_le_of_mem_items hmem; omega)
      | object members =>
        rw [Value.depth] at hv
        exact object members fun m hmem => ih m.2 (by have := depth_le_of_mem_members hmem; omega)
  exact hdepth v.depth v (Nat.le_refl _)

/-! ### Members by name -/

/-- The keys of an object that are among these names, in the order in which they stand there. -/
def keysAmong (names : List String) (members : List (String × Value)) : List String :=
  (members.map Prod.fst).filter (· ∈ names)

section

variable {names : List String} {m : String × Value} {members : List (String × Value)}

theorem keysAmong_cons_of_mem (h : m.1 ∈ names) : keysAmong names (m :: members) = m.1 :: keysAmong names members := by
  simp [keysAmong, h]

theorem keysAmong_cons_of_notMem (h : m.1 ∉ names) : keysAmong names (m :: members) = keysAmong names members := by
  simp [keysAmong, h]

theorem mem_keysAmong {name : String} (h : name ∈ names) :
    name ∈ keysAmong names members ↔ name ∈ members.map Prod.fst := by
  simp [keysAmong, h]

/-- A name that does not stand there twice has one value. -/
theorem eq_of_key_eq {w : String × Value} (honce : (keysAmong names members).Nodup) (hm : m ∈ members)
    (hw : w ∈ members) (hkey : m.1 = w.1) (hname : m.1 ∈ names) : m = w := by
  have hnodup : ((members.filter fun m => m.1 ∈ names).map Prod.fst).Nodup := by
    rw [keysAmong, List.filter_map] at honce
    exact honce
  have hmname : m ∈ members.filter fun m => m.1 ∈ names := List.mem_filter.2 ⟨hm, decide_eq_true hname⟩
  have hwname : w ∈ members.filter fun m => m.1 ∈ names := List.mem_filter.2 ⟨hw, decide_eq_true (hkey ▸ hname)⟩
  exact List.inj_on_of_nodup_map hnodup hmname hwname hkey

end

/-! ### Values without fractions -/

theorem mem_separated {l : Lexeme} {part : List Lexeme} {parts : List (List Lexeme)} (hpart : part ∈ parts)
    (hl : l ∈ part) : l ∈ separated parts := by
  have hcontinued : ∀ parts : List (List Lexeme), part ∈ parts → l ∈ continued parts := by
    intro parts hparts
    induction parts with
    | nil => cases hparts
    | cons first parts ih =>
      rw [continued]
      rcases List.mem_cons.1 hparts with rfl | hparts
      · exact List.mem_cons_of_mem _ (List.mem_append_left _ hl)
      · exact List.mem_cons_of_mem _ (List.mem_append_right _ (ih hparts))
  cases parts with
  | nil => cases hpart
  | cons first parts =>
    rw [separated]
    rcases List.mem_cons.1 hpart with rfl | hpart
    · exact List.mem_append_left _ hl
    · exact List.mem_append_right _ (hcontinued parts hpart)

theorem mem_lexemes_of_item {l : Lexeme} {v : Value} {items : List Value} (hv : v ∈ items) (hl : l ∈ v.lexemes) :
    l ∈ (array items).lexemes := by
  rw [lexemes, itemLexemes_eq_map]
  exact List.mem_cons_of_mem _ (List.mem_append_left _ (mem_separated (List.mem_map_of_mem hv) hl))

theorem mem_lexemes_of_member {l : Lexeme} {m : String × Value} {members : List (String × Value)} (hm : m ∈ members)
    (hl : l ∈ m.2.lexemes) : l ∈ (object members).lexemes := by
  have hmember : l ∈ ofMember m := List.mem_cons_of_mem _ (List.mem_cons_of_mem _ hl)
  rw [lexemes, memberLexemes_eq_map]
  exact List.mem_cons_of_mem _ (List.mem_append_left _ (mem_separated (List.mem_map_of_mem hm) hmember))

theorem of_mem_separated {l : Lexeme} {parts : List (List Lexeme)} (hl : l ∈ separated parts) :
    l = .mark .comma ∨ ∃ part ∈ parts, l ∈ part := by
  have hcontinued : ∀ parts : List (List Lexeme), l ∈ continued parts →
      l = .mark .comma ∨ ∃ part ∈ parts, l ∈ part := by
    intro parts hl
    induction parts with
    | nil => cases hl
    | cons part parts ih =>
      rw [continued, List.mem_cons, List.mem_append] at hl
      rcases hl with rfl | hl | hl
      · exact .inl rfl
      · exact .inr ⟨part, List.mem_cons_self, hl⟩
      · exact (ih hl).imp_right fun ⟨part, hpart, hl⟩ => ⟨part, List.mem_cons_of_mem _ hpart, hl⟩
  cases parts with
  | nil => cases hl
  | cons part parts =>
    rw [separated, List.mem_append] at hl
    rcases hl with hl | hl
    · exact .inr ⟨part, List.mem_cons_self, hl⟩
    · exact (hcontinued parts hl).imp_right fun ⟨part, hpart, hl⟩ => ⟨part, List.mem_cons_of_mem _ hpart, hl⟩

theorem forall_lexemes_scalar {P : Lexeme → Prop} {v : Value} (hv : v.lexemes = [.scalar v]) (h : P (.scalar v)) :
    ∀ l ∈ v.lexemes, P l := by
  rw [hv]
  exact List.forall_mem_singleton.2 h

/-- What holds of all marks and of the pieces of all items holds of the pieces of a list. -/
theorem forall_lexemes_array {P : Lexeme → Prop} {items : List Value} (hmark : ∀ m, P (.mark m))
    (h : ∀ v ∈ items, ∀ l ∈ v.lexemes, P l) : ∀ l ∈ (array items).lexemes, P l := by
  intro l hl
  rw [lexemes, itemLexemes_eq_map, List.mem_cons, List.mem_append, List.mem_singleton] at hl
  rcases hl with rfl | hl | rfl
  · exact hmark _
  · rcases of_mem_separated hl with rfl | ⟨part, hpart, hl⟩
    · exact hmark _
    · obtain ⟨v, hv, rfl⟩ := List.mem_map.1 hpart
      exact h v hv l hl
  · exact hmark _

/-- What holds of all marks and texts and of the pieces of all members holds of the pieces of an object. -/
theorem forall_lexemes_object {P : Lexeme → Prop} {members : List (String × Value)} (hmark : ∀ m, P (.mark m))
    (htext : ∀ s, P (.scalar (.text s))) (h : ∀ m ∈ members, ∀ l ∈ m.2.lexemes, P l) :
    ∀ l ∈ (object members).lexemes, P l := by
  intro l hl
  rw [lexemes, memberLexemes_eq_map, List.mem_cons, List.mem_append, List.mem_singleton] at hl
  rcases hl with rfl | hl | rfl
  · exact hmark _
  · rcases of_mem_separated hl with rfl | ⟨part, hpart, hl⟩
    · exact hmark _
    · obtain ⟨m, hm, rfl⟩ := List.mem_map.1 hpart
      rw [ofMember, List.mem_cons, List.mem_cons] at hl
      rcases hl with rfl | rfl | hl
      · exact htext _
      · exact hmark _
      · exact h m hm l hl
  · exact hmark _

/-- All numbers of the value are integers. -/
def Plain (v : Value) : Prop := ∀ l ∈ v.lexemes, l.isFraction = false

theorem plain_natural (n : Nat) : (natural n).Plain := forall_lexemes_scalar (by rw [natural, lexemes]) rfl

theorem plain_text (s : String) : (text s).Plain := forall_lexemes_scalar (by rw [lexemes]) rfl

theorem plain_bool (b : Bool) : (bool b).Plain := forall_lexemes_scalar (by rw [lexemes]) rfl

theorem Plain.item {v : Value} {items : List Value} (h : (array items).Plain) (hv : v ∈ items) : v.Plain :=
  fun l hl => h l (mem_lexemes_of_item hv hl)

theorem Plain.member {m : String × Value} {members : List (String × Value)} (h : (object members).Plain)
    (hm : m ∈ members) : m.2.Plain := fun l hl => h l (mem_lexemes_of_member hm hl)

end Value

/-! ## Spellings -/

def Mark.byte : Mark → UInt8
  | openList => 0x5b
  | closeList => 0x5d
  | openObject => 0x7b
  | closeObject => 0x7d
  | comma => 0x2c
  | colon => 0x3a

/-- The characters that a letter behind a backslash may stand for, with their letters. -/
def letters : List (Char × Char) := [
  ('"', '"'), ('\\', '\\'), ('/', '/'), ('\x08', 'b'), ('\x0c', 'f'), ('\n', 'n'), ('\r', 'r'), ('\t', 't')]

/-- The bytes spell a hexadecimal digit, in lower or in upper case. -/
def SpellsDigit (n : Nat) (b : UInt8) : Prop :=
  b.toNat = (Nat.digitChar n).toNat ∨ b.toNat = (Nat.digitChar n).toUpper.toNat

/-- The bytes are an escape by four hexadecimal digits. -/
def SpellsUnit (n : Nat) (bytes : List UInt8) : Prop :=
  ∃ a b c d, bytes = [0x5c, 0x75, a, b, c, d] ∧ SpellsDigit (n / 4096 % 16) a ∧ SpellsDigit (n / 256 % 16) b ∧
    SpellsDigit (n / 16 % 16) c ∧ SpellsDigit (n % 16) d

/-- The bytes spell a character inside quotes: as it is, by a letter, by its number, or by two halves. -/
inductive SpellsChar : Char → List UInt8 → Prop
  | plain {c : Char} (hcontrol : 0x20 ≤ c.toNat) (hquote : c ≠ '"') (hslash : c ≠ '\\') :
      SpellsChar c (String.utf8EncodeChar c)
  | letter {c l : Char} (h : (c, l) ∈ letters) : SpellsChar c [0x5c, l.toUInt8]
  | unit {c : Char} {bytes : List UInt8} (hc : c.toNat < 0x10000) (h : SpellsUnit c.toNat bytes) : SpellsChar c bytes
  | halves {c : Char} {high low : List UInt8} (hc : 0x10000 ≤ c.toNat)
      (hhigh : SpellsUnit (0xd800 + (c.toNat - 0x10000) / 0x400) high)
      (hlow : SpellsUnit (0xdc00 + (c.toNat - 0x10000) % 0x400) low) : SpellsChar c (high ++ low)

def Digits (bytes : List UInt8) : Prop := bytes ≠ [] ∧ ∀ b ∈ bytes, isDigit b = true

namespace Numeral

inductive SpellsFraction : Option (List UInt8) → List UInt8 → Prop
  | none : SpellsFraction none []
  | some {digits : List UInt8} (h : Digits digits) : SpellsFraction (some digits) (0x2e :: digits)

inductive SpellsExponent : Option (Bool × List UInt8) → List UInt8 → Prop
  | none : SpellsExponent none []
  | some {e : UInt8} {negative : Bool} {sign digits : List UInt8} (he : e = 0x65 ∨ e = 0x45)
      (hsign : (negative, sign) = (false, []) ∨ (negative, sign) = (false, [0x2b]) ∨ (negative, sign) = (true, [0x2d]))
      (h : Digits digits) : SpellsExponent (some (negative, digits)) (e :: (sign ++ digits))

/-- The bytes spell a numeral with these parts. There are no zeros in front. -/
inductive Spells (n : Numeral) : List UInt8 → Prop
  | mk {point power : List UInt8} (hwhole : Digits n.whole) (hzero : n.whole.head? = some 0x30 → n.whole = [0x30])
      (hpoint : SpellsFraction n.fraction point) (hpower : SpellsExponent n.exponent power) :
      Spells n ((if n.negative then [0x2d] else []) ++ (n.whole ++ (point ++ power)))

end Numeral

/-- The bytes spell a piece of a text. -/
inductive Spells : Lexeme → List UInt8 → Prop
  | mark (m : Mark) : Spells (.mark m) [m.byte]
  | null : Spells (.scalar .null) (bytesOf "null")
  | bool (b : Bool) : Spells (.scalar (.bool b)) (bytesOf (if b then "true" else "false"))
  | integer {n : Int} (hlower : -0x8000000000000000 ≤ n) (hupper : n < 0x10000000000000000) :
      Spells (.scalar (.number (.integer n))) (bytesOf (toString n))
  | fraction (x : Float) {n : Numeral} {bytes : List UInt8} (h : n.Spells bytes) :
      Spells (.scalar (.number (.fraction x))) bytes
  | text {s : String} {spellings : List (List UInt8)} (h : List.Forall₂ SpellsChar s.toList spellings) :
      Spells (.scalar (.text s)) (0x22 :: (spellings.flatten ++ [0x22]))

/-- The bytes spell the pieces one behind the other, with any blanks between them. -/
inductive Laid : List Lexeme → List UInt8 → Prop
  | nil : Laid [] []
  | blank {ls : List Lexeme} {b : UInt8} {bytes : List UInt8} (hb : isBlank b = true) (h : Laid ls bytes) :
      Laid ls (b :: bytes)
  | lexeme {l : Lexeme} {ls : List Lexeme} {spelling bytes : List UInt8} (hl : Spells l spelling) (h : Laid ls bytes) :
      Laid (l :: ls) (spelling ++ bytes)

/-- The bytes are a text of the value. -/
def Value.HasText (v : Value) (bytes : List UInt8) : Prop := Laid v.lexemes bytes

end TaintReplay.Json
