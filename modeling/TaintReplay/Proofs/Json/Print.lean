import TaintReplay.Json.Print
import TaintReplay.Proofs.Json.Token

/-!
# Printed values

What is printed is a text of the value, both in one line (`hasText_compact`) and over several (`hasText_pretty`), as
long as all its numbers are integers of 64 bits.
-/

namespace TaintReplay.Json

/-! ## Quoted texts -/

theorem utf8EncodeChar_ascii {c : Char} (h : c.toNat < 0x80) : String.utf8EncodeChar c = [UInt8.ofNat c.toNat] := by
  rcases utf8EncodeChar_cases c with ⟨-, hc⟩ | ⟨hc, -⟩
  · exact hc
  · exact absurd h (Nat.not_lt.2 hc)

/-- The number of a control character, in four digits. -/
theorem toList_hexPadded {n : Nat} (hn : n < 0x20) : (Text.hexPadded 4 n).toList =
    [Nat.digitChar (n / 4096 % 16), Nat.digitChar (n / 256 % 16), Nat.digitChar (n / 16 % 16),
      Nat.digitChar (n % 16)] := by
  have hall : ∀ n < 0x20, List.replicate (4 - (Nat.toDigits 16 n).length) '0' ++ Nat.toDigits 16 n =
      [Nat.digitChar (n / 4096 % 16), Nat.digitChar (n / 256 % 16), Nat.digitChar (n / 16 % 16),
        Nat.digitChar (n % 16)] := by
    decide
  rw [Text.hexPadded, String.toList_ofList]
  exact hall n hn

theorem utf8EncodeChar_digitChar {n : Nat} (hn : n < 16) :
    ∃ b, String.utf8EncodeChar (Nat.digitChar n) = [b] ∧ SpellsDigit n b := by
  have hall : ∀ n < 16, (Nat.digitChar n).toNat < 0x80 := by decide
  have hlow := hall n hn
  refine ⟨_, utf8EncodeChar_ascii hlow, .inl ?_⟩
  rw [UInt8.toNat_ofNat']
  omega

theorem spellsUnit_hexPadded {n : Nat} (hn : n < 0x20) :
    SpellsUnit n (('\\' :: 'u' :: (Text.hexPadded 4 n).toList).flatMap String.utf8EncodeChar) := by
  obtain ⟨a, ha, hda⟩ := utf8EncodeChar_digitChar (n := n / 4096 % 16) (Nat.mod_lt _ (by decide))
  obtain ⟨b, hb, hdb⟩ := utf8EncodeChar_digitChar (n := n / 256 % 16) (Nat.mod_lt _ (by decide))
  obtain ⟨c, hc, hdc⟩ := utf8EncodeChar_digitChar (n := n / 16 % 16) (Nat.mod_lt _ (by decide))
  obtain ⟨d, hd, hdd⟩ := utf8EncodeChar_digitChar (n := n % 16) (Nat.mod_lt _ (by decide))
  refine ⟨a, b, c, d, ?_, hda, hdb, hdc, hdd⟩
  rw [toList_hexPadded hn]
  simp only [List.flatMap_cons, List.flatMap_nil, ha, hb, hc, hd, List.append_nil, List.cons_append, List.nil_append]
  rfl

/-- What stands for a character in quotes spells it. -/
theorem spellsChar_escape (c : Char) : SpellsChar c ((escape c).flatMap String.utf8EncodeChar) := by
  have hletter {c l : Char} (h : (c, l) ∈ letters) (hl : String.utf8EncodeChar l = [l.toUInt8]) :
      SpellsChar c (['\\', l].flatMap String.utf8EncodeChar) := by
    have hbytes : ['\\', l].flatMap String.utf8EncodeChar = [0x5c, l.toUInt8] := by
      rw [List.flatMap_cons, List.flatMap_singleton, hl]
      rfl
    rw [hbytes]
    exact .letter h
  unfold escape
  split
  · exact hletter (by decide) rfl
  · exact hletter (by decide) rfl
  · exact hletter (by decide) rfl
  · exact hletter (by decide) rfl
  · exact hletter (by decide) rfl
  · exact hletter (by decide) rfl
  · exact hletter (by decide) rfl
  · rename_i hquote hslash _ _ _ _ _
    split
    · rename_i hcontrol
      exact .unit (by omega) (spellsUnit_hexPadded hcontrol)
    · rename_i hcontrol
      rw [List.flatMap_singleton]
      exact .plain (Nat.not_lt.1 hcontrol) hquote hslash

theorem spells_quoted (s : String) : Spells (.scalar (.text s)) (bytesOf (quoted s)) := by
  have hchars : List.Forall₂ SpellsChar s.toList
      (s.toList.map fun c => (escape c).flatMap String.utf8EncodeChar) := by
    rw [List.forall₂_map_right_iff, List.forall₂_same]
    exact fun c _ => spellsChar_escape c
  have hbytes : bytesOf (quoted s) =
      0x22 :: ((s.toList.map fun c => (escape c).flatMap String.utf8EncodeChar).flatten ++ [0x22]) := by
    rw [quoted, bytesOf_ofList, List.flatMap_cons, List.flatMap_append, List.flatMap_assoc, ← List.flatMap_def]
    rfl
  rw [hbytes]
  exact .text hchars

/-! ## Layout -/

theorem Laid.append {ls rest : List Lexeme} {bytes after : List UInt8} (h : Laid ls bytes) (hrest : Laid rest after) :
    Laid (ls ++ rest) (bytes ++ after) := by
  induction h with
  | nil => exact hrest
  | blank hb _ ih => exact .blank hb ih
  | lexeme hl _ ih =>
    rw [List.append_assoc]
    exact .lexeme hl ih

theorem Laid.blanks {ls : List Lexeme} {blanks bytes : List UInt8} (hblanks : ∀ b ∈ blanks, isBlank b = true)
    (h : Laid ls bytes) : Laid ls (blanks ++ bytes) := by
  induction blanks with
  | nil => exact h
  | cons b blanks ih =>
    exact .blank (hblanks b List.mem_cons_self) (ih fun b hb => hblanks b (List.mem_cons_of_mem _ hb))

theorem Laid.single {l : Lexeme} {bytes : List UInt8} (h : Spells l bytes) : Laid [l] bytes := by
  have hlaid := Laid.lexeme h .nil
  rwa [List.append_nil] at hlaid

theorem bytesOf_intercalate (parts : List String) : ∀ part : String,
    bytesOf (String.intercalate "," (part :: parts)) = bytesOf part ++ parts.flatMap (0x2c :: bytesOf ·) := by
  induction parts with
  | nil =>
    intro part
    rw [String.intercalate_singleton, List.flatMap_nil, List.append_nil]
  | cons next parts ih =>
    have hcomma : bytesOf "," = [0x2c] := bytesOf_ofList [',']
    intro part
    rw [String.intercalate_cons_cons, bytesOf_append, bytesOf_append, hcomma, ih, List.append_assoc, List.flatMap_cons]
    rfl

theorem laid_continued {parts : List (List Lexeme)} {texts : List String}
    (h : List.Forall₂ (fun part text => Laid part (bytesOf text)) parts texts) :
    Laid (continued parts) (texts.flatMap (0x2c :: bytesOf ·)) := by
  induction h with
  | nil => exact .nil
  | @cons part text parts texts hpart _ ih =>
    have hcomma : Spells (.mark .comma) [0x2c] := .mark .comma
    have hlaid : Laid (.mark .comma :: (part ++ continued parts))
        ([0x2c] ++ (bytesOf text ++ texts.flatMap (0x2c :: bytesOf ·))) := .lexeme hcomma (hpart.append ih)
    exact hlaid

/-- Parts are laid out one behind the other, with commas between them. -/
theorem laid_intercalate {parts : List (List Lexeme)} {texts : List String}
    (h : List.Forall₂ (fun part text => Laid part (bytesOf text)) parts texts) :
    Laid (separated parts) (bytesOf (String.intercalate "," texts)) := by
  cases h with
  | nil =>
    have hempty : bytesOf "" = [] := bytesOf_ofList []
    rw [String.intercalate_nil, hempty]
    exact .nil
  | cons hpart hparts =>
    rw [bytesOf_intercalate, separated]
    exact hpart.append (laid_continued hparts)

/-! ## Values -/

/-- Is the piece, if it is a number, an integer of 64 bits? -/
def Lexeme.IsWord : Lexeme → Prop
  | scalar (.number (.integer n)) => -0x8000000000000000 ≤ n ∧ n < 0x10000000000000000
  | scalar (.number (.fraction _)) => False
  | _ => True

namespace Value

/-- All numbers of the value are integers of 64 bits. -/
def OfWords (v : Value) : Prop := ∀ l ∈ v.lexemes, l.IsWord

theorem OfWords.item {v : Value} {items : List Value} (h : (array items).OfWords) (hv : v ∈ items) : v.OfWords :=
  fun l hl => h l (mem_lexemes_of_item hv hl)

theorem OfWords.member {m : String × Value} {members : List (String × Value)} (h : (object members).OfWords)
    (hm : m ∈ members) : m.2.OfWords := fun l hl => h l (mem_lexemes_of_member hm hl)

theorem ofWords_natural {n : Nat} (h : n < UInt64.size) : (natural n).OfWords :=
  forall_lexemes_scalar (by rw [natural, lexemes]) ⟨by omega, Int.ofNat_lt.2 h⟩

theorem ofWords_word (n : UInt64) : (word n).OfWords := ofWords_natural n.toNat_lt

theorem ofWords_null : null.OfWords := forall_lexemes_scalar (by rw [lexemes]) trivial

theorem ofWords_bool (b : Bool) : (bool b).OfWords := forall_lexemes_scalar (by rw [lexemes]) trivial

theorem ofWords_text (s : String) : (text s).OfWords := forall_lexemes_scalar (by rw [lexemes]) trivial

theorem laid_null : Laid null.lexemes (bytesOf "null") := .single .null

theorem laid_bool (b : Bool) : Laid (bool b).lexemes (bytesOf (if b then "true" else "false")) := .single (.bool b)

theorem laid_number {n : Number} (h : (number n).OfWords) : Laid (number n).lexemes (bytesOf n.text) := by
  have hword := h (.scalar (number n)) (by simp [lexemes])
  cases n with
  | integer n => exact .single (.integer hword.1 hword.2)
  | fraction x => exact hword.elim

theorem laid_text (s : String) : Laid (text s).lexemes (bytesOf (quoted s)) := .single (spells_quoted s)

/-- A member is laid out with its value. -/
theorem laid_member {m : String × Value} {separator text : String} {blanks : List UInt8}
    (hseparator : bytesOf separator = 0x3a :: blanks) (hblanks : ∀ b ∈ blanks, isBlank b = true)
    (h : Laid m.2.lexemes (bytesOf text)) : Laid (ofMember m) (bytesOf (quoted m.1 ++ separator ++ text)) := by
  have hcolon : Spells (.mark .colon) [0x3a] := .mark .colon
  have hvalue : Laid (.mark .colon :: m.2.lexemes) ([0x3a] ++ (blanks ++ bytesOf text)) :=
    .lexeme hcolon (.blanks hblanks h)
  rw [bytesOf_append, bytesOf_append, hseparator, List.append_assoc]
  exact .lexeme (spells_quoted m.1) hvalue

/-! ### In one line -/

theorem compactItems_eq_map (items : List Value) : compactItems items = items.map compact := by
  induction items with
  | nil => rfl
  | cons v items ih => rw [compactItems, ih, List.map_cons]

theorem compactMembers_eq_map (members : List (String × Value)) :
    compactMembers members = members.map fun m => quoted m.1 ++ ":" ++ m.2.compact := by
  induction members with
  | nil => rfl
  | cons m members ih => rw [compactMembers, ih, List.map_cons]

/-- Parts between brackets. -/
theorem laid_brackets {opening closing : Mark} {front back : String} {parts : List (List Lexeme)} {texts : List String}
    (hfront : bytesOf front = [opening.byte]) (hback : bytesOf back = [closing.byte])
    (h : List.Forall₂ (fun part text => Laid part (bytesOf text)) parts texts) :
    Laid (.mark opening :: (separated parts ++ [.mark closing]))
      (bytesOf (front ++ String.intercalate "," texts ++ back)) := by
  rw [bytesOf_append, bytesOf_append, hfront, hback, List.append_assoc]
  exact .lexeme (.mark opening) ((laid_intercalate h).append (.single (.mark closing)))

theorem laid_compact {v : Value} (h : v.OfWords) : Laid v.lexemes (bytesOf v.compact) := by
  have hcolon : bytesOf ":" = [0x3a] := bytesOf_ofList [':']
  induction v using nested_induction with
  | null => exact laid_null
  | bool b => exact laid_bool b
  | number n => exact laid_number h
  | text s => exact laid_text s
  | array items ih =>
    rw [lexemes, compact, itemLexemes_eq_map, compactItems_eq_map]
    refine laid_brackets (bytesOf_ofList ['[']) (bytesOf_ofList [']']) ?_
    rw [List.forall₂_map_left_iff, List.forall₂_map_right_iff, List.forall₂_same]
    exact fun v hmem => ih v hmem (h.item hmem)
  | object members ih =>
    rw [lexemes, compact, memberLexemes_eq_map, compactMembers_eq_map]
    refine laid_brackets (bytesOf_ofList ['\x7b']) (bytesOf_ofList ['\x7d']) ?_
    rw [List.forall₂_map_left_iff, List.forall₂_map_right_iff, List.forall₂_same]
    exact fun m hmem => laid_member hcolon (by simp) (ih m hmem (h.member hmem))

/-! ### Over several lines -/

theorem prettyItems_eq_map (level : Nat) (items : List Value) :
    prettyItems level items = items.map (prettyAt level) := by
  induction items with
  | nil => rfl
  | cons v items ih => rw [prettyItems, ih, List.map_cons]

theorem prettyMembers_eq_map (level : Nat) (members : List (String × Value)) :
    prettyMembers level members = members.map fun m => quoted m.1 ++ ": " ++ m.2.prettyAt level := by
  induction members with
  | nil => rfl
  | cons m members ih => rw [prettyMembers, ih, List.map_cons]

theorem isBlank_lineStart (level : Nat) : ∀ b ∈ bytesOf (lineStart level), isBlank b = true := by
  have hnewline : bytesOf "\n" = [0x0a] := bytesOf_ofList ['\n']
  intro b hb
  rw [lineStart, bytesOf_append, hnewline, bytesOf_ofList, List.mem_append] at hb
  rcases hb with hb | hb
  · rw [List.mem_singleton.1 hb]
    rfl
  · obtain ⟨c, hc, hb⟩ := List.mem_flatMap.1 hb
    rw [(List.mem_replicate.1 hc).2] at hb
    rw [List.mem_singleton.1 hb]
    rfl

/-- Parts on lines of their own, between brackets. -/
theorem laid_block {opening closing : Mark} {front back : String} {parts : List (List Lexeme)} {texts : List String}
    (level : Nat) (hfront : bytesOf front = [opening.byte]) (hback : bytesOf back = [closing.byte])
    (h : List.Forall₂ (fun part text => Laid part (bytesOf text)) parts texts) :
    Laid (.mark opening :: (separated parts ++ [.mark closing])) (bytesOf (block level front back texts)) := by
  have hlines : List.Forall₂ (fun part text => Laid part (bytesOf text)) parts
      (texts.map (lineStart (level + 1) ++ ·)) := by
    rw [List.forall₂_map_right_iff]
    refine h.imp fun part text hpart => ?_
    rw [bytesOf_append]
    exact .blanks (isBlank_lineStart _) hpart
  unfold block
  cases h with
  | nil =>
    rw [List.isEmpty_nil, if_pos rfl, bytesOf_append, hfront, hback]
    exact .lexeme (.mark opening) (.single (.mark closing))
  | cons hpart hparts =>
    rw [List.isEmpty_cons, if_neg (by simp), bytesOf_append, bytesOf_append, bytesOf_append, hfront, hback,
      List.append_assoc, List.append_assoc]
    refine .lexeme (.mark opening) ((laid_intercalate hlines).append ?_)
    exact .blanks (isBlank_lineStart _) (.single (.mark closing))

theorem laid_prettyAt {v : Value} (h : v.OfWords) : ∀ level : Nat, Laid v.lexemes (bytesOf (v.prettyAt level)) := by
  have hcolon : bytesOf ": " = [0x3a, 0x20] := bytesOf_ofList [':', ' ']
  induction v using nested_induction with
  | null => exact fun _ => laid_null
  | bool b => exact fun _ => laid_bool b
  | number n => exact fun _ => laid_number h
  | text s => exact fun _ => laid_text s
  | array items ih =>
    intro level
    rw [lexemes, prettyAt, itemLexemes_eq_map, prettyItems_eq_map]
    refine laid_block level (bytesOf_ofList ['[']) (bytesOf_ofList [']']) ?_
    rw [List.forall₂_map_left_iff, List.forall₂_map_right_iff, List.forall₂_same]
    exact fun v hmem => ih v hmem (h.item hmem) _
  | object members ih =>
    intro level
    rw [lexemes, prettyAt, memberLexemes_eq_map, prettyMembers_eq_map]
    refine laid_block level (bytesOf_ofList ['\x7b']) (bytesOf_ofList ['\x7d']) ?_
    rw [List.forall₂_map_left_iff, List.forall₂_map_right_iff, List.forall₂_same]
    exact fun m hmem => laid_member hcolon (List.forall_mem_singleton.2 rfl) (ih m hmem (h.member hmem) _)

variable {v : Value}

theorem hasText_compact (h : v.OfWords) : v.HasText (bytesOf v.compact) := laid_compact h

theorem hasText_pretty (h : v.OfWords) : v.HasText (bytesOf v.pretty) := laid_prettyAt h 0

end Value

end TaintReplay.Json
