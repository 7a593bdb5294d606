import TaintReplay.Proofs.Json.Reader
import TaintReplay.Script.Step

/-!
# Steps written as objects

A step is written as an object with its kind, its fields, and any other members, in any order (`Step.Written`). The kind
may stand behind the fields that it decides about, so the members are kept as they are until all have been read
(`takes_members`), and only then the fields are taken from them (`draftOfMembers_eq`). What a draft of the step holds
then depends only on which fields have been met (`Draft.restrict`), not on their order.
-/

namespace TaintReplay.Step

open Json

/-! ## Steps and their fields -/

def kind : Step → Kind
  | event .processStart => .processStart
  | event .processExit => .processExit
  | event (.stepInto _ _) => .stepInto
  | event (.stepOver _ _) => .stepOver
  | event (.trace _ _) => .trace
  | event (.breakpoint _ _) => .breakpoint
  | registers _ => .registers
  | write _ _ => .write
  | function _ => .function
  | setBreakpoint _ => .setBreakpoint
  | breakAndTaint _ _ => .breakAndTaint
  | taintRegister _ => .taintRegister
  | taintMemory _ _ => .taintMemory
  | answer _ => .answer
  | enableStepTrace => .enableStepTrace

/-- The draft with all fields of the step. -/
def draft : Step → Draft
  | event .processStart | event .processExit | enableStepTrace => {}
  | event (.stepInto thread pc) | event (.stepOver thread pc) | event (.trace thread pc)
  | event (.breakpoint thread pc) => { thread := some thread, pc := some pc }
  | registers values => { values := some values }
  | write address bytes => { address := some address, bytes := some bytes }
  | function f => { start := some f.start, stop := some f.stop, name := some f.name }
  | setBreakpoint address => { address := some address }
  | breakAndTaint address register => { address := some address, register := some register }
  | taintRegister register => { register := some register }
  | taintMemory start length => { address := some start, length := some length }
  | answer yes => { yes := some yes }

/-- The values of registers as an object. -/
def objectOf (values : List (String × UInt64)) : Value := .object (values.map fun x => (x.1, .word x.2))

/-- The bytes as a list of numbers. -/
def arrayOf (bytes : List UInt8) : Value := .array (bytes.map fun b => .natural b.toNat)

/-- What is written for a field of a draft. -/
def Draft.value? (d : Draft) : Field → Option Value
  | .thread => d.thread.map .word
  | .pc => d.pc.map .word
  | .values => d.values.map objectOf
  | .address => d.address.map .word
  | .bytes => d.bytes.map arrayOf
  | .start => d.start.map .word
  | .stop => d.stop.map .word
  | .name => d.name.map .text
  | .register => d.register.map .text
  | .length => d.length.map .word
  | .yes => d.yes.map .bool

/-- The steps are the same, but for the order in which the values of registers are listed. -/
inductive Same : Step → Step → Prop
  | refl (s : Step) : Same s s
  | registers {values values' : List (String × UInt64)} (h : values.Perm values') :
      Same (.registers values) (.registers values')

/-- Every register has one value at most. -/
def Proper (s : Step) : Prop := ∀ values, s = .registers values → (values.map Prod.fst).Nodup

/-- The names of the fields of a kind. -/
def Kind.names (k : Kind) : List String := k.fields.map Field.text

/-- The members, among which the kind is not, have the fields of the step, and others of other names. A field is left
out only if it is the thread with the number zero. The values of registers stand in any order. -/
structure HasFields (s : Step) (members : List (String × Value)) : Prop where
  value : ∀ m ∈ members, ∀ f ∈ s.kind.fields, m.1 = f.text → ∃ t, Same t s ∧ t.draft.value? f = some m.2
  once : (Value.keysAmong s.kind.names members).Nodup
  needed : ∀ f ∈ s.kind.fields, f.text ∈ members.map Prod.fst ∨ f = .thread ∧ s.draft.thread = some 0
  other : ∀ m ∈ members, m.1 ∉ s.kind.names → m.1 ≠ "kind" ∧ m.2.Plain ∧ m.2.depth + 3 ≤ Reader.maxDepth

/-- The value is an object with the kind and the fields of the step. -/
def Written (s : Step) (v : Value) : Prop :=
  ∃ front back, v = .object (front ++ ("kind", .text s.kind.text) :: back) ∧ s.HasFields (front ++ back)

/-! ## One field -/

theorem Field.text_inj {f g : Field} (h : f.text = g.text) : f = g := by
  cases f <;> cases g <;> simp [text] at h ⊢

theorem Field.text_ne_kind (f : Field) : f.text ≠ "kind" := by
  cases f <;> decide

theorem Same.kind_eq {s t : Step} (h : t.Same s) : t.kind = s.kind := by
  cases h <;> rfl

namespace Draft

variable {d : Draft} {f : Field} {v : Value}

/-- The value of a field if its name is there. -/
def given {α : Type} (names : List String) (f : Field) (x : Option α) : Option α :=
  if f.text ∈ names then x else none

section

variable {α : Type} {names : List String} {g : Field} {x : Option α}

@[simp] theorem given_nil : given [] f x = none := rfl

theorem given_of_mem (h : f.text ∈ names) : given names f x = x := if_pos h

theorem given_of_notMem (h : f.text ∉ names) : given names f x = none := if_neg h

@[simp] theorem given_cons_self : given (f.text :: names) f x = x := if_pos List.mem_cons_self

@[simp] theorem given_cons_of_ne (h : g ≠ f) : given (f.text :: names) g x = given names g x := by
  have hmem : g.text ∈ f.text :: names ↔ g.text ∈ names :=
    ⟨fun hg => (List.mem_cons.1 hg).resolve_left fun he => h (Field.text_inj he), List.mem_cons_of_mem _⟩
  rw [given, given]
  simp only [hmem]

end

/-- The draft with nothing but the fields of these names. -/
def restrict (d : Draft) (names : List String) : Draft where
  thread := given names .thread d.thread
  pc := given names .pc d.pc
  values := given names .values d.values
  address := given names .address d.address
  bytes := given names .bytes d.bytes
  start := given names .start d.start
  stop := given names .stop d.stop
  name := given names .name d.name
  register := given names .register d.register
  length := given names .length d.length
  yes := given names .yes d.yes

theorem restrict_nil (d : Draft) : d.restrict [] = {} := by
  simp [restrict]

theorem has_restrict {names : List String} (h : f.text ∉ names) : (d.restrict names).has f = false := by
  cases f <;> simp [restrict, has, given_of_notMem h]

theorem setValue_of_notMem {values : List (String × UInt64)} {name : String} (h : name ∉ values.map Prod.fst)
    (x : UInt64) : setValue values name x = values ++ [(name, x)] := by
  have hany : values.any (·.1 == name) = false := by
    rw [List.any_eq_false]
    intro y hy
    rw [beq_iff_eq]
    rintro rfl
    exact h (List.mem_map_of_mem hy)
  rw [setValue, hany, if_neg Bool.false_ne_true]

theorem readValues_objectOf {values : List (String × UInt64)} (h : (values.map Prod.fst).Nodup) :
    readValues (objectOf values) = .ok values := by
  have hfold : ∀ (values before : List (String × UInt64)), ((before ++ values).map Prod.fst).Nodup →
      (values.map fun x => (x.1, Value.word x.2)).foldlM
        (fun values (m : String × Value) => do return setValue values m.1 (← m.2.asWord)) before =
        (.ok (before ++ values) : Except DataFault _) := by
    intro values
    induction values with
    | nil =>
      intro before _
      rw [List.append_nil]
      rfl
    | cons x values ih =>
      intro before hnodup
      have hx : x.1 ∉ before.map Prod.fst := by
        rw [List.map_append, List.map_cons, List.nodup_append] at hnodup
        exact fun hmem => hnodup.2.2 _ hmem _ List.mem_cons_self rfl
      rw [← List.singleton_append, ← List.append_assoc] at hnodup ⊢
      rw [← ih (before ++ [x]) hnodup, List.singleton_append, List.map_cons, List.foldlM_cons, Reader.asWord_word]
      show List.foldlM _ (setValue before x.1 x.2) _ = _
      rw [setValue_of_notMem hx]
  exact hfold values [] h

theorem readBytes_arrayOf (bytes : List UInt8) : readBytes (arrayOf bytes) = .ok bytes := by
  have hmap : ∀ bytes : List UInt8, (bytes.map fun b => Value.natural b.toNat).mapM Value.asByte =
      (.ok bytes : Except DataFault _) := by
    intro bytes
    induction bytes with
    | nil => rfl
    | cons b bytes ih =>
      rw [List.map_cons, List.mapM_cons, ih, Reader.asByte_natural]
      rfl
  exact hmap bytes

/-- Reading a field adds it to those that have been met. -/
theorem put_restrict (hvalues : ∀ values, d.values = some values → (values.map Prod.fst).Nodup)
    (hv : d.value? f = some v) (names : List String) :
    (d.restrict names).put f v = .ok (d.restrict (f.text :: names)) := by
  cases f with
  | values =>
    obtain ⟨x, hx, rfl⟩ := Option.map_eq_some_iff.1 hv
    rw [put, readValues_objectOf (hvalues x hx), Except.map]
    simp [restrict, hx]
  | bytes =>
    obtain ⟨x, hx, rfl⟩ := Option.map_eq_some_iff.1 hv
    rw [put, readBytes_arrayOf, Except.map]
    simp [restrict, hx]
  | thread | pc | address | start | stop | length =>
    obtain ⟨x, hx, rfl⟩ := Option.map_eq_some_iff.1 hv
    rw [put, Reader.asWord_word, Except.map]
    simp [restrict, hx]
  | name | register =>
    obtain ⟨x, hx, rfl⟩ := Option.map_eq_some_iff.1 hv
    rw [put, Value.asText, Except.map]
    simp [restrict, hx]
  | yes =>
    obtain ⟨x, hx, rfl⟩ := Option.map_eq_some_iff.1 hv
    rw [put, Value.asBool, Except.map]
    simp [restrict, hx]

end Draft

/-! ## All fields -/

variable {s t : Step} {members : List (String × Value)}

theorem Kind.text_mem_names {k : Kind} {f : Field} (h : f ∈ k.fields) : f.text ∈ k.names := List.mem_map_of_mem h

/-- The induction is on the members; the fields `seen` stand before them. -/
theorem draftOfMembers_eq {k : Kind} {d : Draft} (hvalues : ∀ values, d.values = some values →
    (values.map Prod.fst).Nodup) (hvalue : ∀ m ∈ members, ∀ f ∈ k.fields, m.1 = f.text → d.value? f = some m.2) :
    ∀ {seen : List String}, ((Value.keysAmong k.names members).reverse ++ seen).Nodup →
      draftOfMembers k (d.restrict seen) members =
        .ok (d.restrict ((Value.keysAmong k.names members).reverse ++ seen)) := by
  induction members with
  | nil => exact fun _ => rfl
  | cons m members ih =>
    intro seen honce
    have ih := @ih fun m hm => hvalue m (List.mem_cons_of_mem _ hm)
    rw [draftOfMembers]
    by_cases hm : m.1 ∈ k.names
    · rw [Value.keysAmong_cons_of_mem hm, List.reverse_cons, List.append_assoc, List.singleton_append] at honce ⊢
      obtain ⟨f, hf, hname, hfind⟩ := exists_find?_of_mem hm
      have hseen : m.1 ∉ seen := (List.nodup_cons.1 (List.nodup_append.1 honce).2.1).1
      rw [← hname] at hseen
      have hput := Draft.put_restrict hvalues (hvalue m List.mem_cons_self f hf hname.symm) seen
      rw [hname] at hput
      rw [hfind]
      simp only [Draft.has_restrict hseen, hput, Bool.false_eq_true, if_false]
      exact ih honce
    · rw [Value.keysAmong_cons_of_notMem hm] at honce ⊢
      rw [find?_eq_none_of_notMem hm]
      exact ih honce

theorem need_given {α : Type} {names : List String} {f : Field} (h : f.text ∈ names) (x : α) :
    Draft.need f (Draft.given names f (some x)) = .ok x := by
  rw [Draft.given_of_mem h, Draft.need]

/-- With all its fields but a thread of zero, the draft of a step gives the step. -/
theorem complete_restrict {names : List String}
    (h : ∀ f ∈ s.kind.fields, f.text ∈ names ∨ f = .thread ∧ s.draft.thread = some 0) :
    (s.draft.restrict names).complete s.kind = .ok s := by
  have hfield : ∀ f ∈ s.kind.fields, f ≠ .thread → f.text ∈ names :=
    fun f hf hthread => (h f hf).resolve_right fun hzero => hthread hzero.1
  cases s with
  | event e =>
    cases e with
    | processStart | processExit => rfl
    | stepInto thread pc | stepOver thread pc | trace thread pc | breakpoint thread pc =>
      have hpc := hfield .pc (by simp [kind, Kind.fields]) (by decide)
      have hthread : (Draft.given names .thread (some thread)).getD 0 = thread := by
        by_cases hname : Field.thread.text ∈ names
        · rw [Draft.given_of_mem hname, Option.getD_some]
        · have hzero : thread = 0 := by simpa [kind, Kind.fields, draft, hname] using h .thread
          rw [Draft.given_of_notMem hname, Option.getD_none, hzero]
      simp only [kind, draft, Draft.restrict, Draft.complete, need_given hpc, hthread, Except.map]
  | registers values =>
    have hvalues := hfield .values (by simp [kind, Kind.fields]) (by decide)
    simp only [kind, draft, Draft.restrict, Draft.complete, need_given hvalues, Except.map]
  | write address bytes =>
    have haddress := hfield .address (by simp [kind, Kind.fields]) (by decide)
    have hbytes := hfield .bytes (by simp [kind, Kind.fields]) (by decide)
    simp only [kind, draft, Draft.restrict, Draft.complete, need_given haddress, need_given hbytes]
    rfl
  | function f =>
    have hstart := hfield .start (by simp [kind, Kind.fields]) (by decide)
    have hstop := hfield .stop (by simp [kind, Kind.fields]) (by decide)
    have hname := hfield .name (by simp [kind, Kind.fields]) (by decide)
    simp only [kind, draft, Draft.restrict, Draft.complete, need_given hstart, need_given hstop, need_given hname]
    rfl
  | setBreakpoint address =>
    have haddress := hfield .address (by simp [kind, Kind.fields]) (by decide)
    simp only [kind, draft, Draft.restrict, Draft.complete, need_given haddress, Except.map]
  | breakAndTaint address register =>
    have haddress := hfield .address (by simp [kind, Kind.fields]) (by decide)
    have hregister := hfield .register (by simp [kind, Kind.fields]) (by decide)
    simp only [kind, draft, Draft.restrict, Draft.complete, need_given haddress, need_given hregister]
    rfl
  | taintRegister register =>
    have hregister := hfield .register (by simp [kind, Kind.fields]) (by decide)
    simp only [kind, draft, Draft.restrict, Draft.complete, need_given hregister, Except.map]
  | taintMemory start length =>
    have haddress := hfield .address (by simp [kind, Kind.fields]) (by decide)
    have hlength := hfield .length (by simp [kind, Kind.fields]) (by decide)
    simp only [kind, draft, Draft.restrict, Draft.complete, need_given haddress, need_given hlength]
    rfl
  | answer yes =>
    have hyes := hfield .yes (by simp [kind, Kind.fields]) (by decide)
    simp only [kind, draft, Draft.restrict, Draft.complete, need_given hyes, Except.map]
  | enableStepTrace => rfl

/-- The values of registers stand in one order in the text, which is the order of a step that is the same. -/
theorem HasFields.exists_ordered (h : s.HasFields members) : ∃ t, Same t s ∧
    ∀ m ∈ members, ∀ f ∈ s.kind.fields, m.1 = f.text → t.draft.value? f = some m.2 := by
  cases s with
  | registers values =>
    obtain ⟨m, hm, hname⟩ : ∃ m ∈ members, m.1 = Field.values.text := by
      simpa [kind, Kind.fields, draft] using h.needed .values
    obtain ⟨t, hsame, hvalue⟩ := h.value m hm .values (by simp [kind, Kind.fields]) hname
    refine ⟨t, hsame, ?_⟩
    intro w hw f hf hkey
    obtain rfl : f = .values := by simpa [kind, Kind.fields] using hf
    have hmw : m = w := Value.eq_of_key_eq h.once hm hw (hname.trans hkey.symm)
      (hname ▸ Kind.text_mem_names hf)
    rw [← hmw]
    exact hvalue
  | _ =>
    refine ⟨_, .refl _, ?_⟩
    intro m hm f hf hkey
    obtain ⟨t, hsame, hvalue⟩ := h.value m hm f hf hkey
    cases hsame
    exact hvalue

theorem Proper.of_same (hs : s.Proper) (h : Same t s) : t.Proper := by
  cases h with
  | refl => exact hs
  | registers h =>
    rintro values ⟨⟩
    exact (h.map Prod.fst).nodup_iff.2 (hs _ rfl)

theorem Proper.nodup (hs : s.Proper) : ∀ values, s.draft.values = some values → (values.map Prod.fst).Nodup := by
  intro values hvalues
  cases s with
  | registers values' =>
    obtain rfl : values' = values := Option.some.inj hvalues
    exact hs _ rfl
  | event e => cases e <;> cases hvalues
  | _ => cases hvalues

/-- The fields of the step give it back. -/
theorem HasFields.exists_content (h : s.HasFields members) (hs : s.Proper) :
    ∃ t, Same t s ∧ ofContent s.kind (.members members) = .ok t := by
  obtain ⟨t, hsame, hvalue⟩ := h.exists_ordered
  refine ⟨t, hsame, ?_⟩
  have honce : ((Value.keysAmong s.kind.names members).reverse ++ []).Nodup := by
    rw [List.append_nil]
    exact List.nodup_reverse.2 h.once
  have hdraft := draftOfMembers_eq (hs.of_same hsame).nodup hvalue honce
  rw [Draft.restrict_nil, List.append_nil] at hdraft
  have hneeded : ∀ f ∈ t.kind.fields, f.text ∈ (Value.keysAmong s.kind.names members).reverse ∨
      f = .thread ∧ t.draft.thread = some 0 := by
    intro f hf
    rw [hsame.kind_eq] at hf
    rw [List.mem_reverse, Value.mem_keysAmong (Kind.text_mem_names hf)]
    refine (h.needed f hf).imp_right ?_
    rintro ⟨rfl, hzero⟩
    cases hsame with
    | refl => exact ⟨rfl, hzero⟩
    | registers => cases hzero
  have hcomplete := complete_restrict hneeded
  rw [hsame.kind_eq] at hcomplete
  simp only [ofContent, hdraft]
  exact hcomplete

/-! ## Reading -/

/-- What is written for a field has no fractions, and its items are no lists or objects. -/
theorem Draft.plain_value {d : Draft} {f : Field} {v : Value} (h : d.value? f = some v) : v.Plain ∧ v.depth ≤ 1 := by
  cases f with
  | values =>
    obtain ⟨x, -, rfl⟩ := Option.map_eq_some_iff.1 h
    refine ⟨Value.forall_lexemes_object (fun _ => rfl) (fun _ => rfl) ?_, ?_⟩
    · intro m hm
      obtain ⟨y, -, rfl⟩ := List.mem_map.1 hm
      exact Value.plain_natural _
    · refine Nat.succ_le_succ (Value.depthOfMembers_le ?_)
      intro m hm
      obtain ⟨y, -, rfl⟩ := List.mem_map.1 hm
      exact Nat.le_refl 0
  | bytes =>
    obtain ⟨x, -, rfl⟩ := Option.map_eq_some_iff.1 h
    refine ⟨Value.forall_lexemes_array (fun _ => rfl) ?_, ?_⟩
    · intro v hv
      obtain ⟨y, -, rfl⟩ := List.mem_map.1 hv
      exact Value.plain_natural _
    · refine Nat.succ_le_succ (Value.depthOfItems_le ?_)
      intro v hv
      obtain ⟨y, -, rfl⟩ := List.mem_map.1 hv
      exact Nat.le_refl 0
  | thread | pc | address | start | stop | length =>
    obtain ⟨x, -, rfl⟩ := Option.map_eq_some_iff.1 h
    exact ⟨Value.plain_natural _, Nat.zero_le 1⟩
  | name | register =>
    obtain ⟨x, -, rfl⟩ := Option.map_eq_some_iff.1 h
    exact ⟨Value.plain_text x, Nat.zero_le 1⟩
  | yes =>
    obtain ⟨x, -, rfl⟩ := Option.map_eq_some_iff.1 h
    exact ⟨Value.plain_bool x, Nat.zero_le 1⟩

/-- A member that can be kept until the kind is known. -/
theorem HasFields.kept (h : s.HasFields members) {depth : Nat} (hdepth : Reader.maxDepth = depth + 3) :
    ∀ m ∈ members, m.1 ≠ "kind" ∧ m.2.Plain ∧ m.2.depth ≤ depth := by
  intro m hm
  by_cases hname : m.1 ∈ s.kind.names
  · obtain ⟨f, hf, hkey⟩ := List.mem_map.1 hname
    obtain ⟨t, -, hvalue⟩ := h.value m hm f hf hkey.symm
    obtain ⟨hplain, hle⟩ := Draft.plain_value hvalue
    rw [Reader.maxDepth] at hdepth
    exact ⟨hkey ▸ f.text_ne_kind, hplain, by omega⟩
  · obtain ⟨hkind, hplain, hle⟩ := h.other m hm hname
    exact ⟨hkind, hplain, by omega⟩

theorem folds_kept {depth : Nat} (k : Option Kind)
    (h : ∀ m ∈ members, m.1 ≠ "kind" ∧ m.2.Plain ∧ m.2.depth ≤ depth) : ∀ before : List (String × Value),
    Reader.Folds (readMember depth) (k, before) (members.map Value.ofMember) (k, members.reverse ++ before) := by
  induction members with
  | nil => exact fun _ => .nil _
  | cons m members ih =>
    intro before
    obtain ⟨hkind, hplain, hdepth⟩ := h m List.mem_cons_self
    rw [List.reverse_cons, List.append_assoc]
    refine .cons ?_ (ih (fun m hm => h m (List.mem_cons_of_mem _ hm)) (m :: before))
    unfold readMember
    dsimp only
    rw [if_neg hkind]
    exact (Reader.reads_value hdepth hplain).member fun v => (k, (m.1, v) :: before)

theorem reads_kind (depth : Nat) (k : Kind) (before : List (String × Value)) :
    (readMember depth "kind" (none, before)).Reads (.mark .colon :: (Value.text k.text).lexemes) (some k, before) := by
  have hkind : readKind.Reads (Value.text k.text).lexemes k :=
    fun _ => Reader.takes_scalar rfl (Kind.ofText_text k)
  exact hkind.member fun k => (some k, before)

/-- The members are read whole, wherever the kind stands among them. -/
theorem takes_members {depth : Nat} {k : Kind} {front back : List (String × Value)} {rest : List Lexeme}
    (h : ∀ m ∈ front ++ back, m.1 ≠ "kind" ∧ m.2.Plain ∧ m.2.depth ≤ depth) :
    (membersReader depth).Takes
      (separated ((front ++ ("kind", .text k.text) :: back).map Value.ofMember) ++ .mark .closeObject :: rest)
      (k, .members (front ++ back)) (.mark .closeObject :: rest) := by
  have hfront := folds_kept none (fun m hm => h m (List.mem_append_left _ hm)) []
  have hback := folds_kept (some k) (fun m hm => h m (List.mem_append_right _ hm)) (front.reverse ++ [])
  have hfold := hfront.append (.cons (reads_kind depth k _) hback)
  rw [List.append_nil, ← List.reverse_append] at hfold
  rw [List.map_append, List.map_cons]
  refine (Reader.takes_foldMembers hfold).bind ?_
  dsimp only
  rw [List.reverse_reverse]
  exact Reader.takes_pure _ _

/-- A step is read from an object that it is written as. -/
theorem Written.exists_reads {v : Value} (h : s.Written v) (hs : s.Proper) {depth : Nat}
    (hdepth : Reader.maxDepth = depth + 3) : ∃ t, Same t s ∧ (reader (depth + 1)).Reads v.lexemes t := by
  obtain ⟨front, back, rfl, hfields⟩ := h
  obtain ⟨t, hsame, hcontent⟩ := hfields.exists_content hs
  refine ⟨t, hsame, ?_⟩
  intro rest
  rw [Value.lexemes, Value.memberLexemes_eq_map, List.cons_append, List.append_assoc]
  refine (Reader.takes_structured (takes_members (hfields.kept hdepth))).bind ?_
  exact Reader.takes_ofData hcontent _

end TaintReplay.Step
