import TaintReplay.Options.Json
import TaintReplay.Proofs.Json.Print
import TaintReplay.Proofs.Json.Skipping

/-!
# Options written as objects

`Options.Written o members` says that the members of an object agree with the options `o`: a member that is named as an
option has the value of `o`, and no option is there twice. Options may be missing, members may stand in any order, and
others may stand between them. What is read from such an object, whatever its text, are the defaults with those options
of `o` that are there (`reads_reader`). In what the program itself writes no option is missing (`written_toValue`).
-/

namespace TaintReplay.Options

open Json

/-- The options of `o` that have these names; the others are the defaults. -/
def overridden (names : List String) (o : Options) : Options :=
  let given (name : String) : Options := if name ∈ names then o else {}
  { showInfo := (given "show_debug_info").showInfo
    showDetail := (given "show_extra_debug_info").showDetail
    paintExecuted := (given "paint_executed_instructions").paintExecuted
    commentControlled := (given "add_comments_controlled_operands").commentControlled
    commentExpressions := (given "add_comments_symbolic_expressions").commentExpressions
    renameTainted := (given "rename_tainted_function_names").renameTainted
    useTaint := (given "use_tainting_engine").useTaint
    useSymbols := (given "use_symbolic_engine").useSymbols
    limit := (given "limit_instructions_tracing_mode").limit
    colorTainted := (given "color_tainted").colorTainted
    colorCondition := (given "color_tainted_condition").colorCondition
    colorExecuted := (given "color_executed_instruction").colorExecuted
    stepAfterAction := (given "step_into_when_tainting").stepAfterAction
    modeSwitch := (given "mode_switch_pattern").modeSwitch }

/-- The names of the options in a text. -/
def names : List String := fields.map (·.name)

theorem overridden_congr {xs ys : List String} (h : ∀ name ∈ names, name ∈ xs ↔ name ∈ ys) (o : Options) :
    overridden xs o = overridden ys o := by
  simp only [names, fields, List.map_cons, List.map_nil, List.forall_mem_cons, field, switch, color] at h
  simp only [overridden, h]

theorem overridden_names (o : Options) : overridden names o = o := by
  simp [overridden, names, fields, field, switch, color]

theorem overridden_nil (o : Options) : overridden [] o = {} := by
  simp [overridden]

/-! ## One option -/

/-- Reading the option puts its value in `o` in the place of the default. -/
def Field.Restores (f : Field) : Prop := ∀ o : Options, ∃ set : Options → Options,
  f.read.Reads (f.write o).lexemes set ∧ ∀ xs, set (overridden xs o) = overridden (f.name :: xs) o

section

variable {α : Type} {name : String} {toValue : α → Value} {reader : Reader α}

theorem field_restores {get : Options → α} {set : Options → α → Options}
    (hread : ∀ x, reader.Reads (toValue x).lexemes x)
    (hset : ∀ o xs, set (overridden xs o) (get o) = overridden (name :: xs) o) :
    (field name toValue reader get set).Restores := by
  intro o
  refine ⟨fun p => set p (get o), ?_, hset o⟩
  intro rest
  exact (hread _ rest).bind (Reader.takes_pure _ _)

theorem switch_restores {get : Options → Bool} {set : Options → Bool → Options}
    (hset : ∀ o xs, set (overridden xs o) (get o) = overridden (name :: xs) o) : (switch name get set).Restores :=
  field_restores Reader.reads_bool hset

theorem color_restores {get : Options → UInt32} {set : Options → UInt32 → Options}
    (hset : ∀ o xs, set (overridden xs o) (get o) = overridden (name :: xs) o) : (color name get set).Restores :=
  field_restores Reader.reads_halfWord hset

end

/-- A limit that is missing is written as `null`. -/
theorem reads_limit (limit : Option UInt64) :
    (Reader.optional (Reader.scalar Value.asWord)).Reads (Value.optional .word limit).lexemes limit := by
  intro rest
  cases limit with
  | none => exact Reader.takes_optional_null
  | some n => exact Reader.takes_optional_some (Reader.reads_word n rest) rfl (by simp)

theorem fields_restore : ∀ f ∈ fields, f.Restores := by
  simp only [fields, List.forall_mem_cons, List.not_mem_nil, false_implies, implies_true, and_true]
  refine ⟨switch_restores ?_, switch_restores ?_, switch_restores ?_, switch_restores ?_, switch_restores ?_,
    switch_restores ?_, switch_restores ?_, switch_restores ?_, field_restores reads_limit ?_, color_restores ?_,
    color_restores ?_, color_restores ?_, switch_restores ?_, field_restores Reader.reads_text ?_⟩
  all_goals
    intro o xs
    simp [overridden]

/-! ## All options -/

/-- The members are those of the options, as far as they are options, and none of them is there twice. -/
structure Written (o : Options) (members : List (String × Value)) : Prop where
  value : ∀ m ∈ members, ∀ f ∈ fields, m.1 = f.name → m.2 = f.write o
  once : (Value.keysAmong names members).Nodup

theorem reads_member_unknown {key : String} (h : key ∉ names) (v : Value) (state : Options × List String) :
    (readMember key state).Reads (.mark .colon :: v.lexemes) state := by
  unfold readMember
  rw [find?_eq_none_of_notMem h]
  exact (Reader.reads_skip v).member fun _ => state

/-- What is known behind the members with these names. -/
def after (o : Options) (seen : List String) : Options × List String := (overridden seen o, seen)

theorem reads_member {o : Options} {m : String × Value} {seen : List String} (hm : m.1 ∈ names)
    (hvalue : ∀ f ∈ fields, m.1 = f.name → m.2 = f.write o) (hseen : m.1 ∉ seen) :
    (readMember m.1 (after o seen)).Reads (.mark .colon :: m.2.lexemes) (after o (m.1 :: seen)) := by
  obtain ⟨f, hf, hname, hfind⟩ := exists_find?_of_mem hm
  obtain ⟨set, hread, hset⟩ := fields_restore f hf o
  rw [hvalue f hf hname.symm]
  unfold readMember after
  dsimp only
  rw [hfind]
  dsimp only
  rw [if_neg (by simpa using hseen), ← hname, ← hset]
  exact hread.member fun set => (set (overridden seen o), f.name :: seen)

variable {o : Options} {members : List (String × Value)}

theorem reads_reader (h : Written o members) (depth : Nat) :
    (reader (depth + 1)).Reads (Value.object members).lexemes (overridden (members.map Prod.fst) o) := by
  intro rest
  have hfold : (Reader.foldMembers readMember (after o [])).Takes
      (separated (members.map Value.ofMember) ++ .mark .closeObject :: rest)
      (after o (Value.keysAmong names members).reverse) (.mark .closeObject :: rest) :=
    Reader.takes_named (fun m hm hname _ => reads_member hname (h.value m hm))
      (fun m _ hname => reads_member_unknown hname m.2) h.once
  rw [after, overridden_nil] at hfold
  have hnames : overridden (Value.keysAmong names members).reverse o = overridden (members.map Prod.fst) o := by
    refine overridden_congr ?_ o
    intro name hname
    rw [List.mem_reverse, Value.mem_keysAmong hname]
  rw [← hnames, Value.lexemes, Value.memberLexemes_eq_map, List.cons_append, List.append_assoc]
  exact Reader.takes_structured (hfold.bind (Reader.takes_pure _ _))

theorem ofBytes_of_written {bytes : List UInt8} (h : Written o members)
    (hbytes : (Value.object members).HasText bytes) : ofBytes bytes = .ok (overridden (members.map Prod.fst) o) := by
  have hreads := reads_reader h 126 []
  rw [List.append_nil] at hreads
  exact hreads.run hbytes

/-! ## What the program writes -/

theorem nodup_names : names.Nodup := by
  decide

/-- The options of an object that the program writes. -/
theorem map_fst_members (o : Options) : (fields.map fun f => (f.name, f.write o)).map Prod.fst = names := by
  rw [List.map_map]
  rfl

theorem written_toValue (o : Options) : Written o (fields.map fun f => (f.name, f.write o)) := by
  refine ⟨?_, ?_⟩
  · intro m hm f hf hname
    obtain ⟨g, hg, rfl⟩ := List.mem_map.1 hm
    rw [List.inj_on_of_nodup_map nodup_names hg hf hname]
  · rw [Value.keysAmong, map_fst_members]
    exact nodup_names.filter _

theorem ofWords_toValue (o : Options) : o.toValue.OfWords := by
  have hwrite : ∀ f ∈ fields, (f.write o).OfWords := by
    have hcolor (c : UInt32) : (Value.natural c.toNat).OfWords :=
      Value.ofWords_natural (Nat.lt_trans c.toNat_lt (by decide))
    have hlimit (limit : Option UInt64) : (Value.optional .word limit).OfWords := by
      cases limit with
      | none => exact Value.ofWords_null
      | some n => exact Value.ofWords_word n
    simp [fields, field, switch, color, Value.ofWords_bool, Value.ofWords_text, hcolor, hlimit]
  refine Value.forall_lexemes_object (fun _ => trivial) (fun _ => trivial) ?_
  intro m hm
  obtain ⟨f, hf, rfl⟩ := List.mem_map.1 hm
  exact hwrite f hf

theorem ofBytes_toValue (o : Options) {bytes : List UInt8} (h : o.toValue.HasText bytes) : ofBytes bytes = .ok o := by
  rw [ofBytes_of_written (written_toValue o) h, map_fst_members, overridden_names]

/-- Options are what is read from their own text, in one line or over several lines. Of an object with some of them, in
any order and between other members, what is read are the defaults with these. A limit of `null` is no limit, and
without a limit the default one stands. -/
theorem ofBytes_text : (∀ o : Options, ofBytes (bytesOf o.toValue.compact) = .ok o ∧
      ofBytes (bytesOf o.toValue.pretty) = .ok o) ∧
    ∀ (o : Options) (members : List (String × Value)) (bytes : List UInt8), Written o members →
      (Value.object members).HasText bytes →
      ∃ p, ofBytes bytes = .ok p ∧ p = overridden (members.map Prod.fst) o ∧
        (("limit_instructions_tracing_mode", Value.null) ∈ members → p.limit = none) ∧
        ((∀ m ∈ members, m.1 ≠ "limit_instructions_tracing_mode") → p.limit = some 1000) := by
  refine ⟨?_, ?_⟩
  · intro o
    have hwords := ofWords_toValue o
    exact ⟨ofBytes_toValue o (Value.hasText_compact hwords), ofBytes_toValue o (Value.hasText_pretty hwords)⟩
  · intro o members bytes hmembers hbytes
    refine ⟨_, ofBytes_of_written hmembers hbytes, rfl, ?_, ?_⟩
    · intro hnull
      have hlimit : Value.null = Value.optional .word o.limit :=
        hmembers.value _ hnull fields[8] (List.getElem_mem _) rfl
      have hname : "limit_instructions_tracing_mode" ∈ members.map Prod.fst := List.mem_map_of_mem hnull
      rw [overridden]
      dsimp only
      rw [if_pos hname]
      cases hvalue : o.limit with
      | none => rfl
      | some n => rw [hvalue] at hlimit; cases hlimit
    · intro habsent
      have hname : "limit_instructions_tracing_mode" ∉ members.map Prod.fst := by
        rw [List.mem_map]
        exact fun ⟨m, hm, hname⟩ => habsent m hm hname
      rw [overridden]
      dsimp only
      rw [if_neg hname]

/-- An object without a limit, with one other option and a member that is none. -/
theorem ofBytes_text_symbols : ∃ p, ofBytes (bytesOf (Value.object [("comment", .array [.null]),
    ("limit_instructions_tracing_mode", .null), ("use_symbolic_engine", .bool true)]).pretty) = .ok p ∧
    p.useSymbols = true ∧ p.limit = none := by
  have hmembers : Written { useSymbols := true, limit := none } [("comment", .array [.null]),
      ("limit_instructions_tracing_mode", .null), ("use_symbolic_engine", .bool true)] := by
    refine ⟨?_, by decide⟩
    simp [fields, field, switch, color, Value.optional]
  have hwords : (Value.object [("comment", .array [.null]), ("limit_instructions_tracing_mode", .null),
      ("use_symbolic_engine", .bool true)]).OfWords := by
    refine Value.forall_lexemes_object (fun _ => trivial) (fun _ => trivial) ?_
    simp [Value.lexemes, Value.itemLexemes, separated, continued, Lexeme.IsWord]
  obtain ⟨p, hread, hp, hnull, -⟩ := ofBytes_text.2 _ _ _ hmembers (Value.hasText_pretty hwords)
  refine ⟨p, hread, ?_, hnull (by simp)⟩
  rw [hp]
  rfl

end TaintReplay.Options
