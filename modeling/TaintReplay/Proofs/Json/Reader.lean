import TaintReplay.Json.Reader
import TaintReplay.Proofs.Json.Layout

/-!
# Readers take pieces

What a reader gives depends on the pieces that its tokens show, and on nothing else of the text. `Reader.Takes` says
this for one reader and the pieces that it takes from those in front of it. There is one lemma for each combinator;
lists and objects are taken part by part (`takes_items`, `takes_foldMembers`), and a value is taken whole if it is not
nested too deeply (`takes_value`).
-/

namespace TaintReplay.Json

def Value.isText : Value → Bool
  | text _ => true
  | _ => false

/-- The token is of this piece. A scalar gives its value when it is read; what a fraction gives is left open. -/
inductive Shape.Shows : Shape → Lexeme → Prop
  | mark (m : Mark) : Shows (.mark m) (.mark m)
  | scalar {s : Scalar} {v : Value} {stop : Nat} (hstop : s.stop = .ok stop) (htext : s.isText = v.isText)
      (hvalue : (Lexeme.scalar v).isFraction = false → s.value = .ok v) : Shows (.scalar s) (.scalar v)

/-- What is left of the text are these pieces. -/
def Stream.Shows (s : Stream) (ls : List Lexeme) : Prop := List.Forall₂ (fun t l => t.shape.Shows l) s.tokens ls

namespace Reader

variable {α β σ : Type}

/-- In front of the pieces `ls`, the reader gives `x` and leaves the pieces `rest`. -/
def Takes (r : Reader α) (ls : List Lexeme) (x : α) (rest : List Lexeme) : Prop :=
  ∀ s : Stream, s.Shows ls → ∃ t : Stream, r s = .ok x t ∧ t.Shows rest

variable {ls rest : List Lexeme} {l : Lexeme} {x : α} {y : β} {r : Reader α}

/-! ## Combinators -/

theorem takes_pure (x : α) (ls : List Lexeme) : (pure x : Reader α).Takes ls x ls := by
  intro s hs
  exact ⟨s, rfl, hs⟩

theorem bind_of_ok {f : α → Reader β} {s t : Stream} (h : r s = .ok x t) : (r >>= f) s = f x t := by
  show EStateM.bind r f s = _
  rw [EStateM.bind, h]

theorem Takes.bind {between : List Lexeme} {f : α → Reader β} (h : r.Takes ls x between)
    (hf : (f x).Takes between y rest) : (r >>= f).Takes ls y rest := by
  intro s hs
  obtain ⟨t, hrun, ht⟩ := h s hs
  obtain ⟨u, hnext, hu⟩ := hf t ht
  exact ⟨u, (bind_of_ok hrun).trans hnext, hu⟩

theorem Takes.map (f : α → β) (h : r.Takes ls x rest) : (f <$> r).Takes ls (f x) rest := by
  intro s hs
  obtain ⟨t, hrun, ht⟩ := h s hs
  refine ⟨t, ?_, ht⟩
  show EStateM.map f r s = _
  rw [EStateM.map, hrun]

/-- A reader may look at the next token first. -/
theorem takes_peek {k : Option Shape → Reader β}
    (h : ∀ shape : Shape, shape.Shows l → (k (some shape)).Takes (l :: ls) y rest) :
    (peek >>= k).Takes (l :: ls) y rest := by
  intro s hs
  obtain ⟨tokens, here, finish⟩ := s
  have hshown := hs
  cases hs with
  | cons hl hls => exact h _ hl _ hshown

theorem takes_peek_nil {k : Option Shape → Reader β} (h : (k none).Takes [] y rest) : (peek >>= k).Takes [] y rest := by
  intro s hs
  obtain ⟨tokens, here, finish⟩ := s
  have hshown := hs
  cases hs with
  | nil => exact h _ hshown

theorem takes_demand {fault : TextFault} {k : Shape → Reader β}
    (h : ∀ shape : Shape, shape.Shows l → (k shape).Takes (l :: ls) y rest) :
    (demand fault >>= k).Takes (l :: ls) y rest := by
  intro s hs
  obtain ⟨tokens, here, finish⟩ := s
  have hshown := hs
  cases hs with
  | cons hl hls => exact h _ hl _ hshown

/-- A mark that is looked at is this mark. -/
theorem takes_demand_mark {fault : TextFault} {k : Shape → Reader β} {m : Mark}
    (h : (k (.mark m)).Takes (.mark m :: ls) y rest) : (demand fault >>= k).Takes (.mark m :: ls) y rest := by
  refine takes_demand ?_
  intro shape hshape
  cases hshape
  exact h

theorem takes_eat : eat.Takes (l :: ls) () ls := by
  intro s hs
  obtain ⟨tokens, here, finish⟩ := s
  cases hs with
  | cons hl hls => exact ⟨_, rfl, hls⟩

theorem takes_ofResult (x : α) (ls : List Lexeme) : (ofResult (.ok x)).Takes ls x ls := takes_pure x ls

theorem takes_ofData {e : Except DataFault α} (h : e = .ok x) (ls : List Lexeme) : (ofData e).Takes ls x ls := by
  rw [h]
  exact takes_pure x ls

theorem Takes.located (h : r.Takes ls x rest) : (located r).Takes ls x rest := by
  intro s hs
  obtain ⟨t, hrun, ht⟩ := h s hs
  refine ⟨t, ?_, ht⟩
  simp only [Reader.located, hrun]

theorem Takes.enclosed {between : List Lexeme} {close : Reader Unit} (h : r.Takes ls x between)
    (hclose : close.Takes between () rest) : (enclosed close r).Takes ls x rest := by
  intro s hs
  obtain ⟨t, hrun, ht⟩ := h s hs
  obtain ⟨u, hend, hu⟩ := hclose t ht
  refine ⟨u, ?_, hu⟩
  simp only [Reader.enclosed, hrun, hend]

theorem takes_closeList : closeList.Takes (.mark .closeList :: ls) () ls := takes_demand_mark takes_eat

theorem takes_closeObject : closeObject.Takes (.mark .closeObject :: ls) () ls := takes_demand_mark takes_eat

theorem takes_colon : colon.Takes (.mark .colon :: ls) () ls := takes_demand_mark takes_eat

theorem takes_budget (ls : List Lexeme) : budget.Takes ls (ls.length + 1) ls := by
  intro s hs
  refine ⟨s, ?_, hs⟩
  show EStateM.Result.ok (s.tokens.length + 1) s = _
  rw [hs.length_eq]

/-! ## Scalars -/

theorem takes_scalar {accept : Value → Except DataFault α} {v : Value} (hv : (Lexeme.scalar v).isFraction = false)
    (h : accept v = .ok x) : (scalar accept).Takes (.scalar v :: ls) x ls := by
  refine Takes.located (takes_demand ?_)
  intro shape hshape
  cases hshape with
  | scalar hstop htext hvalue =>
    dsimp only
    rw [hvalue hv]
    exact (takes_ofResult v _).bind (takes_eat.bind (takes_ofData h _))

theorem takes_optional_null : (optional r).Takes (.scalar .null :: ls) none ls := by
  refine takes_peek ?_
  intro shape hshape
  cases hshape with
  | @scalar s _ _ hstop htext hvalue =>
    obtain ⟨isText, value, stop⟩ := s
    obtain rfl : value = .ok .null := hvalue rfl
    exact takes_eat.bind (takes_pure _ _)

/-- A value that is there is not `null`. -/
theorem takes_optional_some (h : r.Takes (l :: ls) x rest) (hl : l.isFraction = false) (hnull : l ≠ .scalar .null) :
    (optional r).Takes (l :: ls) (some x) rest := by
  refine takes_peek ?_
  intro shape hshape
  cases hshape with
  | mark m => exact h.map some
  | @scalar s v _ hstop htext hvalue =>
    obtain ⟨isText, value, stop⟩ := s
    obtain rfl : value = .ok v := hvalue hl
    cases v with
    | null => exact absurd rfl hnull
    | _ => exact h.map some

/-! ## Lists and objects -/

/-- Whatever follows, the reader takes this part. -/
def Reads (r : Reader α) (part : List Lexeme) (x : α) : Prop := ∀ rest, r.Takes (part ++ rest) x rest

theorem takes_nextItem_end (first : Bool) :
    (nextItem first).Takes (.mark .closeList :: ls) false (.mark .closeList :: ls) :=
  takes_demand_mark (takes_pure _ _)

theorem takes_nextItem_first (hl : l.opens = true) : (nextItem true).Takes (l :: ls) true (l :: ls) := by
  refine takes_demand ?_
  intro shape hshape
  cases hshape with
  | scalar => exact takes_pure _ _
  | mark m =>
    cases m with
    | openList | openObject => exact takes_pure _ _
    | closeList | closeObject | comma | colon => cases hl

theorem takes_nextItem_later (hl : l.opens = true) :
    (nextItem false).Takes (.mark .comma :: l :: ls) true (l :: ls) := by
  refine takes_demand_mark (takes_eat.bind (takes_demand ?_))
  intro shape hshape
  cases hshape with
  | scalar => exact takes_pure _ _
  | mark m =>
    cases m with
    | openList | openObject => exact takes_pure _ _
    | closeList | closeObject | comma | colon => cases hl

variable {item : Reader α} {parts : List (List Lexeme)} {xs : List α}

/-- The items behind the first one. -/
theorem takes_items_loop (h : List.Forall₂ (fun part x => Opening part ∧ item.Reads part x) parts xs) :
    ∀ {n : Nat} {ys : List α}, parts.length < n →
      (foldItems.loop (fun ys => return (← item) :: ys) n ys false).Takes
        (continued parts ++ .mark .closeList :: rest) (xs.reverse ++ ys) (.mark .closeList :: rest) := by
  induction h with
  | nil =>
    intro n ys hn
    obtain ⟨n, rfl⟩ : ∃ k, n = k + 1 := ⟨n - 1, by omega⟩
    rw [foldItems.loop]
    exact (takes_nextItem_end false).bind (takes_pure _ _)
  | @cons part x parts xs hpart hparts ih =>
    intro n ys hn
    obtain ⟨n, rfl⟩ : ∃ k, n = k + 1 := ⟨n - 1, by omega⟩
    obtain ⟨⟨l, tail, rfl, hl⟩, hreads⟩ := hpart
    rw [foldItems.loop, List.reverse_cons, List.append_assoc, continued, List.cons_append, List.append_assoc]
    refine (takes_nextItem_later hl).bind (.bind ?_ (ih (by simpa using hn)))
    exact (hreads _).bind (takes_pure _ _)

theorem length_le_length_continued (parts : List (List Lexeme)) : parts.length ≤ (continued parts).length := by
  induction parts with
  | nil => exact Nat.le_refl _
  | cons part parts ih =>
    rw [continued, List.length_cons, List.length_cons, List.length_append]
    omega

/-- A list is taken item by item, up to its closing bracket. -/
theorem takes_items (h : List.Forall₂ (fun part x => Opening part ∧ item.Reads part x) parts xs) :
    (items item true).Takes (separated parts ++ .mark .closeList :: rest) xs (.mark .closeList :: rest) := by
  have hfold : (foldItems (fun ys => return (← item) :: ys) [] true).Takes
      (separated parts ++ .mark .closeList :: rest) xs.reverse (.mark .closeList :: rest) := by
    refine (takes_budget _).bind ?_
    rw [foldItems.loop]
    cases h with
    | nil => exact (takes_nextItem_end true).bind (takes_pure _ _)
    | @cons part x parts xs hpart hparts =>
      have hlength := length_le_length_continued parts
      obtain ⟨⟨l, tail, rfl, hl⟩, hreads⟩ := hpart
      rw [separated, List.reverse_cons, List.append_assoc]
      refine (takes_nextItem_first hl).bind (.bind ((hreads _).bind (takes_pure _ _)) ?_)
      refine takes_items_loop hparts ?_
      simp only [List.length_append, List.length_cons]
      omega
  refine hfold.bind ?_
  rw [List.reverse_reverse]
  exact takes_pure _ _

/-! ### Objects -/

theorem takes_key (k : String) : key.Takes (.scalar (.text k) :: ls) k ls := by
  refine takes_demand ?_
  intro shape hshape
  cases hshape with
  | @scalar s _ _ hstop htext hvalue =>
    obtain ⟨isText, value, stop⟩ := s
    obtain rfl : isText = true := htext
    obtain rfl : value = .ok (.text k) := hvalue rfl
    exact (takes_ofResult _ _).bind (takes_eat.bind (takes_pure _ _))

theorem takes_nextKey_end (first : Bool) :
    (nextKey first).Takes (.mark .closeObject :: ls) none (.mark .closeObject :: ls) :=
  takes_demand_mark (takes_pure _ _)

theorem takes_nextKey_first (k : String) : (nextKey true).Takes (.scalar (.text k) :: ls) (some k) ls := by
  refine takes_demand ?_
  intro shape hshape
  cases hshape with
  | scalar => exact (takes_key k).bind (takes_pure _ _)

theorem takes_nextKey_later (k : String) :
    (nextKey false).Takes (.mark .comma :: .scalar (.text k) :: ls) (some k) ls :=
  takes_demand_mark (takes_eat.bind ((takes_key k).bind (takes_pure _ _)))

/-- What stands behind the colon of a member. -/
theorem Reads.member {part : List Lexeme} (h : r.Reads part x) (f : α → β) :
    (do colon; return f (← r) : Reader β).Reads (.mark .colon :: part) (f x) :=
  fun rest => takes_colon.bind ((h rest).bind (takes_pure _ _))

/-- The step goes with the members from the first state to the last. -/
inductive Folds (step : String → σ → Reader σ) : σ → List (List Lexeme) → σ → Prop
  | nil (x : σ) : Folds step x [] x
  | cons {x y z : σ} {k : String} {body : List Lexeme} {parts : List (List Lexeme)}
      (h : (step k x).Reads (.mark .colon :: body) y) (hparts : Folds step y parts z) :
      Folds step x ((.scalar (.text k) :: .mark .colon :: body) :: parts) z

variable {step : String → σ → Reader σ} {u w : σ}

theorem Folds.append {v : σ} {parts parts' : List (List Lexeme)} (h : Folds step u parts v)
    (h' : Folds step v parts' w) : Folds step u (parts ++ parts') w := by
  induction h with
  | nil => exact h'
  | cons hstep _ ih => exact .cons hstep (ih h')

/-- The members behind the first one. -/
theorem takes_foldMembers_loop (h : Folds step u parts w) : ∀ {n : Nat}, parts.length < n →
    (foldMembers.loop step n u false).Takes (continued parts ++ .mark .closeObject :: rest) w
      (.mark .closeObject :: rest) := by
  induction h with
  | nil =>
    intro n hn
    obtain ⟨n, rfl⟩ : ∃ k, n = k + 1 := ⟨n - 1, by omega⟩
    rw [foldMembers.loop]
    exact (takes_nextKey_end false).bind (takes_pure _ _)
  | cons h hparts ih =>
    intro n hn
    obtain ⟨n, rfl⟩ : ∃ k, n = k + 1 := ⟨n - 1, by omega⟩
    rw [foldMembers.loop, continued, List.cons_append, List.append_assoc]
    exact (takes_nextKey_later _).bind ((h _).bind (ih (by simpa using hn)))

/-- An object is taken member by member, up to its closing bracket. -/
theorem takes_foldMembers (h : Folds step u parts w) :
    (foldMembers step u).Takes (separated parts ++ .mark .closeObject :: rest) w (.mark .closeObject :: rest) := by
  refine (takes_budget _).bind ?_
  rw [foldMembers.loop]
  cases h with
  | nil => exact (takes_nextKey_end true).bind (takes_pure _ _)
  | @cons _ _ _ _ _ parts h hparts =>
    have hlength := length_le_length_continued parts
    rw [separated, List.append_assoc]
    refine (takes_nextKey_first _).bind ((h _).bind (takes_foldMembers_loop hparts ?_))
    simp only [List.length_append, List.length_cons]
    omega

/-- Members of known names are read in any order: what has been read depends on the names `seen` so far. Members of
other names change nothing. The induction is on the members. -/
theorem folds_named {names : List String} {state : List String → σ} {members : List (String × Value)}
    (hknown : ∀ m ∈ members, m.1 ∈ names → ∀ seen, m.1 ∉ seen →
      (step m.1 (state seen)).Reads (.mark .colon :: m.2.lexemes) (state (m.1 :: seen)))
    (hother : ∀ m ∈ members, m.1 ∉ names → ∀ x, (step m.1 x).Reads (.mark .colon :: m.2.lexemes) x) :
    ∀ {seen : List String}, ((Value.keysAmong names members).reverse ++ seen).Nodup →
      Folds step (state seen) (members.map Value.ofMember)
        (state ((Value.keysAmong names members).reverse ++ seen)) := by
  induction members with
  | nil => exact fun _ => .nil _
  | cons m members ih =>
    intro seen honce
    have ih := @ih (fun m hm => hknown m (List.mem_cons_of_mem _ hm)) fun m hm => hother m (List.mem_cons_of_mem _ hm)
    by_cases hm : m.1 ∈ names
    · rw [Value.keysAmong_cons_of_mem hm, List.reverse_cons, List.append_assoc, List.singleton_append] at honce ⊢
      have hseen : m.1 ∉ seen := (List.nodup_cons.1 (List.nodup_append.1 honce).2.1).1
      exact .cons (hknown m List.mem_cons_self hm seen hseen) (ih honce)
    · rw [Value.keysAmong_cons_of_notMem hm] at honce ⊢
      exact .cons (hother m List.mem_cons_self hm _) (ih honce)

/-- An object with members of known names, none of them there twice. -/
theorem takes_named {names : List String} {state : List String → σ} {members : List (String × Value)}
    (hknown : ∀ m ∈ members, m.1 ∈ names → ∀ seen, m.1 ∉ seen →
      (step m.1 (state seen)).Reads (.mark .colon :: m.2.lexemes) (state (m.1 :: seen)))
    (hother : ∀ m ∈ members, m.1 ∉ names → ∀ x, (step m.1 x).Reads (.mark .colon :: m.2.lexemes) x)
    (honce : (Value.keysAmong names members).Nodup) :
    (foldMembers step (state [])).Takes (separated (members.map Value.ofMember) ++ .mark .closeObject :: rest)
      (state (Value.keysAmong names members).reverse) (.mark .closeObject :: rest) := by
  have hfold : Folds step (state []) (members.map Value.ofMember)
      (state ((Value.keysAmong names members).reverse ++ [])) := by
    refine folds_named hknown hother ?_
    rw [List.append_nil]
    exact List.nodup_reverse.2 honce
  rw [List.append_nil] at hfold
  exact takes_foldMembers hfold

/-! ### Structured data -/

theorem takes_structured {expected : String} {depth : Nat} {list object : Nat → Reader α}
    (h : (object depth).Takes ls x (.mark .closeObject :: rest)) :
    (structured expected (depth + 1) list object).Takes (.mark .openObject :: ls) x rest :=
  .located (takes_demand_mark (takes_eat.bind (h.enclosed takes_closeObject)))

theorem takes_list {depth : Nat} {item : Nat → Reader α}
    (h : List.Forall₂ (fun part x => Opening part ∧ (item depth).Reads part x) parts xs) :
    (list (depth + 1) item).Takes (.mark .openList :: (separated parts ++ .mark .closeList :: rest)) xs rest :=
  .located (takes_demand_mark (takes_eat.bind ((takes_items h).enclosed takes_closeList)))

/-! ### Values of any kind -/

theorem takes_value_scalar {depth : Nat} {v : Value} (hv : (Lexeme.scalar v).isFraction = false) :
    (value depth).Takes (.scalar v :: ls) v ls := by
  unfold value
  refine Takes.located (takes_demand ?_)
  intro shape hshape
  cases hshape with
  | scalar hstop htext hvalue =>
    dsimp only
    rw [hvalue hv]
    exact (takes_ofResult v _).bind (takes_eat.bind (takes_pure _ _))

/-- The members of an object as they are read. -/
theorem folds_members {depth : Nat} {members : List (String × Value)}
    (h : ∀ m ∈ members, (value depth).Reads m.2.lexemes m.2) : ∀ before : List (String × Value),
    Folds (fun k ms => do
      colon
      return (k, ← value depth) :: ms) before (members.map Value.ofMember) (members.reverse ++ before) := by
  induction members with
  | nil => exact fun before => .nil before
  | cons m members ih =>
    intro before
    rw [List.reverse_cons, List.append_assoc]
    have hrest := ih (fun m hm => h m (List.mem_cons_of_mem _ hm)) (m :: before)
    exact .cons ((h m List.mem_cons_self).member fun v => (m.1, v) :: before) hrest

/-- A value is taken whole if its nesting is allowed. The induction is on how deeply values may be nested. -/
theorem reads_value : ∀ {depth : Nat} {v : Value}, v.depth ≤ depth → v.Plain → (value depth).Reads v.lexemes v := by
  intro depth
  induction depth with
  | zero =>
    intro v hdepth hv rest
    cases v with
    | null | bool | number | text => exact takes_value_scalar (hv _ (by simp [Value.lexemes]))
    | array | object => simp [Value.depth] at hdepth
  | succ depth ih =>
    intro v hdepth hv rest
    cases v with
    | null | bool | number | text => exact takes_value_scalar (hv _ (by simp [Value.lexemes]))
    | array items =>
      have hitems : List.Forall₂ (fun part x => Opening part ∧ (value depth).Reads part x)
          (items.map Value.lexemes) items := by
        rw [List.forall₂_map_left_iff, List.forall₂_same]
        intro v hmem
        have hle := Value.depth_le_of_mem_items hmem
        rw [Value.depth] at hdepth
        exact ⟨v.opening_lexemes, ih (by omega) (hv.item hmem)⟩
      rw [Value.lexemes, Value.itemLexemes_eq_map, List.cons_append, List.append_assoc]
      unfold value
      refine .located (takes_demand_mark (takes_eat.bind ?_))
      exact .map _ ((takes_items hitems).enclosed takes_closeList)
    | object members =>
      have hmembers : ∀ m ∈ members, (value depth).Reads m.2.lexemes m.2 := by
        intro m hmem
        have hle := Value.depth_le_of_mem_members hmem
        rw [Value.depth] at hdepth
        exact ih (by omega) (hv.member hmem)
      have hfold : (foldMembers _ []).Takes _ _ (.mark .closeObject :: rest) :=
        takes_foldMembers (folds_members hmembers [])
      rw [Value.lexemes, Value.memberLexemes_eq_map, List.cons_append, List.append_assoc]
      unfold value
      refine .located (takes_demand_mark (takes_eat.bind ?_))
      have hresult := (hfold.enclosed takes_closeObject).map fun ms => Value.object ms.reverse
      rw [List.append_nil, List.reverse_reverse] at hresult
      exact hresult

/-! ### Values that are wanted -/

theorem asNatural_natural {n bound : Nat} (h : n < bound) (expected : String) :
    (Value.natural n).asNatural bound expected = .ok n := by
  rw [Value.natural, Value.asNatural, if_pos (by omega), Int.toNat_natCast]

theorem asWord_word (n : UInt64) : (Value.word n).asWord = .ok n := by
  rw [Value.word, Value.asWord, asNatural_natural n.toNat_lt, Except.map, UInt64.ofNat_toNat]

theorem asHalfWord_natural (n : UInt32) : (Value.natural n.toNat).asHalfWord = .ok n := by
  rw [Value.asHalfWord, asNatural_natural n.toNat_lt, Except.map, UInt32.ofNat_toNat]

theorem asByte_natural (n : UInt8) : (Value.natural n.toNat).asByte = .ok n := by
  rw [Value.asByte, asNatural_natural n.toNat_lt, Except.map, UInt8.ofNat_toNat]

theorem reads_bool (b : Bool) : (scalar Value.asBool).Reads (Value.bool b).lexemes b :=
  fun _ => takes_scalar rfl rfl

theorem reads_text (s : String) : (scalar Value.asText).Reads (Value.text s).lexemes s :=
  fun _ => takes_scalar rfl rfl

theorem reads_word (n : UInt64) : (scalar Value.asWord).Reads (Value.word n).lexemes n :=
  fun _ => takes_scalar rfl (asWord_word n)

theorem reads_halfWord (n : UInt32) : (scalar Value.asHalfWord).Reads (Value.natural n.toNat).lexemes n :=
  fun _ => takes_scalar rfl (asHalfWord_natural n)

end Reader

end TaintReplay.Json
