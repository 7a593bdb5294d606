import TaintReplay.Proofs.Json.Reader

/-!
# Skipping takes a value

A value is skipped token by token, with a stack of the lists and objects around the place that has been reached. So the
statement about one value is about any such place: skipping goes on behind the value as it would behind a comma
(`takes_skipAll`). Values may be nested without a limit, and may have fractions in them (`reads_skip`).
-/

namespace TaintReplay.Json.Reader

open Value

/-- Skipping goes on behind a value, if there is something around it. -/
def skipOn (n : Nat) : List Container → Reader Unit
  | [] => pure ()
  | c :: around => skipAll n .comma (c :: around)

variable {ls rest out : List Lexeme} {c : Container} {around : List Container} {m n : Nat}

theorem takes_pass {s : Scalar} {l : Lexeme} {stop : Nat} (h : s.stop = .ok stop) : (pass s).Takes (l :: ls) () ls := by
  unfold pass
  rw [h]
  exact ((takes_ofResult stop _).map _).bind takes_eat

/-- One step, and then the others. -/
theorem takes_skipAll_succ {e e' : Expected} {around' : List Container}
    (h : (skipStep e around).Takes ls (e', around') rest) (hdone : (e', around') ≠ (.comma, []))
    (hnext : (skipAll n e' around').Takes rest () out) : (skipAll (n + 1) e around).Takes ls () out := by
  rw [skipAll]
  refine h.bind ?_
  split
  · rename_i heq
    exact absurd heq hdone
  · rename_i heq
    obtain ⟨rfl, rfl⟩ := Prod.mk.inj heq
    exact hnext

/-- A step that ends a value, and then what is behind it. -/
theorem takes_skipAll_end {e : Expected} {around' : List Container}
    (h : (skipStep e around).Takes ls (.comma, around') rest) (hnext : (skipOn n around').Takes rest () out) :
    (skipAll (n + 1) e around).Takes ls () out := by
  cases around' with
  | nil =>
    rw [skipAll]
    exact h.bind hnext
  | cons c around' => exact takes_skipAll_succ h (by simp) hnext

theorem takes_skipStep_scalar (v : Value) : (skipStep .value around).Takes (.scalar v :: ls) (.comma, around) ls := by
  unfold skipStep
  refine takes_demand ?_
  intro shape hshape
  cases hshape with
  | scalar hstop htext hvalue => exact (takes_pass hstop).bind (takes_pure _ _)

/-- The bracket that opens a container. -/
def Container.opening : Container → Mark
  | list => .openList
  | object => .openObject

theorem takes_skipStep_open (c : Container) :
    (skipStep .value around).Takes (.mark c.opening :: ls) (.firstItem, c :: around) ls := by
  unfold skipStep
  cases c with
  | list | object => exact takes_demand_mark (takes_eat.bind (takes_pure _ _))

theorem takes_skipStep_close {e : Expected} (he : e ≠ .value) (c : Container) :
    (skipStep e (c :: around)).Takes (.mark c.close :: ls) (.comma, around) ls := by
  unfold skipStep
  cases e with
  | value => exact absurd rfl he
  | firstItem | comma =>
    refine takes_demand_mark ?_
    dsimp only
    rw [if_pos rfl]
    exact takes_eat.bind (takes_pure _ _)

/-- What stands in front of a value in a container: nothing, or the key and the colon. -/
inductive Front : Container → List Lexeme → Prop
  | item : Front .list []
  | member (k : String) : Front .object [.scalar (.text k), .mark .colon]

theorem Front.takes_skipKey {front : List Lexeme} (h : Front c front) : (skipKey c).Takes (front ++ ls) () ls := by
  cases h with
  | item => exact takes_pure _ _
  | member k =>
    unfold skipKey
    refine takes_demand ?_
    intro shape hshape
    cases hshape with
    | @scalar s _ _ hstop htext hvalue =>
      dsimp only
      rw [if_pos (show s.isText = true from htext)]
      exact (takes_pass hstop).bind takes_colon

theorem Front.opening {front part : List Lexeme} (h : Front c front) (hpart : Opening part) :
    Opening (front ++ part) := by
  cases h with
  | item => exact hpart
  | member k => exact ⟨_, _, rfl, rfl⟩

/-- The first value of a container. -/
theorem takes_skipStep_first {front part : List Lexeme} (h : Front c front) (hpart : Opening part) :
    (skipStep .firstItem (c :: around)).Takes (front ++ part) (.value, c :: around) part := by
  have hkey : (skipKey c).Takes (front ++ part) () part := h.takes_skipKey
  obtain ⟨l, tail, heq, hl⟩ := h.opening hpart
  rw [heq] at hkey ⊢
  unfold skipStep
  refine takes_demand ?_
  intro shape hshape
  cases hshape with
  | scalar hstop htext hvalue => exact hkey.bind (takes_pure _ _)
  | mark m =>
    have hne : m ≠ c.close := by
      rintro rfl
      cases c <;> cases hl
    dsimp only
    rw [if_neg hne]
    exact hkey.bind (takes_pure _ _)

/-- Another value of a container. -/
theorem takes_skipStep_later {front part : List Lexeme} (h : Front c front) :
    (skipStep .comma (c :: around)).Takes (.mark .comma :: (front ++ part)) (.value, c :: around) part := by
  have hne : Mark.comma ≠ c.close := by cases c <;> decide
  unfold skipStep
  refine takes_demand_mark ?_
  dsimp only
  rw [if_neg hne, if_neg (by simp)]
  exact takes_eat.bind (h.takes_skipKey.bind (takes_pure _ _))

/-! ## Whole values -/

/-- From any stack, skipping takes the value, with two steps for each of its pieces at most. -/
def Skips (v : Value) : Prop := ∀ {around : List Container} {rest out : List Lexeme} {m n : Nat},
  (∀ k, m ≤ k → (skipOn k around).Takes rest () out) → m + 2 * v.lexemes.length ≤ n →
    (skipAll n .value around).Takes (v.lexemes ++ rest) () out

theorem skips_scalar {v : Value} (hv : v.lexemes = [.scalar v]) : Skips v := by
  intro around rest out m n hrest hn
  rw [hv, List.length_singleton] at hn
  obtain ⟨n, rfl⟩ : ∃ k, n = k + 1 := ⟨n - 1, by omega⟩
  rw [hv]
  exact takes_skipAll_end (takes_skipStep_scalar v) (hrest n (by omega))

/-- Parts of a container, each of them something in front of a value. -/
def FrontedParts (c : Container) (parts : List (List Lexeme)) : Prop :=
  ∀ part ∈ parts, ∃ front v, part = front ++ v.lexemes ∧ Front c front ∧ Skips v

variable {parts : List (List Lexeme)}

/-- The values of a container behind the first one, and its closing bracket. -/
theorem takes_skipAll_continued (h : FrontedParts c parts)
    (hrest : ∀ k, m ≤ k → (skipOn k around).Takes rest () out) :
    ∀ k, m + 2 * (continued parts).length + 1 ≤ k →
      (skipAll k .comma (c :: around)).Takes (continued parts ++ .mark c.close :: rest) () out := by
  induction parts with
  | nil =>
    intro k hk
    obtain ⟨k, rfl⟩ : ∃ j, k = j + 1 := ⟨k - 1, by omega⟩
    exact takes_skipAll_end (takes_skipStep_close (by simp) c) (hrest k (by simp [continued] at hk; omega))
  | cons part parts ih =>
    intro k hk
    obtain ⟨k, rfl⟩ : ∃ j, k = j + 1 := ⟨k - 1, by omega⟩
    obtain ⟨front, v, rfl, hfront, hv⟩ := h part List.mem_cons_self
    have hparts := ih fun part hpart => h part (List.mem_cons_of_mem _ hpart)
    simp only [continued, List.length_cons, List.length_append] at hk
    rw [continued, List.cons_append, List.append_assoc, List.append_assoc]
    refine takes_skipAll_succ (takes_skipStep_later hfront) (by simp) ?_
    exact hv hparts (by omega)

/-- All that is inside a container, and its closing bracket. -/
theorem takes_skipAll_first (h : FrontedParts c parts)
    (hrest : ∀ k, m ≤ k → (skipOn k around).Takes rest () out) (hn : m + 2 * (separated parts).length + 2 ≤ n) :
    (skipAll n .firstItem (c :: around)).Takes (separated parts ++ .mark c.close :: rest) () out := by
  obtain ⟨n, rfl⟩ : ∃ k, n = k + 1 := ⟨n - 1, by omega⟩
  cases parts with
  | nil =>
    exact takes_skipAll_end (takes_skipStep_close (by simp) c) (hrest n (by omega))
  | cons part parts =>
    obtain ⟨front, v, rfl, hfront, hv⟩ := h part List.mem_cons_self
    have hparts := takes_skipAll_continued (fun part hpart => h part (List.mem_cons_of_mem _ hpart)) hrest
    simp only [separated, List.length_append] at hn
    rw [separated, List.append_assoc, List.append_assoc]
    refine takes_skipAll_succ (takes_skipStep_first hfront (v.opening_lexemes.append _)) (by simp) ?_
    exact hv hparts (by omega)

theorem skips_container {v : Value} (hv : v.lexemes = .mark c.opening :: (separated parts ++ [.mark c.close]))
    (h : FrontedParts c parts) : Skips v := by
  intro around rest out m n hrest hn
  simp only [hv, List.length_cons, List.length_append, List.length_nil] at hn
  obtain ⟨n, rfl⟩ : ∃ k, n = k + 1 := ⟨n - 1, by omega⟩
  rw [hv, List.cons_append, List.append_assoc]
  refine takes_skipAll_succ (takes_skipStep_open c) (by simp) ?_
  exact takes_skipAll_first h hrest (by omega)

theorem skips (v : Value) : Skips v := by
  induction v using nested_induction with
  | null | bool | number | text => exact skips_scalar (by rw [lexemes])
  | array items ih =>
    refine skips_container (c := .list) (by rw [lexemes]; rfl) ?_
    intro part hpart
    rw [itemLexemes_eq_map] at hpart
    obtain ⟨v, hmem, rfl⟩ := List.mem_map.1 hpart
    exact ⟨[], v, rfl, .item, ih v hmem⟩
  | object members ih =>
    refine skips_container (c := .object) (by rw [lexemes]; rfl) ?_
    intro part hpart
    rw [memberLexemes_eq_map] at hpart
    obtain ⟨m, hmem, rfl⟩ := List.mem_map.1 hpart
    exact ⟨_, m.2, rfl, .member m.1, ih m hmem⟩

/-- Every value is skipped whole. -/
theorem reads_skip (v : Value) : skip.Reads v.lexemes () := by
  intro rest
  refine (takes_budget _).bind ?_
  refine skips v (m := 0) (fun k _ => takes_pure () rest) ?_
  rw [List.length_append]
  omega

end TaintReplay.Json.Reader
