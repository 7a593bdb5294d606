import TaintReplay.Debugger.Recorder

/-!
# How far a new name reaches

The function at an address is the first one that contains it, but a new name is kept under the function's start. So a
new name reaches every address whose function has the same start, and no other (`functionName_renameFunction`). That is
the renamed function alone iff no other function that has its start is found there.
-/

namespace TaintReplay

namespace Image

variable (image : Image)

/-- The start of the function that contains an address. -/
def startAt? (address : UInt64) : Option UInt64 := (image.functionAt address).map (·.start)

/-- The place among the functions of the one that contains an address. -/
def placeAt? (address : UInt64) : Option Nat := image.functions.findIdx? (·.contains address)

/-- A function is found at its place, and no function in front of it contains the address. -/
theorem placeAt?_eq_some_iff {address : UInt64} {n : Nat} : image.placeAt? address = some n ↔
    ∃ f, image.functions[n]? = some f ∧ f.contains address = true ∧
      ∀ m < n, ∀ g, image.functions[m]? = some g → g.contains address = false := by
  unfold placeAt?
  rw [List.findIdx?_eq_some_iff_getElem]
  constructor
  · rintro ⟨hn, hcontains, hbefore⟩
    refine ⟨_, List.getElem?_eq_getElem hn, hcontains, ?_⟩
    intro m hm g hg
    obtain ⟨hlt, rfl⟩ := List.getElem?_eq_some_iff.1 hg
    simpa using hbefore m hm
  · rintro ⟨f, hf, hcontains, hbefore⟩
    obtain ⟨hn, rfl⟩ := List.getElem?_eq_some_iff.1 hf
    refine ⟨hn, hcontains, ?_⟩
    intro m hm
    simpa using hbefore m hm _ (List.getElem?_eq_getElem _)

theorem functionAt_eq_bind (address : UInt64) :
    image.functionAt address = (image.placeAt? address).bind fun n => image.functions[n]? := by
  unfold functionAt placeAt?
  induction image.functions with
  | nil => rfl
  | cons f functions ih =>
    cases hf : f.contains address with
    | true => simp [List.findIdx?_cons, hf]
    | false => simp [List.findIdx?_cons, hf, ih, Option.bind_map, Function.comp_def]

theorem functionAt_eq_none_iff (address : UInt64) :
    image.functionAt address = none ↔ image.placeAt? address = none := by
  simp [functionAt, placeAt?, List.findIdx?_eq_none_iff]

variable {image}

theorem getElem?_of_placeAt? {address : UInt64} {n : Nat} (h : image.placeAt? address = some n) :
    image.functions[n]? = image.functionAt address := by
  rw [functionAt_eq_bind, h]
  rfl

/-- Of equal functions only the first is ever found. -/
theorem placeAt?_le {a b : UInt64} {m n : Nat} (ha : image.placeAt? a = some m) (hb : image.placeAt? b = some n)
    (h : image.functionAt b = image.functionAt a) : n ≤ m := by
  obtain ⟨f, hf, -, -⟩ := (image.placeAt?_eq_some_iff).1 ha
  obtain ⟨g, hg, hcontains, hbefore⟩ := (image.placeAt?_eq_some_iff).1 hb
  have hsame : g = f := by
    rw [getElem?_of_placeAt? ha] at hf
    rw [getElem?_of_placeAt? hb, h, hf] at hg
    exact (Option.some.inj hg).symm
  rcases Nat.lt_or_ge m n with hlt | hge
  · have hmissed := hbefore m hlt f hf
    rw [hsame, hmissed] at hcontains
    cases hcontains
  · exact hge

/-- The same function is found at two addresses iff it is found at one place. -/
theorem placeAt?_eq_iff (a b : UInt64) :
    image.placeAt? b = image.placeAt? a ↔ image.functionAt b = image.functionAt a := by
  constructor
  · intro h
    rw [functionAt_eq_bind, functionAt_eq_bind, h]
  · intro h
    cases ha : image.placeAt? a with
    | none =>
      have hnone := (image.functionAt_eq_none_iff a).2 ha
      rw [← h] at hnone
      exact (image.functionAt_eq_none_iff b).1 hnone
    | some m =>
      cases hb : image.placeAt? b with
      | none =>
        have hnone := (image.functionAt_eq_none_iff b).2 hb
        rw [h, functionAt_eq_none_iff, ha] at hnone
        cases hnone
      | some n =>
        have hle := placeAt?_le ha hb h
        have hge := placeAt?_le hb ha h.symm
        rw [Nat.le_antisymm hle hge]

theorem startAt?_eq_of_placeAt?_eq {a b : UInt64} (h : image.placeAt? b = image.placeAt? a) :
    image.startAt? b = image.startAt? a := by
  rw [startAt?, startAt?, (placeAt?_eq_iff a b).1 h]

end Image

namespace Recorder

variable (r : Recorder)

theorem renameFunction_of_none {address : UInt64} (h : r.image.functionAt address = none) (name : String) :
    r.renameFunction address name = (r, false) := by
  simp [renameFunction, h]

theorem renameFunction_of_some {address : UInt64} {f : FunctionRange} (h : r.image.functionAt address = some f)
    (name : String) :
    r.renameFunction address name = ({ r with renames := r.renames.insert f.start name }, true) := by
  simp [renameFunction, h]

/-- A new name is found at the addresses whose function has the start of the renamed one. -/
theorem functionName_rename (a b : UInt64) (name : String) : (r.renameFunction a name).1.functionName b =
    if r.image.startAt? b = r.image.startAt? a then (r.image.functionAt b).map fun _ => name
    else r.functionName b := by
  cases ha : r.image.functionAt a with
  | none =>
    rw [renameFunction_of_none r ha]
    cases hb : r.image.functionAt b with
    | none => simp [Image.startAt?, functionName, ha, hb]
    | some g => simp [Image.startAt?, ha, hb]
  | some f =>
    rw [renameFunction_of_some r ha]
    cases hb : r.image.functionAt b with
    | none => simp [Image.startAt?, functionName, ha, hb]
    | some g =>
      have hget : (r.renames.insert f.start name).getD g.start g.name =
          if compare f.start g.start = .eq then name else r.renames.getD g.start g.name := Std.TreeMap.getD_insert
      simp only [Image.startAt?, functionName, ha, hb, Option.map_some, hget, Std.compare_eq_iff_eq,
        Option.some.injEq]
      by_cases hstart : g.start = f.start
      · simp [hstart]
      · simp [hstart, Ne.symm hstart]

/-- How far a new name reaches. It is found at the addresses whose function has the start of the renamed one, and at
all others the name is what it was. Nothing but the names changes. The answer is `false` iff no function contains the
address, and then nothing changes at all. So at an address the new name is that of the renamed function alone iff no
other function that has its start is found there. -/
theorem functionName_renameFunction (a b : UInt64) :
    (∀ name, (r.renameFunction a name).1.functionName b =
      if r.image.startAt? b = r.image.startAt? a then (r.image.functionAt b).map fun _ => name
      else r.functionName b) ∧
    (∀ name, (r.renameFunction a name).1 = { r with renames := (r.renameFunction a name).1.renames }) ∧
    (∀ name, ((r.renameFunction a name).2 = false ↔ r.image.functionAt a = none) ∧
      (r.image.functionAt a = none → (r.renameFunction a name).1 = r)) ∧
    ((∀ name, (r.renameFunction a name).1.functionName b =
      if r.image.placeAt? b = r.image.placeAt? a then (r.image.functionAt b).map fun _ => name
      else r.functionName b) ↔
        (r.image.startAt? b = r.image.startAt? a → r.image.placeAt? b = r.image.placeAt? a)) := by
  refine ⟨r.functionName_rename a b, ?_, ?_, ?_⟩
  · intro name
    cases ha : r.image.functionAt a with
    | none => rw [renameFunction_of_none r ha]
    | some f => rw [renameFunction_of_some r ha]
  · intro name
    cases ha : r.image.functionAt a with
    | none => simp [renameFunction_of_none r ha]
    | some f => simp [renameFunction_of_some r ha]
  · constructor
    · intro h hstart
      refine Decidable.byContradiction fun hplace => ?_
      -- any name that is not there already is found at a place that should not have it
      have hnew (name : String) : (r.image.functionAt b).map (fun _ => name) = r.functionName b := by
        have hfound := h name
        rw [functionName_rename, if_pos hstart, if_neg hplace] at hfound
        exact hfound
      have hsome : r.image.functionAt b ≠ none := by
        intro hb
        refine hplace ((Image.placeAt?_eq_iff a b).2 ?_)
        have hnone : r.image.startAt? a = none := by rw [← hstart, Image.startAt?, hb]; rfl
        rw [hb, Option.map_eq_none_iff.1 hnone]
      obtain ⟨g, hg⟩ := Option.ne_none_iff_exists'.1 hsome
      have hboth := (hnew "a").trans (hnew "b").symm
      simp [hg] at hboth
    · intro h name
      rw [functionName_rename]
      by_cases hstart : r.image.startAt? b = r.image.startAt? a
      · rw [if_pos hstart, if_pos (h hstart)]
      · rw [if_neg hstart, if_neg (fun hplace => hstart (Image.startAt?_eq_of_placeAt?_eq hplace))]

/-- A function inside another one, with the same start, gives its new name to the addresses behind its end. -/
theorem exists_neighbour_renamed :
    let inner : FunctionRange := ⟨0x1000, 0x1010, "inner"⟩
    let outer : FunctionRange := ⟨0x1000, 0x1020, "outer"⟩
    let r : Recorder := { image := { functions := [inner, outer] } }
    r.image.functionAt 0x1000 = some inner ∧ r.image.functionAt 0x1015 = some outer ∧
      r.functionName 0x1015 = some "outer" ∧
      (r.renameFunction 0x1000 "renamed").1.functionName 0x1015 = some "renamed" := by
  decide +kernel

end Recorder

end TaintReplay
