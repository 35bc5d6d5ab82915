import Mathlib.Data.List.Perm.Basic
import SourceDoc.Item.Build

namespace SourceDoc

namespace Param

/-- A parameter of which nothing but its name is known. -/
def bare (name : Text) : Param :=
  ⟨name, none, []⟩

/-- The documentation of a name of the given rank: as many of the same name come before it. So the
    second declaration of a name takes the second documentation of it, whatever stands in
    between. -/
def documentation (ps : List Param) (name : Text) (rank : Nat) : Param :=
  (ps.filter (·.name = name))[rank]?.getD (bare name)

section Unmatched

variable {α : Type} (name : α → Text) (names : List Text)

/-- The elements of a list that are left over when each of the given names takes one element of its
    name: those with at least as many elements of their name before them as the name is given. -/
def unmatched (xs : List α) : List α :=
  (xs.zipIdx.filter fun (x, i) =>
    names.count (name x) ≤ ((xs.take i).map name).count (name x)).map (·.1)

/-- An element that stands first is left over if its name is not given, and takes the name away from
    those behind it otherwise. -/
theorem unmatched_cons (x : α) (xs : List α) :
    unmatched name names (x :: xs) =
      if name x ∈ names then unmatched name (names.erase (name x)) xs
      else x :: unmatched name names xs := by
  have hlater (y : α) (i : Nat) :
      names.count (name y) ≤ (((x :: xs).take (i + 1)).map name).count (name y) ↔
        (names.erase (name x)).count (name y) ≤ ((xs.take i).map name).count (name y) := by
    rw [List.take_succ_cons, List.map_cons, List.count_cons, List.count_erase]
    split <;> omega
  have hrest : (((xs.zipIdx.map (Prod.map id (· + 1))).filter fun (y, i) =>
      names.count (name y) ≤ (((x :: xs).take i).map name).count (name y)).map (·.1)) =
      unmatched name (names.erase (name x)) xs := by
    rw [List.filter_map, List.map_map, unmatched]
    congr 1
    exact List.filter_congr fun (y, i) _ => decide_eq_decide.mpr (hlater y i)
  rw [unmatched, List.zipIdx_cons']
  split
  · rename_i hmem
    have hpositive := List.count_pos_iff.mpr hmem
    rw [List.filter_cons_of_neg (by simpa using Nat.ne_of_gt hpositive), hrest]
  · rename_i hmem
    rw [List.filter_cons_of_pos (by simp [List.count_eq_zero.mpr hmem]), List.map_cons, hrest,
      List.erase_of_not_mem hmem]

end Unmatched

variable (names : List Text) (ps : List Param)

theorem length_declared : (declared names ps).length = names.length := by
  induction names generalizing ps with
  | nil => rfl
  | cons name names ih => rw [declared, List.length_cons, List.length_cons, ih]

theorem take_ordered : (ordered names ps).take names.length = declared names ps := by
  rw [ordered, List.take_left' (length_declared names ps)]

/-- The documented parameters without a match follow the declared ones. -/
theorem drop_ordered : (ordered names ps).drop names.length = undeclared names ps := by
  rw [ordered, List.drop_left' (length_declared names ps)]

/-- The first documentation of a name has that name, and so has the bare parameter without one. -/
theorem name_getD_find? (name : Text) :
    ((ps.find? (·.name = name)).getD (bare name)).name = name := by
  cases hfound : ps.find? (·.name = name) with
  | none => rfl
  | some p => simpa using List.find?_some hfound

/-- The declared parameters have the declared names, in their order. -/
theorem map_name_declared : (declared names ps).map (·.name) = names := by
  induction names generalizing ps with
  | nil => rfl
  | cons name names ih => rw [declared, List.map_cons, ih, ← bare, name_getD_find?]

/-- Taking the first documentation of a name leaves those of other names, and the later ones. -/
theorem filter_eraseP_name (taken name : Text) :
    (ps.eraseP (·.name = taken)).filter (·.name = name) =
      if taken = name then (ps.filter (·.name = name)).tail else ps.filter (·.name = name) := by
  induction ps with
  | nil => simp
  | cons p ps ih =>
    rw [List.eraseP_cons]
    by_cases hp : p.name = taken
    · subst hp
      by_cases hname : p.name = name <;> simp [hname]
    · by_cases hname : p.name = name
      · subst hname
        simp [hp, Ne.symm hp, ih]
      · simp [hp, hname, ih]

/-- The declaration of a name takes the documentation of the same rank. -/
theorem getElem?_declared (i : Nat) :
    (declared names ps)[i]? = names[i]?.map fun name =>
      documentation ps name ((names.take i).count name) := by
  induction names generalizing ps i with
  | nil => rfl
  | cons taken names ih =>
    cases i with
    | zero => simp [declared, documentation, bare, ← List.head?_eq_getElem?, List.head?_filter]
    | succ i =>
      rw [declared, List.getElem?_cons_succ, List.getElem?_cons_succ, ih]
      congr 1
      funext name
      rw [documentation, documentation, filter_eraseP_name, List.take_succ_cons, List.count_cons]
      by_cases htaken : taken = name
      · simp [htaken]
      · simp [htaken]

/-- A parameter that is documented first is taken by the first declaration of its name. -/
theorem undeclared_cons (p : Param) :
    undeclared names (p :: ps) =
      if p.name ∈ names then undeclared (names.erase p.name) ps else p :: undeclared names ps := by
  induction names generalizing ps with
  | nil => rfl
  | cons name names ih =>
    by_cases hp : p.name = name
    · subst hp
      simp [undeclared]
    · have hname : ¬name = p.name := Ne.symm hp
      rw [undeclared, List.eraseP_cons_of_neg (by simpa using hp), ih]
      simp [undeclared, hp, hname]

/-- What the removal of matches leaves over is what has no match by rank. -/
theorem undeclared_eq_unmatched : undeclared names ps = unmatched (·.name) names ps := by
  induction ps generalizing names with
  | nil =>
    induction names with
    | nil => rfl
    | cons name names ih => exact ih
  | cons p ps ih => rw [undeclared_cons, unmatched_cons, ih, ih]

theorem map_name_eraseP (name : Text) :
    (ps.eraseP (·.name = name)).map (·.name) = (ps.map (·.name)).erase name := by
  rw [List.erase_eq_eraseP, List.eraseP_map]
  congr 2
  funext p
  rw [Bool.eq_iff_iff, Function.comp_apply, decide_eq_true_iff, beq_iff_eq]
  exact eq_comm

/-- The documentation that a declaration takes was there once. -/
theorem perm_cons_eraseP {name : Text} (h : name ∈ ps.map (·.name)) :
    ps.Perm ((ps.find? (·.name = name)).getD (bare name) :: ps.eraseP (·.name = name)) := by
  induction ps with
  | nil => cases h
  | cons p ps ih =>
    by_cases hp : p.name = name
    · simp [hp]
    · have hrest : name ∈ ps.map (·.name) := by simpa [Ne.symm hp] using h
      rw [List.find?_cons_of_neg (by simpa using hp), List.eraseP_cons_of_neg (by simpa using hp)]
      exact ((ih hrest).cons p).trans (.swap ..)

/-- Nothing is lost or doubled: to the documented parameters come only bare ones, for the declared
    names without documentation. -/
theorem ordered_perm :
    (ordered names ps).Perm (ps ++ (unmatched id (ps.map (·.name)) names).map bare) := by
  induction names generalizing ps with
  | nil => simp [ordered, declared, undeclared, unmatched]
  | cons name names ih =>
    have hrest := ih (ps.eraseP (·.name = name))
    rw [map_name_eraseP] at hrest
    rw [unmatched_cons, id]
    by_cases hmem : name ∈ ps.map (·.name)
    · rw [if_pos hmem]
      exact (hrest.cons _).trans ((perm_cons_eraseP ps hmem).symm.append_right _)
    · have habsent : ∀ p ∈ ps, ¬p.name = name := by simpa using hmem
      have hfind : ps.find? (·.name = name) = none := by simpa [List.find?_eq_none] using habsent
      have herase : ps.eraseP (·.name = name) = ps :=
        List.eraseP_of_forall_not (by simpa using habsent)
      rw [List.erase_of_not_mem hmem, herase] at hrest
      rw [if_neg hmem, List.map_cons, ordered, declared, undeclared, hfind, herase]
      exact (hrest.cons (bare name)).trans List.perm_middle.symm

/-- What the parameters of a function are, given its declared names and the documented ones. -/
structure Arranged (result : List Param) : Prop where
  /-- The declared names come first, in their order. -/
  names_eq : (result.take names.length).map (·.name) = names
  /-- Each declaration of a name has the documentation of its rank, if there is one. -/
  documented : result.take names.length =
    names.zipIdx.map fun (name, i) => documentation ps name ((names.take i).count name)
  /-- The documented parameters that no declaration takes follow, in their order. -/
  leftOver : result.drop names.length = unmatched (·.name) names ps
  /-- Each documented parameter is there once, and otherwise only bare ones are. -/
  perm : result.Perm (ps ++ (unmatched id (ps.map (·.name)) names).map bare)

/-- The loop that takes out one documentation for each declared name arranges the parameters by
    rank. -/
theorem arranged_ordered : Arranged names ps (ordered names ps) where
  names_eq := by rw [take_ordered, map_name_declared]
  documented := by
    rw [take_ordered]
    refine List.ext_getElem? fun i => ?_
    rw [getElem?_declared, List.getElem?_map, List.getElem?_zipIdx, Option.map_map]
    simp [Function.comp_def]
  leftOver := by rw [drop_ordered, undeclared_eq_unmatched]
  perm := ordered_perm names ps

end Param

namespace Item

/-- The parameters of a function are the declared names in their order, each with the first
    documentation of its name that no declaration before it has taken, and then the documented ones
    that none has taken. Each of these is reported, in their order. -/
theorem params_arranged (names : List Text) (ps : List Param) :
    Param.Arranged names ps (Param.ordered names ps) ∧
    ∀ doc decl file line item, declaredParams? decl = some names →
      Param.ofTags (otherTags doc) "param" "tparam" = ps →
      build? doc decl file line = some item →
      item.params = Param.ordered names ps ∧
        buildEvents doc decl file line =
          (Param.unmatched (·.name) names ps).map fun param =>
            .undeclaredParam file line item.name param.name := by
  refine ⟨Param.arranged_ordered names ps, ?_⟩
  intro doc decl file line item hnames hps hitem
  obtain ⟨kind, kindInferred, name, nameInferred, hkind, hname, rfl⟩ := eq_of_build? hitem
  refine ⟨?_, ?_⟩
  · simp only [paramsOf, hnames, hps]
  · rw [← Param.undeclared_eq_unmatched]
    simp only [buildEvents, hkind, hname, hnames, hps]

/-- A doc text with a name documented twice, one documented too often and one not declared. -/
def repeatedText : Text :=
  Text.join "\n" ["@param _ first", "@param x gone", "@param _ second", "@param b size",
    "@param b again"]

/-- The parameters that `repeatedText` documents. -/
def repeatedParams : List Param :=
  [⟨"_", none, "first"⟩, ⟨"x", none, "gone"⟩, ⟨"_", none, "second"⟩, ⟨"b", none, "size"⟩,
    ⟨"b", none, "again"⟩]

/-- A function with three parameters of one name. -/
def repeatedDeclaration : Declaration :=
  ⟨"draw", .function ["_", "b", "_", "_", "c"], false⟩

theorem params_arranged_repeated :
    ∃ item, build? (.read .standard repeatedText) (some repeatedDeclaration) ⟨"m.lua"⟩ 3 =
        some item ∧
      item.params = [⟨"_", none, "first"⟩, ⟨"b", none, "size"⟩, ⟨"_", none, "second"⟩, .bare "_",
        .bare "c", ⟨"x", none, "gone"⟩, ⟨"b", none, "again"⟩] ∧
      buildEvents (.read .standard repeatedText) (some repeatedDeclaration) ⟨"m.lua"⟩ 3 =
        [.undeclaredParam ⟨"m.lua"⟩ 3 "draw" "x", .undeclaredParam ⟨"m.lua"⟩ 3 "draw" "b"] := by
  have hname : (build? (.read .standard repeatedText) (some repeatedDeclaration) ⟨"m.lua"⟩ 3).map
      (·.name) = some "draw" := by decide +kernel
  obtain ⟨item, hitem, hitemName⟩ := Option.map_eq_some_iff.mp hname
  obtain ⟨-, hbuilt⟩ := params_arranged ["_", "b", "_", "_", "c"] repeatedParams
  obtain ⟨hparams, hevents⟩ := hbuilt _ _ _ _ item rfl (by decide +kernel) hitem
  refine ⟨item, hitem, hparams.trans (by decide +kernel), hevents.trans ?_⟩
  rw [hitemName]
  decide +kernel

end Item

end SourceDoc
