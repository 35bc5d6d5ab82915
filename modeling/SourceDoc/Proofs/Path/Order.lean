import Mathlib.Data.Char
import Mathlib.Data.List.Lex
import Mathlib.Data.List.Nodup
import Mathlib.Data.List.Perm.Basic
import Mathlib.Data.Prod.Lex
import SourceDoc.Path

namespace SourceDoc

section Lists

variable {α : Type} [LinearOrder α]

theorem nil_le_list (as : List α) : [] ≤ as :=
  not_lt.mp (List.not_lt_nil as)

theorem cons_le_cons_list_iff {a b : α} {as bs : List α} :
    a :: as ≤ b :: bs ↔ a < b ∨ a = b ∧ as ≤ bs := by
  rw [le_iff_lt_or_eq, le_iff_lt_or_eq, List.cons_lt_cons_iff, List.cons.injEq, and_or_left,
    or_assoc]

end Lists

/-- Texts are compared by code points, as the order of the library on lists of characters does. -/
theorem Text.le_iff (s t : Text) : Text.le s t = true ↔ s ≤ t := by
  induction s generalizing t with
  | nil => exact ⟨fun _ => nil_le_list t, fun _ => rfl⟩
  | cons c cs ih =>
    cases t with
    | nil => simp [Text.le, le_iff_lt_or_eq]
    | cons d ds => simp [Text.le, ih, cons_le_cons_list_iff]

namespace Path

/-- Place of a component in the order: the root, the current and the parent directory, then
    names. -/
def Component.rank : Component → ℕ ×ₗ Text
  | .root => toLex (0, [])
  | .current => toLex (1, [])
  | .parent => toLex (2, [])
  | .normal name => toLex (3, name)

/-- A component is known from its place in the order. -/
theorem Component.rank_injective : Function.Injective rank := by
  intro a b h
  cases a <;> cases b <;> simp_all [rank]

theorem Component.le_iff (a b : Component) : a.le b = true ↔ a.rank ≤ b.rank := by
  cases a <;> cases b <;> simp [le, rank, Prod.Lex.toLex_le_toLex, Text.le_iff]

/-- The ranks of the components of a path. Paths are in the lexicographic order of these. -/
def ranks (p : Path) : List (ℕ ×ₗ Text) :=
  p.components.map Component.rank

/-- Lists of components are compared as lists of places. -/
theorem componentsLe_iff (as bs : List Component) :
    componentsLe as bs = true ↔ as.map Component.rank ≤ bs.map Component.rank := by
  induction as generalizing bs with
  | nil => exact ⟨fun _ => nil_le_list _, fun _ => rfl⟩
  | cons a as ih =>
    cases bs with
    | nil => simp [componentsLe, le_iff_lt_or_eq]
    | cons b bs =>
      rw [componentsLe, List.map_cons, List.map_cons, cons_le_cons_list_iff]
      by_cases hab : a = b
      · subst hab
        simp [ih]
      · have hrank : a.rank ≠ b.rank := Component.rank_injective.ne hab
        simp [hab, hrank, Component.le_iff, le_iff_lt_or_eq]

theorem le_iff (p q : Path) : p.le q = true ↔ p.ranks ≤ q.ranks :=
  componentsLe_iff p.components q.components

/-- Paths with the same components have the same places, and are not told apart by the order. -/
theorem same_iff (p q : Path) : p.same q = true ↔ p.ranks = q.ranks := by
  rw [same, beq_iff_eq, ranks, ranks, (Component.rank_injective.list_map).eq_iff]

section Neighbours

variable {p : Path} {ps : List Path}

/-- Paths are left out and none is moved. -/
theorem dedupNeighbours_sublist (ps : List Path) : (dedupNeighbours ps).Sublist ps := by
  induction ps using dedupNeighbours.induct with
  | case1 => rw [dedupNeighbours]
  | case2 p => rw [dedupNeighbours]
  | case3 p q rest hsame ih =>
    rw [dedupNeighbours, if_pos hsame]
    exact ih.trans ((List.sublist_cons_self q rest).cons_cons p)
  | case4 p q rest hsame ih =>
    rw [dedupNeighbours, if_neg hsame]
    exact ih.cons_cons p

/-- A path that is left out has the same components as one that is kept. -/
theorem exists_same_mem_dedupNeighbours (hp : p ∈ ps) :
    ∃ q ∈ dedupNeighbours ps, q.same p = true := by
  induction ps using dedupNeighbours.induct generalizing p with
  | case1 => cases hp
  | case2 first =>
    rw [dedupNeighbours]
    exact ⟨p, hp, (same_iff p p).mpr rfl⟩
  | case3 first second rest hsame ih =>
    rw [dedupNeighbours, if_pos hsame]
    rcases List.mem_cons.mp hp with rfl | hp
    · exact ih List.mem_cons_self
    · rcases List.mem_cons.mp hp with rfl | hp
      · obtain ⟨q, hq, hfirst⟩ := ih List.mem_cons_self
        exact ⟨q, hq, (same_iff q p).mpr
          (((same_iff q first).mp hfirst).trans ((same_iff first p).mp hsame))⟩
      · exact ih (List.mem_cons_of_mem first hp)
  | case4 first second rest hsame ih =>
    rw [dedupNeighbours, if_neg hsame]
    rcases List.mem_cons.mp hp with rfl | hp
    · exact ⟨p, List.mem_cons_self, (same_iff p p).mpr rfl⟩
    · obtain ⟨q, hq, hqp⟩ := ih hp
      exact ⟨q, List.mem_cons_of_mem first hq, hqp⟩

/-- Where paths are in order, those with the same components are neighbours, so that each place is
    kept once. -/
theorem pairwise_dedupNeighbours (h : ps.Pairwise fun p q => p.ranks ≤ q.ranks) :
    (dedupNeighbours ps).Pairwise fun p q => p.ranks < q.ranks := by
  induction ps using dedupNeighbours.induct with
  | case1 =>
    rw [dedupNeighbours]
    exact .nil
  | case2 p =>
    rw [dedupNeighbours]
    exact List.pairwise_singleton _ p
  | case3 p q rest hsame ih =>
    rw [dedupNeighbours, if_pos hsame]
    exact ih (h.sublist ((List.sublist_cons_self q rest).cons_cons p))
  | case4 p q rest hsame ih =>
    rw [dedupNeighbours, if_neg hsame]
    obtain ⟨hfirst, htail⟩ := List.pairwise_cons.mp h
    have hnext : p.ranks < q.ranks :=
      (hfirst q List.mem_cons_self).lt_of_ne fun heq => hsame ((same_iff p q).mpr heq)
    refine List.pairwise_cons.mpr ⟨?_, ih htail⟩
    intro r hr
    rcases List.mem_cons.mp ((dedupNeighbours_sublist (q :: rest)).mem hr) with rfl | hrest
    · exact hnext
    · exact hnext.trans_le ((List.pairwise_cons.mp htail).1 r hrest)

theorem dedupNeighbours_eq_self (h : ps.Pairwise fun p q => p.ranks < q.ranks) :
    dedupNeighbours ps = ps := by
  induction ps using dedupNeighbours.induct with
  | case1 => rw [dedupNeighbours]
  | case2 p => rw [dedupNeighbours]
  | case3 p q rest hsame ih =>
    have hlt := (List.pairwise_cons.mp h).1 q List.mem_cons_self
    exact absurd ((same_iff p q).mp hsame) hlt.ne
  | case4 p q rest hsame ih =>
    rw [dedupNeighbours, if_neg hsame, ih (List.pairwise_cons.mp h).2]

end Neighbours

section Sorted

variable {p : Path} {ps qs : List Path}

/-- The library's sort puts paths in order, because the order is total and transitive. -/
theorem pairwise_mergeSort_le (ps : List Path) :
    (ps.mergeSort le).Pairwise fun p q => p.ranks ≤ q.ranks := by
  have htrans (p q r : Path) (hpq : p.le q = true) (hqr : q.le r = true) : p.le r = true :=
    (le_iff p r).mpr (((le_iff p q).mp hpq).trans ((le_iff q r).mp hqr))
  have htotal (p q : Path) : (p.le q || q.le p) = true := by
    rw [Bool.or_eq_true, le_iff, le_iff]
    exact le_total _ _
  exact (List.pairwise_mergeSort htrans htotal ps).imp (le_iff _ _).mp

/-- Sorted paths increase strictly. -/
theorem pairwise_sorted (ps : List Path) : (sorted ps).Pairwise fun p q => p.ranks < q.ranks :=
  pairwise_dedupNeighbours (pairwise_mergeSort_le ps)

/-- Paths that lead to different places are rearranged, and none is left out. -/
theorem sorted_eq_of_perm (hperm : ps.Perm qs)
    (hqs : qs.Pairwise fun p q => p.ranks < q.ranks) : sorted ps = qs := by
  have hsort : (ps.mergeSort le).Perm qs := (List.mergeSort_perm ps le).trans hperm
  have hinjective : ∀ p ∈ qs, ∀ q ∈ qs, p.ranks = q.ranks → p = q :=
    List.inj_on_of_nodup_map ((List.pairwise_map.mpr hqs).imp ne_of_lt)
  have hmerged : ps.mergeSort le = qs := by
    refine hsort.eq_of_pairwise ?_ (pairwise_mergeSort_le ps) (hqs.imp le_of_lt)
    intro p q hp hq hpq hqp
    exact hinjective p (hsort.mem_iff.mp hp) q hq (hpq.antisymm hqp)
  rw [sorted, hmerged, dedupNeighbours_eq_self hqs]

theorem mem_of_mem_sorted (hp : p ∈ sorted ps) : p ∈ ps :=
  List.mem_mergeSort.mp ((dedupNeighbours_sublist _).mem hp)

/-- No place is lost, but it may be spelled as another of the paths. -/
theorem exists_same_mem_sorted (hp : p ∈ ps) : ∃ q ∈ sorted ps, q.same p = true :=
  exists_same_mem_dedupNeighbours (List.mem_mergeSort.mpr hp)

/-- Sorting keeps the places. -/
theorem mem_ranks_sorted {r : List (ℕ ×ₗ Text)} :
    r ∈ (sorted ps).map ranks ↔ r ∈ ps.map ranks := by
  rw [List.mem_map, List.mem_map]
  constructor
  · rintro ⟨p, hp, rfl⟩
    exact ⟨p, mem_of_mem_sorted hp, rfl⟩
  · rintro ⟨p, hp, rfl⟩
    obtain ⟨q, hq, hsame⟩ := exists_same_mem_sorted hp
    exact ⟨q, hq, (same_iff q p).mp hsame⟩

/-- Lists with the same places are equal when sorted, but for the spelling of the paths. -/
theorem forall₂_same_sorted (h : ∀ r, r ∈ ps.map ranks ↔ r ∈ qs.map ranks) :
    List.Forall₂ (fun p q => p.same q = true) (sorted ps) (sorted qs) := by
  have hps : ((sorted ps).map ranks).Pairwise (· < ·) := List.pairwise_map.mpr (pairwise_sorted ps)
  have hqs : ((sorted qs).map ranks).Pairwise (· < ·) := List.pairwise_map.mpr (pairwise_sorted qs)
  have hperm : ((sorted ps).map ranks).Perm ((sorted qs).map ranks) := by
    rw [List.perm_ext_iff_of_nodup (hps.imp ne_of_lt) (hqs.imp ne_of_lt)]
    intro r
    rw [mem_ranks_sorted, mem_ranks_sorted, h]
  have hranks : (sorted ps).map ranks = (sorted qs).map ranks :=
    hperm.eq_of_pairwise (fun _ _ _ _ hlt hgt => absurd hgt hlt.asymm) hps hqs
  have hequal : List.Forall₂ (· = ·) ((sorted ps).map ranks) ((sorted qs).map ranks) := by
    rw [hranks]
    exact List.forall₂_same.mpr fun _ _ => rfl
  rw [List.forall₂_map_left_iff, List.forall₂_map_right_iff] at hequal
  exact hequal.imp fun p q => (same_iff p q).mpr

end Sorted

end Path

end SourceDoc
