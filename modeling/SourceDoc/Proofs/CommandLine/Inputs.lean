import Mathlib.Data.List.Pairwise
import SourceDoc.CommandLine.Inputs
import SourceDoc.Proofs.Except
import SourceDoc.Proofs.Path.Components
import SourceDoc.Proofs.Path.Order

namespace SourceDoc.Inputs

/-- The paths that an input contributes; none if it can not be expanded. Each input contributes by
    itself, whatever search finds the files that match a pattern. -/
def contribution (find : Glob.Finder) (fs : FileSystem) (w : Workspace) (input : Text) : List Path :=
  (expandOne find fs w input).toOption.getD []

variable {find : Glob.Finder} {fs : FileSystem} {w : Workspace} {inputs : List Text}
  {ps : List Path}

theorem expandOne_eq_ok_iff (input : Text) (paths : List Path) :
    expandOne find fs w input = .ok paths ↔
      (∃ found, expandOne find fs w input = .ok found) ∧ paths = contribution find fs w input := by
  rw [contribution]
  cases expandOne find fs w input with
  | error report => simp
  | ok found => simp [Except.toOption, eq_comm]

/-- Inputs can be expanded if each of them can, and then the files are all that they contribute. -/
theorem expand_eq_ok_iff :
    expand find fs w inputs = .ok ps ↔
      (∀ input ∈ inputs, ∃ paths, expandOne find fs w input = .ok paths) ∧
        ps = Path.sorted (inputs.flatMap (contribution find fs w)) := by
  rw [expand, bind_eq_ok_iff]
  constructor
  · rintro ⟨found, hfound, h⟩
    cases h
    obtain ⟨hall, rfl⟩ := (mapM_eq_ok_iff expandOne_eq_ok_iff).mp hfound
    exact ⟨hall, by rw [List.flatMap_def]⟩
  · rintro ⟨hall, rfl⟩
    refine ⟨_, (mapM_eq_ok_iff expandOne_eq_ok_iff).mpr ⟨hall, rfl⟩, ?_⟩
    rw [List.flatMap_def]
    rfl

/-- A place is contributed if some input contributes it. -/
theorem mem_ranks_contributions {r : List (ℕ ×ₗ Text)} :
    r ∈ (inputs.flatMap (contribution find fs w)).map Path.ranks ↔
      ∃ input ∈ inputs, r ∈ (contribution find fs w input).map Path.ranks := by
  rw [List.map_flatMap, List.mem_flatMap]

/-- Two files with documentation, one of them in a directory. -/
def sampleFiles : FileSystem where
  root := .dir [("util.lua", .file .empty), ("lib", .dir [("a.c", .file .empty)])]

theorem expand_sampleFiles :
    expand (Glob.finder sampleFiles) sampleFiles {} ["*.lua", "lib", "./util.lua"] =
      .ok [⟨"./util.lua"⟩, ⟨"lib/a.c"⟩, ⟨"util.lua"⟩] := by
  have hfound : ["*.lua".toList, "lib".toList, "./util.lua".toList].mapM
      (expandOne (Glob.finder sampleFiles) sampleFiles {}) =
        .ok [[⟨"util.lua"⟩], [⟨"lib/a.c"⟩], [⟨"./util.lua"⟩]] := by
    decide +kernel
  have hsorted : Path.sorted [⟨"util.lua"⟩, ⟨"lib/a.c"⟩, ⟨"./util.lua"⟩] =
      [⟨"./util.lua"⟩, ⟨"lib/a.c"⟩, ⟨"util.lua"⟩] :=
    Path.sorted_eq_of_perm (List.reverse_perm _).symm (by decide +kernel)
  rw [expand, hfound]
  exact congrArg Except.ok hsorted

/-- The files are in strict order, the components of paths compared one after the other. They are
    files that single inputs contribute, and each of these is among them, maybe in another spelling.
    Inputs that are the same but for order and repetition stand for the same files. -/
theorem expand_canonical (h : expand find fs w inputs = .ok ps) :
    (ps.Pairwise fun p q => p.ranks < q.ranks) ∧
    (∀ p ∈ ps, ∃ input ∈ inputs, p ∈ contribution find fs w input) ∧
    (∀ input ∈ inputs, ∀ p ∈ contribution find fs w input, ∃ q ∈ ps, q.same p = true) ∧
    ∀ others, (∀ input, input ∈ others ↔ input ∈ inputs) →
      ∃ qs, expand find fs w others = .ok qs ∧
        List.Forall₂ (fun p q => p.same q = true) ps qs := by
  obtain ⟨hall, rfl⟩ := expand_eq_ok_iff.mp h
  refine ⟨Path.pairwise_sorted _, ?_, ?_, ?_⟩
  · intro p hp
    exact List.mem_flatMap.mp (Path.mem_of_mem_sorted hp)
  · intro input hinput p hp
    exact Path.exists_same_mem_sorted (List.mem_flatMap.mpr ⟨input, hinput, hp⟩)
  · intro others hothers
    refine ⟨_, expand_eq_ok_iff.mpr ⟨fun input hinput => hall input ((hothers input).mp hinput), rfl⟩,
      Path.forall₂_same_sorted ?_⟩
    intro r
    simp only [mem_ranks_contributions, hothers]

theorem expand_canonical_overlapping :
    let ps : List Path := [⟨"./util.lua"⟩, ⟨"lib/a.c"⟩, ⟨"util.lua"⟩]
    (ps.Pairwise fun p q => p.ranks < q.ranks) ∧
      ∃ qs, expand (Glob.finder sampleFiles) sampleFiles {}
          ["lib", "./util.lua", "lib", "*.lua", "*.lua"] = .ok qs ∧
        List.Forall₂ (fun p q => p.same q = true) ps qs := by
  obtain ⟨hsorted, -, -, hothers⟩ := expand_canonical expand_sampleFiles
  refine ⟨hsorted, hothers _ ?_⟩
  intro input
  grind

/-- Of the files that are alike without the current directory, one is the other with a leading dot;
    there are such files exactly if inputs contribute a path with a leading dot and without. -/
theorem expand_unlike_iff (h : expand find fs w inputs = .ok ps) :
    (ps.Pairwise fun p q => p.withoutCurrent = q.withoutCurrent →
      p.components = .current :: q.components ∨ q.components = .current :: p.components) ∧
    ((ps.Pairwise fun p q => p.withoutCurrent ≠ q.withoutCurrent) ↔
      ∀ p ∈ inputs.flatMap (contribution find fs w),
        ∀ q ∈ inputs.flatMap (contribution find fs w), p.components ≠ .current :: q.components) := by
  obtain ⟨-, rfl⟩ := expand_eq_ok_iff.mp h
  generalize inputs.flatMap (contribution find fs w) = found
  have hdots : (Path.sorted found).Pairwise fun p q => p.withoutCurrent = q.withoutCurrent →
      p.components = .current :: q.components ∨ q.components = .current :: p.components := by
    refine (Path.pairwise_sorted found).imp ?_
    intro p q hlt halike
    refine ((Path.withoutCurrent_eq_iff p q).mp halike).resolve_left ?_
    intro hsame
    exact hlt.ne ((Path.same_iff p q).mp hsame)
  refine ⟨hdots, ?_, ?_⟩
  · intro hunlike p hp q hq hleading
    obtain ⟨p', hp', hpsame⟩ := Path.exists_same_mem_sorted hp
    obtain ⟨q', hq', hqsame⟩ := Path.exists_same_mem_sorted hq
    have hleading' : p'.components = .current :: q'.components := by
      rw [Path.same, beq_iff_eq] at hpsame hqsame
      rw [hpsame, hqsame, hleading]
    have hne : p' ≠ q' := by
      rintro rfl
      exact List.cons_ne_self _ _ hleading'.symm
    have : Std.Symm fun p q : Path => p.withoutCurrent ≠ q.withoutCurrent := ⟨fun _ _ => Ne.symm⟩
    exact hunlike.forall hp' hq' hne (Path.withoutCurrent_eq_of_leading hleading')
  · intro hnone
    refine hdots.imp_of_mem ?_
    intro p q hp hq hdot halike
    have hp := Path.mem_of_mem_sorted hp
    have hq := Path.mem_of_mem_sorted hq
    rcases hdot halike with hleading | hleading
    · exact hnone p hp q hq hleading
    · exact hnone q hq p hp hleading

theorem expand_unlike_iff_sampleFiles :
    let ps : List Path := [⟨"./util.lua"⟩, ⟨"lib/a.c"⟩, ⟨"util.lua"⟩]
    expand (Glob.finder sampleFiles) sampleFiles {} ["*.lua", "lib", "./util.lua"] = .ok ps ∧
      (ps.Pairwise fun p q => p.withoutCurrent = q.withoutCurrent →
        p.components = .current :: q.components ∨ q.components = .current :: p.components) ∧
      ¬ps.Pairwise fun p q => p.withoutCurrent ≠ q.withoutCurrent := by
  obtain ⟨hdots, hunlike⟩ := expand_unlike_iff expand_sampleFiles
  refine ⟨expand_sampleFiles, hdots, ?_⟩
  rw [hunlike]
  intro hnone
  exact hnone ⟨"./util.lua"⟩ (by decide +kernel) ⟨"util.lua"⟩ (by decide +kernel) (by decide)

/-- A file that is given with a leading dot and without is listed twice. -/
theorem expand_lists_file_twice :
    ∃ ps, expand (Glob.finder sampleFiles) sampleFiles {} ["./util.lua", "util.lua"] = .ok ps ∧
      ¬ps.Pairwise fun p q => p.withoutCurrent ≠ q.withoutCurrent := by
  have hfound : ["./util.lua".toList, "util.lua".toList].mapM
      (expandOne (Glob.finder sampleFiles) sampleFiles {}) =
        .ok [[⟨"./util.lua"⟩], [⟨"util.lua"⟩]] := by
    decide +kernel
  have hsorted : Path.sorted [⟨"./util.lua"⟩, ⟨"util.lua"⟩] = [⟨"./util.lua"⟩, ⟨"util.lua"⟩] :=
    Path.sorted_eq_of_perm (.refl _) (by decide +kernel)
  refine ⟨[⟨"./util.lua"⟩, ⟨"util.lua"⟩], ?_, by decide⟩
  rw [expand, hfound]
  exact congrArg Except.ok hsorted

end SourceDoc.Inputs
