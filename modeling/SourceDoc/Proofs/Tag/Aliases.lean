import Mathlib.Data.List.Induction
import Mathlib.Logic.Relation
import SourceDoc.Proofs.Tag.Values

namespace SourceDoc

namespace TagRules

/-- Something that is done to the rules. -/
inductive Change where
  | add (tag : Text) (rule : TagRule)
  | addAlias (source target : Text)

/-- The rules after a change. -/
def apply (r : TagRules) : Change → TagRules
  | .add tag rule => r.add tag rule
  | .addAlias source target => r.addAlias source target

/-- The rules that changes make of the standard ones. -/
def changed (changes : List Change) : TagRules :=
  changes.foldl apply standard

/-- The target that a change gives a name. -/
def Change.target? (name : Text) : Change → Option Text
  | .add .. => none
  | .addAlias source target => if name = source then some target else none

/-- What a name is an alias of. -/
def alias? (r : TagRules) (name : Text) : Option Text :=
  r.aliases.lookup name

/-- A name from which the aliases, followed one after the other, end at another name. Resolving a
    name follows only the first of them. -/
def EndsAt (r : TagRules) (name final : Text) : Prop :=
  Relation.ReflTransGen (fun source target => r.alias? source = some target) name final ∧
    r.alias? final = none

variable {r : TagRules} {changes : List Change} {name final : Text}

/-- A change gives a name its target, or leaves what the name stands for as it is. -/
theorem alias?_apply (r : TagRules) (change : Change) (name : Text) :
    (r.apply change).alias? name = (change.target? name).or (r.alias? name) := by
  cases change with
  | add tag rule => rfl
  | addAlias source target =>
    rw [Change.target?, alias?, apply, addAlias, Dictionary.lookup_put]
    split <;> rfl

/-- The last target that a name was given counts, and the standard one if it was given none. -/
theorem alias?_changed (changes : List Change) (name : Text) :
    (changed changes).alias? name =
      (changes.filterMap (·.target? name)).getLast?.or (standard.alias? name) := by
  induction changes using List.reverseRecOn with
  | nil => rfl
  | append_singleton changes change ih =>
    rw [changed, List.foldl_append, List.foldl_cons, List.foldl_nil, alias?_apply, ← changed, ih,
      List.filterMap_append]
    cases htarget : change.target? name <;> simp [htarget]

theorem canonical_eq (r : TagRules) (name : Text) :
    r.canonical name = (r.alias? name).getD name :=
  rfl

/-- No name is an alias of itself if none was made one. -/
theorem alias?_ne_self
    (hchanges : ∀ source target, .addAlias source target ∈ changes → source ≠ target)
    (name : Text) : (changed changes).alias? name ≠ some name := by
  rw [alias?_changed]
  intro hself
  rcases Option.or_eq_some_iff.mp hself with hgiven | ⟨-, hstandard⟩
  · obtain ⟨change, hmem, htarget⟩ := List.mem_filterMap.mp (List.mem_of_getLast? hgiven)
    cases change with
    | add tag rule => cases htarget
    | addAlias source target =>
      rw [Change.target?] at htarget
      split at htarget
      · rename_i hsource
        exact hchanges source target hmem (hsource.symm.trans (Option.some.inj htarget).symm)
      · cases htarget
  · obtain ⟨before, after, haliases, -⟩ := List.lookup_eq_some_iff.mp hstandard
    have hmem : (name, name) ∈ standard.aliases := haliases ▸ by simp
    have hdistinct : ∀ entry ∈ standard.aliases, entry.1 ≠ entry.2 := by decide
    exact hdistinct _ hmem rfl

/-- A name that is not its own alias is resolved to itself exactly if it is no alias. -/
theorem canonical_eq_self_iff (hself : r.alias? name ≠ some name) :
    r.canonical name = name ↔ r.alias? name = none := by
  rw [canonical_eq]
  cases halias : r.alias? name with
  | none => simp
  | some target => simpa [halias] using hself

/-- The one step reaches the end of the aliases exactly if no alias starts where it leads. -/
theorem EndsAt.canonical_eq_iff (h : r.EndsAt name final) :
    r.canonical name = final ↔ r.alias? (r.canonical name) = none := by
  obtain ⟨hsteps, hend⟩ := h
  constructor
  · rintro rfl
    exact hend
  · intro hlast
    rw [canonical_eq] at hlast ⊢
    rcases hsteps.cases_head with rfl | ⟨target, hfirst, hrest⟩
    · rw [hend, Option.getD_none]
    · rw [hfirst, Option.getD_some] at hlast ⊢
      rcases hrest.cases_head with rfl | ⟨next, hnext, -⟩
      · rfl
      · rw [hlast] at hnext
        cases hnext

/-- A name stands for the target it was given last. Resolving it twice is resolving it once exactly
    if that target is no alias; then, and only then, it stands for the name at which its aliases
    end. The values of a tag are those of the tag lines whose names stand for it. -/
theorem canonical_idempotent_iff
    (hchanges : ∀ source target, .addAlias source target ∈ changes → source ≠ target) :
    let r := changed changes
    (∀ name, r.canonical name = ((changes.filterMap (·.target? name)).getLast?.or
      (standard.alias? name)).getD name) ∧
    (∀ name, r.canonical (r.canonical name) = r.canonical name ↔
      r.alias? (r.canonical name) = none) ∧
    (∀ name final, r.EndsAt name final →
      (r.canonical name = final ↔ r.alias? (r.canonical name) = none)) ∧
    ∀ final, r.OnlyHolds final → ∀ t, (DocText.read r t).tags.values final =
      ((DocText.writtenTags t).filter fun tag => r.canonical tag.1 = final).map (·.2) := by
  intro r
  refine ⟨?_, ?_, ?_, ?_⟩
  · intro name
    rw [canonical_eq, alias?_changed]
  · exact fun name => canonical_eq_self_iff (alias?_ne_self hchanges _)
  · exact fun name final h => h.canonical_eq_iff
  · intro final hfinal t
    rw [DocText.values_read hfinal, DocText.canonicalTags, List.filter_map, List.map_map]
    rfl

/-- An alias that is given another target, and an alias of an alias. -/
def repointed : List Change :=
  [.addAlias "arg" "p", .addAlias "p" "param", .add "since" {}, .addAlias "arg" "param",
    .addAlias "ret" "returns"]

theorem canonical_idempotent_iff_repointed :
    (∀ source target, .addAlias source target ∈ repointed → source ≠ target) ∧
    (changed repointed).canonical "arg" = "param" ∧
    (changed repointed).canonical ((changed repointed).canonical "arg") = "param" ∧
    (changed repointed).EndsAt "ret" "return" ∧ (changed repointed).canonical "ret" ≠ "return" ∧
    (changed repointed).OnlyHolds "param" ∧
    (DocText.read (changed repointed) "@arg a\n@ret b\n@params c").tags.values "param" =
      ["a", "c"] := by
  have hchanges : ∀ source target, .addAlias source target ∈ repointed → source ≠ target := by
    simp only [repointed, List.mem_cons, List.not_mem_nil, or_false, Change.addAlias.injEq,
      reduceCtorEq, false_or]
    rintro source target (⟨rfl, rfl⟩ | ⟨rfl, rfl⟩ | ⟨rfl, rfl⟩ | ⟨rfl, rfl⟩) <;> decide
  obtain ⟨hlast, htwice, hends, hvalues⟩ := canonical_idempotent_iff hchanges
  have harg : (changed repointed).canonical "arg" = "param" := (hlast "arg").trans (by decide)
  have hfirst : (changed repointed).alias? "ret" = some "returns" := by decide
  have hnext : (changed repointed).alias? "returns" = some "return" := by decide
  have hret : (changed repointed).EndsAt "ret" "return" :=
    ⟨.head hfirst (.single hnext), by decide⟩
  refine ⟨hchanges, harg, ?_, hret, ?_, by decide, ?_⟩
  · exact ((htwice "arg").mpr (by decide)).trans harg
  · rw [Ne, hends "ret" "return" hret]
    decide
  · exact (hvalues "param" (by decide) _).trans (by decide +kernel)

/-- An alias of an alias is resolved to that alias, and its values are filed there. -/
theorem canonical_stops_at_alias :
    let r := changed [.addAlias "ret" "returns"]
    ("ret" : Text) ≠ "returns" ∧ r.canonical (r.canonical "ret") ≠ r.canonical "ret" ∧
      (DocText.read r "@ret the sum").tags.values "return" = [] := by
  decide +kernel

end TagRules

end SourceDoc
