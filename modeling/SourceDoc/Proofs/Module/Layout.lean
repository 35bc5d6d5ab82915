import Mathlib.Data.List.Basic
import SourceDoc.Module.Name
import SourceDoc.Proofs.Path.Components
import SourceDoc.Proofs.Text.Words

namespace SourceDoc.ModuleName

open SourceDoc.Path (Component)

variable {path root : Path} {dirs : List Text} {stem extension : Text}

/-- The end of a path that starts with the components of the root lies below it. -/
theorem below?_eq_some_iff {below : List Component} :
    below? root path = some below ↔ root.withoutCurrent ++ below = path.withoutCurrent :=
  List.isPrefixOf?_eq_some_iff_append_eq

/-- A name is split at its last dot, so the stem may have dots of its own. -/
theorem splitName_append (hstem : stem ≠ "") (hextension : '.' ∉ extension) :
    Path.splitName (stem ++ '.' :: extension) = (stem, some extension) := by
  have hcut : Text.cutAroundLast? (· == '.') (stem ++ '.' :: extension) = some (stem, extension) := by
    refine Text.cutAroundLast?_append rfl ?_ stem
    intro c hc
    rw [beq_eq_false_iff_ne]
    rintro rfl
    exact hextension hc
  rw [Path.splitName, hcut]
  cases stem with
  | nil => exact absurd rfl hstem
  | cons c cs => rfl

/-- What a file below the root is named for, once its extension is dropped. -/
theorem filterMap_nameOf?_dropExtension (hstem : stem ≠ "" ∧ stem ≠ "." ∧ stem ≠ "..")
    (hextension : '.' ∉ extension) :
    (dropExtension (dirs.map .normal ++ [.normal (stem ++ '.' :: extension)])).filterMap nameOf? =
      dirs ++ [stem] := by
  obtain ⟨hempty, hdot, hparent⟩ := hstem
  have hkept : Component.ofPiece? stem = some (.normal stem) := by
    rw [Component.ofPiece?, if_neg (not_or_intro hempty hdot), if_neg hparent]
  have hdirs : (dirs.map Component.normal).filterMap nameOf? = dirs := by
    rw [List.filterMap_map]
    exact List.filterMap_some
  rw [dropExtension, List.getLast?_concat]
  dsimp only
  rw [splitName_append hempty hextension, List.dropLast_concat, hkept, List.filterMap_append, hdirs]
  rfl

/-- Only an `init` below some directory is dropped; at the package root it is a name like any
    other. -/
theorem dropInit_append (dirs : List Text) (stem : Text) :
    dropInit (dirs ++ [stem]) =
      if stem = "init" ∧ dirs ≠ [] then dirs else dirs ++ [stem] := by
  have hlength : 1 < (dirs ++ [stem]).length ↔ dirs ≠ [] := by
    rw [List.length_append, List.length_singleton, Nat.lt_add_left_iff_pos, List.length_pos_iff]
  simp only [dropInit, hlength, List.getLast?_concat, Option.some_inj, List.dropLast_concat,
    and_comm]

/-- The module in a file below the package root has the names of the directories on the way and the
    stem of the file, joined by points, for its name; only `init` is left out where there is a
    directory. The file is not reported to be outside, and neither the name nor that depends on
    where dots are written into the two paths. -/
theorem ofPath_follows_layout
    (hbelow : path.withoutCurrent =
      root.withoutCurrent ++ dirs.map .normal ++ [.normal (stem ++ '.' :: extension)])
    (hextension : '.' ∉ extension) (hstem : stem ≠ "" ∧ stem ≠ "." ∧ stem ≠ "..") :
    ofPath path (some root) =
        Text.join "." (if stem = "init" ∧ dirs ≠ [] then dirs else dirs ++ [stem]) ∧
      events path (some root) = [] ∧
      ∀ path' root' : Path, path'.SameButDots path → root'.SameButDots root →
        ofPath path' (some root') = ofPath path (some root) ∧ events path' (some root') = [] := by
  have hnamed (p r : Path) (hp : p.withoutCurrent = path.withoutCurrent)
      (hr : r.withoutCurrent = root.withoutCurrent) :
      ofPath p (some r) =
          Text.join "." (if stem = "init" ∧ dirs ≠ [] then dirs else dirs ++ [stem]) ∧
        events p (some r) = [] := by
    have hrest : below? r p =
        some (dirs.map .normal ++ [.normal (stem ++ '.' :: extension)]) := by
      rw [below?_eq_some_iff, hp, hr, hbelow, List.append_assoc]
    constructor
    · rw [ofPath, relative, hrest, Option.getD_some,
        filterMap_nameOf?_dropExtension hstem hextension, dropInit_append]
      -- there is a name to join in either case
      split
      · rename_i hnone
        split at hnone
        · rename_i hinit
          exact absurd hnone hinit.2
        · exact absurd hnone (List.concat_ne_nil stem dirs)
      · rfl
    · rw [events, hrest]
      rfl
  obtain ⟨hname, hevents⟩ := hnamed path root rfl rfl
  refine ⟨hname, hevents, ?_⟩
  intro path' root' hpath hroot
  rw [hname]
  exact hnamed path' root' hpath.withoutCurrent_eq hroot.withoutCurrent_eq

/-- A file with two dots in its name, and a file `init`, below a root that is written with dots. -/
theorem ofPath_follows_layout_dotted :
    ofPath ⟨"src/./pkg/v1.2.lua"⟩ (some ⟨"./src/."⟩) = "pkg.v1.2" ∧
      ofPath ⟨"./src/././pkg/v1.2.lua"⟩ (some ⟨"src"⟩) = "pkg.v1.2" ∧
      ofPath ⟨"src/./pkg/init.lua"⟩ (some ⟨"./src/."⟩) = "pkg" ∧
      events ⟨"src/./pkg/init.lua"⟩ (some ⟨"./src/."⟩) = [] := by
  let root : Path := ⟨"./src/."⟩
  have hversion : (⟨"src/./pkg/v1.2.lua"⟩ : Path).withoutCurrent = root.withoutCurrent ++
      [("pkg" : Text)].map .normal ++ [.normal (("v1.2" : Text) ++ '.' :: "lua".toList)] := by
    decide
  have hinit : (⟨"src/./pkg/init.lua"⟩ : Path).withoutCurrent = root.withoutCurrent ++
      [("pkg" : Text)].map .normal ++ [.normal (("init" : Text) ++ '.' :: "lua".toList)] := by
    decide
  obtain ⟨hname, -, hdots⟩ := ofPath_follows_layout hversion (by decide) (by decide)
  obtain ⟨hdirectory, hevents, -⟩ := ofPath_follows_layout hinit (by decide) (by decide)
  have hrespelled := hdots ⟨"./src/././pkg/v1.2.lua"⟩ ⟨"src"⟩ ⟨by decide, by decide⟩
    ⟨by decide, by decide⟩
  exact ⟨hname, hrespelled.1.trans hname, hdirectory, hevents⟩

end SourceDoc.ModuleName
