import Mathlib.Data.List.DropRight
import SourceDoc.FileTree.Access
import SourceDoc.Proofs.Except
import SourceDoc.Proofs.FileTree.Put

namespace SourceDoc.FileSystem

variable {fs more : FileSystem} {path : Path} {place next : List Text} {piece : Text}

theorem isSome_lookup_eq {es : List (Text × FileTree)} (h : fs.root.at? place = some (.dir es))
    (piece : Text) : (es.lookup piece).isSome = (fs.root.node? (place ++ [piece])).isSome := by
  rw [FileTree.node?_append, h, Option.bind_some, FileTree.node?_cons, FileTree.entries]
  cases es.lookup piece <;> rfl

/-- A piece can be followed from a directory. Which place it leads to is decided by what stands
    there. -/
theorem step_eq_ok_iff : fs.step place piece = .ok next ↔
    fs.root.node? place = some .dir ∧
      if piece = "" ∨ piece = "." then next = place
      else if piece = ".." then next = place.dropLast
      else piece.byteLength ≤ maxNameBytes ∧ (fs.root.node? (place ++ [piece])).isSome = true ∧
        next = place ++ [piece] := by
  rw [step, FileTree.node?_eq_dir_iff]
  cases hplace : fs.root.at? place with
  | none => simp
  | some tree =>
    cases tree with
    | file | device => simp
    | dir es =>
      have hdir : ∃ es', some (FileTree.dir es) = some (.dir es') := ⟨es, rfl⟩
      simp only [hdir, true_and, isSome_lookup_eq hplace]
      split
      · simp [eq_comm]
      · split
        · simp [eq_comm]
        · split
          · rename_i hlong
            simp [Nat.not_le.mpr hlong]
          · rename_i hshort
            split
            · rename_i hthere
              simp [Nat.not_lt.mp hshort, hthere, eq_comm]
            · rename_i hmissing
              simp [hmissing]

/-- A file system has all that another one has, as far as paths lead through it. -/
structure Includes (more fs : FileSystem) : Prop where
  dirs : ∀ place, fs.root.node? place = some .dir → more.root.node? place = some .dir
  places : ∀ place, (fs.root.node? place).isSome = true → (more.root.node? place).isSome = true

/-- A step along a path leads where it led before, since nothing is missing there. -/
theorem Includes.step (h : more.Includes fs) (hstep : fs.step place piece = .ok next) :
    more.step place piece = .ok next := by
  rw [step_eq_ok_iff] at hstep ⊢
  obtain ⟨hdir, hleads⟩ := hstep
  refine ⟨h.dirs place hdir, ?_⟩
  split at hleads
  · rename_i hstays
    rwa [if_pos hstays]
  · rename_i hmoves
    rw [if_neg hmoves]
    split at hleads
    · rename_i hparent
      rwa [if_pos hparent]
    · rename_i hentry
      rw [if_neg hentry]
      exact ⟨hleads.1, h.places _ hleads.2.1, hleads.2.2⟩

theorem foldlM_append_eq_ok_iff {pieces rest : List Text} :
    (pieces ++ rest).foldlM fs.step place = .ok next ↔
      ∃ between, pieces.foldlM fs.step place = .ok between ∧
        rest.foldlM fs.step between = .ok next := by
  rw [List.foldlM_append, bind_eq_ok_iff]

/-- A path that leads somewhere leads there as well when something is added. -/
theorem Includes.foldlM_step (h : more.Includes fs) {pieces : List Text}
    (hpieces : pieces.foldlM fs.step place = .ok next) :
    pieces.foldlM more.step place = .ok next := by
  induction pieces generalizing place with
  | nil => exact hpieces
  | cons piece pieces ih =>
    rw [List.foldlM_cons, bind_eq_ok_iff] at hpieces ⊢
    obtain ⟨between, hstep, hrest⟩ := hpieces
    exact ⟨between, h.step hstep, ih hrest⟩

/-- A name that leads to an entry of a directory. -/
structure IsEntryName (name : Text) : Prop where
  ne_empty : name ≠ ""
  ne_dot : name ≠ "."
  ne_parent : name ≠ ".."
  short : name.byteLength ≤ maxNameBytes

/-- A path that a file can be written to: the pieces before its last one lead to a directory, and
    the last one is the name of an entry there or of none, but not of a directory. -/
structure LeadsToFile (fs : FileSystem) (path : Path) (dir : List Text) (name : Text) : Prop where
  short : path.text.byteLength ≤ maxPathBytes
  pieces : ∃ start front, fs.startOf path = (start, front ++ [name]) ∧
    front.foldlM fs.step start = .ok dir
  isName : IsEntryName name
  isDir : fs.root.node? dir = some .dir
  isFree : fs.root.node? (dir ++ [name]) ≠ some .dir

theorem node?_ne_dir_of_not_isDir (h : ¬(fs.root.at? place).any (·.isDir) = true) :
    fs.root.node? place ≠ some .dir := by
  intro hnode
  obtain ⟨es, hes⟩ := FileTree.node?_eq_dir_iff.mp hnode
  rw [hes] at h
  exact h rfl

/-- A path that can be written to leads to a directory and a name in it. -/
theorem exists_leadsToFile (h : fs.target path = .ok place) :
    ∃ dir name, place = dir ++ [name] ∧ fs.LeadsToFile path dir name := by
  unfold target at h
  generalize hstart : fs.startOf path = begin at h
  obtain ⟨start, pieces⟩ := begin
  dsimp only at h
  generalize htrimmed : (pieces.reverse.dropWhile (·.isEmpty)).reverse = trimmed at h
  split at h
  · cases h
  rename_i hshort
  split at h
  · cases h
  rename_i name hlast
  obtain ⟨dir, hfollowed, h⟩ := bind_eq_ok_iff.mp h
  split at h
  · cases h
  rename_i hordinary
  split at h
  · cases h
  rename_i hname
  split at h
  · cases h
  rename_i hfree
  cases h
  rw [not_or, not_or, Nat.not_lt] at hordinary
  obtain ⟨⟨hdot, hparent⟩, hlength⟩ := hordinary
  -- no slash was dropped at the end, and the last piece is not empty
  have hpieces : trimmed = pieces := by
    rw [← htrimmed] at hlength ⊢
    exact (List.rdropWhile_prefix _ pieces).eq_of_length_le hlength
  have hempty : name ≠ "" := by
    have hnot := List.head?_dropWhile_not (fun piece : Text => piece.isEmpty) pieces.reverse
    rw [← List.getLast?_reverse, htrimmed, hlast] at hnot
    rintro rfl
    cases hnot
  obtain ⟨between, hbetween, hend⟩ := foldlM_append_eq_ok_iff.mp hfollowed
  -- the empty piece after the directory makes sure that it is one
  rw [List.foldlM_cons, bind_eq_ok_iff] at hend
  obtain ⟨_, hstep, hnil⟩ := hend
  cases hnil
  obtain ⟨hdir, hstays⟩ := step_eq_ok_iff.mp hstep
  rw [if_pos (.inl rfl)] at hstays
  subst hstays
  refine ⟨dir, name, rfl, Nat.not_lt.mp hshort, ⟨start, trimmed.dropLast, ?_, hbetween⟩,
    ⟨hempty, hdot, hparent, Nat.not_lt.mp hname⟩, hdir, node?_ne_dir_of_not_isDir hfree⟩
  rw [hstart, List.dropLast_append_getLast? name hlast, hpieces]

/-- A path that a file can be written to leads to a file that stands there. -/
theorem LeadsToFile.locate {dir : List Text} {name : Text} (h : fs.LeadsToFile path dir name)
    (hthere : (fs.root.node? (dir ++ [name])).isSome = true) :
    fs.locate path = .ok (dir ++ [name]) := by
  obtain ⟨start, front, hstart, hfront⟩ := h.pieces
  have hne : path.text ≠ [] := by
    intro hempty
    have hnone : fs.startOf path = (fs.current, []) := by
      rw [startOf, hempty]
      rfl
    rw [hnone] at hstart
    exact List.concat_ne_nil name front (congrArg Prod.snd hstart).symm
  have hname : fs.step dir name = .ok (dir ++ [name]) := by
    rw [step_eq_ok_iff, if_neg (not_or_intro h.isName.ne_empty h.isName.ne_dot),
      if_neg h.isName.ne_parent]
    exact ⟨h.isDir, h.isName.short, hthere, rfl⟩
  have hempty : path.text.isEmpty = false := by simpa using hne
  rw [FileSystem.locate, hempty, if_neg Bool.false_ne_true, if_neg (Nat.not_lt.mpr h.short), hstart]
  refine foldlM_append_eq_ok_iff.mpr ⟨dir, hfront, ?_⟩
  rw [List.foldlM_cons, hname]
  rfl

/-- Every text is read back from its bytes. -/
theorem decode_encode (t : Text) : decode (encode t) = .ok t := by
  have htext : decode? (encode t) = some t := by
    rw [decode?, encode, String.toUTF8, String.fromUTF8?, dif_pos (String.ofList t).isValidUTF8,
      Option.map_some]
    exact congrArg some String.toList_ofList
  rw [decode, htext]

/-- The files with a text put at a place. -/
def putText (fs : FileSystem) (place : List Text) (t : Text) : FileSystem :=
  { fs with root := fs.root.put (.file (encode t)) place }

/-- A text is put at its place, and nothing else is touched. -/
theorem LeadsToFile.node?_putText {dir : List Text} {name : Text} (h : fs.LeadsToFile path dir name)
    (t : Text) (place : List Text) :
    (fs.putText (dir ++ [name]) t).root.node? place =
      if place = dir ++ [name] then some (.file (encode t)) else fs.root.node? place :=
  FileTree.node?_put h.isDir h.isFree (encode t) place

/-- All paths lead where they led before. -/
theorem LeadsToFile.includes_putText {dir : List Text} {name : Text}
    (h : fs.LeadsToFile path dir name) (t : Text) :
    (fs.putText (dir ++ [name]) t).Includes fs where
  dirs place hplace := by
    have hne : place ≠ dir ++ [name] := by
      rintro rfl
      exact h.isFree hplace
    rw [h.node?_putText, if_neg hne, hplace]
  places place hplace := by
    rw [h.node?_putText]
    split
    · rfl
    · exact hplace

/-- A text that is put where a path leads reads back from that path. -/
theorem LeadsToFile.read_putText {dir : List Text} {name : Text} (h : fs.LeadsToFile path dir name)
    (t : Text) : (fs.putText (dir ++ [name]) t).read path = .ok t := by
  have hincludes := h.includes_putText t
  have hfile := h.node?_putText t (dir ++ [name])
  rw [if_pos rfl] at hfile
  obtain ⟨start, front, hstart, hfront⟩ := h.pieces
  have hafter : (fs.putText (dir ++ [name]) t).LeadsToFile path dir name := by
    refine ⟨h.short, ⟨start, front, hstart, hincludes.foldlM_step hfront⟩, h.isName,
      hincludes.dirs dir h.isDir, ?_⟩
    rw [hfile]
    simp
  rw [read, bind_eq_ok_iff]
  refine ⟨dir ++ [name], hafter.locate (by rw [hfile]; rfl), ?_⟩
  rw [FileTree.node?_eq_file_iff.mp hfile]
  exact decode_encode t

/-- Writing a text either sends it to a device, and no file changes, or puts it into the one file
    that the path leads to, where it reads back. A device prints the text or forgets it. -/
theorem write_eq_ok {t : Text} {written : Written} (h : fs.write path t = .ok written) :
    ∃ place, fs.target path = .ok place ∧
      ((∃ d, fs.root.at? place = some (.device d) ∧ d.sink ≠ .full ∧
          written = ⟨fs, if d.sink = .output then t else []⟩) ∨
        written.files.read path = .ok t ∧ written.printed = [] ∧
          written.files.current = fs.current ∧
          ∀ other, written.files.root.node? other =
            if other = place then some (.file (encode t)) else fs.root.node? other) := by
  obtain ⟨place, htarget, h⟩ := bind_eq_ok_iff.mp h
  refine ⟨place, htarget, ?_⟩
  split at h
  · rename_i d hdevice
    refine .inl ⟨d, hdevice, ?_⟩
    cases hsink : d.sink <;> rw [hsink] at h <;> cases h
    · exact ⟨by simp, rfl⟩
    · exact ⟨by simp, rfl⟩
  · cases h
    obtain ⟨dir, name, rfl, hleads⟩ := exists_leadsToFile htarget
    exact .inr ⟨hleads.read_putText t, rfl, rfl, hleads.node?_putText t⟩

end SourceDoc.FileSystem
