import SourceDoc.Proofs.Language.Reading

namespace SourceDoc.Lua

open Declaration (Progress Draft)
open Token (Piece word mark)

/-- Whether a token of a parameter list is a parameter. -/
def isParam (p : Piece) : Bool :=
  p.1 = .word ∨ p = mark "..."

/-- Whether a token separates the words of a name. -/
def isSeparatorPiece (p : Piece) : Bool :=
  p = mark "." ∨ p = mark ":"

/-- Whether a token can be part of a name. -/
def isNamePart (p : Piece) : Bool :=
  p.1 = .word ∨ isSeparatorPiece p

/-- Whether a word is the start of a name where a declaration can begin. -/
def startsName (w : Text) : Bool :=
  w ≠ "local" ∧ w ≠ "function" ∧ isKeyword w = false

/-- The texts of tokens one after the other. -/
def spelling (pieces : List Piece) : Text :=
  pieces.flatMap (·.2)

/-- The parameters among the tokens of a parameter list. -/
def paramTexts (inner : List Piece) : List Text :=
  (inner.filter isParam).map (·.2)

/-- The further words of a dotted name as written, each after its separator. -/
def membersText (members : List (Char × Text)) : Text :=
  members.flatMap fun m => m.1 :: m.2

/-- The tokens of the further words of a dotted name. -/
def memberPieces (members : List (Char × Text)) : List Piece :=
  members.flatMap fun m => [(.other, [m.1]), (.word, m.2)]

section Steps

variable {d : Draft} (p : Piece)

/-- The step at the start of a declaration, with its tests on the token as equations. The lemmas for
    the other stages are of the same form. -/
theorem stepPiece_awaiting (isLocal : Bool) :
    Language.lua.stepPiece (.awaiting isLocal) p =
      if p = word "local" then .awaiting true
      else if p = word "function" then .reading { isLocal, stage := .name, name := [] }
      else if p.1 = .word ∧ isKeyword p.2 = false then
        .reading { isLocal, stage := .afterName, name := p.2 }
      else .failed := by
  change stepAwaiting isLocal ⟨p.1, p.2, 1⟩ = _
  simp only [stepAwaiting, Token.isWord_eq_decide, decide_eq_true_eq, Bool.and_eq_true, beq_iff_eq,
    Bool.not_eq_true']

/-- The step in the name behind `function`. -/
theorem stepPiece_name (hd : d.stage = .name) :
    Language.lua.stepPiece (.reading d) p =
      if isNamePart p then .reading { d with name := d.name ++ p.2 }
      else if p = mark "(" ∧ d.name ≠ [] then .reading { d with stage := .params }
      else .failed := by
  change stepDraft d ⟨p.1, p.2, 1⟩ = _
  simp only [stepDraft, hd, stepName, isSeparator, Token.isOther_eq_decide, isNamePart,
    isSeparatorPiece, decide_eq_true_eq, Bool.or_eq_true, beq_iff_eq, Bool.and_eq_true,
    Bool.not_eq_true', List.isEmpty_eq_false_iff]

/-- The step in a name that started the declaration, where words and separators have to
    alternate. -/
theorem stepPiece_afterName (hd : d.stage = .afterName) :
    Language.lua.stepPiece (.reading d) p =
      if p.1 = .word ∧ isOpenName d.name = true ∨
          isSeparatorPiece p = true ∧ isOpenName d.name = false then
        .reading { d with name := d.name ++ p.2 }
      else if p = mark "=" then .reading { d with stage := .afterAssign }
      else if p = mark "," ∨ d.isLocal = true ∧ isOpenName d.name = false then .finished d .variable
      else .failed := by
  change stepDraft d ⟨p.1, p.2, 1⟩ = _
  simp only [stepDraft, hd, stepAfterName, isSeparator, Token.isOther_eq_decide, isSeparatorPiece,
    decide_eq_true_eq, Bool.or_eq_true, beq_iff_eq, Bool.and_eq_true, Bool.not_eq_true', ite_or]

theorem stepPiece_afterAssign (hd : d.stage = .afterAssign) :
    Language.lua.stepPiece (.reading d) p =
      if p = word "function" then .reading { d with stage := .functionKeyword }
      else if p = mark "\x7b" then .finished d .table
      else .finished d .variable := by
  change stepDraft d ⟨p.1, p.2, 1⟩ = _
  simp only [stepDraft, hd, stepAfterAssign, Token.isOther_eq_decide, Token.isWord_eq_decide,
    decide_eq_true_eq]

theorem stepPiece_functionKeyword (hd : d.stage = .functionKeyword) :
    Language.lua.stepPiece (.reading d) p =
      if p = mark "(" then .reading { d with stage := .params } else .failed := by
  change stepDraft d ⟨p.1, p.2, 1⟩ = _
  simp only [stepDraft, hd, stepFunctionKeyword, Token.isOther_eq_decide, decide_eq_true_eq]

theorem stepPiece_params (hd : d.stage = .params) :
    Language.lua.stepPiece (.reading d) p =
      if isParam p then .reading { d with params := d.params ++ [p.2] }
      else if p = mark ")" then .finished d (.function d.params)
      else .reading d := by
  change stepDraft d ⟨p.1, p.2, 1⟩ = _
  simp only [stepDraft, hd, stepParams, Token.isOther_eq_decide, isParam, decide_eq_true_eq,
    Bool.or_eq_true, beq_iff_eq]

end Steps

section Runs

variable {d : Draft} {pieces : List Piece}

/-- It does not matter how often `local` is repeated. -/
theorem readPieces_locals (isLocal : Bool) (n : Nat) :
    Language.lua.readPieces (.awaiting isLocal) (List.replicate n (word "local")) =
      .awaiting (isLocal || decide (0 < n)) := by
  induction n generalizing isLocal with
  | zero => simp
  | succ n ih =>
    rw [List.replicate_succ, Language.readPieces_cons, stepPiece_awaiting, if_pos rfl, ih]
    simp

/-- After `function` words and separators are taken into the name as they come. -/
theorem readPieces_name (hparts : ∀ p ∈ pieces, isNamePart p = true) (hd : d.stage = .name) :
    Language.lua.readPieces (.reading d) pieces =
      .reading { d with name := d.name ++ spelling pieces } := by
  induction pieces generalizing d with
  | nil => simp [spelling]
  | cons p pieces ih =>
    obtain ⟨hp, hpieces⟩ := List.forall_mem_cons.mp hparts
    rw [Language.readPieces_cons, stepPiece_name p hd, if_pos hp, ih hpieces]
    · simp [spelling]
    · exact hd

/-- Up to the closing parenthesis the parameters are collected. -/
theorem readPieces_params (hclosing : mark ")" ∉ pieces) (hd : d.stage = .params) :
    Language.lua.readPieces (.reading d) pieces =
      .reading { d with params := d.params ++ paramTexts pieces } := by
  induction pieces generalizing d with
  | nil => simp [paramTexts]
  | cons p pieces ih =>
    obtain ⟨hp, hpieces⟩ := not_or.mp (List.mem_cons.not.mp hclosing)
    rw [Language.readPieces_cons, stepPiece_params p hd]
    split
    · rename_i hparam
      rw [ih hpieces]
      · simp [paramTexts, List.filter_cons_of_pos hparam]
      · exact hd
    · rename_i hparam
      rw [if_neg (Ne.symm hp), ih hpieces hd, paramTexts, paramTexts,
        List.filter_cons_of_neg hparam]

/-- A parameter list ends the declaration of a function. -/
theorem readPieces_paramList (hclosing : mark ")" ∉ pieces) (hd : d.stage = .params)
    (more : List Piece) :
    Language.lua.readPieces (.reading d) (pieces ++ mark ")" :: more) =
      .finished d (.function (d.params ++ paramTexts pieces)) := by
  rw [Language.readPieces_append, readPieces_params hclosing hd, Language.readPieces_cons,
    stepPiece_params, if_neg (by decide), if_pos rfl]
  · exact Language.readPieces_done ..
  · exact hd

end Runs

section Written

/-- A dotted name: words with a point or a colon between neighbours. The words are any that a token
    can be, numbers among them; the first one is the start of a name. -/
structure WordName where
  first : Text
  /-- The further words, each with the separator before it. -/
  members : List (Char × Text)
  startsName_first : startsName first = true
  first_ne_nil : first ≠ []
  isMember_members : ∀ m ∈ members, (m.1 = '.' ∨ m.1 = ':') ∧ m.2 ≠ []

namespace WordName

/-- The name as written. -/
def text (n : WordName) : Text :=
  n.first ++ membersText n.members

/-- The tokens of a name. -/
def pieces (n : WordName) : List Piece :=
  word n.first :: memberPieces n.members

/-- No word before a separator ends with one itself, as the number `1.` does. -/
def IsJoined (n : WordName) : Prop :=
  ∀ w ∈ (n.first :: n.members.map (·.2)).dropLast, isOpenName w = false

/-- Decided on the words, so that a concrete name can be checked. -/
instance (n : WordName) : Decidable n.IsJoined :=
  inferInstanceAs (Decidable (∀ w ∈ _, _ = false))

end WordName

/-- The word that makes a declaration local, if it is. -/
def localPart (isLocal : Bool) : List Piece :=
  if isLocal then [word "local"] else []

/-- Parameters in parentheses, with commas between neighbours. -/
def paramList (params : List Piece) : List Piece :=
  mark "(" :: (params.intersperse (mark ",") ++ [mark ")"])

/-- Only the end of a name shows whether a word can go on with it. -/
theorem isOpenName_append {w : Text} (hw : w ≠ []) (name : Text) :
    isOpenName (name ++ w) = isOpenName w := by
  rw [isOpenName, isOpenName, List.getLast?_append_of_ne_nil _ hw]

theorem isOpenName_concat {c : Char} (hc : c = '.' ∨ c = ':') (name : Text) :
    isOpenName (name ++ [c]) = true := by
  rw [isOpenName_append (List.cons_ne_nil c [])]
  rcases hc with rfl | rfl <;> rfl

variable {d : Draft}

/-- Words and separators all go into a name. -/
theorem isNamePart_of_mem_memberPieces {members : List (Char × Text)}
    (hmembers : ∀ m ∈ members, m.1 = '.' ∨ m.1 = ':') :
    ∀ p ∈ memberPieces members, isNamePart p = true := by
  intro p hp
  obtain ⟨m, hm, hp⟩ := List.mem_flatMap.mp hp
  rcases List.mem_pair.mp hp with rfl | rfl
  · rcases hmembers m hm with hc | hc <;> rw [hc] <;> rfl
  · rfl

theorem spelling_memberPieces (members : List (Char × Text)) :
    spelling (memberPieces members) = membersText members := by
  simp [spelling, memberPieces, List.flatMap_assoc, membersText]

theorem spelling_name (first : Text) (members : List (Char × Text)) :
    spelling (word first :: memberPieces members) = first ++ membersText members := by
  rw [spelling, List.flatMap_cons, ← spelling, spelling_memberPieces]

theorem WordName.text_ne_nil (n : WordName) : n.text ≠ [] :=
  List.append_ne_nil_of_left_ne_nil n.first_ne_nil _

/-- Without `function` before it, a name is read word by word: each separator has to follow a word,
    which shows in the last character read. -/
theorem readPieces_members {members : List (Char × Text)}
    (hmembers : ∀ m ∈ members, (m.1 = '.' ∨ m.1 = ':') ∧ m.2 ≠ [])
    (hwords : ∀ w ∈ (members.map (·.2)).dropLast, isOpenName w = false)
    (hname : members ≠ [] → isOpenName d.name = false) (hd : d.stage = .afterName) :
    Language.lua.readPieces (.reading d) (memberPieces members) =
      .reading { d with name := d.name ++ membersText members } := by
  induction members generalizing d with
  | nil => simp [memberPieces, membersText]
  | cons m members ih =>
    obtain ⟨⟨hseparator, hne⟩, hmembers⟩ := List.forall_mem_cons.mp hmembers
    have hpieces : memberPieces (m :: members) =
        mark [m.1] :: word m.2 :: memberPieces members := rfl
    have hclosed := hname (List.cons_ne_nil m members)
    have hmark : isSeparatorPiece (mark [m.1]) = true := by
      rcases hseparator with hc | hc <;> rw [hc] <;> rfl
    -- the last word is before a separator exactly if more members follow
    have hlast : members ≠ [] → isOpenName m.2 = false ∧
        ∀ w ∈ (members.map (·.2)).dropLast, isOpenName w = false := by
      intro hmore
      rw [List.map_cons, List.dropLast_cons_of_ne_nil (by simpa using hmore)] at hwords
      exact List.forall_mem_cons.mp hwords
    rw [hpieces, Language.readPieces_cons, stepPiece_afterName _ hd, if_pos (.inr ⟨hmark, hclosed⟩),
      Language.readPieces_cons, stepPiece_afterName,
      if_pos (.inl ⟨rfl, isOpenName_concat hseparator d.name⟩), ih hmembers]
    · simp [membersText]
    · intro w hw
      refine (hlast ?_).2 w hw
      rintro rfl
      cases hw
    · intro hmore
      rw [isOpenName_append hne]
      exact (hlast hmore).1
    · exact hd
    · exact hd

theorem readPieces_localPart (isLocal : Bool) :
    Language.lua.readPieces .start (localPart isLocal) = .awaiting isLocal := by
  cases isLocal <;> rfl

/-- After `function` and a name the parameter list opens. -/
theorem readPieces_function {name : List Piece} (hparts : ∀ p ∈ name, isNamePart p = true)
    (hname : spelling name ≠ []) (isLocal : Bool) (rest : List Piece) :
    Language.lua.readPieces .start
        (localPart isLocal ++ word "function" :: (name ++ mark "(" :: rest)) =
      Language.lua.readPieces (.reading { isLocal, stage := .params, name := spelling name })
        rest := by
  rw [Language.readPieces_append, readPieces_localPart, Language.readPieces_cons,
    stepPiece_awaiting, if_neg (by decide), if_pos rfl, Language.readPieces_append,
    readPieces_name hparts rfl, List.nil_append, Language.readPieces_cons,
    stepPiece_name _ rfl, if_neg (by decide), if_pos ⟨rfl, hname⟩]

/-- A name at the start of a declaration is the start of one. -/
theorem WordName.readPieces_first (n : WordName) (isLocal : Bool) :
    Language.lua.readPieces .start (localPart isLocal ++ n.pieces) =
      Language.lua.readPieces (.reading { isLocal, stage := .afterName, name := n.first })
        (memberPieces n.members) := by
  obtain ⟨hlocal, hfunction, hkeyword⟩ := of_decide_eq_true n.startsName_first
  rw [Language.readPieces_append, readPieces_localPart, pieces, Language.readPieces_cons,
    stepPiece_awaiting, if_neg (by simpa using hlocal), if_neg (by simpa using hfunction),
    if_pos ⟨rfl, hkeyword⟩]

/-- A name at the start of a declaration is read up to its end. -/
theorem WordName.readPieces_start {n : WordName} (hn : n.IsJoined) (isLocal : Bool) :
    Language.lua.readPieces .start (localPart isLocal ++ n.pieces) =
      .reading { isLocal, stage := .afterName, name := n.text } := by
  rw [n.readPieces_first, readPieces_members n.isMember_members]
  · rfl
  · intro w hw
    refine hn w ?_
    have hmore : n.members.map (·.2) ≠ [] := by
      intro hnil
      rw [hnil] at hw
      cases hw
    rw [List.dropLast_cons_of_ne_nil hmore]
    exact List.mem_cons_of_mem _ hw
  · intro hmore
    refine hn n.first ?_
    rw [List.dropLast_cons_of_ne_nil (by simpa using hmore)]
    exact List.mem_cons_self
  · rfl

/-- Without `local` before it, a name is read up to its end or not at all, whatever its words end
    with. -/
theorem readPieces_members_or_failed {members : List (Char × Text)}
    (hmembers : ∀ m ∈ members, (m.1 = '.' ∨ m.1 = ':') ∧ m.2 ≠ []) (hd : d.stage = .afterName)
    (hlocal : d.isLocal = false) :
    Language.lua.readPieces (.reading d) (memberPieces members) =
        .reading { d with name := d.name ++ membersText members } ∨
      Language.lua.readPieces (.reading d) (memberPieces members) = .failed := by
  induction members generalizing d with
  | nil => exact .inl (by simp [memberPieces, membersText])
  | cons m members ih =>
    obtain ⟨⟨hseparator, -⟩, hmembers⟩ := List.forall_mem_cons.mp hmembers
    have hpieces : memberPieces (m :: members) =
        mark [m.1] :: word m.2 :: memberPieces members := rfl
    rw [hpieces, Language.readPieces_cons, stepPiece_afterName _ hd]
    cases hopen : isOpenName d.name with
    | true =>
      -- the separator stands where a word has to follow
      have hassign : mark [m.1] ≠ mark "=" := by rcases hseparator with hc | hc <;> simp [hc]
      have hcomma : mark [m.1] ≠ mark "," := by rcases hseparator with hc | hc <;> simp [hc]
      have hends : ¬ (mark [m.1] = mark "," ∨ d.isLocal = true ∧ true = false) :=
        not_or.mpr ⟨hcomma, fun h => Bool.noConfusion h.2⟩
      rw [if_neg (by simp), if_neg hassign, if_neg hends]
      exact .inr (Language.readPieces_done ..)
    | false =>
      have hmark : isSeparatorPiece (mark [m.1]) = true := by
        rcases hseparator with hc | hc <;> rw [hc] <;> rfl
      rw [if_pos (.inr ⟨hmark, rfl⟩), Language.readPieces_cons, stepPiece_afterName,
        if_pos (.inl ⟨rfl, isOpenName_concat hseparator d.name⟩)]
      · simpa [membersText] using ih (d := { d with name := d.name ++ [m.1] ++ m.2 }) hmembers hd
          hlocal
      · exact hd

theorem mem_intersperse_comma {params : List Piece} {p : Piece}
    (h : p ∈ params.intersperse (mark ",")) : p = mark "," ∨ p ∈ params := by
  induction params with
  | nil => cases h
  | cons q params ih =>
    cases params with
    | nil => exact .inr h
    | cons r params =>
      rw [List.intersperse_cons_cons, List.mem_cons, List.mem_cons] at h
      rcases h with rfl | rfl | h
      · exact .inr List.mem_cons_self
      · exact .inl rfl
      · exact (ih h).imp_right (List.mem_cons_of_mem _)

theorem filter_intersperse_comma {params : List Piece} (hparams : ∀ p ∈ params, isParam p = true) :
    (params.intersperse (mark ",")).filter isParam = params := by
  induction params with
  | nil => rfl
  | cons q params ih =>
    obtain ⟨hq, hparams⟩ := List.forall_mem_cons.mp hparams
    cases params with
    | nil => simp [hq]
    | cons r params =>
      rw [List.intersperse_cons_cons, List.filter_cons_of_pos hq,
        List.filter_cons_of_neg (by decide), ih hparams]

/-- No parenthesis among the parameters closes their list early. -/
theorem closing_not_mem_intersperse {params : List Piece}
    (hparams : ∀ p ∈ params, isParam p = true) : mark ")" ∉ params.intersperse (mark ",") := by
  intro hmem
  rcases mem_intersperse_comma hmem with hcomma | hparam
  · exact absurd hcomma (by decide)
  · exact absurd (hparams _ hparam) (by decide)

/-- A parameter list is read as its parameters. -/
theorem readPieces_written_params {params : List Piece} (hparams : ∀ p ∈ params, isParam p = true)
    (hd : d.stage = .params) :
    Language.lua.readPieces (.reading d) (params.intersperse (mark ",") ++ [mark ")"]) =
      .finished d (.function (d.params ++ params.map (·.2))) := by
  rw [readPieces_paramList (closing_not_mem_intersperse hparams) hd, paramTexts,
    filter_intersperse_comma hparams]

end Written

/-- Tokens of the given code leave reading in the given state, whatever lines they stand on and
    whatever stands between them. -/
def ReadAs (pieces : List Piece) (state : Progress) : Prop :=
  ∀ ts, Token.code ts = pieces → Language.lua.readAll .start ts = state

/-- How the forms of a declaration of a name are read, `local` or not. A word that ends with a
    separator, as the number `1.` does, is taken for an unfinished name; so the forms of a
    declaration that do not start with `function` ask for words that do not end so. -/
structure ReadsName (isLocal : Bool) (n : WordName) : Prop where
  function : ∀ params, (∀ p ∈ params, isParam p = true) →
    ReadAs (localPart isLocal ++ word "function" :: (n.pieces ++ paramList params))
      (.done (some ⟨n.text, .function (params.map (·.2)), isLocal⟩))
  assigned_function : n.IsJoined → ∀ params, (∀ p ∈ params, isParam p = true) →
    ReadAs (localPart isLocal ++ n.pieces ++ mark "=" :: word "function" :: paramList params)
      (.done (some ⟨n.text, .function (params.map (·.2)), isLocal⟩))
  assigned_table : n.IsJoined →
    ReadAs (localPart isLocal ++ n.pieces ++ [mark "=", mark "\x7b"])
      (.done (some ⟨n.text, .table, isLocal⟩))
  assigned_value : n.IsJoined → ∀ p, p ≠ word "function" → p ≠ mark "\x7b" →
    ReadAs (localPart isLocal ++ n.pieces ++ [mark "=", p])
      (.done (some ⟨n.text, .variable, isLocal⟩))
  comma : n.IsJoined →
    ReadAs (localPart isLocal ++ n.pieces ++ [mark ","]) (.done (some ⟨n.text, .variable, isLocal⟩))
  local_end : n.IsJoined → isLocal = true → ∀ ts, Token.code ts = localPart isLocal ++ n.pieces →
    (Language.lua.readAll .start ts).result = some ⟨n.text, .variable, isLocal⟩
  local_other : n.IsJoined → isOpenName n.text = false → isLocal = true →
    ∀ p, p ≠ mark "." → p ≠ mark ":" → p ≠ mark "=" →
      ReadAs (localPart isLocal ++ n.pieces ++ [p]) (.done (some ⟨n.text, .variable, isLocal⟩))
  other : isLocal = false → ∀ p, p ≠ mark "." → p ≠ mark ":" → p ≠ mark "=" → p ≠ mark "," →
    ∀ ts, Token.code ts = localPart isLocal ++ n.pieces ++ [p] →
      (Language.lua.readAll .start ts).result = none ∧
        ((p.1 = .word → isOpenName n.text = false) →
          Language.lua.readAll .start ts = .done none)

section Complete

variable {isLocal : Bool} {n : WordName}

theorem ReadAs.of_readPieces {pieces : List Piece} {state : Progress}
    (h : Language.lua.readPieces .start pieces = state) : ReadAs pieces state := by
  rintro ts rfl
  rw [Language.readAll_eq_readPieces, h]

/-- The form with `function` in front needs no condition on the words of the name. -/
theorem readAs_function {params : List Piece} (hparams : ∀ p ∈ params, isParam p = true) :
    ReadAs (localPart isLocal ++ word "function" :: (n.pieces ++ paramList params))
      (.done (some ⟨n.text, .function (params.map (·.2)), isLocal⟩)) := by
  have hparts : ∀ p ∈ n.pieces, isNamePart p = true :=
    List.forall_mem_cons.mpr
      ⟨rfl, isNamePart_of_mem_memberPieces fun m hm => (n.isMember_members m hm).1⟩
  have hspelling : spelling n.pieces = n.text := spelling_name _ _
  apply ReadAs.of_readPieces
  rw [paramList, readPieces_function hparts (by rw [hspelling]; exact n.text_ne_nil), hspelling,
    readPieces_written_params hparams rfl]
  rfl

/-- An assigned name is complete before the equals sign. -/
theorem readPieces_assigned (hn : n.IsJoined) (pieces : List Piece) :
    Language.lua.readPieces .start (localPart isLocal ++ n.pieces ++ mark "=" :: pieces) =
      Language.lua.readPieces (.reading { isLocal, stage := .afterAssign, name := n.text })
        pieces := by
  rw [Language.readPieces_append, n.readPieces_start hn, Language.readPieces_cons,
    stepPiece_afterName _ rfl, if_neg (by simp [isSeparatorPiece]), if_pos rfl]

/-- What one more token after a name makes of it, unless it goes on with the name or is assigned. -/
theorem stepPiece_after {d : Draft} (hd : d.stage = .afterName) {p : Piece} (hpoint : p ≠ mark ".")
    (hcolon : p ≠ mark ":") (hassign : p ≠ mark "=")
    (hword : p.1 = .word → isOpenName d.name = false) :
    Language.lua.stepPiece (.reading d) p =
      if p = mark "," ∨ d.isLocal = true ∧ isOpenName d.name = false then .finished d .variable
      else .failed := by
  have hends : ¬ (p.1 = .word ∧ isOpenName d.name = true ∨
      isSeparatorPiece p = true ∧ isOpenName d.name = false) := by
    rintro (⟨hkind, hopen⟩ | ⟨hseparator, -⟩)
    · rw [hword hkind] at hopen
      cases hopen
    · exact (of_decide_eq_true hseparator).elim hpoint hcolon
  rw [stepPiece_afterName _ hd, if_neg hends, if_neg hassign]

/-- A name without `local` is no declaration on its own. Reading goes on only at a word after a name
    that ends with a separator. -/
theorem readPieces_other (hlocal : isLocal = false) {p : Piece} (hpoint : p ≠ mark ".")
    (hcolon : p ≠ mark ":") (hassign : p ≠ mark "=") (hcomma : p ≠ mark ",") :
    (Language.lua.readPieces .start (localPart isLocal ++ n.pieces ++ [p])).result = none ∧
      ((p.1 = .word → isOpenName n.text = false) →
        Language.lua.readPieces .start (localPart isLocal ++ n.pieces ++ [p]) = .failed) := by
  subst hlocal
  rw [Language.readPieces_append, n.readPieces_first]
  obtain hread | hread := readPieces_members_or_failed
    (d := { isLocal := false, stage := .afterName, name := n.first }) n.isMember_members rfl rfl
  · rw [hread, Language.readPieces_cons, Language.readPieces_nil]
    by_cases hword : p.1 = .word → isOpenName n.text = false
    · rw [stepPiece_after rfl hpoint hcolon hassign hword, if_neg (not_or.mpr ⟨hcomma, by simp⟩)]
      exact ⟨rfl, fun _ => rfl⟩
    · obtain ⟨hkind, hopen⟩ := Classical.not_imp.mp hword
      rw [stepPiece_afterName _ rfl, if_pos (.inl ⟨hkind, eq_true_of_ne_false hopen⟩)]
      exact ⟨by simp [Progress.result], fun h => absurd h hword⟩
  · rw [hread, Progress.failed, Language.readPieces_done]
    exact ⟨rfl, fun _ => rfl⟩

/-- Every form of a declaration is read as what it declares. -/
theorem readsName (isLocal : Bool) (n : WordName) : ReadsName isLocal n where
  function params hparams := readAs_function hparams
  assigned_function hn params hparams := by
    apply ReadAs.of_readPieces
    rw [readPieces_assigned hn, Language.readPieces_cons, stepPiece_afterAssign _ rfl, if_pos rfl,
      paramList, Language.readPieces_cons, stepPiece_functionKeyword _ rfl, if_pos rfl,
      readPieces_written_params hparams rfl]
    rfl
  assigned_table hn := by
    apply ReadAs.of_readPieces
    rw [readPieces_assigned hn, Language.readPieces_cons, stepPiece_afterAssign _ rfl,
      if_neg (by decide), if_pos rfl]
    rfl
  assigned_value hn p hfunction hbrace := by
    apply ReadAs.of_readPieces
    rw [readPieces_assigned hn, Language.readPieces_cons, stepPiece_afterAssign _ rfl,
      if_neg hfunction, if_neg hbrace]
    rfl
  comma hn := by
    apply ReadAs.of_readPieces
    rw [Language.readPieces_append, n.readPieces_start hn, Language.readPieces_cons,
      stepPiece_afterName _ rfl, if_neg (by simp [isSeparatorPiece]), if_neg (by decide),
      if_pos (.inl rfl)]
    rfl
  local_end hn hlocal ts hts := by
    subst hlocal
    rw [Language.readAll_eq_readPieces, hts, n.readPieces_start hn]
    rfl
  local_other hn hclosed hlocal p hpoint hcolon hassign := by
    apply ReadAs.of_readPieces
    rw [Language.readPieces_append, n.readPieces_start hn, Language.readPieces_cons,
      stepPiece_after rfl hpoint hcolon hassign fun _ => hclosed, if_pos (.inr ⟨hlocal, hclosed⟩)]
    rfl
  other hlocal p hpoint hcolon hassign hcomma ts hts := by
    rw [Language.readAll_eq_readPieces, hts]
    exact readPieces_other hlocal hpoint hcolon hassign hcomma

end Complete

/-- The tokens of a declaration in the order they are read. -/
structure Parts where
  /-- How many times `local` is written. -/
  locals : Nat
  /-- Whether `function` is written before the name. -/
  isFunction : Bool
  name : List Piece
  rest : List Piece

/-- All of the tokens. -/
def Parts.pieces (parts : Parts) : List Piece :=
  List.replicate parts.locals (word "local") ++
    ((if parts.isFunction then [word "function"] else []) ++ (parts.name ++ parts.rest))

/-- If a function is declared, its parameters are those between the parentheses that open after the
    tokens `before`. -/
def HasParams (before rest : List Piece) (shape : Declaration.Shape) : Prop :=
  ∀ params, shape = .function params → ∃ inner more,
    rest = before ++ mark "(" :: (inner ++ mark ")" :: more) ∧ mark ")" ∉ inner ∧
      params = paramTexts inner

/-- A declaration is spelled out by its tokens: the name is made up of words and separators right
    after the keywords, and the parameters are written right after the name, or after an assigned
    `function`. -/
structure Parts.Spell (parts : Parts) (d : Declaration) : Prop where
  name_eq : d.name = spelling parts.name
  name_ne_nil : parts.name ≠ []
  isNamePart_name : ∀ p ∈ parts.name, isNamePart p = true
  /-- No keyword is left for the name to start with. -/
  startsName : parts.isFunction = false →
    ∃ w, parts.name.head? = some (word w) ∧ startsName w = true
  isLocal_eq : d.isLocal = decide (0 < parts.locals)
  params : HasParams (if parts.isFunction then [] else [mark "=", word "function"]) parts.rest
    d.shape

section Sound

variable {d : Draft} {pieces : List Piece} {decl : Declaration}

theorem HasParams.cons {before rest : List Piece} {shape : Declaration.Shape} (p : Piece)
    (h : HasParams before rest shape) : HasParams (p :: before) (p :: rest) shape := by
  intro params hshape
  obtain ⟨inner, more, rfl, hinner, hparams⟩ := h params hshape
  exact ⟨inner, more, rfl, hinner, hparams⟩

theorem hasParams_of_ne_function {shape : Declaration.Shape}
    (h : ∀ params, shape ≠ .function params)
    (before rest : List Piece) : HasParams before rest shape :=
  fun params hshape => absurd hshape (h params)

/-- A declaration that was read from an opening parenthesis on has the parameters up to the closing
    one. -/
theorem result_opening (hd : d.stage = .params) (hempty : d.params = [])
    (h : (Language.lua.readPieces (.reading d) pieces).result = some decl) :
    decl.name = d.name ∧ decl.isLocal = d.isLocal ∧
      HasParams [] (mark "(" :: pieces) decl.shape := by
  by_cases hclosing : mark ")" ∈ pieces
  · obtain ⟨inner, more, rfl, hinner⟩ := List.eq_append_cons_of_mem hclosing
    rw [readPieces_paramList hinner hd, hempty, List.nil_append] at h
    cases h
    refine ⟨rfl, rfl, ?_⟩
    rintro params ⟨⟩
    exact ⟨inner, more, rfl, hinner, rfl⟩
  · rw [readPieces_params hclosing hd] at h
    simp [Progress.result, hd] at h

/-- A declaration that was read from an assigned `function` on has the parameters between the
    parentheses, the first of which has to follow at once. -/
theorem result_functionKeyword (hd : d.stage = .functionKeyword) (hempty : d.params = [])
    (h : (Language.lua.readPieces (.reading d) pieces).result = some decl) :
    decl.name = d.name ∧ decl.isLocal = d.isLocal ∧ HasParams [] pieces decl.shape := by
  cases pieces with
  | nil => simp [Progress.result, hd] at h
  | cons p pieces =>
    rw [Language.readPieces_cons, stepPiece_functionKeyword p hd] at h
    split at h
    · rename_i hopening
      subst hopening
      exact result_opening (d := { d with stage := .params }) rfl hempty h
    · simp [Progress.failed, Progress.result] at h

/-- A declaration that was read from the equals sign on is a function if `function` comes next, and
    has its parameters then. -/
theorem result_afterAssign (hd : d.stage = .afterAssign) (hempty : d.params = [])
    (h : (Language.lua.readPieces (.reading d) pieces).result = some decl) :
    decl.name = d.name ∧ decl.isLocal = d.isLocal ∧
      HasParams [word "function"] pieces decl.shape := by
  cases pieces with
  | nil => simp [Progress.result, hd] at h
  | cons p pieces =>
    rw [Language.readPieces_cons, stepPiece_afterAssign p hd] at h
    split at h
    · rename_i hfunction
      subst hfunction
      obtain ⟨hname, hlocal, hparams⟩ :=
        result_functionKeyword (d := { d with stage := .functionKeyword }) rfl hempty h
      exact ⟨hname, hlocal, hparams.cons _⟩
    · split at h
      · rw [Progress.finished, Language.readPieces_done] at h
        cases h
        exact ⟨rfl, rfl, hasParams_of_ne_function (by simp [Draft.finish]) _ _⟩
      · rw [Progress.finished, Language.readPieces_done] at h
        cases h
        exact ⟨rfl, rfl, hasParams_of_ne_function (by simp [Draft.finish]) _ _⟩

/-- A draft becomes a declaration by tokens that go on with its name and, if it is a function, have
    its parameters after the tokens `before`. -/
def Completes (before : List Piece) (d : Draft) (pieces : List Piece) (decl : Declaration) : Prop :=
  ∃ name rest, pieces = name ++ rest ∧ (∀ p ∈ name, isNamePart p = true) ∧
    decl.name = d.name ++ spelling name ∧ decl.isLocal = d.isLocal ∧
    HasParams before rest decl.shape

theorem completes_nil {before : List Piece} (hname : decl.name = d.name)
    (hlocal : decl.isLocal = d.isLocal) (hparams : HasParams before pieces decl.shape) :
    Completes before d pieces decl :=
  ⟨[], pieces, rfl, by simp, by simp [hname, spelling], hlocal, hparams⟩

/-- A word or separator that goes into the name is the next part of its spelling. -/
theorem Completes.cons {before : List Piece} {p : Piece} (hp : isNamePart p = true)
    (h : Completes before { d with name := d.name ++ p.2 } pieces decl) :
    Completes before d (p :: pieces) decl := by
  obtain ⟨name, rest, rfl, hparts, hname, hlocal, hparams⟩ := h
  refine ⟨p :: name, rest, rfl, List.forall_mem_cons.mpr ⟨hp, hparts⟩, ?_, hlocal, hparams⟩
  rw [hname, spelling, spelling, List.flatMap_cons, List.append_assoc]

/-- A declaration that starts with its name is complete where the name ends or is assigned. -/
theorem result_afterName (hd : d.stage = .afterName) (hempty : d.params = [])
    (h : (Language.lua.readPieces (.reading d) pieces).result = some decl) :
    Completes [mark "=", word "function"] d pieces decl := by
  induction pieces generalizing d with
  | nil =>
    rw [Language.readPieces_nil, Progress.result] at h
    split at h
    · cases h
      exact completes_nil rfl rfl (hasParams_of_ne_function (by simp [Draft.finish]) _ _)
    · cases h
  | cons p pieces ih =>
    rw [Language.readPieces_cons, stepPiece_afterName p hd] at h
    split at h
    · rename_i hpart
      have hp : isNamePart p = true :=
        decide_eq_true (hpart.imp (fun hword => hword.1) fun hseparator => hseparator.1)
      exact .cons hp (ih (d := { d with name := d.name ++ p.2 }) hd hempty h)
    · split at h
      · rename_i hassign
        subst hassign
        obtain ⟨hname, hlocal, hparams⟩ :=
          result_afterAssign (d := { d with stage := .afterAssign }) rfl hempty h
        exact completes_nil hname hlocal (hparams.cons _)
      · split at h
        · rw [Progress.finished, Language.readPieces_done] at h
          cases h
          exact completes_nil rfl rfl (hasParams_of_ne_function (by simp [Draft.finish]) _ _)
        · simp [Progress.failed, Progress.result] at h

/-- Behind `function` the name goes up to the parenthesis, and is not empty. -/
theorem result_name (hd : d.stage = .name) (hempty : d.params = [])
    (h : (Language.lua.readPieces (.reading d) pieces).result = some decl) :
    Completes [] d pieces decl ∧ decl.name ≠ [] := by
  induction pieces generalizing d with
  | nil => simp [Progress.result, hd] at h
  | cons p pieces ih =>
    rw [Language.readPieces_cons, stepPiece_name p hd] at h
    split at h
    · rename_i hp
      obtain ⟨hcompletes, hne⟩ := ih (d := { d with name := d.name ++ p.2 }) hd hempty h
      exact ⟨hcompletes.cons hp, hne⟩
    · split at h
      · rename_i hopening
        obtain ⟨rfl, hne⟩ := hopening
        obtain ⟨hname, hlocal, hparams⟩ :=
          result_opening (d := { d with stage := .params }) rfl hempty h
        exact ⟨completes_nil hname hlocal hparams, hname ▸ hne⟩
      · simp [Progress.failed, Progress.result] at h

/-- Repetitions of a token at the start of a list can be set apart. -/
theorem exists_replicate_append (a : Piece) (pieces : List Piece) :
    ∃ n rest, pieces = List.replicate n a ++ rest ∧ rest.head? ≠ some a := by
  induction pieces with
  | nil => exact ⟨0, [], rfl, by simp⟩
  | cons p pieces ih =>
    by_cases hp : p = a
    · obtain ⟨n, rest, rfl, hrest⟩ := ih
      exact ⟨n + 1, rest, by rw [hp]; rfl, hrest⟩
    · exact ⟨0, p :: pieces, rfl, by simpa using hp⟩

/-- A declaration that is reported is spelled out by the tokens. -/
theorem exists_parts_of_result
    (h : (Language.lua.readPieces .start pieces).result = some decl) :
    ∃ parts : Parts, pieces = parts.pieces ∧ parts.Spell decl := by
  obtain ⟨n, rest, rfl, hrest⟩ := exists_replicate_append (word "local") pieces
  rw [Language.readPieces_append, Progress.start, readPieces_locals, Bool.false_or] at h
  cases rest with
  | nil => simp [Progress.result] at h
  | cons p rest =>
    rw [Language.readPieces_cons, stepPiece_awaiting, if_neg (by simpa using hrest)] at h
    split at h
    · rename_i hfunction
      subst hfunction
      obtain ⟨⟨name, rest, rfl, hparts, hname, hlocal, hparams⟩, hne⟩ := result_name rfl rfl h
      rw [List.nil_append] at hname
      refine ⟨⟨n, true, name, rest⟩, rfl, hname, ?_, hparts, by simp, hlocal, hparams⟩
      rintro rfl
      exact hne hname
    · rename_i hfunction
      split at h
      · rename_i hstart
        obtain ⟨name, rest, rfl, hparts, hname, hlocal, hparams⟩ := result_afterName rfl rfl h
        obtain ⟨kind, w⟩ := p
        obtain ⟨rfl, hkeyword⟩ := hstart
        refine ⟨⟨n, false, word w :: name, rest⟩, rfl, hname, by simp,
          List.forall_mem_cons.mpr ⟨rfl, hparts⟩, ?_, hlocal, hparams⟩
        intro _
        refine ⟨w, rfl, decide_eq_true ⟨?_, ?_, hkeyword⟩⟩
        · simpa using hrest
        · simpa using hfunction
      · simp [Progress.failed, Progress.result] at h

theorem spelling_ne_nil {name : List Piece} (hname : name ≠ []) (htexts : ∀ p ∈ name, p.2 ≠ []) :
    spelling name ≠ [] := by
  obtain ⟨p, more, rfl⟩ := List.exists_cons_of_ne_nil hname
  rw [spelling, List.flatMap_cons]
  exact List.append_ne_nil_of_left_ne_nil (htexts p List.mem_cons_self) _

end Sound

/-- A declaration is read as it is written, and what is read as a declaration is written so. Tokens
    have some text; then a name that is reported is not empty. -/
theorem readAll_complete_and_sound :
    (∀ isLocal n, ReadsName isLocal n) ∧
      ∀ (ts : List Token) (decl : Declaration),
        (Language.lua.readAll .start ts).result = some decl →
          (∃ parts : Parts, Token.code ts = parts.pieces ∧ parts.Spell decl) ∧
            ((∀ t ∈ ts, t.text ≠ []) → decl.name ≠ []) := by
  refine ⟨readsName, ?_⟩
  intro ts decl h
  rw [Language.readAll_eq_readPieces] at h
  obtain ⟨parts, hparts, hspell⟩ := exists_parts_of_result h
  refine ⟨⟨parts, hparts, hspell⟩, ?_⟩
  intro htexts
  rw [hspell.name_eq]
  refine spelling_ne_nil hspell.name_ne_nil ?_
  intro p hp
  have hcode : p ∈ Token.code ts := by
    rw [hparts, Parts.pieces]
    exact List.mem_append_right _ (List.mem_append_right _ (List.mem_append_left _ hp))
  obtain ⟨t, ht, rfl⟩ := List.mem_map.mp hcode
  exact htexts t (List.mem_filter.mp ht).1

/-- The name `M.add`. -/
def addName : WordName where
  first := "M"
  members := [('.', "add")]
  startsName_first := by decide
  first_ne_nil := by decide
  isMember_members := by decide

/-- A function that is assigned to a local name. -/
def assignedAdd : Text :=
  "local M.add --[[ sum ]] = function(a, ...) return a end"

theorem readAll_complete_and_sound_add :
    Language.lua.readAll .start ((tokens assignedAdd).take 17) =
        .done (some ⟨"M.add", .function ["a", "..."], true⟩) ∧
      (∃ parts : Parts, Token.code ((tokens assignedAdd).take 17) = parts.pieces ∧
        parts.Spell ⟨"M.add", .function ["a", "..."], true⟩) ∧
      (⟨"M.add", .function ["a", "..."], true⟩ : Declaration).name ≠ [] := by
  have hread : Language.lua.readAll .start ((tokens assignedAdd).take 17) =
      .done (some ⟨"M.add", .function ["a", "..."], true⟩) :=
    (readAll_complete_and_sound.1 true addName).assigned_function (by decide)
      [word "a", mark "..."] (by decide) _ (by decide +kernel)
  obtain ⟨hparts, hname⟩ := readAll_complete_and_sound.2 _ _ (congrArg Progress.result hread)
  exact ⟨hread, hparts, hname (by decide +kernel)⟩

/-- The number `1.` as a name of one word. -/
def onePoint : WordName where
  first := "1."
  members := []
  startsName_first := by decide
  first_ne_nil := by decide
  isMember_members := by decide

/-- The number `1.` as the first word of a name, before a point and another word. -/
def onePointMember : WordName where
  first := "1."
  members := [('.', "x")]
  startsName_first := by decide
  first_ne_nil := by decide
  isMember_members := by decide

/-- After a word that ends with a point the next word is taken for a part of the name, and no
    separator can follow. -/
theorem readAll_open_words_fail :
    (Token.code (tokens "local 1. x") = localPart true ++ onePoint.pieces ++ [word "x"] ∧
      ¬ ReadAs (localPart true ++ onePoint.pieces ++ [word "x"])
        (.done (some ⟨onePoint.text, .variable, true⟩))) ∧
    Token.code (tokens "1. . x = \x7b") =
        localPart false ++ onePointMember.pieces ++ [mark "=", mark "\x7b"] ∧
      ¬ ReadAs (localPart false ++ onePointMember.pieces ++ [mark "=", mark "\x7b"])
        (.done (some ⟨onePointMember.text, .table, false⟩)) := by
  have hword : Token.code (tokens "local 1. x") =
      localPart true ++ onePoint.pieces ++ [word "x"] := by decide +kernel
  have hpoint : Token.code (tokens "1. . x = \x7b") =
      localPart false ++ onePointMember.pieces ++ [mark "=", mark "\x7b"] := by decide +kernel
  refine ⟨⟨hword, ?_⟩, hpoint, ?_⟩
  · intro hread
    exact absurd (hread _ hword) (by decide +kernel)
  · intro hread
    exact absurd (hread _ hpoint) (by decide +kernel)

end SourceDoc.Lua
