import Mathlib.Data.List.Basic
import SourceDoc.Proofs.Language.Reading

namespace SourceDoc.C

open Declaration (Progress Draft)
open Token (Piece word mark)

/-- Tokens close the `depth` parentheses that are open before them and all that they open
    themselves, and no others. -/
structure Closes (depth : Nat) (pieces : List Piece) : Prop where
  count_le : ∀ before, before <+: pieces →
    before.count (mark ")") ≤ depth + before.count (mark "(")
  count_eq : pieces.count (mark ")") = depth + pieces.count (mark "(")

/-- The parentheses among tokens are balanced. -/
abbrev Balanced (pieces : List Piece) : Prop :=
  Closes 0 pieces

/-- Number of parentheses open after a token. -/
def depthAfter (depth : Nat) (p : Piece) : Nat :=
  if p = mark "(" then depth + 1 else if p = mark ")" then depth - 1 else depth

/-- Tokens with the number of parentheses that are open where they stand. -/
def withDepth (depth : Nat) : List Piece → List (Piece × Nat)
  | [] => []
  | p :: pieces => (p, depth) :: withDepth (depthAfter depth p) pieces

/-- Whether a token is a comma outside parentheses. -/
def isTopComma (q : Piece × Nat) : Bool :=
  q = (mark ",", 0)

/-- The name a token can give to a parameter: words can, and `...` outside parentheses. -/
def name? (q : Piece × Nat) : Option Text :=
  if q.1.1 = .word ∨ q = (mark "...", 0) then some q.1.2 else none

/-- The tokens between the commas outside parentheses. -/
def topParts (pieces : List Piece) : List (List (Piece × Nat)) :=
  (withDepth 0 pieces).splitOnP isTopComma

/-- The name of a parameter of which the given names were read: the last one, unless `void` is the
    only one. -/
def lastName? (names : List Text) : Option Text :=
  if names = [("void" : Text)] then none else names.getLast?

/-- The parameters in a parameter list. -/
def paramsOf (pieces : List Piece) : List Text :=
  (topParts pieces).filterMap fun part => lastName? (part.filterMap name?)

section Depth

variable {depth : Nat} {p : Piece} {pieces : List Piece}

theorem closes_nil_iff : Closes depth [] ↔ depth = 0 := by
  constructor
  · intro h
    simpa using h.count_eq.symm
  · rintro rfl
    exact ⟨fun before hbefore => by simp [List.prefix_nil.mp hbefore], rfl⟩

/-- It is the same to count the first token and to change the depth by it. -/
theorem count_cons_add_depthAfter (hp : p = mark ")" → 0 < depth) (ts : List Piece) :
    (p :: ts).count (mark ")") + depthAfter depth p + ts.count (mark "(") =
      ts.count (mark ")") + depth + (p :: ts).count (mark "(") := by
  have hne : (mark ")" : Piece) ≠ mark "(" := by decide
  rw [depthAfter]
  split_ifs with hopening hclosing
  · rw [hopening, List.count_cons_self, List.count_cons_of_ne hne.symm]
    omega
  · have hdepth := hp hclosing
    rw [hclosing, List.count_cons_self, List.count_cons_of_ne hne]
    omega
  · rw [List.count_cons_of_ne hclosing, List.count_cons_of_ne hopening]

/-- A token may close only what is open before it. By this the condition follows the recursion of
    the tokens. -/
theorem closes_cons_iff :
    Closes depth (p :: pieces) ↔
      (p = mark ")" → 0 < depth) ∧ Closes (depthAfter depth p) pieces := by
  constructor
  · intro h
    have hp : p = mark ")" → 0 < depth := by
      rintro rfl
      have hfirst := h.count_le [mark ")"] (List.prefix_append _ pieces)
      rw [List.count_singleton_self, List.count_cons_of_ne (by decide), List.count_nil] at hfirst
      omega
    refine ⟨hp, fun before hbefore => ?_, ?_⟩
    · have hle := h.count_le (p :: before) (List.prefix_cons_iff.mpr (.inr ⟨before, rfl, hbefore⟩))
      have hshift := count_cons_add_depthAfter hp before
      omega
    · have heq := h.count_eq
      have hshift := count_cons_add_depthAfter hp pieces
      omega
  · rintro ⟨hp, h⟩
    refine ⟨fun before hbefore => ?_, ?_⟩
    · obtain rfl | ⟨before, rfl, hrest⟩ := List.prefix_cons_iff.mp hbefore
      · exact Nat.zero_le _
      · have hle := h.count_le before hrest
        have hshift := count_cons_add_depthAfter hp before
        omega
    · have heq := h.count_eq
      have hshift := count_cons_add_depthAfter hp pieces
      omega

/-- Decided along that recursion, so that concrete lists of tokens can be checked. -/
instance decidableCloses : ∀ depth pieces, Decidable (Closes depth pieces)
  | _, [] => decidable_of_iff _ closes_nil_iff.symm
  | depth, p :: pieces =>
    have := decidableCloses (depthAfter depth p) pieces
    decidable_of_iff _ closes_cons_iff.symm

end Depth

section Params

variable {names : List Text} {depth : Nat} {p : Piece} {pieces : List Piece}

/-- The parameters in the rest of a parameter list, of whose first parameter the given names were
    read before. -/
def paramsFrom (names : List Text) (depth : Nat) (pieces : List Piece) : List Text :=
  ((((withDepth depth pieces).splitOnP isTopComma).map (List.filterMap name?)).modifyHead
    (names ++ ·)).filterMap lastName?

theorem paramsOf_eq_paramsFrom (pieces : List Piece) :
    paramsOf pieces = paramsFrom [] 0 pieces := by
  have hid : (([] : List Text) ++ ·) = id := rfl
  rw [paramsOf, paramsFrom, hid, List.modifyHead_id, id, List.filterMap_map, topParts]
  rfl

theorem paramsFrom_nil : paramsFrom names depth [] = (lastName? names).toList := by
  cases h : lastName? names <;> simp [paramsFrom, withDepth, h]

theorem paramsFrom_comma :
    paramsFrom names 0 (mark "," :: pieces) =
      (lastName? names).toList ++ paramsFrom [] 0 pieces := by
  have hid : (([] : List Text) ++ ·) = id := rfl
  have hdepth : depthAfter 0 (mark ",") = 0 := by decide
  have hcomma : isTopComma (mark ",", 0) = true := by decide
  rw [paramsFrom, paramsFrom, withDepth, hdepth, List.splitOnP_cons_eq_if_modifyHead, if_pos hcomma,
    List.map_cons, List.modifyHead_cons, List.filterMap_nil, List.append_nil, List.filterMap_cons,
    hid, List.modifyHead_id, id]
  cases lastName? names <;> rfl

/-- Any other token adds the name it can give to the current parameter. -/
theorem paramsFrom_cons (hp : isTopComma (p, depth) = false) :
    paramsFrom names depth (p :: pieces) =
      paramsFrom (names ++ (name? (p, depth)).toList) (depthAfter depth p) pieces := by
  obtain ⟨part, parts, hparts⟩ := List.exists_cons_of_ne_nil
    (List.splitOnP_ne_nil isTopComma (withDepth (depthAfter depth p) pieces))
  rw [paramsFrom, paramsFrom, withDepth, List.splitOnP_cons_eq_if_modifyHead, hp, hparts]
  cases hname : name? (p, depth) <;> simp [hname]

end Params

/-- What is kept of the names read in a parameter: those before a `...` are forgotten. -/
def Keeps (names segment : List Text) : Prop :=
  ∃ before, names = before ++ segment ∧ (before = [] ∨ segment.head? = some ("..." : Text))

namespace Keeps

variable {names segment : List Text}

theorem refl (names : List Text) : Keeps names names :=
  ⟨[], rfl, .inl rfl⟩

/-- Dots outside parentheses stand for all names before them. -/
theorem dots (names : List Text) : Keeps (names ++ [("..." : Text)]) [("..." : Text)] :=
  ⟨names, rfl, .inr rfl⟩

theorem append (h : Keeps names segment) (more : List Text) :
    Keeps (names ++ more) (segment ++ more) := by
  obtain ⟨before, rfl, hbefore⟩ := h
  refine ⟨before, List.append_assoc .., hbefore.imp_right fun hhead => ?_⟩
  rw [List.head?_append, hhead, Option.some_or]

/-- The name of the parameter is among what is kept. -/
theorem lastName?_eq (h : Keeps names segment) : lastName? names = lastName? segment := by
  obtain ⟨before, rfl, rfl | hhead⟩ := h
  · rfl
  · obtain ⟨rest, rfl⟩ := List.head?_eq_some_iff.mp hhead
    have hvoid : ∀ texts : List Text, ("..." : Text) ∈ texts → texts ≠ [("void" : Text)] := by
      rintro texts hdots rfl
      exact absurd hdots (by decide)
    rw [lastName?, lastName?, if_neg (hvoid _ (List.mem_append_right _ List.mem_cons_self)),
      if_neg (hvoid _ List.mem_cons_self), List.getLast?_append_cons]

end Keeps

section Steps

variable {d : Draft} {p : Piece}

/-- A parameter ends as its last name, or as none if that is `void`. -/
theorem flushParam_eq (d : Draft) :
    flushParam d =
      { d with segment := [], params := d.params ++ (lastName? d.segment).toList } := by
  rw [flushParam, lastName?]
  split
  · rename_i hlast
    have hempty : d.segment = [] := List.getLast?_eq_none_iff.mp hlast
    have hvoid : d.segment ≠ [("void" : Text)] := by simp [hempty]
    rw [if_neg hvoid, hlast, Option.toList_none, List.append_nil, ← hempty]
  · rename_i last hlast
    split_ifs <;> simp [hlast]

theorem stepPiece_reading_params (hd : d.stage = .params) (p : Piece) :
    Language.c.stepPiece (.reading d) p = stepParams d ⟨p.1, p.2, 1⟩ :=
  if_pos hd

theorem stepPiece_reading_words (hd : d.stage = .afterName) (p : Piece) :
    Language.c.stepPiece (.reading d) p = stepWords d ⟨p.1, p.2, 1⟩ :=
  if_neg (by rw [hd]; decide)

/-- A comma outside parentheses ends a parameter. -/
theorem stepPiece_params_comma (hd : d.stage = .params) (hdepth : d.depth = 0) :
    Language.c.stepPiece (.reading d) (mark ",") =
      .reading { d with segment := [], params := d.params ++ (lastName? d.segment).toList } := by
  rw [← flushParam_eq, stepPiece_reading_params hd, stepParams, hdepth]
  rfl

/-- Any other token in a parameter list adds the name it can give to the parameter being read;
    `...` outside parentheses takes the place of those read before it. -/
theorem stepPiece_params (hd : d.stage = .params) (hclosing : p = mark ")" → 0 < d.depth)
    (hcomma : isTopComma (p, d.depth) = false) :
    Language.c.stepPiece (.reading d) p =
      .reading { d with
        depth := depthAfter d.depth p
        segment :=
          if p = mark "..." ∧ d.depth = 0 then [("..." : Text)]
          else d.segment ++ (name? (p, d.depth)).toList } := by
  rw [stepPiece_reading_params hd]
  have hcomma' : ¬ (p = mark "," ∧ d.depth = 0) := by
    rintro ⟨rfl, hdepth⟩
    rw [hdepth] at hcomma
    exact absurd hcomma (by decide)
  simp only [stepParams, Token.isOther_eq_decide, depthAfter, name?, beq_iff_eq, decide_eq_true_eq,
    Bool.and_eq_true, Prod.mk.injEq p]
  -- the cases in the order in which the step asks for them
  by_cases hword : p.1 = .word
  · have hmark : ∀ s, p ≠ mark s := by
      rintro s rfl
      cases hword
    simp [hword, hmark]
  by_cases hopening : p = mark "("
  · subst hopening
    simp
  by_cases hclose : p = mark ")"
  · subst hclose
    simp [hclosing rfl]
  rw [if_neg hword, if_neg hopening, if_neg hclose, if_neg hcomma', if_neg hopening, if_neg hclose]
  split_ifs with hdots hname
  · rw [hdots.1]
  · exact absurd hname (not_or.mpr ⟨hword, hdots⟩)
  · simp

/-- The closing parenthesis outside all others ends the last parameter and the prototype. -/
theorem stepPiece_params_closing (hd : d.stage = .params) (hdepth : d.depth = 0) :
    Language.c.stepPiece (.reading d) (mark ")") =
      .finished d (.function (d.params ++ (lastName? d.segment).toList)) := by
  have hflush : (flushParam d).params = d.params ++ (lastName? d.segment).toList := by
    rw [flushParam_eq]
  rw [stepPiece_reading_params hd, stepParams, hdepth, ← hflush]
  rfl

/-- Whether a token can stand in the type and the name of a function. -/
def isTypePiece (p : Piece) : Bool :=
  p.1 = .word ∨ p.1 = .other ∧ p.2 ∈ typeMarks

/-- The last word before the parenthesis is the name, whatever was taken for it before. -/
theorem stepPiece_word (hd : d.stage = .afterName) (text : Text) :
    ∃ leading, Language.c.stepPiece (.reading d) (word text) =
      .reading { d with leading, name := text } := by
  rw [stepPiece_reading_words hd]
  exact ⟨_, rfl⟩

theorem stepPiece_typePiece (hd : d.stage = .afterName) (hp : isTypePiece p = true) :
    ∃ leading name, Language.c.stepPiece (.reading d) p = .reading { d with leading, name } := by
  obtain ⟨kind, text⟩ := p
  obtain rfl | ⟨rfl, hmarks⟩ := of_decide_eq_true hp
  · obtain ⟨leading, hstep⟩ := stepPiece_word hd text
    exact ⟨leading, text, hstep⟩
  · rw [stepPiece_reading_words hd]
    exact ⟨d.leading, d.name, if_pos (List.contains_iff_mem.mpr hmarks)⟩

/-- A parenthesis behind a name that is no keyword of an aggregate opens the parameter list. -/
theorem stepPiece_opening (hd : d.stage = .afterName) (hname : d.name ≠ [])
    (haggregate : isAggregate d.name = false) :
    Language.c.stepPiece (.reading d) (mark "(") = .reading { d with stage := .params } := by
  rw [stepPiece_reading_words hd]
  have hopening : typeMarks.contains ("(" : Text) = false := by decide
  have hread : (d.name.isEmpty || isAggregate d.name) = false := by
    rw [haggregate, List.isEmpty_eq_false_iff.mpr hname, Bool.or_false]
  simp only [stepWords, hopening, hread, Bool.false_eq_true, if_false, if_true]

end Steps

section Runs

variable {d : Draft} {pieces : List Piece}

/-- Qualifiers in front of a prototype are passed over; of them `static` makes it local. -/
theorem readPieces_leading {words : List Text} (hwords : ∀ w ∈ words, w = "static" ∨ w ∈ qualifiers)
    (isLocal : Bool) :
    Language.c.readPieces (.awaiting isLocal) (words.map word) =
      .awaiting (isLocal || decide (("static" : Text) ∈ words)) := by
  induction words generalizing isLocal with
  | nil => simp
  | cons w words ih =>
    obtain ⟨hw, hwords⟩ := List.forall_mem_cons.mp hwords
    have hstep : Language.c.stepPiece (.awaiting isLocal) (word w) =
        .awaiting (isLocal || decide (("static" : Text) = w)) := by
      obtain rfl | hqualifier := hw
      · simp [Language.stepPiece, Language.step, step, stepAwaiting]
      · have hstatic : ("static" : Text) ≠ w := by
          rintro rfl
          exact absurd hqualifier (by decide)
        simp only [Language.stepPiece, Language.step, step, stepAwaiting, if_neg hstatic.symm,
          if_pos (List.contains_iff_mem.mpr hqualifier), decide_eq_false hstatic, Bool.or_false]
    rw [List.map_cons, Language.readPieces_cons, hstep, ih hwords]
    simp only [List.mem_cons, Bool.or_assoc, Bool.decide_or]

/-- However long the type is, reading stays in front of the parameter list. -/
theorem readPieces_words (hd : d.stage = .afterName)
    (hpieces : ∀ p ∈ pieces, isTypePiece p = true) :
    ∃ leading name,
      Language.c.readPieces (.reading d) pieces = .reading { d with leading, name } := by
  induction pieces generalizing d with
  | nil => exact ⟨d.leading, d.name, rfl⟩
  | cons p pieces ih =>
    obtain ⟨hp, hpieces⟩ := List.forall_mem_cons.mp hpieces
    obtain ⟨leading, name, hstep⟩ := stepPiece_typePiece hd hp
    rw [Language.readPieces_cons, hstep]
    exact ih (d := { d with leading, name }) hd hpieces

/-- A parameter list is read up to the parenthesis that closes it. The names read in the current
    parameter carry the induction; of these only what is after the last `...` is in the state. -/
theorem readPieces_params {names : List Text} (hclosed : Closes d.depth pieces)
    (hnames : Keeps names d.segment) (hd : d.stage = .params) :
    ∃ d', Language.c.readPieces (.reading d) pieces = .reading d' ∧
      Language.c.stepPiece (.reading d') (mark ")") =
        .finished d (.function (d.params ++ paramsFrom names d.depth pieces)) := by
  induction pieces generalizing d names with
  | nil =>
    refine ⟨d, rfl, ?_⟩
    rw [stepPiece_params_closing hd (closes_nil_iff.mp hclosed), paramsFrom_nil,
      hnames.lastName?_eq]
  | cons p pieces ih =>
    obtain ⟨hclosing, hrest⟩ := closes_cons_iff.mp hclosed
    rw [Language.readPieces_cons]
    by_cases hcomma : isTopComma (p, d.depth) = true
    · -- the comma ends the parameter, so that no names are read of the next one
      obtain ⟨rfl, hdepth⟩ := Prod.mk.inj (of_decide_eq_true hcomma)
      have hparams : d.params ++ paramsFrom names d.depth (mark "," :: pieces) =
          (d.params ++ (lastName? d.segment).toList) ++ paramsFrom [] d.depth pieces := by
        rw [hdepth, paramsFrom_comma, hnames.lastName?_eq, List.append_assoc]
      rw [stepPiece_params_comma hd hdepth, hparams]
      exact ih hrest (.refl []) hd
    · rw [Bool.not_eq_true] at hcomma
      rw [stepPiece_params hd hclosing hcomma, paramsFrom_cons hcomma]
      refine ih hrest ?_ hd
      show Keeps _ (if _ then _ else _)
      split_ifs with hdots
      · -- the state forgets the names before `...`, the reference keeps them all
        obtain ⟨rfl, hdepth⟩ := hdots
        rw [hdepth]
        exact .dots names
      · exact hnames.append _

end Runs

/-- What stands before the parameter list of a prototype. -/
structure Head where
  /-- `static` and the other qualifiers before the type. -/
  leading : List Text
  /-- First word after them. -/
  first : Text
  /-- Rest of the type, and the name. -/
  more : List Piece
  name : Text
  leading_mem : ∀ w ∈ leading, w = "static" ∨ w ∈ qualifiers := by decide
  first_ne : first ≠ "static" := by decide
  first_not_mem : first ∉ qualifiers ++ statements := by decide
  more_mem : ∀ p ∈ more, isTypePiece p = true := by decide
  getLast?_eq : (word first :: more).getLast? = some (word name) := by decide
  name_ne : name ≠ [] := by decide
  name_not_mem : name ∉ aggregates := by decide

namespace Head

variable (h : Head)

/-- The tokens before the parameter list. -/
def pieces : List Piece :=
  h.leading.map word ++ word h.first :: h.more

/-- Whether the function is local to its file. -/
def isLocal : Bool :=
  ("static" : Text) ∈ h.leading

theorem stepPiece_first (isLocal : Bool) :
    Language.c.stepPiece (.awaiting isLocal) (word h.first) =
      .reading { isLocal, stage := .afterName, name := h.first } := by
  obtain ⟨hqualifiers, hstatements⟩ := not_or.mp (List.mem_append.not.mp h.first_not_mem)
  simp only [Language.stepPiece, Language.step, step, stepAwaiting, if_neg h.first_ne,
    List.contains_iff_mem, if_neg hqualifiers, if_neg hstatements]

/-- After the words of the type the last word is the name. -/
theorem readPieces_pieces :
    ∃ leading, Language.c.readPieces .start h.pieces =
      .reading { isLocal := h.isLocal, stage := .afterName, name := h.name, leading } := by
  rw [pieces, Language.readPieces_append, Progress.start, readPieces_leading h.leading_mem,
    Bool.false_or, Language.readPieces_cons, h.stepPiece_first]
  -- only the last word of the type matters: it is the name
  obtain hmore | ⟨before, last, hmore⟩ := List.eq_nil_or_concat h.more
  · have hname : h.first = h.name := by
      simpa [hmore] using h.getLast?_eq
    exact ⟨[], by rw [hmore, hname]; rfl⟩
  · rw [List.concat_eq_append] at hmore
    have hlast : last = word h.name := by
      have hgetLast := h.getLast?_eq
      rw [hmore, ← List.cons_append, List.getLast?_concat] at hgetLast
      exact Option.some.inj hgetLast
    have hbefore : ∀ p ∈ before, isTypePiece p = true := by
      intro p hp
      exact h.more_mem p (hmore ▸ List.mem_append_left _ hp)
    obtain ⟨leading, name, hread⟩ := readPieces_words
      (d := { isLocal := h.isLocal, stage := .afterName, name := h.first }) rfl hbefore
    obtain ⟨leading', hstep⟩ := stepPiece_word
      (d := { isLocal := h.isLocal, stage := .afterName, name, leading }) rfl h.name
    refine ⟨leading', ?_⟩
    rw [hmore, Language.readPieces_append, Language.readPieces_cons, hlast, Language.readPieces_nil]
    exact hread ▸ hstep

/-- Up to the closing parenthesis the prototype is being read, and with it reading ends. -/
theorem readPieces_open {inner : List Piece} (hinner : Balanced inner) :
    ∃ d, Language.c.readPieces .start (h.pieces ++ mark "(" :: inner) = .reading d ∧
      Language.c.stepPiece (.reading d) (mark ")") =
        .done (some ⟨h.name, .function (paramsOf inner), h.isLocal⟩) := by
  obtain ⟨leading, hhead⟩ := h.readPieces_pieces
  have haggregate : isAggregate h.name = false := by
    rw [isAggregate, ← Bool.not_eq_true, List.contains_iff_mem]
    exact h.name_not_mem
  obtain ⟨d, hparams, hclosing⟩ := readPieces_params
    (d := { isLocal := h.isLocal, stage := .params, name := h.name, leading }) hinner (.refl []) rfl
  refine ⟨d, ?_, ?_⟩
  · rw [Language.readPieces_append, hhead, Language.readPieces_cons,
      stepPiece_opening rfl h.name_ne haggregate, hparams]
  · rw [paramsOf_eq_paramsFrom]
    exact hclosing

end Head

/-- **A prototype is read by its top-level commas**: reading is over at the parenthesis that closes
    the parameter list and not before, and gives a function with the last word before the list as
    its name. Each part between commas outside parentheses is a parameter, named by its last word or
    by a `...` outside parentheses after that; parts without either, and those of which `void` is
    the only name, are none. -/
theorem readAll_prototype (h : Head) {inner : List Piece} (hinner : Balanced inner)
    {ts : List Token} {t : Token} (hts : Token.code ts = h.pieces ++ mark "(" :: inner)
    (ht : t.piece = mark ")") :
    (∀ before, before <+: ts → (Language.c.readAll .start before).isDone = false) ∧
      Language.c.readAll .start (ts ++ [t]) =
        .done (some ⟨h.name, .function (paramsOf inner), h.isLocal⟩) := by
  obtain ⟨d, hopen, hclosing⟩ := h.readPieces_open hinner
  have hread : Language.c.readAll .start ts = .reading d := by
    rw [Language.readAll_eq_readPieces, hts, hopen]
  constructor
  · intro before hbefore
    exact Language.c.isDone_readAll_before hbefore (by rw [hread]; rfl)
  · have hcode : t.isCode = true := by
      rw [Token.isCode, show t.kind = .other from congrArg Prod.fst ht]
      rfl
    rw [Language.readAll_append, hread, Language.readAll_eq_readPieces,
      Token.code_cons_of_isCode hcode, ht]
    exact hclosing

theorem readAll_prototype_nested :
    (∀ before, before <+: tokens "static int each(void (*f)(int a, int b), int n, ..." →
        (Language.c.readAll .start before).isDone = false) ∧
      Language.c.readAll .start
          (tokens "static int each(void (*f)(int a, int b), int n, ..." ++ [⟨.other, ")", 1⟩]) =
        .done (some ⟨"each", .function ["b", "n", "..."], true⟩) := by
  let h : Head := { leading := ["static"], first := "int", more := [word "each"], name := "each" }
  let inner : List Piece :=
    [word "void", mark "(", mark "*", word "f", mark ")", mark "(", word "int", word "a", mark ",",
      word "int", word "b", mark ")", mark ",", word "int", word "n", mark ",", mark "..."]
  have hparams : paramsOf inner = [("b" : Text), ("n" : Text), ("..." : Text)] := by decide
  have hinner : Balanced inner := by decide
  rw [← hparams]
  exact readAll_prototype h hinner (by decide +kernel) rfl

/-- The parameters when a part is dropped only if it is nothing but the token `void`. -/
def paramsUnlessVoid (pieces : List Piece) : List Text :=
  (topParts pieces).filterMap fun part =>
    if part = [(word "void", 0)] then none else (part.filterMap name?).getLast?

/-- A part of which `void` is the only word is no parameter either, whatever marks stand in it. -/
theorem readAll_prototype_void_pointer :
    ∃ (h : Head) (inner : List Piece), Balanced inner ∧
      Token.code (tokens "int f(void *)") = h.pieces ++ mark "(" :: inner ++ [mark ")"] ∧
      Language.c.readAll .start (tokens "int f(void *)") ≠
        .done (some ⟨h.name, .function (paramsUnlessVoid inner), h.isLocal⟩) := by
  let h : Head := { leading := [], first := "int", more := [word "f"], name := "f" }
  exact ⟨h, [word "void", mark "*"], by decide, by decide +kernel, by decide +kernel⟩

end SourceDoc.C
