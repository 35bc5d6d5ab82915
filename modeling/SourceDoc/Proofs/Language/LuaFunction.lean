import SourceDoc.Proofs.DocBlock.Opening
import SourceDoc.Proofs.Language.LuaDeclaration
import SourceDoc.Proofs.Text.Lines

namespace SourceDoc

namespace DocBlock

open Declaration (Progress)

variable {lang : Language} {state : Progress} {limit : Nat} {ts : List Token}

/-- Where there are no comments, the search for a declaration is one step per token of code, as long
    as it may read them. -/
theorem searchThrough_eq_readAll (hcomments : ∀ t ∈ ts, t.kind ≠ .comment)
    (hstate : (lang.readAll state ts).isDone = false)
    (hlimit : (ts.filter Token.isCode).length < limit) :
    searchThrough lang state limit ts =
      some (lang.readAll state ts, limit - (ts.filter Token.isCode).length) := by
  induction ts generalizing state limit with
  | nil => rfl
  | cons t ts ih =>
    obtain ⟨ht, hts⟩ := List.forall_mem_cons.mp hcomments
    rcases t.space_or_comment_or_code with hspace | hcomment | hcode
    · have hskip : t.isCode = false := by simp [Token.isCode, hspace]
      rw [lang.readAll_cons_of_not_isCode hskip] at hstate ⊢
      rw [List.filter_cons_of_neg (by simp [hskip])] at hlimit ⊢
      rw [searchThrough_space hspace, ih hts hstate hlimit]
    · exact absurd hcomment ht
    · rw [lang.readAll_cons_of_isCode hcode] at hstate ⊢
      rw [List.filter_cons_of_pos hcode, List.length_cons] at hlimit ⊢
      -- a search that were over here would be over at the end
      have hgoes : (lang.step state t).isDone = false :=
        lang.isDone_readAll_before List.nil_prefix hstate
      have hmore : ¬ ((lang.step state t).isDone || decide (limit ≤ 1)) = true := by
        simp only [hgoes, Bool.false_or, decide_eq_true_eq]
        omega
      rw [searchThrough_code hcode, if_neg hmore, ih hts hstate (by omega), Nat.sub_sub,
        Nat.add_comm 1]

/-- The search stops at the token that ends a declaration. -/
theorem lookahead_of_ending {t : Token} {declaration : Option Declaration}
    (hcomments : ∀ t ∈ ts, t.kind ≠ .comment) (hstate : (lang.readAll state ts).isDone = false)
    (hlimit : (ts.filter Token.isCode).length < limit) (ht : t.isCode = true)
    (hend : lang.step (lang.readAll state ts) t = .done declaration) (more : List Token) :
    lookahead lang state limit (ts ++ t :: more) = (.done declaration, more) := by
  rw [lookahead_append_of_through (searchThrough_eq_readAll hcomments hstate hlimit),
    lookahead_code _ _ _ _ ht, hend]
  rfl

end DocBlock

namespace Lua

open Lexeme (Reads)
open Token (word mark)

/-- A name of identifiers joined by points and colons. -/
structure DottedName where
  first : Text
  /-- The further identifiers, each with the separator before it. -/
  members : List (Char × Text)
  isIdent_first : Text.isIdent first = true
  isMember_members : ∀ m ∈ members, (m.1 = '.' ∨ m.1 = ':') ∧ Text.isIdent m.2 = true

/-- The name as written. -/
def DottedName.text (n : DottedName) : Text :=
  n.first ++ membersText n.members

/-- What declares a function: its name and the names of its parameters. -/
structure FunctionHead where
  isLocal : Bool
  name : DottedName
  params : List Text
  isIdent_params : ∀ p ∈ params, Text.isIdent p = true

/-- The declaration as written. -/
def FunctionHead.text (f : FunctionHead) : Text :=
  (if f.isLocal then "local " else "") ++ ("function " ++ (f.name.text ++
    '(' :: (Text.join ", " f.params ++ [')'])))

section Reading

variable {rest : Text}

/-- Neither a separator nor the word behind it is taken together with what surrounds it. -/
theorem reads_members {members : List (Char × Text)}
    (hmembers : ∀ m ∈ members, (m.1 = '.' ∨ m.1 = ':') ∧ Text.isIdent m.2 = true)
    (hrest : ∀ c ∈ rest.head?, Text.isIdentChar c = false) :
    Reads lexeme (membersText members ++ rest) (memberPieces members) rest ∧
      ∀ c ∈ (membersText members ++ rest).head?, Text.isIdentChar c = false := by
  induction members with
  | nil => exact ⟨.done rest, hrest⟩
  | cons m members ih =>
    obtain ⟨⟨hseparator, hident⟩, hmembers⟩ := List.forall_mem_cons.mp hmembers
    obtain ⟨hreads, hnext⟩ := ih hmembers
    have hsplit : membersText (m :: members) ++ rest =
        m.1 :: (m.2 ++ (membersText members ++ rest)) := by simp [membersText]
    rw [hsplit]
    have hword := (reads_word hident hnext).append hreads
    refine ⟨(reads_separator hseparator hident).append hword, ?_⟩
    intro c hc
    cases hc
    rcases hseparator with hpoint | hcolon
    · rw [hpoint]
      decide
    · rw [hcolon]
      decide

/-- The tokens of a name. -/
def DottedName.pieces (n : DottedName) : List Token.Piece :=
  (.word, n.first) :: memberPieces n.members

/-- A name is cut into its words and separators, up to what can not continue it. -/
theorem DottedName.reads (n : DottedName) (hrest : ∀ c ∈ rest.head?, Text.isIdentChar c = false) :
    Reads lexeme (n.text ++ rest) n.pieces rest := by
  obtain ⟨hmembers, hnext⟩ := reads_members n.isMember_members hrest
  rw [text, List.append_assoc]
  exact (reads_word n.isIdent_first hnext).append hmembers

/-- The tokens of parameters with commas between them. -/
def paramPieces : List Text → List Token.Piece
  | [] => []
  | [p] => [(.word, p)]
  | p :: ps => (.word, p) :: (.other, [',']) :: (.space, [' ']) :: paramPieces ps

theorem reads_params {params : List Text} (hparams : ∀ p ∈ params, Text.isIdent p = true)
    (hrest : ∀ c ∈ rest.head?, Text.isIdentChar c = false) :
    Reads lexeme (Text.join ", " params ++ rest) (paramPieces params) rest := by
  induction params with
  | nil => exact .done rest
  | cons p ps ih =>
    obtain ⟨hp, hps⟩ := List.forall_mem_cons.mp hparams
    cases ps with
    | nil =>
      rw [Text.join_singleton]
      exact reads_word hp hrest
    | cons q qs =>
      have hsplit : Text.join ", " (p :: q :: qs) ++ rest =
          p ++ ',' :: ([' '] ++ (Text.join ", " (q :: qs) ++ rest)) := by
        rw [Text.join_cons_cons]
        simp
      have hblank : ∀ c ∈ (Text.join ", " (q :: qs) ++ rest).head?, Text.isBlank c = false :=
        Text.isBlank_head_of_isIdent (hps q List.mem_cons_self)
          ((Text.prefix_join _ q qs).trans (List.prefix_append _ _))
      rw [hsplit]
      exact (reads_word hp (by simp; decide)).append ((reads_bracket (.inr (.inr rfl))).append
        ((reads_blanks (by decide) (by simp) hblank).append (ih hps)))

/-- The word that makes a declaration local, with the space after it. -/
def localPieces (isLocal : Bool) : List Token.Piece :=
  if isLocal then [(.word, ("local" : Text)), (.space, [' '])] else []

/-- The tokens of a declaration before its closing parenthesis. -/
def FunctionHead.openPieces (f : FunctionHead) : List Token.Piece :=
  localPieces f.isLocal ++ (.word, ("function" : Text)) :: (.space, [' ']) ::
    (f.name.pieces ++ (.other, ['(']) :: paramPieces f.params)

/-- The tokens of a declaration up to its closing parenthesis. -/
def FunctionHead.pieces (f : FunctionHead) : List Token.Piece :=
  f.openPieces ++ [(.other, [')'])]

/-- A declaration is cut up to its closing parenthesis, whatever follows. -/
theorem FunctionHead.reads (f : FunctionHead) (rest : Text) :
    Reads lexeme (f.text ++ rest) f.pieces rest := by
  have hclosing : Reads lexeme (')' :: rest) [(.other, [')'])] rest :=
    reads_bracket (.inr (.inl rfl))
  have hparams := (reads_params f.isIdent_params (by simp; decide)).append hclosing
  have hname := (f.name.reads (by simp; decide)).append ((reads_bracket (.inl rfl)).append hparams)
  have hfirst (more : Text) : ∀ c ∈ (f.name.text ++ more).head?, Text.isBlank c = false :=
    Text.isBlank_head_of_isIdent f.name.isIdent_first
      ((List.prefix_append f.name.first _).trans (List.prefix_append f.name.text more))
  have hspace := (reads_blanks (t := [' ']) (by decide) (by simp) (hfirst _)).append hname
  have hfunction := (reads_word (by decide : Text.isIdent "function" = true)
    (by simp; decide)).append hspace
  have hlocal := (reads_word (by decide : Text.isIdent "local" = true) (by simp; decide)).append
    ((reads_blanks (t := [' ']) (by decide) (by simp) (by simp; decide)).append hfunction)
  cases hf : f.isLocal with
  | true => simpa [text, pieces, openPieces, localPieces, hf] using hlocal
  | false => simpa [text, pieces, openPieces, localPieces, hf] using hfunction

end Reading

section Searching

theorem DottedName.text_ne_nil (n : DottedName) : n.text ≠ [] := by
  have hfirst := n.isIdent_first
  rw [text]
  cases hn : n.first with
  | nil => simp [hn, Text.isIdent] at hfirst
  | cons c cs => simp

theorem filter_paramPieces (params : List Text) :
    (paramPieces params).filter Token.isCodePiece = (params.map word).intersperse (mark ",") := by
  induction params with
  | nil => rfl
  | cons p ps ih =>
    cases ps with
    | nil => rfl
    | cons q qs => exact congrArg (word p :: mark "," :: ·) ih

theorem DottedName.filter_pieces (n : DottedName) :
    n.pieces.filter Token.isCodePiece = n.pieces := by
  refine List.filter_eq_self.mpr (List.forall_mem_cons.mpr ⟨rfl, ?_⟩)
  intro p hp
  obtain ⟨m, -, hp⟩ := List.mem_flatMap.mp hp
  rcases List.mem_pair.mp hp with rfl | rfl <;> rfl

/-- The space between the tokens of a declaration does not count. -/
theorem FunctionHead.code_openPieces (f : FunctionHead) (line : Nat) :
    Token.code (Token.placed line f.openPieces) =
      localPart f.isLocal ++ word "function" ::
        (f.name.pieces ++ mark "(" :: (f.params.map word).intersperse (mark ",")) := by
  have hlocal : (localPieces f.isLocal).filter Token.isCodePiece = localPart f.isLocal := by
    cases f.isLocal <;> rfl
  rw [Token.code_placed, openPieces, List.filter_append, hlocal,
    List.filter_cons_of_pos (by rfl), List.filter_cons_of_neg (by decide), List.filter_append,
    f.name.filter_pieces, List.filter_cons_of_pos (by rfl), filter_paramPieces]
  rfl

/-- Up to its closing parenthesis a declaration is read as its name and its parameters. -/
theorem FunctionHead.readAll_openPieces (f : FunctionHead) (line : Nat) :
    Language.lua.readAll .start (Token.placed line f.openPieces) =
      .reading
        { isLocal := f.isLocal, stage := .params, name := f.name.text, params := f.params } := by
  have hparts : ∀ p ∈ f.name.pieces, isNamePart p = true :=
    List.forall_mem_cons.mpr
      ⟨rfl, isNamePart_of_mem_memberPieces fun m hm => (f.name.isMember_members m hm).1⟩
  have hspelling : spelling f.name.pieces = f.name.text := spelling_name _ _
  have hparams : ∀ p ∈ f.params.map word, isParam p = true := by simp [isParam]
  have htexts : (f.params.map word).map (·.2) = f.params := by simp [Function.comp_def]
  rw [Language.readAll_eq_readPieces, f.code_openPieces,
    readPieces_function hparts (by rw [hspelling]; exact f.name.text_ne_nil),
    readPieces_params (closing_not_mem_intersperse hparams) rfl, paramTexts,
    filter_intersperse_comma hparams, hspelling, htexts, List.nil_append]

theorem all_paramPieces_ne_comment (params : List Text) :
    (paramPieces params).all (·.1 ≠ .comment) = true := by
  induction params with
  | nil => rfl
  | cons p ps ih =>
    cases ps with
    | nil => rfl
    | cons q qs => simpa [paramPieces] using ih

/-- A written declaration holds no comment, so the search for it is not cut off. -/
theorem FunctionHead.kind_ne_comment (f : FunctionHead) {line : Nat} {t : Token}
    (h : t ∈ Token.placed line f.openPieces) : t.kind ≠ .comment := by
  have hlocal : (localPieces f.isLocal).all (·.1 ≠ .comment) = true := by
    cases f.isLocal <;> rfl
  have hmembers : (memberPieces f.name.members).all (·.1 ≠ .comment) = true := by
    simp [memberPieces, List.all_flatMap]
  have hall : f.openPieces.all (·.1 ≠ .comment) = true := by
    rw [openPieces, DottedName.pieces]
    simp only [List.all_append, List.all_cons, hlocal, hmembers, all_paramPieces_ne_comment]
    rfl
  simpa using List.all_eq_true.mp hall _ (Token.mem_of_mem_placed h)

/-- The search for a declaration finds a function if it may read all of its tokens. -/
theorem FunctionHead.lookahead_pieces (f : FunctionHead) {limit : Nat} (line : Nat)
    (hlimit : ((Token.placed line f.pieces).filter Token.isCode).length ≤ limit)
    (more : List Token) :
    DocBlock.lookahead .lua .start limit (Token.placed line f.pieces ++ more) =
      (.done (some ⟨f.name.text, .function f.params, f.isLocal⟩), more) := by
  have hstate := f.readAll_openPieces line
  rw [pieces, Token.placed_append] at hlimit ⊢
  rw [List.append_assoc]
  refine DocBlock.lookahead_of_ending (fun t => f.kind_ne_comment) ?_ ?_ rfl ?_ more
  · rw [hstate]
    rfl
  · rw [List.filter_append, List.length_append] at hlimit
    exact Nat.lt_of_succ_le hlimit
  · rw [hstate]
    rfl

end Searching

end Lua

end SourceDoc
