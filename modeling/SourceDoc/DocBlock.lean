import SourceDoc.Failure
import SourceDoc.Language.Basic
import SourceDoc.Tag.Line

namespace SourceDoc

/-- A doc comment with the declaration that follows it. -/
structure DocBlock where
  /-- Text of the comments without their markers. -/
  text : Text
  line : Nat
  endLine : Nat
  declaration : Option Declaration
  /-- The block is opened by the first comment of its file. -/
  isFirst : Bool
  deriving DecidableEq, Repr

namespace DocBlock

/-- Whether the declared entity is not visible outside its file. -/
def isLocal (b : DocBlock) : Bool :=
  b.declaration.any (·.isLocal)

/-- Comments taken from the front of a token list, and what is left of it. -/
structure Comments where
  bodies : List Text
  endLine : Nat
  rest : List Token

/-- The comments that continue a block: all that follow with nothing but space between them, up to
    one that opens a block of its own. -/
def continuation (lang : Language) (endLine : Nat) : List Token → Comments
  | [] => ⟨[], endLine, []⟩
  | t :: ts =>
    match t.kind with
    | .space => continuation lang endLine ts
    | .comment =>
      if lang.opensBlock t.text then ⟨[], endLine, t :: ts⟩
      else
        let more := continuation lang t.endLine ts
        ⟨lang.body t.text :: more.bodies, more.endLine, more.rest⟩
    | _ => ⟨[], endLine, t :: ts⟩

/-- The comments of the block a comment opens. -/
def opened (lang : Language) (comment : Token) (ts : List Token) : Comments :=
  let more := continuation lang comment.endLine ts
  { more with bodies := lang.body comment.text :: more.bodies }

/-- Text of comments, one after the other on lines of their own. -/
def Comments.text (c : Comments) : Text :=
  Text.join "\n" c.bodies

/-- Largest number of tokens read in search of a declaration. -/
def declarationLimit : Nat :=
  256

/-- Reads a declaration from the front of a token list, at most `limit` tokens of it. Space is
    passed over, and so are comments once a declaration has begun; before that a comment ends the
    search. Gives the last state and the tokens left. -/
def lookahead (lang : Language) (state : Declaration.Progress) (limit : Nat) :
    List Token → Declaration.Progress × List Token
  | [] => (state, [])
  | t :: ts =>
    match t.kind with
    | .space => lookahead lang state limit ts
    | .comment => if state.isAwaiting then (state, t :: ts) else lookahead lang state limit ts
    | _ =>
      let next := lang.step state t
      if next.isDone || limit ≤ 1 then (next, ts) else lookahead lang next (limit - 1) ts

/-- Whether comments document something: the comment that opens them is a doc comment, or one of
    their lines is a tag line. -/
def documents (lang : Language) (opening : Token) (comments : Comments) : Bool :=
  lang.isDoc opening.text || TagLine.occursIn comments.text

/-- The block of the given comments, and the tokens after its declaration. -/
def close (lang : Language) (isFirst : Bool) (opening : Token) (comments : Comments) :
    DocBlock × List Token :=
  let (state, rest) := lookahead lang .start declarationLimit comments.rest
  ({ text := comments.text, line := opening.line, endLine := comments.endLine,
     declaration := state.result, isFirst }, rest)

/-- Comments are taken from the front, so what is left is no longer than the list. -/
theorem length_continuation_le (lang : Language) (endLine : Nat) (ts : List Token) :
    (continuation lang endLine ts).rest.length ≤ ts.length := by
  induction ts generalizing endLine with
  | nil => simp [continuation]
  | cons t ts ih =>
    have hspace := ih endLine
    have hcomment := ih t.endLine
    rw [continuation]
    split
    · simp only [List.length_cons]; omega
    · split
      · simp
      · simp only [List.length_cons]; omega
    · simp

/-- The search for a declaration only takes tokens away. -/
theorem length_lookahead_le (lang : Language) (state : Declaration.Progress) (limit : Nat)
    (ts : List Token) : (lookahead lang state limit ts).2.length ≤ ts.length := by
  induction ts generalizing state limit with
  | nil => simp [lookahead]
  | cons t ts ih =>
    have hsame := ih state limit
    have hnext := ih (lang.step state t) (limit - 1)
    rw [lookahead]
    split
    · simp only [List.length_cons]; omega
    · split
      · simp
      · simp only [List.length_cons]; omega
    · dsimp only
      split
      · simp
      · simp only [List.length_cons]; omega

/-- What is left after the comments of a block is no longer than what followed its first one. -/
theorem length_opened_le (lang : Language) (comment : Token) (ts : List Token) :
    (opened lang comment ts).rest.length ≤ ts.length :=
  length_continuation_le lang comment.endLine ts

/-- What is left after a block is no longer than what followed its comments. -/
theorem length_close_le (lang : Language) (isFirst : Bool) (opening : Token)
    (comments : Comments) :
    (close lang isFirst opening comments).2.length ≤ comments.rest.length :=
  length_lookahead_le lang .start declarationLimit comments.rest

/-- The blocks after the first comment of a file. Comments that document nothing are passed over. -/
def later (lang : Language) : List Token → List DocBlock
  | [] => []
  | t :: ts =>
    if t.kind = .comment then
      let comments := opened lang t ts
      if documents lang t comments then
        (close lang false t comments).1 :: later lang (close lang false t comments).2
      else later lang comments.rest
    else later lang ts
termination_by ts => ts.length
decreasing_by
  · exact Nat.lt_succ_of_le
      (Nat.le_trans (length_close_le lang false t _) (length_opened_le lang t ts))
  · exact Nat.lt_succ_of_le (length_opened_le lang t ts)
  · exact Nat.lt_succ_self _

/-- The doc blocks among the tokens of a file. It is an error if the first comment documents
    nothing. -/
def ofTokens (lang : Language) (file : Path) (tokens : List Token) :
    Except Failure (List DocBlock) :=
  match tokens.dropWhile (·.kind ≠ .comment) with
  | [] => .ok []
  | t :: ts =>
    let comments := opened lang t ts
    if documents lang t comments then
      let (block, rest) := close lang true t comments
      .ok (block :: later lang rest)
    else .error (.plainFirstComment file t.line)

/-- The doc blocks of a source text. -/
def scan (lang : Language) (file : Path) (src : Text) : Except Failure (List DocBlock) :=
  ofTokens lang file (lang.tokens src)

end DocBlock

end SourceDoc
