import SourceDoc.Proofs.DocBlock.Basic
import SourceDoc.Proofs.Language.LineEnds
import SourceDoc.Proofs.Tag.LineEnds

namespace SourceDoc.DocBlock

open Declaration (Progress)
open Text (SameLines)

/-- Blocks that differ in nothing but the line ends of their texts. -/
structure Alike (b c : DocBlock) : Prop where
  text : SameLines b.text c.text
  line : c.line = b.line
  endLine : c.endLine = b.endLine
  declaration : c.declaration = b.declaration
  isFirst : c.isFirst = b.isFirst

/-- Comments that differ in nothing but line ends, with alike tokens behind them. -/
structure Comments.Alike (lang : Language) (c d : Comments) : Prop where
  bodies : List.Forall₂ SameLines c.bodies d.bodies
  endLine : d.endLine = c.endLine
  rest : List.Forall₂ (Token.Alike lang) c.rest d.rest

variable {lang : Language} {t u : Token} {ts us : List Token}

/-- Comments that continue a block do so in both sources, and leave alike tokens. -/
theorem continuation_alike (h : List.Forall₂ (Token.Alike lang) ts us) (endLine : Nat) :
    (continuation lang endLine ts).Alike lang (continuation lang endLine us) := by
  induction h generalizing endLine with
  | nil => exact ⟨.nil, rfl, .nil⟩
  | @cons t u ts us ht hrest ih =>
    rcases t.space_or_comment_or_code with hspace | hcomment | hcode
    · rw [continuation_space lang endLine ts hspace,
        continuation_space lang endLine us (ht.kind_eq.trans hspace)]
      exact ih endLine
    · have hu := ht.kind_eq.trans hcomment
      have halike := ht.commentsAlike hcomment
      cases hopens : lang.opensBlock t.text with
      | true =>
        rw [continuation_opening lang endLine ts hcomment hopens,
          continuation_opening lang endLine us hu (halike.opensBlock.trans hopens)]
        exact ⟨.nil, rfl, .cons ht hrest⟩
      | false =>
        rw [continuation_comment lang endLine ts hcomment hopens,
          continuation_comment lang endLine us hu (halike.opensBlock.trans hopens), ht.endLine_eq]
        exact ⟨.cons halike.body (ih t.endLine).bodies, (ih t.endLine).endLine, (ih t.endLine).rest⟩
    · rw [continuation_code lang endLine ts hcode,
        continuation_code lang endLine us (ht.isCode_eq.trans hcode)]
      exact ⟨.nil, rfl, .cons ht hrest⟩

theorem opened_alike (ht : Token.Alike lang t u) (hcomment : t.kind = .comment)
    (h : List.Forall₂ (Token.Alike lang) ts us) :
    (opened lang t ts).Alike lang (opened lang u us) := by
  have hmore := continuation_alike h t.endLine
  unfold opened
  rw [ht.endLine_eq]
  exact ⟨.cons (ht.commentsAlike hcomment).body hmore.bodies, hmore.endLine, hmore.rest⟩

/-- The search for a declaration takes the same steps, for no step sees a line end. -/
theorem lookahead_alike (h : List.Forall₂ (Token.Alike lang) ts us) (state : Progress)
    (limit : Nat) :
    (lookahead lang state limit us).1 = (lookahead lang state limit ts).1 ∧
      List.Forall₂ (Token.Alike lang) (lookahead lang state limit ts).2
        (lookahead lang state limit us).2 := by
  induction h generalizing state limit with
  | nil => exact ⟨rfl, .nil⟩
  | @cons t u ts us ht hrest ih =>
    rcases t.space_or_comment_or_code with hspace | hcomment | hcode
    · rw [lookahead_space lang state limit ts hspace,
        lookahead_space lang state limit us (ht.kind_eq.trans hspace)]
      exact ih state limit
    · rw [lookahead_comment lang state limit ts hcomment,
        lookahead_comment lang state limit us (ht.kind_eq.trans hcomment)]
      split
      · exact ⟨rfl, .cons ht hrest⟩
      · exact ih state limit
    · rw [lookahead_code lang state limit ts hcode,
        lookahead_code lang state limit us (ht.isCode_eq.trans hcode), lang.step_eq ht hcode]
      split
      · exact ⟨rfl, hrest⟩
      · exact ih _ _

section Comments

variable {c d : Comments} (ht : Token.Alike lang t u) (h : c.Alike lang d)

theorem Comments.Alike.text (h : c.Alike lang d) : SameLines c.text d.text :=
  SameLines.join h.bodies

include ht h

/-- Both groups document something or neither does. A return at the end of a line makes no tag line
    and hides none. -/
theorem documents_eq (hcomment : t.kind = .comment) :
    documents lang u d = documents lang t c := by
  rw [documents, documents, (ht.commentsAlike hcomment).isDoc, TagLine.occursIn_eq h.text]

/-- The block of both groups declares the same, and alike tokens are left. -/
theorem close_alike (isFirst : Bool) :
    (close lang isFirst t c).1.Alike (close lang isFirst u d).1 ∧
      List.Forall₂ (Token.Alike lang) (close lang isFirst t c).2 (close lang isFirst u d).2 := by
  obtain ⟨hstate, hrest⟩ := lookahead_alike h.rest .start declarationLimit
  refine ⟨?_, hrest⟩
  exact
    { text := h.text
      line := ht.line_eq
      endLine := h.endLine
      declaration := congrArg Progress.result hstate
      isFirst := rfl }

end Comments

/-- The scan takes the same way through both lists of tokens. -/
theorem later_alike (h : List.Forall₂ (Token.Alike lang) ts us) :
    List.Forall₂ Alike (later lang ts) (later lang us) := by
  -- a block takes any number of tokens, so the induction is on the length
  induction hlength : ts.length using Nat.strongRecOn generalizing ts us with
  | ind length ih =>
    cases h with
    | nil =>
      rw [later]
      exact .nil
    | @cons t u ts us ht hrest =>
      rw [List.length_cons] at hlength
      by_cases hcomment : t.kind = .comment
      · have hopened := opened_alike ht hcomment hrest
        have hle := length_opened_le lang t ts
        have hdocuments := documents_eq ht hopened hcomment
        cases hdoc : documents lang t (opened lang t ts) with
        | true =>
          obtain ⟨hblock, hleft⟩ := close_alike ht hopened false
          have hclose := length_close_le lang false t (opened lang t ts)
          rw [later_documented lang ts hcomment hdoc,
            later_documented lang us (ht.kind_eq.trans hcomment) (hdocuments.trans hdoc)]
          exact .cons hblock (ih _ (by omega) hleft rfl)
        | false =>
          rw [later_plain lang ts hcomment hdoc,
            later_plain lang us (ht.kind_eq.trans hcomment) (hdocuments.trans hdoc)]
          exact ih _ (by omega) hopened.rest rfl
      · rw [later_of_not_comment lang ts hcomment,
          later_of_not_comment lang us (ht.kind_eq ▸ hcomment)]
        exact ih ts.length (by omega) hrest rfl

/-- Scans that fail in the same way or find alike blocks. -/
inductive ScansAlike : Except Failure (List DocBlock) → Except Failure (List DocBlock) → Prop
  | error (e : Failure) : ScansAlike (.error e) (.error e)
  | ok {bs cs : List DocBlock} (h : List.Forall₂ Alike bs cs) : ScansAlike (.ok bs) (.ok cs)

/-- Both files are refused over their first comment, on the same line, or have alike blocks. -/
theorem ofTokens_alike (file : Path) (h : List.Forall₂ (Token.Alike lang) ts us) :
    ScansAlike (ofTokens lang file ts) (ofTokens lang file us) := by
  induction h with
  | nil => exact .ok .nil
  | @cons t u ts us ht hrest ih =>
    by_cases hcomment : t.kind = .comment
    · have hopened := opened_alike ht hcomment hrest
      have hdrop : (t :: ts).dropWhile (·.kind ≠ .comment) = t :: ts := by simp [hcomment]
      have hdrop' : (u :: us).dropWhile (·.kind ≠ .comment) = u :: us := by
        simp [ht.kind_eq, hcomment]
      unfold ofTokens
      rw [hdrop, hdrop']
      dsimp only
      rw [documents_eq ht hopened hcomment, ht.line_eq]
      split
      · obtain ⟨hblock, hleft⟩ := close_alike ht hopened true
        exact .ok (.cons hblock (later_alike hleft))
      · exact .error _
    · have hskip {t : Token} (ht : t.kind ≠ .comment) (ts : List Token) :
          ofTokens lang file (t :: ts) = ofTokens lang file ts := by
        rw [ofTokens, ofTokens, List.dropWhile_cons_of_pos (by simpa using ht)]
      rw [hskip hcomment, hskip (ht.kind_eq ▸ hcomment)]
      exact ih

/-- For sources this needs that no backslash hides a line feed, since a literal would be cut
    there. -/
theorem scan_alike (lang : Language) (file : Path) {src other : Text}
    (h : Text.Returned [] src other) (hescape : Text.EscapesNoFeed src) :
    ScansAlike (scan lang file src) (scan lang file other) :=
  ofTokens_alike file (lang.tokens_alike h hescape)

end SourceDoc.DocBlock
