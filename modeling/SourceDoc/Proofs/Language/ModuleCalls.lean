import Mathlib.Data.List.Range
import SourceDoc.Language.Lua.Lexer
import SourceDoc.Language.Lua.ModuleCall

namespace SourceDoc.Lua

section Positions

variable (code : List Token)

/-- Whether a separator stands right before a position. -/
def afterSeparator : Nat → Bool
  | 0 => false
  | i + 1 => code[i]?.any isSeparator

/-- Whether the word `module` stands at a position and is no member of something. -/
def isCallee (i : Nat) : Bool :=
  code[i]?.any (·.isWord "module") && !afterSeparator code i

/-- Whether an opening parenthesis stands at a position. -/
def isOpening (i : Nat) : Bool :=
  code[i]?.any (·.isOther "(")

/-- The argument of the word at a position: the token right after it or, if that is an opening
    parenthesis, the one after that. -/
def argumentAt? (i : Nat) : Option Token :=
  if isOpening code (i + 1) then code[i + 2]? else code[i + 1]?

/-- Whether a call stands at a position: the word, with a string literal or `...` for its
    argument. -/
def isCall (i : Nat) : Bool :=
  isCallee code i &&
    (argumentAt? code i).any fun argument => argument.kind == .str || argument.isOther "..."

/-- Whether the word at a position is passed over: it is the argument of another word `module`,
    which is not passed over itself. -/
def passedOver : Nat → Bool
  | 0 => false
  | 1 => isCallee code 0
  | i + 2 =>
    isCallee code (i + 1) && !passedOver (i + 1)
      || isOpening code (i + 1) && isCallee code i && !passedOver i

end Positions

variable {code rest : List Token} {t : Token} {i : Nat}

/-- Only literals and `...` name a module. -/
theorem isSome_calledModule? (argument : Token) :
    (calledModule? argument).isSome = (argument.kind == .str || argument.isOther "...") := by
  unfold calledModule?
  split
  · split <;> simp_all
  · split <;> simp_all

section Reading

theorem isCallee_eq (h : code[i]? = some t) :
    isCallee code i = (t.isWord "module" && !afterSeparator code i) := by
  rw [isCallee, h, Option.any_some]

theorem isOpening_eq (h : code[i]? = some t) : isOpening code i = t.isOther "(" := by
  rw [isOpening, h, Option.any_some]

theorem afterSeparator_succ (h : code[i]? = some t) :
    afterSeparator code (i + 1) = isSeparator t := by
  rw [afterSeparator, h, Option.any_some]

/-- A parenthesis is no word. -/
theorem isCallee_of_isOpening (h : isOpening code i = true) : isCallee code i = false := by
  obtain ⟨t, ht, hopening⟩ := Option.any_eq_true _ _ |>.mp h
  have hkind : t.kind = .other := by simpa using (Bool.and_eq_true_iff.mp hopening).1
  rw [isCallee_eq ht, Token.isWord, hkind]
  rfl

/-- The first of the tokens from a position on, and those behind it. -/
theorem of_drop_eq_cons (h : code.drop i = t :: rest) :
    code[i]? = some t ∧ code.drop (i + 1) = rest := by
  constructor
  · rw [← List.head?_drop, h, List.head?_cons]
  · rw [← List.tail_drop, h, List.tail_cons]

theorem isCallee_of_length_le (h : code.length ≤ i) : isCallee code i = false := by
  rw [isCallee, List.getElem?_eq_none h]
  rfl

theorem isOpening_of_length_le (h : code.length ≤ i) : isOpening code i = false := by
  rw [isOpening, List.getElem?_eq_none h]
  rfl

theorem argumentAt?_of_isOpening (h : isOpening code (i + 1) = true) :
    argumentAt? code i = code[i + 2]? := by
  rw [argumentAt?, if_pos h]

theorem argumentAt?_of_not_isOpening (h : isOpening code (i + 1) = false) :
    argumentAt? code i = code[i + 1]? := by
  rw [argumentAt?, h]
  rfl

end Reading

section PassedOver

/-- Behind a word that is tried stands its argument, or the parenthesis before it. -/
theorem passedOver_succ (h : passedOver code i = false) :
    passedOver code (i + 1) = isCallee code i := by
  cases i with
  | zero => rfl
  | succ i =>
    have hbefore : (isCallee code i && !passedOver code i) = false := by
      cases i with
      | zero => simpa [passedOver] using h
      | succ i => exact (Bool.or_eq_false_iff.mp h).1
    rw [passedOver, h, Bool.and_assoc, hbefore]
    simp

/-- The second position behind a word that is tried is passed over if a parenthesis puts the
    argument there. -/
theorem passedOver_add_two (h : passedOver code i = false) (hi : isCallee code i = true) :
    passedOver code (i + 2) = isOpening code (i + 1) := by
  rw [passedOver, passedOver_succ h, hi, h]
  simp

/-- Behind an argument nothing has been taken yet. -/
theorem passedOver_add_three (h : passedOver code i = false) (hi : isCallee code i = true)
    (hopening : isOpening code (i + 1) = true) : passedOver code (i + 3) = false := by
  rw [passedOver, passedOver_add_two h hi, hopening, isCallee_of_isOpening hopening]
  simp

end PassedOver

section Search

variable (code)

/-- What the call at a position defines; nothing if it is passed over. -/
def triedAt? (i : Nat) : Option ModuleCall :=
  if isCallee code i && !passedOver code i then (argumentAt? code i).bind calledModule? else none

/-- What the first call from a position on defines that is not passed over. -/
def firstTried? (i : Nat) : Option ModuleCall :=
  (List.range' i (code.length - i)).findSome? (triedAt? code)

variable {code}

theorem triedAt?_of_not_isCallee (h : isCallee code i = false) : triedAt? code i = none := by
  simp [triedAt?, h]

theorem triedAt?_of_passedOver (h : passedOver code i = true) : triedAt? code i = none := by
  simp [triedAt?, h]

/-- A word that is not passed over defines what its argument says. -/
theorem triedAt?_of_isCallee (h : passedOver code i = false) (hi : isCallee code i = true) :
    triedAt? code i = (argumentAt? code i).bind calledModule? := by
  simp [triedAt?, h, hi]

/-- The calls that are tried are those that are not passed over. -/
theorem isSome_triedAt? : (triedAt? code i).isSome = (isCall code i && !passedOver code i) := by
  unfold triedAt? isCall
  cases hi : isCallee code i && !passedOver code i with
  | false =>
    rcases Bool.and_eq_false_iff.mp hi with hi | hi <;> simp [hi]
  | true =>
    obtain ⟨hcallee, htried⟩ := Bool.and_eq_true_iff.mp hi
    rw [if_pos rfl, hcallee, htried]
    cases argumentAt? code i with
    | none => rfl
    | some argument =>
      rw [Option.bind_some, isSome_calledModule?]
      simp

theorem firstTried?_of_length_le (h : code.length ≤ i) : firstTried? code i = none := by
  rw [firstTried?, Nat.sub_eq_zero_of_le h]
  rfl

/-- The search over positions goes from one to the next, with no position left out. -/
theorem firstTried?_eq_or (code : List Token) (i : Nat) :
    firstTried? code i = (triedAt? code i).or (firstTried? code (i + 1)) := by
  by_cases h : i < code.length
  · have hsplit : code.length - i = (code.length - (i + 1)) + 1 := by omega
    rw [firstTried?, hsplit, List.range'_succ, List.findSome?_cons]
    cases triedAt? code i <;> rfl
  · have hend : code.length ≤ i := Nat.le_of_not_lt h
    rw [firstTried?_of_length_le hend, firstTried?_of_length_le (Nat.le_succ_of_le hend),
      triedAt?_of_not_isCallee (isCallee_of_length_le hend), Option.or_none]

/-- A position at which no word stands is left behind. -/
theorem firstTried?_of_not_isCallee (hi : isCallee code i = false) :
    firstTried? code i = firstTried? code (i + 1) := by
  rw [firstTried?_eq_or, triedAt?_of_not_isCallee hi, Option.none_or]

/-- A position that is passed over is left behind. -/
theorem firstTried?_of_passedOver (hi : passedOver code i = true) :
    firstTried? code i = firstTried? code (i + 1) := by
  rw [firstTried?_eq_or, triedAt?_of_passedOver hi, Option.none_or]

/-- A word that is tried takes the token right after it. -/
theorem firstTried?_of_isCallee (h : passedOver code i = false) (hi : isCallee code i = true)
    (hopening : isOpening code (i + 1) = false) :
    firstTried? code i = (code[i + 1]?.bind calledModule?).or (firstTried? code (i + 2)) := by
  have hpassed : passedOver code (i + 1) = true := by rw [passedOver_succ h, hi]
  rw [firstTried?_eq_or, firstTried?_of_passedOver hpassed, triedAt?_of_isCallee h hi,
    argumentAt?_of_not_isOpening hopening]

/-- A word that is tried takes a parenthesis, which is no word, and the token behind it. -/
theorem firstTried?_of_isCallee_of_isOpening (h : passedOver code i = false)
    (hi : isCallee code i = true) (hopening : isOpening code (i + 1) = true) :
    firstTried? code i = (code[i + 2]?.bind calledModule?).or (firstTried? code (i + 3)) := by
  have hpassed : passedOver code (i + 2) = true := by rw [passedOver_add_two h hi, hopening]
  rw [firstTried?_eq_or, firstTried?_of_not_isCallee (isCallee_of_isOpening hopening),
    firstTried?_of_passedOver hpassed, triedAt?_of_isCallee h hi,
    argumentAt?_of_isOpening hopening]

/-- The search tries the words from a position on that are not passed over, if the position is not
    inside what an earlier word has taken. -/
theorem findModuleCall_eq_firstTried? (h : passedOver code i = false) :
    findModuleCall (afterSeparator code i) (code.drop i) = firstTried? code i := by
  generalize hseparator : afterSeparator code i = separator
  generalize hrest : code.drop i = rest
  -- One step of the search takes a word and at most its argument, so the induction goes on at the
  -- position behind what the step has taken, which is not passed over either.
  fun_induction findModuleCall separator rest generalizing i with
  | case1 => exact (firstTried?_of_length_le (List.drop_eq_nil_iff.mp hrest)).symm
  | case2 separator t hmodule =>
    obtain ⟨ht, hend⟩ := of_drop_eq_cons hrest
    have hi : isCallee code i = true := by rw [isCallee_eq ht, hseparator, hmodule]
    have hlength : code.length ≤ i + 1 := List.drop_eq_nil_iff.mp hend
    rw [firstTried?_of_isCallee h hi (isOpening_of_length_le hlength),
      List.getElem?_eq_none hlength, firstTried?_of_length_le (Nat.le_succ_of_le hlength)]
    rfl
  | case3 separator t hmodule opening hopening =>
    obtain ⟨ht, hnext⟩ := of_drop_eq_cons hrest
    obtain ⟨hat, hend⟩ := of_drop_eq_cons hnext
    have hi : isCallee code i = true := by rw [isCallee_eq ht, hseparator, hmodule]
    have hlength : code.length ≤ i + 2 := List.drop_eq_nil_iff.mp hend
    rw [firstTried?_of_isCallee_of_isOpening h hi (by rw [isOpening_eq hat, hopening]),
      List.getElem?_eq_none hlength, firstTried?_of_length_le (Nat.le_succ_of_le hlength)]
    rfl
  | case4 separator t hmodule opening hopening argument rest ih =>
    obtain ⟨ht, hnext⟩ := of_drop_eq_cons hrest
    obtain ⟨hat, hargument⟩ := of_drop_eq_cons hnext
    obtain ⟨hlast, hbehind⟩ := of_drop_eq_cons hargument
    have hi : isCallee code i = true := by rw [isCallee_eq ht, hseparator, hmodule]
    have hparenthesis : isOpening code (i + 1) = true := by rw [isOpening_eq hat, hopening]
    rw [ih (passedOver_add_three h hi hparenthesis) (afterSeparator_succ hlast) hbehind,
      firstTried?_of_isCallee_of_isOpening h hi hparenthesis, hlast, Option.bind_some]
  | case5 separator t hmodule next rest hopening ih =>
    obtain ⟨ht, hnext⟩ := of_drop_eq_cons hrest
    obtain ⟨hat, hbehind⟩ := of_drop_eq_cons hnext
    have hi : isCallee code i = true := by rw [isCallee_eq ht, hseparator, hmodule]
    have hno : isOpening code (i + 1) = false := by
      rw [isOpening_eq hat]
      simpa using hopening
    have hgone : passedOver code (i + 2) = false := by rw [passedOver_add_two h hi, hno]
    rw [ih hgone (afterSeparator_succ hat) hbehind, firstTried?_of_isCallee h hi hno, hat,
      Option.bind_some]
  | case6 separator t rest hother ih =>
    obtain ⟨ht, hbehind⟩ := of_drop_eq_cons hrest
    have hi : isCallee code i = false := by
      rw [isCallee_eq ht, hseparator]
      simpa using hother
    have hgone : passedOver code (i + 1) = false := by rw [passedOver_succ h, hi]
    rw [ih hgone (afterSeparator_succ ht) hbehind, firstTried?_of_not_isCallee hi]

/-- From the first token on nothing has been taken yet, so the whole search is one over
    positions. -/
theorem moduleCall?_eq_firstTried? (ts : List Token) :
    moduleCall? ts = firstTried? (ts.filter Token.isCode) 0 :=
  findModuleCall_eq_firstTried? (i := 0) rfl

theorem lt_length_of_isCall (h : isCall code i = true) : i < code.length := by
  by_contra hend
  have hnone : code[i]? = none := List.getElem?_eq_none (Nat.le_of_not_lt hend)
  simp [isCall, isCallee, hnone] at h

/-- Positions at which nothing is tried do not count. -/
theorem firstTried?_eq_of_first (hi : isCall code i = true) (htried : passedOver code i = false)
    (hfirst : ∀ j < i, isCall code j = true → passedOver code j = true) :
    firstTried? code 0 = triedAt? code i := by
  have hskip : ∀ j ≤ i, firstTried? code 0 = firstTried? code j := by
    intro j hj
    induction j with
    | zero => rfl
    | succ j ih =>
      have hnone : triedAt? code j = none := by
        rw [← Option.not_isSome_iff_eq_none, isSome_triedAt?]
        simpa using hfirst j hj
      rw [ih (Nat.le_of_succ_le hj), firstTried?_eq_or, hnone, Option.none_or]
  have hsome : (triedAt? code i).isSome = true := by rw [isSome_triedAt?, hi, htried]; rfl
  rw [hskip i le_rfl, firstTried?_eq_or, Option.or_of_isSome hsome]

/-- The search gives a result exactly if a call stands somewhere that is not passed over, and then
    the first such call decides it: its argument says what module is defined. -/
theorem moduleCall?_finds_first_tried (ts : List Token) :
    let code := ts.filter Token.isCode
    ((moduleCall? ts).isSome = true ↔ ∃ i, isCall code i = true ∧ passedOver code i = false) ∧
    ∀ i, isCall code i = true → passedOver code i = false →
      (∀ j < i, isCall code j = true → passedOver code j = true) →
      moduleCall? ts = (argumentAt? code i).bind calledModule? := by
  intro code
  constructor
  · rw [moduleCall?_eq_firstTried?, firstTried?, List.findSome?_isSome_iff]
    constructor
    · rintro ⟨i, -, hsome⟩
      rw [isSome_triedAt?] at hsome
      exact ⟨i, by simpa using hsome⟩
    · rintro ⟨i, hi, htried⟩
      refine ⟨i, ?_, ?_⟩
      · simpa using lt_length_of_isCall hi
      · rw [isSome_triedAt?, hi, htried]
        rfl
  · intro i hi htried hfirst
    rw [moduleCall?_eq_firstTried?, firstTried?_eq_of_first hi htried hfirst,
      triedAt?_of_isCallee htried (Bool.and_eq_true_iff.mp hi).1]

/-- A member, a call that is the argument of another word, and a call with `...`. -/
def nestedCalls : List Token :=
  tokens "x.module 'no' module(module 'a') module -- b\n (...)"

theorem moduleCall?_finds_first_tried_last :
    (moduleCall? nestedCalls).isSome = true ∧ moduleCall? nestedCalls = some .fromPath := by
  obtain ⟨hsome, hfirst⟩ := moduleCall?_finds_first_tried nestedCalls
  constructor
  · exact hsome.mpr ⟨9, by decide +kernel, by decide +kernel⟩
  · exact (hfirst 9 (by decide +kernel) (by decide +kernel) (by decide +kernel)).trans
      (by decide +kernel)

/-- The only call there is stands in the parentheses behind another word, and it is not found. -/
theorem moduleCall?_misses_argument :
    let ts := tokens "module(module \"x\")"
    let code := ts.filter Token.isCode
    isCall code 2 = true ∧ (∀ j < 2, isCall code j = false) ∧
      (argumentAt? code 2).bind calledModule? = some (.named "x") ∧ moduleCall? ts = none := by
  decide +kernel

end Search

end SourceDoc.Lua
