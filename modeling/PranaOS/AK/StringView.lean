import PranaOS.AK.LexicalPath

/-!
# `StringView::lines`

The lines of a text are the pieces between its terminators, where CR LF is one terminator. The loop of
`lines` remembers a CR until the next LF, also across other characters. A line that ends with a lone LF
is therefore lost if the line before it ends with a lone CR (`lines_eq_iff`).
-/

namespace AK

open List

/-- The loop of `StringView::lines`: `current` are the characters from `substart` on. -/
def linesLoop (current : Str) (lastChWasCr : Bool) : Str → List Str
  | [] => if current ≠ [] then [current] else []
  | ch :: rest =>
    if ch = '\n' then
      if lastChWasCr then linesLoop [] false rest else current :: linesLoop [] false rest
    else if ch = '\r' then current :: linesLoop [] true rest
    else linesLoop (current ++ [ch]) lastChWasCr rest

/-- `StringView::lines`. -/
def lines (self : Str) (considerCr : Bool) : List Str :=
  if self = [] then []
  else if considerCr then linesLoop [] false self
  else splitView self '\n' true

/-! ## Terminated lines -/

/-- What ends a line. -/
inductive Terminator where
  | crLf
  | cr
  | lf
deriving DecidableEq, Repr

/-- The characters of a terminator. -/
def Terminator.chars : Terminator → Str
  | .crLf => ['\r', '\n']
  | .cr => ['\r']
  | .lf => ['\n']

/-- A text of lines with their terminators and of what follows the last one. -/
def joinLines (terminated : List (Str × Terminator)) (last : Str) : Str :=
  (terminated.flatMap fun line => line.1 ++ line.2.chars) ++ last

/-- The lines alone. A last line that is empty does not count. -/
def pieces (terminated : List (Str × Terminator)) (last : Str) : List Str :=
  terminated.map Prod.fst ++ if last = [] then [] else [last]

/-- A line without a terminator inside. -/
def Plain (line : Str) : Prop := '\r' ∉ line ∧ '\n' ∉ line

/-- The text consists of these lines; a CR with an LF behind it is not a terminator of its own. -/
structure IsSplit (text : Str) (terminated : List (Str × Terminator)) (last : Str) : Prop where
  concat : text = joinLines terminated last
  plain : ∀ line ∈ terminated, Plain line.1
  plain_last : Plain last
  maximal : terminated.IsChain fun line next => ¬(line.2 = .cr ∧ next = ([], .lf))

/-- Every text consists of lines. -/
theorem exists_isSplit (text : Str) : ∃ terminated last, IsSplit text terminated last := by
  induction text with
  | nil => exact ⟨[], [], rfl, by simp, by simp [Plain], .nil⟩
  | cons ch rest ih =>
    obtain ⟨terminated, last, rfl, hplain, hlast, hmaximal⟩ := ih
    -- a terminator before the first line
    have hcons : ∀ terminator : Terminator,
        ¬(terminator = .cr ∧ terminated.head? = some ([], .lf)) →
        IsSplit (terminator.chars ++ joinLines terminated last) (([], terminator) :: terminated) last := by
      refine fun terminator hhead => ⟨by simp [joinLines], ?_, hlast, ?_⟩
      · simpa [Plain] using hplain
      · cases terminated <;> simp_all
    by_cases hlf : ch = '\n'
    · subst hlf
      exact ⟨_, last, hcons .lf (by simp)⟩
    by_cases hcr : ch = '\r'
    · subst hcr
      by_cases hhead : terminated.head? = some ([], .lf)
      · -- the CR and the LF behind it are one terminator
        obtain ⟨tail, rfl⟩ := head?_eq_some_iff.mp hhead
        refine ⟨([], .crLf) :: tail, last, by simp [joinLines, Terminator.chars], ?_, hlast, ?_⟩
        · simpa using hplain
        · cases tail <;> simp_all
      · exact ⟨_, last, hcons .cr (by simp [hhead])⟩
    · -- a character of the first line
      have hch : ∀ {line}, Plain line → Plain (ch :: line) := by
        simp only [Plain, mem_cons, not_or]
        exact fun h => ⟨⟨Ne.symm hcr, h.1⟩, Ne.symm hlf, h.2⟩
      cases terminated with
      | nil => exact ⟨[], ch :: last, rfl, by simp, hch hlast, .nil⟩
      | cons line tail =>
        rw [forall_mem_cons] at hplain
        refine ⟨(ch :: line.1, line.2) :: tail, last, by simp [joinLines], ?_, hlast, ?_⟩
        · exact forall_mem_cons.mpr ⟨hch hplain.1, hplain.2⟩
        · cases tail <;> simp_all

/-! ## What `lines` returns -/

theorem linesLoop_append (current : Str) (lastChWasCr : Bool) {line : Str} (hline : Plain line)
    (rest : Str) :
    linesLoop current lastChWasCr (line ++ rest) = linesLoop (current ++ line) lastChWasCr rest := by
  induction line generalizing current with
  | nil => simp
  | cons ch line ih =>
    simp only [Plain, mem_cons, not_or] at hline
    rw [cons_append, linesLoop, if_neg (Ne.symm hline.2.1), if_neg (Ne.symm hline.1.1),
      ih _ ⟨hline.1.2, hline.2.2⟩, append_assoc, singleton_append]

/-- The loop returns at most as many lines as there are, and it returns them all iff no line with a lone
LF comes after a lone CR. The line `before` is the one before the text. -/
theorem linesLoop_joinLines (terminated : List (Str × Terminator)) {last : Str}
    (hplain : ∀ line ∈ terminated, Plain line.1) (hlast : Plain last) (before : Str × Terminator) :
    (linesLoop [] (before.2 = .cr) (joinLines terminated last)).length ≤
        (pieces terminated last).length ∧
      (linesLoop [] (before.2 = .cr) (joinLines terminated last) = pieces terminated last ↔
        (before :: terminated).IsChain fun line next => ¬(line.2 = .cr ∧ next.2 = .lf)) := by
  induction terminated generalizing before with
  | nil =>
    have hloop := linesLoop_append [] (before.2 = .cr) hlast []
    rw [append_nil, nil_append] at hloop
    simp [joinLines, pieces, hloop, linesLoop]
  | cons line tail ih =>
    rw [forall_mem_cons] at hplain
    obtain ⟨hlength, hiff⟩ := ih hplain.2 line
    have hjoin : joinLines (line :: tail) last =
        line.1 ++ (line.2.chars ++ joinLines tail last) := by simp [joinLines]
    have hpieces : pieces (line :: tail) last = line.1 :: pieces tail last := rfl
    rw [hjoin, linesLoop_append _ _ hplain.1, nil_append, hpieces, isChain_cons_cons]
    by_cases hlost : before.2 = .cr ∧ line.2 = .lf
    · -- the line is lost, so that there are too few
      have hloop : linesLoop line.1 (before.2 = .cr) (line.2.chars ++ joinLines tail last) =
          linesLoop [] (line.2 = .cr) (joinLines tail last) := by
        simp [hlost, Terminator.chars, linesLoop]
      rw [hloop]
      refine ⟨hlength.trans (Nat.le_succ _), iff_of_false (fun h => ?_) fun h => h.1 hlost⟩
      rw [h, length_cons] at hlength
      omega
    · have hloop : linesLoop line.1 (before.2 = .cr) (line.2.chars ++ joinLines tail last) =
          line.1 :: linesLoop [] (line.2 = .cr) (joinLines tail last) := by
        cases hterminator : line.2 <;> simp_all [Terminator.chars, linesLoop]
      rw [hloop, List.cons.injEq, hiff]
      exact ⟨Nat.succ_le_succ hlength, by simp [hlost]⟩

/-- **Lines.** Every text consists of lines, and `lines(true)` returns exactly these iff no line that
ends with a lone LF comes right after a line that ends with a lone CR. -/
theorem lines_eq_iff (text : Str) :
    (∃ terminated last, IsSplit text terminated last) ∧
      ∀ terminated last, IsSplit text terminated last →
        (lines text true = pieces terminated last ↔
          terminated.IsChain fun line next => ¬(line.2 = .cr ∧ next.2 = .lf)) := by
  refine ⟨exists_isSplit text, ?_⟩
  rintro terminated last ⟨rfl, hplain, hlast, -⟩
  have hlines : lines (joinLines terminated last) true =
      linesLoop [] false (joinLines terminated last) := by
    rw [lines]
    split
    next h => rw [h, linesLoop, if_neg (by simp)]
    next => rfl
  rw [hlines]
  refine (linesLoop_joinLines terminated hplain hlast ([], .lf)).2.trans ?_
  cases terminated <;> simp

/-- The line `b` of a text with mixed terminators is lost. -/
theorem lines_loses_line :
    IsSplit ['a', '\r', 'b', '\n', 'c'] [(['a'], .cr), (['b'], .lf)] ['c'] ∧
      pieces [(['a'], .cr), (['b'], .lf)] ['c'] = [['a'], ['b'], ['c']] ∧
      lines ['a', '\r', 'b', '\n', 'c'] true = [['a'], ['c']] :=
  ⟨⟨rfl, by simp [Plain], by simp [Plain], by simp⟩, rfl, rfl⟩

end AK
