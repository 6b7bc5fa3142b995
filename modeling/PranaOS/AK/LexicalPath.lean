import Mathlib.Tactic

/-!
# `AK/LexicalPath`

A path is taken apart at its slashes, and `.` and `..` are resolved without looking at any file. A
string is the list of its characters.

Absolute paths have proper components (`proper_of_mem_parts`), and a path that is put together from
proper components is taken apart into them again (`parts_absolutePath`). Canonicalizing keeps what a
path denotes, but a relative path whose components cancel becomes the root, and the directory of a
relative path with one component is not told apart from the root (`denotesSame_iff`).
-/

namespace AK

open List

/-- The characters of a string. -/
abbrev Str := List Char

/-- The loop of `StringView::split_view`: `current` are the characters since the last separator. -/
def splitViewLoop (separator : Char) (keepEmpty : Bool) : Str → Str → List Str
  | current, [] => if current ≠ [] ∨ keepEmpty then [current] else []
  | current, ch :: rest =>
    if ch = separator then
      if current ≠ [] ∨ keepEmpty then current :: splitViewLoop separator keepEmpty [] rest
      else splitViewLoop separator keepEmpty [] rest
    else splitViewLoop separator keepEmpty (current ++ [ch]) rest

/-- `StringView::split_view`. -/
def splitView (self : Str) (separator : Char) (keepEmpty : Bool) : List Str :=
  if self = [] then [] else splitViewLoop separator keepEmpty [] self

namespace LexicalPath

/-- The component `.`. -/
def dot : Str := ['.']

/-- The component `..`. -/
def dotDot : Str := ['.', '.']

/-- The body of the loop of `canonicalize`. -/
def canonicalizePart (isAbsolute : Bool) (canonicalParts : List Str) (part : Str) : List Str :=
  if part = dot then canonicalParts
  else if part = dotDot ∧ canonicalParts = [] ∧ isAbsolute then canonicalParts
  else if part = dotDot ∧ canonicalParts ≠ [] ∧ canonicalParts.getLast? ≠ some dotDot then
    canonicalParts.dropLast
  else if part = [] then canonicalParts
  else canonicalParts ++ [part]

variable (path : Str)

/-- `m_is_absolute`. -/
def isAbsolute : Bool := path.head? = some '/'

/-- `parts`, as `canonicalize` computes them. -/
def parts : List Str :=
  (splitView path '/' false).foldl (canonicalizePart (isAbsolute path)) []

/-- `basename`. `canonicalize` leaves it empty if the path is. -/
def basename : Str :=
  if path = [] then [] else (parts path).getLast?.getD ['/']

/-- The loops of `canonicalize` that put parts together: `slash` says whether a slash comes first. -/
def appendParts (slash : Bool) : List Str → Str
  | [] => []
  | part :: rest => (if slash then '/' :: part else part) ++ appendParts true rest

/-- `dirname`. -/
def dirname : Str :=
  if path = [] then [] else if parts path = [] then ['/']
  else appendParts (isAbsolute path) (parts path).dropLast

/-- `canonicalized_path`. -/
def canonicalizedPath : Str :=
  if path = [] then [] else if parts path = [] then ['/']
  else appendParts (isAbsolute path) (parts path)

/-! ## Proper components -/

/-- A component that names an entry of a directory. -/
def Proper (part : Str) : Prop := part ≠ [] ∧ '/' ∉ part ∧ part ≠ dot ∧ part ≠ dotDot

instance (part : Str) : Decidable (Proper part) := inferInstanceAs (Decidable (_ ∧ _ ∧ _ ∧ _))

variable {path part current : Str} {l : List Str}

theorem of_mem_splitViewLoop (hcurrent : '/' ∉ current)
    (h : part ∈ splitViewLoop '/' false current path) : part ≠ [] ∧ '/' ∉ part := by
  induction path generalizing current with
  | nil =>
    rw [splitViewLoop] at h
    split at h
    next hne =>
      rw [mem_singleton.mp h]
      exact ⟨by simpa using hne, hcurrent⟩
    next => simp at h
  | cons ch rest ih =>
    rw [splitViewLoop] at h
    split at h
    next =>
      split at h
      next hne =>
        rcases mem_cons.mp h with rfl | h
        · exact ⟨by simpa using hne, hcurrent⟩
        · exact ih (by simp) h
      next => exact ih (by simp) h
    next hch => exact ih (by simp [hcurrent, Ne.symm hch]) h

theorem of_mem_splitView (h : part ∈ splitView path '/' false) : part ≠ [] ∧ '/' ∉ part := by
  rw [splitView] at h
  split at h
  · simp at h
  · exact of_mem_splitViewLoop (by simp) h

theorem splitViewLoop_append (current : Str) (hpart : '/' ∉ part) (keepEmpty : Bool) (rest : Str) :
    splitViewLoop '/' keepEmpty current (part ++ rest) =
      splitViewLoop '/' keepEmpty (current ++ part) rest := by
  induction part generalizing current with
  | nil => simp
  | cons ch part ih =>
    rw [mem_cons, not_or] at hpart
    rw [cons_append, splitViewLoop, if_neg (Ne.symm hpart.1), ih _ hpart.2, append_assoc]
    rfl

theorem splitViewLoop_flatMap (current : Str) (hl : ∀ p ∈ l, p ≠ [] ∧ '/' ∉ p) :
    splitViewLoop '/' false current (l.flatMap fun part => '/' :: part) =
      if current = [] then l else current :: l := by
  induction l generalizing current with
  | nil =>
    rw [flatMap_nil, splitViewLoop]
    by_cases h : current = [] <;> simp [h]
  | cons part l ih =>
    have hpart := hl part mem_cons_self
    rw [flatMap_cons, cons_append, splitViewLoop, if_pos rfl,
      splitViewLoop_append _ hpart.2, ih _ fun p hp => hl p (mem_cons_of_mem _ hp)]
    by_cases h : current = [] <;> simp [h, hpart.1]

theorem splitViewLoop_slash :
    splitViewLoop '/' false [] ('/' :: path) = splitViewLoop '/' false [] path := by
  rw [splitViewLoop, if_pos rfl, if_neg (by simp)]

/-! ## Canonical components -/

/-- The components are names, and canonicalizing keeps each of them behind those before it. -/
def Canonical (absolute : Bool) (l : List Str) : Prop :=
  (∀ p ∈ l, p ≠ [] ∧ '/' ∉ p) ∧
    ∀ front p, front ++ [p] <+: l → canonicalizePart absolute front p = front ++ [p]

variable {absolute : Bool}

theorem canonical_of_proper (absolute : Bool) (hl : ∀ p ∈ l, Proper p) : Canonical absolute l := by
  refine ⟨fun p hp => ⟨(hl p hp).1, (hl p hp).2.1⟩, fun front p hp => ?_⟩
  have hproper := hl p (hp.subset (by simp))
  simp [canonicalizePart, hproper.1, hproper.2.2.1, hproper.2.2.2]

/-- A component that has been kept is kept again. -/
theorem Canonical.canonicalizePart (hl : Canonical absolute l) (hpart : part ≠ [] ∧ '/' ∉ part) :
    Canonical absolute (canonicalizePart absolute l part) := by
  have hcases : LexicalPath.canonicalizePart absolute l part = l ∨
      LexicalPath.canonicalizePart absolute l part = l.dropLast ∨
      LexicalPath.canonicalizePart absolute l part = l ++ [part] := by
    unfold LexicalPath.canonicalizePart
    split_ifs <;> simp
  rcases hcases with h | h | h <;> rw [h]
  · exact hl
  · exact ⟨fun p hp => hl.1 p (mem_of_mem_dropLast hp),
      fun front p hp => hl.2 front p (hp.trans ( dropLast_prefix l))⟩
  · refine ⟨fun p hp => ?_, fun front p hp => ?_⟩
    · rcases mem_append.mp hp with hp | hp
      · exact hl.1 p hp
      · exact mem_singleton.mp hp ▸ hpart
    · rcases prefix_concat_iff.mp hp with heq | hp
      · obtain ⟨rfl, rfl⟩ := append_singleton_inj.mp heq
        exact h
      · exact hl.2 front p hp

theorem canonical_parts (path : Str) : Canonical (isAbsolute path) (parts path) :=
  List.foldlRecOn _ _ ⟨by simp, by simp⟩ fun _ hl _ hpart =>
    hl.canonicalizePart (of_mem_splitView hpart)

theorem Canonical.of_concat (hl : Canonical absolute (l ++ [part])) : Canonical absolute l :=
  ⟨fun p hp => hl.1 p (mem_append_left _ hp),
    fun front p hp => hl.2 front p (hp.trans (prefix_append _ _))⟩

theorem Canonical.foldl_eq (hl : Canonical absolute l) :
    l.foldl (LexicalPath.canonicalizePart absolute) [] = l := by
  induction l using List.reverseRecOn with
  | nil => rfl
  | append_singleton l part ih =>
    rw [foldl_append, ih hl.of_concat]
    exact hl.2 l part prefix_rfl

/-- At the root `..` does nothing, and elsewhere it cancels the component before it. -/
theorem Canonical.proper (hl : Canonical true l) : ∀ p ∈ l, Proper p := by
  induction l using List.reverseRecOn with
  | nil => simp
  | append_singleton l part ih =>
    have ih := ih hl.of_concat
    have hlast : l.getLast? ≠ some dotDot := fun h => (ih _ (mem_of_getLast? h)).2.2.2 rfl
    have hpart := hl.1 part (by simp)
    have hkept := congrArg List.length (hl.2 l part prefix_rfl)
    simp only [forall_mem_append, forall_mem_singleton]
    refine ⟨ih, hpart.1, hpart.2, ?_, ?_⟩
    · rintro rfl
      simp [LexicalPath.canonicalizePart] at hkept
    · rintro rfl
      have hdot : dotDot ≠ dot := by decide
      by_cases hnil : l = [] <;> simp [LexicalPath.canonicalizePart, hlast, hnil, hdot] at hkept

/-- The components of an absolute path are proper. -/
theorem proper_of_mem_parts (hpath : isAbsolute path = true) (h : part ∈ parts path) :
    Proper part :=
  (hpath ▸ canonical_parts path).proper part h

theorem parts_of_splitView (hl : ∀ p ∈ l, Proper p) (h : splitView path '/' false = l) :
    parts path = l := by
  rw [parts, h, (canonical_of_proper _ hl).foldl_eq]

theorem appendParts_true (l : List Str) :
    appendParts true l = l.flatMap fun part => '/' :: part := by
  induction l with
  | nil => rfl
  | cons part l ih => simp [appendParts, ih]

/-- A path that is put together from canonical parts is taken apart into them again. -/
theorem Canonical.appendParts (hl : Canonical absolute l) (hne : l ≠ []) :
    isAbsolute (appendParts absolute l) = absolute ∧
      splitView (LexicalPath.appendParts absolute l) '/' false = l ∧
      parts (LexicalPath.appendParts absolute l) = l := by
  obtain ⟨part, rest, rfl⟩ := exists_cons_of_ne_nil hne
  have hname := hl.1
  have hpart := hname part mem_cons_self
  have habsolute : isAbsolute (LexicalPath.appendParts absolute (part :: rest)) = absolute := by
    obtain ⟨ch, chars, rfl⟩ := exists_cons_of_ne_nil hpart.1
    cases absolute <;> simp_all [isAbsolute, LexicalPath.appendParts, eq_comm]
  have hsplit : splitView (LexicalPath.appendParts absolute (part :: rest)) '/' false =
      part :: rest := by
    cases absolute with
    | true =>
      rw [appendParts_true, splitView, if_neg (by simp), splitViewLoop_flatMap _ hname, if_pos rfl]
    | false =>
      have hrest := splitViewLoop_flatMap part fun p hp => hname p (mem_cons_of_mem _ hp)
      rw [LexicalPath.appendParts, appendParts_true, splitView, if_neg (by simp [hpart.1]),
        if_neg (by simp), splitViewLoop_append _ hpart.2, nil_append, hrest, if_neg hpart.1]
  exact ⟨habsolute, hsplit, by rw [parts, hsplit, habsolute, hl.foldl_eq]⟩

/-! ## Absolute paths -/

/-- The absolute path with the given components. -/
def absolutePath (l : List Str) : Str :=
  if l = [] then ['/'] else l.flatMap fun part => '/' :: part

/-- Taking apart what was put together from proper components. -/
theorem parts_absolutePath (hl : ∀ p ∈ l, Proper p) : parts (absolutePath l) = l := by
  rw [absolutePath]
  split
  next hnil => rw [hnil]; rfl
  next hne =>
    rw [← appendParts_true]
    exact ((canonical_of_proper true hl).appendParts hne).2.2

/-- A component may be appended to an absolute path, also to the root. -/
theorem parts_absolutePath_append (hl : ∀ p ∈ l ++ [part], Proper p) :
    parts (absolutePath l ++ '/' :: part) = l ++ [part] := by
  by_cases hnil : l = []
  · subst hnil
    refine parts_of_splitView hl ?_
    have hpart := splitViewLoop_flatMap [] (canonical_of_proper true hl).1
    rw [splitView, if_neg (by simp), absolutePath, if_pos rfl, cons_append, splitViewLoop_slash]
    simpa using hpart
  · have happend : absolutePath l ++ '/' :: part = absolutePath (l ++ [part]) := by
      rw [absolutePath, if_neg hnil, absolutePath, if_neg (by simp), flatMap_append]
      simp
    rw [happend, parts_absolutePath hl]

/-! ## Single components -/

theorem splitView_of_proper (hpart : Proper part) (keepEmpty : Bool) :
    splitView part '/' keepEmpty = [part] := by
  have happend := splitViewLoop_append [] hpart.2.1 keepEmpty []
  rw [append_nil, nil_append] at happend
  rw [splitView, if_neg hpart.1, happend, splitViewLoop, if_pos (.inl hpart.1)]

/-- The last component of a path that has one component. -/
theorem basename_of_proper (hpart : Proper part) : basename part = part := by
  have hparts : parts part = [part] :=
    parts_of_splitView (by simpa using hpart) (splitView_of_proper hpart false)
  rw [basename, if_neg hpart.1, hparts]
  rfl

/-! ## Canonical paths -/

/-- One step of the evaluation of a path, on a stack of components: `.` and empty components are skipped,
and `..` takes back a component, is dropped at the root and kept otherwise. -/
def resolve (absolute : Bool) (stack : List Str) (component : Str) : List Str :=
  if component = [] ∨ component = dot then stack
  else if component ≠ dotDot then component :: stack
  else
    match stack with
    | [] => if absolute then [] else [dotDot]
    | top :: below => if top = dotDot then dotDot :: top :: below else below

/-- The components that a path denotes. -/
def components (path : Str) : List Str :=
  ((splitView path '/' false).foldl (resolve (isAbsolute path)) []).reverse

/-- What canonicalizing a path and taking it apart should do. -/
structure DenotesSame (path : Str) : Prop where
  absolute : isAbsolute (canonicalizedPath path) = isAbsolute path
  idempotent : canonicalizedPath (canonicalizedPath path) = canonicalizedPath path
  components : splitView (canonicalizedPath path) '/' false = components path
  joined : isAbsolute (dirname path ++ '/' :: basename path) = isAbsolute path ∧
    LexicalPath.components (dirname path ++ '/' :: basename path) = LexicalPath.components path

theorem canonicalizePart_reverse (stack : List Str) (component : Str) :
    canonicalizePart absolute stack.reverse component = (resolve absolute stack component).reverse := by
  unfold canonicalizePart resolve
  by_cases hnil : component = []
  · simp [hnil, dot, dotDot]
  by_cases hdot : component = dot
  · simp [hdot]
  by_cases hdotDot : component = dotDot
  · rw [hdotDot] at hnil hdot
    cases stack with
    | nil => cases absolute <;> simp [hdotDot, hnil, hdot]
    | cons top below => by_cases htop : top = dotDot <;> simp [hdotDot, hnil, hdot, htop]
  · simp [hnil, hdot, hdotDot]

/-- The loop computes the components. -/
theorem parts_eq_components (path : Str) : parts path = components path := by
  rw [parts, ← reverse_nil]
  exact foldl_hom List.reverse fun _ _ => canonicalizePart_reverse _ _

/-- A path with parts is canonical when it is put together from them. -/
theorem denotesSame_of_joined (hparts : parts path ≠ [])
    (hjoined : dirname path ++ '/' :: basename path = appendParts (isAbsolute path) (parts path)) :
    DenotesSame path := by
  obtain ⟨habsolute, hsplit, hagain⟩ := (canonical_parts path).appendParts hparts
  have hne : appendParts (isAbsolute path) (parts path) ≠ [] := by
    intro h
    rw [h] at hagain
    exact hparts hagain.symm
  have hcanonical : canonicalizedPath path = appendParts (isAbsolute path) (parts path) := by
    rw [canonicalizedPath, if_neg, if_neg hparts]
    rintro rfl
    exact hparts rfl
  refine ⟨?_, ?_, ?_, ?_⟩
  · rw [hcanonical, habsolute]
  · rw [hcanonical, canonicalizedPath, if_neg hne, hagain, if_neg hparts, habsolute]
  · rw [hcanonical, hsplit, parts_eq_components]
  · rw [hjoined, habsolute, ← parts_eq_components, hagain, parts_eq_components]
    exact ⟨rfl, rfl⟩

/-- **Canonical paths.** Canonicalizing a path keeps whether it is absolute, is idempotent and yields
the components that the path denotes, and its directory and base name denote it again, iff the path is
absolute or denotes at least two components. -/
theorem denotesSame_iff (path : Str) :
    DenotesSame path ↔ isAbsolute path = true ∨ 2 ≤ (components path).length := by
  by_cases hnil : path = []
  · subst hnil
    exact iff_of_false (fun h => absurd h.joined.1 (by decide)) (by decide)
  rw [← parts_eq_components]
  rcases eq_nil_or_concat (parts path) with hparts | ⟨front, last, hparts⟩
  · -- everything cancels, and the result is the root
    have hcanonical : canonicalizedPath path = ['/'] := by simp [canonicalizedPath, hnil, hparts]
    have hdirname : dirname path = ['/'] := by simp [dirname, hnil, hparts]
    have hbasename : basename path = ['/'] := by simp [basename, hnil, hparts]
    have hcomponents : components path = [] := by rw [← parts_eq_components, hparts]
    rw [hparts]
    refine ⟨fun h => .inl ?_, fun h => ⟨?_, ?_, ?_, ?_⟩⟩
    · rw [← h.absolute, hcanonical]
      rfl
    · rw [hcanonical, h.resolve_right (by simp)]
      rfl
    · rw [hcanonical]
      decide
    · rw [hcanonical, hcomponents]
      decide
    · rw [hdirname, hbasename, hcomponents, h.resolve_right (by simp)]
      decide
  · have hne : parts path ≠ [] := by simp [hparts]
    have hdirname : dirname path = appendParts (isAbsolute path) front := by
      simp [dirname, hnil, hparts]
    have hbasename : basename path = last := by simp [basename, hnil, hparts]
    by_cases hfront : isAbsolute path = false ∧ front = []
    · -- a relative path with one component
      rw [hparts, hfront.1, hfront.2]
      refine iff_of_false (fun h => ?_) (by simp)
      have hjoined := h.joined.1
      rw [hdirname, hfront.1, hfront.2] at hjoined
      cases hjoined
    · refine iff_of_true (denotesSame_of_joined hne ?_) ?_
      · rw [hdirname, hbasename, hparts]
        cases front with
        | nil => simp_all [appendParts]
        | cons part rest => simp [appendParts, appendParts_true]
      · cases front <;> simp_all

/-- The components of `a/..` cancel, and the result is absolute; `a` has no directory. -/
theorem not_denotesSame_relative : ¬ DenotesSame ['a', '/', '.', '.'] ∧ ¬ DenotesSame ['a'] :=
  ⟨fun h => absurd h.absolute (by decide), fun h => absurd h.joined.1 (by decide)⟩

end LexicalPath

end AK
