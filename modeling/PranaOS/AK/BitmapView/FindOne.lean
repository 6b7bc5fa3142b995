import PranaOS.AK.BitmapView.Bits

/-!
# The search for one bit

`find_first` and `find_one_anywhere` return only bits that have the value (`findOneAnywhere_sound`),
wherever the bytes of the bitmap lie. If these are aligned to a word, `find_one_anywhere` also finds a bit
whenever there is one in the whole bytes of the bitmap (`findOneAnywhere_spec`); the bits in a last byte
that is not whole are never looked at. If the bytes are not aligned, the ones in front of the first word
are a part of their own, and there are more cases in which a bit is missed, a bit behind the bitmap is
returned, or an assertion fails. `finds_iff` says exactly when the two functions return what they
should.
-/

namespace AK

namespace BitmapView

open Option hiding min_eq_left

variable {self : BitmapView} {memory : Memory} {value : Bool}

variable {w k i r lower hint endPointer limit : ℕ}

/-! ## Bits that have the value -/

/-- Some bit from `lower` on and before `bound` has the value. -/
def HasBit (self : BitmapView) (memory : Memory) (value : Bool) (lower bound : ℕ) : Prop :=
  ∃ i < bound, lower ≤ i ∧ self.bit memory i = value

instance {lower bound : ℕ} : Decidable (self.HasBit memory value lower bound) :=
  inferInstanceAs (Decidable (∃ i < bound, lower ≤ i ∧ self.bit memory i = value))

theorem not_hasBit_iff {bound : ℕ} : ¬self.HasBit memory value lower bound ↔
    ∀ i, lower ≤ i → i < bound → self.bit memory i = !value := by
  simp only [HasBit, not_exists, not_and, Bool.eq_not]
  exact ⟨fun h i hi hi' => h i hi' hi, fun h i hi' hi => h i hi hi'⟩

theorem not_hasBit_self : ¬self.HasBit memory value lower lower := by
  rintro ⟨i, hi, hlow, -⟩
  omega

theorem HasBit.mono {bound bound' : ℕ} (h : self.HasBit memory value lower bound)
    (hle : bound ≤ bound') : self.HasBit memory value lower bound' := by
  obtain ⟨i, hi, h⟩ := h
  exact ⟨i, hi.trans_le hle, h⟩

theorem not_hasBit_trans {mid bound : ℕ} (h : ¬self.HasBit memory value lower mid)
    (h' : ¬self.HasBit memory value mid bound) : ¬self.HasBit memory value lower bound := by
  rintro ⟨i, hi, hlow, hbit⟩
  rcases lt_or_ge i mid with hlt | hge
  · exact h ⟨i, hlt, hlow, hbit⟩
  · exact h' ⟨i, hi, hge, hbit⟩

/-- `r` is the first bit from `lower` on that has the value. -/
structure FirstBit (view : BitmapView) (memory : Memory) (value : Bool) (lower r : ℕ) : Prop where
  lower_le : lower ≤ r
  bit_eq : view.bit memory r = value
  before : ¬view.HasBit memory value lower r

/-- No bit before `lower` has the value. -/
theorem FirstBit.extend {lower' : ℕ} (h : self.FirstBit memory value lower r) (hle : lower' ≤ lower)
    (hnone : ¬self.HasBit memory value lower' lower) : self.FirstBit memory value lower' r :=
  ⟨hle.trans h.lower_le, h.bit_eq, not_hasBit_trans hnone h.before⟩

/-- The bit that is found first is inside a bound exactly if some bit is. -/
theorem FirstBit.lt_iff {bound : ℕ} (h : self.FirstBit memory value lower r) :
    r < bound ↔ self.HasBit memory value lower bound := by
  constructor
  · exact fun hlt => ⟨r, hlt, h.lower_le, h.bit_eq⟩
  · rintro ⟨i, hi, hlow, hbit⟩
    by_contra hge
    exact h.before ⟨i, by omega, hlow, hbit⟩

/-- A word in which no bit has the value. -/
theorem Holds.eq_without_iff {word : BitVec w} (h : self.Holds memory k word) :
    word = (if value then 0 else BitVec.allOnes w) ↔
      ¬self.HasBit memory value (8 * k) (8 * k + w) := by
  rw [not_hasBit_iff]
  constructor
  · intro heq i hi hi'
    obtain ⟨j, rfl⟩ := Nat.exists_eq_add_of_le hi
    have hj : j < w := by omega
    rw [← h j hj, heq]
    cases value <;> simp [hj]
  · intro hnone
    refine BitVec.eq_of_getLsbD_eq fun j hj => ?_
    rw [h j hj, hnone _ (by omega) (by omega)]
    cases value <;> simp [hj]

/-- The first bit of a word that has the value is found, if there is one. -/
theorem Holds.firstBitOf_cases {word : BitVec w} (h : self.Holds memory k word) (value : Bool) :
    (∃ r, firstBitOf value k word = some r ∧ self.FirstBit memory value (8 * k) r ∧ r < 8 * k + w) ∨
      firstBitOf value k word = none ∧ ¬self.HasBit memory value (8 * k) (8 * k + w) := by
  -- In the word that `ctz` is taken of, the set bits are those that have the value.
  have hset (j : ℕ) (hj : j < w) : (if value then word else ~~~word).getLsbD j = true ↔
      self.bit memory (8 * k + j) = value := by
    rw [← h j hj]
    cases value <;> simp [hj]
  simp only [firstBitOf]
  generalize (if value then word else ~~~word) = selected at hset
  have hnone (n : ℕ) (hn : n ≤ w) (hfalse : ∀ j < n, selected.getLsbD j = false) :
      ¬self.HasBit memory value (8 * k) (8 * k + n) := by
    rintro ⟨i, hi, hlow, hbit⟩
    obtain ⟨j, rfl⟩ := Nat.exists_eq_add_of_le hlow
    rw [← hset j (by omega), hfalse j (by omega)] at hbit
    cases hbit
  by_cases hzero : selected = 0
  · exact Or.inr ⟨by simp [hzero], hnone w le_rfl fun j _ => by simp [hzero]⟩
  · have htrue := BitVec.getLsbD_true_ctz_of_ne_zero hzero
    have hlt := BitVec.lt_of_getLsbD htrue
    refine Or.inl ⟨8 * k + selected.ctz.toNat, ?_, ⟨by omega, (hset _ hlt).mp htrue, ?_⟩, by omega⟩
    · simpa [Nat.mul_comm] using hzero
    · exact hnone _ hlt.le fun j hj => BitVec.getLsbD_false_of_lt_ctz hj

/-! ## Searches -/

/-- A loop over units of `width` bits skips those without a bit that has the value, up to the limit or to
one with such a bit. -/
theorem advanceWhile_spec {p : ℕ → Bool} {base width : ℕ}
    (hp : ∀ n, p n = true ↔
      ¬self.HasBit memory value (base + width * n) (base + width * n + width)) (i left : ℕ) :
    ∃ stop, advanceWhile p i left = stop ∧ i ≤ stop ∧ stop ≤ i + left ∧
      ¬self.HasBit memory value (base + width * i) (base + width * stop) ∧
      (stop < i + left →
        self.HasBit memory value (base + width * stop) (base + width * stop + width)) := by
  induction left generalizing i with
  | zero => exact ⟨i, rfl, le_rfl, le_rfl, not_hasBit_self, fun h => absurd h (lt_irrefl i)⟩
  | succ left ih =>
    rw [advanceWhile]
    cases hpi : p i with
    | false =>
      refine ⟨i, rfl, le_rfl, by omega, not_hasBit_self, fun _ => ?_⟩
      by_contra hnone
      rw [(hp i).mpr hnone] at hpi
      cases hpi
    | true =>
      obtain ⟨stop, hstop, hle, hle', hnone, hbit⟩ := ih (i + 1)
      rw [Nat.mul_succ, ← Nat.add_assoc] at hnone
      exact ⟨stop, by simpa using hstop, by omega, by omega,
        not_hasBit_trans ((hp i).mp hpi) hnone, fun hlt => hbit (by omega)⟩

/-- The search in the bytes from `i` on ends at the first bit that has the value, or at the limit if there
is none. -/
theorem skipBytes_first (value : Bool) (self : BitmapView) (memory : Memory) (hle : i ≤ limit) :
    (∃ r, skipBytes value self memory i limit < limit ∧
        firstBitOf value (skipBytes value self memory i limit)
          (memory (self.data + skipBytes value self memory i limit)) = some r ∧
        self.FirstBit memory value (8 * i) r ∧ r < 8 * limit) ∨
      skipBytes value self memory i limit = limit ∧
        ¬self.HasBit memory value (8 * i) (8 * limit) := by
  have hp (n : ℕ) : (memory (self.data + n) == byteWithout value) = true ↔
      ¬self.HasBit memory value (0 + 8 * n) (0 + 8 * n + 8) := by
    rw [beq_iff_eq, Nat.zero_add, ← (holds_byte n).eq_without_iff]
    cases value <;> rfl
  obtain ⟨stop, hstop, hlow, hhigh, hnone, hbit⟩ := advanceWhile_spec hp i (limit - i)
  simp only [Nat.zero_add] at hnone hbit
  rw [skipBytes, hstop]
  rcases hhigh.lt_or_eq with hlt | heq
  · left
    rcases (holds_byte stop).firstBitOf_cases value with ⟨r, hr, hfirst, hr'⟩ | ⟨-, hno⟩
    · exact ⟨r, by omega, hr, hfirst.extend (by omega) hnone, by omega⟩
    · exact absurd (hbit hlt) hno
  · obtain rfl : stop = limit := by omega
    exact Or.inr ⟨rfl, hnone⟩

variable (view : BitmapView)

/-- The search between the bits `lower` and `bound`: the result is the first bit there that has the value,
or `next` if there is none. -/
def Searches (memory : Memory) (value : Bool) (lower bound : ℕ)
    (result next : Option (Option ℕ ⊕ ℕ)) : Prop :=
  (∃ r, result = some (.inl (some r)) ∧ view.FirstBit memory value lower r ∧ r < bound) ∨
    ¬view.HasBit memory value lower bound ∧ result = next

variable {first last : ℕ}

/-- One search goes on where the other one ends. -/
theorem Searches.trans {mid bound : ℕ} {result next next' : Option (Option ℕ ⊕ ℕ)}
    (h : self.Searches memory value lower mid result next)
    (h' : self.Searches memory value mid bound next next') (hlow : lower ≤ mid) (hmid : mid ≤ bound) :
    self.Searches memory value lower bound result next' := by
  rcases h with ⟨r, hfound, hfirst, hr⟩ | ⟨hnone, rfl⟩
  · exact Or.inl ⟨r, hfound, hfirst, hr.trans_le hmid⟩
  · rcases h' with ⟨r, hfound, hfirst, hr⟩ | ⟨hnone', hnext⟩
    · exact Or.inl ⟨r, hfound, hfirst.extend hlow hnone, hr⟩
    · exact Or.inr ⟨not_hasBit_trans hnone hnone', hnext⟩

/-- The bytes behind the last word. -/
theorem findOneInBytes_searches (value : Bool) (memory : Memory) (hint : ℕ)
    (hle : first ≤ self.size / 8) :
    self.Searches memory value (8 * first) (8 * (self.size / 8))
      (findOneInBytes value self memory hint (self.data + first))
      (some (if hint ≤ 8 then .inl none else .inr (alignDown (self.data + hint / 8)))) := by
  simp only [findOneInBytes, Nat.add_sub_cancel_left, Nat.le_add_right, hle, and_self, verify_true,
    bind_eq_bind, bind_some, pure_def]
  rcases skipBytes_first value self memory hle with ⟨r, hlt, hr, hfirst, hr'⟩ | ⟨heq, hnone⟩
  · rw [if_neg hlt.ne, hr]
    exact Or.inl ⟨r, rfl, hfirst, hr'⟩
  · rw [if_pos heq]
    exact Or.inr ⟨hnone, by split <;> rfl⟩

/-- The words from the byte `first` on and before the byte `last`. -/
theorem findOneInWords_searches (value : Bool) (memory : Memory) (hint : ℕ) (hle : first ≤ last)
    (hwords : (last - first) % 4 = 0) (hend : alignDown endPointer = self.data + last) :
    self.Searches memory value (8 * first) (8 * last)
      (findOneInWords value self memory hint endPointer (self.data + first))
      (findOneInBytes value self memory hint (self.data + last)) := by
  have hp (n : ℕ) : (memory.load32 (self.data + first + 4 * n) == wordWithout value) = true ↔
      ¬self.HasBit memory value (8 * first + 32 * n) (8 * first + 32 * n + 32) := by
    have hword := @holds_load32 self memory (first + 4 * n)
    rw [beq_iff_eq, Nat.add_assoc, show 8 * first + 32 * n = 8 * (first + 4 * n) by omega,
      ← hword.eq_without_iff]
    cases value <;> rfl
  obtain ⟨stop, hstop, -, hhigh, hnone, hbit⟩ :=
    advanceWhile_spec hp 0 ((self.data + last - (self.data + first)) / 4)
  simp only [findOneInWords, hend, skipWords, hstop, bind_eq_bind, pure_def]
  rcases hhigh.lt_or_eq with hlt | heq
  · left
    rw [if_neg (by omega), Nat.add_assoc, Nat.add_sub_cancel_left]
    rw [show 8 * first + 32 * stop = 8 * (first + 4 * stop) by omega] at hnone hbit
    rcases (@holds_load32 self memory (first + 4 * stop)).firstBitOf_cases value with
      ⟨r, hr, hfirst, hr'⟩ | ⟨-, hno⟩
    · rw [hr]
      exact ⟨r, rfl, hfirst.extend (by omega) hnone, by omega⟩
    · exact absurd (hbit hlt) hno
  · right
    rw [show 8 * first + 32 * stop = 8 * last by omega] at hnone
    rw [show self.data + first + 4 * stop = self.data + last by omega, if_pos rfl]
    exact ⟨hnone, rfl⟩

/-- If the end is in front of the first word, the word is taken for one that has a bit with the value. -/
theorem findOneInWords_past (value : Bool) (memory : Memory) (hint : ℕ)
    (hend : alignDown endPointer < self.data + first) :
    self.Searches memory value (8 * first) (8 * first + 32)
      (findOneInWords value self memory hint endPointer (self.data + first)) none := by
  have hskip : skipWords value memory (self.data + first) (alignDown endPointer) =
      self.data + first := by
    rw [skipWords, Nat.sub_eq_zero_of_le hend.le]
    rfl
  simp only [findOneInWords, hskip, bind_eq_bind, pure_def]
  rw [if_neg hend.ne', Nat.add_sub_cancel_left]
  rcases (@holds_load32 self memory first).firstBitOf_cases value with
    ⟨r, hr, hfirst⟩ | ⟨hfails, hnone⟩
  · exact Or.inl ⟨r, by rw [hr, bind_some], hfirst⟩
  · exact Or.inr ⟨hnone, by rw [hfails, bind_none]⟩

/-! ## The passes -/

variable (self)

/-- The number of bytes in front of the first word. -/
def unaligned : ℕ := (4 - self.data % 4) % 4

/-- The first byte of the word that contains the byte `k`, or of the first word. -/
def wordStart (k : ℕ) : ℕ := self.unaligned + 4 * ((k - self.unaligned) / 4)

theorem wordStart_zero : self.wordStart 0 = self.unaligned := by
  unfold wordStart
  omega

variable {self}
theorem alignDown_of_lt_unaligned (hk : k < self.unaligned) :
    alignDown (self.data + k) = self.data - self.data % 4 ∧ self.data % 4 ≠ 0 := by
  unfold unaligned at hk
  unfold alignDown
  omega

theorem alignDown_of_unaligned_le (hk : self.unaligned ≤ k) :
    alignDown (self.data + k) = self.data + self.wordStart k := by
  unfold wordStart
  unfold unaligned at *
  unfold alignDown
  omega

/-- The rest of a pass from the word of the byte `k` on, where the bytes before the word of the byte `m`
are scanned as words. -/
theorem findOneInWords_spec {m : ℕ} (value : Bool) (memory : Memory) (hint : ℕ) (hkm : k ≤ m)
    (hle : self.unaligned ≤ m) (hm : m ≤ self.size / 8)
    (hend : alignDown endPointer = self.data + self.wordStart m) :
    self.Searches memory value (8 * self.wordStart k) (8 * (self.size / 8))
      (findOneInWords value self memory hint endPointer (self.data + self.wordStart k))
      (some (if hint ≤ 8 then .inl none else .inr (alignDown (self.data + hint / 8)))) := by
  have hwords : self.wordStart k ≤ self.wordStart m ∧
      (self.wordStart m - self.wordStart k) % 4 = 0 ∧ self.wordStart m ≤ self.size / 8 := by
    unfold wordStart
    omega
  exact (findOneInWords_searches value memory hint hwords.1 hwords.2.1 hend).trans
    (findOneInBytes_searches value memory hint hwords.2.2) (by omega) (by omega)

/-- A pass that begins in front of the first word looks at the bytes there, even at those behind the
bitmap. -/
theorem findOnePass_beginning (value : Bool) (memory : Memory) (endPointer : ℕ)
    (hhint : hint / 8 < self.unaligned) :
    self.Searches memory value 0 (8 * self.unaligned) (findOnePass value self memory hint endPointer)
      (findOneInWords value self memory hint endPointer (self.data + self.unaligned)) := by
  obtain ⟨halign, hmod⟩ := alignDown_of_lt_unaligned hhint
  have hpointer : self.data - self.data % 4 + 4 = self.data + self.unaligned := by
    unfold unaligned
    omega
  simp only [findOnePass, halign, bind_eq_bind, pure_def]
  rw [if_pos (by omega), hpointer, Nat.add_sub_cancel_left]
  rcases skipBytes_first value self memory (Nat.zero_le self.unaligned) with
    ⟨r, hlt, hr, hfirst⟩ | ⟨heq, hnone⟩
  · rw [if_pos hlt, hr]
    exact Or.inl ⟨r, rfl, hfirst⟩
  · rw [heq, if_neg (lt_irrefl _)]
    exact Or.inr ⟨hnone, rfl⟩

/-- Any other pass begins with a word. -/
theorem findOnePass_behind (value : Bool) (memory : Memory) (endPointer : ℕ)
    (hhint : self.unaligned ≤ hint / 8) :
    findOnePass value self memory hint endPointer =
      findOneInWords value self memory hint endPointer (self.data + self.wordStart (hint / 8)) := by
  simp only [findOnePass, alignDown_of_unaligned_le hhint]
  rw [if_neg (by omega)]

/-- A pass from the beginning on looks at all the whole bytes. -/
theorem findOnePass_zero (value : Bool) (memory : Memory) (hle : self.unaligned ≤ k)
    (hk : k ≤ self.size / 8) :
    self.Searches memory value 0 (8 * (self.size / 8))
      (findOnePass value self memory 0 (alignDown (self.data + k))) (some (.inl none)) := by
  have hend : alignDown (alignDown (self.data + k)) = self.data + self.wordStart k := by
    rw [← alignDown_of_unaligned_le hle]
    unfold alignDown
    omega
  have hspec := findOneInWords_spec value memory 0 (Nat.zero_le k) hle hk hend
  rcases Nat.eq_zero_or_pos self.unaligned with hzero | hpos
  · rw [findOnePass_behind value memory _ (by omega)]
    rw [wordStart_zero, hzero] at hspec ⊢
    exact hspec
  · rw [wordStart_zero] at hspec
    exact (findOnePass_beginning value memory _ (by omega)).trans hspec (by omega) (by omega)

/-! ## Soundness -/

/-- A bit that is returned has the value. -/
def Sound (memory : Memory) (value : Bool) (result : Option (Option ℕ ⊕ ℕ)) : Prop :=
  ∀ r, result = some (.inl (some r)) → view.bit memory r = value

theorem Searches.sound {bound : ℕ} {result next : Option (Option ℕ ⊕ ℕ)}
    (h : self.Searches memory value lower bound result next) (hnext : self.Sound memory value next) :
    self.Sound memory value result := by
  rcases h with ⟨r, rfl, hfirst, -⟩ | ⟨-, rfl⟩
  · rintro _ ⟨⟩
    exact hfirst.bit_eq
  · exact hnext

theorem findOneInBytes_sound : self.Sound memory value
    (findOneInBytes value self memory hint (self.data + first)) := by
  by_cases hle : first ≤ self.size / 8
  · refine (findOneInBytes_searches value memory hint hle).sound fun r => ?_
    split <;> simp
  · simp [Sound, findOneInBytes, hle]

theorem findOneInWords_sound (hfirst : (self.data + first) % 4 = 0) : self.Sound memory value
    (findOneInWords value self memory hint endPointer (self.data + first)) := by
  by_cases hend : alignDown endPointer < self.data + first
  · exact (findOneInWords_past value memory hint hend).sound (by simp [Sound])
  · obtain ⟨last, hlast⟩ := Nat.exists_eq_add_of_le
      ((Nat.le_add_right self.data first).trans (not_lt.mp hend))
    refine (findOneInWords_searches value memory hint ?_ ?_ hlast).sound findOneInBytes_sound
    · omega
    · unfold alignDown at hlast
      omega

theorem findOnePass_sound : self.Sound memory value (findOnePass value self memory hint endPointer) := by
  by_cases hhint : hint / 8 < self.unaligned
  · refine (findOnePass_beginning value memory endPointer hhint).sound (findOneInWords_sound ?_)
    unfold unaligned
    omega
  · rw [findOnePass_behind value memory endPointer (not_lt.mp hhint)]
    apply findOneInWords_sound
    unfold wordStart unaligned
    omega

/-- A bit that is found has the value. -/
theorem findOneAnywhere_sound (h : findOneAnywhere value self memory hint = some (some r)) :
    self.bit memory r = value := by
  simp only [findOneAnywhere, verify_optionBind_eq_some, bind_eq_bind, pure_def] at h
  obtain ⟨-, h⟩ := h
  obtain ⟨first, hfirst, h⟩ := bind_eq_some_iff.mp h
  cases first with
  | inl result =>
    rw [some.inj h] at hfirst
    exact findOnePass_sound r hfirst
  | inr endPointer =>
    obtain ⟨second, hsecond, h⟩ := bind_eq_some_iff.mp h
    cases second with
    | inl result =>
      rw [some.inj h] at hsecond
      exact findOnePass_sound r hsecond
    | inr endPointer => simp at h

/-! ## When the right bit is found -/

/-- What `find_first` is for. -/
def FindsFirst (value : Bool) (self : BitmapView) (memory : Memory) : Prop :=
  ∃ result, findFirst value self memory = some result ∧
    (∀ r, result = some r → IsLeast {i | i < self.size ∧ self.bit memory i = value} r) ∧
    (result = none → ¬self.HasBit memory value 0 self.size)

/-- What `find_one_anywhere` is for. -/
def FindsOne (value : Bool) (self : BitmapView) (memory : Memory) (hint : ℕ) : Prop :=
  ∃ result, findOneAnywhere value self memory hint = some result ∧
    (∀ r, result = some r → r < self.size ∧ self.bit memory r = value) ∧
    (result = none → ¬self.HasBit memory value 0 self.size)

/-- The value is the one of a bit in the whole bytes, or of no bit at all. -/
def InWholeBytes (value : Bool) (self : BitmapView) (memory : Memory) : Prop :=
  self.HasBit memory value 0 (8 * (self.size / 8)) ∨ ¬self.HasBit memory value 0 self.size

instance : Decidable (InWholeBytes value self memory) := inferInstanceAs (Decidable (_ ∨ _))

/-- When `find_one_anywhere` finds what it should. If the bytes of the bitmap are aligned, or the hint is
behind the first word, only the bits behind the whole bytes are missed. If they are not aligned and the hint
is in front of the first word, the first bit in front of that word has to be inside the bitmap; if there is
none, the word has to begin inside the bitmap, and without a bit in the whole bytes the search goes on
behind them with a hint above 8. The hint 8 is taken for the beginning of the bitmap. -/
def Findable (value : Bool) (self : BitmapView) (memory : Memory) (hint : ℕ) : Prop :=
  if self.unaligned = 0 then InWholeBytes value self memory
  else if hint / 8 < self.unaligned then
    if self.HasBit memory value 0 (8 * self.unaligned) then
      self.HasBit memory value 0 (min (8 * self.unaligned) self.size)
    else
      self.unaligned ≤ self.size / 8 ∧
        (self.HasBit memory value (8 * self.unaligned) (8 * (self.size / 8)) ∨
          if hint ≤ 8 then ¬self.HasBit memory value 0 self.size
          else self.HasBit memory value (8 * self.unaligned)
            (min (8 * self.unaligned + 32) self.size))
  else if hint = 8 then
    self.HasBit memory value 8 (8 * (self.size / 8)) ∨ ¬self.HasBit memory value 0 self.size
  else InWholeBytes value self memory

instance {hint : ℕ} : Decidable (Findable value self memory hint) := by
  unfold Findable
  infer_instance

/-! ### The search from a hint -/

/-- A search from a hint that is not in front of the first word finds a bit in the whole bytes if there is
one there, unless the hint is taken for the beginning of the bitmap and the first word is not. -/
theorem findOneAnywhere_spec (hsize : hint < self.size) (hhint : self.unaligned ≤ hint / 8)
    (hbegin : 8 < hint ∨ self.unaligned = 0) :
    (∃ r, findOneAnywhere value self memory hint = some (some r) ∧ r < 8 * (self.size / 8) ∧
        self.bit memory r = value) ∨
      findOneAnywhere value self memory hint = some none ∧
        ¬self.HasBit memory value 0 (8 * (self.size / 8)) := by
  have hword : self.unaligned ≤ self.size / 8 := by omega
  simp only [findOneAnywhere, hsize, verify_true, bind_eq_bind, bind_some,
    pure_def, findOnePass_behind value memory _ hhint]
  rcases findOneInWords_spec value memory hint (show hint / 8 ≤ self.size / 8 by omega) hword le_rfl
    (alignDown_of_unaligned_le hword) with ⟨r, hfound, hfirst, hr⟩ | ⟨hnone, hrest⟩
  · rw [hfound]
    exact Or.inl ⟨r, rfl, hr, hfirst.bit_eq⟩
  rw [hrest]
  by_cases hsmall : hint ≤ 8
  · have hzero : self.wordStart (hint / 8) = 0 := by
      unfold wordStart
      omega
    rw [hzero] at hnone
    rw [if_pos hsmall]
    exact Or.inr ⟨rfl, hnone⟩
  · -- The second pass scans what is in front of the word that contains the hint.
    rw [if_neg hsmall]
    simp only [bind_some]
    rcases findOnePass_zero value memory hhint (by omega) with
      ⟨r, hfound, hfirst, hr⟩ | ⟨hnone, hfound⟩
    · rw [hfound]
      exact Or.inl ⟨r, rfl, hr, hfirst.bit_eq⟩
    · rw [hfound]
      exact Or.inr ⟨rfl, hnone⟩

/-- The result of a pass is right; if the pass is to be repeated, `repeated` says whether that is. -/
def Right (memory : Memory) (value : Bool) (repeated : ℕ → Prop) :
    Option (Option ℕ ⊕ ℕ) → Prop
  | some (.inl (some r)) => r < view.size
  | some (.inl none) => ¬view.HasBit memory value 0 view.size
  | some (.inr endPointer) => repeated endPointer
  | none => False

/-- A search that finds a bit is right if the bit is inside the bitmap. -/
theorem Searches.right_iff {bound : ℕ} {result next : Option (Option ℕ ⊕ ℕ)} {repeated : ℕ → Prop}
    (h : self.Searches memory value lower bound result next) :
    self.Right memory value repeated result ↔ if self.HasBit memory value lower bound then
      self.HasBit memory value lower (min bound self.size) else self.Right memory value repeated next := by
  rcases h with ⟨r, rfl, hfirst, hr⟩ | ⟨hnone, rfl⟩
  · rw [if_pos (hfirst.lt_iff.mp hr), ← hfirst.lt_iff, Right, lt_min_iff, and_iff_right hr]
  · rw [if_neg hnone]

theorem findsOne_iff_right (hsize : hint < self.size) : FindsOne value self memory hint ↔
    self.Right memory value
      (fun endPointer => self.Right memory value (fun _ => False)
        (findOnePass value self memory 0 endPointer))
      (findOnePass value self memory hint (self.data + self.size / 8)) := by
  simp only [FindsOne, findOneAnywhere, hsize, verify_true, bind_eq_bind, bind_some, pure_def]
  rcases hfirst : findOnePass value self memory hint (self.data + self.size / 8) with
    _ | (_ | r) | endPointer
  · simp [Right]
  · simp [Right]
  · simp [Right, findOnePass_sound r hfirst]
  · simp only [Right, bind_some]
    rcases hsecond : findOnePass value self memory 0 endPointer with _ | (_ | r) | _
    · simp
    · simp
    · simp [findOnePass_sound r hsecond]
    · simp

/-- The hint is in front of the first word. -/
theorem findsOne_beginning_iff (hsize : hint < self.size) (hhint : hint / 8 < self.unaligned) :
    FindsOne value self memory hint ↔ Findable value self memory hint := by
  have hunaligned : self.unaligned ≠ 0 := by omega
  rw [Findable, if_neg hunaligned, if_pos hhint, findsOne_iff_right hsize,
    (findOnePass_beginning value memory _ hhint).right_iff]
  by_cases hfront : self.HasBit memory value 0 (8 * self.unaligned)
  · rw [if_pos hfront, if_pos hfront]
  rw [if_neg hfront, if_neg hfront]
  by_cases hword : self.unaligned ≤ self.size / 8
  · have hspec := findOneInWords_spec value memory hint (Nat.zero_le _) hword le_rfl
      (alignDown_of_unaligned_le hword)
    rw [wordStart_zero] at hspec
    rw [and_iff_right hword, hspec.right_iff, min_eq_left (by omega)]
    by_cases hbit : self.HasBit memory value (8 * self.unaligned) (8 * (self.size / 8))
    · simp [hbit]
    rw [if_neg hbit, or_iff_right hbit]
    by_cases hsmall : hint ≤ 8
    · rw [if_pos hsmall, if_pos hsmall, Right]
    · -- The second pass ends in front of the first word, but the word is read all the same.
      obtain ⟨halign, hmod⟩ := alignDown_of_lt_unaligned hhint
      have hpast : alignDown (self.data - self.data % 4) < self.data + self.unaligned := by
        unfold alignDown
        omega
      rw [if_neg hsmall, if_neg hsmall, halign, Right,
        (findOnePass_beginning value memory _ (show 0 / 8 < self.unaligned by omega)).right_iff,
        if_neg hfront, (findOneInWords_past value memory 0 hpast).right_iff]
      split
      next => rfl
      next hnone => exact iff_of_false id fun hbit => hnone (hbit.mono (min_le_left _ _))
  · -- The first word is behind the bitmap.
    have hpast : alignDown (self.data + self.size / 8) < self.data + self.unaligned := by
      obtain ⟨halign, -⟩ := alignDown_of_lt_unaligned (not_le.mp hword)
      omega
    rw [(findOneInWords_past value memory hint hpast).right_iff]
    refine iff_of_false ?_ fun h => hword h.1
    split
    next =>
      rintro ⟨i, hi, hlow, -⟩
      omega
    next => exact id

/-- The hint is the second byte and the first word begins there: the bits of the first byte are never
looked at. -/
theorem findsOne_eight_iff (hsize : 8 < self.size) (hone : self.unaligned = 1) :
    FindsOne value self memory 8 ↔ Findable value self memory 8 := by
  have hspec := findOneInWords_spec value memory 8 (show 8 / 8 ≤ self.size / 8 by omega) (by omega)
    le_rfl (alignDown_of_unaligned_le (by omega))
  have hstart : self.wordStart (8 / 8) = 1 := by
    unfold wordStart
    omega
  rw [Findable, hone, if_neg (by decide), if_neg (by decide), if_pos rfl, findsOne_iff_right hsize,
    findOnePass_behind value memory _ (by omega), hspec.right_iff, hstart, min_eq_left (by omega),
    if_pos le_rfl, Right]
  by_cases hbit : self.HasBit memory value 8 (8 * (self.size / 8)) <;> simp [hbit]

/-- `find_one_anywhere` finds what it should exactly if the bit is findable from the hint. -/
theorem findsOne_iff_findable (hsize : hint < self.size) :
    FindsOne value self memory hint ↔ Findable value self memory hint := by
  by_cases hhint : hint / 8 < self.unaligned
  · exact findsOne_beginning_iff hsize hhint
  by_cases hbegin : 8 < hint ∨ self.unaligned = 0
  · have hwhole : Findable value self memory hint = InWholeBytes value self memory := by
      unfold Findable
      split_ifs with hzero height
      · rfl
      · omega
      · rfl
    rw [hwhole, FindsOne, InWholeBytes]
    rcases @findOneAnywhere_spec self memory value hint hsize (not_lt.mp hhint) hbegin with
      ⟨r, hfound, hr, hbit⟩ | ⟨hfound, hnone⟩
    · refine iff_of_true ⟨_, hfound, ?_, by simp⟩ (Or.inl ⟨r, hr, Nat.zero_le r, hbit⟩)
      rintro _ ⟨⟩
      exact ⟨by omega, hbit⟩
    · simp [hfound, hnone]
  · obtain rfl : hint = 8 := by omega
    exact findsOne_eight_iff hsize (by omega)

/-- `find_first` finds what it should exactly if the bit is in the whole bytes. -/
theorem findsFirst_iff_inWholeBytes :
    FindsFirst value self memory ↔ InWholeBytes value self memory := by
  unfold FindsFirst
  simp only [findFirst, bind_eq_bind, pure_def]
  rcases skipBytes_first value self memory (Nat.zero_le (self.size / 8)) with
    ⟨r, hlt, hr, hfirst, hr'⟩ | ⟨heq, hnone⟩
  · rw [if_neg hlt.ne, hr, bind_some]
    refine iff_of_true ⟨_, rfl, ?_, by simp⟩ (Or.inl (hfirst.lt_iff.mp hr'))
    rintro _ ⟨⟩
    refine ⟨⟨by omega, hfirst.bit_eq⟩, fun i hi => ?_⟩
    exact Nat.lt_succ_iff.mp (hfirst.lt_iff.mpr ⟨i, Nat.lt_succ_self i, Nat.zero_le i, hi.2⟩)
  · rw [if_pos heq, InWholeBytes, or_iff_right hnone]
    constructor
    · rintro ⟨_, ⟨⟩, -, hnot⟩
      exact hnot rfl
    · exact fun hnot => ⟨none, rfl, by simp, fun _ => hnot⟩

/-- When the searches for one bit return what they should. -/
theorem finds_iff (value : Bool) (self : BitmapView) (memory : Memory) (hint : ℕ)
    (hsize : hint < self.size) :
    (FindsOne value self memory hint ↔ Findable value self memory hint) ∧
      (FindsFirst value self memory ↔ InWholeBytes value self memory) :=
  ⟨findsOne_iff_findable hsize, findsFirst_iff_inWholeBytes⟩

/-- A bitmap of 12 bits that is not aligned, and of which bit 3 is set. -/
theorem finds_iff_unaligned :
    FindsOne true ⟨1, 12⟩ (fun address => if address = 1 then 8 else 0) 5 ∧
      FindsFirst true ⟨1, 12⟩ (fun address => if address = 1 then 8 else 0) := by
  obtain ⟨hone, hfirst⟩ := finds_iff true ⟨1, 12⟩ (fun address => if address = 1 then 8 else 0) 5
    (by decide)
  exact ⟨hone.mpr (by decide +kernel), hfirst.mpr (by decide +kernel)⟩

/-- In an aligned bitmap of 4 bits that are all unset, no unset bit is found. -/
theorem unset_bit_missed : findOneAnywhere false ⟨0, 4⟩ (fun _ => 0) 0 = some none ∧
    findFirst false ⟨0, 4⟩ (fun _ => 0) = some none ∧
    ¬FindsOne false ⟨0, 4⟩ (fun _ => 0) 0 ∧ ¬FindsFirst false ⟨0, 4⟩ (fun _ => 0) := by
  refine ⟨by decide +kernel, by decide +kernel, ?_, ?_⟩
  · rw [findsOne_iff_findable (by decide)]
    decide +kernel
  · rw [findsFirst_iff_inWholeBytes]
    decide +kernel

end BitmapView

end AK
