import Mathlib.Data.List.Basic
import Mathlib.Data.List.Induction
import Mathlib.Tactic.IntervalCases
import Mathlib.Tactic.Linarith

/-!
# Words that are put together from pieces

Two words are put together from the same pieces, and each piece may read differently in them. Where
all pieces but one have the same letters of a kind on both sides, so has that one
(`countP_eq_of_flatMap`); a letter that is the same on both sides and has the same number of letters
of its kind before it cuts the words alike (`eq_of_append_cons`); and words whose pieces are of the
same lengths have the same pieces (`eq_of_flatMap`). Decimal numbers are the digit words without a
leading zero (`toDigits_ofDigitChars`).
-/

set_option autoImplicit false
set_option relaxedAutoImplicit false

namespace KSQLite.Naming

section Pieces

variable {Piece Letter : Type} {kind : Letter → Bool} {left right : List Letter}
  {first second : Piece → List Letter} {pieces : List Piece}

/-- A letter cuts a word where its own kind has been counted. -/
theorem eq_of_append_cons {mark other : Letter} {leftRest rightRest : List Letter}
    (hmark : kind mark = true) (hother : kind other = true)
    (hcount : left.countP kind = right.countP kind)
    (hwords : left ++ mark :: leftRest = right ++ other :: rightRest) :
    left = right ∧ leftRest = rightRest := by
  induction left generalizing right with
  | nil =>
    cases right with
    | nil => exact ⟨rfl, (List.cons.inj hwords).2⟩
    | cons letter rest =>
      obtain ⟨rfl, _⟩ := List.cons.inj hwords
      rw [List.countP_nil, List.countP_cons_of_pos hmark] at hcount
      omega
  | cons letter rest ih =>
    cases right with
    | nil =>
      obtain ⟨rfl, _⟩ := List.cons.inj hwords
      rw [List.countP_nil, List.countP_cons_of_pos hother] at hcount
      omega
    | cons head tail =>
      obtain ⟨rfl, hrest⟩ := List.cons.inj hwords
      have htail : rest.countP kind = tail.countP kind := by
        simpa only [List.countP_cons, Nat.add_right_cancel_iff] using hcount
      obtain ⟨rfl, hsame⟩ := ih htail hrest
      exact ⟨rfl, hsame⟩

/-- The letters of a kind, where all pieces but one have the same number of them. -/
theorem countP_flatMap [DecidableEq Piece] (odd : Piece)
    (hsame : ∀ piece ∈ pieces, piece ≠ odd →
      (first piece).countP kind = (second piece).countP kind) :
    (pieces.flatMap first).countP kind + pieces.count odd * (second odd).countP kind =
      (pieces.flatMap second).countP kind + pieces.count odd * (first odd).countP kind := by
  induction pieces with
  | nil => simp only [List.flatMap_nil, List.count_nil, Nat.zero_mul]
  | cons piece rest ih =>
    have hrest := ih fun other hother ↦ hsame other (List.mem_cons_of_mem _ hother)
    simp only [List.flatMap_cons, List.countP_append, List.count_cons, beq_iff_eq]
    by_cases hodd : piece = odd
    · subst hodd
      rw [if_pos rfl]
      linarith
    · have hpiece := hsame piece List.mem_cons_self hodd
      rw [if_neg hodd]
      linarith

/-- A piece has the letters of a kind that all the others leave it. -/
theorem countP_eq_of_flatMap [DecidableEq Piece] {odd : Piece} (hodd : odd ∈ pieces)
    (hsame : ∀ piece ∈ pieces, piece ≠ odd →
      (first piece).countP kind = (second piece).countP kind)
    (hcount : (pieces.flatMap first).countP kind = (pieces.flatMap second).countP kind) :
    (first odd).countP kind = (second odd).countP kind := by
  have hpieces := countP_flatMap odd hsame
  have hpositive : 0 < pieces.count odd := List.count_pos_iff.mpr hodd
  rw [hcount, Nat.add_left_cancel_iff] at hpieces
  exact (Nat.eq_of_mul_eq_mul_left hpositive hpieces).symm

/-- The length of a piece is what all the others leave it. -/
theorem length_eq_of_flatMap [DecidableEq Piece] {odd : Piece} (hodd : odd ∈ pieces)
    (hsame : ∀ piece ∈ pieces, piece ≠ odd → (first piece).length = (second piece).length)
    (hwords : pieces.flatMap first = pieces.flatMap second) :
    (first odd).length = (second odd).length := by
  have hcount : (first odd).countP (fun _ ↦ true) = (second odd).countP (fun _ ↦ true) :=
    countP_eq_of_flatMap hodd (fun piece hpiece hne ↦ by simpa using hsame piece hpiece hne)
      (by rw [hwords])
  simpa using hcount

/-- Words whose pieces are of the same lengths have the same pieces. -/
theorem eq_of_flatMap (hlength : ∀ piece ∈ pieces, (first piece).length = (second piece).length)
    (hwords : pieces.flatMap first = pieces.flatMap second) :
    ∀ piece ∈ pieces, first piece = second piece := by
  induction pieces with
  | nil => exact fun _ hpiece ↦ absurd hpiece List.not_mem_nil
  | cons piece rest ih =>
    rw [List.flatMap_cons, List.flatMap_cons] at hwords
    obtain ⟨hhead, hrest⟩ := List.append_inj hwords (hlength piece List.mem_cons_self)
    intro other hother
    rcases List.mem_cons.mp hother with rfl | hin
    · exact hhead
    · exact ih (fun last hlast ↦ hlength last (List.mem_cons_of_mem _ hlast)) hrest other hin

end Pieces

/-! ### Overlaps -/

section Overlaps

variable {Letter : Type} {gap front left right : List Letter} {shift : ℕ}

/-- A word agrees with itself where it is shifted. -/
def Overlaps (gap : List Letter) (shift : ℕ) : Prop :=
  gap.drop shift = gap.take (gap.length - shift)

instance [DecidableEq Letter] : Decidable (Overlaps gap shift) :=
  inferInstanceAs (Decidable (gap.drop shift = gap.take (gap.length - shift)))

/-- A word that is met again after something in front of it overlaps, and what follows it first goes
on with the overlap. -/
theorem overlaps_of_append (hfront : 0 < front.length)
    (hwords : gap ++ right = front ++ (gap ++ left)) :
    Overlaps gap front.length ∧
      (front.length ≤ gap.length → right.head? = (gap)[gap.length - front.length]?) := by
  by_cases hle : front.length ≤ gap.length
  · have hdropped := congrArg (List.drop front.length) hwords
    rw [List.drop_append_of_le_length hle, List.drop_left] at hdropped
    have hlength : (gap.drop front.length).length = gap.length - front.length := List.length_drop
    refine ⟨?_, fun _ ↦ ?_⟩
    · have htaken := congrArg (List.take (gap.length - front.length)) hdropped
      rwa [← hlength, List.take_left, hlength, List.take_append_of_le_length (Nat.sub_le _ _)]
        at htaken
    · have hindexed : (gap.drop front.length ++ right)[gap.length - front.length]? =
          (gap ++ left)[gap.length - front.length]? := by rw [hdropped]
      rw [List.getElem?_append_right hlength.le, hlength, Nat.sub_self,
        List.getElem?_append_left (by omega)] at hindexed
      rw [List.head?_eq_getElem?, hindexed]
  · have hshort : gap.length - front.length = 0 := by omega
    refine ⟨?_, fun hlength ↦ absurd hlength hle⟩
    rw [Overlaps, List.drop_of_length_le (Nat.le_of_not_le hle), hshort, List.take_zero]

/-- A word that overlaps is met again after something in front of it. -/
theorem exists_of_overlaps (filler : Letter) (hoverlaps : Overlaps gap shift) :
    ∃ front back, front.length = shift ∧ front ++ gap = gap ++ back ∧
      (∀ letter ∈ front, letter = filler ∨ letter ∈ gap) ∧
      (∀ letter ∈ back, letter = filler ∨ letter ∈ gap) ∧
      (0 < shift → back.head? =
        if shift ≤ gap.length then (gap)[gap.length - shift]? else some filler) := by
  by_cases hle : shift ≤ gap.length
  · refine ⟨gap.take shift, gap.drop (gap.length - shift), List.length_take_of_le hle, ?_,
      fun letter hletter ↦ Or.inr (List.mem_of_mem_take hletter),
      fun letter hletter ↦ Or.inr (List.mem_of_mem_drop hletter), fun _ ↦ ?_⟩
    · calc gap.take shift ++ gap
          = gap.take shift ++ (gap.take (gap.length - shift) ++ gap.drop (gap.length - shift)) := by
            rw [List.take_append_drop]
        _ = gap.take shift ++ (gap.drop shift ++ gap.drop (gap.length - shift)) := by
            rw [hoverlaps]
        _ = gap ++ gap.drop (gap.length - shift) := by
            rw [← List.append_assoc, List.take_append_drop]
    · rw [if_pos hle, List.head?_drop]
  · have hfill : ∀ letter ∈ List.replicate (shift - gap.length) filler, letter = filler :=
      fun letter hletter ↦ List.eq_of_mem_replicate hletter
    refine ⟨gap ++ List.replicate (shift - gap.length) filler,
      List.replicate (shift - gap.length) filler ++ gap, ?_, List.append_assoc _ _ _, ?_, ?_, ?_⟩
    · rw [List.length_append, List.length_replicate]
      omega
    · intro letter hletter
      exact (List.mem_append.mp hletter).symm.imp_left (hfill letter)
    · intro letter hletter
      exact (List.mem_append.mp hletter).imp_left (hfill letter)
    · intro _
      obtain ⟨count, hcount⟩ := Nat.exists_eq_add_of_lt (Nat.lt_of_not_le hle)
      rw [if_neg hle, hcount, Nat.add_assoc, Nat.add_sub_cancel_left, List.replicate_succ]
      rfl

end Overlaps

/-! ### Decimal numbers -/

section Decimals

variable {digits : List Char}

/-- A digit is that of its value. -/
theorem digitChar_of_isDigit {char : Char} (hdigit : char.isDigit = true) :
    (char.toNat - '0'.toNat).digitChar = char ∧ char.toNat - '0'.toNat < 10 := by
  have hbounds : 48 ≤ char.toNat ∧ char.toNat ≤ 57 := by
    simpa [Char.isDigit, UInt32.le_iff_toNat_le] using hdigit
  have hzero : '0'.toNat = 48 := rfl
  have hlt : char.toNat - '0'.toNat < 10 := by omega
  refine ⟨Char.toNat_inj.mp ?_, hlt⟩
  rw [Nat.toNat_digitChar_of_lt_ten hlt]
  omega

/-- A digit word without a leading zero is the decimal number of its value. -/
theorem toDigits_ofDigitChars (hdigits : ∀ char ∈ digits, char.isDigit = true)
    (hhead : ∀ char ∈ digits.head?, char ≠ '0') (hne : digits ≠ []) :
    Nat.toDigits 10 (Nat.ofDigitChars 10 digits 0) = digits := by
  induction digits using List.reverseRecOn with
  | nil => exact absurd rfl hne
  | append_singleton front char ih =>
    obtain ⟨hchar, hlt⟩ := digitChar_of_isDigit (hdigits char (by simp))
    rw [Nat.ofDigitChars_append, Nat.ofDigitChars_cons, Nat.ofDigitChars_nil]
    by_cases hfront : front = []
    · subst hfront
      rw [Nat.ofDigitChars_nil, Nat.mul_zero, Nat.zero_add, Nat.toDigits_of_lt_base hlt, hchar]
      rfl
    · have hhead' : ∀ char ∈ front.head?, char ≠ '0' := by
        rwa [List.head?_append_of_ne_nil _ hfront] at hhead
      have hvalue := ih (fun other hother ↦ hdigits other (by simp [hother])) hhead' hfront
      have hpositive : 0 < Nat.ofDigitChars 10 front 0 := by
        refine Nat.pos_of_ne_zero fun hzero ↦ ?_
        rw [hzero, Nat.toDigits_zero] at hvalue
        rw [← hvalue] at hhead'
        exact hhead' '0' rfl rfl
      rw [← Nat.toDigits_append_toDigits (by decide) hpositive hlt, hvalue,
        Nat.toDigits_of_lt_base hlt, hchar]

/-- A decimal number of more than one digit has no leading zero. -/
theorem head_toDigits_ne_zero {number : ℕ} (hlength : 1 < (Nat.toDigits 10 number).length) :
    ∀ char ∈ (Nat.toDigits 10 number).head?, char ≠ '0' := by
  induction number using Nat.strong_induction_on with
  | _ number ih =>
    have hten : 10 ≤ number := by
      by_contra hlt
      rw [Nat.toDigits_of_lt_base (by omega)] at hlength
      exact absurd hlength (by simp)
    rw [Nat.toDigits_of_base_le (by decide) hten,
      List.head?_append_of_ne_nil _ Nat.toDigits_ne_nil]
    by_cases hsmall : number / 10 < 10
    · rw [Nat.toDigits_of_lt_base hsmall]
      have hpositive : 0 < number / 10 := Nat.div_pos hten (by decide)
      generalize number / 10 = digit at hsmall hpositive
      interval_cases digit <;> simp
    · refine ih (number / 10) (by omega) ?_
      rw [Nat.toDigits_of_base_le (by decide) (Nat.le_of_not_lt hsmall), List.length_append]
      have hfront : 0 < (Nat.toDigits 10 (number / 10 / 10)).length := Nat.length_toDigits_pos
      simp only [List.length_singleton]
      omega

end Decimals

end KSQLite.Naming
