import Mathlib.Data.List.Basic

/-!
# Quoted literals

A word becomes a literal between two quotes once every quote in it is doubled. A literal is read
back in one way only (`double_inj`), and where a word is met that stands at a lone quote, the quote
is the one that opens a literal or the one that closes it, and not one of a doubled pair
(`cut_plain`, `cut_double`).
-/

set_option autoImplicit false
set_option relaxedAutoImplicit false

namespace KSQLite.Schema

variable {Letter : Type} {quote : Letter}

/-- A quote behind a text without one is the first quote, or comes after it. -/
theorem cut_plain {plain rest front back : List Letter} (hplain : quote ∉ plain)
    (hwords : plain ++ quote :: rest = front ++ quote :: back) :
    front = plain ∧ back = rest ∨
      ∃ later, front = plain ++ quote :: later ∧ rest = later ++ quote :: back := by
  induction plain generalizing front with
  | nil =>
    cases front with
    | nil => exact Or.inl ⟨rfl, (List.cons.inj hwords).2.symm⟩
    | cons letter later =>
      obtain ⟨rfl, hrest⟩ := List.cons.inj hwords
      exact Or.inr ⟨later, rfl, hrest⟩
  | cons letter tail ih =>
    obtain ⟨hletter, htail⟩ := not_or.mp (mt List.mem_cons.mpr hplain)
    cases front with
    | nil => exact absurd (List.cons.inj hwords).1.symm hletter
    | cons head front =>
      obtain ⟨rfl, hrest⟩ := List.cons.inj hwords
      rcases ih htail hrest with ⟨rfl, rfl⟩ | ⟨later, rfl, hlater⟩
      · exact Or.inl ⟨rfl, rfl⟩
      · exact Or.inr ⟨later, rfl, hlater⟩

/-- Texts that go on behind the same letter without it are cut alike at its last occurrence. -/
theorem cut_last {left right first second : List Letter} (hfirst : quote ∉ first)
    (hsecond : quote ∉ second) (hwords : left ++ quote :: first = right ++ quote :: second) :
    left = right ∧ first = second := by
  have hreversed := congrArg List.reverse hwords
  simp only [List.reverse_append, List.reverse_cons, List.append_assoc, List.singleton_append]
    at hreversed
  have hplain : quote ∉ first.reverse := fun hmem ↦ hfirst (List.mem_reverse.mp hmem)
  rcases cut_plain hplain hreversed with ⟨hsame, hrest⟩ | ⟨later, hlonger, _⟩
  · exact ⟨(List.reverse_inj.mp hrest).symm, (List.reverse_inj.mp hsame).symm⟩
  · refine absurd (List.mem_reverse.mp ?_) hsecond
    rw [hlonger]
    exact List.mem_append_right _ List.mem_cons_self

variable [DecidableEq Letter]

/-- A word with every quote doubled. -/
def double (quote : Letter) : List Letter → List Letter
  | [] => []
  | letter :: rest =>
    if letter = quote then quote :: quote :: double quote rest else letter :: double quote rest

theorem double_cons_self (rest : List Letter) :
    double quote (quote :: rest) = quote :: quote :: double quote rest := if_pos rfl

theorem double_cons_of_ne {letter : Letter} (hletter : letter ≠ quote) (rest : List Letter) :
    double quote (letter :: rest) = letter :: double quote rest := if_neg hletter

/-- A literal that ends at a lone quote is read back in one way. -/
theorem double_inj {first second rest later : List Letter} (hrest : rest.head? ≠ some quote)
    (hlater : later.head? ≠ some quote)
    (hwords : double quote first ++ quote :: rest = double quote second ++ quote :: later) :
    first = second ∧ rest = later := by
  induction first generalizing second with
  | nil =>
    cases second with
    | nil => exact ⟨rfl, (List.cons.inj hwords).2⟩
    | cons letter tail =>
      by_cases hletter : letter = quote
      · subst hletter
        rw [double_cons_self] at hwords
        obtain ⟨_, hdoubled⟩ := List.cons.inj hwords
        rw [hdoubled] at hrest
        exact absurd rfl hrest
      · rw [double_cons_of_ne hletter] at hwords
        exact absurd (List.cons.inj hwords).1.symm hletter
  | cons letter tail ih =>
    by_cases hletter : letter = quote
    · subst hletter
      rw [double_cons_self] at hwords
      cases second with
      | nil =>
        obtain ⟨_, hdoubled⟩ := List.cons.inj hwords
        rw [← hdoubled] at hlater
        exact absurd rfl hlater
      | cons head other =>
        by_cases hhead : head = letter
        · subst hhead
          rw [double_cons_self] at hwords
          obtain ⟨rfl, hsame⟩ := ih (List.cons.inj (List.cons.inj hwords).2).2
          exact ⟨rfl, hsame⟩
        · rw [double_cons_of_ne hhead] at hwords
          exact absurd (List.cons.inj hwords).1.symm hhead
    · rw [double_cons_of_ne hletter] at hwords
      cases second with
      | nil => exact absurd (List.cons.inj hwords).1 hletter
      | cons head other =>
        by_cases hhead : head = quote
        · subst hhead
          rw [double_cons_self] at hwords
          exact absurd (List.cons.inj hwords).1 hletter
        · rw [double_cons_of_ne hhead] at hwords
          obtain ⟨rfl, hrestWords⟩ := List.cons.inj hwords
          obtain ⟨rfl, hsame⟩ := ih hrestWords
          exact ⟨rfl, hsame⟩

/-- A lone quote behind the one that opens a literal closes the literal, or comes after it: no
letter before it and no letter behind it is a quote. -/
theorem cut_double {word rest front back : List Letter} {previous : Letter}
    (hprevious : (previous :: front).getLast? ≠ some quote) (hback : back.head? ≠ some quote)
    (hwords : double quote word ++ quote :: rest = front ++ quote :: back) :
    front = double quote word ∧ back = rest ∨
      ∃ later, front = double quote word ++ quote :: later ∧ rest = later ++ quote :: back := by
  induction word generalizing front previous with
  | nil => exact cut_plain List.not_mem_nil hwords
  | cons letter tail ih =>
    by_cases hletter : letter = quote
    · subst hletter
      rw [double_cons_self] at hwords ⊢
      cases front with
      | nil =>
        obtain ⟨_, hdoubled⟩ := List.cons.inj hwords
        rw [← hdoubled] at hback
        exact absurd rfl hback
      | cons first front =>
        obtain ⟨rfl, hpair⟩ := List.cons.inj hwords
        cases front with
        | nil => exact absurd rfl hprevious
        | cons second front =>
          obtain ⟨rfl, hrest⟩ := List.cons.inj hpair
          rw [List.getLast?_cons_cons, List.getLast?_cons_cons] at hprevious
          rcases ih hprevious hrest with ⟨rfl, rfl⟩ | ⟨later, rfl, hlater⟩
          · exact Or.inl ⟨rfl, rfl⟩
          · exact Or.inr ⟨later, rfl, hlater⟩
    · rw [double_cons_of_ne hletter] at hwords ⊢
      cases front with
      | nil => exact absurd (List.cons.inj hwords).1 hletter
      | cons head front =>
        obtain ⟨rfl, hrest⟩ := List.cons.inj hwords
        rw [List.getLast?_cons_cons] at hprevious
        rcases ih hprevious hrest with ⟨rfl, rfl⟩ | ⟨later, rfl, hlater⟩
        · exact Or.inl ⟨rfl, rfl⟩
        · exact Or.inr ⟨later, rfl, hlater⟩

end KSQLite.Schema
