import Mathlib.Data.Set.Card
import Mathlib.Logic.Function.Basic

/-! A directory: records under identifiers, and an index from each record's current
place back to its identifier.

`ident r` is the identifier a record names and `place r` the place it is found at.
The two maps are inverse to each other by construction, so a place has at most one
record and both lookups agree. A record is added at a free identifier and a free
place, replaced at its place, or moved to a free place; nothing is deleted. -/

structure Directory (I A R : Type) (ident : R → I) (place : R → A) where
  records : I → Option R
  index : A → Option I
  ident_of : ∀ {i r}, records i = some r → ident r = i
  indexed : ∀ {i r}, records i = some r → index (place r) = some i
  grounded : ∀ {a i}, index a = some i → ∃ r, records i = some r ∧ place r = a
  finite : {i | (records i).isSome}.Finite

namespace Directory
variable {I A R : Type} {ident : R → I} {place : R → A}

def empty : Directory I A R ident place where
  records := fun _ => none
  index := fun _ => none
  ident_of := by simp
  indexed := by simp
  grounded := by simp
  finite := by simp

section Lookup
variable (D : Directory I A R ident place)

/-- The record found at a place. -/
def find (a : A) : Option R := (D.index a).bind D.records

/-- Records at one place are one record. -/
theorem place_injective {i j : I} {r s : R} (hi : D.records i = some r) (hj : D.records j = some s)
    (h : place r = place s) : i = j := by
  have hr : D.index (place r) = some i := D.indexed hi
  have hs : D.index (place s) = some j := D.indexed hj
  rw [h, hs] at hr
  exact (Option.some.inj hr).symm

/-- A bound place never leads to a missing record. -/
theorem find_eq_some {a : A} {r : R} :
    D.find a = some r ↔ ∃ i, D.records i = some r ∧ place r = a := by
  unfold find
  rw [Option.bind_eq_some_iff]
  constructor
  · rintro ⟨i, hi, hr⟩
    obtain ⟨s, hs, hp⟩ := D.grounded hi
    rw [hs] at hr
    cases hr
    exact ⟨i, hs, hp⟩
  · rintro ⟨i, hr, rfl⟩
    exact ⟨i, D.indexed hr, hr⟩

/-- There are as many bound places as records. -/
theorem ncard_index : {a | (D.index a).isSome}.ncard = {i | (D.records i).isSome}.ncard := by
  symm
  refine Set.ncard_congr (fun i hi => place ((D.records i).get hi)) (fun i hi => ?_)
    (fun i j hi hj h => ?_) (fun a ha => ?_)
  · have hr : D.records i = some ((D.records i).get hi) := (Option.some_get hi).symm
    show (D.index _).isSome
    rw [D.indexed hr]
    rfl
  · exact D.place_injective (Option.some_get hi).symm (Option.some_get hj).symm h
  · obtain ⟨i, hi⟩ := Option.isSome_iff_exists.mp ha
    obtain ⟨r, hr, hp⟩ := D.grounded hi
    refine ⟨i, by simp [hr], ?_⟩
    simp [hr, hp]

theorem finite_index : {a | (D.index a).isSome}.Finite := by
  have himage : ((fun i => (D.records i).map place) '' {i | (D.records i).isSome}).Finite :=
    D.finite.image _
  refine (himage.preimage (Option.some_injective A).injOn).subset fun a ha => ?_
  obtain ⟨i, hi⟩ := Option.isSome_iff_exists.mp ha
  obtain ⟨r, hr, hp⟩ := D.grounded hi
  exact ⟨i, by simp [hr], by simp [hr, hp]⟩

end Lookup

/-! ### Changes -/

section Change
variable [DecidableEq I] [DecidableEq A]

omit [DecidableEq A] in
theorem finite_update {o : Option R} {records : I → Option R} (i : I)
    (h : {j | (records j).isSome}.Finite) :
    {j | (Function.update records i o j).isSome}.Finite := by
  refine (h.insert i).subset fun j hj => ?_
  by_cases hji : j = i
  · exact .inl hji
  · right
    simpa [hji] using hj

omit [DecidableEq A] in
theorem ident_update (D : Directory I A R ident place) (r : R) {i : I} {s : R}
    (hs : Function.update D.records (ident r) (some r) i = some s) : ident s = i := by
  by_cases h : i = ident r
  · subst h
    simp at hs
    rw [hs]
  · rw [Function.update_of_ne h] at hs
    exact D.ident_of hs

/-- Add a record at a free identifier and a free place. -/
def insert (D : Directory I A R ident place) (r : R) (hi : D.records (ident r) = none)
    (ha : D.index (place r) = none) : Directory I A R ident place where
  records := Function.update D.records (ident r) (some r)
  index := Function.update D.index (place r) (some (ident r))
  ident_of := D.ident_update r
  indexed := by
    intro i s hs
    by_cases h : i = ident r
    · subst h
      simp at hs
      subst hs
      simp
    · rw [Function.update_of_ne h] at hs
      have hne : place s ≠ place r := by
        intro hp
        rw [← hp, D.indexed hs] at ha
        cases ha
      rw [Function.update_of_ne hne]
      exact D.indexed hs
  grounded := by
    intro a i h
    by_cases hp : a = place r
    · subst hp
      simp at h
      subst h
      exact ⟨r, by simp, rfl⟩
    · rw [Function.update_of_ne hp] at h
      obtain ⟨s, hs, hsp⟩ := D.grounded h
      have hne : i ≠ ident r := by
        rintro rfl
        rw [hi] at hs
        cases hs
      exact ⟨s, by rw [Function.update_of_ne hne, hs], hsp⟩
  finite := finite_update _ D.finite

/-- Replace a record at its place. -/
def amend (D : Directory I A R ident place) {r : R} (r' : R) (h : D.records (ident r') = some r)
    (hp : place r' = place r) : Directory I A R ident place where
  records := Function.update D.records (ident r') (some r')
  index := D.index
  ident_of := D.ident_update r'
  indexed := by
    intro i s hs
    by_cases hi : i = ident r'
    · subst hi
      simp at hs
      rw [← hs, hp]
      exact D.indexed h
    · rw [Function.update_of_ne hi] at hs
      exact D.indexed hs
  grounded := by
    intro a i ha
    obtain ⟨s, hs, hsp⟩ := D.grounded ha
    by_cases hi : i = ident r'
    · subst hi
      rw [h] at hs
      cases hs
      exact ⟨r', by simp, hp.trans hsp⟩
    · exact ⟨s, by rw [Function.update_of_ne hi, hs], hsp⟩
  finite := finite_update _ D.finite

/-- Move a record to a free place, changing it as it goes. -/
def move (D : Directory I A R ident place) {r : R} (r' : R) (h : D.records (ident r') = some r)
    (ha : D.index (place r') = none) : Directory I A R ident place where
  records := Function.update D.records (ident r') (some r')
  index := Function.update (Function.update D.index (place r) none) (place r') (some (ident r'))
  ident_of := D.ident_update r'
  indexed := by
    intro i s hs
    by_cases hi : i = ident r'
    · subst hi
      simp at hs
      subst hs
      simp
    · rw [Function.update_of_ne hi] at hs
      have hnew : place s ≠ place r' := by
        intro hp
        rw [← hp, D.indexed hs] at ha
        cases ha
      have hold : place s ≠ place r := fun hp => hi (D.place_injective hs h hp)
      rw [Function.update_of_ne hnew, Function.update_of_ne hold]
      exact D.indexed hs
  grounded := by
    intro a i hai
    by_cases hnew : a = place r'
    · subst hnew
      simp at hai
      subst hai
      exact ⟨r', by simp, rfl⟩
    · rw [Function.update_of_ne hnew] at hai
      have hold : a ≠ place r := by
        rintro rfl
        simp at hai
      rw [Function.update_of_ne hold] at hai
      obtain ⟨s, hs, hsp⟩ := D.grounded hai
      have hi : i ≠ ident r' := by
        rintro rfl
        rw [h] at hs
        cases hs
        exact hold hsp.symm
      exact ⟨s, by rw [Function.update_of_ne hi, hs], hsp⟩
  finite := finite_update _ D.finite

end Change
end Directory
