import Mathlib.Data.Char
import Mathlib.Data.List.Lex
import Mathlib.Data.List.Sort

/-! Formats that can be read in one way only.

A format writes each value of a type as a text, a list of characters. Texts follow each
other, so a format is readable at `x` when no other value's text starts there and stops
too (`ReadableAt`): where a text stops, no character of a word follows. Words, tags,
sequences of words and separated lists of readable items are readable. -/
namespace Text
variable {α : Type} (word : Char → Bool)

/-- Nothing follows, or a character that no word has. -/
def Stops (r : List Char) : Prop := ∀ c ∈ r.head?, word c = false

def Word (w : List Char) : Prop := ∀ c ∈ w, word c = true

variable {word}

theorem Word.of_all {w : List Char} (h : w.all word = true) : Word word w := List.all_eq_true.mp h

theorem Word.append {v w : List Char} (hv : Word word v) (hw : Word word w) : Word word (v ++ w) := by
  intro c hc
  rcases List.mem_append.mp hc with hc | hc
  · exact hv c hc
  · exact hw c hc

theorem Word.intercalate {sep : List Char} {ws : List (List Char)} (hsep : Word word sep)
    (hws : ∀ w ∈ ws, Word word w) : Word word (sep.intercalate ws) := by
  induction ws with
  | nil => exact fun _ hc => by cases hc
  | cons w ws ih =>
    have hw := hws w (List.mem_cons_self ..)
    cases ws with
    | nil =>
      rw [List.intercalate_singleton]
      exact hw
    | cons w' ws =>
      rw [List.intercalate_cons_cons]
      exact (hw.append hsep).append (ih fun u hu => hws u (List.mem_cons_of_mem _ hu))

theorem stops_nil : Stops word [] := fun _ hc => by cases hc

theorem stops_cons {c : Char} (h : word c = false) (r : List Char) : Stops word (c :: r) :=
  fun _ hc => by cases hc; exact h

/-- A word ends where the text stops. -/
theorem Word.cancel {w w' r r' : List Char} (hw : Word word w) (hw' : Word word w')
    (hr : Stops word r) (hr' : Stops word r') (h : w ++ r = w' ++ r') : w = w' ∧ r = r' := by
  have hlonger : ∀ {u r r' : List Char} {c : Char}, Word word (c :: u) → Stops word r' →
      c :: (u ++ r) ≠ r' := by
    intro u r r' c hu hr' heq
    have hstop : word c = false := hr' c (by rw [← heq]; rfl)
    rw [hu c (List.mem_cons_self ..)] at hstop
    cases hstop
  induction w generalizing w' with
  | nil =>
    cases w' with
    | nil => exact ⟨rfl, h⟩
    | cons c u => exact absurd h.symm (hlonger hw' hr)
  | cons c u ih =>
    cases w' with
    | nil => exact absurd h (hlonger hw hr')
    | cons c' u' =>
      obtain ⟨rfl, htail⟩ := List.cons.inj h
      have hu : Word word u := fun x hx => hw x (List.mem_cons_of_mem _ hx)
      have hu' : Word word u' := fun x hx => hw' x (List.mem_cons_of_mem _ hx)
      obtain ⟨rfl, hrest⟩ := ih hu hu' htail
      exact ⟨rfl, hrest⟩

/-- Of texts none of which starts another, only one starts a text. -/
theorem tag_cancel {τ : Type} {text : τ → List Char} (h : ∀ t t', text t <+: text t' → t = t')
    {t t' : τ} {r r' : List Char} (heq : text t ++ r = text t' ++ r') : t = t' ∧ r = r' := by
  have hsame : t = t' := by
    rcases List.append_eq_append_iff.mp heq with ⟨u, hu, _⟩ | ⟨u, hu, _⟩
    · exact h t t' ⟨u, hu.symm⟩
    · exact (h t' t ⟨u, hu.symm⟩).symm
  subst hsame
  exact ⟨rfl, List.append_cancel_left heq⟩

/-- Among the values that `P` admits, only `x` has a text that starts and stops like its own. -/
def ReadableAt (word : Char → Bool) (P : α → Prop) (f : α → List Char) (x : α) : Prop :=
  ∀ y r r', P y → Stops word r → Stops word r' → f x ++ r = f y ++ r' → x = y ∧ r = r'

section
variable {P : α → Prop} {f : α → List Char}

/-- Two formats one after the other, with a text between them at which the first stops. -/
theorem ReadableAt.pair {β : Type} {Q : β → Prop} {g : β → List Char} {between : List Char}
    (hbetween : ∀ r, Stops word (between ++ r)) {x : α} {y : β} (hx : ReadableAt word P f x)
    (hy : ReadableAt word Q g y) :
    ReadableAt word (fun p => P p.1 ∧ Q p.2) (fun p : α × β => f p.1 ++ between ++ g p.2) (x, y) := by
  rintro ⟨x', y'⟩ r r' ⟨hx', hy'⟩ hr hr' h
  simp only [List.append_assoc] at h
  obtain ⟨rfl, hafter⟩ := hx x' _ _ hx' (hbetween _) (hbetween _) h
  obtain ⟨rfl, hrest⟩ := hy y' r r' hy' hr hr' (List.append_cancel_left hafter)
  exact ⟨rfl, hrest⟩

/-- What stands in an item stands in the list. -/
theorem mem_intercalate {sep l : List Char} {ls : List (List Char)} {c : Char} (hl : l ∈ ls)
    (hc : c ∈ l) : c ∈ sep.intercalate ls := by
  induction ls with
  | nil => cases hl
  | cons l' ls ih =>
    cases ls with
    | nil =>
      rw [List.mem_singleton.mp hl] at hc
      simpa using hc
    | cons l'' ls =>
      rw [List.intercalate_cons_cons]
      rcases List.mem_cons.mp hl with rfl | hl
      · simp [hc]
      · exact List.mem_append_right _ (ih hl)

/-- A list of readable items, separated and closed by what is no part of a word. -/
theorem joined_cancel {s close : Char} {sep : List Char} (hs : word s = false)
    (hclose : word close = false) (hne : s ≠ close)
    (hopens : ∀ x, P x → ∃ c r, f x = c :: r ∧ c ≠ close) {xs ys : List α}
    (hx : ∀ x ∈ xs, P x ∧ ReadableAt word P f x) (hy : ∀ y ∈ ys, P y) {r r' : List Char}
    (h : (s :: sep).intercalate (xs.map f) ++ close :: r =
      (s :: sep).intercalate (ys.map f) ++ close :: r') : xs = ys ∧ r = r' := by
  have hnonempty : ∀ {x : α} {rest r : List Char}, P x → f x ++ rest ≠ close :: r := by
    intro x rest r hPx heq
    obtain ⟨c, t, hopen, hc⟩ := hopens x hPx
    rw [hopen] at heq
    exact hc (List.cons.inj heq).1
  -- What follows the first item.
  have hitem : ∀ (x : α) (xs : List α) (r : List Char), ∃ rest,
      (s :: sep).intercalate ((x :: xs).map f) ++ close :: r = f x ++ rest ∧ Stops word rest ∧
      rest = if xs = [] then close :: r
        else s :: (sep ++ ((s :: sep).intercalate (xs.map f) ++ close :: r)) := by
    intro x xs r
    cases xs with
    | nil => exact ⟨close :: r, by simp, stops_cons hclose r, rfl⟩
    | cons x' xs =>
      refine ⟨s :: (sep ++ ((s :: sep).intercalate ((x' :: xs).map f) ++ close :: r)), ?_,
        stops_cons hs _, rfl⟩
      simp
  induction xs generalizing ys r r' with
  | nil =>
    cases ys with
    | nil => exact ⟨rfl, by simpa using h⟩
    | cons y ys =>
      obtain ⟨rest, hrest, _⟩ := hitem y ys r'
      rw [hrest] at h
      exact absurd h.symm (hnonempty (hy y (List.mem_cons_self ..)))
  | cons x xs ih =>
    obtain ⟨rest, hrest, hstops, hshape⟩ := hitem x xs r
    rw [hrest] at h
    obtain ⟨hPx, hread⟩ := hx x (List.mem_cons_self ..)
    cases ys with
    | nil => exact absurd h (hnonempty hPx)
    | cons y ys =>
      obtain ⟨rest', hrest', hstops', hshape'⟩ := hitem y ys r'
      rw [hrest'] at h
      obtain ⟨rfl, heq⟩ := hread y rest rest' (hy y (List.mem_cons_self ..)) hstops hstops' h
      rw [hshape, hshape'] at heq
      cases xs with
      | nil =>
        cases ys with
        | nil => exact ⟨rfl, (List.cons.inj heq).2⟩
        | cons y' ys => exact absurd (List.cons.inj heq).1.symm hne
      | cons x' xs =>
        cases ys with
        | nil => exact absurd (List.cons.inj heq).1 hne
        | cons y' ys =>
          have hlists := List.append_cancel_left (List.cons.inj heq).2
          obtain ⟨hlist, hr⟩ := ih (fun z hz => hx z (List.mem_cons_of_mem _ hz))
            (fun z hz => hy z (List.mem_cons_of_mem _ hz)) hlists
          exact ⟨by rw [hlist], hr⟩

end

/-- What is written the same in any order is the same in some order. -/
theorem perm_of_map {β : Type} {f : α → β} {xs ys : List α}
    (hinj : ∀ x ∈ xs, ∀ y ∈ ys, f x = f y → x = y) (h : (xs.map f).Perm (ys.map f)) :
    xs.Perm ys := by
  induction xs generalizing ys with
  | nil =>
    rw [List.map_eq_nil_iff.mp h.nil_eq.symm]
  | cons x xs ih =>
    obtain ⟨y, hy, hfy⟩ := List.mem_map.mp (h.subset (List.mem_cons_self ..))
    obtain rfl := hinj x (List.mem_cons_self ..) y hy hfy.symm
    obtain ⟨a, b, rfl⟩ := List.append_of_mem hy
    have hmiddle : (a ++ x :: b).Perm (x :: (a ++ b)) := List.perm_middle
    have hrest : xs.Perm (a ++ b) := by
      refine ih (fun z hz w hw => hinj z (List.mem_cons_of_mem _ hz) w ?_) ?_
      · exact hmiddle.mem_iff.mpr (List.mem_cons_of_mem _ hw)
      · exact (h.trans (hmiddle.map f)).cons_inv
    exact (hrest.cons x).trans hmiddle.symm

/-- What is written the same in one order is the same. -/
theorem map_inj_on {β : Type} {f : α → β} {xs ys : List α}
    (hinj : ∀ x ∈ xs, ∀ y ∈ ys, f x = f y → x = y) (h : xs.map f = ys.map f) : xs = ys := by
  induction xs generalizing ys with
  | nil => exact (List.map_eq_nil_iff.mp h.symm).symm
  | cons x xs ih =>
    cases ys with
    | nil => cases h
    | cons y ys =>
      obtain ⟨hhead, htail⟩ := List.cons.inj h
      rw [hinj x (List.mem_cons_self ..) y (List.mem_cons_self ..) hhead,
        ih (fun z hz w hw => hinj z (List.mem_cons_of_mem _ hz) w (List.mem_cons_of_mem _ hw)) htail]

/-- Sorting forgets the order. -/
theorem mergeSort_perm_eq {xs ys : List (List Char)} (h : xs.Perm ys) :
    xs.mergeSort (fun a b => decide (a ≤ b)) = ys.mergeSort (fun a b => decide (a ≤ b)) := by
  refine List.Perm.eq_of_sortedLE List.sortedLE_mergeSort List.sortedLE_mergeSort ?_
  exact (List.mergeSort_perm xs _).trans (h.trans (List.mergeSort_perm ys _).symm)

/-! ### Lines -/

/-- Each line with its end. -/
def unlines (ls : List (List Char)) : List Char := ls.flatMap (· ++ ['\n'])

@[simp] theorem unlines_nil : unlines [] = [] := rfl

@[simp] theorem unlines_cons (l : List Char) (ls : List (List Char)) :
    unlines (l :: ls) = l ++ '\n' :: unlines ls := by
  simp [unlines]

/-- A character is no part of a line break. -/
def inLine (c : Char) : Bool := c != '\n' && c != '\r'

theorem stops_newline (r : List Char) : Stops inLine ('\n' :: r) := stops_cons rfl r

/-- Lines up to an empty one. -/
theorem unlines_cancel {ls ls' : List (List Char)} (h : ∀ l ∈ ls, Word inLine l ∧ l ≠ [])
    (h' : ∀ l ∈ ls', Word inLine l ∧ l ≠ []) {r r' : List Char}
    (heq : unlines ls ++ '\n' :: r = unlines ls' ++ '\n' :: r') : ls = ls' ∧ r = r' := by
  have hempty : ∀ {l : List Char} {rest r : List Char}, Word inLine l ∧ l ≠ [] →
      '\n' :: r ≠ l ++ rest := by
    rintro l rest r ⟨hl, hne⟩ heq
    cases l with
    | nil => exact hne rfl
    | cons c l =>
      have hc : inLine '\n' = true := by
        rw [(List.cons.inj heq).1]
        exact hl c (List.mem_cons_self ..)
      cases hc
  induction ls generalizing ls' with
  | nil =>
    cases ls' with
    | nil => exact ⟨rfl, (List.cons.inj heq).2⟩
    | cons l' ls' =>
      rw [unlines_cons, List.append_assoc] at heq
      exact absurd heq (hempty (h' l' (List.mem_cons_self ..)))
  | cons l ls ih =>
    rw [unlines_cons, List.append_assoc] at heq
    cases ls' with
    | nil => exact absurd heq.symm (hempty (h l (List.mem_cons_self ..)))
    | cons l' ls' =>
      rw [unlines_cons, List.append_assoc] at heq
      obtain ⟨rfl, hrest⟩ := (h l (List.mem_cons_self ..)).1.cancel
        (h' l' (List.mem_cons_self ..)).1 (stops_newline _) (stops_newline _) heq
      obtain ⟨rfl, hr⟩ := ih (fun x hx => h x (List.mem_cons_of_mem _ hx))
        (fun x hx => h' x (List.mem_cons_of_mem _ hx)) (List.cons.inj hrest).2
      exact ⟨rfl, hr⟩

/-- Lines up to the end of the text. -/
theorem unlines_inj {ls ls' : List (List Char)} (h : ∀ l ∈ ls, Word inLine l)
    (h' : ∀ l ∈ ls', Word inLine l) (heq : unlines ls = unlines ls') : ls = ls' := by
  induction ls generalizing ls' with
  | nil =>
    cases ls' with
    | nil => rfl
    | cons l' ls' => simp at heq
  | cons l ls ih =>
    cases ls' with
    | nil => simp at heq
    | cons l' ls' =>
      rw [unlines_cons, unlines_cons] at heq
      obtain ⟨rfl, hrest⟩ := (h l (List.mem_cons_self ..)).cancel (h' l' (List.mem_cons_self ..))
        (stops_newline _) (stops_newline _) heq
      rw [ih (fun x hx => h x (List.mem_cons_of_mem _ hx))
        (fun x hx => h' x (List.mem_cons_of_mem _ hx)) (List.cons.inj hrest).2]

end Text
