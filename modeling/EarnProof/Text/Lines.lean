import EarnProof.Text.Readable
import Mathlib.Data.List.DropRight

/-! Texts cut into lines, trimmed and split, as `str` does it. -/
namespace Text

/-! ### Line ends -/

/-- `replace("\r\n", "\n")` -/
def unixEnds : List Char → List Char
  | '\r' :: '\n' :: r => '\n' :: unixEnds r
  | c :: r => c :: unixEnds r
  | [] => []

/-- Every line end as a carriage return and a line feed. -/
def dosEnds (s : List Char) : List Char := s.flatMap fun c => if c = '\n' then ['\r', '\n'] else [c]

theorem unixEnds_cons {c : Char} {r : List Char} (h : c ≠ '\r' ∨ r.head? ≠ some '\n') :
    unixEnds (c :: r) = c :: unixEnds r := by
  rw [unixEnds.eq_2]
  rintro rest rfl rfl
  exact h.elim (fun hc => hc rfl) fun hr => hr rfl

theorem dosEnds_cons_newline (r : List Char) : dosEnds ('\n' :: r) = '\r' :: '\n' :: dosEnds r := rfl

theorem dosEnds_cons {c : Char} (h : c ≠ '\n') (r : List Char) : dosEnds (c :: r) = c :: dosEnds r := by
  simp [dosEnds, h]

/-- Whatever a checkout does to the line ends is undone. -/
theorem unixEnds_dosEnds (s : List Char) : unixEnds (dosEnds s) = s := by
  induction s with
  | nil => rfl
  | cons c r ih =>
    by_cases hc : c = '\n'
    · subst hc
      rw [dosEnds_cons_newline, unixEnds, ih]
    · rw [dosEnds_cons hc, unixEnds_cons, ih]
      refine .inr ?_
      cases r with
      | nil => simp [dosEnds]
      | cons d r =>
        by_cases hd : d = '\n'
        · subst hd
          rw [dosEnds_cons_newline]
          simp
        · rw [dosEnds_cons hd]
          simpa using hd

/-- A line as it is written: no line end in it, nor half of one at its end. -/
structure CleanLine (l : List Char) : Prop where
  newline : '\n' ∉ l
  last : l.getLast? ≠ some '\r'

theorem CleanLine.tail {c : Char} {l : List Char} (h : CleanLine (c :: l)) : CleanLine l where
  newline := fun hmem => h.newline (List.mem_cons_of_mem _ hmem)
  last := by
    cases l with
    | nil => simp
    | cons d l => simpa using h.last

theorem CleanLine.head {c : Char} {l : List Char} (h : CleanLine (c :: l)) : c ≠ '\n' := by
  rintro rfl
  exact h.newline (List.mem_cons_self ..)

theorem unixEnds_line {l : List Char} (h : CleanLine l) (r : List Char) :
    unixEnds (l ++ '\n' :: r) = l ++ '\n' :: unixEnds r := by
  induction l with
  | nil => exact unixEnds_cons (.inl (by decide))
  | cons c l ih =>
    have hc : c ≠ '\r' ∨ (l ++ '\n' :: r).head? ≠ some '\n' := by
      cases l with
      | nil => exact .inl fun hc => h.last (by rw [hc]; rfl)
      | cons d l => exact .inr fun hd => h.tail.head (Option.some.inj hd)
    rw [List.cons_append, unixEnds_cons hc, ih h.tail, List.cons_append]

theorem unixEnds_unlines {ls : List (List Char)} (h : ∀ l ∈ ls, CleanLine l) :
    unixEnds (unlines ls) = unlines ls := by
  induction ls with
  | nil => rfl
  | cons l ls ih =>
    rw [unlines_cons, unixEnds_line (h l (List.mem_cons_self ..)),
      ih fun x hx => h x (List.mem_cons_of_mem _ hx)]

/-! ### Lines -/

/-- The pieces up to and with each line feed. -/
def splitInclusive : List Char → List (List Char)
  | [] => []
  | c :: r =>
    if c = '\n' then ['\n'] :: splitInclusive r
    else match splitInclusive r with
      | [] => [[c]]
      | l :: ls => (c :: l) :: ls

/-- A piece without its line end. -/
def chomp (piece : List Char) : List Char :=
  if piece.getLast? = some '\n' then
    if piece.dropLast.getLast? = some '\r' then piece.dropLast.dropLast else piece.dropLast
  else piece

def lines (s : List Char) : List (List Char) := (splitInclusive s).map chomp

theorem splitInclusive_line {l : List Char} (h : '\n' ∉ l) (r : List Char) :
    splitInclusive (l ++ '\n' :: r) = (l ++ ['\n']) :: splitInclusive r := by
  induction l with
  | nil => rfl
  | cons c l ih =>
    have hc : c ≠ '\n' := by
      rintro rfl
      exact h (List.mem_cons_self ..)
    rw [List.cons_append, splitInclusive, if_neg hc, ih fun hmem => h (List.mem_cons_of_mem _ hmem)]
    rfl

theorem chomp_line {l : List Char} (h : CleanLine l) : chomp (l ++ ['\n']) = l := by
  simp [chomp, h.last]

theorem lines_unlines {ls : List (List Char)} (h : ∀ l ∈ ls, CleanLine l) : lines (unlines ls) = ls := by
  induction ls with
  | nil => rfl
  | cons l ls ih =>
    have hl := h l (List.mem_cons_self ..)
    rw [unlines_cons, lines, splitInclusive_line hl.newline, List.map_cons, chomp_line hl]
    exact congrArg (l :: ·) (ih fun x hx => h x (List.mem_cons_of_mem _ hx))

/-- A text without carriage returns is made of its lines. -/
theorem exists_lines {s : List Char} (h : '\r' ∉ s) :
    ∃ ls, (∀ l ∈ ls, CleanLine l) ∧ unlines ls = s ++ ['\n'] := by
  induction s with
  | nil =>
    refine ⟨[[]], fun l hl => ?_, rfl⟩
    rw [List.mem_singleton.mp hl]
    exact ⟨by simp, by simp⟩
  | cons c s ih =>
    obtain ⟨ls, hls, htext⟩ := ih fun hmem => h (List.mem_cons_of_mem _ hmem)
    by_cases hc : c = '\n'
    · refine ⟨[] :: ls, List.forall_mem_cons.mpr ⟨⟨by simp, by simp⟩, hls⟩, ?_⟩
      rw [unlines_cons, htext, hc]
      rfl
    · cases ls with
      | nil => simp at htext
      | cons l ls =>
        obtain ⟨hl, hrest⟩ := List.forall_mem_cons.mp hls
        refine ⟨(c :: l) :: ls, List.forall_mem_cons.mpr ⟨⟨?_, ?_⟩, hrest⟩, ?_⟩
        · intro hmem
          rcases List.mem_cons.mp hmem with hmem | hmem
          · exact hc hmem.symm
          · exact hl.newline hmem
        · intro hlast
          refine h ?_
          cases l with
          | nil =>
            have hc : c = '\r' := Option.some.inj hlast
            rw [hc]
            exact List.mem_cons_self ..
          | cons d l => exact absurd (by simpa using hlast) hl.last
        · rw [unlines_cons] at htext ⊢
          rw [List.cons_append, htext, List.cons_append]

/-! ### Blanks -/

/-- The characters that `trim` takes away. -/
def isBlank (c : Char) : Bool :=
  let n := c.toNat
  (9 ≤ n && n ≤ 13) || n == 0x20 || n == 0x85 || n == 0xA0 || n == 0x1680 ||
    (0x2000 ≤ n && n ≤ 0x200A) || n == 0x2028 || n == 0x2029 || n == 0x202F || n == 0x205F || n == 0x3000

def trim (s : List Char) : List Char := (s.dropWhile isBlank).rdropWhile isBlank

/-- The first occurrence of `c`, and what stands before and after it. -/
def splitOnce (c : Char) : List Char → Option (List Char × List Char)
  | [] => none
  | d :: r => if d = c then some ([], r) else (splitOnce c r).map fun p => (d :: p.1, p.2)

theorem splitOnce_append {c : Char} {key : List Char} (h : c ∉ key) (r : List Char) :
    splitOnce c (key ++ c :: r) = some (key, r) := by
  induction key with
  | nil => exact if_pos rfl
  | cons d key ih =>
    have hd : d ≠ c := fun heq => h (by rw [heq]; exact List.mem_cons_self ..)
    rw [List.cons_append, splitOnce, if_neg hd, ih fun hmem => h (List.mem_cons_of_mem _ hmem)]
    rfl

theorem trim_blank {c : Char} (h : isBlank c = true) (s : List Char) : trim (c :: s) = trim s := by
  rw [trim, trim, List.dropWhile_cons_of_pos h]

theorem trim_of_solid {s : List Char} (h : ∀ c ∈ s, isBlank c = false) : trim s = s := by
  have hdrop : s.dropWhile isBlank = s := by
    cases s with
    | nil => rfl
    | cons c s => exact List.dropWhile_cons_of_neg (by simp [h c (List.mem_cons_self ..)])
  rw [trim, hdrop, List.rdropWhile_eq_self_iff]
  intro hne
  simp [h _ (List.getLast_mem hne)]

/-- What is trimmed is trimmed. -/
theorem trim_trim (s : List Char) : trim (trim s) = trim s := by
  have hdrop : (trim s).dropWhile isBlank = trim s := by
    obtain ⟨w, hw⟩ : trim s <+: s.dropWhile isBlank := List.rdropWhile_prefix isBlank _
    cases htrim : trim s with
    | nil => rfl
    | cons c t =>
      have hhead := List.head?_dropWhile_not isBlank s
      rw [← hw, htrim] at hhead
      exact List.dropWhile_cons_of_neg (by simpa using hhead)
  rw [trim, hdrop]
  exact List.rdropWhile_idempotent isBlank _

/-- What is trimmed ends with no blank. -/
theorem trim_getLast {s : List Char} {c : Char} (h : (trim s).getLast? = some c) : isBlank c = false := by
  obtain ⟨hne, rfl⟩ := List.mem_getLast?_eq_getLast h
  exact Bool.eq_false_iff.mpr (List.rdropWhile_last_not isBlank _ hne)

end Text
