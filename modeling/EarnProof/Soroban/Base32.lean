import EarnProof.Soroban.Address

/-! Base32 text can be read back.

A whole number of five-bit groups has one symbol for each group, and the symbol
gives the group back. Bytes whose number is a multiple of five have a whole number
of groups, so their text determines them, has eight symbols for every five of them
and stays in the alphabet. -/
namespace Soroban

/-- A list of whole groups is built five at a time. -/
theorem fives_induction {α : Type} {motive : List α → Prop} (nil : motive [])
    (five : ∀ a b c d e rest, motive rest → motive (a :: b :: c :: d :: e :: rest)) :
    ∀ (k : Nat) (l : List α), l.length = 5 * k → motive l := by
  intro k
  induction k with
  | zero =>
    intro l hl
    rw [List.length_eq_zero_iff.mp hl]
    exact nil
  | succ k ih =>
    intro l hl
    match l, hl with
    | a :: b :: c :: d :: e :: rest, hl =>
      exact five a b c d e rest (ih rest (by simp only [List.length_cons] at hl; omega))

/-! ### Symbols -/

/-- `A` to `Z` and `2` to `7`. -/
def inAlphabet (s : UInt8) : Bool := (65 ≤ s && s ≤ 90) || (50 ≤ s && s ≤ 55)

/-- The five bits a symbol stands for. -/
def group (s : UInt8) : List Bool :=
  let digit := BitVec.ofNat 5 (if 65 ≤ s then s.toNat - 65 else s.toNat - 24)
  (List.range 5).map digit.getMsbD

theorem inAlphabet_symbol : ∀ a b c d e : Bool, inAlphabet (symbol [a, b, c, d, e]) = true := by
  decide

theorem group_symbol : ∀ a b c d e : Bool, group (symbol [a, b, c, d, e]) = [a, b, c, d, e] := by
  decide

theorem length_symbols {k : Nat} {l : List Bool} (h : l.length = 5 * k) :
    (symbols l).length = k := by
  have hfive : 5 * (symbols l).length = l.length := by
    refine fives_induction (motive := fun l => 5 * (symbols l).length = l.length) rfl ?_ k l h
    intro a b c d e rest ih
    show 5 * ((symbols rest).length + 1) = rest.length + 5
    omega
  omega

theorem inAlphabet_symbols {k : Nat} {l : List Bool} (h : l.length = 5 * k) :
    (symbols l).all inAlphabet = true := by
  refine fives_induction (motive := fun l => (symbols l).all inAlphabet = true) rfl ?_ k l h
  intro a b c d e rest ih
  show (inAlphabet (symbol [a, b, c, d, e]) && (symbols rest).all inAlphabet) = true
  rw [inAlphabet_symbol, ih]
  rfl

/-- The symbols give the bits back. -/
theorem flatMap_group_symbols {k : Nat} {l : List Bool} (h : l.length = 5 * k) :
    (symbols l).flatMap group = l := by
  refine fives_induction (motive := fun l => (symbols l).flatMap group = l) rfl ?_ k l h
  intro a b c d e rest ih
  show group (symbol [a, b, c, d, e]) ++ (symbols rest).flatMap group = _
  rw [group_symbol, ih]
  rfl

theorem symbols_inj {m n : Nat} {l l' : List Bool} (hl : l.length = 5 * m)
    (hl' : l'.length = 5 * n) (h : symbols l = symbols l') : l = l' := by
  rw [← flatMap_group_symbols hl, h, flatMap_group_symbols hl']

/-! ### Bytes -/

theorem length_bits (b : UInt8) : (bits b).length = 8 := by
  simp [bits]

theorem bits_inj {b b' : UInt8} (h : bits b = bits b') : b = b' := by
  have hbits : ∀ i < 8, b.toBitVec.getMsbD i = b'.toBitVec.getMsbD i := by
    intro i hi
    exact List.map_inj_left.mp h i (List.mem_range.mpr hi)
  exact UInt8.toBitVec_inj.mp (BitVec.eq_of_getMsbD_eq hbits)

theorem length_flatMap_bits (bytes : List UInt8) :
    (bytes.flatMap bits).length = 8 * bytes.length := by
  induction bytes with
  | nil => rfl
  | cons b bytes ih =>
    rw [List.flatMap_cons, List.length_append, length_bits, ih, List.length_cons]
    omega

theorem flatMap_bits_inj {a b : List UInt8} (h : a.flatMap bits = b.flatMap bits) : a = b := by
  have hlen : a.length = b.length := by
    have := congrArg List.length h
    rw [length_flatMap_bits, length_flatMap_bits] at this
    omega
  induction a generalizing b with
  | nil => exact (List.length_eq_zero_iff.mp hlen.symm).symm
  | cons x a ih =>
    cases b with
    | nil => simp at hlen
    | cons y b =>
      rw [List.flatMap_cons, List.flatMap_cons] at h
      obtain ⟨hx, hrest⟩ := List.append_inj h (by rw [length_bits, length_bits])
      rw [bits_inj hx, ih hrest (by simpa using hlen)]

/-! ### Text -/

section Base32
variable {m n : Nat} {bytes bytes' : List UInt8}

theorem length_groups (h : bytes.length = 5 * m) : (bytes.flatMap bits).length = 5 * (8 * m) := by
  rw [length_flatMap_bits, h]
  omega

theorem length_base32 (h : bytes.length = 5 * m) : (base32 bytes).length = 8 * m :=
  length_symbols (length_groups h)

theorem inAlphabet_base32 (h : bytes.length = 5 * m) : (base32 bytes).all inAlphabet = true :=
  inAlphabet_symbols (length_groups h)

theorem base32_inj (h : bytes.length = 5 * m) (h' : bytes'.length = 5 * n)
    (ht : base32 bytes = base32 bytes') : bytes = bytes' :=
  flatMap_bits_inj (symbols_inj (length_groups h) (length_groups h') ht)

end Base32

end Soroban
