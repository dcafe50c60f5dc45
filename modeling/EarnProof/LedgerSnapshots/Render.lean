import EarnProof.Soroban.Address
import EarnProof.Text.Readable

/-! The normalized text of a stored value.

`scvalText` writes a value as a line of a snapshot, with every address replaced by its
alias. What it cannot show faithfully it marks with a `<`: an address without an alias,
a value of a kind it does not know. Without a mark, and with an alias table that goes
both ways, the text is that of one value only, wherever it stands (`scvalText_readable`). -/
namespace EarnProof.LedgerSnapshots
open Soroban Text

/-- The characters the host allows in a symbol. -/
def symbolChar (c : Char) : Bool := c.isAlphanum || c == '_'

structure Symbol where
  name : String
  legal : ∀ c ∈ name.toList, symbolChar c = true
  deriving DecidableEq

def Symbol.ofName (name : String) (h : name.toList.all symbolChar = true) : Symbol :=
  ⟨name, List.all_eq_true.mp h⟩

/-- A value in its serialized form. The kinds that the renderer does not list are kept as
their debug text. -/
inductive ScVal where
  | void
  | bool (value : Bool)
  | u32 (value : UInt32)
  | i32 (value : Int32)
  | u64 (value : UInt64)
  | i64 (value : Int64)
  | symbol (symbol : Symbol)
  | bytes (bytes : List UInt8)
  | address (address : Address)
  | vec (items : List ScVal)
  | map (entries : List (ScVal × ScVal))
  | other (debug : String)

/-- The roles that addresses play in a scenario. -/
structure Aliases where
  entries : List (Address × String)

namespace Aliases

def new : Aliases := ⟨[]⟩

def insert (aliases : Aliases) (address : Address) (name : String) : Aliases :=
  ⟨aliases.entries ++ [(address, name)]⟩

def lookup (aliases : Aliases) (address : Address) : Option String :=
  (aliases.entries.find? fun entry => entry.1 = address).map Prod.snd

end Aliases

section
variable (aliases : Aliases)

def contractAlias (id : BytesN 32) : List Char :=
  match aliases.lookup ⟨.contract, id⟩ with
  | some name => name.toList
  | none => "<UNALIASED>".toList

def addressText (address : Address) : List Char :=
  match aliases.lookup address with
  | some name => "addr:".toList ++ name.toList
  | none => "addr:<UNALIASED>".toList

def decimal (n : Nat) : List Char := Nat.toDigits 10 n

def signed (i : Int) : List Char := if i < 0 then '-' :: decimal i.natAbs else decimal i.natAbs

def hex (bytes : List UInt8) : List Char :=
  bytes.flatMap fun byte => [Nat.digitChar (byte.toNat / 16), Nat.digitChar (byte.toNat % 16)]

mutual

def scvalText : ScVal → List Char
  | .void => "void".toList
  | .bool value => (if value then "true" else "false").toList
  | .u32 value => "u32:".toList ++ decimal value.toNat
  | .i32 value => "i32:".toList ++ signed value.toInt
  | .u64 value => "u64:".toList ++ decimal value.toNat
  | .i64 value => "i64:".toList ++ signed value.toInt
  | .symbol symbol => "sym:".toList ++ symbol.name.toList
  | .bytes bytes => "bytes:".toList ++ hex bytes
  | .address address => addressText aliases address
  | .vec items => "[".toList ++ ", ".toList.intercalate (itemTexts items) ++ "]".toList
  | .map entries => "\x7b".toList ++ ", ".toList.intercalate (entryTexts entries) ++ "\x7d".toList
  | .other debug => "<unrendered:".toList ++ debug.toList ++ ">".toList

def itemTexts : List ScVal → List (List Char)
  | [] => []
  | item :: items => scvalText item :: itemTexts items

def entryTexts : List (ScVal × ScVal) → List (List Char)
  | [] => []
  | (key, val) :: entries =>
    (scvalText key ++ ": ".toList ++ scvalText val) :: entryTexts entries

end

theorem itemTexts_eq (items : List ScVal) : itemTexts aliases items = items.map (scvalText aliases) := by
  induction items with
  | nil => rfl
  | cons item items ih => rw [itemTexts, ih, List.map_cons]

/-- An entry of a map. -/
def entryText (entry : ScVal × ScVal) : List Char :=
  scvalText aliases entry.1 ++ ": ".toList ++ scvalText aliases entry.2

theorem entryTexts_eq (entries : List (ScVal × ScVal)) :
    entryTexts aliases entries = entries.map (entryText aliases) := by
  induction entries with
  | nil => rfl
  | cons entry entries ih => rw [entryTexts, ih, List.map_cons, entryText]

structure ContractEvent where
  contractId : Option (BytesN 32)
  topics : List ScVal
  data : ScVal

/-- The line of an event. -/
def event (event : ContractEvent) : List Char :=
  let contract := match event.contractId with
    | some id => contractAlias aliases id
    | none => "<no-contract>".toList
  contract ++ " topics=[".toList ++ ", ".toList.intercalate (event.topics.map (scvalText aliases)) ++
    "] data=".toList ++ scvalText aliases event.data

end

/-! ### Words -/

/-- The characters of names and numbers. -/
def legible (c : Char) : Bool := c.isAlphanum || c == '_' || c == '-'

theorem word_of_alphanum {w : List Char} (h : ∀ c ∈ w, c.isAlphanum = true) : Word legible w := by
  intro c hc
  simp [legible, h c hc]

theorem word_decimal (n : Nat) : Word legible (decimal n) := by
  refine word_of_alphanum fun c hc => ?_
  have hdigit : c.isDigit = true := Nat.isDigit_of_mem_toDigits (by decide) (by decide) hc
  simp [Char.isAlphanum, hdigit]

theorem decimal_injective : Function.Injective decimal := by
  intro m n h
  have hvalue := congrArg (fun w => Nat.ofDigitChars 10 w 0) h
  simpa [decimal] using hvalue

theorem word_signed (i : Int) : Word legible (signed i) := by
  unfold signed
  split
  · intro c hc
    rcases List.mem_cons.mp hc with rfl | hc
    · rfl
    · exact word_decimal _ c hc
  · exact word_decimal _

theorem minus_not_mem_decimal (n : Nat) : '-' ∉ decimal n := by
  intro hmem
  have hdigit : '-'.isDigit = true := Nat.isDigit_of_mem_toDigits (by decide) (by decide) hmem
  cases hdigit

theorem signed_injective : Function.Injective signed := by
  intro i j h
  unfold signed at h
  split at h <;> split at h
  · have habs : i.natAbs = j.natAbs := decimal_injective (List.cons.inj h).2
    omega
  · exact absurd (by rw [← h]; exact List.mem_cons_self ..) (minus_not_mem_decimal j.natAbs)
  · exact absurd (by rw [h]; exact List.mem_cons_self ..) (minus_not_mem_decimal i.natAbs)
  · have habs : i.natAbs = j.natAbs := decimal_injective h
    omega

theorem digitChar_alphanum : ∀ n < 16, (Nat.digitChar n).isAlphanum = true := by decide

theorem digitChar_inj : ∀ m < 16, ∀ n < 16, Nat.digitChar m = Nat.digitChar n → m = n := by decide

theorem hex_cons (byte : UInt8) (bytes : List UInt8) : hex (byte :: bytes) =
    Nat.digitChar (byte.toNat / 16) :: Nat.digitChar (byte.toNat % 16) :: hex bytes := rfl

theorem nibbles_lt (byte : UInt8) : byte.toNat / 16 < 16 ∧ byte.toNat % 16 < 16 := by
  have hbyte := byte.toNat_lt
  omega

theorem word_hex (bytes : List UInt8) : Word legible (hex bytes) := by
  refine word_of_alphanum ?_
  induction bytes with
  | nil => simp [hex]
  | cons byte bytes ih =>
    obtain ⟨hhigh, hlow⟩ := nibbles_lt byte
    rw [hex_cons]
    simp only [List.mem_cons, forall_eq_or_imp]
    exact ⟨digitChar_alphanum _ hhigh, digitChar_alphanum _ hlow, ih⟩

theorem hex_injective : Function.Injective hex := by
  intro a b h
  induction a generalizing b with
  | nil =>
    cases b with
    | nil => rfl
    | cons y b => cases h
  | cons x a ih =>
    cases b with
    | nil => cases h
    | cons y b =>
      rw [hex_cons, hex_cons] at h
      obtain ⟨hhigh, htail⟩ := List.cons.inj h
      obtain ⟨hlow, hrest⟩ := List.cons.inj htail
      have hdiv := digitChar_inj _ (nibbles_lt x).1 _ (nibbles_lt y).1 hhigh
      have hmod := digitChar_inj _ (nibbles_lt x).2 _ (nibbles_lt y).2 hlow
      have hxy : x = y := UInt8.toNat_inj.mp (by omega)
      rw [hxy, ih hrest]

theorem Symbol.word (symbol : Symbol) : Word legible symbol.name.toList := by
  intro c hc
  have hlegal : symbolChar c = true := symbol.legal c hc
  unfold symbolChar at hlegal
  simp only [legible, hlegal, Bool.true_or]

theorem Symbol.name_injective {s t : Symbol} (h : s.name.toList = t.name.toList) : s = t := by
  obtain ⟨_, _⟩ := s
  obtain ⟨_, _⟩ := t
  cases String.toList_injective h
  rfl

/-! ### The alias table -/

/-- The table goes both ways, and its aliases are words. -/
structure Aliases.Faithful (aliases : Aliases) : Prop where
  bidirectional : ∀ e ∈ aliases.entries, ∀ e' ∈ aliases.entries, e.2 = e'.2 → e.1 = e'.1
  words : ∀ e ∈ aliases.entries, Word legible e.2.toList

theorem Aliases.lookup_mem {aliases : Aliases} {a : Address} {name : String}
    (h : aliases.lookup a = some name) : (a, name) ∈ aliases.entries := by
  obtain ⟨⟨a', name'⟩, hfind, rfl⟩ := Option.map_eq_some_iff.mp h
  have hkey : a' = a := by simpa using List.find?_some hfind
  rw [← hkey]
  exact List.mem_of_find?_eq_some hfind

/-! ### Values -/

/-- How the text of a value starts. -/
inductive Tag where
  | void | yes | no | u32 | i32 | u64 | i64 | sym | bytes | addr | vec | map | other
  deriving DecidableEq

def Tag.text : Tag → List Char
  | .void => "void".toList
  | .yes => "true".toList
  | .no => "false".toList
  | .u32 => "u32:".toList
  | .i32 => "i32:".toList
  | .u64 => "u64:".toList
  | .i64 => "i64:".toList
  | .sym => "sym:".toList
  | .bytes => "bytes:".toList
  | .addr => "addr:".toList
  | .vec => "[".toList
  | .map => "\x7b".toList
  | .other => "<unrendered:".toList

theorem Tag.prefix_free : ∀ t t' : Tag, t.text <+: t'.text → t = t' := by
  intro t t'
  cases t <;> cases t' <;> decide

theorem Tag.opens (t : Tag) : ∃ c r, t.text = c :: r ∧ c ≠ ']' ∧ c ≠ '}' := by
  cases t <;> exact ⟨_, _, rfl, by decide, by decide⟩

def ScVal.tag : ScVal → Tag
  | .void => .void
  | .bool value => if value then .yes else .no
  | .u32 _ => .u32
  | .i32 _ => .i32
  | .u64 _ => .u64
  | .i64 _ => .i64
  | .symbol _ => .sym
  | .bytes _ => .bytes
  | .address _ => .addr
  | .vec _ => .vec
  | .map _ => .map
  | .other _ => .other

section
variable (aliases : Aliases)

/-- What follows the tag. -/
def body : ScVal → List Char
  | .void | .bool _ => []
  | .u32 value => decimal value.toNat
  | .i32 value => signed value.toInt
  | .u64 value => decimal value.toNat
  | .i64 value => signed value.toInt
  | .symbol symbol => symbol.name.toList
  | .bytes bytes => hex bytes
  | .address address => ((aliases.lookup address).getD "<UNALIASED>").toList
  | .vec items => ", ".toList.intercalate (items.map (scvalText aliases)) ++ [']']
  | .map entries => ", ".toList.intercalate (entries.map (entryText aliases)) ++ ['}']
  | .other debug => debug.toList ++ ['>']

theorem addressText_eq (a : Address) : addressText aliases a =
    "addr:".toList ++ ((aliases.lookup a).getD "<UNALIASED>").toList := by
  unfold addressText
  cases aliases.lookup a with
  | none => decide
  | some name => rfl

theorem scvalText_eq (v : ScVal) : scvalText aliases v = v.tag.text ++ body aliases v := by
  cases v with
  | bool value => cases value <;> rfl
  | address a => exact addressText_eq aliases a
  | vec items =>
    show "[".toList ++ ", ".toList.intercalate (itemTexts aliases items) ++ "]".toList = _
    rw [itemTexts_eq, List.append_assoc]
    rfl
  | map entries =>
    show "\x7b".toList ++ ", ".toList.intercalate (entryTexts aliases entries) ++ "\x7d".toList = _
    rw [entryTexts_eq, List.append_assoc]
    rfl
  | other debug => exact List.append_assoc _ _ _
  | _ => rfl

/-- Nothing is marked as not shown. -/
def Unmarked (w : List Char) : Prop := '<' ∉ w

theorem unmarked_append {v w : List Char} : Unmarked (v ++ w) ↔ Unmarked v ∧ Unmarked w := by
  simp only [Unmarked, List.mem_append, not_or]

theorem unmarked_of_all {w : List Char} (h : w.all (· != '<') = true) : Unmarked w := fun hmem => by
  simpa using List.all_eq_true.mp h '<' hmem

theorem unmarked_word {w : List Char} (h : Word legible w) : Unmarked w := fun hmem => by
  cases h '<' hmem

def Shown (v : ScVal) : Prop := Unmarked (scvalText aliases v)

variable {aliases}

theorem Shown.body {v : ScVal} (h : Shown aliases v) : Unmarked (body aliases v) := by
  intro hmem
  refine h ?_
  rw [scvalText_eq]
  exact List.mem_append_right _ hmem

theorem Shown.item {items : List ScVal} (h : Shown aliases (.vec items)) {v : ScVal} (hv : v ∈ items) :
    Shown aliases v := by
  intro hmem
  refine h.body (List.mem_append_left _ (mem_intercalate ?_ hmem))
  exact List.mem_map_of_mem hv

theorem Shown.entry {entries : List (ScVal × ScVal)} (h : Shown aliases (.map entries))
    {e : ScVal × ScVal} (he : e ∈ entries) : Shown aliases e.1 ∧ Shown aliases e.2 := by
  have hentry : Unmarked (entryText aliases e) := by
    intro hmem
    refine h.body (List.mem_append_left _ (mem_intercalate ?_ hmem))
    exact List.mem_map_of_mem he
  constructor
  · intro hmem
    exact hentry (List.mem_append_left _ (List.mem_append_left _ hmem))
  · intro hmem
    exact hentry (List.mem_append_right _ hmem)

/-- An address that is shown has an alias. -/
theorem Shown.alias {a : Address} (h : Shown aliases (.address a)) :
    ∃ name, aliases.lookup a = some name := by
  have hbody := h.body
  cases hname : aliases.lookup a with
  | none =>
    refine absurd ?_ hbody
    simp only [LedgerSnapshots.body, hname, Option.getD_none]
    decide
  | some name => exact ⟨name, rfl⟩

theorem not_shown_other {debug : String} : ¬ Shown aliases (.other debug) := by
  intro h
  refine h ?_
  rw [scvalText_eq]
  exact List.mem_append_left _ (show '<' ∈ Tag.other.text by decide)

theorem text_opens (v : ScVal) : ∃ c r, scvalText aliases v = c :: r ∧ c ≠ ']' ∧ c ≠ '}' := by
  obtain ⟨c, r, htag, hc⟩ := v.tag.opens
  exact ⟨c, r ++ body aliases v, by rw [scvalText_eq, htag]; rfl, hc⟩

/-- The text of `v` is read off its body. -/
theorem readable_of_body {v : ScVal} (h : ∀ w r r', w.tag = v.tag → Shown aliases w →
      Stops legible r → Stops legible r' → body aliases v ++ r = body aliases w ++ r' →
      v = w ∧ r = r') :
    ReadableAt legible (Shown aliases) (scvalText aliases) v := by
  intro w r r' hw hr hr' heq
  rw [scvalText_eq, scvalText_eq, List.append_assoc, List.append_assoc] at heq
  obtain ⟨htag, hbody⟩ := tag_cancel Tag.prefix_free heq
  exact h w r r' htag.symm hw hr hr' hbody

/-- Addresses with the same alias are the same. -/
theorem readable_address (haliases : aliases.Faithful) {a : Address} (ha : Shown aliases (.address a)) :
    ReadableAt legible (Shown aliases) (scvalText aliases) (.address a) := by
  refine readable_of_body fun w r r' htag hw hr hr' heq => ?_
  cases w with
  | address b =>
    obtain ⟨name, hname⟩ := ha.alias
    obtain ⟨name', hname'⟩ := hw.alias
    simp only [body, hname, hname', Option.getD_some] at heq
    have hmem := Aliases.lookup_mem hname
    have hmem' := Aliases.lookup_mem hname'
    obtain ⟨htext, hrest⟩ :=
      (haliases.words _ hmem).cancel (haliases.words _ hmem') hr hr' heq
    have hsame : a = b := haliases.bidirectional _ hmem _ hmem' (String.toList_injective htext)
    exact ⟨by rw [hsame], hrest⟩
  | bool value => cases value <;> cases htag
  | _ => cases htag

mutual

/-- A text without a mark is the text of one value. -/
theorem scvalText_readable (haliases : aliases.Faithful) : ∀ v, Shown aliases v →
    ReadableAt legible (Shown aliases) (scvalText aliases) v
  | .void, _ => readable_of_body fun w r r' htag _ _ _ heq => by
    cases w with
    | void => exact ⟨rfl, heq⟩
    | bool value => cases value <;> cases htag
    | _ => cases htag
  | .bool value, _ => readable_of_body fun w r r' htag _ _ _ heq => by
    cases w with
    | bool value' =>
      have hvalue : value = value' := by cases value <;> cases value' <;> first | rfl | cases htag
      exact ⟨by rw [hvalue], heq⟩
    | _ => cases value <;> cases htag
  | .u32 value, _ => readable_of_body fun w r r' htag _ hr hr' heq => by
    cases w with
    | u32 value' =>
      obtain ⟨htext, hrest⟩ := (word_decimal _).cancel (word_decimal _) hr hr' heq
      exact ⟨by rw [UInt32.toNat_inj.mp (decimal_injective htext)], hrest⟩
    | bool value => cases value <;> cases htag
    | _ => cases htag
  | .i32 value, _ => readable_of_body fun w r r' htag _ hr hr' heq => by
    cases w with
    | i32 value' =>
      obtain ⟨htext, hrest⟩ := (word_signed _).cancel (word_signed _) hr hr' heq
      exact ⟨by rw [Int32.toInt_inj.mp (signed_injective htext)], hrest⟩
    | bool value => cases value <;> cases htag
    | _ => cases htag
  | .u64 value, _ => readable_of_body fun w r r' htag _ hr hr' heq => by
    cases w with
    | u64 value' =>
      obtain ⟨htext, hrest⟩ := (word_decimal _).cancel (word_decimal _) hr hr' heq
      exact ⟨by rw [UInt64.toNat_inj.mp (decimal_injective htext)], hrest⟩
    | bool value => cases value <;> cases htag
    | _ => cases htag
  | .i64 value, _ => readable_of_body fun w r r' htag _ hr hr' heq => by
    cases w with
    | i64 value' =>
      obtain ⟨htext, hrest⟩ := (word_signed _).cancel (word_signed _) hr hr' heq
      exact ⟨by rw [Int64.toInt_inj.mp (signed_injective htext)], hrest⟩
    | bool value => cases value <;> cases htag
    | _ => cases htag
  | .symbol symbol, _ => readable_of_body fun w r r' htag _ hr hr' heq => by
    cases w with
    | symbol symbol' =>
      obtain ⟨htext, hrest⟩ := symbol.word.cancel symbol'.word hr hr' heq
      exact ⟨by rw [Symbol.name_injective htext], hrest⟩
    | bool value => cases value <;> cases htag
    | _ => cases htag
  | .bytes bytes, _ => readable_of_body fun w r r' htag _ hr hr' heq => by
    cases w with
    | bytes bytes' =>
      obtain ⟨htext, hrest⟩ := (word_hex bytes).cancel (word_hex bytes') hr hr' heq
      exact ⟨by rw [hex_injective htext], hrest⟩
    | bool value => cases value <;> cases htag
    | _ => cases htag
  | .address a, ha => readable_address haliases ha
  | .vec items, hitems => readable_of_body fun w r r' htag hw _ _ heq => by
    cases w with
    | vec items' =>
      simp only [body, List.append_assoc] at heq
      obtain ⟨hlist, hrest⟩ := joined_cancel (P := Shown aliases) (s := ',') rfl rfl (by decide)
        (fun x _ => (text_opens x).imp fun _ h => h.imp fun _ h => ⟨h.1, h.2.1⟩)
        (fun x hx => ⟨hitems.item hx, items_readable haliases items x hx (hitems.item hx)⟩)
        (fun x hx => hw.item hx) heq
      exact ⟨by rw [hlist], hrest⟩
    | bool value => cases value <;> cases htag
    | _ => cases htag
  | .map entries, hentries => readable_of_body fun w r r' htag hw _ _ heq => by
    cases w with
    | map entries' =>
      simp only [body, List.append_assoc] at heq
      obtain ⟨hlist, hrest⟩ := joined_cancel (f := entryText aliases)
        (P := fun e => Shown aliases e.1 ∧ Shown aliases e.2) (s := ',') rfl rfl (by decide)
        (fun x _ => by
          obtain ⟨c, t, hopen, _, hc⟩ := @text_opens aliases x.1
          exact ⟨c, _, by rw [entryText, hopen]; rfl, hc⟩)
        (fun x hx => ⟨hentries.entry hx, entries_readable haliases entries x hx (hentries.entry hx)⟩)
        (fun x hx => hw.entry hx) heq
      exact ⟨by rw [hlist], hrest⟩
    | bool value => cases value <;> cases htag
    | _ => cases htag
  | .other debug, h => absurd h not_shown_other

theorem items_readable (haliases : aliases.Faithful) : ∀ items : List ScVal, ∀ v ∈ items,
    Shown aliases v →
    ReadableAt legible (Shown aliases) (scvalText aliases) v
  | item :: items, v, hv, hshown => by
    rcases List.mem_cons.mp hv with heq | hv
    · rw [heq] at hshown ⊢
      exact scvalText_readable haliases item hshown
    · exact items_readable haliases items v hv hshown

theorem entries_readable (haliases : aliases.Faithful) : ∀ entries : List (ScVal × ScVal), ∀ e ∈ entries,
    Shown aliases e.1 ∧ Shown aliases e.2 →
    ReadableAt legible (fun e => Shown aliases e.1 ∧ Shown aliases e.2) (entryText aliases) e
  | (key, val) :: entries, e, he, hshown => by
    rcases List.mem_cons.mp he with heq | he
    · rw [heq] at hshown ⊢
      exact .pair (fun r => stops_cons rfl _) (scvalText_readable haliases key hshown.1)
        (scvalText_readable haliases val hshown.2)
    · exact entries_readable haliases entries e he hshown

end

end
end EarnProof.LedgerSnapshots
