import EarnProof.LedgerSnapshots.Render
import EarnProof.Soroban.Storage

/-! The text of a ledger snapshot.

A scenario is rendered as its ledger position, a line for each stored entry in sorted
order, a line for each event in the order of emission, and the verdicts. Nothing of it
is lost and nothing is added: two scenarios have the same text exactly when they have
the same position, entries, events and verdicts (`same_text_iff`). -/
namespace EarnProof.LedgerSnapshots
open Soroban Text

/-- The host's storage as a snapshot asks for it, as a contract and in one class: `all`
is what it lists, in its own order, and `has` whether it has an entry of a key. -/
structure Host where
  all : Address → StorageClass → List (ScVal × ScVal)
  has : Address → StorageClass → ScVal → Bool

/-- Entries owned by one contract in one durability class. The instance is the contract's
own; the other classes list every entry of the ledger, so they are partitioned with
`has`, which is about the contract alone. -/
def entries (env : Host) (contract : Address) (c : StorageClass) : List (ScVal × ScVal) :=
  (env.all contract c).filter fun entry =>
    match c with
    | .inst => true
    | .persistent => env.has contract .persistent entry.1
    | .temporary => env.has contract .temporary entry.1

/-- What the renderer is given. -/
structure Scenario where
  env : Host
  aliases : Aliases
  contracts : List (String × Address)
  ledger : UInt32 × UInt64
  verdicts : List (String × Bool)
  events : List ContractEvent

def className : StorageClass → String
  | .inst => "instance"
  | .persistent => "persistent"
  | .temporary => "temporary"

/-- An entry as a snapshot shows it: the contract's name, the class, the key and the value. -/
structure StoredEntry where
  contract : String
  storage : StorageClass
  key : ScVal
  val : ScVal

def storageLine (aliases : Aliases) (e : StoredEntry) : List Char :=
  e.contract.toList ++ " ".toList ++ (className e.storage).toList ++ " ".toList ++
    scvalText aliases e.key ++ " = ".toList ++ scvalText aliases e.val

def verdictLine (verdict : String × Bool) : List Char :=
  verdict.1.toList ++ " = ".toList ++ (if verdict.2 then "true" else "false").toList

namespace Scenario
variable (s : Scenario)

/-- Every entry of every contract. -/
def stored : List StoredEntry :=
  s.contracts.flatMap fun contract => [StorageClass.inst, .persistent, .temporary].flatMap fun c =>
    (entries s.env contract.2 c).map fun entry => ⟨contract.1, c, entry.1, entry.2⟩

def storageLines : List (List Char) :=
  (s.stored.map (storageLine s.aliases)).mergeSort fun a b => decide (a ≤ b)

end Scenario

def render (s : Scenario) : List Char :=
  "[ledger]\nsequence = ".toList ++ decimal s.ledger.1.toNat ++ "\ntimestamp = ".toList ++
    decimal s.ledger.2.toNat ++ "\n\n[storage]\n".toList ++ unlines s.storageLines ++
    "\n[events]\n".toList ++ unlines (s.events.map (event s.aliases)) ++
    "\n[verdicts]\n".toList ++ unlines (s.verdicts.map verdictLine)

/-! ### Lines -/

/-- The names of the contracts are words, the calls of the verdicts are lines, and the
alias table goes both ways. -/
structure Scenario.Legible (s : Scenario) : Prop where
  aliases : s.aliases.Faithful
  contracts : ∀ contract ∈ s.contracts, Word legible contract.1.toList
  verdicts : ∀ verdict ∈ s.verdicts, Word inLine verdict.1.toList

theorem line_of_word {w : List Char} (h : Word legible w) : Word inLine w := by
  intro c hc
  have hlegible := h c hc
  have hn : c ≠ '\n' := by
    rintro rfl
    cases hlegible
  have hr : c ≠ '\r' := by
    rintro rfl
    cases hlegible
  simp [inLine, hn, hr]

theorem Tag.line (t : Tag) : Word inLine t.text := .of_all (by cases t <;> decide)

theorem className_word (c : StorageClass) : Word legible (className c).toList := by
  cases c <;> exact .of_all (by decide)

theorem className_injective {c c' : StorageClass} (h : (className c).toList = (className c').toList) :
    c = c' := by
  cases c <;> cases c' <;> first | rfl | exact absurd h (by decide)

section
variable {aliases : Aliases}

theorem word_alias (haliases : aliases.Faithful) {a : Address} {name : String}
    (h : aliases.lookup a = some name) : Word legible name.toList :=
  haliases.words _ (Aliases.lookup_mem h)

mutual

theorem scvalText_inLine (haliases : aliases.Faithful) : ∀ v, Shown aliases v →
    Word inLine (scvalText aliases v)
  | .void, _ => .of_all rfl
  | .bool value, _ => .of_all (by cases value <;> rfl)
  | .u32 value, _ => .append (Tag.line .u32) (line_of_word (word_decimal _))
  | .i32 value, _ => .append (Tag.line .i32) (line_of_word (word_signed _))
  | .u64 value, _ => .append (Tag.line .u64) (line_of_word (word_decimal _))
  | .i64 value, _ => .append (Tag.line .i64) (line_of_word (word_signed _))
  | .symbol symbol, _ => .append (Tag.line .sym) (line_of_word symbol.word)
  | .bytes bytes, _ => .append (Tag.line .bytes) (line_of_word (word_hex bytes))
  | .address a, h => by
    obtain ⟨name, hname⟩ := h.alias
    rw [scvalText_eq]
    refine .append (Tag.line .addr) ?_
    simp only [body, hname, Option.getD_some]
    exact line_of_word (word_alias haliases hname)
  | .vec items, h => by
    rw [scvalText_eq]
    refine .append (Tag.line .vec) (.append (.intercalate (.of_all rfl) ?_)
      (.of_all rfl))
    rw [← itemTexts_eq]
    exact itemTexts_inLine haliases items fun v hv => h.item hv
  | .map entries, h => by
    rw [scvalText_eq]
    refine .append (Tag.line .map) (.append (.intercalate (.of_all rfl) ?_)
      (.of_all rfl))
    rw [← entryTexts_eq]
    exact entryTexts_inLine haliases entries fun e he => h.entry he
  | .other debug, h => absurd h not_shown_other

theorem itemTexts_inLine (haliases : aliases.Faithful) : ∀ items : List ScVal,
    (∀ v ∈ items, Shown aliases v) → ∀ w ∈ itemTexts aliases items, Word inLine w
  | item :: items, h, w, hw => by
    rcases List.mem_cons.mp hw with rfl | hw
    · exact scvalText_inLine haliases item (h item (List.mem_cons_self ..))
    · exact itemTexts_inLine haliases items (fun v hv => h v (List.mem_cons_of_mem _ hv)) w hw

theorem entryTexts_inLine (haliases : aliases.Faithful) : ∀ entries : List (ScVal × ScVal),
    (∀ e ∈ entries, Shown aliases e.1 ∧ Shown aliases e.2) →
    ∀ w ∈ entryTexts aliases entries, Word inLine w
  | (key, val) :: entries, h, w, hw => by
    rcases List.mem_cons.mp hw with rfl | hw
    · obtain ⟨hkey, hval⟩ := h (key, val) (List.mem_cons_self ..)
      exact .append (.append (scvalText_inLine haliases key hkey) (.of_all rfl))
        (scvalText_inLine haliases val hval)
    · exact entryTexts_inLine haliases entries (fun e he => h e (List.mem_cons_of_mem _ he)) w hw

end

theorem contractAlias_shown {id : BytesN 32} (h : Unmarked (contractAlias aliases id)) :
    ∃ name, aliases.lookup ⟨.contract, id⟩ = some name ∧ contractAlias aliases id = name.toList := by
  unfold contractAlias at h ⊢
  cases hname : aliases.lookup ⟨.contract, id⟩ with
  | none =>
    rw [hname] at h
    exact absurd (show '<' ∈ "<UNALIASED>".toList by decide) h
  | some name => exact ⟨name, rfl, rfl⟩

end

/-! ### The lines of a snapshot -/

section
variable {aliases : Aliases}

theorem storageLine_shown {e : StoredEntry} (h : Unmarked (storageLine aliases e)) :
    Shown aliases e.key ∧ Shown aliases e.val := by
  constructor
  · intro hmem
    exact h (List.mem_append_left _ (List.mem_append_left _ (List.mem_append_right _ hmem)))
  · intro hmem
    exact h (List.mem_append_right _ hmem)

theorem storageLine_line (haliases : aliases.Faithful) {e : StoredEntry}
    (hname : Word legible e.contract.toList) (h : Unmarked (storageLine aliases e)) :
    Word inLine (storageLine aliases e) := by
  obtain ⟨hkey, hval⟩ := storageLine_shown h
  have hblank : Word inLine " ".toList := .of_all rfl
  have hhead : Word inLine (e.contract.toList ++ " ".toList ++ (className e.storage).toList ++
      " ".toList) :=
    .append (.append (.append (line_of_word hname) hblank) (line_of_word (className_word _))) hblank
  exact .append (.append (.append hhead (scvalText_inLine haliases _ hkey)) (.of_all rfl))
    (scvalText_inLine haliases _ hval)

/-- A storage line tells its entry. -/
theorem storageLine_injective (haliases : aliases.Faithful) {e e' : StoredEntry}
    (hname : Word legible e.contract.toList) (hname' : Word legible e'.contract.toList)
    (h : Unmarked (storageLine aliases e)) (h' : Unmarked (storageLine aliases e'))
    (heq : storageLine aliases e = storageLine aliases e') : e = e' := by
  obtain ⟨hkey, hval⟩ := storageLine_shown h
  obtain ⟨hkey', hval'⟩ := storageLine_shown h'
  have hblank : ∀ r, Stops legible (" ".toList ++ r) := fun r => stops_cons rfl r
  have hequals : ∀ r, Stops legible (" = ".toList ++ r) := fun r => stops_cons rfl _
  obtain ⟨contract, storage, key, val⟩ := e
  obtain ⟨contract', storage', key', val'⟩ := e'
  simp only [storageLine, List.append_assoc] at heq
  obtain ⟨hcontract, hafter⟩ := hname.cancel hname' (hblank _) (hblank _) heq
  obtain ⟨hstorage, hafter⟩ := (className_word _).cancel (className_word _) (hblank _) (hblank _)
    (List.append_cancel_left hafter)
  obtain ⟨hk, hafter⟩ := scvalText_readable haliases key hkey key' _ _ hkey' (hequals _) (hequals _)
    (List.append_cancel_left hafter)
  have hafter := List.append_cancel_left hafter
  rw [← List.append_nil (scvalText aliases val), ← List.append_nil (scvalText aliases val')] at hafter
  obtain ⟨hv, _⟩ := scvalText_readable haliases val hval val' [] [] hval' stops_nil stops_nil hafter
  obtain rfl : contract = contract' := String.toList_injective hcontract
  obtain rfl : storage = storage' := className_injective hstorage
  rw [hk, hv]

theorem event_shown {e : ContractEvent} (h : Unmarked (event aliases e)) :
    ∃ id, e.contractId = some id ∧ Unmarked (contractAlias aliases id) ∧
      (∀ topic ∈ e.topics, Shown aliases topic) ∧ Shown aliases e.data := by
  obtain ⟨contractId, topics, data⟩ := e
  cases contractId with
  | none =>
    refine absurd ?_ h
    simp only [event, List.append_assoc]
    exact List.mem_append_left _ (by decide)
  | some id =>
    refine ⟨id, rfl, fun hmem => h ?_, fun topic htopic hmem => h ?_, fun hmem => h ?_⟩
    · simp only [event, List.append_assoc]
      exact List.mem_append_left _ hmem
    · have hjoined : '<' ∈ ", ".toList.intercalate (topics.map (scvalText aliases)) :=
        mem_intercalate (List.mem_map_of_mem htopic) hmem
      simp only [event, List.append_assoc]
      exact List.mem_append_right _ (List.mem_append_right _ (List.mem_append_left _ hjoined))
    · exact List.mem_append_right _ hmem

theorem event_eq (id : BytesN 32) (topics : List ScVal) (data : ScVal) :
    event aliases ⟨some id, topics, data⟩ = contractAlias aliases id ++ (" topics=[".toList ++
      (", ".toList.intercalate (topics.map (scvalText aliases)) ++
        ']' :: (" data=".toList ++ scvalText aliases data))) := by
  simp only [event, List.append_assoc]
  rfl

theorem event_line (haliases : aliases.Faithful) {e : ContractEvent} (h : Unmarked (event aliases e)) :
    Word inLine (event aliases e) := by
  obtain ⟨id, hid, hname, htopics, hdata⟩ := event_shown h
  obtain ⟨contractId, topics, data⟩ := e
  cases hid
  obtain ⟨name, hlookup, htext⟩ := contractAlias_shown hname
  rw [event_eq, htext]
  have hjoined : Word inLine (", ".toList.intercalate (topics.map (scvalText aliases))) := by
    refine .intercalate (.of_all rfl) fun w hw => ?_
    obtain ⟨topic, htopic, rfl⟩ := List.mem_map.mp hw
    exact scvalText_inLine haliases topic (htopics topic htopic)
  have htail : Word inLine (']' :: (" data=".toList ++ scvalText aliases data)) :=
    .append (Word.of_all (w := ']' :: " data=".toList) rfl) (scvalText_inLine haliases data hdata)
  exact .append (line_of_word (word_alias haliases hlookup))
    (.append (.of_all rfl) (.append hjoined htail))

/-- An event line tells its event. -/
theorem event_injective (haliases : aliases.Faithful) {e e' : ContractEvent}
    (h : Unmarked (event aliases e)) (h' : Unmarked (event aliases e'))
    (heq : event aliases e = event aliases e') : e = e' := by
  obtain ⟨id, hid, hname, htopics, hdata⟩ := event_shown h
  obtain ⟨id', hid', hname', htopics', hdata'⟩ := event_shown h'
  obtain ⟨contractId, topics, data⟩ := e
  obtain ⟨contractId', topics', data'⟩ := e'
  cases hid
  cases hid'
  obtain ⟨name, hlookup, htext⟩ := contractAlias_shown hname
  obtain ⟨name', hlookup', htext'⟩ := contractAlias_shown hname'
  rw [event_eq, event_eq, htext, htext'] at heq
  have htopicsOpen : ∀ r, Stops legible (" topics=[".toList ++ r) := fun r => stops_cons rfl _
  obtain ⟨hsame, hafter⟩ := (word_alias haliases hlookup).cancel (word_alias haliases hlookup')
    (htopicsOpen _) (htopicsOpen _) heq
  rw [List.append_cancel_left_eq] at hafter
  obtain ⟨rfl, hrest⟩ := joined_cancel (P := Shown aliases) (s := ',') rfl rfl (by decide)
    (fun x _ => (text_opens x).imp fun _ hx => hx.imp fun _ hx => ⟨hx.1, hx.2.1⟩)
    (fun x hx => ⟨htopics x hx, scvalText_readable haliases x (htopics x hx)⟩) htopics' hafter
  rw [List.append_cancel_left_eq, ← List.append_nil (scvalText aliases data),
    ← List.append_nil (scvalText aliases data')] at hrest
  obtain ⟨rfl, _⟩ := scvalText_readable haliases data hdata data' [] [] hdata' stops_nil stops_nil
    hrest
  have haddress : (⟨.contract, id⟩ : Address) = ⟨.contract, id'⟩ :=
    haliases.bidirectional _ (Aliases.lookup_mem hlookup) _ (Aliases.lookup_mem hlookup')
      (String.toList_injective hsame)
  cases haddress
  rfl

end

theorem verdictLine_line {v : String × Bool} (h : Word inLine v.1.toList) :
    Word inLine (verdictLine v) := by
  have hverdict : ∀ b : Bool, Word inLine (if b then "true" else "false").toList := fun b =>
    .of_all (by cases b <;> rfl)
  exact .append (.append h (.of_all rfl)) (hverdict v.2)

/-- A verdict line tells its call and its verdict. -/
theorem verdictLine_injective : Function.Injective verdictLine := by
  rintro ⟨call, verdict⟩ ⟨call', verdict'⟩ h
  have hreverse := congrArg List.reverse h
  cases verdict <;> cases verdict' <;> simp [verdictLine] at hreverse
  · rw [String.toList_injective hreverse]
  · rw [String.toList_injective hreverse]

/-! ### The whole text -/

section Whole
variable {s : Scenario}

theorem events_heading (r : List Char) :
    "\n[events]\n".toList ++ r = '\n' :: ("[events]\n".toList ++ r) := by
  simp

theorem verdicts_heading (r : List Char) :
    "\n[verdicts]\n".toList ++ r = '\n' :: ("[verdicts]\n".toList ++ r) := by
  simp

theorem render_eq (s : Scenario) : render s =
    "[ledger]\nsequence = ".toList ++ (decimal s.ledger.1.toNat ++ ("\ntimestamp = ".toList ++
      (decimal s.ledger.2.toNat ++ ("\n\n[storage]\n".toList ++ (unlines s.storageLines ++
        '\n' :: ("[events]\n".toList ++ (unlines (s.events.map (event s.aliases)) ++
          '\n' :: ("[verdicts]\n".toList ++ unlines (s.verdicts.map verdictLine))))))))) := by
  rw [← events_heading, ← verdicts_heading]
  unfold render
  simp only [List.append_assoc]

theorem stored_word (hs : s.Legible) {e : StoredEntry} (he : e ∈ s.stored) :
    Word legible e.contract.toList := by
  obtain ⟨contract, hcontract, he⟩ := List.mem_flatMap.mp he
  obtain ⟨c, _, he⟩ := List.mem_flatMap.mp he
  obtain ⟨entry, _, rfl⟩ := List.mem_map.mp he
  exact hs.contracts contract hcontract

theorem mem_storageLines {l : List Char} :
    l ∈ s.storageLines ↔ ∃ e ∈ s.stored, storageLine s.aliases e = l := by
  rw [Scenario.storageLines, (List.mergeSort_perm _ _).mem_iff, List.mem_map]

theorem unmarked_unlines {ls : List (List Char)} : Unmarked (unlines ls) ↔ ∀ l ∈ ls, Unmarked l := by
  induction ls with
  | nil => simp [Unmarked]
  | cons l ls ih =>
    have hend : Unmarked (unlines (l :: ls)) ↔ Unmarked l ∧ Unmarked (unlines ls) := by
      simp [Unmarked]
    rw [hend, ih, List.forall_mem_cons]

theorem unmarked_headings : ∀ w ∈ ["[ledger]\nsequence = ", "\ntimestamp = ", "\n\n[storage]\n",
    "\n[events]\n", "\n[verdicts]\n"], Unmarked w.toList := by
  unfold Unmarked
  decide

/-- A text is without a mark when its lines are. -/
theorem unmarked_render : Unmarked (render s) ↔
    (∀ e ∈ s.stored, Unmarked (storageLine s.aliases e)) ∧
      (∀ e ∈ s.events, Unmarked (event s.aliases e)) ∧ ∀ v ∈ s.verdicts, Unmarked (verdictLine v) := by
  have hheading := unmarked_headings
  simp only [List.forall_mem_cons] at hheading
  obtain ⟨hledger, htime, hstorage, hevents, hverdicts, _⟩ := hheading
  have hstored : (∀ l ∈ s.storageLines, Unmarked l) ↔
      ∀ e ∈ s.stored, Unmarked (storageLine s.aliases e) := by
    simp only [mem_storageLines, forall_exists_index, and_imp, forall_apply_eq_imp_iff₂]
  have hseq := unmarked_word (word_decimal s.ledger.1.toNat)
  have hclock := unmarked_word (word_decimal s.ledger.2.toNat)
  unfold render
  simp only [unmarked_append, unmarked_unlines, hstored, List.forall_mem_map, hledger, htime, hstorage,
    hevents, hverdicts, hseq, hclock, true_and, and_true, and_assoc]

theorem unmarked_of_lines
    (hstored : (s.stored.all fun e => (storageLine s.aliases e).all (· != '<')) = true)
    (hevents : (s.events.all fun e => (event s.aliases e).all (· != '<')) = true)
    (hverdicts : (s.verdicts.all fun v => (verdictLine v).all (· != '<')) = true) :
    Unmarked (render s) :=
  unmarked_render.mpr ⟨fun e he => unmarked_of_all (List.all_eq_true.mp hstored e he),
    fun e he => unmarked_of_all (List.all_eq_true.mp hevents e he),
    fun v hv => unmarked_of_all (List.all_eq_true.mp hverdicts v hv)⟩

theorem storageLines_lines (hs : s.Legible) (h : Unmarked (render s)) {l : List Char}
    (hl : l ∈ s.storageLines) : Word inLine l ∧ l ≠ [] := by
  obtain ⟨e, he, rfl⟩ := mem_storageLines.mp hl
  refine ⟨storageLine_line hs.aliases (stored_word hs he) ((unmarked_render.mp h).1 e he), ?_⟩
  simp [storageLine]

theorem events_lines (hs : s.Legible) (h : Unmarked (render s)) {l : List Char}
    (hl : l ∈ s.events.map (event s.aliases)) : Word inLine l ∧ l ≠ [] := by
  obtain ⟨e, he, rfl⟩ := List.mem_map.mp hl
  refine ⟨event_line hs.aliases ((unmarked_render.mp h).2.1 e he), ?_⟩
  simp [event]

theorem verdicts_lines (hs : s.Legible) {l : List Char} (hl : l ∈ s.verdicts.map verdictLine) :
    Word inLine l := by
  obtain ⟨v, hv, rfl⟩ := List.mem_map.mp hl
  exact verdictLine_line (hs.verdicts v hv)

theorem unix_unlines {ls : List (List Char)} (h : ∀ l ∈ ls, Word inLine l) : '\r' ∉ unlines ls := by
  induction ls with
  | nil => simp
  | cons l ls ih =>
    obtain ⟨hl, hrest⟩ := List.forall_mem_cons.mp h
    have hline : '\r' ∉ l := fun hmem => by cases hl '\r' hmem
    simp [hline, ih hrest]

theorem unix_headings : ∀ w ∈ ["[ledger]\nsequence = ", "\ntimestamp = ", "\n\n[storage]\n",
    "\n[events]\n", "\n[verdicts]\n"], '\r' ∉ w.toList := by
  decide

/-- A snapshot has line feeds only. -/
theorem render_unix (hs : s.Legible) (h : Unmarked (render s)) : '\r' ∉ render s := by
  have hheading := unix_headings
  simp only [List.forall_mem_cons] at hheading
  obtain ⟨hledger, htime, hstorage, hevents, hverdicts, _⟩ := hheading
  have hnumber : ∀ n, '\r' ∉ decimal n := fun n hmem => by cases word_decimal n '\r' hmem
  have hstored := unix_unlines fun _ hl => (storageLines_lines hs h hl).1
  have hemitted := unix_unlines fun _ hl => (events_lines hs h hl).1
  have hjudged := unix_unlines fun _ hl => verdicts_lines hs hl
  unfold render
  simp only [List.mem_append, not_or, hledger, htime, hstorage, hevents, hverdicts, hnumber, hstored,
    hemitted, hjudged, not_false_eq_true, and_self]

section
variable {t : Scenario}

/-- The sorted lines tell the entries, in some order. -/
theorem stored_perm (hs : s.Legible) (ht : t.Legible) (haliases : t.aliases = s.aliases)
    (hmark : Unmarked (render s)) (hmark' : Unmarked (render t))
    (h : s.storageLines = t.storageLines) : s.stored.Perm t.stored := by
  have hlines : (s.stored.map (storageLine s.aliases)).Perm (t.stored.map (storageLine s.aliases)) := by
    have hleft := (List.mergeSort_perm (s.stored.map (storageLine s.aliases))
      fun a b => decide (a ≤ b)).symm
    have hright := List.mergeSort_perm (t.stored.map (storageLine t.aliases))
      fun a b => decide (a ≤ b)
    rw [haliases] at hright
    rw [Scenario.storageLines, Scenario.storageLines, haliases] at h
    rw [h] at hleft
    exact hleft.trans hright
  refine perm_of_map (fun e he e' he' heq => ?_) hlines
  have hshown' := (unmarked_render.mp hmark').1 e' he'
  rw [haliases] at hshown'
  exact storageLine_injective hs.aliases (stored_word hs he) (stored_word ht he')
    ((unmarked_render.mp hmark).1 e he) hshown' heq

theorem events_eq (hs : s.Legible) (haliases : t.aliases = s.aliases) (hmark : Unmarked (render s))
    (hmark' : Unmarked (render t))
    (h : s.events.map (event s.aliases) = t.events.map (event t.aliases)) : s.events = t.events := by
  rw [haliases] at h
  refine map_inj_on (fun e he e' he' heq => ?_) h
  have hshown' := (unmarked_render.mp hmark').2.1 e' he'
  rw [haliases] at hshown'
  exact event_injective hs.aliases ((unmarked_render.mp hmark).2.1 e he) hshown' heq

theorem text_determines (hs : s.Legible) (ht : t.Legible) (haliases : t.aliases = s.aliases)
    (hmark : Unmarked (render s)) (h : render s = render t) :
    s.ledger = t.ledger ∧ s.stored.Perm t.stored ∧ s.events = t.events ∧ s.verdicts = t.verdicts := by
  have hmark' : Unmarked (render t) := by rwa [← h]
  have htimestamp : ∀ r, Stops legible ("\ntimestamp = ".toList ++ r) := fun _ => stops_cons rfl _
  have hstorage : ∀ r, Stops legible ("\n\n[storage]\n".toList ++ r) := fun _ => stops_cons rfl _
  rw [render_eq, render_eq, List.append_cancel_left_eq] at h
  obtain ⟨hseq, hafter⟩ := (word_decimal _).cancel (word_decimal _) (htimestamp _) (htimestamp _) h
  rw [List.append_cancel_left_eq] at hafter
  obtain ⟨htime, hafter⟩ := (word_decimal _).cancel (word_decimal _) (hstorage _) (hstorage _) hafter
  rw [List.append_cancel_left_eq] at hafter
  obtain ⟨hstored, hafter⟩ := unlines_cancel (fun _ => storageLines_lines hs hmark)
    (fun _ => storageLines_lines ht hmark') hafter
  rw [List.append_cancel_left_eq] at hafter
  obtain ⟨hemitted, hafter⟩ := unlines_cancel (fun _ => events_lines hs hmark)
    (fun _ => events_lines ht hmark') hafter
  rw [List.append_cancel_left_eq] at hafter
  have hjudged := unlines_inj (fun _ => verdicts_lines hs) (fun _ => verdicts_lines ht) hafter
  have hledger : s.ledger = t.ledger := Prod.ext
    (UInt32.toNat_inj.mp (decimal_injective hseq))
    (UInt64.toNat_inj.mp (decimal_injective htime))
  exact ⟨hledger, stored_perm hs ht haliases hmark hmark' hstored,
    events_eq hs haliases hmark hmark' hemitted, verdictLine_injective.list_map hjudged⟩

/-- The order in which the host has the entries does not show. -/
theorem text_determined (haliases : t.aliases = s.aliases) (hledger : s.ledger = t.ledger)
    (hstored : s.stored.Perm t.stored) (hevents : s.events = t.events)
    (hverdicts : s.verdicts = t.verdicts) : render s = render t := by
  have hlines : s.storageLines = t.storageLines := by
    rw [Scenario.storageLines, Scenario.storageLines, haliases]
    exact mergeSort_perm_eq (hstored.map _)
  rw [render_eq, render_eq, hlines, haliases, hledger, hevents, hverdicts]

/-- Scenarios with one alias table have the same text exactly when they have the same
ledger position, the same stored entries, the same events and the same verdicts. -/
theorem same_text_iff (hs : s.Legible) (ht : t.Legible) (haliases : t.aliases = s.aliases)
    (hmark : Unmarked (render s)) : render s = render t ↔
      s.ledger = t.ledger ∧ s.stored.Perm t.stored ∧ s.events = t.events ∧ s.verdicts = t.verdicts := by
  constructor
  · exact text_determines hs ht haliases hmark
  · rintro ⟨hledger, hstored, hevents, hverdicts⟩
    exact text_determined haliases hledger hstored hevents hverdicts

end

end Whole

namespace Example

def issuer : Address := .mk .account (.fill 32 2)

def registry : Address := .mk .contract (.fill 32 12)

def key (name : String) (h : name.toList.all symbolChar = true) : ScVal :=
  .vec [.symbol (.ofName name h)]

/-- Two entries, in the order in which the host has them. -/
def scenario (entries : List (ScVal × ScVal)) : Scenario where
  env :=
    { all := fun a c => if a = registry ∧ c = .inst then entries else []
      has := fun _ _ _ => false }
  aliases := (Aliases.new.insert issuer "issuer").insert registry "registry"
  contracts := [("registry", registry)]
  ledger := (1000, 1000)
  verdicts := [("registry.is_active(issuer)", true)]
  events := [⟨some registry.payload, [.symbol (.ofName "registered" (by decide))],
    .map [(.symbol (.ofName "issuer" (by decide)), .address issuer)]⟩]

def count : ScVal × ScVal := (key "Count" (by decide), .u32 1)

def owner : ScVal × ScVal := (key "Owner" (by decide), .address issuer)

theorem legible_scenario (entries : List (ScVal × ScVal)) : (scenario entries).Legible where
  aliases := by
    constructor
    · simp [scenario, Aliases.insert, Aliases.new]
    · have hwords : ∀ e ∈ (scenario []).aliases.entries, e.2.toList.all legible = true := by decide
      exact fun e he => .of_all (hwords e he)
  contracts := by
    have hwords : ∀ contract ∈ (scenario []).contracts, contract.1.toList.all legible = true := by decide
    exact fun e he => .of_all (hwords e he)
  verdicts := by
    have hwords : ∀ v ∈ (scenario []).verdicts, v.1.toList.all inLine = true := by decide
    exact fun e he => .of_all (hwords e he)

theorem scenario_unmarked : Unmarked (render (scenario [count, owner])) :=
  unmarked_of_lines (by decide +kernel) (by decide +kernel) (by decide +kernel)

end Example

/-- The same entries in another order. -/
theorem same_text_iff_reordered :
    render (Example.scenario [Example.count, Example.owner]) =
      render (Example.scenario [Example.owner, Example.count]) := by
  have hlegible := Example.legible_scenario [Example.count, Example.owner]
  have hlegible' := Example.legible_scenario [Example.owner, Example.count]
  have hstored : (Example.scenario [Example.count, Example.owner]).stored.Perm
      (Example.scenario [Example.owner, Example.count]).stored := .swap _ _ _
  exact (same_text_iff hlegible hlegible' rfl Example.scenario_unmarked).mpr ⟨rfl, hstored, rfl, rfl⟩

end EarnProof.LedgerSnapshots
