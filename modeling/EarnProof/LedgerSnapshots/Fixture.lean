import EarnProof.LedgerSnapshots.Snapshot
import EarnProof.Shared.Types
import EarnProof.Text.Lines

/-! Fixture files.

A fixture is a header of `# key: value` lines, an empty line and the text of a snapshot.
`parse` reads it; only `regenerateFixtures` writes it, and only with a reason. What it
writes is read back (`parse_contents`), under any line ends. -/
namespace EarnProof.LedgerSnapshots
open Soroban Text

structure Fixture where
  scenario : List Char
  revision : UInt32
  reason : List Char
  bodyDigest : List Char
  body : List Char
  deriving DecidableEq

/-! ### Numbers -/

inductive IntErrorKind where
  | empty
  | invalidDigit
  | posOverflow
  deriving DecidableEq

def IntErrorKind.debug : IntErrorKind → String
  | .empty => "ParseIntError \x7b kind: Empty \x7d"
  | .invalidDigit => "ParseIntError \x7b kind: InvalidDigit \x7d"
  | .posOverflow => "ParseIntError \x7b kind: PosOverflow \x7d"

def parseDigits (acc : Nat) : List Char → Except IntErrorKind UInt32
  | [] => .ok (.ofNat acc)
  | c :: cs =>
    if c.isDigit then
      let n := 10 * acc + (c.toNat - '0'.toNat)
      if n < UInt32.size then parseDigits n cs else .error .posOverflow
    else .error .invalidDigit

/-- `str::parse::<u32>` -/
def parseU32 : List Char → Except IntErrorKind UInt32
  | [] => .error .empty
  | ['+'] => .error .invalidDigit
  | '+' :: digits => parseDigits 0 digits
  | digits => parseDigits 0 digits

/-! ### Reading -/

/-- The fields read so far. -/
structure Parsing where
  scenario : Option (List Char)
  revision : Option UInt32
  reason : Option (List Char)
  bodyDigest : Option (List Char)
  body : List Char
  inBody : Bool

def Parsing.start : Parsing := ⟨none, none, none, none, [], false⟩

/-- A header line, after its `# `. A field given twice has its last value. -/
def parseHeader (p : Parsing) (header : List Char) : Except String Parsing :=
  match splitOnce ':' header with
  | none => .error "malformed header line"
  | some (key, val) =>
    let val := trim val
    if trim key = "scenario".toList then .ok {p with scenario := some val}
    else if trim key = "revision".toList then
      match parseU32 val with
      | .ok n => .ok {p with revision := some n}
      | .error kind => .error ("revision is not a number: " ++ kind.debug)
    else if trim key = "reason".toList then .ok {p with reason := some val}
    else if trim key = "body-digest".toList then .ok {p with bodyDigest := some val}
    else .error ("unknown header field " ++ String.ofList (trim key))

def Parsing.push (p : Parsing) (line : List Char) : Parsing :=
  {p with inBody := true, body := p.body ++ line ++ ['\n']}

def parseLine (p : Parsing) (line : List Char) : Except String Parsing :=
  if p.inBody then .ok (p.push line)
  else match line with
    | '#' :: ' ' :: header => parseHeader p header
    | line => if (trim line).isEmpty then .ok {p with inBody := true} else .ok (p.push line)

def expect {α : Type} (o : Option α) (message : String) : Except String α :=
  match o with
  | some a => .ok a
  | none => .error message

def trimEnd (s : List Char) : List Char := s.rdropWhile (· == '\n')

def parse (contents : List Char) : Except String Fixture := do
  let p ← (lines (unixEnds contents)).foldlM parseLine Parsing.start
  let scenario ← expect p.scenario "fixture has no scenario header"
  let revision ← expect p.revision "fixture has no revision header"
  let reason ← expect p.reason "fixture has no reason header"
  let bodyDigest ← expect p.bodyDigest "fixture has no body-digest header"
  return ⟨scenario, revision, reason, bodyDigest, trimEnd p.body⟩

/-! ### Writing -/

/-- Every scenario, in fixture order. -/
def SCENARIOS : List String := ["initialized", "active", "paused", "revoked", "expired"]

def MINIMUM_REASON : Nat := 20

/-- The length of the text in bytes. -/
def utf8Length (s : List Char) : Nat := s.foldr (fun c n => c.utf8Size + n) 0

/-- The fixture files, by scenario. -/
abbrev Files := String → Option (List Char)

section
-- The SHA-256 hash of a text in UTF-8.
variable (sha256 : List Char → BytesN 32)

def digest (body : List Char) : List Char := hex (sha256 (unixEnds body)).bytes

def contentsOf (scenario : String) (revision : UInt32) (reason body : List Char) : List Char :=
  "# scenario: ".toList ++ scenario.toList ++ "\n# revision: ".toList ++ decimal revision.toNat ++
    "\n# reason: ".toList ++ reason ++ "\n# body-digest: ".toList ++ digest sha256 body ++
    "\n\n".toList ++ body ++ "\n".toList

def previousRevision : Option (List Char) → Except String UInt32
  | some contents => (parse contents).map Fixture.revision
  | none => .ok 0

/-- The loop of the writer. A panic leaves the files written before it. -/
def rewrite (reason : List Char) (build : String → Scenario) :
    List String → Files → Except String Unit × Files
  | [], files => (.ok (), files)
  | scenario :: scenarios, files =>
    let body := trimEnd (render (build scenario))
    match previousRevision (files scenario) with
    | .error message => (.error message, files)
    | .ok previous =>
      if previous = u32Max then (.error "attempt to add with overflow", files)
      else rewrite reason build scenarios
        (Function.update files scenario (some (contentsOf sha256 scenario (previous + 1) reason body)))

/-- The writer, with the value of `SNAPSHOT_REASON`. -/
def regenerateFixtures (reason : List Char) (build : String → Scenario) (files : Files) :
    Except String Unit × Files :=
  let reason := trim reason
  if utf8Length reason < MINIMUM_REASON then
    (.error ("set SNAPSHOT_REASON to a compatibility explanation of at least 20 characters before " ++
      "regenerating. A fixture diff without one cannot be reviewed."), files)
  else if '\n' ∈ reason then (.error "SNAPSHOT_REASON must be a single line", files)
  else rewrite sha256 reason build SCENARIOS files

/-- What the tests ask of the fixture of a scenario. -/
def fixtureMatches (scenario : String) (built : Scenario) (contents : List Char) : Bool :=
  match parse contents with
  | .ok fixture =>
    trimEnd (render built) == fixture.body && fixture.scenario == scenario.toList &&
      1 ≤ fixture.revision && 20 ≤ utf8Length fixture.reason &&
      fixture.bodyDigest == digest sha256 fixture.body
  | .error _ => false

end

/-! ### What is written is read -/

theorem parseDigits_eq {cs : List Char} (h : ∀ c ∈ cs, c.isDigit = true) {acc : Nat}
    (hlt : Nat.ofDigitChars 10 cs acc < UInt32.size) :
    parseDigits acc cs = .ok (.ofNat (Nat.ofDigitChars 10 cs acc)) := by
  induction cs generalizing acc with
  | nil => rfl
  | cons c cs ih =>
    obtain ⟨hc, hcs⟩ := List.forall_mem_cons.mp h
    have hle : ∀ (cs : List Char) (n : Nat), n ≤ Nat.ofDigitChars 10 cs n := by
      intro cs
      induction cs with
      | nil => exact fun n => Nat.le_refl n
      | cons d cs ihd =>
        intro n
        refine Nat.le_trans ?_ (ihd (10 * n + (d.toNat - '0'.toNat)))
        omega
    have hn : 10 * acc + (c.toNat - '0'.toNat) < UInt32.size := Nat.lt_of_le_of_lt (hle cs _) hlt
    simp only [parseDigits, hc, if_true, if_pos hn]
    exact ih hcs hlt

theorem parseU32_cons {c : Char} (h : c ≠ '+') (cs : List Char) :
    parseU32 (c :: cs) = parseDigits 0 (c :: cs) := by
  rw [parseU32.eq_4]
  · exact fun heq => by cases heq
  · exact fun heq => h (List.cons.inj heq).1
  · exact fun digits heq => h (List.cons.inj heq).1

theorem parseU32_decimal (n : UInt32) : parseU32 (decimal n.toNat) = .ok n := by
  have hdigits : ∀ c ∈ decimal n.toNat, c.isDigit = true := fun c hc =>
    Nat.isDigit_of_mem_toDigits (by decide) (by decide) hc
  have hvalue : Nat.ofDigitChars 10 (decimal n.toNat) 0 = n.toNat :=
    Nat.ofDigitChars_toDigits (by decide) (by decide)
  have hparse : parseDigits 0 (decimal n.toNat) = .ok n := by
    rw [parseDigits_eq hdigits (by rw [hvalue]; exact n.toNat_lt), hvalue, UInt32.ofNat_toNat]
  cases hw : decimal n.toNat with
  | nil => exact absurd hw Nat.toDigits_ne_nil
  | cons c cs =>
    have hc : c ≠ '+' := by
      rintro rfl
      cases hdigits '+' (by rw [hw]; exact List.mem_cons_self ..)
    rw [hw] at hparse
    rw [parseU32_cons hc, hparse]

/-- A header line, as it is written. -/
def headerLine (key : String) (val : List Char) : List Char :=
  '#' :: ' ' :: (key.toList ++ ':' :: ' ' :: val)

theorem parseLine_header {p : Parsing} (hp : p.inBody = false) (key : String) (val : List Char) :
    parseLine p (headerLine key val) = parseHeader p (key.toList ++ ':' :: ' ' :: val) := by
  simp only [parseLine, hp, headerLine, Bool.false_eq_true, if_false]

theorem parseHeader_eq {p : Parsing} {key : String} (hkey : ':' ∉ key.toList)
    (htrim : trim key.toList = key.toList) {val : List Char} (hval : trim val = val) :
    parseHeader p (key.toList ++ ':' :: ' ' :: val) =
      if key = "scenario" then .ok {p with scenario := some val}
      else if key = "revision" then
        match parseU32 val with
        | .ok n => .ok {p with revision := some n}
        | .error kind => .error ("revision is not a number: " ++ kind.debug)
      else if key = "reason" then .ok {p with reason := some val}
      else if key = "body-digest" then .ok {p with bodyDigest := some val}
      else .error ("unknown header field " ++ key) := by
  have hblank : trim (' ' :: val) = val := by rw [trim_blank (by decide), hval]
  simp only [parseHeader, splitOnce_append hkey, hblank, htrim, String.toList_inj, String.ofList_toList]

/-- In the body every line is kept. -/
theorem foldlM_body (ls : List (List Char)) {p : Parsing} (hp : p.inBody = true) :
    ls.foldlM parseLine p = .ok {p with body := p.body ++ unlines ls} := by
  induction ls generalizing p with
  | nil =>
    rw [unlines_nil, List.append_nil]
    rfl
  | cons l ls ih =>
    have hline : parseLine p l = .ok (p.push l) := by
      unfold parseLine
      rw [if_pos hp]
    rw [List.foldlM_cons, hline]
    show ls.foldlM parseLine (p.push l) = _
    rw [ih rfl]
    simp [Parsing.push, hp]

/-- A text that needs no trimming and ends no line. -/
structure HeaderText (s : List Char) : Prop where
  trimmed : trim s = s
  newline : '\n' ∉ s

theorem isBlank_of_legible {c : Char} (h : legible c = true) : isBlank c = false := by
  by_cases hc : c = '_' ∨ c = '-'
  · rcases hc with rfl | rfl <;> decide
  · rw [not_or] at hc
    have halphanum : c.isAlphanum = true := by simpa [legible, hc.1, hc.2] using h
    delta Char.isAlphanum Char.isAlpha Char.isUpper Char.isLower Char.isDigit at halphanum
    simp only [Bool.or_eq_true, Bool.and_eq_true, decide_eq_true_eq, ge_iff_le,
      UInt32.le_iff_toNat_le] at halphanum
    have hrange : 48 ≤ c.toNat ∧ c.toNat ≤ 122 := by
      have hval : c.toNat = c.val.toNat := rfl
      simp at halphanum
      omega
    simp [isBlank]
    omega

theorem headerText_of_word {w : List Char} (h : Word legible w) : HeaderText w where
  trimmed := trim_of_solid fun c hc => isBlank_of_legible (h c hc)
  newline := fun hmem => by cases h '\n' hmem

theorem headerLine_eq (key : String) (val : List Char) :
    headerLine key val = headerLine key [] ++ val := by
  simp [headerLine]

theorem headerLine_last (key : String) : (headerLine key []).getLast? = some ' ' := by
  have hline : headerLine key [] = ('#' :: ' ' :: (key.toList ++ [':'])) ++ [' '] := by
    simp [headerLine]
  rw [hline, List.getLast?_concat]

theorem cleanLine_header {key : String} (hkey : '\n' ∉ key.toList) {val : List Char}
    (h : HeaderText val) : CleanLine (headerLine key val) where
  newline := by simp [headerLine, hkey, h.newline]
  last := by
    rw [headerLine_eq, List.getLast?_append, headerLine_last]
    cases hval : val.getLast? with
    | none => decide
    | some c =>
      have hblank : isBlank c = false := by
        rw [← h.trimmed] at hval
        exact trim_getLast hval
      rintro ⟨⟩
      cases hblank

/-! The text before each value. -/

theorem scenario_text : "# scenario: ".toList = headerLine "scenario" [] := by decide
theorem revision_text : "\n# revision: ".toList = '\n' :: headerLine "revision" [] := by decide
theorem reason_text : "\n# reason: ".toList = '\n' :: headerLine "reason" [] := by decide
theorem digest_text : "\n# body-digest: ".toList = '\n' :: headerLine "body-digest" [] := by decide
theorem empty_text : "\n\n".toList = ['\n', '\n'] := by decide

section
variable {sha256 : List Char → BytesN 32} {scenario : String} {revision : UInt32}
  {reason body : List Char}

theorem contentsOf_eq {ls : List (List Char)} (hbody : unlines ls = body ++ ['\n']) :
    contentsOf sha256 scenario revision reason body =
      unlines (headerLine "scenario" scenario.toList :: headerLine "revision" (decimal revision.toNat) ::
        headerLine "reason" reason :: headerLine "body-digest" (digest sha256 body) :: [] :: ls) := by
  unfold contentsOf
  rw [scenario_text, revision_text, reason_text, digest_text, empty_text,
    headerLine_eq "scenario" scenario.toList, headerLine_eq "revision" (decimal revision.toNat),
    headerLine_eq "reason" reason, headerLine_eq "body-digest" (digest sha256 body)]
  generalize headerLine "scenario" [] = a
  generalize headerLine "revision" [] = b
  generalize headerLine "reason" [] = c
  generalize headerLine "body-digest" [] = d
  simp [hbody]

/-- What the reader has after the header and the empty line. -/
theorem foldlM_header {name reason digest : List Char} (hname : HeaderText name)
    (hreason : HeaderText reason) (hdigest : HeaderText digest) (ls : List (List Char)) :
    (headerLine "scenario" name :: headerLine "revision" (decimal revision.toNat) ::
        headerLine "reason" reason :: headerLine "body-digest" digest :: [] :: ls).foldlM parseLine
        Parsing.start =
      ls.foldlM parseLine ⟨some name, some revision, some reason, some digest, [], true⟩ := by
  have hrevision : HeaderText (decimal revision.toNat) := headerText_of_word (word_decimal _)
  have hempty : ∀ p : Parsing, p.inBody = false → parseLine p [] = .ok {p with inBody := true} := by
    intro p hp
    simp [parseLine, hp, trim]
  rw [List.foldlM_cons, parseLine_header rfl, parseHeader_eq (by decide) (by decide) hname.trimmed]
  show List.foldlM parseLine {Parsing.start with scenario := some name} _ = _
  rw [List.foldlM_cons, parseLine_header rfl, parseHeader_eq (by decide) (by decide) hrevision.trimmed,
    parseU32_decimal]
  show List.foldlM parseLine ⟨some name, some revision, none, none, [], false⟩ _ = _
  rw [List.foldlM_cons, parseLine_header rfl, parseHeader_eq (by decide) (by decide) hreason.trimmed]
  show List.foldlM parseLine ⟨some name, some revision, some reason, none, [], false⟩ _ = _
  rw [List.foldlM_cons, parseLine_header rfl, parseHeader_eq (by decide) (by decide) hdigest.trimmed]
  show List.foldlM parseLine ⟨some name, some revision, some reason, some digest, [], false⟩ _ = _
  rw [List.foldlM_cons, hempty _ rfl]
  rfl

theorem headerText_digest : HeaderText (digest sha256 body) := headerText_of_word (word_hex _)

/-- What is written has line feeds only. -/
theorem contentsOf_lines (hscenario : Word legible scenario.toList) (hreason : HeaderText reason)
    (hbody : '\r' ∉ body) : ∃ ls, unlines ls = body ++ ['\n'] ∧
      ∀ l ∈ headerLine "scenario" scenario.toList :: headerLine "revision" (decimal revision.toNat) ::
        headerLine "reason" reason :: headerLine "body-digest" (digest sha256 body) :: [] :: ls,
        CleanLine l := by
  obtain ⟨ls, hls, htext⟩ := exists_lines hbody
  refine ⟨ls, htext, ?_⟩
  simp only [List.forall_mem_cons]
  exact ⟨cleanLine_header (by decide) (headerText_of_word hscenario),
    cleanLine_header (by decide) (headerText_of_word (word_decimal _)),
    cleanLine_header (by decide) hreason,
    cleanLine_header (by decide) headerText_digest, ⟨by simp, by simp⟩, hls⟩

theorem parse_contents (hscenario : Word legible scenario.toList) (hreason : HeaderText reason)
    (hbody : '\r' ∉ body) (hend : trimEnd body = body) :
    parse (contentsOf sha256 scenario revision reason body) =
      .ok ⟨scenario.toList, revision, reason, digest sha256 body, body⟩ := by
  obtain ⟨ls, htext, hclean⟩ :=
    @contentsOf_lines sha256 scenario revision reason body hscenario hreason hbody
  have htrim : trimEnd (body ++ ['\n']) = body := by
    rw [trimEnd, List.rdropWhile_concat_pos _ _ _ (by decide)]
    exact hend
  unfold parse
  rw [contentsOf_eq htext, unixEnds_unlines hclean, lines_unlines hclean,
    foldlM_header (headerText_of_word hscenario) hreason headerText_digest, foldlM_body ls rfl,
    List.nil_append, htext]
  show Except.ok _ = _
  rw [htrim]

/-- The line ends of the checkout do not matter. -/
theorem parse_dosEnds (hscenario : Word legible scenario.toList) (hreason : HeaderText reason)
    (hbody : '\r' ∉ body) :
    parse (dosEnds (contentsOf sha256 scenario revision reason body)) =
      parse (contentsOf sha256 scenario revision reason body) := by
  obtain ⟨ls, htext, hclean⟩ :=
    @contentsOf_lines sha256 scenario revision reason body hscenario hreason hbody
  rw [parse, parse, unixEnds_dosEnds, contentsOf_eq htext, unixEnds_unlines hclean]

end

/-! ### Runs of the writer -/

/-- A run of the writer: the reason it is given and the scenarios of the code. -/
structure Regeneration where
  reason : List Char
  build : String → Scenario

def acceptsReason (reason : List Char) : Bool :=
  MINIMUM_REASON ≤ utf8Length (trim reason) && '\n' ∉ trim reason

section
variable (sha256 : List Char → BytesN 32)

/-- The files after runs of the writer, whether they succeed or not. -/
def regenerations (rs : List Regeneration) (files : Files) : Files :=
  rs.foldl (fun files r => (regenerateFixtures sha256 r.reason r.build files).2) files

/-- The runs that had a reason. -/
def accepted (rs : List Regeneration) : List Regeneration := rs.filter fun r => acceptsReason r.reason

/-- The file that the `n`th accepted run leaves. -/
def written (n : Nat) (r : Regeneration) (scenario : String) : List Char :=
  contentsOf sha256 scenario (.ofNat n) (trim r.reason) (trimEnd (render (r.build scenario)))

variable {sha256}

theorem scenario_words : ∀ scenario ∈ SCENARIOS, Word legible scenario.toList := by
  have hwords : ∀ scenario ∈ SCENARIOS, scenario.toList.all legible = true := by decide
  exact fun scenario h => .of_all (hwords scenario h)

theorem regenerate_refused {r : Regeneration} {files : Files} (h : acceptsReason r.reason = false) :
    (regenerateFixtures sha256 r.reason r.build files).2 = files := by
  simp only [acceptsReason, Bool.and_eq_false_iff, decide_eq_false_iff_not, Nat.not_le, not_not] at h
  by_cases hshort : utf8Length (trim r.reason) < MINIMUM_REASON
  · simp only [regenerateFixtures, if_pos hshort]
  · simp only [regenerateFixtures, if_neg hshort, if_pos (h.resolve_left hshort)]

theorem regenerate_accepted {r : Regeneration} {files : Files} (h : acceptsReason r.reason = true) :
    regenerateFixtures sha256 r.reason r.build files =
      rewrite sha256 (trim r.reason) r.build SCENARIOS files := by
  simp only [acceptsReason, Bool.and_eq_true, decide_eq_true_eq] at h
  simp only [regenerateFixtures, Nat.not_lt.mpr h.1, if_neg h.2, if_false]

/-- The loop writes the next revision of every scenario. -/
theorem rewrite_ok {reason : List Char} {build : String → Scenario} {names : List String}
    (hnodup : names.Nodup) {n : UInt32} (hn : n ≠ u32Max) {files : Files}
    (hprevious : ∀ name ∈ names, previousRevision (files name) = .ok n) :
    rewrite sha256 reason build names files = (.ok (), fun name =>
      if name ∈ names then
        some (contentsOf sha256 name (n + 1) reason (trimEnd (render (build name))))
      else files name) := by
  induction names generalizing files with
  | nil => simp [rewrite]
  | cons scenario names ih =>
    obtain ⟨hnew, hnodup⟩ := List.nodup_cons.mp hnodup
    rw [rewrite, hprevious scenario (List.mem_cons_self ..)]
    simp only [if_neg hn]
    rw [ih hnodup]
    · congr 1
      funext name
      by_cases hmem : name ∈ names
      · simp [hmem]
      · by_cases hname : name = scenario
        · subst hname
          simp [hmem]
        · simp [hmem, hname]
    · intro name hmem
      have hne : name ≠ scenario := by
        rintro rfl
        exact hnew hmem
      rw [Function.update_of_ne hne]
      exact hprevious name (List.mem_cons_of_mem _ hmem)

section
variable {n : Nat} {r : Regeneration} {scenario : String} (hscenario : scenario ∈ SCENARIOS)
  (hreason : acceptsReason r.reason = true) (hbuild : '\r' ∉ render (r.build scenario))
include hreason

theorem headerText_reason : HeaderText (trim r.reason) where
  trimmed := trim_trim _
  newline := by
    simp only [acceptsReason, Bool.and_eq_true, decide_eq_true_eq] at hreason
    exact hreason.2

include hscenario hbuild

/-- The file that an accepted run leaves is read as it was written. -/
theorem parse_written : parse (written sha256 n r scenario) =
      .ok ⟨scenario.toList, .ofNat n, trim r.reason, digest sha256 (trimEnd (render (r.build scenario))),
        trimEnd (render (r.build scenario))⟩ ∧
    parse (dosEnds (written sha256 n r scenario)) = parse (written sha256 n r scenario) := by
  have hword := scenario_words scenario hscenario
  have hbody : '\r' ∉ trimEnd (render (r.build scenario)) := fun hmem =>
    hbuild ((List.rdropWhile_prefix _ _).subset hmem)
  have hend : trimEnd (trimEnd (render (r.build scenario))) = trimEnd (render (r.build scenario)) :=
    List.rdropWhile_idempotent _ _
  exact ⟨parse_contents hword (headerText_reason hreason) hbody hend,
    parse_dosEnds hword (headerText_reason hreason) hbody⟩

end

theorem regenerations_append (rs : List Regeneration) (r : Regeneration) (files : Files) :
    regenerations sha256 (rs ++ [r]) files =
      (regenerateFixtures sha256 r.reason r.build (regenerations sha256 rs files)).2 := by
  simp only [regenerations, List.foldl_append, List.foldl_cons, List.foldl_nil]

theorem mem_accepted {rs : List Regeneration} {r : Regeneration} :
    r ∈ accepted rs ↔ r ∈ rs ∧ acceptsReason r.reason = true := List.mem_filter

/-- The revision on disk is the number of accepted runs. -/
theorem previousRevision_last {rs : List Regeneration} {scenario : String}
    (hscenario : scenario ∈ SCENARIOS) (hbuild : ∀ r ∈ rs, '\r' ∉ render (r.build scenario)) :
    previousRevision ((accepted rs).getLast?.map fun r =>
      written sha256 (accepted rs).length r scenario) = .ok (.ofNat (accepted rs).length) := by
  cases hlast : (accepted rs).getLast? with
  | none =>
    rw [List.getLast?_eq_none_iff.mp hlast]
    rfl
  | some r =>
    obtain ⟨hr, hreason⟩ := mem_accepted.mp (List.mem_of_getLast? hlast)
    show (parse (written sha256 (accepted rs).length r scenario)).map Fixture.revision = _
    rw [(parse_written hscenario hreason (hbuild r hr)).1]
    rfl

theorem ofNat_ne_u32Max {n : Nat} (h : n + 1 < UInt32.size) : UInt32.ofNat n ≠ u32Max := by
  intro heq
  have htoNat := congrArg UInt32.toNat heq
  rw [UInt32.toNat_ofNat_of_lt' (Nat.lt_of_succ_lt h)] at htoNat
  have hmax : u32Max.toNat = 4294967295 := rfl
  have hsize : UInt32.size = 4294967296 := rfl
  omega

/-- After any runs a file is the one that the last accepted run left. -/
theorem regenerations_files (rs : List Regeneration)
    (hbuild : ∀ r ∈ rs, ∀ scenario ∈ SCENARIOS, '\r' ∉ render (r.build scenario))
    (hfew : (accepted rs).length < UInt32.size) : ∀ scenario ∈ SCENARIOS,
      regenerations sha256 rs (fun _ => none) scenario =
        (accepted rs).getLast?.map fun r => written sha256 (accepted rs).length r scenario := by
  induction rs using List.reverseRecOn with
  | nil => exact fun scenario _ => rfl
  | append_singleton rs r ih =>
    have hearlier : ∀ q ∈ rs, ∀ scenario ∈ SCENARIOS, '\r' ∉ render (q.build scenario) := fun q hq =>
      hbuild q (List.mem_append_left _ hq)
    have hsplit : accepted (rs ++ [r]) = accepted rs ++ [r].filter fun q => acceptsReason q.reason :=
      List.filter_append ..
    intro scenario hscenario
    rw [regenerations_append]
    cases hr : acceptsReason r.reason with
    | false =>
      have hsame : accepted (rs ++ [r]) = accepted rs := by simp [hsplit, hr]
      rw [hsame] at hfew ⊢
      rw [regenerate_refused hr]
      exact ih hearlier hfew scenario hscenario
    | true =>
      have hmore : accepted (rs ++ [r]) = accepted rs ++ [r] := by simp [hsplit, hr]
      rw [hmore, List.length_append, List.length_singleton] at hfew
      have hfiles := ih hearlier (Nat.lt_of_succ_lt hfew)
      have hprevious : ∀ name ∈ SCENARIOS, previousRevision
          (regenerations sha256 rs (fun _ => none) name) = .ok (.ofNat (accepted rs).length) := by
        intro name hname
        rw [hfiles name hname]
        exact previousRevision_last hname fun q hq => hearlier q hq name hname
      have hrevision : UInt32.ofNat (accepted rs).length + 1 =
          UInt32.ofNat ((accepted rs).length + 1) := by
        rw [UInt32.ofNat_add]
        rfl
      rw [regenerate_accepted hr, rewrite_ok (by decide) (ofNat_ne_u32Max hfew) hprevious]
      simp only [if_pos hscenario, hmore, List.getLast?_concat, List.length_append,
        List.length_singleton, Option.map_some, hrevision]
      rfl

/-- What a fixture on disk is worth to the tests, when `r` was the last of `n` accepted
runs: under any line ends it passes the checks against what `r` built, and its header
says `n` and the reason of `r`. -/
def Fresh (sha256 : List Char → BytesN 32) (n : Nat) (r : Regeneration) (scenario : String)
    (contents : List Char) : Prop :=
  ∀ text ∈ [contents, dosEnds contents],
    fixtureMatches sha256 scenario (r.build scenario) text = true ∧
      ∃ fixture, parse text = .ok fixture ∧ fixture.revision.toNat = n ∧
        fixture.reason = trim r.reason

/-- What an accepted run writes is fresh, while a `u32` can count the runs. -/
theorem fresh_written {n : Nat} (hn : 0 < n) (hfew : n < UInt32.size) {r : Regeneration}
    {scenario : String} (hscenario : scenario ∈ SCENARIOS) (hreason : acceptsReason r.reason = true)
    (hbuild : '\r' ∉ render (r.build scenario)) :
    Fresh sha256 n r scenario (written sha256 n r scenario) := by
  obtain ⟨hread, hdos⟩ := @parse_written sha256 n r scenario hscenario hreason hbuild
  have hrevision : (UInt32.ofNat n).toNat = n := UInt32.toNat_ofNat_of_lt' hfew
  have hfirst : (1 : UInt32) ≤ .ofNat n := by
    rw [UInt32.le_iff_toNat_le, hrevision]
    exact hn
  have hlong : 20 ≤ utf8Length (trim r.reason) := by
    simp only [acceptsReason, Bool.and_eq_true, decide_eq_true_eq] at hreason
    exact hreason.1
  have hpasses : ∀ text, parse text = parse (written sha256 n r scenario) →
      fixtureMatches sha256 scenario (r.build scenario) text = true ∧
        ∃ fixture, parse text = .ok fixture ∧ fixture.revision.toNat = n ∧
          fixture.reason = trim r.reason := by
    intro text htext
    rw [hread] at htext
    refine ⟨?_, _, htext, hrevision, rfl⟩
    simp only [fixtureMatches, htext, beq_self_eq_true, hfirst, hlong, decide_true, Bool.and_self]
  intro text htext
  rcases List.mem_pair.mp htext with rfl | rfl
  · exact hpasses _ rfl
  · exact hpasses _ hdos

/-- After any runs of the writer, fewer than 2^32 of them accepted, each fixture passes
the checks against what the last accepted run built, under any line ends, and its revision
counts the accepted runs. Before the first of them there is no fixture. The scenarios are
legible and every address in them has an alias. -/
theorem regenerated_fixtures (rs : List Regeneration)
    (hbuild : ∀ r ∈ rs, ∀ scenario ∈ SCENARIOS,
      (r.build scenario).Legible ∧ Unmarked (render (r.build scenario)))
    (hfew : (accepted rs).length < UInt32.size) {scenario : String} (hscenario : scenario ∈ SCENARIOS) :
    match (accepted rs).getLast? with
    | none => regenerations sha256 rs (fun _ => none) scenario = none
    | some r => ∃ contents, regenerations sha256 rs (fun _ => none) scenario = some contents ∧
        Fresh sha256 (accepted rs).length r scenario contents := by
  have hunix : ∀ r ∈ rs, ∀ scenario ∈ SCENARIOS, '\r' ∉ render (r.build scenario) := by
    intro r hr name hname
    obtain ⟨hlegible, hmark⟩ := hbuild r hr name hname
    exact render_unix hlegible hmark
  rw [regenerations_files rs hunix hfew scenario hscenario]
  cases hlast : (accepted rs).getLast? with
  | none => rfl
  | some r =>
    have hmem := List.mem_of_getLast? hlast
    obtain ⟨hr, hreason⟩ := mem_accepted.mp hmem
    exact ⟨_, rfl, fresh_written (List.length_pos_of_mem hmem) hfew hscenario hreason
      (hunix r hr scenario hscenario)⟩

end
namespace Example

/-- The SHA-256 hash of the text of the scenario below. -/
def sha256 (_ : List Char) : BytesN 32 :=
  ⟨[0x38, 0x72, 0xbc, 0x9d, 0x1d, 0x64, 0x98, 0x41, 0x45, 0x04, 0xf3, 0x16, 0x51, 0x8e, 0xf7, 0xfa,
    0x2f, 0xc1, 0xa9, 0x6b, 0x0f, 0x6e, 0x6c, 0x50, 0x9b, 0x2d, 0xa6, 0xe6, 0xf4, 0x73, 0x53, 0x22], rfl⟩

/-- A run without a reason, one with, and one with too short a reason. -/
def runs : List Regeneration :=
  let build := fun _ => scenario [count, owner]
  [⟨[], build⟩, ⟨"the registry now counts".toList, build⟩, ⟨"typo".toList, build⟩]

theorem runs_legible : ∀ r ∈ runs, ∀ name ∈ SCENARIOS,
    (r.build name).Legible ∧ Unmarked (render (r.build name)) := by
  have hbuild : (scenario [count, owner]).Legible ∧ Unmarked (render (scenario [count, owner])) :=
    ⟨legible_scenario _, scenario_unmarked⟩
  intro r hr name _
  simp only [runs, List.mem_cons, List.not_mem_nil, or_false] at hr
  rcases hr with rfl | rfl | rfl <;> exact hbuild

end Example

/-- One run of the three is accepted. -/
theorem regenerated_fixtures_once : ∃ contents,
    regenerations Example.sha256 Example.runs (fun _ => none) "active" = some contents ∧
      fixtureMatches Example.sha256 "active" (Example.scenario [Example.count, Example.owner]) contents =
        true := by
  have haccepted : (accepted Example.runs).getLast? = some ⟨"the registry now counts".toList,
      fun _ => Example.scenario [Example.count, Example.owner]⟩ := rfl
  have hfew : (accepted Example.runs).length < UInt32.size := by decide
  have hactive : "active" ∈ SCENARIOS := by decide
  have hfixture := @regenerated_fixtures Example.sha256 Example.runs Example.runs_legible hfew
    "active" hactive
  rw [haccepted] at hfixture
  obtain ⟨contents, hcontents, htext⟩ := hfixture
  exact ⟨contents, hcontents, (htext contents (List.mem_cons_self ..)).1⟩

end EarnProof.LedgerSnapshots
