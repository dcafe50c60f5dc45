import EarnProof.Renewal.Extensions

/-! The cadence at which entries stay live.

An entry that is created lives `TTL_EXTEND_TO_LEDGERS` ledgers, and an extending call
gives it that long again only in its last `TTL_THRESHOLD_LEDGERS`. Two schedules of
extending calls never let it run out: calls at most `TTL_THRESHOLD_LEDGERS + 1` ledgers
apart, and calls whose gaps all lie between the difference of the two and
`TTL_EXTEND_TO_LEDGERS`. A bound of that difference on the gaps is not enough: a first
call that comes one ledger early does nothing, and the next one may come too late. -/
namespace EarnProof
open Soroban

/-- How a contract renews its persistent entries. -/
structure RenewalLaw {K C Ev ρ : Type} {V : K → Type}
    (m : Machine (Invocation C) (Receipt Ev ρ) (Storage V))
    (extended : Entries V → C → K → Bool) : Prop where
  created : ∀ i s k, s.lifetime k = none → (m.next i s).lifetime k ≠ none →
    i.env.minimumTtl ≤ TTL_THRESHOLD_LEDGERS + 1 →
    (m.next i s).lifetime k = some (i.env.sequence + TTL_EXTEND_TO_LEDGERS)
  /-- A call finds a live entry: the calls that extend it follow the rule of the host, the
  others leave its lifetime alone. -/
  rule : ∀ i s k l, s.lifetime k = some l → i.env.sequence ≤ l → (m.next i s).lifetime k ≠ none →
    (m.next i s).lifetime k = some
      (if (m.reply i s).Succeeded ∧ extended s.entries i.call k = true then
        extendUntil TTL_THRESHOLD_LEDGERS TTL_EXTEND_TO_LEDGERS i.env.sequence l
      else l)
  /-- Extending calls at most one ledger more than the threshold apart. -/
  inTime : ∀ s k S js, s.lifetime k = some (S + TTL_EXTEND_TO_LEDGERS) →
    (∀ t ∈ m.history s js, t.post.lifetime k ≠ none) →
    InTime (TTL_THRESHOLD_LEDGERS + 1) (S + TTL_EXTEND_TO_LEDGERS)
      (extensions extended k (m.history s js)) →
    ∀ a b, js = a ++ b → ∀ ledger ≤ deadline (TTL_THRESHOLD_LEDGERS + 1)
      (S + TTL_EXTEND_TO_LEDGERS) (extensions extended k (m.history s a)),
      (m.run s a).LiveAt k ledger
  /-- Extending calls that all count. -/
  onCadence : ∀ s k S js, s.lifetime k = some (S + TTL_EXTEND_TO_LEDGERS) →
    (∀ t ∈ m.history s js, t.post.lifetime k ≠ none) →
    js.Pairwise (fun i j => i.env.sequence ≤ j.env.sequence) →
    OnCadence (TTL_EXTEND_TO_LEDGERS - TTL_THRESHOLD_LEDGERS) TTL_EXTEND_TO_LEDGERS S
      (extensions extended k (m.history s js)) →
    ∀ a b, js = a ++ b → ∀ ledger ≤ deadline TTL_EXTEND_TO_LEDGERS
      (S + TTL_EXTEND_TO_LEDGERS) (extensions extended k (m.history s a)),
      (m.run s a).LiveAt k ledger

theorem threshold_lt_extendTo : TTL_THRESHOLD_LEDGERS < TTL_EXTEND_TO_LEDGERS := by decide

section
variable {K C Ev ρ : Type} {V : K → Type} {program : C → Program V Ev Unit ErrorCode ρ}
  {extended : Entries V → C → K → Bool}

theorem AgesBy.renewalLaw (h : AgesBy program extended TTL_THRESHOLD_LEDGERS TTL_EXTEND_TO_LEDGERS)
    (self : Address) : RenewalLaw (contractAt program self) extended where
  created := by
    intro i s k hnew hthere hminimum
    rcases contractAt_ages h self i s k with ⟨_, hages⟩ | ⟨_, hsame⟩
    · rw [hnew] at hages
      generalize ((contractAt program self).next i s).lifetime k = o at hages hthere ⊢
      generalize extended s.entries i.call k = flag at hages
      cases hages with
      | gone => exact absurd rfl hthere
      | created =>
        have hlate : i.env.sequence + i.env.minimumTtl - 1 ≤
            i.env.sequence + TTL_THRESHOLD_LEDGERS := by omega
        rw [extendUntil_of_late threshold_lt_extendTo hlate]
    · rw [hsame] at hthere
      exact absurd hnew hthere
  rule := by
    intro i s k l hl hlive hstays
    obtain ⟨l', hl', _, hrule⟩ := contractAt_lifetime h self hl hstays
    rw [hl', hrule hlive]
  inTime := by
    rintro s k S js hl hstays htime a b rfl ledger hledger
    rw [Machine.history_append] at hstays
    rw [extensions_append] at htime
    obtain ⟨l', hl', hle⟩ := run_inTime h self threshold_lt_extendTo hl (Nat.le_refl _)
      (fun t ht => hstays t (List.mem_append_left _ ht)) htime.of_append
    exact ⟨l', hl', Nat.le_trans hledger hle⟩
  onCadence := by
    rintro s k S js hl hstays hordered hcadence a b rfl ledger hledger
    rw [Machine.history_append] at hstays
    rw [extensions_append] at hcadence
    obtain ⟨l', hl', hle⟩ := run_onCadence h self threshold_lt_extendTo hl
      (fun t ht => hstays t (List.mem_append_left _ ht)) (List.pairwise_append.mp hordered).1
      hcadence.of_append
    exact ⟨l', hl', Nat.le_trans hledger hle⟩

end

/-- Every persistent entry of the three contracts lives `TTL_EXTEND_TO_LEDGERS` ledgers from
its creation, and two schedules of extending calls keep it live. -/
theorem contracts_renewalLaw :
    (∀ self, RenewalLaw (ProtocolConfig.machine self) fun _ c => c.extended) ∧
    (∀ self, RenewalLaw (IssuerRegistry.machine self) IssuerRegistry.Call.extended) ∧
    ∀ self, RenewalLaw (ProofRegistry.machine self) fun _ r => r.call.extended := by
  refine ⟨fun self => ?_, fun self => ?_, fun self => ?_⟩
  · exact AgesBy.renewalLaw (fun _ _ _ _ _ h => ProtocolConfig.program_ages h) self
  · exact AgesBy.renewalLaw (fun _ _ _ _ _ h => IssuerRegistry.program_ages h) self
  · exact AgesBy.renewalLaw (fun _ _ _ _ _ h => ProofRegistry.program_ages h) self

/-- An issuer is registered at ledger 1 and read at ledger 450,000, one ledger before a read
would count. The read comes in time for gaps of 450,000 ledgers, and so would one at ledger
900,000, but the record is archived by then. -/
theorem early_read_lapses :
    let id : BytesN 32 := .fill 32 21
    let admin : Address := ⟨.account, .fill 32 1⟩
    let at_ (ledger : Nat) : Env := ⟨admin, 1, ledger, fun a => a = admin, fun _ => true, 4096⟩
    let m := IssuerRegistry.machine ⟨.contract, .fill 32 12⟩
    let s := m.run .empty [⟨.initializeContract admin, at_ 1⟩,
      ⟨.registerIssuer id ⟨.account, .fill 32 2⟩ (.fill 32 31), at_ 1⟩]
    let reads : List (Invocation IssuerRegistry.Call) := [⟨.getIssuer id, at_ 450000⟩]
    let gap := TTL_EXTEND_TO_LEDGERS - TTL_THRESHOLD_LEDGERS
    let calls := extensions IssuerRegistry.Call.extended (.issuer id) (m.history s reads)
    s.lifetime (.issuer id) = some (1 + TTL_EXTEND_TO_LEDGERS) ∧ calls = [450000] ∧
      InTime gap (1 + gap) calls ∧ 900000 ≤ deadline gap (1 + gap) calls ∧
      ¬ (m.run s reads).LiveAt (.issuer id) 900000 := by
  intro id admin at_ m s reads gap calls
  have hcalls : calls = [450000] := by decide +kernel
  have hlifetime : (m.run s reads).lifetime (.issuer id) = some 500001 := by decide +kernel
  refine ⟨by decide +kernel, hcalls, ?_, ?_, ?_⟩
  · rw [hcalls]
    exact ⟨by decide, trivial⟩
  · rw [hcalls]
    decide
  · rintro ⟨l, hl, hle⟩
    rw [hlifetime] at hl
    cases hl
    exact absurd hle (by decide)

end EarnProof
