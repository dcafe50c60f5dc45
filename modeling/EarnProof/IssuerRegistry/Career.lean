import EarnProof.Abstract.LastWrite
import EarnProof.IssuerRegistry.Directory
import EarnProof.IssuerRegistry.Footprint

/-! The career of an issuer.

A stored issuer record is told by the successful calls on its id, in order: one
registration, then changes of metadata, of status and of address, and after a
revocation nothing but revocations. `Effect.career` adds one call; `Chronicle` is what
is read off the career. -/
namespace EarnProof.IssuerRegistry
open Soroban

/-- A call that succeeded, with its timestamp. -/
abbrev Deed := Call × UInt64

/-- The metadata hash that a call is given for the record. -/
def Call.metadata : Call → Option (BytesN 32)
  | .registerIssuer _ _ m | .updateIssuer _ m => some m
  | _ => none

/-- The status that a call leaves. -/
def Call.status : Call → Option IssuerStatus
  | .registerIssuer _ _ _ | .reactivateIssuer _ => some .active
  | .suspendIssuer _ => some .suspended
  | .revokeIssuer _ => some .revoked
  | _ => none

/-- The deeds that make the record of `id` what it is. -/
inductive Career (id : BytesN 32) : List Deed → IssuerRecord → Prop where
  | registered {a : Address} {m : BytesN 32} {t : UInt64} (ha : isValidPrincipalAddress a = true) :
      Career id [(.registerIssuer id a m, t)] ⟨id, a, m, .active, t, t⟩
  | updated {told : List Deed} {r : IssuerRecord} {m : BytesN 32} {t : UInt64} (h : Career id told r)
      (hst : r.status ≠ .revoked) :
      Career id (told ++ [(.updateIssuer id m, t)]) {r with metadataHash := m, updatedAt := t}
  | suspended {told : List Deed} {r : IssuerRecord} {t : UInt64} (h : Career id told r)
      (hst : r.status ≠ .revoked) :
      Career id (told ++ [(.suspendIssuer id, t)]) {r with status := .suspended, updatedAt := t}
  | reactivated {told : List Deed} {r : IssuerRecord} {t : UInt64} (h : Career id told r)
      (hst : r.status ≠ .revoked) :
      Career id (told ++ [(.reactivateIssuer id, t)]) {r with status := .active, updatedAt := t}
  | revoked {told : List Deed} {r : IssuerRecord} {t : UInt64} (h : Career id told r) :
      Career id (told ++ [(.revokeIssuer id, t)]) {r with status := .revoked, updatedAt := t}
  | rotated {told : List Deed} {r : IssuerRecord} {a : Address} {t : UInt64} (h : Career id told r)
      (hst : r.status ≠ .revoked) (ha : isValidPrincipalAddress a = true)
      (hne : a ≠ r.issuerAddress) :
      Career id (told ++ [(.rotateIssuerAddress id a, t)])
        {r with issuerAddress := a, updatedAt := t}

/-- The deeds on `id` and the record stored for it, if there is one. -/
inductive Told (id : BytesN 32) : List Deed → Option IssuerRecord → Prop where
  | absent : Told id [] none
  | career {told : List Deed} {r : IssuerRecord} (h : Career id told r) : Told id told (some r)

/-! ### One call -/

section
variable {env : Env} {d d' : Entries DataKey.Value} {v : Value} {events : List Event}
  {id : BytesN 32} {told : List Deed}

theorem Told.of_some {o : Option IssuerRecord} {r : IssuerRecord} (h : Told id told o)
    (ho : o = some r) : Career id told r := by
  subst ho
  cases h with
  | career h => exact h

theorem SetsStatus.career {status : IssuerStatus} {c : Call} (hd : Told id told (records d id))
    (h : SetsStatus env d id status v d' events)
    (hnext : ∀ r, Career id told r → (r.status = .revoked → status = .revoked) →
      Career id (told ++ [(c, env.timestamp)]) {r with status, updatedAt := env.timestamp}) :
    Told id (told ++ [(c, env.timestamp)]) (records d' id) := by
  obtain ⟨_, r, _, _, hr, hallowed, _, rfl, _⟩ := h
  rw [records_put_issuer, Function.update_self]
  exact .career (hnext r (hd.of_some hr) hallowed)

/-- A successful change to an issuer continues its career. -/
theorem Effect.career {c : Call} (h : Effect env d c v d' events) (hc : c.target = some id)
    (hd : Told id told (records d id)) :
    Told id (told ++ [(c, env.timestamp)]) (records d' id) := by
  have hlive : ∀ {r : IssuerRecord} {status : IssuerStatus}, status ≠ .revoked →
      (r.status = .revoked → status = .revoked) → r.status ≠ .revoked :=
    fun hne himp hst => hne (himp hst)
  cases c with
  | registerIssuer id' a m =>
    cases hc
    obtain ⟨_, _, hvalid, _, hnone, _, _, rfl, _⟩ := h
    have hnone : records d id = none := hnone
    rw [hnone] at hd
    cases hd
    rw [records_put_addressIssuer, records_put_issuer, Function.update_self]
    exact .career (.registered hvalid)
  | updateIssuer id' m =>
    cases hc
    obtain ⟨_, r, _, _, hr, hst, _, rfl, _⟩ := h
    rw [records_put_issuer, Function.update_self]
    exact .career (.updated (r := r) (hd.of_some hr) hst)
  | suspendIssuer id' =>
    cases hc
    exact SetsStatus.career hd h fun r hr hallowed => .suspended hr (hlive (by simp) hallowed)
  | reactivateIssuer id' =>
    cases hc
    exact SetsStatus.career hd h fun r hr hallowed => .reactivated hr (hlive (by simp) hallowed)
  | revokeIssuer id' =>
    cases hc
    exact SetsStatus.career hd h fun r hr _ => .revoked hr
  | rotateIssuerAddress id' a =>
    cases hc
    obtain ⟨_, r, _, hvalid, _, hr, hst, hne, _, _, rfl, _⟩ := h
    rw [records_put_addressIssuer, records_put_issuer, Function.update_self]
    exact .career (.rotated (hd.of_some hr) hst hvalid hne)
  | _ => cases hc

/-- Other calls leave the record alone. -/
theorem Effect.record_frame {c : Call} (h : Effect env d c v d' events) (hc : c.target ≠ some id) :
    records d' id = records d id := by
  have hput : ∀ {id' : BytesN 32} {o : Option IssuerRecord}, c.target = some id' →
      Function.update (records d) id' o id = records d id := fun hid =>
    Function.update_of_ne (fun heq : id = _ => hc (heq ▸ hid)) _ _
  have hamends : ∀ {id' allowed change event}, c.target = some id' →
      Amends env d id' allowed change event v d' events → records d' id = records d id := by
    rintro id' allowed change event hid ⟨_, r, _, _, _, _, _, rfl, _⟩
    rw [records_put_issuer]
    exact hput hid
  cases c with
  | initializeContract admin =>
    obtain ⟨_, _, _, _, rfl, _⟩ := h
    simp
  | registerIssuer id' a m =>
    obtain rfl := Effect.register_writes h
    rw [records_put_addressIssuer, records_put_issuer]
    exact hput rfl
  | updateIssuer id' m => exact hamends rfl h
  | suspendIssuer id' => exact hamends rfl h
  | reactivateIssuer id' => exact hamends rfl h
  | revokeIssuer id' => exact hamends rfl h
  | rotateIssuerAddress id' a =>
    obtain ⟨_, r, _, _, _, _, _, _, _, _, rfl, _⟩ := h
    rw [records_put_addressIssuer, records_put_issuer, records_put_addressIssuer]
    exact hput rfl
  | getAdmin =>
    obtain ⟨_, _, _, rfl, _⟩ := h
    rfl
  | getIssuer id' =>
    obtain ⟨_, _, _, rfl, _⟩ := h
    rfl
  | isActiveIssuer id' =>
    obtain ⟨_, rfl, _⟩ := h
    rfl
  | isActiveAddress a =>
    obtain ⟨_, rfl, _⟩ := h
    rfl
  | getIssuerByAddress a =>
    obtain ⟨_, _, _, _, _, rfl, _⟩ := h
    rfl
  | upgrade c => exact Governance.Effect.frame h (by simp)

end

/-! ### What a career says -/

section Facts
variable {id : BytesN 32} {told : List Deed} {r : IssuerRecord}

theorem Career.ident (h : Career id told r) : r.issuerIdHash = id := by
  induction h with
  | registered ha => rfl
  | updated _ _ ih | suspended _ _ ih | reactivated _ _ ih | revoked _ ih | rotated _ _ _ _ ih =>
    exact ih

theorem Career.valid (h : Career id told r) : isValidPrincipalAddress r.issuerAddress = true := by
  induction h with
  | registered ha => exact ha
  | updated _ _ ih | suspended _ _ ih | reactivated _ _ ih | revoked _ ih => exact ih
  | rotated _ _ ha _ _ => exact ha

/-- A field holds what the last call that sets it was given. -/
theorem Career.latest (h : Career id told r) :
    LastWrite.latest (Call.argument ∘ Prod.fst) told = some r.issuerAddress ∧
      LastWrite.latest (Call.metadata ∘ Prod.fst) told = some r.metadataHash ∧
      LastWrite.latest (Call.status ∘ Prod.fst) told = some r.status := by
  induction h with
  | registered ha => exact ⟨rfl, rfl, rfl⟩
  | updated _ _ ih | suspended _ _ ih | reactivated _ _ ih | revoked _ ih | rotated _ _ _ _ ih =>
    simp only [LastWrite.latest_snoc]
    simp [Call.argument, Call.metadata, Call.status, ih]

/-- It starts with the registration, and nothing registers the issuer again. -/
theorem Career.registration (h : Career id told r) :
    ∃ a m rest, told = (.registerIssuer id a m, r.createdAt) :: rest ∧
      ∀ x ∈ rest, ∀ a m, x.1 ≠ .registerIssuer id a m := by
  have hsnoc : ∀ {told : List Deed} {t : UInt64} {x : Deed},
      (∀ a m, x.1 ≠ .registerIssuer id a m) →
      (∃ a m rest, told = (.registerIssuer id a m, t) :: rest ∧
        ∀ x ∈ rest, ∀ a m, x.1 ≠ .registerIssuer id a m) →
      ∃ a m rest, told ++ [x] = (.registerIssuer id a m, t) :: rest ∧
        ∀ x ∈ rest, ∀ a m, x.1 ≠ .registerIssuer id a m := by
    rintro told t x hx ⟨a, m, rest, rfl, hrest⟩
    refine ⟨a, m, rest ++ [x], rfl, fun y hy => ?_⟩
    rcases List.mem_append.mp hy with hy | hy
    · exact hrest y hy
    · rw [List.mem_singleton.mp hy]
      exact hx
  induction h with
  | @registered a m t ha => exact ⟨a, m, [], rfl, by simp⟩
  | updated _ _ ih | suspended _ _ ih | reactivated _ _ ih | revoked _ ih | rotated _ _ _ _ ih =>
    exact hsnoc (by simp) ih

/-- `updated_at` is the time of the last deed. -/
theorem Career.last (h : Career id told r) : ∃ before c, told = before ++ [(c, r.updatedAt)] := by
  cases h with
  | registered ha => exact ⟨[], _, rfl⟩
  | updated _ _ | suspended _ _ | reactivated _ _ | revoked _ | rotated _ _ _ _ =>
    exact ⟨_, _, rfl⟩

/-- A revocation among the deeds means a revoked record. -/
theorem Career.revoked_iff (h : Career id told r) :
    r.status = .revoked ↔ ∃ t, (.revokeIssuer id, t) ∈ told := by
  induction h with
  | registered ha => simp
  | updated _ hst ih | rotated _ hst _ _ ih => simpa using ih
  | suspended _ hst ih | reactivated _ hst ih => simpa using fun t ht => hst (ih.mpr ⟨t, ht⟩)
  | revoked _ ih => simp

/-- Only revocations follow a revocation. -/
theorem Career.terminal (h : Career id told r) {before after : List Deed} {t : UInt64}
    (hsplit : told = before ++ (.revokeIssuer id, t) :: after) :
    ∀ x ∈ after, x.1 = .revokeIssuer id := by
  have hstep : ∀ {told : List Deed} {r : IssuerRecord} {y : Deed}, Career id told r →
      (r.status = .revoked → y.1 = .revokeIssuer id) →
      (∀ {before after : List Deed} {t : UInt64},
        told = before ++ (.revokeIssuer id, t) :: after → ∀ x ∈ after, x.1 = .revokeIssuer id) →
      ∀ {before after : List Deed} {t : UInt64},
        told ++ [y] = before ++ (.revokeIssuer id, t) :: after →
        ∀ x ∈ after, x.1 = .revokeIssuer id := by
    intro told r y hr hy ih before after t hsplit x hx
    rcases List.eq_nil_or_concat after with rfl | ⟨after', z, rfl⟩
    · cases hx
    · rw [List.concat_eq_append, ← List.cons_append, ← List.append_assoc] at hsplit
      obtain ⟨htold, hz⟩ := List.append_inj' hsplit rfl
      obtain rfl : y = z := by simpa using hz
      rw [List.concat_eq_append] at hx
      rcases List.mem_append.mp hx with hx | hx
      · exact ih htold x hx
      · rw [List.mem_singleton.mp hx]
        exact hy (hr.revoked_iff.mpr ⟨t, by simp [htold]⟩)
  induction h generalizing before after t with
  | registered ha =>
    cases before with
    | nil => cases hsplit
    | cons y rest => simp at hsplit
  | updated h hst ih | suspended h hst ih | reactivated h hst ih | rotated h hst _ _ ih =>
    exact hstep h (fun hrev => absurd hrev hst) (fun hs => ih hs) hsplit
  | revoked h ih => exact hstep h (fun _ => rfl) (fun hs => ih hs) hsplit

/-- What the deeds on `id` say about its record. -/
structure Chronicle (id : BytesN 32) (told : List Deed) (r : IssuerRecord) : Prop where
  ident : r.issuerIdHash = id
  validAddress : isValidPrincipalAddress r.issuerAddress = true
  address : LastWrite.latest (Call.argument ∘ Prod.fst) told = some r.issuerAddress
  metadata : LastWrite.latest (Call.metadata ∘ Prod.fst) told = some r.metadataHash
  status : LastWrite.latest (Call.status ∘ Prod.fst) told = some r.status
  /-- Registered once, before anything else. -/
  registered : ∃ a m rest, told = (.registerIssuer id a m, r.createdAt) :: rest ∧
    ∀ x ∈ rest, ∀ a m, x.1 ≠ .registerIssuer id a m
  updated : ∃ before c, told = before ++ [(c, r.updatedAt)]
  /-- After a revocation nothing but revocations. -/
  revoked : ∀ before after t, told = before ++ (.revokeIssuer id, t) :: after →
    r.status = .revoked ∧ ∀ x ∈ after, x.1 = .revokeIssuer id

theorem Career.chronicle (h : Career id told r) : Chronicle id told r where
  ident := h.ident
  validAddress := h.valid
  address := h.latest.1
  metadata := h.latest.2.1
  status := h.latest.2.2
  registered := h.registration
  updated := h.last
  revoked := fun before after t hsplit =>
    ⟨h.revoked_iff.mpr ⟨t, by simp [hsplit]⟩, h.terminal hsplit⟩

/-- The deeds leave one possible record. -/
theorem Chronicle.unique {r' : IssuerRecord} (h : Chronicle id told r) (h' : Chronicle id told r') :
    r = r' := by
  obtain ⟨_, _, _, hfirst, _⟩ := h.registered
  obtain ⟨_, _, _, hfirst', _⟩ := h'.registered
  obtain ⟨_, _, hlast⟩ := h.updated
  obtain ⟨_, _, hlast'⟩ := h'.updated
  have hident : r.issuerIdHash = r'.issuerIdHash := h.ident.trans h'.ident.symm
  have haddress := Option.some.inj (h.address.symm.trans h'.address)
  have hmetadata := Option.some.inj (h.metadata.symm.trans h'.metadata)
  have hstatus := Option.some.inj (h.status.symm.trans h'.status)
  have hcreated : r.createdAt = r'.createdAt :=
    congrArg Prod.snd (List.cons.inj (hfirst.symm.trans hfirst')).1
  have hupdated : r.updatedAt = r'.updatedAt := by
    have hsame := (List.append_inj' (hlast.symm.trans hlast') rfl).2
    exact congrArg Prod.snd (List.cons.inj hsame).1
  obtain ⟨_, _, _, _, _, _⟩ := r
  obtain ⟨_, _, _, _, _, _⟩ := r'
  rw [IssuerRecord.mk.injEq]
  exact ⟨hident, haddress, hmetadata, hstatus, hcreated, hupdated⟩

theorem Told.chronicle {o : Option IssuerRecord} (h : Told id told o) :
    (o = none ↔ told = []) ∧ ∀ r, o = some r → Chronicle id told r := by
  cases h with
  | absent => simp
  | career h =>
    refine ⟨⟨fun hnone => (by cases hnone), fun hnil => ?_⟩, fun r hr => ?_⟩
    · obtain ⟨_, _, _, hfirst, _⟩ := h.registration
      rw [hnil] at hfirst
      cases hfirst
    · cases hr
      exact h.chronicle

theorem Told.unique {o o' : Option IssuerRecord} (h : Told id told o) (h' : Told id told o') :
    o = o' := by
  cases o with
  | none => exact (h'.chronicle.1.mpr (h.chronicle.1.mp rfl)).symm
  | some r =>
    cases o' with
    | none =>
      have hnil := h'.chronicle.1.mp rfl
      exact absurd (h.chronicle.1.mpr hnil) (by simp)
    | some r' => rw [(h.chronicle.2 r rfl).unique (h'.chronicle.2 r' rfl)]

/-- When the deeds come in order of time, a record is created before it is updated. -/
theorem Chronicle.createdAt_le (h : Chronicle id told r)
    (htime : told.Pairwise fun x y => x.2 ≤ y.2) : r.createdAt ≤ r.updatedAt := by
  obtain ⟨a, m, rest, hfirst, _⟩ := h.registered
  obtain ⟨before, c, hlast⟩ := h.updated
  cases before with
  | nil =>
    rw [hlast] at hfirst
    have heq : r.updatedAt = r.createdAt := congrArg Prod.snd (List.cons.inj hfirst).1
    rw [heq]
    exact UInt64.le_refl _
  | cons x before =>
    have hx : x = (.registerIssuer id a m, r.createdAt) := by
      rw [hlast] at hfirst
      exact (List.cons.inj hfirst).1
    rw [hlast, List.cons_append, List.pairwise_cons] at htime
    have hle := htime.1 (c, r.updatedAt) (by simp)
    rw [hx] at hle
    exact hle

end Facts
end EarnProof.IssuerRegistry
