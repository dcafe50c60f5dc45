import EarnProof.Soroban.Contract

/-! How long entries live.

`lifetime` is the live-until ledger of a persistent entry, or nothing where there is no
entry. `Ages` says what a call can do to it, and `contractAt_ages` that a step of a
contract does it when the contract's programs do.

`extend_ttl` counts only once the remaining lifetime has fallen to the threshold, so
whether a call counts depends on the calls before it. After every call more than the
threshold remains, so calls at most `threshold + 1` ledgers apart keep an entry live
(`run_inTime`). So do calls that are late enough to count and early enough to find the
entry live (`run_onCadence`). -/
namespace Soroban

section Rule
variable {threshold extendTo minimum now live : Nat}

theorem restoreUntil_of_le (h : now ≤ live) : restoreUntil minimum now live = live := by
  unfold restoreUntil
  rw [if_neg (by omega)]

@[simp] theorem restoreUntil_restoreUntil :
    restoreUntil minimum now (restoreUntil minimum now live) = restoreUntil minimum now live := by
  unfold restoreUntil
  by_cases h : live < now
  · rw [if_pos h]
    split <;> rfl
  · rw [if_neg h, if_neg h]

@[simp] theorem restoreUntil_comp :
    restoreUntil minimum now ∘ restoreUntil minimum now = restoreUntil minimum now :=
  funext fun _ => restoreUntil_restoreUntil

theorem le_restoreUntil : live ≤ restoreUntil minimum now live := by
  unfold restoreUntil
  split <;> omega

theorem le_extendUntil : live ≤ extendUntil threshold extendTo now live := by
  unfold extendUntil
  split <;> omega

/-- After `extend_ttl` more than the threshold remains, whether the call counted or not. -/
theorem add_lt_extendUntil (h : threshold < extendTo) :
    now + threshold < extendUntil threshold extendTo now live := by
  unfold extendUntil
  split <;> omega

/-- A call in the last `threshold` ledgers of an entry counts. -/
theorem extendUntil_of_late (h : threshold < extendTo) (hlate : live ≤ now + threshold) :
    extendUntil threshold extendTo now live = now + extendTo := by
  unfold extendUntil
  rw [if_pos (by omega)]

end Rule

/-! ### The lifetime of an entry -/

section Lifetime
variable {K : Type} {V : K → Type}

/-- The live-until ledger of the persistent entry under `k`, if there is one. -/
def Storage.lifetime (s : Storage V) (k : K) : Option Nat :=
  (s.entries .persistent k).map fun _ => s.liveUntil k

/-- The entry under `k` is there and live at a ledger. -/
def Storage.LiveAt (s : Storage V) (k : K) (ledger : Nat) : Prop :=
  ∃ l, s.lifetime k = some l ∧ ledger ≤ l

namespace Storage
variable {minimum now threshold extendTo : Nat} {c : StorageClass} {k k' : K} {s : Storage V}

theorem lifetime_congr {s' : Storage V} (hentry : s'.entries .persistent k = s.entries .persistent k)
    (hlive : s'.liveUntil k = s.liveUntil k) : s'.lifetime k = s.lifetime k := by
  simp only [lifetime, hentry, hlive]

theorem InstanceExtended.lifetime {s' : Storage V} (h : s.InstanceExtended threshold extendTo now s') :
    s'.lifetime k = s.lifetime k :=
  lifetime_congr (h.entries k) (congrFun h.liveUntil k)

@[simp] theorem lifetime_eq_none : s.lifetime k = none ↔ s.entries .persistent k = none := by
  simp [lifetime]

@[simp] theorem lifetime_load : (s.load minimum now).lifetime k = s.lifetime k := rfl

@[simp] theorem lifetime_extendInstance :
    (s.extendInstance threshold extendTo now).lifetime k = s.lifetime k := rfl

variable [DecidableEq K]

@[simp] theorem lifetime_access_self :
    (s.access minimum now .persistent k).lifetime k =
      (s.lifetime k).map (restoreUntil minimum now) := by
  cases h : s.entries .persistent k <;> simp [access, lifetime, h]

@[simp] theorem lifetime_access_of_ne (h : k' ≠ k) :
    (s.access minimum now c k).lifetime k' = s.lifetime k' := by
  unfold access
  split
  · exact lifetime_congr rfl (Function.update_of_ne h _ _)
  · rfl

@[simp] theorem lifetime_write_self {v : V k} :
    (s.write minimum now .persistent k v).lifetime k =
      some ((s.lifetime k).elim (now + minimum - 1) (restoreUntil minimum now)) := by
  cases h : s.entries .persistent k <;> simp [write, access, lifetime, h]

@[simp] theorem lifetime_write_of_ne {v : V k} (h : k' ≠ k) :
    (s.write minimum now c k v).lifetime k' = s.lifetime k' := by
  refine lifetime_congr (Entries.put_key _ _ _ _ h) ?_
  unfold write access
  split <;> split <;> simp [h]

@[simp] theorem lifetime_write_inst {v : V k} :
    (s.write minimum now .inst k v).lifetime k' = s.lifetime k' := by
  rw [write_inst]
  exact lifetime_congr (by simp) rfl

@[simp] theorem lifetime_delete_self : (s.delete .persistent k).lifetime k = none := by
  simp [delete]

@[simp] theorem lifetime_delete_of_ne (h : k' ≠ k) : (s.delete c k).lifetime k' = s.lifetime k' :=
  lifetime_congr (Entries.put_key _ _ _ _ h) rfl

@[simp] theorem lifetime_extend_self :
    (s.extend threshold extendTo now k).lifetime k =
      (s.lifetime k).map (extendUntil threshold extendTo now) := by
  cases h : s.entries .persistent k <;> simp [extend, lifetime, h]

@[simp] theorem lifetime_extend_of_ne (h : k' ≠ k) :
    (s.extend threshold extendTo now k).lifetime k' = s.lifetime k' :=
  lifetime_congr rfl (Function.update_of_ne h _ _)

end Storage

/-! ### What a call does to it -/

/-- What a call at ledger `now` does to the lifetime of an entry. The flag says whether the
call extends the entry, which it does to every entry it creates. -/
inductive Ages (threshold extendTo minimum now : Nat) : Bool → Option Nat → Option Nat → Prop where
  | gone {extended : Bool} {o : Option Nat} : Ages threshold extendTo minimum now extended o none
  | kept {l : Nat} : Ages threshold extendTo minimum now false (some l) (some l)
  | restored {l : Nat} :
      Ages threshold extendTo minimum now false (some l) (some (restoreUntil minimum now l))
  | extended {l : Nat} :
      Ages threshold extendTo minimum now true (some l)
        (some (extendUntil threshold extendTo now (restoreUntil minimum now l)))
  | created :
      Ages threshold extendTo minimum now true none
        (some (extendUntil threshold extendTo now (now + minimum - 1)))

section Ages
variable {threshold extendTo minimum now : Nat} {b : Bool} {o : Option Nat} {l l' : Nat}

theorem Ages.refl : Ages threshold extendTo minimum now false o o := by
  cases o with
  | none => exact .gone
  | some l => exact .kept

theorem Ages.access :
    Ages threshold extendTo minimum now false o (o.map (restoreUntil minimum now)) := by
  cases o with
  | none => exact .gone
  | some l => exact .restored

theorem Ages.touch : Ages threshold extendTo minimum now true o
    (o.map (extendUntil threshold extendTo now ∘ restoreUntil minimum now)) := by
  cases o with
  | none => exact .gone
  | some l => exact .extended

theorem Ages.renew : Ages threshold extendTo minimum now true o
    (some (extendUntil threshold extendTo now
      (o.elim (now + minimum - 1) (restoreUntil minimum now)))) := by
  cases o with
  | none => exact .created
  | some l => exact .extended

/-- No call shortens a lifetime. -/
theorem Ages.le (h : Ages threshold extendTo minimum now b (some l) (some l')) : l ≤ l' := by
  cases h with
  | kept => exact Nat.le_refl l
  | restored => exact le_restoreUntil
  | extended => exact Nat.le_trans le_restoreUntil le_extendUntil

/-- A live entry is extended by the rule or left as it is. -/
theorem Ages.of_live (h : Ages threshold extendTo minimum now b (some l) (some l'))
    (hlive : now ≤ l) : l' = if b then extendUntil threshold extendTo now l else l := by
  cases h with
  | kept => rfl
  | restored => exact restoreUntil_of_le hlive
  | extended => rw [restoreUntil_of_le hlive, if_pos rfl]

/-- More than the threshold remains of an entry that a call extends. -/
theorem Ages.above (h : Ages threshold extendTo minimum now true o (some l'))
    (hrule : threshold < extendTo) : now + threshold < l' := by
  cases h with
  | extended => exact add_lt_extendUntil hrule
  | created => exact add_lt_extendUntil hrule

end Ages

section Storage
variable [DecidableEq K] {threshold extendTo minimum now : Nat} (s : Storage V) (k k' : K)

/-- An entry is found, restored if archived, and extended. -/
theorem ages_touch : Ages threshold extendTo minimum now (k' = k) (s.lifetime k')
    (((s.access minimum now .persistent k).extend threshold extendTo now k).lifetime k') := by
  by_cases hk : k' = k
  · subst hk
    simpa using Ages.touch
  · rw [Storage.lifetime_extend_of_ne hk, Storage.lifetime_access_of_ne hk, decide_eq_false hk]
    exact .refl

/-- The same when there may be no entry. -/
theorem ages_find : Ages threshold extendTo minimum now (k' = k) (s.lifetime k')
    ((if (s.entries .persistent k).isSome then
      (s.access minimum now .persistent k).extend threshold extendTo now k
    else s).lifetime k') := by
  split
  · exact ages_touch _ _ _
  · rename_i hnone
    by_cases hk : k' = k
    · subst hk
      have hgone : s.lifetime k' = none := by simpa using hnone
      rw [hgone]
      exact .gone
    · rw [decide_eq_false hk]
      exact .refl

/-- An entry is written and extended. -/
theorem ages_write (v : V k) : Ages threshold extendTo minimum now (k' = k) (s.lifetime k')
    (((s.write minimum now .persistent k v).extend threshold extendTo now k).lifetime k') := by
  by_cases hk : k' = k
  · subst hk
    simpa using Ages.renew
  · rw [Storage.lifetime_extend_of_ne hk, Storage.lifetime_write_of_ne hk, decide_eq_false hk]
    exact .refl

theorem ages_renew (v : V k) : Ages threshold extendTo minimum now (k' = k) (s.lifetime k')
    ((s.renew threshold extendTo minimum now k v).lifetime k') := by
  unfold Storage.renew
  by_cases hk : k' = k
  · subst hk
    simpa using Ages.renew
  · rw [Storage.lifetime_extend_of_ne hk, Storage.lifetime_write_of_ne hk,
      Storage.lifetime_access_of_ne hk, decide_eq_false hk]
    exact .refl

end Storage
end Lifetime

/-! ### Schedules -/

/-- Every ledger of a list is at most `gap` after the one before it; the first comes by `due`. -/
def InTime (gap : Nat) : Nat → List Nat → Prop
  | _, [] => True
  | due, now :: rest => now ≤ due ∧ InTime gap (now + gap) rest

/-- `gap` after the last ledger of a list; `due` when there is none. -/
def deadline (gap due : Nat) (ledgers : List Nat) : Nat := ledgers.getLast?.elim due (· + gap)

theorem deadline_cons (gap due now : Nat) (rest : List Nat) :
    deadline gap due (now :: rest) = deadline gap (now + gap) rest := by
  cases rest <;> simp [deadline, List.getLast?_cons]

/-- Every ledger of a list is at least `early` and at most `late` after the one before it;
the first is so after `last`. -/
def OnCadence (early late : Nat) : Nat → List Nat → Prop
  | _, [] => True
  | last, now :: rest => last + early ≤ now ∧ now ≤ last + late ∧ OnCadence early late now rest

theorem InTime.of_append {gap due : Nat} {a b : List Nat} (h : InTime gap due (a ++ b)) :
    InTime gap due a := by
  induction a generalizing due with
  | nil => trivial
  | cons now rest ih => exact ⟨h.1, ih h.2⟩

theorem OnCadence.of_append {early late last : Nat} {a b : List Nat}
    (h : OnCadence early late last (a ++ b)) : OnCadence early late last a := by
  induction a generalizing last with
  | nil => trivial
  | cons now rest ih => exact ⟨h.1, h.2.1, ih h.2.2⟩

/-! ### Steps and runs of a contract -/

section Runs
variable {K C Ev ρ : Type} {V : K → Type} {program : C → Program V Ev Unit ErrorCode ρ}
  {extended : Entries V → C → K → Bool} {threshold extendTo : Nat}

/-- The ledgers of the successful calls that extend `k`. -/
def extensions (extended : Entries V → C → K → Bool) (k : K)
    (steps : List (Machine.Step (Invocation C) (Receipt Ev ρ) (Storage V))) : List Nat :=
  steps.filterMap fun t =>
    if t.reply.Succeeded ∧ extended t.pre.entries t.input.call k = true then
      some t.input.env.sequence
    else none

/-- What the programs of a contract do to lifetimes, whenever they return. -/
def AgesBy (program : C → Program V Ev Unit ErrorCode ρ) (extended : Entries V → C → K → Bool)
    (threshold extendTo : Nat) : Prop :=
  ∀ c env f v f', program c env f = (.ok v, f') → ∀ k,
    Ages threshold extendTo env.minimumTtl env.sequence (extended f.entries c k)
      (f.lifetime k) (f'.lifetime k)

variable (hages : AgesBy program extended threshold extendTo) (self : Address)
include hages

theorem contractAt_ages (i : Invocation C) (s : Storage V) (k : K) :
    (((contractAt program self).reply i s).Succeeded ∧
      Ages threshold extendTo i.env.minimumTtl i.env.sequence (extended s.entries i.call k)
        (s.lifetime k) (((contractAt program self).next i s).lifetime k)) ∨
    (¬ ((contractAt program self).reply i s).Succeeded ∧ (contractAt program self).next i s = s) := by
  have h := hages i.call {i.env with currentContract := self}
    ⟨s.load i.env.minimumTtl i.env.sequence, [], ()⟩
  simp only [Machine.reply, Machine.next, contractAt, invoke]
  rcases hrun : program i.call {i.env with currentContract := self}
    ⟨s.load i.env.minimumTtl i.env.sequence, [], ()⟩ with ⟨e | v, f⟩
  · exact .inr ⟨Receipt.not_succeeded rfl, rfl⟩
  · exact .inl ⟨⟨v, rfl⟩, h v f hrun k⟩

/-- An entry that is there before and after a step: extended by the rule if the step
extends it, and never shortened. -/
theorem contractAt_lifetime {i : Invocation C} {s : Storage V} {k : K} {l : Nat}
    (hl : s.lifetime k = some l) (hstays : ((contractAt program self).next i s).lifetime k ≠ none) :
    ∃ l', ((contractAt program self).next i s).lifetime k = some l' ∧ l ≤ l' ∧
      (i.env.sequence ≤ l → l' =
        if ((contractAt program self).reply i s).Succeeded ∧ extended s.entries i.call k = true then
          extendUntil threshold extendTo i.env.sequence l
        else l) := by
  obtain ⟨l', hl'⟩ := Option.ne_none_iff_exists'.mp hstays
  refine ⟨l', hl', ?_⟩
  rcases contractAt_ages hages self i s k with ⟨hok, h⟩ | ⟨hfail, hsame⟩
  · rw [hl, hl'] at h
    refine ⟨h.le, fun hlive => ?_⟩
    rw [h.of_live hlive]
    simp only [hok, true_and]
  · rw [hsame, hl] at hl'
    cases hl'
    refine ⟨Nat.le_refl l, fun _ => ?_⟩
    rw [if_neg fun h => hfail h.1]

omit hages in
theorem extensions_cons {i : Invocation C} {s : Storage V} {k : K} {js : List (Invocation C)} :
    extensions extended k ((contractAt program self).history s (i :: js)) =
      if ((contractAt program self).reply i s).Succeeded ∧ extended s.entries i.call k = true then
        i.env.sequence :: extensions extended k
          ((contractAt program self).history ((contractAt program self).next i s) js)
      else extensions extended k
        ((contractAt program self).history ((contractAt program self).next i s) js) := by
  simp only [Machine.history, extensions, List.filterMap_cons, Machine.stepAt]
  split <;> simp_all

omit hages in
theorem extensions_append {s : Storage V} {k : K} {a b : List (Invocation C)} :
    extensions extended k ((contractAt program self).history s (a ++ b)) =
      extensions extended k ((contractAt program self).history s a) ++
        extensions extended k
          ((contractAt program self).history ((contractAt program self).run s a) b) := by
  rw [Machine.history_append]
  exact List.filterMap_append

omit hages in
theorem mem_extensions {s : Storage V} {k : K} {js : List (Invocation C)} {ledger : Nat}
    (h : ledger ∈ extensions extended k ((contractAt program self).history s js)) :
    ∃ i ∈ js, i.env.sequence = ledger := by
  obtain ⟨t, ht, heq⟩ := List.mem_filterMap.mp h
  split at heq
  · cases heq
    obtain ⟨a, b, hsplit, _⟩ := (contractAt program self).mem_history ht
    exact ⟨t.input, by rw [hsplit]; simp, rfl⟩
  · cases heq

/-- Calls at most `threshold + 1` ledgers apart keep an entry live until that long after
the last one. -/
theorem run_inTime (hrule : threshold < extendTo) {s : Storage V} {k : K} {l due : Nat}
    (hl : s.lifetime k = some l) (hdue : due ≤ l) {js : List (Invocation C)}
    (hstays : ∀ t ∈ (contractAt program self).history s js, t.post.lifetime k ≠ none)
    (htime : InTime (threshold + 1) due
      (extensions extended k ((contractAt program self).history s js))) :
    ∃ l', ((contractAt program self).run s js).lifetime k = some l' ∧
      deadline (threshold + 1) due
        (extensions extended k ((contractAt program self).history s js)) ≤ l' := by
  induction js generalizing s l due with
  | nil => exact ⟨l, hl, hdue⟩
  | cons i js ih =>
    have hstays' : ∀ t ∈ (contractAt program self).history ((contractAt program self).next i s) js,
        t.post.lifetime k ≠ none := fun t ht => hstays t (List.mem_cons_of_mem _ ht)
    obtain ⟨l', hl', hle, hlive⟩ :=
      contractAt_lifetime hages self hl (hstays _ (List.mem_cons_self ..))
    rw [extensions_cons] at htime ⊢
    by_cases hext : ((contractAt program self).reply i s).Succeeded ∧
        extended s.entries i.call k = true
    · rw [if_pos hext] at htime ⊢
      obtain ⟨hnow, hrest⟩ := htime
      have hextended := hlive (Nat.le_trans hnow hdue)
      rw [if_pos hext] at hextended
      have hremains : i.env.sequence + (threshold + 1) ≤ l' := by
        rw [hextended]
        exact add_lt_extendUntil hrule
      rw [deadline_cons]
      exact ih hl' hremains hstays' hrest
    · rw [if_neg hext] at htime ⊢
      exact ih hl' (Nat.le_trans hdue hle) hstays' htime

/-- Calls that all count keep an entry live for its full lifetime after the last one. -/
theorem run_onCadence (hrule : threshold < extendTo) {s : Storage V} {k : K} {last : Nat}
    (hl : s.lifetime k = some (last + extendTo)) {js : List (Invocation C)}
    (hstays : ∀ t ∈ (contractAt program self).history s js, t.post.lifetime k ≠ none)
    (hordered : js.Pairwise fun i j => i.env.sequence ≤ j.env.sequence)
    (hcadence : OnCadence (extendTo - threshold) extendTo last
      (extensions extended k ((contractAt program self).history s js))) :
    ∃ l', ((contractAt program self).run s js).lifetime k = some l' ∧
      deadline extendTo (last + extendTo)
        (extensions extended k ((contractAt program self).history s js)) ≤ l' := by
  induction js generalizing s last with
  | nil => exact ⟨_, hl, Nat.le_refl _⟩
  | cons i js ih =>
    obtain ⟨hfirst, hordered'⟩ := List.pairwise_cons.mp hordered
    have hstays' : ∀ t ∈ (contractAt program self).history ((contractAt program self).next i s) js,
        t.post.lifetime k ≠ none := fun t ht => hstays t (List.mem_cons_of_mem _ ht)
    obtain ⟨l', hl', hle, hlive⟩ :=
      contractAt_lifetime hages self hl (hstays _ (List.mem_cons_self ..))
    rw [extensions_cons] at hcadence ⊢
    by_cases hext : ((contractAt program self).reply i s).Succeeded ∧
        extended s.entries i.call k = true
    · rw [if_pos hext] at hcadence ⊢
      obtain ⟨hearly, hlate, hrest⟩ := hcadence
      have hcounts := hlive hlate
      rw [if_pos hext, extendUntil_of_late hrule (by omega)] at hcounts
      rw [hcounts] at hl'
      rw [deadline_cons]
      exact ih hl' hstays' hordered' hrest
    · rw [if_neg hext] at hcadence ⊢
      by_cases hnow : i.env.sequence ≤ last + extendTo
      · have hsame := hlive hnow
        rw [if_neg hext] at hsame
        rw [hsame] at hl'
        exact ih hl' hstays' hordered' hcadence
      · -- The entry has run out and no call that extends it can come any more.
        have hnone : extensions extended k ((contractAt program self).history
            ((contractAt program self).next i s) js) = [] := by
          cases hlist : extensions extended k ((contractAt program self).history
            ((contractAt program self).next i s) js) with
          | nil => rfl
          | cons ledger rest =>
            rw [hlist] at hcadence
            obtain ⟨j, hj, hledger⟩ :=
              mem_extensions self (hlist ▸ List.mem_cons_self .. : ledger ∈ extensions extended k _)
            have hlater := hfirst j hj
            have hlate := hcadence.2.1
            omega
        have hidle : InTime (threshold + 1) (last + extendTo) (extensions extended k
            ((contractAt program self).history ((contractAt program self).next i s) js)) := by
          rw [hnone]
          trivial
        have hfinal := run_inTime hages self hrule hl' hle hstays' hidle
        rw [hnone] at hfinal ⊢
        exact hfinal

end Runs

/-! ### A single lifetime

The instance entry of a contract is there from its deployment and never removed, so
its lifetime is a number (`life`) that every step of a machine moves by the same
rule. -/

section Single
variable {ι ο σ : Type} {m : Machine ι ο σ} {life : σ → Nat} {ledger : ι → Nat}
  {renews : Machine.Step ι ο σ → Bool} {threshold extendTo : Nat}

/-- The ledgers of the steps that extend. -/
def renewals (ledger : ι → Nat) (renews : Machine.Step ι ο σ → Bool)
    (steps : List (Machine.Step ι ο σ)) : List Nat :=
  (steps.filter renews).map fun t => ledger t.input

/-- No step shortens the lifetime, and a step that finds it live follows the rule of
`extend_ttl` when it extends and leaves it alone when it does not. -/
def Machine.RenewsBy (m : Machine ι ο σ) (life : σ → Nat) (ledger : ι → Nat)
    (renews : Machine.Step ι ο σ → Bool) (threshold extendTo : Nat) : Prop :=
  ∀ i s, life s ≤ life (m.next i s) ∧
    (ledger i ≤ life s → life (m.next i s) =
      if renews (m.stepAt i s) then extendUntil threshold extendTo (ledger i) (life s) else life s)

variable (h : m.RenewsBy life ledger renews threshold extendTo) (hrule : threshold < extendTo)
include h hrule

theorem Machine.RenewsBy.run_inTime {s : σ} {due : Nat} (hdue : due ≤ life s) {js : List ι}
    (htime : InTime (threshold + 1) due (renewals ledger renews (m.history s js))) :
    deadline (threshold + 1) due (renewals ledger renews (m.history s js)) ≤ life (m.run s js) := by
  induction js generalizing s due with
  | nil => exact hdue
  | cons i js ih =>
    obtain ⟨hle, hlive⟩ := h i s
    cases hext : renews (m.stepAt i s) with
    | true =>
      simp only [Machine.history, renewals, List.filter_cons_of_pos hext, List.map_cons] at htime ⊢
      obtain ⟨hnow, hrest⟩ := htime
      have hextended := hlive (Nat.le_trans hnow hdue)
      rw [if_pos hext] at hextended
      have hremains : ledger i + (threshold + 1) ≤ life (m.next i s) := by
        rw [hextended]
        exact add_lt_extendUntil hrule
      rw [deadline_cons]
      exact ih hremains hrest
    | false =>
      have hskip : ¬ renews (m.stepAt i s) = true := by simp [hext]
      simp only [Machine.history, renewals, List.filter_cons_of_neg hskip] at htime ⊢
      exact ih (Nat.le_trans hdue hle) htime

theorem Machine.RenewsBy.run_onCadence {s : σ} {last : Nat} (hlast : life s = last + extendTo)
    {js : List ι} (hordered : js.Pairwise fun i j => ledger i ≤ ledger j)
    (hcadence : OnCadence (extendTo - threshold) extendTo last
      (renewals ledger renews (m.history s js))) :
    deadline extendTo (last + extendTo) (renewals ledger renews (m.history s js)) ≤
      life (m.run s js) := by
  induction js generalizing s last with
  | nil => exact Nat.le_of_eq hlast.symm
  | cons i js ih =>
    obtain ⟨hfirst, hordered'⟩ := List.pairwise_cons.mp hordered
    obtain ⟨hle, hlive⟩ := h i s
    cases hext : renews (m.stepAt i s) with
    | true =>
      simp only [Machine.history, renewals, List.filter_cons_of_pos hext, List.map_cons] at hcadence ⊢
      obtain ⟨hearly, hlate, hrest⟩ := hcadence
      have hstep : (m.stepAt i s).input = i := rfl
      rw [hstep] at hearly hlate hrest
      have hcounts := hlive (by omega)
      rw [if_pos hext, extendUntil_of_late hrule (by omega)] at hcounts
      rw [deadline_cons]
      exact ih hcounts hordered' hrest
    | false =>
      have hskip : ¬ renews (m.stepAt i s) = true := by simp [hext]
      simp only [Machine.history, renewals, List.filter_cons_of_neg hskip] at hcadence ⊢
      by_cases hnow : ledger i ≤ last + extendTo
      · have hsame := hlive (by omega)
        rw [if_neg hskip] at hsame
        exact ih (hsame.trans hlast) hordered' hcadence
      · -- It has run out, and no step that extends it can come any more.
        have hnone : (m.history (m.next i s) js).filter renews = [] := by
          cases hlist : (m.history (m.next i s) js).filter renews with
          | nil => rfl
          | cons t rest =>
            rw [hlist] at hcadence
            have hmem : t ∈ m.history (m.next i s) js :=
              (List.mem_filter.mp (hlist ▸ List.mem_cons_self ..)).1
            obtain ⟨a, b, hsplit, _⟩ := m.mem_history hmem
            have hlater := hfirst t.input (by rw [hsplit]; simp)
            have hlate : ledger t.input ≤ last + extendTo := hcadence.2.1
            omega
        have hrest : life (m.next i s) ≤ life (m.run (m.next i s) js) :=
          m.invariant_run (fun t => life (m.next i s) ≤ life t)
            (fun j t ht => Nat.le_trans ht (h j t).1) (Nat.le_refl _) js
        rw [hnone]
        exact Nat.le_trans (Nat.le_of_eq hlast.symm) (Nat.le_trans hle hrest)

end Single

end Soroban
