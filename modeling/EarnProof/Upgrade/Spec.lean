import EarnProof.Soroban.Spec
import EarnProof.Upgrade.Refusals

/-! The outcome of a governance call, and what it looks at and writes. -/
namespace EarnProof
open Soroban

namespace Governance
variable {K : Type} {V : K → Type} {Ev : Type} (G : Governance V) (wrap : UpgradeEvent → Ev)

/-- What a governance call that passes its checks does. -/
def outcome (d : Entries V) : UpgradeCall → Outcome V Ev Value
  | .getContractVersion => .query (.u32 (G.version d))
  | .approveUpgrade h n =>
    ⟨.unit, [(G.allowedWasm h).write (some n)],
      (G.admin.read d).toList.map fun admin => wrap (.upgradeAllowlisted h n admin)⟩
  | .revokeUpgrade h =>
    ⟨.unit, [(G.allowedWasm h).write none],
      (G.admin.read d).toList.map fun admin => wrap (.upgradeRevoked h admin)⟩
  | .isUpgradeAllowed h => .query (.bool ((G.allowedWasm h).read d).isSome)
  | .upgradeContract h =>
    ⟨.unit, [(G.allowedWasm h).write none, G.contractVersion.write ((G.allowedWasm h).read d)],
      match G.admin.read d, (G.allowedWasm h).read d with
      | some admin, some n => [wrap (.contractUpgraded h (G.version d) n admin)]
      | _, _ => []⟩

def seen : UpgradeCall → Set (StorageClass × K)
  | .getContractVersion => {(.inst, G.contractVersion.key)}
  | .approveUpgrade _ _ => {(.inst, G.admin.key), (.inst, G.contractVersion.key)}
  | .revokeUpgrade _ => {(.inst, G.admin.key)}
  | .isUpgradeAllowed h => {(.inst, (G.allowedWasm h).key)}
  | .upgradeContract h =>
    {(.inst, G.admin.key), (.inst, G.contractVersion.key), (.inst, (G.allowedWasm h).key)}

def touched : UpgradeCall → Set (StorageClass × K)
  | .getContractVersion | .isUpgradeAllowed _ => ∅
  | .approveUpgrade h _ | .revokeUpgrade h => {(.inst, (G.allowedWasm h).key)}
  | .upgradeContract h => {(.inst, (G.allowedWasm h).key), (.inst, G.contractVersion.key)}

theorem bounded (env : Env) (u : UpgradeCall) :
    Bounded (fun d => G.checks env d u) (fun d => G.outcome wrap d u) (G.seen u) (G.touched u) := by
  have hread : ∀ {α : Type} (s : Slot V α) {F : Set (StorageClass × K)} {d t : Entries V},
      AgreeOn F d t → (.inst, s.key) ∈ F → s.read t = s.read d :=
    fun s _ _ _ h hmem => s.read_agree (h _ _ hmem)
  have hversion : ∀ {F : Set (StorageClass × K)} {d t : Entries V}, AgreeOn F d t →
      (.inst, G.contractVersion.key) ∈ F → G.version t = G.version d :=
    fun h hmem => congrArg (Option.getD · 0) (hread _ h hmem)
  cases u with
  | getContractVersion =>
    exact .lookup (fun _ _ _ => rfl)
      (fun d t h => by simp only [outcome, version, G.contractVersion.read_agree h]) fun _ => rfl
  | approveUpgrade hash n =>
    refine ⟨fun d t h => ?_, fun d t h => ?_, fun d w hw => ?_⟩
    · simp only [checks, hread G.admin h (by simp [seen]), hversion h (by simp [seen])]
    · simp only [outcome, hread G.admin h (by simp [seen])]
    · rw [List.mem_singleton.mp hw]
      exact Slot.write_place _ _
  | revokeUpgrade hash =>
    refine ⟨fun d t h => ?_, fun d t h => ?_, fun d w hw => ?_⟩
    · simp only [checks, hread G.admin h (by simp [seen])]
    · simp only [outcome, hread G.admin h (by simp [seen])]
    · rw [List.mem_singleton.mp hw]
      exact Slot.write_place _ _
  | isUpgradeAllowed hash =>
    exact .lookup (fun _ _ _ => rfl)
      (fun d t h => by simp only [outcome, (G.allowedWasm hash).read_agree h]) fun _ => rfl
  | upgradeContract hash =>
    refine ⟨fun d t h => ?_, fun d t h => ?_, fun d w hw => ?_⟩
    · simp only [checks, hread G.admin h (by simp [seen]), hversion h (by simp [seen]),
        hread (G.allowedWasm hash) h (by simp [seen])]
    · simp only [outcome, hread G.admin h (by simp [seen]), hversion h (by simp [seen]),
        hread (G.allowedWasm hash) h (by simp [seen])]
    · simp only [outcome, List.mem_cons, List.not_mem_nil, or_false] at hw
      rcases hw with rfl | rfl
      · exact .inl (Slot.write_place _ _)
      · exact .inr (Slot.write_place _ _)

variable [DecidableEq K] {G wrap} {env : Env} {d d' : Entries V} {u : UpgradeCall} {v : Value}
  {events : List Ev}

theorem Effect.tells (h : G.Effect wrap env d u v d' events) :
    (G.outcome wrap d u).Tells d v d' events := by
  cases u with
  | getContractVersion =>
    obtain ⟨hv, hd, hevents⟩ := h
    exact ⟨hv, hd, hevents⟩
  | approveUpgrade hash n =>
    obtain ⟨admin, ha, _, _, hv, hd, hevents⟩ := h
    exact ⟨hv, by simpa [outcome, Entries.putAll] using hd,
      by simp [outcome, ha, hevents]⟩
  | revokeUpgrade hash =>
    obtain ⟨admin, ha, _, hv, hd, hevents⟩ := h
    exact ⟨hv, by simpa [outcome, Entries.putAll] using hd,
      by simp [outcome, ha, hevents]⟩
  | isUpgradeAllowed hash =>
    obtain ⟨hv, hd, hevents⟩ := h
    exact ⟨hv, hd, hevents⟩
  | upgradeContract hash =>
    obtain ⟨admin, n, ha, _, hn, _, _, hv, hd, hevents⟩ := h
    refine ⟨hv, ?_, ?_⟩
    · rw [hd, outcome, Slot.putAll_write, Slot.putAll_write, hn]
      rfl
    · rw [hevents, outcome, ha, hn]

end Governance
end EarnProof
