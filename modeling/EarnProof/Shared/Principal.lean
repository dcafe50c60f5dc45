import EarnProof.Shared.Types
import EarnProof.Soroban.Base32

/-! Which addresses are principals: every one but the account of 32 zero bytes.

The text of an address is the base32 form of 35 bytes, so it always has 56 symbols
of the alphabet and the two checks on its shape pass. The version byte and the
payload stand in front of the checksum, so two addresses with one text are equal,
and only the zero account has the text that is refused. -/
namespace EarnProof
open Soroban

/-- The account with 32 zero bytes. -/
def zeroAccount : Address := ⟨.account, .fill 32 0⟩

/-- The bytes behind the text of an address. -/
def strkeyBytes (a : Address) : List UInt8 :=
  let body := a.kind.version :: a.payload.bytes
  body ++ checksum body

theorem toString_eq (a : Address) : a.toString = base32 (strkeyBytes a) := rfl

theorem length_strkeyBytes (a : Address) : (strkeyBytes a).length = 5 * 7 := by
  show ((a.kind.version :: a.payload.bytes) ++ checksum _).length = 35
  rw [List.length_append, List.length_cons, a.payload.length_eq]
  rfl

theorem length_toString (a : Address) : a.toString.length = STRKEY_ADDRESS_LEN :=
  length_base32 (length_strkeyBytes a)

theorem version_inj : ∀ {k k' : AddressKind}, k.version = k'.version → k = k' := by
  intro k k' h
  cases k <;> cases k' <;> first | rfl | exact absurd h (by decide)

/-- The text of an address determines it. -/
theorem toString_inj {a b : Address} (h : a.toString = b.toString) : a = b := by
  have hbytes : strkeyBytes a = strkeyBytes b :=
    base32_inj (length_strkeyBytes a) (length_strkeyBytes b) h
  have hlen : (a.kind.version :: a.payload.bytes).length =
      (b.kind.version :: b.payload.bytes).length := by
    rw [List.length_cons, List.length_cons, a.payload.length_eq, b.payload.length_eq]
  obtain ⟨hbody, _⟩ := List.append_inj hbytes hlen
  obtain ⟨hversion, hbytes'⟩ := List.cons.inj hbody
  have hkind : a.kind = b.kind := version_inj hversion
  have hpayload : a.payload = b.payload := BytesN.bytes_inj hbytes'
  obtain ⟨_, _⟩ := a
  obtain ⟨_, _⟩ := b
  cases hkind
  cases hpayload
  rfl

theorem addressBytes_eq (a : Address) : addressBytes a = a.toString :=
  if_pos (length_toString a)

/-- The sentinel is the text of the zero account, its checksum included. -/
theorem toString_zeroAccount : zeroAccount.toString = ZERO_PAYLOAD_STRKEY := by
  decide +kernel

theorem isZeroOrSentinelAddress_iff (a : Address) :
    isZeroOrSentinelAddress a = true ↔ a = zeroAccount := by
  unfold isZeroOrSentinelAddress
  rw [addressBytes_eq, beq_iff_eq, ← toString_zeroAccount]
  exact ⟨toString_inj, fun h => by rw [h]⟩

theorem addressBytes_inAlphabet (a : Address) : (addressBytes a).all inAlphabet = true := by
  rw [addressBytes_eq, toString_eq]
  exact inAlphabet_base32 (length_strkeyBytes a)

/-- The checks on the shape of the text never decide. -/
theorem isValidPrincipalAddress_eq (a : Address) :
    isValidPrincipalAddress a = !isZeroOrSentinelAddress a := by
  have hlen : a.toString.length = 56 := length_toString a
  have hempty : a.toString.isEmpty = false := by
    rw [List.isEmpty_eq_false_iff, ← List.length_pos_iff]
    omega
  have hall : ((addressBytes a).all fun byte =>
      (65 ≤ byte && byte ≤ 90) || (50 ≤ byte && byte ≤ 55)) = true := addressBytes_inAlphabet a
  unfold isValidPrincipalAddress
  simp only [hempty, hlen, hall, STRKEY_ADDRESS_LEN]
  cases isZeroOrSentinelAddress a <;> rfl

/-- Every address is a principal but the account of 32 zero bytes: all texts have
the length and the alphabet that are checked, the sentinel is the zero account's,
and no other address has it. -/
theorem isValidPrincipalAddress_exact (a : Address) :
    (isValidPrincipalAddress a = false ↔
        a.kind = .account ∧ a.payload.bytes = List.replicate 32 0) ∧
      a.toString.length = STRKEY_ADDRESS_LEN ∧
      ((addressBytes a).all fun byte =>
        (65 ≤ byte && byte ≤ 90) || (50 ≤ byte && byte ≤ 55)) = true ∧
      zeroAccount.toString = ZERO_PAYLOAD_STRKEY ∧
      (isZeroOrSentinelAddress a = true ↔ a = zeroAccount) := by
  have hzero : a = zeroAccount ↔ a.kind = .account ∧ a.payload.bytes = List.replicate 32 0 := by
    obtain ⟨kind, bytes, _⟩ := a
    simp [zeroAccount, BytesN.fill]
  refine ⟨?_, length_toString a, addressBytes_inAlphabet a, toString_zeroAccount,
    isZeroOrSentinelAddress_iff a⟩
  rw [isValidPrincipalAddress_eq, Bool.not_eq_false', isZeroOrSentinelAddress_iff, hzero]

end EarnProof
