import Mathlib.Logic.Function.Iterate

/-! Host values: fixed-length byte strings, and addresses with their strkey text.

An address is an account or a contract and 32 bytes. Its text is the base32 form
of 35 bytes: a version byte that tells the two kinds apart, the payload, and the
CRC16/XMODEM checksum of those 33 bytes, low byte first. -/
namespace Soroban

/-- `n` bytes. -/
structure BytesN (n : Nat) where
  bytes : List UInt8
  length_eq : bytes.length = n
  deriving DecidableEq

theorem BytesN.bytes_inj {n : Nat} {a b : BytesN n} (h : a.bytes = b.bytes) : a = b := by
  obtain ⟨_, _⟩ := a
  obtain ⟨_, _⟩ := b
  cases h
  rfl

/-- The same byte `n` times. -/
def BytesN.fill (n : Nat) (b : UInt8) : BytesN n :=
  ⟨List.replicate n b, List.length_replicate ..⟩

inductive AddressKind where
  | account
  | contract
  deriving DecidableEq

structure Address where
  kind : AddressKind
  payload : BytesN 32
  deriving DecidableEq

/-! ### Strkey text -/

/-- The version byte: the text of an account starts with `G`, of a contract with `C`. -/
def AddressKind.version : AddressKind → UInt8
  | .account => 0x30
  | .contract => 0x10

def crcShift (crc : BitVec 16) : BitVec 16 :=
  if crc.msb then (crc <<< 1) ^^^ 0x1021#16 else crc <<< 1

def crcByte (crc : BitVec 16) (b : UInt8) : BitVec 16 :=
  crcShift^[8] (crc ^^^ (b.toBitVec.setWidth 16 <<< 8))

def crc16 (bytes : List UInt8) : BitVec 16 := bytes.foldl crcByte 0

/-- The checksum, low byte first. -/
def checksum (bytes : List UInt8) : List UInt8 :=
  [.ofBitVec ((crc16 bytes).setWidth 8), .ofBitVec ((crc16 bytes >>> 8).setWidth 8)]

/-- The bits of a byte, most significant first. -/
def bits (b : UInt8) : List Bool := (List.range 8).map b.toBitVec.getMsbD

/-- The alphabet is `A` to `Z`, then `2` to `7`. -/
def symbol (group : List Bool) : UInt8 :=
  let digit := group.foldl (fun n b => 2 * n + b.toNat) 0
  .ofNat (if digit < 26 then 65 + digit else 24 + digit)

/-- One symbol for every five bits; a short last group is filled with zeros. -/
def symbols : List Bool → List UInt8
  | a :: b :: c :: d :: e :: rest => symbol [a, b, c, d, e] :: symbols rest
  | [] => []
  | rest => [symbol ((rest ++ List.replicate 4 false).take 5)]

def base32 (bytes : List UInt8) : List UInt8 := symbols (bytes.flatMap bits)

/-- `Address::to_string`, as its ASCII codes. -/
def Address.toString (a : Address) : List UInt8 :=
  let body := a.kind.version :: a.payload.bytes
  base32 (body ++ checksum body)

end Soroban
